import Ferrocrate.Dockerfile.IdentityBinding
import Ferrocrate.Lib.Loops

/-! When two stages of any two builds have one identity. -/
namespace Ferrocrate.Dockerfile
open Lib

structure Build.Fits (build : Build) : Prop where
  baseDigests : ∀ digest ∈ build.baseDigests, digest.utf8ByteSize < 2 ^ 64
  context : build.contextBindingDigest.utf8ByteSize < 2 ^ 64

/-- A stage reads the context through `COPY`, `ADD`, `COPY --from` or a bind mount; one that has
neither `COPY` nor `ADD` of the context gets the whole of it. -/
def StageSpec.ReadsContext (stage : StageSpec) : Prop :=
  stage.consumesContext = true ∨ (∃ run ∈ stage.run, run.bindMounts ≠ []) ∨
    stage.copyPaths = [] ∧ stage.copyPathsAfterRun = []

theorem StageSpec.readsContext_of_not_consumes {stage : StageSpec}
    (h : stage.consumesContext = false) : stage.ReadsContext := by
  refine .inr (.inr ?_)
  simp only [StageSpec.consumesContext, ne_eq, Bool.or_eq_false_iff, decide_eq_false_iff_not,
    not_not] at h
  exact ⟨h.1.1.1, h.1.1.2⟩

def Build.dependenciesAt (build : Build) (index : Nat) : List Nat :=
  build.dependencies[index]?.getD []

structure SameInputs (b b' : Build) (ids ids' : List String) (i j : Nat) (s t : StageSpec) :
    Prop where
  stage : t = s
  base : b'.baseDigests[j]?.getD "" = b.baseDigests[i]?.getD ""
  compression : b'.compression = b.compression
  parents : (b'.dependenciesAt j).map (ids'[·]?) = (b.dependenciesAt i).map (ids[·]?)
  context : s.ReadsContext → b'.contextBindingDigest = b.contextBindingDigest

variable {s t : StageSpec}

theorem consumesContext_congr (h : t.unsplit = s.unsplit) :
    t.consumesContext = s.consumesContext := by
  have hconsumes : ∀ u : StageSpec, u.unsplit.consumesContext = u.consumesContext := by
    intro u
    simp only [StageSpec.consumesContext, StageSpec.unsplit, ne_eq, List.append_eq_nil_iff]
    by_cases h1 : u.copyPaths = [] <;> by_cases h2 : u.copyPathsAfterRun = [] <;>
      by_cases h3 : u.copyFrom = [] <;> by_cases h4 : u.copyFromAfterRun = [] <;>
        simp [h1, h2, h3, h4]
  exact (hconsumes t).symm.trans ((congrArg _ h).trans (hconsumes s))

theorem message_inj {b b' : Build} {ids ids' : List String} {i j : Nat}
    {m : Bytes} {ps ps' : List String} (hb : b.Fits) (hb' : b'.Fits) (hs : s.Parsed) (ht : t.Parsed)
    (hs' : s.Unmarked) (ht' : t.Unmarked) (hps : b.parents ids i = .ok ps)
    (hps' : b'.parents ids' j = .ok ps') (hfit : ∀ p ∈ ps ++ ps', p.utf8ByteSize < 2 ^ 64)
    (hm : b.message ids i s = .ok m) (hm' : b'.message ids' j t = .ok m) :
    t.unsplit = s.unsplit ∧ b'.baseDigests[j]?.getD "" = b.baseDigests[i]?.getD "" ∧
      b'.compression = b.compression ∧ ps' = ps ∧
      (s.consumesContext = true → b'.contextBindingDigest = b.contextBindingDigest) := by
  have hfields : ∀ {b : Build} {i : Nat} {s : StageSpec} {ps : List String}, b.Fits →
      s.Parsed → (∀ p ∈ ps, p.utf8ByteSize < 2 ^ 64) → ∀ field ∈ ("base", b.baseDigests[i]?.getD "") ::
        (s.fields ++ (b.contextFields s ++ tagged "parent" ps)),
        field ∈ {field : Field | field.1 ∈ tags ∧ field.2.utf8ByteSize < 2 ^ 64} := by
    intro b i s ps hb hs hps field hfield
    rcases List.mem_cons.mp hfield with rfl | hfield
    · refine ⟨by simp [tags], ?_⟩
      cases hget : b.baseDigests[i]? with
      | none => exact by decide
      | some digest => exact hb.baseDigests digest (List.mem_of_getElem? hget)
    · rcases List.mem_append.mp hfield with hfield | hfield
      · exact ⟨s.allTags_fields field hfield, hs.fits field hfield⟩
      · rcases List.mem_append.mp hfield with hfield | hfield
        · rw [Build.contextFields] at hfield
          split at hfield
          · rw [List.mem_singleton] at hfield
            subst hfield
            exact ⟨by simp [tags], hb.context⟩
          · cases hfield
        · obtain ⟨p, hp, rfl⟩ := List.mem_map.mp hfield
          exact ⟨by simp [tags], hps p hp⟩
  simp only [Build.message, hps, hps', bind, Except.bind, pure, Except.pure, Except.ok.injEq]
    at hm hm'
  have heq := hm.trans hm'.symm
  obtain ⟨hcode, heq⟩ := List.cons.inj (List.append_cancel_left heq)
  have heq := framedOn_bytes.flatMap_inj Field.bytes_ne_nil
    (hfields hb hs fun p hp => hfit p (List.mem_append_left _ hp))
    (hfields hb' ht fun p hp => hfit p (List.mem_append_right _ hp)) heq
  simp only [List.cons.injEq, Prod.mk.injEq, true_and] at heq
  obtain ⟨hbase, heq⟩ := heq
  have hbehind : ∀ (b : Build) (s : StageSpec) (ps : List String),
      Behind (b.contextFields s ++ tagged "parent" ps) := by
    intro b s ps field hfield
    have hmem := List.mem_of_mem_head? hfield
    rcases List.mem_append.mp hmem with hmem | hmem
    · rw [Build.contextFields] at hmem
      split at hmem
      · rw [List.mem_singleton] at hmem
        simp [hmem]
      · cases hmem
    · obtain ⟨p, -, rfl⟩ := List.mem_map.mp hmem
      simp
  obtain ⟨hunsplit, heq⟩ := StageSpec.fields_append_inj hs ht hs' ht' (hbehind b s ps)
    (hbehind b' t ps') heq
  have hconsumes := consumesContext_congr hunsplit
  refine ⟨hunsplit.symm, hbase.symm, (CompressionFormat.code_injective hcode).symm, ?_⟩
  simp only [Build.contextFields, ← hconsumes] at heq
  by_cases hc : s.consumesContext = true
  · simp only [hc, if_true, List.cons_append, List.nil_append, List.cons.injEq, Prod.mk.injEq,
      true_and] at heq
    have hps := (tagged_append_inj (s := []) (t := []) (by simpa using heq.2) (by simp)
      (by simp)).1
    exact ⟨hps.symm, fun _ => heq.1.symm⟩
  · simp only [hc, Bool.false_eq_true, if_false, List.nil_append] at heq
    have hps := (tagged_append_inj (s := []) (t := []) (by simpa using heq) (by simp)
      (by simp)).1
    exact ⟨hps.symm, fun h => absurd h hc⟩

section
variable (shake256 : Bytes → String)

def Hashed (build : Build) (message : Bytes) : Prop :=
  ∃ ids index stage, stageContentIdentities shake256 build = .ok ids ∧
    build.stages[index]? = some stage ∧
    build.message (ids.take index) index stage = .ok message

def Separated (b b' : Build) : Prop :=
  ∀ m m', Hashed shake256 b m → Hashed shake256 b' m' → shake256 m = shake256 m' → m = m'

variable {shake256} {b : Build}

theorem identities_loop {stages : List StageSpec} {k : Nat} {before ids : List String}
    (hlength : before.length = k)
    (h : (stages.zipIdx k).foldlM (fun identities entry => do
      let buffer ← b.message identities entry.2 entry.1
      pure (identities ++ [shake256 buffer])) before = .ok ids) :
    before <+: ids ∧ (∀ x ∈ ids, x ∈ before ∨ ∃ m, x = shake256 m) ∧
      ∀ j stage, stages[j]? = some stage →
        ∃ m, b.message (ids.take (k + j)) (k + j) stage = .ok m ∧
          ids[k + j]? = some (shake256 m) := by
  induction stages generalizing k before with
  | nil =>
    cases h
    exact ⟨List.prefix_rfl, fun x hx => .inl hx, fun j stage hstage => by simp at hstage⟩
  | cons first stages ih =>
    rw [List.zipIdx_cons, List.foldlM_cons] at h
    obtain ⟨after, hstep, h⟩ := Except.bind_eq_ok.mp h
    obtain ⟨m, hm, hafter⟩ := Except.bind_eq_ok.mp hstep
    cases hafter
    obtain ⟨hfirst, hhashes, hrest⟩ := ih (by simp [hlength]) h
    refine ⟨(List.prefix_append before _).trans hfirst, ?_, ?_⟩
    · intro x hx
      rcases hhashes x hx with hx | hx
      · rcases List.mem_append.mp hx with hx | hx
        · exact .inl hx
        · exact .inr ⟨m, List.mem_singleton.mp hx⟩
      · exact .inr hx
    · intro j stage hstage
      cases j with
      | zero =>
        cases hstage
        obtain ⟨rest, rfl⟩ := hfirst
        refine ⟨m, ?_, ?_⟩
        · rw [Nat.add_zero, List.append_assoc, List.take_left' hlength]
          exact hm
        · simp [← hlength]
      | succ j =>
        have hj : k + (j + 1) = k + 1 + j := by omega
        rw [hj]
        exact hrest j stage (by simpa using hstage)

theorem identities_of_ok {ids : List String}
    (h : stageContentIdentities shake256 b = .ok ids) :
    (∀ x ∈ ids, ∃ m, x = shake256 m) ∧ ∀ i s, b.stages[i]? = some s →
      ∃ m, b.message (ids.take i) i s = .ok m ∧ ids[i]? = some (shake256 m) := by
  rw [stageContentIdentities] at h
  split at h
  · cases h
  · obtain ⟨-, hhashes, hstages⟩ := identities_loop rfl h
    exact ⟨fun x hx => (hhashes x hx).resolve_left (by simp), by simpa using hstages⟩

theorem parents_map {ids ps : List String} {i : Nat}
    (h : b.parents (ids.take i) i = .ok ps) :
    (b.dependenciesAt i).map (ids[·]?) = ps.map some := by
  have hall := Except.mapM_eq_ok h
  rw [Build.dependenciesAt]
  clear h
  generalize b.dependencies[i]?.getD [] = dependencies at hall
  induction hall with
  | nil => rfl
  | @cons d p _ _ hp _ ih =>
    have hget : ids[d]? = some p := by
      cases htake : (ids.take i)[d]? with
      | none =>
        rw [htake] at hp
        cases hp
      | some q =>
        rw [htake] at hp
        cases hp
        rw [List.getElem?_take] at htake
        split at htake
        · exact htake
        · cases htake
    rw [List.map_cons, List.map_cons, hget, ih]

theorem message_parents {ids : List String} {i : Nat} {s : StageSpec} {m : Bytes}
    (h : b.message ids i s = .ok m) : ∃ ps, b.parents ids i = .ok ps := by
  obtain ⟨ps, hps, -⟩ := Except.bind_eq_ok.mp h
  exact ⟨ps, hps⟩

theorem parents_fit (hlength : ∀ m, (shake256 m).utf8ByteSize = 64)
    {ids ps : List String} {i : Nat} (hids : stageContentIdentities shake256 b = .ok ids)
    (h : b.parents (ids.take i) i = .ok ps) : ∀ p ∈ ps, p.utf8ByteSize < 2 ^ 64 := by
  intro p hp
  have hmem : some p ∈ (b.dependenciesAt i).map (ids[·]?) := by
    rw [parents_map h]
    exact List.mem_map_of_mem hp
  obtain ⟨d, -, hget⟩ := List.mem_map.mp hmem
  obtain ⟨m, rfl⟩ := (identities_of_ok hids).1 p (List.mem_of_getElem? hget)
  rw [hlength]
  decide

end

/-- Nothing that the identity leaves out: no bound between copies before and after the first run,
and no context but the one that some copy binds. -/
structure StageSpec.Bound (stage : StageSpec) : Prop where
  copyFrom : stage.copyFromAfterRun = [] ∨
    stage.copyFrom = [] ∧ stage.copyFromAfterRun.length = 1
  copyPaths : stage.copyPaths = [] ∧ stage.copyPathsAfterRun = [] ∨ stage.run = []
  context : stage.consumesContext = true

theorem StageSpec.Bound.eq_of_unsplit (h : s.Bound) (hs : s.Parsed)
    (ht : t.Parsed) (heq : t.unsplit = s.unsplit) : t = s := by
  obtain ⟨hl, hr⟩ := hs.sorted
  obtain ⟨hl', hr'⟩ := ht.sorted
  have hrun : t.run = s.run := by
    show t.unsplit.run = s.unsplit.run
    rw [heq]
  have hfrom : t.copyFrom ++ t.copyFromAfterRun = s.copyFrom ++ s.copyFromAfterRun := by
    show t.unsplit.copyFrom = s.unsplit.copyFrom
    rw [heq]
  have hindex : t.copyFromAfterRunIndex = s.copyFromAfterRunIndex := by
    show t.unsplit.copyFromAfterRunIndex = s.unsplit.copyFromAfterRunIndex
    rw [heq]
  have hpaths : t.copyPaths ++ t.copyPathsAfterRun = s.copyPaths ++ s.copyPathsAfterRun := by
    show t.unsplit.copyPaths = s.unsplit.copyPaths
    rw [heq]
  have hafter : t.copyFromAfterRun = [] ↔ s.copyFromAfterRun = [] := by
    have h1 := hl.index_none
    have h2 := hl'.index_none
    simp only [StageSpec.sorted, hindex] at h1 h2
    rw [← h1, ← h2]
  have hcopyFrom : t.copyFrom = s.copyFrom ∧ t.copyFromAfterRun = s.copyFromAfterRun := by
    rcases h.copyFrom with hnone | ⟨hbefore, hone⟩
    · have hnone' := hafter.mpr hnone
      rw [hnone, hnone'] at hfrom
      exact ⟨by simpa using hfrom, hnone'.trans hnone.symm⟩
    · have hne : t.copyFromAfterRun ≠ [] := by
        intro hnone
        rw [hafter.mp hnone] at hone
        cases hone
      have hlength := congrArg List.length hfrom
      rw [hbefore, List.nil_append, List.length_append, hone] at hlength
      have hpos := List.length_pos_of_ne_nil hne
      have hempty : t.copyFrom = [] := List.length_eq_zero_iff.mp (by omega)
      rw [hbefore, hempty] at hfrom
      exact ⟨hempty.trans hbefore.symm, hfrom⟩
  have hnorun : ∀ {u : StageSpec}, u.Parsed → u.run = [] → u.copyPathsAfterRun = [] := by
    intro u hu hrun
    by_contra hne
    obtain ⟨a, ha⟩ := Option.ne_none_iff_exists'.mp (mt hu.sorted.right.index_none.mp hne)
    have := hu.sorted.right.le a ha
    simp only [StageSpec.sorted, hrun, List.length_nil] at this
    omega
  have hnone : t.copyPathsAfterRun = [] ∧ s.copyPathsAfterRun = [] := by
    rcases h.copyPaths with ⟨hbefore, hnone⟩ | hempty
    · rw [hbefore, hnone, List.append_nil, List.append_eq_nil_iff] at hpaths
      exact ⟨hpaths.2, hnone⟩
    · exact ⟨hnorun ht (hrun.trans hempty), hnorun hs hempty⟩
  have hcopyPaths : t.copyPaths = s.copyPaths := by
    rwa [hnone.1, hnone.2, List.append_nil, List.append_nil] at hpaths
  have hpathsIndex : t.copyPathsAfterRunIndex = none ∧ s.copyPathsAfterRunIndex = none :=
    ⟨hr'.index_none.mpr hnone.1, hr.index_none.mpr hnone.2⟩
  cases s
  cases t
  simp_all [StageSpec.unsplit]

/-! ## Stages with one identity -/

theorem StageSpec.Parsed.of_unsplit (hs : s.Parsed) (h : t.unsplit = s.unsplit)
    (hok : t.sorted.Ok) : t.Parsed := by
  have hfields := StageSpec.fields_congr h
  simp only [StageSpec.unsplit, StageSpec.mk.injEq] at h
  obtain ⟨-, -, hfrom, -, -, hpaths, -, -, -, -, hargs, hlabels, -, -, -, -, -, -, -, -, hrun, -⟩ := h
  exact ⟨hok, hrun ▸ hs.runs, hfrom ▸ hs.copyFromOwner, hpaths ▸ hs.copyOwner, hargs ▸ hs.args,
    hlabels ▸ hs.labels, hfields ▸ hs.fits⟩

theorem StageSpec.Unmarked.of_unsplit (hs : s.Unmarked)
    (h : t.unsplit = s.unsplit) : t.Unmarked := by
  simp only [StageSpec.unsplit, StageSpec.mk.injEq] at h
  obtain ⟨-, hname, -, -, -, hpaths, -, -, -, -, -, -, hworkdir, huser, hstop, hauthor, -, hentry,
    hcmd, -, hrun, -⟩ := h
  exact ⟨hname ▸ hs.name, hpaths ▸ hs.checksum, hpaths ▸ hs.inline, hworkdir ▸ hs.workdir,
    huser ▸ hs.user, hstop ▸ hs.stopSignal, hauthor ▸ hs.author, hentry ▸ hs.entrypoint,
    hcmd ▸ hs.cmd, hrun ▸ hs.run⟩

variable {s : StageSpec}

theorem exists_other_copyFrom (hs : s.Parsed)
    (h : ¬ (s.copyFromAfterRun = [] ∨ s.copyFrom = [] ∧ s.copyFromAfterRun.length = 1)) :
    ∃ t : StageSpec, t.sorted.Ok ∧ t.unsplit = s.unsplit ∧ t ≠ s := by
  rw [not_or, not_and] at h
  obtain ⟨hne, hlength⟩ := h
  have hindex := mt hs.sorted.left.index_none.mp hne
  rcases List.eq_nil_or_concat' s.copyFrom with hbefore | ⟨pre, x, hbefore⟩
  · obtain ⟨x, rest, hafter⟩ := List.exists_cons_of_ne_nil hne
    have hrest : rest ≠ [] := by
      intro hempty
      rw [hafter, hempty] at hlength
      exact hlength hbefore rfl
    refine ⟨{ s with copyFrom := [x], copyFromAfterRun := rest }, ⟨⟨?_, hs.sorted.left.le⟩,
      hs.sorted.right⟩, ?_, ?_⟩
    · exact iff_of_false hindex hrest
    · simp [StageSpec.unsplit, hbefore, hafter]
    · intro heq
      have := congrArg StageSpec.copyFrom heq
      simp [hbefore] at this
  · refine ⟨{ s with copyFrom := pre, copyFromAfterRun := x :: s.copyFromAfterRun },
      ⟨⟨?_, hs.sorted.left.le⟩, hs.sorted.right⟩, ?_, ?_⟩
    · exact iff_of_false hindex (List.cons_ne_nil _ _)
    · simp [StageSpec.unsplit, hbefore]
    · intro heq
      have := congrArg (fun s => s.copyFrom.length) heq
      simp [hbefore] at this

theorem exists_other_copyPaths (hs : s.Parsed)
    (h : ¬ (s.copyPaths = [] ∧ s.copyPathsAfterRun = [] ∨ s.run = [])) :
    ∃ t : StageSpec, t.sorted.Ok ∧ t.unsplit = s.unsplit ∧ t ≠ s := by
  rw [not_or] at h
  obtain ⟨hne, hrun⟩ := h
  have hpos := List.length_pos_of_ne_nil hrun
  by_cases hafter : s.copyPathsAfterRun = []
  · have hbefore : s.copyPaths ≠ [] := fun hbefore => hne ⟨hbefore, hafter⟩
    refine ⟨{ s with
      copyPaths := []
      copyPathsAfterRun := s.copyPaths
      copyPathsAfterRunIndex := some 1 }, ⟨hs.sorted.left, ⟨?_, ?_⟩⟩, ?_, ?_⟩
    · exact iff_of_false (Option.some_ne_none 1) hbefore
    · intro a ha
      cases ha
      exact ⟨le_rfl, hpos⟩
    · simp [StageSpec.unsplit, hafter]
    · intro heq
      exact hbefore (congrArg StageSpec.copyPaths heq).symm
  · refine ⟨{ s with
      copyPaths := s.copyPaths ++ s.copyPathsAfterRun
      copyPathsAfterRun := []
      copyPathsAfterRunIndex := none }, ⟨hs.sorted.left, ⟨?_, ?_⟩⟩, ?_, ?_⟩
    · exact iff_of_true rfl rfl
    · intro a ha
      cases ha
    · simp [StageSpec.unsplit]
    · intro heq
      exact hafter (congrArg StageSpec.copyPathsAfterRun heq).symm

def Build.single (stage : StageSpec) (context : String) : Build where
  stages := [stage]
  baseDigests := [""]
  contextBindingDigest := context
  dependencies := [[]]
  compression := .none

def singleMessage (stage : StageSpec) (context : String) : Bytes :=
  utf8 "ferrocrate/stage-identity/v2\x00" ++ 0 ::
    (("base", "") :: (stage.fields ++
      ((Build.single stage context).contextFields stage ++ tagged "parent" []))).flatMap Field.bytes

theorem singleMessage_congr (h : t.unsplit = s.unsplit) (context : String) :
    singleMessage t context = singleMessage s context := by
  simp only [singleMessage, Build.contextFields, StageSpec.fields_congr h, consumesContext_congr h]
  rfl

theorem singleMessage_context (h : s.consumesContext = false) (a b : String) :
    singleMessage s a = singleMessage s b := by
  simp [singleMessage, Build.contextFields, h]

theorem Build.fits_single (stage : StageSpec) {context : String}
    (h : context.utf8ByteSize < 2 ^ 64) : (Build.single stage context).Fits where
  baseDigests := by
    intro digest hdigest
    rw [List.mem_singleton.mp hdigest]
    decide
  context := h

section
variable {shake256 : Bytes → String}

theorem identities_single (stage : StageSpec) (context : String) :
    stageContentIdentities shake256 (Build.single stage context) =
      .ok [shake256 (singleMessage stage context)] := rfl

theorem hashed_single {stage : StageSpec} {context : String} {m : Bytes}
    (h : Hashed shake256 (Build.single stage context) m) : m = singleMessage stage context := by
  obtain ⟨ids, index, other, -, hstage, hm⟩ := h
  cases index with
  | zero =>
    cases hstage
    exact (Except.ok.inj hm).symm
  | succ index => simp [Build.single] at hstage

theorem separated_single {s t : StageSpec} {a b : String}
    (h : singleMessage s a = singleMessage t b) :
    Separated shake256 (Build.single s a) (Build.single t b) := by
  intro m m' hm hm' _
  rw [hashed_single hm, hashed_single hm', h]

end

/-! ## Checkpoints of completed stages -/

structure CompletedStage where
  build : Build
  identities : List String
  index : Nat
  stage : StageSpec
  output : BuiltStage

structure CompletedStage.Ran (shake256 : Bytes → String) (c : CompletedStage) : Prop where
  fits : c.build.Fits
  identities : stageContentIdentities shake256 c.build = .ok c.identities
  stage : c.build.stages[c.index]? = some c.stage

def checkpointsAfter (completed : List CompletedStage) : StageCheckpoints :=
  completed.foldl (fun checkpoints c => checkpoints.insert c.identities c.index c.output)
    fun _ => none

theorem checkpointsAfter_concat (completed : List CompletedStage) (c : CompletedStage) :
    checkpointsAfter (completed ++ [c]) =
      (checkpointsAfter completed).insert c.identities c.index c.output := by
  simp [checkpointsAfter]

-- By induction on the completed stages from the last one back, which alone writes its entry.
theorem checkpointsAfter_eq_some {completed : List CompletedStage} {idx : Nat}
    {checkpoint : StageCheckpoint} (h : checkpointsAfter completed idx = some checkpoint) :
    ∃ c ∈ completed, c.index = idx ∧ checkpoint.buildKey = c.identities[c.index]?.getD "" ∧
      checkpoint.layerDigest = c.output.layerDigest ∧
      checkpoint.contextLayer = c.output.contextLayer := by
  induction completed using List.reverseRecOn with
  | nil => cases h
  | append_singleton completed c ih =>
    rw [checkpointsAfter_concat, StageCheckpoints.insert, Function.update_apply] at h
    by_cases hidx : idx = c.index
    · rw [if_pos hidx] at h
      cases h
      exact ⟨c, by simp, hidx.symm, rfl, rfl, rfl⟩
    · rw [if_neg hidx] at h
      obtain ⟨c', hmem, hc'⟩ := ih h
      exact ⟨c', List.mem_append_left _ hmem, hc'⟩

theorem StageCheckpoints.restorable_eq_some {checkpoints : StageCheckpoints}
    {stages : List StageSpec} {identities : List String} {noCache : Option (List String)} {idx : Nat}
    {stage : StageSpec} {checkpoint : StageCheckpoint}
    (h : checkpoints.restorable stages identities noCache idx stage = some checkpoint) :
    checkpoints idx = some checkpoint ∧ identities[idx]? = some checkpoint.buildKey := by
  rw [StageCheckpoints.restorable] at h
  split at h
  · cases h
  · obtain ⟨hfound, hkey⟩ := Option.filter_eq_some_iff.mp h
    exact ⟨(Option.filter_eq_some_iff.mp hfound).1, (beq_iff_eq.mp hkey).symm⟩

/-- Equal identities of this stage and of a stage of any build come from equal inputs. -/
def StageSpec.IdentityComplete (shake256 : Bytes → String) (s : StageSpec) : Prop :=
  ∀ (b b' : Build) (ids ids' : List String) (i j : Nat) (t : StageSpec), b.Fits → b'.Fits →
    t.Parsed → t.Unmarked → Separated shake256 b b' →
    stageContentIdentities shake256 b = .ok ids → stageContentIdentities shake256 b' = .ok ids' →
    b.stages[i]? = some s → b'.stages[j]? = some t → ids'[j]? = ids[i]? →
    SameInputs b b' ids ids' i j s t

/-- Whatever stages were completed before, what a build restores was written by one of them at
the same place, and if that was this stage, then from the same inputs. -/
def StageSpec.RestoredFromSameInputs (shake256 : Bytes → String) (s : StageSpec) : Prop :=
  ∀ (completed : List CompletedStage) (b' : Build) (ids' : List String)
    (noCache : Option (List String)) (idx : Nat) (t : StageSpec) (checkpoint : StageCheckpoint),
    (∀ c ∈ completed, c.Ran shake256 ∧ Separated shake256 c.build b') → b'.Fits →
    t.Parsed → t.Unmarked → stageContentIdentities shake256 b' = .ok ids' →
    b'.stages[idx]? = some t →
    (checkpointsAfter completed).restorable b'.stages ids' noCache idx t = some checkpoint →
    ∃ c ∈ completed, c.index = idx ∧ checkpoint.layerDigest = c.output.layerDigest ∧
      checkpoint.contextLayer = c.output.contextLayer ∧
      (c.stage = s → SameInputs c.build b' c.identities ids' idx idx s t)

section
variable {shake256 : Bytes → String}

theorem same_identity (hlength : ∀ m, (shake256 m).utf8ByteSize = 64) {b b' : Build}
    {ids ids' : List String} {i j : Nat} (hs : s.Parsed) (hs' : s.Unmarked) (ht : t.Parsed)
    (ht' : t.Unmarked) (hb : b.Fits) (hb' : b'.Fits) (hsep : Separated shake256 b b')
    (hids : stageContentIdentities shake256 b = .ok ids)
    (hids' : stageContentIdentities shake256 b' = .ok ids') (hstage : b.stages[i]? = some s)
    (hstage' : b'.stages[j]? = some t) (heq : ids'[j]? = ids[i]?) :
    t.unsplit = s.unsplit ∧ b'.baseDigests[j]?.getD "" = b.baseDigests[i]?.getD "" ∧
      b'.compression = b.compression ∧
      (b'.dependenciesAt j).map (ids'[·]?) = (b.dependenciesAt i).map (ids[·]?) ∧
      (s.consumesContext = true → b'.contextBindingDigest = b.contextBindingDigest) := by
  obtain ⟨-, hmessages⟩ := identities_of_ok hids
  obtain ⟨-, hmessages'⟩ := identities_of_ok hids'
  obtain ⟨m, hm, hid⟩ := hmessages i s hstage
  obtain ⟨m', hm', hid'⟩ := hmessages' j t hstage'
  rw [hid, hid', Option.some.injEq] at heq
  have hsame := hsep m m' ⟨ids, i, s, hids, hstage, hm⟩ ⟨ids', j, t, hids', hstage', hm'⟩ heq.symm
  subst hsame
  obtain ⟨ps, hps⟩ := message_parents hm
  obtain ⟨ps', hps'⟩ := message_parents hm'
  have hfit : ∀ p ∈ ps ++ ps', p.utf8ByteSize < 2 ^ 64 := by
    intro p hp
    rcases List.mem_append.mp hp with hp | hp
    · exact parents_fit hlength hids hps p hp
    · exact parents_fit hlength hids' hps' p hp
  obtain ⟨hunsplit, hbase, hcompression, hparents, hcontext⟩ :=
    message_inj hb hb' hs ht hs' ht' hps hps' hfit hm hm'
  refine ⟨hunsplit, hbase, hcompression, ?_, hcontext⟩
  rw [parents_map hps, parents_map hps', hparents]

theorem StageSpec.Bound.identityComplete (hlength : ∀ m, (shake256 m).utf8ByteSize = 64)
    (hs : s.Parsed) (hs' : s.Unmarked) (hbound : s.Bound) : s.IdentityComplete shake256 := by
  intro b b' ids ids' i j t hb hb' ht ht' hsep hids hids' hstage hstage' heq
  obtain ⟨hunsplit, hbase, hcompression, hparents, hcontext⟩ :=
    same_identity hlength hs hs' ht ht' hb hb' hsep hids hids' hstage hstage' heq
  refine ⟨hbound.eq_of_unsplit hs ht hunsplit, hbase, hcompression, hparents, ?_⟩
  intro _
  exact hcontext hbound.context

theorem restored_same_identity {completed : List CompletedStage} {b' : Build} {ids' : List String}
    {noCache : Option (List String)} {idx : Nat} {t : StageSpec} {checkpoint : StageCheckpoint}
    (hran : ∀ c ∈ completed, c.Ran shake256 ∧ Separated shake256 c.build b')
    (h : (checkpointsAfter completed).restorable b'.stages ids' noCache idx t = some checkpoint) :
    ∃ c ∈ completed, c.index = idx ∧ checkpoint.layerDigest = c.output.layerDigest ∧
      checkpoint.contextLayer = c.output.contextLayer ∧ ids'[idx]? = c.identities[idx]? := by
  obtain ⟨hfound, hkey⟩ := StageCheckpoints.restorable_eq_some h
  obtain ⟨c, hc, rfl, hbuildKey, hlayer, hcontext⟩ := checkpointsAfter_eq_some hfound
  refine ⟨c, hc, rfl, hlayer, hcontext, ?_⟩
  obtain ⟨m, -, hid⟩ := (identities_of_ok (hran c hc).1.identities).2 c.index c.stage
    (hran c hc).1.stage
  rw [hkey, hbuildKey, hid, Option.getD_some]

theorem StageSpec.IdentityComplete.restored (h : s.IdentityComplete shake256) :
    s.RestoredFromSameInputs shake256 := by
  intro completed b' ids' noCache idx t checkpoint hran hb' ht ht' hids' hstage' hrestored
  obtain ⟨c, hc, rfl, hlayer, hcontext, heq⟩ := restored_same_identity hran hrestored
  refine ⟨c, hc, rfl, hlayer, hcontext, ?_⟩
  rintro rfl
  obtain ⟨hc, hsep⟩ := hran c hc
  exact h _ _ _ _ _ _ t hc.fits hb' ht ht' hsep hc.identities hids' hc.stage hstage' heq

theorem hasSensitiveMounts_of_mem {stages : List StageSpec} {stage : StageSpec}
    (h : stage ∈ stages) (hsecret : hasSensitiveMounts [stage] = true) :
    hasSensitiveMounts stages = true := by
  rw [hasSensitiveMounts, List.any_cons, List.any_nil, Bool.or_false] at hsecret
  exact List.any_eq_true.mpr ⟨stage, h, hsecret⟩

theorem restorable_of_sensitive {checkpoints : StageCheckpoints} {stages : List StageSpec}
    {identities : List String} {noCache : Option (List String)} {idx : Nat} {stage : StageSpec}
    (h : hasSensitiveMounts stages = true) :
    checkpoints.restorable stages identities noCache idx stage = none := by
  rw [StageCheckpoints.restorable, if_pos h]

theorem hasSensitiveMounts_congr (h : t.unsplit = s.unsplit) :
    hasSensitiveMounts [t] = hasSensitiveMounts [s] := by
  have hrun : t.run = s.run := by
    show t.unsplit.run = s.unsplit.run
    rw [h]
  simp only [hasSensitiveMounts, hrun, List.any_cons, List.any_nil]

-- Nothing is restored in a build that mounts secrets.
theorem restored_of_sensitive (hlength : ∀ m, (shake256 m).utf8ByteSize = 64) (hs : s.Parsed)
    (hs' : s.Unmarked) (hsecret : hasSensitiveMounts [s] = true) :
    s.RestoredFromSameInputs shake256 := by
  intro completed b' ids' noCache idx t checkpoint hran hb' ht ht' hids' hstage' hrestored
  obtain ⟨c, hc, rfl, hlayer, hcontext, heq⟩ := restored_same_identity hran hrestored
  refine ⟨c, hc, rfl, hlayer, hcontext, ?_⟩
  rintro rfl
  obtain ⟨hc, hsep⟩ := hran c hc
  have hunsplit := (same_identity hlength hs hs' ht ht' hc.fits hb' hsep hc.identities hids'
    hc.stage hstage' heq).1
  rw [restorable_of_sensitive (hasSensitiveMounts_of_mem (List.mem_of_getElem? hstage')
    ((hasSensitiveMounts_congr hunsplit).trans hsecret))] at hrestored
  cases hrestored

-- The other way, with two builds of this one stage or of two with one identity.
theorem StageSpec.RestoredFromSameInputs.single (h : s.RestoredFromSameInputs shake256)
    (hsecret : hasSensitiveMounts [t] = false) (ht : t.Parsed) (ht' : t.Unmarked) {a a' : String}
    (ha : a.utf8ByteSize < 2 ^ 64) (ha' : a'.utf8ByteSize < 2 ^ 64)
    (hmessage : singleMessage s a = singleMessage t a') :
    t = s ∧ (s.ReadsContext → a' = a) := by
  let output : BuiltStage := ⟨"", "", 0, none⟩
  have hrestored : (checkpointsAfter [⟨Build.single s a, [shake256 (singleMessage s a)], 0, s,
      output⟩]).restorable [t] [shake256 (singleMessage t a')] none 0 t =
        some ⟨shake256 (singleMessage s a), "", "", 0, none⟩ := by
    simp [checkpointsAfter, StageCheckpoints.insert, StageCheckpoints.restorable, hsecret,
      stageIgnoresCache, hmessage, output, Option.filter]
  obtain ⟨c, hc, -, -, -, hsame⟩ := h _ (Build.single t a') _ none 0 t _ (by
      intro c hc
      rw [List.mem_singleton.mp hc]
      exact ⟨⟨Build.fits_single s ha, identities_single s a, rfl⟩, separated_single hmessage⟩)
    (Build.fits_single t ha') ht ht' (identities_single t a') rfl hrestored
  rw [List.mem_singleton.mp hc] at hsame
  exact ⟨(hsame rfl).stage, (hsame rfl).context⟩

theorem StageSpec.bound_of_single (hs : s.Parsed) (hs' : s.Unmarked)
    (h : ∀ (t : StageSpec) (a a' : String), t.Parsed → t.Unmarked → a.utf8ByteSize < 2 ^ 64 →
      a'.utf8ByteSize < 2 ^ 64 → t.unsplit = s.unsplit → singleMessage s a = singleMessage t a' →
      t = s ∧ (s.ReadsContext → a' = a)) : s.Bound := by
  have heq : ∀ t : StageSpec, t.sorted.Ok → t.unsplit = s.unsplit → t = s := by
    intro t hok hunsplit
    exact (h t "" "" (hs.of_unsplit hunsplit hok) (hs'.of_unsplit hunsplit) (by decide) (by decide)
      hunsplit (singleMessage_congr hunsplit "").symm).1
  constructor
  · by_contra hnot
    obtain ⟨t, hok, hunsplit, hne⟩ := exists_other_copyFrom hs hnot
    exact hne (heq t hok hunsplit)
  · by_contra hnot
    obtain ⟨t, hok, hunsplit, hne⟩ := exists_other_copyPaths hs hnot
    exact hne (heq t hok hunsplit)
  · by_contra hnot
    rw [Bool.not_eq_true] at hnot
    have hcontext : "" = "a" := (h s "a" "" hs hs' (by decide) (by decide) rfl
      (singleMessage_context hnot "a" "")).2 (StageSpec.readsContext_of_not_consumes hnot)
    exact absurd hcontext (by decide)

/-! ## When an identity is complete -/

/-- For every stage that the parser can give and that holds no value standing for a missing one:
equal identities come from equal inputs, in whatever builds the two stages are, if and only if the
stage has nothing that the identity leaves out; and only then, or in a stage with secrets, which is
never restored, does a checkpoint come from equal inputs whenever it is restored. -/
theorem stage_identity_iff (hlength : ∀ m, (shake256 m).utf8ByteSize = 64) (hs : s.Parsed)
    (hs' : s.Unmarked) :
    (s.IdentityComplete shake256 ↔ s.Bound) ∧
      (s.RestoredFromSameInputs shake256 ↔ s.Bound ∨ hasSensitiveMounts [s] = true) := by
  constructor
  · constructor
    · intro h
      refine StageSpec.bound_of_single hs hs' ?_
      intro t a a' ht ht' ha ha' _ hmessage
      have hsame := h _ _ _ _ 0 0 t (Build.fits_single s ha) (Build.fits_single t ha') ht ht'
        (separated_single hmessage) (identities_single s a) (identities_single t a') rfl rfl
        (by simp [hmessage])
      exact ⟨hsame.stage, hsame.context⟩
    · exact StageSpec.Bound.identityComplete hlength hs hs'
  · constructor
    · intro h
      by_cases hsecret : hasSensitiveMounts [s] = true
      · exact .inr hsecret
      · refine .inl (StageSpec.bound_of_single hs hs' ?_)
        intro t a a' ht ht' ha ha' hunsplit hmessage
        refine h.single ?_ ht ht' ha ha' hmessage
        rw [hasSensitiveMounts_congr hunsplit]
        exact Bool.eq_false_iff.mpr hsecret
    · rintro (hbound | hsecret)
      · exact (hbound.identityComplete hlength hs hs').restored
      · exact restored_of_sensitive hlength hs hs' hsecret

end

def zeroHash (_message : Bytes) : String := String.ofList (List.replicate 64 '0')

theorem zeroHash_length (m : Bytes) : (zeroHash m).utf8ByteSize = 64 := by
  show (String.ofList (List.replicate 64 '0')).utf8ByteSize = 64
  decide +kernel

def makeStage (copyFirst : Bool) : StageSpec :=
  { StageSpec.start "alpine" none .empty with
    run := [⟨["/bin/sh", "-c", "make"], true, [], [], [], [], [], none, .sandbox⟩]
    copyPaths := if copyFirst then [{ CopySpec.blank with srcs := ["a"], dest := "/a" }] else []
    copyPathsAfterRun :=
      if copyFirst then [] else [{ CopySpec.blank with srcs := ["a"], dest := "/a" }]
    copyPathsAfterRunIndex := if copyFirst then none else some 1 }

theorem makeStage_parsed (copyFirst : Bool) : (makeStage copyFirst).Parsed where
  sorted := by
    cases copyFirst <;> exact ⟨⟨by decide, by simp [makeStage, StageSpec.sorted, StageSpec.start]⟩,
      ⟨by decide, by simp [makeStage, StageSpec.sorted]⟩⟩
  runs := by cases copyFirst <;> decide
  copyFromOwner := by simp [makeStage, StageSpec.start]
  copyOwner := by cases copyFirst <;> simp [makeStage, StageSpec.start, CopySpec.blank, OwnerOk]
  args := by simp [makeStage, StageSpec.start, OrdMap.empty]
  labels := by simp [makeStage, StageSpec.start, OrdMap.empty]
  fits := by cases copyFirst <;> decide +kernel

theorem makeStage_unmarked (copyFirst : Bool) : (makeStage copyFirst).Unmarked where
  name := by simp [makeStage, StageSpec.start]
  checksum := by cases copyFirst <;> simp [makeStage, StageSpec.start, CopySpec.blank]
  inline := by cases copyFirst <;> simp [makeStage, StageSpec.start, CopySpec.blank]
  workdir := by simp [makeStage, StageSpec.start]
  user := by simp [makeStage, StageSpec.start]
  stopSignal := by simp [makeStage, StageSpec.start]
  author := by simp [makeStage, StageSpec.start]
  entrypoint := by simp [makeStage, StageSpec.start]
  cmd := by simp [makeStage, StageSpec.start]
  run := by
    intro run hrun
    rw [List.mem_singleton.mp hrun]
    exact ⟨by simp, by simp⟩

theorem stage_identity_iff_makeStage :
    ((makeStage true).IdentityComplete zeroHash ↔ (makeStage true).Bound) ∧
      ((makeStage true).RestoredFromSameInputs zeroHash ↔
        (makeStage true).Bound ∨ hasSensitiveMounts [makeStage true] = true) :=
  stage_identity_iff zeroHash_length (makeStage_parsed true) (makeStage_unmarked true)

/-- Whether a context copy comes before the first run or after it leaves no trace. -/
theorem copy_and_run_exchanged_same_identity :
    ¬ ∀ (shake256 : Bytes → String) (s : StageSpec), (∀ m, (shake256 m).utf8ByteSize = 64) →
      s.Parsed → s.Unmarked → s.IdentityComplete shake256 ∧ s.RestoredFromSameInputs shake256 := by
  intro h
  have hunsplit : (makeStage false).unsplit = (makeStage true).unsplit := by decide
  have hsame := (h zeroHash (makeStage true) zeroHash_length (makeStage_parsed true)
    (makeStage_unmarked true)).2.single (t := makeStage false) rfl (makeStage_parsed false)
    (makeStage_unmarked false) (by decide) (by decide) (singleMessage_congr hunsplit "").symm
  exact absurd hsame.1 (by decide)

end Ferrocrate.Dockerfile
