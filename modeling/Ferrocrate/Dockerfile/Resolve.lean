import Ferrocrate.Dockerfile.Schedule

/-! Whether the resolver finds what the scheduler planned. -/
namespace Ferrocrate.Dockerfile
open Lib
variable {PathBuf : Type} {contexts : OrdMap String PathBuf} {stages : List StageSpec}
  {names : OrdMap String Nat} {graph : List (List Nat)} {places : Places contexts}
  {done : List Nat}

/-! ## What is recorded -/

theorem after_append_singleton (done : List Nat) (idx : Nat) :
    BuildState.after stages places (done ++ [idx]) =
      (BuildState.after stages places done).onResult stages places idx := by
  simp [BuildState.after]

theorem length_stageRoots (done : List Nat) :
    (BuildState.after stages places done).stageRoots.length = stages.length := by
  induction done using List.reverseRecOn with
  | nil => simp [BuildState.after]
  | append_singleton done idx ih => simpa [after_append_singleton, BuildState.onResult] using ih

variable {index : Nat}

theorem getElem?_rootsSnapshot (done : List Nat) (hlt : index < stages.length) :
    ((BuildState.after stages places done).rootsSnapshot places)[index]? =
      some (if index ∈ done then places.root index else places.unbuilt) := by
  have hroots : (BuildState.after stages places done).stageRoots[index]? =
      some (if index ∈ done then some (places.root index) else none) := by
    induction done using List.reverseRecOn with
    | nil => simp [BuildState.after, hlt]
    | append_singleton done idx ih =>
      rw [after_append_singleton]
      simp only [BuildState.onResult, List.getElem?_set, length_stageRoots, List.mem_append,
        List.mem_singleton]
      by_cases heq : idx = index
      · subst heq
        simp [hlt]
      · have : index ≠ idx := fun h => heq h.symm
        simp [heq, this, ih]
  rw [BuildState.rootsSnapshot, List.getElem?_map, hroots, Option.map_some]
  split <;> rfl

theorem getElem?_rootsSnapshot_eq_root {index d : Nat} :
    ((BuildState.after stages places done).rootsSnapshot places)[index]? = some (places.root d) ↔
      index = d ∧ d ∈ done ∧ d < stages.length := by
  by_cases hlt : index < stages.length
  · rw [getElem?_rootsSnapshot done hlt, Option.some.injEq]
    constructor
    · intro h
      split at h
      next hdone =>
        have heq := places.root_injective h
        subst heq
        exact ⟨rfl, hdone, hlt⟩
      · exact absurd h.symm (places.root_ne_unbuilt d)
    · intro h
      obtain ⟨rfl, hdone, -⟩ := h
      rw [if_pos hdone]
  · have hnone : ((BuildState.after stages places done).rootsSnapshot places)[index]? = none := by
      rw [List.getElem?_eq_none_iff, BuildState.rootsSnapshot, List.length_map, length_stageRoots]
      omega
    rw [hnone]
    constructor
    · intro h
      cases h
    · intro h
      omega

theorem stageNames_after (hnames : stageNames stages = .ok names) (done : List Nat) (key : String)
    (p : PathBuf) : (BuildState.after stages places done).stageNames.get key = some p ↔
      ∃ d ∈ done, stageName stages d = some key ∧ p = places.root d := by
  induction done using List.reverseRecOn with
  | nil => simp [BuildState.after]
  | append_singleton done idx ih =>
    rw [after_append_singleton]
    cases hname : stageName stages idx with
    | none =>
      simp only [BuildState.onResult, hname, ih, List.mem_append, List.mem_singleton]
      constructor
      · intro h
        obtain ⟨d, hd, h⟩ := h
        exact ⟨d, .inl hd, h⟩
      · intro h
        obtain ⟨d, hd | rfl, hd', hp⟩ := h
        · exact ⟨d, hd, hd', hp⟩
        · rw [hname] at hd'
          cases hd'
    | some name =>
      simp only [BuildState.onResult, hname, OrdMap.get_insert, List.mem_append, List.mem_singleton]
      by_cases hkey : key = name
      · subst hkey
        rw [if_pos rfl, Option.some.injEq]
        constructor
        · intro h
          exact ⟨idx, .inr rfl, hname, h.symm⟩
        · intro h
          obtain ⟨d, -, hd, hp⟩ := h
          rw [hp, stageName_unique hnames hd hname rfl]
      · rw [if_neg hkey, ih]
        constructor
        · intro h
          obtain ⟨d, hd, h⟩ := h
          exact ⟨d, .inl hd, h⟩
        · intro h
          obtain ⟨d, hd | rfl, hd', hp⟩ := h
          · exact ⟨d, hd, hd', hp⟩
          · rw [hname] at hd'
            exact absurd (Option.some.inj hd').symm hkey

/-! ## Looking up -/

def resolved (stages : List StageSpec) (places : Places contexts) (done : List Nat)
    (visible : OrdMap String PathBuf) (from_ : String) : Option PathBuf :=
  resolveStageRoot ((BuildState.after stages places done).rootsSnapshot places)
    (BuildState.after stages places done).stageNames visible from_

theorem resolved_eq_root_iff (hnames : stageNames stages = .ok names)
    {visible : OrdMap String PathBuf} (hvisible : ∀ name d, visible.get name ≠ some (places.root d))
    {d : Nat} (hd : d ∈ done) (hlt : d < stages.length) (from_ : String) :
    resolved stages places done visible from_ = some (places.root d) ↔
      parseUsize from_ = some d ∨ parseUsize from_ = none ∧ stageName stages d = some from_ := by
  rw [resolved, resolveStageRoot]
  cases hparse : parseUsize from_ with
  | some idx =>
    simp only [getElem?_rootsSnapshot_eq_root, Option.some.injEq, reduceCtorEq, false_and, or_false]
    constructor
    · exact fun h => h.1
    · exact fun h => ⟨h, hd, hlt⟩
  | none =>
    simp only [reduceCtorEq, false_or, true_and]
    have hfound := @stageNames_after _ _ _ _ places hnames done from_
    cases hget : (BuildState.after stages places done).stageNames.get from_ with
    | none =>
      rw [Option.none_or]
      constructor
      · intro h
        exact absurd h (hvisible from_ d)
      · intro h
        have := (hfound (places.root d)).mpr ⟨d, hd, h, rfl⟩
        rw [hget] at this
        cases this
    | some p =>
      obtain ⟨d', -, hname, rfl⟩ := (hfound p).mp hget
      rw [Option.some_or, Option.some.injEq]
      constructor
      · intro h
        rw [← places.root_injective h]
        exact hname
      · intro h
        rw [stageName_unique hnames hname h rfl]

theorem resolved_eq_context_iff (hnames : stageNames stages = .ok names) {from_ : String}
    {p : PathBuf} (hp : contexts.get from_ = some p) :
    resolved stages places done contexts from_ = some p ↔
      parseUsize from_ = none ∧ ∀ d ∈ done, stageName stages d ≠ some from_ := by
  have hroot : ∀ d, p ≠ places.root d := fun d heq =>
    places.context_ne_root from_ d (heq ▸ hp)
  have hunbuilt : p ≠ places.unbuilt := fun heq => places.context_ne_unbuilt from_ (heq ▸ hp)
  rw [resolved, resolveStageRoot]
  cases hparse : parseUsize from_ with
  | some idx =>
    simp only [reduceCtorEq, false_and, iff_false]
    intro h
    have hlt : idx < stages.length := by
      have := (List.getElem?_eq_some_iff.mp h).1
      rwa [BuildState.rootsSnapshot, List.length_map, length_stageRoots] at this
    rw [getElem?_rootsSnapshot done hlt, Option.some.injEq] at h
    split at h
    · exact hroot idx h.symm
    · exact hunbuilt h.symm
  | none =>
    simp only [true_and]
    have hfound := @stageNames_after _ _ _ _ places hnames done from_
    cases hget : (BuildState.after stages places done).stageNames.get from_ with
    | none =>
      rw [Option.none_or]
      constructor
      · intro _ d hd hname
        have := (hfound (places.root d)).mpr ⟨d, hd, hname, rfl⟩
        rw [hget] at this
        cases this
      · exact fun _ => hp
    | some q =>
      obtain ⟨d, hd, hname, rfl⟩ := (hfound q).mp hget
      rw [Option.some_or, Option.some.injEq]
      constructor
      · intro h
        exact absurd h.symm (hroot d)
      · intro h
        exact absurd hname (h d hd)

/-! ## Planned and found -/

def assignedRoot (names : OrdMap String Nat) (places : Places contexts) (from_ : String) :
    Option PathBuf :=
  match sourceDependency contexts names from_ with
  | .ok none => contexts.get from_
  | .ok (some dependency) => some (places.root dependency)
  | .error _ => none

structure Resolves (stages : List StageSpec) (names : OrdMap String Nat)
    (places : Places contexts) (done : List Nat) (stage : StageSpec) : Prop where
  source : ∀ from_ ∈ stage.sources,
    resolved stages places done contexts from_ = assignedRoot names places from_
  base : ∀ d, names.get stage.base.toLower = some d →
    resolved stages places done .empty stage.base = some (places.root d)

/-- No source is a named context whose name is also an index or the name of a stage of an earlier
batch, and stages are named in the case they were declared in. A base that is an index means the
stage with that index. -/
structure Spelled (contexts : OrdMap String PathBuf) (stages : List StageSpec)
    (graph : List (List Nat)) (stage : StageSpec) (index : Nat) : Prop where
  context : ∀ from_ ∈ stage.sources, contexts.contains from_ = true → parseUsize from_ = none ∧
    ∀ d, depth graph d < depth graph index → stageName stages d ≠ some from_
  source : ∀ from_ ∈ stage.sources, contexts.contains from_ = false → parseUsize from_ = none →
    ∀ d name, stageName stages d = some name → name.toLower = from_.toLower → name = from_
  base : ∀ d name, stageName stages d = some name → name.toLower = stage.base.toLower →
    parseUsize stage.base = some d ∨ parseUsize stage.base = none ∧ name = stage.base

theorem stageName_lt {d : Nat} {name : String} (h : stageName stages d = some name) :
    d < stages.length := by
  obtain ⟨stage, hstage, -⟩ := Option.bind_eq_some_iff.mp h
  exact (List.getElem?_eq_some_iff.mp hstage).1

theorem spelled_iff_name (hnames : stageNames stages = .ok names) {key : String} {d : Nat}
    (hget : names.get key.toLower = some d) :
    stageName stages d = some key ↔
      ∀ d' name, stageName stages d' = some name → name.toLower = key.toLower → name = key := by
  obtain ⟨own, hown, hlower⟩ := (stageNames_get hnames _ d).mp hget
  constructor
  · intro h d' name hname heq
    have hd := stageName_unique hnames hname h heq
    rw [hd, h] at hname
    exact (Option.some.inj hname).symm
  · intro h
    rw [hown, h d own hown hlower]

theorem source_resolves_iff (hnames : stageNames stages = .ok names) {stage : StageSpec} (hassigned : Assigned contexts names graph stage index)
    (hdone : ∀ d, d ∈ done ↔ d < stages.length ∧ depth graph d < depth graph index)
    (hindex : index < stages.length) {from_ : String} (hfrom : from_ ∈ stage.sources) :
    resolved stages places done contexts from_ = assignedRoot names places from_ ↔
      (contexts.contains from_ = true → parseUsize from_ = none ∧
        ∀ d, depth graph d < depth graph index → stageName stages d ≠ some from_) ∧
      (contexts.contains from_ = false → parseUsize from_ = none → ∀ d name,
        stageName stages d = some name → name.toLower = from_.toLower → name = from_) := by
  obtain ⟨target, htarget, hdeps⟩ := hassigned.source from_ hfrom
  rw [assignedRoot, htarget]
  by_cases hcontext : contexts.contains from_ = true
  · have htarget' : target = none := by
      simpa [sourceDependency, hcontext] using htarget.symm
    subst htarget'
    obtain ⟨p, hp⟩ := Option.isSome_iff_exists.mp hcontext
    simp only [hcontext, hp, resolved_eq_context_iff hnames hp, true_implies, reduceCtorEq,
      false_implies, and_true]
    refine and_congr_right fun _ => ?_
    constructor
    · intro h d hd hname
      exact h d ((hdone d).mpr ⟨stageName_lt hname, hd⟩) hname
    · intro h d hd
      exact h d ((hdone d).mp hd).2
  · rw [Bool.not_eq_true] at hcontext
    simp only [sourceDependency, hcontext, Bool.false_eq_true, if_false] at htarget
    simp only [hcontext, Bool.false_eq_true, false_implies, true_and, true_implies]
    have hrecorded : ∀ d, target = some d → d ∈ done ∧ d < stages.length := by
      intro d hd
      have hlt := hassigned.earlier d (hdeps d hd)
      have hdepth := depth_le_iff.mp le_rfl d (hdeps d hd) hlt
      exact ⟨(hdone d).mpr ⟨hlt.trans hindex, hdepth⟩, hlt.trans hindex⟩
    have hvisible : ∀ name d, contexts.get name ≠ some (places.root d) := places.context_ne_root
    cases hparse : parseUsize from_ with
    | some d =>
      rw [hparse] at htarget
      cases htarget
      obtain ⟨hd, hlt⟩ := hrecorded d rfl
      simp [resolved_eq_root_iff hnames hvisible hd hlt, hparse]
    | none =>
      rw [hparse] at htarget
      cases hget : names.get from_.toLower with
      | none =>
        rw [hget] at htarget
        cases htarget
      | some d =>
        rw [hget] at htarget
        cases htarget
        obtain ⟨hd, hlt⟩ := hrecorded d rfl
        simp only [resolved_eq_root_iff hnames hvisible hd hlt, hparse, reduceCtorEq, false_or,
          true_and, true_implies]
        exact spelled_iff_name hnames hget

theorem base_resolves_iff (hnames : stageNames stages = .ok names) {stage : StageSpec} (hassigned : Assigned contexts names graph stage index)
    (hdone : ∀ d, d ∈ done ↔ d < stages.length ∧ depth graph d < depth graph index)
    (hindex : index < stages.length) :
    (∀ d, names.get stage.base.toLower = some d →
      resolved stages places done .empty stage.base = some (places.root d)) ↔
      ∀ d name, stageName stages d = some name → name.toLower = stage.base.toLower →
        parseUsize stage.base = some d ∨ parseUsize stage.base = none ∧ name = stage.base := by
  have hvisible : ∀ name d, (OrdMap.empty : OrdMap String PathBuf).get name ≠
      some (places.root d) := by simp
  have hiff : ∀ d, names.get stage.base.toLower = some d →
      (resolved stages places done .empty stage.base = some (places.root d) ↔
        parseUsize stage.base = some d ∨
          parseUsize stage.base = none ∧ stageName stages d = some stage.base) := by
    intro d hget
    have hdep := hassigned.base d hget
    have hlt := hassigned.earlier d hdep
    have hdepth := depth_le_iff.mp le_rfl d hdep hlt
    exact resolved_eq_root_iff hnames hvisible ((hdone d).mpr ⟨hlt.trans hindex, hdepth⟩)
      (hlt.trans hindex) _
  constructor
  · intro h d name hname hlower
    have hget := (stageNames_get hnames _ d).mpr ⟨name, hname, hlower⟩
    refine ((hiff d hget).mp (h d hget)).imp id fun hbase => ⟨hbase.1, ?_⟩
    rw [hname] at hbase
    exact Option.some.inj hbase.2
  · intro h d hget
    obtain ⟨name, hname, hlower⟩ := (stageNames_get hnames _ d).mp hget
    refine (hiff d hget).mpr ((h d name hname hlower).imp id fun hbase => ⟨hbase.1, ?_⟩)
    rw [hname, hbase.2]

/-- Every accepted graph is scheduled, each stage once and behind its dependencies. A stage of a
batch then finds the roots that the graph assigned, in whatever order the stages before were
delivered, if and only if it spells its sources as the resolver needs it. -/
theorem stage_references_iff (places : Places contexts)
    (h : buildStageDependencyGraph stages contexts = .ok graph) :
    ∃ names batches, stageNames stages = .ok names ∧
      buildStageExecutionBatches stages.length graph = some (.ok batches) ∧
      batches.flatten.Perm (List.range stages.length) ∧
      ∀ (k : Nat) (batch : List Nat) (index : Nat), batches[k]? = some batch → index ∈ batch →
        (∀ d ∈ dependenciesOf graph index, d ∈ (batches.take k).flatten) ∧
        ∀ stage done, stages[index]? = some stage → done.Perm (batches.take k).flatten →
          (Resolves stages names places done stage ↔ Spelled contexts stages graph stage index) := by
  obtain ⟨names, hnames, hlength, hassigned⟩ := graph_assigned h
  have hearlier : ∀ index, ∀ d ∈ dependenciesOf graph index, d < index := by
    intro index d hd
    by_cases hlt : index < stages.length
    · exact (hassigned index _ (List.getElem?_eq_getElem hlt)).earlier d hd
    · have hnone : graph[index]? = none := List.getElem?_eq_none_iff.mpr (by omega)
      simp [dependenciesOf, hnone] at hd
  have hfuel : graph.length ≤ stages.length + ([] : List (List Nat)).flatten.length := by
    simp [hlength]
  obtain ⟨batches, hrun, hlayers, hall⟩ := executionBatches_layered hearlier Layered.nil hfuel
  refine ⟨names, batches, hnames, hrun, ?_, ?_⟩
  · rw [← hlength]
    refine (List.perm_ext_iff_of_nodup hlayers.nodup_flatten List.nodup_range).mpr fun d => ?_
    exact ⟨hlayers.mem_names, fun hd => hall d (List.mem_range.mp hd)⟩
  · intro k batch index hk hindex
    refine ⟨(((hlayers k batch hk).2 index).mp hindex).2.2, ?_⟩
    intro stage done hstage hperm
    have hdone : ∀ d, d ∈ done ↔ d < stages.length ∧ depth graph d < depth graph index := by
      intro d
      rw [hperm.mem_iff, Layered.mem_flatten_take, depth_eq hearlier hlayers hk hindex]
      constructor
      · intro hd
        obtain ⟨j, hj, earlier, hget, hmem⟩ := hd
        rw [depth_eq hearlier hlayers hget hmem]
        have hd := hlayers.mem_names (Layered.mem_flatten.mpr ⟨j, earlier, hget, hmem⟩)
        exact ⟨hlength ▸ List.mem_range.mp hd, hj⟩
      · intro hd
        obtain ⟨j, earlier, hget, hmem⟩ := Layered.mem_flatten.mp (hall d (hlength ▸ hd.1))
        rw [depth_eq hearlier hlayers hget hmem] at hd
        exact ⟨j, hd.2, earlier, hget, hmem⟩
    have hassigned := hassigned index stage hstage
    have hlt := (List.getElem?_eq_some_iff.mp hstage).1
    constructor
    · intro hresolves
      have hsource := fun from_ (hfrom : from_ ∈ stage.sources) =>
        (source_resolves_iff hnames hassigned hdone hlt hfrom).mp (hresolves.source from_ hfrom)
      exact ⟨fun f hf => (hsource f hf).1, fun f hf => (hsource f hf).2,
        (base_resolves_iff hnames hassigned hdone hlt).mp hresolves.base⟩
    · intro hspelled
      refine ⟨fun from_ hfrom => ?_,
        (base_resolves_iff hnames hassigned hdone hlt).mpr hspelled.base⟩
      exact (source_resolves_iff hnames hassigned hdone hlt hfrom).mpr
        ⟨hspelled.context from_ hfrom, hspelled.source from_ hfrom⟩

def plainPlaces : Places (OrdMap.empty : OrdMap String (Option Nat)) where
  root := some
  root_injective := Option.some_injective _
  unbuilt := none
  root_ne_unbuilt := by simp
  context_ne_root := by simp
  context_ne_unbuilt := by simp

def twoStages (name from_ : String) : List StageSpec :=
  [.start "alpine" (some name) .empty,
    { StageSpec.start "alpine" none .empty with copyFrom := [⟨from_, ["/a"], "/a", none⟩] }]

theorem stage_references_iff_twoStages :
    ∃ names batches, stageNames (twoStages "build" "build") = .ok names ∧
      buildStageExecutionBatches 2 [[], [0]] = some (.ok batches) ∧
      batches.flatten.Perm (List.range 2) ∧
      ∀ (k : Nat) (batch : List Nat) (index : Nat), batches[k]? = some batch → index ∈ batch →
        (∀ d ∈ dependenciesOf [[], [0]] index, d ∈ (batches.take k).flatten) ∧
        ∀ stage done, (twoStages "build" "build")[index]? = some stage →
          done.Perm (batches.take k).flatten →
            (Resolves (twoStages "build" "build") names plainPlaces done stage ↔
              Spelled (OrdMap.empty : OrdMap String (Option Nat)) (twoStages "build" "build")
                [[], [0]] stage index) :=
  stage_references_iff plainPlaces (by decide +kernel)

/-- The graph finds a stage in any case of its letters, the resolver does not. -/
theorem other_case_not_resolved :
    ¬ ∀ (contexts : OrdMap String (Option Nat)) (places : Places contexts)
      (stages : List StageSpec) (graph : List (List Nat)) (names : OrdMap String Nat)
      (batches : List (List Nat)), buildStageDependencyGraph stages contexts = .ok graph →
      stageNames stages = .ok names →
      buildStageExecutionBatches stages.length graph = some (.ok batches) →
      ∀ (k : Nat) (batch : List Nat) (index : Nat) (stage : StageSpec), batches[k]? = some batch →
        index ∈ batch → stages[index]? = some stage →
          Resolves stages names places (batches.take k).flatten stage := by
  intro h
  have hnames : stageNames (twoStages "Build" "build") = .ok (OrdMap.empty.insert "build" 0) := by
    decide +kernel
  have hresolves := h .empty plainPlaces (twoStages "Build" "build") [[], [0]] _ [[0], [1]]
    (by decide +kernel) hnames (by decide +kernel) 1 [1] 1 _ rfl (by simp) rfl
  have hsource := hresolves.source "build" (by decide +kernel)
  revert hsource
  decide +kernel

end Ferrocrate.Dockerfile
