import Ferrocrate.Dockerfile.Graph
import Ferrocrate.Lib.Loops

/-! The batches of an accepted graph, and which root every source of a stage resolves to. -/
namespace Ferrocrate.Dockerfile
open Lib
variable {PathBuf : Type} {contexts : OrdMap String PathBuf} {stages : List StageSpec}
  {names : OrdMap String Nat} {graph : List (List Nat)}

/-! ## The graph -/

theorem stageNames_get (h : stageNames stages = .ok names) (key : String) (index : Nat) :
    names.get key = some index ↔
      ∃ name, stageName stages index = some name ∧ name.toLower = key := by
  have hfold : ∀ {f : OrdMap String Nat → StageSpec × Nat →
        Except DockerfileBuildError (OrdMap String Nat)},
      (∀ m entry, entry.1.name = none → f m entry = .ok m) →
      (∀ m entry name, entry.1.name = some name → f m entry =
        if m.contains name.toLower then
          .error (.invalid ("duplicate Dockerfile stage name: " ++ name))
        else .ok (m.insert name.toLower entry.2)) →
      ∀ (entries : List (StageSpec × Nat)) m m', entries.foldlM f m = .ok m' →
      (m'.get key = some index ↔ m.get key = some index ∨
        ∃ entry ∈ entries, entry.2 = index ∧ ∃ name, entry.1.name = some name ∧
          name.toLower = key) := by
    intro f hunnamed hnamed entries
    induction entries with
    | nil =>
      intro m m' hm
      cases hm
      simp
    | cons entry entries ih =>
      intro m m' hm
      rw [List.foldlM_cons] at hm
      cases hname : entry.1.name with
      | none =>
        rw [hunnamed m entry hname] at hm
        rw [ih m m' hm]
        simp [hname]
      | some name =>
        rw [hnamed m entry name hname] at hm
        by_cases hthere : m.contains name.toLower = true
        · simp only [hthere, if_true] at hm
          cases hm
        · simp only [hthere, Bool.false_eq_true, if_false] at hm
          rw [ih _ m' hm, OrdMap.get_insert]
          have hnone : m.get name.toLower = none := by
            simpa [OrdMap.contains] using hthere
          by_cases hkey : key = name.toLower
          · subst hkey
            simp [hname, hnone]
          · have hkey' : ¬ name.toLower = key := fun heq => hkey heq.symm
            simp [hname, hkey, hkey']
  rw [hfold (fun m entry hname => by simp only [hname])
    (fun m entry name hname => by simp only [hname]) _ _ _ h]
  simp only [OrdMap.get_empty, reduceCtorEq, false_or, stageName]
  constructor
  · intro hentry
    obtain ⟨⟨stage, i⟩, hmem, rfl, name, hname, hkey⟩ := hentry
    exact ⟨name, by rw [List.mem_zipIdx_iff_getElem?.mp hmem]; exact hname, hkey⟩
  · intro hname
    obtain ⟨name, hname, hkey⟩ := hname
    obtain ⟨stage, hstage, hname⟩ := Option.bind_eq_some_iff.mp hname
    exact ⟨(stage, index), List.mem_zipIdx_iff_getElem?.mpr hstage, rfl, name, hname, hkey⟩

theorem stageName_unique (h : stageNames stages = .ok names) {i j : Nat} {a b : String}
    (hi : stageName stages i = some a) (hj : stageName stages j = some b)
    (heq : a.toLower = b.toLower) : i = j := by
  have h1 := (stageNames_get h a.toLower i).mpr ⟨a, hi, rfl⟩
  have h2 := (stageNames_get h a.toLower j).mpr ⟨b, hj, heq.symm⟩
  exact Option.some.inj (h1.symm.trans h2)

structure Assigned (contexts : OrdMap String PathBuf) (names : OrdMap String Nat)
    (graph : List (List Nat)) (stage : StageSpec) (index : Nat) : Prop where
  source : ∀ from_ ∈ stage.sources, ∃ target,
    sourceDependency contexts names from_ = .ok target ∧
      ∀ dependency, target = some dependency → dependency ∈ dependenciesOf graph index
  base : ∀ dependency, names.get stage.base.toLower = some dependency →
    dependency ∈ dependenciesOf graph index
  earlier : ∀ dependency ∈ dependenciesOf graph index, dependency < index

theorem graph_assigned (h : buildStageDependencyGraph stages contexts = .ok graph) :
    ∃ names, stageNames stages = .ok names ∧ graph.length = stages.length ∧
      ∀ index stage, stages[index]? = some stage →
        Assigned contexts names graph stage index := by
  obtain ⟨names, hnames, h⟩ := Except.bind_eq_ok.mp h
  have hall := Except.mapM_eq_ok h
  refine ⟨names, hnames, by simpa using hall.length_eq.symm, ?_⟩
  intro index stage hstage
  have hentry : stages.zipIdx[index]? = some (stage, index) := by simp [hstage]
  obtain ⟨dependencies, hget, hdeps⟩ : ∃ dependencies, graph[index]? = some dependencies ∧
      stageDependencies contexts names stage index = .ok dependencies := by
    obtain ⟨hlt, hget⟩ := List.getElem?_eq_some_iff.mp hentry
    have hlt' : index < graph.length := hall.length_eq ▸ hlt
    have hr := List.Forall₂.get hall hlt hlt'
    simp only [List.get_eq_getElem, hget] at hr
    exact ⟨graph[index], List.getElem?_eq_getElem hlt', hr⟩
  have hof : dependenciesOf graph index = dependencies := by simp [dependenciesOf, hget]
  obtain ⟨targets, htargets, hdeps⟩ := Except.bind_eq_ok.mp hdeps
  have hsources := Except.mapM_eq_ok htargets
  dsimp only at hdeps
  split at hdeps
  · cases hdeps
  next hnone =>
    have heq := Except.ok.inj hdeps
    have hmem : ∀ d, d ∈ dependencies ↔
        some d ∈ targets ∨ names.get stage.base.toLower = some d := by
      intro d
      simp [← heq, Option.mem_toList]
    constructor
    · intro from_ hfrom
      obtain ⟨target, htarget, hsource⟩ := forall₂_mem_left hsources hfrom
      refine ⟨target, hsource, fun d hd => ?_⟩
      rw [hof, hmem]
      exact .inl (hd ▸ htarget)
    · intro d hd
      rw [hof, hmem]
      exact .inr hd
    · intro d hd
      rw [hof, ← heq] at hd
      have := List.find?_eq_none.mp hnone d hd
      simpa using this

/-! ## The batches -/

theorem mem_readyStages {completed : List Nat} (hsub : ∀ d ∈ completed, d < graph.length)
    (index : Nat) :
    index ∈ readyStages graph completed ↔
      Ready (List.range graph.length) (dependenciesOf graph) completed index := by
  simp only [readyStages, Ready, List.mem_filter, List.mem_range, Bool.and_eq_true,
    Bool.not_eq_true', List.contains_eq_mem, decide_eq_false_iff_not, List.all_eq_true,
    decide_eq_true_eq]
  constructor
  · intro h
    exact ⟨h.1, h.2.1, fun d hd => (h.2.2 d hd).2⟩
  · intro h
    exact ⟨h.1, h.2.1, fun d hd => ⟨hsub d (h.2.2 d hd), h.2.2 d hd⟩⟩

theorem readyStages_ne_nil {completed : List Nat} (hsub : ∀ d ∈ completed, d < graph.length)
    (hearlier : ∀ index, ∀ d ∈ dependenciesOf graph index, d < index)
    (hrest : ∃ index < graph.length, index ∉ completed) : readyStages graph completed ≠ [] := by
  classical
  obtain ⟨hlt, hnot⟩ := Nat.find_spec hrest
  have hready : Nat.find hrest ∈ readyStages graph completed := by
    rw [mem_readyStages hsub]
    refine ⟨List.mem_range.mpr hlt, hnot, fun d hd => ?_⟩
    have hd' := hearlier _ d hd
    by_contra hdone
    exact Nat.find_min hrest hd' ⟨hd'.trans hlt, hdone⟩
  exact List.ne_nil_of_mem hready

variable {batches : List (List Nat)}

theorem executionBatches_layered (hearlier : ∀ index, ∀ d ∈ dependenciesOf graph index, d < index)
    {fuel : Nat}
    (h : Layered (List.range graph.length) (dependenciesOf graph) batches)
    (hfuel : graph.length ≤ fuel + batches.flatten.length) :
    ∃ batches', executionBatches graph fuel batches = some (.ok batches') ∧
      Layered (List.range graph.length) (dependenciesOf graph) batches' ∧
      ∀ index < graph.length, index ∈ batches'.flatten := by
  have hsub : ∀ {batches : List (List Nat)},
      Layered (List.range graph.length) (dependenciesOf graph) batches →
      ∀ d ∈ batches.flatten, d < graph.length := fun h d hd => List.mem_range.mp (h.mem_names hd)
  have hstop : ∀ {batches : List (List Nat)} {fuel : Nat},
      Layered (List.range graph.length) (dependenciesOf graph) batches →
      (∀ index < graph.length, index ∈ batches.flatten) →
      executionBatches graph fuel batches = some (.ok batches) := by
    intro batches fuel _ hall
    have : (List.range graph.length).all batches.flatten.contains = true := by
      simpa [List.all_eq_true] using hall
    cases fuel <;> rw [executionBatches, if_pos this]
  induction fuel generalizing batches with
  | zero =>
    have hall : ∀ index < graph.length, index ∈ batches.flatten := by
      have hrange : batches.flatten.Subperm (List.range graph.length) :=
        List.subperm_of_subset h.nodup_flatten fun d hd => h.mem_names hd
      have hperm := hrange.perm_of_length_le (by simpa using hfuel)
      exact fun index hindex => hperm.mem_iff.mpr (List.mem_range.mpr hindex)
    exact ⟨batches, hstop h hall, h, hall⟩
  | succ fuel ih =>
    by_cases hall : ∀ index < graph.length, index ∈ batches.flatten
    · exact ⟨batches, hstop h hall, h, hall⟩
    · have hrest : ∃ index < graph.length, index ∉ batches.flatten := by
        push Not at hall
        exact hall
      have hne := readyStages_ne_nil (hsub h) hearlier hrest
      have hnodup : (readyStages graph batches.flatten).Nodup := List.nodup_range.filter _
      have hlayer := h.append hnodup (mem_readyStages (hsub h))
      have hlength := List.length_pos_of_ne_nil hne
      obtain ⟨batches', hbatches, hresult⟩ := ih hlayer (by
        simp only [List.flatten_append, List.flatten_singleton, List.length_append]
        omega)
      refine ⟨batches', ?_, hresult⟩
      have hnot : ¬ (List.range graph.length).all batches.flatten.contains = true := by
        simpa [List.all_eq_true] using hrest
      rw [executionBatches, if_neg hnot]
      simp only [hne, if_false]
      exact hbatches

def depth (graph : List (List Nat)) (index : Nat) : Nat :=
  ((dependenciesOf graph index).map fun dependency =>
    if _h : dependency < index then depth graph dependency + 1 else 0).foldr max 0
termination_by index

theorem foldr_max_le {ns : List Nat} {bound : Nat} :
    ns.foldr max 0 ≤ bound ↔ ∀ n ∈ ns, n ≤ bound := by
  induction ns with
  | nil => simp
  | cons n ns ih => simp [ih]

theorem depth_le_iff {index bound : Nat} :
    depth graph index ≤ bound ↔
      ∀ d ∈ dependenciesOf graph index, d < index → depth graph d < bound := by
  rw [depth, foldr_max_le]
  constructor
  · intro h d hd hlt
    have := h _ (List.mem_map_of_mem hd)
    rw [dif_pos hlt] at this
    omega
  · intro h n hn
    obtain ⟨d, hd, rfl⟩ := List.mem_map.mp hn
    split
    next hlt => exact h d hd hlt
    · exact Nat.zero_le _

theorem depth_eq (hearlier : ∀ index, ∀ d ∈ dependenciesOf graph index, d < index)
    (h : Layered (List.range graph.length) (dependenciesOf graph) batches) {k index : Nat}
    {batch : List Nat} (hk : batches[k]? = some batch) (hindex : index ∈ batch) :
    depth graph index = k := by
  refine le_antisymm ?_ (h.index_le ?_ hk hindex)
  · induction k using Nat.strong_induction_on generalizing index batch with
    | _ k ih =>
      rw [depth_le_iff]
      intro d hd _
      obtain ⟨j, hj, earlier, hget, hmem⟩ := h.dep_earlier hk hindex hd
      exact (ih j hj hget hmem).trans_lt hj
  · intro a _ d hd
    exact depth_le_iff.mp le_rfl d hd (hearlier a d hd)

end Ferrocrate.Dockerfile
