import Ferrocrate.Lib.Loops
import Mathlib.Data.List.Basic

/-! The merge keys of a compose file, `expand_yaml_merges`. -/
namespace Ferrocrate.Compose
open Lib

/-- A YAML value. A mapping lists its keys, which are taken up to the equality of the parser, and
gives the value of each; a sequence has a length and gives its items. -/
inductive Value (Key : Type) where
  | scalar (text : String)
  | tagged (tag : String) (value : Value Key)
  | sequence (length : Nat) (item : Nat → Value Key)
  | mapping (keys : List Key) (value : Key → Value Key)

structure Mapping (Key : Type) where
  keys : List Key
  value : Key → Value Key

variable {Key : Type} [DecidableEq Key] (mergeKey : Key)

def Mapping.insert (m : Mapping Key) (key : Key) (value : Value Key) : Mapping Key where
  keys := m.keys ++ [key]
  value := fun key' => if key' = key then value else m.value key'

def Mapping.merge (m source : Mapping Key) : Mapping Key :=
  source.keys.foldl (fun m key => if key ∈ m.keys then m else m.insert key (source.value key)) m

def Mapping.toValue (m : Mapping Key) : Value Key := .mapping m.keys m.value

def mergeEntry : Value Key → Except String (Mapping Key)
  | .mapping keys value => .ok ⟨keys, value⟩
  | .scalar _ | .tagged _ _ | .sequence _ _ => .error "YAML merge entries must be mappings"

def mergeSources : Value Key → Except String (List (Mapping Key))
  | .mapping keys value => .ok [⟨keys, value⟩]
  | .sequence length item => (List.range length).mapM fun i => mergeEntry (item i)
  | .scalar _ | .tagged _ _ =>
    .error "YAML merge value must be a mapping or sequence of mappings"

def expandYamlMerges : Value Key → Except String (Value Key)
  | .mapping keys value => do
    let child := fun key => expandYamlMerges (value key)
    keys.forM fun key => (child key).map fun _ => ()
    let expanded := fun key => (child key).toOption.getD (value key)
    if mergeKey ∈ keys then do
      let sources ← mergeSources (expanded mergeKey)
      pure (sources.foldl Mapping.merge ⟨keys.filter (· ≠ mergeKey), expanded⟩).toValue
    else
      pure (.mapping keys expanded)
  | .scalar text => .ok (.scalar text)
  | .tagged tag value => .ok (.tagged tag value)
  | .sequence length item => .ok (.sequence length item)

/-! ## What merging is for -/

def Value.entries : Value Key → Option (Mapping Key)
  | .mapping keys value => some ⟨keys, value⟩
  | .scalar _ | .tagged _ _ | .sequence _ _ => none

def Value.sources : Value Key → List (Mapping Key)
  | .mapping keys value => [⟨keys, value⟩]
  | .sequence length item => (List.range length).filterMap fun i => (item i).entries
  | .scalar _ | .tagged _ _ => []

def firstOf (key : Key) : List (Mapping Key) → Option (Value Key)
  | [] => none
  | source :: sources => if key ∈ source.keys then some (source.value key) else firstOf key sources

def Value.expanded : Value Key → Value Key
  | .scalar text => .scalar text
  | .tagged tag value => .tagged tag value.expanded
  | .sequence length item => .sequence length fun i => (item i).expanded
  | .mapping keys value =>
    let sources := if mergeKey ∈ keys then (value mergeKey).expanded.sources else []
    .mapping
      (keys.filter (· ≠ mergeKey) ++ (sources.flatMap Mapping.keys).filter (· ∉ keys))
      fun key => if key ∈ keys then (value key).expanded else
        (firstOf key sources).getD (value key)

def Value.Clean : Value Key → Prop
  | .scalar _ => True
  | .tagged _ value => value.Clean
  | .sequence length item => ∀ i < length, (item i).Clean
  | .mapping keys value => mergeKey ∉ keys ∧ ∀ key ∈ keys, (value key).Clean

def Value.Same : Value Key → Value Key → Prop
  | .scalar text, .scalar text' => text = text'
  | .tagged tag value, .tagged tag' value' => tag = tag' ∧ value.Same value'
  | .sequence length item, .sequence length' item' =>
    length = length' ∧ ∀ i < length, (item i).Same (item' i)
  | .mapping keys value, .mapping keys' value' =>
    (∀ key, key ∈ keys ↔ key ∈ keys') ∧ ∀ key ∈ keys, (value key).Same (value' key)
  | _, _ => False

/-- Where the merges of the value are applied although the expansion goes into no sequence and no
tag: no merge key lies in one of these, other than under the keys `hidden` of a merged mapping,
which the mappings it is merged into have themselves. -/
def Value.Reached (hidden : List Key) : Value Key → Prop
  | .scalar _ => True
  | .tagged _ value => value.Clean mergeKey
  | .sequence length item => ∀ i < length, (item i).Clean mergeKey
  | .mapping keys value =>
    (∀ key ∈ keys, key ≠ mergeKey → key ∉ hidden → (value key).Reached []) ∧
      (mergeKey ∈ keys →
        match value mergeKey with
        | .scalar _ | .tagged _ _ => True
        | .mapping _ _ => (value mergeKey).Reached (hidden ++ keys)
        | .sequence _ _ => ∀ i source, (value mergeKey).sources[i]? = some source →
          mergeKey ∉ source.keys ∧ ∀ key ∈ source.keys, key ∉ hidden → key ∉ keys →
            (∀ earlier ∈ (value mergeKey).sources.take i, key ∉ earlier.keys) →
              (source.value key).Clean mergeKey)

section Merging
variable {mergeKey}

theorem foldl_insert (value : Key → Value Key) (keys : List Key) (m : Mapping Key) (key : Key) :
    let merged := keys.foldl
      (fun m key => if key ∈ m.keys then m else m.insert key (value key)) m
    (key ∈ merged.keys ↔ key ∈ m.keys ∨ key ∈ keys) ∧
      merged.value key = if key ∉ m.keys ∧ key ∈ keys then value key else m.value key := by
  induction keys generalizing m with
  | nil => simp
  | cons first keys ih =>
    obtain ⟨hkeys, hvalue⟩ := ih (if first ∈ m.keys then m else m.insert first (value first))
    simp only [List.foldl_cons, hkeys, hvalue, List.mem_cons]
    by_cases hfirst : first ∈ m.keys
    · rw [if_pos hfirst]
      by_cases heq : key = first
      · subst heq
        simp [hfirst]
      · simp [heq]
    · rw [if_neg hfirst]
      by_cases heq : key = first
      · subst heq
        simp [Mapping.insert, hfirst]
      · simp [Mapping.insert, heq]

theorem mem_keys_merge (m source : Mapping Key) (key : Key) :
    key ∈ (m.merge source).keys ↔ key ∈ m.keys ∨ key ∈ source.keys :=
  (foldl_insert source.value source.keys m key).1

theorem value_merge (m source : Mapping Key) (key : Key) : (m.merge source).value key =
    if key ∉ m.keys ∧ key ∈ source.keys then source.value key else m.value key :=
  (foldl_insert source.value source.keys m key).2

theorem foldl_merge (sources : List (Mapping Key)) (m : Mapping Key) (key : Key) :
    (key ∈ (sources.foldl Mapping.merge m).keys ↔
      key ∈ m.keys ∨ ∃ source ∈ sources, key ∈ source.keys) ∧
    (sources.foldl Mapping.merge m).value key =
      if key ∈ m.keys then m.value key else (firstOf key sources).getD (m.value key) := by
  induction sources generalizing m with
  | nil => simp [firstOf]
  | cons source sources ih =>
    obtain ⟨hkeys, hvalue⟩ := ih (m.merge source)
    simp only [List.foldl_cons, hkeys, hvalue, mem_keys_merge, value_merge, firstOf,
      List.exists_mem_cons_iff, or_assoc, true_and]
    by_cases hm : key ∈ m.keys
    · simp [hm]
    · by_cases hs : key ∈ source.keys
      · simp [hm, hs]
      · simp [hm, hs]

variable {sources : List (Mapping Key)} {v : Value Key}

theorem firstOf_eq_some {key : Key} :
    firstOf key sources = some v ↔ ∃ i source, sources[i]? = some source ∧ key ∈ source.keys ∧
      (∀ earlier ∈ sources.take i, key ∉ earlier.keys) ∧ source.value key = v := by
  induction sources with
  | nil => simp [firstOf]
  | cons first sources ih =>
    unfold firstOf
    split_ifs with hfirst
    · constructor
      · intro h
        exact ⟨0, first, rfl, hfirst, by simp, Option.some.inj h⟩
      · rintro ⟨i, source, hget, -, hearlier, rfl⟩
        cases i with
        | zero =>
          cases hget
          rfl
        | succ i => exact (hearlier first (by simp) hfirst).elim
    · rw [ih]
      constructor
      · rintro ⟨i, source, hget, hkey, hearlier, hv⟩
        refine ⟨i + 1, source, hget, hkey, fun earlier hmem => ?_, hv⟩
        rcases List.mem_cons.mp (by simpa using hmem) with rfl | hmem
        · exact hfirst
        · exact hearlier earlier hmem
      · rintro ⟨i, source, hget, hkey, hearlier, hv⟩
        cases i with
        | zero =>
          cases hget
          exact (hfirst hkey).elim
        | succ i =>
          exact ⟨i, source, hget, hkey,
            fun earlier hmem => hearlier earlier (by simp [hmem]), hv⟩

theorem firstOf_isSome {key : Key} :
    (∃ v, firstOf key sources = some v) ↔ ∃ source ∈ sources, key ∈ source.keys := by
  induction sources with
  | nil => simp [firstOf]
  | cons first sources ih =>
    unfold firstOf
    by_cases hfirst : key ∈ first.keys
    · simp [hfirst]
    · simp only [hfirst, if_false, ih, List.exists_mem_cons_iff, false_or]

omit [DecidableEq Key] in
theorem mergeEntry_eq_ok {source : Mapping Key} (h : mergeEntry v = .ok source) :
    v.entries = some source := by
  cases v with
  | mapping keys value =>
    cases h
    rfl
  | scalar text => cases h
  | tagged tag value => cases h
  | sequence length item => cases h

omit [DecidableEq Key] in
theorem mergeSources_eq_ok
    (h : mergeSources v = .ok sources) : sources = v.sources := by
  cases v with
  | mapping keys value =>
    cases h
    rfl
  | scalar text => cases h
  | tagged tag value => cases h
  | sequence length item =>
    have hall := Except.mapM_eq_ok h
    clear h
    show sources = (List.range length).filterMap fun i => (item i).entries
    generalize List.range length = indices at hall
    induction hall with
    | nil => rfl
    | cons hentry _ ih => rw [List.filterMap_cons, mergeEntry_eq_ok hentry, ih]

structure Applied (mergeKey : Key) (keys : List Key) (expanded : Key → Value Key)
    (sources : List (Mapping Key)) (result : Mapping Key) : Prop where
  mem : ∀ key, key ∈ result.keys ↔
    (key ∈ keys ∧ key ≠ mergeKey) ∨ ∃ source ∈ sources, key ∈ source.keys
  own : ∀ key ∈ keys, key ≠ mergeKey → result.value key = expanded key
  other : ∀ key, ¬(key ∈ keys ∧ key ≠ mergeKey) → ∀ v, firstOf key sources = some v →
    result.value key = v

theorem expandYamlMerges_mapping {keys : List Key} {value : Key → Value Key} {r : Value Key}
    (h : expandYamlMerges mergeKey (.mapping keys value) = .ok r) :
    ∃ expanded, (∀ key ∈ keys, expandYamlMerges mergeKey (value key) = .ok (expanded key)) ∧
      ∃ sources, (mergeKey ∈ keys → mergeSources (expanded mergeKey) = .ok sources) ∧
        (mergeKey ∉ keys → sources = []) ∧
        ∃ result, r = Mapping.toValue result ∧ Applied mergeKey keys expanded sources result := by
  unfold expandYamlMerges at h
  obtain ⟨_, hall, h⟩ := Except.bind_eq_ok.mp h
  refine ⟨fun key => (expandYamlMerges mergeKey (value key)).toOption.getD (value key),
    fun key hkey => ?_, ?_⟩
  · have hchild : (expandYamlMerges mergeKey (value key)).map (fun _ => ()) = .ok () :=
      Except.forM_eq_ok hall key hkey
    show _ = Except.ok ((expandYamlMerges mergeKey (value key)).toOption.getD (value key))
    cases hexpanded : expandYamlMerges mergeKey (value key) with
    | error e =>
      rw [hexpanded] at hchild
      cases hchild
    | ok v => rfl
  · split_ifs at h with hmerge
    · obtain ⟨sources, hsources, h⟩ := Except.bind_eq_ok.mp h
      cases h
      refine ⟨sources, fun _ => hsources, fun hnot => (hnot hmerge).elim, _, rfl,
        fun key => ?_, fun key hkey hne => ?_, fun key hkey v hv => ?_⟩
      · rw [(foldl_merge _ _ _).1]
        simp
      · rw [(foldl_merge _ _ _).2, if_pos (by simpa using ⟨hkey, hne⟩)]
      · rw [(foldl_merge _ _ _).2, if_neg (by simpa using hkey), hv]
        rfl
    · cases h
      refine ⟨[], fun hmem => (hmerge hmem).elim, fun _ => rfl, ⟨keys, _⟩, rfl, fun key => ?_,
        fun _ _ _ => rfl, fun _ _ _ hv => nomatch hv⟩
      simp only [List.not_mem_nil, false_and, exists_false, or_false]
      exact ⟨fun hkey => ⟨hkey, fun heq => hmerge (heq ▸ hkey)⟩, And.left⟩

variable {v r : Value Key}

theorem expandYamlMerges_of_not_mapping (hv : v.entries = none)
    (h : expandYamlMerges mergeKey v = .ok r) : r = v := by
  cases v with
  | mapping keys value => cases hv
  | scalar text => exact (Except.ok.inj h).symm
  | tagged tag value => exact (Except.ok.inj h).symm
  | sequence length item => exact (Except.ok.inj h).symm

/-! ## The full expansion -/

theorem firstOf_mem {key : Key}
    (h : firstOf key sources = some v) :
    ∃ source ∈ sources, key ∈ source.keys ∧ source.value key = v := by
  obtain ⟨i, source, hget, hkey, -, hv⟩ := firstOf_eq_some.mp h
  exact ⟨source, List.mem_of_getElem? hget, hkey, hv⟩

omit [DecidableEq Key] in
theorem entries_eq_some {source : Mapping Key} (h : v.entries = some source) :
    v = source.toValue := by
  cases v with
  | mapping keys value =>
    cases h
    rfl
  | scalar text => cases h
  | tagged tag value => cases h
  | sequence length item => cases h

omit [DecidableEq Key] in
def expandedSources (mergeKey : Key) (keys : List Key) (value : Key → Value Key) :
    List (Mapping Key) :=
  if mergeKey ∈ keys then ((value mergeKey).expanded mergeKey).sources else []

theorem applied_expanded (mergeKey : Key) (keys : List Key) (value : Key → Value Key) :
    ∃ result, (Value.mapping keys value).expanded mergeKey = Mapping.toValue result ∧
      (∀ key, key ∈ result.keys ↔ (key ∈ keys ∧ key ≠ mergeKey) ∨
        key ∉ keys ∧ ∃ source ∈ expandedSources mergeKey keys value, key ∈ source.keys) ∧
      (∀ key ∈ keys, result.value key = (value key).expanded mergeKey) ∧
      ∀ key ∉ keys, ∀ v, firstOf key (expandedSources mergeKey keys value) = some v →
        result.value key = v := by
  refine ⟨⟨keys.filter (· ≠ mergeKey) ++
    ((expandedSources mergeKey keys value).flatMap Mapping.keys).filter (· ∉ keys),
    fun key => if key ∈ keys then (value key).expanded mergeKey else
      (firstOf key (expandedSources mergeKey keys value)).getD (value key)⟩, rfl, fun key => ?_,
    fun key hkey => if_pos hkey, fun key hkey v hv => ?_⟩
  · simp only [List.mem_append, List.mem_filter, List.mem_flatMap, decide_eq_true_eq]
    exact or_congr Iff.rfl and_comm
  · simp only [hkey, if_false, hv, Option.getD_some]

theorem same_expanded_of_clean (h : v.Clean mergeKey) :
    v.Same (v.expanded mergeKey) := by
  induction v with
  | scalar text => rfl
  | tagged tag value ih => exact ⟨rfl, ih h⟩
  | sequence length item ih => exact ⟨rfl, fun i hi => ih i (h i hi)⟩
  | mapping keys value ih =>
    obtain ⟨result, hresult, hmem, hown, -⟩ := applied_expanded mergeKey keys value
    have hsources : expandedSources mergeKey keys value = [] := if_neg h.1
    rw [hresult]
    refine ⟨fun key => ?_, fun key hkey => ?_⟩
    · rw [hmem, hsources]
      simp only [List.not_mem_nil, false_and, exists_false, and_false, or_false]
      exact ⟨fun hkey => ⟨hkey, fun heq => h.1 (heq ▸ hkey)⟩, And.left⟩
    · rw [hown key hkey]
      exact ih key (h.2 key hkey)

structure Mapping.Agrees (mergeKey : Key) (m m' : Mapping Key) : Prop where
  mem : ∀ key, key ∈ m.keys ↔ key ∈ m'.keys
  same : ∀ key ∈ m.keys, (m.value key).Clean mergeKey → (m.value key).Same (m'.value key)

def Value.Agrees (mergeKey : Key) : Value Key → Value Key → Prop
  | .mapping keys value, v => mergeKey ∉ keys →
    ∃ m, v = Mapping.toValue m ∧ Mapping.Agrees mergeKey ⟨keys, value⟩ m
  | r, v => r.Clean mergeKey → r.Same v

omit [DecidableEq Key] in
theorem Value.Agrees.same {r v : Value Key} (h : r.Agrees mergeKey v) (hr : r.Clean mergeKey) :
    r.Same v := by
  cases r with
  | mapping keys value =>
    obtain ⟨m, rfl, hm⟩ := h hr.1
    exact ⟨hm.mem, fun key hkey => hm.same key hkey (hr.2 key hkey)⟩
  | scalar text => exact h hr
  | tagged tag value => exact h hr
  | sequence length item => exact h hr

theorem firstOf_agrees {sources sources' : List (Mapping Key)}
    (h : List.Forall₂ (Mapping.Agrees mergeKey) sources sources') (key : Key) :
    ((∃ source ∈ sources, key ∈ source.keys) ↔ ∃ source ∈ sources', key ∈ source.keys) ∧
      ∀ v, firstOf key sources = some v → v.Clean mergeKey →
        ∃ v', firstOf key sources' = some v' ∧ v.Same v' := by
  induction h with
  | nil => exact ⟨by simp, fun _ hv => nomatch hv⟩
  | @cons source source' sources sources' hsource _ ih =>
    refine ⟨?_, fun v hv hclean => ?_⟩
    · rw [List.exists_mem_cons_iff, List.exists_mem_cons_iff, hsource.mem key, ih.1]
    · unfold firstOf at hv ⊢
      by_cases hkey : key ∈ source.keys
      · rw [if_pos hkey] at hv
        rw [if_pos ((hsource.mem key).mp hkey)]
        obtain rfl := Option.some.inj hv
        exact ⟨_, rfl, hsource.same key hkey hclean⟩
      · rw [if_neg hkey] at hv
        rw [if_neg fun h => hkey ((hsource.mem key).mpr h)]
        exact ih.2 v hv hclean

theorem entries_agrees {m : Mapping Key} (hm : mergeKey ∉ m.keys) :
    ∃ m', (m.toValue.expanded mergeKey).entries = some m' ∧ m.Agrees mergeKey m' := by
  obtain ⟨result, hresult, hmem, hown, -⟩ :=
    applied_expanded mergeKey m.keys m.value
  have hsources : expandedSources mergeKey m.keys m.value = [] := if_neg hm
  refine ⟨result, by rw [Mapping.toValue, hresult]; rfl, fun key => ?_, fun key hkey hclean => ?_⟩
  · rw [hmem, hsources]
    simp only [List.not_mem_nil, false_and, exists_false, and_false, or_false]
    exact ⟨fun hkey => ⟨hkey, fun heq => hm (heq ▸ hkey)⟩, And.left⟩
  · rw [hown key hkey]
    exact same_expanded_of_clean hclean

theorem sources_agree (h : expandYamlMerges mergeKey v = .ok r)
    (hagrees : r.Agrees mergeKey (v.expanded mergeKey))
    (hsources : mergeSources r = .ok sources) (hmerge : ∀ source ∈ sources, mergeKey ∉ source.keys) :
    List.Forall₂ (Mapping.Agrees mergeKey) sources (v.expanded mergeKey).sources := by
  cases r with
  | scalar text => cases hsources
  | tagged tag value => cases hsources
  | mapping keys value =>
    cases hsources
    obtain ⟨m, hm, hentries⟩ := hagrees (hmerge _ List.mem_cons_self)
    rw [hm]
    exact .cons hentries .nil
  | sequence length item =>
    have hv : v.entries = none := by
      cases v with
      | mapping keys value =>
        obtain ⟨_, _, _, _, _, result, hresult, -⟩ := expandYamlMerges_mapping h
        cases hresult
      | scalar text => rfl
      | tagged tag value => rfl
      | sequence length item => rfl
    obtain rfl := expandYamlMerges_of_not_mapping hv h
    have hall := Except.mapM_eq_ok hsources
    show List.Forall₂ _ sources
      ((List.range length).filterMap fun i => ((item i).expanded mergeKey).entries)
    clear h hagrees hsources hv
    generalize List.range length = indices at hall
    induction hall with
    | nil => exact .nil
    | @cons i source indices sources hentry _ ih =>
      obtain ⟨m, hm, hentries⟩ := entries_agrees (hmerge source List.mem_cons_self)
      rw [← entries_eq_some (mergeEntry_eq_ok hentry)] at hm
      rw [List.filterMap_cons, hm]
      exact .cons hentries (ih fun s hs => hmerge s (List.mem_cons_of_mem _ hs))

theorem agrees_expanded (h : expandYamlMerges mergeKey v = .ok r) :
    r.Agrees mergeKey (v.expanded mergeKey) := by
  induction v generalizing r with
  | scalar text =>
    cases h
    exact fun _ => rfl
  | tagged tag value _ =>
    cases h
    exact fun hclean => same_expanded_of_clean hclean
  | sequence length item _ =>
    cases h
    exact fun hclean => same_expanded_of_clean hclean
  | mapping keys value ih =>
    obtain ⟨expanded, hchild, sources, hsources, hnone, result, rfl, happlied⟩ :=
      expandYamlMerges_mapping h
    obtain ⟨full, hfull, hmem, hown, hother⟩ := applied_expanded mergeKey keys value
    intro hmerge
    have hall : List.Forall₂ (Mapping.Agrees mergeKey) sources
        (expandedSources mergeKey keys value) := by
      by_cases hkey : mergeKey ∈ keys
      · rw [expandedSources, if_pos hkey]
        refine sources_agree (hchild mergeKey hkey) (ih mergeKey (hchild mergeKey hkey))
          (hsources hkey) fun source hsource hin => hmerge ?_
        exact (happlied.mem mergeKey).mpr (.inr ⟨source, hsource, hin⟩)
      · rw [expandedSources, if_neg hkey, hnone hkey]
        exact .nil
    refine ⟨full, hfull, fun key => ?_, fun key hkey hclean => ?_⟩
    · rw [happlied.mem, hmem, (firstOf_agrees hall key).1]
      refine or_congr_right' fun hnot => ⟨fun hin => ⟨fun hkey => hnot ⟨hkey, ?_⟩, hin⟩, And.right⟩
      rintro rfl
      exact hmerge ((happlied.mem key).mpr (.inr ((firstOf_agrees hall key).1.mpr hin)))
    · have hne : key ≠ mergeKey := fun heq => hmerge (heq ▸ hkey)
      by_cases hexplicit : key ∈ keys
      · have hvalue := happlied.own key hexplicit hne
        rw [hvalue] at hclean ⊢
        rw [hown key hexplicit]
        exact (ih key (hchild key hexplicit)).same hclean
      · have hnot : ¬(key ∈ keys ∧ key ≠ mergeKey) := fun h => hexplicit h.1
        obtain ⟨v, hv⟩ := firstOf_isSome.mpr (((happlied.mem key).mp hkey).resolve_left hnot)
        have hvalue := happlied.other key hnot v hv
        rw [hvalue] at hclean ⊢
        obtain ⟨v', hv', hsame⟩ := (firstOf_agrees hall key).2 v hv hclean
        rw [hother key hexplicit v' hv']
        exact hsame

def Value.CleanExcept (mergeKey : Key) (hidden : List Key) : Value Key → Prop
  | .mapping keys value =>
    mergeKey ∉ keys ∧ ∀ key ∈ keys, key ∉ hidden → (value key).Clean mergeKey
  | v => v.Clean mergeKey

omit [DecidableEq Key] in
theorem cleanExcept_nil : v.CleanExcept mergeKey [] ↔ v.Clean mergeKey := by
  cases v with
  | mapping keys value => simp [Value.CleanExcept, Value.Clean]
  | scalar text => rfl
  | tagged tag value => rfl
  | sequence length item => rfl

def SourcesClean (mergeKey : Key) (taken : List Key) (sources : List (Mapping Key)) : Prop :=
  (∀ source ∈ sources, mergeKey ∉ source.keys) ∧
    ∀ key ∉ taken, ∀ v, firstOf key sources = some v → v.Clean mergeKey

theorem sourcesClean_singleton {taken : List Key} {m : Mapping Key} :
    SourcesClean mergeKey taken [m] ↔ m.toValue.CleanExcept mergeKey taken := by
  refine and_congr (by simp) ?_
  constructor
  · exact fun h key hkey htaken => h key htaken _ (if_pos hkey)
  · intro h key htaken v hv
    obtain ⟨source, hsource, hkey, rfl⟩ := firstOf_mem hv
    rw [List.mem_singleton.mp hsource] at hkey ⊢
    exact h key hkey htaken

theorem sourcesClean_iff {taken : List Key} :
    SourcesClean mergeKey taken sources ↔ ∀ i source, sources[i]? = some source →
      mergeKey ∉ source.keys ∧ ∀ key ∈ source.keys, key ∉ taken →
        (∀ earlier ∈ sources.take i, key ∉ earlier.keys) → (source.value key).Clean mergeKey := by
  constructor
  · rintro ⟨hmerge, hclean⟩ i source hget
    refine ⟨hmerge source (List.mem_of_getElem? hget), fun key hkey htaken hearlier => ?_⟩
    exact hclean key htaken _ (firstOf_eq_some.mpr ⟨i, source, hget, hkey, hearlier, rfl⟩)
  · intro h
    refine ⟨fun source hsource => ?_, fun key htaken v hv => ?_⟩
    · obtain ⟨i, hget⟩ := List.mem_iff_getElem?.mp hsource
      exact (h i source hget).1
    · obtain ⟨i, source, hget, hkey, hearlier, rfl⟩ := firstOf_eq_some.mp hv
      exact (h i source hget).2 key hkey htaken hearlier

theorem Applied.cleanExcept_iff {keys : List Key} {expanded : Key → Value Key} {result : Mapping Key}
    (h : Applied mergeKey keys expanded sources result) (hidden : List Key) :
    result.toValue.CleanExcept mergeKey hidden ↔
      (∀ key ∈ keys, key ≠ mergeKey → key ∉ hidden → (expanded key).Clean mergeKey) ∧
        SourcesClean mergeKey (hidden ++ keys) sources := by
  constructor
  · rintro ⟨hmerge, hclean⟩
    refine ⟨fun key hkey hne hhidden => ?_, fun source hsource hin => hmerge ?_,
      fun key htaken v hv => ?_⟩
    · rw [← h.own key hkey hne]
      exact hclean key ((h.mem key).mpr (.inl ⟨hkey, hne⟩)) hhidden
    · exact (h.mem mergeKey).mpr (.inr ⟨source, hsource, hin⟩)
    · rw [List.mem_append, not_or] at htaken
      rw [← h.other key (fun hand => htaken.2 hand.1) v hv]
      exact hclean key ((h.mem key).mpr (.inr (firstOf_isSome.mp ⟨v, hv⟩))) htaken.1
  · rintro ⟨hown, hmerge, hsources⟩
    refine ⟨fun hin => ?_, fun key hkey hhidden => ?_⟩
    · rcases (h.mem mergeKey).mp hin with ⟨-, hne⟩ | ⟨source, hsource, hkey⟩
      · exact hne rfl
      · exact hmerge source hsource hkey
    · by_cases hexplicit : key ∈ keys ∧ key ≠ mergeKey
      · rw [h.own key hexplicit.1 hexplicit.2]
        exact hown key hexplicit.1 hexplicit.2 hhidden
      · have hin := ((h.mem key).mp hkey).resolve_left hexplicit
        obtain ⟨v, hv⟩ := firstOf_isSome.mpr hin
        have hne : key ≠ mergeKey := by
          rintro rfl
          obtain ⟨source, hsource, hmem⟩ := hin
          exact hmerge source hsource hmem
        rw [h.other key hexplicit v hv]
        refine hsources key (fun htaken => ?_) v hv
        rcases List.mem_append.mp htaken with hmem | hmem
        · exact hhidden hmem
        · exact hexplicit ⟨hmem, hne⟩

theorem cleanExcept_iff_reached (h : expandYamlMerges mergeKey v = .ok r)
    (hidden : List Key) : r.CleanExcept mergeKey hidden ↔ v.Reached mergeKey hidden := by
  induction v generalizing r hidden with
  | scalar text =>
    cases h
    rfl
  | tagged tag value _ =>
    cases h
    rfl
  | sequence length item _ =>
    cases h
    rfl
  | mapping keys value ih =>
    obtain ⟨expanded, hchild, sources, hsources, hnone, result, rfl, happlied⟩ :=
      expandYamlMerges_mapping h
    rw [happlied.cleanExcept_iff, Value.Reached]
    refine and_congr ?_ ?_
    · refine forall₂_congr fun key hkey => forall₂_congr fun _ _ => ?_
      rw [← ih key (hchild key hkey), cleanExcept_nil]
    · by_cases hkey : mergeKey ∈ keys
      · rw [imp_iff_right hkey]
        have hmerged := ih mergeKey (hchild mergeKey hkey) (hidden ++ keys)
        have hexpand := hchild mergeKey hkey
        have hsources := hsources hkey
        cases hvalue : value mergeKey with
        | scalar text =>
          rw [hvalue] at hexpand
          rw [← Except.ok.inj hexpand] at hsources
          cases hsources
        | tagged tag below =>
          rw [hvalue] at hexpand
          rw [← Except.ok.inj hexpand] at hsources
          cases hsources
        | mapping keys' value' =>
          rw [hvalue] at hexpand hmerged
          obtain ⟨_, _, _, _, _, m, hm, -⟩ := expandYamlMerges_mapping hexpand
          rw [hm] at hsources hmerged
          cases hsources
          exact sourcesClean_singleton.trans hmerged
        | sequence length item =>
          rw [hvalue] at hexpand
          have hsame := expandYamlMerges_of_not_mapping (v := .sequence length item) rfl hexpand
          rw [hsame] at hsources
          rw [mergeSources_eq_ok hsources, sourcesClean_iff]
          simp only [List.mem_append, not_or, and_imp]
      · rw [hnone hkey]
        refine iff_of_true ⟨fun _ hnil => (nomatch hnil), fun _ _ _ hv => (nomatch hv)⟩ fun hmem => ?_
        exact (hkey hmem).elim

/-- When the expansion succeeds its result has all merges applied, and no merge key at any depth,
exactly when no merge key lies where it does not go: in a sequence or a tag, or in an entry of a
merged mapping that came from one and was not overridden. -/
theorem merges_expanded_iff (mergeKey : Key) (v r : Value Key)
    (h : expandYamlMerges mergeKey v = .ok r) :
    (r.Clean mergeKey ∧ r.Same (v.expanded mergeKey)) ↔ v.Reached mergeKey [] := by
  rw [← cleanExcept_iff_reached h, cleanExcept_nil]
  exact ⟨And.left, fun hclean => ⟨hclean, (agrees_expanded h).same hclean⟩⟩

end Merging

def inheritedBuild : Value String :=
  .mapping ["css"] fun _ => .mapping ["<<", "command"] fun key =>
    if key = "<<" then .mapping ["build", "command"] fun _ => .scalar "." else .scalar "yarn"

theorem inherited_build_expanded :
    ∃ r, expandYamlMerges "<<" inheritedBuild = .ok r ∧
      r.Clean "<<" ∧ r.Same (inheritedBuild.expanded "<<") := by
  have hok : (expandYamlMerges "<<" inheritedBuild).isOk = true := by decide +kernel
  cases h : expandYamlMerges "<<" inheritedBuild with
  | error e =>
    rw [h] at hok
    cases hok
  | ok r =>
    refine ⟨r, rfl, (merges_expanded_iff "<<" inheritedBuild r h).mpr ?_⟩
    simp [inheritedBuild, Value.Reached]

def inheritedTwice : Value String :=
  .mapping ["web"] fun _ => .mapping ["<<"] fun _ =>
    .sequence 1 fun _ => .mapping ["<<"] fun _ => .mapping ["image"] fun _ => .scalar "nginx"

/-- The merge key of the anchor stays in the result. -/
theorem listed_merge_not_expanded :
    ¬∀ v r : Value String, expandYamlMerges "<<" v = .ok r →
      r.Clean "<<" ∧ r.Same (v.expanded "<<") := by
  intro hall
  have hok : (expandYamlMerges "<<" inheritedTwice).isOk = true := by decide +kernel
  cases h : expandYamlMerges "<<" inheritedTwice with
  | error e =>
    rw [h] at hok
    cases hok
  | ok r =>
    have hreached := (cleanExcept_iff_reached h []).mp (cleanExcept_nil.mpr (hall _ r h).1)
    have hweb := hreached.1 "web" List.mem_cons_self (by decide) List.not_mem_nil
    have hlisted := hweb.2 List.mem_cons_self 0 ⟨["<<"], _⟩ rfl
    exact hlisted.1 List.mem_cons_self

section Again
variable {Key : Type} {v r : Value Key}

theorem Value.same_refl (v : Value Key) : v.Same v := by
  induction v with
  | scalar text => rfl
  | tagged tag value ih => exact ⟨rfl, ih⟩
  | sequence length item ih => exact ⟨rfl, fun i _ => ih i⟩
  | mapping keys value ih => exact ⟨fun _ => .rfl, fun key _ => ih key⟩

variable [DecidableEq Key] {mergeKey : Key}

theorem expandYamlMerges_of_clean (h : v.Clean mergeKey) :
    ∃ r, expandYamlMerges mergeKey v = .ok r ∧ r.Same v := by
  induction v with
  | scalar text => exact ⟨_, rfl, rfl⟩
  | tagged tag value _ => exact ⟨_, rfl, Value.same_refl _⟩
  | sequence length item _ => exact ⟨_, rfl, Value.same_refl _⟩
  | mapping keys value ih =>
    have hall : keys.forM (fun key => (expandYamlMerges mergeKey (value key)).map fun _ => ())
        = .ok () := by
      refine Except.forM_ok fun key hkey => ?_
      obtain ⟨r, hr, -⟩ := ih key (h.2 key hkey)
      rw [hr]
      rfl
    refine ⟨.mapping keys fun key => (expandYamlMerges mergeKey (value key)).toOption.getD
      (value key), ?_, fun _ => .rfl, fun key hkey => ?_⟩
    · rw [expandYamlMerges, hall]
      exact if_neg h.1
    · obtain ⟨r, hr, hsame⟩ := ih key (h.2 key hkey)
      simp only [hr]
      exact hsame

/-- **Merging is done once.** Where all merges were applied, expanding the result again succeeds and
changes nothing. -/
theorem merges_expanded_once (h : expandYamlMerges mergeKey v = .ok r)
    (hreached : v.Reached mergeKey []) :
    ∃ r', expandYamlMerges mergeKey r = .ok r' ∧ r'.Same r :=
  expandYamlMerges_of_clean (cleanExcept_nil.mp ((cleanExcept_iff_reached h []).mpr hreached))

theorem merges_expanded_once_build :
    ∃ r r', expandYamlMerges "<<" inheritedBuild = .ok r ∧
      expandYamlMerges "<<" r = .ok r' ∧ r'.Same r := by
  have hok : (expandYamlMerges "<<" inheritedBuild).isOk = true := by decide +kernel
  cases h : expandYamlMerges "<<" inheritedBuild with
  | error e =>
    rw [h] at hok
    cases hok
  | ok r =>
    obtain ⟨r', hr', hsame⟩ := merges_expanded_once h
      (by simp [inheritedBuild, Value.Reached])
    exact ⟨r, r', rfl, hr', hsame⟩

end Again
end Ferrocrate.Compose
