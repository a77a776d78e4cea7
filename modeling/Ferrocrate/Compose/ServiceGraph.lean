import Ferrocrate.Lib.Layers
import Ferrocrate.Lib.Loops
import Ferrocrate.Lib.OrdMap
import Mathlib.Data.List.Count
import Mathlib.Data.List.Perm.Basic

/-! The service graph of a compose file (`service_graph.rs`) and the start and stop orders read
off it (`compose.rs`). -/
namespace Ferrocrate.Compose
open Lib

structure HashMap (V : Type) where
  entries : List (String × V)
  nodup : (entries.map Prod.fst).Nodup

namespace HashMap
variable {V : Type}

def keys (m : HashMap V) : List String := m.entries.map Prod.fst

def get (m : HashMap V) (k : String) : Option V := (m.entries.find? fun e => e.1 = k).map Prod.snd

def containsKey (m : HashMap V) (k : String) : Bool := m.keys.contains k

end HashMap

structure DependsCondition where
  required : Bool
  condition : String

inductive DependsOn where
  | simple (list : List String)
  | conditional (map : HashMap DependsCondition)

def DependsOn.isRequired : DependsOn → String → Bool
  | .simple _, _ => true
  | .conditional map, name =>
    match map.get name with
    | none => true
    | some condition => condition.required

def DependsOn.iter : DependsOn → List String
  | .simple list => list
  | .conditional map => map.keys

structure ServiceSpec where
  dependsOn : Option DependsOn

structure ComposeFile where
  services : HashMap ServiceSpec

inductive ComposeError where
  | validation (message : String)
  deriving DecidableEq

structure ServiceGraph where
  order : List (List String)
  deriving DecidableEq

structure Links where
  indegree : OrdMap String Nat
  edges : OrdMap String (List String)

def Links.link (compose : ComposeFile) (name : String) (dependsOn : DependsOn) (g : Links)
    (dep : String) : Except ComposeError Links :=
  if !compose.services.containsKey dep then
    if !dependsOn.isRequired dep then .ok g
    else .error (.validation
      ("service '" ++ name ++ "' depends on unknown service '" ++ dep ++ "'"))
  else .ok
    { edges := g.edges.insert dep ((g.edges.get dep).getD [] ++ [name])
      indegree := g.indegree.modify name (· + 1) }

def Links.linkService (compose : ComposeFile) (g : Links) (entry : String × ServiceSpec) :
    Except ComposeError Links :=
  match entry.2.dependsOn with
  | some dependsOn => dependsOn.iter.foldlM (Links.link compose entry.1 dependsOn) g
  | none => .ok g

def Links.new (compose : ComposeFile) : Links where
  indegree := compose.services.keys.foldl (fun m name => m.insert name 0) OrdMap.empty
  edges := OrdMap.empty

structure Walk where
  indegree : OrdMap String Nat
  queue : List String
  processed : Nat

def Walk.release (w : Walk) (child : String) : Walk :=
  match w.indegree.get child with
  | some count =>
    { w with
      indegree := w.indegree.insert child (count - 1)
      queue := if count - 1 = 0 then w.queue ++ [child] else w.queue }
  | none => w

def Walk.popFront (edges : OrdMap String (List String)) (w : List String × Walk) :
    List String × Walk :=
  match w.2.queue with
  | [] => w
  | node :: rest =>
    (w.1 ++ [node], ((edges.get node).getD []).foldl Walk.release
      { w.2 with queue := rest, processed := w.2.processed + 1 })

def Walk.batches (edges : OrdMap String (List String)) :
    Nat → Walk → List (List String) → Option (Walk × List (List String))
  | fuel, w, order =>
    if w.queue.isEmpty then some (w, order) else
    match fuel with
    | 0 => none
    | fuel + 1 =>
      let (batch, w') := (Walk.popFront edges)^[w.queue.length] ([], w)
      Walk.batches edges fuel w' (order ++ [batch])

def Iteration (compose : ComposeFile) :=
  { order : List String // order.Perm compose.services.keys }

def ServiceGraph.fromCompose (fuel : Nat) (compose : ComposeFile) (iteration : Iteration compose) :
    Option (Except ComposeError ServiceGraph) :=
  match compose.services.entries.foldlM (Links.linkService compose) (Links.new compose) with
  | .error e => some (.error e)
  | .ok g =>
    let queue := iteration.1.filter fun name => g.indegree.get name = some 0
    match Walk.batches g.edges fuel ⟨g.indegree, queue, 0⟩ [] with
    | none => none
    | some (w, order) =>
      if w.processed ≠ w.indegree.entries.length then
        some (.error (.validation "compose contains cyclic dependencies"))
      else some (.ok ⟨order⟩)

def ServiceGraph.startBatches (graph : ServiceGraph) : List (List String) := graph.order

def composeUp (fuel : Nat) (compose : ComposeFile) (iteration : Iteration compose) :
    Option (Except ComposeError (List String)) :=
  (ServiceGraph.fromCompose fuel compose iteration).map fun graph =>
    graph.map fun graph => graph.startBatches.flatten

def composeDown (fuel : Nat) (compose : ComposeFile) (iteration : Iteration compose) :
    Option (Except ComposeError (List String)) :=
  (composeUp fuel compose iteration).map fun ordered => ordered.map List.reverse

/-! ## The maps -/

theorem HashMap.get_eq_some_iff {V : Type} (m : HashMap V) {k : String} {v : V} :
    m.get k = some v ↔ (k, v) ∈ m.entries := find_key_eq_some_iff m.nodup

theorem HashMap.containsKey_iff {V : Type} (m : HashMap V) {k : String} :
    m.containsKey k = true ↔ k ∈ m.keys := by
  simp [containsKey]

theorem length_entries_of_get {V : Type} {m : OrdMap String V} {names : List String}
    (hnodup : names.Nodup) (h : ∀ name, (m.get name).isSome ↔ name ∈ names) :
    m.entries.length = names.length := by
  have hperm : m.keys.Perm names := by
    rw [List.perm_ext_iff_of_nodup m.nodup_keys hnodup]
    intro name
    rw [← h, Option.isSome_iff_exists]
    simp only [m.get_eq_some_iff, OrdMap.keys, List.mem_map, Prod.exists]
    constructor
    · intro hmem
      obtain ⟨k, v, hkv, rfl⟩ := hmem
      exact ⟨v, hkv⟩
    · intro hmem
      obtain ⟨v, hv⟩ := hmem
      exact ⟨name, v, hv, rfl⟩
  have := hperm.length_eq
  simpa [OrdMap.keys] using this

/-! ## Building the graph -/

def ComposeFile.definedOf (compose : ComposeFile) (service : ServiceSpec) : List String :=
  ((service.dependsOn.map DependsOn.iter).getD []).filter compose.services.containsKey

def ComposeFile.dependencies (compose : ComposeFile) (name : String) : List String :=
  ((compose.services.get name).map compose.definedOf).getD []

def ComposeFile.RequiredDefined (compose : ComposeFile) : Prop :=
  ∀ entry ∈ compose.services.entries, ∀ dependsOn, entry.2.dependsOn = some dependsOn →
    ∀ dep ∈ dependsOn.iter, dependsOn.isRequired dep = true → dep ∈ compose.services.keys

def ComposeFile.Acyclic (compose : ComposeFile) : Prop :=
  ∀ name, ¬ Relation.TransGen (fun name dep => dep ∈ compose.dependencies name) name name

structure Links.Grows (g g' : Links) (owed : String → List String) : Prop where
  indegree : ∀ s, g'.indegree.get s = (g.indegree.get s).map (· + (owed s).length)
  edges : ∀ d s, ((g'.edges.get d).getD []).count s =
    ((g.edges.get d).getD []).count s + (owed s).count d

namespace Links
variable {compose : ComposeFile} {name : String} {dependsOn : DependsOn} {g g' g'' : Links}

theorem Grows.refl (g : Links) : Grows g g fun _ => [] where
  indegree s := by simp
  edges d s := by simp

theorem Grows.trans {owed owed' : String → List String} (h : Grows g g' owed)
    (h' : Grows g' g'' owed') : Grows g g'' fun s => owed s ++ owed' s where
  indegree s := by
    rw [h'.indegree, h.indegree, Option.map_map]
    congr 1
    funext n
    simp [Nat.add_assoc]
  edges d s := by
    rw [h'.edges, h.edges, List.count_append]
    omega

theorem grows_link {dep : String} (h : g.link compose name dependsOn dep = .ok g') :
    Grows g g' fun s => if s = name then [dep].filter compose.services.containsKey else [] := by
  unfold link at h
  by_cases hdep : compose.services.containsKey dep = true
  · simp only [hdep, Bool.not_true, Bool.false_eq_true, if_false, Except.ok.injEq] at h
    subst h
    constructor
    · intro s
      rw [OrdMap.get_modify]
      by_cases hs : s = name
      · simp [hs, hdep]
      · simp [hs]
    · intro d s
      rw [OrdMap.get_insert]
      by_cases hd : d = dep
      · by_cases hs : s = name
        · simp [hs, hd, hdep]
        · have : ¬ name = s := fun heq => hs heq.symm
          simp [hs, hd, this]
      · have : ¬ dep = d := fun heq => hd heq.symm
        by_cases hs : s = name
        · simp [hs, hd, hdep, this]
        · simp [hs, hd]
  · have hdep' : compose.services.containsKey dep = false := by simpa using hdep
    simp only [hdep', Bool.not_false, if_true] at h
    split at h
    · cases h
      have : (fun s => if s = name then [dep].filter compose.services.containsKey else []) =
          fun _ => [] := by
        funext s
        simp [hdep']
      rw [this]
      exact Grows.refl g
    · cases h

theorem grows_links {deps : List String}
    (h : deps.foldlM (link compose name dependsOn) g = .ok g') :
    Grows g g' fun s => if s = name then deps.filter compose.services.containsKey else [] := by
  induction deps generalizing g with
  | nil =>
    cases h
    simpa using Grows.refl _
  | cons dep deps ih =>
    rw [List.foldlM_cons] at h
    obtain ⟨g1, h1, h2⟩ := Except.bind_eq_ok.mp h
    have hgrows := (grows_link h1).trans (ih h2)
    convert hgrows using 2 with s
    by_cases hs : s = name
    · simp only [if_pos hs]
      rw [← List.filter_append, List.singleton_append]
    · simp [hs]

theorem grows_linkService {entry : String × ServiceSpec}
    (h : linkService compose g entry = .ok g') :
    Grows g g' fun s => if s = entry.1 then compose.definedOf entry.2 else [] := by
  unfold linkService at h
  cases hdepends : entry.2.dependsOn with
  | none =>
    rw [hdepends] at h
    cases h
    have : (fun s => if s = entry.1 then compose.definedOf entry.2 else []) = fun _ => [] := by
      funext s
      simp [ComposeFile.definedOf, hdepends]
    rw [this]
    exact Grows.refl g
  | some dependsOn =>
    rw [hdepends] at h
    simpa [ComposeFile.definedOf, hdepends] using grows_links h

theorem grows_linkServices {entries : List (String × ServiceSpec)}
    (h : entries.foldlM (linkService compose) g = .ok g') :
    Grows g g' fun s =>
      (entries.filter fun e => s = e.1).flatMap fun e => compose.definedOf e.2 := by
  induction entries generalizing g with
  | nil =>
    cases h
    simpa using Grows.refl _
  | cons entry entries ih =>
    rw [List.foldlM_cons] at h
    obtain ⟨g1, h1, h2⟩ := Except.bind_eq_ok.mp h
    have hgrows := (grows_linkService h1).trans (ih h2)
    convert hgrows using 2 with s
    by_cases hs : s = entry.1
    · simp [hs]
    · simp [hs]

theorem get_new (s : String) :
    (new compose).indegree.get s = if s ∈ compose.services.keys then some 0 else none := by
  have hgeneral : ∀ (names : List String) (m : OrdMap String Nat),
      (names.foldl (fun m name => m.insert name 0) m).get s =
        if s ∈ names then some 0 else m.get s := by
    intro names
    induction names with
    | nil => simp
    | cons name names ih =>
      intro m
      rw [List.foldl_cons, ih, OrdMap.get_insert]
      by_cases h1 : s ∈ names
      · simp [h1]
      · by_cases h2 : s = name
        · simp [h2]
        · simp [h1, h2]
  rw [new, hgeneral]
  simp

theorem owed_eq (compose : ComposeFile) (s : String) :
    ((compose.services.entries.filter fun e => s = e.1).flatMap fun e => compose.definedOf e.2) =
      compose.dependencies s := by
  have hgeneral : ∀ entries : List (String × ServiceSpec), (entries.map Prod.fst).Nodup →
      ((entries.filter fun e => s = e.1).flatMap fun e => compose.definedOf e.2) =
        (((entries.find? fun e => e.1 = s).map Prod.snd).map compose.definedOf).getD [] := by
    intro entries hnodup
    induction entries with
    | nil => rfl
    | cons entry entries ih =>
      rw [List.map_cons, List.nodup_cons] at hnodup
      by_cases hs : entry.1 = s
      · have hrest : (entries.filter fun e => s = e.1) = [] := by
          rw [List.filter_eq_nil_iff]
          intro e he heq
          have : s = e.1 := by simpa using heq
          exact hnodup.1 (List.mem_map.mpr ⟨e, he, by rw [hs, this]⟩)
        rw [List.filter_cons_of_pos (by simp [hs]), List.find?_cons_of_pos (by simp [hs]), hrest]
        simp
      · have hs' : ¬ s = entry.1 := fun heq => hs heq.symm
        rw [List.filter_cons_of_neg (by simp [hs']), List.find?_cons_of_neg (by simp [hs])]
        exact ih hnodup.2
  exact hgeneral compose.services.entries compose.services.nodup

theorem links_ok_iff {deps : List String} :
    (∃ g', deps.foldlM (link compose name dependsOn) g = .ok g') ↔
      ∀ dep ∈ deps, dependsOn.isRequired dep = true → dep ∈ compose.services.keys := by
  induction deps generalizing g with
  | nil => exact ⟨fun _ dep hdep => absurd hdep (by simp), fun _ => ⟨g, rfl⟩⟩
  | cons dep deps ih =>
    rw [List.foldlM_cons]
    simp only [List.forall_mem_cons, ← HashMap.containsKey_iff]
    by_cases hdep : compose.services.containsKey dep = true
    · simp only [link, hdep, implies_true, true_and]
      exact ih.trans (by simp only [← HashMap.containsKey_iff])
    · have hdep' : compose.services.containsKey dep = false := by simpa using hdep
      by_cases hrequired : dependsOn.isRequired dep = true
      · simp only [link, hdep', hrequired]
        constructor
        · intro h
          obtain ⟨g', hg⟩ := h
          cases hg
        · intro h
          exact absurd (h.1 trivial) (by simp)
      · have hrequired' : dependsOn.isRequired dep = false := by simpa using hrequired
        simp only [link, hdep', hrequired', Bool.false_eq_true, false_implies, true_and]
        exact ih.trans (by simp only [← HashMap.containsKey_iff])

theorem linkServices_ok_iff {entries : List (String × ServiceSpec)} :
    (∃ g', entries.foldlM (linkService compose) g = .ok g') ↔
      ∀ entry ∈ entries, ∀ dependsOn, entry.2.dependsOn = some dependsOn →
        ∀ dep ∈ dependsOn.iter, dependsOn.isRequired dep = true →
          dep ∈ compose.services.keys := by
  induction entries generalizing g with
  | nil => exact ⟨fun _ dep hdep => absurd hdep (by simp), fun _ => ⟨g, rfl⟩⟩
  | cons entry entries ih =>
    rw [List.foldlM_cons, List.forall_mem_cons]
    cases hdepends : entry.2.dependsOn with
    | none =>
      simp only [linkService, hdepends]
      exact ih.trans (by simp)
    | some dependsOn =>
      have hfirst := @links_ok_iff compose entry.1 dependsOn g dependsOn.iter
      simp only [linkService, hdepends, Option.some.injEq, forall_eq']
      constructor
      · intro h
        obtain ⟨g', hg⟩ := h
        obtain ⟨g1, h1, h2⟩ := Except.bind_eq_ok.mp hg
        exact ⟨hfirst.mp ⟨g1, h1⟩, ih.mp ⟨g', h2⟩⟩
      · intro h
        obtain ⟨g1, h1⟩ := hfirst.mpr h.1
        obtain ⟨g', h2⟩ := ih.mpr h.2
        exact ⟨g', Except.bind_eq_ok.mpr ⟨g1, h1, h2⟩⟩

theorem indegree_linked
    (h : compose.services.entries.foldlM (linkService compose) (new compose) = .ok g) (s : String) :
    g.indegree.get s =
      if s ∈ compose.services.keys then some (compose.dependencies s).length else none := by
  rw [(grows_linkServices h).indegree, owed_eq, get_new]
  split <;> simp

theorem edges_linked
    (h : compose.services.entries.foldlM (linkService compose) (new compose) = .ok g)
    (d s : String) :
    ((g.edges.get d).getD []).count s = (compose.dependencies s).count d := by
  rw [(grows_linkServices h).edges, owed_eq]
  simp [new]

end Links

/-! ## The walk -/

namespace Walk
variable {names : List String} {deps : String → List String} {edges : OrdMap String (List String)}
  {w : Walk} {done : List String}

theorem release_processed (w : Walk) (child : String) :
    (w.release child).processed = w.processed := by
  unfold release
  split <;> rfl

theorem foldl_release {children : List String}
    (h : ∀ s ∈ children, ∃ n, w.indegree.get s = some n ∧ children.count s ≤ n) :
    (∀ s, (children.foldl release w).indegree.get s =
      (w.indegree.get s).map (· - children.count s)) ∧
    (children.foldl release w).processed = w.processed ∧
    ∃ pushed, (children.foldl release w).queue = w.queue ++ pushed ∧ pushed.Nodup ∧
      ∀ s, s ∈ pushed ↔ s ∈ children ∧ w.indegree.get s = some (children.count s) := by
  induction children generalizing w with
  | nil => exact ⟨fun s => by simp, rfl, [], by simp, List.nodup_nil, by simp⟩
  | cons child children ih =>
    obtain ⟨n, hn, hcount⟩ := h child (by simp)
    rw [List.count_cons_self] at hcount
    have hget : ∀ s, (w.release child).indegree.get s =
        if s = child then some (n - 1) else w.indegree.get s := by
      intro s
      simp only [release, hn]
      exact OrdMap.get_insert _ _ _ _
    have hrest : ∀ s ∈ children,
        ∃ n, (w.release child).indegree.get s = some n ∧ children.count s ≤ n := by
      intro s hs
      rw [hget]
      by_cases heq : s = child
      · subst heq
        exact ⟨n - 1, by simp, by omega⟩
      · obtain ⟨k, hk, hle⟩ := h s (by simp [hs])
        rw [List.count_cons_of_ne (fun hne => heq hne.symm)] at hle
        exact ⟨k, by simp [heq, hk], hle⟩
    obtain ⟨hindegree, hprocessed, pushed, hqueue, hnodup, hmem⟩ := ih hrest
    have hqueue1 : (w.release child).queue =
        w.queue ++ if n - 1 = 0 then [child] else [] := by
      simp only [release, hn]
      split <;> simp
    refine ⟨?_, hprocessed.trans (release_processed w child),
      (if n - 1 = 0 then [child] else []) ++ pushed, ?_, ?_, ?_⟩
    · intro s
      rw [List.foldl_cons, hindegree, hget]
      by_cases heq : s = child
      · subst heq
        simp only [if_true, hn, Option.map_some, List.count_cons_self]
        congr 1
        omega
      · rw [if_neg heq, List.count_cons_of_ne (fun hne => heq hne.symm)]
    · rw [List.foldl_cons, hqueue, hqueue1, List.append_assoc]
    · by_cases hlast : n - 1 = 0
      · -- the last edge into the child: it does not occur again
        have hnot : child ∉ pushed := by
          intro hin
          have := List.count_pos_iff.mpr ((hmem child).mp hin).1
          omega
        simpa [hlast] using ⟨hnot, hnodup⟩
      · simpa [hlast] using hnodup
    · intro s
      rw [List.mem_append, hmem, hget]
      by_cases heq : s = child
      · subst heq
        rw [List.count_cons_self, hn]
        simp only [if_true, Option.some.injEq, List.mem_cons, true_or, true_and]
        constructor
        · intro hin
          rcases hin with hin | hin
          · have hlast : n - 1 = 0 := by
              by_contra hne
              simp [hne] at hin
            omega
          · have := List.count_pos_iff.mpr hin.1
            omega
        · intro heq
          by_cases hin : s ∈ children
          · exact .inr ⟨hin, by omega⟩
          · have := List.count_eq_zero_of_not_mem hin
            left
            simp [show n - 1 = 0 by omega]
      · rw [if_neg heq, List.count_cons_of_ne (fun hne => heq hne.symm)]
        have : s ∉ (if n - 1 = 0 then [child] else []) := by
          split <;> simp [heq]
        simp [this, heq]

structure Counted (names : List String) (deps : String → List String) (done : List String)
    (w : Walk) : Prop where
  indegree : ∀ s, w.indegree.get s =
    if s ∈ names then some ((deps s).countP (· ∉ done)) else none
  queue_nodup : w.queue.Nodup
  mem_queue : ∀ s, s ∈ w.queue ↔ Ready names deps done s
  processed : w.processed = done.length
  closed : ∀ s ∈ done, ∀ d ∈ deps s, d ∈ done

structure Edges (names : List String) (deps : String → List String)
    (edges : OrdMap String (List String)) : Prop where
  count : ∀ d s, ((edges.get d).getD []).count s = (deps s).count d
  closed : ∀ s, ∀ d ∈ deps s, s ∈ names

theorem countP_done_append {l : List String} {node : String} (hnode : node ∉ done) :
    l.countP (· ∉ done ++ [node]) = l.countP (· ∉ done) - l.count node := by
  induction l with
  | nil => rfl
  | cons d l ih =>
    have hle : l.count node ≤ l.countP (· ∉ done) := by
      refine List.countP_mono_left fun x _ hx => ?_
      have : x = node := by simpa using hx
      simpa [this] using hnode
    simp only [List.countP_cons, List.count_cons, ih]
    by_cases hd : d = node
    · simp only [hd, List.mem_append, List.mem_singleton, or_true, not_true_eq_false, decide_false,
        hnode, not_false_eq_true, decide_true, beq_self_eq_true]
      simp
    · by_cases hin : d ∈ done
      · simp [hd, hin]
      · simp only [hd, hin, List.mem_append, List.mem_singleton, or_false, not_false_eq_true,
          decide_true, if_true, beq_iff_eq, if_false]
        omega

theorem Counted.mem_rest (h : Counted names deps done w) {node : String} {rest : List String}
    (hqueue : w.queue = node :: rest) (s : String) :
    s ∈ rest ↔ Ready names deps (done ++ [node]) s ∧ node ∉ deps s := by
  have hready : Ready names deps done node := (h.mem_queue node).mp (by simp [hqueue])
  have hnodup := h.queue_nodup
  rw [hqueue, List.nodup_cons] at hnodup
  have hs := h.mem_queue s
  rw [hqueue, List.mem_cons] at hs
  constructor
  · intro hin
    have hne : s ≠ node := fun heq => hnodup.1 (heq ▸ hin)
    have hready' := hs.mp (.inr hin)
    refine ⟨⟨hready'.1, ?_, fun d hd => List.mem_append_left _ (hready'.2.2 d hd)⟩, ?_⟩
    · simpa [hne] using hready'.2.1
    · exact fun hd => hready.2.1 (hready'.2.2 node hd)
  · intro hin
    have hdone : s ∉ done ∧ s ≠ node := by simpa using hin.1.2.1
    have hdeps : ∀ d ∈ deps s, d ∈ done := by
      intro d hd
      rcases List.mem_append.mp (hin.1.2.2 d hd) with hd' | hd'
      · exact hd'
      · exact absurd (List.mem_singleton.mp hd' ▸ hd) hin.2
    exact (hs.mpr ⟨hin.1.1, hdone.1, hdeps⟩).resolve_left hdone.2

theorem Counted.popFront (h : Counted names deps done w) (he : Edges names deps edges)
    (batch : List String) {node : String} {rest : List String} (hqueue : w.queue = node :: rest) :
    ∃ w' pushed, Walk.popFront edges (batch, w) = (batch ++ [node], w') ∧
      w'.queue = rest ++ pushed ∧ Counted names deps (done ++ [node]) w' := by
  let children := (edges.get node).getD []
  have hready : Ready names deps done node := (h.mem_queue node).mp (by simp [hqueue])
  have hle : ∀ s, (deps s).count node ≤ (deps s).countP (· ∉ done) := by
    intro s
    refine List.countP_mono_left fun x _ hx => ?_
    have : x = node := by simpa using hx
    simpa [this] using hready.2.1
  have hchild : ∀ s, s ∈ children ↔ node ∈ deps s := by
    intro s
    rw [← List.count_pos_iff, he.count, List.count_pos_iff]
  have hstart : ∀ s ∈ children, ∃ n, w.indegree.get s = some n ∧ children.count s ≤ n := by
    intro s hs
    have hs' := he.closed s node ((hchild s).mp hs)
    refine ⟨_, (h.indegree s).trans (if_pos hs'), ?_⟩
    rw [he.count]
    exact hle s
  obtain ⟨hindegree, hprocessed, pushed, hpushed, hnodup, hmem⟩ :=
    foldl_release (w := { w with queue := rest, processed := w.processed + 1 }) hstart
  have hget : ∀ s, (children.foldl release
      { w with queue := rest, processed := w.processed + 1 }).indegree.get s =
        if s ∈ names then some ((deps s).countP (· ∉ done ++ [node])) else none := by
    intro s
    rw [hindegree, h.indegree, he.count, countP_done_append hready.2.1]
    split <;> simp
  have hzero : ∀ s, (deps s).countP (· ∉ done ++ [node]) = 0 ↔
      ∀ d ∈ deps s, d ∈ done ++ [node] := by
    intro s
    rw [List.countP_eq_zero]
    simp [or_iff_not_imp_left]
  have hundone : ∀ s, node ∈ deps s → s ∉ done ++ [node] := by
    intro s hs hin
    rcases List.mem_append.mp hin with hin | hin
    · exact hready.2.1 (h.closed s hin node hs)
    · rw [List.mem_singleton] at hin
      subst hin
      exact hready.2.1 (hready.2.2 s hs)
  -- a service is pushed when this was the last of its dependencies
  have hnew : ∀ s, s ∈ pushed ↔ Ready names deps (done ++ [node]) s ∧ node ∈ deps s := by
    intro s
    rw [hmem, hchild, h.indegree, he.count]
    have hcount := @countP_done_append done (deps s) node hready.2.1
    have hle := hle s
    constructor
    · intro hs
      have hs' := he.closed s node hs.1
      have hall := hs.2
      rw [if_pos hs', Option.some.injEq] at hall
      exact ⟨⟨hs', hundone s hs.1, (hzero s).mp (by omega)⟩, hs.1⟩
    · intro hs
      have := (hzero s).mpr hs.1.2.2
      refine ⟨hs.2, ?_⟩
      rw [if_pos hs.1.1, Option.some.injEq]
      omega
  have hkept := h.mem_rest hqueue
  refine ⟨_, pushed, ?_, hpushed, hget, ?_, ?_, ?_, ?_⟩
  · simp only [Walk.popFront, hqueue]
    rfl
  · rw [hpushed, List.nodup_append]
    have hnodup' := h.queue_nodup
    rw [hqueue, List.nodup_cons] at hnodup'
    refine ⟨hnodup'.2, hnodup, ?_⟩
    intro s hs t ht heq
    subst heq
    exact ((hkept s).mp hs).2 ((hnew s).mp ht).2
  · intro s
    rw [hpushed, List.mem_append, hnew, hkept]
    tauto
  · rw [hprocessed, h.processed, List.length_append]
    rfl
  · intro s hs d hd
    rcases List.mem_append.mp hs with hs | hs
    · exact List.mem_append_left _ (h.closed s hs d hd)
    · rw [List.mem_singleton.mp hs] at hd
      exact List.mem_append_left _ (hready.2.2 d hd)

theorem Counted.popBatch (he : Edges names deps edges) (batch : List String)
    {front back : List String} (h : Counted names deps done w) (hqueue : w.queue = front ++ back) :
    ∃ w', (Walk.popFront edges)^[front.length] (batch, w) = (batch ++ front, w') ∧
      Counted names deps (done ++ front) w' := by
  induction front generalizing done w back batch with
  | nil => exact ⟨w, by simp, by simpa using h⟩
  | cons node front ih =>
    obtain ⟨w1, pushed, hpop, hqueue1, h1⟩ := h.popFront he batch hqueue
    have hqueue1 : w1.queue = front ++ (back ++ pushed) := by
      rw [hqueue1, ← List.append_assoc]
      rfl
    obtain ⟨w', hrun, h'⟩ := ih (batch ++ [node]) h1 hqueue1
    refine ⟨w', ?_, by simpa using h'⟩
    rw [List.length_cons, Function.iterate_succ_apply, hpop, hrun]
    simp

theorem Counted.batches (he : Edges names deps edges) {order : List (List String)} {fuel : Nat}
    (horder : Layered names deps order) (h : Counted names deps order.flatten w)
    (hfuel : names.length ≤ fuel + order.flatten.length) :
    ∃ w' order', Walk.batches edges fuel w order = some (w', order') ∧
      Layered names deps order' ∧ Counted names deps order'.flatten w' ∧ w'.queue = [] := by
  induction fuel generalizing w order with
  | zero =>
    have hempty : w.queue = [] := by
      by_contra hne
      obtain ⟨node, hnode⟩ := List.exists_mem_of_ne_nil _ hne
      have hready := (h.mem_queue node).mp hnode
      have hsub : (node :: order.flatten) ⊆ names := by
        intro s hs
        rcases List.mem_cons.mp hs with rfl | hs
        · exact hready.1
        · exact horder.mem_names hs
      have hnodup : (node :: order.flatten).Nodup :=
        List.nodup_cons.mpr ⟨hready.2.1, horder.nodup_flatten⟩
      have := (List.subperm_of_subset hnodup hsub).length_le
      simp only [List.length_cons] at this
      omega
    exact ⟨w, order, by simp [Walk.batches, hempty], horder, h, hempty⟩
  | succ fuel ih =>
    by_cases hempty : w.queue = []
    · exact ⟨w, order, by simp [Walk.batches, hempty], horder, h, hempty⟩
    · obtain ⟨w1, hrun, h1⟩ := h.popBatch he [] (List.append_nil w.queue).symm
      have hlayer := horder.append h.queue_nodup h.mem_queue
      have hlength : 0 < w.queue.length := List.length_pos_of_ne_nil hempty
      obtain ⟨w', order', hbatches, hrest⟩ := ih hlayer (by simpa using h1) (by
        simp only [List.flatten_append, List.flatten_singleton, List.length_append]
        omega)
      refine ⟨w', order', ?_, hrest⟩
      rw [Walk.batches, if_neg (by simpa using hempty), hrun]
      exact hbatches

end Walk

/-! ## The start and stop orders -/

namespace ServiceGraph
variable {compose : ComposeFile}

theorem mem_keys_of_dependency {s d : String} (h : d ∈ compose.dependencies s) :
    s ∈ compose.services.keys := by
  unfold ComposeFile.dependencies at h
  cases hget : compose.services.get s with
  | none => simp [hget] at h
  | some service =>
    exact List.mem_map.mpr ⟨(s, service), (compose.services.get_eq_some_iff).mp hget, rfl⟩

theorem dependency_mem_keys {s d : String} (h : d ∈ compose.dependencies s) :
    d ∈ compose.services.keys := by
  unfold ComposeFile.dependencies at h
  cases hget : compose.services.get s with
  | none => simp [hget] at h
  | some service =>
    rw [hget, Option.map_some, Option.getD_some, ComposeFile.definedOf, List.mem_filter] at h
    exact compose.services.containsKey_iff.mp h.2

variable {fuel : Nat}

theorem fromCompose_eq (hfuel : compose.services.keys.length ≤ fuel)
    (iteration : Iteration compose) :
    (¬ compose.RequiredDefined ∧ ∃ e, fromCompose fuel compose iteration = some (.error e)) ∨
    compose.RequiredDefined ∧ ∃ order, Layered compose.services.keys compose.dependencies order ∧
      (¬ compose.Acyclic ∧ (∃ e, fromCompose fuel compose iteration = some (.error e)) ∨
       compose.Acyclic ∧ order.flatten.Perm compose.services.keys ∧
         fromCompose fuel compose iteration = some (.ok ⟨order⟩)) := by
  have hok := @Links.linkServices_ok_iff compose (Links.new compose) compose.services.entries
  cases hlinks : compose.services.entries.foldlM (Links.linkService compose)
      (Links.new compose) with
  | error e =>
    left
    constructor
    · intro hrequired
      obtain ⟨g, hg⟩ := hok.mpr hrequired
      rw [hlinks] at hg
      cases hg
    · exact ⟨e, by simp [fromCompose, hlinks]⟩
  | ok g =>
    right
    refine ⟨hok.mp ⟨g, hlinks⟩, ?_⟩
    have hnodup : compose.services.keys.Nodup := compose.services.nodup
    have he : Walk.Edges compose.services.keys compose.dependencies g.edges :=
      ⟨Links.edges_linked hlinks, fun s d hd => mem_keys_of_dependency hd⟩
    have hindegree := Links.indegree_linked hlinks
    let queue := iteration.1.filter fun name => g.indegree.get name = some 0
    have hstart : Walk.Counted compose.services.keys compose.dependencies [].flatten
        ⟨g.indegree, queue, 0⟩ := by
      constructor
      · intro s
        rw [hindegree]
        simp
      · exact (iteration.2.nodup_iff.mpr hnodup).filter _
      · intro s
        rw [List.mem_filter, iteration.2.mem_iff, hindegree, Ready]
        by_cases hs : s ∈ compose.services.keys
        · simp [hs, List.eq_nil_iff_forall_not_mem]
        · simp [hs]
      · rfl
      · simp
    obtain ⟨w, order, hbatches, hlayered, hcounted, hempty⟩ :=
      Walk.Counted.batches he Layered.nil hstart (by simpa using hfuel)
    have hlength : w.indegree.entries.length = compose.services.keys.length := by
      refine length_entries_of_get hnodup fun s => ?_
      rw [hcounted.indegree]
      by_cases hs : s ∈ compose.services.keys
      · simp [hs]
      · simp [hs]
    have hnone : ∀ s, ¬ Ready compose.services.keys compose.dependencies order.flatten s := by
      intro s hs
      have := (hcounted.mem_queue s).mpr hs
      simp [hempty] at this
    have hsub := List.subperm_of_subset hlayered.nodup_flatten fun s => hlayered.mem_names
    refine ⟨order, hlayered, ?_⟩
    by_cases hprocessed : w.processed = w.indegree.entries.length
    · right
      have hperm : order.flatten.Perm compose.services.keys := by
        refine hsub.perm_of_length_le ?_
        rw [← hlength, ← hprocessed, hcounted.processed]
      refine ⟨?_, hperm, ?_⟩
      · exact hlayered.acyclic (fun s hs => hperm.mem_iff.mpr hs)
          fun s d hd => mem_keys_of_dependency hd
      · simp only [fromCompose, hlinks, queue] at hbatches ⊢
        simp [hbatches, hprocessed]
    · left
      constructor
      · intro hacyclic
        have hlt : order.flatten.length < compose.services.keys.length := by
          have := hsub.length_le
          rw [hcounted.processed, hlength] at hprocessed
          omega
        have hmissing : ∃ s ∈ compose.services.keys, s ∉ order.flatten := by
          by_contra hall
          push Not at hall
          have := (List.subperm_of_subset hnodup hall).length_le
          omega
        obtain ⟨s, hs, hdone⟩ := hmissing
        obtain ⟨b, hb⟩ :=
          exists_ready hacyclic (fun a d hd => dependency_mem_keys hd) hs hdone
        exact hnone b hb
      · refine ⟨.validation "compose contains cyclic dependencies", ?_⟩
        simp only [fromCompose, hlinks, queue] at hbatches ⊢
        simp [hbatches, hprocessed]

theorem fromCompose_ok (hfuel : compose.services.keys.length ≤ fuel)
    (iteration : Iteration compose) (h : compose.RequiredDefined ∧ compose.Acyclic) :
    ∃ order, Layered compose.services.keys compose.dependencies order ∧
      order.flatten.Perm compose.services.keys ∧
      fromCompose fuel compose iteration = some (.ok ⟨order⟩) := by
  rcases fromCompose_eq hfuel iteration with ⟨hnot, -⟩ | ⟨-, order, hlayered, hcases⟩
  · exact absurd h.1 hnot
  · rcases hcases with ⟨hnot, -⟩ | ⟨-, hperm, hgraph⟩
    · exact absurd h.2 hnot
    · exact ⟨order, hlayered, hperm, hgraph⟩

theorem fromCompose_error (hfuel : compose.services.keys.length ≤ fuel)
    (iteration : Iteration compose) (h : ¬ (compose.RequiredDefined ∧ compose.Acyclic)) :
    ∃ e, fromCompose fuel compose iteration = some (.error e) := by
  rcases fromCompose_eq hfuel iteration with ⟨-, he⟩ | ⟨hrequired, order, -, hcases⟩
  · exact he
  · rcases hcases with ⟨-, he⟩ | ⟨hacyclic, -⟩
    · exact he
    · exact absurd ⟨hrequired, hacyclic⟩ h

theorem composeDown_before (hfuel : compose.services.keys.length ≤ fuel)
    (iteration : Iteration compose) (h : compose.RequiredDefined ∧ compose.Acyclic) :
    ∃ down, composeDown fuel compose iteration = some (.ok down) ∧
      down.Perm compose.services.keys ∧
      ∀ s d, Relation.TransGen (fun s d => d ∈ compose.dependencies s) s d →
        down.idxOf s < down.idxOf d := by
  obtain ⟨order, hlayered, hperm, hgraph⟩ := fromCompose_ok hfuel iteration h
  have hdown : composeDown fuel compose iteration = some (.ok order.flatten.reverse) := by
    simp [composeDown, composeUp, hgraph, Except.map, startBatches]
  have hperm' : order.flatten.reverse.Perm compose.services.keys :=
    (List.reverse_perm _).trans hperm
  refine ⟨_, hdown, hperm', ?_⟩
  intro s d hreach
  have hs : s ∈ order.flatten.reverse := by
    obtain ⟨t, ht, -⟩ := Relation.TransGen.head'_iff.mp hreach
    exact hperm'.mem_iff.mpr (mem_keys_of_dependency ht)
  have hd : d ∈ order.flatten.reverse := by
    obtain ⟨t, -, ht⟩ := Relation.TransGen.tail'_iff.mp hreach
    exact hperm'.mem_iff.mpr (dependency_mem_keys ht)
  have hlater := List.pairwise_reverse.mpr hlayered.pairwise_flatten
  rw [List.pairwise_iff_getElem] at hlater
  by_contra hle
  rcases Nat.lt_or_eq_of_le (Nat.le_of_not_lt hle) with hlt | heq
  · refine hlater _ _ (List.idxOf_lt_length_of_mem hd) (List.idxOf_lt_length_of_mem hs) hlt ?_
    rw [List.getElem_idxOf, List.getElem_idxOf]
    exact hreach
  · have : d = s := (List.idxOf_inj hd).mp heq
    subst this
    exact h.2 d hreach

/-- The graph is built exactly for files whose required dependencies are defined and whose defined
dependencies form no cycle. Its batches hold each service once, as early as its dependencies
allow, and a service is stopped before all it depends on. -/
theorem start_and_stop_order {fuel : Nat} (hfuel : compose.services.keys.length ≤ fuel)
    (iteration iteration' : Iteration compose) :
    ((∃ graph, fromCompose fuel compose iteration = some (.ok graph)) ↔
      compose.RequiredDefined ∧ compose.Acyclic) ∧
    (¬ (compose.RequiredDefined ∧ compose.Acyclic) →
      ∃ e, fromCompose fuel compose iteration = some (.error e)) ∧
    ∀ graph, fromCompose fuel compose iteration = some (.ok graph) →
      graph.startBatches.flatten.Perm compose.services.keys ∧
      (∀ (i : Nat) batch, graph.startBatches[i]? = some batch → ∀ s ∈ batch,
        (∀ d ∈ compose.dependencies s,
          ∃ j < i, ∃ earlier, graph.startBatches[j]? = some earlier ∧ d ∈ earlier) ∧
        ∀ rank : String → Nat, (∀ s, ∀ d ∈ compose.dependencies s, rank d < rank s) →
          i ≤ rank s) ∧
      ∃ down, composeDown fuel compose iteration' = some (.ok down) ∧
        down.Perm compose.services.keys ∧
        ∀ s d, Relation.TransGen (fun s d => d ∈ compose.dependencies s) s d →
          down.idxOf s < down.idxOf d := by
  have hiff : (∃ graph, fromCompose fuel compose iteration = some (.ok graph)) ↔
      compose.RequiredDefined ∧ compose.Acyclic := by
    constructor
    · intro h
      obtain ⟨graph, hgraph⟩ := h
      by_contra hnot
      obtain ⟨e, he⟩ := fromCompose_error hfuel iteration hnot
      rw [hgraph] at he
      cases he
    · intro h
      obtain ⟨order, -, -, hgraph⟩ := fromCompose_ok hfuel iteration h
      exact ⟨_, hgraph⟩
  refine ⟨hiff, fromCompose_error hfuel iteration, ?_⟩
  intro graph hgraph
  have hvalid := hiff.mp ⟨graph, hgraph⟩
  obtain ⟨order, hlayered, hperm, horder⟩ := fromCompose_ok hfuel iteration hvalid
  have hsame : graph = ⟨order⟩ := by
    rw [hgraph] at horder
    simpa using horder
  subst hsame
  refine ⟨hperm, ?_, composeDown_before hfuel iteration' hvalid⟩
  intro i batch hi s hs
  exact ⟨fun d hd => hlayered.dep_earlier hi hs hd,
    fun rank hrank => hlayered.index_le (fun a _ => hrank a) hi hs⟩

def webAndDatabase : ComposeFile where
  services :=
    ⟨[("web", ⟨some (.simple ["db", "db"])⟩),
      ("db", ⟨some (.conditional ⟨[("cache", ⟨false, "service_started"⟩)], by decide⟩)⟩)], by decide⟩

theorem start_and_stop_order_web :
    webAndDatabase.services.keys.length ≤ 2 ∧
    ((∃ graph, fromCompose 2 webAndDatabase ⟨_, .refl _⟩ = some (.ok graph)) ↔
      webAndDatabase.RequiredDefined ∧ webAndDatabase.Acyclic) ∧
    fromCompose 2 webAndDatabase ⟨_, .refl _⟩ = some (.ok ⟨[["db"], ["web"]]⟩) :=
  ⟨by decide, (@start_and_stop_order webAndDatabase 2 (by decide) ⟨_, .refl _⟩ ⟨_, .refl _⟩).1,
    by decide +kernel⟩

end ServiceGraph

/-! ## The order of the maps -/

inductive DependsOn.Reordered : DependsOn → DependsOn → Prop where
  | simple (list : List String) : Reordered (.simple list) (.simple list)
  | conditional {map map' : HashMap DependsCondition} (entries : map.entries.Perm map'.entries) :
      Reordered (.conditional map) (.conditional map')

/-- The same file with its hash maps walked in other orders: that of the services, and that of each
conditional `depends_on`. -/
def ComposeFile.Reordered (compose compose' : ComposeFile) : Prop :=
  ∃ entries, compose.services.entries.Perm entries ∧
    List.Forall₂ (fun e e' => e.1 = e'.1 ∧
      Option.Rel DependsOn.Reordered e.2.dependsOn e'.2.dependsOn) entries compose'.services.entries

namespace DependsOn.Reordered
variable {dependsOn dependsOn' : DependsOn}

theorem iter_perm (h : dependsOn.Reordered dependsOn') : dependsOn.iter.Perm dependsOn'.iter := by
  cases h with
  | simple list => exact .refl _
  | conditional entries => exact entries.map _

theorem isRequired_eq (h : dependsOn.Reordered dependsOn') (name : String) :
    dependsOn.isRequired name = dependsOn'.isRequired name := by
  cases h with
  | simple list => rfl
  | @conditional map map' entries =>
    have hget : map.get name = map'.get name := by
      refine Option.ext fun condition => ?_
      rw [map.get_eq_some_iff, map'.get_eq_some_iff, entries.mem_iff]
    simp only [isRequired, hget]

theorem symm (h : dependsOn.Reordered dependsOn') : dependsOn'.Reordered dependsOn := by
  cases h with
  | simple list => exact .simple list
  | conditional entries => exact .conditional entries.symm

end DependsOn.Reordered

theorem exists_mem_of_forall₂ {α β : Type} {R : α → β → Prop} {as : List α} {bs : List β} {a : α}
    (h : List.Forall₂ R as bs) (ha : a ∈ as) : ∃ b ∈ bs, R a b := by
  induction h with
  | nil => cases ha
  | @cons a' b as bs hab hrest ih =>
    rcases List.mem_cons.mp ha with rfl | ha
    · exact ⟨b, List.mem_cons_self, hab⟩
    · obtain ⟨b', hb', hab'⟩ := ih ha
      exact ⟨b', List.mem_cons_of_mem _ hb', hab'⟩

namespace ComposeFile.Reordered
variable {compose compose' : ComposeFile}

section
variable (h : compose.Reordered compose')
include h

theorem mem {entry : String × ServiceSpec}
    (hmem : entry ∈ compose.services.entries) : ∃ entry' ∈ compose'.services.entries,
      entry.1 = entry'.1 ∧
        Option.Rel DependsOn.Reordered entry.2.dependsOn entry'.2.dependsOn := by
  obtain ⟨entries, hperm, hall⟩ := h
  exact exists_mem_of_forall₂ hall (hperm.mem_iff.mp hmem)

theorem symm : compose'.Reordered compose := by
  obtain ⟨entries, hperm, hall⟩ := h
  obtain ⟨entries', hall', hperm'⟩ := List.perm_comp_forall₂ hperm hall
  refine ⟨entries', hperm'.symm, hall'.flip.imp fun entry' entry hrel => ⟨hrel.1.symm, ?_⟩⟩
  obtain ⟨-, hrel⟩ := hrel
  revert hrel
  generalize entry.2.dependsOn = dependsOn
  generalize entry'.2.dependsOn = dependsOn'
  intro hrel
  cases hrel with
  | none => exact .none
  | some hrel => exact .some hrel.symm

theorem keys_perm :
    compose.services.keys.Perm compose'.services.keys := by
  refine (List.perm_ext_iff_of_nodup compose.services.nodup compose'.services.nodup).mpr fun name => ?_
  have hsub {c c' : ComposeFile} (h : c.Reordered c') (hname : name ∈ c.services.keys) :
      name ∈ c'.services.keys := by
    obtain ⟨entry, hentry, rfl⟩ := List.mem_map.mp hname
    obtain ⟨entry', hentry', hkey, -⟩ := h.mem hentry
    exact List.mem_map.mpr ⟨entry', hentry', hkey.symm⟩
  exact ⟨hsub h, hsub h.symm⟩

theorem containsKey_eq :
    compose.services.containsKey = compose'.services.containsKey := by
  funext name
  rw [Bool.eq_iff_iff, HashMap.containsKey_iff, HashMap.containsKey_iff, h.keys_perm.mem_iff]

theorem get_rel (name : String) :
    Option.Rel (fun service service' : ServiceSpec =>
        Option.Rel DependsOn.Reordered service.dependsOn service'.dependsOn)
      (compose.services.get name) (compose'.services.get name) := by
  cases hget : compose.services.get name with
  | some service =>
    obtain ⟨⟨_, service'⟩, hmem, rfl, hrel⟩ := h.mem (compose.services.get_eq_some_iff.mp hget)
    rw [compose'.services.get_eq_some_iff.mpr hmem]
    exact .some hrel
  | none =>
    cases hget' : compose'.services.get name with
    | none => exact .none
    | some service' =>
      obtain ⟨⟨_, service⟩, hmem, rfl, -⟩ := h.symm.mem (compose'.services.get_eq_some_iff.mp hget')
      rw [compose.services.get_eq_some_iff.mpr hmem] at hget
      cases hget

theorem dependencies_perm (name : String) :
    (compose.dependencies name).Perm (compose'.dependencies name) := by
  have hrel := h.get_rel name
  unfold ComposeFile.dependencies
  revert hrel
  generalize compose.services.get name = found
  generalize compose'.services.get name = found'
  intro hrel
  cases hrel with
  | none => exact .refl _
  | @some service service' hrel =>
    show (compose.definedOf service).Perm (compose'.definedOf service')
    unfold ComposeFile.definedOf
    rw [h.containsKey_eq]
    revert hrel
    generalize service.dependsOn = dependsOn
    generalize service'.dependsOn = dependsOn'
    intro hrel
    cases hrel with
    | none => exact .refl _
    | some hrel => exact hrel.iter_perm.filter _

theorem requiredDefined (hrequired : compose.RequiredDefined) :
    compose'.RequiredDefined := by
  intro entry' hentry' dependsOn' hdepends' dep hdep hisRequired
  obtain ⟨entry, hentry, -, hrel⟩ := h.symm.mem hentry'
  rw [hdepends'] at hrel
  cases hdepends : entry.2.dependsOn with
  | none =>
    rw [hdepends] at hrel
    cases hrel
  | some dependsOn =>
    rw [hdepends] at hrel
    cases hrel with
    | some hrel =>
      exact h.keys_perm.mem_iff.mp (hrequired entry hentry dependsOn hdepends dep
        (hrel.iter_perm.mem_iff.mp hdep) ((hrel.isRequired_eq dep).symm.trans hisRequired))

theorem acyclic_iff : compose.Acyclic ↔ compose'.Acyclic := by
  have hdeps : (fun name dep => dep ∈ compose.dependencies name) =
      fun name dep => dep ∈ compose'.dependencies name := by
    funext name dep
    exact propext (h.dependencies_perm name).mem_iff
  rw [ComposeFile.Acyclic, ComposeFile.Acyclic, hdeps]

end

end ComposeFile.Reordered

namespace ServiceGraph
variable {compose compose' : ComposeFile}

/-- **The plan does not depend on the order of the maps.** Whatever orders the hash maps of a file
are walked in, it is refused in both, or each service is started in the same batch in both. -/
theorem start_batches_agree (hsame : compose.Reordered compose') {fuel : Nat}
    (hfuel : compose.services.keys.length ≤ fuel) (iteration : Iteration compose)
    (iteration' : Iteration compose') :
    (∃ e e', fromCompose fuel compose iteration = some (.error e) ∧
      fromCompose fuel compose' iteration' = some (.error e')) ∨
    ∃ graph graph', fromCompose fuel compose iteration = some (.ok graph) ∧
      fromCompose fuel compose' iteration' = some (.ok graph') ∧
      ∀ (i : Nat) (s : String), (∃ batch, graph.startBatches[i]? = some batch ∧ s ∈ batch) ↔
        ∃ batch, graph'.startBatches[i]? = some batch ∧ s ∈ batch := by
  have hkeys := hsame.keys_perm
  have hfuel' : compose'.services.keys.length ≤ fuel := hkeys.length_eq ▸ hfuel
  have hiff : compose.RequiredDefined ∧ compose.Acyclic ↔
      compose'.RequiredDefined ∧ compose'.Acyclic :=
    and_congr ⟨hsame.requiredDefined, hsame.symm.requiredDefined⟩ hsame.acyclic_iff
  by_cases hvalid : compose.RequiredDefined ∧ compose.Acyclic
  · obtain ⟨order, hlayered, hperm, hgraph⟩ := fromCompose_ok hfuel iteration hvalid
    obtain ⟨order', hlayered', hperm', hgraph'⟩ :=
      fromCompose_ok hfuel' iteration' (hiff.mp hvalid)
    -- the other plan is layered by the dependencies of the first file too
    have hlayered' := hlayered'.congr (fun a => hkeys.mem_iff.symm)
      fun a d => (hsame.dependencies_perm a).mem_iff.symm
    have hall : ∀ s ∈ compose.services.keys, s ∈ order.flatten := fun s hs => hperm.mem_iff.mpr hs
    have hall' : ∀ s ∈ compose.services.keys, s ∈ order'.flatten :=
      fun s hs => hperm'.mem_iff.mpr (hkeys.mem_iff.mp hs)
    exact .inr ⟨_, _, hgraph, hgraph',
      fun i s => ⟨hlayered.same_index hlayered' hall hall', hlayered'.same_index hlayered hall' hall⟩⟩
  · obtain ⟨e, he⟩ := fromCompose_error hfuel iteration hvalid
    obtain ⟨e', he'⟩ := fromCompose_error hfuel' iteration' (mt hiff.mpr hvalid)
    exact .inl ⟨e, e', he, he'⟩

def shopFile : ComposeFile where
  services :=
    ⟨[("web", ⟨some (.conditional ⟨[("db", ⟨true, "service_healthy"⟩),
        ("cache", ⟨true, "service_started"⟩)], by decide⟩)⟩),
      ("db", ⟨none⟩), ("cache", ⟨none⟩)], by decide⟩

def shopFile' : ComposeFile where
  services :=
    ⟨[("cache", ⟨none⟩), ("db", ⟨none⟩),
      ("web", ⟨some (.conditional ⟨[("cache", ⟨true, "service_started"⟩),
        ("db", ⟨true, "service_healthy"⟩)], by decide⟩)⟩)], by decide⟩

theorem shopFile_reordered : shopFile.Reordered shopFile' :=
  ⟨_, (List.reverse_perm _).symm, .cons ⟨rfl, .none⟩ (.cons ⟨rfl, .none⟩
    (.cons ⟨rfl, .some (.conditional (.swap ..))⟩ .nil))⟩

theorem start_batches_agree_shop :
    ∃ graph graph', fromCompose 3 shopFile ⟨_, .refl _⟩ = some (.ok graph) ∧
      fromCompose 3 shopFile' ⟨_, .refl _⟩ = some (.ok graph') ∧
      ∀ (i : Nat) (s : String), (∃ batch, graph.startBatches[i]? = some batch ∧ s ∈ batch) ↔
        ∃ batch, graph'.startBatches[i]? = some batch ∧ s ∈ batch := by
  have hfuel : shopFile.services.keys.length ≤ 3 := by decide
  obtain ⟨e, -, he, -⟩ | h := start_batches_agree shopFile_reordered hfuel ⟨_, .refl _⟩
    ⟨_, .refl _⟩
  · cases he.symm.trans (by decide +kernel : fromCompose 3 shopFile ⟨_, .refl _⟩
      = some (.ok ⟨[["db", "cache"], ["web"]]⟩))
  · exact h

end ServiceGraph

end Ferrocrate.Compose
