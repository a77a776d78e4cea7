import Ferrocrate.Authorization.Surface
import Ferrocrate.Lib.OrdMap

/-! The image store (`image_store.rs`): a table of references and a table of digests, and what
one statement or transaction does to them. -/
namespace Ferrocrate.Image
open Lib
open Authorization (AuthorizationCause)

structure ImageRecord where
  reference : String
  digest : String
  manifestMediaType : String
  manifestJson : String
  createdAtUnix : UInt64
deriving DecidableEq

structure Row where
  reference : String
  digest : String
  manifestMediaType : String
  manifestJson : String
  createdAtUnix : Int64
deriving DecidableEq

def ImageRecord.row (record : ImageRecord) : Row :=
  ⟨record.reference, record.digest, record.manifestMediaType, record.manifestJson,
    record.createdAtUnix.toInt64⟩

def imageRecordFromRow (row : Row) : ImageRecord :=
  ⟨row.reference, row.digest, row.manifestMediaType, row.manifestJson,
    (if row.createdAtUnix < 0 then 0 else row.createdAtUnix).toUInt64⟩

structure Tables where
  imageReferences : OrdMap String Row
  imageDigests : OrdMap String Row

inductive ImageStoreError where
  | openFailed | lock
  | authorization (cause : AuthorizationCause)
  | ambiguousIdPrefix (idPrefix : String)
  | deleteConflict (digest : String)
  | deleteNotFound (digest : String)
  | deleteInventoryChanged
deriving DecidableEq

structure ImageDeletePlan where
  digest : String
  references : List String
deriving DecidableEq

def like : List Char → List Char → Bool
  | [], text => text.isEmpty
  | '%' :: pattern, [] => like pattern []
  | '%' :: pattern, c :: text => like pattern (c :: text) || like ('%' :: pattern) text
  | _ :: _, [] => false
  | p :: pattern, c :: text => (p = '_' || p.toLower = c.toLower) && like pattern text
termination_by pattern text => pattern.length + text.length

def behindLastAt (reference : List Char) : Option (List Char) :=
  if '@' ∈ reference then some (reference.reverse.takeWhile (· ≠ '@')).reverse else none

namespace Tables

def empty : Tables := ⟨.empty, .empty⟩

def put (t : Tables) (record : ImageRecord) : Tables where
  imageReferences := t.imageReferences.insert record.reference record.row
  imageDigests := t.imageDigests.insert record.digest record.row

def removeReferenceIfDigest (t : Tables) (reference digest : String) : Bool × Tables :=
  match t.imageReferences.get reference with
  | none => (false, t)
  | some row =>
    if row.digest = digest then
      (true, { t with imageReferences := t.imageReferences.erase reference })
    else (false, t)

def referencesOf (t : Tables) (digest : String) : List String :=
  (t.imageReferences.entries.filter fun entry => entry.2.digest = digest).map (·.1)

def deleteDigest (t : Tables) (plan : ImageDeletePlan) : Except ImageStoreError (Bool × Tables) :=
  let current := t.referencesOf plan.digest
  if current ≠ plan.references then .error .deleteInventoryChanged
  else .ok (decide (0 < current.length) || t.imageDigests.contains plan.digest,
    { imageReferences := t.imageReferences.retain fun _ row => row.digest ≠ plan.digest
      imageDigests := t.imageDigests.erase plan.digest })

def pruneOne (x : Nat × Tables) (reference : String) : Nat × Tables :=
  if x.2.imageReferences.contains reference then
    (x.1 + 1, { x.2 with imageReferences := x.2.imageReferences.erase reference })
  else x

def prune (t : Tables) (selected : List String) : Nat × Tables := selected.foldl pruneOne (0, t)

def listReferences (t : Tables) : List ImageRecord :=
  t.imageReferences.entries.map fun entry => imageRecordFromRow entry.2

def resolveReference (t : Tables) (reference : String) : Option ImageRecord :=
  match t.imageReferences.get reference with
  | some row => some (imageRecordFromRow row)
  | none =>
    let requestedDigest :=
      if "sha256:".toList.isPrefixOf reference.toList then some reference
      else (behindLastAt reference.toList).map String.ofList
    match requestedDigest.bind t.imageDigests.get with
    | none => none
    | some row =>
      let record := imageRecordFromRow row
      some (if '@' ∈ reference.toList then { record with reference := reference } else record)

def resolveIdPrefix (t : Tables) (idPrefix : String) :
    Except ImageStoreError (Option ImageRecord) :=
  let pattern := "sha256:".toList ++ idPrefix.toList.map Char.toLower ++ ['%']
  match (t.imageDigests.entries.filter fun entry =>
      like pattern (entry.1.toList.map Char.toLower)).take 2 with
  | [] => .ok none
  | [entry] => .ok (some (imageRecordFromRow entry.2))
  | _ => .error (.ambiguousIdPrefix idPrefix)

def prepareDigestDelete (t : Tables) (digest : String) (force : Bool) :
    Except ImageStoreError ImageDeletePlan :=
  let references := t.referencesOf digest
  if references = [] then .error (.deleteNotFound digest)
  else if !force ∧ references.length ≠ 1 then .error (.deleteConflict digest)
  else .ok ⟨digest, references⟩

variable {t t' : Tables} {reference digest : String} {row : Row}

theorem mem_referencesOf :
    reference ∈ t.referencesOf digest ↔
      ∃ row, t.imageReferences.get reference = some row ∧ row.digest = digest := by
  simp only [referencesOf, List.mem_map, List.mem_filter, decide_eq_true_eq]
  constructor
  · intro h
    obtain ⟨entry, ⟨hmem, hdigest⟩, rfl⟩ := h
    exact ⟨entry.2, t.imageReferences.get_eq_some_iff.mpr hmem, hdigest⟩
  · intro h
    obtain ⟨row, hget, hdigest⟩ := h
    exact ⟨(reference, row), ⟨t.imageReferences.get_eq_some_iff.mp hget, hdigest⟩, rfl⟩

theorem get_removeReferenceIfDigest (t : Tables) (reference digest other : String) :
    (t.removeReferenceIfDigest reference digest).2.imageReferences.get other =
      if other = reference then (t.imageReferences.get other).filter (fun row => row.digest ≠ digest)
      else t.imageReferences.get other := by
  rw [removeReferenceIfDigest]
  by_cases heq : other = reference
  · subst heq
    rw [if_pos rfl]
    cases hget : t.imageReferences.get other with
    | none => simp [hget]
    | some row =>
      by_cases hdigest : row.digest = digest
      · simp [hdigest, Option.filter]
      · simp [hdigest, hget, Option.filter]
  · rw [if_neg heq]
    cases hget : t.imageReferences.get reference with
    | none => rfl
    | some row =>
      dsimp only
      split
      · exact OrdMap.get_erase .. |>.trans (if_neg heq)
      · rfl

theorem removeReferenceIfDigest_digests (t : Tables) (reference digest : String) :
    (t.removeReferenceIfDigest reference digest).2.imageDigests = t.imageDigests := by
  rw [removeReferenceIfDigest]
  split
  · rfl
  · split <;> rfl

theorem deleteDigest_ok {plan : ImageDeletePlan} {removed : Bool}
    (h : t.deleteDigest plan = .ok (removed, t')) :
    t.referencesOf plan.digest = plan.references ∧
    (∀ reference, t'.imageReferences.get reference =
      (t.imageReferences.get reference).filter fun row => row.digest ≠ plan.digest) ∧
    ∀ digest, t'.imageDigests.get digest =
      if digest = plan.digest then none else t.imageDigests.get digest := by
  rw [deleteDigest] at h
  obtain ⟨hplanned, h⟩ := Except.ite_error_eq_ok.mp h
  obtain ⟨-, rfl⟩ := Prod.mk.inj (Except.ok.inj h)
  exact ⟨not_not.mp hplanned, fun reference => OrdMap.get_retain .., fun digest =>
    OrdMap.get_erase ..⟩

theorem get_pruneOne (x : Nat × Tables) (s reference : String) :
    (pruneOne x s).2.imageReferences.get reference =
      if reference = s then none else x.2.imageReferences.get reference := by
  rw [pruneOne]
  by_cases hs : x.2.imageReferences.contains s
  · rw [if_pos hs]
    exact OrdMap.get_erase ..
  · rw [if_neg hs]
    have hnone : x.2.imageReferences.get s = none := by simpa [OrdMap.contains] using hs
    by_cases heq : reference = s
    · rw [if_pos heq, heq, hnone]
    · rw [if_neg heq]

theorem get_prune (t : Tables) (selected : List String) (reference : String) :
    (t.prune selected).2.imageReferences.get reference =
      if reference ∈ selected then none else t.imageReferences.get reference := by
  have hfold : ∀ x : Nat × Tables, (selected.foldl pruneOne x).2.imageReferences.get reference =
      if reference ∈ selected then none else x.2.imageReferences.get reference := by
    induction selected with
    | nil => exact fun x => rfl
    | cons s selected ih =>
      intro x
      rw [List.foldl_cons, ih, get_pruneOne]
      by_cases heq : reference = s <;> simp [heq]
  exact hfold (0, t)

theorem prune_digests (t : Tables) (selected : List String) :
    (t.prune selected).2.imageDigests = t.imageDigests := by
  have hfold : ∀ x : Nat × Tables, (selected.foldl pruneOne x).2.imageDigests = x.2.imageDigests := by
    induction selected with
    | nil => exact fun x => rfl
    | cons s selected ih =>
      intro x
      rw [List.foldl_cons, ih, pruneOne]
      split <;> rfl
  exact hfold (0, t)

end Tables
end Ferrocrate.Image
