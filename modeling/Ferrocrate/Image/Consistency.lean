import Ferrocrate.Image.Deletion

/-! The two tables of the image store against each other: every reference has a digest row, and
when a digest that still resolves can be deleted. -/
namespace Ferrocrate.Image
open Lib
open Authorization

namespace Tables

structure Referenced (t : Tables) : Prop where
  digests : ∀ reference row, t.imageReferences.get reference = some row →
    t.imageDigests.get row.digest ≠ none
  keyed : ∀ digest row, t.imageDigests.get digest = some row → row.digest = digest

def Deletable (t : Tables) : Prop :=
  ∀ record : ImageRecord,
    (∃ idPrefix, t.resolveIdPrefix idPrefix = .ok (some record)) ∨
      (∃ reference, t.resolveReference reference = some record) →
    t.prepareDigestDelete record.digest true ≠ .error (.deleteNotFound record.digest)

def Held (t : Tables) : Prop := ∀ digest, t.imageDigests.get digest ≠ none → t.referencesOf digest ≠ []

variable {t t' : Tables}

theorem referenced_empty : empty.Referenced :=
  ⟨fun _ _ h => (nomatch h), fun _ _ h => (nomatch h)⟩

theorem held_empty : empty.Held := fun _ h => absurd rfl h

theorem Referenced.put (h : t.Referenced) (record : ImageRecord) : (t.put record).Referenced where
  digests := by
    intro reference row hget
    show (t.imageDigests.insert record.digest record.row).get row.digest ≠ none
    rw [OrdMap.get_insert]
    by_cases hdigest : row.digest = record.digest
    · rw [if_pos hdigest]
      exact Option.some_ne_none _
    · rw [if_neg hdigest]
      rw [Tables.put, OrdMap.get_insert] at hget
      split at hget
      · exact absurd (congrArg Row.digest (Option.some.inj hget)).symm hdigest
      · exact h.digests reference row hget
  keyed := by
    intro digest row hget
    rw [Tables.put, OrdMap.get_insert] at hget
    split at hget
    next heq =>
      rw [heq, ← Option.some.inj hget]
      rfl
    next => exact h.keyed digest row hget

theorem Referenced.of_fewer (h : t.Referenced) (hdigests : t'.imageDigests = t.imageDigests)
    (hfewer : ∀ reference row, t'.imageReferences.get reference = some row →
      t.imageReferences.get reference = some row) : t'.Referenced where
  digests := fun reference row hget => hdigests ▸ h.digests reference row (hfewer reference row hget)
  keyed := hdigests ▸ h.keyed

theorem Referenced.deleteDigest {plan : ImageDeletePlan} {removed : Bool} (h : t.Referenced)
    (hdelete : t.deleteDigest plan = .ok (removed, t')) : t'.Referenced := by
  obtain ⟨-, hreferences, hdigests⟩ := deleteDigest_ok hdelete
  constructor
  · intro reference row hget
    rw [hreferences, Option.filter_eq_some_iff] at hget
    rw [hdigests, if_neg (by simpa using hget.2)]
    exact h.digests reference row hget.1
  · intro digest row hget
    rw [hdigests] at hget
    split at hget
    · cases hget
    · exact h.keyed digest row hget

theorem get_of_removeReferenceIfDigest {reference digest other : String} {row : Row}
    (h : (t.removeReferenceIfDigest reference digest).2.imageReferences.get other = some row) :
    t.imageReferences.get other = some row := by
  rw [get_removeReferenceIfDigest] at h
  split at h
  · exact (Option.filter_eq_some_iff.mp h).1
  · exact h

theorem get_of_prune {selected : List String} {reference : String} {row : Row}
    (h : (t.prune selected).2.imageReferences.get reference = some row) :
    t.imageReferences.get reference = some row := by
  rw [get_prune] at h
  split at h
  · cases h
  · exact h

theorem Referenced.effect (h : t.Referenced) {label : Moment} (heffect : label.Effect t t') :
    t'.Referenced := by
  cases label with
  | read => exact heffect ▸ h
  | finish permit outcome => exact heffect ▸ h
  | put record =>
    obtain rfl | rfl := heffect
    · exact h
    · exact h.put record
  | remove reference digest =>
    obtain rfl | rfl := heffect
    · exact h
    · exact h.of_fewer (removeReferenceIfDigest_digests ..) fun _ _ => get_of_removeReferenceIfDigest
  | deleteDigest plan =>
    obtain rfl | ⟨removed, hdelete⟩ := heffect
    · exact h
    · exact h.deleteDigest hdelete
  | prune selected =>
    obtain rfl | rfl := heffect
    · exact h
    · exact h.of_fewer (prune_digests ..) fun _ _ => get_of_prune

theorem digests_of_effect {label : Moment} (heffect : label.Effect t t') {digest : String}
    (hnone : t.imageDigests.get digest = none) (hsome : t'.imageDigests.get digest ≠ none) :
    ∃ record, label = .put record ∧ record.digest = digest := by
  have hne : t' ≠ t := by
    intro heq
    exact hsome (heq ▸ hnone)
  cases label with
  | read => exact absurd heffect hne
  | finish permit outcome => exact absurd heffect hne
  | put record =>
    refine ⟨record, rfl, ?_⟩
    rw [heffect.resolve_left hne, put, OrdMap.get_insert] at hsome
    by_contra hdigest
    rw [if_neg (Ne.symm hdigest)] at hsome
    exact hsome hnone
  | remove reference d =>
    rw [heffect.resolve_left hne, removeReferenceIfDigest_digests] at hsome
    exact absurd hnone hsome
  | deleteDigest plan =>
    obtain ⟨removed, hdelete⟩ := heffect.resolve_left hne
    rw [(deleteDigest_ok hdelete).2.2, hnone] at hsome
    exact absurd (ite_self none) hsome
  | prune selected =>
    rw [heffect.resolve_left hne, prune_digests] at hsome
    exact absurd hnone hsome

theorem digest_of_resolveIdPrefix (h : t.Referenced) {idPrefix : String} {record : ImageRecord}
    (hresolve : t.resolveIdPrefix idPrefix = .ok (some record)) :
    t.imageDigests.get record.digest ≠ none := by
  rw [resolveIdPrefix] at hresolve
  split at hresolve
  · cases hresolve
  next entry hrows =>
    have hmem : entry ∈ t.imageDigests.entries :=
      (List.mem_filter.mp (List.mem_of_mem_take (hrows ▸ List.mem_singleton_self entry))).1
    have hget := t.imageDigests.get_eq_some_iff.mpr hmem
    obtain rfl := Option.some.inj (Except.ok.inj hresolve)
    show t.imageDigests.get entry.2.digest ≠ none
    rw [h.keyed _ _ hget, hget]
    exact Option.some_ne_none _
  · cases hresolve

theorem digest_of_resolveReference (h : t.Referenced) {reference : String} {record : ImageRecord}
    (hresolve : t.resolveReference reference = some record) :
    t.imageDigests.get record.digest ≠ none := by
  rw [resolveReference] at hresolve
  split at hresolve
  next row hget =>
    obtain rfl := Option.some.inj hresolve
    exact h.digests reference row hget
  · dsimp only at hresolve
    split at hresolve
    · cases hresolve
    next row hrow =>
      obtain ⟨digest, -, hget⟩ := Option.bind_eq_some_iff.mp hrow
      have hdigest : record.digest = row.digest := by
        obtain rfl := Option.some.inj hresolve
        split <;> rfl
      rw [hdigest, h.keyed _ _ hget, hget]
      exact Option.some_ne_none _

theorem Held.deletable (hheld : t.Held) (h : t.Referenced) : t.Deletable := by
  intro record hresolve hnotFound
  have hdigest : t.imageDigests.get record.digest ≠ none := by
    obtain ⟨idPrefix, hresolve⟩ | ⟨reference, hresolve⟩ := hresolve
    · exact digest_of_resolveIdPrefix h hresolve
    · exact digest_of_resolveReference h hresolve
  rw [prepareDigestDelete] at hnotFound
  rw [if_neg (hheld _ hdigest)] at hnotFound
  split at hnotFound
  · cases hnotFound
  · cases hnotFound

/-- A digest keeps a reference that none of `gone` is. -/
def HasOther (t : Tables) (digest : String) (gone : List String) : Prop :=
  ∃ other ∈ t.referencesOf digest, other ∉ gone

instance (t : Tables) (digest : String) (gone : List String) : Decidable (t.HasOther digest gone) :=
  inferInstanceAs (Decidable (∃ other ∈ t.referencesOf digest, other ∉ gone))

end Tables

/-- What the moment takes away is not the last reference of a digest, unless the digest goes
with it. -/
def Moment.KeepsLast (t : Tables) : Moment → Prop
  | .put record => (t.imageReferences.get record.reference).all (fun row =>
      row.digest = record.digest ∨ t.HasOther row.digest [record.reference]) = true
  | .remove reference digest => (t.imageReferences.get reference).all (fun row =>
      row.digest ≠ digest ∨ t.HasOther digest [reference]) = true
  | .prune selected => ∀ record ∈ selected, (t.imageReferences.get record.reference).all (fun row =>
      t.HasOther row.digest (selected.map (·.reference))) = true
  | .read | .deleteDigest _ | .finish _ _ => True

instance (t : Tables) : ∀ label : Moment, Decidable (label.KeepsLast t)
  | .put _ | .remove _ _ => inferInstanceAs (Decidable (_ = true))
  | .prune selected => inferInstanceAs (Decidable (∀ record ∈ selected, _ = true))
  | .read | .deleteDigest _ | .finish _ _ => .isTrue trivial

namespace Tables
variable {t t' : Tables}

theorem Held.of_kept (h : t.Held) {digest : String} (hdigest : t.imageDigests.get digest ≠ none)
    (hkept : ∀ reference row, t.imageReferences.get reference = some row → row.digest = digest →
      ∃ other row', t'.imageReferences.get other = some row' ∧ row'.digest = digest) :
    t'.referencesOf digest ≠ [] := by
  obtain ⟨reference, hmem⟩ := List.exists_mem_of_ne_nil _ (h digest hdigest)
  obtain ⟨row, hget, hrow⟩ := mem_referencesOf.mp hmem
  obtain ⟨other, row', hget', hrow'⟩ := hkept reference row hget hrow
  exact List.ne_nil_of_mem (mem_referencesOf.mpr ⟨row', hget', hrow'⟩)

theorem Held.put (h : t.Held) {record : ImageRecord}
    (hkeeps : (Moment.put record).KeepsLast t) : (t.put record).Held := by
  intro digest hdigest
  rw [Tables.put, OrdMap.get_insert] at hdigest
  by_cases heq : digest = record.digest
  · refine List.ne_nil_of_mem (mem_referencesOf.mpr ⟨record.row, ?_, heq.symm⟩ :
      record.reference ∈ _)
    exact OrdMap.get_insert_self ..
  · rw [if_neg heq] at hdigest
    refine h.of_kept hdigest fun reference row hget hrow => ?_
    by_cases hreference : reference = record.reference
    · subst hreference
      have hother : row.digest = record.digest ∨ t.HasOther row.digest [record.reference] := by
        simpa [Moment.KeepsLast, hget] using hkeeps
      obtain ⟨other, hmem, hnot⟩ := hother.resolve_left (hrow ▸ heq)
      obtain ⟨row', hget', hrow'⟩ := mem_referencesOf.mp hmem
      refine ⟨other, row', ?_, hrow'.trans hrow⟩
      exact (OrdMap.get_insert ..).trans ((if_neg (by simpa using hnot)).trans hget')
    · exact ⟨reference, row, (OrdMap.get_insert ..).trans ((if_neg hreference).trans hget), hrow⟩

theorem Held.remove (h : t.Held) {reference digest : String}
    (hkeeps : (Moment.remove reference digest).KeepsLast t) :
    (t.removeReferenceIfDigest reference digest).2.Held := by
  intro d hd
  rw [removeReferenceIfDigest_digests] at hd
  refine h.of_kept hd fun r row hget hrow => ?_
  by_cases hgone : r = reference ∧ row.digest = digest
  · obtain ⟨rfl, hdigest⟩ := hgone
    have hother : row.digest ≠ digest ∨ t.HasOther digest [r] := by
      simpa [Moment.KeepsLast, hget] using hkeeps
    obtain ⟨other, hmem, hnot⟩ := hother.resolve_left (not_not.mpr hdigest)
    obtain ⟨row', hget', hrow'⟩ := mem_referencesOf.mp hmem
    refine ⟨other, row', ?_, hrow'.trans (hdigest.symm.trans hrow)⟩
    rw [get_removeReferenceIfDigest, if_neg (by simpa using hnot), hget']
  · refine ⟨r, row, ?_, hrow⟩
    rw [get_removeReferenceIfDigest, hget]
    by_cases hr : r = reference
    · rw [if_pos hr]
      exact Option.filter_eq_some_iff.mpr ⟨rfl, by simpa using fun hd => hgone ⟨hr, hd⟩⟩
    · rw [if_neg hr]

theorem Held.prune (h : t.Held) {selected : List ImageRecord}
    (hkeeps : (Moment.prune selected).KeepsLast t) :
    (t.prune (selected.map (·.reference))).2.Held := by
  intro d hd
  rw [prune_digests] at hd
  refine h.of_kept hd fun r row hget hrow => ?_
  by_cases hgone : r ∈ selected.map (·.reference)
  · obtain ⟨record, hrecord, rfl⟩ := List.mem_map.mp hgone
    have hother : t.HasOther row.digest (selected.map (·.reference)) := by
      have := hkeeps record hrecord
      rw [hget, Option.all_some] at this
      exact of_decide_eq_true this
    obtain ⟨other, hmem, hnot⟩ := hother
    obtain ⟨row', hget', hrow'⟩ := mem_referencesOf.mp hmem
    exact ⟨other, row', by rw [get_prune, if_neg hnot, hget'], hrow'.trans hrow⟩
  · exact ⟨r, row, by rw [get_prune, if_neg hgone, hget], hrow⟩

theorem Held.deleteDigest {plan : ImageDeletePlan} {removed : Bool} (h : t.Held)
    (hdelete : t.deleteDigest plan = .ok (removed, t')) : t'.Held := by
  obtain ⟨-, hreferences, hdigests⟩ := deleteDigest_ok hdelete
  intro d hd
  rw [hdigests] at hd
  split at hd
  · exact absurd rfl hd
  next hne =>
    refine h.of_kept hd fun r row hget hrow => ⟨r, row, ?_, hrow⟩
    rw [hreferences, hget]
    exact Option.filter_eq_some_iff.mpr ⟨rfl, by simpa [hrow] using hne⟩

theorem Held.effect (h : t.Held) {label : Moment} (heffect : label.Effect t t')
    (hkeeps : label.KeepsLast t) : t'.Held := by
  cases label with
  | read => exact heffect ▸ h
  | finish permit outcome => exact heffect ▸ h
  | put record =>
    obtain rfl | rfl := heffect
    · exact h
    · exact h.put hkeeps
  | remove reference digest =>
    obtain rfl | rfl := heffect
    · exact h
    · exact h.remove hkeeps
  | deleteDigest plan =>
    obtain rfl | ⟨removed, hdelete⟩ := heffect
    · exact h
    · exact h.deleteDigest hdelete
  | prune selected =>
    obtain rfl | rfl := heffect
    · exact h
    · exact h.prune hkeeps

end Tables

section Runs
variable (sha256 : Bytes → Witness.Digest)

def Clients.moment? (c : Clients) : Turn → Option Moment
  | .start _ => none
  | .step thread => c.threads[thread]?.bind fun thread => thread.2.label?

def DigestsStay (c : Clients) (turn : Turn) : Prop :=
  (∀ digest, c.tables.imageDigests.get digest = none →
    (c.next sha256 turn).tables.imageDigests.get digest ≠ none →
    ∃ record, c.moment? turn = some (.put record) ∧ record.digest = digest) ∧
  ∀ plan, c.moment? turn = some (.deleteDigest plan) → (c.next sha256 turn).tables ≠ c.tables →
    (c.next sha256 turn).tables.imageDigests.get plan.digest = none

def KeepsLast (c : Clients) (turn : Turn) : Prop :=
  match c.moment? turn with
  | none => True
  | some label => label.KeepsLast c.tables

instance (c : Clients) (turn : Turn) : Decidable (KeepsLast c turn) := by
  unfold KeepsLast
  split <;> infer_instance

variable {sha256} {c : Clients}

theorem Behaved.moment (h : Behaved sha256 c) (turn : Turn) :
    (c.next sha256 turn).tables = c.tables ∨
    ∃ label, c.moment? turn = some label ∧ label.Effect c.tables (c.next sha256 turn).tables := by
  obtain hsame | ⟨thread, call, p, label, rfl, hthread, hlabel, heffect, -⟩ := h.cases turn
  · exact .inl hsame
  · exact .inr ⟨label, by simp [Clients.moment?, hthread, hlabel], heffect⟩

theorem Behaved.digestsStay (h : Behaved sha256 c) (turn : Turn) : DigestsStay sha256 c turn := by
  obtain hsame | ⟨label, hlabel, heffect⟩ := h.moment turn
  · exact ⟨fun digest hnone hsome => absurd hnone (hsame ▸ hsome), fun _ _ hne => absurd hsame hne⟩
  · constructor
    · intro digest hnone hsome
      obtain ⟨record, rfl, hdigest⟩ := Tables.digests_of_effect heffect hnone hsome
      exact ⟨record, hlabel, hdigest⟩
    · intro plan hplan hne
      obtain rfl := Option.some.inj (hlabel.symm.trans hplan)
      obtain ⟨removed, hdelete⟩ := heffect.resolve_left hne
      rw [(Tables.deleteDigest_ok hdelete).2.2, if_pos rfl]

theorem Behaved.next_referenced (h : Behaved sha256 c) (hreferenced : c.tables.Referenced)
    (turn : Turn) : (c.next sha256 turn).tables.Referenced := by
  obtain hsame | ⟨label, -, heffect⟩ := h.moment turn
  · exact hsame ▸ hreferenced
  · exact hreferenced.effect heffect

/-- Every reference has a digest row and a deleted digest stays away until it is put, in every
run; and in a run in which only the deletion of a digest takes its last reference, whatever
resolves can be planned for deletion. -/
theorem image_store_consistent (sha256 : Bytes → Witness.Digest) (journal : Witness.WitnessJournal)
    (faults : List (Option ImageStoreError)) (turns : List Turn) :
    Runs.Throughout (Clients.next sha256) (fun c => c.tables.Referenced)
      (.initial ⟨.empty, journal, faults⟩) turns ∧
    Runs.Along (Clients.next sha256) (DigestsStay sha256)
      (.initial ⟨.empty, journal, faults⟩) turns ∧
    (Runs.Along (Clients.next sha256) KeepsLast (.initial ⟨.empty, journal, faults⟩) turns →
      Runs.Throughout (Clients.next sha256) (fun c => c.tables.Deletable)
        (.initial ⟨.empty, journal, faults⟩) turns) := by
  have hreferenced : ∀ c turn, Behaved sha256 c ∧ c.tables.Referenced →
      Behaved sha256 (c.next sha256 turn) ∧ (c.next sha256 turn).tables.Referenced := by
    exact fun c turn h => ⟨h.1.next turn, h.1.next_referenced h.2 turn⟩
  have hrun : Runs.Throughout (Clients.next sha256)
      (fun c => Behaved sha256 c ∧ c.tables.Referenced) (.initial ⟨.empty, journal, faults⟩) turns :=
    Runs.throughout_of_step hreferenced ⟨behaved_initial _, Tables.referenced_empty⟩
  refine ⟨hrun.mono fun _ h => h.2, ?_, fun hkeeps => ?_⟩
  · exact hrun.always fun _ turn h => h.1.digestsStay turn
  · have hheld : Runs.Throughout (Clients.next sha256)
        (fun c => (Behaved sha256 c ∧ c.tables.Referenced) ∧ c.tables.Held)
        (.initial ⟨.empty, journal, faults⟩) turns := by
      refine hkeeps.invariant (fun c turn hkeeps h => ⟨hreferenced c turn h.1, ?_⟩)
        ⟨⟨behaved_initial _, Tables.referenced_empty⟩, Tables.held_empty⟩
      obtain hsame | ⟨label, hlabel, heffect⟩ := h.1.1.moment turn
      · exact hsame ▸ h.2
      · rw [KeepsLast, hlabel] at hkeeps
        exact h.2.effect heffect hkeeps
    exact hheld.mono fun _ h => h.2.deletable h.1.2

end Runs

/-! The only reference of a digest is removed by itself, and its digest row stays behind. -/

def lastRemoved : List Turn :=
  [.start (.putReference (tagged "sha256:aa")), .step 0,
    .start (.removeReference "app:1" "sha256:aa" (deletePermit "app:1" "sha256:aa")), .step 1]

def emptyStore : ImageWorld := storeOf []

theorem last_reference_removed_undeletable :
    ¬ Runs.Throughout (Clients.next Sha256.sha256) (fun c => c.tables.Deletable)
      (.initial emptyStore) lastRemoved := by
  intro h
  have hlast : ((lastRemoved.foldl (Clients.next Sha256.sha256)
      (.initial emptyStore)).tables).Deletable := h.2.2.2.2
  refine hlast (tagged "sha256:aa") (.inl ⟨"aa", ?_⟩) ?_
  · decide +kernel
  · decide +kernel

/-- One of two references is removed, the digest is deleted with the other and put again. -/
theorem image_store_consistent_deleted :
    Runs.Throughout (Clients.next Sha256.sha256) (fun c => c.tables.Deletable)
      (.initial emptyStore)
      [.start (.putReference (tagged "sha256:aa")), .step 0,
        .start (.putReference { tagged "sha256:aa" with reference := "web:1" }), .step 1,
        .start (.removeReference "app:1" "sha256:aa" (deletePermit "app:1" "sha256:aa")), .step 2,
        .start (.executeDigestDelete ⟨"sha256:aa", ["web:1"]⟩
          [deletePermit "web:1" "sha256:aa"]), .step 3,
        .start (.putReference (tagged "sha256:aa")), .step 4] :=
  (image_store_consistent Sha256.sha256 _ [] _).2.2 (by decide +kernel)

end Ferrocrate.Image
