import Ferrocrate.Witness.WitnessReader
import Ferrocrate.Lib.Loops
import Ferrocrate.Lib.Sha256

/-! What a read-only reader yields from files that anyone may have written (`witness/reader.rs`),
also when its caller goes on after an error. -/
namespace Ferrocrate.Witness
open Lib Journal

namespace WitnessReader

def maxDescriptors : Nat := 2 ^ 31

def openFiles (expected : Id) (m : ReadMirror) : Except JournalError WitnessReader :=
  if (parts m).length > maxDescriptors then .error .io else openReadOnly expected m

section Calls
variable (sha256 : Hasher)

def nextRecordInPlace (r : WitnessReader) : Except JournalError (Option Bytes) × WitnessReader :=
  match skipParts r.rest r.pending with
  | none => (.ok none, { r with rest := [], pending := [] })
  | some (rest, pending) =>
    if rest.length < 12 then (.error .corrupt, { r with rest := rest, pending := pending })
    else
      let sequence := UInt64.ofNat (ofBe (rest.take 8))
      let length := ofBe ((rest.drop 8).take 4)
      let body := rest.drop 12
      if sequence.toNat ≠ saturatingAdd r.lastSequence.toNat 1 ∨ length = 0
          ∨ length > maxRecordBytes ∨ length > body.length then
        (.error .corrupt, { r with rest := body, pending := pending })
      else
        let after := { r with rest := body.drop length, pending := pending }
        match decodeRecord (body.take length) with
        | .error _ => (.error .corrupt, after)
        | .ok decoded =>
          if decoded.journalId ≠ r.journalId ∨ decoded.record.sequence ≠ sequence
              ∨ decoded.record.previousHash ≠ r.lastHash then (.error .corrupt, after)
          else (.ok (some (body.take length)), { after with
            lastSequence := sequence
            lastHash := hashRecord sha256 decoded.bytes })

def calls : Nat → WitnessReader → List (Except JournalError (Option Bytes)) × WitnessReader
  | 0, r => ([], r)
  | count + 1, r =>
    let first := nextRecordInPlace sha256 r
    let rest := calls count first.2
    (first.1 :: rest.1, rest.2)

end Calls

def yielded (results : List (Except JournalError (Option Bytes))) : List Bytes :=
  results.filterMap fun result =>
    match result with
    | .ok record => record
    | .error _ => none

def left (r : WitnessReader) : Bytes := r.rest ++ r.pending.flatten

def frame (d : DecodedRecord) : Bytes :=
  u64Be d.record.sequence ++ (u32Be d.bytes.bytes.length ++ d.bytes.bytes)

inductive Step (sha256 : Hasher) (r : WitnessReader) :
    Except JournalError (Option Bytes) → WitnessReader → Prop
  | stop (atEnd : r.left = []) : Step sha256 r (.ok none) { r with rest := [], pending := [] }
  | fail {rest : Bytes} {pending : List Bytes} (shorter : (rest ++ pending.flatten) <:+ r.left) :
      Step sha256 r (.error .corrupt) { r with rest := rest, pending := pending }
  | record {bytes rest : Bytes} {pending : List Bytes} {d : DecodedRecord}
      (decoded : decodeRecord bytes = .ok d) (journal : d.journalId = r.journalId)
      (next : d.record.sequence.toNat = saturatingAdd r.lastSequence.toNat 1)
      (linked : d.record.previousHash = r.lastHash)
      (consumed : r.left = frame d ++ (rest ++ pending.flatten)) :
      Step sha256 r (.ok (some bytes)) { r with
        rest := rest
        pending := pending
        lastSequence := d.record.sequence
        lastHash := hashRecord sha256 d.bytes }

variable {pending : List Bytes} {rest : Bytes}

theorem skipParts_none (h : skipParts rest pending = none) :
    rest ++ pending.flatten = [] := by
  induction pending generalizing rest with
  | nil =>
    cases rest with
    | nil => rfl
    | cons byte rest => cases h
  | cons part pending ih =>
    cases rest with
    | nil => exact ih h
    | cons byte rest => cases h

theorem skipParts_some {rest rest' : Bytes} {pending pending' : List Bytes}
    (h : skipParts rest pending = some (rest', pending')) :
    rest ++ pending.flatten = rest' ++ pending'.flatten := by
  induction pending generalizing rest with
  | nil =>
    cases rest with
    | nil => cases h
    | cons byte rest => cases h; rfl
  | cons part pending ih =>
    cases rest with
    | nil => exact ih h
    | cons byte rest => cases h; rfl

theorem suffix_skip {r : WitnessReader}
    (h : skipParts r.rest r.pending = some (rest, pending)) (count : Nat) :
    rest.drop count ++ pending.flatten <:+ r.left := by
  rw [left, skipParts_some h]
  exact ⟨rest.take count, by rw [← List.append_assoc, List.take_append_drop]⟩

theorem frame_taken {d : DecodedRecord} (hheader : 12 ≤ rest.length)
    (hlength : ofBe ((rest.drop 8).take 4) ≤ (rest.drop 12).length)
    (hnumber : d.record.sequence = UInt64.ofNat (ofBe (rest.take 8)))
    (hbytes : d.bytes.bytes = (rest.drop 12).take (ofBe ((rest.drop 8).take 4))) :
    rest = frame d ++ (rest.drop 12).drop (ofBe ((rest.drop 8).take 4)) := by
  have height : (rest.take 8).length = 8 := by
    rw [List.length_take]
    omega
  have hfour : ((rest.drop 8).take 4).length = 4 := by
    rw [List.length_take, List.length_drop]
    omega
  have hcount := toBe_ofBe ((rest.drop 8).take 4)
  rw [hfour] at hcount
  have htaken : d.bytes.bytes.length = ofBe ((rest.drop 8).take 4) := by
    rw [hbytes, List.length_take, Nat.min_eq_left hlength]
  have hframe : frame d = rest.take 8 ++ ((rest.drop 8).take 4
      ++ (rest.drop 12).take (ofBe ((rest.drop 8).take 4))) := by
    rw [frame, hnumber, u64Be_ofBe height, htaken, u32Be, hcount, hbytes]
  have hdrop : rest.drop 12 = (rest.drop 8).drop 4 := by rw [List.drop_drop]
  rw [hframe, List.append_assoc, List.append_assoc, List.take_append_drop, hdrop,
    List.take_append_drop, List.take_append_drop]

theorem nextRecordInPlace_step (sha256 : Hasher) (r : WitnessReader) :
    Step sha256 r (nextRecordInPlace sha256 r).1 (nextRecordInPlace sha256 r).2 := by
  unfold nextRecordInPlace
  cases hskip : skipParts r.rest r.pending with
  | none => exact .stop (skipParts_none hskip)
  | some parts =>
    obtain ⟨rest, pending⟩ := parts
    have hsuffix := suffix_skip hskip
    simp only
    by_cases hshort : rest.length < 12
    · rw [if_pos hshort]
      exact .fail (by simpa using hsuffix 0)
    · rw [if_neg hshort]
      by_cases hheader : (UInt64.ofNat (ofBe (rest.take 8))).toNat
            ≠ saturatingAdd r.lastSequence.toNat 1 ∨ ofBe ((rest.drop 8).take 4) = 0
          ∨ ofBe ((rest.drop 8).take 4) > maxRecordBytes
          ∨ ofBe ((rest.drop 8).take 4) > (rest.drop 12).length
      · rw [if_pos hheader]
        exact .fail (hsuffix 12)
      · rw [if_neg hheader]
        simp only [not_or, not_not, gt_iff_lt, not_lt] at hheader
        obtain ⟨hsequence, -, -, hlength⟩ := hheader
        have hbody : (rest.drop 12).drop (ofBe ((rest.drop 8).take 4)) ++ pending.flatten
            <:+ r.left := by
          rw [List.drop_drop]
          exact hsuffix _
        cases hdecode : decodeRecord ((rest.drop 12).take (ofBe ((rest.drop 8).take 4))) with
        | error e => exact .fail hbody
        | ok d =>
          simp only
          split
          · exact .fail hbody
          next hchecks =>
            simp only [ne_eq, not_or, not_not] at hchecks
            obtain ⟨hjournal, hnumber, hlink⟩ := hchecks
            have hbytes : d.bytes.bytes = (rest.drop 12).take (ofBe ((rest.drop 8).take 4)) := by
              rw [(decodeRecord_spec hdecode).2]
            have hframe := frame_taken (not_lt.mp hshort) hlength hnumber hbytes
            rw [← hnumber] at hsequence ⊢
            refine .record hdecode hjournal hsequence hlink ?_
            rw [left, skipParts_some hskip, ← List.append_assoc, ← hframe]

def readBound : Nat := maxDescriptors * maxMirrorBytes

structure Reading (sha256 : Hasher) (expected : Id) (ds : List DecodedRecord)
    (r : WitnessReader) : Prop where
  ours : r.journalId = expected
  journal : ∀ d ∈ ds, d.journalId = expected
  numbered : ∀ i d, ds[i]? = some d → d.record.sequence.toNat = i + 1
  linked : HashChain.Linked (fun d : DecodedRecord => d.record.previousHash)
    (fun d => hashRecord sha256 d.bytes) (.zero 32) ds
  sequence : r.lastSequence.toNat = ds.length
  hash : r.lastHash = HashChain.tip (fun d => hashRecord sha256 d.bytes) (.zero 32) ds
  bounded : 12 * ds.length + r.left.length ≤ readBound

variable {sha256 : Hasher} {expected : Id} {ds : List DecodedRecord} {r r' : WitnessReader}

theorem length_frame (d : DecodedRecord) : (frame d).length = 12 + d.bytes.bytes.length := by
  simp only [frame, List.length_append, length_u64Be, length_u32Be]
  omega

theorem Reading.record (h : Reading sha256 expected ds r) {d : DecodedRecord} {rest : Bytes}
    {pending : List Bytes} (journal : d.journalId = r.journalId)
    (next : d.record.sequence.toNat = saturatingAdd r.lastSequence.toNat 1)
    (linked : d.record.previousHash = r.lastHash)
    (consumed : r.left = frame d ++ (rest ++ pending.flatten)) :
    Reading sha256 expected (ds ++ [d]) { r with
      rest := rest
      pending := pending
      lastSequence := d.record.sequence
      lastHash := hashRecord sha256 d.bytes } := by
  have hbound := h.bounded
  have hnext : d.record.sequence.toNat = ds.length + 1 := by
    simp only [readBound, maxDescriptors, maxMirrorBytes] at hbound
    rw [next, h.sequence, saturatingAdd]
    omega
  exact {
    ours := h.ours
    journal := by
      intro x hx
      cases List.mem_append.mp hx with
      | inl hx => exact h.journal x hx
      | inr hx => rw [List.mem_singleton.mp hx, journal, h.ours]
    numbered := by
      intro i x hx
      by_cases hi : i < ds.length
      · rw [List.getElem?_append_left hi] at hx
        exact h.numbered i x hx
      · rw [List.getElem?_append_right (not_lt.mp hi)] at hx
        have hzero : i - ds.length = 0 := by
          by_contra hne
          rw [List.getElem?_eq_none (by simp; omega)] at hx
          cases hx
        rw [hzero] at hx
        cases hx
        rw [hnext]
        omega
    linked := h.linked.append_singleton _ _ (linked.trans h.hash)
    sequence := by
      rw [hnext, List.length_append]
      rfl
    hash := by rw [HashChain.tip_append_singleton]
    bounded := by
      rw [consumed, List.length_append, length_frame] at hbound
      show 12 * (ds ++ [d]).length + (rest ++ pending.flatten).length ≤ readBound
      simp only [List.length_append, List.length_singleton] at hbound ⊢
      omega }

theorem Reading.moved (h : Reading sha256 expected ds r)
    (hle : (rest ++ pending.flatten).length ≤ r.left.length) :
    Reading sha256 expected ds { r with rest := rest, pending := pending } := by
  have hbound := h.bounded
  have hmoved : 12 * ds.length + (rest ++ pending.flatten).length ≤ readBound := by omega
  exact ⟨h.ours, h.journal, h.numbered, h.linked, h.sequence, h.hash, hmoved⟩

theorem calls_reading (count : Nat) (h : Reading sha256 expected ds r) :
    ∃ new, (yielded (calls sha256 count r).1).mapM decodeRecord = .ok new ∧
      Reading sha256 expected (ds ++ new) (calls sha256 count r).2 ∧
      ((∀ result ∈ (calls sha256 count r).1, ∃ record, result = .ok record) →
        r.left = new.flatMap frame ++ (calls sha256 count r).2.left) := by
  induction count generalizing ds r with
  | zero =>
    refine ⟨[], rfl, ?_, fun _ => rfl⟩
    rw [List.append_nil]
    exact h
  | succ count ih =>
    have hstep := nextRecordInPlace_step sha256 r
    simp only [calls]
    generalize nextRecordInPlace sha256 r = first at hstep
    obtain ⟨result, r'⟩ := first
    cases hstep with
    | stop atEnd =>
      have hempty : Reading sha256 expected ds { r with rest := [], pending := [] } :=
        h.moved (by simp)
      obtain ⟨new, hnew, hreading, hleft⟩ := ih hempty
      refine ⟨new, hnew, hreading, fun hclean => ?_⟩
      rw [atEnd, ← hleft fun result hresult => hclean result (List.mem_cons_of_mem _ hresult)]
      rfl
    | fail shorter =>
      obtain ⟨new, hnew, hreading, -⟩ := ih (h.moved shorter.length_le)
      refine ⟨new, hnew, hreading, fun hclean => ?_⟩
      obtain ⟨_, himpossible⟩ := hclean _ List.mem_cons_self
      cases himpossible
    | @record bytes rest pending d decoded journal next linked consumed =>
      obtain ⟨new, hnew, hreading, hleft⟩ := ih (h.record journal next linked consumed)
      refine ⟨d :: new, ?_, by simpa using hreading, fun hclean => ?_⟩
      · show (bytes :: yielded _).mapM decodeRecord = _
        rw [List.mapM_cons, decoded, hnew]
        rfl
      · rw [consumed, List.flatMap_cons, List.append_assoc,
          ← hleft fun result hresult => hclean result (List.mem_cons_of_mem _ hresult)]
        rfl

/-! Opening. -/

theorem openPart_ok {file opened : Bytes} (h : openPart expected file = .ok opened) :
    opened = file.drop headerBytes ∧ file.length ≤ maxMirrorBytes := by
  rw [openPart] at h
  split at h
  · cases h
  · split at h
    · cases h
    · next hlength _ =>
      cases h
      exact ⟨rfl, by omega⟩

theorem openParts_ok {files opened : List Bytes}
    (h : List.Forall₂ (fun file part => openPart expected file = .ok part) files opened) :
    opened.flatten = files.flatMap (·.drop headerBytes) ∧
      opened.flatten.length ≤ files.length * maxMirrorBytes := by
  induction h with
  | nil => exact ⟨rfl, by simp⟩
  | @cons file part files opened hfile _ ih =>
    obtain ⟨hpart, hle⟩ := openPart_ok hfile
    obtain ⟨hparts, hlength⟩ := ih
    refine ⟨by rw [List.flatten_cons, List.flatMap_cons, hpart, hparts], ?_⟩
    rw [List.flatten_cons, List.length_append, List.length_cons, hpart, List.length_drop,
      Nat.succ_mul]
    omega

theorem openFiles_ok {m : ReadMirror} (h : openFiles expected m = .ok r) :
    Reading sha256 expected [] r ∧ r.left = (parts m).flatMap (·.drop headerBytes) := by
  rw [openFiles] at h
  split at h
  · cases h
  · next hcount =>
    rw [openReadOnly] at h
    split at h
    · cases h
    · cases hparts : (parts m).mapM (openPart expected) with
      | error e => rw [hparts] at h; cases h
      | ok opened =>
        rw [hparts] at h
        obtain ⟨hleft, hlength⟩ := openParts_ok (Except.mapM_eq_ok hparts)
        cases opened with
        | nil => cases h
        | cons rest pending =>
          cases h
          have hbound : (rest ++ pending.flatten).length ≤ readBound :=
            hlength.trans (Nat.mul_le_mul_right _ (not_lt.mp hcount))
          refine ⟨⟨rfl, by simp, by simp, trivial, rfl, rfl, ?_⟩, hleft⟩
          simpa [left] using hbound

/-! Soundness. -/

theorem decoded_bytes {records : List Bytes} (h : records.mapM decodeRecord = .ok ds) :
    records = ds.map fun d => d.bytes.bytes := by
  have hall := Except.mapM_eq_ok h
  clear h
  induction hall with
  | nil => rfl
  | cons hdecode _ ih => rw [List.map_cons, ← ih, (decodeRecord_spec hdecode).2]

theorem finish_ok (h : r.finish = .ok ()) : r.left = [] := by
  rw [finish] at h
  split at h
  · cases h
  · next hend =>
    simp only [ne_eq, not_or, not_not] at hend
    rw [left, hend.2.1, hend.2.2]
    rfl

/-- **What a read-only reader yields**, whatever the files hold, and however often it is called
again, also behind an error: a hash chain of the expected journal, numbered from one and linked from
the zero hash. Without an error, and with `finish`, the frames of the chain are all there is behind
the headers of the files. -/
theorem reader_sound (sha256 : Hasher) (expected : Id) (m : ReadMirror) (r : WitnessReader)
    (h : openFiles expected m = .ok r) (count : Nat) :
    ∃ ds : List DecodedRecord,
      (yielded (calls sha256 count r).1).mapM decodeRecord = .ok ds ∧
      yielded (calls sha256 count r).1 = ds.map (fun d => d.bytes.bytes) ∧
      (∀ d ∈ ds, d.journalId = expected) ∧
      (∀ i d, ds[i]? = some d → d.record.sequence.toNat = i + 1) ∧
      HashChain.Linked (fun d : DecodedRecord => d.record.previousHash)
        (fun d => hashRecord sha256 d.bytes) (.zero 32) ds ∧
      ((∀ result ∈ (calls sha256 count r).1, ∃ record, result = .ok record) →
        (calls sha256 count r).2.finish = .ok () →
        (parts m).flatMap (·.drop headerBytes) = ds.flatMap frame) := by
  have hopened : Reading sha256 expected [] r ∧ _ := openFiles_ok h
  obtain ⟨ds, hdecoded, hchain, htaken⟩ := calls_reading count hopened.1
  have hconsumed (hclean : ∀ result ∈ (calls sha256 count r).1, ∃ record, result = .ok record)
      (hfinish : (calls sha256 count r).2.finish = .ok ()) :
      (parts m).flatMap (·.drop headerBytes) = ds.flatMap frame := by
    rw [← hopened.2, htaken hclean, finish_ok hfinish, List.append_nil]
  exact ⟨ds, hdecoded, decoded_bytes hdecoded, hchain.journal, hchain.numbered, hchain.linked,
    hconsumed⟩

/-- Two segments, and an active file with the beginning of a frame. -/
def requestMirror : ReadMirror where
  active := mirrorFile (.zero 16) [] ++ [0, 1]
  segments := [((2, 2), mirrorFile (.zero 16) []), ((1, 1), mirrorFile (.zero 16)
    [plainRecord (.fill 16 7) (.fill 16 1) .requestReceived])]
  stale := false
  sequence := 1

theorem openFiles_requestMirror : openFiles (.zero 16) requestMirror
    = .ok ⟨segmentBlob (keyed (.zero 16) [plainRecord (.fill 16 7) (.fill 16 1) .requestReceived]),
        [[], [0, 1]], .zero 16, 0, .zero 32, false⟩ := by
  have hlength : (mirrorFile (.zero 16) [plainRecord (.fill 16 7) (.fill 16 1)
      .requestReceived]).length ≤ maxMirrorBytes := by decide +kernel
  have hparts : parts requestMirror = [mirrorFile (.zero 16) [plainRecord (.fill 16 7) (.fill 16 1)
      .requestReceived], mirrorFile (.zero 16) [], requestMirror.active] := rfl
  have hrest : [mirrorFile (.zero 16) [], requestMirror.active].mapM (openPart (.zero 16))
      = .ok [[], [0, 1]] := by decide +kernel
  rw [openFiles, hparts, if_neg (by decide), openReadOnly, if_neg (by decide), hparts,
    List.mapM_cons, openPart_mirrorFile hlength, hrest]
  rfl

theorem reader_sound_request :
    ∃ (r : WitnessReader) (ds : List DecodedRecord),
      openFiles (.zero 16) requestMirror = .ok r ∧
      (yielded (calls Sha256.sha256 2 r).1).mapM decodeRecord = .ok ds := by
  obtain ⟨ds, hdecoded, -⟩ :=
    reader_sound Sha256.sha256 (.zero 16) requestMirror _ openFiles_requestMirror 2
  exact ⟨_, ds, openFiles_requestMirror, hdecoded⟩

end WitnessReader
end Ferrocrate.Witness
