import Mathlib.Data.List.Sort
import Ferrocrate.Witness.Journal.Represents

/-! The read-only reader over the mirror files of a journal (`witness/reader.rs`). An open file
is what is left of it to read. -/
namespace Ferrocrate.Witness
open Lib Journal

def headerBytes : Nat := 24
def maxMirrorBytes : Nat := 16 * 1024 * 1024 * 1024

structure WitnessReader where
  rest : Bytes
  pending : List Bytes
  journalId : Id
  lastSequence : UInt64
  lastHash : Digest
  failed : Bool

namespace WitnessReader

def openPart (expected : Id) (file : Bytes) : Except JournalError Bytes :=
  if file.length < headerBytes ∨ file.length > maxMirrorBytes then .error .corrupt
  else if file.take 8 ≠ WitnessJournal.readerMagic ∨ (file.drop 8).take 16 ≠ expected.val then
    .error .journalMismatch
  else .ok (file.drop headerBytes)

def parts (m : ReadMirror) : List Bytes :=
  (m.segments.insertionSort fun a b => a.1.1 ≤ b.1.1).map (·.2) ++ [m.active]

def openReadOnly (expected : Id) (m : ReadMirror) : Except JournalError WitnessReader :=
  if m.stale = true then .error .readerStale
  else do
    match ← (parts m).mapM (openPart expected) with
    | [] => .error .corrupt
    | rest :: pending => .ok ⟨rest, pending, expected, 0, .zero 32, false⟩

def skipParts : Bytes → List Bytes → Option (Bytes × List Bytes)
  | [], [] => none
  | [], part :: pending => skipParts part pending
  | byte :: rest, pending => some (byte :: rest, pending)

variable (sha256 : Hasher)

def nextRecord (r : WitnessReader) : Except JournalError (Option Bytes × WitnessReader) :=
  match skipParts r.rest r.pending with
  | none => .ok (none, { r with rest := [], pending := [] })
  | some (rest, pending) =>
    if rest.length < 12 then .error .corrupt
    else
      let sequence := UInt64.ofNat (ofBe (rest.take 8))
      let length := ofBe ((rest.drop 8).take 4)
      let body := rest.drop 12
      if sequence.toNat ≠ saturatingAdd r.lastSequence.toNat 1 ∨ length = 0
          ∨ length > maxRecordBytes ∨ length > body.length then .error .corrupt
      else
        match decodeRecord (body.take length) with
        | .error _ => .error .corrupt
        | .ok decoded =>
          if decoded.journalId ≠ r.journalId ∨ decoded.record.sequence ≠ sequence
              ∨ decoded.record.previousHash ≠ r.lastHash then .error .corrupt
          else .ok (some (body.take length), { r with
            rest := body.drop length
            pending := pending
            lastSequence := sequence
            lastHash := hashRecord sha256 decoded.bytes })

def readFrom : Nat → WitnessReader → Except JournalError (List Bytes × WitnessReader)
  | 0, _ => .error .corrupt
  | fuel + 1, r =>
    match nextRecord sha256 r with
    | .error e => .error e
    | .ok (none, r) => .ok ([], r)
    | .ok (some bytes, r) => (readFrom fuel r).map fun p => (bytes :: p.1, p.2)

def remaining (r : WitnessReader) : Nat := r.rest.length + (r.pending.map List.length).sum

def readAll (r : WitnessReader) : Except JournalError (List Bytes × WitnessReader) :=
  readFrom sha256 (r.remaining + 1) r

def finish (r : WitnessReader) : Except JournalError Unit :=
  if r.failed = true ∨ r.rest ≠ [] ∨ r.pending ≠ [] then .error .corrupt else .ok ()

def read (expected : Id) (m : ReadMirror) : Except JournalError (List Bytes) := do
  let r ← openReadOnly expected m
  let (out, r) ← readAll sha256 r
  r.finish
  .ok out

end WitnessReader

/-! Reading frames back. -/

def mirrorFile (journalId : Id) (rs : List WitnessRecord) : Bytes :=
  WitnessJournal.readerMagic ++ journalId.val ++ segmentBlob (keyed journalId rs)

theorem length_readerMagic : WitnessJournal.readerMagic.length = 8 := by decide +kernel

theorem length_mirrorFile (journalId : Id) (rs : List WitnessRecord) :
    (mirrorFile journalId rs).length
      = headerBytes + (segmentBlob (keyed journalId rs)).length := by
  simp only [mirrorFile, List.length_append, length_readerMagic, FixedBytes.length_val, headerBytes]

namespace WitnessReader
variable {sha256 : Hasher} {journalId : Id} {rs : List WitnessRecord}

theorem openPart_mirrorFile
    (h : (mirrorFile journalId rs).length ≤ maxMirrorBytes) :
    openPart journalId (mirrorFile journalId rs) = .ok (segmentBlob (keyed journalId rs)) := by
  have hlen := length_mirrorFile journalId rs
  have hmagic : (mirrorFile journalId rs).take 8 = WitnessJournal.readerMagic := by
    rw [mirrorFile, List.append_assoc, List.take_left' length_readerMagic]
  have hid : ((mirrorFile journalId rs).drop 8).take 16 = journalId.val := by
    rw [mirrorFile, List.append_assoc, List.drop_left' length_readerMagic,
      List.take_left' (FixedBytes.length_val _)]
  have hrest : (mirrorFile journalId rs).drop headerBytes = segmentBlob (keyed journalId rs) := by
    refine List.drop_left' ?_
    rw [List.length_append, length_readerMagic, FixedBytes.length_val]
    rfl
  rw [openPart, if_neg (by omega), hmagic, hid, if_neg (by simp), hrest]

structure Ahead (sha256 : Hasher) (r : WitnessReader) (rs : List WitnessRecord) : Prop where
  numbered : ∀ i x, rs[i]? = some x → x.sequence.toNat = r.lastSequence.toNat + i + 1
  linked : HashChain.Linked WitnessRecord.previousHash (recordHash sha256 r.journalId) r.lastHash rs
  valid : ∀ x ∈ rs, validRecord x = true

theorem skipParts_blobs (journalId : Id) (c : List WitnessRecord) (cs : List (List WitnessRecord)) :
    (c ++ cs.flatten = [] ∧ skipParts (segmentBlob (keyed journalId c))
        (cs.map fun c => segmentBlob (keyed journalId c)) = none) ∨
      ∃ (x : WitnessRecord) (c' : List WitnessRecord) (cs' : List (List WitnessRecord)),
        c ++ cs.flatten = x :: (c' ++ cs'.flatten) ∧
        skipParts (segmentBlob (keyed journalId c))
          (cs.map fun c => segmentBlob (keyed journalId c))
          = some (segmentBlob (keyed journalId (x :: c')),
              cs'.map fun c => segmentBlob (keyed journalId c)) := by
  induction cs generalizing c with
  | nil =>
    cases c with
    | nil => exact .inl ⟨rfl, rfl⟩
    | cons x c => exact .inr ⟨x, c, [], by simp, rfl⟩
  | cons d cs ih =>
    cases c with
    | nil =>
      rcases ih d with ⟨hnil, hskip⟩ | ⟨x, c', cs', hcons, hskip⟩
      · exact .inl ⟨by simpa using hnil, hskip⟩
      · exact .inr ⟨x, c', cs', by simpa using hcons, hskip⟩
    | cons x c => exact .inr ⟨x, c, d :: cs, by simp, rfl⟩

theorem blob_cons (x : WitnessRecord) (c : List WitnessRecord) :
    segmentBlob (keyed journalId (x :: c)) = u64Be x.sequence
      ++ (u32Be (recordLayout journalId x).length
        ++ (recordLayout journalId x ++ segmentBlob (keyed journalId c))) := by
  simp [segmentBlob, keyed]

variable {r : WitnessReader}

theorem nextRecord_eq {x : WitnessRecord} {c rs : List WitnessRecord}
    {pending : List Bytes} (hskip : skipParts r.rest r.pending
      = some (segmentBlob (keyed r.journalId (x :: c)), pending))
    (h : Ahead sha256 r (x :: rs)) :
    nextRecord sha256 r = .ok (some (recordLayout r.journalId x), { r with
      rest := segmentBlob (keyed r.journalId c)
      pending := pending
      lastSequence := x.sequence
      lastHash := recordHash sha256 r.journalId x }) := by
  have hle := length_recordLayout_le r.journalId x
  have hpos := length_recordLayout_pos r.journalId x
  have hseq := h.numbered 0 x rfl
  have hlt := UInt64.toNat_lt x.sequence
  have h8 : (segmentBlob (keyed r.journalId (x :: c))).take 8 = u64Be x.sequence := by
    rw [blob_cons, List.take_left' (length_u64Be _)]
  have hd8 : (segmentBlob (keyed r.journalId (x :: c))).drop 8
      = u32Be (recordLayout r.journalId x).length
        ++ (recordLayout r.journalId x ++ segmentBlob (keyed r.journalId c)) := by
    rw [blob_cons, List.drop_left' (length_u64Be _)]
  have hd12 : (segmentBlob (keyed r.journalId (x :: c))).drop 12
      = recordLayout r.journalId x ++ segmentBlob (keyed r.journalId c) := by
    rw [show 12 = 8 + 4 from rfl, ← List.drop_drop, hd8, List.drop_left' (length_u32Be _)]
  have hl : ¬ (segmentBlob (keyed r.journalId (x :: c))).length < 12 := by
    rw [blob_cons]
    simp only [List.length_append, length_u64Be, length_u32Be]
    omega
  have hdecode : decodeRecord (recordLayout r.journalId x) = _ :=
    decodeRecord_recordLayout (h.valid x List.mem_cons_self)
  have hlink : x.previousHash = r.lastHash := h.linked.1
  simp only [nextRecord, hskip]
  rw [if_neg hl, h8, ofBe_u64Be, hd8, List.take_left' (length_u32Be _), ofBe_u32Be (by omega), hd12,
    if_neg, List.take_left' rfl, List.drop_left' rfl, hdecode]
  · simp only
    rw [if_neg]
    · rfl
    · simp [decodedEntry, hlink]
  · simp only [saturatingAdd, maxRecordBytes, List.length_append]
    omega

theorem Ahead.next {x : WitnessRecord} {rest : Bytes}
    {pending : List Bytes} (h : Ahead sha256 r (x :: rs)) :
    Ahead sha256 { r with
      rest := rest
      pending := pending
      lastSequence := x.sequence
      lastHash := recordHash sha256 r.journalId x } rs where
  numbered := by
    intro i y hy
    have hx := h.numbered 0 x rfl
    have hnext := h.numbered (i + 1) y hy
    show y.sequence.toNat = x.sequence.toNat + i + 1
    omega
  linked := h.linked.2
  valid := fun y hy => h.valid y (List.mem_cons_of_mem _ hy)

theorem readFrom_eq (fuel : Nat) (c : List WitnessRecord)
    (cs : List (List WitnessRecord)) (hrest : r.rest = segmentBlob (keyed r.journalId c))
    (hpending : r.pending = cs.map fun c => segmentBlob (keyed r.journalId c))
    (h : Ahead sha256 r (c ++ cs.flatten)) (hfuel : (c ++ cs.flatten).length < fuel) :
    ∃ r', readFrom sha256 fuel r = .ok ((c ++ cs.flatten).map (recordLayout r.journalId), r') ∧
      r'.rest = [] ∧ r'.pending = [] ∧ r'.failed = r.failed := by
  induction fuel generalizing r c cs with
  | zero => exact absurd hfuel (Nat.not_lt_zero _)
  | succ fuel ih =>
    rcases skipParts_blobs r.journalId c cs with ⟨hnil, hskip⟩ | ⟨x, c', cs', hcons, hskip⟩
    · rw [← hrest, ← hpending] at hskip
      refine ⟨{ r with rest := [], pending := [] }, ?_, rfl, rfl, rfl⟩
      rw [readFrom, nextRecord, hskip, hnil]
      rfl
    · rw [← hrest, ← hpending] at hskip
      rw [hcons] at h hfuel ⊢
      obtain ⟨r', hread, hend⟩ := ih (r := { r with
        rest := segmentBlob (keyed r.journalId c')
        pending := cs'.map fun c => segmentBlob (keyed r.journalId c)
        lastSequence := x.sequence
        lastHash := recordHash sha256 r.journalId x }) c' cs' rfl rfl h.next (by simpa using hfuel)
      refine ⟨r', ?_, hend⟩
      rw [readFrom, nextRecord_eq hskip h]
      simp only [hread]
      rfl

theorem length_le_blob (journalId : Id) (c : List WitnessRecord) :
    c.length ≤ (segmentBlob (keyed journalId c)).length := by
  have hle := length_le_segmentBlob (keyed journalId c)
  rwa [keyed, List.length_map] at hle

theorem length_le_remaining (c : List WitnessRecord)
    (cs : List (List WitnessRecord)) (hrest : r.rest = segmentBlob (keyed journalId c))
    (hpending : r.pending = cs.map fun c => segmentBlob (keyed journalId c)) :
    (c ++ cs.flatten).length ≤ r.remaining := by
  have hfirst := length_le_blob journalId c
  have hothers : cs.flatten.length
      ≤ ((cs.map fun c => segmentBlob (keyed journalId c)).map List.length).sum := by
    clear hpending
    induction cs with
    | nil => simp
    | cons d cs ih =>
      have hd := length_le_blob journalId d
      simp only [List.flatten_cons, List.length_append, List.map_cons, List.sum_cons]
      omega
  rw [remaining, hrest, hpending, List.length_append]
  omega

theorem mapM_openPart (cs : List (List WitnessRecord))
    (h : ∀ c ∈ cs, (mirrorFile journalId c).length ≤ maxMirrorBytes) :
    (cs.map (mirrorFile journalId)).mapM (openPart journalId)
      = .ok (cs.map fun c => segmentBlob (keyed journalId c)) := by
  induction cs with
  | nil => rfl
  | cons c cs ih =>
    rw [List.map_cons, List.mapM_cons, openPart_mirrorFile (h c List.mem_cons_self),
      ih fun d hd => h d (List.mem_cons_of_mem _ hd)]
    rfl

theorem read_eq {m : ReadMirror} (c : List WitnessRecord) (cs : List (List WitnessRecord))
    (hstale : m.stale = false) (hparts : parts m = (c :: cs).map (mirrorFile journalId))
    (hsize : ∀ d ∈ c :: cs, (mirrorFile journalId d).length ≤ maxMirrorBytes)
    (h : Ahead sha256 ⟨[], [], journalId, 0, .zero 32, false⟩ (c ++ cs.flatten)) :
    read sha256 journalId m = .ok ((c ++ cs.flatten).map (recordLayout journalId)) := by
  have hopen : openReadOnly journalId m = .ok ⟨segmentBlob (keyed journalId c),
      cs.map fun c => segmentBlob (keyed journalId c), journalId, 0, .zero 32, false⟩ := by
    rw [openReadOnly, if_neg (by simp [hstale]), hparts, mapM_openPart _ hsize]
    rfl
  have hahead : Ahead sha256 ⟨segmentBlob (keyed journalId c),
      cs.map fun c => segmentBlob (keyed journalId c), journalId, 0, .zero 32, false⟩
      (c ++ cs.flatten) := ⟨h.numbered, h.linked, h.valid⟩
  have hfuel : (c ++ cs.flatten).length ≤ remaining ⟨segmentBlob (keyed journalId c),
      cs.map fun c => segmentBlob (keyed journalId c), journalId, 0, .zero 32, false⟩ :=
    length_le_remaining c cs rfl rfl
  obtain ⟨r', hread, hrest, hpending, hfailed⟩ := readFrom_eq _ c cs rfl rfl hahead
    (Nat.lt_succ_of_le hfuel)
  have hfinish : r'.finish = .ok () := by
    rw [finish, hrest, hpending, hfailed]
    rfl
  rw [read, hopen]
  simp only [bind, Except.bind, readAll, hread, hfinish]

end WitnessReader
end Ferrocrate.Witness
