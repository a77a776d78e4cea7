import Ferrocrate.Authorization.Surface
import Ferrocrate.Image.Reference
import Ferrocrate.Lib.Codec
import Ferrocrate.Lib.Loops

/-! The image container (`rvf_image.rs`): its writer, its reader, which fills a payload in chunks,
and how an image is built from the layer of a build and read back from disk. -/
namespace Ferrocrate.Image
open Lib

structure RvfSegment where
  segType : UInt8
  payload : Bytes
deriving DecidableEq

inductive RvfError where
  | io | invalidMagic | manifestMissing | layerMissing | aggregatePayload | allocation
  | serialization
  | unsupportedVersion (version : UInt8)
  | layerSizeMismatch (expected actual : UInt64)
  | layerDigestMismatch (expected actual : String)
  | duplicateSegment (segType : UInt8)
  | payloadTooLarge (length : Nat)
  | segmentCount (count : Nat)
deriving DecidableEq

/-- How a reader stops short: with an error of its own, at a subtraction that underflows, or at a
write past what a vector has reserved. -/
inductive RvfStop where
  | error (e : RvfError)
  | underflow
  | overrun
deriving DecidableEq

def rvfMagic : Bytes := [0x52, 0x56, 0x46, 0x31]

def rvfFormatVersion : UInt8 := 1

def maxSegmentPayload : Nat := 512 * 1024 * 1024

def maxSegmentCount : Nat := 256

def maxTotalPayload : Nat := 1024 * 1024 * 1024

def bufferLength : Nat := 64 * 1024

def toLe (k n : Nat) : Bytes := (toBe k n).reverse

def ofLe (bs : Bytes) : Nat := ofBe bs.reverse

@[simp] theorem length_toLe (k n : Nat) : (toLe k n).length = k := by simp [toLe]

theorem ofLe_toLe {k n : Nat} (h : n < 256 ^ k) : ofLe (toLe k n) = n := by
  rw [ofLe, toLe, List.reverse_reverse, ofBe_toBe, Nat.mod_eq_of_lt h]

theorem toLe_ofLe (bs : Bytes) : toLe bs.length (ofLe bs) = bs := by
  rw [toLe, ofLe, ← List.length_reverse, toBe_ofBe, List.reverse_reverse]

/-- What the allocator makes of a request: the capacity of a byte vector after
`try_reserve_exact`, and whether a table of so many entries is reserved. -/
structure Allocator where
  reserveExact (capacity length additional : Nat) : Option Nat
  reserveTable (entries : Nat) : Bool
  reserveExact_le {capacity length additional new : Nat} :
    reserveExact capacity length additional = some new →
      capacity ≤ new ∧ length + additional ≤ new

structure Allocator.Grants (mem : Allocator) : Prop where
  vec : ∀ capacity length additional, length + additional ≤ maxSegmentPayload →
    mem.reserveExact capacity length additional ≠ none
  table : ∀ entries ≤ maxSegmentCount, mem.reserveTable entries = true

structure ByteVec where
  bytes : Bytes
  capacity : Nat
  fits : bytes.length ≤ capacity

def ByteVec.new : ByteVec := ⟨[], 0, le_rfl⟩

def ByteVec.tryReserveExact (mem : Allocator) (vec : ByteVec) (additional : Nat) :
    Except RvfStop ByteVec :=
  match h : mem.reserveExact vec.capacity vec.bytes.length additional with
  | none => .error (.error .allocation)
  | some capacity => .ok ⟨vec.bytes, capacity, vec.fits.trans (mem.reserveExact_le h).1⟩

def ByteVec.extend (vec : ByteVec) (chunk : Bytes) : Except RvfStop ByteVec :=
  if h : (vec.bytes ++ chunk).length ≤ vec.capacity then .ok ⟨vec.bytes ++ chunk, vec.capacity, h⟩
  else .error .overrun

def minus (x y : Nat) : Except RvfStop Nat := if y ≤ x then .ok (x - y) else .error .underflow

def saturatingMul (x y : Nat) : Nat := min (x * y) (2 ^ 64 - 1)

def addPayload (limit total length : Nat) : Except RvfError Nat :=
  if total + length < 2 ^ 64 ∧ total + length ≤ limit then .ok (total + length)
  else .error .aggregatePayload

def RvfSegment.encode (segment : RvfSegment) : Bytes :=
  segment.segType :: (toLe 8 segment.payload.length ++ segment.payload)

def rvfHeader (count : Nat) : Bytes := rvfMagic ++ rvfFormatVersion :: toLe 4 count

def encodeRvf (segments : List RvfSegment) : Bytes :=
  rvfHeader segments.length ++ segments.flatMap RvfSegment.encode

def checkSegments (total : Nat) (seen : List UInt8) : List RvfSegment → Except RvfError Unit
  | [] => .ok ()
  | segment :: rest => do
    let total ← addPayload maxTotalPayload total segment.payload.length
    if segment.payload.length > maxSegmentPayload then
      .error (.payloadTooLarge segment.payload.length)
    else if segment.segType ∈ seen then .error (.duplicateSegment segment.segType)
    else checkSegments total (segment.segType :: seen) rest

def writeRvf (mem : Allocator) (segments : List RvfSegment) : Except RvfError Bytes :=
  if segments.length > maxSegmentCount then .error (.segmentCount segments.length)
  else if mem.reserveTable segments.length = false then .error .allocation
  else do
    checkSegments 0 [] segments
    return encodeRvf segments

abbrev readExact (n : Nat) : Reader RvfStop Bytes := Reader.take (.error .io) n

def ByteVec.makeRoom (mem : Allocator) (length amount : Nat) (payload : ByteVec) :
    Except RvfStop ByteVec := do
  let free ← minus payload.capacity payload.bytes.length
  if free < amount then
    let capacity := min (saturatingMul (max payload.capacity bufferLength) 2) length
    let additional ← minus capacity payload.bytes.length
    payload.tryReserveExact mem additional
  else .ok payload

def readChunk (mem : Allocator) (length : Nat) (payload : ByteVec) : Reader RvfStop ByteVec :=
  fun input => do
    let missing ← minus length payload.bytes.length
    let amount := min missing bufferLength
    let (chunk, rest) ← readExact amount input
    let payload ← payload.makeRoom mem length amount
    let payload ← payload.extend chunk
    return (payload, rest)

theorem tryReserveExact_cases (mem : Allocator) (vec : ByteVec) (additional : Nat) :
    mem.reserveExact vec.capacity vec.bytes.length additional = none ∧
        vec.tryReserveExact mem additional = .error (.error .allocation) ∨
      ∃ grown, vec.tryReserveExact mem additional = .ok grown ∧ grown.bytes = vec.bytes ∧
        vec.bytes.length + additional ≤ grown.capacity := by
  unfold ByteVec.tryReserveExact
  split
  · next hnone => exact .inl ⟨hnone, rfl⟩
  · next capacity hsome => exact .inr ⟨_, rfl, rfl, (mem.reserveExact_le hsome).2⟩

theorem makeRoom_cases {mem : Allocator} {length amount : Nat} {payload : ByteVec}
    (hl : length ≤ maxSegmentPayload) (hlt : payload.bytes.length ≤ length)
    (hamount : min (length - payload.bytes.length) bufferLength = amount) :
    ¬mem.Grants ∧ payload.makeRoom mem length amount = .error (.error .allocation) ∨
      ∃ grown, payload.makeRoom mem length amount = .ok grown ∧ grown.bytes = payload.bytes ∧
        payload.bytes.length + amount ≤ grown.capacity := by
  have hfits := payload.fits
  simp only [maxSegmentPayload] at hl
  unfold ByteVec.makeRoom
  simp only [minus, hfits, if_true, bind, Except.bind]
  split
  · -- the target is at least the room for the chunk, since either it is the whole payload or it is
    -- twice the capacity and the length of the buffer
    have htarget : payload.bytes.length + amount ≤
        min (saturatingMul (max payload.capacity bufferLength) 2) length := by
      simp only [saturatingMul, bufferLength] at hamount ⊢
      omega
    rw [if_pos (by omega)]
    simp only
    rcases tryReserveExact_cases mem payload
        (min (saturatingMul (max payload.capacity bufferLength) 2) length - payload.bytes.length)
      with ⟨hnone, hfail⟩ | ⟨grown, hgrown, hbytes, hroom⟩
    · exact .inl ⟨fun hgrants => hgrants.vec _ _ _ (by simp only [maxSegmentPayload]; omega) hnone,
        hfail⟩
    · exact .inr ⟨grown, hgrown, hbytes, by omega⟩
  · exact .inr ⟨payload, rfl, rfl, by omega⟩

theorem makeRoom_bytes {mem : Allocator} {length amount : Nat} {payload grown : ByteVec}
    (h : payload.makeRoom mem length amount = .ok grown) : grown.bytes = payload.bytes := by
  obtain ⟨free, -, h⟩ := Except.bind_eq_ok.mp h
  split at h
  · obtain ⟨additional, -, h⟩ := Except.bind_eq_ok.mp h
    rcases tryReserveExact_cases mem payload additional with ⟨-, hfail⟩ | ⟨_, hgrown, hbytes, -⟩
    · rw [hfail] at h
      cases h
    · rw [hgrown] at h
      cases h
      exact hbytes
  · cases h
    rfl

theorem readChunk_length {mem : Allocator} {length : Nat} {payload filled : ByteVec}
    {input rest : Bytes} (h : readChunk mem length payload input = .ok (filled, rest)) :
    filled.bytes.length =
      payload.bytes.length + min (length - payload.bytes.length) bufferLength := by
  obtain ⟨missing, hmissing, h⟩ := Except.bind_eq_ok.mp h
  obtain ⟨⟨chunk, left⟩, hchunk, h⟩ := Except.bind_eq_ok.mp h
  obtain ⟨grown, hgrown, h⟩ := Except.bind_eq_ok.mp h
  obtain ⟨extended, hextended, h⟩ := Except.bind_eq_ok.mp h
  cases h
  have hamount : chunk.length = min missing bufferLength := by
    simp only [readExact, Reader.take] at hchunk
    split at hchunk
    · next henough =>
      cases hchunk
      exact List.length_take_of_le henough
    · cases hchunk
  have hbytes : filled.bytes = grown.bytes ++ chunk := by
    unfold ByteVec.extend at hextended
    split at hextended
    · cases hextended
      rfl
    · cases hextended
  unfold minus at hmissing
  split at hmissing
  · cases hmissing
    rw [hbytes, List.length_append, makeRoom_bytes hgrown, hamount]
  · cases hmissing

theorem readChunk_cases (mem : Allocator) {length amount : Nat} {payload : ByteVec} (input : Bytes)
    (hl : length ≤ maxSegmentPayload) (hlt : payload.bytes.length ≤ length)
    (hamount : min (length - payload.bytes.length) bufferLength = amount) :
    (input.length < amount ∧ readChunk mem length payload input = .error (.error .io)) ∨
      (¬mem.Grants ∧ readChunk mem length payload input = .error (.error .allocation)) ∨
      ∃ filled, readChunk mem length payload input = .ok (filled, input.drop amount) ∧
        filled.bytes = payload.bytes ++ input.take amount ∧ amount ≤ input.length := by
  unfold readChunk
  rw [minus, if_pos hlt]
  simp only [readExact, Reader.take, bind, Except.bind, hamount]
  by_cases henough : amount ≤ input.length
  · rw [if_pos henough]
    refine .inr ?_
    rcases @makeRoom_cases mem _ _ _ hl hlt hamount with
      ⟨hrefuses, hfail⟩ | ⟨grown, hgrown, hbytes, hroom⟩
    · exact .inl ⟨hrefuses, by simp only [hfail]⟩
    · have hfits : (grown.bytes ++ input.take amount).length ≤ grown.capacity := by
        rw [hbytes, List.length_append, List.length_take]
        omega
      refine .inr ⟨⟨grown.bytes ++ input.take amount, grown.capacity, hfits⟩, ?_, ?_, henough⟩
      · simp only [hgrown, ByteVec.extend, dif_pos hfits]
        rfl
      · rw [← hbytes]
  · rw [if_neg henough]
    exact .inl ⟨by omega, rfl⟩

def readPayload (mem : Allocator) (length : Nat) (payload : ByteVec) : Reader RvfStop ByteVec :=
  fun input =>
    if payload.bytes.length < length then
      match _h : readChunk mem length payload input with
      | .error e => .error e
      | .ok (filled, rest) => readPayload mem length filled rest
    else .ok (payload, input)
termination_by length - payload.bytes.length
decreasing_by
  have hfilled := readChunk_length _h
  simp only [bufferLength] at hfilled
  omega

def readSegment (mem : Allocator) (limit total : Nat) : Reader RvfStop (RvfSegment × Nat) :=
  fun input => do
    let (segType, input) ← Reader.u8 (.error .io) input
    let (lengthBytes, input) ← readExact 8 input
    -- the conversion to `usize` never fails, with 64 bits on both sides
    let length := ofLe lengthBytes
    if length > maxSegmentPayload then .error (.error (.payloadTooLarge length))
    else do
      let total ← (addPayload limit total length).mapError .error
      let (payload, input) ← readPayload mem length .new input
      return ((⟨segType, payload.bytes⟩, total), input)

def readSegments (mem : Allocator) (limit : Nat) : Nat → Nat → Reader RvfStop (List RvfSegment)
  | 0, _ => fun input => .ok ([], input)
  | count + 1, total => fun input => do
    let ((segment, total), input) ← readSegment mem limit total input
    let (rest, input) ← readSegments mem limit count total input
    return (segment :: rest, input)

def readRvfBounded (mem : Allocator) (limit : Nat) : Reader RvfStop (List RvfSegment) :=
  fun input => do
    let (magic, input) ← readExact 4 input
    if magic ≠ rvfMagic then .error (.error .invalidMagic)
    else do
      let (version, input) ← Reader.u8 (.error .io) input
      if version ≠ rvfFormatVersion then .error (.error (.unsupportedVersion version))
      else do
        let (countBytes, input) ← readExact 4 input
        let count := ofLe countBytes
        if count > maxSegmentCount then .error (.error (.segmentCount count))
        else if mem.reserveTable count = false then .error (.error .allocation)
        else readSegments mem limit count 0 input

def readRvf (mem : Allocator) : Reader RvfStop (List RvfSegment) :=
  readRvfBounded mem maxTotalPayload

theorem readPayload_cases (mem : Allocator) {length : Nat} (hl : length ≤ maxSegmentPayload)
    (payload : ByteVec) (input : Bytes) (hle : payload.bytes.length ≤ length) :
    (input.length < length - payload.bytes.length ∧
        readPayload mem length payload input = .error (.error .io)) ∨
      (¬mem.Grants ∧ readPayload mem length payload input = .error (.error .allocation)) ∨
      ∃ filled, readPayload mem length payload input =
          .ok (filled, input.drop (length - payload.bytes.length)) ∧
        filled.bytes = payload.bytes ++ input.take (length - payload.bytes.length) ∧
        length - payload.bytes.length ≤ input.length := by
  -- by induction on what is missing: a round takes a chunk of it off the stream
  induction hmissing : length - payload.bytes.length using Nat.strong_induction_on
    generalizing payload input with
  | _ missing ih =>
    unfold readPayload
    by_cases hlt : payload.bytes.length < length
    · rw [if_pos hlt]
      have hround := readChunk_cases mem input hl hle rfl
      split
      · next e he =>
        rcases hround with ⟨hshort, hfail⟩ | ⟨hrefuses, hfail⟩ | ⟨filled, hok, -⟩
        · rw [hfail] at he
          cases he
          exact .inl ⟨by omega, rfl⟩
        · rw [hfail] at he
          cases he
          exact .inr (.inl ⟨hrefuses, rfl⟩)
        · rw [hok] at he
          cases he
      · next filled rest hok =>
        rcases hround with ⟨-, hfail⟩ | ⟨-, hfail⟩ | ⟨_, hread, hbytes, henough⟩
        · rw [hfail] at hok
          cases hok
        · rw [hfail] at hok
          cases hok
        · rw [hread] at hok
          cases hok
          generalize hamount : min (length - payload.bytes.length) bufferLength = amount at *
          have hpos : 0 < amount := by
            simp only [bufferLength] at hamount
            omega
          have hlength : filled.bytes.length = payload.bytes.length + amount := by
            rw [hbytes, List.length_append, List.length_take, min_eq_left henough]
          rcases ih (length - filled.bytes.length) (by omega) filled (input.drop amount) (by omega)
            rfl with ⟨hshort, hfail⟩ | ⟨hrefuses, hfail⟩ | ⟨last, hlast, hall, hrest⟩
          · rw [List.length_drop] at hshort
            exact .inl ⟨by omega, hfail⟩
          · exact .inr (.inl ⟨hrefuses, hfail⟩)
          · have hsum : missing = amount + (length - filled.bytes.length) := by omega
            rw [List.length_drop] at hrest
            refine .inr (.inr ⟨last, ?_, ?_, by omega⟩)
            · rw [hlast, List.drop_drop, ← hsum]
            · rw [hsum, List.take_add, ← List.append_assoc, ← hbytes, hall]
    · have hzero : missing = 0 := by omega
      subst hzero
      rw [if_neg hlt]
      exact .inr (.inr ⟨payload, rfl, by simp, by omega⟩)

/-- A result that is no fault, and satisfies `P` when it is a value. -/
def SoundResult {α : Type} (P : α → Prop) : Except RvfStop α → Prop
  | .ok a => P a
  | .error stop => ∃ e, stop = .error e

section Soundness
variable {α β : Type} {P : α → Prop} {Q : β → Prop}

theorem SoundResult.bind {x : Except RvfStop α} {f : α → Except RvfStop β} (h : SoundResult P x)
    (hf : ∀ a, P a → SoundResult Q (f a)) : SoundResult Q (x >>= f) := by
  cases x with
  | error stop => exact h
  | ok a => exact hf a h

theorem SoundResult.mono {P' : α → Prop} {x : Except RvfStop α} (h : SoundResult P x)
    (hP : ∀ a, P a → P' a) : SoundResult P' x := by
  cases x with
  | error stop => exact h
  | ok a => exact hP a h

theorem sound_error (e : RvfError) : SoundResult P (.error (.error e)) := ⟨e, rfl⟩

theorem readExact_sound (n : Nat) (input : Bytes) :
    SoundResult (fun r => input = r.1 ++ r.2 ∧ r.1.length = n) (readExact n input) := by
  simp only [readExact, Reader.take]
  split
  · next henough =>
    exact ⟨(List.take_append_drop n input).symm, List.length_take_of_le henough⟩
  · exact sound_error _

theorem u8_sound (input : Bytes) :
    SoundResult (fun r => input = r.1 :: r.2) (Reader.u8 (RvfStop.error .io) input) := by
  cases input with
  | nil => exact sound_error _
  | cons b rest => exact rfl

theorem addPayload_eq_ok {limit total length sum : Nat}
    (h : addPayload limit total length = .ok sum) : sum = total + length ∧ sum ≤ limit := by
  unfold addPayload at h
  split at h
  · next hfits =>
    cases h
    exact ⟨rfl, hfits.2⟩
  · cases h

variable {mem : Allocator}

theorem readPayload_sound {length : Nat} (hl : length ≤ maxSegmentPayload) (input : Bytes) :
    SoundResult (fun r => input = r.1.bytes ++ r.2 ∧ r.1.bytes.length = length)
      (readPayload mem length .new input) := by
  rcases readPayload_cases mem hl .new input (Nat.zero_le _) with
    ⟨-, hfail⟩ | ⟨-, hfail⟩ | ⟨filled, hok, hbytes, henough⟩
  · rw [hfail]
    exact sound_error _
  · rw [hfail]
    exact sound_error _
  · have hall : filled.bytes = input.take length := hbytes
    have henough : length ≤ input.length := henough
    rw [hok]
    refine ⟨?_, ?_⟩
    · rw [hall]
      exact (List.take_append_drop length input).symm
    · rw [hall, List.length_take_of_le henough]

theorem readSegment_sound (limit total : Nat) (input : Bytes) :
    SoundResult (fun r => input = r.1.1.encode ++ r.2 ∧
        r.1.2 = total + r.1.1.payload.length ∧ r.1.2 ≤ limit)
      (readSegment mem limit total input) := by
  refine (u8_sound input).bind ?_
  rintro ⟨segType, input⟩ rfl
  refine (readExact_sound 8 _).bind ?_
  rintro ⟨lengthBytes, input⟩ ⟨rfl, hlength⟩
  dsimp only
  split
  · exact sound_error _
  · next hl =>
    cases hsum : addPayload limit total (ofLe lengthBytes) with
    | error e => exact sound_error e
    | ok sum =>
      refine (readPayload_sound (not_lt.mp hl) input).bind ?_
      rintro ⟨payload, rest⟩ ⟨rfl, hpayload⟩
      obtain ⟨rfl, hlimit⟩ := addPayload_eq_ok hsum
      have hbytes : toLe 8 payload.bytes.length = lengthBytes := by
        rw [hpayload, ← hlength, toLe_ofLe]
      refine ⟨?_, by rw [hpayload], hlimit⟩
      simp [RvfSegment.encode, hbytes]

def payloadTotal (segments : List RvfSegment) : Nat :=
  (segments.map fun segment => segment.payload.length).sum

theorem readSegments_sound (limit count total : Nat) (htotal : total ≤ limit) (input : Bytes) :
    SoundResult (fun r => input = r.1.flatMap RvfSegment.encode ++ r.2 ∧ r.1.length = count ∧
        total + payloadTotal r.1 ≤ limit)
      (readSegments mem limit count total input) := by
  induction count generalizing total input with
  | zero => exact ⟨rfl, rfl, htotal⟩
  | succ count ih =>
    refine (readSegment_sound limit total input).bind ?_
    rintro ⟨⟨segment, sum⟩, rest⟩ ⟨rfl, hsum, hlimit⟩
    refine (ih sum hlimit rest).bind ?_
    rintro ⟨segments, rest⟩ ⟨rfl, rfl, hlimit⟩
    dsimp only at hsum
    refine ⟨by simp, rfl, ?_⟩
    simp only [payloadTotal, List.map_cons, List.sum_cons] at hlimit ⊢
    omega

theorem readRvf_sound (input : Bytes) :
    SoundResult (fun r => input = encodeRvf r.1 ++ r.2 ∧ r.1.length ≤ maxSegmentCount ∧
        payloadTotal r.1 ≤ maxTotalPayload)
      (readRvf mem input) := by
  refine (readExact_sound 4 input).bind ?_
  rintro ⟨magic, input⟩ ⟨rfl, -⟩
  dsimp only
  split
  · exact sound_error _
  · next hmagic =>
    refine (u8_sound input).bind ?_
    rintro ⟨version, input⟩ rfl
    dsimp only
    split
    · exact sound_error _
    · next hversion =>
      refine (readExact_sound 4 input).bind ?_
      rintro ⟨countBytes, input⟩ ⟨rfl, hcount⟩
      dsimp only
      split
      · exact sound_error _
      · next hbound =>
        split
        · exact sound_error _
        · refine (readSegments_sound maxTotalPayload (ofLe countBytes) 0 (Nat.zero_le _)
            input).mono ?_
          rintro ⟨segments, rest⟩ ⟨rfl, hlength, htotal⟩
          have hbytes : toLe 4 segments.length = countBytes := by rw [hlength, ← hcount, toLe_ofLe]
          refine ⟨?_, by rw [hlength]; exact not_lt.mp hbound, by omega⟩
          rw [not_not.mp hmagic, not_not.mp hversion, encodeRvf, rvfHeader, hbytes]
          simp

end Soundness

section RoundTrip
variable {mem : Allocator}

theorem readExact_append {n : Nat} {bs : Bytes} (h : bs.length = n) (rest : Bytes) :
    readExact n (bs ++ rest) = .ok (bs, rest) := Reader.take_append _ bs rest h

theorem readPayload_append (hgrants : mem.Grants) {bs : Bytes} (hl : bs.length ≤ maxSegmentPayload)
    (rest : Bytes) :
    ∃ filled, readPayload mem bs.length .new (bs ++ rest) = .ok (filled, rest) ∧
      filled.bytes = bs := by
  rcases readPayload_cases mem hl .new (bs ++ rest) (Nat.zero_le _) with
    ⟨hshort, -⟩ | ⟨hrefuses, -⟩ | ⟨filled, hok, hbytes, -⟩
  · simp [ByteVec.new] at hshort
  · exact absurd hgrants hrefuses
  · refine ⟨filled, ?_, ?_⟩
    · simpa [ByteVec.new] using hok
    · simpa [ByteVec.new] using hbytes

theorem readSegment_encode (hgrants : mem.Grants) {segment : RvfSegment} {limit total sum : Nat}
    (hl : segment.payload.length ≤ maxSegmentPayload)
    (hsum : addPayload limit total segment.payload.length = .ok sum) (rest : Bytes) :
    readSegment mem limit total (segment.encode ++ rest) = .ok ((segment, sum), rest) := by
  obtain ⟨segType, payload⟩ := segment
  obtain ⟨filled, hread, hbytes⟩ := readPayload_append hgrants hl rest
  dsimp only at hl hsum hread hbytes
  have hlength : ofLe (toLe 8 payload.length) = payload.length :=
    ofLe_toLe (by simp only [maxSegmentPayload] at hl; omega)
  have hhead : readExact 8 (toLe 8 payload.length ++ (payload ++ rest)) =
      .ok (toLe 8 payload.length, payload ++ rest) := readExact_append (length_toLe 8 _) _
  simp only [readSegment, RvfSegment.encode, List.cons_append, List.append_assoc, Reader.u8, hhead,
    bind, Except.bind, hlength, if_neg (not_lt.mpr hl), hsum, Except.mapError, hread, hbytes]
  rfl

variable {segments : List RvfSegment}

theorem readSegments_encode (hgrants : mem.Grants) {total : Nat}
    {seen : List UInt8} (hcheck : checkSegments total seen segments = .ok ()) (rest : Bytes) :
    readSegments mem maxTotalPayload segments.length total
        (segments.flatMap RvfSegment.encode ++ rest) = .ok (segments, rest) := by
  induction segments generalizing total seen with
  | nil => rfl
  | cons segment segments ih =>
    obtain ⟨sum, hsum, hcheck⟩ := Except.bind_eq_ok.mp hcheck
    obtain ⟨hl, hcheck⟩ := Except.ite_error_eq_ok.mp hcheck
    obtain ⟨-, hcheck⟩ := Except.ite_error_eq_ok.mp hcheck
    have hfirst := readSegment_encode hgrants (not_lt.mp hl) hsum
      (segments.flatMap RvfSegment.encode ++ rest)
    have hrest := ih hcheck
    simp only [List.length_cons, readSegments, List.flatMap_cons, List.append_assoc, hfirst, bind,
      Except.bind, hrest]
    rfl

theorem writeRvf_eq_ok {out : Bytes}
    (h : writeRvf mem segments = .ok out) :
    segments.length ≤ maxSegmentCount ∧ checkSegments 0 [] segments = .ok () ∧
      out = encodeRvf segments := by
  obtain ⟨hcount, h⟩ := Except.ite_error_eq_ok.mp h
  obtain ⟨-, h⟩ := Except.ite_error_eq_ok.mp h
  obtain ⟨⟨⟩, hcheck, h⟩ := Except.bind_eq_ok.mp h
  cases h
  exact ⟨not_lt.mp hcount, hcheck, rfl⟩

theorem readRvf_writeRvf {writer : Allocator} (hgrants : mem.Grants) {out : Bytes} (h : writeRvf writer segments = .ok out) (trailing : Bytes) :
    readRvf mem (out ++ trailing) = .ok (segments, trailing) := by
  obtain ⟨hcount, hcheck, rfl⟩ := writeRvf_eq_ok h
  have hlength : ofLe (toLe 4 segments.length) = segments.length :=
    ofLe_toLe (by simp only [maxSegmentCount] at hcount; omega)
  have hmagic := @readExact_append 4 rvfMagic rfl
  have hhead := readExact_append (length_toLe 4 segments.length)
  have hread := readSegments_encode hgrants hcheck trailing
  simp only [readRvf, readRvfBounded, encodeRvf, rvfHeader, List.append_assoc, List.cons_append,
    hmagic, hhead, bind, Except.bind, Reader.u8, ne_eq, not_true, if_false, hlength,
    if_neg (not_lt.mpr hcount), hgrants.table _ hcount, Bool.true_eq_false, hread]

end RoundTrip

open Lib.Program
open Authorization (hexDigits)
open Witness (Digest Hasher)

def segManifest : UInt8 := 0x01

def segVec : UInt8 := 0x02

def segLayer : UInt8 := 0x04

structure FerroImageManifest where
  name : String
  tag : String
  entrypoint : List String
  cmd : List String
  env : List String
  arch : String
  os : String
  createdAt : String
  formatVersion : UInt8
  layerDigest : String
  layerSize : UInt64
  overlayModelType : Option String
deriving DecidableEq

structure RvfImage where
  manifest : FerroImageManifest
  segments : List RvfSegment

structure RvfBuildParams where
  manifest : FerroImageManifest
  layerDigest : String
  runtimeDir : String
  embedModelPath : Option String
  outputPath : String

structure RvfBuildResult where
  outputPath : String
  fileDigest : String
  fileSize : Nat
  segmentCount : Nat

structure ManifestJson where
  toVec : FerroImageManifest → Except RvfError Bytes
  fromSlice : Bytes → Except RvfError FerroImageManifest

def ManifestJson.RoundTrips (json : ManifestJson) : Prop :=
  ∀ manifest bytes, json.toVec manifest = .ok bytes → json.fromSlice bytes = .ok manifest

abbrev Disk := String → Option Bytes

inductive FileCall where
  | read (path : String)
  | create (path : String)
  | write (path : String)
  | sync (path : String)
  | rename (source target : String)

abbrev Faults := FileCall → Option Nat

def Disk.put (disk : Disk) (path : String) (content : Option Bytes) : Disk :=
  fun p => if p = path then content else disk p

def readFile (faults : Faults) (path : String) : Program RvfError Disk Bytes := do
  rejectIf ((faults (.read path)).isSome = true) .io
  let disk ← get
  okOr (disk path) .io

def writeFile (faults : Faults) (path : String) (content : Bytes) : Program RvfError Disk Unit := do
  rejectIf ((faults (.create path)).isSome = true) .io
  modify fun disk : Disk => disk.put path
    (some (content.take ((faults (.write path)).getD content.length)))
  rejectIf ((faults (.write path)).isSome = true) .io
  rejectIf ((faults (.sync path)).isSome = true) .io

def renameFile (faults : Faults) (source target : String) : Program RvfError Disk Unit := do
  rejectIf ((faults (.rename source target)).isSome = true) .io
  let disk ← get
  let content ← okOr (disk source) .io
  set ((disk.put source none).put target (some content))

def joinPath (root name : String) : String :=
  if "/".toList.isPrefixOf name.toList ∨ root = "" then name
  else if "/".toList.isSuffixOf root.toList then root ++ name
  else root ++ "/" ++ name

def layerBlobPath (runtimeDir digest : String) : String :=
  joinPath (joinPath (joinPath runtimeDir "images") "blobs")
    (String.ofList (digest.toList.map fun c => if c = ':' then '_' else c))

def fileStem (name : List Char) : List Char :=
  match rfind '.' name with
  | none | some 0 => name
  | some i => name.take i

def trimTail : List Char → List Char
  | '/' :: rest => trimTail rest
  | '.' :: '/' :: rest => trimTail ('/' :: rest)
  | rest => rest

def withExtension (path extension : String) : String :=
  let front := (trimTail path.toList.reverse).reverse
  let name := front.rtakeWhile (· ≠ '/')
  if name = [] ∨ name = ".".toList ∨ name = "..".toList then path
  else String.ofList (front.rdropWhile (· ≠ '/') ++ fileStem name ++ '.' :: extension.toList)

def parseManifest (json : ManifestJson) (segments : List RvfSegment) :
    Except RvfError FerroImageManifest :=
  match segments.find? (·.segType = segManifest) with
  | none => .error .manifestMissing
  | some segment => json.fromSlice segment.payload

def rejectDuplicate (segments : List RvfSegment) (requiredType : UInt8) : Except RvfStop Unit :=
  if segments.countP (·.segType = requiredType) > 1 then
    .error (.error (.duplicateSegment requiredType))
  else .ok ()

section Images
variable (mem : Allocator) (sha256 : Hasher) (shake256 : Bytes → Bytes)
  (json : ManifestJson)

def ociDigest (layer : Bytes) : String := "sha256:" ++ String.ofList (hexDigits (sha256 layer).val)

def readRvfImage (file : Option Bytes) : Except RvfStop RvfImage := do
  let content ← file.elim (.error (.error .io)) .ok
  let (segments, _) ← readRvf mem content
  [segManifest, segLayer].forM (rejectDuplicate segments)
  let manifest ← (parseManifest json segments).mapError .error
  match segments.find? (·.segType = segLayer) with
  | none => .error (.error .layerMissing)
  | some layer =>
    let actualSize := UInt64.ofNat layer.payload.length
    if manifest.layerSize ≠ actualSize then
      .error (.error (.layerSizeMismatch manifest.layerSize actualSize))
    else if manifest.layerDigest ≠ ociDigest sha256 layer.payload then
      .error (.error (.layerDigestMismatch manifest.layerDigest (ociDigest sha256 layer.payload)))
    else .ok ⟨manifest, segments⟩

def RvfBuildParams.sized (params : RvfBuildParams) (layer : Bytes) : FerroImageManifest :=
  { params.manifest with layerSize := UInt64.ofNat layer.length }

def embeddedModel (faults : Faults) (path : Option String) :
    Program RvfError Disk (List RvfSegment) :=
  match path with
  | none => return []
  | some path => do
    let model ← readFile faults path
    return [⟨segVec, model⟩]

def buildRvfImage (faults : Faults) (params : RvfBuildParams) :
    Program RvfError Disk RvfBuildResult := do
  let layer ← readFile faults (layerBlobPath params.runtimeDir params.layerDigest)
  let manifestJson ← ofExcept id (json.toVec (params.sized layer))
  let model ← embeddedModel faults params.embedModelPath
  let segments := ⟨segManifest, manifestJson⟩ :: ⟨segLayer, layer⟩ :: model
  let buf ← ofExcept id (writeRvf mem segments)
  let temporary := withExtension params.outputPath "rvf.tmp"
  writeFile faults temporary buf
  renameFile faults temporary params.outputPath
  return ⟨params.outputPath, String.ofList (hexDigits (shake256 buf)), buf.length, segments.length⟩

variable {mem sha256 shake256 json} {faults : Faults} {disk : Disk}

theorem wp_readFile {path : String} {Q : Bytes → Disk → Prop}
    (h : ∀ content, disk path = some content → Q content disk) :
    wp (readFile faults path) Q (fun _ _ => True) disk := by
  simp only [readFile, wp_bind, wp_rejectIf, wp_get, wp_okOr]
  exact ⟨fun _ => trivial, fun _ => ⟨h, fun _ => trivial⟩⟩

variable {Q : Unit → Disk → Prop}

theorem wp_writeFile {path : String} {content : Bytes}
    (h : Q () (disk.put path (some content))) :
    wp (writeFile faults path content) Q (fun _ _ => True) disk := by
  simp only [writeFile, wp_bind, wp_rejectIf, wp_modify]
  refine ⟨fun _ => trivial, fun _ => ⟨fun _ => trivial, fun hwrite => ?_⟩⟩
  refine ⟨fun _ => trivial, fun _ => ?_⟩
  rw [Option.not_isSome_iff_eq_none.mp hwrite, Option.getD_none, List.take_length]
  exact h

theorem wp_renameFile {source target : String}
    (h : ∀ content, disk source = some content →
      Q () ((disk.put source none).put target (some content))) :
    wp (renameFile faults source target) Q (fun _ _ => True) disk := by
  simp only [renameFile, wp_bind, wp_rejectIf, wp_get, wp_okOr, wp_set]
  exact ⟨fun _ => trivial, fun _ => ⟨h, fun _ => trivial⟩⟩

theorem wp_embeddedModel {path : Option String} {Q : List RvfSegment → Disk → Prop}
    (h : ∀ model, (∀ segment ∈ model, segment.segType = segVec) → Q model disk) :
    wp (embeddedModel faults path) Q (fun _ _ => True) disk := by
  cases path with
  | none => exact h [] (by simp)
  | some path =>
    rw [embeddedModel, wp_bind]
    exact wp_readFile fun model _ => h [⟨segVec, model⟩] (by simp)

theorem wp_buildRvfImage (params : RvfBuildParams) :
    wp (buildRvfImage mem shake256 json faults params)
      (fun _ after => ∃ layer manifestJson model buf,
        disk (layerBlobPath params.runtimeDir params.layerDigest) = some layer ∧
        json.toVec (params.sized layer) = .ok manifestJson ∧
        (∀ segment ∈ model, segment.segType = segVec) ∧
        writeRvf mem (⟨segManifest, manifestJson⟩ :: ⟨segLayer, layer⟩ :: model) = .ok buf ∧
        after params.outputPath = some buf)
      (fun _ _ => True) disk := by
  simp only [buildRvfImage, wp_bind, wp_ofExcept, wp_pure]
  refine wp_readFile fun layer hlayer => ⟨fun manifestJson hjson => ?_, fun _ _ => trivial⟩
  refine wp_embeddedModel fun model hmodel => ⟨fun buf hbuf => ?_, fun _ _ => trivial⟩
  refine wp_writeFile (wp_renameFile fun content hcontent => ?_)
  rw [Disk.put, if_pos rfl] at hcontent
  cases hcontent
  exact ⟨layer, manifestJson, model, buf, hlayer, hjson, hmodel, hbuf, if_pos rfl⟩

theorem readRvfImage_built {reader : Allocator} (hgrants : reader.Grants) (hjson : json.RoundTrips)
    {params : RvfBuildParams} {layer manifestJson buf : Bytes} {model : List RvfSegment}
    (hto : json.toVec (params.sized layer) = .ok manifestJson)
    (hmodel : ∀ segment ∈ model, segment.segType = segVec)
    (hbuf : writeRvf mem (⟨segManifest, manifestJson⟩ :: ⟨segLayer, layer⟩ :: model) = .ok buf)
    (hdigest : params.manifest.layerDigest = ociDigest sha256 layer) :
    readRvfImage reader sha256 json (some buf) =
      .ok ⟨params.sized layer, ⟨segManifest, manifestJson⟩ :: ⟨segLayer, layer⟩ :: model⟩ := by
  have hread := readRvf_writeRvf hgrants hbuf []
  rw [List.append_nil] at hread
  have hcount (segType : UInt8) (hne : segType ≠ segVec) :
      model.countP (·.segType = segType) = 0 := by
    rw [List.countP_eq_zero]
    intro segment hsegment
    simpa [hmodel segment hsegment] using hne.symm
  have hmanifest := hcount segManifest (by decide)
  have hlayer := hcount segLayer (by decide)
  have hforM : [segManifest, segLayer].forM (rejectDuplicate
      (⟨segManifest, manifestJson⟩ :: ⟨segLayer, layer⟩ :: model)) = .ok () := by
    refine Except.forM_ok fun required hrequired => if_neg ?_
    rcases List.mem_pair.mp hrequired with rfl | rfl
    · rw [List.countP_cons, List.countP_cons, hmanifest]
      simp [segManifest, segLayer]
    · rw [List.countP_cons, List.countP_cons, hlayer]
      simp [segManifest, segLayer]
  have hparse : parseManifest json
      (⟨segManifest, manifestJson⟩ :: ⟨segLayer, layer⟩ :: model) = .ok (params.sized layer) := by
    simpa [parseManifest] using hjson _ _ hto
  have hfind : (⟨segManifest, manifestJson⟩ :: ⟨segLayer, layer⟩ :: model).find?
      (·.segType = segLayer) = some (⟨segLayer, layer⟩ : RvfSegment) := by
    rfl
  simp only [readRvfImage, Option.elim_some, bind, Except.bind, hread, hforM, hparse,
    Except.mapError, hfind, RvfBuildParams.sized, hdigest, ne_eq, not_true, if_false]

end Images

/-- Under allocators that grant what the format allows, the reader takes what the writer wrote off
the front of a stream; whatever it accepts is the encoding of what it returns, within the limits,
and it never underflows or overruns; and an image that was built reads back with its layer. -/
theorem rvf_codec {mem : Allocator} (hgrants : mem.Grants) {json : ManifestJson}
    (hjson : json.RoundTrips) (sha256 : Hasher) (shake256 : Bytes → Bytes)
    (writer reader : Allocator) :
    (∀ segments out trailing, writeRvf writer segments = .ok out →
        readRvf mem (out ++ trailing) = .ok (segments, trailing)) ∧
      (∀ input, readRvf reader input ≠ .error .underflow ∧ readRvf reader input ≠ .error .overrun ∧
        ∀ segments rest, readRvf reader input = .ok (segments, rest) →
          input = encodeRvf segments ++ rest ∧ segments.length ≤ 256 ∧
            payloadTotal segments ≤ 1024 * 1024 * 1024) ∧
      ∀ (faults : Faults) (params : RvfBuildParams) (disk after : Disk) (result : RvfBuildResult)
        (layer : Bytes), disk (layerBlobPath params.runtimeDir params.layerDigest) = some layer →
        params.manifest.layerDigest = ociDigest sha256 layer →
        buildRvfImage writer shake256 json faults params disk = (.ok result, after) →
        ∃ image, readRvfImage mem sha256 json (after params.outputPath) = .ok image ∧
          image.manifest = { params.manifest with layerSize := image.manifest.layerSize } ∧
          image.manifest.layerSize.toNat = layer.length ∧
          image.segments.find? (·.segType = segLayer) = some ⟨segLayer, layer⟩ := by
  refine ⟨fun segments out trailing h => readRvf_writeRvf hgrants h trailing, fun input => ?_, ?_⟩
  · have hsound := @readRvf_sound reader input
    refine ⟨fun h => ?_, fun h => ?_, fun segments rest h => ?_⟩
    · rw [h] at hsound
      obtain ⟨_, hstop⟩ := hsound
      cases hstop
    · rw [h] at hsound
      obtain ⟨_, hstop⟩ := hsound
      cases hstop
    · rw [h] at hsound
      exact hsound
  · intro faults params disk after result layer hlayer hdigest hbuild
    have hwp := @wp_buildRvfImage writer shake256 json faults disk params
    rw [wp, hbuild] at hwp
    obtain ⟨layer', manifestJson, model, buf, hlayer', hto, hmodel, hbuf, hafter⟩ := hwp
    rw [hlayer] at hlayer'
    cases hlayer'
    have hsize : layer.length < 2 ^ 64 := by
      have hcheck := (writeRvf_eq_ok hbuf).2.1
      obtain ⟨_, -, hcheck⟩ := Except.bind_eq_ok.mp hcheck
      obtain ⟨-, hcheck⟩ := Except.ite_error_eq_ok.mp hcheck
      obtain ⟨-, hcheck⟩ := Except.ite_error_eq_ok.mp hcheck
      obtain ⟨_, -, hcheck⟩ := Except.bind_eq_ok.mp hcheck
      have hpayload := not_lt.mp (Except.ite_error_eq_ok.mp hcheck).1
      simp only [maxSegmentPayload] at hpayload
      omega
    rw [hafter]
    exact ⟨_, readRvfImage_built hgrants hjson hto hmodel hbuf hdigest, rfl,
      UInt64.toNat_ofNat_of_lt' hsize, rfl⟩

def sampleLayer : Bytes := [0x1f, 0x8b]

def sampleSha256 (_ : Bytes) : Digest := ⟨
  [0xee, 0x98, 0xdc, 0x6a, 0xf2, 0x7a, 0x9f, 0x1c, 0x8c, 0xc4, 0xaa, 0xa2, 0xfd, 0x05, 0xb5, 0xf6,
   0xe7, 0xc9, 0x8f, 0x51, 0x39, 0x02, 0x53, 0xa5, 0x26, 0x3b, 0x0d, 0x09, 0x6c, 0x35, 0x10, 0xfe],
  rfl⟩

def sampleShake256 (_ : Bytes) : Bytes :=
  [0x05, 0x4b, 0xd2, 0xa0, 0x7b, 0x26, 0xd6, 0x2e, 0xbf, 0x50, 0x4a, 0x58, 0x36, 0x3e, 0xf5, 0xfe,
   0x4c, 0xc0, 0xdd, 0xcf, 0x93, 0xa5, 0x13, 0x27, 0xe1, 0x72, 0x80, 0x6b, 0x41, 0x7b, 0x5f, 0x81]

def sampleManifest : FerroImageManifest where
  name := "app"
  tag := "1"
  entrypoint := []
  cmd := []
  env := []
  arch := "x86_64"
  os := "linux"
  createdAt := "0"
  formatVersion := 1
  layerDigest := "sha256:ee98dc6af27a9f1c8cc4aaa2fd05b5f6e7c98f51390253a5263b0d096c3510fe"
  layerSize := 2
  overlayModelType := none

def sampleManifestText : String :=
  "\x7b\"name\":\"app\",\"tag\":\"1\",\"entrypoint\":[],\"cmd\":[],\"env\":[],\"arch\":" ++
  "\"x86_64\",\"os\":\"linux\",\"created_at\":\"0\",\"format_version\":1," ++
  "\"layer_digest\":\"" ++
  "sha256:ee98dc6af27a9f1c8cc4aaa2fd05b5f6e7c98f51390253a5263b0d096c3510fe\",\"layer_size\":2\x7d"

def sampleJson : ManifestJson where
  toVec manifest :=
    if manifest = sampleManifest then .ok (utf8 sampleManifestText) else .error .serialization
  fromSlice bytes :=
    if bytes = utf8 sampleManifestText then .ok sampleManifest else .error .serialization

theorem sampleJson_roundTrips : sampleJson.RoundTrips := by
  intro manifest bytes h
  simp only [sampleJson] at h ⊢
  split at h
  · next hmanifest =>
    have hbytes := Except.ok.inj h
    rw [← hbytes, if_pos rfl, hmanifest]
  · cases h

def grantingAllocator : Allocator where
  reserveExact capacity length additional := some (max capacity (length + additional))
  reserveTable _ := true
  reserveExact_le h := by
    cases h
    exact ⟨le_max_left .., le_max_right ..⟩

theorem grantingAllocator_grants : grantingAllocator.Grants where
  vec _ _ _ _ := Option.some_ne_none _
  table _ _ := rfl

def sampleParams : RvfBuildParams :=
  ⟨{ sampleManifest with layerSize := 0 }, sampleManifest.layerDigest, "/run", none, "/out/app.rvf"⟩

def sampleDisk : Disk := fun path =>
  if path = layerBlobPath "/run" sampleManifest.layerDigest then some sampleLayer else none

def buildSample : Program RvfError Disk RvfBuildResult :=
  buildRvfImage grantingAllocator sampleShake256 sampleJson (fun _ => none) sampleParams

theorem rvf_codec_app :
    (readRvf grantingAllocator (encodeRvf [⟨segLayer, sampleLayer⟩] ++ [7]) =
        .ok ([⟨segLayer, sampleLayer⟩], [7]) ∧
      payloadTotal [⟨segLayer, sampleLayer⟩] ≤ 1024 * 1024 * 1024) ∧
    ∃ image, readRvfImage grantingAllocator sampleSha256 sampleJson
        (buildSample.after sampleDisk "/out/app.rvf") = .ok image ∧
      image.manifest.layerSize.toNat = 2 ∧
      image.segments.find? (·.segType = segLayer) = some ⟨segLayer, sampleLayer⟩ := by
  obtain ⟨hround, hsound, hbuilt⟩ := rvf_codec grantingAllocator_grants sampleJson_roundTrips
    sampleSha256 sampleShake256 grantingAllocator grantingAllocator
  have hread := hround [⟨segLayer, sampleLayer⟩] (encodeRvf [⟨segLayer, sampleLayer⟩]) [7] rfl
  obtain ⟨result, hbuild, -⟩ := eq_of_returns (m := buildSample) (p := fun _ => true)
    (s := sampleDisk) (by decide +kernel)
  obtain ⟨image, himage, -, hsize, hlayer⟩ := hbuilt _ sampleParams sampleDisk _ result sampleLayer
    (if_pos rfl) (by decide +kernel) hbuild
  exact ⟨⟨hread, ((hsound _).2.2 _ _ hread).2.2⟩, image, himage, hsize, hlayer⟩

section Rewrite
variable {mem : Allocator} {segments : List RvfSegment}

theorem readSegments_bounded {limit count total : Nat} {input rest : Bytes}
    (h : readSegments mem limit count total input = .ok (segments, rest)) :
    ∀ segment ∈ segments, segment.payload.length ≤ maxSegmentPayload := by
  induction count generalizing total input segments with
  | zero =>
    cases h
    simp
  | succ count ih =>
    obtain ⟨⟨⟨first, sum⟩, input⟩, hfirst, h⟩ := Except.bind_eq_ok.mp h
    obtain ⟨⟨others, _⟩, hothers, h⟩ := Except.bind_eq_ok.mp h
    cases h
    refine List.forall_mem_cons.mpr ⟨?_, ih hothers⟩
    obtain ⟨⟨_, input⟩, -, hfirst⟩ := Except.bind_eq_ok.mp hfirst
    obtain ⟨⟨length, input⟩, -, hfirst⟩ := Except.bind_eq_ok.mp hfirst
    obtain ⟨hl, hfirst⟩ := Except.ite_error_eq_ok.mp hfirst
    obtain ⟨_, -, hfirst⟩ := Except.bind_eq_ok.mp hfirst
    obtain ⟨⟨payload, _⟩, hpayload, hfirst⟩ := Except.bind_eq_ok.mp hfirst
    cases hfirst
    have hsound := @readPayload_sound mem _ (not_lt.mp hl) input
    rw [hpayload] at hsound
    exact hsound.2.trans_le (not_lt.mp hl)

/-- The writer refuses what the format allows only for a type that occurs twice. -/
theorem checkSegments_ok_iff {total : Nat} {seen : List UInt8}
    (htotal : total + payloadTotal segments ≤ maxTotalPayload)
    (hbounded : ∀ segment ∈ segments, segment.payload.length ≤ maxSegmentPayload) :
    checkSegments total seen segments = .ok () ↔
      (segments.map RvfSegment.segType).Nodup ∧ ∀ segment ∈ segments, segment.segType ∉ seen := by
  induction segments generalizing total seen with
  | nil => simp [checkSegments]
  | cons segment segments ih =>
    simp only [payloadTotal, List.map_cons, List.sum_cons] at htotal
    have hsum : addPayload maxTotalPayload total segment.payload.length =
        .ok (total + segment.payload.length) :=
      if_pos (by simp only [maxTotalPayload] at htotal ⊢; omega)
    obtain ⟨hl, hbounded⟩ := List.forall_mem_cons.mp hbounded
    rw [checkSegments, hsum]
    show (if _ then _ else _) = _ ↔ _
    rw [if_neg (not_lt.mpr hl), Except.ite_error_eq_ok,
      ih (by simp only [payloadTotal]; omega) hbounded, List.map_cons, List.nodup_cons,
      List.forall_mem_cons]
    simp only [List.mem_cons, List.mem_map, not_or, not_exists, not_and, forall_and]
    tauto

/-- What the reader took is written back byte for byte, unless two segments have one type: these
the reader accepts and the writer refuses. -/
theorem readRvf_rewritten {reader writer : Allocator} (hgrants : writer.Grants) {input rest : Bytes}
    (h : readRvf reader input = .ok (segments, rest)) (out : Bytes) :
    writeRvf writer segments = .ok out ↔
      input = out ++ rest ∧ (segments.map RvfSegment.segType).Nodup := by
  have hsound := @readRvf_sound reader input
  rw [h] at hsound
  obtain ⟨hinput, hcount, htotal⟩ := hsound
  obtain ⟨_, -, h⟩ := Except.bind_eq_ok.mp h
  obtain ⟨-, h⟩ := Except.ite_error_eq_ok.mp h
  obtain ⟨_, -, h⟩ := Except.bind_eq_ok.mp h
  obtain ⟨-, h⟩ := Except.ite_error_eq_ok.mp h
  obtain ⟨_, -, h⟩ := Except.bind_eq_ok.mp h
  obtain ⟨-, h⟩ := Except.ite_error_eq_ok.mp h
  obtain ⟨-, h⟩ := Except.ite_error_eq_ok.mp h
  have hcheck := @checkSegments_ok_iff segments 0 [] ((Nat.zero_add _).trans_le htotal)
    (readSegments_bounded h)
  dsimp only at hinput hcount
  constructor
  · intro hwrite
    obtain ⟨-, hok, rfl⟩ := writeRvf_eq_ok hwrite
    exact ⟨hinput, (hcheck.mp hok).1⟩
  · rintro ⟨hout, hnodup⟩
    obtain rfl := List.append_cancel_right (hinput.symm.trans hout)
    rw [writeRvf, if_neg (not_lt.mpr hcount), if_neg (by simp [hgrants.table _ hcount]),
      hcheck.mpr ⟨hnodup, by simp⟩]
    rfl

end Rewrite

theorem readRvf_rewritten_twice :
    readRvf grantingAllocator (encodeRvf [⟨segVec, []⟩, ⟨segVec, []⟩]) =
        .ok ([⟨segVec, []⟩, ⟨segVec, []⟩], []) ∧
      ∀ out, writeRvf grantingAllocator [⟨segVec, []⟩, ⟨segVec, []⟩] ≠ .ok out := by
  have hread : readRvf grantingAllocator (encodeRvf [⟨segVec, []⟩, ⟨segVec, []⟩]) =
      .ok ([⟨segVec, []⟩, ⟨segVec, []⟩], []) := by decide +kernel
  refine ⟨hread, fun out hwrite => ?_⟩
  exact absurd ((readRvf_rewritten grantingAllocator_grants hread out).mp hwrite).2 (by decide)

end Ferrocrate.Image
