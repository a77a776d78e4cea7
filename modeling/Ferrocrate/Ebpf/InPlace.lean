import Ferrocrate.Ebpf.Rewrite

/-! The rewrites of `packet.rs` on the caller's buffer, which an error leaves as it is then. -/
namespace Ferrocrate.Ebpf
open Lib Lib.Program

def readSliceU16 (offset : Nat) : Program PacketError Bytes Nat := do
  let packet ← get
  ofExcept id (readU16 packet offset)

def writeSliceU16 (offset value : Nat) : Program PacketError Bytes Unit := do
  let packet ← get
  let packet ← ofExcept id (writeU16 packet offset value)
  set packet

def rewriteAddressInPlace (addressOffset : Nat) (new : Ipv4) : Program PacketError Bytes Unit := do
  let packet ← get
  let view ← ofExcept id (parsePacketBytes packet)
  let addressOffset := view.ipv4Offset + addressOffset
  ofExcept id (requireBytes packet.length addressOffset 4)
  let old := addressAt packet addressOffset
  let oldIpv4Checksum ← readSliceU16 (view.ipv4Offset + 10)
  let oldTransportChecksum ← readSliceU16 (transportChecksumOffset view)
  set (writeAddress packet addressOffset new)
  writeSliceU16 (view.ipv4Offset + 10) (updateIpv4Checksum oldIpv4Checksum old new)
  writeSliceU16 (transportChecksumOffset view)
    (renewChecksum view.transport oldTransportChecksum
      (updateIpv4Checksum oldTransportChecksum old new))

def rewritePortInPlace (field : PortField) (newPort : UInt16) :
    Program PacketError Bytes Unit := do
  let packet ← get
  let view ← ofExcept id (parsePacketBytes packet)
  let portOffset := view.transportOffset + field.offset
  let oldPort ← readSliceU16 portOffset
  let oldChecksum ← readSliceU16 (transportChecksumOffset view)
  writeSliceU16 portOffset newPort.toNat
  writeSliceU16 (transportChecksumOffset view)
    (renewChecksum view.transport oldChecksum
      (updateChecksumWord oldChecksum oldPort newPort.toNat))

inductive FieldRewrite where
  | source (new : Ipv4)
  | destination (new : Ipv4)
  | port (field : PortField) (new : UInt16)

namespace FieldRewrite

def inPlace : FieldRewrite → Program PacketError Bytes Unit
  | source new => rewriteAddressInPlace 12 new
  | destination new => rewriteAddressInPlace 16 new
  | port field new => rewritePortInPlace field new

def Writes (rewrite : FieldRewrite) (view : PacketView) (i : Nat) : Prop :=
  transportChecksumOffset view ≤ i ∧ i < transportChecksumOffset view + 2 ∨
    match rewrite with
    | source _ => view.ipv4Offset + 10 ≤ i ∧ i < view.ipv4Offset + 16
    | destination _ => view.ipv4Offset + 10 ≤ i ∧ i < view.ipv4Offset + 12 ∨
      view.ipv4Offset + 16 ≤ i ∧ i < view.ipv4Offset + 20
    | port field _ => view.transportOffset + field.offset ≤ i ∧
      i < view.transportOffset + field.offset + 2

def Holds (rewrite : FieldRewrite) (view : PacketView) (packet : Bytes) : Prop :=
  match rewrite with
  | source new => addressAt packet (view.ipv4Offset + 12) = new
  | destination new => addressAt packet (view.ipv4Offset + 16) = new
  | port field new => wordAt packet (view.transportOffset + field.offset) = new.toNat

def applied (rewrite : FieldRewrite) (view : PacketView) (packet : Bytes) : Bytes :=
  match rewrite with
  | source new => withAddress packet view (14 + 12) new
  | destination new => withAddress packet view (14 + 16) new
  | port field new => withPort packet view field new

end FieldRewrite

section Run
variable {packet : Bytes} {view : PacketView}

theorem wp_ofExcept_ok {α : Type} {x : Except PacketError α} {a : α} (hx : x = .ok a)
    (Q : α → Bytes → Prop) (E : PacketError → Bytes → Prop) :
    wp (ofExcept id x) Q E packet ↔ Q a packet := by
  rw [hx]
  rfl

theorem wp_readSliceU16 (offset : Nat) (Q : Nat → Bytes → Prop) (E : PacketError → Bytes → Prop)
    (h : offset + 1 < packet.length) :
    wp (readSliceU16 offset) Q E packet ↔ Q (wordAt packet offset) packet := by
  rw [readSliceU16, wp_bind, wp_get, wp_ofExcept_ok (readU16_eq_ok.mpr ⟨h, rfl⟩)]

theorem wp_writeSliceU16 (offset value : Nat) (Q : Unit → Bytes → Prop)
    (E : PacketError → Bytes → Prop) (h : offset + 1 < packet.length) :
    wp (writeSliceU16 offset value) Q E packet ↔ Q () (putWord packet offset value) := by
  rw [writeSliceU16, wp_bind, wp_get, wp_bind, wp_ofExcept_ok (writeU16_of h), wp_set]

theorem FieldRewrite.inPlace_of_rejected (rewrite : FieldRewrite) {e : PacketError}
    (h : parsePacketBytes packet = .error e) : rewrite.inPlace packet = (.error e, packet) := by
  refine eq_of_wp_error ?_
  cases rewrite with
  | source new =>
    rw [inPlace, rewriteAddressInPlace, wp_bind, wp_get, wp_bind, h]
    exact ⟨rfl, rfl⟩
  | destination new =>
    rw [inPlace, rewriteAddressInPlace, wp_bind, wp_get, wp_bind, h]
    exact ⟨rfl, rfl⟩
  | port field new =>
    rw [inPlace, rewritePortInPlace, wp_bind, wp_get, wp_bind, h]
    exact ⟨rfl, rfl⟩

theorem rewriteAddressInPlace_eq (h : WellFormed packet view) {offset : Nat}
    (hoffset : offset = 12 ∨ offset = 16) (new : Ipv4) :
    rewriteAddressInPlace offset new packet =
      (.ok (), withAddress packet view (14 + offset) new) := by
  have hlen := h.length_le
  have hlies := h.checksum_lies
  refine eq_of_wp_ok ?_
  rw [rewriteAddressInPlace, wp_bind, wp_get, wp_bind, wp_ofExcept_ok h.parse]
  dsimp only
  rw [h.offset, wp_bind, wp_ofExcept_ok (requireBytes_eq_ok (u := ()).mpr (by omega)), wp_bind,
    wp_readSliceU16 _ _ _ (by omega), wp_bind, wp_readSliceU16 _ _ _ (by omega), wp_bind, wp_set,
    wp_bind, wp_writeSliceU16 _ _ _ _ (by rw [length_writeAddress]; omega),
    wp_writeSliceU16 _ _ _ _ (by rw [length_putWord, length_writeAddress]; omega)]
  exact ⟨rfl, rfl⟩

theorem rewritePortInPlace_eq (h : WellFormed packet view) (field : PortField) (port : UInt16) :
    rewritePortInPlace field port packet = (.ok (), withPort packet view field port) := by
  have hlies := h.checksum_lies
  have hfield := field.offset_cases
  refine eq_of_wp_ok ?_
  rw [rewritePortInPlace, wp_bind, wp_get, wp_bind, wp_ofExcept_ok h.parse]
  dsimp only
  rw [wp_bind, wp_readSliceU16 _ _ _ (by omega), wp_bind, wp_readSliceU16 _ _ _ (by omega),
    wp_bind, wp_writeSliceU16 _ _ _ _ (by omega),
    wp_writeSliceU16 _ _ _ _ (by rw [length_putWord]; omega)]
  exact ⟨rfl, rfl⟩

namespace FieldRewrite

theorem inPlace_of_accepted (rewrite : FieldRewrite) (h : WellFormed packet view) :
    rewrite.inPlace packet = (.ok (), rewrite.applied view packet) := by
  cases rewrite with
  | source new => exact rewriteAddressInPlace_eq h (.inl rfl) new
  | destination new => exact rewriteAddressInPlace_eq h (.inr rfl) new
  | port field new => exact rewritePortInPlace_eq h field new

def rewritten (packet : Bytes) : FieldRewrite → Except PacketError Bytes
  | source new => rewriteIpv4Source packet new
  | destination new => rewriteIpv4Destination packet new
  | port field new => rewriteTransportPort packet field new

theorem rewritten_of_accepted (rewrite : FieldRewrite) (h : WellFormed packet view) :
    rewrite.rewritten packet = .ok (rewrite.applied view packet) := by
  cases rewrite with
  | source new => exact rewriteIpv4Address_eq h (.inl rfl) new
  | destination new => exact rewriteIpv4Address_eq h (.inr rfl) new
  | port field new => exact rewriteTransportPort_eq h field new

theorem rewritten_of_rejected (rewrite : FieldRewrite) {e : PacketError}
    (h : parsePacketBytes packet = .error e) : rewrite.rewritten packet = .error e := by
  cases rewrite with
  | source new => exact Except.bind_eq_error.mpr (.inl h)
  | destination new => exact Except.bind_eq_error.mpr (.inl h)
  | port field new => exact Except.bind_eq_error.mpr (.inl h)

/-- The rewrite on the caller's buffer and the one on a packet by value agree on every packet, and
an error leaves the buffer alone. -/
theorem inPlace_eq_rewritten (rewrite : FieldRewrite) (packet : Bytes) :
    rewrite.inPlace packet = match rewrite.rewritten packet with
      | .ok packet' => (.ok (), packet')
      | .error e => (.error e, packet) := by
  cases hparse : parsePacketBytes packet with
  | error e => rw [rewrite.inPlace_of_rejected hparse, rewrite.rewritten_of_rejected hparse]
  | ok view =>
    have h := parsePacketBytes_eq_ok hparse
    rw [rewrite.inPlace_of_accepted h, rewrite.rewritten_of_accepted h]

theorem keeps_applied (rewrite : FieldRewrite) (h : WellFormed packet view) :
    Keeps view packet (rewrite.applied view packet) := by
  cases rewrite with
  | source new => exact keeps_withAddress h (.inl rfl) new
  | destination new => exact keeps_withAddress h (.inr rfl) new
  | port field new => exact keeps_withPort h field new

theorem byteAt_applied (rewrite : FieldRewrite) (h : WellFormed packet view) {i : Nat}
    (hi : ¬rewrite.Writes view i) :
    byteAt (rewrite.applied view packet) i = byteAt packet i := by
  have hlies := h.checksum_lies
  have hoffset := h.offset
  have htransport := h.transportOffset
  cases rewrite with
  | source new =>
    simp only [Writes, hoffset, not_or, not_and, not_lt] at hi
    exact byteAt_withAddress h (.inl rfl) new (by omega) (by omega) (by omega)
  | destination new =>
    simp only [Writes, hoffset, not_or, not_and, not_lt] at hi
    exact byteAt_withAddress h (.inr rfl) new (by omega) (by omega) (by omega)
  | port field new =>
    simp only [Writes, not_or, not_and, not_lt] at hi
    exact byteAt_withPort h field new (by omega) (by omega)

theorem byteAt_putWord {i j value : Nat} (hi : i + 1 < packet.length) (h₁ : j ≠ i)
    (h₂ : j ≠ i + 1) : byteAt (putWord packet i value) j = byteAt packet j :=
  byteAt_writeWord hi _ _ h₁ h₂

theorem addressAt_writeAddress {i : Nat} (hi : i + 3 < packet.length) (new : Ipv4) :
    addressAt (writeAddress packet i new) i = new := by
  have hbyte (j : Nat) : byteAt (writeAddress packet i new) j =
      if j = i + 2 then new.c else if j = i + 3 then new.d
        else if j = i then new.a else if j = i + 1 then new.b else byteAt packet j := by
    rw [byteAt, writeAddress, getD_writeWord (by rw [length_writeWord]; omega),
      getD_writeWord (by omega)]
    rfl
  simp [addressAt, hbyte]

theorem addressAt_withAddress (h : WellFormed packet view) {offset : Nat}
    (hoffset : offset = 12 ∨ offset = 16) (new : Ipv4) :
    addressAt (withAddress packet view (14 + offset) new) (14 + offset) = new := by
  have hlen := h.length_le
  have hlies := h.checksum_lies
  have hlength : (writeAddress packet (14 + offset) new).length = packet.length :=
    length_writeAddress ..
  have hbyte (j : Nat) (h₁ : 14 + offset ≤ j) (h₂ : j < 18 + offset) :
      byteAt (withAddress packet view (14 + offset) new) j =
        byteAt (writeAddress packet (14 + offset) new) j := by
    rw [withAddress, byteAt_putWord (by rw [length_putWord]; omega) (by omega) (by omega),
      byteAt_putWord (by omega) (by omega) (by omega)]
  have hself : addressAt (writeAddress packet (14 + offset) new) (14 + offset) = new :=
    addressAt_writeAddress (by omega) new
  rw [addressAt] at hself ⊢
  rw [hbyte _ le_rfl (by omega), hbyte _ (by omega) (by omega), hbyte _ (by omega) (by omega),
    hbyte _ (by omega) (by omega), hself]

theorem holds_applied (rewrite : FieldRewrite) (h : WellFormed packet view) :
    rewrite.Holds view (rewrite.applied view packet) := by
  have hlies := h.checksum_lies
  cases rewrite with
  | source new =>
    rw [Holds, h.offset]
    exact addressAt_withAddress h (.inl rfl) new
  | destination new =>
    rw [Holds, h.offset]
    exact addressAt_withAddress h (.inr rfl) new
  | port field new =>
    have hfield := field.offset_cases
    show wordAt (withPort packet view field new) _ = new.toNat
    rw [withPort, wordAt_putWord_of_ne (by rw [length_putWord]; omega) (by omega),
      wordAt_putWord_self (by omega) (toNat_le new)]

end FieldRewrite

/-- The incremental checksums are right: an accepted packet gets the new value, its IPv4 checksum
and its transport checksum stay valid when they were, a UDP packet has none afterwards exactly when
it had none, and no byte outside the field and its checksums changes; a packet that is not accepted
is left alone. -/
theorem rewrites_keep_checksums (packet : Bytes) (rewrite : FieldRewrite) :
    match parsePacketBytes packet with
    | .error e => rewrite.inPlace packet = (.error e, packet)
    | .ok view => ∃ packet', rewrite.inPlace packet = (.ok (), packet') ∧
      rewrite.Holds view packet' ∧
      (onesSum (headerWords packet view) = 65535 → onesSum (headerWords packet' view) = 65535) ∧
      (¬noChecksum packet view → onesSum (transportWords packet view) = 65535 →
        onesSum (transportWords packet' view) = 65535) ∧
      (noChecksum packet' view ↔ noChecksum packet view) ∧
      packet'.length = packet.length ∧
      ∀ i, ¬rewrite.Writes view i → byteAt packet' i = byteAt packet i := by
  cases hparse : parsePacketBytes packet with
  | error e => exact rewrite.inPlace_of_rejected hparse
  | ok view =>
    have h := parsePacketBytes_eq_ok hparse
    have hk := rewrite.keeps_applied h
    have h' := h.keeps hk
    refine ⟨_, rewrite.inPlace_of_accepted h, rewrite.holds_applied h, ?_, ?_, hk.none, hk.length,
      fun i hi => rewrite.byteAt_applied h hi⟩
    · intro hvalid
      have hsum := (onesSum_eq_iff (words_le _)).mp hvalid
      exact (onesSum_eq_iff (words_le _)).mpr ⟨hk.header.trans hsum.1, h'.header_pos⟩
    · intro hnone hvalid
      have hsum := (onesSum_eq_iff h.transportWords_le).mp hvalid
      exact (onesSum_eq_iff h'.transportWords_le).mpr
        ⟨(hk.transport hnone).trans hsum.1, transportWords_pos ..⟩

end Run

end Ferrocrate.Ebpf
