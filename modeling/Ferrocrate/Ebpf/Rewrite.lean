import Ferrocrate.Ebpf.Frame

/-! Rewriting one address or port of a frame keeps its checksums. -/
namespace Ferrocrate.Ebpf
open Lib

def updateChecksumWord (checksum old new : Nat) : Nat :=
  let sum := (65535 - checksum) + (65535 - old) + new
  let sum := sum % 65536 + sum / 65536
  let sum := sum % 65536 + sum / 65536
  65535 - sum % 65536

def Ipv4.high (address : Ipv4) : Nat := 256 * address.a.toNat + address.b.toNat
def Ipv4.low (address : Ipv4) : Nat := 256 * address.c.toNat + address.d.toNat

def updateIpv4Checksum (checksum : Nat) (old new : Ipv4) : Nat :=
  updateChecksumWord (updateChecksumWord checksum old.high new.high) old.low new.low

def normalizeUdpChecksum (protocol : TransportProtocol) (checksum : Nat) : Nat :=
  if protocol = .udp ∧ checksum = 0 then 65535 else checksum

def renewChecksum (protocol : TransportProtocol) (old updated : Nat) : Nat :=
  if protocol = .udp ∧ old = 0 then 0 else normalizeUdpChecksum protocol updated

def transportChecksumOffset (view : PacketView) : Nat :=
  view.transportOffset +
    match view.transport with
    | .tcp => 16
    | .udp => 6

def addressAt (packet : Bytes) (offset : Nat) : Ipv4 :=
  ⟨byteAt packet offset, byteAt packet (offset + 1), byteAt packet (offset + 2),
    byteAt packet (offset + 3)⟩

def writeAddress (packet : Bytes) (offset : Nat) (address : Ipv4) : Bytes :=
  writeWord (writeWord packet offset address.a address.b) (offset + 2) address.c address.d

def putWord (packet : Bytes) (offset value : Nat) : Bytes :=
  writeWord packet offset (UInt8.ofNat (value / 256)) (UInt8.ofNat value)

def writeU16 (packet : Bytes) (offset value : Nat) : Except PacketError Bytes :=
  if offset + 2 ≤ packet.length then .ok (putWord packet offset value) else .error .truncated

def rewriteIpv4Address (packet : Bytes) (addressOffset : Nat) (new : Ipv4) :
    Except PacketError Bytes := do
  let view ← parsePacketBytes packet
  let addressOffset := view.ipv4Offset + addressOffset
  requireBytes packet.length addressOffset 4
  let old := addressAt packet addressOffset
  let oldIpv4Checksum ← readU16 packet (view.ipv4Offset + 10)
  let oldTransportChecksum ← readU16 packet (transportChecksumOffset view)
  let packet := writeAddress packet addressOffset new
  let packet ← writeU16 packet (view.ipv4Offset + 10) (updateIpv4Checksum oldIpv4Checksum old new)
  writeU16 packet (transportChecksumOffset view)
    (renewChecksum view.transport oldTransportChecksum
      (updateIpv4Checksum oldTransportChecksum old new))

def rewriteIpv4Destination (packet : Bytes) (new : Ipv4) : Except PacketError Bytes :=
  rewriteIpv4Address packet 16 new

def rewriteIpv4Source (packet : Bytes) (new : Ipv4) : Except PacketError Bytes :=
  rewriteIpv4Address packet 12 new

def PortField.offset : PortField → Nat
  | .source => 0
  | .destination => 2

def rewriteTransportPort (packet : Bytes) (field : PortField) (newPort : UInt16) :
    Except PacketError Bytes := do
  let view ← parsePacketBytes packet
  let portOffset := view.transportOffset + field.offset
  let oldPort ← readU16 packet portOffset
  let oldChecksum ← readU16 packet (transportChecksumOffset view)
  let packet ← writeU16 packet portOffset newPort.toNat
  writeU16 packet (transportChecksumOffset view)
    (renewChecksum view.transport oldChecksum (updateChecksumWord oldChecksum oldPort newPort.toNat))

def writeMac (packet : Bytes) (offset : Nat) (mac : Mac) : Bytes :=
  writeWord (writeWord (writeWord packet offset mac.a mac.b) (offset + 2) mac.c mac.d) (offset + 4)
    mac.e mac.f

def rewriteEthernetDestination (packet : Bytes) (mac : Mac) : Except PacketError Bytes := do
  let _ ← parsePacketBytes packet
  requireBytes packet.length 0 6
  pure (writeMac packet 0 mac)

def rewriteEthernetSource (packet : Bytes) (mac : Mac) : Except PacketError Bytes := do
  let _ ← parsePacketBytes packet
  requireBytes packet.length 6 6
  pure (writeMac packet 6 mac)

def transportLen (packet : Bytes) (view : PacketView) : Nat :=
  match view.transport with
  | .tcp => view.packetEnd - view.transportOffset
  | .udp => wordAt packet (view.transportOffset + 4)

def protocolNumber : TransportProtocol → UInt8
  | .tcp => 6
  | .udp => 17

def pseudoHeader (packet : Bytes) (view : PacketView) : List Nat :=
  [wordAt packet (view.ipv4Offset + 12), wordAt packet (view.ipv4Offset + 14),
    wordAt packet (view.ipv4Offset + 16), wordAt packet (view.ipv4Offset + 18),
    (protocolNumber view.transport).toNat, transportLen packet view]

def headerWords (packet : Bytes) (view : PacketView) : List Nat :=
  words (slice packet view.ipv4Offset view.ipv4HeaderLen)

def transportWords (packet : Bytes) (view : PacketView) : List Nat :=
  pseudoHeader packet view ++ words (slice packet view.transportOffset (transportLen packet view))

def noChecksum (packet : Bytes) (view : PacketView) : Prop :=
  view.transport = .udp ∧ wordAt packet (transportChecksumOffset view) = 0

def ChecksumsValid (packet : Bytes) (view : PacketView) : Prop :=
  onesSum (headerWords packet view) = 65535 ∧
    (noChecksum packet view ∨ onesSum (transportWords packet view) = 65535)

/-- The bytes that translating may change: MAC addresses, IPv4 addresses and checksum, ports and
transport checksum. -/
def Rewritable (view : PacketView) (i : Nat) : Prop :=
  i < 12 ∨ view.ipv4Offset + 10 ≤ i ∧ i < view.ipv4Offset + 20 ∨
    view.transportOffset ≤ i ∧ i < view.transportOffset + 4 ∨
    transportChecksumOffset view ≤ i ∧ i < transportChecksumOffset view + 2

structure Keeps (view : PacketView) (packet packet' : Bytes) : Prop where
  length : packet'.length = packet.length
  outside : ∀ i, ¬Rewritable view i → byteAt packet' i = byteAt packet i
  header : (headerWords packet' view).sum % 65535 = (headerWords packet view).sum % 65535
  transport : ¬noChecksum packet view →
    (transportWords packet' view).sum % 65535 = (transportWords packet view).sum % 65535
  none : noChecksum packet' view ↔ noChecksum packet view

theorem Keeps.refl (view : PacketView) (packet : Bytes) : Keeps view packet packet :=
  ⟨rfl, fun _ _ => rfl, rfl, fun _ => rfl, Iff.rfl⟩

theorem Keeps.trans {view : PacketView} {a b c : Bytes} (h : Keeps view a b) (h' : Keeps view b c) :
    Keeps view a c where
  length := h'.length.trans h.length
  outside := fun i hi => (h'.outside i hi).trans (h.outside i hi)
  header := h'.header.trans h.header
  transport := fun hnone => (h'.transport (h.none.not.mpr hnone)).trans (h.transport hnone)
  none := h'.none.trans h.none

section Writing
variable {packet packet' : Bytes} {view : PacketView}

theorem updateChecksumWord_le (checksum old new : Nat) :
    updateChecksumWord checksum old new ≤ 65535 := Nat.sub_le ..

theorem updateChecksumWord_mod {checksum old new : Nat} (hc : checksum ≤ 65535) (ho : old ≤ 65535)
    (hn : new ≤ 65535) :
    (updateChecksumWord checksum old new + new) % 65535 = (checksum + old) % 65535 := by
  unfold updateChecksumWord
  dsimp only
  generalize hs : (65535 - checksum) + (65535 - old) + new = s
  have hsum : s + checksum + old = 131070 + new := by omega
  generalize hs₁ : s % 65536 + s / 65536 = s₁
  have h₁ : s₁ + 65535 * (s / 65536) = s := by omega
  have hle : s₁ ≤ 65537 := by omega
  generalize hs₂ : s₁ % 65536 + s₁ / 65536 = s₂
  have h₂ : s₂ + 65535 * (s₁ / 65536) = s₁ := by omega
  have hle₂ : s₂ ≤ 65535 := by omega
  rw [Nat.mod_eq_of_lt (by omega : s₂ < 65536)]
  omega

theorem Ipv4.high_le (address : Ipv4) : address.high ≤ 65535 := by
  have ha := address.a.toNat_lt
  have hb := address.b.toNat_lt
  unfold Ipv4.high
  omega

theorem Ipv4.low_le (address : Ipv4) : address.low ≤ 65535 := by
  have hc := address.c.toNat_lt
  have hd := address.d.toNat_lt
  unfold Ipv4.low
  omega

theorem updateIpv4Checksum_mod {checksum : Nat} (hc : checksum ≤ 65535) (old new : Ipv4) :
    (updateIpv4Checksum checksum old new + new.high + new.low) % 65535 =
      (checksum + old.high + old.low) % 65535 := by
  have h₁ := updateChecksumWord_mod hc old.high_le new.high_le
  have h₂ := updateChecksumWord_mod (updateChecksumWord_le checksum old.high new.high) old.low_le
    new.low_le
  unfold updateIpv4Checksum
  omega

theorem wordAt_le (packet : Bytes) (i : Nat) : wordAt packet i ≤ 65535 := by
  have h₁ := (packet.getD i 0).toNat_lt
  have h₂ := (packet.getD (i + 1) 0).toNat_lt
  unfold wordAt
  omega

theorem normalizeUdpChecksum_mod (protocol : TransportProtocol) (checksum : Nat) :
    normalizeUdpChecksum protocol checksum % 65535 = checksum % 65535 := by
  unfold normalizeUdpChecksum
  split_ifs with h
  · rw [h.2]
  · rfl

variable {protocol : TransportProtocol}

theorem normalizeUdpChecksum_le {checksum : Nat}
    (h : checksum ≤ 65535) : normalizeUdpChecksum protocol checksum ≤ 65535 := by
  unfold normalizeUdpChecksum
  split_ifs
  · exact le_rfl
  · exact h

theorem renewChecksum_le {old updated : Nat}
    (h : updated ≤ 65535) : renewChecksum protocol old updated ≤ 65535 := by
  unfold renewChecksum
  split_ifs
  · exact Nat.zero_le _
  · exact normalizeUdpChecksum_le h

theorem renewChecksum_eq_zero {old updated : Nat} : renewChecksum .udp old updated = 0 ↔ old = 0 := by
  unfold renewChecksum normalizeUdpChecksum
  by_cases hold : old = 0
  · simp [hold]
  · by_cases hupdated : updated = 0 <;> simp [hold, hupdated]

theorem value_putWord {value : Nat} (h : value ≤ 65535) :
    256 * (UInt8.ofNat (value / 256)).toNat + (UInt8.ofNat value).toNat = value := by
  simp only [UInt8.toNat_ofNat']
  omega

variable {i : Nat}

theorem byteAt_writeWord (hi : i + 1 < packet.length) (a b : UInt8) {j : Nat}
    (h₁ : j ≠ i) (h₂ : j ≠ i + 1) : byteAt (writeWord packet i a b) j = byteAt packet j := by
  rw [byteAt, getD_writeWord hi, if_neg h₁, if_neg h₂]
  rfl

theorem wordAt_putWord_self {i value : Nat} (hi : i + 1 < packet.length) (h : value ≤ 65535) :
    wordAt (putWord packet i value) i = value := by
  rw [putWord, wordAt_writeWord_self hi, value_putWord h]

@[simp] theorem length_putWord (packet : Bytes) (i value : Nat) :
    (putWord packet i value).length = packet.length := length_writeWord ..

theorem Keeps.wordAt (h : Keeps view packet packet') (h₁ : ¬Rewritable view i)
    (h₂ : ¬Rewritable view (i + 1)) : wordAt packet' i = wordAt packet i :=
  congrArg₂ (fun a b : UInt8 => 256 * a.toNat + b.toNat) (h.outside i h₁) (h.outside (i + 1) h₂)

theorem WellFormed.checksum_lies (h : WellFormed packet view) :
    34 ≤ view.transportOffset ∧ view.transportOffset + 6 ≤ transportChecksumOffset view ∧
      (transportChecksumOffset view - view.transportOffset) % 2 = 0 ∧
      transportChecksumOffset view + 1 < view.transportOffset + transportLen packet view ∧
      view.transportOffset + transportLen packet view ≤ packet.length := by
  have hheader := h.header
  have hoffset := h.transportOffset
  have hfits := h.fits
  have htransport := h.transport
  unfold TransportFits at htransport
  unfold transportChecksumOffset transportLen
  cases hview : view.transport with
  | tcp =>
    simp only [hview] at htransport ⊢
    omega
  | udp =>
    simp only [hview] at htransport ⊢
    omega

theorem WellFormed.keeps (h : WellFormed packet view) (hk : Keeps view packet packet') :
    WellFormed packet' view := by
  have hoffset := h.offset
  have hheader := h.header
  have htransportOffset := h.transportOffset
  have hlow : ∀ i, 12 ≤ i → i < 24 → ¬Rewritable view i := by
    intro i h₁ h₂
    have hlies := h.checksum_lies
    unfold Rewritable
    omega
  have hbyte : ∀ i, 12 ≤ i → i < 24 → byteAt packet' i = byteAt packet i :=
    fun i h₁ h₂ => hk.outside i (hlow i h₁ h₂)
  have hword : ∀ i, 12 ≤ i → i < 23 → wordAt packet' i = wordAt packet i :=
    fun i h₁ h₂ => hk.wordAt (hlow i h₁ (by omega)) (hlow (i + 1) (by omega) (by omega))
  have htransport := h.transport
  refine ⟨?_, ?_, hoffset, ?_, hheader, ?_, ?_, ?_, ?_, htransportOffset, ?_⟩
  · rw [hword 12 le_rfl (by omega), h.etherType]
  · rw [hbyte 14 (by omega) (by omega), h.version]
  · rw [hbyte 14 (by omega) (by omega), h.headerLen]
  · rw [hword 16 (by omega) (by omega)]
    exact h.total
  · rw [hword 16 (by omega) (by omega), h.packetEnd]
  · rw [hk.length]
    exact h.fits
  · rw [hword 20 (by omega) (by omega), h.whole]
  · unfold TransportFits at htransport ⊢
    cases hview : view.transport with
    | tcp =>
      have hflags : ¬Rewritable view (view.transportOffset + 12) := by
        simp only [Rewritable, transportChecksumOffset, hview]
        omega
      simp only [hview] at htransport
      simp only [hk.outside _ hflags, hbyte 23 (by omega) (by omega)]
      exact htransport
    | udp =>
      have hlen : ∀ j, 4 ≤ j → j < 6 → ¬Rewritable view (view.transportOffset + j) := by
        intro j h₁ h₂
        simp only [Rewritable, transportChecksumOffset, hview]
        omega
      simp only [hview] at htransport
      simp only [hk.wordAt (hlen 4 le_rfl (by omega)) (hlen 5 (by omega) (by omega)),
        hbyte 23 (by omega) (by omega)]
      exact htransport

def withAddress (packet : Bytes) (view : PacketView) (offset : Nat) (new : Ipv4) : Bytes :=
  let old := addressAt packet offset
  let checksum := wordAt packet (transportChecksumOffset view)
  putWord (putWord (writeAddress packet offset new) 24 (updateIpv4Checksum (wordAt packet 24) old new))
    (transportChecksumOffset view)
    (renewChecksum view.transport checksum (updateIpv4Checksum checksum old new))

theorem writeU16_of {i value : Nat} (h : i + 1 < packet.length) :
    writeU16 packet i value = .ok (putWord packet i value) := if_pos h

@[simp] theorem length_writeAddress (packet : Bytes) (i : Nat) (address : Ipv4) :
    (writeAddress packet i address).length = packet.length := by
  simp [writeAddress]

variable {offset : Nat}

theorem rewriteIpv4Address_eq (h : WellFormed packet view)
    (hoffset : offset = 12 ∨ offset = 16) (new : Ipv4) :
    rewriteIpv4Address packet offset new = .ok (withAddress packet view (14 + offset) new) := by
  have hlen := h.length_le
  have hlies := h.checksum_lies
  unfold rewriteIpv4Address
  rw [h.parse]
  change (do
    requireBytes packet.length (view.ipv4Offset + offset) 4
    let oldIpv4Checksum ← readU16 packet (view.ipv4Offset + 10)
    let oldTransportChecksum ← readU16 packet (transportChecksumOffset view)
    let packet₁ ← writeU16 (writeAddress packet (view.ipv4Offset + offset) new)
      (view.ipv4Offset + 10)
      (updateIpv4Checksum oldIpv4Checksum (addressAt packet (view.ipv4Offset + offset)) new)
    writeU16 packet₁ (transportChecksumOffset view)
      (renewChecksum view.transport oldTransportChecksum
        (updateIpv4Checksum oldTransportChecksum (addressAt packet (view.ipv4Offset + offset)) new)))
    = _
  rw [h.offset, requireBytes_of (by omega), readU16_of (by omega), readU16_of (by omega),
    writeU16_of (by rw [length_writeAddress]; omega)]
  exact writeU16_of (by rw [length_putWord, length_writeAddress]; omega)

theorem byteAt_withAddress (h : WellFormed packet view)
    (hoffset : offset = 12 ∨ offset = 16) (new : Ipv4)
    (h₁ : i < 14 + offset ∨ 18 + offset ≤ i) (h₂ : i ≠ 24 ∧ i ≠ 25)
    (h₃ : i < transportChecksumOffset view ∨ transportChecksumOffset view + 2 ≤ i) :
    byteAt (withAddress packet view (14 + offset) new) i = byteAt packet i := by
  have hlen := h.length_le
  have hlies := h.checksum_lies
  simp only [withAddress, putWord, writeAddress]
  rw [byteAt_writeWord (by simp only [length_writeWord]; omega) _ _ (by omega) (by omega),
    byteAt_writeWord (by simp only [length_writeWord]; omega) _ _ (by omega) (by omega),
    byteAt_writeWord (by simp only [length_writeWord]; omega) _ _ (by omega) (by omega),
    byteAt_writeWord (by omega) _ _ (by omega) (by omega)]

theorem addressAt_high (packet : Bytes) (i : Nat) : (addressAt packet i).high = wordAt packet i :=
  rfl

theorem addressAt_low (packet : Bytes) (i : Nat) :
    (addressAt packet i).low = wordAt packet (i + 2) := rfl

theorem wordAt_putWord_of_ne {i j value : Nat} (hi : i + 1 < packet.length)
    (h : j + 1 < i ∨ i + 1 < j) : wordAt (putWord packet i value) j = wordAt packet j :=
  wordAt_writeWord_of_ne hi _ _ h

theorem sum_slice_putWord (packet : Bytes) (base n i : Nat) {value : Nat} (hbase : base ≤ i)
    (heven : (i - base) % 2 = 0) (hn : i + 1 < base + n) (hlen : base + n ≤ packet.length) (hvalue : value ≤ 65535) :
    (words (slice (putWord packet i value) base n)).sum + wordAt packet i =
      (words (slice packet base n)).sum + value := by
  have h := sum_slice_writeWord packet hbase heven hn hlen (UInt8.ofNat (value / 256))
    (UInt8.ofNat value)
  rw [value_putWord hvalue] at h
  exact h

theorem sum_slice_writeAddress (packet : Bytes) (base n i : Nat) (hbase : base ≤ i)
    (heven : (i - base) % 2 = 0) (hn : i + 3 < base + n) (hlen : base + n ≤ packet.length) (new : Ipv4) :
    (words (slice (writeAddress packet i new) base n)).sum + wordAt packet i +
        wordAt packet (i + 2) =
      (words (slice packet base n)).sum + new.high + new.low := by
  have h₁ := sum_slice_writeWord packet hbase heven (by omega : i + 1 < base + n) hlen
    new.a new.b
  have h₂ := sum_slice_writeWord (writeWord packet i new.a new.b) (by omega : base ≤ i + 2)
    (by omega) (by omega : i + 2 + 1 < base + n) (by simpa using hlen) new.c new.d
  rw [wordAt_writeWord_of_ne (by omega) _ _ (by omega)] at h₂
  unfold writeAddress Ipv4.high Ipv4.low
  omega

theorem slice_writeAddress_outside {base n i : Nat} (h : i + 3 < base) (new : Ipv4) :
    slice (writeAddress packet i new) base n = slice packet base n := by
  rw [writeAddress, slice_writeWord_outside (by omega), slice_writeWord_outside (by omega)]

theorem wordAt_writeAddress_of_ne {i j : Nat} (hi : i + 3 < packet.length) (new : Ipv4)
    (h : j + 1 < i ∨ i + 3 < j) : wordAt (writeAddress packet i new) j = wordAt packet j := by
  rw [writeAddress, wordAt_writeWord_of_ne (by simp only [length_writeWord]; omega) _ _ (by omega),
    wordAt_writeWord_of_ne (by omega) _ _ (by omega)]

theorem wordAt_writeAddress_high (hi : i + 3 < packet.length) (new : Ipv4) :
    wordAt (writeAddress packet i new) i = new.high := by
  rw [writeAddress, wordAt_writeWord_of_ne (by simp only [length_writeWord]; omega) _ _ (by omega),
    wordAt_writeWord_self (by omega)]
  rfl

theorem wordAt_writeAddress_low (hi : i + 3 < packet.length) (new : Ipv4) :
    wordAt (writeAddress packet i new) (i + 2) = new.low := by
  rw [writeAddress, wordAt_writeWord_self (by simp only [length_writeWord]; omega)]
  rfl

theorem updateIpv4Checksum_le (checksum : Nat) (old new : Ipv4) :
    updateIpv4Checksum checksum old new ≤ 65535 := updateChecksumWord_le ..

theorem wordAt_withAddress (h : WellFormed packet view)
    (hoffset : offset = 12 ∨ offset = 16) (new : Ipv4) {j : Nat}
    (h₁ : j + 1 < 14 + offset ∨ 17 + offset < j) (h₂ : j + 1 < 24 ∨ 25 < j)
    (h₃ : j + 1 < transportChecksumOffset view ∨ transportChecksumOffset view + 1 < j) :
    wordAt (withAddress packet view (14 + offset) new) j = wordAt packet j := by
  have hlen := h.length_le
  have hlies := h.checksum_lies
  rw [withAddress, wordAt_putWord_of_ne (by simp only [length_putWord, length_writeAddress]; omega) h₃,
    wordAt_putWord_of_ne (by simp only [length_writeAddress]; omega) h₂,
    wordAt_writeAddress_of_ne (by omega) _ (by omega)]

theorem header_withAddress (h : WellFormed packet view)
    (hoffset : offset = 12 ∨ offset = 16) (new : Ipv4) :
    (headerWords (withAddress packet view (14 + offset) new) view).sum % 65535 =
      (headerWords packet view).sum % 65535 := by
  have hlen := h.length_le
  have hlies := h.checksum_lies
  have hheader := h.header
  have htransport := h.transportOffset
  have hmod := updateIpv4Checksum_mod (wordAt_le packet 24) (addressAt packet (14 + offset)) new
  rw [addressAt_high, addressAt_low] at hmod
  have haddress := sum_slice_writeAddress packet 14 view.ipv4HeaderLen (14 + offset) (by omega) (by omega) (by omega) (by omega) new
  have hchecksum := sum_slice_putWord (writeAddress packet (14 + offset) new) 14
    view.ipv4HeaderLen 24 (by omega) (by omega) (by omega)
    (by rw [length_writeAddress]; omega)
    (updateIpv4Checksum_le (wordAt packet 24) (addressAt packet (14 + offset)) new)
  rw [wordAt_writeAddress_of_ne (by omega) _ (by omega)] at hchecksum
  unfold headerWords withAddress
  rw [h.offset, putWord, slice_writeWord_outside (by omega)]
  omega

theorem renewChecksum_mod {old : Nat}
    (h : ¬(protocol = .udp ∧ old = 0)) (updated : Nat) :
    renewChecksum protocol old updated % 65535 = updated % 65535 := by
  rw [renewChecksum, if_neg h, normalizeUdpChecksum_mod]

theorem transportLen_withAddress (h : WellFormed packet view)
    (hoffset : offset = 12 ∨ offset = 16) (new : Ipv4) :
    transportLen (withAddress packet view (14 + offset) new) view = transportLen packet view := by
  have hlies := h.checksum_lies
  unfold transportLen
  cases hview : view.transport with
  | tcp => rfl
  | udp =>
    have hchecksum : transportChecksumOffset view = view.transportOffset + 6 := by
      simp only [transportChecksumOffset, hview]
    exact wordAt_withAddress h hoffset new (by omega) (by omega) (by omega)

theorem wordAt_withAddress_high (h : WellFormed packet view)
    (hoffset : offset = 12 ∨ offset = 16) (new : Ipv4) :
    wordAt (withAddress packet view (14 + offset) new) (14 + offset) = new.high := by
  have hlen := h.length_le
  have hlies := h.checksum_lies
  rw [withAddress,
    wordAt_putWord_of_ne (by simp only [length_putWord, length_writeAddress]; omega) (by omega),
    wordAt_putWord_of_ne (by simp only [length_writeAddress]; omega) (by omega),
    wordAt_writeAddress_high (by omega)]

theorem wordAt_withAddress_low (h : WellFormed packet view)
    (hoffset : offset = 12 ∨ offset = 16) (new : Ipv4) :
    wordAt (withAddress packet view (14 + offset) new) (14 + offset + 2) = new.low := by
  have hlen := h.length_le
  have hlies := h.checksum_lies
  rw [withAddress,
    wordAt_putWord_of_ne (by simp only [length_putWord, length_writeAddress]; omega) (by omega),
    wordAt_putWord_of_ne (by simp only [length_writeAddress]; omega) (by omega),
    wordAt_writeAddress_low (by omega)]

theorem pseudo_withAddress (h : WellFormed packet view)
    (hoffset : offset = 12 ∨ offset = 16) (new : Ipv4) :
    (pseudoHeader (withAddress packet view (14 + offset) new) view).sum +
        wordAt packet (14 + offset) + wordAt packet (14 + offset + 2) =
      (pseudoHeader packet view).sum + new.high + new.low := by
  have hlen := h.length_le
  have hlies := h.checksum_lies
  have hhigh := wordAt_withAddress_high h hoffset new
  have hlow := wordAt_withAddress_low h hoffset new
  simp only [pseudoHeader, transportLen_withAddress h hoffset new, h.offset, List.sum_cons,
    List.sum_nil]
  rcases hoffset with rfl | rfl
  · have h₁ := wordAt_withAddress h (.inl rfl) new (j := 30) (by omega) (by omega) (by omega)
    have h₂ := wordAt_withAddress h (.inl rfl) new (j := 32) (by omega) (by omega) (by omega)
    simp only [Nat.reduceAdd] at h₁ h₂ hhigh hlow ⊢
    omega
  · have h₁ := wordAt_withAddress h (.inr rfl) new (j := 26) (by omega) (by omega) (by omega)
    have h₂ := wordAt_withAddress h (.inr rfl) new (j := 28) (by omega) (by omega) (by omega)
    simp only [Nat.reduceAdd] at h₁ h₂ hhigh hlow ⊢
    omega

theorem transport_withAddress (h : WellFormed packet view)
    (hoffset : offset = 12 ∨ offset = 16) (new : Ipv4) (hnone : ¬noChecksum packet view) :
    (transportWords (withAddress packet view (14 + offset) new) view).sum % 65535 =
      (transportWords packet view).sum % 65535 := by
  have hlen := h.length_le
  have hlies := h.checksum_lies
  have hpseudo := pseudo_withAddress h hoffset new
  have hmod := updateIpv4Checksum_mod (wordAt_le packet (transportChecksumOffset view))
    (addressAt packet (14 + offset)) new
  rw [addressAt_high, addressAt_low] at hmod
  have hrenew := renewChecksum_mod hnone (updateIpv4Checksum
    (wordAt packet (transportChecksumOffset view)) (addressAt packet (14 + offset)) new)
  have hbody : (words (slice (withAddress packet view (14 + offset) new) view.transportOffset
        (transportLen packet view))).sum + wordAt packet (transportChecksumOffset view) =
      (words (slice packet view.transportOffset (transportLen packet view))).sum +
        renewChecksum view.transport (wordAt packet (transportChecksumOffset view))
          (updateIpv4Checksum (wordAt packet (transportChecksumOffset view))
            (addressAt packet (14 + offset)) new) := by
    have hsum := sum_slice_putWord
      (putWord (writeAddress packet (14 + offset) new) 24
        (updateIpv4Checksum (wordAt packet 24) (addressAt packet (14 + offset)) new))
      view.transportOffset (transportLen packet view) (transportChecksumOffset view) (by omega)
      hlies.2.2.1 (by omega) (by rw [length_putWord, length_writeAddress]; omega)
      (renewChecksum_le (updateIpv4Checksum_le (wordAt packet (transportChecksumOffset view))
        (addressAt packet (14 + offset)) new) :
        renewChecksum view.transport (wordAt packet (transportChecksumOffset view)) _ ≤ 65535)
    rw [wordAt_putWord_of_ne (by rw [length_writeAddress]; omega) (by omega),
      wordAt_writeAddress_of_ne (by omega) _ (by omega)] at hsum
    have hslice : slice (putWord (writeAddress packet (14 + offset) new) 24
        (updateIpv4Checksum (wordAt packet 24) (addressAt packet (14 + offset)) new))
        view.transportOffset (transportLen packet view) =
        slice packet view.transportOffset (transportLen packet view) := by
      rw [putWord, slice_writeWord_outside (by omega), slice_writeAddress_outside (by omega)]
    rw [hslice] at hsum
    exact hsum
  simp only [transportWords, List.sum_append, transportLen_withAddress h hoffset new]
  omega

theorem length_withAddress (packet : Bytes) (view : PacketView) (i : Nat) (new : Ipv4) :
    (withAddress packet view i new).length = packet.length := by
  simp [withAddress]

theorem noChecksum_renewed (updated : Nat)
    (h : wordAt packet' (transportChecksumOffset view) =
      renewChecksum view.transport (wordAt packet (transportChecksumOffset view)) updated) :
    noChecksum packet' view ↔ noChecksum packet view := by
  unfold noChecksum
  rw [h]
  constructor
  · rintro ⟨hudp, hzero⟩
    rw [hudp] at hzero
    exact ⟨hudp, renewChecksum_eq_zero.mp hzero⟩
  · rintro ⟨hudp, hzero⟩
    rw [hudp]
    exact ⟨rfl, renewChecksum_eq_zero.mpr hzero⟩

theorem keeps_withAddress (h : WellFormed packet view)
    (hoffset : offset = 12 ∨ offset = 16) (new : Ipv4) :
    Keeps view packet (withAddress packet view (14 + offset) new) := by
  have hlen := h.length_le
  have hlies := h.checksum_lies
  refine ⟨length_withAddress .., ?_, header_withAddress h hoffset new,
    transport_withAddress h hoffset new, noChecksum_renewed
      (updateIpv4Checksum (wordAt packet (transportChecksumOffset view))
        (addressAt packet (14 + offset)) new) ?_⟩
  · intro i hi
    simp only [Rewritable, h.offset, not_or, not_and, not_lt] at hi
    exact byteAt_withAddress h hoffset new (by omega) (by omega) (by omega)
  · rw [withAddress, wordAt_putWord_self (by simp only [length_putWord, length_writeAddress]; omega)]
    exact renewChecksum_le (updateIpv4Checksum_le ..)

def withPort (packet : Bytes) (view : PacketView) (field : PortField) (port : UInt16) : Bytes :=
  let offset := view.transportOffset + field.offset
  let checksum := wordAt packet (transportChecksumOffset view)
  putWord (putWord packet offset port.toNat) (transportChecksumOffset view)
    (renewChecksum view.transport checksum
      (updateChecksumWord checksum (wordAt packet offset) port.toNat))

theorem PortField.offset_cases (field : PortField) : field.offset = 0 ∨ field.offset = 2 := by
  cases field with
  | source => exact .inl rfl
  | destination => exact .inr rfl

theorem toNat_le (port : UInt16) : port.toNat ≤ 65535 := Nat.le_of_lt_succ port.toNat_lt

section
variable (h : WellFormed packet view)
include h

theorem rewriteTransportPort_eq (field : PortField) (port : UInt16) :
    rewriteTransportPort packet field port = .ok (withPort packet view field port) := by
  have hlies := h.checksum_lies
  have hfield := field.offset_cases
  unfold rewriteTransportPort
  rw [h.parse]
  change (do
    let oldPort ← readU16 packet (view.transportOffset + field.offset)
    let oldChecksum ← readU16 packet (transportChecksumOffset view)
    let packet₁ ← writeU16 packet (view.transportOffset + field.offset) port.toNat
    writeU16 packet₁ (transportChecksumOffset view)
      (renewChecksum view.transport oldChecksum
        (updateChecksumWord oldChecksum oldPort port.toNat))) = _
  rw [readU16_of (by omega), readU16_of (by omega), writeU16_of (by omega)]
  exact writeU16_of (by rw [length_putWord]; omega)

theorem byteAt_withPort (field : PortField) (port : UInt16)
    (h₁ : i < view.transportOffset + field.offset ∨ view.transportOffset + field.offset + 2 ≤ i)
    (h₂ : i < transportChecksumOffset view ∨ transportChecksumOffset view + 2 ≤ i) :
    byteAt (withPort packet view field port) i = byteAt packet i := by
  have hlies := h.checksum_lies
  have hfield := field.offset_cases
  simp only [withPort, putWord]
  rw [byteAt_writeWord (by simp only [length_writeWord]; omega) _ _ (by omega) (by omega),
    byteAt_writeWord (by omega) _ _ (by omega) (by omega)]

theorem transportLen_withPort (field : PortField) (port : UInt16) :
    transportLen (withPort packet view field port) view = transportLen packet view := by
  have hlies := h.checksum_lies
  have hfield := field.offset_cases
  unfold transportLen
  cases hview : view.transport with
  | tcp => rfl
  | udp =>
    have hchecksum : transportChecksumOffset view = view.transportOffset + 6 := by
      simp only [transportChecksumOffset, hview]
    simp only [withPort]
    rw [wordAt_putWord_of_ne (by rw [length_putWord]; omega) (by omega),
      wordAt_putWord_of_ne (by omega) (by omega)]

theorem transport_withPort (field : PortField) (port : UInt16)
    (hnone : ¬noChecksum packet view) :
    (transportWords (withPort packet view field port) view).sum % 65535 =
      (transportWords packet view).sum % 65535 := by
  have hlies := h.checksum_lies
  have hfield := field.offset_cases
  have hoffset := h.offset
  have hmod := updateChecksumWord_mod (wordAt_le packet (transportChecksumOffset view))
    (wordAt_le packet (view.transportOffset + field.offset)) (toNat_le port)
  have hrenew := renewChecksum_mod hnone (updateChecksumWord
    (wordAt packet (transportChecksumOffset view))
    (wordAt packet (view.transportOffset + field.offset)) port.toNat)
  have hpseudo : pseudoHeader (withPort packet view field port) view = pseudoHeader packet view := by
    have hword : ∀ j, j + 1 < view.transportOffset →
        wordAt (withPort packet view field port) j = wordAt packet j := by
      intro j hj
      rw [withPort, wordAt_putWord_of_ne (by rw [length_putWord]; omega) (by omega),
        wordAt_putWord_of_ne (by omega) (by omega)]
    simp only [pseudoHeader, transportLen_withPort h field port]
    rw [hword _ (by omega), hword _ (by omega), hword _ (by omega), hword _ (by omega)]
  have hport := sum_slice_putWord packet view.transportOffset (transportLen packet view)
    (view.transportOffset + field.offset) (by omega) (by omega) (by omega) (by omega)
    (toNat_le port)
  have hchecksum := sum_slice_putWord
    (putWord packet (view.transportOffset + field.offset) port.toNat) view.transportOffset
    (transportLen packet view) (transportChecksumOffset view) (by omega) (by omega) (by omega)
    (by rw [length_putWord]; omega)
    (renewChecksum_le (updateChecksumWord_le (wordAt packet (transportChecksumOffset view))
      (wordAt packet (view.transportOffset + field.offset)) port.toNat) :
      renewChecksum view.transport (wordAt packet (transportChecksumOffset view)) _ ≤ 65535)
  rw [wordAt_putWord_of_ne (by omega) (by omega)] at hchecksum
  change (words (slice (withPort packet view field port) view.transportOffset
    (transportLen packet view))).sum + _ = _ at hchecksum
  simp only [transportWords, List.sum_append, transportLen_withPort h field port, hpseudo]
  omega

theorem keeps_withPort (field : PortField) (port : UInt16) :
    Keeps view packet (withPort packet view field port) := by
  have hlies := h.checksum_lies
  have hfield := field.offset_cases
  have htransport := h.transportOffset
  refine ⟨by simp [withPort], ?_, ?_, transport_withPort h field port, noChecksum_renewed
    (updateChecksumWord (wordAt packet (transportChecksumOffset view))
      (wordAt packet (view.transportOffset + field.offset)) port.toNat) ?_⟩
  · intro i hi
    simp only [Rewritable, not_or, not_and, not_lt] at hi
    exact byteAt_withPort h field port (by omega) (by omega)
  · unfold headerWords withPort putWord
    rw [h.offset, slice_writeWord_outside (by omega), slice_writeWord_outside (by omega)]
  · rw [withPort, wordAt_putWord_self (by rw [length_putWord]; omega)]
    exact renewChecksum_le (updateChecksumWord_le ..)

theorem wordAt_writeMac
    (hoffset : offset = 0 ∨ offset = 6) (mac : Mac) {j : Nat} (hj : 12 ≤ j) :
    wordAt (writeMac packet offset mac) j = wordAt packet j := by
  have hlen := h.length_le
  rw [writeMac, wordAt_writeWord_of_ne (by simp only [length_writeWord]; omega) _ _ (by omega),
    wordAt_writeWord_of_ne (by simp only [length_writeWord]; omega) _ _ (by omega),
    wordAt_writeWord_of_ne (by omega) _ _ (by omega)]

theorem keeps_writeMac
    (hoffset : offset = 0 ∨ offset = 6) (mac : Mac) :
    Keeps view packet (writeMac packet offset mac) := by
  have hlen := h.length_le
  have hlies := h.checksum_lies
  have hheader := h.header
  have hword : ∀ j, 12 ≤ j → wordAt (writeMac packet offset mac) j = wordAt packet j :=
    fun j hj => wordAt_writeMac h hoffset mac hj
  have hslice : ∀ base n, 12 ≤ base →
      slice (writeMac packet offset mac) base n = slice packet base n := by
    intro base n hbase
    rw [writeMac, slice_writeWord_outside (by omega), slice_writeWord_outside (by omega),
      slice_writeWord_outside (by omega)]
  have htransportLen : transportLen (writeMac packet offset mac) view = transportLen packet view := by
    unfold transportLen
    rw [hword _ (by omega)]
  refine ⟨by simp [writeMac], ?_, ?_, fun _ => ?_, ?_⟩
  · intro i hi
    simp only [Rewritable, not_or, not_lt] at hi
    rw [writeMac, byteAt_writeWord (by simp only [length_writeWord]; omega) _ _ (by omega) (by omega),
      byteAt_writeWord (by simp only [length_writeWord]; omega) _ _ (by omega) (by omega),
      byteAt_writeWord (by omega) _ _ (by omega) (by omega)]
  · rw [headerWords, hslice _ _ (by rw [h.offset]; omega), headerWords]
  · have hpseudo : pseudoHeader (writeMac packet offset mac) view = pseudoHeader packet view := by
      simp only [pseudoHeader, htransportLen, h.offset]
      rw [hword _ (by omega), hword _ (by omega), hword _ (by omega), hword _ (by omega)]
    rw [transportWords, hpseudo, htransportLen, hslice _ _ (by omega), transportWords]
  · unfold noChecksum
    rw [hword _ (by omega)]

theorem WellFormed.header_pos : 0 < (headerWords packet view).sum := by
  have hlen := h.length_le
  have hheader := h.header
  have hlies := h.checksum_lies
  have htransport := h.transportOffset
  have hversion := h.version
  have hfirst : wordAt (slice packet 14 view.ipv4HeaderLen) 0 ≤
      (words (slice packet 14 view.ipv4HeaderLen)).sum := by
    apply wordAt_le_sum rfl
    simp only [slice, List.length_take, List.length_drop]
    omega
  rw [wordAt_slice (by omega)] at hfirst
  change 256 * (byteAt packet 14).toNat + (byteAt packet 15).toNat ≤ _ at hfirst
  rw [headerWords, h.offset]
  omega

theorem WellFormed.transportWords_le :
    ∀ w ∈ transportWords packet view, w ≤ 65535 := by
  have htransportOffset := h.transportOffset
  have hpacketEnd := h.packetEnd
  have htotal := wordAt_le packet 16
  have hlen : transportLen packet view ≤ 65535 := by
    unfold transportLen
    cases view.transport with
    | tcp =>
      dsimp only
      omega
    | udp => exact wordAt_le ..
  intro w hw
  rcases List.mem_append.mp hw with hw | hw
  · simp only [pseudoHeader, List.mem_cons, List.not_mem_nil, or_false] at hw
    rcases hw with rfl | rfl | rfl | rfl | rfl | rfl
    · exact wordAt_le ..
    · exact wordAt_le ..
    · exact wordAt_le ..
    · exact wordAt_le ..
    · have hprotocol := (protocolNumber view.transport).toNat_lt
      omega
    · exact hlen
  · exact words_le _ w hw

end

theorem transportWords_pos (packet : Bytes) (view : PacketView) :
    0 < (transportWords packet view).sum := by
  have hprotocol : 0 < (protocolNumber view.transport).toNat := by
    cases view.transport with
    | tcp => decide
    | udp => decide
  simp only [transportWords, pseudoHeader, List.sum_append, List.sum_cons]
  omega

theorem Keeps.checksumsValid (hk : Keeps view packet packet') (h : WellFormed packet view)
    (hvalid : ChecksumsValid packet view) : ChecksumsValid packet' view := by
  have h' := h.keeps hk
  refine ⟨?_, ?_⟩
  · have hheader := (onesSum_eq_iff (words_le _)).mp hvalid.1
    exact (onesSum_eq_iff (words_le _)).mpr ⟨hk.header.trans hheader.1, h'.header_pos⟩
  · by_cases hnone : noChecksum packet view
    · exact .inl (hk.none.mpr hnone)
    · have htransport :=
        (onesSum_eq_iff h.transportWords_le).mp (hvalid.2.resolve_left hnone)
      exact .inr ((onesSum_eq_iff h'.transportWords_le).mpr
        ⟨(hk.transport hnone).trans htransport.1, transportWords_pos ..⟩)

end Writing

end Ferrocrate.Ebpf
