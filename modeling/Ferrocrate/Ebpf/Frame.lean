import Ferrocrate.Ebpf.Datapath
import Ferrocrate.Lib.Checksum
import Mathlib.Tactic.Common

/-! Ethernet frames: parsing them, and rewriting addresses and ports with their checksums. -/
namespace Ferrocrate.Ebpf
open Lib

inductive PacketError where
  | truncated
  | unsupportedNetwork
  | unsupportedTransport
  | invalidIpv4Header
  | invalidTransportHeader
  | fragmented
deriving DecidableEq

inductive TransportProtocol where
  | tcp
  | udp
deriving DecidableEq

inductive PortField where
  | source
  | destination

structure PacketView where
  ipv4Offset : Nat
  ipv4HeaderLen : Nat
  transportOffset : Nat
  transport : TransportProtocol
  packetEnd : Nat
deriving DecidableEq

def requireBytes (packetLen offset size : Nat) : Except PacketError Unit :=
  if offset + size ≤ packetLen then .ok () else .error .truncated

def rejectWhen (c : Prop) [Decidable c] (e : PacketError) : Except PacketError Unit :=
  if c then .error e else .ok ()

def byteAt (packet : Bytes) (offset : Nat) : UInt8 := packet.getD offset 0

def readByte (packet : Bytes) (offset : Nat) : Except PacketError Nat :=
  if offset < packet.length then .ok (byteAt packet offset).toNat else .error .truncated

def readU16 (packet : Bytes) (offset : Nat) : Except PacketError Nat :=
  if offset + 2 ≤ packet.length then .ok (wordAt packet offset) else .error .truncated

def ethernetHeaderLen : Nat := 14
def ipv4HeaderLen : Nat := 20
def tcpHeaderLen : Nat := 20
def udpHeaderLen : Nat := 8

def parseTransport (packet : Bytes) (packetEnd transportOffset protocol : Nat) :
    Except PacketError TransportProtocol :=
  if protocol = 6 then do
    requireBytes packetEnd transportOffset tcpHeaderLen
    let flags ← readByte packet (transportOffset + 12)
    rejectWhen (flags / 16 * 4 < tcpHeaderLen) .invalidTransportHeader
    requireBytes packetEnd transportOffset (flags / 16 * 4)
    pure .tcp
  else if protocol = 17 then do
    requireBytes packetEnd transportOffset udpHeaderLen
    let udpLen ← readU16 packet (transportOffset + 4)
    rejectWhen (udpLen < udpHeaderLen) .invalidTransportHeader
    requireBytes packetEnd transportOffset udpLen
    pure .udp
  else
    .error .unsupportedTransport

def parsePacketBytes (packet : Bytes) : Except PacketError PacketView := do
  requireBytes packet.length 0 (ethernetHeaderLen + ipv4HeaderLen)
  let etherType ← readU16 packet (ethernetHeaderLen - 2)
  rejectWhen (etherType ≠ 0x0800) .unsupportedNetwork
  requireBytes packet.length ethernetHeaderLen ipv4HeaderLen
  let versionIhl ← readByte packet ethernetHeaderLen
  rejectWhen (versionIhl / 16 ≠ 4) .invalidIpv4Header
  let headerLen := versionIhl % 16 * 4
  rejectWhen (headerLen < ipv4HeaderLen) .invalidIpv4Header
  requireBytes packet.length ethernetHeaderLen headerLen
  let totalLen ← readU16 packet (ethernetHeaderLen + 2)
  rejectWhen (totalLen < headerLen) .invalidIpv4Header
  requireBytes packet.length ethernetHeaderLen totalLen
  let fragments ← readU16 packet (ethernetHeaderLen + 6)
  rejectWhen (fragments % 0x4000 ≠ 0) .fragmented
  let protocol ← readByte packet (ethernetHeaderLen + 9)
  let transport ← parseTransport packet (ethernetHeaderLen + totalLen)
    (ethernetHeaderLen + headerLen) protocol
  pure
    { ipv4Offset := ethernetHeaderLen
      ipv4HeaderLen := headerLen
      transportOffset := ethernetHeaderLen + headerLen
      transport := transport
      packetEnd := ethernetHeaderLen + totalLen }

def TransportFits (packet : Bytes) (view : PacketView) : Prop :=
  match view.transport with
  | .tcp =>
    (byteAt packet 23).toNat = 6 ∧
      20 ≤ (byteAt packet (view.transportOffset + 12)).toNat / 16 * 4 ∧
      view.transportOffset + (byteAt packet (view.transportOffset + 12)).toNat / 16 * 4 ≤
        view.packetEnd
  | .udp =>
    (byteAt packet 23).toNat = 17 ∧ 8 ≤ wordAt packet (view.transportOffset + 4) ∧
      view.transportOffset + wordAt packet (view.transportOffset + 4) ≤ view.packetEnd

structure WellFormed (packet : Bytes) (view : PacketView) : Prop where
  etherType : wordAt packet 12 = 0x0800
  version : (byteAt packet 14).toNat / 16 = 4
  offset : view.ipv4Offset = 14
  headerLen : view.ipv4HeaderLen = (byteAt packet 14).toNat % 16 * 4
  header : 20 ≤ view.ipv4HeaderLen
  total : view.ipv4HeaderLen ≤ wordAt packet 16
  packetEnd : view.packetEnd = 14 + wordAt packet 16
  fits : view.packetEnd ≤ packet.length
  whole : wordAt packet 20 % 0x4000 = 0
  transportOffset : view.transportOffset = 14 + view.ipv4HeaderLen
  transport : TransportFits packet view

section Parsing
variable {packet : Bytes} {view : PacketView} {packetLen offset size : Nat}

theorem requireBytes_eq_ok {u : Unit} :
    requireBytes packetLen offset size = .ok u ↔ offset + size ≤ packetLen := by
  unfold requireBytes
  split_ifs with h
  · simp [h]
  · simp [h]

theorem rejectWhen_eq_ok {c : Prop} [Decidable c] {e : PacketError} {u : Unit} :
    rejectWhen c e = .ok u ↔ ¬c := by
  unfold rejectWhen
  split_ifs with h
  · simp [h]
  · simp [h]

theorem readByte_eq_ok {offset value : Nat} : readByte packet offset = .ok value ↔
    offset < packet.length ∧ (byteAt packet offset).toNat = value := by
  unfold readByte
  split_ifs with h
  · simp [h]
  · simp [h]

theorem readU16_eq_ok {offset value : Nat} : readU16 packet offset = .ok value ↔
    offset + 2 ≤ packet.length ∧ wordAt packet offset = value := by
  unfold readU16
  split_ifs with h
  · simp [h]
  · simp [h]

theorem parseTransport_eq_ok {packetEnd offset protocol : Nat} {transport : TransportProtocol}
    (h : parseTransport packet packetEnd offset protocol = .ok transport)
    (hprotocol : (byteAt packet 23).toNat = protocol) :
    TransportFits packet ⟨14, offset - 14, offset, transport, packetEnd⟩ := by
  unfold parseTransport at h
  split_ifs at h with htcp hudp
  · obtain ⟨_, -, h⟩ := Except.bind_eq_ok.mp h
    obtain ⟨flags, hflags, h⟩ := Except.bind_eq_ok.mp h
    obtain ⟨_, hheader, h⟩ := Except.bind_eq_ok.mp h
    obtain ⟨_, hfits, h⟩ := Except.bind_eq_ok.mp h
    cases h
    rw [readByte_eq_ok] at hflags
    rw [rejectWhen_eq_ok, tcpHeaderLen] at hheader
    rw [requireBytes_eq_ok] at hfits
    simp only [TransportFits, hflags.2]
    exact ⟨by omega, by omega, hfits⟩
  · obtain ⟨_, -, h⟩ := Except.bind_eq_ok.mp h
    obtain ⟨udpLen, hlen, h⟩ := Except.bind_eq_ok.mp h
    obtain ⟨_, hheader, h⟩ := Except.bind_eq_ok.mp h
    obtain ⟨_, hfits, h⟩ := Except.bind_eq_ok.mp h
    cases h
    rw [readU16_eq_ok] at hlen
    rw [rejectWhen_eq_ok, udpHeaderLen] at hheader
    rw [requireBytes_eq_ok] at hfits
    simp only [TransportFits, hlen.2]
    exact ⟨by omega, by omega, hfits⟩

theorem parsePacketBytes_eq_ok (h : parsePacketBytes packet = .ok view) :
    WellFormed packet view := by
  obtain ⟨_, -, h⟩ := Except.bind_eq_ok.mp h
  obtain ⟨etherType, hetherType, h⟩ := Except.bind_eq_ok.mp h
  obtain ⟨_, hipv4, h⟩ := Except.bind_eq_ok.mp h
  obtain ⟨_, -, h⟩ := Except.bind_eq_ok.mp h
  obtain ⟨versionIhl, hversionIhl, h⟩ := Except.bind_eq_ok.mp h
  obtain ⟨_, hversion, h⟩ := Except.bind_eq_ok.mp h
  obtain ⟨_, hheader, h⟩ := Except.bind_eq_ok.mp h
  obtain ⟨_, -, h⟩ := Except.bind_eq_ok.mp h
  obtain ⟨totalLen, htotalLen, h⟩ := Except.bind_eq_ok.mp h
  obtain ⟨_, htotal, h⟩ := Except.bind_eq_ok.mp h
  obtain ⟨_, hfits, h⟩ := Except.bind_eq_ok.mp h
  obtain ⟨fragments, hfragments, h⟩ := Except.bind_eq_ok.mp h
  obtain ⟨_, hwhole, h⟩ := Except.bind_eq_ok.mp h
  obtain ⟨protocol, hprotocol, h⟩ := Except.bind_eq_ok.mp h
  obtain ⟨transport, htransport, h⟩ := Except.bind_eq_ok.mp h
  cases h
  rw [readU16_eq_ok] at hetherType htotalLen hfragments
  rw [readByte_eq_ok] at hversionIhl hprotocol
  rw [rejectWhen_eq_ok] at hipv4 hversion hheader htotal hwhole
  rw [requireBytes_eq_ok] at hfits
  have hfit := parseTransport_eq_ok htransport hprotocol.2
  obtain ⟨-, rfl⟩ := hetherType
  obtain ⟨-, rfl⟩ := hversionIhl
  obtain ⟨-, rfl⟩ := htotalLen
  obtain ⟨-, rfl⟩ := hfragments
  exact ⟨not_not.mp hipv4, not_not.mp hversion, rfl, rfl, not_lt.mp hheader, not_lt.mp htotal, rfl,
    hfits, not_not.mp hwhole, rfl, hfit⟩

theorem WellFormed.length_le (h : WellFormed packet view) : 34 ≤ packet.length := by
  have h₁ := h.fits
  have h₂ := h.packetEnd
  have h₃ := h.total
  have h₄ := h.header
  omega

variable {α : Type}

theorem requireBytes_of {f : Unit → Except PacketError α}
    (h : offset + size ≤ packetLen) : (requireBytes packetLen offset size >>= f) = f () := by
  rw [requireBytes, if_pos h]
  rfl

theorem rejectWhen_of {c : Prop} [Decidable c] {e : PacketError}
    {f : Unit → Except PacketError α} (h : ¬c) : (rejectWhen c e >>= f) = f () := by
  rw [rejectWhen, if_neg h]
  rfl

theorem readByte_of {offset : Nat} {f : Nat → Except PacketError α}
    (h : offset < packet.length) :
    (readByte packet offset >>= f) = f (byteAt packet offset).toNat := by
  rw [readByte, if_pos h]
  rfl

theorem readU16_of {offset : Nat} {f : Nat → Except PacketError α}
    (h : offset + 2 ≤ packet.length) :
    (readU16 packet offset >>= f) = f (wordAt packet offset) := by
  rw [readU16, if_pos h]
  rfl

theorem WellFormed.parseTransport (h : WellFormed packet view) :
    parseTransport packet view.packetEnd view.transportOffset (byteAt packet 23).toNat =
      .ok view.transport := by
  have hfits := h.fits
  have htransport := h.transport
  unfold TransportFits at htransport
  unfold Ebpf.parseTransport
  cases hview : view.transport with
  | tcp =>
    rw [hview] at htransport
    obtain ⟨hprotocol, hheader, hend⟩ := htransport
    rw [if_pos hprotocol, requireBytes_of (by rw [tcpHeaderLen]; omega), readByte_of (by omega),
      rejectWhen_of (by rw [tcpHeaderLen]; omega), requireBytes_of hend]
    rfl
  | udp =>
    rw [hview] at htransport
    obtain ⟨hprotocol, hheader, hend⟩ := htransport
    rw [if_neg (by omega), if_pos hprotocol, requireBytes_of (by rw [udpHeaderLen]; omega),
      readU16_of (by omega), rejectWhen_of (by rw [udpHeaderLen]; omega), requireBytes_of hend]
    rfl

theorem WellFormed.parse (h : WellFormed packet view) : parsePacketBytes packet = .ok view := by
  have hlen := h.length_le
  have hfits := h.fits
  have hend := h.packetEnd
  have htotal := h.total
  have hheader := h.header
  have hheaderLen := h.headerLen
  have htransport := h.parseTransport
  have hversion := h.version
  have hetherType := h.etherType
  have hwhole := h.whole
  have hoffset := h.transportOffset
  obtain ⟨ipv4Offset, headerLen, transportOffset, transport, packetEnd⟩ := view
  obtain rfl : ipv4Offset = 14 := h.offset
  dsimp only at *
  subst hend hoffset hheaderLen
  have hheaderFits : 14 + (byteAt packet 14).toNat % 16 * 4 ≤ packet.length := by omega
  refine Except.bind_eq_ok.mpr ⟨(), requireBytes_eq_ok.mpr hlen, ?_⟩
  refine Except.bind_eq_ok.mpr ⟨_, readU16_eq_ok.mpr ⟨show 12 + 2 ≤ packet.length by omega, rfl⟩, ?_⟩
  refine Except.bind_eq_ok.mpr ⟨(), rejectWhen_eq_ok.mpr (not_not.mpr hetherType), ?_⟩
  refine Except.bind_eq_ok.mpr ⟨(), requireBytes_eq_ok.mpr hlen, ?_⟩
  refine Except.bind_eq_ok.mpr ⟨_, readByte_eq_ok.mpr ⟨show 14 < packet.length by omega, rfl⟩, ?_⟩
  refine Except.bind_eq_ok.mpr ⟨(), rejectWhen_eq_ok.mpr (not_not.mpr hversion), ?_⟩
  refine Except.bind_eq_ok.mpr ⟨(), rejectWhen_eq_ok.mpr (not_lt.mpr hheader), ?_⟩
  refine Except.bind_eq_ok.mpr ⟨(), requireBytes_eq_ok.mpr hheaderFits, ?_⟩
  refine Except.bind_eq_ok.mpr ⟨_, readU16_eq_ok.mpr ⟨show 16 + 2 ≤ packet.length by omega, rfl⟩, ?_⟩
  refine Except.bind_eq_ok.mpr ⟨(), rejectWhen_eq_ok.mpr (not_lt.mpr htotal), ?_⟩
  refine Except.bind_eq_ok.mpr ⟨(), requireBytes_eq_ok.mpr hfits, ?_⟩
  refine Except.bind_eq_ok.mpr ⟨_, readU16_eq_ok.mpr ⟨show 20 + 2 ≤ packet.length by omega, rfl⟩, ?_⟩
  refine Except.bind_eq_ok.mpr ⟨(), rejectWhen_eq_ok.mpr (not_not.mpr hwhole), ?_⟩
  refine Except.bind_eq_ok.mpr ⟨_, readByte_eq_ok.mpr ⟨show 23 < packet.length by omega, rfl⟩, ?_⟩
  exact Except.bind_eq_ok.mpr ⟨transport, htransport, rfl⟩

end Parsing

end Ferrocrate.Ebpf
