import Ferrocrate.Ebpf.Rewrite
import Ferrocrate.Ebpf.RoundTrip

/-! Applying a decision to the frame it was made for. -/
namespace Ferrocrate.Ebpf
open Lib Lib.Program

def portAt (packet : Bytes) (i : Nat) : UInt16 := UInt16.ofNat (wordAt packet i)

def packetOf (packet : Bytes) (view : PacketView) : Packet where
  protocol := protocolNumber view.transport
  source := ⟨addressAt packet (view.ipv4Offset + 12), portAt packet view.transportOffset⟩
  destination := ⟨addressAt packet (view.ipv4Offset + 16), portAt packet (view.transportOffset + 2)⟩

def macAt (packet : Bytes) (i : Nat) : Mac :=
  ⟨byteAt packet i, byteAt packet (i + 1), byteAt packet (i + 2), byteAt packet (i + 3),
    byteAt packet (i + 4), byteAt packet (i + 5)⟩

def syntheticRedirectSourceMac : Mac := ⟨2, 0, 0, 0, 0, 1⟩

def rewriteWhen (c : Prop) [Decidable c] (rewrite : Bytes → Except PacketError Bytes)
    (bytes : Bytes) : Except PacketError Bytes :=
  if c then rewrite bytes else pure bytes

def applySource (bytes : Bytes) (packet : Packet) (d : Decision) : Except PacketError Bytes := do
  let bytes ← rewriteWhen (packet.source.address ≠ d.source.address)
    (rewriteIpv4Source · d.source.address) bytes
  rewriteWhen (packet.source.port ≠ d.source.port)
    (rewriteTransportPort · .source d.source.port) bytes

def applyDestination (bytes : Bytes) (packet : Packet) (d : Decision) :
    Except PacketError Bytes := do
  let bytes ← rewriteWhen (packet.destination.address ≠ d.destination.address)
    (rewriteIpv4Destination · d.destination.address) bytes
  rewriteWhen (packet.destination.port ≠ d.destination.port)
    (rewriteTransportPort · .destination d.destination.port) bytes

def applyTranslation (bytes : Bytes) (packet : Packet) (d : Decision) :
    Except PacketError Bytes :=
  match d.translation with
  | .none => pure bytes
  | .source => applySource bytes packet d
  | .destination => applyDestination bytes packet d
  | .sourceAndDestination => do
    let bytes ← applySource bytes packet d
    applyDestination bytes packet d

def applyMac (bytes : Bytes) : Option Mac → Except PacketError Bytes
  | none => pure bytes
  | some mac => do
    let bytes ← rewriteEthernetDestination bytes mac
    rewriteWhen (12 ≤ bytes.length ∧ macAt bytes 6 = Mac.zero)
      (rewriteEthernetSource · syntheticRedirectSourceMac) bytes

def applyDecision (bytes : Bytes) (packet : Packet) (d : Decision) : Except PacketError Bytes := do
  let bytes ← applyTranslation bytes packet d
  applyMac bytes d.destinationMac

section Tuples
variable {packet : Bytes} {view : PacketView}

theorem word_inj {a b c d : UInt8} (h : 256 * a.toNat + b.toNat = 256 * c.toNat + d.toNat) :
    a = c ∧ b = d := by
  have hb := b.toNat_lt
  have hd := d.toNat_lt
  exact ⟨UInt8.toNat_inj.mp (by omega), UInt8.toNat_inj.mp (by omega)⟩

theorem Ipv4.ext_words {x y : Ipv4} (hhigh : x.high = y.high) (hlow : x.low = y.low) : x = y := by
  obtain ⟨ha, hb⟩ := word_inj hhigh
  obtain ⟨hc, hd⟩ := word_inj hlow
  obtain ⟨a, b, c, d⟩ := x
  obtain ⟨a', b', c', d'⟩ := y
  simp only at ha hb hc hd
  rw [ha, hb, hc, hd]

theorem addressAt_congr {packet' : Bytes} {i : Nat} (hhigh : wordAt packet' i = wordAt packet i)
    (hlow : wordAt packet' (i + 2) = wordAt packet (i + 2)) :
    addressAt packet' i = addressAt packet i :=
  Ipv4.ext_words hhigh hlow

section
variable (h : WellFormed packet view)
include h

theorem packetOf_withAddress_source (new : Ipv4) :
    packetOf (withAddress packet view (14 + 12) new) view =
      { packetOf packet view with source := { (packetOf packet view).source with address := new } } := by
  have hlies := h.checksum_lies
  have hsource : addressAt (withAddress packet view (14 + 12) new) (14 + 12) = new :=
    Ipv4.ext_words (wordAt_withAddress_high h (.inl rfl) new) (wordAt_withAddress_low h (.inl rfl) new)
  have hword : ∀ j, 30 ≤ j → j + 1 < transportChecksumOffset view →
      wordAt (withAddress packet view (14 + 12) new) j = wordAt packet j :=
    fun j h₁ h₂ => wordAt_withAddress h (.inl rfl) new (by omega) (by omega) (.inl h₂)
  have hdestination : addressAt (withAddress packet view (14 + 12) new) (14 + 16) =
      addressAt packet (14 + 16) :=
    addressAt_congr (hword _ (by omega) (by omega)) (hword _ (by omega) (by omega))
  simp only [packetOf, portAt, h.offset, hsource, hdestination]
  rw [hword _ (by omega) (by omega), hword _ (by omega) (by omega)]

theorem packetOf_withAddress_destination (new : Ipv4) :
    packetOf (withAddress packet view (14 + 16) new) view =
      { packetOf packet view with
        destination := { (packetOf packet view).destination with address := new } } := by
  have hlies := h.checksum_lies
  have hdestination : addressAt (withAddress packet view (14 + 16) new) (14 + 16) = new :=
    Ipv4.ext_words (wordAt_withAddress_high h (.inr rfl) new) (wordAt_withAddress_low h (.inr rfl) new)
  have hword : ∀ j, 26 ≤ j ∧ j < 30 ∨ 34 ≤ j → j + 1 < transportChecksumOffset view →
      j ≠ 29 → wordAt (withAddress packet view (14 + 16) new) j = wordAt packet j :=
    fun j h₁ h₂ h₃ => wordAt_withAddress h (.inr rfl) new (by omega) (by omega) (.inl h₂)
  have hsource : addressAt (withAddress packet view (14 + 16) new) (14 + 12) =
      addressAt packet (14 + 12) :=
    addressAt_congr (hword _ (by omega) (by omega) (by omega))
      (hword _ (by omega) (by omega) (by omega))
  simp only [packetOf, portAt, h.offset, hsource, hdestination]
  rw [hword _ (by omega) (by omega) (by omega), hword _ (by omega) (by omega) (by omega)]

theorem wordAt_withPort (field : PortField) (port : UInt16) {j : Nat}
    (h₁ : j + 1 < view.transportOffset + field.offset ∨
      view.transportOffset + field.offset + 1 < j)
    (h₂ : j + 1 < transportChecksumOffset view) :
    wordAt (withPort packet view field port) j = wordAt packet j := by
  have hlies := h.checksum_lies
  have hfield := field.offset_cases
  rw [withPort, wordAt_putWord_of_ne (by rw [length_putWord]; omega) (.inl h₂),
    wordAt_putWord_of_ne (by omega) h₁]

theorem portAt_withPort (field : PortField) (port : UInt16) :
    portAt (withPort packet view field port) (view.transportOffset + field.offset) = port := by
  have hlies := h.checksum_lies
  have hfield := field.offset_cases
  rw [portAt, withPort, wordAt_putWord_of_ne (by rw [length_putWord]; omega) (by omega),
    wordAt_putWord_self (by omega) (toNat_le port), UInt16.ofNat_toNat]

theorem addressAt_withPort (field : PortField) (port : UInt16) {i : Nat}
    (hi : i + 3 < view.transportOffset) :
    addressAt (withPort packet view field port) i = addressAt packet i := by
  have hlies := h.checksum_lies
  exact addressAt_congr (wordAt_withPort h field port (by omega) (by omega))
    (wordAt_withPort h field port (by omega) (by omega))

theorem packetOf_withPort_source (port : UInt16) :
    packetOf (withPort packet view .source port) view =
      { packetOf packet view with source := { (packetOf packet view).source with port := port } } := by
  have hlies := h.checksum_lies
  have hport := portAt_withPort h .source port
  have hother : portAt (withPort packet view .source port) (view.transportOffset + 2) =
      portAt packet (view.transportOffset + 2) :=
    congrArg UInt16.ofNat (wordAt_withPort h .source port (.inr (by simp [PortField.offset]))
      (by omega))
  simp only [PortField.offset, Nat.add_zero] at hport
  simp only [packetOf, h.offset, hport, hother]
  rw [addressAt_withPort h _ _ (by omega), addressAt_withPort h _ _ (by omega)]

theorem packetOf_withPort_destination (port : UInt16) :
    packetOf (withPort packet view .destination port) view =
      { packetOf packet view with
        destination := { (packetOf packet view).destination with port := port } } := by
  have hlies := h.checksum_lies
  have hport := portAt_withPort h .destination port
  have hother : portAt (withPort packet view .destination port) view.transportOffset =
      portAt packet view.transportOffset :=
    congrArg UInt16.ofNat (wordAt_withPort h .destination port (.inl (by simp [PortField.offset]))
      (by omega))
  simp only [PortField.offset] at hport
  simp only [packetOf, h.offset, hport, hother]
  rw [addressAt_withPort h _ _ (by omega), addressAt_withPort h _ _ (by omega)]

theorem packetOf_writeMac {offset : Nat}
    (hoffset : offset = 0 ∨ offset = 6) (mac : Mac) :
    packetOf (writeMac packet offset mac) view = packetOf packet view := by
  have hlen := h.length_le
  have hlies := h.checksum_lies
  have hword : ∀ j, 12 ≤ j → wordAt (writeMac packet offset mac) j = wordAt packet j :=
    fun j hj => wordAt_writeMac h hoffset mac hj
  have haddress : ∀ i, 12 ≤ i → addressAt (writeMac packet offset mac) i = addressAt packet i :=
    fun i hi => addressAt_congr (hword i hi) (hword (i + 2) (by omega))
  simp only [packetOf, portAt, h.offset]
  rw [haddress _ (by omega), haddress _ (by omega), hword _ (by omega), hword _ (by omega)]

end

def Yields (view : PacketView) (packet : Bytes) (run : Except PacketError Bytes) (q : Packet) :
    Prop :=
  ∃ packet', run = .ok packet' ∧ Keeps view packet packet' ∧ packetOf packet' view = q

theorem Yields.bind {run : Except PacketError Bytes} {f : Bytes → Except PacketError Bytes}
    {q r : Packet} (h : WellFormed packet view) (hrun : Yields view packet run q)
    (hf : ∀ packet', WellFormed packet' view → packetOf packet' view = q →
      Yields view packet' (f packet') r) : Yields view packet (run >>= f) r := by
  obtain ⟨packet₁, hrun, hkeeps₁, hq⟩ := hrun
  obtain ⟨packet₂, hf, hkeeps₂, hr⟩ := hf packet₁ (h.keeps hkeeps₁) hq
  exact ⟨packet₂, Except.bind_eq_ok.mpr ⟨packet₁, hrun, hf⟩, hkeeps₁.trans hkeeps₂, hr⟩

theorem yields_pure (packet : Bytes) (view : PacketView) :
    Yields view packet (pure packet) (packetOf packet view) :=
  ⟨packet, rfl, Keeps.refl view packet, rfl⟩

theorem rewriteWhen_yields {c : Prop} [Decidable c] {rewrite : Bytes → Except PacketError Bytes}
    {q : Packet} (hrewrite : c → Yields view packet (rewrite packet) q)
    (hsame : ¬c → packetOf packet view = q) : Yields view packet (rewriteWhen c rewrite packet) q := by
  unfold rewriteWhen
  split_ifs with hc
  · exact hrewrite hc
  · rw [← hsame hc]
    exact yields_pure packet view

theorem applySource_yields (h : WellFormed packet view) {p : Packet} (d : Decision)
    (hp : (packetOf packet view).source = p.source) :
    Yields view packet (applySource packet p d)
      { packetOf packet view with source := d.source } := by
  unfold applySource
  apply Yields.bind (q := { packetOf packet view with source := ⟨d.source.address, p.source.port⟩ }) h
  · apply rewriteWhen_yields
    · intro _
      refine ⟨_, rewriteIpv4Address_eq h (.inl rfl) d.source.address,
        keeps_withAddress h (.inl rfl) _, ?_⟩
      rw [packetOf_withAddress_source h, hp]
    · intro haddress
      rw [← not_not.mp haddress, ← hp]
  · intro packet' h' hq
    apply rewriteWhen_yields
    · intro _
      refine ⟨_, rewriteTransportPort_eq h' .source d.source.port, keeps_withPort h' _ _, ?_⟩
      rw [packetOf_withPort_source h', hq]
    · intro hport
      rw [hq, not_not.mp hport]

theorem applyDestination_yields (h : WellFormed packet view) {p : Packet} (d : Decision)
    (hp : (packetOf packet view).destination = p.destination) :
    Yields view packet (applyDestination packet p d)
      { packetOf packet view with destination := d.destination } := by
  unfold applyDestination
  apply Yields.bind
    (q := { packetOf packet view with destination := ⟨d.destination.address, p.destination.port⟩ }) h
  · apply rewriteWhen_yields
    · intro _
      refine ⟨_, rewriteIpv4Address_eq h (.inr rfl) d.destination.address,
        keeps_withAddress h (.inr rfl) _, ?_⟩
      rw [packetOf_withAddress_destination h, hp]
    · intro haddress
      rw [← not_not.mp haddress, ← hp]
  · intro packet' h' hq
    apply rewriteWhen_yields
    · intro _
      refine ⟨_, rewriteTransportPort_eq h' .destination d.destination.port, keeps_withPort h' _ _, ?_⟩
      rw [packetOf_withPort_destination h', hq]
    · intro hport
      rw [hq, not_not.mp hport]

def written (p : Packet) (d : Decision) : Packet :=
  match d.translation with
  | .none => p
  | .source => { p with source := d.source }
  | .destination => { p with destination := d.destination }
  | .sourceAndDestination => { p with source := d.source, destination := d.destination }

theorem applyTranslation_yields (h : WellFormed packet view) (d : Decision) :
    Yields view packet (applyTranslation packet (packetOf packet view) d)
      (written (packetOf packet view) d) := by
  unfold applyTranslation written
  cases d.translation with
  | none => exact yields_pure packet view
  | source => exact applySource_yields h d rfl
  | destination => exact applyDestination_yields h d rfl
  | sourceAndDestination =>
    refine (applySource_yields h d rfl).bind h fun packet' h' hq => ?_
    have hdestination := applyDestination_yields h' d
      (congrArg Packet.destination hq)
    rw [hq] at hdestination
    exact hdestination

theorem applyMac_yields (h : WellFormed packet view) (mac : Option Mac) :
    Yields view packet (applyMac packet mac) (packetOf packet view) := by
  have hlen := h.length_le
  cases mac with
  | none => exact yields_pure packet view
  | some mac =>
    refine Yields.bind (q := packetOf packet view) h ?_ fun packet' h' hq => ?_
    · refine ⟨writeMac packet 0 mac, ?_, keeps_writeMac h (.inl rfl) mac,
        packetOf_writeMac h (.inl rfl) mac⟩
      rw [rewriteEthernetDestination, h.parse]
      exact requireBytes_of (by omega)
    · have hlen' := h'.length_le
      apply rewriteWhen_yields
      · intro _
        refine ⟨writeMac packet' 6 syntheticRedirectSourceMac, ?_,
          keeps_writeMac h' (.inr rfl) _, (packetOf_writeMac h' (.inr rfl) _).trans hq⟩
        rw [rewriteEthernetSource, h'.parse]
        exact requireBytes_of (by omega)
      · intro _
        exact hq

theorem applyDecision_yields (h : WellFormed packet view) (d : Decision) :
    Yields view packet (applyDecision packet (packetOf packet view) d)
      (written (packetOf packet view) d) := by
  refine (applyTranslation_yields h d).bind h fun packet' h' hq => ?_
  rw [← hq]
  exact applyMac_yields h' d.destinationMac

end Tuples

/-- The decision is applied faithfully: the frame is accepted with the same view and valid
checksums, its sockets are those of the decision, and nothing else has changed. -/
def Faithful (bytes : Bytes) (view : PacketView) (d : Decision) : Prop :=
  ∃ bytes', applyDecision bytes (packetOf bytes view) d = .ok bytes' ∧
    parsePacketBytes bytes' = .ok view ∧ (packetOf bytes' view).source = d.source ∧
    (packetOf bytes' view).destination = d.destination ∧ ChecksumsValid bytes' view ∧
    (noChecksum bytes' view ↔ noChecksum bytes view) ∧ bytes'.length = bytes.length ∧
    ∀ i, ¬Rewritable view i → byteAt bytes' i = byteAt bytes i

def Tagged (p : Packet) (d : Decision) : Prop :=
  (written p d).source = d.source ∧ (written p d).destination = d.destination

theorem faithful_iff {bytes : Bytes} {view : PacketView} {d : Decision}
    (hparse : parsePacketBytes bytes = .ok view) (hvalid : ChecksumsValid bytes view) :
    Faithful bytes view d ↔ Tagged (packetOf bytes view) d := by
  have h := parsePacketBytes_eq_ok hparse
  obtain ⟨bytes₁, happly, hkeeps, htuple⟩ := applyDecision_yields h d
  constructor
  · rintro ⟨bytes', happly', -, hsource, hdestination, -⟩
    obtain rfl : bytes₁ = bytes' := Except.ok.inj (happly.symm.trans happly')
    rw [htuple] at hsource hdestination
    exact ⟨hsource, hdestination⟩
  · rintro ⟨hsource, hdestination⟩
    refine ⟨bytes₁, happly, (h.keeps hkeeps).parse, ?_, ?_, hkeeps.checksumsValid h hvalid,
      hkeeps.none, hkeeps.length, hkeeps.outside⟩
    · rw [htuple, hsource]
    · rw [htuple, hdestination]

section Tags
variable {tables : Tables} {conntrack : Conntrack} {p : Packet} {d d' : Decision}

theorem Tagged.routes (h : Tagged p d) (hr : Routes d d') : Tagged p d' := by
  unfold Tagged written at h ⊢
  rw [hr.source, hr.destination, hr.translation]
  exact h

theorem tagged_pass (p : Packet) : Tagged p (Decision.pass p) := ⟨rfl, rfl⟩

theorem tagged_both (h : d.translation = .sourceAndDestination) : Tagged p d := by
  unfold Tagged written
  rw [h]
  exact ⟨rfl, rfl⟩

theorem tagged_source (h : d.translation = .source) : Tagged p d ↔ d.destination = p.destination := by
  unfold Tagged written
  rw [h]
  constructor
  · rintro ⟨-, hdestination⟩
    exact hdestination.symm
  · intro hdestination
    exact ⟨rfl, hdestination.symm⟩

theorem translateIngress_tagged {reverse : Bool}
    (h : translateIngress tables conntrack p = .ok (.routed d reverse)) : Tagged p d := by
  unfold translateIngress at h
  split at h
  · unfold trackedIngress at h
    split_ifs at h
    · cases h
    · cases h
      exact tagged_both rfl
    · cases h
      exact (tagged_source rfl).mpr rfl
    · cases h
      exact ⟨rfl, rfl⟩
  · split at h
    · unfold publishedIngress at h
      split_ifs at h
      · cases h
      · split at h
        · cases h
        · cases h
          exact tagged_both rfl
      · cases h
        exact ⟨rfl, rfl⟩
    · cases h
      exact tagged_pass p

/-- Both translations of the egress path apply: a loopback request to a published port is sent to
another socket, and a conntrack record then replaces the tag by one for the source alone. -/
def Mistagged (tables : Tables) (conntrack : Conntrack) (p : Packet) : Prop :=
  hostLoopback p ∧ ∃ target record,
    tables.publishedPort p.protocol p.destination.port = some target ∧ target ≠ p.destination ∧
      conntrack (.fromPacket p) = some record ∧
      ¬(p.destination.address = gateway tables ∧ record.address.isLoopback)

theorem translateEgress_tagged_iff (h : translateEgress tables conntrack p = .ok d) :
    Tagged p d ↔ ¬Mistagged tables conntrack p := by
  obtain ⟨d₁, hpin, htracked⟩ := Except.bind_eq_ok.mp h
  cases hrecord : conntrack (.fromPacket p) with
  | none =>
    rw [hrecord] at htracked
    cases htracked
    have hnot : ¬Mistagged tables conntrack p := by
      rintro ⟨-, _, record, -, -, hsome, -⟩
      rw [hrecord] at hsome
      cases hsome
    refine iff_of_true ?_ hnot
    obtain ⟨rfl, -⟩ | ⟨target, external, -, -, -, rfl⟩ := hairpinEgress_eq_ok hpin
    · exact tagged_pass p
    · exact tagged_both rfl
  | some record =>
    simp only [hrecord, trackedEgress] at htracked
    split_ifs at htracked with hvalid hhome
    · cases htracked
      refine iff_of_true (tagged_both rfl) ?_
      rintro ⟨-, _, record', -, -, hsome, hnot⟩
      obtain rfl : record = record' := Option.some.inj (hrecord.symm.trans hsome)
      exact hnot hhome
    · cases htracked
      rw [tagged_source rfl]
      obtain ⟨rfl, hkept⟩ | ⟨target, external, hloopback, htarget, -, rfl⟩ :=
        hairpinEgress_eq_ok hpin
      · refine iff_of_true rfl ?_
        rintro ⟨hloopback, target, _, hsome, -⟩
        rw [hkept hloopback] at hsome
        cases hsome
      · constructor
        · rintro hsame ⟨-, target', _, hsome, hne, -⟩
          obtain rfl : target = target' := Option.some.inj (htarget.symm.trans hsome)
          exact hne hsame
        · intro hnot
          by_contra hne
          exact hnot ⟨hloopback, target, record, htarget, hne, hrecord, hhome⟩

theorem translateEgress_none (h : translateEgress tables conntrack p = .ok d)
    (hnone : d.translation = .none) : d = Decision.pass p := by
  obtain ⟨d₁, hpin, htracked⟩ := Except.bind_eq_ok.mp h
  cases hrecord : conntrack (.fromPacket p) with
  | none =>
    rw [hrecord] at htracked
    cases htracked
    obtain ⟨rfl, -⟩ | ⟨target, external, -, -, -, rfl⟩ := hairpinEgress_eq_ok hpin
    · rfl
    · cases hnone
  | some record =>
    simp only [hrecord, trackedEgress] at htracked
    split_ifs at htracked
    · cases htracked
      cases hnone
    · cases htracked
      cases hnone

theorem decideEgress_tagged_iff {conntrack' : Conntrack}
    (h : decideEgress tables p conntrack = (.ok d, conntrack')) :
    Tagged p d ↔ ¬Mistagged tables conntrack p := by
  obtain ⟨-, d', htranslate, hroute⟩ := decideEgress_eq_ok h
  have htagged := translateEgress_tagged_iff htranslate
  have hsame : ∀ ifindex mac, Tagged p (redirectTo d' ifindex mac) ↔ Tagged p d' :=
    fun ifindex mac => Iff.rfl
  obtain ⟨endpoint, -, -, rfl, -⟩ | ⟨-, ⟨-, rfl, -⟩ | ⟨-, hleave⟩⟩ := hroute
  · exact (hsame ..).trans htagged
  · exact htagged
  · obtain ⟨external, -, -, ⟨-, rfl, -⟩ | ⟨hnone, pair, -, rfl⟩ | ⟨-, rfl, -⟩⟩ := leave_eq_ok hleave
    · exact (hsame ..).trans htagged
    · have hpass := translateEgress_none htranslate hnone
      have hsource : Tagged p (snatDecision d' external pair) := by
        rw [tagged_source rfl, hpass]
        rfl
      refine iff_of_true hsource (htagged.mp ?_)
      rw [hpass]
      exact tagged_pass p
    · exact (hsame ..).trans htagged

end Tags

/-- A decision is applied faithfully to the frame it was made for exactly when the frame is not a
loopback request on egress that both a published port and a conntrack record translate. -/
theorem decision_applied_faithfully_iff (tables : Tables) (conntrack : Conntrack)
    (direction : Direction) (bytes : Bytes) (view : PacketView) (d : Decision)
    (hparse : parsePacketBytes bytes = .ok view) (hvalid : ChecksumsValid bytes view)
    (h : (decideAt tables direction (packetOf bytes view)).result conntrack = .ok d) :
    Faithful bytes view d ↔
      ¬(direction = .egress ∧ Mistagged tables conntrack (packetOf bytes view)) := by
  rw [faithful_iff hparse hvalid]
  cases direction with
  | ingress =>
    rw [result, decideAt_ingress] at h
    refine iff_of_true ?_ (by simp)
    obtain ⟨-, hsettled | ⟨d', reverse, htranslate, hroute⟩⟩ := decideIngress_eq_ok h
    · rw [translateIngress_settled hsettled]
      exact tagged_pass _
    · exact (translateIngress_tagged htranslate).routes (routeIngress_routes hroute)
  | egress =>
    have hrun : decideEgress tables (packetOf bytes view) conntrack =
        (.ok d, (decideEgress tables (packetOf bytes view) conntrack).2) := Prod.ext h rfl
    rw [decideEgress_tagged_iff hrun]
    simp

def clientFrame : Bytes :=
  [2, 0, 0, 0, 0, 5, 2, 0, 0, 0, 0, 6, 8, 0,
    69, 0, 0, 40, 0, 1, 0, 0, 64, 6, 20, 147, 198, 51,
    100, 7, 203, 0, 113, 1, 156, 64, 31, 144, 0, 0, 0, 1,
    0, 0, 0, 0, 80, 2, 4, 0, 137, 212, 0, 0]

def loopbackFrame : Bytes :=
  [2, 0, 0, 0, 0, 5, 2, 0, 0, 0, 0, 6, 8, 0,
    69, 0, 0, 40, 0, 1, 0, 0, 64, 6, 124, 205, 127, 0,
    0, 1, 127, 0, 0, 1, 156, 64, 31, 144, 0, 0, 0, 1,
    0, 0, 0, 0, 80, 2, 4, 0, 242, 14, 0, 0]

def synView : PacketView := ⟨14, 20, 34, .tcp, 54⟩

def clientDecision : Decision :=
  redirectTo
    { Decision.pass (packetOf clientFrame synView) with
      destination := ⟨⟨10, 1, 0, 2⟩, 80⟩
      translation := .destination
      reverseConntrack := some (publishedRecord (packetOf clientFrame synView)
        ⟨⟨10, 1, 0, 2⟩, 80⟩ ⟨198, 51, 100, 7⟩) }
    7 ⟨2, 0, 0, 0, 0, 9⟩

theorem client_frame_applied_faithfully : Faithful clientFrame synView clientDecision :=
  (decision_applied_faithfully_iff publication Conntrack.empty .ingress clientFrame synView
    clientDecision (by decide +kernel) ⟨by decide +kernel, .inr (by decide +kernel)⟩
    (by decide +kernel)).mpr (by simp)

def loopbackRecord : Conntrack :=
  Conntrack.empty.insert ⟨.fromPacket (packetOf loopbackFrame synView), ⟨⟨10, 1, 0, 9⟩, 81⟩⟩

def mistaggedDecision : Decision :=
  { redirectTo (hairpin (packetOf loopbackFrame synView) ⟨⟨10, 1, 0, 2⟩, 80⟩ bridgeNetwork)
      7 ⟨2, 0, 0, 0, 0, 9⟩ with
    source := ⟨⟨10, 1, 0, 9⟩, 81⟩
    translation := .source }

theorem tracked_hairpin_not_applied :
    parsePacketBytes loopbackFrame = .ok synView ∧ ChecksumsValid loopbackFrame synView ∧
      (decideAt publication .egress (packetOf loopbackFrame synView)).result loopbackRecord =
        .ok mistaggedDecision ∧
      ¬Faithful loopbackFrame synView mistaggedDecision := by
  have hparse : parsePacketBytes loopbackFrame = .ok synView := by decide +kernel
  have hvalid : ChecksumsValid loopbackFrame synView :=
    ⟨by decide +kernel, .inr (by decide +kernel)⟩
  refine ⟨hparse, hvalid, by decide +kernel, ?_⟩
  rw [faithful_iff hparse hvalid]
  unfold Tagged
  decide +kernel

end Ferrocrate.Ebpf
