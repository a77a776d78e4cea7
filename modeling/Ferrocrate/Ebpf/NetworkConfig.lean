import Ferrocrate.Ebpf.Datapath
import Ferrocrate.Lib.Text
import Ferrocrate.Lib.Framing
import Mathlib.Data.List.Sort
import Mathlib.Tactic.Common

/-! The SNAT configuration: what user space accepts and writes, and what the program reads. -/
namespace Ferrocrate.Ebpf
open Lib Lib.Program

structure EbpfNetworkConfig where
  networkId : String
  interface : String
  externalIpv4 : Ipv4
  bridgeGateway : Ipv4
  externalIfindex : UInt32
  loopbackIfindex : UInt32
  nextHopMac : Mac
  snatPortStart : UInt16
  snatPortEnd : UInt16

inductive EbpfError where
  | invalidNetworkId (networkId : String)
  | invalidConfig (reason : String)
  | reservedPortsInvalid (token : String)
  | snatRangeNotReserved (rangeStart rangeEnd : UInt16)
deriving DecidableEq

def isAsciiAlphanumeric (byte : UInt8) : Bool :=
  (48 ≤ byte ∧ byte ≤ 57) ∨ (65 ≤ byte ∧ byte ≤ 90) ∨ (97 ≤ byte ∧ byte ≤ 122)

def validateNetworkId (networkId : String) : Except EbpfError Unit :=
  if networkId = "" ∨ 63 < (utf8 networkId).length ∨ networkId = "." ∨ networkId = ".." ∨
      !(utf8 networkId).all fun byte => isAsciiAlphanumeric byte ∨ byte = 45 ∨ byte = 95 then
    .error (.invalidNetworkId networkId)
  else
    .ok ()

def validateConfig (config : EbpfNetworkConfig) : Except EbpfError Unit := do
  validateNetworkId config.networkId
  if config.interface = "" ∨ 15 < (utf8 config.interface).length ∨ config.interface = "." ∨
      config.interface = ".." ∨ (utf8 config.interface).any fun byte => byte = 0 ∨ byte = 47 then
    .error (.invalidConfig ("invalid interface name `" ++ config.interface ++ "`"))
  else if config.externalIfindex = 0 then
    .error (.invalidConfig "external ifindex must be nonzero")
  else if config.snatPortStart = 0 ∨ config.snatPortEnd < config.snatPortStart then
    .error (.invalidConfig "SNAT range must be a nonzero inclusive range")
  else if config.snatPortEnd.toNat - config.snatPortStart.toNat + 1 < 4 then
    .error (.invalidConfig "SNAT range must contain at least four ports")
  else
    .ok ()

def trim (text : List Char) : List Char :=
  ((text.dropWhile isWhitespace).reverse.dropWhile isWhitespace).reverse

def parseU16 (text : List Char) : Option UInt16 :=
  let digits :=
    match text with
    | '+' :: rest => rest
    | _ => text
  if digits = [] ∨ !digits.all Char.isDigit then
    none
  else
    let value := digits.foldl (fun value digit => 10 * value + (digit.toNat - 48)) 0
    if value < 65536 then some (UInt16.ofNat value) else none

def parsePort (value token : List Char) : Except EbpfError UInt16 :=
  match (parseU16 (trim value)).filter (· ≠ 0) with
  | some port => .ok port
  | none => .error (.reservedPortsInvalid (String.ofList token))

def splitOnce (token : List Char) : Option (List Char × List Char) :=
  if '-' ∈ token then
    some (token.takeWhile (· ≠ '-'), (token.dropWhile (· ≠ '-')).tail)
  else
    none

def parseInterval (token : List Char) : Except EbpfError (UInt16 × UInt16) := do
  let (first, last) ←
    match splitOnce token with
    | some (first, last) => do
      let first ← parsePort first token
      let last ← parsePort last token
      pure (first, last)
    | none => do
      let port ← parsePort token token
      pure (port, port)
  if last < first then
    .error (.reservedPortsInvalid (String.ofList token))
  else
    pure (first, last)

def covers (rangeEnd : Nat) : Nat → List (UInt16 × UInt16) → Bool
  | _, [] => false
  | next, (first, last) :: rest =>
    if last.toNat < next then
      covers rangeEnd next rest
    else if next < first.toNat then
      false
    else if rangeEnd < max next (last.toNat + 1) then
      true
    else
      covers rangeEnd (max next (last.toNat + 1)) rest

def proveReservedRange (contents : String) (rangeStart rangeEnd : UInt16) :
    Except EbpfError Unit := do
  let tokens := ((trim contents.toList).splitOn ',').map trim
  let intervals ← (tokens.filter (· ≠ [])).mapM parseInterval
  let sorted := intervals.insertionSort fun a b => a.1 < b.1 ∨ a.1 = b.1 ∧ a.2 ≤ b.2
  if covers rangeEnd.toNat rangeStart.toNat sorted then
    pure ()
  else
    .error (.snatRangeNotReserved rangeStart rangeEnd)

def programAbiVersion : UInt32 := 3

def metaFlagSnatRangeReserved : UInt16 := 1

structure MetaConfig where
  abiVersion : UInt32
  externalIpv4 : Ipv4
  externalIfindex : UInt32
  loopbackIfindex : UInt32
  bridgeGateway : Ipv4
  nextHopMac : Mac
  snatPortStart : UInt16
  snatPortEnd : UInt16
  flags : UInt16

def Ipv4.bytes (address : Ipv4) : Bytes := [address.a, address.b, address.c, address.d]

def Mac.bytes (mac : Mac) : Bytes := [mac.a, mac.b, mac.c, mac.d, mac.e, mac.f]

def MetaConfig.encode (config : MetaConfig) : Bytes :=
  toBe 4 config.abiVersion.toNat ++ config.externalIpv4.bytes ++
    toBe 4 config.externalIfindex.toNat ++ config.nextHopMac.bytes ++
    toBe 2 config.snatPortStart.toNat ++ toBe 2 config.snatPortEnd.toNat ++
    toBe 2 config.flags.toNat ++ toBe 4 config.loopbackIfindex.toNat ++ config.bridgeGateway.bytes

def MetaConfig.decode (bytes : Bytes) : MetaConfig :=
  let byte := fun offset => bytes.getD offset 0
  { abiVersion := .ofNat (ofBe [byte 0, byte 1, byte 2, byte 3])
    externalIpv4 := ⟨byte 4, byte 5, byte 6, byte 7⟩
    externalIfindex := .ofNat (ofBe [byte 8, byte 9, byte 10, byte 11])
    loopbackIfindex := .ofNat (ofBe [byte 24, byte 25, byte 26, byte 27])
    bridgeGateway := ⟨byte 28, byte 29, byte 30, byte 31⟩
    nextHopMac := ⟨byte 12, byte 13, byte 14, byte 15, byte 16, byte 17⟩
    snatPortStart := .ofNat (ofBe [byte 18, byte 19])
    snatPortEnd := .ofNat (ofBe [byte 20, byte 21])
    flags := .ofNat (ofBe [byte 22, byte 23]) }

def MetaConfig.snatRangeReserved (config : MetaConfig) : Bool :=
  config.flags &&& metaFlagSnatRangeReserved ≠ 0

def EbpfNetworkConfig.metadata (config : EbpfNetworkConfig) : MetaConfig where
  abiVersion := programAbiVersion
  externalIpv4 := config.externalIpv4
  bridgeGateway := config.bridgeGateway
  externalIfindex := config.externalIfindex
  loopbackIfindex := config.loopbackIfindex
  nextHopMac := config.nextHopMac
  snatPortStart := config.snatPortStart
  snatPortEnd := config.snatPortEnd
  flags := metaFlagSnatRangeReserved

def externalNetwork (value : Bytes) : Option ExternalNetwork :=
  let config := MetaConfig.decode value
  if config.abiVersion ≠ programAbiVersion then
    none
  else
    some
      { address := config.externalIpv4
        bridgeGateway := config.bridgeGateway
        ifindex := config.externalIfindex
        loopbackIfindex := config.loopbackIfindex
        nextHopMac := config.nextHopMac
        snatPortStart := config.snatPortStart
        snatPortEnd := config.snatPortEnd
        snatRangeReserved := config.snatRangeReserved }

theorem ofNat_ofBe_u32 (x : UInt32) : ∃ a b c d, toBe 4 x.toNat = [a, b, c, d] ∧
    UInt32.ofNat (ofBe [a, b, c, d]) = x := by
  refine ⟨_, _, _, _, rfl, ?_⟩
  change UInt32.ofNat (ofBe (toBe 4 x.toNat)) = x
  rw [ofBe_toBe, Nat.mod_eq_of_lt (by exact x.toNat_lt), UInt32.ofNat_toNat]

theorem ofNat_ofBe_u16 (x : UInt16) : ∃ a b, toBe 2 x.toNat = [a, b] ∧
    UInt16.ofNat (ofBe [a, b]) = x := by
  refine ⟨_, _, rfl, ?_⟩
  change UInt16.ofNat (ofBe (toBe 2 x.toNat)) = x
  rw [ofBe_toBe, Nat.mod_eq_of_lt (by exact x.toNat_lt), UInt16.ofNat_toNat]

theorem decode_encode (config : MetaConfig) : MetaConfig.decode config.encode = config := by
  obtain ⟨v₀, v₁, v₂, v₃, hv, version⟩ := ofNat_ofBe_u32 config.abiVersion
  obtain ⟨e₀, e₁, e₂, e₃, he, external⟩ := ofNat_ofBe_u32 config.externalIfindex
  obtain ⟨l₀, l₁, l₂, l₃, hl, loopback⟩ := ofNat_ofBe_u32 config.loopbackIfindex
  obtain ⟨s₀, s₁, hs, portStart⟩ := ofNat_ofBe_u16 config.snatPortStart
  obtain ⟨t₀, t₁, ht, portEnd⟩ := ofNat_ofBe_u16 config.snatPortEnd
  obtain ⟨f₀, f₁, hf, flags⟩ := ofNat_ofBe_u16 config.flags
  simp [MetaConfig.encode, MetaConfig.decode, hv, he, hl, hs, ht, hf, Ipv4.bytes, Mac.bytes,
    version, external, loopback, portStart, portEnd, flags]

section Refusals
variable {tables : Tables} {conntrack : Conntrack} {p : Packet} {external : ExternalNetwork}

theorem snatCandidate_isSome {probe : Nat} {rangeStart rangeEnd : UInt16}
    (h : validSnatRange rangeStart rangeEnd) (hprobe : probe < snatProbeLimit) :
    (snatCandidate p probe rangeStart rangeEnd).isSome := by
  rw [snatCandidate, if_neg (by simp [h, hprobe])]
  rfl

theorem installFrom_ne (h : validSnatRange external.snatPortStart external.snatPortEnd)
    {left : Nat} (hleft : left ≤ snatProbeLimit) :
    (installFrom tables p external left conntrack).1 ≠ .error .snatConfigInvalid := by
  induction left generalizing conntrack with
  | zero => exact fun h => by cases h
  | succ left ih =>
    have hsome : (snatCandidate p (snatProbeLimit - (left + 1)) external.snatPortStart
        external.snatPortEnd).isSome :=
      snatCandidate_isSome h (Nat.sub_lt_self (Nat.succ_pos left) hleft)
    obtain ⟨port, hport⟩ := Option.isSome_iff_exists.mp hsome
    simp only [installFrom_succ, hport]
    split_ifs
    · exact fun h => by cases h
    · exact ih (Nat.le_of_succ_le hleft)
    · exact fun h => by cases h
    · exact fun h => by cases h

variable {e : DecisionError}

theorem enforcePolicy_error {direction : Direction}
    (h : enforcePolicy tables p direction = .error e) : e = .policyDenied := by
  unfold enforcePolicy at h
  split at h
  · cases h
    rfl
  · cases h
  · cases h

theorem hairpinEgress_error (h : hairpinEgress tables p = .error e) :
    e ≠ .snatConfigInvalid := by
  unfold hairpinEgress at h
  grind

theorem trackedEgress_error {d : Decision} {target : Option NatTarget}
    (h : trackedEgress tables p d target = .error e) : e = .invalidTranslation := by
  cases target with
  | none => cases h
  | some target =>
    simp only [trackedEgress] at h
    split_ifs at h
    cases h
    rfl

theorem translateEgress_error
    (h : translateEgress tables conntrack p = .error e) : e ≠ .snatConfigInvalid := by
  unfold translateEgress at h
  cases hpin : hairpinEgress tables p with
  | error e' =>
    rw [hpin] at h
    cases h
    exact hairpinEgress_error hpin
  | ok d =>
    rw [hpin] at h
    rw [trackedEgress_error h]
    decide

theorem decideEgress_ne (hexternal : tables.externalNetwork = some external)
    (hready : snatReady external) (hloopback : external.loopbackIfindex ≠ 0) :
    (decideEgress tables p conntrack).1 ≠ .error .snatConfigInvalid := by
  rw [decideEgress_run]
  cases hpolicy : enforcePolicy tables p .egress with
  | error e =>
    rw [enforcePolicy_error hpolicy]
    exact fun h => by cases h
  | ok _ =>
    cases htranslate : translateEgress tables conntrack p with
    | error e =>
      intro h
      cases h
      exact translateEgress_error htranslate rfl
    | ok d =>
      cases hend : tables.endpoint d.destination.address with
      | some endpoint =>
        simp only [hend]
        split_ifs
        · exact fun h => by cases h
        · exact fun h => by cases h
      | none =>
        simp only [hend]
        split_ifs
        · exact fun h => by cases h
        · simp only [leave_run, hexternal, hready, not_true_eq_false, if_false, hloopback]
          split_ifs
          · exact fun h => by cases h
          · have hinstall : (installGenericSnat tables p external conntrack).1 ≠
                .error .snatConfigInvalid := installFrom_ne hready.2.2 le_rfl
            cases hrun : installGenericSnat tables p external conntrack with
            | mk r conntrack' =>
              rw [hrun] at hinstall
              cases r with
              | error e => exact fun h => by cases h; exact hinstall rfl
              | ok pair => exact fun h => by cases h
          · exact fun h => by cases h

end Refusals

theorem validateConfig_eq_ok {config : EbpfNetworkConfig} (h : validateConfig config = .ok ()) :
    config.externalIfindex ≠ 0 ∧ config.snatPortStart ≠ 0 ∧
      config.snatPortStart ≤ config.snatPortEnd := by
  obtain ⟨_, -, h⟩ := Except.bind_eq_ok.mp h
  split_ifs at h with _ hindex hrange _
  simp only [not_or, UInt16.not_lt] at hrange
  exact ⟨hindex, hrange⟩

theorem externalNetwork_metadata (config : EbpfNetworkConfig) :
    externalNetwork config.metadata.encode = some
      { address := config.externalIpv4
        bridgeGateway := config.bridgeGateway
        ifindex := config.externalIfindex
        loopbackIfindex := config.loopbackIfindex
        nextHopMac := config.nextHopMac
        snatPortStart := config.snatPortStart
        snatPortEnd := config.snatPortEnd
        snatRangeReserved := true } := by
  have hversion : config.metadata.abiVersion = programAbiVersion := rfl
  have hreserved : config.metadata.snatRangeReserved = true := by
    change decide (metaFlagSnatRangeReserved &&& metaFlagSnatRangeReserved ≠ 0) = true
    decide
  simp only [externalNetwork, decode_encode, hversion, hreserved, ne_eq, not_true_eq_false,
    if_false]
  rfl

/-- A packet of an endpoint with a MAC address to an address of no endpoint, seen by a program that
runs with the metadata of the configuration. -/
def Outbound (config : EbpfNetworkConfig) (tables : Tables) (p : Packet) : Prop :=
  tables.externalNetwork = externalNetwork config.metadata.encode ∧
    (∃ endpoint, tables.endpoint p.source.address = some endpoint ∧ endpoint.mac ≠ Mac.zero) ∧
    tables.endpoint p.destination.address = none

/-- User space and the program agree on a configuration: the program reads the fields that were
written, and no outbound packet is refused for the configuration. -/
def SnatAgrees (config : EbpfNetworkConfig) : Prop :=
  MetaConfig.decode config.metadata.encode = config.metadata ∧
    ∀ tables conntrack p, Outbound config tables p →
      (decideEgress tables p).result conntrack ≠ .error .snatConfigInvalid

def oneEndpoint (external : Option ExternalNetwork) : Tables where
  policy := fun _ => none
  publishedPort := fun _ _ => none
  endpoint := fun address =>
    if address = ⟨10, 1, 0, 2⟩ then some ⟨7, ⟨2, 0, 0, 0, 0, 9⟩, 0⟩ else none
  externalNetwork := external
  insertFails := fun _ => false

def outboundPacket : Packet := ⟨6, ⟨⟨10, 1, 0, 2⟩, 40000⟩, ⟨⟨198, 51, 100, 7⟩, 443⟩⟩

theorem outbound_oneEndpoint (config : EbpfNetworkConfig) :
    Outbound config (oneEndpoint (externalNetwork config.metadata.encode)) outboundPacket := by
  generalize hexternal : externalNetwork config.metadata.encode = external
  exact ⟨hexternal.symm, ⟨⟨7, ⟨2, 0, 0, 0, 0, 9⟩, 0⟩, rfl, by decide⟩, rfl⟩

variable {external : Option ExternalNetwork}

theorem decideEgress_oneEndpoint {conntrack : Conntrack} {d : Decision}
    (h : trackedEgress (oneEndpoint external) outboundPacket (Decision.pass outboundPacket)
      (conntrack (.fromPacket outboundPacket)) = .ok d)
    (hd : d.destination.address ≠ ⟨10, 1, 0, 2⟩) :
    decideEgress (oneEndpoint external) outboundPacket conntrack =
      leave (oneEndpoint external) outboundPacket d (conntrack (.fromPacket outboundPacket))
        conntrack := by
  have hpolicy : enforcePolicy (oneEndpoint external) outboundPacket .egress = .ok () := rfl
  have hloopback : hostLoopback outboundPacket = false := by decide
  have htranslate : translateEgress (oneEndpoint external) conntrack outboundPacket = .ok d := by
    simp only [translateEgress, hairpinEgress, hloopback, Bool.false_eq_true, if_false]
    exact h
  have hnone : (oneEndpoint external).endpoint d.destination.address = none := if_neg hd
  simp only [decideEgress_run, hpolicy, htranslate, hnone]
  exact if_neg (by simp [oneEndpoint, outboundPacket])

def loopbackReply : Conntrack := fun key =>
  if key = .fromPacket outboundPacket then some ⟨⟨127, 0, 0, 1⟩, 80⟩ else none

theorem trackedEgress_loopbackReply :
    ∃ d, trackedEgress (oneEndpoint external) outboundPacket (Decision.pass outboundPacket)
        (loopbackReply (.fromPacket outboundPacket)) = .ok d ∧
      d.destination.address ≠ ⟨10, 1, 0, 2⟩ := by
  have hreply : loopbackReply (.fromPacket outboundPacket) = some ⟨⟨127, 0, 0, 1⟩, 80⟩ := by decide
  have hvalid : validTarget ⟨⟨127, 0, 0, 1⟩, 80⟩ = true := by decide
  simp only [hreply, trackedEgress, hvalid, Bool.not_true, Bool.false_eq_true, if_false]
  split_ifs
  · exact ⟨_, rfl, by decide⟩
  · exact ⟨_, rfl, by decide⟩

variable {external : ExternalNetwork}

theorem snatReady_of_sent
    (h : (decideEgress (oneEndpoint (some external)) outboundPacket).result Conntrack.empty ≠
      .error .snatConfigInvalid) : snatReady external := by
  by_contra hready
  apply h
  rw [result, decideEgress_oneEndpoint rfl (by decide), leave_run]
  exact congrArg Prod.fst (if_pos hready)

theorem loopback_of_reply (hready : snatReady external)
    (h : (decideEgress (oneEndpoint (some external)) outboundPacket).result loopbackReply ≠
      .error .snatConfigInvalid) : external.loopbackIfindex ≠ 0 := by
  intro hindex
  apply h
  obtain ⟨d, htracked, hd⟩ := trackedEgress_loopbackReply
  have hreply : loopbackReply (.fromPacket outboundPacket) = some ⟨⟨127, 0, 0, 1⟩, 80⟩ := by decide
  have hloopback : (⟨127, 0, 0, 1⟩ : Ipv4).isLoopback = true := by decide
  rw [result, decideEgress_oneEndpoint htracked hd, leave_run, hreply]
  simp [oneEndpoint, hready, hloopback, hindex]

/-- An accepted configuration is one that both sides agree on exactly when the program's own checks
hold of it: an external address, a next hop, a loopback interface, and as many ports as it
probes. -/
theorem snat_config_agrees_iff (config : EbpfNetworkConfig) (contents : String)
    (hvalid : validateConfig config = .ok ())
    (_hreserved : proveReservedRange contents config.snatPortStart config.snatPortEnd = .ok ()) :
    SnatAgrees config ↔
      config.externalIpv4 ≠ Ipv4.unspecified ∧ config.nextHopMac ≠ Mac.zero ∧
        config.loopbackIfindex ≠ 0 ∧
        snatProbeLimit ≤ config.snatPortEnd.toNat - config.snatPortStart.toNat + 1 := by
  obtain ⟨hindex, hstart, hrange⟩ := validateConfig_eq_ok hvalid
  have hexternal := externalNetwork_metadata config
  constructor
  · rintro ⟨-, hagrees⟩
    have hsent := hagrees _ Conntrack.empty _ (outbound_oneEndpoint config)
    have hreply := hagrees _ loopbackReply _ (outbound_oneEndpoint config)
    rw [hexternal] at hsent hreply
    have hready := snatReady_of_sent hsent
    have hloopback := loopback_of_reply hready hreply
    simp only [snatReady, validExternal, validSnatRange, decide_eq_true_eq] at hready
    exact ⟨hready.1.1, hready.1.2.2, hloopback, hready.2.2.2.2⟩
  · rintro ⟨haddress, hmac, hloopback, hwidth⟩
    refine ⟨decode_encode _, fun tables conntrack p hout => ?_⟩
    refine decideEgress_ne (hout.1.trans hexternal) ⟨?_, rfl, ?_⟩ hloopback
    · simp [validExternal, haddress, hindex, hmac]
    · simp [validSnatRange, hstart, hrange, hwidth]

def bridgeConfig (portStart portEnd : UInt16) : EbpfNetworkConfig where
  networkId := "bridge0"
  interface := "fcbr0"
  externalIpv4 := ⟨203, 0, 113, 1⟩
  bridgeGateway := ⟨10, 1, 0, 1⟩
  externalIfindex := 2
  loopbackIfindex := 1
  nextHopMac := ⟨2, 0, 0, 0, 0, 3⟩
  snatPortStart := portStart
  snatPortEnd := portEnd

theorem bridge_config_agrees : SnatAgrees (bridgeConfig 50000 50031) :=
  (snat_config_agrees_iff (bridgeConfig 50000 50031) "50000-50031" (by decide +kernel)
    (by decide +kernel)).mpr (by decide)

/-- Four reserved ports satisfy user space, and every outbound packet is dropped. -/
theorem four_ports_accepted_and_refused :
    validateConfig (bridgeConfig 50000 50003) = .ok () ∧
      proveReservedRange "50000-50003" 50000 50003 = .ok () ∧
      ¬SnatAgrees (bridgeConfig 50000 50003) := by
  refine ⟨by decide +kernel, by decide +kernel, ?_⟩
  rintro ⟨-, hagrees⟩
  have hsent := hagrees _ Conntrack.empty _ (outbound_oneEndpoint _)
  rw [externalNetwork_metadata] at hsent
  exact absurd (snatReady_of_sent hsent) (by decide)

/-! ## The ports that are tried -/

theorem wrapped_injective_iff {n w k h : Nat} (hh : h < n) (hk : 0 < k) (hkw : k ≤ w)
    (hwn : w ≤ n) :
    (∀ i < k, ∀ j < k, (h + i) % n % w = (h + j) % n % w → i = j) ↔
      h + k ≤ n ∨ n % w = 0 ∨ k ≤ n % w := by
  have hw : 0 < w := hk.trans_le hkw
  have hn := Nat.div_add_mod n w
  have hr := Nat.mod_lt n hw
  have before : ∀ i, h + i < n → (h + i) % n % w = (h + i) % w := fun i hi => by
    rw [Nat.mod_eq_of_lt hi]
  have behind : ∀ i < k, n ≤ h + i → (h + i) % n % w = h + i - n := fun i hi hin => by
    rw [Nat.mod_eq_sub_mod hin, Nat.mod_eq_of_lt (by omega : h + i - n < n),
      Nat.mod_eq_of_lt (by omega)]
  constructor
  · intro hinj
    by_contra hcond
    push Not at hcond
    obtain ⟨hwrap, hzero, hlt⟩ := hcond
    -- the numbers of the last, partial block before the wrap-around come back behind it
    have hsplit : h + (n - n % w - h) =
        w * (n / w) + (h + (n - n % w - h + n % w) - n) := by omega
    have hsame : (h + (n - n % w - h)) % n % w = (h + (n - n % w - h + n % w)) % n % w := by
      rw [before _ (by omega), behind _ (by omega) (by omega), hsplit, Nat.mul_add_mod,
        Nat.mod_eq_of_lt (by omega)]
    have heq := hinj _ (by omega) _ (by omega) hsame
    omega
  · intro hcond i hi j hj hsame
    by_contra hne
    wlog hlt : i < j generalizing i j
    · exact this j hj i hi hsame.symm (Ne.symm hne) (by omega)
    by_cases hjn : h + j < n
    · rw [before i (by omega), before j hjn] at hsame
      have hdvd := (Nat.modEq_iff_dvd' (by omega : h + i ≤ h + j)).mp hsame
      have hle := Nat.le_of_dvd (by omega) hdvd
      omega
    by_cases hin : h + i < n
    · rw [before i hin, behind j hj (by omega)] at hsame
      have hblock := Nat.div_add_mod (h + i) w
      have hnsplit : n = w * ((h + i) / w) + (j - i) := by omega
      have hnmod : n % w = j - i := by
        conv_lhs => rw [hnsplit]
        rw [Nat.mul_add_mod, Nat.mod_eq_of_lt (by omega)]
      omega
    · rw [behind i hi (by omega), behind j hj (by omega)] at hsame
      omega

def snatHash (p : Packet) : UInt32 :=
  (FlowKey.fromPacket p).encode.foldl
    (fun hash byte => (hash ^^^ byte.toUInt32) * 16777619) 2166136261

def snatWidth (rangeStart rangeEnd : UInt16) : Nat := rangeEnd.toNat - rangeStart.toNat + 1

def snatOffset (p : Packet) (probe : Nat) (rangeStart rangeEnd : UInt16) : Nat :=
  (snatHash p + UInt32.ofNat probe).toNat % snatWidth rangeStart rangeEnd

section Probes
variable {tables : Tables} {conntrack conntrack' : Conntrack} {p : Packet}
variable {rangeStart rangeEnd : UInt16} {probe probe' : Nat}

theorem snatCandidate_eq (h : validSnatRange rangeStart rangeEnd)
    (hprobe : probe < snatProbeLimit) :
    snatCandidate p probe rangeStart rangeEnd =
      some (rangeStart + (snatOffset p probe rangeStart rangeEnd).toUInt16) := by
  rw [snatCandidate, if_neg (by simp [h, hprobe])]
  rfl

theorem validSnatRange_iff :
    validSnatRange rangeStart rangeEnd ↔
      rangeStart ≠ 0 ∧ rangeStart.toNat ≤ rangeEnd.toNat ∧
        snatProbeLimit ≤ snatWidth rangeStart rangeEnd := by
  simp [validSnatRange, snatWidth, UInt16.le_iff_toNat_le]

theorem snatWidth_le (h : validSnatRange rangeStart rangeEnd) :
    rangeStart.toNat + snatWidth rangeStart rangeEnd ≤ 2 ^ 16 := by
  have hle := (validSnatRange_iff.mp h).2.1
  have hend := rangeEnd.toNat_lt
  simp only [snatWidth]
  omega

theorem snatOffset_lt (p : Packet) (probe : Nat) (rangeStart rangeEnd : UInt16) :
    snatOffset p probe rangeStart rangeEnd < snatWidth rangeStart rangeEnd :=
  Nat.mod_lt _ (Nat.succ_pos _)

theorem toNat_candidate (h : validSnatRange rangeStart rangeEnd) :
    (rangeStart + (snatOffset p probe rangeStart rangeEnd).toUInt16).toNat =
      rangeStart.toNat + snatOffset p probe rangeStart rangeEnd := by
  have hwidth := snatWidth_le h
  have hoffset := snatOffset_lt p probe rangeStart rangeEnd
  rw [UInt16.toNat_add, Nat.toUInt16_eq, UInt16.toNat_ofNat', Nat.mod_eq_of_lt (by omega)]
  omega

theorem snatOffset_eq (hprobe : probe < snatProbeLimit) :
    snatOffset p probe rangeStart rangeEnd =
      ((snatHash p).toNat + probe) % 2 ^ 32 % snatWidth rangeStart rangeEnd := by
  have hsmall : probe % 2 ^ 32 = probe := Nat.mod_eq_of_lt (hprobe.trans (by decide))
  rw [snatOffset, UInt32.toNat_add, UInt32.toNat_ofNat', hsmall]

theorem snatCandidate_eq_iff (h : validSnatRange rangeStart rangeEnd)
    (hprobe : probe < snatProbeLimit) (hprobe' : probe' < snatProbeLimit) :
    snatCandidate p probe rangeStart rangeEnd = snatCandidate p probe' rangeStart rangeEnd ↔
      ((snatHash p).toNat + probe) % 2 ^ 32 % snatWidth rangeStart rangeEnd =
        ((snatHash p).toNat + probe') % 2 ^ 32 % snatWidth rangeStart rangeEnd := by
  rw [snatCandidate_eq h hprobe, snatCandidate_eq h hprobe', ← snatOffset_eq hprobe,
    ← snatOffset_eq hprobe', Option.some_inj, ← UInt16.toNat_inj, toNat_candidate h,
    toNat_candidate h, Nat.add_left_cancel_iff]

theorem snatCandidate_mem (h : validSnatRange rangeStart rangeEnd)
    (hprobe : probe < snatProbeLimit) :
    ∃ port, snatCandidate p probe rangeStart rangeEnd = some port ∧
      rangeStart ≤ port ∧ port ≤ rangeEnd := by
  refine ⟨_, snatCandidate_eq h hprobe, ?_⟩
  have hle := (validSnatRange_iff.mp h).2.1
  have hoffset := snatOffset_lt p probe rangeStart rangeEnd
  simp only [snatWidth] at hoffset
  rw [UInt16.le_iff_toNat_le, UInt16.le_iff_toNat_le, toNat_candidate h]
  omega

variable {external : ExternalNetwork}

theorem taken_of_installFrom {left : Nat}
    (h : installFrom tables p external left conntrack = (.error .snatExhausted, conntrack')) :
    ∀ probe, snatProbeLimit - left ≤ probe → probe < snatProbeLimit →
      ∃ port, snatCandidate p probe external.snatPortStart external.snatPortEnd = some port ∧
        (conntrack (conntrackPair p external port).reverse.key).isSome := by
  induction left with
  | zero => exact fun probe hle hlt => absurd hlt (not_lt.mpr hle)
  | succ left ih =>
    intro probe hle hlt
    rw [installFrom_succ] at h
    cases hport : snatCandidate p (snatProbeLimit - (left + 1)) external.snatPortStart
        external.snatPortEnd with
    | none =>
      simp only [hport] at h
      cases h
    | some port =>
      simp only [hport] at h
      split_ifs at h with hfails htaken hforward
      · cases h
      · rcases Nat.eq_or_lt_of_le hle with heq | hlater
        · exact ⟨port, heq ▸ hport, htaken⟩
        · exact ih h probe (by omega) hlt
      · cases h
      · cases h

/-- What probing is for: eight ports of the range are tried, and the search fails only where that
many are taken for the remote socket; the sums that make a port stay in their widths. -/
structure ProbesPorts (p : Packet) (rangeStart rangeEnd : UInt16) : Prop where
  distinct : ∀ probe < snatProbeLimit, ∀ probe' < snatProbeLimit,
    snatCandidate p probe rangeStart rangeEnd = snatCandidate p probe' rangeStart rangeEnd →
      probe = probe'
  mem : ∀ probe < snatProbeLimit, ∃ port,
    snatCandidate p probe rangeStart rangeEnd = some port ∧ rangeStart ≤ port ∧ port ≤ rangeEnd
  exhausted : ∀ tables conntrack conntrack' (external : ExternalNetwork),
    external.snatPortStart = rangeStart → external.snatPortEnd = rangeEnd →
      installGenericSnat tables p external conntrack = (.error .snatExhausted, conntrack') →
        ∃ ports : List UInt16, ports.Nodup ∧ snatProbeLimit ≤ ports.length ∧
          ∀ port ∈ ports, rangeStart ≤ port ∧ port ≤ rangeEnd ∧
            (conntrack (conntrackPair p external port).reverse.key).isSome
  ordered : rangeStart.toNat ≤ rangeEnd.toNat
  width : snatWidth rangeStart rangeEnd < 2 ^ 32
  offset : ∀ probe < snatProbeLimit, snatOffset p probe rangeStart rangeEnd < 2 ^ 16
  sum : ∀ probe < snatProbeLimit,
    rangeStart.toNat + snatOffset p probe rangeStart rangeEnd < 2 ^ 16

theorem exhausted_of_distinct (h : validSnatRange rangeStart rangeEnd)
    (hdistinct : ∀ probe < snatProbeLimit, ∀ probe' < snatProbeLimit,
      snatCandidate p probe rangeStart rangeEnd = snatCandidate p probe' rangeStart rangeEnd →
        probe = probe') (hstart : external.snatPortStart = rangeStart)
    (hend : external.snatPortEnd = rangeEnd)
    (hrun : installGenericSnat tables p external conntrack = (.error .snatExhausted, conntrack')) :
    ∃ ports : List UInt16, ports.Nodup ∧ snatProbeLimit ≤ ports.length ∧
      ∀ port ∈ ports, rangeStart ≤ port ∧ port ≤ rangeEnd ∧
        (conntrack (conntrackPair p external port).reverse.key).isSome := by
  subst hstart hend
  have htaken := taken_of_installFrom hrun
  simp only [Nat.sub_self, Nat.zero_le, forall_const] at htaken
  choose! port hport hused using htaken
  refine ⟨(List.range snatProbeLimit).map port, ?_, by simp, fun found hfound => ?_⟩
  · refine List.Nodup.map_on (fun probe hprobe probe' hprobe' heq => ?_) List.nodup_range
    rw [List.mem_range] at hprobe hprobe'
    exact hdistinct probe hprobe probe' hprobe'
      (by rw [hport probe hprobe, hport probe' hprobe', heq])
  · obtain ⟨probe, hprobe, rfl⟩ := List.mem_map.mp hfound
    rw [List.mem_range] at hprobe
    obtain ⟨_, hcandidate, hmem⟩ := snatCandidate_mem (p := p) h hprobe
    obtain rfl := Option.some.inj ((hport probe hprobe).symm.trans hcandidate)
    exact ⟨hmem.1, hmem.2, hused probe hprobe⟩

theorem distinct_candidates_iff (h : validSnatRange rangeStart rangeEnd) :
    (∀ probe < snatProbeLimit, ∀ probe' < snatProbeLimit,
      snatCandidate p probe rangeStart rangeEnd = snatCandidate p probe' rangeStart rangeEnd →
        probe = probe') ↔
      (snatHash p).toNat + snatProbeLimit ≤ 2 ^ 32 ∨
        2 ^ 32 % snatWidth rangeStart rangeEnd = 0 ∨
          snatProbeLimit ≤ 2 ^ 32 % snatWidth rangeStart rangeEnd := by
  have hwide := snatWidth_le h
  rw [← wrapped_injective_iff (snatHash p).toNat_lt (by decide) (validSnatRange_iff.mp h).2.2
    (by omega)]
  constructor
  · intro hdistinct i hi j hj heq
    exact hdistinct i hi j hj ((snatCandidate_eq_iff h hi hj).mpr heq)
  · intro hdistinct i hi j hj heq
    exact hdistinct i hi j hj ((snatCandidate_eq_iff h hi hj).mp heq)

/-- The ports differ unless the hash is so close to its largest value that counting on from it
wraps, and the width of the range leaves a remainder of one to seven there. -/
theorem probes_ports_iff (p : Packet) (rangeStart rangeEnd : UInt16)
    (hrange : validSnatRange rangeStart rangeEnd) :
    ProbesPorts p rangeStart rangeEnd ↔
      (snatHash p).toNat + snatProbeLimit ≤ 2 ^ 32 ∨
        2 ^ 32 % snatWidth rangeStart rangeEnd = 0 ∨
          snatProbeLimit ≤ 2 ^ 32 % snatWidth rangeStart rangeEnd := by
  have hle := (validSnatRange_iff.mp hrange).2.1
  have hwide := snatWidth_le hrange
  rw [← distinct_candidates_iff hrange]
  constructor
  · exact ProbesPorts.distinct
  · intro h
    have hoffset : ∀ probe, snatOffset p probe rangeStart rangeEnd < _ := fun probe =>
      snatOffset_lt p probe rangeStart rangeEnd
    exact
      { distinct := h
        mem := fun probe hprobe => snatCandidate_mem hrange hprobe
        exhausted := fun _ _ _ _ hstart hend hrun => exhausted_of_distinct hrange h hstart hend hrun
        ordered := hle
        width := by omega
        offset := fun probe _ => (hoffset probe).trans_le (by omega)
        sum := fun probe _ => by
          have := hoffset probe
          omega }

end Probes

theorem outbound_probes_ports : ProbesPorts outboundPacket 50000 50031 :=
  (probes_ports_iff outboundPacket 50000 50031 (by decide)).mpr (.inr (.inl (by decide)))

def wrappingPacket : Packet := ⟨6, ⟨⟨10, 1, 0, 2⟩, 28421⟩, ⟨⟨93, 0, 147, 51⟩, 443⟩⟩

def everyPort : ExternalNetwork where
  address := ⟨203, 0, 113, 1⟩
  bridgeGateway := ⟨10, 1, 0, 1⟩
  ifindex := 2
  loopbackIfindex := 1
  nextHopMac := ⟨2, 0, 0, 0, 0, 3⟩
  snatPortStart := 1
  snatPortEnd := 65535
  snatRangeReserved := true

def sevenTaken : Conntrack := fun key =>
  if 1 ≤ key.destinationPort ∧ key.destinationPort ≤ 7 then some ⟨⟨10, 1, 0, 3⟩, 40000⟩ else none

/-- Seven taken ports of 65535 exhaust the search, since its first two probes are one port. -/
theorem seven_ports_exhaust :
    validSnatRange 1 65535 ∧
      snatCandidate wrappingPacket 0 1 65535 = snatCandidate wrappingPacket 1 1 65535 ∧
      (installGenericSnat (oneEndpoint none) wrappingPacket everyPort sevenTaken).1 =
        .error .snatExhausted ∧
      (∀ port, (sevenTaken (conntrackPair wrappingPacket everyPort port).reverse.key).isSome →
        1 ≤ port ∧ port ≤ 7) ∧
      ¬ProbesPorts wrappingPacket 1 65535 := by
  have hsame : snatCandidate wrappingPacket 0 1 65535 = snatCandidate wrappingPacket 1 1 65535 := by
    decide +kernel
  refine ⟨by decide, hsame, by decide +kernel, fun port htaken => ?_, fun hports => ?_⟩
  · by_contra hout
    have hnone : sevenTaken (conntrackPair wrappingPacket everyPort port).reverse.key = none :=
      if_neg hout
    rw [hnone] at htaken
    cases htaken
  · exact absurd (hports.distinct 0 (by decide) 1 (by decide) hsame) (by decide)

end Ferrocrate.Ebpf
