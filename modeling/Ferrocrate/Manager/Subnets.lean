import Ferrocrate.Lib.Cidr
import Ferrocrate.Lib.Runs
import Mathlib.Data.List.Pairwise

/-! Overlay ranges and node subnets in the manager's database. -/
namespace Ferrocrate.Manager
open Lib

inductive IpNet where
  | v4 (net : Ipv4Net)
  | v6

structure NetText where
  parse : String → Except String IpNet
  display : Ipv4Net → String

def NetText.RoundTrips (text : NetText) : Prop :=
  ∀ net, text.parse (text.display net) = .ok (.v4 net)

inductive StoreError where
  | sql
  | invalidNetwork (message : String)
  | overlayUnknown (overlayId : String)
  | subnetExhausted
deriving DecidableEq

structure Overlay where
  id : String
  cidr : String
deriving DecidableEq

structure NodeSubnet where
  overlayId : String
  nodeId : String
  cidr : String
deriving DecidableEq

structure Database where
  nodes : List String
  overlays : List Overlay
  nodeSubnets : List NodeSubnet
deriving DecidableEq

def maxAllocationCandidates : Nat := 65536

def networksOverlap (left right : Ipv4Net) : Bool :=
  left.contains right.network || right.contains left.network

namespace NetText
variable (text : NetText)

def parseV4 (cidr : String) : Except StoreError Ipv4Net :=
  match text.parse cidr with
  | .error message => .error (.invalidNetwork message)
  | .ok (.v4 network) => .ok network
  | .ok .v6 => .error (.invalidNetwork "only IPv4 overlay ranges are currently supported")

def checkOverlap (network : Ipv4Net) : List Overlay → Except StoreError Unit
  | [] => .ok ()
  | row :: rows =>
    match text.parseV4 row.cidr with
    | .error e => .error e
    | .ok existing =>
      if networksOverlap network existing then
        .error (.invalidNetwork "overlay ranges must not overlap")
      else checkOverlap network rows

def createOverlay (overlay : Overlay) (db : Database) : Except StoreError Database :=
  match text.parseV4 overlay.cidr with
  | .error e => .error e
  | .ok network =>
    match text.checkOverlap network db.overlays with
    | .error e => .error e
    | .ok () =>
      if overlay.id ∈ db.overlays.map Overlay.id ∨ overlay.cidr ∈ db.overlays.map Overlay.cidr then
        .error .sql
      else .ok { db with overlays := db.overlays ++ [overlay] }

def isUsed (used : List String) (candidate : Ipv4Net) : Bool :=
  used.any fun cidr =>
    match text.parseV4 cidr with
    | .ok assigned => networksOverlap candidate assigned
    | .error _ => false

def firstFree (hostReserved : List Ipv4Net) (used : List String) (base size prefixLen : Nat) :
    List Nat → Except StoreError Ipv4Net
  | [] => .error .subnetExhausted
  | slot :: slots =>
    match Ipv4Net.new (.ofNat (base + slot * size)) prefixLen with
    | none => .error (.invalidNetwork "invalid IP prefix length")
    | some candidate =>
      if hostReserved.any (networksOverlap candidate) || text.isUsed used candidate then
        firstFree hostReserved used base size prefixLen slots
      else .ok candidate

def slotCount (overlay : Ipv4Net) (prefixLen : Nat) : Nat :=
  min (1 <<< (prefixLen - overlay.prefixLen)) maxAllocationCandidates

def insertSubnet (row : NodeSubnet) (db : Database) : Except StoreError Database :=
  if row.nodeId ∈ db.nodes ∧ row.overlayId ∈ db.overlays.map Overlay.id ∧
      (∀ other ∈ db.nodeSubnets, ¬(other.overlayId = row.overlayId ∧ other.nodeId = row.nodeId) ∧
        other.cidr ≠ row.cidr) then
    .ok { db with nodeSubnets := db.nodeSubnets ++ [row] }
  else .error .sql

def allocateNodeSubnet (overlayId nodeId : String) (prefixLen : UInt8)
    (hostReserved : List Ipv4Net) (db : Database) : Except StoreError (Ipv4Net × Database) :=
  match db.overlays.find? fun row => row.id = overlayId with
  | none => .error (.overlayUnknown overlayId)
  | some row =>
    match text.parseV4 row.cidr with
    | .error e => .error e
    | .ok overlay =>
      if prefixLen.toNat < overlay.prefixLen ∨ 30 < prefixLen.toNat then
        .error (.invalidNetwork
          "node subnet prefix must be within the IPv4 overlay and no longer than /30")
      else
        match db.nodeSubnets.find? fun row => row.overlayId = overlayId ∧ row.nodeId = nodeId with
        | some row => (text.parseV4 row.cidr).map fun net => (net, db)
        | none =>
          let used := (db.nodeSubnets.filter fun row => row.overlayId = overlayId).map (·.cidr)
          match text.firstFree hostReserved used overlay.network.toNat
              (1 <<< (32 - prefixLen.toNat)) prefixLen.toNat
              (List.range (slotCount overlay prefixLen.toNat)) with
          | .error e => .error e
          | .ok candidate =>
            (insertSubnet ⟨overlayId, nodeId, text.display candidate⟩ db).map fun db =>
              (candidate, db)

end NetText

inductive StoreCall where
  | registerNode (nodeId : String)
  | createOverlay (overlay : Overlay)
  | allocateNodeSubnet (overlayId nodeId : String) (prefixLen : UInt8)
      (hostReserved : List Ipv4Net)

def Database.apply (text : NetText) (db : Database) : StoreCall → Database
  | .registerNode nodeId => { db with nodes := db.nodes ++ [nodeId] }
  | .createOverlay overlay =>
    match text.createOverlay overlay db with
    | .ok db => db
    | .error _ => db
  | .allocateNodeSubnet overlayId nodeId prefixLen hostReserved =>
    match text.allocateNodeSubnet overlayId nodeId prefixLen hostReserved db with
    | .ok (_, db) => db
    | .error _ => db

def Database.new : Database := ⟨[], [], []⟩

theorem networksOverlap_eq_true_iff (left right : Ipv4Net) :
    networksOverlap left right = true ↔ ¬left.Apart right := by
  rw [networksOverlap, Bool.or_eq_true, Ipv4Net.not_apart_iff]

theorem apart_of_networksOverlap {left right : Ipv4Net} (h : networksOverlap left right = false) :
    left.Apart right := by
  by_contra hapart
  rw [(networksOverlap_eq_true_iff left right).mpr hapart] at h
  cases h

structure InRange (overlay : Ipv4Net) (prefixLen : Nat) : Prop where
  lower : overlay.prefixLen ≤ prefixLen
  upper : prefixLen ≤ 30

namespace InRange
variable {overlay : Ipv4Net} {prefixLen : Nat} (h : InRange overlay prefixLen)
include h

theorem slots_mul_size :
    2 ^ (prefixLen - overlay.prefixLen) * 2 ^ (32 - prefixLen) = overlay.size := by
  have hlower := h.lower
  have hupper := h.upper
  rw [← Nat.pow_add, Ipv4Net.size]
  congr 1
  omega

omit h in
theorem slot_lt {slot : Nat} (hslot : slot < NetText.slotCount overlay prefixLen) :
    slot < 2 ^ (prefixLen - overlay.prefixLen) := by
  have hlt := Nat.lt_of_lt_of_le hslot (Nat.min_le_left _ _)
  rwa [Nat.one_shiftLeft] at hlt

theorem slot_end_le {slot : Nat} (hslot : slot < NetText.slotCount overlay prefixLen) :
    slot * 2 ^ (32 - prefixLen) + 2 ^ (32 - prefixLen) ≤ overlay.size := by
  calc slot * 2 ^ (32 - prefixLen) + 2 ^ (32 - prefixLen)
      = (slot + 1) * 2 ^ (32 - prefixLen) := (Nat.succ_mul _ _).symm
    _ ≤ 2 ^ (prefixLen - overlay.prefixLen) * 2 ^ (32 - prefixLen) :=
        Nat.mul_le_mul_right _ (slot_lt hslot)
    _ = overlay.size := h.slots_mul_size

theorem base_add_lt {slot : Nat} (hslot : slot < NetText.slotCount overlay prefixLen) :
    overlay.network.toNat + slot * 2 ^ (32 - prefixLen) < 2 ^ 32 := by
  have hend := h.slot_end_le hslot
  have hpos : 0 < 2 ^ (32 - prefixLen) := Nat.two_pow_pos _
  have hblock := overlay.block_le overlay.addr
  rw [Ipv4Net.toNat_network]
  omega

theorem within {slot : Nat} (hslot : slot < NetText.slotCount overlay prefixLen)
    {candidate : Ipv4Net}
    (hcandidate : Ipv4Net.new (.ofNat (overlay.network.toNat + slot * 2 ^ (32 - prefixLen)))
      prefixLen = some candidate) : candidate.Within overlay := by
  have hupper := h.upper
  have hprefix : prefixLen ≤ 32 := by omega
  rw [Ipv4Net.new, dif_pos hprefix] at hcandidate
  obtain rfl := Option.some.inj hcandidate
  apply Ipv4Net.within_of_contains_addr h.lower
  have hend := h.slot_end_le hslot
  have hpos : 0 < 2 ^ (32 - prefixLen) := Nat.two_pow_pos _
  rw [Ipv4Net.contains_iff_le, UInt32.toNat_ofNat', Nat.mod_eq_of_lt (h.base_add_lt hslot)]
  omega

end InRange

namespace NetText
variable {text : NetText} {hostReserved : List Ipv4Net} {used : List String}
  {base size prefixLen : Nat} {slots : List Nat}

theorem firstFree_eq_ok {candidate : Ipv4Net}
    (h : text.firstFree hostReserved used base size prefixLen slots = .ok candidate) :
    ∃ slot ∈ slots, Ipv4Net.new (.ofNat (base + slot * size)) prefixLen = some candidate ∧
      hostReserved.any (networksOverlap candidate) = false ∧
      text.isUsed used candidate = false := by
  induction slots with
  | nil => cases h
  | cons slot slots ih =>
    rw [firstFree] at h
    cases hnew : Ipv4Net.new (.ofNat (base + slot * size)) prefixLen with
    | none =>
      rw [hnew] at h
      cases h
    | some net =>
      rw [hnew] at h
      dsimp only at h
      by_cases htaken : (hostReserved.any (networksOverlap net) || text.isUsed used net) = true
      · rw [if_pos htaken] at h
        obtain ⟨slot', hslot', hfree⟩ := ih h
        exact ⟨slot', List.mem_cons_of_mem _ hslot', hfree⟩
      · rw [if_neg htaken] at h
        obtain rfl := Except.ok.inj h
        rw [Bool.or_eq_true, not_or, Bool.not_eq_true, Bool.not_eq_true] at htaken
        exact ⟨slot, List.mem_cons_self, hnew, htaken⟩

theorem firstFree_exhausted
    (h : text.firstFree hostReserved used base size prefixLen slots = .error .subnetExhausted) :
    ∀ slot ∈ slots, ∃ candidate,
      Ipv4Net.new (.ofNat (base + slot * size)) prefixLen = some candidate ∧
        (hostReserved.any (networksOverlap candidate) = true ∨
          text.isUsed used candidate = true) := by
  induction slots with
  | nil => simp
  | cons slot slots ih =>
    rw [firstFree] at h
    cases hnew : Ipv4Net.new (.ofNat (base + slot * size)) prefixLen with
    | none =>
      rw [hnew] at h
      cases h
    | some net =>
      rw [hnew] at h
      dsimp only at h
      by_cases htaken : (hostReserved.any (networksOverlap net) || text.isUsed used net) = true
      · rw [if_pos htaken] at h
        intro slot' hslot'
        rcases List.mem_cons.mp hslot' with rfl | hslot'
        · exact ⟨net, hnew, by simpa using htaken⟩
        · exact ih h slot' hslot'
      · rw [if_neg htaken] at h
        cases h

theorem parseV4_ne_exhausted (cidr : String) : text.parseV4 cidr ≠ .error .subnetExhausted := by
  intro h
  rw [parseV4] at h
  cases hparse : text.parse cidr with
  | error message =>
    rw [hparse] at h
    cases h
  | ok net =>
    rw [hparse] at h
    cases net <;> cases h

theorem parseV4_display (h : text.RoundTrips) (net : Ipv4Net) :
    text.parseV4 (text.display net) = .ok net := by
  rw [parseV4, h net]

theorem isUsed_eq_true_iff (candidate : Ipv4Net) : text.isUsed used candidate = true ↔
    ∃ cidr ∈ used, ∃ assigned, text.parseV4 cidr = .ok assigned ∧ ¬candidate.Apart assigned := by
  rw [isUsed, List.any_eq_true]
  apply exists_congr
  intro cidr
  cases hparse : text.parseV4 cidr with
  | error e => simp
  | ok assigned => simp [networksOverlap_eq_true_iff]

theorem any_networksOverlap_iff (candidate : Ipv4Net) :
    hostReserved.any (networksOverlap candidate) = true ↔
      ∃ reserved ∈ hostReserved, ¬candidate.Apart reserved := by
  rw [List.any_eq_true]
  simp only [networksOverlap_eq_true_iff]

theorem checkOverlap_eq_ok {network : Ipv4Net} {rows : List Overlay}
    (h : text.checkOverlap network rows = .ok ()) :
    ∀ row ∈ rows, ∃ existing, text.parseV4 row.cidr = .ok existing ∧ network.Apart existing := by
  induction rows with
  | nil => simp
  | cons row rows ih =>
    rw [checkOverlap] at h
    cases hparse : text.parseV4 row.cidr with
    | error e =>
      rw [hparse] at h
      cases h
    | ok existing =>
      rw [hparse] at h
      dsimp only at h
      by_cases hoverlap : networksOverlap network existing = true
      · rw [if_pos hoverlap] at h
        cases h
      · rw [if_neg hoverlap] at h
        intro row' hrow'
        rcases List.mem_cons.mp hrow' with rfl | hrow'
        · exact ⟨existing, hparse, apart_of_networksOverlap (by simpa using hoverlap)⟩
        · exact ih h row' hrow'

theorem createOverlay_eq_ok {overlay : Overlay} {db db' : Database}
    (h : text.createOverlay overlay db = .ok db') :
    db' = { db with overlays := db.overlays ++ [overlay] } ∧
      ∃ network, text.parseV4 overlay.cidr = .ok network ∧
        ∀ row ∈ db.overlays,
          ∃ existing, text.parseV4 row.cidr = .ok existing ∧ network.Apart existing := by
  rw [createOverlay] at h
  cases hparse : text.parseV4 overlay.cidr with
  | error e =>
    rw [hparse] at h
    cases h
  | ok network =>
    rw [hparse] at h
    dsimp only at h
    cases hcheck : text.checkOverlap network db.overlays with
    | error e =>
      rw [hcheck] at h
      cases h
    | ok _ =>
      rw [hcheck] at h
      dsimp only at h
      split_ifs at h with hkeys
      exact ⟨(Except.ok.inj h).symm, network, rfl, checkOverlap_eq_ok hcheck⟩

def usedIn (db : Database) (overlayId : String) : List String :=
  (db.nodeSubnets.filter fun row => row.overlayId = overlayId).map (·.cidr)

def overlayRow (db : Database) (overlayId : String) : Option Overlay :=
  db.overlays.find? fun row => row.id = overlayId

def subnetRow (db : Database) (overlayId nodeId : String) : Option NodeSubnet :=
  db.nodeSubnets.find? fun row => row.overlayId = overlayId ∧ row.nodeId = nodeId

theorem allocateNodeSubnet_run (overlayId nodeId : String) (prefixLen : UInt8)
    (hostReserved : List Ipv4Net) {db : Database} {row : Overlay} {overlay : Ipv4Net}
    (hrow : overlayRow db overlayId = some row) (hoverlay : text.parseV4 row.cidr = .ok overlay)
    (hrange : InRange overlay prefixLen.toNat) :
    text.allocateNodeSubnet overlayId nodeId prefixLen hostReserved db =
      match subnetRow db overlayId nodeId with
      | some row => (text.parseV4 row.cidr).map fun net => (net, db)
      | none =>
        match text.firstFree hostReserved (usedIn db overlayId) overlay.network.toNat
            (2 ^ (32 - prefixLen.toNat)) prefixLen.toNat
            (List.range (slotCount overlay prefixLen.toNat)) with
        | .error e => .error e
        | .ok candidate =>
          (insertSubnet ⟨overlayId, nodeId, text.display candidate⟩ db).map fun db =>
            (candidate, db) := by
  have hlower := hrange.lower
  have hupper := hrange.upper
  rw [allocateNodeSubnet]
  unfold overlayRow at hrow
  rw [hrow]
  dsimp only
  rw [hoverlay]
  dsimp only
  rw [if_neg (by omega), Nat.one_shiftLeft]
  rfl

theorem allocateNodeSubnet_range {overlayId nodeId : String} {prefixLen : UInt8}
    {hostReserved : List Ipv4Net} {db : Database}
    (h : (∃ result, text.allocateNodeSubnet overlayId nodeId prefixLen hostReserved db = .ok result)
      ∨ text.allocateNodeSubnet overlayId nodeId prefixLen hostReserved db
          = .error .subnetExhausted) :
    ∃ row overlay, overlayRow db overlayId = some row ∧ text.parseV4 row.cidr = .ok overlay ∧
      InRange overlay prefixLen.toNat := by
  rw [allocateNodeSubnet] at h
  cases hrow : db.overlays.find? fun row => row.id = overlayId with
  | none => simp [hrow] at h
  | some row =>
    rw [hrow] at h
    dsimp only at h
    cases hoverlay : text.parseV4 row.cidr with
    | error e =>
      rw [hoverlay] at h
      rcases h with ⟨result, h⟩ | h
      · cases h
      · rw [Except.error.inj h] at hoverlay
        exact absurd hoverlay (parseV4_ne_exhausted row.cidr)
    | ok overlay =>
      rw [hoverlay] at h
      dsimp only at h
      by_cases hout : prefixLen.toNat < overlay.prefixLen ∨ 30 < prefixLen.toNat
      · simp [hout] at h
      · exact ⟨row, overlay, hrow, hoverlay, by omega, by omega⟩

end NetText

def NetText.Reads (text : NetText) (cidr : String) (net : Ipv4Net) : Prop :=
  text.parseV4 cidr = .ok net

structure Separated (text : NetText) (db : Database) : Prop where
  ranges : ∀ overlay ∈ db.overlays, ∃ net, text.Reads overlay.cidr net
  overlays : db.overlays.Pairwise fun a b => ∀ left right, text.Reads a.cidr left →
    text.Reads b.cidr right → left.Apart right
  within : ∀ subnet ∈ db.nodeSubnets, ∃ overlay ∈ db.overlays, overlay.id = subnet.overlayId ∧
    ∃ inner outer, text.Reads subnet.cidr inner ∧ text.Reads overlay.cidr outer ∧
      inner.Within outer
  subnets : db.nodeSubnets.Pairwise fun a b => ∀ left right, text.Reads a.cidr left →
    text.Reads b.cidr right → left.Apart right

namespace Separated
variable {text : NetText} {db : Database}

theorem new (text : NetText) : Separated text .new :=
  ⟨by simp [Database.new], .nil, by simp [Database.new], .nil⟩

theorem createOverlay (h : Separated text db) {overlay : Overlay} {db' : Database}
    (hrun : text.createOverlay overlay db = .ok db') : Separated text db' := by
  obtain ⟨rfl, network, hnetwork, hapart⟩ := NetText.createOverlay_eq_ok hrun
  constructor
  · intro row hrow
    rcases List.mem_append.mp hrow with hrow | hrow
    · exact h.ranges row hrow
    · rw [List.mem_singleton.mp hrow]
      exact ⟨network, hnetwork⟩
  · apply List.pairwise_append.mpr
    refine ⟨h.overlays, List.pairwise_singleton .., ?_⟩
    intro a ha b hb left right hleft hright
    rw [List.mem_singleton.mp hb] at hright
    obtain ⟨existing, hexisting, hdisjoint⟩ := hapart a ha
    obtain rfl := Except.ok.inj (hexisting.symm.trans hleft)
    obtain rfl := Except.ok.inj (hnetwork.symm.trans hright)
    exact hdisjoint.symm
  · intro subnet hsubnet
    obtain ⟨row, hrow, hrest⟩ := h.within subnet hsubnet
    exact ⟨row, List.mem_append_left _ hrow, hrest⟩
  · exact h.subnets

theorem apart_of_ne (h : Separated text db) {a b : Overlay} (ha : a ∈ db.overlays)
    (hb : b ∈ db.overlays) (hne : a.id ≠ b.id) {left right : Ipv4Net}
    (hleft : text.Reads a.cidr left) (hright : text.Reads b.cidr right) : left.Apart right := by
  have : Std.Symm fun a b : Overlay => ∀ left right, text.Reads a.cidr left →
      text.Reads b.cidr right → left.Apart right :=
    ⟨fun a b hab left right hl hr => (hab right left hr hl).symm⟩
  exact h.overlays.forall ha hb (fun heq => hne (congrArg Overlay.id heq)) left right hleft hright

theorem apart_candidate (h : Separated text db) {overlayId : String} {row : Overlay}
    {overlay candidate : Ipv4Net} (hrow : NetText.overlayRow db overlayId = some row)
    (hoverlay : text.Reads row.cidr overlay) (hwithin : candidate.Within overlay)
    (hunused : text.isUsed (NetText.usedIn db overlayId) candidate = false) :
    ∀ subnet ∈ db.nodeSubnets, ∀ net, text.Reads subnet.cidr net → net.Apart candidate := by
  intro subnet hsubnet net hnet
  by_cases hsame : subnet.overlayId = overlayId
  · by_contra hoverlap
    have hused : subnet.cidr ∈ NetText.usedIn db overlayId := by
      apply List.mem_map_of_mem
      rw [List.mem_filter]
      exact ⟨hsubnet, decide_eq_true hsame⟩
    rw [(NetText.isUsed_eq_true_iff candidate).mpr
      ⟨subnet.cidr, hused, net, hnet, fun hapart => hoverlap hapart.symm⟩] at hunused
    cases hunused
  · obtain ⟨other, hother, hid, inner, outer, hinner, houter, hin⟩ := h.within subnet hsubnet
    obtain rfl := Except.ok.inj (hinner.symm.trans hnet)
    have hfound : row.id = overlayId := by simpa using List.find?_some hrow
    have hne : other.id ≠ row.id := by
      rw [hid, hfound]
      exact hsame
    exact (h.apart_of_ne hother (List.mem_of_find?_eq_some hrow) hne houter hoverlay).mono hin
      hwithin

theorem insert (h : Separated text db) (hround : text.RoundTrips) {overlayId : String}
    (nodeId : String) {row : Overlay} {overlay candidate : Ipv4Net}
    (hrow : NetText.overlayRow db overlayId = some row) (hoverlay : text.Reads row.cidr overlay)
    (hwithin : candidate.Within overlay)
    (hunused : text.isUsed (NetText.usedIn db overlayId) candidate = false) :
    Separated text { db with
      nodeSubnets := db.nodeSubnets ++ [⟨overlayId, nodeId, text.display candidate⟩] } := by
  have hreads : text.Reads (text.display candidate) candidate :=
    NetText.parseV4_display hround candidate
  refine ⟨h.ranges, h.overlays, ?_, ?_⟩
  · intro subnet hsubnet
    rcases List.mem_append.mp hsubnet with hsubnet | hsubnet
    · exact h.within subnet hsubnet
    · obtain rfl := List.mem_singleton.mp hsubnet
      have hfound : row.id = overlayId := by simpa using List.find?_some hrow
      exact ⟨row, List.mem_of_find?_eq_some hrow, hfound, candidate, overlay, hreads, hoverlay,
        hwithin⟩
  · apply List.pairwise_append.mpr
    refine ⟨h.subnets, List.pairwise_singleton .., ?_⟩
    intro a ha b hb left right hleft hright
    obtain rfl := List.mem_singleton.mp hb
    obtain rfl := Except.ok.inj (hreads.symm.trans hright)
    exact h.apart_candidate hrow hoverlay hwithin hunused a ha left hleft

end Separated

theorem NetText.allocateNodeSubnet_eq_ok {text : NetText} {overlayId nodeId : String}
    {prefixLen : UInt8} {hostReserved : List Ipv4Net} {db db' : Database} {net : Ipv4Net}
    (h : text.allocateNodeSubnet overlayId nodeId prefixLen hostReserved db = .ok (net, db')) :
    (∃ row, subnetRow db overlayId nodeId = some row ∧ text.Reads row.cidr net ∧ db' = db) ∨
      (subnetRow db overlayId nodeId = none ∧
        db' = { db with nodeSubnets := db.nodeSubnets ++ [⟨overlayId, nodeId, text.display net⟩] } ∧
        hostReserved.any (networksOverlap net) = false ∧
        text.isUsed (usedIn db overlayId) net = false ∧
        ∃ row overlay, overlayRow db overlayId = some row ∧ text.Reads row.cidr overlay ∧
          net.Within overlay) := by
  obtain ⟨row, overlay, hrow, hoverlay, hrange⟩ := allocateNodeSubnet_range (.inl ⟨_, h⟩)
  rw [allocateNodeSubnet_run overlayId nodeId prefixLen hostReserved hrow hoverlay hrange] at h
  cases hsubnet : subnetRow db overlayId nodeId with
  | some subnet =>
    rw [hsubnet] at h
    dsimp only at h
    cases hparse : text.parseV4 subnet.cidr with
    | error e =>
      rw [hparse] at h
      cases h
    | ok found =>
      rw [hparse] at h
      cases h
      exact .inl ⟨subnet, rfl, hparse, rfl⟩
  | none =>
    rw [hsubnet] at h
    dsimp only at h
    cases hfree : text.firstFree hostReserved (usedIn db overlayId) overlay.network.toNat
        (2 ^ (32 - prefixLen.toNat)) prefixLen.toNat
        (List.range (slotCount overlay prefixLen.toNat)) with
    | error e =>
      rw [hfree] at h
      cases h
    | ok candidate =>
      rw [hfree] at h
      dsimp only [insertSubnet] at h
      split_ifs at h with hkeys
      · cases h
        obtain ⟨slot, hslot, hnew, hreserved, hused⟩ := firstFree_eq_ok hfree
        exact .inr ⟨rfl, rfl, hreserved, hused, row, overlay, hrow, hoverlay,
          hrange.within (List.mem_range.mp hslot) hnew⟩
      · cases h

theorem Separated.apply {text : NetText} (hround : text.RoundTrips) {db : Database}
    (h : Separated text db) (call : StoreCall) : Separated text (db.apply text call) := by
  cases call with
  | registerNode nodeId => exact ⟨h.ranges, h.overlays, h.within, h.subnets⟩
  | createOverlay overlay =>
    rw [Database.apply]
    cases hrun : text.createOverlay overlay db with
    | ok db' => exact h.createOverlay hrun
    | error e => exact h
  | allocateNodeSubnet overlayId nodeId prefixLen hostReserved =>
    rw [Database.apply]
    cases hrun : text.allocateNodeSubnet overlayId nodeId prefixLen hostReserved db with
    | error e => exact h
    | ok result =>
      obtain ⟨net, db'⟩ := result
      rcases NetText.allocateNodeSubnet_eq_ok hrun with
        ⟨row, -, -, rfl⟩ | ⟨-, rfl, -, hunused, row, overlay, hrow, hoverlay, hwithin⟩
      · exact h
      · exact h.insert hround nodeId hrow hoverlay hwithin hunused

structure Granted (text : NetText) (db : Database) (overlayId nodeId : String)
    (overlay net : Ipv4Net) : Prop where
  overlay : ∃ row, NetText.overlayRow db overlayId = some row ∧ text.Reads row.cidr overlay
  subnet : ∃ row, NetText.subnetRow db overlayId nodeId = some row ∧ text.Reads row.cidr net

namespace Granted
variable {text : NetText} {db : Database} {overlayId nodeId : String} {overlay net : Ipv4Net}

section
variable (h : Granted text db overlayId nodeId overlay net)
include h

theorem append (nodes : List String)
    (overlays : List Overlay) (subnets : List NodeSubnet) :
    Granted text ⟨nodes, db.overlays ++ overlays, db.nodeSubnets ++ subnets⟩ overlayId nodeId
      overlay net := by
  obtain ⟨row, hrow, hreads⟩ := h.overlay
  obtain ⟨subnet, hsubnet, hnet⟩ := h.subnet
  rw [NetText.overlayRow] at hrow
  rw [NetText.subnetRow] at hsubnet
  constructor
  · refine ⟨row, ?_, hreads⟩
    rw [NetText.overlayRow, List.find?_append, hrow, Option.some_or]
  · refine ⟨subnet, ?_, hnet⟩
    rw [NetText.subnetRow, List.find?_append, hsubnet, Option.some_or]

theorem apply (call : StoreCall) :
    Granted text (db.apply text call) overlayId nodeId overlay net := by
  cases call with
  | registerNode node => exact ⟨h.overlay, h.subnet⟩
  | createOverlay other =>
    rw [Database.apply]
    cases hrun : text.createOverlay other db with
    | error e => exact h
    | ok db' =>
      obtain ⟨rfl, -⟩ := NetText.createOverlay_eq_ok hrun
      simpa using h.append db.nodes [other] []
  | allocateNodeSubnet otherId node prefixLen hostReserved =>
    rw [Database.apply]
    cases hrun : text.allocateNodeSubnet otherId node prefixLen hostReserved db with
    | error e => exact h
    | ok result =>
      obtain ⟨found, db'⟩ := result
      rcases NetText.allocateNodeSubnet_eq_ok hrun with ⟨row, -, -, rfl⟩ | ⟨-, rfl, -⟩
      · exact h
      · simpa using h.append db.nodes [] [⟨otherId, node, text.display found⟩]

theorem run (calls : List StoreCall) :
    Granted text (calls.foldl (Database.apply text) db) overlayId nodeId overlay net := by
  induction calls generalizing db with
  | nil => exact h
  | cons call calls ih => exact ih (h.apply call)

theorem repeated {prefixLen : UInt8}
    (hrange : InRange overlay prefixLen.toNat) (hostReserved : List Ipv4Net) :
    text.allocateNodeSubnet overlayId nodeId prefixLen hostReserved db = .ok (net, db) := by
  obtain ⟨row, hrow, hoverlay⟩ := h.overlay
  obtain ⟨subnet, hsubnet, hnet⟩ := h.subnet
  rw [NetText.allocateNodeSubnet_run overlayId nodeId prefixLen hostReserved hrow hoverlay hrange,
    hsubnet]
  dsimp only
  rw [show text.parseV4 subnet.cidr = .ok net from hnet]
  rfl

theorem unique {prefixLen : UInt8}
    {hostReserved : List Ipv4Net} {found : Ipv4Net} {db' : Database}
    (hrun : text.allocateNodeSubnet overlayId nodeId prefixLen hostReserved db
      = .ok (found, db')) : found = net := by
  obtain ⟨subnet, hsubnet, hnet⟩ := h.subnet
  rcases NetText.allocateNodeSubnet_eq_ok hrun with ⟨row, hrow, hreads, -⟩ | ⟨hnone, -⟩
  · obtain rfl := Option.some.inj (hsubnet.symm.trans hrow)
    exact Except.ok.inj (hreads.symm.trans hnet)
  · rw [hnone] at hsubnet
    cases hsubnet

end

end Granted

structure NoOverflow (overlay : Ipv4Net) (prefixLen : Nat) : Prop where
  differences : overlay.prefixLen ≤ prefixLen ∧ prefixLen ≤ 32
  shifts : prefixLen - overlay.prefixLen < 64 ∧ 32 - prefixLen < 64
  shifted : 1 <<< (prefixLen - overlay.prefixLen) < 2 ^ 64 ∧ 1 <<< (32 - prefixLen) < 2 ^ 64
  product : ∀ slot < NetText.slotCount overlay prefixLen, slot * 1 <<< (32 - prefixLen) < 2 ^ 64
  address : ∀ slot < NetText.slotCount overlay prefixLen,
    overlay.network.toNat + slot * 1 <<< (32 - prefixLen) < 2 ^ 32

theorem InRange.noOverflow {overlay : Ipv4Net} {prefixLen : Nat}
    (h : InRange overlay prefixLen) : NoOverflow overlay prefixLen := by
  have hlower := h.lower
  have hupper := h.upper
  have haddress : ∀ slot < NetText.slotCount overlay prefixLen,
      overlay.network.toNat + slot * 1 <<< (32 - prefixLen) < 2 ^ 32 := by
    intro slot hslot
    rw [Nat.one_shiftLeft]
    exact h.base_add_lt hslot
  refine ⟨⟨hlower, by omega⟩, by omega, ?_, ?_, haddress⟩
  · rw [Nat.one_shiftLeft, Nat.one_shiftLeft]
    exact ⟨Nat.pow_lt_pow_right (by decide) (by omega), Nat.pow_lt_pow_right (by decide) (by omega)⟩
  · intro slot hslot
    have := haddress slot hslot
    omega

structure SafeAllocation (text : NetText) (db : Database) (overlayId nodeId : String)
    (prefixLen : UInt8) (hostReserved : List Ipv4Net) : Prop where
  fresh : NetText.subnetRow db overlayId nodeId = none → ∀ net db',
    text.allocateNodeSubnet overlayId nodeId prefixLen hostReserved db = .ok (net, db') →
      ∀ reserved ∈ hostReserved, net.Apart reserved
  repeated : ∀ net db',
    text.allocateNodeSubnet overlayId nodeId prefixLen hostReserved db = .ok (net, db') →
      ∃ row overlay, NetText.overlayRow db overlayId = some row ∧ text.Reads row.cidr overlay ∧
        ∀ (later : List StoreCall) (prefixLen' : UInt8) (hostReserved' : List Ipv4Net),
        (∀ net' db'', text.allocateNodeSubnet overlayId nodeId prefixLen' hostReserved'
            (later.foldl (Database.apply text) db') = .ok (net', db'') → net' = net) ∧
        (InRange overlay prefixLen'.toNat →
          text.allocateNodeSubnet overlayId nodeId prefixLen' hostReserved'
            (later.foldl (Database.apply text) db')
              = .ok (net, later.foldl (Database.apply text) db'))
  exhausted :
    text.allocateNodeSubnet overlayId nodeId prefixLen hostReserved db = .error .subnetExhausted →
      ∃ row overlay, NetText.overlayRow db overlayId = some row ∧ text.Reads row.cidr overlay ∧
        ∀ slot < NetText.slotCount overlay prefixLen.toNat, ∃ candidate,
          Ipv4Net.new (.ofNat (overlay.network.toNat + slot * 2 ^ (32 - prefixLen.toNat)))
              prefixLen.toNat = some candidate ∧
            ((∃ reserved ∈ hostReserved, ¬candidate.Apart reserved) ∨
              ∃ subnet ∈ db.nodeSubnets, subnet.overlayId = overlayId ∧
                ∃ assigned, text.Reads subnet.cidr assigned ∧ ¬candidate.Apart assigned)
  arithmetic : ∀ row overlay, NetText.overlayRow db overlayId = some row →
    text.Reads row.cidr overlay → InRange overlay prefixLen.toNat →
      NoOverflow overlay prefixLen.toNat

namespace SafeAllocation
variable {text : NetText} {db : Database} {overlayId nodeId : String} {prefixLen : UInt8}
  {hostReserved : List Ipv4Net}

theorem apart_reserved (hnone : NetText.subnetRow db overlayId nodeId = none) {net : Ipv4Net}
    {db' : Database}
    (hrun : text.allocateNodeSubnet overlayId nodeId prefixLen hostReserved db = .ok (net, db')) :
    ∀ reserved ∈ hostReserved, net.Apart reserved := by
  intro reserved hreserved
  rcases NetText.allocateNodeSubnet_eq_ok hrun with ⟨row, hrow, -⟩ | ⟨-, -, hany, -⟩
  · rw [hnone] at hrow
    cases hrow
  · by_contra hoverlap
    rw [(NetText.any_networksOverlap_iff net).mpr ⟨reserved, hreserved, hoverlap⟩] at hany
    cases hany

theorem granted (hround : text.RoundTrips) {net : Ipv4Net} {db' : Database}
    (hrun : text.allocateNodeSubnet overlayId nodeId prefixLen hostReserved db = .ok (net, db')) :
    ∃ row overlay, NetText.overlayRow db overlayId = some row ∧ text.Reads row.cidr overlay ∧
      Granted text db' overlayId nodeId overlay net := by
  obtain ⟨row, overlay, hrow, hoverlay, -⟩ := NetText.allocateNodeSubnet_range (.inl ⟨_, hrun⟩)
  refine ⟨row, overlay, hrow, hoverlay, ?_⟩
  rcases NetText.allocateNodeSubnet_eq_ok hrun with ⟨subnet, hsubnet, hnet, rfl⟩ | ⟨hnone, rfl, -⟩
  · exact ⟨⟨row, hrow, hoverlay⟩, ⟨subnet, hsubnet, hnet⟩⟩
  · refine ⟨⟨row, hrow, hoverlay⟩, ⟨⟨overlayId, nodeId, text.display net⟩, ?_,
      NetText.parseV4_display hround net⟩⟩
    rw [NetText.subnetRow] at hnone
    rw [NetText.subnetRow, List.find?_append, hnone]
    simp

theorem candidates_taken
    (hrun : text.allocateNodeSubnet overlayId nodeId prefixLen hostReserved db
      = .error .subnetExhausted) :
    ∃ row overlay, NetText.overlayRow db overlayId = some row ∧ text.Reads row.cidr overlay ∧
      ∀ slot < NetText.slotCount overlay prefixLen.toNat, ∃ candidate,
        Ipv4Net.new (.ofNat (overlay.network.toNat + slot * 2 ^ (32 - prefixLen.toNat)))
            prefixLen.toNat = some candidate ∧
          ((∃ reserved ∈ hostReserved, ¬candidate.Apart reserved) ∨
            ∃ subnet ∈ db.nodeSubnets, subnet.overlayId = overlayId ∧
              ∃ assigned, text.Reads subnet.cidr assigned ∧ ¬candidate.Apart assigned) := by
  obtain ⟨row, overlay, hrow, hoverlay, hrange⟩ := NetText.allocateNodeSubnet_range (.inr hrun)
  refine ⟨row, overlay, hrow, hoverlay, ?_⟩
  rw [NetText.allocateNodeSubnet_run overlayId nodeId prefixLen hostReserved hrow hoverlay hrange]
    at hrun
  cases hsubnet : NetText.subnetRow db overlayId nodeId with
  | some subnet =>
    rw [hsubnet] at hrun
    dsimp only at hrun
    cases hparse : text.parseV4 subnet.cidr with
    | ok net =>
      rw [hparse] at hrun
      cases hrun
    | error e =>
      rw [hparse] at hrun
      rw [Except.error.inj hrun] at hparse
      exact absurd hparse (NetText.parseV4_ne_exhausted subnet.cidr)
  | none =>
    rw [hsubnet] at hrun
    dsimp only at hrun
    cases hfree : text.firstFree hostReserved (NetText.usedIn db overlayId) overlay.network.toNat
        (2 ^ (32 - prefixLen.toNat)) prefixLen.toNat
        (List.range (NetText.slotCount overlay prefixLen.toNat)) with
    | ok candidate =>
      rw [hfree] at hrun
      dsimp only [NetText.insertSubnet] at hrun
      split_ifs at hrun <;> cases hrun
    | error e =>
      rw [hfree] at hrun
      rw [Except.error.inj hrun] at hfree
      intro slot hslot
      obtain ⟨candidate, hnew, htaken⟩ :=
        NetText.firstFree_exhausted hfree slot (List.mem_range.mpr hslot)
      refine ⟨candidate, hnew, ?_⟩
      rcases htaken with hreserved | hused
      · exact .inl ((NetText.any_networksOverlap_iff candidate).mp hreserved)
      · obtain ⟨cidr, hcidr, assigned, hassigned, hoverlap⟩ :=
          (NetText.isUsed_eq_true_iff candidate).mp hused
        obtain ⟨subnet, hmem, rfl⟩ := List.mem_map.mp hcidr
        obtain ⟨hmem, hid⟩ := List.mem_filter.mp hmem
        exact .inr ⟨subnet, hmem, of_decide_eq_true hid, assigned, hassigned, hoverlap⟩

theorem of_roundTrips (hround : text.RoundTrips) (db : Database) (overlayId nodeId : String)
    (prefixLen : UInt8) (hostReserved : List Ipv4Net) :
    SafeAllocation text db overlayId nodeId prefixLen hostReserved where
  fresh := fun hnone _ _ hrun => apart_reserved hnone hrun
  repeated := by
    intro net db' hrun
    obtain ⟨row, overlay, hrow, hoverlay, hgranted⟩ := granted hround hrun
    refine ⟨row, overlay, hrow, hoverlay, ?_⟩
    intro later prefixLen' hostReserved'
    have hlater := hgranted.run later
    exact ⟨fun _ _ hagain => hlater.unique hagain, fun hrange => hlater.repeated hrange hostReserved'⟩
  exhausted := candidates_taken
  arithmetic := fun _ _ _ _ hrange => hrange.noOverflow

end SafeAllocation

/-- In every database that calls can reach, overlays and subnets are apart, subnets lie within their
overlays, and allocations are safe. -/
theorem subnets_allocated_safely {text : NetText} (hround : text.RoundTrips)
    (calls : List StoreCall) :
    Runs.Throughout (Database.apply text)
      (fun db => Separated text db ∧ ∀ overlayId nodeId prefixLen hostReserved,
        SafeAllocation text db overlayId nodeId prefixLen hostReserved) .new calls := by
  apply Runs.throughout_of_step
  · intro db call h
    exact ⟨h.1.apply hround call, SafeAllocation.of_roundTrips hround _⟩
  · exact ⟨.new text, SafeAllocation.of_roundTrips hround _⟩

def octetText (n : Nat) : List Char := Nat.toDigits 10 n

def readOctet (digits : List Char) : Option Nat :=
  if digits.isEmpty || digits.any (fun c => !c.isDigit) then none
  else some (digits.foldl (fun n c => n * 10 + (c.toNat - '0'.toNat)) 0)

def dotted (a b c d prefixLen : Nat) : List Char :=
  ['/'].intercalate
    [['.'].intercalate [octetText a, octetText b, octetText c, octetText d], octetText prefixLen]

def readDotted (cidr : List Char) : Option (List Nat × Nat) :=
  match cidr.splitOn '/' with
  | [addr, len] =>
    match (addr.splitOn '.').mapM readOctet, readOctet len with
    | some octets, some prefixLen => some (octets, prefixLen)
    | _, _ => none
  | _ => none

def dottedText : NetText where
  display net :=
    String.ofList (dotted (net.addr.toNat / 2 ^ 24) (net.addr.toNat / 2 ^ 16 % 256)
      (net.addr.toNat / 2 ^ 8 % 256) (net.addr.toNat % 256) net.prefixLen)
  parse cidr :=
    match readDotted cidr.toList with
    | some ([a, b, c, d], prefixLen) =>
      if a < 256 ∧ b < 256 ∧ c < 256 ∧ d < 256 then
        match Ipv4Net.new (.ofNat (((a * 256 + b) * 256 + c) * 256 + d)) prefixLen with
        | some net => .ok (.v4 net)
        | none => .error "invalid IP address syntax"
      else .error "invalid IP address syntax"
    | _ => .error "invalid IP address syntax"

theorem readOctet_octetText {n : Nat} (h : n < 256) : readOctet (octetText n) = some n := by
  have hall : ∀ n : Fin 256, readOctet (octetText n) = some n.val := by decide +kernel
  exact hall ⟨n, h⟩

theorem octetText_plain {n : Nat} (h : n < 256) : '.' ∉ octetText n ∧ '/' ∉ octetText n := by
  have hall : ∀ n : Fin 256, '.' ∉ octetText n ∧ '/' ∉ octetText n := by decide +kernel
  exact hall ⟨n, h⟩

theorem readDotted_dotted {a b c d prefixLen : Nat} (ha : a < 256) (hb : b < 256) (hc : c < 256)
    (hd : d < 256) (hp : prefixLen < 256) :
    readDotted (dotted a b c d prefixLen) = some ([a, b, c, d], prefixLen) := by
  have hdots : (['.'].intercalate [octetText a, octetText b, octetText c, octetText d]).splitOn '.'
      = [octetText a, octetText b, octetText c, octetText d] := by
    apply List.splitOn_intercalate
    · simp [octetText_plain, ha, hb, hc, hd]
    · simp
  have hslash : (dotted a b c d prefixLen).splitOn '/' =
      [['.'].intercalate [octetText a, octetText b, octetText c, octetText d],
        octetText prefixLen] := by
    apply List.splitOn_intercalate
    · simp [List.intercalate, List.intersperse, octetText_plain, ha, hb, hc, hd, hp]
    · simp
  have hoctets : [octetText a, octetText b, octetText c, octetText d].mapM readOctet
      = some [a, b, c, d] := by
    simp [readOctet_octetText, ha, hb, hc, hd]
  rw [readDotted, hslash]
  dsimp only
  rw [hdots, hoctets, readOctet_octetText hp]

theorem dottedText_roundTrips : dottedText.RoundTrips := by
  intro net
  have haddr := net.addr.toNat_lt
  have hprefix := net.prefixLen_le
  have hread := readDotted_dotted (a := net.addr.toNat / 2 ^ 24)
    (b := net.addr.toNat / 2 ^ 16 % 256) (c := net.addr.toNat / 2 ^ 8 % 256)
    (d := net.addr.toNat % 256) (by omega) (by omega) (by omega) (by omega)
    (show net.prefixLen < 256 by omega)
  have hoctets : net.addr.toNat / 2 ^ 24 < 256 ∧ net.addr.toNat / 2 ^ 16 % 256 < 256 ∧
      net.addr.toNat / 2 ^ 8 % 256 < 256 ∧ net.addr.toNat % 256 < 256 := by omega
  have hsum : ((net.addr.toNat / 2 ^ 24 * 256 + net.addr.toNat / 2 ^ 16 % 256) * 256 +
      net.addr.toNat / 2 ^ 8 % 256) * 256 + net.addr.toNat % 256 = net.addr.toNat := by omega
  have hnew : Ipv4Net.new net.addr net.prefixLen = some net := dif_pos hprefix
  simp only [dottedText, String.toList_ofList, hread, if_pos hoctets, hsum, UInt32.ofNat_toNat,
    hnew]

def overlayCalls : List StoreCall :=
  [.registerNode "node-a", .registerNode "node-b", .createOverlay ⟨"blue", "10.0.0.7/29"⟩,
    .allocateNodeSubnet "blue" "node-a" 30 [], .allocateNodeSubnet "blue" "node-b" 30 []]

theorem overlay_calls_safe :
    Runs.Throughout (Database.apply dottedText)
      (fun db => Separated dottedText db ∧ ∀ overlayId nodeId prefixLen hostReserved,
        SafeAllocation dottedText db overlayId nodeId prefixLen hostReserved) .new overlayCalls :=
  subnets_allocated_safely dottedText_roundTrips overlayCalls

/-- The prefix length is checked before the row of an earlier allocation is looked for. -/
theorem repeated_call_refused :
    ¬∀ (calls : List StoreCall) (overlayId nodeId : String) (prefixLen prefixLen' : UInt8)
      (hostReserved : List Ipv4Net) (net : Ipv4Net) (db : Database),
      dottedText.allocateNodeSubnet overlayId nodeId prefixLen hostReserved
          (calls.foldl (Database.apply dottedText) .new) = .ok (net, db) →
        ∃ db', dottedText.allocateNodeSubnet overlayId nodeId prefixLen' hostReserved db
          = .ok (net, db') := by
  intro h
  obtain ⟨db', hrepeated⟩ := h overlayCalls "blue" "node-a" 30 31 [] ⟨0x0a000000, 30, by decide⟩
    (overlayCalls.foldl (Database.apply dottedText) .new) (by decide +kernel)
  have hrefused : (dottedText.allocateNodeSubnet "blue" "node-a" 31 []
      (overlayCalls.foldl (Database.apply dottedText) .new)).isOk = false := by decide +kernel
  rw [hrepeated] at hrefused
  cases hrefused

example : overlayCalls.foldl (Database.apply dottedText) .new =
    ⟨["node-a", "node-b"], [⟨"blue", "10.0.0.7/29"⟩],
      [⟨"blue", "node-a", "10.0.0.0/30"⟩, ⟨"blue", "node-b", "10.0.0.4/30"⟩]⟩ := by
  decide +kernel

end Ferrocrate.Manager
