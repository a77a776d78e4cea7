import Ferrocrate.Lib.Cidr
import Ferrocrate.Lib.OrdMap
import Ferrocrate.Lib.Runs

/-! Addresses of an overlay pool: allocation, release and the state file. -/
namespace Ferrocrate.Agent
open Lib

inductive IpamError where
  | duplicateContainer
  | exhausted
  | invalidPool
  | persistence
deriving DecidableEq

structure Allocation where
  containerId : String
  address : UInt32
deriving DecidableEq

abbrev Allocations := OrdMap String UInt32

structure Ipam where
  pool : Ipv4Net
  gateway : UInt32
  reserved : List UInt32
  gateway_inside : (pool.contains gateway && gateway != pool.network
    && gateway != pool.broadcast) = true

namespace Ipam

def new (pool : Ipv4Net) (gateway : UInt32) (reserved : List UInt32) : Except IpamError Ipam :=
  if h : (pool.contains gateway && gateway != pool.network && gateway != pool.broadcast) = true then
    .ok ⟨pool, gateway, reserved, h⟩
  else .error .invalidPool

def isTaken (ipam : Ipam) (allocations : Allocations) (address : UInt32) : Bool :=
  address == ipam.gateway || ipam.reserved.contains address ||
    (allocations.entries.map Prod.snd).contains address

def search (taken : UInt32 → Bool) : Nat → Nat → Option UInt32
  | 0, _ => none
  | left + 1, value =>
    if taken (.ofNat value) then search taken left (value + 1) else some (.ofNat value)

def firstFree (ipam : Ipam) (allocations : Allocations) : Option UInt32 :=
  let start := min (ipam.pool.network.toNat + 1) (2 ^ 32 - 1)
  search (ipam.isTaken allocations) (ipam.pool.broadcast.toNat - start) start

end Ipam

inductive PersistStep where
  | create
  | encode
  | write
  | sync
  | rename
deriving DecidableEq

structure IpamInstance where
  allocations : Allocations
  stateful : Bool

structure IpamHost where
  file : Option Allocations
  temporary : Bool
  running : Option IpamInstance

namespace IpamHost

def initial : IpamHost := ⟨none, false, none⟩

def persist (allocations : Allocations) (fails : Option PersistStep) (host : IpamHost) :
    Except IpamError Unit × IpamHost :=
  if host.temporary then
    (.error .persistence, host)
  else
    match fails with
    | some .create => (.error .persistence, host)
    | some _ => (.error .persistence, { host with temporary := true })
    | none => (.ok (), { host with file := some allocations })

def persistInstance (inst : IpamInstance) (allocations : Allocations) (fails : Option PersistStep)
    (host : IpamHost) : Except IpamError Unit × IpamHost :=
  if inst.stateful then persist allocations fails host else (.ok (), host)

def startNew (host : IpamHost) : IpamHost := { host with running := some ⟨.empty, false⟩ }

def withState (readable : Bool) (host : IpamHost) : Except IpamError Unit × IpamHost :=
  match host.file with
  | none => (.ok (), { host with running := some ⟨.empty, true⟩ })
  | some allocations =>
    if readable then (.ok (), { host with running := some ⟨allocations, true⟩ })
    else (.error .persistence, { host with running := none })

def allocate (ipam : Ipam) (containerId : String) (fails : Option PersistStep) (host : IpamHost) :
    Except IpamError Allocation × IpamHost :=
  match host.running with
  | none => (.error .persistence, host)
  | some inst =>
    if inst.allocations.contains containerId then
      (.error .duplicateContainer, host)
    else
      match ipam.firstFree inst.allocations with
      | none => (.error .exhausted, host)
      | some address =>
        let inserted := inst.allocations.insert containerId address
        match persistInstance inst inserted fails host with
        | (.ok (), host) =>
          (.ok ⟨containerId, address⟩, { host with running := some { inst with allocations := inserted } })
        | (.error e, host) =>
          (.error e, { host with
            running := some { inst with allocations := inserted.erase containerId } })

def release (containerId : String) (fails : Option PersistStep) (host : IpamHost) :
    Except IpamError (Option Allocation) × IpamHost :=
  match host.running with
  | none => (.error .persistence, host)
  | some inst =>
    let removed := inst.allocations.erase containerId
    let allocation := (inst.allocations.get containerId).map fun address =>
      Allocation.mk containerId address
    match persistInstance inst removed fails host with
    | (.ok (), host) => (.ok allocation, { host with running := some { inst with allocations := removed } })
    | (.error e, host) =>
      let restored := match allocation with
        | some allocation => removed.insert allocation.containerId allocation.address
        | none => removed
      (.error e, { host with running := some { inst with allocations := restored } })

end IpamHost

inductive IpamCall where
  | startNew
  | withState (readable : Bool)
  | allocate (containerId : String) (fails : Option PersistStep)
  | release (containerId : String) (fails : Option PersistStep)

def IpamHost.apply (ipam : Ipam) (host : IpamHost) : IpamCall → IpamHost
  | .startNew => host.startNew
  | .withState readable => (host.withState readable).2
  | .allocate containerId fails => (host.allocate ipam containerId fails).2
  | .release containerId fails => (host.release containerId fails).2

namespace Ipam
variable {ipam : Ipam} {allocations : Allocations}

structure Usable (ipam : Ipam) (address : UInt32) : Prop where
  lower : ipam.pool.network < address
  upper : address < ipam.pool.broadcast
  gateway : address ≠ ipam.gateway
  reserved : address ∉ ipam.reserved

structure Valid (ipam : Ipam) (allocations : Allocations) : Prop where
  usable : ∀ containerId address, allocations.get containerId = some address → ipam.Usable address
  distinct : ∀ containerId containerId' address, allocations.get containerId = some address →
    allocations.get containerId' = some address → containerId = containerId'

def NoneFree (ipam : Ipam) (allocations : Allocations) : Prop :=
  ∀ address, ipam.Usable address → ∃ containerId, allocations.get containerId = some address

variable {address : UInt32}

theorem search_eq_some {taken : UInt32 → Bool} {left value : Nat}
    (h : search taken left value = some address) :
    ∃ v, value ≤ v ∧ v < value + left ∧ address = .ofNat v ∧ taken address = false := by
  induction left generalizing value with
  | zero => cases h
  | succ left ih =>
    rw [search] at h
    by_cases htaken : taken (.ofNat value) = true
    · rw [if_pos htaken] at h
      obtain ⟨v, hlower, hupper, hrest⟩ := ih h
      exact ⟨v, by omega, by omega, hrest⟩
    · rw [if_neg htaken] at h
      obtain rfl := Option.some.inj h
      exact ⟨value, le_refl _, by omega, rfl, by simpa using htaken⟩

theorem search_eq_none_iff (taken : UInt32 → Bool) (left value : Nat) :
    search taken left value = none ↔
      ∀ v, value ≤ v → v < value + left → taken (.ofNat v) = true := by
  induction left generalizing value with
  | zero =>
    simp only [search, true_iff]
    intro v hlower hupper
    omega
  | succ left ih =>
    rw [search]
    by_cases htaken : taken (.ofNat value) = true
    · rw [if_pos htaken, ih]
      constructor
      · intro h v hlower hupper
        by_cases hv : v = value
        · rw [hv]
          exact htaken
        · exact h v (by omega) (by omega)
      · intro h v hlower hupper
        exact h v (by omega) (by omega)
    · rw [if_neg htaken]
      simp only [reduceCtorEq, false_iff]
      intro h
      exact htaken (h value (le_refl _) (by omega))

theorem isTaken_eq_true_iff (address : UInt32) : ipam.isTaken allocations address = true ↔
    address = ipam.gateway ∨ address ∈ ipam.reserved ∨
      ∃ containerId, allocations.get containerId = some address := by
  have hused : address ∈ allocations.entries.map Prod.snd ↔
      ∃ containerId, allocations.get containerId = some address := by
    simp only [List.mem_map, OrdMap.get_eq_some_iff, Prod.exists, exists_eq_right]
  simp only [isTaken, Bool.or_eq_true, beq_iff_eq, List.contains_iff_mem, hused, or_assoc]

theorem network_lt_broadcast (ipam : Ipam) :
    ipam.pool.network.toNat + 1 < ipam.pool.broadcast.toNat := by
  have hinside := ipam.gateway_inside
  simp only [Bool.and_eq_true, bne_iff_ne, ne_eq, Ipv4Net.contains, decide_eq_true_eq,
    UInt32.le_iff_toNat_le, ← UInt32.toNat_inj] at hinside
  omega

theorem start_eq (ipam : Ipam) :
    min (ipam.pool.network.toNat + 1) (2 ^ 32 - 1) = ipam.pool.network.toNat + 1 := by
  have hlt := ipam.network_lt_broadcast
  have hbound := ipam.pool.broadcast.toNat_lt
  omega

theorem usable_of_firstFree (h : ipam.firstFree allocations = some address) :
    ipam.Usable address ∧ ∀ containerId, allocations.get containerId ≠ some address := by
  rw [firstFree, start_eq] at h
  obtain ⟨v, hlower, hupper, rfl, htaken⟩ := search_eq_some h
  have hbound := ipam.pool.broadcast.toNat_lt
  have hv : (UInt32.ofNat v).toNat = v := by
    rw [UInt32.toNat_ofNat', Nat.mod_eq_of_lt (by omega)]
  have hfree : ¬ipam.isTaken allocations (.ofNat v) = true := by simp [htaken]
  rw [isTaken_eq_true_iff] at hfree
  push Not at hfree
  refine ⟨⟨?_, ?_, hfree.1, hfree.2.1⟩, hfree.2.2⟩
  · rw [UInt32.lt_iff_toNat_lt, hv]
    omega
  · rw [UInt32.lt_iff_toNat_lt, hv]
    omega

theorem firstFree_eq_none_iff : ipam.firstFree allocations = none ↔ ipam.NoneFree allocations := by
  have hlt := ipam.network_lt_broadcast
  rw [firstFree, start_eq, search_eq_none_iff]
  constructor
  · intro h address husable
    have hlower := UInt32.lt_iff_toNat_lt.mp husable.lower
    have hupper := UInt32.lt_iff_toNat_lt.mp husable.upper
    have htaken := h address.toNat (by omega) (by omega)
    rw [UInt32.ofNat_toNat, isTaken_eq_true_iff] at htaken
    rcases htaken with hgateway | hreserved | hused
    · exact absurd hgateway husable.gateway
    · exact absurd hreserved husable.reserved
    · exact hused
  · intro h v hlower hupper
    have hbound := ipam.pool.broadcast.toNat_lt
    have hv : (UInt32.ofNat v).toNat = v := by
      rw [UInt32.toNat_ofNat', Nat.mod_eq_of_lt (by omega)]
    rw [isTaken_eq_true_iff]
    by_contra hfree
    push Not at hfree
    have husable : ipam.Usable (.ofNat v) := by
      refine ⟨?_, ?_, hfree.1, hfree.2.1⟩
      · rw [UInt32.lt_iff_toNat_lt, hv]
        omega
      · rw [UInt32.lt_iff_toNat_lt, hv]
        omega
    obtain ⟨containerId, hused⟩ := h _ husable
    exact hfree.2.2 containerId hused

theorem Valid.empty : ipam.Valid .empty := ⟨by simp, by simp⟩

theorem Valid.insert (h : ipam.Valid allocations) {containerId : String}
    (haddress : ipam.firstFree allocations = some address) :
    ipam.Valid (allocations.insert containerId address) := by
  obtain ⟨husable, hunused⟩ := usable_of_firstFree haddress
  constructor
  · intro other found hfound
    rw [OrdMap.get_insert] at hfound
    split_ifs at hfound
    · exact Option.some.inj hfound ▸ husable
    · exact h.usable other found hfound
  · intro left right found hleft hright
    rw [OrdMap.get_insert] at hleft hright
    split_ifs at hleft hright with hl hr hr
    · rw [hl, hr]
    · rw [← Option.some.inj hleft] at hright
      exact absurd hright (hunused right)
    · rw [← Option.some.inj hright] at hleft
      exact absurd hleft (hunused left)
    · exact h.distinct left right found hleft hright

theorem Valid.erase (h : ipam.Valid allocations) (containerId : String) :
    ipam.Valid (allocations.erase containerId) := by
  have hsub : ∀ id address, (allocations.erase containerId).get id = some address →
      allocations.get id = some address := by
    intro id address hget
    rw [OrdMap.get_erase] at hget
    split_ifs at hget
    exact hget
  constructor
  · intro id address hget
    exact h.usable id address (hsub id address hget)
  · intro left right address hleft hright
    exact h.distinct left right address (hsub _ _ hleft) (hsub _ _ hright)

end Ipam

namespace IpamHost
variable {ipam : Ipam} {host : IpamHost} {inst : IpamInstance} {containerId : String}
  {fails : Option PersistStep}

def writes (host : IpamHost) (inst : IpamInstance) (fails : Option PersistStep) : Bool :=
  !inst.stateful || (!host.temporary && fails.isNone)

def stored (host : IpamHost) (inst : IpamInstance) (allocations : Allocations) : IpamHost :=
  if inst.stateful then { host with file := some allocations } else host

def littered (host : IpamHost) (fails : Option PersistStep) : IpamHost :=
  { host with temporary := host.temporary || (fails.isSome && fails != some .create) }

theorem persistInstance_eq (allocations : Allocations) :
    persistInstance inst allocations fails host =
      if writes host inst fails then (.ok (), stored host inst allocations)
      else (.error .persistence, littered host fails) := by
  obtain ⟨file, temporary, running⟩ := host
  obtain ⟨current, stateful⟩ := inst
  cases stateful with
  | false => rfl
  | true =>
    cases temporary with
    | true => rfl
    | false =>
      cases fails with
      | none => rfl
      | some step => cases step <;> rfl

theorem restored_eq (hrunning : host.running = some inst) :
    { littered host fails with running := some inst } = littered host fails := by
  rw [← hrunning]
  rfl

theorem allocate_run (ipam : Ipam) (containerId : String) (fails : Option PersistStep)
    (hrunning : host.running = some inst) :
    allocate ipam containerId fails host =
      if inst.allocations.contains containerId then (.error .duplicateContainer, host)
      else
        match ipam.firstFree inst.allocations with
        | none => (.error .exhausted, host)
        | some address =>
          if writes host inst fails then
            (.ok ⟨containerId, address⟩,
              { stored host inst (inst.allocations.insert containerId address) with
                running := some { inst with
                  allocations := inst.allocations.insert containerId address } })
          else (.error .persistence, littered host fails) := by
  rw [allocate, hrunning]
  dsimp only
  split_ifs with hcontains hwrites
  · rfl
  · cases hfree : ipam.firstFree inst.allocations with
    | none => rfl
    | some address =>
      dsimp only
      rw [persistInstance_eq, if_pos hwrites]
  · cases hfree : ipam.firstFree inst.allocations with
    | none => rfl
    | some address =>
      have hnone : inst.allocations.get containerId = none := by
        simpa [OrdMap.contains] using hcontains
      dsimp only
      rw [persistInstance_eq, if_neg hwrites]
      dsimp only
      rw [OrdMap.erase_insert _ _ hnone]
      exact congrArg (Prod.mk _) (restored_eq hrunning)

theorem release_run (containerId : String) (fails : Option PersistStep)
    (hrunning : host.running = some inst) :
    release containerId fails host =
      if writes host inst fails then
        (.ok ((inst.allocations.get containerId).map fun address => ⟨containerId, address⟩),
          { stored host inst (inst.allocations.erase containerId) with
            running := some { inst with allocations := inst.allocations.erase containerId } })
      else (.error .persistence, littered host fails) := by
  rw [release, hrunning]
  dsimp only
  rw [persistInstance_eq]
  split_ifs with hwrites
  · rfl
  · cases hget : inst.allocations.get containerId with
    | none =>
      dsimp only [Option.map_none]
      rw [OrdMap.erase_of_get_eq_none hget]
      exact congrArg (Prod.mk _) (restored_eq hrunning)
    | some address =>
      dsimp only [Option.map_some]
      rw [OrdMap.insert_erase hget]
      exact congrArg (Prod.mk _) (restored_eq hrunning)

structure Safe (ipam : Ipam) (host : IpamHost) : Prop where
  running : ∀ inst, host.running = some inst → ipam.Valid inst.allocations
  file : ∀ allocations, host.file = some allocations → ipam.Valid allocations

theorem Safe.initial : Safe ipam .initial :=
  ⟨by simp [IpamHost.initial], by simp [IpamHost.initial]⟩

theorem Safe.stored (h : Safe ipam host) {allocations : Allocations}
    (hvalid : ipam.Valid allocations) :
    Safe ipam { stored host inst allocations with
      running := some { inst with allocations := allocations } } := by
  constructor
  · intro inst' hinst
    obtain rfl := Option.some.inj hinst
    exact hvalid
  · intro file hfile
    rw [IpamHost.stored] at hfile
    split_ifs at hfile
    · obtain rfl := Option.some.inj hfile
      exact hvalid
    · exact h.file file hfile

theorem withState_cases (readable : Bool) (host : IpamHost) :
    (withState readable host).2 = { host with running := none } ∨
      host.file = none ∧ (withState readable host).2 = { host with running := some ⟨.empty, true⟩ } ∨
      ∃ allocations, host.file = some allocations ∧
        (withState readable host).2 = { host with running := some ⟨allocations, true⟩ } := by
  cases hfile : host.file with
  | none => exact .inr (.inl ⟨rfl, by simp [withState, hfile]⟩)
  | some allocations =>
    cases readable with
    | true => exact .inr (.inr ⟨allocations, rfl, by simp [withState, hfile]⟩)
    | false => exact .inl (by simp [withState, hfile])

theorem Safe.apply (ipam : Ipam) (host : IpamHost) (call : IpamCall) (h : Safe ipam host) :
    Safe ipam (host.apply ipam call) := by
  cases call with
  | startNew =>
    refine ⟨?_, h.file⟩
    intro inst hinst
    obtain rfl := Option.some.inj hinst
    exact .empty
  | withState readable =>
    rw [IpamHost.apply]
    rcases withState_cases readable host with hrun | ⟨hfile, hrun⟩ | ⟨allocations, hfile, hrun⟩ <;>
      rw [hrun]
    · exact ⟨fun _ hinst => by simp at hinst, h.file⟩
    · refine ⟨?_, h.file⟩
      intro inst hinst
      obtain rfl := Option.some.inj hinst
      exact .empty
    · refine ⟨?_, h.file⟩
      intro inst hinst
      obtain rfl := Option.some.inj hinst
      exact h.file allocations hfile
  | allocate containerId fails =>
    rw [IpamHost.apply]
    cases hrunning : host.running with
    | none =>
      rw [IpamHost.allocate, hrunning]
      exact h
    | some inst =>
      rw [allocate_run ipam containerId fails hrunning]
      by_cases hcontains : inst.allocations.contains containerId = true
      · rw [if_pos hcontains]
        exact h
      · rw [if_neg hcontains]
        cases hfree : ipam.firstFree inst.allocations with
        | none => exact h
        | some address =>
          dsimp only
          split_ifs
          · exact h.stored ((h.running inst hrunning).insert hfree)
          · exact ⟨h.running, h.file⟩
  | release containerId fails =>
    rw [IpamHost.apply]
    cases hrunning : host.running with
    | none =>
      rw [IpamHost.release, hrunning]
      exact h
    | some inst =>
      rw [release_run containerId fails hrunning]
      split_ifs
      · exact h.stored ((h.running inst hrunning).erase containerId)
      · exact ⟨h.running, h.file⟩

section
variable (hrunning : host.running = some inst)
include hrunning

theorem allocate_exhausted_iff :
    (allocate ipam containerId fails host).1 = .error .exhausted ↔
      inst.allocations.get containerId = none ∧ ipam.NoneFree inst.allocations := by
  rw [allocate_run ipam containerId fails hrunning, ← Ipam.firstFree_eq_none_iff]
  cases hget : inst.allocations.get containerId with
  | some address => simp [OrdMap.contains, hget]
  | none =>
    rw [if_neg (by simp [OrdMap.contains, hget])]
    cases hfree : ipam.firstFree inst.allocations with
    | none => simp
    | some address => split_ifs <;> simp

theorem allocate_persistence_iff :
    (allocate ipam containerId fails host).1 = .error .persistence ↔
      inst.allocations.get containerId = none ∧ (ipam.firstFree inst.allocations).isSome ∧
        host.writes inst fails = false := by
  rw [allocate_run ipam containerId fails hrunning]
  cases hget : inst.allocations.get containerId with
  | some address => simp [OrdMap.contains, hget]
  | none =>
    rw [if_neg (by simp [OrdMap.contains, hget])]
    cases hfree : ipam.firstFree inst.allocations with
    | none => simp
    | some address => cases hwrites : host.writes inst fails <;> simp

theorem release_persistence_iff :
    (release containerId fails host).1 = .error .persistence ↔ host.writes inst fails = false := by
  rw [release_run containerId fails hrunning]
  cases hwrites : host.writes inst fails <;> simp

theorem allocate_ok {allocation : Allocation}
    (h : (allocate ipam containerId fails host).1 = .ok allocation) :
    (allocate ipam containerId fails host).2.running =
      some { inst with allocations := inst.allocations.insert containerId allocation.address } := by
  rw [allocate_run ipam containerId fails hrunning] at h ⊢
  by_cases hcontains : inst.allocations.contains containerId = true
  · rw [if_pos hcontains] at h
    cases h
  · rw [if_neg hcontains] at h ⊢
    cases hfree : ipam.firstFree inst.allocations with
    | none =>
      rw [hfree] at h
      cases h
    | some address =>
      rw [hfree] at h
      dsimp only at h ⊢
      by_cases hwrites : host.writes inst fails = true
      · rw [if_pos hwrites] at h ⊢
        obtain rfl := Except.ok.inj h
        rfl
      · rw [if_neg hwrites] at h
        cases h

theorem allocate_error {e : IpamError}
    (h : (allocate ipam containerId fails host).1 = .error e) :
    (allocate ipam containerId fails host).2.running = some inst := by
  rw [allocate_run ipam containerId fails hrunning] at h ⊢
  by_cases hcontains : inst.allocations.contains containerId = true
  · rw [if_pos hcontains]
    exact hrunning
  · rw [if_neg hcontains] at h ⊢
    cases hfree : ipam.firstFree inst.allocations with
    | none => exact hrunning
    | some address =>
      rw [hfree] at h
      dsimp only at h ⊢
      by_cases hwrites : host.writes inst fails = true
      · rw [if_pos hwrites] at h
        cases h
      · rw [if_neg hwrites]
        exact hrunning

theorem release_error {e : IpamError}
    (h : (release containerId fails host).1 = .error e) :
    (release containerId fails host).2.running = some inst := by
  rw [release_run containerId fails hrunning] at h ⊢
  by_cases hwrites : host.writes inst fails = true
  · rw [if_pos hwrites] at h
    cases h
  · rw [if_neg hwrites]
    exact hrunning

end

def Tries (ipam : Ipam) (host : IpamHost) : IpamCall → Prop
  | .allocate containerId none => ∃ inst, host.running = some inst ∧ inst.stateful = true ∧
    inst.allocations.get containerId = none ∧ (ipam.firstFree inst.allocations).isSome
  | .release _ none => ∃ inst, host.running = some inst ∧ inst.stateful = true
  | _ => False

def Recovers (ipam : Ipam) (host : IpamHost) : IpamCall → Prop
  | .allocate containerId none =>
    host.running.isSome → (host.allocate ipam containerId none).1 ≠ .error .persistence
  | .release containerId none =>
    host.running.isSome → (host.release containerId none).1 ≠ .error .persistence
  | _ => True

theorem recovers_iff (ipam : Ipam) (host : IpamHost) (call : IpamCall) :
    Recovers ipam host call ↔ (Tries ipam host call → host.temporary = false) := by
  cases hrunning : host.running with
  | none => cases call with
    | allocate containerId fails => cases fails <;> simp [Recovers, Tries, hrunning]
    | release containerId fails => cases fails <;> simp [Recovers, Tries, hrunning]
    | _ => simp [Recovers, Tries]
  | some inst => cases call with
    | allocate containerId fails =>
      cases fails with
      | some step => simp [Recovers, Tries]
      | none =>
        simp only [Recovers, ne_eq, allocate_persistence_iff hrunning, Tries, hrunning, writes,
          Option.some.injEq, exists_eq_left']
        cases inst.stateful <;> cases host.temporary <;> simp
    | release containerId fails =>
      cases fails with
      | some step => simp [Recovers, Tries]
      | none =>
        simp only [Recovers, ne_eq, release_persistence_iff hrunning, Tries, hrunning, writes,
          Option.some.injEq, exists_eq_left']
        cases inst.stateful <;> cases host.temporary <;> simp
    | _ => simp [Recovers, Tries]

end IpamHost

structure IpamAnswers (ipam : Ipam) (host : IpamHost) (inst : IpamInstance) : Prop where
  exhausted : ∀ containerId fails,
    (host.allocate ipam containerId fails).1 = .error .exhausted ↔
      inst.allocations.get containerId = none ∧ ipam.NoneFree inst.allocations
  allocated : ∀ containerId fails allocation,
    (host.allocate ipam containerId fails).1 = .ok allocation →
      (host.allocate ipam containerId fails).2.running =
        some { inst with allocations := inst.allocations.insert containerId allocation.address }
  unchanged : ∀ containerId fails e,
    ((host.allocate ipam containerId fails).1 = .error e →
      (host.allocate ipam containerId fails).2.running = some inst) ∧
    ((host.release containerId fails).1 = .error e →
      (host.release containerId fails).2.running = some inst)

theorem IpamAnswers.of_running {host : IpamHost} {inst : IpamInstance} (ipam : Ipam)
    (hrunning : host.running = some inst) : IpamAnswers ipam host inst where
  exhausted _ _ := IpamHost.allocate_exhausted_iff hrunning
  allocated _ _ _ h := IpamHost.allocate_ok hrunning h
  unchanged _ _ _ := ⟨IpamHost.allocate_error hrunning, IpamHost.release_error hrunning⟩

/-- In every state of the run the addresses are valid and the calls answer for them, and a call whose
own steps do not fail gets through. -/
structure IpamSound (ipam : Ipam) (calls : List IpamCall) : Prop where
  safe : Runs.Throughout (IpamHost.apply ipam)
    (fun host => ∀ inst, host.running = some inst →
      ipam.Valid inst.allocations ∧ IpamAnswers ipam host inst) .initial calls
  recovers : Runs.Along (IpamHost.apply ipam) (IpamHost.Recovers ipam) .initial calls

/-- A run is sound exactly when no write is tried beside a temporary file that was left behind. -/
theorem ipam_sound_iff (ipam : Ipam) (calls : List IpamCall) :
    IpamSound ipam calls ↔ Runs.Along (IpamHost.apply ipam)
      (fun host call => host.Tries ipam call → host.temporary = false) .initial calls := by
  have hrecovers : IpamHost.Recovers ipam =
      fun host call => host.Tries ipam call → host.temporary = false := by
    funext host call
    exact propext (IpamHost.recovers_iff ipam host call)
  constructor
  · intro h
    rw [← hrecovers]
    exact h.recovers
  · intro h
    refine ⟨?_, hrecovers ▸ h⟩
    have hsafe : Runs.Throughout (IpamHost.apply ipam) (IpamHost.Safe ipam) .initial calls :=
      Runs.throughout_of_step (IpamHost.Safe.apply ipam) .initial
    apply hsafe.mono
    intro host hhost inst hrunning
    exact ⟨hhost.running inst hrunning, .of_running ipam hrunning⟩

def smallPool : Ipam where
  pool := ⟨0x0A000000, 28, by decide⟩
  gateway := 0x0A000001
  reserved := [0x0A000002]
  gateway_inside := by decide +kernel

def failedRename : List IpamCall :=
  [.withState true, .allocate "web" (some .rename), .allocate "web" none]

theorem failed_rename_blocks_allocation : ¬IpamSound smallPool failedRename := by
  intro h
  have hrecovers := h.recovers.2.2.1
  apply hrecovers
  · decide +kernel
  · decide +kernel

end Ferrocrate.Agent
