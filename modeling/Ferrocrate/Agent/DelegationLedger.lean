import Ferrocrate.Lib.Bytes
import Ferrocrate.Lib.Runs

/-! The ledger of delegated parents: claims, completions, failed writes and restarts. -/
namespace Ferrocrate.Agent
open Lib

structure ParentGrantKey where
  requestId : String
  operationId : Vector UInt8 16
  nonce : Vector UInt8 16
deriving DecidableEq

structure ChildIdentity where
  requestId : String
  nonce : Vector UInt8 16
deriving DecidableEq

structure CreationProvenance where
  containerId : String
  overlayId : String
  resourceUuid : String
  resourceGeneration : UInt64
  originRequestId : String
  liveIdentityDigest : Vector UInt8 32
deriving DecidableEq

inductive ClaimOutcome where
  | fresh (child : ChildIdentity)
  | inProgress (child : ChildIdentity)
  | completed (child : ChildIdentity) (response : Bytes)

inductive PersistedClaim where
  | inProgress (child : ChildIdentity)
  | completed (child : ChildIdentity) (response : Bytes) (provenance : Option CreationProvenance)
deriving DecidableEq

inductive DelegationError where
  | unavailable
  | io
  | notClaimed
  | oversized

def ClaimOutcome.child : ClaimOutcome → ChildIdentity
  | .fresh child => child
  | .inProgress child => child
  | .completed child _ => child

def PersistedClaim.child : PersistedClaim → ChildIdentity
  | .inProgress child => child
  | .completed child _ _ => child

def PersistedClaim.outcome : PersistedClaim → ClaimOutcome
  | .inProgress child => .inProgress child
  | .completed child response _ => .completed child response

abbrev PersistedLedger := List (ParentGrantKey × PersistedClaim)

namespace PersistedLedger

def find (ledger : PersistedLedger) (parent : ParentGrantKey) : Option PersistedClaim :=
  (List.find? (fun entry => entry.1 = parent) ledger).map Prod.snd

def position (ledger : PersistedLedger) (parent : ParentGrantKey) : Option Nat :=
  List.findIdx? (fun entry => entry.1 = parent) ledger

def completeAt (ledger : PersistedLedger) (position : Nat) (response : Bytes)
    (provenance : Option CreationProvenance) : PersistedLedger :=
  List.modify ledger position fun entry =>
    (entry.1, .completed entry.2.child response provenance)

end PersistedLedger

structure DelegationHost where
  file : Option PersistedLedger
  running : Option PersistedLedger
  answers : List (ParentGrantKey × ClaimOutcome)

def maxResponseBytes : Nat := 256 * 1024

namespace DelegationHost

def initial : DelegationHost := ⟨none, none, []⟩

def persist (ledger : PersistedLedger) (stored : Bool) (host : DelegationHost) :
    Except DelegationError Unit × DelegationHost :=
  if stored then
    (.ok (), { host with file := some ledger, running := some ledger })
  else
    (.error .io, { host with running := some ledger })

def openLedger (available stored : Bool) (host : DelegationHost) :
    Except DelegationError Unit × DelegationHost :=
  if available then
    match host.file with
    | some ledger => (.ok (), { host with running := some ledger })
    | none =>
      if stored then persist [] true host else (.error .io, { host with running := none })
  else
    (.error .unavailable, { host with running := none })

def claim (parent : ParentGrantKey) (proposed : ChildIdentity) (stored : Bool)
    (host : DelegationHost) : Except DelegationError ClaimOutcome × DelegationHost :=
  match host.running with
  | none => (.error .unavailable, host)
  | some ledger =>
    match ledger.find parent with
    | some existing => (.ok existing.outcome, host)
    | none =>
      match persist (ledger ++ [(parent, .inProgress proposed)]) stored host with
      | (.ok (), host) => (.ok (.fresh proposed), host)
      | (.error e, host) => (.error e, host)

def completeWith (parent : ParentGrantKey) (response : Bytes)
    (provenance : Option CreationProvenance) (stored : Bool) (host : DelegationHost) :
    Except DelegationError Unit × DelegationHost :=
  match host.running with
  | none => (.error .unavailable, host)
  | some ledger =>
    if maxResponseBytes < response.length then
      (.error .oversized, host)
    else
      match ledger.position parent with
      | none => (.error .notClaimed, host)
      | some position => persist (ledger.completeAt position response provenance) stored host

def complete (parent : ParentGrantKey) (response : Bytes) (stored : Bool) (host : DelegationHost) :
    Except DelegationError Unit × DelegationHost :=
  completeWith parent response none stored host

def completeCreation (parent : ParentGrantKey) (response : Bytes)
    (provenance : CreationProvenance) (stored : Bool) (host : DelegationHost) :
    Except DelegationError Unit × DelegationHost :=
  completeWith parent response (some provenance) stored host

def answer (parent : ParentGrantKey) :
    Except DelegationError ClaimOutcome × DelegationHost → DelegationHost
  | (.ok outcome, host) => { host with answers := host.answers ++ [(parent, outcome)] }
  | (.error _, host) => host

end DelegationHost

inductive DelegationCall where
  | opening (available stored : Bool)
  | claim (parent : ParentGrantKey) (proposed : ChildIdentity) (stored : Bool)
  | complete (parent : ParentGrantKey) (response : Bytes) (stored : Bool)
  | completeCreation (parent : ParentGrantKey) (response : Bytes) (provenance : CreationProvenance)
      (stored : Bool)

namespace DelegationHost

def apply (host : DelegationHost) : DelegationCall → DelegationHost
  | .opening available stored => (openLedger available stored host).2
  | .claim parent proposed stored => answer parent (claim parent proposed stored host)
  | .complete parent response stored => (complete parent response stored host).2
  | .completeCreation parent response provenance stored =>
    (completeCreation parent response provenance stored host).2

end DelegationHost

namespace PersistedLedger

theorem find_cons (entry : ParentGrantKey × PersistedClaim) (ledger : PersistedLedger)
    (parent : ParentGrantKey) :
    find (entry :: ledger) parent = if entry.1 = parent then some entry.2 else ledger.find parent := by
  by_cases h : entry.1 = parent <;> simp [find, h]

variable {parent : ParentGrantKey} {ledger : PersistedLedger}

theorem find_push
    (h : ledger.find parent = none) (claim : PersistedClaim) (key : ParentGrantKey) :
    find (ledger ++ [(parent, claim)]) key =
      if key = parent then some claim else ledger.find key := by
  induction ledger with
  | nil => simp [find, eq_comm]
  | cons entry ledger ih =>
    rw [find_cons] at h
    have hne : entry.1 ≠ parent := by
      intro heq
      simp [heq] at h
    rw [if_neg hne] at h
    rw [List.cons_append, find_cons, ih h, find_cons]
    by_cases hkey : key = parent
    · rw [if_pos hkey, if_neg (hkey ▸ hne), if_pos hkey]
    · rw [if_neg hkey, if_neg hkey]

theorem position_cons (entry : ParentGrantKey × PersistedClaim) (ledger : PersistedLedger)
    (parent : ParentGrantKey) : position (entry :: ledger) parent =
      if entry.1 = parent then some 0 else (ledger.position parent).map (· + 1) := by
  by_cases h : entry.1 = parent <;> simp [position, List.findIdx?_cons, h]

theorem position_isSome (ledger : PersistedLedger) (parent : ParentGrantKey) :
    (ledger.position parent).isSome = (ledger.find parent).isSome := by
  induction ledger with
  | nil => rfl
  | cons entry ledger ih =>
    rw [position_cons, find_cons]
    by_cases h : entry.1 = parent
    · rw [if_pos h, if_pos h]
      rfl
    · rw [if_neg h, if_neg h, Option.isSome_map]
      exact ih

theorem find_completeAt {position : Nat}
    (h : ledger.position parent = some position) (response : Bytes)
    (provenance : Option CreationProvenance) (key : ParentGrantKey) :
    find (ledger.completeAt position response provenance) key =
      if key = parent then
        (ledger.find parent).map fun claim => .completed claim.child response provenance
      else ledger.find key := by
  induction ledger generalizing position with
  | nil => cases h
  | cons entry ledger ih =>
    rw [position_cons] at h
    by_cases hentry : entry.1 = parent
    · rw [if_pos hentry] at h
      obtain rfl := Option.some.inj h
      have hmodify : completeAt (entry :: ledger) 0 response provenance =
          (entry.1, .completed entry.2.child response provenance) :: ledger := rfl
      rw [hmodify, find_cons, find_cons, find_cons, if_pos hentry, hentry]
      by_cases hkey : key = parent
      · simp [hkey]
      · rw [if_neg hkey, if_neg (Ne.symm hkey), if_neg (Ne.symm hkey)]
    · rw [if_neg hentry] at h
      obtain ⟨rest, hrest, rfl⟩ := Option.map_eq_some_iff.mp h
      have hmodify : completeAt (entry :: ledger) (rest + 1) response provenance =
          entry :: completeAt ledger rest response provenance := rfl
      rw [hmodify, find_cons, ih hrest, find_cons, find_cons, if_neg hentry]
      by_cases hkey : key = parent
      · rw [if_pos hkey, if_neg (hkey ▸ hentry), if_pos hkey]
      · rw [if_neg hkey, if_neg hkey]

def Extends (later earlier : PersistedLedger) : Prop :=
  ∀ parent claim, earlier.find parent = some claim →
    ∃ claim', later.find parent = some claim' ∧ claim'.child = claim.child ∧
      ∀ child response provenance, claim = .completed child response provenance → claim' = claim

theorem Extends.refl (ledger : PersistedLedger) : Extends ledger ledger := by
  intro parent claim h
  exact ⟨claim, h, rfl, fun _ _ _ _ => rfl⟩

theorem Extends.trans {a b c : PersistedLedger} (hab : Extends b a) (hbc : Extends c b) :
    Extends c a := by
  intro parent claim h
  obtain ⟨claim', h', hchild', hcompleted'⟩ := hab parent claim h
  obtain ⟨claim'', h'', hchild'', hcompleted''⟩ := hbc parent claim' h'
  refine ⟨claim'', h'', hchild''.trans hchild', ?_⟩
  intro child response provenance hclaim
  have hsame := hcompleted' child response provenance hclaim
  rw [hcompleted'' child response provenance (hsame.trans hclaim), hsame]

theorem Extends.push
    (h : ledger.find parent = none) (claim : PersistedClaim) :
    Extends (ledger ++ [(parent, claim)]) ledger := by
  intro key claim' hkey
  have hne : key ≠ parent := by
    rintro rfl
    rw [h] at hkey
    cases hkey
  refine ⟨claim', ?_, rfl, fun _ _ _ _ => rfl⟩
  rw [find_push h, if_neg hne]
  exact hkey

theorem Extends.completeAt {later earlier : PersistedLedger} (h : Extends later earlier) {position : Nat} (hposition : later.position parent = some position)
    {response : Bytes} {provenance : Option CreationProvenance}
    (hsame : ∀ child response' provenance',
      earlier.find parent = some (.completed child response' provenance') →
        response' = response ∧ provenance' = provenance) :
    Extends (later.completeAt position response provenance) earlier := by
  intro key claim hkey
  obtain ⟨claim', hclaim', hchild, hcompleted⟩ := h key claim hkey
  rw [find_completeAt hposition]
  by_cases heq : key = parent
  · obtain rfl := heq
    refine ⟨.completed claim'.child response provenance, ?_, hchild, ?_⟩
    · rw [if_pos rfl, hclaim']
      rfl
    · rintro child response' provenance' rfl
      obtain ⟨rfl, rfl⟩ := hsame child response' provenance' hkey
      rw [hchild]
      rfl
  · rw [if_neg heq]
    exact ⟨claim', hclaim', hchild, hcompleted⟩

end PersistedLedger

def OnceFresh (answers : List (ParentGrantKey × ClaimOutcome)) : Prop :=
  answers.Pairwise fun a b => a.1 = b.1 → ∀ child, a.2 = .fresh child →
    b.2.child = child ∧ ∀ other, b.2 ≠ .fresh other

namespace DelegationHost

def durable (host : DelegationHost) (parent : ParentGrantKey) : Option PersistedClaim :=
  host.file.bind fun ledger => ledger.find parent

structure Settled (host : DelegationHost) (parent : ParentGrantKey) (claim : PersistedClaim) :
    Prop where
  durable : host.durable parent = some claim
  running : ∀ ledger, host.running = some ledger → ledger.find parent = some claim

structure Sound (host : DelegationHost) : Prop where
  running : ∀ ledger, host.running = some ledger →
    ∃ file, host.file = some file ∧ ledger.Extends file
  fresh : ∀ parent child, (parent, .fresh child) ∈ host.answers →
    ∃ claim, host.durable parent = some claim ∧ claim.child = child
  once : OnceFresh host.answers

def Forward (host later : DelegationHost) : Prop :=
  ∀ file, host.file = some file → ∃ file', later.file = some file' ∧ file'.Extends file

theorem Forward.refl (host : DelegationHost) : host.Forward host := by
  intro file hfile
  exact ⟨file, hfile, .refl file⟩

theorem Forward.trans {a b c : DelegationHost} (hab : a.Forward b) (hbc : b.Forward c) :
    a.Forward c := by
  intro file hfile
  obtain ⟨file', hfile', hext⟩ := hab file hfile
  obtain ⟨file'', hfile'', hext'⟩ := hbc file' hfile'
  exact ⟨file'', hfile'', hext.trans hext'⟩

variable {parent : ParentGrantKey}

theorem Forward.durable {host later : DelegationHost} (h : host.Forward later) {claim : PersistedClaim} (hclaim : host.durable parent = some claim) :
    ∃ claim', later.durable parent = some claim' ∧ claim'.child = claim.child ∧
      ∀ child response provenance, claim = .completed child response provenance →
        claim' = claim := by
  obtain ⟨file, hfile, hfind⟩ := Option.bind_eq_some_iff.mp hclaim
  obtain ⟨file', hfile', hext⟩ := h file hfile
  obtain ⟨claim', hfind', hrest⟩ := hext parent claim hfind
  exact ⟨claim', Option.bind_eq_some_iff.mpr ⟨file', hfile', hfind'⟩, hrest⟩

theorem initial_sound : initial.Sound := ⟨by simp [initial], by simp [initial], .nil⟩

variable {host : DelegationHost} {ledger : PersistedLedger}

theorem Sound.persist (h : host.Sound)
    {stored : Bool} (hext : ∀ file, host.file = some file → ledger.Extends file)
    (hlost : stored = false → ∃ file, host.file = some file) :
    (persist ledger stored host).2.Sound ∧ host.Forward (persist ledger stored host).2 := by
  cases stored with
  | true =>
    have hforward : host.Forward (DelegationHost.persist ledger true host).2 := by
      intro file hfile
      exact ⟨ledger, rfl, hext file hfile⟩
    refine ⟨⟨?_, ?_, h.once⟩, hforward⟩
    · intro ledger' hledger
      obtain rfl := Option.some.inj hledger
      exact ⟨ledger, rfl, .refl ledger⟩
    · intro parent child hanswer
      obtain ⟨claim, hclaim, rfl⟩ := h.fresh parent child hanswer
      obtain ⟨claim', hclaim', hchild, -⟩ := hforward.durable hclaim
      exact ⟨claim', hclaim', hchild⟩
  | false =>
    refine ⟨⟨?_, h.fresh, h.once⟩, .refl host⟩
    intro ledger' hledger
    obtain rfl := Option.some.inj hledger
    obtain ⟨file, hfile⟩ := hlost rfl
    exact ⟨file, hfile, hext file hfile⟩

theorem Sound.persistRunning (h : host.Sound)
    {ledger later : PersistedLedger} (hrunning : host.running = some ledger) (stored : Bool)
    (hext : ∀ file, host.file = some file → ledger.Extends file → later.Extends file) :
    (DelegationHost.persist later stored host).2.Sound ∧
      host.Forward (DelegationHost.persist later stored host).2 := by
  obtain ⟨file, hfile, hledger⟩ := h.running ledger hrunning
  apply h.persist
  · intro file' hfile'
    obtain rfl := Option.some.inj (hfile.symm.trans hfile')
    exact hext file hfile hledger
  · intro _
    exact ⟨file, hfile⟩

theorem Sound.find_fresh (h : host.Sound)
    (hrunning : host.running = some ledger) {child : ChildIdentity}
    (hanswer : (parent, .fresh child) ∈ host.answers) :
    ∃ claim, ledger.find parent = some claim ∧ claim.child = child := by
  obtain ⟨file, hfile, hext⟩ := h.running ledger hrunning
  obtain ⟨claim, hclaim, rfl⟩ := h.fresh parent child hanswer
  rw [DelegationHost.durable, hfile] at hclaim
  obtain ⟨claim', hclaim', hchild, -⟩ := hext parent claim hclaim
  exact ⟨claim', hclaim', hchild⟩

theorem Sound.answer (h : host.Sound)
    {outcome : ClaimOutcome}
    (hfresh : ∀ child, outcome = .fresh child →
      ∃ claim, host.durable parent = some claim ∧ claim.child = child)
    (honce : ∀ child, (parent, .fresh child) ∈ host.answers →
      outcome.child = child ∧ ∀ other, outcome ≠ .fresh other) :
    Sound { host with answers := host.answers ++ [(parent, outcome)] } where
  running := h.running
  fresh := by
    intro key child hanswer
    rcases List.mem_append.mp hanswer with hanswer | hanswer
    · exact h.fresh key child hanswer
    · obtain ⟨rfl, houtcome⟩ := Prod.mk.inj (List.mem_singleton.mp hanswer)
      exact hfresh child houtcome.symm
  once := by
    apply List.pairwise_append.mpr
    refine ⟨h.once, List.pairwise_singleton .., ?_⟩
    intro a ha b hb hparent child hchild
    obtain rfl := List.mem_singleton.mp hb
    have heq : a = (parent, .fresh child) := Prod.ext hparent hchild
    exact honce child (heq ▸ ha)

theorem openLedger_cases (available stored : Bool) (host : DelegationHost) :
    (openLedger available stored host).2 = { host with running := none } ∨
      (openLedger available stored host).2 = { host with running := host.file } ∨
      host.file = none ∧ (openLedger available stored host).2 = (persist [] true host).2 := by
  unfold openLedger
  cases available with
  | false => exact .inl rfl
  | true =>
    cases hfile : host.file with
    | some file => exact .inr (.inl (by simp))
    | none =>
      cases stored with
      | true => exact .inr (.inr ⟨rfl, rfl⟩)
      | false => exact .inl (by simp)

theorem Sound.openLedger (h : host.Sound) (available stored : Bool) :
    (openLedger available stored host).2.Sound ∧
      host.Forward (openLedger available stored host).2 := by
  rcases openLedger_cases available stored host with hrun | hrun | ⟨hfile, hrun⟩ <;> rw [hrun]
  · have hstopped : ∀ ledger, (none : Option PersistedLedger) = some ledger →
        ∃ file, host.file = some file ∧ ledger.Extends file := by simp
    exact ⟨⟨hstopped, h.fresh, h.once⟩, .refl host⟩
  · refine ⟨⟨?_, h.fresh, h.once⟩, .refl host⟩
    intro ledger hledger
    exact ⟨ledger, hledger, .refl ledger⟩
  · apply h.persist
    · intro file hsome
      rw [hfile] at hsome
      cases hsome
    · intro hlost
      cases hlost

theorem Sound.claim (h : host.Sound) (parent : ParentGrantKey)
    (proposed : ChildIdentity) (stored : Bool) :
    (DelegationHost.answer parent (claim parent proposed stored host)).Sound ∧
      host.Forward (DelegationHost.answer parent (claim parent proposed stored host)) := by
  unfold DelegationHost.claim
  cases hrunning : host.running with
  | none => exact ⟨h, .refl host⟩
  | some ledger =>
    dsimp only
    cases hfind : ledger.find parent with
    | some existing =>
      refine ⟨h.answer ?_ ?_, .refl host⟩
      · intro child houtcome
        cases existing <;> cases houtcome
      · intro child hanswer
        obtain ⟨claim, hclaim, rfl⟩ := h.find_fresh hrunning hanswer
        obtain rfl := Option.some.inj (hfind.symm.trans hclaim)
        cases existing <;> exact ⟨rfl, fun _ heq => by cases heq⟩
    | none =>
      have hpersist := h.persistRunning hrunning stored fun file _ hext =>
        hext.trans (.push hfind (.inProgress proposed))
      cases stored with
      | false => exact hpersist
      | true =>
        refine ⟨hpersist.1.answer ?_ ?_, hpersist.2⟩
        · intro child houtcome
          refine ⟨.inProgress proposed, ?_, ClaimOutcome.fresh.inj houtcome⟩
          exact (PersistedLedger.find_push hfind _ _).trans (if_pos rfl)
        · intro child hanswer
          obtain ⟨claim, hclaim, -⟩ := h.find_fresh hrunning hanswer
          rw [hfind] at hclaim
          cases hclaim

def Repeats (host : DelegationHost) (parent : ParentGrantKey) (response : Bytes)
    (provenance : Option CreationProvenance) : Prop :=
  host.running.isSome → response.length ≤ maxResponseBytes →
    ∀ child response' provenance',
      host.durable parent = some (.completed child response' provenance') →
        response' = response ∧ provenance' = provenance

variable {provenance : Option CreationProvenance} {response : Bytes}

theorem Sound.completeWith (h : host.Sound)
    (hrepeats : host.Repeats parent response provenance) (stored : Bool) :
    (completeWith parent response provenance stored host).2.Sound ∧
      host.Forward (completeWith parent response provenance stored host).2 := by
  unfold DelegationHost.completeWith
  cases hrunning : host.running with
  | none => exact ⟨h, .refl host⟩
  | some ledger =>
    dsimp only
    by_cases hlong : maxResponseBytes < response.length
    · rw [if_pos hlong]
      exact ⟨h, .refl host⟩
    rw [if_neg hlong]
    cases hposition : ledger.position parent with
    | none => exact ⟨h, .refl host⟩
    | some position =>
      apply h.persistRunning hrunning stored
      intro file hfile hext
      apply hext.completeAt hposition
      intro child response' provenance' hcompleted
      apply hrepeats (by simp [hrunning]) (Nat.le_of_not_lt hlong) child
      rw [DelegationHost.durable, hfile]
      exact hcompleted

/-- The step condition: a completion of what the file has as completed says the same again. -/
def Allowed (host : DelegationHost) : DelegationCall → Prop
  | .complete parent response _ => host.Repeats parent response none
  | .completeCreation parent response provenance _ =>
    host.Repeats parent response (some provenance)
  | _ => True

theorem Sound.apply (h : host.Sound) {call : DelegationCall}
    (hcall : host.Allowed call) : (host.apply call).Sound ∧ host.Forward (host.apply call) := by
  cases call with
  | opening available stored => exact h.openLedger available stored
  | claim parent proposed stored => exact h.claim parent proposed stored
  | complete parent response stored => exact h.completeWith hcall stored
  | completeCreation parent response provenance stored => exact h.completeWith hcall stored

theorem Sound.run (h : host.Sound) {calls : List DelegationCall}
    (hcalls : Runs.Along DelegationHost.apply Allowed host calls) :
    (calls.foldl DelegationHost.apply host).Sound ∧ host.Forward (calls.foldl DelegationHost.apply host) := by
  induction calls generalizing host with
  | nil => exact ⟨h, .refl host⟩
  | cons call calls ih =>
    obtain ⟨hsound, hforward⟩ := h.apply hcalls.1
    obtain ⟨hrest, hlater⟩ := ih hsound hcalls.2
    exact ⟨hrest, hforward.trans hlater⟩

theorem Sound.settled (h : host.Sound)
    {child : ChildIdentity}
    (hdurable : host.durable parent = some (.completed child response provenance)) :
    host.Settled parent (.completed child response provenance) := by
  refine ⟨hdurable, ?_⟩
  intro ledger hrunning
  obtain ⟨file, hfile, hext⟩ := h.running ledger hrunning
  rw [DelegationHost.durable, hfile] at hdurable
  obtain ⟨claim, hclaim, -, hcompleted⟩ := hext parent _ hdurable
  rw [hclaim, hcompleted child response provenance rfl]

theorem repeats_of_settled (h : host.Sound) {stored : Bool}
    (hsettled : ∀ child response' provenance',
      host.durable parent = some (.completed child response' provenance') →
        (completeWith parent response provenance stored host).2.Settled parent
          (.completed child response' provenance')) :
    host.Repeats parent response provenance := by
  intro hrunning hlength child response' provenance' hdurable
  obtain ⟨ledger, hledger⟩ := Option.isSome_iff_exists.mp hrunning
  have hfind := (h.settled hdurable).running ledger hledger
  have hsome : (ledger.position parent).isSome := by
    rw [PersistedLedger.position_isSome, hfind]
    rfl
  obtain ⟨position, hposition⟩ := Option.isSome_iff_exists.mp hsome
  have hrun : completeWith parent response provenance stored host =
      persist (ledger.completeAt position response provenance) stored host := by
    simp [completeWith, hledger, hposition, Nat.not_lt.mpr hlength]
  have hlater : (persist (ledger.completeAt position response provenance) stored host).2.running =
      some (ledger.completeAt position response provenance) := by
    cases stored <;> rfl
  have hsame := (hsettled child response' provenance' hdurable).running
    (ledger.completeAt position response provenance) (hrun ▸ hlater)
  rw [PersistedLedger.find_completeAt hposition, if_pos rfl, hfind] at hsame
  obtain ⟨-, hresponse, hprovenance⟩ := PersistedClaim.completed.inj (Option.some.inj hsame)
  exact ⟨hresponse.symm, hprovenance.symm⟩

end DelegationHost

/-- In every state of the run the answers are fresh at most once for a parent, and what the file
once had as completed is settled ever after. -/
structure AtMostOnce (calls : List DelegationCall) : Prop where
  once : ∀ before after, calls = before ++ after →
    OnceFresh (before.foldl DelegationHost.apply .initial).answers
  settled : ∀ before middle after, calls = before ++ middle ++ after →
    ∀ parent child response provenance,
      (before.foldl DelegationHost.apply .initial).durable parent
          = some (.completed child response provenance) →
        ((before ++ middle).foldl DelegationHost.apply .initial).Settled parent
          (.completed child response provenance)

theorem AtMostOnce.of_append {calls rest : List DelegationCall} (h : AtMostOnce (calls ++ rest)) :
    AtMostOnce calls where
  once := by
    rintro before after rfl
    exact h.once before (after ++ rest) (List.append_assoc ..)
  settled := by
    rintro before middle after rfl
    exact h.settled before middle (after ++ rest) (List.append_assoc ..)

theorem AtMostOnce.allowed {calls : List DelegationCall} {call : DelegationCall}
    (h : AtMostOnce (calls ++ [call]))
    (hsound : (calls.foldl DelegationHost.apply .initial).Sound) :
    (calls.foldl DelegationHost.apply .initial).Allowed call := by
  have hsettled := h.settled calls [call] [] (by simp)
  simp only [List.foldl_append, List.foldl_cons, List.foldl_nil] at hsettled
  cases call with
  | opening available stored => trivial
  | claim parent proposed stored => trivial
  | complete parent response stored => exact DelegationHost.repeats_of_settled hsound (hsettled parent)
  | completeCreation parent response provenance stored =>
    exact DelegationHost.repeats_of_settled hsound (hsettled parent)

/-- A run delegates at most once exactly when no completion changes what the file has as
completed. -/
theorem delegation_at_most_once_iff (calls : List DelegationCall) :
    AtMostOnce calls ↔ Runs.Along DelegationHost.apply DelegationHost.Allowed .initial calls := by
  constructor
  · intro h
    -- from the end: the calls before the last one are allowed, so the invariant holds there
    induction calls using List.reverseRecOn with
    | nil => trivial
    | append_singleton calls call ih =>
      have hcalls := ih h.of_append
      have hsound := (DelegationHost.initial_sound.run hcalls).1
      exact (Runs.along_append calls [call]).mpr ⟨hcalls, h.allowed hsound, trivial⟩
  · intro h
    constructor
    · rintro before after rfl
      exact (DelegationHost.initial_sound.run ((Runs.along_append before after).mp h).1).1.once
    · rintro before middle after rfl parent child response provenance hdurable
      have hbefore := ((Runs.along_append (before ++ middle) after).mp h).1
      obtain ⟨hfirst, hsecond⟩ := (Runs.along_append before middle).mp hbefore
      have hsound := (DelegationHost.initial_sound.run hfirst).1
      obtain ⟨hlater, hforward⟩ := hsound.run hsecond
      obtain ⟨claim, hclaim, -, hcompleted⟩ := hforward.durable hdurable
      obtain rfl := hcompleted child response provenance rfl
      rw [List.foldl_append]
      exact hlater.settled hclaim

def parentOne : ParentGrantKey := ⟨"parent-1", .replicate 16 2, .replicate 16 3⟩

def childOne : ChildIdentity := ⟨"child-1", .replicate 16 4⟩

def endpointOne : CreationProvenance :=
  ⟨"c1", "wg0", "123e4567-e89b-12d3-a456-426614174000", 7, "parent-1", .replicate 32 8⟩

def completedTwice : List DelegationCall :=
  [.opening true true, .claim parentOne childOne true,
    .completeCreation parentOne [1] endpointOne true, .complete parentOne [1] true]

theorem second_completion_forgets_provenance : ¬AtMostOnce completedTwice := by
  intro h
  have hsettled := h.settled (completedTwice.take 3) (completedTwice.drop 3) [] rfl
    parentOne childOne [1] (some endpointOne) (by decide +kernel)
  have hforgotten : (completedTwice.foldl DelegationHost.apply .initial).durable parentOne
      = some (.completed childOne [1] none) := by decide +kernel
  have heq := hforgotten.symm.trans hsettled.durable
  revert heq
  decide +kernel

end Ferrocrate.Agent
