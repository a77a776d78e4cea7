import Ferrocrate.Lib.Framing
import Ferrocrate.Lib.Loops
import Ferrocrate.Lib.Sha256

/-! Fan-out plans of a compose request (`fanout.rs`): what a child is derived from, and what its
identifier binds. -/
namespace Ferrocrate.Compose
open Lib

inductive FanoutAction where
  | containerRun
  | containerStop
  | containerDelete
  | imagePull
  | volumeCreate
  | imageBuild
  deriving DecidableEq

def FanoutAction.code : FanoutAction → UInt8
  | .containerRun => 1
  | .containerStop => 2
  | .containerDelete => 3
  | .imagePull => 4
  | .volumeCreate => 5
  | .imageBuild => 6

structure ServiceMutation where
  service : String
  action : FanoutAction
  requestDigest : FixedBytes 32
  size : service.utf8ByteSize < 2 ^ 63
  deriving DecidableEq

structure FanoutChild where
  parentRequestId : FixedBytes 16
  childId : FixedBytes 16
  idempotencyKey : FixedBytes 32
  service : String
  action : FanoutAction
  requestDigest : FixedBytes 32
  deadlineUnixMs : UInt64
  policyGeneration : UInt64
  policyDigest : FixedBytes 32
  attempt : UInt32
  ordinal : UInt32
  planDigest : FixedBytes 32
  deriving DecidableEq

structure FanoutPlan where
  digest : FixedBytes 32
  children : List FanoutChild
  commitments : List (String × FanoutAction)

inductive FanoutError where
  | replay
  | expired
  | tooManyChildren
  | storage (message : String)
  deriving DecidableEq

/-! ## The hashed messages -/

def mutationRecord (entry : UInt32 × ServiceMutation) : Bytes :=
  u32Be entry.1.toNat ++ ([entry.2.action.code]
    ++ (u64Be (UInt64.ofNat entry.2.service.utf8ByteSize) ++ utf8 entry.2.service
    ++ entry.2.requestDigest.val))

def enumerated (mutations : List ServiceMutation) : List (UInt32 × ServiceMutation) :=
  mutations.zipIdx.map fun entry => (UInt32.ofNat entry.2, entry.1)

def planMessage (parent : FixedBytes 16) (generation : UInt64) (policy : FixedBytes 32)
    (deadline : UInt64) (mutations : List ServiceMutation) : Bytes :=
  utf8 "ferrocrate/compose-plan/v1" ++ (parent.val ++ (u64Be generation ++ (policy.val
    ++ (u64Be deadline ++ (enumerated mutations).flatMap mutationRecord))))

def dependentMessage (plan : FixedBytes 32) (predecessor : FanoutChild) (outcome : FixedBytes 32)
    (ordinal : UInt32) (mutation : ServiceMutation) : Bytes :=
  utf8 "ferrocrate/compose-dependent-plan/v1" ++ (plan.val ++ (predecessor.parentRequestId.val
    ++ (predecessor.childId.val ++ (outcome.val ++ mutationRecord (ordinal, mutation)))))

def idempotencyMessage (parent : FixedBytes 16) (plan : FixedBytes 32)
    (entry : UInt32 × ServiceMutation) : Bytes :=
  utf8 "ferrocrate/compose-idempotency/v1" ++ (parent.val ++ (plan.val ++ mutationRecord entry))

def childMessage (key : FixedBytes 32) (attempt : UInt32) : Bytes :=
  utf8 "ferrocrate/compose-child/v1" ++ (key.val ++ u32Be attempt.toNat)

def truncated (digest : FixedBytes 32) : FixedBytes 16 := digest.first 16 (by decide)

section
variable (sha256 : Bytes → FixedBytes 32)

def FanoutChild.make (parent : FixedBytes 16) (digest : FixedBytes 32) (generation : UInt64)
    (policy : FixedBytes 32) (deadline : UInt64) (attempt : UInt32)
    (entry : UInt32 × ServiceMutation) : FanoutChild :=
  let key := sha256 (idempotencyMessage parent digest entry)
  { parentRequestId := parent
    childId := truncated (sha256 (childMessage key attempt))
    idempotencyKey := key
    service := entry.2.service
    action := entry.2.action
    requestDigest := entry.2.requestDigest
    deadlineUnixMs := deadline
    policyGeneration := generation
    policyDigest := policy
    attempt := attempt
    ordinal := entry.1
    planDigest := digest }

def FanoutPlan.derive (parent : FixedBytes 16) (generation : UInt64) (policy : FixedBytes 32)
    (deadline : UInt64) (attempt : UInt32) (mutations : List ServiceMutation) :
    Except FanoutError FanoutPlan :=
  if mutations.length > 2 ^ 32 - 1 then .error .tooManyChildren else
  let digest := sha256 (planMessage parent generation policy deadline mutations)
  .ok
    { digest := digest
      children := (enumerated mutations).map
        (FanoutChild.make sha256 parent digest generation policy deadline attempt)
      commitments := mutations.map fun mutation => (mutation.service, mutation.action) }

def FanoutPlan.verifyChild (plan : FanoutPlan) (child : FanoutChild) (now : UInt64) :
    Except FanoutError Unit :=
  if now > child.deadlineUnixMs then .error .expired else
  match plan.children.find? fun expected => expected.ordinal = child.ordinal with
  | some expected =>
    if expected = child ∧ child.planDigest = plan.digest then .ok () else .error .replay
  | none => .error .replay

def nextOrdinal (ordinal : UInt32) : Except FanoutError UInt32 :=
  if ordinal.toNat + 1 < 2 ^ 32 then .ok (ordinal + 1) else .error .replay

def FanoutPlan.deriveDependent (plan : FanoutPlan) (predecessor : FanoutChild)
    (outcome : FixedBytes 32) (mutation : ServiceMutation) : Except FanoutError FanoutPlan := do
  plan.verifyChild predecessor predecessor.deadlineUnixMs
  let next ← nextOrdinal predecessor.ordinal
  if plan.commitments[next.toNat]? = some (mutation.service, mutation.action) then
    let digest := sha256 (dependentMessage plan.digest predecessor outcome next mutation)
    .ok
      { digest := digest
        children := [FanoutChild.make sha256 predecessor.parentRequestId digest
          predecessor.policyGeneration predecessor.policyDigest predecessor.deadlineUnixMs
          predecessor.attempt (next, mutation)]
        commitments := plan.commitments }
  else .error .replay

inductive Origin where
  | derived (parent : FixedBytes 16) (generation : UInt64) (policy : FixedBytes 32)
      (deadline : UInt64) (attempt : UInt32) (mutations : List ServiceMutation)
  | dependent (base : Origin) (predecessor : FanoutChild) (outcome : FixedBytes 32)
      (mutation : ServiceMutation)
  deriving DecidableEq

def Origin.plan : Origin → Except FanoutError FanoutPlan
  | .derived parent generation policy deadline attempt mutations =>
    FanoutPlan.derive sha256 parent generation policy deadline attempt mutations
  | .dependent base predecessor outcome mutation => do
    let plan ← base.plan
    plan.deriveDependent sha256 predecessor outcome mutation

def childMessages (parent : FixedBytes 16) (digest : FixedBytes 32) (attempt : UInt32)
    (entry : UInt32 × ServiceMutation) : List Bytes :=
  let message := idempotencyMessage parent digest entry
  [message, childMessage (sha256 message) attempt]

def Origin.hashed : Origin → List Bytes
  | .derived parent generation policy deadline attempt mutations =>
    let message := planMessage parent generation policy deadline mutations
    message :: (enumerated mutations).flatMap (childMessages sha256 parent (sha256 message) attempt)
  | .dependent base predecessor outcome mutation =>
    base.hashed ++
      match base.plan sha256, nextOrdinal predecessor.ordinal with
      | .ok plan, .ok next =>
        let message := dependentMessage plan.digest predecessor outcome next mutation
        message :: childMessages sha256 predecessor.parentRequestId (sha256 message)
          predecessor.attempt (next, mutation)
      | _, _ => []

def Separates (messages : List Bytes) : Prop :=
  ∀ m ∈ messages, ∀ n ∈ messages, truncated (sha256 m) = truncated (sha256 n) → m = n

end

/-! ## What the messages bind -/

theorem FanoutAction.code_injective : Function.Injective FanoutAction.code := by
  intro a b h
  cases a <;> cases b <;> first | rfl | exact absurd h (by decide)

theorem u32_injective : Function.Injective fun x : UInt32 => u32Be x.toNat := by
  intro x y h
  have hx := ofBe_u32Be x.toNat_lt
  have hy := ofBe_u32Be y.toNat_lt
  have h : u32Be x.toNat = u32Be y.toNat := h
  exact UInt32.toNat_inj.mp (by rw [← hx, ← hy, h])

theorem framedOn_mutationRecord : FramedOn Set.univ mutationRecord := by
  intro a _ b _ s t h
  simp only [mutationRecord, List.append_assoc] at h
  obtain ⟨hordinal, h⟩ := List.append_inj h (by simp)
  obtain ⟨hcode, h⟩ := List.append_inj h rfl
  obtain ⟨hsize, h⟩ := List.append_inj h (by simp)
  have hlength : (utf8 a.2.service).length = (utf8 b.2.service).length := by
    have hnat := congrArg UInt64.toNat (u64Be_injective hsize)
    have ha : a.2.service.utf8ByteSize < 2 ^ 64 := a.2.size.trans (by decide)
    have hb : b.2.service.utf8ByteSize < 2 ^ 64 := b.2.size.trans (by decide)
    rwa [UInt64.toNat_ofNat_of_lt' ha, UInt64.toNat_ofNat_of_lt' hb] at hnat
  obtain ⟨hservice, h⟩ := List.append_inj h hlength
  obtain ⟨hdigest, h⟩ := List.append_inj h (by simp)
  refine ⟨?_, h⟩
  obtain ⟨o, m⟩ := a
  obtain ⟨o', m'⟩ := b
  have haction : m.action = m'.action := FanoutAction.code_injective (List.cons.inj hcode).1
  have hservice : m.service = m'.service := utf8_injective hservice
  have hdigest : m.requestDigest = m'.requestDigest := FixedBytes.ext_val hdigest
  have ho : o = o' := u32_injective hordinal
  cases m
  cases m'
  simp_all

theorem mutationRecord_injective : Function.Injective mutationRecord := by
  intro a b h
  exact (framedOn_mutationRecord a trivial b trivial [] [] (by rw [h])).1

theorem enumerated_injective : Function.Injective enumerated := by
  intro as bs h
  have hmap : ∀ ms : List ServiceMutation, (enumerated ms).map Prod.snd = ms := by
    intro ms
    simp [enumerated, Function.comp_def]
  rw [← hmap as, h, hmap]

variable {parent parent' : FixedBytes 16}

theorem planMessage_inj {generation generation' : UInt64}
    {policy policy' : FixedBytes 32} {deadline deadline' : UInt64}
    {mutations mutations' : List ServiceMutation}
    (h : planMessage parent generation policy deadline mutations =
      planMessage parent' generation' policy' deadline' mutations') :
    parent = parent' ∧ generation = generation' ∧ policy = policy' ∧ deadline = deadline' ∧
      mutations = mutations' := by
  obtain ⟨-, h⟩ := List.append_inj h rfl
  obtain ⟨hparent, h⟩ := List.append_inj h (by simp)
  obtain ⟨hgeneration, h⟩ := List.append_inj h (by simp)
  obtain ⟨hpolicy, h⟩ := List.append_inj h (by simp)
  obtain ⟨hdeadline, h⟩ := List.append_inj h (by simp)
  have hrecords := framedOn_mutationRecord.flatMap_inj (by simp [mutationRecord])
    (fun _ _ => trivial) (fun _ _ => trivial) h
  exact ⟨FixedBytes.ext_val hparent, u64Be_injective hgeneration, FixedBytes.ext_val hpolicy,
    u64Be_injective hdeadline, enumerated_injective hrecords⟩

variable {plan plan' : FixedBytes 32}

theorem dependentMessage_inj {predecessor predecessor' : FanoutChild}
    {outcome outcome' : FixedBytes 32} {ordinal ordinal' : UInt32}
    {mutation mutation' : ServiceMutation}
    (h : dependentMessage plan predecessor outcome ordinal mutation =
      dependentMessage plan' predecessor' outcome' ordinal' mutation') :
    predecessor.childId = predecessor'.childId ∧ outcome = outcome' ∧ mutation = mutation' := by
  obtain ⟨-, h⟩ := List.append_inj h rfl
  obtain ⟨-, h⟩ := List.append_inj h (by simp)
  obtain ⟨-, h⟩ := List.append_inj h (by simp)
  obtain ⟨hid, h⟩ := List.append_inj h (by simp)
  obtain ⟨houtcome, h⟩ := List.append_inj h (by simp)
  have hrecord := mutationRecord_injective h
  exact ⟨FixedBytes.ext_val hid, FixedBytes.ext_val houtcome, congrArg Prod.snd hrecord⟩

theorem planMessage_ne_dependentMessage {parent : FixedBytes 16} {generation : UInt64}
    {policy : FixedBytes 32} {deadline : UInt64} {mutations : List ServiceMutation}
    {plan : FixedBytes 32} {predecessor : FanoutChild} {outcome : FixedBytes 32} {ordinal : UInt32}
    {mutation : ServiceMutation} :
    planMessage parent generation policy deadline mutations ≠
      dependentMessage plan predecessor outcome ordinal mutation := by
  intro h
  have hbyte := congrArg (fun bytes => bytes[19]?) h
  simp only [planMessage, dependentMessage] at hbyte
  rw [List.getElem?_append_left (by decide), List.getElem?_append_left (by decide)] at hbyte
  exact absurd hbyte (by decide)

theorem idempotencyMessage_inj
    {entry entry' : UInt32 × ServiceMutation}
    (h : idempotencyMessage parent plan entry = idempotencyMessage parent' plan' entry') :
    parent = parent' ∧ plan = plan' ∧ entry = entry' := by
  obtain ⟨-, h⟩ := List.append_inj h rfl
  obtain ⟨hparent, h⟩ := List.append_inj h (by simp)
  obtain ⟨hplan, h⟩ := List.append_inj h (by simp)
  exact ⟨FixedBytes.ext_val hparent, FixedBytes.ext_val hplan, mutationRecord_injective h⟩

theorem childMessage_inj {key key' : FixedBytes 32} {attempt attempt' : UInt32}
    (h : childMessage key attempt = childMessage key' attempt') :
    key = key' ∧ attempt = attempt' := by
  obtain ⟨-, h⟩ := List.append_inj h rfl
  obtain ⟨hkey, h⟩ := List.append_inj h (by simp)
  exact ⟨FixedBytes.ext_val hkey, u32_injective h⟩

/-! ## What an identifier binds -/

section
variable {sha256 : Bytes → FixedBytes 32} {messages : List Bytes}

theorem Separates.eq_of_hash {m n : Bytes} (h : Separates sha256 messages) (hm : m ∈ messages)
    (hn : n ∈ messages) (heq : sha256 m = sha256 n) : m = n :=
  h m hm n hn (by rw [heq])

theorem make_inj {parent parent' : FixedBytes 16} {digest digest' policy policy' : FixedBytes 32}
    {generation generation' deadline deadline' : UInt64} {attempt attempt' : UInt32}
    {entry entry' : UInt32 × ServiceMutation} (h : Separates sha256 messages)
    (hm : ∀ m ∈ childMessages sha256 parent digest attempt entry, m ∈ messages)
    (hm' : ∀ m ∈ childMessages sha256 parent' digest' attempt' entry', m ∈ messages)
    (hid : (FanoutChild.make sha256 parent digest generation policy deadline attempt entry).childId =
      (FanoutChild.make sha256 parent' digest' generation' policy' deadline' attempt'
        entry').childId) :
    parent = parent' ∧ digest = digest' ∧ attempt = attempt' ∧ entry = entry' := by
  have hchild := h _ (hm _ (by simp [childMessages])) _ (hm' _ (by simp [childMessages])) hid
  obtain ⟨hkey, hattempt⟩ := childMessage_inj hchild
  have hmessage := h.eq_of_hash (hm _ (by simp [childMessages]))
    (hm' _ (by simp [childMessages])) hkey
  obtain ⟨hparent, hdigest, hentry⟩ := idempotencyMessage_inj hmessage
  exact ⟨hparent, hdigest, hattempt, hentry⟩

variable {child : FanoutChild} {plan : FanoutPlan}

theorem FanoutPlan.find_of_verifyChild {now : UInt64}
    (h : plan.verifyChild child now = .ok ()) :
    plan.children.find? (fun expected => expected.ordinal = child.ordinal) = some child := by
  unfold verifyChild at h
  split_ifs at h
  split at h
  next expected hfind =>
    split_ifs at h with hsame
    rw [hfind, hsame.1]
  next => cases h

theorem FanoutPlan.mem_children_of_verifyChild
    {now : UInt64} (h : plan.verifyChild child now = .ok ()) : child ∈ plan.children :=
  List.mem_of_find?_eq_some (find_of_verifyChild h)

variable {mutation : ServiceMutation} {predecessor : FanoutChild} {outcome : FixedBytes 32}

theorem FanoutPlan.deriveDependent_eq_ok {plan plan' : FanoutPlan}
    (h : plan.deriveDependent sha256 predecessor outcome mutation = .ok plan') :
    predecessor ∈ plan.children ∧ ∃ next, nextOrdinal predecessor.ordinal = .ok next ∧
      plan'.children = [FanoutChild.make sha256 predecessor.parentRequestId
        (sha256 (dependentMessage plan.digest predecessor outcome next mutation))
        predecessor.policyGeneration predecessor.policyDigest predecessor.deadlineUnixMs
        predecessor.attempt (next, mutation)] := by
  obtain ⟨⟨⟩, hverify, h⟩ := Except.bind_eq_ok.mp h
  obtain ⟨next, hnext, h⟩ := Except.bind_eq_ok.mp h
  split_ifs at h
  cases h
  exact ⟨mem_children_of_verifyChild hverify, next, hnext, rfl⟩

theorem Origin.child_cases {origin : Origin}
    (hplan : origin.plan sha256 = .ok plan) (hchild : child ∈ plan.children) :
    (∃ parent generation policy deadline attempt mutations,
      origin = .derived parent generation policy deadline attempt mutations ∧
      ∃ entry ∈ enumerated mutations, child = FanoutChild.make sha256 parent
        (sha256 (planMessage parent generation policy deadline mutations)) generation policy
        deadline attempt entry) ∨
    ∃ base predecessor outcome mutation basePlan next,
      origin = .dependent base predecessor outcome mutation ∧ base.plan sha256 = .ok basePlan ∧
      predecessor ∈ basePlan.children ∧ nextOrdinal predecessor.ordinal = .ok next ∧
      child = FanoutChild.make sha256 predecessor.parentRequestId
        (sha256 (dependentMessage basePlan.digest predecessor outcome next mutation))
        predecessor.policyGeneration predecessor.policyDigest predecessor.deadlineUnixMs
        predecessor.attempt (next, mutation) := by
  cases origin with
  | derived parent generation policy deadline attempt mutations =>
    left
    simp only [Origin.plan, FanoutPlan.derive] at hplan
    split_ifs at hplan
    cases hplan
    obtain ⟨entry, hentry, heq⟩ := List.mem_map.mp hchild
    exact ⟨_, _, _, _, _, _, rfl, entry, hentry, heq.symm⟩
  | dependent base predecessor outcome mutation =>
    right
    obtain ⟨basePlan, hbase, hplan⟩ := Except.bind_eq_ok.mp hplan
    obtain ⟨hmem, next, hnext, hchildren⟩ := FanoutPlan.deriveDependent_eq_ok hplan
    rw [hchildren, List.mem_singleton] at hchild
    exact ⟨base, predecessor, outcome, mutation, basePlan, next, rfl, hbase, hmem, hnext, hchild⟩

theorem Origin.mem_hashed_derived {parent : FixedBytes 16} {generation : UInt64}
    {policy : FixedBytes 32} {deadline : UInt64} {attempt : UInt32}
    {mutations : List ServiceMutation} {entry : UInt32 × ServiceMutation}
    (hentry : entry ∈ enumerated mutations) {m : Bytes}
    (hm : m = planMessage parent generation policy deadline mutations ∨
      m ∈ childMessages sha256 parent
        (sha256 (planMessage parent generation policy deadline mutations)) attempt entry) :
    m ∈ (Origin.derived parent generation policy deadline attempt mutations).hashed sha256 := by
  rcases hm with rfl | hm
  · exact List.mem_cons_self
  · exact List.mem_cons_of_mem _ (List.mem_flatMap.mpr ⟨entry, hentry, hm⟩)

theorem Origin.mem_hashed_dependent {base : Origin} {basePlan : FanoutPlan}
    {next : UInt32} (hbase : base.plan sha256 = .ok basePlan)
    (hnext : nextOrdinal predecessor.ordinal = .ok next) {m : Bytes}
    (hm : m = dependentMessage basePlan.digest predecessor outcome next mutation ∨
      m ∈ childMessages sha256 predecessor.parentRequestId
        (sha256 (dependentMessage basePlan.digest predecessor outcome next mutation))
        predecessor.attempt (next, mutation)) :
    m ∈ (Origin.dependent base predecessor outcome mutation).hashed sha256 := by
  simp only [hashed, hbase, hnext]
  refine List.mem_append_right _ ?_
  rcases hm with rfl | hm
  · exact List.mem_cons_self
  · exact List.mem_cons_of_mem _ hm

theorem Origin.eq_of_childId_eq {origin origin' : Origin} {plan plan' : FanoutPlan}
    {child child' : FanoutChild} (hplan : origin.plan sha256 = .ok plan)
    (hplan' : origin'.plan sha256 = .ok plan') (hchild : child ∈ plan.children)
    (hchild' : child' ∈ plan'.children)
    (hsep : Separates sha256 messages) (hin : ∀ m ∈ origin.hashed sha256, m ∈ messages)
    (hin' : ∀ m ∈ origin'.hashed sha256, m ∈ messages) (hid : child.childId = child'.childId) :
    origin = origin' ∧ child = child' := by
  induction origin generalizing origin' plan plan' child child' with
  | derived parent generation policy deadline attempt mutations =>
    rcases child_cases hplan hchild with ⟨_, _, _, _, _, _, horigin, entry, hentry, rfl⟩ | h
    · cases horigin
      rcases child_cases hplan' hchild' with
        ⟨_, _, _, _, _, _, rfl, entry', hentry', rfl⟩ | ⟨_, _, _, _, _, _, rfl, hb, _, hn, rfl⟩
      · have hown := fun m hm => hin m (mem_hashed_derived hentry hm)
        have hother := fun m hm => hin' m (mem_hashed_derived hentry' hm)
        obtain ⟨-, hdigest, rfl, rfl⟩ := make_inj hsep (fun m hm => hown m (.inr hm))
          (fun m hm => hother m (.inr hm)) hid
        obtain ⟨rfl, rfl, rfl, rfl, rfl⟩ := planMessage_inj
          (hsep.eq_of_hash (hown _ (.inl rfl)) (hother _ (.inl rfl)) hdigest)
        exact ⟨rfl, rfl⟩
      · have hown := fun m hm => hin m (mem_hashed_derived hentry hm)
        have hother := fun m hm => hin' m (mem_hashed_dependent hb hn hm)
        obtain ⟨-, hdigest, -, -⟩ := make_inj hsep (fun m hm => hown m (.inr hm))
          (fun m hm => hother m (.inr hm)) hid
        exact absurd (hsep.eq_of_hash (hown _ (.inl rfl)) (hother _ (.inl rfl)) hdigest)
          planMessage_ne_dependentMessage
    · obtain ⟨_, _, _, _, _, _, horigin, -⟩ := h
      cases horigin
  | dependent base predecessor outcome mutation ih =>
    rcases child_cases hplan hchild with h | ⟨_, _, _, _, _, _, horigin, hbase, hmem, hnext, rfl⟩
    · obtain ⟨_, _, _, _, _, _, horigin, -⟩ := h
      cases horigin
    · cases horigin
      have hown := fun m hm => hin m (mem_hashed_dependent hbase hnext hm)
      rcases child_cases hplan' hchild' with
        ⟨_, _, _, _, _, _, rfl, entry', hentry', rfl⟩ |
          ⟨base', predecessor', _, _, _, _, rfl, hbase', hmem', hnext', rfl⟩
      · have hother := fun m hm => hin' m (mem_hashed_derived hentry' hm)
        obtain ⟨-, hdigest, -, -⟩ := make_inj hsep (fun m hm => hown m (.inr hm))
          (fun m hm => hother m (.inr hm)) hid
        exact absurd (hsep.eq_of_hash (hother _ (.inl rfl)) (hown _ (.inl rfl)) hdigest.symm)
          planMessage_ne_dependentMessage
      · have hother := fun m hm => hin' m (mem_hashed_dependent hbase' hnext' hm)
        obtain ⟨-, hdigest, -, -⟩ := make_inj hsep (fun m hm => hown m (.inr hm))
          (fun m hm => hother m (.inr hm)) hid
        obtain ⟨hpredecessor, rfl, rfl⟩ := dependentMessage_inj
          (hsep.eq_of_hash (hown _ (.inl rfl)) (hother _ (.inl rfl)) hdigest)
        -- the predecessors have one identifier as well, so the chains agree
        obtain ⟨rfl, rfl⟩ := ih hbase hbase' hmem hmem'
          (fun m hm => hin m (List.mem_append_left _ hm))
          (fun m hm => hin' m (List.mem_append_left _ hm)) hpredecessor
        rw [hbase] at hbase'
        cases hbase'
        rw [hnext] at hnext'
        cases hnext'
        exact ⟨rfl, rfl⟩

end

end Ferrocrate.Compose
