import Ferrocrate.Dockerfile.Identity

/-! Reading the fields of an identity back. -/
namespace Ferrocrate.Dockerfile
open Lib

/-! ## Values -/

theorem decimal_injective : Function.Injective decimal := toString_injective

theorem decimal_ne_absent (n : Nat) : decimal n ≠ absent := by
  intro heq
  have hmem : '\x00' ∈ (decimal n).toList := by
    rw [heq]
    decide +kernel
  have := isDigit_of_mem_toString hmem
  revert this
  decide

theorem flag_injective : Function.Injective flag := by
  intro a b h
  cases a <;> cases b <;> first | rfl | exact absurd h (by decide)

theorem optionText_inj {a b : Option String} (ha : a ≠ some absent) (hb : b ≠ some absent)
    (h : a.getD absent = b.getD absent) : a = b := by
  cases a with
  | none =>
    cases b with
    | none => rfl
    | some b => exact absurd (congrArg some h.symm) hb
  | some a =>
    cases b with
    | none => exact absurd (congrArg some h) ha
    | some b => exact congrArg some h

theorem optionalU32_injective : Function.Injective optionalU32 := by
  intro a b h
  have hnat := decimal_injective h
  cases a with
  | none =>
    cases b with
    | none => rfl
    | some b =>
      have := b.toNat_lt
      simp only [Option.map_none, Option.getD_none, u64Max, Option.map_some, Option.getD_some] at hnat
      omega
  | some a =>
    cases b with
    | none =>
      have := a.toNat_lt
      simp only [Option.map_none, Option.getD_none, u64Max, Option.map_some, Option.getD_some] at hnat
      omega
    | some b => exact congrArg some (UInt32.toNat_inj.mp hnat)

theorem optionalSize_inj {a b : Option UInt64} (ha : a ≠ some (UInt64.ofNat u64Max))
    (hb : b ≠ some (UInt64.ofNat u64Max))
    (h : decimal ((a.map UInt64.toNat).getD u64Max) = decimal ((b.map UInt64.toNat).getD u64Max)) :
    a = b := by
  have hnat := decimal_injective h
  have hmax : ∀ c : UInt64, c.toNat = u64Max → c = UInt64.ofNat u64Max := by
    intro c hc
    rw [← hc, UInt64.ofNat_toNat]
  cases a with
  | none =>
    cases b with
    | none => rfl
    | some b => exact absurd (congrArg some (hmax b hnat.symm)) hb
  | some a =>
    cases b with
    | none => exact absurd (congrArg some (hmax a hnat)) ha
    | some b => exact congrArg some (UInt64.toNat_inj.mp hnat)

theorem chmodText_inj {a b : Option UInt32}
    (h : (a.map fun chmod => decimal chmod.toNat).getD absent =
      (b.map fun chmod => decimal chmod.toNat).getD absent) : a = b := by
  cases a with
  | none =>
    cases b with
    | none => rfl
    | some b => exact absurd h.symm (decimal_ne_absent b.toNat)
  | some a =>
    cases b with
    | none => exact absurd h (decimal_ne_absent a.toNat)
    | some b => exact congrArg some (UInt32.toNat_inj.mp (decimal_injective h))

def OwnerOk (owner : Option CopyOwner) : Prop :=
  ∀ user group, owner = some (.named user group) → ':' ∉ user.toList ∧ group ≠ some ""

theorem colon_not_mem_decimal (n : Nat) : ':' ∉ (decimal n).toList := by
  intro hmem
  have := isDigit_of_mem_toString hmem
  revert this
  decide

theorem ownerText_inj {a b : Option CopyOwner} (ha : OwnerOk a) (hb : OwnerOk b)
    (h : ownerText a = ownerText b) : a = b := by
  have hlist := congrArg String.toList h
  cases a with
  | none =>
    cases b with
    | none => rfl
    | some b => cases b <;> simp [ownerText, absent] at hlist
  | some a =>
    cases b with
    | none => cases a <;> simp [ownerText, absent] at hlist
    | some b =>
      cases a with
      | numeric uid gid =>
        cases b with
        | numeric uid' gid' =>
          simp only [ownerText, String.toList_append, String.reduceToList, List.cons_append,
            List.nil_append, List.append_assoc, List.cons.injEq, true_and] at hlist
          obtain ⟨huid, hgid⟩ := append_separator_inj (colon_not_mem_decimal _)
            (colon_not_mem_decimal _) hlist
          have huid := decimal_injective (String.toList_injective huid)
          have hgid := decimal_injective (String.toList_injective hgid)
          rw [UInt32.toNat_inj.mp huid, UInt32.toNat_inj.mp hgid]
        | named user group => simp [ownerText] at hlist
      | named user group =>
        cases b with
        | numeric uid gid => simp [ownerText] at hlist
        | named user' group' =>
          simp only [ownerText, String.toList_append, String.reduceToList, List.cons_append,
            List.nil_append, List.append_assoc, List.cons.injEq, true_and] at hlist
          obtain ⟨huser, hgroup⟩ := append_separator_inj (ha user group rfl).1
            (hb user' group' rfl).1 hlist
          have huser := String.toList_injective huser
          have hgroup := String.toList_injective hgroup
          have : group = group' := by
            cases group with
            | none =>
              cases group' with
              | none => rfl
              | some group' => exact absurd (congrArg some hgroup.symm) (hb _ _ rfl).2
            | some group =>
              cases group' with
              | none => exact absurd (congrArg some hgroup) (ha _ _ rfl).2
              | some group' => exact congrArg some hgroup
          rw [huser, this]

/-! ## Records -/

theorem copyFromRecords :
    Records ["cf.from"] {copy : CopyFromSpec | OwnerOk copy.owner} CopyFromSpec.fields where
  starts copy := ⟨_, _, rfl, by simp⟩
  inj := by
    intro a ha b hb s t heq
    simp only [CopyFromSpec.fields, List.cons_append, List.append_assoc, List.nil_append,
      List.cons.injEq, Prod.mk.injEq, true_and] at heq
    obtain ⟨hfrom, heq⟩ := heq
    obtain ⟨hsrcs, heq⟩ := tagged_append_inj heq (by simp) (by simp)
    simp only [List.cons.injEq, Prod.mk.injEq, true_and] at heq
    obtain ⟨hdest, howner, hst⟩ := heq
    have howner := ownerText_inj ha hb howner
    cases a
    cases b
    exact ⟨by simp_all, hst⟩

structure CopySpec.Readable (copy : CopySpec) : Prop where
  owner : OwnerOk copy.owner
  checksum : copy.checksum ≠ some absent
  inlineContent : copy.inlineContent ≠ some absent

theorem copyRecords :
    Records ["cp.src", "cp.dest"] {copy : CopySpec | copy.Readable} CopySpec.fields where
  starts copy := by
    cases hsrcs : copy.srcs with
    | nil => exact ⟨_, _, by rw [CopySpec.fields, hsrcs]; rfl, by simp⟩
    | cons src srcs => exact ⟨_, _, by rw [CopySpec.fields, hsrcs]; rfl, by simp⟩
  inj := by
    intro a ha b hb s t heq
    simp only [CopySpec.fields, List.cons_append, List.append_assoc, List.nil_append] at heq
    obtain ⟨hsrcs, heq⟩ := tagged_append_inj heq (by simp) (by simp)
    simp only [List.cons.injEq, Prod.mk.injEq, true_and] at heq
    obtain ⟨hdest, hchmod, howner, hchecksum, hparents, heq⟩ := heq
    obtain ⟨hexcludes, heq⟩ := tagged_append_inj heq (by simp) (by simp)
    simp only [List.cons.injEq, Prod.mk.injEq, true_and] at heq
    obtain ⟨hextract, hinline, hst⟩ := heq
    have hchmod := chmodText_inj hchmod
    have howner := ownerText_inj ha.owner hb.owner howner
    have hchecksum := optionText_inj ha.checksum hb.checksum hchecksum
    have hparents := flag_injective hparents
    have hextract := flag_injective hextract
    have hinline := optionText_inj ha.inlineContent hb.inlineContent hinline
    cases a
    cases b
    exact ⟨by simp_all, hst⟩

theorem cacheRecords : Records ["cache.target"] (Set.univ : Set CacheMount) CacheMount.fields where
  starts mount := ⟨_, _, rfl, by simp⟩
  inj := by
    intro a _ b _ s t heq
    simp only [CacheMount.fields, List.cons_append, List.nil_append, List.cons.injEq,
      Prod.mk.injEq, true_and] at heq
    obtain ⟨htarget, hid, hsharing, huid, hgid, hmode, hst⟩ := heq
    have hsharing : a.sharing = b.sharing := by
      cases ha : a.sharing <;> cases hb : b.sharing <;> rw [ha, hb] at hsharing <;>
        first | rfl | exact absurd hsharing (by decide)
    have huid := optionalU32_injective huid
    have hgid := optionalU32_injective hgid
    have hmode := optionalU32_injective hmode
    cases a
    cases b
    exact ⟨by simp_all, hst⟩

theorem secretRecords :
    Records ["secret.target"] {mount : SecretMount | mount.env ≠ some absent}
      SecretMount.fields where
  starts mount := ⟨_, _, rfl, by simp⟩
  inj := by
    intro a ha b hb s t heq
    simp only [SecretMount.fields, List.cons_append, List.nil_append, List.cons.injEq,
      Prod.mk.injEq, true_and] at heq
    obtain ⟨htarget, hid, henv, hrequired, huid, hgid, hmode, hst⟩ := heq
    have henv := optionText_inj ha hb henv
    have hrequired := flag_injective hrequired
    have huid := UInt32.toNat_inj.mp (decimal_injective huid)
    have hgid := UInt32.toNat_inj.mp (decimal_injective hgid)
    have hmode := UInt32.toNat_inj.mp (decimal_injective hmode)
    cases a
    cases b
    exact ⟨by simp_all, hst⟩

theorem sshRecords : Records ["ssh.target"] (Set.univ : Set SshMount) SshMount.fields where
  starts mount := ⟨_, _, rfl, by simp⟩
  inj := by
    intro a _ b _ s t heq
    simp only [SshMount.fields, List.cons_append, List.nil_append, List.cons.injEq,
      Prod.mk.injEq, true_and] at heq
    obtain ⟨htarget, hid, hrequired, huid, hgid, hmode, hst⟩ := heq
    have hrequired := flag_injective hrequired
    have huid := UInt32.toNat_inj.mp (decimal_injective huid)
    have hgid := UInt32.toNat_inj.mp (decimal_injective hgid)
    have hmode := UInt32.toNat_inj.mp (decimal_injective hmode)
    cases a
    cases b
    exact ⟨by simp_all, hst⟩

theorem tmpfsRecords :
    Records ["tmpfs.target"] {mount : TmpfsMount | mount.size ≠ some (UInt64.ofNat u64Max)}
      TmpfsMount.fields where
  starts mount := ⟨_, _, rfl, by simp⟩
  inj := by
    intro a ha b hb s t heq
    simp only [TmpfsMount.fields, List.cons_append, List.nil_append, List.cons.injEq,
      Prod.mk.injEq, true_and] at heq
    obtain ⟨htarget, hsize, hreadOnly, hst⟩ := heq
    have hsize := optionalSize_inj ha hb hsize
    have hreadOnly := flag_injective hreadOnly
    cases a
    cases b
    exact ⟨by simp_all, hst⟩

theorem bindRecords : Records ["bind.source"] (Set.univ : Set BindMount) BindMount.fields where
  starts mount := ⟨_, _, rfl, by simp⟩
  inj := by
    intro a _ b _ s t heq
    simp only [BindMount.fields, List.cons_append, List.nil_append, List.cons.injEq,
      Prod.mk.injEq, true_and] at heq
    obtain ⟨hsource, htarget, hreadOnly, hst⟩ := heq
    have hreadOnly := flag_injective hreadOnly
    cases a
    cases b
    exact ⟨by simp_all, hst⟩

theorem networkText_injective : Function.Injective networkText := by
  intro a b h
  cases a with
  | none =>
    cases b with
    | none => rfl
    | some b => cases b <;> exact absurd h (by decide)
  | some a =>
    cases b with
    | none => cases a <;> exact absurd h (by decide)
    | some b => cases a <;> cases b <;> first | rfl | exact absurd h (by decide)

structure RunSpec.Readable (run : RunSpec) : Prop where
  secrets : ∀ mount ∈ run.secretMounts, mount.env ≠ some absent
  tmpfs : ∀ mount ∈ run.tmpfsMounts, mount.size ≠ some (UInt64.ofNat u64Max)

theorem runRecords :
    Records ["run.arg", "run.shell"] {run : RunSpec | run.Readable} RunSpec.fields where
  starts run := by
    cases hargs : run.args with
    | nil => exact ⟨_, _, by rw [RunSpec.fields, hargs]; rfl, by simp⟩
    | cons arg args => exact ⟨_, _, by rw [RunSpec.fields, hargs]; rfl, by simp⟩
  inj := by
    intro a ha b hb s t heq
    simp only [RunSpec.fields, List.cons_append, List.append_assoc, List.nil_append] at heq
    obtain ⟨hargs, heq⟩ := tagged_append_inj heq (by simp) (by simp)
    simp only [List.cons.injEq, Prod.mk.injEq, true_and] at heq
    obtain ⟨hshell, heq⟩ := heq
    -- the mounts of one kind end where those of another kind or the network begin
    obtain ⟨hcache, heq⟩ := cacheRecords.flatMap_append_inj (by simp) (by simp) heq
      (stops_append (by simp [SecretMount.fields]) (stops_append (by simp [SshMount.fields])
        (stops_append (by simp [TmpfsMount.fields]) (stops_append (by simp [BindMount.fields])
          (by simp)))))
      (stops_append (by simp [SecretMount.fields]) (stops_append (by simp [SshMount.fields])
        (stops_append (by simp [TmpfsMount.fields]) (stops_append (by simp [BindMount.fields])
          (by simp)))))
    obtain ⟨hsecrets, heq⟩ := secretRecords.flatMap_append_inj ha.secrets hb.secrets heq
      (stops_append (by simp [SshMount.fields]) (stops_append (by simp [TmpfsMount.fields])
        (stops_append (by simp [BindMount.fields]) (by simp))))
      (stops_append (by simp [SshMount.fields]) (stops_append (by simp [TmpfsMount.fields])
        (stops_append (by simp [BindMount.fields]) (by simp))))
    obtain ⟨hssh, heq⟩ := sshRecords.flatMap_append_inj (by simp) (by simp) heq
      (stops_append (by simp [TmpfsMount.fields])
        (stops_append (by simp [BindMount.fields]) (by simp)))
      (stops_append (by simp [TmpfsMount.fields])
        (stops_append (by simp [BindMount.fields]) (by simp)))
    obtain ⟨htmpfs, heq⟩ := tmpfsRecords.flatMap_append_inj ha.tmpfs hb.tmpfs heq
      (stops_append (by simp [BindMount.fields]) (by simp))
      (stops_append (by simp [BindMount.fields]) (by simp))
    obtain ⟨hbinds, heq⟩ := bindRecords.flatMap_append_inj (by simp) (by simp) heq
      (by simp) (by simp)
    simp only [List.cons.injEq, Prod.mk.injEq, true_and] at heq
    obtain ⟨hnetwork, hsecurity, hst⟩ := heq
    have hshell := flag_injective hshell
    have hnetwork := networkText_injective hnetwork
    have hsecurity : a.security = b.security := by
      cases ha : a.security <;> cases hb : b.security <;> rw [ha, hb] at hsecurity <;>
        first | rfl | exact absurd hsecurity (by decide)
    cases a
    cases b
    exact ⟨by simp_all, hst⟩

/-! ## Stages -/

theorem healthcheckFields_append_inj {a b : Option HealthcheckSpec} {s t : List Field}
    (heq : healthcheckFields a ++ s = healthcheckFields b ++ t) : a = b ∧ s = t := by
  have hdiffer : ∀ (health : HealthcheckSpec) (s t : List Field),
      healthcheckFields (some health) ++ s ≠ healthcheckFields none ++ t := by
    intro health s t heq
    cases htest : health.test with
    | nil => simp [healthcheckFields, htest, tagged] at heq
    | cons probe probes => simp [healthcheckFields, htest, tagged] at heq
  cases a with
  | none =>
    cases b with
    | none => exact ⟨rfl, (List.cons.inj heq).2⟩
    | some b => exact absurd heq.symm (hdiffer b t s)
  | some a =>
    cases b with
    | none => exact absurd heq (hdiffer a s t)
    | some b =>
      simp only [healthcheckFields, List.append_assoc, List.cons_append, List.nil_append] at heq
      obtain ⟨htest, heq⟩ := tagged_append_inj heq (by simp) (by simp)
      simp only [List.cons.injEq, Prod.mk.injEq, true_and] at heq
      obtain ⟨hinterval, htimeout, hretries, hperiod, hstart, hst⟩ := heq
      have hinterval := UInt64.toNat_inj.mp (decimal_injective hinterval)
      have htimeout := UInt64.toNat_inj.mp (decimal_injective htimeout)
      have hretries := UInt32.toNat_inj.mp (decimal_injective hretries)
      have hperiod := UInt64.toNat_inj.mp (decimal_injective hperiod)
      have hstart := UInt64.toNat_inj.mp (decimal_injective hstart)
      cases a
      cases b
      exact ⟨by simp_all, hst⟩

@[simp] theorem allTags_healthcheckFields {p : String → Prop} (health : Option HealthcheckSpec)
    (h : ∀ tag ∈ ["hc", "hc.test", "hc.interval", "hc.timeout", "hc.retries", "hc.start_period",
      "hc.start_interval"], p tag) : AllTags p (healthcheckFields health) := by
  simp only [List.forall_mem_cons, List.not_mem_nil, false_implies, implies_true, and_true] at h
  cases health with
  | none => simp [healthcheckFields, h]
  | some health => simp [healthcheckFields, h]

theorem partsFields_eq (tag : String) (parts : Option (List String)) :
    partsFields tag parts = tagged tag (parts.getD [absent]) := by
  cases parts <;> rfl

theorem parts_inj {a b : Option (List String)} (ha : a ≠ some [absent]) (hb : b ≠ some [absent])
    (h : a.getD [absent] = b.getD [absent]) : a = b := by
  cases a with
  | none =>
    cases b with
    | none => rfl
    | some b => exact absurd (congrArg some h.symm) hb
  | some a =>
    cases b with
    | none => exact absurd (congrArg some h) ha
    | some b => exact congrArg some h

theorem pairText_inj {a b : String × String} (ha : '=' ∉ a.1.toList) (hb : '=' ∉ b.1.toList)
    (h : pairText a = pairText b) : a = b := by
  have hlist := congrArg String.toList h
  simp only [pairText, String.toList_append, List.append_assoc] at hlist
  obtain ⟨hkey, hvalue⟩ := append_separator_inj ha hb hlist
  exact Prod.ext (String.toList_injective hkey) (String.toList_injective hvalue)

theorem entries_inj {a b : OrdMap String String} (ha : ∀ e ∈ a.entries, '=' ∉ e.1.toList)
    (hb : ∀ e ∈ b.entries, '=' ∉ e.1.toList)
    (h : a.entries.map pairText = b.entries.map pairText) : a = b := by
  have hentries : ∀ as bs : List (String × String), (∀ e ∈ as, '=' ∉ e.1.toList) →
      (∀ e ∈ bs, '=' ∉ e.1.toList) → as.map pairText = bs.map pairText → as = bs := by
    intro as
    induction as with
    | nil =>
      intro bs _ _ h
      exact (List.map_eq_nil_iff.mp h.symm).symm
    | cons a as ih =>
      intro bs has hbs h
      cases bs with
      | nil => cases h
      | cons b bs =>
        obtain ⟨hhead, htail⟩ := List.cons.inj h
        rw [pairText_inj (has a List.mem_cons_self) (hbs b List.mem_cons_self) hhead,
          ih bs (fun e he => has e (List.mem_cons_of_mem a he))
            (fun e he => hbs e (List.mem_cons_of_mem b he)) htail]
  have := hentries _ _ ha hb h
  cases a
  cases b
  simp_all

end Ferrocrate.Dockerfile
