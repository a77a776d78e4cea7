import Ferrocrate.Lib.Loops
import Ferrocrate.Network.Firewall
import Ferrocrate.Network.Portmap
import Mathlib.Tactic.IntervalCases

/-! Undoing a firewall plan: which prefixes of the setup the rollback takes back, and that cleanup
takes back all of it. -/
namespace Ferrocrate.Network
open Lib

def frontRules (fronts : List (Key × Rule)) (k : Key) : List Rule :=
  (fronts.filter fun front => front.1 = k).map Prod.snd

def plainTargets : List String := ["MASQUERADE", "ACCEPT", "DNAT"]

structure Installed (fw0 : HostFirewall) (owned : List Key) (rules : Key → List Rule)
    (fronts : List (Key × Rule)) (fw : Firewall) : Prop where
  nft : fw.nft = fw0.nft
  kept : ∀ k ∉ owned, fw.chains.get k =
    (fw0.chains.get k).map fun c => { c with rules := frontRules fronts k ++ c.rules }
  held : ∀ k ∈ owned, fw.chains.get k = some ⟨false, rules k⟩
  unused : ∀ k ∈ owned, fw0.chains.get k = none
  plain : ∀ k ∈ owned, ∀ rule ∈ rules k, ∀ target, rule.jump = some target →
    target ∈ plainTargets

namespace Installed
variable {fw0 : HostFirewall} {owned : List Key} {rules : Key → List Rule}
  {fronts : List (Key × Rule)} {fw : Firewall} {table chain : String}

theorem start (fw0 : HostFirewall) (rules : Key → List Rule) :
    Installed fw0 [] rules [] fw0.toFirewall where
  nft := rfl
  kept k _ := by simp [frontRules]
  held k h := by cases h
  unused k h := by cases h
  plain k h := by cases h

theorem finish (h : Installed fw0 [] rules [] fw) : fw = fw0.toFirewall := by
  refine Firewall.ext_get (fun k => ?_) h.nft
  rw [h.kept k (by simp)]
  simp [frontRules]

theorem new (h : Installed fw0 owned rules fronts fw) (hunused : fw0.chains.get (key table chain) = none)
    (hnot : key table chain ∉ owned) (hempty : rules (key table chain) = []) :
    ∃ fw', fw.exec (iptablesCmd table "-N" chain []) = some fw' ∧
      Installed fw0 (key table chain :: owned) rules fronts fw' := by
  have hnone : fw.chains.get (key table chain) = none := by
    rw [h.kept _ hnot, hunused]
    rfl
  refine ⟨{ fw with chains := fw.chains.insert (key table chain) ⟨false, []⟩ }, ?_, ?_⟩
  · exact Firewall.exec_new hnone
  · constructor
    · exact h.nft
    · intro k hk
      rw [List.mem_cons, not_or] at hk
      rw [OrdMap.get_insert, if_neg hk.1]
      exact h.kept k hk.2
    · intro k hk
      rw [OrdMap.get_insert]
      split
      next heq => rw [heq, hempty]
      next hne => exact h.held k ((List.mem_cons.mp hk).resolve_left hne)
    · intro k hk
      rcases List.mem_cons.mp hk with rfl | hk
      · exact hunused
      · exact h.unused k hk
    · intro k hk rule hrule target htarget
      rcases List.mem_cons.mp hk with rfl | hk
      · rw [hempty] at hrule
        cases hrule
      · exact h.plain k hk rule hrule target htarget

theorem setRules_kept (h : Installed fw0 owned rules fronts fw) {c : Chain} {rs : List Rule}
    {fronts' : List (Key × Rule)} {k0 : Key} (hnot : k0 ∉ owned) (hget : fw0.chains.get k0 = some c)
    (hrules : rs = frontRules fronts' k0 ++ c.rules)
    (hsame : ∀ k, k ≠ k0 → frontRules fronts' k = frontRules fronts k)
    {c' : Chain} (hbuiltin : c'.builtin = c.builtin) :
    Installed fw0 owned rules fronts' (fw.setRules k0 c' rs) := by
  constructor
  · exact h.nft
  · intro k hk
    simp only [Firewall.setRules]
    rw [OrdMap.get_insert]
    split
    next heq =>
      rw [heq, hget, Option.map_some, hrules, hbuiltin]
    next hne =>
      rw [h.kept k hk, hsame k hne]
  · intro k hk
    simp only [Firewall.setRules]
    have hne : k ≠ k0 := by
      intro heq
      exact hnot (heq ▸ hk)
    rw [OrdMap.get_insert, if_neg hne]
    exact h.held k hk
  · exact h.unused
  · exact h.plain

theorem call (h : Installed fw0 owned rules fronts fw) (spec : List String)
    (hnot : key table chain ∉ owned) (hthere : (fw0.chains.get (key table chain)).isSome) :
    ∃ fw' rule, fw.exec (iptablesCmd table "-I" chain ("1" :: spec)) = some fw' ∧
      rule.spec = spec ∧
      Installed fw0 owned rules ((key table chain, rule) :: fronts) fw' := by
  obtain ⟨c, hc⟩ := Option.isSome_iff_exists.mp hthere
  have hget := h.kept _ hnot
  rw [hc, Option.map_some] at hget
  have hone : parseDigits "1".toList = some 1 := by decide +kernel
  let front := frontRules fronts (key table chain)
  refine ⟨fw.setRules (key table chain) ⟨c.builtin, front ++ c.rules⟩
    (fw.rule table spec :: (front ++ c.rules)), fw.rule table spec, ?_, rfl,
    h.setRules_kept hnot hc ?_ ?_ rfl⟩
  · simp only [Firewall.exec, iptablesCmd, List.cons_append, List.nil_append, Firewall.iptables,
      hget, hone]
    rfl
  · simp [front, frontRules]
  · intro k hk
    have : ¬ key table chain = k := fun heq => hk heq.symm
    simp [frontRules, this]

theorem uncall {rule : Rule} (h : Installed fw0 owned rules ((key table chain, rule) :: fronts) fw)
    {first : String} {rest : List String} (hspec : rule.spec = first :: rest)
    (hfirst : parseDigits first.toList = none)
    (hnot : key table chain ∉ owned) (hthere : (fw0.chains.get (key table chain)).isSome) :
    ∃ fw', fw.exec (iptablesCmd table "-D" chain (first :: rest)) = some fw' ∧
      Installed fw0 owned rules fronts fw' := by
  obtain ⟨c, hc⟩ := Option.isSome_iff_exists.mp hthere
  have hget := h.kept _ hnot
  have hfront : frontRules ((key table chain, rule) :: fronts) (key table chain) =
      rule :: frontRules fronts (key table chain) := by
    simp [frontRules]
  rw [hc, Option.map_some, hfront, List.cons_append] at hget
  let front := frontRules fronts (key table chain)
  refine ⟨fw.setRules (key table chain) ⟨c.builtin, rule :: (front ++ c.rules)⟩
    (front ++ c.rules), ?_, h.setRules_kept hnot hc rfl ?_ rfl⟩
  · simp only [Firewall.exec, iptablesCmd, List.cons_append, List.nil_append, Firewall.iptables,
      hget, hfirst, List.any_cons, hspec, decide_true, Bool.true_or, if_true]
    rw [List.eraseP_cons_of_pos (by simp [hspec])]
    rfl
  · intro k hk
    have : ¬ key table chain = k := fun heq => hk heq.symm
    simp [frontRules, this]

theorem setRules_owned (h : Installed fw0 owned rules fronts fw) {k0 : Key} (hin : k0 ∈ owned)
    (rs : List Rule) (hplain : ∀ rule ∈ rs, ∀ target, rule.jump = some target →
      target ∈ plainTargets) :
    Installed fw0 owned (Function.update rules k0 rs) fronts
      (fw.setRules k0 ⟨false, rules k0⟩ rs) := by
  constructor
  · exact h.nft
  · intro k hk
    simp only [Firewall.setRules]
    have hne : k ≠ k0 := by
      intro heq
      exact hk (heq ▸ hin)
    rw [OrdMap.get_insert, if_neg hne]
    exact h.kept k hk
  · intro k hk
    simp only [Firewall.setRules]
    rw [OrdMap.get_insert, Function.update_apply]
    split
    · rfl
    · exact h.held k hk
  · exact h.unused
  · intro k hk rule hrule target htarget
    rw [Function.update_apply] at hrule
    split at hrule
    · exact hplain rule hrule target htarget
    · exact h.plain k hk rule hrule target htarget

theorem append (h : Installed fw0 owned rules fronts fw) {spec : List String} {target : String}
    (hin : key table chain ∈ owned) (htarget : jumpTarget spec = some target)
    (hplain : target ∈ plainTargets) :
    ∃ fw' rules', fw.exec (iptablesCmd table "-A" chain spec) = some fw' ∧
      Installed fw0 owned rules' fronts fw' := by
  have hget := h.held _ hin
  refine ⟨_, _, ?_, h.setRules_owned hin
    (rules (key table chain) ++ [fw.rule table spec]) ?_⟩
  · simp only [Firewall.exec, iptablesCmd, List.cons_append, List.nil_append, Firewall.iptables,
      hget, if_true]
  · intro rule hrule t ht
    rcases List.mem_append.mp hrule with hrule | hrule
    · exact h.plain _ hin rule hrule t ht
    · rw [List.mem_singleton] at hrule
      subst hrule
      simp only [Firewall.rule, htarget, Option.filter_some] at ht
      split at ht
      · cases ht
        exact hplain
      · cases ht

theorem flush (h : Installed fw0 owned rules fronts fw) (hin : key table chain ∈ owned) :
    ∃ fw', fw.exec (iptablesCmd table "-F" chain []) = some fw' ∧
      Installed fw0 owned (Function.update rules (key table chain) []) fronts fw' := by
  have hget := h.held _ hin
  refine ⟨_, ?_, h.setRules_owned hin [] (by simp)⟩
  simp [Firewall.exec, iptablesCmd, Firewall.iptables, hget]

theorem not_referenced (h : Installed fw0 owned rules [] fw) (hin : key table chain ∈ owned)
    (hname : chain ∉ plainTargets) : fw.referenced table chain = false := by
  rw [Firewall.referenced, Bool.eq_false_iff]
  intro hany
  obtain ⟨⟨k, c⟩, hentry, hboth⟩ := List.any_eq_true.mp hany
  rw [Bool.and_eq_true, decide_eq_true_eq] at hboth
  obtain ⟨htable, hrule⟩ := hboth
  obtain ⟨rule, hrule, hjump⟩ := List.any_eq_true.mp hrule
  have hjump : rule.jump = some chain := by simpa using hjump
  have hget := fw.chains.get_eq_some_iff.mpr hentry
  by_cases hk : k ∈ owned
  · rw [h.held k hk] at hget
    cases hget
    exact hname (h.plain k hk rule hrule chain hjump)
  · rw [h.kept k hk] at hget
    obtain ⟨c0, hc0, rfl⟩ := Option.map_eq_some_iff.mp hget
    have hrule : rule ∈ c0.rules := by simpa [frontRules] using hrule
    have hk' : k = key table (ofLex k).2 := by
      rw [← htable]
      rfl
    have hthere := fw0.resolved table (ofLex k).2 c0 (hk' ▸ hc0) rule hrule chain hjump
    rw [h.unused _ hin] at hthere
    cases hthere

theorem delete (h : Installed fw0 (key table chain :: owned) rules [] fw)
    (hempty : rules (key table chain) = []) (hname : chain ∉ plainTargets)
    (hnot : key table chain ∉ owned) :
    ∃ fw', fw.exec (iptablesCmd table "-X" chain []) = some fw' ∧
      Installed fw0 owned rules [] fw' := by
  have hin : key table chain ∈ key table chain :: owned := List.mem_cons_self
  have hget := h.held _ hin
  rw [hempty] at hget
  refine ⟨{ fw with chains := fw.chains.erase (key table chain) }, ?_, ?_⟩
  · simp [Firewall.exec, iptablesCmd, Firewall.iptables, hget, h.not_referenced hin hname]
  · constructor
    · exact h.nft
    · intro k hk
      rw [OrdMap.get_erase]
      split
      next heq =>
        rw [heq, h.unused _ hin]
        rfl
      next hne => exact h.kept k (by simp [hne, hk])
    · intro k hk
      have hne : k ≠ key table chain := by
        intro heq
        exact hnot (heq ▸ hk)
      rw [OrdMap.get_erase, if_neg hne]
      exact h.held k (List.mem_cons_of_mem _ hk)
    · exact fun k hk => h.unused k (List.mem_cons_of_mem _ hk)
    · exact fun k hk => h.plain k (List.mem_cons_of_mem _ hk)

end Installed

/-! ## Whole lists of commands -/

theorem Firewall.runAll_cons {fw fw1 fw2 : Firewall} {command : List String}
    {commands : List (List String)} (h1 : fw.exec command = some fw1)
    (h2 : fw1.runAll commands = some fw2) : fw.runAll (command :: commands) = some fw2 := by
  rw [runAll, List.foldlM_cons, h1]
  exact h2

theorem Firewall.runAll_trans {fw fw1 fw2 : Firewall} {as bs : List (List String)}
    (h1 : fw.runAll as = some fw1) (h2 : fw1.runAll bs = some fw2) :
    fw.runAll (as ++ bs) = some fw2 := by
  rw [runAll_append, h1]
  exact h2

def childKey (jump : String × String × String) : Key := key jump.1 jump.2.2

def parentKey (jump : String × String × String) : Key := key jump.1 jump.2.1

def newCommand (jump : String × String × String) : List String :=
  iptablesCmd jump.1 "-N" jump.2.2 []

def callSpec (comment : String) (jump : String × String × String) : List String :=
  ["-m", "comment", "--comment", comment, "-j", jump.2.2]

def callCommand (comment : String) (jump : String × String × String) : List String :=
  iptablesCmd jump.1 "-I" jump.2.1 ("1" :: callSpec comment jump)

def uncallCommand (comment : String) (jump : String × String × String) : List String :=
  iptablesCmd jump.1 "-D" jump.2.1 (callSpec comment jump)

def deleteCommand (jump : String × String × String) : List String :=
  iptablesCmd jump.1 "-X" jump.2.2 []

namespace Installed
variable {fw0 : HostFirewall} {owned : List Key} {rules : Key → List Rule}
  {fronts : List (Key × Rule)} {fw : Firewall} {comment : String}
  {js : List (String × String × String)}

theorem news (h : Installed fw0 owned (fun _ => []) [] fw)
    (hunused : ∀ j ∈ js, fw0.chains.get (childKey j) = none)
    (hnodup : ((js.map childKey).reverse ++ owned).Nodup) :
    ∃ fw', fw.runAll (js.map newCommand) = some fw' ∧
      Installed fw0 ((js.map childKey).reverse ++ owned) (fun _ => []) [] fw' := by
  induction js generalizing fw owned with
  | nil => exact ⟨fw, rfl, h⟩
  | cons j js ih =>
    have hkeys : (List.map childKey (j :: js)).reverse ++ owned =
        (js.map childKey).reverse ++ childKey j :: owned := by simp
    rw [hkeys] at hnodup ⊢
    have hnot : childKey j ∉ owned :=
      (List.nodup_cons.mp (List.Nodup.of_append_right hnodup)).1
    obtain ⟨fw1, hexec, h1⟩ := h.new (hunused j (by simp)) hnot rfl
    obtain ⟨fw2, hrun, h2⟩ := ih h1 (fun j' hj' => hunused j' (by simp [hj'])) hnodup
    exact ⟨fw2, Firewall.runAll_cons hexec hrun, h2⟩

theorem deletes (h : Installed fw0 (js.map childKey ++ owned) (fun _ => []) [] fw)
    (hnodup : (js.map childKey ++ owned).Nodup) (hnames : ∀ j ∈ js, j.2.2 ∉ plainTargets) :
    ∃ fw', fw.runAll (js.map deleteCommand) = some fw' ∧
      Installed fw0 owned (fun _ => []) [] fw' := by
  induction js generalizing fw with
  | nil => exact ⟨fw, rfl, h⟩
  | cons j js ih =>
    rw [List.map_cons, List.cons_append, List.nodup_cons] at hnodup
    obtain ⟨fw1, hexec, h1⟩ := h.delete rfl (hnames j (by simp)) hnodup.1
    obtain ⟨fw2, hrun, h2⟩ := ih h1 hnodup.2 fun j' hj' => hnames j' (by simp [hj'])
    exact ⟨fw2, Firewall.runAll_cons hexec hrun, h2⟩

theorem calls (comment : String) (h : Installed fw0 owned rules fronts fw)
    (hthere : ∀ j ∈ js, (fw0.chains.get (parentKey j)).isSome)
    (hnot : ∀ j ∈ js, parentKey j ∉ owned) :
    ∃ fw' added, fw.runAll (js.map (callCommand comment)) = some fw' ∧
      added.map (fun front => (front.1, front.2.spec)) =
        (js.map fun j => (parentKey j, callSpec comment j)).reverse ∧
      Installed fw0 owned rules (added ++ fronts) fw' := by
  induction js generalizing fw fronts with
  | nil => exact ⟨fw, [], rfl, rfl, h⟩
  | cons j js ih =>
    obtain ⟨fw1, rule, hexec, hspec, h1⟩ :=
      h.call (callSpec comment j) (hnot j (by simp)) (hthere j (by simp))
    obtain ⟨fw2, added, hrun, hadded, h2⟩ := ih h1 (fun j' hj' => hthere j' (by simp [hj']))
      fun j' hj' => hnot j' (by simp [hj'])
    refine ⟨fw2, added ++ [(parentKey j, rule)], Firewall.runAll_cons hexec hrun, ?_, ?_⟩
    · rw [List.map_append, hadded, List.map_singleton, hspec]
      simp [parentKey]
    · rw [List.append_assoc]
      exact h2

theorem uncalls {added : List (Key × Rule)} (h : Installed fw0 owned rules (added ++ fronts) fw)
    (hadded : added.map (fun front => (front.1, front.2.spec)) =
      js.map fun j => (parentKey j, callSpec comment j))
    (hthere : ∀ j ∈ js, (fw0.chains.get (parentKey j)).isSome)
    (hnot : ∀ j ∈ js, parentKey j ∉ owned) :
    ∃ fw', fw.runAll (js.map (uncallCommand comment)) = some fw' ∧
      Installed fw0 owned rules fronts fw' := by
  induction js generalizing fw added with
  | nil =>
    rw [List.map_nil, List.map_eq_nil_iff] at hadded
    subst hadded
    exact ⟨fw, rfl, h⟩
  | cons j js ih =>
    cases added with
    | nil => cases hadded
    | cons front added =>
      obtain ⟨k, rule⟩ := front
      rw [List.map_cons, List.map_cons, List.cons.injEq, Prod.mk.injEq] at hadded
      obtain ⟨⟨hkey, hspec⟩, hrest⟩ := hadded
      have hkey : k = key j.1 j.2.1 := hkey
      subst hkey
      obtain ⟨fw1, hexec, h1⟩ := h.uncall hspec (by decide +kernel) (hnot j (by simp))
        (hthere j (by simp))
      obtain ⟨fw2, hrun, h2⟩ := ih h1 hrest (fun j' hj' => hthere j' (by simp [hj']))
        fun j' hj' => hnot j' (by simp [hj'])
      exact ⟨fw2, Firewall.runAll_cons hexec hrun, h2⟩

theorem appends {commands : List (List String)} (h : Installed fw0 owned rules fronts fw)
    (hcommands : ∀ command ∈ commands, ∃ table chain spec target,
      command = iptablesCmd table "-A" chain spec ∧ key table chain ∈ owned ∧
        jumpTarget spec = some target ∧ target ∈ plainTargets) :
    ∃ fw' rules', fw.runAll commands = some fw' ∧ Installed fw0 owned rules' fronts fw' := by
  induction commands generalizing fw rules with
  | nil => exact ⟨fw, rules, rfl, h⟩
  | cons command commands ih =>
    obtain ⟨table, chain, spec, target, rfl, hin, htarget, hplain⟩ := hcommands command (by simp)
    obtain ⟨fw1, rules1, hexec, h1⟩ := h.append hin htarget hplain
    obtain ⟨fw2, rules2, hrun, h2⟩ := ih h1 fun c hc => hcommands c (by simp [hc])
    exact ⟨fw2, rules2, Firewall.runAll_cons hexec hrun, h2⟩

theorem clears (h : Installed fw0 (js.map childKey ++ owned) rules [] fw)
    (hnodup : (js.map childKey ++ owned).Nodup) (hnames : ∀ j ∈ js, j.2.2 ∉ plainTargets) :
    ∃ fw' rules', fw.runAll (js.flatMap fun j => [iptablesCmd j.1 "-F" j.2.2 [],
      deleteCommand j]) = some fw' ∧ Installed fw0 owned rules' [] fw' := by
  induction js generalizing fw rules with
  | nil => exact ⟨fw, rules, rfl, h⟩
  | cons j js ih =>
    rw [List.map_cons, List.cons_append] at h
    rw [List.map_cons, List.cons_append, List.nodup_cons] at hnodup
    obtain ⟨fw1, hflush, h1⟩ := (h.flush List.mem_cons_self :
      ∃ fw', fw.exec (iptablesCmd j.1 "-F" j.2.2 []) = some fw' ∧ _)
    obtain ⟨fw2, hdelete, h2⟩ := h1.delete (Function.update_self ..) (hnames j (by simp)) hnodup.1
    obtain ⟨fw3, rules3, hrun, h3⟩ := ih h2 hnodup.2 fun j' hj' => hnames j' (by simp [hj'])
    exact ⟨fw3, rules3, Firewall.runAll_cons hflush (Firewall.runAll_cons hdelete hrun), h3⟩

end Installed

/-! ## Plans for iptables -/

def NetworkPlan.rollback (plan : NetworkPlan) (k : Nat) : List (List String) :=
  (List.range k).reverse.flatMap plan.rollbackCommandsFor

/-- Setting up `k` commands and rolling them back succeeds and restores the firewall. -/
def RollsBack (plan : NetworkPlan) (fw0 : HostFirewall) (k : Nat) : Prop :=
  ∃ fw, fw0.toFirewall.runAll (plan.commands.take k) = some fw ∧
    fw.runAll (plan.rollback k) = some fw0.toFirewall

def CleansUp (plan : NetworkPlan) (fw0 : HostFirewall) : Prop :=
  ∃ fw, fw0.toFirewall.runAll plan.commands = some fw ∧
    fw.runAll plan.cleanupCommands = some fw0.toFirewall

structure HostFirewall.Free (fw0 : HostFirewall) (firewallId : String) : Prop where
  chains : ∀ j ∈ jumps firewallId, fw0.chains.get (childKey j) = none
  table : fw0.nft.get (key "ip" firewallId) = none

section
variable {fw0 : HostFirewall} {token : String}

theorem nodup_childKeys (firewallId : String) : ((jumps firewallId).map childKey).Nodup := by
  simp [jumps, childKey, key]

variable {j : String × String × String}

theorem child_not_plain (h : j ∈ jumps ("fc_" ++ token)) :
    j.2.2 ∉ plainTargets := by
  intro hmem
  have hhead : j.2.2.toList.head? = some 'f' := by
    simp only [jumps, List.mem_cons, List.not_mem_nil, or_false] at h
    rcases h with rfl | rfl | rfl | rfl <;> simp
  have hplain : ∀ target ∈ plainTargets, target.toList.head? ≠ some 'f' := by decide +kernel
  exact hplain _ hmem hhead

variable {firewallId : String}

theorem parent_there
    (h : j ∈ jumps firewallId) : (fw0.chains.get (parentKey j)).isSome := by
  refine fw0.builtins _ ?_
  simp only [jumps, List.mem_cons, List.not_mem_nil, or_false] at h
  rcases h with rfl | rfl | rfl | rfl <;> simp [parentKey]

theorem parent_not_child (hfree : fw0.Free firewallId) (h : j ∈ jumps firewallId) :
    parentKey j ∉ (jumps firewallId).map childKey := by
  intro hmem
  obtain ⟨j', hj', heq⟩ := List.mem_map.mp hmem
  have hthere : (fw0.chains.get (parentKey j)).isSome := parent_there h
  rw [← heq, hfree.chains j' hj'] at hthere
  cases hthere

theorem iptablesRules_append (firewallId : String) (mappings : List PortMapping)
    (containerIp sourceCidr bridge : String) :
    ∀ command ∈ iptablesRules firewallId mappings containerIp sourceCidr bridge,
      ∃ table chain spec target, command = iptablesCmd table "-A" chain spec ∧
        key table chain ∈ (jumps firewallId).map childKey ∧ jumpTarget spec = some target ∧
        target ∈ plainTargets := by
  intro command hcommand
  simp only [iptablesRules, iptablesMapping, List.map_cons, List.map_nil, List.cons_append,
    List.nil_append, List.mem_cons, List.mem_flatMap, List.not_mem_nil, or_false] at hcommand
  rcases hcommand with rfl | rfl | rfl | ⟨mapping, -, rfl | rfl | rfl | rfl⟩
  all_goals
    refine ⟨_, _, _, _, rfl, ?_, rfl, by simp [plainTargets]⟩
    simp [jumps, childKey]

theorem iptables_cleansUp (ownerId : String) (mappings : List PortMapping)
    (containerIp sourceCidr bridge : String) (hfree : fw0.Free ("fc_" ++ firewallOwnerToken ownerId)) :
    CleansUp (buildOwnedIptablesPlan ownerId mappings containerIp sourceCidr bridge) fw0 := by
  let js := jumps ("fc_" ++ firewallOwnerToken ownerId)
  let comment := "ferrocrate:" ++ ("fc_" ++ firewallOwnerToken ownerId)
  have hnodup : ((js.map childKey).reverse ++ []).Nodup := by
    rw [List.append_nil, List.nodup_reverse]
    exact nodup_childKeys _
  have hmem : ∀ k, k ∈ (js.map childKey).reverse ++ [] ↔ k ∈ js.map childKey := by simp
  have hparent : ∀ j ∈ js, parentKey j ∉ (js.map childKey).reverse ++ [] := by
    intro j hj
    rw [hmem]
    exact parent_not_child hfree hj
  obtain ⟨fw1, hrun1, h1⟩ := (Installed.start fw0 fun _ => []).news hfree.chains hnodup
  obtain ⟨fw2, added, hrun2, hadded, h2⟩ :=
    h1.calls comment (fun j hj => parent_there hj) hparent
  obtain ⟨fw3, rules, hrun3, h3⟩ := h2.appends fun command hcommand => by
    obtain ⟨table, chain, spec, target, hcommand, hin, hrest⟩ :=
      iptablesRules_append _ mappings containerIp sourceCidr bridge command hcommand
    exact ⟨table, chain, spec, target, hcommand, (hmem _).mpr hin, hrest⟩
  rw [← List.map_reverse] at hadded
  obtain ⟨fw4, hrun4, h4⟩ := h3.uncalls hadded
    (fun j hj => parent_there (List.mem_reverse.mp hj)) fun j hj =>
      hparent j (List.mem_reverse.mp hj)
  rw [← List.map_reverse] at h4 hnodup
  obtain ⟨fw5, rules', hrun5, h5⟩ := h4.clears hnodup
    fun j hj => child_not_plain (List.mem_reverse.mp hj)
  rw [h5.finish] at hrun5
  exact ⟨fw3, Firewall.runAll_trans (Firewall.runAll_trans hrun1 hrun2) hrun3,
    Firewall.runAll_trans hrun4 hrun5⟩

variable {k : Nat}

theorem take_iptables_commands (ownerId : String) (mappings : List PortMapping)
    (containerIp sourceCidr bridge : String) (hk : k ≤ 4) :
    (buildOwnedIptablesPlan ownerId mappings containerIp sourceCidr bridge).commands.take k =
      ((jumps ("fc_" ++ firewallOwnerToken ownerId)).take k).map newCommand := by
  interval_cases k <;> rfl

theorem iptables_rollback (ownerId : String) (mappings : List PortMapping)
    (containerIp sourceCidr bridge : String) (hk : k ≤ 4) :
    (buildOwnedIptablesPlan ownerId mappings containerIp sourceCidr bridge).rollback k =
      ((jumps ("fc_" ++ firewallOwnerToken ownerId)).take k).reverse.map deleteCommand := by
  interval_cases k <;> rfl

theorem iptables_rollsBack (ownerId : String) (mappings : List PortMapping)
    (containerIp sourceCidr bridge : String) (hfree : fw0.Free ("fc_" ++ firewallOwnerToken ownerId)) (hk : k ≤ 4) :
    RollsBack (buildOwnedIptablesPlan ownerId mappings containerIp sourceCidr bridge) fw0 k := by
  let js := (jumps ("fc_" ++ firewallOwnerToken ownerId)).take k
  have hmem : ∀ j ∈ js, j ∈ jumps ("fc_" ++ firewallOwnerToken ownerId) :=
    fun j hj => List.mem_of_mem_take hj
  have hnodup : ((js.map childKey).reverse ++ []).Nodup := by
    rw [List.append_nil, List.nodup_reverse]
    exact (nodup_childKeys _).sublist ((List.take_sublist _ _).map _)
  obtain ⟨fw1, hrun1, h1⟩ :=
    (Installed.start fw0 fun _ => []).news (fun j hj => hfree.chains j (hmem j hj)) hnodup
  rw [← List.map_reverse] at h1 hnodup
  obtain ⟨fw2, hrun2, h2⟩ := h1.deletes hnodup
    fun j hj => child_not_plain (hmem j (List.mem_reverse.mp hj))
  rw [h2.finish] at hrun2
  refine ⟨fw1, ?_, ?_⟩
  · rw [take_iptables_commands _ _ _ _ _ hk]
    exact hrun1
  · rw [iptables_rollback _ _ _ _ _ hk]
    exact hrun2

theorem iptables_not_rollsBack (ownerId : String) (mappings : List PortMapping)
    (containerIp sourceCidr bridge : String) (hk : 4 < k) :
    ¬ RollsBack (buildOwnedIptablesPlan ownerId mappings containerIp sourceCidr bridge) fw0 k := by
  intro h
  obtain ⟨fw, -, hrollback⟩ := h
  let firewallId := "fc_" ++ firewallOwnerToken ownerId
  have hmem : iptablesCmd "nat" "-D" "PREROUTING" ("1" :: callSpec ("ferrocrate:" ++ firewallId)
      ("nat", "PREROUTING", firewallId ++ "_PRE")) ∈
      (buildOwnedIptablesPlan ownerId mappings containerIp sourceCidr bridge).rollback k := by
    refine List.mem_flatMap.mpr ⟨4, List.mem_reverse.mpr (List.mem_range.mpr hk), ?_⟩
    exact List.mem_singleton.mpr rfl
  have hrefused : ∀ fw : Firewall, fw.exec (iptablesCmd "nat" "-D" "PREROUTING"
      ("1" :: callSpec ("ferrocrate:" ++ firewallId)
        ("nat", "PREROUTING", firewallId ++ "_PRE"))) = none := fun fw =>
    fw.delete_numbered "nat" "PREROUTING" "1" "-m" _ (by decide +kernel)
  rw [Firewall.runAll_eq_none hmem hrefused] at hrollback
  cases hrollback

/-! ## Plans for nftables -/

structure NftInstalled (fw0 : HostFirewall) (firewallId : String) (present : List String)
    (fw : Firewall) : Prop where
  chains : fw.chains = fw0.chains
  kept : ∀ k ≠ key "ip" firewallId, fw.nft.get k = fw0.nft.get k
  table : ∃ t, fw.nft.get (key "ip" firewallId) = some t ∧ ∀ chain ∈ present, (t.get chain).isSome

def Suitable (firewallId : String) : List String → List (List String) → Prop
  | _, [] => True
  | present, command :: commands =>
    (∃ chain spec, command = nftCmd ("add" :: "chain" :: "ip" :: firewallId :: chain :: spec) ∧
      Suitable firewallId (chain :: present) commands) ∨
    ∃ chain spec, command = nftRule firewallId chain spec ∧ chain ∈ present ∧
      Suitable firewallId present commands

variable {present : List String} {commands : List (List String)}

theorem Suitable.take
    (h : Suitable firewallId present commands) (k : Nat) :
    Suitable firewallId present (commands.take k) := by
  induction commands generalizing present k with
  | nil => simpa using h
  | cons command commands ih =>
    cases k with
    | zero => trivial
    | succ k =>
      rcases h with ⟨chain, spec, rfl, h⟩ | ⟨chain, spec, rfl, hin, h⟩
      · exact .inl ⟨chain, spec, rfl, ih h k⟩
      · exact .inr ⟨chain, spec, rfl, hin, ih h k⟩

theorem suitable_rules
    (h : ∀ command ∈ commands, ∃ chain spec, command = nftRule firewallId chain spec ∧
      chain ∈ present) : Suitable firewallId present commands := by
  induction commands with
  | nil => trivial
  | cons command commands ih =>
    obtain ⟨chain, spec, hcommand, hin⟩ := h command (by simp)
    exact .inr ⟨chain, spec, hcommand, hin, ih fun c hc => h c (by simp [hc])⟩

variable {fw : Firewall}

theorem NftInstalled.insert
    (h : NftInstalled fw0 firewallId present fw) (present' : List String) (t : NftTable)
    (hpresent : ∀ chain ∈ present', (t.get chain).isSome) :
    NftInstalled fw0 firewallId present'
      { fw with nft := fw.nft.insert (key "ip" firewallId) t } where
  chains := h.chains
  kept k hk := by
    rw [OrdMap.get_insert, if_neg hk]
    exact h.kept k hk
  table := ⟨t, OrdMap.get_insert_self _ _ _, hpresent⟩

theorem NftInstalled.runs (h : NftInstalled fw0 firewallId present fw)
    (hsuitable : Suitable firewallId present commands) :
    ∃ fw' present', fw.runAll commands = some fw' ∧ NftInstalled fw0 firewallId present' fw' := by
  induction commands generalizing fw present with
  | nil => exact ⟨fw, present, rfl, h⟩
  | cons command commands ih =>
    obtain ⟨t, ht, hpresent⟩ := h.table
    rcases hsuitable with ⟨chain, spec, rfl, hrest⟩ | ⟨chain, spec, rfl, hin, hrest⟩
    · cases hthere : t.contains chain with
      | true =>
        have h1 : NftInstalled fw0 firewallId (chain :: present) fw := by
          refine ⟨h.chains, h.kept, t, ht, ?_⟩
          intro c hc
          rcases List.mem_cons.mp hc with rfl | hc
          · exact hthere
          · exact hpresent c hc
        obtain ⟨fw', present', hrun, h'⟩ := ih h1 hrest
        refine ⟨fw', present', Firewall.runAll_cons ?_ hrun, h'⟩
        simp [Firewall.exec, nftCmd, Firewall.nftables, ht, hthere]
      | false =>
        have h1 := h.insert (chain :: present) (t.insert chain []) (by
          intro c hc
          rw [OrdMap.get_insert]
          split
          next => rfl
          next hne => exact hpresent c ((List.mem_cons.mp hc).resolve_left hne))
        obtain ⟨fw', present', hrun, h'⟩ := ih h1 hrest
        refine ⟨fw', present', Firewall.runAll_cons ?_ hrun, h'⟩
        simp [Firewall.exec, nftCmd, Firewall.nftables, ht, hthere]
    · obtain ⟨rules, hrules⟩ := Option.isSome_iff_exists.mp (hpresent chain hin)
      have h1 := h.insert present (t.insert chain (rules ++ [spec])) (by
        intro c hc
        rw [OrdMap.get_insert]
        split
        next => rfl
        next => exact hpresent c hc)
      obtain ⟨fw', present', hrun, h'⟩ := ih h1 hrest
      refine ⟨fw', present', Firewall.runAll_cons ?_ hrun, h'⟩
      simp [Firewall.exec, nftRule, nftCmd, Firewall.nftables, ht, hrules]

theorem NftInstalled.delete
    (h : NftInstalled fw0 firewallId present fw)
    (hfree : fw0.nft.get (key "ip" firewallId) = none) :
    fw.runAll [nftCmd ["delete", "table", "ip", firewallId]] = some fw0.toFirewall := by
  obtain ⟨t, ht, -⟩ := h.table
  have hthere : fw.nft.contains (key "ip" firewallId) = true := by
    rw [OrdMap.contains, ht]
    rfl
  have hdelete : fw.exec (nftCmd ["delete", "table", "ip", firewallId]) =
      some { fw with nft := fw.nft.erase (key "ip" firewallId) } := by
    simp [Firewall.exec, nftCmd, Firewall.nftables, hthere]
  have hnft : fw.nft.erase (key "ip" firewallId) = fw0.nft := by
    refine OrdMap.ext_get fun k => ?_
    rw [OrdMap.get_erase]
    split
    next heq => rw [heq, hfree]
    next hne => exact h.kept k hne
  refine Firewall.runAll_cons hdelete ?_
  rw [hnft, h.chains]
  rfl

section
variable (ownerId : String) (mappings : List PortMapping) (containerIp sourceCidr bridge : String)

theorem nft_suitable :
    Suitable ("fc_" ++ firewallOwnerToken ownerId) []
      (buildOwnedNftablesPlan ownerId mappings containerIp sourceCidr bridge).commands.tail := by
  have hrules : ∀ command ∈ nftRules ("fc_" ++ firewallOwnerToken ownerId) mappings containerIp
      sourceCidr bridge, ∃ chain spec,
        command = nftRule ("fc_" ++ firewallOwnerToken ownerId) chain spec ∧
          chain ∈ ["forward", "postrouting", "output", "prerouting"] := by
    intro command hcommand
    simp only [nftRules, nftMapping, List.map_cons, List.map_nil, List.cons_append,
      List.nil_append, List.mem_cons, List.mem_flatMap, List.not_mem_nil, or_false] at hcommand
    rcases hcommand with rfl | rfl | ⟨mapping, -, rfl | rfl | rfl⟩
    all_goals exact ⟨_, _, rfl, by simp⟩
  exact .inl ⟨_, _, rfl, .inl ⟨_, _, rfl, .inl ⟨_, _, rfl, .inl ⟨_, _, rfl,
    suitable_rules hrules⟩⟩⟩⟩

theorem nft_starts (hfree : fw0.Free ("fc_" ++ firewallOwnerToken ownerId)) :
    ∃ fw, fw0.toFirewall.exec
      (nftCmd ["add", "table", "ip", "fc_" ++ firewallOwnerToken ownerId]) = some fw ∧
      NftInstalled fw0 ("fc_" ++ firewallOwnerToken ownerId) [] fw := by
  have hnone : fw0.nft.contains (key "ip" ("fc_" ++ firewallOwnerToken ownerId)) = false := by
    rw [OrdMap.contains, hfree.table]
    rfl
  refine ⟨{ fw0.toFirewall with
    nft := fw0.nft.insert (key "ip" ("fc_" ++ firewallOwnerToken ownerId)) .empty }, ?_, rfl, ?_,
    .empty, ?_, ?_⟩
  · exact Firewall.exec_add_table hnone
  · intro k hk
    exact (OrdMap.get_insert _ _ _ _).trans (if_neg hk)
  · exact OrdMap.get_insert_self _ _ _
  · intro chain hchain
    cases hchain

theorem nft_rollback_succ (k : Nat) :
    (buildOwnedNftablesPlan ownerId mappings containerIp sourceCidr bridge).rollback (k + 1) =
      [nftCmd ["delete", "table", "ip", "fc_" ++ firewallOwnerToken ownerId]] := by
  let plan := buildOwnedNftablesPlan ownerId mappings containerIp sourceCidr bridge
  have hlater : ∀ commands present,
      Suitable ("fc_" ++ firewallOwnerToken ownerId) present commands → ∀ command ∈ commands,
        ∃ kind rest, command = "nft" :: "add" :: kind :: rest ∧ kind ≠ "table" := by
    intro commands
    induction commands with
    | nil => exact fun present _ command hcommand => by cases hcommand
    | cons c commands ih =>
      intro present h command hcommand
      rcases h with ⟨chain, spec, rfl, h⟩ | ⟨chain, spec, rfl, -, h⟩
      · rcases List.mem_cons.mp hcommand with rfl | hcommand
        · exact ⟨"chain", _, rfl, by decide⟩
        · exact ih _ h command hcommand
      · rcases List.mem_cons.mp hcommand with rfl | hcommand
        · exact ⟨"rule", _, rfl, by decide⟩
        · exact ih _ h command hcommand
  have hnone : ∀ i, plan.rollbackCommandsFor (i + 1) = [] := by
    intro i
    cases hget : plan.commands[i + 1]? with
    | none => simp [NetworkPlan.rollbackCommandsFor, hget]
    | some command =>
      have hmem : command ∈ plan.commands.tail := by
        rw [← List.getElem?_tail] at hget
        exact List.mem_of_getElem? hget
      obtain ⟨kind, rest, rfl, hkind⟩ := hlater _ _
        (nft_suitable ownerId mappings containerIp sourceCidr bridge) command hmem
      simp [NetworkPlan.rollbackCommandsFor, hget, hkind]
  have hrest : ∀ indices : List Nat,
      (indices.map Nat.succ).flatMap plan.rollbackCommandsFor = [] := by
    intro indices
    rw [List.flatMap_eq_nil_iff]
    intro i hi
    obtain ⟨j, -, rfl⟩ := List.mem_map.mp hi
    exact hnone j
  show (List.range (k + 1)).reverse.flatMap plan.rollbackCommandsFor = _
  rw [List.range_succ_eq_map, List.reverse_cons, List.flatMap_append, ← List.map_reverse, hrest]
  rfl

theorem nft_rollsBack (hfree : fw0.Free ("fc_" ++ firewallOwnerToken ownerId)) (k : Nat) :
    RollsBack (buildOwnedNftablesPlan ownerId mappings containerIp sourceCidr bridge) fw0 k := by
  cases k with
  | zero => exact ⟨fw0.toFirewall, rfl, rfl⟩
  | succ k =>
    obtain ⟨fw1, hexec, h1⟩ := nft_starts ownerId hfree
    have hsuitable := nft_suitable ownerId mappings containerIp sourceCidr bridge
    obtain ⟨fw2, present, hrun, h2⟩ := h1.runs (hsuitable.take k)
    refine ⟨fw2, Firewall.runAll_cons hexec hrun, ?_⟩
    rw [nft_rollback_succ]
    exact h2.delete hfree.table

theorem nft_cleansUp (hfree : fw0.Free ("fc_" ++ firewallOwnerToken ownerId)) :
    CleansUp (buildOwnedNftablesPlan ownerId mappings containerIp sourceCidr bridge) fw0 := by
  obtain ⟨fw1, hexec, h1⟩ := nft_starts ownerId hfree
  obtain ⟨fw2, present, hrun, h2⟩ :=
    h1.runs (nft_suitable ownerId mappings containerIp sourceCidr bridge)
  exact ⟨fw2, Firewall.runAll_cons hexec hrun, h2.delete hfree.table⟩

end

def emptyHost : HostFirewall where
  chains := (((OrdMap.empty.insert (key "nat" "PREROUTING") ⟨true, []⟩).insert
    (key "nat" "OUTPUT") ⟨true, []⟩).insert (key "nat" "POSTROUTING") ⟨true, []⟩).insert
    (key "filter" "FORWARD") ⟨true, []⟩
  nft := .empty
  builtins := by decide +kernel
  resolved := by
    intro table name chain hget rule hrule
    simp only [OrdMap.get_insert] at hget
    have hempty : chain.rules = [] := by
      repeat' split at hget
      all_goals cases hget
      all_goals rfl
    rw [hempty] at hrule
    cases hrule

theorem emptyHost_free : emptyHost.Free ("fc_" ++ firewallOwnerToken "web") where
  chains := by decide +kernel
  table := rfl

theorem web_plan : buildNetworkPlan Char.isAlphanum .iptables "web" [⟨8080, 80, "tcp"⟩] "10.0.0.2"
    "10.0.0.0/24" "ferro0" =
      .ok (buildOwnedIptablesPlan "web" [⟨8080, 80, "tcp"⟩] "10.0.0.2" "10.0.0.0/24" "ferro0") := by
  have hip : validateIp "10.0.0.2" = .ok () := by decide +kernel
  have hcidr : validateCidr "10.0.0.0/24" = .ok () := by decide +kernel
  have hbridge : validateInterfaceName Char.isAlphanum "ferro0" = .ok () := by decide +kernel
  have hmappings : [(⟨8080, 80, "tcp"⟩ : PortMapping)].forM (fun mapping => do
      validatePort mapping.hostPort
      validatePort mapping.containerPort
      validateProtocol mapping.protocol) = .ok () := by decide +kernel
  simp only [buildNetworkPlan, hip, hcidr, hbridge, hmappings]
  rfl

/-- Over every host whose firewall has no chain or table of the plan: a plan for nftables rolls
back from anywhere, a plan for iptables as long as no call was inserted; and cleanup takes back all
of either. -/
theorem plan_rollsBack_iff (isAlphanumeric : Char → Bool) {backend : NetworkBackend}
    {ownerId : String} {mappings : List PortMapping} {containerIp sourceCidr bridge : String}
    {plan : NetworkPlan} (hbackend : backend ≠ .ebpf)
    (hplan : buildNetworkPlan isAlphanumeric backend ownerId mappings containerIp sourceCidr bridge =
      .ok plan)
    {fw0 : HostFirewall} (hfree : fw0.Free ("fc_" ++ firewallOwnerToken ownerId)) (k : Nat) :
    (RollsBack plan fw0 k ↔ backend = .nftables ∨ k ≤ 4) ∧ CleansUp plan fw0 := by
  obtain ⟨-, -, hplan⟩ := Except.bind_eq_ok.mp hplan
  obtain ⟨-, -, hplan⟩ := Except.bind_eq_ok.mp hplan
  obtain ⟨-, -, hplan⟩ := Except.bind_eq_ok.mp hplan
  obtain ⟨-, -, hplan⟩ := Except.bind_eq_ok.mp hplan
  cases backend with
  | ebpf => exact absurd rfl hbackend
  | iptables =>
    cases hplan
    refine ⟨⟨?_, ?_⟩, iptables_cleansUp ownerId mappings containerIp sourceCidr bridge hfree⟩
    · intro h
      by_contra hnot
      push Not at hnot
      exact iptables_not_rollsBack ownerId mappings containerIp sourceCidr bridge hnot.2 h
    · intro h
      have hk : k ≤ 4 := h.resolve_left (by decide)
      exact iptables_rollsBack ownerId mappings containerIp sourceCidr bridge hfree hk
  | nftables =>
    cases hplan
    exact ⟨⟨fun _ => .inl rfl, fun _ =>
      nft_rollsBack ownerId mappings containerIp sourceCidr bridge hfree k⟩,
      nft_cleansUp ownerId mappings containerIp sourceCidr bridge hfree⟩

theorem plan_rollsBack_iff_web :
    (RollsBack (buildOwnedIptablesPlan "web" [⟨8080, 80, "tcp"⟩] "10.0.0.2" "10.0.0.0/24" "ferro0")
      emptyHost 3 ↔ NetworkBackend.iptables = .nftables ∨ 3 ≤ 4) ∧
    CleansUp (buildOwnedIptablesPlan "web" [⟨8080, 80, "tcp"⟩] "10.0.0.2" "10.0.0.0/24" "ferro0")
      emptyHost :=
  plan_rollsBack_iff Char.isAlphanum (by decide) web_plan emptyHost_free 3

/-- A failure of the sixth command leaves the call from `PREROUTING` and all four chains. -/
theorem rollback_of_call_refused :
    ¬ ∀ (isAlphanumeric : Char → Bool) (backend : NetworkBackend) (ownerId : String)
      (mappings : List PortMapping) (containerIp sourceCidr bridge : String) (plan : NetworkPlan)
      (fw0 : HostFirewall) (k : Nat), backend ≠ .ebpf →
      buildNetworkPlan isAlphanumeric backend ownerId mappings containerIp sourceCidr bridge =
        .ok plan →
      fw0.Free ("fc_" ++ firewallOwnerToken ownerId) → RollsBack plan fw0 k ∧ CleansUp plan fw0 := by
  intro h
  exact iptables_not_rollsBack "web" [⟨8080, 80, "tcp"⟩] "10.0.0.2" "10.0.0.0/24" "ferro0"
    (by decide) (h _ _ _ _ _ _ _ _ emptyHost 5 (by decide) web_plan emptyHost_free).1

end

end Ferrocrate.Network
