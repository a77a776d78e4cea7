import Ferrocrate.Lib.OrdMap
import Ferrocrate.Network.Validate
import Mathlib.Data.Prod.Lex

/-! The firewall of a host, as the commands of a network plan change it. -/
namespace Ferrocrate.Network
open Lib

structure Rule where
  spec : List String
  jump : Option String
  deriving DecidableEq

structure Chain where
  builtin : Bool
  rules : List Rule
  deriving DecidableEq

abbrev Key := String ×ₗ String

abbrev key (table name : String) : Key := toLex (table, name)

abbrev NftTable := OrdMap String (List (List String))

structure Firewall where
  chains : OrdMap Key Chain
  nft : OrdMap Key NftTable
  deriving DecidableEq

def jumpTarget : List String → Option String
  | "!" :: rest => jumpTarget rest
  | "-j" :: target :: _ => some target
  | _ :: _ :: rest => jumpTarget rest
  | _ => none

namespace Firewall

def rule (fw : Firewall) (table : String) (spec : List String) : Rule :=
  ⟨spec, (jumpTarget spec).filter fun target => fw.chains.contains (key table target)⟩

def referenced (fw : Firewall) (table chain : String) : Bool :=
  fw.chains.entries.any fun entry =>
    (ofLex entry.1).1 = table && entry.2.rules.any fun rule => rule.jump = some chain

def setRules (fw : Firewall) (at_ : Key) (chain : Chain) (rules : List Rule) : Firewall :=
  { fw with chains := fw.chains.insert at_ { chain with rules := rules } }

def iptables (fw : Firewall) (table action chain : String) (args : List String) :
    Option Firewall :=
  match fw.chains.get (key table chain) with
  | none =>
    if action = "-N" ∧ args = [] then
      some { fw with chains := fw.chains.insert (key table chain) ⟨false, []⟩ }
    else none
  | some c =>
    if action = "-A" then some (fw.setRules (key table chain) c (c.rules ++ [fw.rule table args]))
    else if action = "-I" then
      match args with
      | [] => none
      | first :: spec =>
        match parseDigits first.toList with
        | none => some (fw.setRules (key table chain) c (fw.rule table args :: c.rules))
        | some n =>
          if 1 ≤ n ∧ n ≤ c.rules.length + 1 then
            some (fw.setRules (key table chain) c
              (c.rules.take (n - 1) ++ fw.rule table spec :: c.rules.drop (n - 1)))
          else none
    else if action = "-F" then some (fw.setRules (key table chain) c [])
    else if action = "-X" then
      if args = [] ∧ c.builtin = false ∧ c.rules = [] ∧ fw.referenced table chain = false then
        some { fw with chains := fw.chains.erase (key table chain) }
      else none
    else if action = "-D" then
      match args with
      | [] => none
      | first :: spec =>
        match parseDigits first.toList with
        | some n =>
          if spec = [] ∧ 1 ≤ n ∧ n ≤ c.rules.length then
            some (fw.setRules (key table chain) c (c.rules.eraseIdx (n - 1)))
          else none
        | none =>
          if c.rules.any fun rule => rule.spec = args then
            some (fw.setRules (key table chain) c (c.rules.eraseP fun rule => rule.spec = args))
          else none
    else none

def nftables (fw : Firewall) : List String → Option Firewall
  | ["add", "table", family, name] =>
    if fw.nft.contains (key family name) then some fw
    else some { fw with nft := fw.nft.insert (key family name) .empty }
  | "add" :: "chain" :: family :: table :: chain :: _ =>
    match fw.nft.get (key family table) with
    | none => none
    | some t =>
      if t.contains chain then some fw
      else some { fw with nft := fw.nft.insert (key family table) (t.insert chain []) }
  | "add" :: "rule" :: family :: table :: chain :: spec =>
    match fw.nft.get (key family table) with
    | none => none
    | some t =>
      match t.get chain with
      | none => none
      | some rules =>
        some { fw with nft := fw.nft.insert (key family table) (t.insert chain (rules ++ [spec])) }
  | ["delete", "table", family, name] =>
    if fw.nft.contains (key family name) then
      some { fw with nft := fw.nft.erase (key family name) }
    else none
  | _ => none

def exec (fw : Firewall) : List String → Option Firewall
  | "iptables" :: "-t" :: table :: action :: chain :: args => fw.iptables table action chain args
  | "nft" :: args => fw.nftables args
  | _ => none

def runAll (fw : Firewall) (commands : List (List String)) : Option Firewall :=
  commands.foldlM exec fw

theorem exec_new {fw : Firewall} {table chain : String}
    (h : fw.chains.get (key table chain) = none) :
    fw.exec ["iptables", "-t", table, "-N", chain] =
      some { fw with chains := fw.chains.insert (key table chain) ⟨false, []⟩ } := by
  simp [exec, iptables, h]

theorem exec_add_table {fw : Firewall} {family name : String}
    (h : fw.nft.contains (key family name) = false) :
    fw.exec ["nft", "add", "table", family, name] =
      some { fw with nft := fw.nft.insert (key family name) .empty } := by
  simp [exec, nftables, h]

end Firewall

structure HostFirewall extends Firewall where
  builtins : ∀ at_ ∈ [key "nat" "PREROUTING", key "nat" "OUTPUT", key "nat" "POSTROUTING",
    key "filter" "FORWARD"], (chains.get at_).isSome
  resolved : ∀ table name chain, chains.get (key table name) = some chain →
    ∀ rule ∈ chain.rules, ∀ target, rule.jump = some target →
      (chains.get (key table target)).isSome

namespace Firewall
variable {fw fw' : Firewall}

theorem ext_get {fw fw' : Firewall} (h : ∀ k, fw.chains.get k = fw'.chains.get k)
    (hnft : fw.nft = fw'.nft) : fw = fw' := by
  cases fw
  cases fw'
  cases hnft
  congr 1
  exact OrdMap.ext_get h

theorem runAll_append (fw : Firewall) (as bs : List (List String)) :
    fw.runAll (as ++ bs) = (fw.runAll as).bind fun fw => fw.runAll bs := by
  simp [runAll, List.foldlM_append]

theorem runAll_eq_none {commands : List (List String)} {command : List String}
    (hmem : command ∈ commands) (h : ∀ fw : Firewall, fw.exec command = none) (fw : Firewall) :
    fw.runAll commands = none := by
  induction commands generalizing fw with
  | nil => cases hmem
  | cons c commands ih =>
    rw [runAll, List.foldlM_cons]
    rcases List.mem_cons.mp hmem with rfl | hmem
    · rw [h]
      rfl
    · cases fw.exec c with
      | none => rfl
      | some fw => exact ih hmem fw

theorem delete_numbered (fw : Firewall) (table chain first second : String) (rest : List String)
    (hfirst : (parseDigits first.toList).isSome) :
    fw.iptables table "-D" chain (first :: second :: rest) = none := by
  obtain ⟨n, hn⟩ := Option.isSome_iff_exists.mp hfirst
  unfold iptables
  cases fw.chains.get (key table chain) with
  | none => simp
  | some c => simp [hn]

end Firewall

end Ferrocrate.Network
