import Ferrocrate.Lib.Framing
import Ferrocrate.Network.Validate

/-! The firewall plan of a container (`portmap.rs`): setup commands, cleanup commands and the
inverse of a setup command. -/
namespace Ferrocrate.Network
open Lib

inductive NetworkBackend where
  | ebpf
  | iptables
  | nftables
  deriving DecidableEq

structure PortMapping where
  hostPort : UInt16
  containerPort : UInt16
  protocol : String

structure NetworkPlan where
  commands : List (List String)
  cleanupCommands : List (List String)
  firewallId : Option String

def NetworkPlan.rollbackCommandsFor (plan : NetworkPlan) (setupIndex : Nat) : List (List String) :=
  match plan.commands[setupIndex]? with
  | none => []
  | some command =>
    match command with
    | "iptables" :: _ =>
      match command[3]? with
      | some "-N" => [command.set 3 "-X"]
      | some "-A" => [command.set 3 "-D"]
      | some "-I" => [command.set 3 "-D"]
      | _ => []
    | "nft" :: "add" :: "table" :: rest =>
      [["nft", "delete", "table", rest[0]?.getD "", rest[1]?.getD ""]]
    | _ => []

def hexDigit (n : Nat) : Char := if n < 10 then Char.ofNat (48 + n) else Char.ofNat (87 + n)

def hex16 (value : UInt64) : String :=
  String.ofList ((List.range 16).map fun i => hexDigit (value.toNat / 16 ^ (15 - i) % 16))

def firewallOwnerToken (ownerId : String) : String :=
  hex16 ((utf8 ownerId).foldl (fun hash byte =>
    (hash ^^^ UInt64.ofNat byte.toNat) * 0x100000001b3) 0xcbf29ce484222325)

def iptablesCmd (table action chain : String) (args : List String) : List String :=
  ["iptables", "-t", table, action, chain] ++ args

def iptablesMapping (prerouting output postrouting forward containerIp : String)
    (mapping : PortMapping) : List (List String) :=
  let hostPort := toString mapping.hostPort.toNat
  let containerPort := toString mapping.containerPort.toNat
  let destination := containerIp ++ ":" ++ containerPort
  [prerouting, output].map (fun chain => iptablesCmd "nat" "-A" chain
      ["-p", mapping.protocol, "--dport", hostPort, "-j", "DNAT", "--to-destination", destination])
    ++ [iptablesCmd "filter" "-A" forward
      ["-p", mapping.protocol, "-d", containerIp, "--dport", containerPort, "-j", "ACCEPT"],
    iptablesCmd "nat" "-A" postrouting
      ["-s", "127.0.0.0/8", "-d", containerIp ++ "/32", "-p", mapping.protocol, "--dport",
        containerPort, "-j", "MASQUERADE"]]

def jumps (firewallId : String) : List (String × String × String) :=
  [("nat", "PREROUTING", firewallId ++ "_PRE"), ("nat", "OUTPUT", firewallId ++ "_OUT"),
    ("nat", "POSTROUTING", firewallId ++ "_POST"), ("filter", "FORWARD", firewallId ++ "_FWD")]

def iptablesRules (firewallId : String) (mappings : List PortMapping)
    (containerIp sourceCidr bridge : String) : List (List String) :=
  let prerouting := firewallId ++ "_PRE"
  let output := firewallId ++ "_OUT"
  let postrouting := firewallId ++ "_POST"
  let forward := firewallId ++ "_FWD"
  [iptablesCmd "nat" "-A" postrouting ["-s", sourceCidr, "!", "-o", bridge, "-j", "MASQUERADE"],
    iptablesCmd "filter" "-A" forward ["-s", sourceCidr, "!", "-o", bridge, "-j", "ACCEPT"],
    iptablesCmd "filter" "-A" forward
      ["-d", sourceCidr, "-m", "conntrack", "--ctstate", "ESTABLISHED,RELATED", "-j", "ACCEPT"]]
  ++ mappings.flatMap (iptablesMapping prerouting output postrouting forward containerIp)

def buildOwnedIptablesPlan (ownerId : String) (mappings : List PortMapping)
    (containerIp sourceCidr bridge : String) : NetworkPlan :=
  let firewallId := "fc_" ++ firewallOwnerToken ownerId
  let comment := "ferrocrate:" ++ firewallId
  { commands :=
      (jumps firewallId).map (fun (table, _, chain) => iptablesCmd table "-N" chain [])
      ++ (jumps firewallId).map (fun (table, parent, child) => iptablesCmd table "-I" parent
        ["1", "-m", "comment", "--comment", comment, "-j", child])
      ++ iptablesRules firewallId mappings containerIp sourceCidr bridge
    cleanupCommands :=
      (jumps firewallId).reverse.map (fun (table, parent, child) => iptablesCmd table "-D" parent
        ["-m", "comment", "--comment", comment, "-j", child])
      ++ (jumps firewallId).reverse.flatMap fun (table, _, chain) =>
        [iptablesCmd table "-F" chain [], iptablesCmd table "-X" chain []]
    firewallId := some firewallId }

def nftCmd (args : List String) : List String := "nft" :: args

def nftChain (firewallId name kind priority : String) (policy : List String) : List String :=
  nftCmd (["add", "chain", "ip", firewallId, name, "\x7b", "type", kind, "hook", name, "priority",
    priority, ";"] ++ policy ++ ["\x7d"])

def nftRule (firewallId chain : String) (rule : List String) : List String :=
  nftCmd (["add", "rule", "ip", firewallId, chain] ++ rule)

def nftMapping (firewallId containerIp : String) (mapping : PortMapping) : List (List String) :=
  let hostPort := toString mapping.hostPort.toNat
  let containerPort := toString mapping.containerPort.toNat
  let destination := containerIp ++ ":" ++ containerPort
  ["prerouting", "output"].map (fun chain => nftRule firewallId chain
      [mapping.protocol, "dport", hostPort, "dnat", "to", destination])
    ++ [nftRule firewallId "forward"
      ["ip", "daddr", containerIp, mapping.protocol, "dport", containerPort, "accept"]]

def nftRules (firewallId : String) (mappings : List PortMapping)
    (containerIp sourceCidr bridge : String) : List (List String) :=
  let marker := "\"ferrocrate:" ++ firewallId ++ "\""
  [nftRule firewallId "forward" ["counter", "comment", marker],
    nftRule firewallId "postrouting"
      ["ip", "saddr", sourceCidr, "oifname", "!=", bridge, "masquerade"]]
  ++ mappings.flatMap (nftMapping firewallId containerIp)

def buildOwnedNftablesPlan (ownerId : String) (mappings : List PortMapping)
    (containerIp sourceCidr bridge : String) : NetworkPlan :=
  let firewallId := "fc_" ++ firewallOwnerToken ownerId
  { commands :=
      [nftCmd ["add", "table", "ip", firewallId],
        nftChain firewallId "prerouting" "nat" "dstnat" [],
        nftChain firewallId "output" "nat" "dstnat" [],
        nftChain firewallId "postrouting" "nat" "srcnat" [],
        nftChain firewallId "forward" "filter" "filter" ["policy", "accept", ";"]]
      ++ nftRules firewallId mappings containerIp sourceCidr bridge
    cleanupCommands := [nftCmd ["delete", "table", "ip", firewallId]]
    firewallId := some firewallId }

def buildNetworkPlan (isAlphanumeric : Char → Bool) (backend : NetworkBackend) (ownerId : String)
    (mappings : List PortMapping) (containerIp sourceCidr bridge : String) :
    Except ValidationError NetworkPlan := do
  validateIp containerIp
  validateCidr sourceCidr
  validateInterfaceName isAlphanumeric bridge
  mappings.forM fun mapping => do
    validatePort mapping.hostPort
    validatePort mapping.containerPort
    validateProtocol mapping.protocol
  match backend with
  | .ebpf => .ok ⟨[], [], none⟩
  | .iptables => .ok (buildOwnedIptablesPlan ownerId mappings containerIp sourceCidr bridge)
  | .nftables => .ok (buildOwnedNftablesPlan ownerId mappings containerIp sourceCidr bridge)

end Ferrocrate.Network
