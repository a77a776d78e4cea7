import Ferrocrate.Lib.Text

/-! Checks of the arguments of network commands (`validate.rs`). -/
namespace Ferrocrate.Network
open Lib

inductive ValidationError where
  | interfaceNameTooLong (name : String) (max : Nat)
  | invalidInterfaceName (name : String)
  | invalidCidr (cidr : String)
  | invalidIpAddress (addr : String)
  | invalidPort (port : UInt16)
  | invalidProtocol (proto : String)
  | shellInjection (value : String)
  | nullByte
  deriving DecidableEq

def parseU8 (text : List Char) : Option Nat :=
  let digits := match text with
    | '+' :: rest => rest
    | _ => text
  (parseDigits digits).filter fun n => n ≤ 255

def isHexDigit (c : Char) : Bool :=
  c.isDigit || ('a' ≤ c && c ≤ 'f') || ('A' ≤ c && c ≤ 'F')

def isOctet (text : List Char) : Bool :=
  text.length ≤ 3 && (text.length = 1 || text.head? ≠ some '0')
    && (parseDigits text).any fun n => n ≤ 255

def isIpv4 (text : List Char) : Bool :=
  let parts := text.splitOn '.'
  parts.length = 4 && parts.all isOctet

def ipv6Groups (dotted : Bool) (text : List Char) : Option Nat :=
  if text = [] then some 0 else
  let parts := text.splitOn ':'
  let isGroup := fun part => 1 ≤ part.length && part.length ≤ 4 && part.all isHexDigit
  if parts.all isGroup then some parts.length
  else if dotted && parts.dropLast.all isGroup && parts.getLast?.any isIpv4 then
    some (parts.length + 1)
  else none

def splitElided : List Char → Option (List Char × List Char)
  | ':' :: ':' :: rest => some ([], rest)
  | c :: rest => (splitElided rest).map fun split => (c :: split.1, split.2)
  | [] => none

def isIpv6 (text : List Char) : Bool :=
  match splitElided text with
  | none => ipv6Groups true text = some 8
  | some (left, right) =>
    match ipv6Groups false left, ipv6Groups true right with
    | some before, some after => before + after ≤ 7
    | _, _ => false

def dangerous : List Char :=
  [';', '|', '\x60', '$', '(', ')', '\x7b', '\x7d', '[', ']', '<', '>', '&', '\n', '\r']

def checkShellSafe (value : String) : Except ValidationError Unit :=
  if value.toList.contains '\x00' then .error .nullByte
  else if dangerous.any fun c => value.toList.contains c then .error (.shellInjection value)
  else .ok ()

def ifnamsiz : Nat := 15

def validateInterfaceName (isAlphanumeric : Char → Bool) (name : String) :
    Except ValidationError Unit :=
  if name.utf8ByteSize > ifnamsiz then .error (.interfaceNameTooLong name ifnamsiz)
  else if name.toList = [] then .error (.invalidInterfaceName name)
  else if name.toList.head? = some '.' then .error (.invalidInterfaceName name)
  else if !name.toList.all fun c => isAlphanumeric c || c = '-' || c = '_' || c = '.' then
    .error (.invalidInterfaceName name)
  else checkShellSafe name

def validateCidr (cidr : String) : Except ValidationError Unit := do
  checkShellSafe cidr
  match cidr.toList.splitOn '/' with
  | [ip, pfx] =>
    match parseU8 pfx with
    | none => .error (.invalidCidr cidr)
    | some bits =>
      if ip.contains ':' then
        if bits > 128 then .error (.invalidCidr cidr)
        else if isIpv6 ip then .ok () else .error (.invalidCidr cidr)
      else if bits > 32 then .error (.invalidCidr cidr)
      else if isIpv4 ip then .ok () else .error (.invalidCidr cidr)
  | _ => .error (.invalidCidr cidr)

def validateIp (addr : String) : Except ValidationError Unit := do
  checkShellSafe addr
  if isIpv4 addr.toList || isIpv6 addr.toList then .ok () else .error (.invalidIpAddress addr)

def validatePort (port : UInt16) : Except ValidationError Unit :=
  if port = 0 then .error (.invalidPort port) else .ok ()

def protocols : List String := ["tcp", "udp", "icmp", "icmpv6", "sctp", "udplite"]

def validateProtocol (proto : String) : Except ValidationError Unit := do
  checkShellSafe proto
  if protocols.contains proto.toLower then .ok () else .error (.invalidProtocol proto)

example : [("10.0.0.1"), ("::1"), ("fd00::1"), ("256.0.0.1"), ("not-an-ip")].map
    (fun addr => (validateIp addr).toBool) = [true, true, true, false, false] := by decide +kernel

example : ["10.0.0.0/24", "::1/128", "10.0.0.0", "10.0.0.0/33", "fd00::/129"].map
    (fun cidr => (validateCidr cidr).toBool) = [true, true, false, false, false] := by
  decide +kernel

end Ferrocrate.Network
