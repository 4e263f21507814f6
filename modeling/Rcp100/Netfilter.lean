import Rcp100.PacketFilter
import Rcp100.AclConfig

/-!
# The firewall script

The commands that are written for the access lists and the interfaces, with the conditions of
their rules, and what a list means by the commands that stored its entries.
-/

namespace Netfilter

open AccessLists AclTable AclConfig SpecialTokens IpAddress PacketFilter

section Packets

inductive ConnState where
  | new
  | established
  | related
  | invalid
deriving DecidableEq

/-- What the conditions ask for. -/
structure Packet where
  mac : List (BitVec 8)
  protocol : BitVec 8
  source : BitVec 32
  sourcePort : BitVec 16
  destination : BitVec 32
  destinationPort : BitVec 16
  icmpType : BitVec 8
  state : ConnState
  inInterface : Word
  outInterface : Word
deriving DecidableEq

/-- The options of a rule. -/
inductive Condition where
  | macSource (mac : List (BitVec 8))
  | protocol (number : BitVec 8)
  | source (ip : BitVec 32) (bits : Nat)
  | sourcePort (port : BitVec 16)
  | destination (ip : BitVec 32) (bits : Nat)
  | destinationPort (port : BitVec 16)
  | inInterface (name : Word)
  | outInterface (name : Word)
  | states (states : List ConnState)
  | icmpType (type : BitVec 32)

def inNetwork (address ip : BitVec 32) (bits : Nat) : Bool :=
  address &&& maskLoop bits 0x80000000 0 = ip &&& maskLoop bits 0x80000000 0

/-- The number zero stands for all protocols. -/
def holds : Condition → Packet → Bool
  | .macSource mac, packet => packet.mac = mac
  | .protocol number, packet => number = 0 || packet.protocol = number
  | .source ip bits, packet => inNetwork packet.source ip bits
  | .sourcePort port, packet => packet.sourcePort = port
  | .destination ip bits, packet => inNetwork packet.destination ip bits
  | .destinationPort port, packet => packet.destinationPort = port
  | .inInterface name, packet => packet.inInterface = name
  | .outInterface name, packet => packet.outInterface = name
  | .states states, packet => packet.state ∈ states
  | .icmpType type, packet => packet.icmpType.setWidth 32 = type

end Packets

section Script

/-- A chain `rcp%d` goes by its number. -/
abbrev Line := Command Condition Nat

abbrev AclRule := Rule Condition Verdict

def target : Action → Verdict
  | .permit => .accept
  | .deny => .drop

def macConditions (mac : List (BitVec 8)) : List Condition :=
  if isMacAllzero mac then [] else [.macSource mac]

def sourceConditions (ip : BitVec 32) (bits : Nat) : List Condition :=
  if ip = 0 then [] else [.source ip bits]

def destinationConditions (ip : BitVec 32) (bits : Nat) : List Condition :=
  if ip = 0 then [] else [.destination ip bits]

/-- The states of `--state`, in their order. -/
def stateList (constate : BitVec 8) : List ConnState :=
  (if constate &&& 1 ≠ 0 then [.new] else []) ++
  (if constate &&& 2 ≠ 0 then [.established] else []) ++
  (if constate &&& 4 ≠ 0 then [.related] else []) ++
  (if constate &&& 8 ≠ 0 then [.invalid] else [])

def netfilterAddRuleSimple (acl : Acl) (e : AclSimple) : AclRule :=
  ⟨sourceConditions e.ip e.maskBits, target acl.action⟩

def netfilterAddRuleIcmp (acl : Acl) (e : AclIcmp) : AclRule :=
  ⟨macConditions e.mac ++ [.protocol 1] ++
    (if e.icmpType = 0 then [] else [.icmpType e.icmpType]) ++
    sourceConditions e.ip e.maskBits ++ destinationConditions e.destIp e.destMaskBits,
    target acl.action⟩

/-- The texts `-p tcp` and `-p udp` stand for the numbers. -/
def netfilterAddRuleExtended (acl : Acl) (e : AclExtended) : AclRule :=
  ⟨macConditions e.mac ++
    (if e.protocol = 255 then [] else [.protocol e.protocol]) ++
    sourceConditions e.ip e.maskBits ++
    (if e.port = 0 then [] else [.sourcePort e.port]) ++
    (if e.outInterface ≠ [] then [.outInterface e.outInterface]
      else destinationConditions e.destIp e.destMaskBits) ++
    (if e.destPort = 0 then [] else [.destinationPort e.destPort]) ++
    (if e.constate ≠ 0 then [.states (stateList e.constate)] else []),
    target acl.action⟩

def netfilterAddRule (acl : Acl) : AclRule :=
  match acl.data with
  | .extended e => netfilterAddRuleExtended acl e
  | .simple e => netfilterAddRuleSimple acl e
  | .icmp e => netfilterAddRuleIcmp acl e

/-- `netfilter_generate_empty`, for the table of the access lists. -/
def netfilterGenerateEmpty : List Line :=
  [.flush, .deleteChains, .policy .input .accept, .policy .output .accept,
    .policy .forward .accept]

/-- One of the loops over the entries of a list; the chain is made when it is not there yet. -/
def addRules (number : Nat) : Bool → List Acl → List Line
  | _, [] => []
  | haveList, acl :: acls =>
    (if haveList then [] else [.newChain number]) ++
      .append number (netfilterAddRule acl) :: addRules number true acls

/-- The commands for the list with this number. -/
def generateList (t : Table) (number : Nat) : List Line :=
  let deny := entriesOf t number .deny
  let permit := entriesOf t number .permit
  addRules number false deny ++ addRules number (decide (deny ≠ [])) permit ++
    if permit ≠ [] then [.append number ⟨[], .drop⟩] else []

/-- `RcpInterface`; zero when no list is applied. -/
structure Interface where
  name : Word
  aclIn : BitVec 8
  aclOut : BitVec 8
  aclForward : BitVec 8

/-- The interfaces, which are found by their names before they are added. -/
structure Interfaces where
  all : List Interface
  named : ∀ i ∈ all, i.name ≠ []
  distinct : (all.map (·.name)).Nodup

/-- The list that is applied to the packets of the hook. -/
def Interface.list (i : Interface) : Hook → BitVec 8
  | .input => i.aclIn
  | .output => i.aclOut
  | .forward => i.aclForward

/-- The interface that the packets of the hook are matched with. -/
def interfaceCondition (name : Word) : Hook → Condition
  | .input | .forward => .inInterface name
  | .output => .outInterface name

/-- `netfilter_pif_input_jump` and the ones for the other hooks. -/
def jumpOf (i : Interface) (hook : Hook) : Hook × Rule Condition Nat :=
  (hook, ⟨[interfaceCondition i.name hook], (i.list hook).toNat⟩)

def jumpsOf (i : Interface) : List (Hook × Rule Condition Nat) :=
  ([.input, .output, .forward].filter fun hook => i.list hook ≠ 0).map (jumpOf i)

/-- The lines for the access lists. -/
def netfilterGenerate (t : Table) (interfaces : Interfaces) : List Line :=
  netfilterGenerateEmpty ++ (List.range' 1 198).flatMap (generateList t) ++
    (interfaces.all.flatMap jumpsOf).map fun j => .jump j.1 j.2

end Script

section Meaning

/-- What is written in a command for an entry. -/
def commandOf (env : Env) (words : List Word) : Option (Handler × Written) :=
  commands.findSome? fun c => (captures env c.1 words).map fun captured => (c.2, written captured)

def ConnState.text : ConnState → Word
  | .new => "new".toList
  | .established => "established".toList
  | .related => "related".toList
  | .invalid => "invalid".toList

/-- The packet satisfies every condition that is written. -/
def meets (w : Written) (packet : Packet) : Bool :=
  (w.mac.all fun mac => packet.mac = mac.map fun b => b.setWidth 8) &&
  (w.protocol.all fun number => packet.protocol.setWidth 32 = number) &&
  (w.source.all fun net => inNetwork packet.source net.1 net.2) &&
  (w.port.all fun port => packet.sourcePort.setWidth 32 = port) &&
  (w.destination.all fun net => inNetwork packet.destination net.1 net.2) &&
  (w.destinationPort.all fun port => packet.destinationPort.setWidth 32 = port) &&
  (w.outInterface.all fun name => packet.outInterface = name) &&
  (w.states = [] || packet.state.text ∈ w.states) &&
  (w.icmpType.all fun type => packet.icmpType.setWidth 32 = type)

/-- The conditions without those with a zero, or the protocol 255. -/
def enforced (w : Written) : Written :=
  { w with
    mac := w.mac.filter fun mac => !isMacAllzero (mac.map fun b => b.setWidth 8)
    protocol := w.protocol.filter fun number => number ≠ 0 ∧ number ≠ 255
    source := w.source.filter fun net => net.1 ≠ 0
    destination := w.destination.filter fun net => net.1 ≠ 0
    icmpType := w.icmpType.filter fun type => type ≠ 0 }

/-- An entry of the list with the action, whose command has conditions of this kind. -/
def hits (env : Env) (t : Table) (number : Nat) (action : Action) (met : Written → Bool) : Bool :=
  t.any fun slot => slot.any fun s => s.acl.listNumber.toNat = number && s.acl.action = action &&
    (commandOf env s.command).any fun r => met r.2

/-- The verdict that the list means. -/
def meaning (env : Env) (t : Table) (number : Nat) (packet : Packet) : Verdict :=
  if hits env t number .deny (meets · packet) then .drop
  else if hits env t number .permit (meets · packet) then .accept
  else if entriesOf t number .permit ≠ [] then .drop
  else .accept

end Meaning

end Netfilter
