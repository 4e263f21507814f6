import Rcp100.PrintedNumbers
import Rcp100.CliParser
import Rcp100.FaultRuns

/-!
# Access lists

The commands of the grammar with what is written in them, the handlers that read their
arguments one after the other, and the table of the entries. An entry of the table comes with
the words of the command that stored it, which the code does not keep.
-/

namespace AccessLists

open SpecialTokens IpAddress ChainTable
open CliParser (isSpecial)

section Commands

/-- The words of the commands, and their special tokens. -/
inductive Token where
  | no
  | accessList
  | standardNumber
  | extendedNumber
  | deny
  | permit
  | mac
  | protocolNumber
  | tcp
  | udp
  | icmp
  | cidrnet
  | any
  | port
  | cidrnetDestination
  | outInterface
  | interface
  | portDestination
  | connectionState
  | icmpType
deriving DecidableEq

def Token.text : Token → Word
  | .no => "no".toList
  | .accessList => "access-list".toList
  | .standardNumber => "<i,1,99>".toList
  | .extendedNumber => "<i,100,199>".toList
  | .deny => "deny".toList
  | .permit => "permit".toList
  | .mac => "<mac>".toList
  | .protocolNumber => "<i,0,255>".toList
  | .tcp => "tcp".toList
  | .udp => "udp".toList
  | .icmp => "icmp".toList
  | .cidrnet => "<cidrnet>".toList
  | .any => "any".toList
  | .port => "<port>".toList
  | .cidrnetDestination => "<cidrnet-destination>".toList
  | .outInterface => "out-interface".toList
  | .interface => "<interface>".toList
  | .portDestination => "<port-destination>".toList
  | .connectionState => "<connection-state>".toList
  | .icmpType => "<icmp-type>".toList

/-- A token of a command; an optional one stands in brackets. -/
structure Item where
  token : Token
  optional : Bool
deriving DecidableEq

def req (token : Token) : Item := ⟨token, false⟩

def opt (token : Token) : Item := ⟨token, true⟩

def standardCommands : List (List Item) :=
  [Token.deny, .permit].flatMap fun action => [Token.cidrnet, .any].map fun source =>
    [opt .no, req .accessList, req .standardNumber, req action, req source]

/-- What the commands for an extended list start with. -/
def extendedHead (action : Token) : List Item :=
  [opt .no, req .accessList, req .extendedNumber, req action, opt .mac]

/-- The commands without ports. -/
def protocolCommands : List (List Item) :=
  [Token.deny, .permit].flatMap fun action => [Token.cidrnet, .any].flatMap fun source =>
    [[req .cidrnetDestination], [req .any], [req .outInterface, req .interface]].map
      fun destination => extendedHead action ++ [opt .protocolNumber, req source] ++
        destination ++ [opt .connectionState]

/-- The commands with ports and a destination. -/
def portCommands : List (List Item) :=
  [Token.deny, .permit].flatMap fun action => [Token.tcp, .udp].flatMap fun protocol =>
    [Token.cidrnet, .any].flatMap fun source => [Token.cidrnetDestination, .any].map
      fun destination => extendedHead action ++ [req protocol, req source, opt .port,
        req destination, opt .portDestination, opt .connectionState]

/-- The commands with a port and an interface, which there are for `permit` only. -/
def portInterfaceCommands : List (List Item) :=
  [Token.tcp, .udp].flatMap fun protocol => [Token.cidrnet, .any].map fun source =>
    extendedHead .permit ++ [req protocol, req source, opt .port, req .outInterface,
      req .interface, opt .connectionState]

def extendedCommands : List (List Item) :=
  protocolCommands ++ portCommands ++ portInterfaceCommands

def icmpCommands : List (List Item) :=
  [Token.deny, .permit].flatMap fun action => [Token.cidrnet, .any].flatMap fun source =>
    [Token.cidrnetDestination, .any].map fun destination =>
      extendedHead action ++ [req .icmp, req source, req destination, opt .icmpType]

def noCommands : List (List Item) :=
  [Token.extendedNumber, .standardNumber].map fun number =>
    [req .no, req .accessList, req number]

/-- The tokens for numbers, with their bounds. -/
def Token.bounds : Token → Option (BitVec 32 × BitVec 32)
  | .standardNumber => some (1, 99)
  | .extendedNumber => some (100, 199)
  | .protocolNumber => some (0, 255)
  | _ => none

/-- The tokens that a command starts with. -/
def Token.isHead (token : Token) : Prop :=
  token = .no ∨ token = .accessList ∨ token = .standardNumber ∨ token = .extendedNumber ∨
    token = .deny ∨ token = .permit ∨ token = .mac

/-- The word is the token, or its check function accepts it. -/
def accepts (env : Env) (token : Token) (word : Word) : Bool :=
  if isSpecial token.text then
    match chk.find? (·.fits token.text) with
    | none => false
    | some f => f.function env token.text word
  else token.text = word

/-- The tokens of the command with their words, if the words are such a command. -/
def captures (env : Env) : List Item → List Word → Option (List (Token × Word))
  | [], [] => some []
  | [], _ :: _ => none
  | item :: items, [] => if item.optional then captures env items [] else none
  | item :: items, word :: words =>
    if accepts env item.token word then
      (captures env items words).map ((item.token, word) :: ·)
    else if item.optional then captures env items (word :: words)
    else none

inductive Handler where
  | standard
  | extended
  | icmp
  | noAcl
deriving DecidableEq

/-- The commands with their handlers. -/
def commands : List (List Item × Handler) :=
  standardCommands.map (·, .standard) ++ noCommands.map (·, .noAcl) ++
    extendedCommands.map (·, .extended) ++ icmpCommands.map (·, .icmp)

def handlerOf (env : Env) (words : List Word) : Option Handler :=
  (commands.find? fun c => (captures env c.1 words).isSome).map (·.2)

end Commands

section Written

inductive Action where
  | permit
  | deny
deriving DecidableEq

/-- What is written in a command. -/
structure Written where
  no : Bool
  listNumber : BitVec 32
  action : Action
  mac : Option (List (BitVec 32))
  protocol : Option (BitVec 32)
  source : Option (BitVec 32 × Nat)
  port : Option (BitVec 32)
  destination : Option (BitVec 32 × Nat)
  destinationPort : Option (BitVec 32)
  outInterface : Option Word
  states : List Word
  icmpType : Option (BitVec 32)
deriving DecidableEq

/-- The word that stands for the token. -/
def wordOf (captured : List (Token × Word)) (token : Token) : Option Word :=
  (captured.find? (·.1 = token)).map (·.2)

/-- The network that the word stands for. -/
def network (word : Word) : Option (BitVec 32 × Nat) :=
  (atocidr word).map fun r => (r.1, mask2bits r.2)

def written (captured : List (Token × Word)) : Written :=
  let word := wordOf captured
  { no := (word .no).isSome
    listNumber := atoi (((word .standardNumber).or (word .extendedNumber)).getD [])
    action := if (word .deny).isSome then .deny else .permit
    mac := (word .mac).bind (scanMac fun length => length)
    protocol :=
      if (word .tcp).isSome then some 6
      else if (word .udp).isSome then some 17
      else if (word .icmp).isSome then some 1
      else (word .protocolNumber).map atoi
    source := (word .cidrnet).bind network
    port := (word .port).map atoi
    destination := (word .cidrnetDestination).bind network
    destinationPort := (word .portDestination).map atoi
    outInterface := word .interface
    states := ((word .connectionState).map splitCommas).getD []
    icmpType := (word .icmpType).map atoi }

end Written

section Entries

/-- `RcpAclSimple`. -/
structure AclSimple where
  ip : BitVec 32
  maskBits : Nat
deriving DecidableEq

/-- `RcpAclExtended`. -/
structure AclExtended where
  ip : BitVec 32
  maskBits : Nat
  port : BitVec 16
  protocol : BitVec 8
  destIp : BitVec 32
  destMaskBits : Nat
  destPort : BitVec 16
  outInterface : Word
  constate : BitVec 8
  mac : List (BitVec 8)
deriving DecidableEq

/-- `RcpAclIcmp`. -/
structure AclIcmp where
  ip : BitVec 32
  maskBits : Nat
  destIp : BitVec 32
  destMaskBits : Nat
  icmpType : BitVec 32
  mac : List (BitVec 8)
deriving DecidableEq

inductive AclData where
  | extended (e : AclExtended)
  | simple (e : AclSimple)
  | icmp (e : AclIcmp)
deriving DecidableEq

/-- `RcpAcl` of a valid entry. -/
structure Acl where
  data : AclData
  action : Action
  listNumber : BitVec 8
deriving DecidableEq

/-- An entry with the command that stored it. -/
structure Stored where
  acl : Acl
  command : List Word
deriving DecidableEq

/-- The table with its free slots. -/
abbrev Table := List (Option Stored)

def rcpAclLimit : Nat := 1024

def emptyTable : Table := List.replicate rcpAclLimit none

def aclFind (t : Table) (acl : Acl) : Option Nat :=
  t.findIdx? fun slot => slot.map (·.acl) = some acl

def aclFindEmpty (t : Table) : Option Nat := t.findIdx? Option.isNone

def zeroMac : List (BitVec 8) := List.replicate 6 0

def stateBit (state : Word) : Option (BitVec 8) :=
  if state = "new".toList then some 1
  else if state = "established".toList then some 2
  else if state = "related".toList then some 4
  else if state = "invalid".toList then some 8
  else none

/-- The entry with the fields that are written, for an extended command. -/
def Written.extended (w : Written) : AclExtended :=
  { ip := (w.source.getD (0, 0)).1
    maskBits := (w.source.getD (0, 0)).2
    port := (w.port.getD 0).setWidth 16
    protocol := (w.protocol.getD 255).setWidth 8
    destIp := (w.destination.getD (0, 0)).1
    destMaskBits := (w.destination.getD (0, 0)).2
    destPort := (w.destinationPort.getD 0).setWidth 16
    outInterface := w.outInterface.getD []
    constate := w.states.foldl (fun bits state => bits ||| (stateBit state).getD 0) 0
    mac := (w.mac.map fun mac => mac.map fun b => b.setWidth 8).getD zeroMac }

def Written.simple (w : Written) : AclSimple :=
  { ip := (w.source.getD (0, 0)).1, maskBits := (w.source.getD (0, 0)).2 }

def Written.icmp (w : Written) : AclIcmp :=
  { ip := (w.source.getD (0, 0)).1
    maskBits := (w.source.getD (0, 0)).2
    destIp := (w.destination.getD (0, 0)).1
    destMaskBits := (w.destination.getD (0, 0)).2
    icmpType := w.icmpType.getD 0
    mac := (w.mac.map fun mac => mac.map fun b => b.setWidth 8).getD zeroMac }

/-- The entry that the command asks for, by its handler. -/
def Written.acl (w : Written) (data : AclData) : Acl :=
  { data := data, action := w.action, listNumber := w.listNumber.setWidth 8 }

/-- The entry that is written, for the handler. -/
def Written.entry (w : Written) : Handler → Acl
  | .extended => w.acl (.extended w.extended)
  | .icmp => w.acl (.icmp w.icmp)
  | .standard | .noAcl => w.acl (.simple w.simple)

end Entries

section Handlers

/-- What a handler does instead of its work: it reads behind the arguments, or replies with a
message. -/
inductive Failure where
  | crash
  | message (text : String)
deriving DecidableEq

def next : List Word → Except Failure (Word × List Word)
  | [] => .error .crash
  | word :: args => .ok (word, args)

/-- The test for `no`; the arguments behind `access-list`. -/
def readNo : List Word → Except Failure (Bool × List Word)
  | [] => .error .crash
  | word :: args => .ok (if word = "no".toList then (true, args.drop 1) else (false, args))

def readNumber (args : List Word) : Except Failure (BitVec 8 × List Word) := do
  let (word, args) ← next args
  return ((atoi word).setWidth 8, args)

def readAction (args : List Word) : Except Failure (Action × List Word) := do
  let (word, args) ← next args
  return (if word = "deny".toList then .deny else .permit, args)

def readCidr (text : String) (word : Word) : Except Failure (BitVec 32 × Nat) :=
  match atocidr word with
  | none => .error (.message text)
  | some (ip, mask) => .ok (ip, mask2bits mask)

def readNetwork (text : String) (args : List Word) :
    Except Failure ((BitVec 32 × Nat) × List Word) := do
  let (word, args) ← next args
  if word = "any".toList then return ((0, 0), args)
  else
    let net ← readCidr text word
    return (net, args)

def readMac : List Word → Except Failure (List (BitVec 8) × List Word)
  | [] => .error .crash
  | word :: args =>
    match atomac word with
    | some mac => .ok (mac, args)
    | none => .ok (zeroMac, word :: args)

def readProtocol : List Word → Except Failure (BitVec 8 × List Word)
  | [] => .error .crash
  | word :: args =>
    if isnum word then .ok ((atoi word).setWidth 8, args)
    else if word = "tcp".toList then .ok (6, args)
    else if word = "udp".toList then .ok (17, args)
    else .ok (255, word :: args)

/-- `isnum` is false for a null pointer. -/
def readPort : List Word → BitVec 16 × List Word
  | [] => (0, [])
  | word :: args => if isnum word then ((atoi word).setWidth 16, args) else (0, word :: args)

def rcpMaxIfName : Nat := 15

def readDestination (args : List Word) :
    Except Failure ((BitVec 32 × Nat) × Word × List Word) := do
  let (word, args) ← next args
  if word = "any".toList then return ((0, 0), [], args)
  else if word = "out-interface".toList then
    let (name, args) ← next args
    return ((0, 0), name.take rcpMaxIfName, args)
  else
    let net ← readCidr "Error: invalid destination IP address\n" word
    return (net, [], args)

def readStates : List Word → BitVec 8 → Except Failure (BitVec 8)
  | [], constate => .ok constate
  | state :: states, constate =>
    match stateBit state with
    | some bit => readStates states (constate ||| bit)
    | none => .error (.message "Error: invalid connecton state\n")

def readConstate : List Word → Except Failure (BitVec 8)
  | [] => .ok 0
  | word :: _ => readStates (splitCommas word) 0

/-- The part of `cliStandardAclCmd` that reads the arguments. -/
def readStandard (argv : List Word) : Except Failure (Bool × Acl) := do
  let (noform, args) ← readNo argv
  let (listNumber, args) ← readNumber args
  let (action, args) ← readAction args
  let ((ip, maskBits), _) ← readNetwork "Error: invalid IP address\n" args
  return (noform, { data := .simple { ip := ip, maskBits := maskBits }, action := action
                    listNumber := listNumber })

/-- What `cliAclCmd` reads behind the MAC address. -/
def readConditions (mac : List (BitVec 8)) (args : List Word) : Except Failure AclExtended := do
  let (protocol, args) ← readProtocol args
  let ((ip, maskBits), args) ← readNetwork "Error: invalid source IP address\n" args
  let (port, args) := readPort args
  let ((destIp, destMaskBits), outInterface, args) ← readDestination args
  let (destPort, args) := readPort args
  let constate ← readConstate args
  return { ip := ip, maskBits := maskBits, port := port, protocol := protocol, destIp := destIp
           destMaskBits := destMaskBits, destPort := destPort, outInterface := outInterface
           constate := constate, mac := mac }

/-- The part of `cliAclCmd` that reads the arguments. -/
def readExtended (argv : List Word) : Except Failure (Bool × Acl) := do
  let (noform, args) ← readNo argv
  let (listNumber, args) ← readNumber args
  let (action, args) ← readAction args
  let (mac, args) ← readMac args
  let conditions ← readConditions mac args
  return (noform, { data := .extended conditions, action := action, listNumber := listNumber })

/-- After a MAC address the word `icmp` is not skipped. -/
def readMacIcmp : List Word → Except Failure (List (BitVec 8) × List Word)
  | [] => .error .crash
  | word :: args =>
    match atomac word with
    | some mac => .ok (mac, args)
    | none => .ok (zeroMac, args)

/-- The type is the last argument, if one is left. -/
def readIcmpType : List Word → BitVec 32
  | [word] => atoi word
  | _ => 0

/-- What `cliAclIcmpCmd` reads behind the MAC address. -/
def readIcmpConditions (mac : List (BitVec 8)) (args : List Word) : Except Failure AclIcmp := do
  let ((ip, maskBits), args) ← readNetwork "Error: invalid source IP address\n" args
  let ((destIp, destMaskBits), args) ←
    readNetwork "Error: invalid destination IP address\n" args
  return { ip := ip, maskBits := maskBits, destIp := destIp, destMaskBits := destMaskBits
           icmpType := readIcmpType args, mac := mac }

/-- The part of `cliAclIcmpCmd` that reads the arguments. -/
def readIcmp (argv : List Word) : Except Failure (Bool × Acl) := do
  let (noform, args) ← readNo argv
  let (listNumber, args) ← readNumber args
  let (action, args) ← readAction args
  let (mac, args) ← readMacIcmp args
  let conditions ← readIcmpConditions mac args
  return (noform, { data := .icmp conditions, action := action, listNumber := listNumber })

/-- The entry that a handler reads from its arguments; the last one reads a number only. -/
def Handler.read : Handler → List Word → Except Failure (Bool × Acl)
  | .standard => readStandard
  | .extended => readExtended
  | .icmp => readIcmp
  | .noAcl => fun _ => .error .crash

/-- The end that the three handlers share. -/
def processAcl (t : Table) (noform : Bool) (acl : Acl) (argv : List Word) :
    Except Failure Table :=
  match noform, aclFind t acl with
  | true, none => .ok t
  | true, some i => .ok (t.set i none)
  | false, some _ => .ok t
  | false, none =>
    match aclFindEmpty t with
    | none => .error (.message "Error: cannot configure ACL entry, limit reached")
    | some i => .ok (t.set i (some { acl := acl, command := argv }))

def cliStandardAclCmd (t : Table) (argv : List Word) : Except Failure Table := do
  let (noform, acl) ← readStandard argv
  processAcl t noform acl argv

def cliAclCmd (t : Table) (argv : List Word) : Except Failure Table := do
  let (noform, acl) ← readExtended argv
  processAcl t noform acl argv

def cliAclIcmpCmd (t : Table) (argv : List Word) : Except Failure Table := do
  let (noform, acl) ← readIcmp argv
  processAcl t noform acl argv

/-- What the loop of `cliNoAclCmd` does to a slot. -/
def clearSlot (number : BitVec 32) : Option Stored → Option Stored
  | some s => if s.acl.listNumber.setWidth 32 = number then none else some s
  | none => none

def cliNoAclCmd (t : Table) (argv : List Word) : Except Failure Table := do
  let (word, _) ← next (argv.drop 2)
  return t.map (clearSlot (atoi word))

def Handler.run : Handler → Table → List Word → Except Failure Table
  | .standard => cliStandardAclCmd
  | .extended => cliAclCmd
  | .icmp => cliAclIcmpCmd
  | .noAcl => cliNoAclCmd

/-- The table after a handler; one that fails leaves it. -/
def after (t : Table) : Except Failure Table → Table
  | .ok t' => t'
  | .error _ => t

/-- A command line. One that is not in the grammar leaves the table. -/
def exec (env : Env) (t : Table) (words : List Word) : Table :=
  match handlerOf env words with
  | none => t
  | some handler => after t (handler.run t words)

end Handlers

end AccessLists
