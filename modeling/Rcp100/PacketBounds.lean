import Rcp100.BufferScan
import Rcp100.LsaBounds
import Rcp100.Retransmission

/-!
# Reads of the packet handlers

`rxpacket` receives a datagram into a buffer, checks the header, the authentication and
the checksum, and calls the handler of the packet type. The handlers take the length of
the packet from its header. They are written here as programs that read the buffer from
the IP header on, with a mark where a count is derived from that length; what they do to the
router is left to the other modules. The debugging switches that drop packets at random are
left out.
-/

namespace PacketBounds

open LsaFormat LsUpdate LsaBounds Retransmission
open Scan (cell keeps_bind keeps_cell keeps_mark keeps_pure keeps_walk mark run_bind run_cell
  run_pure walk)

/-- A program that reads a packet. -/
abbrev Reads (α : Type) := Scan (BitVec 8) α

def get16 (o : Nat) : Reads (BitVec 16) := do return (← cell o) ++ (← cell (o+1))

def get32 (o : Nat) : Reads (BitVec 32) := do return (← get16 o) ++ (← get16 (o+2))

/-- `OspfLsaHeader`, field by field. -/
def getHeader (o : Nat) : Reads LsaHeader := do
  let age ← get16 o
  let options ← cell (o+2)
  let type ← cell (o+3)
  let linkStateId ← get32 (o+4)
  let advRouter ← get32 (o+8)
  let seq ← get32 (o+12)
  let checksum ← get16 (o+16)
  let length ← get16 (o+18)
  return ⟨age, options, type, linkStateId, advRouter, seq, checksum, length⟩

/-- `cnt` bytes from `o` on. -/
def getBytes (o : Nat) : Nat → Reads (List (BitVec 8))
  | 0 => pure []
  | cnt+1 => do
    let b ← cell o
    return b :: (← getBytes (o+1) cnt)

/-- What of `RcpInterface` the receive path looks at. -/
structure Interface where
  ospfAuthType : BitVec 8
  ospfPasswd : List (BitVec 8)
  ospfMd5Key : BitVec 8
  ospfMd5Passwd : List (BitVec 8)
  passive : Bool
  mtu : Nat
  mtuIgnore : Bool

/-- What of `OspfNetwork` a Hello packet is compared with. -/
structure NetConf where
  broadcast : Bool
  helloInterval : Nat
  deadInterval : Nat
  routerId : BitVec 32

/-- The process and the shared memory. `nextInSequence` is the decision of the database
exchange on the options, the fields and the sequence number of a packet. -/
structure Host where
  areas : List (BitVec 32 × Area)
  extlist : List OspfLsa
  ospfRouterId : BitVec 32
  conf : BitVec 32 → NetConf
  interfaceByIndex : Nat → Option Interface
  interface : BitVec 32 → Option Interface
  md5Seq : BitVec 32 → BitVec 32 → Option (BitVec 32)
  md5 : List (BitVec 8) → List (BitVec 8)
  nextInSequence : PacketDesc → BitVec 8 → BitVec 8 → BitVec 32 → Bool

/-- The router that the other modules speak of. -/
def Host.router (h : Host) : Router := ⟨fun id => h.areas.lookup id, h.extlist⟩

/-- A received datagram: the buffer, with whatever lies behind the received bytes, and
what `recvmsg` reports. -/
structure Datagram where
  memory : Memory
  size : Nat
  ipSource : BitVec 32
  ipDest : BitVec 32
  ifIndex : Nat

/-- Bytes are written at an offset. -/
def write (m : Memory) (o : Nat) (bytes : List (BitVec 8)) : Memory :=
  fun i => if o ≤ i ∧ i < o + bytes.length then bytes.getD (i - o) 0 else m i

/-- `header.length`. -/
def lengthOf (m : Memory) : BitVec 16 := m.get16 22

/-- `header.type`. -/
def typeOf (m : Memory) : BitVec 8 := m 21

/-- The sum of the 16-bit words, in the byte order of the machine; an odd byte counts as
the high byte of a word. -/
def wordSum (m : Memory) (size : Nat) : Nat :=
  let words := (List.range (size / 2)).map (fun i => (m (2*i+1) ++ m (2*i)).toNat)
  words.foldl (fun sum w => sum + w) 0 + if size % 2 = 1 then (m (size - 1)).toNat * 256 else 0

/-- `while (sum >> 16)`. The sum is less than 2^32, so that four passes are enough. -/
def foldCarries : Nat → Nat → Nat
  | 0, sum => sum
  | fuel+1, sum =>
    if sum / 0x10000 = 0 then sum else foldCarries fuel (sum % 0x10000 + sum / 0x10000)

def validateChecksum (m : Memory) (size : Nat) : Bool := foldCarries 4 (wordSum m size) = 0xffff

def areaFindAnyIp (h : Host) (ip : BitVec 32) : Option (BitVec 32) :=
  (h.areas.find? (fun p => p.2.network.any (onNetwork ip))).map Prod.fst

def ownAddress (h : Host) (ip : BitVec 32) : Bool :=
  h.areas.any (fun p => p.2.network.any (fun net => net.ip = ip))

/-- The digest covers the packet and the password, which is copied behind the packet. -/
def authMd5 (h : Host) (intf : Interface) (d : Datagram) (areaId : BitVec 32) : Option Memory :=
  let len := (lengthOf d.memory).toNat
  let replaced := write d.memory (20 + len) intf.ospfMd5Passwd
  if d.memory 38 ≠ intf.ospfMd5Key then none
  else if (h.md5Seq areaId d.ipSource).any (fun seq => d.memory.get32 40 < seq) then none
  else if d.size ≠ len + 20 + (d.memory 39).toNat then none
  else if h.md5 ((replaced.offset 20).bytes (len + 16)) ≠ (d.memory.offset (20 + len)).bytes 16 then
    none
  else some replaced

/-- The buffer after the authentication, or `none` when it fails. -/
def authRx (h : Host) (d : Datagram) (areaId : BitVec 32) : Option Memory :=
  match h.interfaceByIndex d.ifIndex with
  | none => none
  | some intf =>
    if d.memory.get16 34 ≠ intf.ospfAuthType.setWidth 16 then none
    else if d.memory.get16 34 = 1 then
      if (d.memory.offset 36).bytes 8 ≠ intf.ospfPasswd then none
      else some (write d.memory 36 (List.replicate 8 0))
    else if d.memory.get16 34 = 2 then authMd5 h intf d areaId
    else some d.memory

/-- `headerExtract`: version, area and network. -/
def headerExtract (h : Host) (d : Datagram) (m : Memory) : Option PacketDesc :=
  if m 20 ≠ 2 then none
  else
    match h.areas.lookup (m.get32 28) with
    | none => none
    | some area =>
      match networkFindIp area d.ipSource with
      | none => none
      | some _ => some ⟨d.ipSource, d.ipDest, m.get32 24, m.get32 28⟩

/-- The network of the sender. -/
def networkOfDesc (h : Host) (desc : PacketDesc) : Option (Area × Network) := do
  let area ← h.areas.lookup desc.areaId
  let net ← networkFindIp area desc.ipSource
  return (area, net)

def passiveInterface (h : Host) (desc : PacketDesc) : Bool :=
  (networkOfDesc h desc).any (fun p => (h.interface p.2.ip).any (·.passive))

/-- The receive checks: what the handler is called with, or `none` when the datagram is
dropped. -/
def rxpacket (h : Host) (d : Datagram) : Option (Memory × PacketDesc) := do
  guard (d.memory 9 = 89)
  guard (!ownAddress h d.ipSource)
  let areaId ← areaFindAnyIp h d.ipSource
  let m ← authRx h d areaId
  guard (m.get16 34 = 2 || validateChecksum (m.offset 20) (lengthOf m).toNat)
  let desc ← headerExtract h d m
  guard (desc.routerId ≠ h.ospfRouterId)
  guard (typeOf m ≤ 5)
  guard (!passiveInterface h desc)
  return (m, desc)

/-- The length less the packet header, as a `size_t`. -/
def payload (length : BitVec 16) : BitVec 64 := length.setWidth 64 - 24

/-- A count of elements: an `int` from a division in `size_t`. -/
def countOf (length : BitVec 16) (sizeof : BitVec 64) : Int :=
  ((payload length / sizeof).setWidth 32).toInt

/-- What `helloRx` takes from a Hello packet that it does not drop. -/
structure Hello where
  routerPriority : BitVec 8
  designatedRouter : BitVec 32
  backupRouter : BitVec 32
  twoWay : Bool
  deriving DecidableEq

/-- The E-bit agrees with the area. -/
def ebitAgrees (area : Area) (options : BitVec 8) : Bool := (options &&& 2 ≠ 0) = !area.stub

/-- The walk over the neighbors ends at the router itself. -/
def helloNeighbors (routerId : BitVec 32) (nl : Int) : Reads (List Bool) :=
  walk (fun i => do
    let nb ← get32 (64 + 4*i)
    return (decide (nb = routerId), decide (nb = routerId))) nl.toNat 0

/-- The mask counts on broadcast networks only. -/
def maskAgrees (conf : NetConf) (net : Network) : Reads Bool :=
  if conf.broadcast then do return decide (net.mask = (← get32 44)) else pure true

def helloRx (h : Host) (desc : PacketDesc) : Reads (Option Hello) :=
  match networkOfDesc h desc with
  | none => pure none
  | some (area, net) => do
    let conf := h.conf net.ip
    if !(← maskAgrees conf net) then return none
    if (← get16 48).toNat ≠ conf.helloInterval then return none
    if (← get32 52).toNat ≠ conf.deadInterval then return none
    if !ebitAgrees area (← cell 50) then return none
    let priority ← cell 51
    let designated ← get32 56
    let backup ← get32 60
    let length ← get16 22
    mark
    let found ← helloNeighbors conf.routerId (((length.toNat : Int) - 44).tdiv 4)
    return some ⟨priority, designated, backup, found.any id⟩

/-- What `dbdescRx` takes from a packet. -/
structure DbDesc where
  options : BitVec 8
  fields : BitVec 8
  seq : BitVec 32
  lsas : List LsaHeader

/-- The checks of the length of a Database Description packet. -/
def ddLength (length : BitVec 16) : Bool :=
  32 ≤ length.toNat && (length.toNat - 32) % 20 = 0

/-- The headers, up to one with an unknown type. -/
def ddHeaders (cnt : Nat) : Reads (List LsaHeader) :=
  walk (fun i => do
    let lsah ← getHeader (52 + 20*i)
    return (lsah, decide (lsah.type > 5))) cnt 0

/-- A packet that is next in sequence, from a neighbor that may describe its database. -/
def ddAccepted (h : Host) (desc : PacketDesc) (intf : Interface) (state : NState)
    (mtu : BitVec 16) (options fields : BitVec 8) (seq : BitVec 32) : Bool :=
  (intf.mtuIgnore || mtu.toNat ≤ intf.mtu) && state ≠ .down && state ≠ .attempt &&
    h.nextInSequence desc options fields seq

def dbdescRx (h : Host) (desc : PacketDesc) : Reads (Option DbDesc) := do
  let length ← get16 22
  if !ddLength length then return none
  match sender h.router desc with
  | none => return none
  | some (_, net, nb) =>
    let mtu ← get16 44
    let options ← cell 46
    let fields ← cell 47
    let seq ← get32 48
    match h.interface net.ip with
    | none => return none
    | some intf =>
      if !ddAccepted h desc intf nb.state mtu options fields seq then
        return some ⟨options, fields, seq, []⟩
      if length = 32 then return some ⟨options, fields, seq, []⟩
      mark
      return some ⟨options, fields, seq, ← ddHeaders ((length.toNat - 32) / 20)⟩

/-- `OspfLsRequest`. -/
structure LsRequest where
  type : BitVec 32
  id : BitVec 32
  advRouter : BitVec 32
  deriving DecidableEq

def getRequest (o : Nat) : Reads LsRequest := do
  let type ← get32 o
  let id ← get32 (o+4)
  let advRouter ← get32 (o+8)
  return ⟨type, id, advRouter⟩

/-- The list is that of the low byte of the type, and the whole type is compared. -/
def lsadbFindRequest (r : Router) (areaId : BitVec 32) (rq : LsRequest) : Option OspfLsa :=
  let type := rq.type.setWidth 8
  let list := if type = 5 then r.extlist else (r.area areaId).elim [] (·.list)
  if type.setWidth 32 = rq.type then lsaListFind list ⟨type, rq.id, rq.advRouter⟩ else none

def requestLength (length : BitVec 16) : Bool := payload length % 12 = 0

/-- The requests, up to one that the database does not have. -/
def requests (r : Router) (areaId : BitVec 32) (cnt : Int) : Reads (List LsRequest) :=
  walk (fun i => do
    let rq ← getRequest (44 + 12*i)
    return (rq, (lsadbFindRequest r areaId rq).isNone)) cnt.toNat 0

def lsrequestRx (h : Host) (desc : PacketDesc) : Reads (Option (List LsRequest)) := do
  let length ← get16 22
  if !requestLength length then return none
  match sender h.router desc with
  | none => return none
  | some (_, _, nb) =>
    if nb.state.code < NState.exchange.code then return some []
    mark
    return some (← requests h.router desc.areaId (countOf length 12))

/-- The verification loop reads the length of each record. -/
def verifyRecords : Nat → Int → Nat → Reads (Option Int)
  | 0, size, _ => pure (some size)
  | cnt+1, size, ptr => do
    let len ← get16 (48 + ptr + 18)
    if size - len.toNat < 0 then return none
    verifyRecords cnt (size - len.toNat) (ptr + len.toNat)

/-- A record: its header, and the bytes that the checksum and the copy cover. -/
def getRecords : Nat → Nat → Reads (List (LsaHeader × List (BitVec 8)))
  | 0, _ => pure []
  | cnt+1, ptr => do
    let lsah ← getHeader (48 + ptr)
    let bytes ← getBytes (48 + ptr) lsah.length.toNat
    return (lsah, bytes) :: (← getRecords cnt (ptr + lsah.length.toNat))

def lsupdateRx (h : Host) (desc : PacketDesc) :
    Reads (Option (List (LsaHeader × List (BitVec 8)))) := do
  let cnt := (← get32 44).toInt
  if cnt = 0 then return none
  let length ← get16 22
  let rest ← verifyRecords cnt.toNat (length.toNat - 28) 0
  if rest ≠ some 0 then return none
  -- the process is killed
  if !ackFits cnt then return none
  match sender h.router desc with
  | none => return none
  | some (_, _, nb) =>
    if nb.state.code < NState.exchange.code then return some []
    return some (← getRecords cnt.toNat 0)

def lsackRx (h : Host) (desc : PacketDesc) : Reads (Option (List LsaHeader)) := do
  let length ← get16 22
  mark
  let cnt := countOf length 20
  if cnt = 0 then return none
  if payload length % 20 ≠ 0 then return none
  match sender h.router desc with
  | none => return none
  | some _ =>
    return some (← walk (fun i => do
      let lsah ← getHeader (44 + 20*i)
      return (lsah, false)) cnt.toNat 0)

/-- What a handler takes from the packet; `none` stands for a packet that is refused. -/
inductive Parsed where
  | hello (packet : Option Hello)
  | dbdesc (packet : Option DbDesc)
  | request (list : Option (List LsRequest))
  | update (records : Option (List (LsaHeader × List (BitVec 8))))
  | ack (headers : Option (List LsaHeader))
  | unhandled

/-- The handler of the packet type. -/
def handler (h : Host) (desc : PacketDesc) (type : BitVec 8) : Reads Parsed :=
  if type = 1 then do return .hello (← helloRx h desc)
  else if type = 2 then do return .dbdesc (← dbdescRx h desc)
  else if type = 3 then do return .request (← lsrequestRx h desc)
  else if type = 4 then do return .update (← lsupdateRx h desc)
  else if type = 5 then do return .ack (← lsackRx h desc)
  else pure .unhandled

/-- The datagram holds the packet that its header announces. -/
def InRange (m : Memory) (n : Nat) : Prop :=
  24 ≤ (lengthOf m).toNat ∧ 20 + (lengthOf m).toNat ≤ n

/-- The packet as `LsUpdate` sees it. -/
def updatePacket (m : Memory) : UpdatePacket := ⟨lengthOf m, m.get32 44, m.offset 48⟩

def ackPacket (m : Memory) : AckPacket := ⟨lengthOf m, m.offset 44⟩

/-- The handler reads received bytes only, and a length that is less than the packet
header or more than the datagram holds is rejected before a count is derived from it. -/
structure Stays (h : Host) (desc : PacketDesc) (m : Memory) (n : Nat) : Prop where
  inside : (handler h desc (typeOf m)).Inside m n
  rejected : ¬ InRange m n → ¬ (handler h desc (typeOf m)).Marks m

/-- The fields of a Hello packet that are looked at, one after the other as long as they
agree, were received; the neighbors are counted only when all of them agree. -/
def HelloFields (area : Area) (net : Network) (conf : NetConf) (m : Memory) (n : Nat) : Prop :=
  (conf.broadcast = true → 48 ≤ n) ∧
    ((conf.broadcast = true → net.mask = m.get32 44) → 50 ≤ n ∧
      ((m.get16 48).toNat = conf.helloInterval → 56 ≤ n ∧
        ((m.get32 52).toNat = conf.deadInterval → ebitAgrees area (m 50) = true →
          64 ≤ n ∧ InRange m n)))

/-- The fields of a Database Description packet; the headers are counted when the packet is
accepted and not empty. -/
def DbDescFields (h : Host) (desc : PacketDesc) (m : Memory) (n : Nat) : Prop :=
  24 ≤ n ∧ (ddLength (lengthOf m) = true → ∀ area net nb,
    sender h.router desc = some (area, net, nb) → 52 ≤ n ∧
      ∀ intf, h.interface net.ip = some intf →
        ddAccepted h desc intf nb.state (m.get16 44) (m 46) (m 47) (m.get32 48) = true →
          lengthOf m ≠ 32 → InRange m n)

/-- The sender is a neighbor in Exchange or later. -/
def Exchanging (h : Host) (desc : PacketDesc) : Prop :=
  ∃ area net nb, sender h.router desc = some (area, net, nb) ∧
    NState.exchange.code ≤ nb.state.code

/-- The records that the verification loop gets to. -/
def visited (body : Memory) : Nat → Int → Nat → List Nat
  | 0, _, _ => []
  | cnt+1, size, ptr =>
    let len := (lsaHeader (body.offset ptr)).length.toNat
    ptr :: if size - len < 0 then [] else visited body cnt (size - len) (ptr + len)

/-- The packet lies in the datagram as far as the handler of its type goes. An acknowledgment
is counted before anything is checked, and the count of an update is a field of its own. -/
structure Fits (h : Host) (desc : PacketDesc) (m : Memory) (n : Nat) : Prop where
  hello : typeOf m = 1 → ∀ area net, networkOfDesc h desc = some (area, net) →
    HelloFields area net (h.conf net.ip) m n
  dbdesc : typeOf m = 2 → DbDescFields h desc m n
  request : typeOf m = 3 → 24 ≤ n ∧
    (requestLength (lengthOf m) = true → Exchanging h desc → InRange m n)
  update : typeOf m = 4 → 48 ≤ n ∧
    (∀ p ∈ visited (m.offset 48) (updatePacket m).cnt.toNat ((lengthOf m).toNat - 28) 0,
      48 + p + sizeofHeader ≤ n) ∧
    ((updatePacket m).held = true → Exchanging h desc → 20 + (lengthOf m).toNat ≤ n)
  ack : typeOf m = 5 → InRange m n

section Fields

variable (P : Prop) (m : Memory) (n o : Nat)

@[simp]
theorem run_get16 : (get16 o).run m = m.get16 o := rfl

@[simp]
theorem run_get32 : (get32 o).run m = m.get32 o := rfl

@[simp]
theorem run_getHeader : (getHeader o).run m = lsaHeader (m.offset o) := rfl

@[simp]
theorem keeps_get16 : (get16 o).Keeps P m n ↔ o + 1 < n := by
  simp only [get16, keeps_bind, keeps_cell, keeps_pure, and_true]
  omega

@[simp]
theorem keeps_get32 : (get32 o).Keeps P m n ↔ o + 3 < n := by
  simp only [get32, keeps_bind, keeps_get16, keeps_pure, and_true]
  omega

@[simp]
theorem keeps_getHeader : (getHeader o).Keeps P m n ↔ o + 19 < n := by
  simp only [getHeader, keeps_bind, keeps_get16, keeps_get32, keeps_cell,
    keeps_pure, and_true]
  omega

variable {P m n o}

theorem keeps_getBytes {cnt : Nat} :
    (getBytes o cnt).Keeps P m n ↔ (0 < cnt → o + cnt ≤ n) := by
  induction cnt generalizing o with
  | zero => simp [getBytes]
  | succ cnt ih =>
    simp only [getBytes, keeps_bind, keeps_cell, keeps_pure, and_true, ih]
    omega

theorem run_getBytes (cnt : Nat) : (getBytes o cnt).run m = (m.offset o).bytes cnt := by
  induction cnt generalizing o with
  | zero => rfl
  | succ cnt ih =>
    simp only [getBytes, run_bind, run_cell, run_pure, ih, Memory.bytes,
      List.range_succ_eq_map, List.map_cons, List.map_map]
    refine congrArg (_ :: ·) (List.map_congr_left (fun i _ => ?_))
    simp [Memory.offset, Nat.add_comm, Nat.add_left_comm]

end Fields

section Update

variable {P : Prop} {m : Memory} {n : Nat}

theorem length_record (ptr : Nat) :
    m.get16 (48 + ptr + 18) = (lsaHeader ((m.offset 48).offset ptr)).length := by
  simp [lsaHeader, Memory.get16, Memory.offset, Nat.add_assoc]

theorem run_verifyRecords (cnt : Nat) (size : Int) (ptr : Nat) :
    (verifyRecords cnt size ptr).run m = verifyLength (m.offset 48) cnt size ptr := by
  induction cnt generalizing size ptr with
  | zero => rfl
  | succ cnt ih =>
    simp only [verifyRecords, verifyLength, run_bind, run_get16, length_record]
    split
    · rfl
    · exact ih _ _

theorem keeps_verifyRecords (cnt : Nat) (size : Int) (ptr : Nat) :
    (verifyRecords cnt size ptr).Keeps P m n ↔
      ∀ p ∈ visited (m.offset 48) cnt size ptr, 48 + p + sizeofHeader ≤ n := by
  induction cnt generalizing size ptr with
  | zero => simp [verifyRecords, visited]
  | succ cnt ih =>
    simp only [verifyRecords, visited, keeps_bind, keeps_get16, run_get16, length_record,
      List.forall_mem_cons, sizeofHeader] at ih ⊢
    refine and_congr (by omega) ?_
    split
    · simp
    · exact ih _ _

theorem mem_visited {body : Memory} {cnt : Nat} {size rest : Int} {ptr p : Nat}
    (passes : verifyLength body cnt size ptr = some rest)
    (hp : p ∈ lsaPointers body cnt ptr) : p ∈ visited body cnt size ptr := by
  induction cnt generalizing size ptr with
  | zero => cases hp
  | succ cnt ih =>
    simp only [verifyLength] at passes
    simp only [visited]
    split at passes
    · cases passes
    · rename_i room
      rw [if_neg room]
      rcases List.mem_cons.mp hp with rfl | later
      · exact List.mem_cons_self
      · exact List.mem_cons_of_mem _ (ih passes later)

theorem ends_verified {body : Memory} {cnt : Nat} {size : Int} {ptr : Nat}
    (passes : verifyLength body cnt size ptr = some 0)
    (each : ∀ p ∈ lsaPointers body cnt ptr, 48 + p + announced (body.offset p) ≤ n)
    (start : 48 + ptr ≤ n) : (48 + ptr : Int) + size ≤ n := by
  induction cnt generalizing size ptr with
  | zero =>
    cases passes
    omega
  | succ cnt ih =>
    have here := each ptr List.mem_cons_self
    rw [verifyLength] at passes
    split at passes
    · cases passes
    · have rest := ih passes (fun p hp => each p (List.mem_cons_of_mem _ hp)) (by
        rw [announced] at here
        omega)
      omega

theorem keeps_getRecords {cnt ptr : Nat} :
    (getRecords cnt ptr).Keeps P m n ↔ ∀ p ∈ lsaPointers (m.offset 48) cnt ptr,
      48 + p + sizeofHeader ≤ n ∧ 48 + p + announced ((m.offset 48).offset p) ≤ n := by
  induction cnt generalizing ptr with
  | zero => simp [getRecords, lsaPointers]
  | succ cnt ih =>
    have here : lsaHeader (m.offset (48 + ptr)) = lsaHeader ((m.offset 48).offset ptr) :=
      lsaHeader_congr (fun i _ => by simp [Memory.offset, Nat.add_assoc])
    simp only [getRecords, keeps_bind, keeps_getHeader, run_getHeader, keeps_pure,
      and_true, here, keeps_getBytes, ih, lsaPointers, List.forall_mem_cons, ← and_assoc]
    refine and_congr_left fun _ => ?_
    rw [announced, sizeofHeader]
    omega

theorem run_getRecords (cnt ptr : Nat) :
    (getRecords cnt ptr).run m =
      ((lsaPointers (m.offset 48) cnt ptr).map (m.offset 48).offset).map
        (fun lsah => (lsaHeader lsah, lsah.bytes (announced lsah))) := by
  induction cnt generalizing ptr with
  | zero => rfl
  | succ cnt ih =>
    have here : m.offset (48 + ptr) = (m.offset 48).offset ptr := by
      funext i
      simp [Memory.offset, Nat.add_assoc]
    simp only [getRecords, run_bind, run_getHeader, run_getBytes, run_pure, ih, here,
      lsaPointers, List.map_cons]
    rfl

end Update

section Handlers

variable {P : Prop} {h : Host} {desc : PacketDesc} {m : Memory} {n : Nat}

theorem countOf_le {length : BitVec 16} (headed : 24 ≤ length.toNat) (k : BitVec 64) :
    k.toNat * (countOf length k).toNat ≤ length.toNat - 24 := by
  have size := length.isLt
  have less : (payload length).toNat = length.toNat - 24 := by
    rw [payload, BitVec.toNat_sub, BitVec.toNat_setWidth]
    have lit : (24 : BitVec 64).toNat = 24 := rfl
    omega
  have quotient : (payload length / k).toNat = (length.toNat - 24) / k.toNat := by
    rw [BitVec.toNat_udiv, less]
  have small : (length.toNat - 24) / k.toNat ≤ length.toNat - 24 := Nat.div_le_self _ _
  have count : (countOf length k).toNat = (length.toNat - 24) / k.toNat := by
    have low : ((payload length / k).setWidth 32).toNat = (length.toNat - 24) / k.toNat := by
      rw [BitVec.toNat_setWidth, quotient]
      omega
    rw [countOf, BitVec.toInt_eq_toNat_cond, low]
    split
    · exact Int.toNat_natCast _
    · omega
  rw [count]
  exact Nat.mul_div_le _ _

theorem keeps_helloNeighbors {routerId : BitVec 32} {nl : Int}
    (room : ∀ i < nl.toNat, 64 + 4*i + 3 < n) : (helloNeighbors routerId nl).Keeps P m n := by
  refine keeps_walk (fun i _ upper => ?_)
  simp only [keeps_bind, keeps_get32, keeps_pure, and_true]
  exact room i (by omega)

theorem neighborCount_le (length : Nat) :
    4 * (((length : Int) - 44).tdiv 4).toNat ≤ length - 44 := by
  by_cases listed : 44 ≤ length
  · rw [Int.tdiv_eq_ediv_of_nonneg (by omega)]
    omega
  · have less : (length : Int) - 44 = -(44 - length) := by omega
    have none : 0 ≤ ((44 : Int) - length).tdiv 4 := Int.tdiv_nonneg (by omega) (by omega)
    rw [less, Int.neg_tdiv]
    omega

theorem run_maskAgrees (conf : NetConf) (net : Network) :
    (maskAgrees conf net).run m = true ↔ (conf.broadcast = true → net.mask = m.get32 44) := by
  rw [maskAgrees]
  split
  · rename_i broadcast
    rw [imp_iff_right broadcast]
    exact decide_eq_true_iff
  · rename_i other
    simp [other]

theorem keeps_maskAgrees (conf : NetConf) (net : Network) :
    (maskAgrees conf net).Keeps P m n ↔ (conf.broadcast = true → 48 ≤ n) := by
  rw [maskAgrees]
  split
  · rename_i broadcast
    rw [imp_iff_right broadcast]
    simp only [keeps_bind, keeps_get32, keeps_pure, and_true]
    omega
  · rename_i other
    simp [other]

theorem keeps_neighbors (range : InRange m n) (routerId : BitVec 32) :
    (helloNeighbors routerId ((((lengthOf m).toNat : Int) - 44).tdiv 4)).Keeps P m n := by
  refine keeps_helloNeighbors (fun i hi => ?_)
  obtain ⟨_, fits⟩ := range
  have count := neighborCount_le (lengthOf m).toNat
  omega

theorem keeps_helloRx {area : Area} {net : Network}
    (found : networkOfDesc h desc = some (area, net)) :
    (helloRx h desc).Keeps (InRange m n) m n ↔ HelloFields area net (h.conf net.ip) m n := by
  have length : m.get16 22 = lengthOf m := rfl
  simp only [helloRx, found, HelloFields, keeps_bind, keeps_maskAgrees]
  refine and_congr_right (fun _ => ?_)
  by_cases mask : (maskAgrees (h.conf net.ip) net).run m = true
  · simp only [mask, Bool.not_true, Bool.false_eq_true, if_false, keeps_bind, keeps_get16,
      run_get16]
    rw [run_maskAgrees] at mask
    rw [imp_iff_right mask]
    refine and_congr (by omega) ?_
    by_cases hello : (m.get16 48).toNat = (h.conf net.ip).helloInterval
    · simp only [hello, ne_eq, not_true_eq_false, if_false, keeps_bind, keeps_get32,
        run_get32, true_imp_iff]
      have bytes : 52 + 3 < n ↔ 56 ≤ n := by omega
      rw [bytes]
      refine and_congr_right (fun room => ?_)
      by_cases dead : (m.get32 52).toNat = (h.conf net.ip).deadInterval
      · simp only [dead, not_true_eq_false, if_false, keeps_bind, keeps_cell,
          run_cell, true_imp_iff]
        by_cases ebit : ebitAgrees area (m 50) = true
        · simp only [ebit, Bool.not_true, Bool.false_eq_true, if_false, keeps_bind,
            keeps_cell, keeps_get32, keeps_get16, run_get16, keeps_mark,
            keeps_pure, true_imp_iff, length]
          constructor
          · rintro ⟨_, _, _, whole, _, range, _⟩
            exact ⟨by omega, range⟩
          · rintro ⟨whole, range⟩
            exact ⟨by omega, by omega, by omega, by omega, by omega, range,
              keeps_neighbors range _, trivial⟩
        · simp [ebit]
          omega
      · simp [dead]
    · simp [hello]
  · have off : (maskAgrees (h.conf net.ip) net).run m = false := Bool.not_eq_true _ |>.mp mask
    simp only [off, Bool.not_false, if_true, keeps_pure, true_iff]
    rw [run_maskAgrees] at mask
    exact fun agrees => absurd agrees mask

theorem keeps_ddHeaders {cnt : Nat} (room : 52 + 20 * cnt ≤ n) : (ddHeaders cnt).Keeps P m n := by
  refine keeps_walk (fun i _ upper => ?_)
  simp only [keeps_bind, keeps_getHeader, keeps_pure, and_true]
  omega

theorem keeps_dbdescRx : (dbdescRx h desc).Keeps (InRange m n) m n ↔ DbDescFields h desc m n := by
  have length : m.get16 22 = lengthOf m := rfl
  have header : 22 + 1 < n ↔ 24 ≤ n := by omega
  simp only [dbdescRx, DbDescFields, keeps_bind, keeps_get16, run_get16, length, header]
  refine and_congr_right fun _ => ?_
  by_cases passes : ddLength (lengthOf m) = true
  · simp only [passes, Bool.not_true, Bool.false_eq_true, if_false, true_imp_iff]
    simp only [ddLength, Bool.and_eq_true, decide_eq_true_eq] at passes
    cases found : sender h.router desc with
    | none => simp
    | some p =>
      obtain ⟨area, net, nb⟩ := p
      have fields : (44 + 1 < n ∧ 46 < n ∧ 47 < n ∧ 48 + 3 < n) ↔ 52 ≤ n := by omega
      simp only [keeps_bind, keeps_get16, keeps_cell, keeps_get32, run_get16, run_get32,
        run_cell, ← and_assoc] at fields ⊢
      rw [fields]
      constructor
      · rintro ⟨room, keeps⟩ _ _ _ ⟨⟩
        refine ⟨room, fun intf isIntf accepted filled => ?_⟩
        simp only [isIntf, accepted, Bool.not_true, Bool.false_eq_true, if_false, filled,
          keeps_bind, keeps_mark] at keeps
        exact keeps.1
      · intro whole
        obtain ⟨room, accepts⟩ := whole _ _ _ rfl
        refine ⟨room, ?_⟩
        split
        · simp
        · rename_i intf isIntf
          by_cases accepted : ddAccepted h desc intf nb.state (m.get16 44) (m 46) (m 47)
              (m.get32 48) = true
          · by_cases empty : lengthOf m = 32
            · simp [accepted, empty]
            · have range := accepts intf isIntf accepted empty
              have upper := range.2
              simp only [accepted, Bool.not_true, Bool.false_eq_true, empty, if_false,
                keeps_bind, keeps_mark, keeps_pure, and_true]
              exact ⟨range, keeps_ddHeaders (by omega)⟩
          · simp [accepted]
  · simp [passes]

theorem keeps_requests (range : InRange m n) (r : Router) (areaId : BitVec 32) :
    (requests r areaId (countOf (lengthOf m) 12)).Keeps P m n := by
  obtain ⟨lower, upper⟩ := range
  refine keeps_walk (fun i _ last => ?_)
  have count : 12 * (countOf (lengthOf m) 12).toNat ≤ (lengthOf m).toNat - 24 := countOf_le lower 12
  simp only [getRequest, keeps_bind, keeps_get32, keeps_pure, and_true]
  omega

theorem keeps_exchanging {α : Type} (examine : Reads (Option (List α))) :
    Scan.Keeps P (match sender h.router desc with
      | none => pure none
      | some (_, _, nb) =>
        if nb.state.code < NState.exchange.code then pure (some []) else examine) m n ↔
      (Exchanging h desc → examine.Keeps P m n) := by
  cases found : sender h.router desc with
  | none => simp [Exchanging, found]
  | some p =>
    obtain ⟨area, net, nb⟩ := p
    have exchanging : Exchanging h desc ↔ ¬ nb.state.code < NState.exchange.code := by
      simp [Exchanging, found]
    rw [exchanging]
    dsimp only
    split
    · rename_i early
      simp [early]
    · rename_i late
      simp [late]

theorem keeps_lsrequestRx : (lsrequestRx h desc).Keeps (InRange m n) m n ↔
    24 ≤ n ∧ (requestLength (lengthOf m) = true → Exchanging h desc → InRange m n) := by
  have length : m.get16 22 = lengthOf m := rfl
  have header : 22 + 1 < n ↔ 24 ≤ n := by omega
  simp only [lsrequestRx, keeps_bind, keeps_get16, run_get16, length, header]
  refine and_congr_right fun _ => ?_
  by_cases passes : requestLength (lengthOf m) = true
  · simp only [passes, Bool.not_true, Bool.false_eq_true, if_false, true_imp_iff]
    refine (keeps_exchanging _).trans (imp_congr_right fun _ => ?_)
    simp only [keeps_bind, keeps_mark, keeps_pure, and_true]
    exact ⟨And.left, fun range => ⟨range, keeps_requests range _ _⟩⟩
  · simp [passes]

theorem keeps_lsackRx : (lsackRx h desc).Keeps (InRange m n) m n ↔ InRange m n := by
  have length : m.get16 22 = lengthOf m := rfl
  simp only [lsackRx, keeps_bind, keeps_get16, run_get16, length, keeps_mark]
  refine ⟨fun keeps => keeps.2.1, fun range => ⟨?_, range, ?_⟩⟩
  · obtain ⟨_, upper⟩ := range
    omega
  · obtain ⟨lower, upper⟩ := range
    split
    · simp
    · split
      · simp
      · split
        · simp
        · simp only [keeps_bind, keeps_pure, and_true]
          refine keeps_walk (fun i _ last => ?_)
          have count : 20 * (countOf (lengthOf m) 20).toNat ≤ (lengthOf m).toNat - 24 :=
            countOf_le lower 20
          simp only [keeps_bind, keeps_getHeader, keeps_pure, and_true]
          omega

/-- An update packet: the count, every record that the verification gets to, and the bytes of
all of them where the records are examined. -/
theorem keeps_lsupdateRx : (lsupdateRx h desc).Keeps P m n ↔ 48 ≤ n ∧
    (∀ p ∈ visited (m.offset 48) (updatePacket m).cnt.toNat ((lengthOf m).toNat - 28) 0,
      48 + p + sizeofHeader ≤ n) ∧
    ((updatePacket m).held = true → Exchanging h desc → 20 + (lengthOf m).toNat ≤ n) := by
  have count : (m.get32 44).toInt = (updatePacket m).cnt := rfl
  have length : m.get16 22 = lengthOf m := rfl
  have bytes : 44 + 3 < n ↔ 48 ≤ n := by omega
  simp only [lsupdateRx, keeps_bind, keeps_get32, run_get32, count, bytes]
  refine and_congr_right (fun room => ?_)
  by_cases zero : (updatePacket m).cnt = 0
  · simp [zero, visited, UpdatePacket.held, UpdatePacket.verified]
  · simp only [zero, if_false, keeps_bind, keeps_get16, run_get16, length,
      keeps_verifyRecords, run_verifyRecords]
    have header : 22 + 1 < n := by omega
    rw [and_iff_right header]
    refine and_congr_right fun inside => ?_
    split
    · rename_i fails
      have refused : (updatePacket m).verified = false := by
        simp only [UpdatePacket.verified, Bool.and_eq_false_iff, decide_eq_false_iff_not]
        exact .inr fails
      simp [UpdatePacket.held, refused]
    · rename_i pass
      have lengths := not_not.mp pass
      have verified : (updatePacket m).verified = true := by
        simp only [UpdatePacket.verified, Bool.and_eq_true, decide_eq_true_eq]
        exact ⟨zero, lengths⟩
      by_cases room' : ackFits (updatePacket m).cnt = true
      swap
      · simp [UpdatePacket.held, room']
      have held : (updatePacket m).held = true := by rw [UpdatePacket.held, verified, room']; rfl
      rw [imp_iff_right held, room']
      simp only [Bool.not_true, Bool.false_eq_true, if_false]
      refine (keeps_exchanging _).trans (imp_congr_right fun _ => ?_)
      simp only [keeps_bind, keeps_pure, and_true, keeps_getRecords]
      constructor
      · intro each
        have last := ends_verified lengths (fun p hp => (each p hp).2) room
        omega
      · intro whole p hp
        obtain ⟨bounds, _⟩ := verifyLength_spec lengths
        have last := bounds p hp
        exact ⟨inside p (mem_visited lengths hp), by omega⟩

end Handlers

section Received

variable {h : Host} {d : Datagram} {m : Memory} {desc : PacketDesc}

theorem networkOfDesc_of_headerExtract (extracted : headerExtract h d m = some desc) :
    ∃ area net, networkOfDesc h desc = some (area, net) := by
  simp only [headerExtract] at extracted
  split at extracted
  · cases extracted
  · split at extracted
    · cases extracted
    · rename_i area harea
      split at extracted
      · cases extracted
      · rename_i net hnet
        cases extracted
        refine ⟨area, net, ?_⟩
        simp [networkOfDesc, harea, hnet]

theorem rxpacket_eq_some (received : rxpacket h d = some (m, desc)) :
    typeOf m ≤ 5 ∧ ∃ area net, networkOfDesc h desc = some (area, net) := by
  simp only [rxpacket, guard, Option.bind_eq_bind, Option.bind_eq_some_iff, Option.pure_def,
    Option.some.injEq, Prod.mk.injEq] at received
  obtain ⟨_, _, _, _, _, _, m', _, _, _, desc', extracted, _, _, _, typed, _, _, rfl, rfl⟩ :=
    received
  refine ⟨?_, networkOfDesc_of_headerExtract extracted⟩
  by_contra unknown
  rw [if_neg unknown] at typed
  cases typed

end Received

theorem known_types : ∀ t : BitVec 8, t ≤ 5 → t = 0 ∨ t = 1 ∨ t = 2 ∨ t = 3 ∨ t = 4 ∨ t = 5 := by
  decide

section Handler

variable {h : Host} {desc : PacketDesc} {m : Memory} {n : Nat}

theorem keeps_handler (typed : typeOf m ≤ 5)
    (found : ∃ area net, networkOfDesc h desc = some (area, net)) :
    (handler h desc (typeOf m)).Keeps (InRange m n) m n ↔ Fits h desc m n := by
  have fits : Fits h desc m n ↔
      (typeOf m = 1 → ∀ area net, networkOfDesc h desc = some (area, net) →
        HelloFields area net (h.conf net.ip) m n) ∧
      (typeOf m = 2 → DbDescFields h desc m n) ∧
      (typeOf m = 3 → 24 ≤ n ∧
        (requestLength (lengthOf m) = true → Exchanging h desc → InRange m n)) ∧
      (typeOf m = 4 → 48 ≤ n ∧
        (∀ p ∈ visited (m.offset 48) (updatePacket m).cnt.toNat ((lengthOf m).toNat - 28) 0,
          48 + p + sizeofHeader ≤ n) ∧
        ((updatePacket m).held = true → Exchanging h desc →
          20 + (lengthOf m).toNat ≤ n)) ∧
      (typeOf m = 5 → InRange m n) :=
    ⟨fun f => ⟨f.hello, f.dbdesc, f.request, f.update, f.ack⟩,
      fun ⟨hello, dbdesc, request, update, ack⟩ => ⟨hello, dbdesc, request, update, ack⟩⟩
  rw [fits]
  rcases known_types _ typed with t | t | t | t | t | t
  all_goals rw [t, handler]
  · simp
  · obtain ⟨area, net, hnet⟩ := found
    simp [keeps_helloRx hnet, hnet]
  · simp [keeps_dbdescRx]
  · simp [keeps_lsrequestRx]
  · simp [keeps_lsupdateRx]
  · simp [keeps_lsackRx]

end Handler

/-- Every datagram that passes the receive checks: its handler stays inside the received
bytes, and counts nothing by a length that is not that of a packet in it, exactly when it
fits. -/
theorem handlers_stay_iff (h : Host) (d : Datagram) (m : Memory) (desc : PacketDesc)
    (received : rxpacket h d = some (m, desc)) :
    Stays h desc m d.size ↔ Fits h desc m d.size := by
  obtain ⟨typed, found⟩ := rxpacket_eq_some received
  rw [← keeps_handler typed found]
  constructor
  · exact fun stays => ⟨stays.inside, not_imp_not.mp stays.rejected⟩
  · exact fun keeps => ⟨keeps.1, not_imp_not.mpr keeps.2⟩

/-- What lies behind the received bytes has no influence on a handler that stays inside. -/
theorem Stays.run_eq {h : Host} {desc : PacketDesc} {m m' : Memory} {n : Nat}
    (stays : Stays h desc m n) (same : ∀ i < n, m' i = m i) :
    (handler h desc (typeOf m)).run m' = (handler h desc (typeOf m)).run m :=
  Scan.run_congr (fun o ho => same o (stays.inside o ho))

/-- The headers of an acknowledgment are those that `Retransmission` acts on. -/
theorem run_lsackRx (h : Host) (desc : PacketDesc) (m : Memory) :
    (lsackRx h desc).run m =
      if (ackPacket m).cnt = 0 ∨ (ackPacket m).size % 20 ≠ 0 then none
      else (sender h.router desc).map (fun _ => (ackPacket m).headers) := by
  have count : countOf (m.get16 22) 20 = (ackPacket m).cnt := rfl
  have size : payload (m.get16 22) = (ackPacket m).size := rfl
  simp only [lsackRx, run_bind, run_get16, count, size]
  by_cases zero : (ackPacket m).cnt = 0
  · simp only [zero, if_true, true_or, run_pure]
  · by_cases whole : (ackPacket m).size % 20 = 0
    · simp only [zero, whole, if_false, ne_eq, not_true_eq_false, or_self]
      cases sender h.router desc with
      | none => rfl
      | some p =>
        simp only [run_bind, run_pure, Option.map_some, AckPacket.headers]
        rw [Scan.run_walk (fun i => by simp only [run_bind, run_pure])]
        refine congrArg some (List.map_congr_left (fun i _ => ?_))
        simp only [run_bind, run_pure, run_getHeader, Nat.zero_add]
        refine lsaHeader_congr (fun k _ => ?_)
        simp only [ackPacket, Memory.offset, sizeofHeader, Nat.add_assoc]
    · simp only [zero, whole, if_false, ne_eq, not_false_eq_true, if_true, or_true, run_pure]

/-- The records of an update are those that `LsUpdate` runs over. -/
theorem run_lsupdateRx (h : Host) (desc : PacketDesc) (m : Memory) :
    (lsupdateRx h desc).run m =
      if (updatePacket m).held = true then
        (sender h.router desc).map (fun p =>
          if p.2.2.state.code < NState.exchange.code then []
          else (updatePacket m).lsas.map
            (fun lsah => (lsaHeader lsah, lsah.bytes (announced lsah))))
      else none := by
  have count : (m.get32 44).toInt = (updatePacket m).cnt := rfl
  have length : m.get16 22 = lengthOf m := rfl
  simp only [lsupdateRx, run_bind, run_get32, count, UpdatePacket.held, Bool.and_eq_true]
  by_cases zero : (updatePacket m).cnt = 0
  · have refused : (updatePacket m).verified = false := by simp [UpdatePacket.verified, zero]
    simp only [zero, if_true, run_pure, refused, Bool.false_eq_true, false_and, if_false]
  · simp only [zero, if_false, run_bind, run_get16, length, run_verifyRecords]
    by_cases lengths : verifyLength (m.offset 48) (updatePacket m).cnt.toNat
        ((lengthOf m).toNat - 28) 0 = some 0
    · have verified : (updatePacket m).verified = true := by
        simp only [UpdatePacket.verified, Bool.and_eq_true, decide_eq_true_eq]
        exact ⟨zero, lengths⟩
      simp only [lengths, ne_eq, not_true_eq_false, if_false, verified, true_and]
      cases ackFits (updatePacket m).cnt with
      | false => simp only [Bool.not_false, if_true, run_pure, Bool.false_eq_true, if_false]
      | true =>
        simp only [Bool.not_true, Bool.false_eq_true, if_false, if_true]
        cases sender h.router desc with
        | none => rfl
        | some p =>
          simp only [Option.map_some]
          split
          · rfl
          · simp only [run_bind, run_getRecords, run_pure]
            rfl
    · have refused : (updatePacket m).verified = false := by
        simp only [UpdatePacket.verified, Bool.and_eq_false_iff, decide_eq_false_iff_not]
        exact .inr lengths
      simp only [lengths, ne_eq, not_false_eq_true, if_true, run_pure, refused,
        Bool.false_eq_true, false_and, if_false]

/-- A broadcast network 10.0.0.0/24 without authentication, with a neighbor in Exchange. -/
def exampleHost : Host where
  areas :=
    [(0, ⟨false, [], [{ designated with neighbor := [⟨0x0a000002, .exchange, [], [], 0⟩] }]⟩)]
  extlist := []
  ospfRouterId := 0x01010101
  conf := fun _ => ⟨true, 10, 40, 0x01010101⟩
  interfaceByIndex := fun _ => some ⟨0, [], 0, [], false, 1500, false⟩
  interface := fun _ => some ⟨0, [], 0, [], false, 1500, false⟩
  md5Seq := fun _ _ => none
  md5 := fun _ => []
  nextInSequence := fun _ _ _ _ => false

/-- A datagram of 10.0.0.2 with the given OSPF packet. -/
def datagramOf (bytes : List (BitVec 8)) : Datagram where
  memory := fun i => if i = 9 then 89 else if i < 20 then 0 else bytes.getD (i - 20) 0
  size := 20 + bytes.length
  ipSource := 0x0a000002
  ipDest := allSpfRouters
  ifIndex := 1

/-- A Hello packet with one neighbor. -/
def helloBytes : List (BitVec 8) :=
  [2, 1, 0, 48, 2, 2, 2, 2, 0, 0, 0, 0, 246, 148, 0, 0, 0, 0, 0, 0, 0, 0, 0, 0,
    255, 255, 255, 0, 0, 10, 2, 1, 0, 0, 0, 40, 0, 0, 0, 0, 0, 0, 0, 0, 1, 1, 1, 1]

theorem handlers_stay_hello :
    rxpacket exampleHost (datagramOf helloBytes) =
        some ((datagramOf helloBytes).memory, fromNeighbor) ∧
      Stays exampleHost fromNeighbor (datagramOf helloBytes).memory 68 := by
  have received : rxpacket exampleHost (datagramOf helloBytes) =
      some ((datagramOf helloBytes).memory, fromNeighbor) := rfl
  have isHello : typeOf (datagramOf helloBytes).memory = 1 := rfl
  refine ⟨received, (handlers_stay_iff _ _ _ _ received).mpr ?_⟩
  refine ⟨fun _ area net _ => ?_, fun t => ?_, fun t => ?_, fun t => ?_, fun t => ?_⟩
  · exact ⟨fun _ => by decide, fun _ => ⟨by decide, fun _ => ⟨by decide, fun _ _ =>
      ⟨by decide, by decide, by decide⟩⟩⟩⟩
  all_goals exact absurd (isHello.symm.trans t) (by decide)

/-- A Link State Request packet that announces 20 bytes, four less than its header. -/
def shortRequest : List (BitVec 8) :=
  [2, 3, 0, 20, 2, 2, 2, 2, 0, 0, 0, 0, 249, 228, 0, 0, 0, 0, 0, 0, 0, 0, 0, 0]

/-- A Link State Acknowledgment packet that announces 64 bytes and has 24. -/
def longAck : List (BitVec 8) :=
  [2, 5, 0, 64, 2, 2, 2, 2, 0, 0, 0, 0, 249, 182, 0, 0, 0, 0, 0, 0, 0, 0, 0, 0]

/-- Of both, the datagram has 44 bytes, and the handler reads the one behind them. -/
theorem announced_lengths_read_outside :
    (rxpacket exampleHost (datagramOf shortRequest) =
        some ((datagramOf shortRequest).memory, fromNeighbor) ∧
      countOf 20 12 = 0x55555555 ∧
      ¬ Stays exampleHost fromNeighbor (datagramOf shortRequest).memory 44) ∧
    (rxpacket exampleHost (datagramOf longAck) =
        some ((datagramOf longAck).memory, fromNeighbor) ∧
      ¬ Stays exampleHost fromNeighbor (datagramOf longAck).memory 44) := by
  have request :
      44 ∈ (handler exampleHost fromNeighbor 3).reads (datagramOf shortRequest).memory := by
    decide +kernel
  have ack : 44 ∈ (handler exampleHost fromNeighbor 5).reads (datagramOf longAck).memory := by
    decide +kernel
  refine ⟨⟨rfl, by decide +kernel, fun stays => ?_⟩, rfl, fun stays => ?_⟩
  · exact absurd (stays.inside 44 request) (by decide)
  · exact absurd (stays.inside 44 ack) (by decide)

end PacketBounds
