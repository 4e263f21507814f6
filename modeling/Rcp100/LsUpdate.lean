import Rcp100.LsaFormat

/-!
# Reception of Link State Updates

`lsupdateRx` checks that the announced lengths add up to the packet, looks up the
area, the network and the neighbor of the sender, and runs the flooding procedure
on one advertisement after the other. Packets that leave the router are returned
as results; log lines and traps are left out.
-/

namespace LsUpdate

open LsaFormat

/-- Neighbor states, in the order of their numbers. -/
inductive NState where
  | down
  | attempt
  | init
  | twoWay
  | exStart
  | exchange
  | loading
  | full
  deriving DecidableEq, Repr

def NState.code : NState → Nat
  | .down => 0
  | .attempt => 1
  | .init => 2
  | .twoWay => 3
  | .exStart => 4
  | .exchange => 5
  | .loading => 6
  | .full => 7

inductive NetState where
  | down
  | waiting
  | p2p
  | drOther
  | backup
  | dr
  deriving DecidableEq, Repr

structure Neighbor where
  ip : BitVec 32
  state : NState
  lsreq : List LsaHeader
  rxmtList : List OspfLsa
  rxmtListTimer : Int := 0

/-- The defaults are the zeroed memory of a new network. -/
structure Network where
  ip : BitVec 32
  mask : BitVec 32
  state : NetState
  designatedRouter : BitVec 32
  backupRouter : BitVec 32 := 0
  neighbor : List Neighbor
  rxtmInterval : Int := 0
  floodingCnt : Nat := 0
  floodingAlldrouters : List OspfLsa := []
  floodingAllspfrouters : List OspfLsa := []

/-- The lists of the types 1 to 4 are one list here: a search names the type. -/
structure Area where
  stub : Bool
  list : List OspfLsa
  network : List Network

/-- The area list, as `areaFind` searches it, and the external advertisements. -/
structure Router where
  area : BitVec 32 → Option Area
  extlist : List OspfLsa

/-- `OspfPacketDesc`, less the interface index of the traps. -/
structure PacketDesc where
  ipSource : BitVec 32
  ipDest : BitVec 32
  routerId : BitVec 32
  areaId : BitVec 32
  deriving DecidableEq, Repr

/-- A Link State Update packet: `header.length`, the count, and the buffer from the
first advertisement on. -/
structure UpdatePacket where
  length : BitVec 16
  count : BitVec 32
  body : Memory

def allSpfRouters : BitVec 32 := 0xe0000005

def allDRouters : BitVec 32 := 0xe0000006

/-- The first element that satisfies `p` is changed in place. -/
def modifyFirst {α : Type} (p : α → Bool) (f : α → α) : List α → List α
  | [] => []
  | x :: rest => if p x then f x :: rest else x :: modifyFirst p f rest

def onNetwork (ip : BitVec 32) (net : Network) : Bool := (ip &&& net.mask) = (net.ip &&& net.mask)

def networkFindIp (area : Area) (ip : BitVec 32) : Option Network :=
  area.network.find? (onNetwork ip)

def neighborFind (net : Network) (ip : BitVec 32) : Option Neighbor :=
  net.neighbor.find? (fun nb => ip = nb.ip)

/-- The first header with the key is removed from the request list. -/
def lsahListRemove (list : List LsaHeader) (key : LsaKey) : List LsaHeader :=
  list.eraseP (fun h => h.key = key)

/-- What the loop over the advertisements of a packet changes. -/
structure RxState where
  lsreq : List LsaHeader
  list : List OspfLsa
  extlist : List OspfLsa
  rxmtList : List OspfLsa
  ack : List LsaHeader

namespace RxState

/-- `lsadbGetListHead`. -/
def lsdb (st : RxState) (type : BitVec 8) : List OspfLsa :=
  if type = 5 then st.extlist else st.list

def setLsdb (st : RxState) (type : BitVec 8) (list : List OspfLsa) : RxState :=
  if type = 5 then { st with extlist := list } else { st with list := list }

end RxState

/-- The advertisement as it is stored when it is received on `net`. -/
def receivedLsa (net : Network) (lsah : Memory) : OspfLsa :=
  { duplicateLsa lsah with flood := 1, netIp := net.ip }

/-- The branches of the flooding procedure on the list that may hold the
advertisement. -/
def installLsa (net : Network) (desc : PacketDesc) (list : List OspfLsa) (lsah : Memory) :
    List OspfLsa :=
  let h := lsaHeader lsah
  match lsaListFind list h.key with
  | none =>
    -- a backup router waits for the designated router
    if net.state = .backup ∧ desc.ipDest = allDRouters then list
    else if h.age ≠ maxAge then lsaListAdd list (receivedLsa net lsah)
    else list
  | some found =>
    if found.selfOriginated then
      if h.age = maxAge then lsaListUpdate list h.key (·.setAge maxAge)
      else if found.header.seq < h.seq then
        lsaListUpdate list h.key
          (fun l => { l with oldCnt := 3, oldSelfOriginatedSeq := h.seq })
      else list
    else if found.header.seq < h.seq then
      lsaListUpdate list h.key (fun _ => receivedLsa net lsah)
    else if h.age = maxAge then lsaListUpdate list h.key (·.setAge maxAge)
    else list

/-- Advertisements that are answered by flooding and not acknowledged. The flag of
the database copy is the one before a replacement: the source reads it after that
copy was freed. -/
def doNotAck (net : Network) (desc : PacketDesc) (found foundRxmt : Option OspfLsa) : Bool :=
  (found.isNone && (net.state = .dr || net.state = .backup) && desc.ipDest = allDRouters) ||
    (foundRxmt.isSome && net.state = .drOther && desc.routerId = net.designatedRouter &&
      desc.ipDest = allSpfRouters && found.any (·.selfOriginated))

/-- Steps (1) to (3): the checksum, the type, and external ones in a stub area. -/
def accepted (stub : Bool) (lsah : Memory) : Bool :=
  let h := lsaHeader lsah
  fletcher16 (lsah.offset 2) (h.length.toNat - 2) = 0 && h.type ≠ 0 && h.type ≤ 5 &&
    !(h.type = 5 && stub)

/-- An advertisement that passes the checks: installation, implied acknowledgment
and the list of acknowledgments. -/
def floodLsa (net : Network) (desc : PacketDesc) (st : RxState) (lsah : Memory) : RxState :=
  let h := lsaHeader lsah
  let found := lsaListFind (st.lsdb h.type) h.key
  let foundRxmt := lsaListFind st.rxmtList h.key
  let installed := st.setLsdb h.type (installLsa net desc (st.lsdb h.type) lsah)
  { installed with
    rxmtList := if foundRxmt.isSome then lsaListRemove st.rxmtList h.key else st.rxmtList
    ack := if doNotAck net desc found foundRxmt then st.ack else st.ack ++ [h] }

/-- One pass of the loop. -/
def receiveLsa (stub : Bool) (net : Network) (desc : PacketDesc) (st : RxState)
    (lsah : Memory) : RxState :=
  let st := { st with lsreq := lsahListRemove st.lsreq (lsaHeader lsah).key }
  if accepted stub lsah then floodLsa net desc st lsah else st

/-- The pointers of a walk over `cnt` advertisements: each announces where the next
one begins. -/
def lsaPointers (body : Memory) : Nat → Nat → List Nat
  | 0, _ => []
  | cnt+1, ptr => ptr :: lsaPointers body cnt (ptr + (lsaHeader (body.offset ptr)).length.toNat)

/-- The verification loop: what is left of the packet, or `none` when an
advertisement does not fit. -/
def verifyLength (body : Memory) : Nat → Int → Nat → Option Int
  | 0, size, _ => some size
  | cnt+1, size, ptr =>
    let len := (lsaHeader (body.offset ptr)).length.toNat
    if size - len < 0 then none else verifyLength body cnt (size - len) (ptr + len)

/-- The count is a signed integer in the source; a negative count enters no loop. -/
def UpdatePacket.cnt (pkt : UpdatePacket) : Int := pkt.count.toInt

/-- The packet passes the checks of the count and the lengths. -/
def UpdatePacket.verified (pkt : UpdatePacket) : Bool :=
  pkt.cnt ≠ 0 && verifyLength pkt.body pkt.cnt.toNat (pkt.length.toNat - 28) 0 = some 0

/-- The stack of a process, as the system limits it by default. -/
def stackSize : Nat := 8 * 1024 * 1024

/-- `OspfLsaHeader ack[cnt]` is on the stack: a negative length, or a greater one than the
stack holds, kills the process. -/
def ackFits (cnt : Int) : Bool := 0 ≤ cnt && cnt.toNat * 20 ≤ stackSize

/-- The packet is verified, and the process lives on. -/
def UpdatePacket.held (pkt : UpdatePacket) : Bool := pkt.verified && ackFits pkt.cnt

/-- The advertisements of a packet. -/
def UpdatePacket.lsas (pkt : UpdatePacket) : List Memory :=
  (lsaPointers pkt.body pkt.cnt.toNat 0).map pkt.body.offset

inductive Dest where
  | unicast (ip : BitVec 32)
  | allDRouters
  | allSpfRouters
  deriving DecidableEq, Repr

/-- What a received update leads to besides its effect on the router; nothing is returned by a
process that is killed. -/
structure RxResult where
  rv : Option Nat
  ack : Option (Dest × List LsaHeader)
  loadingDone : Bool
  sendRequest : Bool
  deriving DecidableEq

def RxResult.returns (rv : Nat) : RxResult := ⟨some rv, none, false, false⟩

def RxResult.killed : RxResult := ⟨none, none, false, false⟩

def ackDest (net : Network) (nb : Neighbor) (desc : PacketDesc) : Dest :=
  if desc.ipDest = net.ip then .unicast nb.ip
  else if net.state = .drOther then .allDRouters
  else .allSpfRouters

/-- Area, network and neighbor of the sender. -/
def sender (r : Router) (desc : PacketDesc) : Option (Area × Network × Neighbor) := do
  let area ← r.area desc.areaId
  let net ← networkFindIp area desc.ipSource
  let nb ← neighborFind net desc.ipSource
  return (area, net, nb)

/-- The state in which the loop begins. -/
def rxStart (r : Router) (area : Area) (nb : Neighbor) : RxState :=
  ⟨nb.lsreq, area.list, r.extlist, nb.rxmtList, []⟩

def rxLoop (r : Router) (area : Area) (net : Network) (nb : Neighbor) (desc : PacketDesc)
    (lsas : List Memory) : RxState :=
  lsas.foldl (receiveLsa area.stub net desc) (rxStart r area nb)

def Area.modifyNetwork (ip : BitVec 32) (f : Network → Network) (area : Area) : Area :=
  { area with network := modifyFirst (onNetwork ip) f area.network }

def Network.modifyNeighbor (ip : BitVec 32) (f : Neighbor → Neighbor) (net : Network) : Network :=
  { net with neighbor := modifyFirst (fun nb => ip = nb.ip) f net.neighbor }

/-- The router after the loop. -/
def rxStore (r : Router) (area : Area) (desc : PacketDesc) (st : RxState) : Router :=
  let restore (nb : Neighbor) : Neighbor := { nb with lsreq := st.lsreq, rxmtList := st.rxmtList }
  let area' : Area :=
    { area.modifyNetwork desc.ipSource (·.modifyNeighbor desc.ipSource restore) with
      list := st.list }
  { area := Function.update r.area desc.areaId (some area'), extlist := st.extlist }

def lsupdateRx (r : Router) (pkt : UpdatePacket) (desc : PacketDesc) : Router × RxResult :=
  if pkt.held then
    match sender r desc with
    | none => (r, .returns 1)
    | some (area, net, nb) =>
      if nb.state.code < NState.exchange.code then (r, .returns 0)
      else
        let st := rxLoop r area net nb desc pkt.lsas
        let ack := if st.ack = [] then none else some (ackDest net nb desc, st.ack)
        (rxStore r area desc st,
          ⟨some 0, ack, nb.state = .loading && st.lsreq.isEmpty,
            nb.state = .loading && !st.lsreq.isEmpty⟩)
  else if pkt.verified then (r, .killed)
  else (r, .returns 1)

/-- One pass of the loop of `lsupdateRx`, in the state before it. -/
structure LsaEvent where
  stub : Bool
  net : Network
  desc : PacketDesc
  before : RxState
  lsah : Memory

namespace LsaEvent

def after (e : LsaEvent) : RxState := receiveLsa e.stub e.net e.desc e.before e.lsah

def header (e : LsaEvent) : LsaHeader := lsaHeader e.lsah

end LsaEvent

def loopEvents (stub : Bool) (net : Network) (desc : PacketDesc) :
    RxState → List Memory → List LsaEvent
  | _, [] => []
  | st, lsah :: rest =>
    ⟨stub, net, desc, st, lsah⟩ :: loopEvents stub net desc (receiveLsa stub net desc st lsah) rest

/-- The passes that a packet leads to. -/
def packetEvents (r : Router) (pkt : UpdatePacket) (desc : PacketDesc) : List LsaEvent :=
  if pkt.held then
    match sender r desc with
    | none => []
    | some (area, net, nb) =>
      if nb.state.code < NState.exchange.code then []
      else loopEvents area.stub net desc (rxStart r area nb) pkt.lsas
  else []

/-- Any packets, in any order. -/
def rxRun (r : Router) : List (UpdatePacket × PacketDesc) → Router
  | [] => r
  | (pkt, desc) :: rest => rxRun (lsupdateRx r pkt desc).1 rest

def runEvents (r : Router) : List (UpdatePacket × PacketDesc) → List LsaEvent
  | [] => []
  | (pkt, desc) :: rest => packetEvents r pkt desc ++ runEvents (lsupdateRx r pkt desc).1 rest

/-- A designated router's network with one full neighbor, 10.0.0.2. -/
def designated : Network where
  ip := 0x0a000001
  mask := 0xffffff00
  state := .dr
  designatedRouter := 0x0a000001
  neighbor := [{ ip := 0x0a000002, state := .full, lsreq := [], rxmtList := [] }]

/-- A router with this network in one area and the given database. -/
def receiver (list : List OspfLsa) : Router where
  area := fun areaId => if areaId = 0 then some ⟨false, list, [designated]⟩ else none
  extlist := list

def fromNeighbor : PacketDesc := ⟨0x0a000002, allSpfRouters, 0x02020202, 0⟩

/-- A packet with the given records. -/
def updateOf (count : BitVec 32) (records : List (BitVec 8)) : UpdatePacket :=
  ⟨BitVec.ofNat 16 (28 + records.length), count, fun i => records.getD i 0⟩

theorem lsdb_setLsdb_of_iff (st : RxState) {type t : BitVec 8} (list : List OspfLsa)
    (same : t = 5 ↔ type = 5) : (st.setLsdb type list).lsdb t = list := by
  unfold RxState.setLsdb RxState.lsdb
  by_cases h : type = 5
  · rw [if_pos h, if_pos (same.mpr h)]
  · rw [if_neg h, if_neg (fun ht => h (same.mp ht))]

theorem lsdb_setLsdb_of_not_iff (st : RxState) {type t : BitVec 8} (list : List OspfLsa)
    (other : ¬ (t = 5 ↔ type = 5)) : (st.setLsdb type list).lsdb t = st.lsdb t := by
  unfold RxState.setLsdb RxState.lsdb
  by_cases h : type = 5
  · have ht : t ≠ 5 := fun ht => other (iff_of_true ht h)
    rw [if_pos h, if_neg ht, if_neg ht]
  · have ht : t = 5 := by
      by_contra ht
      exact other (iff_of_false ht h)
    rw [if_neg h, if_pos ht, if_pos ht]

theorem lsdb_receiveLsa (stub : Bool) (net : Network) (desc : PacketDesc) (st : RxState)
    (lsah : Memory) (t : BitVec 8) :
    (receiveLsa stub net desc st lsah).lsdb t =
      if accepted stub lsah = true then
        (st.setLsdb (lsaHeader lsah).type
          (installLsa net desc (st.lsdb (lsaHeader lsah).type) lsah)).lsdb t
      else st.lsdb t := by
  unfold receiveLsa floodLsa
  dsimp only
  split
  · unfold RxState.lsdb RxState.setLsdb
    by_cases h : (lsaHeader lsah).type = 5
    · rw [if_pos h, if_pos h, if_pos h]
    · rw [if_neg h, if_neg h, if_neg h]
  · rfl

theorem header_receivedLsa (net : Network) {lsah : Memory}
    (sized : sizeofHeader ≤ (lsaHeader lsah).length.toNat) :
    (receivedLsa net lsah).header = lsaHeader lsah :=
  (OspfLsa.header_congr rfl).trans (header_duplicateLsa sized)

/-- What installation does to the list. -/
inductive Installs (net : Network) (desc : PacketDesc) (list : List OspfLsa) (lsah : Memory) :
    List OspfLsa → Prop where
  | keep : Installs net desc list lsah list
  | add (absent : lsaListFind list (lsaHeader lsah).key = none)
    (ready : ¬ (net.state = .backup ∧ desc.ipDest = allDRouters))
    (young : (lsaHeader lsah).age ≠ maxAge) :
    Installs net desc list lsah (receivedLsa net lsah :: list)
  | age {found : OspfLsa} (present : lsaListFind list (lsaHeader lsah).key = some found) :
    Installs net desc list lsah (lsaListUpdate list (lsaHeader lsah).key (·.setAge maxAge))
  | note {found : OspfLsa} (present : lsaListFind list (lsaHeader lsah).key = some found) :
    Installs net desc list lsah (lsaListUpdate list (lsaHeader lsah).key
      (fun l => { l with oldCnt := 3, oldSelfOriginatedSeq := (lsaHeader lsah).seq }))
  | replace {found : OspfLsa} (present : lsaListFind list (lsaHeader lsah).key = some found)
    (foreign : found.selfOriginated ≠ true) (newer : found.header.seq < (lsaHeader lsah).seq) :
    Installs net desc list lsah
      (lsaListUpdate list (lsaHeader lsah).key (fun _ => receivedLsa net lsah))

theorem installs_installLsa (net : Network) (desc : PacketDesc) (list : List OspfLsa)
    (lsah : Memory) : Installs net desc list lsah (installLsa net desc list lsah) := by
  cases hfind : lsaListFind list (lsaHeader lsah).key with
  | none =>
    simp only [installLsa, hfind]
    by_cases waits : net.state = .backup ∧ desc.ipDest = allDRouters
    · rw [if_pos waits]
      exact .keep
    · rw [if_neg waits]
      by_cases young : (lsaHeader lsah).age ≠ maxAge
      · rw [if_pos young]
        exact .add hfind waits young
      · rw [if_neg young]
        exact .keep
  | some found =>
    simp only [installLsa, hfind]
    by_cases own : found.selfOriginated = true
    · rw [if_pos own]
      split
      · exact .age hfind
      · split
        · exact .note hfind
        · exact .keep
    · rw [if_neg own]
      by_cases newer : found.header.seq < (lsaHeader lsah).seq
      · rw [if_pos newer]
        exact .replace hfind own newer
      · rw [if_neg newer]
        split
        · exact .age hfind
        · exact .keep

theorem lsaListFind_installLsa_ne (net : Network) (desc : PacketDesc) (list : List OspfLsa)
    {lsah : Memory} (sized : sizeofHeader ≤ (lsaHeader lsah).length.toNat) {k : LsaKey}
    (other : k ≠ (lsaHeader lsah).key) :
    lsaListFind (installLsa net desc list lsah) k = lsaListFind list k := by
  have keyed : (receivedLsa net lsah).key = (lsaHeader lsah).key := by
    rw [OspfLsa.key, header_receivedLsa net sized]
  have updated : ∀ (f : OspfLsa → OspfLsa) {found : OspfLsa},
      lsaListFind list (lsaHeader lsah).key = some found → (f found).key = (lsaHeader lsah).key →
      lsaListFind (lsaListUpdate list (lsaHeader lsah).key f) k = lsaListFind list k := by
    intro f found hfind hkey
    rw [lsaListFind_update f hfind hkey, if_neg other]
  have outcome := installs_installLsa net desc list lsah
  generalize installLsa net desc list lsah = list' at outcome ⊢
  cases outcome with
  | keep => rfl
  | add => rw [lsaListFind_cons, keyed, if_neg other.symm]
  | age present =>
    exact updated _ present ((OspfLsa.key_setAge _ maxAge).trans (lsaListFind_key present))
  | note present =>
    refine updated _ present (Eq.trans ?_ (lsaListFind_key present))
    exact congrArg LsaHeader.key (OspfLsa.header_congr rfl)
  | replace present => exact updated _ present keyed

theorem lsaListFind_receiveLsa_ne (stub : Bool) (net : Network) (desc : PacketDesc)
    (st : RxState) {lsah : Memory}
    (sized : accepted stub lsah = true → sizeofHeader ≤ (lsaHeader lsah).length.toNat) {k : LsaKey}
    (other : k ≠ (lsaHeader lsah).key) :
    lsaListFind ((receiveLsa stub net desc st lsah).lsdb k.type) k =
      lsaListFind (st.lsdb k.type) k := by
  rw [lsdb_receiveLsa]
  split
  · rename_i pass
    by_cases side : k.type = 5 ↔ (lsaHeader lsah).type = 5
    · have here : st.lsdb k.type = st.lsdb (lsaHeader lsah).type := by
        unfold RxState.lsdb
        exact if_congr side rfl rfl
      rw [lsdb_setLsdb_of_iff st _ side,
        lsaListFind_installLsa_ne net desc _ (sized pass) other, here]
    · rw [lsdb_setLsdb_of_not_iff st _ side]
  · rfl

theorem sender_eq_some {r : Router} {desc : PacketDesc} {area : Area} {net : Network}
    {nb : Neighbor} (found : sender r desc = some (area, net, nb)) :
    r.area desc.areaId = some area ∧ networkFindIp area desc.ipSource = some net ∧
      neighborFind net desc.ipSource = some nb := by
  simp only [sender, Option.bind_eq_bind, Option.bind_eq_some_iff, Option.pure_def,
    Option.some.injEq, Prod.mk.injEq] at found
  obtain ⟨a, harea, n, hnet, b, hnb, rfl, rfl, rfl⟩ := found
  exact ⟨harea, hnet, hnb⟩

/-- A packet is dropped, or its loop runs on the lists of the sender's area; Loading
ends when the loop leaves no request. -/
theorem lsupdateRx_events (r : Router) (pkt : UpdatePacket) (desc : PacketDesc) :
    (lsupdateRx r pkt desc).1 = r ∧ (lsupdateRx r pkt desc).2.loadingDone = false ∨
      ∃ area net nb, sender r desc = some (area, net, nb) ∧
        (lsupdateRx r pkt desc).1 =
          rxStore r area desc (rxLoop r area net nb desc pkt.lsas) ∧
        packetEvents r pkt desc =
          loopEvents area.stub net desc (rxStart r area nb) pkt.lsas ∧
        ((lsupdateRx r pkt desc).2.loadingDone = true →
          (rxLoop r area net nb desc pkt.lsas).lsreq = []) := by
  unfold lsupdateRx packetEvents
  split
  · cases hsender : sender r desc with
    | none => exact .inl ⟨rfl, rfl⟩
    | some found =>
      obtain ⟨area, net, nb⟩ := found
      dsimp only
      split
      · exact .inl ⟨rfl, rfl⟩
      · refine .inr ⟨area, net, nb, rfl, rfl, rfl, fun done => ?_⟩
        simp only [Bool.and_eq_true, List.isEmpty_iff] at done
        exact done.2
  · split
    · exact .inl ⟨rfl, rfl⟩
    · exact .inl ⟨rfl, rfl⟩

theorem lsupdateRx_cases (r : Router) (pkt : UpdatePacket) (desc : PacketDesc) :
    (lsupdateRx r pkt desc).1 = r ∨
      ∃ area net nb, sender r desc = some (area, net, nb) ∧
        (lsupdateRx r pkt desc).1 =
          rxStore r area desc (rxLoop r area net nb desc pkt.lsas) := by
  rcases lsupdateRx_events r pkt desc with ⟨kept, _⟩ | ⟨area, net, nb, found, after, _⟩
  · exact .inl kept
  · exact .inr ⟨area, net, nb, found, after⟩

end LsUpdate
