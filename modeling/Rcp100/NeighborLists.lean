import Rcp100.DrElection
import Rcp100.Exchange
import Rcp100.LsaAging

/-!
# The lists of a neighbor

A neighbor carries the summary of the database that is still to be described to it, the
requests that are still to be answered by it, and the advertisements it has not
acknowledged. This module follows the three lists through the neighbor state machine, the
reception of packets, flooding, and the election of the Designated Router.

A neighbor is named by the positions of its area, its network and itself. What changes
the database only (origination, aging) is a step of its own, which may stand between any
two others. Packets that leave the router, the queues of flooding, timers and log lines
are left out.
-/

namespace NeighborLists

open LsaFormat LsUpdate Flooding Exchange Retransmission
open LsaAging (txPasses txNetworks)

/-- `OspfNeighbor`: the part that the exchange uses, and the rest. -/
structure OspfNeighbor extends Exchange.Nb where
  ip : BitVec 32
  routerId : BitVec 32
  priority : BitVec 8
  designatedRouter : BitVec 32
  backupRouter : BitVec 32
  adjPosponed : Bool
  rxmtList : List OspfLsa
  rxmtListTimer : Int

structure OspfNetwork where
  ip : BitVec 32
  mask : BitVec 32
  vlink : Bool
  routerId : BitVec 32
  state : NetState
  routerPriority : BitVec 8
  designatedRouter : BitVec 32
  backupRouter : BitVec 32
  rxtmInterval : Int
  neighbor : List OspfNeighbor

structure OspfArea where
  stub : Bool
  list : List OspfLsa
  network : List OspfNetwork

/-- The process: the configured router identifier, the areas, and the external
advertisements. -/
structure Ospf where
  ospfRouterId : BitVec 32
  area : List OspfArea
  extlist : List OspfLsa

/-- A neighbor by its positions. -/
structure Place where
  area : Nat
  net : Nat
  nb : Nat
  deriving DecidableEq

/-- The neighbor as flooding and the reception of updates see it. -/
def OspfNeighbor.view (nb : OspfNeighbor) : Neighbor where
  ip := nb.ip
  state := nb.state
  lsreq := nb.lsreq
  rxmtList := nb.rxmtList
  rxmtListTimer := nb.rxmtListTimer

def OspfNetwork.view (net : OspfNetwork) : Network where
  ip := net.ip
  mask := net.mask
  state := net.state
  designatedRouter := net.designatedRouter
  backupRouter := net.backupRouter
  neighbor := net.neighbor.map OspfNeighbor.view
  rxtmInterval := net.rxtmInterval

/-- The neighbor as the election sees it. -/
def OspfNeighbor.candidate (nb : OspfNeighbor) : DrElection.OspfNeighbor where
  ip := nb.ip
  routerId := nb.routerId
  state := nb.state
  priority := nb.priority
  designatedRouter := nb.designatedRouter
  backupRouter := nb.backupRouter

def OspfNetwork.contest (ospfRouterId : BitVec 32) (net : OspfNetwork) :
    DrElection.OspfNetwork where
  ip := net.ip
  routerPriority := net.routerPriority
  designatedRouter := net.designatedRouter
  backupRouter := net.backupRouter
  neighbor := net.neighbor.map OspfNeighbor.candidate
  ospfRouterId := ospfRouterId

def OspfNetwork.modifyNb (net : OspfNetwork) (b : Nat) (f : OspfNeighbor → OspfNeighbor) :
    OspfNetwork :=
  { net with neighbor := net.neighbor.modify b f }

namespace Ospf

def modifyArea (s : Ospf) (a : Nat) (f : OspfArea → OspfArea) : Ospf :=
  { s with area := s.area.modify a f }

def modifyNetwork (s : Ospf) (a n : Nat) (f : OspfArea → OspfNetwork → OspfNetwork) : Ospf :=
  s.modifyArea a (fun area => { area with network := area.network.modify n (f area) })

def modifyNeighbor (s : Ospf) (p : Place)
    (f : OspfArea → OspfNetwork → OspfNeighbor → OspfNeighbor) : Ospf :=
  s.modifyNetwork p.area p.net (fun area net => net.modifyNb p.nb (f area net))

def setLsdb (s : Ospf) (a : Nat) (list extlist : List OspfLsa) : Ospf :=
  { s with
    area := s.area.modify a (fun area => { area with list := list })
    extlist := extlist }

def netAt (s : Ospf) (a n : Nat) : Option OspfNetwork :=
  (s.area[a]?).bind (fun area => area.network[n]?)

/-- Area, network and neighbor. -/
def find (s : Ospf) (p : Place) : Option (OspfArea × OspfNetwork × OspfNeighbor) := do
  let area ← s.area[p.area]?
  let net ← area.network[p.net]?
  let nb ← net.neighbor[p.nb]?
  return (area, net, nb)

end Ospf

/-- The neighbor's turn in the loop at the end of `lsa_tx_network`. -/
def retain (net : OspfNetwork) (lsa : OspfLsa) (nb : OspfNeighbor) : OspfNeighbor :=
  let added := rxmtAdd net.view lsa nb.view
  { nb with rxmtList := added.rxmtList, rxmtListTimer := added.rxmtListTimer }

/-- `lsa_tx_network`, behind the test of `tx_area`. -/
def lsaTxNetwork (lsa : OspfLsa) (net : OspfNetwork) : OspfNetwork :=
  if txPasses net.view lsa && passes net.view lsa then
    { net with neighbor := net.neighbor.map (retain net lsa) }
  else net

def txArea (lsa : OspfLsa) (area : OspfArea) : OspfArea :=
  { area with network := area.network.map (lsaTxNetwork lsa) }

def lsadbFlood (s : Ospf) (lsa : OspfLsa) (a : Nat) : Ospf :=
  if lsa.header.type ≠ 5 then s.modifyArea a (txArea lsa)
  else { s with area := s.area.map (fun area => if area.stub then area else txArea lsa area) }

/-- The first advertisement that passes the test is flooded with `MaxAge` and removed. -/
def ageRemove (s : Ospf) (a : Nat) (test : OspfLsa → Bool) : Ospf :=
  match (s.area[a]?).bind (fun area => area.list.find? test) with
  | none => s
  | some lsa =>
    (lsadbFlood s (lsa.setAge maxAge) a).modifyArea a
      (fun area => { area with list := area.list.eraseP test })

/-- The router advertisement of the neighbor. -/
def isRouterLsa (nbRouterId : BitVec 32) (lsa : OspfLsa) : Bool :=
  lsa.key = ⟨1, nbRouterId, nbRouterId⟩

/-- A network advertisement of the neighbor for the network; the mask follows the
header. -/
def isNetworkLsa (nbRouterId : BitVec 32) (net : OspfNetwork) (lsa : OspfLsa) : Bool :=
  lsa.header.type = 2 && lsa.header.advRouter = nbRouterId &&
    lsa.header.linkStateId &&& lsa.memory.get32 20 = net.ip &&& net.mask

def lsadbAgeRemoveNeighbor (s : Ospf) (nbRouterId : BitVec 32) (a : Nat) : Ospf :=
  ageRemove s a (isRouterLsa nbRouterId)

def lsadbAgeRemoveNeighborNetwork (s : Ospf) (nbRouterId : BitVec 32) (net : OspfNetwork)
    (a : Nat) : Ospf :=
  ageRemove s a (isNetworkLsa nbRouterId net)

/-- The three lists are emptied. -/
def removeLists (nb : OspfNeighbor) : OspfNeighbor :=
  { nb with ddsum := [], lsreq := [], rxmtList := [], rxmtListTimer := 0 }

/-- `clear_lsa`: the lists are emptied, and then what the neighbor has originated is
flooded with `MaxAge`. -/
def clearLsa (s : Ospf) (p : Place) : Ospf :=
  match s.find p with
  | none => s
  | some (_, net, nb) =>
    lsadbAgeRemoveNeighborNetwork
      (lsadbAgeRemoveNeighbor (s.modifyNeighbor p (fun _ _ => removeLists)) nb.routerId p.area)
      nb.routerId net p.area

def setState (state : NState) (nb : OspfNeighbor) : OspfNeighbor := { nb with state := state }

/-- `clean_neighbor`, up to the call of `clear_lsa`. -/
def resetNeighbor (nb : OspfNeighbor) : OspfNeighbor :=
  { nb with
    state := .down
    master := false
    ddSeqNumber := 0
    priority := 0
    designatedRouter := 0
    backupRouter := 0
    adjPosponed := false
    lastDdPkt := none }

def cleanNeighbor (s : Ospf) (p : Place) : Ospf :=
  clearLsa (s.modifyNeighbor p (fun _ _ => resetNeighbor)) p

def becomeAdjacent (net : OspfNetwork) (nb : OspfNeighbor) : Bool :=
  net.vlink || (nb.ip = net.designatedRouter || nb.ip = net.backupRouter) ||
    (net.ip = net.designatedRouter || net.ip = net.backupRouter)

/-- What the exchange with a neighbor reads of the router. -/
def sideOf (area : OspfArea) (net : OspfNetwork) (nb : OspfNeighbor) (snapshot : Snapshot) :
    Side where
  routerId := net.routerId
  nbRouterId := nb.routerId
  stub := area.stub
  snapshot := snapshot

/-- ExStart is entered and `start_adj` called; the database is not read. -/
def enterExStart (area : OspfArea) (net : OspfNetwork) (time : BitVec 32) (nb : OspfNeighbor) :
    OspfNeighbor :=
  { nb with
    toNb := (startAdj (sideOf area net nb ⟨[], by decide⟩) time
      { nb.toNb with state := .exStart }).1 }

def nfsmHelloReceived (nb : OspfNeighbor) : OspfNeighbor :=
  if nb.state = .attempt ∨ nb.state = .down then setState .init nb else nb

def nfsm2WayReceived (time : BitVec 32) (area : OspfArea) (net : OspfNetwork) (nb : OspfNeighbor) :
    OspfNeighbor :=
  if nb.state = .init && !becomeAdjacent net nb then setState .twoWay nb
  else if nb.state = .init && becomeAdjacent net nb then enterExStart area net time nb
  else nb

/-- The neighbor in the state in which a packet is processed: from Init it may enter ExStart. -/
def entered (time : BitVec 32) (area : OspfArea) (net : OspfNetwork) (nb : OspfNeighbor) :
    OspfNeighbor :=
  if nb.state = .init then nfsm2WayReceived time area net nb else nb

/-- The packet falls through from Init to ExStart. A mismatch empties the list of
retransmissions too. -/
def dbdescRx (snapshot : Snapshot) (now : Now) (pkt : DdPacket) (area : OspfArea)
    (net : OspfNetwork) (nb : OspfNeighbor) : OspfNeighbor :=
  let nb := entered now.time area net nb
  let r := Exchange.dbdescRx (sideOf area net nb snapshot) now nb.toNb pkt
  let nb := { nb with toNb := r.nb }
  if r.mismatch then { nb with rxmtList := [], rxmtListTimer := 0 } else nb

def nfsmSeqNumberMismatch (time : BitVec 32) (area : OspfArea) (net : OspfNetwork)
    (nb : OspfNeighbor) : OspfNeighbor :=
  if NState.exchange.code ≤ nb.state.code then
    { nb with
      toNb := (Exchange.nfsmSeqNumberMismatch (sideOf area net nb ⟨[], by decide⟩) time nb.toNb).nb
      rxmtList := []
      rxmtListTimer := 0 }
  else nb

/-- A request for an advertisement that is not in the database. -/
def nfsmBadLSReq (time : BitVec 32) (area : OspfArea) (net : OspfNetwork) (nb : OspfNeighbor) :
    OspfNeighbor :=
  nfsmSeqNumberMismatch time area net nb

def nfsmLoadingDone (nb : OspfNeighbor) : OspfNeighbor :=
  if nb.state = .loading then setState .full nb else nb

/-- The end of `lsupdateRx`. -/
def loadingDoneIf (nb : OspfNeighbor) : OspfNeighbor :=
  if nb.state = .loading && nb.lsreq.isEmpty then nfsmLoadingDone nb else nb

/-- The update was sent by the neighbor. The loop over its advertisements changes the
database and two lists of the neighbor. -/
def lsupdateRx (s : Ospf) (p : Place) (pkt : UpdatePacket) (desc : PacketDesc) : Ospf :=
  match s.find p with
  | none => s
  | some (area, net, nb) =>
    if pkt.held && NState.exchange.code ≤ nb.state.code then
      let st := pkt.lsas.foldl (receiveLsa area.stub net.view desc)
        ⟨nb.lsreq, area.list, s.extlist, nb.rxmtList, []⟩
      (s.modifyNeighbor p (fun _ _ nb =>
        loadingDoneIf { nb with lsreq := st.lsreq, rxmtList := st.rxmtList })).setLsdb
          p.area st.list st.extlist
    else s

def lsackRx (pkt : AckPacket) (nb : OspfNeighbor) : OspfNeighbor :=
  if pkt.cnt = 0 ∨ pkt.size % 20 ≠ 0 then nb
  else { nb with rxmtList := ackLoop nb.state nb.rxmtList pkt.headers }

/-- `OSPF_NB_ADJ_MAX`. -/
def ospfNbAdjMax : Nat := 4

def synchronizing (nb : OspfNeighbor) : Bool :=
  nb.state = .exStart || nb.state = .exchange || nb.state = .loading

/-- The adjacency is destroyed by the event AdjOK. -/
def tearsDown (net : OspfNetwork) (nb : OspfNeighbor) : Bool :=
  NState.exStart.code ≤ nb.state.code && !becomeAdjacent net nb

/-- When an adjacency is destroyed, the state changes after `clear_lsa`. -/
def nfsmAdjOK (time : BitVec 32) (s : Ospf) (p : Place) : Ospf :=
  match s.find p with
  | none => s
  | some (_, net, nb) =>
    if nb.state = .twoWay && becomeAdjacent net nb then
      if ospfNbAdjMax ≤ net.neighbor.countP synchronizing then
        s.modifyNeighbor p (fun _ _ nb => { nb with adjPosponed := true })
      else
        s.modifyNeighbor p (fun area net nb =>
          enterExStart area net time { nb with adjPosponed := false })
    else if tearsDown net nb then (clearLsa s p).modifyNeighbor p (fun _ _ => setState .twoWay)
    else s

/-- The loop at the end of `drbdrElection`. -/
def adjOkAll (time : BitVec 32) (a n : Nat) : List Nat → Ospf → Ospf
  | [], s => s
  | b :: rest, s =>
    let bidirectional := (s.find ⟨a, n, b⟩).any
      (fun found => NState.twoWay.code ≤ found.2.2.state.code)
    adjOkAll time a n rest (if bidirectional then nfsmAdjOK time s ⟨a, n, b⟩ else s)

/-- The network with the routers that the election leaves in it. -/
def elected (ospfRouterId : BitVec 32) (net : OspfNetwork) : OspfNetwork :=
  let winners := DrElection.drbdrElection (net.contest ospfRouterId)
  { net with designatedRouter := winners.1, backupRouter := winners.2 }

def changed (net net' : OspfNetwork) : Bool :=
  net'.designatedRouter ≠ net.designatedRouter || net'.backupRouter ≠ net.backupRouter

/-- The election with the event AdjOK for the neighbors; the state of the network is still
the old one. -/
def drbdrElection (time : BitVec 32) (s : Ospf) (a n : Nat) : Ospf :=
  match s.netAt a n with
  | none => s
  | some net =>
    let s' := s.modifyNetwork a n (fun _ => elected s.ospfRouterId)
    if changed net (elected s.ospfRouterId net) then
      adjOkAll time a n (List.range net.neighbor.length) s'
    else s'

/-- The state of the network after an election. -/
def settle (net : OspfNetwork) : OspfNetwork :=
  { net with
    state :=
      if net.ip = net.designatedRouter then .dr
      else if net.ip = net.backupRouter then .backup
      else .drOther }

/-- The events of the network that lead to an election, from one of the states. -/
def electIn (states : List NetState) (time : BitVec 32) (s : Ospf) (a n : Nat) : Ospf :=
  match s.netAt a n with
  | none => s
  | some net =>
    if net.state ∈ states then
      (drbdrElection time s a n).modifyNetwork a n (fun _ => settle)
    else s

def netfsmWaitTimer (time : BitVec 32) (s : Ospf) (a n : Nat) : Ospf :=
  electIn [.waiting] time s a n

def netfsmBackupSeen (time : BitVec 32) (s : Ospf) (a n : Nat) : Ospf :=
  electIn [.waiting] time s a n

def netfsmNeighborChange (time : BitVec 32) (s : Ospf) (a n : Nat) : Ospf :=
  electIn [.dr, .backup, .drOther] time s a n

/-- The state is Waiting for every type: only the first statement after the `else` belongs
to it. -/
def netfsmInterfaceUp (net : OspfNetwork) : OspfNetwork :=
  if net.state = .down then { net with state := .waiting } else net

def neighborRemove (s : Ospf) (p : Place) : Ospf :=
  s.modifyNetwork p.area p.net (fun _ net => { net with neighbor := net.neighbor.eraseIdx p.nb })

def nfsm1Way (s : Ospf) (p : Place) : Ospf :=
  match s.find p with
  | none => s
  | some (_, _, nb) =>
    if NState.twoWay.code ≤ nb.state.code then
      clearLsa (s.modifyNeighbor p (fun _ _ => setState .init)) p
    else s

def nfsmKillNbr (time : BitVec 32) (s : Ospf) (p : Place) : Ospf :=
  netfsmNeighborChange time (neighborRemove (cleanNeighbor s p) p) p.area p.net

/-- The neighbor of a virtual link stays. -/
def nfsmInactivityTimer (time : BitVec 32) (s : Ospf) (p : Place) : Ospf :=
  if (s.netAt p.area p.net).any (·.vlink) then cleanNeighbor s p
  else nfsmKillNbr time s p

/-- The neighbors are killed from the first one on. -/
def killAll (time : BitVec 32) (a n : Nat) : Nat → Ospf → Ospf
  | 0, s => s
  | k+1, s => killAll time a n k (nfsmKillNbr time s ⟨a, n, 0⟩)

def goDown (net : OspfNetwork) : OspfNetwork :=
  { net with state := .down, designatedRouter := 0, backupRouter := 0 }

def netfsmInterfaceDown (time : BitVec 32) (s : Ospf) (a n : Nat) : Ospf :=
  match s.netAt a n with
  | none => s
  | some net =>
    killAll time a n net.neighbor.length (s.modifyNetwork a n (fun _ => goDown))

/-- The zeroed memory of a new neighbor. -/
def newNeighbor (ip routerId : BitVec 32) : OspfNeighbor where
  state := .down
  master := false
  options := 0
  ddSeqNumber := 0
  more0sent := false
  ddsum := []
  lsreq := []
  lastDdPkt := none
  examined := []
  ip := ip
  routerId := routerId
  priority := 0
  designatedRouter := 0
  backupRouter := 0
  adjPosponed := false
  rxmtList := []
  rxmtListTimer := 0

def neighborAdd (nb : OspfNeighbor) (net : OspfNetwork) : OspfNetwork :=
  if net.neighbor.any (fun other => nb.ip = other.ip) then net
  else { net with neighbor := nb :: net.neighbor }

/-- What a Hello packet declares. -/
def declare (priority : BitVec 8) (designatedRouter backupRouter : BitVec 32) (nb : OspfNeighbor) :
    OspfNeighbor :=
  { nb with
    priority := priority
    designatedRouter := designatedRouter
    backupRouter := backupRouter }

/-- The timer takes up an adjacency that was put off; the count that decides when is left
open. -/
def resumeAdj (time : BitVec 32) (s : Ospf) (p : Place) : Ospf :=
  match s.find p with
  | none => s
  | some (_, _, nb) =>
    if nb.adjPosponed then
      nfsmAdjOK time (s.modifyNeighbor p (fun _ _ nb => { nb with adjPosponed := false })) p
    else s

inductive Event where
  | interfaceUp (a n : Nat)
  | interfaceDown (a n : Nat) (time : BitVec 32)
  | waitTimer (a n : Nat) (time : BitVec 32)
  | backupSeen (a n : Nat) (time : BitVec 32)
  | neighborChange (a n : Nat) (time : BitVec 32)
  | addNeighbor (a n : Nat) (ip routerId : BitVec 32)
  | hello (p : Place) (priority : BitVec 8) (designatedRouter backupRouter : BitVec 32)
  | twoWayReceived (p : Place) (time : BitVec 32)
  | oneWay (p : Place)
  | dbdesc (p : Place) (snapshot : Snapshot) (now : Now) (pkt : DdPacket)
  | lsupdate (p : Place) (pkt : UpdatePacket) (desc : PacketDesc)
  | badLSReq (p : Place) (time : BitVec 32)
  | lsack (p : Place) (pkt : AckPacket)
  | adjOK (p : Place) (time : BitVec 32)
  | resumeAdj (p : Place) (time : BitVec 32)
  | killNbr (p : Place) (time : BitVec 32)
  | inactivityTimer (p : Place) (time : BitVec 32)
  | flood (lsa : OspfLsa) (a : Nat)
  | lsadb (a : Nat) (list extlist : List OspfLsa)

def step (s : Ospf) : Event → Ospf
  | .interfaceUp a n => s.modifyNetwork a n (fun _ => netfsmInterfaceUp)
  | .interfaceDown a n time => netfsmInterfaceDown time s a n
  | .waitTimer a n time => netfsmWaitTimer time s a n
  | .backupSeen a n time => netfsmBackupSeen time s a n
  | .neighborChange a n time => netfsmNeighborChange time s a n
  | .addNeighbor a n ip routerId =>
    s.modifyNetwork a n (fun _ => neighborAdd (newNeighbor ip routerId))
  | .hello p priority dr bdr =>
    s.modifyNeighbor p (fun _ _ nb => nfsmHelloReceived (declare priority dr bdr nb))
  | .twoWayReceived p time => s.modifyNeighbor p (nfsm2WayReceived time)
  | .oneWay p => nfsm1Way s p
  | .dbdesc p snapshot now pkt => s.modifyNeighbor p (dbdescRx snapshot now pkt)
  | .lsupdate p pkt desc => lsupdateRx s p pkt desc
  | .badLSReq p time => s.modifyNeighbor p (nfsmBadLSReq time)
  | .lsack p pkt => s.modifyNeighbor p (fun _ _ => lsackRx pkt)
  | .adjOK p time => nfsmAdjOK time s p
  | .resumeAdj p time => resumeAdj time s p
  | .killNbr p time => nfsmKillNbr time s p
  | .inactivityTimer p time => nfsmInactivityTimer time s p
  | .flood lsa a => lsadbFlood s lsa a
  | .lsadb a list extlist => s.setLsdb a list extlist

def run (s : Ospf) (events : List Event) : Ospf := events.foldl step s

/-- The advertisement, flooded with `MaxAge`, enters the neighbor's list. -/
def reaches (net : OspfNetwork) (nb : OspfNeighbor) (lsa : OspfLsa) : Bool :=
  txPasses net.view (lsa.setAge maxAge) && passes net.view (lsa.setAge maxAge) &&
    floodsTo net.view nb.view

/-- The advertisements that `clear_lsa` takes out of the database. -/
def withdrawn (area : OspfArea) (net : OspfNetwork) (nb : OspfNeighbor) : List OspfLsa :=
  (area.list.find? (isRouterLsa nb.routerId)).toList ++
    (area.list.find? (isNetworkLsa nb.routerId net)).toList

/-- If AdjOK destroys the adjacency, nothing that `clear_lsa` withdraws comes back to the
neighbor. -/
def adjOkMeets (s : Ospf) (p : Place) : Bool :=
  match s.find p with
  | none => true
  | some (area, net, nb) => !(tearsDown net nb && (withdrawn area net nb).any (reaches net nb))

/-- Every call in the loop of the election, in the state in which it is made. -/
def adjOkAllMeets (time : BitVec 32) (a n : Nat) : List Nat → Ospf → Bool
  | [], _ => true
  | b :: rest, s =>
    let bidirectional := (s.find ⟨a, n, b⟩).any
      (fun found => NState.twoWay.code ≤ found.2.2.state.code)
    adjOkMeets s ⟨a, n, b⟩ &&
      adjOkAllMeets time a n rest (if bidirectional then nfsmAdjOK time s ⟨a, n, b⟩ else s)

def electMeets (states : List NetState) (time : BitVec 32) (s : Ospf) (a n : Nat) : Bool :=
  match s.netAt a n with
  | none => true
  | some net =>
    !(net.state ∈ states && changed net (elected s.ospfRouterId net)) ||
      adjOkAllMeets time a n (List.range net.neighbor.length)
        (s.modifyNetwork a n (fun _ => elected s.ospfRouterId))

def killMeets (time : BitVec 32) (s : Ospf) (p : Place) : Bool :=
  electMeets [.dr, .backup, .drOther] time (neighborRemove (cleanNeighbor s p) p) p.area p.net

/-- The condition on a step: no AdjOK in it has its `clear_lsa` undone. -/
def meets (s : Ospf) : Event → Bool
  | .waitTimer a n time => electMeets [.waiting] time s a n
  | .backupSeen a n time => electMeets [.waiting] time s a n
  | .neighborChange a n time => electMeets [.dr, .backup, .drOther] time s a n
  | .adjOK p _ => adjOkMeets s p
  | .resumeAdj p _ =>
    adjOkMeets (s.modifyNeighbor p (fun _ _ nb => { nb with adjPosponed := false })) p
  | .killNbr p time => killMeets time s p
  | .inactivityTimer p time =>
    (s.netAt p.area p.net).any (·.vlink) || killMeets time s p
  | _ => true

def meetsAll (s : Ospf) : List Event → Bool
  | [] => true
  | e :: rest => meets s e && meetsAll (step s e) rest

/-- No neighbor has been heard of. -/
def Unheard (s : Ospf) : Prop := ∀ area ∈ s.area, ∀ net ∈ area.network, net.neighbor = []

/-- The lists match the state of the neighbor. -/
structure ListsMatch (nb : OspfNeighbor) : Prop where
  summary : nb.ddsum ≠ [] → nb.state = .exchange
  requests : nb.lsreq ≠ [] → nb.state = .exchange ∨ nb.state = .loading
  retransmissions : nb.rxmtList ≠ [] → NState.exStart.code ≤ nb.state.code

/-- The master has described everything when it has sent a packet without the bit M. -/
structure Kept (nb : OspfNeighbor) : Prop extends ListsMatch nb where
  allSent : nb.more0sent = true → nb.state = .exchange → nb.ddsum = []

def All (P : OspfNeighbor → Prop) (s : Ospf) : Prop :=
  ∀ area ∈ s.area, ∀ net ∈ area.network, ∀ nb ∈ net.neighbor, P nb

/-- A property of the neighbors that may depend on the kind of their area. -/
def AllIn (Q : Bool → OspfNeighbor → Prop) (s : Ospf) : Prop :=
  ∀ area ∈ s.area, ∀ net ∈ area.network, ∀ nb ∈ net.neighbor, Q area.stub nb

section Positions

variable {s : Ospf} {P : OspfNeighbor → Prop} {Q : Bool → OspfNeighbor → Prop} {p : Place}
  {area : OspfArea} {net : OspfNetwork} {nb : OspfNeighbor}

theorem mem_modify {α : Type} {list : List α} {i : Nat} {f : α → α} {x : α}
    (member : x ∈ list.modify i f) : x ∈ list ∨ ∃ y, list[i]? = some y ∧ x = f y := by
  obtain ⟨j, found⟩ := List.mem_iff_getElem?.mp member
  rw [List.getElem?_modify] at found
  by_cases here : i = j
  · subst here
    obtain ⟨y, stands, rfl⟩ := Option.map_eq_some_iff.mp (by simpa using found)
    exact .inr ⟨y, stands, rfl⟩
  · exact .inl (List.mem_of_getElem? (by simpa [here] using found))

theorem find_eq_some : s.find p = some (area, net, nb) ↔
    s.area[p.area]? = some area ∧ area.network[p.net]? = some net ∧
      net.neighbor[p.nb]? = some nb := by
  constructor
  · intro found
    simp only [Ospf.find, Option.bind_eq_bind, Option.bind_eq_some_iff] at found
    obtain ⟨area', hasArea, net', hasNet, nb', hasNb, same⟩ := found
    cases same
    exact ⟨hasArea, hasNet, hasNb⟩
  · rintro ⟨hasArea, hasNet, hasNb⟩
    simp [Ospf.find, hasArea, hasNet, hasNb]

variable {a : Nat} {f : OspfArea → OspfNetwork → OspfNeighbor → OspfNeighbor}

theorem AllIn.modifyArea {f : OspfArea → OspfArea} (all : AllIn Q s)
    (keeps : ∀ area, s.area[a]? = some area →
      (∀ net ∈ area.network, ∀ nb ∈ net.neighbor, Q area.stub nb) →
      ∀ net ∈ (f area).network, ∀ nb ∈ net.neighbor, Q (f area).stub nb) :
    AllIn Q (s.modifyArea a f) := by
  intro area member
  rcases mem_modify member with old | ⟨before, stands, rfl⟩
  · exact all area old
  · exact keeps before stands (all before (List.mem_of_getElem? stands))

theorem AllIn.modifyNetwork {n : Nat} {f : OspfArea → OspfNetwork → OspfNetwork}
    (all : AllIn Q s)
    (keeps : ∀ area net, s.area[a]? = some area → area.network[n]? = some net →
      (∀ nb ∈ net.neighbor, Q area.stub nb) → ∀ nb ∈ (f area net).neighbor, Q area.stub nb) :
    AllIn Q (s.modifyNetwork a n f) := by
  refine all.modifyArea ?_
  intro area hasArea old net member
  rcases mem_modify member with unchanged | ⟨before, hasNet, rfl⟩
  · exact old net unchanged
  · exact keeps area before hasArea hasNet (old before (List.mem_of_getElem? hasNet))

theorem AllIn.modifyNeighbor (all : AllIn Q s)
    (keeps : ∀ area net nb, s.find p = some (area, net, nb) → Q area.stub nb →
      Q area.stub (f area net nb)) : AllIn Q (s.modifyNeighbor p f) := by
  refine all.modifyNetwork ?_
  intro area net hasArea hasNet old nb member
  rcases mem_modify member with unchanged | ⟨before, hasNb, rfl⟩
  · exact old nb unchanged
  · exact keeps area net before (find_eq_some.mpr ⟨hasArea, hasNet, hasNb⟩)
      (old before (List.mem_of_getElem? hasNb))

theorem AllIn.setLsdb (all : AllIn Q s) (a : Nat) (list extlist : List OspfLsa) :
    AllIn Q (s.setLsdb a list extlist) :=
  AllIn.modifyArea (s := s) all (fun _ _ old => old)

theorem All.modifyNetwork {n : Nat} {f : OspfArea → OspfNetwork → OspfNetwork} (all : All P s)
    (keeps : ∀ area net, s.area[a]? = some area → area.network[n]? = some net →
      (∀ nb ∈ net.neighbor, P nb) → ∀ nb ∈ (f area net).neighbor, P nb) :
    All P (s.modifyNetwork a n f) :=
  AllIn.modifyNetwork (Q := fun _ => P) all keeps

theorem All.modifyNeighbor (all : All P s)
    (keeps : ∀ area net nb, s.find p = some (area, net, nb) → P nb → P (f area net nb)) :
    All P (s.modifyNeighbor p f) :=
  AllIn.modifyNeighbor (Q := fun _ => P) all keeps

theorem All.setLsdb (all : All P s) (a : Nat) (list extlist : List OspfLsa) :
    All P (s.setLsdb a list extlist) :=
  AllIn.setLsdb (Q := fun _ => P) all a list extlist

theorem find_modifyNeighbor (found : s.find p = some (area, net, nb)) :
    ∃ area', (s.modifyNeighbor p f).find p =
      some (area', net.modifyNb p.nb (f area net), f area net nb) ∧ area'.list = area.list := by
  obtain ⟨hasArea, hasNet, hasNb⟩ := find_eq_some.mp found
  let area' : OspfArea :=
    { area with network := area.network.modify p.net (fun net => net.modifyNb p.nb (f area net)) }
  have hasArea' : (s.modifyNeighbor p f).area[p.area]? = some area' := by
    simp only [Ospf.modifyNeighbor, Ospf.modifyNetwork, Ospf.modifyArea, List.getElem?_modify_eq,
      hasArea]
    rfl
  refine ⟨area', find_eq_some.mpr ⟨hasArea', ?_, ?_⟩, rfl⟩
  · simp [area', hasNet]
  · simp [OspfNetwork.modifyNb, hasNb]

end Positions

section Floods

variable {s : Ospf} {P : OspfNeighbor → Prop} {Q : Bool → OspfNeighbor → Prop} {p : Place}
  {area : OspfArea} {net : OspfNetwork} {nb : OspfNeighbor} {lsa : OspfLsa}

theorem forall_lsaTxNetwork (old : ∀ nb ∈ net.neighbor, P nb)
    (keeps : ∀ net nb, P nb → P (retain net lsa nb)) :
    ∀ nb ∈ (NeighborLists.lsaTxNetwork lsa net).neighbor, P nb := by
  unfold NeighborLists.lsaTxNetwork
  split
  · intro nb member
    obtain ⟨before, there, rfl⟩ := List.mem_map.mp member
    exact keeps net before (old before there)
  · exact old

theorem forall_txArea (old : ∀ net ∈ area.network, ∀ nb ∈ net.neighbor, P nb)
    (keeps : ∀ net nb, P nb → P (retain net lsa nb)) :
    ∀ net ∈ (NeighborLists.txArea lsa area).network, ∀ nb ∈ net.neighbor, P nb := by
  intro net member
  obtain ⟨before, there, rfl⟩ := List.mem_map.mp member
  exact forall_lsaTxNetwork (old before there) keeps

theorem AllIn.lsadbFlood (all : AllIn Q s)
    (keeps : ∀ stub net nb, Q stub nb → Q stub (retain net lsa nb)) (a : Nat) :
    AllIn Q (NeighborLists.lsadbFlood s lsa a) := by
  unfold NeighborLists.lsadbFlood
  split
  · exact all.modifyArea (fun area _ old => forall_txArea old (keeps area.stub))
  · intro area member
    obtain ⟨before, there, rfl⟩ := List.mem_map.mp member
    split
    · exact all before there
    · exact forall_txArea (all before there) (keeps before.stub)

theorem AllIn.ageRemove (all : AllIn Q s)
    (keeps : ∀ lsa stub net nb, Q stub nb → Q stub (retain net lsa nb)) (a : Nat)
    (test : OspfLsa → Bool) : AllIn Q (NeighborLists.ageRemove s a test) := by
  unfold NeighborLists.ageRemove
  split
  · exact all
  · exact (all.lsadbFlood (keeps _) a).modifyArea (fun _ _ old => old)

theorem AllIn.clearLsa (all : AllIn Q s)
    (keeps : ∀ lsa stub net nb, Q stub nb → Q stub (retain net lsa nb))
    (empties : ∀ stub nb, Q stub nb → Q stub (removeLists nb)) (p : Place) :
    AllIn Q (NeighborLists.clearLsa s p) := by
  unfold NeighborLists.clearLsa
  split
  · exact all
  · have emptied : AllIn Q (s.modifyNeighbor p (fun _ _ => removeLists)) :=
      all.modifyNeighbor (fun area _ nb _ => empties area.stub nb)
    exact (emptied.ageRemove keeps _ _).ageRemove keeps _ _

theorem All.lsadbFlood (all : All P s) (keeps : ∀ net nb, P nb → P (retain net lsa nb)) (a : Nat) :
    All P (NeighborLists.lsadbFlood s lsa a) :=
  AllIn.lsadbFlood (Q := fun _ => P) all (fun _ => keeps) a

theorem All.ageRemove (all : All P s) (keeps : ∀ lsa net nb, P nb → P (retain net lsa nb)) (a : Nat)
    (test : OspfLsa → Bool) : All P (NeighborLists.ageRemove s a test) :=
  AllIn.ageRemove (Q := fun _ => P) all (fun lsa _ => keeps lsa) a test

theorem All.clearLsa (all : All P s) (keeps : ∀ lsa net nb, P nb → P (retain net lsa nb))
    (empties : ∀ nb, P nb → P (removeLists nb)) (p : Place) :
    All P (NeighborLists.clearLsa s p) :=
  AllIn.clearLsa (Q := fun _ => P) all (fun lsa _ => keeps lsa) (fun _ => empties) p

end Floods

section Withdrawals

variable {s : Ospf} {p : Place} {area : OspfArea} {net net' : OspfNetwork} {nb : OspfNeighbor}
  {lsa : OspfLsa}

/-- Networks that flooding treats alike. -/
structure Alike (net net' : OspfNetwork) : Prop where
  ip : net'.ip = net.ip
  state : net'.state = net.state
  designatedRouter : net'.designatedRouter = net.designatedRouter
  backupRouter : net'.backupRouter = net.backupRouter
  neighbor : net'.neighbor.map (·.state) = net.neighbor.map (·.state)

theorem Alike.trans {net'' : OspfNetwork} (first : Alike net net') (second : Alike net' net'') :
    Alike net net'' where
  ip := second.ip.trans first.ip
  state := second.state.trans first.state
  designatedRouter := second.designatedRouter.trans first.designatedRouter
  backupRouter := second.backupRouter.trans first.backupRouter
  neighbor := second.neighbor.trans first.neighbor

theorem Alike.refl (net : OspfNetwork) : Alike net net := ⟨rfl, rfl, rfl, rfl, rfl⟩

theorem Alike.modifyNb {f : OspfNeighbor → OspfNeighbor} (b : Nat)
    (keeps : ∀ nb, (f nb).state = nb.state) : Alike net (net.modifyNb b f) := by
  refine ⟨rfl, rfl, rfl, rfl, ?_⟩
  apply List.ext_getElem?
  intro i
  simp only [OspfNetwork.modifyNb, List.getElem?_map, List.getElem?_modify]
  by_cases here : b = i
  · subst here
    cases net.neighbor[b]? with
    | none => rfl
    | some nb => simp [keeps]
  · simp [here]

theorem Alike.lsaTxNetwork (lsa : OspfLsa) (net : OspfNetwork) :
    Alike net (NeighborLists.lsaTxNetwork lsa net) := by
  unfold NeighborLists.lsaTxNetwork
  split
  · exact ⟨rfl, rfl, rfl, rfl, List.map_map⟩
  · exact Alike.refl net

theorem passes_alike (alike : Alike net net') (lsa : OspfLsa) :
    passes net'.view lsa = passes net.view lsa := by
  cases net with | mk _ _ _ _ _ _ _ _ _ list =>
  cases net' with | mk _ _ _ _ _ _ _ _ _ list' =>
  obtain ⟨rfl, rfl, rfl, rfl, states⟩ := alike
  unfold passes
  congr 3
  rcases list with _ | ⟨nb, _ | ⟨second, rest⟩⟩ <;>
    rcases list' with _ | ⟨nb', _ | ⟨second', rest'⟩⟩ <;>
    simp_all [OspfNetwork.view, OspfNeighbor.view]

theorem reaches_alike (alike : Alike net net') (nb : OspfNeighbor) (lsa : OspfLsa) :
    reaches net' nb lsa = reaches net nb lsa := by
  unfold reaches
  rw [passes_alike alike]
  cases net
  cases net'
  obtain ⟨rfl, rfl, rfl, rfl, -⟩ := alike
  rfl

theorem retain_unreached (unreached : floodsTo net.view nb.view = false) (lsa : OspfLsa) :
    retain net lsa nb = nb := by
  rw [retain, rxmtAdd, if_neg (by simp [unreached])]
  rfl

theorem getElem?_lsaTxNetwork {b : Nat} (stands : net.neighbor[b]? = some nb)
    (unreached : reaches net nb lsa = false) :
    (lsaTxNetwork (lsa.setAge maxAge) net).neighbor[b]? = some nb := by
  unfold lsaTxNetwork
  split
  · rename_i guards
    have low : floodsTo net.view nb.view = false := by
      simpa [reaches, (Bool.and_eq_true _ _).mp guards] using unreached
    simp [stands, retain_unreached low]
  · exact stands

theorem type_setAge (lsa : OspfLsa) (age : BitVec 16) :
    (lsa.setAge age).header.type = lsa.header.type :=
  congrArg LsaKey.type (OspfLsa.key_setAge lsa age)

theorem find_ageRemove {test : OspfLsa → Bool} (found : s.find p = some (area, net, nb))
    (harmless : ∀ lsa, area.list.find? test = some lsa →
      lsa.header.type ≠ 5 ∧ reaches net nb lsa = false) :
    ∃ area' net', (ageRemove s p.area test).find p = some (area', net', nb) ∧ Alike net net' ∧
      area'.list = area.list.eraseP test := by
  obtain ⟨hasArea, hasNet, hasNb⟩ := find_eq_some.mp found
  unfold ageRemove
  simp only [hasArea, Option.bind_some]
  split
  · rename_i absent
    refine ⟨area, net, found, Alike.refl net, ?_⟩
    exact (List.eraseP_of_forall_not (by simpa using absent)).symm
  · rename_i lsa present
    obtain ⟨inArea, unreached⟩ := harmless lsa present
    let area' : OspfArea :=
      { area with
        network := area.network.map (lsaTxNetwork (lsa.setAge maxAge))
        list := area.list.eraseP test }
    refine ⟨area', lsaTxNetwork (lsa.setAge maxAge) net, find_eq_some.mpr ⟨?_, ?_, ?_⟩,
      Alike.lsaTxNetwork _ net, rfl⟩
    · rw [lsadbFlood, if_pos (by rwa [type_setAge])]
      simp [Ospf.modifyArea, hasArea, txArea, area']
    · simp [area', hasNet]
    · exact getElem?_lsaTxNetwork hasNb unreached

end Withdrawals

section Clearing

variable {s : Ospf} {p : Place} {area : OspfArea} {net : OspfNetwork} {nb : OspfNeighbor}

theorem find?_eraseP {α : Type} {test other : α → Bool}
    (apart : ∀ x, test x = true → other x = false) (list : List α) :
    (list.eraseP test).find? other = list.find? other := by
  induction list with
  | nil => rfl
  | cons x rest ih =>
    by_cases goes : test x = true
    · simp [goes, apart x goes]
    · simp [goes, List.find?_cons, ih]

theorem isNetworkLsa_of_isRouterLsa {nbRouterId : BitVec 32} {lsa : OspfLsa}
    (isRouter : isRouterLsa nbRouterId lsa = true) (net : OspfNetwork) :
    isNetworkLsa nbRouterId net lsa = false := by
  have type : lsa.header.type = 1 := congrArg LsaKey.type (of_decide_eq_true isRouter)
  simp [isNetworkLsa, type]

/-- `clear_lsa` leaves the lists empty when nothing that it withdraws comes back. -/
theorem find_clearLsa (found : s.find p = some (area, net, nb))
    (harmless : ∀ lsa ∈ withdrawn area net nb, reaches net nb lsa = false) :
    ∃ area' net', (clearLsa s p).find p = some (area', net', removeLists nb) := by
  obtain ⟨area₁, found₁, list₁⟩ := find_modifyNeighbor (f := fun _ _ => removeLists) found
  have alike₁ : Alike net (net.modifyNb p.nb removeLists) := Alike.modifyNb p.nb (fun _ => rfl)
  have silent₁ : ∀ lsa, area₁.list.find? (isRouterLsa nb.routerId) = some lsa →
      lsa.header.type ≠ 5 ∧
        reaches (net.modifyNb p.nb removeLists) (removeLists nb) lsa = false := by
    intro lsa present
    rw [list₁] at present
    have isRouter : isRouterLsa nb.routerId lsa = true := List.find?_some present
    have type : lsa.header.type = 1 := congrArg LsaKey.type (of_decide_eq_true isRouter)
    refine ⟨by rw [type]; decide, ?_⟩
    rw [reaches_alike alike₁]
    exact harmless lsa (List.mem_append_left _ (by simp [present]))
  obtain ⟨area₂, net₂, found₂, alike₂, list₂⟩ := find_ageRemove found₁ silent₁
  have silent₂ : ∀ lsa, area₂.list.find? (isNetworkLsa nb.routerId net) = some lsa →
      lsa.header.type ≠ 5 ∧ reaches net₂ (removeLists nb) lsa = false := by
    intro lsa present
    rw [list₂, list₁, find?_eraseP (fun _ isRouter => isNetworkLsa_of_isRouterLsa isRouter net)]
      at present
    have isNetwork : isNetworkLsa nb.routerId net lsa = true := List.find?_some present
    have type : lsa.header.type = 2 := by
      simp only [isNetworkLsa, Bool.and_eq_true, decide_eq_true_eq] at isNetwork
      exact isNetwork.1.1
    refine ⟨by rw [type]; decide, ?_⟩
    rw [reaches_alike (alike₁.trans alike₂)]
    exact harmless lsa (List.mem_append_right _ (by simp [present]))
  obtain ⟨area₃, net₃, found₃, -, -⟩ := find_ageRemove found₂ silent₂
  refine ⟨area₃, net₃, ?_⟩
  rw [clearLsa, found]
  exact found₃

end Clearing

section Exchanging

/-- What the exchange keeps of a neighbor that is at least in ExStart. -/
structure DdKept (nb : Nb) : Prop where
  adjacent : NState.exStart.code ≤ nb.state.code
  summary : nb.ddsum ≠ [] → nb.state = .exchange
  requests : nb.lsreq ≠ [] → nb.state = .exchange ∨ nb.state = .loading
  allSent : nb.more0sent = true → nb.state = .exchange → nb.ddsum = []

/-- A neighbor in Exchange: only the end of the summary list is watched. -/
structure Exchanging (nb : Nb) : Prop where
  state : nb.state = .exchange
  allSent : nb.more0sent = true → nb.ddsum = []

variable {side : Side} {nb : Nb}

theorem describe_nil_iff (ddsum : List Entry) (room : Nat) :
    (describe ddsum room).1 = [] ↔ ddsum = [] := by
  fun_cases describe ddsum room <;> simp

theorem Exchanging.kept (exchanging : Exchanging nb) : DdKept nb where
  adjacent := by rw [exchanging.state]; decide
  summary := fun _ => exchanging.state
  requests := fun _ => .inl exchanging.state
  allSent := fun sent _ => exchanging.allSent sent

theorem Exchanging.dbdescBuildPkt (exchanging : Exchanging nb) (fields : Fields) :
    Exchanging (dbdescBuildPkt side nb fields).1 where
  state := exchanging.state
  allSent := by
    intro sent
    simp only [Exchange.dbdescBuildPkt, exchanging.state, if_true]
    exact (describe_nil_iff _ _).mpr (exchanging.allSent sent)

theorem Exchanging.examineAll (db : LsaKey → Option LsaHeader) (lsas : List LsaHeader)
    (exchanging : Exchanging nb) : Exchanging (examineAll db nb lsas).1 := by
  induction lsas generalizing nb with
  | nil => exact exchanging
  | cons h rest ih =>
    unfold Exchange.examineAll
    split
    · exact exchanging
    · exact ih ⟨exchanging.state, exchanging.allSent⟩

theorem ddKept_exStart (state : nb.state = .exStart) (noSummary : nb.ddsum = [])
    (noRequests : nb.lsreq = []) : DdKept nb where
  adjacent := by rw [state]
  summary := fun some => absurd noSummary some
  requests := fun some => absurd noRequests some
  allSent := fun _ _ => noSummary

theorem DdKept.startAdj (time : BitVec 32) (state : nb.state = .exStart)
    (noSummary : nb.ddsum = []) (noRequests : nb.lsreq = []) :
    DdKept (Exchange.startAdj side time nb).1 := by
  have outside : ¬ nb.state = .exchange := by rw [state]; decide
  refine ddKept_exStart state ?_ noRequests
  simp [Exchange.startAdj, Exchange.dbdescBuildPkt, outside, noSummary]

theorem DdKept.mismatch (time : BitVec 32) (nb : Nb) :
    DdKept (Exchange.nfsmSeqNumberMismatch side time nb).nb :=
  DdKept.startAdj time rfl rfl rfl

theorem DdKept.exchangeDone (noSummary : nb.ddsum = []) : DdKept (nfsmExchangeDone nb) := by
  unfold nfsmExchangeDone
  by_cases noRequests : nb.lsreq = []
  · simp only [noRequests, if_true]
    exact ⟨Nat.le_of_ble_eq_true rfl, fun some => absurd noSummary some,
      fun some => absurd rfl some, fun _ _ => noSummary⟩
  · simp only [noRequests, if_false]
    exact ⟨Nat.le_of_ble_eq_true rfl, fun some => absurd noSummary some, fun _ => .inr rfl,
      fun _ _ => noSummary⟩

theorem Exchanging.masterReply (exchanging : Exchanging nb) (pkt : DdPacket) :
    DdKept (masterReply side nb pkt).nb := by
  unfold Exchange.masterReply
  split
  · rename_i ended
    exact DdKept.exchangeDone (exchanging.allSent ((Bool.and_eq_true _ _).mp ended).1)
  · refine Exchanging.kept ⟨exchanging.state, ?_⟩
    intro sent
    simp only [Exchange.dbdescBuildPkt, exchanging.state, if_true]
    refine (describe_nil_iff _ _).mpr ?_
    rcases (Bool.or_eq_true _ _).mp sent with earlier | now
    · exact exchanging.allSent earlier
    · exact of_decide_eq_true now

theorem Exchanging.slaveReply (exchanging : Exchanging nb) (pkt : DdPacket) :
    DdKept (slaveReply side nb pkt).nb := by
  unfold Exchange.slaveReply
  split
  · rename_i ended
    have noSummary : nb.ddsum = [] := of_decide_eq_true ((Bool.and_eq_true _ _).mp ended).2
    refine DdKept.exchangeDone ?_
    simp [Exchange.dbdescBuildPkt, exchanging.state, noSummary, describe]
  · have started : Exchanging { nb with ddSeqNumber := pkt.seq } :=
      ⟨exchanging.state, exchanging.allSent⟩
    exact (started.dbdescBuildPkt _).kept

theorem Exchanging.accept (exchanging : Exchanging nb) (now : Now) (pkt : DdPacket) :
    DdKept (accept side now nb pkt).nb := by
  have looked := exchanging.examineAll now.db pkt.lsas
  unfold Exchange.accept
  dsimp only
  split
  · exact DdKept.mismatch _ _
  · split
    · exact looked.masterReply pkt
    · exact looked.slaveReply pkt

theorem exchanging_negotiationDone (side : Side) (nb : Nb) :
    Exchanging (nfsmNegotiationDone side nb) :=
  ⟨rfl, fun sent => absurd sent (by simp [nfsmNegotiationDone])⟩

theorem DdKept.rxLoading (kept : DdKept nb) (now : Now) (pkt : DdPacket) :
    DdKept (rxLoading side now nb pkt).nb := by
  unfold Exchange.rxLoading
  split
  · exact DdKept.mismatch _ _
  · split
    · exact kept
    · exact DdKept.mismatch _ _

theorem DdKept.dbdescRx (kept : DdKept nb) (now : Now) (pkt : DdPacket) :
    DdKept (Exchange.dbdescRx side now nb pkt).nb := by
  unfold Exchange.dbdescRx
  split
  · unfold rxExStart
    split
    · exact (exchanging_negotiationDone _ _).accept now pkt
    · split
      · exact (exchanging_negotiationDone _ _).accept now pkt
      · exact kept
  · rename_i state
    unfold rxExchange
    split
    · exact kept
    · split
      · exact DdKept.mismatch _ _
      · have purged : Exchanging { nb with ddsum := lsahListPurge (acknowledge nb.ddsum) } := by
          refine ⟨state, ?_⟩
          intro sent
          simp [kept.allSent sent state, acknowledge, lsahListPurge]
        exact purged.accept now pkt
  · exact kept.rxLoading now pkt
  · exact kept.rxLoading now pkt
  · exact kept

end Exchanging

section Neighbors

variable {area : OspfArea} {net : OspfNetwork} {nb : OspfNeighbor}

theorem ListsMatch.empty (listsMatch : ListsMatch nb)
    (below : nb.state.code < NState.exStart.code) :
    nb.ddsum = [] ∧ nb.lsreq = [] ∧ nb.rxmtList = [] := by
  refine ⟨?_, ?_, ?_⟩
  · by_contra some
    rw [listsMatch.summary some] at below
    exact absurd below (by decide)
  · by_contra some
    rcases listsMatch.requests some with state | state
    · rw [state] at below
      exact absurd below (by decide)
    · rw [state] at below
      exact absurd below (by decide)
  · by_contra some
    exact absurd (listsMatch.retransmissions some) (Nat.not_le.mpr below)

theorem kept_of_empty (noSummary : nb.ddsum = []) (noRequests : nb.lsreq = [])
    (noRetransmissions : nb.rxmtList = []) : Kept nb where
  summary := fun some => absurd noSummary some
  requests := fun some => absurd noRequests some
  retransmissions := fun some => absurd noRetransmissions some
  allSent := fun _ _ => noSummary

theorem kept_of_dd (dd : DdKept nb.toNb) : Kept nb where
  summary := dd.summary
  requests := dd.requests
  retransmissions := fun _ => dd.adjacent
  allSent := dd.allSent

theorem Kept.dd (kept : Kept nb) (adjacent : NState.exStart.code ≤ nb.state.code) :
    DdKept nb.toNb :=
  ⟨adjacent, kept.summary, kept.requests, kept.allSent⟩

theorem Kept.setState (kept : Kept nb) (below : nb.state.code < NState.exStart.code)
    (state : NState) : Kept (setState state nb) := by
  obtain ⟨noSummary, noRequests, noRetransmissions⟩ := kept.empty below
  exact kept_of_empty noSummary noRequests noRetransmissions

theorem Kept.removeLists (nb : OspfNeighbor) : Kept (removeLists nb) := kept_of_empty rfl rfl rfl

theorem Kept.retain (kept : Kept nb) (net : OspfNetwork) (lsa : OspfLsa) :
    Kept (retain net lsa nb) := by
  by_cases flooded : floodsTo net.view nb.view = true
  · have adjacent : NState.exStart.code ≤ nb.state.code := by
      have parts := (Bool.and_eq_true _ _).mp flooded
      exact of_decide_eq_true parts.1
    exact kept_of_dd (kept.dd adjacent)
  · rw [retain_unreached (Bool.eq_false_iff.mpr flooded)]
    exact kept

theorem Kept.enterExStart (kept : Kept nb) (below : nb.state.code < NState.exStart.code)
    (time : BitVec 32) : Kept (enterExStart area net time nb) := by
  obtain ⟨noSummary, noRequests, -⟩ := kept.empty below
  exact kept_of_dd (DdKept.startAdj time rfl noSummary noRequests)

theorem Kept.helloReceived (kept : Kept nb) : Kept (nfsmHelloReceived nb) := by
  unfold nfsmHelloReceived
  split
  · rename_i idle
    refine kept.setState ?_ .init
    rcases idle with state | state
    · rw [state]
      decide
    · rw [state]
      decide
  · exact kept

theorem Kept.declare (kept : Kept nb) (priority : BitVec 8) (dr bdr : BitVec 32) :
    Kept (declare priority dr bdr nb) :=
  ⟨⟨kept.summary, kept.requests, kept.retransmissions⟩, kept.allSent⟩

theorem Kept.setPosponed (kept : Kept nb) (posponed : Bool) :
    Kept { nb with adjPosponed := posponed } :=
  ⟨⟨kept.summary, kept.requests, kept.retransmissions⟩, kept.allSent⟩

theorem Kept.twoWayReceived (kept : Kept nb) (time : BitVec 32) :
    Kept (nfsm2WayReceived time area net nb) := by
  have below (state : nb.state = .init) : nb.state.code < NState.exStart.code := by
    rw [state]
    decide
  unfold nfsm2WayReceived
  split
  · rename_i guard
    exact kept.setState (below (of_decide_eq_true ((Bool.and_eq_true _ _).mp guard).1)) .twoWay
  · split
    · rename_i guard
      exact kept.enterExStart (below (of_decide_eq_true ((Bool.and_eq_true _ _).mp guard).1)) time
    · exact kept

theorem dbdescRx_below {dd : Nb} (below : dd.state.code < NState.exStart.code) (side : Side)
    (now : Now) (pkt : DdPacket) : Exchange.dbdescRx side now dd pkt = ignored dd := by
  unfold Exchange.dbdescRx
  split <;> first | rfl | (rename_i state; rw [state] at below; exact absurd below (by decide))

theorem Kept.dbdescRx (kept : Kept nb) (snapshot : Snapshot) (now : Now) (pkt : DdPacket) :
    Kept (dbdescRx snapshot now pkt area net nb) := by
  unfold NeighborLists.dbdescRx
  dsimp only
  have processed : Kept (entered now.time area net nb) := by
    unfold entered
    split
    · exact kept.twoWayReceived now.time
    · exact kept
  generalize entered now.time area net nb = nb' at processed
  by_cases below : nb'.state.code < NState.exStart.code
  · rw [dbdescRx_below below]
    exact processed
  · have dd : DdKept (Exchange.dbdescRx (sideOf area net nb' snapshot) now nb'.toNb pkt).nb :=
      (processed.dd (Nat.not_lt.mp below)).dbdescRx now pkt
    split
    · exact kept_of_dd dd
    · exact kept_of_dd dd

theorem Kept.seqNumberMismatch (kept : Kept nb) (time : BitVec 32) :
    Kept (nfsmSeqNumberMismatch time area net nb) := by
  unfold NeighborLists.nfsmSeqNumberMismatch
  split
  · exact kept_of_dd (DdKept.mismatch time nb.toNb)
  · exact kept

theorem lsreq_receiveAll (stub : Bool) (net : Network) (desc : PacketDesc) (lsas : List Memory)
    {st : RxState} (noRequests : st.lsreq = []) :
    (lsas.foldl (receiveLsa stub net desc) st).lsreq = [] := by
  induction lsas generalizing st with
  | nil => exact noRequests
  | cons lsah rest ih =>
    refine ih ?_
    have removed : lsahListRemove st.lsreq (lsaHeader lsah).key = [] := by
      rw [noRequests]
      rfl
    unfold receiveLsa
    dsimp only
    split
    · unfold floodLsa RxState.setLsdb
      dsimp only
      split
      · exact removed
      · exact removed
    · exact removed

theorem Kept.received {lsreq : List LsaHeader} {rxmtList : List OspfLsa} (kept : Kept nb)
    (adjacent : NState.exchange.code ≤ nb.state.code) (fewer : nb.lsreq = [] → lsreq = []) :
    Kept (loadingDoneIf { nb with lsreq := lsreq, rxmtList := rxmtList }) := by
  have high : NState.exStart.code ≤ nb.state.code := le_trans (by decide) adjacent
  have stored : Kept { nb with lsreq := lsreq, rxmtList := rxmtList } :=
    ⟨⟨kept.summary, fun some => kept.requests (fun none => some (fewer none)), fun _ => high⟩,
      kept.allSent⟩
  unfold loadingDoneIf
  split
  · rename_i done
    simp only [Bool.and_eq_true, decide_eq_true_eq, List.isEmpty_iff] at done
    obtain ⟨loading, noRequests⟩ := done
    rw [nfsmLoadingDone, if_pos loading]
    have noSummary : nb.ddsum = [] := by
      by_contra some
      exact absurd ((kept.summary some).symm.trans loading) (by decide)
    exact ⟨⟨fun some => absurd noSummary some, fun some => absurd noRequests some,
      fun _ => Nat.le_of_ble_eq_true rfl⟩, fun _ _ => noSummary⟩
  · exact stored

theorem ackLoop_nil (state : NState) (headers : List LsaHeader) :
    ackLoop state [] headers = [] := by
  unfold ackLoop
  induction headers with
  | nil => rfl
  | cons h rest ih =>
    rw [List.foldl_cons]
    have same : (if state = .full then removeAcked [] h else []) = [] := by
      split
      · rfl
      · rfl
    rw [same]
    exact ih

theorem Kept.lsackRx (kept : Kept nb) (pkt : AckPacket) : Kept (lsackRx pkt nb) := by
  unfold NeighborLists.lsackRx
  split
  · exact kept
  · refine ⟨⟨kept.summary, kept.requests, ?_⟩, kept.allSent⟩
    intro some
    refine kept.retransmissions ?_
    intro none
    refine some ?_
    dsimp only
    rw [none]
    exact ackLoop_nil _ _

end Neighbors

section Steps

variable {s : Ospf} {p : Place} {a n : Nat}

theorem kept_lsadbFlood (kept : All Kept s) (lsa : OspfLsa) (a : Nat) :
    All Kept (lsadbFlood s lsa a) :=
  kept.lsadbFlood (fun net _ old => old.retain net lsa) a

theorem kept_clearLsa (kept : All Kept s) (p : Place) : All Kept (clearLsa s p) :=
  kept.clearLsa (fun lsa net _ old => old.retain net lsa) (fun nb _ => .removeLists nb) p

theorem modifyNeighbor_modifyNeighbor (s : Ospf) (p : Place) (f g : OspfNeighbor → OspfNeighbor) :
    (s.modifyNeighbor p (fun _ _ => f)).modifyNeighbor p (fun _ _ => g) =
      s.modifyNeighbor p (fun _ _ => g ∘ f) := by
  simp only [Ospf.modifyNeighbor, Ospf.modifyNetwork, Ospf.modifyArea, List.modify_modify_eq]
  congr 2
  funext area
  simp only [Function.comp_apply, List.modify_modify_eq]
  congr 2
  funext net
  simp only [Function.comp_apply, OspfNetwork.modifyNb, List.modify_modify_eq]

theorem kept_clearLsa_after (kept : All Kept s) (p : Place) (f : OspfNeighbor → OspfNeighbor) :
    All Kept (clearLsa (s.modifyNeighbor p (fun _ _ => f)) p) := by
  have emptied : All Kept (s.modifyNeighbor p (fun _ _ => removeLists ∘ f)) :=
    kept.modifyNeighbor (fun _ _ nb _ _ => .removeLists (f nb))
  have floods : ∀ lsa net nb, Kept nb → Kept (retain net lsa nb) :=
    fun lsa net _ old => old.retain net lsa
  unfold clearLsa
  split
  · rename_i absent
    refine kept.modifyNeighbor ?_
    intro area net nb found
    obtain ⟨_, moved, -⟩ := find_modifyNeighbor (f := fun _ _ => f) found
    exact absurd (moved.symm.trans absent) (by simp)
  · rw [modifyNeighbor_modifyNeighbor]
    exact (emptied.ageRemove floods _ _).ageRemove floods _ _

theorem kept_cleanNeighbor (kept : All Kept s) (p : Place) : All Kept (cleanNeighbor s p) :=
  kept_clearLsa_after kept p resetNeighbor

theorem kept_nfsm1Way (kept : All Kept s) (p : Place) : All Kept (nfsm1Way s p) := by
  unfold nfsm1Way
  split
  · exact kept
  · split
    · exact kept_clearLsa_after kept p (setState .init)
    · exact kept

theorem kept_nfsmAdjOK (kept : All Kept s) (time : BitVec 32) (ok : adjOkMeets s p = true) :
    All Kept (nfsmAdjOK time s p) := by
  unfold nfsmAdjOK
  split
  · exact kept
  · rename_i area net nb found
    simp only [adjOkMeets, found] at ok
    split
    · rename_i joins
      have state : nb.state = .twoWay := of_decide_eq_true ((Bool.and_eq_true _ _).mp joins).1
      split
      · exact kept.modifyNeighbor (fun _ _ _ _ old => old.setPosponed true)
      · refine kept.modifyNeighbor ?_
        intro area' net' nb' found' old
        cases found.symm.trans found'
        exact (old.setPosponed false).enterExStart (by simp [state, NState.code]) time
    · split
      · rename_i destroyed
        refine (kept_clearLsa kept p).modifyNeighbor ?_
        intro area' net' nb' found' _
        have harmless : ∀ lsa ∈ withdrawn area net nb, reaches net nb lsa = false := by
          simpa [destroyed] using ok
        obtain ⟨_, _, cleared⟩ := find_clearLsa found harmless
        cases cleared.symm.trans found'
        exact kept_of_empty rfl rfl rfl
      · exact kept

variable {time : BitVec 32}

theorem kept_adjOkAll (bs : List Nat) (kept : All Kept s)
    (ok : adjOkAllMeets time a n bs s = true) : All Kept (adjOkAll time a n bs s) := by
  induction bs generalizing s with
  | nil => exact kept
  | cons b rest ih =>
    obtain ⟨now, later⟩ := (Bool.and_eq_true _ _).mp ok
    refine ih ?_ later
    split
    · exact kept_nfsmAdjOK kept time now
    · exact kept

theorem kept_modifyNetwork {f : OspfArea → OspfNetwork → OspfNetwork} (kept : All Kept s)
    (same : ∀ area net, (f area net).neighbor = net.neighbor) :
    All Kept (s.modifyNetwork a n f) := by
  refine kept.modifyNetwork ?_
  intro area net _ _ old
  rw [same]
  exact old

theorem kept_electIn {states : List NetState} (kept : All Kept s)
    (ok : electMeets states time s a n = true) : All Kept (electIn states time s a n) := by
  unfold electIn
  split
  · exact kept
  · rename_i net found
    split
    · rename_i inState
      refine kept_modifyNetwork ?_ (fun _ _ => rfl)
      have entered : All Kept (s.modifyNetwork a n (fun _ => elected s.ospfRouterId)) :=
        kept_modifyNetwork kept (fun _ _ => rfl)
      simp only [drbdrElection, found]
      split
      · rename_i differs
        simp only [electMeets, found, inState, differs] at ok
        exact kept_adjOkAll _ entered (by simpa using ok)
      · exact entered
    · exact kept

theorem kept_neighborRemove (kept : All Kept s) (p : Place) : All Kept (neighborRemove s p) :=
  kept.modifyNetwork (fun _ _ _ _ old nb member => old nb (List.mem_of_mem_eraseIdx member))

theorem kept_nfsmKillNbr (kept : All Kept s)
    (ok : killMeets time s p = true) : All Kept (nfsmKillNbr time s p) :=
  kept_electIn (kept_neighborRemove (kept_cleanNeighbor kept p) p) ok

end Steps

section Relations

variable {R : OspfNetwork → OspfNetwork → Prop} {s s' s'' : Ospf} {a n : Nat}

/-- Every network of the second state stems from the one at its position in the first. -/
def Related (R : OspfNetwork → OspfNetwork → Prop) (s s' : Ospf) : Prop :=
  ∀ a n net', s'.netAt a n = some net' → ∃ net, s.netAt a n = some net ∧ R net net'

theorem Related.refl (refl : ∀ net, R net net) (s : Ospf) : Related R s s :=
  fun _ _ net' found => ⟨net', found, refl net'⟩

theorem Related.trans (trans : ∀ x y z, R x y → R y z → R x z) (first : Related R s s')
    (second : Related R s' s'') : Related R s s'' := by
  intro a n net'' found
  obtain ⟨net', between, same'⟩ := second a n net'' found
  obtain ⟨net, before, same⟩ := first a n net' between
  exact ⟨net, before, trans net net' net'' same same'⟩

theorem netAt_eq_some {net : OspfNetwork} :
    s.netAt a n = some net ↔ ∃ area, s.area[a]? = some area ∧ area.network[n]? = some net :=
  Option.bind_eq_some_iff

theorem Related.modifyArea {f : OspfArea → OspfArea} (refl : ∀ net, R net net) (a : Nat)
    (keeps : ∀ (area : OspfArea) (n : Nat) (net' : OspfNetwork), (f area).network[n]? = some net' →
      ∃ net, area.network[n]? = some net ∧ R net net') :
    Related R s (s.modifyArea a f) := by
  intro b n net' found
  obtain ⟨area', hasArea, hasNet⟩ := netAt_eq_some.mp found
  by_cases here : a = b
  · subst here
    simp only [Ospf.modifyArea, List.getElem?_modify_eq] at hasArea
    obtain ⟨area, before, rfl⟩ := Option.map_eq_some_iff.mp hasArea
    obtain ⟨net, stands, same⟩ := keeps area n net' hasNet
    exact ⟨net, netAt_eq_some.mpr ⟨area, before, stands⟩, same⟩
  · simp only [Ospf.modifyArea, List.getElem?_modify_ne _ _ here] at hasArea
    exact ⟨net', netAt_eq_some.mpr ⟨area', hasArea, hasNet⟩, refl net'⟩

theorem Related.modifyNetwork {f : OspfArea → OspfNetwork → OspfNetwork}
    (refl : ∀ net, R net net) (a n : Nat) (keeps : ∀ area net, R net (f area net)) :
    Related R s (s.modifyNetwork a n f) := by
  refine Related.modifyArea refl a ?_
  intro area m net' hasNet
  by_cases here : n = m
  · subst here
    simp only [List.getElem?_modify_eq] at hasNet
    obtain ⟨net, before, rfl⟩ := Option.map_eq_some_iff.mp hasNet
    exact ⟨net, before, keeps area net⟩
  · simp only [List.getElem?_modify_ne _ _ here] at hasNet
    exact ⟨net', hasNet, refl net'⟩

theorem related_txArea {lsa : OspfLsa} {area : OspfArea} {net' : OspfNetwork}
    (flooded : ∀ lsa net, R net (lsaTxNetwork lsa net))
    (found : (txArea lsa area).network[n]? = some net') :
    ∃ net, area.network[n]? = some net ∧ R net net' := by
  simp only [txArea, List.getElem?_map] at found
  obtain ⟨net, before, rfl⟩ := Option.map_eq_some_iff.mp found
  exact ⟨net, before, flooded lsa net⟩

theorem Related.lsadbFlood (refl : ∀ net, R net net)
    (flooded : ∀ lsa net, R net (lsaTxNetwork lsa net)) (s : Ospf) (lsa : OspfLsa) (a : Nat) :
    Related R s (NeighborLists.lsadbFlood s lsa a) := by
  unfold NeighborLists.lsadbFlood
  split
  · exact Related.modifyArea refl a (fun _ _ _ found => related_txArea flooded found)
  · intro b n net' found
    obtain ⟨area', hasArea, hasNet⟩ := netAt_eq_some.mp found
    simp only [List.getElem?_map] at hasArea
    obtain ⟨area, before, rfl⟩ := Option.map_eq_some_iff.mp hasArea
    by_cases stub : area.stub = true
    · rw [if_pos stub] at hasNet
      exact ⟨net', netAt_eq_some.mpr ⟨area, before, hasNet⟩, refl net'⟩
    · rw [if_neg stub] at hasNet
      obtain ⟨net, stands, same⟩ := related_txArea flooded hasNet
      exact ⟨net, netAt_eq_some.mpr ⟨area, before, stands⟩, same⟩

theorem Related.clearLsa (refl : ∀ net, R net net) (trans : ∀ x y z, R x y → R y z → R x z)
    (flooded : ∀ lsa net, R net (lsaTxNetwork lsa net))
    (emptied : ∀ b net, R net (net.modifyNb b removeLists)) (s : Ospf) (p : Place) :
    Related R s (NeighborLists.clearLsa s p) := by
  have aged (s : Ospf) (a : Nat) (test : OspfLsa → Bool) :
      Related R s (NeighborLists.ageRemove s a test) := by
    unfold NeighborLists.ageRemove
    split
    · exact Related.refl refl s
    · exact (Related.lsadbFlood refl flooded s _ a).trans trans
        (Related.modifyArea refl a (fun _ _ net' found => ⟨net', found, refl net'⟩))
  unfold NeighborLists.clearLsa
  split
  · exact Related.refl refl s
  · have first : Related R s (s.modifyNeighbor p (fun _ _ => removeLists)) :=
      Related.modifyNetwork refl p.area p.net (fun _ net => emptied p.nb net)
    exact (first.trans trans (aged _ _ _)).trans trans (aged _ _ _)

end Relations

section Down

variable {s s' s'' : Ospf} {a n : Nat}

/-- The states of the networks are what they were. -/
def Steady (s s' : Ospf) : Prop :=
  ∀ a n net', s'.netAt a n = some net' → ∃ net, s.netAt a n = some net ∧ net'.state = net.state

theorem Steady.trans (first : Steady s s') (second : Steady s' s'') : Steady s s'' :=
  Related.trans (fun _ _ _ same same' => same'.trans same) first second

theorem Steady.modifyNetwork {f : OspfArea → OspfNetwork → OspfNetwork} (a n : Nat)
    (keeps : ∀ area net, (f area net).state = net.state) : Steady s (s.modifyNetwork a n f) :=
  Related.modifyNetwork (R := fun net net' => net'.state = net.state) (fun _ => rfl) a n keeps

theorem Steady.modifyNeighbor (s : Ospf) (p : Place)
    (f : OspfArea → OspfNetwork → OspfNeighbor → OspfNeighbor) : Steady s (s.modifyNeighbor p f) :=
  Steady.modifyNetwork p.area p.net (fun _ _ => rfl)

theorem Steady.clearLsa (s : Ospf) (p : Place) : Steady s (NeighborLists.clearLsa s p) :=
  Related.clearLsa (R := fun net net' => net'.state = net.state) (fun _ => rfl)
    (fun _ _ _ same same' => same'.trans same)
    (fun lsa net => (Alike.lsaTxNetwork lsa net).state) (fun _ _ => rfl) s p

theorem Steady.removed (s : Ospf) (p : Place) : Steady s (neighborRemove (cleanNeighbor s p) p) :=
  ((Steady.modifyNeighbor s p _).trans (Steady.clearLsa _ p)).trans
    (Steady.modifyNetwork p.area p.net (fun _ _ => rfl))

def IsDown (s : Ospf) (a n : Nat) : Prop := ∀ net, s.netAt a n = some net → net.state = .down

theorem IsDown.steady (down : IsDown s a n) (steady : Steady s s') : IsDown s' a n := by
  intro net' found
  obtain ⟨net, before, same⟩ := steady a n net' found
  exact same.trans (down net before)

theorem netfsmNeighborChange_down (down : IsDown s a n) (time : BitVec 32) :
    netfsmNeighborChange time s a n = s := by
  unfold netfsmNeighborChange electIn
  split
  · rfl
  · rename_i net found
    rw [if_neg]
    rw [down net found]
    decide

theorem kept_killAll (time : BitVec 32) (k : Nat) (kept : All Kept s) (down : IsDown s a n) :
    All Kept (killAll time a n k s) := by
  induction k generalizing s with
  | zero => exact kept
  | succ k ih =>
    let p : Place := ⟨a, n, 0⟩
    have removed : IsDown (neighborRemove (cleanNeighbor s p) p) a n :=
      down.steady (Steady.removed s p)
    have killed : nfsmKillNbr time s p = neighborRemove (cleanNeighbor s p) p :=
      netfsmNeighborChange_down removed time
    unfold killAll
    rw [killed]
    exact ih (kept_neighborRemove (kept_cleanNeighbor kept p) p) removed

theorem isDown_goDown (s : Ospf) (a n : Nat) :
    IsDown (s.modifyNetwork a n (fun _ => goDown)) a n := by
  intro net' found
  obtain ⟨area', hasArea, hasNet⟩ := netAt_eq_some.mp found
  simp only [Ospf.modifyNetwork, Ospf.modifyArea, List.getElem?_modify_eq] at hasArea
  obtain ⟨area, -, rfl⟩ := Option.map_eq_some_iff.mp hasArea
  simp only [List.getElem?_modify_eq] at hasNet
  obtain ⟨net, -, rfl⟩ := Option.map_eq_some_iff.mp hasNet
  rfl

theorem kept_netfsmInterfaceDown (kept : All Kept s) (time : BitVec 32) (a n : Nat) :
    All Kept (netfsmInterfaceDown time s a n) := by
  unfold netfsmInterfaceDown
  split
  · exact kept
  · exact kept_killAll time _ (kept_modifyNetwork kept (fun _ _ => rfl)) (isDown_goDown s a n)

end Down

section Runs

variable {s : Ospf} {p : Place} {a n : Nat}

theorem kept_lsupdateRx (kept : All Kept s) (p : Place) (pkt : UpdatePacket) (desc : PacketDesc) :
    All Kept (lsupdateRx s p pkt desc) := by
  unfold lsupdateRx
  split
  · exact kept
  · rename_i area net nb found
    split
    · rename_i guard
      refine All.setLsdb (kept.modifyNeighbor ?_) _ _ _
      intro area' net' nb' found' old
      cases found.symm.trans found'
      refine old.received (of_decide_eq_true ((Bool.and_eq_true _ _).mp guard).2) ?_
      exact fun noRequests => lsreq_receiveAll _ _ _ _ noRequests
    · exact kept

theorem kept_resumeAdj {time : BitVec 32} (kept : All Kept s)
    (ok : meets s (.resumeAdj p time) = true) : All Kept (resumeAdj time s p) := by
  have reset : All Kept (s.modifyNeighbor p (fun _ _ nb => { nb with adjPosponed := false })) :=
    kept.modifyNeighbor (fun _ _ _ _ old => old.setPosponed false)
  unfold resumeAdj
  split
  · exact kept
  · split
    · exact kept_nfsmAdjOK reset time ok
    · exact kept

theorem kept_nfsmInactivityTimer {time : BitVec 32} (kept : All Kept s)
    (ok : meets s (.inactivityTimer p time) = true) : All Kept (nfsmInactivityTimer time s p) := by
  unfold nfsmInactivityTimer
  split
  · exact kept_cleanNeighbor kept p
  · rename_i broadcast
    exact kept_nfsmKillNbr kept (by simpa [meets, broadcast] using ok)

theorem kept_addNeighbor (kept : All Kept s) (ip routerId : BitVec 32) :
    All Kept (s.modifyNetwork a n (fun _ => neighborAdd (newNeighbor ip routerId))) := by
  refine kept.modifyNetwork ?_
  intro _ net _ _ old nb member
  unfold neighborAdd at member
  split at member
  · exact old nb member
  · rcases List.mem_cons.mp member with rfl | there
    · exact kept_of_empty rfl rfl rfl
    · exact old nb there

theorem neighbor_netfsmInterfaceUp (net : OspfNetwork) :
    (netfsmInterfaceUp net).neighbor = net.neighbor := by
  unfold netfsmInterfaceUp
  split
  · rfl
  · rfl

theorem kept_step (kept : All Kept s) (e : Event) (ok : meets s e = true) :
    All Kept (step s e) := by
  cases e with
  | interfaceUp a n => exact kept_modifyNetwork kept (fun _ net => neighbor_netfsmInterfaceUp net)
  | interfaceDown a n time => exact kept_netfsmInterfaceDown kept time a n
  | waitTimer a n time => exact kept_electIn kept ok
  | backupSeen a n time => exact kept_electIn kept ok
  | neighborChange a n time => exact kept_electIn kept ok
  | addNeighbor a n ip routerId => exact kept_addNeighbor kept ip routerId
  | hello p priority dr bdr =>
    exact kept.modifyNeighbor (fun _ _ _ _ old => (old.declare priority dr bdr).helloReceived)
  | twoWayReceived p time => exact kept.modifyNeighbor (fun _ _ _ _ old => old.twoWayReceived time)
  | oneWay p => exact kept_nfsm1Way kept p
  | dbdesc p snapshot now pkt =>
    exact kept.modifyNeighbor (fun _ _ _ _ old => old.dbdescRx snapshot now pkt)
  | lsupdate p pkt desc => exact kept_lsupdateRx kept p pkt desc
  | badLSReq p time => exact kept.modifyNeighbor (fun _ _ _ _ old => old.seqNumberMismatch time)
  | lsack p pkt => exact kept.modifyNeighbor (fun _ _ _ _ old => old.lsackRx pkt)
  | adjOK p time => exact kept_nfsmAdjOK kept time ok
  | resumeAdj p time => exact kept_resumeAdj kept ok
  | killNbr p time => exact kept_nfsmKillNbr kept ok
  | inactivityTimer p time => exact kept_nfsmInactivityTimer kept ok
  | flood lsa a => exact kept_lsadbFlood kept lsa a
  | lsadb a list extlist => exact kept.setLsdb a list extlist

theorem kept_run (events : List Event) (kept : All Kept s) (ok : meetsAll s events = true) :
    All Kept (run s events) := by
  induction events generalizing s with
  | nil => exact kept
  | cons e rest ih =>
    obtain ⟨now, later⟩ := (Bool.and_eq_true _ _).mp ok
    exact ih (kept_step kept e now) later

theorem meetsAll_take (events : List Event) (k : Nat) (ok : meetsAll s events = true) :
    meetsAll s (events.take k) = true := by
  induction events generalizing s k with
  | nil => simp [meetsAll]
  | cons e rest ih =>
    cases k with
    | zero => rfl
    | succ k =>
      obtain ⟨now, later⟩ := (Bool.and_eq_true _ _).mp ok
      simp only [List.take_succ_cons, meetsAll, now, Bool.true_and]
      exact ih k later

theorem Unheard.kept (unheard : Unheard s) : All Kept s := by
  intro area hasArea net hasNet nb member
  rw [unheard area hasArea net hasNet] at member
  cases member

/-- After every event of a run that meets the condition, the lists match the state, and an
adjacency begins with empty lists. -/
theorem lists_match_states (s : Ospf) (events : List Event) (unheard : Unheard s)
    (ok : meetsAll s events = true) (k : Nat) :
    All (fun nb => ListsMatch nb ∧ (nb.state.code < NState.exStart.code →
      nb.ddsum = [] ∧ nb.lsreq = [] ∧ nb.rxmtList = [])) (run s (events.take k)) := by
  have kept := kept_run (events.take k) unheard.kept (meetsAll_take events k ok)
  intro area hasArea net hasNet nb member
  have here := (kept area hasArea net hasNet nb member).toListsMatch
  exact ⟨here, here.empty⟩

end Runs

/-- The router advertisement of 2.2.2.2, with one stub network. -/
def routerLsa : OspfLsa where
  bytes :=
    [0, 1, 2, 1, 2, 2, 2, 2, 2, 2, 2, 2, 0x80, 0, 0, 1, 0x8a, 0xad, 0, 36,
      0, 0, 0, 1, 10, 0, 0, 0, 255, 255, 255, 0, 3, 0, 0, 1]
  selfOriginated := false
  flood := 0
  oldCnt := 0
  oldSelfOriginatedSeq := 0
  netIp := 0x0a000001

/-- The router 1.1.1.1 with the network 10.0.0.0/24, which is still down. -/
def lone : Ospf where
  ospfRouterId := 0x01010101
  area :=
    [{ stub := false
       list := []
       network :=
        [{ ip := 0x0a000001
           mask := 0xffffff00
           vlink := false
           routerId := 0x01010101
           state := .down
           routerPriority := 1
           designatedRouter := 0
           backupRouter := 0
           rxtmInterval := 5
           neighbor := [] }] }]
  extlist := []

/-- The router becomes Designated Router and the neighbor 10.0.0.2, which has priority 0,
full. Then 10.0.0.3 joins as Designated Router with a higher priority. -/
def deposed (list : List OspfLsa) : List Event :=
  let now : Now := ⟨fun _ => none, 1000⟩
  [.interfaceUp 0 0,
    .addNeighbor 0 0 0x0a000002 0x02020202,
    .hello ⟨0, 0, 0⟩ 0 0 0,
    .twoWayReceived ⟨0, 0, 0⟩ 1000,
    .waitTimer 0 0 1000,
    .dbdesc ⟨0, 0, 0⟩ ⟨[], by decide⟩ now ⟨0x42, ⟨true, true, true⟩, 7, []⟩,
    .dbdesc ⟨0, 0, 0⟩ ⟨[], by decide⟩ now ⟨0x42, ⟨false, false, true⟩, 8, []⟩,
    .lsadb 0 list [],
    .addNeighbor 0 0 0x0a000003 0x03030303,
    .hello ⟨0, 0, 0⟩ 2 0x0a000003 0,
    .twoWayReceived ⟨0, 0, 0⟩ 1000,
    .neighborChange 0 0 1000]

theorem unheard_lone : Unheard lone := by
  intro area hasArea net hasNet
  cases List.mem_singleton.mp hasArea
  cases List.mem_singleton.mp hasNet
  rfl

/-- The database holds nothing of the neighbor that is left. -/
theorem lists_match_states_deposed :
    meetsAll lone (deposed []) = true ∧
      ∀ k, All (fun nb => ListsMatch nb ∧ (nb.state.code < NState.exStart.code →
        nb.ddsum = [] ∧ nb.lsreq = [] ∧ nb.rxmtList = [])) (run lone ((deposed []).take k)) := by
  have ok : meetsAll lone (deposed []) = true := by decide +kernel
  exact ⟨ok, lists_match_states lone (deposed []) unheard_lone ok⟩

/-- A neighbor in 2-Way with advertisements to retransmit. -/
def stale (nb : OspfNeighbor) : Bool := nb.state = .twoWay && !nb.rxmtList.isEmpty

/-- The neighbor's own advertisement, flooded by `clear_lsa`, is on its list when it is back
in 2-Way. -/
theorem deposed_router_leaves_retransmission :
    Unheard lone ∧ ¬ All ListsMatch (run lone (deposed [routerLsa])) := by
  refine ⟨unheard_lone, ?_⟩
  intro listsMatch
  have some : (run lone (deposed [routerLsa])).area.any
      (fun area => area.network.any (fun net => net.neighbor.any stale)) = true := by
    decide +kernel
  obtain ⟨area, hasArea, inArea⟩ := List.any_eq_true.mp some
  obtain ⟨net, hasNet, inNet⟩ := List.any_eq_true.mp inArea
  obtain ⟨nb, member, kept⟩ := List.any_eq_true.mp inNet
  simp only [stale, Bool.and_eq_true, decide_eq_true_eq, Bool.not_eq_true',
    List.isEmpty_eq_false_iff] at kept
  have adjacent := (listsMatch area hasArea net hasNet nb member).retransmissions kept.2
  rw [kept.1] at adjacent
  exact absurd adjacent (by decide)

end NeighborLists
