import Rcp100.Flooding

/-!
# Retransmission to one neighbor

What `lsa_tx_network` floods to a neighbor stays on its retransmission list until an
acknowledgment, or an update that counts as one, is received. The packets of both
directions may be lost, delayed, duplicated and reordered.
-/

namespace Retransmission

open LsaFormat LsUpdate Flooding
open Function (update update_self)

/-- A Link State Acknowledgment packet: `header.length`, and the buffer from the first
header on. -/
structure AckPacket where
  length : BitVec 16
  body : Memory

/-- The length without the packet header, as the divisions by a `sizeof` see it. -/
def AckPacket.size (pkt : AckPacket) : BitVec 64 := pkt.length.setWidth 64 - 24

def AckPacket.cnt (pkt : AckPacket) : Int := ((pkt.size / 20).setWidth 32).toInt

def AckPacket.headers (pkt : AckPacket) : List LsaHeader :=
  (List.range pkt.cnt.toNat).map (fun i => lsaHeader (pkt.body.offset (sizeofHeader * i)))

/-- The entry is looked up by type, id and advertising router; its instance is not
compared. -/
def removeAcked (rxmt : List OspfLsa) (h : LsaHeader) : List OspfLsa :=
  if (lsaListFind rxmt h.key).isSome then lsaListRemove rxmt h.key else rxmt

/-- The loop of `lsackRx`. -/
def ackLoop (state : NState) (rxmt : List OspfLsa) (headers : List LsaHeader) : List OspfLsa :=
  headers.foldl (fun list h => if state = .full then removeAcked list h else list) rxmt

def lsackRx (r : Router) (pkt : AckPacket) (desc : PacketDesc) : Router × Nat :=
  if pkt.cnt = 0 then (r, 1)
  else if pkt.size % 20 ≠ 0 then (r, 1)
  else
    match sender r desc with
    | none => (r, 1)
    | some (area, _, nb) =>
      let restore (n : Neighbor) : Neighbor :=
        { n with rxmtList := ackLoop nb.state nb.rxmtList pkt.headers }
      let area' := area.modifyNetwork desc.ipSource (·.modifyNeighbor desc.ipSource restore)
      ({ r with area := update r.area desc.areaId (some area') }, 0)

/-- The block of the network timer that retransmits. The fuel is that of the loop over
the packets. -/
def retransmit (fuel : Nat) (net : Network) (nb : Neighbor) :
    Option (Neighbor × List TxPacket) :=
  if nb.state = .full ∧ nb.rxmtList ≠ [] then
    if nb.rxmtListTimer - 1 ≤ 0 then
      (drain (.unicast nb.ip) fuel nb.rxmtList).map
        (fun pkts => ({ nb with rxmtListTimer := net.rxtmInterval }, pkts))
    else some ({ nb with rxmtListTimer := nb.rxmtListTimer - 1 }, [])
  else some (nb, [])

def maxAgeDiff : Nat := 900

/-- The instance `a` is the same as `b` or more recent: the sequence number decides,
then the checksum, then MaxAge, then a difference of the ages above MaxAgeDiff. -/
def notOlder (a b : LsaHeader) : Bool :=
  if a.seq ≠ b.seq then b.seq.toInt < a.seq.toInt
  else if a.checksum ≠ b.checksum then b.checksum.toNat < a.checksum.toNat
  else if a.age = maxAge then true
  else if b.age = maxAge then false
  else a.age.toNat ≤ b.age.toNat + maxAgeDiff

section Lookup

variable (areaId ip : BitVec 32)

def networkOf (r : Router) : Option Network := (r.area areaId).bind (networkFindIp · ip)

def rxmtIn (net : Network) : List OspfLsa := (neighborFind net ip).elim [] (·.rxmtList)

/-- The retransmission list of the neighbor. -/
def rxmtOf (r : Router) : List OspfLsa := (networkOf areaId ip r).elim [] (rxmtIn ip)

def modifyNetworkOf (f : Network → Network) (r : Router) : Router :=
  { r with area := update r.area areaId ((r.area areaId).map (Area.modifyNetwork ip f)) }

end Lookup

/-- The router, what is under way in both directions, and what the neighbor has. A
packet under way is never taken out, so it may arrive any number of times or not at
all. -/
structure Link where
  router : Router
  updates : List OspfLsa
  acks : List (AckPacket × PacketDesc)
  replies : List (UpdatePacket × PacketDesc)
  received : List LsaHeader
  flooded : List OspfLsa

/-- The latest instance flooded to the neighbor. -/
def Link.latest (s : Link) (k : LsaKey) : Option OspfLsa := lsaListFind s.flooded k

inductive Event where
  | adjacency (state : NetState) (designatedRouter backupRouter : BitVec 32) (nbState : NState)
  | flood (flooded : Nat) (lsa : OspfLsa)
  | flush (fuel : Nat)
  | retransmit (fuel : Nat)
  | deliver (i : Nat)
  | learn (h : LsaHeader)
  | sendAck (pkt : AckPacket) (desc : PacketDesc)
  | sendUpdate (pkt : UpdatePacket) (desc : PacketDesc)
  | recvAck (i : Nat)
  | recvUpdate (i : Nat)

section Steps

variable (areaId ip : BitVec 32)

/-- The network or the neighbor changes its state within the adjacency. -/
def changeState (state : NetState) (designatedRouter backupRouter : BitVec 32)
    (nbState : NState) (net : Network) : Network :=
  { net.modifyNeighbor ip (fun nb => { nb with state := nbState }) with
    state := state
    designatedRouter := designatedRouter
    backupRouter := backupRouter }

/-- The advertisement goes to the neighbor. -/
def floodsToOf (net : Network) (lsa : OspfLsa) : Bool :=
  passes net lsa && (neighborFind net ip).any (floodsTo net)

def stepFlood (s : Link) (net : Network) (flooded : Nat) (lsa : OspfLsa) : Link :=
  let r := lsaTxNetwork flooded net lsa
  { s with
    router := modifyNetworkOf areaId ip (fun _ => r.2.1) s.router
    updates := s.updates ++ r.2.2.flatMap (·.lsas)
    flooded := if floodsToOf ip net lsa then copyLsa lsa :: s.flooded else s.flooded }

def stepFlush (s : Link) (net : Network) (fuel : Nat) : Link :=
  match flushFlooding fuel net with
  | none => s
  | some (after, pkts) =>
    { s with
      router := modifyNetworkOf areaId ip (fun _ => after) s.router
      updates := s.updates ++ pkts.flatMap (·.lsas) }

def stepRetransmit (s : Link) (net : Network) (fuel : Nat) : Link :=
  match (neighborFind net ip).bind (retransmit fuel net) with
  | none => s
  | some (after, pkts) =>
    { s with
      router := modifyNetworkOf areaId ip (·.modifyNeighbor ip (fun _ => after)) s.router
      updates := s.updates ++ pkts.flatMap (·.lsas) }

/-- The packet comes from the neighbor. -/
def fromPeer (desc : PacketDesc) : Bool := desc.ipSource = ip && desc.areaId = areaId

/-- One step; an event that is not possible changes nothing. The neighbor acknowledges
and sends only instances that it has. -/
def step (s : Link) : Event → Link
  | .adjacency state dr bdr nbState =>
    { s with router := modifyNetworkOf areaId ip (changeState ip state dr bdr nbState) s.router }
  | .flood flooded lsa =>
    match networkOf areaId ip s.router with
    | none => s
    | some net => stepFlood areaId ip s net flooded lsa
  | .flush fuel =>
    match networkOf areaId ip s.router with
    | none => s
    | some net => stepFlush areaId ip s net fuel
  | .retransmit fuel =>
    match networkOf areaId ip s.router with
    | none => s
    | some net => stepRetransmit areaId ip s net fuel
  | .deliver i =>
    match s.updates[i]? with
    | none => s
    | some lsa => { s with received := lsa.header :: s.received }
  | .learn h => { s with received := h :: s.received }
  | .sendAck pkt desc =>
    if fromPeer areaId ip desc && pkt.headers.all (· ∈ s.received) then
      { s with acks := s.acks ++ [(pkt, desc)] }
    else s
  | .sendUpdate pkt desc =>
    if fromPeer areaId ip desc && pkt.lsas.all (fun lsah => lsaHeader lsah ∈ s.received) then
      { s with replies := s.replies ++ [(pkt, desc)] }
    else s
  | .recvAck i =>
    match s.acks[i]? with
    | none => s
    | some (pkt, desc) => { s with router := (lsackRx s.router pkt desc).1 }
  | .recvUpdate i =>
    match s.replies[i]? with
    | none => s
    | some (pkt, desc) => { s with router := (lsupdateRx s.router pkt desc).1 }

def run (s : Link) (events : List Event) : Link := events.foldl (step areaId ip) s

/-- Nothing was flooded yet; the router and what the neighbor has are arbitrary. -/
def fresh (router : Router) (received : List LsaHeader) : Link :=
  ⟨router, [], [], [], received, []⟩

/-- The headers that `lsackRx` acts on. -/
def ackedBy (r : Router) (pkt : AckPacket) (desc : PacketDesc) : List LsaHeader :=
  match sender r desc with
  | some (_, _, nb) =>
    if pkt.cnt ≠ 0 ∧ pkt.size % 20 = 0 ∧ nb.state = .full then pkt.headers else []
  | none => []

/-- The advertisements of an update that reach the implied acknowledgment. -/
def impliedBy (r : Router) (pkt : UpdatePacket) (desc : PacketDesc) : List LsaHeader :=
  ((packetEvents r pkt desc).filter (fun e => accepted e.stub e.lsah)).map LsaEvent.header

/-- The instances that a step takes as acknowledged. -/
def acknowledged (s : Link) : Event → List LsaHeader
  | .recvAck i =>
    match s.acks[i]? with
    | none => []
    | some (pkt, desc) => ackedBy s.router pkt desc
  | .recvUpdate i =>
    match s.replies[i]? with
    | none => []
    | some (pkt, desc) => impliedBy s.router pkt desc
  | _ => []

/-- No instance is older than the entry that it removes. -/
def noneOlder (rxmt : List OspfLsa) : List LsaHeader → Bool
  | [] => true
  | h :: rest =>
    (lsaListFind rxmt h.key).all (fun lsa => notOlder h lsa.header) &&
      noneOlder (removeAcked rxmt h) rest

def meets (s : Link) (e : Event) : Bool :=
  noneOlder (rxmtOf areaId ip s.router) (acknowledged s e)

def meetsAll (s : Link) : List Event → Bool
  | [] => true
  | e :: rest => meets areaId ip s e && meetsAll (step areaId ip s e) rest

/-- The latest instance flooded to the neighbor is on its list, unless the neighbor has
that one or a more recent one. -/
def Reliable (s : Link) : Prop :=
  ∀ k lsa, s.latest k = some lsa →
    (∀ h ∈ s.received, h.key = k → notOlder h lsa.header = false) →
    lsaListFind (rxmtOf areaId ip s.router) k = some lsa

/-- An entry leaves the list on reception only when the neighbor acknowledged, or sent,
that instance or a more recent one. -/
def Justified (s : Link) (e : Event) : Prop :=
  ∀ k lsa, lsaListFind (rxmtOf areaId ip s.router) k = some lsa →
    lsaListFind (rxmtOf areaId ip (step areaId ip s e).router) k = some lsa ∨
      (∃ flooded new, e = .flood flooded new ∧ new.key = k) ∨
      ∃ h ∈ acknowledged s e, h ∈ s.received ∧ h.key = k ∧ notOlder h lsa.header = true

end Steps

theorem lsaListFind_remove_ne (list : List OspfLsa) {key k : LsaKey} (other : k ≠ key) :
    lsaListFind (lsaListRemove list key) k = lsaListFind list k := by
  induction list with
  | nil => rfl
  | cons l list ih =>
    by_cases here : l.key = key
    · have gone : lsaListRemove (l :: list) key = list := by
        simp [lsaListRemove, here]
      rw [gone, lsaListFind_cons, if_neg (fun h => other (h.symm.trans here))]
    · have stays : lsaListRemove (l :: list) key = l :: lsaListRemove list key := by
        simp [lsaListRemove, here]
      rw [stays, lsaListFind_cons, lsaListFind_cons, ih]

theorem lsaListFind_removeAcked_ne (rxmt : List OspfLsa) {h : LsaHeader} {k : LsaKey}
    (other : k ≠ h.key) : lsaListFind (removeAcked rxmt h) k = lsaListFind rxmt k := by
  rw [removeAcked]
  split
  · exact lsaListFind_remove_ne rxmt other
  · rfl

/-- An entry that a loop of acknowledgments takes from the list is one of them or an
older instance. -/
theorem foldl_removeAcked {rxmt : List OspfLsa} {headers : List LsaHeader}
    (none : noneOlder rxmt headers = true) {k : LsaKey} {lsa : OspfLsa}
    (found : lsaListFind rxmt k = some lsa) :
    lsaListFind (headers.foldl removeAcked rxmt) k = some lsa ∨
      ∃ h ∈ headers, h.key = k ∧ notOlder h lsa.header = true := by
  induction headers generalizing rxmt with
  | nil => exact .inl found
  | cons h rest ih =>
    simp only [noneOlder, Bool.and_eq_true] at none
    obtain ⟨first, later⟩ := none
    by_cases here : h.key = k
    · refine .inr ⟨h, List.mem_cons_self, here, ?_⟩
      simpa [here, found] using first
    · have still : lsaListFind (removeAcked rxmt h) k = some lsa := by
        rw [lsaListFind_removeAcked_ne rxmt (Ne.symm here), found]
      rcases ih later still with kept | ⟨g, hg, hkey, recent⟩
      · exact .inl kept
      · exact .inr ⟨g, List.mem_cons_of_mem _ hg, hkey, recent⟩

theorem find?_modifyFirst {α : Type} {p : α → Bool} {f : α → α} {list : List α} {x : α}
    (found : list.find? p = some x) (stays : p (f x) = true) :
    (modifyFirst p f list).find? p = some (f x) := by
  induction list with
  | nil => cases found
  | cons y list ih =>
    rw [List.find?_cons] at found
    by_cases here : p y = true
    · simp only [here, Option.some.injEq] at found
      rw [modifyFirst, if_pos here, found, List.find?_cons, stays]
    · simp only [here] at found
      have miss : p y = false := Bool.not_eq_true _ |>.mp here
      rw [modifyFirst, if_neg here, List.find?_cons, miss]
      exact ih found

theorem modifyFirst_none {α : Type} {p : α → Bool} {f : α → α} {list : List α}
    (missing : list.find? p = none) : modifyFirst p f list = list := by
  induction list with
  | nil => rfl
  | cons y list ih =>
    rw [List.find?_cons] at missing
    by_cases here : p y = true
    · simp [here] at missing
    · simp only [here] at missing
      rw [modifyFirst, if_neg here, ih missing]

section Lists

variable {areaId ip : BitVec 32}

variable {net : Network} {r : Router} {nb : Neighbor} {f : Neighbor → Neighbor} {desc : PacketDesc}
  {area : Area}

theorem onNetwork_congr {net' : Network} (sameIp : net'.ip = net.ip)
    (sameMask : net'.mask = net.mask) : onNetwork ip net' = onNetwork ip net := by
  rw [onNetwork, onNetwork, sameIp, sameMask]

theorem networkOf_on (found : networkOf areaId ip r = some net) :
    onNetwork ip net = true := by
  obtain ⟨area, _, hnet⟩ := Option.bind_eq_some_iff.mp found
  exact List.find?_some hnet

theorem networkOf_modify {f : Network → Network}
    (found : networkOf areaId ip r = some net) (sameIp : (f net).ip = net.ip)
    (sameMask : (f net).mask = net.mask) :
    networkOf areaId ip (modifyNetworkOf areaId ip f r) = some (f net) := by
  have on := (onNetwork_congr sameIp sameMask).trans (networkOf_on found)
  obtain ⟨area, harea, hnet⟩ := Option.bind_eq_some_iff.mp found
  simp only [networkOf, modifyNetworkOf, update_self, harea, Option.map_some,
    Option.bind_some]
  exact find?_modifyFirst hnet on

theorem networkOf_modify_none {f : Network → Network}
    (missing : networkOf areaId ip r = none) :
    networkOf areaId ip (modifyNetworkOf areaId ip f r) = none := by
  simp only [networkOf, modifyNetworkOf, update_self]
  cases harea : r.area areaId with
  | none => rfl
  | some area =>
    have none : networkFindIp area ip = none := by simpa [networkOf, harea] using missing
    have same : Area.modifyNetwork ip f area = area := by
      rw [Area.modifyNetwork, modifyFirst_none none]
    rw [Option.map_some, same]
    exact none

theorem rxmtOf_eq (found : networkOf areaId ip r = some net) :
    rxmtOf areaId ip r = rxmtIn ip net := by
  rw [rxmtOf, found]
  rfl

theorem rxmtOf_modify {f : Network → Network}
    (found : networkOf areaId ip r = some net) (sameIp : (f net).ip = net.ip)
    (sameMask : (f net).mask = net.mask) :
    rxmtOf areaId ip (modifyNetworkOf areaId ip f r) = rxmtIn ip (f net) :=
  rxmtOf_eq (networkOf_modify found sameIp sameMask)

theorem neighborFind_modify (found : neighborFind net ip = some nb) (same : (f nb).ip = nb.ip) :
    neighborFind (net.modifyNeighbor ip f) ip = some (f nb) := by
  refine find?_modifyFirst found ?_
  simpa [same] using List.find?_some found

theorem rxmtIn_modify (found : neighborFind net ip = some nb) (same : (f nb).ip = nb.ip) :
    rxmtIn ip (net.modifyNeighbor ip f) = (f nb).rxmtList := by
  rw [rxmtIn, neighborFind_modify found same]
  rfl

theorem rxmtIn_modify_same (sameIp : ∀ nb, neighborFind net ip = some nb → (f nb).ip = nb.ip)
    (sameList : ∀ nb, neighborFind net ip = some nb → (f nb).rxmtList = nb.rxmtList) :
    rxmtIn ip (net.modifyNeighbor ip f) = rxmtIn ip net := by
  cases hnb : neighborFind net ip with
  | none =>
    have same : net.modifyNeighbor ip f = net := by
      rw [Network.modifyNeighbor, modifyFirst_none hnb]
    rw [same]
  | some nb =>
    rw [rxmtIn_modify hnb (sameIp nb hnb), sameList nb hnb, rxmtIn, hnb]
    rfl

section

variable (found : sender r desc = some (area, net, nb))

include found

theorem networkOf_store {list extlist : List OspfLsa}
    (here : fromPeer areaId ip desc = true) :
    networkOf areaId ip
      { area := update r.area desc.areaId
          (some { area.modifyNetwork desc.ipSource (·.modifyNeighbor desc.ipSource f) with
            list := list })
        extlist := extlist } = some (net.modifyNeighbor ip f) := by
  obtain ⟨harea, hnet, hnb⟩ := sender_eq_some found
  simp only [fromPeer, Bool.and_eq_true, decide_eq_true_eq] at here
  obtain ⟨rfl, rfl⟩ := here
  have hon : onNetwork desc.ipSource net = true := List.find?_some hnet
  have on : networkFindIp { area.modifyNetwork desc.ipSource
      (·.modifyNeighbor desc.ipSource f) with list := list } desc.ipSource =
        some (net.modifyNeighbor desc.ipSource f) :=
    find?_modifyFirst hnet ((onNetwork_congr rfl rfl).trans hon)
  simp only [networkOf, update_self, Option.bind_some]
  exact on

theorem networkOf_sender (here : fromPeer areaId ip desc = true) :
    networkOf areaId ip r = some net ∧ neighborFind net ip = some nb := by
  obtain ⟨harea, hnet, hnb⟩ := sender_eq_some found
  simp only [fromPeer, Bool.and_eq_true, decide_eq_true_eq] at here
  obtain ⟨rfl, rfl⟩ := here
  refine ⟨?_, hnb⟩
  simp only [networkOf, harea, Option.bind_some]
  exact hnet

theorem rxmtOf_store {list extlist : List OspfLsa}
    (same : (f nb).ip = nb.ip)
    (here : fromPeer areaId ip desc = true) :
    rxmtOf areaId ip
      { area := update r.area desc.areaId
          (some { area.modifyNetwork desc.ipSource (·.modifyNeighbor desc.ipSource f) with
            list := list })
        extlist := extlist } = (f nb).rxmtList := by
  rw [rxmtOf_eq (networkOf_store found here), rxmtIn_modify (networkOf_sender found here).2 same]

theorem rxmtOf_sender
    (here : fromPeer areaId ip desc = true) : rxmtOf areaId ip r = nb.rxmtList := by
  obtain ⟨network, hnb⟩ := networkOf_sender found here
  rw [rxmtOf_eq network, rxmtIn, hnb]
  rfl

end

end Lists

section Receptions

variable {areaId ip : BitVec 32}

theorem ackLoop_full (rxmt : List OspfLsa) (headers : List LsaHeader) :
    ackLoop .full rxmt headers = headers.foldl removeAcked rxmt := by
  simp only [ackLoop, if_true]

theorem ackLoop_not_full {state : NState} (other : state ≠ .full) (rxmt : List OspfLsa)
    (headers : List LsaHeader) : ackLoop state rxmt headers = rxmt := by
  induction headers with
  | nil => rfl
  | cons h rest ih =>
    simp only [ackLoop, List.foldl_cons, if_neg other] at ih ⊢
    exact ih

theorem rxmtOf_lsackRx (r : Router) (pkt : AckPacket) {desc : PacketDesc}
    (here : fromPeer areaId ip desc = true) :
    rxmtOf areaId ip (lsackRx r pkt desc).1 =
      (ackedBy r pkt desc).foldl removeAcked (rxmtOf areaId ip r) := by
  cases found : sender r desc with
  | none =>
    have kept : (lsackRx r pkt desc).1 = r := by
      simp only [lsackRx, found, ite_self]
    simp [kept, ackedBy, found]
  | some p =>
    obtain ⟨area, net, nb⟩ := p
    simp only [lsackRx, ackedBy, found]
    by_cases zero : pkt.cnt = 0
    · simp [zero]
    · by_cases odd : pkt.size % 20 = 0
      · rw [if_neg zero, if_neg (not_not.mpr odd), rxmtOf_sender found here]
        refine (rxmtOf_store found rfl here).trans ?_
        by_cases full : nb.state = .full
        · rw [if_pos ⟨zero, odd, full⟩, full]
          exact ackLoop_full _ _
        · rw [if_neg (fun h => full h.2.2)]
          exact ackLoop_not_full full _ _
      · rw [if_neg zero, if_pos odd, if_neg (fun h => odd h.2.1)]
        rfl

theorem rxmtList_receiveLsa (stub : Bool) (net : Network) (desc : PacketDesc) (st : RxState)
    (lsah : Memory) :
    (receiveLsa stub net desc st lsah).rxmtList =
      if accepted stub lsah = true then removeAcked st.rxmtList (lsaHeader lsah)
      else st.rxmtList := by
  rw [receiveLsa]
  split
  · rfl
  · rfl

theorem rxmtList_loop (stub : Bool) (net : Network) (desc : PacketDesc) (st : RxState)
    (lsas : List Memory) :
    (lsas.foldl (receiveLsa stub net desc) st).rxmtList =
      (((loopEvents stub net desc st lsas).filter (fun e => accepted e.stub e.lsah)).map
        LsaEvent.header).foldl removeAcked st.rxmtList := by
  induction lsas generalizing st with
  | nil => rfl
  | cons lsah rest ih =>
    rw [List.foldl_cons, ih, loopEvents, rxmtList_receiveLsa]
    by_cases pass : accepted stub lsah = true
    · simp [pass, LsaEvent.header]
    · simp [pass]

/-- So does an update packet, with the advertisements that it accepts. -/
theorem rxmtOf_lsupdateRx (r : Router) (pkt : UpdatePacket) {desc : PacketDesc}
    (here : fromPeer areaId ip desc = true) :
    rxmtOf areaId ip (lsupdateRx r pkt desc).1 =
      (impliedBy r pkt desc).foldl removeAcked (rxmtOf areaId ip r) := by
  rw [lsupdateRx, impliedBy, packetEvents]
  by_cases held : pkt.held = true
  · rw [if_pos held, if_pos held]
    cases found : sender r desc with
    | none => rfl
    | some p =>
      obtain ⟨area, net, nb⟩ := p
      dsimp only
      by_cases early : nb.state.code < NState.exchange.code
      · rw [if_pos early, if_pos early]
        rfl
      · rw [if_neg early, if_neg early, rxmtOf_sender found here]
        refine (rxmtOf_store found rfl here).trans ?_
        exact rxmtList_loop area.stub net desc (rxStart r area nb) pkt.lsas
  · rw [if_neg held, if_neg held]
    split
    · rfl
    · rfl

end Receptions

section Floods

theorem lsaTxNetwork_frame (flooded : Nat) (net : Network) (lsa : OspfLsa) :
    (lsaTxNetwork flooded net lsa).2.1.ip = net.ip ∧
      (lsaTxNetwork flooded net lsa).2.1.mask = net.mask ∧
      (lsaTxNetwork flooded net lsa).2.1.neighbor =
        if passes net lsa = true then net.neighbor.map (rxmtAdd net lsa) else net.neighbor := by
  rw [lsaTxNetwork]
  split
  · rw [sendOrQueue]
    dsimp only
    split
    · exact ⟨rfl, rfl, rfl⟩
    · split
      · exact ⟨rfl, rfl, rfl⟩
      · exact ⟨rfl, rfl, rfl⟩
  · exact ⟨rfl, rfl, rfl⟩

theorem ip_rxmtAdd (net : Network) (lsa : OspfLsa) (nb : Neighbor) :
    (rxmtAdd net lsa nb).ip = nb.ip := by
  rw [rxmtAdd]
  split
  · rfl
  · rfl

theorem key_copyLsa (lsa : OspfLsa) : (copyLsa lsa).key = lsa.key :=
  congrArg LsaHeader.key (OspfLsa.header_congr rfl)

theorem lsaListFind_rxmtAdd {net : Network} {nb : Neighbor} (lsa : OspfLsa)
    (flooded : floodsTo net nb = true) (k : LsaKey) :
    lsaListFind (rxmtAdd net lsa nb).rxmtList k =
      if lsa.key = k then some (copyLsa lsa) else lsaListFind nb.rxmtList k := by
  simp only [rxmtAdd, flooded, if_true, lsaListAdd]
  rw [lsaListFind_cons, key_copyLsa]
  by_cases here : lsa.key = k
  · rw [if_pos here, if_pos here]
  · rw [if_neg here, if_neg here]
    split
    · exact lsaListFind_remove_ne _ (Ne.symm here)
    · rfl

theorem neighborFind_map (ip : BitVec 32) {net : Network} {list : List Neighbor}
    {f : Neighbor → Neighbor}
    (same : ∀ nb, (f nb).ip = nb.ip) (mapped : list = net.neighbor.map f) :
    list.find? (fun nb => ip = nb.ip) = (neighborFind net ip).map f := by
  rw [mapped, List.find?_map, neighborFind]
  simp only [Function.comp_def, same]

theorem rxmtIn_flood (ip : BitVec 32) (flooded : Nat) (net : Network) (lsa : OspfLsa) (k : LsaKey) :
    lsaListFind (rxmtIn ip (lsaTxNetwork flooded net lsa).2.1) k =
      if floodsToOf ip net lsa = true ∧ lsa.key = k then some (copyLsa lsa)
      else lsaListFind (rxmtIn ip net) k := by
  have frame := (lsaTxNetwork_frame flooded net lsa).2.2
  by_cases pass : passes net lsa = true
  · rw [if_pos pass] at frame
    have found := neighborFind_map ip (ip_rxmtAdd net lsa) frame
    rw [rxmtIn, neighborFind, found, rxmtIn]
    cases hnb : neighborFind net ip with
    | none => simp [floodsToOf, hnb]
    | some nb =>
      by_cases adjacent : floodsTo net nb = true
      · simpa [floodsToOf, hnb, pass, adjacent] using lsaListFind_rxmtAdd lsa adjacent k
      · simp [floodsToOf, hnb, adjacent, rxmtAdd]
  · rw [if_neg pass] at frame
    rw [rxmtIn, neighborFind, frame, if_neg (by simp [floodsToOf, pass])]
    rfl

end Floods

section Quiet

variable {areaId ip : BitVec 32}

theorem rxmtOf_changeState (state : NetState) (dr bdr : BitVec 32) (nbState : NState)
    (r : Router) :
    rxmtOf areaId ip (modifyNetworkOf areaId ip (changeState ip state dr bdr nbState) r) =
      rxmtOf areaId ip r := by
  cases found : networkOf areaId ip r with
  | none => rw [rxmtOf, networkOf_modify_none found, rxmtOf, found]
  | some net =>
    rw [rxmtOf_modify found rfl rfl, rxmtOf_eq found]
    exact rxmtIn_modify_same (fun _ _ => rfl) (fun _ _ => rfl)

variable {net : Network}

theorem flushFlooding_frame {fuel : Nat} {after : Network} {pkts : List TxPacket}
    (ended : flushFlooding fuel net = some (after, pkts)) :
    after.ip = net.ip ∧ after.mask = net.mask ∧ after.neighbor = net.neighbor := by
  rw [flushFlooding_after ended]
  exact ⟨rfl, rfl, rfl⟩

theorem rxmtOf_stepFlush {s : Link}
    (found : networkOf areaId ip s.router = some net)
    (fuel : Nat) :
    rxmtOf areaId ip (stepFlush areaId ip s net fuel).router = rxmtOf areaId ip s.router := by
  rw [stepFlush]
  split
  · rfl
  · rename_i after pkts ended
    obtain ⟨sameIp, sameMask, sameNb⟩ := flushFlooding_frame ended
    rw [rxmtOf_modify found sameIp sameMask, rxmtOf_eq found, rxmtIn, neighborFind, sameNb]
    rfl

theorem retransmit_frame {fuel : Nat} {nb after : Neighbor}
    {pkts : List TxPacket} (ended : retransmit fuel net nb = some (after, pkts)) :
    after.ip = nb.ip ∧ after.rxmtList = nb.rxmtList := by
  rw [retransmit] at ended
  split at ended
  · split at ended
    · obtain ⟨_, _, heq⟩ := Option.map_eq_some_iff.mp ended
      cases heq
      exact ⟨rfl, rfl⟩
    · cases ended
      exact ⟨rfl, rfl⟩
  · cases ended
    exact ⟨rfl, rfl⟩

theorem rxmtOf_stepRetransmit {s : Link}
    (found : networkOf areaId ip s.router = some net) (fuel : Nat) :
    rxmtOf areaId ip (stepRetransmit areaId ip s net fuel).router =
      rxmtOf areaId ip s.router := by
  rw [stepRetransmit]
  split
  · rfl
  · rename_i after pkts ended
    obtain ⟨nb, hnb, hsent⟩ := Option.bind_eq_some_iff.mp ended
    obtain ⟨sameIp, sameList⟩ := retransmit_frame hsent
    rw [rxmtOf_modify found rfl rfl, rxmtOf_eq found]
    refine rxmtIn_modify_same (fun n hn => ?_) (fun n hn => ?_)
    · rw [hnb] at hn
      cases hn
      exact sameIp
    · rw [hnb] at hn
      cases hn
      exact sameList

end Quiet

section Invariant

variable (areaId ip : BitVec 32)

/-- Every packet under way is the neighbor's, and the neighbor has what it carries. -/
structure InTransit (s : Link) : Prop where
  acks : ∀ p ∈ s.acks, fromPeer areaId ip p.2 = true ∧ ∀ h ∈ p.1.headers, h ∈ s.received
  replies : ∀ p ∈ s.replies,
    fromPeer areaId ip p.2 = true ∧ ∀ lsah ∈ p.1.lsas, lsaHeader lsah ∈ s.received

/-- The latest instance is on the list, or the neighbor has it or a more recent one. -/
def Kept (s : Link) : Prop :=
  ∀ k lsa, s.latest k = some lsa →
    lsaListFind (rxmtOf areaId ip s.router) k = some lsa ∨
      ∃ h ∈ s.received, h.key = k ∧ notOlder h lsa.header = true

variable {areaId ip} {s : Link}

theorem reliable_of_kept (kept : Kept areaId ip s) : Reliable areaId ip s := by
  rintro k lsa latest missing
  rcases kept k lsa latest with listed | ⟨h, hh, hkey, recent⟩
  · exact listed
  · rw [missing h hh hkey] at recent
    cases recent

variable {desc : PacketDesc} {h : LsaHeader} {e : Event}

theorem loopEvents_lsah {stub : Bool} {net : Network} {st : RxState}
    {lsas : List Memory} {e : LsaEvent} (he : e ∈ loopEvents stub net desc st lsas) :
    e.lsah ∈ lsas := by
  induction lsas generalizing st with
  | nil => cases he
  | cons lsah rest ih =>
    rcases List.mem_cons.mp he with rfl | later
    · exact List.mem_cons_self
    · exact List.mem_cons_of_mem _ (ih later)

theorem impliedBy_subset {r : Router} {pkt : UpdatePacket}
    (hh : h ∈ impliedBy r pkt desc) : ∃ lsah ∈ pkt.lsas, lsaHeader lsah = h := by
  obtain ⟨e, he, rfl⟩ := List.mem_map.mp hh
  have mem := List.mem_of_mem_filter he
  rw [packetEvents] at mem
  split at mem
  · split at mem
    · cases mem
    · split at mem
      · cases mem
      · exact ⟨e.lsah, loopEvents_lsah mem, rfl⟩
  · cases mem

theorem ackedBy_subset {r : Router} {pkt : AckPacket}
    (hh : h ∈ ackedBy r pkt desc) : h ∈ pkt.headers := by
  rw [ackedBy] at hh
  split at hh
  · split at hh
    · exact hh
    · cases hh
  · cases hh

theorem acknowledged_received (transit : InTransit areaId ip s)
    (hh : h ∈ acknowledged s e) : h ∈ s.received := by
  cases e with
  | recvAck i =>
    simp only [acknowledged] at hh
    split at hh
    · cases hh
    · rename_i pkt desc found
      exact (transit.acks _ (List.mem_of_getElem? found)).2 h (ackedBy_subset hh)
  | recvUpdate i =>
    simp only [acknowledged] at hh
    split at hh
    · cases hh
    · rename_i pkt desc found
      obtain ⟨lsah, hlsah, rfl⟩ := impliedBy_subset hh
      exact (transit.replies _ (List.mem_of_getElem? found)).2 lsah hlsah
  | _ => cases hh

/-- A step other than a flood removes from the list what it takes as acknowledged, and
leaves the latest instances alone. -/
theorem step_list (transit : InTransit areaId ip s)
    (other : ∀ flooded lsa, e ≠ .flood flooded lsa) :
    rxmtOf areaId ip (step areaId ip s e).router =
        (acknowledged s e).foldl removeAcked (rxmtOf areaId ip s.router) ∧
      (step areaId ip s e).flooded = s.flooded := by
  cases e with
  | adjacency state dr bdr nbState => exact ⟨rxmtOf_changeState state dr bdr nbState s.router, rfl⟩
  | flood flooded lsa => exact absurd rfl (other flooded lsa)
  | flush fuel =>
    simp only [step]
    split
    · exact ⟨rfl, rfl⟩
    · rename_i net found
      refine ⟨rxmtOf_stepFlush found fuel, ?_⟩
      rw [stepFlush]
      split <;> rfl
  | retransmit fuel =>
    simp only [step]
    split
    · exact ⟨rfl, rfl⟩
    · rename_i net found
      refine ⟨rxmtOf_stepRetransmit found fuel, ?_⟩
      rw [stepRetransmit]
      split <;> rfl
  | deliver i =>
    simp only [step]
    split <;> exact ⟨rfl, rfl⟩
  | learn h => exact ⟨rfl, rfl⟩
  | sendAck pkt desc =>
    simp only [step]
    split <;> exact ⟨rfl, rfl⟩
  | sendUpdate pkt desc =>
    simp only [step]
    split <;> exact ⟨rfl, rfl⟩
  | recvAck i =>
    simp only [step, acknowledged]
    cases found : s.acks[i]? with
    | none => exact ⟨rfl, rfl⟩
    | some p =>
      exact ⟨rxmtOf_lsackRx s.router p.1 (transit.acks p (List.mem_of_getElem? found)).1, rfl⟩
  | recvUpdate i =>
    simp only [step, acknowledged]
    cases found : s.replies[i]? with
    | none => exact ⟨rfl, rfl⟩
    | some p =>
      exact ⟨rxmtOf_lsupdateRx s.router p.1 (transit.replies p (List.mem_of_getElem? found)).1, rfl⟩

theorem step_flood_list {flooded : Nat} {lsa : OspfLsa} {net : Network}
    (found : networkOf areaId ip s.router = some net) (k : LsaKey) :
    lsaListFind (rxmtOf areaId ip (step areaId ip s (.flood flooded lsa)).router) k =
      if floodsToOf ip net lsa = true ∧ lsa.key = k then some (copyLsa lsa)
      else lsaListFind (rxmtOf areaId ip s.router) k := by
  obtain ⟨sameIp, sameMask, _⟩ := lsaTxNetwork_frame flooded net lsa
  simp only [step, found, stepFlood]
  rw [rxmtOf_modify found sameIp sameMask, rxmtIn_flood, rxmtOf_eq found]

section

variable (transit : InTransit areaId ip s)

include transit

theorem InTransit.unchanged {s' : Link} (acks : s'.acks = s.acks)
    (replies : s'.replies = s.replies) (received : s'.received = s.received) :
    InTransit areaId ip s' ∧ ∀ h ∈ s.received, h ∈ s'.received := by
  refine ⟨⟨?_, ?_⟩, ?_⟩
  · rw [acks, received]
    exact transit.acks
  · rw [replies, received]
    exact transit.replies
  · rw [received]
    exact fun h hh => hh

theorem InTransit.learns (h : LsaHeader) :
    InTransit areaId ip { s with received := h :: s.received } ∧
      ∀ g ∈ s.received, g ∈ h :: s.received := by
  have later : ∀ g ∈ s.received, g ∈ h :: s.received := fun g hg => List.mem_cons_of_mem _ hg
  refine ⟨⟨fun p hp => ?_, fun p hp => ?_⟩, later⟩
  · obtain ⟨peer, had⟩ := transit.acks p hp
    exact ⟨peer, fun g hg => later g (had g hg)⟩
  · obtain ⟨peer, had⟩ := transit.replies p hp
    exact ⟨peer, fun g hg => later _ (had g hg)⟩

theorem step_inTransit (e : Event) :
    InTransit areaId ip (step areaId ip s e) ∧
      ∀ h ∈ s.received, h ∈ (step areaId ip s e).received := by
  cases e with
  | adjacency state dr bdr nbState => exact transit.unchanged rfl rfl rfl
  | flood flooded lsa =>
    simp only [step]
    split <;> exact transit.unchanged rfl rfl rfl
  | flush fuel =>
    simp only [step, stepFlush]
    split
    · exact transit.unchanged rfl rfl rfl
    · split <;> exact transit.unchanged rfl rfl rfl
  | retransmit fuel =>
    simp only [step, stepRetransmit]
    split
    · exact transit.unchanged rfl rfl rfl
    · split <;> exact transit.unchanged rfl rfl rfl
  | deliver i =>
    simp only [step]
    split
    · exact transit.unchanged rfl rfl rfl
    · exact transit.learns _
  | learn h => exact transit.learns h
  | sendAck pkt desc =>
    simp only [step]
    split
    · rename_i ok
      simp only [Bool.and_eq_true, List.all_eq_true, decide_eq_true_eq] at ok
      refine ⟨⟨fun p hp => ?_, transit.replies⟩, fun h hh => hh⟩
      rcases List.mem_append.mp hp with old | new
      · exact transit.acks p old
      · cases List.mem_singleton.mp new
        exact ok
    · exact transit.unchanged rfl rfl rfl
  | sendUpdate pkt desc =>
    simp only [step]
    split
    · rename_i ok
      simp only [Bool.and_eq_true, List.all_eq_true, decide_eq_true_eq] at ok
      refine ⟨⟨transit.acks, fun p hp => ?_⟩, fun h hh => hh⟩
      rcases List.mem_append.mp hp with old | new
      · exact transit.replies p old
      · cases List.mem_singleton.mp new
        exact ok
    · exact transit.unchanged rfl rfl rfl
  | recvAck i =>
    simp only [step]
    split <;> exact transit.unchanged rfl rfl rfl
  | recvUpdate i =>
    simp only [step]
    split <;> exact transit.unchanged rfl rfl rfl

theorem step_justified (met : meets areaId ip s e = true) : Justified areaId ip s e := by
  rintro k lsa listed
  by_cases flood : ∃ flooded new, e = .flood flooded new
  · obtain ⟨flooded, new, rfl⟩ := flood
    by_cases here : new.key = k
    · exact .inr (.inl ⟨flooded, new, rfl, here⟩)
    · left
      cases found : networkOf areaId ip s.router with
      | none =>
        simp only [step, found]
        exact listed
      | some net => rw [step_flood_list found, if_neg (fun h => here h.2), listed]
  · have other : ∀ flooded new, e ≠ .flood flooded new := fun f n h => flood ⟨f, n, h⟩
    rw [(step_list transit other).1]
    rcases foldl_removeAcked met listed with still | ⟨h, hh, hkey, recent⟩
    · exact .inl still
    · exact .inr (.inr ⟨h, hh, acknowledged_received transit hh, hkey, recent⟩)

theorem step_kept (kept : Kept areaId ip s)
    (met : meets areaId ip s e = true) : Kept areaId ip (step areaId ip s e) := by
  have grows := (step_inTransit transit e).2
  rintro k lsa latest
  by_cases flood : ∃ flooded new, e = .flood flooded new
  · obtain ⟨flooded, new, rfl⟩ := flood
    cases found : networkOf areaId ip s.router with
    | none =>
      simp only [step, found] at latest ⊢
      exact kept k lsa latest
    | some net =>
      rw [step_flood_list found]
      simp only [Link.latest, step, found, stepFlood] at latest ⊢
      by_cases goes : floodsToOf ip net new = true
      · rw [if_pos goes, lsaListFind_cons, key_copyLsa] at latest
        by_cases here : new.key = k
        · rw [if_pos ⟨goes, here⟩]
          rw [if_pos here] at latest
          exact .inl latest
        · rw [if_neg (fun h => here h.2)]
          rw [if_neg here] at latest
          exact kept k lsa latest
      · rw [if_neg (fun h => goes h.1)]
        rw [if_neg goes] at latest
        exact kept k lsa latest
  · have other : ∀ flooded new, e ≠ .flood flooded new := fun f n h => flood ⟨f, n, h⟩
    rw [Link.latest, (step_list transit other).2] at latest
    rcases kept k lsa latest with listed | ⟨h, hh, hkey, recent⟩
    · rcases step_justified transit met k lsa listed with
        still | replaced | ⟨h, _, hh, hkey, recent⟩
      · exact .inl still
      · obtain ⟨f, n, rfl, _⟩ := replaced
        exact absurd rfl (other f n)
      · exact .inr ⟨h, grows h hh, hkey, recent⟩
    · exact .inr ⟨h, grows h hh, hkey, recent⟩

theorem run_kept {events : List Event} (kept : Kept areaId ip s)
    (met : meetsAll areaId ip s events = true) :
    Kept areaId ip (run areaId ip s events) ∧
      ∀ pre e post, events = pre ++ e :: post → Justified areaId ip (run areaId ip s pre) e := by
  induction events generalizing s with
  | nil =>
    refine ⟨kept, fun pre e post h => ?_⟩
    cases pre <;> cases h
  | cons first rest ih =>
    simp only [meetsAll, Bool.and_eq_true] at met
    obtain ⟨now, later⟩ := met
    obtain ⟨hrun, hsteps⟩ :=
      ih (step_inTransit transit first).1 (step_kept transit kept now) later
    refine ⟨hrun, fun pre e post h => ?_⟩
    cases pre with
    | nil =>
      cases h
      exact step_justified transit now
    | cons x pre =>
      cases h
      exact hsteps pre e post rfl

end

end Invariant

/-- Over every run in which no acknowledgment removes a more recent instance. -/
theorem run_reliable (areaId ip : BitVec 32) (router : Router) (received : List LsaHeader)
    (events : List Event) (met : meetsAll areaId ip (fresh router received) events = true) :
    Reliable areaId ip (run areaId ip (fresh router received) events) ∧
      ∀ pre e post, events = pre ++ e :: post →
        Justified areaId ip (run areaId ip (fresh router received) pre) e := by
  have transit : InTransit areaId ip (fresh router received) := by
    constructor
    · rintro p ⟨⟩
    · rintro p ⟨⟩
  have kept : Kept areaId ip (fresh router received) := fun k lsa latest => by cases latest
  obtain ⟨hrun, hsteps⟩ := run_kept transit kept met
  exact ⟨reliable_of_kept hrun, hsteps⟩

/-- The next instance of the summary. -/
def nextSummary : OspfLsa :=
  { summary with
    bytes := [0, 1, 0, 3, 10, 1, 0, 0, 1, 1, 1, 1, 0x80, 0, 0, 2, 0x0d, 0x3d, 0, 28,
      255, 255, 0, 0, 0, 0, 0, 5] }

/-- The acknowledgment of one advertisement. -/
def ackOf (lsa : OspfLsa) : AckPacket := ⟨44, lsa.memory⟩

/-- The first instance is acknowledged before the second one is flooded. -/
def inOrder : List Event :=
  [.flood 0 summary, .deliver 0, .sendAck (ackOf summary) fromNeighbor, .recvAck 0,
    .flood 1 nextSummary]

/-- The acknowledgment of the first instance arrives after the second one was flooded,
and the packet with that one is lost. -/
def crossing : List Event :=
  [.flood 0 summary, .deliver 0, .sendAck (ackOf summary) fromNeighbor, .flood 1 nextSummary,
    .recvAck 0]

theorem run_reliable_inOrder :
    meetsAll 0 0x0a000002 (fresh (receiver []) []) inOrder = true ∧
      (run 0 0x0a000002 (fresh (receiver []) []) inOrder).latest summary.key =
        some (copyLsa nextSummary) ∧
      Reliable 0 0x0a000002 (run 0 0x0a000002 (fresh (receiver []) []) inOrder) := by
  have met : meetsAll 0 0x0a000002 (fresh (receiver []) []) inOrder = true := by decide +kernel
  exact ⟨met, by decide +kernel, (run_reliable 0 0x0a000002 (receiver []) [] inOrder met).1⟩

/-- The entry of the second instance is gone, and the neighbor has only the first. -/
theorem late_ack_removes_newer :
    ¬ Reliable 0 0x0a000002 (run 0 0x0a000002 (fresh (receiver []) []) crossing) := by
  intro reliable
  have listed := reliable summary.key (copyLsa nextSummary) (by decide +kernel) (by decide +kernel)
  have gone : lsaListFind (rxmtOf 0 0x0a000002
      (run 0 0x0a000002 (fresh (receiver []) []) crossing).router) summary.key = none := by
    decide +kernel
  rw [gone] at listed
  cases listed

end Retransmission
