import Rcp100.NeighborLists
import Rcp100.StepRuns

/-!
# The limit on adjacencies under way

A router synchronizes its database with at most `OSPF_NB_ADJ_MAX` neighbors of a network at
the same time; the neighbors that have to wait stay in 2-Way with `adj_posponed`. The event
AdjOK and the timer of the network count the neighbors first. The answer to the first Hello
that names the router does not, and neither does an exchange that is begun again in Full.
-/

namespace AdjacencyLimit

open LsaFormat LsUpdate NeighborLists
open Exchange hiding Event

/-- The inactivity timers that run out in this tick, by the address of the neighbor, are left
open. The loop goes on behind a neighbor that stays, or at the same place when the neighbor
is removed. -/
def timeoutLoop (time : BitVec 32) (expires : BitVec 32 → Bool) (a n : Nat) :
    Nat → Nat → Nat → Ospf → Ospf
  | 0, _, _, s => s
  | left+1, b, loadCnt, s =>
    match s.find ⟨a, n, b⟩ with
    | none => s
    | some (_, net, nb) =>
      if nb.state ≠ .down ∧ expires nb.ip = true then
        timeoutLoop time expires a n left (if net.vlink then b + 1 else b) loadCnt
          (nfsmInactivityTimer time s ⟨a, n, b⟩)
      else if loadCnt < ospfNbAdjMax ∧ nb.adjPosponed = true then
        timeoutLoop time expires a n left (b + 1) (loadCnt + 1) (resumeAdj time s ⟨a, n, b⟩)
      else timeoutLoop time expires a n left (b + 1) loadCnt s

/-- The turn of one network in `networkTimeout`: the wait timer, the count, and the loop over
the neighbors. What is sent again is left out. -/
def networkTimeout (time : BitVec 32) (waited : Bool) (expires : BitVec 32 → Bool) (a n : Nat)
    (s : Ospf) : Ospf :=
  match s.netAt a n with
  | none => s
  | some net =>
    if net.state = .down then s
    else
      let s := if net.state = .waiting ∧ waited = true then netfsmWaitTimer time s a n else s
      match s.netAt a n with
      | none => s
      | some net =>
        timeoutLoop time expires a n net.neighbor.length 0 (net.neighbor.countP synchronizing) s

/-- An event of the router, or a tick of the timer of a network. The events that the packets
raise may also come alone. -/
inductive Happening where
  | event (e : Event)
  | tick (a n : Nat) (time : BitVec 32) (waited : Bool) (expires : BitVec 32 → Bool)
  | seqNumberMismatch (p : Place) (time : BitVec 32)
  | exchangeDone (p : Place)
  | loadingDone (p : Place)
  | llDown (p : Place)

def happen (s : Ospf) : Happening → Ospf
  | .event e => step s e
  | .tick a n time waited expires => networkTimeout time waited expires a n s
  | .seqNumberMismatch p time => s.modifyNeighbor p (NeighborLists.nfsmSeqNumberMismatch time)
  | .exchangeDone p => s.modifyNeighbor p (fun _ _ nb =>
      if nb.state = .exchange then { nb with toNb := nfsmExchangeDone nb.toNb } else nb)
  | .loadingDone p => s.modifyNeighbor p (fun _ _ => nfsmLoadingDone)
  | .llDown p => cleanNeighbor s p

/-- The limit on one network: the neighbors with which an adjacency is to be formed and that
are in 2-Way are marked. -/
structure LimitHolds (net : OspfNetwork) : Prop where
  few : net.neighbor.countP synchronizing ≤ ospfNbAdjMax
  others : ∀ nb ∈ net.neighbor, nb.state = .twoWay → becomeAdjacent net nb = true →
    nb.adjPosponed = true

/-- The limit on every network. -/
def AllLimited (s : Ospf) : Prop := ∀ a n net, s.netAt a n = some net → LimitHolds net

/-- `nfsm2WayReceived` begins an adjacency. -/
def beginsTwoWay (net : OspfNetwork) (nb : OspfNeighbor) : Bool :=
  nb.state = .init && becomeAdjacent net nb

/-- A full neighbor sends a description that is not a repetition of its last one. -/
def restarts (nb : OspfNeighbor) (pkt : DdPacket) : Bool :=
  nb.state = .full && (pkt.fields.init || pkt.options ≠ nb.options || !duplicate nb.toNb pkt)

/-- The adjacency that the step begins with a neighbor, if it does, finds room. -/
def finds (s : Ospf) (p : Place) (begins : OspfNetwork → OspfNeighbor → Bool) : Prop :=
  ∀ area net nb, s.find p = some (area, net, nb) → begins net nb = true →
    net.neighbor.countP synchronizing < ospfNbAdjMax

/-- An adjacency that is begun without a count finds room. -/
def Room (s : Ospf) : Happening → Prop
  | .event (.twoWayReceived p _) => finds s p beginsTwoWay
  | .event (.dbdesc p _ _ pkt) => finds s p fun net nb => beginsTwoWay net nb || restarts nb pkt
  | .event (.badLSReq p _) => finds s p fun _ nb => nb.state = .full
  | .seqNumberMismatch p _ => finds s p fun _ nb => nb.state = .full
  | _ => True

section Exchanges

variable {side : Side} {now : Now} {nb : Nb} {pkt : DdPacket}

/-- A neighbor that is at least in ExStart. -/
def Adjacent (nb : Nb) : Prop := NState.exStart.code ≤ nb.state.code

theorem state_mismatch (time : BitVec 32) (nb : Nb) :
    (Exchange.nfsmSeqNumberMismatch side time nb).nb.state = .exStart := rfl

theorem adjacent_exchangeDone (nb : Nb) : Adjacent (nfsmExchangeDone nb) := by
  rw [Adjacent, nfsmExchangeDone]
  dsimp only
  split_ifs <;> decide

theorem adjacent_accept (state : nb.state = .exchange) : Adjacent (accept side now nb pkt).nb := by
  obtain ⟨lsreq, xs, after, -⟩ := examineAll_spec now.db nb pkt.lsas
  have adjacent : Adjacent { nb with lsreq := lsreq, examined := nb.examined ++ xs } := by
    rw [Adjacent, state]
    decide
  rw [accept]
  split_ifs with unknown master
  · rw [Adjacent, state_mismatch]
  · rw [masterReply]
    split_ifs
    · exact adjacent_exchangeDone _
    · rw [after]
      exact adjacent
  · rw [slaveReply]
    split_ifs
    · exact adjacent_exchangeDone _
    · rw [after]
      exact adjacent

theorem state_accept (state : nb.state = .exchange) (fresh : nb.more0sent = false)
    (more : nb.master = false → pkt.fields.more = true) :
    (accept side now nb pkt).nb.state = .exStart ∨
      (accept side now nb pkt).nb.state = .exchange := by
  obtain ⟨lsreq, xs, after, -⟩ := examineAll_spec now.db nb pkt.lsas
  rw [accept, after]
  split_ifs with unknown master
  · exact .inl rfl
  · right
    rw [masterReply, if_neg (by simp [fresh])]
    exact state
  · right
    rw [slaveReply, if_neg (by simp [more (by simpa using master)])]
    exact state

theorem state_rxExStart (state : nb.state = .exStart) :
    (rxExStart side now nb pkt).nb.state = .exStart ∨
      (rxExStart side now nb pkt).nb.state = .exchange := by
  rw [rxExStart]
  split_ifs with slave master
  · refine state_accept rfl rfl fun _ => ?_
    rw [slave.1]
  · exact state_accept rfl rfl fun impossible => by cases impossible
  · exact .inl state

theorem adjacent_dbdescRx (adjacent : Adjacent nb) :
    Adjacent (Exchange.dbdescRx side now nb pkt).nb := by
  have loading : Adjacent (rxLoading side now nb pkt).nb := by
    rw [rxLoading]
    split_ifs
    · rw [Adjacent, state_mismatch]
    · exact adjacent
    · rw [Adjacent, state_mismatch]
  rw [Exchange.dbdescRx]
  split
  · rename_i state
    rcases @state_rxExStart side now nb pkt state with inExStart | inExchange
    · rw [Adjacent, inExStart]
    · rw [Adjacent, inExchange]
      decide
  · rename_i state
    rw [rxExchange]
    split_ifs
    · exact adjacent
    · rw [Adjacent, state_mismatch]
    · exact adjacent_accept state
  · exact loading
  · exact loading
  · exact adjacent

theorem state_rxLoading :
    (rxLoading side now nb pkt).nb.state =
      if pkt.fields.init || pkt.options ≠ nb.options || !duplicate nb pkt then .exStart
      else nb.state := by
  rw [rxLoading]
  cases pkt.fields.init <;> cases decide (pkt.options ≠ nb.options) <;>
    cases duplicate nb pkt <;> rfl

end Exchanges

section Neighbors

variable {area : OspfArea} {net : OspfNetwork} {nb : OspfNeighbor} {time : BitVec 32}

/-- A neighbor that is to be adjacent and is in 2-Way is marked. -/
def Waits (net : OspfNetwork) (nb : OspfNeighbor) : Prop :=
  nb.state = .twoWay → becomeAdjacent net nb = true → nb.adjPosponed = true

/-- What a step does to a neighbor if it begins an adjacency only in the case named. -/
structure Begins (begins : Bool) (net : OspfNetwork) (nb nb' : OspfNeighbor) : Prop where
  enters : begins = true → synchronizing nb = false ∧ synchronizing nb' = true
  stays : begins = false → synchronizing nb' = true → synchronizing nb = true
  waits : Waits net nb → Waits net nb'

theorem Waits.of_state (s : NState) (state : nb.state = s) (other : s ≠ .twoWay) :
    Waits net nb :=
  fun isTwoWay => absurd (state.symm.trans isTwoWay) other

theorem Begins.of_state {nb' : OspfNeighbor} (same : nb'.state = nb.state) (ip : nb'.ip = nb.ip)
    (posponed : nb'.adjPosponed = nb.adjPosponed) : Begins false net nb nb' := by
  refine ⟨fun impossible => absurd impossible Bool.false_ne_true, fun _ busy => ?_,
    fun waits => ?_⟩
  · rw [synchronizing, same] at busy
    exact busy
  · intro state adjacent
    rw [becomeAdjacent, ip] at adjacent
    rw [posponed]
    exact waits (same ▸ state) adjacent

theorem synchronizing_of_state {s : NState} (state : nb.state = s) :
    synchronizing nb = (s = .exStart || s = .exchange || s = .loading) := by
  rw [synchronizing, state]

theorem Begins.of_settled {nb' : OspfNeighbor} (s : NState) (state : nb'.state = s)
    (settled : s = .down ∨ s = .init ∨ s = .full) : Begins false net nb nb' := by
  refine ⟨fun impossible => absurd impossible Bool.false_ne_true, fun _ busy => ?_, fun _ => ?_⟩
  · rw [synchronizing_of_state state] at busy
    rcases settled with rfl | rfl | rfl <;> cases busy
  · refine .of_state s state ?_
    rcases settled with rfl | rfl | rfl <;> decide

theorem Begins.trans {nb' nb'' : OspfNeighbor} (first : Begins false net nb nb')
    (second : Begins false net nb' nb'') : Begins false net nb nb'' :=
  ⟨fun impossible => absurd impossible Bool.false_ne_true,
    fun no busy => first.stays no (second.stays no busy),
    fun waits => second.waits (first.waits waits)⟩

theorem begins_helloReceived (priority : BitVec 8) (dr bdr : BitVec 32) :
    Begins false net nb (nfsmHelloReceived (declare priority dr bdr nb)) := by
  rw [nfsmHelloReceived]
  split_ifs
  · exact .of_settled .init rfl (.inr (.inl rfl))
  · exact .of_state rfl rfl rfl

theorem begins_twoWayReceived :
    Begins (beginsTwoWay net nb) net nb (nfsm2WayReceived time area net nb) := by
  rw [nfsm2WayReceived, beginsTwoWay]
  by_cases state : nb.state = .init
  · have idle : synchronizing nb = false := by
      rw [synchronizing_of_state state]
      rfl
    cases adjacent : becomeAdjacent net nb with
    | false =>
      simp only [state, decide_true, Bool.not_false, Bool.and_self, if_true]
      refine ⟨fun impossible => absurd impossible (by decide), fun _ busy => ?_, fun _ => ?_⟩
      · cases busy
      intro _ becomes
      rw [show becomeAdjacent net (setState .twoWay nb) = becomeAdjacent net nb from rfl,
        adjacent] at becomes
      cases becomes
    | true =>
      simp only [state, decide_true, Bool.not_true, Bool.and_false, Bool.and_self, if_true]
      exact ⟨fun _ => ⟨idle, rfl⟩, fun impossible => absurd impossible (by decide),
        fun _ => .of_state .exStart rfl (by decide)⟩
  · simp only [state, decide_false, Bool.false_and]
    exact .of_state rfl rfl rfl

theorem begins_seqNumberMismatch :
    Begins (decide (nb.state = .full)) net nb
      (NeighborLists.nfsmSeqNumberMismatch time area net nb) := by
  rw [NeighborLists.nfsmSeqNumberMismatch]
  by_cases adjacent : NState.exchange.code ≤ nb.state.code
  · rw [if_pos adjacent]
    refine ⟨fun full => ⟨?_, rfl⟩, fun notFull _ => ?_, fun _ => .of_state .exStart rfl (by decide)⟩
    · rw [synchronizing_of_state (of_decide_eq_true full)]
      rfl
    · rw [synchronizing]
      cases state : nb.state <;> simp_all [NState.code]
  · rw [if_neg adjacent]
    have notFull : nb.state ≠ .full := by
      intro full
      rw [full] at adjacent
      exact adjacent (by decide)
    rw [decide_eq_false notFull]
    exact .of_state rfl rfl rfl

theorem dbdescRx_entered (snapshot : Snapshot) (now : Now) (pkt : DdPacket) :
    (NeighborLists.dbdescRx snapshot now pkt area net nb).state =
        (Exchange.dbdescRx (sideOf area net (entered now.time area net nb) snapshot) now
          (entered now.time area net nb).toNb pkt).nb.state ∧
      (NeighborLists.dbdescRx snapshot now pkt area net nb).ip =
        (entered now.time area net nb).ip ∧
      (NeighborLists.dbdescRx snapshot now pkt area net nb).adjPosponed =
        (entered now.time area net nb).adjPosponed := by
  unfold NeighborLists.dbdescRx
  dsimp only
  split_ifs <;> exact ⟨rfl, rfl, rfl⟩

theorem begins_dbdescRx_later (snapshot : Snapshot) (now : Now) (pkt : DdPacket)
    (later : nb.state ≠ .init) :
    Begins (restarts nb pkt) net nb (NeighborLists.dbdescRx snapshot now pkt area net nb) := by
  obtain ⟨state', ip', posponed'⟩ := @dbdescRx_entered area net nb snapshot now pkt
  rw [entered, if_neg later] at state' ip' posponed'
  by_cases full : nb.state = .full
  · have isRx : Exchange.dbdescRx (sideOf area net nb snapshot) now nb.toNb pkt =
        rxLoading (sideOf area net nb snapshot) now nb.toNb pkt := by
      rw [Exchange.dbdescRx, full]
    rw [isRx, state_rxLoading, full] at state'
    rw [restarts, decide_eq_true full, Bool.true_and]
    cases again : pkt.fields.init || decide (pkt.options ≠ nb.options) ||
      !duplicate nb.toNb pkt with
    | true =>
      rw [again, if_pos rfl] at state'
      refine ⟨fun _ => ⟨?_, ?_⟩, fun impossible => absurd impossible (by decide),
        fun _ => .of_state .exStart state' (by decide)⟩
      · rw [synchronizing_of_state full]
        rfl
      · rw [synchronizing_of_state state']
        rfl
    | false =>
      rw [again, if_neg Bool.false_ne_true] at state'
      exact .of_settled .full state' (.inr (.inr rfl))
  · rw [restarts, decide_eq_false full, Bool.false_and]
    by_cases adjacent : Adjacent nb.toNb
    · have still : Adjacent
          (Exchange.dbdescRx (sideOf area net nb snapshot) now nb.toNb pkt).nb :=
        adjacent_dbdescRx adjacent
      rw [Adjacent, ← state'] at still
      refine ⟨fun impossible => absurd impossible Bool.false_ne_true, fun _ _ => ?_,
        fun _ => fun isTwoWay => ?_⟩
      · rw [Adjacent] at adjacent
        rw [synchronizing]
        cases state : nb.state <;> simp_all [NState.code]
      · rw [isTwoWay] at still
        exact absurd still (by decide)
    · rw [dbdescRx_below (Nat.lt_of_not_le adjacent)] at state'
      exact .of_state state' ip' posponed'

/-- A packet to a neighbor in Init falls through to ExStart when the adjacency is begun. -/
theorem begins_dbdescRx_init (snapshot : Snapshot) (now : Now) (pkt : DdPacket)
    (state : nb.state = .init) :
    Begins (beginsTwoWay net nb) net nb
      (NeighborLists.dbdescRx snapshot now pkt area net nb) := by
  obtain ⟨state', ip', posponed'⟩ := @dbdescRx_entered area net nb snapshot now pkt
  have began := @begins_twoWayReceived area net nb now.time
  rw [entered, if_pos state] at state' ip' posponed'
  cases begins : beginsTwoWay net nb with
  | true =>
    rw [beginsTwoWay, decide_eq_true state, Bool.true_and] at begins
    have isExStart : (nfsm2WayReceived now.time area net nb).toNb.state = .exStart := by
      rw [nfsm2WayReceived, begins, state]
      rfl
    have isRx : Exchange.dbdescRx (sideOf area net (nfsm2WayReceived now.time area net nb) snapshot)
        now (nfsm2WayReceived now.time area net nb).toNb pkt =
        rxExStart (sideOf area net (nfsm2WayReceived now.time area net nb) snapshot) now
          (nfsm2WayReceived now.time area net nb).toNb pkt := by
      rw [Exchange.dbdescRx, isExStart]
    rw [isRx] at state'
    have busy : synchronizing (NeighborLists.dbdescRx snapshot now pkt area net nb) = true ∧
        (NeighborLists.dbdescRx snapshot now pkt area net nb).state ≠ .twoWay := by
      rcases @state_rxExStart _ now _ pkt isExStart with inExStart | inExchange
      · rw [synchronizing_of_state (state'.trans inExStart), state', inExStart]
        decide
      · rw [synchronizing_of_state (state'.trans inExchange), state', inExchange]
        decide
    refine ⟨fun _ => ⟨?_, busy.1⟩, fun impossible => absurd impossible (by decide),
      fun _ => fun isTwoWay => absurd isTwoWay busy.2⟩
    rw [synchronizing_of_state state]
    rfl
  | false =>
    rw [begins] at began
    rw [beginsTwoWay, decide_eq_true state, Bool.true_and] at begins
    have isTwoWay : (nfsm2WayReceived now.time area net nb).toNb.state = .twoWay := by
      rw [nfsm2WayReceived, begins, state]
      rfl
    rw [dbdescRx_below (by rw [isTwoWay]; decide)] at state'
    exact began.trans (.of_state state' ip' posponed')

theorem begins_dbdescRx (snapshot : Snapshot) (now : Now) (pkt : DdPacket) :
    Begins (beginsTwoWay net nb || restarts nb pkt) net nb
      (NeighborLists.dbdescRx snapshot now pkt area net nb) := by
  by_cases state : nb.state = .init
  · have notFull : restarts nb pkt = false := by
      rw [restarts, state]
      rfl
    rw [notFull, Bool.or_false]
    exact begins_dbdescRx_init snapshot now pkt state
  · have notInit : beginsTwoWay net nb = false := by
      rw [beginsTwoWay, decide_eq_false state, Bool.false_and]
    rw [notInit, Bool.false_or]
    exact begins_dbdescRx_later snapshot now pkt state

end Neighbors

section Networks

variable {net net' : OspfNetwork} {todo todo' : Nat → Prop}

/-- The limit on a network, where the marks of some neighbors are still open. -/
structure Pending (todo : Nat → Prop) (net : OspfNetwork) : Prop where
  few : net.neighbor.countP synchronizing ≤ ospfNbAdjMax
  others : ∀ b nb, net.neighbor[b]? = some nb → ¬ todo b → Waits net nb

theorem limitHolds_iff : LimitHolds net ↔ Pending (fun _ => False) net := by
  constructor
  · intro holds
    exact ⟨holds.few, fun b nb stands _ => holds.others nb (List.mem_of_getElem? stands)⟩
  · intro pending
    refine ⟨pending.few, fun nb member => ?_⟩
    obtain ⟨b, stands⟩ := List.mem_iff_getElem?.mp member
    exact pending.others b nb stands id

theorem Pending.mono (pending : Pending todo net) (more : ∀ b, todo b → todo' b) :
    Pending todo' net :=
  ⟨pending.few, fun b nb stands out => pending.others b nb stands fun old => out (more b old)⟩

/-- What the limit reads of a neighbor. -/
def slot (nb : OspfNeighbor) : BitVec 32 × NState × Bool := (nb.ip, nb.state, nb.adjPosponed)

/-- The limit reads the same of two networks. -/
structure Same (net net' : OspfNetwork) : Prop where
  vlink : net'.vlink = net.vlink
  ip : net'.ip = net.ip
  designatedRouter : net'.designatedRouter = net.designatedRouter
  backupRouter : net'.backupRouter = net.backupRouter
  neighbor : net'.neighbor.map slot = net.neighbor.map slot

theorem Same.refl (net : OspfNetwork) : Same net net := ⟨rfl, rfl, rfl, rfl, rfl⟩

theorem Same.trans (x y z : OspfNetwork) (first : Same x y) (second : Same y z) : Same x z where
  vlink := second.vlink.trans first.vlink
  ip := second.ip.trans first.ip
  designatedRouter := second.designatedRouter.trans first.designatedRouter
  backupRouter := second.backupRouter.trans first.backupRouter
  neighbor := second.neighbor.trans first.neighbor

variable {f : OspfNeighbor → OspfNeighbor} {b : Nat}

theorem Same.modifyNb (b : Nat) (net : OspfNetwork)
    (keeps : ∀ nb, slot (f nb) = slot nb) : Same net (net.modifyNb b f) := by
  refine ⟨rfl, rfl, rfl, rfl, ?_⟩
  apply List.ext_getElem?
  intro i
  simp only [OspfNetwork.modifyNb, List.getElem?_map, List.getElem?_modify]
  by_cases here : b = i
  · cases net.neighbor[i]? <;> simp [here, keeps]
  · simp [here]

theorem Same.lsaTxNetwork (lsa : OspfLsa) (net : OspfNetwork) :
    Same net (NeighborLists.lsaTxNetwork lsa net) := by
  unfold NeighborLists.lsaTxNetwork
  split
  · exact ⟨rfl, rfl, rfl, rfl, List.map_map⟩
  · exact Same.refl net

theorem Same.getElem? (same : Same net net') {nb' : OspfNeighbor}
    (stands : net'.neighbor[b]? = some nb') :
    ∃ nb, net.neighbor[b]? = some nb ∧ slot nb' = slot nb := by
  have there : (net.neighbor.map slot)[b]? = some (slot nb') := by
    rw [← same.neighbor, List.getElem?_map, stands]
    rfl
  rw [List.getElem?_map] at there
  obtain ⟨nb, isNb, isSlot⟩ := Option.map_eq_some_iff.mp there
  exact ⟨nb, isNb, isSlot.symm⟩

theorem Same.becomeAdjacent (same : Same net net') {nb nb' : OspfNeighbor}
    (slots : slot nb' = slot nb) :
    NeighborLists.becomeAdjacent net' nb' = NeighborLists.becomeAdjacent net nb := by
  have ip : nb'.ip = nb.ip := congrArg Prod.fst slots
  rw [NeighborLists.becomeAdjacent, NeighborLists.becomeAdjacent, same.vlink, same.ip,
    same.designatedRouter, same.backupRouter, ip]

theorem Same.countP (same : Same net net') :
    net'.neighbor.countP synchronizing = net.neighbor.countP synchronizing := by
  have read (list : List OspfNeighbor) : list.countP synchronizing =
      (list.map slot).countP
        (fun t => t.2.1 = .exStart || t.2.1 = .exchange || t.2.1 = .loading) := by
    rw [List.countP_map]
    rfl
  rw [read, read, same.neighbor]

theorem Pending.same (pending : Pending todo net) (same : Same net net') : Pending todo net' := by
  refine ⟨same.countP ▸ pending.few, ?_⟩
  intro b nb' stands out isTwoWay adjacent
  obtain ⟨nb, there, slots⟩ := same.getElem? stands
  have state : nb'.state = nb.state := congrArg (·.2.1) slots
  have posponed : nb'.adjPosponed = nb.adjPosponed := congrArg (·.2.2) slots
  rw [posponed]
  exact pending.others b nb there out (state ▸ isTwoWay) (same.becomeAdjacent slots ▸ adjacent)

theorem countP_modify {α : Type} {list : List α} {f : α → α} {x : α} (p : α → Bool)
    (stands : list[b]? = some x) :
    (list.modify b f).countP p + (if p x then 1 else 0) =
      list.countP p + (if p (f x) then 1 else 0) := by
  induction list generalizing b with
  | nil => cases stands
  | cons y list ih =>
    cases b with
    | zero =>
      cases stands
      rw [List.modify_zero_cons, List.countP_cons, List.countP_cons]
      omega
    | succ b =>
      rw [List.modify_succ_cons, List.countP_cons, List.countP_cons]
      have rest := ih (b := b) stands
      omega

theorem Pending.modifyNb (pending : Pending todo net) (b : Nat)
    (room : ∀ nb, net.neighbor[b]? = some nb → synchronizing (f nb) = true →
      synchronizing nb = true ∨ net.neighbor.countP synchronizing < ospfNbAdjMax)
    (waits : ∀ nb, net.neighbor[b]? = some nb → ¬ todo' b → Waits net (f nb))
    (fewer : ∀ i, i ≠ b → todo i → todo' i) : Pending todo' (net.modifyNb b f) := by
  constructor
  · cases stands : net.neighbor[b]? with
    | none =>
      have same : net.neighbor.modify b f = net.neighbor :=
        List.modify_eq_self (List.getElem?_eq_none_iff.mp stands)
      rw [OspfNetwork.modifyNb, same]
      exact pending.few
    | some nb =>
      have count := countP_modify (f := f) synchronizing stands
      have few := pending.few
      change (net.neighbor.modify b f).countP synchronizing ≤ _
      cases busy' : synchronizing (f nb) with
      | false =>
        rw [busy', if_neg Bool.false_ne_true] at count
        omega
      | true =>
        rw [busy', if_pos rfl] at count
        rcases room nb stands busy' with busy | free
        · rw [busy, if_pos rfl] at count
          omega
        · omega
  · intro i nb stands out
    rw [OspfNetwork.modifyNb, List.getElem?_modify] at stands
    by_cases here : b = i
    · subst here
      obtain ⟨old, there, rfl⟩ := Option.map_eq_some_iff.mp (by simpa using stands)
      exact waits old there out
    · simp only [here, if_false] at stands
      exact pending.others i nb (by simpa using stands)
        fun open' => out (fewer i (fun same => here same.symm) open')

theorem broken_modifyNb {nb : OspfNeighbor}
    (stands : net.neighbor[b]? = some nb)
    (full : ospfNbAdjMax ≤ net.neighbor.countP synchronizing)
    (enters : synchronizing nb = false ∧ synchronizing (f nb) = true) :
    ¬ LimitHolds (net.modifyNb b f) := by
  intro holds
  have count := countP_modify (f := f) synchronizing stands
  rw [enters.1, enters.2, if_neg Bool.false_ne_true, if_pos rfl] at count
  have few : (net.neighbor.modify b f).countP synchronizing ≤ ospfNbAdjMax := holds.few
  omega

end Networks

section Steps

variable {s : Ospf} {p : Place} {a n : Nat} {todo todo' : Nat → Nat → Nat → Prop}

/-- The limit on every network, where the marks of some neighbors are still open. -/
def Kept (todo : Nat → Nat → Nat → Prop) (s : Ospf) : Prop :=
  ∀ a n net, s.netAt a n = some net → Pending (todo a n) net

/-- Nothing is open. -/
abbrev settled : Nat → Nat → Nat → Prop := fun _ _ _ => False

/-- Some neighbors of one network are open. -/
def openAt (a n : Nat) (todo : Nat → Prop) : Nat → Nat → Nat → Prop :=
  fun a' n' b => (a' = a ∧ n' = n) ∧ todo b

theorem allLimited_iff : AllLimited s ↔ Kept settled s :=
  forall_congr' fun _ => forall_congr' fun _ => forall_congr' fun _ =>
    imp_congr_right fun _ => limitHolds_iff

theorem Kept.mono (kept : Kept todo s) (more : ∀ a n b, todo a n b → todo' a n b) :
    Kept todo' s :=
  fun a n net found => (kept a n net found).mono (more a n)

theorem Kept.related {s' : Ospf} (kept : Kept todo s) (related : Related Same s s') :
    Kept todo s' := by
  intro a n net' found
  obtain ⟨net, before, same⟩ := related a n net' found
  exact (kept a n net before).same same

theorem related_clearLsa (s : Ospf) (p : Place) : Related Same s (clearLsa s p) :=
  Related.clearLsa Same.refl Same.trans Same.lsaTxNetwork
    (fun b net => Same.modifyNb b net fun _ => rfl) s p

theorem netAt_modifyNetwork {f : OspfArea → OspfNetwork → OspfNetwork} {a' n' : Nat}
    {net' : OspfNetwork} (found : (s.modifyNetwork a n f).netAt a' n' = some net') :
    (s.netAt a' n' = some net' ∧ ¬ (a' = a ∧ n' = n)) ∨
      (a' = a ∧ n' = n) ∧ ∃ area net, s.area[a]? = some area ∧ area.network[n]? = some net ∧
        net' = f area net := by
  obtain ⟨area', hasArea, hasNet⟩ := netAt_eq_some.mp found
  simp only [Ospf.modifyNetwork, Ospf.modifyArea] at hasArea
  by_cases hereArea : a = a'
  · subst hereArea
    rw [List.getElem?_modify_eq] at hasArea
    obtain ⟨area, before, rfl⟩ := Option.map_eq_some_iff.mp hasArea
    by_cases hereNet : n = n'
    · subst hereNet
      simp only [List.getElem?_modify_eq] at hasNet
      obtain ⟨net, stands, rfl⟩ := Option.map_eq_some_iff.mp hasNet
      exact .inr ⟨⟨rfl, rfl⟩, area, net, before, stands, rfl⟩
    · simp only [List.getElem?_modify_ne _ _ hereNet] at hasNet
      exact .inl ⟨netAt_eq_some.mpr ⟨area, before, hasNet⟩, fun same => hereNet same.2.symm⟩
  · rw [List.getElem?_modify_ne _ _ hereArea] at hasArea
    exact .inl ⟨netAt_eq_some.mpr ⟨area', hasArea, hasNet⟩, fun same => hereArea same.1.symm⟩

theorem Kept.modifyNetwork {f : OspfArea → OspfNetwork → OspfNetwork} (kept : Kept todo s)
    (keeps : ∀ area net, s.area[a]? = some area → area.network[n]? = some net →
      Pending (todo a n) net → Pending (todo' a n) (f area net))
    (elsewhere : ∀ a' n' b, ¬ (a' = a ∧ n' = n) → todo a' n' b → todo' a' n' b) :
    Kept todo' (s.modifyNetwork a n f) := by
  intro a' n' net' found
  rcases netAt_modifyNetwork found with ⟨before, other⟩ |
    ⟨⟨rfl, rfl⟩, area, net, hasArea, hasNet, rfl⟩
  · exact (kept a' n' net' before).mono fun b => elsewhere a' n' b other
  · exact keeps area net hasArea hasNet (kept _ _ net (netAt_eq_some.mpr ⟨area, hasArea, hasNet⟩))

variable {f : OspfArea → OspfNetwork → OspfNeighbor → OspfNeighbor}

theorem Kept.modifyNeighbor (kept : Kept todo s)
    (room : ∀ area net nb, s.find p = some (area, net, nb) →
      synchronizing (f area net nb) = true →
      synchronizing nb = true ∨ net.neighbor.countP synchronizing < ospfNbAdjMax)
    (waits : ∀ area net nb, s.find p = some (area, net, nb) → ¬ todo' p.area p.net p.nb →
      Waits net (f area net nb))
    (fewer : ∀ a n b, ¬ ((a = p.area ∧ n = p.net) ∧ b = p.nb) → todo a n b → todo' a n b) :
    Kept todo' (s.modifyNeighbor p f) := by
  refine kept.modifyNetwork ?_ fun a n b other => fewer a n b fun same => other same.1
  intro area net hasArea hasNet pending
  refine pending.modifyNb p.nb ?_ ?_ fun b other => fewer _ _ b fun same => other same.2
  · exact fun nb stands => room area net nb (find_eq_some.mpr ⟨hasArea, hasNet, stands⟩)
  · exact fun nb stands => waits area net nb (find_eq_some.mpr ⟨hasArea, hasNet, stands⟩)

theorem Kept.begins {begins : OspfNetwork → OspfNeighbor → Bool} (kept : Kept settled s)
    (step : ∀ area net nb, Begins (begins net nb) net nb (f area net nb))
    (room : finds s p begins) : Kept settled (s.modifyNeighbor p f) := by
  refine kept.modifyNeighbor ?_ ?_ fun _ _ _ _ impossible => impossible
  · intro area net nb found busy
    cases isBegin : begins net nb with
    | true => exact .inr (room area net nb found isBegin)
    | false => exact .inl ((step area net nb).stays isBegin busy)
  · intro area net nb found out
    obtain ⟨hasArea, hasNet, stands⟩ := find_eq_some.mp found
    have pending := kept p.area p.net net (netAt_eq_some.mpr ⟨area, hasArea, hasNet⟩)
    exact (step area net nb).waits (pending.others p.nb nb stands out)

theorem Kept.idle
    (kept : Kept settled s) (step : ∀ area net nb, Begins false net nb (f area net nb)) :
    Kept settled (s.modifyNeighbor p f) :=
  kept.begins step
    fun _ _ _ _ impossible => absurd impossible Bool.false_ne_true

theorem not_allLimited {begins : OspfNetwork → OspfNeighbor → Bool}
    (step : ∀ area net nb, Begins (begins net nb) net nb (f area net nb))
    (full : ¬ finds s p begins) : ¬ AllLimited (s.modifyNeighbor p f) := by
  intro all
  refine full fun area net nb found isBegin => Nat.lt_of_not_le fun many => ?_
  obtain ⟨area', found', -⟩ := find_modifyNeighbor (f := f) found
  obtain ⟨hasArea, hasNet, -⟩ := find_eq_some.mp found'
  exact broken_modifyNb (find_eq_some.mp found).2.2 many ((step area net nb).enters isBegin)
    (all p.area p.net _ (netAt_eq_some.mpr ⟨area', hasArea, hasNet⟩))

end Steps

section Events

variable {s : Ospf} {p : Place} {a n : Nat} {time : BitVec 32} {todo todo' : Nat → Nat → Nat → Prop}

theorem Kept.drop (kept : Kept todo s)
    (done : ∀ area net nb, s.find p = some (area, net, nb) → ¬ todo' p.area p.net p.nb →
      Waits net nb)
    (fewer : ∀ a n b, ¬ ((a = p.area ∧ n = p.net) ∧ b = p.nb) → todo a n b → todo' a n b) :
    Kept todo' s := by
  intro a n net found
  refine ⟨(kept a n net found).few, fun b nb stands out => ?_⟩
  by_cases here : (a = p.area ∧ n = p.net) ∧ b = p.nb
  · obtain ⟨⟨rfl, rfl⟩, rfl⟩ := here
    obtain ⟨area, hasArea, hasNet⟩ := netAt_eq_some.mp found
    exact done area net nb (find_eq_some.mpr ⟨hasArea, hasNet, stands⟩) out
  · exact (kept a n net found).others b nb stands fun old => out (fewer a n b here old)

theorem Kept.adjOK (kept : Kept todo s)
    (fewer : ∀ a n b, ¬ ((a = p.area ∧ n = p.net) ∧ b = p.nb) → todo a n b → todo' a n b) :
    Kept todo' (nfsmAdjOK time s p) := by
  rw [nfsmAdjOK]
  split
  · rename_i none
    exact kept.drop (fun _ _ _ found => by cases none.symm.trans found) fewer
  · rename_i area net nb found
    split_ifs with joins full breaks
    · refine kept.modifyNeighbor (fun _ _ _ _ busy => .inl busy) (fun _ _ _ _ _ => ?_) fewer
      exact fun _ _ => rfl
    · refine kept.modifyNeighbor (fun area' net' nb' found' _ => ?_) (fun _ _ _ _ _ => ?_) fewer
      · cases found.symm.trans found'
        exact .inr (Nat.lt_of_not_le full)
      · exact .of_state .exStart rfl (by decide)
    · have related := related_clearLsa s p
      refine (kept.related related).modifyNeighbor (fun _ _ _ _ busy => by cases busy)
        (fun area' net' nb' found' _ => ?_) fewer
      obtain ⟨hasArea', hasNet', stands'⟩ := find_eq_some.mp found'
      obtain ⟨before, isNet, same⟩ := related p.area p.net net'
        (netAt_eq_some.mpr ⟨area', hasArea', hasNet'⟩)
      obtain ⟨old, stands, slots⟩ := same.getElem? stands'
      obtain ⟨hasArea, hasNet, isNb⟩ := find_eq_some.mp found
      cases (netAt_eq_some.mpr ⟨area, hasArea, hasNet⟩).symm.trans isNet
      cases isNb.symm.trans stands
      intro _ adjacent
      have apart : becomeAdjacent net nb = false := by
        simpa using (Bool.and_eq_true_iff.mp breaks).2
      have moved : becomeAdjacent net' (setState .twoWay nb') = becomeAdjacent net' nb' := rfl
      rw [moved, same.becomeAdjacent slots, apart] at adjacent
      cases adjacent
    · refine kept.drop (fun area' net' nb' found' _ => ?_) fewer
      cases found.symm.trans found'
      intro isTwoWay adjacent
      exact absurd (Bool.and_eq_true_iff.mpr ⟨decide_eq_true isTwoWay, adjacent⟩) joins

theorem Kept.adjOkAll (bs : List Nat) (kept : Kept (openAt a n (· ∈ bs)) s) :
    Kept settled (adjOkAll time a n bs s) := by
  induction bs generalizing s with
  | nil => exact kept.mono fun _ _ _ impossible => absurd impossible.2 List.not_mem_nil
  | cons b bs ih =>
    have fewer : ∀ a' n' b', ¬ ((a' = a ∧ n' = n) ∧ b' = b) → openAt a n (· ∈ b :: bs) a' n' b' →
        openAt a n (· ∈ bs) a' n' b' := by
      rintro a' n' b' other ⟨here, member⟩
      exact ⟨here, (List.mem_cons.mp member).resolve_left fun same => other ⟨here, same⟩⟩
    rw [NeighborLists.adjOkAll]
    refine ih ?_
    split_ifs with bidirectional
    · exact kept.adjOK (p := ⟨a, n, b⟩) fewer
    · refine kept.drop (p := ⟨a, n, b⟩) (fun area net nb found _ => ?_) fewer
      intro isTwoWay
      refine absurd ?_ bidirectional
      rw [found]
      exact decide_eq_true (by rw [isTwoWay])

theorem Kept.electIn {states : List NetState} (kept : Kept settled s) :
    Kept settled (electIn states time s a n) := by
  rw [NeighborLists.electIn]
  split
  · exact kept
  · rename_i net found
    split_ifs
    · refine Kept.related ?_
        (Related.modifyNetwork Same.refl a n fun _ _ => ⟨rfl, rfl, rfl, rfl, rfl⟩)
      rw [drbdrElection, found]
      dsimp only
      split_ifs with isChanged
      · refine Kept.adjOkAll _ (kept.modifyNetwork ?_ fun _ _ _ _ impossible => impossible.elim)
        intro area net' hasArea hasNet pending
        cases found.symm.trans (netAt_eq_some.mpr ⟨area, hasArea, hasNet⟩)
        refine ⟨pending.few, fun b nb stands out => ?_⟩
        have bound : b < net.neighbor.length := (List.getElem?_eq_some_iff.mp stands).1
        exact absurd ⟨⟨rfl, rfl⟩, List.mem_range.mpr bound⟩ out
      · refine kept.modifyNetwork ?_ fun _ _ _ _ impossible => impossible
        intro area net' hasArea hasNet pending
        cases found.symm.trans (netAt_eq_some.mpr ⟨area, hasArea, hasNet⟩)
        simp only [changed, Bool.or_eq_true, decide_eq_true_eq, not_or, not_not] at isChanged
        exact pending.same ⟨rfl, rfl, isChanged.1, isChanged.2, rfl⟩
    · exact kept

theorem Kept.cleanNeighbor (kept : Kept todo s) (p : Place) :
    Kept todo (cleanNeighbor s p) :=
  (kept.modifyNeighbor (fun _ _ _ _ busy => by cases busy)
    (fun _ _ _ _ _ => .of_state .down rfl (by decide)) fun _ _ _ _ same => same).related
      (related_clearLsa _ p)

theorem Kept.neighborRemove (kept : Kept settled s) (p : Place) :
    Kept settled (neighborRemove s p) := by
  refine kept.modifyNetwork ?_ fun _ _ _ _ impossible => impossible
  intro area net _ _ pending
  have holds := limitHolds_iff.mpr pending
  refine limitHolds_iff.mp ⟨?_, fun nb member => holds.others nb (List.mem_of_mem_eraseIdx member)⟩
  exact Nat.le_trans (List.eraseIdx_sublist _ _).countP_le holds.few

theorem Kept.killNbr (kept : Kept settled s) : Kept settled (nfsmKillNbr time s p) :=
  ((kept.cleanNeighbor p).neighborRemove p).electIn

theorem Kept.inactivityTimer (kept : Kept settled s) :
    Kept settled (nfsmInactivityTimer time s p) := by
  rw [nfsmInactivityTimer]
  split_ifs
  · exact kept.cleanNeighbor p
  · exact kept.killNbr

theorem Kept.resumeAdj (kept : Kept settled s) : Kept settled (resumeAdj time s p) := by
  rw [NeighborLists.resumeAdj]
  split
  · exact kept
  · split_ifs
    · have cleared : Kept (openAt p.area p.net (· = p.nb))
          (s.modifyNeighbor p (fun _ _ nb => { nb with adjPosponed := false })) :=
        kept.modifyNeighbor (fun _ _ _ _ busy => .inl busy)
          (fun _ _ _ _ out => absurd ⟨⟨rfl, rfl⟩, rfl⟩ out)
          fun _ _ _ _ impossible => impossible.elim
      exact cleared.adjOK fun _ _ _ other same => other same
    · exact kept

end Events

section Down

variable {s : Ospf} {p : Place} {a n : Nat} {time : BitVec 32}

/-- The network has as many neighbors as before. -/
def SameLength (net net' : OspfNetwork) : Prop := net'.neighbor.length = net.neighbor.length

theorem related_cleanNeighbor (s : Ospf) (p : Place) :
    Related SameLength s (cleanNeighbor s p) := by
  have refl (net : OspfNetwork) : SameLength net net := rfl
  have trans (x y z : OspfNetwork) (first : SameLength x y) (second : SameLength y z) :
      SameLength x z :=
    second.trans first
  have modified (b : Nat) (f : OspfNeighbor → OspfNeighbor) (net : OspfNetwork) :
      SameLength net (net.modifyNb b f) :=
    List.length_modify _ _ _
  refine Related.trans trans (Related.modifyNetwork refl p.area p.net fun _ net => modified _ _ net)
    (Related.clearLsa refl trans ?_ (fun b net => modified b _ net) _ p)
  intro lsa net
  have lengths := congrArg List.length (Same.lsaTxNetwork lsa net).neighbor
  rwa [List.length_map, List.length_map] at lengths

theorem kept_killAll (k : Nat) (kept : Kept (openAt a n fun _ => True) s) (down : IsDown s a n)
    (length : ∀ net, s.netAt a n = some net → net.neighbor.length = k) :
    Kept settled (killAll time a n k s) := by
  induction k generalizing s with
  | zero =>
    intro a' n' net found
    by_cases here : a' = a ∧ n' = n
    · obtain ⟨rfl, rfl⟩ := here
      have empty := List.eq_nil_of_length_eq_zero (length net found)
      refine ⟨(kept a' n' net found).few, fun b nb stands _ => ?_⟩
      rw [empty] at stands
      cases stands
    · exact (kept a' n' net found).mono fun b impossible => here impossible.1
  | succ k ih =>
    let p : Place := ⟨a, n, 0⟩
    have removed : IsDown (neighborRemove (cleanNeighbor s p) p) a n :=
      down.steady (Steady.removed s p)
    have killed : nfsmKillNbr time s p = neighborRemove (cleanNeighbor s p) p :=
      netfsmNeighborChange_down removed time
    rw [killAll, killed]
    refine ih ((kept.cleanNeighbor p).modifyNetwork ?_ fun _ _ _ _ same => same) removed ?_
    · intro area net hasArea hasNet pending
      refine ⟨Nat.le_trans (List.eraseIdx_sublist _ _).countP_le pending.few, ?_⟩
      exact fun _ _ _ out => absurd ⟨⟨rfl, rfl⟩, trivial⟩ out
    · intro net' found
      rcases netAt_modifyNetwork found with ⟨-, other⟩ | ⟨-, area, net, hasArea, hasNet, rfl⟩
      · exact absurd ⟨rfl, rfl⟩ other
      · obtain ⟨before, isNet, same⟩ := related_cleanNeighbor s p a n net
          (netAt_eq_some.mpr ⟨area, hasArea, hasNet⟩)
        have count : net.neighbor.length = k + 1 := same.trans (length before isNet)
        change (net.neighbor.eraseIdx 0).length = k
        rw [List.length_eraseIdx_of_lt (by omega), count, Nat.add_sub_cancel]

theorem Kept.interfaceDown (kept : Kept settled s) :
    Kept settled (netfsmInterfaceDown time s a n) := by
  rw [netfsmInterfaceDown]
  split
  · exact kept
  · rename_i net found
    refine kept_killAll _ (kept.modifyNetwork ?_ fun _ _ _ _ impossible => impossible.elim)
      (isDown_goDown s a n) ?_
    · exact fun area net _ _ pending =>
        ⟨pending.few, fun _ _ _ out => absurd ⟨⟨rfl, rfl⟩, trivial⟩ out⟩
    · intro net' found'
      rcases netAt_modifyNetwork found' with ⟨-, other⟩ | ⟨-, area, old, hasArea, hasNet, rfl⟩
      · exact absurd ⟨rfl, rfl⟩ other
      · cases found.symm.trans (netAt_eq_some.mpr ⟨area, hasArea, hasNet⟩)
        rfl

end Down

section Runs

variable {s : Ospf} {p : Place} {a n : Nat} {time : BitVec 32}

theorem Kept.oneWay (kept : Kept settled s) : Kept settled (nfsm1Way s p) := by
  rw [nfsm1Way]
  split
  · exact kept
  · split_ifs
    · refine Kept.related (kept.idle fun _ _ _ => ?_) (related_clearLsa _ p)
      exact .of_settled .init rfl (.inr (.inl rfl))
    · exact kept

theorem Kept.addNeighbor (kept : Kept settled s) (ip routerId : BitVec 32) :
    Kept settled (s.modifyNetwork a n fun _ => neighborAdd (newNeighbor ip routerId)) := by
  refine kept.modifyNetwork ?_ fun _ _ _ _ impossible => impossible
  intro _ net _ _ pending
  rw [neighborAdd]
  split_ifs
  · exact pending
  · have holds := limitHolds_iff.mpr pending
    refine limitHolds_iff.mp ⟨?_, ?_⟩
    · change (newNeighbor ip routerId :: net.neighbor).countP synchronizing ≤ _
      rw [List.countP_cons_of_neg Bool.false_ne_true]
      exact holds.few
    · intro nb member
      rcases List.mem_cons.mp member with rfl | there
      · exact Waits.of_state .down rfl (by decide)
      · exact holds.others nb there

variable {net : OspfNetwork} {nb : OspfNeighbor}

theorem begins_loadingDone :
    Begins false net nb (nfsmLoadingDone nb) := by
  rw [nfsmLoadingDone]
  split_ifs
  · exact .of_settled .full rfl (.inr (.inr rfl))
  · exact .of_state rfl rfl rfl

theorem begins_loadingDoneIf :
    Begins false net nb (loadingDoneIf nb) := by
  rw [loadingDoneIf]
  split_ifs
  · exact begins_loadingDone
  · exact .of_state rfl rfl rfl

theorem begins_exchangeDone :
    Begins false net nb
      (if nb.state = .exchange then { nb with toNb := nfsmExchangeDone nb.toNb } else nb) := by
  split_ifs with state
  · refine ⟨fun impossible => absurd impossible Bool.false_ne_true, fun _ _ => ?_,
      fun _ isTwoWay => ?_⟩
    · rw [synchronizing_of_state state]
      rfl
    · have adjacent : Adjacent (nfsmExchangeDone nb.toNb) := adjacent_exchangeDone nb.toNb
      rw [Adjacent, isTwoWay] at adjacent
      exact absurd adjacent (by decide)
  · exact .of_state rfl rfl rfl

theorem related_setLsdb (s : Ospf) (a : Nat) (list extlist : List OspfLsa) :
    Related Same s (s.setLsdb a list extlist) :=
  Related.modifyArea (s := s) Same.refl a fun _ _ net' found => ⟨net', found, Same.refl net'⟩

theorem Kept.lsupdateRx (kept : Kept settled s) (pkt : UpdatePacket) (desc : PacketDesc) :
    Kept settled (lsupdateRx s p pkt desc) := by
  rw [NeighborLists.lsupdateRx]
  split
  · exact kept
  · split_ifs
    · refine Kept.related (kept.idle fun _ net nb => ?_) (related_setLsdb _ _ _ _)
      refine Begins.trans ?_ begins_loadingDoneIf
      exact .of_state rfl rfl rfl
    · exact kept

theorem Kept.timeoutLoop {expires : BitVec 32 → Bool} {left b loadCnt : Nat}
    (kept : Kept settled s) : Kept settled (timeoutLoop time expires a n left b loadCnt s) := by
  induction left generalizing s b loadCnt with
  | zero => exact kept
  | succ left ih =>
    rw [AdjacencyLimit.timeoutLoop]
    split
    · exact kept
    · split_ifs
      · exact ih kept.inactivityTimer
      · exact ih kept.inactivityTimer
      · exact ih kept.resumeAdj
      · exact ih kept

theorem Kept.networkTimeout {waited : Bool} {expires : BitVec 32 → Bool} (kept : Kept settled s) :
    Kept settled (networkTimeout time waited expires a n s) := by
  have elected : Kept settled (netfsmWaitTimer time s a n) := kept.electIn
  rw [AdjacencyLimit.networkTimeout]
  split
  · exact kept
  · split_ifs
    · exact kept
    · dsimp only
      split
      · exact elected
      · exact elected.timeoutLoop
    · dsimp only
      split
      · exact kept
      · exact kept.timeoutLoop

theorem kept_happen (kept : Kept settled s) (h : Happening) (room : Room s h) :
    Kept settled (happen s h) := by
  cases h with
  | event e =>
    cases e with
    | interfaceUp a n =>
      refine Kept.related kept (Related.modifyNetwork Same.refl a n fun _ net => ?_)
      rw [netfsmInterfaceUp]
      split_ifs
      · exact ⟨rfl, rfl, rfl, rfl, rfl⟩
      · exact Same.refl net
    | interfaceDown a n time => exact kept.interfaceDown
    | waitTimer a n time => exact kept.electIn
    | backupSeen a n time => exact kept.electIn
    | neighborChange a n time => exact kept.electIn
    | addNeighbor a n ip routerId => exact kept.addNeighbor ip routerId
    | hello p priority dr bdr => exact kept.idle fun _ _ _ => begins_helloReceived priority dr bdr
    | twoWayReceived p time => exact kept.begins (fun _ _ _ => begins_twoWayReceived) room
    | oneWay p => exact kept.oneWay
    | dbdesc p snapshot now pkt =>
      exact kept.begins (fun _ _ _ => begins_dbdescRx snapshot now pkt) room
    | lsupdate p pkt desc => exact kept.lsupdateRx pkt desc
    | badLSReq p time =>
      exact kept.begins (fun _ _ _ => begins_seqNumberMismatch)
        fun area net nb found full => room area net nb found full
    | lsack p pkt =>
      refine kept.idle fun _ _ nb => ?_
      rw [lsackRx]
      split_ifs <;> exact .of_state rfl rfl rfl
    | adjOK p time => exact kept.adjOK fun _ _ _ _ impossible => impossible
    | resumeAdj p time => exact kept.resumeAdj
    | killNbr p time => exact kept.killNbr
    | inactivityTimer p time => exact kept.inactivityTimer
    | flood lsa a =>
      exact kept.related (Related.lsadbFlood Same.refl Same.lsaTxNetwork s lsa a)
    | lsadb a list extlist => exact kept.related (related_setLsdb s a list extlist)
  | tick a n time waited expires => exact kept.networkTimeout
  | seqNumberMismatch p time => exact kept.begins (fun _ _ _ => begins_seqNumberMismatch) room
  | exchangeDone p => exact kept.idle fun _ _ _ => begins_exchangeDone
  | loadingDone p => exact kept.idle fun _ _ _ => begins_loadingDone
  | llDown p => exact kept.cleanNeighbor p

theorem broken_happen (h : Happening) (full : ¬ Room s h) : ¬ AllLimited (happen s h) := by
  cases h with
  | event e =>
    cases e with
    | twoWayReceived p time => exact not_allLimited (fun _ _ _ => begins_twoWayReceived) full
    | dbdesc p snapshot now pkt =>
      exact not_allLimited (fun _ _ _ => begins_dbdescRx snapshot now pkt) full
    | badLSReq p time => exact not_allLimited (fun _ _ _ => begins_seqNumberMismatch) full
    | _ => exact absurd trivial full
  | seqNumberMismatch p time =>
    exact not_allLimited (fun _ _ _ => begins_seqNumberMismatch) full
  | _ => exact absurd trivial full

end Runs

/-- The limit holds in every state of a run exactly when every adjacency that is begun without
a count finds room. -/
theorem limit_iff_room (s : Ospf) (happenings : List Happening) (unheard : Unheard s) :
    StepRuns.Always happen AllLimited happenings s ↔
      StepRuns.Along happen Room happenings s := by
  refine StepRuns.always_iff_along (I := Kept settled) (fun _ kept => allLimited_iff.mpr kept)
    (fun _ h kept room => kept_happen kept h room) (fun _ h _ full => broken_happen h full) ?_
  intro a n net found
  obtain ⟨area, hasArea, hasNet⟩ := netAt_eq_some.mp found
  have empty := unheard area (List.mem_of_getElem? hasArea) net (List.mem_of_getElem? hasNet)
  refine ⟨?_, fun b nb stands _ => ?_⟩
  · rw [empty]
    exact Nat.zero_le _
  · rw [empty] at stands
    cases stands

/-- The router becomes Designated Router, and then so many neighbors join. -/
def crowd (count : Nat) : List Happening :=
  .event (.interfaceUp 0 0) :: .event (.waitTimer 0 0 1000) ::
    (List.range count).flatMap fun i =>
      [.event (.addNeighbor 0 0 (0x0a000002 + BitVec.ofNat 32 i) (2 + BitVec.ofNat 32 i)),
        .event (.hello ⟨0, 0, 0⟩ 0 0 0),
        .event (.twoWayReceived ⟨0, 0, 0⟩ 1000)]

theorem finds_of_all {s : Ospf} {p : Place} {begins : OspfNetwork → OspfNeighbor → Bool}
    (all : (s.find p).all (fun x => x.2.1.neighbor.countP synchronizing < ospfNbAdjMax) = true) :
    finds s p begins := by
  intro area net nb found _
  rw [found] at all
  exact of_decide_eq_true all

/-- Two neighbors find room. -/
theorem limit_iff_room_two : StepRuns.Always happen AllLimited (crowd 2) lone :=
  (limit_iff_room lone (crowd 2) unheard_lone).mpr
    ⟨trivial, trivial, trivial, trivial, finds_of_all (by decide +kernel), trivial, trivial,
      finds_of_all (by decide +kernel), trivial⟩

/-- Five neighbors that answer to the Designated Router are in ExStart together. -/
theorem five_in_exStart :
    Unheard lone ∧ ¬ StepRuns.Always happen AllLimited (crowd 5) lone := by
  refine ⟨unheard_lone, fun always => ?_⟩
  have last := StepRuns.always_iff_take.mp always 17
  have count : (((crowd 5).take 17).foldl happen lone).netAt 0 0 |>.all
      (fun net => net.neighbor.countP synchronizing = 5) := by
    decide +kernel
  cases found : (((crowd 5).take 17).foldl happen lone).netAt 0 0 with
  | none =>
    have some : ((((crowd 5).take 17).foldl happen lone).netAt 0 0).isSome = true := by
      decide +kernel
    rw [found] at some
    cases some
  | some net =>
    rw [found] at count
    have few := (last 0 0 net found).few
    rw [of_decide_eq_true count] at few
    exact absurd few (by decide)

end AdjacencyLimit
