import Mathlib.Data.List.GetD
import Rcp100.NeighborLists

/-!
# External advertisements and stub areas

A stub area has no external advertisements. The reception of updates discards them; the
reception of Database Description packets repeats its test for unknown types where it
means the external type, so that their headers get onto the request list. While no
accepted packet of a stub area lists one, none gets there over a whole run.
-/

namespace StubExternals

open LsaFormat LsUpdate Flooding NeighborLists
open Exchange hiding Event step run dbdescRx nfsmSeqNumberMismatch

/-- What was ever put on the request list has no external header. -/
structure Internal (nb : Nb) : Prop where
  requests : ∀ h ∈ nb.lsreq, h.type ≠ 5
  examined : ∀ x ∈ nb.examined, ∀ h ∈ x.lsreq, h.type ≠ 5

/-- The neighbors of stub areas are asked for no external advertisement. -/
def NoExternal (stub : Bool) (nb : OspfNeighbor) : Prop := stub = true → Internal nb.toNb

/-- The packet ends the negotiation. -/
def negotiates (side : Side) (nb : Nb) (pkt : DdPacket) : Bool :=
  (pkt.fields = ⟨true, true, true⟩ ∧ pkt.lsas = [] ∧ side.routerId < side.nbRouterId) ||
    (pkt.fields.init = false ∧ pkt.fields.master = false ∧ pkt.seq = nb.ddSeqNumber ∧
      side.nbRouterId < side.routerId)

/-- The packet goes on with the exchange. -/
def goesOn (nb : Nb) (pkt : DdPacket) : Bool :=
  !duplicate nb pkt &&
    !(pkt.fields.master = nb.master || pkt.fields.init || pkt.options ≠ nb.options ||
      !inSequence nb pkt)

/-- The packet is the next in sequence: its headers are processed. -/
def processes (side : Side) (nb : Nb) (pkt : DdPacket) : Bool :=
  (nb.state = .exStart && negotiates side nb pkt) || (nb.state = .exchange && goesOn nb pkt)

/-- The headers that the loop reaches: it stops at an unknown type. -/
def reached (lsas : List LsaHeader) : List LsaHeader := lsas.takeWhile (fun h => h.type ≤ 5)

/-- A packet from a stub area whose loop reaches an external header. -/
def readsExternal (now : Now) (pkt : DdPacket) (snapshot : Snapshot) (area : OspfArea)
    (net : OspfNetwork) (nb : OspfNeighbor) : Bool :=
  area.stub &&
    processes (sideOf area net (entered now.time area net nb) snapshot)
      (entered now.time area net nb).toNb pkt &&
    (reached pkt.lsas).any (fun h => h.type = 5)

/-- The condition on a step. -/
def meets (s : Ospf) : Event → Bool
  | .dbdesc p snapshot now pkt =>
    (s.find p).all (fun found => !readsExternal now pkt snapshot found.1 found.2.1 found.2.2)
  | _ => true

def meetsAll (s : Ospf) : List Event → Bool
  | [] => true
  | e :: rest => meets s e && meetsAll (step s e) rest

/-- A Database Description packet from a neighbor leads to SeqNumberMismatch. -/
def mismatches (now : Now) (pkt : DdPacket) (snapshot : Snapshot) (area : OspfArea)
    (net : OspfNetwork) (nb : OspfNeighbor) : Bool :=
  (Exchange.dbdescRx (sideOf area net (entered now.time area net nb) snapshot) now
    (entered now.time area net nb).toNb pkt).mismatch

/-- What a step does for stub areas: no external header gets onto a request list, a
processed packet that lists one leads to SeqNumberMismatch, and an update installs no
external advertisement. -/
structure KeepsOut (s : Ospf) (e : Event) : Prop where
  requests : AllIn NoExternal (step s e)
  mismatch : ∀ {p snapshot now pkt area net nb}, e = .dbdesc p snapshot now pkt →
    s.find p = some (area, net, nb) → area.stub = true →
    processes (sideOf area net (entered now.time area net nb) snapshot)
      (entered now.time area net nb).toNb pkt = true →
    (∃ h ∈ pkt.lsas, h.type = 5) → mismatches now pkt snapshot area net nb = true
  installs : ∀ {p pkt desc area net nb}, e = .lsupdate p pkt desc →
    s.find p = some (area, net, nb) → area.stub = true →
    (step s e).extlist = s.extlist ∧
      ((∀ lsa ∈ area.list, lsa.header.type ≠ 5) →
        ∀ area', (step s e).area[p.area]? = some area' → ∀ lsa ∈ area'.list, lsa.header.type ≠ 5)

section Describing

variable {side : Side} {now : Now} {nb nb' : Nb} {pkt : DdPacket}

/-- The request list and the record of lookups are what they were, or empty. -/
structure Narrows (nb nb' : Nb) : Prop where
  requests : nb'.lsreq ⊆ nb.lsreq
  examined : nb'.examined = nb.examined

theorem Narrows.refl (nb : Nb) : Narrows nb nb := ⟨fun _ h => h, rfl⟩

theorem Internal.narrows (internal : Internal nb) (narrows : Narrows nb nb') :
    Internal nb' where
  requests h member := internal.requests h (narrows.requests member)
  examined := by
    rw [narrows.examined]
    exact internal.examined

theorem narrows_mismatch (side : Side) (time : BitVec 32) (nb : Nb) :
    Narrows nb (Exchange.nfsmSeqNumberMismatch side time nb).nb :=
  ⟨List.nil_subset nb.lsreq, rfl⟩

theorem narrows_masterReply (side : Side) (nb : Nb) (pkt : DdPacket) :
    Narrows nb (masterReply side nb pkt).nb := by
  unfold masterReply
  split
  · exact ⟨fun _ h => h, rfl⟩
  · exact ⟨fun _ h => h, rfl⟩

theorem narrows_slaveReply (side : Side) (nb : Nb) (pkt : DdPacket) :
    Narrows nb (slaveReply side nb pkt).nb := by
  unfold slaveReply
  dsimp only
  split
  · exact ⟨fun _ h => h, rfl⟩
  · exact ⟨fun _ h => h, rfl⟩

theorem Internal.examine (internal : Internal nb) (db : LsaKey → Option LsaHeader)
    {h : LsaHeader} (known : h.type ≠ 5) : Internal (examine db nb h) := by
  have requests : ∀ r ∈ (Exchange.examine db nb h).lsreq, r.type ≠ 5 := by
    intro r member
    unfold Exchange.examine at member
    dsimp only at member
    split at member
    · rcases List.mem_cons.mp member with rfl | old
      · exact known
      · exact internal.requests r old
    · split at member
      · rcases List.mem_cons.mp member with rfl | old
        · exact known
        · exact internal.requests r old
      · exact internal.requests r member
  refine ⟨requests, fun x member => ?_⟩
  rcases List.mem_append.mp member with old | new
  · exact internal.examined x old
  · cases List.mem_singleton.mp new
    exact requests

theorem reached_cons (h : LsaHeader) (rest : List LsaHeader) :
    reached (h :: rest) = if h.type > 5 then [] else h :: reached rest := by
  unfold reached
  rw [List.takeWhile_cons]
  by_cases unknown : h.type > 5
  · rw [if_pos unknown, if_neg (by simpa using unknown)]
  · rw [if_neg unknown, if_pos (decide_eq_true (BitVec.not_lt.mp unknown))]

theorem Internal.examineAll (internal : Internal nb) (db : LsaKey → Option LsaHeader)
    {lsas : List LsaHeader} (plain : ∀ h ∈ reached lsas, h.type ≠ 5) :
    Internal (examineAll db nb lsas).1 := by
  induction lsas generalizing nb with
  | nil => exact internal
  | cons h rest ih =>
    rw [Exchange.examineAll]
    rw [reached_cons] at plain
    by_cases unknown : h.type > 5
    · rw [if_pos unknown]
      exact internal
    · rw [if_neg unknown] at plain ⊢
      refine ih (internal.examine db (plain h List.mem_cons_self)) fun r member => ?_
      exact plain r (List.mem_cons_of_mem h member)

theorem reached_eq_of_examineAll (db : LsaKey → Option LsaHeader) (nb : Nb) {lsas : List LsaHeader}
    (all : (examineAll db nb lsas).2 = true) : reached lsas = lsas := by
  induction lsas generalizing nb with
  | nil => rfl
  | cons h rest ih =>
    rw [Exchange.examineAll] at all
    rw [reached_cons]
    by_cases unknown : h.type > 5
    · rw [if_pos unknown] at all
      cases all
    · rw [if_neg unknown] at all ⊢
      exact congrArg (h :: ·) (ih _ all)

theorem Internal.accept (internal : Internal nb)
    (plain : ∀ h ∈ reached pkt.lsas, h.type ≠ 5) : Internal (accept side now nb pkt).nb := by
  have looked := internal.examineAll now.db plain
  unfold Exchange.accept
  dsimp only
  split
  · exact looked.narrows (narrows_mismatch _ _ _)
  · split
    · exact looked.narrows (narrows_masterReply _ _ _)
    · exact looked.narrows (narrows_slaveReply _ _ _)

theorem accept_mismatch {h : LsaHeader} (listed : h ∈ pkt.lsas) (external : h.type = 5)
    (plain : ∀ h ∈ reached pkt.lsas, h.type ≠ 5) : (accept side now nb pkt).mismatch = true := by
  unfold Exchange.accept
  dsimp only
  cases all : (Exchange.examineAll now.db nb pkt.lsas).2 with
  | false => rfl
  | true =>
    rw [reached_eq_of_examineAll _ _ all] at plain
    exact absurd external (plain h listed)

theorem rxExStart_cases (side : Side) (now : Now) (nb : Nb) (pkt : DdPacket) :
    (negotiates side nb pkt = true ∧ ∃ nb', Narrows nb nb' ∧
        rxExStart side now nb pkt = accept side now nb' pkt) ∨
      negotiates side nb pkt = false ∧ Narrows nb (rxExStart side now nb pkt).nb := by
  unfold rxExStart negotiates
  by_cases slave : pkt.fields = ⟨true, true, true⟩ ∧ pkt.lsas = [] ∧
      side.routerId < side.nbRouterId
  · refine .inl ⟨by rw [decide_eq_true slave]; rfl, ?_⟩
    rw [if_pos slave]
    refine ⟨_, ?_, rfl⟩
    exact ⟨List.Subset.refl nb.lsreq, rfl⟩
  · rw [if_neg slave, decide_eq_false slave, Bool.false_or]
    by_cases master : pkt.fields.init = false ∧ pkt.fields.master = false ∧
        pkt.seq = nb.ddSeqNumber ∧ side.nbRouterId < side.routerId
    · refine .inl ⟨decide_eq_true master, ?_⟩
      rw [if_pos master]
      refine ⟨_, ?_, rfl⟩
      exact ⟨List.Subset.refl nb.lsreq, rfl⟩
    · rw [if_neg master]
      exact .inr ⟨decide_eq_false master, Narrows.refl nb⟩

theorem rxExchange_cases (side : Side) (now : Now) (nb : Nb) (pkt : DdPacket) :
    (goesOn nb pkt = true ∧ ∃ nb', Narrows nb nb' ∧
        rxExchange side now nb pkt = accept side now nb' pkt) ∨
      goesOn nb pkt = false ∧ Narrows nb (rxExchange side now nb pkt).nb := by
  unfold rxExchange goesOn
  by_cases again : duplicate nb pkt = true
  · rw [if_pos again, again]
    exact .inr ⟨rfl, Narrows.refl nb⟩
  · rw [if_neg again, Bool.eq_false_iff.mpr again, Bool.not_false, Bool.true_and]
    split
    · rename_i refused
      rw [refused]
      exact .inr ⟨rfl, narrows_mismatch side now.time nb⟩
    · rename_i refused
      rw [Bool.eq_false_iff.mpr refused]
      refine .inl ⟨rfl, _, ?_, rfl⟩
      exact ⟨List.Subset.refl nb.lsreq, rfl⟩

theorem narrows_rxLoading (side : Side) (now : Now) (nb : Nb) (pkt : DdPacket) :
    Narrows nb (rxLoading side now nb pkt).nb := by
  unfold rxLoading
  split
  · exact narrows_mismatch side now.time nb
  · split
    · exact Narrows.refl nb
    · exact narrows_mismatch side now.time nb

/-- The headers of a packet are processed in a state with the same requests, or nothing is
put on the list. -/
theorem dbdescRx_cases (side : Side) (now : Now) (nb : Nb) (pkt : DdPacket) :
    (processes side nb pkt = true ∧ ∃ nb', Narrows nb nb' ∧
        Exchange.dbdescRx side now nb pkt = accept side now nb' pkt) ∨
      processes side nb pkt = false ∧ Narrows nb (Exchange.dbdescRx side now nb pkt).nb := by
  unfold processes Exchange.dbdescRx
  cases nb.state with
  | exStart => simpa using rxExStart_cases side now nb pkt
  | exchange => simpa using rxExchange_cases side now nb pkt
  | loading => exact .inr ⟨rfl, narrows_rxLoading side now nb pkt⟩
  | full => exact .inr ⟨rfl, narrows_rxLoading side now nb pkt⟩
  | down => exact .inr ⟨rfl, Narrows.refl nb⟩
  | attempt => exact .inr ⟨rfl, Narrows.refl nb⟩
  | init => exact .inr ⟨rfl, Narrows.refl nb⟩
  | twoWay => exact .inr ⟨rfl, Narrows.refl nb⟩

end Describing

section Neighbors

variable {stub : Bool} {area : OspfArea} {net : OspfNetwork} {nb nb' : OspfNeighbor}

theorem NoExternal.narrows (old : NoExternal stub nb) (narrows : Narrows nb.toNb nb'.toNb) :
    NoExternal stub nb' :=
  fun isStub => (old isStub).narrows narrows

theorem narrows_twoWayReceived (time : BitVec 32) (area : OspfArea) (net : OspfNetwork)
    (nb : OspfNeighbor) : Narrows nb.toNb (nfsm2WayReceived time area net nb).toNb := by
  unfold nfsm2WayReceived
  split
  · exact ⟨List.Subset.refl _, rfl⟩
  · split
    · exact ⟨List.Subset.refl _, rfl⟩
    · exact Narrows.refl _

theorem narrows_entered (time : BitVec 32) (area : OspfArea) (net : OspfNetwork)
    (nb : OspfNeighbor) : Narrows nb.toNb (entered time area net nb).toNb := by
  unfold entered
  split
  · exact narrows_twoWayReceived time area net nb
  · exact Narrows.refl _

theorem narrows_helloReceived (nb : OspfNeighbor) :
    Narrows nb.toNb (nfsmHelloReceived nb).toNb := by
  unfold nfsmHelloReceived
  split
  · exact ⟨List.Subset.refl _, rfl⟩
  · exact Narrows.refl _

theorem narrows_seqNumberMismatch (time : BitVec 32) (area : OspfArea) (net : OspfNetwork)
    (nb : OspfNeighbor) :
    Narrows nb.toNb (NeighborLists.nfsmSeqNumberMismatch time area net nb).toNb := by
  unfold NeighborLists.nfsmSeqNumberMismatch
  split
  · exact narrows_mismatch _ time nb.toNb
  · exact Narrows.refl _

theorem narrows_lsackRx (pkt : Retransmission.AckPacket) (nb : OspfNeighbor) :
    Narrows nb.toNb (lsackRx pkt nb).toNb := by
  unfold lsackRx
  split
  · exact Narrows.refl _
  · exact ⟨List.Subset.refl _, rfl⟩

theorem toNb_dbdescRx (snapshot : Snapshot) (now : Now) (pkt : DdPacket) (area : OspfArea)
    (net : OspfNetwork) (nb : OspfNeighbor) :
    (NeighborLists.dbdescRx snapshot now pkt area net nb).toNb =
      (Exchange.dbdescRx (sideOf area net (entered now.time area net nb) snapshot) now
        (entered now.time area net nb).toNb pkt).nb := by
  unfold NeighborLists.dbdescRx
  dsimp only
  generalize entered now.time area net nb = nb'
  split
  · rfl
  · rfl

theorem NoExternal.dbdescRx (old : NoExternal area.stub nb) {snapshot : Snapshot} {now : Now}
    {pkt : DdPacket} (plain : readsExternal now pkt snapshot area net nb = false) :
    NoExternal area.stub (NeighborLists.dbdescRx snapshot now pkt area net nb) := by
  intro isStub
  rw [toNb_dbdescRx]
  have before := (old isStub).narrows (narrows_entered now.time area net nb)
  rcases dbdescRx_cases (sideOf area net (entered now.time area net nb) snapshot) now
    (entered now.time area net nb).toNb pkt with ⟨processed, nb', narrows, result⟩ | ⟨-, narrows⟩
  · rw [result]
    refine (before.narrows narrows).accept fun h member external => ?_
    rw [readsExternal, isStub, processed, Bool.true_and, Bool.true_and] at plain
    exact List.any_eq_false.mp plain h member (decide_eq_true external)
  · exact before.narrows narrows

theorem lsreq_receiveLsa (net : Network) (desc : PacketDesc) (st : RxState) (lsah : Memory) :
    (receiveLsa stub net desc st lsah).lsreq ⊆ st.lsreq := by
  have removed : lsahListRemove st.lsreq (lsaHeader lsah).key ⊆ st.lsreq := List.eraseP_subset
  unfold receiveLsa
  dsimp only
  split
  · unfold floodLsa RxState.setLsdb
    dsimp only
    split
    · exact removed
    · exact removed
  · exact removed

theorem lsreq_receiveAll (net : Network) (desc : PacketDesc) (lsas : List Memory)
    (st : RxState) : (lsas.foldl (receiveLsa stub net desc) st).lsreq ⊆ st.lsreq := by
  induction lsas generalizing st with
  | nil => exact List.Subset.refl _
  | cons lsah rest ih => exact List.Subset.trans (ih _) (lsreq_receiveLsa net desc st lsah)

theorem narrows_received {lsreq : List LsaHeader} {rxmtList : List OspfLsa}
    (fewer : lsreq ⊆ nb.lsreq) :
    Narrows nb.toNb (loadingDoneIf { nb with lsreq := lsreq, rxmtList := rxmtList }).toNb := by
  unfold loadingDoneIf nfsmLoadingDone
  split
  · split
    · exact ⟨fewer, rfl⟩
    · exact ⟨fewer, rfl⟩
  · exact ⟨fewer, rfl⟩

end Neighbors

section Steps

variable {s : Ospf} {p : Place} {a n : Nat}

theorem keeps_modifyNeighbor {f : OspfArea → OspfNetwork → OspfNeighbor → OspfNeighbor}
    (all : AllIn NoExternal s) (narrows : ∀ area net nb, Narrows nb.toNb (f area net nb).toNb) :
    AllIn NoExternal (s.modifyNeighbor p f) :=
  all.modifyNeighbor fun area net nb _ old => old.narrows (narrows area net nb)

theorem keeps_modifyNetwork {f : OspfArea → OspfNetwork → OspfNetwork} (all : AllIn NoExternal s)
    (same : ∀ area net, (f area net).neighbor = net.neighbor) :
    AllIn NoExternal (s.modifyNetwork a n f) := by
  refine all.modifyNetwork fun area net _ _ old => ?_
  rw [same]
  exact old

theorem NoExternal.retain (lsa : OspfLsa) (stub : Bool) (net : OspfNetwork) (nb : OspfNeighbor)
    (old : NoExternal stub nb) : NoExternal stub (NeighborLists.retain net lsa nb) :=
  old

theorem keeps_clearLsa (all : AllIn NoExternal s) (p : Place) :
    AllIn NoExternal (clearLsa s p) :=
  all.clearLsa NoExternal.retain
    (fun _ _ old => old.narrows ⟨List.nil_subset _, rfl⟩) p

theorem keeps_cleanNeighbor (all : AllIn NoExternal s) (p : Place) :
    AllIn NoExternal (cleanNeighbor s p) := by
  have reset : AllIn NoExternal (s.modifyNeighbor p fun _ _ => resetNeighbor) :=
    keeps_modifyNeighbor all fun _ _ nb => ⟨List.Subset.refl nb.lsreq, rfl⟩
  exact keeps_clearLsa reset p

theorem keeps_nfsmAdjOK (all : AllIn NoExternal s) (time : BitVec 32) (p : Place) :
    AllIn NoExternal (nfsmAdjOK time s p) := by
  unfold nfsmAdjOK
  split
  · exact all
  · split
    · split
      · exact keeps_modifyNeighbor all fun _ _ _ => ⟨List.Subset.refl _, rfl⟩
      · exact keeps_modifyNeighbor all fun _ _ _ => ⟨List.Subset.refl _, rfl⟩
    · split
      · exact keeps_modifyNeighbor (keeps_clearLsa all p)
          fun _ _ _ => ⟨List.Subset.refl _, rfl⟩
      · exact all

theorem keeps_adjOkAll (time : BitVec 32) (bs : List Nat) (all : AllIn NoExternal s) :
    AllIn NoExternal (adjOkAll time a n bs s) := by
  induction bs generalizing s with
  | nil => exact all
  | cons b rest ih =>
    refine ih ?_
    split
    · exact keeps_nfsmAdjOK all time _
    · exact all

theorem keeps_electIn (states : List NetState) (time : BitVec 32) (all : AllIn NoExternal s) :
    AllIn NoExternal (electIn states time s a n) := by
  unfold electIn
  split
  · exact all
  · rename_i net found
    split
    · refine keeps_modifyNetwork ?_ fun _ _ => rfl
      have elects : AllIn NoExternal (s.modifyNetwork a n fun _ => elected s.ospfRouterId) :=
        keeps_modifyNetwork all fun _ _ => rfl
      simp only [drbdrElection, found]
      split
      · exact keeps_adjOkAll time _ elects
      · exact elects
    · exact all

theorem keeps_nfsmKillNbr (time : BitVec 32) (all : AllIn NoExternal s) (p : Place) :
    AllIn NoExternal (nfsmKillNbr time s p) := by
  refine keeps_electIn _ time ?_
  exact (keeps_cleanNeighbor all p).modifyNetwork
    fun _ _ _ _ old nb member => old nb (List.mem_of_mem_eraseIdx member)

theorem keeps_killAll (time : BitVec 32) (k : Nat) (all : AllIn NoExternal s) :
    AllIn NoExternal (killAll time a n k s) := by
  induction k generalizing s with
  | zero => exact all
  | succ k ih => exact ih (keeps_nfsmKillNbr time all _)

theorem keeps_addNeighbor (all : AllIn NoExternal s) (ip routerId : BitVec 32) :
    AllIn NoExternal (s.modifyNetwork a n fun _ => neighborAdd (newNeighbor ip routerId)) := by
  refine all.modifyNetwork fun area net _ _ old nb member => ?_
  unfold neighborAdd at member
  split at member
  · exact old nb member
  · rcases List.mem_cons.mp member with rfl | there
    · exact fun _ => ⟨List.forall_mem_nil _, List.forall_mem_nil _⟩
    · exact old nb there

theorem keeps_lsupdateRx (all : AllIn NoExternal s) (p : Place) (pkt : UpdatePacket)
    (desc : PacketDesc) : AllIn NoExternal (NeighborLists.lsupdateRx s p pkt desc) := by
  unfold NeighborLists.lsupdateRx
  split
  · exact all
  · rename_i area net nb found
    split
    · refine (all.modifyNeighbor fun area' net' nb' found' old => ?_).setLsdb _ _ _
      cases found.symm.trans found'
      exact old.narrows (narrows_received (lsreq_receiveAll _ _ _ _))
    · exact all

theorem keeps_step (all : AllIn NoExternal s) (e : NeighborLists.Event)
    (ok : meets s e = true) : AllIn NoExternal (step s e) := by
  cases e with
  | interfaceUp a n => exact keeps_modifyNetwork all fun _ net => neighbor_netfsmInterfaceUp net
  | interfaceDown a n time =>
    unfold step netfsmInterfaceDown
    dsimp only
    split
    · exact all
    · exact keeps_killAll time _ (keeps_modifyNetwork all fun _ _ => rfl)
  | waitTimer a n time => exact keeps_electIn _ time all
  | backupSeen a n time => exact keeps_electIn _ time all
  | neighborChange a n time => exact keeps_electIn _ time all
  | addNeighbor a n ip routerId => exact keeps_addNeighbor all ip routerId
  | hello p priority dr bdr =>
    refine keeps_modifyNeighbor all ?_
    intro area net nb
    exact narrows_helloReceived (declare priority dr bdr nb)
  | twoWayReceived p time => exact keeps_modifyNeighbor all (narrows_twoWayReceived time)
  | oneWay p =>
    unfold step nfsm1Way
    dsimp only
    split
    · exact all
    · have lowered : AllIn NoExternal (s.modifyNeighbor p fun _ _ => setState .init) :=
        keeps_modifyNeighbor all fun _ _ nb => ⟨List.Subset.refl nb.lsreq, rfl⟩
      split
      · exact keeps_clearLsa lowered p
      · exact all
  | dbdesc p snapshot now pkt =>
    refine all.modifyNeighbor fun area net nb found old => old.dbdescRx ?_
    rw [meets, found] at ok
    simpa using ok
  | lsupdate p pkt desc => exact keeps_lsupdateRx all p pkt desc
  | badLSReq p time => exact keeps_modifyNeighbor all (narrows_seqNumberMismatch time)
  | lsack p pkt => exact keeps_modifyNeighbor all fun _ _ => narrows_lsackRx pkt
  | adjOK p time => exact keeps_nfsmAdjOK all time p
  | resumeAdj p time =>
    unfold step resumeAdj
    dsimp only
    split
    · exact all
    · have resumed : AllIn NoExternal
          (s.modifyNeighbor p fun _ _ nb => { nb with adjPosponed := false }) :=
        keeps_modifyNeighbor all fun _ _ nb => ⟨List.Subset.refl nb.lsreq, rfl⟩
      split
      · exact keeps_nfsmAdjOK resumed time p
      · exact all
  | killNbr p time => exact keeps_nfsmKillNbr time all p
  | inactivityTimer p time =>
    unfold step nfsmInactivityTimer
    dsimp only
    split
    · exact keeps_cleanNeighbor all p
    · exact keeps_nfsmKillNbr time all p
  | flood lsa a => exact all.lsadbFlood (NoExternal.retain lsa) a
  | lsadb a list extlist => exact all.setLsdb a list extlist

end Steps

section Updates

variable {net : Network} {desc : PacketDesc} {st : RxState} {lsah : Memory}

theorem type_ne_of_accepted (pass : accepted true lsah = true) : (lsaHeader lsah).type ≠ 5 := by
  intro external
  simp only [accepted, external, Bool.and_eq_true] at pass
  exact absurd pass.2 (by decide)

theorem extlist_receiveLsa (net : Network) (desc : PacketDesc) (st : RxState) (lsah : Memory) :
    (receiveLsa true net desc st lsah).extlist = st.extlist := by
  have whole := lsdb_receiveLsa true net desc st lsah 5
  by_cases pass : accepted true lsah = true
  · have other : ¬ ((5 : BitVec 8) = 5 ↔ (lsaHeader lsah).type = 5) :=
      fun same => type_ne_of_accepted pass (same.mp rfl)
    rw [if_pos pass, lsdb_setLsdb_of_not_iff _ _ other] at whole
    exact whole
  · rw [if_neg pass] at whole
    exact whole

theorem type_receivedLsa (internal : (lsaHeader lsah).type ≠ 5) :
    (receivedLsa net lsah).header.type ≠ 5 := by
  change (lsah.bytes (lsaHeader lsah).length.toNat).getD 3 0 ≠ 5
  by_cases long : 3 < (lsaHeader lsah).length.toNat
  · rw [Memory.getD_bytes lsah long]
    exact internal
  · rw [List.getD_eq_default _ _ (by rw [Memory.length_bytes]; omega)]
    decide

theorem type_touched {old lsa : OspfLsa} (touched : LsaBounds.Touched old lsa) :
    lsa.header.type = old.header.type := by
  rcases touched with same | aged
  · exact congrArg LsaHeader.type (OspfLsa.header_congr same)
  · exact (congrArg LsaHeader.type (OspfLsa.header_congr aged)).trans (type_setAge old maxAge)

theorem list_receiveLsa (plain : ∀ lsa ∈ st.list, lsa.header.type ≠ 5) :
    ∀ lsa ∈ (receiveLsa true net desc st lsah).list, lsa.header.type ≠ 5 := by
  intro lsa member
  change lsa ∈ (receiveLsa true net desc st lsah).lsdb 1 at member
  rw [lsdb_receiveLsa] at member
  by_cases pass : accepted true lsah = true
  · have internal := type_ne_of_accepted pass
    have same : (1 : BitVec 8) = 5 ↔ (lsaHeader lsah).type = 5 :=
      iff_of_false (by decide) internal
    have table : st.lsdb (lsaHeader lsah).type = st.list := if_neg internal
    rw [if_pos pass, lsdb_setLsdb_of_iff _ _ same] at member
    rcases LsaBounds.mem_installLsa (e := ⟨true, net, desc, st, lsah⟩) pass member with
      ⟨old, before, touched⟩ | ⟨-, rfl⟩
    · rw [type_touched touched]
      exact plain old (table ▸ before)
    · exact type_receivedLsa internal
  · rw [if_neg pass] at member
    exact plain lsa member

theorem receiveAll_stub (net : Network) (desc : PacketDesc) (lsas : List Memory) (st : RxState) :
    (lsas.foldl (receiveLsa true net desc) st).extlist = st.extlist ∧
      ((∀ lsa ∈ st.list, lsa.header.type ≠ 5) →
        ∀ lsa ∈ (lsas.foldl (receiveLsa true net desc) st).list, lsa.header.type ≠ 5) := by
  induction lsas generalizing st with
  | nil => exact ⟨rfl, fun plain => plain⟩
  | cons lsah rest ih =>
    obtain ⟨external, plain⟩ := ih (receiveLsa true net desc st lsah)
    exact ⟨external.trans (extlist_receiveLsa net desc st lsah),
      fun before => plain (list_receiveLsa before)⟩

theorem lsupdateRx_stub {s : Ospf} {p : Place} {area : OspfArea} {net : OspfNetwork}
    {nb : OspfNeighbor} (found : s.find p = some (area, net, nb)) (stub : area.stub = true)
    (pkt : UpdatePacket) (desc : PacketDesc) :
    (NeighborLists.lsupdateRx s p pkt desc).extlist = s.extlist ∧
      ((∀ lsa ∈ area.list, lsa.header.type ≠ 5) → ∀ area',
        (NeighborLists.lsupdateRx s p pkt desc).area[p.area]? = some area' →
        ∀ lsa ∈ area'.list, lsa.header.type ≠ 5) := by
  obtain ⟨hasArea, -, -⟩ := find_eq_some.mp found
  have received := receiveAll_stub net.view desc pkt.lsas
    ⟨nb.lsreq, area.list, s.extlist, nb.rxmtList, []⟩
  unfold NeighborLists.lsupdateRx
  rw [found]
  dsimp only
  rw [stub]
  split
  · refine ⟨received.1, fun plain area' hasArea' => ?_⟩
    simp only [Ospf.setLsdb, Ospf.modifyNeighbor, Ospf.modifyNetwork, Ospf.modifyArea,
      List.getElem?_modify_eq, hasArea] at hasArea'
    obtain rfl := Option.some.inj hasArea'
    exact received.2 plain
  · refine ⟨rfl, fun plain area' hasArea' => ?_⟩
    cases hasArea.symm.trans hasArea'
    exact plain

end Updates

section Runs

variable {s : Ospf}

theorem keepsOut_step (all : AllIn NoExternal s) (e : NeighborLists.Event)
    (ok : meets s e = true) : KeepsOut s e where
  requests := keeps_step all e ok
  mismatch := by
    rintro p snapshot now pkt area net nb rfl found stub processed ⟨h, listed, external⟩
    have plain : readsExternal now pkt snapshot area net nb = false := by
      rw [meets, found] at ok
      simpa using ok
    rw [readsExternal, stub, processed, Bool.true_and, Bool.true_and] at plain
    rcases dbdescRx_cases (sideOf area net (entered now.time area net nb) snapshot) now
      (entered now.time area net nb).toNb pkt with ⟨-, nb', -, result⟩ | ⟨ignored, -⟩
    · rw [mismatches, result]
      refine accept_mismatch listed external fun h member external => ?_
      exact List.any_eq_false.mp plain h member (decide_eq_true external)
    · rw [ignored] at processed
      cases processed
  installs := by
    rintro p pkt desc area net nb rfl found stub
    exact lsupdateRx_stub found stub pkt desc

theorem meetsAll_append (before after : List NeighborLists.Event) :
    meetsAll s (before ++ after) = (meetsAll s before && meetsAll (run s before) after) := by
  induction before generalizing s with
  | nil => rfl
  | cons e rest ih =>
    rw [List.cons_append, meetsAll, ih, meetsAll, Bool.and_assoc]
    rfl

theorem keeps_run (events : List NeighborLists.Event) (all : AllIn NoExternal s)
    (ok : meetsAll s events = true) : AllIn NoExternal (run s events) := by
  induction events generalizing s with
  | nil => exact all
  | cons e rest ih =>
    obtain ⟨now, later⟩ := (Bool.and_eq_true _ _).mp ok
    exact ih (keeps_step all e now) later

/-- In a run in which no accepted Database Description packet of a stub area reads an
external header, every step keeps external advertisements out of the stub areas. -/
theorem stub_areas_learn_no_externals (all : AllIn NoExternal s)
    (events : List NeighborLists.Event) (ok : meetsAll s events = true)
    {before after : List NeighborLists.Event} {e : NeighborLists.Event}
    (split : events = before ++ e :: after) : KeepsOut (run s before) e := by
  subst split
  rw [meetsAll_append, meetsAll, Bool.and_eq_true, Bool.and_eq_true] at ok
  exact keepsOut_step (keeps_run before all ok.1) e ok.2.1

end Runs

/-- The router 1.1.1.1 in a stub area, in Exchange with 2.2.2.2 as its slave. -/
def slave : Ospf where
  ospfRouterId := 0x01010101
  area :=
    [{ stub := true
       list := []
       network :=
        [{ ip := 0x0a000001
           mask := 0xffffff00
           vlink := false
           routerId := 0x01010101
           state := .dr
           routerPriority := 1
           designatedRouter := 0x0a000001
           backupRouter := 0
           rxtmInterval := 5
           neighbor :=
            [{ newNeighbor 0x0a000002 0x02020202 with
               state := .exchange
               options := 0x40
               ddSeqNumber := 7 }] }] }]
  extlist := []

def headerOf (type : BitVec 8) : LsaHeader where
  age := 1
  options := 0
  type := type
  linkStateId := 0xac100000
  advRouter := 0x02020202
  seq := 0x80000001
  checksum := 0x1234
  length := 36

/-- The next packet of the master, with one header. -/
def describing (type : BitVec 8) : NeighborLists.Event :=
  .dbdesc ⟨0, 0, 0⟩ ⟨[], Nat.zero_lt_succ _⟩ ⟨fun _ => none, 1000⟩
    ⟨0x40, ⟨false, false, true⟩, 8, [headerOf type]⟩

theorem allIn_slave : AllIn NoExternal slave := by
  intro area hasArea net hasNet nb member _
  cases List.mem_singleton.mp hasArea
  cases List.mem_singleton.mp hasNet
  cases List.mem_singleton.mp member
  exact ⟨List.forall_mem_nil _, List.forall_mem_nil _⟩

theorem stub_areas_learn_no_externals_slave :
    KeepsOut (run slave [describing 3]) (describing 3) :=
  stub_areas_learn_no_externals allIn_slave [describing 3, describing 3] (by decide) rfl

/-- The header of an external advertisement is requested; there is no mismatch. -/
theorem external_header_requested : AllIn NoExternal slave ∧
    ¬ KeepsOut slave (describing 5) := by
  refine ⟨allIn_slave, fun keepsOut => ?_⟩
  have some : (step slave (describing 5)).area.any (fun area => area.stub &&
      area.network.any (fun net => net.neighbor.any (fun nb =>
        nb.lsreq.any (fun h => h.type = 5)))) = true := by decide
  obtain ⟨area, hasArea, inArea⟩ := List.any_eq_true.mp some
  obtain ⟨stub, inArea⟩ := (Bool.and_eq_true _ _).mp inArea
  obtain ⟨net, hasNet, inNet⟩ := List.any_eq_true.mp inArea
  obtain ⟨nb, member, inNb⟩ := List.any_eq_true.mp inNet
  obtain ⟨h, requested, external⟩ := List.any_eq_true.mp inNb
  exact ((keepsOut.requests area hasArea net hasNet nb member) stub).requests h requested
    (of_decide_eq_true external)

end StubExternals
