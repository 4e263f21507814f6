import Rcp100.LsdbFreshness
import Rcp100.Retransmission

/-!
# Requests for advertisements

While a neighbor is in the states Exchange and Loading, the advertisements that its
Database Description packets announce are requested. A request is taken from the list
when an update carries its key, and the adjacency is Full when the list is empty.
-/

namespace Requests

open LsaFormat LsUpdate LsdbFreshness Retransmission
open Function (update_of_ne update_self)

/-- The database holds an instance that is not older than the header. -/
def holds (find : LsaKey → Option OspfLsa) (h : LsaHeader) : Bool :=
  (find h.key).any (fun l => notOlder l.header h)

/-- The flooding procedure puts the received advertisement into the database. -/
def installs (e : LsaEvent) : Bool :=
  match RxState.stored e.before e.header.key with
  | none => !(e.net.state = .backup && e.desc.ipDest = allDRouters) && e.header.age ≠ maxAge
  | some found => !found.selfOriginated && found.header.seq < e.header.seq

/-- The request that the pass takes from the list. -/
def requestOf (e : LsaEvent) : Option LsaHeader :=
  e.before.lsreq.find? (fun h => h.key = e.header.key)

/-- A request is taken from the list only when the database has the advertisement. -/
def Clears (e : LsaEvent) : Prop :=
  ∀ h, requestOf e = some h → holds (RxState.stored e.after) h = true

/-- The received advertisement answers the request, or the database copy does and is
at most aged. -/
def answers (e : LsaEvent) (h : LsaHeader) : Bool :=
  if accepted e.stub e.lsah && installs e then notOlder e.header h
  else if accepted e.stub e.lsah && e.header.age = maxAge then
    (RxState.stored e.before h.key).any (fun l => notOlder (l.setAge maxAge).header h)
  else holds (RxState.stored e.before) h

def answered (e : LsaEvent) : Bool := (requestOf e).all (answers e)

/-- The blocks have whole headers, and an instance that is replaced is an earlier one. -/
def advances (e : LsaEvent) : Bool :=
  !accepted e.stub e.lsah ||
    (sizeofHeader ≤ e.header.length.toNat &&
      (RxState.stored e.before e.header.key).all (fun found =>
        2 ≤ found.bytes.length &&
          (found.selfOriginated || !decide (found.header.seq < e.header.seq) ||
            found.header.seq.toInt < e.header.seq.toInt)))

section Peer

variable (areaId ip : BitVec 32)

def neighborOf (r : Router) : Option Neighbor :=
  (networkOf areaId ip r).bind (neighborFind · ip)

def lsreqOf (r : Router) : List LsaHeader := ((neighborOf areaId ip r).map (·.lsreq)).getD []

def modifyNeighborOf (f : Neighbor → Neighbor) (r : Router) : Router :=
  modifyNetworkOf areaId ip (·.modifyNeighbor ip f) r

/-- The neighbor is Full. The network advertisement that a designated router originates
here is a step of its own. -/
def nfsmLoadingDone (r : Router) : Router :=
  modifyNeighborOf areaId ip
    (fun nb => if nb.state = .loading then { nb with state := .full } else nb) r

/-- A header of a Database Description packet goes on the list, whatever is there. -/
def lsahListAdd (h : LsaHeader) (r : Router) : Router :=
  modifyNeighborOf areaId ip (fun nb => { nb with lsreq := h :: nb.lsreq }) r

end Peer

/-- An advertisement of this router takes the place of the one before. -/
def addOwn (lsa : OspfLsa) (list : List OspfLsa) : List OspfLsa :=
  if (lsaListFind list lsa.key).any (·.selfOriginated) then
    lsaListAdd (lsaListRemove list lsa.key) lsa
  else lsaListAdd list lsa

def lsadbAdd (r : Router) (areaId : BitVec 32) (lsa : OspfLsa) : Router :=
  if lsa.header.type = 5 then { r with extlist := addOwn lsa r.extlist }
  else
    { r with
      area := Function.update r.area areaId
        ((r.area areaId).map (fun area => { area with list := addOwn lsa area.list })) }

/-- The router, and the headers that were requested from the neighbor. -/
structure Session where
  router : Router
  requested : List LsaHeader

inductive Event where
  | update (pkt : UpdatePacket) (desc : PacketDesc)
  | request (h : LsaHeader)
  | originate (areaId : BitVec 32) (lsa : OspfLsa)

section Steps

variable (areaId ip : BitVec 32)

/-- An update, and the end of Loading when the list is empty. -/
def receive (r : Router) (pkt : UpdatePacket) (desc : PacketDesc) : Router :=
  if (lsupdateRx r pkt desc).2.loadingDone then
    nfsmLoadingDone desc.areaId desc.ipSource (lsupdateRx r pkt desc).1
  else (lsupdateRx r pkt desc).1

def step (s : Session) : Event → Session
  | .update pkt desc => { s with router := receive s.router pkt desc }
  | .request h =>
    if (neighborOf areaId ip s.router).isSome then
      ⟨lsahListAdd areaId ip h s.router, h :: s.requested⟩
    else s
  | .originate areaId' lsa => { s with router := lsadbAdd s.router areaId' lsa }

def run (s : Session) (events : List Event) : Session := events.foldl (step areaId ip) s

/-- What is on the list of the neighbor was requested. -/
def start (r : Router) : Session := ⟨r, lsreqOf areaId ip r⟩

/-- The advertisements of an update answer the requests that they take from the list, and
no instance makes way for an earlier one. -/
def meets (s : Session) : Event → Bool
  | .update pkt desc =>
    (packetEvents s.router pkt desc).all
      (fun e => advances e && (!fromPeer areaId ip desc || answered e))
  | .request _ => true
  | .originate areaId' lsa =>
    (stored s.router areaId' lsa.key).all
      (fun found => found.header.seq.toInt < lsa.header.seq.toInt)

def meetsAll (s : Session) : List Event → Bool
  | [] => true
  | e :: rest => meets areaId ip s e && meetsAll (step areaId ip s e) rest

/-- What was requested is still on the list or in the database. -/
def Pending (s : Session) : Prop :=
  ∀ h ∈ s.requested,
    h ∈ lsreqOf areaId ip s.router ∨ holds (stored s.router areaId) h = true

/-- Updates of the neighbor take requests from the list only for what the database then
has, and Loading ends only when it has everything that was requested. -/
def Justified (s : Session) : Event → Prop
  | .update pkt desc =>
    fromPeer areaId ip desc = true →
      (∀ e ∈ packetEvents s.router pkt desc, Clears e) ∧
        ((lsupdateRx s.router pkt desc).2.loadingDone = true →
          ∀ h ∈ s.requested, holds (stored (receive s.router pkt desc) areaId) h = true)
  | _ => True

end Steps

section Install

variable (net : Network) (desc : PacketDesc) {list : List OspfLsa} {lsah : Memory}

theorem lsaListFind_installLsa_absent (sized : sizeofHeader ≤ (lsaHeader lsah).length.toNat)
    (absent : lsaListFind list (lsaHeader lsah).key = none) :
    lsaListFind (installLsa net desc list lsah) (lsaHeader lsah).key =
      if net.state = .backup ∧ desc.ipDest = allDRouters ∨ (lsaHeader lsah).age = maxAge then none
      else some (receivedLsa net lsah) := by
  have keyed : (receivedLsa net lsah).key = (lsaHeader lsah).key :=
    congrArg LsaHeader.key (header_receivedLsa net sized)
  simp only [installLsa, absent]
  by_cases waits : net.state = .backup ∧ desc.ipDest = allDRouters
  · rw [if_pos waits, if_pos (.inl waits), absent]
  · rw [if_neg waits]
    by_cases aged : (lsaHeader lsah).age = maxAge
    · rw [if_neg (not_not.mpr aged), if_pos (.inr aged), absent]
    · rw [if_pos aged, if_neg (fun h => h.elim waits aged), lsaListAdd, lsaListFind_cons,
        if_pos keyed]

/-- An advertisement of this router is aged or marked, and keeps its instance. -/
theorem header_installLsa_own {found : OspfLsa}
    (present : lsaListFind list (lsaHeader lsah).key = some found)
    (own : found.selfOriginated = true) :
    (lsaListFind (installLsa net desc list lsah) (lsaHeader lsah).key).map OspfLsa.header =
      some (if (lsaHeader lsah).age = maxAge then (found.setAge maxAge).header
        else found.header) := by
  have keyed := lsaListFind_key present
  simp only [installLsa, present, own, if_true]
  split
  · rw [lsaListFind_update (·.setAge maxAge) present ((found.key_setAge maxAge).trans keyed),
      if_pos rfl]
    rfl
  · split
    · let mark (l : OspfLsa) : OspfLsa :=
        { l with oldCnt := 3, oldSelfOriginatedSeq := (lsaHeader lsah).seq }
      have same : (mark found).header = found.header := OspfLsa.header_congr rfl
      rw [lsaListFind_update mark present ((congrArg LsaHeader.key same).trans keyed), if_pos rfl]
      exact congrArg some same
    · rw [present]
      rfl

end Install

/-- What becomes of the instance that an accepted advertisement belongs to. -/
theorem header_stored_after {e : LsaEvent} (pass : accepted e.stub e.lsah = true)
    (sized : sizeofHeader ≤ e.header.length.toNat) :
    (RxState.stored e.after e.header.key).map OspfLsa.header =
      if installs e = true then some e.header
      else if e.header.age = maxAge then
        (RxState.stored e.before e.header.key).map (fun l => (l.setAge maxAge).header)
      else (RxState.stored e.before e.header.key).map OspfLsa.header := by
  have result := stored_after pass
  simp only [LsaEvent.header] at sized result ⊢
  have received := header_receivedLsa e.net sized
  refine (congrArg (Option.map OspfLsa.header) result).trans ?_
  cases hfind : RxState.stored e.before (lsaHeader e.lsah).key with
  | none =>
    have absent :
        lsaListFind (e.before.lsdb (lsaHeader e.lsah).type) (lsaHeader e.lsah).key = none := hfind
    rw [lsaListFind_installLsa_absent e.net e.desc sized absent]
    simp only [installs, LsaEvent.header, hfind]
    by_cases aged : (lsaHeader e.lsah).age = maxAge
    · simp [aged]
    · by_cases waits : e.net.state = .backup ∧ e.desc.ipDest = allDRouters
      · simp [aged, waits.1, waits.2]
      · simp [aged, waits, received]
  | some found =>
    have present : lsaListFind (e.before.lsdb (lsaHeader e.lsah).type) (lsaHeader e.lsah).key =
      some found := hfind
    simp only [installs, LsaEvent.header, hfind]
    cases own : found.selfOriginated with
    | false =>
      rw [lsaListFind_installLsa e.net e.desc sized present own]
      by_cases newer : found.header.seq < (lsaHeader e.lsah).seq
      · simp [newer, received]
      · by_cases aged : (lsaHeader e.lsah).age = maxAge
        · simp [newer, aged]
        · simp [newer, aged]
    | true =>
      rw [header_installLsa_own e.net e.desc present own]
      by_cases aged : (lsaHeader e.lsah).age = maxAge
      · simp [aged]
      · simp [aged]

theorem notOlder_of_later {a b : LsaHeader} (later : b.seq.toInt < a.seq.toInt) :
    notOlder a b = true := by
  have differ : a.seq ≠ b.seq := by
    intro same
    rw [same] at later
    omega
  simp [notOlder, differ, later]

theorem le_of_notOlder {a b : LsaHeader} (recent : notOlder a b = true) :
    b.seq.toInt ≤ a.seq.toInt := by
  by_cases same : a.seq = b.seq
  · exact Int.le_of_eq (congrArg BitVec.toInt same.symm)
  · have later : b.seq.toInt < a.seq.toInt := by simpa [notOlder, same] using recent
    omega

theorem checksum_setAge (l : OspfLsa) (age : BitVec 16) :
    (l.setAge age).header.checksum = l.header.checksum := by
  simp [OspfLsa.header, lsaHeader, Memory.get16, OspfLsa.memory_setAge]

theorem notOlder_setAge {l : OspfLsa} {h : LsaHeader} (room : 2 ≤ l.bytes.length)
    (recent : notOlder l.header h = true) : notOlder (l.setAge maxAge).header h = true := by
  have aged := l.age_setAge maxAge room
  rw [notOlder] at recent ⊢
  rw [l.seq_setAge, checksum_setAge, aged]
  by_cases seq : l.header.seq = h.seq
  · rw [if_neg (not_not.mpr seq)] at recent ⊢
    by_cases sum : l.header.checksum = h.checksum
    · rw [if_neg (not_not.mpr sum), if_pos rfl]
    · rw [if_pos sum] at recent ⊢
      exact recent
  · rw [if_pos seq] at recent ⊢
    exact recent

theorem holds_eq (find : LsaKey → Option OspfLsa) (h : LsaHeader) :
    holds find h = ((find h.key).map OspfLsa.header).any (notOlder · h) := by
  rw [holds]
  cases find h.key with
  | none => rfl
  | some l => rfl

section Events

variable {e : LsaEvent} {h : LsaHeader}

theorem holds_after (sized : accepted e.stub e.lsah = true → sizeofHeader ≤ e.header.length.toNat)
    (keyed : h.key = e.header.key) : holds (RxState.stored e.after) h = answers e h := by
  by_cases pass : accepted e.stub e.lsah = true
  · rw [holds_eq, keyed, header_stored_after pass (sized pass), answers, holds_eq, keyed, pass]
    simp only [Bool.true_and, decide_eq_true_eq]
    split
    · rfl
    · split
      · cases RxState.stored e.before e.header.key with
        | none => rfl
        | some l => rfl
      · rfl
  · have same : RxState.stored e.after h.key = RxState.stored e.before h.key := by
      rw [RxState.stored, LsaEvent.after, lsdb_receiveLsa, if_neg pass]
      rfl
    rw [answers, holds, holds, same]
    simp [pass]

theorem clears_iff (sized : accepted e.stub e.lsah = true → sizeofHeader ≤ e.header.length.toNat) :
    Clears e ↔ answered e = true := by
  rw [Clears, answered]
  cases hreq : requestOf e with
  | none => simp
  | some g =>
    have keyed : g.key = e.header.key := by simpa using List.find?_some hreq
    simp [holds_after sized keyed]

theorem advances_sized (ok : advances e = true) (pass : accepted e.stub e.lsah = true) :
    sizeofHeader ≤ e.header.length.toNat := by
  simp only [advances, pass, Bool.not_true, Bool.false_or, Bool.and_eq_true,
    decide_eq_true_eq] at ok
  exact ok.1

theorem advances_found (ok : advances e = true) (pass : accepted e.stub e.lsah = true)
    {found : OspfLsa} (present : RxState.stored e.before e.header.key = some found) :
    2 ≤ found.bytes.length ∧
      (found.selfOriginated = false → found.header.seq < e.header.seq →
        found.header.seq.toInt < e.header.seq.toInt) := by
  simp only [advances, pass, present, Bool.not_true, Bool.false_or, Bool.and_eq_true,
    Option.all_some, Bool.or_eq_true, Bool.not_eq_true', decide_eq_true_eq,
    decide_eq_false_iff_not] at ok
  obtain ⟨_, room, later⟩ := ok
  refine ⟨room, fun foreign newer => ?_⟩
  rcases later with (own | old) | later
  · rw [own] at foreign
    cases foreign
  · exact absurd newer old
  · exact later

theorem holds_mono (ok : advances e = true) (held : holds (RxState.stored e.before) h = true) :
    holds (RxState.stored e.after) h = true := by
  by_cases keyed : h.key = e.header.key
  · rw [holds_after (advances_sized ok) keyed, answers]
    by_cases pass : accepted e.stub e.lsah = true
    · obtain ⟨found, present, recent⟩ := (Option.any_eq_true _ _).mp held
      rw [keyed] at present
      obtain ⟨room, later⟩ := advances_found ok pass present
      simp only [pass, Bool.true_and, decide_eq_true_eq]
      split
      · rename_i installed
        simp only [installs, present, Bool.and_eq_true, Bool.not_eq_true', decide_eq_true_eq]
          at installed
        have less := later installed.1 installed.2
        have least := le_of_notOlder recent
        exact notOlder_of_later (by omega)
      · split
        · rw [keyed, present]
          exact notOlder_setAge room recent
        · exact held
    · simpa [pass] using held
  · have same : RxState.stored e.after h.key = RxState.stored e.before h.key :=
      lsaListFind_receiveLsa_ne _ _ _ _ (advances_sized ok) keyed
    rw [holds, same]
    exact held

end Events

/-- A view of the first element with `q`, when the change of the first one with `p` does
not show in it. -/
theorem bind_find?_modifyFirst {α β : Type} {p q : α → Bool} {f : α → α} {view : α → Option β}
    (same : ∀ x, p x = true → q (f x) = q x)
    (viewed : ∀ x, p x = true → q x = true → view (f x) = view x) (list : List α) :
    ((modifyFirst p f list).find? q).bind view = (list.find? q).bind view := by
  induction list with
  | nil => rfl
  | cons x rest ih =>
    rw [modifyFirst]
    by_cases first : p x = true
    · rw [if_pos first, List.find?_cons, List.find?_cons, same x first]
      cases second : q x with
      | false => rfl
      | true => exact viewed x first second
    · rw [if_neg first, List.find?_cons, List.find?_cons]
      cases q x with
      | false => exact ih
      | true => rfl

/-- What is seen of a neighbor. -/
def viewOf {β : Type} (view : Neighbor → β) (areaId ip : BitVec 32) (r : Router) : Option β :=
  (neighborOf areaId ip r).map view

theorem viewOf_eq {β : Type} (view : Neighbor → β) (areaId ip : BitVec 32) (r : Router) :
    viewOf view areaId ip r =
      (r.area areaId).bind (fun area => (area.network.find? (onNetwork ip)).bind
        (fun net => (net.neighbor.find? (fun nb => ip = nb.ip)).bind (some ∘ view))) := by
  rw [viewOf, neighborOf, networkOf]
  simp only [networkFindIp, neighborFind, Option.map_eq_bind, Option.bind_assoc]

section Views

variable {β : Type} {view : Neighbor → β} {f : Neighbor → Neighbor} {r : Router}
  {areaId' ip' : BitVec 32} {area : Area} {list extlist : List OspfLsa}

theorem viewOf_store (areaId ip : BitVec 32) (found : r.area areaId' = some area)
    (sameIp : ∀ nb, (f nb).ip = nb.ip)
    (viewed : ∀ nb, areaId = areaId' → ip = ip' → view (f nb) = view nb) :
    viewOf view areaId ip
      { area := Function.update r.area areaId'
          (some { area.modifyNetwork ip' (·.modifyNeighbor ip' f) with list := list })
        extlist := extlist } = viewOf view areaId ip r := by
  rw [viewOf_eq, viewOf_eq]
  by_cases here : areaId = areaId'
  · subst here
    simp only [update_self, found, Option.bind_some, Area.modifyNetwork]
    refine bind_find?_modifyFirst (f := Network.modifyNeighbor ip' f) (fun net _ => rfl)
      (fun net _ _ => ?_) area.network
    refine bind_find?_modifyFirst (fun nb _ => ?_) (fun nb second first => ?_) net.neighbor
    · rw [sameIp nb]
    · simp only [decide_eq_true_eq] at first second
      exact congrArg some (viewed nb rfl (first.trans second.symm))
  · simp only [update_of_ne here]

theorem viewOf_modify (areaId ip : BitVec 32) (sameIp : ∀ nb, (f nb).ip = nb.ip)
    (viewed : ∀ nb, areaId = areaId' → ip = ip' → view (f nb) = view nb) :
    viewOf view areaId ip (modifyNeighborOf areaId' ip' f r) = viewOf view areaId ip r := by
  cases found : r.area areaId' with
  | none =>
    have same : modifyNeighborOf areaId' ip' f r = r := by
      rw [modifyNeighborOf, modifyNetworkOf, found, Option.map_none, ← found,
        Function.update_eq_self]
    rw [same]
  | some area =>
    rw [modifyNeighborOf, modifyNetworkOf, found]
    exact viewOf_store areaId ip found sameIp viewed

end Views

section Loop

variable {stub : Bool} {net : Network} {desc : PacketDesc} {st : RxState} {lsas : List Memory}
  {h : LsaHeader}

theorem lsreq_receiveLsa (stub : Bool) (net : Network) (desc : PacketDesc) (st : RxState)
    (lsah : Memory) :
    (receiveLsa stub net desc st lsah).lsreq = lsahListRemove st.lsreq (lsaHeader lsah).key := by
  rw [receiveLsa]
  split
  · rw [floodLsa, RxState.setLsdb]
    split
    · rfl
    · rfl
  · rfl

theorem mem_lsahListRemove {list : List LsaHeader} (key : LsaKey) (listed : h ∈ list) :
    h ∈ lsahListRemove list key ∨ list.find? (fun g => g.key = key) = some h := by
  induction list with
  | nil => cases listed
  | cons g rest ih =>
    by_cases first : g.key = key
    · have gone : lsahListRemove (g :: rest) key = rest := by simp [lsahListRemove, first]
      rcases List.mem_cons.mp listed with rfl | later
      · exact .inr (by simp [first])
      · refine .inl ?_
        rw [gone]
        exact later
    · have stays : lsahListRemove (g :: rest) key = g :: lsahListRemove rest key := by
        simp [lsahListRemove, first]
      rw [stays]
      rcases List.mem_cons.mp listed with rfl | later
      · exact .inl List.mem_cons_self
      · rcases ih later with kept | taken
        · exact .inl (List.mem_cons_of_mem _ kept)
        · exact .inr (by simpa [first] using taken)

theorem loop_holds (ok : ∀ e ∈ loopEvents stub net desc st lsas, advances e = true)
    (held : holds (RxState.stored st) h = true) :
    holds (RxState.stored (lsas.foldl (receiveLsa stub net desc) st)) h = true := by
  induction lsas generalizing st with
  | nil => exact held
  | cons lsah rest ih =>
    have first := holds_mono (ok ⟨stub, net, desc, st, lsah⟩ List.mem_cons_self) held
    exact ih (fun e he => ok e (List.mem_cons_of_mem _ he)) first

theorem loop_pending
    (ok : ∀ e ∈ loopEvents stub net desc st lsas, advances e = true ∧ answered e = true)
    (listed : h ∈ st.lsreq) :
    h ∈ (lsas.foldl (receiveLsa stub net desc) st).lsreq ∨
      holds (RxState.stored (lsas.foldl (receiveLsa stub net desc) st)) h = true := by
  induction lsas generalizing st with
  | nil => exact .inl listed
  | cons lsah rest ih =>
    have later : ∀ e ∈ loopEvents stub net desc (receiveLsa stub net desc st lsah) rest,
        advances e = true ∧ answered e = true := fun e he => ok e (List.mem_cons_of_mem _ he)
    have first := ok ⟨stub, net, desc, st, lsah⟩ List.mem_cons_self
    rcases mem_lsahListRemove (lsaHeader lsah).key listed with kept | taken
    · refine ih later ?_
      rw [lsreq_receiveLsa]
      exact kept
    · have cleared := (clears_iff (advances_sized first.1)).mpr first.2 h taken
      rw [List.foldl_cons]
      exact .inr (loop_holds (fun e he => (later e he).1) cleared)

end Loop

section Peer

variable {areaId ip : BitVec 32} {r : Router} {desc : PacketDesc} {area : Area} {net : Network}
  {nb : Neighbor}

theorem neighborOf_sender (found : sender r desc = some (area, net, nb))
    (here : fromPeer areaId ip desc = true) : neighborOf areaId ip r = some nb := by
  obtain ⟨network, hnb⟩ := networkOf_sender found here
  rw [neighborOf, network]
  exact hnb

theorem lsreqOf_rxStore (found : sender r desc = some (area, net, nb))
    (here : fromPeer areaId ip desc = true) (st : RxState) :
    lsreqOf areaId ip (rxStore r area desc st) = st.lsreq := by
  have neighbor := neighborFind_modify (networkOf_sender found here).2
    (f := fun n => { n with lsreq := st.lsreq, rxmtList := st.rxmtList }) rfl
  rw [lsreqOf, neighborOf, rxStore, networkOf_store found here, Option.bind_some, neighbor]
  rfl

theorem lsreqOf_rxStore_other (found : sender r desc = some (area, net, nb))
    (other : ¬ fromPeer areaId ip desc = true) (st : RxState) :
    lsreqOf areaId ip (rxStore r area desc st) = lsreqOf areaId ip r := by
  have apart : ¬ (areaId = desc.areaId ∧ ip = desc.ipSource) := by
    intro both
    apply other
    simp [fromPeer, both.1, both.2]
  refine congrArg (Option.getD · []) (viewOf_store areaId ip (sender_eq_some found).1
    (fun _ => rfl) (fun nb inArea same => absurd ⟨inArea, same⟩ apart))

theorem lsreqOf_nfsmLoadingDone (areaId ip areaId' ip' : BitVec 32) (r : Router) :
    lsreqOf areaId ip (nfsmLoadingDone areaId' ip' r) = lsreqOf areaId ip r := by
  refine congrArg (Option.getD · []) (viewOf_modify areaId ip (fun nb => ?_) (fun nb _ _ => ?_))
  · split
    · rfl
    · rfl
  · split
    · rfl
    · rfl

theorem stored_modifyNeighborOf (areaId ip : BitVec 32) (f : Neighbor → Neighbor) (r : Router)
    (areaId' : BitVec 32) :
    stored (modifyNeighborOf areaId ip f r) areaId' = stored r areaId' := by
  funext k
  simp only [stored, modifyNeighborOf, modifyNetworkOf]
  split
  · rfl
  · by_cases here : areaId' = areaId
    · subst here
      rw [update_self]
      cases r.area areaId' with
      | none => rfl
      | some area => rfl
    · rw [update_of_ne here]

end Peer

section Database

variable {r : Router} {h : LsaHeader} {areaId : BitVec 32}

theorem holds_congr {find find' : LsaKey → Option OspfLsa} (same : find h.key = find' h.key) :
    holds find h = holds find' h := by
  rw [holds, holds, same]

theorem packet_holds {pkt : UpdatePacket} {desc : PacketDesc}
    (ok : ∀ e ∈ packetEvents r pkt desc, advances e = true)
    (held : holds (stored r areaId) h = true) :
    holds (stored (lsupdateRx r pkt desc).1 areaId) h = true := by
  rcases lsupdateRx_events r pkt desc with ⟨kept, _⟩ | ⟨area, net, nb, found, after, events, _⟩
  · rw [kept]
    exact held
  · rw [events] at ok
    have begins := stored_rxStart (sender_eq_some found).1 nb
    have loop : holds (stored r desc.areaId) h = true →
        holds (stored (lsupdateRx r pkt desc).1 desc.areaId) h = true := by
      intro here
      rw [← begins] at here
      rw [after, stored_rxStore]
      exact loop_holds ok here
    by_cases ext : h.key.type = 5
    · have shared : ∀ r' : Router, stored r' areaId h.key = stored r' desc.areaId h.key := by
        intro r'
        simp only [stored, if_pos ext]
      rw [holds_congr (shared _)] at held ⊢
      exact loop held
    · by_cases here : areaId = desc.areaId
      · rw [here] at held ⊢
        exact loop held
      · have same : stored (lsupdateRx r pkt desc).1 areaId h.key = stored r areaId h.key := by
          simp only [after, stored, rxStore, if_neg ext, update_of_ne here]
        rw [holds_congr same]
        exact held

theorem lsaListFind_addOwn (lsa : OspfLsa) (list : List OspfLsa) (k : LsaKey) :
    lsaListFind (addOwn lsa list) k = if lsa.key = k then some lsa else lsaListFind list k := by
  rw [addOwn]
  split
  · rw [lsaListAdd, lsaListFind_cons]
    by_cases here : lsa.key = k
    · rw [if_pos here, if_pos here]
    · rw [if_neg here, if_neg here, lsaListFind_remove_ne list (Ne.symm here)]
  · rw [lsaListAdd, lsaListFind_cons]

theorem stored_lsadbAdd (r : Router) (areaId' : BitVec 32) (lsa : OspfLsa) (areaId : BitVec 32)
    (k : LsaKey) :
    stored (lsadbAdd r areaId' lsa) areaId k = stored r areaId k ∨
      lsa.key = k ∧ stored (lsadbAdd r areaId' lsa) areaId k = some lsa ∧
        stored r areaId k = stored r areaId' k := by
  rw [lsadbAdd]
  by_cases keyed : lsa.key = k
  · have type : k.type = lsa.header.type := congrArg LsaKey.type keyed.symm
    by_cases ext : lsa.header.type = 5
    · right
      rw [if_pos ext]
      refine ⟨keyed, ?_, ?_⟩
      · simp only [stored, type, if_pos ext, lsaListFind_addOwn, if_pos keyed]
      · simp only [stored, type, if_pos ext]
    · rw [if_neg ext]
      simp only [stored, type, if_neg ext]
      by_cases here : areaId = areaId'
      · subst here
        rw [update_self]
        cases r.area areaId with
        | none => exact .inl rfl
        | some area =>
          right
          refine ⟨keyed, ?_, rfl⟩
          rw [Option.map_some, Option.bind_some, lsaListFind_addOwn, if_pos keyed]
      · rw [update_of_ne here]
        exact .inl rfl
  · left
    by_cases ext : lsa.header.type = 5
    · rw [if_pos ext]
      simp only [stored, lsaListFind_addOwn, if_neg keyed]
    · rw [if_neg ext]
      simp only [stored]
      by_cases here : areaId = areaId'
      · subst here
        rw [update_self]
        cases r.area areaId with
        | none => rfl
        | some area =>
          simp only [Option.map_some, Option.bind_some, lsaListFind_addOwn, if_neg keyed]
      · rw [update_of_ne here]

/-- A later instance of this router's own advertisement keeps what the database holds. -/
theorem holds_lsadbAdd {areaId' : BitVec 32} {lsa : OspfLsa}
    (later : ∀ found, stored r areaId' lsa.key = some found →
      found.header.seq.toInt < lsa.header.seq.toInt)
    (held : holds (stored r areaId) h = true) :
    holds (stored (lsadbAdd r areaId' lsa) areaId) h = true := by
  rcases stored_lsadbAdd r areaId' lsa areaId h.key with same | ⟨keyed, new, shared⟩
  · rw [holds_congr same]
    exact held
  · obtain ⟨found, present, recent⟩ := (Option.any_eq_true _ _).mp held
    rw [shared, ← keyed] at present
    have less := later found present
    have least := le_of_notOlder recent
    rw [holds, new]
    exact notOlder_of_later (by omega)

end Database

section Invariant

variable {areaId ip : BitVec 32} {s : Session} {pkt : UpdatePacket} {desc : PacketDesc}

theorem lsreqOf_receive (r : Router) :
    lsreqOf areaId ip (receive r pkt desc) = lsreqOf areaId ip (lsupdateRx r pkt desc).1 := by
  rw [receive]
  split
  · exact lsreqOf_nfsmLoadingDone _ _ _ _ _
  · rfl

theorem stored_receive (r : Router) :
    stored (receive r pkt desc) areaId = stored (lsupdateRx r pkt desc).1 areaId := by
  rw [receive]
  split
  · exact stored_modifyNeighborOf _ _ _ _ _
  · rfl

theorem meets_update (met : meets areaId ip s (.update pkt desc) = true) {e : LsaEvent}
    (he : e ∈ packetEvents s.router pkt desc) :
    advances e = true ∧ (fromPeer areaId ip desc = true → answered e = true) := by
  have ok := List.all_eq_true.mp met e he
  simp only [Bool.and_eq_true, Bool.or_eq_true, Bool.not_eq_true'] at ok
  refine ⟨ok.1, fun here => ?_⟩
  rcases ok.2 with other | done
  · rw [here] at other
    cases other
  · exact done

theorem meets_originate {areaId' : BitVec 32} {lsa : OspfLsa}
    (met : meets areaId ip s (.originate areaId' lsa) = true) (found : OspfLsa)
    (present : stored s.router areaId' lsa.key = some found) :
    found.header.seq.toInt < lsa.header.seq.toInt := by
  simpa [meets, present] using met

theorem update_pending (pending : Pending areaId ip s)
    (met : meets areaId ip s (.update pkt desc) = true) :
    Pending areaId ip (step areaId ip s (.update pkt desc)) := by
  intro h requested
  simp only [step, lsreqOf_receive, stored_receive] at requested ⊢
  rcases pending h requested with listed | held
  · rcases lsupdateRx_events s.router pkt desc with
      ⟨kept, _⟩ | ⟨area, net, nb, found, after, events, _⟩
    · rw [kept]
      exact .inl listed
    · by_cases here : fromPeer areaId ip desc = true
      · have inArea : areaId = desc.areaId := by
          simp only [fromPeer, Bool.and_eq_true, decide_eq_true_eq] at here
          exact here.2.symm
        rw [lsreqOf, neighborOf_sender found here] at listed
        rw [after, lsreqOf_rxStore found here, inArea, stored_rxStore]
        refine loop_pending (fun e he => ?_) listed
        have ok := meets_update met (events ▸ he)
        exact ⟨ok.1, ok.2 here⟩
      · rw [after, lsreqOf_rxStore_other found here]
        exact .inl listed
  · exact .inr (packet_holds (fun e he => (meets_update met he).1) held)

theorem request_pending (pending : Pending areaId ip s) (g : LsaHeader) :
    Pending areaId ip (step areaId ip s (.request g)) := by
  simp only [step]
  split
  · rename_i known
    obtain ⟨nb, hnb⟩ := Option.isSome_iff_exists.mp known
    obtain ⟨net, hnet, hfind⟩ := Option.bind_eq_some_iff.mp hnb
    have list : lsreqOf areaId ip (lsahListAdd areaId ip g s.router) =
        g :: lsreqOf areaId ip s.router := by
      have neighbor := neighborFind_modify hfind
        (f := fun n => { n with lsreq := g :: n.lsreq }) rfl
      have network := networkOf_modify hnet
        (f := fun n => n.modifyNeighbor ip (fun n => { n with lsreq := g :: n.lsreq })) rfl rfl
      rw [lsreqOf, neighborOf, lsahListAdd, modifyNeighborOf, network, Option.bind_some, neighbor,
        lsreqOf, hnb]
      rfl
    intro h requested
    rw [list, lsahListAdd, stored_modifyNeighborOf]
    rcases List.mem_cons.mp requested with rfl | before
    · exact .inl List.mem_cons_self
    · rcases pending h before with listed | held
      · exact .inl (List.mem_cons_of_mem _ listed)
      · exact .inr held
  · exact pending

theorem lsreqOf_lsadbAdd (r : Router) (areaId' : BitVec 32) (lsa : OspfLsa) :
    lsreqOf areaId ip (lsadbAdd r areaId' lsa) = lsreqOf areaId ip r := by
  rw [lsadbAdd]
  split
  · rfl
  · simp only [lsreqOf, neighborOf, networkOf]
    by_cases here : areaId = areaId'
    · subst here
      rw [update_self]
      cases r.area areaId with
      | none => rfl
      | some area => rfl
    · rw [update_of_ne here]

theorem step_pending (pending : Pending areaId ip s) {e : Event}
    (met : meets areaId ip s e = true) : Pending areaId ip (step areaId ip s e) := by
  cases e with
  | update pkt desc => exact update_pending pending met
  | request h => exact request_pending pending h
  | originate areaId' lsa =>
    intro h requested
    simp only [step, lsreqOf_lsadbAdd]
    rcases pending h requested with listed | held
    · exact .inl listed
    · exact .inr (holds_lsadbAdd (meets_originate met) held)

theorem step_justified (pending : Pending areaId ip s) {e : Event}
    (met : meets areaId ip s e = true) : Justified areaId ip s e := by
  cases e with
  | update pkt desc =>
    intro here
    refine ⟨fun e he => ?_, fun done h requested => ?_⟩
    · obtain ⟨ok, done⟩ := meets_update met he
      exact (clears_iff (advances_sized ok)).mpr (done here)
    · have after := update_pending pending met h requested
      simp only [step, lsreqOf_receive] at after
      rcases lsupdateRx_events s.router pkt desc with
        ⟨_, unfinished⟩ | ⟨area, net, nb, found, stores, _, empties⟩
      · rw [unfinished] at done
        cases done
      · rw [stores, lsreqOf_rxStore found here, empties done] at after
        rcases after with listed | held
        · cases listed
        · exact held
  | request h => trivial
  | originate areaId' lsa => trivial

theorem run_pending {events : List Event} (pending : Pending areaId ip s)
    (met : meetsAll areaId ip s events = true) :
    Pending areaId ip (run areaId ip s events) ∧
      ∀ pre e post, events = pre ++ e :: post → Justified areaId ip (run areaId ip s pre) e := by
  induction events generalizing s with
  | nil =>
    refine ⟨pending, fun pre e post h => ?_⟩
    cases pre <;> cases h
  | cons first rest ih =>
    simp only [meetsAll, Bool.and_eq_true] at met
    obtain ⟨now, later⟩ := met
    obtain ⟨hrun, hsteps⟩ := ih (step_pending pending now) later
    refine ⟨hrun, fun pre e post h => ?_⟩
    cases pre with
    | nil =>
      cases h
      exact step_justified pending now
    | cons x pre =>
      cases h
      exact hsteps pre e post rfl

end Invariant

/-- In every run whose updates answer the requests that they clear, what was requested is
on the list or in the database, a request leaves the list only for what the database then
has, and Loading ends only when it has everything. A pass clears its request rightly
exactly when it answers it. -/
theorem run_synchronizes (areaId ip : BitVec 32) (router : Router) (events : List Event)
    (met : meetsAll areaId ip (start areaId ip router) events = true) :
    Pending areaId ip (run areaId ip (start areaId ip router) events) ∧
      (∀ pre e post, events = pre ++ e :: post →
        Justified areaId ip (run areaId ip (start areaId ip router) pre) e) ∧
      ∀ e : LsaEvent,
        (accepted e.stub e.lsah = true → sizeofHeader ≤ e.header.length.toNat) →
        (Clears e ↔ answered e = true) := by
  have pending : Pending areaId ip (start areaId ip router) := fun h listed => .inl listed
  obtain ⟨hrun, hsteps⟩ := run_pending pending met
  exact ⟨hrun, hsteps, fun e sized => clears_iff sized⟩

/-- A neighbor in Loading, with one request. -/
def loading (requests : List LsaHeader) : Router where
  area := fun areaId =>
    if areaId = 0 then
      some ⟨false, [], [{ designated with neighbor := [⟨0x0a000002, .loading, requests, [], 0⟩] }]⟩
    else none
  extlist := []

def summaryHeader : LsaHeader :=
  lsaHeader (fun i => (summaryLsa 1 0x80000001 0x0f3c).getD i 0)

/-- The requested summary. -/
def answer : Event := .update (updateOf 1 (summaryLsa 1 0x80000001 0x0f3c)) fromNeighbor

theorem run_synchronizes_summary :
    meetsAll 0 0x0a000002 (start 0 0x0a000002 (loading [summaryHeader])) [answer] = true ∧
      Pending 0 0x0a000002
        (run 0 0x0a000002 (start 0 0x0a000002 (loading [summaryHeader])) [answer]) ∧
      Justified 0 0x0a000002 (start 0 0x0a000002 (loading [summaryHeader])) answer := by
  have met :
      meetsAll 0 0x0a000002 (start 0 0x0a000002 (loading [summaryHeader])) [answer] = true := by
    decide +kernel
  obtain ⟨pending, justified, _⟩ :=
    run_synchronizes 0 0x0a000002 (loading [summaryHeader]) [answer] met
  exact ⟨met, pending, justified [] answer [] rfl⟩

/-- The requested summary arrives with a wrong checksum: the neighbor is Full, and the
database is empty. -/
theorem bad_checksum_ends_loading :
    (lsupdateRx (loading [summaryHeader]) (updateOf 1 (summaryLsa 1 0x80000001 0x0f3d))
        fromNeighbor).2.loadingDone = true ∧
      ¬ Pending 0 0x0a000002 (run 0 0x0a000002 (start 0 0x0a000002 (loading [summaryHeader]))
        [.update (updateOf 1 (summaryLsa 1 0x80000001 0x0f3d)) fromNeighbor]) ∧
      ¬ Justified 0 0x0a000002 (start 0 0x0a000002 (loading [summaryHeader]))
        (.update (updateOf 1 (summaryLsa 1 0x80000001 0x0f3d)) fromNeighbor) := by
  refine ⟨by decide +kernel, fun pending => ?_, fun justified => ?_⟩
  · rcases pending summaryHeader (by decide +kernel) with listed | held
    · revert listed
      decide +kernel
    · revert held
      decide +kernel
  · have held := (justified (by decide +kernel)).2 (by decide +kernel) summaryHeader
      (by decide +kernel)
    revert held
    decide +kernel

end Requests
