import Rcp100.LsdbFreshness
import Rcp100.Replicas

/-!
# Convergence of the link state databases

While no advertisement is flushed, a run of Link State Updates leaves the most recent of the
instances that a router held and heard. So two routers that know the same instances store the
same one, in whatever order and however often these arrived.
-/

namespace LsdbConvergence

open LsaFormat LsUpdate LsdbFreshness Replicas

/-- The advertisement of a pass, as it is stored. -/
def text (e : LsaEvent) : List (BitVec 8) := e.lsah.bytes e.header.length.toNat

/-- The sequence number of a stored text, in the order of the source. -/
def seqOf (text : List (BitVec 8)) : Nat := (OspfLsa.mk text false 0 0 0 0).header.seq.toNat

/-- The pass takes an advertisement with the key into a list that the area sees. -/
def Takes (areaId : BitVec 32) (k : LsaKey) (e : LsaEvent) : Prop :=
  accepted e.stub e.lsah = true ∧ e.header.key = k ∧ (k.type = 5 ∨ e.desc.areaId = areaId)

instance (areaId : BitVec 32) (k : LsaKey) (e : LsaEvent) : Decidable (Takes areaId k e) :=
  inferInstanceAs (Decidable (_ ∧ _ ∧ (_ ∨ _)))

/-- The instances that were heard for a key. -/
def heard (areaId : BitVec 32) (k : LsaKey) (events : List LsaEvent) : List (List (BitVec 8)) :=
  (events.filter (Takes areaId k)).map text

/-- The text that is stored for an area. -/
def held (r : Router) (areaId : BitVec 32) (k : LsaKey) : Option (List (BitVec 8)) :=
  (stored r areaId k).map OspfLsa.bytes

/-- The instances that a router held before a run or heard in it. -/
def known (r : Router) (pkts : List (UpdatePacket × PacketDesc)) (areaId : BitVec 32)
    (k : LsaKey) : List (List (BitVec 8)) :=
  (held r areaId k).toList ++ heard areaId k (runEvents r pkts)

/-- An accepted advertisement has its whole header, is not flushed and is not one of the
router's own; a backup router does not wait with it for the designated router. -/
def Ordinary (e : LsaEvent) : Prop :=
  accepted e.stub e.lsah = true → sizeofHeader ≤ e.header.length.toNat ∧ e.header.age ≠ maxAge ∧
    (∀ found ∈ lsaListFind (e.before.lsdb e.header.type) e.header.key,
      found.selfOriginated = false) ∧
    (lsaListFind (e.before.lsdb e.header.type) e.header.key = none →
      ¬ (e.net.state = .backup ∧ e.desc.ipDest = allDRouters))

instance (e : LsaEvent) : Decidable (Ordinary e) :=
  inferInstanceAs (Decidable (_ → _ ∧ _ ∧ (∀ found ∈ lsaListFind _ _, _) ∧ (_ → ¬ (_ ∧ _))))

/-- `after` is the most recent of what was held and heard. -/
def Newest (before : Option OspfLsa) (heard : List (List (BitVec 8))) (after : Option OspfLsa) :
    Prop :=
  after.map OspfLsa.bytes = ((before.map OspfLsa.bytes).toList ++ heard).argmax seqOf

theorem Newest.refl (l : Option OspfLsa) : Newest l [] l := by
  cases l <;> rfl

theorem Newest.comp {a b c : Option OspfLsa} {first second : List (List (BitVec 8))}
    (earlier : Newest a first b) (later : Newest b second c) : Newest a (first ++ second) c := by
  rw [Newest] at earlier later ⊢
  rw [later, earlier, argmax_held, List.append_assoc]

section Pass

variable {areaId : BitVec 32} {k : LsaKey}

theorem seqOf_bytes (l : OspfLsa) : seqOf l.bytes = l.header.seq.toNat :=
  congrArg (fun h : LsaHeader => h.seq.toNat) (OspfLsa.header_congr rfl)

theorem seqOf_text {e : LsaEvent} (sized : sizeofHeader ≤ e.header.length.toNat) :
    seqOf (text e) = e.header.seq.toNat := by
  have stores : (receivedLsa e.net e.lsah).bytes = text e := rfl
  rw [← stores, seqOf_bytes, header_receivedLsa e.net sized]
  rfl

theorem installed_newest {e : LsaEvent} (pass : accepted e.stub e.lsah = true)
    (ordinary : Ordinary e) :
    Newest (RxState.stored e.before e.header.key) [text e]
      (RxState.stored e.after e.header.key) := by
  obtain ⟨sized, young, foreign, ready⟩ := ordinary pass
  cases before : RxState.stored e.before e.header.key with
  | none =>
    have alone : installLsa e.net e.desc (e.before.lsdb e.header.type) e.lsah =
        receivedLsa e.net e.lsah :: e.before.lsdb e.header.type := by
      have here : lsaListFind (e.before.lsdb e.header.type) (lsaHeader e.lsah).key = none := before
      simp only [installLsa, here]
      rw [if_neg (ready before)]
      exact if_pos young
    have keyed : (receivedLsa e.net e.lsah).key = e.header.key := by
      rw [OspfLsa.key, header_receivedLsa e.net sized]
      rfl
    have after : RxState.stored e.after e.header.key = some (receivedLsa e.net e.lsah) := by
      apply (stored_after pass).trans
      rw [alone]
      exact List.find?_cons_of_pos (decide_eq_true keyed)
    rw [after]
    rfl
  | some found =>
    have after : RxState.stored e.after e.header.key =
        some (if found.header.seq < e.header.seq then receivedLsa e.net e.lsah
          else if e.header.age = maxAge then found.setAge maxAge else found) :=
      (stored_after pass).trans
        (lsaListFind_installLsa e.net e.desc sized before (foreign found before))
    have rank : seqOf found.bytes < seqOf (text e) ↔ found.header.seq < e.header.seq := by
      rw [seqOf_bytes, seqOf_text sized]
      exact BitVec.lt_def.symm
    have choice := List.argmax_concat seqOf (text e) [found.bytes]
    rw [after, if_neg young, Newest]
    apply Eq.trans _ choice.symm
    rw [List.argmax_singleton]
    by_cases less : found.header.seq < e.header.seq
    · rw [if_pos less]
      exact (if_pos (rank.mpr less)).symm
    · rw [if_neg less]
      exact (if_neg fun h => less (rank.mp h)).symm

theorem pass_newest {e : LsaEvent} (ordinary : Ordinary e)
    (here : k.type = 5 ∨ e.desc.areaId = areaId) :
    Newest (RxState.stored e.before k) (heard areaId k [e]) (RxState.stored e.after k) := by
  by_cases takes : Takes areaId k e
  · have one : heard areaId k [e] = [text e] := by
      simp [heard, takes]
    obtain ⟨pass, rfl, _⟩ := takes
    rw [one]
    exact installed_newest pass ordinary
  · have none : heard areaId k [e] = [] := by
      simp [heard, takes]
    have same : RxState.stored e.after k = RxState.stored e.before k := by
      by_cases pass : accepted e.stub e.lsah = true
      · have other : k ≠ e.header.key := fun h => takes ⟨pass, h.symm, here⟩
        exact lsaListFind_receiveLsa_ne _ _ _ _ (fun h => (ordinary h).1) other
      · rw [RxState.stored, LsaEvent.after, lsdb_receiveLsa, if_neg pass]
        rfl
    rw [none, same]
    exact .refl _

theorem heard_append (first second : List LsaEvent) :
    heard areaId k (first ++ second) = heard areaId k first ++ heard areaId k second := by
  rw [heard, List.filter_append, List.map_append]
  rfl

theorem loop_newest (stub : Bool) (net : Network) {desc : PacketDesc} (lsas : List Memory)
    (st : RxState) (here : k.type = 5 ∨ desc.areaId = areaId)
    (ordinary : ∀ e ∈ loopEvents stub net desc st lsas, Ordinary e) :
    Newest (RxState.stored st k) (heard areaId k (loopEvents stub net desc st lsas))
      (RxState.stored (lsas.foldl (receiveLsa stub net desc) st) k) := by
  induction lsas generalizing st with
  | nil => exact .refl _
  | cons lsah rest ih =>
    have first := pass_newest (ordinary ⟨stub, net, desc, st, lsah⟩ List.mem_cons_self) here
    have later := ih (receiveLsa stub net desc st lsah)
      fun e he => ordinary e (List.mem_cons_of_mem _ he)
    have whole := first.comp later
    rw [← heard_append] at whole
    exact whole

theorem heard_other (stub : Bool) (net : Network) {desc : PacketDesc} (lsas : List Memory)
    (st : RxState) (other : ¬ (k.type = 5 ∨ desc.areaId = areaId)) :
    heard areaId k (loopEvents stub net desc st lsas) = [] := by
  induction lsas generalizing st with
  | nil => rfl
  | cons lsah rest ih =>
    have skips : ¬ Takes areaId k ⟨stub, net, desc, st, lsah⟩ := fun h => other h.2.2
    rw [loopEvents, heard, List.filter_cons, if_neg (by simpa using skips)]
    exact ih _

/-- A packet is dropped, or its loop runs on what the router holds for the sender's area. -/
theorem packet_cases (r : Router) (pkt : UpdatePacket) (desc : PacketDesc) :
    packetEvents r pkt desc = [] ∧ (lsupdateRx r pkt desc).1 = r ∨
      ∃ area net nb, r.area desc.areaId = some area ∧
        packetEvents r pkt desc = loopEvents area.stub net desc (rxStart r area nb) pkt.lsas ∧
        (lsupdateRx r pkt desc).1 =
          rxStore r area desc (rxLoop r area net nb desc pkt.lsas) := by
  unfold packetEvents lsupdateRx
  split
  · cases known : sender r desc with
    | none => exact .inl ⟨rfl, rfl⟩
    | some found =>
      obtain ⟨area, net, nb⟩ := found
      dsimp only
      split
      · exact .inl ⟨rfl, rfl⟩
      · exact .inr ⟨area, net, nb, (sender_eq_some known).1, rfl, rfl⟩
  · split
    · exact .inl ⟨rfl, rfl⟩
    · exact .inl ⟨rfl, rfl⟩

theorem packet_newest {r : Router} {pkt : UpdatePacket} {desc : PacketDesc}
    (ordinary : ∀ e ∈ packetEvents r pkt desc, Ordinary e) :
    Newest (stored r areaId k) (heard areaId k (packetEvents r pkt desc))
      (stored (lsupdateRx r pkt desc).1 areaId k) := by
  rcases packet_cases r pkt desc with
    ⟨silent, kept⟩ | ⟨area, net, nb, found, events, after⟩
  · rw [silent, kept]
    exact .refl _
  · rw [events] at ordinary ⊢
    rw [after]
    by_cases here : k.type = 5 ∨ desc.areaId = areaId
    · have loop := loop_newest area.stub net pkt.lsas (rxStart r area nb) here ordinary
      have seen : ∀ r' : Router, stored r' desc.areaId k = stored r' areaId k := by
        intro r'
        rcases here with ext | rfl
        · rw [stored, stored, if_pos ext, if_pos ext]
        · rfl
      rw [← seen, ← seen, stored_rxStore, ← stored_rxStart found nb]
      exact loop
    · obtain ⟨inner, other⟩ := not_or.mp here
      have same : stored (rxStore r area desc (rxLoop r area net nb desc pkt.lsas)) areaId k =
          stored r areaId k := by
        simp only [stored, rxStore, if_neg inner, Function.update_of_ne (Ne.symm other)]
      rw [heard_other area.stub net pkt.lsas _ here, same]
      exact .refl _

theorem run_newest (r : Router) (pkts : List (UpdatePacket × PacketDesc))
    (ordinary : ∀ e ∈ runEvents r pkts, Ordinary e) :
    Newest (stored r areaId k) (heard areaId k (runEvents r pkts))
      (stored (rxRun r pkts) areaId k) := by
  induction pkts generalizing r with
  | nil => exact .refl _
  | cons first rest ih =>
    obtain ⟨pkt, desc⟩ := first
    have now : Newest (stored r areaId k) _ (stored (lsupdateRx r pkt desc).1 areaId k) :=
      packet_newest fun e he => ordinary e (List.mem_append_left _ he)
    have later := ih (lsupdateRx r pkt desc).1 fun e he =>
      ordinary e (List.mem_append_right _ he)
    have whole := now.comp later
    rw [← heard_append] at whole
    exact whole

end Pass

/-- A router stores the most recent instance that it knows for a key, and another router that
knows the same ones stores the same text, if different instances have different sequence
numbers. -/
theorem databases_converge (r r' : Router) (pkts pkts' : List (UpdatePacket × PacketDesc))
    (ordinary : ∀ e ∈ runEvents r pkts, Ordinary e) (areaId areaId' : BitVec 32) (k : LsaKey) :
    held (rxRun r pkts) areaId k = (known r pkts areaId k).argmax seqOf ∧
      ((∀ e ∈ runEvents r' pkts', Ordinary e) →
        (∀ x, x ∈ known r pkts areaId k ↔ x ∈ known r' pkts' areaId' k) →
        (∀ x ∈ known r pkts areaId k, ∀ y ∈ known r pkts areaId k, seqOf x = seqOf y → x = y) →
        held (rxRun r' pkts') areaId' k = held (rxRun r pkts) areaId k) := by
  have here : held (rxRun r pkts) areaId k = (known r pkts areaId k).argmax seqOf :=
    run_newest r pkts ordinary
  refine ⟨here, fun ordinary' same apart => ?_⟩
  have there : held (rxRun r' pkts') areaId' k = (known r' pkts' areaId' k).argmax seqOf :=
    run_newest r' pkts' ordinary'
  rw [there, here]
  exact (argmax_congr same apart).symm

/-- The second instance before the first one, and once more. -/
def reversedRun : List (UpdatePacket × PacketDesc) :=
  [(updateOf 1 (summaryLsa 1 0x80000002 0x0d3d), fromNeighbor),
    (updateOf 1 (summaryLsa 1 0x80000001 0x0f3c), fromNeighbor),
    (updateOf 1 (summaryLsa 1 0x80000002 0x0d3d), fromNeighbor)]

theorem databases_converge_reversed :
    held (rxRun (receiver []) reversedRun.tail) 0 ⟨3, 0x0a010000, 0x01010101⟩ =
        (known (receiver []) reversedRun.tail 0 ⟨3, 0x0a010000, 0x01010101⟩).argmax seqOf ∧
      held (rxRun (receiver []) reversedRun) 0 ⟨3, 0x0a010000, 0x01010101⟩ =
        held (rxRun (receiver []) reversedRun.tail) 0 ⟨3, 0x0a010000, 0x01010101⟩ := by
  have sub : known (receiver []) reversedRun.tail 0 ⟨3, 0x0a010000, 0x01010101⟩ ⊆
      known (receiver []) reversedRun 0 ⟨3, 0x0a010000, 0x01010101⟩ := by decide
  have sub' : known (receiver []) reversedRun 0 ⟨3, 0x0a010000, 0x01010101⟩ ⊆
      known (receiver []) reversedRun.tail 0 ⟨3, 0x0a010000, 0x01010101⟩ := by decide
  obtain ⟨newest, agree⟩ := databases_converge (receiver []) (receiver []) reversedRun.tail
    reversedRun (by decide) 0 0 ⟨3, 0x0a010000, 0x01010101⟩
  exact ⟨newest, agree (by decide) (fun _ => ⟨(sub ·), (sub' ·)⟩) (by decide)⟩

end LsdbConvergence
