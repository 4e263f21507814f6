import Rcp100.LsUpdate

/-!
# Freshness of the link state database

Sequence numbers are signed 32-bit integers, and `lsupdateRx` compares them as
unsigned ones. The results below say what a run of updates does to the instances
of other routers as long as no step crosses from one half of the sequence space to
the other and no older copy arrives at `MaxAge`.
-/

namespace LsdbFreshness

open LsaFormat LsUpdate

/-- The received instance lies in the half of the stored one, and an older one does
not carry `MaxAge` to an instance that is alive. -/
structure InOrder (found : OspfLsa) (h : LsaHeader) : Prop where
  half : found.header.seq.msb = h.seq.msb
  alive : h.seq.toInt < found.header.seq.toInt → h.age = maxAge → found.header.age = maxAge

/-- An accepted advertisement has its whole header and arrives in order. -/
def Ordered (e : LsaEvent) : Prop :=
  accepted e.stub e.lsah = true → sizeofHeader ≤ e.header.length.toNat ∧
    ∀ found ∈ lsaListFind (e.before.lsdb e.header.type) e.header.key,
      found.selfOriginated = false → InOrder found e.header

/-- What an advertisement may do to a stored instance, with sequence numbers in
signed order. -/
structure FreshRule (found : OspfLsa) (lsah : Memory) (after : OspfLsa) : Prop where
  older : (lsaHeader lsah).seq.toInt < found.header.seq.toInt → after.bytes = found.bytes
  same : (lsaHeader lsah).seq = found.header.seq → (lsaHeader lsah).age ≠ maxAge →
    after.bytes = found.bytes
  newer : found.header.seq.toInt < (lsaHeader lsah).seq.toInt →
    after.bytes = lsah.bytes (lsaHeader lsah).length.toNat

/-- Every instance of another router obeys the rule when its own advertisement is
accepted and stays as it is otherwise. -/
def Fresh (e : LsaEvent) : Prop :=
  ∀ k found, lsaListFind (e.before.lsdb k.type) k = some found → found.selfOriginated = false →
    ∃ after, lsaListFind (e.after.lsdb k.type) k = some after ∧ after.selfOriginated = false ∧
      found.header.seq.toInt ≤ after.header.seq.toInt ∧
      if accepted e.stub e.lsah = true ∧ e.header.key = k then FreshRule found e.lsah after
      else after = found

section Install

variable (net : Network) (desc : PacketDesc) {list : List OspfLsa} {lsah : Memory}
  (sized : sizeofHeader ≤ (lsaHeader lsah).length.toNat)

include sized

theorem lsaListFind_installLsa {found : OspfLsa}
    (hfind : lsaListFind list (lsaHeader lsah).key = some found)
    (foreign : found.selfOriginated = false) :
    lsaListFind (installLsa net desc list lsah) (lsaHeader lsah).key =
      some (if found.header.seq < (lsaHeader lsah).seq then receivedLsa net lsah
        else if (lsaHeader lsah).age = maxAge then found.setAge maxAge else found) := by
  have hkey := lsaListFind_key hfind
  have keyed : (receivedLsa net lsah).key = (lsaHeader lsah).key := by
    rw [OspfLsa.key, header_receivedLsa net sized]
  unfold installLsa
  dsimp only
  rw [hfind]
  dsimp only
  rw [foreign, if_neg Bool.false_ne_true]
  split
  · rw [lsaListFind_update (fun _ => receivedLsa net lsah) hfind keyed, if_pos rfl]
  · split
    · rw [lsaListFind_update (·.setAge maxAge) hfind ((found.key_setAge maxAge).trans hkey),
        if_pos rfl]
    · exact hfind

theorem installLsa_fresh {found : OspfLsa}
    (hfind : lsaListFind list (lsaHeader lsah).key = some found)
    (foreign : found.selfOriginated = false) (ordered : InOrder found (lsaHeader lsah)) :
    ∃ after, lsaListFind (installLsa net desc list lsah) (lsaHeader lsah).key = some after ∧
      after.selfOriginated = false ∧ found.header.seq.toInt ≤ after.header.seq.toInt ∧
      FreshRule found lsah after := by
  have newer := lt_iff_toInt_lt ordered.half
  refine ⟨_, lsaListFind_installLsa net desc sized hfind foreign, ?_⟩
  split
  · rename_i less
    have hlt := newer.mp less
    refine ⟨rfl, ?_, ⟨?_, ?_, fun _ => rfl⟩⟩
    · rw [header_receivedLsa net sized]
      omega
    · intro hgt
      omega
    · intro heq
      rw [heq] at hlt
      omega
  · rename_i less
    have hle : ¬ found.header.seq.toInt < (lsaHeader lsah).seq.toInt := fun h => less (newer.mpr h)
    split
    · rename_i aged
      refine ⟨foreign, ?_, ⟨?_, ?_, fun h => absurd h hle⟩⟩
      · exact Int.le_of_eq (congrArg BitVec.toInt (found.seq_setAge maxAge).symm)
      · intro older
        rw [← ordered.alive older aged, found.setAge_self]
      · intro _ young
        exact absurd aged young
    · exact ⟨foreign, Int.le_refl _, fun _ => rfl, fun _ _ => rfl, fun h => absurd h hle⟩

end Install

variable {e : LsaEvent} {r : Router} {i j : Nat}

theorem stored_after (pass : accepted e.stub e.lsah = true) :
    lsaListFind (e.after.lsdb e.header.key.type) e.header.key =
      lsaListFind (installLsa e.net e.desc (e.before.lsdb e.header.type) e.lsah) e.header.key := by
  have side : e.header.key.type = 5 ↔ (lsaHeader e.lsah).type = 5 := Iff.rfl
  rw [LsaEvent.after, lsdb_receiveLsa, if_pos pass, lsdb_setLsdb_of_iff e.before _ side]
  rfl

theorem Ordered.fresh (ordered : Ordered e) : Fresh e := by
  intro k found hfind foreign
  by_cases same : accepted e.stub e.lsah = true ∧ e.header.key = k
  · obtain ⟨pass, rfl⟩ := same
    obtain ⟨sized, inOrder⟩ := ordered pass
    obtain ⟨after, hafter, hforeign, le, rule⟩ :=
      installLsa_fresh e.net e.desc sized hfind foreign (inOrder found hfind foreign)
    refine ⟨after, (stored_after pass).trans hafter, hforeign, le, ?_⟩
    rw [if_pos ⟨pass, rfl⟩]
    exact rule
  · refine ⟨found, ?_, foreign, Int.le_refl _, by rw [if_neg same]⟩
    by_cases pass : accepted e.stub e.lsah = true
    · have other : k ≠ e.header.key := fun h => same ⟨pass, h.symm⟩
      rw [LsaEvent.after, lsaListFind_receiveLsa_ne _ _ _ _ (fun h => (ordered h).1) other]
      exact hfind
    · rw [LsaEvent.after, lsdb_receiveLsa, if_neg pass]
      exact hfind

/-- Every instance of another router that `find` returns is still there in `find'`,
or a later one in its place. -/
def Retains (find find' : LsaKey → Option OspfLsa) : Prop :=
  ∀ k found, find k = some found → found.selfOriginated = false →
    ∃ after, find' k = some after ∧ after.selfOriginated = false ∧
      found.header.seq.toInt ≤ after.header.seq.toInt

theorem Retains.refl (find : LsaKey → Option OspfLsa) : Retains find find :=
  fun _ found hfind foreign => ⟨found, hfind, foreign, Int.le_refl _⟩

theorem Retains.trans {f g h : LsaKey → Option OspfLsa} (first : Retains f g)
    (second : Retains g h) : Retains f h := by
  intro k found hfind foreign
  obtain ⟨x, hx, fx, le⟩ := first k found hfind foreign
  obtain ⟨y, hy, fy, le'⟩ := second k x hx fx
  exact ⟨y, hy, fy, Int.le_trans le le'⟩

/-- The instance stored while a packet is processed. -/
def RxState.stored (st : RxState) (k : LsaKey) : Option OspfLsa := lsaListFind (st.lsdb k.type) k

/-- The instance stored for an area. -/
def stored (r : Router) (areaId : BitVec 32) (k : LsaKey) : Option OspfLsa :=
  if k.type = 5 then lsaListFind r.extlist k
  else (r.area areaId).bind (fun area => lsaListFind area.list k)

theorem Fresh.retains (fresh : Fresh e) :
    Retains (RxState.stored e.before) (RxState.stored e.after) := by
  intro k found hfind foreign
  obtain ⟨after, hafter, hforeign, le, _⟩ := fresh k found hfind foreign
  exact ⟨after, hafter, hforeign, le⟩

theorem loop_retains (stub : Bool) (net : Network) (desc : PacketDesc) (lsas : List Memory)
    (st : RxState) (fresh : ∀ e ∈ loopEvents stub net desc st lsas, Fresh e) :
    Retains (RxState.stored st)
      (RxState.stored (lsas.foldl (receiveLsa stub net desc) st)) := by
  induction lsas generalizing st with
  | nil => exact Retains.refl _
  | cons lsah rest ih =>
    have first := fresh ⟨stub, net, desc, st, lsah⟩ List.mem_cons_self
    exact first.retains.trans (ih _ (fun e he => fresh e (List.mem_cons_of_mem _ he)))

theorem stored_rxStart {area : Area} {areaId : BitVec 32}
    (found : r.area areaId = some area) (nb : Neighbor) :
    RxState.stored (rxStart r area nb) = stored r areaId := by
  funext k
  simp only [RxState.stored, RxState.lsdb, rxStart, stored, found, Option.bind_some]
  split
  · rfl
  · rfl

theorem stored_rxStore (r : Router) (area : Area) (desc : PacketDesc) (st : RxState) :
    stored (rxStore r area desc st) desc.areaId = RxState.stored st := by
  funext k
  simp only [RxState.stored, RxState.lsdb, stored, rxStore, Function.update_self,
    Option.bind_some]
  split
  · rfl
  · rfl

/-- Another area sees the external advertisements of the packet only. -/
theorem retains_other {area : Area} {desc : PacketDesc} {st : RxState}
    {areaId : BitVec 32} (other : areaId ≠ desc.areaId)
    (retains : Retains (stored r desc.areaId) (RxState.stored st)) :
    Retains (stored r areaId) (stored (rxStore r area desc st) areaId) := by
  intro k found hfind foreign
  by_cases ext : k.type = 5
  · have hfind' : stored r desc.areaId k = some found := by
      simpa only [stored, if_pos ext] using hfind
    obtain ⟨after, hafter, rest⟩ := retains k found hfind' foreign
    refine ⟨after, ?_, rest⟩
    simpa only [RxState.stored, RxState.lsdb, stored, rxStore, if_pos ext] using hafter
  · refine ⟨found, ?_, foreign, Int.le_refl _⟩
    simpa only [stored, rxStore, if_neg ext, Function.update_of_ne other] using hfind

theorem packet_retains {pkt : UpdatePacket} {desc : PacketDesc}
    (fresh : ∀ e ∈ packetEvents r pkt desc, Fresh e) (areaId : BitVec 32) :
    Retains (stored r areaId) (stored (lsupdateRx r pkt desc).1 areaId) := by
  rcases lsupdateRx_events r pkt desc with ⟨kept, _⟩ | ⟨area, net, nb, found, after, events, _⟩
  · rw [kept]
    exact Retains.refl _
  · rw [events] at fresh
    have loop := loop_retains area.stub net desc pkt.lsas (rxStart r area nb) fresh
    rw [stored_rxStart (sender_eq_some found).1] at loop
    rw [after]
    by_cases here : areaId = desc.areaId
    · rw [here, stored_rxStore]
      exact loop
    · exact retains_other here loop

/-- In every run whose advertisements arrive in order, each of them obeys the rule,
and no instance of another router is lost or becomes less recent. -/
theorem ordered_run_fresh (r : Router) (pkts : List (UpdatePacket × PacketDesc))
    (ordered : ∀ e ∈ runEvents r pkts, Ordered e) :
    (∀ e ∈ runEvents r pkts, Fresh e) ∧
      ∀ areaId, Retains (stored r areaId) (stored (rxRun r pkts) areaId) := by
  induction pkts generalizing r with
  | nil =>
    refine ⟨?_, fun areaId => Retains.refl _⟩
    intro e he
    cases he
  | cons first rest ih =>
    obtain ⟨pkt, desc⟩ := first
    have here : ∀ e ∈ packetEvents r pkt desc, Fresh e := fun e he =>
      (ordered e (List.mem_append_left _ he)).fresh
    obtain ⟨later, retains⟩ :=
      ih (lsupdateRx r pkt desc).1 (fun e he => ordered e (List.mem_append_right _ he))
    refine ⟨?_, fun areaId => (packet_retains here areaId).trans (retains areaId)⟩
    intro e he
    rcases List.mem_append.mp he with now | next
    · exact here e now
    · exact later e next

theorem inOrder_iff (found : OspfLsa) (h : LsaHeader) :
    found.header.seq.msb = h.seq.msb ∧
      (h.seq.toInt < found.header.seq.toInt → h.age = maxAge → found.header.age = maxAge) ↔
      InOrder found h :=
  ⟨fun ⟨half, alive⟩ => ⟨half, alive⟩, fun ⟨half, alive⟩ => ⟨half, alive⟩⟩

instance (found : OspfLsa) (h : LsaHeader) : Decidable (InOrder found h) :=
  decidable_of_iff _ (inOrder_iff found h)

instance (e : LsaEvent) : Decidable (Ordered e) :=
  inferInstanceAs (Decidable (accepted e.stub e.lsah = true →
    sizeofHeader ≤ e.header.length.toNat ∧
      ∀ found ∈ lsaListFind (e.before.lsdb e.header.type) e.header.key,
        found.selfOriginated = false → InOrder found e.header))

/-- The summary 10.1.0.0/16 of the router 1.1.1.1. -/
def summaryLsa (age : BitVec 16) (seq : BitVec 32) (checksum : BitVec 16) : List (BitVec 8) :=
  [age.extractLsb' 8 8, age.extractLsb' 0 8, 0, 3, 10, 1, 0, 0, 1, 1, 1, 1,
    seq.extractLsb' 24 8, seq.extractLsb' 16 8, seq.extractLsb' 8 8, seq.extractLsb' 0 8,
    checksum.extractLsb' 8 8, checksum.extractLsb' 0 8, 0, 28, 255, 255, 0, 0, 0, 0, 0, 5]

/-- The first instance, the second one, and the first one again. -/
def repeatedRun : List (UpdatePacket × PacketDesc) :=
  [(updateOf 1 (summaryLsa 1 0x80000001 0x0f3c), fromNeighbor),
    (updateOf 1 (summaryLsa 1 0x80000002 0x0d3d), fromNeighbor),
    (updateOf 1 (summaryLsa 7 0x80000001 0x0f3c), fromNeighbor)]

theorem ordered_run_fresh_repeated :
    (stored (rxRun (receiver []) repeatedRun) 0 ⟨3, 0x0a010000, 0x01010101⟩).isSome = true ∧
      (∀ e ∈ runEvents (receiver []) repeatedRun, Fresh e) ∧
      ∀ areaId, Retains (stored (receiver []) areaId)
        (stored (rxRun (receiver []) repeatedRun) areaId) :=
  ⟨by decide, ordered_run_fresh (receiver []) repeatedRun (by decide)⟩

/-- The second instance, and then a copy of the first one that reached `MaxAge`. -/
def delayedRun : List (UpdatePacket × PacketDesc) :=
  [(updateOf 1 (summaryLsa 1 0x80000002 0x0d3d), fromNeighbor),
    (updateOf 1 (summaryLsa 3600 0x80000001 0x0f3c), fromNeighbor)]

/-- The sequence numbers -1 and 0. -/
def crossingRun : List (UpdatePacket × PacketDesc) :=
  [(updateOf 1 (summaryLsa 1 0xffffffff 0x9339), fromNeighbor),
    (updateOf 1 (summaryLsa 1 0 0x9339), fromNeighbor)]

theorem Fresh.rule (fresh : Fresh e)
    (pass : accepted e.stub e.lsah = true) {found : OspfLsa}
    (hfind : RxState.stored e.before e.header.key = some found)
    (foreign : found.selfOriginated = false) :
    ∃ after, RxState.stored e.after e.header.key = some after ∧ FreshRule found e.lsah after := by
  obtain ⟨after, hafter, _, _, rule⟩ := fresh e.header.key found hfind foreign
  rw [if_pos ⟨pass, rfl⟩] at rule
  exact ⟨after, hafter, rule⟩

/-- A delayed copy at `MaxAge` kills the instance that followed it, and the instance
that crosses into the upper half is not taken. -/
theorem stale_and_crossing_copies :
    (¬ ∀ e ∈ runEvents (receiver []) delayedRun, Fresh e) ∧
      ¬ ∀ e ∈ runEvents (receiver []) crossingRun, Fresh e := by
  constructor
  · intro fresh
    let e := (runEvents (receiver []) delayedRun).get ⟨1, by decide⟩
    have found := Option.some_get (x := RxState.stored e.before e.header.key) (by decide)
    obtain ⟨after, hafter, rule⟩ :=
      (fresh e (List.get_mem _ _)).rule (by decide) found.symm (by decide)
    have kept := congrArg some (rule.older (by decide))
    rw [← Option.map_some (f := OspfLsa.bytes), ← hafter] at kept
    exact absurd kept (by decide)
  · intro fresh
    let e := (runEvents (receiver []) crossingRun).get ⟨1, by decide⟩
    have found := Option.some_get (x := RxState.stored e.before e.header.key) (by decide)
    obtain ⟨after, hafter, rule⟩ :=
      (fresh e (List.get_mem _ _)).rule (by decide) found.symm (by decide)
    have replaced := congrArg some (rule.newer (by decide))
    rw [← Option.map_some (f := OspfLsa.bytes), ← hafter] at replaced
    exact absurd replaced (by decide)

def initialSequenceNumber : BitVec 32 := 0x80000001

def maxSequenceNumber : BitVec 32 := 0x7fffffff

def lsaIncrementSeq (seqNumber : BitVec 32) : BitVec 32 :=
  if seqNumber = maxSequenceNumber then initialSequenceNumber else seqNumber + 1

/-- The sequence number of the `i`-th origination: `lsa_renew` writes the global
counter into the header and increments it. -/
def seqNumber : Nat → BitVec 32
  | 0 => initialSequenceNumber
  | i+1 => lsaIncrementSeq (seqNumber i)

/-- The number of originations from `InitialSequenceNumber` to `MaxSequenceNumber`. -/
def lap : Nat := 0xffffffff

theorem seqNumber_toNat (i : Nat) : (seqNumber i).toNat = (0x80000001 + i % lap) % 0x100000000 := by
  induction i with
  | zero => rfl
  | succ i ih =>
    have bound : i % lap < lap := Nat.mod_lt _ (by decide)
    have next : (i+1) % lap = if i % lap = lap - 1 then 0 else i % lap + 1 := by
      have split := Nat.div_add_mod i lap
      rw [Nat.add_mod, Nat.mod_eq_of_lt (show 1 < lap by decide)]
      split
      · rename_i last
        rw [last]
        decide
      · rename_i inner
        exact Nat.mod_eq_of_lt (by omega)
    have hmax : seqNumber i = maxSequenceNumber ↔ i % lap = lap - 1 := by
      rw [← BitVec.toNat_inj, ih]
      have hmax : maxSequenceNumber.toNat = 0x7fffffff := rfl
      rw [hmax]
      simp only [lap] at bound ⊢
      omega
    rw [seqNumber, lsaIncrementSeq, next]
    by_cases last : i % lap = lap - 1
    · rw [if_pos (hmax.mpr last), if_pos last]
      rfl
    · rw [if_neg (fun h => last (hmax.mp h)), if_neg last, BitVec.toNat_add, ih]
      have one : (1 : BitVec 32).toNat = 1 := rfl
      rw [one]
      omega

theorem mod_lap_lt (order : i < j) (same : i / lap = j / lap) :
    i % lap < j % lap ∧ j % lap < lap := by
  have hi := Nat.div_add_mod i lap
  have hj := Nat.div_add_mod j lap
  rw [same] at hi
  exact ⟨by omega, Nat.mod_lt _ (by decide)⟩

theorem seqNumber_ne (order : i < j) (same : i / lap = j / lap) :
    seqNumber j ≠ seqNumber i := by
  intro heq
  have numbers := congrArg BitVec.toNat heq
  obtain ⟨less, bound⟩ := mod_lap_lt order same
  rw [seqNumber_toNat, seqNumber_toNat] at numbers
  simp only [lap] at *
  omega

theorem seqNumber_lt_iff (order : i < j) (same : i / lap = j / lap) :
    seqNumber i < seqNumber j ↔ j % lap < 0x7fffffff ∨ 0x7fffffff ≤ i % lap := by
  obtain ⟨less, bound⟩ := mod_lap_lt order same
  rw [BitVec.lt_def, seqNumber_toNat, seqNumber_toNat]
  simp only [lap] at *
  omega

/-- A receiver that holds the `i`-th instance of another router takes the `j`-th one
in its place, unless the run crossed the middle of the sequence space between them. -/
theorem later_instance_replaces_iff (e : LsaEvent) (pass : accepted e.stub e.lsah = true)
    (sized : sizeofHeader ≤ e.header.length.toNat) {found : OspfLsa}
    (hfind : RxState.stored e.before e.header.key = some found)
    (foreign : found.selfOriginated = false) {i j : Nat} (order : i < j)
    (same : i / lap = j / lap) (held : found.header.seq = seqNumber i)
    (received : e.header.seq = seqNumber j) :
    (found.header.seq < e.header.seq ↔ j % lap < 0x7fffffff ∨ 0x7fffffff ≤ i % lap) ∧
      (RxState.stored e.after e.header.key = some (receivedLsa e.net e.lsah) ↔
        j % lap < 0x7fffffff ∨ 0x7fffffff ≤ i % lap) := by
  have compare : found.header.seq < e.header.seq ↔ j % lap < 0x7fffffff ∨ 0x7fffffff ≤ i % lap := by
    rw [held, received]
    exact seqNumber_lt_iff order same
  refine ⟨compare, ?_⟩
  have hafter : RxState.stored e.after e.header.key =
      some (if found.header.seq < e.header.seq then receivedLsa e.net e.lsah
        else if e.header.age = maxAge then found.setAge maxAge else found) :=
    (stored_after pass).trans (lsaListFind_installLsa e.net e.desc sized hfind foreign)
  rw [← compare, hafter]
  by_cases less : found.header.seq < e.header.seq
  · rw [if_pos less]
    exact iff_of_true rfl less
  · rw [if_neg less]
    refine iff_of_false ?_ less
    intro heq
    -- the copy would have the sequence number of the instance that was kept
    have hseq : _ = (receivedLsa e.net e.lsah).header.seq :=
      congrArg (fun l => l.header.seq) (Option.some.inj heq)
    rw [header_receivedLsa e.net sized] at hseq
    have kept : e.header.seq = found.header.seq := by
      rw [LsaEvent.header, ← hseq]
      split
      · exact found.seq_setAge maxAge
      · rfl
    rw [held, received] at kept
    exact seqNumber_ne order same kept

/-- The second pass of a run. -/
def secondEvent (first second : List (BitVec 8)) : LsaEvent where
  stub := false
  net := designated
  desc := fromNeighbor
  before := ⟨[], [receivedLsa designated (fun i => first.getD i 0)], [], [], []⟩
  lsah := fun i => second.getD i 0

theorem later_instance_replaces_second :
    RxState.stored
      (secondEvent (summaryLsa 1 0x80000001 0x0f3c) (summaryLsa 1 0x80000002 0x0d3d)).after
      ⟨3, 0x0a010000, 0x01010101⟩ =
        some (receivedLsa designated (fun i => (summaryLsa 1 0x80000002 0x0d3d).getD i 0)) :=
  (later_instance_replaces_iff (i := 0) (j := 1)
    (secondEvent (summaryLsa 1 0x80000001 0x0f3c) (summaryLsa 1 0x80000002 0x0d3d))
    (by decide) (by decide) rfl (by decide) (by decide) (by decide) (by decide)
    (by decide)).2.mpr (by decide)

/-- The first instance and the one after 0x7fffffff increments: the receiver keeps the
first one. -/
theorem middle_instance_refused :
    seqNumber 0 = 0x80000001 ∧ seqNumber (0x7fffffff) = 0 ∧ 0x7fffffff < lap ∧
      ¬ seqNumber 0 < seqNumber (0x7fffffff) ∧
      accepted false (fun i => (summaryLsa 1 0 0x9339).getD i 0) = true ∧
      (stored (rxRun (receiver [])
          [(updateOf 1 (summaryLsa 1 0x80000001 0x0f3c), fromNeighbor),
            (updateOf 1 (summaryLsa 1 0 0x9339), fromNeighbor)]) 0
        ⟨3, 0x0a010000, 0x01010101⟩).map (fun l => l.header.seq) = some 0x80000001 := by
  have middle : seqNumber (0x7fffffff) = 0 := by
    rw [← BitVec.toNat_inj, seqNumber_toNat]
    decide
  refine ⟨rfl, middle, by decide, ?_, by decide, by decide⟩
  rw [middle]
  decide

end LsdbFreshness
