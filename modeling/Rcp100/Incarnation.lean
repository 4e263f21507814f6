import Rcp100.LsaAging

/-!
# Sequence numbers of a previous incarnation

Another router reports an advertisement of this router with a higher sequence number. The
number is kept with the advertisement, and three seconds later the advertisement is renewed
with the counter of the process, which is raised first if it is below the number. Meanwhile
anything may happen to the rest of the process, its counter included.
-/

namespace Incarnation

open LsaFormat LsaBounds LsUpdate LsaAging LsdbFreshness

section Events

/-- What a received copy does to an advertisement of this router. -/
def noted (h : LsaHeader) (l : OspfLsa) : OspfLsa :=
  if h.age = maxAge then l.setAge maxAge
  else if l.header.seq < h.seq then { l with oldCnt := 3, oldSelfOriginatedSeq := h.seq }
  else l

/-- What happens to the advertisement. -/
inductive Event where
  /-- the aging loop comes to it, and the process is in the state -/
  | second (s : Ospf)
  /-- a copy of it is received -/
  | copy (h : LsaHeader)

def after (areaId : BitVec 32) (l : OspfLsa) : Event → Option OspfLsa
  | .second s => (ageLsa areaId s l).2
  | .copy h => some (noted h l)

def run (areaId : BitVec 32) : OspfLsa → List Event → Option OspfLsa
  | l, [] => some l
  | l, e :: events => (after areaId l e).bind fun l => run areaId l events

/-- No copy is newer than the number. -/
def NoneNewer (seq : BitVec 32) (events : List Event) : Prop :=
  ∀ h, Event.copy h ∈ events → h.seq ≤ seq

/-- The countdown ends in this second, before the advertisement is due for its age. -/
structure RunsOut (l : OspfLsa) : Prop where
  last : l.oldCnt = 1
  young : ¬ maxAge ≤ l.header.age + 1

/-- The instance that is flooded carries a higher number than the one that was reported. -/
def Overridden (areaId : BitVec 32) (s : Ospf) (l : OspfLsa) (seq : BitVec 32) : Prop :=
  ∃ renewed, (ageLsa areaId s l).2 = some renewed ∧
    (renewed, areaId) ∈ (ageLsa areaId s l).1.floods ∧ seq < renewed.header.seq

/-- The counter is above the number; or it is below, the number is not the largest one, and no
older copy has replaced it since. (The counter is raised from `MaxSequenceNumber` to the initial
number, which is above one more number.) -/
def Clear (counter kept seq : BitVec 32) : Prop :=
  seq < counter ∨ counter < kept ∧
    (kept = seq ∧ seq ≠ 0xffffffff ∨ kept = maxSequenceNumber ∧ seq = 0x80000000)

end Events

section Headers

variable {list : List OspfLsa} {lsah : Memory} {l : OspfLsa}

theorem getD_writeBytes_inside (bytes bs : List (BitVec 8)) {o i : Nat}
    (room : o + bs.length ≤ bytes.length) (inside : i < bs.length) :
    (writeBytes bytes o bs).getD (o+i) 0 = bs.getD i 0 := by
  induction bs generalizing bytes o i with
  | nil => cases inside
  | cons b rest ih =>
    rw [List.length_cons] at room inside
    rw [writeBytes]
    cases i with
    | zero =>
      have inRange : o < bytes.length := by omega
      change (writeBytes (bytes.set o b) (o+1) rest).getD o 0 = b
      rw [getD_writeBytes _ _ (.inl (Nat.lt_succ_self o)), List.getD_eq_getElem?_getD,
        List.getElem?_set_self inRange, Option.getD_some]
    | succ i =>
      rw [show o + (i+1) = o + 1 + i by omega,
        ih _ (by rw [List.length_set]; omega) (by omega), List.getD_cons_succ]

theorem seq_lsaRenewed (n : BitVec 32) (room : sizeofHeader ≤ l.bytes.length) :
    (lsaRenewed n l).header.seq = n := by
  have long : 20 ≤ (l.setAge 0).bytes.length := by
    rw [length_setAge]
    exact room
  have stored : ∀ i < 4, (lsaRenewed n l).memory (12 + i) =
      [n.extractLsb' 24 8, n.extractLsb' 16 8, n.extractLsb' 8 8, n.extractLsb' 0 8].getD i 0 := by
    intro i hi
    simp only [lsaRenewed, insertChecksum, OspfLsa.memory]
    rw [getD_writeBytes _ _ (by simp; omega), getD_writeBytes _ _ (by simp; omega)]
    exact getD_writeBytes_inside _ _ (Nat.le_trans (Nat.le_of_lt_succ (by simp)) long) hi
  simp only [OspfLsa.header, lsaHeader, Memory.get32, Memory.get16, stored 0 (by omega),
    stored 1 (by omega), stored 2 (by omega), stored 3 (by omega)]
  exact append_extract32 n

end Headers

section Run

variable {areaId seq : BitVec 32} {s : Ospf} {l l' : OspfLsa} {events : List Event}

/-- What stays true of the advertisement while no newer copy is received. -/
structure Kept (seq : BitVec 32) (l : OspfLsa) : Prop where
  own : l.selfOriginated = true
  room : sizeofHeader ≤ l.bytes.length
  reported : l.oldSelfOriginatedSeq ≤ seq

theorem Kept.setAge (kept : Kept seq l) (age : BitVec 16) : Kept seq (l.setAge age) :=
  ⟨kept.own, by rw [length_setAge]; exact kept.room, kept.reported⟩

theorem Kept.renewed (kept : Kept seq l) (n : BitVec 32) : Kept seq (lsaRenewed n l) :=
  ⟨kept.own, by rw [length_lsaRenewed]; exact kept.room, kept.reported⟩

theorem Kept.noted (kept : Kept seq l) {h : LsaHeader} (old : h.seq ≤ seq) :
    Kept seq (noted h l) := by
  rw [Incarnation.noted]
  split_ifs
  · exact kept.setAge maxAge
  · exact ⟨kept.own, kept.room, old⟩
  · exact kept

theorem Kept.ageLsa (kept : Kept seq l) (areaId : BitVec 32) (s : Ospf) :
    ∃ l', (ageLsa areaId s l).2 = some l' ∧ Kept seq l' := by
  have aged := kept.setAge (l.header.age + 1)
  rw [LsaAging.ageLsa]
  dsimp only
  split
  · rw [if_pos kept.own]
    exact ⟨_, rfl, kept.renewed s.seqNumber⟩
  · split
    · split
      · refine ⟨_, rfl, Kept.renewed ?_ _⟩
        exact ⟨aged.own, aged.room, aged.reported⟩
      · exact ⟨_, rfl, aged.own, aged.room, aged.reported⟩
    · split
      · exact ⟨_, rfl, aged.own, aged.room, aged.reported⟩
      · split
        · split
          · exact ⟨_, rfl, aged.own, aged.room, aged.reported⟩
          · exact ⟨_, rfl, aged⟩
        · split
          · exact ⟨_, rfl, aged.renewed s.seqNumber⟩
          · rw [if_neg fun foreign => foreign.1 aged.own]
            exact ⟨_, rfl, aged⟩

theorem Kept.run (kept : Kept seq l) (old : NoneNewer seq events)
    (ran : run areaId l events = some l') : Kept seq l' := by
  induction events generalizing l with
  | nil =>
    cases ran
    exact kept
  | cons e events ih =>
    have later : NoneNewer seq events := fun h member => old h (List.mem_cons_of_mem e member)
    rw [Incarnation.run] at ran
    cases e with
    | second s =>
      obtain ⟨m, aged, keptM⟩ := kept.ageLsa areaId s
      rw [after, aged, Option.bind_some] at ran
      exact ih keptM later ran
    | copy h => exact ih (kept.noted (old h List.mem_cons_self)) later ran

/-- The counter with which the advertisement is renewed when the countdown ends. -/
theorem ageLsa_runsOut (own : l.selfOriginated = true) (runsOut : RunsOut l) (areaId : BitVec 32)
    (s : Ospf) : ∃ m : OspfLsa, m.bytes.length = l.bytes.length ∧
      ageLsa areaId s l = renewAndFlood (bumpSeq s l.oldSelfOriginatedSeq) m areaId := by
  refine ⟨{ l.setAge (l.header.age + 1) with oldCnt := 0 }, length_setAge l _, ?_⟩
  rw [ageLsa]
  dsimp only
  have counting : (l.setAge (l.header.age + 1)).selfOriginated = true ∧
      0 < (l.setAge (l.header.age + 1)).oldCnt :=
    ⟨own, by rw [OspfLsa.setAge, runsOut.last]; decide⟩
  have ended : (l.setAge (l.header.age + 1)).oldCnt - 1 = 0 := by
    rw [OspfLsa.setAge, runsOut.last]
  rw [if_neg runsOut.young, if_pos counting, ended]
  rfl

theorem lt_bumpSeq (s : Ospf) {kept : BitVec 32} (old : kept ≤ seq) :
    seq < (bumpSeq s kept).seqNumber ↔ Clear s.seqNumber kept seq := by
  have increment : lsaIncrementSeq kept = if kept = 0x7fffffff then 0x80000001 else kept + 1 := rfl
  rw [bumpSeq, Clear]
  split_ifs with below
  · change seq < lsaIncrementSeq kept ↔ _
    rw [increment, maxSequenceNumber]
    split_ifs <;> bv_omega
  · bv_omega

end Run

section Renewal

variable {areaId seq : BitVec 32} {s : Ospf} {l l' : OspfLsa} {h : LsaHeader}
  {events : List Event}

theorem Kept.overridden_iff (kept : Kept seq l) (runsOut : RunsOut l) :
    Overridden areaId s l seq ↔ Clear s.seqNumber l.oldSelfOriginatedSeq seq := by
  obtain ⟨m, length, eq⟩ := ageLsa_runsOut kept.own runsOut areaId s
  have long : sizeofHeader ≤ m.bytes.length := by
    rw [length]
    exact kept.room
  have number := seq_lsaRenewed (bumpSeq s l.oldSelfOriginatedSeq).seqNumber long
  rw [← lt_bumpSeq s kept.reported, ← number, Overridden, eq]
  constructor
  · rintro ⟨renewed, same, -, above⟩
    cases same
    exact above
  · intro above
    exact ⟨_, rfl, (lsadbFlood_spec _ _ _).2, above⟩

theorem kept_noted (own : l.selfOriginated = true) (room : sizeofHeader ≤ l.bytes.length)
    (young : h.age ≠ maxAge) (newer : l.header.seq < h.seq) : Kept h.seq (noted h l) := by
  rw [noted, if_neg young, if_pos newer]
  exact ⟨own, room, BitVec.le_refl _⟩

/-- An advertisement of this router of which a copy with a higher number was received, renewed
when its countdown ends: the number of the flooded instance is above the reported one exactly
when the counter is clear of it. -/
theorem renewal_overrides_iff (own : l.selfOriginated = true)
    (room : sizeofHeader ≤ l.bytes.length) (young : h.age ≠ maxAge)
    (newer : l.header.seq < h.seq) (ran : run areaId (noted h l) events = some l')
    (old : NoneNewer h.seq events) (runsOut : RunsOut l') :
    Overridden areaId s l' h.seq ↔ Clear s.seqNumber l'.oldSelfOriginatedSeq h.seq :=
  ((kept_noted own room young newer).run old ran).overridden_iff runsOut

/-- A summary of this router with its first number. -/
def summary : OspfLsa where
  bytes := summaryLsa 0 0x80000001 0x0f3c
  selfOriginated := true
  flood := 0
  oldCnt := 0
  oldSelfOriginatedSeq := 0
  netIp := 0

/-- A router whose counter has this value. -/
def counting (n : BitVec 32) : Ospf := { silent with seqNumber := n }

def reported : LsaHeader := { summary.header with seq := 0x80000005 }

/-- The summary two seconds after the copy. -/
def waiting : OspfLsa :=
  { summary.setAge 2 with oldCnt := 1, oldSelfOriginatedSeq := 0x80000005 }

theorem run_waiting (n : BitVec 32) :
    run 0 (noted reported summary) [.second (counting n), .second (counting n)] = some waiting := by
  have first : ageLsa 0 (counting n) (noted reported summary) =
      (counting n,
        some { summary.setAge 1 with oldCnt := 2, oldSelfOriginatedSeq := 0x80000005 }) :=
    rfl
  have second : ageLsa 0 (counting n)
      { summary.setAge 1 with oldCnt := 2, oldSelfOriginatedSeq := 0x80000005 } =
      (counting n, some waiting) := rfl
  rw [run, after, first, Option.bind_some, run, after, second]
  rfl

theorem noneNewer_seconds (seq n : BitVec 32) :
    NoneNewer seq [.second (counting n), .second (counting n)] := by
  intro h member
  simp at member

theorem renewal_overrides_low : Overridden 0 (counting 0x80000002) waiting 0x80000005 :=
  (renewal_overrides_iff (h := reported) rfl (by decide) (by decide) (by decide)
    (run_waiting 0x80000002) (noneNewer_seconds _ _) ⟨rfl, by decide⟩).mpr
    (.inr ⟨by decide, .inl ⟨rfl, by decide⟩⟩)

/-- The counter is equal to the number that was reported. -/
theorem equal_number_kept : ¬ ∀ (areaId : BitVec 32) (s : Ospf) (l l' : OspfLsa) (h : LsaHeader)
    (events : List Event), l.selfOriginated = true → sizeofHeader ≤ l.bytes.length →
    h.age ≠ maxAge → l.header.seq < h.seq → run areaId (noted h l) events = some l' →
    NoneNewer h.seq events → RunsOut l' → Overridden areaId s l' h.seq := by
  intro always
  have above := always 0 (counting 0x80000005) summary waiting reported _ rfl (by decide)
    (by decide) (by decide) (run_waiting 0x80000005) (noneNewer_seconds _ _) ⟨rfl, by decide⟩
  have kept : Kept reported.seq waiting := ⟨rfl, by decide, by decide⟩
  have clear := (kept.overridden_iff ⟨rfl, by decide⟩).mp above
  rw [Clear] at clear
  exact absurd clear (by decide)

end Renewal

end Incarnation
