import Rcp100.Exchange

/-!
# The end of a database exchange over a lossy network

Here a packet is under way until it is delivered or lost, and it may be repeated before.
The master is done with the answer to its last packet. The slave is done when it sends that
answer, and drops its copy of it.
-/

namespace ExchangeLoss

open LsaFormat LsUpdate Retransmission Exchange

/-- Two neighbors: a hello packet is only accepted when both routers agree about the stub
area, and the headers come from the lists of the database, one for each type. -/
structure Adjacent extends Pair where
  stub : larger.stub = smaller.stub
  largerTypes : ∀ h ∈ larger.snapshot.headers, ¬ h.type > 5
  smallerTypes : ∀ h ∈ smaller.snapshot.headers, ¬ h.type > 5

inductive Event where
  | deliverToLarger (i : Nat) (now : Now)
  | deliverToSmaller (i : Nat) (now : Now)
  | loseToLarger (i : Nat)
  | loseToSmaller (i : Nat)
  | repeatToLarger (i : Nat)
  | repeatToSmaller (i : Nat)
  | resendLarger
  | resendSmaller

section Steps

variable (pair : Pair)

/-- One step; an event about a packet that is not there changes nothing. -/
def step (s : System) : Event → System
  | .deliverToLarger i now =>
    match s.toLarger[i]? with
    | none => s
    | some pkt =>
      stepLarger { s with toLarger := s.toLarger.eraseIdx i } (rxLarger pair s now pkt)
  | .deliverToSmaller i now =>
    match s.toSmaller[i]? with
    | none => s
    | some pkt =>
      stepSmaller { s with toSmaller := s.toSmaller.eraseIdx i } (rxSmaller pair s now pkt)
  | .loseToLarger i => { s with toLarger := s.toLarger.eraseIdx i }
  | .loseToSmaller i => { s with toSmaller := s.toSmaller.eraseIdx i }
  | .repeatToLarger i => { s with toLarger := s.toLarger ++ s.toLarger[i]?.toList }
  | .repeatToSmaller i => { s with toSmaller := s.toSmaller ++ s.toSmaller[i]?.toList }
  | .resendLarger => { s with toSmaller := s.toSmaller ++ (retransmitted s.larger).toList }
  | .resendSmaller => { s with toLarger := s.toLarger ++ (retransmitted s.smaller).toList }

def run (s : System) (events : List Event) : System := events.foldl (step pair) s

/-- The larger router, which is the master, executes `nfsmExchangeDone` in the step. -/
def masterDone (s : System) : Event → Bool
  | .deliverToLarger i now =>
    (s.toLarger[i]?).any (fun pkt => (rxLarger pair s now pkt).exchangeDone)
  | _ => false

end Steps

/-- The answer that the master waits for. -/
def Awaited (s : System) (p : DdPacket) : Prop :=
  p.fields.init = false ∧ p.seq = s.larger.ddSeqNumber

instance (s : System) (p : DdPacket) : Decidable (Awaited s p) :=
  inferInstanceAs (Decidable (_ ∧ _))

def Ended (nb : Nb) : Prop := nb.state = .loading ∨ nb.state = .full

/-- The last copy of the answer the master waits for is not lost after the slave is done. -/
def KeepsAnswer (s : System) : Event → Prop
  | .loseToLarger i => s.larger.state = .exchange → Ended s.smaller →
      ∀ p, s.toLarger[i]? = some p → Awaited s p → ∃ q ∈ s.toLarger.eraseIdx i, Awaited s q
  | _ => True

/-- Every step of the run keeps the answer. -/
def Kept (pair : Pair) (s : System) : List Event → Prop
  | [] => True
  | e :: rest => KeepsAnswer s e ∧ Kept pair (step pair s e) rest

/-- A step without a loss: a delivery, or a timer that sends the last packet again. -/
inductive Move where
  | deliverToLarger (i : Nat)
  | deliverToSmaller (i : Nat)
  | resendLarger
  | resendSmaller

def Move.event (now : Now) : Move → Event
  | .deliverToLarger i => .deliverToLarger i now
  | .deliverToSmaller i => .deliverToSmaller i now
  | .resendLarger => .resendLarger
  | .resendSmaller => .resendSmaller

/-- A continuation without a loss; the clock and the databases are given for each step. -/
def continued (pair : Pair) : List Move → (Nat → Now) → System → System
  | [], _, s => s
  | m :: rest, clock, s =>
    continued pair rest (fun n => clock (n+1)) (step pair s (m.event (clock 0)))

/-- Without a loss the master can come to its end, whatever the databases are. -/
def CanFinish (pair : Pair) (s : System) : Prop :=
  ∀ clock : Nat → Now, ∃ moves last,
    masterDone pair (continued pair moves clock s) (Move.event (clock moves.length) last) = true

section Local

/-- The options that both routers send. -/
def optionsOf (stub : Bool) : BitVec 8 := if stub then 0 else 0x42

theorem options_stable (stub : Bool) :
    (if stub then optionsOf stub &&& 2 else optionsOf stub ||| 2) = optionsOf stub := by
  cases stub <;> rfl

/-- What one router keeps while the packets it hears have the same options. -/
structure Sound (side : Side) (nb : Nb) : Prop where
  options : nb.state = .exchange → nb.options = optionsOf side.stub
  last : nb.state = .exchange →
    ∃ p, nb.lastDdPkt = some p ∧ p.seq = nb.ddSeqNumber ∧ p.fields.init = false
  lastOptions : ∀ p, nb.lastDdPkt = some p → p.options = optionsOf side.stub

variable {side : Side} {now : Now} {nb : Nb} {pkt : DdPacket}

theorem begin_sound (st : Start) (side : Side) :
    Sound side (st.begin side).1 ∧ (st.begin side).2.options = optionsOf side.stub := by
  have options : (st.begin side).2.options = optionsOf side.stub := by
    cases stub : side.stub <;>
      simp [Start.begin, startAdj, dbdescBuildPkt, entering, stub, optionsOf]
  have waiting : (st.begin side).1.state = .exStart := rfl
  refine ⟨⟨?_, ?_, ?_⟩, options⟩
  · intro exchange
    cases waiting.symm.trans exchange
  · intro exchange
    cases waiting.symm.trans exchange
  intro p last
  rw [← Option.some.inj last]
  exact options

theorem build_sound (state : nb.state = .exchange) (options : nb.options = optionsOf side.stub)
    {fields : Fields} (init : fields.init = false) :
    Sound side (dbdescBuildPkt side nb fields).1 ∧
      (dbdescBuildPkt side nb fields).2.options = optionsOf side.stub := by
  have sent : (dbdescBuildPkt side nb fields).2.options = optionsOf side.stub := by
    rw [← options_stable, ← options]
    rfl
  refine ⟨⟨fun _ => options, fun _ => ⟨_, rfl, rfl, ?_⟩, ?_⟩, sent⟩
  · simp only [state, reduceCtorEq, if_false]
    exact init
  · intro p last
    rw [← Option.some.inj last]
    exact sent

theorem ended_sound (n : Nb) : Sound side (nfsmExchangeDone n) := by
  have ended := nfsmExchangeDone_state n
  refine ⟨?_, ?_, fun _ last => absurd last (Option.some_ne_none _).symm⟩
  · intro exchange
    rcases ended with h | h <;> cases exchange.symm.trans h
  · intro exchange
    rcases ended with h | h <;> cases exchange.symm.trans h

theorem accept_sound (state : nb.state = .exchange)
    (options : nb.options = optionsOf side.stub)
    (ok : (accept side now nb pkt).mismatch = false) :
    Sound side (accept side now nb pkt).nb ∧
      ∀ p, (accept side now nb pkt).sent = some p → p.options = optionsOf side.stub := by
  obtain ⟨lsreq, xs, -, -, result⟩ := accept_eq ok
  rw [result]
  by_cases master : nb.master = true
  · rw [if_pos master, masterReply]
    split
    · exact ⟨ended_sound _, fun _ out => absurd out (Option.some_ne_none _).symm⟩
    · obtain ⟨sound, sent⟩ := @build_sound side
        { nb with
          lsreq := lsreq
          examined := nb.examined ++ xs
          ddSeqNumber := nb.ddSeqNumber + 1 } state options ⟨false, nb.ddsum ≠ [], true⟩ rfl
      refine ⟨⟨sound.options, sound.last, sound.lastOptions⟩, ?_⟩
      intro p out
      rw [← Option.some.inj out]
      exact sent
  · rw [if_neg master]
    obtain ⟨sound, sent⟩ := @build_sound side
      { nb with lsreq := lsreq, examined := nb.examined ++ xs, ddSeqNumber := pkt.seq } state
      options ⟨false, nb.ddsum ≠ [] || pkt.fields.more, false⟩ rfl
    have out : ∀ p, (slaveReply side { nb with lsreq := lsreq, examined := nb.examined ++ xs }
        pkt).sent = some p → p.options = optionsOf side.stub := by
      intro p out
      simp only [slaveReply] at out
      split at out <;> exact (Option.some.inj out) ▸ sent
    refine ⟨?_, out⟩
    simp only [slaveReply]
    split
    · exact ended_sound _
    · exact sound

theorem dbdescRx_sound (sound : Sound side nb) (options : pkt.options = optionsOf side.stub)
    (ok : (dbdescRx side now nb pkt).mismatch = false) :
    Sound side (dbdescRx side now nb pkt).nb ∧
      ∀ p, (dbdescRx side now nb pkt).sent = some p → p.options = optionsOf side.stub := by
  cases state : nb.state with
  | exStart =>
    simp only [dbdescRx, state, rxExStart] at ok ⊢
    split
    · rename_i slave
      rw [if_pos slave] at ok
      exact accept_sound rfl options ok
    · rename_i other
      rw [if_neg other] at ok
      split
      · rename_i master
        rw [if_pos master] at ok
        exact accept_sound rfl options ok
      · exact ⟨sound, fun _ out => absurd out (Option.some_ne_none _).symm⟩
  | exchange =>
    simp only [dbdescRx, state] at ok ⊢
    rcases rxExchange_accepts ok with old | ⟨-, -, -, result⟩
    · rw [old]
      exact ⟨sound, fun _ out => absurd out (Option.some_ne_none _).symm⟩
    · rw [result] at ok ⊢
      exact accept_sound state (sound.options state) ok
  | loading =>
    simp only [dbdescRx, state] at ok ⊢
    rw [rxLoading_ignored ok]
    exact ⟨sound, fun _ out => absurd out (Option.some_ne_none _).symm⟩
  | full =>
    simp only [dbdescRx, state] at ok ⊢
    rw [rxLoading_ignored ok]
    exact ⟨sound, fun _ out => absurd out (Option.some_ne_none _).symm⟩
  | _ =>
    simp only [dbdescRx, state]
    exact ⟨sound, fun _ out => absurd out (Option.some_ne_none _).symm⟩

end Local

section Ends

variable {side : Side} {now : Now} {nb : Nb} {pkt : DdPacket}

theorem not_ended (state : nb.state = .exchange) : ¬ Ended nb := by
  rintro (loading | full)
  · cases state.symm.trans loading
  · cases state.symm.trans full

theorem slave_ends (state : nb.state = .exchange) (slave : nb.master = false)
    (ok : (accept side now nb pkt).mismatch = false) (ended : Ended (accept side now nb pkt).nb) :
    ∃ p, (accept side now nb pkt).sent = some p ∧ p.fields = ⟨false, false, false⟩ := by
  obtain ⟨lsreq, xs, -, -, result⟩ := accept_eq ok
  rw [result, if_neg (by simp [slave])] at ended ⊢
  simp only [slaveReply] at ended ⊢
  split at ended
  · rename_i last
    rw [if_pos last]
    simp only [Bool.and_eq_true, Bool.not_eq_true', decide_eq_true_eq] at last
    refine ⟨_, rfl, ?_⟩
    simp [dbdescBuildPkt, state, last]
  · exact absurd ended (not_ended state)

theorem master_next (master : nb.master = true) (ok : (accept side now nb pkt).mismatch = false)
    (goes : (accept side now nb pkt).nb.state = .exchange) :
    (accept side now nb pkt).nb.ddSeqNumber = nb.ddSeqNumber + 1 := by
  obtain ⟨lsreq, xs, -, -, result⟩ := accept_eq ok
  rw [result, if_pos master, masterReply] at goes ⊢
  split at goes
  · exact absurd goes (by rcases nfsmExchangeDone_state _ with h | h <;> rw [h] <;> simp)
  · rename_i more
    rw [if_neg more]
    rfl

theorem master_ends (master : nb.master = true) (ok : (accept side now nb pkt).mismatch = false)
    (silent : (accept side now nb pkt).sent = none) :
    (accept side now nb pkt).exchangeDone = true := by
  obtain ⟨lsreq, xs, -, -, result⟩ := accept_eq ok
  rw [result, if_pos master, masterReply] at silent ⊢
  split at silent
  · rename_i last
    rw [if_pos last]
  · cases silent

theorem rxExchange_next (new : duplicate nb pkt = false)
    (ok : (rxExchange side now nb pkt).mismatch = false) :
    rxExchange side now nb pkt =
      accept side now { nb with ddsum := lsahListPurge (acknowledge nb.ddsum) } pkt := by
  rw [rxExchange, if_neg (by simp [new])] at ok ⊢
  split at ok
  · cases ok
  · rename_i accepted
    rw [if_neg accepted]

/-- The smaller router is done with a packet only when it answers it without the M-bit. -/
theorem dbdescRx_ends (order : ¬ side.nbRouterId < side.routerId)
    (slave : nb.state = .exchange → nb.master = false) (before : ¬ Ended nb)
    (ok : (dbdescRx side now nb pkt).mismatch = false)
    (ended : Ended (dbdescRx side now nb pkt).nb) :
    ∃ p, (dbdescRx side now nb pkt).sent = some p ∧ p.fields = ⟨false, false, false⟩ := by
  cases state : nb.state with
  | exStart =>
    simp only [dbdescRx, state, rxExStart] at ok ended ⊢
    split
    · rename_i first
      rw [if_pos first] at ok ended
      exact slave_ends rfl rfl ok ended
    · rename_i other
      rw [if_neg other, if_neg (fun h => order h.2.2.2)] at ended
      exact absurd ended before
  | exchange =>
    simp only [dbdescRx, state] at ok ended ⊢
    rcases rxExchange_accepts ok with old | ⟨-, -, -, result⟩
    · rw [old] at ended
      exact absurd ended before
    · rw [result] at ok ended ⊢
      exact slave_ends state (slave state) ok ended
  | loading => exact absurd (.inl state) before
  | full => exact absurd (.inr state) before
  | _ =>
    simp only [dbdescRx, state] at ended
    exact absurd ended before

end Ends

section Invariant

variable {pair : Adjacent} {base : BitVec 32} {s g : System} {k t : Nat}

theorem reached_not_final {j : Nat} (reached : Reached pair.toPair k) (before : j < k)
    (done : largerMore pair.toPair j = false) :
    upTo j < pair.smaller.snapshot.headers.length := by
  obtain ⟨positive, described, -⟩ := largerMore_false done
  rcases reached with first | larger | smaller
  · omega
  · have mono := @upTo_mono (j-1) (k-2) (by omega)
    omega
  · have mono := @upTo_mono j (k-1) (by omega)
    omega

variable {p pkt : DdPacket} {now : Now} {i : Nat}

/-- The answer without the M-bit is the one that the master waits for. -/
theorem final_round (here : At pair.toPair base g k t) (state : g.larger.state = .exchange)
    (sent : p ∈ g.toLarger) (fields : p.fields = ⟨false, false, false⟩) :
    t = k + 1 ∧ p.seq = g.larger.ddSeqNumber := by
  rcases here.toLarger p sent with greeting | ⟨j, before, said⟩
  · rw [fields] at greeting
    cases greeting
  · have more := said.fields.symm.trans fields
    simp only [Fields.mk.injEq, Bool.or_eq_false_iff, decide_eq_false_iff_not] at more
    have late : k ≤ j := by
      by_contra early
      exact more.2.1.1 (reached_not_final here.reached (Nat.lt_of_not_le early) more.2.1.2)
    have upper := here.upper
    obtain rfl : j = k := by omega
    refine ⟨by omega, ?_⟩
    rw [said.seq]
    cases here.larger with
    | starting start => cases start.symm.trans state
    | running _ _ seq => exact seq.symm
    | ended finished => exact absurd finished (not_ended state)

/-- The state of a lossy network, next to one in which no packet ever leaves. -/
structure Inv (pair : Adjacent) (base : BitVec 32) (s g : System) (k t : Nat) : Prop where
  here : At pair.toPair base g k t
  larger : s.larger = g.larger
  smaller : s.smaller = g.smaller
  toLarger : ∀ p ∈ s.toLarger, p ∈ g.toLarger
  toSmaller : ∀ p ∈ s.toSmaller, p ∈ g.toSmaller
  optionsToLarger : ∀ p ∈ g.toLarger, p.options = optionsOf pair.larger.stub
  optionsToSmaller : ∀ p ∈ g.toSmaller, p.options = optionsOf pair.larger.stub
  soundLarger : Sound pair.larger s.larger
  soundSmaller : Sound pair.smaller s.smaller
  ended : Ended s.smaller → ∃ p ∈ g.toLarger, p.fields = ⟨false, false, false⟩
  answer : s.larger.state = .exchange → Ended s.smaller → ∃ p ∈ s.toLarger, Awaited s p

theorem begin_inv (pair : Adjacent) (larger smaller : Start) :
    Inv pair (larger.begin pair.larger).1.ddSeqNumber (begin pair.toPair larger smaller)
      (begin pair.toPair larger smaller) 0 0 := by
  have soundLarger := begin_sound larger pair.larger
  have soundSmaller := begin_sound smaller pair.smaller
  refine ⟨begin_at pair.toPair larger smaller, rfl, rfl, fun _ h => h, fun _ h => h, ?_, ?_,
    soundLarger.1, soundSmaller.1, ?_, ?_⟩
  · intro p member
    rw [List.mem_singleton.mp member, pair.stub]
    exact soundSmaller.2
  · intro p member
    rw [List.mem_singleton.mp member]
    exact soundLarger.2
  · rintro (loading | full)
    · cases loading
    · cases full
  · intro exchange
    cases exchange

/-- A packet that leaves the master in its round was ignored, and is not the awaited one. -/
theorem larger_stays (here : At pair.toPair base g k t) {k' : Nat}
    (ok : (rxLarger pair.toPair g now pkt).mismatch = false)
    (after : At pair.toPair base (stepLarger g (rxLarger pair.toPair g now pkt)) k' t)
    (state : (rxLarger pair.toPair g now pkt).nb.state = .exchange) (stays : k' ≤ k) :
    (rxLarger pair.toPair g now pkt).nb = g.larger ∧ ¬ Awaited g pkt := by
  have seqAfter : ∃ i, k' = i + 1 ∧
      (rxLarger pair.toPair g now pkt).nb.ddSeqNumber = base + BitVec.ofNat 32 k' := by
    cases after.larger with
    | starting start => cases start.symm.trans state
    | @running _ i _ _ seq => exact ⟨i, rfl, seq⟩
    | ended finished => exact absurd finished (not_ended state)
  obtain ⟨i, rfl, seqAfter⟩ := seqAfter
  have lt := here.reached.lt
  cases here.larger with
  | starting => omega
  | @running _ j start master seq =>
    have rx : rxLarger pair.toPair g now pkt = rxExchange pair.larger now g.larger pkt := by
      simp only [rxLarger, dbdescRx, start]
    rw [rx] at ok state seqAfter ⊢
    cases old : duplicate g.larger pkt with
    | true =>
      rw [rxExchange, if_pos old]
      refine ⟨rfl, ?_⟩
      rintro ⟨-, same⟩
      simp [duplicate, master, same] at old
    | false =>
      have accepted := rxExchange_next old ok
      rw [accepted] at ok state seqAfter
      have next := @master_next _ _ { g.larger with
        ddsum := lsahListPurge (acknowledge g.larger.ddsum) } _ master ok state
      rw [seqAfter] at next
      have number : base + BitVec.ofNat 32 (i+1) = base + BitVec.ofNat 32 (j+1+1) := by
        rw [← next_seq (j+1), ← seq]
        exact next
      have same := seq_inj number (by omega) (by omega)
      omega
  | ended finished =>
    have loading : rxLarger pair.toPair g now pkt = rxLoading pair.larger now g.larger pkt := by
      rcases finished with finished | finished <;> simp only [rxLarger, dbdescRx, finished]
    rw [loading] at ok state
    rw [rxLoading_ignored ok] at state
    exact absurd finished (not_ended state)

theorem mem_eraseIdx_or {l : List DdPacket}
    (found : l[i]? = some pkt) (member : p ∈ l) : p = pkt ∨ p ∈ l.eraseIdx i := by
  obtain ⟨j, at'⟩ := List.mem_iff_getElem?.mp member
  by_cases same : j = i
  · subst same
    exact .inl (Option.some.inj (at'.symm.trans found))
  · exact .inr (List.mem_eraseIdx_iff_getElem?.mpr ⟨j, same, at'⟩)

theorem Inv.larger_rx (inv : Inv pair base s g k t)
    (found : s.toLarger[i]? = some pkt)
    (ok : (rxLarger pair.toPair s now pkt).mismatch = false) :
    ∃ g' k', Inv pair base (stepLarger { s with toLarger := s.toLarger.eraseIdx i }
      (rxLarger pair.toPair s now pkt)) g' k' t := by
  have sent : pkt ∈ s.toLarger := List.mem_of_getElem? found
  have same : rxLarger pair.toPair s now pkt = rxLarger pair.toPair g now pkt := by
    rw [rxLarger, rxLarger, inv.larger]
  obtain ⟨k', after⟩ := inv.here.larger_rx (inv.toLarger pkt sent) (same ▸ ok)
  obtain ⟨sound, out⟩ := dbdescRx_sound inv.soundLarger
    (inv.optionsToLarger pkt (inv.toLarger pkt sent)) ok
  rw [← same] at after
  refine ⟨_, k', after, rfl, inv.smaller, ?_, ?_, inv.optionsToLarger, ?_, sound,
    inv.soundSmaller, inv.ended, ?_⟩
  · intro p member
    exact inv.toLarger p (List.mem_of_mem_eraseIdx member)
  · intro p member
    rcases List.mem_append.mp member with old | new
    · exact List.mem_append_left _ (inv.toSmaller p old)
    · exact List.mem_append_right _ new
  · intro p member
    rcases List.mem_append.mp member with old | new
    · exact inv.optionsToSmaller p old
    · exact out p (Option.mem_toList.mp new)
  · intro exchange finished
    obtain ⟨final, inG, fields⟩ := inv.ended finished
    obtain ⟨late, -⟩ := final_round after exchange inG fields
    have upper := inv.here.upper
    -- the answer of the last round is there only while the master stays in that round
    have stays : k' ≤ k := by omega
    obtain ⟨unchanged, other⟩ := larger_stays inv.here (same ▸ ok) (same ▸ after)
      (same ▸ exchange) stays
    rw [← same] at unchanged
    have before : s.larger.state = .exchange := by
      rw [inv.larger, ← unchanged]
      exact exchange
    obtain ⟨p, inFlight, awaited⟩ := inv.answer before finished
    refine ⟨p, ?_, ?_⟩
    · rcases mem_eraseIdx_or found inFlight with rfl | stillThere
      · rw [Awaited, inv.larger] at awaited
        exact absurd awaited other
      · exact stillThere
    · rw [Awaited, stepLarger]
      dsimp only
      rw [unchanged, ← inv.larger]
      exact awaited

theorem Inv.smaller_rx (inv : Inv pair base s g k t)
    (found : s.toSmaller[i]? = some pkt)
    (ok : (rxSmaller pair.toPair s now pkt).mismatch = false) :
    ∃ g' t', Inv pair base (stepSmaller { s with toSmaller := s.toSmaller.eraseIdx i }
      (rxSmaller pair.toPair s now pkt)) g' k t' := by
  have sent : pkt ∈ s.toSmaller := List.mem_of_getElem? found
  have same : rxSmaller pair.toPair s now pkt = rxSmaller pair.toPair g now pkt := by
    rw [rxSmaller, rxSmaller, inv.smaller]
  obtain ⟨t', after⟩ := inv.here.smaller_rx (inv.toSmaller pkt sent) (same ▸ ok)
  have options : pkt.options = optionsOf pair.smaller.stub := by
    rw [← pair.stub]
    exact inv.optionsToSmaller pkt (inv.toSmaller pkt sent)
  obtain ⟨sound, out⟩ := dbdescRx_sound inv.soundSmaller options ok
  rw [← same] at after
  have order : ¬ pair.smaller.nbRouterId < pair.smaller.routerId := by
    rw [pair.smallerNb]
    exact BitVec.not_lt.mpr (BitVec.le_of_lt pair.order)
  have slave : s.smaller.state = .exchange → s.smaller.master = false := by
    intro exchange
    rw [inv.smaller] at exchange ⊢
    cases inv.here.smaller with
    | starting start => cases start.symm.trans exchange
    | running _ slave => exact slave
    | ended finished => exact absurd finished (not_ended exchange)
  have silent (finished : Ended s.smaller) :
      rxSmaller pair.toPair s now pkt = ignored s.smaller := by
    have loading : rxSmaller pair.toPair s now pkt = rxLoading pair.smaller now s.smaller pkt := by
      rcases finished with finished | finished <;> simp only [rxSmaller, dbdescRx, finished]
    rw [loading] at ok ⊢
    exact rxLoading_ignored ok
  have last (finished : Ended (rxSmaller pair.toPair s now pkt).nb) (before : ¬ Ended s.smaller) :
      ∃ p, (rxSmaller pair.toPair s now pkt).sent = some p ∧ p.fields = ⟨false, false, false⟩ :=
    dbdescRx_ends order slave before ok finished
  refine ⟨_, t', after, inv.larger, rfl, ?_, ?_, ?_, inv.optionsToSmaller, inv.soundLarger,
    sound, ?_, ?_⟩
  · intro p member
    rcases List.mem_append.mp member with old | new
    · exact List.mem_append_left _ (inv.toLarger p old)
    · exact List.mem_append_right _ new
  · intro p member
    exact inv.toSmaller p (List.mem_of_mem_eraseIdx member)
  · intro p member
    rcases List.mem_append.mp member with old | new
    · exact inv.optionsToLarger p old
    · rw [pair.stub]
      exact out p (Option.mem_toList.mp new)
  · intro finished
    by_cases before : Ended s.smaller
    · obtain ⟨p, inG, fields⟩ := inv.ended before
      exact ⟨p, List.mem_append_left _ inG, fields⟩
    · obtain ⟨p, reply, fields⟩ := last finished before
      exact ⟨p, List.mem_append_right _ (Option.mem_toList.mpr reply), fields⟩
  · intro exchange finished
    by_cases before : Ended s.smaller
    · obtain ⟨p, inFlight, awaited⟩ := inv.answer exchange before
      exact ⟨p, List.mem_append_left _ inFlight, awaited⟩
    · obtain ⟨p, reply, fields⟩ := last finished before
      refine ⟨p, List.mem_append_right _ (Option.mem_toList.mpr reply), ?_, ?_⟩
      · rw [fields]
      · have inG : p ∈ (stepSmaller g (rxSmaller pair.toPair s now pkt)).toLarger :=
          List.mem_append_right _ (Option.mem_toList.mpr reply)
        have exchangeG : g.larger.state = .exchange := inv.larger ▸ exchange
        have awaited := (final_round after exchangeG inG fields).2
        exact awaited.trans (congrArg Nb.ddSeqNumber inv.larger.symm)

theorem Inv.transit (inv : Inv pair base s g k t) {toLarger toSmaller : List DdPacket}
    (subLarger : ∀ p ∈ toLarger, p ∈ s.toLarger) (subSmaller : ∀ p ∈ toSmaller, p ∈ s.toSmaller)
    (answer : s.larger.state = .exchange → Ended s.smaller → ∃ p ∈ toLarger, Awaited s p) :
    Inv pair base { s with toLarger := toLarger, toSmaller := toSmaller } g k t :=
  ⟨inv.here, inv.larger, inv.smaller, fun p member => inv.toLarger p (subLarger p member),
    fun p member => inv.toSmaller p (subSmaller p member), inv.optionsToLarger,
    inv.optionsToSmaller, inv.soundLarger, inv.soundSmaller, inv.ended, answer⟩

theorem mem_repeated {l : List DdPacket}
    (member : p ∈ l ++ l[i]?.toList) : p ∈ l := by
  rcases List.mem_append.mp member with old | again
  · exact old
  · exact List.mem_of_getElem? (Option.mem_toList.mp again)

theorem Inv.resendsLarger (inv : Inv pair base s g k t) :
    ∃ g', Inv pair base (step pair.toPair s .resendLarger) g' k t := by
  refine ⟨_, inv.here.retransmitsLarger, inv.larger, inv.smaller, inv.toLarger, ?_,
    inv.optionsToLarger, ?_, inv.soundLarger, inv.soundSmaller, inv.ended, inv.answer⟩
  · intro p member
    rcases List.mem_append.mp member with old | again
    · exact List.mem_append_left _ (inv.toSmaller p old)
    · rw [inv.larger] at again
      exact List.mem_append_right _ again
  · intro p member
    rcases List.mem_append.mp member with old | again
    · exact inv.optionsToSmaller p old
    · rw [← inv.larger] at again
      exact inv.soundLarger.lastOptions p (retransmitted_last again)

theorem Inv.resendsSmaller (inv : Inv pair base s g k t) :
    ∃ g', Inv pair base (step pair.toPair s .resendSmaller) g' k t := by
  refine ⟨_, inv.here.retransmitsSmaller, inv.larger, inv.smaller, ?_, inv.toSmaller, ?_,
    inv.optionsToSmaller, inv.soundLarger, inv.soundSmaller, ?_, ?_⟩
  · intro p member
    rcases List.mem_append.mp member with old | again
    · exact List.mem_append_left _ (inv.toLarger p old)
    · rw [inv.smaller] at again
      exact List.mem_append_right _ again
  · intro p member
    rcases List.mem_append.mp member with old | again
    · exact inv.optionsToLarger p old
    · rw [← inv.smaller] at again
      rw [pair.stub]
      exact inv.soundSmaller.lastOptions p (retransmitted_last again)
  · intro finished
    obtain ⟨p, inG, fields⟩ := inv.ended finished
    exact ⟨p, List.mem_append_left _ inG, fields⟩
  · intro exchange finished
    obtain ⟨p, inFlight, awaited⟩ := inv.answer exchange finished
    exact ⟨p, List.mem_append_left _ inFlight, awaited⟩

theorem Inv.step (inv : Inv pair base s g k t) {e : Event} (keeps : KeepsAnswer s e)
    (ok : (step pair.toPair s e).mismatched = false) :
    ∃ g' k' t', Inv pair base (ExchangeLoss.step pair.toPair s e) g' k' t' := by
  cases e with
  | deliverToLarger i now =>
    simp only [ExchangeLoss.step] at ok ⊢
    split at ok
    · exact ⟨g, k, t, inv⟩
    · rename_i pkt found
      obtain ⟨g', k', after⟩ := inv.larger_rx found (Bool.or_eq_false_iff.mp ok).2
      exact ⟨g', k', t, after⟩
  | deliverToSmaller i now =>
    simp only [ExchangeLoss.step] at ok ⊢
    split at ok
    · exact ⟨g, k, t, inv⟩
    · rename_i pkt found
      obtain ⟨g', t', after⟩ := inv.smaller_rx found (Bool.or_eq_false_iff.mp ok).2
      exact ⟨g', k, t', after⟩
  | loseToLarger i =>
    refine ⟨g, k, t, inv.transit (fun p member => List.mem_of_mem_eraseIdx member)
      (fun p member => member) ?_⟩
    intro exchange finished
    obtain ⟨p, inFlight, awaited⟩ := inv.answer exchange finished
    cases found : s.toLarger[i]? with
    | none =>
      rw [List.eraseIdx_of_length_le (List.getElem?_eq_none_iff.mp found)]
      exact ⟨p, inFlight, awaited⟩
    | some pkt =>
      rcases mem_eraseIdx_or found inFlight with rfl | stillThere
      · exact keeps exchange finished p found awaited
      · exact ⟨p, stillThere, awaited⟩
  | loseToSmaller i =>
    exact ⟨g, k, t, inv.transit (fun p member => member)
      (fun p member => List.mem_of_mem_eraseIdx member) inv.answer⟩
  | repeatToLarger i =>
    refine ⟨g, k, t, inv.transit (fun p member => mem_repeated member)
      (fun p member => member) ?_⟩
    intro exchange finished
    obtain ⟨p, inFlight, awaited⟩ := inv.answer exchange finished
    exact ⟨p, List.mem_append_left _ inFlight, awaited⟩
  | repeatToSmaller i =>
    exact ⟨g, k, t, inv.transit (fun p member => member)
      (fun p member => mem_repeated member) inv.answer⟩
  | resendLarger =>
    obtain ⟨g', after⟩ := inv.resendsLarger
    exact ⟨g', k, t, after⟩
  | resendSmaller =>
    obtain ⟨g', after⟩ := inv.resendsSmaller
    exact ⟨g', k, t, after⟩

theorem step_mismatched {e : Event} (ok : (step pair.toPair s e).mismatched = false) :
    s.mismatched = false := by
  cases e with
  | deliverToLarger i now =>
    simp only [ExchangeLoss.step] at ok
    split at ok
    · exact ok
    · exact (Bool.or_eq_false_iff.mp ok).1
  | deliverToSmaller i now =>
    simp only [ExchangeLoss.step] at ok
    split at ok
    · exact ok
    · exact (Bool.or_eq_false_iff.mp ok).1
  | _ => exact ok

theorem run_mismatched (events : List Event)
    (ok : (run pair.toPair s events).mismatched = false) : s.mismatched = false := by
  induction events generalizing s with
  | nil => exact ok
  | cons e events ih => exact step_mismatched (ih ok)

theorem Inv.run (inv : Inv pair base s g k t) (events : List Event)
    (kept : Kept pair.toPair s events) (ok : (run pair.toPair s events).mismatched = false) :
    ∃ g' k' t', Inv pair base (ExchangeLoss.run pair.toPair s events) g' k' t' := by
  induction events generalizing s g k t with
  | nil => exact ⟨g, k, t, inv⟩
  | cons e events ih =>
    obtain ⟨g', k', t', after⟩ := inv.step kept.1 (run_mismatched events ok)
    exact ih after kept.2 ok

end Invariant

section Answers

variable {side : Side} {now : Now} {nb : Nb} {pkt : DdPacket}

theorem examineAll_known (db : LsaKey → Option LsaHeader) (nb : Nb) (lsas : List LsaHeader)
    (types : ∀ h ∈ lsas, ¬ h.type > 5) : (examineAll db nb lsas).2 = true := by
  induction lsas generalizing nb with
  | nil => rfl
  | cons h rest ih =>
    rw [examineAll, if_neg (types h List.mem_cons_self)]
    exact ih _ (fun x member => types x (List.mem_cons_of_mem h member))

theorem accept_quiet (types : ∀ h ∈ pkt.lsas, ¬ h.type > 5) :
    (accept side now nb pkt).mismatch = false := by
  simp only [accept, examineAll_known now.db nb pkt.lsas types, Bool.not_true,
    Bool.false_eq_true, if_false]
  split
  · rw [masterReply]
    split <;> rfl
  · simp only [slaveReply]
    split <;> rfl

theorem master_goes (master : nb.master = true) (state : nb.state = .exchange)
    (ok : (accept side now nb pkt).mismatch = false)
    (sent : (accept side now nb pkt).sent ≠ none) :
    (accept side now nb pkt).nb.state = .exchange := by
  obtain ⟨lsreq, xs, -, -, result⟩ := accept_eq ok
  rw [result, if_pos master, masterReply] at sent ⊢
  split at sent
  · exact absurd rfl sent
  · rename_i more
    rw [if_neg more]
    exact state

theorem slave_answers (slave : nb.master = false) (state : nb.state = .exchange)
    (ok : (accept side now nb pkt).mismatch = false) :
    ∃ q, (accept side now nb pkt).sent = some q ∧ q.seq = pkt.seq ∧ q.fields.init = false := by
  obtain ⟨lsreq, xs, -, -, result⟩ := accept_eq ok
  rw [result, if_neg (by simp [slave])]
  simp only [slaveReply]
  split
  · exact ⟨_, rfl, rfl, by simp [dbdescBuildPkt, state]⟩
  · exact ⟨_, rfl, rfl, by simp [dbdescBuildPkt, state]⟩

theorem rxExchange_in_sequence (new : duplicate nb pkt = false)
    (other : pkt.fields.master = !nb.master) (init : pkt.fields.init = false)
    (options : pkt.options = nb.options) (inSeq : inSequence nb pkt = true)
    (types : ∀ h ∈ pkt.lsas, ¬ h.type > 5) :
    (rxExchange side now nb pkt).mismatch = false ∧
      rxExchange side now nb pkt =
        accept side now { nb with ddsum := lsahListPurge (acknowledge nb.ddsum) } pkt := by
  have accepted : rxExchange side now nb pkt =
      accept side now { nb with ddsum := lsahListPurge (acknowledge nb.ddsum) } pkt := by
    simp [rxExchange, new, other, init, options, inSeq]
  exact ⟨accepted ▸ accept_quiet types, accepted⟩

end Answers

section Progress

variable {pair : Adjacent} {base : BitVec 32} {s g : System} {k t : Nat}

theorem canFinish_move (m : Move)
    (further : ∀ now, CanFinish pair.toPair (step pair.toPair s (m.event now))) :
    CanFinish pair.toPair s := by
  intro clock
  obtain ⟨moves, last, done⟩ := further (clock 0) (fun n => clock (n+1))
  exact ⟨m :: moves, last, done⟩

theorem canFinish_answer (i : Nat)
    (further : ∀ now, masterDone pair.toPair s (.deliverToLarger i now) = true ∨
      CanFinish pair.toPair (step pair.toPair s (.deliverToLarger i now))) :
    CanFinish pair.toPair s := by
  intro clock
  rcases further (clock 0) with done | later
  · exact ⟨[], .deliverToLarger i, done⟩
  · obtain ⟨moves, last, done⟩ := later (fun n => clock (n+1))
    exact ⟨.deliverToLarger i :: moves, last, done⟩

theorem Inv.master (inv : Inv pair base s g k t) (state : s.larger.state = .exchange) :
    s.larger.master = true ∧ k ≠ 0 ∧ s.larger.ddSeqNumber = base + BitVec.ofNat 32 k := by
  rw [inv.larger] at state ⊢
  cases inv.here.larger with
  | starting start => cases start.symm.trans state
  | running _ master seq => exact ⟨master, Nat.succ_ne_zero _, seq⟩
  | ended finished => exact absurd finished (not_ended state)

variable {p : DdPacket}

theorem Inv.awaited_said (inv : Inv pair base s g k t) (state : s.larger.state = .exchange)
    (member : p ∈ s.toLarger) (awaited : Awaited s p) :
    SmallerPacket pair.toPair base k p := by
  have lt := inv.here.reached.lt
  have upper := inv.here.upper
  rcases inv.here.toLarger p (inv.toLarger p member) with greeting | ⟨j, before, said⟩
  · have init := awaited.1
    rw [greeting] at init
    cases init
  · have number : base + BitVec.ofNat 32 j = base + BitVec.ofNat 32 k := by
      rw [← said.seq, awaited.2, (inv.master state).2.2]
    obtain rfl := seq_inj number (by omega) (by omega)
    exact said

theorem Inv.hears_answer (inv : Inv pair base s g k t) (state : s.larger.state = .exchange)
    {i : Nat} (found : s.toLarger[i]? = some p) (awaited : Awaited s p)
    (now : Now) :
    masterDone pair.toPair s (.deliverToLarger i now) = true ∨
      ∃ g', Inv pair base (ExchangeLoss.step pair.toPair s (.deliverToLarger i now)) g' (k+1) t ∧
        (ExchangeLoss.step pair.toPair s (.deliverToLarger i now)).larger.state = .exchange := by
  obtain ⟨master, positive, seq⟩ := inv.master state
  have member := List.mem_of_getElem? found
  have said := inv.awaited_said state member awaited
  have new : duplicate s.larger p = false := by
    simp [duplicate, master, awaited.2]
  have options : p.options = s.larger.options := by
    rw [inv.soundLarger.options state]
    exact inv.optionsToLarger p (inv.toLarger p member)
  have types : ∀ h ∈ p.lsas, ¬ h.type > 5 := by
    intro h inPacket
    rw [said.lsas] at inPacket
    exact pair.smallerTypes h (List.mem_of_mem_drop (List.mem_of_mem_take inPacket))
  obtain ⟨quiet, accepted⟩ := @rxExchange_in_sequence pair.larger now s.larger p new
    (by rw [said.fields, master]; rfl) awaited.1 options
    (by simp [inSequence, master, awaited.2]) types
  have rx : rxLarger pair.toPair s now p = rxExchange pair.larger now s.larger p := by
    simp only [rxLarger, dbdescRx, state]
  have ok : (rxLarger pair.toPair s now p).mismatch = false := by
    rw [rx]
    exact quiet
  have next : ExchangeLoss.step pair.toPair s (.deliverToLarger i now) =
      stepLarger { s with toLarger := s.toLarger.eraseIdx i } (rxLarger pair.toPair s now p) := by
    simp only [ExchangeLoss.step, found]
  rw [accepted] at quiet rx
  cases silent : (rxLarger pair.toPair s now p).sent with
  | none =>
    left
    simp only [masterDone, found, Option.any_some]
    rw [rx] at silent ⊢
    exact master_ends master quiet silent
  | some q =>
    right
    obtain ⟨g', k', after⟩ := inv.larger_rx found ok
    rw [← next] at after
    have sentQ : (accept pair.larger now { s.larger with
        ddsum := lsahListPurge (acknowledge s.larger.ddsum) } p).sent ≠ none := by
      rw [← rx, silent]
      exact Option.some_ne_none q
    have goes :
        (ExchangeLoss.step pair.toPair s (.deliverToLarger i now)).larger.state = .exchange := by
      rw [next, stepLarger, rx]
      exact master_goes master state quiet sentQ
    have number : (ExchangeLoss.step pair.toPair s (.deliverToLarger i now)).larger.ddSeqNumber =
        s.larger.ddSeqNumber + 1 := by
      rw [next, stepLarger, rx]
      exact @master_next _ _ { s.larger with
        ddsum := lsahListPurge (acknowledge s.larger.ddsum) } _ master quiet
        (master_goes master state quiet sentQ)
    have lt := inv.here.reached.lt
    have lt' := after.here.reached.lt
    have same : base + BitVec.ofNat 32 k' = base + BitVec.ofNat 32 (k+1) := by
      rw [← (after.master goes).2.2, number, seq, next_seq]
    have round := seq_inj same (by omega) (by omega)
    rw [round] at after
    exact ⟨g', after, goes⟩

theorem reached_le (reached : Reached pair.toPair k) :
    k ≤ pair.larger.snapshot.headers.length + pair.smaller.snapshot.headers.length + 2 := by
  simp only [Reached, upTo, ospfDdMax] at reached
  omega

theorem Inv.finishes_answered (inv : Inv pair base s g k t) (state : s.larger.state = .exchange)
    (member : p ∈ s.toLarger) (awaited : Awaited s p)
    (further : ∀ s' g', Inv pair base s' g' (k+1) t → s'.larger.state = .exchange →
      CanFinish pair.toPair s') : CanFinish pair.toPair s := by
  obtain ⟨i, found⟩ := List.mem_iff_getElem?.mp member
  refine canFinish_answer i fun now => ?_
  rcases inv.hears_answer state found awaited now with done | ⟨g', after, goes⟩
  · exact .inl done
  · exact .inr (further _ g' after goes)

theorem Inv.last_larger (inv : Inv pair base s g k t) (state : s.larger.state = .exchange) :
    ∃ p, s.larger.lastDdPkt = some p ∧ LargerPacket pair.toPair base k p ∧
      p.options = optionsOf pair.larger.stub := by
  obtain ⟨p, last, seq, -⟩ := inv.soundLarger.last state
  refine ⟨p, last, ?_, inv.soundLarger.lastOptions p last⟩
  have lt := inv.here.reached.lt
  obtain ⟨j, le, said⟩ := inv.here.toSmaller p (inv.here.lastLarger p (inv.larger ▸ last))
  have number : base + BitVec.ofNat 32 j = base + BitVec.ofNat 32 k := by
    rw [← said.seq, seq, (inv.master state).2.2]
  obtain rfl := seq_inj number (by omega) (by omega)
  exact said

theorem Inv.answers (inv : Inv pair base s g k k) (state : s.larger.state = .exchange)
    (waiting : s.smaller.state = .exchange) {i : Nat}
    (found : s.toSmaller[i]? = some p) (said : LargerPacket pair.toPair base k p)
    (options : p.options = optionsOf pair.larger.stub) (now : Now) :
    ∃ g' t' q, Inv pair base (ExchangeLoss.step pair.toPair s (.deliverToSmaller i now)) g' k t' ∧
      q ∈ (ExchangeLoss.step pair.toPair s (.deliverToSmaller i now)).toLarger ∧ Awaited s q := by
  obtain ⟨-, positive, seqLarger⟩ := inv.master state
  have slave : s.smaller.master = false ∧ s.smaller.ddSeqNumber + 1 = p.seq := by
    rw [inv.smaller] at waiting ⊢
    have round := inv.here.smaller
    generalize again : k = r at round
    cases round with
    | starting start => cases start.symm.trans waiting
    | @running _ r _ slave seq =>
      refine ⟨slave, ?_⟩
      rw [seq, next_seq, said.seq, again]
    | ended finished => exact absurd finished (not_ended waiting)
  obtain ⟨slave, nextSeq⟩ := slave
  have types : ∀ h ∈ p.lsas, ¬ h.type > 5 := by
    intro h inPacket
    rw [said.lsas, if_neg positive] at inPacket
    exact pair.largerTypes h (List.mem_of_mem_drop (List.mem_of_mem_take inPacket))
  have ours : p.options = s.smaller.options := by
    rw [inv.soundSmaller.options waiting, ← pair.stub]
    exact options
  obtain ⟨quiet, accepted⟩ := @rxExchange_in_sequence pair.smaller now s.smaller p
    (by simp [duplicate, slave, ← nextSeq]) (by rw [said.fields, slave]; rfl)
    (by simp [said.fields, positive]) ours (by simp [inSequence, slave, ← nextSeq]) types
  have rx : rxSmaller pair.toPair s now p = rxExchange pair.smaller now s.smaller p := by
    simp only [rxSmaller, dbdescRx, waiting]
  obtain ⟨g', t', after⟩ := inv.smaller_rx found (rx ▸ quiet)
  have next : ExchangeLoss.step pair.toPair s (.deliverToSmaller i now) =
      stepSmaller { s with toSmaller := s.toSmaller.eraseIdx i }
        (rxSmaller pair.toPair s now p) := by
    simp only [ExchangeLoss.step, found]
  rw [accepted] at quiet rx
  obtain ⟨q, sent, seqQ, initQ⟩ := @slave_answers pair.smaller now { s.smaller with
    ddsum := lsahListPurge (acknowledge s.smaller.ddsum) } p slave waiting quiet
  rw [next]
  refine ⟨g', t', q, after, ?_, initQ, ?_⟩
  · refine List.mem_append_right _ (Option.mem_toList.mpr ?_)
    rw [rx]
    exact sent
  · rw [seqQ, said.seq, seqLarger]

/-- From every state of the invariant the master can come to its end. The induction is on
the rounds that are left. -/
theorem Inv.finishes (rounds : Nat) (inv : Inv pair base s g k t)
    (left : pair.larger.snapshot.headers.length + pair.smaller.snapshot.headers.length + 2 <
      k + rounds) (state : s.larger.state = .exchange) : CanFinish pair.toPair s := by
  induction rounds generalizing s g k t with
  | zero => exact absurd left (Nat.not_lt.mpr (reached_le inv.here.reached))
  | succ rounds ih =>
    have further (t' : Nat) : ∀ s' g', Inv pair base s' g' (k+1) t' →
        s'.larger.state = .exchange → CanFinish pair.toPair s' :=
      fun s' g' after goes => ih after (by omega) goes
    by_cases finished : Ended s.smaller
    · obtain ⟨p, member, awaited⟩ := inv.answer state finished
      exact inv.finishes_answered state member awaited (further t)
    · obtain ⟨-, positive, seqLarger⟩ := inv.master state
      have lower := inv.here.lower
      have upper := inv.here.upper
      have slave : s.smaller.state = .exchange ∧
          s.smaller.ddSeqNumber + 1 = base + BitVec.ofNat 32 t := by
        rw [inv.smaller] at finished ⊢
        cases inv.here.smaller with
        | starting => omega
        | running waiting _ seq =>
          refine ⟨waiting, ?_⟩
          rw [seq, next_seq]
        | ended done => exact absurd done finished
      by_cases heard : t = k + 1
      · -- the slave has answered, and its timer sends the answer again
        subst heard
        obtain ⟨p, last, seq, init⟩ := inv.soundSmaller.last slave.1
        obtain ⟨g', after⟩ := inv.resendsSmaller
        refine canFinish_move .resendSmaller fun now => ?_
        have member : p ∈ (ExchangeLoss.step pair.toPair s .resendSmaller).toLarger := by
          refine List.mem_append_right _ (Option.mem_toList.mpr ?_)
          rw [retransmitted, if_pos (.inl slave.1)]
          exact last
        refine after.finishes_answered state member ⟨init, ?_⟩ (further _)
        have number := slave.2
        rw [← next_seq, ← seq, ← seqLarger] at number
        exact (BitVec.add_left_inj _).mp number
      · -- the timer of the master sends its packet again, and the slave answers it
        obtain rfl : t = k := by omega
        obtain ⟨p, last, said, options⟩ := inv.last_larger state
        obtain ⟨g', after⟩ := inv.resendsLarger
        refine canFinish_move .resendLarger fun now => ?_
        have member : p ∈ (ExchangeLoss.step pair.toPair s .resendLarger).toSmaller := by
          refine List.mem_append_right _ (Option.mem_toList.mpr ?_)
          rw [retransmitted, if_pos (.inl state)]
          exact last
        obtain ⟨i, found⟩ := List.mem_iff_getElem?.mp member
        refine canFinish_move (.deliverToSmaller i) fun now => ?_
        obtain ⟨g'', t', q, after', inFlight, awaited⟩ :=
          after.answers state slave.1 found said options now
        have goes : (ExchangeLoss.step pair.toPair (ExchangeLoss.step pair.toPair s .resendLarger)
            (.deliverToSmaller i now)).larger = s.larger := by
          simp only [ExchangeLoss.step, stepSmaller]
          split <;> rfl
        refine after'.finishes_answered (goes ▸ state) inFlight ?_ (further t')
        rw [Awaited, goes]
        exact awaited

/-- As long as the answer of the slave's last round is kept, the master can finish: from
every state reached without a mismatch in which it is still in Exchange. -/
theorem master_can_finish (pair : Adjacent) (larger smaller : Start) (events : List Event)
    (kept : Kept pair.toPair (begin pair.toPair larger smaller) events)
    (ok : (run pair.toPair (begin pair.toPair larger smaller) events).mismatched = false)
    (state : (run pair.toPair (begin pair.toPair larger smaller) events).larger.state =
      .exchange) :
    CanFinish pair.toPair (run pair.toPair (begin pair.toPair larger smaller) events) := by
  obtain ⟨g, k, t, inv⟩ := (begin_inv pair larger smaller).run events kept ok
  exact inv.finishes (pair.larger.snapshot.headers.length +
    pair.smaller.snapshot.headers.length + 3) (by omega) state

end Progress

section Stuck

def neighbors : Adjacent where
  toPair := twoRouters
  stub := rfl
  largerTypes := by decide
  smallerTypes := by decide

/-- The exchange up to the last answer of the slave. -/
def upToLast : List Event :=
  [.deliverToLarger 0 unknown, .deliverToSmaller 0 unknown, .deliverToLarger 0 unknown,
    .deliverToSmaller 0 unknown, .deliverToLarger 0 unknown, .deliverToSmaller 0 unknown]

def beforeLoss : System :=
  run twoRouters (begin twoRouters ⟨7, false, 0⟩ ⟨0, false, 40⟩) upToLast

/-- The last answer is repeated, and one copy is lost. -/
theorem master_can_finish_one_copy :
    CanFinish twoRouters (run twoRouters (begin twoRouters ⟨7, false, 0⟩ ⟨0, false, 40⟩)
      (upToLast ++ [.repeatToLarger 0, .loseToLarger 0])) := by
  refine master_can_finish neighbors ⟨7, false, 0⟩ ⟨0, false, 40⟩ _ ?_ (by decide +kernel)
    (by decide +kernel)
  refine ⟨trivial, trivial, trivial, trivial, trivial, trivial, trivial, ?_, trivial⟩
  intro _ _ p _ _
  decide +kernel

/-- The slave is done, and its last answer is lost. -/
def afterLoss : System := step twoRouters beforeLoss (.loseToLarger 0)

/-- Nothing is under way to the master, and only its last packet to the slave. -/
structure Stuck (s : System) : Prop where
  larger : s.larger = afterLoss.larger
  smaller : s.smaller = afterLoss.smaller
  toLarger : s.toLarger = []
  toSmaller : ∀ p ∈ s.toSmaller, afterLoss.larger.lastDdPkt = some p

theorem slave_silent (now : Now) (p : DdPacket) (last : afterLoss.larger.lastDdPkt = some p) :
    dbdescRx twoRouters.smaller now afterLoss.smaller p = ignored afterLoss.smaller := by
  have state : afterLoss.smaller.state = .loading := by decide +kernel
  have accepted : afterLoss.larger.lastDdPkt.all (fun p =>
      !(p.fields.init || p.options ≠ afterLoss.smaller.options) &&
        duplicate afterLoss.smaller p) = true := by
    decide +kernel
  rw [last] at accepted
  simp only [Option.all_some, Bool.and_eq_true, Bool.not_eq_true'] at accepted
  simp only [dbdescRx, state]
  rw [rxLoading, if_neg (Bool.eq_false_iff.mp accepted.1), if_pos accepted.2]

theorem Stuck.step {s : System} (stuck : Stuck s) (m : Move) (now : Now) :
    Stuck (ExchangeLoss.step twoRouters s (m.event now)) := by
  cases m with
  | deliverToLarger i =>
    simp only [Move.event, ExchangeLoss.step, stuck.toLarger, List.getElem?_nil]
    exact stuck
  | deliverToSmaller i =>
    simp only [Move.event, ExchangeLoss.step]
    split
    · exact stuck
    · rename_i pkt found
      have silent : rxSmaller twoRouters s now pkt = ignored afterLoss.smaller := by
        rw [rxSmaller, stuck.smaller]
        exact slave_silent now pkt (stuck.toSmaller pkt (List.mem_of_getElem? found))
      rw [silent]
      refine ⟨stuck.larger, rfl, ?_, ?_⟩
      · simp [stepSmaller, ignored, stuck.toLarger]
      · intro p member
        exact stuck.toSmaller p (List.mem_of_mem_eraseIdx member)
  | resendLarger =>
    refine ⟨stuck.larger, stuck.smaller, stuck.toLarger, ?_⟩
    intro p member
    rcases List.mem_append.mp member with old | again
    · exact stuck.toSmaller p old
    · rw [stuck.larger] at again
      exact retransmitted_last again
  | resendSmaller =>
    have none : retransmitted afterLoss.smaller = none := by decide +kernel
    refine ⟨stuck.larger, stuck.smaller, ?_, stuck.toSmaller⟩
    simp [Move.event, ExchangeLoss.step, stuck.toLarger, stuck.smaller, none]

theorem Stuck.continued {s : System} (stuck : Stuck s) (moves : List Move) (clock : Nat → Now) :
    Stuck (ExchangeLoss.continued twoRouters moves clock s) := by
  induction moves generalizing s clock with
  | nil => exact stuck
  | cons m rest ih => exact ih (stuck.step m (clock 0)) _

/-- The last answer of the slave is lost: no mismatch has occurred and the master is in
Exchange, but nothing that follows without a loss ends the exchange for it. -/
theorem lost_answer_blocks_master :
    afterLoss = run twoRouters (begin twoRouters ⟨7, false, 0⟩ ⟨0, false, 40⟩)
        (upToLast ++ [.loseToLarger 0]) ∧
      afterLoss.mismatched = false ∧ afterLoss.larger.state = .exchange ∧
      ∀ moves clock last, masterDone twoRouters (continued twoRouters moves clock afterLoss)
        (Move.event (clock moves.length) last) = false := by
  refine ⟨rfl, by decide +kernel, by decide +kernel, ?_⟩
  intro moves clock last
  have start : Stuck afterLoss := by
    have empty : afterLoss.toLarger = [] ∧ afterLoss.toSmaller = [] := by decide +kernel
    refine ⟨rfl, rfl, empty.1, ?_⟩
    rw [empty.2]
    intro p member
    cases member
  have stuck := start.continued moves clock
  cases last with
  | deliverToLarger i =>
    simp only [Move.event, masterDone, stuck.toLarger, List.getElem?_nil]
    rfl
  | _ => rfl

end Stuck

end ExchangeLoss
