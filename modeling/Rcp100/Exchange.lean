import Rcp100.Retransmission

/-!
# Database exchange

Two routers describe their databases to each other in Database Description packets. The
one with the larger router identifier becomes the master: it sends the next packet when
the slave has answered the last one, and the slave answers every new packet. The packets
may be lost, delayed, duplicated and reordered. The check of the MTU, which ignores a
packet, is the same as a loss; log lines, traps and requests that are sent at the end are
left out.
-/

namespace Exchange

open LsaFormat LsUpdate Retransmission

/-- The bits I, M and MS of `OspfDbd.fields`. -/
structure Fields where
  init : Bool
  more : Bool
  master : Bool
  deriving DecidableEq

structure DdPacket where
  options : BitVec 8
  fields : Fields
  seq : BitVec 32
  lsas : List LsaHeader
  deriving DecidableEq

/-- `OspfLsaHeaderList`. -/
structure Entry where
  header : LsaHeader
  sent : Bool
  ack : Bool
  deriving DecidableEq

/-- The headers of the database when the exchange begins; `nfsmNegotiationDone` counts
them in an `int`. -/
structure Snapshot where
  headers : List LsaHeader
  counted : headers.length < 0x80000000

/-- `OSPF_DD_MAX`. -/
def ospfDdMax : Nat := 70

/-- The moment at which a header of the neighbor was looked up: the database copy, and the
request list after it. -/
structure Examined where
  header : LsaHeader
  copy : Option LsaHeader
  lsreq : List LsaHeader

/-- What of `OspfNeighbor` the exchange uses. `examined` records the headers that were
looked up. -/
structure Nb where
  state : NState
  master : Bool
  options : BitVec 8
  ddSeqNumber : BitVec 32
  more0sent : Bool
  ddsum : List Entry
  lsreq : List LsaHeader
  lastDdPkt : Option DdPacket
  examined : List Examined

/-- A router: its identifier and that of the neighbor, the area, and the database of which
the summary is made. -/
structure Side where
  routerId : BitVec 32
  nbRouterId : BitVec 32
  stub : Bool
  snapshot : Snapshot

/-- What a packet meets: the database at that time, and the clock. -/
structure Now where
  db : LsaKey → Option LsaHeader
  time : BitVec 32

def fresh (h : LsaHeader) : Entry := ⟨h, false, false⟩

/-- What is sent is acknowledged. -/
def acknowledge (ddsum : List Entry) : List Entry :=
  ddsum.map (fun e => if e.sent && !e.ack then { e with ack := true } else e)

/-- The source frees the whole list and keeps its head where the first entry is not
acknowledged; it is, because the first headers were sent when Exchange began. -/
def lsahListPurge (ddsum : List Entry) : List Entry := ddsum.dropWhile (·.ack)

/-- The loop of `dbdescBuildPkt` over the summary list, with room for so many headers. -/
def describe : List Entry → Nat → List Entry × List LsaHeader
  | [], _ => ([], [])
  | e :: rest, 0 => (e :: rest, [])
  | e :: rest, room+1 =>
    if e.ack then
      let r := describe rest (room+1)
      (e :: r.1, r.2)
    else
      let r := describe rest room
      ({ e with sent := true } :: r.1, e.header :: r.2)

def dbdescBuildPkt (side : Side) (nb : Nb) (fields : Fields) : Nb × DdPacket :=
  let described := if nb.state = .exchange then describe nb.ddsum ospfDdMax else (nb.ddsum, [])
  let pkt : DdPacket :=
    { options := if side.stub then nb.options &&& 2 else nb.options ||| 2
      fields := if nb.state = .exStart then ⟨true, true, true⟩ else fields
      seq := nb.ddSeqNumber
      lsas := described.2 }
  ({ nb with ddsum := described.1, lastDdPkt := some pkt }, pkt)

/-- `start_adj`. -/
def startAdj (side : Side) (time : BitVec 32) (nb : Nb) : Nb × DdPacket :=
  let seq := if nb.ddSeqNumber = 0 then time else nb.ddSeqNumber
  dbdescBuildPkt side
    { nb with
      ddSeqNumber := seq + 1
      master := true
      options := if side.stub then 0x40 else 0x42 }
    ⟨true, true, true⟩

/-- What a received packet leads to. -/
structure Result where
  nb : Nb
  sent : Option DdPacket
  exchangeDone : Bool
  mismatch : Bool

def ignored (nb : Nb) : Result := ⟨nb, none, false, false⟩

def nfsmSeqNumberMismatch (side : Side) (time : BitVec 32) (nb : Nb) : Result :=
  let restarted := startAdj side time
    { nb with
      state := .exStart
      ddSeqNumber := nb.ddSeqNumber + 1
      ddsum := []
      lsreq := []
      lastDdPkt := none }
  ⟨restarted.1, some restarted.2, false, true⟩

def nfsmNegotiationDone (side : Side) (nb : Nb) : Nb :=
  { nb with
    more0sent := false
    lastDdPkt := none
    ddsum := side.snapshot.headers.map fresh
    state := .exchange }

/-- No request is ever marked as acknowledged, so that Full follows from an empty list
only. -/
def nfsmExchangeDone (nb : Nb) : Nb :=
  { nb with lastDdPkt := none, state := if nb.lsreq = [] then .full else .loading }

/-- The database copy is another instance than the header. -/
def differs (copy h : LsaHeader) : Bool :=
  copy.seq ≠ h.seq || copy.checksum ≠ h.checksum ||
    maxAgeDiff < ((copy.age.toNat : Int) - h.age.toNat).natAbs

/-- One header of an accepted packet. -/
def examine (db : LsaKey → Option LsaHeader) (nb : Nb) (h : LsaHeader) : Nb :=
  let lsreq :=
    match db h.key with
    | none => h :: nb.lsreq
    | some copy => if differs copy h then h :: nb.lsreq else nb.lsreq
  { nb with lsreq := lsreq, examined := nb.examined ++ [⟨h, db h.key, lsreq⟩] }

/-- The headers of an accepted packet, up to one with an unknown type. -/
def examineAll (db : LsaKey → Option LsaHeader) (nb : Nb) : List LsaHeader → Nb × Bool
  | [] => (nb, true)
  | h :: rest => if h.type > 5 then (nb, false) else examineAll db (examine db nb h) rest

def masterReply (side : Side) (nb : Nb) (pkt : DdPacket) : Result :=
  if nb.more0sent && !pkt.fields.more then
    ⟨nfsmExchangeDone { nb with more0sent := false }, none, true, false⟩
  else
    let built := dbdescBuildPkt side { nb with ddSeqNumber := nb.ddSeqNumber + 1 }
      ⟨false, nb.ddsum ≠ [], true⟩
    ⟨{ built.1 with more0sent := nb.more0sent || nb.ddsum = [] }, some built.2, false, false⟩

def slaveReply (side : Side) (nb : Nb) (pkt : DdPacket) : Result :=
  let built := dbdescBuildPkt side { nb with ddSeqNumber := pkt.seq }
    ⟨false, nb.ddsum ≠ [] || pkt.fields.more, false⟩
  if !pkt.fields.more && nb.ddsum = [] then
    ⟨nfsmExchangeDone built.1, some built.2, true, false⟩
  else ⟨built.1, some built.2, false, false⟩

/-- A packet that is the next in sequence. -/
def accept (side : Side) (now : Now) (nb : Nb) (pkt : DdPacket) : Result :=
  let looked := examineAll now.db nb pkt.lsas
  if !looked.2 then nfsmSeqNumberMismatch side now.time looked.1
  else if looked.1.master then masterReply side looked.1 pkt
  else slaveReply side looked.1 pkt

/-- The sequence numbers are compared as unsigned integers. -/
def duplicate (nb : Nb) (pkt : DdPacket) : Bool :=
  if nb.master then pkt.seq < nb.ddSeqNumber else pkt.seq < nb.ddSeqNumber + 1

def inSequence (nb : Nb) (pkt : DdPacket) : Bool :=
  if nb.master then nb.ddSeqNumber = pkt.seq else nb.ddSeqNumber + 1 = pkt.seq

def rxExStart (side : Side) (now : Now) (nb : Nb) (pkt : DdPacket) : Result :=
  if pkt.fields = ⟨true, true, true⟩ ∧ pkt.lsas = [] ∧ side.routerId < side.nbRouterId then
    accept side now
      (nfsmNegotiationDone side
        { nb with master := false, options := pkt.options, ddSeqNumber := pkt.seq }) pkt
  else if pkt.fields.init = false ∧ pkt.fields.master = false ∧ pkt.seq = nb.ddSeqNumber ∧
      side.nbRouterId < side.routerId then
    accept side now
      (nfsmNegotiationDone side { nb with master := true, options := pkt.options }) pkt
  else ignored nb

def rxExchange (side : Side) (now : Now) (nb : Nb) (pkt : DdPacket) : Result :=
  if duplicate nb pkt then ignored nb
  else if pkt.fields.master = nb.master || pkt.fields.init || pkt.options ≠ nb.options ||
      !inSequence nb pkt then
    nfsmSeqNumberMismatch side now.time nb
  else accept side now { nb with ddsum := lsahListPurge (acknowledge nb.ddsum) } pkt

def rxLoading (side : Side) (now : Now) (nb : Nb) (pkt : DdPacket) : Result :=
  if pkt.fields.init || pkt.options ≠ nb.options then nfsmSeqNumberMismatch side now.time nb
  else if duplicate nb pkt then ignored nb
  else nfsmSeqNumberMismatch side now.time nb

/-- `dbdescRx`, from ExStart on. -/
def dbdescRx (side : Side) (now : Now) (nb : Nb) (pkt : DdPacket) : Result :=
  match nb.state with
  | .exStart => rxExStart side now nb pkt
  | .exchange => rxExchange side now nb pkt
  | .loading => rxLoading side now nb pkt
  | .full => rxLoading side now nb pkt
  | _ => ignored nb

/-- The timer of the network resends the last packet. -/
def retransmitted (nb : Nb) : Option DdPacket :=
  if nb.state = .exchange ∨ nb.state = .exStart then nb.lastDdPkt else none

/-- Two routers, named after the order of their identifiers. -/
structure Pair where
  larger : Side
  smaller : Side
  largerNb : larger.nbRouterId = smaller.routerId
  smallerNb : smaller.nbRouterId = larger.routerId
  order : smaller.routerId < larger.routerId

/-- Both ends, and every packet that was sent. A packet stays under way, so that it may
arrive any number of times, in any order, or not at all. -/
structure System where
  larger : Nb
  smaller : Nb
  toLarger : List DdPacket
  toSmaller : List DdPacket
  mismatched : Bool

inductive Event where
  | toLarger (i : Nat) (now : Now)
  | toSmaller (i : Nat) (now : Now)
  | resendLarger
  | resendSmaller

/-- A neighbor that enters ExStart: the lists are empty. -/
def entering (ddSeqNumber : BitVec 32) (more0sent : Bool) : Nb :=
  ⟨.exStart, false, 0, ddSeqNumber, more0sent, [], [], none, []⟩

/-- What the exchange begins with on one side: the last sequence number, the flag that an
earlier exchange may have left, and the clock. -/
structure Start where
  ddSeqNumber : BitVec 32
  more0sent : Bool
  time : BitVec 32

def Start.begin (st : Start) (side : Side) : Nb × DdPacket :=
  startAdj side st.time (entering st.ddSeqNumber st.more0sent)

/-- Both routers have sent their first packet. -/
def begin (pair : Pair) (larger smaller : Start) : System where
  larger := (larger.begin pair.larger).1
  smaller := (smaller.begin pair.smaller).1
  toLarger := [(smaller.begin pair.smaller).2]
  toSmaller := [(larger.begin pair.larger).2]
  mismatched := false

section Steps

variable (pair : Pair)

def rxLarger (s : System) (now : Now) (pkt : DdPacket) : Result :=
  dbdescRx pair.larger now s.larger pkt

def rxSmaller (s : System) (now : Now) (pkt : DdPacket) : Result :=
  dbdescRx pair.smaller now s.smaller pkt

def stepLarger (s : System) (r : Result) : System :=
  { s with
    larger := r.nb
    toSmaller := s.toSmaller ++ r.sent.toList
    mismatched := s.mismatched || r.mismatch }

def stepSmaller (s : System) (r : Result) : System :=
  { s with
    smaller := r.nb
    toLarger := s.toLarger ++ r.sent.toList
    mismatched := s.mismatched || r.mismatch }

/-- One step; an event that is not possible changes nothing. -/
def step (s : System) : Event → System
  | .toLarger i now =>
    match s.toLarger[i]? with
    | none => s
    | some pkt => stepLarger s (rxLarger pair s now pkt)
  | .toSmaller i now =>
    match s.toSmaller[i]? with
    | none => s
    | some pkt => stepSmaller s (rxSmaller pair s now pkt)
  | .resendLarger => { s with toSmaller := s.toSmaller ++ (retransmitted s.larger).toList }
  | .resendSmaller => { s with toLarger := s.toLarger ++ (retransmitted s.smaller).toList }

def run (s : System) (events : List Event) : System := events.foldl (step pair) s

/-- The larger router executes `nfsmExchangeDone` in the step. -/
def largerDone (s : System) : Event → Bool
  | .toLarger i now => (s.toLarger[i]?).any (fun pkt => (rxLarger pair s now pkt).exchangeDone)
  | _ => false

def smallerDone (s : System) : Event → Bool
  | .toSmaller i now => (s.toSmaller[i]?).any (fun pkt => (rxSmaller pair s now pkt).exchangeDone)
  | _ => false

end Steps

/-- At the moment of the lookup the header went on the request list, or the database had
the same instance. -/
def Examined.Settled (x : Examined) : Prop :=
  x.header ∈ x.lsreq ∨
    ∃ copy, x.copy = some copy ∧ copy.seq = x.header.seq ∧ copy.checksum = x.header.checksum ∧
      ((copy.age.toNat : Int) - x.header.age.toNat).natAbs ≤ maxAgeDiff

/-- Every header of the neighbor's summary was looked up, and every entry of the own one
was sent and acknowledged. -/
structure Complete (nb : Nb) (snapshot : Snapshot) : Prop where
  examined : ∀ h ∈ snapshot.headers, ∃ x ∈ nb.examined, x.header = h ∧ x.Settled
  described : ∀ e ∈ nb.ddsum, e.sent = true ∧ e.ack = true

section Summary

/-- The summary list while a packet is out: the headers of the packet are sent. -/
def window (l : List LsaHeader) : List Entry :=
  (l.take ospfDdMax).map (fun h => ⟨h, true, false⟩) ++ (l.drop ospfDdMax).map fresh

theorem describe_fresh (l : List LsaHeader) (room : Nat) :
    describe (l.map fresh) room =
      ((l.take room).map (fun h => ⟨h, true, false⟩) ++ (l.drop room).map fresh, l.take room) := by
  induction l generalizing room with
  | nil => simp [describe]
  | cons h rest ih =>
    cases room with
    | zero => simp [describe]
    | succ room => simp [describe, fresh, ih room]

theorem purge_window (l : List LsaHeader) :
    lsahListPurge (acknowledge (window l)) = (l.drop ospfDdMax).map fresh := by
  have sent : ∀ (as bs : List LsaHeader),
      lsahListPurge (acknowledge (as.map (fun h => ⟨h, true, false⟩) ++ bs.map fresh)) =
        bs.map fresh := by
    intro as bs
    induction as with
    | nil =>
      cases bs with
      | nil => rfl
      | cons b bs =>
        simp [lsahListPurge, acknowledge, fresh]
    | cons a as ih =>
      rw [List.map_cons, List.cons_append]
      exact ih
  exact sent _ _

theorem map_fresh_ne_nil (l : List LsaHeader) (n : Nat) :
    decide ((l.drop n).map fresh ≠ []) = decide (n < l.length) := by
  simp

end Summary

section Examination

variable (db : LsaKey → Option LsaHeader)

theorem examine_settled (nb : Nb) (h : LsaHeader) :
    ∃ lsreq copy, examine db nb h =
        { nb with lsreq := lsreq, examined := nb.examined ++ [⟨h, copy, lsreq⟩] } ∧
      Examined.Settled ⟨h, copy, lsreq⟩ := by
  refine ⟨_, db h.key, rfl, ?_⟩
  cases found : db h.key with
  | none => exact .inl List.mem_cons_self
  | some copy =>
    dsimp only
    by_cases other : differs copy h = true
    · rw [if_pos other]
      exact .inl List.mem_cons_self
    · rw [if_neg other]
      simp only [differs, Bool.or_eq_true, decide_eq_true_eq, not_or, not_not, Nat.not_lt] at other
      exact .inr ⟨copy, rfl, other.1.1, other.1.2, other.2⟩

theorem examineAll_spec (nb : Nb) (lsas : List LsaHeader) :
    ∃ lsreq xs, (examineAll db nb lsas).1 =
        { nb with lsreq := lsreq, examined := nb.examined ++ xs } ∧
      (∀ x ∈ xs, x.Settled) ∧
      ((examineAll db nb lsas).2 = true → xs.map Examined.header = lsas) := by
  induction lsas generalizing nb with
  | nil => exact ⟨nb.lsreq, [], by simp [examineAll], by simp, fun _ => rfl⟩
  | cons h rest ih =>
    rw [examineAll]
    split
    · exact ⟨nb.lsreq, [], by simp, by simp, fun h => by cases h⟩
    · obtain ⟨first, copy, hexamine, settled⟩ := examine_settled db nb h
      obtain ⟨lsreq, xs, hall, rest, headers⟩ := ih (examine db nb h)
      refine ⟨lsreq, ⟨h, copy, first⟩ :: xs, ?_, ?_, fun ok => ?_⟩
      · rw [hall, hexamine]
        simp
      · intro x hx
        rcases List.mem_cons.mp hx with rfl | later
        · exact settled
        · exact rest x later
      · rw [List.map_cons, headers ok]

end Examination

section Replies

variable {side : Side} {now : Now} {nb : Nb} {pkt : DdPacket}

theorem build_fresh {l : List LsaHeader} (state : nb.state = .exchange)
    (ddsum : nb.ddsum = l.map fresh) (fields : Fields) :
    ∃ p : DdPacket, p.fields = fields ∧ p.seq = nb.ddSeqNumber ∧ p.lsas = l.take ospfDdMax ∧
      dbdescBuildPkt side nb fields =
        ({ nb with ddsum := window l, lastDdPkt := some p }, p) := by
  refine ⟨(dbdescBuildPkt side nb fields).2, ?_, rfl, ?_, ?_⟩
  · simp [dbdescBuildPkt, state]
  · simp [dbdescBuildPkt, state, ddsum, describe_fresh]
  · simp [dbdescBuildPkt, state, ddsum, describe_fresh, window]

theorem accept_eq (ok : (accept side now nb pkt).mismatch = false) :
    ∃ lsreq xs, (∀ x ∈ xs, Examined.Settled x) ∧ xs.map Examined.header = pkt.lsas ∧
      accept side now nb pkt =
        if nb.master = true then
          masterReply side { nb with lsreq := lsreq, examined := nb.examined ++ xs } pkt
        else slaveReply side { nb with lsreq := lsreq, examined := nb.examined ++ xs } pkt := by
  obtain ⟨lsreq, xs, after, settled, headers⟩ := examineAll_spec now.db nb pkt.lsas
  cases known : (examineAll now.db nb pkt.lsas).2 with
  | false =>
    simp [accept, known, nfsmSeqNumberMismatch] at ok
  | true =>
    refine ⟨lsreq, xs, settled, headers known, ?_⟩
    simp [accept, known, after]

end Replies

section Rounds

variable (pair : Pair) (base : BitVec 32)

/-- The number of headers that are described before round `j`. -/
def upTo (j : Nat) : Nat := ospfDdMax * j

/-- The M-bit of the larger router in round `j`. -/
def largerMore (j : Nat) : Bool :=
  j = 0 || upTo (j-1) < pair.larger.snapshot.headers.length

/-- What the larger router says in round `j`. -/
structure LargerPacket (j : Nat) (p : DdPacket) : Prop where
  seq : p.seq = base + BitVec.ofNat 32 j
  fields : p.fields = ⟨j = 0, largerMore pair j, true⟩
  lsas : p.lsas = if j = 0 then [] else
    (pair.larger.snapshot.headers.drop (upTo (j-1))).take ospfDdMax

/-- What the smaller router answers in round `j`. -/
structure SmallerPacket (j : Nat) (p : DdPacket) : Prop where
  seq : p.seq = base + BitVec.ofNat 32 j
  fields : p.fields =
    ⟨false, upTo j < pair.smaller.snapshot.headers.length || largerMore pair j, false⟩
  lsas : p.lsas = (pair.smaller.snapshot.headers.drop (upTo j)).take ospfDdMax

/-- The larger router after it has sent the packet of round `k`. -/
inductive LargerAt : Nat → Nb → Prop where
  | starting {nb : Nb} (state : nb.state = .exStart) (seq : nb.ddSeqNumber = base)
    (examined : nb.examined = []) : LargerAt 0 nb
  | running {nb : Nb} {k : Nat} (state : nb.state = .exchange) (master : nb.master = true)
    (seq : nb.ddSeqNumber = base + BitVec.ofNat 32 (k+1))
    (ddsum : nb.ddsum = window (pair.larger.snapshot.headers.drop (upTo k)))
    (more0sent : nb.more0sent = !largerMore pair (k+1))
    (examined : nb.examined.map Examined.header =
      pair.smaller.snapshot.headers.take (upTo (k+1))) : LargerAt (k+1) nb
  | ended {nb : Nb} {k : Nat} (state : nb.state = .loading ∨ nb.state = .full)
    (examined : nb.examined.map Examined.header = pair.smaller.snapshot.headers)
    (ddsum : nb.ddsum = []) : LargerAt k nb

/-- The smaller router after it has heard the packets of the rounds before `t`. -/
inductive SmallerAt : Nat → Nb → Prop where
  | starting {nb : Nb} (state : nb.state = .exStart) (examined : nb.examined = []) : SmallerAt 0 nb
  | running {nb : Nb} {t : Nat} (state : nb.state = .exchange) (master : nb.master = false)
    (seq : nb.ddSeqNumber = base + BitVec.ofNat 32 t)
    (ddsum : nb.ddsum = window (pair.smaller.snapshot.headers.drop (upTo t)))
    (examined : nb.examined.map Examined.header =
      pair.larger.snapshot.headers.take (upTo t)) : SmallerAt (t+1) nb
  | ended {nb : Nb} {t : Nat} (state : nb.state = .loading ∨ nb.state = .full)
    (examined : nb.examined.map Examined.header = pair.larger.snapshot.headers)
    (ddsum : nb.ddsum = []) : SmallerAt t nb

/-- The exchange goes on as long as one of the summaries does. -/
def Reached (k : Nat) : Prop :=
  k ≤ 1 ∨ upTo (k-2) < pair.larger.snapshot.headers.length ∨
    upTo (k-1) < pair.smaller.snapshot.headers.length

variable {pair base}

theorem upTo_succ (j : Nat) : upTo (j+1) = upTo j + ospfDdMax := Nat.mul_succ _ _

theorem take_upTo_succ (l : List LsaHeader) (j : Nat) :
    l.take (upTo j) ++ (l.drop (upTo j)).take ospfDdMax = l.take (upTo (j+1)) := by
  rw [upTo_succ, List.take_add]

theorem upTo_mono {i j : Nat} (le : i ≤ j) : upTo i ≤ upTo j := Nat.mul_le_mul_left _ le

theorem next_seq (j : Nat) :
    base + BitVec.ofNat 32 j + 1 = base + BitVec.ofNat 32 (j+1) := by
  rw [BitVec.add_assoc, BitVec.ofNat_add]
  rfl

theorem largerMore_succ (j : Nat) :
    largerMore pair (j+1) = decide (upTo j < pair.larger.snapshot.headers.length) := by
  simp [largerMore]

theorem largerMore_false {j : Nat} (done : largerMore pair j = false) :
    j ≠ 0 ∧ pair.larger.snapshot.headers.length ≤ upTo (j-1) ∧
      pair.larger.snapshot.headers.length ≤ upTo j := by
  simp only [largerMore, Bool.or_eq_false_iff, decide_eq_false_iff_not, Nat.not_lt] at done
  exact ⟨done.1, done.2, Nat.le_trans done.2 (upTo_mono (Nat.sub_le j 1))⟩

theorem nfsmExchangeDone_state (nb : Nb) :
    (nfsmExchangeDone nb).state = .loading ∨ (nfsmExchangeDone nb).state = .full := by
  simp only [nfsmExchangeDone]
  split
  · exact .inr rfl
  · exact .inl rfl

/-- The answer of round `k` takes the larger router to the next round, or ends the exchange
with everything looked up and described. -/
theorem larger_accepts {now : Now} {nb : Nb} {pkt : DdPacket} {k : Nat}
    (ok : (accept pair.larger now nb pkt).mismatch = false) (state : nb.state = .exchange)
    (master : nb.master = true) (seq : nb.ddSeqNumber = base + BitVec.ofNat 32 k)
    (ddsum : nb.ddsum = (pair.larger.snapshot.headers.drop (upTo k)).map fresh)
    (more0sent : nb.more0sent = !largerMore pair k)
    (examined : nb.examined.map Examined.header = pair.smaller.snapshot.headers.take (upTo k))
    (settled : ∀ x ∈ nb.examined, x.Settled) (said : SmallerPacket pair base k pkt) :
    ∃ r, accept pair.larger now nb pkt = r ∧ (∀ x ∈ r.nb.examined, x.Settled) ∧
      (r.sent = none ∧ r.nb.lastDdPkt = none ∧ LargerAt pair base k r.nb ∨
        ∃ p, r.sent = some p ∧ r.nb.lastDdPkt = some p ∧ LargerPacket pair base (k+1) p ∧
          LargerAt pair base (k+1) r.nb ∧ Reached pair (k+1)) := by
  obtain ⟨lsreq, xs, fresh', headers, result⟩ := accept_eq ok
  refine ⟨_, rfl, ?_⟩
  rw [result, if_pos master]
  have all : (nb.examined ++ xs).map Examined.header =
      pair.smaller.snapshot.headers.take (upTo (k+1)) := by
    rw [List.map_append, examined, headers, said.lsas, take_upTo_succ]
  have both : ∀ x ∈ nb.examined ++ xs, x.Settled := List.forall_mem_append.mpr ⟨settled, fresh'⟩
  have more : pkt.fields.more =
      (decide (upTo k < pair.smaller.snapshot.headers.length) || largerMore pair k) := by
    rw [said.fields]
  by_cases last : (nb.more0sent && !pkt.fields.more) = true
  · simp only [masterReply, last, if_true]
    refine ⟨both, .inl ⟨trivial, rfl, .ended (nfsmExchangeDone_state _) ?_ ?_⟩⟩
    · simp only [more0sent, more, Bool.and_eq_true, Bool.not_eq_true', Bool.or_eq_false_iff,
        decide_eq_false_iff_not, Nat.not_lt] at last
      have covered := Nat.le_trans last.2.1 (upTo_mono (Nat.le_succ k))
      exact all.trans (List.take_of_length_le covered)
    · simp only [more0sent, Bool.and_eq_true, Bool.not_eq_true'] at last
      have nil : nb.ddsum = [] := by
        rw [ddsum, List.drop_eq_nil_of_le (largerMore_false last.1).2.2, List.map_nil]
      exact nil
  · obtain ⟨p, hfields, hseq, hlsas, built⟩ :=
      @build_fresh pair.larger
        { nb with
          lsreq := lsreq
          examined := nb.examined ++ xs
          ddSeqNumber := nb.ddSeqNumber + 1 } _ state ddsum ⟨false, nb.ddsum ≠ [], true⟩
    have left : decide (nb.ddsum ≠ []) = largerMore pair (k+1) := by
      rw [ddsum, map_fresh_ne_nil, largerMore_succ]
    simp only [masterReply, last, built, Bool.false_eq_true, if_false]
    refine ⟨both, .inr ⟨p, rfl, rfl, ⟨?_, ?_, ?_⟩, .running state master ?_ rfl ?_ all, ?_⟩⟩
    · rw [hseq, seq, next_seq]
    · rw [hfields, left]
      rfl
    · rw [hlsas]
      rfl
    · rw [seq, next_seq]
    · rw [more0sent]
      cases described : largerMore pair k with
      | true =>
        rw [← left]
        simp
      | false =>
        rw [largerMore_succ]
        simpa using (largerMore_false described).2.2
    · simp only [more0sent, more, Bool.and_eq_true, Bool.not_eq_true', Bool.or_eq_false_iff,
        decide_eq_false_iff_not, Nat.not_lt, not_and] at last
      rw [Reached]
      cases described : largerMore pair k with
      | true =>
        simp only [largerMore, Bool.or_eq_true, decide_eq_true_eq] at described
        rcases described with first | rest
        · exact .inl (by omega)
        · exact .inr (.inl rest)
      | false =>
        refine .inr (.inr ?_)
        by_contra allSent
        exact last described (Nat.le_of_not_lt allSent) described

/-- The packet of round `t` is answered by the smaller router, which ends the exchange when
both summaries were described. -/
theorem smaller_accepts {now : Now} {nb : Nb} {pkt : DdPacket} {t : Nat}
    (ok : (accept pair.smaller now nb pkt).mismatch = false) (state : nb.state = .exchange)
    (slave : nb.master = false)
    (ddsum : nb.ddsum = (pair.smaller.snapshot.headers.drop (upTo t)).map fresh)
    (examined : nb.examined.map Examined.header = pair.larger.snapshot.headers.take (upTo (t-1)))
    (settled : ∀ x ∈ nb.examined, x.Settled) (said : LargerPacket pair base t pkt) :
    ∃ r p, accept pair.smaller now nb pkt = r ∧ (∀ x ∈ r.nb.examined, x.Settled) ∧
      r.sent = some p ∧ (∀ q, r.nb.lastDdPkt = some q → q = p) ∧ SmallerPacket pair base t p ∧
      SmallerAt pair base (t+1) r.nb := by
  obtain ⟨lsreq, xs, fresh', headers, result⟩ := accept_eq ok
  have all : (nb.examined ++ xs).map Examined.header =
      pair.larger.snapshot.headers.take (upTo t) := by
    rw [List.map_append, examined, headers, said.lsas]
    cases t with
    | zero => simp [upTo]
    | succ t => exact take_upTo_succ _ t
  have both : ∀ x ∈ nb.examined ++ xs, x.Settled := List.forall_mem_append.mpr ⟨settled, fresh'⟩
  have more : pkt.fields.more = largerMore pair t := by rw [said.fields]
  obtain ⟨p, hfields, hseq, hlsas, built⟩ :=
    @build_fresh pair.smaller
      { nb with lsreq := lsreq, examined := nb.examined ++ xs, ddSeqNumber := pkt.seq } _ state
      ddsum ⟨false, nb.ddsum ≠ [] || pkt.fields.more, false⟩
  have left : decide (nb.ddsum ≠ []) = decide (upTo t < pair.smaller.snapshot.headers.length) := by
    rw [ddsum, map_fresh_ne_nil]
  have answer : SmallerPacket pair base t p := by
    refine ⟨hseq.trans said.seq, ?_, hlsas⟩
    rw [hfields, left, more]
  refine ⟨_, p, rfl, ?_⟩
  rw [result, if_neg (by simp [slave])]
  by_cases last : (!pkt.fields.more && decide (nb.ddsum = [])) = true
  · simp only [slaveReply, built, last, if_true]
    refine ⟨both, trivial, nofun, answer, .ended (nfsmExchangeDone_state _) ?_ ?_⟩
    · simp only [more, Bool.and_eq_true, Bool.not_eq_true'] at last
      exact all.trans (List.take_of_length_le (largerMore_false last.1).2.2)
    · simp only [Bool.and_eq_true, decide_eq_true_eq] at last
      have nil : pair.smaller.snapshot.headers.drop (upTo t) = [] := by
        simpa [ddsum] using last.2
      rw [nil]
      rfl
  · simp only [slaveReply, built, last, Bool.false_eq_true, if_false]
    exact ⟨both, trivial, fun q hq => (Option.some.inj hq).symm, answer,
      .running state slave said.seq rfl all⟩

end Rounds

section Invariant

variable (pair : Pair) (base : BitVec 32)

/-- The larger router is in round `k`, the smaller one has heard the rounds before `t`, and
every packet under way belongs to one of these rounds or opened the exchange. -/
structure At (s : System) (k t : Nat) : Prop where
  larger : LargerAt pair base k s.larger
  smaller : SmallerAt pair base t s.smaller
  lower : k ≤ t
  upper : t ≤ k+1
  toSmaller : ∀ p ∈ s.toSmaller, ∃ j ≤ k, LargerPacket pair base j p
  toLarger : ∀ p ∈ s.toLarger,
    p.fields = ⟨true, true, true⟩ ∨ ∃ j < t, SmallerPacket pair base j p
  reached : Reached pair k
  lastLarger : ∀ p, s.larger.lastDdPkt = some p → p ∈ s.toSmaller
  lastSmaller : ∀ p, s.smaller.lastDdPkt = some p → p ∈ s.toLarger
  settledLarger : ∀ x ∈ s.larger.examined, x.Settled
  settledSmaller : ∀ x ∈ s.smaller.examined, x.Settled

variable {pair base} {s : System} {k t : Nat}

theorem Reached.lt (reached : Reached pair k) : k + 1 < 0x100000000 := by
  have larger := pair.larger.snapshot.counted
  have smaller := pair.smaller.snapshot.counted
  simp only [Reached, upTo, ospfDdMax] at reached
  omega

theorem seq_inj {i j : Nat} (same : base + BitVec.ofNat 32 i = base + BitVec.ofNat 32 j)
    (hi : i < 0x100000000) (hj : j < 0x100000000) : i = j := by
  have numbers : (BitVec.ofNat 32 i).toNat = (BitVec.ofNat 32 j).toNat :=
    congrArg BitVec.toNat ((BitVec.add_right_inj base).mp same)
  rw [BitVec.toNat_ofNat, BitVec.toNat_ofNat] at numbers
  omega

theorem At.repeatsLarger (here : At pair base s k t) {again : List DdPacket}
    (known : ∀ p ∈ again, p ∈ s.toSmaller) (mismatched : Bool) :
    At pair base { s with toSmaller := s.toSmaller ++ again, mismatched := mismatched } k t := by
  refine ⟨here.larger, here.smaller, here.lower, here.upper, ?_, here.toLarger, here.reached, ?_,
    here.lastSmaller, here.settledLarger, here.settledSmaller⟩
  · intro p hp
    rcases List.mem_append.mp hp with old | new
    · exact here.toSmaller p old
    · exact here.toSmaller p (known p new)
  · intro p hp
    exact List.mem_append_left _ (here.lastLarger p hp)

theorem At.repeatsSmaller (here : At pair base s k t) {again : List DdPacket}
    (known : ∀ p ∈ again, p ∈ s.toLarger) (mismatched : Bool) :
    At pair base { s with toLarger := s.toLarger ++ again, mismatched := mismatched } k t := by
  refine ⟨here.larger, here.smaller, here.lower, here.upper, here.toSmaller, ?_, here.reached,
    here.lastLarger, ?_, here.settledLarger, here.settledSmaller⟩
  · intro p hp
    rcases List.mem_append.mp hp with old | new
    · exact here.toLarger p old
    · exact here.toLarger p (known p new)
  · intro p hp
    exact List.mem_append_left _ (here.lastSmaller p hp)

theorem At.ignoresLarger (here : At pair base s k t) :
    At pair base (stepLarger s (ignored s.larger)) k t :=
  here.repeatsLarger (List.forall_mem_nil _) _

theorem At.ignoresSmaller (here : At pair base s k t) :
    At pair base (stepSmaller s (ignored s.smaller)) k t :=
  here.repeatsSmaller (List.forall_mem_nil _) _

variable {nb : Nb} {now : Now} {pkt : DdPacket}

theorem retransmitted_last {p : DdPacket} (again : p ∈ (retransmitted nb).toList) :
    nb.lastDdPkt = some p := by
  rw [retransmitted] at again
  split at again
  · exact Option.mem_toList.mp again
  · cases again

theorem At.retransmitsLarger (here : At pair base s k t) :
    At pair base (step pair s .resendLarger) k t :=
  here.repeatsLarger (fun p again => here.lastLarger p (retransmitted_last again)) _

theorem At.retransmitsSmaller (here : At pair base s k t) :
    At pair base (step pair s .resendSmaller) k t :=
  here.repeatsSmaller (fun p again => here.lastSmaller p (retransmitted_last again)) _

theorem At.answered (here : At pair base s k (k+1)) {r : Result}
    (settled : ∀ x ∈ r.nb.examined, x.Settled)
    (outcome : r.sent = none ∧ r.nb.lastDdPkt = none ∧ LargerAt pair base k r.nb ∨
      ∃ p, r.sent = some p ∧ r.nb.lastDdPkt = some p ∧ LargerPacket pair base (k+1) p ∧
        LargerAt pair base (k+1) r.nb ∧ Reached pair (k+1)) :
    ∃ k', At pair base (stepLarger s r) k' (k+1) := by
  rcases outcome with ⟨sent, last, ended⟩ | ⟨p, sent, last, said, running, reached⟩
  · refine ⟨k, ended, here.smaller, here.lower, here.upper, ?_, here.toLarger, here.reached, ?_,
      here.lastSmaller, settled, here.settledSmaller⟩
    · simpa [stepLarger, sent] using here.toSmaller
    · intro q hq
      rw [stepLarger, last] at hq
      cases hq
  · refine ⟨k+1, running, here.smaller, Nat.le_refl _, Nat.le_succ _, ?_, here.toLarger, reached,
      ?_, here.lastSmaller, settled, here.settledSmaller⟩
    · intro q hq
      simp only [stepLarger, sent, Option.toList_some, List.mem_append, List.mem_singleton] at hq
      rcases hq with old | rfl
      · obtain ⟨j, le, packet⟩ := here.toSmaller q old
        exact ⟨j, Nat.le_succ_of_le le, packet⟩
      · exact ⟨k+1, Nat.le_refl _, said⟩
    · intro q hq
      rw [stepLarger, last] at hq
      cases hq
      simp [stepLarger, sent]

theorem At.heard (here : At pair base s k k) {r : Result} {p : DdPacket}
    (settled : ∀ x ∈ r.nb.examined, x.Settled) (sent : r.sent = some p)
    (last : ∀ q, r.nb.lastDdPkt = some q → q = p) (said : SmallerPacket pair base k p)
    (after : SmallerAt pair base (k+1) r.nb) :
    At pair base (stepSmaller s r) k (k+1) := by
  refine ⟨here.larger, after, Nat.le_succ k, Nat.le_refl _, here.toSmaller, ?_, here.reached,
    here.lastLarger, ?_, here.settledLarger, settled⟩
  · intro q hq
    simp only [stepSmaller, sent, Option.toList_some, List.mem_append, List.mem_singleton] at hq
    rcases hq with old | rfl
    · rcases here.toLarger q old with greeting | ⟨j, lt, packet⟩
      · exact .inl greeting
      · exact .inr ⟨j, Nat.lt_succ_of_lt lt, packet⟩
    · exact .inr ⟨k, Nat.lt_succ_self k, said⟩
  · intro q hq
    have same := last q hq
    simp [stepSmaller, sent, same]

theorem rxLoading_ignored {side : Side}
    (ok : (rxLoading side now nb pkt).mismatch = false) :
    rxLoading side now nb pkt = ignored nb := by
  rw [rxLoading] at ok ⊢
  split at ok
  · cases ok
  · rename_i accepted
    rw [if_neg accepted]
    split at ok
    · rename_i old
      rw [if_pos old]
    · cases ok

theorem rxExchange_accepts {side : Side}
    (ok : (rxExchange side now nb pkt).mismatch = false) :
    rxExchange side now nb pkt = ignored nb ∨
      pkt.fields.master ≠ nb.master ∧ pkt.fields.init = false ∧ inSequence nb pkt = true ∧
        rxExchange side now nb pkt =
          accept side now { nb with ddsum := lsahListPurge (acknowledge nb.ddsum) } pkt := by
  rw [rxExchange] at ok ⊢
  split at ok
  · rename_i old
    rw [if_pos old]
    exact .inl rfl
  · rename_i new
    rw [if_neg new]
    split at ok
    · cases ok
    · rename_i accepted
      rw [if_neg accepted]
      simp only [Bool.or_eq_true, decide_eq_true_eq, Bool.not_eq_true', not_or,
        Bool.not_eq_true, Bool.not_eq_false] at accepted
      exact .inr ⟨accepted.1.1.1, accepted.1.1.2, accepted.2, rfl⟩

theorem At.larger_rx (here : At pair base s k t)
    (sent : pkt ∈ s.toLarger) (ok : (rxLarger pair s now pkt).mismatch = false) :
    ∃ k', At pair base (stepLarger s (rxLarger pair s now pkt)) k' t := by
  have lt := here.reached.lt
  have upper := here.upper
  cases here.larger with
  | starting state seq examined =>
    simp only [rxLarger, dbdescRx, state] at ok ⊢
    rw [rxExStart] at ok ⊢
    have order : ¬ pair.larger.routerId < pair.larger.nbRouterId := by
      rw [pair.largerNb]
      exact BitVec.not_lt.mpr (BitVec.le_of_lt pair.order)
    rw [if_neg (fun h => order h.2.2)] at ok ⊢
    split at ok
    · rename_i first
      rw [if_pos first]
      rcases here.toLarger pkt sent with greeting | ⟨j, before, said⟩
      · rw [greeting] at first
        cases first.1
      · obtain rfl : j = 0 := by omega
        obtain rfl : t = 0 + 1 := by omega
        obtain ⟨r, result, settled, outcome⟩ := larger_accepts ok rfl rfl
          (by simp [nfsmNegotiationDone, seq])
          (by simp [nfsmNegotiationDone, upTo]) (by simp [nfsmNegotiationDone, largerMore])
          (by simp [nfsmNegotiationDone, examined, upTo]) here.settledLarger said
        rw [result]
        exact here.answered settled outcome
    · rename_i other
      rw [if_neg other]
      exact ⟨_, here.ignoresLarger⟩
  | @running _ k state master seq ddsum more0sent examined =>
    simp only [rxLarger, dbdescRx, state] at ok ⊢
    rcases rxExchange_accepts ok with old | ⟨ms, -, inSeq, result⟩
    · rw [old]
      exact ⟨_, here.ignoresLarger⟩
    · rw [result] at ok ⊢
      rcases here.toLarger pkt sent with greeting | ⟨j, before, said⟩
      · rw [greeting, master] at ms
        exact absurd rfl ms
      · have number : base + BitVec.ofNat 32 (k+1) = base + BitVec.ofNat 32 j := by
          simpa [inSequence, master, seq, said.seq] using inSeq
        obtain rfl := seq_inj number (by omega) (by omega)
        obtain rfl : t = k + 1 + 1 := by omega
        have purged : lsahListPurge (acknowledge s.larger.ddsum) =
            (pair.larger.snapshot.headers.drop (upTo (k+1))).map fresh := by
          rw [ddsum, purge_window, List.drop_drop, upTo_succ]
        obtain ⟨r, result, settled, outcome⟩ := larger_accepts ok state master seq purged
          more0sent examined here.settledLarger said
        rw [result]
        exact here.answered settled outcome
  | ended state examined ddsum =>
    have loading : rxLarger pair s now pkt = rxLoading pair.larger now s.larger pkt := by
      rcases state with state | state <;> simp only [rxLarger, dbdescRx, state]
    rw [loading] at ok ⊢
    rw [rxLoading_ignored ok]
    exact ⟨_, here.ignoresLarger⟩

theorem At.smaller_rx (here : At pair base s k t)
    (sent : pkt ∈ s.toSmaller) (ok : (rxSmaller pair s now pkt).mismatch = false) :
    ∃ t', At pair base (stepSmaller s (rxSmaller pair s now pkt)) k t' := by
  have lt := here.reached.lt
  have lower := here.lower
  have upper := here.upper
  obtain ⟨j, before, said⟩ := here.toSmaller pkt sent
  cases here.smaller with
  | starting state examined =>
    obtain rfl : j = 0 := by omega
    obtain rfl : k = 0 := by omega
    simp only [rxSmaller, dbdescRx, state] at ok ⊢
    rw [rxExStart] at ok ⊢
    have order : pair.smaller.routerId < pair.smaller.nbRouterId := by
      rw [pair.smallerNb]
      exact pair.order
    have opening : pkt.fields = ⟨true, true, true⟩ ∧ pkt.lsas = [] ∧
        pair.smaller.routerId < pair.smaller.nbRouterId :=
      ⟨by simp [said.fields, largerMore], by simp [said.lsas], order⟩
    rw [if_pos opening] at ok ⊢
    obtain ⟨r, p, result, settled, hsent, last, answer, after⟩ := smaller_accepts ok rfl rfl
      (by simp [nfsmNegotiationDone, upTo]) (by simp [nfsmNegotiationDone, examined, upTo])
      here.settledSmaller said
    rw [result]
    exact ⟨_, here.heard settled hsent last answer after⟩
  | @running _ t state slave seq ddsum examined =>
    simp only [rxSmaller, dbdescRx, state] at ok ⊢
    rcases rxExchange_accepts ok with old | ⟨-, -, inSeq, result⟩
    · rw [old]
      exact ⟨_, here.ignoresSmaller⟩
    · rw [result] at ok ⊢
      have number : base + BitVec.ofNat 32 (t+1) = base + BitVec.ofNat 32 j := by
        rw [← next_seq, ← said.seq, ← seq]
        simpa [inSequence, slave] using inSeq
      obtain rfl := seq_inj number (by omega) (by omega)
      obtain rfl : k = t + 1 := by omega
      have purged : lsahListPurge (acknowledge s.smaller.ddsum) =
          (pair.smaller.snapshot.headers.drop (upTo (t+1))).map fresh := by
        rw [ddsum, purge_window, List.drop_drop, upTo_succ]
      obtain ⟨r, p, result, settled, hsent, last, answer, after⟩ := smaller_accepts ok state slave
        purged examined here.settledSmaller said
      rw [result]
      exact ⟨_, here.heard settled hsent last answer after⟩
  | ended state examined ddsum =>
    have loading : rxSmaller pair s now pkt = rxLoading pair.smaller now s.smaller pkt := by
      rcases state with state | state <;> simp only [rxSmaller, dbdescRx, state]
    rw [loading] at ok ⊢
    rw [rxLoading_ignored ok]
    exact ⟨_, here.ignoresSmaller⟩

theorem At.step (here : At pair base s k t) {e : Event}
    (ok : (step pair s e).mismatched = false) :
    ∃ k' t', At pair base (step pair s e) k' t' := by
  cases e with
  | toLarger i now =>
    simp only [Exchange.step] at ok ⊢
    split at ok
    · exact ⟨k, t, here⟩
    · rename_i pkt found
      have quiet : (rxLarger pair s now pkt).mismatch = false := (Bool.or_eq_false_iff.mp ok).2
      obtain ⟨k', after⟩ := here.larger_rx (List.mem_of_getElem? found) quiet
      exact ⟨k', t, after⟩
  | toSmaller i now =>
    simp only [Exchange.step] at ok ⊢
    split at ok
    · exact ⟨k, t, here⟩
    · rename_i pkt found
      have quiet : (rxSmaller pair s now pkt).mismatch = false := (Bool.or_eq_false_iff.mp ok).2
      obtain ⟨t', after⟩ := here.smaller_rx (List.mem_of_getElem? found) quiet
      exact ⟨k, t', after⟩
  | resendLarger => exact ⟨k, t, here.retransmitsLarger⟩
  | resendSmaller => exact ⟨k, t, here.retransmitsSmaller⟩

theorem step_mismatched {e : Event} (ok : (step pair s e).mismatched = false) :
    s.mismatched = false := by
  cases e with
  | toLarger i now =>
    simp only [step] at ok
    split at ok
    · exact ok
    · exact (Bool.or_eq_false_iff.mp ok).1
  | toSmaller i now =>
    simp only [step] at ok
    split at ok
    · exact ok
    · exact (Bool.or_eq_false_iff.mp ok).1
  | resendLarger => exact ok
  | resendSmaller => exact ok

theorem begin_at (pair : Pair) (larger smaller : Start) :
    At pair (larger.begin pair.larger).1.ddSeqNumber (begin pair larger smaller) 0 0 := by
  refine ⟨.starting rfl rfl rfl, .starting rfl rfl, Nat.le_refl _, Nat.zero_le _, ?_, ?_,
    .inl (Nat.zero_le _), ?_, ?_, ?_, ?_⟩
  · intro p hp
    obtain rfl := List.mem_singleton.mp hp
    exact ⟨0, Nat.le_refl _, by simp [Start.begin, startAdj, dbdescBuildPkt, entering], rfl, rfl⟩
  · intro p hp
    obtain rfl := List.mem_singleton.mp hp
    exact .inl rfl
  · intro p hp
    exact List.mem_singleton.mpr (Option.some.inj hp).symm
  · intro p hp
    exact List.mem_singleton.mpr (Option.some.inj hp).symm
  · intro x hx
    cases hx
  · intro x hx
    cases hx

theorem run_mismatched (events : List Event) (ok : (run pair s events).mismatched = false) :
    s.mismatched = false := by
  induction events generalizing s with
  | nil => exact ok
  | cons e events ih => exact step_mismatched (ih ok)

theorem At.run (here : At pair base s k t) (events : List Event)
    (ok : (run pair s events).mismatched = false) :
    ∃ k' t', At pair base (run pair s events) k' t' := by
  induction events generalizing s k t with
  | nil => exact ⟨k, t, here⟩
  | cons e events ih =>
    obtain ⟨k', t', after⟩ := here.step (run_mismatched events ok)
    exact ih after ok

end Invariant

section Done

variable {side : Side} {now : Now} {nb : Nb} {pkt : DdPacket}

theorem accept_done (done : (accept side now nb pkt).exchangeDone = true) :
    (accept side now nb pkt).nb.state = .loading ∨ (accept side now nb pkt).nb.state = .full := by
  simp only [accept] at done ⊢
  split at done
  · cases done
  · rename_i known
    rw [if_neg known]
    split at done
    · rename_i master
      rw [if_pos master]
      rw [masterReply] at done ⊢
      split at done
      · rename_i last
        rw [if_pos last]
        exact nfsmExchangeDone_state _
      · cases done
    · rename_i slave
      rw [if_neg slave]
      simp only [slaveReply] at done ⊢
      split at done
      · rename_i last
        rw [if_pos last]
        exact nfsmExchangeDone_state _
      · cases done

theorem dbdescRx_accepts (done : (dbdescRx side now nb pkt).exchangeDone = true) :
    ∃ nb', dbdescRx side now nb pkt = accept side now nb' pkt := by
  have loading : (rxLoading side now nb pkt).exchangeDone ≠ true := by
    rw [rxLoading]
    split
    · exact Bool.false_ne_true
    · split <;> exact Bool.false_ne_true
  cases state : nb.state with
  | exStart =>
    simp only [dbdescRx, state, rxExStart] at done ⊢
    split at done
    · rename_i slave
      rw [if_pos slave]
      exact ⟨_, rfl⟩
    · rename_i other
      rw [if_neg other]
      split at done
      · rename_i master
        rw [if_pos master]
        exact ⟨_, rfl⟩
      · cases done
  | exchange =>
    simp only [dbdescRx, state, rxExchange] at done ⊢
    split at done
    · cases done
    · rename_i new
      rw [if_neg new]
      split at done
      · cases done
      · rename_i inSeq
        rw [if_neg inSeq]
        exact ⟨_, rfl⟩
  | loading =>
    simp only [dbdescRx, state] at done
    exact absurd done loading
  | full =>
    simp only [dbdescRx, state] at done
    exact absurd done loading
  | _ =>
    simp only [dbdescRx, state] at done
    cases done

theorem dbdescRx_done (done : (dbdescRx side now nb pkt).exchangeDone = true) :
    (dbdescRx side now nb pkt).nb.state = .loading ∨
      (dbdescRx side now nb pkt).nb.state = .full := by
  obtain ⟨nb', result⟩ := dbdescRx_accepts done
  rw [result] at done ⊢
  exact accept_done done

variable {pair : Pair} {base : BitVec 32} {s : System} {k t : Nat}

theorem complete_of_ended {snapshot : Snapshot}
    (examined : nb.examined.map Examined.header = snapshot.headers)
    (settled : ∀ x ∈ nb.examined, x.Settled) (ddsum : nb.ddsum = []) :
    Complete nb snapshot := by
  constructor
  · intro h mem
    rw [← examined] at mem
    obtain ⟨x, hx, rfl⟩ := List.mem_map.mp mem
    exact ⟨x, hx, rfl, settled x hx⟩
  · intro e he
    rw [ddsum] at he
    cases he

theorem At.complete_larger (here : At pair base s k t)
    (state : s.larger.state = .loading ∨ s.larger.state = .full) :
    Complete s.larger pair.smaller.snapshot := by
  cases here.larger with
  | starting start => simp [start] at state
  | running exchange => simp [exchange] at state
  | ended _ examined ddsum => exact complete_of_ended examined here.settledLarger ddsum

theorem At.complete_smaller (here : At pair base s k t)
    (state : s.smaller.state = .loading ∨ s.smaller.state = .full) :
    Complete s.smaller pair.larger.snapshot := by
  cases here.smaller with
  | starting start => simp [start] at state
  | running exchange => simp [exchange] at state
  | ended _ examined ddsum => exact complete_of_ended examined here.settledSmaller ddsum

theorem largerDone_state {e : Event} (done : largerDone pair s e = true) :
    (step pair s e).larger.state = .loading ∨ (step pair s e).larger.state = .full := by
  cases e with
  | toLarger i now =>
    simp only [largerDone, Option.any_eq_true_iff_get] at done
    obtain ⟨found, done⟩ := done
    obtain ⟨pkt, arrives⟩ := Option.isSome_iff_exists.mp found
    simp only [arrives, Option.get_some] at done
    simp only [step, arrives]
    exact dbdescRx_done done
  | _ => cases done

theorem smallerDone_state {e : Event} (done : smallerDone pair s e = true) :
    (step pair s e).smaller.state = .loading ∨ (step pair s e).smaller.state = .full := by
  cases e with
  | toSmaller i now =>
    simp only [smallerDone, Option.any_eq_true_iff_get] at done
    obtain ⟨found, done⟩ := done
    obtain ⟨pkt, arrives⟩ := Option.isSome_iff_exists.mp found
    simp only [arrives, Option.get_some] at done
    simp only [step, arrives]
    exact dbdescRx_done done
  | _ => cases done

/-- Whatever was lost, repeated or reordered: a router that ends the exchange before any
mismatch has looked up the whole summary of the other one, and has described its own. -/
theorem exchange_describes_everything (pair : Pair) (larger smaller : Start) (events : List Event)
    (e : Event)
    (ok : (step pair (run pair (begin pair larger smaller) events) e).mismatched = false) :
    (largerDone pair (run pair (begin pair larger smaller) events) e = true →
      Complete (step pair (run pair (begin pair larger smaller) events) e).larger
        pair.smaller.snapshot) ∧
    (smallerDone pair (run pair (begin pair larger smaller) events) e = true →
      Complete (step pair (run pair (begin pair larger smaller) events) e).smaller
        pair.larger.snapshot) := by
  obtain ⟨k, t, before⟩ := (begin_at pair larger smaller).run events (step_mismatched ok)
  obtain ⟨k', t', after⟩ := before.step ok
  exact ⟨fun done => after.complete_larger (largerDone_state done),
    fun done => after.complete_smaller (smallerDone_state done)⟩

/-- Two routers that describe one LSA each. -/
def twoRouters : Pair where
  larger := ⟨2, 1, false, ⟨[⟨0, 2, 1, 2, 2, 1, 0xabcd, 36⟩], by decide⟩⟩
  smaller := ⟨1, 2, false, ⟨[⟨0, 2, 1, 1, 1, 1, 0x1234, 36⟩], by decide⟩⟩
  largerNb := rfl
  smallerNb := rfl
  order := by decide

/-- Neither router knows an LSA of the other one. -/
def unknown : Now := ⟨fun _ => none, 0⟩

/-- The packets of an exchange, two of which are repeated, up to the last one. -/
def repeatedPackets : List Event :=
  [.resendSmaller, .toLarger 1 unknown, .toSmaller 0 unknown, .toLarger 2 unknown,
    .toSmaller 0 unknown, .toSmaller 1 unknown, .resendLarger, .toSmaller 2 unknown,
    .toLarger 3 unknown, .toSmaller 3 unknown]

theorem exchange_describes_both :
    largerDone twoRouters
        (run twoRouters (begin twoRouters ⟨7, false, 0⟩ ⟨0, false, 40⟩) repeatedPackets)
        (.toLarger 4 unknown) = true ∧
      Complete (step twoRouters
          (run twoRouters (begin twoRouters ⟨7, false, 0⟩ ⟨0, false, 40⟩) repeatedPackets)
          (.toLarger 4 unknown)).larger twoRouters.smaller.snapshot := by
  have done : largerDone twoRouters
      (run twoRouters (begin twoRouters ⟨7, false, 0⟩ ⟨0, false, 40⟩) repeatedPackets)
      (.toLarger 4 unknown) = true := by
    decide +kernel
  exact ⟨done, (exchange_describes_everything twoRouters ⟨7, false, 0⟩ ⟨0, false, 40⟩
    repeatedPackets (.toLarger 4 unknown) (by decide +kernel)).1 done⟩

end Done

end Exchange
