import Rcp100.RipPacket

/-!
# Replayed and forged RIP packets

The sequence number of an authentication header is stored before the digest is checked, and
the number 0 is never too small. So a packet with a wrong digest can move the stored number,
up or back to 0, and a genuine packet with the number 0 is accepted at any time. Where
neither happens the accepted numbers never decrease.
-/

namespace RipReplay

open ByteBuffer RipPacket

/-- One neighbor that is not known yet, and an interface with a password. -/
structure Session where
  cfg : Config
  source : BitVec 32
  ifIndex : Nat
  rxif : Interface
  others : List RipNeighbor
  found : rcpFindInterfaceByKIndex cfg ifIndex = some rxif
  closed : rxif.ripPasswd.chars ≠ []
  unknown : ∀ n ∈ others, n.ip ≠ source

/-- A datagram of the neighbor: the destination and the data. -/
def Session.datagram (session : Session) (x : BitVec 32 × List (BitVec 8)) : Datagram :=
  ⟨session.source, x.1, session.ifIndex, x.2⟩

/-- A datagram with the stored number before and after it. -/
structure Step where
  before : BitVec 32
  d : Datagram
  after : BitVec 32
  verdict : Verdict

def accepted : Verdict → Bool
  | .routes _ => true
  | _ => false

def badDigest : Verdict → Bool
  | .invalidDigest => true
  | _ => false

section Runs

variable (md5 : List (BitVec 8) → Digest)

def trace (cfg : Config) (neighbors : List RipNeighbor) : List Datagram → List Step
  | [] => []
  | d :: rest =>
    let r := rxpacket md5 cfg neighbors d
    ⟨authSeqOf neighbors d.ipSource, d, authSeqOf r.1 d.ipSource, r.2⟩ :: trace cfg r.1 rest

def Session.trace (session : Session) (xs : List (BitVec 32 × List (BitVec 8))) : List Step :=
  RipReplay.trace md5 session.cfg session.others (xs.map session.datagram)

end Runs

/-- The sequence numbers of the accepted datagrams. -/
def acceptedSeqs (steps : List Step) : List (BitVec 32) :=
  (steps.filter (fun x => accepted x.verdict)).map (fun x => x.d.seq)

/-- A wrong digest moves nothing, and the accepted numbers do not decrease. -/
structure Protected (steps : List Step) : Prop where
  forged : ∀ x ∈ steps, badDigest x.verdict = true → x.after = x.before
  ordered : (acceptedSeqs steps).Pairwise (· ≤ ·)

/-- The datagram gets as far as the authentication header. -/
def Session.reaches (session : Session) (d : Datagram) : Bool :=
  (precheck session.cfg d).isNone && (admission session.cfg d).isOk &&
    get16 d.buffer 4 = 0xffff && get16 d.buffer 6 = 3 && d.offsetFits

/-- The number is 0 or not below the stored one. -/
def current (before : BitVec 32) (d : Datagram) : Bool := d.seq = 0 || before ≤ d.seq

/-- A datagram with a wrong digest carries the stored number, and one with the right digest
does not carry 0 after another number. -/
def Session.meets (session : Session) (md5 : List (BitVec 8) → Digest) (before : BitVec 32)
    (d : Datagram) : Bool :=
  !(session.reaches d && current before d) ||
    (if d.digestFits md5 session.rxif.ripPasswd then d.seq ≠ 0 || before = 0 else d.seq = before)

section Steps

variable {md5 : List (BitVec 8) → Digest} {session : Session}

/-- What a datagram of the neighbor can lead to. -/
inductive Outcome (md5 : List (BitVec 8) → Digest) (session : Session) (s : BitVec 32)
    (d : Datagram) : BitVec 32 → Verdict → Prop where
  | dropped {verdict : Verdict} (early : (session.reaches d && current s d) = false)
    (refused : accepted verdict = false) (silent : badDigest verdict = false) :
    Outcome md5 session s d s verdict
  | forged (early : (session.reaches d && current s d) = true)
    (digest : d.digestFits md5 session.rxif.ripPasswd = false) :
    Outcome md5 session s d d.seq .invalidDigest
  | genuine {walked : List RipResponse.RipRoute}
    (early : (session.reaches d && current s d) = true)
    (digest : d.digestFits md5 session.rxif.ripPasswd = true) :
    Outcome md5 session s d d.seq (.routes walked)

theorem rxResponse_outcome {d : Datagram} (passes : precheck session.cfg d = none)
    (admitted : admission session.cfg d = .ok session.rxif) (s : BitVec 32) :
    Outcome md5 session s d (rxResponse md5 session.rxif.ripPasswd d s).1
      (rxResponse md5 session.rxif.ripPasswd d s).2 := by
  have reaches : session.reaches d =
      (decide (get16 d.buffer 4 = 0xffff) && decide (get16 d.buffer 6 = 3) && d.offsetFits) := by
    simp [Session.reaches, passes, admitted, Except.isOk, Except.toBool]
  have closed := session.closed
  by_cases header : get16 d.buffer 4 = 0xffff ∧ get16 d.buffer 6 = 3
  · have result : rxResponse md5 session.rxif.ripPasswd d s =
        rxAuth md5 session.rxif.ripPasswd d s := by
      simp [rxResponse, header.1, header.2, closed]
    rw [result, rxAuth]
    by_cases offset : d.offsetFits = false
    · rw [if_pos offset]
      exact .dropped (by simp [reaches, offset]) rfl rfl
    · rw [if_neg offset]
      rw [Bool.not_eq_false] at offset
      by_cases old : d.seq ≠ 0 ∧ d.seq < s
      · rw [if_pos old]
        have late : current s d = false := by
          rw [current, decide_eq_false old.1, Bool.false_or]
          exact decide_eq_false (BitVec.not_le.mpr old.2)
        exact .dropped (by rw [late, Bool.and_false]) rfl rfl
      · rw [if_neg old]
        have early : (session.reaches d && current s d) = true := by
          rw [reaches, offset, current]
          simp only [header.1, header.2, decide_true, Bool.and_true, Bool.true_and,
            Bool.or_eq_true, decide_eq_true_eq]
          by_cases zero : d.seq = 0
          · exact .inl zero
          · exact .inr (BitVec.not_lt.mp (fun lt => old ⟨zero, lt⟩))
        cases digest : d.digestFits md5 session.rxif.ripPasswd with
        | false => exact .forged early digest
        | true => exact .genuine early digest
  · have result : rxResponse md5 session.rxif.ripPasswd d s = (s, .missingHeader) := by
      rw [rxResponse, if_pos ⟨closed, by tauto⟩]
    rw [result]
    refine .dropped ?_ rfl rfl
    have missing :
        (decide (get16 d.buffer 4 = 0xffff) && decide (get16 d.buffer 6 = 3)) = false := by
      simpa using header
    rw [reaches, missing, Bool.false_and, Bool.false_and]

theorem admission_spec (cfg : Config) (d : Datagram) :
    (∃ verdict, admission cfg d = .error verdict ∧ accepted verdict = false ∧
      badDigest verdict = false) ∨
    ∃ rxif, admission cfg d = .ok rxif ∧ rcpFindInterfaceByKIndex cfg d.ifIndex = some rxif := by
  rw [admission]
  cases found : rcpFindInterfaceByKIndex cfg d.ifIndex with
  | none => exact .inl ⟨_, rfl, rfl, rfl⟩
  | some rxif =>
    dsimp only
    split
    · exact .inl ⟨_, rfl, rfl, rfl⟩
    · split
      · exact .inl ⟨_, rfl, rfl, rfl⟩
      · split
        · exact .inl ⟨_, rfl, rfl, rfl⟩
        · split
          · exact .inl ⟨_, rfl, rfl, rfl⟩
          · exact .inr ⟨rxif, rfl, rfl⟩

theorem rxpacket_outcome (neighbors : List RipNeighbor) (x : BitVec 32 × List (BitVec 8)) :
    Outcome md5 session (authSeqOf neighbors session.source) (session.datagram x)
      (authSeqOf (rxpacket md5 session.cfg neighbors (session.datagram x)).1 session.source)
      (rxpacket md5 session.cfg neighbors (session.datagram x)).2 := by
  have source : (session.datagram x).ipSource = session.source := rfl
  rw [rxpacket]
  cases passes : precheck session.cfg (session.datagram x) with
  | some verdict =>
    have plain : accepted verdict = false ∧ badDigest verdict = false := by
      rw [precheck] at passes
      split at passes
      · cases passes
        exact ⟨rfl, rfl⟩
      · split at passes
        · cases passes
          exact ⟨rfl, rfl⟩
        · cases passes
    exact .dropped (by simp [Session.reaches, passes]) plain.1 plain.2
  | none =>
    dsimp only
    rw [source]
    rcases admission_spec session.cfg (session.datagram x) with
      ⟨verdict, admitted, refused, silent⟩ | ⟨rxif, admitted, found⟩
    · rw [admitted]
      dsimp only
      rw [authSeqOf_touchNeighbor]
      exact .dropped (by simp [Session.reaches, admitted, Except.isOk, Except.toBool]) refused
        silent
    · obtain rfl : session.rxif = rxif := Option.some.inj (session.found.symm.trans found)
      rw [admitted]
      dsimp only
      rw [authSeqOf_setAuthSeq _ _ (any_touchNeighbor _ _), authSeqOf_touchNeighbor]
      exact rxResponse_outcome passes admitted _

end Steps

theorem zero_le (q : BitVec 32) : 0 ≤ q := BitVec.le_def.mpr (Nat.zero_le _)

section Verdicts

variable (md5 : List (BitVec 8) → Digest) (session : Session)

/-- The run from a state in which the stored number is the last accepted one. -/
theorem protected_from (neighbors : List RipNeighbor) (xs : List (BitVec 32 × List (BitVec 8))) :
    ((∀ x ∈ trace md5 session.cfg neighbors (xs.map session.datagram),
          badDigest x.verdict = true → x.after = x.before) ∧
        (authSeqOf neighbors session.source ::
          acceptedSeqs (trace md5 session.cfg neighbors (xs.map session.datagram))).Pairwise
            (· ≤ ·)) ↔
      ∀ x ∈ trace md5 session.cfg neighbors (xs.map session.datagram),
        session.meets md5 x.before x.d = true := by
  induction xs generalizing neighbors with
  | nil => simp [trace, acceptedSeqs]
  | cons y rest ih =>
    have source : (session.datagram y).ipSource = session.source := rfl
    have outcome := @rxpacket_outcome md5 session neighbors y
    have later := ih (rxpacket md5 session.cfg neighbors (session.datagram y)).1
    simp only [List.map_cons, trace, List.forall_mem_cons, acceptedSeqs, List.filter_cons, source]
    generalize (rxpacket md5 session.cfg neighbors (session.datagram y)).2 = verdict at *
    generalize (rxpacket md5 session.cfg neighbors (session.datagram y)).1 = neighbors' at *
    generalize authSeqOf neighbors session.source = s at *
    generalize hs' : authSeqOf neighbors' session.source = s' at *
    rw [acceptedSeqs] at later
    cases outcome with
    | dropped early refused silent =>
      have met : session.meets md5 s (session.datagram y) = true := by
        rw [Session.meets, early]
        rfl
      simp only [refused, silent, met, Bool.false_eq_true, if_false, false_implies, true_and]
      exact later
    | forged early digest =>
      have met : session.meets md5 s (session.datagram y) = true ↔
          (session.datagram y).seq = s := by
        simp [Session.meets, early, digest]
      rw [met]
      simp only [accepted, badDigest, Bool.false_eq_true, if_false, true_implies, and_assoc]
      refine and_congr_right (fun same => ?_)
      rw [same] at later
      exact later
    | genuine early digest =>
      have met : session.meets md5 s (session.datagram y) = true ↔
          s ≤ (session.datagram y).seq := by
        have now := (Bool.and_eq_true_iff.mp early).2
        simp only [current, Bool.or_eq_true, decide_eq_true_eq] at now
        simp only [Session.meets, early, digest, Bool.not_true, Bool.false_or, if_true,
          Bool.or_eq_true, decide_eq_true_eq]
        constructor
        · rintro (counted | first)
          · exact now.resolve_left counted
          · rw [first]
            exact zero_le _
        · intro le
          by_cases zero : (session.datagram y).seq = 0
          · rw [zero] at le
            exact .inr (BitVec.le_antisymm le (zero_le _))
          · exact .inl zero
      rw [met]
      simp only [accepted, badDigest, Bool.false_eq_true, if_true, false_implies, true_and,
        List.map_cons]
      rw [← later, List.pairwise_cons, List.forall_mem_cons]
      constructor
      · rintro ⟨moves, ⟨le, -⟩, rest⟩
        exact ⟨le, moves, rest⟩
      · rintro ⟨le, moves, rest⟩
        refine ⟨moves, ⟨le, fun z hz => ?_⟩, rest⟩
        exact BitVec.le_trans le ((List.pairwise_cons.mp rest).1 z hz)

/-- 192.168.1.2 hears the neighbor 192.168.1.1 for the first time. -/
def firstContact : Session where
  cfg := lanPeer.cfg
  source := 0xc0a80101
  ifIndex := 1
  rxif := lanPeer.rxif
  others := []
  found := rfl
  closed := by decide
  unknown := nofun

/-- A response of the neighbor without records, sent at some time. -/
def genuinePacket (time : BitVec 32) : List (BitVec 8) :=
  sendResponse lastBytes lanPeer.rxif.ripPasswd time []

/-- The same with a digest that is wrong. -/
def forgedPacket (time : BitVec 32) : List (BitVec 8) := (genuinePacket time).set 28 0x55

end Verdicts

end RipReplay
