import Rcp100.LeaseExpiry
import Rcp100.DhcpServer

/-!
# Declined leases

A declined or released lease is kept for the time of an offer, so that the address cools down,
and its client gets no offer in that time. DECLINE sets the mark and trusts that the lease is
still an offer; REQUEST renews a lease without a look at the mark.
-/

namespace DeclinedLeases

open ChainTable FaultRuns DhcpServer
open LeaseTables hiding exec
open Function (update update_of_ne update_self)

/-- No marked lease lasts longer than an offer from now on. -/
def Bounded (t : Trace) : Prop :=
  ∀ p ∈ t.server.mem.live, t.server.mem.declined p = true →
    t.server.mem.tstamp p ≤ t.clock + offerLeaseTime

/-- The database, with the leases that are marked. -/
structure Cooling (t : Trace) : Prop where
  holds : Holds t.server.mem t.server.mem.live
  noZero : NoZero t.server.mem t.server.mem.live
  bounded : Bounded t

/-- A DECLINE is for a lease that lasts no longer than an offer, and a REQUEST does not renew a
marked lease for longer than that. -/
def Cools (t : Trace) : Nat × Event → Prop
  | (now, .decline pkt) => ∀ p ∈ t.server.mem.live, Accepts t.server pkt p →
      t.server.mem.tstamp p ≤ now + offerLeaseTime
  | (_, .request pkt) => ∀ p ∈ t.server.mem.live, Accepts t.server pkt p →
      t.server.mem.declined p = true → ∀ net ∈ networkOf t.server p,
        (leaseSeconds net).toNat ≤ offerLeaseTime
  | _ => True

/-- A lease that was there before, with its addresses. -/
structure Old (s : Server) (m : Mem) (p : Ptr) : Prop where
  member : p ∈ s.mem.live
  ip : m.ip p = s.mem.ip p
  mac : m.mac p = s.mem.mac p

/-- What an event does to a lease that is there afterwards. -/
inductive Effect (s : Server) (now : Nat) (event : Event) (m : Mem) (p : Ptr) : Prop
  | kept (old : Old s m p) (mark : m.declined p = s.mem.declined p)
      (tstamp : m.tstamp p = s.mem.tstamp p)
  | offered (given : m.ip p ≠ 0) (mark : m.declined p = false)
  | declined (pkt : Pkt) (isDecline : event = .decline pkt) (old : Old s m p)
      (accepts : Accepts s pkt p) (mark : m.declined p = true)
      (tstamp : m.tstamp p = s.mem.tstamp p)
  | renewed (pkt : Pkt) (isRequest : event = .request pkt) (old : Old s m p)
      (accepts : Accepts s pkt p) (net : Network) (known : networkOf s p = some net)
      (mark : m.declined p = s.mem.declined p)
      (tstamp : m.tstamp p = now + (leaseSeconds net).toNat)
  | released (pkt : Pkt) (isRelease : event = .release pkt) (old : Old s m p)
      (releases : Releases s pkt p) (mark : m.declined p = true)
      (tstamp : m.tstamp p = now + offerLeaseTime)

/-- What an event does to the database. -/
structure Effects (s : Server) (now : Nat) (event : Event) (m : Mem) : Prop where
  holds : Holds m m.live
  each : ∀ p ∈ m.live, Effect s now event m p

section Handlers

variable {hosts : List Host} {s s' : Server} {now : Nat} {outcome : Outcome}

theorem update_cases {α : Type} (f : Ptr → α) (p q : Ptr) (v : α) :
    (q = p ∧ update f p v q = v) ∨ (q ≠ p ∧ update f p v q = f q) := by
  by_cases same : q = p
  · exact .inl ⟨same, by rw [same, update_self]⟩
  · exact .inr ⟨same, update_of_ne same v f⟩

theorem Effects.of_same {m : Mem} {event : Event} (holds : Holds m m.live)
    (live : ∀ p ∈ m.live, p ∈ s.mem.live) (ip : m.ip = s.mem.ip) (mac : m.mac = s.mem.mac)
    (declined : m.declined = s.mem.declined) (tstamp : m.tstamp = s.mem.tstamp) :
    Effects s now event m :=
  ⟨holds, fun p member => .kept ⟨live p member, congrFun ip p, congrFun mac p⟩
    (congrFun declined p) (congrFun tstamp p)⟩

theorem Effects.unchanged (holds : Holds s.mem s.mem.live) (event : Event) :
    Effects s now event s.mem :=
  .of_same holds (fun _ member => member) rfl rfl rfl rfl

variable {pkt : Pkt}

theorem decline_effects (holds : Holds s.mem s.mem.live)
    (ended : processDecline s pkt = .ok (s', outcome)) :
    Effects s now (.decline pkt) s'.mem := by
  rcases decline_cases holds pkt with ⟨q, -, accepts, done⟩ | ⟨-, done⟩
  · cases ended.symm.trans done
    refine ⟨holds.congr rfl rfl rfl rfl rfl rfl rfl, fun p member => ?_⟩
    rcases update_cases s.mem.declined q p true with ⟨rfl, marked⟩ | ⟨-, same⟩
    · exact .declined pkt rfl ⟨member, rfl, rfl⟩ accepts marked rfl
    · exact .kept ⟨member, rfl, rfl⟩ same rfl
  · cases ended.symm.trans done
    exact .unchanged holds _

theorem request_effects (holds : Holds s.mem s.mem.live)
    (ended : processRequest s now pkt = .ok (s', outcome)) :
    Effects s now (.request pkt) s'.mem := by
  have cleared (q : Ptr) : Effects s now (.request pkt) (s.setTid q 0).mem :=
    .of_same (holds.congr rfl rfl rfl rfl rfl rfl rfl) (fun _ member => member) rfl rfl rfl rfl
  rcases @request_cases s _ now holds pkt with
    ⟨q, -, accepts, net, t, known, done, held⟩ | ⟨q, -, -, -, done⟩ | ⟨-, done⟩
  · cases ended.symm.trans done
    refine ⟨held, fun p member => ?_⟩
    rcases update_cases s.mem.tstamp q p (now + (leaseSeconds net).toNat) with
      ⟨rfl, tstamp⟩ | ⟨-, same⟩
    · exact .renewed pkt rfl ⟨member, rfl, rfl⟩ accepts net known rfl tstamp
    · exact .kept ⟨member, rfl, rfl⟩ rfl same
  · cases ended.symm.trans done
    exact cleared q
  · cases ended.symm.trans done
    exact .unchanged holds _

theorem release_effects (holds : Holds s.mem s.mem.live)
    (ended : processRelease s now pkt = .ok (s', outcome)) :
    Effects s now (.release pkt) s'.mem := by
  rcases @release_cases s _ now holds pkt with ⟨q, -, releases, t, done, held⟩ | done
  · cases ended.symm.trans done
    refine ⟨held.congr rfl rfl rfl rfl rfl rfl rfl, fun p member => ?_⟩
    rcases update_cases s.mem.tstamp q p (now + offerLeaseTime) with ⟨rfl, tstamp⟩ | ⟨other, same⟩
    · have marked : update s.mem.declined p true p = true := update_self ..
      exact .released pkt rfl ⟨member, rfl, rfl⟩ releases marked tstamp
    · have unmarked : update s.mem.declined q true p = s.mem.declined p :=
        update_of_ne other ..
      exact .kept ⟨member, rfl, rfl⟩ unmarked same
  · cases ended.symm.trans done
    exact .unchanged holds _

theorem offerLease_mem {leases : List Ptr} (holds : Holds s.mem leases) {q : Ptr}
    (inside : q ∈ leases) (ended : offerLease s pkt q = .ok (s', outcome)) :
    ∃ tid, s'.mem = { s.mem with tid := tid } := by
  rcases offerLease_cases holds pkt inside with ⟨-, done⟩ | done
  · cases ended.symm.trans done
    exact ⟨s.mem.tid, rfl⟩
  · cases ended.symm.trans done
    exact ⟨_, rfl⟩

theorem discover_effects (holds : Holds s.mem s.mem.live) {pif : Interface}
    {block : Option Ptr} (fresh : ∀ p ∈ block, p ∉ s.mem.live)
    (ended : processDiscover hosts s now pkt pif block = .ok (s', outcome)) :
    Effects s now (.discover pkt pif block) s'.mem := by
  obtain ⟨r, searched, isLease⟩ := holds.findMac pkt.chaddr
  cases r with
  | some q =>
    obtain ⟨inside, -⟩ := (isLease q).mp rfl
    simp only [processDiscover, searched, ok_bind, access_ok inside] at ended
    cases declined : s.mem.declined q with
    | true =>
      rw [declined, if_pos rfl] at ended
      cases ended
      exact .unchanged holds _
    | false =>
      rw [declined, if_neg Bool.false_ne_true] at ended
      obtain ⟨tid, same⟩ := offerLease_mem holds inside ended
      rw [same]
      exact .of_same (holds.congr rfl rfl rfl rfl rfl rfl rfl) (fun _ member => member) rfl rfl
        rfl rfl
  | none =>
    have newMac : ∀ q ∈ s.mem.live, s.mem.mac q ≠ pkt.chaddr := by
      intro q inside same
      cases (isLease q).mpr ⟨inside, same⟩
    rcases discover_new holds hosts now pkt pif block newMac with
      ⟨-, endless⟩ | ⟨-, done⟩ | ⟨net, first, m', r, networks', assigns, same, done⟩
    · cases ended.symm.trans endless
    · cases ended.symm.trans done
      exact .unchanged holds _
    · rw [done] at ended
      cases assigns with
      | none nothing =>
        cases ended
        exact .unchanged holds _
      | assertion taken =>
        cases ended
        exact .unchanged holds _
      | lease q ip malloc used free source =>
        subst malloc
        have held : Holds (grant (addedLease s.mem q pkt.chaddr ip (now + offerLeaseTime)) q net)
            (q :: s.mem.live) := holds_grant (holds.added (fresh q rfl) newMac free) net
        obtain ⟨tid, same⟩ := offerLease_mem held List.mem_cons_self ended
        rw [same]
        refine ⟨held.congr rfl rfl rfl rfl rfl rfl rfl, fun p member => ?_⟩
        by_cases new : p = q
        · subst new
          have address : update s.mem.ip p ip p ≠ 0 := by rwa [update_self]
          have unmarked : update s.mem.declined p false p = false :=
            update_self ..
          exact .offered address unmarked
        · have other {α : Type} (f : Ptr → α) (v : α) : update f q v p = f p :=
            update_of_ne new v f
          exact .kept ⟨(List.mem_cons.mp member).resolve_left new, other s.mem.ip ip,
            other s.mem.mac _⟩ (other s.mem.declined false) (other s.mem.tstamp _)

theorem exec_effects (holds : Holds s.mem s.mem.live) {event : Event} (fresh : Fresh s.mem event)
    (ended : exec hosts s now event = .ok (s', outcome)) : Effects s now event s'.mem := by
  cases event with
  | discover pkt pif block => exact discover_effects holds fresh ended
  | request pkt => exact request_effects holds ended
  | decline pkt => exact decline_effects holds ended
  | release pkt => exact release_effects holds ended
  | timeout =>
    obtain ⟨m', expired, same, held, live⟩ := LeaseExpiry.timeout_spec holds now
    change leaseTimeout s.mem now = .ok m' at expired
    rw [exec, expired, ok_bind] at ended
    cases ended
    exact .of_same held (fun p member => ((live p).mp member).1) same.ip same.mac same.declined
      same.tstamp
  | fileUpdate =>
    obtain ⟨ps, walk, -⟩ := leaseWalk_spec holds
    rw [exec, leaseFileUpdate, walk] at ended
    cases ended
    exact .of_same (holds.congr rfl rfl rfl rfl rfl rfl rfl) (fun _ member => member) rfl rfl
      rfl rfl

end Handlers

/-- The server when it starts: what it has read from the file is not marked. -/
structure Started (t : Trace) : Prop where
  holds : Holds t.server.mem t.server.mem.live
  noZero : NoZero t.server.mem t.server.mem.live
  unmarked : ∀ p ∈ t.server.mem.live, t.server.mem.declined p = false

/-- The client of the message gave a lease back. -/
def GivenBack (mac : Mac) (op : Nat × Event) : Prop :=
  ∃ pkt, (op.2 = .decline pkt ∨ op.2 = .release pkt) ∧ pkt.chaddr = mac

/-- A DISCOVER that is ignored for a mark comes within the time of an offer after its client
gave the lease back. -/
def IgnoredBriefly (hosts : List Host) (ops : List (Nat × Event)) (t : Trace) : Prop :=
  ∀ front now pkt pif block, front ++ [(now, .discover pkt pif block)] <+: ops →
    ∀ t', run (step hosts) front t = .ok t' → ∀ p ∈ t'.server.mem.live,
      t'.server.mem.mac p = pkt.chaddr → t'.server.mem.declined p = true →
        ∃ op ∈ front, GivenBack pkt.chaddr op ∧ now ≤ op.1 + offerLeaseTime

/-- A marked lease is gone when its time is over, and no REQUEST puts that time off. -/
def Prompt (t : Trace) : Nat × Event → Prop
  | (now, .discover pkt _ _) => ∀ p ∈ t.server.mem.live, t.server.mem.mac p = pkt.chaddr →
      t.server.mem.declined p = true → now ≤ t.server.mem.tstamp p
  | (now, .request pkt) => ∀ p ∈ t.server.mem.live, Accepts t.server pkt p →
      t.server.mem.declined p = true → ∀ net ∈ networkOf t.server p,
        now + (leaseSeconds net).toNat ≤ t.server.mem.tstamp p
  | _ => True

/-- Every marked lease was given back, and lasts no longer than an offer from then on. -/
def Remembered (past : List (Nat × Event)) (t : Trace) : Prop :=
  ∀ p ∈ t.server.mem.live, t.server.mem.declined p = true →
    ∃ op ∈ past, GivenBack (t.server.mem.mac p) op ∧
      t.server.mem.tstamp p ≤ op.1 + offerLeaseTime

section Runs

variable {hosts : List Host} {t t' : Trace} {op : Nat × Event}

theorem step_cases (executed : step hosts t op = .ok t') :
    ∃ outcome, exec hosts t.server op.1 op.2 = .ok (t'.server, outcome) ∧ t'.clock = op.1 := by
  rw [step] at executed
  cases ended : exec hosts t.server op.1 op.2 with
  | error fault =>
    rw [ended, error_bind] at executed
    cases executed
  | ok r =>
    rw [ended, ok_bind] at executed
    cases executed
    exact ⟨r.2, rfl, rfl⟩

section

variable (cooling : Cooling t)

include cooling

theorem step_effects (allowed : Allowed t op) (executed : step hosts t op = .ok t') :
    Effects t.server op.1 op.2 t'.server.mem ∧ t'.clock = op.1 := by
  obtain ⟨outcome, ended, clock⟩ := step_cases executed
  exact ⟨exec_effects cooling.holds allowed.2 ended, clock⟩

theorem cooling_step (allowed : Allowed t op) (cools : Cools t op)
    (executed : step hosts t op = .ok t') : Cooling t' := by
  obtain ⟨now, event⟩ := op
  obtain ⟨effects, clock⟩ := step_effects cooling allowed executed
  have later : t.clock ≤ now := allowed.1
  refine ⟨effects.holds, fun p member => ?_, fun p member marked => ?_⟩
  · cases effects.each p member with
    | kept old | declined _ _ old | renewed _ _ old | released _ _ old =>
      rw [old.ip]
      exact cooling.noZero p old.member
    | offered given => exact given
  · rw [clock]
    cases effects.each p member with
    | kept old mark tstamp =>
      rw [mark] at marked
      rw [tstamp]
      exact (cooling.bounded p old.member marked).trans (Nat.add_le_add_right later _)
    | offered _ mark =>
      rw [mark] at marked
      cases marked
    | declined pkt isDecline old accepts _ tstamp =>
      change event = _ at isDecline
      subst isDecline
      rw [tstamp]
      exact cools p old.member accepts
    | renewed pkt isRequest old accepts net known mark tstamp =>
      change event = _ at isRequest
      subst isRequest
      rw [mark] at marked
      rw [tstamp]
      exact Nat.add_le_add_left (cools p old.member accepts marked net known) now
    | released _ _ _ _ _ tstamp =>
      rw [tstamp]

theorem accepts_unique {pkt : Pkt} {p q : Ptr}
    (inside : p ∈ t.server.mem.live) (inside' : q ∈ t.server.mem.live)
    (accepts : Accepts t.server pkt p) (accepts' : Accepts t.server pkt q) : p = q := by
  obtain ⟨_, _, _, chained⟩ := cooling.holds
  exact chained.macUnique p inside q inside' (accepts.mac.trans accepts'.mac.symm)

theorem not_cooling_step (fails : ¬ Cools t op)
    (executed : step hosts t op = .ok t') : ¬ Cooling t' := by
  obtain ⟨now, event⟩ := op
  obtain ⟨outcome, ended, clock⟩ := step_cases executed
  intro cooling'
  refine fails ?_
  cases event with
  | decline pkt =>
    intro p inside accepts
    rcases decline_cases cooling.holds pkt with ⟨q, inside', accepts', done⟩ | ⟨nobody, -⟩
    · cases accepts_unique cooling inside inside' accepts accepts'
      have same : t'.server = t.server.setDeclined p :=
        congrArg Prod.fst (Except.ok.inj (ended.symm.trans done))
      have marked : t'.server.mem.declined p = true := by
        rw [same]
        exact update_self p true t.server.mem.declined
      have bounded := cooling'.bounded p (by rw [same]; exact inside) marked
      rw [clock, same] at bounded
      exact bounded
    · exact absurd accepts (nobody p inside)
  | request pkt =>
    intro p inside accepts marked net known
    rcases @request_cases t.server _ now cooling.holds pkt with
      ⟨q, inside', accepts', net', table, known', done, -⟩ | ⟨q, inside', accepts', unknown, -⟩ |
        ⟨nobody, -⟩
    · cases accepts_unique cooling inside inside' accepts accepts'
      cases known.symm.trans known'
      have same : t'.server = (t.server.setTid p 0).setMem (stored (t.server.setTid p 0).mem p
          (now + (leaseSeconds net).toNat) (leaseSeconds net) table) :=
        congrArg Prod.fst (Except.ok.inj (ended.symm.trans done))
      have bounded := cooling'.bounded p (by rw [same]; exact inside) (by rw [same]; exact marked)
      have tstamp : t'.server.mem.tstamp p = now + (leaseSeconds net).toNat := by
        rw [same]
        exact update_self p (now + (leaseSeconds net).toNat) t.server.mem.tstamp
      rw [tstamp, clock] at bounded
      exact Nat.le_of_add_le_add_left bounded
    · cases accepts_unique cooling inside inside' accepts accepts'
      rw [unknown] at known
      cases known
    · exact absurd accepts (nobody p inside)
  | discover | release | timeout | fileUpdate => trivial

theorem remembered_step {past : List (Nat × Event)}
    (allowed : Allowed t op) (cools : Cools t op) (prompt : Prompt t op)
    (remembered : Remembered past t) (executed : step hosts t op = .ok t') :
    Remembered (past ++ [op]) t' := by
  obtain ⟨now, event⟩ := op
  obtain ⟨effects, -⟩ := step_effects cooling allowed executed
  have last : (now, event) ∈ past ++ [(now, event)] := by simp
  intro p member marked
  cases effects.each p member with
  | kept old mark tstamp =>
    rw [mark] at marked
    obtain ⟨before, inside, given, bound⟩ := remembered p old.member marked
    exact ⟨before, List.mem_append_left _ inside, by rwa [old.mac], by rwa [tstamp]⟩
  | offered _ mark =>
    rw [mark] at marked
    cases marked
  | declined pkt isDecline old accepts _ tstamp =>
    change event = _ at isDecline
    subst isDecline
    refine ⟨_, last, ⟨pkt, .inl rfl, ?_⟩, ?_⟩
    · rw [old.mac, accepts.mac]
    · rw [tstamp]
      exact cools p old.member accepts
  | renewed pkt isRequest old accepts net known mark tstamp =>
    change event = _ at isRequest
    subst isRequest
    rw [mark] at marked
    obtain ⟨before, inside, given, bound⟩ := remembered p old.member marked
    refine ⟨before, List.mem_append_left _ inside, by rwa [old.mac], ?_⟩
    rw [tstamp]
    exact (prompt p old.member accepts marked net known).trans bound
  | released pkt isRelease old releases _ tstamp =>
    change event = _ at isRelease
    subst isRelease
    refine ⟨_, last, ⟨pkt, .inr rfl, ?_⟩, ?_⟩
    · rw [old.mac, releases.mac]
    · rw [tstamp]

theorem remembered_run {past ops : List (Nat × Event)}
    (along : Along (step hosts) (fun t op => Allowed t op ∧ Cools t op ∧ Prompt t op) ops t)
    (remembered : Remembered past t) (ran : run (step hosts) ops t = .ok t') :
    Remembered (past ++ ops) t' := by
  induction ops generalizing t past with
  | nil =>
    cases ran
    rwa [List.append_nil]
  | cons op ops ih =>
    obtain ⟨⟨allowed, cools, prompt⟩, later⟩ := along
    obtain ⟨next, executed, ran⟩ := bind_eq_ok ran
    have rest := ih (cooling_step cooling allowed cools executed) (later next executed)
      (remembered_step cooling allowed cools prompt remembered executed) ran
    rwa [List.append_assoc] at rest

theorem ignored_briefly {ops : List (Nat × Event)}
    (unmarked : ∀ p ∈ t.server.mem.live, t.server.mem.declined p = false)
    (along : Along (step hosts) (fun t op => Allowed t op ∧ Cools t op ∧ Prompt t op) ops t) :
    IgnoredBriefly hosts ops t := by
  rintro front now pkt pif block ⟨back, rfl⟩ t' ran p member mine marked
  have nothing : Remembered [] t := by
    intro q inside mark
    rw [unmarked q inside] at mark
    cases mark
  have alongFront := along.front
  obtain ⟨op, inside, given, bound⟩ := remembered_run cooling alongFront.front nothing ran p member
    marked
  rw [mine] at given
  exact ⟨op, inside, given, ((alongFront.last ran).2.2 p member mine marked).trans bound⟩

theorem step_ok (allowed : Allowed t op) :
    ∃ t', step hosts t op = .ok t' := by
  rcases @exec_spec hosts t.server _ op.1 cooling.holds _ allowed.2 with
    ⟨zero, -⟩ | ⟨s', outcome, -, ended, -⟩
  · exact absurd cooling.noZero zero
  · exact ⟨_, by rw [step, ended]; rfl⟩

end

end Runs

/-- In a run the marked leases last no longer than an offer exactly when every DECLINE is for a
lease that does, and no REQUEST renews a marked lease for longer; and then a client that gave
its lease back is ignored for no longer than that, where marked leases are gone in time. -/
theorem declined_cool_down (hosts : List Host) {t : Trace} (started : Started t)
    (ops : List (Nat × Event)) (allowed : Along (step hosts) Allowed ops t) :
    ((∀ front, front <+: ops → ∃ t', run (step hosts) front t = .ok t' ∧ Cooling t') ↔
      Along (step hosts) Cools ops t) ∧
    (Along (step hosts) (fun t op => Cools t op ∧ Prompt t op) ops t →
      IgnoredBriefly hosts ops t) := by
  have cooling : Cooling t := by
    refine ⟨started.holds, started.noZero, fun p member marked => ?_⟩
    rw [started.unmarked p member] at marked
    cases marked
  constructor
  · refine prefixes_iff (fun t op cooling allowed cools => ?_)
      (fun t op t' cooling _ fails executed => not_cooling_step cooling fails executed) allowed
      cooling
    obtain ⟨t', executed⟩ := @step_ok hosts t op cooling allowed
    exact ⟨t', executed, cooling_step cooling allowed cools executed⟩
  · exact fun along => ignored_briefly cooling started.unmarked (allowed.and along)

/-- The process with one network and no lease. -/
def emptyTrace : Trace := ⟨⟨initial [], [demoNetwork]⟩, 0, [], []⟩

theorem started_empty : Started emptyTrace :=
  ⟨holds_initial [], fun _ member => absurd member List.not_mem_nil,
    fun _ member => absurd member List.not_mem_nil⟩

section Decisions

instance (s : Server) (pkt : Pkt) (p : Ptr) : Decidable (Accepts s pkt p) :=
  decidable_of_iff (requestedAddress pkt ≠ 0 ∧ s.mem.ip p = requestedAddress pkt ∧
    s.mem.mac p = pkt.chaddr ∧ (s.mem.tid p = 0 ∨ s.mem.tid p = pkt.tid))
    ⟨fun h => ⟨h.1, h.2.1, h.2.2.1, h.2.2.2⟩, fun h => ⟨h.given, h.ip, h.mac, h.tid⟩⟩

instance decidableCools (t : Trace) : (op : Nat × Event) → Decidable (Cools t op)
  | (now, .decline pkt) => inferInstanceAs (Decidable (∀ p ∈ t.server.mem.live,
      Accepts t.server pkt p → t.server.mem.tstamp p ≤ now + offerLeaseTime))
  | (_, .request pkt) => inferInstanceAs (Decidable (∀ p ∈ t.server.mem.live,
      Accepts t.server pkt p → t.server.mem.declined p = true → ∀ net ∈ networkOf t.server p,
        (leaseSeconds net).toNat ≤ offerLeaseTime))
  | (_, .discover ..) | (_, .release _) | (_, .timeout) | (_, .fileUpdate) => .isTrue trivial

instance decidablePrompt (t : Trace) : (op : Nat × Event) → Decidable (Prompt t op)
  | (now, .discover pkt _ _) => inferInstanceAs (Decidable (∀ p ∈ t.server.mem.live,
      t.server.mem.mac p = pkt.chaddr → t.server.mem.declined p = true →
        now ≤ t.server.mem.tstamp p))
  | (now, .request pkt) => inferInstanceAs (Decidable (∀ p ∈ t.server.mem.live,
      Accepts t.server pkt p → t.server.mem.declined p = true → ∀ net ∈ networkOf t.server p,
        now + (leaseSeconds net).toNat ≤ t.server.mem.tstamp p))
  | (_, .decline _) | (_, .release _) | (_, .timeout) | (_, .fileUpdate) => .isTrue trivial

end Decisions

/-- A client gives an offer back, and is ignored. -/
def declinedOffer : List (Nat × Event) :=
  [(100, .discover (demoDiscover 1) demoInterface (some 7)),
    (105, .decline { demoDiscover 1 with requestedIp := 0x0a00000a }),
    (110, .discover (demoDiscover 1) demoInterface none)]

theorem declinedOffer_brief : IgnoredBriefly [] declinedOffer emptyTrace :=
  (declined_cool_down [] started_empty declinedOffer (by decide +kernel)).2 (by decide +kernel)

/-- A client gives an address back that it was assigned for a day. -/
def declinedLease : List (Nat × Event) :=
  [(100, .discover (demoDiscover 1) demoInterface (some 7)),
    (105, .request { demoDiscover 1 with requestedIp := 0x0a00000a }),
    (110, .decline { demoDiscover 1 with requestedIp := 0x0a00000a })]

/-- The client is ignored for the rest of the day. -/
theorem declinedLease_locked :
    ¬ ∀ (hosts : List Host) (t : Trace), Started t → ∀ ops : List (Nat × Event),
      Along (step hosts) Allowed ops t →
        ∀ front, front <+: ops → ∃ t', run (step hosts) front t = .ok t' ∧ Cooling t' := by
  intro all
  obtain ⟨t', ran, cooling⟩ := all [] emptyTrace started_empty declinedLease (by decide +kernel)
    declinedLease List.prefix_rfl
  have seen : (run (step []) declinedLease emptyTrace).map (fun t =>
      (t.server.mem.live, t.server.mem.declined 7, t.server.mem.tstamp 7, t.clock)) =
      .ok ([7], true, 86505, 110) := by decide +kernel
  rw [ran] at seen
  have fields := Except.ok.inj seen
  simp only [Prod.mk.injEq] at fields
  obtain ⟨live, marked, tstamp, clock⟩ := fields
  have bounded := cooling.bounded 7 (by rw [live]; exact List.mem_cons_self) marked
  rw [tstamp, clock] at bounded
  exact absurd bounded (by decide)

end DeclinedLeases
