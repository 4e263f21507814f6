import Rcp100.FaultRuns
import Rcp100.Mux
import Rcp100.SlotTickets

/-!
# Replies of the workers

The sessions of the multiplexer over time. A worker keeps the commands that it was sent and
answers them in any order, or never. The return path of a command is the number of a slot; the
reply goes to the session that has the slot by then.
-/

namespace MuxReplies

open Mux SlotTickets FaultRuns

section System

/-- A command that a worker holds: the connection of the worker, the packet as it was
forwarded, and who asked. -/
structure Task where
  worker : Nat
  pkt : RcpPkt
  asker : Ticket

/-- The table, with the number of the next connection and how many sessions each slot has had. -/
structure System where
  mux : List MuxSession
  next : Nat
  accepted : Nat → Nat
  tasks : List Task

def start : System where
  mux := List.replicate maxSessions cleanMux
  next := 0
  accepted := fun _ => 0
  tasks := []

/-- The connection of the session in a slot. -/
def occupant (mux : List MuxSession) (i : Nat) : Option Nat := mux[i]?.bind (·.socket)

inductive Event where
  | accepted
  /-- a packet on the connection of a session, other than a worker's answer -/
  | received (i : Nat) (pkt : RcpPkt) (data : List Byte)
  /-- the answer to one of the commands that are held -/
  | answered (n : Nat)
  | closed (i : Nat)

/-- A connection that is dropped gets no number. -/
def acceptSession (s : System) : System :=
  match freeSession s.mux with
  | none => s
  | some i =>
    { s with
      mux := accept s.mux s.next
      next := s.next + 1
      accepted := Function.update s.accepted i (s.accepted i + 1) }

/-- A packet from the session in slot `i`. A command that finds a worker is held by it. -/
def process (s : System) (i : Nat) (pkt : RcpPkt) (data : List Byte) : Except Fault System :=
  match dispatch s.mux i pkt data with
  | .error e => .error e
  | .ok (mux, .command forwarded (some j)) =>
    match occupant mux i, occupant mux j with
    | some asker, some worker =>
      .ok { s with
        mux := mux
        tasks := s.tasks ++ [⟨worker, forwarded, ⟨asker, i, s.accepted i⟩⟩] }
    | _, _ => .ok { s with mux := mux }
  | .ok (mux, _) => .ok { s with mux := mux }

/-- A worker sends the packet back, with the sender and the destination exchanged. -/
def reply (pkt : RcpPkt) : RcpPkt :=
  { pkt with destination := pkt.sender, sender := pkt.destination }

/-- The command, and the slot of the worker that answers it. -/
def answering (s : System) (n : Nat) : Option (Nat × Task) := do
  let task ← s.tasks[n]?
  let k ← s.mux.findIdx? (·.socket = some task.worker)
  return (k, task)

def step (s : System) : Event → Except Fault System
  | .accepted => .ok (acceptSession s)
  | .received i pkt data =>
    if (occupant s.mux i).isSome then process s i pkt data else .ok s
  | .answered n =>
    match answering s n with
    | none => .ok s
    | some (k, task) => process { s with tasks := s.tasks.eraseIdx n } k (reply task.pkt) []
  | .closed i => .ok { s with mux := closeSession s.mux i }

end System

section Replies

/-- A reply is sent to the session that asked, as long as it is connected, and to no other. -/
def Right (s : System) : Event → Prop
  | .answered n => ∀ k task mux slot, answering s n = some (k, task) →
      dispatch s.mux k (reply task.pkt) [] = .ok (mux, .response slot) →
      (∀ c, occupant mux slot = some c → c = task.asker.holder) ∧
        ((∃ i, occupant mux i = some task.asker.holder) →
          occupant mux slot = some task.asker.holder)
  | _ => True

/-- The slot of the session that asked is free, or no session was accepted into it since, when
its answer comes from another process than a command line. -/
def Untaken (s : System) : Event → Prop
  | .answered n => ∀ k task, answering s n = some (k, task) →
      task.pkt.destination ≠ rcpProcCli →
      occupant s.mux task.asker.slot = none ∨ s.accepted task.asker.slot = task.asker.count
  | _ => True

end Replies

section Occupants

variable {mux mux' : List MuxSession} {i : Nat} {pkt : RcpPkt} {data : List Byte}
  {session session' : MuxSession}

theorem occupant_set (inside : i < mux.length) :
    occupant (mux.set i session) = Function.update (occupant mux) i session.socket := by
  funext j
  by_cases here : j = i
  · subst here
    rw [Function.update_self, occupant, List.getElem?_set_self inside, Option.bind_some]
  · rw [Function.update_of_ne here, occupant, List.getElem?_set_ne (Ne.symm here), occupant]

theorem occupant_outside (outside : ¬ i < mux.length) : occupant mux i = none := by
  rw [occupant, List.getElem?_eq_none (Nat.le_of_not_lt outside), Option.bind_none]

theorem occupant_closeSession (mux : List MuxSession) (i : Nat) :
    occupant (closeSession mux i) = Function.update (occupant mux) i none := by
  by_cases inside : i < mux.length
  · exact occupant_set inside
  · rw [closeSession, List.set_eq_of_length_le (Nat.le_of_not_lt inside),
      ← occupant_outside inside, Function.update_eq_self]

theorem freeSession_some (found : freeSession mux = some i) :
    i < mux.length ∧ occupant mux i = none := by
  rw [freeSession, List.findIdx?_eq_some_iff_getElem] at found
  obtain ⟨inside, free, -⟩ := found
  refine ⟨inside, ?_⟩
  rw [occupant, List.getElem?_eq_getElem inside, Option.bind_some]
  exact Option.isNone_iff_eq_none.mp free

theorem register_socket (registered : register session pkt data = .ok session') :
    session'.socket = session.socket := by
  rw [register] at registered
  split_ifs at registered with cli
  · cases first : copyName data pkt.offsetTty cliMaxTtyName session.ttyname with
    | error e =>
      rw [first] at registered
      cases registered
    | ok ttyname =>
      cases second : copyName data pkt.offsetAdmin cliMaxAdminName session.admin with
      | error e =>
        simp only [first, second, bind, Except.bind] at registered
        cases registered
      | ok admin =>
        cases third : copyName data pkt.offsetIp cliMaxIpName session.ip with
        | error e =>
          simp only [first, second, third, bind, Except.bind] at registered
          cases registered
        | ok ip =>
          simp only [first, second, third, bind, Except.bind] at registered
          cases registered
          rfl
  · cases registered
    rfl

/-- What the loop does with a packet: a registration changes the table, a command is passed on
with the index of the session, a response goes to the session that it names. -/
inductive Dispatched (mux : List MuxSession) (i : Nat) (pkt : RcpPkt) (data : List Byte) :
    List MuxSession → Action → Prop
  | registered (session : MuxSession)
      (ran : register (mux.getD i cleanMux) pkt data = .ok session) :
      Dispatched mux i pkt data (mux.set i session) .registered
  | command (isCli : pkt.type = typeCli) (fromCli : pkt.sender = rcpProcCli)
      (notServices : pkt.destination ≠ rcpProcServices) :
      Dispatched mux i pkt data mux (.command { pkt with returnPath := BitVec.ofNat 32 i }
        (getMuxProcess mux pkt.destination))
  | response (notCli : pkt.sender ≠ rcpProcCli) :
      Dispatched mux i pkt data mux (.response pkt.returnPath.toNat)
  | other (action : Action) (noCommand : ∀ forwarded target, action ≠ .command forwarded target)
      (noResponse : ∀ slot, action ≠ .response slot) : Dispatched mux i pkt data mux action

theorem dispatch_cases {action : Action} (ran : dispatch mux i pkt data = .ok (mux', action)) :
    Dispatched mux i pkt data mux' action := by
  have settled : ∀ other : Action, (∀ forwarded target, other ≠ .command forwarded target) →
      (∀ slot, other ≠ .response slot) →
        (Except.ok (mux, other) : Except Fault _) = .ok (mux', action) →
          Dispatched mux i pkt data mux' action := by
    intro other noCommand noResponse same
    cases same
    exact .other _ noCommand noResponse
  rw [dispatch] at ran
  by_cases sys : pkt.type = typeUpdatesys
  · rw [if_pos sys] at ran
    exact settled _ (by simp) (by simp) ran
  rw [if_neg sys] at ran
  by_cases dns : pkt.type = typeUpdatedns
  · rw [if_pos dns] at ran
    exact settled _ (by simp) (by simp) ran
  rw [if_neg dns] at ran
  by_cases http : pkt.type = typeHttpAuth ∧ pkt.destination = rcpProcServices
  · rw [if_pos http] at ran
    exact settled _ (by simp) (by simp) ran
  rw [if_neg http] at ran
  by_cases own : pkt.type = typeCli ∧ pkt.destination = rcpProcServices
  · rw [if_pos own] at ran
    exact settled _ (by simp) (by simp) ran
  rw [if_neg own] at ran
  by_cases registration : pkt.type = typeRegistration ∧ pkt.destination = rcpProcServices
  · rw [if_pos registration] at ran
    cases registered : register (mux.getD i cleanMux) pkt data with
    | error e =>
      rw [registered] at ran
      cases ran
    | ok session =>
      rw [registered] at ran
      cases ran
      exact .registered session registered
  rw [if_neg registration] at ran
  by_cases command : pkt.type = typeCli ∧ pkt.sender = rcpProcCli
  · rw [if_pos command] at ran
    cases ran
    exact .command command.1 command.2 fun same => own ⟨command.1, same⟩
  rw [if_neg command] at ran
  by_cases response : pkt.type = typeCli ∧ pkt.destination = rcpProcCli
  · rw [if_pos response] at ran
    by_cases inside : pkt.returnPath.toNat < maxSessions
    · rw [if_pos inside] at ran
      cases ran
      exact .response fun sender => command ⟨response.1, sender⟩
    · rw [if_neg inside] at ran
      cases ran
  rw [if_neg response] at ran
  by_cases log : pkt.type = typeLog ∧ pkt.destination = rcpProcServices
  · rw [if_pos log] at ran
    exact settled _ (by simp) (by simp) ran
  · rw [if_neg log] at ran
    exact settled _ (by simp) (by simp) ran

theorem dispatch_occupant {action : Action}
    (ran : dispatch mux i pkt data = .ok (mux', action)) :
    occupant mux' = occupant mux ∧ mux'.length = mux.length := by
  cases dispatch_cases ran with
  | registered session registered =>
    refine ⟨?_, List.length_set ..⟩
    by_cases inside : i < mux.length
    · have same := register_socket registered
      rw [List.getD_eq_getElem?_getD, List.getElem?_eq_getElem inside, Option.getD_some] at same
      rw [occupant_set inside, same]
      refine Function.update_eq_self_iff.mpr ?_
      rw [occupant, List.getElem?_eq_getElem inside, Option.bind_some]
    · rw [List.set_eq_of_length_le (Nat.le_of_not_lt inside)]
  | command => exact ⟨rfl, rfl⟩
  | response => exact ⟨rfl, rfl⟩
  | other => exact ⟨rfl, rfl⟩

theorem dispatch_command {forwarded : RcpPkt} {target : Option Nat}
    (ran : dispatch mux i pkt data = .ok (mux', .command forwarded target)) :
    forwarded = { pkt with returnPath := BitVec.ofNat 32 i } ∧ pkt.type = typeCli ∧
      pkt.sender = rcpProcCli ∧ pkt.destination ≠ rcpProcServices := by
  cases dispatch_cases ran with
  | command isCli fromCli notServices => exact ⟨rfl, isCli, fromCli, notServices⟩
  | other _ noCommand _ => exact absurd rfl (noCommand _ _)

theorem dispatch_response {slot : Nat}
    (ran : dispatch mux i pkt data = .ok (mux', .response slot)) : pkt.sender ≠ rcpProcCli := by
  cases dispatch_cases ran with
  | response notCli => exact notCli
  | other _ _ noResponse => exact absurd rfl (noResponse _)

theorem dispatch_reply {k : Nat} (isCli : pkt.type = typeCli) (fromCli : pkt.sender = rcpProcCli)
    (notCli : pkt.destination ≠ rcpProcCli) (inside : pkt.returnPath.toNat < maxSessions) :
    dispatch mux k (reply pkt) [] = .ok (mux, .response pkt.returnPath.toNat) := by
  have type : (reply pkt).type = typeCli := isCli
  have destination : (reply pkt).destination = rcpProcCli := fromCli
  rw [dispatch, type, destination, if_neg (by decide), if_neg (by decide), if_neg (by decide),
    if_neg (by decide), if_neg (by decide), if_neg (fun same => notCli same.2),
    if_pos ⟨rfl, rfl⟩]
  exact if_pos inside

end Occupants

section Invariant

/-- What the tickets are about. -/
def slots (s : System) : Slots := ⟨occupant s.mux, s.accepted, s.next⟩

structure TaskOk (s : System) (t : Task) : Prop where
  valid : Valid (slots s) t.asker
  isCli : t.pkt.type = typeCli
  fromCli : t.pkt.sender = rcpProcCli
  notServices : t.pkt.destination ≠ rcpProcServices
  path : t.pkt.returnPath.toNat = t.asker.slot
  inside : t.asker.slot < maxSessions

structure Inv (s : System) : Prop where
  sound : Sound (slots s)
  length : s.mux.length = maxSessions
  tasks : ∀ t ∈ s.tasks, TaskOk s t

variable {s s' : System} {i : Nat} {pkt : RcpPkt} {data : List Byte}

theorem TaskOk.congr {t : Task} (ok : TaskOk s t) (valid : Valid (slots s') t.asker) :
    TaskOk s' t :=
  { ok with valid := valid }

theorem slots_acceptSession (found : freeSession s.mux = some i) :
    slots (acceptSession s) = (slots s).enter i ∧
      (acceptSession s).mux.length = s.mux.length ∧ (acceptSession s).tasks = s.tasks := by
  obtain ⟨inside, -⟩ := freeSession_some found
  have table : accept s.mux s.next = s.mux.set i { cleanMux with socket := some s.next } := by
    rw [accept, found]
  rw [acceptSession, found]
  refine ⟨?_, ?_, rfl⟩
  · simp only [slots, Slots.enter]
    rw [table, occupant_set inside]
  · change (accept s.mux s.next).length = _
    rw [table, List.length_set]

theorem Inv.acceptSession (inv : Inv s) : Inv (acceptSession s) := by
  cases found : freeSession s.mux with
  | none =>
    rw [MuxReplies.acceptSession, found]
    exact inv
  | some i =>
    obtain ⟨entered, length, tasks⟩ := slots_acceptSession found
    have free := (freeSession_some found).2
    refine ⟨?_, length.trans inv.length, fun t member => ?_⟩
    · rw [entered]
      exact inv.sound.enter free
    · rw [tasks] at member
      refine (inv.tasks t member).congr ?_
      rw [entered]
      exact (inv.tasks t member).valid.enter free

theorem Inv.close (inv : Inv s) (i : Nat) : Inv { s with mux := closeSession s.mux i } := by
  have left : slots { s with mux := closeSession s.mux i } = (slots s).leave i := by
    rw [slots, Slots.leave, occupant_closeSession]
    rfl
  refine ⟨?_, (List.length_set ..).trans inv.length, fun t member => ?_⟩
  · rw [left]
    exact inv.sound.leave i
  · refine (inv.tasks t member).congr ?_
    rw [left]
    exact (inv.tasks t member).valid.leave i

theorem Inv.table (inv : Inv s) {mux : List MuxSession}
    (same : occupant mux = occupant s.mux ∧ mux.length = s.mux.length) :
    Inv { s with mux := mux } := by
  have slotsSame : slots { s with mux := mux } = slots s := by
    rw [slots, same.1]
    rfl
  refine ⟨?_, same.2.trans inv.length, fun t member => ?_⟩
  · rw [slotsSame]
    exact inv.sound
  · refine (inv.tasks t member).congr ?_
    rw [slotsSame]
    exact (inv.tasks t member).valid

theorem Inv.process (inv : Inv s) (ran : process s i pkt data = .ok s') : Inv s' := by
  rw [MuxReplies.process] at ran
  cases dispatched : dispatch s.mux i pkt data with
  | error e =>
    rw [dispatched] at ran
    cases ran
  | ok r =>
    obtain ⟨mux, action⟩ := r
    rw [dispatched] at ran
    have same := dispatch_occupant dispatched
    have table := inv.table same
    rcases holding : action with _ | _ | _ | _ | _ | ⟨forwarded, target⟩ | _ | _ | _
    case command =>
      rw [holding] at dispatched ran
      cases target with
      | none =>
        cases ran
        exact table
      | some j =>
        simp only at ran
        cases asking : occupant mux i with
        | none =>
          simp only [asking] at ran
          cases ran
          exact table
        | some asker =>
          cases working : occupant mux j with
          | none =>
            simp only [asking, working] at ran
            cases ran
            exact table
          | some worker =>
            simp only [asking, working] at ran
            cases ran
            refine ⟨table.sound, table.length, fun t member => ?_⟩
            rcases List.mem_append.mp member with old | new
            · exact (table.tasks t old).congr (table.tasks t old).valid
            · rw [List.mem_singleton.mp new]
              obtain ⟨rfl, isCli, fromCli, notServices⟩ := dispatch_command dispatched
              have inside : i < maxSessions := by
                rw [← table.length]
                by_contra outside
                rw [occupant_outside outside] at asking
                cases asking
              refine ⟨valid_issue table.sound asking, isCli, fromCli, notServices, ?_, inside⟩
              exact Nat.mod_eq_of_lt (Nat.lt_trans inside (by decide))
    all_goals
      rw [holding] at ran
      cases ran
      exact table

theorem Inv.step {e : Event} (inv : Inv s) (ran : step s e = .ok s') : Inv s' := by
  cases e with
  | accepted =>
    cases ran
    exact inv.acceptSession
  | received i pkt data =>
    rw [MuxReplies.step] at ran
    split_ifs at ran
    · exact inv.process ran
    · cases ran
      exact inv
  | answered n =>
    rw [MuxReplies.step] at ran
    cases found : answering s n with
    | none =>
      rw [found] at ran
      cases ran
      exact inv
    | some r =>
      rw [found] at ran
      have fewer : Inv { s with tasks := s.tasks.eraseIdx n } :=
        ⟨inv.sound, inv.length, fun t member =>
          (inv.tasks t (List.mem_of_mem_eraseIdx member)).congr
            (inv.tasks t (List.mem_of_mem_eraseIdx member)).valid⟩
      exact fewer.process ran
  | closed i =>
    cases ran
    exact inv.close i

theorem inv_start : Inv start := by
  have nobody : ∀ i, occupant start.mux i = none := by
    intro i
    rw [occupant, start, List.getElem?_replicate]
    split_ifs <;> rfl
  refine ⟨⟨fun i a held => ?_, fun i j a held => ?_⟩, List.length_replicate, ?_⟩
  · rw [show (slots start).occupant i = none from nobody i] at held
    cases held
  · rw [show (slots start).occupant i = none from nobody i] at held
    cases held
  · intro t member
    cases member

theorem answering_ok (inv : Inv s) {n k : Nat} {task : Task}
    (found : answering s n = some (k, task)) : TaskOk s task := by
  obtain ⟨t, held, rest⟩ := Option.bind_eq_some_iff.mp found
  obtain ⟨j, place, same⟩ := Option.bind_eq_some_iff.mp rest
  cases same
  exact inv.tasks task (List.mem_of_getElem? held)

theorem Inv.right_iff (inv : Inv s) (e : Event) : Right s e ↔ Untaken s e := by
  cases e with
  | answered n =>
    refine forall_congr' fun k => forall_congr' fun task => ?_
    have sent : answering s n = some (k, task) → task.pkt.destination ≠ rcpProcCli →
        dispatch s.mux k (reply task.pkt) [] = .ok (s.mux, .response task.asker.slot) := by
      intro found notCli
      have ok := answering_ok inv found
      rw [← ok.path]
      exact dispatch_reply ok.isCli ok.fromCli notCli
        (by rw [ok.path]; exact ok.inside)
    constructor
    · intro right found notCli
      exact (answering_ok inv found).valid.returns_iff.mp (right s.mux _ found (sent found notCli))
    · intro untaken mux slot found dispatched
      have notCli : task.pkt.destination ≠ rcpProcCli := dispatch_response dispatched
      rw [sent found notCli] at dispatched
      cases dispatched
      exact (answering_ok inv found).valid.returns_iff.mpr (untaken found notCli)
  | accepted => exact Iff.rfl
  | received i pkt data => exact Iff.rfl
  | closed i => exact Iff.rfl

/-- Over every run, all replies go to the sessions that asked exactly when no slot is taken
by another session before its answer comes. -/
theorem replies_iff (events : List Event) :
    Along step Right events start ↔ Along step Untaken events start := by
  have inv := inv_start
  generalize start = s at inv
  induction events generalizing s with
  | nil => exact Iff.rfl
  | cons e events ih =>
    refine and_congr (inv.right_iff e) (forall_congr' fun s' => forall_congr' fun ran => ?_)
    exact ih s' (inv.step ran)

end Invariant

section Takeover

def registerRip : RcpPkt := ⟨typeRegistration, rcpProcServices, 16, 0, 0, 0, 0, 0⟩

def askRip : RcpPkt := ⟨typeCli, 16, rcpProcCli, 0, 0, 0, 0, 0⟩

/-- RIP registers, a session asks it and leaves, another session comes, and RIP answers. -/
def takeover : List Event :=
  [.accepted, .received 0 registerRip [], .accepted, .received 1 askRip [], .closed 1, .accepted,
    .answered 0]

theorem reply_misdirected : ¬ Along step Right takeover start := by
  intro along
  have right := ((((((along.2 _ rfl).2 _ rfl).2 _ rfl).2 _ rfl).2 _ rfl).2 _ rfl).1
  have other := (right 0 _ _ 1 rfl rfl).1 2 rfl
  exact absurd other (by decide)

end Takeover

end MuxReplies
