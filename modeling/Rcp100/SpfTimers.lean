import Mathlib.Data.List.Basic

/-!
# When the routes are calculated

A change of the database asks for a calculation, which waits for the delay, so that it serves
the changes that follow, and for the hold time of the calculation before it.
-/

namespace SpfTimers

/-- The command `timers spf` takes no delay of zero. -/
structure Config where
  delay : Nat
  hold : Nat
  delay_pos : 0 < delay

structure Timers where
  timeout : Nat
  timeoutHold : Nat
  config : Config

/-- What asks for a calculation. -/
inductive Request where
  | trigger
  | triggerNow
  deriving DecidableEq

/-- `spfTrigger` and `spfTriggerNow`. -/
def spfTrigger (s : Timers) : Request → Timers
  | .trigger => if s.timeout = 0 then { s with timeout := s.config.delay } else s
  | .triggerNow => { s with timeout := 1, timeoutHold := 0 }

/-- `spfTimeout` behind the hold timer, and whether `calculate_spf` runs; `requests` are those
that the calculation itself makes. -/
def countDown (requests : List Request) (s : Timers) : Timers × Bool :=
  match s.timeout with
  | 0 => (s, false)
  | 1 =>
    ({ requests.foldl spfTrigger { s with timeout := 0 } with timeoutHold := s.config.hold }, true)
  | n + 2 => ({ s with timeout := n + 1 }, false)

def spfTimeout (requests : List Request) (s : Timers) : Timers × Bool :=
  match s.timeoutHold with
  | 0 => countDown requests s
  | 1 => countDown requests { s with timeoutHold := 0 }
  | n + 2 => ({ s with timeoutHold := n + 1 }, false)

/-- `cliTimersSpf` may change the configuration at any time. -/
inductive Event where
  | request (r : Request)
  | timersSpf (config : Config)
  | second (requests : List Request)

def step (s : Timers) : Event → Timers
  | .request r => spfTrigger s r
  | .timersSpf config => { s with config := config }
  | .second requests => (spfTimeout requests s).1

def calculates (s : Timers) : Event → Bool
  | .second requests => (spfTimeout requests s).2
  | _ => false

def run (s : Timers) (events : List Event) : Timers := events.foldl step s

/-- The seconds that pass. -/
def seconds : List Event → Nat
  | [] => 0
  | .second _ :: rest => seconds rest + 1
  | _ :: rest => seconds rest

/-- The seconds to the calculation that is asked for. -/
def wait (s : Timers) : Nat := s.timeout + (s.timeoutHold - 1)

theorem second_cases (requests : List Request) (s : Timers) :
    (spfTimeout requests s).2 = true ∧ s.timeout = 1 ∧ s.timeoutHold ≤ 1 ∧
        (spfTimeout requests s).1.timeoutHold = s.config.hold ∨
      (spfTimeout requests s).2 = false ∧ wait (spfTimeout requests s).1 = wait s - 1 ∧
        (spfTimeout requests s).1.timeoutHold = s.timeoutHold - 1 ∧
        (0 < s.timeout → 0 < (spfTimeout requests s).1.timeout) := by
  obtain ⟨timeout, timeoutHold, config⟩ := s
  rcases timeoutHold with _ | _ | held
  · rcases timeout with _ | _ | n
    · exact .inr ⟨rfl, rfl, rfl, id⟩
    · exact .inl ⟨rfl, rfl, Nat.zero_le _, rfl⟩
    · exact .inr ⟨rfl, rfl, rfl, fun _ => Nat.succ_pos n⟩
  · rcases timeout with _ | _ | n
    · exact .inr ⟨rfl, rfl, rfl, id⟩
    · exact .inl ⟨rfl, rfl, Nat.le_refl _, rfl⟩
    · exact .inr ⟨rfl, rfl, rfl, fun _ => Nat.succ_pos n⟩
  · exact .inr ⟨rfl, rfl, rfl, id⟩

theorem pending_request (s : Timers) (r : Request) : 0 < (spfTrigger s r).timeout := by
  cases r with
  | trigger =>
    rw [spfTrigger]
    split
    · exact s.config.delay_pos
    · exact Nat.pos_of_ne_zero ‹_›
  | triggerNow => exact Nat.one_pos

theorem wait_request {s : Timers} (pending : 0 < s.timeout) (r : Request) :
    wait (spfTrigger s r) ≤ wait s := by
  cases r with
  | trigger => exact Nat.le_of_eq (congrArg wait (if_neg (Nat.ne_of_gt pending)))
  | triggerNow => exact Nat.le_trans pending (Nat.le_add_right _ _)

theorem pending_answered {s : Timers} (pending : 0 < s.timeout) (events : List Event) :
    seconds events < wait s ∨ ∃ front requests back,
      events = front ++ .second requests :: back ∧
        calculates (run s front) (.second requests) = true ∧ seconds front < wait s := by
  induction events generalizing s with
  | nil => exact .inl (Nat.lt_of_lt_of_le pending (Nat.le_add_right _ _))
  | cons e rest ih =>
    have later : ∀ extra, 0 < (step s e).timeout → wait (step s e) + extra ≤ wait s →
        (∀ l, seconds (e :: l) = seconds l + extra) → seconds (e :: rest) < wait s ∨
          ∃ front requests back, e :: rest = front ++ .second requests :: back ∧
            calculates (run s front) (.second requests) = true ∧ seconds front < wait s := by
      intro extra still nearer counts
      rcases ih still with few | ⟨front, requests, back, rfl, calc', bound⟩
      · rw [counts]
        exact .inl (by omega)
      · refine .inr ⟨e :: front, requests, back, rfl, calc', ?_⟩
        rw [counts]
        omega
    cases e with
    | request r => exact later 0 (pending_request s r) (wait_request pending r) fun _ => rfl
    | timersSpf config => exact later 0 pending (Nat.le_refl _) fun _ => rfl
    | second requests =>
      rcases second_cases requests s with ⟨now, one, _⟩ | ⟨_, nearer, _, still⟩
      · refine .inr ⟨[], requests, rest, rfl, now, ?_⟩
        simp only [seconds, wait]
        omega
      · refine later 1 (still pending) ?_ fun _ => rfl
        rw [step, nearer]
        simp only [wait]
        omega

/-- However the daemon came to its timers, what is asked for is calculated when the delay and the
rest of the hold time have passed. -/
theorem request_answered (s : Timers) (r : Request) (events : List Event) :
    seconds events < wait (spfTrigger s r) ∨ ∃ front requests back,
      events = front ++ .second requests :: back ∧
        calculates (run (spfTrigger s r) front) (.second requests) = true ∧
        seconds front < wait (spfTrigger s r) :=
  pending_answered (pending_request s r) events

theorem hold_run {s : Timers} {events : List Event}
    (ordinary : ∀ e ∈ events, e ≠ .request .triggerNow) :
    s.timeoutHold ≤ (run s events).timeoutHold + seconds events := by
  induction events generalizing s with
  | nil => exact Nat.le_refl _
  | cons e rest ih =>
    have later := ih (s := step s e) fun e he => ordinary e (List.mem_cons_of_mem _ he)
    have unfolded : run s (e :: rest) = run (step s e) rest := rfl
    rw [unfolded]
    cases e with
    | request r =>
      cases r with
      | trigger =>
        have same : (step s (.request .trigger)).timeoutHold = s.timeoutHold := by
          rw [step, spfTrigger]
          split <;> rfl
        rw [same] at later
        exact later
      | triggerNow => exact absurd rfl (ordinary _ List.mem_cons_self)
    | timersSpf config => exact later
    | second requests =>
      have counts : seconds (.second requests :: rest) = seconds rest + 1 := rfl
      rw [step] at later ⊢
      rcases second_cases requests s with ⟨_, _, low, _⟩ | ⟨_, _, less, _⟩
      · omega
      · omega

/-- Unless `spfTriggerNow` is called, a calculation follows another one after the hold time. -/
theorem calculations_apart (s : Timers) (first second : List Request) (events : List Event)
    (ordinary : ∀ e ∈ events, e ≠ .request .triggerNow)
    (before : calculates s (.second first) = true)
    (after : calculates (run (step s (.second first)) events) (.second second) = true) :
    s.config.hold ≤ seconds events + 1 := by
  have kept := hold_run (s := step s (.second first)) ordinary
  have low : (run (step s (.second first)) events).timeoutHold ≤ 1 := by
    rcases second_cases second (run (step s (.second first)) events) with
      ⟨_, _, low, _⟩ | ⟨idle, _⟩
    · exact low
    · rw [calculates, idle] at after
      cases after
  have held : (step s (.second first)).timeoutHold = s.config.hold := by
    rcases second_cases first s with ⟨_, _, _, held⟩ | ⟨idle, _⟩
    · exact held
    · rw [calculates, idle] at before
      cases before
  omega

theorem calculations_apart_default :
    4 ≤ seconds [.second [], .request .trigger, .second [], .second []] + 1 :=
  calculations_apart ⟨1, 0, ⟨1, 4, by decide⟩⟩ [] [] _ (by simp) (by decide) (by decide)

end SpfTimers
