import Rcp100.ChainTable

/-!
# Runs that can fail

A step takes a state and an operation to a state, or fails. What may be asked of every
operation of a run is a condition on it and on the state it meets.
-/

namespace FaultRuns

open ChainTable

variable {S O E : Type} (step : S → O → Except E S)

def run (ops : List O) (s : S) : Except E S := ops.foldlM step s

/-- The condition holds before every step of the run. -/
def Along (P : S → O → Prop) : List O → S → Prop
  | [], _ => True
  | op :: ops, s => P s op ∧ ∀ s', step s op = .ok s' → Along P ops s'

instance decidableAlong {P : S → O → Prop} [∀ s op, Decidable (P s op)] :
    ∀ ops s, Decidable (Along step P ops s)
  | [], _ => .isTrue trivial
  | op :: ops, s =>
    match ran : step s op with
    | .ok s' =>
      have := decidableAlong (P := P) ops s'
      decidable_of_iff (P s op ∧ Along step P ops s') (by
        rw [Along, ran]
        exact and_congr_right fun _ => ⟨fun h t same => Except.ok.inj same ▸ h, fun h => h s' rfl⟩)
    | .error _ => decidable_of_iff (P s op) (by
        rw [Along, ran]
        exact ⟨fun h => ⟨h, fun _ impossible => by cases impossible⟩, fun h => h.1⟩)

variable {step} {P : S → O → Prop} {I : S → Prop}

theorem run_nil (s : S) : run step [] s = .ok s := rfl

theorem run_cons (op : O) (ops : List O) (s : S) :
    run step (op :: ops) s = step s op >>= run step ops := rfl

variable {Q A : S → O → Prop} {ops : List O} {s : S}

theorem Along.and (first : Along step P ops s)
    (second : Along step Q ops s) : Along step (fun s op => P s op ∧ Q s op) ops s := by
  induction ops generalizing s with
  | nil => trivial
  | cons op ops ih =>
    exact ⟨⟨first.1, second.1⟩, fun s' ran => ih (first.2 s' ran) (second.2 s' ran)⟩

theorem Along.mono (weaker : ∀ s op, P s op → Q s op)
    (along : Along step P ops s) : Along step Q ops s := by
  induction ops generalizing s with
  | nil => trivial
  | cons op ops ih => exact ⟨weaker s op along.1, fun s' ran => ih (along.2 s' ran)⟩

theorem Along.front {front back : List O} (along : Along step P (front ++ back) s) :
    Along step P front s := by
  induction front generalizing s with
  | nil => trivial
  | cons op front ih => exact ⟨along.1, fun s' ran => ih (along.2 s' ran)⟩

theorem Along.append {front back : List O} (along : Along step P front s)
    (later : ∀ s', run step front s = .ok s' → Along step P back s') :
    Along step P (front ++ back) s := by
  induction front generalizing s with
  | nil => exact later s rfl
  | cons op front ih =>
    refine ⟨along.1, fun s' ran => ih (along.2 s' ran) fun t reached => later t ?_⟩
    rw [run_cons, ran, ok_bind]
    exact reached

theorem Along.last {op : O} {s' : S} (along : Along step P (ops ++ [op]) s)
    (ran : run step ops s = .ok s') : P s' op := by
  induction ops generalizing s with
  | nil =>
    cases ran
    exact along.1
  | cons first ops ih =>
    obtain ⟨t, next, ran⟩ := bind_eq_ok ran
    exact ih (along.2 t next) ran

theorem run_rule (keeps : ∀ s op, I s → P s op → ∃ s', step s op = .ok s' ∧ I s')
    (along : Along step P ops s) (inv : I s) :
    ∃ s', run step ops s = .ok s' ∧ I s' := by
  induction ops generalizing s with
  | nil => exact ⟨s, rfl, inv⟩
  | cons op ops ih =>
    obtain ⟨s', ran, inv'⟩ := keeps s op inv along.1
    rw [run_cons, ran, ok_bind]
    exact ih (along.2 s' ran) inv'

/-- Where the invariant holds after a step exactly when a condition on the step does, it
holds in all states of a run exactly when the condition holds all along. -/
theorem prefixes_iff (good : ∀ s op, I s → A s op → P s op → ∃ s', step s op = .ok s' ∧ I s')
    (bad : ∀ s op s', I s → A s op → ¬ P s op → step s op = .ok s' → ¬ I s')
    (allowed : Along step A ops s) (inv : I s) :
    (∀ front, front <+: ops → ∃ s', run step front s = .ok s' ∧ I s') ↔
      Along step P ops s := by
  induction ops generalizing s with
  | nil =>
    refine ⟨fun _ => trivial, fun _ front isPrefix => ?_⟩
    rw [List.prefix_nil.mp isPrefix]
    exact ⟨s, rfl, inv⟩
  | cons op ops ih =>
    constructor
    · intro holds
      obtain ⟨s', ran, inv'⟩ := holds [op] ⟨ops, rfl⟩
      have executed : step s op = .ok s' := by
        obtain ⟨t, first, ran⟩ := bind_eq_ok ran
        exact first.trans ran
      refine ⟨?_, fun t same => ?_⟩
      · by_contra fails
        exact bad s op s' inv allowed.1 fails executed inv'
      · rw [executed] at same
        cases same
        refine (ih (allowed.2 s' executed) inv').mp fun front isPrefix => ?_
        obtain ⟨last, reached, done⟩ :=
          holds (op :: front) (List.cons_prefix_cons.mpr ⟨rfl, isPrefix⟩)
        rw [run_cons, executed, ok_bind] at reached
        exact ⟨last, reached, done⟩
    · rintro ⟨here, later⟩ front isPrefix
      obtain ⟨s', executed, inv'⟩ := good s op inv allowed.1 here
      cases front with
      | nil => exact ⟨s, rfl, inv⟩
      | cons op' front =>
        obtain ⟨rfl, rest⟩ := List.cons_prefix_cons.mp isPrefix
        obtain ⟨last, reached, done⟩ :=
          (ih (allowed.2 s' executed) inv').mpr (later s' executed) front rest
        refine ⟨last, ?_, done⟩
        rw [run_cons, executed, ok_bind]
        exact reached

theorem along_rule (holds : ∀ s op, I s → A s op → P s op)
    (keeps : ∀ s op s', I s → A s op → step s op = .ok s' → I s')
    (allowed : Along step A ops s) (inv : I s) : Along step P ops s := by
  induction ops generalizing s with
  | nil => trivial
  | cons op ops ih =>
    refine ⟨holds s op inv allowed.1, fun s' ran => ?_⟩
    exact ih (allowed.2 s' ran) (keeps s op s' inv allowed.1 ran)

theorem along_congr (same : ∀ s op, I s → A s op → (P s op ↔ Q s op))
    (keeps : ∀ s op s', I s → A s op → step s op = .ok s' → I s')
    (allowed : Along step A ops s) (inv : I s) : Along step P ops s ↔ Along step Q ops s := by
  induction ops generalizing s with
  | nil => exact Iff.rfl
  | cons op ops ih =>
    refine and_congr (same s op inv allowed.1) (forall_congr' fun s' => forall_congr' fun ran => ?_)
    exact ih (allowed.2 s' ran) (keeps s op s' inv allowed.1 ran)

theorem reach_rule (keeps : ∀ s op s', I s → P s op → step s op = .ok s' → I s')
    {s' : S} (along : Along step P ops s) (inv : I s)
    (ran : run step ops s = .ok s') : I s' := by
  induction ops generalizing s with
  | nil =>
    cases ran
    exact inv
  | cons op ops ih =>
    obtain ⟨t, first, ran⟩ := bind_eq_ok ran
    exact ih (along.2 t first) (keeps s op t inv along.1 first) ran

theorem foldlM_rule {A : Type} {f : S → A → Except E S} {l : List A}
    (keeps : ∀ s, ∀ a ∈ l, I s → ∃ s', f s a = .ok s' ∧ I s') (inv : I s) :
    ∃ s', l.foldlM f s = .ok s' ∧ I s' := by
  induction l generalizing s with
  | nil => exact ⟨s, rfl, inv⟩
  | cons a l ih =>
    obtain ⟨s', ran, inv'⟩ := keeps s a List.mem_cons_self inv
    rw [List.foldlM_cons, ran, ok_bind]
    exact ih (fun s b member => keeps s b (List.mem_cons_of_mem a member)) inv'

end FaultRuns
