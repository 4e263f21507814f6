import Mathlib.Tactic.Common

/-!
# Runs of steps that always succeed

What holds in every state of a run, and what may be asked of every step on the state it meets.
-/

namespace StepRuns

variable {S O : Type} (step : S → O → S)

/-- The condition holds before every step of the run. -/
def Along (Q : S → O → Prop) : List O → S → Prop
  | [], _ => True
  | op :: ops, s => Q s op ∧ Along Q ops (step s op)

/-- The property holds in every state of the run, the first and the last one included. -/
def Always (P : S → Prop) : List O → S → Prop
  | [], s => P s
  | op :: ops, s => P s ∧ Always P ops (step s op)

variable {step} {P I : S → Prop} {Q : S → O → Prop} {ops : List O} {s : S}

theorem Always.first (always : Always step P ops s) : P s := by
  cases ops with
  | nil => exact always
  | cons op ops => exact always.1

theorem along_append {back : List O} :
    Along step Q (ops ++ back) s ↔ Along step Q ops s ∧ Along step Q back (ops.foldl step s) := by
  induction ops generalizing s with
  | nil => exact ⟨fun along => ⟨trivial, along⟩, fun along => along.2⟩
  | cons op ops ih => exact (and_congr_right fun _ => ih).trans and_assoc.symm

/-- A condition on a part of the state that goes its own way. -/
theorem along_map {T : Type} {proj : S → T} {part : T → O → T} {R : T → O → Prop}
    (follows : ∀ s op, proj (step s op) = part (proj s) op) :
    Along step (fun s op => R (proj s) op) ops s ↔ Along part R ops (proj s) := by
  induction ops generalizing s with
  | nil => rfl
  | cons op ops ih =>
    rw [Along, Along, ih, follows]

theorem always_iff_take : Always step P ops s ↔ ∀ n, P ((ops.take n).foldl step s) := by
  induction ops generalizing s with
  | nil => simp [Always]
  | cons op ops ih =>
    rw [Always, ih]
    constructor
    · rintro ⟨now, later⟩ n
      cases n with
      | zero => exact now
      | succ n => exact later n
    · exact fun all => ⟨all 0, fun n => all (n+1)⟩

theorem Along.always (holds : ∀ s, I s → P s) (keeps : ∀ s op, I s → Q s op → I (step s op))
    (start : I s) (along : Along step Q ops s) : Always step P ops s := by
  induction ops generalizing s with
  | nil => exact holds s start
  | cons op ops ih => exact ⟨holds s start, ih (keeps s op start along.1) along.2⟩

/-- An invariant that steps with the condition keep, and that a step without it turns into the
opposite of the property. -/
theorem always_iff_along_of_mem {A : O → Prop} (allowed : ∀ op ∈ ops, A op)
    (holds : ∀ s, I s → P s) (keeps : ∀ s op, A op → I s → Q s op → I (step s op))
    (breaks : ∀ s op, A op → I s → ¬ Q s op → ¬ P (step s op)) (start : I s) :
    Always step P ops s ↔ Along step Q ops s := by
  induction ops generalizing s with
  | nil => exact iff_of_true (holds s start) trivial
  | cons op ops ih =>
    have now := allowed op (List.mem_cons_self ..)
    have later := fun op' member => allowed op' (List.mem_cons_of_mem op member)
    by_cases meets : Q s op
    · exact and_congr (iff_of_true (holds s start) meets) (ih later (keeps s op now start meets))
    · refine iff_of_false (fun always => ?_) (fun along => meets along.1)
      exact breaks s op now start meets always.2.first

theorem always_iff_along (holds : ∀ s, I s → P s)
    (keeps : ∀ s op, I s → Q s op → I (step s op))
    (breaks : ∀ s op, I s → ¬ Q s op → ¬ P (step s op)) (start : I s) :
    Always step P ops s ↔ Along step Q ops s :=
  always_iff_along_of_mem (fun _ _ => trivial) holds (fun s op _ => keeps s op)
    (fun s op _ => breaks s op) start

end StepRuns
