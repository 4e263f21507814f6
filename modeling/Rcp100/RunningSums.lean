import Mathlib.Tactic.Ring
import Mathlib.Algebra.BigOperators.Group.List.Basic

/-!
# Sums and sums of sums

The total of a list, and the total of its partial totals. An accumulation that carries both
is linear in what it starts with.
-/

namespace RunningSums

/-- The sum of the partial totals: every element counts as often as there are elements from
it on. -/
def running : List Nat → Nat
  | [] => 0
  | x :: l => (l.length + 1) * x + running l

/-- One element goes into the total, and the total into the running sum. -/
def accumulate (s : Nat × Nat) (x : Nat) : Nat × Nat := (s.1 + x, s.2 + (s.1 + x))

theorem running_append (l m : List Nat) :
    running (l ++ m) = running l + m.length * l.sum + running m := by
  induction l with
  | nil => simp [running]
  | cons x l ih =>
    rw [List.cons_append, running, running, ih, List.length_append, List.sum_cons]
    ring

theorem foldl_accumulate (l : List Nat) (s : Nat × Nat) :
    l.foldl accumulate s = (s.1 + l.sum, s.2 + l.length * s.1 + running l) := by
  induction l generalizing s with
  | nil => simp [running]
  | cons x l ih =>
    rw [List.foldl_cons, ih, accumulate, List.sum_cons, List.length_cons, running]
    refine Prod.ext ?_ ?_
    · exact Nat.add_assoc ..
    · dsimp only
      ring

theorem sum_le {l : List Nat} {m : Nat} (small : ∀ x ∈ l, x ≤ m) : l.sum ≤ l.length * m := by
  induction l with
  | nil => simp
  | cons x l ih =>
    obtain ⟨first, rest⟩ := List.forall_mem_cons.mp small
    have tail := ih rest
    rw [List.sum_cons, List.length_cons, Nat.add_mul, Nat.one_mul]
    omega

theorem running_le {l : List Nat} {m : Nat} (small : ∀ x ∈ l, x ≤ m) :
    2 * running l ≤ l.length * (l.length + 1) * m := by
  induction l with
  | nil => simp [running]
  | cons x l ih =>
    obtain ⟨first, rest⟩ := List.forall_mem_cons.mp small
    have tail := ih rest
    have head : (l.length + 1) * x ≤ (l.length + 1) * m := Nat.mul_le_mul_left _ first
    calc
      2 * running (x :: l) = 2 * ((l.length + 1) * x) + 2 * running l := by rw [running]; ring
      _ ≤ 2 * ((l.length + 1) * m) + l.length * (l.length + 1) * m := by omega
      _ = (l.length + 1) * (l.length + 1 + 1) * m := by ring

end RunningSums
