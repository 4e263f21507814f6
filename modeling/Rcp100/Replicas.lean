import Mathlib.Data.List.MinMax

/-!
# Replicas that keep the item of greatest rank

A replica takes an item in place of one of lower rank. What it holds is the first one of
greatest rank among those it knew, and items of different ranks make the order irrelevant.
-/

namespace Replicas

variable {α β : Type} [LinearOrder β] {rank : α → β}

theorem argmax_held (known heard : List α) :
    ((known.argmax rank).toList ++ heard).argmax rank = (known ++ heard).argmax rank := by
  induction heard using List.reverseRecOn with
  | nil =>
    rw [List.append_nil, List.append_nil]
    cases known.argmax rank <;> rfl
  | append_singleton heard x ih =>
    rw [← List.append_assoc, ← List.append_assoc, List.argmax_concat, List.argmax_concat, ih]

theorem argmax_congr {known known' : List α} (same : ∀ x, x ∈ known ↔ x ∈ known')
    (apart : ∀ x ∈ known, ∀ y ∈ known, rank x = rank y → x = y) :
    known.argmax rank = known'.argmax rank := by
  cases one : known.argmax rank with
  | none =>
    rw [List.argmax_eq_none] at one
    rw [eq_comm, List.argmax_eq_none, List.eq_nil_iff_forall_not_mem]
    intro x hx
    rw [← same, one] at hx
    cases hx
  | some x =>
    have hx := List.argmax_mem one
    cases other : known'.argmax rank with
    | none =>
      rw [List.argmax_eq_none] at other
      rw [same, other] at hx
      cases hx
    | some y =>
      have hy := (same y).mpr (List.argmax_mem other)
      have le := List.le_of_mem_argmax ((same x).mp hx) other
      have ge := List.le_of_mem_argmax hy one
      rw [apart x hx y hy (le_antisymm le ge)]

end Replicas
