import Mathlib.Logic.Function.Basic
import Mathlib.Tactic.Common

/-!
# Slots with names

A slot of a table may have a value, and a value may have a name. The names of a table in
which no name occurs twice follow every change of a slot.
-/

namespace NamedSlots

variable {I A N : Type}

def nameAt (name : A → Option N) (slots : I → Option A) (i : I) : Option N :=
  (slots i).bind name

/-- Some slot has a value with the name. -/
def Named (name : A → Option N) (slots : I → Option A) (x : N) : Prop :=
  ∃ i, nameAt name slots i = some x

/-- No two slots have values with one name. -/
def Distinct (name : A → Option N) (slots : I → Option A) : Prop :=
  ∀ i j x, nameAt name slots i = some x → nameAt name slots j = some x → i = j

variable {name : A → Option N} {slots : I → Option A} {x : N}

theorem named_empty (free : ∀ i, slots i = none) : ¬ Named name slots x := by
  rintro ⟨i, held⟩
  rw [nameAt, free] at held
  cases held

theorem distinct_empty (free : ∀ i, slots i = none) : Distinct name slots :=
  fun i _ _ held _ => absurd ⟨i, held⟩ (named_empty free)

variable [DecidableEq I] {i : I} {new : Option A}

theorem nameAt_update (j : I) :
    nameAt name (Function.update slots i new) j =
      if j = i then new.bind name else nameAt name slots j := by
  by_cases here : j = i
  · subst here
    rw [nameAt, Function.update_self, if_pos rfl]
  · rw [nameAt, Function.update_of_ne here, if_neg here, nameAt]

theorem Distinct.named_update (distinct : Distinct name slots) :
    Named name (Function.update slots i new) x ↔
      new.bind name = some x ∨ Named name slots x ∧ nameAt name slots i ≠ some x := by
  constructor
  · rintro ⟨j, held⟩
    rw [nameAt_update] at held
    split_ifs at held with here
    · exact .inl held
    · exact .inr ⟨⟨j, held⟩, fun old => here (distinct j i x held old)⟩
  · rintro (fresh | ⟨⟨j, held⟩, other⟩)
    · refine ⟨i, ?_⟩
      rw [nameAt_update, if_pos rfl, fresh]
    · refine ⟨j, ?_⟩
      have apart : j ≠ i := fun here => other (here ▸ held)
      rw [nameAt_update, if_neg apart, held]

theorem Distinct.update (distinct : Distinct name slots)
    (unused : ∀ x, new.bind name = some x → Named name slots x → nameAt name slots i = some x) :
    Distinct name (Function.update slots i new) := by
  have one : ∀ j x, new.bind name = some x → nameAt name slots j = some x → j = i :=
    fun j x fresh held => distinct j i x held (unused x fresh ⟨j, held⟩)
  intro j k x first second
  rw [nameAt_update] at first second
  split_ifs at first second with hereFirst hereSecond hereSecond
  · rw [hereFirst, hereSecond]
  · exact absurd (one k x first second) hereSecond
  · exact absurd (one j x second first) hereFirst
  · exact distinct j k x first second

theorem nameAt_update_same (same : new.bind name = nameAt name slots i) :
    nameAt name (Function.update slots i new) = nameAt name slots := by
  funext j
  rw [nameAt_update]
  split_ifs with here
  · rw [same, here]
  · rfl

end NamedSlots
