import Mathlib.Logic.Function.Basic
import Mathlib.Tactic.Common

/-!
# Tickets for the slots of a table

Occupants enter and leave the slots of a table; every occupant has a serial number that is
never used again. A ticket names the slot of its holder, and goes to whoever is in the slot when
it comes back.
-/

namespace SlotTickets

open Function (update update_of_ne update_self)

/-- The occupants, how many have entered each slot, and the next serial number. -/
structure Slots where
  occupant : Nat → Option Nat
  entered : Nat → Nat
  next : Nat

/-- A ticket counts the occupants that had entered the slot of its holder. -/
structure Ticket where
  holder : Nat
  slot : Nat
  count : Nat
deriving DecidableEq

def Slots.enter (s : Slots) (i : Nat) : Slots where
  occupant := update s.occupant i (some s.next)
  entered := update s.entered i (s.entered i + 1)
  next := s.next + 1

def Slots.leave (s : Slots) (i : Nat) : Slots :=
  { s with occupant := update s.occupant i none }

structure Sound (s : Slots) : Prop where
  old : ∀ i a, s.occupant i = some a → a < s.next
  distinct : ∀ i j a, s.occupant i = some a → s.occupant j = some a → i = j

/-- What stays true of a ticket: its holder is in the slot or nowhere, and another occupant of
the slot has entered later. -/
structure Valid (s : Slots) (t : Ticket) : Prop where
  old : t.holder < s.next
  count_le : t.count ≤ s.entered t.slot
  place : ∀ i, s.occupant i = some t.holder → i = t.slot
  current : t.count = s.entered t.slot → ∀ a, s.occupant t.slot = some a → a = t.holder
  past : t.count < s.entered t.slot → s.occupant t.slot ≠ some t.holder

variable {s : Slots} {t : Ticket} {i a : Nat}

theorem enter_self (s : Slots) (i : Nat) : (s.enter i).occupant i = some s.next :=
  update_self ..

theorem enter_other {j : Nat} (other : j ≠ i) : (s.enter i).occupant j = s.occupant j :=
  update_of_ne other ..

theorem entered_self (s : Slots) (i : Nat) : (s.enter i).entered i = s.entered i + 1 :=
  update_self ..

theorem entered_other {j : Nat} (other : j ≠ i) : (s.enter i).entered j = s.entered j :=
  update_of_ne other ..

theorem leave_self (s : Slots) (i : Nat) : (s.leave i).occupant i = none :=
  update_self ..

theorem leave_other {j : Nat} (other : j ≠ i) : (s.leave i).occupant j = s.occupant j :=
  update_of_ne other ..

theorem Sound.enter (sound : Sound s) (free : s.occupant i = none) : Sound (s.enter i) := by
  have cases : ∀ {j b}, (s.enter i).occupant j = some b →
      j = i ∧ b = s.next ∨ s.occupant j = some b := by
    intro j b held
    by_cases here : j = i
    · subst here
      rw [enter_self] at held
      exact .inl ⟨rfl, (Option.some.inj held).symm⟩
    · rw [enter_other here] at held
      exact .inr held
  refine ⟨fun j b held => ?_, fun j k b first second => ?_⟩
  · change b < s.next + 1
    rcases cases held with ⟨-, rfl⟩ | before
    · omega
    · have := sound.old j b before
      omega
  · rcases cases first with ⟨rfl, rfl⟩ | before <;> rcases cases second with ⟨rfl, same⟩ | before'
    · rfl
    · exact absurd (sound.old k _ before') (Nat.lt_irrefl _)
    · rw [same] at before
      exact absurd (sound.old j _ before) (Nat.lt_irrefl _)
    · exact sound.distinct j k b before before'

theorem leave_occupant {j b : Nat} (held : (s.leave i).occupant j = some b) :
    j ≠ i ∧ s.occupant j = some b := by
  by_cases here : j = i
  · subst here
    rw [leave_self] at held
    cases held
  · rw [leave_other here] at held
    exact ⟨here, held⟩

theorem Sound.leave (sound : Sound s) (i : Nat) : Sound (s.leave i) :=
  ⟨fun j b held => sound.old j b (leave_occupant held).2, fun j k b first second =>
    sound.distinct j k b (leave_occupant first).2 (leave_occupant second).2⟩

theorem valid_issue (sound : Sound s) (held : s.occupant i = some a) :
    Valid s ⟨a, i, s.entered i⟩ where
  old := sound.old i a held
  count_le := Nat.le_refl _
  place j other := sound.distinct j i a other held
  current _ b other := by
    rw [held] at other
    exact (Option.some.inj other).symm
  past impossible := absurd impossible (Nat.lt_irrefl _)

theorem Valid.enter (valid : Valid s t) (free : s.occupant i = none) : Valid (s.enter i) t := by
  have fresh : t.holder ≠ s.next := Nat.ne_of_lt valid.old
  have notHere : (s.enter i).occupant i ≠ some t.holder := by
    rw [enter_self]
    exact fun same => fresh (Option.some.inj same).symm
  by_cases here : t.slot = i
  · have count : (s.enter i).entered t.slot = s.entered t.slot + 1 := by
      rw [here, entered_self]
    have less := valid.count_le
    refine ⟨Nat.lt_succ_of_lt valid.old, by omega, fun j held => ?_, fun same => by omega, ?_⟩
    · by_cases new : j = i
      · rw [new, here]
      · rw [enter_other new] at held
        exact valid.place j held
    · rw [here]
      exact fun _ => notHere
  · have count : (s.enter i).entered t.slot = s.entered t.slot :=
      entered_other here
    refine ⟨Nat.lt_succ_of_lt valid.old, by rw [count]; exact valid.count_le, fun j held => ?_,
      ?_, ?_⟩
    · by_cases new : j = i
      · subst new
        exact absurd held notHere
      · rw [enter_other new] at held
        exact valid.place j held
    · rw [count, enter_other here]
      exact valid.current
    · rw [count, enter_other here]
      exact valid.past

theorem Valid.leave (valid : Valid s t) (i : Nat) : Valid (s.leave i) t where
  old := valid.old
  count_le := valid.count_le
  place j held := valid.place j (leave_occupant held).2
  current same b held := valid.current same b (leave_occupant held).2
  past less held := valid.past less (leave_occupant held).2

/-- A ticket comes back to its holder, or to nobody when the holder has left, exactly when the
slot is empty or nobody has entered it since. -/
theorem Valid.returns_iff (valid : Valid s t) :
    ((∀ a, s.occupant t.slot = some a → a = t.holder) ∧
      ((∃ i, s.occupant i = some t.holder) → s.occupant t.slot = some t.holder)) ↔
    (s.occupant t.slot = none ∨ s.entered t.slot = t.count) := by
  constructor
  · rintro ⟨only, -⟩
    cases held : s.occupant t.slot with
    | none => exact .inl rfl
    | some a =>
      refine .inr ?_
      by_contra other
      have less : t.count < s.entered t.slot := by
        have := valid.count_le
        omega
      have same := only a held
      subst same
      exact valid.past less held
  · intro free
    refine ⟨fun a held => ?_, ?_⟩
    · rcases free with empty | same
      · rw [empty] at held
        cases held
      · exact valid.current same.symm a held
    · rintro ⟨i, held⟩
      have place := valid.place i held
      subst place
      exact held

end SlotTickets
