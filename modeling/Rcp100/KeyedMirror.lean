import Mathlib.Logic.Function.Basic
import Mathlib.Tactic.Common

/-!
# Entries mirrored in a keyed table

A record of the table has a place, which consists of a group and a rank. An addition at a
place that is taken fails. A removal names a group and a test, and takes away one record of
the group that passes the test; which one is left to the table. The entries are kept
elsewhere, and their records are mirrored in the table beside a base of other records.
-/

namespace KeyedMirror

open Function (update update_of_ne update_self)

section Table

variable {G D R : Type} [DecidableEq G] [DecidableEq D]

abbrev Table (G D R : Type) := G × D → Option R

def add (t : Table G D R) (place : G × D) (r : R) : Table G D R :=
  if (t place).isSome then t else update t place (some r)

/-- How a table selects the record for a removal. -/
structure Choice (G D R : Type) where
  pick : Table G D R → G → (R → Bool) → Option D
  fits : ∀ t g test d, pick t g test = some d → ∃ r, t (g, d) = some r ∧ test r = true
  finds : ∀ t g test, pick t g test = none → ∀ d r, t (g, d) = some r → test r = false

def Choice.remove (choice : Choice G D R) (t : Table G D R) (g : G) (test : R → Bool) :
    Table G D R :=
  match choice.pick t g test with
  | none => t
  | some d => update t (g, d) none

/-- The first record that passes the test, in an order of the ranks. -/
def firstOf (order : List D) (complete : ∀ d, d ∈ order) : Choice G D R where
  pick t g test := order.find? fun d => (t (g, d)).any test
  fits t g test d found := by
    have passes := List.find?_some found
    cases held : t (g, d) with
    | none =>
      rw [held] at passes
      cases passes
    | some r =>
      rw [held] at passes
      exact ⟨r, rfl, passes⟩
  finds t g test nothing d r held := by
    have fails := List.find?_eq_none.mp nothing d (complete d)
    rw [held] at fails
    simpa using fails

theorem add_unused {t : Table G D R} {place : G × D} (unused : t place = none) (r : R) :
    add t place r = update t place (some r) := by
  rw [add, unused]
  rfl

theorem Choice.remove_only (choice : Choice G D R) {t : Table G D R} {g : G} {test : R → Bool}
    {d : D} {r : R} (held : t (g, d) = some r) (passes : test r = true)
    (only : ∀ d' r', t (g, d') = some r' → test r' = true → d' = d) :
    choice.remove t g test = update t (g, d) none := by
  rw [remove]
  cases picked : choice.pick t g test with
  | none =>
    have fails := choice.finds t g test picked d r held
    rw [passes] at fails
    cases fails
  | some d' =>
    obtain ⟨r', held', passes'⟩ := choice.fits t g test d' picked
    rw [only d' r' held' passes']

theorem Choice.remove_nothing (choice : Choice G D R) {t : Table G D R} {g : G}
    {test : R → Bool} (nothing : ∀ d r, t (g, d) = some r → test r = false) :
    choice.remove t g test = t := by
  rw [remove]
  cases picked : choice.pick t g test with
  | none => rfl
  | some d =>
    obtain ⟨r, held, passes⟩ := choice.fits t g test d picked
    rw [nothing d r held] at passes
    cases passes

end Table

section Mirror

variable {K R I E : Type} (place : E → K) (record : E → R)

/-- The table holds the records of the base and those of the entries, each at a place of
its own. -/
structure Mirrors (base : K → Option R) (entries : I → Option E) (t : K → Option R) : Prop where
  holds : ∀ k r, t k = some r ↔
    base k = some r ∨ ∃ i e, entries i = some e ∧ place e = k ∧ record e = r
  own : ∀ i e, entries i = some e → base (place e) = none
  distinct : ∀ i j e f, entries i = some e → entries j = some f → place e = place f → i = j

variable {place record} {base t : K → Option R} {entries : I → Option E} {i : I} {e : E}

theorem mirrors_empty (nothing : ∀ i, entries i = none) :
    Mirrors place record base entries base := by
  refine ⟨fun k r => ⟨Or.inl, ?_⟩, ?_, ?_⟩
  · rintro (held | ⟨i, e, held, -⟩)
    · exact held
    · rw [nothing i] at held
      cases held
  · intro i e held
    rw [nothing i] at held
    cases held
  · intro i j e f held
    rw [nothing i] at held
    cases held

theorem Mirrors.record_held (mirrors : Mirrors place record base entries t)
    (held : entries i = some e) : t (place e) = some (record e) :=
  (mirrors.holds _ _).mpr (.inr ⟨i, e, held, rfl, rfl⟩)

theorem Mirrors.base_held (mirrors : Mirrors place record base entries t) {k : K} {r : R}
    (held : base k = some r) : t k = some r :=
  (mirrors.holds k r).mpr (.inl held)

variable [DecidableEq K] [DecidableEq I]

theorem Mirrors.added (mirrors : Mirrors place record base entries t) (free : entries i = none)
    (unused : t (place e) = none) :
    Mirrors place record base (update entries i (some e))
      (update t (place e) (some (record e))) := by
  have noBase : base (place e) = none := by
    cases held : base (place e) with
    | none => rfl
    | some r =>
      rw [mirrors.base_held held] at unused
      cases unused
  have apart : ∀ j f, entries j = some f → place f ≠ place e := by
    intro j f held same
    rw [← same, mirrors.record_held held] at unused
    cases unused
  have old : ∀ {j f}, entries j = some f → j ≠ i := by
    rintro j f held rfl
    rw [free] at held
    cases held
  refine ⟨fun k r => ?_, ?_, ?_⟩
  · by_cases here : k = place e
    · subst here
      rw [update_self, noBase]
      constructor
      · intro same
        exact .inr ⟨i, e, update_self .., rfl, Option.some.inj same⟩
      · rintro (impossible | ⟨j, f, held, samePlace, rfl⟩)
        · cases impossible
        · by_cases new : j = i
          · subst new
            rw [update_self] at held
            cases held
            rfl
          · rw [update_of_ne new] at held
            exact absurd samePlace (apart j f held)
    · rw [update_of_ne here, mirrors.holds]
      constructor
      · rintro (held | ⟨j, f, held, samePlace, sameRecord⟩)
        · exact .inl held
        · refine .inr ⟨j, f, ?_, samePlace, sameRecord⟩
          rw [update_of_ne (old held), held]
      · rintro (held | ⟨j, f, held, samePlace, sameRecord⟩)
        · exact .inl held
        · by_cases new : j = i
          · subst new
            rw [update_self] at held
            cases held
            exact absurd samePlace.symm here
          · rw [update_of_ne new] at held
            exact .inr ⟨j, f, held, samePlace, sameRecord⟩
  · intro j f held
    by_cases new : j = i
    · subst new
      rw [update_self] at held
      cases held
      exact noBase
    · rw [update_of_ne new] at held
      exact mirrors.own j f held
  · intro j k f g first second same
    by_cases newFirst : j = i <;> by_cases newSecond : k = i
    · rw [newFirst, newSecond]
    · subst newFirst
      rw [update_self] at first
      rw [update_of_ne newSecond] at second
      cases first
      exact absurd same.symm (apart k g second)
    · subst newSecond
      rw [update_self] at second
      rw [update_of_ne newFirst] at first
      cases second
      exact absurd same (apart j f first)
    · rw [update_of_ne newFirst] at first
      rw [update_of_ne newSecond] at second
      exact mirrors.distinct j k f g first second same

theorem Mirrors.removed (mirrors : Mirrors place record base entries t)
    (held : entries i = some e) :
    Mirrors place record base (update entries i none)
      (update t (place e) none) := by
  have stays : ∀ {j f}, update entries i none j = some f → entries j = some f ∧ j ≠ i := by
    intro j f kept
    by_cases gone : j = i
    · subst gone
      rw [update_self] at kept
      cases kept
    · rw [update_of_ne gone] at kept
      exact ⟨kept, gone⟩
  refine ⟨fun k r => ?_, fun j f kept => mirrors.own j f (stays kept).1, ?_⟩
  · by_cases here : k = place e
    · subst here
      rw [update_self, mirrors.own i e held]
      constructor
      · intro impossible
        cases impossible
      · rintro (impossible | ⟨j, f, kept, same, -⟩)
        · cases impossible
        · exact absurd (mirrors.distinct j i f e (stays kept).1 held same) (stays kept).2
    · rw [update_of_ne here, mirrors.holds]
      refine or_congr_right ⟨?_, ?_⟩
      · rintro ⟨j, f, kept, samePlace, sameRecord⟩
        refine ⟨j, f, ?_, samePlace, sameRecord⟩
        rw [update_of_ne, kept]
        rintro rfl
        rw [held] at kept
        cases kept
        exact here samePlace.symm
      · rintro ⟨j, f, kept, same⟩
        exact ⟨j, f, (stays kept).1, same⟩
  · intro j k f g first second same
    exact mirrors.distinct j k f g (stays first).1 (stays second).1 same

end Mirror

end KeyedMirror
