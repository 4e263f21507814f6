import Mathlib.Algebra.Ring.Nat
import Mathlib.Data.List.Nodup
import Mathlib.Tactic.Common

/-!
# Sequences with optional groups

A sequence is made of mandatory elements and of groups that may be left out. A choice says of
each group whether it stays; the variants of a sequence are what its choices pick.
-/

namespace OptionalGroups

inductive Item (W : Type) where
  | word (w : W)
  | group (ws : List W)

variable {W : Type}

def Item.words : Item W → List W
  | .word w => [w]
  | .group ws => ws

/-- The number of groups. -/
def groups : List (Item W) → Nat
  | [] => 0
  | .word _ :: rest => groups rest
  | .group _ :: rest => groups rest + 1

/-- All choices for so many groups. -/
def choices : Nat → List (List Bool)
  | 0 => [[]]
  | k+1 => (choices k).map (false :: ·) ++ (choices k).map (true :: ·)

/-- The elements of the sequence without the groups that are not chosen. -/
def pick : List (Item W) → List Bool → List W
  | [], _ => []
  | .word w :: rest, choice => w :: pick rest choice
  | .group ws :: rest, choice =>
    (if choice.head? = some true then ws else []) ++ pick rest choice.tail

def variants (items : List (Item W)) : List (List W) :=
  (choices (groups items)).map (pick items)

section Choices

theorem length_choices (k : Nat) : (choices k).length = 2^k := by
  induction k with
  | zero => rfl
  | succ k ih =>
    rw [choices, List.length_append, List.length_map, List.length_map, ih, Nat.pow_succ]
    omega

end Choices

section Variants

variable {items rest : List (Item W)}

theorem variants_nil : variants ([] : List (Item W)) = [[]] := rfl

theorem variants_word (w : W) : variants (.word w :: rest) = (variants rest).map (w :: ·) := by
  rw [variants, variants, List.map_map]
  rfl

theorem variants_group (ws : List W) :
    variants (.group ws :: rest) = variants rest ++ (variants rest).map (ws ++ ·) := by
  rw [variants, variants, groups, choices, List.map_append, List.map_map, List.map_map,
    List.map_map]
  rfl

theorem length_variants (items : List (Item W)) : (variants items).length = 2^groups items := by
  rw [variants, List.length_map, length_choices]

theorem mem_of_mem_pick {choice : List Bool} {w : W} (picked : w ∈ pick items choice) :
    w ∈ items.flatMap Item.words := by
  induction items generalizing choice with
  | nil => exact picked
  | cons item items ih =>
    rw [List.flatMap_cons, List.mem_append]
    cases item with
    | word v =>
      rcases List.mem_cons.mp picked with rfl | later
      · exact .inl (List.mem_singleton_self w)
      · exact .inr (ih later)
    | group ws =>
      rcases List.mem_append.mp picked with own | later
      · split_ifs at own with chosen
        · exact .inl own
        · cases own
      · exact .inr (ih later)

theorem groups_append : groups (items ++ rest) = groups items + groups rest := by
  induction items with
  | nil => exact (Nat.zero_add _).symm
  | cons item items ih =>
    cases item with
    | word w => exact ih
    | group ws =>
      rw [List.cons_append, groups, groups, ih]
      omega

theorem variants_head : ∃ more, variants items =
    pick items (List.replicate (groups items) false) :: more := by
  have first : ∀ k, ∃ more, choices k = List.replicate k false :: more := by
    intro k
    induction k with
    | zero => exact ⟨[], rfl⟩
    | succ k ih =>
      obtain ⟨more, first⟩ := ih
      refine ⟨more.map (false :: ·) ++ (choices k).map (true :: ·), ?_⟩
      rw [choices, first]
      rfl
  obtain ⟨more, first⟩ := first (groups items)
  exact ⟨more.map (pick items), by rw [variants, first, List.map_cons]⟩

theorem pick_of_groups_eq_zero (none : groups items = 0) (choice : List Bool) :
    pick items choice = items.flatMap Item.words := by
  induction items with
  | nil => rfl
  | cons item items ih =>
    cases item with
    | word w => exact congrArg (w :: ·) (ih none)
    | group ws => exact absurd none (Nat.succ_ne_zero _)

theorem pick_append_words (none : groups rest = 0) (choice : List Bool) :
    pick (items ++ rest) choice = pick items choice ++ rest.flatMap Item.words := by
  induction items generalizing choice with
  | nil => exact pick_of_groups_eq_zero none choice
  | cons item items ih =>
    cases item with
    | word w => exact congrArg (w :: ·) (ih choice)
    | group ws =>
      rw [List.cons_append, pick, pick, ih, List.append_assoc]

end Variants

end OptionalGroups
