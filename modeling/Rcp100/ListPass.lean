import Mathlib.Data.List.Basic

/-!
# Passes over a list

A loop that walks a linked list may change the current element or unlink it, and
goes on with the next one. `Pass` relates the list before such a loop to the list
after it, element by element, without saying in which order anything happened.
-/

namespace ListPass

variable {α : Type}

/-- Each element of the first list becomes one of the second or is dropped. -/
inductive Pass (R : α → Option α → Prop) : List α → List α → Prop where
  | nil : Pass R [] []
  | keep {a b : α} {l m : List α} (becomes : R a (some b)) (rest : Pass R l m) :
    Pass R (a :: l) (b :: m)
  | drop {a : α} {l m : List α} (goes : R a none) (rest : Pass R l m) : Pass R (a :: l) m

/-- One treatment after the other. -/
def Then (R S : α → Option α → Prop) (a : α) (o : Option α) : Prop :=
  (R a none ∧ o = none) ∨ ∃ b, R a (some b) ∧ S b o

variable {R S : α → Option α → Prop} {l m n : List α}

theorem Pass.mono (pass : Pass R l m) (weaker : ∀ a ∈ l, ∀ o, R a o → S a o) : Pass S l m := by
  induction pass with
  | nil => exact .nil
  | keep becomes _ ih =>
    exact .keep (weaker _ List.mem_cons_self _ becomes)
      (ih (fun a ha => weaker a (List.mem_cons_of_mem _ ha)))
  | drop goes _ ih =>
    exact .drop (weaker _ List.mem_cons_self _ goes)
      (ih (fun a ha => weaker a (List.mem_cons_of_mem _ ha)))

theorem Pass.same (all : ∀ a ∈ l, R a (some a)) : Pass R l l := by
  induction l with
  | nil => exact .nil
  | cons a l ih =>
    exact .keep (all a List.mem_cons_self) (ih (fun x hx => all x (List.mem_cons_of_mem _ hx)))

theorem Pass.comp (first : Pass R l m) (second : Pass S m n) : Pass (Then R S) l n := by
  induction first generalizing n with
  | nil =>
    cases second
    exact .nil
  | keep becomes _ ih =>
    cases second with
    | keep again rest => exact .keep (.inr ⟨_, becomes, again⟩) (ih rest)
    | drop goes rest => exact .drop (.inr ⟨_, becomes, goes⟩) (ih rest)
  | drop goes _ ih => exact .drop (.inl ⟨goes, rfl⟩) (ih second)

theorem Pass.source (pass : Pass R l m) {b : α} (hb : b ∈ m) : ∃ a ∈ l, R a (some b) := by
  induction pass with
  | nil => cases hb
  | keep becomes _ ih =>
    rcases List.mem_cons.mp hb with rfl | later
    · exact ⟨_, List.mem_cons_self, becomes⟩
    · obtain ⟨a, ha, hR⟩ := ih later
      exact ⟨a, List.mem_cons_of_mem _ ha, hR⟩
  | drop _ _ ih =>
    obtain ⟨a, ha, hR⟩ := ih hb
    exact ⟨a, List.mem_cons_of_mem _ ha, hR⟩

theorem Pass.outcome (pass : Pass R l m) {a : α} (ha : a ∈ l) :
    ∃ o, R a o ∧ ∀ b, o = some b → b ∈ m := by
  induction pass with
  | nil => cases ha
  | keep becomes _ ih =>
    rcases List.mem_cons.mp ha with rfl | later
    · refine ⟨_, becomes, ?_⟩
      rintro b ⟨⟩
      exact List.mem_cons_self
    · obtain ⟨o, hR, hmem⟩ := ih later
      exact ⟨o, hR, fun b hb => List.mem_cons_of_mem _ (hmem b hb)⟩
  | drop goes _ ih =>
    rcases List.mem_cons.mp ha with rfl | later
    · exact ⟨none, goes, fun b hb => by cases hb⟩
    · exact ih later

theorem Pass.length_le (pass : Pass R l m) : m.length ≤ l.length := by
  induction pass with
  | nil => exact Nat.le_refl _
  | keep _ _ ih => exact Nat.succ_le_succ ih
  | drop _ _ ih => exact Nat.le_succ_of_le ih

theorem Pass.eq_of_same (pass : Pass R l m) (same : ∀ a ∈ l, ∀ o, R a o → o = some a) : m = l := by
  induction pass with
  | nil => rfl
  | keep becomes _ ih =>
    cases same _ List.mem_cons_self _ becomes
    rw [ih fun a ha => same a (List.mem_cons_of_mem _ ha)]
  | drop goes _ _ => cases same _ List.mem_cons_self _ goes

theorem Pass.self (pass : Pass R l l) {a : α} (ha : a ∈ l) : R a (some a) := by
  induction l with
  | nil => cases ha
  | cons b l ih =>
    cases pass with
    | keep becomes rest =>
      rcases List.mem_cons.mp ha with rfl | later
      · exact becomes
      · exact ih rest later
    | drop _ rest => exact absurd rest.length_le (Nat.not_succ_le_self _)

theorem Pass.map_sublist {β : Type} {f : α → β} (pass : Pass R l m)
    (same : ∀ a b, R a (some b) → f b = f a) : (m.map f).Sublist (l.map f) := by
  induction pass with
  | nil => exact List.Sublist.refl _
  | keep becomes _ ih =>
    rw [List.map_cons, List.map_cons, same _ _ becomes]
    exact ih.cons_cons _
  | drop _ _ ih => exact ih.cons _

end ListPass
