import Mathlib.Tactic.Common

/-!
# Programs that read a buffer

A program is a tree of reads, so that the offsets it reads follow from the program and
from what the buffer holds. A mark is a place of the program that a specification speaks of.
The rules below bound the offsets, and say when a run gets to a mark, along the structure of
a program.
-/

/-- A program that reads cells of a buffer and ends with a result. -/
inductive Scan (β : Type) (α : Type) where
  | done (a : α) : Scan β α
  | read (o : Nat) (next : β → Scan β α) : Scan β α
  | marked (next : Scan β α) : Scan β α

namespace Scan

variable {β α γ : Type}

def bind : Scan β α → (α → Scan β γ) → Scan β γ
  | done a, f => f a
  | read o next, f => read o (fun b => (next b).bind f)
  | marked next, f => marked (next.bind f)

instance : Monad (Scan β) where
  pure := done
  bind := bind

/-- The cell at an offset. -/
def cell (o : Nat) : Scan β β := read o done

def mark : Scan β Unit := marked (done ())

/-- The result on a buffer. -/
def run : Scan β α → (Nat → β) → α
  | done a, _ => a
  | read o next, m => (next (m o)).run m
  | marked next, m => next.run m

/-- The offsets read, in order. -/
def reads : Scan β α → (Nat → β) → List Nat
  | done _, _ => []
  | read o next, m => o :: (next (m o)).reads m
  | marked next, m => next.reads m

/-- The run gets to a mark. -/
def Marks : Scan β α → (Nat → β) → Prop
  | done _, _ => False
  | read o next, m => (next (m o)).Marks m
  | marked _, _ => True

/-- The program reads no cell from `n` on. -/
def Inside (p : Scan β α) (m : Nat → β) (n : Nat) : Prop := ∀ o ∈ p.reads m, o < n

/-- Moreover, it gets to a mark only where `P` holds. -/
def Keeps (P : Prop) (p : Scan β α) (m : Nat → β) (n : Nat) : Prop :=
  p.Inside m n ∧ (p.Marks m → P)

section Rules

variable (m : Nat → β) (n : Nat)

@[simp]
theorem run_pure (a : α) : (pure a : Scan β α).run m = a := rfl

@[simp]
theorem run_cell (o : Nat) : (cell o).run m = m o := rfl

@[simp]
theorem run_bind (p : Scan β α) (f : α → Scan β γ) :
    (p >>= f).run m = (f (p.run m)).run m := by
  induction p with
  | done a => rfl
  | read o next ih => exact ih (m o)
  | marked next ih => exact ih

theorem reads_bind (p : Scan β α) (f : α → Scan β γ) :
    (p >>= f).reads m = p.reads m ++ (f (p.run m)).reads m := by
  induction p with
  | done a => rfl
  | read o next ih => exact congrArg (o :: ·) (ih (m o))
  | marked next ih => exact ih

theorem marks_bind (p : Scan β α) (f : α → Scan β γ) :
    (p >>= f).Marks m ↔ p.Marks m ∨ (f (p.run m)).Marks m := by
  induction p with
  | done a => exact (Iff.of_eq (false_or _)).symm
  | read o next ih => exact ih (m o)
  | marked next ih => exact iff_of_true trivial (.inl trivial)

@[simp]
theorem inside_pure (a : α) : (pure a : Scan β α).Inside m n ↔ True := by
  constructor
  · exact fun _ => trivial
  · rintro - o ⟨⟩

@[simp]
theorem inside_cell (o : Nat) : (cell o : Scan β β).Inside m n ↔ o < n := by
  simp [Inside, cell, reads]

@[simp]
theorem inside_bind (p : Scan β α) (f : α → Scan β γ) :
    (p >>= f).Inside m n ↔ p.Inside m n ∧ (f (p.run m)).Inside m n := by
  rw [Inside, reads_bind]
  simp only [List.mem_append, or_imp, forall_and]
  exact Iff.rfl

variable (P : Prop)

@[simp]
theorem keeps_pure (a : α) : (pure a : Scan β α).Keeps P m n ↔ True :=
  iff_true_intro ⟨(inside_pure m n a).mpr trivial, False.elim⟩

@[simp]
theorem keeps_cell (o : Nat) : (cell o : Scan β β).Keeps P m n ↔ o < n :=
  ⟨fun keeps => (inside_cell m n o).mp keeps.1, fun room =>
    ⟨(inside_cell m n o).mpr room, False.elim⟩⟩

@[simp]
theorem keeps_mark : (mark : Scan β Unit).Keeps P m n ↔ P :=
  ⟨fun keeps => keeps.2 trivial, fun holds => ⟨nofun, fun _ => holds⟩⟩

@[simp]
theorem keeps_bind (p : Scan β α) (f : α → Scan β γ) :
    (p >>= f).Keeps P m n ↔ p.Keeps P m n ∧ (f (p.run m)).Keeps P m n := by
  rw [Keeps, Keeps, Keeps, inside_bind, marks_bind, or_imp]
  exact and_and_and_comm

theorem run_congr {m m' : Nat → β} {p : Scan β α} (same : ∀ o ∈ p.reads m, m' o = m o) :
    p.run m' = p.run m := by
  induction p with
  | done a => rfl
  | read o next ih =>
    have here : m' o = m o := same o List.mem_cons_self
    simp only [run, here]
    exact ih (m o) (fun o' ho' => same o' (List.mem_cons_of_mem _ ho'))
  | marked next ih => exact ih same

end Rules

/-- The numbers from `i` on are visited, `count` of them, until a visit ends the walk; the
results are collected. -/
def walk (visit : Nat → Scan β (γ × Bool)) : Nat → Nat → Scan β (List γ)
  | 0, _ => pure []
  | count+1, i => do
    let (x, stop) ← visit i
    if stop then return [x]
    return x :: (← walk visit count (i+1))

theorem keeps_walk {P : Prop} {visit : Nat → Scan β (γ × Bool)} {m : Nat → β} {n count i : Nat}
    (each : ∀ j, i ≤ j → j < i + count → (visit j).Keeps P m n) :
    (walk visit count i).Keeps P m n := by
  induction count generalizing i with
  | zero => simp [walk]
  | succ count ih =>
    simp only [walk, keeps_bind]
    refine ⟨each i (Nat.le_refl i) (by omega), ?_⟩
    split
    · simp
    · rw [keeps_bind]
      refine ⟨ih (fun j lower upper => each j (by omega) (by omega)), ?_⟩
      simp

/-- A walk that nothing ends collects every visit. -/
theorem run_walk {visit : Nat → Scan β (γ × Bool)} {m : Nat → β}
    (goes : ∀ i, ((visit i).run m).2 = false) (count i : Nat) :
    (walk visit count i).run m =
      (List.range count).map (fun k => ((visit (i + k)).run m).1) := by
  induction count generalizing i with
  | zero => rfl
  | succ count ih =>
    simp only [walk, run_bind, goes i, Bool.false_eq_true, if_false, run_pure, ih,
      List.range_succ_eq_map, List.map_cons, List.map_map, Nat.add_zero, Function.comp_def]
    refine congrArg (_ :: ·) (List.map_congr_left (fun k _ => ?_))
    rw [Nat.add_assoc, Nat.add_comm 1 k]

end Scan
