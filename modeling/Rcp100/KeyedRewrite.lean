import Mathlib.Logic.Function.Basic
import Mathlib.Tactic.Common

/-!
# Tables that are rewritten by commands

A table maps keys to values. A command asks for a value under its key, or for none; it
writes only when what it finds is not the same. `same` may be coarser than equality, so
that a command can leave a value that differs from the one it asks for.
-/

namespace KeyedRewrite

variable {K V : Type} [DecidableEq K]

/-- The value that is asked for under a key. -/
structure Command (K V : Type) where
  key : K
  target : Option V

variable (same : V → V → Prop) [DecidableRel same]

/-- What a command makes of the value it finds. -/
def cell : Option V → Option V → Option V
  | none, _ => none
  | some a, none => some a
  | some a, some b => if same a b then some b else some a

/-- The command finds what it asks for. -/
def Quiet : Option V → Option V → Prop
  | none, old => old = none
  | some _, none => False
  | some a, some b => same a b

/-- Two commands can both be quiet. -/
def Agree : Option V → Option V → Prop
  | none, none => True
  | some a, some b => same a b
  | _, _ => False

instance (target old : Option V) : Decidable (Quiet same target old) :=
  match target, old with
  | none, none => .isTrue rfl
  | none, some _ => .isFalse (fun h => nomatch h)
  | some _, none => .isFalse id
  | some a, some b => inferInstanceAs (Decidable (same a b))

def step (table : K → Option V) (c : Command K V) : K → Option V :=
  Function.update table c.key (cell same c.target (table c.key))

def run (table : K → Option V) (cs : List (Command K V)) : K → Option V :=
  cs.foldl (step same) table

/-- No command of the run writes. -/
def QuietRun : (K → Option V) → List (Command K V) → Prop
  | _, [] => True
  | table, c :: cs => Quiet same c.target (table c.key) ∧ QuietRun (step same table c) cs

variable {same} {table : K → Option V} {cs : List (Command K V)} {k : K}

theorem cell_eq (a : V) [DecidableEq V] (old : Option V) : cell Eq (some a) old = some a := by
  cases old with
  | none => rfl
  | some b =>
    by_cases eq : a = b
    · rw [cell, if_pos eq, eq]
    · exact if_neg eq

theorem cell_of_quiet {target old : Option V} (quiet : Quiet same target old) :
    cell same target old = old := by
  match target, old with
  | none, old => exact quiet.symm
  | some a, none => exact quiet.elim
  | some a, some b => exact if_pos quiet

theorem cell_quiet (refl : ∀ a, same a a) (target old : Option V) :
    Quiet same target (cell same target old) := by
  match target, old with
  | none, old => exact rfl
  | some a, none => exact refl a
  | some a, some b =>
    by_cases eq : same a b
    · simp [cell, eq, Quiet]
    · simpa [cell, eq, Quiet] using refl a

theorem step_of_ne {c : Command K V} (other : c.key ≠ k) : step same table c k = table k :=
  Function.update_of_ne (Ne.symm other) _ _

theorem step_self (c : Command K V) :
    step same table c c.key = cell same c.target (table c.key) :=
  Function.update_self ..

theorem step_of_quiet {c : Command K V} (quiet : Quiet same c.target (table c.key)) :
    step same table c = table := by
  rw [step, cell_of_quiet quiet, Function.update_eq_self]

theorem quietRun_iff : QuietRun same table cs ↔ ∀ c ∈ cs, Quiet same c.target (table c.key) := by
  induction cs with
  | nil => simp [QuietRun]
  | cons c cs ih =>
    rw [QuietRun, List.forall_mem_cons]
    constructor
    · rintro ⟨quiet, rest⟩
      rw [step_of_quiet quiet] at rest
      exact ⟨quiet, ih.mp rest⟩
    · rintro ⟨quiet, rest⟩
      rw [step_of_quiet quiet]
      exact ⟨quiet, ih.mpr rest⟩

theorem run_of_not_named (absent : ∀ c ∈ cs, c.key ≠ k) : run same table cs k = table k := by
  induction cs generalizing table with
  | nil => rfl
  | cons c cs ih =>
    obtain ⟨first, rest⟩ := List.forall_mem_cons.mp absent
    exact (ih rest).trans (step_of_ne first)

theorem cell_cell (refl : ∀ a, same a a) (target old : Option V) :
    cell same target (cell same target old) = cell same target old :=
  cell_of_quiet (cell_quiet refl target old)

/-- Commands that ask for one value under a key act as one command. -/
theorem run_of_one_target (refl : ∀ a, same a a) {target : Option V}
    (one : ∀ c ∈ cs, c.key = k → c.target = target) (named : ∃ c ∈ cs, c.key = k) :
    run same table cs k = cell same target (table k) := by
  induction cs generalizing table with
  | nil =>
    obtain ⟨c, hc, _⟩ := named
    cases hc
  | cons c cs ih =>
    obtain ⟨first, rest⟩ := List.forall_mem_cons.mp one
    by_cases later : ∃ c ∈ cs, c.key = k
    · refine (ih rest later).trans ?_
      by_cases here : c.key = k
      · subst here
        rw [step_self, first rfl, cell_cell refl]
      · rw [step_of_ne here]
    · have absent : ∀ c ∈ cs, c.key ≠ k := fun c hc eq => later ⟨c, hc, eq⟩
      have here : c.key = k := by
        obtain ⟨d, hd, eq⟩ := named
        rcases List.mem_cons.mp hd with rfl | tail
        · exact eq
        · exact absurd eq (absent d tail)
      subst here
      refine (run_of_not_named absent).trans ?_
      rw [step_self, first rfl]

omit [DecidableRel same] in
theorem Agree.of_quiet (equiv : Equivalence same) {a b old : Option V}
    (first : Quiet same a old) (second : Quiet same b old) : Agree same a b := by
  match a, b, old with
  | none, none, _ => exact trivial
  | none, some b, none => exact second.elim
  | none, some b, some c => cases first
  | some a, none, none => exact first.elim
  | some a, none, some c => cases second
  | some a, some b, none => exact first.elim
  | some a, some b, some c => exact equiv.trans first (equiv.symm second)

omit [DecidableRel same] in
theorem Agree.quiet (equiv : Equivalence same) {a b old : Option V} (agree : Agree same a b)
    (quiet : Quiet same b old) : Quiet same a old := by
  match a, b, old with
  | none, none, _ => exact quiet
  | none, some b, _ => exact agree.elim
  | some a, none, _ => exact agree.elim
  | some a, some b, none => exact quiet.elim
  | some a, some b, some c => exact equiv.trans agree quiet

theorem run_quiet_last (refl : ∀ a, same a a) (named : ∃ c ∈ cs, c.key = k) :
    ∃ c ∈ cs, c.key = k ∧ Quiet same c.target (run same table cs k) := by
  induction cs generalizing table with
  | nil =>
    obtain ⟨c, hc, _⟩ := named
    cases hc
  | cons c cs ih =>
    by_cases later : ∃ c ∈ cs, c.key = k
    · obtain ⟨d, hd, eq, quiet⟩ := @ih (step same table c) later
      exact ⟨d, List.mem_cons_of_mem _ hd, eq, quiet⟩
    · have absent : ∀ c ∈ cs, c.key ≠ k := fun c hc eq => later ⟨c, hc, eq⟩
      obtain ⟨d, hd, eq⟩ := named
      rcases List.mem_cons.mp hd with rfl | tail
      · refine ⟨d, List.mem_cons_self, eq, ?_⟩
        have last : run same table (d :: cs) k = step same table d k := run_of_not_named absent
        rw [last, ← eq, step_self]
        exact cell_quiet refl _ _
      · exact absurd eq (absent d tail)

theorem rerun_quiet_iff (equiv : Equivalence same) :
    QuietRun same (run same table cs) cs ↔
      ∀ c ∈ cs, ∀ d ∈ cs, c.key = d.key → Agree same c.target d.target := by
  rw [quietRun_iff]
  constructor
  · intro quiet c hc d hd eq
    have second := quiet d hd
    rw [← eq] at second
    exact Agree.of_quiet equiv (quiet c hc) second
  · intro agree c hc
    obtain ⟨d, hd, eq, quiet⟩ := @run_quiet_last _ _ _ same _ table cs c.key equiv.refl ⟨c, hc, rfl⟩
    exact (agree c hc d hd eq.symm).quiet equiv quiet

end KeyedRewrite
