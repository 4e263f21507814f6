import Mathlib.Data.List.MinMax

/-!
# Election by rank and declaration

Routers on a shared network elect a designated router and a backup. Each declares
what it takes itself to be; among those with equal claims the highest rank wins.
-/

namespace RankedElection

variable {R L : Type} [LinearOrder L]

/-- What a router's rank is, and what it declares itself to be. -/
structure Rules (R L : Type) where
  rank : R → L
  designated : R → Bool
  backup : R → Bool

namespace Rules

variable (rules : Rules R L)

/-- Routers that do not declare themselves designated stand for backup; those that
declare themselves backup come first. -/
def electBackup (routers : List R) : Option R :=
  ((routers.filter (fun r => !rules.designated r && rules.backup r)).argmax rules.rank).or
    ((routers.filter (fun r => !rules.designated r)).argmax rules.rank)

/-- Routers that declare themselves designated, or else the backup. -/
def electDesignated (routers : List R) : Option R :=
  ((routers.filter rules.designated).argmax rules.rank).or (rules.electBackup routers)

end Rules

theorem argmax_congr {M : Type} [LinearOrder M] {f : R → L} {g : R → M} {l : List R}
    (same : ∀ a ∈ l, ∀ b ∈ l, f a < f b ↔ g a < g b) : l.argmax f = l.argmax g := by
  induction l with
  | nil => rfl
  | cons a l ih =>
    rw [List.argmax_cons, List.argmax_cons, ← ih (fun x hx y hy =>
      same x (List.mem_cons_of_mem _ hx) y (List.mem_cons_of_mem _ hy))]
    cases best : l.argmax f with
    | none => rfl
    | some c =>
      have member := List.mem_cons_of_mem a (List.argmax_mem best)
      simp only [same a List.mem_cons_self c member]

theorem argmax_map {S : Type} (g : R → S) (f : S → L) (l : List R) :
    (l.map g).argmax f = (l.argmax (fun r => f (g r))).map g := by
  induction l with
  | nil => rfl
  | cons a l ih =>
    rw [List.map_cons, List.argmax_cons, List.argmax_cons, ih]
    cases l.argmax (fun r => f (g r)) with
    | none => rfl
    | some c =>
      simp only [Option.map_some]
      split
      · rfl
      · rfl

section Rules

variable {rules : Rules R L} {routers : List R} {x : R}

theorem electBackup_map {g : R → R} (rank : ∀ r, rules.rank (g r) = rules.rank r)
    (designated : ∀ r, rules.designated (g r) = rules.designated r)
    (backup : ∀ r, rules.backup (g r) = rules.backup r) :
    rules.electBackup (routers.map g) = (rules.electBackup routers).map g := by
  have first : (routers.map g).filter (fun r => !rules.designated r && rules.backup r) =
      (routers.filter (fun r => !rules.designated r && rules.backup r)).map g := by
    rw [List.filter_map]
    congr 2
    funext r
    simp [designated, backup]
  have second : (routers.map g).filter (fun r => !rules.designated r) =
      (routers.filter (fun r => !rules.designated r)).map g := by
    rw [List.filter_map]
    congr 2
    funext r
    simp [designated]
  simp only [Rules.electBackup, first, second, argmax_map, rank, Option.map_or]

theorem electBackup_cons_of_designated (declares : rules.designated x = true) :
    rules.electBackup (x :: routers) = rules.electBackup routers := by
  simp [Rules.electBackup, declares]

theorem electBackup_eq_none :
    rules.electBackup routers = none ↔ routers.filter (fun r => !rules.designated r) = [] := by
  simp only [Rules.electBackup, Option.or_eq_none_iff, List.argmax_eq_none]
  constructor
  · exact fun h => h.2
  · intro none
    refine ⟨?_, none⟩
    rw [List.filter_eq_nil_iff] at none ⊢
    intro r hr claims
    exact none r hr (Bool.and_eq_true_iff.mp claims).1

theorem electDesignated_eq_none : rules.electDesignated routers = none ↔ routers = [] := by
  simp only [Rules.electDesignated, Option.or_eq_none_iff, List.argmax_eq_none,
    electBackup_eq_none, List.filter_eq_nil_iff]
  constructor
  · rintro ⟨declared, standing⟩
    refine List.eq_nil_iff_forall_not_mem.mpr (fun r hr => ?_)
    cases claims : rules.designated r with
    | true => exact declared r hr claims
    | false => exact standing r hr (by simp [claims])
  · rintro rfl
    exact ⟨by simp, by simp⟩

theorem electBackup_filter (l : List R) :
    rules.electBackup (l.filter (fun r => !rules.designated r)) = rules.electBackup l := by
  simp only [Rules.electBackup, List.filter_filter]
  have first : (fun r => !rules.designated r && rules.backup r && !rules.designated r) =
      (fun r => !rules.designated r && rules.backup r) := by
    funext r
    cases rules.designated r with
    | true => simp
    | false => simp
  have second : (fun r => !rules.designated r && !rules.designated r) =
      (fun r => !rules.designated r) := by
    funext r
    simp
  rw [first, second]

theorem electBackup_cons_filter (l : List R) :
    rules.electBackup (x :: l.filter (fun r => !rules.designated r)) =
      rules.electBackup (x :: l) := by
  rw [← electBackup_filter (x :: l), ← electBackup_filter (x :: l.filter _), List.filter_cons,
    List.filter_cons, List.filter_filter]
  simp only [Bool.and_self]

/-- A router that stands for backup without declaring it competes with those who do
the same. -/
theorem electBackup_cons (stands : rules.designated x = false) (silent : rules.backup x = false) :
    rules.electBackup (x :: routers) =
      ((routers.filter (fun r => !rules.designated r && rules.backup r)).argmax rules.rank).or
        ((x :: routers.filter (fun r => !rules.designated r)).argmax rules.rank) := by
  simp [Rules.electBackup, stands, silent]

theorem electBackup_alone (stands : rules.designated x = false)
    (nobody : routers.filter (fun r => !rules.designated r) = []) :
    rules.electBackup (x :: routers) = some x := by
  rw [← electBackup_cons_filter, nobody]
  cases silent : rules.backup x with
  | true => simp [Rules.electBackup, stands, silent]
  | false => simp [Rules.electBackup, stands, silent]

end Rules

end RankedElection
