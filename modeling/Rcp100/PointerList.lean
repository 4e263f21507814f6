import Mathlib.Data.List.Induction
import Mathlib.Data.List.Nodup
import Mathlib.Logic.Function.Basic
import Mathlib.Tactic.Common

/-!
# Lists of linked cells

The links of all cells are functions from pointers to pointers. A path is the list of cells
met from a pointer on; it is a doubly linked one when each cell also points back to the
cell before it.
-/

namespace PointerList

variable {P : Type}

/-- The cells from `start` on, up to the pointer `stop`. -/
def Path (next : P → Option P) : Option P → List P → Option P → Prop
  | start, [], stop => start = stop
  | start, p :: ps, stop => start = some p ∧ Path next (next p) ps stop

/-- A path whose cells point back, the first one to `before`. -/
def DPath (next prev : P → Option P) : Option P → Option P → List P → Option P → Prop
  | _, start, [], stop => start = stop
  | before, start, p :: ps, stop =>
    start = some p ∧ prev p = before ∧ DPath next prev (some p) (next p) ps stop

/-- The cell before the end of a path. -/
def lastOr : Option P → List P → Option P
  | before, [] => before
  | _, p :: ps => lastOr (some p) ps

section Paths

variable {next next' : P → Option P} {start stop : Option P} {ps qs : List P}

theorem Path.congr (path : Path next start ps stop) (same : ∀ p ∈ ps, next' p = next p) :
    Path next' start ps stop := by
  induction ps generalizing start with
  | nil => exact path
  | cons p ps ih =>
    refine ⟨path.1, ?_⟩
    rw [same p List.mem_cons_self]
    exact ih path.2 (fun q member => same q (List.mem_cons_of_mem p member))

theorem path_append : Path next start (ps ++ qs) stop ↔
    ∃ middle, Path next start ps middle ∧ Path next middle qs stop := by
  induction ps generalizing start with
  | nil => exact ⟨fun path => ⟨start, rfl, path⟩, fun ⟨_, same, path⟩ => same ▸ path⟩
  | cons p ps ih =>
    rw [List.cons_append, Path, ih]
    constructor
    · rintro ⟨here, middle, front, back⟩
      exact ⟨middle, ⟨here, front⟩, back⟩
    · rintro ⟨middle, ⟨here, front⟩, back⟩
      exact ⟨here, middle, front, back⟩

theorem Path.unique (first : Path next start ps none) (second : Path next start qs none) :
    ps = qs := by
  induction ps generalizing start qs with
  | nil =>
    cases qs with
    | nil => rfl
    | cons q qs => cases first.symm.trans second.1
  | cons p ps ih =>
    cases qs with
    | nil => cases second.symm.trans first.1
    | cons q qs =>
      cases Option.some.inj (first.1.symm.trans second.1)
      rw [ih first.2 second.2]

theorem Path.start_eq (path : Path next start ps none) : start = ps.head? := by
  cases ps with
  | nil => exact path
  | cons p ps => exact path.1

/-- Of two paths from one pointer the longer one runs through the end of the shorter. -/
theorem Path.compare {stop' : Option P} (first : Path next start ps stop)
    (second : Path next start qs stop') :
    (∃ more, qs = ps ++ more ∧ Path next stop more stop') ∨
      ∃ more, ps = qs ++ more ∧ Path next stop' more stop := by
  induction ps generalizing start qs with
  | nil => exact .inl ⟨qs, rfl, first ▸ second⟩
  | cons p ps ih =>
    cases qs with
    | nil => exact .inr ⟨p :: ps, rfl, second ▸ first⟩
    | cons q qs =>
      cases Option.some.inj (first.1.symm.trans second.1)
      rcases ih first.2 second.2 with ⟨more, rfl, path⟩ | ⟨more, rfl, path⟩
      · exact .inl ⟨more, rfl, path⟩
      · exact .inr ⟨more, rfl, path⟩

/-- A path stays among the cells that the links do not leave. -/
theorem Path.within {cells : List P} (closed : ∀ p ∈ cells, ∀ q, next p = some q → q ∈ cells)
    (inside : ∀ p, start = some p → p ∈ cells) (path : Path next start ps stop) :
    ∀ p ∈ ps, p ∈ cells := by
  induction ps generalizing start with
  | nil => exact fun p member => by cases member
  | cons q qs ih =>
    have here := inside q path.1
    intro p member
    rcases List.mem_cons.mp member with rfl | later
    · exact here
    · exact ih (closed q here) path.2 p later

theorem path_nil (path : Path next start ps none) : start = none ↔ ps = [] := by
  cases ps with
  | nil => exact ⟨fun _ => rfl, fun _ => path⟩
  | cons p ps =>
    rw [path.1]
    simp

theorem Path.remove {c p : P} (path : Path next start (ps ++ c :: p :: qs) stop)
    (link : next' c = next p) (front : ∀ q ∈ ps, next' q = next q)
    (back : ∀ q ∈ qs, next' q = next q) : Path next' start (ps ++ c :: qs) stop := by
  obtain ⟨middle, before, here, -, after⟩ := path_append.mp path
  refine path_append.mpr ⟨middle, before.congr front, here, ?_⟩
  rw [link]
  exact after.congr back

end Paths

section DoublyLinked

variable {next next' prev prev' : P → Option P} {before start stop : Option P} {ps qs : List P}

theorem DPath.path (path : DPath next prev before start ps stop) : Path next start ps stop := by
  induction ps generalizing before start with
  | nil => exact path
  | cons p ps ih => exact ⟨path.1, ih path.2.2⟩

theorem DPath.congr (path : DPath next prev before start ps stop)
    (nexts : ∀ p ∈ ps, next' p = next p) (prevs : ∀ p ∈ ps, prev' p = prev p) :
    DPath next' prev' before start ps stop := by
  induction ps generalizing before start with
  | nil => exact path
  | cons p ps ih =>
    refine ⟨path.1, (prevs p List.mem_cons_self).trans path.2.1, ?_⟩
    rw [nexts p List.mem_cons_self]
    exact ih path.2.2 (fun q member => nexts q (List.mem_cons_of_mem p member))
      (fun q member => prevs q (List.mem_cons_of_mem p member))

theorem dPath_append : DPath next prev before start (ps ++ qs) stop ↔
    ∃ middle, DPath next prev before start ps middle ∧
      DPath next prev (lastOr before ps) middle qs stop := by
  induction ps generalizing before start with
  | nil => exact ⟨fun path => ⟨start, rfl, path⟩, fun ⟨_, same, path⟩ => same ▸ path⟩
  | cons p ps ih =>
    rw [List.cons_append, DPath, ih]
    constructor
    · rintro ⟨here, back, middle, front, rest⟩
      exact ⟨middle, ⟨here, back, front⟩, rest⟩
    · rintro ⟨middle, ⟨here, back, front⟩, rest⟩
      exact ⟨here, back, middle, front, rest⟩

theorem lastOr_snoc (c : P) : lastOr before (ps ++ [c]) = some c := by
  induction ps generalizing before with
  | nil => rfl
  | cons p ps ih => exact ih

theorem DPath.rebase {before' : Option P} (path : DPath next prev before start ps stop)
    (nodup : ps.Nodup) (nexts : ∀ p ∈ ps, next' p = next p)
    (prevs : ∀ p ∈ ps, start ≠ some p → prev' p = prev p)
    (first : ∀ p, start = some p → p ∈ ps → prev' p = before') :
    DPath next' prev' before' start ps stop := by
  cases ps with
  | nil => exact path
  | cons p ps =>
    obtain ⟨here, -, rest⟩ := path
    obtain ⟨fresh, -⟩ := List.nodup_cons.mp nodup
    refine ⟨here, first p here List.mem_cons_self, ?_⟩
    rw [nexts p List.mem_cons_self]
    refine rest.congr (fun q member => nexts q (List.mem_cons_of_mem p member)) ?_
    intro q member
    refine prevs q (List.mem_cons_of_mem p member) ?_
    rw [here]
    rintro ⟨⟩
    exact fresh member

theorem DPath.mem_of_start {p : P} (path : DPath next prev before start ps none)
    (here : start = some p) : p ∈ ps := by
  cases ps with
  | nil => cases here.symm.trans path
  | cons q qs =>
    cases Option.some.inj (here.symm.trans path.1)
    exact List.mem_cons_self

theorem DPath.start_of_append {c : P} (path : DPath next prev before start (ps ++ c :: qs) stop) :
    ∃ p ∈ ps ++ [c], start = some p := by
  cases ps with
  | nil => exact ⟨c, List.mem_singleton_self c, path.1⟩
  | cons p ps => exact ⟨p, List.mem_cons_self, path.1⟩

theorem DPath.remove {c p : P} (path : DPath next prev before start (ps ++ c :: p :: qs) none)
    (nodup : (ps ++ c :: p :: qs).Nodup) (link : next' c = next p)
    (back : ∀ q, next p = some q → prev' q = some c)
    (nexts : ∀ q ∈ ps ++ qs, next' q = next q)
    (prevs : ∀ q ∈ ps ++ c :: qs, next p ≠ some q → prev' q = prev q) :
    DPath next' prev' before start (ps ++ c :: qs) none := by
  obtain ⟨middle, front, here, backC, -, -, rest⟩ := dPath_append.mp path
  obtain ⟨-, nodupC, disjoint⟩ := List.nodup_append.mp nodup
  obtain ⟨freshC, nodupP⟩ := List.nodup_cons.mp nodupC
  have other : ∀ q ∈ ps ++ [c], next p ≠ some q := by
    intro q member link
    have later := rest.mem_of_start link
    rcases List.mem_append.mp member with inFront | isC
    · exact disjoint q inFront q (by simp [later]) rfl
    · rw [List.mem_singleton.mp isC] at later
      exact freshC (List.mem_cons_of_mem p later)
  refine dPath_append.mpr ⟨middle, ?_, here, ?_, ?_⟩
  · refine front.congr (fun q member => nexts q (List.mem_append_left _ member)) ?_
    intro q member
    exact prevs q (List.mem_append_left _ member) (other q (List.mem_append_left _ member))
  · rw [prevs c (by simp) (other c (by simp))]
    exact backC
  · rw [link]
    refine rest.rebase (List.nodup_cons.mp nodupP).2
      (fun q member => nexts q (List.mem_append_right _ member)) ?_ (fun q h _ => back q h)
    intro q member
    exact prevs q (List.mem_append_right _ (List.mem_cons_of_mem c member))

theorem DPath.redirect {stop' : Option P} {c : P}
    (path : DPath next prev before start (ps ++ [c]) stop)
    (link : next' c = stop') (nexts : ∀ q ∈ ps, next' q = next q)
    (prevs : ∀ q ∈ ps ++ [c], prev' q = prev q) :
    DPath next' prev' before start (ps ++ [c]) stop' := by
  obtain ⟨middle, front, here, back, -⟩ := dPath_append.mp path
  refine dPath_append.mpr ⟨middle, ?_, here, ?_, link⟩
  · exact front.congr nexts (fun q member => prevs q (List.mem_append_left _ member))
  · rw [prevs c (by simp)]
    exact back

theorem DPath.replace {old p : P} (path : DPath next prev none start (ps ++ old :: qs) none)
    (nodup : (ps ++ old :: qs).Nodup)
    (nextP : next' p = next old) (prevP : prev' p = prev old)
    (forward : ∀ q, prev old = some q → next' q = some p)
    (back : ∀ q, next old = some q → prev' q = some p)
    (nexts : ∀ q ∈ ps ++ qs, prev old ≠ some q → next' q = next q)
    (prevs : ∀ q ∈ ps ++ qs, next old ≠ some q → prev' q = prev q) :
    DPath next' prev' none (if ps = [] then some p else start) (ps ++ p :: qs) none := by
  obtain ⟨middle, front, here, backOld, rest⟩ := dPath_append.mp path
  obtain ⟨nodupPs, nodupOld, disjoint⟩ := List.nodup_append.mp nodup
  have nodupQs := (List.nodup_cons.mp nodupOld).2
  have afterOld : ∀ q ∈ ps, next old ≠ some q := by
    intro q member link
    exact disjoint q member q (List.mem_cons_of_mem old (rest.mem_of_start link)) rfl
  have restP : prev old = lastOr none ps → DPath next' prev' (some p) (next' p) qs none := by
    intro last
    rw [nextP]
    refine rest.rebase nodupQs ?_ ?_ (fun q h _ => back q h)
    · intro q member
      refine nexts q (List.mem_append_right _ member) ?_
      intro link
      rcases List.eq_nil_or_concat ps with rfl | ⟨l, c, rfl⟩
      · cases last.symm.trans link
      · rw [List.concat_eq_append, lastOr_snoc, link, Option.some.injEq] at last
        subst last
        exact disjoint q (by simp) q (List.mem_cons_of_mem old member) rfl
    · exact fun q member other => prevs q (List.mem_append_right _ member) other
  refine dPath_append.mpr ⟨some p, ?_, rfl, prevP.trans backOld, restP backOld⟩
  rcases List.eq_nil_or_concat ps with rfl | ⟨l, c, rfl⟩
  · rfl
  · rw [List.concat_eq_append] at *
    rw [if_neg (by simp)]
    rw [lastOr_snoc] at backOld
    rw [here] at front
    have freshC : c ∉ l := by
      intro member
      exact (List.nodup_append.mp nodupPs).2.2 c member c (by simp) rfl
    refine front.redirect (forward c backOld) ?_ ?_
    · intro q member
      refine nexts q (by simp [member]) ?_
      rw [backOld]
      rintro ⟨⟩
      exact freshC member
    · exact fun q member => prevs q (List.mem_append_left _ member) (afterOld q member)

section Updates

variable [DecidableEq P] (link : P → Option P) (target value : Option P)

/-- The links after the cell behind a pointer, if there is one, got a new one. -/
def linkTo : P → Option P :=
  match target with
  | none => link
  | some p => Function.update link p value

variable {link target value}

theorem linkTo_self {p : P} (here : target = some p) : linkTo link target value p = value := by
  subst here
  exact Function.update_self ..

theorem linkTo_other {p : P} (other : target ≠ some p) : linkTo link target value p = link p := by
  cases target with
  | none => rfl
  | some q =>
    refine Function.update_of_ne ?_ _ _
    rintro rfl
    exact other rfl

end Updates

end DoublyLinked

section Pushed

variable [DecidableEq P]

/-- A cell is linked in front of a list, whether it is in the list or not. -/
def push (list : (P → Option P) × Option P) (p : P) : (P → Option P) × Option P :=
  (Function.update list.1 p list.2, some p)

@[simp] theorem push_self (list : (P → Option P) × Option P) (p : P) :
    (push list p).1 p = list.2 :=
  Function.update_self (β := fun _ => Option P) p list.2 list.1

theorem push_other (list : (P → Option P) × Option P) {p q : P} (other : q ≠ p) :
    (push list p).1 q = list.1 q :=
  Function.update_of_ne (β := fun _ => Option P) other list.2 list.1

/-- What the links are after these cells were pushed, the last one first: each stretch
without a repetition is a path to the cell pushed before it. -/
structure Pushed (list : (P → Option P) × Option P) (cells : List P) : Prop where
  head : list.2 = cells.head?
  path : ∀ front back, cells = front ++ back → front.Nodup →
    Path list.1 list.2 front back.head?
  closed : ∀ p ∈ cells, ∀ q, list.1 p = some q → q ∈ cells

omit [DecidableEq P] in
theorem Pushed.nil (next : P → Option P) : Pushed (next, none) [] where
  head := rfl
  path front back split _ := by
    obtain ⟨rfl, rfl⟩ := List.nil_eq_append_iff.mp split
    rfl
  closed _ member := by cases member

variable {list : (P → Option P) × Option P} {cells : List P}

theorem Pushed.push (pushed : Pushed list cells) (p : P) :
    Pushed (PointerList.push list p) (p :: cells) where
  head := rfl
  path front back split nodup := by
    cases front with
    | nil => exact (congrArg List.head? split : some p = back.head?)
    | cons q front =>
      obtain ⟨rfl, rest⟩ := List.cons.inj split
      obtain ⟨fresh, nodup⟩ := List.nodup_cons.mp nodup
      refine ⟨rfl, ?_⟩
      rw [push_self]
      refine (pushed.path front back rest nodup).congr fun q member => ?_
      exact push_other list fun same => fresh (same ▸ member)
  closed q member r link := by
    by_cases here : q = p
    · subst here
      rw [push_self, pushed.head] at link
      exact List.mem_cons_of_mem q (List.mem_of_mem_head? link)
    · rw [push_other list here] at link
      have inside := (List.mem_cons.mp member).resolve_left here
      exact List.mem_cons_of_mem p (pushed.closed q inside r link)

theorem Pushed.foldl (pushed : Pushed list cells) (ps : List P) :
    Pushed (ps.foldl PointerList.push list) (ps.reverse ++ cells) := by
  induction ps generalizing list cells with
  | nil => exact pushed
  | cons p ps ih =>
    rw [List.foldl_cons, List.reverse_cons, List.append_assoc]
    exact ih (pushed.push p)

theorem exists_front (cells : List P) : ∃ front back, cells = front ++ back ∧ front.Nodup ∧
    ∀ p ∈ back.head?, p ∈ front := by
  induction cells using List.reverseRecOn with
  | nil => exact ⟨[], [], rfl, List.nodup_nil, fun p member => by cases member⟩
  | append_singleton cells p ih =>
    obtain ⟨front, back, rfl, nodup, repeated⟩ := ih
    cases back with
    | cons q back => exact ⟨front, q :: back ++ [p], List.append_assoc _ _ _, nodup, repeated⟩
    | nil =>
      rw [List.append_nil]
      by_cases known : p ∈ front
      · refine ⟨front, [p], rfl, nodup, fun q member => ?_⟩
        cases Option.some.inj member
        exact known
      · refine ⟨front ++ [p], [], (List.append_nil _).symm, ?_, fun q member => by cases member⟩
        exact List.nodup_append.mpr ⟨nodup, List.nodup_singleton p, fun q member r single => by
          cases List.mem_singleton.mp single
          exact fun same => known (same ▸ member)⟩

end Pushed

end PointerList
