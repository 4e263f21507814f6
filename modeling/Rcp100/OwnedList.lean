import Mathlib.Data.List.Basic
import Mathlib.Tactic.Common

/-!
# Lists with owned records

The records of a list have keys, and some carry the flag of their owner. The owner
searches the list by key, replaces or removes what it finds when the flag is set, and puts
new records in front. Records without the flag may share a key with an owned one, but only
behind it.
-/

namespace OwnedList

variable {E K : Type} [DecidableEq K] (key : E → K) (flag : E → Bool)

def find (list : List E) (k : K) : Option E := list.find? (fun e => key e = k)

/-- The record that the search returns, when it is owned. -/
def own (list : List E) (k : K) : Option E := (find key list k).filter flag

/-- The record that the search returns is unlinked. -/
def unlink (list : List E) (k : K) : List E := list.eraseP (fun e => key e = k)

/-- The owned record under the key goes. -/
def drop (list : List E) (k : K) : List E :=
  if (own key flag list k).isSome then unlink key list k else list

/-- The owned record under the key is replaced. -/
def put (list : List E) (e : E) : List E := e :: drop key flag list (key e)

/-- The record that the search returns is changed in place. -/
def touch (list : List E) (k : K) (f : E → E) : List E :=
  match list with
  | [] => []
  | e :: rest => if key e = k then f e :: rest else e :: touch rest k f

/-- Behind a record no owned one has the same key. -/
def OwnFirst (list : List E) : Prop := list.Pairwise (fun a b => key a = key b → flag b = false)

variable {key flag} {list : List E} {e : E} {k : K}

theorem find_cons : find key (e :: list) k = if key e = k then some e else find key list k := by
  by_cases here : key e = k
  · simp [find, here]
  · simp [find, here]

theorem own_cons : own key flag (e :: list) k =
    if key e = k then (if flag e then some e else none) else own key flag list k := by
  rw [own, find_cons]
  by_cases here : key e = k
  · rw [if_pos here, if_pos here, Option.filter_some]
  · rw [if_neg here, if_neg here, own]

theorem unlink_cons : unlink key (e :: list) k =
    if key e = k then list else e :: unlink key list k := by
  by_cases here : key e = k
  · simp [unlink, here]
  · simp [unlink, here]

theorem own_eq_some (first : OwnFirst key flag list) :
    own key flag list k = some e ↔ e ∈ list ∧ flag e = true ∧ key e = k := by
  induction list with
  | nil => simp [own, find]
  | cons a list ih =>
    obtain ⟨before, rest⟩ := List.pairwise_cons.mp first
    rw [own_cons]
    by_cases here : key a = k
    · rw [if_pos here]
      constructor
      · intro found
        split at found
        · rename_i owned
          cases found
          exact ⟨List.mem_cons_self, owned, here⟩
        · cases found
      · rintro ⟨member, owned, keyed⟩
        rcases List.mem_cons.mp member with rfl | later
        · rw [if_pos owned]
        · have other := before e later (here.trans keyed.symm)
          rw [owned] at other
          cases other
    · rw [if_neg here, ih rest]
      constructor
      · rintro ⟨member, owned, keyed⟩
        exact ⟨List.mem_cons_of_mem _ member, owned, keyed⟩
      · rintro ⟨member, owned, keyed⟩
        rcases List.mem_cons.mp member with rfl | later
        · exact absurd keyed here
        · exact ⟨later, owned, keyed⟩

omit [DecidableEq K] in
/-- The property depends on the keys and the flags only, and survives removals. -/
theorem OwnFirst.of_map_sublist {list' : List E} (first : OwnFirst key flag list)
    (less : (list'.map (fun e => (key e, flag e))).Sublist (list.map (fun e => (key e, flag e)))) :
    OwnFirst key flag list' := by
  have pairs : (list.map (fun e => (key e, flag e))).Pairwise
      (fun a b => a.1 = b.1 → b.2 = false) := List.pairwise_map.mpr first
  exact List.pairwise_map.mp (pairs.sublist less)

theorem unlink_sublist : (unlink key list k).Sublist list := List.eraseP_sublist

theorem own_unlink_of_ne {j : K} (other : j ≠ k) :
    own key flag (unlink key list j) k = own key flag list k := by
  induction list with
  | nil => rfl
  | cons a list ih =>
    rw [unlink_cons]
    by_cases here : key a = j
    · have apart : key a ≠ k := fun eq => other (here.symm.trans eq)
      rw [if_pos here, own_cons, if_neg apart]
    · rw [if_neg here, own_cons, own_cons, ih]

theorem own_unlink_self (first : OwnFirst key flag list) :
    own key flag (unlink key list k) k = none := by
  induction list with
  | nil => rfl
  | cons a list ih =>
    obtain ⟨before, rest⟩ := List.pairwise_cons.mp first
    rw [unlink_cons]
    by_cases here : key a = k
    · rw [if_pos here]
      cases found : own key flag list k with
      | none => rfl
      | some e =>
        obtain ⟨member, owned, keyed⟩ := (own_eq_some rest).mp found
        have other := before e member (here.trans keyed.symm)
        rw [owned] at other
        cases other
    · rw [if_neg here, own_cons, if_neg here, ih rest]

theorem drop_sublist : (drop key flag list k).Sublist list := by
  unfold drop
  split
  · exact unlink_sublist
  · exact List.Sublist.refl _

theorem filter_drop (list : List E) (k : K) :
    (drop key flag list k).filter (fun e => !flag e) = list.filter (fun e => !flag e) := by
  unfold drop
  split
  · rename_i owned
    induction list with
    | nil => rfl
    | cons a list ih =>
      rw [own_cons] at owned
      rw [unlink_cons]
      by_cases here : key a = k
      · rw [if_pos here] at owned
        rw [if_pos here]
        cases flagged : flag a with
        | true => rw [List.filter_cons_of_neg (by simp [flagged])]
        | false => simp [flagged] at owned
      · rw [if_neg here] at owned
        rw [if_neg here, List.filter_cons, List.filter_cons, ih owned]
  · rfl

theorem OwnFirst.drop (first : OwnFirst key flag list) (k : K) :
    OwnFirst key flag (drop key flag list k) :=
  List.Pairwise.sublist drop_sublist first

theorem own_drop (first : OwnFirst key flag list) (j : K) :
    own key flag (drop key flag list j) k = if j = k then none else own key flag list k := by
  by_cases here : j = k
  · subst here
    rw [if_pos rfl]
    unfold OwnedList.drop
    split
    · exact own_unlink_self first
    · rename_i absent
      simpa using absent
  · rw [if_neg here]
    unfold OwnedList.drop
    split
    · exact own_unlink_of_ne here
    · rfl

theorem own_put (first : OwnFirst key flag list) (owned : flag e = true) :
    own key flag (put key flag list e) k = if key e = k then some e else own key flag list k := by
  rw [put, own_cons, if_pos owned]
  by_cases here : key e = k
  · rw [if_pos here, if_pos here]
  · rw [if_neg here, if_neg here, own_drop first, if_neg here]

theorem OwnFirst.put (first : OwnFirst key flag list) (e : E) :
    OwnFirst key flag (put key flag list e) := by
  refine List.pairwise_cons.mpr ⟨?_, first.drop (key e)⟩
  intro b member keyed
  cases owned : flag b with
  | false => rfl
  | true =>
    have found := (own_eq_some (first.drop (key e))).mpr ⟨member, owned, keyed.symm⟩
    rw [own_drop first, if_pos rfl] at found
    cases found

section InPlace

variable {f : E → E} (keyed : ∀ e, key (f e) = key e) (flagged : ∀ e, flag (f e) = flag e)

include keyed flagged

omit [DecidableEq K] in
theorem OwnFirst.map (first : OwnFirst key flag list) : OwnFirst key flag (list.map f) := by
  refine first.of_map_sublist ?_
  rw [List.map_map]
  have same : (fun e => (key e, flag e)) ∘ f = fun e => (key e, flag e) :=
    funext (fun e => Prod.ext (keyed e) (flagged e))
  rw [same]

theorem own_map : own key flag (list.map f) k = (own key flag list k).map f := by
  induction list with
  | nil => rfl
  | cons a list ih =>
    rw [List.map_cons, own_cons, own_cons, keyed, flagged, ih]
    split
    · split
      · rfl
      · rfl
    · rfl

theorem OwnFirst.touch (first : OwnFirst key flag list) (k : K) :
    OwnFirst key flag (touch key list k f) := by
  refine first.of_map_sublist ?_
  have same : (OwnedList.touch key list k f).map (fun e => (key e, flag e)) =
      list.map (fun e => (key e, flag e)) := by
    clear first
    induction list with
    | nil => rfl
    | cons a list ih =>
      rw [OwnedList.touch]
      split
      · rw [List.map_cons, List.map_cons, keyed, flagged]
      · rw [List.map_cons, List.map_cons, ih]
  rw [same]

theorem own_touch (j : K) : own key flag (touch key list j f) k =
    if j = k then (own key flag list k).map f else own key flag list k := by
  induction list with
  | nil => simp [touch, own, find]
  | cons a list ih =>
    rw [touch]
    by_cases here : key a = j
    · rw [if_pos here, own_cons, own_cons, keyed, flagged]
      by_cases found : key a = k
      · rw [if_pos found, if_pos found, if_pos (here.symm.trans found)]
        split
        · rfl
        · rfl
      · rw [if_neg found, if_neg found, if_neg (fun eq => found (here.trans eq))]
    · rw [if_neg here, own_cons, own_cons, ih]
      by_cases found : key a = k
      · have apart : j ≠ k := fun eq => here (found.trans eq.symm)
        simp only [if_pos found, if_neg apart]
      · simp only [if_neg found]

end InPlace

theorem own_filter (first : OwnFirst key flag list) (p : E → Bool) :
    own key flag (list.filter p) k = (own key flag list k).filter p := by
  have rest : OwnFirst key flag (list.filter p) := List.Pairwise.sublist List.filter_sublist first
  refine Option.ext (fun e => ?_)
  rw [own_eq_some rest, Option.filter_eq_some_iff, own_eq_some first, List.mem_filter]
  constructor
  · rintro ⟨⟨member, passes⟩, owned, keyed⟩
    exact ⟨⟨member, owned, keyed⟩, passes⟩
  · rintro ⟨⟨member, owned, keyed⟩, passes⟩
    exact ⟨⟨member, passes⟩, owned, keyed⟩

/-- A new record replaces the owned one, unless the two are alike. -/
def refresh (key : E → K) (flag : E → Bool) (same : E → E → Bool) (list : List E) (e : E) :
    List E :=
  if (own key flag list (key e)).any (same e) then list else put key flag list e

/-- What is left under the key of a new record. -/
def fresher (same : E → E → Bool) (old : Option E) (e : E) : E := (old.filter (same e)).getD e

theorem own_refresh {same : E → E → Bool} (first : OwnFirst key flag list)
    (owned : flag e = true) :
    own key flag (refresh key flag same list e) k =
      if key e = k then some (fresher same (own key flag list k) e) else own key flag list k := by
  rw [refresh]
  by_cases here : key e = k
  · subst here
    rw [if_pos rfl]
    cases found : own key flag list (key e) with
    | none =>
      rw [Option.any_none, if_neg Bool.false_ne_true, own_put first owned, if_pos rfl]
      rfl
    | some old =>
      rw [Option.any_some]
      by_cases alike : same e old = true
      · rw [if_pos alike, found, fresher, Option.filter_some, if_pos alike, Option.getD_some]
      · rw [if_neg alike, own_put first owned, if_pos rfl, fresher, Option.filter_some,
          if_neg alike, Option.getD_none]
  · rw [if_neg here]
    split_ifs
    · rfl
    · rw [own_put first owned, if_neg here]

theorem OwnFirst.refresh {same : E → E → Bool} (first : OwnFirst key flag list) (e : E) :
    OwnFirst key flag (refresh key flag same list e) := by
  unfold OwnedList.refresh
  split
  · exact first
  · exact first.put e

/-- The owned records with a marked key go. -/
def sweep (key : E → K) (flag : E → Bool) (marked : K → Bool) (list : List E) : List E :=
  list.filter (fun e => !(flag e && marked (key e)))

omit [DecidableEq K] in
theorem OwnFirst.sweep {marked : K → Bool} (first : OwnFirst key flag list) :
    OwnFirst key flag (sweep key flag marked list) :=
  List.Pairwise.sublist List.filter_sublist first

theorem own_sweep {marked : K → Bool} (first : OwnFirst key flag list) :
    own key flag (sweep key flag marked list) k =
      if marked k then none else own key flag list k := by
  rw [sweep, own_filter first]
  cases found : own key flag list k with
  | none => rw [Option.filter_none, ite_self]
  | some e =>
    obtain ⟨-, owned, keyed⟩ := (own_eq_some first).mp found
    rw [Option.filter_some, owned, keyed]
    cases marked k <;> rfl

end OwnedList
