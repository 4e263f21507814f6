import Mathlib.Data.Finset.Basic

/-!
# Sets that follow notices

A receiver keeps a set of pairs of a key and a value. Notices insert and erase single
pairs; inserting what is there and erasing what is absent change nothing.
-/

namespace PairNotices

variable {K V : Type} [DecidableEq K] [DecidableEq V]

structure Notice (K V : Type) where
  add : Bool
  key : K
  value : V
  deriving DecidableEq, Repr

def deliver (side : Finset (K × V)) (n : Notice K V) : Finset (K × V) :=
  if n.add then insert (n.key, n.value) side else side.erase (n.key, n.value)

def deliverAll (side : Finset (K × V)) (ns : List (Notice K V)) : Finset (K × V) :=
  ns.foldl deliver side

/-- Notices about the values of one key. -/
def notices (add : Bool) (k : K) (vs : List V) : List (Notice K V) :=
  vs.map fun v => ⟨add, k, v⟩

theorem deliverAll_append (side : Finset (K × V)) (first second : List (Notice K V)) :
    deliverAll side (first ++ second) = deliverAll (deliverAll side first) second :=
  List.foldl_append

variable {side : Finset (K × V)} {ns : List (Notice K V)} {x : K × V}

theorem mem_deliverAll_of_adds (adds : ∀ n ∈ ns, n.add = true) :
    x ∈ deliverAll side ns ↔ x ∈ side ∨ ∃ n ∈ ns, x = (n.key, n.value) := by
  induction ns generalizing side with
  | nil => simp [deliverAll]
  | cons n ns ih =>
    have later := @ih (deliver side n) fun m member => adds m (List.mem_cons_of_mem n member)
    refine later.trans ?_
    rw [deliver, if_pos (adds n (List.mem_cons_self ..)), Finset.mem_insert,
      List.exists_mem_cons_iff]
    tauto

theorem mem_deliverAll_of_erasures (erases : ∀ n ∈ ns, n.add = false) :
    x ∈ deliverAll side ns ↔ x ∈ side ∧ ∀ n ∈ ns, x ≠ (n.key, n.value) := by
  induction ns generalizing side with
  | nil => simp [deliverAll]
  | cons n ns ih =>
    have later := @ih (deliver side n) fun m member =>
      erases m (List.mem_cons_of_mem n member)
    refine later.trans ?_
    rw [deliver, erases n (List.mem_cons_self ..), if_neg Bool.false_ne_true, Finset.mem_erase,
      List.forall_mem_cons]
    tauto

theorem mem_deliverAll_of_known
    (adds : ∀ n ∈ ns, n.add = true) (known : ∀ n ∈ ns, (n.key, n.value) ∈ side) :
    x ∈ deliverAll side ns ↔ x ∈ side := by
  rw [mem_deliverAll_of_adds adds]
  constructor
  · rintro (there | ⟨n, member, rfl⟩)
    · exact there
    · exact known n member
  · exact Or.inl

/-- Erasing at least the values of a key and adding others replaces its values, and leaves
those of other keys alone. -/
theorem mem_deliverAll_replace {k : K} {erased added : List V}
    (all : ∀ v, (k, v) ∈ side → v ∈ erased) {k' : K} {v : V} :
    (k', v) ∈ deliverAll side (notices false k erased ++ notices true k added) ↔
      if k' = k then v ∈ added else (k', v) ∈ side := by
  have adds : ∀ n ∈ notices true k added, n.add = true := by simp [notices]
  have erases : ∀ n ∈ notices false k erased, n.add = false := by simp [notices]
  rw [deliverAll_append, mem_deliverAll_of_adds adds, mem_deliverAll_of_erasures erases]
  by_cases here : k' = k
  · subst here
    have gone := all v
    simp only [notices, List.mem_map, if_true]
    constructor
    · rintro (⟨there, apart⟩ | ⟨_, ⟨w, member, rfl⟩, same⟩)
      · exact absurd rfl (apart _ ⟨v, gone there, rfl⟩)
      · cases same
        exact member
    · exact fun member => .inr ⟨_, ⟨v, member, rfl⟩, rfl⟩
  · simp [notices, here]

end PairNotices
