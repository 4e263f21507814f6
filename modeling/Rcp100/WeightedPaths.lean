import Mathlib.Data.Fintype.Card
import Mathlib.Data.List.Chain
import Mathlib.Data.List.Nodup
import Mathlib.Logic.Relation
import Mathlib.Order.Bounds.Basic

/-!
# Walks in a graph with costs

Walks from a root, least costs, and the conditions under which labels are the least
costs. Nothing is assumed about the vertices or the number of edges.
-/

namespace WeightedPaths

variable {α : Type*} {edge : α → α → Nat → Prop} {root : α}

/-- A walk from the root: its end, its cost, and the vertices it leaves, the last one
first. -/
inductive Walk (edge : α → α → Nat → Prop) (root : α) : α → Nat → List α → Prop where
  | nil : Walk edge root root 0 []
  | snoc {u v : α} {c w : Nat} {left : List α} :
    Walk edge root u c left → edge u v w → Walk edge root v (c + w) (u :: left)

def Reachable (edge : α → α → Nat → Prop) (root v : α) : Prop :=
  ∃ c left, Walk edge root v c left

/-- The cost is the least one of the walks to `v`. -/
def IsDist (edge : α → α → Nat → Prop) (root v : α) (d : Nat) : Prop :=
  IsLeast {c | ∃ left, Walk edge root v c left} d

/-- The edge continues a least walk to `u` to a least walk to `v`. -/
def Tight (edge : α → α → Nat → Prop) (cost : α → Nat) (u v : α) : Prop :=
  ∃ w, edge u v w ∧ cost u + w = cost v

theorem Walk.reachable_of_mem {v x : α} {c : Nat} {left : List α}
    (walk : Walk edge root v c left) (hx : x ∈ left) : Reachable edge root x := by
  induction walk with
  | nil => cases hx
  | @snoc u _ c _ left before _ ih =>
    rcases List.mem_cons.mp hx with rfl | later
    · exact ⟨c, left, before⟩
    · exact ih later

section Labels

variable {cost : α → Nat} {settled : α → Prop}

/-- Labels under which no edge leads below a label bound every walk. -/
theorem Walk.settled_le (zero : cost root = 0) (start : settled root)
    (relaxed : ∀ u v w, settled u → edge u v w → settled v ∧ cost v ≤ cost u + w)
    {v : α} {c : Nat} {left : List α} (walk : Walk edge root v c left) :
    settled v ∧ cost v ≤ c := by
  induction walk with
  | nil => exact ⟨start, by omega⟩
  | snoc before last ih =>
    obtain ⟨hv, hle⟩ := relaxed _ _ _ ih.1 last
    exact ⟨hv, by omega⟩

/-- Labels that walks attain and no edge undercuts are the least costs. -/
theorem isDist_of_relaxed (cost : α → Nat) (settled : α → Prop) (zero : cost root = 0)
    (start : settled root)
    (attained : ∀ v, settled v → ∃ left, Walk edge root v (cost v) left)
    (relaxed : ∀ u v w, settled u → edge u v w → settled v ∧ cost v ≤ cost u + w) (v : α) :
    (settled v ↔ Reachable edge root v) ∧ (settled v → IsDist edge root v (cost v)) := by
  refine ⟨⟨fun hv => ?_, ?_⟩, fun hv => ⟨attained v hv, ?_⟩⟩
  · obtain ⟨left, walk⟩ := attained v hv
    exact ⟨cost v, left, walk⟩
  · rintro ⟨c, left, walk⟩
    exact (walk.settled_le zero start relaxed).1
  · rintro c ⟨left, walk⟩
    exact (walk.settled_le zero start relaxed).2

end Labels

section Tight

variable {cost : α → Nat}

variable {u v : α}

theorem cost_le_of_tight (tight : Tight edge cost u v) : cost u ≤ cost v := by
  obtain ⟨w, _, same⟩ := tight
  omega

theorem cost_le_of_transGen (path : Relation.TransGen (Tight edge cost) u v) :
    cost u ≤ cost v := by
  induction path with
  | single tight => exact cost_le_of_tight tight
  | tail _ tight ih => exact Nat.le_trans ih (cost_le_of_tight tight)

theorem zero_of_tight (path : Relation.TransGen (Tight edge cost) u v)
    (same : cost v = cost u) : Relation.TransGen (fun a b => edge a b 0) u v := by
  induction path with
  | single tight =>
    obtain ⟨w, hedge, sum⟩ := tight
    obtain rfl : w = 0 := by omega
    exact .single hedge
  | tail before tight ih =>
    have lower := cost_le_of_transGen before
    obtain ⟨w, hedge, sum⟩ := tight
    obtain rfl : w = 0 := by omega
    exact (ih (by omega)).tail hedge

theorem zero_cycle_of_tight (cost : α → Nat)
    (cycle : Relation.TransGen (Tight edge cost) v v) :
    Relation.TransGen (fun a b => edge a b 0) v v :=
  zero_of_tight cycle rfl

/-- The costs are the least ones wherever the root leads. -/
def Least (edge : α → α → Nat → Prop) (root : α) (cost : α → Nat) : Prop :=
  ∀ v, Reachable edge root v → IsDist edge root v (cost v)

theorem Walk.isChain_tight (least : Least edge root cost) {c : Nat} {left : List α}
    (walk : Walk edge root v c left) (shortest : c = cost v) :
    (v :: left).IsChain (fun b a => Tight edge cost a b) := by
  induction walk with
  | nil => exact List.IsChain.singleton _
  | @snoc u v c w left before last ih =>
    have lower := (least u ⟨c, left, before⟩).2 ⟨left, before⟩
    obtain ⟨shortLeft, short⟩ := (least u ⟨c, left, before⟩).1
    have upper := (least v ⟨c + w, u :: left, before.snoc last⟩).2 ⟨u :: shortLeft, short.snoc last⟩
    have here : c = cost u := by omega
    exact List.isChain_cons_cons.mpr ⟨⟨w, last, by omega⟩, ih here⟩

theorem Walk.append_tight (cost : α → Nat) {x : α} {left : List α}
    (walk : Walk edge root x (cost x) left) {between : List α}
    (chain : (v :: between ++ [x]).IsChain (fun b a => Tight edge cost a b)) :
    Walk edge root v (cost v) (between ++ x :: left) := by
  induction between generalizing v with
  | nil =>
    obtain ⟨⟨w, hedge, sum⟩, _⟩ := List.isChain_cons_cons.mp chain
    rw [← sum]
    exact walk.snoc hedge
  | cons u between ih =>
    obtain ⟨⟨w, hedge, sum⟩, later⟩ := List.isChain_cons_cons.mp chain
    rw [← sum]
    exact (ih later).snoc hedge

end Tight

theorem exists_rank [Fintype α] {r : α → α → Prop} (acyclic : ∀ v, ¬ Relation.TransGen r v v) :
    ∃ rank : α → Nat, (∀ u v, r u v → rank u < rank v) ∧ ∀ v, rank v < Fintype.card α := by
  classical
  refine ⟨fun v => (Finset.univ.filter (fun u => Relation.TransGen r u v)).card, ?_, ?_⟩
  · intro u v step
    apply Finset.card_lt_card
    refine Finset.ssubset_iff_of_subset ?_ |>.mpr ⟨u, ?_, ?_⟩
    · intro x hx
      simp only [Finset.mem_filter, Finset.mem_univ, true_and] at hx ⊢
      exact hx.tail step
    · simpa using Relation.TransGen.single step
    · simpa using acyclic u
  · intro v
    apply Finset.card_lt_univ_of_notMem (x := v)
    simpa using acyclic v

end WeightedPaths
