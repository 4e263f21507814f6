import Mathlib.Algebra.Order.BigOperators.Group.Finset
import Rcp100.Spf

/-!
# The predecessors of an advertisement

The four slots of `from` hold the neighbors that offered the final cost, in the order of
their visits. The first slot decides which networks are connected, and the slots
together form the graph that the next hop search goes back along.
-/

namespace Predecessors

open LsaFormat WeightedPaths Spf

section Slots

variable {db : List OspfLsa} {n : SpfNode db}

/-- An array of four slots with these entries, as far as they fit. -/
def slots {α : Type} (entries : List α) : List (Option α) :=
  (entries.map some ++ [none, none, none, none]).take 4

theorem addFrom_slots {α : Type} (first x : α) (rest : List α) :
    addFrom x (slots (first :: rest)) = slots (first :: rest ++ [x]) := by
  rcases rest with _ | ⟨a, _ | ⟨b, _ | ⟨c, rest⟩⟩⟩ <;> rfl

theorem takeWhile_slots {α : Type} (entries : List α) :
    (slots entries).takeWhile Option.isSome = (entries.take 4).map some := by
  rcases entries with _ | ⟨a, _ | ⟨b, _ | ⟨c, _ | ⟨d, rest⟩⟩⟩⟩ <;> rfl

/-- The offers at a given cost. -/
def offersAt (d : Nat) (offers : List (Fin db.length × Nat)) : List (Fin db.length) :=
  (offers.filter (fun o => o.2 = d)).map Prod.fst

theorem offersAt_append (d : Nat) (os os' : List (Fin db.length × Nat)) :
    offersAt d (os ++ os') = offersAt d os ++ offersAt d os' := by
  simp [offersAt]

theorem mem_offersAt {d : Nat} {offers : List (Fin db.length × Nat)} {x : Fin db.length} :
    x ∈ offersAt d offers ↔ (x, d) ∈ offers := by
  simp [offersAt]

/-- The slots of an advertisement that is reached hold the offers at its cost, in the
order in which they were made. -/
theorem fromLsa_relabelAll (empty : n.fromLsa = [none, none, none, none])
    {offers : List (Fin db.length × Nat)} (below : ∀ o ∈ offers, o.2 < n.cost) :
    (relabelAll offers n).fromLsa = slots (offersAt (relabelAll offers n).cost offers) := by
  induction offers using List.reverseRecOn with
  | nil => exact empty
  | append_singleton os o ih =>
    have earlier : ∀ x ∈ os, x.2 < n.cost := fun x hx => below x (List.mem_append_left _ hx)
    have ih := ih earlier
    have last : relabelAll (os ++ [o]) n = relabel o.1 o.2 (relabelAll os n) :=
      relabelAll_append os [o]
    obtain ⟨_, all⟩ := cost_relabelAll_le (n := n) os
    rw [last, cost_relabel, relabel]
    rcases Nat.lt_trichotomy o.2 (relabelAll os n).cost with lower | same | higher
    · rw [if_pos lower, Nat.min_eq_right (Nat.le_of_lt lower), offersAt_append]
      have none : offersAt o.2 os = [] := by
        refine List.eq_nil_iff_forall_not_mem.mpr fun x hx => ?_
        have := all _ (mem_offersAt.mp hx)
        dsimp only at this
        omega
      rw [none]
      simp [offersAt, slots]
    · rw [if_neg (by omega), if_pos same.symm, same, Nat.min_self, offersAt_append]
      rcases cost_relabelAll_eq (n := n) os with unchanged | ⟨x, hx, hcost⟩
      · have := below o (List.mem_append_right _ (List.mem_singleton_self o))
        omega
      · have some : x.1 ∈ offersAt (relabelAll os n).cost os :=
          mem_offersAt.mpr (hcost ▸ hx)
        obtain ⟨first, rest, hlist⟩ := List.exists_cons_of_ne_nil (List.ne_nil_of_mem some)
        dsimp only
        rw [ih, hlist, addFrom_slots]
        simp [offersAt, same]
    · rw [if_neg (by omega), if_neg (by omega), Nat.min_eq_left (Nat.le_of_lt higher),
        offersAt_append, ih]
      have none : offersAt (relabelAll os n).cost [o] = [] := by
        simp [offersAt, Nat.ne_of_gt higher]
      rw [none, List.append_nil]

end Slots

section Arrays

variable {db : List OspfLsa} {root : Fin db.length} {st : SpfState db}
  {order : List (Fin db.length)}

/-- `from[0]`. -/
def from0 (st : SpfState db) (v : Fin db.length) : Option (Fin db.length) :=
  (st.h v).fromLsa.head?.join

/-- The neighbors that offer `v` its cost, in the order of the visits. -/
def tightOffers (st : SpfState db) (order : List (Fin db.length)) (v : Fin db.length) :
    List (Fin db.length) :=
  offersAt (st.h v).cost (history (fun u => (st.h u).cost) order v)

variable {u v : Fin db.length}

theorem mem_tightOffers (front : Frontier root st order) (bounded : Bounded db root) :
    u ∈ tightOffers st order v ↔ u ∈ order ∧ Tight (edge db) (fun x => (st.h x).cost) u v := by
  rw [tightOffers, mem_offersAt, front.mem_history bounded]
  constructor
  · rintro ⟨x, hx, w, hedge, heq⟩
    cases congrArg Prod.fst heq
    exact ⟨hx, w, hedge, (congrArg Prod.snd heq).symm⟩
  · rintro ⟨hu, w, hedge, sum⟩
    exact ⟨u, hu, w, hedge, Prod.ext rfl sum.symm⟩

theorem fromLsa_eq (front : Frontier root st order) (bounded : Bounded db root)
    (other : v ≠ root) :
    (st.h v).fromLsa = slots (tightOffers st order v) := by
  rw [tightOffers, front.from_eq v, front.cost_eq v]
  refine fromLsa_relabelAll rfl fun o ho => ?_
  obtain ⟨u, hu, w, hedge, rfl⟩ := (front.mem_history bounded).mp ho
  rw [startNode, if_neg other]
  exact (front.relaxed bounded hu hedge).2

theorem head_slots {α : Type} (entries : List α) :
    (slots entries).head?.join = entries.head? := by
  cases entries <;> rfl

theorem from0_eq_head (front : Frontier root st order) (bounded : Bounded db root)
    (other : v ≠ root) : from0 st v = (tightOffers st order v).head? := by
  rw [from0, fromLsa_eq front bounded other, head_slots]

theorem tightOffers_ne_nil (front : Frontier root st order)
    (hv : v ∈ order) (other : v ≠ root) : tightOffers st order v ≠ [] := by
  rcases cost_relabelAll_eq (n := startNode root v)
    (history (fun u => (st.h u).cost) order v) with start | ⟨o, ho, hcost⟩
  · have less := front.reached v hv
    rw [front.cost_eq v, start, startNode, if_neg other] at less
    exact absurd less (Nat.lt_irrefl _)
  · apply List.ne_nil_of_mem (a := o.1)
    rw [tightOffers, mem_offersAt, front.cost_eq v, hcost]
    exact ho

theorem exists_from0 (front : Frontier root st order) (bounded : Bounded db root)
    (hv : v ∈ order) (other : v ≠ root) : ∃ u, from0 st v = some u := by
  obtain ⟨u, rest, hlist⟩ := List.exists_cons_of_ne_nil (tightOffers_ne_nil front hv other)
  exact ⟨u, by rw [from0_eq_head front bounded other, hlist, List.head?_cons]⟩

theorem from0_mem (h : from0 st v = some u) :
    some u ∈ (st.h v).fromLsa := by
  rw [from0, Option.join_eq_some_iff] at h
  exact List.mem_of_mem_head? h

theorem order_eq_cons (front : Frontier root st order) (empty : st.queue = []) :
    ∃ rest, order = root :: rest := by
  have mem : root ∈ order := by
    rw [front.visited_iff empty, front.cost_root, maxCost]
    omega
  cases order with
  | nil => cases mem
  | cons x rest => exact ⟨rest, by rw [front.first x rfl]⟩

/-- The root is visited first, so it is in the first slot of every neighbor that it
offers the final cost. -/
theorem from0_eq_root (front : Frontier root st order) (bounded : Bounded db root)
    (empty : st.queue = []) (other : v ≠ root) :
    from0 st v = some root ↔ Tight (edge db) (fun x => (st.h x).cost) root v := by
  obtain ⟨rest, rfl⟩ := order_eq_cons front empty
  constructor
  · exact fun h => (front.pred bounded (from0_mem h)).2
  · rintro ⟨w, ⟨c, hc, found, rfl⟩, sum⟩
    have wraps := (front.offer bounded (front.reached root List.mem_cons_self) hc found).1
    have here : root ∈ offersAt (st.h v).cost
        (offersTo (st.h root).cost root v (ncost db root)) := by
      rw [mem_offersAt, mem_offersTo]
      exact ⟨c, hc, found, Prod.ext rfl (wraps.trans sum)⟩
    have only : ∀ x ∈ offersAt (st.h v).cost
        (offersTo (st.h root).cost root v (ncost db root)), x = root := by
      intro x hx
      obtain ⟨_, _, _, heq⟩ := mem_offersTo.mp (mem_offersAt.mp hx)
      exact (congrArg Prod.fst heq).symm
    rw [from0_eq_head front bounded other, tightOffers, history, List.flatMap_cons,
      offersAt_append]
    obtain ⟨x, tail, hlist⟩ := List.exists_cons_of_ne_nil (List.ne_nil_of_mem here)
    rw [hlist, List.cons_append, List.head?_cons, only x (hlist ▸ List.mem_cons_self)]

/-- The predecessors that the loop of `get_nexthop_id` goes through. -/
def parents (st : SpfState db) (v : Fin db.length) : List (Fin db.length) :=
  ((st.h v).fromLsa.takeWhile Option.isSome).filterMap id

theorem mem_of_mem_parents (h : u ∈ parents st v) :
    some u ∈ (st.h v).fromLsa := by
  obtain ⟨slot, hslot, rfl⟩ := List.mem_filterMap.mp h
  exact (List.takeWhile_sublist _).subset hslot

theorem parents_eq (front : Frontier root st order) (bounded : Bounded db root)
    (other : v ≠ root) : parents st v = (tightOffers st order v).take 4 := by
  rw [parents, fromLsa_eq front bounded other, takeWhile_slots, List.filterMap_map]
  exact List.filterMap_some

/-- The links that lead to `v` on a shortest path. -/
def predecessorCount (st : SpfState db) (v : Fin db.length) : Nat :=
  ∑ u, (ncost db u).countP (fun c => decide (lsadbFind2 db c.type c.id = some v ∧
    (st.h u).cost + c.cost.toNat = (st.h v).cost))

theorem length_offers_le (front : Frontier root st order) (bounded : Bounded db root)
    (hu : u ∈ order) :
    (offersAt (st.h v).cost (offersTo (st.h u).cost u v (ncost db u))).length =
      (ncost db u).countP (fun c => decide (lsadbFind2 db c.type c.id = some v ∧
        (st.h u).cost + c.cost.toNat = (st.h v).cost)) := by
  simp only [offersAt, offersTo, List.filter_map, List.length_map, List.filter_filter]
  rw [List.countP_eq_length_filter]
  congr 1
  refine List.filter_congr fun c hc => ?_
  by_cases found : lsadbFind2 db c.type c.id = some v
  · have wraps := (front.offer bounded (front.reached u hu) hc found).1
    simp [found, wraps]
  · simp [found]

theorem length_tightOffers_le (front : Frontier root st order) (bounded : Bounded db root)
    (v : Fin db.length) : (tightOffers st order v).length ≤ predecessorCount st v := by
  have split : tightOffers st order v = order.flatMap
      (fun u => offersAt (st.h v).cost (offersTo (st.h u).cost u v (ncost db u))) := by
    simp only [tightOffers, history, offersAt, List.filter_flatMap, List.map_flatMap]
  have sum : (tightOffers st order v).length = (order.map fun u =>
      (ncost db u).countP (fun c => decide (lsadbFind2 db c.type c.id = some v ∧
        (st.h u).cost + c.cost.toNat = (st.h v).cost))).sum := by
    rw [split, List.length_flatMap]
    exact congrArg List.sum (List.map_congr_left fun u hu => length_offers_le front bounded hu)
  rw [sum, ← List.sum_toFinset _ front.nodup, predecessorCount]
  exact Finset.sum_le_sum_of_subset (Finset.subset_univ _)

theorem mem_parents (front : Frontier root st order) (bounded : Bounded db root)
    (other : v ≠ root) (few : predecessorCount st v ≤ 4) :
    u ∈ parents st v ↔ u ∈ order ∧ Tight (edge db) (fun x => (st.h x).cost) u v := by
  have all := Nat.le_trans (length_tightOffers_le front bounded v) few
  rw [parents_eq front bounded other, List.take_of_length_le all, mem_tightOffers front bounded]

/-- The graph that the slots form. -/
def Pred (st : SpfState db) (u v : Fin db.length) : Prop := some u ∈ (st.h v).fromLsa

/-- Without a cycle of edges that cost nothing, the slots form no cycle. -/
theorem pred_acyclic (front : Frontier root st order) (bounded : Bounded db root)
    (empty : st.queue = [])
    (noCycle : ∀ v, Reachable (edge db) root v →
      ¬ Relation.TransGen (fun a b => edge db a b 0) v v) (v : Fin db.length) :
    ¬ Relation.TransGen (Pred st) v v := by
  intro cycle
  have reachable : ∀ u, Pred st v u → Reachable (edge db) root v :=
    fun u h => (front.isDist bounded empty v).1.mp (front.pred bounded h).1
  obtain ⟨u, first, _⟩ := Relation.TransGen.head'_iff.mp cycle
  refine noCycle v (reachable u first) (zero_cycle_of_tight (fun x => (st.h x).cost) ?_)
  exact Relation.TransGen.mono (fun a b h => (front.pred bounded h).2) v v cycle

end Arrays

section Root

variable {db : List OspfLsa} {root : Fin db.length} {st : SpfState db}
  {order : List (Fin db.length)}

/-- The root's first slot stays empty, and three are left. -/
def rootSlots {α : Type} (entries : List α) : List (Option α) :=
  none :: (entries.map some ++ [none, none, none]).take 3

theorem addFrom_rootSlots {α : Type} (x : α) (entries : List α) :
    addFrom x (rootSlots entries) = rootSlots (entries ++ [x]) := by
  rcases entries with _ | ⟨a, _ | ⟨b, _ | ⟨c, rest⟩⟩⟩ <;> rfl

theorem fromLsa_relabelAll_zero {n : SpfNode db} (zero : n.cost = 0)
    (empty : n.fromLsa = [none, none, none, none]) (offers : List (Fin db.length × Nat)) :
    (relabelAll offers n).fromLsa = rootSlots (offersAt 0 offers) := by
  induction offers using List.reverseRecOn with
  | nil => exact empty
  | append_singleton os o ih =>
    have cost : (relabelAll os n).cost = 0 := by
      have := (cost_relabelAll_le (n := n) os).1
      omega
    rw [relabelAll_append, relabelAll, List.foldl_cons, List.foldl_nil, relabel, cost,
      if_neg (Nat.not_lt_zero _), offersAt_append]
    by_cases here : 0 = o.2
    · rw [if_pos here]
      dsimp only
      rw [ih, addFrom_rootSlots]
      simp [offersAt, ← here]
    · rw [if_neg here, ih]
      simp [offersAt, Ne.symm here]

theorem fromLsa_root (front : Frontier root st order) :
    (st.h root).fromLsa = rootSlots (tightOffers st order root) := by
  rw [tightOffers, front.cost_root, front.from_eq root]
  exact fromLsa_relabelAll_zero (by rw [startNode, if_pos rfl]) rfl _

theorem parents_root (front : Frontier root st order) : parents st root = [] := by
  rw [parents, fromLsa_root front]
  rfl

theorem mem_take_map {α : Type} {x : α} {entries : List α} {k : Nat} (h : x ∈ entries)
    (fits : entries.length ≤ k) (tail : List (Option α)) :
    some x ∈ (entries.map some ++ tail).take k := by
  rw [List.take_append, List.take_of_length_le (by simpa using fits)]
  exact List.mem_append_left _ (List.mem_map_of_mem h)

/-- The number of slots for predecessors. -/
def slotCount (root v : Fin db.length) : Nat := if v = root then 3 else 4

/-- With no more predecessors than slots, the slots hold all of them. -/
theorem pred_of_tight (front : Frontier root st order) (bounded : Bounded db root)
    {u v : Fin db.length} (few : predecessorCount st v ≤ slotCount root v) (hu : u ∈ order)
    (tight : Tight (edge db) (fun x => (st.h x).cost) u v) : Pred st u v := by
  have all := Nat.le_trans (length_tightOffers_le front bounded v) few
  have mem := (mem_tightOffers front bounded).mpr ⟨hu, tight⟩
  rw [Pred]
  by_cases here : v = root
  · rw [slotCount, if_pos here] at all
    rw [here] at mem all ⊢
    rw [fromLsa_root front]
    exact List.mem_cons_of_mem _ (mem_take_map mem all _)
  · rw [slotCount, if_neg here] at all
    rw [fromLsa_eq front bounded here]
    exact mem_take_map mem all _

theorem free_le (front : Frontier root st order) (bounded : Bounded db root) (empty : st.queue = [])
    {u v : Fin db.length} (path : Relation.ReflTransGen (fun x y => edge db x y 0) u v)
    (hu : u ∈ order) : v ∈ order ∧ (st.h v).cost ≤ (st.h u).cost := by
  induction path with
  | refl => exact ⟨hu, Nat.le_refl _⟩
  | tail _ last ih =>
    obtain ⟨le, less⟩ := front.relaxed bounded ih.1 last
    exact ⟨(front.visited_iff empty _).mpr (Nat.lt_of_le_of_lt le less), by omega⟩

theorem free_cycle_pred (front : Frontier root st order) (bounded : Bounded db root)
    (empty : st.queue = []) (few : ∀ v ∈ order, predecessorCount st v ≤ slotCount root v)
    {v : Fin db.length} (hv : v ∈ order)
    (cycle : Relation.TransGen (fun x y => edge db x y 0) v v) :
    Relation.TransGen (Pred st) v v := by
  -- every link of the cycle is tight, because the cycle leads back to where it starts
  have along : ∀ x, Relation.TransGen (fun x y => edge db x y 0) v x →
      Relation.ReflTransGen (fun x y => edge db x y 0) x v → Relation.TransGen (Pred st) v x := by
    intro x path
    induction path with
    | @single y last =>
      intro back
      obtain ⟨hy, le⟩ := free_le front bounded empty (.single last) hv
      have ge := (free_le front bounded empty back hy).2
      exact .single (pred_of_tight front bounded (few y hy) hv ⟨0, last, by dsimp only; omega⟩)
    | @tail y z before last ih =>
      intro back
      obtain ⟨hy, _⟩ := free_le front bounded empty before.to_reflTransGen hv
      obtain ⟨hz, le⟩ := free_le front bounded empty (.single last) hy
      have ge := (free_le front bounded empty (back.trans before.to_reflTransGen) hz).2
      exact (ih (.head last back)).tail
        (pred_of_tight front bounded (few z hz) hy ⟨0, last, by dsimp only; omega⟩)
  exact along v cycle .refl

end Root

end Predecessors
