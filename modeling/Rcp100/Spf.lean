import Mathlib.Data.Fintype.Card
import Rcp100.ByteBuffer
import Rcp100.LsaFormat
import Rcp100.WeightedPaths

/-!
# Dijkstra's algorithm on the database of an area

A pointer to an advertisement is its position in the list of the area. The queue is
searched for its smallest element, whose cost may have changed since it was pushed.
-/

namespace Spf

open LsaFormat WeightedPaths
open ByteBuffer (be16 be32)

/-- `OSPF_MAX_COST`. -/
def maxCost : Nat := 0xffffffff

/-- The modulus of the unsigned costs. -/
def costModulus : Nat := 0x100000000

section Model

variable (db : List OspfLsa)

/-- The calculation's part of an advertisement's `h`. -/
structure SpfNode where
  cost : Nat
  visited : Bool
  fromLsa : List (Option (Fin db.length))

structure SpfState where
  h : Fin db.length → SpfNode db
  queue : List (Fin db.length)

/-- The first advertisement with this type and id. -/
def lsadbFind2 (type : BitVec 8) (id : BitVec 32) : Option (Fin db.length) :=
  db.findFinIdx? (fun l => l.header.type = type && l.header.linkStateId = id)

/-- The array that `lsa_add_cost` made when the advertisement was stored. -/
def ncost (lsa : Fin db.length) : List LsaCost := (lsaAddCost (db.get lsa).bytes).getD []

variable {db}

def lsapqPush (queue : List (Fin db.length)) (lsa : Fin db.length) : List (Fin db.length) :=
  if lsa ∈ queue then queue else lsa :: queue

/-- The first of the elements with the smallest cost. -/
def smallest (cost : Fin db.length → Nat) (queue : List (Fin db.length)) (s : Fin db.length) :
    Fin db.length :=
  queue.foldl (fun s p => if cost p < cost s then p else s) s

def lsapqGet (cost : Fin db.length → Nat) :
    List (Fin db.length) → Option (Fin db.length × List (Fin db.length))
  | [] => none
  | head :: rest =>
    let s := smallest cost (head :: rest) head
    some (s, (head :: rest).erase s)

/-- The first empty slot is filled, if there is one. -/
def fillFirst {α : Type} (x : α) : List (Option α) → List (Option α)
  | [] => []
  | none :: rest => some x :: rest
  | some y :: rest => some y :: fillFirst x rest

/-- The search for an empty slot begins at the second one. -/
def addFrom {α : Type} (x : α) : List (Option α) → List (Option α)
  | [] => []
  | first :: rest => first :: fillFirst x rest

def relabel (lsa : Fin db.length) (new : Nat) (n : SpfNode db) : SpfNode db :=
  if n.cost > new then { n with cost := new, fromLsa := [some lsa, none, none, none] }
  else if n.cost = new then { n with fromLsa := addFrom lsa n.fromLsa }
  else n

/-- One neighbor of `lsa`. Both branches of the source relabel in the same way; only an
advertisement that was not visited is pushed. -/
def relax (lsa : Fin db.length) (st : SpfState db) (c : LsaCost) : SpfState db :=
  match lsadbFind2 db c.type c.id with
  | none => st
  | some found =>
    let new := ((st.h lsa).cost + c.cost.toNat) % costModulus
    { h := Function.update st.h found (relabel lsa new (st.h found))
      queue := if (st.h found).visited then st.queue else lsapqPush st.queue found }

def markVisited (lsa : Fin db.length) (st : SpfState db) : SpfState db :=
  { st with h := Function.update st.h lsa { st.h lsa with visited := true } }

def visit (lsa : Fin db.length) (st : SpfState db) : SpfState db :=
  (ncost db lsa).foldl (relax lsa) (markVisited lsa st)

/-- The loop of `dijkstra`, as long as the fuel lasts. -/
def dijkstra : Nat → SpfState db → Option (SpfState db)
  | fuel, st =>
    match lsapqGet (fun v => (st.h v).cost) st.queue with
    | none => some st
    | some (lsa, queue) =>
      match fuel with
      | 0 => none
      | fuel + 1 =>
        if (st.h lsa).visited then dijkstra fuel { st with queue := queue }
        else dijkstra fuel (visit lsa { st with queue := queue })

def initCosts : SpfState db :=
  { h := fun _ => ⟨maxCost, false, [none, none, none, none]⟩, queue := [] }

def spf (mylsa : Option (Fin db.length)) (fuel : Nat) : Option (SpfState db) :=
  match mylsa with
  | none => some initCosts
  | some root =>
    dijkstra fuel
      { h := Function.update initCosts.h root { initCosts.h root with cost := 0 }
        queue := lsapqPush initCosts.queue root }

/-- The edges of the calculation. -/
def edge (db : List OspfLsa) (u v : Fin db.length) (w : Nat) : Prop :=
  ∃ c ∈ ncost db u, lsadbFind2 db c.type c.id = some v ∧ c.cost.toNat = w

/-- No walk that leaves every advertisement at most once costs as much as
`OSPF_MAX_COST`. -/
def Bounded (db : List OspfLsa) (root : Fin db.length) : Prop :=
  ∀ v c left, Walk (edge db) root v c left → left.Nodup → c < maxCost

end Model

section Labels

variable {db : List OspfLsa} {n : SpfNode db}

/-- One after the other, the offers of a cost by a neighbor. -/
def relabelAll (offers : List (Fin db.length × Nat)) (n : SpfNode db) : SpfNode db :=
  offers.foldl (fun n o => relabel o.1 o.2 n) n

theorem relabelAll_append (os os' : List (Fin db.length × Nat)) :
    relabelAll (os ++ os') n = relabelAll os' (relabelAll os n) :=
  List.foldl_append

theorem cost_relabel (lsa : Fin db.length) (new : Nat) :
    (relabel lsa new n).cost = min n.cost new := by
  rw [relabel]
  split
  · dsimp only
    omega
  · split
    · dsimp only
      omega
    · omega

theorem visited_relabel (lsa : Fin db.length) (new : Nat) :
    (relabel lsa new n).visited = n.visited := by
  rw [relabel]
  split
  · rfl
  · split <;> rfl

theorem cost_relabelAll_le (offers : List (Fin db.length × Nat)) :
    (relabelAll offers n).cost ≤ n.cost ∧ ∀ o ∈ offers, (relabelAll offers n).cost ≤ o.2 := by
  induction offers generalizing n with
  | nil => exact ⟨Nat.le_refl _, fun o h => by cases h⟩
  | cons o rest ih =>
    obtain ⟨hle, hall⟩ := ih (n := relabel o.1 o.2 n)
    rw [cost_relabel] at hle
    refine ⟨Nat.le_trans hle (Nat.min_le_left _ _), ?_⟩
    rintro x hx
    rcases List.mem_cons.mp hx with rfl | later
    · exact Nat.le_trans hle (Nat.min_le_right _ _)
    · exact hall x later

theorem cost_relabelAll_eq (offers : List (Fin db.length × Nat)) :
    (relabelAll offers n).cost = n.cost ∨ ∃ o ∈ offers, (relabelAll offers n).cost = o.2 := by
  induction offers generalizing n with
  | nil => exact .inl rfl
  | cons o rest ih =>
    rcases ih (n := relabel o.1 o.2 n) with same | ⟨x, hx, hcost⟩
    · rw [cost_relabel] at same
      rcases Nat.le_total n.cost o.2 with le | ge
      · exact .inl (same.trans (Nat.min_eq_left le))
      · exact .inr ⟨o, List.mem_cons_self, same.trans (Nat.min_eq_right ge)⟩
    · exact .inr ⟨x, List.mem_cons_of_mem _ hx, hcost⟩

theorem cost_relabelAll_of_le {offers : List (Fin db.length × Nat)}
    (above : ∀ o ∈ offers, n.cost ≤ o.2) : (relabelAll offers n).cost = n.cost := by
  rcases cost_relabelAll_eq (n := n) offers with same | ⟨o, ho, hcost⟩
  · exact same
  · exact Nat.le_antisymm (cost_relabelAll_le offers).1 (hcost ▸ above o ho)

end Labels

section Queue

variable {db : List OspfLsa} {cost : Fin db.length → Nat} {queue : List (Fin db.length)}

theorem smallest_spec (cost : Fin db.length → Nat) (queue : List (Fin db.length))
    (s : Fin db.length) :
    (smallest cost queue s = s ∨ smallest cost queue s ∈ queue) ∧
      cost (smallest cost queue s) ≤ cost s ∧
      ∀ q ∈ queue, cost (smallest cost queue s) ≤ cost q := by
  induction queue generalizing s with
  | nil => exact ⟨.inl rfl, Nat.le_refl _, fun q h => by cases h⟩
  | cons p rest ih =>
    have step : smallest cost (p :: rest) s =
        smallest cost rest (if cost p < cost s then p else s) := rfl
    rw [step]
    by_cases less : cost p < cost s
    · rw [if_pos less]
      obtain ⟨mem, le, all⟩ := ih p
      refine ⟨.inr ?_, by omega, ?_⟩
      · rcases mem with same | later
        · rw [same]
          exact List.mem_cons_self
        · exact List.mem_cons_of_mem _ later
      · rintro q hq
        rcases List.mem_cons.mp hq with rfl | later
        · exact le
        · exact all q later
    · rw [if_neg less]
      obtain ⟨mem, le, all⟩ := ih s
      refine ⟨mem.imp_right (List.mem_cons_of_mem _), le, ?_⟩
      rintro q hq
      rcases List.mem_cons.mp hq with rfl | later
      · omega
      · exact all q later

theorem lsapqGet_none (empty : lsapqGet cost queue = none) : queue = [] := by
  cases queue with
  | nil => rfl
  | cons head rest => cases empty

theorem lsapqGet_some {s : Fin db.length} {rest : List (Fin db.length)}
    (got : lsapqGet cost queue = some (s, rest)) :
    s ∈ queue ∧ rest = queue.erase s ∧ ∀ q ∈ queue, cost s ≤ cost q := by
  cases queue with
  | nil => cases got
  | cons head tail =>
    simp only [lsapqGet, Option.some.injEq, Prod.mk.injEq] at got
    obtain ⟨rfl, rfl⟩ := got
    obtain ⟨mem, _, all⟩ := smallest_spec cost (head :: tail) head
    refine ⟨?_, rfl, all⟩
    rcases mem with same | later
    · rw [same]
      exact List.mem_cons_self
    · exact later

theorem mem_lsapqPush {v lsa : Fin db.length} : v ∈ lsapqPush queue lsa ↔ v = lsa ∨ v ∈ queue := by
  rw [lsapqPush]
  split
  · constructor
    · exact .inr
    · rintro (rfl | h)
      · assumption
      · exact h
  · exact List.mem_cons

theorem nodup_lsapqPush (lsa : Fin db.length) (nodup : queue.Nodup) :
    (lsapqPush queue lsa).Nodup := by
  rw [lsapqPush]
  split
  · exact nodup
  · rename_i absent
    exact List.nodup_cons.mpr ⟨absent, nodup⟩

end Queue

section Visit

variable {db : List OspfLsa} {st : SpfState db}

/-- What the elements `cs` of `u`, at the cost `k`, offer to `v`. -/
def offersTo (k : Nat) (u v : Fin db.length) (cs : List LsaCost) : List (Fin db.length × Nat) :=
  (cs.filter (fun c => lsadbFind2 db c.type c.id = some v)).map
    (fun c => (u, (k + c.cost.toNat) % costModulus))

variable {v u : Fin db.length} {c : LsaCost}

theorem offersTo_cons_of_eq (k : Nat) (u : Fin db.length)
    (here : lsadbFind2 db c.type c.id = some v) (cs : List LsaCost) :
    offersTo k u v (c :: cs) = (u, (k + c.cost.toNat) % costModulus) :: offersTo k u v cs := by
  simp [offersTo, here]

theorem offersTo_cons_of_ne (k : Nat) (u : Fin db.length)
    (other : lsadbFind2 db c.type c.id ≠ some v) (cs : List LsaCost) :
    offersTo k u v (c :: cs) = offersTo k u v cs := by
  simp [offersTo, other]

theorem mem_offersTo {k : Nat} {cs : List LsaCost}
    {o : Fin db.length × Nat} :
    o ∈ offersTo k u v cs ↔
      ∃ c ∈ cs, lsadbFind2 db c.type c.id = some v ∧ (u, (k + c.cost.toNat) % costModulus) = o := by
  simp only [offersTo, List.mem_map, List.mem_filter, decide_eq_true_eq, and_assoc]

theorem relax_of_none (u : Fin db.length)
    (missing : lsadbFind2 db c.type c.id = none) : relax u st c = st := by
  simp only [relax, missing]

theorem relax_h_self (found : lsadbFind2 db c.type c.id = some v) :
    (relax u st c).h v = relabel u (((st.h u).cost + c.cost.toNat) % costModulus) (st.h v) := by
  simp only [relax, found, Function.update_self]

theorem relax_h_ne {x : Fin db.length}
    (found : lsadbFind2 db c.type c.id = some x) (other : v ≠ x) :
    (relax u st c).h v = st.h v := by
  simp only [relax, found, Function.update_of_ne other]

theorem relax_visited (u v : Fin db.length) (c : LsaCost) :
    ((relax u st c).h v).visited = (st.h v).visited := by
  cases found : lsadbFind2 db c.type c.id with
  | none => rw [relax_of_none u found]
  | some x =>
    by_cases here : v = x
    · rw [here, relax_h_self found, visited_relabel]
    · rw [relax_h_ne found here]

theorem relax_queue {x : Fin db.length}
    (found : lsadbFind2 db c.type c.id = some x) :
    v ∈ (relax u st c).queue ↔ v ∈ st.queue ∨ (v = x ∧ (st.h v).visited = false) := by
  simp only [relax, found]
  by_cases seen : (st.h x).visited = true
  · rw [if_pos seen]
    constructor
    · exact .inl
    · rintro (h | ⟨rfl, fresh⟩)
      · exact h
      · rw [seen] at fresh
        cases fresh
  · rw [if_neg seen, mem_lsapqPush]
    constructor
    · rintro (rfl | h)
      · exact .inr ⟨rfl, Bool.not_eq_true _ |>.mp seen⟩
      · exact .inl h
    · rintro (h | ⟨rfl, _⟩)
      · exact .inr h
      · exact .inl rfl

theorem relax_nodup (u : Fin db.length) (c : LsaCost) (nodup : st.queue.Nodup) :
    (relax u st c).queue.Nodup := by
  rw [relax]
  split
  · exact nodup
  · dsimp only
    split
    · exact nodup
    · exact nodup_lsapqPush _ nodup

/-- All elements of `u`: every advertisement gets the offers that lead to it, provided
that no offer to `u` itself is below its cost. -/
theorem foldl_relax {k : Nat} {cs : List LsaCost}
    (hk : (st.h u).cost = k)
    (above : ∀ c ∈ cs, lsadbFind2 db c.type c.id = some u → k ≤ (k + c.cost.toNat) % costModulus) :
    (∀ v, (cs.foldl (relax u) st).h v = relabelAll (offersTo k u v cs) (st.h v)) ∧
      (∀ v, v ∈ (cs.foldl (relax u) st).queue ↔
        v ∈ st.queue ∨ ((st.h v).visited = false ∧ offersTo k u v cs ≠ [])) ∧
      (st.queue.Nodup → (cs.foldl (relax u) st).queue.Nodup) := by
  induction cs generalizing st with
  | nil => exact ⟨fun v => rfl, fun v => by simp [offersTo], fun h => h⟩
  | cons c rest ih =>
    rw [List.foldl_cons]
    have later := fun c' hc' => above c' (List.mem_cons_of_mem _ hc')
    cases found : lsadbFind2 db c.type c.id with
    | none =>
      rw [relax_of_none u found]
      have skip : ∀ v, offersTo k u v (c :: rest) = offersTo k u v rest :=
        fun v => offersTo_cons_of_ne k u (by simp [found]) rest
      simp only [skip]
      exact ih hk later
    | some x =>
      have stays : ((relax u st c).h u).cost = k := by
        by_cases here : u = x
        · have self : lsadbFind2 db c.type c.id = some u := by rw [found, here]
          rw [relax_h_self self, cost_relabel, hk]
          exact Nat.min_eq_left (above c List.mem_cons_self self)
        · rw [relax_h_ne found here, hk]
      obtain ⟨ihh, ihq, ihn⟩ := ih stays later
      refine ⟨fun v => ?_, fun v => ?_, fun h => ihn (relax_nodup u c h)⟩
      · rw [ihh]
        by_cases here : v = x
        · rw [here, offersTo_cons_of_eq k u found, relax_h_self found, hk]
          rfl
        · rw [offersTo_cons_of_ne k u (by simp [found, Ne.symm here]), relax_h_ne found here]
      · rw [ihq, relax_queue found, relax_visited]
        by_cases here : v = x
        · rw [here, offersTo_cons_of_eq k u found]
          simp only [ne_eq, reduceCtorEq, not_false_eq_true, and_true, true_and]
          tauto
        · rw [offersTo_cons_of_ne k u (by simp [found, Ne.symm here])]
          simp [here]

end Visit

section Frontier

variable {db : List OspfLsa} {root : Fin db.length} {st : SpfState db}

theorem relabelAll_visited (offers : List (Fin db.length × Nat)) (n : SpfNode db) (b : Bool) :
    relabelAll offers { n with visited := b } = { relabelAll offers n with visited := b } := by
  induction offers generalizing n with
  | nil => rfl
  | cons o rest ih =>
    have one :
        relabel o.1 o.2 { n with visited := b } = { relabel o.1 o.2 n with visited := b } := by
      simp only [relabel]
      split
      · rfl
      · split <;> rfl
    calc relabelAll (o :: rest) { n with visited := b }
        = relabelAll rest (relabel o.1 o.2 { n with visited := b }) := rfl
      _ = { relabelAll (o :: rest) n with visited := b } := by
          rw [one, ih]
          rfl

variable {u v : Fin db.length} {order : List (Fin db.length)}

theorem visit_spec (st : SpfState db) {k : Nat} (hk : (st.h u).cost = k)
    (above : ∀ c ∈ ncost db u, lsadbFind2 db c.type c.id = some u →
      k ≤ (k + c.cost.toNat) % costModulus) :
    (∀ v, (visit u st).h v =
      { relabelAll (offersTo k u v (ncost db u)) (st.h v) with
        visited := decide (v = u) || (st.h v).visited }) ∧
      (∀ v, v ∈ (visit u st).queue ↔ v ∈ st.queue ∨
        (v ≠ u ∧ (st.h v).visited = false ∧ offersTo k u v (ncost db u) ≠ [])) ∧
      (st.queue.Nodup → (visit u st).queue.Nodup) := by
  have marked : ∀ v, (markVisited u st).h v =
      { st.h v with visited := decide (v = u) || (st.h v).visited } := by
    intro v
    by_cases here : v = u
    · simp [markVisited, here]
    · simp [markVisited, here]
  have cost : ((markVisited u st).h u).cost = k := by
    rw [marked]
    exact hk
  obtain ⟨hh, hq, hn⟩ := foldl_relax cost above
  refine ⟨fun v => ?_, fun v => ?_, hn⟩
  · rw [visit, hh, marked, relabelAll_visited]
  · rw [visit, hq, marked]
    simp only [Bool.or_eq_false_iff, decide_eq_false_iff_not, and_assoc]
    rfl

/-- The advertisement as the search begins. -/
def startNode (root v : Fin db.length) : SpfNode db :=
  ⟨if v = root then 0 else maxCost, false, [none, none, none, none]⟩

/-- All offers to `v`, in the order of the visits. -/
def history (cost : Fin db.length → Nat) (order : List (Fin db.length)) (v : Fin db.length) :
    List (Fin db.length × Nat) :=
  order.flatMap (fun u => offersTo (cost u) u v (ncost db u))

/-- The state after the visits of `order`: the labels are made of the offers of the
visited ones, the queue holds what was reached and not visited, and no visited one has
a greater cost than another one. -/
structure Frontier (root : Fin db.length) (st : SpfState db) (order : List (Fin db.length)) :
    Prop where
  nodup : order.Nodup
  queueNodup : st.queue.Nodup
  label : ∀ v, st.h v =
    { relabelAll (history (fun u => (st.h u).cost) order v) (startNode root v) with
      visited := decide (v ∈ order) }
  queued : ∀ v, v ∈ st.queue ↔ v ∉ order ∧ (st.h v).cost < maxCost
  sorted : ∀ u ∈ order, ∀ v, v ∉ order → (st.h u).cost ≤ (st.h v).cost
  attained : ∀ v, (st.h v).cost < maxCost → ∃ left,
    Walk (edge db) root v (st.h v).cost left ∧ (v :: left).Nodup ∧ ∀ u ∈ left, u ∈ order
  reached : ∀ v ∈ order, (st.h v).cost < maxCost
  first : ∀ u ∈ order.head?, u = root

theorem Frontier.visited (front : Frontier root st order)
    (v : Fin db.length) : (st.h v).visited = decide (v ∈ order) := by
  rw [front.label v]

theorem Frontier.cost_nil (front : Frontier root st []) (v : Fin db.length) :
    (st.h v).cost = if v = root then 0 else maxCost := by
  have same := congrArg SpfNode.cost (front.label v)
  exact same

theorem Frontier.offer (front : Frontier root st order)
    (bounded : Bounded db root) (hu : (st.h u).cost < maxCost) {c : LsaCost}
    (hc : c ∈ ncost db u) (found : lsadbFind2 db c.type c.id = some v) :
    ((st.h u).cost + c.cost.toNat) % costModulus = (st.h u).cost + c.cost.toNat ∧
      (st.h u).cost + c.cost.toNat < maxCost := by
  obtain ⟨left, walk, nodup, _⟩ := front.attained u hu
  have less := bounded v _ _ (walk.snoc ⟨c, hc, found, rfl⟩) nodup
  refine ⟨Nat.mod_eq_of_lt ?_, less⟩
  simp only [maxCost, costModulus] at less ⊢
  omega

theorem Frontier.offers (front : Frontier root st order)
    (bounded : Bounded db root) (hu : (st.h u).cost < maxCost)
    {o : Fin db.length × Nat} (ho : o ∈ offersTo (st.h u).cost u v (ncost db u)) :
    ∃ w, edge db u v w ∧ o = (u, (st.h u).cost + w) ∧ (st.h u).cost + w < maxCost := by
  obtain ⟨c, hc, found, rfl⟩ := mem_offersTo.mp ho
  obtain ⟨wrap, less⟩ := front.offer bounded hu hc found
  exact ⟨c.cost.toNat, ⟨c, hc, found, rfl⟩, by rw [wrap], less⟩

theorem Frontier.next_le (front : Frontier root st order)
    (hu : u ∈ st.queue) (least : ∀ q ∈ st.queue, (st.h u).cost ≤ (st.h q).cost)
    (hv : v ∉ order) : (st.h u).cost ≤ (st.h v).cost := by
  by_cases below : (st.h v).cost < maxCost
  · exact least v ((front.queued v).mpr ⟨hv, below⟩)
  · have := ((front.queued u).mp hu).2
    omega

theorem history_append_singleton (cost : Fin db.length → Nat) (order : List (Fin db.length))
    (u v : Fin db.length) :
    history cost (order ++ [u]) v = history cost order v ++ offersTo (cost u) u v (ncost db u) := by
  simp [history]

theorem history_congr {cost cost' : Fin db.length → Nat}
    (same : ∀ u ∈ order, cost' u = cost u) (v : Fin db.length) :
    history cost' order v = history cost order v := by
  simp only [history]
  refine List.flatMap_congr fun u hu => ?_
  rw [same u hu]

section Step

variable {order : List (Fin db.length)} {u : Fin db.length} {queue : List (Fin db.length)}

section

variable (front : Frontier root st order)

include front

section

variable (bounded : Bounded db root)

include bounded

theorem Frontier.visit_spec (below : (st.h u).cost < maxCost) (queue : List (Fin db.length)) :
    (∀ v, (visit u { st with queue := queue }).h v =
      { relabelAll (offersTo (st.h u).cost u v (ncost db u)) (st.h v) with
        visited := decide (v = u) || decide (v ∈ order) }) ∧
      (∀ v, v ∈ (visit u { st with queue := queue }).queue ↔ v ∈ queue ∨
        (v ≠ u ∧ v ∉ order ∧ offersTo (st.h u).cost u v (ncost db u) ≠ [])) ∧
      (queue.Nodup → (visit u { st with queue := queue }).queue.Nodup) := by
  obtain ⟨hh, hq, hn⟩ := Spf.visit_spec { st with queue := queue } rfl
    (fun c hc found => by
      have := (front.offer bounded below hc found).1
      dsimp only
      omega)
  refine ⟨fun v => ?_, fun v => ?_, hn⟩
  · rw [hh]
    dsimp only
    rw [front.visited v]
  · rw [hq]
    dsimp only
    rw [front.visited v, decide_eq_false_iff_not]

/-- The visited ones have the least costs, so no offer lowers them. -/
theorem Frontier.visit_same
    (fresh : u ∉ order) (below : (st.h u).cost < maxCost) (queue : List (Fin db.length))
    {v : Fin db.length} (hv : v ∈ order ++ [u]) :
    ((visit u { st with queue := queue }).h v).cost = (st.h v).cost := by
  rw [(front.visit_spec bounded below queue).1]
  refine cost_relabelAll_of_le fun o ho => ?_
  obtain ⟨w, _, rfl, _⟩ := front.offers bounded below ho
  have le : (st.h v).cost ≤ (st.h u).cost := by
    rcases List.mem_append.mp hv with old | new
    · exact front.sorted v old u fresh
    · rw [List.mem_singleton.mp new]
  dsimp only
  omega

theorem Frontier.visit_lowered (below : (st.h u).cost < maxCost) (v : Fin db.length) :
    ((visit u { st with queue := queue }).h v).cost = (st.h v).cost ∨
      ∃ w, edge db u v w ∧
        ((visit u { st with queue := queue }).h v).cost = (st.h u).cost + w := by
  rw [(front.visit_spec bounded below queue).1]
  rcases cost_relabelAll_eq (n := st.h v) (offersTo (st.h u).cost u v (ncost db u)) with
    stays | ⟨o, ho, hcost⟩
  · exact .inl stays
  · obtain ⟨w, hedge, rfl, _⟩ := front.offers bounded below ho
    exact .inr ⟨w, hedge, hcost⟩

theorem Frontier.visit_queued (below : (st.h u).cost < maxCost) (v : Fin db.length) :
    v ∈ (visit u { st with queue := st.queue.erase u }).queue ↔ v ∉ order ++ [u] ∧
      ((visit u { st with queue := st.queue.erase u }).h v).cost < maxCost := by
  obtain ⟨hh, hq, _⟩ := front.visit_spec bounded below (st.queue.erase u)
  have outside : v ∉ order ++ [u] ↔ v ∉ order ∧ v ≠ u := by
    simp only [List.mem_append, List.mem_singleton, not_or, ne_eq]
  rw [hq, outside, front.queueNodup.mem_erase_iff, front.queued]
  constructor
  · rintro (⟨other, hv, less⟩ | ⟨other, hv, offered⟩)
    · refine ⟨⟨hv, other⟩, ?_⟩
      rw [hh]
      exact Nat.lt_of_le_of_lt (cost_relabelAll_le _).1 less
    · refine ⟨⟨hv, other⟩, ?_⟩
      obtain ⟨o, ho⟩ := List.exists_mem_of_ne_nil _ offered
      obtain ⟨w, _, rfl, less⟩ := front.offers bounded below ho
      rw [hh]
      exact Nat.lt_of_le_of_lt ((cost_relabelAll_le _).2 _ ho) less
  · rintro ⟨⟨hv, other⟩, less⟩
    rcases front.visit_lowered bounded below v with stays | ⟨w, ⟨c, hc, found, _⟩, _⟩
    · exact .inl ⟨other, hv, stays ▸ less⟩
    · refine .inr ⟨other, hv, ?_⟩
      exact List.ne_nil_of_mem (mem_offersTo.mpr ⟨c, hc, found, rfl⟩)

theorem Frontier.visit_label
    (fresh : u ∉ order) (below : (st.h u).cost < maxCost) (v : Fin db.length) :
    (visit u { st with queue := queue }).h v =
      { relabelAll (history (fun x => ((visit u { st with queue := queue }).h x).cost)
          (order ++ [u]) v) (startNode root v) with
        visited := decide (v ∈ order ++ [u]) } := by
  have before : relabelAll (offersTo (st.h u).cost u v (ncost db u)) (st.h v) =
      { relabelAll (offersTo (st.h u).cost u v (ncost db u))
          (relabelAll (history (fun x => (st.h x).cost) order v) (startNode root v)) with
        visited := decide (v ∈ order) } := by
    rw [← relabelAll_visited]
    exact congrArg _ (front.label v)
  have same := fun x hx => front.visit_same bounded fresh below queue (v := x) hx
  rw [(front.visit_spec bounded below queue).1 v, history_append_singleton, relabelAll_append,
    history_congr (fun x hx => same x (List.mem_append_left _ hx)),
    same u (List.mem_append_right _ (List.mem_singleton_self u)), before]
  simp only [List.mem_append, List.mem_singleton, Bool.decide_or, Bool.or_comm]

theorem Frontier.visit_attained
    (fresh : u ∉ order) (below : (st.h u).cost < maxCost) {v : Fin db.length}
    (less : ((visit u { st with queue := queue }).h v).cost < maxCost) :
    ∃ left, Walk (edge db) root v ((visit u { st with queue := queue }).h v).cost left ∧
      (v :: left).Nodup ∧ ∀ x ∈ left, x ∈ order ++ [u] := by
  by_cases stays : ((visit u { st with queue := queue }).h v).cost = (st.h v).cost
  · rw [stays] at less ⊢
    obtain ⟨left, walk, nodup, inside⟩ := front.attained v less
    exact ⟨left, walk, nodup, fun x hx => List.mem_append_left _ (inside x hx)⟩
  · obtain ⟨w, hedge, hcost⟩ := (front.visit_lowered bounded below v).resolve_left stays
    obtain ⟨left, walk, nodup, inside⟩ := front.attained u below
    have within : ∀ x ∈ u :: left, x ∈ order ++ [u] := by
      rintro x hx
      rcases List.mem_cons.mp hx with rfl | old
      · exact List.mem_append_right _ (List.mem_singleton_self x)
      · exact List.mem_append_left _ (inside x old)
    rw [hcost]
    refine ⟨u :: left, walk.snoc hedge, List.nodup_cons.mpr ⟨fun hv => ?_, nodup⟩, within⟩
    exact stays (front.visit_same bounded fresh below queue (within v hv))

theorem Frontier.step (got : lsapqGet (fun v => (st.h v).cost) st.queue = some (u, queue)) :
    Frontier root (visit u { st with queue := queue }) (order ++ [u]) := by
  obtain ⟨hu, rfl, least⟩ := lsapqGet_some got
  obtain ⟨fresh, below⟩ := (front.queued u).mp hu
  have same := fun x hx =>
    front.visit_same bounded fresh below (st.queue.erase u) (v := x) hx
  constructor
  · exact front.nodup.append (List.nodup_singleton u) (by simpa using fresh)
  · exact (front.visit_spec bounded below _).2.2 (front.queueNodup.erase u)
  · exact front.visit_label bounded fresh below
  · exact front.visit_queued bounded below
  · intro x hx v hv
    have le : (st.h x).cost ≤ (st.h u).cost := by
      rcases List.mem_append.mp hx with old | new
      · exact front.sorted x old u fresh
      · rw [List.mem_singleton.mp new]
    rw [same x hx]
    rcases front.visit_lowered bounded below v with stays | ⟨w, _, hcost⟩
    · rw [stays]
      exact Nat.le_trans le (front.next_le hu least (fun h => hv (List.mem_append_left _ h)))
    · omega
  · exact fun v less => front.visit_attained bounded fresh below less
  · intro v hv
    rw [same v hv]
    rcases List.mem_append.mp hv with old | new
    · exact front.reached v old
    · rw [List.mem_singleton.mp new]
      exact below
  · intro x hx
    cases order with
    | nil =>
      have only := front.cost_nil u
      rw [List.nil_append, List.head?_cons, Option.mem_some_iff] at hx
      by_contra other
      rw [if_neg (hx ▸ other)] at only
      omega
    | cons y rest => exact front.first x hx

end

end

end Step

end Frontier

section Run

variable {db : List OspfLsa} {root : Fin db.length} {st : SpfState db}
  {order : List (Fin db.length)}

theorem frontier_start (root : Fin db.length) :
    Frontier root
      { h := Function.update initCosts.h root { initCosts.h root with cost := 0 }
        queue := lsapqPush initCosts.queue root } [] := by
  have start : ∀ v, Function.update initCosts.h root { initCosts.h root with cost := 0 } v =
      startNode root v := by
    intro v
    by_cases here : v = root
    · simp [startNode, here, initCosts]
    · simp [startNode, here, initCosts]
  constructor
  · exact List.nodup_nil
  · exact List.nodup_singleton root
  · intro v
    dsimp only
    rw [start]
    simp [history, relabelAll, startNode]
  · intro v
    dsimp only
    rw [start]
    by_cases here : v = root
    · simp [startNode, here, maxCost, lsapqPush, initCosts]
    · simp [startNode, here, lsapqPush, initCosts]
  · rintro u ⟨⟩
  · intro v less
    dsimp only at less ⊢
    rw [start] at less ⊢
    by_cases here : v = root
    · rw [here]
      refine ⟨[], ?_, List.nodup_singleton root, fun u h => by cases h⟩
      rw [startNode, if_pos rfl]
      exact .nil
    · simp [startNode, here] at less
  · rintro v ⟨⟩
  · rintro u ⟨⟩

/-- The rule for the loop, with the advertisements visited so far: every pass visits another
one, so the loop ends. -/
theorem dijkstra_rule {I : SpfState db → List (Fin db.length) → Prop}
    (fresh : ∀ st order, I st order →
      order.Nodup ∧ ∀ v ∈ st.queue, v ∉ order ∧ (st.h v).visited = false)
    (step : ∀ st order u queue, I st order →
      lsapqGet (fun v => (st.h v).cost) st.queue = some (u, queue) →
        I (visit u { st with queue := queue }) (order ++ [u]))
    (holds : I st order) {fuel : Nat} (enough : db.length ≤ order.length + fuel) :
    ∃ st' order', dijkstra fuel st = some st' ∧ I st' order' ∧ st'.queue = [] := by
  obtain ⟨nodup, waiting⟩ := fresh st order holds
  induction fuel generalizing st order with
  | zero =>
    have all : ∀ v, v ∈ order := by
      intro v
      have full : order.length = Fintype.card (Fin db.length) := by
        have := nodup.length_le_card
        rw [Fintype.card_fin] at this ⊢
        omega
      exact (List.mem_toFinset.mp ((Finset.eq_univ_of_card order.toFinset
        ((List.toFinset_card_of_nodup nodup).trans full)) ▸ Finset.mem_univ v))
    have empty : st.queue = [] :=
      List.eq_nil_iff_forall_not_mem.mpr fun v hv => (waiting v hv).1 (all v)
    refine ⟨st, order, ?_, holds, empty⟩
    rw [dijkstra, empty]
    rfl
  | succ fuel ih =>
    rw [dijkstra]
    cases got : lsapqGet (fun v => (st.h v).cost) st.queue with
    | none => exact ⟨st, order, rfl, holds, lsapqGet_none got⟩
    | some p =>
      obtain ⟨u, queue⟩ := p
      have unvisited : ¬ (st.h u).visited = true := by
        rw [(waiting u (lsapqGet_some got).1).2]
        exact Bool.false_ne_true
      have holds' := step st order u queue holds got
      dsimp only
      rw [if_neg unvisited]
      refine ih holds' ?_ (fresh _ _ holds').1 (fresh _ _ holds').2
      rw [List.length_append, List.length_singleton]
      omega

theorem dijkstra_ends (front : Frontier root st order) (bounded : Bounded db root) {fuel : Nat}
    (enough : db.length ≤ order.length + fuel) :
    ∃ st' order', dijkstra fuel st = some st' ∧ Frontier root st' order' ∧ st'.queue = [] := by
  refine dijkstra_rule ?_ (fun _ _ _ _ front got => front.step bounded got) front enough
  intro st order front
  refine ⟨front.nodup, fun v waits => ?_⟩
  have absent := ((front.queued v).mp waits).1
  exact ⟨absent, by rw [front.visited v, decide_eq_false absent]⟩

end Run

section Predecessors

variable {db : List OspfLsa}

theorem mem_fillFirst {α : Type} {x y : α} {slots : List (Option α)}
    (h : some y ∈ fillFirst x slots) : some y ∈ slots ∨ y = x := by
  induction slots with
  | nil => cases h
  | cons slot rest ih =>
    cases slot with
    | none =>
      rcases List.mem_cons.mp h with here | later
      · exact .inr (Option.some.inj here)
      · exact .inl (List.mem_cons_of_mem _ later)
    | some z =>
      rcases List.mem_cons.mp h with here | later
      · exact .inl (here ▸ List.mem_cons_self)
      · exact (ih later).imp_left (List.mem_cons_of_mem _)

theorem mem_addFrom {α : Type} {x y : α} {slots : List (Option α)}
    (h : some y ∈ addFrom x slots) : some y ∈ slots ∨ y = x := by
  cases slots with
  | nil => cases h
  | cons first rest =>
    rcases List.mem_cons.mp h with here | later
    · exact .inl (here ▸ List.mem_cons_self)
    · exact (mem_fillFirst later).imp_left (List.mem_cons_of_mem _)

theorem mem_relabel {n : SpfNode db} {lsa x : Fin db.length} {new : Nat}
    (h : some x ∈ (relabel lsa new n).fromLsa) :
    (some x ∈ n.fromLsa ∧ (relabel lsa new n).cost = n.cost) ∨
      (x = lsa ∧ (relabel lsa new n).cost = new) := by
  rw [relabel] at h ⊢
  split at h
  · rename_i less
    rw [if_pos less]
    right
    simpa using h
  · rename_i notLess
    rw [if_neg notLess]
    split at h
    · rename_i same
      rw [if_pos same]
      rcases mem_addFrom h with old | rfl
      · exact .inl ⟨old, rfl⟩
      · exact .inr ⟨rfl, same⟩
    · rename_i other
      rw [if_neg other]
      exact .inl ⟨h, rfl⟩

theorem mem_relabelAll {n : SpfNode db} {offers : List (Fin db.length × Nat)} {x : Fin db.length}
    (h : some x ∈ (relabelAll offers n).fromLsa) :
    (some x ∈ n.fromLsa ∧ (relabelAll offers n).cost = n.cost) ∨
      (x, (relabelAll offers n).cost) ∈ offers := by
  induction offers generalizing n with
  | nil => exact .inl ⟨h, rfl⟩
  | cons o rest ih =>
    have step : relabelAll (o :: rest) n = relabelAll rest (relabel o.1 o.2 n) := rfl
    rw [step] at h ⊢
    rcases ih h with ⟨old, same⟩ | later
    · rcases mem_relabel old with ⟨older, keeps⟩ | ⟨rfl, new⟩
      · exact .inl ⟨older, same.trans keeps⟩
      · rw [same, new]
        exact .inr List.mem_cons_self
    · exact .inr (List.mem_cons_of_mem _ later)

end Predecessors

section Result

variable {db : List OspfLsa} {root : Fin db.length} {st : SpfState db}
  {order : List (Fin db.length)}

section

variable (front : Frontier root st order)

include front

theorem Frontier.mem_history (bounded : Bounded db root)
    {v : Fin db.length} {o : Fin db.length × Nat} :
    o ∈ history (fun u => (st.h u).cost) order v ↔
      ∃ u ∈ order, ∃ w, edge db u v w ∧ o = (u, (st.h u).cost + w) := by
  simp only [history, List.mem_flatMap]
  constructor
  · rintro ⟨u, hu, ho⟩
    obtain ⟨w, hedge, heq, _⟩ := front.offers bounded (front.reached u hu) ho
    exact ⟨u, hu, w, hedge, heq⟩
  · rintro ⟨u, hu, w, ⟨c, hc, found, rfl⟩, rfl⟩
    refine ⟨u, hu, mem_offersTo.mpr ⟨c, hc, found, ?_⟩⟩
    rw [(front.offer bounded (front.reached u hu) hc found).1]

theorem Frontier.cost_eq (v : Fin db.length) :
    (st.h v).cost =
      (relabelAll (history (fun u => (st.h u).cost) order v) (startNode root v)).cost := by
  have same := congrArg SpfNode.cost (front.label v)
  exact same

theorem Frontier.from_eq (v : Fin db.length) :
    (st.h v).fromLsa =
      (relabelAll (history (fun u => (st.h u).cost) order v) (startNode root v)).fromLsa := by
  have same := congrArg SpfNode.fromLsa (front.label v)
  exact same

theorem Frontier.cost_root : (st.h root).cost = 0 := by
  have le := (cost_relabelAll_le (n := startNode root root)
    (history (fun u => (st.h u).cost) order root)).1
  rw [← front.cost_eq, startNode, if_pos rfl] at le
  exact Nat.le_zero.mp le

theorem Frontier.relaxed (bounded : Bounded db root)
    {u v : Fin db.length} {w : Nat} (hu : u ∈ order) (hedge : edge db u v w) :
    (st.h v).cost ≤ (st.h u).cost + w ∧ (st.h u).cost + w < maxCost := by
  have offered := (front.mem_history bounded).mpr ⟨u, hu, w, hedge, rfl⟩
  obtain ⟨c, hc, found, rfl⟩ := hedge
  rw [front.cost_eq v]
  exact ⟨(cost_relabelAll_le _).2 _ offered, (front.offer bounded (front.reached u hu) hc found).2⟩

theorem Frontier.pred (bounded : Bounded db root)
    {u v : Fin db.length} (h : some u ∈ (st.h v).fromLsa) :
    u ∈ order ∧ Tight (edge db) (fun x => (st.h x).cost) u v := by
  rw [front.from_eq v] at h
  rcases mem_relabelAll h with ⟨none, _⟩ | offered
  · simp [startNode] at none
  · obtain ⟨x, hx, w, hedge, heq⟩ := (front.mem_history bounded).mp offered
    cases congrArg Prod.fst heq
    exact ⟨hx, w, hedge, ((front.cost_eq v).trans (congrArg Prod.snd heq)).symm⟩

theorem Frontier.visited_iff (empty : st.queue = [])
    (v : Fin db.length) : v ∈ order ↔ (st.h v).cost < maxCost := by
  refine ⟨front.reached v, fun less => ?_⟩
  by_contra unvisited
  have := (front.queued v).mpr ⟨unvisited, less⟩
  rw [empty] at this
  cases this

theorem Frontier.cost_unvisited (empty : st.queue = [])
    {v : Fin db.length} (unvisited : v ∉ order) : (st.h v).cost = maxCost := by
  have notRoot : v ≠ root := by
    intro here
    apply unvisited
    rw [front.visited_iff empty, here, front.cost_root, maxCost]
    omega
  have le := (cost_relabelAll_le (n := startNode root v)
    (history (fun u => (st.h u).cost) order v)).1
  rw [← front.cost_eq, startNode, if_neg notRoot] at le
  have ge := (front.visited_iff empty v).not.mp unvisited
  dsimp only at le
  omega

theorem Frontier.isDist (bounded : Bounded db root) (empty : st.queue = []) (v : Fin db.length) :
    (v ∈ order ↔ Reachable (edge db) root v) ∧
      (v ∈ order → IsDist (edge db) root v (st.h v).cost) := by
  refine isDist_of_relaxed (fun x => (st.h x).cost) (· ∈ order) front.cost_root ?_ ?_ ?_ v
  · rw [front.visited_iff empty, front.cost_root, maxCost]
    omega
  · intro x hx
    obtain ⟨left, walk, _⟩ := front.attained x (front.reached x hx)
    exact ⟨left, walk⟩
  · intro x y w hx hedge
    obtain ⟨le, less⟩ := front.relaxed bounded hx hedge
    exact ⟨(front.visited_iff empty y).mpr (Nat.lt_of_le_of_lt le less), le⟩

theorem Frontier.least (bounded : Bounded db root)
    (empty : st.queue = []) : Least (edge db) root (fun x => (st.h x).cost) := by
  intro v reachable
  obtain ⟨visited, dist⟩ := front.isDist bounded empty v
  exact dist (visited.mpr reachable)

end

theorem spf_ends (bounded : Bounded db root) {fuel : Nat} (enough : db.length ≤ fuel) :
    ∃ st order, spf (some root) fuel = some st ∧ Frontier root st order ∧ st.queue = [] := by
  refine dijkstra_ends (frontier_start root) bounded ?_
  rw [List.length_nil]
  omega

end Result

/-- What the calculation is for: exactly the reachable advertisements are visited, at
their least cost, each predecessor is on a walk of that cost, and the others keep
`OSPF_MAX_COST`. -/
structure ShortestPaths {db : List OspfLsa} (mylsa : Option (Fin db.length)) (st : SpfState db) :
    Prop where
  visited : ∀ v, (st.h v).visited = true ↔ ∃ root ∈ mylsa, Reachable (edge db) root v
  cost : ∀ root ∈ mylsa, ∀ v, (st.h v).visited = true → IsDist (edge db) root v (st.h v).cost
  pred : ∀ u v, (st.h v).visited = true → some u ∈ (st.h v).fromLsa →
    (st.h u).visited = true ∧ ∃ w, edge db u v w ∧ (st.h u).cost + w = (st.h v).cost
  unvisited : ∀ v, (st.h v).visited = false → (st.h v).cost = maxCost

theorem spf_shortestPaths {db : List OspfLsa} (mylsa : Option (Fin db.length))
    (bounded : ∀ root ∈ mylsa, Bounded db root) (fuel : Nat) (enough : db.length ≤ fuel) :
    ∃ st, spf mylsa fuel = some st ∧ st.queue = [] ∧ ShortestPaths mylsa st := by
  cases mylsa with
  | none =>
    refine ⟨initCosts, rfl, rfl, ?_⟩
    constructor
    · intro v
      simp [initCosts]
    · rintro root ⟨⟩
    · intro u v seen
      cases seen
    · exact fun v _ => rfl
  | some root =>
    have bounded := bounded root rfl
    obtain ⟨st, order, run, front, empty⟩ := spf_ends bounded enough
    have seen : ∀ v, (st.h v).visited = true ↔ v ∈ order := by
      intro v
      rw [front.visited v, decide_eq_true_eq]
    refine ⟨st, run, empty, ?_⟩
    constructor
    · intro v
      rw [seen, (front.isDist bounded empty v).1]
      simp
    · rintro x ⟨⟩ v hv
      exact (front.isDist bounded empty v).2 ((seen v).mp hv)
    · intro u v _ h
      obtain ⟨hu, tight⟩ := front.pred bounded h
      exact ⟨(seen u).mpr hu, tight⟩
    · intro v unvisited
      apply front.cost_unvisited empty
      rw [← seen, unvisited]
      exact Bool.false_ne_true

section Small

variable {db : List OspfLsa} {root : Fin db.length}

theorem walk_cost_le {limit : Nat} (metric : ∀ u, ∀ c ∈ ncost db u, c.cost.toNat ≤ limit)
    {v : Fin db.length} {c : Nat} {left : List (Fin db.length)}
    (walk : Walk (edge db) root v c left) : c ≤ left.length * limit := by
  induction walk with
  | nil => exact Nat.zero_le _
  | snoc before last ih =>
    obtain ⟨e, he, _, rfl⟩ := last
    have := metric _ e he
    rw [List.length_cons, Nat.add_mul, Nat.one_mul]
    omega

theorem bounded_of_length_le (metric : ∀ u, ∀ c ∈ ncost db u, c.cost.toNat ≤ 65535)
    (few : db.length ≤ 65536) : Bounded db root := by
  intro v c left walk nodup
  have le := walk_cost_le metric walk
  have short : left.length ≤ db.length := by
    simpa only [Fintype.card_fin] using nodup.length_le_card
  simp only [maxCost]
  omega

end Small

/-- A first instance with the given checksum and body. -/
def firstInstance (type : BitVec 8) (id advRouter : BitVec 32) (checksum : BitVec 16)
    (body : List (BitVec 8)) : OspfLsa :=
  ⟨[0, 1, 0, type] ++ be32 id ++ be32 advRouter ++ be32 0x80000001 ++ be16 checksum ++
    be16 (BitVec.ofNat 16 (20 + body.length)) ++ body, false, 0, 0, 0, 0⟩

/-- A router LSA; the links are given by id, data, type and metric. -/
def routerLsa (id : BitVec 32) (checksum : BitVec 16)
    (links : List (BitVec 32 × BitVec 32 × BitVec 8 × BitVec 16)) : OspfLsa :=
  firstInstance 1 id id checksum ([0, 0] ++ be16 (BitVec.ofNat 16 links.length) ++
    links.flatMap (fun l => be32 l.1 ++ be32 l.2.1 ++ [l.2.2.1, 0] ++ be16 l.2.2.2))

/-- A network LSA with the attached routers. -/
def networkLsa (id mask advRouter : BitVec 32) (checksum : BitVec 16)
    (attached : List (BitVec 32)) : OspfLsa :=
  firstInstance 2 id advRouter checksum (be32 mask ++ attached.flatMap be32)

/-- Two routers on the network 10.0.0.0/24. -/
def twoRouters : List OspfLsa :=
  [routerLsa 0x01010101 0x0f1f [(0x0a000001, 0x0a000001, 2, 10)],
    networkLsa 0x0a000001 0xffffff00 0x01010101 0x7bc5 [0x01010101, 0x02020202],
    routerLsa 0x02020202 0x9a8d [(0x0a000001, 0x0a000002, 2, 7)]]

theorem spf_shortestPaths_twoRouters :
    (∀ root ∈ some (⟨0, by decide⟩ : Fin twoRouters.length), Bounded twoRouters root) ∧
      ∃ st, spf (some (⟨0, by decide⟩ : Fin twoRouters.length)) 3 = some st ∧ st.queue = [] ∧
        ShortestPaths (some ⟨0, by decide⟩) st := by
  have bounded : ∀ root ∈ some (⟨0, by decide⟩ : Fin twoRouters.length),
      Bounded twoRouters root :=
    fun root _ => bounded_of_length_le (by decide +kernel) (by decide)
  exact ⟨bounded, spf_shortestPaths _ bounded 3 (by decide)⟩

end Spf
