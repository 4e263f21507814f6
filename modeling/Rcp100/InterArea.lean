import Rcp100.FirstHops

/-!
# Routes to other areas

A summary costs its own metric and the way to the border router that advertises it, and the
search for its next hops goes back from that router.
-/

namespace InterArea

open LsaFormat LsUpdate WeightedPaths Spf Predecessors RouteEntry NextHop FirstHops
open ByteBuffer (be32)

section Model

variable (a : OwnArea) (st : SpfState a.db)

/-- The one element that `lsa_add_cost` makes for a summary. -/
def ownCost (v : Fin a.db.length) : Option LsaCost := (ncost a.db v).head?

/-- `spf_sum_net` for one summary: its cost, and the router LSA in its first slot. -/
def spfSum (v : Fin a.db.length) : Option (BitVec 32 × Fin a.db.length) := do
  let cost ← ownCost a v
  let found ← lsadbFind2 a.db 1 (a.db.get v).header.advRouter
  if (st.h found).cost < maxCost then
    some (cost.cost + BitVec.ofNat 32 (st.h found).cost, found)
  else none

/-- The call of `route_add` by `update_route` for a summary, which has its mask where a network
LSA has it and no `outhop`. -/
def summaryRoute (v : Fin a.db.length) (cost gw : BitVec 32) : RouteArgs where
  ip := a.linkStateId v &&& a.mask v
  mask := a.mask v
  len := 0
  gw := gw
  cost := cost
  type := .ospfIa
  areaId := a.areaId
  ifip := 0

/-- The calls for one summary; `own` tells those with the originator `OSPF_ORIG_SUMMARY`. The
router LSA in the first slot has no `outhop`, so that the recursion goes on with it. -/
def summaryCalls (own : Fin a.db.length → Bool) (fuel : Nat) (v : Fin a.db.length) :
    Option (List RouteArgs) :=
  match spfSum a st v with
  | none => some []
  | some (cost, found) =>
    if own v then some []
    else (a.getNexthopId st found fuel found).map fun calls =>
      calls.map fun call => summaryRoute a v cost call.gw

/-- `nexthop_summary_net`. -/
def nexthopSummaryNet (own : Fin a.db.length → Bool) (fuel : Nat) : Option (List RouteArgs) :=
  (((List.finRange a.db.length).filter fun v => a.type v = 3).mapM
    (summaryCalls a st own fuel)).map List.flatten

/-- The routes by a summary: to its prefix, over the routers that directly follow the last
connected network of a shortest path to the border router, at the cost of that path and the
metric of the summary. -/
def Summarized (v : Fin a.db.length) (call : RouteArgs) : Prop :=
  ∃ own border d g, ownCost a v = some own ∧
    lsadbFind2 a.db 1 (a.db.get v).header.advRouter = some border ∧
    IsDist (edge a.db) a.mylsa border d ∧ FollowsLastConnected a border g ∧
    call = summaryRoute a v (own.cost + BitVec.ofNat 32 d) g

end Model

section Exact

variable {a : OwnArea} {st : SpfState a.db} {order : List (Fin a.db.length)}
  (front : Frontier a.mylsa st order) (bounded : Bounded a.db a.mylsa) (empty : st.queue = [])

include front bounded empty

theorem spfSum_iff {v border : Fin a.db.length} {cost : BitVec 32} :
    spfSum a st v = some (cost, border) ↔ ∃ own d, ownCost a v = some own ∧
      lsadbFind2 a.db 1 (a.db.get v).header.advRouter = some border ∧
      IsDist (edge a.db) a.mylsa border d ∧ cost = own.cost + BitVec.ofNat 32 d := by
  constructor
  · intro sum
    simp only [spfSum, Option.bind_eq_bind, Option.bind_eq_some_iff] at sum
    obtain ⟨own, hown, found, hfound, chosen⟩ := sum
    split at chosen
    · rename_i reached
      cases chosen
      have visited := (front.visited_iff empty border).mpr reached
      exact ⟨own, _, hown, hfound, (front.isDist bounded empty border).2 visited, rfl⟩
    · cases chosen
  · rintro ⟨own, d, hown, found, dist, rfl⟩
    obtain ⟨left, walk⟩ := dist.1
    have visited := (front.isDist bounded empty border).1.mpr ⟨d, left, walk⟩
    have same := dist.unique ((front.isDist bounded empty border).2 visited)
    simp only [spfSum, hown, found, Option.bind_eq_bind, Option.bind_some]
    rw [if_pos ((front.visited_iff empty border).mp visited), same]

variable (positive : ∀ u, a.type u = 1 → ∀ c ∈ ncost a.db u, 0 < c.cost.toNat)
  (configured : Configured a)
  (single : ∀ router network, a.type router = 1 → a.type network = 2 →
    ((a.links router).filter (a.onPrefix network)).length ≤ 1)
  (few : ∀ v, (st.h v).visited = true → predecessorCount st v ≤ 4)

include positive configured single few

theorem search_router {v : Fin a.db.length} (router : a.type v = 1)
    (reached : (st.h v).cost < maxCost) :
    ∃ calls, a.getNexthopId st v a.db.length v = some calls ∧
      ∀ g, (∃ call ∈ calls, call.gw = g) ↔ FollowsLastConnected a v g := by
  have resolves := (resolves_iff front bounded empty (noFreeCycle_of_positive positive)).mpr
    (passed_of_configured front bounded empty configured)
  obtain ⟨calls, ended⟩ := resolves.search v v
  have hv := (front.visited_iff empty v).mpr reached
  have start : a.outhop st v = 0 := by
    apply if_neg
    rintro ⟨network, _⟩
    rw [router] at network
    cases network
  have fewSlots : ∀ x ∈ order, predecessorCount st x ≤ 4 := by
    intro x hx
    apply few x
    rw [front.visited x, decide_eq_true hx]
  refine ⟨calls, ended, fun g => ?_⟩
  constructor
  · rintro ⟨call, hcall, rfl⟩
    obtain ⟨r, net, leads, hroute⟩ := (mem_getNexthopId front bounded hv ended).mp hcall
    obtain ⟨isNetwork, isRouter⟩ := leads.types front bounded
    have interface := (updateRoute_iff v (single r net isRouter isNetwork)).mp ⟨call, hroute, rfl⟩
    exact followsLast_of_leads front bounded empty configured leads hv start interface
  · intro follows
    obtain ⟨r, net, leads, interface⟩ :=
      leads_of_followsLast front bounded empty configured positive fewSlots follows
    obtain ⟨isNetwork, isRouter⟩ := leads.types front bounded
    obtain ⟨call, hroute, hgw⟩ :=
      (updateRoute_iff v (single r net isRouter isNetwork)).mpr interface
    exact ⟨call, (mem_getNexthopId front bounded hv ended).mpr ⟨r, net, leads, hroute⟩, hgw⟩

theorem exists_summaryCalls (own : Fin a.db.length → Bool) (v : Fin a.db.length) :
    ∃ calls, summaryCalls a st own a.db.length v = some calls ∧
      ∀ call, call ∈ calls ↔ own v = false ∧ Summarized a v call := by
  rw [summaryCalls]
  cases sum : spfSum a st v with
  | none =>
    refine ⟨[], rfl, fun call => iff_of_false List.not_mem_nil ?_⟩
    rintro ⟨_, metric, border, d, g, hown, found, dist, _, _⟩
    rw [(spfSum_iff front bounded empty).mpr ⟨metric, d, hown, found, dist, rfl⟩] at sum
    cases sum
  | some r =>
    obtain ⟨cost, border⟩ := r
    obtain ⟨metric, d, hown, found, dist, rfl⟩ := (spfSum_iff front bounded empty).mp sum
    dsimp only
    by_cases mine : own v = true
    · rw [if_pos mine]
      exact ⟨[], rfl, fun call => iff_of_false List.not_mem_nil (by simp [mine])⟩
    · obtain ⟨left, walk⟩ := dist.1
      have reached := (front.visited_iff empty border).mp
        ((front.isDist bounded empty border).1.mpr ⟨d, left, walk⟩)
      obtain ⟨calls, ended, gateways⟩ := search_router front bounded empty positive configured
        single few (type_of_found found) reached
      rw [if_neg mine, ended]
      refine ⟨_, rfl, fun call => ?_⟩
      rw [List.mem_map]
      constructor
      · rintro ⟨c, hc, rfl⟩
        exact ⟨Bool.not_eq_true _ ▸ mine, metric, border, d, c.gw, hown, found, dist,
          (gateways c.gw).mp ⟨c, hc, rfl⟩, rfl⟩
      · rintro ⟨_, metric', border', d', g, hown', found', dist', follows, rfl⟩
        cases hown.symm.trans hown'
        cases found.symm.trans found'
        obtain ⟨c, hc, rfl⟩ := (gateways g).mpr follows
        exact ⟨c, hc, by rw [dist.unique dist']⟩

end Exact

/-- The inter-area routes are those by the summaries of other routers whose border router is
reached: each goes over all routers that directly follow the last connected network of a
shortest path to it, and over no other. -/
theorem inter_area_routes (a : OwnArea) (bounded : Bounded a.db a.mylsa)
    (positive : ∀ u, a.type u = 1 → ∀ c ∈ ncost a.db u, 0 < c.cost.toNat)
    (configured : Configured a)
    (single : ∀ router network, a.type router = 1 → a.type network = 2 →
      ((a.links router).filter (a.onPrefix network)).length ≤ 1)
    {st : SpfState a.db} (run : spf (some a.mylsa) a.db.length = some st)
    (few : ∀ v, (st.h v).visited = true → predecessorCount st v ≤ 4)
    (own : Fin a.db.length → Bool) :
    ∃ calls, nexthopSummaryNet a st own a.db.length = some calls ∧
      ∀ call, call ∈ calls ↔ ∃ v, a.type v = 3 ∧ own v = false ∧ Summarized a v call := by
  obtain ⟨st', order, run', front, empty⟩ := spf_ends bounded (Nat.le_refl _)
  rw [run] at run'
  cases run'
  have each := exists_summaryCalls front bounded empty positive configured single few own
  obtain ⟨groups, mapped, _⟩ := exists_mapM
    (l := (List.finRange a.db.length).filter fun v => a.type v = 3) fun v _ => (each v).imp
      fun _ h => h.1
  refine ⟨groups.flatten, by rw [nexthopSummaryNet, mapped]; rfl, fun call => ?_⟩
  rw [List.mem_flatten]
  constructor
  · rintro ⟨group, hgroup, hcall⟩
    obtain ⟨v, listed, heq⟩ := (mem_mapM mapped).mp hgroup
    obtain ⟨calls, ended, exact⟩ := each v
    cases ended.symm.trans heq
    exact ⟨v, of_decide_eq_true (List.mem_filter.mp listed).2, (exact call).mp hcall⟩
  · rintro ⟨v, summary, h⟩
    obtain ⟨calls, ended, exact⟩ := each v
    have listed : v ∈ (List.finRange a.db.length).filter fun v => a.type v = 3 :=
      List.mem_filter.mpr ⟨List.mem_finRange v, decide_eq_true summary⟩
    exact ⟨calls, (mem_mapM mapped).mpr ⟨v, listed, ended⟩, (exact call).mpr h⟩

/-- The area with two uplinks, a summary 10.9.0.0/16 of the router 3.3.3.3, and one of a router
that is not reached. -/
def borderArea : OwnArea where
  areaId := 0
  area :=
    { twoUplinks.area with
      list := twoUplinks.area.list ++
        [firstInstance 3 0x0a090000 0x03030303 0x72c8 (be32 0xffff0000 ++ be32 5),
          firstInstance 3 0x0a080000 0x09090909 0xc95a (be32 0xffff0000 ++ be32 5)] }
  mylsa := ⟨0, by decide⟩
  isRouter := by decide

theorem inter_area_routes_borderArea :
    ∃ st calls, spf (some borderArea.mylsa) borderArea.db.length = some st ∧
      nexthopSummaryNet borderArea st (fun _ => false) borderArea.db.length = some calls ∧
      ∀ call, call ∈ calls ↔ ∃ v, borderArea.type v = 3 ∧ false = false ∧
        Summarized borderArea v call := by
  have computed : (spf (some borderArea.mylsa) borderArea.db.length).any (fun st =>
      decide (∀ v, predecessorCount st v ≤ 4)) = true := by decide +kernel
  obtain ⟨st, run, few⟩ := (Option.any_eq_true _ _).mp computed
  obtain ⟨calls, ended, exact⟩ := inter_area_routes borderArea
    (bounded_of_length_le (by decide +kernel) (by decide)) (by decide +kernel)
    (configured_of_links (by decide +kernel)) (by decide +kernel) run
    (fun v _ => of_decide_eq_true few v) fun _ => false
  exact ⟨st, calls, run, ended, exact⟩

end InterArea
