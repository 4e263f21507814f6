import Rcp100.NextHop

/-!
# First hops of equal-cost paths

The gateways of a network are compared with the shortest paths to it: the search stops
at the last connected network of each path.
-/

namespace FirstHops

open LsaFormat LsUpdate WeightedPaths Spf Predecessors RouteEntry NextHop

/-- A network LSA that a link of the router's own LSA reaches at the least cost. -/
def Connected (a : OwnArea) (v : Fin a.db.length) : Prop :=
  ∃ w, edge a.db a.mylsa v w ∧ IsDist (edge a.db) a.mylsa v w

/-- The interface address of a router on a network. -/
def Interface (a : OwnArea) (router network : Fin a.db.length) (address : BitVec 32) : Prop :=
  ∃ lnk ∈ a.links router, a.onPrefix network lnk = true ∧ lnk.linkData = address

/-- On some shortest path to `v`, the router with this interface directly follows a
connected network. -/
def FollowsConnected (a : OwnArea) (v : Fin a.db.length) (address : BitVec 32) : Prop :=
  ∃ c left, Walk (edge a.db) a.mylsa v c left ∧ IsDist (edge a.db) a.mylsa v c ∧
    ∃ before router network after, v :: left = before ++ router :: network :: after ∧
      Connected a network ∧ Interface a router network address

/-- On some shortest path to `v`, the router with this interface directly follows the
last connected network. -/
def FollowsLastConnected (a : OwnArea) (v : Fin a.db.length) (address : BitVec 32) : Prop :=
  ∃ c left, Walk (edge a.db) a.mylsa v c left ∧ IsDist (edge a.db) a.mylsa v c ∧
    ∃ before router network after, v :: left = before ++ router :: network :: after ∧
      Connected a network ∧ (∀ x ∈ before ++ [router], ¬ Connected a x) ∧
      Interface a router network address

/-- The gateways that are passed to `route_add` for the network LSA `v`. -/
def gateways {a : OwnArea} (result : List (Fin a.db.length × List RouteArgs))
    (v : Fin a.db.length) : Set (BitVec 32) :=
  {g | ∃ calls, (v, calls) ∈ result ∧ ∃ call ∈ calls, call.gw = g}

section Gateways

variable {a : OwnArea} {st : SpfState a.db} {order : List (Fin a.db.length)}

/-- From `v`, the search comes to a router behind a connected network. -/
inductive Leads (st : SpfState a.db) (router network : Fin a.db.length) :
    Fin a.db.length → Prop where
  | here : network ∈ parents st router → a.outhop st network ≠ 0 → Leads st router network router
  | back {v f : Fin a.db.length} : f ∈ parents st v → a.outhop st f = 0 →
    Leads st router network f → Leads st router network v

variable {v router network : Fin a.db.length}

section

variable (front : Frontier a.mylsa st order)

include front

theorem mem_getNexthopId (bounded : Bounded a.db a.mylsa)
    {current : Fin a.db.length} {fuel : Nat} {calls : List RouteArgs}
    (hv : v ∈ order) (ended : a.getNexthopId st current fuel v = some calls) {call : RouteArgs} :
    call ∈ calls ↔ ∃ router network, Leads st router network v ∧
      a.updateRoute st current router network = some call := by
  induction fuel generalizing v calls with
  | zero => cases ended
  | succ fuel ih =>
    have seen : ¬ (st.h v).visited = false := by
      rw [front.visited v, decide_eq_true hv]
      exact Bool.false_ne_true.symm
    rw [OwnArea.getNexthopId, if_neg seen] at ended
    split at ended
    · rename_i none
      have root : v = a.mylsa := by
        by_contra other
        obtain ⟨u, hu⟩ := exists_from0 front bounded hv other
        rw [none] at hu
        cases hu
      cases ended
      constructor
      · rintro ⟨⟩
      · rintro ⟨router, network, leads, _⟩
        cases leads with
        | here mem _ =>
          rw [root, parents_root front] at mem
          cases mem
        | back mem _ _ =>
          rw [root, parents_root front] at mem
          cases mem
    · obtain ⟨groups, mapped, rfl⟩ := Option.map_eq_some_iff.mp ended
      rw [List.mem_flatten]
      constructor
      · rintro ⟨group, hgroup, hcall⟩
        obtain ⟨f, hf, heq⟩ := (mem_mapM mapped).mp hgroup
        by_cases resolved : a.outhop st f ≠ 0
        · rw [if_pos resolved, Option.some.injEq] at heq
          rw [← heq, Option.mem_toList] at hcall
          exact ⟨v, f, .here hf resolved, hcall⟩
        · rw [if_neg resolved] at heq
          have visited := (front.pred bounded (mem_of_mem_parents hf)).1
          obtain ⟨router, network, leads, hroute⟩ := (ih visited heq).mp hcall
          exact ⟨router, network, .back hf (not_not.mp resolved) leads, hroute⟩
      · rintro ⟨router, network, leads, hroute⟩
        cases leads with
        | here mem resolved =>
          refine ⟨_, (mem_mapM mapped).mpr ⟨network, mem, if_pos resolved⟩, ?_⟩
          rw [Option.mem_toList]
          exact hroute
        | @back _ f mem unresolved leads =>
          obtain ⟨group, hgroup, heq⟩ := exists_mem_of_mapM mapped mem
          rw [if_neg (not_not.mpr unresolved)] at heq
          have visited := (front.pred bounded (mem_of_mem_parents mem)).1
          exact ⟨group, hgroup, (ih visited heq).mpr ⟨router, network, leads, hroute⟩⟩

theorem outhop_iff (bounded : Bounded a.db a.mylsa)
    (empty : st.queue = []) (configured : Configured a) (v : Fin a.db.length) :
    a.outhop st v ≠ 0 ↔ Connected a v := by
  constructor
  · intro resolved
    have first : from0 st v = some a.mylsa := by
      by_contra other
      exact resolved (if_neg fun h => other h.2.2)
    exact isDist_of_from0 front bounded empty first
  · rintro ⟨w, hedge, dist⟩
    have dist' := front.least bounded empty v ⟨_, _, Walk.nil.snoc hedge⟩
    have other : v ≠ a.mylsa := by
      rintro rfl
      have network := edge_router a.isRouter hedge
      rw [OwnArea.type, a.isRouter] at network
      cases network
    apply outhop_ne_zero front bounded empty configured
    refine (from0_eq_root front bounded empty other).mpr ⟨w, hedge, ?_⟩
    dsimp only
    rw [front.cost_root, Nat.zero_add]
    exact dist.unique dist'

theorem not_tight_root (bounded : Bounded a.db a.mylsa)
    (empty : st.queue = [])
    (positive : ∀ u, a.type u = 1 → ∀ c ∈ ncost a.db u, 0 < c.cost.toNat)
    {u : Fin a.db.length} (hu : u ∈ order) :
    ¬ Tight (edge a.db) (fun x => (st.h x).cost) u a.mylsa := by
  rintro ⟨w, hedge, sum⟩
  dsimp only at sum
  rw [front.cost_root] at sum
  have free : ∀ {x y : Fin a.db.length} {k : Nat}, a.type x = 1 → edge a.db x y k → 0 < k := by
    rintro x y k router ⟨c, hc, _, rfl⟩
    exact positive x router c hc
  rcases reachable_type ((front.isDist bounded empty u).1.mp hu) with router | network
  · have := free router hedge
    omega
  · -- a network is reached from a router, at a positive cost
    have other : u ≠ a.mylsa := by
      rintro rfl
      rw [OwnArea.type, a.isRouter] at network
      cases network
    obtain ⟨p, hp⟩ := exists_from0 front bounded hu other
    obtain ⟨visited, k, before, total⟩ := front.pred bounded (from0_mem hp)
    dsimp only at total
    rcases reachable_type ((front.isDist bounded empty p).1.mp visited) with router | network'
    · have := free router before
      omega
    · rw [edge_network network' before] at network
      cases network

theorem Leads.chain (bounded : Bounded a.db a.mylsa)
    (leads : Leads st router network v) :
    ∃ before between, v :: between = before ++ [router] ∧
      (v :: between ++ [network]).IsChain
        (fun y x => Tight (edge a.db) (fun x => (st.h x).cost) x y) ∧
      (∀ x ∈ between, a.outhop st x = 0) ∧ network ∈ order ∧ a.outhop st network ≠ 0 := by
  induction leads with
  | here mem resolved =>
    obtain ⟨visited, tight⟩ := front.pred bounded (mem_of_mem_parents mem)
    refine ⟨[], [], rfl, ?_, ?_, visited, resolved⟩
    · exact List.isChain_pair.mpr tight
    · rintro x ⟨⟩
  | @back v f mem unresolved _ ih =>
    obtain ⟨before, between, split, chain, outside, visited, resolved⟩ := ih
    obtain ⟨_, tight⟩ := front.pred bounded (mem_of_mem_parents mem)
    refine ⟨v :: before, f :: between, by rw [split]; rfl, ?_, ?_, visited, resolved⟩
    · exact List.isChain_cons_cons.mpr ⟨tight, chain⟩
    · rintro x hx
      rcases List.mem_cons.mp hx with rfl | later
      · exact unresolved
      · exact outside x later

end

theorem leads_of_chain
    (complete : ∀ u v, u ∈ order → Tight (edge a.db) (fun x => (st.h x).cost) u v →
      u ∈ parents st v)
    {before after : List (Fin a.db.length)}
    {left : List (Fin a.db.length)} (split : v :: left = before ++ router :: network :: after)
    (chain : (v :: left).IsChain (fun y x => Tight (edge a.db) (fun x => (st.h x).cost) x y))
    (visited : ∀ x ∈ left, x ∈ order) (resolved : a.outhop st network ≠ 0)
    (outside : ∀ x ∈ before ++ [router], a.outhop st x = 0) : Leads st router network v := by
  induction before generalizing v left with
  | nil =>
    cases split
    obtain ⟨tight, _⟩ := List.isChain_cons_cons.mp chain
    exact .here (complete _ _ (visited _ List.mem_cons_self) tight) resolved
  | cons x before ih =>
    rw [List.cons_append] at split
    obtain ⟨rfl, rfl⟩ := List.cons.inj split
    have step : ∃ f rest, before ++ router :: network :: after = f :: rest ∧
        f ∈ before ++ [router] := by
      cases before with
      | nil => exact ⟨router, _, rfl, List.mem_singleton_self _⟩
      | cons y before => exact ⟨y, _, rfl, List.mem_cons_self⟩
    obtain ⟨f, rest, hrest, hf⟩ := step
    rw [hrest] at chain visited
    obtain ⟨tight, later⟩ := List.isChain_cons_cons.mp chain
    refine .back (complete f v (visited f List.mem_cons_self) tight)
      (outside f (List.mem_cons_of_mem _ hf)) ?_
    exact ih hrest.symm later (fun y hy => visited y (List.mem_cons_of_mem _ hy))
      (fun y hy => outside y (List.mem_cons_of_mem _ hy))

theorem Leads.types (front : Frontier a.mylsa st order) (bounded : Bounded a.db a.mylsa)
    (leads : Leads st router network v) :
    a.type network = 2 ∧ a.type router = 1 := by
  induction leads with
  | here mem resolved =>
    have isNetwork : a.type network = 2 := by
      by_contra other
      exact resolved (if_neg fun h => other h.1)
    obtain ⟨w, hedge, _⟩ := (front.pred bounded (mem_of_mem_parents mem)).2
    exact ⟨isNetwork, edge_network isNetwork hedge⟩
  | back _ _ _ ih => exact ih

theorem updateRoute_iff (current : Fin a.db.length)
    (single : ((a.links router).filter (a.onPrefix network)).length ≤ 1) {g : BitVec 32} :
    (∃ call, a.updateRoute st current router network = some call ∧ call.gw = g) ↔
      Interface a router network g := by
  constructor
  · rintro ⟨call, hcall, rfl⟩
    obtain ⟨lnk, found, rfl⟩ := Option.map_eq_some_iff.mp hcall
    exact ⟨lnk, List.mem_of_find?_eq_some found, List.find?_some found, rfl⟩
  · rintro ⟨lnk, mem, on, rfl⟩
    have listed : lnk ∈ (a.links router).filter (a.onPrefix network) :=
      List.mem_filter.mpr ⟨mem, on⟩
    have only : (a.links router).filter (a.onPrefix network) = [lnk] := by
      obtain ⟨x, hx⟩ := List.length_eq_one_iff.mp
        (Nat.le_antisymm single (List.length_pos_of_mem listed))
      rw [hx, List.mem_singleton] at listed
      rw [hx, listed]
    have found : (a.links router).find? (a.onPrefix network) = some lnk := by
      rw [← List.head?_filter, only, List.head?_cons]
    exact ⟨_, by rw [OwnArea.updateRoute, found]; rfl, rfl⟩

section Exact

variable (front : Frontier a.mylsa st order) (bounded : Bounded a.db a.mylsa)
  (empty : st.queue = []) (configured : Configured a)

include front bounded empty configured

theorem followsLast_of_leads {router network v : Fin a.db.length} {g : BitVec 32}
    (leads : Leads st router network v) (hv : v ∈ order) (start : a.outhop st v = 0)
    (interface : Interface a router network g) : FollowsLastConnected a v g := by
  obtain ⟨before, between, split, chain, outside, visited, resolved⟩ := leads.chain front bounded
  obtain ⟨left, walk, _⟩ := front.attained network (front.reached network visited)
  have connected := (outhop_iff front bounded empty configured network).mp resolved
  refine ⟨(st.h v).cost, between ++ network :: left,
    walk.append_tight (fun x => (st.h x).cost) chain,
    (front.isDist bounded empty v).2 hv, before, router, network, left, ?_, connected, ?_,
    interface⟩
  · rw [← List.cons_append, split, List.append_assoc]
    rfl
  · intro x hx
    rw [← outhop_iff front bounded empty configured, not_not]
    rw [← split] at hx
    rcases List.mem_cons.mp hx with rfl | later
    · exact start
    · exact outside x later

theorem leads_of_followsLast (positive : ∀ u, a.type u = 1 → ∀ c ∈ ncost a.db u, 0 < c.cost.toNat)
    (few : ∀ v ∈ order, predecessorCount st v ≤ 4) {v : Fin a.db.length} {g : BitVec 32}
    (follows : FollowsLastConnected a v g) :
    ∃ router network, Leads st router network v ∧ Interface a router network g := by
  obtain ⟨c, left, walk, dist, before, router, network, after, split, connected, last,
    interface⟩ := follows
  have least := front.least bounded empty
  have complete : ∀ u v, u ∈ order → Tight (edge a.db) (fun x => (st.h x).cost) u v →
      u ∈ parents st v := by
    intro u v hu tight
    have ⟨w, hedge, _⟩ := tight
    obtain ⟨le, less⟩ := front.relaxed bounded hu hedge
    have hv := (front.visited_iff empty v).mpr (Nat.lt_of_le_of_lt le less)
    have other : v ≠ a.mylsa := by
      rintro rfl
      exact not_tight_root front bounded empty positive hu tight
    exact (mem_parents front bounded other (few v hv)).mpr ⟨hu, tight⟩
  refine ⟨router, network, leads_of_chain complete split ?_ ?_ ?_ ?_, interface⟩
  · exact walk.isChain_tight least (dist.unique (least v ⟨c, left, walk⟩))
  · exact fun x hx => (front.isDist bounded empty x).1.mpr (walk.reachable_of_mem hx)
  · exact (outhop_iff front bounded empty configured network).mpr connected
  · intro x hx
    by_contra resolved
    exact last x hx ((outhop_iff front bounded empty configured x).mp resolved)

end Exact

end Gateways

/-- The gateways of a network that is not connected are the interfaces, on the last
connected network of a shortest path, of the routers that follow it there. -/
theorem nexthop_gateways (a : OwnArea) (bounded : Bounded a.db a.mylsa)
    (positive : ∀ u, a.type u = 1 → ∀ c ∈ ncost a.db u, 0 < c.cost.toNat)
    (configured : Configured a)
    (single : ∀ router network, a.type router = 1 → a.type network = 2 →
      ((a.links router).filter (a.onPrefix network)).length ≤ 1)
    {st : SpfState a.db} (run : spf (some a.mylsa) a.db.length = some st)
    (few : ∀ v, (st.h v).visited = true → predecessorCount st v ≤ 4) :
    ∃ result, a.nexthop st a.db.length = some result ∧
      ∀ v, a.type v = 2 → (st.h v).visited = true → from0 st v ≠ some a.mylsa →
        gateways result v = {g | FollowsLastConnected a v g} := by
  obtain ⟨st', order, run', front, empty⟩ := spf_ends bounded (Nat.le_refl _)
  rw [run] at run'
  cases run'
  have resolves := (resolves_iff front bounded empty (noFreeCycle_of_positive positive)).mpr
    (passed_of_configured front bounded empty configured)
  obtain ⟨result, mapped⟩ := resolves.nexthop
  refine ⟨result, mapped, fun v network seen first => ?_⟩
  have hv : v ∈ order := by
    rw [front.visited v, decide_eq_true_eq] at seen
    exact seen
  have start : a.outhop st v = 0 := if_neg fun h => first h.2.2
  have fewSlots : ∀ x ∈ order, predecessorCount st x ≤ 4 := by
    intro x hx
    apply few x
    rw [front.visited x, decide_eq_true hx]
  have listed : v ∈ (List.finRange a.db.length).filter fun lsa =>
      a.type lsa = 2 ∧ (st.h lsa).visited = true ∧ a.outhop st lsa = 0 :=
    List.mem_filter.mpr ⟨List.mem_finRange v, decide_eq_true ⟨network, seen, start⟩⟩
  ext g
  constructor
  · rintro ⟨calls, hcalls, call, hcall, rfl⟩
    obtain ⟨x, _, heq⟩ := (mem_mapM mapped).mp hcalls
    obtain ⟨found, ended, hpair⟩ := Option.map_eq_some_iff.mp heq
    cases hpair
    obtain ⟨router, net, leads, hroute⟩ := (mem_getNexthopId front bounded hv ended).mp hcall
    have interface := (updateRoute_iff v (single router net (leads.types front bounded).2
      (leads.types front bounded).1)).mp ⟨call, hroute, rfl⟩
    exact followsLast_of_leads front bounded empty configured leads hv start interface
  · intro follows
    obtain ⟨router, net, leads, interface⟩ :=
      leads_of_followsLast front bounded empty configured positive fewSlots follows
    obtain ⟨call, hroute, hgw⟩ := (updateRoute_iff v (single router net
      (leads.types front bounded).2 (leads.types front bounded).1)).mpr interface
    obtain ⟨calls, ended⟩ := resolves.search v v
    have hpair : (v, calls) ∈ result :=
      (mem_mapM mapped).mpr ⟨v, listed, by rw [ended]; rfl⟩
    exact ⟨calls, hpair, call,
      (mem_getNexthopId front bounded hv ended).mpr ⟨router, net, leads, hroute⟩, hgw⟩

/-- A router behind a connected network, on a walk that costs what was computed, is
expected among the gateways. -/
theorem gateways_ne_of_walk {a : OwnArea} (bounded : Bounded a.db a.mylsa)
    {st : SpfState a.db} (run : spf (some a.mylsa) a.db.length = some st)
    {v router network : Fin a.db.length} {c w : Nat} {left : List (Fin a.db.length)}
    (walk : Walk (edge a.db) a.mylsa v c left) (least : (st.h v).cost = c)
    (direct : edge a.db a.mylsa network w) (near : (st.h network).cost = w)
    (before after : List (Fin a.db.length))
    (split : v :: left = before ++ router :: network :: after) {g : BitVec 32}
    (interface : Interface a router network g)
    {result : List (Fin a.db.length × List RouteArgs)}
    (absent : ∀ p ∈ result, ∀ call ∈ p.2, call.gw ≠ g) :
    gateways result v ≠ {g | FollowsConnected a v g} := by
  obtain ⟨st', order, run', front, empty⟩ := spf_ends bounded (Nat.le_refl _)
  rw [run] at run'
  cases run'
  have dist := front.least bounded empty
  have connected : Connected a network :=
    ⟨w, direct, near ▸ dist network ⟨_, _, Walk.nil.snoc direct⟩⟩
  have follows : FollowsConnected a v g :=
    ⟨c, left, walk, least ▸ dist v ⟨c, left, walk⟩, before, router, network, after, split,
      connected, interface⟩
  intro same
  obtain ⟨calls, hcalls, call, hcall, hgw⟩ : g ∈ gateways result v := by
    rw [same]
    exact follows
  exact absent _ hcalls call hcall hgw

/-- The advertisements that are shortest-path predecessors of `v`, each counted once. -/
def predecessorLsas {db : List OspfLsa} (st : SpfState db) (v : Fin db.length) :
    List (Fin db.length) :=
  (List.finRange db.length).filter fun u =>
    ∃ c ∈ ncost db u, lsadbFind2 db c.type c.id = some v ∧
      (st.h u).cost + c.cost.toNat = (st.h v).cost

/-- The conditions on an area, with the predecessors counted as advertisements. -/
structure Premise (a : OwnArea) (st : SpfState a.db) : Prop where
  bounded : Bounded a.db a.mylsa
  positive : ∀ u, a.type u = 1 → ∀ c ∈ ncost a.db u, 0 < c.cost.toNat
  configured : Configured a
  single : ∀ router network, a.type router = 1 → a.type network = 2 →
    ((a.links router).filter (a.onPrefix network)).length ≤ 1
  run : spf (some a.mylsa) a.db.length = some st
  few : ∀ v, (predecessorLsas st v).length ≤ 4

theorem exists_run_of_any {a : OwnArea}
    {p : SpfState a.db → List (Fin a.db.length × List RouteArgs) → Bool}
    (computed : (spf (some a.mylsa) a.db.length).any (fun st =>
      (a.nexthop st a.db.length).any (p st)) = true) :
    ∃ st result, spf (some a.mylsa) a.db.length = some st ∧
      a.nexthop st a.db.length = some result ∧ p st result = true := by
  obtain ⟨st, run, found⟩ := (Option.any_eq_true _ _).mp computed
  obtain ⟨result, mapped, holds⟩ := (Option.any_eq_true _ _).mp found
  exact ⟨st, result, run, mapped, holds⟩

/-- The router 1.1.1.1 on 10.0.0.0/24 and 10.0.1.0/24, the router 2.2.2.2 on both, and
10.0.2.0/24 behind the router 3.3.3.3 on the second. -/
def twoUplinks : OwnArea where
  areaId := 0
  area :=
    { stub := false
      list :=
        [routerLsa 0x01010101 0x37d3
            [(0x0a000002, 0x0a000001, 2, 1), (0x0a000103, 0x0a000101, 2, 2)],
          networkLsa 0x0a000002 0xffffff00 0x02020202 0x53e8 [0x01010101, 0x02020202],
          networkLsa 0x0a000103 0xffffff00 0x03030303 0xee37 [0x01010101, 0x02020202, 0x03030303],
          routerLsa 0x02020202 0xf40d
            [(0x0a000002, 0x0a000002, 2, 1), (0x0a000103, 0x0a000102, 2, 1)],
          routerLsa 0x03030303 0x1fd3
            [(0x0a000103, 0x0a000103, 2, 1), (0x0a000203, 0x0a000203, 2, 1)],
          networkLsa 0x0a000203 0xffffff00 0x03030303 0xbd67 [0x03030303, 0x04040404]]
      network := [uplink, { uplink with ip := 0x0a000101 }] }
  mylsa := ⟨0, by decide⟩
  isRouter := by decide

/-- The routers 1.1.1.1 and 2.2.2.2 on four networks, one of which lists the second
router twice, and 10.0.4.0/24 behind it. -/
def fourUplinks : OwnArea where
  areaId := 0
  area :=
    { stub := false
      list :=
        [routerLsa 0x01010101 0x13a1
            [(0x0a000002, 0x0a000001, 2, 1), (0x0a000102, 0x0a000101, 2, 1),
              (0x0a000202, 0x0a000201, 2, 1), (0x0a000302, 0x0a000301, 2, 1)],
          networkLsa 0x0a000002 0xffffff00 0x02020202 0x53e8 [0x01010101, 0x02020202],
          networkLsa 0x0a000102 0xffffff00 0x02020202 0x48f2 [0x01010101, 0x02020202],
          networkLsa 0x0a000202 0xffffff00 0x02020202 0x3dfc [0x01010101, 0x02020202],
          networkLsa 0x0a000302 0xffffff00 0x02020202 0xbe6e [0x01010101, 0x02020202, 0x02020202],
          routerLsa 0x02020202 0x690f
            [(0x0a000002, 0x0a000002, 2, 1), (0x0a000102, 0x0a000102, 2, 1),
              (0x0a000202, 0x0a000202, 2, 1), (0x0a000302, 0x0a000302, 2, 1),
              (0x0a000402, 0x0a000402, 2, 1)],
          networkLsa 0x0a000402 0xffffff00 0x02020202 0x7bb4 [0x02020202, 0x03030303]]
      network := [uplink, { uplink with ip := 0x0a000101 }, { uplink with ip := 0x0a000201 },
        { uplink with ip := 0x0a000301 }] }
  mylsa := ⟨0, by decide⟩
  isRouter := by decide

theorem nexthop_gateways_twoUplinks :
    ∃ st result, spf (some twoUplinks.mylsa) twoUplinks.db.length = some st ∧
      twoUplinks.nexthop st twoUplinks.db.length = some result ∧
      gateways result ⟨5, by decide⟩ =
        {g | FollowsLastConnected twoUplinks ⟨5, by decide⟩ g} := by
  obtain ⟨st, _, run, _, computed⟩ := exists_run_of_any (a := twoUplinks)
    (p := fun st _ => decide ((∀ v, predecessorCount st v ≤ 4) ∧
      (st.h ⟨5, by decide⟩).visited = true ∧
      from0 st ⟨5, by decide⟩ ≠ some twoUplinks.mylsa)) (by decide +kernel)
  obtain ⟨few, seen, first⟩ := of_decide_eq_true computed
  obtain ⟨result, mapped, exact⟩ := nexthop_gateways twoUplinks
    (bounded_of_length_le (by decide +kernel) (by decide)) (by decide +kernel)
    (configured_of_links (by decide +kernel)) (by decide +kernel) run fun v _ => few v
  exact ⟨st, result, run, mapped, exact _ (by decide) seen first⟩

theorem edge_of_any {db : List OspfLsa} (u v : Fin db.length) (w : Nat)
    (listed : (ncost db u).any (fun c => lsadbFind2 db c.type c.id = some v ∧
      c.cost.toNat = w) = true) : edge db u v w := by
  simpa only [edge, List.any_eq_true, decide_eq_true_eq] using listed

theorem interface_of_any {a : OwnArea} {router network : Fin a.db.length} {g : BitVec 32}
    (listed : (a.links router).any (fun lnk => a.onPrefix network lnk = true ∧
      lnk.linkData = g) = true) : Interface a router network g := by
  simpa only [Interface, List.any_eq_true, decide_eq_true_eq] using listed

theorem twoUplinks_walk :
    Walk (edge twoUplinks.db) twoUplinks.mylsa ⟨5, by decide⟩ 3
      [⟨4, by decide⟩, ⟨2, by decide⟩, ⟨3, by decide⟩, ⟨1, by decide⟩, ⟨0, by decide⟩] := by
  have first := Walk.nil.snoc
    (edge_of_any twoUplinks.mylsa ⟨1, by decide⟩ 1 (by decide +kernel))
  have second := first.snoc (edge_of_any _ ⟨3, by decide⟩ 0 (by decide +kernel))
  have third := second.snoc (edge_of_any _ ⟨2, by decide⟩ 1 (by decide +kernel))
  have fourth := third.snoc (edge_of_any _ ⟨4, by decide⟩ 0 (by decide +kernel))
  exact fourth.snoc (edge_of_any _ ⟨5, by decide⟩ 1 (by decide +kernel))

theorem fourUplinks_walk :
    Walk (edge fourUplinks.db) fourUplinks.mylsa ⟨6, by decide⟩ 2
      [⟨5, by decide⟩, ⟨1, by decide⟩, ⟨0, by decide⟩] := by
  have first := Walk.nil.snoc
    (edge_of_any fourUplinks.mylsa ⟨1, by decide⟩ 1 (by decide +kernel))
  have second := first.snoc (edge_of_any _ ⟨5, by decide⟩ 0 (by decide +kernel))
  exact second.snoc (edge_of_any _ ⟨6, by decide⟩ 1 (by decide +kernel))

/-- A gateway on a shortest path is not passed: the first area has a connected network
further along the path, the second a network that lists a router twice. -/
theorem gateway_missed :
    (∃ st result, Premise twoUplinks st ∧
      twoUplinks.nexthop st twoUplinks.db.length = some result ∧
      twoUplinks.type ⟨5, by decide⟩ = 2 ∧ (st.h ⟨5, by decide⟩).visited = true ∧
      from0 st ⟨5, by decide⟩ ≠ some twoUplinks.mylsa ∧
      gateways result ⟨5, by decide⟩ ≠ {g | FollowsConnected twoUplinks ⟨5, by decide⟩ g}) ∧
    ∃ st result, Premise fourUplinks st ∧
      fourUplinks.nexthop st fourUplinks.db.length = some result ∧
      fourUplinks.type ⟨6, by decide⟩ = 2 ∧ (st.h ⟨6, by decide⟩).visited = true ∧
      from0 st ⟨6, by decide⟩ ≠ some fourUplinks.mylsa ∧
      gateways result ⟨6, by decide⟩ ≠ {g | FollowsConnected fourUplinks ⟨6, by decide⟩ g} := by
  constructor
  · obtain ⟨st, result, run, mapped, computed⟩ := exists_run_of_any (a := twoUplinks)
      (p := fun st result => decide ((∀ v, (predecessorLsas st v).length ≤ 4) ∧
        (st.h ⟨5, by decide⟩).visited = true ∧
        from0 st ⟨5, by decide⟩ ≠ some twoUplinks.mylsa ∧
        (st.h ⟨5, by decide⟩).cost = 3 ∧ (st.h ⟨1, by decide⟩).cost = 1 ∧
        ∀ p ∈ result, ∀ call ∈ p.2, call.gw ≠ 0x0a000002)) (by decide +kernel)
    obtain ⟨few, seen, first, least, near, absent⟩ := of_decide_eq_true computed
    have bounded : Bounded twoUplinks.db twoUplinks.mylsa :=
      bounded_of_length_le (by decide +kernel) (by decide)
    refine ⟨st, result, ⟨bounded, by decide +kernel, configured_of_links (by decide +kernel),
      by decide +kernel, run, few⟩, mapped, by decide, seen, first, ?_⟩
    exact gateways_ne_of_walk bounded run twoUplinks_walk least
      (edge_of_any _ _ 1 (by decide +kernel)) near
      [⟨5, by decide⟩, ⟨4, by decide⟩, ⟨2, by decide⟩] _ rfl
      (interface_of_any (by decide +kernel)) absent
  · obtain ⟨st, result, run, mapped, computed⟩ := exists_run_of_any (a := fourUplinks)
      (p := fun st result => decide ((∀ v, (predecessorLsas st v).length ≤ 4) ∧
        (st.h ⟨6, by decide⟩).visited = true ∧
        from0 st ⟨6, by decide⟩ ≠ some fourUplinks.mylsa ∧
        (st.h ⟨6, by decide⟩).cost = 2 ∧ (st.h ⟨1, by decide⟩).cost = 1 ∧
        ∀ p ∈ result, ∀ call ∈ p.2, call.gw ≠ 0x0a000002)) (by decide +kernel)
    obtain ⟨few, seen, first, least, near, absent⟩ := of_decide_eq_true computed
    have bounded : Bounded fourUplinks.db fourUplinks.mylsa :=
      bounded_of_length_le (by decide +kernel) (by decide)
    refine ⟨st, result, ⟨bounded, by decide +kernel, configured_of_links (by decide +kernel),
      by decide +kernel, run, few⟩, mapped, by decide, seen, first, ?_⟩
    exact gateways_ne_of_walk bounded run fourUplinks_walk least
      (edge_of_any _ _ 1 (by decide +kernel)) near [⟨6, by decide⟩] _ rfl
      (interface_of_any (by decide +kernel)) absent

end FirstHops
