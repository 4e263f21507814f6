import Rcp100.LsUpdate
import Rcp100.Predecessors
import Rcp100.RouteEntry

/-!
# Next hops

`nexthop` marks the connected networks with the address of their interface and goes back
from every other network to the connected ones, along all predecessors. `spf_stubs` goes
back from every router with stub links, along the first predecessors.
-/

namespace NextHop

open LsaFormat LsUpdate WeightedPaths Spf Predecessors RouteEntry

/-- An area with the router's own advertisement. -/
structure OwnArea where
  areaId : BitVec 32
  area : Area
  mylsa : Fin area.list.length
  isRouter : (area.list.get mylsa).header.type = 1

namespace OwnArea

abbrev db (a : OwnArea) : List OspfLsa := a.area.list

variable (a : OwnArea)

def type (v : Fin a.db.length) : BitVec 8 := (a.db.get v).header.type

def linkStateId (v : Fin a.db.length) : BitVec 32 := (a.db.get v).header.linkStateId

/-- The links of a router LSA. -/
def links (v : Fin a.db.length) : List RtrLsaLink := (rtrLinks (a.db.get v).bytes).getD []

/-- The mask of a network LSA. -/
def mask (v : Fin a.db.length) : BitVec 32 := (netMask (a.db.get v).bytes).getD 0

/-- The interface of the link has an address of the network. -/
def onPrefix (network : Fin a.db.length) (lnk : RtrLsaLink) : Bool :=
  (a.linkStateId network &&& a.mask network) = (lnk.linkData &&& a.mask network)

/-- `outhop` after the first loop of `nexthop`, which looks at every network LSA by
itself. -/
def outhop (st : SpfState a.db) (v : Fin a.db.length) : BitVec 32 :=
  if a.type v = 2 ∧ (st.h v).visited = true ∧ from0 st v = some a.mylsa then
    match networkFindIp a.area (a.linkStateId v) with
    | none => 0
    | some net => net.ip
  else 0

/-- The call of `route_add` by `update_route` for the network LSA `current`. -/
def updateRoute (st : SpfState a.db) (current router network : Fin a.db.length) :
    Option RouteArgs :=
  ((a.links router).find? (a.onPrefix network)).map fun lnk =>
    { ip := a.linkStateId current &&& a.mask current
      mask := a.mask current
      len := 0
      gw := lnk.linkData
      cost := BitVec.ofNat 32 (st.h current).cost
      type := .ospf
      areaId := a.areaId
      ifip := a.outhop st current }

/-- The calls of `route_add` that the recursion makes, as long as the fuel lasts. -/
def getNexthopId (st : SpfState a.db) (current : Fin a.db.length) :
    Nat → Fin a.db.length → Option (List RouteArgs)
  | 0, _ => none
  | fuel + 1, lsa =>
    if (st.h lsa).visited = false then some []
    else if from0 st lsa = none then some []
    else
      ((parents st lsa).mapM fun f =>
        if a.outhop st f ≠ 0 then some (a.updateRoute st current lsa f).toList
        else getNexthopId st current fuel f).map List.flatten

/-- The second loop of `nexthop`: the network LSAs with a search, and its calls. -/
def nexthop (st : SpfState a.db) (fuel : Nat) :
    Option (List (Fin a.db.length × List RouteArgs)) :=
  ((List.finRange a.db.length).filter fun lsa =>
    a.type lsa = 2 ∧ (st.h lsa).visited = true ∧ a.outhop st lsa = 0).mapM fun lsa =>
      (a.getNexthopId st lsa fuel lsa).map (lsa, ·)

inductive Fault where
  | nullRead
  | endless
  deriving DecidableEq, Repr

/-- The walk of `spf_stubs`: it reads `outhop` through `from[0]` without a test for
NULL. -/
def nhWalk (st : SpfState a.db) :
    Nat → Fin a.db.length → Except Fault (Fin a.db.length × Fin a.db.length)
  | 0, _ => .error .endless
  | fuel + 1, nh =>
    match from0 st nh with
    | none => .error .nullRead
    | some f => if a.outhop st f ≠ 0 then .ok (nh, f) else nhWalk st fuel f

/-- `update_stub_route`. -/
def updateStubRoute (router network : Fin a.db.length) (ip mask cost : BitVec 32) :
    Option RouteArgs :=
  ((a.links router).find? (a.onPrefix network)).map fun lnk =>
    { ip := ip &&& mask
      mask := mask
      len := 0
      gw := lnk.linkData
      cost := cost
      type := .ospf
      areaId := a.areaId
      ifip := 0 }

/-- One stub link of a router. -/
def stubLink (st : SpfState a.db) (fuel : Nat) (lsa : Fin a.db.length) (lnk : RtrLsaLink) :
    Except Fault (Option RouteArgs) := do
  let r ← a.nhWalk st fuel lsa
  return a.updateStubRoute r.1 r.2 (lnk.linkId &&& lnk.linkData) lnk.linkData
    (BitVec.ofNat 32 (st.h lsa).cost + lnk.metric.setWidth 32)

def spfStubs (st : SpfState a.db) (fuel : Nat) : Except Fault (List (List (Option RouteArgs))) :=
  ((List.finRange a.db.length).filter fun lsa => a.type lsa = 1 ∧ lsa ≠ a.mylsa).mapM fun lsa =>
    ((a.links lsa).filter fun lnk => (st.h lsa).cost < maxCost ∧ lnk.type = 3).mapM
      (a.stubLink st fuel lsa)

end OwnArea

section Edges

variable {a : OwnArea}

theorem type_of_found {db : List OspfLsa} {type : BitVec 8} {id : BitVec 32} {v : Fin db.length}
    (found : lsadbFind2 db type id = some v) : (db.get v).header.type = type := by
  have here := (List.findFinIdx?_eq_some_iff.mp found).1
  simp only [Bool.and_eq_true, decide_eq_true_eq] at here
  exact here.1

variable {lsa : OspfLsa} {v : Fin a.db.length}

theorem lsaAddCost_type {costs : List LsaCost}
    (parsed : lsaAddCost lsa.bytes = some costs) : read8 lsa.bytes 3 = some lsa.header.type := by
  simp only [lsaAddCost, Option.bind_eq_bind, Option.bind_eq_some_iff] at parsed
  obtain ⟨type, htype, _⟩ := parsed
  have here : lsa.header.type = lsa.bytes.getD 3 0 := rfl
  rw [read8] at htype ⊢
  rw [htype, here, List.getD_eq_getElem?_getD, htype]
  rfl

theorem ncost_router (router : lsa.header.type = 1) {c : LsaCost}
    (hc : c ∈ (lsaAddCost lsa.bytes).getD []) : c.type = 2 := by
  cases parsed : lsaAddCost lsa.bytes with
  | none =>
    rw [parsed] at hc
    cases hc
  | some costs =>
    have htype := lsaAddCost_type parsed
    rw [router] at htype
    rw [parsed, Option.getD_some] at hc
    simp only [lsaAddCost, htype, Option.bind_eq_bind, Option.bind_some] at parsed
    rw [if_neg (by decide), if_pos trivial] at parsed
    simp only [Option.bind_eq_some_iff, Option.pure_def, Option.some.injEq] at parsed
    obtain ⟨links, _, rfl⟩ := parsed
    obtain ⟨lnk, _, rfl⟩ := List.mem_map.mp hc
    rfl

theorem ncost_network (network : lsa.header.type = 2) {c : LsaCost}
    (hc : c ∈ (lsaAddCost lsa.bytes).getD []) : c.type = 1 := by
  cases parsed : lsaAddCost lsa.bytes with
  | none =>
    rw [parsed] at hc
    cases hc
  | some costs =>
    have htype := lsaAddCost_type parsed
    rw [network] at htype
    rw [parsed, Option.getD_some] at hc
    simp only [lsaAddCost, htype, Option.bind_eq_bind, Option.bind_some, if_true,
      Option.bind_eq_some_iff] at parsed
    obtain ⟨length, _, mapped⟩ := parsed
    obtain ⟨i, _, heq⟩ := (mem_mapM mapped).mp hc
    simp only [Option.bind_eq_some_iff, Option.pure_def, Option.some.injEq] at heq
    obtain ⟨id, _, rfl⟩ := heq
    rfl

theorem edge_router {u : Fin a.db.length} {w : Nat} (router : a.type u = 1)
    (hedge : edge a.db u v w) : a.type v = 2 := by
  obtain ⟨c, hc, found, _⟩ := hedge
  rw [← ncost_router router hc]
  exact type_of_found found

theorem edge_network {u : Fin a.db.length} {w : Nat} (network : a.type u = 2)
    (hedge : edge a.db u v w) : a.type v = 1 := by
  obtain ⟨c, hc, found, _⟩ := hedge
  rw [← ncost_network network hc]
  exact type_of_found found

theorem reachable_type (reachable : Reachable (edge a.db) a.mylsa v) :
    a.type v = 1 ∨ a.type v = 2 := by
  obtain ⟨c, left, walk⟩ := reachable
  induction walk with
  | nil => exact .inl a.isRouter
  | snoc _ last ih =>
    rcases ih with router | network
    · exact .inr (edge_router router last)
    · exact .inl (edge_network network last)

end Edges

/-- The network LSA has a configured network with an address. -/
def Addressed (a : OwnArea) (v : Fin a.db.length) : Prop :=
  ∃ net, networkFindIp a.area (a.linkStateId v) = some net ∧ net.ip ≠ 0

/-- Every network LSA that a link of the router's own LSA reaches at the least cost has a
configured network with an address. -/
def Configured (a : OwnArea) : Prop :=
  ∀ v w, edge a.db a.mylsa v w → IsDist (edge a.db) a.mylsa v w → Addressed a v

/-- Those with which a shortest path to another router begins have one. -/
def OnwardConfigured (a : OwnArea) : Prop :=
  ∀ v w r d left, edge a.db a.mylsa v w → Walk (edge a.db) v r d left →
    a.type r = 1 → r ≠ a.mylsa → IsDist (edge a.db) a.mylsa r (w + d) → Addressed a v

/-- Those have one that are passed on the way back from another router, over the first of equal
predecessors. -/
def PassedConfigured (a : OwnArea) (st : SpfState a.db) : Prop :=
  ∀ r, a.type r = 1 → r ≠ a.mylsa → (st.h r).cost < maxCost →
    ∀ v, Relation.ReflTransGen (fun x y => from0 st x = some y) r v →
      from0 st v = some a.mylsa → Addressed a v

/-- No reachable LSA lies on a cycle of links without cost. -/
def NoFreeCycle (a : OwnArea) : Prop :=
  ∀ v, Reachable (edge a.db) a.mylsa v →
    ¬ Relation.TransGen (fun x y => edge a.db x y 0) v v

/-- What next hop resolution needs: the slots form no cycle, every search ends, the walk
from every reached router ends at a connected network, and so the calculation ends. -/
structure Resolves (a : OwnArea) (st : SpfState a.db) : Prop where
  acyclic : ∀ v, ¬ Relation.TransGen (Pred st) v v
  search : ∀ current v, ∃ calls, a.getNexthopId st current a.db.length v = some calls
  walk : ∀ v, a.type v = 1 → v ≠ a.mylsa → (st.h v).cost < maxCost →
    ∃ r, a.nhWalk st a.db.length v = .ok r
  nexthop : ∃ calls, a.nexthop st a.db.length = some calls
  stubs : ∃ routes, a.spfStubs st a.db.length = .ok routes

section Resolution

variable {a : OwnArea} {st : SpfState a.db} {order : List (Fin a.db.length)}

variable {v : Fin a.db.length}

section

variable (front : Frontier a.mylsa st order)

include front

section

variable (bounded : Bounded a.db a.mylsa)

include bounded

theorem edge_of_from0 (first : from0 st v = some a.mylsa) : edge a.db a.mylsa v (st.h v).cost := by
  obtain ⟨_, w, hedge, sum⟩ := front.pred bounded (from0_mem first)
  dsimp only at sum
  rw [front.cost_root, Nat.zero_add] at sum
  exact sum ▸ hedge

theorem isDist_of_from0 (empty : st.queue = []) (first : from0 st v = some a.mylsa) :
    ∃ w, edge a.db a.mylsa v w ∧ IsDist (edge a.db) a.mylsa v w := by
  have hedge := edge_of_from0 front bounded first
  exact ⟨_, hedge, front.least bounded empty v ⟨_, _, Walk.nil.snoc hedge⟩⟩

theorem outhop_ne_zero_iff (empty : st.queue = []) (first : from0 st v = some a.mylsa) :
    a.outhop st v ≠ 0 ↔ Addressed a v := by
  have hedge := edge_of_from0 front bounded first
  have hv : v ∈ order :=
    (front.isDist bounded empty v).1.mpr ⟨_, _, Walk.nil.snoc hedge⟩
  have seen : (st.h v).visited = true := by rw [front.visited v, decide_eq_true hv]
  rw [OwnArea.outhop, if_pos ⟨edge_router a.isRouter hedge, seen, first⟩, Addressed]
  cases networkFindIp a.area (a.linkStateId v) with
  | none => simp
  | some net => simp

theorem outhop_ne_zero (empty : st.queue = []) (configured : Configured a)
    (first : from0 st v = some a.mylsa) : a.outhop st v ≠ 0 := by
  obtain ⟨w, hedge, dist⟩ := isDist_of_from0 front bounded empty first
  exact (outhop_ne_zero_iff front bounded empty first).mpr (configured v w hedge dist)

theorem passed_of_configured
    (empty : st.queue = []) (configured : Configured a) : PassedConfigured a st := by
  intro r _ _ _ v _ first
  obtain ⟨w, hedge, dist⟩ := isDist_of_from0 front bounded empty first
  exact configured v w hedge dist

theorem walk_of_passed
    {r : Fin a.db.length} (passed : Relation.ReflTransGen (fun x y => from0 st x = some y) r v) :
    ∃ d left, Walk (edge a.db) v r d left ∧ (st.h v).cost + d = (st.h r).cost := by
  induction passed using Relation.ReflTransGen.head_induction_on with
  | refl => exact ⟨0, [], .nil, rfl⟩
  | head first _ ih =>
    obtain ⟨d, left, walk, sum⟩ := ih
    obtain ⟨_, w, hedge, total⟩ := front.pred bounded (from0_mem first)
    dsimp only at total
    exact ⟨_, _, walk.snoc hedge, by omega⟩

theorem passed_of_onward
    (empty : st.queue = []) (onward : OnwardConfigured a) : PassedConfigured a st := by
  intro r router other less v passed first
  obtain ⟨d, left, walk, sum⟩ := walk_of_passed front bounded passed
  have dist := (front.isDist bounded empty r).2 ((front.visited_iff empty r).mpr less)
  rw [← sum] at dist
  exact onward v _ r d left (edge_of_from0 front bounded first) walk router other dist

end

end

/-- Every call goes to a predecessor, so the recursion ends with the ranks. -/
theorem getNexthopId_ends {rank : Fin a.db.length → Nat}
    (lower : ∀ u v, Pred st u v → rank u < rank v) (current : Fin a.db.length) {fuel : Nat}
    (enough : rank v < fuel) :
    ∃ calls, a.getNexthopId st current fuel v = some calls := by
  induction fuel generalizing v with
  | zero => exact absurd enough (Nat.not_lt_zero _)
  | succ fuel ih =>
    rw [OwnArea.getNexthopId]
    split
    · exact ⟨[], rfl⟩
    · split
      · exact ⟨[], rfl⟩
      · have each : ∀ f ∈ parents st v, ∃ calls,
            (if a.outhop st f ≠ 0 then some (a.updateRoute st current v f).toList
              else a.getNexthopId st current fuel f) = some calls := by
          intro f hf
          split
          · exact ⟨_, rfl⟩
          · have := lower f v (mem_of_mem_parents hf)
            exact ih (by omega)
        obtain ⟨calls, mapped, _⟩ := exists_mapM each
        exact ⟨calls.flatten, by rw [mapped]; rfl⟩

theorem from0_root (front : Frontier a.mylsa st order) : from0 st a.mylsa = none := by
  rw [from0, fromLsa_root front]
  rfl

theorem nhWalk_connected (front : Frontier a.mylsa st order)
    (first : from0 st v = some a.mylsa) (fuel : Nat) : ¬ ∃ r, a.nhWalk st fuel v = .ok r := by
  have own : a.outhop st a.mylsa = 0 := by
    refine if_neg fun network => ?_
    have router : a.type a.mylsa = 1 := a.isRouter
    rw [network.1] at router
    cases router
  rintro ⟨r, walked⟩
  cases fuel with
  | zero => cases walked
  | succ fuel =>
    simp only [OwnArea.nhWalk, first, own, ne_eq, not_true_eq_false, if_false] at walked
    cases fuel with
    | zero => cases walked
    | succ fuel =>
      simp only [OwnArea.nhWalk, from0_root front] at walked
      cases walked

/-- The walk never stands at the root or right behind it, so it finds a predecessor until it
comes to a connected network; there it ends with the address. -/
theorem nhWalk_ends_iff (front : Frontier a.mylsa st order) (bounded : Bounded a.db a.mylsa)
    (empty : st.queue = []) {rank : Fin a.db.length → Nat}
    (lower : ∀ u v, Pred st u v → rank u < rank v) {fuel : Nat}
    (enough : rank v < fuel) (hv : v ∈ order) (other : v ≠ a.mylsa)
    (behind : from0 st v ≠ some a.mylsa) :
    (∃ r, a.nhWalk st fuel v = .ok r) ↔
      ∀ u, Relation.ReflTransGen (fun x y => from0 st x = some y) v u →
        from0 st u = some a.mylsa → Addressed a u := by
  induction fuel generalizing v with
  | zero => exact absurd enough (Nat.not_lt_zero _)
  | succ fuel ih =>
    obtain ⟨f, hf⟩ := exists_from0 front bounded hv other
    have pred := from0_mem hf
    have less := lower f v pred
    have onward : (∀ u, Relation.ReflTransGen (fun x y => from0 st x = some y) v u →
        from0 st u = some a.mylsa → Addressed a u) ↔
        ∀ u, Relation.ReflTransGen (fun x y => from0 st x = some y) f u →
          from0 st u = some a.mylsa → Addressed a u := by
      refine ⟨fun all u later => all u (.head hf later), fun all u passed first => ?_⟩
      rcases Relation.ReflTransGen.cases_head passed with rfl | ⟨x, step, later⟩
      · exact absurd first behind
      · cases hf.symm.trans step
        exact all u later first
    rw [onward, OwnArea.nhWalk, hf]
    dsimp only
    by_cases first : from0 st f = some a.mylsa
    · have resolved := outhop_ne_zero_iff front bounded empty first
      have only : (∀ u, Relation.ReflTransGen (fun x y => from0 st x = some y) f u →
          from0 st u = some a.mylsa → Addressed a u) ↔ Addressed a f := by
        refine ⟨fun all => all f .refl first, fun here u passed last => ?_⟩
        rcases Relation.ReflTransGen.cases_head passed with rfl | ⟨x, step, later⟩
        · exact here
        · cases first.symm.trans step
          rcases Relation.ReflTransGen.cases_head later with rfl | ⟨y, beyond, _⟩
          · rw [from0_root front] at last
            cases last
          · rw [from0_root front] at beyond
            cases beyond
      rw [only, ← resolved]
      split
      · rename_i address
        exact iff_of_true ⟨(v, f), rfl⟩ address
      · rename_i address
        exact iff_of_false (nhWalk_connected front first fuel) address
    · have unresolved : a.outhop st f = 0 := if_neg fun connected => first connected.2.2
      rw [if_neg (not_not.mpr unresolved)]
      refine ih (by omega) (front.pred bounded pred).1 ?_ first
      rintro rfl
      exact behind hf

theorem exists_mapM_ok {α β ε : Type} {f : α → Except ε β} {l : List α}
    (all : ∀ x ∈ l, ∃ y, f x = .ok y) : ∃ ys, l.mapM f = .ok ys := by
  induction l with
  | nil => exact ⟨[], rfl⟩
  | cons x l ih =>
    obtain ⟨y, hy⟩ := all x List.mem_cons_self
    obtain ⟨ys, hys⟩ := ih (fun z hz => all z (List.mem_cons_of_mem _ hz))
    exact ⟨y :: ys, by rw [List.mapM_cons, hy, hys]; rfl⟩

theorem resolves_of_ends (acyclic : ∀ v, ¬ Relation.TransGen (Pred st) v v)
    (search : ∀ current v, ∃ calls, a.getNexthopId st current a.db.length v = some calls)
    (walk : ∀ v, a.type v = 1 → v ≠ a.mylsa → (st.h v).cost < maxCost →
      ∃ r, a.nhWalk st a.db.length v = .ok r) : Resolves a st := by
  refine ⟨acyclic, search, walk, ?_, ?_⟩
  · have each : ∀ lsa ∈ (List.finRange a.db.length).filter fun lsa =>
        a.type lsa = 2 ∧ (st.h lsa).visited = true ∧ a.outhop st lsa = 0,
        ∃ found, (a.getNexthopId st lsa a.db.length lsa).map (lsa, ·) = some found := by
      intro lsa _
      obtain ⟨calls, hcalls⟩ := search lsa lsa
      exact ⟨(lsa, calls), by rw [hcalls]; rfl⟩
    obtain ⟨calls, mapped, _⟩ := exists_mapM each
    exact ⟨calls, mapped⟩
  · refine exists_mapM_ok fun lsa hlsa => exists_mapM_ok fun lnk hlnk => ?_
    simp only [List.mem_filter, decide_eq_true_eq] at hlsa hlnk
    obtain ⟨r, hr⟩ := walk lsa hlsa.2.1 hlsa.2.2 hlnk.2.1
    exact ⟨_, by rw [OwnArea.stubLink, hr]; rfl⟩

theorem resolves_iff (front : Frontier a.mylsa st order)
    (bounded : Bounded a.db a.mylsa) (empty : st.queue = []) (noFreeCycle : NoFreeCycle a) :
    Resolves a st ↔ PassedConfigured a st := by
  have acyclic := pred_acyclic front bounded empty noFreeCycle
  obtain ⟨rank, lower, below⟩ := exists_rank acyclic
  rw [Fintype.card_fin] at below
  have walks : ∀ r, a.type r = 1 → r ≠ a.mylsa → (st.h r).cost < maxCost →
      ((∃ end', a.nhWalk st a.db.length r = .ok end') ↔
        ∀ v, Relation.ReflTransGen (fun x y => from0 st x = some y) r v →
          from0 st v = some a.mylsa → Addressed a v) := by
    intro r router other less
    have hr := (front.visited_iff empty r).mpr less
    refine nhWalk_ends_iff front bounded empty lower (below r) hr other fun first => ?_
    have network := edge_router a.isRouter (edge_of_from0 front bounded first)
    rw [router] at network
    cases network
  constructor
  · exact fun resolves r router other less =>
      (walks r router other less).mp (resolves.walk r router other less)
  · intro passed
    refine resolves_of_ends acyclic (fun current v => getNexthopId_ends lower current (below v)) ?_
    exact fun r router other less => (walks r router other less).mpr (passed r router other less)

/-- Without free cycles everything resolves where the networks passed from other routers are
configured, and only there; so it does where those are that begin a shortest path to another
router. Free cycles break it wherever there are no more predecessors than slots. -/
theorem spf_resolves (a : OwnArea) (bounded : Bounded a.db a.mylsa) :
    ∃ st, spf (some a.mylsa) a.db.length = some st ∧
      (NoFreeCycle a → OnwardConfigured a → Resolves a st) ∧
      (NoFreeCycle a → (Resolves a st ↔ PassedConfigured a st)) ∧
      ((∀ v, (st.h v).visited = true → predecessorCount st v ≤ slotCount a.mylsa v) →
        Resolves a st → NoFreeCycle a) := by
  obtain ⟨st, order, run, front, empty⟩ := spf_ends bounded (Nat.le_refl _)
  refine ⟨st, run, ?_, resolves_iff front bounded empty, ?_⟩
  · intro noFreeCycle onward
    exact (resolves_iff front bounded empty noFreeCycle).mpr
      (passed_of_onward front bounded empty onward)
  · intro few resolves v reachable cycle
    have hv := (front.isDist bounded empty v).1.mpr reachable
    have slots : ∀ x ∈ order, predecessorCount st x ≤ slotCount a.mylsa x := by
      intro x hx
      apply few x
      rw [front.visited x, decide_eq_true hx]
    exact resolves.acyclic v (free_cycle_pred front bounded empty slots hv cycle)

theorem noFreeCycle_of_positive
    (positive : ∀ u, a.type u = 1 → ∀ c ∈ ncost a.db u, 0 < c.cost.toNat) : NoFreeCycle a := by
  have blocked : ∀ {x y : Fin a.db.length}, a.type x = 1 → ¬ edge a.db x y 0 := by
    rintro x y router ⟨c, hc, _, zero⟩
    have := positive x router c hc
    omega
  intro v reachable cycle
  obtain ⟨x, first, back⟩ := Relation.TransGen.head'_iff.mp cycle
  rcases reachable_type reachable with router | network
  · exact blocked router first
  · have router := edge_network network first
    rcases Relation.ReflTransGen.cases_head back with rfl | ⟨y, second, _⟩
    · rw [router] at network
      cases network
    · exact blocked router second

end Resolution

/-- The interface 10.0.0.1/24. -/
def uplink : Network where
  ip := 0x0a000001
  mask := 0xffffff00
  state := .drOther
  designatedRouter := 0x0a000002
  neighbor := []

/-- The router 1.1.1.1 and the router 2.2.2.2 on 10.0.0.0/24, and 10.1.0.0/24 behind the
second one, whose link to it has the given metric. -/
def behindRouter (metric checksum : BitVec 16) : List OspfLsa :=
  [routerLsa 0x01010101 0x76bf [(0x0a000002, 0x0a000001, 2, 1)],
    networkLsa 0x0a000002 0xffffff00 0x02020202 0x53e8 [0x01010101, 0x02020202],
    routerLsa 0x02020202 checksum
      [(0x0a000002, 0x0a000002, 2, 1), (0x0a010002, 0x0a010002, 2, metric)],
    networkLsa 0x0a010002 0xffffff00 0x02020202 0x9b97 [0x02020202, 0x03030303],
    routerLsa 0x03030303 0x0e14 [(0x0a010002, 0x0a010003, 2, 1)]]

/-- A link with the metric 5. -/
def paidLink : OwnArea := ⟨0, ⟨false, behindRouter 5 0x55a9, [uplink]⟩, ⟨0, by decide⟩, by decide⟩

/-- A link with the metric 0. -/
def freeLink : OwnArea := ⟨0, ⟨false, behindRouter 0 0xbe45, [uplink]⟩, ⟨0, by decide⟩, by decide⟩

theorem addressed_of_links {a : OwnArea}
    (all : ∀ c ∈ ncost a.db a.mylsa, ∀ v, lsadbFind2 a.db c.type c.id = some v →
      (networkFindIp a.area (a.linkStateId v)).any (fun net => net.ip ≠ 0) = true)
    {v : Fin a.db.length} {w : Nat} (hedge : edge a.db a.mylsa v w) : Addressed a v := by
  obtain ⟨c, hc, found, _⟩ := hedge
  have some := all c hc v found
  cases hnet : networkFindIp a.area (a.linkStateId v) with
  | none =>
    rw [hnet] at some
    cases some
  | some net =>
    rw [hnet] at some
    exact ⟨net, hnet, by simpa using some⟩

theorem configured_of_links {a : OwnArea}
    (all : ∀ c ∈ ncost a.db a.mylsa, ∀ v, lsadbFind2 a.db c.type c.id = some v →
      (networkFindIp a.area (a.linkStateId v)).any (fun net => net.ip ≠ 0) = true) :
    Configured a := fun _ _ hedge _ => addressed_of_links all hedge

theorem spf_resolves_paidLink :
    Bounded paidLink.db paidLink.mylsa ∧
      ∃ st, spf (some paidLink.mylsa) paidLink.db.length = some st ∧ Resolves paidLink st := by
  have bounded : Bounded paidLink.db paidLink.mylsa :=
    bounded_of_length_le (by decide +kernel) (by decide)
  have noFreeCycle : NoFreeCycle paidLink := noFreeCycle_of_positive (by decide +kernel)
  have onward : OnwardConfigured paidLink := fun _ _ _ _ _ hedge _ _ _ _ =>
    addressed_of_links (by decide +kernel) hedge
  obtain ⟨st, run, resolves, _⟩ := spf_resolves paidLink bounded
  exact ⟨bounded, st, run, resolves noFreeCycle onward⟩

/-- The router 2.2.2.2 and the network 10.1.0.0/24 are predecessors of each other. -/
theorem free_link_cycles :
    ∃ st, spf (some freeLink.mylsa) freeLink.db.length = some st ∧
      Pred st ⟨2, by decide⟩ ⟨3, by decide⟩ ∧ Pred st ⟨3, by decide⟩ ⟨2, by decide⟩ ∧
      ¬ Resolves freeLink st := by
  have cycle : (spf (some freeLink.mylsa) freeLink.db.length).any (fun st =>
      some ⟨2, by decide⟩ ∈ (st.h ⟨3, by decide⟩).fromLsa ∧
        some ⟨3, by decide⟩ ∈ (st.h ⟨2, by decide⟩).fromLsa) = true := by decide +kernel
  cases run : spf (some freeLink.mylsa) freeLink.db.length with
  | none =>
    rw [run] at cycle
    cases cycle
  | some st =>
    rw [run] at cycle
    simp only [Option.any_some, decide_eq_true_eq] at cycle
    exact ⟨st, rfl, cycle.1, cycle.2, fun resolves =>
      resolves.acyclic _ (.tail (.single cycle.1) cycle.2)⟩

end NextHop
