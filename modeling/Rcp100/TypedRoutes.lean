import Mathlib.Data.Finset.Erase
import Mathlib.Data.Finset.Filter
import Mathlib.Data.Finset.Lattice.Lemmas
import Rcp100.KernelRoutes

/-!
# Kernel routes with type and metric

The kernel keeps the protocol number and the metric that a route is installed with, and
every type of OSPF route has its own protocol number. `KernelRoutes` looks at the gateways
only; here a route of the kernel is the triple that the installing call names. A removal
of a single route names no protocol and takes every route through its gateway.
-/

namespace TypedRoutes

open IpAddress RouteEntry
open KernelRoutes (Prefix At NodeOffer NodeOp Shows Follows)

structure KernelRoute where
  type : RouteType
  gw : BitVec 32
  metric : BitVec 32
  deriving DecidableEq, Repr

abbrev Table := Prefix → Finset KernelRoute

def noRoutes : Table := fun _ => ∅

def blackhole : KernelRoute := ⟨.ospfBlackhole, 0, 0⟩

def multipath (type : RouteType) (metric : BitVec 32) (gw : List (BitVec 32)) :
    Finset KernelRoute :=
  (gw.map (fun g => ⟨type, g, metric⟩)).toFinset

def change (table : Table) (ip mask : BitVec 32) (f : Finset KernelRoute → Finset KernelRoute) :
    Table :=
  Function.update table (ip, mask2bits mask) (f (table (ip, mask2bits mask)))

/-- One call of the routing table, as the kernel executes it. -/
def apply (table : Table) : Effect → Table
  | .addBlackhole ip mask => change table ip mask (insert blackhole)
  | .delBlackhole ip mask => change table ip mask (Finset.erase · blackhole)
  | .rcpAddRoute type ip mask gw metric => change table ip mask (insert ⟨type, gw, metric⟩)
  | .rcpDelRoute ip mask gw => change table ip mask (Finset.filter (fun r => r.gw ≠ gw))
  | .rcpAddEcmpRoute type ip mask metric gw => change table ip mask (· ∪ multipath type metric gw)
  | .rcpDelEcmpRoute type ip mask gw =>
    change table ip mask (Finset.filter (fun r => (r.type = type && gw.contains r.gw) = false))
  | .redistributeRoute _ _ _ _ => table
  | .spfTrigger => table

def follow (table : Table) (effects : List Effect) : Table := effects.foldl apply table

/-- What `ecmp_add` installs from an array. -/
def shown (rt : List Rt) : Finset KernelRoute :=
  match ecmpPlan rt with
  | .nothing => ∅
  | .blackhole _ => {blackhole}
  | .single r => {⟨r.type, r.gw, metric r.type r⟩}
  | .multiple type found gw => multipath type (metric type found) gw

@[simp] theorem follow_nil (table : Table) : follow table [] = table := rfl

theorem follow_append (table : Table) (first second : List Effect) :
    follow table (first ++ second) = follow (follow table first) second :=
  List.foldl_append

variable {table : Table} {key : Prefix} {rt : List Rt}

theorem change_at {ip mask : BitVec 32}
    {f : Finset KernelRoute → Finset KernelRoute} (here : (ip, mask2bits mask) = key) :
    change table ip mask f key = f (table key) := by
  subst here
  exact Function.update_self ..

theorem follow_redistribute (table : Table) (add : Bool) (ip mask : BitVec 32)
    (gw : List (BitVec 32)) :
    follow table (gw.map (Effect.redistributeRoute add ip mask ·)) = table := by
  induction gw with
  | nil => rfl
  | cons g rest ih => exact ih

/-- The route of a plan that its calls name belongs to the prefix. -/
def Names (key : Prefix) : EcmpPlan → Prop
  | .nothing => True
  | .blackhole r => (r.ip, mask2bits r.mask) = key
  | .single r => (r.ip, mask2bits r.mask) = key
  | .multiple _ r _ => (r.ip, mask2bits r.mask) = key

theorem ecmpPlan_names (place : At key rt) :
    Names key (ecmpPlan rt) := by
  cases rt with
  | nil => trivial
  | cons first rest =>
    have here := place first List.mem_cons_self
    by_cases own : first.type = .connected ∨ first.type = .static
    · have plan : ecmpPlan (first :: rest) = .nothing := if_pos own
      rw [plan]
      trivial
    by_cases hole : first.type = .ospfBlackhole
    · have plan : ecmpPlan (first :: rest) = .blackhole first := (if_neg own).trans (if_pos hole)
      rw [plan]
      exact here
    cases rest with
    | nil =>
      have plan : ecmpPlan [first] = .single first := (if_neg own).trans (if_neg hole)
      rw [plan]
      exact here
    | cons second others =>
      simp only [ecmpPlan, if_neg own, if_neg hole]
      exact place _ (List.mem_cons_of_mem first (List.getLast_mem _))

theorem follow_ecmpAdd (place : At key rt)
    (empty : table key = ∅) : follow table (ecmpAdd rt) key = shown rt := by
  have here := ecmpPlan_names place
  unfold ecmpAdd shown
  cases plan : ecmpPlan rt with
  | nothing => exact empty
  | blackhole r =>
    rw [plan] at here
    refine (change_at here).trans ?_
    rw [empty, insert_empty_eq]
  | single r =>
    rw [plan] at here
    refine (change_at here).trans ?_
    rw [empty, insert_empty_eq]
  | multiple type found gw =>
    rw [plan] at here
    dsimp only
    rw [follow_append, follow_redistribute]
    have installed : change table found.ip found.mask (· ∪ multipath type (metric type found) gw)
        key = table key ∪ multipath type (metric type found) gw := change_at here
    refine installed.trans ?_
    rw [empty, Finset.empty_union]

theorem follow_ecmpDel (place : At key rt)
    (installed : table key ⊆ shown rt) : follow table (ecmpDel rt) key = ∅ := by
  have here := ecmpPlan_names place
  unfold ecmpDel
  unfold shown at installed
  cases plan : ecmpPlan rt with
  | nothing =>
    rw [plan] at installed
    exact Finset.subset_empty.mp installed
  | blackhole r =>
    rw [plan] at here installed
    have removed : change table r.ip r.mask (Finset.erase · blackhole) key =
        (table key).erase blackhole := change_at here
    refine removed.trans (Finset.subset_empty.mp ?_)
    intro x hx
    obtain ⟨other, member⟩ := Finset.mem_erase.mp hx
    exact absurd (Finset.mem_singleton.mp (installed member)) other
  | single r =>
    rw [plan] at here installed
    refine (change_at here).trans (Finset.subset_empty.mp ?_)
    intro x hx
    obtain ⟨member, other⟩ := Finset.mem_filter.mp hx
    rw [Finset.mem_singleton.mp (installed member)] at other
    exact absurd rfl other
  | multiple type found gw =>
    rw [plan] at here installed
    dsimp only
    rw [follow_append, follow_redistribute]
    refine (change_at here).trans (Finset.subset_empty.mp ?_)
    intro x hx
    obtain ⟨member, other⟩ := Finset.mem_filter.mp hx
    obtain ⟨g, hg, rfl⟩ := List.mem_map.mp (List.mem_toFinset.mp (installed member))
    simp [hg] at other

/-- The flag of a slot is not looked at when routes are installed. -/
theorem shown_map_visit (rt : List Rt) : shown (rt.map visit) = shown rt := by
  cases rt with
  | nil => rfl
  | cons first rest =>
    cases rest with
    | nil =>
      unfold shown ecmpPlan
      by_cases own : first.type = .connected ∨ first.type = .static
      · simp [visit, own]
      · by_cases hole : first.type = .ospfBlackhole
        · simp [visit, hole]
        · simp [visit, own, hole, metric]
    | cons second others =>
      have last : ((second :: others).map visit).getLast (by simp) =
          visit ((second :: others).getLast (by simp)) := List.getLast_map ..
      have types : (List.map visit (second :: others)).foldl (fun t rt => smaller t rt.type)
          first.type = (second :: others).foldl (fun t rt => smaller t rt.type) first.type :=
        List.foldl_map
      have gateways : ∀ type, (((first :: second :: others).map visit).filter
          (fun rt => rt.type = type)).map Rt.gw =
          ((first :: second :: others).filter (fun rt => rt.type = type)).map Rt.gw := by
        intro type
        rw [List.filter_map, List.map_map]
        rfl
      unfold shown ecmpPlan
      by_cases own : first.type = .connected ∨ first.type = .static
      · simp [visit, own]
      · by_cases hole : first.type = .ospfBlackhole
        · simp [visit, hole]
        · have own' : ¬((visit first).type = .connected ∨ (visit first).type = .static) := own
          have hole' : ¬(visit first).type = .ospfBlackhole := hole
          simp only [List.map_cons] at last types gateways ⊢
          rw [if_neg own', if_neg hole', if_neg own, if_neg hole]
          dsimp only
          have type : (visit first).type = first.type := rfl
          rw [last, type, types, gateways]
          rfl

theorem shown_congr {rt' : List Rt} (same : rt.map visit = rt'.map visit) :
    shown rt = shown rt' := by
  rw [← shown_map_visit rt, same, shown_map_visit]

/-- One node and the kernel. -/
structure Node where
  routes : NodeRoutes
  table : Table

def Node.initial : Node := ⟨.empty, noRoutes⟩

section

variable {ip : BitVec 32} {len : Fin 33}

def nodeStep (s : Node) : NodeOp ip len → Node
  | .routeReplace offer =>
    let result := RouteEntry.routeReplace offer.e2Cost s.routes offer.args
    ⟨result.1, follow s.table result.2⟩
  | .callbackInit => ⟨RouteEntry.callbackInit s.routes, s.table⟩
  | .callbackClear =>
    let result := RouteEntry.callbackClear s.routes
    ⟨result.1, follow s.table result.2⟩

def nodeRun (s : Node) (ops : List (NodeOp ip len)) : Node := ops.foldl nodeStep s

theorem follows (key : Prefix) : Follows follow (· key) shown ∅ key where
  nil _ := rfl
  append := follow_append
  trigger _ := rfl
  add := follow_ecmpAdd
  del place installed := by
    refine follow_ecmpDel place ?_
    rcases installed with same | empty
    · exact le_of_eq same
    · exact empty ▸ Finset.empty_subset _
  blind := shown_congr

/-- The kernel holds for the prefix what `ecmp_add` installs from the array. -/
def Mirrored (key : Prefix) (s : Node) : Prop := Shows (· key) shown key s.routes.rt s.table

theorem mirrored_step {s : Node} (mirrored : Mirrored (ip, len.val) s) (op : NodeOp ip len) :
    Mirrored (ip, len.val) (nodeStep s op) := by
  cases op with
  | routeReplace offer => exact (follows _).routeReplace offer.newRt_at mirrored
  | callbackInit => exact (follows _).callbackInit mirrored
  | callbackClear => exact (follows _).callbackClear mirrored

theorem mirrored_run (ops : List (NodeOp ip len)) :
    Mirrored (ip, len.val) (nodeRun .initial ops) :=
  List.foldlRecOn ops nodeStep ⟨List.forall_mem_nil _, rfl⟩
    (fun _ mirrored op _ => mirrored_step mirrored op)

end

end TypedRoutes
