import Rcp100.PatriciaTree

/-!
# Runs of the OSPF routing table

The table is the root pointer and the static `e2_cost`. A run is any sequence of
route additions, cycle starts, cycle ends and purges from the table that has no
root yet.
-/

namespace RouteTable

open BitPrefix IpAddress RouteEntry PatriciaTree

structure Table where
  ptreeRoot : Ptn
  e2Cost : BitVec 32

def Table.initial : Table := ⟨.null, 0⟩

/-- `root_init` when there is no root yet. -/
def ensureRoot : Ptn → Ptn
  | .null => rootInit
  | t => t

def withMasklen (a : RouteArgs) : RouteArgs :=
  { a with mask := (updateMasklen a.mask a.len).1, len := (updateMasklen a.mask a.len).2 }

/-- The node that `route_add` allocates for a new prefix. -/
def newNode (e2Cost : BitVec 32) (a : RouteArgs) : PtnData :=
  ⟨a.ip, (withMasklen a).mask, (withMasklen a).len, NodeRoutes.empty.single (newRt e2Cost a)⟩

def routeAdd (t : Table) (a : RouteArgs) : Table × List Effect :=
  let root := ensureRoot t.ptreeRoot
  let len := (withMasklen a).len
  match ptnFind a.ip len root with
  | some p =>
    ({ t with ptreeRoot :=
        root.modify (mapRoutes (fun n => (routeReplace t.e2Cost n (withMasklen a)).1)) p },
      (routeReplace t.e2Cost (routesAt (root.get p)) (withMasklen a)).2)
  | none =>
    let n := newNode t.e2Cost a
    ({ t with ptreeRoot := attach n root },
      ecmpAdd n.routes.rt)

def routeAddE2 (t : Table) (a : RouteArgs) (e2 : BitVec 32) : Table × List Effect :=
  routeAdd { t with e2Cost := e2 } a

def updateRtStart (t : Table) : Table :=
  { t with ptreeRoot := (ptnWalk (fun n => (callbackInit n, [])) t.ptreeRoot).1 }

def updateRtFinish (t : Table) : Table × List Effect :=
  ({ t with ptreeRoot := (ptnWalk callbackClear t.ptreeRoot).1 },
    (ptnWalk callbackClear t.ptreeRoot).2)

def routePurge (t : Table) : Table := { t with ptreeRoot := ptnPurge true t.ptreeRoot }

inductive Op where
  | routeAdd (a : RouteArgs)
  | routeAddE2 (a : RouteArgs) (e2 : BitVec 32)
  | updateRtStart
  | updateRtFinish
  | routePurge

def step (t : Table) : Op → Table
  | .routeAdd a => (routeAdd t a).1
  | .routeAddE2 a e2 => (routeAddE2 t a e2).1
  | .updateRtStart => updateRtStart t
  | .updateRtFinish => (updateRtFinish t).1
  | .routePurge => routePurge t

def run (t : Table) (ops : List Op) : Table := ops.foldl step t

/-- The purpose of the table: one set of routes for every prefix. -/
structure RouteMap where
  routes : BitVec 32 → Nat → NodeRoutes
  e2Cost : BitVec 32

namespace RouteMap

def initial : RouteMap := ⟨fun _ _ => .empty, 0⟩

/-- A route is offered to its own prefix. -/
def add (m : RouteMap) (a : RouteArgs) : RouteMap :=
  { m with routes := fun key len =>
      if a.ip = key ∧ (withMasklen a).len = len then
        (routeReplace m.e2Cost (m.routes key len) (withMasklen a)).1
      else m.routes key len }

/-- The callback of a walk sees every prefix that has a route. -/
def walk (f : NodeRoutes → NodeRoutes × List Effect) (m : RouteMap) : RouteMap :=
  { m with routes := fun key len => visited f (m.routes key len) }

def step (m : RouteMap) : Op → RouteMap
  | .routeAdd a => m.add a
  | .routeAddE2 a e2 => add { m with e2Cost := e2 } a
  | .updateRtStart => m.walk (fun n => (callbackInit n, []))
  | .updateRtFinish => m.walk callbackClear
  | .routePurge => m

def run (m : RouteMap) (ops : List Op) : RouteMap := ops.foldl step m

end RouteMap

/-- The address is masked by a contiguous mask, given by `mask` or by `len`. -/
structure WellMasked (a : RouteArgs) : Prop where
  len_le : (withMasklen a).len ≤ 32
  mask_eq : (withMasklen a).mask = leading 32 (withMasklen a).len
  trimmed : Trimmed (withMasklen a).len a.ip

def Op.WellMasked : Op → Prop
  | .routeAdd a => RouteTable.WellMasked a
  | .routeAddE2 a _ => RouteTable.WellMasked a
  | _ => True

theorem updateMasklen_leading {n : Nat} (hn : n ≤ 32) :
    updateMasklen (leading 32 n) n = (leading 32 n, n) := by
  have count := mask2bits_leading hn
  by_cases zero : leading 32 n = 0
  · rw [zero] at count
    cases count
    rfl
  · rw [updateMasklen, if_pos zero, count]

variable {a : RouteArgs} {t : Table} {m : RouteMap}

theorem WellMasked.withMasklen_idem (masked : WellMasked a) :
    updateMasklen (withMasklen a).mask (withMasklen a).len =
      ((withMasklen a).mask, (withMasklen a).len) := by
  rw [masked.mask_eq]
  exact updateMasklen_leading masked.len_le

theorem WellMasked.newNode_masked (masked : WellMasked a) (e2Cost : BitVec 32) :
    (newNode e2Cost a).Masked :=
  ⟨masked.len_le, masked.mask_eq, masked.trimmed⟩

theorem WellMasked.newNode_routes (masked : WellMasked a) (e2Cost : BitVec 32) :
    (newNode e2Cost a).routes = (routeReplace e2Cost .empty (withMasklen a)).1 := by
  have same : newRt e2Cost (withMasklen a) = newRt e2Cost a := by
    simp only [newRt, masked.withMasklen_idem]
    rfl
  simp only [newNode, routeReplace, NodeRoutes.empty, List.head?_nil, same]

/-- A new prefix is inserted above an existing subtree on the side of that subtree. -/
def alignedAdd (t : Table) (e2Cost : BitVec 32) (a : RouteArgs) : Bool :=
  (ptnFind a.ip (withMasklen a).len (ensureRoot t.ptreeRoot)).isSome ||
    aligned (newNode e2Cost a) (ensureRoot t.ptreeRoot)

def Op.aligned (t : Table) : Op → Bool
  | .routeAdd a => alignedAdd t t.e2Cost a
  | .routeAddE2 a e2 => alignedAdd t e2 a
  | _ => true

/-- Every step of the run is aligned in the state before it. -/
def alignedRun (t : Table) : List Op → Bool
  | [] => true
  | op :: ops => op.aligned t && alignedRun (step t op) ops

/-- The tree is well formed below the zero-length root and holds the map. -/
structure Refines (t : Table) (m : RouteMap) : Prop where
  e2Cost : t.e2Cost = m.e2Cost
  rooted : ∀ d link, t.ptreeRoot = .node d link → d.key = 0 ∧ d.len = 0
  wf : WellFormed t.ptreeRoot
  lookup : ∀ key len, lookup key len t.ptreeRoot = m.routes key len
  clean : ∀ key len, (m.routes key len).rt = [] → m.routes key len = .empty

theorem initial_refines : Refines .initial .initial := by
  constructor
  · rfl
  · intro d link h
    cases h
  · trivial
  · intro key len
    rfl
  · intro key len _
    rfl

theorem lookup_rootInit (key : BitVec 32) (len : Nat) : lookup key len rootInit = .empty := by
  have masked : PtnData.Masked ⟨0, 0, 0, .empty⟩ := ⟨by decide, by decide, fun i _ => by simp⟩
  have found := lookup_leaf masked key len
  rwa [ite_self] at found

theorem Refines.ensureRoot (refines : Refines t m) :
    ∃ d link, ensureRoot t.ptreeRoot = .node d link ∧ d.key = 0 ∧ d.len = 0 ∧
      WellFormed (.node d link) ∧
      ∀ key len, PatriciaTree.lookup key len (.node d link) = m.routes key len := by
  cases h : t.ptreeRoot with
  | null =>
    have none := fun key len => (refines.lookup key len).symm.trans (by rw [h])
    refine ⟨⟨0, 0, 0, .empty⟩, fun _ => .null, rfl, rfl, rfl, ?_, ?_⟩
    · exact wellFormed_leaf ⟨by decide, by decide, fun i _ => by simp⟩
    · intro key len
      exact (lookup_rootInit key len).trans (none key len).symm
  | node d link =>
    obtain ⟨hkey, hlen⟩ := refines.rooted d link h
    exact ⟨d, link, rfl, hkey, hlen, h ▸ refines.wf, fun key len => h ▸ refines.lookup key len⟩

theorem RouteMap.add_clean
    (clean : ∀ key len, (m.routes key len).rt = [] → m.routes key len = .empty)
    (key : BitVec 32) (len : Nat) (none : ((m.add a).routes key len).rt = []) :
    (m.add a).routes key len = .empty := by
  simp only [RouteMap.add] at none ⊢
  split at none
  · exact False.elim (routeReplace_rt_ne_nil _ _ _ none)
  · rename_i other
    rw [if_neg other]
    exact clean key len none

theorem routeAdd_refines (refines : Refines t m)
    (masked : WellMasked a) (side : alignedAdd t t.e2Cost a = true) :
    Refines (routeAdd t a).1 (m.add a) := by
  obtain ⟨d, link, hroot, hkey, hlen, wf, hlook⟩ := refines.ensureRoot
  cases hfind : ptnFind a.ip (withMasklen a).len (.node d link) with
  | some p =>
    obtain ⟨r, link', hmod, wf', hlook'⟩ :=
      modify_spec (fun n => (routeReplace t.e2Cost n (withMasklen a)).1) wf hfind
    have htree : (routeAdd t a).1 = { t with ptreeRoot := .node { d with routes := r } link' } := by
      simp only [routeAdd, hroot, hfind, hmod]
    rw [htree]
    refine ⟨refines.e2Cost, ?_, wf', ?_, RouteMap.add_clean refines.clean⟩
    · intro d' l' h
      cases h
      exact ⟨hkey, hlen⟩
    · intro key len
      dsimp only
      rw [hlook', hlook, refines.e2Cost]
      rfl
  | none =>
    have haligned : aligned (newNode t.e2Cost a) (.node d link) = true := by
      simpa [alignedAdd, hroot, hfind] using side
    have hcov : Covers d a.ip (withMasklen a).len := by
      constructor
      · omega
      · rw [hlen]
        exact samePrefix_zero _ _
    obtain ⟨link', hattach, wf', inserts⟩ :=
      attach_spec (masked.newNode_masked t.e2Cost) wf hcov hfind haligned
    have htree : (routeAdd t a).1 = { t with ptreeRoot := .node d link' } := by
      simp only [routeAdd, hroot, hfind, hattach]
    rw [htree]
    refine ⟨refines.e2Cost, ?_, wf', ?_, RouteMap.add_clean refines.clean⟩
    · intro d' l' h
      cases h
      exact ⟨hkey, hlen⟩
    · intro key len
      dsimp only
      rw [inserts, hlook, masked.newNode_routes, refines.e2Cost]
      by_cases here : a.ip = key ∧ (withMasklen a).len = len
      · -- nothing was stored under a prefix that is not found
        have bare : m.routes key len = .empty := by
          rw [← hlook key len, PatriciaTree.lookup, ← here.1, ← here.2, hfind]
        simp only [newNode, RouteMap.add, here, and_self, if_true, bare]
      · simp only [newNode, RouteMap.add, here, if_false]

theorem walk_refines (refines : Refines t m)
    (f : NodeRoutes → NodeRoutes × List Effect)
    (clean : ∀ n, n.rt ≠ [] → (f n).1.rt = [] → (f n).1 = .empty) :
    Refines { t with ptreeRoot := (ptnWalk f t.ptreeRoot).1 } (m.walk f) := by
  refine ⟨refines.e2Cost, ?_, wellFormed_ptnWalk f refines.wf, ?_, ?_⟩
  · intro d link h
    cases htree : t.ptreeRoot with
    | null =>
      rw [htree] at h
      cases h
    | node d' link' =>
      rw [htree, ptnWalk_node] at h
      cases h
      exact refines.rooted d' link' htree
  · intro key len
    rw [lookup_ptnWalk f refines.wf, refines.lookup]
    rfl
  · intro key len none
    simp only [RouteMap.walk, visited] at none ⊢
    split at none
    · rename_i bare
      rw [if_pos bare]
      exact refines.clean key len bare
    · rename_i some
      rw [if_neg some]
      exact clean _ some none

theorem routePurge_refines (refines : Refines t m) :
    Refines (routePurge t) m := by
  have clean : ∀ x ∈ t.ptreeRoot.nodes, x.routes.rt = [] → x.routes = .empty := by
    intro x hx none
    rw [← lookup_of_mem refines.wf hx, refines.lookup] at none ⊢
    exact refines.clean _ _ none
  refine ⟨refines.e2Cost, ?_, wellFormed_ptnPurge refines.wf true, ?_, refines.clean⟩
  · intro d link h
    cases htree : t.ptreeRoot with
    | null =>
      rw [routePurge, htree] at h
      cases h
    | node d' link' =>
      rw [routePurge, htree, ptnPurge_root] at h
      cases h
      exact refines.rooted _ _ htree
  · intro key len
    rw [routePurge, lookup_ptnPurge refines.wf clean, refines.lookup]

theorem callbackInit_rt_eq_nil {n : NodeRoutes} (none : (callbackInit n).rt = []) :
    n.rt = [] := by
  simpa [callbackInit] using none

theorem callbackClear_clean (n : NodeRoutes) (none : (callbackClear n).1.rt = []) :
    (callbackClear n).1 = .empty :=
  NodeRoutes.ext' none rfl

theorem step_refines (refines : Refines t m) (op : Op)
    (masked : op.WellMasked) (side : op.aligned t = true) :
    Refines (step t op) (m.step op) := by
  cases op with
  | routeAdd a => exact routeAdd_refines refines masked side
  | routeAddE2 a e2 =>
    have refines' : Refines { t with e2Cost := e2 } { m with e2Cost := e2 } :=
      ⟨rfl, refines.rooted, refines.wf, refines.lookup, refines.clean⟩
    exact routeAdd_refines refines' masked side
  | updateRtStart =>
    refine walk_refines refines _ ?_
    intro n some none
    exact False.elim (some (callbackInit_rt_eq_nil none))
  | updateRtFinish => exact walk_refines refines _ (fun n _ => callbackClear_clean n)
  | routePurge => exact routePurge_refines refines

theorem run_refines (refines : Refines t m) {ops : List Op}
    (masked : ∀ op ∈ ops, op.WellMasked) (side : alignedRun t ops = true) :
    Refines (run t ops) (m.run ops) := by
  induction ops generalizing t m with
  | nil => exact refines
  | cons op ops ih =>
    simp only [alignedRun, Bool.and_eq_true] at side
    exact ih (step_refines refines op (masked op List.mem_cons_self) side.1)
      (fun op hop => masked op (List.mem_cons_of_mem _ hop)) side.2

/-- The table is the finite map `m`: every prefix that has routes in `m` is found,
at a node that carries it with these routes, and no prefix stands at two nodes. -/
structure IsMap (t : Table) (m : RouteMap) : Prop where
  found : ∀ key len, (m.routes key len).rt ≠ [] → ∃ p d link,
    ptnFind key len t.ptreeRoot = some p ∧ t.ptreeRoot.get p = .node d link ∧
      d.key = key ∧ d.len = len ∧ d.routes = m.routes key len
  distinct : (t.ptreeRoot.nodes.map (fun d => (d.key, d.len))).Nodup

theorem Refines.isMap (refines : Refines t m) : IsMap t m := by
  refine ⟨?_, nodes_prefix_nodup refines.wf⟩
  intro key len some
  have hlook := refines.lookup key len
  cases hfind : ptnFind key len t.ptreeRoot with
  | none =>
    rw [PatriciaTree.lookup, hfind] at hlook
    exact False.elim (some (by rw [← hlook]; rfl))
  | some p =>
    obtain ⟨d, _, hkey, hlen, link, hget⟩ := ptnFind_sound hfind
    rw [PatriciaTree.lookup, hfind] at hlook
    dsimp only at hlook
    rw [hget] at hlook
    exact ⟨p, d, link, rfl, hget, hkey, hlen, hlook⟩

theorem wellMasked_iff (a : RouteArgs) :
    (withMasklen a).len ≤ 32 ∧ (withMasklen a).mask = leading 32 (withMasklen a).len ∧
      a.ip &&& leading 32 (withMasklen a).len = a.ip ↔ WellMasked a := by
  constructor
  · rintro ⟨hlen, hmask, hip⟩
    exact ⟨hlen, hmask, hip ▸ trimmed_and_leading _ _⟩
  · rintro ⟨hlen, hmask, hip⟩
    exact ⟨hlen, hmask, hip.and_leading⟩

instance (a : RouteArgs) : Decidable (WellMasked a) := decidable_of_iff _ (wellMasked_iff a)

instance (op : Op) : Decidable op.WellMasked :=
  match op with
  | .routeAdd a => inferInstanceAs (Decidable (WellMasked a))
  | .routeAddE2 a _ => inferInstanceAs (Decidable (WellMasked a))
  | .updateRtStart => isTrue trivial
  | .updateRtFinish => isTrue trivial
  | .routePurge => isTrue trivial

/-- In every run whose insertions are aligned, the tree reached is a finite map on
prefixes: the map that offers, sweeps and purges build prefix by prefix. -/
theorem aligned_run_isMap (ops : List Op) (masked : ∀ op ∈ ops, op.WellMasked)
    (side : alignedRun .initial ops = true) :
    IsMap (run .initial ops) (RouteMap.initial.run ops) :=
  (run_refines initial_refines masked side).isMap

/-- An intra-area route of cost 10. -/
def intraRoute (ip mask gw : BitVec 32) : RouteArgs := ⟨ip, mask, 0, gw, 10, .ospf, 0, 0⟩

/-- 10.1.0.0/16 and 10.64.0.0/16, then the shorter 10.0.0.0/8, whose first bit is
also the bit with which both continue it; a cycle then keeps only the last one. -/
def alignedOps : List Op :=
  [.routeAdd (intraRoute 0x0a010000 0xffff0000 0xc0a80001),
    .routeAdd (intraRoute 0x0a400000 0xffff0000 0xc0a80002),
    .routeAdd (intraRoute 0x0a000000 0xff000000 0xc0a80001),
    .updateRtStart,
    .routeAdd (intraRoute 0x0a000000 0xff000000 0xc0a80001),
    .updateRtFinish,
    .routePurge]

theorem aligned_run_isMap_nested :
    ((RouteMap.initial.run alignedOps).routes 0x0a000000 8).rt ≠ [] ∧
      IsMap (run .initial alignedOps) (RouteMap.initial.run alignedOps) :=
  ⟨by decide, aligned_run_isMap alignedOps (by decide) (by decide)⟩

/-- 10.128.0.0/16, then 10.0.0.0/8, then 10.128.0.0/16 again. -/
def nestedOps : List Op :=
  [.routeAdd (intraRoute 0x0a800000 0xffff0000 0xc0a80001),
    .routeAdd (intraRoute 0x0a000000 0xff000000 0xc0a80001),
    .routeAdd (intraRoute 0x0a800000 0xffff0000 0xc0a80001)]

/-- The shorter prefix hides the longer one, and adding that one again makes a
second node for it. -/
theorem shorter_prefix_hides_longer :
    (∀ op ∈ nestedOps, op.WellMasked) ∧
      ((RouteMap.initial.run (nestedOps.take 2)).routes 0x0a800000 16).rt ≠ [] ∧
      ptnFind 0x0a800000 16 (run .initial (nestedOps.take 2)).ptreeRoot = none ∧
      ¬ ((run .initial nestedOps).ptreeRoot.nodes.map (fun d => (d.key, d.len))).Nodup := by
  decide

end RouteTable
