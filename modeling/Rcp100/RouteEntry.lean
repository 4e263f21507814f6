import Rcp100.IpAddress

/-!
# The routes of one prefix

A node of the OSPF routing table keeps up to four routes of one prefix. An SPF
cycle flags them all for deletion, offers the routes of the new calculation one
by one, and finally sweeps what is still flagged. Configured slots always stand
at the beginning of the array, so the array is the list of its configured slots;
a slot of type `RT_NONE` is one past the end of that list.

Kernel and redistribution calls are recorded as effects, in the order in which
they are made. The counters and log lines of the source are left out.
-/

namespace RouteEntry

open BitPrefix IpAddress

inductive RouteType where
  | connected
  | static
  | blackhole
  | rip
  | ospf
  | ospfIa
  | ospfE1
  | ospfE2
  | ospfBlackhole
  | connectedSubnets
  deriving DecidableEq, Repr

/-- The numeric order of the types decides which routes reach the kernel. -/
def RouteType.code : RouteType → Nat
  | .connected => 1
  | .static => 2
  | .blackhole => 3
  | .rip => 4
  | .ospf => 5
  | .ospfIa => 6
  | .ospfE1 => 7
  | .ospfE2 => 8
  | .ospfBlackhole => 9
  | .connectedSubnets => 10

structure Rt where
  ip : BitVec 32
  mask : BitVec 32
  gw : BitVec 32
  cost : BitVec 32
  e2Cost : BitVec 32
  areaId : BitVec 32
  ifip : BitVec 32
  type : RouteType
  delFlag : Bool
  deriving DecidableEq, Repr

/-- `RCP_OSPF_ECMP_LIMIT`. -/
def ecmpLimit : Nat := 4

/-- The arrays `rt` and the flag `retry_ecmp` of a tree node. -/
structure NodeRoutes where
  rt : List Rt
  retryEcmp : Bool
  bounded : rt.length ≤ ecmpLimit
  deriving DecidableEq

namespace NodeRoutes

/-- The zeroed memory of a fresh node. -/
def empty : NodeRoutes := ⟨[], false, Nat.zero_le _⟩

/-- The array cleared and filled with one route. -/
def single (n : NodeRoutes) (r : Rt) : NodeRoutes :=
  ⟨[r], n.retryEcmp, Nat.succ_le_succ (Nat.zero_le _)⟩

@[ext] theorem ext' {m n : NodeRoutes} (rt : m.rt = n.rt) (retry : m.retryEcmp = n.retryEcmp) :
    m = n := by
  cases m
  cases n
  simp_all

end NodeRoutes

/-- Calls that leave the routing table: kernel routes, RIP and the SPF timer. -/
inductive Effect where
  | addBlackhole (ip mask : BitVec 32)
  | delBlackhole (ip mask : BitVec 32)
  | rcpAddRoute (type : RouteType) (ip mask gw cost : BitVec 32)
  | rcpDelRoute (ip mask gw : BitVec 32)
  | rcpAddEcmpRoute (type : RouteType) (ip mask cost : BitVec 32) (gw : List (BitVec 32))
  | rcpDelEcmpRoute (type : RouteType) (ip mask : BitVec 32) (gw : List (BitVec 32))
  | redistributeRoute (add : Bool) (ip mask gw : BitVec 32)
  | spfTrigger
  deriving DecidableEq, Repr

/-- The choice that `ecmp_add` and `ecmp_del` make alike on the array. -/
inductive EcmpPlan where
  | nothing
  | blackhole (rt : Rt)
  | single (found : Rt)
  | multiple (type : RouteType) (found : Rt) (gw : List (BitVec 32))

def smaller (a b : RouteType) : RouteType := if b.code < a.code then b else a

def ecmpPlan : List Rt → EcmpPlan
  | [] => .nothing
  | first :: rest =>
    if first.type = .connected ∨ first.type = .static then .nothing
    else if first.type = .ospfBlackhole then .blackhole first
    else match rest with
      | [] => .single first
      | second :: others =>
        let smallest := (second :: others).foldl (fun t rt => smaller t rt.type) first.type
        .multiple smallest ((second :: others).getLast (by simp))
          (((first :: second :: others).filter (fun rt => rt.type = smallest)).map Rt.gw)

def ecmpDel (rt : List Rt) : List Effect :=
  match ecmpPlan rt with
  | .nothing => []
  | .blackhole r => [.delBlackhole r.ip r.mask]
  | .single r => [.rcpDelRoute r.ip r.mask r.gw, .redistributeRoute false r.ip r.mask r.gw]
  | .multiple type found gw =>
    gw.map (.redistributeRoute false found.ip found.mask ·) ++
      [.rcpDelEcmpRoute type found.ip found.mask gw]

/-- The metric that reaches the kernel: external type 2 routes announce their own cost. -/
def metric (type : RouteType) (found : Rt) : BitVec 32 :=
  if type = .ospfE2 then found.e2Cost else found.cost

def ecmpAdd (rt : List Rt) : List Effect :=
  match ecmpPlan rt with
  | .nothing => []
  | .blackhole r => [.addBlackhole r.ip r.mask]
  | .single r =>
    [.rcpAddRoute r.type r.ip r.mask r.gw (metric r.type r),
      .redistributeRoute true r.ip r.mask r.gw]
  | .multiple type found gw =>
    gw.map (.redistributeRoute true found.ip found.mask ·) ++
      [.rcpAddEcmpRoute type found.ip found.mask (metric type found) gw]

/-- The arguments of `route_add` and `route_replace`. -/
structure RouteArgs where
  ip : BitVec 32
  mask : BitVec 32
  len : Nat
  gw : BitVec 32
  cost : BitVec 32
  type : RouteType
  areaId : BitVec 32
  ifip : BitVec 32
  deriving DecidableEq, Repr

/-- The bytes of `bitmask` in `update_masklen`, moved to the top of the word. -/
def bitmask (n : Nat) : BitVec 32 :=
  ([0x00, 0x80, 0xc0, 0xe0, 0xf0, 0xf8, 0xfc, 0xfe, 0xff].getD n 0 : BitVec 32) <<< 24

def fillBytes : Nat → BitVec 32 → BitVec 32
  | 0, mask => mask
  | div+1, mask => fillBytes div ((mask >>> 8) ||| 0xff000000)

/-- The second branch is taken for every zero mask, because the source compares
the pointer `len` and not the length with zero. -/
def updateMasklen (mask : BitVec 32) (len : Nat) : BitVec 32 × Nat :=
  if mask ≠ 0 then (mask, mask2bits mask) else (fillBytes (len / 8) (bitmask (len % 8)), len)

def newRt (e2Cost : BitVec 32) (a : RouteArgs) : Rt where
  ip := a.ip
  mask := (updateMasklen a.mask a.len).1
  gw := a.gw
  cost := a.cost
  e2Cost := e2Cost
  areaId := a.areaId
  ifip := a.ifip
  type := a.type
  delFlag := false

/-- The test of the loop "nothing changed?". -/
def sameRoute (a : RouteArgs) (rt : Rt) : Bool :=
  rt.cost = a.cost && rt.type = a.type && rt.gw = a.gw

def visit (rt : Rt) : Rt := { rt with delFlag := false }

/-- One offer of a route. The value returned to the caller is used nowhere. -/
def routeReplace (e2Cost : BitVec 32) (n : NodeRoutes) (a : RouteArgs) :
    NodeRoutes × List Effect :=
  let new := newRt e2Cost a
  match n.rt.head? with
  | none => (n.single new, ecmpAdd [new])
  | some first =>
    match n.rt.findIdx? (sameRoute a) with
    | some i =>
      (⟨n.rt.modify i visit, n.retryEcmp, by simpa using n.bounded⟩, [])
    | none =>
      -- not visited in this cycle: replaced whatever the cost
      if n.rt.all (·.delFlag) then
        (n.single new, ecmpDel n.rt ++ ecmpAdd [new])
      else if first.cost = a.cost then
        if room : n.rt.length < ecmpLimit then
          (⟨n.rt ++ [new], n.retryEcmp, by simpa [Nat.succ_le_iff] using room⟩,
            ecmpDel n.rt ++ ecmpAdd (n.rt ++ [new]))
        else (⟨n.rt, true, n.bounded⟩, [])
      else if a.cost < first.cost then
        (n.single new, ecmpDel n.rt ++ ecmpAdd [new])
      else (n, [])

def mark (rt : Rt) : Rt := { rt with delFlag := true }

/-- `callback_init`: flag every configured slot. -/
def callbackInit (n : NodeRoutes) : NodeRoutes :=
  ⟨n.rt.map mark, n.retryEcmp, by simpa using n.bounded⟩

/-- The loop of `callback_clear` at index `i`, with `steps` iterations left. A
removal moves the rest of the array down by one slot, and the index still advances. -/
def clearLoop : Nat → Nat → List Rt → Bool → List Effect → List Rt × Bool × List Effect
  | 0, _, rt, deleted, effects => (rt, deleted, effects)
  | steps+1, i, rt, deleted, effects =>
    match rt[i]? with
    | none => (rt, deleted, effects)
    | some r =>
      if r.delFlag then
        clearLoop steps (i+1) (rt.eraseIdx i) true (effects ++ ecmpDel rt)
      else clearLoop steps (i+1) rt deleted effects

theorem length_clearLoop_le (steps i : Nat) (rt : List Rt) (deleted : Bool)
    (effects : List Effect) : (clearLoop steps i rt deleted effects).1.length ≤ rt.length := by
  induction steps generalizing i rt deleted effects with
  | zero => exact Nat.le_refl _
  | succ steps ih =>
    unfold clearLoop
    cases rt[i]? with
    | none => exact Nat.le_refl _
    | some r =>
      by_cases flagged : r.delFlag
      · have shorter := ih (i+1) (rt.eraseIdx i) true (effects ++ ecmpDel rt)
        have erased := List.length_eraseIdx_le rt i
        simpa only [flagged, if_pos] using Nat.le_trans shorter erased
      · simpa [flagged] using ih (i+1) rt deleted effects

def callbackClear (n : NodeRoutes) : NodeRoutes × List Effect :=
  let swept := clearLoop ecmpLimit 0 n.rt false []
  let bounded := Nat.le_trans (length_clearLoop_le ecmpLimit 0 n.rt false []) n.bounded
  let reinstalled := if swept.2.1 then ecmpAdd swept.1 else []
  let retry :=
    if n.retryEcmp && decide (swept.1.length < ecmpLimit) then [Effect.spfTrigger] else []
  (⟨swept.1, false, bounded⟩, swept.2.2 ++ reinstalled ++ retry)

/-- Everything one offer can do to the array, guards included. -/
inductive Offer (e2Cost : BitVec 32) (a : RouteArgs) (n r : NodeRoutes) : Prop where
  | configure (none : n.rt = []) (rt : r.rt = [newRt e2Cost a])
      (retry : r.retryEcmp = n.retryEcmp)
  | refresh (i : Nat) (found : n.rt.findIdx? (sameRoute a) = some i)
      (rt : r.rt = n.rt.modify i visit) (retry : r.retryEcmp = n.retryEcmp)
  | replaceStale (some : n.rt ≠ []) (absent : ∀ x ∈ n.rt, sameRoute a x = false)
      (stale : ∀ x ∈ n.rt, x.delFlag = true) (rt : r.rt = [newRt e2Cost a])
      (retry : r.retryEcmp = n.retryEcmp)
  | append (first : Rt) (head : n.rt.head? = .some first)
      (absent : ∀ x ∈ n.rt, sameRoute a x = false) (fresh : ∃ x ∈ n.rt, x.delFlag = false)
      (cost : first.cost = a.cost) (room : n.rt.length < ecmpLimit)
      (rt : r.rt = n.rt ++ [newRt e2Cost a]) (retry : r.retryEcmp = n.retryEcmp)
  | refuse (first : Rt) (head : n.rt.head? = .some first)
      (absent : ∀ x ∈ n.rt, sameRoute a x = false) (fresh : ∃ x ∈ n.rt, x.delFlag = false)
      (cost : first.cost = a.cost) (full : n.rt.length = ecmpLimit)
      (rt : r.rt = n.rt) (retry : r.retryEcmp = true)
  | replaceWorse (first : Rt) (head : n.rt.head? = .some first)
      (absent : ∀ x ∈ n.rt, sameRoute a x = false) (fresh : ∃ x ∈ n.rt, x.delFlag = false)
      (cost : a.cost < first.cost) (rt : r.rt = [newRt e2Cost a])
      (retry : r.retryEcmp = n.retryEcmp)
  | ignore (first : Rt) (head : n.rt.head? = .some first)
      (absent : ∀ x ∈ n.rt, sameRoute a x = false) (fresh : ∃ x ∈ n.rt, x.delFlag = false)
      (cost : first.cost < a.cost) (rt : r.rt = n.rt) (retry : r.retryEcmp = n.retryEcmp)

theorem routeReplace_offer (e2Cost : BitVec 32) (n : NodeRoutes) (a : RouteArgs) :
    Offer e2Cost a n (routeReplace e2Cost n a).1 := by
  unfold routeReplace
  dsimp only
  cases hhead : n.rt.head? with
  | none => exact .configure (List.head?_eq_none_iff.mp hhead) rfl rfl
  | some first =>
    dsimp only
    cases hfind : n.rt.findIdx? (sameRoute a) with
    | some i => exact .refresh i hfind rfl rfl
    | none =>
      have absent := List.findIdx?_eq_none_iff.mp hfind
      dsimp only
      by_cases stale : n.rt.all (·.delFlag)
      · rw [if_pos stale]
        refine .replaceStale ?_ absent (List.all_eq_true.mp stale) rfl rfl
        intro hnil
        rw [hnil] at hhead
        cases hhead
      · have fresh : ∃ x ∈ n.rt, x.delFlag = false := by
          simpa [List.all_eq_true] using stale
        rw [if_neg stale]
        by_cases heq : first.cost = a.cost
        · rw [if_pos heq]
          by_cases room : n.rt.length < ecmpLimit
          · rw [dif_pos room]
            exact .append first hhead absent fresh heq room rfl rfl
          · rw [dif_neg room]
            have bounded := n.bounded
            exact .refuse first hhead absent fresh heq (by omega) rfl rfl
        · rw [if_neg heq]
          by_cases better : a.cost < first.cost
          · rw [if_pos better]
            exact .replaceWorse first hhead absent fresh better rfl rfl
          · rw [if_neg better]
            have worse : first.cost < a.cost := by bv_omega
            exact .ignore first hhead absent fresh worse rfl rfl

theorem routeReplace_rt_ne_nil (e2Cost : BitVec 32) (n : NodeRoutes) (a : RouteArgs) :
    (routeReplace e2Cost n a).1.rt ≠ [] := by
  cases routeReplace_offer e2Cost n a with
  | configure _ rt => simp [rt]
  | refresh i found rt =>
    have hlt := (List.findIdx?_eq_some_iff_getElem.mp found).1
    intro hnil
    rw [rt] at hnil
    have hlen := congrArg List.length hnil
    rw [List.length_modify] at hlen
    simp only [List.length_nil] at hlen
    omega
  | replaceStale _ _ _ rt => simp [rt]
  | append first _ _ _ _ _ rt => simp [rt]
  | refuse first head _ _ _ _ rt =>
    rw [rt]
    intro hnil
    rw [hnil] at head
    cases head
  | replaceWorse first _ _ _ _ rt => simp [rt]
  | ignore first head _ _ _ rt =>
    rw [rt]
    intro hnil
    rw [hnil] at head
    cases head

end RouteEntry
