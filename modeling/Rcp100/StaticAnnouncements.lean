import Rcp100.Mux
import Rcp100.NamedSlots
import Rcp100.PairNotices
import Rcp100.StaticKernel
import Rcp100.StepRuns

/-!
# Announcements of static routes

The commands tell RIP and OSPF about the static routes. A route that takes the place of
another gateway is announced with its own gateway as deleted, so the old one stays, and the
search for the gateway 0.0.0.0 finds a route with any gateway. Apart from these two the
messages lead to the routes of the table.
-/

namespace StaticAnnouncements

open SpecialTokens IpAddress StaticRoutes StaticKernel PairNotices NamedSlots StepRuns
open Mux (Proc rcpProcRip rcpProcOspf)

section Messages

/-- A route is announced with its address, its mask and its gateway. -/
abbrev Call := Notice (BitVec 32 × BitVec 32) (BitVec 32)

inductive PktType where
  | addRoute
  | delRoute
deriving DecidableEq

/-- `RcpPkt` of a static route. -/
structure RcpPkt where
  destination : Proc
  type : PktType
  ip : BitVec 32
  mask : BitVec 32
  gw : BitVec 32
deriving DecidableEq

/-- The configuration while a command is executed, and whether the multiplexer is connected. -/
structure Link where
  rcpRipRedistStatic : Bool
  rcpOspfRedistStatic : Bool
  muxsock : Bool
deriving DecidableEq

def destination (link : Link) : Proc :=
  (if link.rcpRipRedistStatic then rcpProcRip else 0) |||
    if link.rcpOspfRedistStatic then rcpProcOspf else 0

/-- The metric is not part of the message. -/
def redistributeRoute (link : Link) (call : Call) : Option RcpPkt :=
  if link.muxsock && destination link ≠ 0 then
    some ⟨destination link, if call.add then .addRoute else .delRoute, call.key.1, call.key.2,
      call.value⟩
  else none

def RcpPkt.notice (pkt : RcpPkt) : Call := ⟨pkt.type = .addRoute, (pkt.ip, pkt.mask), pkt.gw⟩

end Messages

section Calls

/-- The calls of `redistribute_route` in `addRoute`, in its branches. -/
def addRouteCalls (t : Sroute) (ip mask gw metric : BitVec 32) : List Call :=
  match shmFindRouteStatic t ip mask gw with
  | some _ => [⟨false, (ip, mask), gw⟩, ⟨true, (ip, mask), gw⟩]
  | none =>
    match (shmFindRouteStatic t ip mask 0).filter fun found => found.2.metric = metric with
    | some _ => [⟨false, (ip, mask), gw⟩, ⟨true, (ip, mask), gw⟩]
    | none =>
      match shmFindRouteEmpty t with
      | none => []
      | some _ => [⟨true, (ip, mask), gw⟩]

def cliIpRouteCidrCalls (t : Sroute) (cidr nexthop : Word) (distance : Option Word) :
    List Call :=
  match readRoute cidr nexthop with
  | .error _ => []
  | .ok (ip, mask, gw) =>
    let metric := (distance.map atoi).getD 1
    if metric = rcpRouteDistanceRip then []
    else if metric = rcpRouteDistanceOspf then []
    else addRouteCalls t ip mask gw metric

def cliNoIpRouteCidrCalls (cidr nexthop : Word) : List Call :=
  match readRoute cidr nexthop with
  | .error _ => []
  | .ok (ip, mask, gw) => [⟨false, (ip, mask), gw⟩]

/-- What the loop of `cliNoIpRouteAll` announces for the route of a slot. -/
def delRouteCall : Option StaticRoute → Option Call
  | none => none
  | some rt =>
    match rt.type with
    | .static => some ⟨false, (rt.ip, rt.mask), rt.gw⟩
    | .blackhole => none

def calls (t : Sroute) : Command → List Call
  | .ipRoute cidr nexthop distance => cliIpRouteCidrCalls t cidr nexthop distance
  | .noIpRoute cidr nexthop => cliNoIpRouteCidrCalls cidr nexthop
  | .noIpRouteAll => t.filterMap delRouteCall
  | .defaultGateway gw => cliIpRouteCidrCalls t defaultRoute gw none
  | .noDefaultGateway gw => cliNoIpRouteCidrCalls defaultRoute gw
  | .blackhole _ | .noBlackhole _ => []

structure Progress where
  state : State
  sent : List RcpPkt

/-- A command changes the table and sends its messages. -/
def progress (removal : Removal) (s : Progress) (op : Link × Command) : Progress :=
  { state := step removal s.state op.2
    sent :=
      if op.2.accepted then
        s.sent ++ (calls s.state.sroute op.2).filterMap (redistributeRoute op.1)
      else s.sent }

def initial (others : Kernel) : Progress := ⟨start others, []⟩

end Calls

section Conditions

/-- Redistribution is enabled for RIP or for OSPF. -/
def Link.Enabled (link : Link) : Prop :=
  link.muxsock = true ∧ (link.rcpRipRedistStatic = true ∨ link.rcpOspfRedistStatic = true)

/-- A valid static route of the table has the network and the gateway. -/
def HasRoute (t : Sroute) (ip mask gw : BitVec 32) : Prop :=
  ∃ rt, some rt ∈ t ∧ rt.type = .static ∧ rt.ip = ip ∧ rt.mask = mask ∧ rt.gw = gw

/-- The messages so far lead to the routes of the table. -/
def Faithful (s : Progress) : Prop :=
  ∀ ip mask gw, ((ip, mask), gw) ∈ deliverAll ∅ (s.sent.map RcpPkt.notice) ↔
    HasRoute s.state.sroute ip mask gw

/-- A route that the search for the gateway finds has the gateway somewhere in the table;
otherwise the first route of the network has another distance. -/
def ClearAdd (t : Sroute) (ip mask gw metric : BitVec 32) : Prop :=
  ((shmFindRouteStatic t ip mask gw).isSome → HasRoute t ip mask gw) ∧
  (shmFindRouteStatic t ip mask gw = none →
    ∀ i rt, shmFindRouteStatic t ip mask 0 = some (i, rt) → rt.metric ≠ metric)

/-- The route that the search finds has the gateway that is announced. -/
def ClearDelete (t : Sroute) (ip mask gw : BitVec 32) : Prop :=
  ∀ i rt, shmFindRouteStatic t ip mask gw = some (i, rt) → rt.gw = gw

def ClearRoute (t : Sroute) (cidr nexthop : Word) (distance : Option Word) : Prop :=
  let metric := (distance.map atoi).getD 1
  ∀ ip mask gw, readRoute cidr nexthop = .ok (ip, mask, gw) →
    metric ≠ rcpRouteDistanceRip → metric ≠ rcpRouteDistanceOspf → ClearAdd t ip mask gw metric

def ClearRemoval (t : Sroute) (cidr nexthop : Word) : Prop :=
  ∀ ip mask gw, readRoute cidr nexthop = .ok (ip, mask, gw) → ClearDelete t ip mask gw

def Clear (t : Sroute) : Command → Prop
  | .ipRoute cidr nexthop distance => ClearRoute t cidr nexthop distance
  | .noIpRoute cidr nexthop => ClearRemoval t cidr nexthop
  | .defaultGateway gw => ClearRoute t defaultRoute gw none
  | .noDefaultGateway gw => ClearRemoval t defaultRoute gw
  | .noIpRouteAll | .blackhole _ | .noBlackhole _ => True

end Conditions

section Names

variable {t : Sroute} {i : Nat} {rt : StaticRoute} {ip mask gw metric : BitVec 32}
  {x : (BitVec 32 × BitVec 32) × BitVec 32}

/-- What a static route is announced with. -/
def pair (rt : StaticRoute) : Option ((BitVec 32 × BitVec 32) × BitVec 32) :=
  match rt.type with
  | .static => some ((rt.ip, rt.mask), rt.gw)
  | .blackhole => none

theorem pair_static (isStatic : rt.type = .static) : pair rt = some ((rt.ip, rt.mask), rt.gw) := by
  rw [pair, isStatic]

theorem pair_hole (isHole : rt.type = .blackhole) : pair rt = none := by
  rw [pair, isHole]

theorem pair_eq_some : pair rt = some ((ip, mask), gw) ↔
    rt.type = .static ∧ rt.ip = ip ∧ rt.mask = mask ∧ rt.gw = gw := by
  rcases type_cases rt with isStatic | isHole
  · rw [pair_static isStatic, isStatic]
    simp [and_assoc]
  · rw [pair_hole isHole, isHole]
    simp

abbrev Routes (t : Sroute) (x : (BitVec 32 × BitVec 32) × BitVec 32) : Prop :=
  Named pair (slotAt t) x

theorem slotAt_mem : some rt ∈ t ↔ ∃ i, slotAt t i = some rt := by
  simp only [slotAt, List.mem_iff_getElem?, Option.join_eq_some_iff]

theorem hasRoute_iff : HasRoute t ip mask gw ↔ Routes t ((ip, mask), gw) := by
  constructor
  · rintro ⟨rt, member, route⟩
    obtain ⟨i, held⟩ := slotAt_mem.mp member
    exact ⟨i, by rw [nameAt, held, Option.bind_some, pair_eq_some.mpr route]⟩
  · rintro ⟨i, named⟩
    obtain ⟨rt, held, route⟩ := Option.bind_eq_some_iff.mp named
    exact ⟨rt, slotAt_mem.mpr ⟨i, held⟩, pair_eq_some.mp route⟩

theorem nameAt_held (held : slotAt t i = some rt) : nameAt pair (slotAt t) i = pair rt := by
  rw [nameAt, held, Option.bind_some]

theorem nameAt_found (found : shmFindRouteStatic t ip mask gw = some (i, rt)) :
    nameAt pair (slotAt t) i = some ((ip, mask), rt.gw) := by
  obtain ⟨held, -, isStatic, sameIp, sameMask, -⟩ := findStatic_some found
  rw [nameAt_held held, pair_static isStatic, sameIp, sameMask]

theorem routes_none (nothing : shmFindRouteStatic t ip mask gw = none) :
    ¬ Routes t ((ip, mask), gw) := by
  rw [← hasRoute_iff]
  rintro ⟨rt, member, isStatic, sameIp, sameMask, sameGw⟩
  obtain ⟨i, held⟩ := slotAt_mem.mp member
  by_cases given : gw = 0
  · rw [shmFindRouteStatic, if_neg (not_not_intro given)] at nothing
    have fails := findSlot_none nothing held
    simp [isStatic, sameIp, sameMask] at fails
  · exact findStatic_none given nothing held isStatic sameIp sameMask sameGw

end Names

section Following

variable {t t' : Sroute} {told : List Call} {clear : Prop} {i : Nat} {rt : StaticRoute}
  {ip mask gw metric : BitVec 32}

def Tells (side : Finset ((BitVec 32 × BitVec 32) × BitVec 32)) (t : Sroute) : Prop :=
  ∀ x, x ∈ side ↔ Routes t x

/-- A change of the table with its messages: who knows the routes before it knows those
after it, if and only if the condition holds. -/
structure Follows (t : Sroute) (told : List Call) (t' : Sroute) (clear : Prop) : Prop where
  distinct : Distinct pair (slotAt t')
  tells : ∀ side, Tells side t → (Tells (deliverAll side told) t' ↔ clear)

theorem Follows.congr (follows : Follows t told t' clear) {other : Prop} (same : clear ↔ other) :
    Follows t told t' other :=
  ⟨follows.distinct, fun side tells => (follows.tells side tells).trans same⟩

theorem follows_same (distinct : Distinct pair (slotAt t)) (holds : clear) :
    Follows t [] t clear :=
  ⟨distinct, fun _ tells => iff_of_true tells holds⟩

theorem mem_deliverAll_both {side : Finset ((BitVec 32 × BitVec 32) × BitVec 32)}
    {k : BitVec 32 × BitVec 32} {x : (BitVec 32 × BitVec 32) × BitVec 32} :
    x ∈ deliverAll side [⟨false, k, gw⟩, ⟨true, k, gw⟩] ↔ x = (k, gw) ∨ x ∈ side := by
  simp only [deliverAll, List.foldl_cons, List.foldl_nil, deliver, Bool.false_eq_true, if_false,
    if_true, Finset.mem_insert, Finset.mem_erase]
  tauto

theorem Tells.both {side : Finset ((BitVec 32 × BitVec 32) × BitVec 32)} (tells : Tells side t)
    {k : BitVec 32 × BitVec 32} :
    Tells (deliverAll side [⟨false, k, gw⟩, ⟨true, k, gw⟩]) t ↔ Routes t (k, gw) := by
  simp only [Tells, mem_deliverAll_both, tells _]
  exact ⟨fun all => (all _).mp (.inl rfl), fun there x =>
    ⟨fun either => either.elim (fun same => same ▸ there) id, .inr⟩⟩

section

variable (distinct : Distinct pair (slotAt t))

include distinct

theorem follows_replaced
    (found : shmFindRouteStatic t ip mask gw = some (i, rt)) (metric : BitVec 32) :
    Follows t [⟨false, (ip, mask), gw⟩, ⟨true, (ip, mask), gw⟩]
      (t.set i (some { rt with metric := metric })) (HasRoute t ip mask gw) := by
  obtain ⟨held, inside, isStatic, -⟩ := findStatic_some found
  have names : nameAt pair (slotAt (t.set i (some { rt with metric := metric }))) =
      nameAt pair (slotAt t) := by
    rw [slotAt_set inside]
    refine nameAt_update_same ?_
    rw [nameAt_held held, pair_static isStatic, Option.bind_some]
    exact pair_static isStatic
  have routes : Routes (t.set i (some { rt with metric := metric })) = Routes t := by
    funext x
    rw [Routes, Named, names]
    rfl
  refine ⟨?_, fun side tells => ?_⟩
  · rw [Distinct, names]
    exact distinct
  · rw [hasRoute_iff, ← tells.both, Tells, Tells, routes]

/-- The route with the old gateway is gone, but was not announced as deleted. -/
theorem follows_multipath (nothing : shmFindRouteStatic t ip mask gw = none)
    (found : shmFindRouteStatic t ip mask 0 = some (i, rt)) :
    Follows t [⟨false, (ip, mask), gw⟩, ⟨true, (ip, mask), gw⟩]
      (t.set i (some { rt with gw := gw })) False := by
  obtain ⟨held, inside, isStatic, sameIp, sameMask, -⟩ := findStatic_some found
  have fresh : (some { rt with gw := gw }).bind pair = some ((ip, mask), gw) := by
    rw [Option.bind_some, pair_eq_some]
    exact ⟨isStatic, sameIp, sameMask, rfl⟩
  have slots := slotAt_set inside (some { rt with gw := gw })
  refine ⟨?_, fun side tells => iff_of_false (fun told => ?_) id⟩
  · rw [slots]
    refine distinct.update fun x new there => absurd there ?_
    rw [fresh] at new
    cases new
    exact routes_none nothing
  · have old : Routes t ((ip, mask), rt.gw) := ⟨i, nameAt_found found⟩
    have kept := (told _).mp (mem_deliverAll_both.mpr (.inr ((tells _).mpr old)))
    rw [Routes, slots, distinct.named_update, fresh] at kept
    rcases kept with same | ⟨-, other⟩
    · cases same
      exact routes_none nothing old
    · exact other (nameAt_found found)

theorem follows_new
    (nothing : shmFindRouteStatic t ip mask gw = none) (empty : shmFindRouteEmpty t = some i)
    (metric : BitVec 32) :
    Follows t [⟨true, (ip, mask), gw⟩] (t.set i (some ⟨.static, ip, mask, gw, metric⟩)) True := by
  obtain ⟨free, inside⟩ := emptySlot empty
  have slots := slotAt_set inside (some ⟨.static, ip, mask, gw, metric⟩)
  have unnamed : nameAt pair (slotAt t) i = none := by rw [nameAt, free, Option.bind_none]
  have fresh : (some ⟨.static, ip, mask, gw, metric⟩ : Option StaticRoute).bind pair =
      some ((ip, mask), gw) := rfl
  refine ⟨?_, fun side tells => iff_of_true (fun x => ?_) trivial⟩
  · rw [slots]
    refine distinct.update fun x new there => absurd there ?_
    rw [fresh] at new
    cases new
    exact routes_none nothing
  · rw [Routes, slots, distinct.named_update, fresh, unnamed]
    simp only [deliverAll, List.foldl_cons, List.foldl_nil, deliver, if_true, Finset.mem_insert,
      tells x]
    simp [eq_comm]

/-- A slot whose route was not announced, and the next one is not either. -/
theorem follows_unnamed (inside : i < t.length)
    (old : nameAt pair (slotAt t) i = none) {slot : Option StaticRoute}
    (new : slot.bind pair = none) : Follows t [] (t.set i slot) True := by
  have names : nameAt pair (slotAt (t.set i slot)) = nameAt pair (slotAt t) := by
    rw [slotAt_set inside]
    exact nameAt_update_same (new.trans old.symm)
  refine ⟨?_, fun side tells => iff_of_true (fun x => ?_) trivial⟩
  · rw [Distinct, names]
    exact distinct
  · rw [Routes, Named, names]
    exact tells x

theorem follows_deleted (removal : Removal) (kernel : Kernel) :
    Follows t [⟨false, (ip, mask), gw⟩] (deleteRoute removal ⟨t, kernel⟩ ip mask gw).sroute
      (ClearDelete t ip mask gw) := by
  have erased : ∀ {side : Finset ((BitVec 32 × BitVec 32) × BitVec 32)} {x}, Tells side t →
      (x ∈ deliverAll side [⟨false, (ip, mask), gw⟩] ↔ x ≠ ((ip, mask), gw) ∧ Routes t x) := by
    intro side x tells
    simp only [deliverAll, List.foldl_cons, List.foldl_nil, deliver, Bool.false_eq_true, if_false,
      Finset.mem_erase, tells x]
  rw [deleteRoute]
  cases found : shmFindRouteStatic t ip mask gw with
  | none =>
    refine ⟨distinct, fun side tells => iff_of_true (fun x => ?_) fun i rt other => ?_⟩
    · rw [erased tells]
      exact and_iff_right_of_imp fun there same => routes_none found (same ▸ there)
    · rw [found] at other
      cases other
  | some r =>
    obtain ⟨i, rt⟩ := r
    obtain ⟨held, inside, -⟩ := findStatic_some found
    have name := nameAt_found found
    have routes : ∀ x, Routes (t.set i none) x ↔ Routes t x ∧ ((ip, mask), rt.gw) ≠ x := by
      intro x
      rw [Routes, slotAt_set inside, distinct.named_update, name]
      simp
    refine ⟨?_, fun side tells => ⟨fun told => ?_, fun clear x => ?_⟩⟩
    · rw [slotAt_set inside]
      exact distinct.update fun x new => by cases new
    · intro j a other
      rw [found] at other
      cases other
      by_contra different
      have stays := (erased tells).mpr ⟨fun same => different (congrArg Prod.snd same), ⟨i, name⟩⟩
      exact ((routes _).mp ((told _).mp stays)).2 rfl
    · have same := clear i rt found
      rw [erased tells, routes, same]
      exact ⟨fun here => ⟨here.2, Ne.symm here.1⟩, fun here => ⟨Ne.symm here.2, here.1⟩⟩

end

theorem delRouteCall_eq (slot : Option StaticRoute) :
    delRouteCall slot = (slot.bind pair).map fun x => ⟨false, x.1, x.2⟩ := by
  cases slot with
  | none => rfl
  | some rt =>
    rcases type_cases rt with isStatic | isHole
    · rw [delRouteCall, isStatic, Option.bind_some, pair_static isStatic]
      rfl
    · rw [delRouteCall, isHole, Option.bind_some, pair_hole isHole]
      rfl

theorem follows_all (t : Sroute) :
    Follows t (t.filterMap delRouteCall) (t.map fun _ => none) True := by
  have free : ∀ i, slotAt (t.map fun _ => none) i = none := by
    intro i
    rw [slotAt, List.getElem?_map]
    cases t[i]? <;> rfl
  have erases : ∀ n ∈ t.filterMap delRouteCall, n.add = false := by
    intro n member
    obtain ⟨slot, -, isCall⟩ := List.mem_filterMap.mp member
    rw [delRouteCall_eq] at isCall
    obtain ⟨x, -, rfl⟩ := Option.map_eq_some_iff.mp isCall
    rfl
  refine ⟨distinct_empty free, fun side tells => iff_of_true (fun x => ?_) trivial⟩
  rw [mem_deliverAll_of_erasures erases, tells x]
  refine iff_of_false ?_ (named_empty free)
  rintro ⟨⟨i, named⟩, apart⟩
  obtain ⟨rt, held, route⟩ := Option.bind_eq_some_iff.mp named
  refine apart ⟨false, x.1, x.2⟩ (List.mem_filterMap.mpr ⟨some rt, ?_, ?_⟩) rfl
  · exact slotAt_mem.mpr ⟨i, held⟩
  · rw [delRouteCall_eq, Option.bind_some, route, Option.map_some]

end Following

section Commands

variable {removal : Removal} {s : State} {cidr nexthop : Word} {distance : Option Word}

/-- The state behind the result of a command. -/
def outcome (s : State) : Except String (State × String) → State
  | .error _ => s
  | .ok (s', _) => s'

section

variable (distinct : Distinct pair (slotAt s.sroute))

include distinct

theorem follows_addRoute (removal : Removal) (ip mask gw metric : BitVec 32) :
    Follows s.sroute (addRouteCalls s.sroute ip mask gw metric)
      (outcome s (addRoute removal s ip mask gw metric)).sroute
      (ClearAdd s.sroute ip mask gw metric) := by
  cases found : shmFindRouteStatic s.sroute ip mask gw with
  | some r =>
    obtain ⟨i, rt⟩ := r
    simp only [addRouteCalls, addRoute, found, outcome]
    refine (follows_replaced distinct found metric).congr ?_
    rw [ClearAdd, found]
    simp
  | none =>
    cases second : (shmFindRouteStatic s.sroute ip mask 0).filter
        fun found => found.2.metric = metric with
    | some r =>
      obtain ⟨i, rt⟩ := r
      simp only [addRouteCalls, addRoute, found, second, outcome]
      obtain ⟨first, sameMetric⟩ := Option.filter_eq_some_iff.mp second
      refine (follows_multipath distinct found first).congr (iff_of_false id fun clear => ?_)
      exact clear.2 found i rt first (of_decide_eq_true sameMetric)
    | none =>
      have clear : ClearAdd s.sroute ip mask gw metric := by
        refine ⟨fun isSome => ?_, fun _ i rt first sameMetric => ?_⟩
        · rw [found] at isSome
          cases isSome
        · rw [first] at second
          simp [sameMetric] at second
      cases empty : shmFindRouteEmpty s.sroute with
      | none =>
        simp only [addRouteCalls, addRoute, found, second, empty, outcome]
        exact follows_same distinct clear
      | some i =>
        simp only [addRouteCalls, addRoute, found, second, empty, outcome]
        exact (follows_new distinct found empty metric).congr (iff_of_true trivial clear)

theorem follows_ipRoute (removal : Removal) (cidr nexthop : Word) (distance : Option Word) :
    Follows s.sroute (cliIpRouteCidrCalls s.sroute cidr nexthop distance)
      (outcome s (cliIpRouteCidrCmd removal s cidr nexthop distance)).sroute
      (ClearRoute s.sroute cidr nexthop distance) := by
  rw [cliIpRouteCidrCalls, cliIpRouteCidrCmd, ClearRoute]
  cases read : readRoute cidr nexthop with
  | error text =>
    refine follows_same distinct fun ip mask gw other => ?_
    cases other
  | ok r =>
    obtain ⟨ip, mask, gw⟩ := r
    simp only [bind, Except.bind]
    split_ifs with rip ospf
    · exact follows_same distinct fun _ _ _ _ notRip => absurd rip notRip
    · exact follows_same distinct fun _ _ _ _ _ notOspf => absurd ospf notOspf
    · refine (follows_addRoute distinct removal ip mask gw _).congr ?_
      refine ⟨fun clear ip' mask' gw' same _ _ => ?_, fun all => all ip mask gw rfl rip ospf⟩
      cases same
      exact clear

theorem follows_noIpRoute (removal : Removal) (cidr nexthop : Word) :
    Follows s.sroute (cliNoIpRouteCidrCalls cidr nexthop)
      (outcome s (cliNoIpRouteCidrCmd removal s cidr nexthop)).sroute
      (ClearRemoval s.sroute cidr nexthop) := by
  rw [cliNoIpRouteCidrCalls, cliNoIpRouteCidrCmd, ClearRemoval]
  cases read : readRoute cidr nexthop with
  | error text =>
    refine follows_same distinct fun ip mask gw other => ?_
    cases other
  | ok r =>
    obtain ⟨ip, mask, gw⟩ := r
    refine (follows_deleted distinct removal s.kernel).congr ?_
    refine ⟨fun clear ip' mask' gw' same => ?_, fun all => all ip mask gw rfl⟩
    cases same
    exact clear

theorem follows_blackhole (cidr : Word) :
    Follows s.sroute [] (outcome s (cliIpRouteBlackhole s cidr)).sroute True := by
  rw [cliIpRouteBlackhole]
  cases readNetwork cidr with
  | error text => exact follows_same distinct trivial
  | ok r =>
    obtain ⟨ip, mask⟩ := r
    simp only [bind, Except.bind]
    cases shmFindRouteBlackhole s.sroute ip mask with
    | some r => exact follows_same distinct trivial
    | none =>
      cases empty : shmFindRouteEmpty s.sroute with
      | none => exact follows_same distinct trivial
      | some i =>
        obtain ⟨free, inside⟩ := emptySlot empty
        refine follows_unnamed distinct inside ?_ rfl
        rw [nameAt, free, Option.bind_none]

theorem follows_noBlackhole (removal : Removal) (cidr : Word) :
    Follows s.sroute [] (outcome s (cliNoIpRouteBlackhole removal s cidr)).sroute True := by
  rw [cliNoIpRouteBlackhole]
  cases readNetwork cidr with
  | error text => exact follows_same distinct trivial
  | ok r =>
    obtain ⟨ip, mask⟩ := r
    simp only [bind, Except.bind]
    cases found : shmFindRouteBlackhole s.sroute ip mask with
    | none => exact follows_same distinct trivial
    | some r =>
      obtain ⟨i, rt⟩ := r
      obtain ⟨held, wanted, inside⟩ := findSlot_some found
      simp only [Bool.and_eq_true, decide_eq_true_eq] at wanted
      refine follows_unnamed distinct inside ?_ rfl
      rw [nameAt_held held, pair_hole wanted.1]

theorem follows_handle (removal : Removal) (c : Command) :
    Follows s.sroute (calls s.sroute c) (outcome s (c.handle removal s)).sroute
      (Clear s.sroute c) := by
  cases c with
  | ipRoute cidr nexthop distance => exact follows_ipRoute distinct removal cidr nexthop distance
  | noIpRoute cidr nexthop => exact follows_noIpRoute distinct removal cidr nexthop
  | noIpRouteAll => exact follows_all s.sroute
  | defaultGateway gw => exact follows_ipRoute distinct removal defaultRoute gw none
  | noDefaultGateway gw => exact follows_noIpRoute distinct removal defaultRoute gw
  | blackhole cidr => exact follows_blackhole distinct cidr
  | noBlackhole cidr => exact follows_noBlackhole distinct removal cidr

end

end Commands

section Runs

/-- The messages so far lead to the announced routes of the table. -/
structure InStep (s : Progress) : Prop where
  distinct : Distinct pair (slotAt s.state.sroute)
  tells : Tells (deliverAll ∅ (s.sent.map RcpPkt.notice)) s.state.sroute

theorem faithful_iff_tells {s : Progress} :
    Faithful s ↔ Tells (deliverAll ∅ (s.sent.map RcpPkt.notice)) s.state.sroute := by
  simp only [Faithful, Tells, hasRoute_iff, Prod.forall]

theorem Link.Enabled.addressed {link : Link} (enabled : link.Enabled) :
    destination link ≠ 0 := by
  have nonzero : ∀ rip ospf : Bool, rip = true ∨ ospf = true →
      (if rip then rcpProcRip else 0) ||| (if ospf then rcpProcOspf else 0) ≠ 0 := by
    decide
  exact nonzero _ _ enabled.2

theorem Link.Enabled.notices {link : Link} (enabled : link.Enabled) (told : List Call) :
    (told.filterMap (redistributeRoute link)).map RcpPkt.notice = told := by
  have each : ∀ call : Call, (redistributeRoute link call).map RcpPkt.notice = some call := by
    rintro ⟨add, key, gw⟩
    rw [redistributeRoute, enabled.1, Bool.true_and, if_pos (decide_eq_true enabled.addressed)]
    cases add <;> rfl
  rw [List.map_filterMap]
  exact (List.filterMap_congr fun call _ => each call).trans List.filterMap_some

theorem progress_iff {s : Progress} (inStep : InStep s) (op : Link × Command)
    (enabled : op.1.Enabled) (removal : Removal) :
    Distinct pair (slotAt (progress removal s op).state.sroute) ∧
      (Faithful (progress removal s op) ↔
        (op.2.accepted = true → Clear s.state.sroute op.2)) := by
  rw [faithful_iff_tells, progress, step]
  by_cases accepted : op.2.accepted = true
  · have follows := follows_handle inStep.distinct removal op.2
    have told := follows.tells _ inStep.tells
    rw [if_pos accepted, if_pos accepted, List.map_append, enabled.notices, deliverAll_append]
    exact ⟨follows.distinct, told.trans ⟨fun clear _ => clear, fun holds => holds accepted⟩⟩
  · rw [if_neg accepted, if_neg accepted]
    exact ⟨inStep.distinct, iff_of_true inStep.tells fun holds => absurd holds accepted⟩

theorem free_start (others : Kernel) (i : Nat) : slotAt (start others).sroute i = none := by
  rw [slotAt, start, List.getElem?_replicate]
  split_ifs <;> rfl

theorem inStep_initial (others : Kernel) : InStep (initial others) := by
  refine ⟨distinct_empty (free_start others), fun x => ?_⟩
  refine iff_of_false (Finset.notMem_empty x) (named_empty (free_start others))

/-- With redistribution enabled throughout, the messages lead to the static routes after each
command exactly as long as every command that the parser passes on is clear. -/
theorem announcements_iff (removal : Removal) (others : Kernel) (commands : List (Link × Command))
    (enabled : ∀ op ∈ commands, op.1.Enabled) :
    (∀ n, Faithful ((commands.take n).foldl (progress removal) (initial others))) ↔
      Along (progress removal)
        (fun s op => op.2.accepted = true → Clear s.state.sroute op.2) commands
        (initial others) := by
  rw [← always_iff_take]
  refine always_iff_along_of_mem (I := InStep) enabled ?_ ?_ ?_ (inStep_initial others)
  · exact fun s inStep => faithful_iff_tells.mpr inStep.tells
  · intro s op isEnabled inStep clear
    obtain ⟨distinct, faithful⟩ := progress_iff inStep op isEnabled removal
    exact ⟨distinct, faithful_iff_tells.mp (faithful.mpr clear)⟩
  · intro s op isEnabled inStep unclear faithful
    exact unclear ((progress_iff inStep op isEnabled removal).2.mp faithful)

def toRip : Link := ⟨true, false, true⟩

/-- A route and its removal, announced to RIP. -/
def removed : List (Link × Command) :=
  [(toRip, .ipRoute network firstHop none), (toRip, .noIpRoute network firstHop)]

theorem announcements_removed :
    Faithful ((removed.take 1).foldl (progress byDistance) (initial fun _ => none)) ∧
      Faithful ((removed.take 2).foldl (progress byDistance) (initial fun _ => none)) := by
  have clear : Along (progress byDistance)
      (fun s op => op.2.accepted = true → Clear s.state.sroute op.2) removed
      (initial fun _ => none) := by
    refine ⟨fun _ ip mask gw read _ _ => ?_, fun _ ip mask gw read i rt found => ?_, trivial⟩
    · have nothing : ∀ gw, shmFindRouteStatic (start fun _ => none).sroute ip mask gw = none := by
        intro gw
        simp only [shmFindRouteStatic, start, findSlot_free, ite_self]
      have isStart : (initial fun _ => none).state = start fun _ => none := rfl
      rw [isStart]
      refine ⟨fun isSome => ?_, fun _ i rt found => ?_⟩
      · rw [nothing] at isSome
        cases isSome
      · rw [nothing] at found
        cases found
    · obtain ⟨-, -, -, -, -, sameGw⟩ := findStatic_some found
      rw [read_firstHop] at read
      cases read
      exact sameGw (by decide)
  have always := (announcements_iff byDistance (fun _ => none) removed
    (by simp [removed, toRip, Link.Enabled])).mpr clear
  exact ⟨always 1, always 2⟩

/-- Two gateways for one network, with the same distance. -/
def multipath : List (Link × Command) :=
  [(toRip, .ipRoute network firstHop none), (toRip, .ipRoute network secondHop none)]

theorem step_firstHop (removal : Removal) (others : Kernel) :
    (step removal (start others) (.ipRoute network firstHop none)).sroute =
      [entry 0xc0a80101 1] ++ List.replicate 3999 none := by
  have nothing : replaced (start others).sroute 0x0a000000 0xff000000 0xc0a80101 1 = none := by
    simp only [replaced, shmFindRouteStatic, start, findSlot_free, ite_self, Option.filter_none,
      Option.or_none]
  have slots : (start others).sroute = none :: List.replicate 3999 none := by
    rw [start, rcpRouteLimit, show 4000 = 3999 + 1 from rfl, List.replicate_succ]
  have empty : shmFindRouteEmpty (start others).sroute = some 0 := by
    rw [slots]
    rfl
  have added := @addRoute_empty removal (start others) 0 0x0a000000 0xff000000 0xc0a80101 1 nothing
    empty
  have stepped := @step_ipRoute removal (start others) _ network firstHop none _ _ _ 1 _
    (by decide) read_firstHop rfl (by decide) added
  rw [stepped, slots]
  rfl

/-- The old gateway stays announced. -/
theorem multipath_unfaithful : ¬ ∀ (removal : Removal) (others : Kernel)
    (commands : List (Link × Command)), (∀ op ∈ commands, op.1.Enabled) →
    ∀ n, Faithful ((commands.take n).foldl (progress removal) (initial others)) := by
  intro always
  have faithful := always byDistance (fun _ => none) multipath
    (by simp [multipath, toRip, Link.Enabled])
  have enabled : toRip.Enabled := ⟨rfl, .inl rfl⟩
  have first := progress_iff (inStep_initial fun _ => none)
    (toRip, .ipRoute network firstHop none) enabled byDistance
  have second := progress_iff ⟨first.1, faithful_iff_tells.mp (faithful 1)⟩
    (toRip, .ipRoute network secondHop none) enabled byDistance
  have clear := second.2.mp (faithful 2) (by decide)
  have routed : ∀ gw, shmFindRouteStatic
      (step byDistance (start fun _ => none) (.ipRoute network firstHop none)).sroute
      0x0a000000 0xff000000 gw =
        shmFindRouteStatic [entry 0xc0a80101 1] 0x0a000000 0xff000000 gw := by
    intro gw
    rw [step_firstHop, findStatic_append_free]
  obtain ⟨-, apart⟩ := clear _ _ _ read_secondHop (by decide) (by decide)
  exact apart ((routed _).trans (by decide)) 0 _ ((routed 0).trans rfl) rfl

end Runs

end StaticAnnouncements
