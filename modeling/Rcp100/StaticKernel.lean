import Rcp100.StaticRoutes
import Rcp100.AclReading
import Rcp100.PrintedNumbers

/-!
# Static routes in the kernel

The kernel mirrors the table as long as the commands keep clear of each other's distances and
of the routes of other protocols. An entry that is replaced may take over the distance of a
third one, and a removal is requested before the table is searched.
-/

namespace StaticKernel

open SpecialTokens IpAddress KeyedMirror StaticRoutes PrintedNumbers
open Function (update update_of_ne update_self)

section Slots

variable {t : Sroute} {wanted : StaticRoute → Bool} {i : Nat} {rt : StaticRoute}

theorem slotAt_set (inside : i < t.length) (slot : Option StaticRoute) :
    slotAt (t.set i slot) = update (slotAt t) i slot := by
  funext j
  by_cases here : j = i
  · subst here
    rw [update_self, slotAt, List.getElem?_set_self inside, Option.join_some]
  · rw [update_of_ne here, slotAt, List.getElem?_set_ne (Ne.symm here), slotAt]

theorem findSlot_some (found : findSlot wanted t = some (i, rt)) :
    slotAt t i = some rt ∧ wanted rt = true ∧ i < t.length := by
  have deeper : ∀ {rest : Sroute} {slot : Option StaticRoute} {i : Nat},
      (∀ i, findSlot wanted rest = some (i, rt) →
        slotAt rest i = some rt ∧ wanted rt = true ∧ i < rest.length) →
      (findSlot wanted rest).map (fun found => (found.1+1, found.2)) = some (i, rt) →
      slotAt (slot :: rest) i = some rt ∧ wanted rt = true ∧ i < (slot :: rest).length := by
    intro rest slot i ih mapped
    obtain ⟨⟨k, found⟩, below, same⟩ := Option.map_eq_some_iff.mp mapped
    cases same
    obtain ⟨held, fits, inside⟩ := ih k below
    exact ⟨held, fits, Nat.succ_lt_succ inside⟩
  induction t generalizing i with
  | nil => cases found
  | cons slot rest ih =>
    cases slot with
    | none => exact deeper (fun _ => ih) found
    | some first =>
      by_cases fits : wanted first = true
      · rw [findSlot, if_pos fits] at found
        cases found
        exact ⟨rfl, fits, Nat.succ_pos _⟩
      · rw [findSlot, if_neg fits] at found
        exact deeper (fun _ => ih) found

theorem findSlot_none (nothing : findSlot wanted t = none) (held : slotAt t i = some rt) :
    wanted rt = false := by
  induction t generalizing i with
  | nil =>
    rw [slotAt, List.getElem?_nil] at held
    cases held
  | cons slot rest ih =>
    cases slot with
    | none =>
      rw [findSlot, Option.map_eq_none_iff] at nothing
      cases i with
      | zero => cases held
      | succ i => exact ih nothing held
    | some first =>
      by_cases fits : wanted first = true
      · rw [findSlot, if_pos fits] at nothing
        cases nothing
      · rw [findSlot, if_neg fits, Option.map_eq_none_iff] at nothing
        cases i with
        | zero =>
          cases held
          exact Bool.eq_false_iff.mpr fits
        | succ i => exact ih nothing held

theorem emptySlot (found : shmFindRouteEmpty t = some i) :
    slotAt t i = none ∧ i < t.length := by
  rw [shmFindRouteEmpty, List.findIdx?_eq_some_iff_getElem] at found
  obtain ⟨inside, free, -⟩ := found
  rw [slotAt, List.getElem?_eq_getElem inside, Option.join_some]
  exact ⟨Option.isNone_iff_eq_none.mp free, inside⟩

end Slots

section Conditions

/-- The routes of the other protocols have the gateway for another prefix only; for 0.0.0.0
they have no route of the prefix. -/
def Unshared (others : Kernel) (net : Prefix) (gw : BitVec 32) : Prop :=
  ∀ d r, others (net, d) = some r → fits gw r = false

/-- No route of the other protocols passes the test for the entry. -/
def Releasable (others : Kernel) (rt : StaticRoute) : Prop :=
  ∀ d r, others (rt.net, d) = some r → rt.test r = false

/-- The entry that `ip route` replaces: the one with the gateway, or the first entry of the
prefix if it has the distance. -/
def replaced (t : Sroute) (ip mask gw metric : BitVec 32) : Option (Nat × StaticRoute) :=
  (shmFindRouteStatic t ip mask gw).or
    ((shmFindRouteStatic t ip mask 0).filter fun found => found.2.metric = metric)

/-- What an `ip route` has to keep clear of. -/
structure Clear (others : Kernel) (t : Sroute) (ip mask gw metric : BitVec 32) : Prop where
  gateway : gw ≠ 0
  distance : ∀ i rt, slotAt t i = some rt → rt.type = .static → rt.ip = ip → rt.mask = mask →
    rt.metric = metric → ∃ old, replaced t ip mask gw metric = some (i, old)
  unused : others ((ip, mask2bits mask), metric.setWidth 8) = none
  release : ∀ i old, replaced t ip mask gw metric = some (i, old) → Releasable others old

def ClearRoute (others : Kernel) (t : Sroute) (cidr nexthop : Word) (distance : Option Word) :
    Prop :=
  let metric := (distance.map atoi).getD 1
  ∀ ip mask gw, readRoute cidr nexthop = .ok (ip, mask, gw) →
    metric ≠ rcpRouteDistanceRip → metric ≠ rcpRouteDistanceOspf →
    (replaced t ip mask gw metric).isSome ∨ (shmFindRouteEmpty t).isSome →
    Clear others t ip mask gw metric

/-- What a `no ip route` has to keep clear of. The search ignores the gateway 0.0.0.0. -/
def ClearRemoval (others : Kernel) (t : Sroute) (cidr nexthop : Word) : Prop :=
  ∀ ip mask gw, readRoute cidr nexthop = .ok (ip, mask, gw) →
    Unshared others (ip, mask2bits mask) gw ∧
      (gw = 0 → ∀ i rt, slotAt t i = some rt → rt.ip = ip → rt.mask ≠ mask)

def Safe (others : Kernel) (s : State) : Command → Prop
  | .ipRoute cidr nexthop distance => ClearRoute others s.sroute cidr nexthop distance
  | .noIpRoute cidr nexthop => ClearRemoval others s.sroute cidr nexthop
  | .noIpRouteAll => ∀ i rt, slotAt s.sroute i = some rt → Releasable others rt
  | .defaultGateway gw => ClearRoute others s.sroute defaultRoute gw none
  | .noDefaultGateway gw => ClearRemoval others s.sroute defaultRoute gw
  | .blackhole cidr => ∀ ip mask, readNetwork cidr = .ok (ip, mask) →
      shmFindRouteBlackhole s.sroute ip mask = none → (shmFindRouteEmpty s.sroute).isSome →
      others ((ip, mask2bits mask), 0) = none
  | .noBlackhole cidr => ∀ ip mask, readNetwork cidr = .ok (ip, mask) →
      ∀ i rt, shmFindRouteBlackhole s.sroute ip mask = some (i, rt) → Releasable others rt

/-- The condition holds of every command that the parser passes on. -/
def SafeRun (removal : Removal) (others : Kernel) : State → List Command → Prop
  | _, [] => True
  | s, c :: rest =>
    (c.accepted = true → Safe others s c) ∧ SafeRun removal others (step removal s c) rest

/-- The kernel has the valid routes of the table and those of the other protocols, and no
two static routes have the prefix in common with the distance or with the gateway. -/
structure Mirrored (others : Kernel) (s : State) : Prop where
  distances : ∀ i j a b, slotAt s.sroute i = some a → slotAt s.sroute j = some b →
    a.type = .static → b.type = .static → a.ip = b.ip → a.mask = b.mask →
    a.metric = b.metric → i = j
  gateways : ∀ i j a b, slotAt s.sroute i = some a → slotAt s.sroute j = some b →
    a.type = .static → b.type = .static → a.ip = b.ip → a.mask = b.mask → a.gw = b.gw → i = j
  static : ∀ net d r, s.kernel (net, d) = some r ∧ r.protocol = rtprotStatic ↔
    ∃ i rt, slotAt s.sroute i = some rt ∧ rt.type = .static ∧ (rt.ip, mask2bits rt.mask) = net ∧
      rt.metric.toNat = d.toNat ∧ r = ⟨.unicast, rt.gw, rtprotStatic⟩
  holes : ∀ i rt, slotAt s.sroute i = some rt → rt.type = .blackhole →
    s.kernel ((rt.ip, mask2bits rt.mask), 0) = some ⟨.blackhole, 0, rtprotBoot⟩
  kept : ∀ place r, others place = some r → s.kernel place = some r

end Conditions

section Invariant

/-- What the commands check of an entry, a distance within its bounds included. -/
structure Plain (rt : StaticRoute) : Prop where
  mask : ∃ bits ≤ 32, rt.mask = maskLoop bits 0x80000000 0
  gw : rt.type = .static → rt.gw ≠ 0
  metric : rt.type = .static → 1 ≤ rt.metric.toNat ∧ rt.metric.toNat ≤ 255

structure Inv (others : Kernel) (s : State) : Prop where
  mirrors : Mirrors StaticRoute.place StaticRoute.record others (slotAt s.sroute) s.kernel
  gateways : ∀ i j a b, slotAt s.sroute i = some a → slotAt s.sroute j = some b →
    a.type = .static → b.type = .static → a.net = b.net → a.gw = b.gw → i = j
  plain : ∀ i rt, slotAt s.sroute i = some rt → Plain rt

variable {others kernel : Kernel} {s : State} {t : Sroute} {i : Nat} {rt old : StaticRoute}
  {removal : Removal}

theorem net_eq {a b : StaticRoute} (plainA : Plain a) (plainB : Plain b) (same : a.net = b.net) :
    a.ip = b.ip ∧ a.mask = b.mask := by
  obtain ⟨bits, fits, isMask⟩ := plainA.mask
  obtain ⟨bits', fits', isMask'⟩ := plainB.mask
  have lengths : bits = bits' := by
    have same := congrArg Prod.snd same
    rw [StaticRoute.net, StaticRoute.net, isMask, isMask', mask2bits_maskLoop fits,
      mask2bits_maskLoop fits'] at same
    exact same
  refine ⟨congrArg Prod.fst same, ?_⟩
  rw [isMask, isMask', lengths]

theorem distance_static (isStatic : rt.type = .static) : rt.distance = rt.metric.setWidth 8 := by
  rw [StaticRoute.distance, isStatic]

theorem record_static (isStatic : rt.type = .static) :
    rt.record = ⟨.unicast, rt.gw, rtprotStatic⟩ := by
  rw [StaticRoute.record, isStatic]

theorem record_hole (isHole : rt.type = .blackhole) :
    rt.record = ⟨.blackhole, 0, rtprotBoot⟩ := by
  rw [StaticRoute.record, isHole]

theorem type_cases (rt : StaticRoute) : rt.type = .static ∨ rt.type = .blackhole := by
  cases rt.type with
  | static => exact .inl rfl
  | blackhole => exact .inr rfl

theorem toNat_distance (plain : Plain rt) (isStatic : rt.type = .static) :
    rt.distance.toNat = rt.metric.toNat := by
  rw [distance_static isStatic, BitVec.toNat_setWidth]
  have bounds := plain.metric isStatic
  exact Nat.mod_eq_of_lt (by omega)

theorem fits_iff {gw : BitVec 32} (given : gw ≠ 0) {r : KernelRoute} :
    fits gw r = true ↔ r.gw = gw := by
  rw [fits, decide_eq_false given, Bool.false_or, decide_eq_true_iff]

theorem test_record (inv : Inv others s) (held : slotAt s.sroute i = some rt) {j : Nat}
    {a : StaticRoute} (other : slotAt s.sroute j = some a) (sameNet : a.net = rt.net)
    (passes : rt.test a.record = true) : j = i := by
  rcases type_cases rt with isStatic | isHole
  · rw [StaticRoute.test, isStatic] at passes
    have passes := (fits_iff ((inv.plain i rt held).gw isStatic)).mp passes
    rcases type_cases a with aStatic | aHole
    · rw [record_static aStatic] at passes
      exact inv.gateways j i a rt other held aStatic isStatic sameNet passes
    · rw [record_hole aHole] at passes
      exact absurd passes.symm ((inv.plain i rt held).gw isStatic)
  · rw [StaticRoute.test, isHole, decide_eq_true_eq] at passes
    rcases type_cases a with aStatic | aHole
    · rw [record_static aStatic] at passes
      cases passes
    · refine inv.mirrors.distinct j i a rt other held ?_
      rw [StaticRoute.place, StaticRoute.place, sameNet, StaticRoute.distance, aHole,
        StaticRoute.distance, isHole]

theorem test_own (rt : StaticRoute) : rt.test rt.record = true := by
  rcases type_cases rt with isStatic | isHole
  · rw [StaticRoute.test, isStatic, record_static isStatic, fits]
    exact Bool.or_eq_true_iff.mpr (.inr (decide_eq_true rfl))
  · rw [StaticRoute.test, isHole, record_hole isHole, decide_eq_true_eq]

theorem remove_entry (inv : Inv others s) (held : slotAt s.sroute i = some rt)
    (clear : Releasable others rt) (removal : Removal) :
    removal.remove s.kernel rt.net rt.test = update s.kernel rt.place none := by
  refine removal.remove_only (inv.mirrors.record_held held) (test_own rt) fun d r found passes => ?_
  rcases (inv.mirrors.holds _ _).mp found with base | ⟨j, a, other, place, record⟩
  · rw [clear d r base] at passes
    cases passes
  · rw [← record] at passes
    have same := test_record inv held other (congrArg Prod.fst place) passes
    subst same
    rw [held] at other
    cases other
    exact (congrArg Prod.snd place).symm

theorem Inv.dropped (inv : Inv others s) (inside : i < s.sroute.length)
    (held : slotAt s.sroute i = some rt) :
    Inv others ⟨s.sroute.set i none, update s.kernel rt.place none⟩ := by
  have slots := slotAt_set inside none
  have stays : ∀ {j a}, slotAt (s.sroute.set i none) j = some a → slotAt s.sroute j = some a := by
    intro j a kept
    rw [slots] at kept
    by_cases gone : j = i
    · subst gone
      rw [update_self] at kept
      cases kept
    · rw [update_of_ne gone] at kept
      exact kept
  refine ⟨?_, ?_, ?_⟩
  · rw [slots]
    exact inv.mirrors.removed held
  · intro j k a b first second
    exact inv.gateways j k a b (stays first) (stays second)
  · intro j a kept
    exact inv.plain j a (stays kept)

theorem Inv.stored (inv : Inv others s) (inside : i < s.sroute.length)
    (free : slotAt s.sroute i = none) (plain : Plain rt) (unused : s.kernel rt.place = none)
    (gateway : ∀ j a, slotAt s.sroute j = some a → a.type = .static → rt.type = .static →
      a.net = rt.net → a.gw ≠ rt.gw) :
    Inv others ⟨s.sroute.set i (some rt), add s.kernel rt.place rt.record⟩ := by
  have slots := slotAt_set inside (some rt)
  have cases : ∀ {j a}, slotAt (s.sroute.set i (some rt)) j = some a →
      j = i ∧ a = rt ∨ j ≠ i ∧ slotAt s.sroute j = some a := by
    intro j a kept
    rw [slots] at kept
    by_cases new : j = i
    · subst new
      rw [update_self] at kept
      exact .inl ⟨rfl, (Option.some.inj kept).symm⟩
    · rw [update_of_ne new] at kept
      exact .inr ⟨new, kept⟩
  refine ⟨?_, ?_, ?_⟩
  · rw [slots, add_unused unused]
    exact inv.mirrors.added free unused
  · intro j k a b first second aStatic bStatic sameNet sameGw
    rcases cases first with ⟨rfl, rfl⟩ | ⟨-, oldFirst⟩ <;>
      rcases cases second with ⟨rfl, rfl⟩ | ⟨-, oldSecond⟩
    · rfl
    · exact absurd sameGw.symm (gateway k b oldSecond bStatic aStatic sameNet.symm)
    · exact absurd sameGw (gateway j a oldFirst aStatic bStatic sameNet)
    · exact inv.gateways j k a b oldFirst oldSecond aStatic bStatic sameNet sameGw
  · intro j a kept
    rcases cases kept with ⟨-, rfl⟩ | ⟨-, old⟩
    · exact plain
    · exact inv.plain j a old

theorem Inv.unused (inv : Inv others s) {place : Prefix × BitVec 8}
    (noOther : others place = none)
    (noEntry : ∀ i rt, slotAt s.sroute i = some rt → rt.place ≠ place) :
    s.kernel place = none := by
  cases held : s.kernel place with
  | none => rfl
  | some r =>
    rcases (inv.mirrors.holds _ _).mp held with base | ⟨i, rt, slot, same, -⟩
    · rw [noOther] at base
      cases base
    · exact absurd same (noEntry i rt slot)

end Invariant

section Adding

variable {others : Kernel} {s : State} {t : Sroute} {i : Nat} {rt old : StaticRoute}
  {removal : Removal} {ip mask gw metric : BitVec 32} {cidr nexthop : Word}

theorem readNetwork_mask (read : readNetwork cidr = .ok (ip, mask)) :
    ∃ bits ≤ 32, mask = maskLoop bits 0x80000000 0 := by
  rw [readNetwork] at read
  cases parsed : atocidr cidr with
  | none =>
    rw [parsed] at read
    cases read
  | some r =>
    simp only [parsed] at read
    split_ifs at read
    cases read
    exact atocidr_some parsed

theorem readRoute_network (read : readRoute cidr nexthop = .ok (ip, mask, gw)) :
    readNetwork cidr = .ok (ip, mask) := by
  rw [readRoute] at read
  cases first : readNetwork cidr with
  | error text =>
    rw [first] at read
    cases read
  | ok r =>
    rw [first] at read
    cases second : atoip nexthop with
    | none =>
      simp only [bind, Except.bind, second] at read
      cases read
    | some g =>
      simp only [bind, Except.bind, second] at read
      cases read
      rfl

theorem findStatic_some (found : shmFindRouteStatic t ip mask gw = some (i, rt)) :
    slotAt t i = some rt ∧ i < t.length ∧ rt.type = .static ∧ rt.ip = ip ∧ rt.mask = mask ∧
      (gw ≠ 0 → rt.gw = gw) := by
  rw [shmFindRouteStatic] at found
  by_cases given : gw ≠ 0
  · rw [if_pos given] at found
    obtain ⟨held, wanted, inside⟩ := findSlot_some found
    simp only [Bool.and_eq_true, decide_eq_true_eq] at wanted
    exact ⟨held, inside, wanted.1, wanted.2.1.1, wanted.2.1.2, fun _ => wanted.2.2⟩
  · rw [if_neg given] at found
    obtain ⟨held, wanted, inside⟩ := findSlot_some found
    simp only [Bool.and_eq_true, decide_eq_true_eq] at wanted
    exact ⟨held, inside, wanted.1, wanted.2.1, wanted.2.2, fun nonzero => absurd nonzero given⟩

theorem findStatic_none (given : gw ≠ 0) (nothing : shmFindRouteStatic t ip mask gw = none)
    (held : slotAt t i = some rt) (isStatic : rt.type = .static) (sameIp : rt.ip = ip)
    (sameMask : rt.mask = mask) : rt.gw ≠ gw := by
  rw [shmFindRouteStatic, if_pos given] at nothing
  have fails := findSlot_none nothing held
  simpa [isStatic, sameIp, sameMask] using fails

theorem replaced_some (found : replaced t ip mask gw metric = some (i, old)) :
    slotAt t i = some old ∧ i < t.length ∧ old.type = .static ∧ old.ip = ip ∧
      old.mask = mask := by
  rw [replaced] at found
  rcases Option.or_eq_some_iff.mp found with first | ⟨-, second⟩
  · obtain ⟨held, inside, isStatic, sameIp, sameMask, -⟩ := findStatic_some first
    exact ⟨held, inside, isStatic, sameIp, sameMask⟩
  · obtain ⟨held, inside, isStatic, sameIp, sameMask, -⟩ :=
      findStatic_some (Option.filter_eq_some_iff.mp second).1
    exact ⟨held, inside, isStatic, sameIp, sameMask⟩

theorem replaced_gateway (inv : Inv others s) (given : gw ≠ 0)
    (held : slotAt s.sroute i = some rt) (isStatic : rt.type = .static) (sameIp : rt.ip = ip)
    (sameMask : rt.mask = mask) (sameGw : rt.gw = gw) :
    ∃ old, replaced s.sroute ip mask gw metric = some (i, old) := by
  cases found : shmFindRouteStatic s.sroute ip mask gw with
  | none => exact absurd sameGw (findStatic_none given found held isStatic sameIp sameMask)
  | some r =>
    obtain ⟨j, old⟩ := r
    obtain ⟨heldOld, -, oldStatic, oldIp, oldMask, oldGw⟩ := findStatic_some found
    have same : i = j := by
      refine inv.gateways i j rt old held heldOld isStatic oldStatic ?_ ?_
      · rw [StaticRoute.net, StaticRoute.net, sameIp, sameMask, oldIp, oldMask]
      · rw [sameGw, oldGw given]
    subst same
    exact ⟨old, by rw [replaced, found, Option.some_or]⟩

theorem rcpAddRoute_eq (given : gw ≠ 0) (kernel : Kernel) :
    rcpAddRoute kernel ip mask gw metric =
      add kernel (StaticRoute.place ⟨.static, ip, mask, gw, metric⟩)
        (StaticRoute.record ⟨.static, ip, mask, gw, metric⟩) :=
  if_neg given

theorem rcpDelRoute_eq (isStatic : rt.type = .static) (kernel : Kernel) :
    rcpDelRoute removal kernel rt.ip rt.mask rt.gw = removal.remove kernel rt.net rt.test := by
  rw [rcpDelRoute, StaticRoute.net]
  congr 1
  funext r
  rw [StaticRoute.test, isStatic]

theorem addRoute_replaced (given : gw ≠ 0)
    (found : replaced s.sroute ip mask gw metric = some (i, old)) :
    ∃ text, addRoute removal s ip mask gw metric =
      .ok (⟨s.sroute.set i (some ⟨.static, ip, mask, gw, metric⟩),
        rcpAddRoute (removal.remove s.kernel old.net old.test) ip mask gw metric⟩, text) := by
  obtain ⟨-, -, isStatic, sameIp, sameMask⟩ := replaced_some found
  rw [← rcpDelRoute_eq isStatic, addRoute]
  rw [replaced] at found
  cases first : shmFindRouteStatic s.sroute ip mask gw with
  | some r =>
    rw [first, Option.some_or] at found
    cases found
    have sameGw := (findStatic_some first).2.2.2.2.2 given
    refine ⟨"Warning: route replaced\n", ?_⟩
    obtain ⟨type, ip', mask', gw', metric'⟩ := old
    cases isStatic
    cases sameIp
    cases sameMask
    cases sameGw
    rfl
  | none =>
    rw [first, Option.none_or] at found
    have sameMetric := (Option.filter_eq_some_iff.mp found).2
    rw [decide_eq_true_eq] at sameMetric
    simp only [found]
    refine ⟨"Warning: existing route with a different destination deleted\n", ?_⟩
    obtain ⟨type, ip', mask', gw', metric'⟩ := old
    cases isStatic
    cases sameIp
    cases sameMask
    cases sameMetric
    rfl

theorem addRoute_new (nothing : replaced s.sroute ip mask gw metric = none) {s' : State}
    {text : String} (added : addRoute removal s ip mask gw metric = .ok (s', text)) :
    ∃ i, shmFindRouteEmpty s.sroute = some i ∧
      s' = ⟨s.sroute.set i (some ⟨.static, ip, mask, gw, metric⟩),
        rcpAddRoute s.kernel ip mask gw metric⟩ := by
  rw [replaced, Option.or_eq_none_iff] at nothing
  rw [addRoute, nothing.1] at added
  simp only [nothing.2] at added
  cases empty : shmFindRouteEmpty s.sroute with
  | none =>
    rw [empty] at added
    cases added
  | some i =>
    rw [empty] at added
    cases added
    exact ⟨i, rfl, rfl⟩

theorem Inv.put (inv : Inv others s) (inside : i < s.sroute.length)
    (free : slotAt s.sroute i = none) (plain : Plain ⟨.static, ip, mask, gw, metric⟩)
    (unused : others ((ip, mask2bits mask), metric.setWidth 8) = none)
    (apart : ∀ j a, slotAt s.sroute j = some a → a.type = .static → a.ip = ip → a.mask = mask →
      a.metric ≠ metric ∧ a.gw ≠ gw) :
    Inv others ⟨s.sroute.set i (some ⟨.static, ip, mask, gw, metric⟩),
      rcpAddRoute s.kernel ip mask gw metric⟩ := by
  rw [rcpAddRoute_eq (plain.gw rfl)]
  refine inv.stored inside free plain (inv.unused unused fun j a held same => ?_)
    fun j a held aStatic _ sameNet => ?_
  · have plainA := inv.plain j a held
    obtain ⟨sameIp, sameMask⟩ := net_eq plainA plain (congrArg Prod.fst same)
    have distances := congrArg (fun place => place.2.toNat) same
    change a.distance.toNat = (StaticRoute.distance ⟨.static, ip, mask, gw, metric⟩).toNat
      at distances
    rw [toNat_distance plain rfl] at distances
    rcases type_cases a with aStatic | aHole
    · rw [toNat_distance plainA aStatic] at distances
      exact (apart j a held aStatic sameIp sameMask).1 (BitVec.eq_of_toNat_eq distances)
    · rw [StaticRoute.distance, aHole] at distances
      have least := (plain.metric rfl).1
      change 0 = metric.toNat at distances
      change 1 ≤ metric.toNat at least
      omega
  · obtain ⟨sameIp, sameMask⟩ := net_eq (inv.plain j a held) plain sameNet
    exact (apart j a held aStatic sameIp sameMask).2

theorem Inv.addRoute (inv : Inv others s) (plain : Plain ⟨.static, ip, mask, gw, metric⟩)
    (clear : Clear others s.sroute ip mask gw metric) {s' : State} {text : String}
    (added : addRoute removal s ip mask gw metric = .ok (s', text)) : Inv others s' := by
  have single : ∀ {j a}, slotAt s.sroute j = some a → a.type = .static → a.ip = ip →
      a.mask = mask → (∀ old, replaced s.sroute ip mask gw metric ≠ some (j, old)) →
      a.metric ≠ metric ∧ a.gw ≠ gw := by
    intro j a held aStatic sameIp sameMask other
    constructor
    · intro same
      obtain ⟨old, found⟩ := clear.distance j a held aStatic sameIp sameMask same
      exact other old found
    · intro same
      obtain ⟨old, found⟩ :=
        replaced_gateway inv clear.gateway held aStatic sameIp sameMask same
      exact other old found
  cases found : replaced s.sroute ip mask gw metric with
  | none =>
    obtain ⟨i, empty, rfl⟩ := addRoute_new found added
    obtain ⟨free, inside⟩ := emptySlot empty
    refine inv.put inside free plain clear.unused fun j a held aStatic sameIp sameMask => ?_
    refine single held aStatic sameIp sameMask fun old impossible => ?_
    rw [found] at impossible
    cases impossible
  | some r =>
    obtain ⟨i, old⟩ := r
    obtain ⟨text', eq⟩ := @addRoute_replaced s i old removal ip mask gw metric clear.gateway found
    rw [eq] at added
    cases added
    obtain ⟨held, inside, -, -, -⟩ := replaced_some found
    rw [remove_entry inv held (clear.release i old found)]
    have dropped := inv.dropped inside held
    have slots := slotAt_set inside none
    have free : slotAt (s.sroute.set i none) i = none := by
      rw [slots, update_self]
    have put := dropped.put ((List.length_set ..).symm ▸ inside) free plain clear.unused ?_
    · rw [List.set_set] at put
      exact put
    · intro j a kept aStatic sameIp sameMask
      change slotAt (s.sroute.set i none) j = some a at kept
      have other : j ≠ i := by
        rintro rfl
        rw [free] at kept
        cases kept
      rw [slots, update_of_ne other] at kept
      refine single kept aStatic sameIp sameMask fun old' same => other ?_
      rw [found] at same
      cases same
      rfl

end Adding

section Removing

variable {others : Kernel} {s : State} {t : Sroute} {i : Nat} {rt : StaticRoute}
  {removal : Removal} {ip mask gw : BitVec 32} {cidr : Word}

theorem plain_hole (read : readNetwork cidr = .ok (ip, mask)) :
    Plain ⟨.blackhole, ip, mask, 0, 0⟩ := by
  refine ⟨readNetwork_mask read, ?_, ?_⟩
  · intro isStatic
    cases isStatic
  · intro isStatic
    cases isStatic

theorem Inv.deleteRoute (inv : Inv others s) (read : readNetwork cidr = .ok (ip, mask))
    (unshared : Unshared others (ip, mask2bits mask) gw)
    (zero : gw = 0 → ∀ i rt, slotAt s.sroute i = some rt → rt.ip = ip → rt.mask ≠ mask)
    (removal : Removal) : Inv others (deleteRoute removal s ip mask gw) := by
  cases found : shmFindRouteStatic s.sroute ip mask gw with
  | none =>
    have nothing : rcpDelRoute removal s.kernel ip mask gw = s.kernel := by
      refine removal.remove_nothing fun d r held => Bool.eq_false_iff.mpr fun passes => ?_
      rcases (inv.mirrors.holds _ _).mp held with base | ⟨j, a, slot, place, record⟩
      · exact Bool.eq_false_iff.mp (unshared d r base) passes
      · obtain ⟨sameIp, sameMask⟩ :=
          net_eq (inv.plain j a slot) (plain_hole read) (congrArg Prod.fst place)
        have given : gw ≠ 0 := fun isZero => zero isZero j a slot sameIp sameMask
        have sameGw := (fits_iff given).mp passes
        rw [← record] at sameGw
        rcases type_cases a with aStatic | aHole
        · rw [record_static aStatic] at sameGw
          exact findStatic_none given found slot aStatic sameIp sameMask sameGw
        · rw [record_hole aHole] at sameGw
          exact given sameGw.symm
    rw [StaticRoutes.deleteRoute, found, nothing]
    exact inv
  | some r =>
    obtain ⟨i, rt⟩ := r
    obtain ⟨held, inside, isStatic, sameIp, sameMask, sameGw⟩ := findStatic_some found
    have given : gw ≠ 0 := fun isZero => zero isZero i rt held sameIp sameMask
    have clear : Releasable others rt := by
      intro d r base
      rw [StaticRoute.test, isStatic, sameGw given]
      rw [StaticRoute.net, sameIp, sameMask] at base
      exact unshared d r base
    rw [StaticRoutes.deleteRoute, found, ← sameIp, ← sameMask, ← sameGw given,
      rcpDelRoute_eq isStatic, remove_entry inv held clear]
    exact inv.dropped inside held

theorem delRouteOf_eq (rt : StaticRoute) (kernel : Kernel) :
    delRouteOf removal kernel (some rt) = removal.remove kernel rt.net rt.test := by
  rcases type_cases rt with isStatic | isHole
  · rw [← rcpDelRoute_eq isStatic, delRouteOf, isStatic]
  · have tests : rt.test = fun r => decide (r.type = .blackhole) := by
      funext r
      rw [StaticRoute.test, isHole]
    rw [delRouteOf, isHole, tests]
    rfl

/-- The loop over all slots, behind the slots that it has left. -/
theorem Inv.cleared (removal : Removal) (rest : Sroute) {done : Nat} {kernel : Kernel}
    (inv : Inv others ⟨List.replicate done none ++ rest, kernel⟩)
    (clear : ∀ i rt, slotAt rest i = some rt → Releasable others rt) :
    Inv others ⟨List.replicate done none ++ rest.map (fun _ => none),
      rest.foldl (delRouteOf removal) kernel⟩ := by
  induction rest generalizing done kernel with
  | nil => exact inv
  | cons slot rest ih =>
    have further : ∀ tail : Sroute, List.replicate done none ++ none :: tail =
        List.replicate (done+1) none ++ tail := by
      intro tail
      rw [List.replicate_succ', List.append_assoc, List.singleton_append]
    have later : ∀ i rt, slotAt rest i = some rt → Releasable others rt :=
      fun i rt held => clear (i+1) rt held
    rw [List.map_cons, further, List.foldl_cons]
    refine ih ?_ later
    cases slot with
    | none =>
      rw [← further]
      exact inv
    | some rt =>
      have inside : done < (List.replicate done none ++ some rt :: rest).length := by
        rw [List.length_append, List.length_replicate, List.length_cons]
        omega
      have held : slotAt (List.replicate done none ++ some rt :: rest) done = some rt := by
        rw [slotAt, List.getElem?_append_right (by simp), List.length_replicate, Nat.sub_self]
        rfl
      have dropped := inv.dropped inside held
      rw [delRouteOf_eq, remove_entry inv held (clear 0 rt rfl), ← further]
      simp only [List.set_append_right _ _ (Nat.le_of_eq List.length_replicate),
        List.length_replicate, Nat.sub_self, List.set_cons_zero] at dropped
      exact dropped

theorem Inv.blackhole (inv : Inv others s) (read : readNetwork cidr = .ok (ip, mask))
    (nothing : shmFindRouteBlackhole s.sroute ip mask = none)
    (empty : shmFindRouteEmpty s.sroute = some i)
    (unused : others ((ip, mask2bits mask), 0) = none) :
    Inv others ⟨s.sroute.set i (some ⟨.blackhole, ip, mask, 0, 0⟩),
      addBlackhole s.kernel ip mask⟩ := by
  obtain ⟨free, inside⟩ := emptySlot empty
  refine inv.stored inside free (plain_hole read) (inv.unused unused fun j a held same => ?_)
    fun j a held aStatic isStatic _ => by cases isStatic
  have plain := inv.plain j a held
  obtain ⟨sameIp, sameMask⟩ := net_eq plain (plain_hole read) (congrArg Prod.fst same)
  rcases type_cases a with aStatic | aHole
  · have zero := congrArg (fun place => place.2.toNat) same
    change a.distance.toNat = 0 at zero
    rw [toNat_distance plain aStatic] at zero
    have least := (plain.metric aStatic).1
    omega
  · have fails := findSlot_none nothing held
    simp only [aHole, sameIp, sameMask, decide_true, Bool.and_self] at fails
    cases fails

theorem Inv.noBlackhole (inv : Inv others s)
    (found : shmFindRouteBlackhole s.sroute ip mask = some (i, rt))
    (clear : Releasable others rt) (removal : Removal) :
    Inv others ⟨s.sroute.set i none, delBlackhole removal s.kernel ip mask⟩ := by
  obtain ⟨held, wanted, inside⟩ := findSlot_some found
  simp only [Bool.and_eq_true, decide_eq_true_eq] at wanted
  obtain ⟨isHole, sameIp, sameMask⟩ := wanted
  have removed := remove_entry inv held clear removal
  rw [← delRouteOf_eq, delRouteOf, isHole, sameIp, sameMask] at removed
  rw [show delBlackhole removal s.kernel ip mask = _ from removed]
  exact inv.dropped inside held

end Removing

section Runs

variable {others : Kernel} {s s' : State} {removal : Removal} {cidr nexthop : Word} {text : String}

theorem distance_bounds {distance : Option Word}
    (accepted : distance.all (chkInt2 distanceToken) = true) :
    1 ≤ ((distance.map atoi).getD 1).toNat ∧ ((distance.map atoi).getD 1).toNat ≤ 255 := by
  cases distance with
  | none => decide
  | some word =>
    have bounds : scanBounds scanInt distanceToken = some (1, 255) := by decide
    rw [Option.all_some, chkInt2, bounds] at accepted
    simp only [Bool.and_eq_true, Bool.not_eq_true', Bool.or_eq_false_iff] at accepted
    exact AclReading.between_of_slt (by decide) accepted.2.1 accepted.2.2

theorem Inv.ipRoute (inv : Inv others s) {distance : Option Word}
    (accepted : distance.all (chkInt2 distanceToken) = true)
    (clear : ClearRoute others s.sroute cidr nexthop distance)
    (ran : cliIpRouteCidrCmd removal s cidr nexthop distance = .ok (s', text)) :
    Inv others s' := by
  rw [cliIpRouteCidrCmd] at ran
  cases read : readRoute cidr nexthop with
  | error message =>
    rw [read] at ran
    cases ran
  | ok r =>
    obtain ⟨ip, mask, gw⟩ := r
    simp only [read, bind, Except.bind] at ran
    split_ifs at ran with rip ospf
    have room : (replaced s.sroute ip mask gw ((distance.map atoi).getD 1)).isSome ∨
        (shmFindRouteEmpty s.sroute).isSome := by
      cases found : replaced s.sroute ip mask gw ((distance.map atoi).getD 1) with
      | some r => exact .inl rfl
      | none =>
        obtain ⟨i, empty, -⟩ := addRoute_new found ran
        rw [empty]
        exact .inr rfl
    have clear := clear ip mask gw read rip ospf room
    refine inv.addRoute ⟨readNetwork_mask (readRoute_network read), ?_, ?_⟩ clear ran
    · exact fun _ => clear.gateway
    · exact fun _ => distance_bounds accepted

theorem Inv.noIpRoute (inv : Inv others s) (clear : ClearRemoval others s.sroute cidr nexthop)
    (ran : cliNoIpRouteCidrCmd removal s cidr nexthop = .ok (s', text)) : Inv others s' := by
  rw [cliNoIpRouteCidrCmd] at ran
  cases read : readRoute cidr nexthop with
  | error message =>
    rw [read] at ran
    cases ran
  | ok r =>
    obtain ⟨ip, mask, gw⟩ := r
    rw [read] at ran
    cases ran
    obtain ⟨unshared, zero⟩ := clear ip mask gw read
    exact inv.deleteRoute (readRoute_network read) unshared zero removal

theorem Inv.handle (inv : Inv others s) {c : Command} (accepted : c.accepted = true)
    (safe : Safe others s c) (ran : c.handle removal s = .ok (s', text)) : Inv others s' := by
  cases c with
  | ipRoute cidr nexthop distance =>
    rw [Command.accepted, Bool.and_eq_true] at accepted
    exact inv.ipRoute accepted.2 safe ran
  | noIpRoute cidr nexthop => exact inv.noIpRoute safe ran
  | noIpRouteAll =>
    cases ran
    exact @Inv.cleared others removal s.sroute 0 s.kernel inv safe
  | defaultGateway gw => exact inv.ipRoute rfl safe ran
  | noDefaultGateway gw => exact inv.noIpRoute safe ran
  | blackhole cidr =>
    rw [Command.handle, cliIpRouteBlackhole] at ran
    cases read : readNetwork cidr with
    | error message =>
      rw [read] at ran
      cases ran
    | ok r =>
      obtain ⟨ip, mask⟩ := r
      simp only [read, bind, Except.bind] at ran
      cases found : shmFindRouteBlackhole s.sroute ip mask with
      | some r =>
        rw [found] at ran
        cases ran
        exact inv
      | none =>
        rw [found] at ran
        cases empty : shmFindRouteEmpty s.sroute with
        | none =>
          rw [empty] at ran
          cases ran
        | some i =>
          rw [empty] at ran
          cases ran
          exact inv.blackhole read found empty (safe ip mask read found (by rw [empty]; rfl))
  | noBlackhole cidr =>
    rw [Command.handle, cliNoIpRouteBlackhole] at ran
    cases read : readNetwork cidr with
    | error message =>
      rw [read] at ran
      cases ran
    | ok r =>
      obtain ⟨ip, mask⟩ := r
      simp only [read, bind, Except.bind] at ran
      cases found : shmFindRouteBlackhole s.sroute ip mask with
      | none =>
        rw [found] at ran
        cases ran
        exact inv
      | some r =>
        obtain ⟨i, rt⟩ := r
        rw [found] at ran
        cases ran
        exact inv.noBlackhole found (safe ip mask read i rt found) removal

theorem Inv.step (inv : Inv others s) {c : Command}
    (safe : c.accepted = true → Safe others s c) (removal : Removal) :
    Inv others (step removal s c) := by
  rw [StaticRoutes.step]
  split_ifs with accepted
  · cases ran : c.handle removal s with
    | error message => exact inv
    | ok r => exact inv.handle accepted (safe accepted) ran
  · exact inv

theorem inv_start (others : Kernel) : Inv others (start others) := by
  have free : ∀ i, slotAt (start others).sroute i = none := by
    intro i
    rw [slotAt, start, List.getElem?_replicate]
    split_ifs <;> rfl
  refine ⟨mirrors_empty free, fun i j a b held => ?_, fun i rt held => ?_⟩
  · rw [free] at held
    cases held
  · rw [free] at held
    cases held

theorem Inv.mirrored (inv : Inv others s)
    (foreign : ∀ place r, others place = some r → r.protocol ≠ rtprotStatic) :
    Mirrored others s := by
  refine ⟨?_, ?_, ?_, ?_, fun place r => inv.mirrors.base_held⟩
  · intro i j a b first second aStatic bStatic sameIp sameMask sameMetric
    refine inv.mirrors.distinct i j a b first second ?_
    rw [StaticRoute.place, StaticRoute.place, StaticRoute.net, StaticRoute.net, sameIp, sameMask,
      distance_static aStatic, distance_static bStatic, sameMetric]
  · intro i j a b first second aStatic bStatic sameIp sameMask
    refine inv.gateways i j a b first second aStatic bStatic ?_
    rw [StaticRoute.net, StaticRoute.net, sameIp, sameMask]
  · intro net d r
    constructor
    · rintro ⟨held, isStatic⟩
      rcases (inv.mirrors.holds _ _).mp held with base | ⟨i, rt, slot, place, record⟩
      · exact absurd isStatic (foreign _ r base)
      · rcases type_cases rt with rtStatic | rtHole
        · refine ⟨i, rt, slot, rtStatic, congrArg Prod.fst place, ?_, ?_⟩
          · rw [← toNat_distance (inv.plain i rt slot) rtStatic]
            exact congrArg (fun place => place.2.toNat) place
          · rw [← record, record_static rtStatic]
        · rw [← record, record_hole rtHole] at isStatic
          cases isStatic
    · rintro ⟨i, rt, slot, rtStatic, rfl, metric, rfl⟩
      have held := inv.mirrors.record_held slot
      have same : rt.distance = d := by
        apply BitVec.eq_of_toNat_eq
        rw [toNat_distance (inv.plain i rt slot) rtStatic, metric]
      rw [record_static rtStatic, StaticRoute.place, StaticRoute.net, same] at held
      exact ⟨held, rfl⟩
  · intro i rt slot isHole
    have held := inv.mirrors.record_held slot
    rw [record_hole isHole, StaticRoute.place, StaticRoute.net, StaticRoute.distance, isHole]
      at held
    exact held

/-- The kernel mirrors the table after every command of a run whose commands keep clear. -/
theorem run_mirrored (removal : Removal) {others : Kernel}
    (foreign : ∀ place r, others place = some r → r.protocol ≠ rtprotStatic)
    {commands : List Command} (safe : SafeRun removal others (start others) commands)
    {front : List Command} (reached : front <+: commands) :
    Mirrored others (run removal (start others) front) := by
  refine Inv.mirrored ?_ foreign
  have inv := inv_start others
  generalize start others = s at safe inv
  induction front generalizing s commands with
  | nil => exact inv
  | cons c front ih =>
    obtain ⟨rest, rfl⟩ := reached
    exact ih ⟨rest, rfl⟩ (step removal s c) safe.2 (inv.step safe.1 removal)

end Runs

section Cases

theorem findSlot_free (wanted : StaticRoute → Bool) (n : Nat) :
    findSlot wanted (List.replicate n none) = none := by
  induction n with
  | zero => rfl
  | succ n ih => rw [List.replicate_succ, findSlot, ih, Option.map_none]

def network : Word := "10.0.0.0/8".toList
def firstHop : Word := "192.168.1.1".toList
def secondHop : Word := "192.168.1.2".toList

/-- The kernel has a route of RIP for the network. -/
def ripRoute : Kernel := fun place =>
  if place = ((0x0a000000, 8), 120) then some ⟨.unicast, 0xc0a80102, 200⟩ else none

theorem ripRoute_some {place : Prefix × BitVec 8} {r : KernelRoute}
    (held : ripRoute place = some r) :
    place = ((0x0a000000, 8), 120) ∧ r = ⟨.unicast, 0xc0a80102, 200⟩ := by
  rw [ripRoute] at held
  split_ifs at held with here
  exact ⟨here, (Option.some.inj held).symm⟩

theorem read_firstHop : readRoute network firstHop = .ok (0x0a000000, 0xff000000, 0xc0a80101) :=
  rfl

/-- A route beside the route of RIP, and its removal. -/
theorem run_mirrored_rip : Mirrored ripRoute (run byDistance (start ripRoute)
    [.ipRoute network firstHop none, .noIpRoute network firstHop]) := by
  have foreign : ∀ place r, ripRoute place = some r → r.protocol ≠ rtprotStatic := by
    intro place r held
    obtain ⟨-, rfl⟩ := ripRoute_some held
    decide
  have safe : SafeRun byDistance ripRoute (start ripRoute)
      [.ipRoute network firstHop none, .noIpRoute network firstHop] := by
    refine ⟨fun _ => ?_, fun _ => ?_, trivial⟩
    · intro ip mask gw read _ _ _
      rw [read_firstHop] at read
      cases read
      have nothing : ∀ ip mask gw metric,
          replaced (start ripRoute).sroute ip mask gw metric = none := by
        intro ip mask gw metric
        simp only [replaced, shmFindRouteStatic, start, findSlot_free, ite_self,
          Option.filter_none, Option.or_none]
      refine ⟨by decide, ?_, by decide, ?_⟩
      · intro i rt held
        rw [slotAt, start, List.getElem?_replicate] at held
        split_ifs at held <;> cases held
      · intro i old found
        rw [nothing] at found
        cases found
    · intro ip mask gw read
      rw [read_firstHop] at read
      cases read
      refine ⟨fun d r held => ?_, fun zero => absurd zero (by decide)⟩
      obtain ⟨-, rfl⟩ := ripRoute_some held
      decide
  exact run_mirrored byDistance foreign safe (List.prefix_refl _)

end Cases

section Collision

theorem findSlot_append_free (wanted : StaticRoute → Bool) (front : Sroute) (n : Nat) :
    findSlot wanted (front ++ List.replicate n none) = findSlot wanted front := by
  induction front with
  | nil => exact findSlot_free wanted n
  | cons slot front ih =>
    cases slot with
    | none => rw [List.cons_append, findSlot, ih, findSlot]
    | some rt => rw [List.cons_append, findSlot, ih, findSlot]

theorem findStatic_append_free (front : Sroute) (n : Nat) (ip mask gw : BitVec 32) :
    shmFindRouteStatic (front ++ List.replicate n none) ip mask gw =
      shmFindRouteStatic front ip mask gw := by
  simp only [shmFindRouteStatic, findSlot_append_free]

theorem step_ipRoute {removal : Removal} {s s' : State} {cidr nexthop : Word}
    {distance : Option Word} {ip mask gw metric : BitVec 32} {text : String}
    (accepted : (Command.ipRoute cidr nexthop distance).accepted = true)
    (read : readRoute cidr nexthop = .ok (ip, mask, gw))
    (isMetric : (distance.map atoi).getD 1 = metric)
    (notReserved : metric ≠ rcpRouteDistanceRip ∧ metric ≠ rcpRouteDistanceOspf)
    (added : addRoute removal s ip mask gw metric = .ok (s', text)) :
    step removal s (.ipRoute cidr nexthop distance) = s' := by
  rw [step, if_pos accepted, Command.handle, cliIpRouteCidrCmd]
  simp only [read, bind, Except.bind, isMetric, if_neg notReserved.1, if_neg notReserved.2, added]

def entry (gw metric : BitVec 32) : Option StaticRoute :=
  some ⟨.static, 0x0a000000, 0xff000000, gw, metric⟩

/-- The commands give two entries of the network the distance 1. -/
def collision : List Command :=
  [.ipRoute network firstHop none, .ipRoute network secondHop (some "5".toList),
    .ipRoute network secondHop none]

theorem read_secondHop : readRoute network secondHop = .ok (0x0a000000, 0xff000000, 0xc0a80102) :=
  rfl

theorem addRoute_empty {removal : Removal} {s : State} {i : Nat} {ip mask gw metric : BitVec 32}
    (nothing : replaced s.sroute ip mask gw metric = none)
    (empty : shmFindRouteEmpty s.sroute = some i) :
    addRoute removal s ip mask gw metric =
      .ok (⟨s.sroute.set i (some ⟨.static, ip, mask, gw, metric⟩),
        rcpAddRoute s.kernel ip mask gw metric⟩, "") := by
  rw [replaced, Option.or_eq_none_iff] at nothing
  simp only [addRoute, nothing.1, nothing.2, empty]

theorem collision_sroute (removal : Removal) (others : Kernel) :
    (run removal (start others) collision).sroute =
      [entry 0xc0a80101 1, entry 0xc0a80102 1] ++ List.replicate 3998 none := by
  obtain ⟨kernel, first⟩ : ∃ kernel, step removal
      ⟨[none, none] ++ List.replicate 3998 none, others⟩ (.ipRoute network firstHop none) =
      ⟨[entry 0xc0a80101 1, none] ++ List.replicate 3998 none, kernel⟩ := by
    have nothing : replaced ([none, none] ++ List.replicate 3998 none) 0x0a000000 0xff000000
        0xc0a80101 1 = none := by
      rw [replaced, findStatic_append_free, findStatic_append_free]
      rfl
    exact ⟨_, step_ipRoute (by decide) read_firstHop rfl (by decide)
      (@addRoute_empty removal ⟨_, others⟩ 0 _ _ _ _ nothing rfl)⟩
  obtain ⟨kernel', second⟩ : ∃ kernel', step removal
      ⟨[entry 0xc0a80101 1, none] ++ List.replicate 3998 none, kernel⟩
      (.ipRoute network secondHop (some "5".toList)) =
      ⟨[entry 0xc0a80101 1, entry 0xc0a80102 5] ++ List.replicate 3998 none, kernel'⟩ := by
    have nothing : replaced ([entry 0xc0a80101 1, none] ++ List.replicate 3998 none) 0x0a000000
        0xff000000 0xc0a80102 5 = none := by
      rw [replaced, findStatic_append_free, findStatic_append_free]
      rfl
    exact ⟨_, step_ipRoute (by decide) read_secondHop rfl (by decide)
      (@addRoute_empty removal ⟨_, kernel⟩ 1 _ _ _ _ nothing rfl)⟩
  obtain ⟨kernel'', third⟩ : ∃ kernel'', step removal
      ⟨[entry 0xc0a80101 1, entry 0xc0a80102 5] ++ List.replicate 3998 none, kernel'⟩
      (.ipRoute network secondHop none) =
      ⟨[entry 0xc0a80101 1, entry 0xc0a80102 1] ++ List.replicate 3998 none, kernel''⟩ := by
    obtain ⟨text, added⟩ := @addRoute_replaced
      ⟨[entry 0xc0a80101 1, entry 0xc0a80102 5] ++ List.replicate 3998 none, kernel'⟩ 1
      ⟨.static, 0x0a000000, 0xff000000, 0xc0a80102, 5⟩ removal 0x0a000000 0xff000000 0xc0a80102 1
      (by decide) (by rw [replaced, findStatic_append_free]; rfl)
    exact ⟨_, step_ipRoute (by decide) read_secondHop rfl (by decide) added⟩
  have slots : start others = ⟨[none, none] ++ List.replicate 3998 none, others⟩ := by
    rw [start, rcpRouteLimit, show 4000 = 2 + 3998 from rfl, List.replicate_add]
    rfl
  rw [collision, run, List.foldl_cons, List.foldl_cons, List.foldl_cons, List.foldl_nil, slots,
    first, second, third]

/-- Two static routes with the same prefix and distance. -/
theorem equal_distances : ¬ ∀ (removal : Removal) (others : Kernel) (commands : List Command),
    (∀ place r, others place = some r → r.protocol ≠ rtprotStatic) →
    Mirrored others (run removal (start others) commands) := by
  intro always
  have mirrored := always byDistance (fun _ => none) collision (fun _ _ held => by cases held)
  have same := mirrored.distances 0 1 ⟨.static, 0x0a000000, 0xff000000, 0xc0a80101, 1⟩
    ⟨.static, 0x0a000000, 0xff000000, 0xc0a80102, 1⟩
  rw [collision_sroute] at same
  exact absurd (same rfl rfl rfl rfl rfl rfl rfl) (by decide)

end Collision

end StaticKernel
