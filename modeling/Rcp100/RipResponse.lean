import Mathlib.Order.Bounds.Defs
import Rcp100.DistanceVector
import Rcp100.RipInvariant

/-!
# RIP responses

A response lists the entries of the database in bucket order, each with the metric
that the interface sees: 16 where the route is poisoned, 1 for connected subnets, and
its own metric otherwise. A receiver checks each route and applies the valid ones in
packet order. Numbers are in host order on both sides.
-/

namespace RipResponse

open RipDb RipInvariant DistanceVector
open Function (update update_of_ne update_self)

/-- The address of an interface and its mask. -/
structure RipInterface where
  ip : BitVec 32
  mask : BitVec 32
  deriving DecidableEq, Repr

structure RipRoute where
  family : Nat
  tag : Nat
  ip : BitVec 32
  mask : BitVec 32
  gw : BitVec 32
  metric : Nat
  deriving DecidableEq, Repr

def ripMaxRoutes : Nat := 32000

/-- The address lies in the subnet of the interface. -/
def onLink (intf : RipInterface) (ip : BitVec 32) : Bool :=
  (ip &&& intf.mask) = (intf.ip &&& intf.mask)

/-- The record written for an entry; the other types leave it as it was. -/
def advertise (intf : RipInterface) (unfilled : RipRoute) (e : RipDbElem) : RipRoute :=
  match e.type with
  | .ripNetwork => ⟨2, 0, e.ip, e.mask, 0, if onLink intf e.ip then 16 else e.metric⟩
  | .connected => ⟨2, 0, e.ip, e.mask, 0, e.metric⟩
  | .connectedSubnets => ⟨2, 0, e.ip, e.mask, 0, 1⟩
  | .static => ⟨2, 0, e.ip, e.mask, if onLink intf e.gw then e.gw else 0, e.metric⟩
  | .ospf => ⟨2, 0, e.ip, e.mask, if onLink intf e.gw then e.gw else 0, e.metric⟩
  | .rip => ⟨2, 0, e.ip, e.mask, 0, if onLink intf e.partner then 16 else e.metric⟩
  | _ => unfilled

/-- The records of a response, written over what the buffer holds. -/
def ripdbBuildResponse (db : Db) (intf : RipInterface) (rt : Nat → RipRoute) (updatesOnly : Bool) :
    List RipRoute :=
  (((entries db).filter (fun e => !updatesOnly || e.updated)).take ripMaxRoutes).mapIdx
    (fun cnt e => advertise intf (rt cnt) e)

def isLoopback (ip : BitVec 32) : Bool := (ip &&& 0xff000000) = 0x7f000000

def inClassA (ip : BitVec 32) : Bool := (ip &&& 0x80000000) = 0

def inClassB (ip : BitVec 32) : Bool := (ip &&& 0xc0000000) = 0x80000000

def inClassC (ip : BitVec 32) : Bool := (ip &&& 0xe0000000) = 0xc0000000

def isMulticast (ip : BitVec 32) : Bool := (ip &&& 0xf0000000) = 0xe0000000

def isBroadcast (ip : BitVec 32) : Bool :=
  if inClassA ip then (ip &&& 0x00ffffff) = 0x00ffffff
  else if inClassB ip then (ip &&& 0x0000ffff) = 0x0000ffff
  else if inClassC ip then (ip &&& 0x000000ff) = 0x000000ff
  else false

/-- The loop of `maskContiguous` with `steps` iterations left. Its test for a one bit
is true in the last iteration only, so that no mask is refused. -/
def maskContiguousLoop (mask : BitVec 32) : Nat → BitVec 32 → Bool → Bool
  | 0, _, _ => true
  | steps+1, m, zero =>
    if zero && (m &&& mask) = 0 then false
    else maskContiguousLoop mask steps (m >>> 1) (zero || (m &&& mask) = 1)

def maskContiguous (mask : BitVec 32) : Bool := maskContiguousLoop mask 32 0x80000000 false

def invalidHop (gw : BitVec 32) : Bool := isLoopback gw || isMulticast gw || isBroadcast gw

/-- A route that passed the checks, with the next hop that it stands for. -/
structure Offer where
  ip : BitVec 32
  mask : BitVec 32
  hop : BitVec 32
  metric : Nat
  deriving DecidableEq, Repr

/-- The checks of the parser on one route of a version 2 packet. -/
def routeOffer (source : BitVec 32) (r : RipRoute) : Option Offer :=
  if r.family ≠ 2 then none
  else if isLoopback r.ip || isBroadcast r.ip || isMulticast r.ip then none
  else if r.metric > 16 || r.metric = 0 then none
  else if r.mask = 0 ∧ r.ip ≠ 0 then none
  else if r.mask ≠ 0 ∧ !maskContiguous r.mask then none
  else if r.gw ≠ 0 ∧ invalidHop r.gw then none
  else some ⟨r.ip, r.mask, if r.gw = 0 then source else r.gw, r.metric⟩

def applyOffer (t : UpdateTimer) (source : BitVec 32) (rxif : Nat) (db : Db) (o : Offer) :
    Db × List Effect :=
  if valid : o.metric + 1 < 16 then
    ripdbAdd t db
      ⟨.rip, o.ip, o.mask, o.hop, o.metric + 1, source, rxif, Nat.succ_ne_zero _, valid⟩
  else ripdbDelete t db .rip o.ip o.mask o.hop source

/-- The loop "parsing routes" over the routes of the response. -/
def rxRoutes (t : UpdateTimer) (source : BitVec 32) (rxif : Nat) (db : Db)
    (routes : List RipRoute) : Db :=
  (routes.filterMap (routeOffer source)).foldl (fun db o => (applyOffer t source rxif db o).1) db

/-- The live RIP routes of a prefix, by next hop and metric. -/
def routeIn (bucket : List RipDbElem) (ip mask : BitVec 32) : Routes (BitVec 32) :=
  fun hop cost => ∃ e ∈ bucket, isLive ip mask e = true ∧ e.gw = hop ∧ e.metric = cost

def routeTo (db : Db) (ip mask : BitVec 32) : Routes (BitVec 32) :=
  routeIn (db (RipDb.hash ip)) ip mask

/-- All entries were learned from one router. -/
def Learned (source : BitVec 32) (db : Db) : Prop :=
  ∀ i, ∀ e ∈ db i, e.type = .rip ∧ e.partner = source

theorem routeIn_middle (before after : List RipDbElem) (e : RipDbElem) (ip mask hop : BitVec 32)
    (cost : Nat) : routeIn (before ++ e :: after) ip mask hop cost ↔
      (isLive ip mask e = true ∧ e.gw = hop ∧ e.metric = cost) ∨
        routeIn (before ++ after) ip mask hop cost := by
  simp only [routeIn, List.mem_append, List.mem_cons]
  constructor
  · rintro ⟨x, left | rfl | right, rest⟩
    · exact .inr ⟨x, .inl left, rest⟩
    · exact .inl rest
    · exact .inr ⟨x, .inr right, rest⟩
  · rintro (here | ⟨x, left | right, rest⟩)
    · exact ⟨e, .inr (.inl rfl), here⟩
    · exact ⟨x, .inl left, rest⟩
    · exact ⟨x, .inr (.inr right), rest⟩

theorem foldl_better_mem (ip mask : BitVec 32) (best : Nat) (bucket : List RipDbElem) :
    bucket.foldl (better ip mask) best = best ∨ ∃ e ∈ bucket,
      isRipPrefix ip mask e = true ∧ e.metric = bucket.foldl (better ip mask) best := by
  induction bucket generalizing best with
  | nil => exact .inl rfl
  | cons e rest ih =>
    rcases ih (better ip mask best e) with same | ⟨f, member, found⟩
    · by_cases taken : (isRipPrefix ip mask e && decide (e.metric < best)) = true
      · have value : better ip mask best e = e.metric := if_pos taken
        rw [Bool.and_eq_true] at taken
        exact .inr ⟨e, List.mem_cons_self .., taken.1, (same.trans value).symm⟩
      · exact .inl (same.trans (if_neg taken))
    · exact .inr ⟨f, List.mem_cons_of_mem e member, found⟩

theorem routeTo_cleanMetric (t : UpdateTimer) (db : Db) (ip mask : BitVec 32) :
    routeTo (cleanMetric t db ip mask) ip mask = least (routeTo db ip mask) := by
  funext hop cost
  apply propext
  constructor
  · rintro ⟨e, member, live, rfl, rfl⟩
    refine ⟨⟨e, live_cleanMetric member live, live, rfl, rfl⟩, ?_⟩
    rintro hop' cost' ⟨f, there, live', rfl, rfl⟩
    obtain ⟨hip, hmask, _, rip⟩ := isLive_iff.mp live'
    rw [metric_cleanMetric member live]
    exact bestMetric_le _ ip mask there (isRipPrefix_iff.mpr ⟨rip, hip, hmask⟩)
  · rintro ⟨⟨e, there, live, rfl, rfl⟩, lowest⟩
    refine ⟨e, ?_, live, rfl, rfl⟩
    unfold cleanMetric
    by_cases idle : bestMetric (db (RipDb.hash ip)) ip mask = 16
    · rwa [if_pos idle]
    rw [if_neg idle, update_self]
    refine List.mem_map.mpr ⟨e, there, if_neg ?_⟩
    rw [Bool.and_eq_true, decide_eq_true_iff, not_and, Nat.not_lt]
    intro _
    rcases foldl_better_mem ip mask 16 (db (RipDb.hash ip)) with none | ⟨f, member, rip, value⟩
    · exact absurd none idle
    · obtain ⟨type, hip, hmask⟩ := isRipPrefix_iff.mp rip
      by_cases valid : f.metric < 16
      · have bound := lowest f.gw f.metric
          ⟨f, member, isLive_iff.mpr ⟨hip, hmask, valid, type⟩, rfl, rfl⟩
        exact Nat.le_trans bound (Nat.le_of_eq value)
      · have live' := (isLive_iff.mp live).2.2.1
        have value' : f.metric = bestMetric (db (RipDb.hash ip)) ip mask := value
        omega

variable {db : Db} {i j : BitVec 8} {n : Nat} {f : RipDbElem → RipDbElem} {x : RipDbElem}
  {t : UpdateTimer} {ip mask : BitVec 32}

theorem routeTo_touch
    (same : ∀ e, key (f e) = key e) (metric : ∀ e, (f e).metric = e.metric) (ip mask : BitVec 32) :
    routeTo (db.modify i n f) ip mask = routeTo db ip mask := by
  cases there : (db i)[n]? with
  | none => rw [modify_absent there]
  | some e =>
    obtain ⟨before, after, split, _, written⟩ := modify_split there
    have type : (f e).type = e.type := congrArg (fun k => k.1) (same e)
    have hip : (f e).ip = e.ip := congrArg (fun k => k.2.1) (same e)
    have hmask : (f e).mask = e.mask := congrArg (fun k => k.2.2.1) (same e)
    have gw : (f e).gw = e.gw := congrArg (fun k => k.2.2.2.1) (same e)
    rw [written f]
    funext hop cost
    unfold routeTo
    by_cases here : RipDb.hash ip = i
    · rw [here, update_self, split, routeIn_middle, routeIn_middle]
      simp only [isLive, type, hip, hmask, metric, gw]
    · rw [update_of_ne here]

section Receiver

variable {source : BitVec 32} {db : Db}

theorem routeIn_rest (tidy : Tidy db) (learned : Learned source db) {i : BitVec 8}
    {before after : List RipDbElem} {e : RipDbElem} (split : db i = before ++ e :: after)
    {hop : BitVec 32} {cost : Nat} (route : routeIn (before ++ after) e.ip e.mask hop cost) :
    hop ≠ e.gw := by
  obtain ⟨x, member, live, rfl, _⟩ := route
  obtain ⟨hip, hmask, _, _⟩ := isLive_iff.mp live
  intro same
  have distinct := tidy.distinct i
  rw [split, List.map_append, List.map_cons, List.nodup_middle, List.nodup_cons,
    ← List.map_append] at distinct
  apply distinct.1
  have there : x ∈ db i := by
    rw [split]
    simp only [List.mem_append, List.mem_cons] at member ⊢
    tauto
  have thereE : e ∈ db i := by
    rw [split]
    simp
  have type := (learned i x there).1.trans (learned i e thereE).1.symm
  have partner := (learned i x there).2.trans (learned i e thereE).2.symm
  refine List.mem_map.mpr ⟨x, member, ?_⟩
  simp only [key, type, hip, hmask, same, partner]

theorem not_routeTo_of_absent (learned : Learned source db) {ip mask hop : BitVec 32}
    (absent : (RcpRouteType.rip, ip, mask, hop, source) ∉ (db (RipDb.hash ip)).map key)
    (cost : Nat) : ¬ routeTo db ip mask hop cost := by
  rintro ⟨e, member, live, rfl, _⟩
  obtain ⟨hip, hmask, _, _⟩ := isLive_iff.mp live
  apply absent
  refine List.mem_map.mpr ⟨e, member, ?_⟩
  have own := learned _ e member
  simp only [key, own.1, own.2, hip, hmask]

theorem Sound.routeTo_level (sound : Sound db) (ip mask : BitVec 32) {h h' : BitVec 32}
    {cost cost' : Nat} (route : routeTo db ip mask h cost) (route' : routeTo db ip mask h' cost') :
    cost = cost' := by
  obtain ⟨e, member, live, _, rfl⟩ := route
  obtain ⟨f, member', live', _, rfl⟩ := route'
  exact sound.level ip mask e member f member' live live'

end Receiver

section Addition

variable {source : BitVec 32} {db : Db} (sound : Sound db) (learned : Learned source db)
variable (t : UpdateTimer) {a : AddArgs} {m : Nat}
variable (rip : a.type = .rip) (partner : a.partner = source) (metric : a.metric = m+1)

include metric in
theorem candidate_iff {routes : Routes (BitVec 32)} (hop : BitVec 32) (cost : Nat) :
    candidate 16 routes a.gw m hop cost ↔
      (hop = a.gw ∧ cost = a.metric) ∨ (hop ≠ a.gw ∧ routes hop cost) := by
  have valid := a.metric_lt
  unfold candidate
  constructor
  · rintro (⟨rfl, rfl, _⟩ | other)
    · exact .inl ⟨rfl, metric.symm⟩
    · exact .inr other
  · rintro (⟨rfl, rfl⟩ | other)
    · exact .inl ⟨rfl, metric, valid⟩
    · exact .inr other

include sound learned metric in
theorem routeTo_refreshExact {n : Nat} {e : RipDbElem}
    (there : (db (RipDb.hash a.ip))[n]? = some e) (same : key e = argKey a) (rip : a.type = .rip) :
    routeTo (refreshExact t db a n e).1 a.ip a.mask =
      least (candidate 16 (routeTo db a.ip a.mask) a.gw m) := by
  have type : e.type = .rip := (congrArg (fun k => k.1) same).trans rip
  have hip : e.ip = a.ip := congrArg (fun k => k.2.1) same
  have hmask : e.mask = a.mask := congrArg (fun k => k.2.2.1) same
  have gw : e.gw = a.gw := congrArg (fun k => k.2.2.2.1) same
  obtain ⟨before, after, split, _, written⟩ := modify_split there
  have rest : ∀ hop cost, routeIn (before ++ after) a.ip a.mask hop cost → hop ≠ a.gw := by
    intro hop cost route
    rw [← hip, ← hmask] at route
    exact gw ▸ routeIn_rest sound.toTidy learned split route
  -- the restarted entry is live, so that the table now holds the candidates
  have candidates : routeTo (db.modify (RipDb.hash a.ip) n (restart t a)) a.ip a.mask =
      candidate 16 (routeTo db a.ip a.mask) a.gw m := by
    funext hop cost
    apply propext
    rw [candidate_iff metric, written, routeTo, update_self, routeIn_middle, routeTo,
      split, routeIn_middle]
    have live : isLive a.ip a.mask (restart t a e) = true :=
      isLive_iff.mpr ⟨hip, hmask, a.metric_lt, type⟩
    constructor
    · rintro (⟨_, rfl, rfl⟩ | route)
      · exact .inl ⟨gw, rfl⟩
      · exact .inr ⟨rest hop cost route, .inr route⟩
    · rintro (⟨rfl, rfl⟩ | ⟨apart, ⟨_, same, _⟩ | route⟩)
      · exact .inl ⟨live, gw, rfl⟩
      · exact False.elim (apart (same.symm.trans gw))
      · exact .inr route
  unfold refreshExact
  dsimp only
  rw [modify_modify]
  split
  · refine Eq.trans (routeTo_touch ?_ ?_ a.ip a.mask) ?_
    · exact fun _ => rfl
    · exact fun _ => rfl
    rw [routeTo_cleanMetric]
    exact congrArg least candidates
  · rename_i quiet
    refine Eq.trans (routeTo_touch ?_ ?_ a.ip a.mask) ?_
    · exact fun _ => rfl
    · exact fun _ => rfl
    refine candidates.trans (least_of_level ?_).symm
    -- nothing changed: the entry was live with this metric already
    have value : e.metric = a.metric := by
      by_contra differs
      exact quiet ⟨type, by simp [differs]⟩
    have own : routeTo db a.ip a.mask a.gw a.metric :=
      ⟨e, List.mem_of_getElem? there, isLive_iff.mpr ⟨hip, hmask, value ▸ a.metric_lt, type⟩,
        gw, value⟩
    have old : ∀ hop cost, candidate 16 (routeTo db a.ip a.mask) a.gw m hop cost →
        routeTo db a.ip a.mask hop cost := by
      intro hop cost route
      rcases (candidate_iff metric hop cost).mp route with ⟨rfl, rfl⟩ | ⟨_, route⟩
      · exact own
      · exact route
    intro h cost h' cost' route route'
    exact Sound.routeTo_level sound a.ip a.mask (old h cost route) (old h' cost' route')

theorem routeTo_insertNew (ecmp : Bool) (rip : a.type = .rip) (hop : BitVec 32) (cost : Nat) :
    routeTo (insertNew t db a ecmp).1 a.ip a.mask hop cost ↔
      (hop = a.gw ∧ cost = a.metric) ∨ routeTo db a.ip a.mask hop cost := by
  have live : isLive a.ip a.mask (newElem t a) = true :=
    isLive_iff.mpr ⟨rfl, rfl, a.metric_lt, rip⟩
  unfold insertNew routeTo
  dsimp only
  rw [update_self, ← List.nil_append (newElem t a :: _), routeIn_middle]
  constructor
  · rintro (⟨_, rfl, rfl⟩ | route)
    · exact .inl ⟨rfl, rfl⟩
    · exact .inr route
  · rintro (⟨rfl, rfl⟩ | route)
    · exact .inl ⟨live, rfl, rfl⟩
    · exact .inr route

theorem compareTypeMetric_same {e : RipDbElem} (type : a.type = e.type) :
    (compareTypeMetric a.type a.metric e = 1 → a.metric < e.metric) ∧
      (compareTypeMetric a.type a.metric e = -1 → e.metric < a.metric) := by
  unfold compareTypeMetric
  rw [type]
  by_cases less : a.metric < e.metric
  · simp [less]
  · by_cases equal : a.metric = e.metric
    · simp [equal]
    · simp [less, equal]
      omega

section Fresh

variable (absent : argKey a ∉ (db (RipDb.hash a.ip)).map key)

include learned rip partner absent in
theorem hop_ne_of_absent {hop : BitVec 32} {cost : Nat}
    (route : routeTo db a.ip a.mask hop cost) : hop ≠ a.gw := by
  rintro rfl
  rw [argKey, rip, partner] at absent
  exact not_routeTo_of_absent learned absent cost route

include learned rip partner metric absent in
theorem routeTo_insertNew_level (ecmp : Bool)
    (level : ∀ hop cost, routeTo db a.ip a.mask hop cost → cost = a.metric) :
    routeTo (insertNew t db a ecmp).1 a.ip a.mask =
      least (candidate 16 (routeTo db a.ip a.mask) a.gw m) := by
  have same : routeTo (insertNew t db a ecmp).1 a.ip a.mask =
      candidate 16 (routeTo db a.ip a.mask) a.gw m := by
    funext hop cost
    apply propext
    rw [routeTo_insertNew t ecmp rip, candidate_iff metric]
    constructor
    · rintro (own | route)
      · exact .inl own
      · exact .inr ⟨hop_ne_of_absent learned rip partner absent route, route⟩
    · rintro (own | ⟨_, route⟩)
      · exact .inl own
      · exact .inr route
  rw [same]
  refine (least_of_level ?_).symm
  have value : ∀ hop cost, candidate 16 (routeTo db a.ip a.mask) a.gw m hop cost →
      cost = a.metric := by
    intro hop cost route
    rcases (candidate_iff metric hop cost).mp route with ⟨_, rfl⟩ | ⟨_, route⟩
    · rfl
    · exact level hop cost route
  intro h cost h' cost' route route'
  rw [value h cost route, value h' cost' route']

include sound learned rip partner metric absent in
theorem routeTo_refused {e : RipDbElem} (better : routeTo db a.ip a.mask e.gw e.metric)
    (less : e.metric < a.metric) :
    routeTo db a.ip a.mask = least (candidate 16 (routeTo db a.ip a.mask) a.gw m) := by
  have kept : least (candidate 16 (routeTo db a.ip a.mask) a.gw m) =
      least (routeTo db a.ip a.mask) := by
    apply least_eq_of_dominated
    · intro hop cost route
      rw [candidate_iff metric]
      exact .inr ⟨hop_ne_of_absent learned rip partner absent route, route⟩
    · intro hop cost route
      rcases (candidate_iff metric hop cost).mp route with ⟨_, rfl⟩ | ⟨_, route⟩
      · exact .inr ⟨e.gw, e.metric, better, less⟩
      · exact .inl route
  rw [kept]
  refine (least_of_level ?_).symm
  exact fun h cost h' cost' => Sound.routeTo_level sound a.ip a.mask

include learned rip partner metric absent in
theorem routeTo_replaceFound {n : Nat} {e : RipDbElem}
    (there : (db (RipDb.hash a.ip))[n]? = some e) (found : find db a.ip a.mask = some n)
    (less : a.metric < e.metric) :
    routeTo (replaceFound t db a n).1 a.ip a.mask =
      least (candidate 16 (routeTo db a.ip a.mask) a.gw m) := by
  obtain ⟨hip, hmask⟩ := find_sharing found there
  obtain ⟨before, after, split, _, written⟩ := modify_split there
  have live : isLive a.ip a.mask (newElem t a) = true :=
    isLive_iff.mpr ⟨rfl, rfl, a.metric_lt, rip⟩
  have new : ({ newElem t a with ip := e.ip, mask := e.mask } : RipDbElem) = newElem t a := by
    rw [hip, hmask]
    rfl
  have old : ∀ hop cost, routeTo db a.ip a.mask hop cost ↔
      (isLive a.ip a.mask e = true ∧ e.gw = hop ∧ e.metric = cost) ∨
        routeIn (before ++ after) a.ip a.mask hop cost := by
    intro hop cost
    rw [routeTo, split, routeIn_middle]
  have replaced : ∀ hop cost,
      routeTo (update db (RipDb.hash a.ip) (before ++ newElem t a :: after))
        a.ip a.mask hop cost ↔ (isLive a.ip a.mask (newElem t a) = true ∧ a.gw = hop ∧
        a.metric = cost) ∨ routeIn (before ++ after) a.ip a.mask hop cost := by
    intro hop cost
    rw [routeTo, update_self, routeIn_middle]
    rfl
  unfold replaceFound
  dsimp only
  rw [routeTo_cleanMetric, written, new]
  symm
  apply least_eq_of_dominated
  · intro hop cost route
    rw [candidate_iff metric]
    rcases (replaced hop cost).mp route with ⟨_, rfl, rfl⟩ | rest
    · exact .inl ⟨rfl, rfl⟩
    · have route := (old hop cost).mpr (.inr rest)
      exact .inr ⟨hop_ne_of_absent learned rip partner absent route, route⟩
  · intro hop cost route
    have own := (replaced a.gw a.metric).mpr (.inl ⟨live, rfl, rfl⟩)
    rcases (candidate_iff metric hop cost).mp route with ⟨rfl, rfl⟩ | ⟨_, route⟩
    · exact .inl own
    · rcases (old hop cost).mp route with ⟨_, _, rfl⟩ | rest
      · exact .inr ⟨a.gw, a.metric, own, less⟩
      · exact .inl ((replaced hop cost).mpr (.inr rest))

end Fresh

include sound learned rip partner metric in
theorem routeTo_ripdbAdd :
    routeTo (ripdbAdd t db a).1 a.ip a.mask =
      least (candidate 16 (routeTo db a.ip a.mask) a.gw m) := by
  have valid := a.metric_lt
  have typed : ∀ (n : Nat) (e : RipDbElem), (db (RipDb.hash a.ip))[n]? = some e →
      a.type = e.type := fun n e there =>
    rip.trans (learned _ e (List.mem_of_getElem? there)).1.symm
  have found : ∀ (n : Nat) (e : RipDbElem), (db (RipDb.hash a.ip))[n]? = some e →
      find db a.ip a.mask = some n → e.metric < 16 →
      routeTo db a.ip a.mask e.gw e.metric := by
    intro n e there found live
    obtain ⟨hip, hmask⟩ := find_sharing found there
    exact ⟨e, List.mem_of_getElem? there,
      isLive_iff.mpr ⟨hip, hmask, live, (typed n e there).symm.trans rip⟩, rfl, rfl⟩
  cases ripdbAdd_added t db a with
  | refreshed n e there same result =>
    rw [result]
    exact routeTo_refreshExact sound learned t metric there same rip
  | first absent none result =>
    rw [result]
    apply routeTo_insertNew_level learned t rip partner metric absent
    rintro hop cost ⟨e, member, live, _⟩
    have other := none e member
    rw [isPrefix_iff.mpr ⟨(isLive_iff.mp live).1, (isLive_iff.mp live).2.1⟩] at other
    cases other
  | refused n e there first absent worse result =>
    have less := (compareTypeMetric_same (typed n e there)).2 worse
    rw [result]
    exact routeTo_refused sound learned rip partner metric absent
      (found n e there first (by omega)) less
  | replaced n e there first absent better result =>
    rw [result]
    exact routeTo_replaceFound learned t rip partner metric absent there first
      ((compareTypeMetric_same (typed n e there)).1 better)
  | ecmp n e there first absent type value result =>
    rw [result]
    apply routeTo_insertNew_level learned t rip partner metric absent
    intro hop cost route
    rw [value]
    exact Sound.routeTo_level sound a.ip a.mask route (found n e there first (by omega))

end Addition

/-- An entry and what the operations make of it without replacing it: its metric is
kept or set to 16. -/
def Stems (e x : RipDbElem) : Prop := key x = key e ∧ (x.metric = e.metric ∨ x.metric = 16)

theorem stems_kill (t : UpdateTimer) (e : RipDbElem) : Stems e (kill t e) :=
  ⟨(kill_fields t e).1, .inr (kill_fields t e).2.1⟩

theorem Stems.trans {a b c : RipDbElem} (first : Stems a b) (second : Stems b c) : Stems a c := by
  refine ⟨second.1.trans first.1, ?_⟩
  rcases second.2 with same | dead
  · rcases first.2 with same' | dead'
    · exact .inl (same.trans same')
    · exact .inr (same.trans dead')
  · exact .inr dead

theorem stems_of_mem_modify (member : x ∈ db.modify i n f j) (stems : ∀ e, Stems e (f e)) :
    ∃ e ∈ db j, Stems e x := by
  rcases mem_modify member with there | ⟨rfl, e, there, rfl⟩
  · exact ⟨x, there, rfl, .inl rfl⟩
  · exact ⟨e, List.mem_of_getElem? there, stems e⟩

theorem stems_of_mem_cleanMetric
    (member : x ∈ cleanMetric t db ip mask j) : ∃ e ∈ db j, Stems e x := by
  rcases mem_cleanMetric member with ⟨there, _⟩ | ⟨e, there, rfl⟩
  · exact ⟨x, there, rfl, .inl rfl⟩
  · exact ⟨e, there, stems_kill t e⟩

theorem mem_ripdbAdd {a : AddArgs}
    (member : x ∈ (ripdbAdd t db a).1 j) :
    (∃ e ∈ db j, Stems e x) ∨ Stems (newElem t a) x := by
  cases ripdbAdd_added t db a with
  | refreshed n e there same result =>
    rw [result] at member
    unfold refreshExact at member
    dsimp only at member
    rw [modify_modify] at member
    have restarted : ∀ y, y ∈ db.modify (RipDb.hash a.ip) n (restart t a) j →
        (∃ e ∈ db j, Stems e y) ∨ Stems (newElem t a) y := by
      intro y member
      rcases mem_modify member with old | ⟨_, z, written, rfl⟩
      · exact .inl ⟨y, old, rfl, .inl rfl⟩
      · rw [there] at written
        cases written
        exact .inr ⟨same, .inl rfl⟩
    have onward : ∀ y, ((∃ e ∈ db j, Stems e y) ∨ Stems (newElem t a) y) → Stems y x →
        (∃ e ∈ db j, Stems e x) ∨ Stems (newElem t a) x := by
      rintro y (⟨e, old, stems⟩ | stems) next
      · exact .inl ⟨e, old, stems.trans next⟩
      · exact .inr (stems.trans next)
    split at member
    · obtain ⟨y, cleaned, next⟩ := stems_of_mem_modify member (fun _ => ⟨rfl, .inl rfl⟩)
      obtain ⟨z, measured, next'⟩ := stems_of_mem_cleanMetric cleaned
      exact onward z (restarted z measured) (next'.trans next)
    · obtain ⟨y, measured, next⟩ := stems_of_mem_modify member (fun _ => ⟨rfl, .inl rfl⟩)
      exact onward y (restarted y measured) next
  | first _ _ result =>
    rw [result] at member
    rcases mem_insertNew member with old | ⟨rfl, _⟩
    · exact .inl ⟨x, old, rfl, .inl rfl⟩
    · exact .inr ⟨rfl, .inl rfl⟩
  | refused n e _ _ _ _ result =>
    rw [result] at member
    exact .inl ⟨x, member, rfl, .inl rfl⟩
  | replaced n e there found _ _ result =>
    obtain ⟨hip, hmask⟩ := find_sharing found there
    rw [result] at member
    obtain ⟨y, replaced, next⟩ := stems_of_mem_cleanMetric member
    rcases mem_modify replaced with old | ⟨_, z, written, rfl⟩
    · exact .inl ⟨y, old, next⟩
    · rw [there] at written
      cases written
      rw [hip, hmask] at next
      exact .inr next
  | ecmp n e _ _ _ _ _ result =>
    rw [result] at member
    rcases mem_insertNew member with old | ⟨rfl, _⟩
    · exact .inl ⟨x, old, rfl, .inl rfl⟩
    · exact .inr ⟨rfl, .inl rfl⟩

theorem mem_cleanRoute (member : x ∈ (cleanRoute t db i n).1 j) : ∃ e ∈ db j, Stems e x := by
  rw [cleanRoute_db] at member
  exact stems_of_mem_modify member (stems_kill t)

/-- Outside one prefix two databases have the same entries. -/
def SameOutside (ip mask : BitVec 32) (db db' : Db) : Prop :=
  ∀ j x, (x.ip, x.mask) ≠ (ip, mask) → (x ∈ db' j ↔ x ∈ db j)

theorem SameOutside.trans {a b c : Db} (first : SameOutside ip mask a b)
    (second : SameOutside ip mask b c) : SameOutside ip mask a c :=
  fun j x other => (second j x other).trans (first j x other)

theorem SameOutside.routeTo {ip' mask' : BitVec 32} {db' : Db}
    (same : SameOutside ip mask db db') (other : (ip', mask') ≠ (ip, mask)) :
    routeTo db' ip' mask' = routeTo db ip' mask' := by
  funext hop cost
  apply propext
  have apart : ∀ x, isLive ip' mask' x = true → (x.ip, x.mask) ≠ (ip, mask) := by
    intro x live
    obtain ⟨hip, hmask, _⟩ := isLive_iff.mp live
    rw [hip, hmask]
    exact other
  constructor
  · rintro ⟨e, member, live, rest⟩
    exact ⟨e, (same _ e (apart e live)).mp member, live, rest⟩
  · rintro ⟨e, member, live, rest⟩
    exact ⟨e, (same _ e (apart e live)).mpr member, live, rest⟩

theorem sameOutside_swap {before after : List RipDbElem}
    {e : RipDbElem} (split : db i = before ++ e :: after)
    (old : (e.ip, e.mask) = (ip, mask)) (new : (x.ip, x.mask) = (ip, mask)) :
    SameOutside ip mask db (update db i (before ++ x :: after)) := by
  intro j y other
  by_cases here : j = i
  · subst here
    rw [update_self, split]
    have notX : y ≠ x := fun same => other (same ▸ new)
    have notE : y ≠ e := fun same => other (same ▸ old)
    simp only [List.mem_append, List.mem_cons, notX, notE, false_or]
  · rw [update_of_ne here]

theorem sameOutside_modify (kept : ∀ e, (f e).ip = e.ip ∧ (f e).mask = e.mask)
    (place : ∀ e, (db i)[n]? = some e → (e.ip, e.mask) = (ip, mask)) :
    SameOutside ip mask db (db.modify i n f) := by
  cases there : (db i)[n]? with
  | none =>
    rw [modify_absent there]
    exact fun _ _ _ => Iff.rfl
  | some e =>
    obtain ⟨before, after, split, _, written⟩ := modify_split there
    rw [written f]
    refine sameOutside_swap split (place e there) ?_
    rw [(kept e).1, (kept e).2]
    exact place e there

theorem sameOutside_cleanMetric (t : UpdateTimer) (db : Db) (ip mask : BitVec 32) :
    SameOutside ip mask db (cleanMetric t db ip mask) := by
  intro j x other
  unfold cleanMetric
  by_cases idle : bestMetric (db (RipDb.hash ip)) ip mask = 16
  · rw [if_pos idle]
  rw [if_neg idle]
  by_cases here : j = RipDb.hash ip
  · subst here
    rw [update_self, List.mem_map]
    constructor
    · rintro ⟨e, there, rfl⟩
      split at other
      · rename_i demoted
        rw [Bool.and_eq_true] at demoted
        obtain ⟨_, hip, hmask⟩ := isRipPrefix_iff.mp demoted.1
        have same := (kill_fields t e).1
        have hip' : (kill t e).ip = e.ip := congrArg (fun k => k.2.1) same
        have hmask' : (kill t e).mask = e.mask := congrArg (fun k => k.2.2.1) same
        exact absurd (Prod.ext (hip'.trans hip) (hmask'.trans hmask)) other
      · rename_i passed
        rwa [if_neg passed]
    · intro there
      refine ⟨x, there, if_neg ?_⟩
      intro demoted
      rw [Bool.and_eq_true] at demoted
      obtain ⟨_, hip, hmask⟩ := isRipPrefix_iff.mp demoted.1
      exact other (Prod.ext hip hmask)
  · rw [update_of_ne here]

theorem sameOutside_insertNew (t : UpdateTimer) (db : Db) (a : AddArgs) (ecmp : Bool) :
    SameOutside a.ip a.mask db (insertNew t db a ecmp).1 := by
  intro j x other
  constructor
  · intro member
    rcases mem_insertNew member with old | ⟨rfl, _⟩
    · exact old
    · exact absurd rfl other
  · intro old
    unfold insertNew
    dsimp only
    by_cases here : j = RipDb.hash a.ip
    · rw [here, update_self]
      exact List.mem_cons_of_mem _ (here ▸ old)
    · rwa [update_of_ne here]

theorem sameOutside_ripdbAdd (t : UpdateTimer) (db : Db) (a : AddArgs) :
    SameOutside a.ip a.mask db (ripdbAdd t db a).1 := by
  cases ripdbAdd_added t db a with
  | refreshed n e there same result =>
    have place : ∀ f : RipDbElem → RipDbElem, (∀ e, (f e).ip = e.ip ∧ (f e).mask = e.mask) →
        SameOutside a.ip a.mask db (db.modify (RipDb.hash a.ip) n f) := by
      intro f kept
      apply sameOutside_modify kept
      intro x here
      rw [there] at here
      cases here
      exact Prod.ext (congrArg (fun k => k.2.1) same) (congrArg (fun k => k.2.2.1) same)
    rw [result]
    unfold refreshExact
    dsimp only
    rw [modify_modify]
    split
    · refine SameOutside.trans (place (restart t a) fun _ => ⟨rfl, rfl⟩) ?_
      refine SameOutside.trans (sameOutside_cleanMetric t _ a.ip a.mask) ?_
      apply sameOutside_modify
      · exact fun _ => ⟨rfl, rfl⟩
      · intro x here
        -- cleaning keeps every entry at its position
        have kept := congrArg (fun l => l[n]?) (map_key_cleanMetric t
          (db.modify (RipDb.hash a.ip) n (restart t a)) a.ip a.mask (RipDb.hash a.ip))
        have written : (db.modify (RipDb.hash a.ip) n (restart t a) (RipDb.hash a.ip))[n]? =
            some (restart t a e) := by
          rw [Db.modify, update_self, List.getElem?_modify_eq, there]
          rfl
        rw [List.getElem?_map, List.getElem?_map, written] at kept
        have here' : (cleanMetric t (db.modify (RipDb.hash a.ip) n (restart t a)) a.ip a.mask
            (RipDb.hash a.ip))[n]? = some x := here
        rw [here'] at kept
        have identity : key x = argKey a := (Option.some.inj kept).trans same
        exact Prod.ext (congrArg (fun k => k.2.1) identity)
          (congrArg (fun k => k.2.2.1) identity)
    · dsimp only
      rw [modify_modify]
      exact place _ (fun _ => ⟨rfl, rfl⟩)
  | first _ _ result =>
    rw [result]
    exact sameOutside_insertNew t db a false
  | refused n e _ _ _ _ result =>
    rw [result]
    exact fun _ _ _ => Iff.rfl
  | replaced n e there found _ _ result =>
    rw [result]
    refine SameOutside.trans ?_ (sameOutside_cleanMetric t _ a.ip a.mask)
    apply sameOutside_modify
    · exact fun _ => ⟨rfl, rfl⟩
    · intro x here
      rw [there] at here
      cases here
      exact Prod.ext (find_sharing found there).1 (find_sharing found there).2
  | ecmp n e _ _ _ _ _ result =>
    rw [result]
    exact sameOutside_insertNew t db a true

theorem sameOutside_ripdbDelete (t : UpdateTimer) (db : Db) (type : RcpRouteType)
    (ip mask gw partner : BitVec 32) :
    SameOutside ip mask db (ripdbDelete t db type ip mask gw partner).1 := by
  unfold ripdbDelete
  cases whole : findExact db type ip mask gw partner with
  | none => exact fun _ _ _ => Iff.rfl
  | some n =>
    obtain ⟨inside, matched, _⟩ := List.findIdx?_eq_some_iff_getElem.mp whole
    have same := isExact_iff.mp matched
    dsimp only
    rw [cleanRoute_db]
    apply sameOutside_modify
    · intro e
      have kept := (kill_fields t e).1
      exact ⟨congrArg (fun k => k.2.1) kept, congrArg (fun k => k.2.2.1) kept⟩
    · intro e there
      rw [List.getElem?_eq_getElem inside] at there
      cases there
      exact Prod.ext (congrArg (fun k => k.2.1) same) (congrArg (fun k => k.2.2.1) same)

section Reception

variable {source : BitVec 32} {db : Db}

theorem Learned.applyOffer (learned : Learned source db) (t : UpdateTimer) (rxif : Nat)
    (o : Offer) : Learned source (applyOffer t source rxif db o).1 := by
  have inherits : ∀ {e x : RipDbElem}, Stems e x → e.type = .rip ∧ e.partner = source →
      x.type = .rip ∧ x.partner = source := by
    rintro e x ⟨same, _⟩ ⟨type, partner⟩
    exact ⟨(congrArg (fun k => k.1) same).trans type,
      (congrArg (fun k => k.2.2.2.2) same).trans partner⟩
  intro j x member
  unfold RipResponse.applyOffer at member
  split at member
  · rcases mem_ripdbAdd member with ⟨e, there, stems⟩ | stems
    · exact inherits stems (learned j e there)
    · exact inherits stems ⟨rfl, rfl⟩
  · unfold ripdbDelete at member
    cases whole : findExact db .rip o.ip o.mask o.hop source with
    | none =>
      rw [whole] at member
      exact learned j x member
    | some n =>
      rw [whole] at member
      obtain ⟨e, there, stems⟩ := mem_cleanRoute member
      exact inherits stems (learned j e there)

theorem Sound.applyOffer (sound : Sound db) (t : UpdateTimer) (rxif : Nat) (o : Offer) :
    Sound (RipResponse.applyOffer t source rxif db o).1 := by
  unfold RipResponse.applyOffer
  split
  · exact sound.ripdbAdd t _
  · unfold ripdbDelete
    cases findExact db .rip o.ip o.mask o.hop source with
    | none => exact sound
    | some n => exact sound.cleanRoute t _ n

/-- A deletion is an announcement that withdraws the route of its next hop. -/
theorem routeTo_ripdbDelete (sound : Sound db) (learned : Learned source db) (t : UpdateTimer)
    (ip mask hop : BitVec 32) {metric : Nat} (withdrawn : ¬ metric+1 < 16) :
    routeTo (ripdbDelete t db .rip ip mask hop source).1 ip mask =
      advance 16 (routeTo db ip mask) (hop, metric) := by
  have candidates : ∀ h cost, candidate 16 (routeTo db ip mask) hop metric h cost ↔
      h ≠ hop ∧ routeTo db ip mask h cost := by
    intro h cost
    constructor
    · rintro (⟨_, rfl, bound⟩ | other)
      · exact absurd bound withdrawn
      · exact other
    · exact .inr
  have level : least (candidate 16 (routeTo db ip mask) hop metric) =
      candidate 16 (routeTo db ip mask) hop metric := by
    apply least_of_level
    intro h cost h' cost' route route'
    exact Sound.routeTo_level sound ip mask ((candidates h cost).mp route).2
      ((candidates h' cost').mp route').2
  refine Eq.trans ?_ level.symm
  funext h cost
  apply propext
  rw [candidates]
  unfold ripdbDelete
  cases whole : findExact db .rip ip mask hop source with
  | none =>
    have absent : (RcpRouteType.rip, ip, mask, hop, source) ∉ (db (RipDb.hash ip)).map key := by
      intro taken
      obtain ⟨e, there, same⟩ := List.mem_map.mp taken
      have passed := List.findIdx?_eq_none_iff.mp whole e there
      rw [isExact_iff.mpr same] at passed
      cases passed
    constructor
    · intro route
      refine ⟨?_, route⟩
      rintro rfl
      exact not_routeTo_of_absent learned absent cost route
    · exact fun route => route.2
  | some n =>
    obtain ⟨inside, matched, _⟩ := List.findIdx?_eq_some_iff_getElem.mp whole
    have same := isExact_iff.mp matched
    have there := List.getElem?_eq_getElem inside
    obtain ⟨before, after, split, _, written⟩ := modify_split there
    generalize (db (RipDb.hash ip))[n] = e at same split written
    have hip : e.ip = ip := congrArg (fun k => k.2.1) same
    have hmask : e.mask = mask := congrArg (fun k => k.2.2.1) same
    have gw : e.gw = hop := congrArg (fun k => k.2.2.2.1) same
    have rest : routeIn (before ++ after) ip mask h cost → h ≠ hop := by
      intro route
      rw [← hip, ← hmask] at route
      exact gw ▸ routeIn_rest sound.toTidy learned split route
    dsimp only
    rw [cleanRoute_db, written, routeTo, routeTo, update_self, split, routeIn_middle,
      routeIn_middle]
    constructor
    · rintro (⟨live, _⟩ | route)
      · exact absurd live (not_isLive_kill t e ip mask)
      · exact ⟨rest route, .inr route⟩
    · rintro ⟨apart, ⟨_, own, _⟩ | route⟩
      · exact absurd (own.symm.trans gw) apart
      · exact .inr route

theorem routeTo_applyOffer (sound : Sound db) (learned : Learned source db) (t : UpdateTimer)
    (rxif : Nat) (o : Offer) (ip mask : BitVec 32) :
    routeTo (applyOffer t source rxif db o).1 ip mask =
      if o.ip = ip ∧ o.mask = mask then advance 16 (routeTo db ip mask) (o.hop, o.metric)
      else routeTo db ip mask := by
  by_cases here : o.ip = ip ∧ o.mask = mask
  · obtain ⟨rfl, rfl⟩ := here
    rw [if_pos ⟨rfl, rfl⟩]
    unfold applyOffer
    split
    · rename_i valid
      exact routeTo_ripdbAdd (a := ⟨.rip, o.ip, o.mask, o.hop, o.metric + 1, source, rxif,
        Nat.succ_ne_zero _, valid⟩) sound learned t rfl rfl rfl
    · rename_i withdrawn
      exact routeTo_ripdbDelete sound learned t o.ip o.mask o.hop withdrawn
  · rw [if_neg here]
    have other : (ip, mask) ≠ (o.ip, o.mask) := by
      intro same
      cases same
      exact here ⟨rfl, rfl⟩
    unfold applyOffer
    split
    · exact (sameOutside_ripdbAdd t db _).routeTo other
    · exact (sameOutside_ripdbDelete t db .rip o.ip o.mask o.hop source).routeTo other

/-- The announcements for one prefix, in packet order. -/
def heardFor (ip mask : BitVec 32) (offers : List Offer) : List (BitVec 32 × Nat) :=
  (offers.filter (fun o => o.ip = ip && o.mask = mask)).map (fun o => (o.hop, o.metric))

theorem foldl_applyOffer (sound : Sound db) (learned : Learned source db) (t : UpdateTimer)
    (rxif : Nat) (offers : List Offer) (ip mask : BitVec 32) :
    Sound (offers.foldl (fun db o => (applyOffer t source rxif db o).1) db) ∧
      Learned source (offers.foldl (fun db o => (applyOffer t source rxif db o).1) db) ∧
      routeTo (offers.foldl (fun db o => (applyOffer t source rxif db o).1) db) ip mask =
        (heardFor ip mask offers).foldl (advance 16) (routeTo db ip mask) := by
  induction offers generalizing db with
  | nil => exact ⟨sound, learned, rfl⟩
  | cons o rest ih =>
    obtain ⟨sound', learned', routes⟩ :=
      ih (Sound.applyOffer sound t rxif o) (learned.applyOffer t rxif o)
    refine ⟨sound', learned', routes.trans ?_⟩
    rw [routeTo_applyOffer sound learned]
    by_cases here : o.ip = ip ∧ o.mask = mask
    · simp [heardFor, here]
    · have skipped : (decide (o.ip = ip) && decide (o.mask = mask)) = false := by
        simpa using here
      simp [heardFor, here, skipped]

end Reception

/-- A neighbor with an empty table ends with the routes that settle. -/
theorem routeTo_rxRoutes (t : UpdateTimer) (source : BitVec 32) (rxif : Nat)
    (routes : List RipRoute) (ip mask : BitVec 32) :
    Tidy (rxRoutes t source rxif .initial routes) ∧
      Learned source (rxRoutes t source rxif .initial routes) ∧
      routeTo (rxRoutes t source rxif .initial routes) ip mask =
        settle 16 (heardFor ip mask (routes.filterMap (routeOffer source))) := by
  have none : routeTo .initial ip mask = noRoutes := by
    funext hop cost
    apply propext
    constructor
    · rintro ⟨e, member, _⟩
      cases member
    · exact False.elim
  have learned : Learned source .initial := fun i e member => nomatch member
  obtain ⟨sound, learned', result⟩ := foldl_applyOffer initial_sound learned t rxif
    (routes.filterMap (routeOffer source)) ip mask
  rw [none] at result
  exact ⟨sound.toTidy, learned', result⟩

end RipResponse
