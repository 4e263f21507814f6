import Rcp100.PairNotices
import Rcp100.StepRuns
import Rcp100.RipKernel
import Rcp100.RipActs

/-!
# RIP routes in OSPF

The database tells OSPF about its live RIP routes, one message for each gateway. The
loops over equal-cost routes send a message for every entry of the bucket, and a request
is answered with the withdrawn routes as well. So the messages are right exactly as long
as the entries beside several live routes share their gateways.
-/

namespace RipRedistribution

open RipDb RipInvariant RipMoments RipResponse RipActs PairNotices StepRuns
open RipKernel hiding Prefix
open Function (comp comp_apply update_self)

/-- The messages carry the mask itself. -/
abbrev Prefix := BitVec 32 × BitVec 32

/-- Whether OSPF redistributes RIP routes, and whether the multiplexer is connected. -/
structure Link where
  rcpOspfRedistRip : Bool
  muxsock : Bool
  deriving DecidableEq, Repr

def ripdbRedistributeRoute (link : Link) (add : Bool) (ip mask gw : BitVec 32) :
    Option (Notice Prefix (BitVec 32)) :=
  if link.rcpOspfRedistRip && link.muxsock then some ⟨add, (ip, mask), gw⟩ else none

/-- The message of an effect; the kernel calls send none. -/
def message (link : Link) : Effect → Option (Notice Prefix (BitVec 32))
  | .redistributeRoute add ip mask gw => ripdbRedistributeRoute link add ip mask gw
  | .rcpAddRoute _ _ _ _ => none
  | .rcpDelRoute _ _ _ => none
  | .rcpAddEcmpRoute _ _ _ _ => none
  | .rcpDelEcmpRoute _ _ _ => none
  | .assertion => none

def messages (link : Link) (ms : List Moment) : List (Notice Prefix (BitVec 32)) :=
  ms.filterMap fun m => message link m.2

/-- An added route has the gateway of a live RIP entry of its prefix when it is sent. -/
def Right (m : Moment) : Prop :=
  ∀ ip mask gw, m.2 = .redistributeRoute true ip mask gw → gw ∈ liveGw m.1 ip mask

structure Progress where
  db : Db
  sent : List Moment

def start : Progress := ⟨.initial, []⟩

def actStep (s : Progress) (act : Act) : Progress :=
  ⟨(perform s.db act).1, s.sent ++ moments s.db act⟩

inductive Event where
  | operation (op : UpdateTimer × Op)
  | ripdbRouteRequest

def eventActs (db : Db) : Event → List Act
  | .operation op => opActs db op
  | .ripdbRouteRequest => [.ripdbRouteRequest]

def eventStep (s : Progress) (event : Event) : Progress :=
  (eventActs s.db event).foldl actStep s

/-- What OSPF holds after all messages so far. -/
def ospfSide (link : Link) (s : Progress) : Finset (Prefix × BitVec 32) :=
  deliverAll ∅ (messages link s.sent)

/-- The gateways of the live RIP entries of a prefix, anywhere in the table. -/
def ripGateways (db : Db) (ip mask : BitVec 32) : Finset (BitVec 32) :=
  (((entries db).filter (isLive ip mask)).map RipDbElem.gw).toFinset

/-- Every added route was right when it was sent, and OSPF holds the live RIP routes. -/
structure Faithful (link : Link) (s : Progress) : Prop where
  right : ∀ m ∈ s.sent, Right m
  mirrored : ∀ ip mask gw, ((ip, mask), gw) ∈ ospfSide link s ↔ gw ∈ ripGateways s.db ip mask

/-- The routes with the least metric. -/
def nearest (routes : List RipDbElem) : List RipDbElem :=
  routes.filter fun r => routes.all fun other => r.metric ≤ other.metric

/-- Of the live routes of a prefix those with the least metric stay; if several do, all
entries of the bucket have gateways of theirs. -/
def Unmixed (bucket : List RipDbElem) (ip mask : BitVec 32) : Prop :=
  2 ≤ (nearest (bucket.filter (isLive ip mask))).length →
    ∀ e ∈ bucket, ∃ r ∈ nearest (bucket.filter (isLive ip mask)), r.gw = e.gw

instance (bucket : List RipDbElem) (ip mask : BitVec 32) : Decidable (Unmixed bucket ip mask) :=
  inferInstanceAs (Decidable (_ → _))

/-- An addition meets an unmixed bucket once its entry is in place. -/
def AddClear (t : UpdateTimer) (db : Db) (a : AddArgs) : Branch → Prop
  | .exact n e =>
    e.type = .rip ∧ (e.metric ≠ a.metric ∨ e.gc ≠ 0 ∨ e.interface ≠ a.interface) →
      Unmixed ((db (RipDb.hash a.ip)).modify n (restart t a)) a.ip a.mask
  | .better n _ =>
    Unmixed ((db (RipDb.hash a.ip)).modify n
      (fun e => { newElem t a with ip := e.ip, mask := e.mask })) a.ip a.mask
  | .joined => a.type = .rip → Unmixed (newElem t a :: db (RipDb.hash a.ip)) a.ip a.mask
  | .first => True
  | .refused => True

instance (t : UpdateTimer) (db : Db) (a : AddArgs) (branch : Branch) :
    Decidable (AddClear t db a branch) :=
  match branch with
  | .exact _ _ => inferInstanceAs (Decidable (_ → _))
  | .better _ _ => inferInstanceAs (Decidable (Unmixed _ _ _))
  | .joined => inferInstanceAs (Decidable (_ → _))
  | .first => inferInstanceAs (Decidable True)
  | .refused => inferInstanceAs (Decidable True)

/-- A RIP route is cleaned in an unmixed bucket, its own entry counting as withdrawn. -/
def CleanClear (bucket : List RipDbElem) (n : Nat) (e : RipDbElem) : Prop :=
  e.type = .rip → Unmixed (bucket.modify n markDeleted) e.ip e.mask

def Clear (db : Db) : Act → Prop
  | .ripdbAdd t a => AddClear t db a (ripdbAddBranch db a)
  | .cleanRoute _ i n => ∀ e, (db i)[n]? = some e → CleanClear (db i) n e
  | .timeoutVisit _ i n => ∀ e, (db i)[n]? = some e → e.timeout = 1 → CleanClear (db i) n e
  | .ripdbRouteRequest =>
    ∀ e ∈ (entries db).take ripMaxRoutes, e.type = .rip → e.gw ∈ liveGw db e.ip e.mask

/-- Every act of the event is clear in the table that it meets. -/
def EventClear (s : Progress) (event : Event) : Prop :=
  Along actStep (fun s act => Clear s.db act) (eventActs s.db event) s

/-- The gateways that the loops over a bucket name for a prefix. -/
def redistributedGw (bucket : List RipDbElem) (ip mask : BitVec 32) : List (BitVec 32) :=
  match bucket.filter (isLive ip mask) with
  | [] => []
  | [found] => [found.gw]
  | _ :: _ :: _ => bucket.map RipDbElem.gw

section Messages

variable {link : Link} (configured : link.rcpOspfRedistRip = true)
variable (connected : link.muxsock = true)

theorem messages_append (first second : List Moment) :
    messages link (first ++ second) = messages link first ++ messages link second :=
  List.filterMap_append

include configured connected

theorem message_redistributeRoute (add : Bool) (ip mask gw : BitVec 32) :
    message link (.redistributeRoute add ip mask gw) = some ⟨add, (ip, mask), gw⟩ := by
  rw [message, ripdbRedistributeRoute, configured, connected]
  rfl

theorem messages_bucket (db : Db) (add : Bool) (ip mask : BitVec 32) (bucket : List RipDbElem) :
    messages link (made db (bucket.map fun e => .redistributeRoute add ip mask e.gw)) =
      notices add (ip, mask) (bucket.map RipDbElem.gw) := by
  have each : (fun e : RipDbElem => message link (.redistributeRoute add ip mask e.gw)) =
      fun e => some ⟨add, (ip, mask), e.gw⟩ :=
    funext fun e => message_redistributeRoute configured connected add ip mask e.gw
  rw [messages, made, List.map_map, List.filterMap_map, notices, List.map_map]
  refine (congrArg (fun f => bucket.filterMap f) each).trans ?_
  exact congrFun List.filterMap_eq_map bucket

theorem messages_single (db : Db) {call : Effect} (silent : message link call = none) (add : Bool)
    (ip mask gw : BitVec 32) :
    messages link (made db [call, .redistributeRoute add ip mask gw]) =
      notices add (ip, mask) [gw] := by
  simp only [messages, made, List.map_cons, List.map_nil, List.filterMap_cons, silent,
    message_redistributeRoute configured connected, List.filterMap_nil, notices]

theorem messages_ecmpDel (db : Db) (ip mask : BitVec 32) :
    messages link (made db (ecmpDel db ip mask)) =
      notices false (ip, mask) (redistributedGw (db (RipDb.hash ip)) ip mask) := by
  unfold ecmpDel redistributedGw
  rcases kept : (db (RipDb.hash ip)).filter (isLive ip mask) with _ | ⟨found, _ | ⟨second, others⟩⟩
  · rfl
  · obtain ⟨hip, hmask⟩ := single_sharing kept
    rw [← hip, ← hmask]
    exact messages_single configured connected db rfl _ found.ip found.mask found.gw
  · refine (congrArg (messages link) List.map_append).trans ?_
    rw [messages_append]
    exact (congrArg₂ (· ++ ·) (messages_bucket configured connected db false ip mask _) rfl).trans
      (List.append_nil _)

theorem messages_ecmpAdd (db : Db) (ip mask : BitVec 32) :
    messages link (made db (ecmpAdd db ip mask)) =
      notices true (ip, mask) (redistributedGw (db (RipDb.hash ip)) ip mask) := by
  unfold ecmpAdd redistributedGw
  rcases kept : (db (RipDb.hash ip)).filter (isLive ip mask) with _ | ⟨found, _ | ⟨second, others⟩⟩
  · rfl
  · obtain ⟨hip, hmask⟩ := single_sharing kept
    rw [← hip, ← hmask]
    exact messages_single configured connected db rfl _ found.ip found.mask found.gw
  · refine (congrArg (messages link) List.map_append).trans ?_
    rw [messages_append]
    exact (congrArg₂ (· ++ ·) (messages_bucket configured connected db true ip mask _) rfl).trans
      (List.append_nil _)

end Messages

variable {db : Db} {ip mask : BitVec 32} {bucket : List RipDbElem} {e : RipDbElem} {i : BitVec 8}
  {n : Nat} {link : Link} {s : Progress}

theorem liveGw_redistributed {gw : BitVec 32} (live : gw ∈ liveGw db ip mask) :
    gw ∈ redistributedGw (db (RipDb.hash ip)) ip mask := by
  unfold liveGw at live
  unfold redistributedGw
  split
  · rename_i none
    rwa [none] at live
  · rename_i found single
    rwa [single] at live
  · obtain ⟨e, member, rfl⟩ := List.mem_map.mp live
    exact List.mem_map_of_mem (List.mem_of_mem_filter member)

/-- The routes that several live routes stand beside have their gateways. -/
def Shared (bucket routes : List RipDbElem) : Prop :=
  2 ≤ routes.length → ∀ gw ∈ bucket.map RipDbElem.gw, gw ∈ routes.map RipDbElem.gw

theorem unmixed_iff :
    Unmixed bucket ip mask ↔ Shared bucket (nearest (bucket.filter (isLive ip mask))) := by
  simp only [Unmixed, Shared, List.mem_map, forall_exists_index, and_imp, forall_apply_eq_imp_iff₂]

theorem redistributedGw_live_iff :
    (∀ gw ∈ redistributedGw bucket ip mask,
        gw ∈ (bucket.filter (isLive ip mask)).map RipDbElem.gw) ↔
      Shared bucket (bucket.filter (isLive ip mask)) := by
  unfold redistributedGw Shared
  split
  · rename_i none
    simp [none]
  · rename_i found single
    simp [single]
  · rename_i first second others several
    rw [several]
    have two : 2 ≤ (first :: second :: others).length := by simp
    exact ⟨fun all _ => all, fun all => all two⟩

theorem right_ecmpDel (db : Db) (ip mask : BitVec 32) :
    ∀ m ∈ made db (ecmpDel db ip mask), Right m := by
  intro m member ip' mask' gw adds
  obtain ⟨_, effect⟩ := mem_made.mp member
  rw [adds] at effect
  unfold ecmpDel at effect
  split at effect
  · cases effect
  · simp at effect
  · simp at effect

theorem add_mem_ecmpAdd {ip' mask' gw : BitVec 32} :
    .redistributeRoute true ip' mask' gw ∈ ecmpAdd db ip mask ↔
      ip' = ip ∧ mask' = mask ∧ gw ∈ redistributedGw (db (RipDb.hash ip)) ip mask := by
  unfold ecmpAdd redistributedGw
  rcases kept : (db (RipDb.hash ip)).filter (isLive ip mask) with _ | ⟨found, _ | ⟨second, others⟩⟩
  · simp
  · obtain ⟨hip, hmask⟩ := single_sharing kept
    simp [hip, hmask]
  · simp only [List.mem_append, List.mem_map, List.mem_singleton, reduceCtorEq, or_false,
      Effect.redistributeRoute.injEq, true_and]
    constructor
    · rintro ⟨e, member, rfl, rfl, rfl⟩
      exact ⟨rfl, rfl, e, member, rfl⟩
    · rintro ⟨rfl, rfl, e, member, rfl⟩
      exact ⟨e, member, rfl, rfl, rfl⟩

/-- What is announced of a prefix is right exactly if the bucket shares its gateways. -/
theorem right_replaced_iff {before after : Db} :
    (∀ m ∈ replaced before after ip mask, Right m) ↔
      Shared (after (RipDb.hash ip)) ((after (RipDb.hash ip)).filter (isLive ip mask)) := by
  rw [← redistributedGw_live_iff, replaced, List.forall_mem_append]
  constructor
  · rintro ⟨_, adds⟩ gw named
    have member : (after, Effect.redistributeRoute true ip mask gw) ∈
        made after (ecmpAdd after ip mask) :=
      mem_made.mpr ⟨rfl, add_mem_ecmpAdd.mpr ⟨rfl, rfl, named⟩⟩
    exact adds _ member ip mask gw rfl
  · intro all
    refine ⟨right_ecmpDel before ip mask, ?_⟩
    intro m member ip' mask' gw adds
    obtain ⟨same, effect⟩ := mem_made.mp member
    rw [adds] at effect
    obtain ⟨rfl, rfl, named⟩ := add_mem_ecmpAdd.mp effect
    rw [same]
    exact all gw named

theorem nearest_of_level {routes : List RipDbElem}
    (level : ∀ r ∈ routes, ∀ other ∈ routes, r.metric = other.metric) :
    nearest routes = routes := by
  refine List.filter_eq_self.mpr fun r member => ?_
  simp only [List.all_eq_true, decide_eq_true_iff]
  exact fun other there => Nat.le_of_eq (level r member other there)

theorem Level.nearest (level : Level db ip mask) :
    nearest ((db (RipDb.hash ip)).filter (isLive ip mask)) =
      (db (RipDb.hash ip)).filter (isLive ip mask) := by
  refine nearest_of_level fun r member other there => ?_
  obtain ⟨inside, live⟩ := List.mem_filter.mp member
  obtain ⟨inside', live'⟩ := List.mem_filter.mp there
  exact level r inside other inside' live live'

theorem le_bestMetric_iff (member : e ∈ bucket) (live : isLive ip mask e = true) :
    e.metric ≤ bestMetric bucket ip mask ↔
      ∀ other ∈ bucket, isLive ip mask other = true → e.metric ≤ other.metric := by
  obtain ⟨hip, hmask, valid, type⟩ := isLive_iff.mp live
  have lowest := bestMetric_le bucket ip mask member (isRipPrefix_iff.mpr ⟨type, hip, hmask⟩)
  constructor
  · intro low other there live'
    obtain ⟨hip', hmask', _, type'⟩ := isLive_iff.mp live'
    exact Nat.le_trans low
      (bestMetric_le bucket ip mask there (isRipPrefix_iff.mpr ⟨type', hip', hmask'⟩))
  · intro low
    rcases foldl_better_mem ip mask 16 bucket with none | ⟨f, there, rip, value⟩
    · have sixteen : bestMetric bucket ip mask = 16 := none
      omega
    · have best : f.metric = bestMetric bucket ip mask := value
      obtain ⟨type', hip', hmask'⟩ := isRipPrefix_iff.mp rip
      have live' : isLive ip mask f = true := isLive_iff.mpr ⟨hip', hmask', by omega, type'⟩
      have bound := low f there live'
      omega

theorem filter_cleanMetric (t : UpdateTimer) (db : Db) (ip mask : BitVec 32) :
    (cleanMetric t db ip mask (RipDb.hash ip)).filter (isLive ip mask) =
      nearest ((db (RipDb.hash ip)).filter (isLive ip mask)) := by
  have close : nearest ((db (RipDb.hash ip)).filter (isLive ip mask)) =
      (db (RipDb.hash ip)).filter fun e =>
        isLive ip mask e && decide (e.metric ≤ bestMetric (db (RipDb.hash ip)) ip mask) := by
    rw [nearest, List.filter_filter]
    refine List.filter_congr fun e member => ?_
    by_cases live : isLive ip mask e = true
    · have low := le_bestMetric_iff member live
      simp only [live, Bool.and_true, Bool.true_and]
      rw [Bool.eq_iff_iff, decide_eq_true_iff, low]
      simp only [List.all_eq_true, List.mem_filter, and_imp, decide_eq_true_iff]
    · simp [live]
  rw [close, cleanMetric]
  by_cases idle : bestMetric (db (RipDb.hash ip)) ip mask = 16
  · rw [if_pos idle]
    refine List.filter_congr fun e _ => ?_
    rw [idle, Bool.eq_iff_iff, Bool.and_eq_true, decide_eq_true_iff]
    refine ⟨fun live => ⟨live, ?_⟩, And.left⟩
    have valid := (isLive_iff.mp live).2.2.1
    omega
  · rw [if_neg idle, update_self, List.filter_map]
    refine Eq.trans (List.map_congr_left (g := id) ?_) ?_
    · intro e kept
      refine if_neg fun demoted => ?_
      obtain ⟨_, live⟩ := List.mem_filter.mp kept
      rw [comp_apply, if_pos demoted] at live
      exact not_isLive_kill t e ip mask live
    · rw [List.map_id]
      refine List.filter_congr fun e _ => ?_
      rw [comp_apply]
      by_cases far : bestMetric (db (RipDb.hash ip)) ip mask < e.metric
      · by_cases rip : isRipPrefix ip mask e = true
        · rw [if_pos (by simp [rip, far]), decide_eq_false (by omega), Bool.and_false]
          exact Bool.eq_false_iff.mpr (not_isLive_kill t e ip mask)
        · have dead : isLive ip mask e = false := by
            rw [Bool.eq_false_iff]
            intro live
            obtain ⟨hip, hmask, _, type⟩ := isLive_iff.mp live
            exact rip (isRipPrefix_iff.mpr ⟨type, hip, hmask⟩)
          rw [if_neg (by simp [rip]), dead, Bool.false_and]
      · rw [if_neg (by simp [far]), decide_eq_true (by omega), Bool.and_true]

theorem map_gw_of_key {bucket' : List RipDbElem} (same : bucket'.map key = bucket.map key) :
    bucket'.map RipDbElem.gw = bucket.map RipDbElem.gw := by
  have project := congrArg (List.map fun k => k.2.2.2.1) same
  rw [List.map_map, List.map_map] at project
  exact project

theorem shared_cleanMetric_iff (t : UpdateTimer) (db : Db) (ip mask : BitVec 32) :
    Shared (cleanMetric t db ip mask (RipDb.hash ip))
        ((cleanMetric t db ip mask (RipDb.hash ip)).filter (isLive ip mask)) ↔
      Unmixed (db (RipDb.hash ip)) ip mask := by
  rw [unmixed_iff, filter_cleanMetric, Shared, Shared,
    map_gw_of_key (map_key_cleanMetric t db ip mask (RipDb.hash ip))]

theorem shared_level_iff (level : Level db ip mask) :
    Shared (db (RipDb.hash ip)) ((db (RipDb.hash ip)).filter (isLive ip mask)) ↔
      Unmixed (db (RipDb.hash ip)) ip mask := by
  rw [unmixed_iff, Level.nearest level]

theorem unmixed_map {f : RipDbElem → RipDbElem} (same : ∀ e, key (f e) = key e)
    (metric : ∀ e, (f e).metric = e.metric) (bucket : List RipDbElem) (ip mask : BitVec 32) :
    Unmixed (bucket.map f) ip mask ↔ Unmixed bucket ip mask := by
  have live : isLive ip mask ∘ f = isLive ip mask := by
    funext e
    have type : (f e).type = e.type := congrArg (fun k => k.1) (same e)
    have hip : (f e).ip = e.ip := congrArg (fun k => k.2.1) (same e)
    have hmask : (f e).mask = e.mask := congrArg (fun k => k.2.2.1) (same e)
    simp only [comp, isLive, type, hip, hmask, metric]
  have gw : ∀ routes : List RipDbElem, (routes.map f).map RipDbElem.gw =
      routes.map RipDbElem.gw := by
    intro routes
    refine map_gw_of_key ?_
    rw [List.map_map]
    exact List.map_congr_left fun e _ => same e
  have near : ∀ routes : List RipDbElem, nearest (routes.map f) = (nearest routes).map f := by
    intro routes
    rw [nearest, nearest, List.filter_map]
    refine congrArg (List.map f) (List.filter_congr fun e _ => ?_)
    rw [comp_apply, List.all_map]
    simp only [Function.comp_def, metric]
  rw [unmixed_iff, unmixed_iff, List.filter_map, live, near, Shared, Shared, gw, gw,
    List.length_map]

/-- The fields that the choice of routes looks at. -/
def timeless (e : RipDbElem) : RipDbElem :=
  { e with timeout := 0, gc := 0, interface := 0, updated := false }

theorem unmixed_of_timeless {bucket' : List RipDbElem}
    (same : bucket.map timeless = bucket'.map timeless) (ip mask : BitVec 32) :
    Unmixed bucket ip mask ↔ Unmixed bucket' ip mask := by
  rw [← unmixed_map (f := timeless) (fun _ => rfl) (fun _ => rfl) bucket, same,
    unmixed_map (f := timeless) (fun _ => rfl) (fun _ => rfl)]

theorem right_cleanRouteMoments_iff (level : ∀ ip mask, Level db ip mask)
    (there : (db i)[n]? = some e) (placed : RipDb.hash e.ip = i) :
    (∀ m ∈ cleanRouteMoments db i n, Right m) ↔ CleanClear (db i) n e := by
  unfold cleanRouteMoments CleanClear
  simp only [there]
  by_cases rip : e.type = .rip
  · have withdrawn : Level (db.modify i n markDeleted) e.ip e.mask := by
      refine (level e.ip e.mask).modify fun x _ live => ?_
      exact absurd (isLive_iff.mp live).2.2.1 (Nat.lt_irrefl 16)
    have bucket : (db.modify i n markDeleted) (RipDb.hash e.ip) =
        (db i).modify n markDeleted := by
      rw [placed, Db.modify, update_self]
    rw [if_pos rip, right_replaced_iff, shared_level_iff withdrawn, bucket]
    exact ⟨fun unmixed _ => unmixed, fun clear => clear rip⟩
  · rw [if_neg rip]
    exact iff_of_true (List.forall_mem_nil _) fun contra => absurd contra rip

theorem map_modify_of_eq {f g h : RipDbElem → RipDbElem} (same : ∀ e, h (f e) = h (g e)) :
    (bucket.modify n f).map h = (bucket.modify n g).map h := by
  apply List.ext_getElem?
  intro k
  simp only [List.getElem?_map, List.getElem?_modify]
  cases bucket[k]? with
  | none => rfl
  | some e =>
    by_cases here : n = k
    · simp only [here, if_true, Option.map_eq_map, Option.map_some, same]
    · simp only [if_neg here]

theorem level_touch (level : ∀ ip mask, Level db ip mask)
    (f : RipDbElem → RipDbElem) (same : ∀ e, key (f e) = key e ∧ (f e).metric = e.metric)
    (ip mask : BitVec 32) : Level (db.modify i n f) ip mask := by
  refine (level ip mask).modify fun e _ live => ⟨?_, (same e).2⟩
  have type : (f e).type = e.type := congrArg (fun k => k.1) (same e).1
  have hip : (f e).ip = e.ip := congrArg (fun k => k.2.1) (same e).1
  have hmask : (f e).mask = e.mask := congrArg (fun k => k.2.2.1) (same e).1
  rwa [isLive_iff, type, hip, hmask, (same e).2, ← isLive_iff] at live

theorem getElem?_touch (there : (db i)[n]? = some e) (f : RipDbElem → RipDbElem) :
    ((db.modify i n f) i)[n]? = some (f e) := by
  rw [Db.modify, update_self, List.getElem?_modify_eq, there]
  rfl

theorem right_timeoutMoments_iff (level : ∀ ip mask, Level db ip mask)
    (there : (db i)[n]? = some e) (placed : RipDb.hash e.ip = i) :
    (∀ m ∈ timeoutMoments i db n e, Right m) ↔ (e.timeout = 1 → CleanClear (db i) n e) := by
  unfold timeoutMoments
  by_cases running : 0 < e.timeout
  · rw [if_pos running]
    by_cases expires : e.type = .rip ∧ e.timeout - 1 = 0
    · obtain ⟨rip, last⟩ := expires
      have one : e.timeout = 1 := by omega
      rw [if_pos ⟨rip, last⟩, modify_modify]
      generalize written : (fun e : RipDbElem => { e with gc := 0 }) ∘
        (fun e : RipDbElem => { e with timeout := e.timeout - 1 }) = f
      have same : ∀ e, key (f e) = key e ∧ (f e).metric = e.metric ∧
          timeless (markDeleted (f e)) = timeless (markDeleted e) := by
        subst written
        exact fun _ => ⟨rfl, rfl, rfl⟩
      have type : (f e).type = e.type := congrArg (fun k => k.1) (same e).1
      have hip : (f e).ip = e.ip := congrArg (fun k => k.2.1) (same e).1
      have hmask : (f e).mask = e.mask := congrArg (fun k => k.2.2.1) (same e).1
      rw [right_cleanRouteMoments_iff (level_touch level f fun e => ⟨(same e).1, (same e).2.1⟩)
        (getElem?_touch there f) (hip ▸ placed), CleanClear, CleanClear, type, hip, hmask]
      simp only [one, forall_const]
      refine imp_congr_right fun _ => unmixed_of_timeless ?_ e.ip e.mask
      rw [Db.modify, update_self, List.modify_modify_eq]
      exact map_modify_of_eq fun e => (same e).2.2
    · rw [if_neg expires]
      refine iff_of_true (List.forall_mem_nil _) fun one rip => absurd ⟨rip, ?_⟩ expires
      omega
  · rw [if_neg running]
    refine iff_of_true ?_ fun one => absurd one (by omega)
    split
    · exact List.forall_mem_nil _
    · intro m member ip mask gw adds
      obtain ⟨_, effect⟩ := mem_made.mp member
      rw [adds] at effect
      cases List.mem_singleton.mp effect

theorem right_ripdbAddMoments_iff (sound : Sound db) (t : UpdateTimer) (a : AddArgs) :
    (∀ m ∈ ripdbAddMoments t db a, Right m) ↔ AddClear t db a (ripdbAddBranch db a) := by
  have sound' := sound.ripdbAdd t a
  rw [ripdbAdd_branch] at sound'
  unfold ripdbAddMoments
  cases branch : ripdbAddBranch db a with
  | exact n e =>
    simp only [AddClear, refreshMoments]
    have changed : ((e.metric ≠ a.metric || e.gc ≠ 0 || e.interface ≠ a.interface) = true) ↔
        (e.metric ≠ a.metric ∨ e.gc ≠ 0 ∨ e.interface ≠ a.interface) := by
      simp [or_assoc]
    rw [← changed]
    split
    · rename_i update
      rw [right_replaced_iff, shared_cleanMetric_iff, Db.modify, update_self]
      exact ⟨fun unmixed _ => unmixed, fun clear => clear update⟩
    · rename_i quiet
      exact iff_of_true (List.forall_mem_nil _) fun update => absurd update quiet
  | better n e =>
    simp only [AddClear, replaceMoments]
    rw [right_replaced_iff, shared_cleanMetric_iff, takenDb, Db.modify, update_self]
  | joined =>
    simp only [AddClear, insertMoments]
    rw [branch] at sound'
    have level := sound'.level a.ip a.mask
    simp only [Branch.result, insertNew] at level
    by_cases rip : a.type = .rip
    · rw [if_pos rip, if_pos trivial, right_replaced_iff, shared_level_iff level,
        update_self]
      exact ⟨fun unmixed _ => unmixed, fun clear => clear rip⟩
    · rw [if_neg rip]
      exact iff_of_true (List.forall_mem_nil _) fun contra => absurd contra rip
  | first =>
    simp only [AddClear, insertMoments, iff_true]
    by_cases rip : a.type = .rip
    · rw [if_pos rip, if_neg Bool.false_ne_true]
      intro m member ip mask gw adds
      obtain ⟨same, effect⟩ := mem_made.mp member
      rw [adds] at effect
      simp only [List.mem_cons, reduceCtorEq, Effect.redistributeRoute.injEq, List.not_mem_nil,
        or_false, false_or, true_and] at effect
      obtain ⟨rfl, rfl, rfl⟩ := effect
      have live : isLive a.ip a.mask (newElem t a) = true :=
        isLive_iff.mpr ⟨rfl, rfl, a.metric_lt, rip⟩
      rw [same, liveGw, update_self, List.filter_cons_of_pos live]
      exact List.mem_cons_self ..
    · rw [if_neg rip]
      exact List.forall_mem_nil _
  | refused => exact iff_of_true (List.forall_mem_nil _) trivial

theorem right_ripdbRouteRequest_iff :
    (∀ m ∈ made db (ripdbRouteRequest db), Right m) ↔
      ∀ e ∈ (entries db).take ripMaxRoutes, e.type = .rip → e.gw ∈ liveGw db e.ip e.mask := by
  constructor
  · intro right e member rip
    have named : (db, Effect.redistributeRoute true e.ip e.mask e.gw) ∈
        made db (ripdbRouteRequest db) :=
      mem_made.mpr ⟨rfl, List.mem_map_of_mem
        (List.mem_filter.mpr ⟨member, decide_eq_true rip⟩)⟩
    exact right _ named e.ip e.mask e.gw rfl
  · intro live m member ip mask gw adds
    obtain ⟨same, effect⟩ := mem_made.mp member
    rw [adds] at effect
    obtain ⟨e, chosen, written⟩ := List.mem_map.mp effect
    cases written
    obtain ⟨inside, rip⟩ := List.mem_filter.mp chosen
    rw [same]
    exact live e inside (of_decide_eq_true rip)

theorem right_moments_iff (sound : Sound db) (act : Act) :
    (∀ m ∈ moments db act, Right m) ↔ Clear db act := by
  have placed : ∀ {i : BitVec 8} {n : Nat} {e : RipDbElem}, (db i)[n]? = some e →
      RipDb.hash e.ip = i := fun there => sound.placed _ _ (List.mem_of_getElem? there)
  cases act with
  | ripdbAdd t a => exact right_ripdbAddMoments_iff sound t a
  | cleanRoute t i n =>
    simp only [moments, Clear]
    cases there : (db i)[n]? with
    | none =>
      simp only [cleanRouteMoments, there]
      exact iff_of_true (List.forall_mem_nil _)
        fun e contra => absurd contra (Option.some_ne_none e).symm
    | some e =>
      rw [right_cleanRouteMoments_iff sound.level there (placed there)]
      simp only [Option.some.injEq, forall_eq']
  | timeoutVisit t i n =>
    simp only [moments, Clear]
    cases there : (db i)[n]? with
    | none =>
      exact iff_of_true (List.forall_mem_nil _)
        fun e contra => absurd contra (Option.some_ne_none e).symm
    | some e =>
      dsimp only
      rw [right_timeoutMoments_iff sound.level there (placed there)]
      simp only [Option.some.injEq, forall_eq']
  | ripdbRouteRequest => exact right_ripdbRouteRequest_iff

/-- The receiver holds the live routes. -/
def Tracks (side : Finset (Prefix × BitVec 32)) (db : Db) : Prop :=
  ∀ ip mask gw, ((ip, mask), gw) ∈ side ↔ gw ∈ liveGw db ip mask

section Delivery

variable {link : Link} (configured : link.rcpOspfRedistRip = true)
variable (connected : link.muxsock = true) {side : Finset (Prefix × BitVec 32)} {db db' : Db}

include configured connected

theorem tracks_of_change {ms : List Moment} (change : Change db ms db')
    (right : ∀ m ∈ ms, Right m) (tracks : Tracks side db) :
    Tracks (deliverAll side (messages link ms)) db' := by
  cases change with
  | silent quiet same =>
    have none : messages link ms = [] :=
      List.filterMap_eq_nil_iff.mpr fun m member => by simp [quiet m member, message]
    rw [none]
    intro ip mask gw
    rw [same]
    exact tracks ip mask gw
  | @paired before after _ ip mask read written other =>
    have named : ∀ gw, gw ∈ redistributedGw (after (RipDb.hash ip)) ip mask ↔
        gw ∈ liveGw after ip mask := fun gw =>
      ⟨redistributedGw_live_iff.mpr (right_replaced_iff.mp right) gw, liveGw_redistributed⟩
    have all : ∀ gw, ((ip, mask), gw) ∈ side →
        gw ∈ redistributedGw (before (RipDb.hash ip)) ip mask := by
      intro gw there
      refine liveGw_redistributed ?_
      rw [read]
      exact (tracks ip mask gw).mp there
    rw [replaced, messages_append, messages_ecmpDel configured connected,
      messages_ecmpAdd configured connected]
    intro ip' mask' gw
    rw [mem_deliverAll_replace all, written]
    by_cases here : (ip', mask') = (ip, mask)
    · cases here
      rw [if_pos rfl]
      exact named gw
    · rw [if_neg here, other ip' mask' here, read]
      exact tracks ip' mask' gw
  | @first _ ip mask gw metric bare written other =>
    rw [messages_single configured connected db' rfl]
    have none : ∀ gw', ((ip, mask), gw') ∈ side → gw' ∈ ([] : List (BitVec 32)) := by
      intro gw' there
      rw [← bare]
      exact (tracks ip mask gw').mp there
    intro ip' mask' gw'
    have single := @mem_deliverAll_replace _ _ _ _ _ _ _ [gw] none (ip', mask') gw'
    refine single.trans ?_
    by_cases here : (ip', mask') = (ip, mask)
    · cases here
      rw [if_pos rfl, written]
    · rw [if_neg here, other ip' mask' here]
      exact tracks ip' mask' gw'

theorem tracks_of_request (right : ∀ m ∈ made db (ripdbRouteRequest db), Right m)
    (tracks : Tracks side db) :
    Tracks (deliverAll side (messages link (made db (ripdbRouteRequest db)))) db := by
  have each : ∀ n ∈ messages link (made db (ripdbRouteRequest db)),
      ∃ e ∈ (entries db).take ripMaxRoutes, e.type = .rip ∧ n = ⟨true, (e.ip, e.mask), e.gw⟩ := by
    intro n member
    obtain ⟨m, there, sent⟩ := List.mem_filterMap.mp member
    obtain ⟨e, chosen, written⟩ := List.mem_map.mp (mem_made.mp there).2
    obtain ⟨inside, rip⟩ := List.mem_filter.mp chosen
    rw [← written, message_redistributeRoute configured connected] at sent
    cases sent
    exact ⟨e, inside, of_decide_eq_true rip, rfl⟩
  intro ip mask gw
  rw [mem_deliverAll_of_known ?_ ?_]
  · exact tracks ip mask gw
  · intro n member
    obtain ⟨e, _, _, rfl⟩ := each n member
    rfl
  · intro n member
    obtain ⟨e, inside, rip, rfl⟩ := each n member
    exact (tracks e.ip e.mask e.gw).mpr (right_ripdbRouteRequest_iff.mp right e inside rip)

theorem tracks_of_act (sound : Sound db) (act : Act) (right : ∀ m ∈ moments db act, Right m)
    (tracks : Tracks side db) :
    Tracks (deliverAll side (messages link (moments db act))) (perform db act).1 := by
  cases act with
  | ripdbAdd t a =>
    exact tracks_of_change configured connected (change_ripdbAdd t db a) right tracks
  | cleanRoute t i n =>
    exact tracks_of_change configured connected (change_cleanRoute t db i n) right tracks
  | timeoutVisit t i n =>
    cases there : (db i)[n]? with
    | none =>
      simp only [moments, perform, there]
      exact tracks
    | some e =>
      simp only [moments, there] at right
      simp only [moments, perform, there]
      exact tracks_of_change configured connected (change_timeoutVisit sound t there) right tracks
  | ripdbRouteRequest => exact tracks_of_request configured connected right tracks

end Delivery

/-- What holds of sound progress: the database is sound and OSPF follows it. -/
structure InStep (link : Link) (s : Progress) : Prop where
  sound : Sound s.db
  right : ∀ m ∈ s.sent, Right m
  tracks : Tracks (ospfSide link s) s.db

theorem mem_ripGateways (tidy : Tidy db) {gw : BitVec 32} :
    gw ∈ ripGateways db ip mask ↔ gw ∈ liveGw db ip mask := by
  simp only [ripGateways, List.mem_toFinset, List.mem_map, List.mem_filter, mem_liveGw,
    live_entry_iff tidy, and_assoc]

theorem InStep.faithful (inStep : InStep link s) :
    Faithful link s := by
  refine ⟨inStep.right, ?_⟩
  intro ip mask gw
  rw [mem_ripGateways inStep.sound.toTidy]
  exact inStep.tracks ip mask gw

theorem messages_actStep (link : Link) (s : Progress) (act : Act) :
    ospfSide link (actStep s act) =
      deliverAll (ospfSide link s) (messages link (moments s.db act)) := by
  rw [ospfSide, actStep, messages_append, deliverAll_append]
  rfl

theorem inStep_actStep (configured : link.rcpOspfRedistRip = true)
    (connected : link.muxsock = true) (inStep : InStep link s) {act : Act}
    (clear : Clear s.db act) : InStep link (actStep s act) := by
  have right := (right_moments_iff inStep.sound act).mpr clear
  refine ⟨sound_perform inStep.sound act, ?_, ?_⟩
  · exact List.forall_mem_append.mpr ⟨inStep.right, right⟩
  · rw [messages_actStep]
    exact tracks_of_act configured connected inStep.sound act right inStep.tracks

theorem sent_foldl (acts : List Act) (s : Progress) :
    ∀ m ∈ s.sent, m ∈ (acts.foldl actStep s).sent := by
  induction acts generalizing s with
  | nil => exact fun _ member => member
  | cons act acts ih => exact fun m member => ih (actStep s act) m (List.mem_append_left _ member)

theorem along_of_right {acts : List Act} (sound : Sound s.db)
    (right : ∀ m ∈ (acts.foldl actStep s).sent, Right m) :
    Along actStep (fun s act => Clear s.db act) acts s := by
  induction acts generalizing s with
  | nil => trivial
  | cons act acts ih =>
    refine ⟨(right_moments_iff sound act).mp fun m member => ?_, ih (sound_perform sound act) right⟩
    exact right m (sent_foldl acts (actStep s act) m (List.mem_append_right _ member))

theorem inStep_along (configured : link.rcpOspfRedistRip = true)
    (connected : link.muxsock = true) {acts : List Act} (inStep : InStep link s)
    (clear : Along actStep (fun s act => Clear s.db act) acts s) :
    InStep link (acts.foldl actStep s) := by
  induction acts generalizing s with
  | nil => exact inStep
  | cons act acts ih => exact ih (inStep_actStep configured connected inStep clear.1) clear.2

theorem inStep_start (link : Link) : InStep link start :=
  ⟨initial_sound, List.forall_mem_nil _, fun ip mask gw => by
    simp [ospfSide, start, messages, deliverAll, liveGw, Db.initial]⟩

/-- In every run the messages are faithful after each event exactly as long as every act of
the events is clear. -/
theorem faithful_iff (link : Link) (configured : link.rcpOspfRedistRip = true)
    (connected : link.muxsock = true) (events : List Event) :
    (∀ n, Faithful link ((events.take n).foldl eventStep start)) ↔
      Along eventStep EventClear events start := by
  rw [← always_iff_take]
  refine always_iff_along (I := InStep link) (fun s inStep => inStep.faithful) ?_ ?_
    (inStep_start link)
  · exact fun s event inStep clear => inStep_along configured connected inStep clear
  · intro s event inStep mixed faithful
    exact mixed (along_of_right inStep.sound faithful.right)

/-- A route with metric 2, learned from its gateway. -/
def learned (ip gw : BitVec 32) : Event :=
  .operation (halfMinute, .ripdbAdd ⟨.rip, ip, 0xffffff00, gw, 2, gw, 1, Nat.succ_ne_zero _,
    Nat.lt_of_sub_pos (Nat.zero_lt_succ _)⟩)

/-- Two gateways for 10.77.88.0/24, and a request. -/
def twoGateways : List Event :=
  [learned 0x0a4d5800 0x01020314, learned 0x0a4d5800 0x01020363, .ripdbRouteRequest]

/-- Equal-cost gateways that have their bucket for themselves are redistributed faithfully. -/
theorem faithful_two_gateways :
    Along eventStep EventClear twoGateways start ∧
      ((0x0a4d5800, 0xffffff00), 0x01020363) ∈
        ospfSide ⟨true, true⟩ (twoGateways.foldl eventStep start) ∧
      Faithful ⟨true, true⟩ ((twoGateways.take 3).foldl eventStep start) := by
  have clear : Along eventStep EventClear twoGateways start := by
    refine ⟨⟨?_, trivial⟩, ⟨?_, trivial⟩, ⟨?_, trivial⟩, trivial⟩
    · dsimp only [Clear]
      decide +kernel
    · dsimp only [Clear]
      decide +kernel
    · dsimp only [Clear]
      decide +kernel
  exact ⟨clear, by decide +kernel, (faithful_iff ⟨true, true⟩ rfl rfl twoGateways).mpr clear 3⟩

/-- The same after a route to 10.88.77.0/24, whose address has the same hash. -/
def sharedBucket : List Event :=
  [learned 0x0a584d00 0x01020301, learned 0x0a4d5800 0x01020314, learned 0x0a4d5800 0x01020363]

/-- OSPF is told that the gateway of the other prefix serves this one. -/
theorem stranger_redistributed :
    ((0x0a4d5800, 0xffffff00), 0x01020301) ∈
        ospfSide ⟨true, true⟩ (sharedBucket.foldl eventStep start) ∧
      (0x01020301 : BitVec 32) ∉
        ripGateways (sharedBucket.foldl eventStep start).db 0x0a4d5800 0xffffff00 ∧
      ¬ Faithful ⟨true, true⟩ (sharedBucket.foldl eventStep start) := by
  have told : ((0x0a4d5800, 0xffffff00), 0x01020301) ∈
      ospfSide ⟨true, true⟩ (sharedBucket.foldl eventStep start) := by decide +kernel
  have absent : (0x01020301 : BitVec 32) ∉
      ripGateways (sharedBucket.foldl eventStep start).db 0x0a4d5800 0xffffff00 := by
    decide +kernel
  exact ⟨told, absent, fun faithful => absent ((faithful.mirrored _ _ _).mp told)⟩

end RipRedistribution
