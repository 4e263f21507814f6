import Mathlib.Data.List.TakeWhile
import Rcp100.RipResponse

/-!
# What a response tells a neighbor

The announcements of a prefix reach the neighbor in bucket order. It ends with the best
metric of the database exactly when some next hop announces that metric last. Entries
under garbage collection come in between: one that follows the live entry of its next
hop withdraws it, and a deleted connected-subnets route is still announced with
metric 1 and hides what follows until its next hop is announced again.
-/

namespace RipConsistency

open RipDb RipInvariant RipResponse DistanceVector

/-- The types that the callers of `ripdb_add` add; loopback subnets have metric 1. -/
def FromCaller (a : AddArgs) : Prop :=
  a.type ∈ [.ripNetwork, .connected, .static, .rip, .ospf, .connectedSubnets] ∧
    (a.type = .connectedSubnets → a.metric = 1)

/-- A record of the response is filled for the entry, and a connected-subnets entry is
live with metric 1 or deleted. -/
structure Announceable (e : RipDbElem) : Prop where
  type : e.type ∈ [.ripNetwork, .connected, .static, .rip, .ospf, .connectedSubnets]
  subnets : e.type = .connectedSubnets → e.metric = 1 ∨ e.metric = 16

theorem Announceable.stems {e x : RipDbElem} (announceable : Announceable e) (stems : Stems e x) :
    Announceable x := by
  have type : x.type = e.type := congrArg (fun k => k.1) stems.1
  constructor
  · rw [type]
    exact announceable.type
  · intro subnets
    rw [type] at subnets
    rcases stems.2 with same | dead
    · rw [same]
      exact announceable.subnets subnets
    · exact .inr dead

theorem announceable_newElem (t : UpdateTimer) {a : AddArgs} (caller : FromCaller a) :
    Announceable (newElem t a) :=
  ⟨caller.1, fun subnets => .inl (caller.2 subnets)⟩

theorem mem_timeoutVisit {t : UpdateTimer} {i j : BitVec 8} {db : Db} {n : Nat} {e x : RipDbElem}
    (member : x ∈ (timeoutVisit t i db n e).1.1 j) : ∃ y ∈ db j, Stems y x := by
  have kept : x ∈ db j → ∃ y ∈ db j, Stems y x := fun there => ⟨x, there, rfl, .inl rfl⟩
  unfold timeoutVisit at member
  split at member
  · split at member
    · dsimp only at member
      split at member
      · obtain ⟨y, counted, stems⟩ := mem_cleanRoute member
        rw [modify_modify] at counted
        obtain ⟨z, there, stems'⟩ := stems_of_mem_modify counted fun _ => ⟨rfl, .inl rfl⟩
        exact ⟨z, there, stems'.trans stems⟩
      · exact stems_of_mem_modify member fun _ => ⟨rfl, .inl rfl⟩
    · exact kept member
  · split at member
    · split at member
      · apply kept
        dsimp only at member
        by_cases here : j = i
        · subst here
          rw [Function.update_self] at member
          exact List.mem_of_mem_eraseIdx member
        · rwa [Function.update_of_ne here] at member
      · exact stems_of_mem_modify member fun _ => ⟨rfl, .inl rfl⟩
    · exact kept member

/-- What the entries pass on to the entries that stem from them, and what the additions bring
along, holds of all entries. -/
theorem run_stable {P : RipDbElem → Prop} (stable : ∀ e x, Stems e x → P e → P x)
    {allowed : AddArgs → Prop} (new : ∀ t a, allowed a → P (newElem t a))
    {ops : List (UpdateTimer × Op)} (adds : ∀ t a, (t, .ripdbAdd a) ∈ ops → allowed a) {db : Db}
    (all : ∀ i, ∀ e ∈ db i, P e) : ∀ i, ∀ e ∈ (run db ops).1 i, P e := by
  have composes : Composes fun db _ db' =>
      (∀ i, ∀ e ∈ db i, P e) → ∀ i, ∀ e ∈ db' i, P e :=
    ⟨fun _ all => all, fun first second all => second (first all)⟩
  refine composes.run allowed ?_ ?_ ?_ adds db all
  · intro t db a fine all j x member
    rcases mem_ripdbAdd member with ⟨e, there, stems⟩ | stems
    · exact stable e x stems (all j e there)
    · exact stable _ x stems (new t a fine)
  · intro t db i n all j x member
    obtain ⟨e, there, stems⟩ := mem_cleanRoute member
    exact stable e x stems (all j e there)
  · intro t db i n e _ all j x member
    obtain ⟨y, there, stems⟩ := mem_timeoutVisit member
    exact stable y x stems (all j y there)

theorem run_announceable {ops : List (UpdateTimer × Op)}
    (callers : ∀ t a, (t, .ripdbAdd a) ∈ ops → FromCaller a) {i : BitVec 8} {e : RipDbElem}
    (member : e ∈ (run .initial ops).1 i) : Announceable e :=
  run_stable (fun _ _ stems announceable => announceable.stems stems)
    (fun t _ caller => announceable_newElem t caller) callers (fun _ => List.forall_mem_nil _)
    i e member

/-- The entry is announced with metric 16 on the interface it came from. -/
def poisoned (intf : RipInterface) (e : RipDbElem) : Bool :=
  match e.type with
  | .ripNetwork => onLink intf e.ip
  | .rip => onLink intf e.partner
  | _ => false

/-- An announcement that the neighbor accepts; `stale` marks the metric 1 of a deleted
connected-subnets route. -/
structure Announcement where
  hop : BitVec 32
  metric : Nat
  stale : Bool
  deriving DecidableEq, Repr

def blank : RipRoute := ⟨0, 0, 0, 0, 0, 0⟩

def announcement (intf : RipInterface) (e : RipDbElem) : Option Announcement :=
  (routeOffer intf.ip (advertise intf blank e)).map fun o =>
    ⟨o.hop, o.metric, e.type = .connectedSubnets && e.metric = 16⟩

def announcements (db : Db) (intf : RipInterface) (ip mask : BitVec 32) : List Announcement :=
  ((entries db).filter (isPrefix ip mask)).filterMap (announcement intf)

def heard (ads : List Announcement) : List (BitVec 32 × Nat) :=
  ads.map fun ad => (ad.hop, ad.metric)

/-- The metrics that the neighbor should choose from. -/
def ownMetrics (db : Db) (intf : RipInterface) (ip mask : BitVec 32) : List Nat :=
  ((entries db).filter fun e =>
    isPrefix ip mask e && !poisoned intf e && decide (e.metric < 15)).map RipDbElem.metric

/-- What counts after a stale announcement: everything from the next announcement of
our own address on, if there is one. -/
def afterStale (own : BitVec 32) : List Announcement → Option (List Announcement)
  | [] => some []
  | ad :: rest =>
    if rest.any (·.stale) then afterStale own rest
    else if ad.stale then
      match rest.dropWhile (fun b => decide (b.hop ≠ own)) with
      | [] => none
      | again :: later => some (again :: later)
    else some (ad :: rest)

/-- Some next hop announces the metric last. -/
def announcesLast (metric : Nat) (ads : List Announcement) : Bool :=
  ads.any fun ad => lastFrom ad.hop (heard ads) = some metric

/-- The best metric is announced last by some next hop, among what counts after stale
announcements; the metric of these is 1, so they do no harm to a best metric of 1. -/
def consistent (db : Db) (intf : RipInterface) (ip mask : BitVec 32) : Bool :=
  let ads := announcements db intf ip mask
  let best := (ownMetrics db intf ip mask).min?
  if best = some 1 then announcesLast 1 ads
  else match best, afterStale intf.ip ads with
    | _, none => false
    | none, some _ => true
    | some metric, some rest => announcesLast metric rest

/-- The routes of a prefix that the neighbor has learned from us are those of the
smallest valid metric, plus one. -/
def Describes (db : Db) (intf : RipInterface) (ip mask : BitVec 32) (received : Db) : Prop :=
  ∀ cost, (∃ e ∈ entries received, e.ip = ip ∧ e.mask = mask ∧ e.type = .rip ∧
      e.partner = intf.ip ∧ e.metric < 16 ∧ e.metric = cost) ↔
    ∃ metric, IsLeast {m | ∃ e ∈ entries db, e.ip = ip ∧ e.mask = mask ∧
      poisoned intf e = false ∧ e.metric < 15 ∧ e.metric = m} metric ∧ cost = metric+1

theorem routeOffer_eq_some {source : BitVec 32} {r : RipRoute} {o : Offer}
    (accepted : routeOffer source r = some o) :
    o = ⟨r.ip, r.mask, if r.gw = 0 then source else r.gw, r.metric⟩ ∧ r.metric ≠ 0 := by
  unfold routeOffer at accepted
  split at accepted
  · cases accepted
  split at accepted
  · cases accepted
  split at accepted
  · cases accepted
  rename_i valid
  split at accepted
  · cases accepted
  split at accepted
  · cases accepted
  split at accepted
  · cases accepted
  refine ⟨(Option.some.inj accepted).symm, ?_⟩
  intro zero
  simp [zero] at valid

/-- The record of an announceable entry: its prefix, the metric of the interface, and
our own address as the next hop unless a gateway on the link is named. -/
theorem Announceable.advertise {e : RipDbElem} (announceable : Announceable e)
    (intf : RipInterface) (unfilled : RipRoute) :
    RipResponse.advertise intf unfilled e = RipResponse.advertise intf blank e ∧
      (RipResponse.advertise intf blank e).ip = e.ip ∧
      (RipResponse.advertise intf blank e).mask = e.mask ∧
      ((e.type = .connectedSubnets ∧ (RipResponse.advertise intf blank e).gw = 0 ∧
          (RipResponse.advertise intf blank e).metric = 1) ∨
        (e.type ≠ .connectedSubnets ∧ (RipResponse.advertise intf blank e).metric =
          if poisoned intf e then 16 else e.metric)) := by
  have types := announceable.type
  simp only [List.mem_cons, List.not_mem_nil, or_false] at types
  rcases types with h | h | h | h | h | h <;>
    simp [RipResponse.advertise, poisoned, h]

/-- An accepted announcement tells the metric of the interface, or it is stale. -/
theorem Announceable.announcement {e : RipDbElem} (announceable : Announceable e)
    {intf : RipInterface} {ad : Announcement}
    (accepted : RipConsistency.announcement intf e = some ad) :
    ad.metric ≠ 0 ∧ ((ad.stale = true ∧ ad.hop = intf.ip ∧ ad.metric = 1) ∨
      (ad.stale = false ∧ ad.metric = if poisoned intf e then 16 else e.metric)) := by
  obtain ⟨o, offered, rfl⟩ := Option.map_eq_some_iff.mp accepted
  obtain ⟨rfl, nonzero⟩ := routeOffer_eq_some offered
  refine ⟨nonzero, ?_⟩
  obtain ⟨_, _, _, ⟨type, gw, metric⟩ | ⟨type, metric⟩⟩ := announceable.advertise intf blank
  · rcases announceable.subnets type with live | dead
    · refine .inr ⟨by simp [live], ?_⟩
      simp [metric, poisoned, type, live]
    · exact .inl ⟨by simp [type, dead], by simp [gw], metric⟩
  · exact .inr ⟨by simp [type], metric⟩

theorem filterMap_filter {α β : Type} {f : α → Option β} {p : β → Bool} {q : α → Bool}
    {l : List α} (same : ∀ a ∈ l, ∀ b, f a = some b → p b = q a) :
    (l.filterMap f).filter p = (l.filter q).filterMap f := by
  induction l with
  | nil => rfl
  | cons a rest ih =>
    have tail := ih fun b member => same b (List.mem_cons_of_mem a member)
    cases result : f a with
    | none =>
      by_cases chosen : q a = true
      · simp [result, chosen, tail]
      · simp [result, chosen, tail]
    | some b =>
      have agree := same a (List.mem_cons_self ..) b result
      by_cases chosen : q a = true
      · simp [result, agree, chosen, tail]
      · simp [result, agree, chosen, tail]

section Response

variable {db : Db} (announceable : ∀ e ∈ entries db, Announceable e)
variable (intf : RipInterface)

include announceable in
theorem ripdbBuildResponse_eq (few : (entries db).length ≤ ripMaxRoutes) (rt : Nat → RipRoute) :
    ripdbBuildResponse db intf rt false = (entries db).map (advertise intf blank) := by
  have all : (entries db).filter (fun e => !false || e.updated) = entries db :=
    List.filter_eq_self.mpr fun _ _ => rfl
  unfold ripdbBuildResponse
  rw [all, List.take_of_length_le few]
  apply List.ext_getElem?
  intro n
  rw [List.getElem?_mapIdx, List.getElem?_map]
  cases there : (entries db)[n]? with
  | none => rfl
  | some e =>
    have member := List.mem_of_getElem? there
    exact congrArg some ((announceable e member).advertise intf (rt n)).1

include announceable in
theorem heardFor_response (few : (entries db).length ≤ ripMaxRoutes) (rt : Nat → RipRoute)
    (ip mask : BitVec 32) :
    heardFor ip mask ((ripdbBuildResponse db intf rt false).filterMap (routeOffer intf.ip)) =
      heard (announcements db intf ip mask) := by
  rw [ripdbBuildResponse_eq announceable intf few, List.filterMap_map, heardFor,
    filterMap_filter (q := isPrefix ip mask)]
  · unfold heard announcements announcement
    rw [List.map_filterMap, List.map_filterMap]
    congr 1
    funext e
    cases offered : routeOffer intf.ip (advertise intf blank e) <;> simp [offered]
  · intro e member o accepted
    obtain ⟨rfl, _⟩ := routeOffer_eq_some accepted
    obtain ⟨_, hip, hmask, _⟩ := (announceable e member).advertise intf blank
    simp only [hip, hmask, isPrefix]

end Response

section Stale

variable {own : BitVec 32} {ads : List Announcement}
variable (named : ∀ ad ∈ ads, ad.stale = true → ad.hop = own ∧ ad.metric = 1)

include named in
theorem lastFrom_of_afterStale_none (none : afterStale own ads = none) :
    lastFrom own (heard ads) = some 1 := by
  induction ads with
  | nil => cases none
  | cons ad rest ih =>
    have named' : ∀ ad ∈ rest, ad.stale = true → ad.hop = own ∧ ad.metric = 1 :=
      fun b member => named b (List.mem_cons_of_mem ad member)
    unfold afterStale at none
    rw [heard, List.map_cons, lastFrom_cons]
    split at none
    · rw [← heard, ih named' none]
      rfl
    · split at none
      · rename_i stale
        obtain ⟨hop, metric⟩ := named ad (List.mem_cons_self ..) stale
        split at none
        · rename_i last
          have absent : ∀ a ∈ rest.map (fun b => (b.hop, b.metric)), a.1 ≠ own := by
            intro a member
            obtain ⟨b, there, rfl⟩ := List.mem_map.mp member
            simpa using (List.dropWhile_eq_nil_iff.mp last) b there
          rw [lastFrom_eq_none absent, if_pos hop, metric]
          rfl
        · cases none
      · cases none

include named in
/-- What counts is everything, or it begins with our own address after a part in which
our own address announces metric 1 last. -/
theorem split_of_afterStale_some {rest : List Announcement}
    (some' : afterStale own ads = some rest) :
    (∀ b ∈ rest, b.stale = false) ∧ (rest = ads ∨ ∃ front again later,
      rest = again :: later ∧ again.hop = own ∧ ads = front ++ rest ∧
      lastFrom own (heard front) = some 1) := by
  induction ads with
  | nil =>
    cases some'
    exact ⟨List.forall_mem_nil _, .inl rfl⟩
  | cons ad tail ih =>
    have named' : ∀ ad ∈ tail, ad.stale = true → ad.hop = own ∧ ad.metric = 1 :=
      fun b member => named b (List.mem_cons_of_mem ad member)
    unfold afterStale at some'
    split at some'
    · rename_i later
      obtain ⟨fresh, whole | ⟨front, again, onward, shape, hop, split, last⟩⟩ := ih named' some'
      · subst whole
        obtain ⟨b, there, stale⟩ := List.any_eq_true.mp later
        rw [fresh b there] at stale
        cases stale
      · refine ⟨fresh, .inr ⟨ad :: front, again, onward, shape, hop, ?_, ?_⟩⟩
        · rw [split]
          rfl
        · rw [heard, List.map_cons, lastFrom_cons, ← heard, last]
          rfl
    · rename_i clean
      have fresh : ∀ b ∈ tail, b.stale = false := by
        intro b there
        by_contra stale
        exact clean (List.any_eq_true.mpr ⟨b, there, by simpa using stale⟩)
      split at some'
      · rename_i stale
        obtain ⟨hop, metric⟩ := named ad (List.mem_cons_self ..) stale
        have parts := List.takeWhile_append_dropWhile
          (p := fun b => decide (b.hop ≠ own)) (l := tail)
        split at some'
        · cases some'
        · rename_i again later shape
          cases some'
          rw [shape] at parts
          have first : again.hop = own := by
            have stop := List.head?_dropWhile_not (fun b => decide (b.hop ≠ own)) tail
            rw [shape] at stop
            simpa using stop
          refine ⟨?_, .inr ⟨ad :: tail.takeWhile (fun b => decide (b.hop ≠ own)), again, later,
            rfl, first, ?_, ?_⟩⟩
          · intro b there
            apply fresh b
            rw [← parts]
            exact List.mem_append_right _ there
          · rw [List.cons_append, parts]
          · have absent : ∀ a ∈ heard (tail.takeWhile fun b => decide (b.hop ≠ own)),
                a.1 ≠ own := by
              intro a member
              obtain ⟨b, there, rfl⟩ := List.mem_map.mp member
              simpa using List.mem_takeWhile_imp there
            rw [heard, List.map_cons, lastFrom_cons, ← heard, lastFrom_eq_none absent,
              if_pos hop, metric]
            rfl
      · rename_i whole
        cases some'
        refine ⟨?_, .inl rfl⟩
        intro b there
        rcases List.mem_cons.mp there with rfl | later
        · simpa using whole
        · exact fresh b later

end Stale

theorem mem_ownMetrics {db : Db} {intf : RipInterface} {ip mask : BitVec 32} {m : Nat} :
    m ∈ ownMetrics db intf ip mask ↔ ∃ e ∈ entries db, e.ip = ip ∧ e.mask = mask ∧
      poisoned intf e = false ∧ e.metric < 15 ∧ e.metric = m := by
  simp only [ownMetrics, List.mem_map, List.mem_filter, Bool.and_eq_true, isPrefix_iff,
    Bool.not_eq_true', decide_eq_true_iff]
  constructor
  · rintro ⟨e, ⟨there, ⟨⟨hip, hmask⟩, open'⟩, valid⟩, value⟩
    exact ⟨e, there, hip, hmask, open', valid, value⟩
  · rintro ⟨e, there, hip, hmask, open', valid, value⟩
    exact ⟨e, ⟨there, ⟨⟨hip, hmask⟩, open'⟩, valid⟩, value⟩

section Verdict

variable {db : Db} (sound : Sound db) (announceable : ∀ e ∈ entries db, Announceable e)
variable {intf : RipInterface} {ip mask : BitVec 32}

include announceable in
theorem mem_announcements {ad : Announcement} (member : ad ∈ announcements db intf ip mask) :
    ad.metric ≠ 0 ∧ ((ad.stale = true ∧ ad.hop = intf.ip ∧ ad.metric = 1) ∨
      (ad.stale = false ∧ (ad.metric < 15 → ad.metric ∈ ownMetrics db intf ip mask))) := by
  obtain ⟨e, chosen, accepted⟩ := List.mem_filterMap.mp member
  obtain ⟨there, prefixed⟩ := List.mem_filter.mp chosen
  obtain ⟨hip, hmask⟩ := isPrefix_iff.mp prefixed
  obtain ⟨nonzero, stale | ⟨fresh, value⟩⟩ := (announceable e there).announcement accepted
  · exact ⟨nonzero, .inl stale⟩
  · refine ⟨nonzero, .inr ⟨fresh, ?_⟩⟩
    intro valid
    by_cases poison : poisoned intf e = true
    · rw [if_pos poison] at value
      omega
    · rw [if_neg poison] at value
      rw [Bool.not_eq_true] at poison
      exact mem_ownMetrics.mpr ⟨e, there, hip, hmask, poison, value ▸ valid, value.symm⟩

include announceable in
theorem stale_named {ad : Announcement} (member : ad ∈ announcements db intf ip mask)
    (stale : ad.stale = true) : ad.hop = intf.ip ∧ ad.metric = 1 := by
  obtain ⟨_, ⟨_, known⟩ | ⟨fresh, _⟩⟩ := mem_announcements announceable member
  · exact known
  · rw [stale] at fresh
    cases fresh

include announceable in
theorem own_of_fresh {ad : Announcement} (member : ad ∈ announcements db intf ip mask)
    (fresh : ad.stale = false) (valid : ad.metric < 15) :
    ad.metric ∈ ownMetrics db intf ip mask := by
  obtain ⟨_, ⟨stale, _⟩ | ⟨_, own⟩⟩ := mem_announcements announceable member
  · rw [fresh] at stale
    cases stale
  · exact own valid

/-- The costs at which the neighbor has a route. -/
def Costs (ads : List Announcement) (cost : Nat) : Prop := ∃ h, settle 16 (heard ads) h cost

theorem announcesLast_iff {metric : Nat} {ads : List Announcement} (bound : metric+1 < 16)
    (low : ∀ ad ∈ ads, metric ≤ ad.metric) :
    (∀ cost, Costs ads cost ↔ cost = metric+1) ↔ announcesLast metric ads = true := by
  have low' : ∀ a ∈ heard ads, metric ≤ a.2 := by
    intro a member
    obtain ⟨ad, there, rfl⟩ := List.mem_map.mp member
    exact low ad there
  refine (settle_least_iff bound low').trans ?_
  simp only [announcesLast, List.any_eq_true, decide_eq_true_eq]
  constructor
  · rintro ⟨a, member, last⟩
    obtain ⟨ad, there, rfl⟩ := List.mem_map.mp member
    exact ⟨ad, there, last⟩
  · rintro ⟨ad, there, last⟩
    exact ⟨(ad.hop, ad.metric), List.mem_map.mpr ⟨ad, there, rfl⟩, last⟩

include announceable in
/-- A best metric other than 1 makes metric 1 the mark of stale announcements. -/
theorem hop_of_metric_one (other : (ownMetrics db intf ip mask).min? ≠ some 1)
    (positive : ∀ m ∈ ownMetrics db intf ip mask, 1 ≤ m) {ad : Announcement}
    (member : ad ∈ announcements db intf ip mask) (one : ad.metric = 1) : ad.hop = intf.ip := by
  obtain ⟨_, ⟨_, hop, _⟩ | ⟨_, own⟩⟩ := mem_announcements announceable member
  · exact hop
  · have valid := own (by omega)
    rw [one] at valid
    exact absurd (List.min?_eq_some_iff.mpr ⟨valid, fun m => positive m⟩) other

include announceable in
theorem costs_afterStale (other : (ownMetrics db intf ip mask).min? ≠ some 1)
    (positive : ∀ m ∈ ownMetrics db intf ip mask, 1 ≤ m) {rest : List Announcement}
    (counts : afterStale intf.ip (announcements db intf ip mask) = some rest) :
    (∀ ad ∈ rest, ad.metric < 15 → ad.metric ∈ ownMetrics db intf ip mask) ∧
      Costs (announcements db intf ip mask) = Costs rest := by
  have named := fun ad => @stale_named db announceable intf ip mask ad
  obtain ⟨fresh, rfl | ⟨front, again, later, rfl, hop, split, last⟩⟩ :=
    split_of_afterStale_some named counts
  · exact ⟨fun ad member => own_of_fresh announceable member (fresh ad member), rfl⟩
  · have inside : ∀ a ∈ heard front, ∃ ad ∈ announcements db intf ip mask,
        (ad.hop, ad.metric) = a := by
      intro a member
      obtain ⟨ad, there, same⟩ := List.mem_map.mp member
      exact ⟨ad, split ▸ List.mem_append_left _ there, same⟩
    have only : ∀ h cost, settle 16 (heard front) h cost → h = intf.ip := by
      refine only_of_lastFrom (by decide) ?_ ?_ last
      · intro a member
        obtain ⟨ad, there, rfl⟩ := inside a member
        exact Nat.one_le_iff_ne_zero.mpr (mem_announcements announceable there).1
      · intro a member one
        obtain ⟨ad, there, rfl⟩ := inside a member
        exact hop_of_metric_one announceable other positive there one
    refine ⟨fun ad member => ?_, ?_⟩
    · have there := split ▸ List.mem_append_right _ member
      exact own_of_fresh announceable there (fresh ad member)
    · have restart : settle 16 (heard front ++ (again.hop, again.metric) :: heard later) =
          settle 16 ((again.hop, again.metric) :: heard later) :=
        settle_restart fun h cost route => (only h cost route).trans hop.symm
      funext cost
      unfold Costs
      rw [split, heard, List.map_append, List.map_cons]
      exact congrArg (fun routes : Routes (BitVec 32) => ∃ h, routes h cost) restart

include sound announceable in
/-- The neighbor's costs are the best metric plus one exactly under the condition. -/
theorem costs_iff_consistent :
    (∀ cost, Costs (announcements db intf ip mask) cost ↔
        ∃ metric, (ownMetrics db intf ip mask).min? = some metric ∧ cost = metric+1) ↔
      consistent db intf ip mask = true := by
  have positive : ∀ m ∈ ownMetrics db intf ip mask, 1 ≤ m := by
    intro m member
    obtain ⟨e, there, _, _, _, _, rfl⟩ := mem_ownMetrics.mp member
    obtain ⟨i, inside⟩ := mem_entries.mp there
    exact Nat.one_le_iff_ne_zero.mpr (sound.counters i e inside).metric_pos
  have low : ∀ ad ∈ announcements db intf ip mask, 1 ≤ ad.metric := fun ad member =>
    Nat.one_le_iff_ne_zero.mpr (mem_announcements announceable member).1
  have named := fun ad => @stale_named db announceable intf ip mask ad
  -- after a last stale announcement the neighbor has a route of cost 2
  have misled : afterStale intf.ip (announcements db intf ip mask) = none →
      Costs (announcements db intf ip mask) 2 := by
    intro none
    refine ⟨intf.ip, settle_of_lastFrom (by decide) ?_ (lastFrom_of_afterStale_none named none)⟩
    intro a member
    obtain ⟨ad, there, rfl⟩ := List.mem_map.mp member
    exact low ad there
  unfold consistent
  dsimp only
  by_cases one : (ownMetrics db intf ip mask).min? = some 1
  · rw [if_pos one, ← announcesLast_iff (by decide) low, one]
    simp only [Option.some.injEq, exists_eq_left']
  rw [if_neg one]
  cases best : (ownMetrics db intf ip mask).min? with
  | none =>
    have nothing := List.min?_eq_none_iff.mp best
    cases counts : afterStale intf.ip (announcements db intf ip mask) with
    | none =>
      simp only [reduceCtorEq, false_and, exists_false, iff_false, Bool.false_eq_true]
      exact fun silent => silent 2 (misled counts)
    | some rest =>
      obtain ⟨own, same⟩ := costs_afterStale announceable one positive counts
      simp only [reduceCtorEq, false_and, exists_false, iff_false, iff_true]
      rintro cost route
      rw [same] at route
      obtain ⟨h, route⟩ := route
      refine not_settle_of_high ?_ h cost route
      intro a member
      obtain ⟨ad, there, rfl⟩ := List.mem_map.mp member
      by_contra valid
      have member := own ad there (by omega)
      rw [nothing] at member
      cases member
  | some k =>
    rw [best] at one
    obtain ⟨member, least⟩ := List.min?_eq_some_iff.mp best
    have valid : k < 15 := by
      obtain ⟨e, _, _, _, _, valid, rfl⟩ := mem_ownMetrics.mp member
      exact valid
    have other : k ≠ 1 := fun same => one (congrArg some same)
    simp only [Option.some.injEq, exists_eq_left']
    cases counts : afterStale intf.ip (announcements db intf ip mask) with
    | none =>
      simp only [Bool.false_eq_true, iff_false]
      intro right
      have cost := (right 2).mp (misled counts)
      omega
    | some rest =>
      rw [← best] at one
      obtain ⟨own, same⟩ := costs_afterStale announceable one positive counts
      rw [same]
      apply announcesLast_iff (by omega)
      intro ad there
      by_contra less
      exact less (least _ (own ad there (by omega)))

end Verdict

theorem isLeast_ownMetrics (db : Db) (intf : RipInterface) (ip mask : BitVec 32) (metric : Nat) :
    IsLeast {m | ∃ e ∈ entries db, e.ip = ip ∧ e.mask = mask ∧ poisoned intf e = false ∧
      e.metric < 15 ∧ e.metric = m} metric ↔
      (ownMetrics db intf ip mask).min? = some metric := by
  simp only [← mem_ownMetrics]
  rw [List.min?_eq_some_iff]
  exact Iff.rfl

theorem entries_received {source : BitVec 32} {db : Db} (tidy : Tidy db)
    (learned : Learned source db) (ip mask : BitVec 32) (cost : Nat) :
    (∃ e ∈ entries db, e.ip = ip ∧ e.mask = mask ∧ e.type = .rip ∧ e.partner = source ∧
      e.metric < 16 ∧ e.metric = cost) ↔ ∃ hop, routeTo db ip mask hop cost := by
  constructor
  · rintro ⟨e, member, hip, hmask, type, _, valid, value⟩
    obtain ⟨i, there⟩ := mem_entries.mp member
    rw [← tidy.placed i e there, hip] at there
    exact ⟨e.gw, e, there, isLive_iff.mpr ⟨hip, hmask, valid, type⟩, rfl, value⟩
  · rintro ⟨hop, e, there, live, _, value⟩
    obtain ⟨hip, hmask, valid, type⟩ := isLive_iff.mp live
    exact ⟨e, mem_entries.mpr ⟨_, there⟩, hip, hmask, type, (learned _ e there).2, valid, value⟩

theorem describes_iff {db : Db} (sound : Sound db)
    (announceable : ∀ e ∈ entries db, Announceable e)
    (few : (entries db).length ≤ ripMaxRoutes) (t : UpdateTimer) (rxif : Nat)
    (intf : RipInterface) (rt : Nat → RipRoute) (ip mask : BitVec 32) :
    Describes db intf ip mask
        (rxRoutes t intf.ip rxif .initial (ripdbBuildResponse db intf rt false)) ↔
      consistent db intf ip mask = true := by
  obtain ⟨tidy, learned, routes⟩ := routeTo_rxRoutes t intf.ip rxif
    (ripdbBuildResponse db intf rt false) ip mask
  rw [heardFor_response announceable intf few] at routes
  rw [← costs_iff_consistent sound announceable]
  unfold Describes Costs
  simp only [entries_received tidy learned, routes, isLeast_ownMetrics]

/-- For every reachable database the response describes a prefix rightly to a neighbor
with an empty table exactly when the condition on its announcements holds. -/
theorem response_describes_iff (ops : List (UpdateTimer × Op))
    (callers : ∀ t a, (t, .ripdbAdd a) ∈ ops → FromCaller a)
    (few : (entries (run .initial ops).1).length ≤ ripMaxRoutes) (t : UpdateTimer) (rxif : Nat)
    (intf : RipInterface) (rt : Nat → RipRoute) (ip mask : BitVec 32) :
    Describes (run .initial ops).1 intf ip mask (rxRoutes t intf.ip rxif .initial
        (ripdbBuildResponse (run .initial ops).1 intf rt false)) ↔
      consistent (run .initial ops).1 intf ip mask = true := by
  refine describes_iff (run_keeps _ ops initial_sound).1 ?_ few t rxif intf rt ip mask
  intro e member
  obtain ⟨i, there⟩ := mem_entries.mp member
  exact run_announceable callers there

/-- 10.77.88.0/24 with metric 3, learned from the gateway itself. -/
def ripRoute (gw : BitVec 32) : AddArgs :=
  ⟨.rip, 0x0a4d5800, 0xffffff00, gw, 3, gw, 1, by decide, by decide⟩

/-- Two gateways of equal cost; then the first one withdraws its route. -/
def siblingOps : List (UpdateTimer × Op) :=
  [(halfMinute, .ripdbAdd (ripRoute 0x01020314)), (halfMinute, .ripdbAdd (ripRoute 0x01020363)),
    (halfMinute, .ripdbDelete .rip 0x0a4d5800 0xffffff00 0x01020314 0x01020314)]

/-- The interface 192.168.1.1/24. -/
def lan : RipInterface := ⟨0xc0a80101, 0xffffff00⟩

theorem siblingOps_callers (t : UpdateTimer) (a : AddArgs)
    (member : (t, Op.ripdbAdd a) ∈ siblingOps) : FromCaller a := by
  simp only [siblingOps, List.mem_cons, Prod.mk.injEq, Op.ripdbAdd.injEq, reduceCtorEq,
    List.not_mem_nil, and_false, or_false] at member
  rcases member with ⟨_, rfl⟩ | ⟨_, rfl⟩ <;> exact ⟨by simp [ripRoute], by simp [ripRoute]⟩

/-- The sibling under garbage collection follows the live entry in the bucket, and its
metric 16 withdraws the route that the live entry announced. -/
theorem garbage_sibling_withdraws :
    (entries (run .initial siblingOps).1).map (fun e => (e.gw, e.metric)) =
        [(0x01020363, 3), (0x01020314, 16)] ∧
      ¬ Describes (run .initial siblingOps).1 lan 0x0a4d5800 0xffffff00
        (rxRoutes halfMinute lan.ip 1 .initial
          (ripdbBuildResponse (run .initial siblingOps).1 lan (fun _ => blank) false)) := by
  refine ⟨by decide +kernel, ?_⟩
  rw [describes_iff (run_keeps _ siblingOps initial_sound).1 ?_ (by decide +kernel)]
  · decide +kernel
  · intro e member
    obtain ⟨i, there⟩ := mem_entries.mp member
    exact run_announceable siblingOps_callers there

/-- Before the withdrawal both gateways announce metric 3. -/
theorem response_describes_equal_gateways :
    consistent (run .initial (siblingOps.take 2)).1 lan 0x0a4d5800 0xffffff00 = true ∧
      Describes (run .initial (siblingOps.take 2)).1 lan 0x0a4d5800 0xffffff00
        (rxRoutes halfMinute lan.ip 1 .initial
          (ripdbBuildResponse (run .initial (siblingOps.take 2)).1 lan (fun _ => blank) false)) :=
  ⟨by decide +kernel, (response_describes_iff (siblingOps.take 2)
    (fun t a member => siblingOps_callers t a (List.mem_of_mem_take member))
    (by decide +kernel) halfMinute 1 lan (fun _ => blank) 0x0a4d5800 0xffffff00).mpr
    (by decide +kernel)⟩

end RipConsistency
