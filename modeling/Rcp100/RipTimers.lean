import Rcp100.RipConsistency
import Rcp100.RipResponse
import Rcp100.StepRuns

/-!
# The timers of the RIP database

Each call of `ripdb_timeout` counts the timeout of a live RIP route down by one, and the garbage
collection of a deleted route. Both counters are bytes, so that the timeout of six update
intervals wraps around for the larger intervals.
-/

namespace RipTimers

open RipDb RipInvariant RipResponse
open Function (update update_eq_self update_of_ne update_self)

/-- What `list_timeout` makes of an entry; nothing is left of it when its garbage collection
ends. -/
def tickElem (t : UpdateTimer) (e : RipDbElem) : Option RipDbElem :=
  if 0 < e.timeout then
    if e.type = .rip then
      if e.timeout - 1 = 0 then some (kill t { e with timeout := e.timeout - 1, gc := 0 })
      else some { e with timeout := e.timeout - 1 }
    else some e
  else if e.gc - 1 = 0 then none
  else some { e with gc := e.gc - 1 }

section Tick

variable {t : UpdateTimer}

theorem key_tickElem {e x : RipDbElem} (ticked : tickElem t e = some x) : key x = key e := by
  unfold tickElem at ticked
  split at ticked
  · split at ticked
    · split at ticked
      · rw [← Option.some.inj ticked]
        exact (kill_fields t _).1
      · rw [← Option.some.inj ticked]
        rfl
    · rw [← Option.some.inj ticked]
  · split at ticked
    · cases ticked
    · rw [← Option.some.inj ticked]
      rfl

theorem timeoutVisit_eq {db : Db} {i : BitVec 8} {before after : List RipDbElem} {e : RipDbElem}
    (split : db i = before ++ e :: after) (counters : Counters e) :
    (timeoutVisit t i db before.length e).1.1 =
        update db i (before ++ (tickElem t e).toList ++ after) ∧
      (timeoutVisit t i db before.length e).2 =
        some (before.length + (tickElem t e).toList.length) := by
  have there : (db i)[before.length]? = some e := by
    rw [split, List.getElem?_append_right (Nat.le_refl _), Nat.sub_self]
    rfl
  have written : ∀ f, db.modify i before.length f =
      update db i (before ++ f e :: after) := by
    intro f
    rw [Db.modify, split, List.modify_eq_take_cons_drop (by simp)]
    simp
  have same : update db i (before ++ e :: after) = db := by
    rw [← split]
    exact update_eq_self i db
  unfold timeoutVisit tickElem
  by_cases running : 0 < e.timeout
  · rw [if_pos running, if_pos running]
    by_cases rip : e.type = .rip
    · rw [if_pos rip, if_pos rip]
      dsimp only
      by_cases expires : e.timeout - 1 = 0
      · rw [if_pos expires, if_pos expires, cleanRoute_db, modify_modify, modify_modify, written]
        simp
      · rw [if_neg expires, if_neg expires, written]
        simp
    · rw [if_neg rip, if_neg rip]
      simp [same]
  · have waiting : 0 < e.gc := by
      have iff := counters.timeout_iff
      omega
    rw [if_neg running, if_neg running, if_pos waiting]
    by_cases last : e.gc - 1 = 0
    · rw [if_pos last, if_pos last, split, List.eraseIdx_append_of_length_le (Nat.le_refl _)]
      simp
    · rw [if_neg last, if_neg last, written]
      simp

theorem listTimeout_eq {db : Db} {i : BitVec 8} {before rest : List RipDbElem}
    (split : db i = before ++ rest) (counters : ∀ e ∈ rest, Counters e) :
    (listTimeout t i rest.length before.length db).1 =
      update db i (before ++ rest.filterMap (tickElem t)) := by
  induction rest generalizing db before with
  | nil =>
    rw [List.filterMap_nil, ← split, update_eq_self]
    rfl
  | cons e rest ih =>
    obtain ⟨result, next⟩ := @timeoutVisit_eq t db i before rest e split
      (counters e List.mem_cons_self)
    have there : (db i)[before.length]? = some e := by
      rw [split, List.getElem?_append_right (Nat.le_refl _), Nat.sub_self]
      rfl
    rw [List.length_cons, listTimeout, there]
    dsimp only
    generalize visit : timeoutVisit t i db before.length e = r at result next
    obtain ⟨⟨db', effects⟩, at'⟩ := r
    subst next
    dsimp only at result ⊢
    have later := @ih db' (before ++ (tickElem t e).toList) (by
      rw [result, update_self]) (fun x member => counters x (List.mem_cons_of_mem e member))
    rw [List.length_append] at later
    rw [andThen, later, result, Function.update_idem, List.filterMap_cons]
    cases tickElem t e with
    | none => simp
    | some x => simp

theorem foldl_andThen_fst {α : Type} (g : Db → α → Db × List Effect) (xs : List α)
    (acc : Db × List Effect) : (xs.foldl (fun acc x => andThen acc (g · x)) acc).1 =
      xs.foldl (fun db x => (g db x).1) acc.1 := by
  induction xs generalizing acc with
  | nil => rfl
  | cons x xs ih => exact ih _

theorem ripdbTimeout_eq {db : Db} (tidy : Tidy db) (i : BitVec 8) :
    (ripdbTimeout t db).1 i = (db i).filterMap (tickElem t) := by
  have pass : ∀ is : List (BitVec 8), is.Nodup → ∀ db : Db,
      (∀ i ∈ is, ∀ e ∈ db i, Counters e) → ∀ j,
      is.foldl (fun db i => (listTimeout t i (db i).length 0 db).1) db j =
        if j ∈ is then (db j).filterMap (tickElem t) else db j := by
    intro is
    induction is with
    | nil => exact fun _ db _ j => (if_neg List.not_mem_nil).symm
    | cons i is ih =>
      intro distinct db counters j
      obtain ⟨apart, distinct⟩ := List.nodup_cons.mp distinct
      have first := @listTimeout_eq t db i [] (db i) rfl (counters i List.mem_cons_self)
      rw [List.nil_append] at first
      rw [List.foldl_cons, show (listTimeout t i (db i).length 0 db).1 =
        update db i ((db i).filterMap (tickElem t)) from first]
      rw [ih distinct]
      · by_cases here : j = i
        · rw [here, if_neg apart, if_pos List.mem_cons_self, update_self]
        · rw [update_of_ne here]
          exact if_congr (by simp [here]) rfl rfl
      · intro k later e member
        have other : k ≠ i := fun same => apart (same ▸ later)
        rw [update_of_ne other] at member
        exact counters k (List.mem_cons_of_mem i later) e member
  rw [ripdbTimeout, foldl_andThen_fst, pass buckets buckets_nodup db
    (fun i _ => tidy.counters i), if_pos (mem_buckets i)]

end Tick

/-- The fields that identify an entry. -/
abbrev Key := RcpRouteType × BitVec 32 × BitVec 32 × BitVec 32 × BitVec 32

def entryOf (db : Db) (k : Key) : Option RipDbElem :=
  (db (RipDb.hash k.2.1)).find? (fun e => key e = k)

/-- Whether the entry is there, and whether it has a metric below 16. -/
def phase (db : Db) (k : Key) : Option Bool := (entryOf db k).map (fun e => e.metric < 16)

section Entries

variable {db : Db} {k : Key} {e : RipDbElem}

theorem entryOf_some_iff (tidy : Tidy db) :
    entryOf db k = some e ↔ key e = k ∧ ∃ j, e ∈ db j := by
  constructor
  · intro found
    exact ⟨by simpa using List.find?_some found, _, List.mem_of_find?_eq_some found⟩
  · rintro ⟨rfl, j, member⟩
    have placed : j = RipDb.hash (key e).2.1 := (tidy.placed j e member).symm
    rw [placed] at member
    cases found : entryOf db (key e) with
    | none =>
      have absent := List.find?_eq_none.mp found e member
      simp at absent
    | some x =>
      have same : key x = key e := by simpa using List.find?_some found
      rw [List.inj_on_of_nodup_map (tidy.distinct _) (List.mem_of_find?_eq_some found) member same]

theorem entryOf_ripdbTimeout {t : UpdateTimer} (tidy : Tidy db)
    (tidy' : Tidy (ripdbTimeout t db).1) :
    entryOf (ripdbTimeout t db).1 k = (entryOf db k).bind (tickElem t) := by
  ext x
  rw [entryOf_some_iff tidy', Option.bind_eq_some_iff]
  constructor
  · rintro ⟨rfl, j, member⟩
    rw [ripdbTimeout_eq tidy] at member
    obtain ⟨e, there, ticked⟩ := List.mem_filterMap.mp member
    exact ⟨e, (entryOf_some_iff tidy).mpr ⟨(key_tickElem ticked).symm, j, there⟩, ticked⟩
  · rintro ⟨e, found, ticked⟩
    obtain ⟨rfl, j, there⟩ := (entryOf_some_iff tidy).mp found
    refine ⟨key_tickElem ticked, j, ?_⟩
    rw [ripdbTimeout_eq tidy]
    exact List.mem_filterMap.mpr ⟨e, there, ticked⟩

end Entries

/-- An entry and what an operation other than a tick or a refreshment makes of it: its counters
stay, or it is deleted. -/
def Aged (e x : RipDbElem) : Prop :=
  key x = key e ∧ (x.metric = e.metric ∧ x.timeout = e.timeout ∧ x.gc = e.gc ∨
    e.metric < 16 ∧ x.metric = 16)

section Ages

variable {t : UpdateTimer} {db : Db} {j : BitVec 8} {e x y : RipDbElem}

theorem Aged.refl (e : RipDbElem) : Aged e e := ⟨rfl, .inl ⟨rfl, rfl, rfl⟩⟩

theorem Aged.trans (first : Aged e x) (second : Aged x y) : Aged e y := by
  refine ⟨second.1.trans first.1, ?_⟩
  rcases second.2 with ⟨metric, timeout, gc⟩ | ⟨live, dead⟩
  · rcases first.2 with ⟨metric', timeout', gc'⟩ | ⟨live, dead⟩
    · exact .inl ⟨metric.trans metric', timeout.trans timeout', gc.trans gc'⟩
    · exact .inr ⟨live, metric.trans dead⟩
  · rcases first.2 with ⟨metric', _⟩ | ⟨_, dead'⟩
    · exact .inr ⟨metric' ▸ live, dead⟩
    · omega

theorem gc_kill (idle : e.gc = 0) : (kill t e).gc = t.routeCleanup := by
  rw [kill, startGc, if_pos (show (markDeleted e).gc = 0 from idle)]

theorem aged_kill (t : UpdateTimer) (counters : Counters e) : Aged e (kill t e) := by
  obtain ⟨same, dead, _⟩ := kill_fields t e
  refine ⟨same, ?_⟩
  by_cases live : e.metric < 16
  · exact .inr ⟨live, dead⟩
  · have le := counters.metric_le
    have gc := counters.gc_iff
    have timeout := counters.timeout_iff
    have waiting : ¬ (markDeleted e).gc = 0 := by
      simp only [markDeleted]
      omega
    have kept : kill t e = markDeleted e := if_neg waiting
    rw [kept]
    refine .inl ⟨?_, ?_, rfl⟩
    · simp only [markDeleted]
      omega
    · simp only [markDeleted]
      omega

theorem aged_of_mem_cleanMetric {ip mask : BitVec 32} (counters : ∀ e ∈ db j, Counters e)
    (member : x ∈ cleanMetric t db ip mask j) : ∃ e ∈ db j, Aged e x := by
  rcases mem_cleanMetric member with ⟨there, _⟩ | ⟨e, there, rfl⟩
  · exact ⟨x, there, Aged.refl x⟩
  · exact ⟨e, there, aged_kill t (counters e there)⟩

/-- The entry of an addition starts with the whole timeout, unless it is deleted at once. -/
def Started (t : UpdateTimer) (a : AddArgs) (x : RipDbElem) : Prop :=
  key x = argKey a ∧ (x.metric < 16 → x.timeout = t.routeTimeout)

theorem Started.aged {a : AddArgs} (started : Started t a x) (aged : Aged x y) :
    Started t a y := by
  refine ⟨aged.1.trans started.1, fun live => ?_⟩
  rcases aged.2 with ⟨metric, timeout, _⟩ | ⟨_, dead⟩
  · rw [timeout]
    exact started.2 (metric ▸ live)
  · omega

/-- An intermediate table of an addition: its own entry has started, and the others are those
from before. -/
theorem aged_or_started {db' : Db} {a : AddArgs} {s : RipDbElem} (tidy : Tidy db')
    (there : s ∈ db' (RipDb.hash a.ip)) (started : Started t a s)
    (others : ∀ y ∈ db' j, key y ≠ argKey a → y ∈ db j)
    (aged : ∃ y ∈ db' j, Aged y x) :
    (∃ e ∈ db j, Aged e x) ∧ key x ≠ argKey a ∨ Started t a x := by
  obtain ⟨y, member, aged⟩ := aged
  by_cases own : key y = argKey a
  · have ip : y.ip = a.ip := congrArg (fun k => k.2.1) own
    have placed := tidy.placed j y member
    rw [ip] at placed
    rw [← placed] at member
    have same : y = s := List.inj_on_of_nodup_map (tidy.distinct _) member there
      (own.trans started.1.symm)
    exact .inr (started.aged (same ▸ aged))
  · exact .inl ⟨⟨y, others y member own, aged⟩, aged.1 ▸ own⟩

theorem aged_of_mem_modify {i : BitVec 8} {n : Nat} {f : RipDbElem → RipDbElem}
    (member : x ∈ db.modify i n f j) (same : ∀ e, Aged e (f e)) : ∃ e ∈ db j, Aged e x := by
  rcases mem_modify member with there | ⟨rfl, e, there, rfl⟩
  · exact ⟨x, there, Aged.refl x⟩
  · exact ⟨e, List.mem_of_getElem? there, same e⟩

theorem mem_ripdbAdd_aged (sound : Sound db) {a : AddArgs} (member : x ∈ (ripdbAdd t db a).1 j) :
    (∃ e ∈ db j, Aged e x) ∧ key x ≠ argKey a ∨ Started t a x := by
  have tidy := (sound.ripdbAdd t a).toTidy
  have inserted : ∀ ecmp, ripdbAdd t db a = insertNew t db a ecmp →
      (∃ e ∈ db j, Aged e x) ∧ key x ≠ argKey a ∨ Started t a x := by
    intro ecmp result
    refine aged_or_started tidy (s := newElem t a) ?_ ⟨rfl, fun _ => rfl⟩ ?_
      ⟨x, member, Aged.refl x⟩
    · rw [result, insertNew]
      dsimp only
      rw [update_self]
      exact List.mem_cons_self
    · intro y later other
      rw [result] at later
      rcases mem_insertNew later with old | ⟨rfl, _⟩
      · exact old
      · exact absurd rfl other
  cases ripdbAdd_added t db a with
  | refreshed n e there same result =>
    rw [result] at member
    unfold refreshExact at member
    dsimp only at member
    rw [modify_modify] at member
    have restarted := sound.toTidy.restart t a n
    refine aged_or_started restarted (s := restart t a e) ?_ ⟨same, fun _ => rfl⟩ ?_ ?_
    · obtain ⟨before, after, _, _, written⟩ := modify_split there
      rw [written, update_self]
      exact List.mem_append_right _ List.mem_cons_self
    · intro y later other
      rcases mem_modify later with old | ⟨_, z, written, rfl⟩
      · exact old
      · rw [there] at written
        cases written
        exact absurd same other
    · split at member
      · obtain ⟨y, cleaned, aged⟩ :=
          aged_of_mem_modify member (fun e => ⟨rfl, .inl ⟨rfl, rfl, rfl⟩⟩)
        obtain ⟨z, measured, aged'⟩ := aged_of_mem_cleanMetric (restarted.counters j) cleaned
        exact ⟨z, measured, aged'.trans aged⟩
      · exact aged_of_mem_modify member (fun e => ⟨rfl, .inl ⟨rfl, rfl, rfl⟩⟩)
  | first _ _ result => exact inserted false result
  | refused n e _ _ absent _ result =>
    rw [result] at member
    refine .inl ⟨⟨x, member, Aged.refl x⟩, fun own => ?_⟩
    have ip : x.ip = a.ip := congrArg (fun k => k.2.1) own
    rw [← sound.placed j x member, ip] at member
    exact absent (List.mem_map.mpr ⟨x, member, own⟩)
  | replaced n e there found absent _ result =>
    rw [result] at member
    obtain ⟨hip, hmask⟩ := find_sharing found there
    have taken := sound.toTidy.takeOver t a there found absent
    have own : key ({ newElem t a with ip := e.ip, mask := e.mask } : RipDbElem) = argKey a := by
      rw [hip, hmask]
      rfl
    refine aged_or_started taken ?_ ⟨own, fun _ => rfl⟩ ?_
      (aged_of_mem_cleanMetric (taken.counters j) member)
    · obtain ⟨before, after, _, _, written⟩ := modify_split there
      rw [written, update_self]
      exact List.mem_append_right _ List.mem_cons_self
    · intro y later other
      rcases mem_modify later with old | ⟨_, z, written, rfl⟩
      · exact old
      · rw [there] at written
        cases written
        exact absurd own other
  | ecmp n e _ _ _ _ _ result => exact inserted true result

end Ages

/-- The database after an operation. -/
def exec (t : UpdateTimer) (db : Db) (op : Op) : Db := (step db (t, op)).1

def isTick : Op → Bool
  | .ripdbTimeout => true
  | _ => false

/-- `ripdb_add` is called for the route of the entry, by the same partner. -/
def refreshes (k : Key) : Op → Bool
  | .ripdbAdd a => argKey a = k
  | _ => false

def ticks (ops : List Op) : Nat := ops.countP isTick

section Operations

variable {t : UpdateTimer} {db : Db} {k : Key} {op : Op}

theorem sound_exec (sound : Sound db) (op : Op) : Sound (exec t db op) :=
  (run_keeps db [(t, op)] sound).1

/-- Cleaning routes keeps the invariant, and every entry has aged. -/
def Ages (db : Db) (_ : List Effect) (db' : Db) : Prop :=
  Sound db → Sound db' ∧ ∀ j, ∀ x ∈ db' j, ∃ e ∈ db j, Aged e x

theorem composes_ages : Composes Ages := by
  constructor
  · exact fun db sound => ⟨sound, fun _ x member => ⟨x, member, Aged.refl x⟩⟩
  · intro a b c _ _ first second sound
    obtain ⟨sound', ages⟩ := first sound
    obtain ⟨sound'', ages'⟩ := second sound'
    refine ⟨sound'', fun j x member => ?_⟩
    obtain ⟨y, there, aged⟩ := ages' j x member
    obtain ⟨e, there', aged'⟩ := ages j y there
    exact ⟨e, there', aged'.trans aged⟩

theorem ages_cleanRoute (t : UpdateTimer) (db : Db) (i : BitVec 8) (n : Nat) :
    Ages db (cleanRoute t db i n).2 (cleanRoute t db i n).1 := by
  refine fun sound => ⟨sound.cleanRoute t i n, fun j x member => ?_⟩
  rw [cleanRoute_db] at member
  rcases mem_modify member with there | ⟨rfl, e, there, rfl⟩
  · exact ⟨x, there, Aged.refl x⟩
  · have old := List.mem_of_getElem? there
    exact ⟨e, old, aged_kill t (sound.counters _ e old)⟩

theorem mem_exec_aged (sound : Sound db) (other : isTick op = false) {j : BitVec 8}
    {x : RipDbElem} (member : x ∈ exec t db op j) :
    (∃ e ∈ db j, Aged e x) ∧ refreshes (key x) op = false ∨
      ∃ a, op = .ripdbAdd a ∧ Started t a x := by
  have kept : x ∈ db j → ∃ e ∈ db j, Aged e x := fun there => ⟨x, there, Aged.refl x⟩
  have cleaned : ∀ chosen, x ∈ (cleanAll t chosen db).1 j → ∃ e ∈ db j, Aged e x :=
    fun chosen there => (composes_ages.cleanAll (ages_cleanRoute t) chosen db sound).2 j x there
  have cleaned1 : ∀ i n, x ∈ (cleanRoute t db i n).1 j → ∃ e ∈ db j, Aged e x :=
    fun i n there => (ages_cleanRoute t db i n sound).2 j x there
  cases op with
  | ripdbAdd a =>
    rcases mem_ripdbAdd_aged sound member with ⟨aged, apart⟩ | started
    · exact .inl ⟨aged, decide_eq_false fun same => apart same.symm⟩
    · exact .inr ⟨a, rfl, started⟩
  | ripdbDelete type ip mask gw partner =>
    refine .inl ⟨?_, rfl⟩
    simp only [exec, step, ripdbDelete] at member
    split at member
    · exact kept member
    · exact cleaned1 _ _ member
  | ripdbDeleteRip ip mask =>
    refine .inl ⟨?_, rfl⟩
    simp only [exec, step, ripdbDeleteRip] at member
    split at member
    · exact kept member
    · split at member
      · exact kept member
      · split at member
        · exact kept member
        · exact cleaned1 _ _ member
  | ripdbDeleteInterface intf =>
    simp only [exec, step, ripdbDeleteInterface] at member
    exact .inl ⟨cleaned _ member, rfl⟩
  | ripdbDeleteType type =>
    simp only [exec, step, ripdbDeleteType] at member
    exact .inl ⟨cleaned _ member, rfl⟩
  | ripdbDeleteAll =>
    simp only [exec, step, ripdbDeleteAll] at member
    exact .inl ⟨cleaned _ member, rfl⟩
  | ripdbTimeout => cases other

end Operations

/-- The entry so many ticks after its timers have started. -/
structure AtAge (t : UpdateTimer) (k : Key) (n : Nat) (db : Db) : Prop where
  sound : Sound db
  live : n < t.routeTimeout →
    ∃ e, entryOf db k = some e ∧ e.metric < 16 ∧ e.timeout + n = t.routeTimeout
  deleted : t.routeTimeout ≤ n → n < t.routeTimeout + t.routeCleanup →
    ∃ e, entryOf db k = some e ∧ e.metric = 16 ∧ e.gc + n = t.routeTimeout + t.routeCleanup
  gone : t.routeTimeout + t.routeCleanup ≤ n → entryOf db k = none

/-- Apart from the ticks the operation neither deletes the entry nor brings it back. -/
def LeavesAlone (t : UpdateTimer) (k : Key) (db : Db) (op : Op) : Prop :=
  isTick op = false → phase (exec t db op) k = phase db k

section Aging

variable {t : UpdateTimer} {db : Db} {k : Key} {op : Op} {n : Nat}

theorem phase_some_iff {b : Bool} : phase db k = some b ↔
    ∃ e, entryOf db k = some e ∧ decide (e.metric < 16) = b :=
  Option.map_eq_some_iff

theorem AtAge.phase (age : AtAge t k n db) : RipTimers.phase db k =
    if n < t.routeTimeout then some true
    else if n < t.routeTimeout + t.routeCleanup then some false else none := by
  by_cases early : n < t.routeTimeout
  · obtain ⟨e, found, live, _⟩ := age.live early
    rw [if_pos early]
    exact phase_some_iff.mpr ⟨e, found, decide_eq_true live⟩
  · rw [if_neg early]
    by_cases waiting : n < t.routeTimeout + t.routeCleanup
    · obtain ⟨e, found, dead, _⟩ := age.deleted (Nat.le_of_not_lt early) waiting
      rw [if_pos waiting]
      exact phase_some_iff.mpr ⟨e, found, decide_eq_false (by omega)⟩
    · rw [if_neg waiting, RipTimers.phase, age.gone (Nat.le_of_not_lt waiting)]
      rfl

theorem exec_ripdbTimeout : exec t db .ripdbTimeout = (ripdbTimeout t db).1 := rfl

theorem AtAge.tick (age : AtAge t k n db) (rip : k.1 = .rip) :
    AtAge t k (n+1) (exec t db .ripdbTimeout) := by
  have sound' := sound_exec (t := t) age.sound .ripdbTimeout
  have after := @entryOf_ripdbTimeout db k t age.sound.toTidy sound'.toTidy
  have type : ∀ e, entryOf db k = some e → e.type = .rip := by
    intro e found
    have same := ((entryOf_some_iff age.sound.toTidy).mp found).1
    rw [← rip, ← same]
    rfl
  have counters : ∀ e, entryOf db k = some e → Counters e := by
    intro e found
    obtain ⟨_, j, there⟩ := (entryOf_some_iff age.sound.toTidy).mp found
    exact age.sound.counters j e there
  have positive := t.routeCleanup_pos
  rw [exec_ripdbTimeout]
  refine ⟨sound', fun early => ?_, fun late waiting => ?_, fun expired => ?_⟩
  · obtain ⟨e, found, live, timeout⟩ := age.live (by omega)
    refine ⟨{ e with timeout := e.timeout - 1 }, ?_, live, by dsimp only; omega⟩
    rw [after, found, Option.bind_some, tickElem, if_pos (by omega), if_pos (type e found),
      if_neg (by omega)]
  · by_cases last : n < t.routeTimeout
    · obtain ⟨e, found, live, timeout⟩ := age.live last
      refine ⟨kill t { e with timeout := e.timeout - 1, gc := 0 }, ?_, ?_, ?_⟩
      · rw [after, found, Option.bind_some, tickElem, if_pos (by omega), if_pos (type e found),
          if_pos (by omega)]
      · exact (kill_fields t _).2.1
      · rw [gc_kill rfl]
        omega
    · obtain ⟨e, found, dead, gc⟩ := age.deleted (by omega) (by omega)
      have idle := (counters e found).timeout_iff
      refine ⟨{ e with gc := e.gc - 1 }, ?_, dead, by dsimp only; omega⟩
      rw [after, found, Option.bind_some, tickElem, if_neg (by omega), if_neg (by omega)]
  · rw [after]
    by_cases last : n < t.routeTimeout + t.routeCleanup
    · obtain ⟨e, found, dead, gc⟩ := age.deleted (by omega) last
      have idle := (counters e found).timeout_iff
      rw [found, Option.bind_some, tickElem, if_neg (by omega), if_pos (by omega)]
    · rw [age.gone (by omega), Option.bind_none]

theorem AtAge.other (age : AtAge t k n db) (noTick : isTick op = false)
    (stale : refreshes k op = false) (alone : LeavesAlone t k db op) :
    AtAge t k n (exec t db op) := by
  have sound' := sound_exec (t := t) age.sound op
  have kept := alone noTick
  have before : ∀ x, entryOf (exec t db op) k = some x → ∃ e, entryOf db k = some e ∧ Aged e x := by
    intro x found
    obtain ⟨same, j, member⟩ := (entryOf_some_iff sound'.toTidy).mp found
    rcases mem_exec_aged age.sound noTick member with ⟨⟨e, there, aged⟩, _⟩ | ⟨a, rfl, started⟩
    · exact ⟨e, (entryOf_some_iff age.sound.toTidy).mpr ⟨aged.1.symm.trans same, j, there⟩, aged⟩
    · have own : refreshes k (.ripdbAdd a) = true := decide_eq_true (started.1.symm.trans same)
      rw [own] at stale
      cases stale
  -- the entry is live afterwards as before, so that its counters are the same
  have after : ∀ e, entryOf db k = some e → ∃ x, entryOf (exec t db op) k = some x ∧
      x.metric = e.metric ∧ x.timeout = e.timeout ∧ x.gc = e.gc := by
    intro e found
    have own : RipTimers.phase db k = some (decide (e.metric < 16)) :=
      phase_some_iff.mpr ⟨e, found, rfl⟩
    obtain ⟨x, found', live⟩ := phase_some_iff.mp (kept.trans own)
    obtain ⟨e', there, aged⟩ := before x found'
    rw [found, Option.some.injEq] at there
    rw [← there] at aged
    refine ⟨x, found', ?_⟩
    rcases aged.2 with same | ⟨live', dead⟩
    · exact same
    · rw [decide_eq_true live', dead] at live
      cases live
  refine ⟨sound', fun early => ?_, fun late waiting => ?_, fun expired => ?_⟩
  · obtain ⟨e, found, live, timeout⟩ := age.live early
    obtain ⟨x, found', metric', timeout', _⟩ := after e found
    exact ⟨x, found', by omega, by omega⟩
  · obtain ⟨e, found, dead, gc⟩ := age.deleted late waiting
    obtain ⟨x, found', metric', _, gc'⟩ := after e found
    exact ⟨x, found', by omega, by omega⟩
  · cases found : entryOf (exec t db op) k with
    | none => rfl
    | some x =>
      obtain ⟨e, there, _⟩ := before x found
      rw [age.gone expired] at there
      cases there

theorem atAge_zero {a : AddArgs} (sound : Sound db)
    (live : phase (ripdbAdd t db a).1 (argKey a) = some true) :
    AtAge t (argKey a) 0 (ripdbAdd t db a).1 := by
  have sound' := sound.ripdbAdd t a
  have positive := t.routeTimeout_pos
  obtain ⟨x, found, valid⟩ := phase_some_iff.mp live
  obtain ⟨same, j, member⟩ := (entryOf_some_iff sound'.toTidy).mp found
  refine ⟨sound', fun _ => ⟨x, found, of_decide_eq_true valid, ?_⟩, fun late => by omega,
    fun expired => by omega⟩
  rcases mem_ripdbAdd_aged sound member with ⟨_, apart⟩ | started
  · exact absurd same apart
  · rw [Nat.add_zero]
    exact started.2 (of_decide_eq_true valid)

end Aging

/-- Between two refreshments there are at most so many ticks; there have been some already. -/
def refreshedWithin (limit : Nat) (k : Key) : Nat → List Op → Bool
  | _, [] => true
  | n, op :: ops =>
    if refreshes k op then refreshedWithin limit k 0 ops
    else if isTick op then n + 1 ≤ limit && refreshedWithin limit k (n+1) ops
    else refreshedWithin limit k n ops

/-- In every run in which the route is refreshed in every update interval, and that leaves it
alone otherwise, it stays live. -/
def StaysLive (t : UpdateTimer) : Prop :=
  ∀ (history : List (UpdateTimer × Op)) (a : AddArgs), a.type = .rip →
    phase (ripdbAdd t (run .initial history).1 a).1 (argKey a) = some true →
    ∀ ops, refreshedWithin t.seconds (argKey a) 0 ops = true →
      StepRuns.Along (exec t) (LeavesAlone t (argKey a)) ops
        (ripdbAdd t (run .initial history).1 a).1 →
      StepRuns.Always (exec t) (fun db => phase db (argKey a) = some true) ops
        (ripdbAdd t (run .initial history).1 a).1

/-- In every run without refreshment, and that leaves the route alone, it is deleted with the
tick of the timeout, and removed with that of the garbage collection. -/
def ExpiresOnTime (t : UpdateTimer) : Prop :=
  ∀ (history : List (UpdateTimer × Op)) (a : AddArgs), a.type = .rip →
    phase (ripdbAdd t (run .initial history).1 a).1 (argKey a) = some true →
    ∀ ops, (∀ op ∈ ops, refreshes (argKey a) op = false) →
      StepRuns.Along (exec t) (LeavesAlone t (argKey a)) ops
        (ripdbAdd t (run .initial history).1 a).1 →
      phase (ops.foldl (exec t) (ripdbAdd t (run .initial history).1 a).1) (argKey a) =
        if ticks ops < 6 * t.seconds then some true
        else if ticks ops < 6 * t.seconds + 4 * t.seconds then some false else none

section Runs

variable {t : UpdateTimer} {db : Db} {k : Key} {ops : List Op} {n : Nat}

theorem eq_ripdbTimeout {op : Op} (tick : isTick op = true) : op = .ripdbTimeout := by
  cases op with
  | ripdbTimeout => rfl
  | _ => cases tick

theorem AtAge.run (age : AtAge t k n db) (rip : k.1 = .rip)
    (stale : ∀ op ∈ ops, refreshes k op = false)
    (alone : StepRuns.Along (exec t) (LeavesAlone t k) ops db) :
    AtAge t k (n + ticks ops) (ops.foldl (exec t) db) := by
  induction ops generalizing n db with
  | nil => exact age
  | cons op ops ih =>
    obtain ⟨here, later⟩ := alone
    have rest := fun x member => stale x (List.mem_cons_of_mem op member)
    by_cases tick : isTick op = true
    · obtain rfl := eq_ripdbTimeout tick
      have next := ih (age.tick rip) rest later
      have count : ticks (.ripdbTimeout :: ops) = ticks ops + 1 := List.countP_cons_of_pos tick
      rwa [List.foldl_cons, count, Nat.add_comm (ticks ops), ← Nat.add_assoc]
    · have noTick : isTick op = false := Bool.eq_false_iff.mpr tick
      have next := ih (age.other noTick (stale op List.mem_cons_self) here) rest later
      have count : ticks (op :: ops) = ticks ops := List.countP_cons_of_neg tick
      rwa [List.foldl_cons, count]

theorem AtAge.always (age : AtAge t k n db) (rip : k.1 = .rip) (enough : t.seconds < t.routeTimeout)
    (early : n ≤ t.seconds) (within : refreshedWithin t.seconds k n ops = true)
    (alone : StepRuns.Along (exec t) (LeavesAlone t k) ops db) :
    StepRuns.Always (exec t) (fun db => RipTimers.phase db k = some true) ops db := by
  have live : RipTimers.phase db k = some true := by
    rw [age.phase, if_pos (by omega)]
  induction ops generalizing n db with
  | nil => exact live
  | cons op ops ih =>
    obtain ⟨here, later⟩ := alone
    refine ⟨live, ?_⟩
    unfold refreshedWithin at within
    have onward : ∀ m, AtAge t k m (exec t db op) → m ≤ t.seconds →
        refreshedWithin t.seconds k m ops = true →
        StepRuns.Always (exec t) (fun db => RipTimers.phase db k = some true) ops
          (exec t db op) := by
      intro m next small rest
      exact ih next small rest later (by rw [next.phase, if_pos (by omega)])
    by_cases fresh : refreshes k op = true
    · rw [if_pos fresh] at within
      cases op with
      | ripdbAdd a =>
        obtain rfl : argKey a = k := of_decide_eq_true fresh
        have kept : RipTimers.phase (ripdbAdd t db a).1 (argKey a) = some true :=
          (here rfl).trans live
        exact onward 0 (atAge_zero age.sound kept) (Nat.zero_le _) within
      | _ => cases fresh
    · rw [if_neg fresh] at within
      by_cases tick : isTick op = true
      · rw [if_pos tick, Bool.and_eq_true] at within
        obtain rfl := eq_ripdbTimeout tick
        exact onward (n+1) (age.tick rip) (of_decide_eq_true within.1) within.2
      · rw [if_neg tick] at within
        exact onward n (age.other (Bool.eq_false_iff.mpr tick) (Bool.eq_false_iff.mpr fresh) here)
          early within

/-- A first route, learned from 10.0.0.2. -/
def firstRoute : AddArgs := RipConsistency.ripRoute 0x0a000002

theorem phase_firstRoute (t : UpdateTimer) :
    phase (ripdbAdd t (run .initial []).1 firstRoute).1 (argKey firstRoute) = some true := by
  have inserted : (ripdbAdd t (run .initial []).1 firstRoute).1 =
      update Db.initial (RipDb.hash firstRoute.ip) [newElem t firstRoute] := rfl
  have tidy := ((run_keeps _ [] initial_sound).1.ripdbAdd t firstRoute).toTidy
  refine phase_some_iff.mpr ⟨newElem t firstRoute, (entryOf_some_iff tidy).mpr ⟨rfl,
    RipDb.hash firstRoute.ip, ?_⟩, rfl⟩
  rw [inserted, update_self]
  exact List.mem_cons_self

theorem alone_ticks (t : UpdateTimer) (k : Key) (n : Nat) (db : Db) :
    StepRuns.Along (exec t) (LeavesAlone t k) (List.replicate n .ripdbTimeout) db := by
  induction n generalizing db with
  | zero => exact trivial
  | succ n ih => exact ⟨fun contra => (by cases contra), ih _⟩

theorem phase_ticks (t : UpdateTimer) (n : Nat) :
    phase ((List.replicate n .ripdbTimeout).foldl (exec t)
        (ripdbAdd t (run .initial []).1 firstRoute).1) (argKey firstRoute) =
      if n < t.routeTimeout then some true
      else if n < t.routeTimeout + t.routeCleanup then some false else none := by
  have age := (atAge_zero (run_keeps _ [] initial_sound).1 (phase_firstRoute t)).run rfl
    (fun op member => by rw [List.eq_of_mem_replicate member]; rfl) (alone_ticks t _ n _)
  have count : ticks (List.replicate n .ripdbTimeout) = n := by
    rw [ticks, List.countP_replicate, if_pos (show isTick .ripdbTimeout = true from rfl)]
  rw [age.phase, count, Nat.zero_add]

theorem within_ticks (limit : Nat) (k : Key) {n m : Nat} (few : m + n ≤ limit) :
    refreshedWithin limit k m (List.replicate n .ripdbTimeout) = true := by
  induction n generalizing m with
  | zero => rfl
  | succ n ih =>
    rw [List.replicate_succ, refreshedWithin, if_neg (show ¬ refreshes k .ripdbTimeout = true from
      Bool.false_ne_true), if_pos (show isTick .ripdbTimeout = true from rfl),
      decide_eq_true (by omega), Bool.true_and]
    exact ih (by omega)

theorem staysLive_iff (t : UpdateTimer) : StaysLive t ↔ t.seconds < t.routeTimeout := by
  constructor
  · intro stays
    by_contra short
    have always := stays [] firstRoute rfl (phase_firstRoute t)
      (List.replicate t.routeTimeout .ripdbTimeout) (within_ticks _ _ (by omega))
      (alone_ticks t _ _ _)
    have last := StepRuns.always_iff_take.mp always t.routeTimeout
    rw [List.take_of_length_le (by simp), phase_ticks, if_neg (Nat.lt_irrefl _)] at last
    split at last
    · cases last
    · cases last
  · intro enough history a rip live ops within alone
    exact (atAge_zero (run_keeps _ history initial_sound).1 live).always rip enough (Nat.zero_le _)
      within alone

theorem expiresOnTime_iff (t : UpdateTimer) : ExpiresOnTime t ↔ t.routeTimeout = 6 * t.seconds := by
  have cleanup : t.routeCleanup = 4 * t.seconds := by
    have high := t.high
    rw [UpdateTimer.routeCleanup, Nat.mod_eq_of_lt (by omega), Nat.mul_comm]
  constructor
  · intro expires
    have sixfold : t.routeTimeout ≤ 6 * t.seconds := by
      rw [UpdateTimer.routeTimeout, Nat.mul_comm]
      exact Nat.mod_le ..
    by_contra differs
    have at' := expires [] firstRoute rfl (phase_firstRoute t)
      (List.replicate t.routeTimeout .ripdbTimeout)
      (fun op member => by rw [List.eq_of_mem_replicate member]; rfl) (alone_ticks t _ _ _)
    have count : ticks (List.replicate t.routeTimeout .ripdbTimeout) = t.routeTimeout := by
      rw [ticks, List.countP_replicate, if_pos (show isTick .ripdbTimeout = true from rfl)]
    have positive := t.routeCleanup_pos
    rw [phase_ticks, count, if_neg (Nat.lt_irrefl _), if_pos (by omega), if_pos (by omega)] at at'
    cases at'
  · intro whole history a rip live ops stale alone
    have age := (atAge_zero (run_keeps _ history initial_sound).1 live).run rip stale alone
    rw [age.phase, Nat.zero_add, whole, cleanup]

end Runs

/-- Live routes that are refreshed in every interval, and the exact times of the others, hold
together for the intervals up to 42 seconds; the routes that are refreshed stay live for those
from 52 seconds on too. -/
theorem refreshed_route_iff (t : UpdateTimer) :
    (StaysLive t ∧ ExpiresOnTime t ↔ t.seconds ≤ 42) ∧
      (StaysLive t ↔ t.seconds ≤ 42 ∨ 52 ≤ t.seconds) ∧ (ExpiresOnTime t ↔ t.seconds ≤ 42) := by
  have low := t.low
  have high := t.high
  have wrapped : t.routeTimeout =
      if t.seconds ≤ 42 then 6 * t.seconds else 6 * t.seconds - 256 := by
    rw [UpdateTimer.routeTimeout]
    split
    · rw [Nat.mod_eq_of_lt (by omega), Nat.mul_comm]
    · rw [Nat.mod_eq_sub_mod (by omega), Nat.mod_eq_of_lt (by omega), Nat.mul_comm]
  rw [staysLive_iff, expiresOnTime_iff, wrapped]
  split
  · omega
  · omega

/-- With 43 seconds the timeout is 2: the second tick deletes a route. -/
theorem route_lost_43 :
    (⟨43, by decide, by decide⟩ : UpdateTimer).routeTimeout = 2 ∧
      ¬ StaysLive ⟨43, by decide, by decide⟩ ∧ ¬ ExpiresOnTime ⟨43, by decide, by decide⟩ :=
  ⟨rfl, fun stays => absurd ((staysLive_iff _).mp stays) (by decide),
    fun expires => absurd ((expiresOnTime_iff _).mp expires) (by decide)⟩

end RipTimers
