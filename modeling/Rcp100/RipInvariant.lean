import Mathlib.Data.List.Nodup
import Rcp100.RipDb

/-!
# The invariant of the RIP database

Every entry is either live, with a running timeout, or marked with metric 16 and
waiting for its garbage collection. Entries are rewritten in place and siblings are
demoted in the middle of an addition, so the clauses about single entries are kept
apart from the one that compares the metrics of a prefix: the former hold at every
moment, the latter is restored by `clean_metric`.
-/

namespace RipInvariant

open RipDb
open Function (comp update update_of_ne update_self)

/-- The fields that identify an entry. -/
def key (e : RipDbElem) : RcpRouteType × BitVec 32 × BitVec 32 × BitVec 32 × BitVec 32 :=
  (e.type, e.ip, e.mask, e.gw, e.partner)

/-- The timeout runs exactly for the entries with a valid metric, and the garbage
collection for the others. -/
structure Counters (e : RipDbElem) : Prop where
  timeout_iff : 0 < e.timeout ↔ e.gc = 0
  gc_iff : e.gc = 0 ↔ e.metric < 16
  metric_le : e.metric ≤ 16
  metric_pos : e.metric ≠ 0

/-- The clauses about single entries. -/
structure Tidy (db : Db) : Prop where
  placed : ∀ i, ∀ e ∈ db i, RipDb.hash e.ip = i
  distinct : ∀ i, ((db i).map key).Nodup
  counters : ∀ i, ∀ e ∈ db i, Counters e

/-- The live RIP routes of one prefix have one metric. -/
def Level (db : Db) (ip mask : BitVec 32) : Prop :=
  ∀ e ∈ db (RipDb.hash ip), ∀ f ∈ db (RipDb.hash ip),
    isLive ip mask e = true → isLive ip mask f = true → e.metric = f.metric

structure Sound (db : Db) : Prop extends Tidy db where
  level : ∀ ip mask, Level db ip mask

variable {ip mask ip' mask' : BitVec 32} {e x : RipDbElem} {db : Db} {i j : BitVec 8} {n : Nat}
  {f : RipDbElem → RipDbElem} {t : UpdateTimer}

theorem isLive_iff :
    isLive ip mask e = true ↔ e.ip = ip ∧ e.mask = mask ∧ e.metric < 16 ∧ e.type = .rip := by
  simp [isLive, and_assoc]

theorem isRipPrefix_iff :
    isRipPrefix ip mask e = true ↔ e.type = .rip ∧ e.ip = ip ∧ e.mask = mask := by
  simp [isRipPrefix, and_assoc]

theorem isExact_iff {type : RcpRouteType} {gw partner : BitVec 32} :
    isExact type ip mask gw partner e = true ↔ key e = (type, ip, mask, gw, partner) := by
  simp [isExact, key, and_assoc]

theorem isPrefix_iff :
    isPrefix ip mask e = true ↔ e.ip = ip ∧ e.mask = mask := by
  simp [isPrefix]

/-- A pointer splits its bucket, and a write through it replaces one entry. -/
theorem modify_split (there : (db i)[n]? = some e) :
    ∃ before after, db i = before ++ e :: after ∧ before.length = n ∧
      ∀ f, db.modify i n f = update db i (before ++ f e :: after) := by
  obtain ⟨inside, value⟩ := List.getElem?_eq_some_iff.mp there
  refine ⟨(db i).take n, (db i).drop (n+1), ?_, ?_, ?_⟩
  · rw [← value]
    simp
  · rw [List.length_take]
    omega
  · intro f
    rw [Db.modify, List.modify_eq_take_cons_drop inside, value]

theorem modify_modify (db : Db) (i : BitVec 8) (n : Nat) (f g : RipDbElem → RipDbElem) :
    (db.modify i n f).modify i n g = db.modify i n (g ∘ f) := by
  simp only [Db.modify, update_self, Function.update_idem, List.modify_modify_eq]

theorem modify_absent (absent : (db i)[n]? = none)
    (f : RipDbElem → RipDbElem) : db.modify i n f = db := by
  rw [Db.modify, List.modify_eq_self (List.getElem?_eq_none_iff.mp absent), Function.update_eq_self]

/-- Replacing one entry keeps the clauses, if the new one is in order and its
identity is that of the old one or is not taken. -/
theorem Tidy.swap (tidy : Tidy db) {before after : List RipDbElem}
    (split : db i = before ++ e :: after) (placed : RipDb.hash x.ip = i)
    (counters : Counters x) (free : key x = key e ∨ key x ∉ (db i).map key) :
    Tidy (update db i (before ++ x :: after)) := by
  have old : ∀ y, y ∈ before ++ x :: after → y = x ∨ y ∈ db i := by
    intro y member
    rw [split]
    simp only [List.mem_append, List.mem_cons] at member ⊢
    tauto
  have distinct := tidy.distinct i
  rw [split, List.map_append, List.map_cons, List.nodup_middle, List.nodup_cons] at distinct
  constructor
  · intro j y member
    by_cases same : j = i
    · subst same
      rw [update_self] at member
      rcases old y member with rfl | there
      · exact placed
      · exact tidy.placed j y there
    · rw [update_of_ne same] at member
      exact tidy.placed j y member
  · intro j
    by_cases same : j = i
    · subst same
      rw [update_self, List.map_append, List.map_cons, List.nodup_middle,
        List.nodup_cons]
      refine ⟨?_, distinct.2⟩
      rcases free with same | fresh
      · rw [same]
        exact distinct.1
      · intro taken
        apply fresh
        rw [split, List.map_append, List.map_cons]
        simp only [List.mem_append, List.mem_cons] at taken ⊢
        tauto
    · rw [update_of_ne same]
      exact tidy.distinct j
  · intro j y member
    by_cases same : j = i
    · subst same
      rw [update_self] at member
      rcases old y member with rfl | there
      · exact counters
      · exact tidy.counters j y there
    · rw [update_of_ne same] at member
      exact tidy.counters j y member

theorem Tidy.modify (tidy : Tidy db)
    (keeps : ∀ e, (db i)[n]? = some e → key (f e) = key e ∧ Counters (f e)) :
    Tidy (db.modify i n f) := by
  cases there : (db i)[n]? with
  | none => rwa [modify_absent there]
  | some e =>
    obtain ⟨same, counters⟩ := keeps e there
    obtain ⟨before, after, split, _, written⟩ := modify_split there
    have ip : (f e).ip = e.ip := congrArg (fun k => k.2.1) same
    rw [written f]
    refine tidy.swap split ?_ counters (.inl same)
    rw [ip]
    exact tidy.placed i e (List.mem_of_getElem? there)

theorem mem_modify (member : x ∈ db.modify i n f j) :
    x ∈ db j ∨ j = i ∧ ∃ e, (db i)[n]? = some e ∧ x = f e := by
  by_cases same : j = i
  · subst same
    cases there : (db j)[n]? with
    | none =>
      rw [modify_absent there] at member
      exact .inl member
    | some e =>
      obtain ⟨before, after, split, _, written⟩ := modify_split there
      rw [written f, update_self] at member
      rw [split]
      simp only [List.mem_append, List.mem_cons] at member ⊢
      rcases member with left | rfl | right
      · exact .inl (.inl left)
      · exact .inr ⟨trivial, e, rfl, rfl⟩
      · exact .inl (.inr (.inr right))
  · rw [Db.modify, update_of_ne same] at member
    exact .inl member

/-- Metrics stay level where every live entry has a live predecessor of its metric. -/
theorem Level.of_live {db' : Db} (level : Level db ip mask)
    (old : ∀ x ∈ db' (RipDb.hash ip), isLive ip mask x = true →
      ∃ e ∈ db (RipDb.hash ip), isLive ip mask e = true ∧ e.metric = x.metric) :
    Level db' ip mask := by
  intro x hx y hy liveX liveY
  obtain ⟨e, he, liveE, metricE⟩ := old x hx liveX
  obtain ⟨f, hf, liveF, metricF⟩ := old y hy liveY
  rw [← metricE, ← metricF]
  exact level e he f hf liveE liveF

theorem Level.modify (level : Level db ip mask)
    (old : ∀ e, (db i)[n]? = some e → isLive ip mask (f e) = true →
      isLive ip mask e = true ∧ (f e).metric = e.metric) :
    Level (db.modify i n f) ip mask := by
  apply level.of_live
  intro x member live
  rcases mem_modify member with there | ⟨bucket, e, there, rfl⟩
  · exact ⟨x, there, live, rfl⟩
  · obtain ⟨liveE, metric⟩ := old e there live
    exact ⟨e, bucket ▸ List.mem_of_getElem? there, liveE, metric.symm⟩

/-- The mark of a deleted route together with its garbage collection. -/
def kill (t : UpdateTimer) (e : RipDbElem) : RipDbElem := startGc t (markDeleted e)

theorem kill_fields (t : UpdateTimer) (e : RipDbElem) :
    key (kill t e) = key e ∧ (kill t e).metric = 16 ∧ (kill t e).timeout = 0 ∧
      (kill t e).gc ≠ 0 := by
  have running := t.routeCleanup_pos
  unfold kill startGc
  by_cases idle : (markDeleted e).gc = 0
  · rw [if_pos idle]
    exact ⟨rfl, rfl, rfl, Nat.ne_of_gt running⟩
  · rw [if_neg idle]
    exact ⟨rfl, rfl, rfl, idle⟩

theorem counters_kill (t : UpdateTimer) (e : RipDbElem) : Counters (kill t e) := by
  obtain ⟨_, metric, timeout, gc⟩ := kill_fields t e
  constructor <;> omega

theorem not_isLive_kill (t : UpdateTimer) (e : RipDbElem) (ip mask : BitVec 32) :
    ¬ isLive ip mask (kill t e) = true := by
  intro live
  have metric := (kill_fields t e).2.1
  have valid := (isLive_iff.mp live).2.2.1
  omega

theorem cleanRoute_db (t : UpdateTimer) (db : Db) (i : BitVec 8) (n : Nat) :
    (cleanRoute t db i n).1 = db.modify i n (kill t) := by
  unfold cleanRoute
  cases there : (db i)[n]? with
  | none => exact (modify_absent there _).symm
  | some e => exact modify_modify db i n markDeleted (startGc t)

theorem Sound.kill (sound : Sound db) (t : UpdateTimer) (i : BitVec 8) (n : Nat)
    (same : ∀ e, key (f e) = key e) :
    Sound (db.modify i n (RipInvariant.kill t ∘ f)) := by
  refine ⟨sound.toTidy.modify ?_, ?_⟩
  · intro e _
    exact ⟨(kill_fields t (f e)).1.trans (same e), counters_kill t (f e)⟩
  · intro ip mask
    apply (sound.level ip mask).modify
    intro e _ live
    exact False.elim (not_isLive_kill t (f e) ip mask live)

theorem Sound.cleanRoute (sound : Sound db) (t : UpdateTimer) (i : BitVec 8) (n : Nat) :
    Sound (RipDb.cleanRoute t db i n).1 := by
  rw [cleanRoute_db]
  exact sound.kill t i n (f := id) (fun _ => rfl)

/-- The step of the loop that records the best metric. -/
def better (ip mask : BitVec 32) (best : Nat) (e : RipDbElem) : Nat :=
  if isRipPrefix ip mask e && e.metric < best then e.metric else best

theorem foldl_better_le (ip mask : BitVec 32) (best : Nat) (bucket : List RipDbElem) :
    bucket.foldl (better ip mask) best ≤ best ∧ ∀ e ∈ bucket, isRipPrefix ip mask e = true →
      bucket.foldl (better ip mask) best ≤ e.metric := by
  induction bucket generalizing best with
  | nil => exact ⟨Nat.le_refl _, List.forall_mem_nil _⟩
  | cons e rest ih =>
    obtain ⟨below, all⟩ := ih (better ip mask best e)
    have shrinks : better ip mask best e ≤ best ∧
        (isRipPrefix ip mask e = true → better ip mask best e ≤ e.metric) := by
      unfold better
      by_cases rip : isRipPrefix ip mask e = true
      · by_cases less : e.metric < best
        · simp only [rip, less, decide_true, Bool.and_self, if_true]
          exact ⟨Nat.le_of_lt less, fun _ => Nat.le_refl _⟩
        · simp only [rip, less, decide_false, Bool.and_false, Bool.false_eq_true, if_false]
          exact ⟨Nat.le_refl _, fun _ => Nat.le_of_not_lt less⟩
      · simp [rip]
    refine ⟨Nat.le_trans below shrinks.1, ?_⟩
    intro f member rip
    rcases List.mem_cons.mp member with rfl | later
    · exact Nat.le_trans below (shrinks.2 rip)
    · exact all f later rip

theorem bestMetric_le (bucket : List RipDbElem) (ip mask : BitVec 32)
    (member : e ∈ bucket) (rip : isRipPrefix ip mask e = true) :
    bestMetric bucket ip mask ≤ e.metric :=
  (foldl_better_le ip mask 16 bucket).2 e member rip

/-- What `clean_metric` leaves in a bucket: entries it passed over, and killed ones. -/
theorem mem_cleanMetric (member : x ∈ cleanMetric t db ip mask j) :
    (x ∈ db j ∧ (j = RipDb.hash ip → isRipPrefix ip mask x = true →
        bestMetric (db (RipDb.hash ip)) ip mask = 16 ∨
          x.metric ≤ bestMetric (db (RipDb.hash ip)) ip mask)) ∨
      ∃ e ∈ db j, x = kill t e := by
  unfold cleanMetric at member
  by_cases idle : bestMetric (db (RipDb.hash ip)) ip mask = 16
  · rw [if_pos idle] at member
    exact .inl ⟨member, fun _ _ => .inl idle⟩
  rw [if_neg idle] at member
  by_cases here : j = RipDb.hash ip
  · subst here
    rw [update_self] at member
    obtain ⟨e, there, rfl⟩ := List.mem_map.mp member
    split
    · exact .inr ⟨e, there, rfl⟩
    · rename_i passed
      refine .inl ⟨there, fun _ rip => .inr ?_⟩
      simpa [rip] using passed
  · rw [update_of_ne here] at member
    exact .inl ⟨member, fun same => False.elim (here same)⟩

theorem map_key_cleanMetric (t : UpdateTimer) (db : Db) (ip mask : BitVec 32) (j : BitVec 8) :
    (cleanMetric t db ip mask j).map key = (db j).map key := by
  unfold cleanMetric
  split
  · rfl
  · by_cases here : j = RipDb.hash ip
    · subst here
      rw [update_self, List.map_map]
      apply List.map_congr_left
      intro e _
      dsimp only [comp]
      split
      · exact (kill_fields t e).1
      · rfl
    · rw [update_of_ne here]

theorem Tidy.cleanMetric (tidy : Tidy db) (t : UpdateTimer) (ip mask : BitVec 32) :
    Tidy (RipDb.cleanMetric t db ip mask) := by
  constructor
  · intro j x member
    rcases mem_cleanMetric member with ⟨there, _⟩ | ⟨e, there, rfl⟩
    · exact tidy.placed j x there
    · have ip : (kill t e).ip = e.ip := congrArg (fun k => k.2.1) (kill_fields t e).1
      rw [ip]
      exact tidy.placed j e there
  · intro j
    rw [map_key_cleanMetric]
    exact tidy.distinct j
  · intro j x member
    rcases mem_cleanMetric member with ⟨there, _⟩ | ⟨e, there, rfl⟩
    · exact tidy.counters j x there
    · exact counters_kill t e

theorem live_cleanMetric (member : x ∈ cleanMetric t db ip mask j)
    (live : isLive ip' mask' x = true) : x ∈ db j := by
  rcases mem_cleanMetric member with ⟨there, _⟩ | ⟨e, _, rfl⟩
  · exact there
  · exact False.elim (not_isLive_kill t e ip' mask' live)

theorem Level.cleanMetric_other (level : Level db ip' mask')
    (t : UpdateTimer) (ip mask : BitVec 32) : Level (cleanMetric t db ip mask) ip' mask' := by
  apply level.of_live
  intro x member live
  exact ⟨x, live_cleanMetric member live, live, rfl⟩

theorem metric_cleanMetric
    (member : x ∈ cleanMetric t db ip mask (RipDb.hash ip)) (live : isLive ip mask x = true) :
    x.metric = bestMetric (db (RipDb.hash ip)) ip mask := by
  obtain ⟨hip, hmask, valid, type⟩ := isLive_iff.mp live
  have rip : isRipPrefix ip mask x = true := isRipPrefix_iff.mpr ⟨type, hip, hmask⟩
  have there := live_cleanMetric member live
  have least := bestMetric_le _ ip mask there rip
  rcases mem_cleanMetric member with ⟨_, passed⟩ | ⟨e, _, rfl⟩
  · rcases passed rfl rip with idle | most
    · omega
    · exact Nat.le_antisymm most least
  · exact False.elim (not_isLive_kill t e ip mask live)

theorem level_cleanMetric (t : UpdateTimer) (db : Db) (ip mask : BitVec 32) :
    Level (cleanMetric t db ip mask) ip mask := by
  intro x hx y hy liveX liveY
  rw [metric_cleanMetric hx liveX, metric_cleanMetric hy liveY]

/-- After a write to an entry of one prefix, `clean_metric` on that prefix restores
the invariant. -/
theorem Tidy.sound_cleanMetric {db' : Db} (tidy : Tidy db') (level : ∀ ip mask, Level db ip mask)
    (t : UpdateTimer)
    (other : ∀ ip' mask', (ip', mask') ≠ (ip, mask) → ∀ x ∈ db' (RipDb.hash ip'),
      isLive ip' mask' x = true → x ∈ db (RipDb.hash ip')) :
    Sound (RipDb.cleanMetric t db' ip mask) := by
  refine ⟨tidy.cleanMetric t ip mask, ?_⟩
  intro ip' mask'
  by_cases same : (ip', mask') = (ip, mask)
  · cases same
    exact level_cleanMetric t db' ip mask
  · have kept : Level db' ip' mask' := by
      apply (level ip' mask').of_live
      intro x member live
      exact ⟨x, other ip' mask' same x member live, live, rfl⟩
    exact kept.cleanMetric_other t ip mask

/-- The identity under which `ripdb_add` looks for an entry. -/
def argKey (a : AddArgs) : RcpRouteType × BitVec 32 × BitVec 32 × BitVec 32 × BitVec 32 :=
  (a.type, a.ip, a.mask, a.gw, a.partner)

/-- The ways through `ripdb_add`: the exact entry is there, a better route takes over the
entry found for the prefix, an equal route joins it, the prefix is new, or nothing is done. -/
inductive Branch where
  | exact (n : Nat) (e : RipDbElem)
  | better (n : Nat) (e : RipDbElem)
  | joined
  | first
  | refused

def ripdbAddBranch (db : Db) (a : AddArgs) : Branch :=
  match findExact db a.type a.ip a.mask a.gw a.partner with
  | some n =>
    match (db (RipDb.hash a.ip))[n]? with
    | some e => .exact n e
    | none => .refused
  | none =>
    match find db a.ip a.mask with
    | none => .first
    | some n =>
      match (db (RipDb.hash a.ip))[n]? with
      | none => .refused
      | some e =>
        let cmp := compareTypeMetric a.type a.metric e
        if cmp = -1 then .refused
        else if cmp = 1 then .better n e
        else .joined

/-- Everything `ripdb_add` can do, guards included. -/
inductive Added (t : UpdateTimer) (db : Db) (a : AddArgs) (r : Db × List Effect) : Prop where
  | refreshed (n : Nat) (e : RipDbElem) (there : (db (RipDb.hash a.ip))[n]? = some e)
      (same : key e = argKey a) (result : r = refreshExact t db a n e)
  | first (absent : argKey a ∉ (db (RipDb.hash a.ip)).map key)
      (none : ∀ e ∈ db (RipDb.hash a.ip), isPrefix a.ip a.mask e = false)
      (result : r = insertNew t db a false)
  | refused (n : Nat) (e : RipDbElem) (there : (db (RipDb.hash a.ip))[n]? = some e)
      (found : find db a.ip a.mask = some n)
      (absent : argKey a ∉ (db (RipDb.hash a.ip)).map key)
      (worse : compareTypeMetric a.type a.metric e = -1) (result : r = (db, []))
  | replaced (n : Nat) (e : RipDbElem) (there : (db (RipDb.hash a.ip))[n]? = some e)
      (found : find db a.ip a.mask = some n)
      (absent : argKey a ∉ (db (RipDb.hash a.ip)).map key)
      (better : compareTypeMetric a.type a.metric e = 1) (result : r = replaceFound t db a n)
  | ecmp (n : Nat) (e : RipDbElem) (there : (db (RipDb.hash a.ip))[n]? = some e)
      (found : find db a.ip a.mask = some n)
      (absent : argKey a ∉ (db (RipDb.hash a.ip)).map key)
      (type : a.type = e.type) (metric : a.metric = e.metric) (result : r = insertNew t db a true)

theorem compareTypeMetric_zero {type : RcpRouteType} {metric : Nat}
    (worse : compareTypeMetric type metric e ≠ -1) (better : compareTypeMetric type metric e ≠ 1) :
    type = e.type ∧ metric = e.metric := by
  unfold compareTypeMetric at worse better
  split at worse
  · rename_i less
    exact absurd (if_pos less) better
  · rename_i notLess
    rw [if_neg notLess] at better
    split at worse
    · rename_i equal
      rw [if_pos equal] at better
      split at worse
      · rename_i smaller
        exact absurd (if_pos smaller) better
      · split at worse
        · rename_i same
          exact ⟨same, equal⟩
        · exact absurd rfl worse
    · exact absurd rfl worse

/-- What is known in each way through `ripdb_add`. -/
inductive Taken (db : Db) (a : AddArgs) : Branch → Prop where
  | exact (n : Nat) (e : RipDbElem) (there : (db (RipDb.hash a.ip))[n]? = some e)
      (same : key e = argKey a) : Taken db a (.exact n e)
  | better (n : Nat) (e : RipDbElem) (there : (db (RipDb.hash a.ip))[n]? = some e)
      (found : find db a.ip a.mask = some n)
      (absent : argKey a ∉ (db (RipDb.hash a.ip)).map key)
      (better : compareTypeMetric a.type a.metric e = 1) : Taken db a (.better n e)
  | joined (n : Nat) (e : RipDbElem) (there : (db (RipDb.hash a.ip))[n]? = some e)
      (found : find db a.ip a.mask = some n)
      (absent : argKey a ∉ (db (RipDb.hash a.ip)).map key)
      (type : a.type = e.type) (metric : a.metric = e.metric) : Taken db a .joined
  | first (absent : argKey a ∉ (db (RipDb.hash a.ip)).map key)
      (none : ∀ e ∈ db (RipDb.hash a.ip), isPrefix a.ip a.mask e = false) : Taken db a .first
  | refused (n : Nat) (e : RipDbElem) (there : (db (RipDb.hash a.ip))[n]? = some e)
      (found : find db a.ip a.mask = some n)
      (absent : argKey a ∉ (db (RipDb.hash a.ip)).map key)
      (worse : compareTypeMetric a.type a.metric e = -1) : Taken db a .refused

theorem ripdbAddBranch_taken (db : Db) (a : AddArgs) : Taken db a (ripdbAddBranch db a) := by
  unfold ripdbAddBranch
  cases whole : findExact db a.type a.ip a.mask a.gw a.partner with
  | some n =>
    obtain ⟨inside, matched, _⟩ := List.findIdx?_eq_some_iff_getElem.mp whole
    have there := List.getElem?_eq_getElem inside
    simp only [there]
    exact .exact n _ there (isExact_iff.mp matched)
  | none =>
    have absent : argKey a ∉ (db (RipDb.hash a.ip)).map key := by
      intro taken
      obtain ⟨e, there, same⟩ := List.mem_map.mp taken
      have passed := List.findIdx?_eq_none_iff.mp whole e there
      rw [isExact_iff.mpr same] at passed
      cases passed
    dsimp only
    cases found : find db a.ip a.mask with
    | none => exact .first absent (List.findIdx?_eq_none_iff.mp found)
    | some n =>
      obtain ⟨inside, _, _⟩ := List.findIdx?_eq_some_iff_getElem.mp found
      have there := List.getElem?_eq_getElem inside
      simp only [there]
      by_cases worse : compareTypeMetric a.type a.metric (db (RipDb.hash a.ip))[n] = -1
      · rw [if_pos worse]
        exact .refused n _ there found absent worse
      · rw [if_neg worse]
        by_cases better : compareTypeMetric a.type a.metric (db (RipDb.hash a.ip))[n] = 1
        · rw [if_pos better]
          exact .better n _ there found absent better
        · rw [if_neg better]
          obtain ⟨type, metric⟩ := compareTypeMetric_zero worse better
          exact .joined n _ there found absent type metric

/-- What `ripdb_add` does on each way. -/
def Branch.result (t : UpdateTimer) (db : Db) (a : AddArgs) : Branch → Db × List Effect
  | .exact n e => refreshExact t db a n e
  | .better n _ => replaceFound t db a n
  | .joined => insertNew t db a true
  | .first => insertNew t db a false
  | .refused => (db, [])

theorem ripdbAdd_branch (t : UpdateTimer) (db : Db) (a : AddArgs) :
    ripdbAdd t db a = (ripdbAddBranch db a).result t db a := by
  unfold ripdbAdd ripdbAddBranch
  cases findExact db a.type a.ip a.mask a.gw a.partner with
  | some n => cases there : (db (RipDb.hash a.ip))[n]? with
    | none => simp only [there, Branch.result]
    | some e => simp only [there, Branch.result]
  | none =>
    dsimp only
    cases find db a.ip a.mask with
    | none => rfl
    | some n => cases there : (db (RipDb.hash a.ip))[n]? with
      | none => simp only [there, Branch.result]
      | some e =>
        simp only [there]
        split
        · rfl
        · split
          · rfl
          · rfl

theorem ripdbAdd_added (t : UpdateTimer) (db : Db) (a : AddArgs) :
    Added t db a (ripdbAdd t db a) := by
  rw [ripdbAdd_branch]
  have taken := ripdbAddBranch_taken db a
  generalize ripdbAddBranch db a = branch at taken ⊢
  cases taken with
  | exact n e there same => exact .refreshed n e there same rfl
  | better n e there found absent better => exact .replaced n e there found absent better rfl
  | joined n e there found absent type metric => exact .ecmp n e there found absent type metric rfl
  | first absent none => exact .first absent none rfl
  | refused n e there found absent worse => exact .refused n e there found absent worse rfl

theorem find_sharing
    (found : find db ip mask = some n) (there : (db (RipDb.hash ip))[n]? = some e) :
    e.ip = ip ∧ e.mask = mask := by
  obtain ⟨inside, matched, _⟩ := List.findIdx?_eq_some_iff_getElem.mp found
  rw [List.getElem?_eq_getElem inside] at there
  cases there
  exact isPrefix_iff.mp matched

theorem counters_of_running (running : 0 < e.timeout) (gc : e.gc = 0)
    (pos : e.metric ≠ 0) (valid : e.metric < 16) : Counters e := by
  constructor <;> omega

theorem counters_newElem (t : UpdateTimer) (a : AddArgs) : Counters (newElem t a) :=
  counters_of_running t.routeTimeout_pos rfl a.metric_pos a.metric_lt

theorem Sound.touch (sound : Sound db)
    (same : ∀ e, key (f e) = key e)
    (metric : ∀ e, (db i)[n]? = some e → (f e).metric = e.metric)
    (counters : ∀ e, (db i)[n]? = some e → Counters (f e)) : Sound (db.modify i n f) := by
  refine ⟨sound.toTidy.modify fun e there => ⟨same e, counters e there⟩, ?_⟩
  intro ip mask
  apply (sound.level ip mask).modify
  intro e there live
  have type : (f e).type = e.type := congrArg (fun k => k.1) (same e)
  have hip : (f e).ip = e.ip := congrArg (fun k => k.2.1) (same e)
  have hmask : (f e).mask = e.mask := congrArg (fun k => k.2.2.1) (same e)
  rw [isLive_iff, type, hip, hmask, metric e there] at live
  exact ⟨isLive_iff.mpr live, metric e there⟩

theorem Sound.markUpdated (sound : Sound db) (i : BitVec 8) (n : Nat)
    (f : RipDbElem → Bool) : Sound (db.modify i n (fun e => { e with updated := f e })) := by
  refine sound.touch (fun _ => rfl) (fun _ _ => rfl) ?_
  intro e there
  obtain ⟨timeout, gc, le, pos⟩ := sound.counters i e (List.mem_of_getElem? there)
  exact ⟨timeout, gc, le, pos⟩

theorem not_live_other (other : (ip', mask') ≠ (ip, mask))
    (hip : x.ip = ip) (hmask : x.mask = mask) :
    ¬ isLive ip' mask' x = true := by
  intro live
  obtain ⟨hip', hmask', _⟩ := isLive_iff.mp live
  exact other (Prod.ext (hip'.symm.trans hip) (hmask'.symm.trans hmask))

/-- The entry that `ripdb_add` writes when it finds the exact route. -/
def restart (t : UpdateTimer) (a : AddArgs) (e : RipDbElem) : RipDbElem :=
  { e with timeout := t.routeTimeout, gc := 0, interface := a.interface, metric := a.metric }

theorem counters_restart (t : UpdateTimer) (a : AddArgs) (e : RipDbElem) :
    Counters (restart t a e) :=
  counters_of_running t.routeTimeout_pos rfl a.metric_pos a.metric_lt

theorem Tidy.restart (tidy : Tidy db) (t : UpdateTimer) (a : AddArgs) (n : Nat) :
    Tidy (db.modify (RipDb.hash a.ip) n (restart t a)) :=
  tidy.modify fun e _ => ⟨rfl, counters_restart t a e⟩

theorem Sound.refreshExact (sound : Sound db) (t : UpdateTimer) (a : AddArgs)
    (there : (db (RipDb.hash a.ip))[n]? = some e) (same : key e = argKey a) :
    Sound (RipDb.refreshExact t db a n e).1 := by
  have type : e.type = a.type := congrArg (fun k => k.1) same
  have hip : e.ip = a.ip := congrArg (fun k => k.2.1) same
  have hmask : e.mask = a.mask := congrArg (fun k => k.2.2.1) same
  have tidy := sound.toTidy.restart t a n
  unfold RipDb.refreshExact
  dsimp only
  rw [modify_modify]
  split
  · refine Sound.markUpdated ?_ _ _ _
    refine tidy.sound_cleanMetric sound.level t ?_
    intro ip' mask' other x member live
    rcases mem_modify member with old | ⟨_, y, written, rfl⟩
    · exact old
    · rw [there] at written
      cases written
      exact False.elim (not_live_other (x := RipInvariant.restart t a e) other hip hmask live)
  · rename_i quiet
    refine Sound.markUpdated ⟨tidy, ?_⟩ _ _ _
    intro ip mask
    apply (sound.level ip mask).modify
    intro y written live
    rw [there] at written
    cases written
    obtain ⟨hip', hmask', _, rip⟩ := isLive_iff.mp live
    have metric : e.metric = a.metric := by
      by_contra differs
      exact quiet ⟨rip, by simp [differs]⟩
    have valid : e.metric < 16 := metric ▸ a.metric_lt
    exact ⟨isLive_iff.mpr ⟨hip', hmask', valid, rip⟩, metric.symm⟩

/-- The entry of a prefix is overwritten by a route with another identity. -/
theorem Tidy.takeOver (tidy : Tidy db) (t : UpdateTimer) (a : AddArgs)
    (there : (db (RipDb.hash a.ip))[n]? = some e)
    (found : find db a.ip a.mask = some n)
    (absent : argKey a ∉ (db (RipDb.hash a.ip)).map key) :
    Tidy (db.modify (RipDb.hash a.ip) n
      (fun e => { newElem t a with ip := e.ip, mask := e.mask })) := by
  obtain ⟨hip, hmask⟩ := find_sharing found there
  obtain ⟨before, after, split, _, written⟩ := modify_split there
  have new : ({ newElem t a with ip := e.ip, mask := e.mask } : RipDbElem) = newElem t a := by
    rw [hip, hmask]
    rfl
  rw [written, new]
  exact tidy.swap split rfl (counters_newElem t a) (.inr absent)

theorem Sound.replaceFound (sound : Sound db) (t : UpdateTimer) (a : AddArgs)
    (there : (db (RipDb.hash a.ip))[n]? = some e)
    (found : find db a.ip a.mask = some n)
    (absent : argKey a ∉ (db (RipDb.hash a.ip)).map key) :
    Sound (RipDb.replaceFound t db a n).1 := by
  obtain ⟨hip, hmask⟩ := find_sharing found there
  refine (sound.toTidy.takeOver t a there found absent).sound_cleanMetric sound.level t ?_
  intro ip' mask' other x member live
  rcases mem_modify member with old | ⟨_, y, written, rfl⟩
  · exact old
  · rw [there] at written
    cases written
    obtain ⟨hip', hmask', _⟩ := isLive_iff.mp live
    exact absurd (Prod.ext (hip'.symm.trans hip) (hmask'.symm.trans hmask)) other

theorem mem_insertNew {a : AddArgs} {ecmp : Bool}
    (member : x ∈ (insertNew t db a ecmp).1 j) :
    x ∈ db j ∨ x = newElem t a ∧ j = RipDb.hash a.ip := by
  unfold insertNew at member
  dsimp only at member
  by_cases here : j = RipDb.hash a.ip
  · rw [here, update_self] at member
    rcases List.mem_cons.mp member with rfl | old
    · exact .inr ⟨rfl, here⟩
    · exact .inl (here ▸ old)
  · rw [update_of_ne here] at member
    exact .inl member

/-- A new entry is level with its prefix if the entry that was found is its equal, or
if none was found. -/
theorem Sound.insertNew (sound : Sound db) (t : UpdateTimer) (a : AddArgs)
    (ecmp : Bool) (absent : argKey a ∉ (db (RipDb.hash a.ip)).map key)
    (peer : ∀ x ∈ db (RipDb.hash a.ip), isLive a.ip a.mask x = true → a.type = .rip →
      x.metric = a.metric) : Sound (RipDb.insertNew t db a ecmp).1 := by
  refine ⟨⟨?_, ?_, ?_⟩, ?_⟩
  · intro j x member
    rcases mem_insertNew member with old | ⟨rfl, rfl⟩
    · exact sound.placed j x old
    · rfl
  · intro j
    unfold RipDb.insertNew
    dsimp only
    by_cases here : j = RipDb.hash a.ip
    · rw [here, update_self, List.map_cons, List.nodup_cons]
      exact ⟨absent, sound.distinct _⟩
    · rw [update_of_ne here]
      exact sound.distinct j
  · intro j x member
    rcases mem_insertNew member with old | ⟨rfl, _⟩
    · exact sound.counters j x old
    · exact counters_newElem t a
  · intro ip mask x hx y hy liveX liveY
    have peer' : ∀ x ∈ db (RipDb.hash ip), isLive ip mask x = true →
        isLive ip mask (newElem t a) = true → x.metric = a.metric := by
      intro x old live new
      obtain ⟨rfl, rfl, _, rip⟩ := isLive_iff.mp new
      exact peer x old live rip
    rcases mem_insertNew hx with oldX | ⟨rfl, _⟩
    · rcases mem_insertNew hy with oldY | ⟨rfl, _⟩
      · exact sound.level ip mask x oldX y oldY liveX liveY
      · exact peer' x oldX liveX liveY
    · rcases mem_insertNew hy with oldY | ⟨rfl, _⟩
      · exact (peer' y oldY liveY liveX).symm
      · rfl

theorem Sound.ripdbAdd (sound : Sound db) (t : UpdateTimer) (a : AddArgs) :
    Sound (RipDb.ripdbAdd t db a).1 := by
  cases ripdbAdd_added t db a with
  | refreshed n e there same result =>
    rw [result]
    exact sound.refreshExact t a there same
  | first absent none result =>
    rw [result]
    refine sound.insertNew t a false absent ?_
    intro x old live _
    have other := none x old
    rw [isPrefix_iff.mpr ⟨(isLive_iff.mp live).1, (isLive_iff.mp live).2.1⟩] at other
    cases other
  | refused n e _ _ _ _ result =>
    rw [result]
    exact sound
  | replaced n e there found absent _ result =>
    rw [result]
    exact sound.replaceFound t a there found absent
  | ecmp n e there found absent type metric result =>
    rw [result]
    refine sound.insertNew t a true absent ?_
    intro x old live rip
    obtain ⟨hip, hmask⟩ := find_sharing found there
    have member := List.mem_of_getElem? there
    have peer : isLive a.ip a.mask e = true :=
      isLive_iff.mpr ⟨hip, hmask, metric ▸ a.metric_lt, type.symm.trans rip⟩
    rw [metric]
    exact sound.level a.ip a.mask x old e member live peer

theorem Sound.eraseIdx (sound : Sound db) (i : BitVec 8) (n : Nat) :
    Sound (update db i ((db i).eraseIdx n)) := by
  have old : ∀ j x, x ∈ update db i ((db i).eraseIdx n) j → x ∈ db j := by
    intro j x member
    by_cases here : j = i
    · subst here
      rw [update_self] at member
      exact List.mem_of_mem_eraseIdx member
    · rwa [update_of_ne here] at member
  refine ⟨⟨fun j x member => sound.placed j x (old j x member), ?_,
    fun j x member => sound.counters j x (old j x member)⟩, ?_⟩
  · intro j
    by_cases here : j = i
    · subst here
      rw [update_self]
      exact (sound.distinct j).sublist ((List.eraseIdx_sublist _ n).map key)
    · rw [update_of_ne here]
      exact sound.distinct j
  · intro ip mask
    apply (sound.level ip mask).of_live
    intro x member live
    exact ⟨x, old _ x member, live, rfl⟩

theorem Sound.timeoutVisit (sound : Sound db) (t : UpdateTimer)
    (there : (db i)[n]? = some e) :
    Sound (RipDb.timeoutVisit t i db n e).1.1 := by
  have counters := sound.counters i e (List.mem_of_getElem? there)
  unfold RipDb.timeoutVisit
  by_cases running : 0 < e.timeout
  · rw [if_pos running]
    by_cases rip : e.type = .rip
    · rw [if_pos rip]
      dsimp only
      by_cases expires : e.timeout - 1 = 0
      · rw [if_pos expires, cleanRoute_db, modify_modify, modify_modify]
        exact sound.kill t i n (fun _ => rfl)
      · rw [if_neg expires]
        refine sound.touch (fun _ => rfl) (fun _ _ => rfl) ?_
        intro x here
        rw [there] at here
        cases here
        obtain ⟨timeout, gc, le, pos⟩ := counters
        exact ⟨⟨fun _ => timeout.mp running, fun _ => by dsimp only; omega⟩, gc, le, pos⟩
    · rw [if_neg rip]
      exact sound
  · rw [if_neg running]
    by_cases waiting : 0 < e.gc
    · rw [if_pos waiting]
      by_cases last : e.gc - 1 = 0
      · rw [if_pos last]
        exact sound.eraseIdx i n
      · rw [if_neg last]
        refine sound.touch (fun _ => rfl) (fun _ _ => rfl) ?_
        intro x here
        rw [there] at here
        cases here
        obtain ⟨timeout, gc, le, pos⟩ := counters
        constructor <;> dsimp only <;> omega
    · rw [if_neg waiting]
      exact sound

theorem assertion_notMem_ecmpDel (db : Db) (ip mask : BitVec 32) :
    Effect.assertion ∉ ecmpDel db ip mask := by
  unfold ecmpDel
  split <;> simp

theorem assertion_notMem_ecmpAdd (db : Db) (ip mask : BitVec 32) :
    Effect.assertion ∉ ecmpAdd db ip mask := by
  unfold ecmpAdd
  split <;> simp

theorem assertion_notMem_cleanRoute (t : UpdateTimer) (db : Db) (i : BitVec 8) (n : Nat) :
    Effect.assertion ∉ (cleanRoute t db i n).2 := by
  unfold cleanRoute
  cases (db i)[n]? with
  | none => simp
  | some e =>
    by_cases rip : e.type = .rip
    · simp [rip, assertion_notMem_ecmpDel, assertion_notMem_ecmpAdd]
    · simp [rip]

theorem assertion_notMem_ripdbAdd (t : UpdateTimer) (db : Db) (a : AddArgs) :
    Effect.assertion ∉ (ripdbAdd t db a).2 := by
  have del := assertion_notMem_ecmpDel
  have add := assertion_notMem_ecmpAdd
  cases ripdbAdd_added t db a with
  | refreshed n e _ _ result =>
    rw [result]
    unfold refreshExact
    dsimp only
    split <;> simp [del, add]
  | first _ _ result =>
    rw [result]
    unfold insertNew
    dsimp only
    split <;> simp
  | refused n e _ _ _ _ result => simp [result]
  | replaced n e _ _ _ _ result => simp [result, replaceFound, del, add]
  | ecmp n e _ _ _ _ _ result =>
    rw [result]
    unfold insertNew
    dsimp only
    split <;> simp [del, add]

theorem assertion_notMem_timeoutVisit (sound : Sound db) (t : UpdateTimer)
    (there : (db i)[n]? = some e) :
    Effect.assertion ∉ (timeoutVisit t i db n e).1.2 := by
  have counters := (sound.counters i e (List.mem_of_getElem? there)).timeout_iff
  unfold timeoutVisit
  by_cases running : 0 < e.timeout
  · rw [if_pos running]
    by_cases rip : e.type = .rip
    · rw [if_pos rip]
      dsimp only
      by_cases expires : e.timeout - 1 = 0
      · rw [if_pos expires]
        exact assertion_notMem_cleanRoute t _ i n
      · simp [expires]
    · simp [rip]
  · have waiting : 0 < e.gc := by omega
    rw [if_neg running, if_pos waiting]
    split <;> simp

/-- What an operation keeps: the invariant, and the assertion is not met. -/
def Keeps (db : Db) (effects : List Effect) (db' : Db) : Prop :=
  Sound db → Sound db' ∧ Effect.assertion ∉ effects

theorem composes_keeps : Composes Keeps := by
  constructor
  · exact fun db sound => ⟨sound, List.not_mem_nil⟩
  · intro a b c effects effects' first second sound
    obtain ⟨sound', quiet⟩ := first sound
    obtain ⟨sound'', quiet'⟩ := second sound'
    exact ⟨sound'', by simp [quiet, quiet']⟩

theorem initial_sound : Sound .initial :=
  ⟨⟨fun _ => List.forall_mem_nil _, fun _ => List.nodup_nil, fun _ => List.forall_mem_nil _⟩,
    fun _ _ _ member => nomatch member⟩

theorem run_keeps (db : Db) (ops : List (UpdateTimer × Op)) :
    Keeps db (run db ops).2 (run db ops).1 := by
  refine composes_keeps.run (fun _ => True) ?_ ?_ ?_ (fun _ _ _ => trivial) db
  · exact fun t db a _ sound => ⟨sound.ripdbAdd t a, assertion_notMem_ripdbAdd t db a⟩
  · exact fun t db i n sound => ⟨sound.cleanRoute t i n, assertion_notMem_cleanRoute t db i n⟩
  · exact fun t i db n e there sound =>
      ⟨sound.timeoutVisit t there, assertion_notMem_timeoutVisit sound t there⟩

theorem buckets_nodup : buckets.Nodup := by
  unfold buckets
  refine List.Nodup.map_on ?_ List.nodup_range
  intro x hx y hy same
  rw [List.mem_range] at hx hy
  have values := congrArg BitVec.toNat same
  simp only [BitVec.toNat_ofNat] at values
  omega

theorem mem_buckets (i : BitVec 8) : i ∈ buckets := by
  refine List.mem_map.mpr ⟨i.toNat, List.mem_range.mpr i.isLt, ?_⟩
  simp

theorem mem_entries : e ∈ entries db ↔ ∃ i, e ∈ db i := by
  simp [entries, mem_buckets]

theorem Tidy.nodup_entries (tidy : Tidy db) : ((entries db).map key).Nodup := by
  unfold entries
  rw [List.map_flatMap, List.nodup_flatMap]
  refine ⟨fun i _ => tidy.distinct i, ?_⟩
  refine buckets_nodup.imp ?_
  intro i j apart k left right
  obtain ⟨e, he, rfl⟩ := List.mem_map.mp left
  obtain ⟨f, hf, same⟩ := List.mem_map.mp right
  have ip : f.ip = e.ip := congrArg (fun k => k.2.1) same
  apply apart
  rw [← tidy.placed i e he, ← tidy.placed j f hf, ip]

/-- In every run: identities are distinct, entries sit in the bucket of their address,
the counters agree with the metric, the assertion of `list_timeout` is not met, and
the live RIP routes of a prefix have one metric. -/
theorem run_invariant (ops : List (UpdateTimer × Op)) :
    ((entries (run .initial ops).1).map key).Nodup ∧
      (∀ i, ∀ e ∈ (run .initial ops).1 i, RipDb.hash e.ip = i) ∧
      (∀ e ∈ entries (run .initial ops).1,
        (0 < e.timeout ↔ e.gc = 0) ∧ (e.gc = 0 ↔ e.metric < 16)) ∧
      Effect.assertion ∉ (run .initial ops).2 ∧
      ∀ e ∈ entries (run .initial ops).1, ∀ f ∈ entries (run .initial ops).1,
        e.type = .rip → f.type = .rip → e.metric < 16 → f.metric < 16 →
        e.ip = f.ip → e.mask = f.mask → e.metric = f.metric := by
  obtain ⟨sound, quiet⟩ := run_keeps _ ops initial_sound
  refine ⟨sound.nodup_entries, sound.placed, ?_, quiet, ?_⟩
  · intro e member
    obtain ⟨i, there⟩ := mem_entries.mp member
    have counters := sound.counters i e there
    exact ⟨counters.timeout_iff, counters.gc_iff⟩
  · intro e he f hf ripE ripF liveE liveF ip mask
    obtain ⟨i, thereE⟩ := mem_entries.mp he
    obtain ⟨j, thereF⟩ := mem_entries.mp hf
    rw [← sound.placed i e thereE] at thereE
    rw [← sound.placed j f thereF, ← ip] at thereF
    exact sound.level e.ip e.mask e thereE f thereF (isLive_iff.mpr ⟨rfl, rfl, liveE, ripE⟩)
      (isLive_iff.mpr ⟨ip.symm, mask.symm, liveF, ripF⟩)

end RipInvariant
