import Rcp100.ForwardingTable
import Rcp100.IpAddress
import Rcp100.RipMoments
import Rcp100.StepRuns

/-!
# The kernel's copy of the RIP database

The kernel calls of the database drive a forwarding table whose keys are addresses
with a prefix length, since every call hands `mask2bits` of its mask to the kernel.
Every change of the live RIP routes of a prefix stands between a removal of what the
table says before it and an installation of what it says after it, so the kernel follows
the database as long as no two masks with live routes share a prefix of the kernel.
-/

namespace RipKernel

open IpAddress RipDb RipInvariant RipMoments ForwardingTable StepRuns
open Function (comp update update_of_ne update_self)

abbrev Prefix := BitVec 32 × Nat

abbrev Kernel := Prefix → Entry (BitVec 32)

def noRoutes : Kernel := fun _ => .none

/-- The kernel call of an effect; redistribution and the assertion make none. -/
def kernelCall : Effect → Option (Call Prefix (BitVec 32))
  | .rcpAddRoute ip mask gw _ => some (.add (ip, mask2bits mask) [gw])
  | .rcpDelRoute ip mask gw => some (.del (ip, mask2bits mask) [gw])
  | .rcpAddEcmpRoute ip mask _ gw => some (.add (ip, mask2bits mask) gw)
  | .rcpDelEcmpRoute ip mask gw => some (.del (ip, mask2bits mask) gw)
  | .redistributeRoute _ _ _ _ => none
  | .assertion => none

def kernelCalls (effects : List Effect) : List (Call Prefix (BitVec 32)) :=
  effects.filterMap kernelCall

/-- The gateways of the live RIP routes of a prefix, in bucket order. -/
def liveGw (db : Db) (ip mask : BitVec 32) : List (BitVec 32) :=
  ((db (RipDb.hash ip)).filter (isLive ip mask)).map RipDbElem.gw

/-- The gateways of the live RIP routes of all masks with a length. -/
def prefixGw (db : Db) (ip : BitVec 32) (bits : Nat) : Finset (BitVec 32) :=
  (((db (RipDb.hash ip)).filter
    (fun e => isLive ip e.mask e && mask2bits e.mask = bits)).map RipDbElem.gw).toFinset

/-- The kernel holds the live RIP routes of every prefix. -/
def Mirror (kernel : Kernel) (db : Db) : Prop :=
  ∀ ip bits, kernel (ip, bits) = .gateways (prefixGw db ip bits)

/-- No other mask of the length has a live route. -/
def Alone (db : Db) (ip mask : BitVec 32) : Prop :=
  ∀ mask', mask2bits mask' = mask2bits mask → mask' ≠ mask → liveGw db ip mask' = []

/-- Masks with live routes for one address have different lengths. -/
def Separate (db : Db) : Prop := ∀ ip mask, liveGw db ip mask ≠ [] → Alone db ip mask

/-- A RIP route is added while no other mask of its length has a live route. -/
def Separates (db : Db) : UpdateTimer × Op → Prop
  | (_, .ripdbAdd a) => a.type = .rip → ∀ e ∈ db (RipDb.hash a.ip),
      isLive a.ip e.mask e = true → mask2bits e.mask = mask2bits a.mask → e.mask = a.mask
  | _ => True

instance decidableSeparates (db : Db) : (op : UpdateTimer × Op) → Decidable (Separates db op)
  | (_, .ripdbAdd a) =>
    inferInstanceAs (Decidable (a.type = .rip → ∀ e ∈ db (RipDb.hash a.ip),
      isLive a.ip e.mask e = true → mask2bits e.mask = mask2bits a.mask → e.mask = a.mask))
  | (_, .ripdbDelete ..) | (_, .ripdbDeleteRip ..) | (_, .ripdbDeleteInterface _)
  | (_, .ripdbDeleteType _) | (_, .ripdbDeleteAll) | (_, .ripdbTimeout) => .isTrue trivial

/-- An operation keeps the kernel in step, and its removals name what is installed. -/
def Synced (db : Db) (effects : List Effect) (db' : Db) : Prop :=
  ∀ kernel, Mirror kernel db → ExactRun kernel (kernelCalls effects) ∧
    Mirror (ForwardingTable.run kernel (kernelCalls effects)) db'

theorem kernelCalls_append (first second : List Effect) :
    kernelCalls (first ++ second) = kernelCalls first ++ kernelCalls second :=
  List.filterMap_append

theorem Synced.trans {a b c : Db} {effects effects' : List Effect} (first : Synced a effects b)
    (second : Synced b effects' c) : Synced a (effects ++ effects') c := by
  intro kernel mirror
  obtain ⟨exact, mirror'⟩ := first kernel mirror
  obtain ⟨exact', mirror''⟩ := second _ mirror'
  rw [kernelCalls_append, exactRun_append, run_append]
  exact ⟨⟨exact, exact'⟩, mirror''⟩

variable {db db' : Db} {ip mask : BitVec 32} {i : BitVec 8} {n : Nat} {f : RipDbElem → RipDbElem}
  {e : RipDbElem}

theorem mem_liveGw {gw : BitVec 32} :
    gw ∈ liveGw db ip mask ↔ ∃ e ∈ db (RipDb.hash ip), isLive ip mask e = true ∧ e.gw = gw := by
  simp only [liveGw, List.mem_map, List.mem_filter, and_assoc]

theorem mem_prefixGw {bits : Nat} {gw : BitVec 32} :
    gw ∈ prefixGw db ip bits ↔ ∃ mask, mask2bits mask = bits ∧ gw ∈ liveGw db ip mask := by
  simp only [prefixGw, List.mem_toFinset, List.mem_map, List.mem_filter, Bool.and_eq_true,
    decide_eq_true_iff, mem_liveGw]
  constructor
  · rintro ⟨e, ⟨member, live, length⟩, rfl⟩
    exact ⟨e.mask, length, e, member, live, rfl⟩
  · rintro ⟨mask, length, e, member, live, rfl⟩
    obtain rfl := (isLive_iff.mp live).2.1
    exact ⟨e, ⟨member, live, length⟩, rfl⟩

theorem prefixGw_congr {bits : Nat}
    (same : ∀ mask, mask2bits mask = bits → liveGw db' ip mask = liveGw db ip mask) :
    prefixGw db' ip bits = prefixGw db ip bits := by
  ext gw
  rw [mem_prefixGw, mem_prefixGw]
  refine exists_congr fun mask => and_congr_right fun length => ?_
  rw [same mask length]

theorem Alone.prefixGw_eq (alone : Alone db ip mask) :
    prefixGw db ip (mask2bits mask) = (liveGw db ip mask).toFinset := by
  ext gw
  rw [mem_prefixGw, List.mem_toFinset]
  constructor
  · rintro ⟨mask', length, member⟩
    by_cases same : mask' = mask
    · exact same ▸ member
    · rw [alone mask' length same] at member
      exact absurd member List.not_mem_nil
  · exact fun member => ⟨mask, rfl, member⟩

theorem kernelCalls_redistribute (add : Bool) (ip mask : BitVec 32) (bucket : List RipDbElem) :
    kernelCalls (bucket.map (fun e => .redistributeRoute add ip mask e.gw)) = [] := by
  rw [kernelCalls, List.filterMap_map]
  exact List.filterMap_eq_nil_iff.mpr (fun _ _ => rfl)

theorem single_sharing {bucket : List RipDbElem} {found : RipDbElem}
    (single : bucket.filter (isLive ip mask) = [found]) :
    found.ip = ip ∧ found.mask = mask := by
  have member : found ∈ bucket.filter (isLive ip mask) := by rw [single]; simp
  have live := isLive_iff.mp (List.mem_filter.mp member).2
  exact ⟨live.1, live.2.1⟩

theorem kernelCalls_ecmpDel (db : Db) (ip mask : BitVec 32) :
    kernelCalls (ecmpDel db ip mask) =
      if liveGw db ip mask = [] then []
      else [.del (ip, mask2bits mask) (liveGw db ip mask)] := by
  unfold ecmpDel liveGw
  split
  · rename_i none
    rw [none]
    rfl
  · rename_i found single
    obtain ⟨hip, hmask⟩ := single_sharing single
    rw [single, hip, hmask]
    rfl
  · rename_i first second others several
    rw [kernelCalls_append, kernelCalls_redistribute, several]
    rfl

theorem kernelCalls_ecmpAdd (db : Db) (ip mask : BitVec 32) :
    kernelCalls (ecmpAdd db ip mask) =
      if liveGw db ip mask = [] then []
      else [.add (ip, mask2bits mask) (liveGw db ip mask)] := by
  unfold ecmpAdd liveGw
  split
  · rename_i none
    rw [none]
    rfl
  · rename_i found single
    obtain ⟨hip, hmask⟩ := single_sharing single
    rw [single, hip, hmask]
    rfl
  · rename_i first second others several
    rw [kernelCalls_append, kernelCalls_redistribute, several]
    rfl

theorem ecmpDel_removes {kernel : Kernel} (installed : liveGw db ip mask ≠ [] →
      kernel (ip, mask2bits mask) = .gateways (liveGw db ip mask).toFinset) :
    ExactRun kernel (kernelCalls (ecmpDel db ip mask)) ∧
      ForwardingTable.run kernel (kernelCalls (ecmpDel db ip mask)) (ip, mask2bits mask) =
        (if liveGw db ip mask = [] then kernel (ip, mask2bits mask) else .none) ∧
      ∀ key, key ≠ (ip, mask2bits mask) →
        ForwardingTable.run kernel (kernelCalls (ecmpDel db ip mask)) key = kernel key := by
  rw [kernelCalls_ecmpDel]
  by_cases none : liveGw db ip mask = []
  · rw [if_pos none, if_pos none]
    exact ⟨trivial, rfl, fun _ _ => rfl⟩
  · rw [if_neg none, if_neg none]
    refine ⟨⟨installed none, trivial⟩, ?_, fun key apart => step_other kernel (Ne.symm apart)⟩
    refine (step_key kernel (.del (ip, mask2bits mask) _)).trans ?_
    simp only [Call.key, installed none, Call.act, sdiff_self, Finset.bot_eq_empty, Entry.none]

theorem ecmpAdd_installs (kernel : Kernel) (db : Db) (ip mask : BitVec 32) :
    ExactRun kernel (kernelCalls (ecmpAdd db ip mask)) ∧
      ForwardingTable.run kernel (kernelCalls (ecmpAdd db ip mask)) (ip, mask2bits mask) =
        (if liveGw db ip mask = [] then kernel (ip, mask2bits mask)
        else .gateways (liveGw db ip mask).toFinset) ∧
      ∀ key, key ≠ (ip, mask2bits mask) →
        ForwardingTable.run kernel (kernelCalls (ecmpAdd db ip mask)) key = kernel key := by
  rw [kernelCalls_ecmpAdd]
  by_cases none : liveGw db ip mask = []
  · rw [if_pos none, if_pos none]
    exact ⟨trivial, rfl, fun _ _ => rfl⟩
  · rw [if_neg none, if_neg none]
    refine ⟨⟨trivial, trivial⟩, ?_, fun key apart => step_other kernel (Ne.symm apart)⟩
    exact step_key kernel (.add (ip, mask2bits mask) _)

/-- What an operation does to the live routes, and the moments of its calls: nothing, a
replacement of the routes of one prefix, or the first route of a prefix. The databases in
between have the live routes of the one before or of the one after the operation. -/
inductive Change (db : Db) : List Moment → Db → Prop where
  | silent {ms : List Moment} {db' : Db} (quiet : ∀ m ∈ ms, m.2 = .assertion)
      (same : ∀ ip mask, liveGw db' ip mask = liveGw db ip mask) : Change db ms db'
  | paired {before after db' : Db} {ip mask : BitVec 32}
      (read : ∀ ip mask, liveGw before ip mask = liveGw db ip mask)
      (written : ∀ ip mask, liveGw db' ip mask = liveGw after ip mask)
      (other : ∀ ip' mask', (ip', mask') ≠ (ip, mask) →
        liveGw after ip' mask' = liveGw before ip' mask') :
      Change db (replaced before after ip mask) db'
  | first {db' : Db} {ip mask gw : BitVec 32} {metric : Nat} (bare : liveGw db ip mask = [])
      (written : liveGw db' ip mask = [gw])
      (other : ∀ ip' mask', (ip', mask') ≠ (ip, mask) →
        liveGw db' ip' mask' = liveGw db ip' mask') :
      Change db (made db' [.rcpAddRoute ip mask gw metric, .redistributeRoute true ip mask gw]) db'

theorem Change.after_touch {mid : Db} {ms : List Moment}
    (same : ∀ ip mask, liveGw mid ip mask = liveGw db ip mask) (change : Change mid ms db') :
    Change db ms db' := by
  cases change with
  | silent quiet same' => exact .silent quiet fun ip mask => (same' ip mask).trans (same ip mask)
  | paired read written other =>
    exact .paired (fun ip mask => (read ip mask).trans (same ip mask)) written other
  | first bare written other =>
    exact .first ((same _ _).symm.trans bare) written fun ip' mask' apart =>
      (other ip' mask' apart).trans (same ip' mask')

/-- The kernel's entry of another prefix stays right where no live route changes there. -/
theorem mirror_elsewhere {ip' : BitVec 32} {bits : Nat}
    (other : ∀ ip' mask', (ip', mask') ≠ (ip, mask) → liveGw db' ip' mask' = liveGw db ip' mask')
    (apart : (ip', bits) ≠ (ip, mask2bits mask)) :
    prefixGw db' ip' bits = prefixGw db ip' bits := by
  refine prefixGw_congr fun mask' length => other ip' mask' fun same => apart ?_
  cases same
  rw [length]

theorem Change.synced {ms : List Moment} (change : Change db ms db') (separate : Separate db)
    (separate' : Separate db') : Synced db (ms.map Prod.snd) db' := by
  intro kernel mirror
  cases change with
  | silent quiet same =>
    have none : kernelCalls (ms.map Prod.snd) = [] := by
      rw [kernelCalls, List.filterMap_map]
      exact List.filterMap_eq_nil_iff.mpr fun m member => by simp [quiet m member, kernelCall]
    rw [none]
    refine ⟨trivial, fun ip bits => ?_⟩
    rw [prefixGw_congr fun mask _ => same ip mask]
    exact mirror ip bits
  | @paired before after _ ip mask read written other =>
    have other' : ∀ ip' mask', (ip', mask') ≠ (ip, mask) →
        liveGw db' ip' mask' = liveGw db ip' mask' := fun ip' mask' apart =>
      (written ip' mask').trans ((other ip' mask' apart).trans (read ip' mask'))
    have installed : liveGw before ip mask ≠ [] →
        kernel (ip, mask2bits mask) = .gateways (liveGw before ip mask).toFinset := by
      rw [read]
      exact fun occupied => (separate ip mask occupied).prefixGw_eq ▸ mirror ip (mask2bits mask)
    obtain ⟨exact, empty, kept⟩ := ecmpDel_removes installed
    obtain ⟨exact', full, kept'⟩ :=
      ecmpAdd_installs (ForwardingTable.run kernel (kernelCalls (ecmpDel before ip mask))) after
        ip mask
    rw [replaced_snd, kernelCalls_append, exactRun_append, run_append]
    refine ⟨⟨exact, exact'⟩, ?_⟩
    intro ip' bits
    by_cases here : (ip', bits) = (ip, mask2bits mask)
    · cases here
      rw [full, empty, ← written, read]
      by_cases after' : liveGw db' ip mask = []
      · rw [if_pos after']
        by_cases before' : liveGw db ip mask = []
        · rw [if_pos before', mirror]
          refine congrArg _ (prefixGw_congr fun mask' _ => ?_).symm
          by_cases same : mask' = mask
          · rw [same, after', before']
          · exact other' ip mask' (by simp [same])
        · have alone : Alone db' ip mask := fun mask' length differs =>
            (other' ip mask' (by simp [differs])).trans
              (separate ip mask before' mask' length differs)
          rw [if_neg before', alone.prefixGw_eq, after']
          rfl
      · rw [if_neg after', (separate' ip mask after').prefixGw_eq]
    · rw [kept' _ here, kept _ here, mirror_elsewhere other' here]
      exact mirror ip' bits
  | @first _ ip mask gw metric bare written other =>
    have calls : kernelCalls ((made db' [.rcpAddRoute ip mask gw metric,
        .redistributeRoute true ip mask gw]).map Prod.snd) =
          [.add (ip, mask2bits mask) [gw]] := by
      rw [made_snd]
      rfl
    have alone := separate' ip mask (by rw [written]; exact List.cons_ne_nil gw [])
    rw [calls]
    refine ⟨⟨trivial, trivial⟩, ?_⟩
    intro ip' bits
    by_cases here : (ip', bits) = (ip, mask2bits mask)
    · cases here
      rw [alone.prefixGw_eq, written]
      exact step_key kernel (.add (ip, mask2bits mask) [gw])
    · rw [mirror_elsewhere other here, ← mirror ip' bits]
      exact step_other kernel (c := .add (ip, mask2bits mask) [gw]) (Ne.symm here)

/-- A write to one entry does not change the live gateways of a prefix for which the
entry is live before and after with the same gateway, or neither before nor after. -/
theorem liveGw_modify (blind : ∀ e, (db i)[n]? = some e → isLive ip mask (f e) = isLive ip mask e ∧
      (isLive ip mask e = true → (f e).gw = e.gw)) :
    liveGw (db.modify i n f) ip mask = liveGw db ip mask := by
  cases there : (db i)[n]? with
  | none => rw [modify_absent there]
  | some e =>
    obtain ⟨before, after, split, _, written⟩ := modify_split there
    obtain ⟨live, gw⟩ := blind e there
    rw [written f, liveGw, liveGw]
    by_cases here : RipDb.hash ip = i
    · rw [here, update_self, split]
      by_cases wanted : isLive ip mask e = true
      · simp only [List.filter_append, List.filter_cons, live, wanted, if_true, List.map_append,
          List.map_cons, gw wanted]
      · simp [List.filter_append, live, wanted]
    · rw [update_of_ne here]

theorem liveGw_touch (same : ∀ e, key (f e) = key e)
    (metric : ∀ e, (db i)[n]? = some e → (f e).metric = e.metric) (ip mask : BitVec 32) :
    liveGw (db.modify i n f) ip mask = liveGw db ip mask := by
  apply liveGw_modify
  intro e there
  have type : (f e).type = e.type := congrArg (fun k => k.1) (same e)
  have hip : (f e).ip = e.ip := congrArg (fun k => k.2.1) (same e)
  have hmask : (f e).mask = e.mask := congrArg (fun k => k.2.2.1) (same e)
  have gw : (f e).gw = e.gw := congrArg (fun k => k.2.2.2.1) (same e)
  simp only [isLive, type, hip, hmask, metric e there, gw, implies_true, and_self]

theorem liveGw_modify_other {ip' mask' : BitVec 32} (other : (ip', mask') ≠ (ip, mask))
    (kept : ∀ e, (db i)[n]? = some e →
      (e.ip = ip ∧ e.mask = mask) ∧ (f e).ip = ip ∧ (f e).mask = mask) :
    liveGw (db.modify i n f) ip' mask' = liveGw db ip' mask' := by
  apply liveGw_modify
  intro e there
  obtain ⟨⟨hip, hmask⟩, hip', hmask'⟩ := kept e there
  have dead := not_live_other other hip hmask
  have dead' := not_live_other other hip' hmask'
  refine ⟨?_, fun live => False.elim (dead live)⟩
  rw [Bool.not_eq_true] at dead dead'
  rw [dead, dead']

theorem gateways_map (blind : ∀ e, isLive ip mask (f e) = isLive ip mask e ∧ (f e).gw = e.gw)
    (bucket : List RipDbElem) :
    ((bucket.map f).filter (isLive ip mask)).map RipDbElem.gw =
      (bucket.filter (isLive ip mask)).map RipDbElem.gw := by
  rw [List.filter_map, List.map_map]
  have live : isLive ip mask ∘ f = isLive ip mask := funext fun e => (blind e).1
  have gw : RipDbElem.gw ∘ f = RipDbElem.gw := funext fun e => (blind e).2
  rw [live, gw]

theorem liveGw_cleanMetric_other {ip' mask' : BitVec 32}
    (other : (ip', mask') ≠ (ip, mask)) (t : UpdateTimer) :
    liveGw (cleanMetric t db ip mask) ip' mask' = liveGw db ip' mask' := by
  unfold cleanMetric
  dsimp only
  by_cases idle : bestMetric (db (RipDb.hash ip)) ip mask = 16
  · rw [if_pos idle]
  rw [if_neg idle, liveGw, liveGw]
  by_cases here : RipDb.hash ip' = RipDb.hash ip
  · rw [here, update_self]
    apply gateways_map
    intro e
    split
    · rename_i demoted
      simp only [Bool.and_eq_true] at demoted
      obtain ⟨_, hip, hmask⟩ := isRipPrefix_iff.mp demoted.1
      have dead := not_live_other other hip hmask
      have dead' := not_isLive_kill t e ip' mask'
      rw [Bool.not_eq_true] at dead dead'
      refine ⟨dead'.trans dead.symm, ?_⟩
      exact congrArg (fun k => k.2.2.2.1) (kill_fields t e).1
    · exact ⟨rfl, rfl⟩
  · rw [update_of_ne here]

section

variable (t : UpdateTimer)

include t

theorem key_startGc (e : RipDbElem) :
    key (startGc t e) = key e ∧ (startGc t e).metric = e.metric := by
  unfold startGc
  split <;> exact ⟨rfl, rfl⟩

theorem change_cleanRoute (db : Db) (i : BitVec 8) (n : Nat) :
    Change db (cleanRouteMoments db i n) (cleanRoute t db i n).1 := by
  unfold cleanRouteMoments cleanRoute
  cases there : (db i)[n]? with
  | none => exact .silent (List.forall_mem_nil _) (fun _ _ => rfl)
  | some e =>
    have started : ∀ ip mask, liveGw ((db.modify i n markDeleted).modify i n (startGc t)) ip mask =
        liveGw (db.modify i n markDeleted) ip mask :=
      liveGw_touch (fun e => (key_startGc t e).1) (fun e _ => (key_startGc t e).2)
    by_cases rip : e.type = .rip
    · simp only [rip, if_true]
      refine .paired (fun _ _ => rfl) started ?_
      intro ip' mask' other
      apply liveGw_modify_other other
      intro x here
      rw [there] at here
      cases here
      exact ⟨⟨rfl, rfl⟩, rfl, rfl⟩
    · simp only [rip, if_false]
      refine .silent (List.forall_mem_nil _) ?_
      intro ip mask
      rw [started]
      apply liveGw_modify
      intro x here
      rw [there] at here
      cases here
      simp [isLive, markDeleted, rip]

theorem change_refreshExact (a : AddArgs)
    (there : (db (RipDb.hash a.ip))[n]? = some e) (same : key e = argKey a) :
    Change db (refreshMoments t db a n e) (refreshExact t db a n e).1 := by
  have hip : e.ip = a.ip := congrArg (fun k => k.2.1) same
  have hmask : e.mask = a.mask := congrArg (fun k => k.2.2.1) same
  unfold refreshMoments refreshExact
  dsimp only
  rw [modify_modify]
  split
  · refine .paired ?_ ?_ ?_
    · exact liveGw_touch (fun _ => rfl) (fun _ _ => rfl)
    · exact liveGw_touch (fun _ => rfl) (fun _ _ => rfl)
    · intro ip' mask' other
      rw [liveGw_cleanMetric_other other]
      refine Eq.trans ?_ (liveGw_touch ?_ ?_ ip' mask').symm
      rotate_left
      · exact fun _ => rfl
      · exact fun _ _ => rfl
      apply liveGw_modify_other other
      intro x here
      rw [there] at here
      cases here
      exact ⟨⟨hip, hmask⟩, hip, hmask⟩
  · rename_i quiet
    refine .silent (List.forall_mem_nil _) ?_
    intro ip mask
    refine Eq.trans (liveGw_touch ?_ ?_ ip mask) ?_
    · exact fun _ => rfl
    · exact fun _ _ => rfl
    apply liveGw_modify
    intro x here
    rw [there] at here
    cases here
    refine ⟨?_, fun _ => rfl⟩
    by_cases rip : e.type = .rip
    · have metric : e.metric = a.metric := by
        by_contra differs
        exact quiet ⟨rip, by simp [differs]⟩
      simp only [isLive, comp, metric]
    · simp [isLive, rip]

theorem change_replaceFound (a : AddArgs)
    (there : (db (RipDb.hash a.ip))[n]? = some e) (found : find db a.ip a.mask = some n) :
    Change db (replaceMoments t db a n) (replaceFound t db a n).1 := by
  obtain ⟨hip, hmask⟩ := find_sharing found there
  refine .paired (fun _ _ => rfl) (fun _ _ => rfl) ?_
  intro ip' mask' other
  rw [liveGw_cleanMetric_other other]
  apply liveGw_modify_other other
  intro x here
  rw [there] at here
  cases here
  exact ⟨⟨hip, hmask⟩, hip, hmask⟩

theorem liveGw_insertNew (db : Db) (a : AddArgs) (ecmp : Bool)
    (ip mask : BitVec 32) :
    liveGw (insertNew t db a ecmp).1 ip mask =
      if isLive ip mask (newElem t a) = true then a.gw :: liveGw db ip mask
      else liveGw db ip mask := by
  unfold insertNew liveGw
  dsimp only
  by_cases here : RipDb.hash ip = RipDb.hash a.ip
  · rw [here, update_self, List.filter_cons]
    split <;> rfl
  · have dead : ¬ isLive ip mask (newElem t a) = true := by
      intro live
      exact here (congrArg RipDb.hash (isLive_iff.mp live).1.symm)
    rw [update_of_ne here, if_neg dead]

theorem liveGw_insertNew_other (db : Db) (a : AddArgs) (ecmp : Bool)
    (other : (ip, mask) ≠ (a.ip, a.mask)) :
    liveGw (insertNew t db a ecmp).1 ip mask = liveGw db ip mask := by
  rw [liveGw_insertNew, if_neg (not_live_other (x := newElem t a) other rfl rfl)]

theorem change_insertNew (a : AddArgs) (ecmp : Bool)
    (alone : ecmp = false → liveGw db a.ip a.mask = []) :
    Change db (insertMoments t db a ecmp) (insertNew t db a ecmp).1 := by
  have apart : ∀ ip mask, (ip, mask) ≠ (a.ip, a.mask) →
      liveGw (insertNew t db a ecmp).1 ip mask = liveGw db ip mask := fun ip mask other =>
    liveGw_insertNew_other t db a ecmp other
  by_cases rip : a.type = .rip
  · cases ecmp with
    | true =>
      simp only [insertMoments, rip, if_true]
      exact .paired (fun _ _ => rfl) (fun _ _ => rfl) apart
    | false =>
      simp only [insertMoments, rip, if_true, Bool.false_eq_true, if_false]
      have live : isLive a.ip a.mask (newElem t a) = true :=
        isLive_iff.mpr ⟨rfl, rfl, a.metric_lt, rip⟩
      have written := liveGw_insertNew t db a false a.ip a.mask
      rw [if_pos live, alone rfl] at written
      exact .first (alone rfl) written apart
  · have silent : insertMoments t db a ecmp = [] := by
      simp only [insertMoments, rip, if_false]
    rw [silent]
    refine .silent (List.forall_mem_nil _) ?_
    intro ip mask
    have dead : ¬ isLive ip mask (newElem t a) = true := fun live =>
      rip (isLive_iff.mp live).2.2.2
    rw [liveGw_insertNew, if_neg dead]

theorem change_ripdbAdd (db : Db) (a : AddArgs) :
    Change db (ripdbAddMoments t db a) (ripdbAdd t db a).1 := by
  rw [ripdbAdd_branch, ripdbAddMoments]
  have taken := ripdbAddBranch_taken db a
  generalize ripdbAddBranch db a = branch at taken ⊢
  cases taken with
  | exact n e there same => exact change_refreshExact t a there same
  | better n e there found _ _ => exact change_replaceFound t a there found
  | joined n e _ _ _ _ _ => exact change_insertNew t a true (absurd · (by decide))
  | first absent none =>
    refine change_insertNew t a false fun _ => ?_
    rw [liveGw, List.map_eq_nil_iff, List.filter_eq_nil_iff]
    intro e member live
    have other := none e member
    rw [isPrefix_iff.mpr ⟨(isLive_iff.mp live).1, (isLive_iff.mp live).2.1⟩] at other
    cases other
  | refused n e _ _ _ _ => exact .silent (List.forall_mem_nil _) (fun _ _ => rfl)

end

theorem liveGw_eraseIdx
    (there : (db i)[n]? = some e) (dead : ¬ e.metric < 16) (ip mask : BitVec 32) :
    liveGw (update db i ((db i).eraseIdx n)) ip mask = liveGw db ip mask := by
  obtain ⟨before, after, split, length, _⟩ := modify_split there
  have erased : (db i).eraseIdx n = before ++ after := by
    rw [split, ← length, List.eraseIdx_append_of_length_le (Nat.le_refl _), Nat.sub_self]
    rfl
  have skipped : ¬ isLive ip mask e = true := fun live => dead (isLive_iff.mp live).2.2.1
  rw [erased, liveGw, liveGw]
  by_cases here : RipDb.hash ip = i
  · rw [here, update_self, split]
    simp [List.filter_append, skipped]
  · rw [update_of_ne here]

theorem change_timeoutVisit (sound : Sound db) (t : UpdateTimer)
    (there : (db i)[n]? = some e) :
    Change db (timeoutMoments i db n e) (timeoutVisit t i db n e).1.1 := by
  have counters := sound.counters i e (List.mem_of_getElem? there)
  have touched : ∀ f : RipDbElem → RipDbElem, (∀ e, key (f e) = key e) →
      (∀ e, (f e).metric = e.metric) →
      ∀ ip mask, liveGw (db.modify i n f) ip mask = liveGw db ip mask := fun f same metric =>
    liveGw_touch same fun e _ => metric e
  unfold timeoutMoments timeoutVisit
  by_cases running : 0 < e.timeout
  · rw [if_pos running, if_pos running]
    by_cases rip : e.type = .rip
    · rw [if_pos rip]
      dsimp only
      by_cases expires : e.timeout - 1 = 0
      · rw [if_pos ⟨rip, expires⟩, if_pos expires, modify_modify]
        refine .after_touch (touched _ ?_ ?_) (change_cleanRoute t _ i n)
        · exact fun _ => rfl
        · exact fun _ => rfl
      · rw [if_neg (fun both => expires both.2), if_neg expires]
        exact .silent (List.forall_mem_nil _) (touched _ (fun _ => rfl) (fun _ => rfl))
    · rw [if_neg rip, if_neg (fun both => rip both.1)]
      exact .silent (List.forall_mem_nil _) (fun _ _ => rfl)
  · rw [if_neg running, if_neg running]
    by_cases waiting : 0 < e.gc
    · rw [if_pos waiting, if_pos waiting]
      refine .silent (List.forall_mem_nil _) ?_
      by_cases last : e.gc - 1 = 0
      · rw [if_pos last]
        have dead : ¬ e.metric < 16 := fun live => by
          have idle := counters.gc_iff.mpr live
          omega
        exact liveGw_eraseIdx there dead
      · rw [if_neg last]
        exact touched _ (fun _ => rfl) (fun _ => rfl)
    · rw [if_neg waiting, if_neg waiting]
      exact .silent (fun m member => List.mem_singleton.mp (mem_made.mp member).2)
        (fun _ _ => rfl)

theorem liveGw_ne_nil : liveGw db ip mask ≠ [] ↔
    ∃ e ∈ db (RipDb.hash ip), isLive ip mask e = true := by
  rw [liveGw, Ne, List.map_eq_nil_iff, List.filter_eq_nil_iff]
  push Not
  rfl

/-- A mask has live routes after an operation only if it had some before or is the one added. -/
def Grows (added : BitVec 32 → BitVec 32 → Prop) (db db' : Db) : Prop :=
  ∀ ip mask, liveGw db' ip mask ≠ [] → liveGw db ip mask ≠ [] ∨ added ip mask

variable {added : BitVec 32 → BitVec 32 → Prop}

theorem Separate.grows (separate : Separate db) (grows : Grows added db db')
    (alone : ∀ ip mask, added ip mask → Alone db ip mask)
    (one : ∀ ip mask mask', added ip mask → added ip mask' → mask = mask') : Separate db' := by
  intro ip mask live mask' length differs
  by_contra live'
  rcases grows ip mask' live' with old' | new'
  · rcases grows ip mask live with old | new
    · exact old' (separate ip mask old mask' length differs)
    · exact old' (alone ip mask new mask' length differs)
  · rcases grows ip mask live with old | new
    · exact old (alone ip mask' new' mask length.symm (Ne.symm differs))
    · exact differs (one ip mask' mask new' new)

theorem grows_modify (i : BitVec 8) (n : Nat)
    (kept : ∀ e ip mask, (db i)[n]? = some e → isLive ip mask (f e) = true →
      isLive ip mask e = true ∨ added ip mask) : Grows added db (db.modify i n f) := by
  intro ip mask live
  obtain ⟨x, member, live⟩ := liveGw_ne_nil.mp live
  rcases mem_modify member with old | ⟨bucket, e, there, rfl⟩
  · exact .inl (liveGw_ne_nil.mpr ⟨x, old, live⟩)
  · refine (kept e ip mask there live).imp_left fun before => liveGw_ne_nil.mpr ⟨e, ?_, before⟩
    exact bucket ▸ List.mem_of_getElem? there

theorem Grows.trans {mid : Db} (first : Grows added db mid) (second : Grows added mid db') :
    Grows added db db' :=
  fun ip mask live => (second ip mask live).elim (first ip mask) .inr

theorem grows_same (same : ∀ ip mask, liveGw db' ip mask = liveGw db ip mask) :
    Grows added db db' :=
  fun ip mask live => .inl (same ip mask ▸ live)

theorem grows_cleanMetric (t : UpdateTimer) : Grows added db (cleanMetric t db ip mask) := by
  intro ip' mask' live
  obtain ⟨x, member, live⟩ := liveGw_ne_nil.mp live
  exact .inl (liveGw_ne_nil.mpr ⟨x, live_cleanMetric member live, live⟩)

theorem grows_cleanRoute (t : UpdateTimer) (db : Db) (i : BitVec 8) (n : Nat) :
    Grows added db (cleanRoute t db i n).1 := by
  rw [cleanRoute_db]
  exact grows_modify i n fun e ip mask _ live => absurd live (not_isLive_kill t e ip mask)

/-- The route of the arguments of `ripdb_add`. -/
def adds (a : AddArgs) (ip mask : BitVec 32) : Prop := a.type = .rip ∧ ip = a.ip ∧ mask = a.mask

theorem grows_insertNew (t : UpdateTimer) (db : Db) (a : AddArgs) (ecmp : Bool) :
    Grows (adds a) db (insertNew t db a ecmp).1 := by
  intro ip mask live
  rw [liveGw_insertNew] at live
  split at live
  · rename_i new
    obtain ⟨hip, hmask, -, rip⟩ := isLive_iff.mp new
    exact .inr ⟨rip, hip.symm, hmask.symm⟩
  · exact .inl live

theorem grows_ripdbAdd (t : UpdateTimer) (db : Db) (a : AddArgs) :
    Grows (adds a) db (ripdbAdd t db a).1 := by
  rcases ripdbAdd_added t db a with ⟨n, e, there, same, result⟩ | ⟨-, -, result⟩ |
    ⟨-, -, -, -, -, -, result⟩ | ⟨n, e, there, found, -, -, result⟩ |
    ⟨-, -, -, -, -, -, -, result⟩
  · have restarted : Grows (adds a) db (db.modify (RipDb.hash a.ip) n (restart t a)) := by
      refine grows_modify _ n fun x ip mask here live => .inr ?_
      rw [there] at here
      cases here
      obtain ⟨hip, hmask, -, rip⟩ := isLive_iff.mp live
      have type : e.type = a.type := congrArg (fun k => k.1) same
      have ip' : e.ip = a.ip := congrArg (fun k => k.2.1) same
      have mask' : e.mask = a.mask := congrArg (fun k => k.2.2.1) same
      exact ⟨type ▸ rip, hip ▸ ip', hmask ▸ mask'⟩
    rw [result, refreshExact]
    dsimp only
    rw [modify_modify]
    split
    · exact (restarted.trans (grows_cleanMetric t)).trans (grows_modify _ n fun _ _ _ _ => .inl)
    · exact restarted.trans (grows_modify _ n fun _ _ _ _ => .inl)
  · rw [result]
    exact grows_insertNew t db a false
  · rw [result]
    exact grows_same fun _ _ => rfl
  · obtain ⟨hip, hmask⟩ := find_sharing found there
    rw [result, replaceFound]
    refine Grows.trans (grows_modify _ n fun x ip mask here live => .inr ?_) (grows_cleanMetric t)
    rw [there] at here
    cases here
    obtain ⟨ip', mask', -, rip⟩ := isLive_iff.mp live
    exact ⟨rip, ip' ▸ hip, mask' ▸ hmask⟩
  · rw [result]
    exact grows_insertNew t db a true

theorem grows_timeoutVisit (t : UpdateTimer) (i : BitVec 8) (db : Db) (n : Nat) (e : RipDbElem) :
    Grows added db (timeoutVisit t i db n e).1.1 := by
  unfold timeoutVisit
  split
  · split
    · dsimp only
      split
      · rw [modify_modify]
        refine Grows.trans ?_ (grows_cleanRoute t _ i n)
        exact grows_modify i n fun _ _ _ _ => .inl
      · exact grows_modify i n fun _ _ _ _ => .inl
    · exact grows_same fun _ _ => rfl
  · split
    · split
      · intro ip mask live
        obtain ⟨x, member, live⟩ := liveGw_ne_nil.mp live
        refine .inl (liveGw_ne_nil.mpr ⟨x, ?_, live⟩)
        dsimp only at member
        by_cases here : RipDb.hash ip = i
        · rw [here, update_self] at member
          exact here ▸ List.mem_of_mem_eraseIdx member
        · rwa [update_of_ne here] at member
      · exact grows_modify i n fun _ _ _ _ => .inl
    · exact grows_same fun _ _ => rfl

/-- The step of the induction over a run. -/
def Kept (db : Db) (effects : List Effect) (db' : Db) : Prop :=
  Sound db → Separate db → Sound db' ∧ Separate db' ∧ Synced db effects db'

theorem composes_kept : Composes Kept := by
  constructor
  · exact fun db sound separate => ⟨sound, separate, fun kernel mirror => ⟨trivial, mirror⟩⟩
  · intro a b c effects effects' first second sound separate
    obtain ⟨sound', separate', synced⟩ := first sound separate
    obtain ⟨sound'', separate'', synced'⟩ := second sound' separate'
    exact ⟨sound'', separate'', synced.trans synced'⟩

theorem Separate.shrinks (separate : Separate db) (shrinks : Grows (fun _ _ => False) db db') :
    Separate db' :=
  separate.grows shrinks (fun _ _ none => none.elim) fun _ _ _ none => none.elim

theorem Separates.kept {op : UpdateTimer × Op} (separates : Separates db op) :
    Kept db (RipDb.step db op).2 (RipDb.step db op).1 := by
  obtain ⟨t, op⟩ := op
  refine composes_kept.step db ?_ ?_ ?_
  · rintro a rfl sound separate
    have separate' : Separate (ripdbAdd t db a).1 := by
      refine separate.grows (grows_ripdbAdd t db a) ?_ ?_
      · rintro ip mask ⟨rip, rfl, rfl⟩ mask' length differs
        by_contra live
        obtain ⟨x, member, live⟩ := liveGw_ne_nil.mp live
        obtain rfl := (isLive_iff.mp live).2.1
        exact differs (separates rip x member live length)
      · rintro ip mask mask' ⟨-, -, rfl⟩ ⟨-, -, rfl⟩
        rfl
    exact ⟨sound.ripdbAdd t a, separate',
      ripdbAddMoments_snd t db a ▸ (change_ripdbAdd t db a).synced separate separate'⟩
  · intro t db i n sound separate
    have separate' := separate.shrinks (grows_cleanRoute t db i n)
    exact ⟨sound.cleanRoute t i n, separate',
      cleanRouteMoments_snd t db i n ▸ (change_cleanRoute t db i n).synced separate separate'⟩
  · intro t i db n e there sound separate
    have separate' := separate.shrinks (grows_timeoutVisit t i db n e)
    exact ⟨sound.timeoutVisit t there, separate',
      timeoutMoments_snd t i db n e ▸
        (change_timeoutVisit sound t there).synced separate separate'⟩

theorem run_kept {ops : List (UpdateTimer × Op)}
    (along : Along (fun db op => (RipDb.step db op).1) Separates ops db) :
    Kept db (RipDb.run db ops).2 (RipDb.run db ops).1 := by
  induction ops generalizing db with
  | nil => exact composes_kept.refl db
  | cons op ops ih =>
    rw [RipDb.run_cons]
    exact composes_kept.trans along.1.kept (ih along.2)

/-- The gateways of the live RIP entries of a prefix, anywhere in the table. -/
def kernelGateways (db : Db) (ip : BitVec 32) (bits : Nat) : Finset (BitVec 32) :=
  (((entries db).filter
    (fun e => isLive ip e.mask e && mask2bits e.mask = bits)).map RipDbElem.gw).toFinset

theorem live_entry_iff (tidy : Tidy db) :
    e ∈ entries db ∧ isLive ip mask e = true ↔
      e ∈ db (RipDb.hash ip) ∧ isLive ip mask e = true := by
  refine and_congr_left fun live =>
    mem_entries.trans ⟨fun ⟨i, there⟩ => ?_, fun there => ⟨_, there⟩⟩
  rwa [← tidy.placed i e there, (isLive_iff.mp live).1] at there

theorem kernelGateways_eq (tidy : Tidy db) (ip : BitVec 32) (bits : Nat) :
    kernelGateways db ip bits = prefixGw db ip bits := by
  ext gw
  simp only [kernelGateways, prefixGw, List.mem_toFinset, List.mem_map, List.mem_filter,
    Bool.and_eq_true, ← and_assoc, live_entry_iff tidy]

/-- While a RIP route is only added when no other mask of its length has a live route, the
kernel holds, for every prefix, the gateways of the live RIP entries, and every removal names
exactly what is installed when it is made. -/
theorem kernel_mirrors_ripdb (ops : List (UpdateTimer × Op))
    (separates : Along (fun db op => (RipDb.step db op).1) Separates ops .initial) :
    ExactRun noRoutes (kernelCalls (RipDb.run .initial ops).2) ∧
      ∀ ip bits, ForwardingTable.run noRoutes (kernelCalls (RipDb.run .initial ops).2) (ip, bits) =
        .gateways (kernelGateways (RipDb.run .initial ops).1 ip bits) := by
  obtain ⟨sound, -, synced⟩ := run_kept separates initial_sound fun _ _ live => absurd rfl live
  obtain ⟨exact, mirror⟩ := synced noRoutes (fun _ _ => rfl)
  refine ⟨exact, ?_⟩
  intro ip bits
  rw [kernelGateways_eq sound.toTidy]
  exact mirror ip bits

/-- A route with metric 7, learned from its gateway. -/
def ripRoute (ip mask gw : BitVec 32) : AddArgs :=
  ⟨.rip, ip, mask, gw, 7, gw, 1, by decide, by decide⟩

/-- Two gateways for 192.0.0.0/8 and one for 192.0.0.0/16; the first one withdraws its route. -/
def nestedOps : List (UpdateTimer × Op) :=
  [(halfMinute, .ripdbAdd (ripRoute 0xc0000000 0xff000000 0x0a000001)),
    (halfMinute, .ripdbAdd (ripRoute 0xc0000000 0xff000000 0x0a000002)),
    (halfMinute, .ripdbAdd (ripRoute 0xc0000000 0xffff0000 0x0a000003)),
    (halfMinute, .ripdbDelete .rip 0xc0000000 0xff000000 0x0a000001 0x0a000001)]

theorem kernel_mirrors_ripdb_nested :
    ExactRun noRoutes (kernelCalls (RipDb.run .initial nestedOps).2) ∧
      ∀ ip bits,
        ForwardingTable.run noRoutes (kernelCalls (RipDb.run .initial nestedOps).2) (ip, bits) =
          .gateways (kernelGateways (RipDb.run .initial nestedOps).1 ip bits) :=
  kernel_mirrors_ripdb nestedOps (by
    refine ⟨?_, ?_, ?_, ?_, trivial⟩ <;> decide +kernel)

/-- 192.168.2.0 with the masks 255.0.255.0 and 255.0.0.0, which both have the length 8. -/
def sharedOps : List (UpdateTimer × Op) :=
  [(halfMinute, .ripdbAdd (ripRoute 0xc0a80200 0xff00ff00 0x0a000001)),
    (halfMinute, .ripdbAdd (ripRoute 0xc0a80200 0xff000000 0x0a000002))]

theorem masks_share_prefix :
    ¬ ∀ ops : List (UpdateTimer × Op),
      ExactRun noRoutes (kernelCalls (RipDb.run .initial ops).2) ∧
        ∀ ip bits,
          ForwardingTable.run noRoutes (kernelCalls (RipDb.run .initial ops).2) (ip, bits) =
            .gateways (kernelGateways (RipDb.run .initial ops).1 ip bits) := by
  intro all
  have held := (all sharedOps).2 0xc0a80200 8
  have installed : ForwardingTable.run noRoutes (kernelCalls (RipDb.run .initial sharedOps).2)
      (0xc0a80200, 8) = .gateways {0x0a000002} := by decide +kernel
  have live : kernelGateways (RipDb.run .initial sharedOps).1 0xc0a80200 8 =
      {0x0a000001, 0x0a000002} := by decide +kernel
  rw [installed, live] at held
  exact absurd held (by decide)

end RipKernel
