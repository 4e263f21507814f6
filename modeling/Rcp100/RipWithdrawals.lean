import Rcp100.RipConsistency

/-!
# Withdrawn routes in RIP responses

A route that is withdrawn stays in the database with metric 16 until its garbage
collection ends, so that the neighbors learn that it is gone. A response therefore has
to list each entry with the metric that the interface may see. The branch for connected
subnets writes metric 1 whatever the entry holds.
-/

namespace RipWithdrawals

open RipDb RipInvariant RipResponse RipConsistency

/-- The entries that a response is about: all of them, or those with a recent change. -/
def listed (db : Db) (updatesOnly : Bool) : List RipDbElem :=
  (entries db).filter (fun e => !updatesOnly || e.updated)

/-- The record of an entry: unreachable if the entry is withdrawn or poisoned on the
interface, and with its own metric otherwise. -/
structure Tells (intf : RipInterface) (e : RipDbElem) (r : RipRoute) : Prop where
  ip : r.ip = e.ip
  mask : r.mask = e.mask
  withdrawn : e.metric = 16 → r.metric = 16
  live : e.metric < 16 → r.metric = if poisoned intf e then 16 else e.metric

/-- Each listed entry has its record at its place in the response. -/
def Announced (es : List RipDbElem) (intf : RipInterface) (response : List RipRoute) : Prop :=
  ∀ (k : Nat) e, es[k]? = some e → ∃ r, response[k]? = some r ∧ Tells intf e r

theorem ripdbBuildResponse_getElem? (db : Db) (intf : RipInterface) (rt : Nat → RipRoute)
    (updatesOnly : Bool) (k : Nat) : (ripdbBuildResponse db intf rt updatesOnly)[k]? =
      if k < ripMaxRoutes then (listed db updatesOnly)[k]?.map (advertise intf (rt k))
      else none := by
  unfold ripdbBuildResponse listed
  rw [List.getElem?_mapIdx, List.getElem?_take]
  split
  · rfl
  · rfl

section Record

variable {e : RipDbElem} (announceable : Announceable e) (intf : RipInterface) (unfilled : RipRoute)

include announceable in
theorem tells_iff : Tells intf e (advertise intf unfilled e) ↔
    (e.type = .connectedSubnets → e.metric ≠ 16) := by
  obtain ⟨same, ip, mask, ⟨subnets, _, one⟩ | ⟨other, metric⟩⟩ :=
    announceable.advertise intf unfilled
  · rw [same]
    constructor
    · intro tells _ withdrawn
      have value := tells.withdrawn withdrawn
      omega
    · intro live
      have value := (announceable.subnets subnets).resolve_right (live subnets)
      have clean : poisoned intf e = false := by simp [poisoned, subnets]
      refine ⟨ip, mask, fun withdrawn => absurd withdrawn (live subnets), fun _ => ?_⟩
      rw [one, clean, value]
      rfl
  · rw [same]
    refine ⟨fun _ subnets => absurd subnets other, fun _ => ⟨ip, mask, ?_, fun _ => metric⟩⟩
    intro withdrawn
    rw [metric, withdrawn, ite_self]

end Record

/-- A response announces its entries exactly when they fit the packet and no connected
subnet among them is withdrawn. -/
theorem announced_iff {db : Db} (announceable : ∀ e ∈ entries db, Announceable e)
    (intf : RipInterface) (rt : Nat → RipRoute) (updatesOnly : Bool) :
    Announced (listed db updatesOnly) intf (ripdbBuildResponse db intf rt updatesOnly) ↔
      (listed db updatesOnly).length ≤ ripMaxRoutes ∧
        ∀ e ∈ listed db updatesOnly, e.type = .connectedSubnets → e.metric ≠ 16 := by
  have known : ∀ e ∈ listed db updatesOnly, Announceable e := fun e member =>
    announceable e (List.mem_of_mem_filter member)
  -- the record at a place inside the packet is that of the entry there
  have record : ∀ (k : Nat) e, (listed db updatesOnly)[k]? = some e → k < ripMaxRoutes →
      (ripdbBuildResponse db intf rt updatesOnly)[k]? = some (advertise intf (rt k) e) := by
    intro k e there inside
    rw [ripdbBuildResponse_getElem?, if_pos inside, there, Option.map_some]
  constructor
  · intro announced
    have inside : ∀ (k : Nat) e, (listed db updatesOnly)[k]? = some e → k < ripMaxRoutes := by
      intro k e there
      obtain ⟨r, found, _⟩ := announced k e there
      by_contra outside
      rw [ripdbBuildResponse_getElem?, if_neg outside] at found
      cases found
    refine ⟨?_, ?_⟩
    · by_contra long
      have last : ripMaxRoutes < (listed db updatesOnly).length := Nat.lt_of_not_le long
      exact Nat.lt_irrefl _ (inside ripMaxRoutes _ (List.getElem?_eq_getElem last))
    · intro e member
      obtain ⟨k, there⟩ := List.getElem?_of_mem member
      obtain ⟨r, found, tells⟩ := announced k e there
      rw [record k e there (inside k e there)] at found
      cases found
      exact (tells_iff (known e member) intf (rt k)).mp tells
  · rintro ⟨few, live⟩ k e there
    have member := List.mem_of_getElem? there
    have inside : k < (listed db updatesOnly).length := (List.getElem?_eq_some_iff.mp there).1
    exact ⟨_, record k e there (Nat.lt_of_lt_of_le inside few),
      (tells_iff (known e member) intf (rt k)).mpr (live e member)⟩

/-- In every run the responses announce the entries rightly, withdrawn ones included,
exactly when they fit the packet and no withdrawn connected subnet is among them. -/
theorem withdrawals_iff (ops : List (UpdateTimer × Op))
    (callers : ∀ t a, (t, .ripdbAdd a) ∈ ops → FromCaller a) (intf : RipInterface)
    (rt : Nat → RipRoute) (updatesOnly : Bool) :
    Announced (listed (run .initial ops).1 updatesOnly) intf
        (ripdbBuildResponse (run .initial ops).1 intf rt updatesOnly) ↔
      (listed (run .initial ops).1 updatesOnly).length ≤ ripMaxRoutes ∧
        ∀ e ∈ listed (run .initial ops).1 updatesOnly,
          e.type = .connectedSubnets → e.metric ≠ 16 := by
  refine announced_iff ?_ intf rt updatesOnly
  intro e member
  obtain ⟨i, there⟩ := mem_entries.mp member
  exact run_announceable callers there

/-- A gateway withdraws its route, and its sibling stays. -/
theorem withdrawals_siblings :
    ((listed (run .initial siblingOps).1 false).map fun e => e.metric) = [3, 16] ∧
      Announced (listed (run .initial siblingOps).1 false) lan
        (ripdbBuildResponse (run .initial siblingOps).1 lan (fun _ => blank) false) :=
  ⟨by decide +kernel, (withdrawals_iff siblingOps siblingOps_callers lan (fun _ => blank)
    false).mpr (by decide +kernel)⟩

/-- 10.77.88.0/24 as a connected subnet. -/
def subnetRoute : AddArgs :=
  ⟨.connectedSubnets, 0x0a4d5800, 0xffffff00, 0, 1, 0, 1, Nat.one_ne_zero, Nat.one_lt_succ_succ _⟩

/-- The redistribution of connected subnets is switched on and off. -/
def withdrawnOps : List (UpdateTimer × Op) :=
  [(halfMinute, .ripdbAdd subnetRoute), (halfMinute, .ripdbDeleteType .connectedSubnets)]

/-- The withdrawn subnet goes on being announced with metric 1. -/
theorem withdrawn_subnet_announced :
    ((entries (run .initial withdrawnOps).1).map fun e => (e.type, e.metric)) =
        [(.connectedSubnets, 16)] ∧
      (ripdbBuildResponse (run .initial withdrawnOps).1 lan (fun _ => blank) false) =
        [⟨2, 0, 0x0a4d5800, 0xffffff00, 0, 1⟩] ∧
      ¬ Announced (listed (run .initial withdrawnOps).1 false) lan
        (ripdbBuildResponse (run .initial withdrawnOps).1 lan (fun _ => blank) false) := by
  have response : ripdbBuildResponse (run .initial withdrawnOps).1 lan (fun _ => blank) false =
      [⟨2, 0, 0x0a4d5800, 0xffffff00, 0, 1⟩] := by decide +kernel
  have entry : ((listed (run .initial withdrawnOps).1 false)[0]?.map fun e => e.metric) =
      some 16 := by decide +kernel
  refine ⟨by decide +kernel, response, ?_⟩
  intro announced
  obtain ⟨e, there, metric⟩ := Option.map_eq_some_iff.mp entry
  obtain ⟨r, found, tells⟩ := announced 0 e there
  rw [response] at found
  cases found
  have value : 1 = 16 := tells.withdrawn metric
  omega

end RipWithdrawals
