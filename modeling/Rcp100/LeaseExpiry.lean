import Rcp100.LeaseTables

/-!
# Leases that run out

`lease_timeout` looks at one of the 256 chains of leases, the one of the current second. A
lease that runs out in a second without a call stays until a call comes to its chain again.
-/

namespace LeaseExpiry

open ChainTable FaultRuns LeaseTables

/-- What a call of `lease_timeout` is for: no lease has run out afterwards, and those with
time left are as they were. -/
structure Swept (now : Nat) (m m' : Mem) : Prop where
  gone : ∀ p ∈ m'.live, now < m'.tstamp p
  kept : ∀ p ∈ m.live, now < m.tstamp p → p ∈ m'.live
  same : Same m m'
  database : Database m'

/-- The call does what it is for. -/
def Expires (m : Mem) : Op → Prop
  | .timeout now => ∃ m', exec m (.timeout now) = .ok m' ∧ Swept now m m'
  | _ => True

/-- The leases that have run out did so in a second of the chain of this call. -/
def InChain (m : Mem) : Op → Prop
  | .timeout now => ∀ p ∈ m.live, m.tstamp p ≤ now → m.tstamp p % 256 = now % 256
  | _ => True

instance (m : Mem) : (op : Op) → Decidable (InChain m op)
  | .timeout now =>
    inferInstanceAs (Decidable (∀ p ∈ m.live, m.tstamp p ≤ now → m.tstamp p % 256 = now % 256))
  | .add .. | .delete _ | .renew .. | .clearAll => .isTrue trivial

section Steps

variable {m m' : Mem}

theorem hashTstamp_eq_iff (a b : Nat) : hashTstamp a = hashTstamp b ↔ a % 256 = b % 256 := by
  constructor
  · intro same
    have equal := congrArg BitVec.toNat same
    rwa [hashTstamp, hashTstamp, BitVec.toNat_ofNat, BitVec.toNat_ofNat] at equal
  · intro same
    refine BitVec.eq_of_toNat_eq ?_
    rw [hashTstamp, hashTstamp, BitVec.toNat_ofNat, BitVec.toNat_ofNat]
    exact same

theorem timeout_spec (holds : Holds m m.live) (now : Nat) :
    ∃ m', exec m (.timeout now) = .ok m' ∧ Same m m' ∧ Holds m' m'.live ∧
      ∀ p, p ∈ m'.live ↔ p ∈ m.live ∧ ¬ (m.tstamp p ≤ now ∧ m.tstamp p % 256 = now % 256) := by
  obtain ⟨m', expired, same, live, held⟩ := leaseTimeout_spec holds now
  have left : m'.live = m.live.filter (fun p => ¬ due m now p) := by
    rw [live]
    refine List.filter_congr fun p member => ?_
    simp [member]
  refine ⟨m', expired, same, left ▸ held, fun p => ?_⟩
  rw [left, List.mem_filter, due]
  simp only [decide_eq_true_eq, Bool.and_eq_true, hashTstamp_eq_iff]

theorem expires_iff (holds : Holds m m.live) (op : Op) : Expires m op ↔ InChain m op := by
  cases op with
  | timeout now =>
    obtain ⟨m', executed, same, held, live⟩ := timeout_spec holds now
    constructor
    · rintro ⟨m'', executed', swept⟩ p member old
      cases executed.symm.trans executed'
      by_contra other
      have stays : p ∈ m'.live := (live p).mpr ⟨member, fun due => other due.2⟩
      have later := swept.gone p stays
      rw [same.tstamp] at later
      omega
    · intro inChain
      refine ⟨m', executed, fun p stays => ?_, fun p member later => ?_, same, .of_holds held⟩
      · obtain ⟨member, notDue⟩ := (live p).mp stays
        rw [same.tstamp]
        by_contra old
        exact notDue ⟨by omega, inChain p member (by omega)⟩
      · exact (live p).mpr ⟨member, fun due => by omega⟩
  | add | delete | renew | clearAll => exact Iff.rfl

theorem holds_step {op : Op} (holds : Holds m m.live) (allowed : Allowed m op)
    (executed : exec m op = .ok m') : Holds m' m'.live := by
  rcases exec_spec holds allowed with ⟨-, m'', executed', held⟩ | ⟨-, failed⟩
  · cases executed.symm.trans executed'
    exact held
  · rw [failed] at executed
    cases executed

end Steps

/-- In a run every call of `lease_timeout` removes exactly the leases that have run out where
those are all in its chain. -/
theorem leases_expire_iff (file : List LeaseStore) (ops : List Op)
    (allowed : Along exec Allowed ops (initial file)) :
    Along exec Expires ops (initial file) ↔ Along exec InChain ops (initial file) :=
  along_congr (I := fun m => Holds m m.live) (fun _ op holds _ => expires_iff holds op)
    (fun _ _ _ holds allowed executed => holds_step holds allowed executed) allowed
    (holds_initial file)

/-- A lease of twenty seconds, with a call at its last second. -/
def everySecondOps : List Op := [.add 1 10 120 100 (some 7), .timeout 119, .timeout 120]

theorem everySecond_expires : Along exec Expires everySecondOps (initial []) :=
  (leases_expire_iff [] everySecondOps (by decide +kernel)).mpr (by decide +kernel)

/-- The same lease, and no call at its last second. -/
def skippedSecondOps : List Op := [.add 1 10 120 100 (some 7), .timeout 119, .timeout 121]

theorem skippedSecond_stays :
    Along exec Allowed skippedSecondOps (initial []) ∧
      ¬ Along exec Expires skippedSecondOps (initial []) := by
  constructor
  · decide +kernel
  · intro expires
    have inChain : Along exec InChain skippedSecondOps (initial []) :=
      (along_congr (I := fun m => Holds m m.live) (fun _ op holds _ => expires_iff holds op)
        (fun _ _ _ holds allowed executed => holds_step holds allowed executed)
        (by decide +kernel) (holds_initial [])).mp expires
    exact absurd inChain (by decide +kernel)

end LeaseExpiry
