import Mathlib.Data.List.Count
import Mathlib.Tactic.Common

/-!
# Load balancing of the relay

A request that has not waited long goes to one group of servers, which is chosen at random.
The valid groups of the table are counted, and the group is searched for by a second loop. Its
counter goes on at every entry, so a group is found under its place in the table.
-/

namespace RelayBalancing

section Holes

variable {α : Type} {p : α → Bool}

/-- No entry that fails the test comes before one that passes it. -/
def Packed (p : α → Bool) (l : List α) : Prop := l.Pairwise fun a b => p b = true → p a = true

/-- The place is that of an entry that passes the test. -/
def Passes (p : α → Bool) (l : List α) (i : Nat) : Prop := ∃ a, l[i]? = some a ∧ p a = true

theorem passes_zero (a : α) (l : List α) : Passes p (a :: l) 0 ↔ p a = true := by
  simp [Passes]

theorem passes_succ (a : α) (l : List α) (i : Nat) :
    Passes p (a :: l) (i + 1) ↔ Passes p l i := by
  simp [Passes]

theorem Packed.passes_iff {l : List α} (packed : Packed p l) (i : Nat) :
    Passes p l i ↔ i < l.countP p := by
  induction l generalizing i with
  | nil => simp [Passes]
  | cons a l ih =>
    obtain ⟨before, rest⟩ := List.pairwise_cons.mp packed
    by_cases passes : p a = true
    · rw [List.countP_cons_of_pos passes]
      cases i with
      | zero => simp [passes_zero, passes]
      | succ i => rw [passes_succ, ih rest i, Nat.add_lt_add_iff_right]
    · have nobody : l.countP p = 0 :=
        List.countP_eq_zero.mpr fun b member also => passes (before b member also)
      rw [List.countP_cons_of_neg passes, nobody]
      refine iff_of_false ?_ (Nat.not_lt_zero i)
      cases i with
      | zero => exact fun first => passes ((passes_zero a l).mp first)
      | succ i =>
        intro later
        have below := (ih rest i).mp ((passes_succ a l i).mp later)
        rw [nobody] at below
        exact Nat.not_lt_zero i below

theorem packed_of_passes {l : List α} (all : ∀ i < l.countP p, Passes p l i) : Packed p l := by
  induction l with
  | nil => exact List.Pairwise.nil
  | cons a l ih =>
    by_cases passes : p a = true
    · rw [List.countP_cons_of_pos passes] at all
      refine List.pairwise_cons.mpr ⟨fun _ _ _ => passes, ih fun i below => ?_⟩
      exact (passes_succ a l i).mp (all (i + 1) (Nat.add_lt_add_right below 1))
    · rw [List.countP_cons_of_neg passes] at all
      have nobody : l.countP p = 0 := by
        by_contra some
        exact passes ((passes_zero a l).mp (all 0 (Nat.pos_of_ne_zero some)))
      refine List.pairwise_cons.mpr ⟨fun b member also => ?_, ih fun i below => ?_⟩
      · exact absurd also (List.countP_eq_zero.mp nobody b member)
      · rw [nobody] at below
        exact absurd below (Nat.not_lt_zero i)

end Holes

/-- `RcpDhcprServer`, without the lease counters. -/
structure Group where
  valid : Bool
  serverIp : List (BitVec 32)
deriving DecidableEq

/-- `RCP_DHCP_SERVER_GROUPS_LIMIT` -/
def groupsLimit : Nat := 4

/-- `shm->config.dhcpr_server`. -/
structure Table where
  groups : List Group
  size : groups.length = groupsLimit

/-- `RAND_MAX` -/
def randMax : Nat := 2147483647

/-- The group that the packet is sent to, by its place, and the calls of `txpacket`. -/
structure Sent where
  place : Nat
  servers : List (BitVec 32)
deriving DecidableEq

/-- The loop over the servers of a group. -/
def sendGroup (g : Group) : List (BitVec 32) := g.serverIp.filter (· ≠ 0)

/-- The second loop over the table. -/
def sendIndex (index : Nat) : Nat → Nat → List Group → Option Sent
  | _, _, [] => none
  | i, cnt, ptr :: rest =>
    if ptr.valid = false then sendIndex index (i+1) (cnt+1) rest
    else if cnt = index then some ⟨i, sendGroup ptr⟩
    else sendIndex index (i+1) (cnt+1) rest

/-- `rand` is what `rand()` returns. Nothing is sent when a loop comes to its end. -/
def txpacketRandomBalancing (table : Table) (rand : Nat) : Option Sent :=
  let cnt := table.groups.countP Group.valid
  if cnt = 0 then none else sendIndex (rand % cnt) 0 0 table.groups

/-- The packet goes to all servers of one valid group, and every valid group has its turn. -/
structure Balanced (table : Table) : Prop where
  sent : ∀ rand ≤ randMax, ∃ i g, txpacketRandomBalancing table rand = some ⟨i, sendGroup g⟩ ∧
    table.groups[i]? = some g ∧ g.valid = true
  chosen : ∀ i g, table.groups[i]? = some g → g.valid = true →
    ∃ rand ≤ randMax, txpacketRandomBalancing table rand = some ⟨i, sendGroup g⟩

theorem sendIndex_eq_some_iff {index i cnt : Nat} {groups : List Group} {sent : Sent} :
    sendIndex index i cnt groups = some sent ↔ cnt ≤ index ∧
      ∃ g, groups[index - cnt]? = some g ∧ g.valid = true ∧
        sent = ⟨i + (index - cnt), sendGroup g⟩ := by
  induction groups generalizing i cnt with
  | nil => simp [sendIndex]
  | cons ptr rest ih =>
    -- past the index nothing is found, and before it the loop goes on
    have later (goesOn : sendIndex index i cnt (ptr :: rest) = sendIndex index (i+1) (cnt+1) rest)
        (other : cnt = index → ptr.valid = false) :
        sendIndex index i cnt (ptr :: rest) = some sent ↔ cnt ≤ index ∧
          ∃ g, (ptr :: rest)[index - cnt]? = some g ∧ g.valid = true ∧
            sent = ⟨i + (index - cnt), sendGroup g⟩ := by
      rw [goesOn, ih]
      rcases Nat.lt_trichotomy cnt index with less | rfl | more
      · obtain ⟨k, rfl⟩ : ∃ k, index = cnt + 1 + k := Nat.exists_eq_add_of_lt less |>.imp
          fun k same => by omega
        have place : cnt + 1 + k - cnt = k + 1 := by omega
        have sum : i + 1 + k = i + (k + 1) := by omega
        rw [place, Nat.add_sub_cancel_left, List.getElem?_cons_succ, sum]
        exact and_congr_left fun _ => iff_of_true (by omega) (by omega)
      · refine iff_of_false (fun impossible => absurd impossible.1 (by omega)) ?_
        rintro ⟨-, g, here, valid, -⟩
        rw [Nat.sub_self, List.getElem?_cons_zero] at here
        cases here
        rw [other rfl] at valid
        cases valid
      · exact iff_of_false (fun impossible => absurd impossible.1 (by omega))
          fun impossible => absurd impossible.1 (by omega)
    by_cases valid : ptr.valid = false
    · exact later (if_pos valid) fun _ => valid
    by_cases here : cnt = index
    · subst here
      rw [sendIndex, if_neg valid, if_pos rfl, Option.some.injEq, Nat.sub_self,
        List.getElem?_cons_zero]
      constructor
      · rintro rfl
        exact ⟨Nat.le_refl _, ptr, rfl, eq_true_of_ne_false valid, rfl⟩
      · rintro ⟨-, g, same, -, rfl⟩
        rw [Option.some.inj same]
        rfl
    · refine later ?_ fun same => absurd same here
      rw [sendIndex, if_neg valid, if_neg here]

variable {table : Table}

theorem balancing_eq_some_iff (nonempty : ∃ g ∈ table.groups, g.valid = true) {rand : Nat}
    {sent : Sent} :
    txpacketRandomBalancing table rand = some sent ↔
      ∃ g, table.groups[rand % table.groups.countP Group.valid]? = some g ∧
        g.valid = true ∧ sent = ⟨rand % table.groups.countP Group.valid, sendGroup g⟩ := by
  have counted : table.groups.countP Group.valid ≠ 0 := by
    obtain ⟨g, member, valid⟩ := nonempty
    exact Nat.ne_of_gt (List.countP_pos_iff.mpr ⟨g, member, valid⟩)
  rw [txpacketRandomBalancing, if_neg counted, sendIndex_eq_some_iff]
  simp

/-- No request is dropped, and every group has its turn, exactly when no entry that is not
valid comes before a valid one. -/
theorem balanced_iff (nonempty : ∃ g ∈ table.groups, g.valid = true) :
    Balanced table ↔ Packed Group.valid table.groups := by
  have few : table.groups.countP Group.valid ≤ groupsLimit :=
    table.size ▸ List.countP_le_length
  have small : groupsLimit ≤ randMax := by decide
  constructor
  · intro balanced
    refine packed_of_passes fun i below => ?_
    obtain ⟨place, g, sent, -, -⟩ := balanced.sent i (by omega)
    obtain ⟨g, here, valid, -⟩ := (balancing_eq_some_iff nonempty).mp sent
    rw [Nat.mod_eq_of_lt below] at here
    exact ⟨g, here, valid⟩
  · intro packed
    refine ⟨fun rand _ => ?_, fun i g here valid => ?_⟩
    · obtain ⟨g, member, valid⟩ := nonempty
      have below := Nat.mod_lt rand (List.countP_pos_iff.mpr ⟨g, member, valid⟩)
      obtain ⟨g, here, valid⟩ := (packed.passes_iff _).mpr below
      exact ⟨_, g, (balancing_eq_some_iff ⟨g, List.mem_of_getElem? here, valid⟩).mpr
        ⟨g, here, valid, rfl⟩, here, valid⟩
    · have below := (packed.passes_iff i).mp ⟨g, here, valid⟩
      refine ⟨i, by omega, (balancing_eq_some_iff nonempty).mpr ⟨g, ?_, valid, ?_⟩⟩
      · rw [Nat.mod_eq_of_lt below]
        exact here
      · rw [Nat.mod_eq_of_lt below]

/-- One group with one server. -/
def oneServer : Group := ⟨true, [0x0a000001, 0, 0, 0]⟩

def unused : Group := ⟨false, [0, 0, 0, 0]⟩

theorem balanced_first : Balanced ⟨[oneServer, unused, unused, unused], rfl⟩ := by
  refine (balanced_iff ⟨oneServer, List.mem_cons_self, rfl⟩).mpr ?_
  unfold Packed
  decide

/-- The first of two groups was deleted: nothing is sent. -/
theorem deleted_drops : ¬ ∀ table : Table, (∃ g ∈ table.groups, g.valid = true) →
    Balanced table := by
  intro all
  obtain ⟨i, g, sent, -⟩ := (all ⟨[unused, oneServer, unused, unused], rfl⟩
    ⟨oneServer, by decide, rfl⟩).sent 0 (Nat.zero_le _)
  cases sent

end RelayBalancing
