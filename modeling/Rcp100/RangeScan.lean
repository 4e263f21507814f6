import Mathlib.Algebra.Ring.Nat
import Rcp100.DhcpServer

/-!
# The search for a free address

`assign_ip` scans the range from the address behind the last one it assigned to the end, then
from the start of the range. Both loops compare a 32-bit counter with their last address, so
the scan of a range that ends at the last address of all does not stop there.
-/

namespace RangeScan

open ChainTable LeaseTables DhcpServer

/-- Some lease has the address. -/
def Leased (m : Mem) (leases : List Ptr) (a : Ip) : Prop := ∃ p ∈ leases, m.ip p = a

/-- A network with a range, as the commands leave it and `assign_lease` takes it. -/
structure Configured (net : Network) : Prop where
  valid : net.valid = true
  given : net.rangeStart ≠ 0
  ordered : net.rangeStart < net.rangeEnd
  startInside : net.rangeStart &&& net.mask = net.ip &&& net.mask
  endInside : net.rangeEnd &&& net.mask = net.ip &&& net.mask

/-- The addresses of the range. -/
def Within (net : Network) (a : Ip) : Prop := net.rangeStart ≤ a ∧ a ≤ net.rangeEnd

/-- The address of the range that follows the last one assigned. -/
def following (net : Network) : Ip :=
  if net.rangeStart.toNat ≤ net.lastIp.toNat + 1 ∧ net.lastIp.toNat + 1 ≤ net.rangeEnd.toNat then
    net.lastIp + 1
  else net.rangeStart

/-- How many addresses of the range come before this one. -/
def turn (net : Network) (a : Ip) : Nat :=
  if following net ≤ a then a.toNat - (following net).toNat
  else a.toNat - net.rangeStart.toNat + (net.rangeEnd.toNat + 1 - (following net).toNat)

/-- The first free address of the range in the order of the turns, or zero. -/
structure RoundRobin (net : Network) (leased : Ip → Prop) (ip : Ip) : Prop where
  zero : ip = 0 ↔ ∀ a, Within net a → leased a
  free : ip ≠ 0 → Within net ip ∧ ¬ leased ip
  order : ip ≠ 0 → ∀ a, Within net a → turn net a < turn net ip → leased a

/-- The search ends with the first free address, which is recorded as the last one. -/
def Completes (hosts : List Host) (m : Mem) (leases : List Ptr) (net : Network) (mac : Mac) :
    Prop :=
  ∃ ip, assignIp hosts m net mac = .ok ({ net with lastIp := ip }, ip) ∧
    RoundRobin net (Leased m leases) ip

/-- The first loop does not pass the last address of all, or what it finds behind it is
right. -/
def StopsInRange (net : Network) (leased : Ip → Prop) : Prop :=
  net.rangeEnd ≠ BitVec.allOnes 32 ∨ (∃ a, following net ≤ a ∧ ¬ leased a) ∨
    (¬ leased 0 ∧ ∀ a, Within net a → leased a) ∨
    ((∀ a, a < net.rangeStart → leased a) ∧ ∃ a, Within net a ∧ ¬ leased a)

section Scans

variable {m : Mem} {leases : List Ptr} {last ip : Ip}

theorem first_place (P : Nat → Prop) (n : Nat) :
    ∃ k ≤ n, (∀ j < k, P j) ∧ (k = n ∨ ¬ P k) := by
  induction n with
  | zero => exact ⟨0, le_rfl, fun j impossible => absurd impossible (Nat.not_lt_zero j), .inl rfl⟩
  | succ n ih =>
    obtain ⟨k, few, before, found⟩ := ih
    rcases found with rfl | found
    · by_cases here : P k
      · refine ⟨k + 1, le_rfl, fun j below => ?_, .inl rfl⟩
        rcases Nat.lt_succ_iff_lt_or_eq.mp below with lower | rfl
        · exact before j lower
        · exact here
      · exact ⟨k, Nat.le_succ k, before, .inr here⟩
    · exact ⟨k, Nat.le_succ_of_le few, before, .inr found⟩

variable {k : Nat}

theorem toNat_place (small : ip.toNat + k < 2 ^ 32) :
    (ip + BitVec.ofNat 32 k).toNat = ip.toNat + k := by
  rw [BitVec.toNat_add, BitVec.toNat_ofNat]
  omega

theorem toNat_place_wrapped (few : k < 2 ^ 32) (large : 2 ^ 32 ≤ ip.toNat + k) :
    (ip + BitVec.ofNat 32 k).toNat = ip.toNat + k - 2 ^ 32 := by
  have bound := ip.isLt
  rw [BitVec.toNat_add, BitVec.toNat_ofNat]
  omega

theorem firstFree_skip (holds : Holds m leases) (steps : Nat)
    (before : ∀ j < k, ip + BitVec.ofNat 32 j ≤ last ∧
      Leased m leases (ip + BitVec.ofNat 32 j)) :
    firstFree m last (steps + k) ip = firstFree m last steps (ip + BitVec.ofNat 32 k) := by
  induction k generalizing ip with
  | zero => rw [Nat.add_zero, BitVec.add_zero]
  | succ k ih =>
    have shift (j : Nat) : ip + 1 + BitVec.ofNat 32 j = ip + BitVec.ofNat 32 (j + 1) := by
      rw [BitVec.add_assoc, BitVec.ofNat_add, BitVec.add_comm 1]
      rfl
    obtain ⟨inside, p, member, same⟩ := before 0 (Nat.succ_pos k)
    rw [BitVec.add_zero] at inside same
    obtain ⟨r, searched, isLease⟩ := holds.findIp ip
    have taken : r = some p := (isLease p).mpr ⟨member, same⟩
    rw [← Nat.add_assoc, firstFree, if_pos inside, searched, ok_bind, taken]
    rw [← shift k]
    refine ih fun j below => ?_
    rw [shift j]
    exact before (j + 1) (Nat.succ_lt_succ below)

theorem row_le (holds : Holds m leases) (few : k ≤ 2 ^ 32)
    (row : ∀ j < k, Leased m leases (ip + BitVec.ofNat 32 j)) : k ≤ m.live.length := by
  obtain ⟨_, _, _, chained⟩ := holds
  have leaseOf : ∀ j, ∃ p, j < k → p ∈ leases ∧ m.ip p = ip + BitVec.ofNat 32 j := by
    intro j
    by_cases below : j < k
    · obtain ⟨p, lease⟩ := row j below
      exact ⟨p, fun _ => lease⟩
    · exact ⟨0, fun impossible => absurd impossible below⟩
  choose lease known using leaseOf
  have card := Finset.card_le_card_of_injOn (s := Finset.range k) (t := m.live.toFinset) lease
    (fun j below => List.mem_toFinset.mpr
      (chained.used _ (known j (Finset.mem_range.mp below)).1))
    (fun i hi j hj same => ?_)
  · rw [Finset.card_range] at card
    exact card.trans m.live.toFinset_card_le
  · have below := Finset.mem_range.mp hi
    have below' := Finset.mem_range.mp hj
    have equal := congrArg m.ip same
    rw [(known i below).2, (known j below').2, BitVec.add_right_inj] at equal
    have offset := congrArg BitVec.toNat equal
    rw [BitVec.toNat_ofNat, BitVec.toNat_ofNat] at offset
    omega

theorem scan_row (holds : Holds m leases) (few : k ≤ 2 ^ 32)
    (before : ∀ j < k, ip + BitVec.ofNat 32 j ≤ last ∧
      Leased m leases (ip + BitVec.ofNat 32 j)) :
    ∃ steps, firstFree m last (m.live.length + 1) ip =
      firstFree m last (steps + 1) (ip + BitVec.ofNat 32 k) := by
  have short := row_le holds few fun j below => (before j below).2
  obtain ⟨steps, length⟩ := Nat.exists_eq_add_of_le short
  refine ⟨steps, ?_⟩
  rw [length, show k + steps + 1 = steps + 1 + k by omega, firstFree_skip holds (steps + 1) before]

theorem scan_found (holds : Holds m leases) (few : k ≤ 2 ^ 32)
    (before : ∀ j < k, ip + BitVec.ofNat 32 j ≤ last ∧ Leased m leases (ip + BitVec.ofNat 32 j))
    (inside : ip + BitVec.ofNat 32 k ≤ last)
    (free : ¬ Leased m leases (ip + BitVec.ofNat 32 k)) :
    firstFree m last (m.live.length + 1) ip = .ok (some (ip + BitVec.ofNat 32 k)) := by
  obtain ⟨steps, row⟩ := scan_row holds few before
  obtain ⟨r, searched, isLease⟩ := holds.findIp (ip + BitVec.ofNat 32 k)
  rw [row, firstFree, if_pos inside, searched, ok_bind]
  cases r with
  | none => rfl
  | some p => exact absurd ⟨p, (isLease p).mp rfl⟩ free

theorem scan_none (holds : Holds m leases) (few : k ≤ 2 ^ 32)
    (before : ∀ j < k, ip + BitVec.ofNat 32 j ≤ last ∧ Leased m leases (ip + BitVec.ofNat 32 j))
    (outside : ¬ ip + BitVec.ofNat 32 k ≤ last) :
    firstFree m last (m.live.length + 1) ip = .ok none := by
  obtain ⟨steps, row⟩ := scan_row holds few before
  rw [row, firstFree, if_neg outside]
  rfl

theorem scan_endless (holds : Holds m leases) (all : ∀ a, Leased m leases a) (steps : Nat)
    (ip : Ip) : firstFree m (BitVec.allOnes 32) steps ip = .error .endless := by
  induction steps generalizing ip with
  | zero => rfl
  | succ steps ih =>
    obtain ⟨p, member, same⟩ := all ip
    obtain ⟨r, searched, isLease⟩ := holds.findIp ip
    rw [firstFree, if_pos (BitVec.le_def.mpr (Nat.le_of_lt_succ ip.isLt)), searched, ok_bind,
      (isLease p).mpr ⟨member, same⟩]
    exact ih (ip + 1)

theorem place_of_le {b : Ip} (above : ip ≤ b) :
    ip + BitVec.ofNat 32 (b.toNat - ip.toNat) = b := by
  have order := BitVec.le_def.mp above
  have bound := b.isLt
  refine BitVec.eq_of_toNat_eq ?_
  rw [toNat_place (by omega)]
  omega

theorem firstFree_below (holds : Holds m leases) (below : last ≠ BitVec.allOnes 32)
    (ordered : ip ≤ last) :
    (∃ a, firstFree m last (m.live.length + 1) ip = .ok (some a) ∧ ip ≤ a ∧ a ≤ last ∧
      ¬ Leased m leases a ∧ ∀ b, ip ≤ b → b < a → Leased m leases b) ∨
    (firstFree m last (m.live.length + 1) ip = .ok none ∧
      ∀ b, ip ≤ b → b ≤ last → Leased m leases b) := by
  have order := BitVec.le_def.mp ordered
  have bound : last.toNat + 1 < 2 ^ 32 := by
    have lt := last.isLt
    have ne : last.toNat ≠ 2 ^ 32 - 1 := fun same => below (BitVec.eq_of_toNat_eq same)
    omega
  obtain ⟨k, few, before, found⟩ := first_place
    (fun j => Leased m leases (ip + BitVec.ofNat 32 j)) (last.toNat - ip.toNat + 1)
  have passed : ∀ j < k, ip + BitVec.ofNat 32 j ≤ last ∧
      Leased m leases (ip + BitVec.ofNat 32 j) := by
    intro j here
    refine ⟨?_, before j here⟩
    rw [BitVec.le_def, toNat_place (by omega)]
    omega
  have between : ∀ b, ip ≤ b → b.toNat < ip.toNat + k → Leased m leases b := by
    intro b above lower
    have start := BitVec.le_def.mp above
    have leased := before (b.toNat - ip.toNat) (by omega)
    rwa [place_of_le above] at leased
  by_cases whole : k = last.toNat - ip.toNat + 1
  · right
    refine ⟨scan_none holds (by omega) passed ?_, fun b above lower => ?_⟩
    · rw [BitVec.le_def, toNat_place (by omega)]
      omega
    · have upper := BitVec.le_def.mp lower
      exact between b above (by omega)
  · left
    have free := found.resolve_left whole
    have place := @toNat_place ip k (by omega)
    have inside : ip + BitVec.ofNat 32 k ≤ last := by
      rw [BitVec.le_def, place]
      omega
    refine ⟨_, scan_found holds (by omega) passed inside free, ?_, inside, free, ?_⟩
    · rw [BitVec.le_def, place]
      omega
    · intro b above lower
      rw [BitVec.lt_def, place] at lower
      exact between b above lower

/-- The loop over a range that ends at the last address of all goes on at the first one. -/
theorem firstFree_top (holds : Holds m leases) (ip : Ip) :
    (∃ a, firstFree m (BitVec.allOnes 32) (m.live.length + 1) ip = .ok (some a) ∧
      ¬ Leased m leases a ∧
      ((ip ≤ a ∧ ∀ b, ip ≤ b → b < a → Leased m leases b) ∨
        (a < ip ∧ (∀ b, ip ≤ b → Leased m leases b) ∧ ∀ b < a, Leased m leases b))) ∨
    (firstFree m (BitVec.allOnes 32) (m.live.length + 1) ip = .error .endless ∧
      ∀ a, Leased m leases a) := by
  have bound := ip.isLt
  have atMost (a : Ip) : a ≤ BitVec.allOnes 32 := BitVec.le_def.mpr (Nat.le_of_lt_succ a.isLt)
  obtain ⟨k, few, before, found⟩ := first_place
    (fun j => Leased m leases (ip + BitVec.ofNat 32 j)) (2 ^ 32)
  have wrapped : ∀ b, b < ip → b.toNat + 2 ^ 32 < ip.toNat + k → Leased m leases b := by
    intro b lower near
    have order := BitVec.lt_def.mp lower
    have leased := before (b.toNat + 2 ^ 32 - ip.toNat) (by omega)
    have same : ip + BitVec.ofNat 32 (b.toNat + 2 ^ 32 - ip.toNat) = b := by
      refine BitVec.eq_of_toNat_eq ?_
      rw [toNat_place_wrapped (by omega) (by omega)]
      omega
    rwa [same] at leased
  have above : ∀ b, ip ≤ b → b.toNat < ip.toNat + k → Leased m leases b := by
    intro b higher near
    have order := BitVec.le_def.mp higher
    have leased := before (b.toNat - ip.toNat) (by omega)
    rwa [place_of_le higher] at leased
  by_cases whole : k = 2 ^ 32
  · right
    have all : ∀ a, Leased m leases a := by
      intro a
      have lt := a.isLt
      by_cases higher : ip ≤ a
      · exact above a higher (by omega)
      · have lower := BitVec.not_le.mp higher
        have order := BitVec.lt_def.mp lower
        exact wrapped a lower (by omega)
    exact ⟨scan_endless holds all _ ip, all⟩
  · left
    have free := found.resolve_left whole
    refine ⟨_, scan_found holds few (fun j below => ⟨atMost _, before j below⟩) (atMost _) free,
      free, ?_⟩
    by_cases small : ip.toNat + k < 2 ^ 32
    · left
      have place := toNat_place small
      refine ⟨BitVec.le_def.mpr (by omega), fun b higher lower => ?_⟩
      rw [BitVec.lt_def, place] at lower
      exact above b higher lower
    · right
      have place := @toNat_place_wrapped ip k (by omega) (by omega)
      refine ⟨BitVec.lt_def.mpr (by omega), fun b higher => ?_, fun b lower => ?_⟩
      · have lt := b.isLt
        exact above b higher (by omega)
      · rw [BitVec.lt_def, place] at lower
        exact wrapped b (BitVec.lt_def.mpr (by omega)) (by omega)

end Scans

section Searches

variable {m : Mem} {leases : List Ptr} {net : Network} {hosts : List Host} {mac : Mac}

theorem startIp_eq (configured : Configured net) : startIp net = following net := by
  have bound := net.lastIp.isLt
  have last := net.rangeEnd.isLt
  have positive : 0 < net.rangeStart.toNat :=
    Nat.pos_of_ne_zero fun zero => configured.given (BitVec.eq_of_toNat_eq zero)
  rw [startIp, following]
  by_cases zero : net.lastIp = 0
  · rw [if_pos zero, zero]
    split
    · rename_i inside
      change net.rangeStart.toNat ≤ 0 + 1 ∧ _ at inside
      refine BitVec.eq_of_toNat_eq ?_
      change net.rangeStart.toNat = 1
      omega
    · rfl
  rw [if_neg zero]
  by_cases top : net.lastIp.toNat + 1 < 2 ^ 32
  · have place : (net.lastIp + 1).toNat = net.lastIp.toNat + 1 := @toNat_place net.lastIp 1 top
    refine (ite_not _ _ _).symm.trans (if_congr ?_ rfl rfl)
    rw [not_or, BitVec.not_lt, BitVec.not_lt, BitVec.le_def, BitVec.le_def, place]
  · have wrapped : (net.lastIp + 1).toNat = 0 := by
      have place : (net.lastIp + 1).toNat = net.lastIp.toNat + 1 - 2 ^ 32 :=
        @toNat_place_wrapped net.lastIp 1 (by omega) (by omega)
      omega
    rw [if_pos (.inl (BitVec.lt_def.mpr (by omega))), if_neg (by omega)]

theorem within_following (configured : Configured net) : Within net (following net) := by
  have order := BitVec.lt_def.mp configured.ordered
  have bound := net.rangeEnd.isLt
  rw [following]
  split
  · rename_i inside
    have place : (net.lastIp + 1).toNat = net.lastIp.toNat + 1 :=
      @toNat_place net.lastIp 1 (by omega)
    exact ⟨BitVec.le_def.mpr (by omega), BitVec.le_def.mpr (by omega)⟩
  · exact ⟨BitVec.le_refl _, BitVec.le_of_lt configured.ordered⟩

theorem completes_iff (dynamic : staticIp hosts net mac = none) :
    Completes hosts m leases net mac ↔
      ∃ ip, dynamicIp m net = .ok ip ∧ RoundRobin net (Leased m leases) ip := by
  rw [Completes]
  refine exists_congr fun ip => and_congr_left fun _ => ?_
  rw [assignIp, dynamic]
  constructor
  · intro found
    obtain ⟨a, searched, found⟩ := bind_eq_ok found
    cases found
    exact searched
  · intro searched
    simp only [searched, ok_bind, pure_eq_ok]

theorem before_of_turn (configured : Configured net) {a ip : Ip} (within : Within net a)
    (atMost : ip ≤ net.rangeEnd) (earlier : turn net a < turn net ip) :
    (following net ≤ ip → following net ≤ a ∧ a < ip) ∧
      (ip < following net → following net ≤ a ∨ a < ip) := by
  have inside := within_following configured
  have low := BitVec.le_def.mp inside.1
  have high := BitVec.le_def.mp inside.2
  have least := BitVec.le_def.mp within.1
  have most := BitVec.le_def.mp within.2
  have upper := BitVec.le_def.mp atMost
  rw [turn, turn] at earlier
  simp only [BitVec.le_def, BitVec.lt_def] at earlier ⊢
  split_ifs at earlier <;> omega

theorem Configured.ne_zero (configured : Configured net) {a : Ip} (above : net.rangeStart ≤ a) :
    a ≠ 0 := by
  rintro rfl
  exact configured.given (BitVec.le_antisymm above (BitVec.le_def.mpr (Nat.zero_le _)))

variable {leased : Ip → Prop} {a : Ip}

theorem RoundRobin.of_behind (configured : Configured net) (above : following net ≤ a)
    (atMost : a ≤ net.rangeEnd) (free : ¬ leased a)
    (before : ∀ b, following net ≤ b → b < a → leased b) : RoundRobin net leased a := by
  have inRange : Within net a := ⟨BitVec.le_trans (within_following configured).1 above, atMost⟩
  have some := configured.ne_zero inRange.1
  refine ⟨⟨fun zero => absurd zero some, fun all => absurd (all a inRange) free⟩,
    fun _ => ⟨inRange, free⟩, fun _ b inside earlier => ?_⟩
  obtain ⟨higher, lower⟩ := (before_of_turn configured inside atMost earlier).1 above
  exact before b higher lower

theorem RoundRobin.of_front (configured : Configured net) (least : net.rangeStart ≤ a)
    (below : a < following net) (free : ¬ leased a)
    (behind : ∀ b, following net ≤ b → b ≤ net.rangeEnd → leased b)
    (before : ∀ b, net.rangeStart ≤ b → b < a → leased b) : RoundRobin net leased a := by
  have atMost := BitVec.le_trans (BitVec.le_of_lt below) (within_following configured).2
  have inRange : Within net a := ⟨least, atMost⟩
  have some := configured.ne_zero least
  refine ⟨⟨fun zero => absurd zero some, fun all => absurd (all a inRange) free⟩,
    fun _ => ⟨inRange, free⟩, fun _ b inside earlier => ?_⟩
  rcases (before_of_turn configured inside atMost earlier).2 below with higher | lower
  · exact behind b higher inside.2
  · exact before b inside.1 lower

theorem RoundRobin.of_full (all : ∀ a, Within net a → leased a) : RoundRobin net leased 0 :=
  ⟨⟨fun _ => all, fun _ => rfl⟩, fun some => absurd rfl some, fun some => absurd rfl some⟩

theorem roundRobin_wrapped_iff (configured : Configured net)
    (top : net.rangeEnd = BitVec.allOnes 32) (free : ¬ leased a) (below : a < following net)
    (behind : ∀ b, following net ≤ b → leased b) (before : ∀ b < a, leased b) :
    RoundRobin net leased a ↔ StopsInRange net leased := by
  have atMost : a ≤ net.rangeEnd :=
    BitVec.le_trans (BitVec.le_of_lt below) (within_following configured).2
  constructor
  · intro roundRobin
    by_cases zero : a = 0
    · exact .inr (.inr (.inl ⟨zero ▸ free, roundRobin.zero.mp zero⟩))
    · have inside := (roundRobin.free zero).1
      refine .inr (.inr (.inr ⟨fun b lower => ?_, a, inside, free⟩))
      refine before b (BitVec.lt_def.mpr ?_)
      exact Nat.lt_of_lt_of_le (BitVec.lt_def.mp lower) (BitVec.le_def.mp inside.1)
  · rintro (other | ⟨b, higher, freeB⟩ | ⟨freeZero, all⟩ | ⟨front, b, insideB, freeB⟩)
    · exact absurd top other
    · exact absurd (behind b higher) freeB
    · have zero : a = 0 := by
        by_contra some
        refine freeZero (before 0 (BitVec.lt_def.mpr (Nat.pos_of_ne_zero fun same => ?_)))
        exact some (BitVec.eq_of_toNat_eq same)
      rw [zero]
      exact .of_full all
    · have least : net.rangeStart ≤ a := BitVec.not_lt.mp fun lower => free (front a lower)
      exact .of_front configured least below free (fun c higher _ => behind c higher)
        (fun c _ lower => before c lower)

/-- A range that ends at the last address of all: the loop goes on behind it. -/
theorem dynamicIp_top_iff {m : Mem} {leases : List Ptr} (holds : Holds m leases)
    (configured : Configured net) (top : net.rangeEnd = BitVec.allOnes 32) :
    (∃ ip, dynamicIp m net = .ok ip ∧ RoundRobin net (Leased m leases) ip) ↔
      StopsInRange net (Leased m leases) := by
  have last (b : Ip) : b ≤ net.rangeEnd := by
    rw [top]
    exact BitVec.le_def.mpr (Nat.le_of_lt_succ b.isLt)
  rw [dynamicIp, startIp_eq configured]
  rcases firstFree_top holds (following net) with ⟨a, searched, free, place⟩ | ⟨failed, all⟩
  · rw [top]
    simp only [searched, ok_bind, pure_eq_ok, Except.ok.injEq, exists_eq_left']
    rcases place with ⟨above, before⟩ | ⟨below, behind, before⟩
    · refine iff_of_true (.of_behind configured above (last a) free before) ?_
      exact .inr (.inl ⟨a, above, free⟩)
    · exact roundRobin_wrapped_iff configured top free below behind before
  · rw [top]
    simp only [failed, error_bind]
    refine iff_of_false (by rintro ⟨ip, impossible, -⟩; cases impossible) ?_
    rintro (other | ⟨b, -, freeB⟩ | ⟨freeZero, -⟩ | ⟨-, b, -, freeB⟩)
    · exact other top
    · exact freeB (all b)
    · exact freeZero (all 0)
    · exact freeB (all b)

theorem dynamicIp_below {m : Mem} {leases : List Ptr} (holds : Holds m leases)
    (configured : Configured net) (top : net.rangeEnd ≠ BitVec.allOnes 32) :
    ∃ ip, dynamicIp m net = .ok ip ∧ RoundRobin net (Leased m leases) ip := by
  have within := within_following configured
  rw [dynamicIp, startIp_eq configured]
  rcases firstFree_below holds top within.2 with ⟨a, searched, above, atMost, free, before⟩ |
    ⟨searched, behind⟩
  · exact ⟨a, by simp only [searched, ok_bind, pure_eq_ok],
      .of_behind configured above atMost free before⟩
  · have notTop : following net ≠ BitVec.allOnes 32 := by
      intro same
      have most := BitVec.le_def.mp within.2
      rw [same, BitVec.toNat_allOnes] at most
      have bound := net.rangeEnd.isLt
      refine top (BitVec.eq_of_toNat_eq ?_)
      rw [BitVec.toNat_allOnes]
      omega
    rcases firstFree_below holds notTop within.1 with
      ⟨a, again, least, atMost, free, before⟩ | ⟨again, front⟩
    · have below : a < following net := by
        by_contra notBelow
        have same := BitVec.le_antisymm atMost (BitVec.not_lt.mp notBelow)
        exact free (same ▸ behind _ (BitVec.le_refl _) within.2)
      exact ⟨a, by simp only [searched, again, ok_bind, pure_eq_ok, Option.getD_some],
        .of_front configured least below free behind before⟩
    · refine ⟨0, by simp only [searched, again, ok_bind, pure_eq_ok, Option.getD_none],
        .of_full fun b inside => ?_⟩
      by_cases higher : following net ≤ b
      · exact behind b higher inside.2
      · exact front b inside.1 (BitVec.le_of_lt (BitVec.not_le.mp higher))

end Searches

/-- The search of a range is complete unless it passes the last address of all: then what it
finds behind that address has to be right. -/
theorem assignIp_complete_iff {m : Mem} {leases : List Ptr} (holds : Holds m leases)
    {net : Network} (configured : Configured net) {hosts : List Host} {mac : Mac}
    (dynamic : staticIp hosts net mac = none) :
    Completes hosts m leases net mac ↔ StopsInRange net (Leased m leases) := by
  rw [completes_iff dynamic]
  by_cases top : net.rangeEnd = BitVec.allOnes 32
  · exact dynamicIp_top_iff holds configured top
  · exact iff_of_true (dynamicIp_below holds configured top) (.inl top)

/-- The database with one lease, of this address. -/
def oneLease (ip : Ip) : Mem := addedLease (initial []) 7 1 ip 120

theorem holds_oneLease (ip : Ip) : Holds (oneLease ip) [7] :=
  (holds_initial []).added List.not_mem_nil (fun _ impossible => by cases impossible)
    (fun _ impossible => by cases impossible)

theorem configured_demo : Configured demoNetwork :=
  ⟨rfl, by decide, by decide, by decide, by decide⟩

theorem assignIp_demo : Completes [] (oneLease 0x0a00000a) [7] demoNetwork 2 :=
  (assignIp_complete_iff (holds_oneLease _) configured_demo rfl).mpr (.inl (by decide))

/-- The range 255.255.255.253 to 255.255.255.255, of which 255.255.255.254 was assigned last. -/
def topNetwork : Network :=
  { valid := true, ip := 0xffffff00, mask := 0xffffff00, rangeStart := 0xfffffffd
    rangeEnd := 0xffffffff, leaseDays := 1, leaseHours := 0, leaseMinutes := 0
    lastIp := 0xfffffffe }

/-- With the last address leased no address is found, though two are free. -/
theorem topNetwork_exhausted :
    Holds (oneLease 0xffffffff) [7] ∧ Configured topNetwork ∧
      ¬ Completes [] (oneLease 0xffffffff) [7] topNetwork 2 := by
  refine ⟨holds_oneLease _, ⟨rfl, by decide, by decide, by decide, by decide⟩, ?_⟩
  rintro ⟨ip, found, roundRobin⟩
  have none : assignIp [] (oneLease 0xffffffff) topNetwork 2 =
      .ok ({ topNetwork with lastIp := 0 }, 0) := by decide +kernel
  rw [none] at found
  cases found
  obtain ⟨p, member, leased⟩ := roundRobin.zero.mp rfl 0xfffffffd ⟨by decide, by decide⟩
  rw [List.mem_singleton.mp member] at leased
  exact absurd leased (by decide)

end RangeScan
