import Mathlib.Algebra.Order.BigOperators.Group.List
import Mathlib.Algebra.Ring.Nat
import Mathlib.Data.Nat.ModEq
import Mathlib.Tactic.Common

/-!
# One's complement sums

Numbers of 16 bits are added up, and the carries are added back until none is left. The result
is the remainder by 65535, where 0 is written as 65535 unless all numbers are 0. So a checksum
can be told from remainders, and the order of the two bytes of a number does not matter.
-/

namespace OnesComplement

/-- The carries of a sum are added back. -/
def fold (sum : Nat) : Nat :=
  if sum < 65536 then sum else fold (sum % 65536 + sum / 65536)
termination_by sum
decreasing_by omega

section Folding

variable {sum : Nat}

theorem fold_of_lt (small : sum < 65536) : fold sum = sum := by
  rw [fold, if_pos small]

theorem fold_of_le (large : 65536 ≤ sum) :
    fold sum = fold (sum % 65536 + sum / 65536) := by
  rw [fold, if_neg (Nat.not_lt.mpr large)]

theorem fold_lt (sum : Nat) : fold sum < 65536 := by
  induction sum using fold.induct with
  | case1 sum small => rwa [fold_of_lt small]
  | case2 sum large ih => rwa [fold_of_le (Nat.not_lt.mp large)]

theorem fold_mod (sum : Nat) : fold sum % 65535 = sum % 65535 := by
  induction sum using fold.induct with
  | case1 sum small => rw [fold_of_lt small]
  | case2 sum large ih =>
    rw [fold_of_le (Nat.not_lt.mp large), ih]
    omega

theorem fold_pos (positive : 0 < sum) : 0 < fold sum := by
  induction sum using fold.induct with
  | case1 sum small => rwa [fold_of_lt small]
  | case2 sum large ih =>
    rw [fold_of_le (Nat.not_lt.mp large)]
    exact ih (by omega)

theorem fold_eq_max_iff : fold sum = 65535 ↔ 65535 ∣ sum ∧ 0 < sum := by
  have same := fold_mod sum
  have below := fold_lt sum
  constructor
  · intro full
    rw [full] at same
    refine ⟨by omega, Nat.pos_of_ne_zero ?_⟩
    rintro rfl
    rw [fold_of_lt (by decide)] at full
    cases full
  · rintro ⟨multiple, positive⟩
    have least := fold_pos positive
    omega

end Folding

section Complement

/-- The number that is stored as the checksum of a sum. -/
def complement (sum : Nat) : Nat := if fold sum = 65535 then 65535 else 65535 - fold sum

theorem complement_pos (sum : Nat) : 0 < complement sum := by
  have below := fold_lt sum
  rw [complement]
  split_ifs <;> omega

theorem fold_add_complement (sum : Nat) : fold (sum + complement sum) = 65535 := by
  have same := fold_mod sum
  have below := fold_lt sum
  have positive := complement_pos sum
  refine fold_eq_max_iff.mpr ⟨?_, by omega⟩
  rw [complement]
  split_ifs <;> omega

end Complement

section Words

inductive ByteOrder where
  | little
  | big
deriving DecidableEq

/-- The number of two bytes that follow each other. -/
def pair : ByteOrder → BitVec 8 → BitVec 8 → Nat
  | .little, first, second => first.toNat + 256 * second.toNat
  | .big, first, second => 256 * first.toNat + second.toNat

/-- The numbers of some bytes; a single last byte is followed by a zero. -/
def words (order : ByteOrder) : List (BitVec 8) → List Nat
  | [] => []
  | [last] => [pair order last 0]
  | first :: second :: rest => pair order first second :: words order rest

theorem words_append (order : ByteOrder) {front : List (BitVec 8)} (even : 2 ∣ front.length)
    (back : List (BitVec 8)) :
    words order (front ++ back) = words order front ++ words order back := by
  induction front using words.induct with
  | case1 => rfl
  | case2 last => exact absurd even (by simp)
  | case3 first second rest ih =>
    rw [List.cons_append, List.cons_append, words, words, List.cons_append, ih]
    simpa using even

variable {bytes : List (BitVec 8)}

theorem words_padded (order : ByteOrder) (odd : ¬ 2 ∣ bytes.length) :
    words order (bytes ++ [0]) = words order bytes := by
  induction bytes using words.induct with
  | case1 => exact absurd (Nat.dvd_zero 2) odd
  | case2 last => rfl
  | case3 first second rest ih =>
    rw [List.cons_append, List.cons_append, words, words, ih]
    simpa using odd

theorem pair_swapped (first second : BitVec 8) :
    256 * pair .little first second ≡ pair .big first second [MOD 65535] ∧
      256 * pair .big first second ≡ pair .little first second [MOD 65535] := by
  simp only [pair, Nat.ModEq]
  omega

theorem sum_words_swapped (bytes : List (BitVec 8)) :
    256 * (words .little bytes).sum ≡ (words .big bytes).sum [MOD 65535] ∧
      256 * (words .big bytes).sum ≡ (words .little bytes).sum [MOD 65535] := by
  induction bytes using words.induct with
  | case1 => exact ⟨Nat.ModEq.refl _, Nat.ModEq.refl _⟩
  | case2 last =>
    simp only [words, List.sum_singleton]
    exact pair_swapped last 0
  | case3 first second rest ih =>
    simp only [words, List.sum_cons, Nat.mul_add]
    obtain ⟨left, right⟩ := pair_swapped first second
    exact ⟨left.add ih.1, right.add ih.2⟩

theorem dvd_words (order order' : ByteOrder)
    (multiple : 65535 ∣ (words order bytes).sum) : 65535 ∣ (words order' bytes).sum := by
  obtain ⟨left, right⟩ := sum_words_swapped bytes
  have scaled := Dvd.dvd.mul_left multiple 256
  cases order <;> cases order'
  · exact multiple
  · exact (left.dvd_iff (dvd_refl _)).mp scaled
  · exact (right.dvd_iff (dvd_refl _)).mp scaled
  · exact multiple

theorem pair_pos_iff (order : ByteOrder) (first second : BitVec 8) :
    0 < pair order first second ↔ first ≠ 0 ∨ second ≠ 0 := by
  have zero (b : BitVec 8) : b ≠ 0 ↔ b.toNat ≠ 0 :=
    not_congr ⟨congrArg BitVec.toNat, fun none => BitVec.eq_of_toNat_eq none⟩
  rw [zero, zero]
  cases order <;> simp only [pair] <;> omega

theorem sum_words_pos_iff (order : ByteOrder) (bytes : List (BitVec 8)) :
    0 < (words order bytes).sum ↔ ∃ b ∈ bytes, b ≠ 0 := by
  induction bytes using words.induct with
  | case1 => simp [words]
  | case2 last => simp [words, pair_pos_iff]
  | case3 first second rest ih =>
    rw [words, List.sum_cons, Nat.add_pos_iff_pos_or_pos, pair_pos_iff, ih]
    simp [or_assoc]

/-- The sum over the bytes has all bits set, however their numbers are read. -/
def Sums (bytes : List (BitVec 8)) : Prop :=
  ∀ order, fold (words order bytes).sum = 65535

theorem Sums.of_order (order : ByteOrder)
    (full : fold (words order bytes).sum = 65535) : Sums bytes := by
  obtain ⟨multiple, positive⟩ := fold_eq_max_iff.mp full
  intro order'
  refine fold_eq_max_iff.mpr ⟨dvd_words order order' multiple, ?_⟩
  exact (sum_words_pos_iff order' bytes).mpr ((sum_words_pos_iff order bytes).mp positive)

end Words

end OnesComplement
