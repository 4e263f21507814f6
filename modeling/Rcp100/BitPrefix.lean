import Mathlib.Tactic.Common

/-!
# Bit prefixes of machine words

Positions count from the most significant bit, so that `SamePrefix n a b` says
that two words lie in the same block of addresses of prefix length `n`. The
masks of leading ones compare exactly such prefixes. Everything is stated for
an arbitrary word width.
-/

namespace BitPrefix

variable {w : Nat}

/-- The first `n` bits of the two words agree. -/
def SamePrefix (n : Nat) (a b : BitVec w) : Prop :=
  ∀ i, i < n → a.getMsbD i = b.getMsbD i

/-- All bits from position `n` on are zero. -/
def Trimmed (n : Nat) (a : BitVec w) : Prop :=
  ∀ i, n ≤ i → a.getMsbD i = false

/-- The mask of `n` leading ones. -/
def leading (w n : Nat) : BitVec w := BitVec.allOnes w <<< (w - n)

variable {n : Nat} {a b : BitVec w}

theorem SamePrefix.symm (same : SamePrefix n a b) :
    SamePrefix n b a :=
  fun i hi => (same i hi).symm

theorem SamePrefix.trans {c : BitVec w} (hab : SamePrefix n a b)
    (hbc : SamePrefix n b c) : SamePrefix n a c :=
  fun i hi => (hab i hi).trans (hbc i hi)

theorem SamePrefix.mono {m : Nat} (hmn : m ≤ n)
    (same : SamePrefix n a b) : SamePrefix m a b :=
  fun i hi => same i (Nat.lt_of_lt_of_le hi hmn)

theorem samePrefix_zero (a b : BitVec w) : SamePrefix 0 a b := by
  intro i hi
  omega

theorem samePrefix_succ :
    SamePrefix (n+1) a b ↔ SamePrefix n a b ∧ a.getMsbD n = b.getMsbD n := by
  constructor
  · intro same
    exact ⟨same.mono (Nat.le_succ n), same n (Nat.lt_succ_self n)⟩
  · rintro ⟨same, bit⟩ i hi
    rcases Nat.lt_succ_iff_lt_or_eq.mp hi with hlt | heq
    · exact same i hlt
    · exact heq ▸ bit

theorem SamePrefix.eq_of_trimmed
    (same : SamePrefix n a b) (ha : Trimmed n a) (hb : Trimmed n b) : a = b := by
  apply BitVec.eq_of_getMsbD_eq
  intro i _
  by_cases hn : i < n
  · exact same i hn
  · rw [ha i (by omega), hb i (by omega)]

theorem getMsbD_leading (n i : Nat) :
    (leading w n).getMsbD i = (decide (i < n) && decide (i < w)) := by
  simp only [leading, BitVec.getMsbD_shiftLeft, BitVec.getMsbD_allOnes]
  by_cases hw : i < w
  · by_cases hn : i < n
    · simp only [hn, hw, decide_true, Bool.and_self, decide_eq_true_eq]
      omega
    · simp only [hn, decide_false, Bool.false_and, decide_eq_false_iff_not]
      omega
  · simp only [hw, decide_false, Bool.and_false, decide_eq_false_iff_not]
    omega

theorem and_leading_eq_iff (hn : n ≤ w) :
    a &&& leading w n = b &&& leading w n ↔ SamePrefix n a b := by
  constructor
  · intro same i hi
    have hbit := congrArg (fun x => BitVec.getMsbD x i) same
    simpa [getMsbD_leading, hi, show i < w by omega] using hbit
  · intro same
    apply BitVec.eq_of_getMsbD_eq
    intro i _
    by_cases hi : i < n
    · simp [getMsbD_leading, hi, same i hi]
    · simp [getMsbD_leading, hi]

theorem samePrefix_iff_ushiftRight (hn : n ≤ w) :
    SamePrefix n a b ↔ a >>> (w - n) = b >>> (w - n) := by
  constructor
  · intro same
    apply BitVec.eq_of_getMsbD_eq
    intro i hi
    simp only [BitVec.getMsbD_ushiftRight]
    by_cases low : i < w - n
    · simp [low]
    · simp [low, hi, same (i - (w - n)) (by omega)]
  · intro same i hi
    have hbit := congrArg (fun x => BitVec.getMsbD x (i + (w - n))) same
    simpa [BitVec.getMsbD_ushiftRight, show i + (w - n) < w by omega,
      show ¬ i + (w - n) < w - n by omega] using hbit

theorem SamePrefix.between (hn : n ≤ w) {low high : BitVec w}
    (same : SamePrefix n low high) (above : low ≤ a) (below : a ≤ high) :
    SamePrefix n a low := by
  rw [samePrefix_iff_ushiftRight hn] at same ⊢
  have ends := congrArg BitVec.toNat same
  refine BitVec.eq_of_toNat_eq ?_
  simp only [BitVec.toNat_ushiftRight, Nat.shiftRight_eq_div_pow] at ends ⊢
  have lower := Nat.div_le_div_right (c := 2 ^ (w - n)) (BitVec.le_def.mp above)
  have upper := Nat.div_le_div_right (c := 2 ^ (w - n)) (BitVec.le_def.mp below)
  omega

theorem samePrefix_and_leading {m : Nat} (hmn : m ≤ n) (hm : m ≤ w) (a : BitVec w) :
    SamePrefix m (a &&& leading w n) a := by
  intro i hi
  simp [getMsbD_leading, show i < n by omega, show i < w by omega]

theorem trimmed_and_leading (n : Nat) (a : BitVec w) : Trimmed n (a &&& leading w n) := by
  intro i hi
  simp [getMsbD_leading, show ¬ i < n by omega]

theorem Trimmed.and_leading (ha : Trimmed n a) :
    a &&& leading w n = a := by
  apply BitVec.eq_of_getMsbD_eq
  intro i hw
  by_cases hi : i < n
  · simp [getMsbD_leading, hi, hw]
  · simp [getMsbD_leading, hi, ha i (by omega)]

theorem leading_shiftLeft_one (hn : n+1 ≤ w) :
    leading w (n+1) <<< 1 = leading w n := by
  apply BitVec.eq_of_getMsbD_eq
  intro i hi
  simp only [BitVec.getMsbD_shiftLeft, getMsbD_leading]
  by_cases h : i < n
  · simp [h, hi, show i + 1 < w by omega]
  · simp [h]

theorem leading_grow :
    (leading w n >>> 1) ||| leading w 1 = leading w (n+1) := by
  apply BitVec.eq_of_getMsbD_eq
  intro i hi
  simp only [BitVec.getMsbD_or, BitVec.getMsbD_ushiftRight, getMsbD_leading, hi]
  by_cases h0 : i < 1
  · simp [h0, show i < n+1 by omega]
  · by_cases hn : i < n+1
    · simp [h0, hn, show i - 1 < n by omega, show i - 1 < w by omega]
    · simp [h0, hn, show ¬ i - 1 < n by omega]

end BitPrefix
