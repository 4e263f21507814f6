import Mathlib.Data.Nat.ModEq
import Mathlib.Data.Int.ModEq
import Rcp100.RunningSums

/-!
# The checksum of link state advertisements

`fletcher16` sums the bytes of a message and the partial sums, both modulo 255, and can
write two bytes into the message that make both sums vanish. Every value of type `int` on
the way is checked here, so that a result means that none has left its range.
-/

namespace LsaChecksum

open RunningSums

/-- A value of type `int`, unless it overflows. -/
def int (v : Int) : Option Int := if -2147483648 ≤ v ∧ v ≤ 2147483647 then some v else none

/-- The body of the inner loop. -/
def sumByte (s : Int × Int) (b : BitVec 8) : Option (Int × Int) := do
  let c0 ← int (s.1 + b.toNat)
  let c1 ← int (s.2 + c0)
  return (c0, c1)

/-- The outer loop: the sums are reduced after every block of 4102 bytes. -/
def sumBlocks (msg : List (BitVec 8)) (s : Int × Int) : Option (Int × Int) :=
  if msg.isEmpty then some s
  else do
    let s ← (msg.take 4102).foldlM sumByte s
    sumBlocks (msg.drop 4102) (s.1.tmod 255, s.2.tmod 255)
termination_by msg.length
decreasing_by
  rename_i full
  have positive := List.length_pos_iff.mpr (fun none => full (List.isEmpty_iff.mpr none))
  rw [List.length_drop]
  omega

/-- The message is cleared at the checksum when an offset is given. -/
def clear (msg : List (BitVec 8)) (coffset : Nat) : List (BitVec 8) :=
  if coffset ≠ 0 then (msg.set (coffset-1) 0).set coffset 0 else msg

/-- `if (o <= 0) o += 255`. -/
def positive (o : Int) : Option Int := if o ≤ 0 then int (o + 255) else some o

/-- `if (o > 255) o -= 255`. -/
def reduced (o : Int) : Option Int := if o > 255 then int (o - 255) else some o

/-- The message as it is afterwards, and the sums as a word. -/
def fletcher16 (msg : List (BitVec 8)) (coffset : Nat) :
    Option (List (BitVec 8) × BitVec 16) := do
  let cleared := clear msg coffset
  let c ← sumBlocks cleared (0, 0)
  let high ← int (c.2 * 256)
  let cksum ← int (high + c.1)
  if coffset ≠ 0 then
    let behind ← int (msg.length - coffset)
    let weighted ← int (behind * c.1)
    let difference ← int (weighted - c.2)
    let o ← positive (difference.tmod 255)
    let rest ← int (510 - c.1)
    let q ← int (rest - o)
    let p ← reduced q
    return ((cleared.set (coffset-1) (BitVec.ofInt 8 o)).set coffset (BitVec.ofInt 8 p),
      BitVec.ofInt 16 cksum)
  else return (cleared, BitVec.ofInt 16 cksum)

/-- The bytes of a message as numbers. -/
def values (msg : List (BitVec 8)) : List Nat := msg.map BitVec.toNat

/-- The two sums, byte by byte and without reduction. -/
def plainSums (msg : List (BitVec 8)) : Nat × Nat := (values msg).foldl accumulate (0, 0)

theorem int_eq {v : Int} (low : -2147483648 ≤ v) (high : v ≤ 2147483647) : int v = some v :=
  if_pos ⟨low, high⟩

theorem int_cast {n : Nat} (high : n ≤ 2147483647) : int n = some (n : Int) :=
  int_eq (by omega) (by omega)

theorem values_le (msg : List (BitVec 8)) : ∀ x ∈ values msg, x ≤ 255 := by
  intro x member
  obtain ⟨b, _, rfl⟩ := List.mem_map.mp member
  have bound := b.isLt
  omega

theorem length_values (msg : List (BitVec 8)) : (values msg).length = msg.length :=
  List.length_map ..

theorem values_append (front back : List (BitVec 8)) :
    values (front ++ back) = values front ++ values back :=
  List.map_append

/-- The sums of a block do not overflow if the last ones do not: they only grow. -/
theorem foldlM_sumByte (block : List (BitVec 8)) (c : Nat × Nat)
    (total : ((values block).foldl accumulate c).1 ≤ 2147483647)
    (running : ((values block).foldl accumulate c).2 ≤ 2147483647) :
    block.foldlM sumByte ((c.1 : Int), (c.2 : Int)) =
      some ((((values block).foldl accumulate c).1 : Int),
        (((values block).foldl accumulate c).2 : Int)) := by
  induction block generalizing c with
  | nil => rfl
  | cons b rest ih =>
    have first : ((accumulate c b.toNat).1 : Int) = c.1 + b.toNat := Int.natCast_add ..
    have second : ((accumulate c b.toNat).2 : Int) = c.2 + (c.1 + b.toNat) := by
      rw [accumulate, Int.natCast_add, Int.natCast_add]
    rw [values, List.map_cons, List.foldl_cons] at total running ⊢
    have grown := foldl_accumulate (rest.map BitVec.toNat) (accumulate c b.toNat)
    have low : (accumulate c b.toNat).1 ≤ 2147483647 := by
      rw [grown] at total
      dsimp only at total
      omega
    have low' : (accumulate c b.toNat).2 ≤ 2147483647 := by
      rw [grown] at running
      dsimp only at running
      omega
    have step : sumByte ((c.1 : Int), (c.2 : Int)) b =
        some (((accumulate c b.toNat).1 : Int), ((accumulate c b.toNat).2 : Int)) := by
      rw [first, second, sumByte, ← first, int_cast low, Option.bind_eq_bind, Option.bind_some,
        first, ← second, int_cast low']
      rfl
    rw [List.foldlM_cons, step]
    exact ih (accumulate c b.toNat) total running

theorem block_bounds {block : List (BitVec 8)} (short : block.length ≤ 4102) {c : Nat × Nat}
    (small : c.1 < 255 ∧ c.2 < 255) :
    ((values block).foldl accumulate c).1 ≤ 2147483647 ∧
      ((values block).foldl accumulate c).2 ≤ 2147483647 := by
  have total := sum_le (values_le block)
  have twice := running_le (values_le block)
  rw [length_values] at total twice
  have square : block.length * (block.length + 1) ≤ 4102 * 4103 :=
    Nat.mul_le_mul short (Nat.succ_le_succ short)
  have carried : block.length * c.1 ≤ 4102 * 254 := Nat.mul_le_mul short (by omega)
  rw [foldl_accumulate, length_values]
  dsimp only
  omega

theorem tmod_cast (n : Nat) : (n : Int).tmod 255 = ((n % 255 : Nat) : Int) := by
  rw [Int.tmod_eq_emod_of_nonneg (Int.natCast_nonneg n)]
  rfl

theorem sumBlocks_eq (msg : List (BitVec 8)) (c : Nat × Nat) (small : c.1 < 255 ∧ c.2 < 255) :
    sumBlocks msg ((c.1 : Int), (c.2 : Int)) =
      some (((((values msg).foldl accumulate c).1 % 255 : Nat) : Int),
        ((((values msg).foldl accumulate c).2 % 255 : Nat) : Int)) := by
  induction length : msg.length using Nat.strong_induction_on generalizing msg c with
  | _ n ih =>
    unfold sumBlocks
    by_cases none : msg.isEmpty = true
    · rw [if_pos none, List.isEmpty_iff.mp none]
      simp only [values, List.map_nil, List.foldl_nil, Nat.mod_eq_of_lt small.1,
        Nat.mod_eq_of_lt small.2]
    have positive : 0 < msg.length :=
      List.length_pos_iff.mpr fun nothing => none (List.isEmpty_iff.mpr nothing)
    obtain ⟨total, running⟩ := block_bounds (List.length_take_le 4102 msg) small
    rw [if_neg none, foldlM_sumByte _ c total running, Option.bind_eq_bind, Option.bind_some]
    dsimp only
    generalize sums : (values (msg.take 4102)).foldl accumulate c = s
    have reduced : s.1 % 255 < 255 ∧ s.2 % 255 < 255 :=
      ⟨Nat.mod_lt _ (by decide), Nat.mod_lt _ (by decide)⟩
    rw [tmod_cast, tmod_cast, ih (msg.drop 4102).length (by rw [List.length_drop]; omega)
      (msg.drop 4102) (s.1 % 255, s.2 % 255) reduced rfl]
    have whole : values msg = values (msg.take 4102) ++ values (msg.drop 4102) := by
      rw [← values_append, List.take_append_drop]
    rw [whole, List.foldl_append, sums, foldl_accumulate, foldl_accumulate]
    dsimp only
    have first : (s.1 % 255 + (values (msg.drop 4102)).sum) % 255 =
        (s.1 + (values (msg.drop 4102)).sum) % 255 := Nat.mod_add_mod ..
    have carried : (values (msg.drop 4102)).length * (s.1 % 255) ≡
        (values (msg.drop 4102)).length * s.1 [MOD 255] :=
      Nat.ModEq.mul_left _ (Nat.mod_modEq s.1 255)
    have second : (s.2 % 255 + (values (msg.drop 4102)).length * (s.1 % 255) +
        RunningSums.running (values (msg.drop 4102))) % 255 =
        (s.2 + (values (msg.drop 4102)).length * s.1 +
          RunningSums.running (values (msg.drop 4102))) % 255 :=
      Nat.ModEq.add_right _ (Nat.ModEq.add (Nat.mod_modEq s.2 255) carried)
    rw [first, second]

theorem sumBlocks_plain (msg : List (BitVec 8)) :
    sumBlocks msg (0, 0) =
      some ((((plainSums msg).1 % 255 : Nat) : Int), (((plainSums msg).2 % 255 : Nat) : Int)) :=
  sumBlocks_eq msg (0, 0) (by decide)

theorem fletcher16_zero (msg : List (BitVec 8)) :
    fletcher16 msg 0 = some (msg,
      BitVec.ofNat 16 ((plainSums msg).2 % 255 * 256 + (plainSums msg).1 % 255)) := by
  have first : (plainSums msg).1 % 255 < 255 := Nat.mod_lt _ (by decide)
  have second : (plainSums msg).2 % 255 < 255 := Nat.mod_lt _ (by decide)
  have sums := sumBlocks_plain msg
  generalize (plainSums msg).1 % 255 = c0 at first sums ⊢
  generalize (plainSums msg).2 % 255 = c1 at second sums ⊢
  have high : int ((c1 : Int) * 256) = some ((c1 * 256 : Nat) : Int) := by
    rw [int_eq (by omega) (by omega), Int.natCast_mul]
    rfl
  have word : int (((c1 * 256 : Nat) : Int) + c0) = some ((c1 * 256 + c0 : Nat) : Int) := by
    rw [int_eq (by omega) (by omega), Int.natCast_add]
  unfold fletcher16
  simp only [clear, ne_eq, not_true, if_false, sums, Option.bind_eq_bind, Option.bind_some, high,
    word, BitVec.ofInt_natCast]
  rfl

/-- The byte that is written first. -/
def firstByte (difference : Int) : Int :=
  if difference.tmod 255 ≤ 0 then difference.tmod 255 + 255 else difference.tmod 255

/-- The byte that is written second. -/
def secondByte (q : Int) : Int := if q > 255 then q - 255 else q

theorem firstByte_spec (difference : Int) : 1 ≤ firstByte difference ∧
    firstByte difference ≤ 255 ∧ (255 : Int) ∣ firstByte difference - difference := by
  have quotient := Int.mul_tdiv_add_tmod difference 255
  have low : -255 < difference.tmod 255 := by
    rcases Int.le_total 0 difference with positive | negative
    · have bound := Int.tmod_nonneg 255 positive
      omega
    · have bound := Int.tmod_nonneg 255 (Int.neg_nonneg_of_nonpos negative)
      have high := Int.tmod_lt_of_pos (-difference) (by decide : (0 : Int) < 255)
      rw [Int.neg_tmod] at bound high
      omega
  have high := Int.tmod_lt_of_pos difference (by decide : (0 : Int) < 255)
  unfold firstByte
  split
  · exact ⟨by omega, by omega, 1 - difference.tdiv 255, by omega⟩
  · exact ⟨by omega, by omega, -difference.tdiv 255, by omega⟩

theorem secondByte_spec {q : Int} (low : 1 ≤ q) (high : q ≤ 510) :
    1 ≤ secondByte q ∧ secondByte q ≤ 255 ∧ (255 : Int) ∣ secondByte q - q := by
  unfold secondByte
  split
  · exact ⟨by omega, by omega, -1, by omega⟩
  · exact ⟨by omega, by omega, 0, by omega⟩

theorem bytes_cancel {n c0 c1 o p : Int} (first : (255 : Int) ∣ o - ((n+1) * c0 - c1))
    (second : (255 : Int) ∣ p - (510 - c0 - o)) :
    (255 : Int) ∣ c0 + o + p ∧ (255 : Int) ∣ c1 + (n+2) * o + (n+1) * p := by
  obtain ⟨k, first⟩ := first
  obtain ⟨j, second⟩ := second
  have written : o = (n+1) * c0 - c1 + 255 * k := by omega
  have after : p = 510 - c0 - o + 255 * j := by omega
  refine ⟨⟨2 + j, by omega⟩, k + (n+1) * (2 + j), ?_⟩
  rw [after, written]
  ring

theorem plainSums_middle (front back : List (BitVec 8)) (x y : BitVec 8) :
    (plainSums (front ++ x :: y :: back)).1 =
        (plainSums (front ++ 0 :: 0 :: back)).1 + x.toNat + y.toNat ∧
      (plainSums (front ++ x :: y :: back)).2 = (plainSums (front ++ 0 :: 0 :: back)).2 +
        (back.length + 2) * x.toNat + (back.length + 1) * y.toNat := by
  simp only [plainSums, foldl_accumulate, values, List.map_append, List.map_cons, List.sum_append,
    List.sum_cons, running_append, running, List.length_cons, List.length_map,
    show BitVec.toNat (0 : BitVec 8) = 0 from rfl]
  refine ⟨by omega, ?_⟩
  ring

theorem ofInt_toNat {v : Int} (low : 1 ≤ v) (high : v ≤ 255) :
    ((BitVec.ofInt 8 v).toNat : Int) = v ∧ BitVec.ofInt 8 v ≠ 0 := by
  have value : ((BitVec.ofInt 8 v).toNat : Int) = v := by
    rw [BitVec.toNat_ofInt]
    omega
  refine ⟨value, fun zero => ?_⟩
  rw [zero, show BitVec.toNat (0 : BitVec 8) = 0 from rfl] at value
  omega

theorem exists_split {msg : List (BitVec 8)} (long : 16 ≤ msg.length) :
    ∃ front x y back, msg = front ++ x :: y :: back ∧ front.length = 14 := by
  have inside : 14 < msg.length := by omega
  have inside' : 15 < msg.length := by omega
  refine ⟨msg.take 14, msg[14], msg[15], msg.drop 16, ?_, List.length_take_of_le (by omega)⟩
  rw [List.cons_getElem_drop_succ, List.cons_getElem_drop_succ, List.take_append_drop]

theorem set_middle {front : List (BitVec 8)} (fourteen : front.length = 14)
    (x y x' y' : BitVec 8) (back : List (BitVec 8)) :
    ((front ++ x :: y :: back).set 14 x').set 15 y' = front ++ x' :: y' :: back := by
  simp [fourteen]

theorem fletcher16_writes {front back : List (BitVec 8)} (fourteen : front.length = 14)
    (short : back.length ≤ 65517) (a b : BitVec 8) :
    ∃ x y cksum, fletcher16 (front ++ a :: b :: back) 15 =
        some (front ++ x :: y :: back, cksum) ∧ x ≠ 0 ∧ y ≠ 0 ∧
      255 ∣ (plainSums (front ++ x :: y :: back)).1 ∧
      255 ∣ (plainSums (front ++ x :: y :: back)).2 := by
  have cleared : clear (front ++ a :: b :: back) 15 = front ++ 0 :: 0 :: back := by
    rw [clear, if_pos (by decide)]
    exact set_middle fourteen a b 0 0 back
  have sums := sumBlocks_plain (front ++ 0 :: 0 :: back)
  have first : (plainSums (front ++ 0 :: 0 :: back)).1 % 255 < 255 := Nat.mod_lt _ (by decide)
  have second : (plainSums (front ++ 0 :: 0 :: back)).2 % 255 < 255 := Nat.mod_lt _ (by decide)
  have middle := plainSums_middle front back
  have residue := Nat.div_add_mod (plainSums (front ++ 0 :: 0 :: back)).1 255
  have residue' := Nat.div_add_mod (plainSums (front ++ 0 :: 0 :: back)).2 255
  generalize (plainSums (front ++ 0 :: 0 :: back)).1 % 255 = c0 at first sums residue
  generalize (plainSums (front ++ 0 :: 0 :: back)).2 % 255 = c1 at second sums residue'
  have behind : (((front ++ a :: b :: back).length : Int) - (15 : Nat)) = back.length + 1 := by
    simp only [List.length_append, List.length_cons, fourteen]
    omega
  have product : (back.length + 1) * c0 ≤ 65518 * 254 := Nat.mul_le_mul (by omega) (by omega)
  have product' : ((back.length : Int) + 1) * c0 = ((back.length + 1) * c0 : Nat) := by
    rw [Int.natCast_mul, Int.natCast_add]
    rfl
  obtain ⟨low, high, congruent⟩ := firstByte_spec (((back.length : Int) + 1) * c0 - c1)
  generalize byte : firstByte (((back.length : Int) + 1) * c0 - c1) = o at low high congruent
  obtain ⟨low', high', congruent'⟩ := secondByte_spec (q := 510 - c0 - o) (by omega) (by omega)
  generalize byte' : secondByte (510 - (c0 : Int) - o) = p at low' high' congruent'
  obtain ⟨value, nonzero⟩ := ofInt_toNat low high
  obtain ⟨value', nonzero'⟩ := ofInt_toNat low' high'
  obtain ⟨total, running⟩ := bytes_cancel congruent congruent'
  have word : int ((c1 : Int) * 256) = some ((c1 : Int) * 256) := int_eq (by omega) (by omega)
  have word' : int ((c1 : Int) * 256 + c0) = some ((c1 : Int) * 256 + c0) :=
    int_eq (by omega) (by omega)
  have written : positive ((((back.length : Int) + 1) * c0 - c1).tmod 255) = some o := by
    rw [firstByte] at byte
    unfold positive
    split at byte
    · rename_i negative
      rw [if_pos negative, byte]
      exact int_eq (by omega) (by omega)
    · rename_i above
      rw [if_neg above, byte]
  have written' : reduced (510 - (c0 : Int) - o) = some p := by
    rw [secondByte] at byte'
    unfold reduced
    split at byte'
    · rename_i large
      rw [if_pos large, byte']
      exact int_eq (by omega) (by omega)
    · rename_i small
      rw [if_neg small, byte']
  refine ⟨BitVec.ofInt 8 o, BitVec.ofInt 8 p, BitVec.ofInt 16 ((c1 : Int) * 256 + c0), ?_,
    nonzero, nonzero', ?_, ?_⟩
  · unfold fletcher16
    simp only [cleared, sums, Option.bind_eq_bind, Option.bind_some, word, word', behind,
      int_eq (v := (back.length : Int) + 1) (by omega) (by omega),
      int_eq (v := ((back.length : Int) + 1) * c0) (by omega) (by omega),
      int_eq (v := ((back.length : Int) + 1) * c0 - c1) (by omega) (by omega), written,
      int_eq (v := 510 - (c0 : Int)) (by omega) (by omega),
      int_eq (v := 510 - (c0 : Int) - o) (by omega) (by omega), written']
    rw [if_pos (by decide)]
    exact congrArg (fun msg => some (msg, BitVec.ofInt 16 ((c1 : Int) * 256 + c0)))
      (set_middle fourteen 0 0 (BitVec.ofInt 8 o) (BitVec.ofInt 8 p) back)
  · obtain ⟨k, total⟩ := total
    have sum := (middle (BitVec.ofInt 8 o) (BitVec.ofInt 8 p)).1
    omega
  · obtain ⟨k, running⟩ := running
    have sum := (middle (BitVec.ofInt 8 o) (BitVec.ofInt 8 p)).2
    have cast : ((plainSums (front ++ BitVec.ofInt 8 o :: BitVec.ofInt 8 p :: back)).2 : Int) =
        (plainSums (front ++ 0 :: 0 :: back)).2 + (back.length + 2) * o +
          (back.length + 1) * p := by
      rw [sum, Int.natCast_add, Int.natCast_add, Int.natCast_mul, Int.natCast_mul, value, value']
      rfl
    omega

/-- For every message of 16 to 65533 bytes, no value overflows, only the bytes 14 and 15
change, neither becomes 0, and the message then verifies; the sums are the plain ones. -/
theorem fletcher16_generates (msg : List (BitVec 8)) (long : 16 ≤ msg.length)
    (short : msg.length ≤ 65533) :
    ∃ msg' cksum, fletcher16 msg 15 = some (msg', cksum) ∧ msg'.length = msg.length ∧
      (∀ i, i ≠ 14 → i ≠ 15 → msg'[i]? = msg[i]?) ∧
      (∃ x, msg'[14]? = some x ∧ x ≠ 0) ∧ (∃ y, msg'[15]? = some y ∧ y ≠ 0) ∧
      fletcher16 msg' 0 = some (msg', 0) ∧
      sumBlocks (clear msg 15) (0, 0) =
        some ((((plainSums (clear msg 15)).1 % 255 : Nat) : Int),
          (((plainSums (clear msg 15)).2 % 255 : Nat) : Int)) ∧
      sumBlocks msg' (0, 0) =
        some ((((plainSums msg').1 % 255 : Nat) : Int),
          (((plainSums msg').2 % 255 : Nat) : Int)) := by
  obtain ⟨front, a, b, back, rfl, fourteen⟩ := exists_split long
  rw [List.length_append, List.length_cons, List.length_cons, fourteen] at short
  obtain ⟨x, y, cksum, result, first, second, total, running⟩ :=
    @fletcher16_writes front back fourteen (by omega) a b
  refine ⟨front ++ x :: y :: back, cksum, result, by simp [List.length_append], ?_,
    ⟨x, ?_, first⟩, ⟨y, ?_, second⟩, ?_, sumBlocks_plain _, sumBlocks_plain _⟩
  · intro i apart apart'
    rw [List.getElem?_append, List.getElem?_append]
    split
    · rfl
    · obtain ⟨k, place⟩ : ∃ k, i - front.length = k + 2 := ⟨i - front.length - 2, by omega⟩
      rw [place]
      rfl
  · rw [List.getElem?_append_right (by omega), fourteen]
    rfl
  · rw [List.getElem?_append_right (by omega), fourteen]
    rfl
  · rw [fletcher16_zero, Nat.mod_eq_zero_of_dvd total, Nat.mod_eq_zero_of_dvd running]
    rfl

/-- A router advertisement of 36 bytes, without its age. -/
def routerLsa : List (BitVec 8) :=
  [2, 1, 0x0a, 0, 0, 0x0c, 0x0a, 0, 0, 0x0c, 0x80, 0, 0, 2, 0, 0,
    0, 0x24, 0, 0, 0, 1, 0x0a, 0, 0, 0, 0xff, 0xff, 0, 0, 3, 0, 0, 1]

theorem routerLsa_generates :
    ∃ msg' cksum, fletcher16 routerLsa 15 = some (msg', cksum) ∧
      fletcher16 msg' 0 = some (msg', 0) := by
  obtain ⟨msg', cksum, result, _, _, _, _, verifies, _⟩ :=
    fletcher16_generates routerLsa (by decide) (by decide)
  exact ⟨msg', cksum, result, verifies⟩

theorem verifies_iff (msg : List (BitVec 8)) :
    fletcher16 msg 0 = some (msg, 0) ↔
      255 ∣ (plainSums msg).1 ∧ 255 ∣ (plainSums msg).2 := by
  rw [fletcher16_zero, Option.some_inj, Prod.mk.injEq, and_iff_right rfl, BitVec.toNat_inj.symm,
    BitVec.toNat_ofNat, show BitVec.toNat (0 : BitVec 16) = 0 from rfl]
  omega

theorem plainSums_two (front mid back : List (BitVec 8)) : ∃ c0 c1, ∀ x y : BitVec 8,
    plainSums (front ++ x :: (mid ++ y :: back)) = (c0 + x.toNat + y.toNat,
      c1 + (mid.length + 1) * x.toNat + (back.length + 1) * (x.toNat + y.toNat)) := by
  refine ⟨(plainSums (front ++ 0 :: (mid ++ 0 :: back))).1,
    (plainSums (front ++ 0 :: (mid ++ 0 :: back))).2, fun x y => ?_⟩
  simp only [plainSums, foldl_accumulate, values, List.map_append, List.map_cons, List.sum_append,
    List.sum_cons, running_append, running, List.length_cons, List.length_append, List.length_map,
    show BitVec.toNat (0 : BitVec 8) = 0 from rfl]
  refine Prod.ext (by dsimp only; omega) ?_
  dsimp only
  ring

/-- Of two bytes whose distance has no factor in common with 255, no other values pass, but
that the sums do not tell 0 and 255 apart. -/
theorem two_bytes_pass_iff (front mid back : List (BitVec 8)) (x y x' y' : BitVec 8)
    (apart : (mid.length + 1).Coprime 255)
    (verifies : fletcher16 (front ++ x :: (mid ++ y :: back)) 0 =
      some (front ++ x :: (mid ++ y :: back), 0)) :
    fletcher16 (front ++ x' :: (mid ++ y' :: back)) 0 =
      some (front ++ x' :: (mid ++ y' :: back), 0) ↔
        x.toNat ≡ x'.toNat [MOD 255] ∧ y.toNat ≡ y'.toNat [MOD 255] := by
  obtain ⟨c0, c1, sums⟩ := plainSums_two front mid back
  rw [verifies_iff, sums] at verifies
  rw [verifies_iff, sums]
  dsimp only at verifies ⊢
  obtain ⟨total, running⟩ := verifies
  constructor
  · rintro ⟨total', running'⟩
    have same : x.toNat + y.toNat ≡ x'.toNat + y'.toNat [MOD 255] := by
      simp only [Nat.ModEq]
      omega
    have weighted := (Nat.modEq_zero_iff_dvd.mpr running).trans
      (Nat.modEq_zero_iff_dvd.mpr running').symm
    have first := Nat.ModEq.cancel_left_of_coprime (Nat.Coprime.symm apart)
      (Nat.ModEq.add_left_cancel' c1 (Nat.ModEq.add_right_cancel (same.mul_left _) weighted))
    exact ⟨first, Nat.ModEq.add_left_cancel first same⟩
  · rintro ⟨first, second⟩
    have weighted := ((first.mul_left (mid.length + 1)).add_left c1).add
      ((first.add second).mul_left (back.length + 1))
    exact ⟨(((first.add_left c0).add second).dvd_iff (dvd_refl 255)).mp total,
      (weighted.dvd_iff (dvd_refl 255)).mp running⟩

/-- The advertisement with its checksum passes, and with the bytes of the checksum swapped it
does not. -/
theorem two_bytes_pass_swapped :
    ¬ fletcher16 (routerLsa.take 14 ++ 0x97 :: ([] ++ 0x83 :: routerLsa.drop 16)) 0 =
      some (routerLsa.take 14 ++ 0x97 :: ([] ++ 0x83 :: routerLsa.drop 16), 0) := by
  have verifies := (verifies_iff (routerLsa.take 14 ++ 0x83 :: ([] ++ 0x97 ::
    routerLsa.drop 16))).mpr (by decide)
  rw [two_bytes_pass_iff _ [] _ 0x83 0x97 0x97 0x83 (by decide) verifies]
  decide

end LsaChecksum
