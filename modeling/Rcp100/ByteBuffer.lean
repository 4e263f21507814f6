import Mathlib.Data.List.GetD
import Mathlib.Tactic.Common

/-!
# Byte buffers

A buffer is a function from offsets to bytes. Bytes are written at an offset and read back
as a slice; words are stored with their high byte first.
-/

namespace ByteBuffer

abbrev Buffer := Nat → BitVec 8

def zero : Buffer := fun _ => 0

/-- The bytes of an MD5 digest. -/
abbrev Digest := { bytes : List (BitVec 8) // bytes.length = 16 }

def zeroDigest : List (BitVec 8) → Digest := fun _ => ⟨List.replicate 16 0, List.length_replicate⟩

def write (b : Buffer) (o : Nat) (bytes : List (BitVec 8)) : Buffer :=
  fun i => if o ≤ i ∧ i < o + bytes.length then bytes.getD (i - o) 0 else b i

/-- The `n` bytes from an offset on. -/
def slice (b : Buffer) (o n : Nat) : List (BitVec 8) := (List.range n).map (fun i => b (o+i))

/-- The bytes of a list, with zeros behind them. -/
def ofList (bytes : List (BitVec 8)) : Buffer := fun i => bytes.getD i 0

def get16 (b : Buffer) (o : Nat) : BitVec 16 := b o ++ b (o+1)

def get32 (b : Buffer) (o : Nat) : BitVec 32 := get16 b o ++ get16 b (o+2)

def be16 (x : BitVec 16) : List (BitVec 8) := [x.extractLsb' 8 8, x.extractLsb' 0 8]

def be32 (x : BitVec 32) : List (BitVec 8) :=
  be16 (x.extractLsb' 16 16) ++ be16 (x.extractLsb' 0 16)

section Slices

variable (b : Buffer)

@[simp] theorem length_slice (o n : Nat) : (slice b o n).length = n := by
  simp [slice]

theorem slice_congr {b b' : Buffer} {o n : Nat} (same : ∀ i, o ≤ i → i < o + n → b' i = b i) :
    slice b' o n = slice b o n := by
  refine List.map_congr_left (fun i hi => ?_)
  have bound := List.mem_range.mp hi
  exact same (o+i) (by omega) (by omega)

theorem slice_add (o m n : Nat) : slice b o (m+n) = slice b o m ++ slice b (o+m) n := by
  simp only [slice, List.range_add, List.map_append, List.map_map]
  refine congrArg _ (List.map_congr_left (fun i _ => ?_))
  simp [Nat.add_assoc]

theorem write_of_lt {o i : Nat} (bytes : List (BitVec 8)) (before : i < o) :
    write b o bytes i = b i :=
  if_neg (by omega)

theorem slice_write_before {o n p : Nat} (bytes : List (BitVec 8)) (before : o + n ≤ p) :
    slice (write b p bytes) o n = slice b o n :=
  slice_congr (fun _ _ _ => write_of_lt b bytes (by omega))

theorem slice_write_self (o : Nat) {bytes : List (BitVec 8)} {n : Nat}
    (length : bytes.length = n) : slice (write b o bytes) o n = bytes := by
  refine List.ext_getElem ((length_slice ..).trans length.symm) (fun i _ bound => ?_)
  simp only [slice, List.getElem_map, List.getElem_range, write]
  rw [if_pos (by omega), Nat.add_sub_cancel_left, List.getD_eq_getElem _ _ bound]

theorem ofList_slice {o n i : Nat} (bound : i < n) : ofList (slice b o n) i = b (o+i) := by
  rw [ofList, List.getD_eq_getElem _ _ (by simpa using bound)]
  simp [slice]

end Slices

section Words

@[simp] theorem length_be16 (x : BitVec 16) : (be16 x).length = 2 := rfl

@[simp] theorem length_be32 (x : BitVec 32) : (be32 x).length = 4 := rfl

theorem append_extract {m n : Nat} (x : BitVec (m+n)) :
    (x.extractLsb' n m ++ x.extractLsb' 0 n : BitVec (m+n)) = x := by
  ext i hi
  simp only [BitVec.getElem_append, BitVec.getElem_extractLsb']
  split
  · simp [BitVec.getLsbD_eq_getElem hi]
  · rename_i high
    rw [Nat.add_sub_cancel' (by omega), BitVec.getLsbD_eq_getElem hi]

theorem append_be32 (x : BitVec 32) :
    ((x.extractLsb' 16 16).extractLsb' 8 8 ++ (x.extractLsb' 16 16).extractLsb' 0 8) ++
      ((x.extractLsb' 0 16).extractLsb' 8 8 ++ (x.extractLsb' 0 16).extractLsb' 0 8) = x := by
  have word (y : BitVec 16) : y.extractLsb' 8 8 ++ y.extractLsb' 0 8 = y :=
    append_extract (m := 8) (n := 8) y
  rw [word, word]
  exact append_extract (m := 16) (n := 16) x

variable {b : Buffer} {o : Nat}

theorem get16_eq {x : BitVec 16} (stored : slice b o 2 = be16 x) : get16 b o = x := by
  obtain ⟨high, low⟩ : b o = x.extractLsb' 8 8 ∧ b (o+1) = x.extractLsb' 0 8 := by
    simpa [slice, be16, List.range_succ] using stored
  rw [get16, high, low]
  exact append_extract (m := 8) (n := 8) x

theorem get32_eq {x : BitVec 32} (stored : slice b o 4 = be32 x) : get32 b o = x := by
  rw [show 4 = 2 + 2 from rfl, slice_add, be32] at stored
  obtain ⟨high, low⟩ := List.append_inj stored (by simp)
  rw [get32, get16_eq high, get16_eq low]
  exact append_extract (m := 16) (n := 16) x

theorem get32_of_slice {n : Nat} (front back : List (BitVec 8)) {x : BitVec 32}
    (stored : slice b o n = front ++ (be32 x ++ back)) : get32 b (o + front.length) = x := by
  have length : n = front.length + (4 + back.length) := by
    rw [← length_slice b o n, stored]
    simp
  rw [length, slice_add, slice_add] at stored
  obtain ⟨_, rest⟩ := List.append_inj stored (length_slice ..)
  obtain ⟨word, _⟩ := List.append_inj rest (length_slice ..)
  exact get32_eq word

end Words

end ByteBuffer
