import Mathlib.Logic.Function.Basic
import Mathlib.Tactic.Common

/-!
# Options in a buffer

Records of a code, a length byte and a value stand one behind the other in a buffer, up to a
byte that is no code. The buffer is a function of the offset, so that a list of options is laid
out at an offset whatever the other cells hold.
-/

namespace TlvLists

section Cells

variable {β : Type}

/-- The cells from an offset on hold these values. -/
def Holds (m : Nat → β) : Nat → List β → Prop
  | _, [] => True
  | o, b :: bs => m o = b ∧ Holds m (o+1) bs

/-- The values are stored from an offset on, one after the other. -/
def store (m : Nat → β) : Nat → List β → Nat → β
  | _, [] => m
  | o, b :: bs => store (Function.update m o b) (o+1) bs

variable {m m' : Nat → β} {o : Nat}

@[simp]
theorem holds_nil : Holds m o [] := trivial

variable {bs : List β}

@[simp]
theorem holds_cons {b : β} : Holds m o (b :: bs) ↔ m o = b ∧ Holds m (o+1) bs :=
  Iff.rfl

@[simp]
theorem holds_append {cs : List β} :
    Holds m o (bs ++ cs) ↔ Holds m o bs ∧ Holds m (o + bs.length) cs := by
  induction bs generalizing o with
  | nil => simp
  | cons b bs ih =>
    simp only [List.cons_append, holds_cons, ih, List.length_cons, and_assoc,
      show o + 1 + bs.length = o + (bs.length + 1) by omega]

theorem Holds.congr (holds : Holds m o bs)
    (same : ∀ i, o ≤ i → i < o + bs.length → m' i = m i) : Holds m' o bs := by
  induction bs generalizing o with
  | nil => exact holds_nil
  | cons b bs ih =>
    simp only [List.length_cons] at same
    refine ⟨(same o (by omega) (by omega)).trans holds.1, ih holds.2 fun i lower upper => ?_⟩
    exact same i (by omega) (by omega)

theorem Holds.unique {cs : List β} (left : Holds m o bs) (right : Holds m o cs)
    (length : bs.length = cs.length) : bs = cs := by
  induction bs generalizing cs o with
  | nil => exact (List.eq_nil_of_length_eq_zero length.symm).symm
  | cons b bs ih =>
    cases cs with
    | nil => cases length
    | cons c cs =>
      rw [← left.1, ← right.1, ih left.2 right.2 (Nat.succ.inj length)]

theorem holds_range (m : Nat → β) (o n : Nat) :
    Holds m o ((List.range n).map fun i => m (o + i)) := by
  induction n with
  | zero => exact holds_nil
  | succ n ih =>
    rw [List.range_succ, List.map_append, holds_append]
    refine ⟨ih, ?_, holds_nil⟩
    rw [List.length_map, List.length_range]

theorem store_outside {i : Nat} (outside : i < o ∨ o + bs.length ≤ i) :
    store m o bs i = m i := by
  induction bs generalizing m o with
  | nil => rfl
  | cons b bs ih =>
    simp only [List.length_cons] at outside
    rw [store, ih (by omega), Function.update_of_ne (by omega)]

theorem holds_store : Holds (store m o bs) o bs := by
  induction bs generalizing m o with
  | nil => exact holds_nil
  | cons b bs ih =>
    refine ⟨?_, ih⟩
    rw [store, store_outside (Or.inl (Nat.lt_succ_self o)), Function.update_self]

end Cells

/-- A code that does not stop the list, and a value with a length that fits a byte. -/
structure Tlv (Stop : BitVec 8 → Prop) where
  code : BitVec 8
  value : List (BitVec 8)
  goes : ¬ Stop code
  fits : value.length < 256

variable {Stop : BitVec 8 → Prop}

theorem Tlv.ext {s t : Tlv Stop} (code : s.code = t.code) (value : s.value = t.value) : s = t := by
  cases s
  cases t
  subst code
  subst value
  rfl

def Tlv.encode (t : Tlv Stop) : List (BitVec 8) :=
  t.code :: BitVec.ofNat 8 t.value.length :: t.value

/-- The options, one behind the other. -/
def encode (os : List (Tlv Stop)) : List (BitVec 8) := os.flatMap Tlv.encode

/-- The options stand in the buffer from `o` on; `last` is the byte that stops the list. -/
structure Laid (m : Nat → BitVec 8) (o : Nat) (os : List (Tlv Stop)) (last : Nat) : Prop where
  holds : Holds m o (encode os)
  size : last = o + (encode os).length
  stop : Stop (m last)

@[simp]
theorem encode_cons (t : Tlv Stop) (os : List (Tlv Stop)) :
    encode (t :: os) = t.encode ++ encode os := rfl

@[simp]
theorem encode_append (os ps : List (Tlv Stop)) : encode (os ++ ps) = encode os ++ encode ps :=
  List.flatMap_append

@[simp]
theorem Tlv.length_encode (t : Tlv Stop) : t.encode.length = t.value.length + 2 := rfl

theorem Tlv.toNat_length (t : Tlv Stop) :
    (BitVec.ofNat 8 t.value.length).toNat = t.value.length := by
  rw [BitVec.toNat_ofNat]
  exact Nat.mod_eq_of_lt t.fits

theorem two_mul_length_le (os : List (Tlv Stop)) : 2 * os.length ≤ (encode os).length := by
  induction os with
  | nil => exact Nat.le_refl 0
  | cons t os ih =>
    simp only [encode_cons, List.length_append, Tlv.length_encode, List.length_cons]
    omega

variable {m m' : Nat → BitVec 8} {o last : Nat} {os ps : List (Tlv Stop)} {t : Tlv Stop}

@[simp]
theorem laid_nil : Laid m o ([] : List (Tlv Stop)) last ↔ last = o ∧ Stop (m o) := by
  constructor
  · intro laid
    have here : last = o := laid.size
    exact ⟨here, here ▸ laid.stop⟩
  · rintro ⟨rfl, stop⟩
    exact ⟨holds_nil, rfl, stop⟩

theorem laid_append :
    Laid m o (os ++ ps) last ↔
      Holds m o (encode os) ∧ Laid m (o + (encode os).length) ps last := by
  constructor
  · rintro ⟨holds, size, stop⟩
    rw [encode_append, holds_append] at holds
    rw [encode_append, List.length_append, ← Nat.add_assoc] at size
    exact ⟨holds.1, holds.2, size, stop⟩
  · rintro ⟨front, holds, size, stop⟩
    refine ⟨?_, ?_, stop⟩
    · rw [encode_append, holds_append]
      exact ⟨front, holds⟩
    · rw [encode_append, List.length_append, ← Nat.add_assoc]
      exact size

theorem holds_encode :
    Holds m o t.encode ↔
      m o = t.code ∧ m (o+1) = BitVec.ofNat 8 t.value.length ∧ Holds m (o+2) t.value := Iff.rfl

theorem laid_cons :
    Laid m o (t :: os) last ↔ Holds m o t.encode ∧ Laid m (o + (t.value.length + 2)) os last := by
  have single : encode [t] = t.encode := List.append_nil _
  have split := @laid_append Stop m o last [t] os
  rw [single, Tlv.length_encode] at split
  exact split

theorem Laid.le (laid : Laid m o os last) : o + 2 * os.length ≤ last := by
  have long := two_mul_length_le os
  have size := laid.size
  omega

theorem Laid.congr (laid : Laid m o os last) (same : ∀ i, o ≤ i → i ≤ last → m' i = m i) :
    Laid m' o os last := by
  have size := laid.size
  refine ⟨laid.holds.congr fun i lower upper => same i lower (by omega), size, ?_⟩
  rw [same last (by omega) (Nat.le_refl _)]
  exact laid.stop

theorem Laid.at_option (laid : Laid m o (os ++ t :: ps) last) :
    Holds m (o + (encode os).length) t.encode ∧
      o + (encode os).length + (t.value.length + 2) ≤ last := by
  obtain ⟨holds, rest⟩ := laid_cons.mp (laid_append.mp laid).2
  have further := rest.le
  exact ⟨holds, by omega⟩

theorem Laid.cut {stopper : BitVec 8} (laid : Laid m o (os ++ ps) last) (stop : Stop stopper) :
    Laid (Function.update m (o + (encode os).length) stopper) o os (o + (encode os).length) := by
  refine ⟨(laid_append.mp laid).1.congr fun i lower upper => ?_, rfl, ?_⟩
  · exact Function.update_of_ne (Nat.ne_of_lt upper) _ _
  · rw [Function.update_self]
    exact stop

theorem Laid.extend {stopper : BitVec 8} (laid : Laid m o os last) (t : Tlv Stop)
    (stop : Stop stopper) :
    Laid (store m last (t.encode ++ [stopper])) o (os ++ [t]) (last + t.encode.length) := by
  have size := laid.size
  obtain ⟨option, marker, -⟩ := holds_append.mp
    (@holds_store _ m last (t.encode ++ [stopper]))
  refine laid_append.mpr ⟨laid.holds.congr fun i lower upper => ?_, ?_⟩
  · exact store_outside (Or.inl (by omega))
  · rw [← size]
    refine laid_cons.mpr ⟨option, laid_nil.mpr ⟨rfl, ?_⟩⟩
    exact (congrArg Stop marker).mpr stop

theorem exists_option (goes : ¬ Stop (m o)) : ∃ t : Tlv Stop, Holds m o t.encode := by
  have length : ((List.range (m (o+1)).toNat).map fun i => m (o + 2 + i)).length =
      (m (o+1)).toNat := by
    rw [List.length_map, List.length_range]
  refine ⟨⟨m o, (List.range (m (o+1)).toNat).map fun i => m (o + 2 + i), goes, ?_⟩, ?_⟩
  · rw [length]
    exact (m (o+1)).isLt
  · refine holds_encode.mpr ⟨rfl, ?_, holds_range m (o+2) _⟩
    rw [length, BitVec.ofNat_toNat, BitVec.setWidth_eq]

theorem Laid.unique {last' : Nat} (left : Laid m o os last) (right : Laid m o ps last') :
    os = ps ∧ last = last' := by
  induction os generalizing o ps with
  | nil =>
    obtain ⟨here, stop⟩ := laid_nil.mp left
    cases ps with
    | nil => exact ⟨rfl, here.trans (laid_nil.mp right).1.symm⟩
    | cons p ps =>
      obtain ⟨holds, -⟩ := laid_cons.mp right
      exact absurd ((holds_encode.mp holds).1 ▸ stop) p.goes
  | cons t os ih =>
    obtain ⟨holds, rest⟩ := laid_cons.mp left
    obtain ⟨code, length, value⟩ := holds_encode.mp holds
    cases ps with
    | nil => exact absurd (code ▸ (laid_nil.mp right).2) t.goes
    | cons p ps =>
      obtain ⟨holds', rest'⟩ := laid_cons.mp right
      obtain ⟨code', length', value'⟩ := holds_encode.mp holds'
      have lengths : t.value.length = p.value.length := by
        rw [← t.toNat_length, ← p.toNat_length, ← length, ← length']
      have same : t = p := Tlv.ext (code.symm.trans code') (value.unique value' lengths)
      subst same
      obtain ⟨tails, lasts⟩ := ih rest rest'
      exact ⟨congrArg (t :: ·) tails, lasts⟩

end TlvLists
