import Rcp100.BitPrefix

/-!
# Masks and prefix lengths

`mask2bits` counts the leading ones of a mask. A contiguous mask is therefore
determined by its count; for other masks the count stops at the first zero.
-/

namespace IpAddress

open BitPrefix

/-- The loop of `mask2bits`: `steps` iterations are left and `tmp` is the probe bit. -/
def mask2bitsLoop (mask : BitVec 32) : Nat → BitVec 32 → Nat → Nat
  | 0, _, rv => rv
  | steps+1, tmp, rv =>
    if tmp &&& mask ≠ 0 then mask2bitsLoop mask steps (tmp >>> 1) (rv+1) else rv

def mask2bits (mask : BitVec 32) : Nat := mask2bitsLoop mask 32 0x80000000 0

theorem mask2bits_leading {n : Nat} (hn : n ≤ 32) : mask2bits (leading 32 n) = n := by
  have all : ∀ n : Fin 33, mask2bits (leading 32 n.val) = n.val := by decide
  exact all ⟨n, by omega⟩

end IpAddress
