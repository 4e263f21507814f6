import Mathlib.Data.List.Basic
import Mathlib.Tactic.Common

/-!
# Byte streams that arrive in pieces

A read asks for a number of bytes and gets at least one of them, as long as there are any, and
otherwise as many as have arrived. Each read has its own bound on what has arrived.
-/

namespace CutStream

variable {β : Type}

/-- What was sent and is not read yet. The next read gets at most `cuts 0 + 1` bytes. -/
structure Stream (β : Type) where
  bytes : List β
  cuts : Nat → Nat

def recv (n : Nat) (s : Stream β) : List β × Stream β :=
  (s.bytes.take (min n (s.cuts 0 + 1)),
    ⟨s.bytes.drop (min n (s.cuts 0 + 1)), fun i => s.cuts (i+1)⟩)

variable {cuts : Nat → Nat} {n : Nat} {front rest : List β}

theorem recv_whole (length : front.length = n) (arrived : n ≤ cuts 0 + 1) :
    recv n ⟨front ++ rest, cuts⟩ = (front, ⟨rest, fun i => cuts (i+1)⟩) := by
  subst length
  simp only [recv, Nat.min_eq_left arrived, List.take_left, List.drop_left]

theorem recv_part (part : cuts 0 + 1 < n) :
    (recv n ⟨front ++ rest, cuts⟩).1.length < n := by
  simp only [recv, List.length_take]
  omega

theorem recv_rest_length (n : Nat) (s : Stream β) :
    (recv n s).1.length + (recv n s).2.bytes.length = s.bytes.length := by
  simp only [recv, List.length_take, List.length_drop]
  omega

theorem recv_nil (n : Nat) (cuts : Nat → Nat) : (recv n ⟨([] : List β), cuts⟩).1 = [] := by
  rw [recv, List.take_nil]

end CutStream
