import Mathlib.Data.Nat.Notation
import Rcp100.BufferScan
import Rcp100.TlvLists

/-!
# The option walk

`chk_options` walks the options of a received DHCP packet by their length bytes, without a
pointer to the end of the buffer. Offsets count from the first byte of the options area; behind
the area lie the fields that the process keeps about the packet.
-/

namespace DhcpOptions

open TlvLists
open Scan (cell inside_bind inside_cell inside_pure run_bind run_cell run_pure)

/-- `sizeof(pkt->dhcp.options)`. -/
def area : Nat := 308 + 824

/-- The bytes of `DhcpPacket` before the options. -/
def fixedPart : Nat := 240

/-- `sizeof(DhcpPacket)`, which is also `MAX_DHCP_PKT_SIZE`. -/
def maxPktSize : Nat := 1400 - 20 - 8

theorem packet_size : fixedPart + area = maxPktSize := rfl

abbrev Memory := Nat → BitVec 8

/-- The bytes that end the walk. -/
def Ends (b : BitVec 8) : Prop := b = 0xff ∨ b = 0

instance (b : BitVec 8) : Decidable (Ends b) := inferInstanceAs (Decidable (_ ∨ _))

/-- What the walk extracts. The pointers are offsets. -/
structure Fields where
  pktType : Option Nat := none
  pkt82 : Option Nat := none
  serverId : BitVec 32 := 0
  leaseTime : BitVec 32 := 0
  subnetMask : BitVec 32 := 0
  requestedIp : BitVec 32 := 0
deriving DecidableEq

/-- `memcpy` of four bytes and `ntohl`. -/
def copyLong (o : Nat) : Scan (BitVec 8) (BitVec 32) := do
  return (← cell o) ++ (← cell (o+1)) ++ (← cell (o+2)) ++ (← cell (o+3))

/-- The body of the loop up to the length byte. -/
def note (tag : BitVec 8) (ptr : Nat) (f : Fields) : Scan (BitVec 8) Fields := do
  if tag = 53 then return { f with pktType := some (ptr + 2) }
  else if tag = 82 then return { f with pkt82 := some ptr }
  else if tag = 54 then return { f with serverId := ← copyLong (ptr + 2) }
  else if tag = 51 then return { f with leaseTime := ← copyLong (ptr + 2) }
  else if tag = 1 then return { f with subnetMask := ← copyLong (ptr + 2) }
  else if tag = 50 then return { f with requestedIp := ← copyLong (ptr + 2) }
  else return f

/-- The loop of `chk_options`: where it ends and what it extracts, or `none` when it goes on
after this many steps. -/
def walk : Nat → Nat → Fields → Scan (BitVec 8) (Option (Nat × Fields))
  | 0, _, _ => pure none
  | steps+1, ptr, f => do
    let tag ← cell ptr
    if Ends tag then return some (ptr, f)
    let f ← note tag ptr f
    let len ← cell (ptr + 1)
    walk steps (ptr + len.toNat + 2) f

/-- The packet after `chk_options`. -/
structure Parsed extends Fields where
  pktEnd : Nat
  pktLen : Nat
deriving DecidableEq

inductive Verdict where
  | bad
  | accepted (p : Parsed)
  | running
deriving DecidableEq

/-- `chk_options`. The field `requested_ip` is the only one that is not reset. An option takes
two bytes at least, so that a walk with this many steps has left the area. -/
def chkOptions (requestedIp : BitVec 32) : Scan (BitVec 8) Verdict := do
  match ← walk (area + 1) 0 { requestedIp := requestedIp } with
  | none => return .running
  | some (ptr, f) =>
    if (← cell ptr) ≠ 0xff then return .bad
    return .accepted ⟨f, ptr, fixedPart + ptr + 1⟩

/-- The options area after `recvmsg`: the datagram from its byte 240 on, then zeros. The bytes
behind the area are arbitrary. -/
def received (datagram : List (BitVec 8)) (behind : Memory) : Memory :=
  fun i => if i < area then datagram.getD (fixedPart + i) 0 else behind (i - area)

/-- What is accepted points into the options area. -/
structure PointsInside (m : Memory) (p : Parsed) : Prop where
  pktType : ∀ i, p.pktType = some i → i < area
  pkt82 : ∀ i, p.pkt82 = some i → i + 2 + (m (i+1)).toNat ≤ area
  pktEnd : p.pktEnd < area
  pktLen : p.pktLen ≤ maxPktSize

/-- The walk ends, reads only bytes of the packet, and finds nothing outside of it. -/
structure StaysInside (m : Memory) (requestedIp : BitVec 32) : Prop where
  reads : (chkOptions requestedIp).Inside m area
  ends : (chkOptions requestedIp).run m ≠ .running
  points : ∀ p, (chkOptions requestedIp).run m = .accepted p → PointsInside m p

/-- The options that four bytes are copied from. -/
def copied (code : BitVec 8) : Bool := code = 54 ∨ code = 51 ∨ code = 1 ∨ code = 50

/-- The four bytes behind each such option come before `n`. -/
def CopiesBefore (n : Nat) : Nat → List (Tlv Ends) → Prop
  | _, [] => True
  | o, t :: os => (copied t.code = true → o + 6 ≤ n) ∧ CopiesBefore n (o + (t.value.length + 2)) os

/-- The options are closed in the area, by a marker or by a zero, and leave room for the
copies. -/
def Complete (m : Memory) : Prop :=
  ∃ os last, Laid m 0 os last ∧ last < area ∧ CopiesBefore area 0 os

section Walk

variable {m : Memory} {n : Nat}

theorem inside_copyLong (o : Nat) : (copyLong o).Inside m n ↔ o + 4 ≤ n := by
  simp only [copyLong, inside_bind, inside_cell, inside_pure, and_true]
  omega

theorem copied_iff (code : BitVec 8) :
    copied code = true ↔ code = 54 ∨ code = 51 ∨ code = 1 ∨ code = 50 := decide_eq_true_iff

theorem inside_note (tag : BitVec 8) (ptr : Nat) (f : Fields) :
    (note tag ptr f).Inside m n ↔ (copied tag = true → ptr + 6 ≤ n) := by
  rw [copied_iff, note]
  by_cases copies : tag = 54 ∨ tag = 51 ∨ tag = 1 ∨ tag = 50
  · simp only [copies, forall_const]
    rcases copies with rfl | rfl | rfl | rfl <;>
      simp [inside_copyLong, Nat.add_assoc]
  · simp only [copies, false_imp_iff, iff_true]
    simp only [not_or] at copies
    obtain ⟨no54, no51, no1, no50⟩ := copies
    simp only [no54, no51, no1, no50, if_false]
    split_ifs <;> simp only [inside_pure]

/-- The fields after the walk along these options. -/
def notes (m : Memory) : Nat → List (Tlv Ends) → Fields → Fields
  | _, [], f => f
  | o, t :: os, f => notes m (o + (t.value.length + 2)) os ((note t.code o f).run m)

variable {o last steps : Nat} {os : List (Tlv Ends)} {t : Tlv Ends} {f : Fields}

theorem toNat_lengthByte (holds : Holds m o t.encode) : (m (o+1)).toNat = t.value.length := by
  rw [(holds_encode.mp holds).2.1, t.toNat_length]

theorem next_option (holds : Holds m o t.encode) :
    o + (m (o+1)).toNat + 2 = o + (t.value.length + 2) := by
  rw [toNat_lengthByte holds, Nat.add_assoc]

theorem run_walk (laid : Laid m o os last) (enough : os.length < steps) :
    (walk steps o f).run m = some (last, notes m o os f) := by
  induction os generalizing o steps f with
  | nil =>
    obtain ⟨rfl, stop⟩ := laid_nil.mp laid
    obtain ⟨steps, rfl⟩ := Nat.exists_eq_add_of_lt enough
    simp only [walk, run_bind, run_cell, stop, if_true, run_pure, notes]
  | cons t os ih =>
    obtain ⟨holds, rest⟩ := laid_cons.mp laid
    cases steps with
    | zero => exact absurd enough (Nat.not_lt_zero _)
    | succ steps =>
      have code : m o = t.code := (holds_encode.mp holds).1
      simp only [walk, run_bind, run_cell, code, t.goes, if_false, next_option holds]
      exact ih rest (Nat.lt_of_succ_lt_succ enough)

theorem inside_walk (laid : Laid m o os last) (enough : os.length < steps) :
    (walk steps o f).Inside m n ↔ last < n ∧ CopiesBefore n o os := by
  induction os generalizing o steps f with
  | nil =>
    obtain ⟨rfl, stop⟩ := laid_nil.mp laid
    obtain ⟨steps, rfl⟩ := Nat.exists_eq_add_of_lt enough
    simp only [walk, inside_bind, inside_cell, run_cell, stop, if_true,
      inside_pure, CopiesBefore]
  | cons t os ih =>
    obtain ⟨holds, rest⟩ := laid_cons.mp laid
    have further := rest.le
    cases steps with
    | zero => exact absurd enough (Nat.not_lt_zero _)
    | succ steps =>
      have code : m o = t.code := (holds_encode.mp holds).1
      simp only [walk, inside_bind, inside_cell, run_cell, code, t.goes, if_false,
        inside_note, next_option holds, ih rest (Nat.lt_of_succ_lt_succ enough), CopiesBefore]
      constructor
      · rintro ⟨-, copies, -, before, others⟩
        exact ⟨before, copies, others⟩
      · rintro ⟨before, copies, others⟩
        exact ⟨by omega, copies, by omega, before, others⟩

/-- A walk along no list uses up its steps, each two bytes behind the one before. -/
theorem laid_or_running (m : Memory) (steps o : Nat) (f : Fields) :
    (∃ (os : List (Tlv Ends)) (last : Nat), Laid m o os last ∧ os.length < steps) ∨
      ((walk steps o f).run m = none ∧
        ∀ n, (walk steps o f).Inside m n → steps = 0 ∨ o + 2 * steps ≤ n + 1) := by
  induction steps generalizing o f with
  | zero => exact Or.inr ⟨rfl, fun n _ => Or.inl rfl⟩
  | succ steps ih =>
    by_cases stop : Ends (m o)
    · exact Or.inl ⟨[], o, laid_nil.mpr ⟨rfl, stop⟩, Nat.succ_pos steps⟩
    · obtain ⟨t, holds⟩ := exists_option stop
      rcases ih (o + (m (o+1)).toNat + 2) ((note (m o) o f).run m) with
        ⟨os, last, laid, short⟩ | ⟨running, reads⟩
      · rw [next_option holds] at laid
        exact Or.inl ⟨t :: os, last, laid_cons.mpr ⟨holds, laid⟩, Nat.succ_lt_succ short⟩
      · refine Or.inr ⟨?_, fun n inside => ?_⟩
        · simp only [walk, run_bind, run_cell, stop, if_false, running]
        · simp only [walk, inside_bind, inside_cell, run_cell, stop, if_false]
            at inside
          obtain ⟨-, -, here, later⟩ := inside
          rcases reads n later with done | bound <;> omega

/-- The offset of the last option with this code. -/
def lastAt (code : BitVec 8) : Nat → List (Tlv Ends) → Option Nat
  | _, [] => none
  | o, t :: os =>
    (lastAt code (o + (t.value.length + 2)) os).or (if t.code = code then some o else none)

theorem lastAt_eq_none {code : BitVec 8} :
    lastAt code o os = none ↔ ∀ u ∈ os, u.code ≠ code := by
  induction os generalizing o with
  | nil => simp [lastAt]
  | cons t os ih =>
    simp only [lastAt, Option.or_eq_none_iff, ih, List.forall_mem_cons, ite_eq_right_iff,
      reduceCtorEq, imp_false]
    exact and_comm

theorem lastAt_eq_some {code : BitVec 8} {i : Nat} (found : lastAt code o os = some i) :
    ∃ before t after, os = before ++ t :: after ∧ t.code = code ∧
      (∀ u ∈ after, u.code ≠ code) ∧ i = o + (encode before).length := by
  induction os generalizing o with
  | nil => cases found
  | cons t os ih =>
    rw [lastAt] at found
    rcases Option.or_eq_some_iff.mp found with later | ⟨others, here⟩
    · obtain ⟨before, u, after, rfl, codeOf, others, rfl⟩ := ih later
      refine ⟨t :: before, u, after, rfl, codeOf, others, ?_⟩
      rw [encode_cons, List.length_append, Tlv.length_encode, Nat.add_assoc]
    · split_ifs at here with codeOf
      cases here
      exact ⟨[], t, os, rfl, codeOf, lastAt_eq_none.mp others, rfl⟩

theorem lastAt_concat {code : BitVec 8} (codeOf : t.code = code) :
    lastAt code o (os ++ [t]) = some (o + (encode os).length) := by
  induction os generalizing o with
  | nil => simp only [List.nil_append, lastAt, codeOf, if_true, Option.none_or]; rfl
  | cons u os ih =>
    rw [List.cons_append, lastAt, ih, Option.some_or, encode_cons, List.length_append,
      Tlv.length_encode, Nat.add_assoc]

theorem pktType_note (tag : BitVec 8) (o : Nat) (f : Fields) :
    ((note tag o f).run m).pktType = if tag = 53 then some (o + 2) else f.pktType := by
  unfold note
  split_ifs <;> rfl

theorem pkt82_note (tag : BitVec 8) (o : Nat) (f : Fields) :
    ((note tag o f).run m).pkt82 = if tag = 82 then some o else f.pkt82 := by
  unfold note
  split_ifs with h53 h82 <;> first | rfl | exact absurd (h53.symm.trans h82) (by decide)

theorem pktType_notes :
    (notes m o os f).pktType = ((lastAt 53 o os).map (· + 2)).or f.pktType := by
  induction os generalizing o f with
  | nil => rfl
  | cons t os ih =>
    rw [notes, ih, pktType_note, lastAt]
    cases lastAt 53 (o + (t.value.length + 2)) os with
    | some i => rfl
    | none => split_ifs <;> rfl

theorem pkt82_notes : (notes m o os f).pkt82 = (lastAt 82 o os).or f.pkt82 := by
  induction os generalizing o f with
  | nil => rfl
  | cons t os ih =>
    rw [notes, ih, pkt82_note, lastAt]
    cases lastAt 82 (o + (t.value.length + 2)) os with
    | some i => rfl
    | none => split_ifs <;> rfl

end Walk

section Packet

variable {m : Memory} {os : List (Tlv Ends)} {last : Nat} {requestedIp : BitVec 32} {p : Parsed}

/-- What `chk_options` makes of a list of options that ends in `last`. -/
def parsed (m : Memory) (requestedIp : BitVec 32) (os : List (Tlv Ends)) (last : Nat) : Parsed :=
  ⟨notes m 0 os { requestedIp := requestedIp }, last, fixedPart + last + 1⟩

@[simp]
theorem pkt82_parsed : (parsed m requestedIp os last).pkt82 = lastAt 82 0 os := by
  rw [parsed, pkt82_notes, Option.or_none]

theorem run_chkOptions (laid : Laid m 0 os last) (short : os.length < area + 1) :
    (chkOptions requestedIp).run m =
      if m last ≠ 0xff then .bad else .accepted (parsed m requestedIp os last) := by
  simp only [chkOptions, run_bind, run_walk laid short, run_cell]
  by_cases marker : m last = 0xff
  · simp only [marker, ne_eq, not_true_eq_false, if_false, run_pure, parsed]
  · simp only [marker, ne_eq, not_false_eq_true, if_true, run_pure]

theorem accepted_iff :
    (chkOptions requestedIp).run m = .accepted p ↔
      ∃ os last, Laid m 0 os last ∧ os.length < area + 1 ∧ m last = 0xff ∧
        p = parsed m requestedIp os last := by
  constructor
  · intro accepted
    rcases laid_or_running m (area + 1) 0 { requestedIp := requestedIp } with
      ⟨os, last, laid, short⟩ | ⟨running, -⟩
    · rw [run_chkOptions laid short] at accepted
      split_ifs at accepted with marker
      cases accepted
      exact ⟨os, last, laid, short, not_not.mp marker, rfl⟩
    · simp only [chkOptions, run_bind, running, run_pure, reduceCtorEq] at accepted
  · rintro ⟨os, last, laid, short, marker, rfl⟩
    rw [run_chkOptions laid short, if_neg (not_not_intro marker)]

theorem accepted_spec (accepted : (chkOptions requestedIp).run m = .accepted p) :
    ∃ os, Laid m 0 os p.pktEnd ∧ os.length < area + 1 ∧ m p.pktEnd = 0xff ∧
      p.pktLen = fixedPart + p.pktEnd + 1 ∧ p.pkt82 = lastAt 82 0 os := by
  obtain ⟨os, last, laid, short, marker, rfl⟩ := accepted_iff.mp accepted
  exact ⟨os, laid, short, marker, rfl, pkt82_parsed⟩

theorem reads_inside_iff : (chkOptions requestedIp).Inside m area ↔ Complete m := by
  constructor
  · intro inside
    rw [chkOptions, inside_bind] at inside
    rcases laid_or_running m (area + 1) 0 { requestedIp := requestedIp } with
      ⟨os, last, laid, short⟩ | ⟨-, reads⟩
    · obtain ⟨before, copies⟩ := (inside_walk laid short).mp inside.1
      exact ⟨os, last, laid, before, copies⟩
    · rcases reads area inside.1 with none | bound
      · exact absurd none (Nat.succ_ne_zero area)
      · unfold area at bound
        omega
  · rintro ⟨os, last, laid, before, copies⟩
    have further := laid.le
    have short : os.length < area + 1 := by omega
    rw [chkOptions, inside_bind]
    refine ⟨(inside_walk laid short).mpr ⟨before, copies⟩, ?_⟩
    simp only [run_walk laid short, inside_bind, inside_cell, run_cell]
    refine ⟨before, ?_⟩
    by_cases marker : m last = 0xff
    · simp only [marker, ne_eq, not_true_eq_false, if_false, inside_pure]
    · simp only [marker, ne_eq, not_false_eq_true, if_true, inside_pure]

theorem points_inside (laid : Laid m 0 os last) (before : last < area) :
    PointsInside m (parsed m requestedIp os last) := by
  refine ⟨fun i type => ?_, fun i relay => ?_, before, ?_⟩
  · rw [parsed, pktType_notes, Option.or_none, Option.map_eq_some_iff] at type
    obtain ⟨o, found, rfl⟩ := type
    obtain ⟨front, t, after, rfl, -, -, rfl⟩ := lastAt_eq_some found
    have further := laid.at_option.2
    omega
  · rw [pkt82_parsed] at relay
    obtain ⟨front, t, after, rfl, -, -, rfl⟩ := lastAt_eq_some relay
    obtain ⟨holds, further⟩ := laid.at_option
    rw [toNat_lengthByte holds]
    omega
  · have size := packet_size
    change fixedPart + last + 1 ≤ maxPktSize
    omega

end Packet

/-- The options that the datagram brings, and zeros. -/
def optionsOf (datagram : List (BitVec 8)) : Memory := fun i => datagram.getD (fixedPart + i) 0

theorem Complete.congr {m m' : Memory} (complete : Complete m) (same : ∀ i < area, m' i = m i) :
    Complete m' := by
  obtain ⟨os, last, laid, before, copies⟩ := complete
  exact ⟨os, last, laid.congr fun i _ upper => same i (Nat.lt_of_le_of_lt upper before), before,
    copies⟩

theorem received_inside {datagram : List (BitVec 8)} {behind : Memory} {i : Nat}
    (inside : i < area) : received datagram behind i = optionsOf datagram i := if_pos inside

/-- For every datagram and whatever lies behind the buffer, the walk stays inside the packet
when, and only when, the options of the datagram are complete. -/
theorem options_inside_iff (datagram : List (BitVec 8)) (behind : Memory)
    (requestedIp : BitVec 32) :
    StaysInside (received datagram behind) requestedIp ↔ Complete (optionsOf datagram) := by
  constructor
  · intro safe
    exact (reads_inside_iff.mp safe.reads).congr fun i inside => (received_inside inside).symm
  · intro complete
    have complete' : Complete (received datagram behind) :=
      complete.congr fun i inside => received_inside inside
    obtain ⟨os, last, laid, before, copies⟩ := complete'
    have further := laid.le
    have run := @run_chkOptions _ os last requestedIp laid (by omega)
    refine ⟨reads_inside_iff.mpr ⟨os, last, laid, before, copies⟩, ?_, fun p accepted => ?_⟩
    · rw [run]
      split_ifs <;> exact Verdict.noConfusion
    · rw [run] at accepted
      split_ifs at accepted
      cases accepted
      exact points_inside laid before

/-- A DISCOVER of the size of the buffer; the length of its last option points behind it. -/
def crossing : List (BitVec 8) :=
  let filler := (43#8) :: 255#8 :: List.replicate 255 1#8
  List.replicate 240 0#8 ++ [53#8, 1#8, 1#8] ++ filler ++ filler ++ filler ++ filler ++
    [43#8, 200#8] ++ List.replicate 99 1#8

theorem crossing_leaves : ¬ StaysInside (received crossing fun _ => 0) 0 := by
  intro safe
  have read : 1233 ∈ (chkOptions 0).reads (received crossing fun _ => 0) := by decide +kernel
  exact absurd (safe.reads 1233 read) (by decide)

end DhcpOptions
