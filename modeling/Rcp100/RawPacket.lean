import Rcp100.ByteBuffer
import Rcp100.OnesComplement
import Mathlib.Data.BitVec

/-!
# Packets that are sent raw

The DHCP server writes the IP and UDP headers in front of a reply itself. The checksums are
made of words as the processor reads them; the addresses, ports and lengths are stored in
network order, whatever the processor.
-/

namespace RawPacket

open ByteBuffer OnesComplement

def ipSize : Nat := 20
def udpSize : Nat := 8

/-- `sizeof(DhcpPacket)` -/
def dhcpSize : Nat := 1372

/-- The memory from the IP header on, with the UDP header and the DHCP packet behind it. -/
structure Packet where
  mem : Buffer
  pktLen : Nat
  fits : pktLen ≤ dhcpSize

def udpOffset : Nat := ipSize
def dhcpOffset : Nat := ipSize + udpSize

section Words

def load16 : ByteOrder → Buffer → Nat → BitVec 16
  | .little, m, o => m (o+1) ++ m o
  | .big, m, o => m o ++ m (o+1)

def store16 : ByteOrder → Buffer → Nat → BitVec 16 → Buffer
  | .little, m, o, x => write m o (be16 x).reverse
  | .big, m, o, x => write m o (be16 x)

def htons : ByteOrder → BitVec 16 → BitVec 16
  | .little, x => x.extractLsb' 0 8 ++ x.extractLsb' 8 8
  | .big, x => x

/-- `n` words are added to the sum. -/
def addWords (order : ByteOrder) (m : Buffer) : Nat → Nat → BitVec 32 → BitVec 32
  | _, 0, sum => sum
  | o, n+1, sum => addWords order m (o+2) n (sum + (load16 order m o).setWidth 32)

theorem toNat_round (sum : BitVec 32) :
    ((sum &&& (0xffff : BitVec 32)) + (sum >>> 16)).toNat =
      sum.toNat % 65536 + sum.toNat / 65536 := by
  have high : (sum >>> 16).toNat = sum.toNat / 65536 := by
    rw [BitVec.toNat_ushiftRight, Nat.shiftRight_eq_div_pow]
  have low : (sum &&& (0xffff : BitVec 32)).toNat = sum.toNat % 65536 := by
    rw [BitVec.toNat_and]
    exact Nat.and_two_pow_sub_one_eq_mod sum.toNat 16
  rw [BitVec.toNat_add, low, high, Nat.mod_eq_of_lt (by omega)]

theorem ushiftRight_eq_zero_iff (sum : BitVec 32) : sum >>> 16 = 0 ↔ sum.toNat < 65536 := by
  have high : (sum >>> 16).toNat = sum.toNat / 65536 := by
    rw [BitVec.toNat_ushiftRight, Nat.shiftRight_eq_div_pow]
  constructor
  · intro none
    rw [none] at high
    change 0 = sum.toNat / 65536 at high
    omega
  · intro small
    refine BitVec.eq_of_toNat_eq (high.trans ?_)
    change sum.toNat / 65536 = 0
    omega

/-- The loop `while (sum>>16)`. -/
def foldSum (sum : BitVec 32) : BitVec 32 :=
  if sum >>> 16 = 0 then sum else foldSum ((sum &&& (0xffff : BitVec 32)) + (sum >>> 16))
termination_by sum.toNat
decreasing_by
  rename_i carries
  rw [ushiftRight_eq_zero_iff] at carries
  rw [toNat_round]
  omega

/-- What is stored for a sum whose carries have been added back. -/
def check (sum : BitVec 32) : BitVec 16 :=
  if sum = 0xffff then sum.setWidth 16 else (~~~sum).setWidth 16

end Words

section Headers

variable (order : ByteOrder)

/-- The fields of the IP header but for the checksum, in the order of the source. `ip_hl` and
`ip_v` share a byte. -/
def ipFields (m : Buffer) (len : Nat) (ifip : BitVec 32) : Buffer :=
  let m := write m 9 [17]
  let m := write m 12 (be32 ifip)
  let m := write m 16 (be32 0xffffffff)
  let m := write m 2 (be16 (BitVec.ofNat 16 (ipSize + udpSize + len)))
  let m := write m 0 [(4 : BitVec 4) ++ (BitVec.ofNat 4 (ipSize / 4))]
  let m := write m 1 [0]
  let m := write m 4 (be16 0)
  let m := write m 6 (be16 0x4000)
  let m := write m 8 [64]
  store16 order m 10 0

def setIp (pkt : Packet) (ifip : BitVec 32) : Packet :=
  let m := ipFields order pkt.mem pkt.pktLen ifip
  let sum := foldSum (addWords order m 0 (ipSize / 2) 0)
  { pkt with mem := store16 order m 10 (check sum) }

/-- The ports, the byte behind the payload, and the length. -/
def udpFields (m : Buffer) (len : Nat) : Buffer :=
  let m := write m 20 (be16 67)
  let m := write m 22 (be16 68)
  let m := write m (dhcpOffset + len) [0]
  let m := store16 order m 26 0
  store16 order m 24 (htons order (BitVec.ofNat 16 (udpSize + len)))

/-- The sum over the pseudo header, the header and the payload. -/
def udpSum (m : Buffer) (len : Nat) : BitVec 32 :=
  let sum := (htons order (BitVec.ofNat 16 (udpSize + len))).setWidth 32
  let sum := sum + (htons order 17).setWidth 32
  let sum := addWords order m 12 4 sum
  addWords order m udpOffset ((udpSize + len + 1) / 2) sum

def setUdp (pkt : Packet) : Packet :=
  let m := udpFields order pkt.mem pkt.pktLen
  { pkt with mem := store16 order m 26 (check (foldSum (udpSum order m pkt.pktLen))) }

end Headers

/-- The source and destination addresses, the protocol and the UDP length. -/
def pseudoHeader (m : Buffer) : List (BitVec 8) :=
  slice m 12 8 ++ [0, m 9] ++ slice m 24 2

def ipHeader (m : Buffer) : List (BitVec 8) := slice m 0 ipSize

/-- The UDP header and the payload. -/
def datagram (pkt : Packet) : List (BitVec 8) := slice pkt.mem udpOffset (udpSize + pkt.pktLen)

/-- The bytes that are summed up, with a zero behind an odd payload. -/
structure Checksummed (before after : Packet) : Prop where
  header : Sums (ipHeader after.mem)
  udp : Sums (pseudoHeader after.mem ++ datagram after)
  nonzero : slice after.mem 26 2 ≠ [0, 0]
  payload : after.pktLen = before.pktLen ∧
    ∀ i < before.pktLen, after.mem (dhcpOffset + i) = before.mem (dhcpOffset + i)

section Sums

variable {order : ByteOrder} {m : Buffer} {o : Nat}

theorem toNat_load16 (order : ByteOrder) (m : Buffer) (o : Nat) :
    (load16 order m o).toNat = pair order (m o) (m (o+1)) := by
  have one := (m o).isLt
  have two := (m (o+1)).isLt
  cases order with
  | little =>
    rw [load16, BitVec.toNat_append, pair, ← Nat.shiftLeft_add_eq_or_of_lt one, Nat.shiftLeft_eq]
    omega
  | big =>
    rw [load16, BitVec.toNat_append, pair, ← Nat.shiftLeft_add_eq_or_of_lt two, Nat.shiftLeft_eq]
    omega

theorem load16_store16 (order : ByteOrder) (m : Buffer) (o : Nat) (x : BitVec 16) :
    load16 order (store16 order m o x) o = x := by
  cases order with
  | little =>
    have here : store16 .little m o x o = x.extractLsb' 0 8 := by
      simp [store16, write, be16]
    have next : store16 .little m o x (o+1) = x.extractLsb' 8 8 := by
      simp [store16, write, be16]
    rw [load16, here, next]
    exact append_extract (m := 8) (n := 8) x
  | big => exact get16_eq (slice_write_self m o rfl)

theorem toNat_foldSum (sum : BitVec 32) : (foldSum sum).toNat = fold sum.toNat := by
  induction sum using foldSum.induct with
  | case1 sum done =>
    rw [foldSum, if_pos done, fold_of_lt ((ushiftRight_eq_zero_iff sum).mp done)]
  | case2 sum carries ih =>
    rw [foldSum, if_neg carries, ih, toNat_round]
    rw [ushiftRight_eq_zero_iff, Nat.not_lt] at carries
    exact (fold_of_le carries).symm

theorem toNat_check (sum : BitVec 32) :
    (check (foldSum sum)).toNat = complement sum.toNat := by
  have value := toNat_foldSum sum
  have small := fold_lt sum.toNat
  have full : foldSum sum = 0xffff ↔ fold sum.toNat = 65535 := by
    rw [← value]
    exact ⟨congrArg BitVec.toNat, fun same => BitVec.eq_of_toNat_eq same⟩
  rw [check, complement]
  by_cases all : fold sum.toNat = 65535
  · rw [if_pos (full.mpr all), if_pos all, full.mpr all]
    rfl
  · rw [if_neg (mt full.mp all), if_neg all, BitVec.toNat_setWidth, BitVec.toNat_not, value]
    omega

theorem slice_two (m : Buffer) (o : Nat) : slice m o 2 = [m o, m (o+1)] := rfl

theorem words_slice_succ (order : ByteOrder) (m : Buffer) (o n : Nat) :
    words order (slice m o (2 * (n+1))) =
      (load16 order m o).toNat :: words order (slice m (o+2) (2 * n)) := by
  rw [show 2 * (n+1) = 2 + 2 * n by omega, slice_add, slice_two, toNat_load16]
  rfl

theorem toNat_addWords (order : ByteOrder) (m : Buffer) (o n : Nat) {sum : BitVec 32}
    (room : sum.toNat + 65536 * n ≤ 2 ^ 32 - 1) :
    (addWords order m o n sum).toNat = sum.toNat + (words order (slice m o (2 * n))).sum := by
  induction n generalizing o sum with
  | zero => rfl
  | succ n ih =>
    have word := (load16 order m o).isLt
    have next : (sum + (load16 order m o).setWidth 32).toNat =
        sum.toNat + (load16 order m o).toNat := by
      rw [BitVec.toNat_add, BitVec.toNat_setWidth, Nat.mod_eq_of_lt (a := (load16 order m o).toNat)
        (by omega), Nat.mod_eq_of_lt (by omega)]
    rw [addWords, ih _ (by omega), next, words_slice_succ, List.sum_cons, Nat.add_assoc]

theorem sum_words_le (order : ByteOrder) (m : Buffer) (o n : Nat) :
    (words order (slice m o (2 * n))).sum ≤ 65535 * n := by
  induction n generalizing o with
  | zero => exact Nat.le_refl 0
  | succ n ih =>
    have word := (load16 order m o).isLt
    have rest := ih (o+2)
    rw [words_slice_succ, List.sum_cons]
    omega

theorem write_outside {m : Buffer} {o i : Nat} {bytes : List (BitVec 8)}
    (outside : i < o ∨ o + bytes.length ≤ i) : write m o bytes i = m i :=
  if_neg (by omega)

theorem store16_outside {m : Buffer} {o i : Nat} (x : BitVec 16) (outside : i < o ∨ o + 2 ≤ i) :
    store16 order m o x i = m i := by
  cases order <;> exact write_outside outside

theorem slice_store16_outside {m : Buffer} {o n p : Nat} (x : BitVec 16)
    (outside : o + n ≤ p ∨ p + 2 ≤ o) : slice (store16 order m p x) o n = slice m o n :=
  slice_congr fun _ _ _ => store16_outside x (by omega)

theorem sum_words_stored {m : Buffer} {o front back : Nat} (x : BitVec 16)
    (zero : slice m (o + 2 * front) 2 = [0, 0]) :
    (words order (slice (store16 order m (o + 2 * front) x) o (2 * front + (2 + 2 * back)))).sum =
      (words order (slice m o (2 * front + (2 + 2 * back)))).sum + x.toNat := by
  have even : 2 ∣ (slice m o (2 * front)).length := by
    rw [length_slice]
    exact Nat.dvd_mul_right 2 front
  have stored : words order (slice (store16 order m (o + 2 * front) x) (o + 2 * front) 2) =
      [x.toNat] := by
    have loaded := congrArg BitVec.toNat (load16_store16 order m (o + 2 * front) x)
    rw [toNat_load16] at loaded
    rw [slice_two, ← loaded]
    rfl
  have none : (words order ([0, 0] : List (BitVec 8))).sum = 0 := by
    cases order <;> rfl
  rw [slice_add, slice_add, slice_add, slice_add, slice_store16_outside x (.inl (Nat.le_refl _)),
    slice_store16_outside x (.inr (Nat.le_refl _)), words_append order even,
    words_append order even, zero]
  simp only [List.sum_append]
  rw [words_append order (by simp), words_append order (by simp), stored]
  simp only [List.sum_append, none, List.sum_singleton]
  omega

end Sums

section Headers

variable {order : ByteOrder}

variable {m : Buffer} {len i : Nat}

/-- The code's sum over the header, with its complement in the place of the checksum. -/
theorem sums_stored (o front back : Nat) {sum : BitVec 32} (extra : Nat)
    (zero : slice m (o + 2 * front) 2 = [0, 0])
    (same : sum.toNat = extra + (words order (slice m o (2 * front + (2 + 2 * back)))).sum) :
    fold (extra + (words order (slice (store16 order m (o + 2 * front) (check (foldSum sum))) o
      (2 * front + (2 + 2 * back)))).sum) = 65535 := by
  rw [sum_words_stored _ zero, toNat_check, ← Nat.add_assoc, ← same]
  exact fold_add_complement sum.toNat

theorem ipFields_sum (m : Buffer) (len : Nat) (ifip : BitVec 32) :
    slice (ipFields order m len ifip) 10 2 = [0, 0] := by
  rw [ipFields]
  cases order <;> exact slice_write_self _ _ rfl

theorem setIp_header (pkt : Packet) (ifip : BitVec 32) :
    Sums (ipHeader (setIp order pkt ifip).mem) := by
  refine Sums.of_order order ?_
  have added := toNat_addWords order (ipFields order pkt.mem pkt.pktLen ifip) 0 10
    (show (0 : BitVec 32).toNat + 65536 * 10 ≤ 2 ^ 32 - 1 by decide)
  have full := sums_stored 0 5 4 0
    (ipFields_sum pkt.mem pkt.pktLen ifip) (by simpa using added)
  rw [Nat.zero_add] at full
  exact full

theorem udpFields_sum (m : Buffer) (len : Nat) :
    slice (udpFields order m len) 26 2 = [0, 0] := by
  rw [udpFields, slice_store16_outside _ (.inr (by decide))]
  cases order <;> exact slice_write_self _ _ rfl

theorem udpFields_len (m : Buffer) (len : Nat) :
    load16 order (udpFields order m len) 24 = htons order (BitVec.ofNat 16 (udpSize + len)) :=
  load16_store16 order _ 24 _

theorem udpFields_padding (m : Buffer) (len : Nat) :
    udpFields order m len (dhcpOffset + len) = 0 := by
  have behind : 28 ≤ dhcpOffset + len := Nat.le_add_right 28 len
  rw [udpFields, store16_outside _ (.inr (by omega)), store16_outside _ (.inr (by omega))]
  simp [write]

theorem udpFields_payload (m : Buffer) (inside : i < len) :
    udpFields order m len (dhcpOffset + i) = m (dhcpOffset + i) := by
  have behind : 28 ≤ dhcpOffset + i := Nat.le_add_right 28 i
  rw [udpFields, store16_outside _ (.inr (by omega)), store16_outside _ (.inr (by omega)),
    write_outside (.inl (by omega)), write_outside (.inr (by simpa using by omega)),
    write_outside (.inr (by simpa using by omega))]

theorem udpFields_before (m : Buffer) (len : Nat) (before : i < 20) :
    udpFields order m len i = m i := by
  have behind : 28 ≤ dhcpOffset + len := Nat.le_add_right 28 len
  rw [udpFields, store16_outside _ (.inl (by omega)), store16_outside _ (.inl (by omega)),
    write_outside (.inl (by omega)), write_outside (.inl (by omega)),
    write_outside (.inl (by omega))]

theorem setUdp_mem (pkt : Packet) :
    (setUdp order pkt).mem = store16 order (udpFields order pkt.mem pkt.pktLen) 26
      (check (foldSum (udpSum order (udpFields order pkt.mem pkt.pktLen) pkt.pktLen))) := rfl

theorem setUdp_before (pkt : Packet) (before : i < 20) :
    (setUdp order pkt).mem i = pkt.mem i := by
  rw [setUdp_mem, store16_outside _ (.inl (by omega)), udpFields_before pkt.mem pkt.pktLen before]

theorem sum_pseudoHeader (protocol : m 9 = 17) :
    (words order (pseudoHeader m)).sum = (words order (slice m 12 8)).sum +
      ((htons order 17).toNat + (load16 order m 24).toNat) := by
  have udp : (words order [0, m 9]).sum = (htons order 17).toNat := by
    rw [protocol]
    cases order <;> decide
  rw [pseudoHeader, words_append order (by simp), words_append order (by simp), List.sum_append,
    List.sum_append, udp, slice_two, toNat_load16, Nat.add_assoc]
  rfl

theorem words_datagram (padding : m (dhcpOffset + len) = 0) :
    words order (slice m udpOffset (2 * ((udpSize + len + 1) / 2))) =
      words order (slice m udpOffset (udpSize + len)) := by
  by_cases odd : 2 ∣ len
  · have same : 2 * ((udpSize + len + 1) / 2) = udpSize + len := by
      unfold udpSize
      omega
    rw [same]
  · have same : 2 * ((udpSize + len + 1) / 2) = udpSize + len + 1 := by
      unfold udpSize
      omega
    have last : slice m (udpOffset + (udpSize + len)) 1 = [0] := by
      have place : udpOffset + (udpSize + len) = dhcpOffset + len := (Nat.add_assoc ..).symm
      rw [place]
      exact congrArg (fun b => [b]) padding
    rw [same, slice_add, last, words_padded order]
    rw [length_slice, udpSize]
    omega

theorem toNat_udpSum (fits : len ≤ dhcpSize) (protocol : m 9 = 17)
    (length : load16 order m 24 = htons order (BitVec.ofNat 16 (udpSize + len))) :
    (udpSum order m len).toNat = (words order (pseudoHeader m)).sum +
      (words order (slice m udpOffset (2 * ((udpSize + len + 1) / 2)))).sum := by
  have size := (htons order (BitVec.ofNat 16 (udpSize + len))).isLt
  have proto := (htons order 17).isLt
  have few : (udpSize + len + 1) / 2 ≤ 700 := by
    unfold udpSize dhcpSize at *
    omega
  have start : ((htons order (BitVec.ofNat 16 (udpSize + len))).setWidth 32 +
      (htons order 17).setWidth 32 : BitVec 32).toNat =
        (htons order (BitVec.ofNat 16 (udpSize + len))).toNat + (htons order 17).toNat := by
    rw [BitVec.toNat_add, BitVec.toNat_setWidth, BitVec.toNat_setWidth,
      Nat.mod_eq_of_lt (a := (htons order (BitVec.ofNat 16 (udpSize + len))).toNat) (by omega),
      Nat.mod_eq_of_lt (a := (htons order 17).toNat) (by omega), Nat.mod_eq_of_lt (by omega)]
  have addresses := sum_words_le order m 12 4
  have head := toNat_addWords order m 12 4 (by rw [start]; omega)
  rw [start] at head
  rw [udpSum, toNat_addWords _ _ _ _ (by rw [head]; omega), head, sum_pseudoHeader protocol, length]
  change _ + (words order (slice m 12 8)).sum + _ = _
  omega

theorem setUdp_udp (pkt : Packet) (protocol : pkt.mem 9 = 17) :
    Sums (pseudoHeader (setUdp order pkt).mem ++ datagram (setUdp order pkt)) := by
  refine Sums.of_order order ?_
  have protocol' : udpFields order pkt.mem pkt.pktLen 9 = 17 :=
    (udpFields_before pkt.mem pkt.pktLen (by decide)).trans protocol
  have behind : 28 ≤ dhcpOffset + pkt.pktLen := Nat.le_add_right 28 pkt.pktLen
  have pseudo : pseudoHeader (setUdp order pkt).mem =
      pseudoHeader (udpFields order pkt.mem pkt.pktLen) := by
    rw [pseudoHeader, setUdp_mem, slice_store16_outside _ (.inl (by decide)),
      store16_outside _ (.inl (by decide)), slice_store16_outside _ (.inl (by decide))]
    rfl
  have padding : (setUdp order pkt).mem (dhcpOffset + pkt.pktLen) = 0 := by
    rw [setUdp_mem, store16_outside _ (.inr (by omega)), udpFields_padding]
  have size : 2 * ((udpSize + pkt.pktLen + 1) / 2) = 2 * 3 + (2 + 2 * ((pkt.pktLen + 1) / 2)) := by
    unfold udpSize
    omega
  have added := toNat_udpSum pkt.fits protocol' (udpFields_len pkt.mem pkt.pktLen)
  rw [size] at added
  have full := sums_stored udpOffset 3 ((pkt.pktLen + 1) / 2) _
    (udpFields_sum pkt.mem pkt.pktLen) added
  rw [words_append order (by simp [pseudoHeader]), List.sum_append, pseudo, datagram]
  change fold (_ + (words order (slice (setUdp order pkt).mem udpOffset
    (udpSize + pkt.pktLen))).sum) = 65535
  rw [← words_datagram padding, size, setUdp_mem]
  exact full

theorem slice_check_ne_zero (m : Buffer) (o : Nat) (sum : BitVec 32) :
    slice (store16 order m o (check (foldSum sum))) o 2 ≠ [0, 0] := by
  intro zero
  have loaded := congrArg BitVec.toNat (load16_store16 order m o (check (foldSum sum)))
  rw [toNat_check, toNat_load16] at loaded
  rw [slice_two, List.cons.injEq, List.cons.injEq] at zero
  rw [zero.1, zero.2.1] at loaded
  have positive := complement_pos sum.toNat
  rw [← loaded] at positive
  cases order <;> exact absurd positive (by decide)

theorem setIp_behind (pkt : Packet) (ifip : BitVec 32) (behind : 20 ≤ i) :
    (setIp order pkt ifip).mem i = pkt.mem i := by
  have fields : ipFields order pkt.mem pkt.pktLen ifip i = pkt.mem i := by
    rw [ipFields, store16_outside _ (.inr (by omega))]
    repeat rw [write_outside (.inr (by simpa using by omega))]
  rw [← fields]
  exact store16_outside _ (.inr (by omega))

theorem setIp_protocol (pkt : Packet) (ifip : BitVec 32) : (setIp order pkt ifip).mem 9 = 17 := by
  have fields : ipFields order pkt.mem pkt.pktLen ifip 9 = 17 := by
    rw [ipFields, store16_outside _ (.inl (by omega))]
    simp [write]
  rw [← fields]
  exact store16_outside _ (.inl (by omega))

/-- For every processor, address and payload, the checksums verify and the payload is left
alone. -/
theorem raw_checksums (order : ByteOrder) (pkt : Packet) (ifip : BitVec 32) :
    Checksummed pkt (setUdp order (setIp order pkt ifip)) := by
  refine ⟨?_, setUdp_udp _ (setIp_protocol pkt ifip), slice_check_ne_zero _ _ _, rfl,
    fun i inside => ?_⟩
  · have same : ipHeader (setUdp order (setIp order pkt ifip)).mem =
        ipHeader (setIp order pkt ifip).mem :=
      slice_congr fun i _ inside => setUdp_before _ (by simpa [ipSize] using inside)
    rw [same]
    exact setIp_header pkt ifip
  · have behind : 28 ≤ dhcpOffset + i := Nat.le_add_right 28 i
    have filled : udpFields order (setIp order pkt ifip).mem pkt.pktLen (dhcpOffset + i) =
        (setIp order pkt ifip).mem (dhcpOffset + i) := udpFields_payload _ inside
    rw [setUdp_mem, store16_outside _ (.inr (by omega))]
    exact filled.trans (setIp_behind pkt ifip (by omega))

end Headers

end RawPacket
