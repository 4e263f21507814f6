import Mathlib.Tactic.Common

/-!
# Link state advertisements in memory

An advertisement is a block of bytes: a header of 20 bytes and a body whose shape
depends on the type. Received advertisements are read through a pointer into the
packet buffer, and reading past the packet yields whatever the buffer holds.
Stored ones are blocks of their own, and a read outside the block is `none`.
Fields are kept in network order, which is the order of the bytes.
-/

namespace LsaFormat

/-- Memory from a pointer on. -/
abbrev Memory := Nat → BitVec 8

def Memory.offset (m : Memory) (p : Nat) : Memory := fun i => m (p+i)

def Memory.get16 (m : Memory) (o : Nat) : BitVec 16 := m o ++ m (o+1)

def Memory.get32 (m : Memory) (o : Nat) : BitVec 32 := m.get16 o ++ m.get16 (o+2)

/-- The first `n` bytes. -/
def Memory.bytes (m : Memory) (n : Nat) : List (BitVec 8) := (List.range n).map m

/-- `OspfLsaHeader`. -/
structure LsaHeader where
  age : BitVec 16
  options : BitVec 8
  type : BitVec 8
  linkStateId : BitVec 32
  advRouter : BitVec 32
  seq : BitVec 32
  checksum : BitVec 16
  length : BitVec 16
  deriving DecidableEq, Repr

/-- The header that starts at a pointer. -/
def lsaHeader (m : Memory) : LsaHeader where
  age := m.get16 0
  options := m 2
  type := m 3
  linkStateId := m.get32 4
  advRouter := m.get32 8
  seq := m.get32 12
  checksum := m.get16 16
  length := m.get16 18

/-- What names an advertisement, whatever its instance. -/
structure LsaKey where
  type : BitVec 8
  linkStateId : BitVec 32
  advRouter : BitVec 32
  deriving DecidableEq, Repr

def LsaHeader.key (h : LsaHeader) : LsaKey := ⟨h.type, h.linkStateId, h.advRouter⟩

def sizeofHeader : Nat := 20

def maxAge : BitVec 16 := 3600

/-- A stored advertisement: its block of bytes and what `struct lsa_h_t` keeps of
it for flooding. The costs of `lsa_add_cost` are a function of the block. -/
structure OspfLsa where
  bytes : List (BitVec 8)
  selfOriginated : Bool
  flood : Nat
  oldCnt : Nat
  oldSelfOriginatedSeq : BitVec 32
  netIp : BitVec 32
  deriving DecidableEq, Repr

namespace OspfLsa

/-- The bytes outside the block are unspecified; zero stands for them. -/
def memory (l : OspfLsa) : Memory := fun i => l.bytes.getD i 0

def header (l : OspfLsa) : LsaHeader := lsaHeader l.memory

def key (l : OspfLsa) : LsaKey := l.header.key

/-- `lsa->header.age = htons(age)`. -/
def setAge (l : OspfLsa) (age : BitVec 16) : OspfLsa :=
  { l with bytes := (l.bytes.set 0 (age.extractLsb' 8 8)).set 1 (age.extractLsb' 0 8) }

end OspfLsa

/-- As many bytes are copied as the header announces. -/
def duplicateLsa (lsah : Memory) : OspfLsa where
  bytes := lsah.bytes (lsaHeader lsah).length.toNat
  selfOriginated := false
  flood := 0
  oldCnt := 0
  oldSelfOriginatedSeq := 0
  netIp := 0

/-- The accumulation loop of `fletcher16`; the sums are reduced after every block
of 4102 bytes, of which `room` are left, and at the end. -/
def fletcherLoop : List (BitVec 8) → Nat → Nat → Nat → Nat × Nat
  | [], _, c0, c1 => (c0 % 255, c1 % 255)
  | b :: rest, 0, c0, c1 =>
    fletcherLoop rest 4101 (c0 % 255 + b.toNat) (c1 % 255 + (c0 % 255 + b.toNat))
  | b :: rest, room+1, c0, c1 =>
    fletcherLoop rest room (c0 + b.toNat) (c1 + (c0 + b.toNat))

/-- The checksum of `mlen` bytes, as verification computes it (`coffset` is 0); no
byte is read when the length is not positive. -/
def fletcher16 (msg : Memory) (mlen : Int) : BitVec 16 :=
  let c := fletcherLoop (msg.bytes mlen.toNat) 4102 0 0
  BitVec.ofNat 16 ((c.2 <<< 8) + c.1)

def read8 (bytes : List (BitVec 8)) (o : Nat) : Option (BitVec 8) := bytes[o]?

def read16 (bytes : List (BitVec 8)) (o : Nat) : Option (BitVec 16) := do
  let hi ← read8 bytes o
  let lo ← read8 bytes (o+1)
  return hi ++ lo

def read32 (bytes : List (BitVec 8)) (o : Nat) : Option (BitVec 32) := do
  let hi ← read16 bytes o
  let lo ← read16 bytes (o+2)
  return hi ++ lo

structure LsaCost where
  id : BitVec 32
  mask : BitVec 32
  type : BitVec 8
  extType : Nat
  cost : BitVec 32
  tag : BitVec 32
  deriving DecidableEq, Repr

/-- The zeroed memory of a cost element. -/
def LsaCost.zero : LsaCost := ⟨0, 0, 0, 0, 0, 0⟩

/-- `RtrLsaLink`. -/
structure RtrLsaLink where
  linkId : BitVec 32
  linkData : BitVec 32
  type : BitVec 8
  tos : BitVec 8
  metric : BitVec 16
  deriving DecidableEq, Repr

def rtrLink (bytes : List (BitVec 8)) (i : Nat) : Option RtrLsaLink := do
  let linkId ← read32 bytes (24 + 12*i)
  let linkData ← read32 bytes (28 + 12*i)
  let type ← read8 bytes (32 + 12*i)
  let tos ← read8 bytes (33 + 12*i)
  let metric ← read16 bytes (34 + 12*i)
  return ⟨linkId, linkData, type, tos, metric⟩

/-- The links of a router LSA, as `lsa_add_cost`, `spf_stubs` and `update_route`
walk them. -/
def rtrLinks (bytes : List (BitVec 8)) : Option (List RtrLsaLink) := do
  let links ← read16 bytes 22
  (List.range links.toNat).mapM (rtrLink bytes)

/-- The mask of a network LSA, read by `update_route`. -/
def netMask (bytes : List (BitVec 8)) : Option (BitVec 32) := read32 bytes 20

/-- The number of neighbors of a network LSA, with the 16-bit subtraction of the
source. -/
def netCount (length : BitVec 16) : Nat := (length - 20 - 4).toNat / 4

def lsaAddCost (bytes : List (BitVec 8)) : Option (List LsaCost) := do
  let type ← read8 bytes 3
  if type = 2 then
    let length ← read16 bytes 18
    (List.range (netCount length)).mapM fun i => do
      let id ← read32 bytes (24 + 4*i)
      return { LsaCost.zero with id := id, type := 1 }
  else if type = 1 then
    let links ← rtrLinks bytes
    return links.map fun lnk =>
      { LsaCost.zero with id := lnk.linkId, cost := lnk.metric.setWidth 32, type := 2 }
  else if type = 5 then
    let fwAddress ← read32 bytes 28
    let mask ← read32 bytes 20
    let typeMetric ← read32 bytes 24
    let tag ← read32 bytes 32
    let extType := if typeMetric &&& 0x80000000 ≠ 0 then 2 else 1
    return [⟨fwAddress, mask, 5, extType, typeMetric &&& 0x00ffffff, tag⟩]
  else if type = 3 ∨ type = 4 then
    let metric ← read32 bytes 24
    let mask ← read32 bytes 20
    return [{ LsaCost.zero with cost := metric &&& 0x00ffffff, mask := mask }]
  else return []

/-- `lsaListFind`: at most one entry of a list carries a key. -/
def lsaListFind (list : List OspfLsa) (key : LsaKey) : Option OspfLsa :=
  list.find? (fun l => l.key = key)

def lsaListAdd (list : List OspfLsa) (lsa : OspfLsa) : List OspfLsa := lsa :: list

/-- The entry that `lsaListFind` returns is unlinked. -/
def lsaListRemove (list : List OspfLsa) (key : LsaKey) : List OspfLsa :=
  list.eraseP (fun l => l.key = key)

/-- The entry that `lsaListFind` returns is changed in place. -/
def lsaListUpdate (list : List OspfLsa) (key : LsaKey) (f : OspfLsa → OspfLsa) : List OspfLsa :=
  match list with
  | [] => []
  | l :: rest => if l.key = key then f l :: rest else l :: lsaListUpdate rest key f

theorem append_extract32 (x : BitVec 32) :
    (x.extractLsb' 24 8 ++ x.extractLsb' 16 8) ++ (x.extractLsb' 8 8 ++ x.extractLsb' 0 8) = x := by
  ext i hi
  simp only [BitVec.getElem_append, BitVec.getElem_extractLsb']
  split_ifs
  all_goals
    rw [BitVec.getLsbD_eq_getElem (by omega)]
    congr 1
    omega

variable {α β : Type} {f : α → Option β} {l : List α}

theorem exists_mapM
    (all : ∀ a ∈ l, ∃ b, f a = some b) : ∃ bs, l.mapM f = some bs ∧ bs.length = l.length := by
  induction l with
  | nil => exact ⟨[], rfl, rfl⟩
  | cons a l ih =>
    obtain ⟨b, hb⟩ := all a List.mem_cons_self
    obtain ⟨bs, hbs, hlen⟩ := ih (fun a ha => all a (List.mem_cons_of_mem _ ha))
    refine ⟨b :: bs, ?_, by rw [List.length_cons, List.length_cons, hlen]⟩
    simp [List.mapM_cons, hb, hbs]

theorem mem_mapM {bs : List β}
    (mapped : l.mapM f = some bs) {b : β} : b ∈ bs ↔ ∃ a ∈ l, f a = some b := by
  induction l generalizing bs with
  | nil =>
    cases mapped
    simp
  | cons a l ih =>
    simp only [List.mapM_cons, Option.bind_eq_bind, Option.bind_eq_some_iff, Option.pure_def,
      Option.some.injEq] at mapped
    obtain ⟨first, hfirst, rest, hrest, rfl⟩ := mapped
    simp only [List.mem_cons, ih hrest, exists_eq_or_imp, hfirst, Option.some.injEq]
    rw [eq_comm]

theorem exists_mem_of_mapM {bs : List β}
    (mapped : l.mapM f = some bs) {a : α} (ha : a ∈ l) : ∃ b ∈ bs, f a = some b := by
  induction l generalizing bs with
  | nil => cases ha
  | cons x l ih =>
    simp only [List.mapM_cons, Option.bind_eq_bind, Option.bind_eq_some_iff, Option.pure_def,
      Option.some.injEq] at mapped
    obtain ⟨first, hfirst, rest, hrest, rfl⟩ := mapped
    rcases List.mem_cons.mp ha with rfl | later
    · exact ⟨first, List.mem_cons_self, hfirst⟩
    · obtain ⟨b, hb, hf⟩ := ih hrest later
      exact ⟨b, List.mem_cons_of_mem _ hb, hf⟩

theorem Memory.length_bytes (m : Memory) (n : Nat) : (m.bytes n).length = n := by
  simp [Memory.bytes]

theorem Memory.getD_bytes (m : Memory) {n i : Nat} (inside : i < n) :
    (m.bytes n).getD i 0 = m i := by
  simp [Memory.bytes, inside]

theorem lsaHeader_congr {m m' : Memory} (same : ∀ i < sizeofHeader, m i = m' i) :
    lsaHeader m = lsaHeader m' := by
  simp only [sizeofHeader] at same
  simp [lsaHeader, Memory.get32, Memory.get16, same]

theorem header_duplicateLsa {lsah : Memory}
    (sized : sizeofHeader ≤ (lsaHeader lsah).length.toNat) :
    (duplicateLsa lsah).header = lsaHeader lsah := by
  refine lsaHeader_congr ?_
  intro i hi
  exact Memory.getD_bytes lsah (Nat.lt_of_lt_of_le hi sized)

namespace OspfLsa

theorem header_congr {l l' : OspfLsa} (same : l.bytes = l'.bytes) : l.header = l'.header := by
  unfold header memory
  rw [same]

theorem memory_setAge (l : OspfLsa) (age : BitVec 16) {i : Nat} (hi : 2 ≤ i) :
    (l.setAge age).memory i = l.memory i := by
  have h0 : 0 ≠ i := by omega
  have h1 : 1 ≠ i := by omega
  simp [memory, setAge, List.getD_eq_getElem?_getD, List.getElem?_set_ne h0,
    List.getElem?_set_ne h1]

theorem key_setAge (l : OspfLsa) (age : BitVec 16) : (l.setAge age).key = l.key := by
  simp [key, header, lsaHeader, LsaHeader.key, Memory.get32, Memory.get16, memory_setAge]

theorem seq_setAge (l : OspfLsa) (age : BitVec 16) :
    (l.setAge age).header.seq = l.header.seq := by
  simp [header, lsaHeader, Memory.get32, Memory.get16, memory_setAge]

theorem age_setAge {l : OspfLsa} (age : BitVec 16) (room : 2 ≤ l.bytes.length) :
    (l.setAge age).header.age = age := by
  have first : 0 < l.bytes.length := by omega
  have second : 1 < l.bytes.length := by omega
  have hi : (l.setAge age).memory 0 = age.extractLsb' 8 8 := by
    simp [memory, setAge, List.getD_eq_getElem?_getD, first]
  have lo : (l.setAge age).memory 1 = age.extractLsb' 0 8 := by
    simp [memory, setAge, List.getD_eq_getElem?_getD, second]
  change (l.setAge age).memory 0 ++ (l.setAge age).memory 1 = age
  rw [hi, lo]
  apply BitVec.eq_of_getLsbD_eq
  intro i hi
  rw [BitVec.getLsbD_append]
  by_cases low : i < 8
  · simp [low]
  · have high : i - 8 < 8 := by omega
    have back : 8 + (i - 8) = i := by omega
    simp [low, high, back]

theorem set_getD_self (bytes : List (BitVec 8)) (i : Nat) :
    bytes.set i (bytes.getD i 0) = bytes := by
  by_cases inside : i < bytes.length
  · rw [← List.getElem_eq_getD (h := inside) 0, List.set_getElem_self]
  · exact List.set_eq_of_length_le (Nat.le_of_not_lt inside)

theorem setAge_self (l : OspfLsa) : l.setAge l.header.age = l := by
  have hi : l.header.age.extractLsb' 8 8 = l.bytes.getD 0 0 :=
    BitVec.extractLsb'_append_eq_left
  have lo : l.header.age.extractLsb' 0 8 = l.bytes.getD 1 0 :=
    BitVec.extractLsb'_append_eq_right
  rw [setAge, hi, lo, set_getD_self, set_getD_self]

end OspfLsa

theorem lsaListFind_cons (l : OspfLsa) (list : List OspfLsa) (key : LsaKey) :
    lsaListFind (l :: list) key = if l.key = key then some l else lsaListFind list key := by
  by_cases h : l.key = key
  · simp [lsaListFind, h]
  · simp [lsaListFind, h]

theorem lsaListFind_key {list : List OspfLsa} {key : LsaKey} {l : OspfLsa}
    (found : lsaListFind list key = some l) : l.key = key := by
  simpa using List.find?_some found

theorem lsaListFind_update (f : OspfLsa → OspfLsa) {list : List OspfLsa} {key : LsaKey}
    {l : OspfLsa} (found : lsaListFind list key = some l) (keyed : (f l).key = key)
    (k : LsaKey) :
    lsaListFind (lsaListUpdate list key f) k =
      if k = key then some (f l) else lsaListFind list k := by
  induction list with
  | nil => cases found
  | cons x rest ih =>
    rw [lsaListFind_cons] at found
    by_cases here : x.key = key
    · rw [if_pos here] at found
      cases found
      rw [lsaListUpdate, if_pos here, lsaListFind_cons, lsaListFind_cons, keyed, here]
      by_cases hk : k = key
      · rw [if_pos hk.symm, if_pos hk]
      · rw [if_neg (Ne.symm hk), if_neg hk, if_neg (Ne.symm hk)]
    · rw [if_neg here] at found
      rw [lsaListUpdate, if_neg here, lsaListFind_cons, lsaListFind_cons, ih found]
      by_cases hx : x.key = k
      · have hk : k ≠ key := hx ▸ here
        rw [if_pos hx, if_neg hk, if_pos hx]
      · rw [if_neg hx, if_neg hx]

theorem lt_iff_toInt_lt {a b : BitVec 32} (half : a.msb = b.msb) :
    a < b ↔ a.toInt < b.toInt := by
  rw [BitVec.lt_def, BitVec.toInt_eq_msb_cond, BitVec.toInt_eq_msb_cond, half]
  cases b.msb
  · simp
  · simp only [if_true]
    omega

end LsaFormat
