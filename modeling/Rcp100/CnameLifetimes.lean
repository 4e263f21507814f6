import Rcp100.DnsMessages

/-!
# The lifetime of a CNAME answer

The time that an answer with CNAME records is cached for is the smallest of its records, as
far as they are read: a record of another type is not skipped, a class other than IN ends the
loop, and a time is narrowed to 16 bits.
-/

namespace CnameLifetimes

open DnsPacket

/-- A record of an answer section. -/
structure Rec where
  type : BitVec 16
  dclass : BitVec 16
  ttl : BitVec 32
  data : List Byte

section Smallest

variable {A : Type} (f : A → Nat)

/-- The smallest of a number and the values of a list. -/
def smallest (l : List A) (n : Nat) : Nat := l.foldl (fun m a => min m (f a)) n

theorem smallest_cons (a : A) (l : List A) (n : Nat) :
    smallest f (a :: l) n = smallest f l (min n (f a)) := rfl

theorem smallest_le (l : List A) (n : Nat) : smallest f l n ≤ n := by
  induction l generalizing n with
  | nil => exact Nat.le_refl n
  | cons a l ih => exact Nat.le_trans (ih _) (Nat.min_le_left n (f a))

theorem smallest_le_of_mem {l : List A} {a : A} (member : a ∈ l) (n : Nat) :
    smallest f l n ≤ f a := by
  induction l generalizing n with
  | nil => exact absurd member List.not_mem_nil
  | cons b l ih =>
    rcases List.mem_cons.mp member with rfl | later
    · exact Nat.le_trans (smallest_le f l _) (Nat.min_le_right n (f a))
    · exact ih later _

theorem smallest_eq (l : List A) (n : Nat) :
    smallest f l n = n ∨ ∃ a ∈ l, smallest f l n = f a := by
  induction l generalizing n with
  | nil => exact .inl rfl
  | cons a l ih =>
    rw [smallest_cons]
    rcases ih (min n (f a)) with same | ⟨b, member, same⟩
    · rw [same]
      by_cases less : n ≤ f a
      · exact .inl (Nat.min_eq_left less)
      · exact .inr ⟨a, List.mem_cons_self, Nat.min_eq_right (by omega)⟩
    · exact .inr ⟨b, List.mem_cons_of_mem a member, same⟩

end Smallest

/-- Where a record is: its name is a pointer. -/
structure RecordAt (buf : Buffer) (ptr : Nat) (r : Rec) : Prop where
  pointer : buf ptr &&& 0xc0 = 0xc0
  type : read16 buf (ptr + 2) = r.type
  dclass : read16 buf (ptr + 4) = r.dclass
  ttl : read32 buf (ptr + 6) = r.ttl
  size : (read16 buf (ptr + 10)).toNat = r.data.length
  data : bytes buf (ptr + 12) r.data.length = r.data
  address : r.type = 1 → r.data.length = 4
  addressV6 : r.type = 28 → r.data.length = 16

def AnswersAt (buf : Buffer) : Nat → List Rec → Nat → Prop
  | ptr, [], stop => ptr = stop
  | ptr, r :: rest, stop =>
    RecordAt buf ptr r ∧ AnswersAt buf (ptr + 12 + r.data.length) rest stop

/-- `sizeof(DnsPkt)`, which is what `recvfrom` stores at most. -/
def pktSize : Nat := 1604

/-- A message that is accepted, with these records and a CNAME as the first one. -/
structure CnameResponse (buf : Buffer) (len : Nat) (records : List Rec) : Prop where
  received : len ≤ pktSize
  accepted : ∀ old, (dnspktVerify buf len old).1 = false
  cname : ∃ r rest, records = r :: rest ∧ r.type = 5
  count : (read16 buf 6).toNat = records.length
  answers : ∃ stop, AnswersAt buf (12 + getNameLen buf 12 len + 4) records stop ∧ stop ≤ len

/-- The smallest of `DNS_MAX_TTL` and the times of all records. -/
def lifetime (records : List Rec) : Nat := smallest (fun r => r.ttl.toNat) records 900

/-- The records whose times are read: no more behind one of another type, and none from one
of another class on. -/
def readRecords : List Rec → List Rec
  | [] => []
  | r :: rest =>
    if r.dclass ≠ 1 then []
    else if r.type = 1 ∨ r.type = 28 ∨ r.type = 5 then r :: readRecords rest
    else [r]

/-- A time as the loop reads it. -/
def low (r : Rec) : Nat := r.ttl.toNat % 65536

section Reading

variable {buf : Buffer} {len ptr stop : Nat} {records : List Rec}

theorem AnswersAt.le (answers : AnswersAt buf ptr records stop) : ptr ≤ stop := by
  induction records generalizing ptr with
  | nil => exact Nat.le_of_eq answers
  | cons r rest ih =>
    have later := ih answers.2
    omega

theorem not_pointer (small : (read16 buf ptr).toNat < 0xc000) : ¬ buf ptr &&& 0xc0 = 0xc0 := by
  have high : (buf ptr).toNat < 0xc0 := by
    have next := (buf (ptr + 1)).isLt
    rw [read16, BitVec.toNat_append, ← Nat.shiftLeft_add_eq_or_of_lt next,
      Nat.shiftLeft_eq] at small
    omega
  generalize buf ptr = b at high
  revert b
  decide

theorem toNat_narrowed (ttl : BitVec 32) (r : Rec) :
    let ttlTmp := (r.ttl.setWidth 16).setWidth 32
    (if ttlTmp < ttl then ttlTmp else ttl : BitVec 32).toNat = min ttl.toNat (low r) := by
  intro ttlTmp
  have value : ttlTmp.toNat = low r := by
    rw [BitVec.toNat_setWidth, BitVec.toNat_setWidth, low]
    omega
  by_cases less : ttlTmp < ttl
  · rw [if_pos less, value]
    have less' : ttlTmp.toNat < ttl.toNat := less
    omega
  · rw [if_neg less]
    have less' : ¬ ttlTmp.toNat < ttl.toNat := less
    omega

theorem toNat_cnameRecords (answers : AnswersAt buf ptr records stop) (inside : stop ≤ len)
    (received : len ≤ pktSize) (ttl : BitVec 32) :
    (cnameRecords buf len records.length ptr ttl).2.toNat =
      smallest low (readRecords records) ttl.toNat := by
  induction records generalizing ptr ttl with
  | nil => rfl
  | cons r rest ih =>
    obtain ⟨here, later⟩ := answers
    have behind := AnswersAt.le later
    have narrowed := toNat_narrowed ttl r
    have goOn := fun ttl => ih later ttl
    rw [List.length_cons, cnameRecords, if_neg (not_not.mpr here.pointer), here.dclass,
      readRecords]
    by_cases dclass : r.dclass = 1
    swap
    · rw [if_pos dclass, if_pos dclass]
      rfl
    rw [if_neg (not_not.mpr dclass), if_neg (not_not.mpr dclass), here.type, here.ttl]
    dsimp only at narrowed ⊢
    generalize (if (r.ttl.setWidth 16).setWidth 32 < ttl then (r.ttl.setWidth 16).setWidth 32
      else ttl : BitVec 32) = ttl' at narrowed
    rw [if_neg (by omega)]
    by_cases ipv4 : r.type = 1
    · have four := here.address ipv4
      have size : read16 buf (ptr + 10) = 4 := by
        refine BitVec.eq_of_toNat_eq ?_
        rw [here.size, four]
        rfl
      rw [if_pos ipv4, if_neg (not_not.mpr size), if_neg (by omega), if_pos (.inl ipv4),
        smallest_cons, ← narrowed, ← goOn, four]
    rw [if_neg ipv4]
    by_cases ipv6 : r.type = 28
    · have sixteen := here.addressV6 ipv6
      have size : read16 buf (ptr + 10) = 16 := by
        refine BitVec.eq_of_toNat_eq ?_
        rw [here.size, sixteen]
        rfl
      rw [if_pos ipv6, if_neg (not_not.mpr size), if_neg (by omega), if_pos (.inr (.inl ipv6)),
        smallest_cons, ← narrowed, ← goOn, sixteen]
    rw [if_neg ipv6]
    by_cases cname : r.type = 5
    · rw [if_pos cname, here.size, if_neg (by omega), if_pos (.inr (.inr cname)), smallest_cons,
        ← narrowed, ← goOn]
    -- the next round reads the length of the data as a pointer
    have size := here.size
    have stopped := @not_pointer buf (ptr + 10) (by unfold pktSize at received; omega)
    have last : (cnameRecords buf len rest.length (ptr + 10) ttl').2 = ttl' := by
      cases rest with
      | nil => rfl
      | cons next rest => rw [List.length_cons, cnameRecords, if_pos stopped]
    rw [if_neg cname, if_neg (by tauto), last, narrowed]
    rfl

theorem toNat_parseCnames (count : (read16 buf 6).toNat = records.length)
    (answers : AnswersAt buf (12 + getNameLen buf 12 len + 4) records stop) (inside : stop ≤ len)
    (received : len ≤ pktSize) (ttl : BitVec 32) :
    (parseCnames buf len (read16 buf 6).toNat ttl).2.toNat =
      smallest low (readRecords records) 900 := by
  have before := AnswersAt.le answers
  rw [parseCnames, if_neg (by omega)]
  dsimp only
  rw [if_neg (by omega), count, toNat_cnameRecords answers inside received]
  rfl

end Reading

section Lifetimes

variable {buf : Buffer} {len : Nat} {records : List Rec}

/-- The smallest time, if it is below `DNS_MAX_TTL`, is one that is read, modulo `2^16`; and none
that is read is smaller. -/
structure SmallestRead (records : List Rec) : Prop where
  read : lifetime records = 900 ∨ ∃ r ∈ readRecords records, low r = lifetime records
  least : ∀ r ∈ readRecords records, lifetime records ≤ low r

theorem smallest_eq_iff {A : Type} (f : A → Nat) (l : List A) {n k : Nat} (most : k ≤ n) :
    smallest f l n = k ↔ (k = n ∨ ∃ a ∈ l, f a = k) ∧ ∀ a ∈ l, k ≤ f a := by
  constructor
  · rintro rfl
    refine ⟨?_, fun a member => smallest_le_of_mem f member n⟩
    rcases smallest_eq f l n with same | ⟨a, member, same⟩
    · exact .inl same
    · exact .inr ⟨a, member, same.symm⟩
  · rintro ⟨reached, least⟩
    refine Nat.le_antisymm ?_ ?_
    · rcases reached with rfl | ⟨a, member, rfl⟩
      · exact smallest_le f l _
      · exact smallest_le_of_mem f member n
    · rcases smallest_eq f l n with same | ⟨a, member, same⟩
      · exact same.symm ▸ most
      · exact same.symm ▸ least a member

end Lifetimes

section Demo

/-- A response for the name `a` with one CNAME record, whose lifetime has these words. -/
def demoResponse (high low : BitVec 16) : Buffer := fun i =>
  [0, 7, 0x81, 0x80, 0, 1, 0, 1, 0, 0, 0, 0, 1, 0x61, 0, 0, 1, 0, 1,
    0xc0, 0x0c, 0, 5, 0, 1, high.extractLsb' 8 8, high.extractLsb' 0 8, low.extractLsb' 8 8,
    low.extractLsb' 0 8, 0, 2, 0xc0, 0x0c].getD i 0

def demoRecord (ttl : BitVec 32) : Rec :=
  { type := 5, dclass := 1, ttl := ttl, data := [0xc0, 0x0c] }

theorem demoResponse_cname : CnameResponse (demoResponse 1 0) 33 [demoRecord 65536] where
  received := by decide
  accepted := fun _ => rfl
  cname := ⟨_, [], rfl, rfl⟩
  count := by decide
  answers := by
    have name : getNameLen (demoResponse 1 0) 12 33 = 3 := by decide +kernel
    rw [name]
    exact ⟨33, ⟨by constructor <;> decide, rfl⟩, Nat.le_refl _⟩

/-- A CNAME record of two minutes, and behind it the address with one minute. -/
def demoChain : Buffer := fun i =>
  [0, 7, 0x81, 0x80, 0, 1, 0, 2, 0, 0, 0, 0, 1, 0x61, 0, 0, 1, 0, 1,
    0xc0, 0x0c, 0, 5, 0, 1, 0, 0, 0, 120, 0, 2, 0xc0, 0x0c,
    0xc0, 0x0c, 0, 1, 0, 1, 0, 0, 0, 60, 0, 4, 10, 0, 0, 1].getD i 0

def demoRecords : List Rec :=
  [demoRecord 120, { type := 1, dclass := 1, ttl := 60, data := [10, 0, 0, 1] }]

theorem demoChain_cname : CnameResponse demoChain 49 demoRecords where
  received := by decide
  accepted := fun _ => rfl
  cname := ⟨_, _, rfl, rfl⟩
  count := by decide
  answers := by
    have name : getNameLen demoChain 12 49 = 3 := by decide +kernel
    rw [name]
    exact ⟨49, ⟨by constructor <;> decide, by constructor <;> decide, rfl⟩, Nat.le_refl _⟩

end Demo

end CnameLifetimes
