import Mathlib.Data.List.Basic
import Mathlib.Tactic.Common

/-!
# The packets of the DNS proxy

A packet is a buffer of bytes with a length; what follows the received bytes is what was in
the memory before. The fields that are extracted from it are behind the buffer, and some of
them keep the values that were in the memory.
-/

namespace DnsPacket

abbrev Byte := BitVec 8

/-- The memory from the start of the packet on. -/
abbrev Buffer := Nat → Byte

/-- `CLI_MAX_DOMAIN_NAME` -/
def maxDomainName : Nat := 63

/-- `DNS_MAX_TTL`, in seconds. -/
def maxTtl : BitVec 32 := 900

/-- The data that `dnspkt_verify` extracts. -/
structure Fields where
  len : Nat
  pktType : Byte
  errorCode : Byte
  flags : BitVec 16
  /-- the bytes that were written, the terminating one included -/
  queryName : List Byte
  queryType : Byte
  type : BitVec 16
  dclass : BitVec 16
  ttl : BitVec 32
  address : BitVec 32
  addressV6 : List Byte
deriving DecidableEq

def read16 (buf : Buffer) (ptr : Nat) : BitVec 16 := buf ptr ++ buf (ptr + 1)

def read32 (buf : Buffer) (ptr : Nat) : BitVec 32 := read16 buf ptr ++ read16 buf (ptr + 2)

/-- The bytes that `memcpy` reads. -/
def bytes (buf : Buffer) (ptr n : Nat) : List Byte := (List.range n).map fun i => buf (ptr + i)

/-- The loop of `get_name_len`; `steps` bounds its rounds. -/
def nameWalk (buf : Buffer) (len : Nat) : Nat → Nat → Nat → Nat
  | 0, _, _ => 0
  | steps+1, ptr, rv =>
    if buf ptr = 0 then
      if maxDomainName < rv + 1 then 0 else rv + 1
    else if buf ptr &&& 0xc0 ≠ 0 then 0
    else if len < ptr + (buf ptr).toNat + 1 then 0
    else nameWalk buf len steps (ptr + (buf ptr).toNat + 1) (rv + (buf ptr).toNat + 1)

/-- The length of the name with its last byte, or zero. -/
def getNameLen (buf : Buffer) (ptr len : Nat) : Nat := nameWalk buf len (len + 1) ptr 0

/-- The loop of `parse_cnames` over the records: whether it fails, and the shortest time. -/
def cnameRecords (buf : Buffer) (len : Nat) : Nat → Nat → BitVec 32 → Bool × BitVec 32
  | 0, _, ttl => (false, ttl)
  | acount+1, ptr, ttl =>
    if buf ptr &&& 0xc0 ≠ 0xc0 then (false, ttl)
    else if read16 buf (ptr + 4) ≠ 1 then (false, ttl)
    else
      let type := read16 buf (ptr + 2)
      let ttlTmp := ((read32 buf (ptr + 6)).setWidth 16).setWidth 32
      let ttl := if ttlTmp < ttl then ttlTmp else ttl
      let size := read16 buf (ptr + 10)
      if len < ptr + 10 then (true, ttl)
      else if type = 1 then
        if size ≠ 4 then (true, ttl)
        else if len < ptr + 16 then (true, ttl)
        else cnameRecords buf len acount (ptr + 16) ttl
      else if type = 28 then
        if size ≠ 16 then (true, ttl)
        else if len < ptr + 28 then (true, ttl)
        else cnameRecords buf len acount (ptr + 28) ttl
      else if type = 5 then
        if len < ptr + 12 + size.toNat then (true, ttl)
        else cnameRecords buf len acount (ptr + 12 + size.toNat) ttl
      else cnameRecords buf len acount (ptr + 10) ttl

/-- `ttl` is what the field holds before. -/
def parseCnames (buf : Buffer) (len acount : Nat) (ttl : BitVec 32) : Bool × BitVec 32 :=
  if len ≤ 12 then (true, ttl)
  else
    let ptr := 12 + getNameLen buf 12 len + 4
    if len < ptr then (true, maxTtl) else cnameRecords buf len acount ptr maxTtl

section Verify

variable (buf : Buffer) (len : Nat)

/-- `chk_pkt_len`: whether the position is behind the packet. -/
def chkPktLen (ptr : Nat) : Bool := len < ptr

/-- An answer of type A, from its time to live on. -/
def readA (ptr : Nat) (f : Fields) : Bool × Fields :=
  let f := { f with ttl := read32 buf ptr }
  if read16 buf (ptr + 4) ≠ 4 then (chkPktLen len (ptr + 6), f)
  else (chkPktLen len (ptr + 10), { f with address := read32 buf (ptr + 6) })

/-- An answer of type AAAA. -/
def readAaaa (ptr : Nat) (f : Fields) : Bool × Fields :=
  let f := { f with ttl := read32 buf ptr }
  if read16 buf (ptr + 4) ≠ 16 then (chkPktLen len (ptr + 6), f)
  else (chkPktLen len (ptr + 22), { f with addressV6 := bytes buf (ptr + 6) 16 })

/-- The first answer, which starts with a pointer to the name in the question. -/
def readAnswer (acount ptr : Nat) (f : Fields) : Bool × Fields :=
  if ¬ (buf ptr = 0xc0 ∧ buf (ptr + 1) = 0x0c) then (chkPktLen len ptr, f)
  else
    let f := { f with type := read16 buf (ptr + 2), dclass := read16 buf (ptr + 4) }
    if f.dclass ≠ 1 then (chkPktLen len (ptr + 6), f)
    else if f.type = 5 then
      let (failed, ttl) := parseCnames buf len acount f.ttl
      (failed || chkPktLen len (ptr + 6), { f with ttl := ttl })
    else if f.type = 1 then readA buf len (ptr + 6) f
    else if f.type = 28 then readAaaa buf len (ptr + 6) f
    else (chkPktLen len (ptr + 6), f)

/-- The question and the first answer. -/
def readBody (f : Fields) : Bool × Fields :=
  if read16 buf 4 ≠ 1 then (chkPktLen len 12, f)
  else
    let nameLen := getNameLen buf 12 len
    if nameLen = 0 then (chkPktLen len 12, f)
    else
      let f := { f with
        queryName := bytes buf 12 nameLen
        queryType := (read16 buf (12 + nameLen)).setWidth 8 }
      let acount := (read16 buf 6).toNat
      if acount = 0 then (chkPktLen len (12 + nameLen + 4), f)
      else readAnswer buf len acount (12 + nameLen + 4) f

/-- The fields that are reset; the others are left as they are. -/
def resetFields (old : Fields) : Fields :=
  { old with
    len := len
    errorCode := 0
    pktType := 0
    queryName := [0]
    type := 0
    dclass := 0
    ttl := 0
    address := 0 }

/-- Whether the packet is bad, and the fields. -/
def dnspktVerify (old : Fields) : Bool × Fields :=
  let f := resetFields len old
  if len < 12 then (true, f)
  else
    let flags := read16 buf 2
    readBody buf len { f with
      pktType := if flags &&& 0x8000 ≠ 0 then 1 else 0
      errorCode := (flags &&& 0x000f).setWidth 8
      flags := flags }

end Verify

section Names

/-- A label of a name. -/
abbrev Label := List Byte

/-- The bytes of a name in a packet. -/
def wire : List Label → List Byte
  | [] => [0]
  | label :: rest => BitVec.ofNat 8 label.length :: label ++ wire rest

/-- Labels have between 1 and 63 bytes. -/
def WellFormed (labels : List Label) : Prop :=
  ∀ label ∈ labels, 0 < label.length ∧ label.length < 64

variable {label : Label} {labels : List Label} {ptr : Nat}

theorem WellFormed.head
    (wellFormed : WellFormed (label :: labels)) : 0 < label.length ∧ label.length < 64 :=
  wellFormed label List.mem_cons_self

theorem WellFormed.tail (wellFormed : WellFormed (label :: labels)) : WellFormed labels :=
  fun l member => wellFormed l (List.mem_cons_of_mem label member)

variable {buf : Buffer} {len : Nat}

theorem length_bytes (buf : Buffer) (ptr n : Nat) : (bytes buf ptr n).length = n := by
  rw [bytes, List.length_map, List.length_range]

theorem bytes_add (buf : Buffer) (ptr n k : Nat) :
    bytes buf ptr (n + k) = bytes buf ptr n ++ bytes buf (ptr + n) k := by
  simp only [bytes, List.range_add, List.map_append, List.map_map, Function.comp_def,
    Nat.add_assoc]

theorem bytes_one (buf : Buffer) (ptr : Nat) : bytes buf ptr 1 = [buf ptr] := rfl

theorem bytes_succ (buf : Buffer) (ptr n : Nat) :
    bytes buf ptr (n + 1) = buf ptr :: bytes buf (ptr + 1) n := by
  rw [Nat.add_comm, bytes_add, bytes_one]
  rfl

theorem bytes_wire_cons {rest : List Label} :
    bytes buf ptr (wire (label :: rest)).length = wire (label :: rest) ↔
      buf ptr = BitVec.ofNat 8 label.length ∧ bytes buf (ptr + 1) label.length = label ∧
        bytes buf (ptr + label.length + 1) (wire rest).length = wire rest := by
  have size : (wire (label :: rest)).length = label.length + (wire rest).length + 1 := by
    simp [wire]
  have position : ptr + 1 + label.length = ptr + label.length + 1 := by omega
  rw [size, bytes_succ, bytes_add, wire, position, List.cons_append, List.cons.injEq]
  refine and_congr_right fun _ => ⟨fun same => List.append_inj same (length_bytes ..), ?_⟩
  rintro ⟨first, second⟩
  rw [first, second]

theorem bytes_congr {buf' : Buffer} {n : Nat}
    (same : ∀ i, ptr ≤ i → i < ptr + n → buf' i = buf i) : bytes buf' ptr n = bytes buf ptr n := by
  refine List.map_congr_left fun i inside => same _ (Nat.le_add_right ..) ?_
  exact Nat.add_lt_add_left (List.mem_range.mp inside) ptr

theorem length_wire_pos (labels : List Label) : 0 < (wire labels).length := by
  cases labels <;> simp [wire]

theorem length_wire_cons (label : Label) (rest : List Label) :
    (wire (label :: rest)).length = label.length + 1 + (wire rest).length := by
  simp only [wire, List.length_append, List.length_cons]

theorem length_le_wire (labels : List Label) : labels.length < (wire labels).length := by
  induction labels with
  | nil => simp [wire]
  | cons label rest ih =>
    rw [length_wire_cons, List.length_cons]
    omega

theorem and_c0_eq_zero_iff (b : Byte) : b &&& 0xc0 = 0 ↔ b.toNat < 64 := by
  revert b
  decide

theorem nameWalk_wire (wellFormed : WellFormed labels) {steps : Nat}
    (rv : Nat) (here : bytes buf ptr (wire labels).length = wire labels)
    (inside : ptr + (wire labels).length ≤ len + 1) (enough : labels.length < steps) :
    nameWalk buf len steps ptr rv =
      if maxDomainName < rv + (wire labels).length then 0 else rv + (wire labels).length := by
  induction labels generalizing steps ptr rv with
  | nil =>
    obtain ⟨steps, rfl⟩ := Nat.exists_eq_add_one_of_ne_zero (Nat.ne_zero_of_lt enough)
    have zero : buf ptr = 0 := List.head_eq_of_cons_eq here
    rw [nameWalk, if_pos zero]
    rfl
  | cons label rest ih =>
    obtain ⟨steps, rfl⟩ := Nat.exists_eq_add_one_of_ne_zero (Nat.ne_zero_of_lt enough)
    obtain ⟨some, short⟩ := wellFormed.head
    obtain ⟨first, -, restHere⟩ := bytes_wire_cons.mp here
    have size : (buf ptr).toNat = label.length := by
      rw [first, BitVec.toNat_ofNat, Nat.mod_eq_of_lt (by omega)]
    rw [length_wire_cons] at inside ⊢
    rw [nameWalk, if_neg, if_neg, if_neg, size]
    · have goOn := ih wellFormed.tail (rv + label.length + 1) restHere (by omega)
        (by simpa using enough)
      rw [goOn, Nat.add_assoc rv, Nat.add_assoc rv]
    · rw [size]
      have least := length_wire_pos rest
      omega
    · rw [not_not, and_c0_eq_zero_iff, size]
      exact short
    · intro zero
      rw [zero] at size
      have none : label.length = 0 := size.symm
      omega

theorem wire_of_nameWalk {steps rv : Nat} (accepted : nameWalk buf len steps ptr rv ≠ 0)
    (start : ptr ≤ len) :
    ∃ labels, WellFormed labels ∧ bytes buf ptr (wire labels).length = wire labels ∧
      nameWalk buf len steps ptr rv = rv + (wire labels).length ∧
      rv + (wire labels).length ≤ maxDomainName ∧ ptr + (wire labels).length ≤ len + 1 := by
  induction steps generalizing ptr rv with
  | zero => exact absurd rfl accepted
  | succ steps ih =>
    rw [nameWalk] at accepted ⊢
    by_cases zero : buf ptr = 0
    · rw [if_pos zero] at accepted ⊢
      by_cases long : maxDomainName < rv + 1
      · exact absurd (if_pos long) accepted
      · refine ⟨[], fun _ member => absurd member List.not_mem_nil, ?_, if_neg long,
          Nat.not_lt.mp long, Nat.succ_le_succ start⟩
        rw [wire, List.length_singleton, bytes_one, zero]
    rw [if_neg zero] at accepted ⊢
    by_cases pointer : buf ptr &&& 0xc0 ≠ 0
    · exact absurd (if_pos pointer) accepted
    rw [if_neg pointer] at accepted ⊢
    by_cases late : len < ptr + (buf ptr).toNat + 1
    · exact absurd (if_pos late) accepted
    rw [if_neg late] at accepted ⊢
    obtain ⟨labels, wellFormed, here, walked, short, inside⟩ := ih accepted (Nat.not_lt.mp late)
    rw [not_not, and_c0_eq_zero_iff] at pointer
    have some : 0 < (buf ptr).toNat := by
      refine Nat.pos_of_ne_zero fun none => zero ?_
      exact BitVec.eq_of_toNat_eq none
    have size : (bytes buf (ptr + 1) (buf ptr).toNat).length = (buf ptr).toNat := length_bytes ..
    refine ⟨bytes buf (ptr + 1) (buf ptr).toNat :: labels, ?_, ?_, ?_, ?_, ?_⟩
    · intro label member
      rcases List.mem_cons.mp member with rfl | later
      · rw [size]
        exact ⟨some, pointer⟩
      · exact wellFormed label later
    · rw [bytes_wire_cons, size, BitVec.ofNat_toNat, BitVec.setWidth_eq]
      exact ⟨rfl, rfl, here⟩
    · rw [walked, length_wire_cons, size]
      omega
    · rw [length_wire_cons, size]
      omega
    · rw [length_wire_cons, size]
      omega

/-- `get_name_len` accepts exactly the well-formed names that are short enough and end in the
packet or one byte behind it. -/
theorem getNameLen_eq_iff {n : Nat} (start : ptr ≤ len) (some : n ≠ 0) :
    getNameLen buf ptr len = n ↔ ∃ labels, WellFormed labels ∧ (wire labels).length = n ∧
      bytes buf ptr n = wire labels ∧ n ≤ maxDomainName ∧ ptr + n ≤ len + 1 := by
  constructor
  · rintro rfl
    obtain ⟨labels, wellFormed, here, walked, short, inside⟩ := wire_of_nameWalk some start
    have size : (wire labels).length = getNameLen buf ptr len := by
      rw [getNameLen, walked, Nat.zero_add]
    rw [Nat.zero_add] at short
    rw [size] at here short inside
    exact ⟨labels, wellFormed, size, here, short, inside⟩
  · rintro ⟨labels, wellFormed, rfl, here, short, inside⟩
    have enough : labels.length < len + 1 := by
      have size := length_le_wire labels
      omega
    rw [getNameLen, nameWalk_wire wellFormed 0 here inside enough, Nat.zero_add,
      if_neg (Nat.not_lt.mpr short)]

end Names

section TwoRuns

variable {buf : Buffer} {len : Nat}

/-- The name, the question and the first answer of a message with an IPv6 address, wherever
it ends. -/
structure AaaaAt (buf : Buffer) (labels : List Label) : Prop where
  queries : read16 buf 4 = 1
  answers : read16 buf 6 ≠ 0
  wellFormed : WellFormed labels
  name : bytes buf 12 (wire labels).length = wire labels
  short : (wire labels).length ≤ maxDomainName
  pointer : buf (12 + (wire labels).length + 4) = 0xc0 ∧
    buf (12 + (wire labels).length + 5) = 0x0c
  type : read16 buf (12 + (wire labels).length + 6) = 28
  dclass : read16 buf (12 + (wire labels).length + 8) = 1
  size : read16 buf (12 + (wire labels).length + 14) = 16

/-- The message has the whole answer. -/
def CompleteAaaa (buf : Buffer) (len : Nat) : Prop :=
  ∃ labels, AaaaAt buf labels ∧ 12 + (wire labels).length + 32 ≤ len

theorem readA_addressV6 (buf : Buffer) (len ptr : Nat) (f : Fields) :
    (readA buf len ptr f).2.addressV6 = f.addressV6 := by
  rw [readA]
  by_cases wrong : read16 buf (ptr + 4) ≠ 4
  · rw [if_pos wrong]
  · rw [if_neg wrong]

theorem readAnswer_addressV6 (buf : Buffer) (len acount ptr : Nat) :
    (∀ f, (readAnswer buf len acount ptr f).2.addressV6 = f.addressV6) ∨
    ((buf ptr = 0xc0 ∧ buf (ptr + 1) = 0x0c) ∧ read16 buf (ptr + 2) = 28 ∧
      read16 buf (ptr + 4) = 1 ∧ read16 buf (ptr + 10) = 16) := by
  by_cases pointer : buf ptr = 0xc0 ∧ buf (ptr + 1) = 0x0c
  swap
  · exact .inl fun f => by rw [readAnswer, if_pos pointer]
  by_cases dclass : read16 buf (ptr + 4) = 1
  swap
  · exact .inl fun f => by rw [readAnswer, if_neg (not_not.mpr pointer)]; simp only [dclass,
      ne_eq, not_false_eq_true, if_true]
  by_cases aaaa : read16 buf (ptr + 2) = 28 ∧ read16 buf (ptr + 10) = 16
  · exact .inr ⟨pointer, aaaa.1, dclass, aaaa.2⟩
  refine .inl fun f => ?_
  rw [readAnswer, if_neg (not_not.mpr pointer)]
  simp only [dclass, ne_eq, not_true_eq_false, if_false]
  by_cases cname : read16 buf (ptr + 2) = 5
  · rw [if_pos cname]
  rw [if_neg cname]
  by_cases ipv4 : read16 buf (ptr + 2) = 1
  · rw [if_pos ipv4, readA_addressV6]
  rw [if_neg ipv4]
  by_cases ipv6 : read16 buf (ptr + 2) = 28
  · have wrong : read16 buf (ptr + 6 + 4) ≠ 16 := fun right => aaaa ⟨ipv6, right⟩
    rw [if_pos ipv6, readAaaa, if_pos wrong]
  · rw [if_neg ipv6]

theorem verify_addressV6 (buf : Buffer) (len : Nat) :
    (∀ old, (dnspktVerify buf len old).2.addressV6 = old.addressV6) ∨
    ∃ labels, AaaaAt buf labels ∧ 12 + (wire labels).length ≤ len + 1 := by
  by_cases header : len < 12
  · exact .inl fun old => by rw [dnspktVerify, if_pos header]; rfl
  by_cases queries : read16 buf 4 = 1
  swap
  · exact .inl fun old => by rw [dnspktVerify, if_neg header, readBody, if_pos queries]; rfl
  by_cases name : getNameLen buf 12 len = 0
  · exact .inl fun old => by
      rw [dnspktVerify, if_neg header, readBody, if_neg (not_not.mpr queries)]
      simp only [name, if_true]
      rfl
  by_cases answers : (read16 buf 6).toNat = 0
  · exact .inl fun old => by
      rw [dnspktVerify, if_neg header, readBody, if_neg (not_not.mpr queries)]
      simp only [name, answers, if_true, if_false]
      rfl
  rcases readAnswer_addressV6 buf len (read16 buf 6).toNat (12 + getNameLen buf 12 len + 4) with
    kept | ⟨pointer, type, dclass, size⟩
  · exact .inl fun old => by
      rw [dnspktVerify, if_neg header, readBody, if_neg (not_not.mpr queries)]
      simp only [name, answers, if_false]
      rw [kept]
      rfl
  · obtain ⟨labels, wellFormed, length, here, short, inside⟩ :=
      (getNameLen_eq_iff (Nat.not_lt.mp header) name).mp rfl
    rw [← length] at here short inside pointer type dclass size
    refine .inr ⟨labels, ⟨queries, ?_, wellFormed, here, short, pointer, type, dclass, size⟩,
      inside⟩
    intro zero
    exact answers (by rw [zero]; rfl)

theorem verify_aaaa {labels : List Label} (aaaa : AaaaAt buf labels)
    (inside : 12 + (wire labels).length ≤ len + 1) (header : 12 ≤ len) (old : Fields) :
    let size := (wire labels).length
    dnspktVerify buf len old = (chkPktLen len (12 + size + 32), { old with
      len := len
      pktType := if read16 buf 2 &&& 0x8000 ≠ 0 then 1 else 0
      errorCode := (read16 buf 2 &&& 0x000f).setWidth 8
      flags := read16 buf 2
      queryName := wire labels
      queryType := (read16 buf (12 + size)).setWidth 8
      type := 28
      dclass := 1
      ttl := read32 buf (12 + size + 10)
      address := 0
      addressV6 := bytes buf (12 + size + 16) 16 }) := by
  have nameLen : getNameLen buf 12 len = (wire labels).length :=
    (getNameLen_eq_iff header (Nat.ne_of_gt (length_wire_pos labels))).mpr
      ⟨labels, aaaa.wellFormed, rfl, aaaa.name, aaaa.short, inside⟩
  have answers : (read16 buf 6).toNat ≠ 0 := fun zero =>
    aaaa.answers (BitVec.eq_of_toNat_eq zero)
  have pointer := aaaa.pointer
  have type := aaaa.type
  have dclass := aaaa.dclass
  have size := aaaa.size
  rw [dnspktVerify, if_neg (Nat.not_lt.mpr header), readBody,
    if_neg (not_not.mpr aaaa.queries)]
  simp only [nameLen, Nat.ne_of_gt (length_wire_pos labels), answers, if_false, aaaa.name]
  rw [readAnswer, if_neg (not_not.mpr pointer)]
  simp only [type, dclass, ne_eq, not_true_eq_false, if_false, readAaaa, size, if_true,
    resetFields, show ¬ (28 : BitVec 16) = 5 by decide, show ¬ (28 : BitVec 16) = 1 by decide]

end TwoRuns

section Hyperproperty

/-- The verdict and the fields that a reader of the packet gets. -/
structure Agree (a b : Bool × Fields) : Prop where
  verdict : a.1 = b.1
  queryName : a.2.queryName = b.2.queryName
  queryType : a.2.queryType = b.2.queryType
  type : a.2.type = b.2.type
  ttl : a.2.ttl = b.2.ttl
  address : a.2.address = b.2.address
  addressV6 : a.2.addressV6 = b.2.addressV6

/-- The parser looks only at the packet. -/
def LooksOnly (buf : Buffer) (len : Nat) : Prop :=
  ∀ buf' old old', (∀ i < len, buf' i = buf i) →
    Agree (dnspktVerify buf len old) (dnspktVerify buf' len old')

/-- An accepted message with one question has its name, its type and its class in the
packet. -/
def QuestionInside (buf : Buffer) (len : Nat) : Prop :=
  ∀ old, (dnspktVerify buf len old).1 = false → read16 buf 4 = 1 →
    ∃ labels, WellFormed labels ∧ bytes buf 12 (wire labels).length = wire labels ∧
      (dnspktVerify buf len old).2.queryName = wire labels ∧
      12 + (wire labels).length + 4 ≤ len

variable {buf buf' : Buffer} {len : Nat} {labels : List Label}

theorem read16_congr {ptr : Nat} (same : ∀ i < ptr + 2, buf' i = buf i) :
    read16 buf' ptr = read16 buf ptr := by
  rw [read16, read16, same ptr (by omega), same (ptr + 1) (by omega)]

theorem read32_congr {ptr : Nat} (same : ∀ i < ptr + 4, buf' i = buf i) :
    read32 buf' ptr = read32 buf ptr := by
  rw [read32, read32, read16_congr fun i h => same i (by omega),
    read16_congr fun i h => same i (by omega)]

theorem bytes_congr_below {ptr n : Nat} (same : ∀ i < ptr + n, buf' i = buf i) :
    bytes buf' ptr n = bytes buf ptr n :=
  bytes_congr fun i _ before => same i before

theorem AaaaAt.congr (aaaa : AaaaAt buf labels)
    (same : ∀ i < 12 + (wire labels).length + 16, buf' i = buf i) : AaaaAt buf' labels := by
  refine ⟨?_, ?_, aaaa.wellFormed, ?_, aaaa.short, ?_, ?_, ?_, ?_⟩
  · rw [read16_congr fun i h => same i (by omega)]
    exact aaaa.queries
  · rw [read16_congr fun i h => same i (by omega)]
    exact aaaa.answers
  · rw [bytes_congr_below fun i h => same i (by omega)]
    exact aaaa.name
  · rw [same _ (by omega), same _ (by omega)]
    exact aaaa.pointer
  · rw [read16_congr fun i h => same i (by omega)]
    exact aaaa.type
  · rw [read16_congr fun i h => same i (by omega)]
    exact aaaa.dclass
  · rw [read16_congr fun i h => same i (by omega)]
    exact aaaa.size

theorem CompleteAaaa.looksOnly (complete : CompleteAaaa buf len) : LooksOnly buf len := by
  obtain ⟨labels, aaaa, inside⟩ := complete
  intro buf' old old' same
  have aaaa' : AaaaAt buf' labels := aaaa.congr fun i h => same i (by omega)
  rw [verify_aaaa aaaa (by omega) (by omega), verify_aaaa aaaa' (by omega) (by omega)]
  have type : read16 buf' (12 + (wire labels).length) = read16 buf (12 + (wire labels).length) :=
    read16_congr fun i h => same i (by omega)
  refine ⟨rfl, rfl, ?_, rfl, ?_, rfl, ?_⟩
  · exact congrArg (BitVec.setWidth 8) type.symm
  · exact (read32_congr fun i h => same i (by omega)).symm
  · exact (bytes_congr_below fun i h => same i (by omega)).symm

theorem CompleteAaaa.questionInside (complete : CompleteAaaa buf len) :
    QuestionInside buf len := by
  obtain ⟨labels, aaaa, inside⟩ := complete
  intro old _ _
  refine ⟨labels, aaaa.wellFormed, aaaa.name, ?_, by omega⟩
  rw [verify_aaaa aaaa (by omega) (by omega)]

/-- Some fields, with an IPv6 address. -/
def staleFields (address : List Byte) : Fields :=
  { len := 0, pktType := 0, errorCode := 0, flags := 0, queryName := [], queryType := 0
    type := 0, dclass := 0, ttl := 0, address := 0, addressV6 := address }

theorem LooksOnly.complete (looksOnly : LooksOnly buf len) : CompleteAaaa buf len := by
  rcases verify_addressV6 buf len with kept | ⟨labels, aaaa, inside⟩
  · have same := (looksOnly buf (staleFields []) (staleFields [0]) fun _ _ => rfl).addressV6
    rw [kept, kept] at same
    cases same
  refine ⟨labels, aaaa, ?_⟩
  by_contra cut
  -- the last byte of the address is behind the packet
  let buf' : Buffer := Function.update buf (12 + (wire labels).length + 31)
    (buf (12 + (wire labels).length + 31) + 1)
  have other : ∀ i < 12 + (wire labels).length + 31, buf' i = buf i := fun i before =>
    Function.update_of_ne (by omega) _ _
  have agree := looksOnly buf' (staleFields []) (staleFields []) fun i before =>
    other i (by omega)
  have positive := length_wire_pos labels
  have aaaa' : AaaaAt buf' labels := aaaa.congr fun i h => other i (by omega)
  have same := agree.addressV6
  rw [verify_aaaa aaaa inside (by omega), verify_aaaa aaaa' inside (by omega)] at same
  have split (b : Buffer) (ptr : Nat) : bytes b ptr 16 = bytes b ptr 15 ++ [b (ptr + 15)] :=
    bytes_add b ptr 15 1
  change bytes buf _ 16 = bytes buf' _ 16 at same
  rw [split, split] at same
  have last := List.head_eq_of_cons_eq (List.append_inj same (by simp [length_bytes])).2
  have changed : buf' (12 + (wire labels).length + 31) =
      buf (12 + (wire labels).length + 31) + 1 := Function.update_self ..
  have position : 12 + (wire labels).length + 16 + 15 = 12 + (wire labels).length + 31 := rfl
  rw [position, changed] at last
  simp at last

/-- For a buffer and a length, the parser looks only at the packet, and finds the question in
it, exactly when the message has a complete answer with an IPv6 address. -/
theorem dnspktVerify_looksOnly_iff (buf : Buffer) (len : Nat) :
    (LooksOnly buf len ∧ QuestionInside buf len) ↔ CompleteAaaa buf len :=
  ⟨fun both => both.1.complete, fun complete => ⟨complete.looksOnly, complete.questionInside⟩⟩

/-- Two messages of twelve zero bytes are accepted with the types that were in the memory. -/
theorem dnspktVerify_staleType :
    ¬ ∀ (buf : Buffer) (len : Nat), LooksOnly buf len ∧ QuestionInside buf len := by
  intro all
  have agree := (all (fun _ => 0) 12).1 (fun _ => 0) (staleFields [])
    { staleFields [] with queryType := 28 } (fun _ _ => rfl)
  exact absurd agree.queryType (by decide)

end Hyperproperty

end DnsPacket
