import Rcp100.ByteBuffer
import Rcp100.DnsProxy

/-!
# Answers from the cache

A query is answered from the cache with a packet that is built from an entry, or with the
packet that the entry was learned from. Here is what such a reply says, and where that comes
from.
-/

namespace CachedAnswers

open ChainTable FaultRuns DnsPacket DnsMessages DnsProxy
open DnsCache (Cache Entry Packet Host Answer cString Adds Aged Inserts Same Shape Sound
  cacheReply learned learned_isStatic learned_key)
open ByteBuffer (be16 be32 length_be16 length_be32)
open DnsRequests (maxReq)

section Building

variable {buf : Buffer} {ptr : Nat}

theorem writeBytes_append (l l' : List Byte) :
    writeBytes (writeBytes buf ptr l) (ptr + l.length) l' = writeBytes buf ptr (l ++ l') := by
  induction l generalizing buf ptr with
  | nil => rfl
  | cons b l ih =>
    rw [List.cons_append, writeBytes, writeBytes, ← ih, List.length_cons, Nat.add_comm l.length,
      Nat.add_assoc]

theorem write16_eq (data : BitVec 16) : write16 buf ptr data = writeBytes buf ptr (be16 data) := rfl

theorem write32_eq (data : BitVec 32) : write32 buf ptr data = writeBytes buf ptr (be32 data) := rfl

theorem writeBytes_before (l : List Byte) {i : Nat} (before : i < ptr) :
    writeBytes buf ptr l i = buf i := by
  induction l generalizing buf ptr with
  | nil => rfl
  | cons b l ih =>
    rw [writeBytes, ih (by omega), write8, Function.update_of_ne (by omega)]

theorem bytes_writeBytes (l : List Byte) : bytes (writeBytes buf ptr l) ptr l.length = l := by
  induction l generalizing buf ptr with
  | nil => rfl
  | cons b l ih =>
    rw [List.length_cons, bytes_succ, writeBytes, ih, writeBytes_before l (by omega), write8,
      Function.update_self]

theorem bytes_part {whole : List Byte} (front l back : List Byte)
    (split : whole = front ++ l ++ back)
    {pos n : Nat} (isPos : pos = ptr + front.length) (length : n = l.length) :
    bytes (writeBytes buf ptr whole) pos n = l := by
  subst split isPos length
  rw [← writeBytes_append, ← writeBytes_append]
  have same : bytes (writeBytes (writeBytes (writeBytes buf ptr front) (ptr + front.length) l)
      (ptr + (front ++ l).length) back) (ptr + front.length) l.length =
      bytes (writeBytes (writeBytes buf ptr front) (ptr + front.length) l)
        (ptr + front.length) l.length := by
    refine bytes_congr fun i _ inside => writeBytes_before back ?_
    rw [List.length_append]
    omega
  rw [same, bytes_writeBytes]

theorem read16_of_bytes {data : BitVec 16} (here : bytes buf ptr 2 = be16 data) :
    read16 buf ptr = data := by
  have pair : bytes buf ptr 2 = [buf ptr, buf (ptr + 1)] := rfl
  rw [pair] at here
  obtain ⟨first, second⟩ := List.cons.inj here
  rw [read16, first, (List.cons.inj second).1]
  exact halves data

/-- The reply for an entry without a packet, up to the data of its answer. -/
def replyHead (tid : BitVec 16) (dc : Entry) : List Byte :=
  be16 tid ++ be16 dc.flags ++ be16 1 ++ be16 1 ++ be16 0 ++ be16 0

/-- The question and the answer. -/
def replyTail (dc : Entry) (data : List Byte) : List Byte :=
  dc.name ++ [0] ++ be16 (dc.type.setWidth 16) ++ be16 1 ++ be16 0xc00c ++
    be16 (dc.type.setWidth 16) ++ be16 1 ++ be32 dc.ttl ++
    be16 (BitVec.ofNat 16 data.length) ++ data

theorem writeBytes_behind (l l' : List Byte) {q : Nat} (behind : q = ptr + l.length) :
    writeBytes (writeBytes buf ptr l) q l' = writeBytes buf ptr (l ++ l') := by
  rw [behind, writeBytes_append]

theorem dnspktBuild_eq (out : Buffer) (dc : Entry) (tid : BitVec 16) {data : List Byte}
    (address : (dc.type = 1 ∧ data = be32 dc.ip) ∨
      (dc.type = 28 ∧ data = dc.ipv6 ∧ dc.ipv6.length = 16)) :
    dnspktBuild out dc none tid =
      (writeBytes out 0 (replyHead tid dc ++ replyTail dc data),
        12 + (dc.name.length + 1) + 16 + data.length) := by
  have junction (head : List Byte) (sized : head.length = 12 + (dc.name.length + 1))
      (rest : List Byte) : writeBytes (writeBytes out 0 head) (12 + (dc.name.length + 1)) rest =
        writeBytes out 0 (head ++ rest) :=
    writeBytes_behind head rest (by rw [sized, Nat.zero_add])
  rcases address with ⟨type, rfl⟩ | ⟨type, rfl, size⟩
  · simp only [dnspktBuild, type, if_true, write16_eq, write32_eq, length_be32]
    refine Prod.ext ?_ rfl
    simp (disch := simp only [List.length_append, List.length_singleton, length_be16, length_be32,
      Nat.zero_add, Nat.add_assoc]) only [writeBytes_behind]
    simp only [replyHead, replyTail, type, length_be32, List.append_assoc]
    rw [junction _ (by simp only [List.length_append, length_be16, List.length_singleton]; omega)]
    simp only [List.append_assoc]
    rfl
  · simp only [dnspktBuild, type, if_true, write16_eq, write32_eq, size,
      show ¬ (28 : Byte) = 1 by decide, if_false]
    refine Prod.ext ?_ rfl
    simp (disch := simp only [List.length_append, List.length_singleton, length_be16, length_be32,
      Nat.zero_add, Nat.add_assoc]) only [writeBytes_behind]
    simp only [replyHead, replyTail, type, size, List.append_assoc]
    rw [junction _ (by simp only [List.length_append, length_be16, List.length_singleton]; omega)]
    simp only [List.append_assoc]
    rfl

theorem length_replyHead (tid : BitVec 16) (dc : Entry) : (replyHead tid dc).length = 12 := rfl

variable {labels : List Label} {type : BitVec 16} {dc : Entry} {data : List Byte}

theorem reply_complete (out : Buffer) (tid : BitVec 16) (wellFormed : WellFormed labels)
    (name : dc.name = prefixed labels) (isType : dc.type.setWidth 16 = type)
    (short : data.length < 65536) :
    let packet := writeBytes out 0 (replyHead tid dc ++ replyTail dc data)
    read16 packet 0 = tid ∧ Complete packet (12 + (dc.name.length + 1) + 16 + data.length)
      [(labels, type)] [(type, data)] := by
  intro packet
  have tail : replyTail dc data = wire labels ++ (be16 type ++ be16 1) ++
      (be16 0xc00c ++ be16 type ++ be16 1 ++ be32 dc.ttl) ++
        (be16 (BitVec.ofNat 16 data.length) ++ data) := by
    rw [replyTail, name, isType, wire_eq]
    simp only [List.append_assoc]
  have length : dc.name.length + 1 = (wire labels).length := by
    rw [name, wire_eq, List.length_append, List.length_singleton]
  have head (front back : List Byte) (n : BitVec 16) (pos : Nat)
      (split : replyHead tid dc = front ++ be16 n ++ back) (isPos : pos = front.length) :
      read16 packet pos = n := by
    refine read16_of_bytes (bytes_part front (be16 n) (back ++ replyTail dc data) ?_ ?_ rfl)
    · rw [split]
      simp only [List.append_assoc]
    · rw [isPos, Nat.zero_add]
  have behind (front l back : List Byte) (pos n : Nat)
      (split : replyTail dc data = front ++ l ++ back)
      (isPos : pos = 12 + front.length) (size : n = l.length) : bytes packet pos n = l := by
    refine bytes_part (replyHead tid dc ++ front) l back ?_ ?_ size
    · rw [split]
      simp only [List.append_assoc]
    · rw [isPos, List.length_append, length_replyHead, Nat.zero_add]
  refine ⟨head [] _ tid 0 rfl rfl, ?_, ?_, 12 + (wire labels).length + 4, _,
    ⟨wellFormed, ?_, ?_, rfl⟩, ⟨2, ⟨[], ?_, .inr ⟨rfl, rfl, ?_⟩⟩, ?_, ?_, ?_, rfl⟩, ?_⟩
  · rw [head (be16 tid ++ be16 dc.flags) (be16 1 ++ be16 0 ++ be16 0) 1 4 rfl rfl]
    rfl
  · rw [head (be16 tid ++ be16 dc.flags ++ be16 1) (be16 0 ++ be16 0) 1 6 rfl rfl,
      head (be16 tid ++ be16 dc.flags ++ be16 1 ++ be16 1) (be16 0) 0 8 rfl rfl,
      head (be16 tid ++ be16 dc.flags ++ be16 1 ++ be16 1 ++ be16 0) [] 0 10 rfl rfl]
    rfl
  · refine behind [] (wire labels) (be16 type ++ be16 1 ++ (be16 0xc00c ++ be16 type ++ be16 1 ++
      be32 dc.ttl) ++ (be16 (BitVec.ofNat 16 data.length) ++ data)) 12 _ ?_ rfl rfl
    rw [tail]
    simp only [List.append_assoc, List.nil_append]
  · refine read16_of_bytes (behind (wire labels) (be16 type) (be16 1 ++ (be16 0xc00c ++ be16 type ++
      be16 1 ++ be32 dc.ttl) ++ (be16 (BitVec.ofNat 16 data.length) ++ data)) _ 2 ?_ rfl rfl)
    rw [tail]
    simp only [List.append_assoc]
  · exact fun _ member => absurd member List.not_mem_nil
  · have pointer := behind (wire labels ++ (be16 type ++ be16 1)) (be16 0xc00c) (be16 type ++
      be16 1 ++ be32 dc.ttl ++ (be16 (BitVec.ofNat 16 data.length) ++ data))
      (12 + (wire labels).length + 4) 2 (by rw [tail]; simp only [List.append_assoc])
      (by simp only [List.length_append, length_be16]; omega) rfl
    have first := (List.cons.inj pointer).1
    rw [show (prefixed ([] : List Label)).length = 0 from rfl, Nat.add_zero]
    change packet (12 + (wire labels).length + 4 + 0) = _ at first
    rw [Nat.add_zero] at first
    rw [first]
    decide
  · refine read16_of_bytes (behind (wire labels ++ (be16 type ++ be16 1) ++ be16 0xc00c) (be16 type)
      (be16 1 ++ be32 dc.ttl ++ (be16 (BitVec.ofNat 16 data.length) ++ data)) _ 2 ?_ ?_ rfl)
    · rw [tail]
      simp only [List.append_assoc]
    · simp only [List.length_append, length_be16]
      omega
  · have size : read16 packet (12 + (wire labels).length + 4 + 2 + 8) =
        BitVec.ofNat 16 data.length := by
      refine read16_of_bytes (behind (wire labels ++ (be16 type ++ be16 1) ++ (be16 0xc00c ++
        be16 type ++ be16 1 ++ be32 dc.ttl)) (be16 (BitVec.ofNat 16 data.length)) data _ 2 ?_ ?_
          rfl)
      · rw [tail]
        simp only [List.append_assoc]
      · simp only [List.length_append, length_be16, length_be32]
        omega
    rw [size, BitVec.toNat_ofNat, Nat.mod_eq_of_lt short]
  · refine behind (wire labels ++ (be16 type ++ be16 1) ++ (be16 0xc00c ++ be16 type ++ be16 1 ++
      be32 dc.ttl) ++ be16 (BitVec.ofNat 16 data.length)) data [] _ _ ?_ ?_ rfl
    · rw [tail]
      simp only [List.append_assoc, List.append_nil]
    · simp only [List.length_append, length_be16, length_be32]
      omega
  · rw [length]

end Building

section Learning

variable {buf : Buffer} {len : Nat} {labels : List Label} {type : BitVec 16} {f : Fields}

/-- A response that is worth an entry of the cache. -/
structure Cacheable (f : Fields) : Prop where
  noError : f.errorCode = 0
  ttl : ¬ f.ttl.slt 10
  type : f.type = 1 ∨ f.type = 28 ∨ f.type = 5

theorem cachedAnswer_some {packet : Packet} {a : Answer} (cached : cachedAnswer f packet = some a) :
    Cacheable f ∧ a.queryName = cString f.queryName ∧ a.queryType = f.queryType ∧
      a.type = f.type ∧ a.address = f.address ∧ a.addressV6 = f.addressV6 ∧ a.packet = packet := by
  rw [cachedAnswer] at cached
  by_cases error : f.errorCode ≠ 0
  · rw [if_pos error] at cached
    cases cached
  rw [if_neg error] at cached
  by_cases short : f.ttl.slt 10 = true
  · rw [if_pos short] at cached
    cases cached
  rw [if_neg short] at cached
  by_cases type : f.type ≠ 1 ∧ f.type ≠ 28 ∧ f.type ≠ 5
  · rw [if_pos type] at cached
    cases cached
  rw [if_neg type] at cached
  cases cached
  refine ⟨⟨not_not.mp error, short, ?_⟩, rfl, rfl, rfl, rfl, rfl, rfl⟩
  tauto

/-- Where the first answer is, and what is extracted of it. -/
structure FirstAnswer (buf : Buffer) (ptr : Nat) (f : Fields) : Prop where
  pointer : buf ptr = 0xc0
  type : f.type = read16 buf (ptr + 2)
  address : f.type = 1 → read16 buf (ptr + 10) = 4 → f.address = read32 buf (ptr + 12)
  addressV6 : f.type = 28 → read16 buf (ptr + 10) = 16 → f.addressV6 = bytes buf (ptr + 12) 16

theorem readAnswer_opened {acount ptr : Nat} {f : Fields} (noTtl : f.ttl = 0) (noType : f.type = 0)
    (cacheable : Cacheable (readAnswer buf len acount ptr f).2) :
    buf ptr = 0xc0 ∧ read16 buf (ptr + 4) = 1 ∧ readAnswer buf len acount ptr f =
      (let f := { f with type := read16 buf (ptr + 2), dclass := 1 }
       if f.type = 5 then
        let cnames := parseCnames buf len acount f.ttl
        (cnames.1 || chkPktLen len (ptr + 6), { f with ttl := cnames.2 })
       else if f.type = 1 then readA buf len (ptr + 6) f
       else if f.type = 28 then readAaaa buf len (ptr + 6) f
       else (chkPktLen len (ptr + 6), f)) := by
  by_cases pointer : buf ptr = 0xc0 ∧ buf (ptr + 1) = 0x0c
  swap
  · rw [readAnswer, if_pos pointer] at cacheable
    have type := cacheable.type
    simp only [noType] at type
    exact absurd type (by decide)
  by_cases dclass : read16 buf (ptr + 4) = 1
  swap
  · have ttl := cacheable.ttl
    rw [readAnswer, if_neg (not_not.mpr pointer)] at ttl
    simp only [ne_eq, dclass, not_false_eq_true, if_true, noTtl] at ttl
    exact absurd (by decide) ttl
  refine ⟨pointer.1, dclass, ?_⟩
  rw [readAnswer, if_neg (not_not.mpr pointer)]
  simp only [ne_eq, dclass, not_true_eq_false, if_false]

theorem readAnswer_first {acount ptr : Nat} {f : Fields} (noTtl : f.ttl = 0) (noType : f.type = 0)
    (cacheable : Cacheable (readAnswer buf len acount ptr f).2) :
    FirstAnswer buf ptr (readAnswer buf len acount ptr f).2 := by
  obtain ⟨pointer, -, opened⟩ := readAnswer_opened noTtl noType cacheable
  rw [opened]
  dsimp only
  by_cases cname : read16 buf (ptr + 2) = 5
  · rw [if_pos cname]
    refine ⟨pointer, rfl, fun type => ?_, fun type => ?_⟩
    · exact absurd (cname.symm.trans type) (by decide)
    · exact absurd (cname.symm.trans type) (by decide)
  rw [if_neg cname]
  by_cases ipv4 : read16 buf (ptr + 2) = 1
  · rw [if_pos ipv4, readA]
    dsimp only
    by_cases size : read16 buf (ptr + 6 + 4) = 4
    · rw [if_neg (not_not.mpr size)]
      refine ⟨pointer, rfl, fun _ _ => rfl, fun type => ?_⟩
      exact absurd (ipv4.symm.trans type) (by decide)
    · rw [if_pos size]
      refine ⟨pointer, rfl, fun _ right => absurd right size, fun type => ?_⟩
      exact absurd (ipv4.symm.trans type) (by decide)
  rw [if_neg ipv4]
  by_cases ipv6 : read16 buf (ptr + 2) = 28
  · rw [if_pos ipv6, readAaaa]
    dsimp only
    by_cases size : read16 buf (ptr + 6 + 4) = 16
    · rw [if_neg (not_not.mpr size)]
      refine ⟨pointer, rfl, fun type => ?_, fun _ _ => rfl⟩
      exact absurd type ipv4
    · rw [if_pos size]
      refine ⟨pointer, rfl, fun type => ?_, fun _ right => absurd right size⟩
      exact absurd type ipv4
  · rw [if_neg ipv6]
    exact ⟨pointer, rfl, fun type => absurd type ipv4, fun type => absurd type ipv6⟩

theorem verify_first (question : HasQuestions buf len [(labels, type)])
    (short : (wire labels).length ≤ maxDomainName) (old : Fields)
    (cacheable : Cacheable (dnspktVerify buf len old).2) :
    FirstAnswer buf (12 + (wire labels).length + 4) (dnspktVerify buf len old).2 := by
  obtain ⟨queries, stop, ⟨wellFormed, name, isType, done⟩, inside⟩ := question
  have one : read16 buf 4 = 1 := BitVec.eq_of_toNat_eq queries
  change 12 + (wire labels).length + 4 = stop at done
  have nameLen : getNameLen buf 12 len = (wire labels).length :=
    (getNameLen_eq_iff (by omega) (Nat.ne_of_gt (length_wire_pos labels))).mpr
      ⟨labels, wellFormed, rfl, name, short, by omega⟩
  rw [dnspktVerify, if_neg (by omega), readBody, if_neg (not_not.mpr one)] at cacheable ⊢
  simp only [nameLen, Nat.ne_of_gt (length_wire_pos labels), if_false] at cacheable ⊢
  by_cases answers : (read16 buf 6).toNat = 0
  · rw [if_pos answers] at cacheable
    have type : (0 : BitVec 16) = 1 ∨ (0 : BitVec 16) = 28 ∨ (0 : BitVec 16) = 5 := cacheable.type
    exact absurd type (by decide)
  · rw [if_neg answers] at cacheable ⊢
    exact readAnswer_first rfl rfl cacheable

theorem nameAt_pointer {ptr size : Nat} (name : NameAt buf ptr size) (pointer : buf ptr = 0xc0) :
    size = 2 := by
  obtain ⟨labels, wellFormed, name⟩ := name
  cases labels with
  | nil =>
    rcases name with ⟨rfl, here⟩ | ⟨rfl, -, -⟩
    · have zero : buf ptr = 0 := List.head_eq_of_cons_eq here
      rw [pointer] at zero
      cases zero
    · rfl
  | cons label labels =>
    obtain ⟨some, short⟩ := wellFormed.head
    have first : buf ptr = BitVec.ofNat 8 label.length := by
      rcases name with ⟨rfl, here⟩ | ⟨-, here, -⟩
      · rw [length_wire_cons, show label.length + 1 + (wire labels).length =
          (label.length + (wire labels).length) + 1 by omega, bytes_succ] at here
        exact List.head_eq_of_cons_eq here
      · rw [prefixed_cons, List.length_cons, bytes_succ] at here
        exact List.head_eq_of_cons_eq here
    have number := toNat_size short
    rw [← first, pointer] at number
    have big : label.length = 192 := number.symm
    omega

theorem first_record {ptr stop : Nat} {record : Record} {rest : List Record}
    (records : RecordsAt buf ptr (record :: rest) stop) (pointer : buf ptr = 0xc0) :
    read16 buf (ptr + 2) = record.1 ∧ (read16 buf (ptr + 10)).toNat = record.2.length ∧
      bytes buf (ptr + 12) record.2.length = record.2 := by
  obtain ⟨size, name, type, length, data, -⟩ := records
  cases nameAt_pointer name pointer
  exact ⟨type, length, data⟩

theorem extract_high {n : Nat} (a b : BitVec n) : (a ++ b).extractLsb' n n = a := by
  ext i inside
  rw [BitVec.getElem_extractLsb', BitVec.getLsbD_append]
  simp [inside]

theorem extract_low {n : Nat} (a b : BitVec n) : (a ++ b).extractLsb' 0 n = b := by
  ext i inside
  rw [BitVec.getElem_extractLsb', BitVec.getLsbD_append]
  simp [inside]

theorem be32_read32 (ptr : Nat) : be32 (read32 buf ptr) = bytes buf ptr 4 := by
  have word (p : Nat) : be16 (read16 buf p) = [buf p, buf (p + 1)] := by
    rw [be16, read16]
    exact congrArg₂ (fun a b => [a, b]) (extract_high _ _) (extract_low _ _)
  have high : (read32 buf ptr).extractLsb' 16 16 = read16 buf ptr := extract_high _ _
  have low : (read32 buf ptr).extractLsb' 0 16 = read16 buf (ptr + 2) := extract_low _ _
  rw [be32, high, low, word, word]
  rfl

end Learning

section Sources

/-- A configured host of the name has the address. -/
def FromHost (hosts : List Host) (labels : List Label) (ip : BitVec 32) : Prop :=
  ∃ host ∈ hosts, HostNamed host.name labels ∧ host.ip = ip

/-- A response to the question has the records. -/
def FromResponse (responses : List Datagram) (labels : List Label) (type : BitVec 16)
    (records : List Record) : Prop :=
  ∃ d ∈ responses, ∃ all, Complete d.buf d.len [(labels, type)] all ∧ ∀ r ∈ records, r ∈ all

/-- The address of an entry, as the data of a record. -/
def IsAddress (e : Entry) (type : BitVec 16) (data : List Byte) : Prop :=
  (type = 1 ∧ data = be32 e.ip) ∨ (type = 28 ∧ data = e.ipv6 ∧ e.ipv6.length = 16)

/-- What an entry for a question was made from. -/
inductive Source (s : State) (packet : DnsCache.Ptr → Packet) (e : Entry) (labels : List Label)
    (type : BitVec 16) : Prop
  /-- a host; if it was removed, then in this second -/
  | host (cname : e.cname = none) (isType : type = 1) (isStatic : e.isStatic = true)
      (ip : FromHost s.hosts labels e.ip ∨ e.marker = false ∧ FromHost s.stale labels e.ip)
  /-- the address in a response -/
  | address (cname : e.cname = none) (isStatic : e.isStatic = false) (data : List Byte)
      (isData : IsAddress e type data)
      (told : FromResponse s.responses labels type [(type, data)])
  /-- a whole response -/
  | packet (isStatic : e.isStatic = false) (q : DnsCache.Ptr) (cname : e.cname = some q)
      (d : Datagram) (member : d ∈ s.responses) (records : List Record)
      (complete : Complete d.buf d.len [(labels, type)] records)
      (body : SameBody d.buf (packet q).buf) (length : (packet q).len = d.len)

/-- The entry is for a question that messages can have, and has a source. -/
def Justified (s : State) (packet : DnsCache.Ptr → Packet) (e : Entry) : Prop :=
  ∃ labels type, WellFormed labels ∧ ZeroFree labels ∧ type < 256 ∧
    e.key = (prefixed labels, type.setWidth 8) ∧ Source s packet e labels type

def AllJustified (s : State) : Prop :=
  ∀ p ∈ s.proxy.cache.live, Justified s s.proxy.cache.packet (s.proxy.cache.entry p)

variable {s s' : State} {packet packet' : DnsCache.Ptr → Packet} {e e' : Entry}

variable {labels : List Label} {type : BitVec 16} {records : List Record}

theorem FromResponse.mono {responses responses' : List Datagram}
    (told : FromResponse responses labels type records) (more : ∀ d ∈ responses, d ∈ responses') :
    FromResponse responses' labels type records := by
  obtain ⟨d, member, rest⟩ := told
  exact ⟨d, more d member, rest⟩

theorem Justified.transfer (justified : Justified s packet e)
    (like : ∃ ttl marker, e' = { e with ttl := ttl, marker := marker })
    (more : ∀ d ∈ s.responses, d ∈ s'.responses)
    (packets : ∀ q, e.cname = some q → packet' q = packet q)
    (hosts : e.isStatic = true → ∀ labels,
      (FromHost s.hosts labels e.ip ∨ e.marker = false ∧ FromHost s.stale labels e.ip) →
      (FromHost s'.hosts labels e.ip ∨ e'.marker = false ∧ FromHost s'.stale labels e.ip)) :
    Justified s' packet' e' := by
  obtain ⟨ttl, marker, rfl⟩ := like
  obtain ⟨labels, type, wellFormed, zeroFree, byte, key, source⟩ := justified
  refine ⟨labels, type, wellFormed, zeroFree, byte, key, ?_⟩
  cases source with
  | host cname isType isStatic ip => exact .host cname isType isStatic (hosts isStatic labels ip)
  | address cname isStatic data isData told =>
    exact .address cname isStatic data isData (told.mono more)
  | packet isStatic q cname d member records complete body length =>
    refine .packet isStatic q cname d (more d member) records complete ?_ ?_
    · rw [packets q cname]
      exact body
    · rw [packets q cname]
      exact length

/-- A response that can be cached: it is complete, has one question that can be told by what
is extracted of it, and its first record is a CNAME one or has an address of the type that was
asked for. -/
structure Trusty (d : Datagram) (labels : List Label) (type : BitVec 16)
    (records : List Record) : Prop where
  plain : Plain d.buf d.len labels type
  complete : Complete d.buf d.len [(labels, type)] records
  first : ∃ rtype data rest, records = (rtype, data) :: rest ∧ (rtype = 5 ∨ rtype = type ∧
    ((type = 1 ∧ data.length = 4) ∨ (type = 28 ∧ data.length = 16)))

theorem learned_justified {d : Datagram} {w : World}
    (trusty : Trusty d labels type records) {p : Packet} {a : Answer}
    (cached : cachedAnswer (extracted d w) p = some a) (notCname : a.type ≠ 5)
    (member : d ∈ s.responses) : Justified s packet (learned a) := by
  obtain ⟨plain, complete, rtype, data, rest, rfl, kind⟩ := trusty
  have whole := complete
  obtain ⟨cacheable, queryName, queryType, isType, address, addressV6, -⟩ :=
    cachedAnswer_some cached
  obtain ⟨name, byteType⟩ := verify_question plain.question plain.short w.old
  have first := verify_first plain.question plain.short w.old cacheable
  obtain ⟨-, -, middle, stop, ⟨-, -, -, middleIs⟩, recordsAt, -⟩ := complete
  change 12 + (wire labels).length + 4 = middle at middleIs
  rw [← middleIs] at recordsAt
  obtain ⟨isRtype, length, isData⟩ := first_record recordsAt first.pointer
  have same : a.type = rtype := by
    rw [isType]
    exact first.type.trans isRtype
  obtain ⟨sameType, sized⟩ := kind.resolve_left fun five => notCname (same.trans five)
  refine ⟨labels, type, plain.wellFormed, plain.zeroFree, plain.byte, ?_, ?_⟩
  · rw [learned_key, queryName, queryType]
    refine Prod.ext ?_ byteType
    change cString (extracted d w).queryName = _
    rw [extracted, name, cString_wire plain.wellFormed plain.zeroFree]
  refine .address (DnsCache.learned_cname a) (learned_isStatic a) data ?_
    ⟨d, member, _, whole, ?_⟩
  · rcases sized with ⟨rfl, four⟩ | ⟨rfl, sixteen⟩
    · have size : read16 d.buf (12 + (wire labels).length + 4 + 10) = 4 :=
        BitVec.eq_of_toNat_eq (length.trans four)
      have isOne := same.trans sameType
      refine .inl ⟨rfl, ?_⟩
      have ip : (learned a).ip = a.address := by
        rw [learned, if_pos isOne]
      rw [ip, address, extracted, first.address (isType.symm.trans isOne) size, be32_read32]
      rw [four] at isData
      exact isData.symm
    · have size : read16 d.buf (12 + (wire labels).length + 4 + 10) = 16 :=
        BitVec.eq_of_toNat_eq (length.trans sixteen)
      have is28 := same.trans sameType
      have notOne : a.type ≠ 1 := by
        rw [is28]
        decide
      have ipv6 : (learned a).ipv6 = data := by
        rw [learned, if_neg notOne, if_pos is28, addressV6, extracted,
          first.addressV6 (isType.symm.trans is28) size]
        rw [sixteen] at isData
        exact isData
      exact .inr ⟨rfl, ipv6.symm, ipv6 ▸ sixteen⟩
  · intro r inside
    cases List.mem_singleton.mp inside
    rw [← sameType]
    exact List.mem_cons_self

theorem packet_justified {d : Datagram} {w : World}
    (trusty : Trusty d labels type records) {p : Packet} {a : Answer}
    (cached : cachedAnswer (extracted d w) p = some a) (member : d ∈ s.responses)
    (q : DnsCache.Ptr) (n : Nat) (body : SameBody d.buf p.buf) (length : p.len = d.len)
    (isPacket : packet q = p) :
    Justified s packet { learned a with cname := some q, cnameLen := n } := by
  obtain ⟨plain, complete, -⟩ := trusty
  obtain ⟨-, queryName, queryType, -⟩ := cachedAnswer_some cached
  obtain ⟨name, byteType⟩ := verify_question plain.question plain.short w.old
  refine ⟨labels, type, plain.wellFormed, plain.zeroFree, plain.byte, ?_, ?_⟩
  · refine (learned_key a).trans ?_
    rw [queryName, queryType]
    refine Prod.ext ?_ byteType
    change cString (extracted d w).queryName = _
    rw [extracted, name, cString_wire plain.wellFormed plain.zeroFree]
  · refine .packet (learned_isStatic a) q rfl d member records complete ?_ ?_
    · rw [isPacket]
      exact body
    · rw [isPacket]
      exact length

theorem madeStatic_justified {host : Host} (made : DnsCache.MadeStatic host e)
    (member : host ∈ s.hosts) (named : HostNamed host.name labels) :
    Justified s packet e := by
  refine ⟨labels, 1, named.wellFormed, named.zeroFree, by decide, ?_,
    .host made.cname rfl made.isStatic (.inl ⟨host, member, named, made.ip.symm⟩)⟩
  rw [made.key, Host.key, named.realStaticName]
  rfl

end Sources

section Replies

/-- The entry that a query is answered with, if it is answered from the cache. -/
def Found (s : State) (d : Datagram) (w : World) : Prop :=
  ∃ p ∈ s.proxy.cache.live, (s.proxy.cache.entry p).key =
    (lookupName s.proxy.config (extracted d w).queryName, (extracted d w).queryType)

/-- What the runs are asked for: responses that can be cached are complete and have an answer
of the type that was asked for, or a CNAME one; queries that find an entry have one question,
which can be told by what is extracted of it, and find it under their own name; and configured
hosts have names that messages can have, and not those of entries with packets. -/
def Proper (s : State) : Op → Prop
  | .receive d w =>
    (fromServer s.proxy.config d = true → Cacheable (extracted d w) →
      ∃ labels type records, Trusty d labels type records) ∧
    (IsQuery s d → Found s d w → ∃ labels type, Plain d.buf d.len labels type ∧
      lookupName s.proxy.config (extracted d w).queryName = prefixed labels)
  | .updateStatic hosts => NoCname s (.updateStatic hosts) ∧
    ∀ host ∈ hosts, host.1.name ≠ [] → ∃ labels, HostNamed host.1.name labels
  | _ => True

/-- The reply has the id and the question of the query, is complete, and says what a
configured host or a response to the question says. -/
def Answers (s : State) (d : Datagram) (message : Message) : Prop :=
  read16 message.buf 0 = read16 d.buf 0 ∧ message.ip = d.ip ∧ message.port = d.port ∧
  ∃ labels type records, HasQuestions d.buf d.len [(labels, type)] ∧
    Complete message.buf message.len [(labels, type)] records ∧
    ((type = 1 ∧ ∃ ip, records = [(1, be32 ip)] ∧
      (FromHost s.hosts labels ip ∨ FromHost s.stale labels ip)) ∨
    FromResponse s.responses labels type records)

/-- The step succeeds, and a reply from the cache answers the query. -/
def Replied (s : State) : Op → Prop
  | .receive d w => ∃ m effect, exec s.proxy (.receive d w) = .ok (m, effect) ∧
      ∀ message, effect = .reply message → Answers s d message
  | op => ∃ m, exec s.proxy op = .ok (m, .nothing)

variable {s : State} {op : Op} {act inact : List DnsRequests.Ptr} {d : Datagram} {w : World}

theorem Proper.noCname (proper : Proper s op) : NoCname s op := by
  cases op with
  | updateStatic hosts => exact proper.1
  | receive | timer | clear | configure => trivial

theorem cacheReply_found {m : Cache} (shape : Shape m) {name : List Byte} {type : Byte}
    {dc : Entry} {packet : Option Packet}
    (found : cacheReply m name type = .ok (some (dc, packet))) :
    ∃ p ∈ m.live, m.entry p = dc ∧ dc.key = (name, type) ∧
      packet = dc.cname.map m.packet := by
  obtain ⟨r, searched, isEntry⟩ := shape.find name type
  simp only [cacheReply, searched, ok_bind] at found
  cases r with
  | none => cases found
  | some p =>
    obtain ⟨used, key⟩ := (isEntry p).mp rfl
    dsimp only at found
    cases cname : (m.entry p).cname with
    | none =>
      simp only [cname] at found
      cases found
      exact ⟨p, used, rfl, key, by rw [cname]; rfl⟩
    | some q =>
      simp only [cname, access] at found
      by_cases inUse : q ∈ m.packets
      · rw [if_pos inUse] at found
        cases found
        exact ⟨p, used, rfl, key, by rw [cname]; rfl⟩
      · rw [if_neg inUse] at found
        cases found

theorem build_answers {packet : DnsCache.Ptr → Packet} {dc : Entry} {labels : List Label}
    {type : BitVec 16} (wellFormed : WellFormed labels) (byte : type < 256)
    (key : dc.key = (prefixed labels, type.setWidth 8)) (source : Source s packet dc labels type)
    (out : Buffer) (tid : BitVec 16) :
    let built := dnspktBuild out dc (dc.cname.map packet) tid
    read16 built.1 0 = tid ∧ ∃ records, Complete built.1 built.2 [(labels, type)] records ∧
      ((type = 1 ∧ ∃ ip, records = [(1, be32 ip)] ∧
        (FromHost s.hosts labels ip ∨ FromHost s.stale labels ip)) ∨
      FromResponse s.responses labels type records) := by
  have name : dc.name = prefixed labels := congrArg Prod.fst key
  have isType : dc.type.setWidth 16 = type := by
    rw [show dc.type = type.setWidth 8 from congrArg Prod.snd key]
    have less : type.toNat < 256 := byte
    refine BitVec.eq_of_toNat_eq ?_
    rw [BitVec.toNat_setWidth, BitVec.toNat_setWidth]
    omega
  have addressed {data : List Byte} (isData : IsAddress dc type data) (noCname : dc.cname = none) :
      let built := dnspktBuild out dc (dc.cname.map packet) tid
      read16 built.1 0 = tid ∧ Complete built.1 built.2 [(labels, type)] [(type, data)] := by
    have address : (dc.type = 1 ∧ data = be32 dc.ip) ∨
        (dc.type = 28 ∧ data = dc.ipv6 ∧ dc.ipv6.length = 16) := by
      have small : dc.type = type.setWidth 8 := congrArg Prod.snd key
      rcases isData with ⟨rfl, rest⟩ | ⟨rfl, rest⟩
      · exact .inl ⟨small, rest⟩
      · exact .inr ⟨small, rest⟩
    have short : data.length < 65536 := by
      rcases isData with ⟨-, rfl⟩ | ⟨-, rfl, size⟩
      · rw [length_be32]
        decide
      · rw [size]
        decide
    rw [noCname, Option.map_none, dnspktBuild_eq out dc tid address]
    have complete := reply_complete out tid wellFormed name isType short
    exact complete
  cases source with
  | host cname isOne isStatic ip =>
    obtain ⟨sameTid, complete⟩ := addressed (.inl ⟨isOne, rfl⟩) cname
    refine ⟨sameTid, _, complete, .inl ⟨isOne, dc.ip, by rw [isOne], ?_⟩⟩
    exact ip.imp id fun both => both.2
  | address cname isStatic data isData told =>
    obtain ⟨sameTid, complete⟩ := addressed isData cname
    exact ⟨sameTid, _, complete, .inr told⟩
  | packet isStatic q cname d member records complete body length =>
    rw [cname]
    refine ⟨setTid_tid _ _, records, ?_, .inr ⟨d, member, records, complete, fun r h => h⟩⟩
    have same : SameBody d.buf (setTid (packet q).buf tid) := fun i behind =>
      (setTid_body (packet q).buf tid i behind).trans (body i behind)
    change Complete _ (packet q).len _ _
    rw [length]
    exact same.complete complete

theorem reply_answers (sound : Sound s.proxy.cache) (justified : AllJustified s)
    (proper : Proper s (.receive d w)) (isQuery : IsQuery s d) {dc : Entry}
    {packet : Option Packet} (found : cacheReply s.proxy.cache
      (lookupName s.proxy.config (extracted d w).queryName) (extracted d w).queryType =
        .ok (some (dc, packet))) (sock : Nat) :
    Answers s d
      { sock := sock, ip := d.ip, port := d.port
        buf := (dnspktBuild w.out dc packet (read16 d.buf 0)).1
        len := (dnspktBuild w.out dc packet (read16 d.buf 0)).2 } := by
  obtain ⟨p, used, rfl, key, rfl⟩ := cacheReply_found sound.shape found
  obtain ⟨labels, type, wellFormed, zeroFree, byte, named, source⟩ := justified p used
  obtain ⟨labels', type', plain, own⟩ := proper.2 isQuery ⟨p, used, key⟩
  rw [named, own, Prod.mk.injEq] at key
  obtain ⟨-, isType⟩ := verify_question plain.question plain.short w.old
  cases prefixed_injective wellFormed plain.wellFormed key.1
  cases setWidth_byte_inj byte plain.byte (key.2.trans isType)
  obtain ⟨sameTid, records, complete, from'⟩ := build_answers wellFormed byte named source w.out
    (read16 d.buf 0)
  exact ⟨sameTid, rfl, rfl, labels, type, records, plain.question, complete, from'⟩

end Replies

section Runs

variable {s s' : State} {op : DnsProxy.Op} {act inact : List DnsRequests.Ptr} {d : Datagram}
  {w : World}

theorem AllJustified.keep (justified : AllJustified s)
    (cache : s'.proxy.cache = s.proxy.cache) (more : ∀ d ∈ s.responses, d ∈ s'.responses)
    (hosts : s'.hosts = s.hosts) (stale : s'.stale = s.stale) : AllJustified s' := by
  intro p used
  rw [cache] at used ⊢
  refine (justified p used).transfer ⟨_, _, rfl⟩ more (fun _ _ => rfl) fun _ labels ip => ?_
  rw [hosts, stale]
  exact ip

theorem responses_more (s : State) (m : Proxy) (effect : Effect) :
    ∀ r ∈ s.responses, r ∈ (s.after (.receive d w) m effect).responses := by
  intro r member
  change r ∈ if fromServer s.proxy.config d then d :: s.responses else s.responses
  split_ifs
  · exact List.mem_cons_of_mem d member
  · exact member

theorem inserted_justified {c : Cache} {p : DnsCache.Ptr} {e : Entry}
    {packets : List DnsCache.Ptr} {packet : DnsCache.Ptr → Packet}
    (isCache : s'.proxy.cache = DnsCache.inserted c p e packets packet)
    (new : Justified s' packet e)
    (old : ∀ q ∈ c.live, Justified s' packet (c.entry q)) : AllJustified s' := by
  intro q used
  rw [isCache] at used ⊢
  change Justified s' packet (Function.update c.entry p e q)
  by_cases same : q = p
  · rw [same, Function.update_self]
    exact new
  · rw [Function.update_of_ne same]
    exact old q ((List.mem_cons.mp used).resolve_left same)

variable {cache : Cache} {m : Proxy}

theorem inserts_justified (sound : Sound s.proxy.cache) (justified : AllJustified s)
    (proper : Proper s (.receive d w)) (server : fromServer s.proxy.config d = true)
    {p : Packet} (body : SameBody d.buf p.buf) (length : p.len = d.len) {answer : Answer}
    (cached : cachedAnswer (extracted d w) p = some answer)
    {block packetBlock : Option DnsCache.Ptr}
    (freshPacket : DnsCache.FreshBlock s.proxy.cache.packets packetBlock)
    (inserts : Inserts s.proxy.cache answer block packetBlock cache)
    (isCache : m.cache = cache) (effect : Effect) :
    AllJustified (s.after (.receive d w) m effect) := by
  obtain ⟨cacheable, -, -, -, -, -, isPacket⟩ := cachedAnswer_some cached
  obtain ⟨labels, type, records, trusty⟩ := proper.1 server cacheable
  have member : d ∈ (s.after (.receive d w) m effect).responses := by
    change d ∈ if fromServer s.proxy.config d then d :: s.responses else s.responses
    rw [if_pos server]
    exact List.mem_cons_self
  have old {packet : DnsCache.Ptr → Packet} {q : DnsCache.Ptr} (used : q ∈ s.proxy.cache.live)
      (same : ∀ r, (s.proxy.cache.entry q).cname = some r → packet r = s.proxy.cache.packet r) :
      Justified (s.after (.receive d w) m effect) packet (s.proxy.cache.entry q) :=
    (justified q used).transfer ⟨_, _, rfl⟩ (responses_more s m effect) same fun _ _ ip => ip
  cases inserts with
  | found =>
    exact justified.keep isCache (responses_more s m effect) rfl rfl
  | noMemory =>
    exact justified.keep isCache (responses_more s m effect) rfl rfl
  | plain b malloc notCname absent =>
    exact inserted_justified isCache (learned_justified trusty cached notCname member)
      fun q used => old used fun _ _ => rfl
  | cname b r malloc mallocPacket isCname absent =>
    refine inserted_justified isCache ?_ fun q used => old used fun r' cname => ?_
    · exact packet_justified trusty cached member r _ body length
        ((Function.update_self ..).trans isPacket)
    · refine Function.update_of_ne ?_ _ _
      rintro rfl
      exact freshPacket _ mallocPacket (sound.owned.used q used _ cname)

theorem receive_justified (linked : Linked s act inact) (justified : AllJustified s)
    (allowed : Allowed s (.receive d w)) (proper : Proper s (.receive d w))
    {effect : Effect} (receives : Receives s.proxy act inact d w (m, effect)) :
    AllJustified (s.after (.receive d w) m effect) ∧
      ∀ message, effect = .reply message → Answers s d message := by
  have keep (m : Proxy) (effect : Effect) (cache : m.cache = s.proxy.cache) :
      AllJustified (s.after (.receive d w) m effect) :=
    justified.keep cache (responses_more s m effect) rfl rfl
  cases receives with
  | dropped => exact ⟨keep _ _ rfl, fun _ impossible => by cases impossible⟩
  | server delivered _ serves =>
    cases serves with
    | ignored => exact ⟨keep _ _ rfl, fun _ impossible => by cases impossible⟩
    | forwarded p member fits sends requests cache pool req cached =>
      refine ⟨?_, fun _ impossible => by cases impossible⟩
      rcases cached with ⟨-, same⟩ | ⟨answer, isAnswer, inserts⟩
      · exact keep _ _ same
      · exact inserts_justified linked.sound justified proper delivered.fromServer
          (setTid_body d.buf _) rfl isAnswer allowed.2.2 inserts rfl _
  | client other sock _ asks =>
    cases asks with
    | nothing => exact ⟨keep _ _ rfl, fun _ impossible => by cases impossible⟩
    | reply lastServer1 rateLimit dc packet type found =>
      refine ⟨keep _ _ rfl, fun message isReply => ?_⟩
      cases isReply
      exact reply_answers linked.sound justified proper ⟨other, sock⟩ found _
    | asked => exact ⟨keep _ _ rfl, fun _ impossible => by cases impossible⟩

theorem update_justified (justified : AllJustified s)
    {hosts : List (Host × Option DnsCache.Ptr)}
    (named : ∀ host ∈ hosts, host.1.name ≠ [] → ∃ labels, HostNamed host.1.name labels)
    {t : Cache} (same : Same s.proxy.cache t)
    (unmarked : ∀ p ∈ t.live, DnsCache.Unmarked (t.entry p))
    (adds : Adds (hosts.map (·.1)) t cache) (isCache : m.cache = cache)
    (effect : Effect) : AllJustified (s.after (.updateStatic hosts) m effect) := by
  intro p used
  change p ∈ m.cache.live at used
  change Justified _ m.cache.packet (m.cache.entry p)
  rw [isCache] at used ⊢
  rcases adds.entry p used with ⟨old, unchanged⟩ | ⟨host, member, isNamed, made⟩
  · rw [unchanged, adds.packet, same.fewer.packet]
    refine (justified p (same.fewer.live p old)).transfer (same.fewer.entry p old)
      (fun _ h => h) (fun _ _ => rfl) fun _ labels ip => .inr ⟨unmarked p old, ?_⟩
    obtain ⟨host, member, rest⟩ | ⟨-, host, member, rest⟩ := ip
    · exact ⟨host, List.mem_append_left _ member, rest⟩
    · exact ⟨host, List.mem_append_right _ member, rest⟩
  · obtain ⟨pair, inside, rfl⟩ := List.mem_map.mp member
    obtain ⟨labels, isHost⟩ := named pair inside isNamed
    exact madeStatic_justified made member isHost

theorem aged_justified (justified : AllJustified s) {op : DnsProxy.Op}
    (aged : Aged s.proxy.cache cache) (isCache : m.cache = cache)
    (effect : Effect) (more : (s.after op m effect).responses = s.responses)
    (hosts : (s.after op m effect).hosts = s.hosts)
    (stale : (s.after op m effect).stale = s.stale ∨
      ∀ p ∈ cache.live, DnsCache.StaticMarked (cache.entry p)) :
    AllJustified (s.after op m effect) := by
  intro p used
  change p ∈ m.cache.live at used
  change Justified _ m.cache.packet (m.cache.entry p)
  rw [isCache] at used ⊢
  rw [aged.1.packet]
  refine (justified p (aged.1.live p used)).transfer (aged.1.entry p used)
    (fun d member => more ▸ member) (fun _ _ => rfl) fun isStatic labels ip => ?_
  rw [hosts, aged.2 p used]
  rcases stale with same | marked
  · rw [same]
    exact ip
  · refine .inl (ip.resolve_right fun both => ?_)
    have mark := marked p used ((aged.1.isStatic used).trans isStatic)
    rw [aged.2 p used, both.1] at mark
    cases mark

theorem step_replied (linked : Linked s act inact) (justified : AllJustified s)
    (allowed : Allowed s op) (proper : Proper s op) :
    Replied s op ∧ ∀ s', step s op = .ok s' → AllJustified s' := by
  have after {m : Proxy} {effect : Effect} (executed : exec s.proxy op = .ok (m, effect))
      (all : AllJustified (s.after op m effect)) :
      ∀ s', step s op = .ok s' → AllJustified s' := by
    intro s' done
    simp only [step, executed, ok_bind, pure_eq_ok] at done
    cases done
    exact all
  cases op with
  | receive d w =>
    obtain ⟨⟨m, effect⟩, received, receives⟩ := rxPacket_cases (d := d) linked.pool linked.differ
      linked.sound allowed.1 allowed.2.1
    obtain ⟨all, answers⟩ := receive_justified linked justified allowed proper receives
    exact ⟨⟨m, effect, received, answers⟩, after received all⟩
  | timer =>
    obtain ⟨cache, timed, -, -, aged, marked⟩ :=
      DnsCache.cacheTimer_spec linked.sound.shape linked.sound.owned
    obtain ⟨requests, ticked, -⟩ := DnsRequests.rqTimer_spec linked.pool
    have executed : exec s.proxy .timer = .ok
        ({ s.proxy with cache := cache, requests := requests, rateLimit := 0 }, .nothing) := by
      simp only [exec, tick, timed, ticked, ok_bind, pure_eq_ok]
    exact ⟨⟨_, executed⟩, after executed
      (aged_justified justified aged rfl _ rfl rfl (.inr marked))⟩
  | updateStatic hosts =>
    obtain ⟨t, cache, updated, -, -, same, unmarked, adds⟩ := DnsCache.cacheUpdateStatic_spec
      linked.sound.shape linked.sound.owned allowed proper.1
    have executed : exec s.proxy (.updateStatic hosts) =
        .ok ({ s.proxy with cache := cache }, .nothing) := by
      simp only [exec, updated, ok_bind, pure_eq_ok]
    exact ⟨⟨_, executed⟩, after executed
      (update_justified justified proper.2 same unmarked adds rfl _)⟩
  | clear =>
    obtain ⟨cache, cleared, -, -, aged⟩ :=
      DnsCache.cacheClear_spec linked.sound.shape linked.sound.owned
    have executed : exec s.proxy .clear = .ok ({ s.proxy with cache := cache }, .nothing) := by
      simp only [exec, cleared, ok_bind, pure_eq_ok]
    exact ⟨⟨_, executed⟩, after executed
      (aged_justified justified aged rfl _ rfl rfl (.inl rfl))⟩
  | configure config =>
    have executed : exec s.proxy (.configure config) =
        .ok ({ s.proxy with config := config }, .nothing) := rfl
    exact ⟨⟨_, executed⟩, after executed (justified.keep rfl (fun _ h => h) rfl rfl)⟩

end Runs

section Demo

/-- A static update with the host `a.b`. -/
def demoUpdate : DnsProxy.Op :=
  .updateStatic [({ name := [0x61, 0x2e, 0x62], ip := 0x0a0a0a0a }, some 0)]

/-- A client asks for `a.b`, with a type below 512. -/
def demoAsk (high low : Byte) : Datagram :=
  demoDatagram 3 0x0a000001
    [0, 1, 1, 0, 0, 1, 0, 0, 0, 0, 0, 0, 1, 0x61, 1, 0x62, 0, high, low, 0, 1]

theorem demoAsk_plain : Plain (demoAsk 0 1).buf 21 [[0x61], [0x62]] 1 := by
  have type : read16 (demoAsk 0 1).buf 17 = 1 := by
    rw [read16]
    change (0 : Byte) ++ (1 : Byte) = (1 : BitVec 16)
    decide
  have count : read16 (demoAsk 0 1).buf 4 = 1 := by
    rw [read16]
    change (0 : Byte) ++ (1 : Byte) = (1 : BitVec 16)
    decide
  refine ⟨⟨by rw [count]; rfl, 21, ⟨?_, rfl, type, rfl⟩, Nat.le_refl _⟩, by decide, ?_, by decide⟩
  · unfold WellFormed
    decide
  · unfold ZeroFree
    decide

/-- Whether the query is answered with a question of another type. -/
def retyped (s : State) (d : Datagram) (w : World) : Bool :=
  match exec s.proxy (.receive d w) with
  | .ok (_, .reply message) => read16 message.buf 17 ≠ read16 d.buf 17
  | _ => false

theorem not_replied_of_retyped {s : State} {w : World}
    (wrong : retyped s (demoAsk 1 1) w = true) : ¬ Replied s (.receive (demoAsk 1 1) w) := by
  rintro ⟨m, effect, executed, answers⟩
  rw [retyped, executed] at wrong
  cases effect with
  | reply message =>
    obtain ⟨-, -, -, labels, type, records, question, complete, -⟩ := answers message rfl
    obtain ⟨-, stop, ⟨wellFormed, name, isType, isStop⟩, fits⟩ := question
    obtain ⟨-, -, middle, -, ⟨-, -, isType', -⟩, -⟩ := complete
    change stop ≤ 21 at fits
    change 12 + (wire labels).length + 4 = stop at isStop
    have walked : getNameLen (demoAsk 1 1).buf 12 21 = (wire labels).length :=
      (getNameLen_eq_iff (by decide) (Nat.ne_of_gt (length_wire_pos labels))).mpr
        ⟨labels, wellFormed, rfl, name, by rw [maxDomainName]; omega, by omega⟩
    have five : getNameLen (demoAsk 1 1).buf 12 21 = 5 := by decide +kernel
    rw [← walked, five] at isType isType'
    exact absurd (isType'.trans isType.symm) (of_decide_eq_true wrong)
  | nothing => cases wrong
  | asked => cases wrong
  | answered => cases wrong

end Demo

end CachedAnswers
