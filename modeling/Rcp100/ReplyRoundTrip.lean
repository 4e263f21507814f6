import Rcp100.ByteBuffer
import Rcp100.CachedAnswers
import Mathlib.Algebra.Ring.Nat

/-!
# Replies that are built and read

The packet that is built from an entry of the cache is read by the parser as the entry: the
same name, types, time and address, in as many bytes as were written.
-/

namespace ReplyRoundTrip

open DnsPacket DnsMessages DnsProxy CachedAnswers
open DnsCache (Entry)
open ByteBuffer (be16 be32 length_be16 length_be32)

section Fields

variable {buf : Buffer} {ptr len : Nat} {labels : List Label} {type : BitVec 16}
  {ttl : BitVec 32} {data : List Byte}

theorem read32_of_bytes {x : BitVec 32} (here : bytes buf ptr 4 = be32 x) :
    read32 buf ptr = x := by
  rw [show 4 = 2 + 2 from rfl, bytes_add, be32] at here
  obtain ⟨high, low⟩ := List.append_inj here (by rw [length_bytes]; rfl)
  rw [read32, read16_of_bytes high, read16_of_bytes low]
  exact ByteBuffer.append_extract (m := 16) (n := 16) x

/-- A message with one question and one answer, and where it has them. -/
structure ReplyAt (buf : Buffer) (labels : List Label) (type : BitVec 16) (ttl : BitVec 32)
    (data : List Byte) : Prop where
  queries : read16 buf 4 = 1
  answers : read16 buf 6 = 1
  name : bytes buf 12 (wire labels).length = wire labels
  queryType : read16 buf (12 + (wire labels).length) = type
  pointer : buf (12 + (wire labels).length + 4) = 0xc0 ∧
    buf (12 + (wire labels).length + 5) = 0x0c
  type : read16 buf (12 + (wire labels).length + 6) = type
  dclass : read16 buf (12 + (wire labels).length + 8) = 1
  ttl : read32 buf (12 + (wire labels).length + 10) = ttl
  size : read16 buf (12 + (wire labels).length + 14) = BitVec.ofNat 16 data.length
  data : bytes buf (12 + (wire labels).length + 16) data.length = data

theorem replyAt_built (out : Buffer) (tid : BitVec 16) {dc : Entry}
    (name : dc.name = prefixed labels) :
    ReplyAt (writeBytes out 0 (replyHead tid dc ++ replyTail dc data)) labels
      (dc.type.setWidth 16) dc.ttl data := by
  have tail : replyTail dc data = wire labels ++ be16 (dc.type.setWidth 16) ++ be16 1 ++
      be16 0xc00c ++ be16 (dc.type.setWidth 16) ++ be16 1 ++ be32 dc.ttl ++
        be16 (BitVec.ofNat 16 data.length) ++ data := by
    rw [replyTail, name, wire_eq]
  have head (front back : List Byte) (n : BitVec 16) (pos : Nat)
      (split : replyHead tid dc = front ++ be16 n ++ back) (isPos : pos = front.length) :
      read16 (writeBytes out 0 (replyHead tid dc ++ replyTail dc data)) pos = n := by
    refine read16_of_bytes (bytes_part front (be16 n) (back ++ replyTail dc data) ?_ ?_ rfl)
    · rw [split]
      simp only [List.append_assoc]
    · rw [isPos, Nat.zero_add]
  -- a part of the question or the answer, `o` bytes behind the name
  have behind (front l back : List Byte) (o : Nat)
      (split : replyTail dc data = wire labels ++ front ++ l ++ back) (isPos : o = front.length) :
      bytes (writeBytes out 0 (replyHead tid dc ++ replyTail dc data))
        (12 + (wire labels).length + o) l.length = l := by
    refine bytes_part (replyHead tid dc ++ (wire labels ++ front)) l back ?_ ?_ rfl
    · rw [split]
      simp only [List.append_assoc]
    · rw [isPos, List.length_append, List.length_append, length_replyHead, Nat.zero_add,
        Nat.add_assoc]
  refine ⟨?_, ?_, ?_, ?_, ?_, ?_, ?_, ?_, ?_, ?_⟩
  · exact head (be16 tid ++ be16 dc.flags) (be16 1 ++ be16 0 ++ be16 0) 1 4 rfl rfl
  · exact head (be16 tid ++ be16 dc.flags ++ be16 1) (be16 0 ++ be16 0) 1 6 rfl rfl
  · refine bytes_part (replyHead tid dc) (wire labels) (be16 (dc.type.setWidth 16) ++ be16 1 ++
      be16 0xc00c ++ be16 (dc.type.setWidth 16) ++ be16 1 ++ be32 dc.ttl ++
        be16 (BitVec.ofNat 16 data.length) ++ data) ?_ rfl rfl
    rw [tail]
    simp only [List.append_assoc]
  · refine read16_of_bytes (behind [] (be16 (dc.type.setWidth 16)) (be16 1 ++ be16 0xc00c ++
      be16 (dc.type.setWidth 16) ++ be16 1 ++ be32 dc.ttl ++
        be16 (BitVec.ofNat 16 data.length) ++ data) 0 ?_ rfl)
    rw [tail]
    simp only [List.append_assoc, List.nil_append]
  · have pair := behind (be16 (dc.type.setWidth 16) ++ be16 1) (be16 0xc00c)
      (be16 (dc.type.setWidth 16) ++ be16 1 ++ be32 dc.ttl ++
        be16 (BitVec.ofNat 16 data.length) ++ data) 4
      (by rw [tail]; simp only [List.append_assoc]) rfl
    obtain ⟨first, second⟩ := List.cons.inj pair
    exact ⟨first, (List.cons.inj second).1⟩
  · refine read16_of_bytes (behind (be16 (dc.type.setWidth 16) ++ be16 1 ++ be16 0xc00c)
      (be16 (dc.type.setWidth 16)) (be16 1 ++ be32 dc.ttl ++
        be16 (BitVec.ofNat 16 data.length) ++ data) 6 ?_ rfl)
    rw [tail]
    simp only [List.append_assoc]
  · refine read16_of_bytes (behind (be16 (dc.type.setWidth 16) ++ be16 1 ++ be16 0xc00c ++
      be16 (dc.type.setWidth 16)) (be16 1) (be32 dc.ttl ++
        be16 (BitVec.ofNat 16 data.length) ++ data) 8 ?_ rfl)
    rw [tail]
    simp only [List.append_assoc]
  · refine read32_of_bytes (behind (be16 (dc.type.setWidth 16) ++ be16 1 ++ be16 0xc00c ++
      be16 (dc.type.setWidth 16) ++ be16 1) (be32 dc.ttl)
        (be16 (BitVec.ofNat 16 data.length) ++ data) 10 ?_ rfl)
    rw [tail]
    simp only [List.append_assoc]
  · refine read16_of_bytes (behind (be16 (dc.type.setWidth 16) ++ be16 1 ++ be16 0xc00c ++
      be16 (dc.type.setWidth 16) ++ be16 1 ++ be32 dc.ttl)
        (be16 (BitVec.ofNat 16 data.length)) data 14 ?_ rfl)
    rw [tail]
    simp only [List.append_assoc]
  · refine behind (be16 (dc.type.setWidth 16) ++ be16 1 ++ be16 0xc00c ++
      be16 (dc.type.setWidth 16) ++ be16 1 ++ be32 dc.ttl ++
        be16 (BitVec.ofNat 16 data.length)) data [] 16 ?_ rfl
    rw [tail]
    simp only [List.append_assoc, List.append_nil]

theorem verify_a (reply : ReplyAt buf labels 1 ttl data) (wellFormed : WellFormed labels)
    (short : (wire labels).length ≤ maxDomainName) (four : data.length = 4)
    (inside : 12 + (wire labels).length + 20 ≤ len) (old : Fields) :
    dnspktVerify buf len old = (false, { old with
      len := len
      pktType := if read16 buf 2 &&& 0x8000 ≠ 0 then 1 else 0
      errorCode := (read16 buf 2 &&& 0x000f).setWidth 8
      flags := read16 buf 2
      queryName := wire labels
      queryType := 1
      type := 1
      dclass := 1
      ttl := ttl
      address := read32 buf (12 + (wire labels).length + 16) }) := by
  have nameLen : getNameLen buf 12 len = (wire labels).length :=
    (getNameLen_eq_iff (by omega) (Nat.ne_of_gt (length_wire_pos labels))).mpr
      ⟨labels, wellFormed, rfl, reply.name, short, by omega⟩
  have answers : (read16 buf 6).toNat ≠ 0 := by
    rw [reply.answers]
    decide
  have chunk : chkPktLen len (12 + (wire labels).length + 4 + 6 + 10) = false :=
    decide_eq_false (by omega)
  have size := reply.size
  rw [four] at size
  have pointer := reply.pointer
  have queryType := reply.queryType
  have type := reply.type
  have dclass := reply.dclass
  have isTtl := reply.ttl
  rw [dnspktVerify, if_neg (by omega), readBody, if_neg (not_not.mpr reply.queries)]
  simp only [nameLen, Nat.ne_of_gt (length_wire_pos labels), answers, if_false, reply.name]
  rw [readAnswer, if_neg (not_not.mpr pointer)]
  simp only [type, dclass, ne_eq, not_true_eq_false, if_false, readA, size, if_true, chunk,
    resetFields, queryType, isTtl, show ¬ (1 : BitVec 16) = 5 by decide]
  rfl

end Fields

section RoundTrip

variable {dc : Entry} {labels : List Label}

/-- An entry with an address and a valid name; an IPv6 address is an array of 16 bytes. -/
structure ValidEntry (dc : Entry) (labels : List Label) : Prop where
  wellFormed : WellFormed labels
  zeroFree : ZeroFree labels
  short : (wire labels).length ≤ maxDomainName
  name : dc.name = prefixed labels
  type : dc.type = 1 ∨ dc.type = 28
  ttl : dc.ttl.toNat < 2 ^ 31
  ipv6 : dc.ipv6.length = 16

/-- The bytes of the packet are those that were written: what is behind them in the memory is
left, and nothing of what was there before is among them. -/
def Writes (build : Buffer → Buffer × Nat) : Prop :=
  ∃ len, ∀ out, (build out).2 = len ∧ (∀ i, len ≤ i → (build out).1 i = out i) ∧
    ∀ out', ∀ i < len, (build out).1 i = (build out').1 i

/-- What is extracted is what the entry has. -/
structure Extracts (dc : Entry) (labels : List Label) (f : Fields) : Prop where
  name : f.queryName = wire labels
  queryType : f.queryType = dc.type
  type : f.type = dc.type.setWidth 16
  ttl : f.ttl.toInt = dc.ttl.toNat
  address : dc.type = 1 → f.address = dc.ip
  addressV6 : dc.type = 28 → f.addressV6 = dc.ipv6

theorem writeBytes_inside {buf buf' : Buffer} {ptr i : Nat} (l : List Byte)
    (inside : ptr ≤ i ∧ i < ptr + l.length) : writeBytes buf ptr l i = writeBytes buf' ptr l i := by
  obtain ⟨k, rfl⟩ := Nat.exists_eq_add_of_le inside.1
  have same : bytes (writeBytes buf ptr l) ptr l.length =
      bytes (writeBytes buf' ptr l) ptr l.length :=
    (bytes_writeBytes l).trans (bytes_writeBytes l).symm
  exact List.map_inj_left.mp same k (List.mem_range.mpr (by omega))

theorem writeBytes_after {buf : Buffer} {ptr i : Nat} (l : List Byte) (after : ptr + l.length ≤ i) :
    writeBytes buf ptr l i = buf i := by
  induction l generalizing buf ptr with
  | nil => rfl
  | cons b l ih =>
    rw [List.length_cons] at after
    rw [writeBytes, ih (by omega), write8, Function.update_of_ne (by omega)]

/-- The data of the answer that is built. -/
def answerData (dc : Entry) : List Byte := if dc.type = 1 then be32 dc.ip else dc.ipv6

theorem ValidEntry.address (valid : ValidEntry dc labels) :
    (dc.type = 1 ∧ answerData dc = be32 dc.ip) ∨
      (dc.type = 28 ∧ answerData dc = dc.ipv6 ∧ dc.ipv6.length = 16) := by
  rcases valid.type with type | type
  · exact .inl ⟨type, if_pos type⟩
  · refine .inr ⟨type, if_neg ?_, valid.ipv6⟩
    rw [type]
    decide

theorem ValidEntry.size (valid : ValidEntry dc labels) :
    12 + (dc.name.length + 1) + 16 + (answerData dc).length =
      12 + (wire labels).length + 16 + (answerData dc).length := by
  rw [valid.name, wire_eq, List.length_append, List.length_singleton]

theorem length_reply (dc : Entry) (tid : BitVec 16) :
    (replyHead tid dc ++ replyTail dc (answerData dc)).length =
      12 + (dc.name.length + 1) + 16 + (answerData dc).length := by
  simp only [replyTail, List.length_append, length_replyHead, length_be16, length_be32,
    List.length_singleton]
  omega

theorem ValidEntry.writes (valid : ValidEntry dc labels) (tid : BitVec 16) :
    Writes fun out => dnspktBuild out dc none tid := by
  have length := length_reply dc tid
  refine ⟨12 + (dc.name.length + 1) + 16 + (answerData dc).length, fun out => ?_⟩
  simp only [dnspktBuild_eq _ dc tid valid.address]
  refine ⟨trivial, fun i behind => writeBytes_after _ (by omega), fun out' i inside => ?_⟩
  exact writeBytes_inside _ ⟨Nat.zero_le i, by omega⟩

theorem toInt_ttl (valid : ValidEntry dc labels) : dc.ttl.toInt = dc.ttl.toNat :=
  BitVec.toInt_eq_toNat_of_lt (by
    have small := valid.ttl
    omega)

/-- What the proxy builds from an entry, it parses: of exactly the bytes that were written. -/
theorem build_verify (dc : Entry) (labels : List Label) (valid : ValidEntry dc labels)
    (tid : BitVec 16) : (Writes fun out => dnspktBuild out dc none tid) ∧ ∀ out old,
      let packet := dnspktBuild out dc none tid
      (dnspktVerify packet.1 packet.2 old).1 = false ∧
        Extracts dc labels (dnspktVerify packet.1 packet.2 old).2 := by
  refine ⟨valid.writes tid, fun out old => ?_⟩
  rw [dnspktBuild_eq out dc tid valid.address, valid.size]
  have reply := @replyAt_built _ (answerData dc) out tid dc valid.name
  have isTtl := toInt_ttl valid
  dsimp only
  rcases valid.address with ⟨type, isData⟩ | ⟨type, isData, size⟩
  · rw [isData] at reply ⊢
    have isType : dc.type.setWidth 16 = 1 := by
      rw [type]
      rfl
    rw [isType] at reply
    rw [verify_a reply valid.wellFormed valid.short rfl (by rw [length_be32]) old]
    refine ⟨rfl, rfl, type.symm, isType.symm, isTtl, fun _ => read32_of_bytes reply.data,
      fun other => ?_⟩
    rw [type] at other
    exact absurd other (by decide)
  · rw [isData] at reply ⊢
    have isType : dc.type.setWidth 16 = 28 := by
      rw [type]
      rfl
    rw [isType] at reply
    have isSize := reply.size
    rw [size] at isSize
    have aaaa : AaaaAt (writeBytes out 0 (replyHead tid dc ++ replyTail dc dc.ipv6)) labels := by
      refine ⟨reply.queries, ?_, valid.wellFormed, reply.name, valid.short, reply.pointer,
        reply.type, reply.dclass, isSize⟩
      rw [reply.answers]
      decide
    have chunk : chkPktLen (12 + (wire labels).length + 16 + dc.ipv6.length)
        (12 + (wire labels).length + 32) = false := decide_eq_false (by omega)
    rw [verify_aaaa aaaa (by omega) (by omega) old, chunk]
    refine ⟨rfl, rfl, ?_, isType.symm, ?_, fun other => ?_, fun _ => ?_⟩
    · change (read16 _ (12 + (wire labels).length)).setWidth 8 = dc.type
      rw [reply.queryType, type]
      rfl
    · change (read32 _ (12 + (wire labels).length + 10)).toInt = _
      rw [reply.ttl]
      exact isTtl
    · rw [type] at other
      exact absurd other (by decide)
    · have data := reply.data
      rw [size] at data
      exact data

/-- An entry for the name `a.b`, with an IPv6 address. -/
def demoEntry : Entry :=
  { DnsCache.zeroEntry with
    name := [1, 0x61, 1, 0x62]
    type := 28
    ttl := 60
    ipv6 := [0xfd, 0, 0, 0, 0, 0, 0, 0, 0, 0, 0, 0, 0, 0, 0, 1] }

theorem build_verify_demo :
    (dnspktVerify (dnspktBuild (fun _ => 0) demoEntry none 7).1
      (dnspktBuild (fun _ => 0) demoEntry none 7).2 demoFields).2.addressV6 = demoEntry.ipv6 := by
  have valid : ValidEntry demoEntry [[0x61], [0x62]] :=
    ⟨demoAsk_plain.wellFormed, demoAsk_plain.zeroFree, by decide, rfl, .inr rfl, by decide, rfl⟩
  have parsed := (build_verify demoEntry [[0x61], [0x62]] valid 7).2 (fun _ => 0) demoFields
  exact parsed.2.addressV6 rfl

end RoundTrip

end ReplyRoundTrip
