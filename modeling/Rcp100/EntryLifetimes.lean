import Rcp100.CacheAging
import Rcp100.ReplyRoundTrip

/-!
# Lifetimes of what is replied from the cache

An entry of an address is aged, and a reply that is built from it says what is left. The packet
of an entry with a CNAME answer is sent as it was received, whatever the entry's age is.
-/

namespace EntryLifetimes

open ChainTable FaultRuns DnsPacket DnsMessages DnsProxy CachedAnswers CacheAging
open DnsCache (Cache Entry Packet Shape Owned Answer FreshBlock Inserts Sound cacheFind cacheReply)
open ByteBuffer (be16 be32 length_be16 length_be32)
open DnsRequests (maxReq)

section Records

variable {buf buf' : Buffer} {len start i T : Nat}

/-- The lifetime in a record of a message, by its number; the records begin at `start`. -/
def Lifetime (buf : Buffer) (len start i T : Nat) : Prop :=
  i < (read16 buf 6).toNat + (read16 buf 8).toNat + (read16 buf 10).toNat ∧
    ∃ front stop size, RecordsAt buf start front stop ∧ front.length = i ∧
      NameAt buf stop size ∧ stop + size + 8 ≤ len ∧ (read32 buf (stop + size + 4)).toNat = T

theorem Lifetime.congr (same : SameBody buf buf') (behind : 2 ≤ start)
    (lifetime : Lifetime buf len start i T) : Lifetime buf' len start i T := by
  obtain ⟨counted, front, stop, size, records, number, name, inside, time⟩ := lifetime
  have later := records.le
  refine ⟨?_, front, stop, size, same.recordsAt behind records, number,
    same.nameAt (by omega) name, inside, ?_⟩
  · rw [same.read16 (by omega), same.read16 (by omega), same.read16 (by omega)]
    exact counted
  · rw [read32, same.read16 (by omega), same.read16 (by omega)]
    exact time

theorem lifetime_first (counted : 0 < (read16 buf 6).toNat) (pointer : buf start = 0xc0)
    (inside : start + 10 ≤ len) : Lifetime buf len start 0 (read32 buf (start + 6)).toNat := by
  refine ⟨by omega, [], start, 2, rfl, rfl, ⟨[], ?_, .inr ⟨rfl, rfl, ?_⟩⟩, inside, rfl⟩
  · exact fun _ member => absurd member List.not_mem_nil
  · change buf (start + 0) &&& 0xc0 = 0xc0
    rw [Nat.add_zero, pointer]
    decide

theorem Lifetime.first (pointer : buf start = 0xc0) (lifetime : Lifetime buf len start 0 T) :
    T = (read32 buf (start + 6)).toNat := by
  obtain ⟨-, front, stop, size, records, number, name, -, time⟩ := lifetime
  cases List.length_eq_zero_iff.mp number
  have here : start = stop := records
  subst here
  cases nameAt_pointer name pointer
  exact time.symm

theorem nameWalk_congr (same : SameBody buf buf') {steps ptr rv : Nat} (behind : 2 ≤ ptr) :
    nameWalk buf' len steps ptr rv = nameWalk buf len steps ptr rv := by
  induction steps generalizing ptr rv with
  | zero => rfl
  | succ steps ih =>
    rw [nameWalk, nameWalk, same ptr behind, ih (by omega)]

/-- Where the records of a message with one question begin. -/
def answersAt (buf : Buffer) (len : Nat) : Nat := 12 + getNameLen buf 12 len + 4

theorem answersAt_congr (same : SameBody buf buf') : answersAt buf' len = answersAt buf len := by
  rw [answersAt, answersAt, getNameLen, getNameLen, nameWalk_congr same (by decide)]

end Records

section Built

variable {dc : Entry} {i T len : Nat}

/-- A reply for an entry without a packet, up to the time of its answer. -/
def builtHead (tid : BitVec 16) (dc : Entry) : List Byte :=
  replyHead tid dc ++ (dc.name ++ [0] ++ be16 (dc.type.setWidth 16) ++ be16 1 ++ be16 0xc00c ++
    be16 (dc.type.setWidth 16) ++ be16 1 ++ be32 dc.ttl)

theorem dnspktBuild_head (out : Buffer) (dc : Entry) (tid : BitVec 16) :
    ∃ rest, (dnspktBuild out dc none tid).1 = writeBytes out 0 (builtHead tid dc ++ rest) := by
  have junction (l rest : List Byte) : writeBytes (writeBytes out 0 (replyHead tid dc ++ l))
      (12 + l.length) rest = writeBytes out 0 (replyHead tid dc ++ (l ++ rest)) := by
    rw [writeBytes_behind _ rest (by rw [List.length_append, length_replyHead, Nat.zero_add]),
      List.append_assoc]
  simp only [dnspktBuild, write16_eq, write32_eq]
  simp (disch := simp only [List.length_append, List.length_singleton, length_be16, length_be32,
    Nat.zero_add, Nat.add_assoc]) only [writeBytes_behind]
  have name := junction (dc.name ++ [0])
  rw [List.length_append, List.length_singleton] at name
  simp only [replyHead] at name
  split_ifs
  · refine ⟨be16 4 ++ be32 dc.ip, (name _).trans ?_⟩
    simp only [builtHead, replyHead, List.append_assoc]
  · refine ⟨be16 16 ++ dc.ipv6, (name _).trans ?_⟩
    simp only [builtHead, replyHead, List.append_assoc]
  · refine ⟨[], (name _).trans ?_⟩
    simp only [builtHead, replyHead, List.append_assoc, List.append_nil]

/-- Where the answer of such a reply is. -/
def builtAt (dc : Entry) : Nat := 12 + (dc.name.length + 1) + 4

/-- The reply announces one record, which has the time of the entry. -/
structure Built (buf : Buffer) (dc : Entry) : Prop where
  answers : read16 buf 6 = 1
  authorities : read16 buf 8 = 0
  additional : read16 buf 10 = 0
  pointer : buf (builtAt dc) = 0xc0
  ttl : read32 buf (builtAt dc + 6) = dc.ttl

theorem dnspktBuild_built (out : Buffer) (dc : Entry) (tid : BitVec 16) :
    Built (dnspktBuild out dc none tid).1 dc := by
  obtain ⟨rest, isBuilt⟩ := dnspktBuild_head out dc tid
  rw [isBuilt]
  have part (front l back : List Byte) (pos : Nat)
      (split : builtHead tid dc = front ++ l ++ back) (isPos : pos = front.length) :
      bytes (writeBytes out 0 (builtHead tid dc ++ rest)) pos l.length = l := by
    refine bytes_part front l (back ++ rest) ?_ ?_ rfl
    · rw [split]
      simp only [List.append_assoc]
    · rw [isPos, Nat.zero_add]
  have tail : builtHead tid dc = be16 tid ++ be16 dc.flags ++ be16 1 ++ be16 1 ++ be16 0 ++
      be16 0 ++ dc.name ++ [0] ++ be16 (dc.type.setWidth 16) ++ be16 1 ++ be16 0xc00c ++
        be16 (dc.type.setWidth 16) ++ be16 1 ++ be32 dc.ttl := by
    simp only [builtHead, replyHead, List.append_assoc]
  have name : builtAt dc = (be16 tid ++ be16 dc.flags ++ be16 1 ++ be16 1 ++ be16 0 ++ be16 0 ++
      dc.name ++ [0] ++ be16 (dc.type.setWidth 16) ++ be16 1).length := by
    simp only [builtAt, List.length_append, length_be16, List.length_singleton]
    omega
  have head (front back : List Byte) (n : BitVec 16) (pos : Nat)
      (split : replyHead tid dc = front ++ be16 n ++ back) (isPos : pos = front.length) :
      read16 (writeBytes out 0 (builtHead tid dc ++ rest)) pos = n := by
    obtain ⟨l, isHead⟩ : ∃ l, builtHead tid dc = replyHead tid dc ++ l := ⟨_, rfl⟩
    refine read16_of_bytes (bytes_part front (be16 n) (back ++ (l ++ rest)) ?_ ?_ rfl)
    · rw [isHead, split]
      simp only [List.append_assoc]
    · rw [isPos, Nat.zero_add]
  refine ⟨?_, ?_, ?_, ?_, ?_⟩
  · exact head (be16 tid ++ be16 dc.flags ++ be16 1) (be16 0 ++ be16 0) 1 6 rfl rfl
  · exact head (be16 tid ++ be16 dc.flags ++ be16 1 ++ be16 1) (be16 0) 0 8 rfl rfl
  · exact head (be16 tid ++ be16 dc.flags ++ be16 1 ++ be16 1 ++ be16 0) [] 0 10 rfl rfl
  · have pair := part _ (be16 0xc00c) (be16 (dc.type.setWidth 16) ++ be16 1 ++ be32 dc.ttl)
      (builtAt dc) (by rw [tail]; simp only [List.append_assoc]) name
    exact (List.cons.inj pair).1
  · refine ReplyRoundTrip.read32_of_bytes (part (be16 tid ++ be16 dc.flags ++ be16 1 ++ be16 1 ++
      be16 0 ++ be16 0 ++ dc.name ++ [0] ++ be16 (dc.type.setWidth 16) ++ be16 1 ++ be16 0xc00c ++
        be16 (dc.type.setWidth 16) ++ be16 1) (be32 dc.ttl) [] (builtAt dc + 6) ?_ ?_)
    · rw [tail, List.append_nil]
    · rw [name]
      simp only [List.length_append, length_be16]

theorem Built.lifetime {buf : Buffer} (built : Built buf dc)
    (lifetime : Lifetime buf len (builtAt dc) i T) : i = 0 ∧ T = dc.ttl.toNat := by
  have counted := lifetime.1
  rw [built.answers, built.authorities, built.additional] at counted
  have first : i = 0 := by
    change i < 1 at counted
    omega
  subst first
  exact ⟨rfl, by rw [lifetime.first built.pointer, built.ttl]⟩

end Built

section Responses

variable {buf : Buffer} {len : Nat}

/-- The first answer of a response that is accepted and worth caching. -/
structure FirstTime (buf : Buffer) (len : Nat) (f : Fields) : Prop where
  counted : 0 < (read16 buf 6).toNat
  pointer : buf (answersAt buf len) = 0xc0
  inside : answersAt buf len + 10 ≤ len
  ttl : f.type ≠ 5 → f.ttl = read32 buf (answersAt buf len + 6)

theorem readAnswer_time {acount : Nat} {f : Fields} (noTtl : f.ttl = 0) (noType : f.type = 0)
    (some : acount ≠ 0) (accepted : (readAnswer buf len acount (answersAt buf len) f).1 = false)
    (cacheable : Cacheable (readAnswer buf len acount (answersAt buf len) f).2) :
    buf (answersAt buf len) = 0xc0 ∧ answersAt buf len + 10 ≤ len ∧
      let g := (readAnswer buf len acount (answersAt buf len) f).2
      g.type ≠ 5 → g.ttl = read32 buf (answersAt buf len + 6) := by
  obtain ⟨pointer, dclass, opened⟩ := readAnswer_opened noTtl noType cacheable
  have worth := cacheable.type
  rw [opened] at accepted worth ⊢
  refine ⟨pointer, ?_⟩
  dsimp only at accepted worth ⊢
  by_cases cname : read16 buf (answersAt buf len + 2) = 5
  · rw [if_pos cname] at accepted ⊢
    refine ⟨?_, fun other => absurd cname other⟩
    -- `parse_cnames` has read the first record
    obtain ⟨acount, rfl⟩ := Nat.exists_eq_add_one_of_ne_zero some
    by_contra short
    have failed : (parseCnames buf len (acount + 1) f.ttl).1 = true := by
      rw [parseCnames]
      dsimp only
      split_ifs
      · rfl
      · rfl
      · have here : ¬ buf (answersAt buf len) &&& 0xc0 ≠ 0xc0 := by
          rw [pointer]
          decide
        rw [← answersAt, cnameRecords, if_neg here, if_neg (not_not.mpr dclass)]
        dsimp only
        rw [if_pos (by omega)]
    rw [failed] at accepted
    cases accepted
  rw [if_neg cname] at accepted worth ⊢
  by_cases ipv4 : read16 buf (answersAt buf len + 2) = 1
  · rw [if_pos ipv4, readA] at accepted ⊢
    dsimp only at accepted ⊢
    split_ifs at accepted ⊢
    · have inside := of_decide_eq_false accepted
      exact ⟨by omega, fun _ => rfl⟩
    · have inside := of_decide_eq_false accepted
      exact ⟨by omega, fun _ => rfl⟩
  rw [if_neg ipv4] at accepted worth ⊢
  by_cases ipv6 : read16 buf (answersAt buf len + 2) = 28
  · rw [if_pos ipv6, readAaaa] at accepted ⊢
    dsimp only at accepted ⊢
    split_ifs at accepted ⊢
    · have inside := of_decide_eq_false accepted
      exact ⟨by omega, fun _ => rfl⟩
    · have inside := of_decide_eq_false accepted
      exact ⟨by omega, fun _ => rfl⟩
  rw [if_neg ipv6] at worth
  exact (worth.elim ipv4 fun other => other.elim ipv6 cname).elim

theorem verify_time (old : Fields) (accepted : (dnspktVerify buf len old).1 = false)
    (cacheable : Cacheable (dnspktVerify buf len old).2) :
    FirstTime buf len (dnspktVerify buf len old).2 := by
  have untyped (f : Fields) (noType : f.type = 0) (worth : Cacheable f) : False := by
    have type := worth.type
    rw [noType] at type
    exact absurd type (by decide)
  rw [dnspktVerify] at accepted cacheable ⊢
  by_cases tiny : len < 12
  · rw [if_pos tiny] at accepted
    cases accepted
  rw [if_neg tiny] at accepted cacheable ⊢
  dsimp only at accepted cacheable ⊢
  rw [readBody] at accepted cacheable ⊢
  by_cases one : read16 buf 4 ≠ 1
  · rw [if_pos one] at cacheable
    exact (untyped _ rfl cacheable).elim
  rw [if_neg one] at accepted cacheable ⊢
  dsimp only at accepted cacheable ⊢
  by_cases name : getNameLen buf 12 len = 0
  · rw [if_pos name] at cacheable
    exact (untyped _ rfl cacheable).elim
  rw [if_neg name] at accepted cacheable ⊢
  by_cases none : (read16 buf 6).toNat = 0
  · rw [if_pos none] at cacheable
    exact (untyped _ rfl cacheable).elim
  rw [if_neg none] at accepted cacheable ⊢
  obtain ⟨pointer, inside, ttl⟩ := readAnswer_time rfl rfl none accepted cacheable
  exact ⟨Nat.pos_of_ne_zero none, pointer, inside, ttl⟩

theorem cachedAnswer_time {f : Fields} {packet : Packet} {a : Answer}
    (cached : cachedAnswer f packet = some a) :
    a.ttl.toNat = min maxTtl.toNat f.ttl.toNat ∧ a.ttl ≠ 0 := by
  obtain ⟨⟨noError, long, type⟩, -⟩ := cachedAnswer_some cached
  have isTtl : a.ttl = if maxTtl.slt f.ttl then maxTtl else f.ttl := by
    rw [cachedAnswer, if_neg (not_not.mpr noError), if_neg long] at cached
    dsimp only at cached
    rw [if_neg (by tauto)] at cached
    cases cached
    rfl
  rw [BitVec.slt_eq_decide, decide_eq_true_eq, BitVec.toInt_eq_toNat_cond] at long
  have ten : (10 : BitVec 32).toInt = 10 := rfl
  have most : maxTtl.toInt = 900 := rfl
  have most' : maxTtl.toNat = 900 := rfl
  have number : a.ttl.toNat = min maxTtl.toNat f.ttl.toNat := by
    rw [isTtl, BitVec.slt_eq_decide]
    simp only [decide_eq_true_eq, BitVec.toInt_eq_toNat_cond f.ttl]
    split_ifs at long ⊢ <;> omega
  refine ⟨number, fun zero => ?_⟩
  rw [zero] at number
  change 0 = min maxTtl.toNat f.ttl.toNat at number
  split_ifs at long <;> omega

theorem learned_ttl (a : Answer) : (DnsCache.learned a).ttl = a.ttl := by
  rw [DnsCache.learned]
  split_ifs <;> rfl

end Responses

section Births

/-- What an entry was learned from, and how many seconds ago. -/
structure Birth where
  response : Datagram
  world : World
  age : Nat

def Birth.fields (b : Birth) : Fields := extracted b.response b.world

/-- The proxy, and what its entries were learned from. -/
structure Tracked where
  state : State
  born : DnsCache.Ptr → Option Birth

def Tracked.cache (t : Tracked) : Cache := t.state.proxy.cache

/-- A datagram that leads to a new entry is what that was learned from. -/
def Tracked.after (t : Tracked) (op : Op) (state : State) : Tracked :=
  { state := state
    born := match op with
      | .receive d w => fun p =>
        if p ∈ state.proxy.cache.live ∧ p ∉ t.cache.live then some ⟨d, w, 0⟩ else t.born p
      | .timer => fun p => (t.born p).map fun b => { b with age := b.age + 1 }
      | _ => t.born }

def Tracked.step (t : Tracked) (op : Op) : Except Fault Tracked := do
  let state ← DnsProxy.step t.state op
  return t.after op state

def Tracked.start (config : Config) (blocks : List DnsRequests.Ptr) : Tracked :=
  { state := DnsProxy.start config blocks, born := fun _ => none }

/-- What is known of an entry that was learned: its time and its age are the time that it was
stored for, and its packet is the response. -/
structure Learned (packet : DnsCache.Ptr → Packet) (e : Entry) (b : Birth) : Prop where
  accepted : (dnspktVerify b.response.buf b.response.len b.world.old).1 = false
  cacheable : Cacheable b.fields
  time : e.ttl.toNat + b.age = min maxTtl.toNat b.fields.ttl.toNat
  lasting : e.ttl ≠ 0
  whole : ∀ q, e.cname = some q →
    SameBody b.response.buf (packet q).buf ∧ (packet q).len = b.response.len
  address : e.cname = none → b.fields.type ≠ 5

/-- All entries that were learned have a source. -/
def Sourced (t : Tracked) : Prop :=
  ∀ p ∈ t.cache.live, (t.cache.entry p).isStatic = false →
    ∃ b, t.born p = some b ∧ Learned t.cache.packet (t.cache.entry p) b

variable {t t' : Tracked} {op : Op} {d : Datagram} {w : World} {act inact : List DnsRequests.Ptr}
  {packet packet' : DnsCache.Ptr → Packet} {e : Entry} {b : Birth}

theorem Learned.packets (learned : Learned packet e b)
    (same : ∀ q, e.cname = some q → packet' q = packet q) : Learned packet' e b :=
  ⟨learned.accepted, learned.cacheable, learned.time, learned.lasting,
    fun q cname => same q cname ▸ learned.whole q cname, learned.address⟩

theorem Learned.aged (learned : Learned packet e b) (isLearned : e.isStatic = false)
    (lasting : Lasting (agedEntry e)) :
    Learned packet (agedEntry e) { b with age := b.age + 1 } := by
  have aged : agedEntry e = { e with ttl := e.ttl - 1 } := by
    rw [agedEntry, isLearned]
    rfl
  rw [aged] at lasting ⊢
  refine ⟨learned.accepted, learned.cacheable, ?_, lasting isLearned, learned.whole,
    learned.address⟩
  have some : 0 < e.ttl.toNat := Nat.pos_of_ne_zero fun zero =>
    learned.lasting (BitVec.eq_of_toNat_eq zero)
  have less : (e.ttl - 1).toNat = e.ttl.toNat - 1 := by
    have bound := e.ttl.isLt
    rw [BitVec.toNat_sub]
    change (4294967296 - 1 + e.ttl.toNat) % 4294967296 = _
    omega
  have before := learned.time
  change (e.ttl - 1).toNat + (b.age + 1) = _
  rw [less]
  change _ = min maxTtl.toNat b.fields.ttl.toNat
  omega

theorem Sourced.keep (sourced : Sourced t) (cache : t'.cache = t.cache)
    (born : ∀ p ∈ t.cache.live, t'.born p = t.born p) : Sourced t' := by
  intro p used isLearned
  rw [cache] at used isLearned ⊢
  rw [born p used]
  exact sourced p used isLearned

theorem Sourced.inserted (sourced : Sourced t) {p : DnsCache.Ptr} (fresh : p ∉ t.cache.live)
    {packets : List DnsCache.Ptr}
    (cache : t'.cache = DnsCache.inserted t.cache p e packets packet)
    (born : ∀ q, t'.born q = if q ∈ t'.cache.live ∧ q ∉ t.cache.live then some b else t.born q)
    (new : Learned packet e b)
    (old : ∀ q ∈ t.cache.live, ∀ r, (t.cache.entry q).cname = some r →
      packet r = t.cache.packet r) : Sourced t' := by
  intro q used isLearned
  have isBorn := born q
  rw [cache] at used isLearned isBorn ⊢
  change (Function.update t.cache.entry p e q).isStatic = false at isLearned
  change ∃ b, t'.born q = some b ∧ Learned packet (Function.update t.cache.entry p e q) b
  by_cases same : q = p
  · subst same
    rw [if_pos ⟨used, fresh⟩] at isBorn
    rw [Function.update_self]
    exact ⟨b, isBorn, new⟩
  · have before : q ∈ t.cache.live := (List.mem_cons.mp used).resolve_left same
    rw [Function.update_of_ne same] at isLearned ⊢
    rw [if_neg fun both => both.2 before] at isBorn
    obtain ⟨b', isBorn', learned⟩ := sourced q before isLearned
    exact ⟨b', isBorn.trans isBorn', learned.packets (old q before)⟩

theorem learned_new {p : Packet} {a : Answer}
    (cached : cachedAnswer (extracted d w) p = some a)
    (accepted : (dnspktVerify d.buf d.len w.old).1 = false) {e : Entry} (ttl : e.ttl = a.ttl)
    (whole : ∀ q, e.cname = some q → SameBody d.buf (packet q).buf ∧ (packet q).len = d.len)
    (address : e.cname = none → a.type ≠ 5) : Learned packet e ⟨d, w, 0⟩ := by
  obtain ⟨cacheable, -, -, type, -⟩ := cachedAnswer_some cached
  obtain ⟨number, some⟩ := cachedAnswer_time cached
  refine ⟨accepted, cacheable, ?_, ?_, whole, fun noCname => type ▸ address noCname⟩
  · rw [ttl, Nat.add_zero]
    exact number
  · rw [ttl]
    exact some

theorem Sourced.inserts (sourced : Sourced t) (sound : Sound t.cache)
    (accepted : (dnspktVerify d.buf d.len w.old).1 = false)
    (fresh : FreshBlock t.cache.live w.block)
    (freshPacket : FreshBlock t.cache.packets w.packetBlock) {p : Packet}
    (body : SameBody d.buf p.buf) (length : p.len = d.len) {a : Answer}
    (cached : cachedAnswer (extracted d w) p = some a)
    (inserts : Inserts t.cache a w.block w.packetBlock t'.cache)
    (born : ∀ q, t'.born q =
      if q ∈ t'.cache.live ∧ q ∉ t.cache.live then some ⟨d, w, 0⟩ else t.born q) :
    Sourced t' := by
  have kept (same : t'.cache = t.cache) : Sourced t' :=
    sourced.keep same fun q used => (born q).trans (if_neg fun both => both.2 used)
  generalize isCache : t'.cache = cache at inserts
  cases inserts with
  | found => exact kept isCache
  | noMemory => exact kept isCache
  | plain p malloc type absent =>
    refine sourced.inserted (fresh p malloc) isCache born (learned_new cached accepted
      (learned_ttl a) (fun q cname => ?_) fun _ => type) fun _ _ _ _ => rfl
    rw [DnsCache.learned_cname] at cname
    cases cname
  | cname p q malloc mallocPacket type absent =>
    obtain ⟨-, -, -, -, -, -, isPacket⟩ := cachedAnswer_some cached
    refine sourced.inserted (fresh p malloc) isCache born (learned_new cached accepted
      (learned_ttl a) (fun r cname => ?_) fun noCname => by cases noCname) fun r used r' cname => ?_
    · cases cname
      rw [Function.update_self, isPacket]
      exact ⟨body, length⟩
    · refine Function.update_of_ne ?_ _ _
      rintro rfl
      exact freshPacket _ mallocPacket (sound.owned.used r used _ cname)

theorem Sourced.receive (sourced : Sourced t) (linked : Linked t.state act inact)
    (allowed : Allowed t.state (.receive d w)) {m : Proxy} {effect : Effect}
    (receives : Receives t.state.proxy act inact d w (m, effect)) :
    Sourced (t.after (.receive d w) (t.state.after (.receive d w) m effect)) := by
  have keep {m : Proxy} {effect : Effect} (cache : m.cache = t.cache) :
      Sourced (t.after (.receive d w) (t.state.after (.receive d w) m effect)) :=
    sourced.keep cache fun p used => if_neg fun both => both.2 used
  cases receives with
  | dropped => exact keep rfl
  | client other sock r asks => cases asks <;> exact keep rfl
  | server delivered r serves =>
    cases serves with
    | ignored => exact keep rfl
    | forwarded p member fits sends requests cache pool req cached =>
      rcases cached with ⟨-, same⟩ | ⟨answer, isAnswer, inserts⟩
      · exact keep same
      · exact sourced.inserts linked.sound delivered.good allowed.2.1 allowed.2.2
          (setTid_body d.buf _) rfl isAnswer inserts fun q => rfl

theorem step_sourced (sourced : Sourced t) (linked : Linked t.state act inact)
    (allowed : Allowed t.state op) (noCname : NoCname t.state op)
    (done : t.step op = .ok t') : Sourced t' := by
  have after {m : Proxy} {effect : Effect} (executed : exec t.state.proxy op = .ok (m, effect)) :
      t' = t.after op (t.state.after op m effect) := by
    simp only [Tracked.step, DnsProxy.step, executed, ok_bind, pure_eq_ok] at done
    cases done
    rfl
  cases op with
  | receive d w =>
    obtain ⟨⟨m, effect⟩, received, receives⟩ := rxPacket_cases (d := d) linked.pool linked.differ
      linked.sound allowed.1 allowed.2.1
    rw [after received]
    exact sourced.receive linked allowed receives
  | timer =>
    obtain ⟨cache, timed, -⟩ := DnsCache.cacheTimer_spec linked.sound.shape linked.sound.owned
    obtain ⟨requests, ticked, -⟩ := DnsRequests.rqTimer_spec linked.pool
    obtain ⟨fewer, aged⟩ := cacheTimer_aged linked.sound.shape linked.sound.owned timed
    have executed : exec t.state.proxy .timer = .ok
        ({ t.state.proxy with cache := cache, requests := requests, rateLimit := 0 },
          .nothing) := by
      simp only [exec, tick, timed, ticked, ok_bind, pure_eq_ok]
    rw [after executed]
    intro p used isLearned
    have used' : p ∈ cache.live := used
    obtain ⟨isAged, lasting⟩ := aged p used'
    have before : (t.cache.entry p).isStatic = false := (fewer.isStatic used').symm.trans isLearned
    obtain ⟨b, isBorn, learned⟩ := sourced p (fewer.live p used') before
    refine ⟨{ b with age := b.age + 1 }, congrArg (Option.map _) isBorn, ?_⟩
    change Learned cache.packet (cache.entry p) _
    rw [isAged] at lasting ⊢
    exact (learned.aged before lasting).packets fun q _ => congrFun fewer.packet q
  | updateStatic hosts =>
    obtain ⟨cache, updated, -⟩ := DnsCache.exec_spec linked.sound (.updateStatic hosts) allowed
      noCname
    have updated' : DnsCache.cacheUpdateStatic t.state.proxy.cache hosts = .ok cache := updated
    have executed : exec t.state.proxy (.updateStatic hosts) =
        .ok ({ t.state.proxy with cache := cache }, .nothing) := by
      simp only [exec, updated', ok_bind, pure_eq_ok]
    obtain ⟨packets, entries⟩ := cacheUpdateStatic_learned linked.sound.shape linked.sound.owned
      allowed noCname updated'
    rw [after executed]
    intro p used isLearned
    obtain ⟨before, marker, same⟩ := entries p used isLearned
    change (cache.entry p).isStatic = false at isLearned
    rw [same] at isLearned
    obtain ⟨b, isBorn, learned⟩ := sourced p before isLearned
    refine ⟨b, isBorn, ?_⟩
    change Learned cache.packet (cache.entry p) b
    rw [same, packets]
    exact ⟨learned.accepted, learned.cacheable, learned.time, learned.lasting, learned.whole,
      learned.address⟩
  | clear =>
    obtain ⟨cache, cleared, -, -, aged⟩ :=
      DnsCache.cacheClear_spec linked.sound.shape linked.sound.owned
    have executed : exec t.state.proxy .clear =
        .ok ({ t.state.proxy with cache := cache }, .nothing) := by
      simp only [exec, cleared, ok_bind, pure_eq_ok]
    rw [after executed]
    intro p used isLearned
    change (cache.entry p).isStatic = false at isLearned
    rw [cacheClear_entry cleared] at isLearned
    obtain ⟨b, isBorn, learned⟩ := sourced p (aged.1.live p used) isLearned
    refine ⟨b, isBorn, ?_⟩
    change Learned cache.packet (cache.entry p) b
    rw [cacheClear_entry cleared, aged.1.packet]
    exact learned
  | configure config =>
    have executed : exec t.state.proxy (.configure config) =
        .ok ({ t.state.proxy with config := config }, .nothing) := rfl
    rw [after executed]
    exact sourced.keep rfl fun _ _ => rfl

end Births

section Replies

/-- A query that gets to the cache, with a server that it could be forwarded to; `sendto` will
not fail. -/
structure Heard (m : Proxy) (d : Datagram) (w : World) : Prop where
  good : (dnspktVerify d.buf d.len w.old).1 = false
  client : fromServer m.config d = false
  sock : d.sock = m.config.clientSock
  server : (pickServer m.config m.lastServer1).1 ≠ 0
  type : (extracted d w).queryType = 1 ∨ (extracted d w).queryType = 28 ∨
    (extracted d w).queryType = 5
  sends : w.sends = true

/-- The query is for this entry. -/
def AsksFor (m : Proxy) (d : Datagram) (w : World) (p : DnsCache.Ptr) : Prop :=
  cacheFind m.cache (lookupName m.config (extracted d w).queryName)
    (extracted d w).queryType = .ok (some p)

/-- The entry that was learned is the one that the query is replied from. -/
structure RepliedFrom (t : Tracked) (d : Datagram) (w : World) (p : DnsCache.Ptr)
    (message : Message) : Prop where
  replied : ∃ m, exec t.state.proxy (.receive d w) = .ok (m, .reply message)
  asks : AsksFor t.state.proxy d w p
  learned : (t.cache.entry p).isStatic = false

/-- Where the records of a reply begin. -/
def recordsOf (e : Entry) (message : Message) : Nat :=
  if e.cname = none then builtAt e else answersAt message.buf message.len

/-- Every lifetime in a reply is at most that of the record in the response, less the seconds
since then. -/
def Shorter (b : Birth) (e : Entry) (message : Message) : Prop :=
  ∀ i T, Lifetime message.buf message.len (recordsOf e message) i T →
    ∃ T', Lifetime b.response.buf b.response.len (answersAt b.response.buf b.response.len) i T' ∧
      T + b.age ≤ T'

/-- It is so of every reply from an entry that was learned. -/
def Shrinks (t : Tracked) : Op → Prop
  | .receive d w => ∀ p message, RepliedFrom t d w p message →
      ∃ b, t.born p = some b ∧ Shorter b (t.cache.entry p) message
  | _ => True

/-- An entry is gone when its time is over. -/
def Gone (t : Tracked) : Prop :=
  ∀ p ∈ t.cache.live, (t.cache.entry p).isStatic = false →
    ∃ b, t.born p = some b ∧ b.age < min maxTtl.toNat b.fields.ttl.toNat

/-- The query is for an entry with the packet of a CNAME answer. -/
structure ForPacket (t : Tracked) (d : Datagram) (w : World) (p : DnsCache.Ptr) : Prop where
  heard : Heard t.state.proxy d w
  asks : AsksFor t.state.proxy d w p
  learned : (t.cache.entry p).isStatic = false
  packet : (t.cache.entry p).cname ≠ none

/-- No query is for such an entry after the second in which that was learned. -/
def NoReplay (t : Tracked) : Op → Prop
  | .receive d w => ∀ p, ForPacket t d w p → ∃ b, t.born p = some b ∧ b.age = 0
  | _ => True

variable {m m' : Proxy} {d : Datagram} {w : World} {act inact : List DnsRequests.Ptr}
  {message : Message} {t : Tracked} {p : DnsCache.Ptr}

/-- The reply that is built from an entry. -/
def replyOf (m : Proxy) (d : Datagram) (w : World) (e : Entry) : Message :=
  let built := dnspktBuild w.out e (e.cname.map m.cache.packet) (read16 d.buf 0)
  { sock := m.config.clientSock, ip := d.ip, port := d.port, buf := built.1, len := built.2 }

theorem cacheReply_of_find (sound : Sound m.cache) (asks : AsksFor m d w p) :
    cacheReply m.cache (lookupName m.config (extracted d w).queryName)
      (extracted d w).queryType = .ok (some (m.cache.entry p,
        (m.cache.entry p).cname.map m.cache.packet)) := by
  obtain ⟨r, searched, isEntry⟩ := sound.found (lookupName m.config (extracted d w).queryName)
    (extracted d w).queryType
  have used := ((isEntry p).mp (Except.ok.inj (searched.symm.trans asks))).1
  rw [cacheReply, show cacheFind m.cache _ _ = .ok (some p) from asks, ok_bind]
  dsimp only
  cases cname : (m.cache.entry p).cname with
  | none => rfl
  | some q =>
    simp only [access_ok (sound.owned.used p used q cname), ok_bind, pure_eq_ok]
    rfl

theorem rxPacket_heard (heard : Heard m d w) (sound : Sound m.cache)
    (asks : AsksFor m d w p) (long : 12 < (replyOf m d w (m.cache.entry p)).len) :
    ∃ m', rxPacket m d w = .ok (m', .reply (replyOf m d w (m.cache.entry p))) := by
  have fields : dnspktVerify d.buf d.len w.old = (false, extracted d w) :=
    Prod.ext heard.good rfl
  have looked := cacheReply_of_find sound asks
  have long' : ¬ (dnspktBuild w.out (m.cache.entry p) ((m.cache.entry p).cname.map m.cache.packet)
      (read16 d.buf 0)).2 ≤ 12 := Nat.not_le.mpr long
  rw [rxPacket, fields]
  dsimp only
  rw [if_neg Bool.false_ne_true, if_neg (by rw [heard.client]; decide), if_pos heard.sock,
    processClient]
  dsimp only
  rw [if_neg heard.server, replyFromCache]
  dsimp only
  rw [if_neg (not_not.mpr heard.type), looked]
  simp only [ok_bind]
  rw [if_neg long', if_neg (by rw [heard.sends]; decide)]
  exact ⟨_, rfl⟩

theorem heard_of_reply (receives : Receives m act inact d w (m', .reply message))
    (done : rxPacket m d w = .ok (m', .reply message)) :
    Heard m d w ∧ ∃ dc packet, cacheReply m.cache
      (lookupName m.config (extracted d w).queryName) (extracted d w).queryType =
        .ok (some (dc, packet)) ∧ message =
      { sock := m.config.clientSock, ip := d.ip, port := d.port
        buf := (dnspktBuild w.out dc packet (read16 d.buf 0)).1
        len := (dnspktBuild w.out dc packet (read16 d.buf 0)).2 } := by
  have fields : dnspktVerify d.buf d.len w.old =
    ((dnspktVerify d.buf d.len w.old).1, extracted d w) := rfl
  cases receives with
  | server delivered r serves => cases serves
  | client other sock r asks =>
    cases asks with
    | reply lastServer1 rateLimit dc packet type found =>
      rw [rxPacket, fields] at done
      dsimp only at done
      by_cases bad : (dnspktVerify d.buf d.len w.old).1 = true
      · rw [if_pos bad] at done
        cases congrArg Prod.snd (Except.ok.inj done)
      rw [if_neg bad, if_neg (by rw [other]; decide), if_pos sock, processClient] at done
      dsimp only at done
      by_cases server : (pickServer m.config m.lastServer1).1 = 0
      · rw [if_pos server] at done
        cases congrArg Prod.snd (Except.ok.inj done)
      rw [if_neg server, replyFromCache] at done
      dsimp only at done
      rw [if_neg (not_not.mpr type), found] at done
      simp only [ok_bind] at done
      by_cases short : (dnspktBuild w.out dc packet (read16 d.buf 0)).2 ≤ 12
      · rw [if_pos short] at done
        cases congrArg Prod.snd (Except.ok.inj done)
      rw [if_neg short] at done
      by_cases sends : w.sends = false
      · rw [if_pos sends] at done
        cases congrArg Prod.snd (Except.ok.inj done)
      refine ⟨⟨Bool.eq_false_iff.mpr bad, other, sock, server, type, ?_⟩, dc, packet, found, rfl⟩
      exact eq_true_of_ne_false sends

theorem RepliedFrom.heard (replied : RepliedFrom t d w p message)
    (linked : Linked t.state act inact) (allowed : Allowed t.state (.receive d w)) :
    Heard t.state.proxy d w ∧ message = replyOf t.state.proxy d w (t.cache.entry p) := by
  obtain ⟨⟨m, done⟩, asks, -⟩ := replied
  obtain ⟨r, received, receives⟩ := rxPacket_cases (d := d) linked.pool linked.differ
    linked.sound allowed.1 allowed.2.1
  have same : r = (m, .reply message) := Except.ok.inj (received.symm.trans done)
  rw [same] at receives
  obtain ⟨heard, dc, packet, found, isMessage⟩ := heard_of_reply receives done
  have entry := cacheReply_of_find linked.sound asks
  cases found.symm.trans entry
  exact ⟨heard, isMessage⟩

section Answers

variable {e : Entry} {b : Birth} {q : DnsCache.Ptr}

theorem shorter_built {packet : DnsCache.Ptr → Packet} (learned : Learned packet e b)
    (plain : e.cname = none) : Shorter b e (replyOf m d w e) := by
  have first := verify_time b.world.old learned.accepted learned.cacheable
  intro i T lifetime
  have built : Built (replyOf m d w e).buf e := by
    rw [replyOf, plain]
    exact dnspktBuild_built w.out e (read16 d.buf 0)
  rw [recordsOf, if_pos plain] at lifetime
  obtain ⟨rfl, rfl⟩ := built.lifetime lifetime
  refine ⟨_, lifetime_first first.counted first.pointer first.inside, ?_⟩
  rw [← first.ttl (learned.address plain), learned.time]
  exact Nat.min_le_right ..

theorem packet_body (learned : Learned m.cache.packet e b) (cname : e.cname = some q) :
    SameBody b.response.buf (replyOf m d w e).buf ∧ (replyOf m d w e).len = b.response.len := by
  obtain ⟨body, length⟩ := learned.whole q cname
  rw [replyOf, cname]
  exact ⟨fun i behind => (setTid_body _ _ i behind).trans (body i behind), length⟩

theorem shorter_packet_iff (learned : Learned m.cache.packet e b) (cname : e.cname = some q) :
    Shorter b e (replyOf m d w e) ↔ b.age = 0 := by
  have first := verify_time b.world.old learned.accepted learned.cacheable
  obtain ⟨body, length⟩ := packet_body (d := d) (w := w) learned cname
  have back : SameBody (replyOf m d w e).buf b.response.buf := fun i behind => (body i behind).symm
  have records : recordsOf e (replyOf m d w e) = answersAt b.response.buf b.response.len := by
    rw [recordsOf, if_neg (by rw [cname]; exact Option.some_ne_none q), length,
      answersAt_congr body]
  have behind : 2 ≤ answersAt b.response.buf b.response.len := by
    unfold answersAt
    omega
  rw [Shorter, records, length]
  constructor
  · intro shorter
    have told := lifetime_first first.counted first.pointer first.inside
    obtain ⟨T', lifetime, less⟩ := shorter 0 _ (told.congr body behind)
    rw [lifetime.first first.pointer] at less
    omega
  · exact fun new i T lifetime => ⟨T, lifetime.congr back behind, Nat.le_of_eq (by rw [new]; rfl)⟩

end Answers

theorem Learned.long {e : Entry} {b : Birth} {q : DnsCache.Ptr}
    (learned : Learned m.cache.packet e b) (cname : e.cname = some q) :
    12 < (replyOf m d w e).len := by
  have inside := (verify_time b.world.old learned.accepted learned.cacheable).inside
  rw [(packet_body learned cname).2]
  unfold answersAt at inside
  omega

theorem shrinks_iff (linked : Linked t.state act inact) (sourced : Sourced t) {op : Op}
    (allowed : Allowed t.state op) : Shrinks t op ↔ NoReplay t op := by
  cases op with
  | timer => exact Iff.rfl
  | updateStatic => exact Iff.rfl
  | clear => exact Iff.rfl
  | configure => exact Iff.rfl
  | receive d w =>
    have used (p : DnsCache.Ptr) (asks : AsksFor t.state.proxy d w p) : p ∈ t.cache.live := by
      obtain ⟨r, searched, isEntry⟩ := linked.sound.found
        (lookupName t.state.proxy.config (extracted d w).queryName) (extracted d w).queryType
      exact ((isEntry p).mp (Except.ok.inj (searched.symm.trans asks))).1
    constructor
    · rintro shrinks p ⟨heard, asks, isLearned, hasPacket⟩
      obtain ⟨q, cname⟩ := Option.ne_none_iff_exists'.mp hasPacket
      obtain ⟨b, isBorn, learned⟩ := sourced p (used p asks) isLearned
      obtain ⟨m, replied⟩ := rxPacket_heard heard linked.sound asks (learned.long cname)
      obtain ⟨b', isBorn', shorter⟩ := shrinks p _ ⟨⟨m, replied⟩, asks, isLearned⟩
      cases isBorn.symm.trans isBorn'
      exact ⟨b, isBorn, (shorter_packet_iff learned cname).mp shorter⟩
    · intro noReplay p message replied
      obtain ⟨heard, rfl⟩ := replied.heard linked allowed
      obtain ⟨-, asks, isLearned⟩ := replied
      obtain ⟨b, isBorn, learned⟩ := sourced p (used p asks) isLearned
      refine ⟨b, isBorn, ?_⟩
      cases cname : (t.cache.entry p).cname with
      | none => exact shorter_built learned cname
      | some q =>
        obtain ⟨b', isBorn', new⟩ := noReplay p ⟨heard, asks, isLearned, by rw [cname]; simp⟩
        cases isBorn.symm.trans isBorn'
        exact (shorter_packet_iff learned cname).mpr new

end Replies

section Runs

variable {t t' : Tracked} {op : Op}

theorem Sourced.gone (sourced : Sourced t) : Gone t := by
  intro p used isLearned
  obtain ⟨b, isBorn, learned⟩ := sourced p used isLearned
  have time := learned.time
  have some : 0 < (t.cache.entry p).ttl.toNat := Nat.pos_of_ne_zero fun zero =>
    learned.lasting (BitVec.eq_of_toNat_eq zero)
  exact ⟨b, isBorn, by omega⟩

/-- The conditions that a step of the proxy is asked for. -/
def Fair (t : Tracked) (op : Op) : Prop := Allowed t.state op ∧ NoCname t.state op

def Known (t : Tracked) : Prop := (∃ act inact, Linked t.state act inact) ∧ Sourced t

theorem step_known (known : Known t) (fair : Fair t op) :
    ∃ t', t.step op = .ok t' ∧ Known t' := by
  obtain ⟨⟨act, inact, linked⟩, sourced⟩ := known
  obtain ⟨m, effect, executed, -, act', inact', linked'⟩ := exec_spec linked fair.1 fair.2
  have done : t.step op = .ok (t.after op (t.state.after op m effect)) := by
    simp only [Tracked.step, DnsProxy.step, executed, ok_bind, pure_eq_ok]
  exact ⟨_, done, ⟨act', inact', linked'⟩, step_sourced sourced linked fair.1 fair.2 done⟩

/-- Lifetimes shrink: in every state that is reached entries are gone when their time is over,
and every reply from an entry that was learned has aged with it. -/
structure Shrinking (ops : List Op) (t : Tracked) : Prop where
  gone : ∀ front, front <+: ops → ∃ t', run Tracked.step front t = .ok t' ∧ Gone t'
  replies : Along Tracked.step Shrinks ops t

end Runs

section Demo

/-- A response to a query for `a.b`: its first record has this type, this data, and a lifetime
of a minute. -/
def demoAnswer (type : Byte) (data : List Byte) : Op :=
  .receive (demoDatagram 11 0x08080808 ([0, 7, 0x81, 0x80, 0, 1, 0, 1, 0, 0, 0, 0, 1, 0x61, 1, 0x62,
    0, 0, 1, 0, 1, 0xc0, 0x0c, 0, type, 0, 1, 0, 0, 0, 60, 0, BitVec.ofNat 8 data.length] ++ data))
    { demoWorld 9 13 with block := some 0, packetBlock := some 0 }

/-- The query is asked, answered, and asked again a second later. -/
def demoOps (type : Byte) (data : List Byte) : List Op :=
  [.receive (demoAsk 0 1) (demoWorld 7 11), demoAnswer type data, .timer,
    .receive (demoAsk 0 1) (demoWorld 8 12)]

theorem fair_of_noUpdate {ops : List Op} {t : Tracked}
    (noUpdate : ∀ op ∈ ops, ∀ hosts, op ≠ .updateStatic hosts)
    (allowed : Along Tracked.step (fun t op => Allowed t.state op) ops t) :
    Along Tracked.step Fair ops t := by
  induction ops generalizing t with
  | nil => trivial
  | cons op ops ih =>
    refine ⟨⟨allowed.1, ?_⟩, fun t' ran => ih (fun o member =>
      noUpdate o (List.mem_cons_of_mem op member)) (allowed.2 t' ran)⟩
    cases op with
    | updateStatic hosts => exact absurd rfl (noUpdate _ List.mem_cons_self hosts)
    | receive | timer | clear | configure => trivial

theorem demoOps_noUpdate (type : Byte) (data : List Byte) :
    ∀ op ∈ demoOps type data, ∀ hosts, op ≠ .updateStatic hosts := by
  simp [demoOps, demoAnswer]

/-- The entry that a query is for, if there is one, has no packet. -/
def plainEntry (t : Tracked) : Op → Bool
  | .receive d w =>
    match cacheFind t.cache (lookupName t.state.proxy.config (extracted d w).queryName)
      (extracted d w).queryType with
    | .ok (some p) => (t.cache.entry p).cname = none
    | _ => true
  | _ => true

theorem noReplay_of_plain {t : Tracked} {op : Op} (plain : plainEntry t op = true) :
    NoReplay t op := by
  cases op with
  | receive d w =>
    rintro p ⟨-, asks, -, packet⟩
    rw [plainEntry, show cacheFind t.cache _ _ = .ok (some p) from asks] at plain
    exact absurd (of_decide_eq_true plain) packet
  | timer => trivial
  | updateStatic => trivial
  | clear => trivial
  | configure => trivial

/-- Whether a query is replied with the packet of an entry that was aged. -/
def replayed (t : Tracked) (d : Datagram) (w : World) : Bool :=
  match exec t.state.proxy (.receive d w), cacheFind t.cache
    (lookupName t.state.proxy.config (extracted d w).queryName) (extracted d w).queryType with
  | .ok (_, .reply _), .ok (some p) =>
    (t.cache.entry p).isStatic = false && (t.cache.entry p).cname ≠ none &&
      (t.born p).map Birth.age ≠ some 0
  | _, _ => false

theorem not_shrinks_of_replayed {t : Tracked} {d : Datagram} {w : World} (known : Known t)
    (allowed : Allowed t.state (.receive d w)) (wrong : replayed t d w = true) :
    ¬ Shrinks t (.receive d w) := by
  obtain ⟨⟨act, inact, linked⟩, sourced⟩ := known
  rw [shrinks_iff linked sourced allowed]
  intro noReplay
  cases executed : exec t.state.proxy (.receive d w) with
  | error e =>
    rw [replayed, executed] at wrong
    cases wrong
  | ok r =>
    obtain ⟨m, effect⟩ := r
    cases asked : cacheFind t.cache (lookupName t.state.proxy.config
        (extracted d w).queryName) (extracted d w).queryType with
    | error e =>
      rw [replayed, executed, asked] at wrong
      cases effect <;> cases wrong
    | ok found =>
      rw [replayed, executed, asked] at wrong
      cases effect with
      | nothing => cases wrong
      | asked => cases wrong
      | answered => cases wrong
      | reply message =>
        cases found with
        | none => cases wrong
        | some p =>
          simp only [Bool.and_eq_true, decide_eq_true_eq] at wrong
          obtain ⟨⟨isLearned, packet⟩, aged⟩ := wrong
          have replied : RepliedFrom t d w p message := ⟨⟨m, executed⟩, asked, isLearned⟩
          obtain ⟨b, isBorn, new⟩ := noReplay p
            ⟨(replied.heard linked allowed).1, asked, isLearned, packet⟩
          rw [isBorn, Option.map_some, new] at aged
          exact aged rfl

end Demo

end EntryLifetimes
