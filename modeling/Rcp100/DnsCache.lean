import Rcp100.FaultRuns
import Rcp100.DnsPacket

/-!
# The cache of the DNS proxy

The answers are in a hash table by the name in the question. An entry that was learned from
a CNAME answer owns a copy of the whole packet. Entries of configured hosts are static: an
entry with the name of such a host is made one in place.
-/

namespace DnsCache

open ChainTable PointerList FaultRuns DnsPacket
open Function (update update_of_ne update_self)

/-- The address of an entry, or of a packet. -/
abbrev Ptr := Nat

/-- A packet that was received. -/
structure Packet where
  buf : Buffer
  len : Nat

structure Entry where
  ttl : BitVec 32
  ip : BitVec 32
  flags : BitVec 16
  isStatic : Bool
  marker : Bool
  type : Byte
  ipv6 : List Byte
  cname : Option Ptr
  cnameLen : Nat
  /-- the string, without the byte that ends it -/
  name : List Byte
deriving DecidableEq

def zeroEntry : Entry :=
  { ttl := 0, ip := 0, flags := 0, isStatic := false, marker := false, type := 0
    ipv6 := List.replicate 16 0, cname := none, cnameLen := 0, name := [] }

structure Cache where
  live : List Ptr
  packets : List Ptr
  table : Table Ptr (BitVec 10)
  entry : Ptr → Entry
  packet : Ptr → Packet

def Cache.setEntry (m : Cache) (p : Ptr) (e : Entry) : Cache :=
  { m with entry := update m.entry p e }

/-- The characters are signed. -/
def hash (name : List Byte) : BitVec 10 :=
  let round (h : BitVec 32) (c : Byte) : BitVec 32 := ((h <<< 5) + h) ^^^ c.signExtend 32
  (name.foldl round 5381).setWidth 10

/-- What an entry is found by. -/
def Entry.key (e : Entry) : List Byte × Byte := (e.name, e.type)

def cacheFind (m : Cache) (name : List Byte) (type : Byte) : Except Fault (Option Ptr) :=
  m.table.find m.live (hash name) (fun p => (m.entry p).key = (name, type))

def cacheAdd (m : Cache) (ptr : Ptr) : Except Fault Cache :=
  access m.live ptr { m with table := m.table.add (hash (m.entry ptr).name) ptr }

/-- An entry that is not in its chain is the `ASSERT(0)` of the function. -/
def cacheRemove (m : Cache) (cptr : Ptr) : Except Fault Cache := do
  let h ← access m.live cptr (hash (m.entry cptr).name)
  let table ← m.table.remove m.live h cptr
  return { m with table := table }

def freeEntry (m : Cache) (p : Ptr) : Except Fault Cache :=
  access m.live p { m with live := m.live.filter (· ≠ p) }

def freePacket (m : Cache) (q : Ptr) : Except Fault Cache :=
  access m.packets q { m with packets := m.packets.filter (· ≠ q) }

/-- The packet of an entry is freed, if it has one. -/
def freeCname (m : Cache) (p : Ptr) : Except Fault Cache :=
  match (m.entry p).cname with
  | some q => freePacket m q
  | none => return m

def drop (m : Cache) (p : Ptr) : Except Fault Cache := do
  let m ← cacheRemove m p
  let m ← freeCname m p
  freeEntry m p

/-- The body of the loop of `cache_timer`. -/
def age (p : Ptr) (m : Cache) : Except Fault Cache := do
  let e ← access m.live p (m.entry p)
  if e.isStatic then
    if e.marker then return m else drop m p
  else
    let m := m.setEntry p { e with ttl := e.ttl - 1 }
    if e.ttl - 1 = 0 then drop m p else return m

def readNext (m : Cache) (p : Ptr) : Except Fault (Option Ptr) :=
  access m.live p (m.table.next p)

/-- A walk over one chain. -/
def sweepChain (body : Ptr → Cache → Except Fault Cache) (m : Cache) (h : BitVec 10) :
    Except Fault Cache :=
  sweep readNext body m.live.length (m.table.head h) m

/-- The chains, in the order of the loops. -/
def buckets : List (BitVec 10) := (List.range 1024).map (BitVec.ofNat 10)

def cacheTimer (m : Cache) : Except Fault Cache := buckets.foldlM (sweepChain age) m

/-- The body of the loop of `cache_clear`. -/
def release (p : Ptr) (m : Cache) : Except Fault Cache := do
  let m ← access m.live p m
  let m ← freeCname m p
  freeEntry m p

def clearChain (m : Cache) (h : BitVec 10) : Except Fault Cache := do
  let m ← sweepChain release m h
  return { m with table := { m.table with head := update m.table.head h none } }

def cacheClear (m : Cache) : Except Fault Cache := buckets.foldlM clearChain m

/-- The loop that builds the name: every label gets its length in front. -/
def staticBytes : List Byte → List Byte → List Byte
  | [], label => BitVec.ofNat 8 label.length :: label
  | c :: rest, label =>
    if c = 0x2e then BitVec.ofNat 8 label.length :: label ++ staticBytes rest []
    else staticBytes rest (label ++ [c])

/-- The string up to its first zero byte. -/
def cString (bytes : List Byte) : List Byte := bytes.takeWhile (· ≠ 0)

/-- The name of a host as it is in packets. -/
def realStaticName (name : List Byte) : List Byte := cString (staticBytes name [])

/-- A host of the configuration. -/
structure Host where
  name : List Byte
  ip : BitVec 32
deriving DecidableEq

/-- `DNS_STATIC_TTL` and `DNS_STATIC_FLAGS` go with the address. -/
def makeStatic (e : Entry) (ip : BitVec 32) : Entry :=
  { e with flags := 0x8180, ttl := 3600, ip := ip, isStatic := true, marker := true, type := 1 }

/-- The packet of an entry that is made static is freed, and the entry goes on pointing to
it. `block` is what `malloc` returns. -/
def cacheAddStatic (m : Cache) (host : Host) (block : Option Ptr) : Except Fault Cache := do
  if host.name = [] then return m
  let rn := realStaticName host.name
  match ← cacheFind m rn 1 with
  | some dc =>
    let m := m.setEntry dc (makeStatic (m.entry dc) host.ip)
    match (m.entry dc).cname with
    | none => return m
    | some q =>
      let m ← freePacket m q
      return m.setEntry dc { m.entry dc with cnameLen := 0 }
  | none =>
    match block with
    | none => return m
    | some dc =>
      let m := { m with live := dc :: m.live }
      let m := m.setEntry dc (makeStatic { zeroEntry with name := rn } host.ip)
      cacheAdd m dc

def clearMarker (p : Ptr) (m : Cache) : Except Fault Cache :=
  access m.live p (m.setEntry p { m.entry p with marker := false })

/-- Every host comes with what `malloc` returns for it. -/
def addStatics (m : Cache) (hosts : List (Host × Option Ptr)) : Except Fault Cache :=
  hosts.foldlM (fun m host => cacheAddStatic m host.1 host.2) m

def cacheUpdateStatic (m : Cache) (hosts : List (Host × Option Ptr)) : Except Fault Cache := do
  let m ← buckets.foldlM (sweepChain clearMarker) m
  addStatics m hosts

/-- What `process_server` has extracted from an answer, and the packet. -/
structure Answer where
  queryName : List Byte
  queryType : Byte
  flags : BitVec 16
  ttl : BitVec 32
  type : BitVec 16
  address : BitVec 32
  addressV6 : List Byte
  packet : Packet

/-- The entry for an answer whose type is not CNAME. -/
def learned (a : Answer) : Entry :=
  let e := { zeroEntry with
    name := a.queryName
    flags := a.flags
    ttl := a.ttl
    type := a.queryType }
  if a.type = 1 then { e with ip := a.address }
  else if a.type = 28 then { e with ipv6 := a.addressV6 }
  else e

/-- The end of `process_server`; the blocks are what `malloc` returns for the entry and for
the packet. -/
def cacheInsert (m : Cache) (a : Answer) (block packetBlock : Option Ptr) :
    Except Fault Cache := do
  match ← cacheFind m a.queryName a.queryType with
  | some _ => return m
  | none =>
    match block with
    | none => return m
    | some dc =>
      let new := { m with live := dc :: m.live }
      if a.type = 5 then
        match packetBlock with
        | none => freeEntry new dc
        | some q =>
          let new := { new with
            packets := q :: new.packets
            packet := update new.packet q a.packet }
          cacheAdd (new.setEntry dc
            { learned a with cname := some q, cnameLen := a.packet.len }) dc
      else cacheAdd (new.setEntry dc (learned a)) dc

/-- `process_client` finds an entry, and `dnspkt_build` reads its packet. -/
def cacheReply (m : Cache) (name : List Byte) (type : Byte) :
    Except Fault (Option (Entry × Option Packet)) := do
  match ← cacheFind m name type with
  | none => return none
  | some dc =>
    match (m.entry dc).cname with
    | none => return some (m.entry dc, none)
    | some q =>
      let packet ← access m.packets q (m.packet q)
      return some (m.entry dc, some packet)

variable {p : Ptr} {e : Entry}

section Shapes

variable {m m' : Cache} {chains : BitVec 10 → List Ptr}

/-- Every chain holds the entries whose names hash to it. -/
def Chained (m : Cache) (chains : BitVec 10 → List Ptr) : Prop :=
  Threads m.table (fun p => hash (m.entry p).name) m.live chains

/-- No two entries are found by the same name and type. -/
def KeysDiffer (m : Cache) : Prop :=
  ∀ p ∈ m.live, ∀ q ∈ m.live, (m.entry p).key = (m.entry q).key → p = q

/-- The cache is a map. -/
structure Shape (m : Cache) : Prop where
  chained : ∃ chains, Chained m chains
  differ : KeysDiffer m

/-- Every packet is owned by one entry. -/
structure Owned (m : Cache) : Prop where
  used : ∀ p ∈ m.live, ∀ q, (m.entry p).cname = some q → q ∈ m.packets
  one : ∀ p ∈ m.live, ∀ p' ∈ m.live, ∀ q, (m.entry p).cname = some q →
    (m.entry p').cname = some q → p = p'

theorem Chained.find (chained : Chained m chains) (differ : KeysDiffer m) (name : List Byte)
    (type : Byte) : ∃ r, cacheFind m name type = .ok r ∧
      ∀ p, r = some p ↔ p ∈ m.live ∧ (m.entry p).key = (name, type) :=
  @Threads.find_key _ _ _ _ _ _ _ _ _ (fun p => (m.entry p).key) (fun k => hash k.1) chained
    (fun _ used => used) differ (name, type)

theorem Shape.find (shape : Shape m) (name : List Byte) (type : Byte) :
    ∃ r, cacheFind m name type = .ok r ∧
      ∀ p, r = some p ↔ p ∈ m.live ∧ (m.entry p).key = (name, type) := by
  obtain ⟨chains, chained⟩ := shape.chained
  exact chained.find shape.differ name type

theorem Chained.add (chained : Chained m chains) (differ : KeysDiffer m)
    (fresh : p ∉ m.live) (new : ∀ q ∈ m.live, (m.entry q).key ≠ e.key)
    (live : m'.live = p :: m.live) (entry : m'.entry = update m.entry p e)
    (table : m'.table = m.table.add (hash e.name) p) : Shape m' := by
  have old : ∀ q ∈ m.live, m'.entry q = m.entry q := by
    intro q used
    rw [entry]
    refine update_of_ne ?_ _ _
    rintro rfl
    exact fresh used
  have self : m'.entry p = e := by
    rw [entry, update_self]
  refine ⟨⟨update chains (hash e.name) (p :: chains (hash e.name)), ?_⟩, ?_⟩
  · rw [Chained, live, table]
    have places : ∀ q ∈ m.live, hash (m'.entry q).name = hash (m.entry q).name := by
      intro q used
      rw [old q used]
    have added := (Threads.congr chained (fun _ => Iff.rfl) places).add fresh
    rw [self] at added
    exact added
  · rw [KeysDiffer, live]
    refine apart_cons differ (fun q used => by rw [old q used]) ?_
    rw [self]
    exact new

theorem Chained.congr (chained : Chained m chains) (live : m'.live = m.live)
    (table : m'.table = m.table) (keys : ∀ p ∈ m.live, (m'.entry p).key = (m.entry p).key) :
    Chained m' chains := by
  rw [Chained, live, table]
  refine Threads.congr chained (fun _ => Iff.rfl) fun p used => ?_
  rw [show (m'.entry p).name = (m.entry p).name from congrArg Prod.fst (keys p used)]

theorem KeysDiffer.congr (differ : KeysDiffer m) (live : ∀ p ∈ m'.live, p ∈ m.live)
    (keys : ∀ p ∈ m'.live, (m'.entry p).key = (m.entry p).key) : KeysDiffer m' := by
  intro p inP q inQ same
  rw [keys p inP, keys q inQ] at same
  exact differ p (live p inP) q (live q inQ) same

theorem Shape.congr (shape : Shape m) (live : m'.live = m.live) (table : m'.table = m.table)
    (keys : ∀ p ∈ m.live, (m'.entry p).key = (m.entry p).key) : Shape m' := by
  obtain ⟨chains, chained⟩ := shape.chained
  exact ⟨⟨chains, chained.congr live table keys⟩,
    shape.differ.congr (fun p used => live ▸ used) fun p used => keys p (live ▸ used)⟩

/-- The entries of the second state are entries of the first one, of the same data but for
times and markers. -/
structure Fewer (m m' : Cache) : Prop where
  live : ∀ p ∈ m'.live, p ∈ m.live
  entry : ∀ p ∈ m'.live, ∃ ttl marker, m'.entry p = { m.entry p with ttl := ttl, marker := marker }
  packet : m'.packet = m.packet

theorem Fewer.refl (m : Cache) : Fewer m m :=
  ⟨fun _ used => used, fun p _ => ⟨(m.entry p).ttl, (m.entry p).marker, rfl⟩, rfl⟩

theorem Fewer.trans {m'' : Cache} (first : Fewer m m') (second : Fewer m' m'') :
    Fewer m m'' := by
  refine ⟨fun p used => first.live p (second.live p used), fun p used => ?_,
    second.packet.trans first.packet⟩
  obtain ⟨_, _, here⟩ := second.entry p used
  obtain ⟨_, _, before⟩ := first.entry p (second.live p used)
  exact ⟨_, _, by rw [here, before]⟩

theorem Fewer.key (fewer : Fewer m m') (used : p ∈ m'.live) :
    (m'.entry p).key = (m.entry p).key := by
  obtain ⟨_, _, same⟩ := fewer.entry p used
  rw [same]
  rfl

theorem Fewer.cname (fewer : Fewer m m') (used : p ∈ m'.live) :
    (m'.entry p).cname = (m.entry p).cname := by
  obtain ⟨_, _, same⟩ := fewer.entry p used
  rw [same]

theorem Owned.fewer (owned : Owned m) (fewer : Fewer m m')
    (kept : ∀ p ∈ m'.live, ∀ q, (m.entry p).cname = some q → q ∈ m'.packets) : Owned m' := by
  refine ⟨fun p used q isCname => ?_, fun p used p' used' q isCname isCname' => ?_⟩
  · rw [fewer.cname used] at isCname
    exact kept p used q isCname
  · rw [fewer.cname used] at isCname
    rw [fewer.cname used'] at isCname'
    exact owned.one p (fewer.live p used) p' (fewer.live p' used') q isCname isCname'

end Shapes

section Walks

variable {m : Cache} {chains : BitVec 10 → List Ptr}

theorem discard_spec (owned : Owned m) (used : p ∈ m.live) :
    ∃ packets, (do let m ← freeCname m p; freeEntry m p) =
        .ok { m with live := m.live.filter (· ≠ p), packets := packets } ∧
      Owned { m with live := m.live.filter (· ≠ p), packets := packets } := by
  have fewer (packets : List Ptr) :
      Fewer m { m with live := m.live.filter (· ≠ p), packets := packets } :=
    ⟨fun q inside => (List.mem_filter.mp inside).1,
      fun q _ => ⟨(m.entry q).ttl, (m.entry q).marker, rfl⟩, rfl⟩
  cases cname : (m.entry p).cname with
  | none =>
    refine ⟨m.packets, ?_, owned.fewer (fewer _) fun r inside q isCname => ?_⟩
    · simp only [freeCname, cname, pure_eq_ok, ok_bind, freeEntry, access_ok used]
    · exact owned.used r (List.mem_filter.mp inside).1 q isCname
  | some q =>
    have inUse := owned.used p used q cname
    refine ⟨m.packets.filter (· ≠ q), ?_, owned.fewer (fewer _) fun r inside q' isCname => ?_⟩
    · simp only [freeCname, cname, freePacket, access_ok inUse, ok_bind, freeEntry, access_ok used]
    · obtain ⟨usedR, apart⟩ := List.mem_filter.mp inside
      rw [decide_eq_true_eq] at apart
      refine List.mem_filter.mpr ⟨owned.used r usedR q' isCname, decide_eq_true ?_⟩
      rintro rfl
      exact apart (owned.one r usedR p used q' isCname cname)

theorem drop_spec (chained : Chained m chains) (owned : Owned m) (used : p ∈ m.live) :
    ∃ m', drop m p = .ok m' ∧ Owned m' ∧ Fewer m m' ∧ m'.entry = m.entry ∧
      Chained m' (update chains (hash (m.entry p).name)
        ((chains (hash (m.entry p).name)).erase p)) := by
  obtain ⟨t, removed, threads⟩ := Threads.remove chained used (fun _ used => used)
  have owned' : Owned { m with table := t } := owned.fewer
    ⟨fun _ used => used, fun q _ => ⟨(m.entry q).ttl, (m.entry q).marker, rfl⟩, rfl⟩ owned.used
  obtain ⟨packets, discarded, owned''⟩ := discard_spec owned' used
  refine ⟨_, ?_, owned'', ⟨?_, fun q _ => ⟨(m.entry q).ttl, (m.entry q).marker, rfl⟩, rfl⟩, rfl,
    threads⟩
  · simp only [drop, cacheRemove, access_ok used, ok_bind, removed, pure_eq_ok]
    exact discarded
  · exact fun q inside => (List.mem_filter.mp inside).1

/-- A body of a walk that keeps the entries where they are, or takes out the one it is at;
what it does is related by `R`, and makes `Q` true of the entry. -/
def Keeps (R : Cache → Cache → Prop) (Q : Entry → Prop)
    (body : Ptr → Cache → Except Fault Cache) : Prop :=
  ∀ m chains p, Chained m chains → Owned m → p ∈ m.live → ∃ m', body p m = .ok m' ∧ Owned m' ∧
    R m m' ∧ (p ∈ m'.live → Q (m'.entry p)) ∧
    (Chained m' chains ∨ Chained m' (update chains (hash (m.entry p).name)
      ((chains (hash (m.entry p).name)).erase p)))

/-- A relation of what a walk changes, which `Q` is kept by. -/
structure Walking (R : Cache → Cache → Prop) (Q : Entry → Prop) : Prop where
  refl : ∀ m, R m m
  trans : ∀ {a b c}, R a b → R b c → R a c
  fewer : ∀ {a b}, R a b → Fewer a b
  keeps : ∀ {a b}, R a b → ∀ p ∈ b.live, Q (a.entry p) → Q (b.entry p)

variable {R : Cache → Cache → Prop} {Q : Entry → Prop} {body : Ptr → Cache → Except Fault Cache}

/-- What holds while a chain has been walked over up to `rest`. -/
structure Walked (R : Cache → Cache → Prop) (Q : Entry → Prop) (m : Cache) (h : BitVec 10)
    (rest : List Ptr) (s : Cache) (chains : BitVec 10 → List Ptr) (front : List Ptr) : Prop where
  chained : Chained s chains
  split : chains h = front ++ rest
  owned : Owned s
  related : R m s
  done : ∀ p ∈ front, Q (s.entry p)

theorem walk_round (walking : Walking R Q) (keeps : Keeps R Q body) {h : BitVec 10}
    {rest front : List Ptr} {s : Cache} (walked : Walked R Q m h (p :: rest) s chains front) :
    readNext s p = .ok rest.head? ∧
      ∃ s', body p s = .ok s' ∧ ∃ chains front, Walked R Q m h rest s' chains front := by
  obtain ⟨chained, here, owned, related, done⟩ := walked
  have inChain : p ∈ chains h := by
    rw [here]
    simp
  obtain ⟨used, place⟩ := (Threads.mem chained h p).mp inChain
  have nodup := Threads.nodup chained h
  rw [here] at nodup
  have absent : p ∉ front := fun inside =>
    (List.nodup_append.mp nodup).2.2 p inside p List.mem_cons_self rfl
  refine ⟨?_, ?_⟩
  · rw [readNext, access_ok used]
    exact congrArg _ (Threads.next_eq chained here)
  obtain ⟨s', worked, owned', step, now, same | removed⟩ := keeps s chains p chained owned used
  · have stillIn : ∀ q ∈ front ++ [p], q ∈ s'.live := by
      intro q inside
      refine ((Threads.mem same h q).mp ?_).1
      rw [here]
      simp only [List.mem_append, List.mem_cons] at inside ⊢
      tauto
    refine ⟨s', worked, chains, front ++ [p], same, ?_, owned', walking.trans related step, ?_⟩
    · rw [here, List.append_assoc]
      rfl
    · intro q inside
      have used' := stillIn q inside
      rcases List.mem_append.mp inside with before | last
      · exact walking.keeps step q used' (done q before)
      · cases List.mem_singleton.mp last
        exact now used'
  · have split : update chains (hash (s.entry p).name)
        ((chains (hash (s.entry p).name)).erase p) h = front ++ rest := by
      rw [place, update_self, here, List.erase_append_right _ absent,
        List.erase_cons_head]
    refine ⟨s', worked, _, front, removed, split, owned', walking.trans related step, ?_⟩
    intro q inside
    refine walking.keeps step q ((Threads.mem removed h q).mp ?_).1 (done q inside)
    rw [split]
    exact List.mem_append_left _ inside

theorem sweepChain_spec (walking : Walking R Q) (keeps : Keeps R Q body) (shape : Shape m)
    (owned : Owned m) (h : BitVec 10) :
    ∃ m', sweepChain body m h = .ok m' ∧ Shape m' ∧ Owned m' ∧ R m m' ∧
      ∀ p ∈ m'.live, hash (m'.entry p).name = h → Q (m'.entry p) := by
  obtain ⟨chains, chained⟩ := shape.chained
  obtain ⟨m', swept, chains', front, chained', split, owned', related, done⟩ := sweep_rule
    (fun rest s => ∃ chains front, Walked R Q m h rest s chains front)
    (fun p rest s inv => by
      obtain ⟨chains, front, walked⟩ := inv
      exact walk_round walking keeps walked)
    (chains h) m m.live.length (Threads.length_le chained (fun _ used => used) h)
    ⟨chains, [], chained, rfl, owned, walking.refl m, fun p inside =>
      absurd inside List.not_mem_nil⟩
  have fewer := walking.fewer related
  refine ⟨m', ?_, ⟨⟨chains', chained'⟩, ?_⟩, owned', related, fun p used place => done p ?_⟩
  · rw [sweepChain, Threads.head_eq chained]
    exact swept
  · exact shape.differ.congr fewer.live fun p used => fewer.key used
  · rw [List.append_nil] at split
    rw [← split, Threads.mem chained']
    exact ⟨used, place⟩

theorem sweepList_spec (walking : Walking R Q) (keeps : Keeps R Q body) (shape : Shape m)
    (owned : Owned m) (l : List (BitVec 10)) :
    ∃ m', l.foldlM (sweepChain body) m = .ok m' ∧ Shape m' ∧ Owned m' ∧ R m m' ∧
      ∀ p ∈ m'.live, hash (m'.entry p).name ∈ l → Q (m'.entry p) := by
  induction l generalizing m with
  | nil => exact ⟨m, rfl, shape, owned, walking.refl m, fun p _ inside => by cases inside⟩
  | cons h l ih =>
    obtain ⟨s, swept, shape', owned', related, done⟩ := sweepChain_spec walking keeps shape owned h
    obtain ⟨m', goneOn, shape'', owned'', related', done'⟩ := ih shape' owned'
    refine ⟨m', ?_, shape'', owned'', walking.trans related related', fun p used inside => ?_⟩
    · rw [List.foldlM_cons, swept, ok_bind]
      exact goneOn
    · have fewer := walking.fewer related'
      rcases List.mem_cons.mp inside with here | later
      · have name : (m'.entry p).name = (s.entry p).name := congrArg Prod.fst (fewer.key used)
        rw [name] at here
        exact walking.keeps related' p used (done p (fewer.live p used) here)
      · exact done' p used later

theorem mem_buckets (h : BitVec 10) : h ∈ buckets :=
  List.mem_map.mpr ⟨h.toNat, List.mem_range.mpr h.isLt, BitVec.eq_of_toNat_eq (by simp)⟩

theorem sweepChains_spec (walking : Walking R Q) (keeps : Keeps R Q body) (shape : Shape m)
    (owned : Owned m) :
    ∃ m', buckets.foldlM (sweepChain body) m = .ok m' ∧ Shape m' ∧ Owned m' ∧ R m m' ∧
      ∀ p ∈ m'.live, Q (m'.entry p) := by
  obtain ⟨m', swept, shape', owned', related, done⟩ :=
    sweepList_spec walking keeps shape owned buckets
  exact ⟨m', swept, shape', owned', related, fun p used => done p used (mem_buckets _)⟩

theorem setEntry_spec (chained : Chained m chains) (owned : Owned m) (p : Ptr) (ttl : BitVec 32)
    (marker : Bool) :
    Owned (m.setEntry p { m.entry p with ttl := ttl, marker := marker }) ∧
      Fewer m (m.setEntry p { m.entry p with ttl := ttl, marker := marker }) ∧
      Chained (m.setEntry p { m.entry p with ttl := ttl, marker := marker }) chains := by
  have fewer : Fewer m (m.setEntry p { m.entry p with ttl := ttl, marker := marker }) := by
    refine ⟨fun _ used => used, fun q _ => ?_, rfl⟩
    by_cases same : q = p
    · subst same
      exact ⟨ttl, marker, update_self ..⟩
    · exact ⟨(m.entry q).ttl, (m.entry q).marker, update_of_ne same _ _⟩
  exact ⟨owned.fewer fewer owned.used, fewer, chained.congr rfl rfl fun q used => fewer.key used⟩

/-- The timer changes times only. -/
def Aged (m m' : Cache) : Prop :=
  Fewer m m' ∧ ∀ p ∈ m'.live, (m'.entry p).marker = (m.entry p).marker

/-- A static entry is marked. -/
def StaticMarked (e : Entry) : Prop := e.isStatic = true → e.marker = true

theorem Fewer.isStatic {m' : Cache} (fewer : Fewer m m') (used : p ∈ m'.live) :
    (m'.entry p).isStatic = (m.entry p).isStatic := by
  obtain ⟨_, _, same⟩ := fewer.entry p used
  rw [same]

theorem aged_walking : Walking Aged StaticMarked where
  refl := fun m => ⟨.refl m, fun _ _ => rfl⟩
  trans := by
    rintro a b c ⟨fewer, marker⟩ ⟨fewer', marker'⟩
    exact ⟨fewer.trans fewer', fun p used => (marker' p used).trans (marker p (fewer'.live p used))⟩
  fewer := fun aged => aged.1
  keeps := by
    rintro a b ⟨fewer, marker⟩ p used marked static
    rw [marker p used]
    exact marked (fewer.isStatic used ▸ static)

theorem age_keeps : Keeps Aged StaticMarked age := by
  intro m chains p chained owned used
  have nodup := fun h => Threads.nodup chained h
  have out : ∀ {s m' : Cache}, Chained s chains → hash (s.entry p).name = hash (m.entry p).name →
      Chained m' (update chains (hash (s.entry p).name)
        ((chains (hash (s.entry p).name)).erase p)) → Fewer s m' → p ∉ m'.live := by
    intro s m' chainedS place removed fewer used'
    have inside := (Threads.mem removed (hash (s.entry p).name) p).mpr
      ⟨used', by rw [show (m'.entry p).name = (s.entry p).name from congrArg Prod.fst
        (fewer.key used')]⟩
    rw [update_self] at inside
    exact (nodup _).not_mem_erase inside
  rw [age, access_ok used, ok_bind]
  by_cases static : (m.entry p).isStatic = true
  · rw [if_pos static]
    by_cases marked : (m.entry p).marker = true
    · rw [if_pos marked]
      exact ⟨m, rfl, owned, aged_walking.refl m, fun _ _ => marked, .inl chained⟩
    · rw [if_neg marked]
      obtain ⟨m', dropped, owned', fewer, same, chained'⟩ := drop_spec chained owned used
      have gone := out chained rfl chained' fewer
      exact ⟨m', dropped, owned', ⟨fewer, fun q used => by rw [same]⟩, fun used =>
        absurd used gone, .inr chained'⟩
  · rw [if_neg static]
    obtain ⟨owned', fewer, chained'⟩ := setEntry_spec chained owned p ((m.entry p).ttl - 1)
      (m.entry p).marker
    have now : (m.setEntry p { m.entry p with ttl := (m.entry p).ttl - 1 }).entry p =
        { m.entry p with ttl := (m.entry p).ttl - 1 } := update_self ..
    have marker : ∀ q, ((m.setEntry p { m.entry p with
        ttl := (m.entry p).ttl - 1 }).entry q).marker = (m.entry q).marker := by
      intro q
      by_cases here : q = p
      · subst here
        rw [now]
      · exact congrArg Entry.marker (update_of_ne here _ _)
    by_cases expired : (m.entry p).ttl - 1 = 0
    · rw [if_pos expired]
      obtain ⟨m', dropped, owned'', fewer', same, chained''⟩ := drop_spec chained' owned' used
      have place : hash ((m.setEntry p { m.entry p with
          ttl := (m.entry p).ttl - 1 }).entry p).name = hash (m.entry p).name := by
        rw [now]
      have gone := out chained' place chained'' fewer'
      refine ⟨m', dropped, owned'', ⟨fewer.trans fewer', fun q used => ?_⟩, fun used =>
        absurd used gone, .inr ?_⟩
      · rw [same]
        exact marker q
      · rw [place] at chained''
        exact chained''
    · rw [if_neg expired]
      refine ⟨_, rfl, owned', ⟨fewer, fun q _ => marker q⟩, fun _ isStatic => ?_, .inl chained'⟩
      rw [now] at isStatic
      exact absurd isStatic static

theorem cacheTimer_spec (shape : Shape m) (owned : Owned m) :
    ∃ m', cacheTimer m = .ok m' ∧ Shape m' ∧ Owned m' ∧ Aged m m' ∧
      ∀ p ∈ m'.live, StaticMarked (m'.entry p) :=
  sweepChains_spec aged_walking age_keeps shape owned

/-- Nothing is taken out, and no marker is set. -/
structure Same (m m' : Cache) : Prop where
  fewer : Fewer m m'
  live : m'.live = m.live
  packets : m'.packets = m.packets
  marker : ∀ p ∈ m'.live, (m'.entry p).marker = true → (m.entry p).marker = true

def Unmarked (e : Entry) : Prop := e.marker = false

theorem same_walking : Walking Same Unmarked where
  refl := fun m => ⟨.refl m, rfl, rfl, fun _ _ h => h⟩
  trans := by
    rintro a b c ⟨fewer, live, packets, marker⟩ ⟨fewer', live', packets', marker'⟩
    exact ⟨fewer.trans fewer', live'.trans live, packets'.trans packets,
      fun p used marked => marker p (fewer'.live p used) (marker' p used marked)⟩
  fewer := fun same => same.fewer
  keeps := by
    rintro a b ⟨-, -, -, marker⟩ p used (unmarked : _ = false)
    refine Bool.eq_false_iff.mpr fun marked => ?_
    rw [marker p used marked] at unmarked
    cases unmarked

theorem clearMarker_keeps : Keeps Same Unmarked clearMarker := by
  intro m chains p chained owned used
  obtain ⟨owned', fewer, chained'⟩ := setEntry_spec chained owned p (m.entry p).ttl false
  have now : (m.setEntry p { m.entry p with marker := false }).entry p =
      { m.entry p with marker := false } := update_self ..
  refine ⟨_, access_ok used _, owned', ⟨fewer, rfl, rfl, fun q _ marked => ?_⟩, fun _ => ?_,
    .inl chained'⟩
  · by_cases here : q = p
    · subst here
      rw [now] at marked
      cases marked
    · exact (congrArg Entry.marker (update_of_ne here _ _)).symm.trans marked
  · rw [Unmarked, now]

theorem clearMarkers_spec (shape : Shape m) (owned : Owned m) :
    ∃ m', buckets.foldlM (sweepChain clearMarker) m = .ok m' ∧ Shape m' ∧ Owned m' ∧ Same m m' ∧
      ∀ p ∈ m'.live, Unmarked (m'.entry p) :=
  sweepChains_spec same_walking clearMarker_keeps shape owned

end Walks

section Clears

variable {m : Cache}

/-- What holds while `cache_clear` has walked over the first entries of a chain. -/
structure Releasing (m : Cache) (chain rest : List Ptr) (m' : Cache) (front : List Ptr) :
    Prop where
  split : chain = front ++ rest
  table : m'.table = m.table
  live : m'.live = m.live.filter (· ∉ front)
  owned : Owned m'
  entry : m'.entry = m.entry
  packet : m'.packet = m.packet

theorem release_round {chains : BitVec 10 → List Ptr} {h : BitVec 10}
    {rest front : List Ptr} {m' : Cache} (chained : Chained m chains)
    (releasing : Releasing m (chains h) (p :: rest) m' front) :
    readNext m' p = .ok rest.head? ∧
      ∃ m'', release p m' = .ok m'' ∧ ∃ front, Releasing m (chains h) rest m'' front := by
  obtain ⟨split, table, live, owned, entry, packet⟩ := releasing
  have inChain : p ∈ chains h := by
    rw [split]
    simp
  have nodup := Threads.nodup chained h
  rw [split] at nodup
  have absent : p ∉ front := fun inside =>
    (List.nodup_append.mp nodup).2.2 p inside p List.mem_cons_self rfl
  have used : p ∈ m'.live := by
    rw [live, List.mem_filter, decide_eq_true_eq]
    exact ⟨((Threads.mem chained h p).mp inChain).1, absent⟩
  refine ⟨?_, ?_⟩
  · rw [readNext, access_ok used, table]
    exact congrArg _ (Threads.next_eq chained split)
  obtain ⟨packets, discarded, owned'⟩ := discard_spec owned used
  refine ⟨{ m' with live := m'.live.filter (· ≠ p), packets := packets }, ?_, front ++ [p], ?_,
    table, ?_, owned', entry, packet⟩
  · rw [release, access_ok used, ok_bind]
    exact discarded
  · rw [split, List.append_assoc]
    rfl
  · change m'.live.filter (· ≠ p) = _
    rw [live, List.filter_filter]
    refine List.filter_congr fun q _ => ?_
    simp [and_comm, not_or]

theorem clearChain_spec (shape : Shape m) (owned : Owned m) (h : BitVec 10) :
    ∃ m', clearChain m h = .ok m' ∧ Shape m' ∧ Owned m' ∧ Aged m m' := by
  obtain ⟨chains, chained⟩ := shape.chained
  have start : Releasing m (chains h) (chains h) m [] :=
    ⟨rfl, rfl, by simp, owned, rfl, rfl⟩
  obtain ⟨m', swept, front, split, table, live, owned', entry, packet⟩ := sweep_rule
    (fun rest s => ∃ front, Releasing m (chains h) rest s front)
    (fun p rest s inv => by
      obtain ⟨front, releasing⟩ := inv
      exact release_round chained releasing)
    (chains h) m m.live.length (Threads.length_le chained (fun _ used => used) h) ⟨[], start⟩
  rw [List.append_nil] at split
  have inside : ∀ p, p ∈ m'.live ↔ p ∈ m.live ∧ hash (m.entry p).name ≠ h := by
    intro p
    rw [live, List.mem_filter, decide_eq_true_eq, ← split, Threads.mem chained]
    refine and_congr_right fun used => ?_
    simp [used]
  have fewer : Fewer m { m' with
      table := { m'.table with head := update m'.table.head h none } } := by
    refine ⟨fun p used => ((inside p).mp used).1, fun p _ => ?_, packet⟩
    exact ⟨(m.entry p).ttl, (m.entry p).marker, congrFun entry p⟩
  refine ⟨{ m' with table := { m'.table with head := update m'.table.head h none } }, ?_,
    ⟨⟨update chains h [], fun b => ?_, fun b => ?_, fun b p => ?_⟩, ?_⟩,
    ⟨owned'.used, owned'.one⟩, fewer, fun p _ => congrArg Entry.marker (congrFun entry p)⟩
  · rw [clearChain, sweepChain, Threads.head_eq chained, swept]
    rfl
  · by_cases here : b = h
    · subst here
      simp only [update_self]
      exact rfl
    · simp only [update_of_ne here, table]
      exact Threads.path chained b
  · by_cases here : b = h
    · subst here
      rw [update_self]
      exact List.nodup_nil
    · rw [update_of_ne here]
      exact Threads.nodup chained b
  · change _ ↔ p ∈ m'.live ∧ hash (m'.entry p).name = b
    rw [inside, entry]
    by_cases here : b = h
    · subst here
      rw [update_self]
      simp
    · rw [update_of_ne here, Threads.mem chained]
      constructor
      · rintro ⟨used, place⟩
        exact ⟨⟨used, fun same => here (place.symm.trans same)⟩, place⟩
      · rintro ⟨⟨used, -⟩, place⟩
        exact ⟨used, place⟩
  · exact shape.differ.congr fewer.live fun p used => fewer.key used

theorem cacheClear_spec (shape : Shape m) (owned : Owned m) :
    ∃ m', cacheClear m = .ok m' ∧ Shape m' ∧ Owned m' ∧ Aged m m' := by
  refine foldlM_rule ?_ (show Shape m ∧ Owned m ∧ Aged m m from
    ⟨shape, owned, aged_walking.refl m⟩)
  rintro s h - ⟨shape, owned, aged⟩
  obtain ⟨s', cleared, shape', owned', step⟩ := clearChain_spec shape owned h
  exact ⟨s', cleared, shape', owned', aged_walking.trans aged step⟩

end Clears

section Statics

variable {m : Cache} {host : Host} {block : Option Ptr}

/-- The key that a host has in the cache. -/
def Host.key (host : Host) : List Byte × Byte := (realStaticName host.name, 1)

/-- Everything that `cache_add_static` can do. -/
inductive AddsStatic (m : Cache) (host : Host) (block : Option Ptr) : Except Fault Cache → Prop
  /-- no name, or no memory -/
  | nothing (why : host.name = [] ∨ ∀ q ∈ m.live, (m.entry q).key ≠ host.key) :
      AddsStatic m host block (.ok m)
  | plain (p : Ptr) (used : p ∈ m.live) (key : (m.entry p).key = host.key)
      (cname : (m.entry p).cname = none) :
      AddsStatic m host block (.ok (m.setEntry p (makeStatic (m.entry p) host.ip)))
  | cname (p q : Ptr) (used : p ∈ m.live) (key : (m.entry p).key = host.key)
      (cname : (m.entry p).cname = some q) (inUse : q ∈ m.packets) (entry : Entry)
      (same : entry.key = (m.entry p).key ∧ entry.cname = some q) :
      AddsStatic m host block
        (.ok { m.setEntry p entry with packets := m.packets.filter (· ≠ q) })
  | freed (p q : Ptr) (used : p ∈ m.live) (key : (m.entry p).key = host.key)
      (cname : (m.entry p).cname = some q) (gone : q ∉ m.packets) :
      AddsStatic m host block (.error .freed)
  | new (p : Ptr) (malloc : block = some p) (absent : ∀ q ∈ m.live, (m.entry q).key ≠ host.key)
      (entry : Entry)
      (isNew : entry = makeStatic { zeroEntry with name := realStaticName host.name } host.ip) :
      AddsStatic m host block (.ok { m with
        live := p :: m.live
        entry := update m.entry p entry
        table := m.table.add (hash entry.name) p })

theorem cacheAddStatic_cases (shape : Shape m) (host : Host) (block : Option Ptr) :
    AddsStatic m host block (cacheAddStatic m host block) := by
  rw [cacheAddStatic]
  by_cases empty : host.name = []
  · rw [if_pos empty]
    exact .nothing (.inl empty)
  rw [if_neg empty]
  obtain ⟨r, searched, isEntry⟩ := shape.find (realStaticName host.name) 1
  simp only [searched, ok_bind]
  cases r with
  | none =>
    have absent : ∀ q ∈ m.live, (m.entry q).key ≠ host.key := by
      intro q used same
      cases (isEntry q).mpr ⟨used, same⟩
    cases block with
    | none => exact .nothing (.inr absent)
    | some p =>
      have added := AddsStatic.new (m := m) p rfl absent _ rfl
      simp only [cacheAdd, Cache.setEntry, access, List.mem_cons_self, if_true,
        update_self]
      exact added
  | some p =>
    obtain ⟨used, key⟩ := (isEntry p).mp rfl
    have self : (m.setEntry p (makeStatic (m.entry p) host.ip)).entry p =
        makeStatic (m.entry p) host.ip := update_self ..
    simp only [self]
    cases cname : (m.entry p).cname with
    | none =>
      have still : (makeStatic (m.entry p) host.ip).cname = none := cname
      simp only [still]
      exact .plain p used key cname
    | some q =>
      have still : (makeStatic (m.entry p) host.ip).cname = some q := cname
      simp only [still, freePacket]
      by_cases inUse : q ∈ m.packets
      · have type : (m.entry p).type = 1 := congrArg Prod.snd key
        have added := @AddsStatic.cname _ _ block p q used key cname inUse
          { makeStatic (m.entry p) host.ip with cnameLen := 0 }
          ⟨by rw [Entry.key, Entry.key, type]; rfl, cname⟩
        rw [@access_ok _ _ ((m.setEntry p _).packets) _ _ inUse, ok_bind]
        simp only [Cache.setEntry, update_self, Function.update_idem, pure_eq_ok]
        exact added
      · rw [@access_freed _ _ ((m.setEntry p _).packets) _ _ inUse, error_bind]
        exact .freed p q used key cname inUse

/-- Some entry points to a packet that was freed. -/
def Dangling (m : Cache) : Prop := ∃ p ∈ m.live, ∃ q, (m.entry p).cname = some q ∧ q ∉ m.packets

/-- An entry with the key of the host points to a packet. -/
def Hits (m : Cache) (host : Host) : Prop :=
  ∃ p ∈ m.live, (m.entry p).key = host.key ∧ (m.entry p).cname ≠ none

end Statics

variable {hosts : List (Host × Option Ptr)} {s' : Cache}

section Updates

variable {m s : Cache}

/-- The entry is what a configured host makes of it. -/
structure MadeStatic (host : Host) (e : Entry) : Prop where
  key : e.key = host.key
  ip : e.ip = host.ip
  isStatic : e.isStatic = true
  marker : e.marker = true
  cname : e.cname = none

/-- Every entry is one of the first state, or was made for one of the hosts. -/
structure Adds (hosts : List Host) (m s : Cache) : Prop where
  entry : ∀ p ∈ s.live, (p ∈ m.live ∧ s.entry p = m.entry p) ∨
    ∃ host ∈ hosts, host.name ≠ [] ∧ MadeStatic host (s.entry p)
  packet : s.packet = m.packet

theorem Adds.refl (hosts : List Host) (m : Cache) : Adds hosts m m :=
  ⟨fun _ used => .inl ⟨used, rfl⟩, rfl⟩

variable {host : Host}

theorem Adds.cons {hosts : List Host} {t : Cache} (first : Adds [host] m t)
    (later : Adds hosts t s) : Adds (host :: hosts) m s := by
  refine ⟨fun p used => ?_, later.packet.trans first.packet⟩
  rcases later.entry p used with ⟨old, same⟩ | ⟨other, member, named, made⟩
  · rcases first.entry p old with ⟨older, same'⟩ | ⟨only, member, named, made⟩
    · exact .inl ⟨older, same.trans same'⟩
    · cases List.mem_singleton.mp member
      exact .inr ⟨host, List.mem_cons_self, named, same ▸ made⟩
  · exact .inr ⟨other, List.mem_cons_of_mem host member, named, made⟩

theorem Adds.hits {hosts : List Host} (adds : Adds hosts m s)
    (hits : Hits s host) : Hits m host := by
  obtain ⟨p, used, key, cname⟩ := hits
  rcases adds.entry p used with ⟨old, same⟩ | ⟨_, _, _, made⟩
  · rw [same] at key cname
    exact ⟨p, old, key, cname⟩
  · exact absurd made.cname cname

/-- A block that `malloc` can return is not in use. -/
def FreshBlock (live : List Ptr) (block : Option Ptr) : Prop := ∀ p ∈ block, p ∉ live

theorem shape_setEntry (shape : Shape m) (p : Ptr) (key : e.key = (m.entry p).key) :
    Shape (m.setEntry p e) := by
  refine shape.congr rfl rfl fun q _ => ?_
  by_cases same : q = p
  · subst same
    exact (congrArg Entry.key (update_self ..)).trans key
  · exact congrArg Entry.key (update_of_ne same _ _)

/-- An update of an entry that has no packet, or a new entry without one. -/
theorem Owned.update (owned : Owned m) (noCname : e.cname = none)
    (live : ∀ q ∈ s.live, q = p ∨ q ∈ m.live) (entry : s.entry = update m.entry p e)
    (packets : ∀ q ∈ m.packets, q ∈ s.packets) : Owned s := by
  have apart : ∀ r ∈ s.live, ∀ q, (s.entry r).cname = some q →
      r ∈ m.live ∧ (m.entry r).cname = some q := by
    intro r used q cname
    rw [entry] at cname
    by_cases same : r = p
    · subst same
      rw [update_self, noCname] at cname
      cases cname
    · rw [update_of_ne same] at cname
      exact ⟨(live r used).resolve_left same, cname⟩
  refine ⟨fun r used q cname => ?_, fun r used r' used' q cname cname' => ?_⟩
  · obtain ⟨old, had⟩ := apart r used q cname
    exact packets q (owned.used r old q had)
  · obtain ⟨old, had⟩ := apart r used q cname
    obtain ⟨old', had'⟩ := apart r' used' q cname'
    exact owned.one r old r' old' q had had'

/-- What stays when a host is added. -/
structure Grown (s s' : Cache) : Prop where
  entry : ∀ p ∈ s.live, (s.entry p).cname ≠ none →
    p ∈ s'.live ∧ (s'.entry p).key = (s.entry p).key ∧ (s'.entry p).cname = (s.entry p).cname
  packets : ∀ q ∈ s'.packets, q ∈ s.packets

theorem Grown.hits (grown : Grown s s') (hits : Hits s host) :
    Hits s' host := by
  obtain ⟨p, used, key, cname⟩ := hits
  obtain ⟨used', key', cname'⟩ := grown.entry p used cname
  exact ⟨p, used', key'.trans key, cname' ▸ cname⟩

theorem Grown.dangling (grown : Grown s s') (dangling : Dangling s) :
    Dangling s' := by
  obtain ⟨p, used, q, cname, gone⟩ := dangling
  obtain ⟨used', -, cname'⟩ := grown.entry p used (cname ▸ Option.some_ne_none q)
  exact ⟨p, used', q, cname'.trans cname, fun inside => gone (grown.packets q inside)⟩

theorem grown_setEntry (live : List Ptr) (table : Table Ptr (BitVec 10))
    (packets : List Ptr) (more : ∀ q ∈ s.live, q ∈ live)
    (same : p ∈ s.live → (s.entry p).cname ≠ none →
      e.key = (s.entry p).key ∧ e.cname = (s.entry p).cname)
    (fewer : ∀ q ∈ packets, q ∈ s.packets) :
    Grown s { s with
      live := live, table := table, packets := packets
      entry := update s.entry p e } := by
  refine ⟨fun q used cname => ⟨more q used, ?_⟩, fewer⟩
  change Entry.key (update s.entry p e q) = _ ∧
    Entry.cname (update s.entry p e q) = _
  by_cases here : q = p
  · subst here
    rw [update_self]
    exact same used cname
  · rw [update_of_ne here]
    exact ⟨rfl, rfl⟩

/-- Whatever is in the cache, a host whose name an entry with a packet has leaves the entry
pointing to a packet that was freed. -/
theorem addStatic_grows (shape : Shape s) {block : Option Ptr}
    (fresh : FreshBlock s.live block) (done : cacheAddStatic s host block = .ok s') :
    Shape s' ∧ Grown s s' ∧ (host.name ≠ [] → Hits s host → Dangling s') ∧
      ∀ p ∈ s'.live, block = some p ∨ p ∈ s.live := by
  have adds := cacheAddStatic_cases shape host block
  rw [done] at adds
  cases adds with
  | nothing why =>
    refine ⟨shape, ⟨fun p used _ => ⟨used, rfl, rfl⟩, fun q used => used⟩, fun named hits => ?_,
      fun p used => .inr used⟩
    obtain ⟨p, used, key, -⟩ := hits
    exact absurd key (why.resolve_left named p used)
  | plain p used key cname =>
    have type : (s.entry p).type = 1 := congrArg Prod.snd key
    have sameKey : (makeStatic (s.entry p) host.ip).key = (s.entry p).key := by
      rw [Entry.key, Entry.key, type]
      rfl
    refine ⟨shape_setEntry shape p sameKey, ?_, fun _ hits => ?_, fun q used => .inr used⟩
    · exact grown_setEntry s.live s.table s.packets (fun q used => used)
        (fun _ has => absurd cname has) (fun q used => used)
    · obtain ⟨r, usedR, keyR, has⟩ := hits
      rw [shape.differ r usedR p used (keyR.trans key.symm)] at has
      exact absurd cname has
  | cname p q used key cname inUse entry same =>
    refine ⟨?_, ?_, fun _ _ => ?_, fun q used => .inr used⟩
    · exact (shape_setEntry shape p same.1).congr rfl rfl fun _ _ => rfl
    · exact grown_setEntry s.live s.table _ (fun q used => used)
        (fun _ _ => ⟨same.1, same.2.trans cname.symm⟩) fun r inside => (List.mem_filter.mp inside).1
    · refine ⟨p, used, q, ?_, fun inside => ?_⟩
      · exact (congrArg Entry.cname (update_self ..)).trans same.2
      · have apart := (List.mem_filter.mp inside).2
        rw [decide_eq_true_eq] at apart
        exact apart rfl
  | new p malloc absent entry isNew =>
    obtain ⟨chains, chained⟩ := shape.chained
    have key : entry.key = host.key := by
      rw [isNew]
      rfl
    have notUsed := fresh p malloc
    refine ⟨?_, ?_, fun _ hits => ?_, fun q inside => ?_⟩
    · exact chained.add shape.differ notUsed (fun q used => key ▸ absent q used) rfl rfl rfl
    · exact grown_setEntry _ _ s.packets (fun q used => List.mem_cons_of_mem p used)
        (fun used => absurd used notUsed) fun q used => used
    · obtain ⟨r, usedR, keyR, -⟩ := hits
      exact absurd keyR (absent r usedR)
    · rcases List.mem_cons.mp inside with rfl | old
      · exact .inl malloc
      · exact .inr old

theorem adds_setEntry (live : List Ptr)
    (table : Table Ptr (BitVec 10)) (more : ∀ q ∈ live, q = p ∨ q ∈ s.live)
    (named : host.name ≠ []) (made : MadeStatic host e) :
    Adds [host] s
      { s with live := live, entry := update s.entry p e, table := table } := by
  refine ⟨fun q used => ?_, rfl⟩
  by_cases same : q = p
  · subst same
    refine .inr ⟨host, List.mem_singleton.mpr rfl, named, ?_⟩
    change MadeStatic host (update s.entry q e q)
    rw [update_self]
    exact made
  · exact .inl ⟨(more q used).resolve_left same, update_of_ne same _ _⟩

theorem addStatic_spec (shape : Shape s) (owned : Owned s) {block : Option Ptr}
    (noHit : host.name ≠ [] → ¬ Hits s host) :
    ∃ s', cacheAddStatic s host block = .ok s' ∧ Owned s' ∧ Adds [host] s s' := by
  by_cases named : host.name = []
  · refine ⟨s, ?_, owned, .refl _ s⟩
    rw [cacheAddStatic, if_pos named]
    rfl
  have adds := cacheAddStatic_cases shape host block
  generalize cacheAddStatic s host block = r at adds
  cases adds with
  | nothing => exact ⟨s, rfl, owned, .refl _ s⟩
  | plain p used key cname =>
    have type : (s.entry p).type = 1 := congrArg Prod.snd key
    have made : MadeStatic host (makeStatic (s.entry p) host.ip) := by
      refine ⟨?_, rfl, rfl, rfl, cname⟩
      rw [← key, Entry.key, Entry.key, type]
      rfl
    have more : ∀ q ∈ s.live, q = p ∨ q ∈ s.live := fun q used => .inr used
    exact ⟨_, rfl, owned.update made.cname more rfl (fun q h => h),
      adds_setEntry s.live s.table more named made⟩
  | cname p q used key cname =>
    refine absurd ⟨p, used, key, ?_⟩ (noHit named)
    rw [cname]
    exact Option.some_ne_none q
  | freed p q used key cname =>
    refine absurd ⟨p, used, key, ?_⟩ (noHit named)
    rw [cname]
    exact Option.some_ne_none q
  | new p malloc absent entry isNew =>
    have made : MadeStatic host entry := by
      rw [isNew]
      exact ⟨rfl, rfl, rfl, rfl, rfl⟩
    have more : ∀ q ∈ p :: s.live, q = p ∨ q ∈ s.live := fun q inside => List.mem_cons.mp inside
    exact ⟨_, rfl, owned.update made.cname more rfl (fun q h => h),
      adds_setEntry _ _ more named made⟩

/-- The blocks for the hosts are not in use, and differ. -/
def FreshBlocks (live : List Ptr) (hosts : List (Host × Option Ptr)) : Prop :=
  (hosts.filterMap (·.2)).Nodup ∧ ∀ p ∈ hosts.filterMap (·.2), p ∉ live

theorem FreshBlocks.head {host : Host × Option Ptr}
    (fresh : FreshBlocks s.live (host :: hosts)) : FreshBlock s.live host.2 := by
  intro p malloc
  refine fresh.2 p ?_
  rw [List.filterMap_cons, malloc]
  exact List.mem_cons_self

theorem FreshBlocks.tail {host : Host × Option Ptr} (fresh : FreshBlocks s.live (host :: hosts))
    (live : ∀ p ∈ s'.live, host.2 = some p ∨ p ∈ s.live) : FreshBlocks s'.live hosts := by
  obtain ⟨nodup, unused⟩ := fresh
  rw [List.filterMap_cons] at nodup unused
  cases malloc : host.2 with
  | none =>
    rw [malloc] at nodup unused live
    refine ⟨nodup, fun p inside used => unused p inside ?_⟩
    rcases live p used with impossible | old
    · cases impossible
    · exact old
  | some b =>
    rw [malloc] at nodup unused live
    refine ⟨(List.nodup_cons.mp nodup).2, fun p inside used => ?_⟩
    rcases live p used with same | old
    · cases same
      exact (List.nodup_cons.mp nodup).1 inside
    · exact unused p (List.mem_cons_of_mem b inside) old

theorem addStatics_cons (m : Cache) (host : Host × Option Ptr)
    (hosts : List (Host × Option Ptr)) : addStatics m (host :: hosts) =
      cacheAddStatic m host.1 host.2 >>= fun m => addStatics m hosts := rfl

/-- A host of the configuration has the name of an entry with a packet. -/
def HitsOne (m : Cache) (hosts : List (Host × Option Ptr)) : Prop :=
  ∃ host ∈ hosts, host.1.name ≠ [] ∧ Hits m host.1

theorem addStatics_spec (shape : Shape s) (owned : Owned s)
    (fresh : FreshBlocks s.live hosts) (noHit : ¬ HitsOne s hosts) :
    ∃ s', addStatics s hosts = .ok s' ∧ Shape s' ∧ Owned s' ∧ Adds (hosts.map (·.1)) s s' := by
  induction hosts generalizing s with
  | nil => exact ⟨s, rfl, shape, owned, .refl _ s⟩
  | cons host hosts ih =>
    obtain ⟨t, done, owned', adds⟩ := addStatic_spec shape owned
      fun named hits => noHit ⟨host, List.mem_cons_self, named, hits⟩
    obtain ⟨shape', -, -, live⟩ := addStatic_grows shape fresh.head done
    have noHit' : ¬ HitsOne t hosts := by
      rintro ⟨other, member, named, hits⟩
      exact noHit ⟨other, List.mem_cons_of_mem host member, named, adds.hits hits⟩
    obtain ⟨s', goneOn, shape'', owned'', adds'⟩ := ih shape' owned' (fresh.tail live) noHit'
    refine ⟨s', ?_, shape'', owned'', adds.cons adds'⟩
    rw [addStatics_cons, done, ok_bind]
    exact goneOn

theorem addStatics_dangling (shape : Shape s)
    (fresh : FreshBlocks s.live hosts) (hit : Dangling s ∨ HitsOne s hosts)
    (done : addStatics s hosts = .ok s') : Dangling s' := by
  induction hosts generalizing s with
  | nil =>
    cases done
    rcases hit with dangling | ⟨host, member, -⟩
    · exact dangling
    · cases member
  | cons host hosts ih =>
    rw [addStatics_cons] at done
    obtain ⟨t, first, done⟩ := bind_eq_ok done
    obtain ⟨shape', grown, falls, live⟩ := addStatic_grows shape fresh.head first
    refine ih shape' (fresh.tail live) ?_ done
    rcases hit with dangling | ⟨other, member, named, hits⟩
    · exact .inl (grown.dangling dangling)
    rcases List.mem_cons.mp member with rfl | later
    · exact .inl (falls named hits)
    · exact .inr ⟨other, later, named, grown.hits hits⟩

end Updates

section Runs

variable {m m' : Cache}

inductive Op where
  /-- an answer has reached the end of `process_server` -/
  | insert (a : Answer) (block packetBlock : Option Ptr)
  | updateStatic (hosts : List (Host × Option Ptr))
  | timer
  | clear
  /-- a query for the name and the type is looked up by `process_client` -/
  | reply (name : List Byte) (type : Byte)

def exec (m : Cache) : Op → Except Fault Cache
  | .insert a block packetBlock => cacheInsert m a block packetBlock
  | .updateStatic hosts => cacheUpdateStatic m hosts
  | .timer => cacheTimer m
  | .clear => cacheClear m
  | .reply name type => do
    let _ ← cacheReply m name type
    return m

def Cache.empty : Cache :=
  { live := [], packets := []
    table := { head := fun _ => none, next := fun _ => none }
    entry := fun _ => zeroEntry
    packet := fun _ => { buf := fun _ => 0, len := 0 } }

/-- `malloc` returns blocks that are not in use. -/
def Allowed (m : Cache) : Op → Prop
  | .insert _ block packetBlock => FreshBlock m.live block ∧ FreshBlock m.packets packetBlock
  | .updateStatic hosts => FreshBlocks m.live hosts
  | _ => True

/-- No configured host has the name of an entry with a packet. -/
def NoCname (m : Cache) : Op → Prop
  | .updateStatic hosts => ¬ HitsOne m hosts
  | _ => True

instance decidableAllowed (m : Cache) : ∀ op, Decidable (Allowed m op)
  | .insert _ block packetBlock =>
    inferInstanceAs (Decidable ((∀ p ∈ block, p ∉ m.live) ∧ ∀ q ∈ packetBlock, q ∉ m.packets))
  | .updateStatic hosts =>
    inferInstanceAs (Decidable ((hosts.filterMap (·.2)).Nodup ∧
      ∀ p ∈ hosts.filterMap (·.2), p ∉ m.live))
  | .timer | .clear | .reply .. => .isTrue trivial

instance decidableNoCname (m : Cache) : ∀ op, Decidable (NoCname m op)
  | .updateStatic hosts =>
    inferInstanceAs (Decidable (¬ ∃ host ∈ hosts, host.1.name ≠ [] ∧
      ∃ p ∈ m.live, (m.entry p).key = host.1.key ∧ (m.entry p).cname ≠ none))
  | .insert .. | .timer | .clear | .reply .. => .isTrue trivial

/-- The cache owns its memory and is a map. -/
structure Sound (m : Cache) : Prop where
  chained : ∃ chains, Chained m chains
  differ : KeysDiffer m
  found : ∀ name type, ∃ r, cacheFind m name type = .ok r ∧
    ∀ p, r = some p ↔ p ∈ m.live ∧ (m.entry p).key = (name, type)
  owned : Owned m

theorem Sound.shape (sound : Sound m) : Shape m := ⟨sound.chained, sound.differ⟩

theorem Shape.sound (shape : Shape m) (owned : Owned m) : Sound m :=
  ⟨shape.chained, shape.differ, shape.find, owned⟩

theorem Owned.insert (owned : Owned m) (fresh : p ∉ m.live)
    (live : m'.live = p :: m.live) (entry : m'.entry = Function.update m.entry p e)
    (inUse : ∀ q, e.cname = some q → q ∈ m'.packets ∧ q ∉ m.packets)
    (packets : ∀ q ∈ m.packets, q ∈ m'.packets) : Owned m' := by
  have self : m'.entry p = e := by
    rw [entry, update_self]
  have old : ∀ r ∈ m.live, m'.entry r = m.entry r := by
    intro r used
    rw [entry]
    refine update_of_ne ?_ _ _
    rintro rfl
    exact fresh used
  refine ⟨fun r used q cname => ?_, fun r used r' used' q cname cname' => ?_⟩
  · rw [live] at used
    rcases List.mem_cons.mp used with rfl | before
    · exact (inUse q (self ▸ cname)).1
    · exact packets q (owned.used r before q (old r before ▸ cname))
  · rw [live] at used used'
    rcases List.mem_cons.mp used with rfl | before <;>
      rcases List.mem_cons.mp used' with rfl | before'
    · rfl
    · have had := owned.used r' before' q (old r' before' ▸ cname')
      exact absurd had (inUse q (self ▸ cname)).2
    · have had := owned.used r before q (old r before ▸ cname)
      exact absurd had (inUse q (self ▸ cname')).2
    · exact owned.one r before r' before' q (old r before ▸ cname) (old r' before' ▸ cname')

theorem learned_key (a : Answer) : (learned a).key = (a.queryName, a.queryType) := by
  rw [learned]
  split_ifs <;> rfl

theorem learned_cname (a : Answer) : (learned a).cname = none := by
  rw [learned]
  split_ifs <;> rfl

theorem learned_isStatic (a : Answer) : (learned a).isStatic = false := by
  rw [learned]
  split_ifs <;> rfl

/-- The cache after an entry was added for an answer. -/
def inserted (m : Cache) (p : Ptr) (e : Entry) (packets : List Ptr) (packet : Ptr → Packet) :
    Cache :=
  { live := p :: m.live
    packets := packets
    table := m.table.add (hash e.name) p
    entry := update m.entry p e
    packet := packet }

/-- Everything that an answer can do to the cache. -/
inductive Inserts (m : Cache) (a : Answer) (block packetBlock : Option Ptr) : Cache → Prop
  | found (p : Ptr) (used : p ∈ m.live) (key : (m.entry p).key = (a.queryName, a.queryType)) :
      Inserts m a block packetBlock m
  | noMemory : Inserts m a block packetBlock m
  | plain (p : Ptr) (malloc : block = some p) (type : a.type ≠ 5)
      (absent : ∀ q ∈ m.live, (m.entry q).key ≠ (a.queryName, a.queryType)) :
      Inserts m a block packetBlock (inserted m p (learned a) m.packets m.packet)
  | cname (p q : Ptr) (malloc : block = some p) (mallocPacket : packetBlock = some q)
      (type : a.type = 5)
      (absent : ∀ q ∈ m.live, (m.entry q).key ≠ (a.queryName, a.queryType)) :
      Inserts m a block packetBlock (inserted m p
        { learned a with cname := some q, cnameLen := a.packet.len } (q :: m.packets)
        (update m.packet q a.packet))

theorem cacheInsert_cases (shape : Shape m) (a : Answer) (block packetBlock : Option Ptr)
    (fresh : FreshBlock m.live block) :
    ∃ m', cacheInsert m a block packetBlock = .ok m' ∧ Inserts m a block packetBlock m' := by
  obtain ⟨r, searched, isEntry⟩ := shape.find a.queryName a.queryType
  simp only [cacheInsert, searched, ok_bind]
  cases r with
  | some p =>
    obtain ⟨used, key⟩ := (isEntry p).mp rfl
    exact ⟨m, rfl, .found p used key⟩
  | none =>
    have absent : ∀ q ∈ m.live, (m.entry q).key ≠ (a.queryName, a.queryType) := by
      intro q used same
      cases (isEntry q).mpr ⟨used, same⟩
    cases block with
    | none => exact ⟨m, rfl, .noMemory⟩
    | some p =>
      by_cases type : a.type = 5
      · cases packetBlock with
        | none =>
          refine ⟨m, ?_, .noMemory⟩
          have again : (p :: m.live).filter (· ≠ p) = m.live := by
            rw [List.filter_cons_of_neg (by simp)]
            refine List.filter_eq_self.mpr fun q used => decide_eq_true ?_
            rintro rfl
            exact fresh q rfl used
          simp only [if_pos type, freeEntry, access_ok List.mem_cons_self, again]
        | some q =>
          refine ⟨_, ?_, .cname p q rfl rfl type absent⟩
          simp only [if_pos type, cacheAdd, Cache.setEntry, access_ok List.mem_cons_self,
            update_self]
          rfl
      · refine ⟨_, ?_, .plain p rfl type absent⟩
        simp only [if_neg type, cacheAdd, Cache.setEntry, access_ok List.mem_cons_self,
          update_self]
        rfl

theorem Inserts.kept {a : Answer} {block packetBlock : Option Ptr}
    (inserts : Inserts m a block packetBlock m') (shape : Shape m) (owned : Owned m)
    (fresh : FreshBlock m.live block) (freshPacket : FreshBlock m.packets packetBlock) :
    Shape m' ∧ Owned m' := by
  obtain ⟨chains, chained⟩ := shape.chained
  cases inserts with
  | found => exact ⟨shape, owned⟩
  | noMemory => exact ⟨shape, owned⟩
  | plain p malloc type absent =>
    have unused := fresh p malloc
    refine ⟨?_, owned.insert unused rfl rfl (fun q cname => ?_) (fun q used => used)⟩
    · refine chained.add shape.differ unused ?_ rfl rfl rfl
      rw [learned_key]
      exact absent
    · rw [learned_cname] at cname
      cases cname
  | cname p q malloc mallocPacket type absent =>
    have unused := fresh p malloc
    refine ⟨?_, owned.insert unused rfl rfl (fun r cname => ?_)
      (fun r used => List.mem_cons_of_mem q used)⟩
    · refine chained.add shape.differ unused ?_ rfl rfl rfl
      rw [show Entry.key { learned a with cname := some q, cnameLen := a.packet.len } =
        (a.queryName, a.queryType) from learned_key a]
      exact absent
    · cases cname
      exact ⟨List.mem_cons_self, freshPacket q mallocPacket⟩

theorem cacheReply_ok (shape : Shape m) (owned : Owned m) (name : List Byte) (type : Byte) :
    ∃ r, cacheReply m name type = .ok r := by
  obtain ⟨r, searched, isEntry⟩ := shape.find name type
  simp only [cacheReply, searched, ok_bind]
  cases r with
  | none => exact ⟨none, rfl⟩
  | some p =>
    obtain ⟨used, -⟩ := (isEntry p).mp rfl
    cases cname : (m.entry p).cname with
    | none =>
      simp only [cname]
      exact ⟨_, rfl⟩
    | some q =>
      simp only [cname, access_ok (owned.used p used q cname)]
      exact ⟨_, rfl⟩

theorem Same.hits {host : Host} (same : Same m m') : Hits m' host ↔ Hits m host := by
  obtain ⟨fewer, live, -, -⟩ := same
  constructor
  · rintro ⟨p, used, key, cname⟩
    exact ⟨p, fewer.live p used, (fewer.key used).symm.trans key, fewer.cname used ▸ cname⟩
  · rintro ⟨p, used, key, cname⟩
    have used' : p ∈ m'.live := live ▸ used
    exact ⟨p, used', (fewer.key used').trans key, (fewer.cname used').symm ▸ cname⟩

theorem Same.hitsOne (same : Same m m') :
    HitsOne m' hosts ↔ HitsOne m hosts := by
  rw [HitsOne, HitsOne]
  simp only [same.hits]

theorem cacheUpdateStatic_spec (shape : Shape m)
    (owned : Owned m) (fresh : FreshBlocks m.live hosts) (noHit : ¬ HitsOne m hosts) :
    ∃ t m', cacheUpdateStatic m hosts = .ok m' ∧ Shape m' ∧ Owned m' ∧ Same m t ∧
      (∀ p ∈ t.live, Unmarked (t.entry p)) ∧ Adds (hosts.map (·.1)) t m' := by
  obtain ⟨t, cleared, shapeT, ownedT, same, unmarked⟩ := clearMarkers_spec shape owned
  have freshT : FreshBlocks t.live hosts := same.live.symm ▸ fresh
  obtain ⟨m', added, shape', owned', adds⟩ := addStatics_spec shapeT ownedT freshT
    fun hits => noHit (same.hitsOne.mp hits)
  refine ⟨t, m', ?_, shape', owned', same, unmarked, adds⟩
  simp only [cacheUpdateStatic, cleared, ok_bind, added]

theorem exec_spec (sound : Sound m) (op : Op) (allowed : Allowed m op) (noCname : NoCname m op) :
    ∃ m', exec m op = .ok m' ∧ Sound m' := by
  have shape := sound.shape
  have owned := sound.owned
  cases op with
  | insert a block packetBlock =>
    obtain ⟨m', done, inserts⟩ := cacheInsert_cases shape a block packetBlock allowed.1
    obtain ⟨shape', owned'⟩ := inserts.kept shape owned allowed.1 allowed.2
    exact ⟨m', done, shape'.sound owned'⟩
  | updateStatic hosts =>
    obtain ⟨_, m', done, shape', owned', -⟩ := cacheUpdateStatic_spec shape owned allowed noCname
    exact ⟨m', done, shape'.sound owned'⟩
  | timer =>
    obtain ⟨m', done, shape', owned', -⟩ := cacheTimer_spec shape owned
    exact ⟨m', done, shape'.sound owned'⟩
  | clear =>
    obtain ⟨m', done, shape', owned', -⟩ := cacheClear_spec shape owned
    exact ⟨m', done, shape'.sound owned'⟩
  | reply name type =>
    obtain ⟨r, done⟩ := cacheReply_ok shape owned name type
    refine ⟨m, ?_, sound⟩
    simp only [exec, done, ok_bind, pure_eq_ok]

theorem exec_dangling (sound : Sound m) (op : Op) (allowed : Allowed m op)
    (hit : ¬ NoCname m op) (done : exec m op = .ok m') : Dangling m' := by
  cases op with
  | updateStatic hosts =>
    obtain ⟨t, cleared, shapeT, -, same, -⟩ := clearMarkers_spec sound.shape sound.owned
    have freshT : FreshBlocks t.live hosts := same.live.symm ▸ allowed
    have hits : HitsOne m hosts := not_not.mp hit
    simp only [exec, cacheUpdateStatic, cleared, ok_bind] at done
    exact addStatics_dangling shapeT freshT (.inr (same.hitsOne.mpr hits)) done
  | insert => exact absurd trivial hit
  | timer => exact absurd trivial hit
  | clear => exact absurd trivial hit
  | reply => exact absurd trivial hit

theorem Dangling.not_sound (dangling : Dangling m) : ¬ Sound m := by
  intro sound
  obtain ⟨p, used, q, cname, gone⟩ := dangling
  exact gone (sound.owned.used p used q cname)

theorem empty_sound : Sound Cache.empty := by
  refine Shape.sound ⟨⟨fun _ => [], ?_⟩, ?_⟩ ⟨?_, ?_⟩
  · refine ⟨fun _ => rfl, fun _ => List.nodup_nil, fun h p => ?_⟩
    rw [Cache.empty]
    simp
  · exact fun p used => absurd used List.not_mem_nil
  · exact fun p used => absurd used List.not_mem_nil
  · exact fun p used => absurd used List.not_mem_nil

/-- In every run the cache is a map that owns its packets, and nothing that was freed is
touched, exactly when no host is ever configured whose name an entry with a packet has. -/
theorem cache_sound_iff (ops : List Op) (allowed : Along exec Allowed ops Cache.empty) :
    (∀ front, front <+: ops → ∃ m, run exec front Cache.empty = .ok m ∧ Sound m) ↔
      Along exec NoCname ops Cache.empty :=
  prefixes_iff (fun _ op sound allowed noCname => exec_spec sound op allowed noCname)
    (fun _ op _ sound allowed hit done => (exec_dangling sound op allowed hit done).not_sound)
    allowed empty_sound

/-- An answer for the name `a`. -/
def demoAnswer (type : BitVec 16) : Answer :=
  { queryName := [1, 0x61], queryType := 1, flags := 0x8180, ttl := 60, type := type
    address := 0x0a000001, addressV6 := []
    packet := { buf := fun _ => 0, len := 40 } }

/-- The name of an answer is configured, the timer runs, and the name is asked for. -/
def demoOps (type : BitVec 16) : List Op :=
  [.insert (demoAnswer type) (some 0) (some 0),
    .updateStatic [({ name := [0x61], ip := 0x0a000002 }, some 1)], .timer, .reply [1, 0x61] 1]

theorem cache_sound_demo :
    Along exec Allowed (demoOps 1) Cache.empty ∧
      ∀ front, front <+: demoOps 1 → ∃ m, run exec front Cache.empty = .ok m ∧ Sound m := by
  have allowed : Along exec Allowed (demoOps 1) Cache.empty := by
    decide +kernel
  exact ⟨allowed, (cache_sound_iff (demoOps 1) allowed).mpr (by decide +kernel)⟩

/-- The answer was a CNAME one: its packet is freed, and read by the reply. -/
theorem cache_sound_cname :
    ¬ ∀ ops, Along exec Allowed ops Cache.empty →
      ∀ front, front <+: ops → ∃ m, run exec front Cache.empty = .ok m ∧ Sound m := by
  intro holds
  have allowed : Along exec Allowed (demoOps 5) Cache.empty := by
    decide +kernel
  obtain ⟨m, ran, -⟩ := holds (demoOps 5) allowed (demoOps 5) (List.prefix_refl _)
  have fails : (run exec (demoOps 5) Cache.empty).isOk = false := by
    decide +kernel
  rw [ran] at fails
  cases fails

end Runs

end DnsCache
