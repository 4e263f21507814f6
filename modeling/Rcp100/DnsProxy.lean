import Rcp100.DnsMessages
import Rcp100.DnsRequests

/-!
# The DNS proxy

A datagram is a query of a client, or a response of a server to a query that was forwarded.
What is behind the received bytes in the memory, random numbers, sockets, blocks of memory
and failures come from outside.
-/

namespace DnsProxy

open ChainTable FaultRuns DnsPacket DnsRequests DnsMessages
open DnsCache (Cache Entry Packet Host Answer cString FreshBlock HitsOne Inserts Owned Shape Sound
  cacheReply)
open Function (update update_of_ne update_self)
open DnsRequests (Ptr)

structure Config where
  nameServer1 : BitVec 32
  nameServer2 : BitVec 32
  dnsRateLimit : BitVec 16
  domainName : List Byte
  clientSock : Nat

structure Proxy where
  config : Config
  /-- `last_server` is 1 -/
  lastServer1 : Bool
  rateLimit : BitVec 16
  requests : Requests
  cache : Cache

/-- What `recvfrom` returns for a socket. -/
structure Datagram where
  sock : Nat
  ip : BitVec 32
  port : BitVec 16
  buf : Buffer
  len : Nat

/-- What the system adds to a datagram. -/
structure World where
  /-- the extracted fields that are in the memory before -/
  old : Fields
  /-- the packet that a reply is built in -/
  out : Buffer
  /-- the numbers for `get_new_tid` -/
  tids : List (BitVec 16)
  /-- the number for the port -/
  random : BitVec 32
  /-- the socket for the port, or zero -/
  sock : Nat
  /-- whether `sendto` succeeds -/
  sends : Bool
  block : Option DnsCache.Ptr
  packetBlock : Option DnsCache.Ptr

/-- What `sendto` is called with. -/
structure Message where
  sock : Nat
  ip : BitVec 32
  port : BitVec 16
  buf : Buffer
  len : Nat

/-- What a datagram leads to. -/
inductive Effect where
  | nothing
  /-- `process_client` replies from the cache -/
  | reply (message : Message)
  /-- `process_client` has queued a request, and `sendto` is called -/
  | asked (req : Ptr) (message : Message)
  /-- `process_server` has forwarded a response -/
  | answered (req : Ptr) (message : Message)

def write8 (buf : Buffer) (ptr : Nat) (b : Byte) : Buffer := update buf ptr b

def write16 (buf : Buffer) (ptr : Nat) (data : BitVec 16) : Buffer :=
  write8 (write8 buf ptr (data.extractLsb' 8 8)) (ptr + 1) (data.extractLsb' 0 8)

def write32 (buf : Buffer) (ptr : Nat) (data : BitVec 32) : Buffer :=
  write16 (write16 buf ptr (data.extractLsb' 16 16)) (ptr + 2) (data.extractLsb' 0 16)

def writeBytes (buf : Buffer) (ptr : Nat) : List Byte → Buffer
  | [] => buf
  | b :: rest => writeBytes (write8 buf ptr b) (ptr + 1) rest

/-- The transaction id is at the start of a packet. -/
def setTid (buf : Buffer) (tid : BitVec 16) : Buffer := write16 buf 0 tid

/-- The packet and its length. The bytes are written in the order of their places. -/
def dnspktBuild (out : Buffer) (dc : Entry) (packet : Option Packet) (tid : BitVec 16) :
    Buffer × Nat :=
  match packet with
  | some packet => (setTid packet.buf tid, packet.len)
  | none =>
    let type := dc.type.setWidth 16
    let out := write16 out 0 tid
    let out := write16 out 2 dc.flags
    let out := write16 out 4 1
    let out := write16 out 6 1
    let out := write16 out 8 0
    let out := write16 out 10 0
    let out := writeBytes out 12 (dc.name ++ [0])
    let ptr := 12 + (dc.name.length + 1)
    let out := write16 out ptr type
    let out := write16 out (ptr + 2) 1
    let out := write16 out (ptr + 4) 0xc00c
    let out := write16 out (ptr + 6) type
    let out := write16 out (ptr + 8) 1
    let out := write32 out (ptr + 10) dc.ttl
    if dc.type = 1 then
      (write32 (write16 out (ptr + 14) 4) (ptr + 16) dc.ip, ptr + 20)
    else if dc.type = 28 then
      (writeBytes (write16 out (ptr + 14) 16) (ptr + 16) dc.ipv6, ptr + 32)
    else (out, ptr + 4)

/-- Reads through a pointer, which is NULL where there is nothing. -/
def deref {α : Type} : Option α → Except Fault α
  | some a => .ok a
  | none => .error .freed

/-- The server for a query, and whether it is the first one then. -/
def pickServer (config : Config) (lastServer1 : Bool) : BitVec 32 × Bool :=
  if lastServer1 then
    if config.nameServer2 ≠ 0 then (config.nameServer2, false) else (config.nameServer1, true)
  else
    if config.nameServer1 ≠ 0 then (config.nameServer1, true) else (config.nameServer2, false)

/-- The name without dots, if it has none. -/
def isUnqualified (name : List Byte) : Option (List Byte) :=
  match getRealName name with
  | none => none
  | some rn => if 0x2e ∈ rn then none else some rn

/-- The name that is looked up in the cache. -/
def lookupName (config : Config) (queryName : List Byte) : List Byte :=
  match isUnqualified queryName with
  | none => cString queryName
  | some name =>
    if maxDomainName < name.length + config.domainName.length then cString queryName
    else name ++ config.domainName

/-- The part of `process_client` that looks into the cache; nothing where it goes on. -/
def replyFromCache (m : Proxy) (d : Datagram) (f : Fields) (w : World) :
    Except Fault (Option Effect) := do
  if ¬ (f.queryType = 1 ∨ f.queryType = 28 ∨ f.queryType = 5) then return none
  match ← cacheReply m.cache (lookupName m.config f.queryName) f.queryType with
  | none => return none
  | some (dc, packet) =>
    let (out, outLen) := dnspktBuild w.out dc packet (read16 d.buf 0)
    if outLen ≤ 12 then return some .nothing
    else if w.sends = false then return some .nothing
    else return some (.reply
      { sock := m.config.clientSock, ip := d.ip, port := d.port, buf := out, len := outLen })

/-- The end of `process_client`: the query is forwarded with a new transaction id. -/
def queueQuery (m : Proxy) (d : Datagram) (f : Fields) (w : World) (serverIp : BitVec 32) :
    Except Fault (Proxy × Effect) := do
  let name ← deref (getRealName f.queryName)
  let (requests, newTid, req) ← queueRequest m.requests w.tids { zeroReq with
    clientTid := read16 d.buf 0
    clientIp := d.ip
    clientPort := d.port
    serverIp := serverIp
    queryType := f.queryType.setWidth 16
    queryName := name.take maxDomainName } w.random w.sock
  let m := { m with requests := requests }
  match req with
  | none => return (m, .nothing)
  | some p => return (m, .asked p
      { sock := (requests.req p).sock, ip := serverIp, port := 53
        buf := setTid d.buf newTid, len := d.len })

/-- The part of `process_client` behind the cache. -/
def forwardQuery (m : Proxy) (d : Datagram) (f : Fields) (w : World) (serverIp : BitVec 32) :
    Except Fault (Proxy × Effect) :=
  if m.config.dnsRateLimit ≠ 0 then
    let m := { m with rateLimit := m.rateLimit + 1 }
    if m.config.dnsRateLimit < m.rateLimit then return (m, .nothing)
    else queueQuery m d f w serverIp
  else queueQuery m d f w serverIp

def processClient (m : Proxy) (d : Datagram) (f : Fields) (w : World) :
    Except Fault (Proxy × Effect) := do
  let (serverIp, lastServer1) := pickServer m.config m.lastServer1
  let m := { m with lastServer1 := lastServer1 }
  if serverIp = 0 then return (m, .nothing)
  match ← replyFromCache m d f w with
  | some effect => return (m, effect)
  | none => forwardQuery m d f w serverIp

/-- What is put into the cache for a response; nothing where it is not cached. -/
def cachedAnswer (f : Fields) (packet : Packet) : Option Answer :=
  if f.errorCode ≠ 0 then none
  else if f.ttl.slt 10 then none
  else
    let ttl := if maxTtl.slt f.ttl then maxTtl else f.ttl
    if f.type ≠ 1 ∧ f.type ≠ 28 ∧ f.type ≠ 5 then none
    else some
      { queryName := cString f.queryName
        queryType := f.queryType
        flags := f.flags
        ttl := ttl
        type := f.type
        address := f.address
        addressV6 := f.addressV6
        packet := packet }

def processServer (m : Proxy) (d : Datagram) (f : Fields) (w : World) :
    Except Fault (Proxy × Effect) := do
  match ← rqFind m.requests (read16 d.buf 0) with
  | none => return (m, .nothing)
  | some p =>
    let req := m.requests.req p
    if d.ip ≠ req.serverIp then return (m, .nothing)
    if req.queryType ≠ f.queryType.setWidth 16 then return (m, .nothing)
    let name ← deref (getRealName f.queryName)
    if req.queryName ≠ name then return (m, .nothing)
    let buf := setTid d.buf req.clientTid
    if w.sends = false then return (m, .nothing)
    let message : Message :=
      { sock := m.config.clientSock, ip := req.clientIp, port := req.clientPort
        buf := buf, len := d.len }
    let requests ← retire m.requests p
    let m := { m with requests := requests }
    match cachedAnswer f { buf := buf, len := d.len } with
    | none => return (m, .answered p message)
    | some answer =>
      let cache ← DnsCache.cacheInsert m.cache answer w.block w.packetBlock
      return ({ m with cache := cache }, .answered p message)

/-- The datagram is from a configured server. -/
def fromServer (config : Config) (d : Datagram) : Bool :=
  (config.nameServer1 ≠ 0 && config.nameServer1 = d.ip) ||
    (config.nameServer2 ≠ 0 && config.nameServer2 = d.ip)

def rxPacket (m : Proxy) (d : Datagram) (w : World) : Except Fault (Proxy × Effect) := do
  let (bad, f) := dnspktVerify d.buf d.len w.old
  if bad then return (m, .nothing)
  if fromServer m.config d then
    if ← rqSock m.requests d.sock then processServer m d f w else return (m, .nothing)
  else
    if d.sock = m.config.clientSock then processClient m d f w else return (m, .nothing)

/-- A second without anything to receive. -/
def tick (m : Proxy) : Except Fault Proxy := do
  let cache ← DnsCache.cacheTimer m.cache
  let requests ← rqTimer m.requests
  return { m with cache := cache, requests := requests, rateLimit := 0 }

inductive Op where
  | receive (d : Datagram) (w : World)
  | timer
  | updateStatic (hosts : List (Host × Option DnsCache.Ptr))
  | clear
  | configure (config : Config)

def exec (m : Proxy) : Op → Except Fault (Proxy × Effect)
  | .receive d w => rxPacket m d w
  | .timer => do
    let m ← tick m
    return (m, .nothing)
  | .updateStatic hosts => do
    let cache ← DnsCache.cacheUpdateStatic m.cache hosts
    return ({ m with cache := cache }, .nothing)
  | .clear => do
    let cache ← DnsCache.cacheClear m.cache
    return ({ m with cache := cache }, .nothing)
  | .configure config => return ({ m with config := config }, .nothing)

section Cases

variable {m : Proxy} {d : Datagram} {f : Fields} {w : World} {act inact : List Ptr}

/-- The request has the id, the server and the question of a response, as the proxy compares
them. -/
structure Fits (r : Req) (d : Datagram) (f : Fields) : Prop where
  tid : r.newTid = read16 d.buf 0
  server : d.ip = r.serverIp
  type : r.queryType = f.queryType.setWidth 16
  name : some r.queryName = getRealName f.queryName

/-- The message that goes to the client of a request. -/
def toClient (m : Proxy) (d : Datagram) (r : Req) : Message :=
  { sock := m.config.clientSock, ip := r.clientIp, port := r.clientPort
    buf := setTid d.buf r.clientTid, len := d.len }

/-- Everything that `process_server` can do. -/
inductive Serves (m : Proxy) (act inact : List Ptr) (d : Datagram) (f : Fields)
    (w : World) : Proxy × Effect → Prop
  | ignored (why : ∀ p ∈ act, Fits (m.requests.req p) d f → w.sends = false) :
      Serves m act inact d f w (m, .nothing)
  | forwarded (p : Ptr) (member : p ∈ act) (fits : Fits (m.requests.req p) d f)
      (sends : w.sends = true) (requests : Requests) (cache : Cache)
      (pool : Pool requests (act.erase p) (p :: inact))
      (req : requests.req =
        update m.requests.req p { m.requests.req p with sock := 0 })
      (cached : let packet : Packet :=
          { buf := setTid d.buf (m.requests.req p).clientTid, len := d.len }
        (cachedAnswer f packet = none ∧ cache = m.cache) ∨
        ∃ answer, cachedAnswer f packet = some answer ∧
          Inserts m.cache answer w.block w.packetBlock cache) :
      Serves m act inact d f w ({ m with requests := requests, cache := cache },
        .answered p (toClient m d (m.requests.req p)))

theorem processServer_cases (pool : Pool m.requests act inact)
    (differ : TidsDiffer m.requests act) (shape : Shape m.cache)
    (fresh : FreshBlock m.cache.live w.block)
    (named : ∃ name, getRealName f.queryName = some name) :
    ∃ r, processServer m d f w = .ok r ∧ Serves m act inact d f w r := by
  obtain ⟨found, searched, isReq⟩ := pool.rqFind differ (read16 d.buf 0)
  simp only [processServer, searched, ok_bind]
  obtain ⟨name, isName⟩ := named
  cases found with
  | none =>
    refine ⟨_, rfl, .ignored fun p member fits => ?_⟩
    cases (isReq p).mpr ⟨member, fits.tid⟩
  | some p =>
    obtain ⟨member, tid⟩ := (isReq p).mp rfl
    have only : ∀ q ∈ act, Fits (m.requests.req q) d f → q = p := fun q inAct fits =>
      differ q inAct p member (fits.tid.trans tid.symm)
    dsimp only
    by_cases server : d.ip = (m.requests.req p).serverIp
    swap
    · refine ⟨_, if_pos server, .ignored fun q inAct fits => ?_⟩
      cases only q inAct fits
      exact absurd fits.server server
    rw [if_neg (not_not.mpr server)]
    by_cases type : (m.requests.req p).queryType = f.queryType.setWidth 16
    swap
    · refine ⟨_, if_pos type, .ignored fun q inAct fits => ?_⟩
      cases only q inAct fits
      exact absurd fits.type type
    rw [if_neg (not_not.mpr type), isName]
    simp only [deref, ok_bind]
    by_cases sameName : (m.requests.req p).queryName = name
    swap
    · refine ⟨_, if_pos sameName, .ignored fun q inAct fits => ?_⟩
      cases only q inAct fits
      exact absurd (Option.some.inj (fits.name.trans isName)) sameName
    rw [if_neg (not_not.mpr sameName)]
    by_cases sends : w.sends = true
    swap
    · rw [Bool.not_eq_true] at sends
      exact ⟨_, if_pos sends, .ignored fun _ _ _ => sends⟩
    rw [if_neg (by rw [sends]; decide)]
    obtain ⟨requests, retired, pool', -, req⟩ := retire_spec pool member
    have fits : Fits (m.requests.req p) d f :=
      ⟨tid, server, type, by rw [sameName, isName]⟩
    simp only [retired, ok_bind]
    cases cached : cachedAnswer f
        { buf := setTid d.buf (m.requests.req p).clientTid, len := d.len } with
    | none =>
      exact ⟨_, rfl, .forwarded p member fits sends requests m.cache pool' req
        (.inl ⟨cached, rfl⟩)⟩
    | some answer =>
      obtain ⟨cache, inserted, inserts⟩ := DnsCache.cacheInsert_cases shape answer w.block
        w.packetBlock fresh
      simp only [inserted, ok_bind]
      exact ⟨_, rfl, .forwarded p member fits sends requests cache pool' req
        (.inr ⟨answer, cached, inserts⟩)⟩

/-- The data of the request for a query. -/
def requestData (d : Datagram) (f : Fields) (serverIp : BitVec 32) (name : List Byte) : Req :=
  { zeroReq with
    clientTid := read16 d.buf 0
    clientIp := d.ip
    clientPort := d.port
    serverIp := serverIp
    queryType := f.queryType.setWidth 16
    queryName := name }

/-- Everything that `process_client` can do. -/
inductive Asks (m : Proxy) (act inact : List Ptr) (d : Datagram) (f : Fields)
    (w : World) : Proxy × Effect → Prop
  | nothing (lastServer1 : Bool) (rateLimit : BitVec 16) :
      Asks m act inact d f w
        ({ m with lastServer1 := lastServer1, rateLimit := rateLimit }, .nothing)
  | reply (lastServer1 : Bool) (rateLimit : BitVec 16) (dc : Entry) (packet : Option Packet)
      (type : f.queryType = 1 ∨ f.queryType = 28 ∨ f.queryType = 5)
      (found : cacheReply m.cache (lookupName m.config f.queryName) f.queryType =
        .ok (some (dc, packet))) :
      Asks m act inact d f w ({ m with lastServer1 := lastServer1, rateLimit := rateLimit }, .reply
        { sock := m.config.clientSock, ip := d.ip, port := d.port
          buf := (dnspktBuild w.out dc packet (read16 d.buf 0)).1
          len := (dnspktBuild w.out dc packet (read16 d.buf 0)).2 })
  | asked (lastServer1 : Bool) (rateLimit : BitVec 16) (serverIp : BitVec 32) (name : List Byte)
      (isName : getRealName f.queryName = some name) (p : Ptr)
      (rest : List Ptr) (isFirst : inact = p :: rest) (newTid : BitVec 16)
      (unused : ∀ q ∈ act, (m.requests.req q).newTid ≠ newTid) (requests : Requests)
      (pool : Pool requests (p :: act) rest)
      (req : requests.req = update m.requests.req p
        (queued (requestData d f serverIp name) newTid w.random w.sock)) :
      Asks m act inact d f w
        ({ m with lastServer1 := lastServer1, rateLimit := rateLimit, requests := requests },
          .asked p { sock := w.sock, ip := serverIp, port := 53
                     buf := setTid d.buf newTid, len := d.len })

theorem queueQuery_cases (pool : Pool m.requests act inact)
    (differ : TidsDiffer m.requests act)
    (fresh : ∃ tid ∈ w.tids, rqFind m.requests tid = .ok none)
    (named : ∃ name, getRealName f.queryName = some name ∧ name.length < maxDomainName)
    (serverIp : BitVec 32) :
    ∃ r, queueQuery m d f w serverIp = .ok r ∧ Asks m act inact d f w r := by
  obtain ⟨name, isName, short⟩ := named
  have unusedId : ∃ tid ∈ w.tids, ∀ p ∈ act, (m.requests.req p).newTid ≠ tid := by
    obtain ⟨tid, inside, absent⟩ := fresh
    refine ⟨tid, inside, fun p member same => ?_⟩
    obtain ⟨r, searched, isReq⟩ := pool.rqFind differ tid
    rw [absent] at searched
    cases (Except.ok.inj searched).trans ((isReq p).mpr ⟨member, same⟩)
  rw [queueQuery, isName]
  simp only [deref, ok_bind, List.take_of_length_le (Nat.le_of_lt short)]
  obtain ⟨newTid, -, unused, ⟨-, full⟩ | ⟨p, rest, requests, isFirst, queuedOk, pool', -, req⟩⟩ :=
    queueRequest_spec pool differ (requestData d f serverIp name) w.random w.sock unusedId
  · rw [requestData] at full
    simp only [full, ok_bind]
    exact ⟨_, rfl, .nothing m.lastServer1 m.rateLimit⟩
  · have sock : (requests.req p).sock = w.sock := by
      rw [req, update_self]
      rfl
    rw [requestData] at queuedOk
    simp only [queuedOk, ok_bind, sock]
    exact ⟨_, rfl, .asked m.lastServer1 m.rateLimit serverIp name isName p rest isFirst newTid
      unused requests pool' req⟩

theorem Asks.shift {lastServer1 : Bool} {rateLimit : BitVec 16} {r : Proxy × Effect}
    (asks : Asks { m with lastServer1 := lastServer1, rateLimit := rateLimit } act inact d f w r) :
    Asks m act inact d f w r := by
  cases asks with
  | nothing lastServer1 rateLimit => exact .nothing lastServer1 rateLimit
  | reply lastServer1 rateLimit dc packet type found =>
    exact .reply lastServer1 rateLimit dc packet type found
  | asked lastServer1 rateLimit serverIp name isName p rest isFirst newTid unused requests pool
      req =>
    exact Asks.asked (m := m) lastServer1 rateLimit serverIp name isName p rest isFirst newTid
      unused requests pool req

theorem forwardQuery_cases (pool : Pool m.requests act inact)
    (differ : TidsDiffer m.requests act)
    (fresh : ∃ tid ∈ w.tids, rqFind m.requests tid = .ok none)
    (named : ∃ name, getRealName f.queryName = some name ∧ name.length < maxDomainName)
    (serverIp : BitVec 32) :
    ∃ r, forwardQuery m d f w serverIp = .ok r ∧ Asks m act inact d f w r := by
  rw [forwardQuery]
  by_cases limited : m.config.dnsRateLimit ≠ 0
  swap
  · rw [if_neg limited]
    exact queueQuery_cases pool differ fresh named serverIp
  rw [if_pos limited]
  dsimp only
  by_cases exceeded : m.config.dnsRateLimit < m.rateLimit + 1
  · rw [if_pos exceeded]
    exact ⟨_, rfl, .nothing m.lastServer1 (m.rateLimit + 1)⟩
  · rw [if_neg exceeded]
    obtain ⟨r, done, asks⟩ := queueQuery_cases (m := { m with rateLimit := m.rateLimit + 1 }) pool
      differ fresh named serverIp
    exact ⟨r, done, asks.shift⟩

theorem processClient_cases (pool : Pool m.requests act inact)
    (differ : TidsDiffer m.requests act) (shape : Shape m.cache)
    (owned : Owned m.cache)
    (fresh : ∃ tid ∈ w.tids, rqFind m.requests tid = .ok none)
    (named : ∃ name, getRealName f.queryName = some name ∧ name.length < maxDomainName) :
    ∃ r, processClient m d f w = .ok r ∧ Asks m act inact d f w r := by
  simp only [processClient]
  generalize pickServer m.config m.lastServer1 = picked
  obtain ⟨serverIp, lastServer1⟩ := picked
  dsimp only
  by_cases none : serverIp = 0
  · rw [if_pos none]
    exact ⟨_, rfl, .nothing lastServer1 m.rateLimit⟩
  rw [if_neg none]
  have goOn : ∃ r, forwardQuery { m with lastServer1 := lastServer1 } d f w serverIp = .ok r ∧
      Asks m act inact d f w r := by
    obtain ⟨r, done, asks⟩ := forwardQuery_cases (m := { m with lastServer1 := lastServer1 }) pool
      differ fresh named serverIp
    exact ⟨r, done, asks.shift⟩
  simp only [replyFromCache]
  by_cases type : f.queryType = 1 ∨ f.queryType = 28 ∨ f.queryType = 5
  swap
  · rw [if_pos type]
    exact goOn
  rw [if_neg (not_not.mpr type)]
  obtain ⟨r, looked⟩ := DnsCache.cacheReply_ok shape owned (lookupName m.config f.queryName)
    f.queryType
  simp only [looked, ok_bind]
  cases r with
  | none => exact goOn
  | some found =>
    obtain ⟨dc, packet⟩ := found
    dsimp only
    by_cases short : (dnspktBuild w.out dc packet (read16 d.buf 0)).2 ≤ 12
    · rw [if_pos short]
      exact ⟨_, rfl, .nothing lastServer1 m.rateLimit⟩
    rw [if_neg short]
    by_cases sends : w.sends = false
    · rw [if_pos sends]
      exact ⟨_, rfl, .nothing lastServer1 m.rateLimit⟩
    · rw [if_neg sends]
      exact ⟨_, rfl, .reply lastServer1 m.rateLimit dc packet type looked⟩

end Cases

section Received

variable {m : Proxy} {d : Datagram} {w : World} {act inact : List Ptr}

/-- What is extracted of a datagram. -/
def extracted (d : Datagram) (w : World) : Fields := (dnspktVerify d.buf d.len w.old).2

/-- The datagram gets to `process_server`. -/
structure ToServer (m : Proxy) (act : List Ptr) (d : Datagram) (w : World) :
    Prop where
  good : (dnspktVerify d.buf d.len w.old).1 = false
  fromServer : fromServer m.config d = true
  sock : ∃ p ∈ act, (m.requests.req p).sock = d.sock

/-- Everything that a datagram can do. -/
inductive Receives (m : Proxy) (act inact : List Ptr) (d : Datagram) (w : World) :
    Proxy × Effect → Prop
  | dropped (why : ¬ ToServer m act d w) : Receives m act inact d w (m, .nothing)
  | server (delivered : ToServer m act d w) (r : Proxy × Effect)
      (serves : Serves m act inact d (extracted d w) w r) : Receives m act inact d w r
  | client (other : fromServer m.config d = false) (sock : d.sock = m.config.clientSock)
      (r : Proxy × Effect) (asks : Asks m act inact d (extracted d w) w r) :
      Receives m act inact d w r

theorem rqSock_spec {requests : Requests} (pool : Pool requests act inact) (sock : Nat) :
    ∃ b, rqSock requests sock = .ok b ∧ (b = true ↔ ∃ p ∈ act, (requests.req p).sock = sock) := by
  refine ⟨_, by rw [rqSock, pool.find]; rfl, ?_⟩
  rw [List.find?_isSome]
  simp only [decide_eq_true_eq]

theorem rxPacket_cases (pool : Pool m.requests act inact) (differ : TidsDiffer m.requests act)
    (sound : Sound m.cache)
    (freshId : ∃ tid ∈ w.tids, rqFind m.requests tid = .ok none)
    (fresh : FreshBlock m.cache.live w.block) :
    ∃ r, rxPacket m d w = .ok r ∧ Receives m act inact d w r := by
  obtain ⟨name, isName, short⟩ := verify_realName d.buf d.len w.old
  have fields : dnspktVerify d.buf d.len w.old =
    ((dnspktVerify d.buf d.len w.old).1, extracted d w) := rfl
  rw [rxPacket, fields]
  dsimp only
  by_cases bad : (dnspktVerify d.buf d.len w.old).1 = true
  · rw [if_pos bad]
    refine ⟨_, rfl, .dropped fun toServer => ?_⟩
    rw [toServer.good] at bad
    cases bad
  rw [if_neg bad]
  rw [Bool.not_eq_true] at bad
  by_cases server : fromServer m.config d = true
  · rw [if_pos server]
    obtain ⟨b, searched, found⟩ := rqSock_spec pool d.sock
    rw [searched, ok_bind]
    by_cases isSock : b = true
    · rw [if_pos isSock]
      obtain ⟨r, served, serves⟩ := processServer_cases (f := extracted d w) pool differ sound.shape
        fresh ⟨name, isName⟩
      exact ⟨r, served, .server ⟨bad, server, found.mp isSock⟩ r serves⟩
    · rw [if_neg isSock]
      exact ⟨_, rfl, .dropped fun toServer => isSock (found.mpr toServer.sock)⟩
  · rw [if_neg server]
    by_cases sock : d.sock = m.config.clientSock
    · rw [if_pos sock]
      obtain ⟨r, done, asks⟩ := processClient_cases (f := extracted d w) pool differ sound.shape
        sound.owned freshId ⟨name, isName, short⟩
      exact ⟨r, done, .client (Bool.eq_false_iff.mpr server) sock r asks⟩
    · rw [if_neg sock]
      exact ⟨_, rfl, .dropped fun toServer => server toServer.fromServer⟩

end Received

/-- A query that a request was queued for, and the message to the server. -/
structure Asked where
  /-- the number of the step -/
  serial : Nat
  query : Datagram
  world : World
  message : Message

/-- The proxy, and what has happened. -/
structure State where
  proxy : Proxy
  steps : Nat
  /-- what a request was last used for -/
  origin : Ptr → Option Asked
  /-- the serial numbers of the requests that were answered -/
  answered : List Nat
  /-- the datagrams from configured servers -/
  responses : List Datagram
  /-- the hosts of the last static update -/
  hosts : List Host
  /-- the hosts of earlier updates, until the next second -/
  stale : List Host

def State.after (s : State) (op : Op) (proxy : Proxy) (effect : Effect) : State :=
  { proxy := proxy
    steps := s.steps + 1
    origin := match op, effect with
      | .receive d w, .asked p message =>
        update s.origin p (some ⟨s.steps, d, w, message⟩)
      | _, _ => s.origin
    answered := match effect with
      | .answered p _ => ((s.origin p).map Asked.serial).toList ++ s.answered
      | _ => s.answered
    responses := match op with
      | .receive d _ => if fromServer s.proxy.config d then d :: s.responses else s.responses
      | _ => s.responses
    hosts := match op with
      | .updateStatic hosts => hosts.map (·.1)
      | _ => s.hosts
    stale := match op with
      | .updateStatic _ => s.hosts ++ s.stale
      | .timer => []
      | _ => s.stale }

def step (s : State) (op : Op) : Except Fault State := do
  let (proxy, effect) ← exec s.proxy op
  return s.after op proxy effect

/-- The proxy at its start, with these blocks for the requests. -/
def start (config : Config) (blocks : List Ptr) : State :=
  { proxy :=
      { config := config, lastServer1 := true, rateLimit := 0
        requests := rqListInit blocks, cache := Cache.empty }
    steps := 0, origin := fun _ => none, answered := [], responses := [], hosts := []
    stale := [] }

/-- The calls of `random` come to an id that is not in use, and `malloc` returns blocks that
are not. -/
def Allowed (s : State) : Op → Prop
  | .receive _ w => (∃ tid ∈ w.tids, rqFind s.proxy.requests tid = .ok none) ∧
      FreshBlock s.proxy.cache.live w.block ∧
      FreshBlock s.proxy.cache.packets w.packetBlock
  | .updateStatic hosts => DnsCache.FreshBlocks s.proxy.cache.live hosts
  | _ => True

/-- No configured host has the name of an entry of the cache with a packet. -/
def NoCname (s : State) : Op → Prop
  | .updateStatic hosts => ¬ HitsOne s.proxy.cache hosts
  | _ => True

section Links

variable {s s' : State} {op : Op} {act inact act' inact' : List Ptr}

/-- The request has the data of its query, and of the message to the server. -/
structure Describes (r : Req) (a : Asked) : Prop where
  ip : r.clientIp = a.query.ip
  port : r.clientPort = a.query.port
  clientTid : r.clientTid = read16 a.query.buf 0
  server : r.serverIp = a.message.ip
  sock : r.sock = a.message.sock
  newTid : r.newTid = read16 a.message.buf 0
  type : r.queryType = (extracted a.query a.world).queryType.setWidth 16
  name : some r.queryName = getRealName (extracted a.query a.world).queryName

/-- The invariant of the runs: every active request is for a query of its own, which was not
answered yet. -/
structure Linked (s : State) (act inact : List Ptr) : Prop where
  pool : Pool s.proxy.requests act inact
  differ : TidsDiffer s.proxy.requests act
  sound : Sound s.proxy.cache
  origin : ∀ p ∈ act, ∃ a, s.origin p = some a ∧ Describes (s.proxy.requests.req p) a ∧
    a.serial < s.steps ∧ a.serial ∉ s.answered
  once : ∀ p ∈ act, ∀ q ∈ act, ∀ a b, s.origin p = some a → s.origin q = some b →
    a.serial = b.serial → p = q
  past : ∀ n ∈ s.answered, n < s.steps

theorem Describes.aged {r : Req} {a : Asked} (describes : Describes r a) (ttl : Int) :
    Describes { r with ttl := ttl } a :=
  ⟨describes.ip, describes.port, describes.clientTid, describes.server, describes.sock,
    describes.newTid, describes.type, describes.name⟩

theorem Linked.shrink (linked : Linked s act inact) (pool : Pool s'.proxy.requests act' inact')
    (sub : ∀ p ∈ act', p ∈ act)
    (req : ∀ p ∈ act', ∃ ttl,
      s'.proxy.requests.req p = { s.proxy.requests.req p with ttl := ttl })
    (sound : Sound s'.proxy.cache) (steps : s'.steps = s.steps + 1)
    (origin : s'.origin = s.origin)
    (answered : ∀ n ∈ s'.answered, n ∈ s.answered ∨ ∃ p ∈ act, p ∉ act' ∧ ∃ a,
      s.origin p = some a ∧ n = a.serial) :
    Linked s' act' inact' := by
  refine ⟨pool, fun p inP q inQ same => ?_, sound, fun p inside => ?_, fun p inP q inQ a b => ?_,
    fun n inside => ?_⟩
  · obtain ⟨_, here⟩ := req p inP
    obtain ⟨_, here'⟩ := req q inQ
    rw [here, here'] at same
    exact linked.differ p (sub p inP) q (sub q inQ) same
  · obtain ⟨a, isOrigin, describes, old, unanswered⟩ := linked.origin p (sub p inside)
    obtain ⟨ttl, here⟩ := req p inside
    refine ⟨a, origin ▸ isOrigin, here ▸ describes.aged ttl, by omega, fun answer => ?_⟩
    rcases answered _ answer with before | ⟨q, inQ, gone, b, isOrigin', same⟩
    · exact unanswered before
    · rw [linked.once p (sub p inside) q inQ a b isOrigin isOrigin' same] at inside
      exact gone inside
  · rw [origin]
    exact linked.once p (sub p inP) q (sub q inQ) a b
  · rcases answered n inside with before | ⟨q, inQ, -, b, isOrigin, rfl⟩
    · have less := linked.past n before
      omega
    · obtain ⟨a, isOrigin', -, less, -⟩ := linked.origin q inQ
      cases isOrigin.symm.trans isOrigin'
      omega

theorem Linked.keep (linked : Linked s act inact) {m : Proxy} {effect : Effect}
    (requests : m.requests = s.proxy.requests) (sound : Sound m.cache)
    (quiet : (∀ p message, effect ≠ .asked p message) ∧ ∀ p message, effect ≠ .answered p message) :
    Linked (s.after op m effect) act inact := by
  have origin : (s.after op m effect).origin = s.origin := by
    cases op <;> cases effect <;> first | rfl | exact absurd rfl (quiet.1 _ _)
  have answered : (s.after op m effect).answered = s.answered := by
    cases effect <;> first | rfl | exact absurd rfl (quiet.2 _ _)
  refine linked.shrink ?_ (fun p inside => inside)
    (fun p _ => ⟨(s.proxy.requests.req p).ttl, ?_⟩) sound rfl origin fun n inside => .inl ?_
  · exact requests ▸ linked.pool
  · exact congrFun (congrArg Requests.req requests) p
  · exact answered ▸ inside

end Links

section Writes

variable (buf : Buffer) (ptr : Nat)

theorem halves (data : BitVec 16) : data.extractLsb' 8 8 ++ data.extractLsb' 0 8 = data := by
  ext i inside
  simp only [BitVec.getElem_append, BitVec.getElem_extractLsb']
  split <;> rename_i here
  · rw [Nat.zero_add]
    exact BitVec.getLsbD_eq_getElem inside
  · rw [show 8 + (i - 8) = i by omega]
    exact BitVec.getLsbD_eq_getElem inside

theorem write16_other (data : BitVec 16) {i : Nat} (other : i < ptr ∨ ptr + 2 ≤ i) :
    write16 buf ptr data i = buf i := by
  rw [write16, write8, write8, update_of_ne (by omega), update_of_ne (by omega)]

theorem read16_write16 (data : BitVec 16) : read16 (write16 buf ptr data) ptr = data := by
  rw [read16, write16, write8, write8, update_of_ne (by omega), update_self,
    update_self]
  exact halves data

theorem setTid_body (tid : BitVec 16) : SameBody buf (setTid buf tid) :=
  fun _ behind => write16_other buf 0 tid (.inr behind)

theorem setTid_tid (tid : BitVec 16) : read16 (setTid buf tid) 0 = tid := read16_write16 buf 0 tid

end Writes

section Steps

variable {s : State} {op : Op} {act inact : List Ptr}

theorem Linked.asked (linked : Linked s act inact) {d : Datagram} {w : World}
    {rest : List Ptr} {p : Ptr} (isFirst : inact = p :: rest)
    {newTid : BitVec 16} (unused : ∀ q ∈ act, (s.proxy.requests.req q).newTid ≠ newTid)
    {m : Proxy} (pool : Pool m.requests (p :: act) rest) {serverIp : BitVec 32} {name : List Byte}
    (isName : getRealName (extracted d w).queryName = some name)
    (req : m.requests.req = update s.proxy.requests.req p
      (queued (requestData d (extracted d w) serverIp name) newTid w.random w.sock))
    (cache : m.cache = s.proxy.cache) {message : Message} (isMessage : message =
      { sock := w.sock, ip := serverIp, port := 53, buf := setTid d.buf newTid, len := d.len }) :
    Linked (s.after (.receive d w) m (.asked p message)) (p :: act) rest := by
  have notAct : p ∉ act := by
    subst isFirst
    exact ((linked.pool.mem_inact p).mp List.mem_cons_self).2
  have apart : ∀ q ∈ act, q ≠ p := by
    rintro q inAct rfl
    exact notAct inAct
  have new : m.requests.req p =
      queued (requestData d (extracted d w) serverIp name) newTid w.random w.sock := by
    rw [req, update_self]
  have old : ∀ q ∈ act, m.requests.req q = s.proxy.requests.req q := by
    intro q inAct
    rw [req, update_of_ne (apart q inAct)]
  have newOrigin : (s.after (.receive d w) m (.asked p message)).origin p =
      some ⟨s.steps, d, w, message⟩ := update_self ..
  have oldOrigin : ∀ q ∈ act,
      (s.after (.receive d w) m (.asked p message)).origin q = s.origin q := fun q inAct =>
    update_of_ne (apart q inAct) _ _
  refine ⟨pool, apart_cons linked.differ (fun q inAct => congrArg _ (old q inAct)) ?_,
    cache ▸ linked.sound, fun q inside => ?_,
    fun a inA b inB x y isX isY same => ?_, fun n inside => ?_⟩
  · change ∀ q ∈ act, _ ≠ (m.requests.req p).newTid
    rw [new]
    exact unused
  · change ∃ x, _ ∧ Describes (m.requests.req q) x ∧ x.serial < s.steps + 1 ∧ _
    rcases List.mem_cons.mp inside with rfl | before
    · refine ⟨_, newOrigin, ?_, Nat.lt_succ_self _, fun answered => ?_⟩
      · rw [new, isMessage]
        exact ⟨rfl, rfl, rfl, rfl, rfl, (setTid_tid d.buf newTid).symm, rfl, isName.symm⟩
      · exact Nat.lt_irrefl _ (linked.past _ answered)
    · obtain ⟨x, isOrigin, describes, less, unanswered⟩ := linked.origin q before
      refine ⟨x, (oldOrigin q before).trans isOrigin, ?_, by omega, unanswered⟩
      rw [old q before]
      exact describes
  · have older : ∀ q ∈ act, ∀ x, s.origin q = some x → x.serial < s.steps := by
      intro q before x isX
      obtain ⟨x', isX', -, less, -⟩ := linked.origin q before
      cases isX.symm.trans isX'
      exact less
    rcases List.mem_cons.mp inA with rfl | oldA <;> rcases List.mem_cons.mp inB with rfl | oldB
    · rfl
    · rw [oldOrigin b oldB] at isY
      cases newOrigin.symm.trans isX
      exact absurd same.symm (Nat.ne_of_lt (older b oldB y isY))
    · rw [oldOrigin a oldA] at isX
      cases newOrigin.symm.trans isY
      exact absurd same (Nat.ne_of_lt (older a oldA x isX))
    · rw [oldOrigin a oldA] at isX
      rw [oldOrigin b oldB] at isY
      exact linked.once a oldA b oldB x y isX isY same
  · exact Nat.lt_succ_of_lt (linked.past n inside)

theorem Linked.answered (linked : Linked s act inact) {p : Ptr} (member : p ∈ act)
    {m : Proxy} (pool : Pool m.requests (act.erase p) (p :: inact))
    (req : m.requests.req = update s.proxy.requests.req p
      { s.proxy.requests.req p with sock := 0 })
    (sound : Sound m.cache) (message : Message) :
    Linked (s.after op m (.answered p message)) (act.erase p) (p :: inact) := by
  have origin : (s.after op m (.answered p message)).origin = s.origin := by
    cases op <;> rfl
  refine linked.shrink pool
    (fun q inside => List.mem_of_mem_erase inside)
    (fun q inside => ⟨(s.proxy.requests.req q).ttl, ?_⟩) sound rfl origin fun n inside => ?_
  · have other : q ≠ p := by
      rintro rfl
      exact linked.pool.nodup_act.not_mem_erase inside
    exact (congrFun req q).trans (update_of_ne other _ _)
  · rcases List.mem_append.mp inside with now | before
    · obtain ⟨a, isOrigin, -⟩ := linked.origin p member
      rw [isOrigin] at now
      exact .inr ⟨p, member, linked.pool.nodup_act.not_mem_erase, a, isOrigin,
        List.mem_singleton.mp now⟩
    · exact .inl before

theorem Linked.ticked (linked : Linked s act inact) {m : Proxy}
    (pool : Pool m.requests (act.filter (stays s.proxy.requests))
      ((act.filter (fun p => !stays s.proxy.requests p)).reverse ++ inact))
    (req : ∀ p, m.requests.req p =
      if p ∈ act then aged (s.proxy.requests.req p) else s.proxy.requests.req p)
    (sound : Sound m.cache) :
    Linked (s.after .timer m .nothing) (act.filter (stays s.proxy.requests))
      ((act.filter (fun p => !stays s.proxy.requests p)).reverse ++ inact) := by
  refine linked.shrink pool
    (fun p inside => (List.mem_filter.mp inside).1)
    (fun p inside => ⟨(s.proxy.requests.req p).ttl - 1, ?_⟩) sound rfl rfl
    fun n inside => .inl inside
  obtain ⟨member, remains⟩ := List.mem_filter.mp inside
  rw [stays, decide_eq_true_eq] at remains
  have here := req p
  rw [if_pos member, DnsRequests.aged] at here
  exact here.trans (if_neg (by change ¬ (s.proxy.requests.req p).ttl - 1 ≤ 0; omega))

theorem exec_spec (linked : Linked s act inact) (allowed : Allowed s op) (noCname : NoCname s op) :
    ∃ m effect, exec s.proxy op = .ok (m, effect) ∧
      ((∀ d w, op ≠ .receive d w) → effect = .nothing) ∧
      ∃ act' inact', Linked (s.after op m effect) act' inact' := by
  cases op with
  | receive d w =>
    obtain ⟨freshId, fresh, freshPacket⟩ := allowed
    obtain ⟨r, received, receives⟩ := rxPacket_cases (d := d) linked.pool linked.differ linked.sound
      freshId fresh
    refine ⟨r.1, r.2, received, fun other => absurd rfl (other d w), ?_⟩
    cases receives with
    | dropped why => exact ⟨act, inact, linked.keep rfl linked.sound (by simp)⟩
    | server delivered r serves =>
      cases serves with
      | ignored why => exact ⟨act, inact, linked.keep rfl linked.sound (by simp)⟩
      | forwarded p member fits sends requests cache pool req cached =>
        refine ⟨_, _, linked.answered member pool req ?_ _⟩
        rcases cached with ⟨-, same⟩ | ⟨answer, -, inserts⟩
        · exact same ▸ linked.sound
        · obtain ⟨shape, owned⟩ := inserts.kept linked.sound.shape linked.sound.owned fresh
            freshPacket
          exact shape.sound owned
    | client other sock r asks =>
      cases asks with
      | nothing => exact ⟨act, inact, linked.keep rfl linked.sound (by simp)⟩
      | reply => exact ⟨act, inact, linked.keep rfl linked.sound (by simp)⟩
      | asked lastServer1 rateLimit serverIp name isName p rest isFirst newTid unused requests pool
          req =>
        exact ⟨_, _, linked.asked (m := { s.proxy with
          lastServer1 := lastServer1, rateLimit := rateLimit, requests := requests })
          isFirst unused pool isName req rfl rfl⟩
  | timer =>
    obtain ⟨cache, timed, shape, owned, -⟩ :=
      DnsCache.cacheTimer_spec linked.sound.shape linked.sound.owned
    obtain ⟨requests, ticked, pool, -, req⟩ := rqTimer_spec linked.pool
    refine ⟨{ s.proxy with requests := requests, cache := cache, rateLimit := 0 }, .nothing, ?_,
      fun _ => rfl, _, _, linked.ticked pool req (shape.sound owned)⟩
    simp only [exec, tick, timed, ticked, ok_bind, pure_eq_ok]
  | updateStatic hosts =>
    obtain ⟨cache, updated, sound⟩ := DnsCache.exec_spec linked.sound (.updateStatic hosts) allowed
      noCname
    refine ⟨{ s.proxy with cache := cache }, .nothing, ?_, fun _ => rfl, act, inact,
      linked.keep rfl sound (by simp)⟩
    have updated' : DnsCache.cacheUpdateStatic s.proxy.cache hosts = .ok cache := updated
    simp only [exec, updated', ok_bind, pure_eq_ok]
  | clear =>
    obtain ⟨cache, cleared, shape, owned, -⟩ :=
      DnsCache.cacheClear_spec linked.sound.shape linked.sound.owned
    refine ⟨{ s.proxy with cache := cache }, .nothing, ?_, fun _ => rfl, act, inact,
      linked.keep rfl (shape.sound owned) (by simp)⟩
    simp only [exec, cleared, ok_bind, pure_eq_ok]
  | configure config =>
    exact ⟨{ s.proxy with config := config }, .nothing, rfl, fun _ => rfl, act, inact,
      linked.keep rfl linked.sound (by simp)⟩

end Steps

section Responses

/-- The question section of a response is that of the query. -/
def SameQuestion (query d : Datagram) : Prop :=
  ∃ questions, HasQuestions query.buf query.len questions ∧ HasQuestions d.buf d.len questions

/-- The request is in the active list. -/
def Active (s : State) (p : Ptr) : Prop :=
  ∃ act inact, Pool s.proxy.requests act inact ∧ p ∈ act

/-- The datagram is a response to the query: it is from the server that the query was sent
to, has come to the socket that it was sent from, and has its id and its question. -/
structure Matches (a : Asked) (d : Datagram) : Prop where
  tid : read16 d.buf 0 = read16 a.message.buf 0
  server : d.ip = a.message.ip
  sock : d.sock = a.message.sock
  question : SameQuestion a.query d

/-- The message answers a query that an active request was queued for, and that was not
answered before, to the client that asked. -/
structure Forwarded (s : State) (d : Datagram) (p : Ptr) (message : Message) :
    Prop where
  active : Active s p
  query : ∃ a, s.origin p = some a ∧ Matches a d ∧ a.serial ∉ s.answered ∧
    message.ip = a.query.ip ∧ message.port = a.query.port ∧
    read16 message.buf 0 = read16 a.query.buf 0
  body : SameBody d.buf message.buf ∧ message.len = d.len

/-- The datagram is from a client. -/
def IsQuery (s : State) (d : Datagram) : Prop :=
  fromServer s.proxy.config d = false ∧ d.sock = s.proxy.config.clientSock

/-- What is asked of the handling of a datagram. -/
structure Right (s : State) (d : Datagram) (m : Proxy) (effect : Effect) : Prop where
  forwarded : ∀ p message, effect = .answered p message → Forwarded s d p message
  unmatched : ¬ IsQuery s d → (∀ p a, Active s p → s.origin p = some a → ¬ Matches a d) →
    m.requests = s.proxy.requests ∧ m.cache = s.proxy.cache

/-- The step succeeds, and responses reach only the clients that asked. -/
def Served (s : State) : Op → Prop
  | .receive d w => ∃ m effect, exec s.proxy (.receive d w) = .ok (m, effect) ∧
      Right s d m effect
  | op => ∃ m, exec s.proxy op = .ok (m, .nothing)

/-- The datagram gets to `process_server`, and `sendto` will not fail. -/
structure Delivered (s : State) (d : Datagram) (w : World) : Prop where
  good : (dnspktVerify d.buf d.len w.old).1 = false
  fromServer : fromServer s.proxy.config d = true
  sock : ∃ p, Active s p ∧ (s.proxy.requests.req p).sock = d.sock
  sends : w.sends = true

/-- The proxy takes the datagram for a response to the query: it does not look at the socket,
and compares the lower bytes of the types and the names with dots. -/
structure TakenFor (a : Asked) (d : Datagram) (w : World) : Prop where
  tid : read16 d.buf 0 = read16 a.message.buf 0
  server : d.ip = a.message.ip
  type : (extracted a.query a.world).queryType = (extracted d w).queryType
  name : getRealName (extracted a.query a.world).queryName =
    getRealName (extracted d w).queryName

/-- A datagram that is taken for a response to a query of an active request is one. -/
def NoConfusion (s : State) : Op → Prop
  | .receive d w => Delivered s d w → ∀ p a, Active s p → s.origin p = some a →
      TakenFor a d w → d.sock = a.message.sock ∧ SameQuestion a.query d
  | _ => True

variable {s : State} {op : Op} {act inact : List Ptr} {d : Datagram} {w : World}

theorem Linked.active (linked : Linked s act inact) (p : Ptr) :
    Active s p ↔ p ∈ act := by
  constructor
  · rintro ⟨act', inact', pool, member⟩
    have path : PointerList.Path s.proxy.requests.lists.next
      (s.proxy.requests.lists.head true) act none := Threads.path linked.pool true
    have path' : PointerList.Path s.proxy.requests.lists.next
      (s.proxy.requests.lists.head true) act' none := Threads.path pool true
    rw [path.unique path']
    exact member
  · exact fun member => ⟨act, inact, linked.pool, member⟩

theorem fits_iff {r : Req} {a : Asked} (describes : Describes r a) :
    Fits r d (extracted d w) ↔ TakenFor a d w := by
  obtain ⟨-, -, -, server, -, newTid, type, name⟩ := describes
  constructor
  · rintro ⟨sameTid, sameServer, sameType, sameName⟩
    refine ⟨(newTid.symm.trans sameTid).symm, sameServer.trans server, ?_, name.symm.trans sameName⟩
    have wide := type.symm.trans sameType
    have back := congrArg (BitVec.setWidth 8) wide
    rwa [BitVec.setWidth_setWidth_of_le _ (by decide), BitVec.setWidth_eq,
      BitVec.setWidth_setWidth_of_le _ (by decide), BitVec.setWidth_eq] at back
  · rintro ⟨sameTid, sameServer, sameType, sameName⟩
    exact ⟨newTid.trans sameTid.symm, sameServer.trans server.symm, by rw [type, sameType],
      name.trans sameName⟩

theorem right_iff (linked : Linked s act inact) {m : Proxy} {effect : Effect}
    (receives : Receives s.proxy act inact d w (m, effect)) :
    Right s d m effect ↔ NoConfusion s (.receive d w) := by
  have active := linked.active
  have describes : ∀ p ∈ act, ∀ a, s.origin p = some a →
      Describes (s.proxy.requests.req p) a ∧ a.serial ∉ s.answered := by
    intro p member a isOrigin
    obtain ⟨a', isOrigin', describes, -, unanswered⟩ := linked.origin p member
    cases isOrigin.symm.trans isOrigin'
    exact ⟨describes, unanswered⟩
  constructor
  · intro right delivered p a isActive isOrigin taken
    have member := (active p).mp isActive
    have fits := (fits_iff (describes p member a isOrigin).1).mpr taken
    cases receives with
    | dropped why =>
      obtain ⟨q, isActive', sock⟩ := delivered.sock
      exact absurd ⟨delivered.good, delivered.fromServer, q, (active q).mp isActive', sock⟩ why
    | server _ _ serves =>
      cases serves with
      | ignored why => exact absurd ((why p member fits).symm.trans delivered.sends) (by decide)
      | forwarded q inAct fits' =>
        cases linked.differ q inAct p member (fits'.tid.trans fits.tid.symm)
        obtain ⟨a', isOrigin', matched, -⟩ := (right.forwarded p _ rfl).query
        cases isOrigin.symm.trans isOrigin'
        exact ⟨matched.sock, matched.question⟩
    | client other =>
      have isServer := delivered.fromServer
      rw [other] at isServer
      cases isServer
  · intro sure
    have matched : ∀ p ∈ act, Fits (s.proxy.requests.req p) d (extracted d w) → w.sends = true →
        ToServer s.proxy act d w → ∃ a, s.origin p = some a ∧ Matches a d := by
      intro p member fits sends toServer
      obtain ⟨a, isOrigin, describes, -⟩ := linked.origin p member
      obtain ⟨q, inAct, sock⟩ := toServer.sock
      have taken := (fits_iff describes).mp fits
      obtain ⟨own, question⟩ := sure
        ⟨toServer.good, toServer.fromServer, ⟨q, (active q).mpr inAct, sock⟩, sends⟩ p a
        ((active p).mpr member) isOrigin taken
      exact ⟨a, isOrigin, taken.tid, taken.server, own, question⟩
    refine ⟨fun p message isAnswer => ?_, fun notQuery noMatch => ?_⟩
    · cases receives with
      | dropped => cases isAnswer
      | client other sock r asks => cases asks <;> cases isAnswer
      | server toServer r serves =>
        cases serves with
        | ignored => cases isAnswer
        | forwarded q member fits sends =>
          cases isAnswer
          obtain ⟨a, isOrigin, matches'⟩ := matched p member fits sends toServer
          obtain ⟨describes, unanswered⟩ := describes p member a isOrigin
          refine ⟨(active p).mpr member, ⟨a, isOrigin, matches', unanswered, describes.ip,
            describes.port, ?_⟩, setTid_body _ _, rfl⟩
          exact (setTid_tid d.buf _).trans describes.clientTid
    · cases receives with
      | dropped => exact ⟨rfl, rfl⟩
      | client other sock => exact absurd ⟨other, sock⟩ notQuery
      | server toServer r serves =>
        cases serves with
        | ignored => exact ⟨rfl, rfl⟩
        | forwarded p member fits sends =>
          obtain ⟨a, isOrigin, matches'⟩ := matched p member fits sends toServer
          exact absurd matches' (noMatch p a ((active p).mpr member) isOrigin)

theorem served_iff (linked : Linked s act inact) (allowed : Allowed s op)
    (noCname : NoCname s op) : Served s op ↔ NoConfusion s op := by
  obtain ⟨m, effect, executed, quiet, -⟩ := exec_spec linked allowed noCname
  cases op with
  | receive d w =>
    obtain ⟨r, received, receives⟩ := rxPacket_cases (d := d) linked.pool linked.differ
      linked.sound allowed.1 allowed.2.1
    refine Iff.trans ?_ (right_iff (m := r.1) linked receives)
    constructor
    · rintro ⟨m', effect', executed', right⟩
      cases (Except.ok.inj (received.symm.trans executed'))
      exact right
    · exact fun right => ⟨r.1, r.2, received, right⟩
  | timer => exact ⟨fun _ => trivial, fun _ => ⟨m, quiet (by simp) ▸ executed⟩⟩
  | updateStatic => exact ⟨fun _ => trivial, fun _ => ⟨m, quiet (by simp) ▸ executed⟩⟩
  | clear => exact ⟨fun _ => trivial, fun _ => ⟨m, quiet (by simp) ▸ executed⟩⟩
  | configure => exact ⟨fun _ => trivial, fun _ => ⟨m, quiet (by simp) ▸ executed⟩⟩

theorem step_linked (linked : Linked s act inact) (allowed : Allowed s op)
    (noCname : NoCname s op) {s' : State} (done : step s op = .ok s') :
    ∃ act' inact', Linked s' act' inact' := by
  obtain ⟨m, effect, executed, -, act', inact', linked'⟩ := exec_spec linked allowed noCname
  simp only [step, executed, ok_bind, pure_eq_ok] at done
  cases done
  exact ⟨act', inact', linked'⟩

theorem start_linked {blocks : List Ptr} (nodup : blocks.Nodup) (config : Config) :
    Linked (start config blocks) [] blocks.reverse := by
  refine ⟨(rqListInit_spec nodup).1, ?_, DnsCache.empty_sound, ?_, ?_, ?_⟩
  · exact fun p member => absurd member List.not_mem_nil
  · exact fun p member => absurd member List.not_mem_nil
  · exact fun p member => absurd member List.not_mem_nil
  · exact fun n member => absurd member List.not_mem_nil

/-- In every run, all steps are right exactly when no datagram is ever confused with a response
to a query. -/
theorem responses_iff {blocks : List Ptr} (nodup : blocks.Nodup) (config : Config)
    (ops : List Op) (allowed : Along step Allowed ops (start config blocks))
    (noCname : Along step NoCname ops (start config blocks)) :
    Along step Served ops (start config blocks) ↔
      Along step NoConfusion ops (start config blocks) := by
  refine along_congr (I := fun s => ∃ act inact, Linked s act inact) ?_ ?_
    (allowed.and noCname) ⟨[], blocks.reverse, start_linked nodup config⟩
  · rintro s op ⟨act, inact, linked⟩ ⟨allowed, noCname⟩
    exact served_iff linked allowed noCname
  · rintro s op s' ⟨act, inact, linked⟩ ⟨allowed, noCname⟩ done
    exact step_linked linked allowed noCname done

end Responses

section Questions

variable {a : Asked} {d : Datagram} {w : World} {labels labels' : List Label}
  {type type' : BitVec 16}

/-- Messages that ask one question each, of a type below 256 and for a name without dots and
zero bytes in its labels, are not confused. -/
theorem TakenFor.sameQuestion (taken : TakenFor a d w)
    (plain : Plain a.query.buf a.query.len labels type) (plain' : Plain d.buf d.len labels' type')
    (dotFree : DotFree labels) (dotFree' : DotFree labels') : SameQuestion a.query d := by
  obtain ⟨name, isType⟩ := verify_question plain.question plain.short a.world.old
  obtain ⟨name', isType'⟩ := verify_question plain'.question plain'.short w.old
  have sameType := taken.type
  have sameName := taken.name
  simp only [extracted, name, name', isType, isType', getRealName_wire plain.wellFormed plain.short,
    getRealName_wire plain'.wellFormed plain'.short, Option.some.injEq] at sameType sameName
  cases setWidth_byte_inj plain.byte plain'.byte sameType
  cases realName_injective plain.wellFormed plain'.wellFormed plain.zeroFree plain'.zeroFree
    dotFree dotFree' sameName
  exact ⟨_, plain.question, plain'.question⟩

end Questions

section Demo

/-- The bytes of a packet. -/
def ofBytes (l : List Byte) : Buffer := fun i => l.getD i 0

def demoFields : Fields :=
  { len := 0, pktType := 0, errorCode := 0, flags := 0, queryName := [], queryType := 0
    type := 0, dclass := 0, ttl := 0, address := 0, addressV6 := [] }

def demoConfig : Config :=
  { nameServer1 := 0x08080808, nameServer2 := 0, dnsRateLimit := 0, domainName := []
    clientSock := 3 }

def demoWorld (tid : BitVec 16) (sock : Nat) : World :=
  { old := demoFields, out := fun _ => 0, tids := [tid], random := 0, sock := sock, sends := true
    block := none, packetBlock := none }

/-- A message with this id that asks for the name `a`, type A. -/
def demoQuestion (tid : Byte) : List Byte :=
  [0, tid, 1, 0, 0, 1, 0, 0, 0, 0, 0, 0, 1, 0x61, 0, 0, 1, 0, 1]

def demoDatagram (sock : Nat) (ip : BitVec 32) (bytes : List Byte) : Datagram :=
  { sock := sock, ip := ip, port := 5000, buf := ofBytes bytes, len := bytes.length }

/-- A client asks; the query is sent from socket 11 with the id 7. -/
def demoQuery : Op :=
  .receive (demoDatagram 3 0x0a000001 (demoQuestion 1)) (demoWorld 7 11)

/-- Another client asks; its query is sent from socket 12 with the id 8. -/
def demoQuery2 : Op :=
  .receive (demoDatagram 3 0x0a000002 (demoQuestion 2)) (demoWorld 8 12)

/-- The response to the first query comes to a socket. -/
def demoResponse (sock : Nat) : Op :=
  .receive (demoDatagram sock 0x08080808 (demoQuestion 7)) (demoWorld 9 13)

theorem demoQuestion_hasQuestions (tid : Byte) :
    HasQuestions (ofBytes (demoQuestion tid)) 19 [([[0x61]], 1)] := by
  have type : read16 (ofBytes (demoQuestion tid)) 15 = 1 := by
    rw [read16]
    change (0 : Byte) ++ (1 : Byte) = (1 : BitVec 16)
    decide
  have count : read16 (ofBytes (demoQuestion tid)) 4 = 1 := by
    rw [read16]
    change (0 : Byte) ++ (1 : Byte) = (1 : BitVec 16)
    decide
  refine ⟨by rw [count]; rfl, 19, ⟨?_, rfl, type, rfl⟩, Nat.le_refl _⟩
  intro label member
  cases List.mem_singleton.mp member
  exact ⟨by decide, by decide⟩

theorem demoQuestion_plain (sock : Nat) (ip : BitVec 32) (tid : Byte) :
    Plain (demoDatagram sock ip (demoQuestion tid)).buf
      (demoDatagram sock ip (demoQuestion tid)).len [[0x61]] 1 :=
  ⟨demoQuestion_hasQuestions tid, by decide, by unfold ZeroFree; decide, by decide⟩

/-- The response to the first query asks what the query asks. -/
theorem sameQuestion_demo : SameQuestion (demoDatagram 3 0x0a000001 (demoQuestion 1))
    (demoDatagram 11 0x08080808 (demoQuestion 7)) := by
  let asked : Asked := ⟨0, demoDatagram 3 0x0a000001 (demoQuestion 1), demoWorld 7 11,
    ⟨11, 0x08080808, 53, ofBytes (demoQuestion 7), 19⟩⟩
  have taken : TakenFor asked (demoDatagram 11 0x08080808 (demoQuestion 7)) (demoWorld 9 13) :=
    ⟨rfl, rfl, by decide +kernel, by decide +kernel⟩
  have dotFree : DotFree [[0x61]] := by
    unfold DotFree
    decide
  exact taken.sameQuestion (demoQuestion_plain 3 0x0a000001 1)
    (demoQuestion_plain 11 0x08080808 7) dotFree dotFree

instance decidableAllowed (s : State) : ∀ op, Decidable (Allowed s op)
  | .receive _ w =>
    have : Decidable (∃ tid ∈ w.tids, rqFind s.proxy.requests tid = .ok none) :=
      decidable_of_iff (w.tids.any fun tid =>
        decide ((rqFind s.proxy.requests tid).toOption = some none)) (by
        rw [List.any_eq_true]
        refine exists_congr fun tid => and_congr_right fun _ => ?_
        cases rqFind s.proxy.requests tid with
        | error => simp [Except.toOption]
        | ok found => simp [Except.toOption])
    inferInstanceAs (Decidable (_ ∧ (∀ p ∈ w.block, p ∉ _) ∧ ∀ q ∈ w.packetBlock, q ∉ _))
  | .updateStatic hosts =>
    inferInstanceAs (Decidable ((hosts.filterMap (·.2)).Nodup ∧
      ∀ p ∈ hosts.filterMap (·.2), p ∉ s.proxy.cache.live))
  | .timer | .clear | .configure _ => .isTrue trivial

theorem noCname_of_noUpdate {ops : List Op} {s : State}
    (noUpdate : ∀ op ∈ ops, ∀ hosts, op ≠ .updateStatic hosts) : Along step NoCname ops s := by
  induction ops generalizing s with
  | nil => trivial
  | cons op ops ih =>
    refine ⟨?_, fun s' _ => ih fun o member => noUpdate o (List.mem_cons_of_mem op member)⟩
    cases op with
    | updateStatic hosts => exact absurd rfl (noUpdate _ List.mem_cons_self hosts)
    | receive | timer | clear | configure => trivial

theorem demoQuery_origin {s : State} (ran : step (start demoConfig (List.range maxReq)) demoQuery =
      .ok s) {p : Ptr} {a : Asked} (isOrigin : s.origin p = some a) :
    a.query = demoDatagram 3 0x0a000001 (demoQuestion 1) ∧ a.message.sock = 11 := by
  have effect : (exec (start demoConfig (List.range maxReq)).proxy demoQuery).toOption.map
      (fun r => match r.2 with
        | .asked p message => some (p, message.sock)
        | _ => none) = some (some (511, 11)) := by
    decide +kernel
  rw [step] at ran
  cases executed : exec (start demoConfig (List.range maxReq)).proxy demoQuery with
  | error e =>
    rw [executed] at effect
    cases effect
  | ok r =>
    rw [executed] at effect ran
    obtain ⟨m, e⟩ := r
    cases e with
    | asked q message =>
      cases ran
      simp only [Except.toOption, Option.map_some, Option.some.injEq, Prod.mk.injEq] at effect
      by_cases same : p = q
      · subst same
        have new : (State.after (start demoConfig (List.range maxReq)) demoQuery m
          (.asked p message)).origin p = _ := update_self ..
        cases new.symm.trans isOrigin
        exact ⟨rfl, effect.2⟩
      · have old : (State.after (start demoConfig (List.range maxReq)) demoQuery m
          (.asked q message)).origin p = none := update_of_ne same _ _
        cases old.symm.trans isOrigin
    | nothing => cases effect
    | reply => cases effect
    | answered => cases effect

theorem responses_demo :
    Along step Served [demoQuery, demoResponse 11] (start demoConfig (List.range maxReq)) := by
  have allowed : Along step Allowed [demoQuery, demoResponse 11]
      (start demoConfig (List.range maxReq)) := by
    decide +kernel
  have noUpdate : ∀ op ∈ [demoQuery, demoResponse 11], ∀ hosts, op ≠ .updateStatic hosts := by
    simp [demoQuery, demoResponse]
  refine (responses_iff List.nodup_range demoConfig _ allowed (noCname_of_noUpdate noUpdate)).mpr
    ⟨?_, fun s ran => ⟨?_, fun _ _ => trivial⟩⟩
  · intro delivered
    have impossible : fromServer demoConfig (demoDatagram 3 0x0a000001 (demoQuestion 1)) = true :=
      delivered.fromServer
    exact absurd impossible (by decide)
  · intro _ p a _ isOrigin _
    obtain ⟨query, sock⟩ := demoQuery_origin ran isOrigin
    rw [query, sock]
    exact ⟨rfl, _, demoQuestion_hasQuestions 1, demoQuestion_hasQuestions 7⟩

/-- Whether a response is forwarded that came to the socket of another request. -/
def misdelivered (s : State) (d : Datagram) (w : World) : Bool :=
  match exec s.proxy (.receive d w) with
  | .ok (_, .answered p _) =>
    match s.origin p with
    | some a => d.sock ≠ a.message.sock
    | none => true
  | _ => false

theorem not_served_of_misdelivered {s : State} {d : Datagram} {w : World}
    (wrong : misdelivered s d w = true) : ¬ Served s (.receive d w) := by
  rintro ⟨m, effect, executed, right⟩
  rw [misdelivered, executed] at wrong
  cases effect with
  | answered p message =>
    obtain ⟨a, isOrigin, matched, -⟩ := (right.forwarded p message rfl).query
    simp only [isOrigin, matched.sock, ne_eq, not_true_eq_false, decide_false] at wrong
    cases wrong
  | nothing => cases wrong
  | reply => cases wrong
  | asked => cases wrong

/-- The response to the first query comes to the socket of the second one, and is forwarded
all the same. -/
theorem responses_misdelivered :
    ¬ ∀ (config : Config) (blocks : List Ptr) (ops : List Op), blocks.Nodup →
      blocks.length = maxReq → Along step Allowed ops (start config blocks) →
      Along step NoCname ops (start config blocks) →
      Along step Served ops (start config blocks) := by
  intro all
  have allowed : Along step Allowed [demoQuery, demoQuery2, demoResponse 12]
      (start demoConfig (List.range maxReq)) := by
    decide +kernel
  have noUpdate : ∀ op ∈ [demoQuery, demoQuery2, demoResponse 12], ∀ hosts,
      op ≠ .updateStatic hosts := by
    simp [demoQuery, demoQuery2, demoResponse]
  have served := all demoConfig _ _ List.nodup_range List.length_range allowed
    (noCname_of_noUpdate noUpdate)
  have served' : Along step Served ([demoQuery, demoQuery2] ++ [demoResponse 12])
    (start demoConfig (List.range maxReq)) := served
  have wrong : (run step [demoQuery, demoQuery2]
      (start demoConfig (List.range maxReq))).toOption.map (misdelivered ·
        (demoDatagram 12 0x08080808 (demoQuestion 7)) (demoWorld 9 13)) = some true := by
    decide +kernel
  cases ran : run step [demoQuery, demoQuery2] (start demoConfig (List.range maxReq)) with
  | error e =>
    rw [ran] at wrong
    cases wrong
  | ok s =>
    rw [ran] at wrong
    exact not_served_of_misdelivered (Option.some.inj wrong) (Along.last served' ran)

end Demo

end DnsProxy
