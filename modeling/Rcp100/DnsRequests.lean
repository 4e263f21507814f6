import Rcp100.FaultRuns
import Rcp100.DnsPacket
import Mathlib.Data.List.Induction

/-!
# The requests of the DNS proxy

A fixed number of requests is allocated once. A request is in the list of the active ones
while an answer is waited for, and else in the list of the inactive ones; both lists go
through the same links.
-/

namespace DnsRequests

open ChainTable PointerList FaultRuns DnsPacket
open Function (update update_idem update_of_ne update_self)

/-- The address of a request. -/
abbrev Ptr := Nat

/-- `DNS_MAX_REQ` -/
def maxReq : Nat := 512

/-- `MAX_REQ_TTL`, in seconds. -/
def maxReqTtl : Nat := 10

/-- The data of a request. -/
structure Req where
  ttl : Int
  queryType : BitVec 16
  clientPort : BitVec 16
  clientIp : BitVec 32
  clientTid : BitVec 16
  newTid : BitVec 16
  serverIp : BitVec 32
  sock : Nat
  port : BitVec 16
  queryName : List Byte
deriving DecidableEq

/-- What `memset` leaves of a request. -/
def zeroReq : Req :=
  { ttl := 0, queryType := 0, clientPort := 0, clientIp := 0, clientTid := 0, newTid := 0
    serverIp := 0, sock := 0, port := 0, queryName := [] }

/-- The head `true` is that of the active requests, the head `false` that of the others. -/
structure Requests where
  live : List Ptr
  lists : Table Ptr Bool
  req : Ptr → Req

def Requests.setReq (m : Requests) (p : Ptr) (r : Req) : Requests :=
  { m with req := update m.req p r }

def Requests.setLists (m : Requests) (lists : Table Ptr Bool) : Requests :=
  { m with lists := lists }

/-- One round of `rq_list_init`; `malloc` returned the block. -/
def rqInit (m : Requests) (rq : Ptr) : Requests :=
  { live := rq :: m.live
    lists := m.lists.add false rq
    req := update m.req rq zeroReq }

def rqListInit (blocks : List Ptr) : Requests :=
  blocks.foldl rqInit ⟨[], ⟨fun _ => none, fun _ => none⟩, fun _ => zeroReq⟩

def rqMalloc (m : Requests) : Except Fault (Requests × Option Ptr) :=
  match m.lists.head false with
  | none => return (m, none)
  | some rq => do
    let following ← access m.live rq (m.lists.next rq)
    let lists := { head := update m.lists.head false following
                   next := update m.lists.next rq none }
    return ((m.setLists lists).setReq rq zeroReq, some rq)

/-- The socket is closed. -/
def rqFree (m : Requests) (rq : Ptr) : Except Fault Requests :=
  access m.live rq ((m.setReq rq { m.req rq with sock := 0 }).setLists (m.lists.add false rq))

/-- `random` is the number that the port comes from, `sock` what `rx_open` returns. -/
def rqAdd (m : Requests) (ptr : Ptr) (random : BitVec 32) (sock : Nat) : Except Fault Requests :=
  access m.live ptr ((m.setReq ptr { m.req ptr with
    ttl := maxReqTtl
    port := (random &&& 0x7fff).setWidth 16 + 10000
    sock := sock }).setLists (m.lists.add true ptr))

def rqFind (m : Requests) (tid : BitVec 16) : Except Fault (Option Ptr) :=
  m.lists.find m.live true (fun p => (m.req p).newTid = tid)

/-- A request that is not in the list is left alone. -/
def rqDel (m : Requests) (req : Ptr) : Except Fault Requests :=
  match m.lists.remove m.live true req with
  | .ok lists => .ok (m.setLists lists)
  | .error .missing => .ok m
  | .error e => .error e

def rqSock (m : Requests) (sock : Nat) : Except Fault Bool := do
  let found ← m.lists.find m.live true (fun p => (m.req p).sock = sock)
  return found.isSome

/-- The link is read before the request is moved. -/
def rqClearAll (m : Requests) : Except Fault Requests :=
  match m.lists.head true with
  | none => return m
  | some _ => do
    let m ← sweep (fun m p => access m.live p (m.lists.next p)) (fun p m => rqFree m p)
      m.live.length (m.lists.head true) m
    return m.setLists { m.lists with head := update m.lists.head true none }

/-- The body of the loop of `rq_timer`. -/
def tick (p : Ptr) (m : Requests) : Except Fault Requests := do
  let m ← access m.live p (m.setReq p { m.req p with ttl := (m.req p).ttl - 1 })
  if (m.req p).ttl ≤ 0 then
    let m ← rqDel m p
    rqFree m p
  else return m

def rqTimer (m : Requests) : Except Fault Requests :=
  sweep (fun m p => access m.live p (m.lists.next p)) tick m.live.length (m.lists.head true) m

/-- The numbers are those of `random`, in the order of the calls. -/
def getNewTid (m : Requests) : List (BitVec 16) → Except Fault (BitVec 16)
  | [] => .error .endless
  | r :: rest => do
    if (← rqFind m r).isSome then getNewTid m rest else return r

/-- The part of `process_client` that queues a request: the new transaction id and the
request, where one is left. -/
def queueRequest (m : Requests) (tids : List (BitVec 16)) (data : Req) (random : BitVec 32)
    (sock : Nat) : Except Fault (Requests × BitVec 16 × Option Ptr) := do
  let newTid ← getNewTid m tids
  let (m, req) ← rqMalloc m
  match req with
  | none => return (m, newTid, none)
  | some p =>
    let m ← rqAdd (m.setReq p { data with newTid := newTid }) p random sock
    return (m, newTid, some p)

/-- The end of `process_server`: the request leaves the active list. -/
def retire (m : Requests) (req : Ptr) : Except Fault Requests := do
  let m ← rqDel m req
  rqFree m req

/-- The two lists. -/
def Pool (m : Requests) (act inact : List Ptr) : Prop :=
  Threads m.lists (fun p => decide (p ∈ act)) m.live (fun b => if b then act else inact)

section Lists

variable {m : Requests} {act inact : List Ptr}

section

variable (pool : Pool m act inact)

include pool

theorem Pool.mem_act {p : Ptr} (member : p ∈ act) : p ∈ m.live :=
  ((Threads.mem pool true p).mp member).1

theorem Pool.mem_inact (p : Ptr) :
    p ∈ inact ↔ p ∈ m.live ∧ p ∉ act := by
  rw [← decide_eq_false_iff_not]
  exact Threads.mem pool false p

theorem Pool.nodup_act : act.Nodup := Threads.nodup pool true

theorem Pool.nodup_inact : inact.Nodup := Threads.nodup pool false

theorem Pool.nodup : (act ++ inact).Nodup := by
  rw [List.nodup_append]
  refine ⟨pool.nodup_act, pool.nodup_inact, ?_⟩
  rintro p inAct q inInact rfl
  exact ((pool.mem_inact p).mp inInact).2 inAct

theorem Pool.mem (p : Ptr) : p ∈ act ++ inact ↔ p ∈ m.live := by
  rw [List.mem_append, pool.mem_inact]
  constructor
  · rintro (inAct | inInact)
    · exact pool.mem_act inAct
    · exact inInact.1
  · intro used
    by_cases inAct : p ∈ act
    · exact .inl inAct
    · exact .inr ⟨used, inAct⟩

theorem Pool.length (nodup : m.live.Nodup) :
    act.length + inact.length = m.live.length := by
  rw [← List.length_append]
  exact ((List.perm_ext_iff_of_nodup pool.nodup nodup).mpr pool.mem).length_eq

theorem Pool.congr {m' : Requests} (live : m'.live = m.live)
    (lists : m'.lists = m.lists) : Pool m' act inact := by
  rw [Pool, live, lists]
  exact pool

theorem Pool.find (test : Ptr → Bool) :
    m.lists.find m.live true test = .ok (act.find? test) :=
  Threads.find pool (fun _ used => used) true test

end

/-- No two active requests have one transaction id. -/
def TidsDiffer (m : Requests) (act : List Ptr) : Prop :=
  ∀ p ∈ act, ∀ q ∈ act, (m.req p).newTid = (m.req q).newTid → p = q

theorem Pool.rqFind (pool : Pool m act inact) (differ : TidsDiffer m act) (tid : BitVec 16) :
    ∃ r, DnsRequests.rqFind m tid = .ok r ∧ ∀ p, r = some p ↔ p ∈ act ∧ (m.req p).newTid = tid := by
  refine ⟨_, pool.find _, fun p => ⟨fun found => ?_, fun both => ?_⟩⟩
  · have holds := List.find?_some found
    rw [decide_eq_true_eq] at holds
    exact ⟨List.mem_of_find?_eq_some found, holds⟩
  · cases found : act.find? (fun p => (m.req p).newTid = tid) with
    | none =>
      have fails := List.find?_eq_none.mp found p both.1
      simp [both.2] at fails
    | some q =>
      have holds := List.find?_some found
      rw [decide_eq_true_eq] at holds
      rw [differ q (List.mem_of_find?_eq_some found) p both.1 (holds.trans both.2.symm)]

theorem Pool.getNewTid (pool : Pool m act inact) (differ : TidsDiffer m act)
    {tids : List (BitVec 16)} (fresh : ∃ tid ∈ tids, ∀ p ∈ act, (m.req p).newTid ≠ tid) :
    ∃ newTid ∈ tids, DnsRequests.getNewTid m tids = .ok newTid ∧
      ∀ p ∈ act, (m.req p).newTid ≠ newTid := by
  induction tids with
  | nil =>
    obtain ⟨_, member, -⟩ := fresh
    cases member
  | cons r rest ih =>
    obtain ⟨found, searched, isReq⟩ := pool.rqFind differ r
    rw [DnsRequests.getNewTid, searched, ok_bind]
    cases found with
    | none =>
      refine ⟨r, List.mem_cons_self, rfl, fun p member same => ?_⟩
      cases (isReq p).mpr ⟨member, same⟩
    | some p =>
      obtain ⟨member, same⟩ := (isReq p).mp rfl
      obtain ⟨tid, inside, unused⟩ := fresh
      rcases List.mem_cons.mp inside with rfl | later
      · exact absurd same (unused p member)
      · obtain ⟨newTid, inRest, got⟩ := ih ⟨tid, later, unused⟩
        exact ⟨newTid, List.mem_cons_of_mem _ inRest, got⟩

end Lists

section Moves

variable {m : Requests} {act inact rest : List Ptr} {p : Ptr}

theorem Pool.pop (pool : Pool m act (p :: rest)) :
    m.lists.head false = some p ∧ m.lists.next p = rest.head? ∧
      Threads (⟨update m.lists.head false rest.head?,
          update m.lists.next p none⟩ : Table Ptr Bool)
        (fun q => decide (q ∈ act)) (m.live.filter (· ≠ p))
        (fun b => if b then act else rest) := by
  have path : Path m.lists.next (m.lists.head false) (p :: rest) none := Threads.path pool false
  have apart := List.nodup_cons.mp pool.nodup_inact
  have notAct : p ∉ act := ((pool.mem_inact p).mp List.mem_cons_self).2
  have shape : (if false then act else p :: rest) = [] ++ p :: rest := rfl
  have link : m.lists.next p = rest.head? := Threads.next_eq (h := false) pool shape
  have keeps : ∀ q, q ≠ p → update m.lists.next p none q = m.lists.next q :=
    fun q other => update_of_ne other _ _
  refine ⟨path.1, link, fun b => ?_, fun b => ?_, fun b q => ?_⟩
  · cases b with
    | true =>
      refine Path.congr (Threads.path pool true) fun q member => keeps q ?_
      rintro rfl
      exact notAct member
    | false =>
      have back : Path m.lists.next rest.head? rest none := link ▸ path.2
      have later : Path (update m.lists.next p none) rest.head? rest none := by
        refine back.congr fun q member => keeps q ?_
        rintro rfl
        exact apart.1 member
      simpa using later
  · cases b with
    | true => exact pool.nodup_act
    | false => exact apart.2
  · have old := Threads.mem pool b q
    rw [List.mem_filter, decide_eq_true_eq]
    cases b with
    | true =>
      refine ⟨fun member => ?_, fun both => old.mpr ⟨both.1.1, both.2⟩⟩
      obtain ⟨used, place⟩ := old.mp member
      refine ⟨⟨used, ?_⟩, place⟩
      rintro rfl
      exact notAct member
    | false =>
      constructor
      · intro member
        obtain ⟨used, place⟩ := old.mp (List.mem_cons_of_mem p member)
        refine ⟨⟨used, ?_⟩, place⟩
        rintro rfl
        exact apart.1 member
      · rintro ⟨⟨used, other⟩, place⟩
        exact (List.mem_cons.mp (old.mpr ⟨used, place⟩)).resolve_left other

theorem Pool.push {t : Table Ptr Bool} {live act' inact' : List Ptr} (b : Bool)
    (threads : Threads t (fun q => decide (q ∈ act')) (live.filter (· ≠ p))
      (fun b => if b then act' else inact'))
    (used : p ∈ live) (m : Requests) (liveEq : m.live = live) (lists : m.lists = t.add b p)
    (absent : p ∉ act') :
    Pool m (if b then p :: act' else act') (if b then inact' else p :: inact') := by
  have places : ∀ q ∈ live.filter (· ≠ p),
      decide (q ∈ if b then p :: act' else act') = decide (q ∈ act') := by
    intro q inside
    rw [List.mem_filter, decide_eq_true_eq] at inside
    cases b <;> simp [inside.2]
  have place : decide (p ∈ if b then p :: act' else act') = b := by
    cases b <;> simp [absent]
  have added := (threads.congr (fun _ => Iff.rfl) places).add (c := p) (by simp)
  rw [place] at added
  rw [Pool, liveEq, lists]
  have chains : (fun c => if c then (if b then p :: act' else act')
      else (if b then inact' else p :: inact')) =
      update (fun c => if c then act' else inact') b (p :: if b then act' else inact') := by
    funext c
    cases b <;> cases c <;> rfl
  rw [chains]
  refine added.congr (fun q => ?_) fun _ _ => rfl
  rw [List.mem_cons, List.mem_filter, decide_eq_true_eq]
  constructor
  · intro inside
    by_cases same : q = p
    · exact .inl same
    · exact .inr ⟨inside, same⟩
  · rintro (rfl | inside)
    · exact used
    · exact inside.1

/-- What a request is when it has been queued. -/
def queued (data : Req) (newTid : BitVec 16) (random : BitVec 32) (sock : Nat) : Req :=
  { data with
    newTid := newTid
    ttl := maxReqTtl
    port := (random &&& 0x7fff).setWidth 16 + 10000
    sock := sock }

theorem queueRequest_spec (pool : Pool m act inact) (differ : TidsDiffer m act)
    {tids : List (BitVec 16)} (data : Req) (random : BitVec 32) (sock : Nat)
    (fresh : ∃ tid ∈ tids, ∀ p ∈ act, (m.req p).newTid ≠ tid) :
    ∃ newTid ∈ tids, (∀ p ∈ act, (m.req p).newTid ≠ newTid) ∧
      ((inact = [] ∧ queueRequest m tids data random sock = .ok (m, newTid, none)) ∨
      ∃ p rest m', inact = p :: rest ∧ queueRequest m tids data random sock =
          .ok (m', newTid, some p) ∧
        Pool m' (p :: act) rest ∧ m'.live = m.live ∧
        m'.req = update m.req p (queued data newTid random sock)) := by
  obtain ⟨newTid, inside, got, unused⟩ := pool.getNewTid differ fresh
  refine ⟨newTid, inside, unused, ?_⟩
  cases inact with
  | nil =>
    have head : m.lists.head false = none := Threads.path pool false
    refine .inl ⟨rfl, ?_⟩
    simp only [queueRequest, got, ok_bind, rqMalloc, head, pure_eq_ok]
  | cons p rest =>
    obtain ⟨head, link, threads⟩ := pool.pop
    obtain ⟨used, notAct⟩ := (pool.mem_inact p).mp List.mem_cons_self
    let lists : Table Ptr Bool := ⟨update m.lists.head false rest.head?,
      update m.lists.next p none⟩
    let m' : Requests := ⟨m.live, lists.add true p,
      update m.req p (queued data newTid random sock)⟩
    refine .inr ⟨p, rest, m', rfl, ?_, .push true threads used m' rfl rfl notAct, rfl, rfl⟩
    simp only [queueRequest, got, ok_bind, rqMalloc, head, link, access_ok used, pure_eq_ok, rqAdd,
      Requests.setReq, Requests.setLists, update_self, update_idem, m', lists,
      queued]

theorem retire_spec (pool : Pool m act inact) (member : p ∈ act) :
    ∃ m', retire m p = .ok m' ∧ Pool m' (act.erase p) (p :: inact) ∧ m'.live = m.live ∧
      m'.req = update m.req p { m.req p with sock := 0 } := by
  have used := pool.mem_act member
  have place : decide (p ∈ act) = true := decide_eq_true member
  obtain ⟨t, removed, threads⟩ := Threads.remove pool used (fun _ used => used)
  rw [place] at removed threads
  have gone : p ∉ act.erase p := pool.nodup_act.not_mem_erase
  have threads' : Threads t (fun q => decide (q ∈ act.erase p)) (m.live.filter (· ≠ p))
      (fun b => if b then act.erase p else inact) := by
    have chains : (fun b => if b then act.erase p else inact) =
        update (fun b => if b then act else inact) true
          ((if true then act else inact).erase p) := by
      funext b
      cases b <;> rfl
    rw [chains]
    refine threads.congr (fun _ => Iff.rfl) fun q inside => ?_
    rw [List.mem_filter, decide_eq_true_eq] at inside
    simp only [List.mem_erase_of_ne inside.2]
  refine ⟨(m.setReq p { m.req p with sock := 0 }).setLists (t.add false p), ?_,
    .push false threads' used _ rfl rfl gone, rfl, rfl⟩
  simp only [retire, rqDel, removed, ok_bind, rqFree, Requests.setLists, Requests.setReq,
    access_ok used]

end Moves

section Timers

variable {m : Requests} {act inact : List Ptr}

/-- A request a second later. -/
def aged (r : Req) : Req :=
  let r := { r with ttl := r.ttl - 1 }
  if r.ttl ≤ 0 then { r with sock := 0 } else r

/-- The request stays active. -/
def stays (m : Requests) (p : Ptr) : Bool := 1 < (m.req p).ttl

/-- What holds while `rq_timer` has walked over the first requests. -/
structure Ticked (m : Requests) (act inact rest : List Ptr) (m' : Requests) (front : List Ptr) :
    Prop where
  split : act = front ++ rest
  pool : Pool m' (front.filter (stays m) ++ rest)
    ((front.filter (fun p => !stays m p)).reverse ++ inact)
  live : m'.live = m.live
  req : ∀ p, m'.req p = if p ∈ front then aged (m.req p) else m.req p

variable {m' : Requests} {front : List Ptr} {p : Ptr}

theorem req_after {r : Req} (value : r = aged (m.req p))
    (before : ∀ q, m'.req q = if q ∈ front then aged (m.req q) else m.req q) (q : Ptr) :
    update m'.req p r q = if q ∈ front ++ [p] then aged (m.req q) else m.req q := by
  by_cases same : q = p
  · subst same
    rw [update_self, value, if_pos (by simp)]
  · rw [update_of_ne same, before]
    simp [same]

theorem tick_round {rest : List Ptr} (nodup : act.Nodup)
    (ticked : Ticked m act inact (p :: rest) m' front) :
    access m'.live p (m'.lists.next p) = .ok rest.head? ∧
      ∃ m'', tick p m' = .ok m'' ∧ ∃ front, Ticked m act inact rest m'' front := by
  obtain ⟨split, pool, live, req⟩ := ticked
  have member : p ∈ front.filter (stays m) ++ p :: rest := by simp
  have used := pool.mem_act member
  rw [split] at nodup
  have absent : p ∉ front := fun inside =>
    (List.nodup_append.mp nodup).2.2 p inside p List.mem_cons_self rfl
  have here : m'.req p = m.req p := by
    rw [req, if_neg absent]
  refine ⟨?_, ?_⟩
  · rw [access_ok used]
    exact congrArg _ (Threads.next_eq (h := true) pool rfl)
  let older := m'.setReq p { m'.req p with ttl := (m'.req p).ttl - 1 }
  have poolOlder : Pool older (front.filter (stays m) ++ p :: rest)
      ((front.filter (fun p => !stays m p)).reverse ++ inact) := pool.congr rfl rfl
  have now : older.req p = { m'.req p with ttl := (m'.req p).ttl - 1 } := update_self ..
  have split' : act = (front ++ [p]) ++ rest := by
    rw [split, List.append_assoc]
    rfl
  by_cases expires : (older.req p).ttl ≤ 0
  · obtain ⟨m'', retired, pool'', live'', req''⟩ := retire_spec poolOlder member
    have leaves : stays m p = false := by
      rw [now, here] at expires
      simp only [stays, decide_eq_false_iff_not]
      change (m.req p).ttl - 1 ≤ 0 at expires
      omega
    have erased : (front.filter (stays m) ++ p :: rest).erase p =
        front.filter (stays m) ++ rest := by
      rw [List.erase_append_right _ fun inside => absent (List.mem_filter.mp inside).1,
        List.erase_cons_head]
    refine ⟨m'', ?_, front ++ [p], split', ?_, live''.trans live, ?_⟩
    · rw [tick, access_ok used, ok_bind]
      rw [retire] at retired
      simp only [older] at expires retired
      rw [if_pos expires]
      exact retired
    · rw [erased] at pool''
      simpa [leaves] using pool''
    · intro q
      rw [req'']
      simp only [older, Requests.setReq, update_self, update_idem]
      refine req_after ?_ req q
      rw [now] at expires
      rw [aged, here]
      rw [here] at expires
      rw [if_pos expires]
  · refine ⟨older, ?_, front ++ [p], split', ?_, live, ?_⟩
    · rw [tick, access_ok used, ok_bind]
      simp only [older] at expires
      rw [if_neg expires]
      rfl
    · have remains : stays m p = true := by
        rw [now, here] at expires
        simp only [stays, decide_eq_true_eq]
        change ¬ (m.req p).ttl - 1 ≤ 0 at expires
        omega
      simpa [remains] using poolOlder
    · intro q
      simp only [older, Requests.setReq]
      refine req_after ?_ req q
      rw [now, here] at expires
      rw [aged, here, if_neg expires]

theorem rqTimer_spec (pool : Pool m act inact) :
    ∃ m', rqTimer m = .ok m' ∧ Pool m' (act.filter (stays m))
        ((act.filter (fun p => !stays m p)).reverse ++ inact) ∧
      m'.live = m.live ∧ ∀ p, m'.req p = if p ∈ act then aged (m.req p) else m.req p := by
  have start : Ticked m act inact act m [] := ⟨rfl, pool, rfl, fun p => by simp⟩
  obtain ⟨m', swept, front, split, pool', live, req⟩ :=
    sweep_rule
      (fun rest m' => ∃ front, Ticked m act inact rest m' front)
      (fun p rest s inv => by
        obtain ⟨front, ticked⟩ := inv
        exact tick_round pool.nodup_act ticked)
      act m m.live.length (Threads.length_le pool (fun _ used => used) true) ⟨[], start⟩
  rw [List.append_nil] at split pool'
  subst split
  refine ⟨m', ?_, pool', live, req⟩
  rw [rqTimer, Threads.head_eq pool true]
  exact swept

/-- What holds while `rq_clear_all` has walked over the first requests. -/
structure Clearing (m : Requests) (act inact rest : List Ptr) (m' : Requests)
    (front : List Ptr) : Prop where
  split : act = front ++ rest
  rest : Path m'.lists.next rest.head? rest none
  inactive : Path m'.lists.next (m'.lists.head false) (front.reverse ++ inact) none
  live : m'.live = m.live

theorem head?_of_path {next : Ptr → Option Ptr} {start : Option Ptr} {ps : List Ptr}
    (path : Path next start ps none) : start = ps.head? := by
  cases ps with
  | nil => exact path
  | cons p ps => exact path.1

theorem free_round {rest : List Ptr}
    (nodup : (act ++ inact).Nodup) (used : ∀ p ∈ act, p ∈ m.live)
    (clearing : Clearing m act inact (p :: rest) m' front) :
    access m'.live p (m'.lists.next p) = .ok rest.head? ∧
      ∃ m'', rqFree m' p = .ok m'' ∧ ∃ front, Clearing m act inact rest m'' front := by
  obtain ⟨split, path, inactive, live⟩ := clearing
  have isUsed : p ∈ m'.live := by
    rw [live]
    exact used p (by simp [split])
  have link := head?_of_path path.2
  rw [split, List.append_assoc] at nodup
  obtain ⟨-, nodupBack, disjoint⟩ := List.nodup_append.mp nodup
  have apart := List.nodup_cons.mp nodupBack
  have keeps : ∀ q, q ≠ p → (m'.lists.add false p).next q = m'.lists.next q :=
    fun q other => update_of_ne other _ _
  refine ⟨by rw [access_ok isUsed, link], _, access_ok isUsed _, front ++ [p], ?_, ?_, ?_, live⟩
  · rw [split, List.append_assoc]
    rfl
  · have tail : Path m'.lists.next (m'.lists.next p) rest none := path.2
    rw [link] at tail
    refine tail.congr fun q member => keeps q ?_
    rintro rfl
    exact apart.1 (List.mem_append_left _ member)
  · rw [List.reverse_append, List.append_assoc]
    have head : (m'.lists.add false p).head false = some p := by
      simp [Table.add]
    refine ⟨head, ?_⟩
    have link' : (m'.lists.add false p).next p = m'.lists.head false := update_self ..
    change Path (m'.lists.add false p).next ((m'.lists.add false p).next p) _ none
    rw [link']
    refine inactive.congr fun q member => keeps q ?_
    rintro rfl
    rcases List.mem_append.mp member with inFront | inInact
    · exact disjoint q (List.mem_reverse.mp inFront) q List.mem_cons_self rfl
    · exact apart.1 (List.mem_append_right _ inInact)

theorem rqClearAll_spec (pool : Pool m act inact) :
    ∃ m', rqClearAll m = .ok m' ∧ Pool m' [] (act.reverse ++ inact) ∧ m'.live = m.live := by
  have head := Threads.head_eq pool true
  cases act with
  | nil => exact ⟨m, by rw [rqClearAll, head]; rfl, pool, rfl⟩
  | cons first back =>
    have start : Clearing m (first :: back) inact (first :: back) m [] := by
      have path : Path m.lists.next (m.lists.head true) (first :: back) none :=
        Threads.path pool true
      rw [head] at path
      exact ⟨rfl, path, Threads.path pool false, rfl⟩
    obtain ⟨m', swept, front, split, -, inactive, live⟩ :=
      sweep_rule
        (fun rest m' => ∃ front, Clearing m (first :: back) inact rest m' front)
        (fun p rest s inv => by
          obtain ⟨front, clearing⟩ := inv
          exact free_round pool.nodup (fun q member => pool.mem_act member) clearing)
        (first :: back) m m.live.length
        (Threads.length_le pool (fun _ used => used) true) ⟨[], start⟩
    rw [List.append_nil] at split
    subst split
    refine ⟨m'.setLists { m'.lists with head := update m'.lists.head true none }, ?_,
      ⟨fun b => ?_, fun b => ?_, fun b q => ?_⟩, live⟩
    · rw [rqClearAll, head]
      change (sweep _ _ _ (first :: back).head? m >>= _) = _
      rw [swept]
      rfl
    · cases b with
      | true => simp [PointerList.Path, Requests.setLists]
      | false => exact inactive
    · cases b with
      | true => exact List.nodup_nil
      | false =>
        refine (List.Perm.nodup_iff ?_).mp pool.nodup
        exact (List.reverse_perm _).symm.append_right inact
    · have everywhere := pool.mem q
      rw [List.mem_append] at everywhere
      change q ∈ (if b then [] else (first :: back).reverse ++ inact) ↔ q ∈ m'.live ∧ _
      rw [live]
      cases b with
      | true => simp
      | false =>
        simp only [Bool.false_eq_true, if_false, List.mem_append, List.mem_reverse, everywhere]
        simp

end Timers

section Runs

inductive Op where
  /-- `process_client` queues a request -/
  | query (tids : List (BitVec 16)) (data : Req) (random : BitVec 32) (sock : Nat)
  /-- `process_server` has answered the request with this id -/
  | answer (tid : BitVec 16)
  | timer
  | clearAll
deriving DecidableEq

def exec (m : Requests) : Op → Except Fault Requests
  | .query tids data random sock => do
    let r ← queueRequest m tids data random sock
    return r.1
  | .answer tid => do
    match ← rqFind m tid with
    | none => return m
    | some req => retire m req
  | .timer => rqTimer m
  | .clearAll => rqClearAll m

/-- The calls of `random` come to an id that is not in use. -/
def Allowed (m : Requests) : Op → Prop
  | .query tids _ _ _ => ∃ tid ∈ tids, rqFind m tid = .ok none
  | _ => True

def ticks (ops : List Op) : Nat := ops.count .timer

/-- The two lists of requests, and what `rq_find` finds. -/
structure Sound (m : Requests) (act inact : List Ptr) : Prop where
  active : Path m.lists.next (m.lists.head true) act none
  inactive : Path m.lists.next (m.lists.head false) inact none
  nodup : (act ++ inact).Nodup
  count : act.length + inact.length = maxReq
  differ : TidsDiffer m act
  find : ∀ tid, ∃ r, rqFind m tid = .ok r ∧ ∀ p, r = some p ↔ p ∈ act ∧ (m.req p).newTid = tid

/-- The invariant of the runs. -/
structure Intact (m : Requests) (act inact : List Ptr) : Prop where
  pool : Pool m act inact
  differ : TidsDiffer m act
  ttl : ∀ p ∈ act, 0 < (m.req p).ttl ∧ (m.req p).ttl ≤ maxReqTtl
  nodup : m.live.Nodup
  count : m.live.length = maxReq

variable {m : Requests} {act inact : List Ptr}

theorem Intact.sound (intact : Intact m act inact) : Sound m act inact where
  active := Threads.path intact.pool true
  inactive := Threads.path intact.pool false
  nodup := intact.pool.nodup
  count := (intact.pool.length intact.nodup).trans intact.count
  differ := intact.differ
  find := intact.pool.rqFind intact.differ

theorem rqListInit_spec {blocks : List Ptr} (nodup : blocks.Nodup) :
    Pool (rqListInit blocks) [] blocks.reverse ∧ (rqListInit blocks).live = blocks.reverse := by
  induction blocks using List.reverseRecOn with
  | nil =>
    refine ⟨⟨fun b => ?_, fun b => ?_, fun b p => ?_⟩, rfl⟩
    · cases b <;> rfl
    · cases b <;> exact List.nodup_nil
    · cases b <;> simp [rqListInit]
  | append_singleton blocks rq ih =>
    obtain ⟨nodupFront, -, disjoint⟩ := List.nodup_append.mp nodup
    obtain ⟨pool, live⟩ := ih nodupFront
    have fresh : rq ∉ (rqListInit blocks).live := by
      rw [live, List.mem_reverse]
      exact fun inside => disjoint rq inside rq (List.mem_singleton.mpr rfl) rfl
    have step : rqListInit (blocks ++ [rq]) = rqInit (rqListInit blocks) rq := by
      rw [rqListInit, List.foldl_append]
      rfl
    rw [step, List.reverse_append]
    have cells : (rq :: (rqListInit blocks).live).filter (· ≠ rq) = (rqListInit blocks).live := by
      rw [List.filter_cons_of_neg (by simp), List.filter_eq_self]
      intro p used
      rw [decide_eq_true_eq]
      rintro rfl
      exact fresh used
    refine ⟨Pool.push false ?_ List.mem_cons_self _ rfl rfl
      List.not_mem_nil, ?_⟩
    · rw [cells]
      exact pool
    · change rq :: (rqListInit blocks).live = _
      rw [live]
      rfl

theorem intact_rqListInit {blocks : List Ptr} (nodup : blocks.Nodup)
    (count : blocks.length = maxReq) : Intact (rqListInit blocks) [] blocks.reverse := by
  obtain ⟨pool, live⟩ := rqListInit_spec nodup
  refine ⟨pool, ?_, ?_, ?_, ?_⟩
  · exact fun p member => absurd member List.not_mem_nil
  · exact fun p member => absurd member List.not_mem_nil
  · rw [live, List.nodup_reverse]
    exact nodup
  · rw [live, List.length_reverse]
    exact count

/-- A second takes one from the time of a request. -/
def lapse (op : Op) : Int := if op = .timer then 1 else 0

/-- What an operation leaves: the requests that stay active are `lapse op` older. -/
def Executes (m : Requests) (act : List Ptr) (op : Op) : Prop :=
  ∃ m' act' inact', exec m op = .ok m' ∧ Intact m' act' inact' ∧ m'.live = m.live ∧
    ∀ p ∈ act, p ∈ act' → (m'.req p).ttl = (m.req p).ttl - lapse op

section

variable (intact : Intact m act inact)

include intact

theorem Intact.unchanged {op : Op} (ran : exec m op = .ok m)
    (instant : op ≠ .timer) : Executes m act op := by
  refine ⟨m, act, inact, ran, intact, rfl, fun p _ _ => ?_⟩
  rw [lapse, if_neg instant, Int.sub_zero]

theorem Intact.fewer {m' : Requests} {act' inact' : List Ptr}
    (pool' : Pool m' act' inact') (live : m'.live = m.live)
    (stayed : ∀ p ∈ act', p ∈ act ∧ (m'.req p).newTid = (m.req p).newTid ∧
      0 < (m'.req p).ttl ∧ (m'.req p).ttl ≤ (m.req p).ttl) : Intact m' act' inact' where
  pool := pool'
  differ a inA b inB same := by
    obtain ⟨memA, sameA, -⟩ := stayed a inA
    obtain ⟨memB, sameB, -⟩ := stayed b inB
    rw [sameA, sameB] at same
    exact intact.differ a memA b memB same
  ttl p inside := by
    obtain ⟨member, -, left, less⟩ := stayed p inside
    exact ⟨left, Int.le_trans less (intact.ttl p member).2⟩
  nodup := live ▸ intact.nodup
  count := live ▸ intact.count

theorem Intact.fresh {tids : List (BitVec 16)} (allowed : ∃ tid ∈ tids, rqFind m tid = .ok none) :
    ∃ tid ∈ tids, ∀ p ∈ act, (m.req p).newTid ≠ tid := by
  obtain ⟨tid, inside, unused⟩ := allowed
  refine ⟨tid, inside, fun p member same => ?_⟩
  obtain ⟨r, searched, isReq⟩ := intact.pool.rqFind intact.differ tid
  rw [unused] at searched
  cases (Except.ok.inj searched).trans ((isReq p).mpr ⟨member, same⟩)

theorem exec_query {tids : List (BitVec 16)} (data : Req)
    (random : BitVec 32) (sock : Nat) (allowed : ∃ tid ∈ tids, rqFind m tid = .ok none) :
    Executes m act (.query tids data random sock) := by
  obtain ⟨newTid, -, unused, ⟨-, full⟩ | ⟨p, rest, m', rfl, queuedOk, pool', live, req⟩⟩ :=
    queueRequest_spec intact.pool intact.differ data random sock (intact.fresh allowed)
  · exact intact.unchanged (by rw [exec, full]; rfl) (by simp)
  · have notAct : p ∉ act := ((intact.pool.mem_inact p).mp List.mem_cons_self).2
    have old : ∀ q ∈ act, m'.req q = m.req q := by
      intro q member
      rw [req]
      refine update_of_ne ?_ _ _
      rintro rfl
      exact notAct member
    have new : m'.req p = queued data newTid random sock := by
      rw [req, update_self]
    refine ⟨m', p :: act, rest, by rw [exec, queuedOk]; rfl,
      ⟨pool', ?_, ?_, live ▸ intact.nodup, live ▸ intact.count⟩, live, ?_⟩
    · refine apart_cons intact.differ (fun q member => by rw [old q member]) ?_
      rw [new]
      exact unused
    · intro q member
      rcases List.mem_cons.mp member with rfl | before
      · have time : (queued data newTid random sock).ttl = maxReqTtl := rfl
        rw [new, time]
        exact ⟨by decide, Int.le_refl _⟩
      · rw [old q before]
        exact intact.ttl q before
    · intro q member _
      rw [old q member]
      simp [lapse]

theorem exec_answer (tid : BitVec 16) :
    Executes m act (.answer tid) := by
  obtain ⟨r, searched, isReq⟩ := intact.pool.rqFind intact.differ tid
  cases r with
  | none => exact intact.unchanged (by rw [exec, searched]; rfl) (by simp)
  | some p =>
    obtain ⟨m', retired, pool', live, req⟩ := retire_spec intact.pool ((isReq p).mp rfl).1
    have same : ∀ q, (m'.req q).newTid = (m.req q).newTid ∧ (m'.req q).ttl = (m.req q).ttl := by
      intro q
      by_cases here : q = p
      · subst here
        rw [req, update_self]
        exact ⟨rfl, rfl⟩
      · rw [req, update_of_ne here]
        exact ⟨rfl, rfl⟩
    refine ⟨m', act.erase p, p :: inact, by rw [exec, searched]; exact retired,
      intact.fewer pool' live fun q inside => ?_, live, fun q _ _ => ?_⟩
    · have member := List.mem_of_mem_erase inside
      refine ⟨member, (same q).1, ?_⟩
      rw [(same q).2]
      exact ⟨(intact.ttl q member).1, Int.le_refl _⟩
    · rw [(same q).2]
      simp [lapse]

theorem exec_timer : Executes m act .timer := by
  obtain ⟨m', timed, pool', live, req⟩ := rqTimer_spec intact.pool
  have older : ∀ q ∈ act, (m'.req q).newTid = (m.req q).newTid ∧
      (m'.req q).ttl = (m.req q).ttl - 1 := by
    intro q member
    rw [req, if_pos member, aged]
    by_cases expired : (m.req q).ttl - 1 ≤ 0
    · simp [expired]
    · simp [expired]
  refine ⟨m', _, _, timed, intact.fewer pool' live fun q inside => ?_, live,
    fun q member _ => ?_⟩
  · obtain ⟨member, remains⟩ := List.mem_filter.mp inside
    rw [stays, decide_eq_true_eq] at remains
    refine ⟨member, (older q member).1, ?_⟩
    rw [(older q member).2]
    omega
  · rw [(older q member).2, lapse, if_pos rfl]

theorem exec_clearAll : Executes m act .clearAll := by
  obtain ⟨m', cleared, pool', live⟩ := rqClearAll_spec intact.pool
  refine ⟨m', [], _, cleared, intact.fewer pool' live fun p member => ?_, live,
    fun p _ member => ?_⟩
  · exact absurd member List.not_mem_nil
  · exact absurd member List.not_mem_nil

theorem exec_spec {op : Op} (allowed : Allowed m op) :
    Executes m act op := by
  cases op with
  | query tids data random sock => exact exec_query intact data random sock allowed
  | answer tid => exact exec_answer intact tid
  | timer => exact exec_timer intact
  | clearAll => exact exec_clearAll intact

theorem inactive_after {p : Ptr} (member : p ∈ act)
    (ops : List Op) (allowed : Along exec Allowed ops m) (enough : (m.req p).ttl ≤ ticks ops) :
    ∃ front, front <+: ops ∧ ∃ m' act' inact', run exec front m = .ok m' ∧
      Intact m' act' inact' ∧ p ∈ inact' := by
  induction ops generalizing m act inact with
  | nil =>
    have some := (intact.ttl p member).1
    rw [ticks, List.count_nil] at enough
    omega
  | cons op ops ih =>
    obtain ⟨m', act', inact', executed, intact', live, ttl⟩ := exec_spec intact allowed.1
    have first : run exec [op] m = .ok m' := by
      rw [run_cons, executed, ok_bind, run_nil]
    by_cases active : p ∈ act'
    · have fewer : (m'.req p).ttl ≤ ticks ops := by
        rw [ttl p member active]
        rw [ticks, List.count_cons] at enough
        rw [ticks]
        cases op with
        | timer =>
          simp only [beq_self_eq_true, if_true] at enough
          rw [lapse, if_pos rfl]
          omega
        | query | answer | clearAll =>
          simp at enough
          simp only [lapse, reduceCtorEq, if_false]
          omega
      obtain ⟨front, isPrefix, found⟩ := ih intact' active (allowed.2 m' executed) fewer
      refine ⟨op :: front, ?_, ?_⟩
      · obtain ⟨back, rfl⟩ := isPrefix
        exact ⟨back, rfl⟩
      · obtain ⟨m'', act'', inact'', ran, rest⟩ := found
        exact ⟨m'', act'', inact'', by rw [run_cons, executed, ok_bind, ran], rest⟩
    · refine ⟨[op], ⟨ops, rfl⟩, m', act', inact', first, intact', ?_⟩
      rw [intact'.pool.mem_inact, live]
      exact ⟨intact.pool.mem_act member, active⟩

end

/-- In every run the lists hold all requests, each one once, the ids of the active requests
differ, and a request is inactive again after ten seconds at the latest. -/
theorem request_pool {blocks : List Ptr} (nodup : blocks.Nodup) (count : blocks.length = maxReq)
    (ops : List Op) (allowed : Along exec Allowed ops (rqListInit blocks)) :
    ∃ m act inact, run exec ops (rqListInit blocks) = .ok m ∧ Sound m act inact ∧
      ∀ p ∈ act, ∀ later, Along exec Allowed later m → maxReqTtl ≤ ticks later →
        ∃ front, front <+: later ∧ ∃ m' act' inact', run exec front m = .ok m' ∧
          Sound m' act' inact' ∧ p ∈ inact' := by
  obtain ⟨m, ran, act, inact, intact⟩ := run_rule
    (I := fun m => ∃ act inact, Intact m act inact)
    (fun m op inv allowed => by
      obtain ⟨act, inact, intact⟩ := inv
      obtain ⟨m', act', inact', executed, intact', -⟩ := exec_spec intact allowed
      exact ⟨m', executed, act', inact', intact'⟩)
    allowed ⟨[], _, intact_rqListInit nodup count⟩
  refine ⟨m, act, inact, ran, intact.sound, fun p member later laterAllowed enough => ?_⟩
  have bound := (intact.ttl p member).2
  obtain ⟨front, isPrefix, m', act', inact', ran', intact', inside⟩ :=
    inactive_after intact member later laterAllowed (by omega)
  exact ⟨front, isPrefix, m', act', inact', ran', intact'.sound, inside⟩

end Runs

def firstQuery : Op := .query [5] zeroReq 0 3

def secondQuery : Op := .query [5, 6] zeroReq 1 4

/-- Three queries, the answer to the second one and a second of time. -/
def demoOps : List Op :=
  [firstQuery, secondQuery, .query [6, 5, 7] zeroReq 2 5, .answer 6, .timer]

theorem request_pool_demo :
    ∃ m act inact, run exec demoOps (rqListInit (List.range maxReq)) = .ok m ∧
      Sound m act inact ∧
      ∀ p ∈ act, ∀ later, Along exec Allowed later m → maxReqTtl ≤ ticks later →
        ∃ front, front <+: later ∧ ∃ m' act' inact', run exec front m = .ok m' ∧
          Sound m' act' inact' ∧ p ∈ inact' := by
  have first : rqFind (rqListInit (List.range maxReq)) 5 = .ok none := by decide +kernel
  have second : (exec (rqListInit (List.range maxReq)) firstQuery >>= fun m => rqFind m 6) =
      .ok none := by decide +kernel
  have third : (exec (rqListInit (List.range maxReq)) firstQuery >>= fun m =>
      exec m secondQuery >>= fun m => rqFind m 7) = .ok none := by decide +kernel
  refine request_pool List.nodup_range List.length_range demoOps ⟨⟨5, by decide, first⟩,
    fun m ran => ⟨⟨6, by decide, ?_⟩, fun m' ran' => ⟨⟨7, by decide, ?_⟩, fun _ _ =>
      ⟨trivial, fun _ _ => ⟨trivial, fun _ _ => trivial⟩⟩⟩⟩⟩
  · rw [ran] at second
    exact second
  · rw [ran, ok_bind, ran'] at third
    exact third

end DnsRequests
