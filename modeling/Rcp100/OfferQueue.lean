import Mathlib.Data.List.Perm.Basic
import Rcp100.AnswerQueue
import Rcp100.FaultRuns

/-!
# Offers that wait for a ping

An offer is queued while its address is pinged: `send_icmp_pkt` links the packet in front of
`icmp_queue`, `get_icmp_pkt` marks the first packet with the address that has answered, and
`icmp_timeout` counts down, sends, unlinks and frees. A packet stands for the event that queued
it; what became of it is recorded. The counters of the interface are left out.
-/

namespace OfferQueue

open PointerList ChainTable FaultRuns
open AnswerQueue hiding run step Event start
open Function (update update_of_ne update_self)

abbrev Ip := BitVec 32

abbrev Ptr := Nat

/-- What `get_icmp_pkt` looks at. -/
structure Icmp where
  icmpType : BitVec 8
  icdId : BitVec 16
  icdSeq : BitVec 16
  saddr : Ip
deriving DecidableEq

def pingId : BitVec 16 := 0x4df6

def pingSeq : BitVec 16 := 0x53c7

/-- The address that a packet is an answer to our ping from. -/
def echoFrom (pkt : Icmp) : Option Ip :=
  if pkt.icmpType = 0 then
    if pkt.icdId = pingId ∧ pkt.icdSeq = pingSeq then some pkt.saddr else none
  else none

structure Memory where
  live : List Ptr
  icmpQueue : Option Ptr
  next : Ptr → Option Ptr
  leaseIp : Ptr → Ip
  ttl : Ptr → Int
  response : Ptr → Bool
  offer : Ptr → Nat
  now : Nat
  fates : List (Fate Ip)

def initial : Memory :=
  ⟨[], none, fun _ => none, fun _ => 0, fun _ => 0, fun _ => false, fun _ => 0, 0, []⟩

/-- `process_discover`: the packet is allocated and cleared. -/
def mallocPkt (m : Memory) (p : Ptr) : Memory :=
  { m with
    live := p :: m.live
    response := update m.response p false
    offer := update m.offer p m.now }

def sendIcmpPkt (m : Memory) (ip : Ip) (p : Ptr) : Memory :=
  { m with
    leaseIp := update m.leaseIp p ip
    next := update m.next p m.icmpQueue
    ttl := update m.ttl p 2
    icmpQueue := some p }

/-- The packet will be removed in the next queue cycle. -/
def markPkt (m : Memory) (p : Ptr) : Memory :=
  { m with
    response := update m.response p true
    ttl := update m.ttl p 0 }

def getIcmpPkt (m : Memory) (pkt : Icmp) : Except Fault Memory :=
  match echoFrom pkt with
  | none => return m
  | some ip => do
    match ← search m.live m.next (fun p => m.leaseIp p = ip) m.live.length m.icmpQueue with
    | none => return m
    | some p => return markPkt m p

/-- The packet is sent unless it is marked. -/
def record (m : Memory) (p : Ptr) : Memory :=
  { m with fates := m.fates ++ [⟨m.offer p, m.leaseIp p, !m.response p, m.now⟩] }

/-- The link that leads to the packet gets the one behind it. -/
def unlink (m : Memory) (prev next : Option Ptr) : Except Fault Memory :=
  match prev with
  | some q => access m.live q { m with next := update m.next q next }
  | none => return { m with icmpQueue := next }

/-- The body of the loop in `icmp_timeout`, with the packet before this one afterwards. -/
def visit (m : Memory) (prev next : Option Ptr) (p : Ptr) :
    Except Fault (Memory × Option Ptr) := do
  let m := { m with ttl := update m.ttl p (m.ttl p - 1) }
  if m.ttl p ≤ 0 then
    let m ← unlink (record m p) prev next
    return ({ m with live := m.live.erase p }, prev)
  else return (m, some p)

def timeoutLoop : Nat → Memory → Option Ptr → Option Ptr → Except Fault Memory
  | _, m, _, none => .ok m
  | 0, _, _, some _ => .error .endless
  | steps+1, m, prev, some p => do
    let next ← access m.live p (m.next p)
    let (m, prev) ← visit m prev next p
    timeoutLoop steps m prev next

def icmpTimeout (m : Memory) : Except Fault Memory :=
  timeoutLoop m.live.length m none m.icmpQueue

/-- An offer for an address, in a block that `malloc` gives; an ICMP packet; a tick. -/
inductive Event where
  | offer (ip : Ip) (block : Ptr)
  | icmp (pkt : Icmp)
  | timeout
deriving DecidableEq

def handle (m : Memory) : Event → Except Fault Memory
  | .offer ip block => return sendIcmpPkt (mallocPkt m block) ip block
  | .icmp pkt => getIcmpPkt m pkt
  | .timeout => icmpTimeout m

def step (m : Memory) (event : Event) : Except Fault Memory := do
  let m ← handle m event
  return { m with now := m.now + 1 }

/-- What the queue sees of an event. -/
def seen : Event → AnswerQueue.Event Ip
  | .offer ip _ => .put ip
  | .icmp pkt => (echoFrom pkt).elim .idle .answer
  | .timeout => .tick

/-- `malloc` gives a block that is not in use. -/
def Fresh (m : Memory) : Event → Prop
  | .offer _ block => block ∉ m.live
  | _ => True

instance (m : Memory) : (event : Event) → Decidable (Fresh m event)
  | .offer _ block => inferInstanceAs (Decidable (block ∉ m.live))
  | .icmp _ | .timeout => .isTrue trivial

/-- The packet as an item of the queue. -/
def item (m : Memory) (p : Ptr) : Item Ip := ⟨m.offer p, m.leaseIp p, m.ttl p, m.response p⟩

/-- The walk of the loop: these packets stay in the queue, and those are still to be visited. -/
structure Walk (m : Memory) (kept rest : List Ptr) : Prop where
  path : Path m.next m.icmpQueue (kept ++ rest) none
  nodup : (kept ++ rest).Nodup
  live : m.live.Perm (kept ++ rest)

section Loop

variable {m : Memory} {kept rest : List Ptr} {p : Ptr}

theorem Walk.next_eq (walk : Walk m kept (p :: rest)) : m.next p = rest.head? := by
  obtain ⟨-, -, -, after⟩ := path_append.mp walk.path
  exact after.start_eq

theorem Walk.apart (walk : Walk m kept (p :: rest)) : ∀ q ∈ kept ++ rest, q ≠ p := by
  have fresh := (List.nodup_cons.mp (List.perm_middle.nodup_iff.mp walk.nodup)).1
  rintro q member rfl
  exact fresh member

theorem item_down {t : Int} (q : Ptr) :
    item { m with ttl := update m.ttl p t } q =
      if q = p then { item m p with ttl := t } else item m q := by
  by_cases same : q = p
  · subst same
    simp only [item, update_self, if_true]
  · simp only [item, update_of_ne same, same, if_false]

theorem unlink_spec (walk : Walk m kept (p :: rest)) :
    ∃ m', unlink m kept.getLast? rest.head? = .ok m' ∧
      Path m'.next m'.icmpQueue (kept ++ rest) none ∧ m'.live = m.live ∧
      (∀ q, item m' q = item m q) ∧ m'.fates = m.fates ∧ m'.now = m.now := by
  have link := walk.next_eq
  rcases List.eq_nil_or_concat kept with rfl | ⟨front, c, rfl⟩
  · refine ⟨{ m with icmpQueue := rest.head? }, rfl, ?_, rfl, fun _ => rfl, rfl, rfl⟩
    exact link ▸ walk.path.2
  · rw [List.concat_eq_append] at *
    have split : front ++ [c] ++ p :: rest = front ++ c :: p :: rest := by simp
    have fresh : c ∉ front ++ p :: rest := by
      have nodup := walk.nodup
      rw [split] at nodup
      exact (List.nodup_cons.mp (List.perm_middle.nodup_iff.mp nodup)).1
    have member : c ∈ m.live := walk.live.mem_iff.mpr (by simp)
    refine ⟨{ m with next := update m.next c rest.head? }, ?_, ?_, rfl, fun _ => rfl, rfl,
      rfl⟩
    · rw [List.getLast?_concat, unlink, access_ok member]
    · have path := walk.path
      rw [split] at path
      have removed : Path (update m.next c rest.head?) m.icmpQueue (front ++ c :: rest)
          none := by
        refine path.remove ?_ (fun q before => ?_) (fun q behind => ?_)
        · rw [update_self, link]
        · refine update_of_ne ?_ _ _
          rintro rfl
          exact fresh (List.mem_append_left _ before)
        · refine update_of_ne ?_ _ _
          rintro rfl
          exact fresh (List.mem_append_right _ (List.mem_cons_of_mem p behind))
      rw [List.append_assoc]
      exact removed

theorem visit_over (walk : Walk m kept (p :: rest)) (ends : m.ttl p ≤ 1) :
    ∃ m', visit m kept.getLast? rest.head? p = .ok (m', kept.getLast?) ∧ Walk m' kept rest ∧
      (∀ q ∈ kept ++ rest, item m' q = item m q) ∧
      m'.fates = m.fates ++ [(item m p).fate m.now] ∧ m'.now = m.now := by
  let counted : Memory := { m with ttl := update m.ttl p (m.ttl p - 1) }
  have down : counted.ttl p = m.ttl p - 1 := update_self _ _ _
  have walk' : Walk (record counted p) kept (p :: rest) := ⟨walk.path, walk.nodup, walk.live⟩
  obtain ⟨m', unlinked, path, live, items, fates, now⟩ := unlink_spec walk'
  have last : counted.ttl p ≤ 0 := by omega
  refine ⟨{ m' with live := m'.live.erase p }, ?_, ⟨path, ?_, ?_⟩, fun q member => ?_, ?_, ?_⟩
  · rw [visit, if_pos last, unlinked]
    rfl
  · exact (List.nodup_cons.mp (List.perm_middle.nodup_iff.mp walk.nodup)).2
  · rw [live]
    have erased := (walk.live.trans List.perm_middle).erase p
    rw [List.erase_cons_head] at erased
    exact erased
  · have same : item counted q = item m q :=
      (item_down q).trans (if_neg (walk.apart q member))
    exact (items q).trans same
  · exact fates
  · exact now

theorem visit_stays (walk : Walk m kept (p :: rest)) (more : 1 < m.ttl p) :
    ∃ m', visit m kept.getLast? rest.head? p = .ok (m', some p) ∧ Walk m' (kept ++ [p]) rest ∧
      (∀ q ∈ kept ++ rest, item m' q = item m q) ∧ item m' p = (item m p).down ∧
      m'.fates = m.fates ∧ m'.now = m.now := by
  let counted : Memory := { m with ttl := update m.ttl p (m.ttl p - 1) }
  have down : counted.ttl p = m.ttl p - 1 := update_self _ _ _
  have waits : ¬ counted.ttl p ≤ 0 := by omega
  have split : kept ++ [p] ++ rest = kept ++ p :: rest := by simp
  refine ⟨counted, ?_, ⟨split ▸ walk.path, split ▸ walk.nodup, split ▸ walk.live⟩,
    fun q member => (item_down q).trans (if_neg (walk.apart q member)),
    (item_down p).trans (if_pos rfl), rfl, rfl⟩
  rw [visit, if_neg waits]
  rfl

theorem Walk.restart (walk : Walk m kept []) : Walk m [] kept := by
  obtain ⟨path, nodup, live⟩ := walk
  rw [List.append_nil] at path nodup live
  exact ⟨path, nodup, live⟩

theorem Walk.enough (walk : Walk m kept rest) : rest.length ≤ m.live.length := by
  rw [walk.live.length_eq, List.length_append]
  exact Nat.le_add_left _ _

theorem Walk.inside (walk : Walk m kept rest) : ∀ p ∈ rest, p ∈ m.live := fun _ member =>
  walk.live.mem_iff.mpr (List.mem_append_right kept member)

theorem map_congr_items {m' : Memory} {ps : List Ptr} (same : ∀ q ∈ ps, item m' q = item m q) :
    ps.map (item m') = ps.map (item m) := List.map_congr_left same

theorem timeoutLoop_spec (steps : Nat) (enough : rest.length ≤ steps) (walk : Walk m kept rest) :
    ∃ m' ps, timeoutLoop steps m kept.getLast? rest.head? = .ok m' ∧ Walk m' ps [] ∧
      ps.map (item m') = kept.map (item m) ++
        ((rest.map (item m)).map Item.down).filter (fun i => !i.isOver) ∧
      m'.fates = m.fates ++
        (((rest.map (item m)).map Item.down).filter Item.isOver).map (Item.fate m.now) ∧
      m'.now = m.now := by
  induction rest generalizing m kept steps with
  | nil =>
    refine ⟨m, kept, ?_, walk, (List.append_nil _).symm, (List.append_nil _).symm, rfl⟩
    cases steps <;> rfl
  | cons p rest ih =>
    obtain ⟨steps, rfl⟩ := Nat.exists_eq_add_one_of_ne_zero
      (Nat.ne_zero_of_lt (Nat.lt_of_lt_of_le (Nat.succ_pos _) enough))
    have shorter : rest.length ≤ steps := by simpa using enough
    rw [List.head?_cons, timeoutLoop, access_ok (walk.inside p List.mem_cons_self), ok_bind,
      walk.next_eq]
    by_cases ends : m.ttl p ≤ 1
    · obtain ⟨m₁, visited, walk₁, items, fates, now⟩ := visit_over walk ends
      have isOver : (item m p).down.isOver = true :=
        decide_eq_true (by change m.ttl p - 1 ≤ 0; omega)
      obtain ⟨m', ps, looped, done, kept', fates', now'⟩ := ih steps shorter walk₁
      rw [visited, ok_bind]
      refine ⟨m', ps, looped, done, ?_, ?_, now'.trans now⟩
      · rw [kept', map_congr_items fun q member => items q (List.mem_append_left _ member),
          map_congr_items fun q member => items q (List.mem_append_right _ member)]
        simp only [List.map_cons, List.filter_cons, isOver, Bool.not_true, Bool.false_eq_true,
          if_false]
      · rw [fates', fates, now, map_congr_items fun q member =>
          items q (List.mem_append_right _ member), List.append_assoc]
        simp only [List.map_cons, List.filter_cons, isOver, if_true]
        rfl
    · have more : 1 < m.ttl p := Int.not_le.mp ends
      obtain ⟨m₁, visited, walk₁, items, here, fates, now⟩ := visit_stays walk more
      have notOver : (item m p).down.isOver = false :=
        decide_eq_false (by change ¬ m.ttl p - 1 ≤ 0; omega)
      obtain ⟨m', ps, looped, done, kept', fates', now'⟩ := ih steps shorter walk₁
      rw [visited, ok_bind]
      rw [List.getLast?_concat] at looped
      refine ⟨m', ps, looped, done, ?_, ?_, now'.trans now⟩
      · rw [kept', List.map_append, List.map_cons, List.map_nil, here,
          map_congr_items fun q member => items q (List.mem_append_left _ member),
          map_congr_items fun q member => items q (List.mem_append_right _ member),
          List.append_assoc]
        simp only [List.map_cons, List.filter_cons, notOver, Bool.not_false, if_true]
        rfl
      · rw [fates', fates, now, map_congr_items fun q member =>
          items q (List.mem_append_right _ member)]
        simp only [List.map_cons, List.filter_cons, notOver, Bool.false_eq_true, if_false]

end Loop

/-- The list of packets is the queue. -/
structure Shows (m : Memory) (q : Queue Ip) : Prop where
  list : ∃ ps, Walk m [] ps ∧ q.items = ps.map (item m)
  fates : q.fates = m.fates
  now : q.now = m.now

section Simulation

variable {m : Memory} {q : Queue Ip}

theorem shows_initial : Shows initial AnswerQueue.start :=
  ⟨⟨[], ⟨rfl, List.nodup_nil, List.Perm.refl _⟩, rfl⟩, rfl, rfl⟩

theorem step_ok {m' : Memory} {event : Event} (handled : handle m event = .ok m') :
    step m event = .ok { m' with now := m'.now + 1 } := by
  rw [step, handled]
  rfl

variable {ip : Ip} {ps : List Ptr}

theorem shows_offer (shows : Shows m q) {block : Ptr} (fresh : block ∉ m.live) :
    ∃ m', step m (.offer ip block) = .ok m' ∧ Shows m' (AnswerQueue.step 2 q (.put ip)) := by
  obtain ⟨ps, walk, items⟩ := shows.list
  have apart : ∀ p ∈ ps, p ≠ block := by
    rintro p member rfl
    exact fresh (walk.inside p member)
  refine ⟨_, step_ok rfl, ⟨block :: ps, ⟨⟨rfl, ?_⟩, ?_, walk.live.cons block⟩, ?_⟩, shows.fates,
    congrArg (· + 1) shows.now⟩
  · have others : Path (update m.next block m.icmpQueue) m.icmpQueue ps none :=
      walk.path.congr fun p member => update_of_ne (apart p member) _ _
    have link : update m.next block m.icmpQueue block = m.icmpQueue :=
      update_self _ _ _
    exact (congrArg (fun start => Path _ start ps none) link).mpr others
  · exact List.nodup_cons.mpr ⟨fun member => apart block member rfl, walk.nodup⟩
  · rw [List.map_cons]
    refine congrArg₂ List.cons ?_ ?_
    · simp only [item, sendIcmpPkt, mallocPkt, update_self, shows.now]
      rfl
    · rw [items]
      refine List.map_congr_left fun p member => ?_
      simp only [item, sendIcmpPkt, mallocPkt, update_of_ne (apart p member)]

theorem shows_timeout (shows : Shows m q) :
    ∃ m', step m .timeout = .ok m' ∧ Shows m' (AnswerQueue.step 2 q .tick) := by
  obtain ⟨ps, walk, items⟩ := shows.list
  obtain ⟨m', ps', looped, walk', kept, fates, now⟩ := timeoutLoop_spec _ walk.enough walk
  have start : m.icmpQueue = ps.head? := walk.path.start_eq
  have handled : handle m .timeout = .ok m' := by
    rw [handle, icmpTimeout, start]
    exact looped
  obtain ⟨path, nodup, live⟩ := walk'.restart
  refine ⟨_, step_ok handled, ⟨ps', ⟨path, nodup, live⟩, ?_⟩, ?_, ?_⟩
  · simp only [AnswerQueue.step, items]
    exact kept.symm
  · simp only [AnswerQueue.step, items, shows.fates, shows.now]
    exact fates.symm
  · simp only [AnswerQueue.step, shows.now]
    exact congrArg (· + 1) now.symm

theorem mark_absent (absent : ps.find? (fun p => m.leaseIp p = ip) = none) :
    mark ip (ps.map (item m)) = ps.map (item m) := by
  induction ps with
  | nil => rfl
  | cons p ps ih =>
    rw [List.find?_eq_none] at absent
    have other : ¬ m.leaseIp p = ip := by simpa using absent p List.mem_cons_self
    have later : ps.find? (fun p => m.leaseIp p = ip) = none :=
      List.find?_eq_none.mpr fun r member => absent r (List.mem_cons_of_mem p member)
    have otherKey : ¬ (item m p).key = ip := other
    rw [List.map_cons, mark, if_neg otherKey, ih later]

theorem mark_found {p : Ptr} (nodup : ps.Nodup)
    (found : ps.find? (fun p => m.leaseIp p = ip) = some p) :
    mark ip (ps.map (item m)) = ps.map (item (markPkt m p)) := by
  induction ps with
  | nil => cases found
  | cons r ps ih =>
    obtain ⟨fresh, nodup⟩ := List.nodup_cons.mp nodup
    by_cases same : m.leaseIp r = ip
    · have sameKey : (item m r).key = ip := same
      rw [List.find?_cons_of_pos (by simpa using same)] at found
      cases found
      rw [List.map_cons, mark, if_pos sameKey, List.map_cons]
      refine congrArg₂ List.cons ?_ (List.map_congr_left fun t member => ?_)
      · simp only [item, Item.stopped, markPkt, update_self]
      · have other : t ≠ p := by
          rintro rfl
          exact fresh member
        simp only [item, markPkt, update_of_ne other]
    · have otherKey : ¬ (item m r).key = ip := same
      rw [List.find?_cons_of_neg (by simpa using same)] at found
      have other : r ≠ p := by
        rintro rfl
        exact fresh (List.mem_of_find?_eq_some found)
      rw [List.map_cons, mark, if_neg otherKey, ih nodup found, List.map_cons]
      simp only [item, markPkt, update_of_ne other]

theorem getIcmpPkt_spec (walk : Walk m [] ps) {pkt : Icmp}
    (echo : echoFrom pkt = some ip) :
    getIcmpPkt m pkt = .ok ((ps.find? fun p => m.leaseIp p = ip).elim m (markPkt m)) := by
  have path : Path m.next m.icmpQueue ps none := walk.path
  rw [getIcmpPkt, echo]
  change (search _ _ _ _ _ >>= _) = _
  rw [search_spec path walk.inside _ walk.enough, ok_bind]
  cases ps.find? fun p => m.leaseIp p = ip <;> rfl

theorem shows_icmp (shows : Shows m q) (pkt : Icmp) :
    ∃ m', step m (.icmp pkt) = .ok m' ∧ Shows m' (AnswerQueue.step 2 q (seen (.icmp pkt))) := by
  obtain ⟨ps, walk, items⟩ := shows.list
  cases echo : echoFrom pkt with
  | none =>
    have handled : handle m (.icmp pkt) = .ok m := by
      rw [handle, getIcmpPkt, echo]
      rfl
    rw [seen, echo]
    exact ⟨_, step_ok handled, ⟨ps, ⟨walk.path, walk.nodup, walk.live⟩, items⟩, shows.fates,
      congrArg (· + 1) shows.now⟩
  | some ip =>
    have handled := getIcmpPkt_spec walk echo
    rw [seen, echo]
    cases found : ps.find? (fun p => m.leaseIp p = ip) with
    | none =>
      rw [found] at handled
      refine ⟨_, step_ok handled, ⟨ps, ⟨walk.path, walk.nodup, walk.live⟩, ?_⟩, shows.fates,
        congrArg (· + 1) shows.now⟩
      change mark ip q.items = ps.map (item m)
      rw [items, mark_absent found]
    | some p =>
      rw [found] at handled
      refine ⟨_, step_ok handled, ⟨ps, ⟨walk.path, walk.nodup, walk.live⟩, ?_⟩, shows.fates,
        congrArg (· + 1) shows.now⟩
      change mark ip q.items = ps.map (item (markPkt m p))
      have nodup : ps.Nodup := walk.nodup
      rw [items, mark_found nodup found]

theorem shows_step (shows : Shows m q) {event : Event} (fresh : Fresh m event) :
    ∃ m', step m event = .ok m' ∧ Shows m' (AnswerQueue.step 2 q (seen event)) := by
  cases event with
  | offer ip block => exact shows_offer shows fresh
  | icmp pkt => exact shows_icmp shows pkt
  | timeout => exact shows_timeout shows

end Simulation

/-- The packets of the queue, by their links. -/
def queueOf (m : Memory) : List (Item Ip) :=
  match collect m.live m.next m.live.length m.icmpQueue with
  | .ok ps => ps.map (item m)
  | .error _ => []

/-- When an address answers, all packets for it are marked already, but the first one. -/
def MarksAll (m : Memory) : Event → Prop
  | .icmp pkt => ∀ ip ∈ echoFrom pkt, RestMarked ip (queueOf m)
  | _ => True

section Runs

variable {m : Memory} {q : Queue Ip} {events : List Event}

theorem Shows.queueOf (shows : Shows m q) : queueOf m = q.items := by
  obtain ⟨ps, walk, items⟩ := shows.list
  have path : Path m.next m.icmpQueue ps none := walk.path
  rw [OfferQueue.queueOf, collect_spec path walk.inside _ walk.enough, items]

theorem marksAll_iff (shows : Shows m q) (event : Event) :
    MarksAll m event ↔ Reaches q (seen event) := by
  cases event with
  | offer ip block => exact Iff.rfl
  | timeout => exact Iff.rfl
  | icmp pkt =>
    rw [MarksAll, shows.queueOf, seen]
    cases echoFrom pkt with
    | none => exact iff_of_true (fun ip absent => by cases absent) trivial
    | some ip => exact ⟨fun all => all ip rfl, fun marked other same => by cases same; exact marked⟩

theorem shows_run (shows : Shows m q) (fresh : Along step Fresh events m) :
    ∃ m', run step events m = .ok m' ∧
      Shows m' ((events.map seen).foldl (AnswerQueue.step 2) q) := by
  induction events generalizing m q with
  | nil => exact ⟨m, rfl, shows⟩
  | cons event events ih =>
    obtain ⟨m₁, stepped, shows₁⟩ := shows_step shows fresh.1
    obtain ⟨m', ran, shown⟩ := ih shows₁ (fresh.2 m₁ stepped)
    refine ⟨m', ?_, shown⟩
    rw [run_cons, stepped, ok_bind]
    exact ran

theorem along_iff (shows : Shows m q) (fresh : Along step Fresh events m) :
    Along step MarksAll events m ↔
      StepRuns.Along (AnswerQueue.step 2) Reaches (events.map seen) q := by
  induction events generalizing m q with
  | nil => exact Iff.rfl
  | cons event events ih =>
    obtain ⟨m₁, stepped, shows₁⟩ := shows_step shows fresh.1
    refine and_congr (marksAll_iff shows event) ?_
    rw [← ih shows₁ (fresh.2 m₁ stepped)]
    constructor
    · exact fun later => later m₁ stepped
    · intro later m' same
      rw [stepped] at same
      cases same
      exact later

/-- A run of the process from its start, with two ticks more. -/
theorem run_ticks (fresh : Along step Fresh events initial) :
    ∃ m, run step (events ++ [Event.timeout, Event.timeout]) initial = .ok m ∧
      m.fates = (AnswerQueue.run 2 (events.map seen ++ List.replicate 2 .tick)).fates := by
  have fresh' : Along step Fresh (events ++ [.timeout, .timeout]) initial :=
    fresh.append fun _ _ => ⟨trivial, fun _ _ => ⟨trivial, fun _ _ => trivial⟩⟩
  obtain ⟨m, ran, shows⟩ := shows_run shows_initial fresh'
  rw [List.map_append] at shows
  exact ⟨m, ran, shows.fates.symm⟩

end Runs

/-- After these events, no offer was sent that was answered while it was queued. -/
def SilentAfter (events : List Event) : Prop :=
  ∃ m, run step events initial = .ok m ∧ Silent (events.map seen) m.fates

/-- After these events, each offer was sent or dropped once, with its second tick at the
latest. -/
def EachOnceAfter (events : List Event) : Prop :=
  ∃ m, run step events initial = .ok m ∧ EachOnce 2 (events.map seen) m.fates

theorem silentAfter_ticks_iff {events : List Event} (fresh : Along step Fresh events initial) :
    SilentAfter (events ++ [.timeout, .timeout]) ↔
      Silent (events.map seen ++ List.replicate 2 .tick)
        (AnswerQueue.run 2 (events.map seen ++ List.replicate 2 .tick)).fates := by
  obtain ⟨m, ran, fates⟩ := run_ticks fresh
  rw [← fates]
  constructor
  · rintro ⟨m', ran', silent⟩
    cases ran.symm.trans ran'
    rw [List.map_append] at silent
    exact silent
  · intro silent
    refine ⟨m, ran, ?_⟩
    rw [List.map_append]
    exact silent

/-- For every interleaving: each offer is sent or dropped once, with its second tick at the
latest, and none is sent after an answer when each answer finds all but the first packet for its
address marked. Wherever one does not, two more ticks send an offer that was answered. -/
theorem offers_pinged_iff (events : List Event) (fresh : Along step Fresh events initial) :
    EachOnceAfter events ∧
      (Along step MarksAll events initial → SilentAfter events) ∧
      (Along step MarksAll events initial ↔
        ∀ front, front <+: events → SilentAfter (front ++ [.timeout, .timeout])) := by
  have positive : 0 < 2 := Nat.succ_pos 1
  have along := along_iff shows_initial fresh
  obtain ⟨m, ran, shows⟩ := shows_run shows_initial fresh
  refine ⟨⟨m, ran, ?_⟩, fun marks => ⟨m, ran, ?_⟩, ?_⟩
  · exact shows.fates ▸ (tracks_run positive (events.map seen)).eachOnce
  · exact shows.fates ▸ (quiet_run positive (along.mp marks)).silent
  · rw [along, reaches_iff positive]
    constructor
    · intro silent front isFront
      obtain ⟨back, rfl⟩ := isFront
      have isFront' : front.map seen <+: (front ++ back).map seen :=
        (List.prefix_append front back).map seen
      exact (silentAfter_ticks_iff fresh.front).mpr (silent _ isFront')
    · intro silent mapped isFront
      obtain ⟨front, isFront', rfl⟩ := List.prefix_map_iff.mp isFront
      obtain ⟨back, rfl⟩ := isFront'
      exact (silentAfter_ticks_iff fresh.front).mp (silent front (List.prefix_append front back))

/-- Offers for two addresses, one of which answers. -/
def pinged : List Event :=
  [.offer 0x0a000005 1, .offer 0x0a000006 2, .icmp ⟨0, pingId, pingSeq, 0x0a000005⟩, .timeout,
    .timeout]

theorem pinged_silent : EachOnceAfter pinged ∧ SilentAfter pinged := by
  have fresh : Along step Fresh pinged initial := by decide +kernel
  obtain ⟨once, silent, -⟩ := offers_pinged_iff pinged fresh
  refine ⟨once, silent ((along_iff shows_initial fresh).mpr ?_)⟩
  exact ⟨trivial, trivial, rfl, trivial, trivial, trivial⟩

/-- A client repeats its DISCOVER, and the address answers one ping. -/
def repeated : List Event :=
  [.offer 0x0a000005 1, .offer 0x0a000005 2, .icmp ⟨0, pingId, pingSeq, 0x0a000005⟩, .timeout,
    .timeout]

theorem repeated_sent : Along step Fresh repeated initial ∧ ¬ SilentAfter repeated := by
  refine ⟨by decide +kernel, ?_⟩
  rintro ⟨m, ran, silent⟩
  have fates : (run step repeated initial).map Memory.fates =
      .ok [⟨1, 0x0a000005, false, 3⟩, ⟨0, 0x0a000005, true, 4⟩] := rfl
  rw [ran] at fates
  have last : ⟨0, 0x0a000005, true, 4⟩ ∈ m.fates := by
    rw [Except.ok.inj fates]
    exact List.mem_cons_of_mem _ List.mem_cons_self
  exact silent _ last rfl (by decide)

end OfferQueue
