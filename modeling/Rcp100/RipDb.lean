import Mathlib.Logic.Function.Basic
import Mathlib.Data.List.Basic

/-!
# The RIP database

A hash table of 256 buckets. Several entries of one prefix coexist in a bucket:
equal-cost gateways, routes of other types, and routes that wait for their garbage
collection with metric 16. A pointer to an entry is its bucket and its position.

Kernel and redistribution calls are recorded as effects, in the order in which they
are made, and so is a failed assertion. The global flags that only start a triggered
update or a static update are left out.
-/

namespace RipDb

inductive RcpRouteType where
  | ripNetwork
  | connected
  | static
  | blackhole
  | rip
  | ospf
  | ospfIa
  | ospfE1
  | ospfE2
  | ospfBlackhole
  | connectedSubnets
  deriving DecidableEq, Repr

def RcpRouteType.code : RcpRouteType → Nat
  | .ripNetwork => 0
  | .connected => 1
  | .static => 2
  | .blackhole => 3
  | .rip => 4
  | .ospf => 5
  | .ospfIa => 6
  | .ospfE1 => 7
  | .ospfE2 => 8
  | .ospfBlackhole => 9
  | .connectedSubnets => 10

/-- `timeout` and `gc` are bytes; what is stored in them is reduced where it is
computed, and afterwards they only count down. -/
structure RipDbElem where
  ip : BitVec 32
  mask : BitVec 32
  gw : BitVec 32
  metric : Nat
  partner : BitVec 32
  interface : Nat
  type : RcpRouteType
  timeout : Nat
  gc : Nat
  updated : Bool
  deriving DecidableEq, Repr

/-- `rip_update_timer` within its configurable range. -/
structure UpdateTimer where
  seconds : Nat
  low : 5 ≤ seconds
  high : seconds ≤ 60

/-- The timer as it is configured by default. -/
def halfMinute : UpdateTimer := ⟨30, by decide, by decide⟩

/-- `RIP_ROUTE_TIMEOUT`, stored in a byte. -/
def UpdateTimer.routeTimeout (t : UpdateTimer) : Nat := t.seconds * 6 % 256

/-- `RIP_ROUTE_CLEANUP`, stored in a byte. -/
def UpdateTimer.routeCleanup (t : UpdateTimer) : Nat := t.seconds * 4 % 256

theorem UpdateTimer.routeTimeout_pos (t : UpdateTimer) : 0 < t.routeTimeout := by
  have low := t.low
  have high := t.high
  unfold routeTimeout
  omega

theorem UpdateTimer.routeCleanup_pos (t : UpdateTimer) : 0 < t.routeCleanup := by
  have low := t.low
  have high := t.high
  unfold routeCleanup
  omega

abbrev Db := BitVec 8 → List RipDbElem

def Db.initial : Db := fun _ => []

/-- Write through a pointer. -/
def Db.modify (db : Db) (i : BitVec 8) (n : Nat) (f : RipDbElem → RipDbElem) : Db :=
  Function.update db i ((db i).modify n f)

inductive Effect where
  | rcpAddRoute (ip mask gw : BitVec 32) (metric : Nat)
  | rcpDelRoute (ip mask gw : BitVec 32)
  | rcpAddEcmpRoute (ip mask : BitVec 32) (metric : Nat) (gw : List (BitVec 32))
  | rcpDelEcmpRoute (ip mask : BitVec 32) (gw : List (BitVec 32))
  | redistributeRoute (add : Bool) (ip mask gw : BitVec 32)
  | assertion
  deriving DecidableEq, Repr

def hash (ip : BitVec 32) : BitVec 8 :=
  (((ip &&& 0xff000000) >>> 24) ^^^ ((ip &&& 0xff0000) >>> 16) ^^^
    ((ip &&& 0xff00) >>> 8) ^^^ (ip &&& 0xff)).setWidth 8

def isExact (type : RcpRouteType) (ip mask gw partner : BitVec 32) (e : RipDbElem) : Bool :=
  e.type = type && e.ip = ip && e.mask = mask && e.gw = gw && e.partner = partner

/-- `find_exact`: the position in the bucket of the address. -/
def findExact (db : Db) (type : RcpRouteType) (ip mask gw partner : BitVec 32) : Option Nat :=
  (db (hash ip)).findIdx? (isExact type ip mask gw partner)

def isPrefix (ip mask : BitVec 32) (e : RipDbElem) : Bool := e.ip = ip && e.mask = mask

def find (db : Db) (ip mask : BitVec 32) : Option Nat :=
  (db (hash ip)).findIdx? (isPrefix ip mask)

/-- The test of the loops in `ecmp_del` and `ecmp_add`. -/
def isLive (ip mask : BitVec 32) (e : RipDbElem) : Bool :=
  e.ip = ip && e.mask = mask && decide (e.metric < 16) && e.type = .rip

/-- With several live routes, every entry of the bucket is redistributed. -/
def ecmpDel (db : Db) (ip mask : BitVec 32) : List Effect :=
  match (db (hash ip)).filter (isLive ip mask) with
  | [] => []
  | [found] =>
    [.rcpDelRoute found.ip found.mask found.gw,
      .redistributeRoute false found.ip found.mask found.gw]
  | first :: second :: others =>
    (db (hash ip)).map (fun e => .redistributeRoute false ip mask e.gw) ++
      [.rcpDelEcmpRoute ip mask ((first :: second :: others).map RipDbElem.gw)]

def ecmpAdd (db : Db) (ip mask : BitVec 32) : List Effect :=
  match (db (hash ip)).filter (isLive ip mask) with
  | [] => []
  | [found] =>
    [.rcpAddRoute found.ip found.mask found.gw found.metric,
      .redistributeRoute true found.ip found.mask found.gw]
  | first :: second :: others =>
    (db (hash ip)).map (fun e => .redistributeRoute true ip mask e.gw) ++
      [.rcpAddEcmpRoute ip mask ((second :: others).getLast (by simp)).metric
        ((first :: second :: others).map RipDbElem.gw)]

/-- Mark a route as deleted. -/
def markDeleted (e : RipDbElem) : RipDbElem := { e with metric := 16, timeout := 0 }

/-- Start the garbage collection unless it is running. -/
def startGc (t : UpdateTimer) (e : RipDbElem) : RipDbElem :=
  if e.gc = 0 then { e with gc := t.routeCleanup, updated := true } else e

def cleanRoute (t : UpdateTimer) (db : Db) (i : BitVec 8) (n : Nat) : Db × List Effect :=
  match (db i)[n]? with
  | none => (db, [])
  | some e =>
    let deleted := if e.type = .rip then ecmpDel db e.ip e.mask else []
    let marked := db.modify i n markDeleted
    let added := if e.type = .rip then ecmpAdd marked e.ip e.mask else []
    (marked.modify i n (startGc t), deleted ++ added)

/-- 1 if the type and metric are better, 0 if equal, -1 if worse. -/
def compareTypeMetric (type : RcpRouteType) (metric : Nat) (rt : RipDbElem) : Int :=
  if metric < rt.metric then 1
  else if metric = rt.metric then
    if type.code < rt.type.code then 1
    else if type = rt.type then 0
    else -1
  else -1

def isRipPrefix (ip mask : BitVec 32) (e : RipDbElem) : Bool :=
  e.type = .rip && e.ip = ip && e.mask = mask

def bestMetric (bucket : List RipDbElem) (ip mask : BitVec 32) : Nat :=
  bucket.foldl
    (fun best e => if isRipPrefix ip mask e && e.metric < best then e.metric else best) 16

def cleanMetric (t : UpdateTimer) (db : Db) (ip mask : BitVec 32) : Db :=
  let best := bestMetric (db (hash ip)) ip mask
  if best = 16 then db
  else Function.update db (hash ip) ((db (hash ip)).map (fun e =>
    if isRipPrefix ip mask e && best < e.metric then startGc t (markDeleted e) else e))

/-- The arguments of `ripdb_add`, with the metric that it asserts. -/
structure AddArgs where
  type : RcpRouteType
  ip : BitVec 32
  mask : BitVec 32
  gw : BitVec 32
  metric : Nat
  partner : BitVec 32
  interface : Nat
  metric_pos : metric ≠ 0
  metric_lt : metric < 16

def newElem (t : UpdateTimer) (a : AddArgs) : RipDbElem where
  ip := a.ip
  mask := a.mask
  gw := a.gw
  metric := a.metric
  partner := a.partner
  interface := a.interface
  type := a.type
  timeout := t.routeTimeout
  gc := 0
  updated := true

/-- The exact entry is there: its timers restart, and a change of the metric, of the
interface or of the garbage collection counts as an update. -/
def refreshExact (t : UpdateTimer) (db : Db) (a : AddArgs) (n : Nat) (e : RipDbElem) :
    Db × List Effect :=
  let update := e.metric ≠ a.metric || e.gc ≠ 0 || e.interface ≠ a.interface
  let restarted := db.modify (hash a.ip) n (fun e =>
    { e with timeout := t.routeTimeout, gc := 0, interface := a.interface })
  let measured := restarted.modify (hash a.ip) n (fun e => { e with metric := a.metric })
  if e.type = .rip ∧ update then
    let cleaned := cleanMetric t measured a.ip a.mask
    (cleaned.modify (hash a.ip) n (fun e => { e with updated := true }),
      ecmpDel restarted a.ip a.mask ++ ecmpAdd cleaned a.ip a.mask)
  else
    (measured.modify (hash a.ip) n (fun e => { e with updated := e.updated || update }), [])

/-- A better route takes over the entry found for the prefix. -/
def replaceFound (t : UpdateTimer) (db : Db) (a : AddArgs) (n : Nat) : Db × List Effect :=
  let replaced := db.modify (hash a.ip) n (fun e =>
    { newElem t a with ip := e.ip, mask := e.mask })
  let cleaned := cleanMetric t replaced a.ip a.mask
  (cleaned, ecmpDel db a.ip a.mask ++ ecmpAdd cleaned a.ip a.mask)

/-- A new entry at the head of the bucket. -/
def insertNew (t : UpdateTimer) (db : Db) (a : AddArgs) (ecmp : Bool) : Db × List Effect :=
  let inserted := Function.update db (hash a.ip) (newElem t a :: db (hash a.ip))
  let effects :=
    if a.type = .rip then
      if ecmp then ecmpDel db a.ip a.mask ++ ecmpAdd inserted a.ip a.mask
      else [.rcpAddRoute a.ip a.mask a.gw a.metric, .redistributeRoute true a.ip a.mask a.gw]
    else []
  (inserted, effects)

def ripdbAdd (t : UpdateTimer) (db : Db) (a : AddArgs) : Db × List Effect :=
  match findExact db a.type a.ip a.mask a.gw a.partner with
  | some n =>
    match (db (hash a.ip))[n]? with
    | some e => refreshExact t db a n e
    | none => (db, [])
  | none =>
    match find db a.ip a.mask with
    | none => insertNew t db a false
    | some n =>
      match (db (hash a.ip))[n]? with
      | none => (db, [])
      | some e =>
        let cmp := compareTypeMetric a.type a.metric e
        if cmp = -1 then (db, [])
        else if cmp = 1 then replaceFound t db a n
        else insertNew t db a true

def ripdbDelete (t : UpdateTimer) (db : Db) (type : RcpRouteType) (ip mask gw partner : BitVec 32) :
    Db × List Effect :=
  match findExact db type ip mask gw partner with
  | none => (db, [])
  | some n => cleanRoute t db (hash ip) n

def ripdbDeleteRip (t : UpdateTimer) (db : Db) (ip mask : BitVec 32) : Db × List Effect :=
  match find db ip mask with
  | none => (db, [])
  | some n =>
    match (db (hash ip))[n]? with
    | none => (db, [])
    | some e => if e.type ≠ .rip then (db, []) else cleanRoute t db (hash ip) n

/-- Run one operation after another and collect the effects. -/
def andThen (first : Db × List Effect) (next : Db → Db × List Effect) : Db × List Effect :=
  ((next first.1).1, first.2 ++ (next first.1).2)

/-- One visit of the loops that clean the routes with a certain property. -/
def cleanIf (t : UpdateTimer) (chosen : RipDbElem → Bool) (i : BitVec 8) (db : Db) (n : Nat) :
    Db × List Effect :=
  match (db i)[n]? with
  | none => (db, [])
  | some e => if chosen e then cleanRoute t db i n else (db, [])

/-- The positions of a bucket in list order; cleaning a route does not move it. -/
def cleanBucket (t : UpdateTimer) (chosen : RipDbElem → Bool) (db : Db) (i : BitVec 8) :
    Db × List Effect :=
  (List.range (db i).length).foldl (fun acc n => andThen acc (cleanIf t chosen i · n)) (db, [])

def buckets : List (BitVec 8) := (List.range 256).map (BitVec.ofNat 8)

def cleanAll (t : UpdateTimer) (chosen : RipDbElem → Bool) (db : Db) : Db × List Effect :=
  buckets.foldl (fun acc i => andThen acc (cleanBucket t chosen · i)) (db, [])

def ripdbDeleteInterface (t : UpdateTimer) (db : Db) (intf : Nat) : Db × List Effect :=
  cleanAll t (fun e => e.interface = intf) db

def ripdbDeleteType (t : UpdateTimer) (db : Db) (type : RcpRouteType) : Db × List Effect :=
  cleanAll t (fun e => e.type = type) db

def ripdbDeleteAll (t : UpdateTimer) (db : Db) : Db × List Effect :=
  cleanAll t (fun _ => true) db

/-- One visit of `list_timeout` at position `n`: what becomes of the database, and
the position at which the recursion goes on, unless it stops at the assertion. -/
def timeoutVisit (t : UpdateTimer) (i : BitVec 8) (db : Db) (n : Nat) (e : RipDbElem) :
    (Db × List Effect) × Option Nat :=
  if 0 < e.timeout then
    if e.type = .rip then
      let counted := db.modify i n (fun e => { e with timeout := e.timeout - 1 })
      if e.timeout - 1 = 0 then
        (cleanRoute t (counted.modify i n (fun e => { e with gc := 0 })) i n, some (n+1))
      else ((counted, []), some (n+1))
    else ((db, []), some (n+1))
  else if 0 < e.gc then
    if e.gc - 1 = 0 then ((Function.update db i ((db i).eraseIdx n), []), some n)
    else ((db.modify i n (fun e => { e with gc := e.gc - 1 }), []), some (n+1))
  else ((db, [.assertion]), none)

/-- Every visit moves on by one position or removes an entry, so a bucket is done
after as many visits as it has entries. -/
def listTimeout (t : UpdateTimer) (i : BitVec 8) : Nat → Nat → Db → Db × List Effect
  | 0, _, db => (db, [])
  | visits+1, n, db =>
    match (db i)[n]? with
    | none => (db, [])
    | some e =>
      match timeoutVisit t i db n e with
      | (result, none) => result
      | (result, some next) => andThen result (listTimeout t i visits next)

def ripdbTimeout (t : UpdateTimer) (db : Db) : Db × List Effect :=
  buckets.foldl (fun acc i => andThen acc (fun db => listTimeout t i (db i).length 0 db)) (db, [])

inductive Op where
  | ripdbAdd (a : AddArgs)
  | ripdbDelete (type : RcpRouteType) (ip mask gw partner : BitVec 32)
  | ripdbDeleteRip (ip mask : BitVec 32)
  | ripdbDeleteInterface (intf : Nat)
  | ripdbDeleteType (type : RcpRouteType)
  | ripdbDeleteAll
  | ripdbTimeout

/-- One operation under the timer that is configured when it runs. -/
def step (db : Db) : UpdateTimer × Op → Db × List Effect
  | (t, .ripdbAdd a) => ripdbAdd t db a
  | (t, .ripdbDelete type ip mask gw partner) => ripdbDelete t db type ip mask gw partner
  | (t, .ripdbDeleteRip ip mask) => ripdbDeleteRip t db ip mask
  | (t, .ripdbDeleteInterface intf) => ripdbDeleteInterface t db intf
  | (t, .ripdbDeleteType type) => ripdbDeleteType t db type
  | (t, .ripdbDeleteAll) => ripdbDeleteAll t db
  | (t, .ripdbTimeout) => ripdbTimeout t db

def run (db : Db) (ops : List (UpdateTimer × Op)) : Db × List Effect :=
  ops.foldl (fun acc op => andThen acc (step · op)) (db, [])

theorem run_cons (db : Db) (op : UpdateTimer × Op) (ops : List (UpdateTimer × Op)) :
    run db (op :: ops) = andThen (step db op) (run · ops) := by
  have onward : ∀ acc : Db × List Effect,
      ops.foldl (fun acc op => andThen acc (step · op)) acc = andThen acc (run · ops) := by
    induction ops with
    | nil => exact fun acc => Prod.ext rfl (List.append_nil acc.2).symm
    | cons op ops ih =>
      intro acc
      have rest : run acc.1 (op :: ops) = andThen (step acc.1 op) (run · ops) := ih _
      rw [List.foldl_cons, ih, andThen, andThen, andThen, rest]
      exact Prod.ext rfl (List.append_assoc ..)
  exact onward (step db op)

/-- All entries of the table, bucket by bucket. -/
def entries (db : Db) : List RipDbElem := buckets.flatMap db

/-- A relation between a database, the effects of an operation and the database it
leaves, which passes from single operations to sequences of them. -/
structure Composes (R : Db → List Effect → Db → Prop) : Prop where
  refl : ∀ db, R db [] db
  trans : ∀ {a b c effects effects'}, R a effects b → R b effects' c → R a (effects ++ effects') c

namespace Composes

variable {R : Db → List Effect → Db → Prop} (composes : Composes R)

include composes

theorem foldl {α : Type} {g : Db → α → Db × List Effect} {xs : List α}
    (one : ∀ x ∈ xs, ∀ db, R db (g db x).2 (g db x).1) (db : Db) :
    R db (xs.foldl (fun acc x => andThen acc (g · x)) (db, [])).2
      (xs.foldl (fun acc x => andThen acc (g · x)) (db, [])).1 := by
  have onward : ∀ acc : Db × List Effect, R db acc.2 acc.1 →
      R db (xs.foldl (fun acc x => andThen acc (g · x)) acc).2
        (xs.foldl (fun acc x => andThen acc (g · x)) acc).1 := by
    induction xs with
    | nil => exact fun _ related => related
    | cons x rest ih =>
      intro acc related
      have first := one x (List.mem_cons_self ..) acc.1
      exact ih (fun y later => one y (List.mem_cons_of_mem x later)) _
        (composes.trans related first)
  exact onward (db, []) (composes.refl db)

theorem cleanAll {t : UpdateTimer}
    (clean : ∀ db i n, R db (cleanRoute t db i n).2 (cleanRoute t db i n).1)
    (chosen : RipDbElem → Bool) (db : Db) :
    R db (cleanAll t chosen db).2 (cleanAll t chosen db).1 := by
  unfold RipDb.cleanAll
  refine composes.foldl ?_ db
  intro i _ db
  unfold cleanBucket
  refine composes.foldl ?_ db
  intro n _ db
  unfold cleanIf
  cases (db i)[n]? with
  | none => exact composes.refl db
  | some e =>
    by_cases hit : chosen e = true
    · simpa only [hit, if_true] using clean db i n
    · simpa only [if_neg hit] using composes.refl db

theorem listTimeout {t : UpdateTimer} {i : BitVec 8}
    (visit : ∀ db n e, (db i)[n]? = some e →
      R db (timeoutVisit t i db n e).1.2 (timeoutVisit t i db n e).1.1)
    (visits n : Nat) (db : Db) :
    R db (listTimeout t i visits n db).2 (listTimeout t i visits n db).1 := by
  induction visits generalizing n db with
  | zero => exact composes.refl db
  | succ visits ih =>
    unfold RipDb.listTimeout
    cases there : (db i)[n]? with
    | none => exact composes.refl db
    | some e =>
      have visited := visit db n e there
      dsimp only
      cases whole : timeoutVisit t i db n e with
      | mk result next =>
        rw [whole] at visited
        cases next with
        | none => exact visited
        | some next => exact composes.trans visited (ih next result.1)

theorem ripdbTimeout {t : UpdateTimer}
    (visit : ∀ i db n e, (db i)[n]? = some e →
      R db (timeoutVisit t i db n e).1.2 (timeoutVisit t i db n e).1.1) (db : Db) :
    R db (ripdbTimeout t db).2 (ripdbTimeout t db).1 := by
  unfold RipDb.ripdbTimeout
  refine composes.foldl ?_ db
  intro i _ db
  exact composes.listTimeout (visit i) (db i).length 0 db

/-- It is enough to know additions, single cleanings and visits of the timer. -/
theorem step {t : UpdateTimer} {op : Op} (db : Db)
    (add : ∀ a, op = .ripdbAdd a → R db (ripdbAdd t db a).2 (ripdbAdd t db a).1)
    (clean : ∀ t db i n, R db (cleanRoute t db i n).2 (cleanRoute t db i n).1)
    (visit : ∀ t i db n e, (db i)[n]? = some e →
      R db (timeoutVisit t i db n e).1.2 (timeoutVisit t i db n e).1.1) :
    R db (RipDb.step db (t, op)).2 (RipDb.step db (t, op)).1 := by
  cases op with
  | ripdbAdd a => exact add a rfl
  | ripdbDelete type ip mask gw partner =>
    cases found : findExact db type ip mask gw partner with
    | none => simpa only [RipDb.step, ripdbDelete, found] using composes.refl db
    | some n => simpa only [RipDb.step, ripdbDelete, found] using clean t db _ n
  | ripdbDeleteRip ip mask =>
    cases found : find db ip mask with
    | none => simpa only [RipDb.step, ripdbDeleteRip, found] using composes.refl db
    | some n =>
      cases there : (db (hash ip))[n]? with
      | none => simpa only [RipDb.step, ripdbDeleteRip, found, there] using composes.refl db
      | some e =>
        by_cases other : e.type ≠ .rip
        · simpa only [RipDb.step, ripdbDeleteRip, found, there, if_pos other] using composes.refl db
        · simpa only [RipDb.step, ripdbDeleteRip, found, there, if_neg other] using clean t db _ n
  | ripdbDeleteInterface intf =>
    have cleaned := composes.cleanAll (clean t) (fun e => e.interface = intf) db
    simpa only [RipDb.step, ripdbDeleteInterface] using cleaned
  | ripdbDeleteType type =>
    have cleaned := composes.cleanAll (clean t) (fun e => e.type = type) db
    simpa only [RipDb.step, ripdbDeleteType] using cleaned
  | ripdbDeleteAll =>
    have cleaned := composes.cleanAll (clean t) (fun _ => true) db
    simpa only [RipDb.step, ripdbDeleteAll] using cleaned
  | ripdbTimeout =>
    have ticked := composes.ripdbTimeout (visit t) db
    simpa only [RipDb.step] using ticked

theorem run (allowed : AddArgs → Prop)
    (add : ∀ t db a, allowed a → R db (ripdbAdd t db a).2 (ripdbAdd t db a).1)
    (clean : ∀ t db i n, R db (cleanRoute t db i n).2 (cleanRoute t db i n).1)
    (visit : ∀ t i db n e, (db i)[n]? = some e →
      R db (timeoutVisit t i db n e).1.2 (timeoutVisit t i db n e).1.1)
    {ops : List (UpdateTimer × Op)} (adds : ∀ t a, (t, .ripdbAdd a) ∈ ops → allowed a)
    (db : Db) : R db (run db ops).2 (run db ops).1 := by
  refine composes.foldl ?_ db
  rintro ⟨t, op⟩ member db
  refine composes.step db ?_ clean visit
  rintro a rfl
  exact add t db a (adds t a member)

end Composes

end RipDb
