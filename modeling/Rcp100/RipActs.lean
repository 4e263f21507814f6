import Rcp100.RipResponse
import Rcp100.RipMoments

/-!
# Operations of the RIP database, act by act

The operations that walk the table clean one route after another, each in the table that
the one before has left. An operation is taken apart here into additions, cleanings and
visits of the timer, so that a condition can be put on each of them where it happens.
-/

namespace RipActs

open RipDb RipInvariant RipMoments RipResponse

/-- The loop answers with the RIP entries among the first ones of the table. -/
def ripdbRouteRequest (db : Db) : List Effect :=
  (((entries db).take ripMaxRoutes).filter (fun e => e.type = .rip)).map
    (fun e => .redistributeRoute true e.ip e.mask e.gw)

inductive Act where
  | ripdbAdd (t : UpdateTimer) (a : AddArgs)
  | cleanRoute (t : UpdateTimer) (i : BitVec 8) (n : Nat)
  | timeoutVisit (t : UpdateTimer) (i : BitVec 8) (n : Nat)
  | ripdbRouteRequest

def perform (db : Db) : Act → Db × List Effect
  | .ripdbAdd t a => RipDb.ripdbAdd t db a
  | .cleanRoute t i n => RipDb.cleanRoute t db i n
  | .timeoutVisit t i n =>
    match (db i)[n]? with
    | none => (db, [])
    | some e => (RipDb.timeoutVisit t i db n e).1
  | .ripdbRouteRequest => (db, ripdbRouteRequest db)

def moments (db : Db) : Act → List Moment
  | .ripdbAdd t a => ripdbAddMoments t db a
  | .cleanRoute _ i n => cleanRouteMoments db i n
  | .timeoutVisit _ i n =>
    match (db i)[n]? with
    | none => []
    | some e => timeoutMoments i db n e
  | .ripdbRouteRequest => made db (ripdbRouteRequest db)

theorem sound_perform {db : Db} (sound : Sound db) (act : Act) :
    Sound (perform db act).1 := by
  cases act with
  | ripdbAdd t a => exact sound.ripdbAdd t a
  | cleanRoute t i n => exact sound.cleanRoute t i n
  | timeoutVisit t i n =>
    cases there : (db i)[n]? with
    | none => simpa only [perform, there] using sound
    | some e => simpa only [perform, there] using sound.timeoutVisit t there
  | ripdbRouteRequest => exact sound

def performAll (acts : List Act) (db : Db) : Db × List Effect :=
  acts.foldl (fun acc act => andThen acc (perform · act)) (db, [])

/-- The acts of a loop: each pass begins in the table that the earlier ones have left. -/
def loopActs {α : Type} (acts : Db → α → List Act) : List α → Db → List Act
  | [], _ => []
  | x :: xs, db => acts db x ++ loopActs acts xs (performAll (acts db x) db).1

def cleanIfActs (t : UpdateTimer) (chosen : RipDbElem → Bool) (i : BitVec 8) (db : Db) (n : Nat) :
    List Act :=
  match (db i)[n]? with
  | none => []
  | some e => if chosen e then [.cleanRoute t i n] else []

def cleanBucketActs (t : UpdateTimer) (chosen : RipDbElem → Bool) (db : Db) (i : BitVec 8) :
    List Act :=
  loopActs (cleanIfActs t chosen i) (List.range (db i).length) db

def cleanAllActs (t : UpdateTimer) (chosen : RipDbElem → Bool) (db : Db) : List Act :=
  loopActs (cleanBucketActs t chosen) buckets db

def listTimeoutActs (t : UpdateTimer) (i : BitVec 8) : Nat → Nat → Db → List Act
  | 0, _, _ => []
  | visits+1, n, db =>
    match (db i)[n]? with
    | none => []
    | some e =>
      .timeoutVisit t i n :: match timeoutVisit t i db n e with
        | (_, none) => []
        | (result, some next) => listTimeoutActs t i visits next result.1

def ripdbTimeoutActs (t : UpdateTimer) (db : Db) : List Act :=
  loopActs (fun db i => listTimeoutActs t i (db i).length 0 db) buckets db

/-- The acts of an operation on a database. -/
def opActs (db : Db) : UpdateTimer × Op → List Act
  | (t, .ripdbAdd a) => [.ripdbAdd t a]
  | (t, .ripdbDelete type ip mask gw partner) =>
    match findExact db type ip mask gw partner with
    | none => []
    | some n => [.cleanRoute t (RipDb.hash ip) n]
  | (t, .ripdbDeleteRip ip mask) =>
    match find db ip mask with
    | none => []
    | some n => cleanIfActs t (fun e => e.type = .rip) (RipDb.hash ip) db n
  | (t, .ripdbDeleteInterface intf) => cleanAllActs t (fun e => e.interface = intf) db
  | (t, .ripdbDeleteType type) => cleanAllActs t (fun e => e.type = type) db
  | (t, .ripdbDeleteAll) => cleanAllActs t (fun _ => true) db
  | (t, .ripdbTimeout) => ripdbTimeoutActs t db

end RipActs
