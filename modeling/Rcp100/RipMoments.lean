import Rcp100.RipInvariant

/-!
# The moments of the RIP database's calls

An operation makes its kernel and redistribution calls between its writes: the old
routes of a prefix are withdrawn before a write, and the new ones are announced after
it. Here each effect stands beside the database in which it is made.
-/

namespace RipMoments

open RipDb RipInvariant

/-- An effect, and the database as it is when the effect is made. -/
abbrev Moment := Db × Effect

def made (db : Db) (effects : List Effect) : List Moment := effects.map (Prod.mk db)

@[simp] theorem made_snd (db : Db) (effects : List Effect) :
    (made db effects).map Prod.snd = effects := by
  rw [made, List.map_map]
  exact List.map_id effects

theorem mem_made {db : Db} {effects : List Effect} {m : Moment} :
    m ∈ made db effects ↔ m.1 = db ∧ m.2 ∈ effects := by
  simp only [made, List.mem_map]
  constructor
  · rintro ⟨effect, member, rfl⟩
    exact ⟨rfl, member⟩
  · rintro ⟨rfl, member⟩
    exact ⟨m.2, member, rfl⟩

/-- The routes of a prefix are withdrawn in one database and announced in another. -/
def replaced (before after : Db) (ip mask : BitVec 32) : List Moment :=
  made before (ecmpDel before ip mask) ++ made after (ecmpAdd after ip mask)

@[simp] theorem replaced_snd (before after : Db) (ip mask : BitVec 32) :
    (replaced before after ip mask).map Prod.snd =
      ecmpDel before ip mask ++ ecmpAdd after ip mask := by
  rw [replaced, List.map_append, made_snd, made_snd]

def cleanRouteMoments (db : Db) (i : BitVec 8) (n : Nat) : List Moment :=
  match (db i)[n]? with
  | none => []
  | some e =>
    if e.type = .rip then replaced db (db.modify i n markDeleted) e.ip e.mask else []

/-- The table of `ripdb_add` while it withdraws the routes of an exact entry: the timer
of the entry has restarted, and its metric is the old one. -/
def restartedDb (t : UpdateTimer) (db : Db) (a : AddArgs) (n : Nat) : Db :=
  db.modify (RipDb.hash a.ip) n (fun e =>
    { e with timeout := t.routeTimeout, gc := 0, interface := a.interface })

def refreshMoments (t : UpdateTimer) (db : Db) (a : AddArgs) (n : Nat) (e : RipDbElem) :
    List Moment :=
  let update := e.metric ≠ a.metric || e.gc ≠ 0 || e.interface ≠ a.interface
  if e.type = .rip ∧ update then
    replaced (restartedDb t db a n)
      (cleanMetric t (db.modify (RipDb.hash a.ip) n (restart t a)) a.ip a.mask) a.ip a.mask
  else []

/-- The table in which a better route has taken over the entry at a place. -/
def takenDb (t : UpdateTimer) (db : Db) (a : AddArgs) (n : Nat) : Db :=
  db.modify (RipDb.hash a.ip) n (fun e => { newElem t a with ip := e.ip, mask := e.mask })

def replaceMoments (t : UpdateTimer) (db : Db) (a : AddArgs) (n : Nat) : List Moment :=
  replaced db (cleanMetric t (takenDb t db a n) a.ip a.mask) a.ip a.mask

def insertMoments (t : UpdateTimer) (db : Db) (a : AddArgs) (ecmp : Bool) : List Moment :=
  let inserted := Function.update db (RipDb.hash a.ip) (newElem t a :: db (RipDb.hash a.ip))
  if a.type = .rip then
    if ecmp then replaced db inserted a.ip a.mask
    else made inserted
      [.rcpAddRoute a.ip a.mask a.gw a.metric, .redistributeRoute true a.ip a.mask a.gw]
  else []

def ripdbAddMoments (t : UpdateTimer) (db : Db) (a : AddArgs) : List Moment :=
  match ripdbAddBranch db a with
  | .exact n e => refreshMoments t db a n e
  | .better n _ => replaceMoments t db a n
  | .joined => insertMoments t db a true
  | .first => insertMoments t db a false
  | .refused => []

/-- The expiring entry is cleaned after its counters were written. -/
def timeoutMoments (i : BitVec 8) (db : Db) (n : Nat) (e : RipDbElem) : List Moment :=
  if 0 < e.timeout then
    if e.type = .rip ∧ e.timeout - 1 = 0 then
      cleanRouteMoments ((db.modify i n (fun e => { e with timeout := e.timeout - 1 })).modify i n
        (fun e => { e with gc := 0 })) i n
    else []
  else if 0 < e.gc then []
  else made db [.assertion]

theorem cleanRouteMoments_snd (t : UpdateTimer) (db : Db) (i : BitVec 8) (n : Nat) :
    (cleanRouteMoments db i n).map Prod.snd = (cleanRoute t db i n).2 := by
  unfold cleanRouteMoments cleanRoute
  cases (db i)[n]? with
  | none => rfl
  | some e =>
    by_cases rip : e.type = .rip
    · simp only [rip, if_true, replaced_snd]
    · simp only [rip, if_false, List.map_nil, List.append_nil]

theorem refreshMoments_snd (t : UpdateTimer) (db : Db) (a : AddArgs) (n : Nat) (e : RipDbElem) :
    (refreshMoments t db a n e).map Prod.snd = (refreshExact t db a n e).2 := by
  unfold refreshMoments refreshExact
  dsimp only
  rw [modify_modify]
  split
  · exact replaced_snd _ _ a.ip a.mask
  · rfl

theorem insertMoments_snd (t : UpdateTimer) (db : Db) (a : AddArgs) (ecmp : Bool) :
    (insertMoments t db a ecmp).map Prod.snd = (insertNew t db a ecmp).2 := by
  unfold insertMoments insertNew
  dsimp only
  split
  · split
    · exact replaced_snd db _ a.ip a.mask
    · exact made_snd _ _
  · rfl

theorem ripdbAddMoments_snd (t : UpdateTimer) (db : Db) (a : AddArgs) :
    (ripdbAddMoments t db a).map Prod.snd = (ripdbAdd t db a).2 := by
  rw [ripdbAdd_branch, ripdbAddMoments]
  cases ripdbAddBranch db a with
  | exact n e => exact refreshMoments_snd t db a n e
  | better n e => exact replaced_snd db _ a.ip a.mask
  | joined => exact insertMoments_snd t db a true
  | first => exact insertMoments_snd t db a false
  | refused => rfl

theorem timeoutMoments_snd (t : UpdateTimer) (i : BitVec 8) (db : Db) (n : Nat) (e : RipDbElem) :
    (timeoutMoments i db n e).map Prod.snd = (timeoutVisit t i db n e).1.2 := by
  unfold timeoutMoments timeoutVisit
  by_cases running : 0 < e.timeout
  · rw [if_pos running, if_pos running]
    by_cases rip : e.type = .rip
    · rw [if_pos rip]
      dsimp only
      by_cases expires : e.timeout - 1 = 0
      · rw [if_pos ⟨rip, expires⟩, if_pos expires]
        exact cleanRouteMoments_snd t _ i n
      · rw [if_neg (fun both => expires both.2), if_neg expires]
        rfl
    · rw [if_neg rip, if_neg (fun both => rip both.1)]
      rfl
  · rw [if_neg running, if_neg running]
    split
    · split
      · rfl
      · rfl
    · rfl

end RipMoments
