import Rcp100.DhcpServer

/-!
# The lease file over a restart

The file is a log: a lease is written to its end whenever it is requested or released, and
now and then all leases are written to a new file. When the process starts it reads the
records one after the other, skips those that have expired, and adds a lease for each of
the others in place of the one that has its address.
-/

namespace LeaseFile

open ChainTable LeaseTables FaultRuns DhcpServer
open Function (update update_of_ne)

/-- Takes the lease of an address out of the database; its block is not freed. -/
def deleteIp (m : Mem) (ip : Ip) : Except Fault Mem := do
  match ← leaseFindIp m ip with
  | some p => leaseDelete m p
  | none => return m

/-- The body of the loop of `lease_init`. The address of the new lease is printed, which
reads it through a NULL pointer where `lease_add` returned one. -/
def readRecord (now : Nat) (m : Mem) (entry : LeaseStore × Option Ptr) : Except Fault Mem := do
  let (ls, block) := entry
  if ls.tstamp ≤ now then return m
  let m ← deleteIp m ls.ip
  let (m, lease) ← leaseAdd m ls.mac ls.ip ls.tstamp now block
  match lease with
  | none => .error .freed
  | some p =>
    return { m with
      mask := update m.mask p ls.mask
      lease := update m.lease p ls.lease }

/-- Every record of the file comes with what `malloc` returns for it. -/
def leaseInit (entries : List (LeaseStore × Option Ptr)) (now : Nat) : Except Fault Mem := do
  let m ← entries.foldlM (readRecord now) (initial (entries.map (·.1)))
  leaseFileUpdate m

/-- The record of the address that was written last. -/
def lastRecord (log : List LeaseStore) (ip : Ip) : Option LeaseStore :=
  (log.filter (fun r => r.ip = ip)).getLast?

section Records

variable {log : List LeaseStore} {r : LeaseStore} {ip : Ip}

theorem lastRecord_append (log log' : List LeaseStore) (ip : Ip) :
    lastRecord (log ++ log') ip = (lastRecord log' ip).or (lastRecord log ip) := by
  rw [lastRecord, List.filter_append, List.getLast?_append]
  rfl

theorem lastRecord_snoc (log : List LeaseStore) (r : LeaseStore) (ip : Ip) :
    lastRecord (log ++ [r]) ip = if r.ip = ip then some r else lastRecord log ip := by
  rw [lastRecord_append, lastRecord, List.filter_singleton]
  by_cases here : r.ip = ip
  · simp [here]
  · simp [here]

theorem mem_of_lastRecord (last : lastRecord log ip = some r) : r ∈ log ∧ r.ip = ip := by
  have inside := List.mem_of_mem_getLast? (Option.mem_def.mpr last)
  rw [List.mem_filter, decide_eq_true_eq] at inside
  exact inside

theorem lastRecord_eq_none : lastRecord log ip = none ↔ ∀ r ∈ log, r.ip ≠ ip := by
  rw [lastRecord, List.getLast?_eq_none_iff, List.filter_eq_nil_iff]
  simp only [decide_eq_true_eq, ne_eq]

/-- The records that have not expired. -/
def unexpired (now : Nat) (log : List LeaseStore) : List LeaseStore :=
  log.filter (fun r => now < r.tstamp)

theorem unexpired_snoc (now : Nat) (log : List LeaseStore) (r : LeaseStore) :
    unexpired now (log ++ [r]) =
      if now < r.tstamp then unexpired now log ++ [r] else unexpired now log := by
  rw [unexpired, List.filter_append, List.filter_singleton]
  by_cases fresh : now < r.tstamp
  · simp [fresh, unexpired]
  · simp [fresh, unexpired]

theorem lastRecord_unexpired {now : Nat} (last : lastRecord log ip = some r)
    (fresh : now < r.tstamp) : lastRecord (unexpired now log) ip = some r := by
  induction log using List.reverseRecOn with
  | nil => cases last
  | append_singleton log a ih =>
    rw [lastRecord_snoc] at last
    rw [unexpired_snoc]
    by_cases here : a.ip = ip
    · rw [if_pos here] at last
      cases last
      rw [if_pos fresh, lastRecord_snoc, if_pos here]
    · rw [if_neg here] at last
      by_cases counts : now < a.tstamp
      · rw [if_pos counts, lastRecord_snoc, if_neg here]
        exact ih last
      · rw [if_neg counts]
        exact ih last

end Records

/-- The record is of a client whose lease of another address was read last. -/
def Conflict (log : List LeaseStore) (r : LeaseStore) : Prop :=
  ∃ ip, ip ≠ r.ip ∧ ∃ other, lastRecord log ip = some other ∧ other.mac = r.mac

/-- A record that can be read after these. -/
def Clear (now : Nat) (before : List LeaseStore) (entry : LeaseStore × Option Ptr) : Prop :=
  now < entry.1.tstamp → entry.2 ≠ none ∧ ¬ Conflict (unexpired now before) entry.1

def ReadableAfter (now : Nat) (done : List LeaseStore)
    (entries : List (LeaseStore × Option Ptr)) : Prop :=
  ∀ before entry after, entries = before ++ entry :: after →
    Clear now (done ++ before.map (·.1)) entry

/-- No record that has not expired is of a client whose lease of another address was read
before it and not replaced since, and `malloc` returns a block for it. -/
def Readable (now : Nat) (entries : List (LeaseStore × Option Ptr)) : Prop :=
  ReadableAfter now [] entries

theorem readable_of_same {now : Nat} {entries : List (LeaseStore × Option Ptr)}
    (blocks : ∀ entry ∈ entries, entry.2 ≠ none)
    (same : ∀ a ∈ entries, ∀ b ∈ entries, a.1.mac = b.1.mac → a.1.ip = b.1.ip) :
    Readable now entries := by
  rintro before entry after rfl _
  refine ⟨blocks entry (by simp), ?_⟩
  rintro ⟨ip, differs, record, last, client⟩
  obtain ⟨inside, here⟩ := mem_of_lastRecord last
  obtain ⟨old, inBefore, rfl⟩ := List.mem_map.mp (List.mem_filter.mp inside).1
  exact differs (here.symm.trans (same old (by simp [inBefore]) entry (by simp) client))

theorem readableAfter_cons {now : Nat} {done : List LeaseStore}
    {entry : LeaseStore × Option Ptr} {rest : List (LeaseStore × Option Ptr)} :
    ReadableAfter now done (entry :: rest) ↔
      Clear now done entry ∧ ReadableAfter now (done ++ [entry.1]) rest := by
  constructor
  · intro readable
    refine ⟨by simpa using readable [] entry rest rfl, fun before next after split => ?_⟩
    have clear := readable (entry :: before) next after (by rw [split]; rfl)
    rw [List.append_assoc]
    exact clear
  · rintro ⟨clear, readable⟩ before next after split
    rcases List.cons_eq_append_iff.mp split with ⟨rfl, same⟩ | ⟨before', rfl, same⟩
    · cases same
      simpa using clear
    · have clear' := readable before' next after same
      rw [List.append_assoc] at clear'
      exact clear'

/-- `malloc` returns no block twice. -/
def FreshBlocks (entries : List (LeaseStore × Option Ptr)) : Prop :=
  (entries.filterMap (·.2)).Nodup

instance (entries : List (LeaseStore × Option Ptr)) : Decidable (FreshBlocks entries) :=
  inferInstanceAs (Decidable (entries.filterMap (·.2)).Nodup)

/-- The leases are those of the records that were read. -/
structure Loaded (m : Mem) (leases : List Ptr) (log : List LeaseStore) : Prop where
  holds : Holds m leases
  each : ∀ p ∈ leases, lastRecord log (m.ip p) = some (store m p)
  all : ∀ ip r, lastRecord log ip = some r → ∃ p ∈ leases, m.ip p = ip

section Reading

variable {m : Mem} {leases : List Ptr}

theorem Holds.members {leases' : List Ptr} (holds : Holds m leases)
    (same : ∀ p, p ∈ leases' ↔ p ∈ leases) : Holds m leases' := by
  obtain ⟨byMac, byIp, byTstamp, chained⟩ := holds
  exact ⟨byMac, byIp, byTstamp, chained.congr same chained.used rfl rfl rfl
    (fun _ _ => rfl) (fun _ _ => rfl) (fun _ _ => rfl)⟩

theorem deleteIp_spec (holds : Holds m leases) (ip : Ip) :
    ∃ m', deleteIp m ip = .ok m' ∧ Same m m' ∧ m'.live = m.live ∧
      Holds m' (leases.filter (fun p => m.ip p ≠ ip)) := by
  obtain ⟨r, searched, isLease⟩ := holds.findIp ip
  rw [deleteIp, searched, ok_bind]
  cases r with
  | none =>
    refine ⟨m, rfl, .refl m, rfl, Holds.members holds fun p => ?_⟩
    rw [List.mem_filter, decide_eq_true_eq]
    refine ⟨fun inside => inside.1, fun member => ⟨member, fun same => ?_⟩⟩
    cases (isLease p).mpr ⟨member, same⟩
  | some p =>
    obtain ⟨member, here⟩ := (isLease p).mp rfl
    obtain ⟨byMac, byIp, byTstamp, chained⟩ := holds
    obtain ⟨a, b, c, deleted, chained'⟩ := chained.delete member
    refine ⟨_, deleted, ⟨rfl, rfl, rfl, rfl, rfl, rfl, rfl, rfl⟩, rfl, ?_⟩
    refine Holds.members ⟨_, _, _, chained'⟩ fun q => ?_
    rw [List.mem_filter, List.mem_filter, decide_eq_true_eq, decide_eq_true_eq]
    refine and_congr_right fun inside => not_congr ⟨fun same => ?_, fun same => ?_⟩
    · exact chained.ipUnique q inside p member (same.trans here.symm)
    · rw [same, here]

end Reading

section Loading

variable {m : Mem} {leases : List Ptr} {log : List LeaseStore} {now : Nat}

theorem Loaded.conflict (loaded : Loaded m leases log) (r : LeaseStore) :
    Conflict log r ↔ ∃ q ∈ leases, m.ip q ≠ r.ip ∧ m.mac q = r.mac := by
  constructor
  · rintro ⟨ip, apart, other, last, same⟩
    obtain ⟨q, member, here⟩ := loaded.all ip other last
    have stored := loaded.each q member
    rw [here, last] at stored
    refine ⟨q, member, by rw [here]; exact apart, ?_⟩
    rw [← same, Option.some.inj stored]
    rfl
  · rintro ⟨q, member, apart, same⟩
    exact ⟨m.ip q, apart, store m q, loaded.each q member, same⟩

/-- The memory when the lease of a record has been added. -/
def restored (m : Mem) (p : Ptr) (r : LeaseStore) : Mem :=
  { addedLease m p r.mac r.ip r.tstamp with
    mask := update (addedLease m p r.mac r.ip r.tstamp).mask p r.mask
    lease := update (addedLease m p r.mac r.ip r.tstamp).lease p r.lease }

theorem store_restored (m : Mem) (p : Ptr) (r : LeaseStore) : store (restored m p r) p = r := by
  simp [store, restored, addedLease, newLease]

theorem store_restored_of_ne (m : Mem) {p q : Ptr} (r : LeaseStore) (apart : q ≠ p) :
    store (restored m p r) q = store m q := by
  simp [store, restored, addedLease, newLease, update_of_ne apart]

theorem Loaded.restored {log : List LeaseStore} {m' : Mem} {p : Ptr} {r : LeaseStore}
    (loaded : Loaded m leases log) (same : Same m m')
    (holds : Holds m' (leases.filter (fun p => m.ip p ≠ r.ip))) (unused : p ∉ m'.live)
    (others : ∀ q ∈ leases.filter (fun p => m.ip p ≠ r.ip),
      m'.mac q ≠ r.mac ∧ m'.ip q ≠ r.ip) :
    Loaded (LeaseFile.restored m' p r) (p :: leases.filter (fun p => m.ip p ≠ r.ip))
      (log ++ [r]) := by
  have apart : ∀ q ∈ leases.filter (fun p => m.ip p ≠ r.ip), q ≠ p := by
    rintro q member rfl
    obtain ⟨_, _, _, chained⟩ := holds
    exact unused (chained.used q member)
  have storedOld : ∀ q, store m' q = store m q := by
    intro q
    rw [store, store, same.ip, same.mask, same.mac, same.tstamp, same.lease]
  refine ⟨?_, ?_, ?_⟩
  · exact (holds.added unused (fun q member => (others q member).1)
      (fun q member => (others q member).2)).congr rfl rfl rfl rfl rfl rfl rfl
  · intro q member
    have ipOf : (LeaseFile.restored m' p r).ip q = (store (LeaseFile.restored m' p r) q).ip := rfl
    rw [lastRecord_snoc, ipOf]
    rcases List.mem_cons.mp member with rfl | old
    · rw [store_restored, if_pos rfl]
    · have inside := (List.mem_filter.mp old).1
      have differs := (List.mem_filter.mp old).2
      rw [decide_eq_true_eq] at differs
      have otherIp : r.ip ≠ (store m q).ip := Ne.symm differs
      rw [store_restored_of_ne m' r (apart q old), storedOld, if_neg otherIp]
      exact loaded.each q inside
  · intro ip last found
    rw [lastRecord_snoc] at found
    by_cases here : r.ip = ip
    · refine ⟨p, List.mem_cons_self, ?_⟩
      rw [← here]
      exact congrArg LeaseStore.ip (store_restored m' p r)
    · rw [if_neg here] at found
      obtain ⟨q, member, ipQ⟩ := loaded.all ip last found
      have old : q ∈ leases.filter (fun p => m.ip p ≠ r.ip) := by
        rw [List.mem_filter, decide_eq_true_eq, ipQ]
        exact ⟨member, Ne.symm here⟩
      refine ⟨q, List.mem_cons_of_mem _ old, ?_⟩
      have kept := congrArg LeaseStore.ip (store_restored_of_ne m' r (apart q old))
      rw [storedOld] at kept
      exact kept.trans ipQ

theorem readRecord_spec (loaded : Loaded m leases (unexpired now log)) (r : LeaseStore)
    {block : Option Ptr} (fresh : ∀ p ∈ block, p ∉ m.live) :
    (Clear now log (r, block) ∧ ∃ m' leases', readRecord now m (r, block) = .ok m' ∧
      Loaded m' leases' (unexpired now (log ++ [r])) ∧
      ∀ p ∈ m'.live, p ∈ m.live ∨ block = some p) ∨
    ¬ Clear now log (r, block) ∧ readRecord now m (r, block) = .error .freed := by
  rw [unexpired_snoc, readRecord]
  by_cases expired : r.tstamp ≤ now
  · refine .inl ⟨fun late => absurd expired (Nat.not_le.mpr late), m, leases, ?_, ?_, ?_⟩
    · rw [if_pos expired]
      rfl
    · rw [if_neg (Nat.not_lt.mpr expired)]
      exact loaded
    · exact fun p used => .inl used
  have late := Nat.not_le.mp expired
  obtain ⟨m', deleted, same, live, holds⟩ := deleteIp_spec loaded.holds r.ip
  rw [if_neg expired, if_pos late, deleted, ok_bind]
  rcases leaseAdd_spec holds r.mac r.ip r.tstamp now block with
    ⟨why, refused⟩ | ⟨others, -, p, rfl, added⟩
  · right
    rw [refused]
    refine ⟨fun clear => ?_, rfl⟩
    obtain ⟨some, free⟩ := clear late
    rcases why with ⟨q, member, taken⟩ | early | empty
    · rw [List.mem_filter, decide_eq_true_eq] at member
      rw [same.mac, same.ip] at taken
      rcases taken with sameMac | sameIp
      · exact free ((loaded.conflict r).mpr ⟨q, member.1, member.2, sameMac⟩)
      · exact member.2 sameIp
    · omega
    · exact some empty
  · left
    rw [added, ok_bind]
    have unused : p ∉ m'.live := by
      rw [live]
      exact fresh p rfl
    refine ⟨fun _ => ⟨by simp, fun conflict => ?_⟩, restored m' p r,
      p :: leases.filter (fun p => m.ip p ≠ r.ip), rfl,
      loaded.restored same holds unused others, ?_⟩
    · obtain ⟨q, member, differs, sameMac⟩ := (loaded.conflict r).mp conflict
      refine (others q ?_).1 ?_
      · rw [List.mem_filter, decide_eq_true_eq]
        exact ⟨member, differs⟩
      · rw [same.mac]
        exact sameMac
    · intro q used
      rcases List.mem_cons.mp used with rfl | old
      · exact .inr rfl
      · rw [live] at old
        exact .inl old

theorem readRecords_spec (loaded : Loaded m leases (unexpired now log))
    (entries : List (LeaseStore × Option Ptr)) (fresh : FreshBlocks entries)
    (unused : ∀ p ∈ m.live, p ∉ entries.filterMap (·.2)) :
    (ReadableAfter now log entries ∧ ∃ m' leases', entries.foldlM (readRecord now) m = .ok m' ∧
      Loaded m' leases' (unexpired now (log ++ entries.map (·.1)))) ∨
    ¬ ReadableAfter now log entries ∧ entries.foldlM (readRecord now) m = .error .freed := by
  induction entries generalizing m leases log with
  | nil =>
    refine .inl ⟨fun before entry after split => ?_, m, leases, rfl, ?_⟩
    · simp at split
    · simpa using loaded
  | cons entry rest ih =>
    obtain ⟨r, block⟩ := entry
    have freshBlock : ∀ p ∈ block, p ∉ m.live := by
      rintro p isBlock used
      rw [Option.mem_def] at isBlock
      subst isBlock
      exact unused p used (by simp)
    rw [List.foldlM_cons, readableAfter_cons]
    rcases readRecord_spec loaded r freshBlock with
      ⟨clear, m', leases', read, loaded', live⟩ | ⟨stuck, failed⟩
    · have freshRest : FreshBlocks rest := by
        rw [FreshBlocks, List.filterMap_cons] at fresh
        cases block with
        | none => exact fresh
        | some p => exact (List.nodup_cons.mp fresh).2
      have unusedRest : ∀ p ∈ m'.live, p ∉ rest.filterMap (·.2) := by
        intro p used inside
        rcases live p used with old | isBlock
        · refine unused p old ?_
          rw [List.filterMap_cons]
          cases block with
          | none => exact inside
          | some q => exact List.mem_cons_of_mem q inside
        · subst isBlock
          rw [FreshBlocks, List.filterMap_cons] at fresh
          exact (List.nodup_cons.mp fresh).1 inside
      rw [read, ok_bind, List.map_cons, List.append_cons log r (rest.map (·.1))]
      rcases ih loaded' freshRest unusedRest with ⟨readable, ended⟩ | ⟨stuck, failed⟩
      · exact .inl ⟨⟨clear, readable⟩, ended⟩
      · exact .inr ⟨fun both => stuck both.2, failed⟩
    · rw [failed, error_bind]
      exact .inr ⟨fun both => stuck both.1, rfl⟩

theorem leaseInit_spec (entries : List (LeaseStore × Option Ptr)) (fresh : FreshBlocks entries)
    (now : Nat) :
    (Readable now entries ∧ ∃ m leases, leaseInit entries now = .ok m ∧
      Loaded m leases (unexpired now (entries.map (·.1))) ∧
      ∃ ps : List Ptr, m.file = ps.map (store m) ∧ ∀ p, p ∈ ps ↔ p ∈ leases) ∨
    ¬ Readable now entries ∧ leaseInit entries now = .error .freed := by
  have start : Loaded (initial (entries.map (·.1))) [] (unexpired now []) :=
    ⟨holds_initial _, by simp, fun _ _ impossible => by cases impossible⟩
  rw [leaseInit]
  rcases readRecords_spec start entries fresh (by simp [initial]) with
    ⟨readable, m, leases, ended, loaded⟩ | ⟨stuck, failed⟩
  · obtain ⟨ps, walk, -, mem⟩ := leaseWalk_spec loaded.holds
    refine .inl ⟨readable, { m with file := ps.map (store m) }, leases, ?_, ⟨?_, ?_, ?_⟩,
      ps, rfl, mem⟩
    · rw [ended, ok_bind, leaseFileUpdate, walk]
      rfl
    · exact loaded.holds.congr rfl rfl rfl rfl rfl rfl rfl
    · exact loaded.each
    · exact loaded.all
  · rw [failed, error_bind]
    exact .inr ⟨stuck, rfl⟩

end Loading

section Histories

variable {hosts : List Host}

/-- What is known after every step of a history. -/
structure Logged (t : Trace) (leases : List Ptr) : Prop where
  holds : Holds t.server.mem leases
  held : ∀ ip r, lastRecord t.log ip = some r → t.clock < r.tstamp →
    ∃ p ∈ leases, t.server.mem.ip p = ip ∧ t.server.mem.tstamp p = r.tstamp
  file : ∀ ip, lastRecord t.server.mem.file ip = lastRecord t.log ip ∨
    lastRecord t.server.mem.file ip = none ∧ ∀ r, lastRecord t.log ip = some r →
      r.tstamp ≤ t.clock

variable {t : Trace} {leases ps : List Ptr} {outcomes : List Outcome} {now : Nat}

theorem Logged.unwritten {leases' : List Ptr} {s' : Server}
    (logged : Logged t leases) (later : t.clock ≤ now)
    (holds : Holds s'.mem leases') (file : s'.mem.file = t.server.mem.file)
    (kept : ∀ p ∈ leases, now < t.server.mem.tstamp p → p ∈ leases' ∧
      s'.mem.ip p = t.server.mem.ip p ∧ s'.mem.tstamp p = t.server.mem.tstamp p) :
    Logged ⟨s', now, t.log ++ [], outcomes⟩ leases' := by
  rw [List.append_nil]
  refine ⟨holds, fun ip r last fresh => ?_, fun ip => ?_⟩
  · obtain ⟨p, member, here, tstamp⟩ := logged.held ip r last (Nat.lt_of_le_of_lt later fresh)
    obtain ⟨member', sameIp, sameTstamp⟩ := kept p member (by rw [tstamp]; exact fresh)
    exact ⟨p, member', sameIp.trans here, sameTstamp.trans tstamp⟩
  · change lastRecord s'.mem.file ip = _ ∨ lastRecord s'.mem.file ip = _ ∧ _
    rw [file]
    exact (logged.file ip).imp_right fun gone =>
      ⟨gone.1, fun r last => Nat.le_trans (gone.2 r last) later⟩

theorem lastRecord_stores {m : Mem} (holds : Holds m leases)
    (walk : ∀ p, p ∈ ps ↔ p ∈ leases) {p : Ptr} (member : p ∈ leases) :
    lastRecord (ps.map (store m)) (m.ip p) = some (store m p) := by
  cases last : lastRecord (ps.map (store m)) (m.ip p) with
  | none =>
    have absent := lastRecord_eq_none.mp last (store m p)
      (List.mem_map_of_mem ((walk p).mpr member))
    exact absurd rfl absent
  | some r =>
    obtain ⟨inside, here⟩ := mem_of_lastRecord last
    obtain ⟨q, inWalk, rfl⟩ := List.mem_map.mp inside
    obtain ⟨_, _, _, chained⟩ := holds
    rw [chained.ipUnique q ((walk q).mp inWalk) p member here]

theorem Logged.stored
    {p : Ptr} {tstamp : Nat} {lease : BitVec 32} {tables : Table Ptr (BitVec 8)} {m' : Mem}
    {networks : List Network} (logged : Logged t leases) (later : t.clock ≤ now)
    (member : p ∈ leases)
    (marked : Marked (DhcpServer.stored t.server.mem p tstamp lease tables) m')
    (holds : Holds m' leases) :
    Logged ⟨⟨m', networks⟩, now, t.log ++ [⟨t.server.mem.ip p, t.server.mem.mask p,
      t.server.mem.mac p, tstamp, lease⟩], outcomes⟩ leases := by
  obtain ⟨_, _, rfl⟩ := marked
  refine ⟨holds, fun ip r last fresh => ?_, fun ip => ?_⟩
  · change lastRecord (t.log ++ [_]) ip = some r at last
    rw [lastRecord_snoc] at last
    by_cases here : t.server.mem.ip p = ip
    · rw [if_pos here] at last
      cases last
      exact ⟨p, member, here, Function.update_self ..⟩
    · rw [if_neg here] at last
      obtain ⟨q, inside, ipQ, tstampQ⟩ := logged.held ip r last (Nat.lt_of_le_of_lt later fresh)
      have apart : q ≠ p := by
        rintro rfl
        exact here ipQ
      exact ⟨q, inside, ipQ, (update_of_ne apart _ _).trans tstampQ⟩
  · change lastRecord (t.server.mem.file ++ [_]) ip = lastRecord (t.log ++ [_]) ip ∨
      lastRecord (t.server.mem.file ++ [_]) ip = none ∧ ∀ r,
        lastRecord (t.log ++ [_]) ip = some r → r.tstamp ≤ now
    rw [lastRecord_snoc, lastRecord_snoc]
    by_cases here : t.server.mem.ip p = ip
    · rw [if_pos here, if_pos here]
      exact .inl rfl
    · rw [if_neg here, if_neg here]
      exact (logged.file ip).imp_right fun gone =>
        ⟨gone.1, fun r last => Nat.le_trans (gone.2 r last) later⟩

theorem lastRecord_walk {m : Mem} (holds : Holds m leases)
    (walk : ∀ p, p ∈ ps ↔ p ∈ leases) (ip : Ip) :
    (∃ p ∈ leases, m.ip p = ip ∧ lastRecord (ps.map (store m)) ip = some (store m p)) ∨
      lastRecord (ps.map (store m)) ip = none ∧ ∀ p ∈ leases, m.ip p ≠ ip := by
  by_cases held : ∃ p ∈ leases, m.ip p = ip
  · obtain ⟨p, member, rfl⟩ := held
    exact .inl ⟨p, member, rfl, lastRecord_stores holds walk member⟩
  · refine .inr ⟨lastRecord_eq_none.mpr fun r inside => ?_, fun p member same =>
      held ⟨p, member, same⟩⟩
    obtain ⟨p, inWalk, rfl⟩ := List.mem_map.mp inside
    exact fun same => held ⟨p, (walk p).mp inWalk, same⟩

theorem Logged.updated {networks : List Network} (logged : Logged t leases) (later : t.clock ≤ now)
    (walk : ∀ p, p ∈ ps ↔ p ∈ leases)
    (holds : Holds { t.server.mem with file := ps.map (store t.server.mem) } leases) :
    Logged ⟨⟨{ t.server.mem with file := ps.map (store t.server.mem) }, networks⟩, now,
      t.log ++ ps.map (store t.server.mem), outcomes⟩ leases := by
  refine ⟨holds, fun ip r last fresh => ?_, fun ip => ?_⟩
  · change lastRecord (t.log ++ ps.map (store t.server.mem)) ip = some r at last
    rw [lastRecord_append] at last
    rcases lastRecord_walk logged.holds walk ip with ⟨p, member, here, written⟩ | ⟨nothing, -⟩
    · rw [written] at last
      cases last
      exact ⟨p, member, here, rfl⟩
    · rw [nothing, Option.none_or] at last
      exact logged.held ip r last (Nat.lt_of_le_of_lt later fresh)
  · change lastRecord (ps.map (store t.server.mem)) ip =
        lastRecord (t.log ++ ps.map (store t.server.mem)) ip ∨
      lastRecord (ps.map (store t.server.mem)) ip = none ∧ ∀ r,
        lastRecord (t.log ++ ps.map (store t.server.mem)) ip = some r → r.tstamp ≤ now
    rw [lastRecord_append]
    rcases lastRecord_walk logged.holds walk ip with ⟨p, member, here, written⟩ | ⟨nothing, absent⟩
    · rw [written]
      exact .inl rfl
    · refine .inr ⟨nothing, fun r last => ?_⟩
      rw [nothing, Option.none_or] at last
      by_contra late
      obtain ⟨p, member, here, -⟩ := logged.held ip r last (by omega)
      exact absent p member here

theorem Logged.step {leases' : List Ptr} {m' : Mem}
    {written : List LeaseStore} (logged : Logged t leases) (later : t.clock ≤ now)
    (change : Change hosts t.server leases now m' leases' written) (holds : Holds m' leases')
    (networks : List Network) (outcomes : List Outcome) :
    Logged ⟨⟨m', networks⟩, now, t.log ++ written, outcomes⟩ leases' := by
  cases change with
  | marked marked =>
    refine logged.unwritten later holds ?_ ?_
    · obtain ⟨_, _, rfl⟩ := marked
      rfl
    · obtain ⟨_, _, rfl⟩ := marked
      exact fun p member _ => ⟨member, rfl, rfl⟩
  | leased p pkt pif ip net marked fresh newMac free used first source =>
    obtain ⟨_, _, rfl⟩ := marked
    refine logged.unwritten later holds rfl fun q member _ => ⟨List.mem_cons_of_mem p member, ?_⟩
    have apart : q ≠ p := by
      rintro rfl
      exact fresh (used_of_member logged.holds member)
    exact ⟨update_of_ne apart _ _, update_of_ne apart _ _⟩
  | expired same =>
    refine logged.unwritten later holds same.file fun p member late => ⟨?_, ?_, ?_⟩
    · rw [List.mem_filter]
      refine ⟨member, ?_⟩
      simp [due, Nat.not_le.mpr late]
    · exact congrFun same.ip p
    · exact congrFun same.tstamp p
  | stored p tstamp lease tables member marked => exact logged.stored later member marked holds
  | updated ps walk => exact logged.updated later walk holds

theorem logged_run {t' : Trace} {ops : List (Nat × Event)}
    (logged : Logged t leases) (allowed : Along (DhcpServer.step hosts) Allowed ops t)
    (ran : run (DhcpServer.step hosts) ops t = .ok t') : ∃ leases', Logged t' leases' := by
  refine reach_rule (I := fun t => ∃ leases, Logged t leases) ?_ allowed ⟨leases, logged⟩ ran
  rintro t op t' ⟨leases, logged⟩ allowed stepped
  rw [DhcpServer.step] at stepped
  rcases exec_spec logged.holds allowed.2 with
    ⟨-, failed⟩ | ⟨s', outcome, leases', ended, done⟩
  · rw [failed, error_bind] at stepped
    cases stepped
  · rw [ended, ok_bind] at stepped
    cases stepped
    exact ⟨leases', logged.step allowed.1 done.change done.holds s'.networks _⟩

end Histories

section Restarts

/-- A record that `process_release` wrote: its duration is that of an offer. -/
def released (r : LeaseStore) : Bool := r.lease = BitVec.ofNat 32 offerLeaseTime

/-- The lease of an address that is to survive: the last record, unless it has expired or is
a release. -/
def survivor (log : List LeaseStore) (now : Nat) (ip : Ip) : Option LeaseStore :=
  (lastRecord log ip).filter (fun r => now < r.tstamp && !released r)

/-- The database has these leases, and no client has two of them. -/
structure Restored (m : Mem) (expected : Ip → Option LeaseStore) : Prop where
  leases : ∀ ip, ∃ r, leaseFindIp m ip = .ok r ∧ r.map (store m) = expected ip
  oneAddress : ∀ ip ip' p q, leaseFindIp m ip = .ok (some p) → leaseFindIp m ip' = .ok (some q) →
    m.mac p = m.mac q → ip = ip'

/-- Every address with a record that has not expired has such a record as its last one, and
that is not a release. -/
def LastCounts (now : Nat) (file : List LeaseStore) : Prop :=
  ∀ r ∈ file, now < r.tstamp → ∃ last, lastRecord file r.ip = some last ∧ now < last.tstamp ∧
    released last = false

variable {m : Mem} {leases : List Ptr} {now : Nat}

theorem Loaded.find {log : List LeaseStore} (loaded : Loaded m leases log) (ip : Ip) :
    ∃ r, leaseFindIp m ip = .ok r ∧ r.map (store m) = lastRecord log ip := by
  obtain ⟨r, searched, isLease⟩ := loaded.holds.findIp ip
  refine ⟨r, searched, ?_⟩
  cases r with
  | some p =>
    obtain ⟨member, here⟩ := (isLease p).mp rfl
    rw [Option.map_some, ← here, loaded.each p member]
  | none =>
    cases last : lastRecord log ip with
    | none => rfl
    | some r =>
      obtain ⟨p, member, here⟩ := loaded.all ip r last
      cases (isLease p).mpr ⟨member, here⟩

theorem Loaded.restored_iff {log : List LeaseStore} (loaded : Loaded m leases log)
    (expected : Ip → Option LeaseStore) :
    Restored m expected ↔ ∀ ip, lastRecord log ip = expected ip := by
  constructor
  · intro restored ip
    obtain ⟨r, searched, mine⟩ := loaded.find ip
    obtain ⟨r', again, wanted⟩ := restored.leases ip
    rw [searched] at again
    cases again
    exact mine.symm.trans wanted
  · refine fun same => ⟨fun ip => ?_, fun ip ip' p q foundP foundQ sameMac => ?_⟩
    · rw [← same ip]
      exact loaded.find ip
    · obtain ⟨r, searched, isLease⟩ := loaded.holds.findIp ip
      obtain ⟨r', searched', isLease'⟩ := loaded.holds.findIp ip'
      rw [foundP] at searched
      rw [foundQ] at searched'
      obtain ⟨memberP, here⟩ := (isLease p).mp (Except.ok.inj searched).symm
      obtain ⟨memberQ, there⟩ := (isLease' q).mp (Except.ok.inj searched').symm
      obtain ⟨_, _, _, chained⟩ := loaded.holds
      rw [← here, ← there, chained.macUnique p memberP q memberQ sameMac]

/-- The records that were ever written and those that are in the file tell the same leases
exactly when the last record of each address counts. -/
theorem Logged.survivors_iff {t : Trace} (logged : Logged t leases) (later : t.clock ≤ now) :
    (∀ ip, lastRecord (unexpired now t.server.mem.file) ip = survivor t.log now ip) ↔
      LastCounts now t.server.mem.file := by
  constructor
  · intro same r member fresh
    cases last : lastRecord (unexpired now t.server.mem.file) r.ip with
    | none =>
      have inside : r ∈ unexpired now t.server.mem.file :=
        List.mem_filter.mpr ⟨member, decide_eq_true fresh⟩
      exact absurd rfl (lastRecord_eq_none.mp last r inside)
    | some last' =>
      rw [same r.ip, survivor, Option.filter_eq_some_iff] at last
      obtain ⟨logLast, counts⟩ := last
      rw [Bool.and_eq_true, decide_eq_true_eq, Bool.not_eq_true'] at counts
      refine ⟨last', ?_, counts⟩
      rcases logged.file r.ip with equal | ⟨-, gone⟩
      · rw [equal, logLast]
      · have old := gone last' logLast
        omega
  · intro counts ip
    cases last : lastRecord (unexpired now t.server.mem.file) ip with
    | some r =>
      obtain ⟨inside, here⟩ := mem_of_lastRecord last
      obtain ⟨member, fresh⟩ := List.mem_filter.mp inside
      rw [decide_eq_true_eq] at fresh
      obtain ⟨last', fileLast, fresh', kept⟩ := counts r member fresh
      rw [here] at fileLast
      have equal := lastRecord_unexpired fileLast fresh'
      rw [last] at equal
      cases equal
      have logLast : lastRecord t.log ip = some r := by
        rcases logged.file ip with equal | ⟨nothing, -⟩
        · rw [← equal, fileLast]
        · rw [fileLast] at nothing
          cases nothing
      rw [survivor, logLast, Option.filter_some, if_pos (by simp [fresh', kept])]
    | none =>
      rw [survivor]
      symm
      rw [Option.filter_eq_none_iff]
      intro r logLast counted
      rw [Bool.and_eq_true, decide_eq_true_eq] at counted
      rcases logged.file ip with equal | ⟨-, gone⟩
      · rw [logLast] at equal
        rw [lastRecord_unexpired equal counted.1] at last
        cases last
      · have old := gone r logLast
        omega

variable {hosts : List Host} {networks : List Network}

/-- After a history the leases survive a restart exactly when the records of the file can be
read, and for each address the last one counts. -/
theorem leases_survive_iff {before : List (LeaseStore × Option Ptr)} {start : Nat} {m : Mem}
    (fresh : FreshBlocks before) (started : leaseInit before start = .ok m)
    (ops : List (Nat × Event)) {t : Trace}
    (allowed : Along (DhcpServer.step hosts) Allowed ops ⟨⟨m, networks⟩, start, m.file, []⟩)
    (ran : run (DhcpServer.step hosts) ops ⟨⟨m, networks⟩, start, m.file, []⟩ = .ok t)
    {entries : List (LeaseStore × Option Ptr)} (file : entries.map (·.1) = t.server.mem.file)
    (freshAgain : FreshBlocks entries) {now : Nat} (later : t.clock ≤ now) :
    (∃ m', leaseInit entries now = .ok m' ∧ Restored m' (survivor t.log now)) ↔
      Readable now entries ∧ LastCounts now t.server.mem.file := by
  have logged : ∃ leases, Logged t leases := by
    rcases leaseInit_spec before fresh start with
      ⟨-, m₀, leases, init, loaded, ps, written, walk⟩ | ⟨-, failed⟩
    · rw [started] at init
      cases init
      refine logged_run ⟨loaded.holds, fun ip r last _ => ?_, fun _ => .inl rfl⟩
        allowed ran
      change lastRecord m.file ip = some r at last
      rw [written] at last
      obtain ⟨inside, here⟩ := mem_of_lastRecord last
      obtain ⟨p, inWalk, rfl⟩ := List.mem_map.mp inside
      exact ⟨p, (walk p).mp inWalk, here, rfl⟩
    · rw [started] at failed
      cases failed
  obtain ⟨leases, logged⟩ := logged
  rcases leaseInit_spec entries freshAgain now with
    ⟨readable, m', leases', init, loaded, -⟩ | ⟨stuck, failed⟩
  · rw [file] at loaded
    rw [init, ← logged.survivors_iff later, ← loaded.restored_iff]
    constructor
    · rintro ⟨_, same, restored⟩
      cases same
      exact ⟨readable, restored⟩
    · exact fun both => ⟨m', rfl, both.2⟩
  · rw [failed]
    constructor
    · rintro ⟨_, impossible, -⟩
      cases impossible
    · exact fun both => absurd both.1 stuck

end Restarts

theorem leaseInit_nil (now : Nat) : leaseInit [] now = .ok (initial []) := by
  obtain ⟨ps, walk, -, mem⟩ := leaseWalk_spec (holds_initial [])
  have none : ps = [] := List.eq_nil_iff_forall_not_mem.mpr fun p inside =>
    List.not_mem_nil ((mem p).mp inside)
  rw [leaseInit, List.foldlM_nil, pure_eq_ok, ok_bind]
  change leaseFileUpdate (initial []) = _
  rw [leaseFileUpdate, walk, none]
  rfl

/-- The client gets 10.0.0.10 and gives it back; later it gets 10.0.0.11. -/
def demoOps : List (Nat × Event) :=
  [(100, .discover (demoDiscover 1) demoInterface (some 0)),
    (101, .request { demoDiscover 1 with requestedIp := 0x0a00000a }),
    (200, .release { demoDiscover 1 with ciaddr := 0x0a00000a }),
    (220, .timeout),
    (230, .discover (demoDiscover 1) demoInterface (some 0)),
    (231, .request { demoDiscover 1 with requestedIp := 0x0a00000b })]

def demoStart : Trace := ⟨⟨initial [], [demoNetwork]⟩, 0, [], []⟩

def demoRecord : LeaseStore := ⟨0x0a00000a, 0xffffff00, 1, 86501, 86400⟩

/-- Two clients get an address each, and the first one renews its lease. -/
def demoRenewal : List (Nat × Event) :=
  demoOps.take 2 ++ [(110, .discover (demoDiscover 2) demoInterface (some 1)),
    (111, .request { demoDiscover 2 with requestedIp := 0x0a00000b }),
    (201, .request { demoDiscover 1 with requestedIp := 0x0a00000a })]

def demoRenewed : List (LeaseStore × Option Ptr) :=
  [(demoRecord, some 0), (⟨0x0a00000b, 0xffffff00, 2, 86511, 86400⟩, some 1),
    (⟨0x0a00000a, 0xffffff00, 1, 86601, 86400⟩, some 2)]

theorem leases_survive_demo :
    ∃ t m, run (DhcpServer.step []) demoRenewal demoStart = .ok t ∧
      leaseInit demoRenewed 300 = .ok m ∧ Restored m (survivor t.log 300) := by
  have seen : (run (DhcpServer.step []) demoRenewal demoStart).map
      (fun t => (t.server.mem.file, t.clock)) = .ok (demoRenewed.map (·.1), 201) := by
    decide +kernel
  cases ran : run (DhcpServer.step []) demoRenewal demoStart with
  | error e =>
    rw [ran] at seen
    cases seen
  | ok t =>
    rw [ran] at seen
    have file : t.server.mem.file = demoRenewed.map (·.1) :=
      congrArg Prod.fst (Except.ok.inj seen)
    have clock : t.clock = 201 := congrArg Prod.snd (Except.ok.inj seen)
    have counts : LastCounts 300 t.server.mem.file := by
      rw [file]
      have last : ∀ r ∈ demoRenewed.map (·.1),
          (lastRecord (demoRenewed.map (·.1)) r.ip).any
            (fun last => 300 < last.tstamp && !released last) = true := by decide
      intro r member _
      simpa [Option.any_eq_true] using last r member
    obtain ⟨m, init, restored⟩ := (leases_survive_iff (by decide) (leaseInit_nil 0)
      demoRenewal (by decide +kernel) ran file.symm (by decide)
      (show t.clock ≤ 300 by omega)).mpr ⟨readable_of_same (by decide) (by decide), counts⟩
    exact ⟨t, m, rfl, init, restored⟩

/-- The file at the end, and what `malloc` returns. -/
def demoFile : List (LeaseStore × Option Ptr) :=
  [(demoRecord, some 0), (⟨0x0a00000a, 0xffffff00, 1, 220, 20⟩, some 1),
    (⟨0x0a00000b, 0xffffff00, 1, 86631, 86400⟩, some 2)]

/-- The first record of the client has not expired, and the release after it is skipped. -/
theorem leases_survive_released :
    ¬ ∀ (hosts : List Host) (networks : List Network) (ops : List (Nat × Event)) (t : Trace)
      (entries : List (LeaseStore × Option Ptr)) (now : Nat),
      Along (DhcpServer.step hosts) Allowed ops ⟨⟨initial [], networks⟩, 0, [], []⟩ →
      run (DhcpServer.step hosts) ops ⟨⟨initial [], networks⟩, 0, [], []⟩ = .ok t →
      entries.map (·.1) = t.server.mem.file → FreshBlocks entries →
      (∀ entry ∈ entries, entry.2 ≠ none) → t.clock ≤ now →
        ∃ m, leaseInit entries now = .ok m ∧ Restored m (survivor t.log now) := by
  intro all
  have seen : (run (DhcpServer.step []) demoOps demoStart).map
      (fun t => (t.server.mem.file, t.clock)) =
        .ok (demoFile.map (·.1), 231) := by
    decide +kernel
  cases ran : run (DhcpServer.step []) demoOps demoStart with
  | error e =>
    rw [ran] at seen
    cases seen
  | ok t =>
    rw [ran] at seen
    have file := congrArg Prod.fst (Except.ok.inj seen)
    have clock : t.clock = 231 := congrArg Prod.snd (Except.ok.inj seen)
    obtain ⟨m, init, -⟩ := all [] [demoNetwork] demoOps t demoFile 300 (by decide +kernel) ran
      file.symm (by decide) (by decide) (by omega)
    have failed : (demoFile.foldlM (readRecord 300)
        (initial (demoFile.map (·.1)))).toOption.isNone := by decide +kernel
    rw [leaseInit] at init
    obtain ⟨m', read, -⟩ := bind_eq_ok init
    rw [read] at failed
    cases failed

end LeaseFile
