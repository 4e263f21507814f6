import Rcp100.StaticHosts

/-!
# Times in the cache

The timer takes one second off every entry that is not static, exactly once, and leaves none
whose time has run out. Nothing else changes the time of an entry that was learned.
-/

namespace CacheAging

open ChainTable FaultRuns
open DnsCache (Cache Entry Ptr Shape Owned Chained Fewer FreshBlocks HitsOne Host Keeps Same
  Unmarked Walking age cacheUpdateStatic clearMarker drop_spec freeEntry readNext release
  sweepChain)
open Function (update update_of_ne update_self)

/-- What the timer makes of an entry that it leaves. -/
def agedEntry (e : Entry) : Entry := if e.isStatic then e else { e with ttl := e.ttl - 1 }

/-- An entry that was learned has time left. -/
def Lasting (e : Entry) : Prop := e.isStatic = false → e.ttl ≠ 0

section Timer

variable {m m' : Cache} {chains : BitVec 10 → List Ptr} {p q : Ptr}

theorem gone_of_erased {s : Cache} (chained : Chained s chains) (fewer : Fewer s m')
    (removed : Chained m' (update chains (DnsCache.hash (s.entry p).name)
      ((chains (DnsCache.hash (s.entry p).name)).erase p))) : p ∉ m'.live := by
  intro used
  have name : (m'.entry p).name = (s.entry p).name := congrArg Prod.fst (fewer.key used)
  have inside := (Threads.mem removed (DnsCache.hash (s.entry p).name) p).mpr
    ⟨used, by rw [name]⟩
  rw [update_self] at inside
  exact (Threads.nodup chained _).not_mem_erase inside

theorem age_effect (chained : Chained m chains) (owned : Owned m) (used : p ∈ m.live)
    (done : age p m = .ok m') :
    (∀ q, q ≠ p → m'.entry q = m.entry q) ∧
      (p ∈ m'.live → m'.entry p = agedEntry (m.entry p) ∧ Lasting (m'.entry p)) := by
  rw [age, access_ok used, ok_bind] at done
  by_cases static : (m.entry p).isStatic = true
  · rw [if_pos static] at done
    by_cases marked : (m.entry p).marker = true
    · rw [if_pos marked] at done
      cases done
      refine ⟨fun _ _ => rfl, fun _ => ⟨(if_pos static).symm, fun learned => ?_⟩⟩
      rw [static] at learned
      cases learned
    · rw [if_neg marked] at done
      obtain ⟨t, dropped, -, fewer, same, removed⟩ := drop_spec chained owned used
      cases done.symm.trans dropped
      exact ⟨fun q _ => congrFun same q, fun inUse =>
        absurd inUse (gone_of_erased chained fewer removed)⟩
  · rw [if_neg static] at done
    obtain ⟨owned', -, chained'⟩ := DnsCache.setEntry_spec chained owned p ((m.entry p).ttl - 1)
      (m.entry p).marker
    have others : ∀ q, q ≠ p →
        (m.setEntry p { m.entry p with ttl := (m.entry p).ttl - 1 }).entry q = m.entry q :=
      fun q other => update_of_ne other _ _
    have now : (m.setEntry p { m.entry p with ttl := (m.entry p).ttl - 1 }).entry p =
        agedEntry (m.entry p) := by
      rw [agedEntry, if_neg static]
      exact update_self ..
    by_cases expired : (m.entry p).ttl - 1 = 0
    · rw [if_pos expired] at done
      obtain ⟨t, dropped, -, fewer, same, removed⟩ := drop_spec chained' owned' used
      cases done.symm.trans dropped
      refine ⟨fun q other => ?_, fun inUse => absurd inUse (gone_of_erased chained' fewer removed)⟩
      rw [same, others q other]
    · rw [if_neg expired] at done
      cases done
      refine ⟨others, fun _ => ⟨now, fun _ => ?_⟩⟩
      rw [now, agedEntry, if_neg static]
      exact expired

/-- What holds of an entry, before or after the timer has come to it. -/
def AgedIf (passed : Prop) (m m' : Cache) (p : Ptr) : Prop :=
  (passed → m'.entry p = agedEntry (m.entry p) ∧ Lasting (m'.entry p)) ∧
    (¬ passed → m'.entry p = m.entry p)

/-- What holds while the timer has walked over a chain up to `rest`. -/
structure Aging (m : Cache) (h : BitVec 10) (rest : List Ptr) (s : Cache)
    (chains : BitVec 10 → List Ptr) (front : List Ptr) : Prop where
  chained : Chained s chains
  split : chains h = front ++ rest
  owned : Owned s
  fewer : Fewer m s
  entries : ∀ p ∈ s.live, AgedIf (p ∈ front) m s p

theorem age_round {s : Cache} {h : BitVec 10} {rest front : List Ptr}
    (aging : Aging m h (p :: rest) s chains front) :
    readNext s p = .ok rest.head? ∧
      ∃ s', age p s = .ok s' ∧ ∃ chains front, Aging m h rest s' chains front := by
  obtain ⟨chained, split, owned, fewer, entries⟩ := aging
  have inChain : p ∈ chains h := by
    rw [split]
    simp
  obtain ⟨used, place⟩ := (Threads.mem chained h p).mp inChain
  have nodup := Threads.nodup chained h
  rw [split] at nodup
  have absent : p ∉ front := fun inside =>
    (List.nodup_append.mp nodup).2.2 p inside p List.mem_cons_self rfl
  refine ⟨?_, ?_⟩
  · rw [readNext, access_ok used]
    exact congrArg _ (Threads.next_eq chained split)
  obtain ⟨s', aged, owned', ⟨fewer', -⟩, -, after⟩ :=
    DnsCache.age_keeps s chains p chained owned used
  obtain ⟨others, own⟩ := age_effect chained owned used aged
  have old : ∀ q ∈ s'.live, q ≠ p → AgedIf (q ∈ front) m s' q := by
    intro q usedQ other
    have before := entries q (fewer'.live q usedQ)
    rw [AgedIf, ← others q other] at before
    exact before
  -- the first state has the entry as it was before this round
  have first : s.entry p = m.entry p := (entries p used).2 absent
  rcases after with same | removed
  · refine ⟨s', aged, chains, front ++ [p], same, ?_, owned', fewer.trans fewer', fun q usedQ => ?_⟩
    · rw [split, List.append_assoc]
      rfl
    by_cases here : q = p
    · subst here
      refine ⟨fun _ => first ▸ own usedQ, fun notIn => absurd ?_ notIn⟩
      exact List.mem_append_right _ List.mem_cons_self
    · have known := old q usedQ here
      refine ⟨fun inside => known.1 ?_, fun notIn => known.2 fun inside => notIn ?_⟩
      · exact (List.mem_append.mp inside).resolve_right fun last =>
          here (List.mem_singleton.mp last)
      · exact List.mem_append_left _ inside
  · have gone : p ∉ s'.live := gone_of_erased chained fewer' removed
    refine ⟨s', aged, _, front, removed, ?_, owned', fewer.trans fewer', fun q usedQ => ?_⟩
    · rw [place, update_self, split, List.erase_append_right _ absent,
        List.erase_cons_head]
    · exact old q usedQ (ne_of_mem_of_not_mem usedQ gone)

theorem sweepChain_aged (shape : Shape m) (owned : Owned m) (h : BitVec 10) :
    ∃ m', sweepChain age m h = .ok m' ∧ Shape m' ∧ Owned m' ∧ Fewer m m' ∧
      ∀ p ∈ m'.live, AgedIf (DnsCache.hash (m.entry p).name = h) m m' p := by
  obtain ⟨chains, chained⟩ := shape.chained
  have start : Aging m h (chains h) m chains [] :=
    ⟨chained, rfl, owned, Fewer.refl m, fun p _ =>
      ⟨fun inside => absurd inside List.not_mem_nil, fun _ => rfl⟩⟩
  obtain ⟨m', swept, chains', front, chained', split, owned', fewer, entries⟩ := sweep_rule
    (fun rest s => ∃ chains front, Aging m h rest s chains front)
    (fun p rest s inv => by
      obtain ⟨chains, front, aging⟩ := inv
      exact age_round aging)
    (chains h) m m.live.length (Threads.length_le chained (fun _ used => used) h)
    ⟨chains, [], start⟩
  rw [List.append_nil] at split
  refine ⟨m', ?_, ⟨⟨chains', chained'⟩, shape.differ.congr fewer.live fun p used => fewer.key used⟩,
    owned', fewer, fun p used => ?_⟩
  · rw [sweepChain, Threads.head_eq chained]
    exact swept
  · have name : (m'.entry p).name = (m.entry p).name := congrArg Prod.fst (fewer.key used)
    have inFront : p ∈ front ↔ DnsCache.hash (m.entry p).name = h := by
      rw [← split, Threads.mem chained', name, and_iff_right used]
    have known := entries p used
    rwa [AgedIf, inFront] at known

theorem sweepList_aged (shape : Shape m) (owned : Owned m) {l : List (BitVec 10)}
    (nodup : l.Nodup) :
    ∃ m', l.foldlM (sweepChain age) m = .ok m' ∧ Fewer m m' ∧
      ∀ p ∈ m'.live, AgedIf (DnsCache.hash (m.entry p).name ∈ l) m m' p := by
  induction l generalizing m with
  | nil =>
    exact ⟨m, rfl, Fewer.refl m, fun p _ =>
      ⟨fun inside => absurd inside List.not_mem_nil, fun _ => rfl⟩⟩
  | cons h l ih =>
    obtain ⟨fresh, nodup⟩ := List.nodup_cons.mp nodup
    obtain ⟨s, swept, shape', owned', fewer, entries⟩ := sweepChain_aged shape owned h
    obtain ⟨m', goneOn, fewer', entries'⟩ := ih shape' owned' nodup
    refine ⟨m', ?_, fewer.trans fewer', fun p used => ?_⟩
    · rw [List.foldlM_cons, swept, ok_bind]
      exact goneOn
    have usedS := fewer'.live p used
    have name : (s.entry p).name = (m.entry p).name := congrArg Prod.fst (fewer.key usedS)
    have later := entries' p used
    rw [AgedIf, name] at later
    have here := entries p usedS
    by_cases now : DnsCache.hash (m.entry p).name = h
    · have unchanged := later.2 (now ▸ fresh)
      refine ⟨fun _ => unchanged ▸ here.1 now, fun notIn => absurd ?_ notIn⟩
      exact now ▸ List.mem_cons_self
    · have same := here.2 now
      rw [same] at later
      refine ⟨fun inside => later.1 ((List.mem_cons.mp inside).resolve_left now), fun notIn => ?_⟩
      exact later.2 fun inside => notIn (List.mem_cons_of_mem h inside)

theorem buckets_nodup : DnsCache.buckets.Nodup := by
  refine List.Nodup.map_on (fun i inI j inJ same => ?_) List.nodup_range
  have less := List.mem_range.mp inI
  have less' := List.mem_range.mp inJ
  have number := congrArg BitVec.toNat same
  rw [BitVec.toNat_ofNat, BitVec.toNat_ofNat] at number
  omega

theorem cacheTimer_aged (shape : Shape m) (owned : Owned m)
    (timed : DnsCache.cacheTimer m = .ok m') : Fewer m m' ∧
      ∀ p ∈ m'.live, m'.entry p = agedEntry (m.entry p) ∧ Lasting (m'.entry p) := by
  obtain ⟨t, timed', fewer, entries⟩ := sweepList_aged shape owned buckets_nodup
  cases timed.symm.trans timed'
  exact ⟨fewer, fun p used => (entries p used).1 (DnsCache.mem_buckets _)⟩

end Timer

section Others

variable {m m' : Cache} {p : Ptr}

theorem release_entry (done : release p m = .ok m') : m'.entry = m.entry := by
  rw [release, access] at done
  split_ifs at done
  swap
  · cases done
  rw [ok_bind, DnsCache.freeCname] at done
  cases cname : (m.entry p).cname with
  | none =>
    simp only [cname, pure_eq_ok, ok_bind, freeEntry, access] at done
    split_ifs at done
    cases done
    rfl
  | some q =>
    simp only [cname, DnsCache.freePacket, access] at done
    split_ifs at done with inUse
    · simp only [ok_bind, freeEntry, access] at done
      split_ifs at done
      cases done
      rfl
    · rw [error_bind] at done
      cases done

theorem sweep_keeps {I : Cache → Prop} {body : Ptr → Cache → Except Fault Cache}
    (keeps : ∀ p s s', body p s = .ok s' → I s → I s') (steps : Nat) (start : Option Ptr)
    (inv : I m) (swept : sweep readNext body steps start m = .ok m') : I m' := by
  induction steps generalizing start m with
  | zero =>
    cases start with
    | none =>
      cases swept
      exact inv
    | some p => cases swept
  | succ steps ih =>
    cases start with
    | none =>
      cases swept
      exact inv
    | some p =>
      obtain ⟨following, -, swept⟩ := bind_eq_ok swept
      obtain ⟨s, worked, swept⟩ := bind_eq_ok swept
      exact ih following (keeps p m s worked inv) swept

theorem clearList_entry {l : List (BitVec 10)} (cleared : l.foldlM DnsCache.clearChain m = .ok m') :
    m'.entry = m.entry := by
  induction l generalizing m with
  | nil =>
    cases cleared
    rfl
  | cons h l ih =>
    obtain ⟨s, emptied, cleared⟩ := bind_eq_ok cleared
    obtain ⟨r, swept, same⟩ := bind_eq_ok emptied
    cases same
    have same : r.entry = m.entry := sweep_keeps (I := fun s => s.entry = m.entry)
      (fun p s s' done same => (release_entry done).trans same) _ _ rfl swept
    exact (ih cleared).trans same

theorem cacheClear_entry (cleared : DnsCache.cacheClear m = .ok m') : m'.entry = m.entry :=
  clearList_entry cleared

/-- No marker is set, and no time changes. -/
def SameTimes (m m' : Cache) : Prop :=
  Same m m' ∧ ∀ p ∈ m'.live, (m'.entry p).ttl = (m.entry p).ttl

theorem sameTimes_walking : Walking SameTimes Unmarked where
  refl := fun m => ⟨DnsCache.same_walking.refl m, fun _ _ => rfl⟩
  trans := by
    rintro a b c ⟨same, times⟩ ⟨same', times'⟩
    exact ⟨DnsCache.same_walking.trans same same', fun p used =>
      (times' p used).trans (times p (same'.fewer.live p used))⟩
  fewer := fun same => same.1.fewer
  keeps := fun same => DnsCache.same_walking.keeps same.1

theorem clearMarker_times : Keeps SameTimes Unmarked clearMarker := by
  intro m chains p chained owned used
  obtain ⟨m', cleared, owned', same, unmarked, after⟩ :=
    DnsCache.clearMarker_keeps m chains p chained owned used
  refine ⟨m', cleared, owned', ⟨same, fun q _ => ?_⟩, unmarked, after⟩
  rw [clearMarker, access_ok used] at cleared
  cases cleared
  by_cases here : q = p
  · subst here
    change (update m.entry q { m.entry q with marker := false } q).ttl = _
    rw [update_self]
  · exact congrArg Entry.ttl (update_of_ne here _ _)

theorem cacheUpdateStatic_learned (shape : Shape m) (owned : Owned m)
    {hosts : List (Host × Option Ptr)} (fresh : FreshBlocks m.live hosts)
    (noHit : ¬ HitsOne m hosts) (updated : cacheUpdateStatic m hosts = .ok m') :
    m'.packet = m.packet ∧ ∀ p ∈ m'.live, (m'.entry p).isStatic = false →
      p ∈ m.live ∧ ∃ marker, m'.entry p = { m.entry p with marker := marker } := by
  obtain ⟨t, cleared, shapeT, ownedT, ⟨same, times⟩, -⟩ :=
    DnsCache.sweepChains_spec sameTimes_walking clearMarker_times shape owned
  have freshT : FreshBlocks t.live hosts := same.live.symm ▸ fresh
  obtain ⟨s, added, -, -, adds⟩ := DnsCache.addStatics_spec shapeT ownedT freshT
    (fun hits => noHit (same.hitsOne.mp hits))
  have whole : cacheUpdateStatic m hosts = .ok s := by
    rw [cacheUpdateStatic, cleared, ok_bind]
    exact added
  cases updated.symm.trans whole
  refine ⟨adds.packet.trans same.fewer.packet, fun p used learned => ?_⟩
  rcases adds.entry p used with ⟨old, kept⟩ | ⟨host, -, -, made⟩
  · obtain ⟨ttl, marker, before⟩ := same.fewer.entry p old
    have time := times p old
    rw [before] at time
    have isTtl : ttl = (m.entry p).ttl := time
    refine ⟨same.fewer.live p old, marker, ?_⟩
    rw [kept, before, isTtl]
  · rw [made.isStatic] at learned
    cases learned

end Others

end CacheAging
