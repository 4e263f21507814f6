import Mathlib.Data.List.Nodup
import Rcp100.SummaryUpdate

/-!
# Stub areas without summaries

A summary enters an area by three ways. Those of routes and of boundary routers ask the area
that receives the summary whether it is a stub area; that of a range asks the area of the
range, so that the summary of a range of an open area enters every other area.
-/

namespace StubSummaries

open LsaFormat SummaryUpdate
open OwnedList (own_eq_some)
open Origination (newLsa key_newLsa)

/-- `area->stub && area->no_summary`. -/
def closed (area : SumArea) : Bool := area.stub && area.noSummary

section Ways

variable {b : Border} {r : Request}

theorem mem_sumnetRequests {areaId : BitVec 32} {rt : TableRt}
    (asks : r ∈ sumnetRequests b areaId rt) :
    ∃ area, areaFind b r.areaId = some area ∧ closed area = false ∧ r.key.type = 3 := by
  unfold sumnetRequests at asks
  cases found : areaFind b areaId with
  | none =>
    rw [found] at asks
    cases asks
  | some area =>
    rw [found] at asks
    dsimp only at asks
    split at asks
    · cases asks
    · rename_i carries
      cases List.mem_singleton.mp asks
      exact ⟨area, found, by simpa [closed] using carries, rfl⟩

theorem mem_nodeRequests {ptn : List TableRt} (asks : r ∈ nodeRequests b ptn) :
    ∃ areaId rt, r ∈ sumnetRequests b areaId rt := by
  obtain ⟨p, _, asks⟩ := List.mem_flatMap.mp asks
  have intra : r ∈ intraRequests b p.1 → ∃ areaId rt, r ∈ sumnetRequests b areaId rt := by
    intro asks
    obtain ⟨area, _, asks⟩ := List.mem_flatMap.mp asks
    split at asks
    · split at asks
      · exact ⟨area.areaId, p.1, asks⟩
      · cases asks
    · cases asks
  have inter : r ∈ interRequests b ptn p.2 p.1 → ∃ areaId rt, r ∈ sumnetRequests b areaId rt := by
    intro asks
    obtain ⟨area, _, asks⟩ := List.mem_flatMap.mp asks
    split at asks
    · split at asks
      · cases asks
      · exact ⟨area.areaId, p.1, asks⟩
    · cases asks
  split at asks
  · exact intra asks
  · exact intra asks
  · exact inter asks
  · cases asks

theorem mem_routerRequests {areaId id cost : BitVec 32}
    (asks : r ∈ routerRequests b areaId id cost) :
    ∃ area, areaFind b r.areaId = some area ∧ area.stub = false ∧ r.key.type = 4 := by
  unfold routerRequests at asks
  cases found : areaFind b areaId with
  | none =>
    rw [found] at asks
    cases asks
  | some area =>
    rw [found] at asks
    dsimp only at asks
    split at asks
    · cases asks
    · rename_i carries
      cases List.mem_singleton.mp asks
      exact ⟨area, found, by simpa using carries, rfl⟩

theorem mem_boundaryRequests (asks : r ∈ boundaryRequests b) :
    ∃ areaId id cost, r ∈ routerRequests b areaId id cost := by
  obtain ⟨home, _, asks⟩ := List.mem_flatMap.mp asks
  split at asks
  · obtain ⟨router, _, asks⟩ := List.mem_flatMap.mp asks
    split at asks
    · obtain ⟨area, _, asks⟩ := List.mem_flatMap.mp asks
      split at asks
      · exact ⟨_, _, _, asks⟩
      · cases asks
    · cases asks
  · cases asks

theorem mem_transferRequests {received : List Entry} (asks : r ∈ transferRequests b received) :
    ∃ areaId id cost, r ∈ routerRequests b areaId id cost := by
  obtain ⟨e, _, asks⟩ := List.mem_flatMap.mp asks
  obtain ⟨area, _, asks⟩ := List.mem_flatMap.mp asks
  split at asks
  · exact ⟨_, _, _, asks⟩
  · cases asks

theorem requests_cases {received : List Entry} (asks : r ∈ requests b received) :
    (∃ area, areaFind b r.areaId = some area ∧ closed area = false ∧ r.key.type = 3) ∨
      r ∈ rangeRequests b (walkCosts b (fun _ => ospfMaxCost)) ∨
      ∃ area, areaFind b r.areaId = some area ∧ area.stub = false ∧ r.key.type = 4 := by
  unfold requests at asks
  rcases List.mem_append.mp asks with asks | transfer
  · rcases List.mem_append.mp asks with asks | boundary
    · rcases List.mem_append.mp asks with node | range
      · obtain ⟨ptn, _, node⟩ := List.mem_flatMap.mp node
        obtain ⟨areaId, rt, net⟩ := mem_nodeRequests node
        exact .inl (mem_sumnetRequests net)
      · exact .inr (.inl range)
    · obtain ⟨areaId, id, cost, router⟩ := mem_boundaryRequests boundary
      exact .inr (.inr (mem_routerRequests router))
  · obtain ⟨areaId, id, cost, router⟩ := mem_transferRequests transfer
    exact .inr (.inr (mem_routerRequests router))

theorem mem_rangeRequests_iff {costs : Nat → BitVec 32} :
    r ∈ rangeRequests b costs ↔ b.rangeIsConfigured = true ∧
      ∃ range i, (range, i) ∈ b.ospfRange.zipIdx ∧ range.valid = true ∧ costs i ≠ ospfMaxCost ∧
        ∃ home, areaFind b range.area = some home ∧ closed home = false ∧
          ∃ area ∈ b.areas, elsewhere b range.area area = true ∧
            r = ⟨area.areaId, ⟨3, range.ip, home.routerId⟩, range.mask, costs i⟩ := by
  unfold rangeRequests
  by_cases configured : b.rangeIsConfigured = true
  · rw [if_pos configured]
    constructor
    · intro asks
      obtain ⟨p, member, asks⟩ := List.mem_flatMap.mp asks
      split at asks
      · rename_i used
        obtain ⟨valid, costed⟩ := (Bool.and_eq_true _ _).mp used
        obtain ⟨area, known, asks⟩ := List.mem_flatMap.mp asks
        split at asks
        · rename_i other
          unfold sumnetRangeRequests at asks
          cases found : areaFind b p.1.area with
          | none =>
            rw [found] at asks
            cases asks
          | some home =>
            rw [found] at asks
            dsimp only at asks
            split at asks
            · cases asks
            · rename_i carries
              exact ⟨configured, p.1, p.2, member, valid, by simpa using costed, home, found,
                by simpa [closed] using carries, area, known, other, List.mem_singleton.mp asks⟩
        · cases asks
      · cases asks
    · rintro ⟨_, range, i, member, valid, costed, home, found, carries, area, known, other, rfl⟩
      refine List.mem_flatMap.mpr ⟨(range, i), member, ?_⟩
      rw [if_pos (by simp [valid, costed])]
      refine List.mem_flatMap.mpr ⟨area, known, ?_⟩
      rw [if_pos other, sumnetRangeRequests, found]
      dsimp only
      rw [if_neg (by simpa [closed] using carries)]
      exact List.mem_singleton.mpr rfl
  · rw [if_neg configured]
    exact iff_of_false List.not_mem_nil (fun both => configured both.1)

end Ways

section Costs

/-- With `adds`, and only then, the change gives the range `i` a cost. -/
def Gives (i : Nat) (change : (Nat → BitVec 32) → Nat → BitVec 32) (adds : Prop) : Prop :=
  ∀ costs, change costs i ≠ ospfMaxCost ↔ costs i ≠ ospfMaxCost ∨ adds

variable {b : Border} {i : Nat}

theorem Gives.nothing : Gives i (fun costs => costs) False :=
  fun _ => (or_false _).symm.to_iff

theorem Gives.congr {change : (Nat → BitVec 32) → Nat → BitVec 32} {adds adds' : Prop}
    (gives : Gives i change adds) (same : adds ↔ adds') : Gives i change adds' :=
  fun costs => (gives costs).trans (or_congr_right same)

theorem Gives.foldl {α : Type} {change : (Nat → BitVec 32) → α → Nat → BitVec 32}
    {adds : α → Prop} (each : ∀ x, Gives i (fun costs => change costs x) (adds x)) (xs : List α) :
    Gives i (fun costs => xs.foldl change costs) (∃ x ∈ xs, adds x) := by
  induction xs with
  | nil => exact Gives.nothing.congr (by simp)
  | cons x xs ih =>
    intro costs
    have later := ih (change costs x)
    have now := each x costs
    dsimp only at later now ⊢
    rw [List.foldl_cons, later, now, or_assoc, List.exists_mem_cons_iff]

theorem gives_raiseCost (j : Nat) (cost : BitVec 32) :
    Gives i (raiseCost j cost) (j = i ∧ cost ≠ ospfMaxCost) := by
  intro costs
  unfold raiseCost
  by_cases here : j = i
  · subst here
    split
    · rename_i raised
      rw [Function.update_self]
      exact iff_of_true raised.1 (.inr ⟨rfl, raised.1⟩)
    · rename_i still
      constructor
      · exact fun held => .inl held
      · rintro (held | ⟨_, costed⟩)
        · exact held
        · exact fun unset => still ⟨costed, .inl unset⟩
  · have other : ∀ c : BitVec 32, Function.update costs j c i = costs i :=
      fun c => Function.update_of_ne (Ne.symm here) c costs
    split
    · rw [other]
      simp [here]
    · simp [here]

/-- The range that the route falls into is advertised and takes its cost. -/
def Takes (b : Border) (rt : TableRt) (i : Nat) : Prop :=
  ∃ range, rangeMatch b rt.areaId rt.ip rt.mask = some (range, i) ∧ range.notAdvertise = false ∧
    rt.cost ≠ ospfMaxCost

theorem gives_intraCosts (rt : TableRt) :
    Gives i (intraCosts b rt) (∃ area ∈ b.areas, elsewhere b rt.areaId area = true ∧
      Takes b rt i) := by
  refine Gives.foldl (fun area => ?_) b.areas
  by_cases other : elsewhere b rt.areaId area = true
  · simp only [other, if_true, true_and]
    unfold Takes
    cases rangeMatch b rt.areaId rt.ip rt.mask with
    | none => exact Gives.nothing.congr (by simp)
    | some p =>
      obtain ⟨range, j⟩ := p
      dsimp only
      cases hidden : range.notAdvertise with
      | true => exact Gives.nothing.congr (by simp [hidden])
      | false =>
        refine (gives_raiseCost j rt.cost).congr ?_
        constructor
        · rintro ⟨rfl, costed⟩
          exact ⟨range, rfl, hidden, costed⟩
        · rintro ⟨range', same, _, costed⟩
          cases same
          exact ⟨rfl, costed⟩
  · simp only [if_neg other]
    exact Gives.nothing.congr (by simp [other])

/-- A route of the own areas. -/
def intraArea (rt : TableRt) : Bool := rt.type = .connected || rt.type = .ospf

theorem gives_nodeCosts (ptn : List TableRt) :
    Gives i (nodeCosts b ptn) (∃ rt ∈ configured ptn, intraArea rt = true ∧
      ∃ area ∈ b.areas, elsewhere b rt.areaId area = true ∧ Takes b rt i) := by
  have walk : Gives i (nodeCosts b ptn) (∃ p ∈ (configured ptn).zipIdx, intraArea p.1 = true ∧
      ∃ area ∈ b.areas, elsewhere b p.1.areaId area = true ∧ Takes b p.1 i) := by
    refine Gives.foldl (fun p => ?_) (configured ptn).zipIdx
    cases type : p.1.type with
    | connected => exact (gives_intraCosts p.1).congr (by simp [intraArea, type])
    | ospf => exact (gives_intraCosts p.1).congr (by simp [intraArea, type])
    | ospfIa => exact Gives.nothing.congr (by simp [intraArea, type])
    | none => exact Gives.nothing.congr (by simp [intraArea, type])
    | static => exact Gives.nothing.congr (by simp [intraArea, type])
    | ospfE1 => exact Gives.nothing.congr (by simp [intraArea, type])
    | ospfE2 => exact Gives.nothing.congr (by simp [intraArea, type])
    | blackhole => exact Gives.nothing.congr (by simp [intraArea, type])
  refine walk.congr ⟨?_, ?_⟩
  · rintro ⟨p, member, takes⟩
    exact ⟨p.1, (List.mem_zipIdx' member).2 ▸ List.getElem_mem _, takes⟩
  · rintro ⟨rt, member, takes⟩
    obtain ⟨j, bound, rfl⟩ := List.mem_iff_getElem.mp member
    exact ⟨((configured ptn)[j], j), List.mk_mem_zipIdx_iff_getElem?.mpr
      (List.getElem?_eq_getElem bound), takes⟩

theorem walkCosts_iff : walkCosts b (fun _ => ospfMaxCost) i ≠ ospfMaxCost ↔
    ∃ ptn ∈ b.table, ∃ rt ∈ configured ptn, intraArea rt = true ∧
      ∃ area ∈ b.areas, elsewhere b rt.areaId area = true ∧ Takes b rt i := by
  have walk : Gives i (walkCosts b) _ := Gives.foldl (fun ptn => gives_nodeCosts ptn) b.table
  exact (walk _).trans (or_iff_right (fun held => held rfl))

end Costs

section Leaks

variable {b : Border}

theorem areaFind_of_mem {area : SumArea} (known : area ∈ b.areas) :
    areaFind b area.areaId = some area := by
  obtain ⟨found, here⟩ : ∃ found, areaFind b area.areaId = some found :=
    Option.isSome_iff_exists.mp (List.find?_isSome.mpr ⟨area, known, by simp⟩)
  have same : found.areaId = area.areaId := by simpa using List.find?_some here
  rw [here, List.inj_on_of_nodup_map b.nodup (List.mem_of_find?_eq_some here) known same]

theorem mem_of_areaFind {areaId : BitVec 32} {area : SumArea}
    (found : areaFind b areaId = some area) : area ∈ b.areas ∧ area.areaId = areaId :=
  ⟨List.mem_of_find?_eq_some found, by simpa using List.find?_some found⟩

theorem rangeMatch_some {areaId ip mask : BitVec 32} {range : AreaRange} {i : Nat}
    (falls : rangeMatch b areaId ip mask = some (range, i)) :
    b.rangeIsConfigured = true ∧ (range, i) ∈ b.ospfRange.zipIdx ∧ range.valid = true ∧
      range.area = areaId := by
  unfold rangeMatch at falls
  split at falls
  · rename_i configured
    have fits := List.find?_some falls
    simp only [Bool.and_eq_true, decide_eq_true_eq] at fits
    exact ⟨configured, List.mem_of_find?_eq_some falls, fits.1.1.1, fits.1.1.2.symm⟩
  · cases falls

/-- A route of an open area falls into a range that is advertised, and a stub area without
summaries is attached. -/
def Leak (b : Border) : Prop :=
  ∃ ptn ∈ b.table, ∃ rt ∈ configured ptn, intraArea rt = true ∧ rt.cost ≠ ospfMaxCost ∧
    ∃ range i, rangeMatch b rt.areaId rt.ip rt.mask = some (range, i) ∧
      range.notAdvertise = false ∧ range.ip ≠ 0 ∧
      ∃ home, areaFind b rt.areaId = some home ∧ closed home = false ∧
        ∃ area ∈ b.areas, closed area = true ∧ elsewhere b rt.areaId area = true

theorem leak_iff : Leak b ↔ ∃ r ∈ rangeRequests b (walkCosts b (fun _ => ospfMaxCost)),
    r.key.linkStateId ≠ 0 ∧ ∃ area, areaFind b r.areaId = some area ∧ closed area = true := by
  constructor
  · rintro ⟨ptn, node, rt, member, intra, costed, range, i, falls, shown, ip, home, found, carries,
      area, known, shut, other⟩
    obtain ⟨configured, place, valid, same⟩ := rangeMatch_some falls
    have taken : walkCosts b (fun _ => ospfMaxCost) i ≠ ospfMaxCost :=
      walkCosts_iff.mpr ⟨ptn, node, rt, member, intra, area, known, other, range, falls, shown,
        costed⟩
    rw [← same] at found other
    exact ⟨_, mem_rangeRequests_iff.mpr ⟨configured, range, i, place, valid, taken, home, found,
      carries, area, known, other, rfl⟩, ip, area, areaFind_of_mem known, shut⟩
  · rintro ⟨r, asks, ip, target, there, shut⟩
    obtain ⟨_, range, i, place, _, taken, home, found, carries, area, known, other, rfl⟩ :=
      mem_rangeRequests_iff.mp asks
    obtain ⟨ptn, node, rt, member, intra, _, _, _, range', falls, shown, costed⟩ :=
      walkCosts_iff.mp taken
    obtain ⟨_, place', _, same⟩ := rangeMatch_some falls
    have one : range' = range := by
      have first := List.mem_zipIdx_iff_getElem?.mp place
      have second := List.mem_zipIdx_iff_getElem?.mp place'
      exact Option.some.inj (second.symm.trans first)
    subst one
    rw [same] at found other
    rw [areaFind_of_mem known] at there
    cases there
    exact ⟨ptn, node, rt, member, intra, costed, range', i, falls, shown, ip, home, found, carries,
      target, known, shut, other⟩

end Leaks

section Run

variable {b : Border} {st : St} {rs : List Request} {k : Place}

theorem find_performAll_isSome (asked : (∃ r ∈ rs, r.place = k) ∨ (st.find k).isSome = true) :
    ((rs.foldl perform st).find k).isSome = true := by
  induction rs generalizing st with
  | nil =>
    rcases asked with ⟨r, member, _⟩ | found
    · cases member
    · exact found
  | cons r rs ih =>
    refine ih ?_
    by_cases here : r.place = k
    · obtain ⟨e, found, -⟩ := find_perform_self st r
      exact .inr (here ▸ Option.isSome_iff_exists.mpr ⟨e, found⟩)
    · rcases asked with ⟨d, member, eq⟩ | found
      · rcases List.mem_cons.mp member with rfl | later
        · exact absurd eq here
        · exact .inl ⟨d, later, eq⟩
      · refine .inr ?_
        rw [(performed st r).other k (Ne.symm here)]
        exact found

theorem mem_log_performAll {change : Change} (logged : change ∈ (rs.foldl perform st).log) :
    change ∈ st.log ∨ ∃ r ∈ rs, ∃ lsa, change = .originated r.areaId lsa ∧ lsa.key = r.key := by
  induction rs generalizing st with
  | nil => exact .inl logged
  | cons r rs ih =>
    rcases ih logged with before | ⟨d, member, answer⟩
    · unfold perform SummaryUpdate.originateIn at before
      split at before
      · exact .inl before
      · rcases List.mem_append.mp before with before | now
        · exact .inl before
        · exact .inr ⟨r, List.mem_cons_self, _, List.mem_singleton.mp now, key_newLsa ..⟩
    · exact .inr ⟨d, List.mem_cons_of_mem r member, answer⟩

theorem mem_log_sweep {areas : List SumArea} {areaId : BitVec 32} {lsa : OspfLsa}
    (logged : .originated areaId lsa ∈ (areas.foldl sweepArea st).log) :
    .originated areaId lsa ∈ st.log := by
  induction areas generalizing st with
  | nil => exact logged
  | cons area areas ih =>
    rcases List.mem_append.mp (ih logged) with before | removed
    · exact before
    · obtain ⟨e, _, eq⟩ := List.mem_map.mp removed
      cases eq

theorem mem_log_update (border : b.isAbr = true) {areaId : BitVec 32} {lsa : OspfLsa}
    (logged : .originated areaId lsa ∈
      (lsaOriginateSummaryUpdate b { st with log := [] }).log) :
    ∃ r ∈ requests b (received b st), r.areaId = areaId ∧ lsa.key = r.key := by
  obtain ⟨costs, eq⟩ := update_eq border { st with log := [] }
  rw [eq] at logged
  have asked := mem_log_sweep logged
  rcases mem_log_performAll asked with before | ⟨r, member, lsa', same, key⟩
  · have fresh : (markAreas b { st with log := [] }).log = [] :=
      (markAreas_log b.areas { st with log := [] }).1
    rw [fresh] at before
    cases before
  · cases same
    exact ⟨r, member, rfl, key⟩

end Run

/-- A closed area has no own network summary but the default route, and no own router summary
that the run has originated; and the run originates none into any stub area. -/
structure SummaryFree (b : Border) (run : St) : Prop where
  networks : ∀ area ∈ b.areas, closed area = true → ∀ e ∈ (run.sums area.areaId).list,
    e.selfOriginated = true → e.lsa.header.type = 3 → e.lsa.header.linkStateId = 0
  routers : ∀ area ∈ b.areas, closed area = true → ∀ e ∈ (run.sums area.areaId).list,
    e.selfOriginated = true → e.lsa.header.type = 4 → .originated area.areaId e.lsa ∉ run.log
  stubs : ∀ area ∈ b.areas, area.stub = true → ∀ lsa : OspfLsa,
    .originated area.areaId lsa ∈ run.log → lsa.header.type ≠ 4

section Free

variable {b : Border} {st : St}

theorem no_router_in_stub (border : b.isAbr = true) {area : SumArea} (known : area ∈ b.areas)
    (stub : area.stub = true) {lsa : OspfLsa}
    (logged : .originated area.areaId lsa ∈
      (lsaOriginateSummaryUpdate b { st with log := [] }).log) : lsa.header.type ≠ 4 := by
  intro router
  obtain ⟨r, asks, place, key⟩ := mem_log_update border logged
  have type : r.key.type = 4 := key ▸ router
  rcases requests_cases asks with ⟨_, _, _, net⟩ | range | ⟨target, found, carries, _⟩
  · rw [net] at type
    cases type
  · obtain ⟨_, _, _, _, _, _, _, _, _, _, _, _, rfl⟩ := mem_rangeRequests_iff.mp range
    cases type
  · rw [place, areaFind_of_mem known] at found
    cases found
    rw [stub] at carries
    cases carries

/-- A summary of a network in such an area is one that a range has asked for. -/
theorem asked_of_left (border : b.isAbr = true) {area : SumArea} (known : area ∈ b.areas)
    (shut : closed area = true) {e : Entry}
    (member : e ∈ ((lsaOriginateSummaryUpdate b st).sums area.areaId).list)
    (own : e.selfOriginated = true) (net : e.lsa.header.type = 3)
    (named : e.lsa.header.linkStateId ≠ 0) :
    ∃ r ∈ rangeRequests b (walkCosts b (fun _ => ospfMaxCost)), r.place = (area.areaId, e.key) := by
  have found : (lsaOriginateSummaryUpdate b st).find (area.areaId, e.key) = some e :=
    (own_eq_some ((lsaOriginateSummaryUpdate b st).sums area.areaId).first).mpr
      ⟨member, own, rfl⟩
  have asked : ∃ r ∈ requests b (received b st), r.place = (area.areaId, e.key) := by
    by_contra absent
    have unmarked := unmarked_update border (areaFind_of_mem known)
      (fun r asks place => absent ⟨r, asks, place⟩) found
    rw [Entry.marked, if_pos own] at unmarked
    simp only [Bool.not_eq_false', Bool.and_eq_true, decide_eq_true_eq] at unmarked
    exact named (by simpa using unmarked.1)
  obtain ⟨r, asks, place⟩ := asked
  have here : r.areaId = area.areaId := congrArg Prod.fst place
  have key : r.key = e.key := congrArg Prod.snd place
  rcases requests_cases asks with ⟨target, there, carries, _⟩ | range | ⟨_, _, _, router⟩
  · rw [here, areaFind_of_mem known] at there
    cases there
    rw [shut] at carries
    cases carries
  · exact ⟨r, range, place⟩
  · rw [key] at router
    cases net.symm.trans router

theorem left_of_asked (border : b.isAbr = true) {r : Request}
    (range : r ∈ rangeRequests b (walkCosts b (fun _ => ospfMaxCost))) :
    ∃ e ∈ ((lsaOriginateSummaryUpdate b st).sums r.areaId).list,
      e.selfOriginated = true ∧ e.key = r.key := by
  have asks : r ∈ requests b (received b st) := by
    unfold requests
    simp [range]
  have there := @find_performAll_isSome (markAreas b st) (requests b (received b st)) r.place
    (.inl ⟨r, asks, rfl⟩)
  obtain ⟨e, found⟩ := Option.isSome_iff_exists.mp there
  have kept : e.delFlag = false := kept_performAll (.inl ⟨r, asks, rfl⟩) e found
  have left : (lsaOriginateSummaryUpdate b st).find r.place = some e := by
    rw [find_update border, asked, found]
    cases areaFind b r.place.1 with
    | none => rfl
    | some area => simp [kept]
  obtain ⟨member, own, key⟩ :=
    (own_eq_some ((lsaOriginateSummaryUpdate b st).sums r.areaId).first).mp left
  exact ⟨e, member, own, key⟩

end Free

/-- A border router keeps such areas free of summaries unless a range leaks into one; any other
router leaves their lists as they were. -/
theorem summary_free_iff (b : Border) (st : St) :
    SummaryFree b (lsaOriginateSummaryUpdate b { st with log := [] }) ↔
      (b.isAbr = true → ¬ Leak b) ∧
      (b.isAbr = false → ∀ area ∈ b.areas, closed area = true →
        ∀ e ∈ (st.sums area.areaId).list, e.selfOriginated = true →
          e.lsa.header.type = 3 → e.lsa.header.linkStateId = 0) := by
  cases border : b.isAbr with
  | false =>
    have idle : lsaOriginateSummaryUpdate b { st with log := [] } = { st with log := [] } := by
      rw [lsaOriginateSummaryUpdate, if_pos (by simp [border])]
    rw [idle]
    constructor
    · intro free
      exact ⟨fun abr => absurd abr Bool.false_ne_true, fun _ => free.networks⟩
    · rintro ⟨_, before⟩
      refine ⟨before rfl, fun _ _ _ _ _ _ _ logged => ?_, fun _ _ _ _ logged => ?_⟩
      · cases logged
      · cases logged
  | true =>
    constructor
    · intro free
      refine ⟨fun _ leak => ?_, fun abr => absurd abr.symm Bool.false_ne_true⟩
      obtain ⟨r, range, named, area, found, shut⟩ := leak_iff.mp leak
      obtain ⟨known, here⟩ := mem_of_areaFind found
      obtain ⟨e, member, own, key⟩ := @left_of_asked b { st with log := [] } border r range
      obtain ⟨_, _, _, _, _, _, _, _, _, _, _, _, shape⟩ := mem_rangeRequests_iff.mp range
      have net : e.lsa.header.type = 3 :=
        (congrArg LsaKey.type key).trans (congrArg (fun r : Request => r.key.type) shape)
      have zero := free.networks area known shut e (by rw [here]; exact member) own net
      exact named ((congrArg LsaKey.linkStateId key).symm.trans zero)
    · rintro ⟨closes, _⟩
      have stubs : ∀ area ∈ b.areas, area.stub = true → ∀ lsa : OspfLsa,
          .originated area.areaId lsa ∈
            (lsaOriginateSummaryUpdate b { st with log := [] }).log → lsa.header.type ≠ 4 :=
        fun area known stub lsa logged => no_router_in_stub border known stub logged
      refine ⟨fun area known shut e member own net => ?_,
        fun area known shut e _ _ router logged => ?_, stubs⟩
      · by_contra named
        obtain ⟨r, range, place⟩ := asked_of_left border known shut member own net named
        refine closes rfl (leak_iff.mpr ⟨r, range, ?_, area, ?_, shut⟩)
        · have key : r.key = e.key := congrArg Prod.snd place
          rw [key]
          exact named
        · have here : r.areaId = area.areaId := congrArg Prod.fst place
          rw [here]
          exact areaFind_of_mem known
      · have stub : area.stub = true := ((Bool.and_eq_true _ _).mp shut).1
        exact stubs area known stub e.lsa logged router

/-- The area 1 has a route in a range; the area 2 is a stub area without summaries. -/
def rangedBorder : Border where
  isAbr := true
  areas := [⟨0, 0x01010101, false, false, 1, []⟩, ⟨1, 0x01010101, false, false, 1, []⟩,
    ⟨2, 0x01010101, true, true, 1, []⟩]
  nodup := by decide
  table := [[⟨0x0a010100, 0xffffff00, 10, 1, .ospf⟩]]
  rangeIsConfigured := true
  ospfRange := [⟨true, false, 1, 0x0a010000, 0xffff0000⟩]

/-- The range of the area 1 enters the stub area. -/
theorem range_enters_stub :
    ¬ SummaryFree rangedBorder
      (lsaOriginateSummaryUpdate rangedBorder { noSummaries with log := [] }) := by
  have held : ((lsaOriginateSummaryUpdate rangedBorder
      { noSummaries with log := [] }).sums 2).list.any (fun e => e.selfOriginated &&
        e.lsa.header.type = 3 && e.lsa.header.linkStateId = 0x0a010000) = true := by
    decide +kernel
  intro free
  obtain ⟨e, member, shape⟩ := List.any_eq_true.mp held
  simp only [Bool.and_eq_true, decide_eq_true_eq] at shape
  have zero := free.networks ⟨2, 0x01010101, true, true, 1, []⟩ (by simp [rangedBorder]) rfl e
    member shape.1.1 shape.1.2
  rw [shape.2] at zero
  cases zero

end StubSummaries
