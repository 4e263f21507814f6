import Mathlib.Data.List.Chain
import Mathlib.Data.List.Dedup
import Mathlib.Data.List.Perm.Subperm
import Rcp100.RouteTable

/-!
# One SPF cycle on one prefix

A cycle flags the routes of the previous calculation, offers the new ones and
sweeps what is still flagged. The table of this module holds a single prefix, so
every insertion is aligned and the tree can be read as the map of `RouteTable`.
-/

namespace RouteCycle

open BitPrefix IpAddress RouteEntry PatriciaTree RouteTable

/-- The array that the loop of `callback_clear` leaves: whatever follows a removed
route moves into its slot and is not looked at. -/
def sweep : List Rt → List Rt
  | [] => []
  | [r] => if r.delFlag then [] else [r]
  | r :: s :: rest => if r.delFlag then s :: sweep rest else r :: sweep (s :: rest)

variable {r : Rt} {l old : List Rt} {a : RouteArgs} {args : List RouteArgs} {n : NodeRoutes}
  {c ip : BitVec 32} {len : Nat}

theorem sweep_cons_fresh (fresh : r.delFlag = false) (rest : List Rt) :
    sweep (r :: rest) = r :: sweep rest := by
  cases rest with
  | nil => simp [sweep, fresh]
  | cons s rest => simp [sweep, fresh]

theorem clearLoop_eq_sweep (steps : Nat) (front rest : List Rt) (deleted : Bool)
    (effects : List Effect) (enough : rest.length ≤ steps) :
    (clearLoop steps front.length (front ++ rest) deleted effects).1 = front ++ sweep rest := by
  induction steps generalizing front rest deleted effects with
  | zero =>
    have hnil := List.eq_nil_of_length_eq_zero (Nat.le_zero.mp enough)
    simp [hnil, clearLoop, sweep]
  | succ steps ih =>
    cases rest with
    | nil => simp [clearLoop, sweep]
    | cons r rest =>
      have hget : (front ++ r :: rest)[front.length]? = some r := by simp
      have herase : (front ++ r :: rest).eraseIdx front.length = front ++ rest := by
        rw [List.eraseIdx_append_of_length_le (Nat.le_refl _)]
        simp
      simp only [List.length_cons, Nat.add_le_add_iff_right] at enough
      unfold clearLoop
      rw [hget]
      dsimp only
      cases flagged : r.delFlag with
      | true =>
        rw [if_pos rfl, herase]
        cases rest with
        | nil =>
          have past : (front ++ ([] : List Rt))[front.length + 1]? = none := by simp
          cases steps with
          | zero => simp [clearLoop, sweep, flagged]
          | succ steps => simp [clearLoop, sweep, flagged]
        | cons s rest =>
          have next := ih (front ++ [s]) rest true (effects ++ ecmpDel (front ++ r :: s :: rest))
            (Nat.le_of_succ_le enough)
          simpa [sweep, flagged] using next
      | false =>
        have next := ih (front ++ [r]) rest deleted effects enough
        rw [sweep_cons_fresh flagged]
        simpa using next

theorem callbackClear_rt (n : NodeRoutes) : (callbackClear n).1.rt = sweep n.rt :=
  clearLoop_eq_sweep ecmpLimit [] n.rt false [] n.bounded

theorem sweep_sublist (l : List Rt) : (sweep l).Sublist l := by
  induction l using sweep.induct with
  | case1 => exact List.Sublist.refl _
  | case2 r flagged => simp [sweep, flagged]
  | case3 r fresh => simp [sweep, fresh]
  | case4 r s rest flagged ih =>
    rw [sweep, if_pos flagged]
    exact (ih.cons_cons s).cons r
  | case5 r s rest fresh ih =>
    rw [sweep, if_neg fresh]
    exact ih.cons_cons r

theorem mem_sweep_of_fresh (member : r ∈ l) (fresh : r.delFlag = false) :
    r ∈ sweep l := by
  induction l using sweep.induct with
  | case1 => cases member
  | case2 x flagged =>
    rw [List.mem_singleton.mp member] at fresh
    exact False.elim (by simp [flagged] at fresh)
  | case3 x _ => simpa [sweep, List.mem_singleton.mp member] using fresh
  | case4 x s rest flagged ih =>
    rw [sweep, if_pos flagged]
    rcases List.mem_cons.mp member with rfl | later
    · exact False.elim (by simp [flagged] at fresh)
    · rcases List.mem_cons.mp later with rfl | later
      · exact List.mem_cons_self
      · exact List.mem_cons_of_mem _ (ih later)
  | case5 x s rest _ ih =>
    rename_i kept
    rw [sweep, if_neg kept]
    rcases List.mem_cons.mp member with rfl | later
    · exact List.mem_cons_self
    · exact List.mem_cons_of_mem _ (ih later)

theorem sweep_fresh (chain : l.IsChain (fun x y => x.delFlag = false ∨ y.delFlag = false))
    (member : r ∈ sweep l) : r.delFlag = false := by
  induction l using sweep.induct with
  | case1 => cases member
  | case2 x flagged => simp [sweep, flagged] at member
  | case3 x kept =>
    rw [sweep, if_neg kept, List.mem_singleton] at member
    simpa [member] using kept
  | case4 x s rest flagged ih =>
    rw [sweep, if_pos flagged] at member
    obtain ⟨pair, later⟩ := List.isChain_cons_cons.mp chain
    rcases List.mem_cons.mp member with rfl | member
    · exact pair.resolve_left (by simp [flagged])
    · exact ih later.tail member
  | case5 x s rest kept ih =>
    rw [sweep, if_neg kept] at member
    rcases List.mem_cons.mp member with rfl | member
    · simpa using kept
    · exact ih (List.isChain_cons_cons.mp chain).2 member

theorem length_sweep_lt (member : r ∈ l) (flagged : r.delFlag = true) :
    (sweep l).length < l.length := by
  induction l using sweep.induct with
  | case1 => cases member
  | case2 x hx => simp [sweep, hx]
  | case3 x kept =>
    rw [List.mem_singleton.mp member] at flagged
    exact False.elim (kept flagged)
  | case4 x s rest hx _ =>
    have shorter := (sweep_sublist rest).length_le
    rw [sweep, if_pos hx]
    simp only [List.length_cons]
    omega
  | case5 x s rest kept ih =>
    rw [sweep, if_neg kept]
    rcases List.mem_cons.mp member with rfl | later
    · exact False.elim (kept flagged)
    · exact Nat.succ_lt_succ (ih later)

/-- Next hop and type, which tell the routes of one prefix apart. -/
def pair (r : Rt) : BitVec 32 × RouteType := (r.gw, r.type)

def offerPair (a : RouteArgs) : BitVec 32 × RouteType := (a.gw, a.type)

/-- The offers at the minimum cost. -/
def cheapest (args : List RouteArgs) : List RouteArgs :=
  args.filter (fun a => args.all (fun b => a.cost ≤ b.cost))

def cheapestPairs (args : List RouteArgs) : List (BitVec 32 × RouteType) :=
  (cheapest args).map offerPair

/-- The array of the previous cycle stays in place: the first offer repeats one of
its routes and no offer is cheaper, or there is no offer at all. -/
def Kept (old : List Rt) : List RouteArgs → Prop
  | [] => True
  | first :: rest => (∃ r ∈ old, sameRoute first r = true) ∧ ∀ a ∈ rest, first.cost ≤ a.cost

theorem sameRoute_iff :
    sameRoute a r = true ↔ r.cost = a.cost ∧ pair r = offerPair a := by
  simp [sameRoute, pair, offerPair]
  tauto

theorem sameRoute_false (other : sameRoute a r = false)
    (cost : r.cost = a.cost) : pair r ≠ offerPair a := by
  intro same
  rw [sameRoute_iff.mpr ⟨cost, same⟩] at other
  cases other

theorem mem_cheapest :
    a ∈ cheapest args ↔ a ∈ args ∧ ∀ b ∈ args, a.cost ≤ b.cost := by
  simp [cheapest]

theorem Kept.append {done : List RouteArgs} {b : RouteArgs}
    (kept : Kept old done) (member : b ∈ done) (cost : b.cost ≤ a.cost) :
    Kept old (done ++ [a]) := by
  cases done with
  | nil => cases member
  | cons first rest =>
    refine ⟨kept.1, ?_⟩
    intro x hx
    rcases List.mem_append.mp hx with early | last
    · exact kept.2 x early
    · rw [List.mem_singleton.mp last]
      rcases List.mem_cons.mp member with rfl | later
      · exact cost
      · exact BitVec.le_trans (kept.2 b later) cost

/-- What every sequence of offers, flags and sweeps keeps of the array. -/
structure Tidy (rt : List Rt) : Prop where
  uniform : ∀ r ∈ rt, ∀ s ∈ rt, r.cost = s.cost
  distinct : (rt.map pair).Nodup

theorem Tidy.sublist {l' : List Rt} (tidy : Tidy l) (sub : l'.Sublist l) : Tidy l' :=
  ⟨fun r hr s hs => tidy.uniform r (sub.subset hr) s (sub.subset hs),
    tidy.distinct.sublist (sub.map pair)⟩

theorem tidy_singleton (r : Rt) : Tidy [r] := by
  refine ⟨?_, List.nodup_singleton _⟩
  intro x hx y hy
  rw [List.mem_singleton.mp hx, List.mem_singleton.mp hy]

/-- The visit of a route, as a change of the whole array. -/
def touch (a : RouteArgs) (r : Rt) : Rt := if pair r = offerPair a then visit r else r

@[simp] theorem touch_cost (a : RouteArgs) (r : Rt) : (touch a r).cost = r.cost := by
  unfold touch
  split <;> rfl

@[simp] theorem pair_touch (a : RouteArgs) (r : Rt) : pair (touch a r) = pair r := by
  unfold touch
  split <;> rfl

theorem touch_delFlag (a : RouteArgs) (r : Rt) :
    (touch a r).delFlag = true ↔ pair r ≠ offerPair a ∧ r.delFlag = true := by
  unfold touch
  split <;> simp_all [visit]

theorem map_pair_touch (a : RouteArgs) (l : List Rt) :
    (l.map (touch a)).map pair = l.map pair := by
  simp [List.map_map, Function.comp_def]

theorem modify_eq_map_touch {i : Nat}
    (distinct : (l.map pair).Nodup) (found : l.findIdx? (sameRoute a) = some i) :
    l.modify i visit = l.map (touch a) ∧ ∃ r ∈ l, sameRoute a r = true := by
  obtain ⟨hi, hsame, _⟩ := List.findIdx?_eq_some_iff_getElem.mp found
  obtain ⟨front, x, rest, hl, hlen, hmod⟩ := List.exists_of_modify visit hi
  have hx : l[i] = x := by
    subst hlen
    simp [hl]
  rw [hx] at hsame
  refine ⟨?_, x, by simp [hl], hsame⟩
  have hpair := (sameRoute_iff.mp hsame).2
  rw [hl, List.map_append, List.map_cons, List.nodup_append] at distinct
  obtain ⟨_, hrest, hfront⟩ := distinct
  have before : ∀ r ∈ front, touch a r = r := by
    intro r hr
    have other := hfront (pair r) (List.mem_map_of_mem hr) (pair x) List.mem_cons_self
    simp [touch, ← hpair, other]
  have after : ∀ r ∈ rest, touch a r = r := by
    intro r hr
    have other : pair r ≠ pair x := by
      intro same
      exact (List.nodup_cons.mp hrest).1 (same ▸ List.mem_map_of_mem hr)
    simp [touch, ← hpair, other]
  rw [hmod, hl, List.map_append, List.map_cons, List.map_congr_left before,
    List.map_congr_left after]
  simp [touch, hpair]

theorem tidy_map_touch (tidy : Tidy l) (a : RouteArgs) : Tidy (l.map (touch a)) := by
  refine ⟨?_, (map_pair_touch a l).symm ▸ tidy.distinct⟩
  intro r hr s hs
  obtain ⟨r', hr', rfl⟩ := List.mem_map.mp hr
  obtain ⟨s', hs', rfl⟩ := List.mem_map.mp hs
  simpa using tidy.uniform r' hr' s' hs'

theorem map_pair_mark (l : List Rt) : (l.map mark).map pair = l.map pair := by
  rw [List.map_map]
  rfl

theorem tidy_map_mark (tidy : Tidy l) : Tidy (l.map mark) := by
  refine ⟨?_, (map_pair_mark l).symm ▸ tidy.distinct⟩
  intro r hr s hs
  obtain ⟨r', hr', rfl⟩ := List.mem_map.mp hr
  obtain ⟨s', hs', rfl⟩ := List.mem_map.mp hs
  exact tidy.uniform r' hr' s' hs'

theorem tidy_append (tidy : Tidy l) {first : Rt} (head : first ∈ l)
    (cost : r.cost = first.cost) (other : ∀ x ∈ l, pair x ≠ pair r) : Tidy (l ++ [r]) := by
  have all : ∀ x ∈ l ++ [r], x.cost = first.cost := by
    intro x hx
    rcases List.mem_append.mp hx with early | last
    · exact tidy.uniform x early first head
    · rw [List.mem_singleton.mp last, cost]
  refine ⟨fun x hx y hy => (all x hx).trans (all y hy).symm, ?_⟩
  rw [List.map_append, List.nodup_append]
  refine ⟨tidy.distinct, List.nodup_singleton _, ?_⟩
  intro p hp q hq
  obtain ⟨x, hx, rfl⟩ := List.mem_map.mp hp
  rw [List.mem_singleton.mp hq]
  exact other x hx

theorem Tidy.offer {e2Cost : BitVec 32} {n' : NodeRoutes} (tidy : Tidy n.rt)
    (offer : Offer e2Cost a n n') : Tidy n'.rt := by
  cases offer with
  | configure _ rt => exact rt ▸ tidy_singleton _
  | refresh i found rt =>
    rw [rt, (modify_eq_map_touch tidy.distinct found).1]
    exact tidy_map_touch tidy a
  | replaceStale _ _ _ rt => exact rt ▸ tidy_singleton _
  | append first head absent _ cost _ rt =>
    have member := List.mem_of_mem_head? head
    rw [rt]
    refine tidy_append tidy member cost.symm ?_
    intro x hx
    exact sameRoute_false (absent x hx) ((tidy.uniform x hx first member).trans cost)
  | refuse _ _ _ _ _ _ rt => exact rt ▸ tidy
  | replaceWorse _ _ _ _ _ rt => exact rt ▸ tidy_singleton _
  | ignore _ _ _ _ _ rt => exact rt ▸ tidy

/-- The array `n` after the offers `done` of a cycle that began with the routes
`old`; `c` is the least cost offered so far. -/
structure Progress (old : List Rt) (done : List RouteArgs) (n : NodeRoutes) (c : BitVec 32) :
    Prop where
  least : ∀ a ∈ done, c ≤ a.cost
  uniform : ∀ r ∈ n.rt, r.cost = c
  distinct : (n.rt.map pair).Nodup
  fresh : ∃ r ∈ n.rt, r.delFlag = false
  visited : ∀ r ∈ n.rt, r.delFlag = false → ∃ a ∈ done, a.cost = c ∧ offerPair a = pair r
  stale : ∀ r ∈ n.rt, r.delFlag = true → ∀ a ∈ done, a.cost = c → offerPair a ≠ pair r
  covered : ∀ a ∈ done, a.cost = c →
    offerPair a ∈ n.rt.map pair ∨ n.rt.length = ecmpLimit ∧ n.retryEcmp = true
  origin : (∀ r ∈ n.rt, r.delFlag = false) ∨ Kept old done ∧ ∃ olds news, n.rt = olds ++ news ∧
    olds.map pair = old.map pair ∧ ∀ r ∈ news, r.delFlag = false

namespace Progress

variable {old : List Rt} {done : List RouteArgs} {n n' : NodeRoutes} {c e2Cost : BitVec 32}
  {a : RouteArgs}

section

variable (progress : Progress old done n c)

include progress

theorem tidy : Tidy n.rt :=
  ⟨fun r hr s hs => (progress.uniform r hr).trans (progress.uniform s hs).symm,
    progress.distinct⟩

theorem attained : ∃ b ∈ done, b.cost = c := by
  obtain ⟨r, hr, fresh⟩ := progress.fresh
  obtain ⟨b, hb, hcost, _⟩ := progress.visited r hr fresh
  exact ⟨b, hb, hcost⟩

theorem least_append (bound : c ≤ a.cost) :
    ∀ b ∈ done ++ [a], c ≤ b.cost := by
  intro b hb
  rcases List.mem_append.mp hb with early | last
  · exact progress.least b early
  · rw [List.mem_singleton.mp last]
    exact bound

theorem visited_append (a : RouteArgs) {r : Rt} (hr : r ∈ n.rt)
    (fresh : r.delFlag = false) : ∃ b ∈ done ++ [a], b.cost = c ∧ offerPair b = pair r := by
  obtain ⟨b, hb, hcost, heq⟩ := progress.visited r hr fresh
  exact ⟨b, List.mem_append_left _ hb, hcost, heq⟩

theorem kept_append (kept : Kept old done) (bound : c ≤ a.cost) : Kept old (done ++ [a]) := by
  obtain ⟨b, hb, hcost⟩ := progress.attained
  exact kept.append hb (hcost ▸ bound)

end

theorem single (rt : n'.rt = [newRt e2Cost (withMasklen a)])
    (dearer : ∀ b ∈ done, a.cost < b.cost) : Progress old (done ++ [a]) n' a.cost := by
  have only : ∀ b ∈ done ++ [a], b.cost = a.cost → b = a := by
    intro b hb heq
    rcases List.mem_append.mp hb with early | last
    · have := dearer b early
      bv_omega
    · exact List.mem_singleton.mp last
  have self : a ∈ done ++ [a] := by simp
  constructor
  · intro b hb
    rcases List.mem_append.mp hb with early | last
    · exact BitVec.le_of_lt (dearer b early)
    · rw [List.mem_singleton.mp last]
      exact BitVec.le_refl _
  · simp [rt, newRt, withMasklen]
  · simp [rt]
  · exact ⟨newRt e2Cost (withMasklen a), by simp [rt], rfl⟩
  · intro r hr _
    refine ⟨a, self, rfl, ?_⟩
    rw [rt, List.mem_singleton] at hr
    rw [hr]
    rfl
  · intro r hr flagged
    rw [rt, List.mem_singleton] at hr
    rw [hr] at flagged
    cases flagged
  · intro b hb heq
    rw [only b hb heq, rt]
    exact Or.inl (List.mem_singleton.mpr rfl)
  · left
    intro r hr
    rw [rt, List.mem_singleton] at hr
    rw [hr]
    rfl

section

variable (progress : Progress old done n c)

include progress

theorem refresh (cost : a.cost = c)
    (rt : n'.rt = n.rt.map (touch a)) (retry : n'.retryEcmp = n.retryEcmp)
    (found : ∃ r ∈ n.rt, sameRoute a r = true) : Progress old (done ++ [a]) n' c := by
  have bound : c ≤ a.cost := cost ▸ BitVec.le_refl _
  have pairs : n'.rt.map pair = n.rt.map pair := by
    rw [rt, map_pair_touch]
  have untouched : ∀ r ∈ n'.rt, r.delFlag = true → r ∈ n.rt ∧ pair r ≠ offerPair a := by
    intro r hr flagged
    rw [rt] at hr
    obtain ⟨x, hx, rfl⟩ := List.mem_map.mp hr
    obtain ⟨other, _⟩ := (touch_delFlag a x).mp flagged
    simp only [touch, if_neg other]
    exact ⟨hx, other⟩
  obtain ⟨x, hx, same⟩ := found
  obtain ⟨_, hpair⟩ := sameRoute_iff.mp same
  constructor
  · exact progress.least_append bound
  · intro r hr
    rw [rt] at hr
    obtain ⟨y, hy, rfl⟩ := List.mem_map.mp hr
    rw [touch_cost]
    exact progress.uniform y hy
  · rw [pairs]
    exact progress.distinct
  · refine ⟨touch a x, rt ▸ List.mem_map_of_mem hx, ?_⟩
    simp [touch, hpair, visit]
  · intro r hr fresh
    rw [rt] at hr
    obtain ⟨y, hy, rfl⟩ := List.mem_map.mp hr
    rw [pair_touch]
    by_cases here : pair y = offerPair a
    · exact ⟨a, by simp, cost, here.symm⟩
    · simp only [touch, if_neg here] at fresh
      exact progress.visited_append a hy fresh
  · intro r hr flagged b hb hcost
    obtain ⟨member, other⟩ := untouched r hr flagged
    rcases List.mem_append.mp hb with early | last
    · exact progress.stale r member flagged b early hcost
    · rw [List.mem_singleton.mp last]
      exact other.symm
  · intro b hb hcost
    rw [pairs, retry, ← List.length_map pair, pairs, List.length_map]
    rcases List.mem_append.mp hb with early | last
    · exact progress.covered b early hcost
    · rw [List.mem_singleton.mp last, ← hpair]
      exact Or.inl (List.mem_map_of_mem hx)
  · rcases progress.origin with allFresh | ⟨kept, olds, news, hrt, hold, hnews⟩
    · left
      intro r hr
      cases flagged : r.delFlag with
      | false => rfl
      | true =>
        rw [← flagged]
        exact allFresh r (untouched r hr flagged).1
    · right
      refine ⟨progress.kept_append kept bound, olds.map (touch a),
        news.map (touch a), by rw [rt, hrt, List.map_append], by rw [map_pair_touch, hold], ?_⟩
      intro r hr
      obtain ⟨y, hy, rfl⟩ := List.mem_map.mp hr
      have := hnews y hy
      unfold touch
      split
      · rfl
      · exact this

/-- An offer that leaves the array as it is: dearer, or refused for lack of room. -/
theorem skip (rt : n'.rt = n.rt)
    (retry : n.retryEcmp = true → n'.retryEcmp = true)
    (reason : c < a.cost ∨ a.cost = c ∧ (∀ x ∈ n.rt, sameRoute a x = false) ∧
      n.rt.length = ecmpLimit ∧ n'.retryEcmp = true) :
    Progress old (done ++ [a]) n' c := by
  have bound : c ≤ a.cost := by
    rcases reason with dearer | ⟨equal, _⟩
    · exact BitVec.le_of_lt dearer
    · rw [equal]
      exact BitVec.le_refl _
  constructor
  · exact progress.least_append bound
  · rw [rt]
    exact progress.uniform
  · rw [rt]
    exact progress.distinct
  · rw [rt]
    exact progress.fresh
  · intro r hr fresh
    rw [rt] at hr
    exact progress.visited_append a hr fresh
  · intro r hr flagged b hb hcost
    rw [rt] at hr
    rcases List.mem_append.mp hb with early | last
    · exact progress.stale r hr flagged b early hcost
    · rw [List.mem_singleton.mp last] at hcost ⊢
      rcases reason with dearer | ⟨_, absent, _⟩
      · bv_omega
      · exact (sameRoute_false (absent r hr) ((progress.uniform r hr).trans hcost.symm)).symm
  · intro b hb hcost
    rw [rt]
    rcases List.mem_append.mp hb with early | last
    · rcases progress.covered b early hcost with present | ⟨full, again⟩
      · exact Or.inl present
      · exact Or.inr ⟨full, retry again⟩
    · rw [List.mem_singleton.mp last] at hcost
      rcases reason with dearer | ⟨_, _, full, again⟩
      · bv_omega
      · exact Or.inr ⟨full, again⟩
  · rw [rt]
    rcases progress.origin with allFresh | ⟨kept, shape⟩
    · exact Or.inl allFresh
    · exact Or.inr ⟨progress.kept_append kept bound, shape⟩

theorem extend (cost : a.cost = c)
    (absent : ∀ x ∈ n.rt, sameRoute a x = false) (room : n.rt.length < ecmpLimit)
    (rt : n'.rt = n.rt ++ [newRt e2Cost (withMasklen a)]) :
    Progress old (done ++ [a]) n' c := by
  have bound : c ≤ a.cost := cost ▸ BitVec.le_refl _
  have other : ∀ x ∈ n.rt, pair x ≠ offerPair a := fun x hx =>
    sameRoute_false (absent x hx) ((progress.uniform x hx).trans cost.symm)
  have split : ∀ r ∈ n'.rt, r ∈ n.rt ∨ r = newRt e2Cost (withMasklen a) := by
    intro r hr
    rw [rt] at hr
    simpa using hr
  obtain ⟨x, hx, hfresh⟩ := progress.fresh
  have tidy : Tidy n'.rt := by
    rw [rt]
    exact tidy_append progress.tidy hx (cost.trans (progress.uniform x hx).symm) other
  constructor
  · exact progress.least_append bound
  · intro r hr
    rcases split r hr with early | rfl
    · exact progress.uniform r early
    · exact cost
  · exact tidy.distinct
  · exact ⟨x, by simp [rt, hx], hfresh⟩
  · intro r hr fresh
    rcases split r hr with early | rfl
    · exact progress.visited_append a early fresh
    · exact ⟨a, by simp, cost, rfl⟩
  · intro r hr flagged b hb hcost
    rcases split r hr with early | rfl
    · rcases List.mem_append.mp hb with before | last
      · exact progress.stale r early flagged b before hcost
      · rw [List.mem_singleton.mp last]
        exact (other r early).symm
    · cases flagged
  · intro b hb hcost
    left
    rw [rt, List.map_append, List.mem_append]
    rcases List.mem_append.mp hb with early | last
    · rcases progress.covered b early hcost with present | ⟨full, _⟩
      · exact Or.inl present
      · omega
    · rw [List.mem_singleton.mp last]
      exact Or.inr (List.mem_singleton.mpr rfl)
  · rcases progress.origin with allFresh | ⟨kept, olds, news, hrt, hold, hnews⟩
    · left
      intro r hr
      rcases split r hr with early | rfl
      · exact allFresh r early
      · rfl
    · right
      refine ⟨progress.kept_append kept bound, olds,
        news ++ [newRt e2Cost (withMasklen a)], by rw [rt, hrt, List.append_assoc], hold, ?_⟩
      intro r hr
      rcases List.mem_append.mp hr with early | last
      · exact hnews r early
      · rw [List.mem_singleton.mp last]
        rfl

theorem offer
    (offer : Offer e2Cost (withMasklen a) n n') : ∃ c', Progress old (done ++ [a]) n' c' := by
  have hcost : ∀ {first : Rt}, n.rt.head? = some first → first.cost = c := fun head =>
    progress.uniform _ (List.mem_of_mem_head? head)
  obtain ⟨x, hx, hfresh⟩ := progress.fresh
  cases offer with
  | configure none _ =>
    rw [none] at hx
    cases hx
  | refresh i found rt retry =>
    obtain ⟨hmap, y, hy, same⟩ := modify_eq_map_touch progress.distinct found
    have cost := (sameRoute_iff.mp same).1.symm.trans (progress.uniform y hy)
    exact ⟨c, progress.refresh cost (rt.trans hmap) retry ⟨y, hy, same⟩⟩
  | replaceStale _ _ stale _ =>
    rw [stale x hx] at hfresh
    cases hfresh
  | append first head absent _ cost room rt =>
    exact ⟨c, progress.extend (cost.symm.trans (hcost head)) absent room rt⟩
  | refuse first head absent _ cost full rt retry =>
    exact ⟨c, progress.skip rt (fun _ => retry)
      (Or.inr ⟨cost.symm.trans (hcost head), absent, full, retry⟩)⟩
  | replaceWorse first head _ _ cost rt =>
    refine ⟨a.cost, single rt ?_⟩
    intro b hb
    have lower : a.cost < c := hcost head ▸ cost
    have bound := progress.least b hb
    bv_omega
  | ignore first head _ _ cost rt retry =>
    rw [hcost head] at cost
    exact ⟨c, progress.skip rt (fun h => retry.trans h) (Or.inl cost)⟩

end

end Progress

theorem callbackInit_flagged (member : r ∈ (callbackInit n).rt) :
    r.delFlag = true := by
  obtain ⟨x, _, rfl⟩ := List.mem_map.mp member
  rfl

theorem first_offer {n' : NodeRoutes} {e2Cost : BitVec 32} (tidy : Tidy n.rt)
    (offer : Offer e2Cost (withMasklen a) (callbackInit n) n') : Progress n.rt [a] n' a.cost := by
  have lone : ∀ {m : NodeRoutes}, m.rt = [newRt e2Cost (withMasklen a)] →
      Progress n.rt ([] ++ [a]) m a.cost := fun rt =>
    Progress.single rt (fun b hb => by cases hb)
  have stale : ¬ ∃ x ∈ (callbackInit n).rt, x.delFlag = false := by
    rintro ⟨x, hx, hfresh⟩
    rw [callbackInit_flagged hx] at hfresh
    cases hfresh
  have tidy' : Tidy (callbackInit n).rt := tidy_map_mark tidy
  cases offer with
  | configure _ rt => exact lone rt
  | refresh i found rt retry =>
    obtain ⟨hmap, y, hy, same⟩ := modify_eq_map_touch tidy'.distinct found
    obtain ⟨hcost, hpair⟩ := sameRoute_iff.mp same
    have hrt : n'.rt = (callbackInit n).rt.map (touch (withMasklen a)) := rt.trans hmap
    have after : Tidy n'.rt := hrt ▸ tidy_map_touch tidy' _
    have here : touch (withMasklen a) y ∈ n'.rt := hrt ▸ List.mem_map_of_mem hy
    have flag : (touch (withMasklen a) y).delFlag = false := by
      simp [touch, hpair, visit]
    constructor
    · intro b hb
      rw [List.mem_singleton.mp hb]
      exact BitVec.le_refl _
    · intro r hr
      rw [after.uniform r hr _ here, touch_cost]
      exact hcost
    · exact after.distinct
    · exact ⟨_, here, flag⟩
    · intro r hr fresh
      refine ⟨a, List.mem_singleton.mpr rfl, rfl, ?_⟩
      rw [hrt] at hr
      obtain ⟨z, hz, rfl⟩ := List.mem_map.mp hr
      by_cases other : pair z = offerPair (withMasklen a)
      · rw [pair_touch, other]
        rfl
      · have flagged := (touch_delFlag (withMasklen a) z).mpr ⟨other, callbackInit_flagged hz⟩
        rw [flagged] at fresh
        cases fresh
    · intro r hr flagged b hb _
      rw [List.mem_singleton.mp hb]
      rw [hrt] at hr
      obtain ⟨z, hz, rfl⟩ := List.mem_map.mp hr
      rw [pair_touch]
      exact ((touch_delFlag _ _).mp flagged).1.symm
    · intro b hb _
      rw [List.mem_singleton.mp hb]
      refine Or.inl (List.mem_map.mpr ⟨_, here, ?_⟩)
      rw [pair_touch, hpair]
      rfl
    · obtain ⟨x, hx, rfl⟩ := List.mem_map.mp hy
      refine Or.inr ⟨⟨⟨x, hx, same⟩, fun b hb => by cases hb⟩, n'.rt, [], by simp, ?_, by simp⟩
      rw [hrt, map_pair_touch]
      exact map_pair_mark n.rt
  | replaceStale _ _ _ rt => exact lone rt
  | append _ _ _ fresh => exact False.elim (stale fresh)
  | refuse _ _ _ fresh => exact False.elim (stale fresh)
  | replaceWorse _ _ _ fresh => exact False.elim (stale fresh)
  | ignore _ _ _ fresh => exact False.elim (stale fresh)

/-- Successive offers, each with the external cost in force when it is made. -/
inductive Offers : List RouteArgs → NodeRoutes → NodeRoutes → Prop where
  | nil {n : NodeRoutes} : Offers [] n n
  | cons {e2Cost : BitVec 32} {a : RouteArgs} {args : List RouteArgs} {n m r : NodeRoutes}
      (first : Offer e2Cost (withMasklen a) n m) (rest : Offers args m r) : Offers (a :: args) n r

theorem Progress.offers {done : List RouteArgs} {r : NodeRoutes}
    (progress : Progress old done n c) (offers : Offers args n r) :
    ∃ c', Progress old (done ++ args) r c' := by
  induction offers generalizing done c with
  | nil => exact ⟨c, by simpa using progress⟩
  | cons first _ ih =>
    obtain ⟨c', next⟩ := progress.offer first
    obtain ⟨c'', final⟩ := ih next
    exact ⟨c'', by simpa using final⟩

/-- What a cycle makes of the routes `old` of a prefix, for the offers `args`. -/
structure CycleResult (old : List Rt) (args : List RouteArgs) (entries : List Rt)
    (effects : List Effect) : Prop where
  installed : ∀ a ∈ cheapest args,
    (∃ r ∈ entries, pair r = offerPair a ∧ r.cost = a.cost) ∨ Effect.spfTrigger ∈ effects
  complete : (Kept old args → (old.map pair ++ cheapestPairs args).dedup.length ≤ ecmpLimit) →
    ∀ a ∈ cheapest args, ∃ r ∈ entries, pair r = offerPair a ∧ r.cost = a.cost
  sound : (Kept old args → (old.map pair).IsChain
      (fun p q => p ∈ cheapestPairs args ∨ q ∈ cheapestPairs args)) →
    ∀ r ∈ entries, ∃ a ∈ cheapest args, offerPair a = pair r ∧ a.cost = r.cost
  distinct : (entries.map pair).Nodup

theorem Progress.mem_cheapest_iff (progress : Progress old args n c) :
    a ∈ cheapest args ↔ a ∈ args ∧ a.cost = c := by
  rw [mem_cheapest]
  constructor
  · rintro ⟨member, least⟩
    obtain ⟨b, hb, hbc⟩ := progress.attained
    have lower := progress.least a member
    have upper := least b hb
    refine ⟨member, ?_⟩
    bv_omega
  · rintro ⟨member, rfl⟩
    exact ⟨member, progress.least⟩

theorem Progress.fresh_mem_cheapestPairs (progress : Progress old args n c) (member : r ∈ n.rt)
    (fresh : r.delFlag = false) : pair r ∈ cheapestPairs args := by
  obtain ⟨a, ha, hcost, heq⟩ := progress.visited r member fresh
  exact List.mem_map.mpr ⟨a, progress.mem_cheapest_iff.mpr ⟨ha, hcost⟩, heq⟩

theorem no_room {rt : List Rt} {p : BitVec 32 × RouteType} {l : List (BitVec 32 × RouteType)}
    (distinct : (rt.map pair).Nodup) (full : rt.length = ecmpLimit) (outside : p ∉ rt.map pair)
    (inside : ∀ q ∈ p :: rt.map pair, q ∈ l) (few : l.dedup.length ≤ ecmpLimit) : False := by
  have nodup : (p :: rt.map pair).Nodup := List.nodup_cons.mpr ⟨outside, distinct⟩
  have sub : p :: rt.map pair ⊆ l.dedup := fun q hq => List.mem_dedup.mpr (inside q hq)
  have fits := (nodup.subperm sub).length_le
  simp only [List.length_cons, List.length_map] at fits
  omega

theorem spfTrigger_mem (retry : n.retryEcmp = true)
    (room : (sweep n.rt).length < ecmpLimit) : Effect.spfTrigger ∈ (callbackClear n).2 := by
  have hrt := callbackClear_rt n
  simp only [callbackClear] at hrt ⊢
  rw [hrt, retry]
  simp [room]

section Final

variable {old : List Rt} {args : List RouteArgs} {n : NodeRoutes} {c : BitVec 32}
  (progress : Progress old args n c)

include progress

variable {a : RouteArgs}

theorem missing_waits (member : a ∈ args) (cost : a.cost = c)
    (few : (cheapestPairs args).dedup.length ≤ ecmpLimit) (missing : offerPair a ∉ n.rt.map pair) :
    n.rt.length = ecmpLimit ∧ n.retryEcmp = true ∧ ∃ r ∈ n.rt, r.delFlag = true := by
  obtain ⟨full, retry⟩ := (progress.covered a member cost).resolve_left missing
  refine ⟨full, retry, ?_⟩
  by_contra allFresh
  refine no_room progress.distinct full missing ?_ few
  intro q hq
  rcases List.mem_cons.mp hq with rfl | hq
  · exact List.mem_map_of_mem (progress.mem_cheapest_iff.mpr ⟨member, cost⟩)
  · obtain ⟨r, hr, rfl⟩ := List.mem_map.mp hq
    refine progress.fresh_mem_cheapestPairs hr ?_
    cases flagged : r.delFlag with
    | false => rfl
    | true => exact False.elim (allFresh ⟨r, hr, flagged⟩)

theorem present_survives (member : a ∈ args) (cost : a.cost = c)
    (present : offerPair a ∈ n.rt.map pair) :
    ∃ r ∈ sweep n.rt, pair r = offerPair a ∧ r.cost = a.cost := by
  obtain ⟨r, hr, heq⟩ := List.mem_map.mp present
  refine ⟨r, ?_, heq, (progress.uniform r hr).trans cost.symm⟩
  refine mem_sweep_of_fresh hr ?_
  cases flagged : r.delFlag with
  | false => rfl
  | true => exact False.elim (progress.stale r hr flagged a member cost heq.symm)

theorem kept_of_flagged {r : Rt} (member : r ∈ n.rt) (flagged : r.delFlag = true) :
    Kept old args ∧ ∃ olds news, n.rt = olds ++ news ∧ olds.map pair = old.map pair ∧
      ∀ r ∈ news, r.delFlag = false := by
  refine progress.origin.resolve_left ?_
  intro allFresh
  rw [allFresh r member] at flagged
  cases flagged

theorem sweep_complete (few : (cheapestPairs args).dedup.length ≤ ecmpLimit)
    (fits : Kept old args → (old.map pair ++ cheapestPairs args).dedup.length ≤ ecmpLimit)
    (member : a ∈ args) (cost : a.cost = c) :
    ∃ r ∈ sweep n.rt, pair r = offerPair a ∧ r.cost = a.cost := by
  by_cases present : offerPair a ∈ n.rt.map pair
  · exact present_survives progress member cost present
  · obtain ⟨full, _, r, hr, flagged⟩ := missing_waits progress member cost few present
    obtain ⟨kept, olds, news, hrt, hold, hnews⟩ := kept_of_flagged progress hr flagged
    refine False.elim (no_room progress.distinct full present ?_ (fits kept))
    intro q hq
    rw [List.mem_append]
    rcases List.mem_cons.mp hq with rfl | hq
    · exact Or.inr (List.mem_map_of_mem (progress.mem_cheapest_iff.mpr ⟨member, cost⟩))
    · obtain ⟨x, hx, rfl⟩ := List.mem_map.mp hq
      rw [hrt, List.mem_append] at hx
      rcases hx with early | late
      · exact Or.inl (hold ▸ List.mem_map_of_mem early)
      · refine Or.inr (progress.fresh_mem_cheapestPairs ?_ (hnews x late))
        rw [hrt]
        exact List.mem_append_right _ late

/-- Flagged routes stand apart when the old routes that were not offered do. -/
theorem flagged_apart (apart : Kept old args → (old.map pair).IsChain
      (fun p q => p ∈ cheapestPairs args ∨ q ∈ cheapestPairs args)) :
    n.rt.IsChain (fun x y => x.delFlag = false ∨ y.delFlag = false) := by
  have offered : ∀ x ∈ n.rt, pair x ∈ cheapestPairs args → x.delFlag = false := by
    intro x hx hpair
    obtain ⟨a, ha, heq⟩ := List.mem_map.mp hpair
    obtain ⟨member, cost⟩ := progress.mem_cheapest_iff.mp ha
    cases flagged : x.delFlag with
    | false => rfl
    | true => exact False.elim (progress.stale x hx flagged a member cost heq)
  have isChain_fresh : ∀ {l : List Rt}, (∀ r ∈ l, r.delFlag = false) →
      l.IsChain (fun x y => x.delFlag = false ∨ y.delFlag = false) := fun {l} fresh =>
    (List.pairwise_iff_forall_sublist.mpr (fun {x y} sub =>
      Or.inl (fresh x (sub.subset List.mem_cons_self)))).isChain
  rcases progress.origin with allFresh | ⟨kept, olds, news, hrt, hold, hnews⟩
  · exact isChain_fresh allFresh
  · have front := (List.isChain_map pair).mp (hold ▸ apart kept)
    rw [hrt, List.isChain_append]
    refine ⟨front.imp_of_mem_imp ?_, isChain_fresh hnews, ?_⟩
    · intro x y hx hy either
      exact either.imp (offered x (hrt ▸ List.mem_append_left _ hx))
        (offered y (hrt ▸ List.mem_append_left _ hy))
    · intro x _ y hy
      exact Or.inr (hnews y (List.mem_of_mem_head? hy))

theorem sweep_sound (apart : Kept old args → (old.map pair).IsChain
      (fun p q => p ∈ cheapestPairs args ∨ q ∈ cheapestPairs args)) {r : Rt}
    (member : r ∈ sweep n.rt) : ∃ a ∈ cheapest args, offerPair a = pair r ∧ a.cost = r.cost := by
  have here := (sweep_sublist n.rt).subset member
  have fresh := sweep_fresh (flagged_apart progress apart) member
  obtain ⟨a, ha, hcost, heq⟩ := progress.visited r here fresh
  exact ⟨a, progress.mem_cheapest_iff.mpr ⟨ha, hcost⟩, heq,
    hcost.trans (progress.uniform r here).symm⟩

theorem progress_result (few : (cheapestPairs args).dedup.length ≤ ecmpLimit) :
    CycleResult old args (sweep n.rt) (callbackClear n).2 := by
  refine ⟨?_, ?_, fun apart r hr => sweep_sound progress apart hr,
    progress.distinct.sublist ((sweep_sublist n.rt).map pair)⟩
  · intro a ha
    obtain ⟨member, cost⟩ := progress.mem_cheapest_iff.mp ha
    by_cases present : offerPair a ∈ n.rt.map pair
    · exact Or.inl (present_survives progress member cost present)
    · obtain ⟨full, retry, r, hr, flagged⟩ := missing_waits progress member cost few present
      exact Or.inr (spfTrigger_mem retry (full ▸ length_sweep_lt hr flagged))
  · intro fits a ha
    obtain ⟨member, cost⟩ := progress.mem_cheapest_iff.mp ha
    exact sweep_complete progress few fits member cost

end Final

theorem no_offer_result (tidy : Tidy n.rt) :
    CycleResult n.rt [] (sweep (callbackInit n).rt) (callbackClear (callbackInit n)).2 := by
  constructor
  · intro a ha
    cases ha
  · intro _ a ha
    cases ha
  · intro apart r hr
    have chain : (callbackInit n).rt.IsChain
        (fun x y => x.delFlag = false ∨ y.delFlag = false) := by
      have alone := apart trivial
      cases hrt : n.rt with
      | nil => simp [callbackInit, hrt]
      | cons x rest =>
        cases rest with
        | nil => simp [callbackInit, hrt]
        | cons y rest => simp [hrt, cheapestPairs, cheapest] at alone
    have fresh := sweep_fresh chain hr
    rw [callbackInit_flagged ((sweep_sublist _).subset hr)] at fresh
    cases fresh
  · exact ((tidy_map_mark tidy).sublist (sweep_sublist _)).distinct

theorem offers_result {r : NodeRoutes} (tidy : Tidy n.rt)
    (offers : Offers args (callbackInit n) r)
    (few : (cheapestPairs args).dedup.length ≤ ecmpLimit) :
    CycleResult n.rt args (callbackClear r).1.rt (callbackClear r).2 := by
  rw [callbackClear_rt]
  cases offers with
  | nil => exact no_offer_result tidy
  | cons first rest =>
    obtain ⟨c, progress⟩ := (first_offer tidy first).offers rest
    exact progress_result progress few

/-- The route that a step offers, if it offers one. -/
def offerOf : Op → Option RouteArgs
  | .routeAdd a => some a
  | .routeAddE2 a _ => some a
  | _ => none

def offered (ops : List Op) : List RouteArgs := ops.filterMap offerOf

/-- Every route the step offers is well masked and belongs to the prefix. -/
def Concerns (ip : BitVec 32) (len : Nat) (op : Op) : Prop :=
  ∀ a ∈ offerOf op, WellMasked a ∧ a.ip = ip ∧ (withMasklen a).len = len

def OffersTo (ip : BitVec 32) (len : Nat) (op : Op) : Prop :=
  (offerOf op).isSome ∧ Concerns ip len op

instance (ip : BitVec 32) (len : Nat) (op : Op) : Decidable (Concerns ip len op) :=
  inferInstanceAs
    (Decidable (∀ a ∈ offerOf op, WellMasked a ∧ a.ip = ip ∧ (withMasklen a).len = len))

instance (ip : BitVec 32) (len : Nat) (op : Op) : Decidable (OffersTo ip len op) :=
  inferInstanceAs (Decidable ((offerOf op).isSome ∧ Concerns ip len op))

/-- The routes of the node of a prefix. -/
def entries (ip : BitVec 32) (len : Nat) (t : Table) : List Rt := (lookup ip len t.ptreeRoot).rt

/-- Besides the root, the tree has no other prefix. -/
def Alone (ip : BitVec 32) (len : Nat) (t : Ptn) : Prop :=
  Prefixes (fun k l => l = 0 ∨ k = ip ∧ l = len) t

theorem alone_ensureRoot {t : Ptn} (alone : Alone ip len t) :
    Alone ip len (ensureRoot t) := by
  cases t with
  | null =>
    intro x hx
    left
    rcases mem_nodes_node.mp hx with rfl | ⟨b, hb⟩
    · rfl
    · cases hb
  | node d link => exact alone

/-- While the only prefix is not found, the root has no child. -/
theorem Alone.leaf {d : PtnData} {link : Bool → Ptn}
    (alone : Alone ip len (.node d link)) (wf : WellFormed (.node d link))
    (absent : ptnFind ip len (.node d link) = none) (b : Bool) : link b = .null := by
  cases h : link b with
  | null => rfl
  | node e below =>
    have inside : e ∈ (Ptn.node d link).nodes := by
      refine mem_nodes_node.mpr (Or.inr ⟨b, ?_⟩)
      rw [h]
      exact mem_nodes_node.mpr (Or.inl rfl)
    have longer : d.len < e.len := by
      have under := (wf.2 b).1
      rw [h] at under
      exact under.1
    obtain ⟨p, _, found, _⟩ := ptnFind_complete wf inside
    rcases alone e inside with zero | ⟨rfl, rfl⟩
    · omega
    · rw [found] at absent
      cases absent

/-- The invariant of a table with one prefix. -/
structure Solo (ip : BitVec 32) (len : Nat) (t : Table) (m : RouteMap) : Prop where
  refines : Refines t m
  alone : Alone ip len t.ptreeRoot
  tidy : Tidy (m.routes ip len).rt

theorem solo_initial (ip : BitVec 32) (len : Nat) : Solo ip len .initial .initial := by
  refine ⟨initial_refines, ?_, ⟨?_, List.nodup_nil⟩⟩
  · intro x hx
    cases hx
  · intro r hr
    cases hr

section Single

variable {ip : BitVec 32} {len : Nat} {t : Table} {m : RouteMap} {a : RouteArgs}

theorem attach_alone (refines : Refines t m) (alone : Alone ip len t.ptreeRoot)
    (here : a.ip = ip ∧ (withMasklen a).len = len) (e2Cost : BitVec 32)
    (absent : ptnFind a.ip (withMasklen a).len (ensureRoot t.ptreeRoot) = none) :
    aligned (newNode e2Cost a) (ensureRoot t.ptreeRoot) = true ∧
      Alone ip len (attach (newNode e2Cost a) (ensureRoot t.ptreeRoot)) := by
  have alone' := alone_ensureRoot alone
  obtain ⟨d, link, hroot, hkey, hlen, wf, _⟩ := refines.ensureRoot
  rw [hroot] at absent alone' ⊢
  have bare := alone'.leaf wf (here.1 ▸ here.2 ▸ absent)
  have covers : Covers d (newNode e2Cost a).key (newNode e2Cost a).len := by
    refine ⟨by omega, ?_⟩
    rw [hlen]
    exact samePrefix_zero _ _
  have other : ¬ (d.key = (newNode e2Cost a).key ∧ d.len = (newNode e2Cost a).len) := by
    intro heq
    have found := ptnFind_node wf a.ip (withMasklen a).len
    rw [if_pos ⟨heq.1, heq.2⟩, absent] at found
    cases found
  have stop : ptnFindLpm (newNode e2Cost a).key (newNode e2Cost a).len
      (link ((newNode e2Cost a).key.getMsbD d.len)) = none := by
    rw [bare]
    rfl
  obtain ⟨hattach, haligned⟩ := attach_of_none wf covers other stop
  rw [hattach, haligned]
  simp only [insertAligned, ptnSetChild, bare, true_and]
  refine prefixes_update alone' (prefixes_node.mpr ⟨Or.inr here, ?_⟩)
  intro b x hx
  cases hx

theorem routeAdd_alone (refines : Refines t m) (alone : Alone ip len t.ptreeRoot)
    (here : a.ip = ip ∧ (withMasklen a).len = len) :
    alignedAdd t t.e2Cost a = true ∧ Alone ip len (routeAdd t a).1.ptreeRoot := by
  have alone' := alone_ensureRoot alone
  unfold alignedAdd routeAdd
  dsimp only
  cases hfind : ptnFind a.ip (withMasklen a).len (ensureRoot t.ptreeRoot) with
  | some p => exact ⟨rfl, prefixes_modify _ alone' p⟩
  | none => exact attach_alone refines alone here t.e2Cost hfind

theorem routeAdd_solo (solo : Solo ip len t m) (masked : WellMasked a)
    (here : a.ip = ip ∧ (withMasklen a).len = len) :
    Solo ip len (routeAdd t a).1 (m.add a) ∧
      (m.add a).routes ip len = (routeReplace m.e2Cost (m.routes ip len) (withMasklen a)).1 := by
  obtain ⟨side, alone⟩ := routeAdd_alone solo.refines solo.alone here
  have routes : (m.add a).routes ip len =
      (routeReplace m.e2Cost (m.routes ip len) (withMasklen a)).1 := if_pos here
  refine ⟨⟨routeAdd_refines solo.refines masked side, alone, ?_⟩, routes⟩
  rw [routes]
  exact solo.tidy.offer (routeReplace_offer _ _ _)

theorem walk_solo (solo : Solo ip len t m) (f : NodeRoutes → NodeRoutes × List Effect)
    (refines : Refines { t with ptreeRoot := (ptnWalk f t.ptreeRoot).1 } (m.walk f))
    (tidy : ∀ n : NodeRoutes, Tidy n.rt → Tidy (f n).1.rt) :
    Solo ip len { t with ptreeRoot := (ptnWalk f t.ptreeRoot).1 } (m.walk f) := by
  refine ⟨refines, prefixes_ptnWalk f solo.alone, ?_⟩
  simp only [RouteMap.walk, visited]
  split
  · exact solo.tidy
  · exact tidy _ solo.tidy

theorem step_solo (solo : Solo ip len t m) (op : Op) (concerns : Concerns ip len op) :
    Solo ip len (step t op) (m.step op) := by
  cases op with
  | routeAdd a =>
    obtain ⟨masked, here⟩ := concerns a rfl
    exact (routeAdd_solo solo masked here).1
  | routeAddE2 a e2 =>
    obtain ⟨masked, here⟩ := concerns a rfl
    have solo' : Solo ip len { t with e2Cost := e2 } { m with e2Cost := e2 } :=
      ⟨⟨rfl, solo.refines.rooted, solo.refines.wf, solo.refines.lookup, solo.refines.clean⟩,
        solo.alone, solo.tidy⟩
    exact (routeAdd_solo solo' masked here).1
  | updateRtStart =>
    refine walk_solo solo _ (step_refines solo.refines .updateRtStart trivial rfl) ?_
    intro n tidy
    exact tidy_map_mark tidy
  | updateRtFinish =>
    refine walk_solo solo _ (step_refines solo.refines .updateRtFinish trivial rfl) ?_
    intro n tidy
    rw [callbackClear_rt]
    exact tidy.sublist (sweep_sublist _)
  | routePurge =>
    exact ⟨routePurge_refines solo.refines, prefixes_ptnPurge solo.alone true, solo.tidy⟩

theorem run_solo (solo : Solo ip len t m) {ops : List Op}
    (concerns : ∀ op ∈ ops, Concerns ip len op) : Solo ip len (run t ops) (m.run ops) := by
  induction ops generalizing t m with
  | nil => exact solo
  | cons op ops ih =>
    exact ih (step_solo solo op (concerns op List.mem_cons_self))
      (fun op hop => concerns op (List.mem_cons_of_mem _ hop))

end Single

theorem offers_run (m : RouteMap) {ops : List Op}
    (offering : ∀ op ∈ ops, OffersTo ip len op) :
    Offers (offered ops) (m.routes ip len) ((m.run ops).routes ip len) := by
  induction ops generalizing m with
  | nil => exact .nil
  | cons op ops ih =>
    obtain ⟨isOffer, concerns⟩ := offering op List.mem_cons_self
    have rest := ih (m.step op) (fun op hop => offering op (List.mem_cons_of_mem _ hop))
    cases op with
    | routeAdd a =>
      have routes : (m.step (.routeAdd a)).routes ip len =
          (routeReplace m.e2Cost (m.routes ip len) (withMasklen a)).1 := if_pos (concerns a rfl).2
      exact .cons (routes ▸ routeReplace_offer m.e2Cost _ _) rest
    | routeAddE2 a e2 =>
      have routes : (m.step (.routeAddE2 a e2)).routes ip len =
          (routeReplace e2 (m.routes ip len) (withMasklen a)).1 := if_pos (concerns a rfl).2
      exact .cons (routes ▸ routeReplace_offer e2 _ _) rest
    | updateRtStart => cases isOffer
    | updateRtFinish => cases isOffer
    | routePurge => cases isOffer

theorem CycleResult.mono {rt : List Rt}
    {effects effects' : List Effect} (result : CycleResult old args rt effects)
    (sub : effects ⊆ effects') : CycleResult old args rt effects' :=
  ⟨fun a ha => (result.installed a ha).imp_right (fun h => sub h), result.complete,
    result.sound, result.distinct⟩

theorem visited_of_clean {f : NodeRoutes → NodeRoutes × List Effect}
    (clean : n.rt = [] → n = .empty) (empty : (f .empty).1 = .empty) :
    visited f n = (f n).1 := by
  unfold visited
  split
  · rename_i bare
    rw [clean bare, empty]
  · rfl

theorem finish_effects {t : Table} {m : RouteMap} (refines : Refines t m) (ip : BitVec 32)
    (len : Nat) : (callbackClear (m.routes ip len)).2 ⊆ (updateRtFinish t).2 := by
  by_cases some : (m.routes ip len).rt = []
  · have silent : (callbackClear .empty).2 = [] := rfl
    rw [refines.clean ip len some, silent]
    exact List.nil_subset _
  · obtain ⟨p, d, link, found, hget, _, _, hroutes⟩ := refines.isMap.found ip len some
    obtain ⟨x, hx, _, _, _, hget'⟩ := ptnFind_sound found
    rw [hget] at hget'
    cases hget'
    rw [← hroutes] at some ⊢
    exact effects_subset_ptnWalk callbackClear hx some

/-- A cycle over a table that holds one prefix, after any earlier steps on it. Every
cheapest offer is installed, unless the slots of the previous cycle leave no room
for it, and then another calculation is requested. -/
theorem cycle_entries (ip : BitVec 32) (len : Nat) (history offers : List Op)
    (before : ∀ op ∈ history, Concerns ip len op)
    (offering : ∀ op ∈ offers, OffersTo ip len op)
    (few : (cheapestPairs (offered offers)).dedup.length ≤ ecmpLimit) :
    CycleResult (entries ip len (run .initial history)) (offered offers)
      (entries ip len (updateRtFinish (run (updateRtStart (run .initial history)) offers)).1)
      (updateRtFinish (run (updateRtStart (run .initial history)) offers)).2 := by
  have solo := run_solo (solo_initial ip len) before
  have started := step_solo solo .updateRtStart (fun a ha => by cases ha)
  have reached := run_solo started (fun op hop => (offering op hop).2)
  have finished := step_solo reached .updateRtFinish (fun a ha => by cases ha)
  have hstart : ((RouteMap.initial.run history).step .updateRtStart).routes ip len =
      callbackInit ((RouteMap.initial.run history).routes ip len) :=
    visited_of_clean (f := fun n => (callbackInit n, [])) (solo.refines.clean ip len) rfl
  have hoffers := offers_run ((RouteMap.initial.run history).step .updateRtStart) offering
  rw [hstart] at hoffers
  have result := (offers_result solo.tidy hoffers few).mono (finish_effects reached.refines ip len)
  have hold : entries ip len (run .initial history) =
      ((RouteMap.initial.run history).routes ip len).rt := by
    rw [entries, solo.refines.lookup]
  have hfinal := visited_of_clean (f := callbackClear) (reached.refines.clean ip len) rfl
  have hnew := finished.refines.lookup ip len
  rw [hold]
  rw [← hfinal] at result
  simpa only [entries, step] using (congrArg NodeRoutes.rt hnew) ▸ result

/-- A route to 10.0.0.0/8 through the gateway 192.168.0.`n`. -/
def via (n : BitVec 32) : Op := .routeAdd (intraRoute 0x0a000000 0xff000000 (0xc0a80000 + n))

def cycle (offers : List Op) : List Op := .updateRtStart :: offers ++ [.updateRtFinish]

/-- Two old routes, of which one is offered again together with a new one. -/
theorem cycle_entries_refreshed :
    (cheapest (offered [via 3, via 2])).length = 2 ∧
      CycleResult (entries 0x0a000000 8 (run .initial (cycle [via 1, via 2])))
        (offered [via 3, via 2])
        (entries 0x0a000000 8 (updateRtFinish (run (updateRtStart
          (run .initial (cycle [via 1, via 2]))) [via 3, via 2])).1)
        (updateRtFinish (run (updateRtStart
          (run .initial (cycle [via 1, via 2]))) [via 3, via 2])).2 :=
  ⟨by decide, cycle_entries 0x0a000000 8 (cycle [via 1, via 2]) [via 3, via 2] (by decide)
    (by decide) (by decide)⟩

/-- Four slots are taken when the fifth gateway is offered, although one of them
is swept at the end of the cycle. -/
theorem full_array_misses_offer :
    (∀ op ∈ cycle [via 1, via 2, via 3, via 4], Concerns 0x0a000000 8 op) ∧
      (∀ op ∈ [via 1, via 3, via 4, via 5], OffersTo 0x0a000000 8 op) ∧
      (cheapestPairs (offered [via 1, via 3, via 4, via 5])).dedup.length ≤ ecmpLimit ∧
      ¬ ∀ p, p ∈ (entries 0x0a000000 8 (run .initial (cycle [via 1, via 2, via 3, via 4] ++
          cycle [via 1, via 3, via 4, via 5]))).map pair ↔
        p ∈ cheapestPairs (offered [via 1, via 3, via 4, via 5]) := by
  refine ⟨by decide, by decide, by decide, ?_⟩
  intro same
  have member : ((0xc0a80005, .ospf) : BitVec 32 × RouteType) ∈
      cheapestPairs (offered [via 1, via 3, via 4, via 5]) := by decide
  exact absurd ((same _).mpr member) (by decide)

end RouteCycle
