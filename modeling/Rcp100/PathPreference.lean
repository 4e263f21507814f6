import Rcp100.RouteCycle
import Rcp100.TypedRoutes

/-!
# Path types in an SPF cycle

A prefix may be offered as intra-area, inter-area and external route in one cycle, at any
costs. The array keeps the offers of least cost, whatever their types; only when it is
installed do the types matter. This module says which offers the four slots hold at the
end of a cycle, and from that when the kernel has the routes of the most preferred type.
-/

namespace PathPreference

open IpAddress RouteEntry RouteTable RouteCycle TypedRoutes
open KernelRoutes (Prefix At NodeOffer NodeOp)

abbrev Pair := BitVec 32 × RouteType

/-- The path types of OSPF. -/
def isPath : RouteType → Bool
  | .ospf | .ospfIa | .ospfE1 | .ospfE2 => true
  | _ => false

/-- The path offers of the type that comes first: intra-area, inter-area, E1, E2. -/
def mostPreferred (args : List RouteArgs) : List RouteArgs :=
  args.filter fun a => isPath a.type &&
    args.all fun b => !isPath b.type || decide (a.type.code ≤ b.type.code)

/-- The routes that belong into the kernel. -/
def preferred (args : List RouteArgs) : List RouteArgs := cheapest (mostPreferred args)

def installs (a : RouteArgs) : KernelRoute := ⟨a.type, a.gw, a.cost⟩

/-- Path offers of different types. -/
def Mixed (args : List RouteArgs) : Prop :=
  ∃ a ∈ args, ∃ b ∈ args, isPath a.type = true ∧ isPath b.type = true ∧ a.type ≠ b.type

instance (args : List RouteArgs) : Decidable (Mixed args) :=
  inferInstanceAs (Decidable (∃ a ∈ args, ∃ b ∈ args, _ ∧ _ ∧ _))

instance (old : List Rt) : (args : List RouteArgs) → Decidable (Kept old args)
  | [] => .isTrue trivial
  | first :: rest => inferInstanceAs (Decidable ((∃ r ∈ old, sameRoute first r = true) ∧
      ∀ a ∈ rest, first.cost ≤ a.cost))

/-- The next slot is taken, unless the route has one or there are four already. -/
def arrive (slots : List Pair) (p : Pair) : List Pair :=
  if p ∈ slots ∨ slots.length = ecmpLimit then slots else slots ++ [p]

/-- The routes in the slots after the offers: those of the previous cycle, where the first
offer repeats one of them and none is cheaper, then the cheapest offers as they arrive. -/
def slots (old : List Rt) (args : List RouteArgs) : List Pair :=
  (cheapestPairs args).foldl arrive (if Kept old args then old.map pair else [])

/-- A route that was not offered goes, but the sweep steps over the slot behind it. -/
def remaining (offered : List Pair) : List Pair → List Pair
  | [] => []
  | [p] => if p ∈ offered then [p] else []
  | p :: q :: rest =>
    if p ∈ offered then p :: remaining offered (q :: rest) else q :: remaining offered rest

/-- The routes of the prefix at the end of the cycle. -/
def left (old : List Rt) (args : List RouteArgs) : List Pair :=
  remaining (cheapestPairs args) (slots old args)

variable {args : List RouteArgs} {a : RouteArgs} {rt : List Rt} {c : BitVec 32} {x : KernelRoute}

theorem mem_mostPreferred :
    a ∈ mostPreferred args ↔ a ∈ args ∧ isPath a.type = true ∧
      ∀ b ∈ args, isPath b.type = true → a.type.code ≤ b.type.code := by
  simp only [mostPreferred, List.mem_filter, Bool.and_eq_true, List.all_eq_true,
    Bool.or_eq_true, Bool.not_eq_true', decide_eq_true_eq]
  refine and_congr_right fun _ => and_congr_right fun _ => forall₂_congr fun b _ => ?_
  cases isPath b.type <;> simp

theorem mem_preferred :
    a ∈ preferred args ↔ a ∈ mostPreferred args ∧ ∀ b ∈ mostPreferred args, a.cost ≤ b.cost :=
  mem_cheapest

theorem preferred_alike {b : RouteArgs} (ha : a ∈ preferred args)
    (hb : b ∈ preferred args) : a.type = b.type ∧ a.cost = b.cost := by
  obtain ⟨memA, leastA⟩ := mem_preferred.mp ha
  obtain ⟨memB, leastB⟩ := mem_preferred.mp hb
  obtain ⟨inA, pathA, firstA⟩ := mem_mostPreferred.mp memA
  obtain ⟨inB, pathB, firstB⟩ := mem_mostPreferred.mp memB
  have codes := Nat.le_antisymm (firstA b inB pathB) (firstB a inA pathA)
  have lower := leastA b memB
  have upper := leastB a memA
  exact ⟨KernelRoutes.RouteType.code_injective codes, by bv_omega⟩

theorem exists_least (f : RouteArgs → Nat) (some : args ≠ []) :
    ∃ a ∈ args, ∀ b ∈ args, f a ≤ f b := by
  induction args with
  | nil => exact absurd rfl some
  | cons first rest ih =>
    by_cases empty : rest = []
    · subst empty
      exact ⟨first, List.mem_singleton_self _, by simp⟩
    obtain ⟨a, member, least⟩ := ih empty
    by_cases lower : f first ≤ f a
    · refine ⟨first, List.mem_cons_self, fun b hb => ?_⟩
      rcases List.mem_cons.mp hb with rfl | later
      · exact Nat.le_refl _
      · exact Nat.le_trans lower (least b later)
    · refine ⟨a, List.mem_cons_of_mem _ member, fun b hb => ?_⟩
      rcases List.mem_cons.mp hb with rfl | later
      · omega
      · exact least b later

theorem preferred_ne_nil (member : a ∈ args)
    (path : isPath a.type = true) : ∃ b, b ∈ preferred args := by
  have paths : args.filter (fun b => isPath b.type) ≠ [] :=
    List.ne_nil_of_mem (List.mem_filter.mpr ⟨member, path⟩)
  obtain ⟨best, inside, first⟩ := exists_least (fun b => b.type.code) paths
  obtain ⟨bestIn, bestPath⟩ := List.mem_filter.mp inside
  have most : best ∈ mostPreferred args :=
    mem_mostPreferred.mpr ⟨bestIn, bestPath, fun b hb isPath =>
      first b (List.mem_filter.mpr ⟨hb, isPath⟩)⟩
  obtain ⟨b, hb, least⟩ := exists_least (fun b => b.cost.toNat) (List.ne_nil_of_mem most)
  exact ⟨b, mem_preferred.mpr ⟨hb, least⟩⟩

theorem Mixed.not_e2 (mixed : Mixed args)
    (member : a ∈ preferred args) : a.type ≠ .ospfE2 := by
  obtain ⟨x, hx, y, hy, pathX, pathY, differ⟩ := mixed
  obtain ⟨-, -, first⟩ := mem_mostPreferred.mp (mem_preferred.mp member).1
  intro last
  have boundX := first x hx pathX
  have boundY := first y hy pathY
  rw [last] at boundX boundY
  have only : ∀ t : RouteType, isPath t = true → RouteType.ospfE2.code ≤ t.code → t = .ospfE2 := by
    intro t path last
    cases t with
    | ospfE2 => rfl
    | ospf | ospfIa | ospfE1 => exact absurd last (by decide)
    | connected | static | blackhole | rip | ospfBlackhole | connectedSubnets => cases path
  exact differ ((only _ pathX boundX).trans (only _ pathY boundY).symm)

section Slots

variable {old : List Rt} {done args : List RouteArgs} {n r : NodeRoutes} {c : BitVec 32}
  {a : RouteArgs}

section

variable (progress : Progress old done n c)

include progress

theorem cheapest_append_lt (lower : a.cost < c) :
    cheapestPairs (done ++ [a]) = [offerPair a] ∧ ¬ Kept old (done ++ [a]) := by
  have dearer : ∀ b ∈ done, a.cost < b.cost := by
    intro b hb
    have := progress.least b hb
    bv_omega
  constructor
  · have none : done.filter (fun b => (done ++ [a]).all fun x => b.cost ≤ x.cost) = [] := by
      refine List.filter_eq_nil_iff.mpr fun b hb all => ?_
      have below := List.all_eq_true.mp all a (by simp)
      have above := dearer b hb
      simp only [decide_eq_true_eq] at below
      bv_omega
    have self : (done ++ [a]).all (fun x => a.cost ≤ x.cost) = true := by
      refine List.all_eq_true.mpr fun x hx => decide_eq_true ?_
      rcases List.mem_append.mp hx with early | last
      · exact BitVec.le_of_lt (dearer x early)
      · rw [List.mem_singleton.mp last]
        exact BitVec.le_refl _
    rw [cheapestPairs, cheapest, List.filter_append, none, List.filter_cons, if_pos self]
    rfl
  · intro kept
    obtain ⟨b, hb, -⟩ := progress.attained
    cases done with
    | nil => cases hb
    | cons first rest =>
      have below := kept.2 a (by simp)
      have above := dearer first List.mem_cons_self
      bv_omega

theorem cheapest_append_ge (bound : c ≤ a.cost) :
    cheapestPairs (done ++ [a]) =
      cheapestPairs done ++ (if a.cost = c then [offerPair a] else []) := by
  obtain ⟨b, hb, hcost⟩ := progress.attained
  have same : done.filter (fun x => (done ++ [a]).all fun y => x.cost ≤ y.cost) =
      cheapest done := by
    refine List.filter_congr fun x hx => ?_
    rw [Bool.eq_iff_iff, List.all_append, Bool.and_eq_true]
    refine and_iff_left_of_imp fun all => ?_
    have below := List.all_eq_true.mp all b hb
    simp only [decide_eq_true_eq] at below
    simp only [List.all_cons, List.all_nil, Bool.and_true, decide_eq_true_eq]
    bv_omega
  have last : (done ++ [a]).all (fun y => a.cost ≤ y.cost) = decide (a.cost = c) := by
    rw [Bool.eq_iff_iff, List.all_eq_true, decide_eq_true_eq]
    constructor
    · intro all
      have below := all b (List.mem_append_left _ hb)
      simp only [decide_eq_true_eq] at below
      bv_omega
    · intro equal y hy
      refine decide_eq_true ?_
      rw [equal]
      exact progress.least_append bound y hy
  rw [cheapestPairs, cheapest, List.filter_append, same, List.map_append, List.filter_cons, last]
  by_cases equal : a.cost = c <;> simp [equal, cheapestPairs]

theorem kept_append_iff (bound : c ≤ a.cost) :
    Kept old (done ++ [a]) ↔ Kept old done := by
  refine ⟨fun kept => ?_, fun kept => progress.kept_append kept bound⟩
  obtain ⟨b, hb, -⟩ := progress.attained
  cases done with
  | nil => cases hb
  | cons first rest => exact ⟨kept.1, fun x hx => kept.2 x (List.mem_append_left _ hx)⟩

theorem slots_append_lt (lower : a.cost < c) :
    slots old (done ++ [a]) = [offerPair a] := by
  obtain ⟨pairs, fresh⟩ := cheapest_append_lt progress lower
  rw [slots, pairs, if_neg fresh]
  rfl

theorem slots_append_ge (bound : c ≤ a.cost) :
    slots old (done ++ [a]) =
      if a.cost = c then arrive (slots old done) (offerPair a) else slots old done := by
  have base : (if Kept old (done ++ [a]) then old.map pair else []) =
      if Kept old done then old.map pair else [] :=
    if_congr (kept_append_iff progress bound) rfl rfl
  rw [slots, cheapest_append_ge progress bound, List.foldl_append, base]
  by_cases equal : a.cost = c
  · rw [if_pos equal, if_pos equal]
    rfl
  · rw [if_neg equal, if_neg equal]
    rfl

end

theorem map_pair_modify (rt : List Rt) (i : Nat) : (rt.modify i visit).map pair = rt.map pair :=
  KernelRoutes.map_modify_visit (fun _ => rfl) rt i

theorem slots_offer {e2Cost : BitVec 32} {n' : NodeRoutes} (progress : Progress old done n c)
    (known : n.rt.map pair = slots old done) (offer : Offer e2Cost (withMasklen a) n n') :
    n'.rt.map pair = slots old (done ++ [a]) := by
  obtain ⟨x, hx, hfresh⟩ := progress.fresh
  have hcost : ∀ {first : Rt}, n.rt.head? = some first → first.cost = c := fun head =>
    progress.uniform _ (List.mem_of_mem_head? head)
  have equal_bound : a.cost = c → c ≤ a.cost := fun equal => equal ▸ BitVec.le_refl _
  have outside : a.cost = c → (∀ x ∈ n.rt, sameRoute (withMasklen a) x = false) →
      offerPair a ∉ slots old done := by
    intro equal absent inside
    rw [← known] at inside
    obtain ⟨y, hy, same⟩ := List.mem_map.mp inside
    exact sameRoute_false (absent y hy) ((progress.uniform y hy).trans equal.symm) same
  cases offer with
  | configure none _ =>
    rw [none] at hx
    cases hx
  | refresh i found rt _ =>
    obtain ⟨-, y, hy, same⟩ := modify_eq_map_touch progress.distinct found
    obtain ⟨cost, hpair⟩ := sameRoute_iff.mp same
    have equal : a.cost = c := cost.symm.trans (progress.uniform y hy)
    have inside : offerPair a ∈ slots old done := known ▸ List.mem_map.mpr ⟨y, hy, hpair⟩
    rw [slots_append_ge progress (equal_bound equal), if_pos equal, arrive,
      if_pos (Or.inl inside), rt, map_pair_modify, known]
  | replaceStale _ _ stale _ =>
    rw [stale x hx] at hfresh
    cases hfresh
  | append first head absent _ cost room rt =>
    have equal : a.cost = c := cost.symm.trans (hcost head)
    have length : (slots old done).length ≠ ecmpLimit := by
      rw [← known, List.length_map]
      omega
    rw [slots_append_ge progress (equal_bound equal), if_pos equal, arrive,
      if_neg (not_or.mpr ⟨outside equal absent, length⟩), rt, List.map_append, known]
    rfl
  | refuse first head absent _ cost full rt _ =>
    have equal : a.cost = c := cost.symm.trans (hcost head)
    have length : (slots old done).length = ecmpLimit := by
      rw [← known, List.length_map, full]
    rw [slots_append_ge progress (equal_bound equal), if_pos equal, arrive,
      if_pos (Or.inr length), rt, known]
  | replaceWorse first head _ _ cost rt =>
    have lower : a.cost < c := hcost head ▸ cost
    rw [slots_append_lt progress lower, rt]
    rfl
  | ignore first head _ _ cost rt _ =>
    have above : c < a.cost := hcost head ▸ cost
    have differ : a.cost ≠ c := by bv_omega
    rw [slots_append_ge progress (BitVec.le_of_lt above), if_neg differ, rt, known]

theorem slots_first {e2Cost : BitVec 32} {n' : NodeRoutes}
    (offer : Offer e2Cost (withMasklen a) (callbackInit n) n') :
    n'.rt.map pair = slots n.rt [a] := by
  have kept_iff : Kept n.rt [a] ↔ ∃ r ∈ n.rt, sameRoute a r = true := by
    simp [Kept]
  have least : cheapestPairs [a] = [offerPair a] := by
    simp [cheapestPairs, cheapest]
  have marked : ∀ r ∈ n.rt, mark r ∈ (callbackInit n).rt := fun r hr => List.mem_map_of_mem hr
  have alone : (∀ r ∈ n.rt, sameRoute a r = false) → slots n.rt [a] = [offerPair a] := by
    intro absent
    have fresh : ¬ Kept n.rt [a] := by
      rw [kept_iff]
      rintro ⟨r, hr, same⟩
      rw [absent r hr] at same
      cases same
    rw [slots, least, if_neg fresh]
    rfl
  have stale : ¬ ∃ x ∈ (callbackInit n).rt, x.delFlag = false := by
    rintro ⟨x, hx, hfresh⟩
    rw [callbackInit_flagged hx] at hfresh
    cases hfresh
  cases offer with
  | configure none rt =>
    rw [rt, alone]
    · rfl
    · intro r hr
      have inside := marked r hr
      rw [none] at inside
      cases inside
  | refresh i found rt _ =>
    obtain ⟨inside, same, -⟩ := List.findIdx?_eq_some_iff_getElem.mp found
    obtain ⟨r, hr, eq⟩ := List.mem_map.mp (List.getElem_mem inside)
    rw [← eq] at same
    have kept : Kept n.rt [a] := kept_iff.mpr ⟨r, hr, same⟩
    have member : offerPair a ∈ n.rt.map pair :=
      List.mem_map.mpr ⟨r, hr, (sameRoute_iff.mp same).2⟩
    rw [rt, map_pair_modify, slots, least, if_pos kept, List.foldl_cons, arrive,
      if_pos (Or.inl member)]
    exact map_pair_mark n.rt
  | replaceStale _ absent _ rt =>
    rw [rt, alone]
    · rfl
    · exact fun r hr => absent (mark r) (marked r hr)
  | append _ _ _ fresh => exact absurd fresh stale
  | refuse _ _ _ fresh => exact absurd fresh stale
  | replaceWorse _ _ _ fresh => exact absurd fresh stale
  | ignore _ _ _ fresh => exact absurd fresh stale

theorem slots_offers (progress : Progress old done n c) (known : n.rt.map pair = slots old done)
    (offers : Offers args n r) :
    (∃ c', Progress old (done ++ args) r c') ∧ r.rt.map pair = slots old (done ++ args) := by
  induction offers generalizing done c with
  | nil => exact ⟨⟨c, by simpa using progress⟩, by simpa using known⟩
  | cons first _ ih =>
    obtain ⟨c', next⟩ := progress.offer first
    simpa using ih next (slots_offer progress known first)

theorem slots_cycle (tidy : Tidy n.rt) (some : args ≠ [])
    (offers : Offers args (callbackInit n) r) :
    (∃ c, Progress n.rt args r c) ∧ r.rt.map pair = slots n.rt args := by
  cases offers with
  | nil => exact absurd rfl some
  | cons first rest => exact slots_offers (first_offer tidy first) (slots_first first) rest

variable {offered : List Pair}

theorem map_pair_sweep {l : List Rt}
    (flags : ∀ x ∈ l, x.delFlag = true ↔ pair x ∉ offered) :
    (sweep l).map pair = remaining offered (l.map pair) := by
  induction l using sweep.induct with
  | case1 => rfl
  | case2 x flagged =>
    have gone := (flags x List.mem_cons_self).mp flagged
    simp [sweep, flagged, remaining, gone]
  | case3 x fresh =>
    have stays : pair x ∈ offered := not_not.mp fun gone =>
      fresh ((flags x List.mem_cons_self).mpr gone)
    simp [sweep, fresh, remaining, stays]
  | case4 x y rest flagged ih =>
    have gone := (flags x List.mem_cons_self).mp flagged
    have tail := ih fun z hz => flags z (List.mem_cons_of_mem _ (List.mem_cons_of_mem _ hz))
    simp only [sweep, flagged, if_true, List.map_cons, remaining, if_neg gone, tail]
  | case5 x y rest fresh ih =>
    have stays : pair x ∈ offered := not_not.mp fun gone =>
      fresh ((flags x List.mem_cons_self).mpr gone)
    have tail := ih fun z hz => flags z (List.mem_cons_of_mem _ hz)
    simp only [List.map_cons] at tail
    rw [sweep, if_neg fresh, List.map_cons, List.map_cons, List.map_cons, remaining,
      if_pos stays, tail]

/-- The routes that a cycle leaves are those of `left`, all at the least cost offered. -/
theorem left_cycle (tidy : Tidy n.rt) (some : args ≠ []) (offers : Offers args (callbackInit n) r) :
    (callbackClear r).1.rt.map pair = left n.rt args ∧
      ∃ c, Progress n.rt args r c ∧ ∀ x ∈ (callbackClear r).1.rt, x.cost = c := by
  obtain ⟨⟨c, progress⟩, known⟩ := slots_cycle tidy some offers
  rw [callbackClear_rt]
  refine ⟨?_, c, progress, fun x hx => progress.uniform x ((sweep_sublist _).subset hx)⟩
  rw [left, ← known]
  refine map_pair_sweep fun x hx => ⟨fun flagged inside => ?_, fun gone => ?_⟩
  · obtain ⟨b, hb, same⟩ := List.mem_map.mp inside
    obtain ⟨member, cost⟩ := progress.mem_cheapest_iff.mp hb
    exact progress.stale x hx flagged b member cost same
  · by_contra fresh
    exact gone (progress.fresh_mem_cheapestPairs hx (by simpa using fresh))

theorem mem_remaining {l : List Pair} {p : Pair} (inside : p ∈ l)
    (stays : p ∈ offered) : p ∈ remaining offered l := by
  induction l using remaining.induct offered with
  | case1 => cases inside
  | case2 q there => simpa [remaining, there] using inside
  | case3 q gone =>
    rw [List.mem_singleton.mp inside] at stays
    exact absurd stays gone
  | case4 q q' rest there ih =>
    rw [remaining, if_pos there]
    rcases List.mem_cons.mp inside with rfl | later
    · exact List.mem_cons_self
    · exact List.mem_cons_of_mem _ (ih later)
  | case5 q q' rest gone ih =>
    rw [remaining, if_neg gone]
    rcases List.mem_cons.mp inside with rfl | later
    · exact absurd stays gone
    · rcases List.mem_cons.mp later with rfl | later
      · exact List.mem_cons_self
      · exact List.mem_cons_of_mem _ (ih later)

theorem remaining_subset {l : List Pair} : remaining offered l ⊆ l := by
  induction l using remaining.induct offered with
  | case1 => exact List.Subset.refl _
  | case2 q there => simp [remaining, there]
  | case3 q gone => simp [remaining, gone]
  | case4 q q' rest there ih =>
    rw [remaining, if_pos there]
    exact List.cons_subset_cons q ih
  | case5 q q' rest gone ih =>
    rw [remaining, if_neg gone]
    exact List.subset_cons_of_subset q (List.cons_subset_cons q' ih)

end Slots

/-- The kernel does not install an array that begins with these types as OSPF routes. -/
def installable (type : RouteType) : Prop :=
  type ≠ .connected ∧ type ≠ .static ∧ type ≠ .ospfBlackhole

/-- What the kernel shows of an array that it installs: the routes of the smallest type. -/
theorem shown_smallest (some : rt ≠ [])
    (uniform : ∀ r ∈ rt, r.cost = c) (head : ∀ p ∈ (rt.map pair).head?, installable p.2) :
    ∃ smallest m, (∃ r ∈ rt, r.type = smallest) ∧ (∀ s ∈ rt, smallest.code ≤ s.type.code) ∧
      (smallest ≠ .ospfE2 → m = c) ∧
      shown rt = multipath smallest m ((rt.filter (fun r => r.type = smallest)).map Rt.gw) := by
  cases rt with
  | nil => exact absurd rfl some
  | cons first rest =>
    obtain ⟨notConnected, notStatic, notHole⟩ := head (pair first) rfl
    have own : ¬(first.type = .connected ∨ first.type = .static) :=
      not_or.mpr ⟨notConnected, notStatic⟩
    have hole : ¬ first.type = .ospfBlackhole := notHole
    have plain : ∀ (type : RouteType) (r : Rt), type ≠ .ospfE2 → metric type r = r.cost :=
      fun _ _ other => if_neg other
    cases rest with
    | nil =>
      have plan : ecmpPlan [first] = .single first := (if_neg own).trans (if_neg hole)
      refine ⟨first.type, metric first.type first, ⟨first, List.mem_cons_self, rfl⟩, ?_, ?_, ?_⟩
      · intro s hs
        rw [List.mem_singleton.mp hs]
      · exact fun other => (plain _ _ other).trans (uniform first List.mem_cons_self)
      · simp [shown, plan, multipath]
    | cons second others =>
      have least := fun r (member : r ∈ first :: second :: others) =>
        KernelRoutes.type_eq_smallest_iff first (second :: others) member
      have present := KernelRoutes.foldl_smaller_mem first.type (second :: others)
      have last : (second :: others).getLast (by simp) ∈ first :: second :: others :=
        List.mem_cons_of_mem first (List.getLast_mem _)
      have member : ∃ r ∈ first :: second :: others,
          r.type = (second :: others).foldl (fun t r => smaller t r.type) first.type := by
        rcases present with same | ⟨r, hr, same⟩
        · exact ⟨first, List.mem_cons_self, same.symm⟩
        · exact ⟨r, List.mem_cons_of_mem first hr, same⟩
      let smallest := (second :: others).foldl (fun t r => smaller t r.type) first.type
      refine ⟨smallest, metric smallest ((second :: others).getLast (by simp)), member, ?_, ?_, ?_⟩
      · obtain ⟨r, hr, type⟩ := member
        intro s hs
        have below := (least r hr).mp type s hs
        rwa [type] at below
      · exact fun other => (plain _ _ other).trans (uniform _ last)
      · simp only [shown, ecmpPlan, if_neg own, if_neg hole]
        rfl

theorem mem_shown (uniform : ∀ r ∈ rt, r.cost = c)
    (head : ∀ p ∈ (rt.map pair).head?, installable p.2)
    (notE2 : x.type ≠ .ospfE2) :
    x ∈ shown rt ↔ x.metric = c ∧ (x.gw, x.type) ∈ rt.map pair ∧
      ∀ p ∈ rt.map pair, x.type.code ≤ p.2.code := by
  by_cases some : rt = []
  · subst some
    simp [shown, ecmpPlan]
  obtain ⟨smallest, m, ⟨r, hr, type⟩, below, plain, eq⟩ := shown_smallest some uniform head
  rw [eq, multipath, List.mem_toFinset, List.mem_map]
  constructor
  · rintro ⟨g, inside, rfl⟩
    obtain ⟨s, member, rfl⟩ := List.mem_map.mp inside
    obtain ⟨hs, same⟩ := List.mem_filter.mp member
    have same := of_decide_eq_true same
    refine ⟨plain notE2, List.mem_map.mpr ⟨s, hs, by rw [pair, same]⟩, fun p hp => ?_⟩
    obtain ⟨t, ht, rfl⟩ := List.mem_map.mp hp
    exact below t ht
  · rintro ⟨metric, inside, least⟩
    obtain ⟨s, hs, same⟩ := List.mem_map.mp inside
    obtain ⟨gw, kind⟩ := Prod.mk.inj same
    have lower := least (pair r) (List.mem_map_of_mem hr)
    have upper := below s hs
    rw [kind] at upper
    have smallestType : x.type = smallest := by
      refine KernelRoutes.RouteType.code_injective (Nat.le_antisymm ?_ upper)
      rw [← type]
      exact lower
    refine ⟨s.gw, List.mem_map_of_mem
      (List.mem_filter.mpr ⟨hs, decide_eq_true (kind.trans smallestType)⟩), ?_⟩
    rw [gw, ← smallestType, plain (smallestType ▸ notE2), ← metric]

theorem shown_type (uniform : ∀ r ∈ rt, r.cost = c)
    (head : ∀ p ∈ (rt.map pair).head?, installable p.2) (member : x ∈ shown rt) :
    (∃ p ∈ rt.map pair, p.2 = x.type) ∧ ∀ p ∈ rt.map pair, x.type.code ≤ p.2.code := by
  by_cases some : rt = []
  · subst some
    cases member
  obtain ⟨smallest, m, ⟨r, hr, type⟩, below, -, eq⟩ := shown_smallest some uniform head
  rw [eq, multipath, List.mem_toFinset, List.mem_map] at member
  obtain ⟨g, -, rfl⟩ := member
  refine ⟨⟨pair r, List.mem_map_of_mem hr, type⟩, fun p hp => ?_⟩
  obtain ⟨s, hs, rfl⟩ := List.mem_map.mp hp
  exact below s hs

theorem shown_own
    (head : ∃ p ∈ (rt.map pair).head?, p.2 = .connected ∨ p.2 = .static) : shown rt = ∅ := by
  obtain ⟨p, isHead, own⟩ := head
  cases rt with
  | nil => cases isHead
  | cons first rest =>
    cases isHead
    have plan : ecmpPlan (first :: rest) = .nothing := if_pos own
    rw [shown, plan]

theorem shown_hole (head : ∃ p ∈ (rt.map pair).head?, p.2 = .ospfBlackhole) :
    shown rt = {blackhole} := by
  obtain ⟨p, isHead, hole⟩ := head
  cases rt with
  | nil => cases isHead
  | cons first rest =>
    cases isHead
    have hole : first.type = .ospfBlackhole := hole
    have own : ¬(first.type = .connected ∨ first.type = .static) := by
      rw [hole]
      decide
    have plan : ecmpPlan (first :: rest) = .blackhole first :=
      (if_neg own).trans (if_pos hole)
    rw [shown, plan]

/-- The condition on the routes of the previous cycle and the offers. -/
structure Met (old : List Rt) (args : List RouteArgs) : Prop where
  /-- No offer is cheaper than the preferred ones. -/
  cheapest : ∀ a ∈ preferred args, ∀ b ∈ args, a.cost ≤ b.cost
  /-- The four slots have room for them. -/
  room : ∀ a ∈ preferred args, offerPair a ∈ slots old args
  /-- No other route of the slots has their type or one that comes before it. -/
  clean : ∀ a ∈ preferred args, ∀ p ∈ left old args, a.type.code ≤ p.2.code ∧
    (p.2 = a.type → p ∈ (preferred args).map offerPair)
  /-- The first slot is no discard route. -/
  head : ∀ p ∈ (left old args).head?, p.2 ≠ .ospfBlackhole

theorem installable_of_shown (path : isPath x.type = true)
    (member : x ∈ shown rt) : ∀ p ∈ (rt.map pair).head?, installable p.2 := by
  intro p hp
  refine ⟨fun own => ?_, fun own => ?_, fun hole => ?_⟩
  · rw [shown_own ⟨p, hp, Or.inl own⟩] at member
    cases member
  · rw [shown_own ⟨p, hp, Or.inr own⟩] at member
    cases member
  · rw [shown_hole ⟨p, hp, hole⟩, Finset.mem_singleton] at member
    rw [member] at path
    cases path

theorem ospf_first {type : RouteType} (path : isPath type = true) :
    RouteType.ospf.code ≤ type.code := by
  cases type with
  | ospf | ospfIa | ospfE1 | ospfE2 => decide
  | connected | static | blackhole | rip | ospfBlackhole | connectedSubnets => cases path

section Cycle

variable {n r : NodeRoutes} {args : List RouteArgs} {rt : List Rt} {a : RouteArgs} {c : BitVec 32}

theorem Met.installable {old : List Rt} (met : Met old args) (ha : a ∈ preferred args)
    (pairs : rt.map pair = left old args) :
    ∀ p ∈ (rt.map pair).head?, PathPreference.installable p.2 := by
  intro p hp
  rw [pairs] at hp
  obtain ⟨-, path, -⟩ := mem_mostPreferred.mp (mem_preferred.mp ha).1
  have low := ospf_first path
  have bound := (met.clean a ha p (List.mem_of_mem_head? hp)).1
  refine ⟨fun own => ?_, fun own => ?_, met.head p hp⟩
  · rw [own] at bound
    exact absurd (Nat.le_trans low bound) (by decide)
  · rw [own] at bound
    exact absurd (Nat.le_trans low bound) (by decide)

theorem Met.of_shown (progress : Progress n.rt args r c) (uniform : ∀ x ∈ rt, x.cost = c)
    (pairs : rt.map pair = left n.rt args) (mixed : Mixed args) (ha : a ∈ preferred args)
    (same : shown rt = ((preferred args).map installs).toFinset) : Met n.rt args := by
  have notE2 := mixed.not_e2 ha
  obtain ⟨-, path, -⟩ := mem_mostPreferred.mp (mem_preferred.mp ha).1
  have member : installs a ∈ shown rt :=
    same ▸ List.mem_toFinset.mpr (List.mem_map_of_mem ha)
  have head := installable_of_shown path member
  have spec := fun x (other : KernelRoute.type x ≠ .ospfE2) => mem_shown uniform head other
  rw [pairs] at spec head
  obtain ⟨cost, -, below⟩ := (spec _ notE2).mp member
  have each : ∀ b ∈ preferred args, b.cost = c ∧ offerPair b ∈ left n.rt args := by
    intro b hb
    have memB : installs b ∈ shown rt :=
      same ▸ List.mem_toFinset.mpr (List.mem_map_of_mem hb)
    obtain ⟨costB, insideB, -⟩ := (spec _ (mixed.not_e2 hb)).mp memB
    exact ⟨costB, insideB⟩
  constructor
  · intro b hb x hx
    rw [(each b hb).1]
    exact progress.least x hx
  · intro b hb
    exact remaining_subset (each b hb).2
  · intro b hb p hp
    obtain ⟨type, -⟩ := preferred_alike hb ha
    rw [type]
    refine ⟨below p hp, fun equal => ?_⟩
    have shownP : (⟨p.2, p.1, c⟩ : KernelRoute) ∈ shown rt :=
      (spec ⟨p.2, p.1, c⟩ (by rw [equal]; exact notE2)).mpr ⟨rfl, hp, by
        rw [equal]
        exact below⟩
    rw [same, List.mem_toFinset] at shownP
    obtain ⟨b', hb', eq⟩ := List.mem_map.mp shownP
    refine List.mem_map.mpr ⟨b', hb', Prod.ext ?_ ?_⟩
    · exact congrArg KernelRoute.gw eq
    · exact congrArg KernelRoute.type eq
  · exact fun p hp => (head p hp).2.2

theorem Met.kept (progress : Progress n.rt args r c) (met : Met n.rt args)
    (ha : a ∈ preferred args) : a.cost = c ∧ offerPair a ∈ left n.rt args := by
  have member := (mem_mostPreferred.mp (mem_preferred.mp ha).1).1
  have cost : a.cost = c := by
    obtain ⟨x, hx, hxc⟩ := progress.attained
    have lower := met.cheapest a ha x hx
    have upper := progress.least a member
    bv_omega
  refine ⟨cost, mem_remaining (met.room a ha) (List.mem_map_of_mem ?_)⟩
  exact progress.mem_cheapest_iff.mpr ⟨member, cost⟩

theorem Met.shows (progress : Progress n.rt args r c) (uniform : ∀ x ∈ rt, x.cost = c)
    (pairs : rt.map pair = left n.rt args) (mixed : Mixed args) (ha : a ∈ preferred args)
    (met : Met n.rt args) : shown rt = ((preferred args).map installs).toFinset := by
  have notE2 := mixed.not_e2 ha
  have head := met.installable ha pairs
  have spec := fun x (other : KernelRoute.type x ≠ .ospfE2) => mem_shown uniform head other
  rw [pairs] at spec
  have all : ∀ x ∈ shown rt, x.type = a.type := by
    intro x member
    obtain ⟨⟨p, hp, same⟩, below⟩ := shown_type uniform head member
    rw [pairs] at hp below
    have lower := below _ (met.kept progress ha).2
    have upper := (met.clean a ha p hp).1
    rw [same] at upper
    exact KernelRoutes.RouteType.code_injective (Nat.le_antisymm lower upper)
  ext x
  rw [List.mem_toFinset, List.mem_map]
  constructor
  · intro member
    have type := all x member
    obtain ⟨metric, inside, below⟩ := (spec x (type ▸ notE2)).mp member
    obtain ⟨b, hb, eq⟩ := List.mem_map.mp ((met.clean a ha _ inside).2 type)
    obtain ⟨gw, type'⟩ := Prod.mk.inj eq
    refine ⟨b, hb, ?_⟩
    rw [installs, (met.kept progress hb).1, gw, type', ← metric]
  · rintro ⟨b, hb, rfl⟩
    obtain ⟨cost, stays⟩ := met.kept progress hb
    refine (spec (installs b) (mixed.not_e2 hb)).mpr ⟨cost, stays, fun p hp => ?_⟩
    exact (met.clean b hb p hp).1

theorem shown_cycle_iff (tidy : Tidy n.rt) (offers : Offers args (callbackInit n) r)
    (mixed : Mixed args) :
    shown (callbackClear r).1.rt = ((preferred args).map installs).toFinset ↔
      Met n.rt args := by
  obtain ⟨a, ha, b, -, path, -⟩ := id mixed
  obtain ⟨pairs, c, progress, uniform⟩ := left_cycle tidy (List.ne_nil_of_mem ha) offers
  obtain ⟨best, isBest⟩ := preferred_ne_nil ha path
  exact ⟨Met.of_shown progress uniform pairs mixed isBest,
    Met.shows progress uniform pairs mixed isBest⟩

end Cycle

section Runs

variable {ip : BitVec 32} {len : Fin 33}

theorem updateMasklen_idem (mask : BitVec 32) (len : Nat) :
    (updateMasklen (updateMasklen mask len).1 (updateMasklen mask len).2).1 =
      (updateMasklen mask len).1 := by
  by_cases zero : mask = 0
  · subst zero
    by_cases again : (updateMasklen 0 len).1 = 0
    · rw [again]
      exact again
    · have given : updateMasklen (updateMasklen 0 len).1 (updateMasklen 0 len).2 =
          ((updateMasklen 0 len).1, mask2bits (updateMasklen 0 len).1) := if_pos again
      rw [given]
  · have given : ∀ l, updateMasklen mask l = (mask, mask2bits mask) := fun _ => if_pos zero
    rw [given, given]

theorem routeReplace_withMasklen (e2Cost : BitVec 32) (n : NodeRoutes) (a : RouteArgs) :
    routeReplace e2Cost n (withMasklen a) = routeReplace e2Cost n a := by
  have new : newRt e2Cost (withMasklen a) = newRt e2Cost a := by
    rw [newRt, newRt, withMasklen]
    simp only [updateMasklen_idem]
  have same : sameRoute (withMasklen a) = sameRoute a := rfl
  have cost : (withMasklen a).cost = a.cost := rfl
  unfold routeReplace
  simp only [new, same, cost]

theorem tidy_nodeRun {s : Node} (tidy : Tidy s.routes.rt) (ops : List (NodeOp ip len)) :
    Tidy (nodeRun s ops).routes.rt := by
  induction ops generalizing s with
  | nil => exact tidy
  | cons op rest ih =>
    refine ih (s := nodeStep s op) ?_
    cases op with
    | routeReplace offer => exact tidy.offer (routeReplace_offer _ _ _)
    | callbackInit => exact tidy_map_mark tidy
    | callbackClear =>
      change Tidy (callbackClear s.routes).1.rt
      rw [callbackClear_rt]
      exact tidy.sublist (sweep_sublist _)

/-- `update_rt_start`, the offers and `update_rt_finish`, on one node. -/
def cycle (offers : List (NodeOffer ip len)) : List (NodeOp ip len) :=
  .callbackInit :: offers.map .routeReplace ++ [.callbackClear]

theorem offers_nodeRun (s : Node) (offers : List (NodeOffer ip len)) :
    Offers (offers.map (·.args)) s.routes (nodeRun s (offers.map .routeReplace)).routes := by
  induction offers generalizing s with
  | nil => exact .nil
  | cons offer rest ih =>
    have first := routeReplace_offer offer.e2Cost s.routes (withMasklen offer.args)
    rw [routeReplace_withMasklen] at first
    exact .cons first (ih (nodeStep s (.routeReplace offer)))

/-- After a cycle with path offers of different types, whatever the node and the kernel
went through before, the kernel has the routes of the most preferred type at their least
cost exactly under the condition on the old routes and the offers. -/
theorem preferred_installed_iff (history : List (NodeOp ip len))
    (offers : List (NodeOffer ip len)) (mixed : Mixed (offers.map (·.args))) :
    (nodeRun .initial (history ++ cycle offers)).table (ip, len.val) =
        ((preferred (offers.map (·.args))).map installs).toFinset ↔
      Met (nodeRun .initial history).routes.rt (offers.map (·.args)) := by
  have mirrored := mirrored_run (history ++ cycle offers)
  have tidy : Tidy (nodeRun .initial history).routes.rt :=
    tidy_nodeRun (s := .initial) ⟨List.forall_mem_nil _, List.nodup_nil⟩ history
  let started : Node := nodeStep (nodeRun .initial history) (.callbackInit : NodeOp ip len)
  have began := offers_nodeRun started offers
  have shape : (nodeRun .initial (history ++ cycle offers)).routes =
      (callbackClear (nodeRun started (offers.map .routeReplace)).routes).1 := by
    rw [nodeRun, cycle, List.foldl_append, List.foldl_append]
    rfl
  rw [mirrored.same, shape]
  exact shown_cycle_iff tidy began mixed

def viaArgs (n cost : BitVec 32) (type : RouteType) : RouteArgs :=
  ⟨0x0a000000, 0xff000000, 0, 0xc0a80000 + n, cost, type, 0, 0⟩

/-- A route to 10.0.0.0/8 through the gateway 192.168.0.`n`. -/
def via (n cost : BitVec 32) (type : RouteType) : NodeOffer 0x0a000000 8 :=
  ⟨viaArgs n cost type, 0, rfl, show (updateMasklen 0xff000000 0).2 = 8 by decide⟩

/-- A cheaper inter-area route replaces the intra-area one. -/
theorem inter_area_wins :
    ¬ ∀ (history : List (NodeOp 0x0a000000 8)) (offers : List (NodeOffer 0x0a000000 8)),
      Mixed (offers.map (·.args)) →
        (nodeRun .initial (history ++ cycle offers)).table (0x0a000000, 8) =
          ((preferred (offers.map (·.args))).map installs).toFinset := by
  intro holds
  have same := holds [] [via 1 20 .ospf, via 2 10 .ospfIa] (by decide)
  exact absurd same (by decide)

theorem preferred_installed_cheapest :
    (nodeRun .initial ([] ++ cycle [via 2 20 .ospfIa, via 1 10 .ospf, via 3 10 .ospfE1])).table
        (0x0a000000, (8 : Fin 33).val) =
      ((preferred [viaArgs 2 20 .ospfIa, viaArgs 1 10 .ospf, viaArgs 3 10 .ospfE1]).map
        installs).toFinset :=
  (preferred_installed_iff [] [via 2 20 .ospfIa, via 1 10 .ospf, via 3 10 .ospfE1]
    (by decide)).mpr ⟨by decide, by decide, by decide, by decide⟩

end Runs

end PathPreference
