import Rcp100.SummaryUpdate

/-!
# The metric of a summary

A cost is a sum of 32 bits, and the originations put it into the summary as it is; the field
of the wire has 24 bits, and `lsa_add_cost` masks what it reads. Only
`lsa_originate_sumdefault` masks what it writes.
-/

namespace SummaryMetrics

open LsaFormat SummaryUpdate
open ByteBuffer (be32)
open Origination (newLsa sumMask sumMetric)

/-- `LSInfinity`, and the mask of the field. -/
def lsInfinity : BitVec 32 := 0x00ffffff

/-- The cost that another router reads out of a summary. -/
def readMetric (lsa : OspfLsa) : BitVec 32 := sumMetric lsa &&& 0x00ffffff

/-- The cost that `spf_sum_net` and `spf_sum_router` give to a received summary, by a border
router that is reached. -/
def spfSum (lsa : OspfLsa) (found : RtrLsa) : BitVec 32 := readMetric lsa + found.cost

/-- The cost that `spf_sum_router` leaves at a summary, by what `lsadbFind2` finds. -/
def spfSumRouter (lsa : OspfLsa) : Option RtrLsa → BitVec 32
  | some found => if found.cost < ospfMaxCost then spfSum lsa found else ospfMaxCost
  | none => ospfMaxCost

/-- `lsadbFind` of the border router that advertises a summary in the backbone. -/
def advertiser (b : Border) (lsa : OspfLsa) : Option RtrLsa :=
  (areaFind b 0).bind fun area => routerFind area lsa.header.advRouter

/-- What `lsadbFind2` may find for it: some advertisement with its identifier, which need not
be its own. -/
def Heard (b : Border) (lsa : OspfLsa) : Option RtrLsa → Prop
  | some found => ∃ area, areaFind b 0 = some area ∧ found ∈ area.routers ∧
      found.lsa.header.linkStateId = lsa.header.advRouter
  | none => ∀ area, areaFind b 0 = some area →
      ∀ r ∈ area.routers, r.lsa.header.linkStateId ≠ lsa.header.advRouter

/-- What summaries are originated for. -/
inductive Advertised where
  /-- a route of the routing table -/
  | network (rt : TableRt)
  /-- a range, with the highest cost of its routes -/
  | range (r : AreaRange) (cost : BitVec 32)
  /-- a boundary router of another area -/
  | boundary (r : RtrLsa)
  /-- a boundary router of a summary in the backbone, whose advertiser was looked up -/
  | transfer (lsa : OspfLsa) (heard : Option RtrLsa)

namespace Advertised

/-- The cost that this border router has computed. -/
def cost : Advertised → BitVec 32
  | .network rt => rt.cost
  | .range _ cost => cost
  | .boundary r => r.cost
  | .transfer lsa heard => spfSumRouter lsa heard

/-- The call that originates the summary in an area. -/
def call (b : Border) (areaId : BitVec 32) : Advertised → St → St
  | .network rt => lsaOriginateSumnetArea b areaId rt
  | .range r cost => lsaOriginateSumnetAreaRange b areaId r cost
  | .boundary r => lsaOriginateSumrouterArea b areaId r
  | .transfer lsa _ => lsaOriginateSumrouterTransferArea b areaId lsa

/-- The call originates a summary, with the router identifier of this area. -/
def Admitted (b : Border) (areaId : BitVec 32) (area : SumArea) : Advertised → Prop
  | .network _ => areaFind b areaId = some area ∧ (area.stub && area.noSummary) = false
  | .range r _ => areaFind b r.area = some area ∧ (area.stub && area.noSummary) = false
  | .boundary _ => areaFind b areaId = some area ∧ area.stub = false
  | .transfer lsa heard => areaFind b areaId = some area ∧ area.stub = false ∧ Heard b lsa heard

def key (area : SumArea) : Advertised → LsaKey
  | .network rt => ⟨3, rt.ip, area.routerId⟩
  | .range r _ => ⟨3, r.ip, area.routerId⟩
  | .boundary r => ⟨4, r.lsa.header.advRouter, area.routerId⟩
  | .transfer lsa _ => ⟨4, lsa.header.linkStateId, area.routerId⟩

/-- The number that is originated. -/
def metric (b : Border) : Advertised → BitVec 32
  | .transfer lsa _ => transferCost b lsa
  | a => a.cost

end Advertised

/-- The cost has 24 bits, or its low bits pass for infinity. -/
abbrev Within (cost : BitVec 32) : Prop := cost ≤ lsInfinity ∨ cost &&& 0x00ffffff = lsInfinity

/-- The condition on the costs. The number of a transfer is the sum by the advertiser, reached or
not, and 10 where `lsadbFind` has none. -/
def Advertised.Fits (b : Border) : Advertised → Prop
  | .transfer lsa heard =>
    match advertiser b lsa, heard with
    | none, none => False
    | none, some found => found.cost < ospfMaxCost ∧ spfSum lsa found ≤ 10
    | some advr, none => spfSum lsa advr &&& 0x00ffffff = lsInfinity
    | some advr, some found =>
      (found.cost < ospfMaxCost ∧ spfSum lsa found ≤ spfSum lsa advr &&& 0x00ffffff) ∨
        spfSum lsa advr &&& 0x00ffffff = lsInfinity
  | a => Within a.cost

/-- The summary under the key is there, and what others read is no smaller number. -/
def NeverLess (st : St) (k : Place) (cost : BitVec 32) : Prop :=
  ∃ e, st.find k = some e ∧ (cost ≤ readMetric e.lsa ∨ readMetric e.lsa = lsInfinity)

section Masked

theorem toNat_masked (x : BitVec 32) : (x &&& 0x00ffffff).toNat = x.toNat % 2 ^ 24 := by
  rw [BitVec.toNat_and]
  exact Nat.and_two_pow_sub_one_eq_mod x.toNat 24

theorem masked_add (x y : BitVec 32) :
    (x + y) &&& 0x00ffffff = ((x &&& 0x00ffffff) + y) &&& 0x00ffffff := by
  refine BitVec.eq_of_toNat_eq ?_
  rw [toNat_masked, toNat_masked, BitVec.toNat_add, BitVec.toNat_add, toNat_masked]
  omega

theorem le_masked_iff (cost : BitVec 32) :
    cost ≤ cost &&& 0x00ffffff ↔ cost ≤ lsInfinity := by
  rw [BitVec.le_def, BitVec.le_def, toNat_masked]
  have mask : lsInfinity.toNat = 2 ^ 24 - 1 := rfl
  omega

end Masked

theorem readMetric_perform {st : St} (r : Request) :
    ∃ e, (perform st r).find r.place = some e ∧ readMetric e.lsa = r.metric &&& 0x00ffffff := by
  obtain ⟨e, found, value⟩ := find_perform_self st r
  have metric : sumMetric e.lsa = r.metric := congrArg Prod.snd value
  exact ⟨e, found, by rw [readMetric, metric]⟩

theorem Advertised.performs {b : Border} {areaId : BitVec 32} {area : SumArea} {a : Advertised}
    (admitted : a.Admitted b areaId area) (st : St) :
    ∃ mask, a.call b areaId st =
      (perform st ⟨areaId, a.key area, mask, a.metric b⟩).setCosts st.costs := by
  have router : ∀ id metric : BitVec 32, areaFind b areaId = some area → area.stub = false →
      originateRouter b areaId id metric st =
        (perform st ⟨areaId, ⟨4, id, area.routerId⟩, 0, metric⟩).setCosts st.costs := by
    intro id metric found carries
    have performs := performs_router b areaId id metric st rfl
    simp only [routerRequests, found, carries, Bool.false_eq_true, if_false] at performs
    exact performs
  cases a with
  | network rt =>
    obtain ⟨found, carries⟩ := admitted
    have performs := performs_sumnetArea b areaId rt st rfl
    simp only [sumnetRequests, found, carries, Bool.false_eq_true, if_false] at performs
    exact ⟨rt.mask, performs⟩
  | range r cost =>
    obtain ⟨found, carries⟩ := admitted
    have performs := performs_sumnetAreaRange b areaId r cost st rfl
    simp only [sumnetRangeRequests, found, carries, Bool.false_eq_true, if_false] at performs
    exact ⟨r.mask, performs⟩
  | boundary r => exact ⟨0, router r.lsa.header.advRouter r.cost admitted.1 admitted.2⟩
  | transfer lsa heard =>
    exact ⟨0, router lsa.header.linkStateId (transferCost b lsa) admitted.1 admitted.2.1⟩

theorem within_iff (cost : BitVec 32) : cost ≤ cost &&& 0x00ffffff ∨
    cost &&& 0x00ffffff = lsInfinity ↔ Within cost :=
  or_congr_left (le_masked_iff cost)

theorem transferCost_some {b : Border} {lsa : OspfLsa} {advr : RtrLsa}
    (found : advertiser b lsa = some advr) :
    transferCost b lsa &&& 0x00ffffff = spfSum lsa advr &&& 0x00ffffff := by
  rw [advertiser] at found
  simp only [transferCost, found]
  rw [masked_add, spfSum, readMetric]

theorem transferCost_none {b : Border} {lsa : OspfLsa} (found : advertiser b lsa = none) :
    transferCost b lsa = 10 := by
  rw [advertiser] at found
  simp only [transferCost, found]

theorem not_max_le_masked (x : BitVec 32) : ¬ ospfMaxCost ≤ x &&& 0x00ffffff := by
  rw [BitVec.le_def, toNat_masked]
  have top : ospfMaxCost.toNat = 2 ^ 32 - 1 := rfl
  omega

theorem spfSumRouter_le_iff {lsa : OspfLsa} {found : RtrLsa} (x : BitVec 32) :
    spfSumRouter lsa (some found) ≤ x &&& 0x00ffffff ↔
      found.cost < ospfMaxCost ∧ spfSum lsa found ≤ x &&& 0x00ffffff := by
  by_cases reached : found.cost < ospfMaxCost
  · rw [spfSumRouter, if_pos reached, and_iff_right reached]
  · rw [spfSumRouter, if_neg reached]
    exact iff_of_false (not_max_le_masked x) fun both => reached both.1

theorem Advertised.fits_iff (b : Border) (a : Advertised) :
    (a.cost ≤ a.metric b &&& 0x00ffffff ∨ a.metric b &&& 0x00ffffff = lsInfinity) ↔ a.Fits b := by
  cases a with
  | network rt => exact within_iff rt.cost
  | range r cost => exact within_iff cost
  | boundary r => exact within_iff r.cost
  | transfer lsa heard =>
    have ten : ¬ (10 : BitVec 32) &&& 0x00ffffff = lsInfinity := by decide
    cases found : advertiser b lsa with
    | none =>
      simp only [cost, metric, Fits, found, transferCost_none found, or_iff_left ten]
      cases heard with
      | none => exact iff_of_false (not_max_le_masked 10) id
      | some heard => exact spfSumRouter_le_iff 10
    | some advr =>
      simp only [cost, metric, Fits, found, transferCost_some found]
      cases heard with
      | none => exact or_iff_right (not_max_le_masked _)
      | some heard => exact or_congr_left (spfSumRouter_le_iff _)

/-- Where both lookups find the advertiser itself, its sum has to be within the bound; one that
is not reached passes for infinity by the metric 0 only. -/
theorem Advertised.fits_transfer {b : Border} {lsa : OspfLsa} {advr : RtrLsa}
    (found : advertiser b lsa = some advr) :
    (transfer lsa (some advr)).Fits b ↔
      if advr.cost < ospfMaxCost then Within (spfSum lsa advr) else readMetric lsa = 0 := by
  simp only [Fits, found]
  split
  · rename_i reached
    rw [and_iff_right reached, within_iff]
  · rename_i unreached
    have max : ospfMaxCost.toNat = 2 ^ 32 - 1 := rfl
    have infinity : lsInfinity.toNat = 2 ^ 24 - 1 := rfl
    have top : advr.cost = ospfMaxCost := by
      have bound := advr.cost.isLt
      rw [BitVec.lt_def] at unreached
      exact BitVec.eq_of_toNat_eq (by omega)
    rw [or_iff_right fun both => unreached both.1, spfSum, top, readMetric]
    constructor
    · intro full
      have full := congrArg BitVec.toNat full
      rw [toNat_masked, BitVec.toNat_add, toNat_masked, max, infinity] at full
      refine BitVec.eq_of_toNat_eq ?_
      rw [toNat_masked]
      have zero : (0 : BitVec 32).toNat = 0 := rfl
      omega
    · intro zero
      rw [zero]
      decide

/-- What others read is no smaller number exactly for the costs of 24 bits, and for those
whose low bits pass for infinity; for a transfer by the sum of its advertiser. -/
theorem never_less_iff {b : Border} {areaId : BitVec 32} {area : SumArea} {a : Advertised}
    (admitted : a.Admitted b areaId area) (st : St) :
    NeverLess (a.call b areaId st) (areaId, a.key area) a.cost ↔ a.Fits b := by
  obtain ⟨mask, performs⟩ := Advertised.performs admitted st
  obtain ⟨e, found, read⟩ := @readMetric_perform st ⟨areaId, a.key area, mask, a.metric b⟩
  have here : (a.call b areaId st).find (areaId, a.key area) = some e := by
    rw [performs]
    exact found
  have shape : NeverLess (a.call b areaId st) (areaId, a.key area) a.cost ↔
      a.cost ≤ readMetric e.lsa ∨ readMetric e.lsa = lsInfinity := by
    constructor
    · rintro ⟨e', found', never⟩
      cases here.symm.trans found'
      exact never
    · exact fun never => ⟨e, here, never⟩
  rw [shape, read, a.fits_iff]

/-- A summary from the router 10.0.0.9 with the metric infinity, and that router at distance 1. -/
def farSummary : OspfLsa := newLsa 0x80000001 2 ⟨3, 0x0a010000, 0x0a000009⟩
  (be32 0xffff0000 ++ be32 0x00ffffff)

def nearRouter : RtrLsa := ⟨newLsa 0x80000001 2 ⟨1, 0x0a000009, 0x0a000009⟩ (be32 0), 1⟩

/-- A border router of the areas 0 and 1 with an inter-area route of this cost. -/
def interArea (cost : BitVec 32) : Border where
  isAbr := true
  areas := [⟨0, 0x01010101, false, false, 1, [nearRouter]⟩, ⟨1, 0x01010101, false, false, 1, []⟩]
  nodup := by decide
  table := [[⟨0x0a010000, 0xffff0000, cost, 0, .ospfIa⟩]]
  rangeIsConfigured := false
  ospfRange := []

/-- The cost by the summary is `0x01000000`, and the area 1 reads 0. -/
theorem infinity_and_one_read_as_zero :
    ∃ rt ∈ (interArea (spfSum farSummary nearRouter)).table.flatten,
      rt.cost = 0x01000000 ∧
      (∃ e, (lsaOriginateSummaryUpdate (interArea (spfSum farSummary nearRouter))
          noSummaries).find (1, ⟨3, rt.ip, 0x01010101⟩) = some e ∧ readMetric e.lsa = 0) ∧
      ¬ NeverLess ((Advertised.network rt).call (interArea (spfSum farSummary nearRouter)) 1
          noSummaries) (1, ⟨3, rt.ip, 0x01010101⟩) rt.cost := by
  refine ⟨⟨0x0a010000, 0xffff0000, spfSum farSummary nearRouter, 0, .ospfIa⟩, by simp [interArea],
    by decide, ?_, ?_⟩
  · have read : ((lsaOriginateSummaryUpdate (interArea (spfSum farSummary nearRouter))
        noSummaries).find (1, ⟨3, 0x0a010000, 0x01010101⟩)).map (fun e => readMetric e.lsa) =
          some 0 := by decide +kernel
    obtain ⟨e, found, zero⟩ := Option.map_eq_some_iff.mp read
    exact ⟨e, found, zero⟩
  · rintro ⟨e, found, never⟩
    have read : ((lsaOriginateSumnetArea (interArea (spfSum farSummary nearRouter)) 1
        ⟨0x0a010000, 0xffff0000, spfSum farSummary nearRouter, 0, .ospfIa⟩ noSummaries).find
          (1, ⟨3, 0x0a010000, 0x01010101⟩)).map (fun e => readMetric e.lsa) = some 0 := by
      decide +kernel
    simp only [Advertised.call] at found
    rw [found] at read
    have zero : readMetric e.lsa = 0 := Option.some.inj read
    rw [zero] at never
    revert never
    decide +kernel

/-- A boundary router behind the router 10.0.0.9, with the metric 20. -/
def boundarySummary : OspfLsa := newLsa 0x80000001 2 ⟨4, 0x0a000063, 0x0a000009⟩ (be32 0 ++ be32 20)

/-- The cost 21 is read as it is. -/
theorem never_less_small :
    NeverLess ((Advertised.transfer boundarySummary (some nearRouter)).call (interArea 20) 1
      noSummaries) (1, ⟨4, 0x0a000063, 0x01010101⟩) 21 :=
  (@never_less_iff (interArea 20) 1 ⟨1, 0x01010101, false, false, 1, []⟩
    (.transfer boundarySummary (some nearRouter))
    ⟨rfl, rfl, _, rfl, List.mem_cons_self, by decide +kernel⟩ noSummaries).mpr
      ((Advertised.fits_transfer (by rfl)).mpr (by decide +kernel))

end SummaryMetrics
