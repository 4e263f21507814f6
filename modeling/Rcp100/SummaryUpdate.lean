import Rcp100.Origination
import Rcp100.OwnedList
import Rcp100.KeyedRewrite

/-!
# The update of summaries

`lsa_originate_summary_update` runs at the end of every calculation of routes: it marks the
summaries of this router, walks the routing table, the configured ranges and the boundary
routers of all areas, originates what is missing or has changed, and removes the summaries
that are still marked. Summaries are found by their network address alone. Each
`lsadbAdd` and `lsadbRemove` triggers another calculation.
-/

namespace SummaryUpdate

open LsaFormat ByteBuffer Origination KeyedRewrite
open OwnedList (OwnFirst own own_eq_some own_put own_map own_touch own_filter)
open Function (update update_of_ne update_self)

/-- `OSPF_MAX_COST`. -/
def ospfMaxCost : BitVec 32 := 0xffffffff

/-- A summary in the database, with its delete flag. -/
structure Entry where
  lsa : OspfLsa
  delFlag : Bool

namespace Entry

def key (e : Entry) : LsaKey := e.lsa.key

def selfOriginated (e : Entry) : Bool := e.lsa.selfOriginated

def kept (e : Entry) : Entry := { e with delFlag := false }

/-- The default summary of a stub area is not marked. -/
def marked (stub : Bool) (e : Entry) : Entry :=
  if e.selfOriginated then
    { e with delFlag := !(e.lsa.header.linkStateId = 0 && stub) }
  else e

theorem lsa_marked (stub : Bool) (e : Entry) : (e.marked stub).lsa = e.lsa := by
  unfold marked
  split
  · rfl
  · rfl

theorem key_marked (stub : Bool) (e : Entry) : (e.marked stub).key = e.key :=
  congrArg OspfLsa.key (lsa_marked stub e)

theorem selfOriginated_marked (stub : Bool) (e : Entry) :
    (e.marked stub).selfOriginated = e.selfOriginated :=
  congrArg OspfLsa.selfOriginated (lsa_marked stub e)

end Entry

/-- The lists of the types 3 and 4 of an area are one list here: a search names the type.
A summary of this router is the first one under its key, and no other one is marked. -/
structure Sums where
  list : List Entry
  first : OwnFirst Entry.key Entry.selfOriginated list
  clean : ∀ e ∈ list, e.delFlag = true → e.selfOriginated = true

/-- A router advertisement with the cost that the calculation of routes gave it. -/
structure RtrLsa where
  lsa : OspfLsa
  cost : BitVec 32

/-- An area; `network` is the number of its networks and `routers` its list of type 1. -/
structure SumArea where
  areaId : BitVec 32
  routerId : BitVec 32
  stub : Bool
  noSummary : Bool
  network : Nat
  routers : List RtrLsa

inductive RtType where
  | none
  | connected
  | static
  | ospf
  | ospfIa
  | ospfE1
  | ospfE2
  | blackhole
  deriving DecidableEq, Repr

/-- A route of a node of the routing table. -/
structure TableRt where
  ip : BitVec 32
  mask : BitVec 32
  cost : BitVec 32
  areaId : BitVec 32
  type : RtType

/-- `RcpOspfRange`, less its cost. -/
structure AreaRange where
  valid : Bool
  notAdvertise : Bool
  area : BitVec 32
  ip : BitVec 32
  mask : BitVec 32

/-- What the update reads: the areas in the order of their list (`areaAdd` refuses an
identifier that is there), the nodes of the routing table in the order of `route_walk`, and
the configured ranges. -/
structure Border where
  isAbr : Bool
  areas : List SumArea
  nodup : (areas.map SumArea.areaId).Nodup
  table : List (List TableRt)
  rangeIsConfigured : Bool
  ospfRange : List AreaRange

inductive Change where
  | originated (areaId : BitVec 32) (lsa : OspfLsa)
  | removed (areaId : BitVec 32) (lsa : OspfLsa)

/-- What the update changes: the summaries of every area, the costs of the ranges by their
place in the table, and whether `spfTrigger` was called. -/
structure St where
  sums : BitVec 32 → Sums
  costs : Nat → BitVec 32
  seqNumber : BitVec 32
  spf : Bool
  log : List Change

def areaFind (b : Border) (areaId : BitVec 32) : Option SumArea :=
  b.areas.find? (fun area => area.areaId = areaId)

def networkCount (b : Border) (areaId : BitVec 32) : Nat := (areaFind b areaId).elim 0 (·.network)

def Sums.put (sums : Sums) (e : Entry) (fresh : e.delFlag = false) : Sums where
  list := OwnedList.put Entry.key Entry.selfOriginated sums.list e
  first := sums.first.put e
  clean := by
    intro x member marked
    rcases List.mem_cons.mp member with rfl | old
    · rw [fresh] at marked
      cases marked
    · exact sums.clean x (OwnedList.drop_sublist.subset old) marked

theorem clean_touch {list : List Entry}
    (clean : ∀ e ∈ list, e.delFlag = true → e.selfOriginated = true) (key : LsaKey) :
    ∀ e ∈ OwnedList.touch Entry.key list key Entry.kept,
      e.delFlag = true → e.selfOriginated = true := by
  induction list with
  | nil => exact fun x member => absurd member List.not_mem_nil
  | cons e list ih =>
    obtain ⟨head, tail⟩ := List.forall_mem_cons.mp clean
    rw [OwnedList.touch]
    split
    · exact List.forall_mem_cons.mpr ⟨(fun marked => absurd marked Bool.false_ne_true), tail⟩
    · exact List.forall_mem_cons.mpr ⟨head, ih tail⟩

/-- The delete flag of the summary that the search finds is cleared. -/
def Sums.keep (sums : Sums) (key : LsaKey) : Sums where
  list := OwnedList.touch Entry.key sums.list key Entry.kept
  first := OwnFirst.touch (f := Entry.kept) (fun _ => rfl) (fun _ => rfl) sums.first key
  clean := clean_touch sums.clean key

/-- The summary of this router that `lsadbFind` returns. -/
def Sums.find (sums : Sums) (key : LsaKey) : Option Entry :=
  own Entry.key Entry.selfOriginated sums.list key

def St.setSums (st : St) (areaId : BitVec 32) (sums : Sums) : St :=
  { st with sums := update st.sums areaId sums }

/-- A summary with these options is originated, and added by the caller, unless the one
that is there passes for it. -/
def originateIn (areaId : BitVec 32) (key : LsaKey) (mask metric : BitVec 32)
    (unchanged : OspfLsa → Bool) (st : St) : St :=
  if ((st.sums areaId).find key).any (fun e => unchanged e.lsa) then
    st.setSums areaId ((st.sums areaId).keep key)
  else
    let lsa := newLsa st.seqNumber 2 key (be32 mask ++ be32 metric)
    { st.setSums areaId ((st.sums areaId).put ⟨lsa, false⟩ rfl) with
      seqNumber := LsdbFreshness.lsaIncrementSeq st.seqNumber
      spf := true
      log := st.log ++ [.originated areaId lsa] }

def lsaOriginateSumnetArea (b : Border) (areaId : BitVec 32) (rt : TableRt) (st : St) : St :=
  match areaFind b areaId with
  | none => st
  | some area =>
    if area.stub && area.noSummary then st
    else originateIn areaId ⟨3, rt.ip, area.routerId⟩ rt.mask rt.cost
      (fun found => sumMask found = rt.mask && sumMetric found = rt.cost) st

/-- The range and its place in the table. -/
def rangeMatch (b : Border) (area ip mask : BitVec 32) : Option (AreaRange × Nat) :=
  if b.rangeIsConfigured then
    b.ospfRange.zipIdx.find? (fun p =>
      p.1.valid && area = p.1.area && p.1.mask ≤ mask && (p.1.ip &&& p.1.mask) = (ip &&& p.1.mask))
  else none

/-- The cost of a range is the highest one of its routes. -/
def raiseCost (i : Nat) (cost : BitVec 32) (costs : Nat → BitVec 32) : Nat → BitVec 32 :=
  if cost ≠ ospfMaxCost ∧ (costs i = ospfMaxCost ∨ costs i < cost) then
    update costs i cost
  else costs

/-- The other areas that have networks. -/
def elsewhere (b : Border) (areaId : BitVec 32) (area : SumArea) : Bool :=
  area.areaId ≠ areaId && networkCount b area.areaId ≠ 0

def lsaOriginateIntra (b : Border) (rt : TableRt) (st : St) : St :=
  b.areas.foldl (fun st area =>
    if elsewhere b rt.areaId area then
      match rangeMatch b rt.areaId rt.ip rt.mask with
      | none => lsaOriginateSumnetArea b area.areaId rt st
      | some (range, i) =>
        if range.notAdvertise then st else { st with costs := raiseCost i rt.cost st.costs }
    else st) st

/-- The entries of a node before the first free one. -/
def configured (ptn : List TableRt) : List TableRt := ptn.takeWhile (fun rt => rt.type ≠ .none)

/-- Another route of the node is in the area. -/
def reachedIn (ptn : List TableRt) (i : Nat) (areaId : BitVec 32) : Bool :=
  (configured ptn).zipIdx.any (fun p => p.2 ≠ i && p.1.areaId = areaId)

def lsaOriginateInter (b : Border) (ptn : List TableRt) (i : Nat) (rt : TableRt) (st : St) : St :=
  b.areas.foldl (fun st area =>
    if elsewhere b rt.areaId area then
      if reachedIn ptn i area.areaId then st else lsaOriginateSumnetArea b area.areaId rt st
    else st) st

def callbackSummary (b : Border) (ptn : List TableRt) (st : St) : St :=
  (configured ptn).zipIdx.foldl (fun st p =>
    match p.1.type with
    | .connected => lsaOriginateIntra b p.1 st
    | .ospf => lsaOriginateIntra b p.1 st
    | .ospfIa => lsaOriginateInter b ptn p.2 p.1 st
    | _ => st) st

/-- The stub flags and the router identifier are those of the area of the range. -/
def lsaOriginateSumnetAreaRange (b : Border) (areaId : BitVec 32) (range : AreaRange)
    (cost : BitVec 32) (st : St) : St :=
  match areaFind b range.area with
  | none => st
  | some area =>
    if area.stub && area.noSummary then st
    else originateIn areaId ⟨3, range.ip, area.routerId⟩ range.mask cost
      (fun found => sumMask found = range.mask && sumMetric found = cost) st

def lsaOriginateSumnetRange (b : Border) (range : AreaRange) (cost : BitVec 32) (st : St) : St :=
  b.areas.foldl (fun st area =>
    if elsewhere b range.area area then lsaOriginateSumnetAreaRange b area.areaId range cost st
    else st) st

/-- `lsadbFind` of the router advertisement of `id` in an area. -/
def routerFind (area : SumArea) (id : BitVec 32) : Option RtrLsa :=
  area.routers.find? (fun r => r.lsa.key = ⟨1, id, id⟩)

/-- A summary of the type 4; the mask is not compared. -/
def originateRouter (b : Border) (areaId id cost : BitVec 32) (st : St) : St :=
  match areaFind b areaId with
  | none => st
  | some area =>
    if area.stub then st
    else originateIn areaId ⟨4, id, area.routerId⟩ 0 cost (fun found => sumMetric found = cost) st

def lsaOriginateSumrouterArea (b : Border) (areaId : BitVec 32) (r : RtrLsa) : St → St :=
  originateRouter b areaId r.lsa.header.advRouter r.cost

/-- The cost to the boundary router by the border router that advertises it. -/
def transferCost (b : Border) (lsa : OspfLsa) : BitVec 32 :=
  match (areaFind b 0).bind (fun area => routerFind area lsa.header.advRouter) with
  | some advr => sumMetric lsa + advr.cost
  | none => 10

def lsaOriginateSumrouterTransferArea (b : Border) (areaId : BitVec 32) (lsa : OspfLsa) : St → St :=
  originateRouter b areaId lsa.header.linkStateId (transferCost b lsa)

/-- The areas other than `areaId` that do not hold the router `id`. -/
def lacking (b : Border) (areaId id : BitVec 32) (area : SumArea) : Bool :=
  elsewhere b areaId area &&
    ((areaFind b area.areaId).bind (fun area => routerFind area id)).isNone

def lsaOriginateSumrouter (b : Border) (areaId : BitVec 32) (r : RtrLsa) (st : St) : St :=
  if !b.isAbr then st
  else b.areas.foldl (fun st area =>
    if lacking b areaId r.lsa.header.linkStateId area then
      lsaOriginateSumrouterArea b area.areaId r st
    else st) st

def lsaOriginateSumrouterTransfer (b : Border) (areaId : BitVec 32) (lsa : OspfLsa) (st : St) :
    St :=
  if !b.isAbr then st
  else b.areas.foldl (fun st area =>
    if lacking b areaId lsa.header.linkStateId area then
      lsaOriginateSumrouterTransferArea b area.areaId lsa st
    else st) st

def Sums.mark (stub : Bool) (sums : Sums) : Sums where
  list := sums.list.map (Entry.marked stub)
  first := sums.first.map (Entry.key_marked stub) (Entry.selfOriginated_marked stub)
  clean := by
    intro x member marked
    obtain ⟨e, before, rfl⟩ := List.mem_map.mp member
    rw [Entry.selfOriginated_marked]
    by_cases own : e.selfOriginated = true
    · exact own
    · rw [Entry.marked, if_neg own] at marked
      exact sums.clean e before marked

def markAreas (b : Border) (st : St) : St :=
  b.areas.foldl (fun st area => st.setSums area.areaId ((st.sums area.areaId).mark area.stub)) st

def resetCosts (b : Border) (costs : Nat → BitVec 32) : Nat → BitVec 32 :=
  if b.rangeIsConfigured then
    fun i => if (b.ospfRange[i]?).any (·.valid) then ospfMaxCost else costs i
  else costs

def addRanges (b : Border) (st : St) : St :=
  if b.rangeIsConfigured then
    b.ospfRange.zipIdx.foldl (fun st p =>
      if p.1.valid && st.costs p.2 ≠ ospfMaxCost then
        lsaOriginateSumnetRange b p.1 (st.costs p.2) st
      else st) st
  else st

/-- A boundary router that is reached. -/
def isBoundary (r : RtrLsa) : Bool :=
  !r.lsa.selfOriginated && r.cost ≠ ospfMaxCost && (r.lsa.memory 20 &&& 2) ≠ 0

def addBoundaries (b : Border) (st : St) : St :=
  b.areas.foldl (fun st area =>
    if networkCount b area.areaId ≠ 0 then
      area.routers.foldl (fun st r =>
        if isBoundary r then lsaOriginateSumrouter b area.areaId r st else st) st
    else st) st

/-- The summaries of the type 4 in the backbone. -/
def backbone (b : Border) (st : St) : List Entry :=
  if networkCount b 0 ≠ 0 then (st.sums 0).list.filter (fun e => e.lsa.header.type = 4) else []

def transferBoundaries (b : Border) (st : St) : St :=
  (backbone b st).foldl (fun st e =>
    if !e.selfOriginated then lsaOriginateSumrouterTransfer b 0 e.lsa st else st) st

def Sums.sweep (sums : Sums) : Sums where
  list := sums.list.filter (fun e => !e.delFlag)
  first := sums.first.sublist List.filter_sublist
  clean := fun e member => sums.clean e (List.mem_of_mem_filter member)

/-- The summaries of an area that are still marked are flooded with `MaxAge` and removed. -/
def sweepArea (st : St) (area : SumArea) : St :=
  let marked := (st.sums area.areaId).list.filter (·.delFlag)
  { st.setSums area.areaId (st.sums area.areaId).sweep with
    spf := st.spf || !marked.isEmpty
    log := st.log ++ marked.map (fun e => .removed area.areaId (e.lsa.setAge maxAge)) }

def lsaOriginateSummaryUpdate (b : Border) (st : St) : St :=
  if !b.isAbr then st
  else
    let st := markAreas b st
    let st := { st with costs := resetCosts b st.costs }
    let st := b.table.foldl (fun st ptn => callbackSummary b ptn st) st
    let st := addRanges b st
    let st := addBoundaries b st
    let st := transferBoundaries b st
    b.areas.foldl sweepArea st

section Agreement

variable {cfg : Settings} {b : Border} {s : LsaAging.Ospf} {st : St}

/-- The lists of `Origination` and the state of an update show the same to a request. -/
structure Same (cfg : Settings) (b : Border) (s : LsaAging.Ospf) (st : St) : Prop where
  seqNumber : s.seqNumber = st.seqNumber
  area (id : BitVec 32) :
    (s.areas.find id).map LsUpdate.Area.stub = (areaFind b id).map SumArea.stub
  settings : ∀ area ∈ b.areas, cfg.routerId area.areaId = area.routerId ∧
    cfg.noSummary area.areaId = area.noSummary
  copy (id : BitVec 32) (key : LsaKey) (summary : key.type = 3 ∨ key.type = 4) :
    ownCopy s id key = ((st.sums id).find key).map Entry.lsa
  router (id : BitVec 32) : (lsadbFind s 0 ⟨1, id, id⟩).map cfg.lsaCost =
    ((areaFind b 0).bind (fun area => routerFind area id)).map RtrLsa.cost

/-- The update originates what a function of `Origination` returns. -/
def Returns (areaId : BitVec 32) (st st' : St) (r : LsaAging.Ospf × Option OspfLsa) : Prop :=
  st'.log = st.log ++ r.2.toList.map (.originated areaId) ∧ r.1.seqNumber = st'.seqNumber

theorem Same.idle (same : Same cfg b s st) (areaId : BitVec 32) :
    Returns areaId st st (s, none) :=
  ⟨(List.append_nil _).symm, same.seqNumber⟩

theorem Same.found (same : Same cfg b s st) (id : BitVec 32) :
    (s.areas.find id = none ∧ areaFind b id = none) ∨
      ∃ area area', s.areas.find id = some area ∧ areaFind b id = some area' ∧
        area.stub = area'.stub ∧ cfg.routerId id = area'.routerId ∧
        cfg.noSummary id = area'.noSummary := by
  have stub := same.area id
  cases there : areaFind b id with
  | none =>
    rw [there] at stub
    exact .inl ⟨Option.map_eq_none_iff.mp stub, rfl⟩
  | some area' =>
    rw [there] at stub
    obtain ⟨area, here, stub⟩ := Option.map_eq_some_iff.mp stub
    obtain ⟨routerId, noSummary⟩ := same.settings area' (List.mem_of_find?_eq_some there)
    have id' : area'.areaId = id := of_decide_eq_true
      (List.find?_some (p := fun a : SumArea => decide (a.areaId = id)) there)
    rw [id'] at routerId noSummary
    exact .inr ⟨area, area', here, rfl, stub, routerId, noSummary⟩

theorem Same.originateIn (same : Same cfg b s st) (areaId : BitVec 32) {key : LsaKey}
    (summary : key.type = 3 ∨ key.type = 4) (mask metric : BitVec 32)
    (unchanged : OspfLsa → Bool) :
    Returns areaId st (originateIn areaId key mask metric unchanged st)
      (originateSummary s areaId 2 key mask metric unchanged) := by
  have copy : (ownCopy s areaId key).any unchanged =
      ((st.sums areaId).find key).any (fun e => unchanged e.lsa) := by
    rw [same.copy areaId key summary, Option.any_map]
  unfold SummaryUpdate.originateIn originateSummary
  rw [copy, same.seqNumber]
  split
  · exact ⟨(List.append_nil _).symm, same.seqNumber⟩
  · refine ⟨rfl, ?_⟩
    have seq : ∀ s : LsaAging.Ospf, (unlink s areaId key).seqNumber = s.seqNumber := by
      intro s
      unfold unlink
      split <;> rfl
    unfold replaceCopy
    split
    · exact (seq _).trans (congrArg LsdbFreshness.lsaIncrementSeq same.seqNumber)
    · exact congrArg LsdbFreshness.lsaIncrementSeq same.seqNumber

/-- An update originates the summaries that the functions of `Origination` do. -/
theorem originations_agree (same : Same cfg b s st) (areaId : BitVec 32) (rt : TableRt)
    (range : AreaRange) (cost : BitVec 32) (r : RtrLsa) (costs : cfg.lsaCost r.lsa = r.cost)
    (lsa : OspfLsa) :
    Returns areaId st (lsaOriginateSumnetArea b areaId rt st)
        (Origination.lsaOriginateSumnetArea cfg s areaId ⟨rt.ip, rt.mask, rt.cost⟩) ∧
      Returns areaId st (lsaOriginateSumnetAreaRange b areaId range cost st)
        (Origination.lsaOriginateSumnetAreaRange cfg s areaId
          ⟨range.area, range.ip, range.mask, cost⟩) ∧
      Returns areaId st (lsaOriginateSumrouterArea b areaId r st)
        (Origination.lsaOriginateSumrouterArea cfg s areaId r.lsa) ∧
      Returns areaId st (lsaOriginateSumrouterTransferArea b areaId lsa st)
        (Origination.lsaOriginateSumrouterTransferArea cfg s areaId lsa) := by
  have transfer : Origination.transferCost cfg s lsa = transferCost b lsa := by
    have router := same.router lsa.header.advRouter
    unfold Origination.transferCost transferCost
    cases there : (areaFind b 0).bind (fun area => routerFind area lsa.header.advRouter) with
    | none =>
      rw [there] at router
      rw [Option.map_eq_none_iff.mp router]
    | some advr =>
      rw [there] at router
      obtain ⟨here, found, cost⟩ := Option.map_eq_some_iff.mp router
      rw [found]
      exact congrArg (sumMetric lsa + ·) cost
  refine ⟨?_, ?_, ?_, ?_⟩
  · unfold lsaOriginateSumnetArea Origination.lsaOriginateSumnetArea
    rcases same.found areaId with ⟨h, h'⟩ | ⟨area, area', h, h', stub, routerId, noSummary⟩
    · rw [h, h']
      exact same.idle areaId
    · simp only [h, h', stub, noSummary, sumnetKey, routerId]
      split
      · exact same.idle areaId
      · exact same.originateIn areaId (.inl rfl) _ _ _
  · unfold lsaOriginateSumnetAreaRange Origination.lsaOriginateSumnetAreaRange
    rcases same.found range.area with ⟨h, h'⟩ | ⟨area, area', h, h', stub, routerId, noSummary⟩
    · rw [h, h']
      exact same.idle areaId
    · simp only [h, h', stub, noSummary, sumnetKey, routerId]
      split
      · exact same.idle areaId
      · exact same.originateIn areaId (.inl rfl) _ _ _
  · unfold lsaOriginateSumrouterArea originateRouter Origination.lsaOriginateSumrouterArea
    rcases same.found areaId with ⟨h, h'⟩ | ⟨area, area', h, h', stub, routerId, -⟩
    · rw [h, h']
      exact same.idle areaId
    · simp only [h, h', stub, sumrouterKey, routerId, costs]
      split
      · exact same.idle areaId
      · exact same.originateIn areaId (.inr rfl) _ _ _
  · unfold lsaOriginateSumrouterTransferArea originateRouter
      Origination.lsaOriginateSumrouterTransferArea
    rcases same.found areaId with ⟨h, h'⟩ | ⟨area, area', h, h', stub, routerId, -⟩
    · rw [h, h']
      exact same.idle areaId
    · simp only [h, h', stub, sumrouterKey, routerId, transfer]
      split
      · exact same.idle areaId
      · exact same.originateIn areaId (.inr rfl) _ _ _

end Agreement

/-- A summary that is asked for in an area. -/
structure Request where
  areaId : BitVec 32
  key : LsaKey
  mask : BitVec 32
  metric : BitVec 32
  deriving DecidableEq

/-- The requests of one route for one area. -/
def sumnetRequests (b : Border) (areaId : BitVec 32) (rt : TableRt) : List Request :=
  match areaFind b areaId with
  | none => []
  | some area =>
    if area.stub && area.noSummary then []
    else [⟨areaId, ⟨3, rt.ip, area.routerId⟩, rt.mask, rt.cost⟩]

def intraRequests (b : Border) (rt : TableRt) : List Request :=
  b.areas.flatMap (fun area =>
    if elsewhere b rt.areaId area then
      match rangeMatch b rt.areaId rt.ip rt.mask with
      | none => sumnetRequests b area.areaId rt
      | some _ => []
    else [])

/-- What an intra-area route adds to the cost of its range. -/
def intraCosts (b : Border) (rt : TableRt) (costs : Nat → BitVec 32) : Nat → BitVec 32 :=
  b.areas.foldl (fun costs area =>
    if elsewhere b rt.areaId area then
      match rangeMatch b rt.areaId rt.ip rt.mask with
      | none => costs
      | some (range, i) => if range.notAdvertise then costs else raiseCost i rt.cost costs
    else costs) costs

def interRequests (b : Border) (ptn : List TableRt) (i : Nat) (rt : TableRt) : List Request :=
  b.areas.flatMap (fun area =>
    if elsewhere b rt.areaId area then
      if reachedIn ptn i area.areaId then [] else sumnetRequests b area.areaId rt
    else [])

def nodeRequests (b : Border) (ptn : List TableRt) : List Request :=
  (configured ptn).zipIdx.flatMap (fun p =>
    match p.1.type with
    | .connected => intraRequests b p.1
    | .ospf => intraRequests b p.1
    | .ospfIa => interRequests b ptn p.2 p.1
    | _ => [])

def nodeCosts (b : Border) (ptn : List TableRt) (costs : Nat → BitVec 32) : Nat → BitVec 32 :=
  (configured ptn).zipIdx.foldl (fun costs p =>
    match p.1.type with
    | .connected => intraCosts b p.1 costs
    | .ospf => intraCosts b p.1 costs
    | _ => costs) costs

/-- The costs of the ranges after the walk over the routing table. -/
def walkCosts (b : Border) (costs : Nat → BitVec 32) : Nat → BitVec 32 :=
  b.table.foldl (fun costs ptn => nodeCosts b ptn costs) costs

/-- The requests of one range for one area. -/
def sumnetRangeRequests (b : Border) (areaId : BitVec 32) (range : AreaRange) (cost : BitVec 32) :
    List Request :=
  match areaFind b range.area with
  | none => []
  | some area =>
    if area.stub && area.noSummary then []
    else [⟨areaId, ⟨3, range.ip, area.routerId⟩, range.mask, cost⟩]

def rangeRequests (b : Border) (costs : Nat → BitVec 32) : List Request :=
  if b.rangeIsConfigured then
    b.ospfRange.zipIdx.flatMap (fun p =>
      if p.1.valid && costs p.2 ≠ ospfMaxCost then
        b.areas.flatMap (fun area =>
          if elsewhere b p.1.area area then
            sumnetRangeRequests b area.areaId p.1 (costs p.2)
          else [])
      else [])
  else []

/-- The requests of one boundary router for one area. -/
def routerRequests (b : Border) (areaId id cost : BitVec 32) : List Request :=
  match areaFind b areaId with
  | none => []
  | some area => if area.stub then [] else [⟨areaId, ⟨4, id, area.routerId⟩, 0, cost⟩]

def boundaryRequests (b : Border) : List Request :=
  b.areas.flatMap (fun home =>
    if networkCount b home.areaId ≠ 0 then
      home.routers.flatMap (fun r =>
        if isBoundary r then
          b.areas.flatMap (fun area =>
            if lacking b home.areaId r.lsa.header.linkStateId area then
              routerRequests b area.areaId r.lsa.header.advRouter r.cost
            else [])
        else [])
    else [])

/-- The requests of the summaries of other routers in the backbone. -/
def transferRequests (b : Border) (received : List Entry) : List Request :=
  received.flatMap (fun e =>
    b.areas.flatMap (fun area =>
      if lacking b 0 e.lsa.header.linkStateId area then
        routerRequests b area.areaId e.lsa.header.linkStateId (transferCost b e.lsa)
      else []))

/-- The summaries of boundary routers in the backbone that come from other routers. -/
def received (b : Border) (st : St) : List Entry :=
  (backbone b st).filter (fun e => !e.selfOriginated)

/-- Everything that an update asks for. -/
def requests (b : Border) (received : List Entry) : List Request :=
  b.table.flatMap (nodeRequests b) ++
    rangeRequests b (walkCosts b (fun _ => ospfMaxCost)) ++ boundaryRequests b ++
    transferRequests b received

/-- The second of two updates originates and removes nothing and triggers no calculation. -/
def Settles (b : Border) (st : St) : Prop :=
  let once := lsaOriginateSummaryUpdate b st
  let twice := lsaOriginateSummaryUpdate b { once with spf := false, log := [] }
  twice.log = [] ∧ twice.spf = false

/-- Requests under one key in one area ask for the same; the mask counts for networks. -/
def Coherent (b : Border) (st : St) : Prop :=
  ∀ p ∈ requests b (received b st), ∀ q ∈ requests b (received b st),
    p.areaId = q.areaId → p.key = q.key →
      (p.key.type = 3 → p.mask = q.mask) ∧ p.metric = q.metric

section Performs

def St.setCosts (st : St) (costs : Nat → BitVec 32) : St := { st with costs := costs }

def Request.unchanged (r : Request) (found : OspfLsa) : Bool :=
  (r.key.type ≠ 3 || sumMask found = r.mask) && sumMetric found = r.metric

/-- The search, the comparison and the origination for one request. -/
def perform (st : St) (r : Request) : St :=
  originateIn r.areaId r.key r.mask r.metric r.unchanged st

/-- With these costs of the ranges, `f` performs the requests and leaves other costs. -/
def Performs (costs : Nat → BitVec 32) (f : St → St) (rs : List Request)
    (costs' : Nat → BitVec 32) : Prop :=
  ∀ st, st.costs = costs → f st = (rs.foldl perform st).setCosts costs'

theorem perform_setCosts (st : St) (costs : Nat → BitVec 32) (r : Request) :
    perform (st.setCosts costs) r = (perform st r).setCosts costs := by
  unfold perform originateIn St.setCosts
  dsimp only
  split
  · rfl
  · rfl

theorem performAll_setCosts (rs : List Request) (st : St) (costs : Nat → BitVec 32) :
    rs.foldl perform (st.setCosts costs) = (rs.foldl perform st).setCosts costs := by
  induction rs generalizing st with
  | nil => rfl
  | cons r rs ih => rw [List.foldl_cons, List.foldl_cons, perform_setCosts, ih]

variable {costs costs' costs'' : Nat → BitVec 32} {f g : St → St} {rs rs' : List Request}

theorem Performs.nothing (costs : Nat → BitVec 32) (eq : ∀ st, f st = st) :
    Performs costs f [] costs := by
  rintro st rfl
  exact eq st

theorem Performs.comp (first : Performs costs f rs costs')
    (second : Performs costs' g rs' costs'') :
    Performs costs (fun st => g (f st)) (rs ++ rs') costs'' := by
  intro st before
  dsimp only
  rw [first st before, second _ rfl, performAll_setCosts, List.foldl_append]
  rfl

theorem Performs.foldl {α : Type} {f : St → α → St} {of : α → List Request}
    {change : (Nat → BitVec 32) → α → Nat → BitVec 32}
    (each : ∀ costs x, Performs costs (fun st => f st x) (of x) (change costs x)) (xs : List α) :
    ∀ costs, Performs costs (fun st => xs.foldl f st) (xs.flatMap of) (xs.foldl change costs) := by
  induction xs with
  | nil => exact fun costs => .nothing costs (fun _ => rfl)
  | cons x xs ih => exact fun costs => (each costs x).comp (ih _)

theorem Performs.loop {α : Type} {f : St → α → St} {of : α → List Request}
    (each : ∀ x, Performs costs (fun st => f st x) (of x) costs) (xs : List α) :
    Performs costs (fun st => xs.foldl f st) (xs.flatMap of) costs := by
  induction xs with
  | nil => exact .nothing costs (fun _ => rfl)
  | cons x xs ih => exact (each x).comp ih

theorem Performs.originateIn {areaId : BitVec 32} {key : LsaKey} {mask metric : BitVec 32}
    {unchanged : OspfLsa → Bool}
    (same : unchanged = Request.unchanged ⟨areaId, key, mask, metric⟩) :
    Performs costs (originateIn areaId key mask metric unchanged) [⟨areaId, key, mask, metric⟩]
      costs := by
  rintro st rfl
  rw [same]
  exact perform_setCosts st st.costs ⟨areaId, key, mask, metric⟩

end Performs

section Requests

variable (b : Border) {costs : Nat → BitVec 32}

theorem unchanged_net {areaId ip router mask metric : BitVec 32} :
    (fun found => sumMask found = mask && sumMetric found = metric) =
      Request.unchanged ⟨areaId, ⟨3, ip, router⟩, mask, metric⟩ := by
  funext found
  simp [Request.unchanged]

theorem unchanged_router {areaId id router metric : BitVec 32} :
    (fun found => decide (sumMetric found = metric)) =
      Request.unchanged ⟨areaId, ⟨4, id, router⟩, 0, metric⟩ := by
  funext found
  simp [Request.unchanged]

theorem performs_sumnetArea (areaId : BitVec 32) (rt : TableRt) :
    Performs costs (lsaOriginateSumnetArea b areaId rt) (sumnetRequests b areaId rt) costs := by
  unfold lsaOriginateSumnetArea sumnetRequests
  cases areaFind b areaId with
  | none => exact .nothing costs (fun _ => rfl)
  | some area =>
    dsimp only
    split
    · exact .nothing costs (fun _ => rfl)
    · exact .originateIn unchanged_net

theorem performs_intra (rt : TableRt) (costs : Nat → BitVec 32) :
    Performs costs (lsaOriginateIntra b rt) (intraRequests b rt) (intraCosts b rt costs) := by
  refine Performs.foldl (fun costs area => ?_) b.areas costs
  split
  · cases rangeMatch b rt.areaId rt.ip rt.mask with
    | none => exact performs_sumnetArea b area.areaId rt
    | some p =>
      obtain ⟨range, i⟩ := p
      dsimp only
      split
      · exact .nothing costs (fun _ => rfl)
      · rintro st rfl
        rfl
  · exact .nothing costs (fun _ => rfl)

theorem performs_inter (ptn : List TableRt) (i : Nat) (rt : TableRt) :
    Performs costs (lsaOriginateInter b ptn i rt) (interRequests b ptn i rt) costs := by
  refine Performs.loop (fun area => ?_) b.areas
  split
  · split
    · exact .nothing costs (fun _ => rfl)
    · exact performs_sumnetArea b area.areaId rt
  · exact .nothing costs (fun _ => rfl)

theorem performs_callback (ptn : List TableRt) (costs : Nat → BitVec 32) :
    Performs costs (callbackSummary b ptn) (nodeRequests b ptn) (nodeCosts b ptn costs) := by
  refine Performs.foldl (fun costs p => ?_) (configured ptn).zipIdx costs
  cases p.1.type with
  | connected => exact performs_intra b p.1 costs
  | ospf => exact performs_intra b p.1 costs
  | ospfIa => exact performs_inter b ptn p.2 p.1
  | none => exact .nothing costs (fun _ => rfl)
  | static => exact .nothing costs (fun _ => rfl)
  | ospfE1 => exact .nothing costs (fun _ => rfl)
  | ospfE2 => exact .nothing costs (fun _ => rfl)
  | blackhole => exact .nothing costs (fun _ => rfl)

theorem performs_sumnetAreaRange (areaId : BitVec 32) (range : AreaRange) (cost : BitVec 32) :
    Performs costs (lsaOriginateSumnetAreaRange b areaId range cost)
      (sumnetRangeRequests b areaId range cost) costs := by
  unfold lsaOriginateSumnetAreaRange sumnetRangeRequests
  cases areaFind b range.area with
  | none => exact .nothing costs (fun _ => rfl)
  | some area =>
    dsimp only
    split
    · exact .nothing costs (fun _ => rfl)
    · exact .originateIn unchanged_net

theorem performs_addRanges (costs : Nat → BitVec 32) :
    Performs costs (addRanges b) (rangeRequests b costs) costs := by
  unfold addRanges rangeRequests
  split
  · refine Performs.loop (fun p => ?_) b.ospfRange.zipIdx
    rintro st rfl
    dsimp only
    split
    · refine Performs.loop (fun area => ?_) b.areas st rfl
      split
      · exact performs_sumnetAreaRange b area.areaId p.1 (st.costs p.2)
      · exact .nothing _ (fun _ => rfl)
    · rfl
  · exact .nothing costs (fun _ => rfl)

theorem performs_router (areaId id cost : BitVec 32) :
    Performs costs (originateRouter b areaId id cost) (routerRequests b areaId id cost) costs := by
  unfold originateRouter routerRequests
  cases areaFind b areaId with
  | none => exact .nothing costs (fun _ => rfl)
  | some area =>
    dsimp only
    split
    · exact .nothing costs (fun _ => rfl)
    · exact .originateIn unchanged_router

theorem performs_addBoundaries (border : b.isAbr = true) :
    Performs costs (addBoundaries b) (boundaryRequests b) costs := by
  refine Performs.loop (fun home => ?_) b.areas
  split
  · refine Performs.loop (fun r => ?_) home.routers
    split
    · simp only [lsaOriginateSumrouter, border, Bool.not_true, Bool.false_eq_true, if_false]
      refine Performs.loop (fun area => ?_) b.areas
      split
      · exact performs_router b area.areaId _ r.cost
      · exact .nothing costs (fun _ => rfl)
    · exact .nothing costs (fun _ => rfl)
  · exact .nothing costs (fun _ => rfl)

theorem flatMap_filter_eq {α β : Type} (p : α → Bool) (f : α → List β) (xs : List α) :
    (xs.filter p).flatMap f = xs.flatMap (fun x => if p x then f x else []) := by
  induction xs with
  | nil => rfl
  | cons x xs ih =>
    rw [List.filter_cons, List.flatMap_cons, ← ih]
    split
    · rfl
    · rfl

theorem performs_transfer (border : b.isAbr = true) (es : List Entry) :
    Performs costs (fun st => es.foldl (fun st e =>
      if !e.selfOriginated then lsaOriginateSumrouterTransfer b 0 e.lsa st else st) st)
      (transferRequests b (es.filter (fun e => !e.selfOriginated))) costs := by
  rw [transferRequests, flatMap_filter_eq]
  refine Performs.loop (fun e => ?_) es
  split
  · simp only [lsaOriginateSumrouterTransfer, border, Bool.not_true, Bool.false_eq_true, if_false]
    refine Performs.loop (fun area => ?_) b.areas
    split
    · exact performs_router b area.areaId _ _
    · exact .nothing costs (fun _ => rfl)
  · exact .nothing costs (fun _ => rfl)

end Requests

section RangeCosts

/-- The cost of a range depends on no other range. -/
def Pointwise (g : (Nat → BitVec 32) → Nat → BitVec 32) : Prop :=
  ∀ costs costs' i, costs i = costs' i → g costs i = g costs' i

theorem Pointwise.refl : Pointwise (fun costs => costs) := fun _ _ _ same => same

theorem Pointwise.foldl {α : Type} {change : (Nat → BitVec 32) → α → Nat → BitVec 32}
    (each : ∀ x, Pointwise (fun costs => change costs x)) (xs : List α) :
    Pointwise (fun costs => xs.foldl change costs) := by
  induction xs with
  | nil => exact .refl
  | cons x xs ih => exact fun costs costs' i same => ih _ _ i (each x costs costs' i same)

theorem pointwise_raiseCost (j : Nat) (cost : BitVec 32) : Pointwise (raiseCost j cost) := by
  intro costs costs' i same
  unfold raiseCost
  by_cases here : i = j
  · subst here
    rw [same]
    split
    · rw [update_self, update_self]
    · exact same
  · have other : ∀ c : Nat → BitVec 32, update c j cost i = c i :=
      fun c => update_of_ne here _ _
    split
    · split
      · rw [other, other, same]
      · rw [other, same]
    · split
      · rw [other, same]
      · exact same

theorem pointwise_intraCosts (b : Border) (rt : TableRt) : Pointwise (intraCosts b rt) := by
  refine Pointwise.foldl (fun area => ?_) b.areas
  split
  · cases rangeMatch b rt.areaId rt.ip rt.mask with
    | none => exact .refl
    | some p =>
      obtain ⟨range, i⟩ := p
      dsimp only
      split
      · exact .refl
      · exact pointwise_raiseCost i rt.cost
  · exact .refl

theorem pointwise_walkCosts (b : Border) : Pointwise (walkCosts b) := by
  refine Pointwise.foldl (fun ptn => ?_) b.table
  refine Pointwise.foldl (fun p => ?_) (configured ptn).zipIdx
  cases p.1.type with
  | connected => exact pointwise_intraCosts b p.1
  | ospf => exact pointwise_intraCosts b p.1
  | ospfIa => exact .refl
  | none => exact .refl
  | static => exact .refl
  | ospfE1 => exact .refl
  | ospfE2 => exact .refl
  | blackhole => exact .refl

theorem rangeRequests_reset (b : Border) (costs : Nat → BitVec 32) :
    rangeRequests b (walkCosts b (resetCosts b costs)) =
      rangeRequests b (walkCosts b (fun _ => ospfMaxCost)) := by
  unfold rangeRequests
  split
  · rename_i configured
    refine List.flatMap_congr (fun p member => ?_)
    by_cases valid : p.1.valid = true
    · have reset : resetCosts b costs p.2 = ospfMaxCost := by
        have held := List.mem_zipIdx_iff_getElem?.mp member
        rw [resetCosts, if_pos configured, held]
        simp [valid]
      rw [pointwise_walkCosts b (resetCosts b costs) (fun _ => ospfMaxCost) p.2 reset]
    · simp [valid]
  · rfl

end RangeCosts

section Strangers

/-- The summaries that other routers originated. -/
def Sums.strangers (sums : Sums) : List Entry := sums.list.filter (fun e => !e.selfOriginated)

theorem Sums.strangers_put (sums : Sums) {e : Entry} (fresh : e.delFlag = false)
    (own : e.selfOriginated = true) : (sums.put e fresh).strangers = sums.strangers := by
  simp only [strangers, put, OwnedList.put]
  rw [List.filter_cons_of_neg (by simp [own])]
  exact OwnedList.filter_drop _ _

theorem Sums.strangers_keep (sums : Sums) (key : LsaKey) :
    (sums.keep key).strangers = sums.strangers := by
  obtain ⟨list, first, clean⟩ := sums
  simp only [strangers, keep]
  clear first
  induction list with
  | nil => rfl
  | cons e list ih =>
    obtain ⟨head, tail⟩ := List.forall_mem_cons.mp clean
    rw [OwnedList.touch]
    by_cases own : e.selfOriginated = true
    · have kept : e.kept.selfOriginated = true := own
      split
      · rw [List.filter_cons_of_neg (by simp [kept]), List.filter_cons_of_neg (by simp [own])]
      · rw [List.filter_cons_of_neg (by simp [own]), List.filter_cons_of_neg (by simp [own]),
          ih tail]
    · have plain : e.kept = e := by
        have unmarked : e.delFlag = false := by
          cases marked : e.delFlag with
          | false => rfl
          | true => exact absurd (head marked) own
        unfold Entry.kept
        rw [← unmarked]
      split
      · rw [plain]
      · rw [List.filter_cons_of_pos (by simp [own]), List.filter_cons_of_pos (by simp [own]),
          ih tail]

theorem Sums.strangers_mark (sums : Sums) (stub : Bool) :
    (sums.mark stub).strangers = sums.strangers := by
  simp only [strangers, mark, List.filter_map]
  have same : (fun e : Entry => !e.selfOriginated) ∘ Entry.marked stub =
      fun e => !e.selfOriginated :=
    funext (fun e => congrArg not (Entry.selfOriginated_marked stub e))
  rw [same]
  refine (List.map_congr_left (fun e member => ?_)).trans (List.map_id _)
  have foreign := List.of_mem_filter member
  rw [Entry.marked, if_neg (by simpa using foreign)]
  rfl

theorem Sums.strangers_sweep (sums : Sums) : sums.sweep.strangers = sums.strangers := by
  simp only [strangers, sweep, List.filter_filter]
  refine List.filter_congr (fun e member => ?_)
  cases own : e.selfOriginated with
  | true => rfl
  | false =>
    cases marked : e.delFlag with
    | false => rfl
    | true =>
      have clean := sums.clean e member marked
      rw [own] at clean
      cases clean

/-- The update does not touch what other routers originated. -/
def Alien (st st' : St) : Prop := ∀ areaId, (st'.sums areaId).strangers = (st.sums areaId).strangers

theorem Alien.setSums {st : St} {areaId : BitVec 32} {sums : Sums}
    (same : sums.strangers = (st.sums areaId).strangers) : Alien st (st.setSums areaId sums) := by
  intro id
  by_cases here : id = areaId
  · subst here
    simp only [St.setSums, update_self, same]
  · simp only [St.setSums, update_of_ne here]

theorem Alien.foldl {α : Type} {f : St → α → St} (each : ∀ st x, Alien st (f st x)) (xs : List α)
    (st : St) : Alien st (xs.foldl f st) := by
  induction xs generalizing st with
  | nil => exact fun _ => rfl
  | cons x xs ih => exact fun id => (ih (f st x) id).trans (each st x id)

theorem alien_perform (st : St) (r : Request) : Alien st (perform st r) := by
  unfold perform originateIn
  split
  · exact Alien.setSums (Sums.strangers_keep _ _)
  · exact Alien.setSums (Sums.strangers_put _ rfl rfl)

theorem alien_markAreas (b : Border) (st : St) : Alien st (markAreas b st) :=
  Alien.foldl (fun _ _ => Alien.setSums (Sums.strangers_mark _ _)) b.areas st

theorem alien_sweepArea (st : St) (area : SumArea) : Alien st (sweepArea st area) :=
  Alien.setSums (Sums.strangers_sweep _)

theorem received_congr (b : Border) {st st' : St} (alien : Alien st st') :
    received b st' = received b st := by
  have same := alien 0
  unfold received backbone
  split
  · simp only [Sums.strangers] at same
    rw [List.filter_comm, same, List.filter_comm]
  · rfl

end Strangers

section Update

variable {b : Border}

theorem performs_passes (border : b.isAbr = true) (costs : Nat → BitVec 32) :
    Performs (resetCosts b costs)
      (fun st => addBoundaries b (addRanges b
        (b.table.foldl (fun st ptn => callbackSummary b ptn st) st)))
      (b.table.flatMap (nodeRequests b) ++ rangeRequests b (walkCosts b (fun _ => ospfMaxCost)) ++
        boundaryRequests b)
      (walkCosts b (resetCosts b costs)) := by
  have walk : Performs (resetCosts b costs)
      (fun st => b.table.foldl (fun st ptn => callbackSummary b ptn st) st)
      (b.table.flatMap (nodeRequests b)) (walkCosts b (resetCosts b costs)) :=
    Performs.foldl (fun costs ptn => performs_callback b ptn costs) b.table _
  have passes := (walk.comp (performs_addRanges b _)).comp (performs_addBoundaries b border)
  rw [rangeRequests_reset] at passes
  exact passes

/-- The pass over the backbone sees what other routers originated, before and after the
other passes. -/
theorem transferBoundaries_eq (border : b.isAbr = true) {st st' : St} (alien : Alien st st') :
    transferBoundaries b st' =
      ((transferRequests b (received b st)).foldl perform st').setCosts st'.costs := by
  rw [← received_congr b alien]
  exact performs_transfer b border (backbone b st') st' rfl

theorem update_eq (border : b.isAbr = true) (st : St) :
    ∃ costs, lsaOriginateSummaryUpdate b st = b.areas.foldl sweepArea
      (((requests b (received b st)).foldl perform (markAreas b st)).setCosts costs) := by
  have shape : lsaOriginateSummaryUpdate b st = b.areas.foldl sweepArea
      (transferBoundaries b (addBoundaries b (addRanges b
        (b.table.foldl (fun st ptn => callbackSummary b ptn st)
          ((markAreas b st).setCosts (resetCosts b (markAreas b st).costs)))))) := by
    rw [lsaOriginateSummaryUpdate, if_neg (by simp [border])]
    rfl
  have passes := performs_passes border (markAreas b st).costs
    ((markAreas b st).setCosts (resetCosts b (markAreas b st).costs)) rfl
  dsimp only at passes
  rw [performAll_setCosts] at passes
  rw [shape, passes]
  refine ⟨walkCosts b (resetCosts b (markAreas b st).costs),
    congrArg (fun st => b.areas.foldl sweepArea st)
      ((@transferBoundaries_eq b border st _ ?_).trans ?_)⟩
  · intro id
    exact (Alien.foldl alien_perform _ (markAreas b st) id).trans (alien_markAreas b st id)
  · rw [performAll_setCosts, performAll_setCosts, ← List.foldl_append]
    rfl

end Update

/-- Where a summary is looked for. -/
abbrev Place := BitVec 32 × LsaKey

/-- What a summary says; the mask counts for networks only. -/
def Entry.value (e : Entry) : BitVec 32 × BitVec 32 :=
  (if e.key.type = 3 then sumMask e.lsa else 0, sumMetric e.lsa)

def St.find (st : St) (k : Place) : Option Entry := (st.sums k.1).find k.2

/-- The summaries of this router. -/
def St.table (st : St) (k : Place) : Option (BitVec 32 × BitVec 32) := (st.find k).map Entry.value

def Request.place (r : Request) : Place := (r.areaId, r.key)

def Request.value (r : Request) : BitVec 32 × BitVec 32 :=
  (if r.key.type = 3 then r.mask else 0, r.metric)

def Request.command (r : Request) : Command Place (BitVec 32 × BitVec 32) :=
  ⟨r.place, some r.value⟩

/-- What performing a request does. -/
structure Performed (st : St) (r : Request) (st' : St) : Prop where
  table : st'.table = step Eq st.table r.command
  other : ∀ k, k ≠ r.place → st'.find k = st.find k
  kept : ∀ e, st'.find r.place = some e → e.delFlag = false
  log : (Quiet Eq (some r.value) (st.table r.place) ∧ st'.log = st.log ∧ st'.spf = st.spf) ∨
    (¬ Quiet Eq (some r.value) (st.table r.place) ∧ ∃ change, st'.log = st.log ++ [change])

section Perform

variable {st : St} {r : Request}

theorem find_setSums (st : St) (areaId : BitVec 32) (sums : Sums) (k : Place) :
    (st.setSums areaId sums).find k = if k.1 = areaId then sums.find k.2 else st.find k := by
  unfold St.find St.setSums
  dsimp only
  by_cases here : k.1 = areaId
  · rw [if_pos here, here, update_self]
  · rw [if_neg here, update_of_ne here]

theorem Sums.find_key {sums : Sums} {key : LsaKey} {e : Entry} (found : sums.find key = some e) :
    e.key = key :=
  ((own_eq_some sums.first).mp found).2.2

theorem unchanged_iff {e : Entry} (keyed : e.key = r.key) :
    r.unchanged e.lsa = true ↔ e.value = r.value := by
  unfold Request.unchanged Entry.value Request.value
  rw [keyed]
  by_cases net : r.key.type = 3
  · simp [net]
  · rw [if_neg net, if_neg net]
    simp only [ne_eq, net, not_false_eq_true, decide_true, Bool.true_or, Bool.true_and,
      decide_eq_true_eq, Prod.mk.injEq, true_and]

theorem value_newLsa (seq : BitVec 32) :
    Entry.value ⟨newLsa seq 2 r.key (be32 r.mask ++ be32 r.metric), false⟩ = r.value := by
  have body := slice_newLsa seq 2 r.key (be32 r.mask ++ be32 r.metric)
  have mask : sumMask (newLsa seq 2 r.key (be32 r.mask ++ be32 r.metric)) = r.mask :=
    get32_of_slice [] (be32 r.metric) (by simpa [sizeofHeader] using body)
  have metric : sumMetric (newLsa seq 2 r.key (be32 r.mask ++ be32 r.metric)) = r.metric :=
    get32_of_slice (be32 r.mask) [] (by simpa [sizeofHeader] using body)
  have key : Entry.key ⟨newLsa seq 2 r.key (be32 r.mask ++ be32 r.metric), false⟩ = r.key :=
    key_newLsa ..
  simp only [Entry.value, Request.value, mask, metric, key]

theorem table_eq_step {st' : St} {value : Option (BitVec 32 × BitVec 32)}
    (other : ∀ k, k ≠ r.place → st'.find k = st.find k) (here : st'.table r.place = value)
    (writes : cell Eq (some r.value) (st.table r.place) = value) :
    st'.table = step Eq st.table r.command := by
  funext k
  by_cases at_place : r.place = k
  · subst at_place
    rw [here, ← writes]
    exact (step_self r.command).symm
  · rw [St.table, other k (Ne.symm at_place)]
    exact (@step_of_ne _ _ _ Eq _ st.table k r.command at_place).symm

theorem performed_kept {e : Entry} (found : st.find r.place = some e) (same : e.value = r.value) :
    Performed st r (st.setSums r.areaId ((st.sums r.areaId).keep r.key)) := by
  have other : ∀ k, k ≠ r.place →
      (st.setSums r.areaId ((st.sums r.areaId).keep r.key)).find k = st.find k := by
    intro k differs
    rw [find_setSums]
    split
    · rename_i area
      have apart : r.key ≠ k.2 := fun eq => differs (Prod.ext area eq.symm)
      unfold Sums.find Sums.keep
      rw [own_touch (f := Entry.kept) (fun _ => rfl) (fun _ => rfl), if_neg apart, ← area]
      rfl
    · rfl
  have here : (st.setSums r.areaId ((st.sums r.areaId).keep r.key)).find r.place =
      some e.kept := by
    rw [find_setSums, if_pos (show r.place.1 = r.areaId from rfl)]
    unfold Sums.find Sums.keep
    rw [own_touch (f := Entry.kept) (fun _ => rfl) (fun _ => rfl),
      if_pos (show r.key = r.place.2 from rfl)]
    exact congrArg (Option.map Entry.kept) found
  have held : st.table r.place = some r.value := by rw [St.table, found, ← same]; rfl
  refine ⟨?_, other, ?_, .inl ⟨?_, rfl, rfl⟩⟩
  · refine table_eq_step other (?_ : _ = some r.value) ?_
    · rw [St.table, here, ← same]
      rfl
    · simp [held, cell]
  · intro x hx
    cases here.symm.trans hx
    rfl
  · rw [held]
    exact rfl

theorem performed_written (differs : ∀ e, st.find r.place = some e → e.value ≠ r.value)
    (st' : St) (lsa : OspfLsa)
    (eq : lsa = newLsa st.seqNumber 2 r.key (be32 r.mask ++ be32 r.metric))
    (sums : st'.sums =
      (st.setSums r.areaId ((st.sums r.areaId).put ⟨lsa, false⟩ rfl)).sums)
    (log : st'.log = st.log ++ [.originated r.areaId lsa]) : Performed st r st' := by
  have find : ∀ k, st'.find k =
      (st.setSums r.areaId ((st.sums r.areaId).put ⟨lsa, false⟩ rfl)).find k := by
    intro k
    unfold St.find
    rw [sums]
  have keyed : Entry.key ⟨lsa, false⟩ = r.key := by
    rw [eq]
    exact key_newLsa ..
  have own : Entry.selfOriginated ⟨lsa, false⟩ = true := by
    rw [eq]
    rfl
  have put : ∀ key, ((st.sums r.areaId).put ⟨lsa, false⟩ rfl).find key =
      if r.key = key then some ⟨lsa, false⟩ else (st.sums r.areaId).find key := by
    intro key
    unfold Sums.find Sums.put
    rw [own_put (st.sums r.areaId).first own, keyed]
  have other : ∀ k, k ≠ r.place → st'.find k = st.find k := by
    intro k apart
    rw [find, find_setSums]
    split
    · rename_i area
      rw [put, if_neg (fun key => apart (Prod.ext area key.symm)), ← area]
      rfl
    · rfl
  have here : st'.find r.place = some ⟨lsa, false⟩ := by
    rw [find, find_setSums, if_pos (show r.place.1 = r.areaId from rfl), put]
    exact if_pos rfl
  have quiet : ¬ Quiet Eq (some r.value) (st.table r.place) := by
    unfold St.table
    cases found : st.find r.place with
    | none => exact fun h => h
    | some e => exact fun h => differs e found h.symm
  refine ⟨?_, other, ?_, .inr ⟨quiet, _, log⟩⟩
  · refine table_eq_step other (?_ : _ = some r.value) ?_
    · rw [St.table, here, eq]
      exact congrArg some (value_newLsa st.seqNumber)
    · cases found : st.table r.place with
      | none => rfl
      | some v =>
        rw [found] at quiet
        exact if_neg quiet
  · intro x hx
    cases here.symm.trans hx
    rfl

theorem performed (st : St) (r : Request) : Performed st r (perform st r) := by
  unfold perform originateIn
  cases found : (st.sums r.areaId).find r.key with
  | none =>
    rw [Option.any_none, if_neg Bool.false_ne_true]
    refine performed_written (fun e h => ?_) _ _ rfl rfl rfl
    cases found.symm.trans h
  | some e =>
    rw [Option.any_some]
    by_cases same : r.unchanged e.lsa = true
    · rw [if_pos same]
      exact performed_kept found ((unchanged_iff (Sums.find_key found)).mp same)
    · rw [if_neg same]
      refine performed_written (fun x h => ?_) _ _ rfl rfl rfl
      cases found.symm.trans h
      exact fun eq => same ((unchanged_iff (Sums.find_key found)).mpr eq)

theorem find_perform_self (st : St) (r : Request) :
    ∃ e, (perform st r).find r.place = some e ∧ e.value = r.value := by
  have written : (perform st r).table r.place = some r.value := by
    rw [(performed st r).table]
    exact (KeyedRewrite.step_self r.command).trans (KeyedRewrite.cell_eq _ _)
  exact Option.map_eq_some_iff.mp written

end Perform

section PerformAll

variable {st : St} {rs : List Request} {k : Place}

theorem table_performAll (rs : List Request) (st : St) :
    (rs.foldl perform st).table = run Eq st.table (rs.map Request.command) := by
  induction rs generalizing st with
  | nil => rfl
  | cons r rs ih =>
    rw [List.foldl_cons, ih, (performed st r).table]
    rfl

theorem find_performAll (absent : ∀ r ∈ rs, r.place ≠ k) :
    (rs.foldl perform st).find k = st.find k := by
  induction rs generalizing st with
  | nil => rfl
  | cons r rs ih =>
    obtain ⟨first, rest⟩ := List.forall_mem_cons.mp absent
    exact (ih rest).trans ((performed st r).other k (Ne.symm first))

theorem kept_performAll (asked : (∃ r ∈ rs, r.place = k) ∨ ∀ e, st.find k = some e →
    e.delFlag = false) : ∀ e, (rs.foldl perform st).find k = some e → e.delFlag = false := by
  induction rs generalizing st with
  | nil =>
    rcases asked with ⟨r, member, _⟩ | kept
    · cases member
    · exact kept
  | cons r rs ih =>
    refine ih ?_
    by_cases here : r.place = k
    · exact .inr (here ▸ (performed st r).kept)
    · rcases asked with ⟨d, member, eq⟩ | kept
      · rcases List.mem_cons.mp member with rfl | later
        · exact absurd eq here
        · exact .inl ⟨d, later, eq⟩
      · refine .inr ?_
        rw [(performed st r).other k (Ne.symm here)]
        exact kept

theorem log_performAll_append (rs : List Request) (st : St) :
    ∃ more, (rs.foldl perform st).log = st.log ++ more := by
  induction rs generalizing st with
  | nil => exact ⟨[], (List.append_nil _).symm⟩
  | cons r rs ih =>
    obtain ⟨more, eq⟩ := ih (perform st r)
    rcases (performed st r).log with ⟨_, same, _⟩ | ⟨_, change, added⟩
    · exact ⟨more, eq.trans (by rw [same])⟩
    · exact ⟨[change] ++ more, eq.trans (by rw [added, List.append_assoc])⟩

theorem log_performAll (rs : List Request) (st : St) :
    (rs.foldl perform st).log = st.log ↔ QuietRun Eq st.table (rs.map Request.command) := by
  induction rs generalizing st with
  | nil => simp [QuietRun]
  | cons r rs ih =>
    have done := performed st r
    have table : (perform st r).table = step Eq st.table r.command := done.table
    rw [List.map_cons, QuietRun, List.foldl_cons, ← table]
    rcases done.log with ⟨quiet, same, _⟩ | ⟨loud, change, added⟩
    · rw [← ih, ← same]
      exact ⟨fun eq => ⟨quiet, eq⟩, fun both => both.2⟩
    · obtain ⟨more, eq⟩ := log_performAll_append rs (perform st r)
      refine iff_of_false ?_ (fun both => loud both.1)
      intro unchanged
      rw [eq, added, List.append_assoc] at unchanged
      exact List.cons_ne_nil change more (List.append_right_eq_self.mp unchanged)

theorem spf_performAll (quiet : QuietRun Eq st.table (rs.map Request.command)) :
    (rs.foldl perform st).spf = st.spf := by
  induction rs generalizing st with
  | nil => rfl
  | cons r rs ih =>
    obtain ⟨first, rest⟩ := quiet
    have done := performed st r
    rw [← (done.table : _ = step Eq st.table r.command)] at rest
    rw [List.foldl_cons, ih rest]
    rcases done.log with ⟨_, _, same⟩ | ⟨loud, _⟩
    · exact same
    · exact absurd first loud

end PerformAll

section Sweep

variable {b : Border}

theorem sums_foldl {g : St → SumArea → St} {f : SumArea → Sums → Sums}
    (each : ∀ st area, (g st area).sums =
      update st.sums area.areaId (f area (st.sums area.areaId)))
    {areas : List SumArea} (nodup : (areas.map SumArea.areaId).Nodup) (st : St) (id : BitVec 32) :
    (areas.foldl g st).sums id =
      (areas.find? (fun area => area.areaId = id)).elim (st.sums id)
        (fun area => f area (st.sums id)) := by
  induction areas generalizing st with
  | nil => rfl
  | cons area rest ih =>
    obtain ⟨fresh, nodup⟩ := List.nodup_cons.mp nodup
    rw [List.foldl_cons, ih nodup, each]
    by_cases here : area.areaId = id
    · subst here
      have absent : rest.find? (fun other => other.areaId = area.areaId) = none := by
        refine List.find?_eq_none.mpr (fun other member eq => fresh ?_)
        exact List.mem_map.mpr ⟨other, member, by simpa using eq⟩
      simp [absent]
    · rw [update_of_ne (Ne.symm here), List.find?_cons_of_neg (by simpa using here)]

theorem find_markAreas (b : Border) (st : St) (k : Place) :
    (markAreas b st).find k =
      (areaFind b k.1).elim (st.find k) (fun area => (st.find k).map (Entry.marked area.stub)) := by
  unfold St.find
  rw [markAreas, sums_foldl (f := fun area sums => sums.mark area.stub) (fun _ _ => rfl) b.nodup]
  unfold areaFind
  cases b.areas.find? (fun area => area.areaId = k.1) with
  | none => rfl
  | some area => exact own_map (Entry.key_marked area.stub) (Entry.selfOriginated_marked area.stub)

theorem find_sweep (b : Border) (st : St) (k : Place) :
    (b.areas.foldl sweepArea st).find k =
      (areaFind b k.1).elim (st.find k) (fun _ => (st.find k).filter (fun e => !e.delFlag)) := by
  unfold St.find
  rw [sums_foldl (f := fun _ sums => sums.sweep) (fun _ _ => rfl) b.nodup]
  unfold areaFind
  cases b.areas.find? (fun area => area.areaId = k.1) with
  | none => rfl
  | some area => exact own_filter (st.sums k.1).first _

theorem log_sweep_append (areas : List SumArea) (st : St) :
    ∃ more, (areas.foldl sweepArea st).log = st.log ++ more := by
  induction areas generalizing st with
  | nil => exact ⟨[], (List.append_nil _).symm⟩
  | cons area rest ih =>
    obtain ⟨more, eq⟩ := ih (sweepArea st area)
    exact ⟨_, eq.trans (List.append_assoc ..)⟩

theorem sweep_quiet {areas : List SumArea} {st : St}
    (unmarked : ∀ area ∈ areas, ∀ e ∈ (st.sums area.areaId).list, e.delFlag = false) :
    (areas.foldl sweepArea st).log = st.log ∧ (areas.foldl sweepArea st).spf = st.spf := by
  induction areas generalizing st with
  | nil => exact ⟨rfl, rfl⟩
  | cons area rest ih =>
    obtain ⟨first, later⟩ := List.forall_mem_cons.mp unmarked
    have none : (st.sums area.areaId).list.filter (·.delFlag) = [] :=
      List.filter_eq_nil_iff.mpr (fun e member => by simp [first e member])
    have still : ∀ other ∈ rest, ∀ e ∈ ((sweepArea st area).sums other.areaId).list,
        e.delFlag = false := by
      intro other member e he
      by_cases same : other.areaId = area.areaId
      · have shape : (sweepArea st area).sums other.areaId = (st.sums area.areaId).sweep := by
          rw [same]
          exact update_self ..
        rw [shape] at he
        exact first e (List.mem_of_mem_filter he)
      · have shape : (sweepArea st area).sums other.areaId = st.sums other.areaId :=
          update_of_ne same _ _
        rw [shape] at he
        exact later other member e he
    obtain ⟨log, spf⟩ := ih still
    rw [List.foldl_cons, log, spf]
    simp [sweepArea, none, St.setSums]

theorem markAreas_log (areas : List SumArea) (st : St) :
    (areas.foldl (fun st area => st.setSums area.areaId ((st.sums area.areaId).mark area.stub))
      st).log = st.log ∧
    (areas.foldl (fun st area => st.setSums area.areaId ((st.sums area.areaId).mark area.stub))
      st).spf = st.spf := by
  induction areas generalizing st with
  | nil => exact ⟨rfl, rfl⟩
  | cons area rest ih => exact ih _

theorem table_markAreas (b : Border) (st : St) : (markAreas b st).table = st.table := by
  funext k
  rw [St.table, find_markAreas]
  cases areaFind b k.1 with
  | none => rfl
  | some area =>
    rw [Option.elim_some, Option.map_map]
    refine congrArg (fun f => Option.map f (st.find k)) (funext (fun e => ?_))
    simp only [Function.comp_apply, Entry.value, Entry.key_marked, Entry.lsa_marked]

end Sweep

section Settles

variable {b : Border} {st : St}

theorem Entry.marked_marked (stub : Bool) (e : Entry) :
    (e.marked stub).marked stub = e.marked stub := by
  by_cases own : e.selfOriginated = true
  · rw [marked, selfOriginated_marked, if_pos own, lsa_marked]
    simp only [marked, if_pos own]
  · rw [marked, selfOriginated_marked, if_neg own]

/-- What the update finds before it sweeps. -/
def asked (b : Border) (st : St) : St :=
  (requests b (received b st)).foldl perform (markAreas b st)

theorem find_update (border : b.isAbr = true) (st : St) (k : Place) :
    (lsaOriginateSummaryUpdate b st).find k =
      (areaFind b k.1).elim ((asked b st).find k)
        (fun _ => ((asked b st).find k).filter (fun e => !e.delFlag)) := by
  obtain ⟨costs, eq⟩ := update_eq border st
  rw [eq, find_sweep]
  rfl

theorem alien_update (border : b.isAbr = true) (st : St) :
    Alien st (lsaOriginateSummaryUpdate b st) := by
  obtain ⟨costs, eq⟩ := update_eq border st
  rw [eq]
  intro id
  refine (Alien.foldl alien_sweepArea b.areas _ id).trans ?_
  exact (Alien.foldl alien_perform _ (markAreas b st) id).trans (alien_markAreas b st id)

theorem table_update (border : b.isAbr = true) {k : Place}
    (named : ∃ r ∈ requests b (received b st), r.place = k) :
    (lsaOriginateSummaryUpdate b st).table k =
      run Eq st.table ((requests b (received b st)).map Request.command) k := by
  have kept : ∀ e, (asked b st).find k = some e → e.delFlag = false := kept_performAll (.inl named)
  have same : (lsaOriginateSummaryUpdate b st).find k = (asked b st).find k := by
    rw [find_update border]
    cases areaFind b k.1 with
    | none => rfl
    | some area =>
      cases found : (asked b st).find k with
      | none => rfl
      | some e => simp [kept e found]
  rw [St.table, same, ← table_markAreas b st, ← table_performAll]
  rfl

theorem unmarked_update (border : b.isAbr = true) {k : Place} {area : SumArea}
    (found : areaFind b k.1 = some area)
    (absent : ∀ r ∈ requests b (received b st), r.place ≠ k) {e : Entry}
    (left : (lsaOriginateSummaryUpdate b st).find k = some e) :
    (e.marked area.stub).delFlag = false := by
  rw [find_update border, found, Option.elim_some, asked, find_performAll absent, find_markAreas,
    found, Option.elim_some] at left
  obtain ⟨before, unmarked⟩ := Option.filter_eq_some_iff.mp left
  obtain ⟨e₀, _, rfl⟩ := Option.map_eq_some_iff.mp before
  rw [Entry.marked_marked]
  simpa using unmarked

/-- The second update starts with an empty log. -/
def rested (b : Border) (st : St) : St :=
  { lsaOriginateSummaryUpdate b st with spf := false, log := [] }

theorem received_rested (border : b.isAbr = true) (st : St) :
    received b (rested b st) = received b st :=
  received_congr b (alien_update border st)

theorem quiet_rested_iff (border : b.isAbr = true) :
    QuietRun Eq (rested b st).table ((requests b (received b st)).map Request.command) ↔
      Coherent b st := by
  have same : ∀ c ∈ (requests b (received b st)).map Request.command, (rested b st).table c.key =
      run Eq st.table ((requests b (received b st)).map Request.command) c.key := by
    intro c member
    obtain ⟨r, hr, rfl⟩ := List.mem_map.mp member
    exact table_update border ⟨r, hr, rfl⟩
  have moved : QuietRun Eq (rested b st).table ((requests b (received b st)).map Request.command) ↔
      QuietRun Eq (run Eq st.table ((requests b (received b st)).map Request.command))
        ((requests b (received b st)).map Request.command) := by
    rw [quietRun_iff, quietRun_iff]
    refine forall₂_congr (fun c member => ?_)
    rw [same c member]
  rw [moved, rerun_quiet_iff eq_equivalence]
  have agree : ∀ p q : Request, p.key = q.key →
      (Agree Eq p.command.target q.command.target ↔
        (p.key.type = 3 → p.mask = q.mask) ∧ p.metric = q.metric) := by
    intro p q keyed
    simp only [Request.command, Agree, Request.value, Prod.mk.injEq, ← keyed]
    by_cases net : p.key.type = 3
    · simp [net]
    · rw [if_neg net, if_neg net]
      simp only [net, true_and, false_implies]
  constructor
  · intro all p hp q hq area keyed
    exact (agree p q keyed).mp (all _ (List.mem_map_of_mem hp) _ (List.mem_map_of_mem hq)
      (Prod.ext area keyed))
  · intro coherent c hc d hd place
    obtain ⟨p, hp, rfl⟩ := List.mem_map.mp hc
    obtain ⟨q, hq, rfl⟩ := List.mem_map.mp hd
    obtain ⟨area, keyed⟩ := Prod.mk.inj place
    exact (agree p q keyed).mpr (coherent p hp q hq area keyed)

theorem sweep_rested (border : b.isAbr = true) :
    ∀ area ∈ b.areas, ∀ e ∈ ((asked b (rested b st)).sums area.areaId).list,
      e.delFlag = false := by
  intro area member e he
  cases marked : e.delFlag with
  | false => rfl
  | true =>
    have own := ((asked b (rested b st)).sums area.areaId).clean e he marked
    have found : (asked b (rested b st)).find (area.areaId, e.key) = some e :=
      (own_eq_some ((asked b (rested b st)).sums area.areaId).first).mpr ⟨he, own, rfl⟩
    obtain ⟨home, here⟩ : ∃ home, areaFind b area.areaId = some home := by
      refine Option.isSome_iff_exists.mp ?_
      exact List.find?_isSome.mpr ⟨area, member, by simp⟩
    have kept : e.delFlag = false := by
      refine kept_performAll ?_ e found
      by_cases named : ∃ r ∈ requests b (received b (rested b st)), r.place = (area.areaId, e.key)
      · exact .inl named
      · refine .inr (fun x hx => ?_)
        rw [received_rested border] at named
        have absent : ∀ r ∈ requests b (received b st), r.place ≠ (area.areaId, e.key) :=
          fun r hr eq => named ⟨r, hr, eq⟩
        rw [find_markAreas, here, Option.elim_some] at hx
        obtain ⟨before, left, rfl⟩ := Option.map_eq_some_iff.mp hx
        exact unmarked_update border here absent left
    rw [kept] at marked
    cases marked

end Settles

/-- The second of two updates does nothing, exactly when no two requests of an area share a
key and ask for different things. -/
theorem summaries_settle_iff {b : Border} (border : b.isAbr = true) (st : St) :
    Settles b st ↔ Coherent b st := by
  obtain ⟨costs, eq⟩ := update_eq border (rested b st)
  obtain ⟨more, sweeps⟩ := log_sweep_append b.areas ((asked b (rested b st)).setCosts costs)
  have marks := markAreas_log b.areas (rested b st)
  have logs := log_performAll (requests b (received b (rested b st))) (markAreas b (rested b st))
  rw [table_markAreas, received_rested border, quiet_rested_iff border] at logs
  have shape : Settles b st ↔ (lsaOriginateSummaryUpdate b (rested b st)).log = [] ∧
      (lsaOriginateSummaryUpdate b (rested b st)).spf = false := Iff.rfl
  rw [shape, eq]
  constructor
  · rintro ⟨log, _⟩
    have before : (asked b (rested b st)).log = [] :=
      (List.append_eq_nil_iff.mp (sweeps.symm.trans log)).1
    rw [asked, received_rested border] at before
    exact logs.mp (before.trans marks.1.symm)
  · intro coherent
    have quiet := (quiet_rested_iff border).mpr coherent
    obtain ⟨log, spf⟩ := @sweep_quiet b.areas ((asked b (rested b st)).setCosts costs)
      (sweep_rested border)
    have performed := logs.mpr coherent
    have triggers := @spf_performAll (markAreas b (rested b st)) (requests b (received b st))
      (by rw [table_markAreas]; exact quiet)
    rw [← received_rested border] at performed triggers
    exact ⟨log.trans (performed.trans marks.1), spf.trans (triggers.trans marks.2)⟩

/-- A border router of the areas 0 and 1, with intra-area routes to 10.1.0.0 in the area 1 by
mask and cost. -/
def routesTo (routes : List (BitVec 32 × BitVec 32)) : Border where
  isAbr := true
  areas := [⟨0, 0x01010101, false, false, 1, []⟩, ⟨1, 0x01010101, false, false, 1, []⟩]
  nodup := by decide
  table := routes.map (fun route => [⟨0x0a010000, route.1, route.2, 1, .ospf⟩])
  rangeIsConfigured := false
  ospfRange := []

def noSummaries : St where
  sums := fun _ => ⟨[], List.Pairwise.nil, (fun _ member => nomatch member)⟩
  costs := fun _ => 0
  seqNumber := LsdbFreshness.initialSequenceNumber
  spf := false
  log := []

/-- Two prefixes with one address rewrite one summary in every update. -/
theorem overlapping_prefixes_reflood :
    (routesTo [(0xffff0000, 10), (0xffffff00, 20)]).isAbr = true ∧
      ((routesTo [(0xffff0000, 10), (0xffffff00, 20)]).table.flatten.map
        (fun rt => (rt.ip, rt.mask))).Nodup ∧
      ¬ Settles (routesTo [(0xffff0000, 10), (0xffffff00, 20)]) noSummaries := by
  refine ⟨rfl, by decide, ?_⟩
  have reflooded : (lsaOriginateSummaryUpdate (routesTo [(0xffff0000, 10), (0xffffff00, 20)])
      { lsaOriginateSummaryUpdate (routesTo [(0xffff0000, 10), (0xffffff00, 20)]) noSummaries with
        spf := false, log := [] }).log.length = 2 := by decide +kernel
  rintro ⟨log, _⟩
  rw [log] at reflooded
  cases reflooded

theorem summaries_settle_one_prefix : Settles (routesTo [(0xffff0000, 10)]) noSummaries := by
  refine (summaries_settle_iff rfl noSummaries).mpr ?_
  unfold Coherent
  decide

end SummaryUpdate
