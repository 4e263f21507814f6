import Rcp100.RouterLsa
import Rcp100.RouteSources
import Rcp100.StepRuns

/-!
# The flag of an AS boundary router

Five commands switch the sources of redistribution, and `set_asbr_flag` computes `is_asbr`
from four of the switches at the end of each. When the flag rises, the router advertisements
of all areas are originated again; when it falls, all external advertisements of this router
are removed. Routes are added later, by messages. What is flooded, counted and logged, the
request that is sent to RIP and the answers to the terminal are left out.
-/

namespace AsbrFlag

open LsaFormat LsUpdate LsaAging Origination Redistribution RouteSources RouterLsa
open OwnedList (own own_eq_some)
open StepRuns (Along Always always_iff_along)

/-- `RCP_OSPF_STATIC_METRIC_DEFAULT`, and the defaults of the other sources. -/
def metricDefault : BitVec 32 := 20

/-- `RCP_OSPF_STATIC_METRIC_TYPE_DEFAULT`, and the defaults of the other sources. -/
def metricTypeDefault : Nat := 2

/-- `RCP_INTERFACE_LIMITS`. -/
def interfaceLimits : Nat := 64

/-- The configuration, `is_asbr`, the external list and the areas. -/
structure State where
  shm : Shm
  isAsbr : Bool
  db : Db
  areas : Areas

/-- The process as the origination of router advertisements sees it. -/
def State.ospf (st : State) : Ospf where
  areas := st.areas
  extlist := st.db.extlist.map ExtLsa.lsa
  ospfRouterId := st.shm.ospfRouterId
  seqNumber := st.db.seqNumber
  lsaFlooded := 0
  floods := []
  tx := []

def lsaOriginateRtrUpdate (cfg : Settings) (behind : Bool) (st : State) : State :=
  let s := st.areas.ids.foldl
    (fun s areaId => originate { cfg with isAsbr := st.isAsbr } s (.rtr behind areaId)) st.ospf
  { st with areas := s.areas, db := { st.db with seqNumber := s.seqNumber } }

/-- The walk that leaves the summary addresses and removes what they cover. -/
def purgeCovered (shm : Shm) (db : Db) : Db :=
  (purge (fun e => e.selfOriginated && e.originator ≠ origSummary &&
    (summaddrMatch shm.toConfig e.key.linkStateId e.mask).isSome) db).1

def redistSummaryAdd (shm : Shm) (ip mask : BitVec 32) (db : Db) : Db :=
  if shm.ospfRedistStatic = 0 ∧ shm.ospfRedistConnected = 0 ∧ shm.ospfRedistConnectedSubnets = 0
  then db
  else
    let given := shm.ospfRedistStatic &&& 0x00ffffff
    let metric := if given = 0 then metricDefault else given
    if (db.find shm.toConfig ip).any (fun e => e.fwAddress = 0 && e.tag = shm.ospfStaticTag &&
        e.typeMetric = extMetric shm.ospfStaticMetricType metric && e.rcpif = none) then db
    else
      let e : ExtLsa := ⟨extLsa db.seqNumber shm.ospfRouterId ip mask 0 shm.ospfStaticMetricType
        metric shm.ospfStaticTag, none, origSummary⟩
      purgeCovered shm (db.originate e)

def redistSummaryDel (shm : Shm) (ip : BitVec 32) (db : Db) : Db :=
  (redistStaticDel shm.toConfig ip db).1

def redistSummaryNotAdvertise (shm : Shm) (ip : BitVec 32) (db : Db) : Db :=
  if shm.ospfRedistStatic = 0 then db else purgeCovered shm (redistSummaryDel shm ip db)

def summaddrUpdate (st : State) : State :=
  if st.isAsbr then
    { st with db := st.shm.ospfSumAddr.zipIdx.foldl (fun db p =>
        if !p.1.valid then db
        else if st.shm.notAdvertise p.2 then redistSummaryNotAdvertise st.shm p.1.ip db
        else redistSummaryAdd st.shm p.1.ip p.1.mask db) st.db }
  else { st with db := (purge ExtLsa.selfOriginated st.db).1 }

/-- The switches that `set_asbr_flag` reads. -/
def asbrSwitches (shm : Shm) : Bool :=
  (shm.ospfRedistConnected ||| shm.ospfRedistConnectedSubnets ||| shm.ospfRedistInformation |||
    shm.ospfRedistStatic) ≠ 0

def setAsbrFlag (cfg : Settings) (behind : Bool) (st : State) : State :=
  if asbrSwitches st.shm ≠ st.isAsbr then
    summaddrUpdate (lsaOriginateRtrUpdate cfg behind { st with isAsbr := asbrSwitches st.shm })
  else st

def redistConnectedAdd (shm : Shm) (metric : BitVec 32) (type : Nat) (orig : Nat)
    (ip mask : BitVec 32) (interface : Nat) (db : Db) : Db :=
  (redistAdd shm.toConfig type metric shm.ospfConnectedTag orig ip mask 0 interface db).1

def redistConnectedDel (shm : Shm) (ip : BitVec 32) (db : Db) : Db :=
  (redistStaticDel shm.toConfig ip db).1

/-- `shm_match_network` finds a network. -/
def shmMatchNetwork (shm : Shm) (ip mask : BitVec 32) : Bool :=
  shm.ospfNetwork.any (fun net => net.2 ≤ mask && (net.1 &&& net.2) = (ip &&& net.2))

/-- The walk over the interfaces that both updates share: those that pass and are on no OSPF
network are advertised or withdrawn. -/
def updateInterfaces (shm : Shm) (passes : Interface → Nat → Bool) (on : Interface → Nat → Bool)
    (metric : BitVec 32) (type orig : Nat) (db : Db) : Db :=
  shm.intf.zipIdx.foldl (fun db p =>
    if !(p.1.named && p.1.ip ≠ 0 && passes p.1 p.2) || shmMatchNetwork shm p.1.ip p.1.mask then db
    else if on p.1 p.2 then
      redistConnectedAdd shm metric type orig (p.1.ip &&& p.1.mask) p.1.mask p.2 db
    else redistConnectedDel shm (p.1.ip &&& p.1.mask) db) db

def redistConnectedUpdate (shm : Shm) : Db → Db :=
  updateInterfaces shm (fun intf _ => !intf.loopback)
    (fun intf i => shm.ospfRedistConnected ≠ 0 && shm.adminUp i && intf.linkUp)
    shm.ospfRedistConnected shm.ospfConnectedMetricType origConnected

def redistConnectedSubnetsUpdate (shm : Shm) : Db → Db :=
  updateInterfaces shm (fun intf i => intf.loopback && shm.isVirtual i)
    (fun _ _ => shm.ospfRedistConnectedSubnets ≠ 0) metricDefault metricTypeDefault origLoopback

/-- The highest address of an interface. -/
def generateRouterId (shm : Shm) : Shm :=
  { shm with ospfRouterId := shm.intf.foldl (fun id intf =>
      if intf.named && !intf.loopback && id < intf.ip then intf.ip else id) 0 }

/-- The check that opens the positive form of every command. -/
def withRouterId (shm : Shm) : Except String Shm :=
  let shm := if shm.ospfRouterId = 0 then generateRouterId shm else shm
  if shm.ospfRouterId = 0 then .error "Error: Please configure a router ID\n" else .ok shm

/-- The words that a command looks for, with the number that follows. -/
inductive Arg where
  | metric (metric : BitVec 32)
  | metricType (type : Nat)
  | tag (tag : BitVec 32)

/-- The metric, its type and the tag of a source. -/
structure Choice where
  metric : BitVec 32
  type : Nat
  tag : BitVec 32

def Choice.default : Choice := ⟨metricDefault, metricTypeDefault, 0⟩

def Choice.off : Choice := ⟨0, metricTypeDefault, 0⟩

/-- The loop over the words. -/
def parse (argv : List Arg) : Choice :=
  argv.foldl (fun choice arg => match arg with
    | .metric metric => { choice with metric := metric }
    | .metricType type => { choice with type := type }
    | .tag tag => { choice with tag := tag }) .default

/-- A command: `none` is its no form. -/
inductive Command where
  | defaultInformation (on : Bool)
  | static (argv : Option (List Arg))
  | rip (argv : Option (List Arg))
  | connected (argv : Option (List Arg))
  | connectedSubnets (on : Bool)

/-- The no form is taken as it is, the other one checks the router identifier. -/
def checked (on : Bool) (shm : Shm) : Except String Shm := if on then withRouterId shm else .ok shm

/-- `redistStaticUpdate` on the external list. -/
def State.updateStatic (st : State) : State :=
  { st with db := (redistStaticUpdate st.shm.toConfig st.db).1 }

def State.updateConnected (st : State) : State :=
  { st with db := redistConnectedSubnetsUpdate st.shm (redistConnectedUpdate st.shm st.db) }

def State.deleteAllRip (st : State) : State := { st with db := (redistDeleteAllRip st.db).1 }

def cliRedistDefaultInformationCmd (on : Bool) (st : State) : Except String State := do
  let shm ← checked on st.shm
  let shm :=
    if on then { shm with
      ospfRedistInformation := 1
      ospfRedistStatic := if shm.ospfRedistStatic = 0 then metricDefault else shm.ospfRedistStatic }
    else { shm with ospfRedistInformation := 0 }
  return State.updateStatic { st with shm := shm }

def cliRedistStaticCmd (argv : Option (List Arg)) (st : State) : Except String State := do
  let shm ← checked argv.isSome st.shm
  let choice := argv.elim Choice.off parse
  return State.updateStatic { st with shm := { shm with
    ospfRedistStatic := choice.metric
    ospfStaticMetricType := choice.type
    ospfStaticTag := choice.tag } }

def cliRedistRipCmd (argv : Option (List Arg)) (st : State) : Except String State := do
  let shm ← checked argv.isSome st.shm
  let choice := argv.elim Choice.off parse
  return State.deleteAllRip { st with shm := { shm with
    ospfRedistRip := choice.metric
    ospfRipMetricType := choice.type
    ospfRipTag := choice.tag } }

def cliRedistConnectedCmd (argv : Option (List Arg)) (st : State) : Except String State := do
  let shm ← checked argv.isSome st.shm
  let choice := argv.elim Choice.off parse
  return State.updateConnected { st with shm := { shm with
    ospfRedistConnected := choice.metric
    ospfConnectedMetricType := choice.type
    ospfConnectedTag := choice.tag } }

def cliRedistConnectedSubnetsCmd (on : Bool) (st : State) : Except String State := do
  let shm ← checked on st.shm
  return State.updateConnected { st with shm := { shm with
    ospfRedistConnectedSubnets := if on then metricDefault else 0 } }

/-- The commands up to their last step. -/
def Command.body : Command → State → Except String State
  | defaultInformation on => cliRedistDefaultInformationCmd on
  | static argv => cliRedistStaticCmd argv
  | rip argv => cliRedistRipCmd argv
  | connected argv => cliRedistConnectedCmd argv
  | connectedSubnets on => cliRedistConnectedSubnetsCmd on

/-- Every command ends with `set_asbr_flag`. -/
def Command.exec (cfg : Settings) (behind : Bool) (cmd : Command) (st : State) :
    Except String State :=
  (cmd.body st).map (setAsbrFlag cfg behind)

inductive RouteKind where
  | static
  | rip

/-- The default route needs a switch of its own. -/
def heldBack (shm : Shm) (ip mask : BitVec 32) : Bool :=
  ip = 0 && mask = 0 && shm.ospfRedistInformation = 0

/-- `RCP_PKT_TYPE_ADDROUTE` in the main loop. -/
def addRoute (kind : RouteKind) (ip mask gw : BitVec 32) (st : State) : State :=
  match rcpFindInterfaceByLPM st.shm.intf gw with
  | none => st
  | some (interface, i) =>
    if !interface.linkUp then st
    else match kind with
      | .static =>
        if st.shm.ospfRedistStatic = 0 || heldBack st.shm ip mask then st
        else { st with db := (redistStaticAdd st.shm.toConfig ip mask gw i st.db).1 }
      | .rip =>
        if st.shm.ospfRedistRip = 0 || heldBack st.shm ip mask then st
        else { st with db := (redistRipAdd st.shm ip mask gw i st.db).1 }

/-- What an administrator and the other processes do. -/
inductive Event where
  | command (behind : Bool) (cmd : Command)
  | addRoute (kind : RouteKind) (ip mask gw : BitVec 32)

/-- A command that is refused leaves the state alone. -/
def step (cfg : Settings) (st : State) : Event → State
  | .command behind cmd =>
    match cmd.exec cfg behind st with
    | .ok st' => st'
    | .error _ => st
  | .addRoute kind ip mask gw => addRoute kind ip mask gw st

section Flags

variable {cfg : Settings} {behind : Bool}

/-- The flag of an AS boundary router in a router advertisement. -/
def flagged (lsa : OspfLsa) : Bool := (lsa.memory 20 &&& 2) ≠ 0

theorem memory_body (seq : BitVec 32) (options : BitVec 8) (key : LsaKey) (b : BitVec 8)
    (rest : List (BitVec 8)) : (newLsa seq options key (b :: rest)).memory 20 = b := by
  have body := congrArg List.head? (slice_newLsa seq options key (b :: rest))
  rw [List.length_cons, ByteBuffer.slice, List.range_succ_eq_map] at body
  exact Option.some.inj body

theorem flagged_rtr (asbr : cfg.isAsbr = true) (seq : BitVec 32) (key : LsaKey)
    (networks : List Network) : flagged (newLsa seq 2 key (rtrLsaData cfg networks)) = true := by
  rw [flagged, rtrLsaData, asbr]
  simp only [if_true, List.cons_append, List.nil_append, memory_body]
  cases cfg.isAbr with
  | true => decide
  | false => decide

/-- As few links as there are interfaces: the length in network order leaves something to
compare. -/
theorem compares_something : ∀ k ≤ interfaceLimits,
    0 < (((BitVec.ofNat 16 (24 + 12*k)).extractLsb' 0 8 ++
      (BitVec.ofNat 16 (24 + 12*k)).extractLsb' 8 8 : BitVec 16).setWidth 64 - 20).toNat := by
  decide

theorem memory_of_same {l l' : OspfLsa} {n : Nat} (some_ : 0 < n)
    (same : (l.bytes.drop 20).take n = (l'.bytes.drop 20).take n) : l.memory 20 = l'.memory 20 := by
  have first : ∀ l : OspfLsa, l.memory 20 = ((l.bytes.drop 20).take n).getD 0 0 := by
    intro l
    rw [OspfLsa.memory, List.getD_eq_getElem?_getD, List.getD_eq_getElem?_getD,
      List.getElem?_take_of_lt some_, List.getElem?_drop]
  rw [first l, first l', same]

theorem flagged_of_cmp (asbr : cfg.isAsbr = true) {networks : List Network}
    (few : networks.length ≤ interfaceLimits) {seq : BitVec 32} {key : LsaKey} {l : OspfLsa}
    (passes : cmpRtrLsa behind (newLsa seq 2 key (rtrLsaData cfg networks)) l = true) :
    flagged l = true := by
  have bound := (List.length_filter_le (fun net : Network => net.designatedRouter ≠ 0)
    networks).trans few
  have room := compares_something _ bound
  have length := length_newLsa seq 2 key (rtrLsaData cfg networks)
  rw [length_rtrLsaData, show sizeofHeader = 20 from rfl, ← Nat.add_assoc] at length
  rw [← length] at room
  obtain ⟨_, body⟩ := (Bool.and_eq_true _ _).mp passes
  obtain ⟨same, _⟩ := (Bool.and_eq_true _ _).mp body
  rw [flagged, ← memory_of_same room (of_decide_eq_true same)]
  exact flagged_rtr asbr seq key networks

end Flags

/-- Every area with networks has a router advertisement of this router, with the flag. -/
def Marked (cfg : Settings) (s : Ospf) : Prop :=
  ∀ areaId area, s.areas.find areaId = some area → area.network ≠ [] →
    ∃ lsa, ownCopy s areaId (rtrKey cfg areaId) = some lsa ∧ flagged lsa = true

/-- No area has more networks than there are interfaces. -/
def Few (areas : Areas) : Prop :=
  ∀ areaId area, areas.find areaId = some area → area.network.length ≤ interfaceLimits

section Routers

variable {cfg : Settings} {behind : Bool} {s : Ospf} {areaId : BitVec 32}

theorem list_originate {i : BitVec 32} (other : i ≠ areaId) :
    (originate cfg s (.rtr behind areaId)).list (some i) = s.list (some i) := by
  have apart : some i ≠ slotOf areaId (rtrKey cfg areaId).type :=
    fun eq => other (Option.some.inj eq)
  have unlinked : (unlink s areaId (rtrKey cfg areaId)).list (some i) = s.list (some i) := by
    rw [list_unlink, if_neg apart]
  have called := @called_rtr s cfg behind areaId
  unfold originate
  rw [show (Origin.rtr behind areaId).call cfg s = lsaOriginateRtr cfg behind s areaId from rfl]
  generalize lsaOriginateRtr cfg behind s areaId = r at called
  cases called with
  | kept lists => exact congrFun lists _
  | dropped lists => exact (congrFun lists _).trans unlinked
  | @made s' lsa _ lists keyed _ =>
    have before : s'.list (some i) = s.list (some i) := by
      rw [lists]
      split
      · exact unlinked
      · rfl
    rcases list_lsadbAdd s' areaId lsa (some i) with same | ⟨here, _⟩
    · exact same.trans before
    · have type : lsa.header.type = 1 := congrArg LsaKey.type keyed
      rw [type] at here
      exact absurd (Option.some.inj here) other

theorem ownCopy_originate (asbr : cfg.isAsbr = true) {area : Area}
    (found : s.areas.find areaId = some area) (linked : area.network ≠ [])
    (few : area.network.length ≤ interfaceLimits) :
    ∃ lsa, ownCopy (originate cfg s (.rtr behind areaId)) areaId (rtrKey cfg areaId) = some lsa ∧
      flagged lsa = true := by
  obtain ⟨lsa, copy, rfl | ⟨_, same⟩⟩ := ownCopy_originated cfg behind found linked
  · exact ⟨_, copy, flagged_rtr asbr s.seqNumber (rtrKey cfg areaId) area.network⟩
  · exact ⟨lsa, copy, flagged_of_cmp asbr few same⟩

theorem ownCopy_congr {s' : Ospf} (same : s'.list (some areaId) = s.list (some areaId)) :
    ownCopy s' areaId (rtrKey cfg areaId) = ownCopy s areaId (rtrKey cfg areaId) :=
  congrArg (fun list => (lsaListFind list (rtrKey cfg areaId)).filter OspfLsa.selfOriginated) same

theorem foldl_originate (ids : List (BitVec 32)) (s : Ospf) :
    let s' := ids.foldl (fun s areaId => originate cfg s (.rtr behind areaId)) s
    (∀ i, (s'.areas.find i).map Area.network = (s.areas.find i).map Area.network) ∧
      ∀ i ∉ ids, s'.list (some i) = s.list (some i) := by
  induction ids generalizing s with
  | nil => exact ⟨fun _ => rfl, fun _ _ => rfl⟩
  | cons id ids ih =>
    obtain ⟨networks, others⟩ := ih (originate cfg s (.rtr behind id))
    refine ⟨fun i => (networks i).trans (network_originate i), fun i absent => ?_⟩
    obtain ⟨apart, later⟩ := List.ne_and_not_mem_of_not_mem_cons absent
    exact (others i later).trans (list_originate apart)

theorem marked_foldl (asbr : cfg.isAsbr = true) {ids : List (BitVec 32)} {i : BitVec 32}
    (visited : i ∈ ids) {area : Area} (found : s.areas.find i = some area)
    (linked : area.network ≠ []) (few : area.network.length ≤ interfaceLimits) :
    ∃ lsa, ownCopy (ids.foldl (fun s areaId => originate cfg s (.rtr behind areaId)) s) i
      (rtrKey cfg i) = some lsa ∧ flagged lsa = true := by
  induction ids generalizing s area with
  | nil => cases visited
  | cons id ids ih =>
    by_cases later : i ∈ ids
    · have networks := @network_originate cfg behind s id i
      rw [found] at networks
      obtain ⟨area', found', same⟩ := Option.map_eq_some_iff.mp networks
      exact ih later found' (by rwa [same]) (by rwa [same])
    · have here : i = id := (List.mem_cons.mp visited).resolve_right later
      subst here
      obtain ⟨lsa, copy, flag⟩ := @ownCopy_originate cfg behind s i asbr area found linked few
      refine ⟨lsa, ?_, flag⟩
      have others := (@foldl_originate cfg behind ids
        (originate cfg s (.rtr behind i))).2 i later
      exact (ownCopy_congr others).trans copy

end Routers

section Update

variable {cfg : Settings} {behind : Bool} {st st' : State}

theorem Marked.congr (marked : Marked cfg st.ospf) (same : st'.areas = st.areas) :
    Marked cfg st'.ospf := by
  intro areaId area found linked
  have before : st.ospf.areas.find areaId = some area := by
    rw [← found]
    exact congrArg (fun areas => Areas.find areas areaId) same.symm
  obtain ⟨lsa, copy, flag⟩ := marked areaId area before linked
  refine ⟨lsa, (ownCopy_congr ?_).trans copy, flag⟩
  exact congrArg (fun areas => (Areas.find areas areaId).elim [] (·.list)) same

theorem find_rtrUpdate {areaId : BitVec 32} {area : Area}
    (found : (lsaOriginateRtrUpdate cfg behind st).areas.find areaId = some area) :
    ∃ before, st.areas.find areaId = some before ∧ before.network = area.network := by
  have networks := (@foldl_originate { cfg with isAsbr := st.isAsbr } behind st.areas.ids
    st.ospf).1 areaId
  have found' : (st.areas.ids.foldl (fun s areaId =>
      originate { cfg with isAsbr := st.isAsbr } s (.rtr behind areaId)) st.ospf).areas.find
        areaId = some area := found
  rw [found'] at networks
  exact Option.map_eq_some_iff.mp networks.symm

theorem marked_rtrUpdate (asbr : st.isAsbr = true) (few : Few st.areas) :
    Marked cfg (lsaOriginateRtrUpdate cfg behind st).ospf := by
  intro areaId area found linked
  obtain ⟨before, there, same⟩ := find_rtrUpdate found
  have listed : areaId ∈ st.areas.ids :=
    (Areas.find_isSome st.areas areaId).mp (Option.isSome_iff_exists.mpr ⟨before, there⟩)
  obtain ⟨lsa, copy, flag⟩ := @marked_foldl { cfg with isAsbr := st.isAsbr } behind st.ospf asbr
    st.areas.ids areaId listed before there (by rwa [same]) (few areaId before there)
  exact ⟨lsa, copy, flag⟩

theorem few_rtrUpdate (few : Few st.areas) : Few (lsaOriginateRtrUpdate cfg behind st).areas := by
  intro areaId area found
  obtain ⟨before, there, same⟩ := find_rtrUpdate found
  rw [← same]
  exact few areaId before there

theorem clean_summaddrUpdate (off : st.isAsbr = false) :
    ∀ e ∈ (summaddrUpdate st).db.extlist, e.selfOriginated = false := by
  rw [summaddrUpdate, if_neg (by simp [off])]
  intro e member
  simpa using List.of_mem_filter member

theorem areas_summaddrUpdate (st : State) :
    (summaddrUpdate st).areas = st.areas ∧ (summaddrUpdate st).isAsbr = st.isAsbr ∧
      (summaddrUpdate st).shm = st.shm := by
  unfold summaddrUpdate
  split
  · exact ⟨rfl, rfl, rfl⟩
  · exact ⟨rfl, rfl, rfl⟩

end Update

/-- The flag follows the switches; without it no external advertisement of this router is
there, and with it the router advertisements carry it. -/
structure Inv (cfg : Settings) (st : State) : Prop where
  few : Few st.areas
  flag : st.isAsbr = asbrSwitches st.shm
  clean : st.isAsbr = false → ∀ e ∈ st.db.extlist, e.selfOriginated = false
  marked : st.isAsbr = true → Marked cfg st.ospf

theorem exists_of_bind_ok {α β : Type} {x : Except String α} {f : α → Except String β} {b : β}
    (ok : (x >>= f) = .ok b) : ∃ a, x = .ok a ∧ f a = .ok b := by
  cases x with
  | error e => cases ok
  | ok a => exact ⟨a, rfl, ok⟩

section Commands

variable {cfg : Settings} {behind : Bool} {st st' : State}

theorem inv_setAsbrFlag (few : Few st.areas)
    (clean : st.isAsbr = false → asbrSwitches st.shm = false →
      ∀ e ∈ st.db.extlist, e.selfOriginated = false)
    (marked : st.isAsbr = true → Marked cfg st.ospf) : Inv cfg (setAsbrFlag cfg behind st) := by
  unfold setAsbrFlag
  split
  · obtain ⟨areas, flag, shm⟩ := areas_summaddrUpdate
      (lsaOriginateRtrUpdate cfg behind { st with isAsbr := asbrSwitches st.shm })
    refine ⟨?_, ?_, fun off => ?_, fun on => ?_⟩
    · rw [areas]
      exact few_rtrUpdate few
    · rw [flag, shm]
      rfl
    · rw [flag] at off
      exact clean_summaddrUpdate off
    · rw [flag] at on
      exact (@marked_rtrUpdate cfg behind { st with isAsbr := asbrSwitches st.shm } on few).congr
        areas
  · rename_i same
    have flag : st.isAsbr = asbrSwitches st.shm := (not_not.mp same).symm
    exact ⟨few, flag, fun off => clean off (flag ▸ off), marked⟩

theorem asbrSwitches_off {shm : Shm} (off : asbrSwitches shm = false) :
    shm.ospfRedistConnected = 0 ∧ shm.ospfRedistConnectedSubnets = 0 ∧
      shm.ospfRedistInformation = 0 ∧ shm.ospfRedistStatic = 0 := by
  simp only [asbrSwitches, ne_eq, decide_eq_false_iff_not, not_not] at off
  obtain ⟨three, static⟩ := BitVec.or_eq_zero_iff.mp off
  obtain ⟨two, info⟩ := BitVec.or_eq_zero_iff.mp three
  obtain ⟨connected, subnets⟩ := BitVec.or_eq_zero_iff.mp two
  exact ⟨connected, subnets, info, static⟩

theorem sublist_redistStaticDel (cfg : Config) (ip : BitVec 32) (db : Db) :
    (redistStaticDel cfg ip db).1.extlist.Sublist db.extlist := by
  unfold redistStaticDel
  split
  · exact OwnedList.drop_sublist
  · exact List.Sublist.refl _

theorem sublist_updateInterfaces {shm : Shm} {passes on : Interface → Nat → Bool}
    {metric : BitVec 32} {type orig : Nat} (off : ∀ intf i, on intf i = false) (db : Db) :
    (updateInterfaces shm passes on metric type orig db).extlist.Sublist db.extlist := by
  unfold updateInterfaces
  generalize shm.intf.zipIdx = entries
  induction entries generalizing db with
  | nil => exact List.Sublist.refl _
  | cons p entries ih =>
    refine (ih _).trans ?_
    dsimp only
    rw [off]
    split
    · exact List.Sublist.refl _
    · exact sublist_redistStaticDel shm.toConfig _ db

theorem body_spec {cmd : Command} (ok : cmd.body st = .ok st') :
    st'.areas = st.areas ∧ st'.isAsbr = st.isAsbr ∧
      (asbrSwitches st'.shm = false → st'.db.extlist.Sublist st.db.extlist) := by
  have static : ∀ shm : Shm, asbrSwitches shm = false →
      (State.updateStatic { st with shm := shm }).db.extlist.Sublist st.db.extlist := by
    intro shm off
    have zero := (asbrSwitches_off off).2.2.2
    simp only [State.updateStatic, redistStaticUpdate, if_pos zero]
    exact List.filter_sublist
  have connected : ∀ shm : Shm, asbrSwitches shm = false →
      (State.updateConnected { st with shm := shm }).db.extlist.Sublist st.db.extlist := by
    intro shm off
    obtain ⟨zero, subnets, _⟩ := asbrSwitches_off off
    refine (sublist_updateInterfaces (fun intf i => ?_) _).trans
      (sublist_updateInterfaces (fun intf i => ?_) _)
    · simp [subnets]
    · simp [zero]
  cases cmd with
  | defaultInformation on =>
    obtain ⟨shm, _, done⟩ := exists_of_bind_ok ok
    cases done
    exact ⟨rfl, rfl, static _⟩
  | static argv =>
    obtain ⟨shm, _, done⟩ := exists_of_bind_ok ok
    cases done
    exact ⟨rfl, rfl, static _⟩
  | rip argv =>
    obtain ⟨shm, _, done⟩ := exists_of_bind_ok ok
    cases done
    exact ⟨rfl, rfl, fun _ => List.filter_sublist⟩
  | connected argv =>
    obtain ⟨shm, _, done⟩ := exists_of_bind_ok ok
    cases done
    exact ⟨rfl, rfl, connected _⟩
  | connectedSubnets on =>
    obtain ⟨shm, _, done⟩ := exists_of_bind_ok ok
    cases done
    exact ⟨rfl, rfl, connected _⟩

theorem Inv.command (inv : Inv cfg st) {cmd : Command} (ok : cmd.exec cfg behind st = .ok st') :
    Inv cfg st' := by
  unfold Command.exec at ok
  cases done : cmd.body st with
  | error e =>
    rw [done] at ok
    cases ok
  | ok mid =>
    rw [done] at ok
    cases ok
    obtain ⟨areas, flag, removes⟩ := body_spec done
    refine inv_setAsbrFlag ?_ (fun off down e member => ?_) (fun on => ?_)
    · rw [areas]
      exact inv.few
    · exact inv.clean (flag ▸ off) e ((removes down).subset member)
    · exact (inv.marked (flag ▸ on)).congr areas

end Commands

/-- What is asked of a state with an external advertisement of this router. -/
def Declared (cfg : Settings) (st : State) : Prop :=
  (∃ e ∈ st.db.extlist, e.selfOriginated = true) → st.isAsbr = true ∧ Marked cfg st.ospf

/-- A RIP route that gets advertised while all switches but that of RIP are off. -/
def Undeclared (st : State) : Event → Prop
  | .addRoute .rip ip mask gw => st.shm.ospfRedistRip ≠ 0 ∧ asbrSwitches st.shm = false ∧
      ¬ (ip = 0 ∧ mask = 0) ∧ summaddrMatch st.shm.toConfig ip mask = none ∧
      ∃ interface i, rcpFindInterfaceByLPM st.shm.intf gw = some (interface, i) ∧
        interface.linkUp = true
  | _ => False

section Routes

variable {cfg : Settings} {st : State} {ip mask gw : BitVec 32}

theorem Inv.external (inv : Inv cfg st) (on : st.isAsbr = true) (db : Db) :
    Inv cfg { st with db := db } :=
  ⟨inv.few, inv.flag, fun off => absurd (on.symm.trans off) (by decide),
    fun on => (inv.marked on).congr rfl⟩

theorem Inv.addStatic (inv : Inv cfg st) : Inv cfg (addRoute .static ip mask gw st) := by
  unfold addRoute
  cases rcpFindInterfaceByLPM st.shm.intf gw with
  | none => exact inv
  | some p =>
    obtain ⟨interface, i⟩ := p
    dsimp only
    split
    · exact inv
    · split
      · exact inv
      · rename_i passes
        refine inv.external ?_ _
        rw [inv.flag]
        by_contra off
        have zero := (asbrSwitches_off (Bool.eq_false_iff.mpr off)).2.2.2
        simp [zero] at passes

theorem Inv.addRip (inv : Inv cfg st) (seen : ¬ Undeclared st (.addRoute .rip ip mask gw)) :
    Inv cfg (addRoute .rip ip mask gw st) := by
  unfold addRoute
  cases found : rcpFindInterfaceByLPM st.shm.intf gw with
  | none => exact inv
  | some p =>
    obtain ⟨interface, i⟩ := p
    dsimp only
    split
    · exact inv
    · rename_i up
      split
      · exact inv
      · rename_i passes
        by_cases flag : st.isAsbr = true
        · exact inv.external flag _
        · have down := inv.flag.symm.trans (Bool.eq_false_iff.mpr flag)
          have info := (asbrSwitches_off down).2.2.1
          have covered : (summaddrMatch st.shm.toConfig ip mask).isSome = true := by
            by_contra open_
            refine seen ⟨fun off => ?_, down, fun zero => ?_, by simpa using open_, interface, i,
              found, by simpa using up⟩
            · simp [off] at passes
            · simp [heldBack, zero.1, zero.2, info] at passes
          rw [redistRipAdd, redistAdd, if_pos covered]
          exact inv

theorem not_declared (inv : Inv cfg st) (unseen : Undeclared st (.addRoute .rip ip mask gw)) :
    ¬ Declared cfg (addRoute .rip ip mask gw st) := by
  obtain ⟨on, down, route, uncovered, interface, i, found, up⟩ := unseen
  have flag : st.isAsbr = false := inv.flag.trans down
  have held : heldBack st.shm ip mask = false := by
    simp only [heldBack, Bool.and_eq_false_iff, decide_eq_false_iff_not]
    exact .inl (not_and_or.mp route)
  have absent : st.db.find st.shm.toConfig ip = none := by
    cases there : st.db.find st.shm.toConfig ip with
    | none => rfl
    | some e =>
      obtain ⟨member, own, _⟩ := (own_eq_some st.db.first).mp there
      have clean := inv.clean flag e member
      rw [own] at clean
      cases clean
  intro declared
  have reached : (addRoute .rip ip mask gw st).isAsbr = st.isAsbr ∧
      ∃ e ∈ (addRoute .rip ip mask gw st).db.extlist, e.selfOriginated = true := by
    simp only [addRoute, found, up, Bool.not_true, Bool.false_eq_true, if_false, on, held,
      Bool.or_false, decide_false, redistRipAdd, redistAdd, uncovered, Option.isSome_none, absent,
      Option.any_none]
    exact ⟨trivial, _, List.mem_cons_self, rfl⟩
  have now := (declared reached.2).1
  rw [reached.1, flag] at now
  cases now

end Routes

theorem Inv.declared {cfg : Settings} {st : State} (inv : Inv cfg st) : Declared cfg st := by
  rintro ⟨e, member, own⟩
  have on : st.isAsbr = true := by
    by_contra off
    have clean := inv.clean (Bool.eq_false_iff.mpr off) e member
    rw [own] at clean
    cases clean
  exact ⟨on, inv.marked on⟩

theorem Inv.step {cfg : Settings} {st : State} (inv : Inv cfg st) {event : Event}
    (seen : ¬ Undeclared st event) : Inv cfg (step cfg st event) := by
  cases event with
  | command behind cmd =>
    unfold AsbrFlag.step
    dsimp only
    cases done : cmd.exec cfg behind st with
    | ok st' => exact inv.command done
    | error e => exact inv
  | addRoute kind ip mask gw =>
    cases kind with
    | static => exact inv.addStatic
    | rip => exact inv.addRip seen

/-- A process without switches, flag and external advertisements of its own. -/
structure Fresh (st : State) : Prop where
  few : Few st.areas
  off : asbrSwitches st.shm = false
  flag : st.isAsbr = false
  clean : ∀ e ∈ st.db.extlist, e.selfOriginated = false

/-- From a fresh start, a router with external advertisements declares itself in every state,
exactly when no RIP route is advertised with the other switches off. -/
theorem declared_iff (cfg : Settings) {st : State} (fresh : Fresh st) (events : List Event) :
    Always (step cfg) (Declared cfg) events st ↔
      Along (step cfg) (fun st event => ¬ Undeclared st event) events st := by
  refine always_iff_along (fun _ => Inv.declared) (fun _ _ inv seen => inv.step seen)
    (fun st event inv unseen => ?_) ⟨fresh.few, fresh.flag.trans fresh.off.symm,
      fun _ => fresh.clean, fun on => absurd (fresh.flag.symm.trans on) (by decide)⟩
  cases event with
  | command behind cmd => exact absurd not_false unseen
  | addRoute kind ip mask gw =>
    cases kind with
    | static => exact absurd not_false unseen
    | rip => exact not_declared inv (not_not.mp unseen)

/-- A router with an interface and one area, before the first command. -/
def freshRouter : State where
  shm := { bothSources with ospfRedistStatic := 0, ospfRedistRip := 0 }
  isAsbr := false
  db := noExternals
  areas := ⟨[(0, ⟨false, [], [designated]⟩)], List.pairwise_singleton _ _⟩

def plainSettings : Settings where
  isAbr := false
  isAsbr := false
  routerId := fun _ => 0x01010101
  noSummary := fun _ => false
  netRouterId := fun _ => 0x01010101
  netCost := fun _ => 1
  nbRouterId := fun _ _ => 0
  lsaCost := fun _ => 1

theorem fresh_freshRouter : Fresh freshRouter where
  few := by
    intro areaId area found
    by_cases here : areaId = 0
    · subst here
      cases found
      decide
    · have absent : freshRouter.areas.find areaId = none := by
        simp only [Areas.find, freshRouter, List.lookup_cons, beq_false_of_ne here]
        rfl
      rw [absent] at found
      cases found
  off := by decide
  flag := rfl
  clean := fun _ member => absurd member List.not_mem_nil

/-- A route from RIP, by the interface. -/
def ripRoute : Event := .addRoute .rip 0x0a080000 0xffff0000 0x0a000002

/-- RIP alone is redistributed: the route is advertised and the flag is down. -/
theorem rip_alone_undeclared :
    Fresh freshRouter ∧ ¬ Always (step plainSettings) (Declared plainSettings)
      [.command false (.rip (some [])), ripRoute] freshRouter := by
  refine ⟨fresh_freshRouter, fun always => ?_⟩
  have last := StepRuns.always_iff_take.mp always 2
  have held : (([Event.command false (.rip (some [])), ripRoute].foldl (step plainSettings)
      freshRouter).db.extlist.any ExtLsa.selfOriginated) = true := by decide +kernel
  have down : ([Event.command false (.rip (some [])), ripRoute].foldl (step plainSettings)
      freshRouter).isAsbr = false := by decide +kernel
  have up := (last (by simpa using held)).1
  rw [show [Event.command false (.rip (some [])), ripRoute].take 2 =
    [.command false (.rip (some [])), ripRoute] from rfl, down] at up
  cases up

theorem rip_beside_static_declared :
    Always (step plainSettings) (Declared plainSettings)
      [.command false (.static (some [])), .command false (.rip (some [])), ripRoute]
      freshRouter := by
  refine (declared_iff plainSettings fresh_freshRouter _).mpr ⟨not_false, not_false, ?_, trivial⟩
  rintro ⟨_, off, _⟩
  revert off
  decide +kernel

end AsbrFlag
