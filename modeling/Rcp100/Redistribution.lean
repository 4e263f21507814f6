import Rcp100.Origination
import Rcp100.OwnedList
import Rcp100.KeyedRewrite

/-!
# Redistribution of static routes

`redistStaticUpdate` walks the table of static routes: a route whose next hop is on an
interface that is up is advertised by an external advertisement of this router, and any
other route has the advertisement of its address withdrawn. Advertisements are found by the
network address alone. Counters and log lines are left out; what is originated and removed
is logged in their place.
-/

namespace Redistribution

open LsaFormat LsUpdate ByteBuffer Origination KeyedRewrite
open OwnedList (OwnFirst own own_eq_some own_put own_drop)

/-- `RcpInterface`; a slot without a name is free. -/
structure Interface where
  named : Bool
  loopback : Bool
  ip : BitVec 32
  mask : BitVec 32
  linkUp : Bool
  deriving DecidableEq, Repr

inductive RouteType where
  | static
  | blackhole
  deriving DecidableEq, Repr

/-- `RcpStaticRoute`. -/
structure StaticRoute where
  valid : Bool
  type : RouteType
  ip : BitVec 32
  mask : BitVec 32
  gw : BitVec 32
  deriving DecidableEq, Repr

/-- `RcpOspfSummaryAddr`. -/
structure SummaryAddr where
  valid : Bool
  ip : BitVec 32
  mask : BitVec 32

/-- The configuration, the networks of all areas, and the flag of `summary_address.c`. -/
structure Config where
  ospfRouterId : BitVec 32
  ospfRedistStatic : BitVec 32
  ospfStaticTag : BitVec 32
  ospfStaticMetricType : Nat
  ospfRedistInformation : BitVec 32
  sroute : List StaticRoute
  intf : List Interface
  ospfSumAddr : List SummaryAddr
  isConfigured : Bool
  network : List Network

/-- An external advertisement with the interface and the originator of its route. -/
structure ExtLsa where
  lsa : OspfLsa
  rcpif : Option Nat
  originator : Nat

namespace ExtLsa

def key (e : ExtLsa) : LsaKey := e.lsa.key

def selfOriginated (e : ExtLsa) : Bool := e.lsa.selfOriginated

def mask (e : ExtLsa) : BitVec 32 := e.lsa.memory.get32 20

def typeMetric (e : ExtLsa) : BitVec 32 := e.lsa.memory.get32 24

def fwAddress (e : ExtLsa) : BitVec 32 := e.lsa.memory.get32 28

def tag (e : ExtLsa) : BitVec 32 := e.lsa.memory.get32 32

end ExtLsa

/-- The external list. An advertisement of this router is the first one under its key. -/
structure Db where
  extlist : List ExtLsa
  seqNumber : BitVec 32
  first : OwnFirst ExtLsa.key ExtLsa.selfOriginated extlist

/-- What goes out to the neighbors. -/
inductive Change where
  | originated (lsa : ExtLsa)
  | removed (lsa : ExtLsa)

/-- `OSPF_ORIG_STATIC`. -/
def origStatic : Nat := 1

def summaddrMatch (cfg : Config) (ip mask : BitVec 32) : Option SummaryAddr :=
  if cfg.isConfigured then
    cfg.ospfSumAddr.find? (fun addr =>
      addr.valid && addr.mask ≤ mask && (addr.ip &&& addr.mask) = (ip &&& addr.mask))
  else none

def networkFindAnyIp (cfg : Config) (ip : BitVec 32) : Option Network :=
  cfg.network.find? (onNetwork ip)

/-- The interface and its place in the table. -/
def rcpFindInterfaceByLPM (intf : List Interface) (ip : BitVec 32) : Option (Interface × Nat) :=
  if ip = 0 then none
  else intf.zipIdx.find? (fun p =>
    p.1.named && !p.1.loopback && p.1.mask ≠ 0 && (p.1.ip &&& p.1.mask) = (ip &&& p.1.mask))

/-- The advertisement of this router that `lsadbFind` returns for an address. -/
def Db.find (cfg : Config) (db : Db) (ip : BitVec 32) : Option ExtLsa :=
  own ExtLsa.key ExtLsa.selfOriginated db.extlist ⟨5, ip, cfg.ospfRouterId⟩

/-- `lsa_originate_ext` and `lsadbAdd`: the old advertisement goes and the new one is put in
front. -/
def Db.originate (db : Db) (e : ExtLsa) : Db where
  extlist := OwnedList.put ExtLsa.key ExtLsa.selfOriginated db.extlist e
  seqNumber := LsdbFreshness.lsaIncrementSeq db.seqNumber
  first := db.first.put e

/-- `lsadbRemove`. -/
def Db.remove (cfg : Config) (db : Db) (ip : BitVec 32) : Db where
  extlist := OwnedList.drop ExtLsa.key ExtLsa.selfOriginated db.extlist ⟨5, ip, cfg.ospfRouterId⟩
  seqNumber := db.seqNumber
  first := db.first.drop _

/-- The next hop in the advertisement: 0 when it is on no OSPF network. -/
def nextHop (cfg : Config) (gw : BitVec 32) : BitVec 32 :=
  if (networkFindAnyIp cfg gw).isSome then gw else 0

/-- The check of next hop, tag, metric and interface. -/
def unchanged (cfg : Config) (gw : BitVec 32) (interface : Nat) (e : ExtLsa) : Bool :=
  e.fwAddress = gw && e.tag = cfg.ospfStaticTag &&
    e.typeMetric = extMetric cfg.ospfStaticMetricType cfg.ospfRedistStatic &&
    e.rcpif = some interface

def redistStaticAdd (cfg : Config) (ip mask gw : BitVec 32) (interface : Nat) (db : Db) :
    Db × List Change :=
  if (summaddrMatch cfg ip mask).isSome then (db, [])
  else
    let gw := nextHop cfg gw
    if (db.find cfg ip).any (unchanged cfg gw interface) then (db, [])
    else
      let e : ExtLsa := ⟨extLsa db.seqNumber cfg.ospfRouterId ip mask gw cfg.ospfStaticMetricType
        cfg.ospfRedistStatic cfg.ospfStaticTag, some interface, origStatic⟩
      (db.originate e, [.originated e])

def redistStaticDel (cfg : Config) (ip : BitVec 32) (db : Db) : Db × List Change :=
  match db.find cfg ip with
  | some e => (db.remove cfg ip, [.removed { e with lsa := e.lsa.setAge maxAge }])
  | none => (db, [])

def deleteAllStatic (db : Db) : Db × List Change :=
  let goes : ExtLsa → Bool := fun e => e.selfOriginated && e.originator = origStatic
  (⟨db.extlist.filter (fun e => !goes e), db.seqNumber, db.first.sublist List.filter_sublist⟩,
    (db.extlist.filter goes).map (fun e => .removed { e with lsa := e.lsa.setAge maxAge }))

/-- One pass of the loop over the static routes. -/
def updateRoute (cfg : Config) (db : Db) (r : StaticRoute) : Db × List Change :=
  if !r.valid || r.type ≠ .static then (db, [])
  else if r.ip = 0 ∧ r.mask = 0 ∧ cfg.ospfRedistInformation = 0 then redistStaticDel cfg r.ip db
  else
    match rcpFindInterfaceByLPM cfg.intf r.gw with
    | none => redistStaticDel cfg r.ip db
    | some (interface, i) =>
      if !interface.linkUp then redistStaticDel cfg r.ip db
      else redistStaticAdd cfg r.ip r.mask r.gw i db

/-- The loop. -/
def updateRoutes (cfg : Config) (db : Db) : List StaticRoute → Db × List Change
  | [] => (db, [])
  | r :: rest =>
    let one := updateRoute cfg db r
    let others := updateRoutes cfg one.1 rest
    (others.1, one.2 ++ others.2)

def redistStaticUpdate (cfg : Config) (db : Db) : Db × List Change :=
  if cfg.ospfRedistStatic = 0 then deleteAllStatic db else updateRoutes cfg db cfg.sroute

/-- The prefix is advertised by this router. -/
def Advertised (cfg : Config) (db : Db) (ip mask : BitVec 32) : Prop :=
  ∃ e ∈ db.extlist, e.selfOriginated = true ∧ e.key = ⟨5, ip, cfg.ospfRouterId⟩ ∧ e.mask = mask

/-- The next hop of the route is on an interface that is up, and the default route may be
advertised. -/
def Usable (cfg : Config) (r : StaticRoute) (i : Nat) : Prop :=
  (r.ip = 0 → r.mask = 0 → cfg.ospfRedistInformation ≠ 0) ∧
    ∃ interface, rcpFindInterfaceByLPM cfg.intf r.gw = some (interface, i) ∧
      interface.linkUp = true

/-- A valid static route of the table. -/
def Config.routes (cfg : Config) : List StaticRoute :=
  cfg.sroute.filter (fun r => r.valid && r.type = .static)

/-- The table holds a usable static route for the prefix. -/
def Reachable (cfg : Config) (ip mask : BitVec 32) : Prop :=
  ∃ r ∈ cfg.routes, r.ip = ip ∧ r.mask = mask ∧ ∃ i, Usable cfg r i

/-- The advertisements are those of the usable static routes, and another update changes
nothing. -/
def Exact (cfg : Config) (db : Db) : Prop :=
  let updated := (redistStaticUpdate cfg db).1
  (∀ ip mask, Advertised cfg updated ip mask ↔ Reachable cfg ip mask) ∧
    (redistStaticUpdate cfg updated).2 = []

/-- Routes for one address are all usable or none is; usable ones share the mask, the next
hop that is advertised and the interface. -/
def Alike (cfg : Config) : Prop :=
  ∀ r ∈ cfg.routes, ∀ r' ∈ cfg.routes, r.ip = r'.ip → ∀ i, Usable cfg r i →
    Usable cfg r' i ∧ r.mask = r'.mask ∧ nextHop cfg r.gw = nextHop cfg r'.gw

/-- The routes for one address are alike. Before the update no advertisement of this router
is for an address without a route, and none passes for that of a usable route with another
mask. -/
structure Settled (cfg : Config) (db : Db) : Prop where
  alike : Alike cfg
  listed : ∀ ip e, db.find cfg ip = some e → ∃ r ∈ cfg.routes, r.ip = ip
  masked : ∀ r ∈ cfg.routes, ∀ i, Usable cfg r i → ∀ e, db.find cfg r.ip = some e →
    unchanged cfg (nextHop cfg r.gw) i e = true → e.mask = r.mask

/-- What an advertisement says of its prefix. -/
structure Ad where
  mask : BitVec 32
  fwAddress : BitVec 32
  tag : BitVec 32
  typeMetric : BitVec 32
  rcpif : Option Nat
  deriving DecidableEq

/-- The fields that the check of `redistStaticAdd` compares; the mask is not among them. -/
def Same (a b : Ad) : Prop :=
  b.fwAddress = a.fwAddress ∧ b.tag = a.tag ∧ b.typeMetric = a.typeMetric ∧ b.rcpif = a.rcpif

instance : DecidableRel Same := fun a b =>
  inferInstanceAs (Decidable (b.fwAddress = a.fwAddress ∧ b.tag = a.tag ∧
    b.typeMetric = a.typeMetric ∧ b.rcpif = a.rcpif))

theorem same_equivalence : Equivalence Same where
  refl _ := ⟨rfl, rfl, rfl, rfl⟩
  symm h := ⟨h.1.symm, h.2.1.symm, h.2.2.1.symm, h.2.2.2.symm⟩
  trans h k := ⟨k.1.trans h.1, k.2.1.trans h.2.1, k.2.2.1.trans h.2.2.1, k.2.2.2.trans h.2.2.2⟩

theorem Same.eq {a b : Ad} (same : Same a b) (mask : b.mask = a.mask) : b = a := by
  obtain ⟨hop, tag, metric, rcpif⟩ := same
  cases a
  cases b
  simp_all

def ExtLsa.ad (e : ExtLsa) : Ad := ⟨e.mask, e.fwAddress, e.tag, e.typeMetric, e.rcpif⟩

/-- The advertisements of this router, by network address. -/
def Db.table (cfg : Config) (db : Db) (ip : BitVec 32) : Option Ad := (db.find cfg ip).map ExtLsa.ad

/-- The advertisement that a route asks for. -/
def wanted (cfg : Config) (r : StaticRoute) (i : Nat) : Ad :=
  ⟨r.mask, nextHop cfg r.gw, cfg.ospfStaticTag,
    extMetric cfg.ospfStaticMetricType cfg.ospfRedistStatic, some i⟩

/-- The interface that a route is advertised with. -/
def usable (cfg : Config) (r : StaticRoute) : Option Nat :=
  if r.ip = 0 ∧ r.mask = 0 ∧ cfg.ospfRedistInformation = 0 then none
  else (rcpFindInterfaceByLPM cfg.intf r.gw).bind
    (fun p => if p.1.linkUp then some p.2 else none)

def command (cfg : Config) (r : StaticRoute) : Command (BitVec 32) Ad :=
  ⟨r.ip, (usable cfg r).map (wanted cfg r)⟩

section Update

variable {cfg : Config} {db : Db} {r : StaticRoute}

theorem usable_iff {i : Nat} : usable cfg r = some i ↔ Usable cfg r i := by
  unfold usable Usable
  split
  · rename_i default
    obtain ⟨ip, mask, info⟩ := default
    simp [ip, mask, info]
  · rename_i allowed
    constructor
    · intro found
      obtain ⟨⟨interface, j⟩, hfind, up⟩ := Option.bind_eq_some_iff.mp found
      dsimp only at up
      split at up
      · rename_i link
        cases up
        exact ⟨fun ip mask info => allowed ⟨ip, mask, info⟩, interface, hfind, link⟩
      · cases up
    · rintro ⟨_, interface, hfind, link⟩
      simp [hfind, link]

theorem ad_extLsa (seq routerId ip mask gw : BitVec 32) (type : Nat) (metric tag : BitVec 32)
    (rcpif : Option Nat) (originator : Nat) :
    ExtLsa.ad ⟨extLsa seq routerId ip mask gw type metric tag, rcpif, originator⟩ =
      ⟨mask, gw, tag, extMetric type metric, rcpif⟩ := by
  have body := slice_newLsa seq 2 ⟨5, ip, routerId⟩
    (be32 mask ++ be32 (extMetric type metric) ++ be32 gw ++ be32 tag)
  have first := get32_of_slice [] (be32 (extMetric type metric) ++ be32 gw ++ be32 tag)
    (by simpa using body)
  have second := get32_of_slice (be32 mask) (be32 gw ++ be32 tag) (by simpa using body)
  have third := get32_of_slice (be32 mask ++ be32 (extMetric type metric)) (be32 tag)
    (by simpa using body)
  have fourth := get32_of_slice (be32 mask ++ be32 (extMetric type metric) ++ be32 gw) []
    (by simpa using body)
  exact congr (congr (congr (congrArg (fun m f t k => Ad.mk m f t k rcpif) first) third) fourth)
    second

theorem table_remove (ip : BitVec 32) :
    (db.remove cfg ip).table cfg = step Same (db.table cfg) ⟨ip, none⟩ := by
  funext k
  simp only [Db.table, Db.find, Db.remove, own_drop db.first, step, cell, Function.update_apply,
    LsaKey.mk.injEq, true_and, and_true, eq_comm (a := k)]
  split
  · rfl
  · rfl

theorem table_originate {e : ExtLsa} {ip : BitVec 32} (own : e.selfOriginated = true)
    (keyed : e.key = ⟨5, ip, cfg.ospfRouterId⟩) :
    (db.originate e).table cfg = Function.update (db.table cfg) ip (some e.ad) := by
  funext k
  simp only [Db.table, Db.find, Db.originate, own_put db.first own, keyed, Function.update_apply,
    LsaKey.mk.injEq, true_and, and_true, eq_comm (a := k)]
  split
  · rfl
  · rfl

theorem redistStaticDel_spec (ip : BitVec 32) :
    (redistStaticDel cfg ip db).1.table cfg = step Same (db.table cfg) ⟨ip, none⟩ ∧
      ((redistStaticDel cfg ip db).2 = [] ↔ Quiet Same none (db.table cfg ip)) := by
  unfold redistStaticDel
  cases found : db.find cfg ip with
  | none =>
    have quiet : Quiet Same none (db.table cfg ip) := by simp [Quiet, Db.table, found]
    exact ⟨(step_of_quiet (c := ⟨ip, none⟩) quiet).symm, by simp [quiet]⟩
  | some e =>
    refine ⟨table_remove ip, ?_⟩
    simp [Quiet, Db.table, found]

theorem unchanged_iff {gw : BitVec 32} {i : Nat} {e : ExtLsa} {mask : BitVec 32} :
    unchanged cfg gw i e = true ↔
      Same ⟨mask, gw, cfg.ospfStaticTag, extMetric cfg.ospfStaticMetricType cfg.ospfRedistStatic,
        some i⟩ e.ad := by
  simp [unchanged, Same, ExtLsa.ad, and_assoc]

theorem redistStaticAdd_spec (plain : cfg.isConfigured = false) (i : Nat) :
    (redistStaticAdd cfg r.ip r.mask r.gw i db).1.table cfg =
        step Same (db.table cfg) ⟨r.ip, some (wanted cfg r i)⟩ ∧
      ((redistStaticAdd cfg r.ip r.mask r.gw i db).2 = [] ↔
        Quiet Same (some (wanted cfg r i)) (db.table cfg r.ip)) := by
  have unmatched : ¬ (summaddrMatch cfg r.ip r.mask).isSome = true := by
    simp [summaddrMatch, plain]
  simp only [redistStaticAdd, if_neg unmatched]
  have keyed : ExtLsa.key ⟨extLsa db.seqNumber cfg.ospfRouterId r.ip r.mask (nextHop cfg r.gw)
      cfg.ospfStaticMetricType cfg.ospfRedistStatic cfg.ospfStaticTag, some i, origStatic⟩ =
      ⟨5, r.ip, cfg.ospfRouterId⟩ := key_newLsa ..
  by_cases stays : (db.find cfg r.ip).any (unchanged cfg (nextHop cfg r.gw) i) = true
  · rw [if_pos stays]
    obtain ⟨e, found, same⟩ : ∃ e, db.find cfg r.ip = some e ∧
        unchanged cfg (nextHop cfg r.gw) i e = true := by
      simpa [Option.any_eq_true] using stays
    have quiet : Quiet Same (some (wanted cfg r i)) (db.table cfg r.ip) := by
      simp only [Quiet, Db.table, found, Option.map_some]
      exact unchanged_iff.mp same
    exact ⟨(step_of_quiet (c := ⟨r.ip, some (wanted cfg r i)⟩) quiet).symm, by simp [quiet]⟩
  · rw [if_neg stays, table_originate rfl keyed, ad_extLsa]
    have written : cell Same (some (wanted cfg r i)) (db.table cfg r.ip) = some (wanted cfg r i) ∧
        ¬ Quiet Same (some (wanted cfg r i)) (db.table cfg r.ip) := by
      cases found : db.find cfg r.ip with
      | none => simp [Db.table, found, cell, Quiet]
      | some e =>
        have differs : ¬ Same (wanted cfg r i) e.ad := by
          intro same
          rw [found, Option.any_some] at stays
          exact stays (unchanged_iff.mpr same)
        simp [Db.table, found, cell, Quiet, differs]
    refine ⟨?_, by simp [written.2]⟩
    rw [step, written.1]
    rfl

end Update

section Loop

variable {cfg : Config} {db : Db} {r : StaticRoute}

theorem updateRoute_spec (plain : cfg.isConfigured = false) (listed : r.valid = true)
    (static : r.type = .static) :
    (updateRoute cfg db r).1.table cfg = step Same (db.table cfg) (command cfg r) ∧
      ((updateRoute cfg db r).2 = [] ↔
        Quiet Same (command cfg r).target (db.table cfg r.ip)) := by
  have applies : ¬ (!r.valid || decide (r.type ≠ .static)) = true := by simp [listed, static]
  unfold updateRoute command usable
  rw [if_neg applies]
  split
  · exact redistStaticDel_spec r.ip
  · cases rcpFindInterfaceByLPM cfg.intf r.gw with
    | none => exact redistStaticDel_spec r.ip
    | some p =>
      obtain ⟨interface, i⟩ := p
      dsimp only [Option.bind_some]
      cases interface.linkUp with
      | false => exact redistStaticDel_spec r.ip
      | true => exact redistStaticAdd_spec plain i

theorem updateRoute_of_other (other : ¬ (r.valid && r.type = .static) = true) :
    updateRoute cfg db r = (db, []) := by
  refine if_pos ?_
  simp only [Bool.and_eq_true, decide_eq_true_eq, not_and_or] at other
  rcases other with free | blackhole
  · simp [free]
  · simp [blackhole]

/-- The commands of a list of table entries. -/
def commands (cfg : Config) (rs : List StaticRoute) : List (Command (BitVec 32) Ad) :=
  (rs.filter (fun r => r.valid && r.type = .static)).map (command cfg)

theorem updateRoutes_spec (plain : cfg.isConfigured = false) (rs : List StaticRoute) (db : Db) :
    (updateRoutes cfg db rs).1.table cfg = run Same (db.table cfg) (commands cfg rs) ∧
      ((updateRoutes cfg db rs).2 = [] ↔ QuietRun Same (db.table cfg) (commands cfg rs)) := by
  induction rs generalizing db with
  | nil => exact ⟨rfl, by simp [updateRoutes, commands, QuietRun]⟩
  | cons r rest ih =>
    obtain ⟨table, quiet⟩ := ih (updateRoute cfg db r).1
    by_cases active : (r.valid && r.type = .static) = true
    · have both : r.valid = true ∧ r.type = .static := by simpa using active
      obtain ⟨one, silent⟩ := @updateRoute_spec cfg db r plain both.1 both.2
      have split : commands cfg (r :: rest) = command cfg r :: commands cfg rest := by
        simp [commands, both.1, both.2]
      rw [split]
      rw [one] at table quiet
      refine ⟨table, ?_⟩
      simp only [updateRoutes, List.append_eq_nil_iff, QuietRun]
      rw [silent, quiet]
      rfl
    · have split : commands cfg (r :: rest) = commands cfg rest := by
        simp only [commands, List.filter_cons, if_neg active]
      rw [updateRoute_of_other active] at table quiet
      rw [split, updateRoutes, updateRoute_of_other active]
      exact ⟨table, by simpa using quiet⟩

theorem mem_commands {c : Command (BitVec 32) Ad} :
    c ∈ commands cfg cfg.sroute ↔ ∃ r ∈ cfg.routes, c = command cfg r := by
  simp only [commands, Config.routes, List.mem_map, eq_comm]

theorem advertised_iff {ip mask : BitVec 32} :
    Advertised cfg db ip mask ↔ ∃ a, db.table cfg ip = some a ∧ a.mask = mask := by
  constructor
  · rintro ⟨e, member, own, keyed, masked⟩
    have found := (own_eq_some db.first).mpr ⟨member, own, keyed⟩
    exact ⟨e.ad, by rw [Db.table, Db.find, found]; rfl, masked⟩
  · rintro ⟨a, found, masked⟩
    obtain ⟨e, he, rfl⟩ := Option.map_eq_some_iff.mp found
    obtain ⟨member, own, keyed⟩ := (own_eq_some db.first).mp he
    exact ⟨e, member, own, keyed, masked⟩

end Loop

section Exact

variable {cfg : Config} {db : Db}

theorem agree_iff {r r' : StaticRoute} :
    Agree Same (command cfg r).target (command cfg r').target ↔
      usable cfg r = usable cfg r' ∧
        ((usable cfg r).isSome = true → nextHop cfg r.gw = nextHop cfg r'.gw) := by
  unfold command
  cases first : usable cfg r with
  | none =>
    cases second : usable cfg r' with
    | none => simp [Agree]
    | some j => simp [Agree]
  | some i =>
    cases second : usable cfg r' with
    | none => simp [Agree]
    | some j =>
      simp only [Agree, Option.map_some, Same, wanted, Option.some.injEq, true_and]
      constructor
      · rintro ⟨hop, rfl⟩
        exact ⟨rfl, fun _ => hop.symm⟩
      · rintro ⟨rfl, hop⟩
        exact ⟨(hop rfl).symm, rfl⟩

theorem Alike.target (alike : Alike cfg) {r r' : StaticRoute} (hr : r ∈ cfg.routes)
    (hr' : r' ∈ cfg.routes) (address : r'.ip = r.ip) :
    (command cfg r').target = (command cfg r).target := by
  unfold command
  cases first : usable cfg r with
  | none =>
    cases second : usable cfg r' with
    | none => rfl
    | some j =>
      have other := (alike r' hr' r hr address j (usable_iff.mp second)).1
      rw [usable_iff.mpr other] at first
      cases first
  | some i =>
    obtain ⟨other, mask, hop⟩ := alike r hr r' hr' address.symm i (usable_iff.mp first)
    rw [usable_iff.mpr other]
    simp [wanted, mask, hop]

theorem Alike.acts (alike : Alike cfg) (db : Db) {r : StaticRoute} (hr : r ∈ cfg.routes) :
    run Same (db.table cfg) (commands cfg cfg.sroute) r.ip =
      cell Same (command cfg r).target (db.table cfg r.ip) := by
  refine run_of_one_target same_equivalence.refl ?_ ⟨_, mem_commands.mpr ⟨r, hr, rfl⟩, rfl⟩
  intro c hc keyed
  obtain ⟨r', hr', rfl⟩ := mem_commands.mp hc
  exact alike.target hr hr' keyed

theorem Settled.agree (settled : Settled cfg db) :
    ∀ c ∈ commands cfg cfg.sroute, ∀ d ∈ commands cfg cfg.sroute, c.key = d.key →
      Agree Same c.target d.target := by
  intro c hc d hd keyed
  obtain ⟨r, hr, rfl⟩ := mem_commands.mp hc
  obtain ⟨r', hr', rfl⟩ := mem_commands.mp hd
  rw [settled.alike.target hr hr' keyed.symm]
  cases (command cfg r).target with
  | none => exact trivial
  | some a => exact same_equivalence.refl a

theorem Settled.held (settled : Settled cfg db) {r : StaticRoute} (hr : r ∈ cfg.routes) :
    run Same (db.table cfg) (commands cfg cfg.sroute) r.ip = (command cfg r).target := by
  rw [settled.alike.acts db hr]
  unfold command
  cases found : usable cfg r with
  | none => rfl
  | some i =>
    cases held : db.find cfg r.ip with
    | none => simp [Db.table, held, cell]
    | some e =>
      by_cases same : Same (wanted cfg r i) e.ad
      · have masked := settled.masked r hr i (usable_iff.mp found) e held (unchanged_iff.mpr same)
        simp [Db.table, held, cell, same.eq masked]
      · simp [Db.table, held, cell, same]

theorem run_of_no_route (db : Db) {ip : BitVec 32} (absent : ∀ r ∈ cfg.routes, r.ip ≠ ip) :
    run Same (db.table cfg) (commands cfg cfg.sroute) ip = db.table cfg ip := by
  refine run_of_not_named ?_
  intro c hc
  obtain ⟨r, hr, rfl⟩ := mem_commands.mp hc
  exact absent r hr

theorem Settled.advertised (settled : Settled cfg db) (ip mask : BitVec 32) :
    (∃ a, run Same (db.table cfg) (commands cfg cfg.sroute) ip = some a ∧ a.mask = mask) ↔
      Reachable cfg ip mask := by
  constructor
  · rintro ⟨a, held, masked⟩
    by_cases named : ∃ r ∈ cfg.routes, r.ip = ip
    · obtain ⟨r, hr, rfl⟩ := named
      rw [settled.held hr] at held
      obtain ⟨i, found, rfl⟩ := Option.map_eq_some_iff.mp held
      exact ⟨r, hr, rfl, masked, i, usable_iff.mp found⟩
    · have absent : ∀ r ∈ cfg.routes, r.ip ≠ ip := fun r hr eq => named ⟨r, hr, eq⟩
      rw [run_of_no_route db absent] at held
      obtain ⟨e, found, _⟩ := Option.map_eq_some_iff.mp held
      exact absurd (settled.listed ip e found) named
  · rintro ⟨r, hr, rfl, rfl, i, up⟩
    refine ⟨wanted cfg r i, ?_, rfl⟩
    rw [settled.held hr, command, usable_iff.mpr up]
    rfl

theorem settled_of_exact
    (agree : ∀ c ∈ commands cfg cfg.sroute, ∀ d ∈ commands cfg cfg.sroute, c.key = d.key →
      Agree Same c.target d.target)
    (advertised : ∀ ip mask,
      (∃ a, run Same (db.table cfg) (commands cfg cfg.sroute) ip = some a ∧ a.mask = mask) ↔
        Reachable cfg ip mask) : Settled cfg db := by
  have one_mask : ∀ ip mask mask', Reachable cfg ip mask → Reachable cfg ip mask' →
      mask = mask' := by
    intro ip mask mask' first second
    obtain ⟨a, held, rfl⟩ := (advertised ip mask).mpr first
    obtain ⟨b, again, rfl⟩ := (advertised ip mask').mpr second
    cases held.symm.trans again
    rfl
  have alike : Alike cfg := by
    intro r hr r' hr' address i up
    obtain ⟨same, hop⟩ := agree_iff.mp (agree _ (mem_commands.mpr ⟨r, hr, rfl⟩) _
      (mem_commands.mpr ⟨r', hr', rfl⟩) address)
    have found := usable_iff.mpr up
    have up' : Usable cfg r' i := usable_iff.mp (same ▸ found)
    refine ⟨up', ?_, hop (by rw [found]; rfl)⟩
    exact one_mask r.ip r.mask r'.mask ⟨r, hr, rfl, rfl, i, up⟩ ⟨r', hr', address.symm, rfl, i, up'⟩
  refine ⟨alike, ?_, ?_⟩
  · intro ip e found
    by_contra unnamed
    have absent : ∀ r ∈ cfg.routes, r.ip ≠ ip := fun r hr eq => unnamed ⟨r, hr, eq⟩
    have held : run Same (db.table cfg) (commands cfg cfg.sroute) ip = some e.ad := by
      rw [run_of_no_route db absent, Db.table, found, Option.map_some]
    obtain ⟨r, hr, address, _⟩ := (advertised ip e.mask).mp ⟨e.ad, held, rfl⟩
    exact absent r hr address
  · intro r hr i up e found same
    have held : run Same (db.table cfg) (commands cfg cfg.sroute) r.ip = some e.ad := by
      rw [alike.acts db hr, command, usable_iff.mpr up, Db.table, found]
      exact if_pos (unchanged_iff.mp same)
    have stays := (advertised r.ip e.mask).mp ⟨e.ad, held, rfl⟩
    exact one_mask r.ip e.mask r.mask stays ⟨r, hr, rfl, rfl, i, up⟩

end Exact

/-- One update advertises exactly the usable static routes and the next one changes nothing,
exactly when the routes and the advertisements before are settled. -/
theorem static_routes_exact_iff {cfg : Config} (enabled : cfg.ospfRedistStatic ≠ 0)
    (plain : cfg.isConfigured = false) (db : Db) : Exact cfg db ↔ Settled cfg db := by
  have update : ∀ db, redistStaticUpdate cfg db = updateRoutes cfg db cfg.sroute :=
    fun db => if_neg enabled
  have table := (updateRoutes_spec plain cfg.sroute db).1
  have quiet := (updateRoutes_spec plain cfg.sroute (updateRoutes cfg db cfg.sroute).1).2
  rw [table, rerun_quiet_iff same_equivalence] at quiet
  simp only [Exact, update, advertised_iff, table, quiet]
  constructor
  · rintro ⟨advertised, agree⟩
    exact settled_of_exact agree advertised
  · intro settled
    exact ⟨settled.advertised, settled.agree⟩

/-- The static routes to 10.9.0.0/16 by the next hops, with one interface up and one down. -/
def routesVia (hops : List (BitVec 32)) : Config where
  ospfRouterId := 0x01010101
  ospfRedistStatic := 20
  ospfStaticTag := 0
  ospfStaticMetricType := 2
  ospfRedistInformation := 0
  sroute := hops.map (fun gw => ⟨true, .static, 0x0a090000, 0xffff0000, gw⟩)
  intf :=
    [⟨true, false, 0x0a000001, 0xffffff00, true⟩, ⟨true, false, 0x0a010001, 0xffffff00, false⟩]
  ospfSumAddr := []
  isConfigured := false
  network := [designated]

def noExternals : Db := ⟨[], LsdbFreshness.initialSequenceNumber, List.Pairwise.nil⟩

theorem usable_via : Usable (routesVia [0x0a000002]) ⟨true, .static, 0x0a090000, 0xffff0000,
    0x0a000002⟩ 0 := by
  refine ⟨fun ip => absurd ip (by decide), ⟨true, false, 0x0a000001, 0xffffff00, true⟩, ?_, rfl⟩
  decide

/-- The second next hop is down, and its entry withdraws the advertisement of the first. -/
theorem dead_next_hop_withdraws :
    (routesVia [0x0a000002, 0x0a010002]).ospfRedistStatic ≠ 0 ∧
      (routesVia [0x0a000002, 0x0a010002]).isConfigured = false ∧
      Reachable (routesVia [0x0a000002, 0x0a010002]) 0x0a090000 0xffff0000 ∧
      ¬ Advertised (routesVia [0x0a000002, 0x0a010002])
        (redistStaticUpdate (routesVia [0x0a000002, 0x0a010002]) noExternals).1
        0x0a090000 0xffff0000 ∧
      ¬ Exact (routesVia [0x0a000002, 0x0a010002]) noExternals := by
  have reachable : Reachable (routesVia [0x0a000002, 0x0a010002]) 0x0a090000 0xffff0000 :=
    ⟨_, List.mem_cons_self, rfl, rfl, 0, usable_via⟩
  have empty :
      (redistStaticUpdate (routesVia [0x0a000002, 0x0a010002]) noExternals).1.extlist.length
        = 0 := by decide +kernel
  have silent : ¬ Advertised (routesVia [0x0a000002, 0x0a010002])
      (redistStaticUpdate (routesVia [0x0a000002, 0x0a010002]) noExternals).1
      0x0a090000 0xffff0000 := by
    rintro ⟨e, member, _⟩
    rw [List.length_eq_zero_iff.mp empty] at member
    cases member
  refine ⟨by decide, rfl, reachable, silent, ?_⟩
  intro exact
  exact silent ((exact.1 _ _).mpr reachable)

theorem static_routes_exact_one_hop : Exact (routesVia [0x0a000002]) noExternals := by
  refine (static_routes_exact_iff (by decide) rfl noExternals).mpr ⟨?_, ?_, ?_⟩
  · intro r hr r' hr' _ i up
    have only : ∀ r ∈ (routesVia [0x0a000002]).routes,
        r = ⟨true, .static, 0x0a090000, 0xffff0000, 0x0a000002⟩ := by decide
    rw [only r hr] at up ⊢
    rw [only r' hr']
    exact ⟨up, rfl, rfl⟩
  · intro ip e found
    cases found
  · intro r _ i _ e found
    cases found

end Redistribution
