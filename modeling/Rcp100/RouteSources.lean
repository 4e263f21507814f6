import Rcp100.Redistribution

/-!
# The sources of external advertisements

Static routes, connected networks, loopback interfaces, summary addresses and RIP put their
advertisements into one list. An advertisement is found by its network address, whatever its
source, and the walks over the list tell the sources apart by the originator; `OSPF_ORIG_RIP`
is the number of `OSPF_ORIG_STATIC`.
-/

namespace RouteSources

open LsaFormat Origination Redistribution
open OwnedList (own own_eq_some own_drop)

/-- What an advertisement was originated for. -/
inductive Source where
  | incoming
  | static
  | connected
  | loopback
  | summary
  | rip
  deriving DecidableEq, Repr

/-- `OSPF_ORIG_CONNECTED`. -/
def origConnected : Nat := 2

/-- `OSPF_ORIG_LOOPBACK`. -/
def origLoopback : Nat := 3

/-- `OSPF_ORIG_SUMMARY`. -/
def origSummary : Nat := 4

/-- `OSPF_ORIG_RIP`. -/
def origRip : Nat := 1

/-- The originator that the adding functions set. -/
def Source.originator : Source → Nat
  | incoming => 0
  | static => origStatic
  | connected => origConnected
  | loopback => origLoopback
  | summary => origSummary
  | rip => origRip

/-- The configuration and the tables of interfaces and summary addresses, less the part that
the static routes need. `adminUp`, `isVirtual` and `notAdvertise` are fields of an entry, by
its place; `ospfNetwork` lists the networks of all areas. -/
structure Shm extends Config where
  ospfRedistConnected : BitVec 32
  ospfConnectedTag : BitVec 32
  ospfConnectedMetricType : Nat
  ospfRedistConnectedSubnets : BitVec 32
  ospfRedistRip : BitVec 32
  ospfRipTag : BitVec 32
  ospfRipMetricType : Nat
  adminUp : Nat → Bool
  isVirtual : Nat → Bool
  notAdvertise : Nat → Bool
  ospfNetwork : List (BitVec 32 × BitVec 32)

/-- The body that the adding functions share, with their own metric, tag and originator. -/
def redistAdd (cfg : Config) (type : Nat) (metric tag : BitVec 32) (originator : Nat)
    (ip mask gw : BitVec 32) (interface : Nat) (db : Db) : Db × List Change :=
  if (summaddrMatch cfg ip mask).isSome then (db, [])
  else
    let gw := nextHop cfg gw
    if (db.find cfg ip).any (fun e => e.fwAddress = gw && e.tag = tag &&
        e.typeMetric = extMetric type metric && e.rcpif = some interface) then (db, [])
    else
      let e : ExtLsa := ⟨extLsa db.seqNumber cfg.ospfRouterId ip mask gw type metric tag,
        some interface, originator⟩
      (db.originate e, [.originated e])

def redistRipAdd (shm : Shm) : BitVec 32 → BitVec 32 → BitVec 32 → Nat → Db → Db × List Change :=
  redistAdd shm.toConfig shm.ospfRipMetricType shm.ospfRedistRip shm.ospfRipTag origRip

/-- A walk that floods with `MaxAge` and removes. -/
def purge (goes : ExtLsa → Bool) (db : Db) : Db × List Change :=
  (⟨db.extlist.filter (fun e => !goes e), db.seqNumber, db.first.sublist List.filter_sublist⟩,
    (db.extlist.filter goes).map (fun e => .removed { e with lsa := e.lsa.setAge maxAge }))

def redistDeleteAllRip : Db → Db × List Change :=
  purge (fun e => e.selfOriginated && e.originator = origRip)

/-- The advertisement is found by the address, as in `redistStaticDel`. -/
def redistRipDel (cfg : Config) (ip : BitVec 32) (db : Db) : Db × List Change :=
  redistStaticDel cfg ip db

/-- The labels say what the originators were set for. -/
def Labelled (source : ExtLsa → Source) (db : Db) : Prop :=
  ∀ e ∈ db.extlist, e.originator = (source e).originator

/-- Exactly the advertisements of this router for a source go. -/
def Removes (source : ExtLsa → Source) (which : Source) (db db' : Db) : Prop :=
  db'.extlist = db.extlist.filter (fun e => !(e.selfOriginated && source e = which))

/-- No advertisement of this router for a source goes. -/
def Spares (source : ExtLsa → Source) (which : Source) (db db' : Db) : Prop :=
  ∀ e ∈ db.extlist, e.selfOriginated = true → source e = which → e ∈ db'.extlist

/-- This router advertises no route of a source. -/
def Without (source : ExtLsa → Source) (which : Source) (db : Db) : Prop :=
  ∀ e ∈ db.extlist, e.selfOriginated = true → source e ≠ which

section Walks

variable {source : ExtLsa → Source} {db : Db}

theorem originator_one_iff (which : Source) :
    which.originator = 1 ↔ which = .static ∨ which = .rip := by
  cases which with
  | incoming => decide
  | static => decide
  | connected => decide
  | loopback => decide
  | summary => decide
  | rip => decide

/-- A walk for one of the two sources is exact when the other one is absent. -/
theorem removes_purge_iff (labels : Labelled source db) {this other : Source}
    (pair : ∀ which : Source, which.originator = 1 ↔ which = this ∨ which = other)
    (apart : this ≠ other) :
    Removes source this db (purge (fun e => e.selfOriginated && e.originator = 1) db).1 ↔
      Without source other db := by
  have goes : ∀ e ∈ db.extlist, e.originator = 1 ↔ source e = this ∨ source e = other := by
    intro e member
    rw [labels e member]
    exact pair (source e)
  constructor
  · intro exact_ e member own stays
    have kept : e ∈ db.extlist.filter (fun e => !(e.selfOriginated && source e = this)) := by
      refine List.mem_filter.mpr ⟨member, ?_⟩
      simp [own, stays, Ne.symm apart]
    rw [← exact_] at kept
    have spared := List.of_mem_filter kept
    simp [own, (goes e member).mpr (.inr stays)] at spared
  · intro without
    refine List.filter_congr (fun e member => ?_)
    dsimp only
    cases own : e.selfOriginated with
    | false => rw [Bool.false_and, Bool.false_and]
    | true =>
      have one := goes e member
      rw [or_iff_left (without e member own)] at one
      rw [Bool.true_and, Bool.true_and, decide_eq_decide.mpr one]

theorem spares_redistRipDel_iff (cfg : Config) (ip : BitVec 32) (which : Source) :
    Spares source which db (redistRipDel cfg ip db).1 ↔
      ∀ e, db.find cfg ip = some e → source e ≠ which := by
  unfold redistRipDel redistStaticDel
  constructor
  · intro spares e found stays
    obtain ⟨member, flag, keyed⟩ := (own_eq_some db.first).mp found
    have kept := spares e member flag stays
    rw [found] at kept
    have again : own ExtLsa.key ExtLsa.selfOriginated (db.remove cfg ip).extlist e.key = some e :=
      (own_eq_some (db.remove cfg ip).first).mpr ⟨kept, flag, rfl⟩
    simp only [Db.remove, own_drop db.first, keyed, if_true] at again
    cases again
  · intro apart e member flag stays
    cases found : db.find cfg ip with
    | none => exact member
    | some x =>
      have differs : e.key ≠ ⟨5, ip, cfg.ospfRouterId⟩ := by
        intro keyed
        have here : db.find cfg ip = some e := (own_eq_some db.first).mpr ⟨member, flag, keyed⟩
        exact apart e here stays
      have left : own ExtLsa.key ExtLsa.selfOriginated (db.remove cfg ip).extlist e.key =
          some e := by
        simp only [Db.remove, own_drop db.first, if_neg (Ne.symm differs)]
        exact (own_eq_some db.first).mpr ⟨member, flag, rfl⟩
      exact ((own_eq_some (db.remove cfg ip).first).mp left).1

end Walks

/-- The walk for RIP is exact when no static route is advertised, that for static routes when
no RIP route is, and the removal of a RIP route spares the static ones unless one of them has
the address. -/
theorem sources_apart_iff {source : ExtLsa → Source} {db : Db} (labels : Labelled source db)
    (cfg : Config) :
    (Removes source .rip db (redistDeleteAllRip db).1 ↔ Without source .static db) ∧
      (Removes source .static db (deleteAllStatic db).1 ↔ Without source .rip db) ∧
      ∀ ip, Spares source .static db (redistRipDel cfg ip db).1 ↔
        ∀ e, db.find cfg ip = some e → source e ≠ .static := by
  refine ⟨?_, ?_, fun ip => spares_redistRipDel_iff cfg ip .static⟩
  · refine removes_purge_iff labels (fun which => ?_) (by decide)
    rw [originator_one_iff, or_comm]
  · exact removes_purge_iff labels originator_one_iff (by decide)

/-- A router that redistributes static and RIP routes, with an interface to 10.0.0.0/24. -/
def bothSources : Shm where
  toConfig := { routesVia [] with ospfRedistStatic := 20 }
  ospfRedistConnected := 0
  ospfConnectedTag := 0
  ospfConnectedMetricType := 2
  ospfRedistConnectedSubnets := 0
  ospfRedistRip := 20
  ospfRipTag := 0
  ospfRipMetricType := 2
  adminUp := fun _ => true
  isVirtual := fun _ => false
  notAdvertise := fun _ => false
  ospfNetwork := []

/-- The static route 10.9.0.0/16 and then the RIP route 10.8.0.0/16 are advertised. -/
def mixed : Db :=
  (redistRipAdd bothSources 0x0a080000 0xffff0000 0x0a000002 0
    (redistStaticAdd bothSources.toConfig 0x0a090000 0xffff0000 0x0a000002 0 noExternals).1).1

def byAddress (e : ExtLsa) : Source :=
  if e.key.linkStateId = 0x0a090000 then .static else .rip

theorem labelled_mixed : Labelled byAddress mixed := by
  have one : ∀ e ∈ mixed.extlist, e.originator = 1 := by
    rintro e (_ | ⟨_, _ | ⟨_, none⟩⟩)
    · rfl
    · rfl
    · cases none
  intro e member
  rw [one e member, byAddress]
  split
  · rfl
  · rfl

theorem not_without {source : ExtLsa → Source} {which : Source} {db : Db}
    (some_ : (db.extlist.any (fun e => e.selfOriginated && source e = which)) = true) :
    ¬ Without source which db := by
  intro without
  obtain ⟨e, member, both⟩ := List.any_eq_true.mp some_
  have parts := (Bool.and_eq_true _ _).mp both
  exact without e member parts.1 (of_decide_eq_true parts.2)

/-- The walk for RIP takes the static route, that for static routes the RIP route, and the
removal of a RIP route for the address of the static one takes that. -/
theorem mixed_sources_interfere :
    Labelled byAddress mixed ∧
      ¬ Removes byAddress .rip mixed (redistDeleteAllRip mixed).1 ∧
      ¬ Removes byAddress .static mixed (deleteAllStatic mixed).1 ∧
      ¬ Spares byAddress .static mixed
        (redistRipDel bothSources.toConfig 0x0a090000 mixed).1 := by
  have static : ¬ Without byAddress .static mixed := not_without (by decide +kernel)
  have rip : ¬ Without byAddress .rip mixed := not_without (by decide +kernel)
  refine ⟨labelled_mixed, ?_, ?_, ?_⟩
  · refine fun removes => static ((removes_purge_iff labelled_mixed ?_ (by decide)).mp removes)
    exact fun which => (originator_one_iff which).trans or_comm
  · exact fun removes => rip ((removes_purge_iff labelled_mixed originator_one_iff
      (by decide)).mp removes)
  · intro spares
    have found : ((mixed.find bothSources.toConfig 0x0a090000).map byAddress) =
        some .static := by decide +kernel
    obtain ⟨e, here, label⟩ := Option.map_eq_some_iff.mp found
    exact (spares_redistRipDel_iff bothSources.toConfig 0x0a090000 .static).mp spares e here label

theorem sources_apart_mixed :
    (Removes byAddress .rip mixed (redistDeleteAllRip mixed).1 ↔ Without byAddress .static mixed) ∧
      (Removes byAddress .static mixed (deleteAllStatic mixed).1 ↔ Without byAddress .rip mixed) ∧
      ∀ ip, Spares byAddress .static mixed (redistRipDel bothSources.toConfig ip mixed).1 ↔
        ∀ e, mixed.find bothSources.toConfig ip = some e → byAddress e ≠ .static :=
  sources_apart_iff labelled_mixed bothSources.toConfig

end RouteSources
