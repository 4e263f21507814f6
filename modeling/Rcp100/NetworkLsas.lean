import Mathlib.Data.List.Nodup
import Rcp100.RouterLsa

/-!
# The network advertisements of a router

`lsa_originate_net_update` sets the delete flag of every network advertisement of this router,
originates one for every network on which it is Designated Router, which takes the flag off
what stays, and then floods with `MaxAge` and removes what still has the flag.
-/

namespace NetworkLsas

open LsaFormat LsUpdate LsaAging Origination RouterLsa
open OwnedList (OwnFirst own refresh fresher sweep)
open ByteBuffer (be32 length_be32)

/-- The database while flags are set. An advertisement is named by its area and its key, since
a list holds at most one of this router under each key. -/
structure Pending where
  s : Ospf
  delFlag : BitVec 32 → LsaKey → Bool

/-- The loop that sets the flags. -/
def setDelFlags (s : Ospf) (areaId : BitVec 32) (key : LsaKey) : Bool :=
  (s.list (some areaId)).any fun lsa =>
    lsa.header.type = 2 && lsa.selfOriginated && lsa.key = key

def clearDelFlag (delFlag : BitVec 32 → LsaKey → Bool) (areaId : BitVec 32) (key : LsaKey) :
    BitVec 32 → LsaKey → Bool :=
  fun i k => if i = areaId ∧ k = key then false else delFlag i k

/-- The router originates an advertisement for the network. -/
def asked (net : Network) : Bool := net.state = .dr && !(fullNeighbors net).isEmpty

/-- One network: without a full neighbor nothing is originated, otherwise the flag is taken off
the advertisement that stays, and the new one has none. -/
def updateNetwork (cfg : Settings) (behind : Bool) (areaId : BitVec 32) (p : Pending)
    (net : Network) : Pending :=
  if net.state = .dr then
    { s := originate cfg p.s (.net behind areaId net)
      delFlag :=
        if (fullNeighbors net).isEmpty then p.delFlag
        else clearDelFlag p.delFlag areaId (netKey cfg net) }
  else p

def updateArea (cfg : Settings) (behind : Bool) (p : Pending) (area : BitVec 32 × Area) :
    Pending :=
  area.2.network.foldl (updateNetwork cfg behind area.1) p

/-- The advertisement has the flag. -/
def flagged (delFlag : BitVec 32 → LsaKey → Bool) (areaId : BitVec 32) (lsa : OspfLsa) : Bool :=
  lsa.selfOriginated && (lsa.header.type = 2 && delFlag areaId lsa.key)

/-- The loop over the list of an area that floods and removes. -/
def sweepList (delFlag : BitVec 32 → LsaKey → Bool) (areaId : BitVec 32) :
    Ospf → List OspfLsa → Ospf × List OspfLsa
  | s, [] => (s, [])
  | s, lsa :: rest =>
    if flagged delFlag areaId lsa then
      sweepList delFlag areaId (lsadbFlood s (lsa.setAge maxAge) areaId) rest
    else
      let r := sweepList delFlag areaId s rest
      (r.1, lsa :: r.2)

def sweepArea (delFlag : BitVec 32 → LsaKey → Bool) (s : Ospf) (areaId : BitVec 32) : Ospf :=
  let r := sweepList delFlag areaId s (s.list (some areaId))
  { r.1 with areas := r.1.areas.modify areaId (fun area => { area with list := r.2 }) }

/-- `lsa_originate_net_update`. -/
def lsaOriginateNetUpdate (cfg : Settings) (behind : Bool) (s : Ospf) : Ospf :=
  let p := s.areas.entries.foldl (updateArea cfg behind) ⟨s, setDelFlags s⟩
  p.s.areas.ids.foldl (sweepArea p.delFlag) p.s

/-- The routers on the network: the full neighbors and this router. -/
def attached (cfg : Settings) (net : Network) : List (BitVec 32) :=
  (fullNeighbors net).map (cfg.nbRouterId net) ++ [cfg.netRouterId net]

/-- What is behind the header lists these routers, and the mask. -/
structure Lists (mask : BitVec 32) (routers : List (BitVec 32)) (lsa : OspfLsa) : Prop where
  length : lsa.header.length.toNat = 24 + 4 * routers.length
  body : (body lsa).take (4 + 4 * routers.length) =
    be32 mask ++ routers.flatMap be32

/-- The advertisement is the one for the network. -/
structure Describes (cfg : Settings) (net : Network) (lsa : OspfLsa) : Prop where
  key : lsa.key = netKey cfg net
  lists : Lists net.mask (attached cfg net) lsa

/-- The network advertisements of this router in an area. -/
def ownNetworkLsas (s : Ospf) (areaId : BitVec 32) : List OspfLsa :=
  (s.list (some areaId)).filter fun lsa => lsa.selfOriginated && lsa.header.type = 2

/-- In every area there is exactly one network advertisement of this router for each network
that asks for one. It describes the network, and it is the old one if that describes it. -/
def NetworksDescribed (cfg : Settings) (s s' : Ospf) : Prop :=
  ∀ areaId area, s.areas.find areaId = some area →
    ((ownNetworkLsas s' areaId).map OspfLsa.key).Perm
        ((area.network.filter asked).map (netKey cfg)) ∧
      ∀ net ∈ area.network, asked net = true → ∃ lsa ∈ ownNetworkLsas s' areaId,
        Describes cfg net lsa ∧
          ∀ old ∈ ownNetworkLsas s areaId, Describes cfg net old → lsa = old

/-- The database before an update: this router has one advertisement under each key, with no
other copy in front of it, and the networks of an area have addresses of their own. -/
structure Ready (s : Ospf) : Prop where
  first : ∀ slot, OwnFirst OspfLsa.key OspfLsa.selfOriginated (s.list slot)
  distinct : ∀ areaId area, s.areas.find areaId = some area → (area.network.map (·.ip)).Nodup

/-- The length of the advertisement fits its field. -/
def Fits (net : Network) : Prop := 24 + 4 * ((fullNeighbors net).length + 1) < 2 ^ 16

instance (net : Network) : Decidable (Fits net) := inferInstanceAs (Decidable (_ < _))

section Contents

variable {cfg : Settings} {behind : Bool} {net : Network} {seq : BitVec 32} {lsa : OspfLsa}

theorem length_flatMap_be32 (routers : List (BitVec 32)) :
    (routers.flatMap be32).length = 4 * routers.length := by
  induction routers with
  | nil => rfl
  | cons router routers ih =>
    rw [List.flatMap_cons, List.length_append, length_be32, ih, List.length_cons]
    omega

theorem netLsaData_eq (cfg : Settings) (net : Network) :
    netLsaData cfg net =
      be32 net.mask ++ (attached cfg net).flatMap be32 := by
  rw [netLsaData, attached, List.flatMap_append, List.flatMap_map, List.flatMap_singleton,
    List.append_assoc]

theorem length_netLsaData (cfg : Settings) (net : Network) :
    (netLsaData cfg net).length = 4 + 4 * (attached cfg net).length := by
  rw [netLsaData_eq, List.length_append, length_be32, length_flatMap_be32]

theorem length_attached (cfg : Settings) (net : Network) :
    (attached cfg net).length = (fullNeighbors net).length + 1 := by
  rw [attached, List.length_append, List.length_map, List.length_singleton]

theorem length_new (fits : Fits net) :
    (newLsa seq 2 (netKey cfg net) (netLsaData cfg net)).header.length.toNat =
      24 + 4 * (attached cfg net).length := by
  rw [length_newLsa, length_netLsaData, BitVec.toNat_ofNat, length_attached, sizeofHeader]
  rw [Fits] at fits
  omega

theorem describes_new (fits : Fits net) :
    Describes cfg net (newLsa seq 2 (netKey cfg net) (netLsaData cfg net)) := by
  refine ⟨key_newLsa _ _ _ _, length_new fits, ?_⟩
  rw [body_newLsa, ← length_netLsaData, List.take_length, netLsaData_eq]

theorem cmpNetLsa_iff (fits : Fits net) (keyed : lsa.key = netKey cfg net) :
    cmpNetLsa behind (newLsa seq 2 (netKey cfg net) (netLsaData cfg net)) lsa = true ↔
      Describes cfg net lsa := by
  have length := @length_new cfg _ seq fits
  have compared : ((newLsa seq 2 (netKey cfg net) (netLsaData cfg net)).header.length.setWidth 64 -
      20 : BitVec 64).toNat = 4 + 4 * (attached cfg net).length := by
    have bound := (newLsa seq 2 (netKey cfg net) (netLsaData cfg net)).header.length.isLt
    have twenty : (20 : BitVec 64).toNat = 20 := rfl
    rw [BitVec.toNat_sub, BitVec.toNat_setWidth, twenty]
    omega
  have inside : 4 + 4 * (attached cfg net).length ≤
      (newLsa seq 2 (netKey cfg net) (netLsaData cfg net)).bytes.length - sizeofHeader := by
    rw [size_newLsa, length_netLsaData]
    omega
  have new : ((newLsa seq 2 (netKey cfg net) (netLsaData cfg net)).bytes.drop sizeofHeader).take
      (4 + 4 * (attached cfg net).length) =
        be32 net.mask ++ (attached cfg net).flatMap be32 :=
    (describes_new fits).lists.body
  rw [cmpNetLsa, Bool.and_eq_true, cmpHeader_iff, cmpBody, compared, Bool.and_eq_true, new,
    key_newLsa, decide_eq_true_iff, decide_eq_true inside, Bool.true_or]
  constructor
  · rintro ⟨⟨-, sameLength⟩, same, -⟩
    exact ⟨keyed, sameLength ▸ length, same.symm⟩
  · intro describes
    refine ⟨⟨keyed.symm, BitVec.eq_of_toNat_eq (length.trans describes.lists.length.symm)⟩,
      describes.lists.body.symm, rfl⟩

theorem describes_fresher (fits : Fits net) {old : Option OspfLsa}
    (keyed : ∀ lsa, old = some lsa → lsa.key = netKey cfg net) :
    Describes cfg net (fresher (cmpNetLsa behind) old
        (newLsa seq 2 (netKey cfg net) (netLsaData cfg net))) ∧
      ∀ lsa, old = some lsa → Describes cfg net lsa →
        fresher (cmpNetLsa behind) old
          (newLsa seq 2 (netKey cfg net) (netLsaData cfg net)) = lsa := by
  cases old with
  | none =>
    refine ⟨describes_new fits, fun lsa impossible => ?_⟩
    cases impossible
  | some old =>
    have same := @cmpNetLsa_iff _ behind _ seq _ fits (keyed old rfl)
    rw [fresher, Option.filter_some]
    by_cases describes : Describes cfg net old
    · rw [if_pos (same.mpr describes)]
      exact ⟨describes, fun lsa isOld _ => Option.some.inj isOld⟩
    · rw [if_neg fun alike => describes (same.mp alike)]
      refine ⟨describes_new fits, fun lsa isOld describes' => ?_⟩
      cases isOld
      exact absurd describes' describes

end Contents

section Updates

variable {cfg : Settings} {behind : Bool} {areaId : BitVec 32} {net : Network} {s : Ospf}
  {p p' p'' : Pending}

/-- The advertisement of this router under a key. -/
def ownOf (s : Ospf) (areaId : BitVec 32) (key : LsaKey) : Option OspfLsa :=
  own OspfLsa.key OspfLsa.selfOriginated (s.list (some areaId)) key

/-- This router's advertisements come first in every list. -/
def First (s : Ospf) : Prop :=
  ∀ slot, OwnFirst OspfLsa.key OspfLsa.selfOriginated (s.list slot)

/-- The advertisement that is made for a network. -/
def made (cfg : Settings) (s : Ospf) (net : Network) : OspfLsa :=
  newLsa s.seqNumber 2 (netKey cfg net) (netLsaData cfg net)

theorem list_of_find_none (absent : (s.areas.find areaId).isSome ≠ true) :
    s.list (some areaId) = [] := by
  have none : s.areas.find areaId = none := by simpa using absent
  rw [Ospf.list, none]
  rfl

theorem list_dropped (slot : Option (BitVec 32)) :
    (replaceCopy (nextSeq s) areaId (netKey cfg net) (made cfg s net)).1.list slot =
      if slot = some areaId then
        OwnedList.drop OspfLsa.key OspfLsa.selfOriginated (s.list slot) (netKey cfg net)
      else s.list slot := by
  have inSlot : slotOf areaId (netKey cfg net).type = some areaId := rfl
  have isOwn : ownCopy (nextSeq s) areaId (netKey cfg net) =
      own OspfLsa.key OspfLsa.selfOriginated (s.list (some areaId)) (netKey cfg net) := rfl
  by_cases here : slot = some areaId
  · subst here
    rw [if_pos rfl, replaceCopy, isOwn, OwnedList.drop]
    split_ifs
    · rw [list_unlink, inSlot, if_pos rfl]
      rfl
    · rfl
  · rw [if_neg here, replaceCopy]
    split_ifs
    · rw [list_unlink, inSlot, if_neg here]
      rfl
    · rfl

theorem network_dropped (i : BitVec 32) :
    ((replaceCopy (nextSeq s) areaId (netKey cfg net) (made cfg s net)).1.areas.find i).map
      Area.network = (s.areas.find i).map Area.network := by
  rw [replaceCopy]
  split_ifs
  · exact network_unlink _ i
  · rfl

theorem originate_net : originate cfg s (.net behind areaId net) =
    (lsaOriginateNet cfg behind s areaId net).2.elim (lsaOriginateNet cfg behind s areaId net).1
      (lsadbAdd (lsaOriginateNet cfg behind s areaId net).1 areaId) := rfl

theorem originate_net_eq (full : (fullNeighbors net).isEmpty = false) :
    originate cfg s (.net behind areaId net) =
      if (ownOf s areaId (netKey cfg net)).any (cmpNetLsa behind (made cfg s net)) then nextSeq s
      else lsadbAdd (replaceCopy (nextSeq s) areaId (netKey cfg net) (made cfg s net)).1 areaId
        (made cfg s net) := by
  have call : lsaOriginateNet cfg behind s areaId net =
      if (ownOf s areaId (netKey cfg net)).any (cmpNetLsa behind (made cfg s net)) then
        (nextSeq s, none)
      else replaceCopy (nextSeq s) areaId (netKey cfg net) (made cfg s net) := by
    rw [lsaOriginateNet, full]
    rfl
  rw [originate_net, call]
  split_ifs <;> rfl

theorem list_originate_net (full : (fullNeighbors net).isEmpty = false)
    (slot : Option (BitVec 32)) :
    (originate cfg s (.net behind areaId net)).list slot =
      if slot = some areaId ∧ (s.areas.find areaId).isSome then
        refresh OspfLsa.key OspfLsa.selfOriginated (cmpNetLsa behind) (s.list slot)
          (made cfg s net)
      else s.list slot := by
  have keyed : (made cfg s net).key = netKey cfg net := key_newLsa _ _ _ _
  have type : (made cfg s net).header.type = 2 := congrArg LsaKey.type keyed
  have there : ((replaceCopy (nextSeq s) areaId (netKey cfg net) (made cfg s net)).1.areas.find
      areaId).isSome = (s.areas.find areaId).isSome := by
    rw [← Option.isSome_map, network_dropped, Option.isSome_map]
  rw [originate_net_eq full]
  by_cases alike : (ownOf s areaId (netKey cfg net)).any
      (cmpNetLsa behind (made cfg s net)) = true
  · rw [if_pos alike]
    split_ifs with here
    · obtain ⟨rfl, -⟩ := here
      rw [refresh, keyed, if_pos (show (own _ _ _ _).any _ = true from alike)]
      rfl
    · rfl
  · rw [if_neg alike, lsadbAdd, type, if_neg (by decide),
      list_modifyList _ areaId (lsaListAdd · (made cfg s net)), there, list_dropped]
    split_ifs with both here here
    · obtain ⟨rfl, -⟩ := both
      rw [refresh, keyed, if_neg (show ¬ (own _ _ _ _).any _ = true from alike), OwnedList.put,
        keyed]
      rfl
    · exact absurd both.1 here
    · subst here
      rw [list_of_find_none fun there => both ⟨rfl, there⟩]
      rfl
    · rfl

theorem network_originate_net (i : BitVec 32) :
    ((originate cfg s (.net behind areaId net)).areas.find i).map Area.network =
      (s.areas.find i).map Area.network := by
  cases full : (fullNeighbors net).isEmpty with
  | true =>
    have call : lsaOriginateNet cfg behind s areaId net = (s, none) := by
      rw [lsaOriginateNet, full]
      rfl
    rw [originate_net, call]
    rfl
  | false =>
    rw [originate_net_eq full]
    split_ifs
    · rfl
    · exact (network_lsadbAdd _ i).trans (network_dropped i)

/-- What the calls for some networks, by area, do to the advertisements of this router and to
their flags. -/
structure Updated (cfg : Settings) (nets : BitVec 32 → List Network) (p p' : Pending) : Prop where
  networks : ∀ i, (p'.s.areas.find i).map Area.network = (p.s.areas.find i).map Area.network
  first : First p'.s
  unasked : ∀ i key, (∀ net ∈ nets i, asked net = true → netKey cfg net ≠ key) →
    ownOf p'.s i key = ownOf p.s i key ∧ p'.delFlag i key = p.delFlag i key
  asked : ∀ i, ∀ net ∈ nets i, asked net = true →
    p'.delFlag i (netKey cfg net) = false ∧
      ∃ lsa, ownOf p'.s i (netKey cfg net) = some lsa ∧ Describes cfg net lsa ∧
        ∀ old, ownOf p.s i (netKey cfg net) = some old → Describes cfg net old → lsa = old

theorem Updated.refl (first : First p.s) : Updated cfg (fun _ => []) p p where
  networks _ := rfl
  first := first
  unasked _ _ _ := ⟨rfl, rfl⟩
  asked _ _ member := absurd member List.not_mem_nil

/-- The calls for other networks leave alone what was done. -/
theorem Updated.comp {nets nets' : BitVec 32 → List Network} (before : Updated cfg nets p p')
    (after : Updated cfg nets' p' p'')
    (apart : ∀ i, ∀ net ∈ nets i, ∀ net' ∈ nets' i, netKey cfg net' ≠ netKey cfg net) :
    Updated cfg (fun i => nets i ++ nets' i) p p'' where
  networks i := (after.networks i).trans (before.networks i)
  first := after.first
  unasked := by
    intro i key none
    have earlier := before.unasked i key fun net member =>
      none net (List.mem_append_left _ member)
    have later := after.unasked i key fun net member =>
      none net (List.mem_append_right _ member)
    exact ⟨later.1.trans earlier.1, later.2.trans earlier.2⟩
  asked := by
    intro i net member isAsked
    rcases List.mem_append.mp member with earlier | later
    · obtain ⟨flag, lsa, found, rest⟩ := before.asked i net earlier isAsked
      have kept := after.unasked i (netKey cfg net) fun net' member' _ =>
        apart i net earlier net' member'
      exact ⟨kept.2.trans flag, lsa, kept.1.trans found, rest⟩
    · obtain ⟨flag, lsa, found, describes, old⟩ := after.asked i net later isAsked
      refine ⟨flag, lsa, found, describes, fun lsa' isOld describes' => ?_⟩
      by_cases early : ∃ net' ∈ nets i, NetworkLsas.asked net' = true ∧
          netKey cfg net' = netKey cfg net
      · obtain ⟨net', member', -, same⟩ := early
        exact absurd same.symm (apart i net' member' net later)
      · refine old lsa' ?_ describes'
        rw [(before.unasked i (netKey cfg net) fun net' member' isAsked' same =>
          early ⟨net', member', isAsked', same⟩).1]
        exact isOld

/-- Networks of one area only. -/
def only (areaId : BitVec 32) (nets : List Network) : BitVec 32 → List Network :=
  fun i => if i = areaId then nets else []

theorem key_ownOf {i : BitVec 32} {key : LsaKey} {lsa : OspfLsa} (first : First s)
    (found : ownOf s i key = some lsa) : lsa.key = key :=
  ((OwnedList.own_eq_some (first (some i))).mp found).2.2

theorem updated_network (first : First p.s) (there : (p.s.areas.find areaId).isSome = true)
    (fits : asked net = true → Fits net) :
    Updated cfg (only areaId [net]) p (updateNetwork cfg behind areaId p net) := by
  by_cases isAsked : asked net = true
  · obtain ⟨isDr, nonempty⟩ := Bool.and_eq_true_iff.mp isAsked
    have full : (fullNeighbors net).isEmpty = false := by simpa using nonempty
    have owned : (made cfg p.s net).selfOriginated = true := rfl
    have keyed : (made cfg p.s net).key = netKey cfg net := key_newLsa _ _ _ _
    have list := @list_originate_net cfg behind areaId net p.s full
    have updated : updateNetwork cfg behind areaId p net =
        ⟨originate cfg p.s (.net behind areaId net),
          clearDelFlag p.delFlag areaId (netKey cfg net)⟩ := by
      rw [updateNetwork, if_pos (of_decide_eq_true isDr), full]
      rfl
    rw [updated]
    have found (i : BitVec 32) (key : LsaKey) :
        ownOf (originate cfg p.s (.net behind areaId net)) i key =
          if i = areaId ∧ netKey cfg net = key then
            some (fresher (cmpNetLsa behind) (ownOf p.s i key) (made cfg p.s net))
          else ownOf p.s i key := by
      rw [ownOf, list]
      by_cases here : i = areaId
      · subst here
        rw [if_pos ⟨rfl, there⟩, OwnedList.own_refresh (first _) owned, keyed]
        simp only [true_and]
        rfl
      · rw [if_neg fun same => here (Option.some.inj same.1), if_neg fun same => here same.1]
        rfl
    refine ⟨fun i => network_originate_net i, fun slot => ?_, fun i key none => ?_,
      fun i net' member _ => ?_⟩
    · rw [list]
      split_ifs
      · exact (first slot).refresh _
      · exact first slot
    · have apart : ¬ (i = areaId ∧ netKey cfg net = key) := by
        rintro ⟨rfl, rfl⟩
        refine none net ?_ isAsked rfl
        rw [only, if_pos rfl]
        exact List.mem_singleton_self net
      rw [found, if_neg apart]
      exact ⟨rfl, if_neg fun same => apart ⟨same.1, same.2.symm⟩⟩
    · rw [only] at member
      split_ifs at member with here
      · subst here
        cases List.mem_singleton.mp member
        rw [found, if_pos ⟨rfl, rfl⟩]
        have left := @describes_fresher cfg behind net p.s.seqNumber (fits isAsked) _
          (fun lsa isOld => key_ownOf (i := i) first isOld)
        exact ⟨if_pos ⟨rfl, rfl⟩, _, rfl, left⟩
      · exact absurd member List.not_mem_nil
  · have unchanged : updateNetwork cfg behind areaId p net = p := by
      rw [updateNetwork]
      split_ifs with isDr full
      · have call : lsaOriginateNet cfg behind p.s areaId net = (p.s, none) := by
          rw [lsaOriginateNet, full]
          rfl
        rw [originate_net, call]
        rfl
      · refine absurd ?_ isAsked
        rw [asked, decide_eq_true isDr, Bool.true_and, Bool.not_eq_true']
        simpa using full
      · rfl
    rw [unchanged]
    refine ⟨fun _ => rfl, first, fun _ _ _ => ⟨rfl, rfl⟩, fun i net' member isAsked' => ?_⟩
    rw [only] at member
    split_ifs at member
    · cases List.mem_singleton.mp member
      exact absurd isAsked' isAsked
    · exact absurd member List.not_mem_nil

theorem isSome_find_of_network {s' : Ospf} {i : BitVec 32}
    (same : (s'.areas.find i).map Area.network = (s.areas.find i).map Area.network) :
    (s'.areas.find i).isSome = (s.areas.find i).isSome := by
  rw [← Option.isSome_map, same, Option.isSome_map]

theorem netKey_ne {net net' : Network} (other : net'.ip ≠ net.ip) :
    netKey cfg net' ≠ netKey cfg net :=
  fun same => other (congrArg LsaKey.linkStateId same)

theorem updated_networks (nets : List Network) (first : First p.s)
    (there : (p.s.areas.find areaId).isSome = true) (distinct : (nets.map (·.ip)).Nodup)
    (fits : ∀ net ∈ nets, asked net = true → Fits net) :
    Updated cfg (only areaId nets) p (nets.foldl (updateNetwork cfg behind areaId) p) := by
  induction nets generalizing p with
  | nil =>
    have nothing : only areaId ([] : List Network) = fun _ => [] := by
      funext i
      rw [only, ite_self]
    rw [nothing]
    exact Updated.refl first
  | cons net nets ih =>
    rw [List.map_cons, List.nodup_cons] at distinct
    have step := @updated_network cfg behind _ _ _ first there
      (fits net List.mem_cons_self)
    have rest := ih step.first ((isSome_find_of_network (step.networks areaId)).trans there)
      distinct.2 fun net' member => fits net' (List.mem_cons_of_mem _ member)
    have both : only areaId (net :: nets) =
        fun i => only areaId [net] i ++ only areaId nets i := by
      funext i
      simp only [only]
      split_ifs <;> rfl
    rw [both, List.foldl_cons]
    refine step.comp rest ?_
    intro i net₁ member net' member'
    rw [only] at member member'
    split_ifs at member with here
    · rw [if_pos here] at member'
      cases List.mem_singleton.mp member
      exact netKey_ne fun same => distinct.1 (List.mem_map.mpr ⟨net', member', same⟩)
    · exact absurd member List.not_mem_nil

/-- The networks of the areas that come in a list. -/
def networksOf (entries : List (BitVec 32 × Area)) (i : BitVec 32) : List Network :=
  (entries.lookup i).elim [] Area.network

theorem updated_areas (entries : List (BitVec 32 × Area)) (first : First p.s)
    (nodup : (entries.map Prod.fst).Nodup)
    (there : ∀ e ∈ entries, (p.s.areas.find e.1).isSome = true)
    (distinct : ∀ e ∈ entries, (e.2.network.map (·.ip)).Nodup)
    (fits : ∀ e ∈ entries, ∀ net ∈ e.2.network, asked net = true → Fits net) :
    Updated cfg (networksOf entries) p (entries.foldl (updateArea cfg behind) p) := by
  induction entries generalizing p with
  | nil => exact Updated.refl first
  | cons e entries ih =>
    rw [List.map_cons, List.nodup_cons] at nodup
    have step := @updated_networks cfg behind _ _ e.2.network first
      (there e List.mem_cons_self) (distinct e List.mem_cons_self) (fits e List.mem_cons_self)
    have rest := ih step.first nodup.2
      (fun e' member => (isSome_find_of_network (step.networks e'.1)).trans
        (there e' (List.mem_cons_of_mem _ member)))
      (fun e' member => distinct e' (List.mem_cons_of_mem _ member))
      fun e' member => fits e' (List.mem_cons_of_mem _ member)
    have absent : entries.lookup e.1 = none := by
      rw [List.lookup_eq_none_iff]
      intro e' member
      refine bne_iff_ne.mpr fun same => nodup.1 ?_
      exact List.mem_map.mpr ⟨e', member, same.symm⟩
    have both : networksOf (e :: entries) =
        fun i => only e.1 e.2.network i ++ networksOf entries i := by
      funext i
      by_cases here : i = e.1
      · subst here
        rw [networksOf, networksOf, only, if_pos rfl, absent, List.lookup_cons, beq_self_eq_true]
        exact (List.append_nil _).symm
      · rw [networksOf, networksOf, only, if_neg here, List.lookup_cons, beq_false_of_ne here]
        rfl
    rw [both, List.foldl_cons]
    refine step.comp rest ?_
    intro i net member net' member'
    rw [only] at member
    split_ifs at member with here
    · rw [here, networksOf, absent] at member'
      exact absurd member' List.not_mem_nil
    · exact absurd member List.not_mem_nil

end Updates

section Sweep

variable {delFlag : BitVec 32 → LsaKey → Bool} {areaId : BitVec 32} {s : Ospf}

/-- The keys that are removed from an area. -/
def swept (delFlag : BitVec 32 → LsaKey → Bool) (areaId : BitVec 32) (key : LsaKey) : Bool :=
  key.type = 2 && delFlag areaId key

theorem sweepList_spec (list : List OspfLsa) :
    Frame False s (sweepList delFlag areaId s list).1 ∧
      (sweepList delFlag areaId s list).2 =
        sweep OspfLsa.key OspfLsa.selfOriginated (swept delFlag areaId) list := by
  induction list generalizing s with
  | nil => exact ⟨Frame.refl False s, rfl⟩
  | cons lsa list ih =>
    have isFlagged : flagged delFlag areaId lsa =
        (lsa.selfOriginated && swept delFlag areaId lsa.key) := rfl
    rw [sweepList, sweep, List.filter_cons, ← isFlagged]
    cases flagged delFlag areaId lsa with
    | true =>
      have flooded := (lsadbFlood_spec s (lsa.setAge maxAge) areaId).1.mono False.elim
      exact ⟨flooded.trans ih.1, ih.2⟩
    | false => exact ⟨ih.1, congrArg (lsa :: ·) ih.2⟩

theorem list_sweepArea (slot : Option (BitVec 32)) :
    (sweepArea delFlag s areaId).list slot =
      if slot = some areaId then
        sweep OspfLsa.key OspfLsa.selfOriginated (swept delFlag areaId) (s.list slot)
      else s.list slot := by
  obtain ⟨frame, swept⟩ := @sweepList_spec delFlag areaId s (s.list (some areaId))
  rw [sweepArea, swept, list_modifyList _ areaId (fun _ => sweep _ _ _ _)]
  split_ifs with both here here
  · rw [here]
  · exact absurd both.1 here
  · subst here
    have none := list_of_find_none fun there => both ⟨rfl, there⟩
    rw [frame.list] at none
    rw [frame.list, none]
    rfl
  · exact frame.list slot

theorem First.sweepAreas (ids : List (BitVec 32)) (first : First s) :
    First (ids.foldl (sweepArea delFlag) s) := by
  induction ids generalizing s with
  | nil => exact first
  | cons id ids ih =>
    refine ih fun slot => ?_
    rw [list_sweepArea]
    split_ifs
    · exact (first slot).sweep
    · exact first slot

theorem list_sweepAreas (ids : List (BitVec 32)) (nodup : ids.Nodup) {i : BitVec 32}
    (member : i ∈ ids) :
    (ids.foldl (sweepArea delFlag) s).list (some i) =
      sweep OspfLsa.key OspfLsa.selfOriginated (swept delFlag i) (s.list (some i)) := by
  have apart (ids : List (BitVec 32)) (absent : i ∉ ids) (s : Ospf) :
      (ids.foldl (sweepArea delFlag) s).list (some i) = s.list (some i) := by
    induction ids generalizing s with
    | nil => rfl
    | cons id ids ih =>
      rw [List.mem_cons, not_or] at absent
      rw [List.foldl_cons, ih absent.2, list_sweepArea,
        if_neg fun same => absent.1 (Option.some.inj same)]
  induction ids generalizing s with
  | nil => exact absurd member List.not_mem_nil
  | cons id ids ih =>
    obtain ⟨other, nodup⟩ := List.nodup_cons.mp nodup
    rw [List.foldl_cons]
    rcases List.mem_cons.mp member with rfl | later
    · rw [apart ids other, list_sweepArea, if_pos rfl]
    · have different : i ≠ id := fun same => other (same ▸ later)
      rw [ih nodup later, list_sweepArea, if_neg fun same => different (Option.some.inj same)]

end Sweep

section Own

variable {s : Ospf} {i : BitVec 32} {key : LsaKey} {lsa : OspfLsa}

theorem ownOf_eq_some (first : First s) : ownOf s i key = some lsa ↔
    lsa ∈ s.list (some i) ∧ lsa.selfOriginated = true ∧ lsa.key = key :=
  OwnedList.own_eq_some (first (some i))

theorem mem_ownNetworkLsas (first : First s) :
    lsa ∈ ownNetworkLsas s i ↔ ownOf s i lsa.key = some lsa ∧ lsa.key.type = 2 := by
  rw [ownOf_eq_some first, ownNetworkLsas, List.mem_filter, Bool.and_eq_true, decide_eq_true_iff]
  constructor
  · rintro ⟨member, owned, type⟩
    exact ⟨⟨member, owned, rfl⟩, type⟩
  · rintro ⟨⟨member, owned, -⟩, type⟩
    exact ⟨member, owned, type⟩

theorem nodup_ownNetworkLsas (first : First s) (i : BitVec 32) :
    ((ownNetworkLsas s i).map OspfLsa.key).Nodup := by
  have behind : (ownNetworkLsas s i).Pairwise fun a b =>
      a.key = b.key → b.selfOriginated = false :=
    List.Pairwise.sublist List.filter_sublist (first (some i))
  rw [List.Nodup, List.pairwise_map]
  refine List.Pairwise.imp_of_mem ?_ behind
  intro a b _ hasB apart same
  have owned := (Bool.and_eq_true_iff.mp (List.mem_filter.mp hasB).2).1
  rw [apart same] at owned
  cases owned

theorem setDelFlags_of_own (first : First s) (found : ownOf s i key = some lsa)
    (type : key.type = 2) : setDelFlags s i key = true := by
  obtain ⟨member, owned, rfl⟩ := (ownOf_eq_some first).mp found
  refine List.any_eq_true.mpr ⟨lsa, member, ?_⟩
  rw [owned, decide_eq_true rfl, decide_eq_true (show lsa.header.type = 2 from type)]
  rfl

end Own

theorem find_of_mem {areas : Areas} {id : BitVec 32} {area : Area}
    (member : (id, area) ∈ areas.entries) : areas.find id = some area := by
  obtain ⟨area', found⟩ := Option.isSome_iff_exists.mp
    ((Areas.find_isSome areas id).mpr (List.mem_map.mpr ⟨_, member, rfl⟩))
  have same : (id, area') = (id, area) :=
    List.inj_on_of_nodup_map areas.nodup (mem_of_find found) member rfl
  rw [found, (Prod.mk.inj same).2]

/-- After an update the network advertisements of this router are those of the networks on which
it is Designated Router and has a full neighbor, and what had not changed is as it was. -/
theorem networks_described (cfg : Settings) (behind : Bool) (s : Ospf) (ready : Ready s)
    (fits : ∀ areaId area, s.areas.find areaId = some area → ∀ net ∈ area.network,
      asked net = true → Fits net) :
    NetworksDescribed cfg s (lsaOriginateNetUpdate cfg behind s) := by
  intro i area found
  have updated := @updated_areas cfg behind ⟨s, setDelFlags s⟩ s.areas.entries ready.first
    s.areas.nodup (fun e member => by rw [find_of_mem member]; rfl)
    (fun e member => ready.distinct e.1 e.2 (find_of_mem member))
    (fun e member => fits e.1 e.2 (find_of_mem member))
  rw [lsaOriginateNetUpdate]
  generalize s.areas.entries.foldl (updateArea cfg behind) ⟨s, setDelFlags s⟩ = p at updated ⊢
  have nets : networksOf s.areas.entries i = area.network := by
    rw [networksOf, show s.areas.entries.lookup i = some area from found]
    rfl
  have member : i ∈ p.s.areas.ids := by
    rw [← Areas.find_isSome, isSome_find_of_network (updated.networks i)]
    exact found ▸ rfl
  have firstAfter := @First.sweepAreas p.delFlag p.s p.s.areas.ids updated.first
  have kept (key : LsaKey) : ownOf (p.s.areas.ids.foldl (sweepArea p.delFlag) p.s) i key =
      if swept p.delFlag i key then none else ownOf p.s i key := by
    have list : (p.s.areas.ids.foldl (sweepArea p.delFlag) p.s).list (some i) =
        sweep OspfLsa.key OspfLsa.selfOriginated (swept p.delFlag i) (p.s.list (some i)) :=
      list_sweepAreas _ p.s.areas.nodup member
    rw [ownOf, list, OwnedList.own_sweep (updated.first _)]
    rfl
  have described : ∀ net ∈ area.network, asked net = true →
      ∃ lsa ∈ ownNetworkLsas (p.s.areas.ids.foldl (sweepArea p.delFlag) p.s) i,
        Describes cfg net lsa ∧
          ∀ old ∈ ownNetworkLsas s i, Describes cfg net old → lsa = old := by
    intro net isNet isAsked
    obtain ⟨flag, lsa, has, describes, same⟩ := updated.asked i net (nets ▸ isNet) isAsked
    have stays : swept p.delFlag i (netKey cfg net) = false := by
      rw [swept, flag, Bool.and_false]
    refine ⟨lsa, (mem_ownNetworkLsas firstAfter).mpr ?_, describes, fun old isOld describes' => ?_⟩
    · rw [describes.key, kept, if_neg (by rw [stays]; decide)]
      exact ⟨has, rfl⟩
    · refine same old ?_ describes'
      rw [← describes'.key]
      exact ((mem_ownNetworkLsas ready.first).mp isOld).1
  refine ⟨?_, described⟩
  have distinct : ((area.network.filter asked).map (netKey cfg)).Nodup := by
    have ips : (area.network.filter asked).Pairwise fun a b => a.ip ≠ b.ip :=
      List.Pairwise.sublist List.filter_sublist
        (List.pairwise_map.mp (ready.distinct i area found))
    exact List.pairwise_map.mpr (ips.imp fun other => netKey_ne other)
  refine (List.perm_ext_iff_of_nodup (nodup_ownNetworkLsas firstAfter i) distinct).mpr fun key => ?_
  constructor
  · intro isKey
    obtain ⟨lsa, isOwn, rfl⟩ := List.mem_map.mp isKey
    obtain ⟨has, type⟩ := (mem_ownNetworkLsas firstAfter).mp isOwn
    by_contra none
    -- a key that no network asks for has its flag since the first loop
    have untouched := updated.unasked i lsa.key fun net isNet isAsked same =>
      none (List.mem_map.mpr ⟨net, List.mem_filter.mpr ⟨nets ▸ isNet, isAsked⟩, same⟩)
    rw [kept] at has
    split_ifs at has with goes
    rw [untouched.1] at has
    refine goes ?_
    rw [swept, untouched.2, decide_eq_true type]
    exact setDelFlags_of_own ready.first has type
  · intro isKey
    obtain ⟨net, isNet, rfl⟩ := List.mem_map.mp isKey
    obtain ⟨isNet, isAsked⟩ := List.mem_filter.mp isNet
    obtain ⟨lsa, isOwn, describes, -⟩ := described net isNet isAsked
    exact List.mem_map.mpr ⟨lsa, isOwn, describes.key⟩

/-- Neighbors are named by their addresses, and this router is 10.0.0.12. -/
def byAddress : Settings where
  isAbr := false
  isAsbr := false
  routerId _ := 0x0a00000c
  noSummary _ := false
  netRouterId _ := 0x0a00000c
  netCost _ := 1
  nbRouterId _ nb := nb.ip
  lsaCost _ := 0

/-- The network 10.0.0.0/24 with full neighbors of these addresses. -/
def lan (ips : List (BitVec 32)) : Network where
  ip := 0x0a000001
  mask := 0xffffff00
  state := .dr
  designatedRouter := 0x0a000001
  neighbor := ips.map fun ip => ⟨ip, .full, [], [], 0⟩

/-- The advertisement made for the network at some time. -/
def lanLsa (ips : List (BitVec 32)) : OspfLsa :=
  newLsa 7 2 (netKey byAddress (lan ips)) (netLsaData byAddress (lan ips))

/-- One area with the network, and what is left of an earlier time. -/
def oneLan (lsa : OspfLsa) (ips : List (BitVec 32)) : Ospf where
  areas := ⟨[(0, ⟨false, [lsa], [lan ips]⟩)], List.nodup_singleton 0⟩
  extlist := []
  ospfRouterId := 0x0a00000c
  seqNumber := 0x80000001
  lsaFlooded := 0
  floods := []
  tx := []

theorem of_find_oneLan {lsa : OspfLsa} {ips : List (BitVec 32)} {areaId : BitVec 32} {area : Area}
    (found : (oneLan lsa ips).areas.find areaId = some area) :
    areaId = 0 ∧ area = ⟨false, [lsa], [lan ips]⟩ := by
  obtain ⟨rfl, rfl⟩ := Prod.mk.inj (List.mem_singleton.mp (mem_of_find found))
  exact ⟨rfl, rfl⟩

theorem ready_oneLan (lsa : OspfLsa) (ips : List (BitVec 32)) : Ready (oneLan lsa ips) where
  first := by
    intro slot
    rcases slot with _ | areaId
    · exact List.Pairwise.nil
    · rw [Ospf.list]
      cases found : (oneLan lsa ips).areas.find areaId with
      | none => exact List.Pairwise.nil
      | some area =>
        obtain ⟨-, rfl⟩ := of_find_oneLan found
        exact List.pairwise_singleton _ lsa
  distinct := by
    intro areaId area found
    obtain ⟨-, rfl⟩ := of_find_oneLan found
    exact List.nodup_singleton _

/-- A second neighbor has joined since the advertisement was made. -/
theorem networks_described_joined :
    NetworksDescribed byAddress (oneLan (lanLsa [0x0a000002]) [0x0a000003, 0x0a000002])
      (lsaOriginateNetUpdate byAddress false
        (oneLan (lanLsa [0x0a000002]) [0x0a000003, 0x0a000002])) := by
  refine networks_described _ _ _ (ready_oneLan _ _) ?_
  intro areaId area found net member _
  obtain ⟨-, rfl⟩ := of_find_oneLan found
  cases List.mem_singleton.mp member
  exact show Fits (lan [0x0a000003, 0x0a000002]) by decide

/-- The same full neighbors in another order make a new advertisement, and more of them than
the length counts are described by none. The 16377 neighbors are not written out: the length
of `List.replicate` is compared with the 16 bits of the field. -/
theorem order_and_number_matter :
    (Ready (oneLan (lanLsa [0x0a000002, 0x0a000003]) [0x0a000003, 0x0a000002]) ∧
      Describes byAddress (lan [0x0a000002, 0x0a000003]) (lanLsa [0x0a000002, 0x0a000003]) ∧
      (fullNeighbors (lan [0x0a000003, 0x0a000002])).Perm
        (fullNeighbors (lan [0x0a000002, 0x0a000003])) ∧
      lanLsa [0x0a000002, 0x0a000003] ∉ ownNetworkLsas
        (lsaOriginateNetUpdate byAddress false
          (oneLan (lanLsa [0x0a000002, 0x0a000003]) [0x0a000003, 0x0a000002])) 0) ∧
      Ready (oneLan (lanLsa []) (List.replicate 16377 0x0a000002)) ∧
      ¬ NetworksDescribed byAddress (oneLan (lanLsa []) (List.replicate 16377 0x0a000002))
        (lsaOriginateNetUpdate byAddress false
          (oneLan (lanLsa []) (List.replicate 16377 0x0a000002))) := by
  refine ⟨⟨ready_oneLan _ _, describes_new (by decide), ?_, by decide +kernel⟩,
    ready_oneLan _ _, fun described => ?_⟩
  · exact List.Perm.swap _ _ []
  · have full : fullNeighbors (lan (List.replicate 16377 0x0a000002)) =
        List.replicate 16377 ⟨0x0a000002, .full, [], [], 0⟩ := by
      rw [fullNeighbors, lan, List.map_replicate, List.filter_replicate_of_pos (by rfl)]
    obtain ⟨lsa, -, describes, -⟩ := (described 0 _ rfl).2 _ List.mem_cons_self (by
      rw [asked, full]
      rfl)
    have length := describes.lists.length
    have bound := lsa.header.length.isLt
    rw [length_attached, full, List.length_replicate] at length
    omega

end NetworkLsas
