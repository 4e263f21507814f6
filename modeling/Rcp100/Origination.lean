import Rcp100.LsaAging
import Rcp100.ByteBuffer
import Rcp100.OwnedList

/-!
# Origination of advertisements

The functions that originate an advertisement look for the copy in the database under
the same key, and unlink it when it carries the flag of this router's own
advertisements; the caller puts the new one into the list. Delete flags, traps and log
lines are left out.
-/

namespace Origination

open LsaFormat LsUpdate LsaAging ByteBuffer ListPass
open LsdbFreshness (lsaIncrementSeq initialSequenceNumber)
open OwnedList (OwnFirst)

/-- What is read of the process, its areas, networks and neighbors besides the lists. -/
structure Settings where
  isAbr : Bool
  isAsbr : Bool
  routerId : BitVec 32 → BitVec 32
  noSummary : BitVec 32 → Bool
  netRouterId : Network → BitVec 32
  netCost : Network → BitVec 32
  nbRouterId : Network → Neighbor → BitVec 32
  lsaCost : OspfLsa → BitVec 32

/-- `RT`, as far as summaries are made of it. -/
structure Rt where
  ip : BitVec 32
  mask : BitVec 32
  cost : BitVec 32

/-- `RcpOspfRange`. -/
structure Range where
  area : BitVec 32
  ip : BitVec 32
  mask : BitVec 32
  cost : BitVec 32

/-- The list that `lsadbGetListHead` returns. -/
def slotOf (areaId : BitVec 32) (type : BitVec 8) : Option (BitVec 32) :=
  if type = 5 then none else some areaId

def lsadbFind (s : Ospf) (areaId : BitVec 32) (key : LsaKey) : Option OspfLsa :=
  lsaListFind (s.list (slotOf areaId key.type)) key

/-- `lsaListRemove(lsadbGetListHead(area_id, type), lsa)` for the copy that was found. -/
def unlink (s : Ospf) (areaId : BitVec 32) (key : LsaKey) : Ospf :=
  if key.type = 5 then { s with extlist := lsaListRemove s.extlist key }
  else { s with
    areas := s.areas.modify areaId
      (fun area => { area with list := lsaListRemove area.list key }) }

/-- `lsa_increment_seq`. -/
def nextSeq (s : Ospf) : Ospf := { s with seqNumber := lsaIncrementSeq s.seqNumber }

/-- The allocated advertisement with its header filled in and the checksum inserted. -/
def newLsa (seq : BitVec 32) (options : BitVec 8) (key : LsaKey) (body : List (BitVec 8)) :
    OspfLsa where
  bytes := insertChecksum
    (be16 0 ++ [options, key.type] ++ be32 key.linkStateId ++ be32 key.advRouter ++ be32 seq ++
      be16 0 ++ be16 (BitVec.ofNat 16 (sizeofHeader + body.length)) ++ body)
  selfOriginated := true
  flood := 1
  oldCnt := 0
  oldSelfOriginatedSeq := 0
  netIp := 0

/-- The copy of the database that `replace_it` is set for. -/
def ownCopy (s : Ospf) (areaId : BitVec 32) (key : LsaKey) : Option OspfLsa :=
  (lsadbFind s areaId key).filter (·.selfOriginated)

/-- The copy goes when `replace_it` is set, and the new advertisement is returned. -/
def replaceCopy (s : Ospf) (areaId : BitVec 32) (key : LsaKey) (lsa : OspfLsa) :
    Ospf × Option OspfLsa :=
  (if (ownCopy s areaId key).isSome then unlink s areaId key else s, some lsa)

/-- The summaries: a copy that passes `unchanged` stays, and no advertisement is made. -/
def originateSummary (s : Ospf) (areaId : BitVec 32) (options : BitVec 8) (key : LsaKey)
    (mask metric : BitVec 32) (unchanged : OspfLsa → Bool) : Ospf × Option OspfLsa :=
  if (ownCopy s areaId key).any unchanged then (s, none)
  else
    replaceCopy (nextSeq s) areaId key
      (newLsa s.seqNumber options key (be32 mask ++ be32 metric))

def sumMask (lsa : OspfLsa) : BitVec 32 := lsa.memory.get32 20

def sumMetric (lsa : OspfLsa) : BitVec 32 := lsa.memory.get32 24

/-- The comparison of header fields in `cmp_rtr_lsa` and `cmp_net_lsa`; the options are
compared with themselves. -/
def cmpHeader (lsa1 lsa2 : OspfLsa) : Bool :=
  lsa1.key = lsa2.key && lsa1.header.length = lsa2.header.length

/-- `memcmp` of `n` bytes of the bodies; `behind` is what the memory behind the blocks
compares to when it is reached. -/
def cmpBody (behind : Bool) (n : Nat) (lsa1 lsa2 : OspfLsa) : Bool :=
  (lsa1.bytes.drop sizeofHeader).take n = (lsa2.bytes.drop sizeofHeader).take n &&
    (n ≤ lsa1.bytes.length - sizeofHeader || behind)

/-- `cmp_rtr_lsa` returns 0. The length is used in network order, and the difference is
one of 64 bits without sign. -/
def cmpRtrLsa (behind : Bool) (lsa1 lsa2 : OspfLsa) : Bool :=
  let length := lsa1.header.length
  let swapped : BitVec 16 := length.extractLsb' 0 8 ++ length.extractLsb' 8 8
  cmpHeader lsa1 lsa2 && cmpBody behind (swapped.setWidth 64 - 20).toNat lsa1 lsa2

/-- `cmp_net_lsa` returns 0. -/
def cmpNetLsa (behind : Bool) (lsa1 lsa2 : OspfLsa) : Bool :=
  cmpHeader lsa1 lsa2 &&
    cmpBody behind (lsa1.header.length.setWidth 64 - 20).toNat lsa1 lsa2

/-- The link of a network in the router advertisement: a stub network or a transit
network. -/
def rtrLsaLink (cfg : Settings) (net : Network) : List (BitVec 8) :=
  let metric := (cfg.netCost net).setWidth 16
  if net.neighbor.isEmpty then
    be32 (net.ip &&& net.mask) ++ be32 net.mask ++ [3, 0] ++ be16 metric
  else be32 net.designatedRouter ++ be32 net.ip ++ [2, 0] ++ be16 metric

/-- The flags, the number of links, and the links. -/
def rtrLsaData (cfg : Settings) (networks : List Network) : List (BitVec 8) :=
  let linked := networks.filter (fun net => net.designatedRouter ≠ 0)
  [(if cfg.isAbr then 1 else 0) ||| (if cfg.isAsbr then 2 else 0), 0] ++
    be16 (BitVec.ofNat 16 linked.length) ++ linked.flatMap (rtrLsaLink cfg)

def rtrKey (cfg : Settings) (areaId : BitVec 32) : LsaKey :=
  ⟨1, cfg.routerId areaId, cfg.routerId areaId⟩

def lsaOriginateRtr (cfg : Settings) (behind : Bool) (s : Ospf) (areaId : BitVec 32) :
    Ospf × Option OspfLsa :=
  match s.areas.find areaId with
  | none => (s, none)
  | some area =>
    let key := rtrKey cfg areaId
    if area.network.isEmpty then
      (if (ownCopy s areaId key).isSome then unlink s areaId key else s, none)
    else
      let rv := newLsa s.seqNumber 2 key (rtrLsaData cfg area.network)
      if (ownCopy s areaId key).any (cmpRtrLsa behind rv) then (nextSeq s, none)
      else replaceCopy (nextSeq s) areaId key rv

def fullNeighbors (net : Network) : List Neighbor :=
  net.neighbor.filter (fun nb => nb.state = .full)

def netKey (cfg : Settings) (net : Network) : LsaKey := ⟨2, net.ip, cfg.netRouterId net⟩

/-- The mask, the full neighbors, and this router. -/
def netLsaData (cfg : Settings) (net : Network) : List (BitVec 8) :=
  be32 net.mask ++ (fullNeighbors net).flatMap (fun nb => be32 (cfg.nbRouterId net nb)) ++
    be32 (cfg.netRouterId net)

/-- `areaId` is `net->area_id`. -/
def lsaOriginateNet (cfg : Settings) (behind : Bool) (s : Ospf) (areaId : BitVec 32)
    (net : Network) : Ospf × Option OspfLsa :=
  if (fullNeighbors net).isEmpty then (s, none)
  else
    let key := netKey cfg net
    let rv := newLsa s.seqNumber 2 key (netLsaData cfg net)
    if (ownCopy s areaId key).any (cmpNetLsa behind rv) then (nextSeq s, none)
    else replaceCopy (nextSeq s) areaId key rv

def sumnetKey (cfg : Settings) (areaId ip : BitVec 32) : LsaKey := ⟨3, ip, cfg.routerId areaId⟩

def sumrouterKey (cfg : Settings) (areaId router : BitVec 32) : LsaKey :=
  ⟨4, router, cfg.routerId areaId⟩

def lsaOriginateSumdefault (cfg : Settings) (s : Ospf) (areaId cost : BitVec 32) :
    Ospf × Option OspfLsa :=
  let cost := cost &&& 0x00ffffff
  match s.areas.find areaId with
  | none => (s, none)
  | some _ =>
    originateSummary s areaId 0 (sumnetKey cfg areaId 0) 0 cost
      (fun found => sumMetric found = cost)

def lsaOriginateSumnetArea (cfg : Settings) (s : Ospf) (areaId : BitVec 32) (rt : Rt) :
    Ospf × Option OspfLsa :=
  match s.areas.find areaId with
  | none => (s, none)
  | some area =>
    if area.stub && cfg.noSummary areaId then (s, none)
    else originateSummary s areaId 2 (sumnetKey cfg areaId rt.ip) rt.mask rt.cost
      (fun found => sumMask found = rt.mask && sumMetric found = rt.cost)

/-- The stub flags and the router identifier are those of the area of the range. -/
def lsaOriginateSumnetAreaRange (cfg : Settings) (s : Ospf) (areaId : BitVec 32) (range : Range) :
    Ospf × Option OspfLsa :=
  match s.areas.find range.area with
  | none => (s, none)
  | some area =>
    if area.stub && cfg.noSummary range.area then (s, none)
    else originateSummary s areaId 2 (sumnetKey cfg range.area range.ip) range.mask range.cost
      (fun found => sumMask found = range.mask && sumMetric found = range.cost)

/-- `lsa` is the router advertisement of a boundary router. -/
def lsaOriginateSumrouterArea (cfg : Settings) (s : Ospf) (areaId : BitVec 32) (lsa : OspfLsa) :
    Ospf × Option OspfLsa :=
  match s.areas.find areaId with
  | none => (s, none)
  | some area =>
    if area.stub then (s, none)
    else originateSummary s areaId 2 (sumrouterKey cfg areaId lsa.header.advRouter) 0
      (cfg.lsaCost lsa) (fun found => sumMetric found = cfg.lsaCost lsa)

/-- The cost to the boundary router of a summary in the backbone. -/
def transferCost (cfg : Settings) (s : Ospf) (lsa : OspfLsa) : BitVec 32 :=
  match lsadbFind s 0 ⟨1, lsa.header.advRouter, lsa.header.advRouter⟩ with
  | some advr => sumMetric lsa + cfg.lsaCost advr
  | none => 10

/-- `lsa` is a summary for a boundary router in the backbone. -/
def lsaOriginateSumrouterTransferArea (cfg : Settings) (s : Ospf) (areaId : BitVec 32)
    (lsa : OspfLsa) : Ospf × Option OspfLsa :=
  match s.areas.find areaId with
  | none => (s, none)
  | some area =>
    if area.stub then (s, none)
    else
      let cost := transferCost cfg s lsa
      originateSummary s areaId 2 (sumrouterKey cfg areaId lsa.header.linkStateId) 0 cost
        (fun found => sumMetric found = cost)

def extKey (s : Ospf) (ip : BitVec 32) : LsaKey := ⟨5, ip, s.ospfRouterId⟩

/-- The external type is 1 or 2. -/
def extMetric (type : Nat) (metric : BitVec 32) : BitVec 32 :=
  if type = 2 then metric &&& 0x00ffffff ||| 0x80000000 else metric &&& 0x00ffffff

/-- The allocated external advertisement. -/
def extLsa (seq routerId ip mask gw : BitVec 32) (type : Nat) (metric tag : BitVec 32) : OspfLsa :=
  newLsa seq 2 ⟨5, ip, routerId⟩
    (be32 mask ++ be32 (extMetric type metric) ++ be32 gw ++ be32 tag)

def lsaOriginateExt (s : Ospf) (ip mask gw : BitVec 32) (type : Nat) (metric tag : BitVec 32) :
    Ospf × Option OspfLsa :=
  replaceCopy (nextSeq s) 0 (extKey s ip)
    (extLsa s.seqNumber s.ospfRouterId ip mask gw type metric tag)

/-- The calls of the origination functions. -/
inductive Origin where
  | rtr (behind : Bool) (areaId : BitVec 32)
  | net (behind : Bool) (areaId : BitVec 32) (network : Network)
  | sumdefault (areaId cost : BitVec 32)
  | sumnet (areaId : BitVec 32) (rt : Rt)
  | range (areaId : BitVec 32) (r : Range)
  | sumrouter (areaId : BitVec 32) (lsa : OspfLsa)
  | transfer (areaId : BitVec 32) (lsa : OspfLsa)
  | ext (ip mask gw : BitVec 32) (type : Nat) (metric tag : BitVec 32)

namespace Origin

/-- The area whose database is searched and extended. -/
def areaId : Origin → BitVec 32
  | rtr _ areaId => areaId
  | net _ areaId _ => areaId
  | sumdefault areaId _ => areaId
  | sumnet areaId _ => areaId
  | range areaId _ => areaId
  | sumrouter areaId _ => areaId
  | transfer areaId _ => areaId
  | ext .. => 0

/-- The key that is searched. -/
def key (cfg : Settings) (s : Ospf) : Origin → LsaKey
  | rtr _ areaId => rtrKey cfg areaId
  | net _ _ network => netKey cfg network
  | sumdefault areaId _ => sumnetKey cfg areaId 0
  | sumnet areaId rt => sumnetKey cfg areaId rt.ip
  | range _ r => sumnetKey cfg r.area r.ip
  | sumrouter areaId lsa => sumrouterKey cfg areaId lsa.header.advRouter
  | transfer areaId lsa => sumrouterKey cfg areaId lsa.header.linkStateId
  | ext ip _ _ _ _ _ => extKey s ip

/-- The checks that come before the search let the call through. -/
def admitted (cfg : Settings) (s : Ospf) : Origin → Bool
  | rtr _ areaId => (s.areas.find areaId).any (fun area => !area.network.isEmpty)
  | net _ _ network => !(fullNeighbors network).isEmpty
  | sumdefault areaId _ => (s.areas.find areaId).isSome
  | sumnet areaId _ => (s.areas.find areaId).any (fun area => !(area.stub && cfg.noSummary areaId))
  | range _ r => (s.areas.find r.area).any (fun area => !(area.stub && cfg.noSummary r.area))
  | sumrouter areaId _ => (s.areas.find areaId).any (fun area => !area.stub)
  | transfer areaId _ => (s.areas.find areaId).any (fun area => !area.stub)
  | ext .. => true

def call (cfg : Settings) (s : Ospf) : Origin → Ospf × Option OspfLsa
  | rtr behind areaId => lsaOriginateRtr cfg behind s areaId
  | net behind areaId network => lsaOriginateNet cfg behind s areaId network
  | sumdefault areaId cost => lsaOriginateSumdefault cfg s areaId cost
  | sumnet areaId rt => lsaOriginateSumnetArea cfg s areaId rt
  | range areaId r => lsaOriginateSumnetAreaRange cfg s areaId r
  | sumrouter areaId lsa => lsaOriginateSumrouterArea cfg s areaId lsa
  | transfer areaId lsa => lsaOriginateSumrouterTransferArea cfg s areaId lsa
  | ext ip mask gw type metric tag => lsaOriginateExt s ip mask gw type metric tag

end Origin

/-- The origination and the `lsadbAdd` of its caller. -/
def originate (cfg : Settings) (s : Ospf) (origin : Origin) : Ospf :=
  let r := origin.call cfg s
  r.2.elim r.1 (lsadbAdd r.1 origin.areaId)

/-- What changes the lists of the database. -/
inductive Event where
  | receive (pkt : UpdatePacket) (desc : PacketDesc)
  | timeout
  | originate (cfg : Settings) (origin : Origin)
  | remove (slot : Option (BitVec 32)) (i : Nat)
  | networks (areaId : BitVec 32) (networks : List Network)
  | removeArea (areaId : BitVec 32)

/-- Every event but an origination is a step of the aging database. -/
def Step (s : Ospf) : Event → Ospf → Prop
  | .receive pkt desc, s' => LsaAging.Step s (.receive pkt desc) s'
  | .timeout, s' => LsaAging.Step s .timeout s'
  | .originate cfg origin, s' => s' = originate cfg s origin
  | .remove slot i, s' => LsaAging.Step s (.remove slot i) s'
  | .networks areaId networks, s' => LsaAging.Step s (.networks areaId networks) s'
  | .removeArea areaId, s' => LsaAging.Step s (.removeArea areaId) s'

/-- Received advertisements announce at least their header, and an origination finds
no copy under its key that lacks the flag. -/
def Clear (s : Ospf) : Event → Prop
  | .receive pkt _ => ∀ lsah ∈ pkt.lsas, sizeofHeader ≤ (lsaHeader lsah).length.toNat
  | .originate cfg origin =>
    origin.admitted cfg s = true →
      ∀ found, lsadbFind s origin.areaId (origin.key cfg s) = some found →
        found.selfOriginated = true
  | _ => True

/-- A run in which every event meets a condition on the state before it. -/
inductive Run (Ok : Ospf → Event → Prop) (s : Ospf) : List Event → Ospf → Prop where
  | nil : Run Ok s [] s
  | snoc {events : List Event} {s' s'' : Ospf} {event : Event} (run : Run Ok s events s')
    (ok : Ok s' event) (step : Step s' event s'') : Run Ok s (events ++ [event]) s''

/-- No list holds two advertisements with one key. -/
def Unique (s : Ospf) : Prop := ∀ slot, ((s.list slot).map OspfLsa.key).Nodup

section NewLsa

variable (seq : BitVec 32) (options : BitVec 8) (key : LsaKey) (body : List (BitVec 8))

theorem memory_newLsa {i : Nat} (front : i < 16) :
    (newLsa seq options key body).memory i =
      (be16 0 ++ [options, key.type] ++ be32 key.linkStateId ++ be32 key.advRouter ++
        be32 seq).getD i 0 := by
  simp only [newLsa, insertChecksum, OspfLsa.memory]
  rw [getD_writeBytes _ _ (Or.inl front), getD_writeBytes _ _ (Or.inl front)]
  rw [List.append_assoc _ (be16 0), List.append_assoc _ (be16 0 ++ _), List.getD_append]
  simpa using front

theorem key_newLsa : (newLsa seq options key body).key = key := by
  have type : (newLsa seq options key body).memory 3 = key.type :=
    memory_newLsa seq options key body (by omega)
  have id : (newLsa seq options key body).memory.get32 4 = key.linkStateId := by
    refine get32_eq ?_
    simp [slice, List.range_succ, memory_newLsa, be32, be16]
  have adv : (newLsa seq options key body).memory.get32 8 = key.advRouter := by
    refine get32_eq ?_
    simp [slice, List.range_succ, memory_newLsa, be32, be16]
  simp only [OspfLsa.key, OspfLsa.header, lsaHeader, LsaHeader.key, type, id, adv]

theorem newborn_newLsa : Newborn (newLsa seq options key body) := by
  refine ⟨rfl, ?_, ?_⟩
  · have zero : ∀ i < 2, (newLsa seq options key body).memory i = 0 := by
      intro i hi
      rw [memory_newLsa seq options key body (by omega)]
      rcases (by omega : i = 0 ∨ i = 1) with rfl | rfl
      · rfl
      · rfl
    simp [OspfLsa.header, lsaHeader, Memory.get16, zero]
  · simp only [newLsa, insertChecksum, length_writeBytes, List.length_append, length_be16,
      length_be32, List.length_cons, List.length_nil, sizeofHeader]
    omega

theorem slice_newLsa :
    slice (newLsa seq options key body).memory sizeofHeader body.length = body := by
  have behind : ∀ i, (newLsa seq options key body).memory (sizeofHeader + i) = body.getD i 0 := by
    intro i
    simp only [newLsa, insertChecksum, OspfLsa.memory]
    rw [getD_writeBytes _ _ (by simp [sizeofHeader]; omega),
      getD_writeBytes _ _ (by simp [sizeofHeader]; omega), List.getD_append_right]
    · simp [sizeofHeader]
    · simp [sizeofHeader]
  refine List.ext_getElem (length_slice ..) (fun i _ bound => ?_)
  simp only [slice, List.getElem_map, List.getElem_range, behind]
  exact List.getD_eq_getElem _ _ bound

end NewLsa

section Call

variable {s s' : Ospf} {areaId : BitVec 32} {key : LsaKey}

/-- What a call does to the lists and what it returns. -/
inductive Called (s : Ospf) (areaId : BitVec 32) (key : LsaKey) (Admitted : Prop) :
    Ospf × Option OspfLsa → Prop where
  | kept {s' : Ospf} (lists : s'.list = s.list) : Called s areaId key Admitted (s', none)
  | dropped {s' : Ospf} (lists : s'.list = (unlink s areaId key).list) :
    Called s areaId key Admitted (s', none)
  | made {s' : Ospf} {lsa : OspfLsa} (admitted : Admitted)
    (lists : s'.list = (if (ownCopy s areaId key).isSome then unlink s areaId key else s).list)
    (keyed : lsa.key = key) (newborn : Newborn lsa) : Called s areaId key Admitted (s', some lsa)

theorem Called.replaceCopy {P : Prop} (admitted : P) (seq : BitVec 32) (options : BitVec 8)
    (body : List (BitVec 8)) :
    Called s areaId key P
      (replaceCopy (nextSeq s) areaId key (newLsa seq options key body)) := by
  refine .made admitted ?_ (key_newLsa ..) (newborn_newLsa ..)
  have own : ownCopy (nextSeq s) areaId key = ownCopy s areaId key := rfl
  rw [own]
  split
  · unfold unlink
    split
    · rfl
    · rfl
  · rfl

theorem Called.originateSummary {P : Prop} (admitted : P) (options : BitVec 8)
    (mask metric : BitVec 32) (unchanged : OspfLsa → Bool) :
    Called s areaId key P (originateSummary s areaId options key mask metric unchanged) := by
  unfold Origination.originateSummary
  split
  · exact .kept rfl
  · exact .replaceCopy admitted _ _ _

theorem Called.guarded {P : Prop} {id : BitVec 32} {blocked : Area → Bool}
    {r : Ospf × Option OspfLsa}
    (passes : (s.areas.find id).any (fun area => !blocked area) = true → Called s areaId key P r) :
    Called s areaId key P
      (match s.areas.find id with
      | none => (s, none)
      | some area => if blocked area then (s, none) else r) := by
  cases found : s.areas.find id with
  | none => exact .kept rfl
  | some area =>
    dsimp only
    split
    · exact .kept rfl
    · rename_i free
      refine passes ?_
      rw [found, Option.any_some]
      simpa using free

theorem called_rtr (cfg : Settings) (behind : Bool) (areaId : BitVec 32) :
    Called s areaId (rtrKey cfg areaId) ((Origin.rtr behind areaId).admitted cfg s = true)
      (lsaOriginateRtr cfg behind s areaId) := by
  unfold lsaOriginateRtr
  cases found : s.areas.find areaId with
  | none => exact .kept rfl
  | some area =>
    dsimp only
    by_cases empty : area.network.isEmpty = true
    · rw [if_pos empty]
      split
      · exact .dropped rfl
      · exact .kept rfl
    · rw [if_neg empty]
      split
      · exact .kept rfl
      · refine .replaceCopy ?_ _ _ _
        simp only [Origin.admitted, found, Option.any_some]
        simpa using empty

theorem called_net (cfg : Settings) (behind : Bool) (areaId : BitVec 32) (net : Network) :
    Called s areaId (netKey cfg net) ((Origin.net behind areaId net).admitted cfg s = true)
      (lsaOriginateNet cfg behind s areaId net) := by
  unfold lsaOriginateNet
  by_cases empty : (fullNeighbors net).isEmpty = true
  · rw [if_pos empty]
    exact .kept rfl
  · rw [if_neg empty]
    dsimp only
    split
    · exact .kept rfl
    · exact .replaceCopy (by simpa [Origin.admitted] using empty) _ _ _

theorem called_call (cfg : Settings) (origin : Origin) :
    Called s origin.areaId (origin.key cfg s) (origin.admitted cfg s = true)
      (origin.call cfg s) := by
  cases origin with
  | rtr behind areaId => exact called_rtr cfg behind areaId
  | net behind areaId net => exact called_net cfg behind areaId net
  | sumdefault areaId cost =>
    simp only [Origin.call, lsaOriginateSumdefault, Origin.admitted]
    cases found : s.areas.find areaId with
    | none => exact .kept rfl
    | some area => exact .originateSummary rfl _ _ _ _
  | sumnet areaId rt =>
    exact .guarded (fun passes => .originateSummary passes _ _ _ _)
  | range areaId r =>
    exact .guarded (fun passes => .originateSummary passes _ _ _ _)
  | sumrouter areaId lsa =>
    exact .guarded (fun passes => .originateSummary passes _ _ _ _)
  | transfer areaId lsa =>
    exact .guarded (fun passes => .originateSummary passes _ _ _ _)
  | ext ip mask gw type metric tag => exact .replaceCopy rfl _ _ _

theorem list_modifyList (s : Ospf) (areaId : BitVec 32) (g : List OspfLsa → List OspfLsa)
    (slot : Option (BitVec 32)) :
    Ospf.list { s with
      areas := s.areas.modify areaId (fun area => { area with list := g area.list }) } slot =
      if slot = some areaId ∧ (s.areas.find areaId).isSome then g (s.list slot)
      else s.list slot := by
  cases slot with
  | none => simp [Ospf.list]
  | some id =>
    simp only [Ospf.list, Areas.find_modify]
    by_cases here : id = areaId
    · subst here
      cases s.areas.find id with
      | none => simp
      | some area => simp
    · simp [here]

theorem list_unlink (s : Ospf) (areaId : BitVec 32) (key : LsaKey) (slot : Option (BitVec 32)) :
    (unlink s areaId key).list slot =
      if slot = slotOf areaId key.type then lsaListRemove (s.list slot) key else s.list slot := by
  unfold unlink slotOf
  by_cases external : key.type = 5
  · rw [if_pos external, if_pos external]
    cases slot with
    | none => rfl
    | some id => rfl
  · rw [if_neg external, if_neg external, list_modifyList s areaId (lsaListRemove · key)]
    by_cases here : slot = some areaId
    · subst here
      cases found : s.areas.find areaId with
      | none => simp [Ospf.list, found, lsaListRemove]
      | some area => simp
    · simp [here]

theorem list_lsadbAdd (s : Ospf) (areaId : BitVec 32) (lsa : OspfLsa) (slot : Option (BitVec 32)) :
    (lsadbAdd s areaId lsa).list slot = s.list slot ∨
      (slot = slotOf areaId lsa.header.type ∧
        (lsadbAdd s areaId lsa).list slot = lsa :: s.list slot) := by
  unfold lsadbAdd slotOf
  by_cases external : lsa.header.type = 5
  · rw [if_pos external, if_pos external]
    cases slot with
    | none => exact .inr ⟨rfl, rfl⟩
    | some id => exact .inl rfl
  · rw [if_neg external, if_neg external, list_modifyList s areaId (lsaListAdd · lsa)]
    split
    · rename_i here
      exact .inr ⟨here.1, rfl⟩
    · exact .inl rfl

end Call

section Keys

variable {list : List OspfLsa} {key : LsaKey}

theorem not_mem_keys (absent : lsaListFind list key = none) : key ∉ list.map OspfLsa.key := by
  intro member
  obtain ⟨l, hl, keyed⟩ := List.mem_map.mp member
  have other := List.find?_eq_none.mp absent l hl
  simp [keyed] at other

theorem map_lsaListUpdate {β : Type} {g : OspfLsa → β} {f : OspfLsa → OspfLsa}
    (kept : ∀ l, lsaListFind list key = some l → g (f l) = g l) :
    (lsaListUpdate list key f).map g = list.map g := by
  induction list with
  | nil => rfl
  | cons l rest ih =>
    rw [lsaListUpdate]
    by_cases here : l.key = key
    · rw [if_pos here, List.map_cons, List.map_cons]
      rw [kept l (by rw [lsaListFind_cons, if_pos here])]
    · rw [if_neg here, List.map_cons, List.map_cons]
      rw [ih (fun m found => kept m (by rw [lsaListFind_cons, if_neg here, found]))]

theorem keys_lsaListRemove : (lsaListRemove list key).map OspfLsa.key =
    (list.map OspfLsa.key).erase key := by
  induction list with
  | nil => rfl
  | cons l rest ih =>
    rw [lsaListRemove, List.map_cons]
    by_cases here : l.key = key
    · rw [List.eraseP_cons_of_pos (by simp [here]), here, List.erase_cons_head]
    · rw [List.eraseP_cons_of_neg (by simp [here]), List.map_cons,
        List.erase_cons_tail (by simp [here])]
      exact congrArg _ ih

theorem nodup_install {net : Network} {desc : PacketDesc} {lsah : Memory}
    (sized : sizeofHeader ≤ (lsaHeader lsah).length.toNat)
    (nodup : (list.map OspfLsa.key).Nodup) :
    ((installLsa net desc list lsah).map OspfLsa.key).Nodup := by
  have keyed : (receivedLsa net lsah).key = (lsaHeader lsah).key :=
    congrArg LsaHeader.key (header_receivedLsa net sized)
  have outcome := installs_installLsa net desc list lsah
  generalize installLsa net desc list lsah = list' at outcome ⊢
  cases outcome with
  | keep => exact nodup
  | add absent _ _ =>
    rw [List.map_cons, keyed]
    exact List.nodup_cons.mpr ⟨not_mem_keys absent, nodup⟩
  | age _ =>
    rw [map_lsaListUpdate (fun l _ => OspfLsa.key_setAge l _)]
    exact nodup
  | note _ =>
    rw [map_lsaListUpdate]
    · exact nodup
    · exact fun l _ => rfl
  | replace _ _ _ =>
    rw [map_lsaListUpdate (fun l found => keyed.trans (lsaListFind_key found).symm)]
    exact nodup

end Keys

/-- The advertisements have room for their headers, and no two share a key. -/
structure Inv (s : Ospf) : Prop where
  room : Room s
  unique : Unique s

section Steps

variable {s s' : Ospf}

theorem room_receive {pkt : UpdatePacket} {desc : PacketDesc} (room : Room s)
    (sized : ∀ lsah ∈ pkt.lsas, sizeofHeader ≤ (lsaHeader lsah).length.toNat) :
    Room (s.restore (lsupdateRx s.router pkt desc).1) := by
  intro slot
  exact list_restore (J := fun list => ∀ l ∈ list, sizeofHeader ≤ l.bytes.length)
    (fun _ _ lsah hlsah => room_install (sized lsah hlsah)) slot (room slot)

theorem room_lsadbAdd {lsa : OspfLsa} (room : Room s) (newborn : Newborn lsa)
    (areaId : BitVec 32) : Room (lsadbAdd s areaId lsa) := by
  intro slot l hl
  rcases list_lsadbAdd s areaId lsa slot with same | ⟨_, added⟩
  · exact room slot l (same ▸ hl)
  · rcases List.mem_cons.mp (added ▸ hl) with rfl | old
    · exact newborn.2.2
    · exact room slot l old

theorem Inv.receive {pkt : UpdatePacket} {desc : PacketDesc} (inv : Inv s)
    (sized : ∀ lsah ∈ pkt.lsas, sizeofHeader ≤ (lsaHeader lsah).length.toNat) :
    Inv (s.restore (lsupdateRx s.router pkt desc).1) where
  room := room_receive inv.room sized
  unique slot := list_restore (J := fun list => (list.map OspfLsa.key).Nodup)
    (fun _ _ lsah hlsah => nodup_install (sized lsah hlsah)) slot (inv.unique slot)

theorem Inv.timeout {fuel : Nat} (inv : Inv s) (ended : lsadbTimeout fuel s = some s') :
    Inv s' := by
  have walks := walks_lsadbTimeout inv.room ended
  refine ⟨walks.room inv.room, fun slot => ?_⟩
  refine (inv.unique slot).sublist ((walks.pass slot).map_sublist ?_)
  rintro a b (⟨_, outcome⟩ | ⟨_, same⟩)
  · exact outcome.key
  · cases same
    rfl

theorem Inv.sublists (inv : Inv s) (less : ∀ slot, (s'.list slot).Sublist (s.list slot)) :
    Inv s' where
  room slot l hl := inv.room slot l ((less slot).subset hl)
  unique slot := (inv.unique slot).sublist ((less slot).map _)

theorem sublist_unlink (s : Ospf) (areaId : BitVec 32) (key : LsaKey) (slot : Option (BitVec 32)) :
    ((unlink s areaId key).list slot).Sublist (s.list slot) := by
  rw [list_unlink]
  split
  · exact List.eraseP_sublist
  · exact List.Sublist.refl _

theorem sublist_replaced (s : Ospf) (areaId : BitVec 32) (key : LsaKey)
    (slot : Option (BitVec 32)) :
    ((if (ownCopy s areaId key).isSome then unlink s areaId key else s).list slot).Sublist
      (s.list slot) := by
  split
  · exact sublist_unlink s _ _ slot
  · exact List.Sublist.refl _

theorem absent_unlinked {areaId : BitVec 32} {key : LsaKey} (inv : Inv s)
    (own : ∀ found, lsadbFind s areaId key = some found → found.selfOriginated = true) :
    key ∉ ((if (ownCopy s areaId key).isSome then unlink s areaId key else s).list
      (slotOf areaId key.type)).map OspfLsa.key := by
  split
  · rw [list_unlink, if_pos rfl, keys_lsaListRemove]
    exact (inv.unique _).not_mem_erase
  · rename_i none
    refine not_mem_keys ?_
    change lsadbFind s areaId key = Option.none
    cases hfind : lsadbFind s areaId key with
    | none => rfl
    | some found => simp [ownCopy, hfind, own found hfind] at none

theorem Inv.originate (inv : Inv s) (cfg : Settings) (origin : Origin)
    (clear : Clear s (.originate cfg origin)) : Inv (originate cfg s origin) := by
  have called := called_call (s := s) cfg origin
  unfold Origination.originate
  generalize origin.call cfg s = r at called ⊢
  cases called with
  | kept lists => exact inv.sublists (fun slot => lists ▸ List.Sublist.refl _)
  | dropped lists => exact inv.sublists (fun slot => lists ▸ sublist_unlink s _ _ slot)
  | @made s' lsa admitted lists keyed newborn =>
    have before : Inv s' := inv.sublists (fun slot => lists ▸ sublist_replaced s _ _ slot)
    have type : lsa.header.type = (origin.key cfg s).type := congrArg LsaKey.type keyed
    have absent := absent_unlinked inv (clear admitted)
    rw [← lists, ← type, ← keyed] at absent
    dsimp only [Option.elim_some]
    refine ⟨room_lsadbAdd before.room newborn _, fun slot => ?_⟩
    rcases list_lsadbAdd s' origin.areaId lsa slot with same | ⟨rfl, added⟩
    · rw [same]
      exact before.unique slot
    · rw [added, List.map_cons]
      exact List.nodup_cons.mpr ⟨absent, before.unique _⟩

theorem sublist_lsadbRemove (s : Ospf) (slot : Option (BitVec 32)) (i : Nat)
    (other : Option (BitVec 32)) :
    ((lsadbRemove s slot i).list other).Sublist (s.list other) := by
  cases slot with
  | none =>
    cases other with
    | none => exact List.eraseIdx_sublist _ _
    | some id => exact List.Sublist.refl _
  | some areaId =>
    rw [lsadbRemove, list_modifyList s areaId (·.eraseIdx i)]
    split
    · exact List.eraseIdx_sublist _ _
    · exact List.Sublist.refl _

theorem step_keeps {event : Event} (inv : Inv s) (clear : Clear s event) (step : Step s event s') :
    Inv s' := by
  cases event with
  | receive pkt desc =>
    cases step
    exact inv.receive clear
  | timeout =>
    obtain ⟨fuel, ended⟩ := step
    exact inv.timeout ended
  | originate cfg origin =>
    cases step
    exact inv.originate cfg origin clear
  | remove slot i =>
    cases step
    exact inv.sublists (sublist_lsadbRemove s slot i)
  | networks areaId networks =>
    cases step
    exact inv.sublists fun slot => (list_setNetworks s areaId networks slot) ▸ List.Sublist.refl _
  | removeArea areaId =>
    cases step
    exact inv.sublists (sublist_removeArea s areaId)

end Steps

/-- Received advertisements announce at least their header. -/
def Sized (_ : Ospf) : Event → Prop
  | .receive pkt _ => ∀ lsah ∈ pkt.lsas, sizeofHeader ≤ (lsaHeader lsah).length.toNat
  | _ => True

/-- Whatever the copies under a key are, only the first one carries the flag. -/
structure Fronted (s : Ospf) : Prop where
  room : Room s
  first : ∀ slot, OwnFirst OspfLsa.key OspfLsa.selfOriginated (s.list slot)

section Fronted

variable {s s' : Ospf} {list : List OspfLsa}

theorem first_install {net : Network} {desc : PacketDesc} {lsah : Memory}
    (sized : sizeofHeader ≤ (lsaHeader lsah).length.toNat)
    (first : OwnFirst OspfLsa.key OspfLsa.selfOriginated list) :
    OwnFirst OspfLsa.key OspfLsa.selfOriginated (installLsa net desc list lsah) := by
  have keyed : (receivedLsa net lsah).key = (lsaHeader lsah).key :=
    congrArg LsaHeader.key (header_receivedLsa net sized)
  have updated : ∀ f : OspfLsa → OspfLsa,
      (∀ l, lsaListFind list (lsaHeader lsah).key = some l →
        ((f l).key, (f l).selfOriginated) = (l.key, l.selfOriginated)) →
      OwnFirst OspfLsa.key OspfLsa.selfOriginated
        (lsaListUpdate list (lsaHeader lsah).key f) := by
    intro f kept
    refine first.of_map_sublist ?_
    rw [map_lsaListUpdate kept]
  have outcome := installs_installLsa net desc list lsah
  generalize installLsa net desc list lsah = list' at outcome ⊢
  cases outcome with
  | keep => exact first
  | add absent _ _ =>
    refine List.pairwise_cons.mpr ⟨?_, first⟩
    intro b member same
    have listed : b.key ∈ list.map OspfLsa.key := List.mem_map_of_mem member
    rw [← same, keyed] at listed
    exact absurd listed (not_mem_keys absent)
  | age _ => exact updated _ (fun l _ => by rw [OspfLsa.key_setAge]; rfl)
  | note _ => exact updated _ (fun l _ => rfl)
  | replace present foreign _ =>
    refine updated _ (fun l again => ?_)
    obtain rfl := Option.some.inj (present.symm.trans again)
    have flag := Bool.eq_false_iff.mpr foreign
    rw [keyed, lsaListFind_key again, flag]
    rfl

theorem Fronted.sublists (fronted : Fronted s)
    (less : ∀ slot, (s'.list slot).Sublist (s.list slot)) : Fronted s' where
  room slot l hl := fronted.room slot l ((less slot).subset hl)
  first slot := List.Pairwise.sublist (less slot) (fronted.first slot)

theorem Fronted.originate (fronted : Fronted s) (cfg : Settings) (origin : Origin) :
    Fronted (originate cfg s origin) := by
  have called := called_call (s := s) cfg origin
  unfold Origination.originate
  generalize origin.call cfg s = r at called ⊢
  cases called with
  | kept lists => exact fronted.sublists (fun slot => lists ▸ List.Sublist.refl _)
  | dropped lists => exact fronted.sublists (fun slot => lists ▸ sublist_unlink s _ _ slot)
  | @made s' lsa _ lists keyed newborn =>
    have type : lsa.header.type = (origin.key cfg s).type := congrArg LsaKey.type keyed
    have dropped : s'.list (slotOf origin.areaId (origin.key cfg s).type) =
        OwnedList.drop OspfLsa.key OspfLsa.selfOriginated
          (s.list (slotOf origin.areaId (origin.key cfg s).type)) (origin.key cfg s) := by
      rw [lists, OwnedList.drop]
      split
      · rename_i there
        rw [list_unlink, if_pos rfl]
        exact (if_pos there).symm
      · rename_i absent
        exact (if_neg absent).symm
    have before : Fronted s' := fronted.sublists (fun slot => lists ▸ sublist_replaced s _ _ slot)
    dsimp only [Option.elim_some]
    refine ⟨room_lsadbAdd before.room newborn _, fun slot => ?_⟩
    rcases list_lsadbAdd s' origin.areaId lsa slot with same | ⟨rfl, added⟩
    · rw [same]
      exact before.first slot
    · rw [added, type, dropped, ← keyed]
      exact (fronted.first _).put lsa

theorem Outcome.flag {routerId : BitVec 32} {flooded : OspfLsa → Prop} {l l' : OspfLsa}
    (outcome : Outcome routerId flooded l (some l')) : l'.selfOriginated = l.selfOriginated := by
  cases outcome with
  | own own own' => exact own'.trans own.symm
  | older foreign foreign' => exact foreign'.trans foreign.symm

theorem step_fronted {event : Event} (fronted : Fronted s) (sized : Sized s event)
    (step : Step s event s') : Fronted s' := by
  cases event with
  | receive pkt desc =>
    cases step
    refine ⟨room_receive fronted.room sized, fun slot => ?_⟩
    exact list_restore (J := OwnFirst OspfLsa.key OspfLsa.selfOriginated)
      (fun _ _ lsah hlsah => first_install (sized lsah hlsah)) slot (fronted.first slot)
  | timeout =>
    obtain ⟨fuel, ended⟩ := step
    have walks := walks_lsadbTimeout fronted.room ended
    refine ⟨walks.room fronted.room, fun slot => ?_⟩
    refine (fronted.first slot).of_map_sublist ((walks.pass slot).map_sublist ?_)
    rintro a b (⟨_, outcome⟩ | ⟨_, same⟩)
    · rw [outcome.key, Outcome.flag outcome]
    · cases same
      rfl
  | originate cfg origin =>
    cases step
    exact fronted.originate cfg origin
  | remove slot i =>
    cases step
    exact fronted.sublists (sublist_lsadbRemove s slot i)
  | networks areaId networks =>
    cases step
    exact fronted.sublists fun slot =>
      (list_setNetworks s areaId networks slot) ▸ List.Sublist.refl _
  | removeArea areaId =>
    cases step
    exact fronted.sublists (sublist_removeArea s areaId)

theorem fronted_run {events : List Event} (empty : ∀ slot, s.list slot = [])
    (run : Run Sized s events s') : Fronted s' := by
  induction run with
  | nil =>
    refine ⟨fun slot l hl => ?_, fun slot => ?_⟩
    · rw [empty slot] at hl
      cases hl
    · rw [empty slot]
      exact List.Pairwise.nil
  | snoc _ sized step ih => exact step_fronted ih sized step

end Fronted

/-- A database that starts empty holds one entry for each key, as long as no origination
meets a copy of its advertisement without the flag. -/
theorem one_entry_per_key {s s' : Ospf} {events : List Event} (empty : ∀ slot, s.list slot = [])
    (run : Run Clear s events s') (slot : Option (BitVec 32)) :
    ((s'.list slot).map OspfLsa.key).Nodup := by
  have inv : Inv s' := by
    induction run with
    | nil =>
      refine ⟨fun slot l hl => ?_, fun slot => ?_⟩
      · rw [empty slot] at hl
        cases hl
      · rw [empty slot]
        exact List.nodup_nil
    | snoc _ clear step ih => exact step_keeps ih clear step
  exact inv.unique slot

/-- A border router of the areas 0 and 1 that has just started. -/
def restarted : Ospf where
  areas := ⟨[(0, ⟨false, [], [designated]⟩),
    (1, ⟨false, [], [{ designated with ip := 0x0a010001, mask := 0xffff0000 }]⟩)], by decide⟩
  extlist := []
  ospfRouterId := 0x01010101
  seqNumber := initialSequenceNumber
  lsaFlooded := 0
  floods := []
  tx := []

def border : Settings where
  isAbr := true
  isAsbr := false
  routerId := fun _ => 0x01010101
  noSummary := fun _ => false
  netRouterId := fun _ => 0x01010101
  netCost := fun _ => 10
  nbRouterId := fun _ _ => 0x02020202
  lsaCost := fun _ => 0

/-- The network 10.1.0.0/16 of the area 1 is summarised in the area 0. -/
def summarised : Event := .originate border (.sumnet 0 ⟨0x0a010000, 0xffff0000, 10⟩)

/-- A neighbor returns the summary of an earlier incarnation. -/
def returned : Event := .receive (summaryUpdate 5) fromNeighbor

theorem restarted_list (slot : Option (BitVec 32)) : restarted.list slot = [] := by
  cases slot with
  | none => rfl
  | some id =>
    by_cases zero : id = 0
    · rw [zero]
      rfl
    · by_cases one : id = 1
      · rw [one]
        rfl
      · have first : (id == (0 : BitVec 32)) = false := beq_false_of_ne zero
        have second : (id == (1 : BitVec 32)) = false := beq_false_of_ne one
        simp only [Ospf.list, Areas.find, restarted, List.lookup_cons, first, second]
        rfl

/-- The copy of the earlier incarnation is not replaced, and the key is there twice. -/
theorem earlier_incarnation_duplicates :
    (∀ slot, restarted.list slot = []) ∧
      ∃ s', Run (fun _ _ => True) restarted [returned, summarised] s' ∧
        (s'.list (some 0)).map OspfLsa.key =
          [⟨3, 0x0a010000, 0x01010101⟩, ⟨3, 0x0a010000, 0x01010101⟩] ∧
        ¬ ((s'.list (some 0)).map OspfLsa.key).Nodup := by
  have first : Run (fun _ _ => True) restarted [returned] _ := .snoc .nil trivial rfl
  have second : Run (fun _ _ => True) restarted [returned, summarised] _ := first.snoc trivial rfl
  refine ⟨restarted_list, _, second, by decide +kernel, by decide +kernel⟩

/-- Both copies of the summary are listed, the flagged one first. -/
theorem fronted_run_restarted :
    ∃ s', Run Sized restarted [returned, summarised] s' ∧ (s'.list (some 0)).length = 2 ∧
      Fronted s' := by
  have each : ∀ lsah ∈ (summaryUpdate 5).lsas, sizeofHeader ≤ (lsaHeader lsah).length.toNat := by
    decide
  have first : Run Sized restarted [returned] _ := .snoc .nil each rfl
  have second : Run Sized restarted [returned, summarised] _ := first.snoc trivial rfl
  exact ⟨_, second, by decide +kernel, fronted_run restarted_list second⟩

/-- The other order: the returned copy meets the flagged one. -/
theorem one_entry_per_key_restarted :
    ∃ s', Run Clear restarted [summarised, returned] s' ∧ (s'.list (some 0)).length = 1 ∧
      ((s'.list (some 0)).map OspfLsa.key).Nodup := by
  have clear : Clear restarted summarised := by
    intro _ found hfound
    have none : lsadbFind restarted 0 ⟨3, 0x0a010000, 0x01010101⟩ = none := by decide
    cases none.symm.trans hfound
  have first : Run Clear restarted [summarised] _ := .snoc .nil clear rfl
  have sized : Clear (originate border restarted (.sumnet 0 ⟨0x0a010000, 0xffff0000, 10⟩))
      returned := by
    intro lsah hlsah
    have each : ∀ lsah ∈ (summaryUpdate 5).lsas, sizeofHeader ≤ (lsaHeader lsah).length.toNat := by
      decide
    exact each lsah hlsah
  have second : Run Clear restarted [summarised, returned] _ := first.snoc sized rfl
  exact ⟨_, second, by decide +kernel, one_entry_per_key restarted_list second _⟩

end Origination
