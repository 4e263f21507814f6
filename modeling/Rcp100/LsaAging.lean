import Mathlib.Algebra.Order.BigOperators.Group.List
import Mathlib.Algebra.Order.Group.Nat
import Rcp100.Flooding
import Rcp100.LsaBounds
import Rcp100.LsdbFreshness
import Rcp100.ListPass

/-!
# Aging of the link state database

`lsadbTimeout` runs once a second: it walks the lists of every area that has a
network, and the external list, and makes every advertisement one second older.
Advertisements of this router are renewed, those of others are flooded with
`MaxAge` and removed. Traps and log lines are left out.
-/

namespace LsaAging

open LsaFormat LsUpdate Flooding LsdbFreshness ListPass
open LsaBounds (length_setAge mem_lsaListUpdate)

/-- The area list: `areaAdd` refuses an identifier that is there. -/
structure Areas where
  entries : List (BitVec 32 × Area)
  nodup : (entries.map Prod.fst).Nodup

namespace Areas

def ids (areas : Areas) : List (BitVec 32) := areas.entries.map Prod.fst

/-- `areaFind`. -/
def find (areas : Areas) (id : BitVec 32) : Option Area := areas.entries.lookup id

/-- Every area is changed in place. -/
def mapAreas (f : BitVec 32 → Area → Area) (areas : Areas) : Areas where
  entries := areas.entries.map (fun p => (p.1, f p.1 p.2))
  nodup := by
    rw [List.map_map]
    exact areas.nodup

def modify (areas : Areas) (id : BitVec 32) (f : Area → Area) : Areas :=
  areas.mapAreas (fun i area => if i = id then f area else area)

/-- `areaRemove`. -/
def remove (areas : Areas) (id : BitVec 32) : Areas where
  entries := areas.entries.filter (fun p => p.1 ≠ id)
  nodup := areas.nodup.sublist (List.Sublist.map _ List.filter_sublist)

/-- `areaAdd`. -/
def add (areas : Areas) (id : BitVec 32) (area : Area) : Areas :=
  if absent : id ∈ areas.ids then areas
  else ⟨(id, area) :: areas.entries, List.nodup_cons.mpr ⟨absent, areas.nodup⟩⟩

end Areas

/-- The state of the process: the areas, the external list, the configured router
identifier, and the static counters of `lsa.c`. `floods` holds the calls of
`lsadbFlood` in the current second and `tx` the packets sent in it. -/
structure Ospf where
  areas : Areas
  extlist : List OspfLsa
  ospfRouterId : BitVec 32
  seqNumber : BitVec 32
  lsaFlooded : Nat
  floods : List (OspfLsa × BitVec 32)
  tx : List TxPacket

/-- `LSRefreshTime`. -/
def lsRefreshTime : BitVec 16 := 1800

/-- `OSPF_TIMEOUT_FLOOD_MAX`. -/
def timeoutFloodMax : Nat := 1000

/-- Bytes are written into the block of an advertisement; what lies outside is lost. -/
def writeBytes (bytes : List (BitVec 8)) (o : Nat) : List (BitVec 8) → List (BitVec 8)
  | [] => bytes
  | b :: rest => writeBytes (bytes.set o b) (o+1) rest

/-- `fletcher16(msg, sz, 15)`, which inserts the checksum: `msg` is the header less
its age, so that the checksum field is at the offsets 14 and 15 of `msg`. -/
def insertChecksum (bytes : List (BitVec 8)) : List (BitVec 8) :=
  let cleared := writeBytes bytes 16 [0, 0]
  let memory : Memory := fun i => cleared.getD i 0
  let mlen : Int := ((lsaHeader memory).length.toNat : Int) - 2
  let c := fletcherLoop ((memory.offset 2).bytes mlen.toNat) 4102 0 0
  let r := ((mlen - 15) * c.1 - c.2).tmod 255
  let o := if r ≤ 0 then r + 255 else r
  let p := 510 - (c.1 : Int) - o
  writeBytes cleared 16 [BitVec.ofInt 8 o, BitVec.ofInt 8 (if p > 255 then p - 255 else p)]

/-- The header of a renewed advertisement: age 0, the global sequence number, and a
new checksum. -/
def lsaRenewed (seqNumber : BitVec 32) (lsa : OspfLsa) : OspfLsa :=
  let aged := lsa.setAge 0
  let numbered := writeBytes aged.bytes 12
    [seqNumber.extractLsb' 24 8, seqNumber.extractLsb' 16 8, seqNumber.extractLsb' 8 8,
      seqNumber.extractLsb' 0 8]
  { aged with bytes := insertChecksum numbered }

/-- `lsa_renew`; it is called for advertisements of this router only. -/
def lsaRenew (s : Ospf) (lsa : OspfLsa) : Ospf × OspfLsa :=
  ({ s with seqNumber := lsaIncrementSeq s.seqNumber }, lsaRenewed s.seqNumber lsa)

/-- The test of `tx_area` before `lsa_tx_network` is called. -/
def txPasses (net : Network) (lsa : OspfLsa) : Bool :=
  (net.state = .drOther || net.state = .backup || net.state = .dr) &&
    (lsa.selfOriginated ||
      (lsa.header.age = maxAge && (net.state = .backup || net.state = .dr)) ||
      !(net.state = .drOther && net.ip = lsa.netIp))

/-- The loop of `tx_area` over the networks of an area. -/
def txNetworks (lsa : OspfLsa) : Nat → List Network → Nat × List Network × List TxPacket
  | flooded, [] => (flooded, [], [])
  | flooded, net :: rest =>
    let r := if txPasses net lsa then lsaTxNetwork flooded net lsa else (flooded, net, [])
    let t := txNetworks lsa r.1 rest
    (t.1, r.2.1 :: t.2.1, r.2.2 ++ t.2.2)

def txArea (lsa : OspfLsa) (s : Ospf) (areaId : BitVec 32) : Ospf :=
  match s.areas.find areaId with
  | none => s
  | some area =>
    let r := txNetworks lsa s.lsaFlooded area.network
    { s with
      areas := s.areas.modify areaId (fun area => { area with network := r.2.1 })
      lsaFlooded := r.1
      tx := s.tx ++ r.2.2 }

/-- External advertisements go to all areas that are not stub areas. -/
def txExternal (lsa : OspfLsa) (s : Ospf) (areaId : BitVec 32) : Ospf :=
  if (s.areas.find areaId).any (fun area => !area.stub) then txArea lsa s areaId else s

def lsadbFlood (s : Ospf) (lsa : OspfLsa) (areaId : BitVec 32) : Ospf :=
  let s := { s with floods := s.floods ++ [(lsa, areaId)] }
  if lsa.header.type ≠ 5 then txArea lsa s areaId
  else s.areas.ids.foldl (txExternal lsa) s

/-- `lsa_renew` followed by `lsadbFlood`. -/
def renewAndFlood (s : Ospf) (lsa : OspfLsa) (areaId : BitVec 32) : Ospf × Option OspfLsa :=
  let r := lsaRenew s lsa
  (lsadbFlood r.1 r.2 areaId, some r.2)

/-- The advertisement is flooded with `MaxAge` and removed from its list. -/
def floodAndRemove (s : Ospf) (lsa : OspfLsa) (areaId : BitVec 32) : Ospf × Option OspfLsa :=
  (lsadbFlood s (lsa.setAge maxAge) areaId, none)

/-- The global sequence number after another router reported a higher one. -/
def bumpSeq (s : Ospf) (seq : BitVec 32) : Ospf :=
  if s.seqNumber < seq then { s with seqNumber := lsaIncrementSeq seq } else s

/-- One pass of the loop of `lsadbAgeAreaType`: the advertisement afterwards, or
`none` when it was removed. -/
def ageLsa (areaId : BitVec 32) (s : Ospf) (lsa : OspfLsa) : Ospf × Option OspfLsa :=
  let age := lsa.header.age + 1
  if maxAge ≤ age then
    if lsa.selfOriginated then renewAndFlood s lsa areaId else floodAndRemove s lsa areaId
  else
    let lsa := lsa.setAge age
    if lsa.selfOriginated ∧ 0 < lsa.oldCnt then
      let lsa := { lsa with oldCnt := lsa.oldCnt - 1 }
      if lsa.oldCnt = 0 then renewAndFlood (bumpSeq s lsa.oldSelfOriginatedSeq) lsa areaId
      else (s, some lsa)
    else if lsa.flood = 1 then (s, some { lsa with flood := 2 })
    else if 2 ≤ lsa.flood then
      if s.lsaFlooded < timeoutFloodMax then
        (lsadbFlood s lsa areaId, some { lsa with flood := 0 })
      else (s, some lsa)
    else if lsa.selfOriginated ∧ lsRefreshTime < lsa.header.age then renewAndFlood s lsa areaId
    else if ¬ lsa.selfOriginated ∧ lsa.header.advRouter = s.ospfRouterId then
      floodAndRemove s lsa areaId
    else (s, some lsa)

/-- The loop over the elements of `list` that belong to the walked list. -/
def ageList (areaId : BitVec 32) (walked : OspfLsa → Bool) :
    Ospf → List OspfLsa → Ospf × List OspfLsa
  | s, [] => (s, [])
  | s, lsa :: rest =>
    if walked lsa then
      let r := ageLsa areaId s lsa
      let t := ageList areaId walked r.1 rest
      (t.1, r.2.toList ++ t.2)
    else
      let t := ageList areaId walked s rest
      (t.1, lsa :: t.2)

/-- The index in `area->list` that a type belongs to. -/
def listIndex (type : BitVec 8) : Nat := if type.toNat < 5 then type.toNat else 0

def lsadbAgeAreaType (s : Ospf) (areaId : BitVec 32) (type : Nat) : Ospf :=
  if type = 5 then
    let r := ageList areaId (fun _ => true) s s.extlist
    { r.1 with extlist := r.2 }
  else
    match s.areas.find areaId with
    | none => s
    | some area =>
      let r := ageList areaId (fun lsa => listIndex lsa.header.type = type) s area.list
      { r.1 with areas := r.1.areas.modify areaId (fun area => { area with list := r.2 }) }

/-- The types 0 to 4 of an area; an area without a network is passed over. -/
def ageArea (s : Ospf) (areaId : BitVec 32) : Ospf :=
  if (s.areas.find areaId).any (fun area => !area.network.isEmpty) then
    (List.range 5).foldl (fun s type => lsadbAgeAreaType s areaId type) s
  else s

/-- The network after `flush_flooding`, and its packets. -/
def flushed (fuel : Nat) (net : Network) : Network × List TxPacket :=
  (flushFlooding fuel net).getD (net, [])

/-- `flush_flooding` on all networks; `none` while a queue is not drained. -/
def flushAll (fuel : Nat) (s : Ospf) : Option Ospf :=
  if s.areas.entries.all
      (fun p => p.2.network.all (fun net => (flushFlooding fuel net).isSome)) then
    some { s with
      areas := s.areas.mapAreas (fun _ area =>
        { area with network := area.network.map (fun net => (flushed fuel net).1) })
      tx := s.tx ++ s.areas.entries.flatMap
        (fun p => p.2.network.flatMap (fun net => (flushed fuel net).2)) }
  else none

/-- The loops of `lsadbTimeout` over the areas and the external list. -/
def ageAll (s : Ospf) : Ospf :=
  lsadbAgeAreaType (s.areas.ids.foldl ageArea s) 0 5

def lsadbTimeout (fuel : Nat) (s : Ospf) : Option Ospf := do
  let drained ← flushAll fuel { s with floods := [], tx := [] }
  flushAll fuel (ageAll { drained with lsaFlooded := 0 })

/-- The list of an area, or the external list for `none`. -/
def Ospf.list (s : Ospf) : Option (BitVec 32) → List OspfLsa
  | none => s.extlist
  | some areaId => (s.areas.find areaId).elim [] (·.list)

/-- The area has a network. -/
def Ospf.linked (s : Ospf) (areaId : BitVec 32) : Prop :=
  ∃ area, s.areas.find areaId = some area ∧ area.network ≠ []

/-- An advertisement under this router's identifier that it did not originate, and
that is not due to be flooded. -/
def leftover (routerId : BitVec 32) (lsa : OspfLsa) : Prop :=
  lsa.flood = 0 ∧ lsa.header.advRouter = routerId

/-- What one second does to an advertisement, as the aging of the database is meant. -/
inductive OneOlder (routerId : BitVec 32) (flooded : OspfLsa → Prop) (l : OspfLsa) :
    Option OspfLsa → Prop where
  | own {l' : OspfLsa} (own : l.selfOriginated = true) (own' : l'.selfOriginated = true)
    (key : l'.key = l.key) (young : l'.header.age < maxAge) : OneOlder routerId flooded l (some l')
  | older {l' : OspfLsa} (foreign : l.selfOriginated = false) (foreign' : l'.selfOriginated = false)
    (older : l'.header.age.toNat = l.header.age.toNat + 1) (young : l'.header.age < maxAge)
    (same : l'.bytes = (l.setAge l'.header.age).bytes) : OneOlder routerId flooded l (some l')
  | gone (foreign : l.selfOriginated = false)
    (due : maxAge.toNat ≤ l.header.age.toNat + 1 ∨ leftover routerId l)
    (aged : (l.setAge maxAge).header.age = maxAge) (sent : flooded (l.setAge maxAge)) :
    OneOlder routerId flooded l none

/-- Every list of the database is one second older: advertisements of this router
stay and are younger than `MaxAge`, those of others are older by one, and those that
reach `MaxAge` were flooded with it and are gone. -/
def Aged (s s' : Ospf) : Prop :=
  ∀ slot, Pass (OneOlder s.ospfRouterId (fun l => (l, slot.getD 0) ∈ s'.floods))
    (s.list slot) (s'.list slot)

/-- No age of an advertisement of another router is the last one of 16 bits. -/
def AgesCount (s : Ospf) : Prop :=
  ∀ slot, ∀ l ∈ s.list slot, l.selfOriginated = false → l.header.age = 0xffff →
    leftover s.ospfRouterId l

/-- The seconds pass over the areas without networks: these have no advertisements but own ones
below `MaxAge`. -/
def PassedOver (s : Ospf) : Prop :=
  ∀ id, ¬ s.linked id → ∀ l ∈ s.list (some id), l.selfOriginated = true ∧ l.header.age < maxAge

/-- The database is aged as it is meant by the next second. -/
structure Timely (s : Ospf) : Prop where
  counts : AgesCount s
  passed : PassedOver s

def QueueFits (net : Network) : Prop := ∀ l ∈ net.floodingAllspfrouters, szlsa l ≤ maxPayload

/-- Every stored and every queued advertisement fits a packet. -/
structure Fits (s : Ospf) : Prop where
  stored : ∀ slot, ∀ l ∈ s.list slot, szlsa l ≤ maxPayload
  queued : ∀ p ∈ s.areas.entries, ∀ net ∈ p.2.network, QueueFits net

/-- An advertisement of this router, as it is originated. -/
structure Originated where
  lsa : OspfLsa
  own : lsa.selfOriginated = true
  age : lsa.header.age = 0
  sized : sizeofHeader ≤ lsa.bytes.length

/-- `lsadbAdd`. -/
def lsadbAdd (s : Ospf) (areaId : BitVec 32) (lsa : OspfLsa) : Ospf :=
  if lsa.header.type = 5 then { s with extlist := lsaListAdd s.extlist lsa }
  else { s with
    areas := s.areas.modify areaId (fun area => { area with list := lsaListAdd area.list lsa }) }

/-- `lsadbRemove` of the element at a position. -/
def lsadbRemove (s : Ospf) (slot : Option (BitVec 32)) (i : Nat) : Ospf :=
  match slot with
  | none => { s with extlist := s.extlist.eraseIdx i }
  | some areaId => { s with
    areas := s.areas.modify areaId (fun area => { area with list := area.list.eraseIdx i }) }

/-- The router as `lsupdateRx` sees it. -/
def Ospf.router (s : Ospf) : Router := ⟨s.areas.find, s.extlist⟩

def Ospf.restore (s : Ospf) (r : Router) : Ospf :=
  { s with
    areas := s.areas.mapAreas (fun id area => (r.area id).getD area)
    extlist := r.extlist }

/-- The networks of an area change: their states and neighbors, or which there are. Its lists
stay, also when an interface goes down or changes its address and the last network goes. -/
def setNetworks (s : Ospf) (areaId : BitVec 32) (networks : List Network) : Ospf :=
  { s with
    areas := (s.areas.add areaId ⟨false, [], networks⟩).modify areaId
      (fun area => { area with network := networks }) }

/-- `lsadbRemoveArea` and `areaRemove`: the area is taken out of the configuration. -/
def removeArea (s : Ospf) (areaId : BitVec 32) : Ospf := { s with areas := s.areas.remove areaId }

/-- What happens to the database: packets, seconds, and what the other parts of the
process do. -/
inductive Op where
  | receive (pkt : UpdatePacket) (desc : PacketDesc)
  | timeout
  | originate (areaId : BitVec 32) (lsa : Originated)
  | remove (slot : Option (BitVec 32)) (i : Nat)
  | networks (areaId : BitVec 32) (networks : List Network)
  | removeArea (areaId : BitVec 32)

def Step (s : Ospf) : Op → Ospf → Prop
  | .receive pkt desc, s' => s' = s.restore (lsupdateRx s.router pkt desc).1
  | .timeout, s' => ∃ fuel, lsadbTimeout fuel s = some s'
  | .originate areaId lsa, s' => s' = lsadbAdd s areaId lsa.lsa
  | .remove slot i, s' => s' = lsadbRemove s slot i
  | .networks areaId networks, s' => s' = setNetworks s areaId networks
  | .removeArea areaId, s' => s' = removeArea s areaId

/-- The advertisements of a received packet have room for a header. -/
def Sized : Op → Prop
  | .receive pkt _ => ∀ lsah ∈ pkt.lsas, sizeofHeader ≤ (lsaHeader lsah).length.toNat
  | _ => True

/-- The states of a process that starts with an empty database. -/
inductive Reached : Ospf → Prop where
  | start {s : Ospf} (empty : ∀ slot, s.list slot = []) : Reached s
  | step {s s' : Ospf} {op : Op} (reached : Reached s) (sized : Sized op) (step : Step s op s') :
    Reached s'

/-- The database finds an advertisement of another router with this sequence number. -/
def Holds (s : Ospf) (slot : Option (BitVec 32)) (k : LsaKey) (seq : BitVec 32) : Prop :=
  ∃ l, lsaListFind (s.list slot) k = some l ∧ l.selfOriginated = false ∧ l.header.seq = seq

/-- The advertisement was in the database all the time, while `n` seconds passed. -/
inductive Stays (slot : Option (BitVec 32)) (k : LsaKey) (seq : BitVec 32) : Nat → Ospf → Prop where
  | start {s : Ospf} (reached : Reached s) (held : Holds s slot k seq) : Stays slot k seq 0 s
  | other {n : Nat} {s s' : Ospf} {op : Op} (before : Stays slot k seq n s) (sized : Sized op)
    (step : Step s op s') (quiet : op ≠ .timeout) (held : Holds s' slot k seq) :
    Stays slot k seq n s'
  | second {n : Nat} {s s' : Ospf} (before : Stays slot k seq n s) (step : Step s .timeout s')
    (timely : Timely s) (held : Holds s' slot k seq) : Stays slot k seq (n+1) s'

theorem Areas.find_mapAreas (f : BitVec 32 → Area → Area) (areas : Areas) (id : BitVec 32) :
    (areas.mapAreas f).find id = (areas.find id).map (f id) := by
  obtain ⟨entries, nodup⟩ := areas
  simp only [Areas.find, Areas.mapAreas]
  clear nodup
  induction entries with
  | nil => rfl
  | cons p rest ih =>
    obtain ⟨i, area⟩ := p
    simp only [List.map_cons, List.lookup_cons]
    by_cases here : id = i
    · simp [here]
    · simp [beq_false_of_ne here, ih]

theorem Areas.find_modify (areas : Areas) (id : BitVec 32) (f : Area → Area) (i : BitVec 32) :
    (areas.modify id f).find i = if i = id then (areas.find i).map f else areas.find i := by
  rw [Areas.modify, Areas.find_mapAreas]
  by_cases here : i = id
  · simp [here]
  · simp [here]

theorem Areas.ids_mapAreas (f : BitVec 32 → Area → Area) (areas : Areas) :
    (areas.mapAreas f).ids = areas.ids := by
  simp only [Areas.ids, Areas.mapAreas, List.map_map]
  rfl

theorem Areas.find_isSome (areas : Areas) (id : BitVec 32) :
    (areas.find id).isSome = true ↔ id ∈ areas.ids := by
  simp [Areas.find, Areas.ids]

theorem getD_writeBytes (bytes : List (BitVec 8)) {o i : Nat} (bs : List (BitVec 8))
    (outside : i < o ∨ o + bs.length ≤ i) :
    (writeBytes bytes o bs).getD i 0 = bytes.getD i 0 := by
  induction bs generalizing bytes o with
  | nil => rfl
  | cons b rest ih =>
    simp only [List.length_cons] at outside
    have apart : o ≠ i := by omega
    rw [writeBytes, ih _ (by omega), List.getD_eq_getElem?_getD, List.getD_eq_getElem?_getD,
      List.getElem?_set_ne apart]

theorem length_writeBytes (bytes : List (BitVec 8)) (o : Nat) (bs : List (BitVec 8)) :
    (writeBytes bytes o bs).length = bytes.length := by
  induction bs generalizing bytes o with
  | nil => rfl
  | cons b rest ih => rw [writeBytes, ih, List.length_set]

theorem setAge_setAge (l : OspfLsa) (a b : BitVec 16) : (l.setAge a).setAge b = l.setAge b := by
  simp only [OspfLsa.setAge]
  congr 1
  rw [List.set_comm _ _ (by decide : (1 : Nat) ≠ 0), List.set_set, List.set_set]

theorem memory_lsaRenewed (seq : BitVec 32) (l : OspfLsa) {i : Nat} (apart : 2 ≤ i)
    (outside : i < 12 ∨ 18 ≤ i) : (lsaRenewed seq l).memory i = l.memory i := by
  simp only [lsaRenewed, insertChecksum, OspfLsa.memory]
  rw [getD_writeBytes _ _ (by simp; omega), getD_writeBytes _ _ (by simp; omega),
    getD_writeBytes _ _ (by simp; omega)]
  exact OspfLsa.memory_setAge l 0 apart

theorem age_lsaRenewed (seq : BitVec 32) (l : OspfLsa) : (lsaRenewed seq l).header.age = 0 := by
  have zero : ∀ i < 2, (lsaRenewed seq l).memory i = 0 := by
    intro i hi
    simp only [lsaRenewed, insertChecksum, OspfLsa.memory]
    rw [getD_writeBytes _ _ (by simp; omega), getD_writeBytes _ _ (by simp; omega),
      getD_writeBytes _ _ (by simp; omega)]
    simp only [OspfLsa.setAge, List.getD_eq_getElem?_getD, List.getElem?_set]
    rcases (by omega : i = 0 ∨ i = 1) with rfl | rfl
    · by_cases here : 0 < l.bytes.length
      · simp [here]
      · simp [here]
    · by_cases here : 1 < l.bytes.length
      · simp [here]
      · simp [here]
  simp [OspfLsa.header, lsaHeader, Memory.get16, zero]

theorem key_lsaRenewed (seq : BitVec 32) (l : OspfLsa) : (lsaRenewed seq l).key = l.key := by
  simp [OspfLsa.key, OspfLsa.header, lsaHeader, LsaHeader.key, Memory.get32, Memory.get16,
    memory_lsaRenewed]

theorem length_lsaRenewed (seq : BitVec 32) (l : OspfLsa) :
    (lsaRenewed seq l).bytes.length = l.bytes.length := by
  simp only [lsaRenewed, insertChecksum, length_writeBytes, length_setAge]

theorem szlsa_lsaRenewed (seq : BitVec 32) (l : OspfLsa) : szlsa (lsaRenewed seq l) = szlsa l := by
  simp [szlsa, OspfLsa.header, lsaHeader, Memory.get16, memory_lsaRenewed]

theorem szlsa_setAge (l : OspfLsa) (age : BitVec 16) : szlsa (l.setAge age) = szlsa l := by
  simp [szlsa, OspfLsa.header, lsaHeader, Memory.get16, OspfLsa.memory_setAge]

theorem advRouter_setAge (l : OspfLsa) (age : BitVec 16) :
    (l.setAge age).header.advRouter = l.header.advRouter :=
  congrArg LsaKey.advRouter (OspfLsa.key_setAge l age)

section Frame

variable {s s' s'' : Ospf} {fits wider : Prop}

def QueuesFit (s : Ospf) : Prop := ∀ p ∈ s.areas.entries, ∀ net ∈ p.2.network, QueueFits net

/-- What flooding leaves alone: the lists, which areas have networks, and the calls
made before. The queues stay short enough when what is flooded `fits`. -/
structure Frame (fits : Prop) (s s' : Ospf) : Prop where
  list : ∀ slot, s'.list slot = s.list slot
  linked : ∀ id, s'.linked id ↔ s.linked id
  ids : s'.areas.ids = s.areas.ids
  routerId : s'.ospfRouterId = s.ospfRouterId
  floods : ∀ x ∈ s.floods, x ∈ s'.floods
  queues : fits → QueuesFit s → QueuesFit s'

theorem Frame.refl (fits : Prop) (s : Ospf) : Frame fits s s :=
  ⟨fun _ => rfl, fun _ => Iff.rfl, rfl, rfl, fun _ hx => hx, fun _ short => short⟩

theorem Frame.mono (frame : Frame wider s s') (more : fits → wider) : Frame fits s s' :=
  { frame with queues := fun h => frame.queues (more h) }

theorem Frame.trans (first : Frame fits s s') (second : Frame fits s' s'') :
    Frame fits s s'' where
  list slot := (second.list slot).trans (first.list slot)
  linked id := (second.linked id).trans (first.linked id)
  ids := second.ids.trans first.ids
  routerId := second.routerId.trans first.routerId
  floods x hx := second.floods x (first.floods x hx)
  queues h short := second.queues h (first.queues h short)

theorem Frame.foldl {β : Type} {f : Ospf → β → Ospf} (each : ∀ s x, Frame fits s (f s x))
    (xs : List β) (s : Ospf) : Frame fits s (xs.foldl f s) := by
  induction xs generalizing s with
  | nil => exact Frame.refl fits s
  | cons x xs ih => exact (each s x).trans (ih (f s x))

theorem frame_networks {f : BitVec 32 → Area → Area}
    (list : ∀ id area, (f id area).list = area.list)
    (network : ∀ id area, s.areas.find id = some area →
      ((f id area).network = [] ↔ area.network = []))
    (queues : fits → QueuesFit s → QueuesFit s')
    (areas : s'.areas = s.areas.mapAreas f) (extlist : s'.extlist = s.extlist)
    (routerId : s'.ospfRouterId = s.ospfRouterId) (floods : s'.floods = s.floods) :
    Frame fits s s' where
  list := by
    rintro (_ | id)
    · exact extlist
    · simp only [Ospf.list, areas, Areas.find_mapAreas]
      cases s.areas.find id with
      | none => rfl
      | some area => exact list id area
  linked id := by
    simp only [Ospf.linked, areas, Areas.find_mapAreas]
    cases hfind : s.areas.find id with
    | none => simp
    | some area => simp [network id area hfind]
  ids := by rw [areas, Areas.ids_mapAreas]
  routerId := routerId
  floods x hx := floods ▸ hx
  queues := queues

theorem queueFits_lsaTxNetwork {lsa : OspfLsa} {net : Network} (short : szlsa lsa ≤ maxPayload)
    (fit : QueueFits net) (flooded : Nat) : QueueFits (lsaTxNetwork flooded net lsa).2.1 := by
  by_cases pass : passes net lsa = true
  · have queue := (lsaTxNetwork_queues flooded pass).2.2.1
    intro l hl
    rw [queue] at hl
    split at hl
    · rcases List.mem_cons.mp hl with rfl | before
      · rw [szlsa_eq, wire_copyLsa, ← szlsa_eq]
        exact short
      · exact fit l before
    · exact fit l hl
  · rw [lsaTxNetwork, if_neg pass]
    exact fit

theorem queueFits_txNetworks {lsa : OspfLsa} (short : szlsa lsa ≤ maxPayload) {nets : List Network}
    (fit : ∀ net ∈ nets, QueueFits net) (flooded : Nat) :
    ∀ net ∈ (txNetworks lsa flooded nets).2.1, QueueFits net := by
  induction nets generalizing flooded with
  | nil =>
    intro net hnet
    cases hnet
  | cons first rest ih =>
    intro net hnet
    rcases List.mem_cons.mp hnet with rfl | later
    · split
      · exact queueFits_lsaTxNetwork short (fit first List.mem_cons_self) flooded
      · exact fit first List.mem_cons_self
    · exact ih (fun net h => fit net (List.mem_cons_of_mem _ h)) _ net later

theorem mem_of_find {areas : Areas} {id : BitVec 32} {area : Area}
    (found : areas.find id = some area) : (id, area) ∈ areas.entries := by
  obtain ⟨before, after, hsplit, _⟩ := List.lookup_eq_some_iff.mp found
  rw [hsplit]
  simp

theorem txNetworks_eq_nil (lsa : OspfLsa) (flooded : Nat) (nets : List Network) :
    (txNetworks lsa flooded nets).2.1 = [] ↔ nets = [] := by
  cases nets with
  | nil => simp [txNetworks]
  | cons net rest => simp [txNetworks]

theorem frame_txArea (lsa : OspfLsa) (s : Ospf) (areaId : BitVec 32) :
    Frame (szlsa lsa ≤ maxPayload) s (txArea lsa s areaId) := by
  unfold txArea
  cases hfind : s.areas.find areaId with
  | none => exact Frame.refl _ s
  | some here =>
    refine frame_networks (f := fun id area => if id = areaId then
      { area with network := (txNetworks lsa s.lsaFlooded here.network).2.1 } else area)
      ?_ ?_ ?_ rfl rfl rfl rfl
    · intro id area
      split
      · rfl
      · rfl
    · intro id area found
      split
      · rename_i same
        rw [same, hfind] at found
        cases found
        exact txNetworks_eq_nil lsa _ _
      · exact Iff.rfl
    · rintro short fit p hp net hnet
      obtain ⟨⟨id, area⟩, hq, rfl⟩ := List.mem_map.mp hp
      dsimp only at hnet
      split at hnet
      · exact queueFits_txNetworks short (fit _ (mem_of_find hfind)) _ net hnet
      · exact fit _ hq net hnet

theorem frame_txExternal (lsa : OspfLsa) (s : Ospf) (areaId : BitVec 32) :
    Frame (szlsa lsa ≤ maxPayload) s (txExternal lsa s areaId) := by
  unfold txExternal
  split
  · exact frame_txArea lsa s areaId
  · exact Frame.refl _ s

theorem lsadbFlood_spec (s : Ospf) (lsa : OspfLsa) (areaId : BitVec 32) :
    Frame (szlsa lsa ≤ maxPayload) s (lsadbFlood s lsa areaId) ∧
      (lsa, areaId) ∈ (lsadbFlood s lsa areaId).floods := by
  have recorded : Frame (szlsa lsa ≤ maxPayload) s
      { s with floods := s.floods ++ [(lsa, areaId)] } :=
    ⟨fun _ => rfl, fun _ => Iff.rfl, rfl, rfl, fun x hx => List.mem_append_left _ hx,
      fun _ short => short⟩
  have sent : Frame (szlsa lsa ≤ maxPayload)
      { s with floods := s.floods ++ [(lsa, areaId)] } (lsadbFlood s lsa areaId) := by
    unfold lsadbFlood
    dsimp only
    split
    · exact frame_txArea lsa _ areaId
    · exact Frame.foldl (frame_txExternal lsa) _ _
  exact ⟨recorded.trans sent, sent.floods _ (List.mem_append_right _ List.mem_cons_self)⟩

theorem frame_bumpSeq (s : Ospf) (seq : BitVec 32) : Frame fits s (bumpSeq s seq) := by
  unfold bumpSeq
  split
  · exact ⟨fun _ => rfl, fun _ => Iff.rfl, rfl, rfl, fun _ hx => hx, fun _ short => short⟩
  · exact Frame.refl fits s

theorem frame_renewAndFlood (s : Ospf) (lsa : OspfLsa) (areaId : BitVec 32) :
    Frame (szlsa lsa ≤ maxPayload) s (renewAndFlood s lsa areaId).1 := by
  have counted : Frame (szlsa lsa ≤ maxPayload) s (lsaRenew s lsa).1 :=
    ⟨fun _ => rfl, fun _ => Iff.rfl, rfl, rfl, fun _ hx => hx, fun _ short => short⟩
  have sent := (lsadbFlood_spec (lsaRenew s lsa).1 (lsaRenew s lsa).2 areaId).1
  have size : szlsa (lsaRenew s lsa).2 = szlsa lsa := by
    rw [lsaRenew, szlsa_lsaRenewed]
  rw [size] at sent
  simp only [renewAndFlood]
  exact counted.trans sent

end Frame

/-- What the loop body does to an advertisement. -/
inductive Outcome (routerId : BitVec 32) (flooded : OspfLsa → Prop) (l : OspfLsa) :
    Option OspfLsa → Prop where
  | own {l' : OspfLsa} (own : l.selfOriginated = true) (own' : l'.selfOriginated = true)
    (key : l'.key = l.key) (young : l'.header.age < maxAge)
    (size : l'.bytes.length = l.bytes.length) (long : szlsa l' = szlsa l) :
    Outcome routerId flooded l (some l')
  | older {l' : OspfLsa} (foreign : l.selfOriginated = false) (foreign' : l'.selfOriginated = false)
    (below : ¬ maxAge ≤ l.header.age + 1) (stays : ¬ leftover routerId l)
    (same : l'.bytes = (l.setAge (l.header.age + 1)).bytes) : Outcome routerId flooded l (some l')
  | gone (foreign : l.selfOriginated = false)
    (due : maxAge ≤ l.header.age + 1 ∨ leftover routerId l)
    (sent : flooded (l.setAge maxAge)) : Outcome routerId flooded l none

section Loop

variable {routerId : BitVec 32} {flooded wider : OspfLsa → Prop} {l : OspfLsa} {o : Option OspfLsa}

theorem Outcome.mono (outcome : Outcome routerId flooded l o)
    (more : ∀ x, flooded x → wider x) : Outcome routerId wider l o := by
  cases outcome with
  | own own own' key young size long => exact .own own own' key young size long
  | older foreign foreign' below stays same => exact .older foreign foreign' below stays same
  | gone foreign due sent => exact .gone foreign due (more _ sent)

theorem outcome_renewed (own : l.selfOriginated = true) {m : OspfLsa}
    (own' : m.selfOriginated = true)
    (same : m.bytes = l.bytes ∨ ∃ age, m.bytes = (l.setAge age).bytes)
    (seq : BitVec 32) : Outcome routerId flooded l (some (lsaRenewed seq m)) := by
  have header : m.key = l.key ∧ m.bytes.length = l.bytes.length ∧ szlsa m = szlsa l := by
    rcases same with same | ⟨age, same⟩
    · have hheader := OspfLsa.header_congr same
      exact ⟨congrArg LsaHeader.key hheader, congrArg List.length same,
        congrArg (fun h => h.length.toNat) hheader⟩
    · have hheader := OspfLsa.header_congr same
      refine ⟨(congrArg LsaHeader.key hheader).trans (OspfLsa.key_setAge l age), ?_, ?_⟩
      · rw [same, length_setAge]
      · exact (congrArg (fun h => h.length.toNat) hheader).trans (szlsa_setAge l age)
  obtain ⟨key, size, long⟩ := header
  refine .own own own' ((key_lsaRenewed seq m).trans key) ?_ ?_ ?_
  · rw [age_lsaRenewed]
    decide
  · rw [length_lsaRenewed, size]
  · rw [szlsa_lsaRenewed, long]

theorem outcome_aged {m : OspfLsa} (room : 2 ≤ l.bytes.length)
    (below : ¬ maxAge ≤ l.header.age + 1)
    (stays : l.selfOriginated = true ∨ ¬ leftover routerId l)
    (origin : m.selfOriginated = l.selfOriginated)
    (same : m.bytes = (l.setAge (l.header.age + 1)).bytes) :
    Outcome routerId flooded l (some m) := by
  cases own : l.selfOriginated with
  | true =>
    have hheader := OspfLsa.header_congr same
    refine .own own (origin.trans own) ?_ ?_ ?_ ?_
    · exact (congrArg LsaHeader.key hheader).trans (OspfLsa.key_setAge l _)
    · rw [hheader, OspfLsa.age_setAge _ room]
      exact BitVec.not_le.mp below
    · rw [same, length_setAge]
    · exact (congrArg (fun h => h.length.toNat) hheader).trans (szlsa_setAge l _)
  | false =>
    refine .older own (origin.trans own) below ?_ same
    rcases stays with h | h
    · rw [own] at h
      cases h
    · exact h

theorem ageLsa_spec (areaId : BitVec 32) (s : Ospf) {l : OspfLsa} (room : 2 ≤ l.bytes.length) :
    Frame (szlsa l ≤ maxPayload) s (ageLsa areaId s l).1 ∧
      Outcome s.ospfRouterId (fun x => (x, areaId) ∈ (ageLsa areaId s l).1.floods) l
        (ageLsa areaId s l).2 := by
  unfold ageLsa
  dsimp only
  split
  · rename_i due
    split
    · rename_i own
      exact ⟨frame_renewAndFlood s l areaId, outcome_renewed own own (.inl rfl) _⟩
    · rename_i foreign
      obtain ⟨frame, sent⟩ := lsadbFlood_spec s (l.setAge maxAge) areaId
      rw [szlsa_setAge] at frame
      exact ⟨frame, .gone (Bool.not_eq_true _ ▸ foreign) (.inl due) sent⟩
  · rename_i below
    split
    · rename_i old
      have own : l.selfOriginated = true := old.1
      have size : szlsa { l.setAge (l.header.age + 1) with oldCnt := l.oldCnt - 1 } = szlsa l :=
        szlsa_setAge l _
      split
      · refine ⟨(frame_bumpSeq s _).trans ((frame_renewAndFlood _ _ areaId).mono (size ▸ id)), ?_⟩
        refine outcome_renewed (m := { l.setAge (l.header.age + 1) with oldCnt := l.oldCnt - 1 })
          own own (.inr ⟨_, rfl⟩) _
      · exact ⟨Frame.refl _ s, outcome_aged room below (.inl own) rfl rfl⟩
    · split
      · rename_i waits
        have busy : ¬ leftover s.ospfRouterId l := fun h => by
          rw [OspfLsa.setAge, h.1] at waits
          cases waits
        exact ⟨Frame.refl _ s, outcome_aged room below (.inr busy) rfl rfl⟩
      · split
        · rename_i ready
          have busy : ¬ leftover s.ospfRouterId l := fun h => by
            rw [OspfLsa.setAge, h.1] at ready
            omega
          split
          · exact ⟨(lsadbFlood_spec s _ areaId).1.mono (szlsa_setAge l _ ▸ id),
              outcome_aged room below (.inr busy) rfl rfl⟩
          · exact ⟨Frame.refl _ s, outcome_aged room below (.inr busy) rfl rfl⟩
        · split
          · rename_i refresh
            have own : l.selfOriginated = true := refresh.1
            refine ⟨(frame_renewAndFlood s _ areaId).mono (szlsa_setAge l _ ▸ id), ?_⟩
            exact outcome_renewed own (by exact own) (.inr ⟨_, rfl⟩) _
          · rename_i waits ready _
            split
            · rename_i own
              obtain ⟨frame, sent⟩ :=
                lsadbFlood_spec s ((l.setAge (l.header.age + 1)).setAge maxAge) areaId
              rw [setAge_setAge] at frame sent
              rw [szlsa_setAge] at frame
              refine ⟨?_, .gone (Bool.not_eq_true _ ▸ own.1) (.inr ⟨?_, ?_⟩) ?_⟩
              · rw [floodAndRemove, setAge_setAge]
                exact frame
              · have flood : (l.setAge (l.header.age + 1)).flood = l.flood := rfl
                rw [flood] at waits ready
                omega
              · rw [← advRouter_setAge l (l.header.age + 1)]
                exact own.2
              · rw [floodAndRemove, setAge_setAge]
                exact sent
            · rename_i stays
              refine ⟨Frame.refl _ s, outcome_aged room below ?_ rfl rfl⟩
              cases own : l.selfOriginated with
              | true => exact .inl rfl
              | false =>
                refine .inr (fun h => stays ⟨?_, ?_⟩)
                · rw [OspfLsa.setAge, own]
                  decide
                · rw [advRouter_setAge]
                  exact h.2

/-- What the loop does to one element of the list: those of other types are passed
over. -/
def Visited (routerId : BitVec 32) (flooded : OspfLsa → Prop) (walked : OspfLsa → Prop)
    (l : OspfLsa) (o : Option OspfLsa) : Prop :=
  (walked l ∧ Outcome routerId flooded l o) ∨ (¬ walked l ∧ o = some l)

theorem ageList_spec (areaId : BitVec 32) (walked : OspfLsa → Bool) (s : Ospf)
    (list : List OspfLsa) (room : ∀ l ∈ list, 2 ≤ l.bytes.length) :
    Frame (∀ l ∈ list, szlsa l ≤ maxPayload) s (ageList areaId walked s list).1 ∧
      Pass (Visited s.ospfRouterId
        (fun x => (x, areaId) ∈ (ageList areaId walked s list).1.floods) (walked · = true))
        list (ageList areaId walked s list).2 := by
  induction list generalizing s with
  | nil => exact ⟨Frame.refl _ s, .nil⟩
  | cons l rest ih =>
    have later : ∀ x ∈ rest, 2 ≤ x.bytes.length := fun x hx => room x (List.mem_cons_of_mem _ hx)
    rw [ageList]
    split
    · rename_i mine
      obtain ⟨frame, outcome⟩ := ageLsa_spec areaId s (room l List.mem_cons_self)
      obtain ⟨frames, pass⟩ := ih (ageLsa areaId s l).1 later
      rw [frame.routerId] at pass
      refine ⟨(frame.mono (fun short => short l List.mem_cons_self)).trans
        (frames.mono (fun short x hx => short x (List.mem_cons_of_mem _ hx))), ?_⟩
      have grown := outcome.mono (fun x hx => frames.floods _ hx)
      dsimp only
      cases kept : (ageLsa areaId s l).2 with
      | none =>
        rw [kept] at grown
        exact .drop (.inl ⟨mine, grown⟩) pass
      | some l' =>
        rw [kept] at grown
        exact .keep (.inl ⟨mine, grown⟩) pass
    · rename_i other
      obtain ⟨frames, pass⟩ := ih s later
      exact ⟨frames.mono (fun short x hx => short x (List.mem_cons_of_mem _ hx)),
        .keep (.inr ⟨other, rfl⟩) pass⟩

end Loop

/-- Every stored advertisement has room for its header. -/
def Room (s : Ospf) : Prop := ∀ slot, ∀ l ∈ s.list slot, sizeofHeader ≤ l.bytes.length

/-- Some lists were walked once: `walked` tells which, by slot and index. -/
structure Walks (walked : Option (BitVec 32) → Nat → Prop) (s s' : Ospf) : Prop where
  linked : ∀ id, s'.linked id ↔ s.linked id
  ids : s'.areas.ids = s.areas.ids
  routerId : s'.ospfRouterId = s.ospfRouterId
  floods : ∀ x ∈ s.floods, x ∈ s'.floods
  pass : ∀ slot, Pass (Visited s.ospfRouterId (fun x => (x, slot.getD 0) ∈ s'.floods)
    (fun l => walked slot (listIndex l.header.type))) (s.list slot) (s'.list slot)
  queues : Fits s → QueuesFit s'

section Walks

variable {walked further : Option (BitVec 32) → Nat → Prop} {s s' s'' : Ospf}
  {routerId : BitVec 32} {flooded : OspfLsa → Prop}

theorem Outcome.key {l l' : OspfLsa} (outcome : Outcome routerId flooded l (some l')) :
    l'.key = l.key := by
  cases outcome with
  | own _ _ key _ _ _ => exact key
  | older _ _ _ _ same =>
    exact (congrArg LsaHeader.key (OspfLsa.header_congr same)).trans (OspfLsa.key_setAge l _)

theorem Outcome.size {l l' : OspfLsa} (outcome : Outcome routerId flooded l (some l')) :
    l'.bytes.length = l.bytes.length := by
  cases outcome with
  | own _ _ _ _ size _ => exact size
  | older _ _ _ _ same => rw [same, length_setAge]

theorem Outcome.szlsa_eq {l l' : OspfLsa} (outcome : Outcome routerId flooded l (some l')) :
    szlsa l' = szlsa l := by
  cases outcome with
  | own _ _ _ _ _ long => exact long
  | older _ _ _ _ same =>
    exact (congrArg (fun h => h.length.toNat) (OspfLsa.header_congr same)).trans (szlsa_setAge l _)

theorem Frame.walks (frame : Frame True s s') (none : ∀ slot, ∀ l ∈ s.list slot,
    ¬ walked slot (listIndex l.header.type)) : Walks walked s s' where
  linked := frame.linked
  ids := frame.ids
  routerId := frame.routerId
  floods := frame.floods
  pass slot := by
    rw [frame.list slot]
    exact Pass.same (fun l hl => .inr ⟨none slot l hl, rfl⟩)
  queues fits := frame.queues trivial fits.queued

theorem Walks.fits (walks : Walks walked s s') (fits : Fits s) : Fits s' where
  stored slot l hl := by
    obtain ⟨a, ha, visit⟩ := (walks.pass slot).source hl
    rcases visit with ⟨_, outcome⟩ | ⟨_, same⟩
    · exact outcome.szlsa_eq ▸ fits.stored slot a ha
    · cases same
      exact fits.stored slot l ha
  queued := walks.queues fits

theorem Walks.comp (first : Walks walked s s') (second : Walks further s' s'')
    (apart : ∀ slot i, walked slot i → ¬ further slot i) :
    Walks (fun slot i => walked slot i ∨ further slot i) s s'' where
  linked id := (second.linked id).trans (first.linked id)
  ids := second.ids.trans first.ids
  routerId := second.routerId.trans first.routerId
  floods x hx := second.floods x (first.floods x hx)
  queues fits := second.queues (first.fits fits)
  pass slot := by
    have later := second.pass slot
    rw [first.routerId] at later
    refine ((first.pass slot).comp later).mono ?_
    rintro l - o (⟨⟨mine, outcome⟩ | ⟨_, none⟩, rfl⟩ | ⟨b, now, next⟩)
    · exact .inl ⟨.inl mine, outcome.mono (fun x hx => second.floods _ hx)⟩
    · cases none
    · rcases now with ⟨mine, outcome⟩ | ⟨other, same⟩
      · have type : b.header.type = l.header.type := congrArg LsaKey.type outcome.key
        rcases next with ⟨again, _⟩ | ⟨_, rfl⟩
        · exact absurd (type ▸ again) (apart slot _ mine)
        · exact .inl ⟨.inl mine, outcome.mono (fun x hx => second.floods _ hx)⟩
      · cases same
        rcases next with ⟨mine, outcome⟩ | ⟨neither, rfl⟩
        · exact .inl ⟨.inr mine, outcome⟩
        · refine .inr ⟨?_, rfl⟩
          rintro (h | h)
          · exact other h
          · exact neither h

theorem Walks.congr (walks : Walks walked s s') (same : ∀ slot i, walked slot i ↔ further slot i) :
    Walks further s s' := by
  have eq : walked = further := funext (fun slot => funext (fun i => propext (same slot i)))
  exact eq ▸ walks

theorem Walks.room (walks : Walks walked s s') (room : Room s) : Room s' := by
  intro slot l hl
  obtain ⟨a, ha, visit⟩ := (walks.pass slot).source hl
  rcases visit with ⟨_, outcome⟩ | ⟨_, same⟩
  · exact outcome.size ▸ room slot a ha
  · cases same
    exact room slot l ha

theorem Walks.foldl {β : Type} {f : Ospf → β → Ospf} {of : β → Option (BitVec 32) → Nat → Prop}
    {Links : BitVec 32 → Prop}
    {xs : List β}
    (each : ∀ s, ∀ x ∈ xs, Room s → (∀ id, s.linked id ↔ Links id) → Walks (of x) s (f s x))
    (nodup : xs.Nodup)
    (apart : ∀ x y, x ≠ y → ∀ slot i, of x slot i → ¬ of y slot i)
    (room : Room s) (linked : ∀ id, s.linked id ↔ Links id) :
    Walks (fun slot i => ∃ x ∈ xs, of x slot i) s (xs.foldl f s) := by
  induction xs generalizing s with
  | nil =>
    refine (Frame.refl True s).walks ?_
    rintro slot l - ⟨x, hx, _⟩
    cases hx
  | cons x xs ih =>
    obtain ⟨fresh, nodup⟩ := List.nodup_cons.mp nodup
    have first := each s x List.mem_cons_self room linked
    have rest := ih (fun s y hy => each s y (List.mem_cons_of_mem _ hy)) nodup
      (first.room room) (fun id => (first.linked id).trans (linked id))
    refine (first.comp rest ?_).congr ?_
    · rintro slot i mine ⟨y, hy, again⟩
      have differs : x ≠ y := by
        rintro rfl
        exact fresh hy
      exact apart x y differs slot i mine again
    · intro slot i
      simp

end Walks

section AgeAll

variable {s : Ospf}

theorem Room.two (room : Room s) (slot : Option (BitVec 32)) :
    ∀ l ∈ s.list slot, 2 ≤ l.bytes.length := by
  intro l hl
  have := room slot l hl
  simp only [sizeofHeader] at this
  omega

theorem list_modify (areas : Areas) (id : BitVec 32) (list : List OspfLsa) (i : BitVec 32) :
    (((areas.modify id (fun area => { area with list := list })).find i).elim []
      (·.list) : List OspfLsa) =
      if i = id ∧ (areas.find id).isSome then list else (areas.find i).elim [] (·.list) := by
  rw [Areas.find_modify]
  by_cases here : i = id
  · subst here
    cases areas.find i with
    | none => simp
    | some area => simp
  · simp [here]

theorem walks_areaType (room : Room s) (areaId : BitVec 32) {type : Nat} (internal : type ≠ 5) :
    Walks (fun slot i => slot = some areaId ∧ i = type) s (lsadbAgeAreaType s areaId type) := by
  rw [lsadbAgeAreaType, if_neg internal]
  cases hfind : s.areas.find areaId with
  | none =>
    refine (Frame.refl True s).walks ?_
    rintro slot l hl ⟨rfl, _⟩
    simp [Ospf.list, hfind] at hl
  | some area =>
    have hlist : s.list (some areaId) = area.list := by simp [Ospf.list, hfind]
    obtain ⟨frame, pass⟩ := ageList_spec areaId (fun lsa => listIndex lsa.header.type = type) s
      area.list (hlist ▸ room.two (some areaId))
    dsimp only
    generalize ageList areaId (fun lsa => listIndex lsa.header.type = type) s area.list = r
      at frame pass
    have there : (r.1.areas.find areaId).isSome = true := by
      rw [Areas.find_isSome, frame.ids, ← Areas.find_isSome, hfind]
      rfl
    refine ⟨?_, ?_, frame.routerId, frame.floods, ?_, ?_⟩
    · intro id
      rw [← frame.linked id]
      simp only [Ospf.linked, Areas.find_modify]
      by_cases here : id = areaId
      · simp only [here, if_true]
        cases r.1.areas.find areaId with
        | none => simp
        | some a => simp
      · simp only [here, if_false]
    · rw [Areas.modify, Areas.ids_mapAreas]
      exact frame.ids
    · rintro (_ | id)
      · have same : s.list none = r.1.extlist := (frame.list none).symm
        rw [same]
        exact Pass.same (fun l _ => .inr ⟨by simp, rfl⟩)
      · simp only [Ospf.list, list_modify, there, and_true]
        by_cases here : id = areaId
        · subst here
          rw [if_pos rfl, hfind]
          refine pass.mono ?_
          rintro l - o (⟨mine, outcome⟩ | ⟨other, same⟩)
          · exact .inl ⟨by simpa using mine, outcome⟩
          · exact .inr ⟨by simpa using other, same⟩
        · rw [if_neg here]
          have same := frame.list (some id)
          simp only [Ospf.list] at same
          rw [same]
          exact Pass.same (fun l _ => .inr ⟨by simp [here], rfl⟩)
    · rintro fits p hp net hnet
      obtain ⟨q, hq, rfl⟩ := List.mem_map.mp hp
      refine frame.queues (hlist ▸ fits.stored (some areaId)) fits.queued q hq net ?_
      dsimp only at hnet
      split at hnet
      · exact hnet
      · exact hnet

theorem walks_external (room : Room s) :
    Walks (fun slot _ => slot = none) s (lsadbAgeAreaType s 0 5) := by
  obtain ⟨frame, pass⟩ := ageList_spec 0 (fun _ => true) s s.extlist (room.two none)
  rw [lsadbAgeAreaType, if_pos rfl]
  dsimp only
  refine ⟨frame.linked, frame.ids, frame.routerId, frame.floods, ?_,
    fun fits => frame.queues (fits.stored none) fits.queued⟩
  rintro (_ | id)
  · refine pass.mono ?_
    rintro l - o (⟨_, outcome⟩ | ⟨other, _⟩)
    · exact .inl ⟨rfl, outcome⟩
    · exact absurd rfl other
  · have same := frame.list (some id)
    simp only [Ospf.list] at same ⊢
    rw [same]
    exact Pass.same (fun l _ => .inr ⟨by simp, rfl⟩)

theorem listIndex_lt (type : BitVec 8) : listIndex type < 5 := by
  unfold listIndex
  split
  · assumption
  · decide

theorem walks_ageArea (room : Room s) (areaId : BitVec 32) :
    Walks (fun slot i => slot = some areaId ∧ i < 5 ∧ s.linked areaId) s (ageArea s areaId) := by
  have has : (s.areas.find areaId).any (fun area => !area.network.isEmpty) = true ↔
      s.linked areaId := by
    simp only [Ospf.linked]
    cases s.areas.find areaId with
    | none => simp
    | some area => simp
  unfold ageArea
  by_cases linked : s.linked areaId
  · rw [if_pos (has.mpr linked)]
    have each : ∀ t : Ospf, ∀ type ∈ List.range 5, Room t → (∀ id, t.linked id ↔ s.linked id) →
        Walks (fun slot i => slot = some areaId ∧ i = type) t (lsadbAgeAreaType t areaId type) := by
      intro t type htype room _
      have below := List.mem_range.mp htype
      exact walks_areaType room areaId (by omega)
    refine (Walks.foldl each List.nodup_range ?_ room (fun _ => Iff.rfl)).congr ?_
    · rintro x y differs slot i ⟨_, rfl⟩ ⟨_, same⟩
      exact differs same
    · intro slot i
      constructor
      · rintro ⟨x, hx, rfl, rfl⟩
        exact ⟨rfl, List.mem_range.mp hx, linked⟩
      · rintro ⟨rfl, below, _⟩
        exact ⟨i, List.mem_range.mpr below, rfl, rfl⟩
  · rw [if_neg (fun h => linked (has.mp h))]
    refine (Frame.refl True s).walks ?_
    rintro slot l - ⟨_, _, h⟩
    exact linked h

theorem walks_ageAll (room : Room s) :
    Walks (fun slot i => slot = none ∨ ∃ id, slot = some id ∧ i < 5 ∧ s.linked id) s
      (ageAll s) := by
  have each : ∀ t : Ospf, ∀ id ∈ s.areas.ids, Room t → (∀ id, t.linked id ↔ s.linked id) →
      Walks (fun slot i => slot = some id ∧ i < 5 ∧ s.linked id) t (ageArea t id) := by
    intro t id _ room linked
    rw [← linked id]
    exact walks_ageArea room id
  have areas := Walks.foldl each s.areas.nodup (by
    rintro x y differs slot i ⟨here, _⟩ ⟨there, _⟩
    exact differs (Option.some.inj (here.symm.trans there))) room (fun _ => Iff.rfl)
  have external := walks_external (areas.room room)
  refine (areas.comp external ?_).congr ?_
  · rintro slot i ⟨id, _, rfl, _⟩ none
    cases none
  · intro slot i
    constructor
    · rintro (⟨id, _, here⟩ | none)
      · exact .inr ⟨id, here⟩
      · exact .inl none
    · rintro (none | ⟨id, here, below, linked⟩)
      · exact .inr none
      · have there := linked
        obtain ⟨area, found, _⟩ := there
        exact .inl ⟨id, (Areas.find_isSome _ _).mp (found ▸ rfl), here, below, linked⟩

end AgeAll

section Timeout

variable {s s' : Ospf} {fuel : Nat}

theorem queueFits_flushed {net : Network} (fit : QueueFits net) :
    QueueFits (flushed fuel net).1 := by
  unfold flushed
  cases ended : flushFlooding fuel net with
  | none => exact fit
  | some r =>
    intro l hl
    rw [Option.getD_some, flushFlooding_after ended] at hl
    cases hl

theorem queuesFit_flushed {areas : Areas}
    (fit : ∀ p ∈ areas.entries, ∀ net ∈ p.2.network, QueueFits net) :
    ∀ p ∈ (areas.mapAreas (fun _ area =>
      { area with network := area.network.map (fun net => (flushed fuel net).1) })).entries,
      ∀ net ∈ p.2.network, QueueFits net := by
  intro p hp net hnet
  obtain ⟨q, hq, rfl⟩ := List.mem_map.mp hp
  obtain ⟨before, hbefore, rfl⟩ := List.mem_map.mp hnet
  exact queueFits_flushed (fit q hq before hbefore)

theorem frame_flushAll (ended : flushAll fuel s = some s') : Frame True s s' := by
  unfold flushAll at ended
  split at ended
  · cases ended
    exact frame_networks (f := fun _ area =>
      { area with network := area.network.map (fun net => (flushed fuel net).1) })
      (fun _ _ => rfl) (fun _ _ _ => by simp)
      (fun _ fit => queuesFit_flushed fit) rfl rfl rfl rfl
  · cases ended

theorem frame_drained (ended : flushAll fuel s = some s') :
    Frame True s { s' with lsaFlooded := 0 } :=
  (frame_flushAll ended).trans
    ⟨fun _ => rfl, fun _ => Iff.rfl, rfl, rfl, fun _ hx => hx, fun _ short => short⟩

theorem walks_lsadbTimeout (room : Room s) (ended : lsadbTimeout fuel s = some s') :
    Walks (fun slot i => slot = none ∨ ∃ id, slot = some id ∧ i < 5 ∧ s.linked id)
      { s with floods := [], tx := [] } s' := by
  simp only [lsadbTimeout, Option.bind_eq_bind, Option.bind_eq_some_iff] at ended
  obtain ⟨drained, hdrained, hrest⟩ := ended
  have first := frame_drained hdrained
  have kept : Room { drained with lsaFlooded := 0 } := by
    intro slot
    rw [first.list slot]
    exact room slot
  have before : Walks (fun _ _ => False) _ _ := first.walks (fun _ _ _ h => h)
  have after : Walks (fun _ _ => False) _ _ := (frame_flushAll hrest).walks (fun _ _ _ h => h)
  refine ((before.comp (walks_ageAll kept) (fun _ _ h => h.elim)).comp after
    (fun _ _ _ h => h)).congr ?_
  intro slot i
  have same : ∀ id, Ospf.linked { drained with lsaFlooded := 0 } id ↔ s.linked id := first.linked
  simp only [same, false_or, or_false]

theorem Outcome.oneOlder {routerId : BitVec 32} {flooded : OspfLsa → Prop} {l : OspfLsa}
    {o : Option OspfLsa} (outcome : Outcome routerId flooded l o) (room : 2 ≤ l.bytes.length)
    (counts : l.selfOriginated = false → l.header.age = 0xffff → leftover routerId l) :
    OneOlder routerId flooded l o := by
  cases outcome with
  | own own own' key young _ _ => exact .own own own' key young
  | @older l' foreign foreign' below stays same =>
    have age : l'.header.age = l.header.age + 1 :=
      (congrArg LsaHeader.age (OspfLsa.header_congr same)).trans (OspfLsa.age_setAge _ room)
    have last : l.header.age ≠ 0xffff := fun h => stays (counts foreign h)
    refine .older foreign foreign' ?_ ?_ ?_
    · have bound := l.header.age.isLt
      have differs : l.header.age.toNat ≠ 0xffff := fun h => last (BitVec.eq_of_toNat_eq h)
      have one : (1 : BitVec 16).toNat = 1 := rfl
      rw [age, BitVec.toNat_add, one, Nat.mod_eq_of_lt (by omega)]
    · rw [age]
      exact BitVec.not_le.mp below
    · rw [age]
      exact same
  | gone foreign due sent =>
    refine .gone foreign ?_ (OspfLsa.age_setAge _ room) sent
    refine due.imp_left (fun h => ?_)
    have le := BitVec.le_def.mp h
    have one : (1 : BitVec 16).toNat = 1 := rfl
    rw [BitVec.toNat_add, one] at le
    have := Nat.mod_le (l.header.age.toNat + 1) (2^16)
    omega

theorem PassedOver.other {slot : Option (BitVec 32)} {l : OspfLsa} (passed : PassedOver s)
    (hl : l ∈ s.list slot)
    (other : ¬ (slot = none ∨ ∃ id, slot = some id ∧ listIndex l.header.type < 5 ∧ s.linked id)) :
    l.selfOriginated = true ∧ l.header.age < maxAge := by
  cases slot with
  | none => exact absurd (.inl rfl) other
  | some id => exact passed id (fun h => other (.inr ⟨id, rfl, listIndex_lt _, h⟩)) l hl

theorem list_unlinked (room : Room s) (ended : lsadbTimeout fuel s = some s') {id : BitVec 32}
    (unlinked : ¬ s.linked id) : s'.list (some id) = s.list (some id) := by
  refine ((walks_lsadbTimeout room ended).pass (some id)).eq_of_same ?_
  rintro l hl o (⟨none | ⟨i, here, _, linked⟩, _⟩ | ⟨_, same⟩)
  · cases none
  · cases here
    exact absurd linked unlinked
  · exact same

theorem passedOver_of_aged (room : Room s) (ended : lsadbTimeout fuel s = some s')
    (aged : Aged s s') : PassedOver s := by
  intro id unlinked l hl
  have pass := aged (some id)
  rw [list_unlinked room ended unlinked] at pass
  cases pass.self hl with
  | own own _ _ young => exact ⟨own, young⟩
  | older _ _ older _ _ => exact absurd older (by omega)

theorem aged_iff (room : Room s) (ended : lsadbTimeout fuel s = some s') :
    Aged s s' ↔ Timely s := by
  have walks := walks_lsadbTimeout room ended
  constructor
  · intro aged
    have passed := passedOver_of_aged room ended aged
    refine ⟨fun slot l hl foreign last => ?_, passed⟩
    by_contra stays
    obtain ⟨o, visit, there⟩ := (walks.pass slot).outcome hl
    rcases visit with ⟨_, outcome⟩ | ⟨other, _⟩
    · cases outcome with
      | own own _ _ _ _ _ =>
        rw [foreign] at own
        cases own
      | @older l' _ foreign' _ _ same =>
        have age : l'.header.age = 0 := by
          refine (congrArg LsaHeader.age (OspfLsa.header_congr same)).trans ?_
          rw [OspfLsa.age_setAge _ (room.two slot l hl), last]
          rfl
        obtain ⟨a, _, older⟩ := (aged slot).source (there l' rfl)
        cases older with
        | own _ own' _ _ =>
          rw [foreign'] at own'
          cases own'
        | older _ _ older _ _ =>
          rw [age] at older
          cases older
      | gone _ due _ =>
        rcases due with due | own
        · rw [last] at due
          exact absurd due (by decide)
        · exact stays own
    · rw [(passed.other hl other).1] at foreign
      cases foreign
  · intro timely slot
    refine (walks.pass slot).mono ?_
    rintro l hl o (⟨_, outcome⟩ | ⟨other, rfl⟩)
    · exact outcome.oneOlder (room.two slot l hl) (timely.counts slot l hl)
    · obtain ⟨own, young⟩ := timely.passed.other hl other
      exact .own own own rfl young

end Timeout

section Receive

variable {J : List OspfLsa → Prop}

theorem loop_lists {stub : Bool} {net : Network} {desc : PacketDesc} {lsas : List Memory}
    (install : ∀ list, ∀ lsah ∈ lsas, J list → J (installLsa net desc list lsah))
    (type : BitVec 8) {st : RxState} (before : J (st.lsdb type)) :
    J ((lsas.foldl (receiveLsa stub net desc) st).lsdb type) := by
  induction lsas generalizing st with
  | nil => exact before
  | cons lsah rest ih =>
    refine ih (fun list m hm => install list m (List.mem_cons_of_mem _ hm)) ?_
    rw [lsdb_receiveLsa]
    split
    · by_cases side : type = 5 ↔ (lsaHeader lsah).type = 5
      · rw [lsdb_setLsdb_of_iff st _ side]
        have same : st.lsdb (lsaHeader lsah).type = st.lsdb type := by
          unfold RxState.lsdb
          by_cases ext : type = 5
          · rw [if_pos ext, if_pos (side.mp ext)]
          · rw [if_neg ext, if_neg (fun h => ext (side.mpr h))]
        rw [same]
        exact install _ lsah List.mem_cons_self before
      · rw [lsdb_setLsdb_of_not_iff st _ side]
        exact before
    · exact before

variable {r : Router} {pkt : UpdatePacket} {desc : PacketDesc}

theorem lsupdateRx_extlist
    (install : ∀ net list, ∀ lsah ∈ pkt.lsas, J list → J (installLsa net desc list lsah))
    (before : J r.extlist) : J (lsupdateRx r pkt desc).1.extlist := by
  rcases lsupdateRx_cases r pkt desc with same | ⟨area, net, nb, _, after⟩
  · rw [same]
    exact before
  · rw [after]
    exact loop_lists (install net) 5 before

theorem lsupdateRx_area
    (install : ∀ net list, ∀ lsah ∈ pkt.lsas, J list → J (installLsa net desc list lsah))
    {id : BitVec 32} {area : Area} (found : r.area id = some area) :
    ∃ area', (lsupdateRx r pkt desc).1.area id = some area' ∧ (J area.list → J area'.list) := by
  rcases lsupdateRx_cases r pkt desc with same | ⟨there, net, nb, hsender, after⟩
  · rw [same]
    exact ⟨area, found, fun before => before⟩
  · rw [after]
    by_cases here : id = desc.areaId
    · subst here
      obtain ⟨harea, _⟩ := sender_eq_some hsender
      rw [harea] at found
      cases found
      exact ⟨_, Function.update_self _ _ _, fun before => loop_lists (install net) 1 before⟩
    · have other : (rxStore r there desc (rxLoop r there net nb desc pkt.lsas)).area id =
          r.area id :=
        Function.update_of_ne here _ _
      exact ⟨area, other.trans found, fun before => before⟩

end Receive

/-- An advertisement of this router as it is originated. -/
def Newborn (l : OspfLsa) : Prop :=
  l.selfOriginated = true ∧ l.header.age = 0 ∧ sizeofHeader ≤ l.bytes.length

/-- What the other parts of the process do: they put in fresh advertisements of this
router and take out any. -/
def Quiet (s s' : Ospf) : Prop := ∀ slot, ∀ l ∈ s'.list slot, l ∈ s.list slot ∨ Newborn l

section Quiet

theorem Quiet.modifyList (s : Ospf) (areaId : BitVec 32) {g : List OspfLsa → List OspfLsa}
    (members : ∀ list, ∀ l ∈ g list, l ∈ list ∨ Newborn l) :
    Quiet s { s with
      areas := s.areas.modify areaId (fun area => { area with list := g area.list }) } := by
  rintro (_ | id) l hl
  · exact .inl hl
  · simp only [Ospf.list, Areas.find_modify] at hl ⊢
    by_cases here : id = areaId
    · simp only [here, if_true] at hl ⊢
      cases hfind : s.areas.find areaId with
      | none => simp [hfind] at hl
      | some area =>
        simp only [hfind, Option.map_some, Option.elim_some] at hl ⊢
        exact members area.list l hl
    · simp only [here, if_false] at hl
      exact .inl hl

theorem Quiet.modifyExtlist (s : Ospf) {list : List OspfLsa}
    (members : ∀ l ∈ list, l ∈ s.extlist ∨ Newborn l) : Quiet s { s with extlist := list } := by
  rintro (_ | id) l hl
  · exact members l hl
  · exact .inl hl

theorem Quiet.lsadbAdd (s : Ospf) (areaId : BitVec 32) (lsa : Originated) :
    Quiet s (lsadbAdd s areaId lsa.lsa) := by
  have members : ∀ list, ∀ l ∈ lsaListAdd list lsa.lsa, l ∈ list ∨ Newborn l := by
    intro list l hl
    rcases List.mem_cons.mp hl with rfl | old
    · exact .inr ⟨lsa.own, lsa.age, lsa.sized⟩
    · exact .inl old
  unfold LsaAging.lsadbAdd
  split
  · exact Quiet.modifyExtlist s (members s.extlist)
  · exact Quiet.modifyList s areaId members

theorem Quiet.lsadbRemove (s : Ospf) (slot : Option (BitVec 32)) (i : Nat) :
    Quiet s (lsadbRemove s slot i) := by
  have members : ∀ list : List OspfLsa, ∀ l ∈ list.eraseIdx i, l ∈ list ∨ Newborn l :=
    fun list l hl => .inl (List.mem_of_mem_eraseIdx hl)
  unfold LsaAging.lsadbRemove
  split
  · exact Quiet.modifyExtlist s (members s.extlist)
  · exact Quiet.modifyList s _ members

theorem Areas.find_remove (areas : Areas) (id i : BitVec 32) :
    (areas.remove id).find i = if i = id then none else areas.find i := by
  obtain ⟨entries, nodup⟩ := areas
  simp only [Areas.find, Areas.remove]
  clear nodup
  induction entries with
  | nil => simp
  | cons p rest ih =>
    obtain ⟨j, area⟩ := p
    by_cases same : j = id
    · rw [List.filter_cons_of_neg (by simp [same]), ih, List.lookup_cons]
      by_cases here : i = id
      · simp [here]
      · simp [here, same, beq_false_of_ne here]
    · rw [List.filter_cons_of_pos (by simp [same]), List.lookup_cons, List.lookup_cons, ih]
      by_cases here : i = id
      · have other : i ≠ j := fun h => same (h.symm.trans here)
        simp [here, beq_false_of_ne (here ▸ other)]
      · simp [here]

theorem Areas.find_add (areas : Areas) (id : BitVec 32) (area : Area) (i : BitVec 32) :
    (areas.add id area).find i =
      if i = id ∧ areas.find id = none then some area else areas.find i := by
  have absent_iff : areas.find id = none ↔ id ∉ areas.ids := by
    rw [← Areas.find_isSome]
    cases areas.find id with
    | none => simp
    | some a => simp
  unfold Areas.add
  split
  · rename_i there
    rw [if_neg (fun h => absent_iff.mp h.2 there)]
  · rename_i absent
    simp only [Areas.find, List.lookup_cons]
    by_cases here : i = id
    · have none := absent_iff.mpr absent
      simp only [Areas.find] at none
      simp [here, none]
    · simp [here, beq_false_of_ne here]

theorem list_setNetworks (s : Ospf) (areaId : BitVec 32) (networks : List Network)
    (slot : Option (BitVec 32)) : (setNetworks s areaId networks).list slot = s.list slot := by
  cases slot with
  | none => rfl
  | some id =>
    simp only [Ospf.list, setNetworks, Areas.find_modify, Areas.find_add]
    by_cases here : id = areaId
    · subst here
      cases hfind : s.areas.find id with
      | none => simp
      | some area => simp
    · simp [here]

theorem sublist_removeArea (s : Ospf) (areaId : BitVec 32) (slot : Option (BitVec 32)) :
    ((removeArea s areaId).list slot).Sublist (s.list slot) := by
  cases slot with
  | none => exact List.Sublist.refl _
  | some id =>
    simp only [Ospf.list, removeArea, Areas.find_remove]
    split
    · exact List.nil_sublist _
    · exact List.Sublist.refl _

theorem Quiet.setNetworks (s : Ospf) (areaId : BitVec 32) (networks : List Network) :
    Quiet s (setNetworks s areaId networks) := by
  intro slot l hl
  rw [list_setNetworks] at hl
  exact .inl hl

theorem Quiet.removeArea (s : Ospf) (areaId : BitVec 32) : Quiet s (removeArea s areaId) :=
  fun slot _ hl => .inl ((sublist_removeArea s areaId slot).subset hl)

end Quiet

section Reached

variable {s s' : Ospf} {pkt : UpdatePacket} {desc : PacketDesc} {J : List OspfLsa → Prop}

theorem mem_install {net : Network} {list : List OspfLsa} {lsah : Memory} {l : OspfLsa}
    (member : l ∈ installLsa net desc list lsah) :
    (∃ l₀ ∈ list, l.selfOriginated = l₀.selfOriginated ∧
        (l.bytes = l₀.bytes ∨ l.bytes = (l₀.setAge maxAge).bytes)) ∨
      l = receivedLsa net lsah := by
  have outcome := installs_installLsa net desc list lsah
  generalize installLsa net desc list lsah = list' at outcome member
  cases outcome with
  | keep => exact .inl ⟨l, member, rfl, .inl rfl⟩
  | add =>
    rcases List.mem_cons.mp member with rfl | old
    · exact .inr rfl
    · exact .inl ⟨l, old, rfl, .inl rfl⟩
  | age =>
    rcases mem_lsaListUpdate member with old | ⟨l₀, hl₀, rfl⟩
    · exact .inl ⟨l, old, rfl, .inl rfl⟩
    · exact .inl ⟨l₀, hl₀, rfl, .inr rfl⟩
  | note =>
    rcases mem_lsaListUpdate member with old | ⟨l₀, hl₀, rfl⟩
    · exact .inl ⟨l, old, rfl, .inl rfl⟩
    · exact .inl ⟨l₀, hl₀, rfl, .inl rfl⟩
  | replace =>
    rcases mem_lsaListUpdate member with old | ⟨l₀, _, rfl⟩
    · exact .inl ⟨l, old, rfl, .inl rfl⟩
    · exact .inr rfl

theorem room_install {net : Network} {list : List OspfLsa} {lsah : Memory}
    (sized : sizeofHeader ≤ (lsaHeader lsah).length.toNat)
    (room : ∀ l ∈ list, sizeofHeader ≤ l.bytes.length) :
    ∀ l ∈ installLsa net desc list lsah, sizeofHeader ≤ l.bytes.length := by
  intro l hl
  rcases mem_install hl with ⟨l₀, hl₀, _, same | same⟩ | rfl
  · exact same ▸ room l₀ hl₀
  · rw [same, length_setAge]
    exact room l₀ hl₀
  · simpa [receivedLsa, duplicateLsa, Memory.length_bytes] using sized

theorem list_restore
    (install : ∀ net list, ∀ lsah ∈ pkt.lsas, J list → J (installLsa net desc list lsah))
    (slot : Option (BitVec 32)) (before : J (s.list slot)) :
    J ((s.restore (lsupdateRx s.router pkt desc).1).list slot) := by
  cases slot with
  | none => exact lsupdateRx_extlist install before
  | some id =>
    simp only [Ospf.list, Ospf.restore, Areas.find_mapAreas] at before ⊢
    cases hfind : s.areas.find id with
    | none => simpa [hfind] using before
    | some area =>
      obtain ⟨area', found, kept⟩ := lsupdateRx_area (r := s.router) install hfind
      simp only [hfind, Option.map_some, Option.elim_some, found, Option.getD_some] at before ⊢
      exact kept before

theorem step_room {op : Op} (room : Room s) (sized : Sized op) (step : Step s op s') : Room s' := by
  have quiet : Quiet s s' → Room s' := by
    intro quiet slot l hl
    rcases quiet slot l hl with old | ⟨_, _, fresh⟩
    · exact room slot l old
    · exact fresh
  cases op with
  | receive pkt desc =>
    cases step
    intro slot
    exact list_restore (J := fun list => ∀ l ∈ list, sizeofHeader ≤ l.bytes.length)
      (fun _ _ lsah hlsah => room_install (sized lsah hlsah)) slot (room slot)
  | timeout =>
    obtain ⟨fuel, ended⟩ := step
    exact (walks_lsadbTimeout room ended).room room
  | originate areaId lsa =>
    cases step
    exact quiet (Quiet.lsadbAdd s areaId lsa)
  | remove slot i =>
    cases step
    exact quiet (Quiet.lsadbRemove s slot i)
  | networks areaId networks =>
    cases step
    exact quiet (Quiet.setNetworks s areaId networks)
  | removeArea areaId =>
    cases step
    exact quiet (Quiet.removeArea s areaId)

theorem Reached.room (reached : Reached s) : Room s := by
  induction reached with
  | start empty =>
    intro slot l hl
    rw [empty slot] at hl
    cases hl
  | step _ sized step ih => exact step_room ih sized step

end Reached

section Stays

variable {s s' : Ospf} {slot : Option (BitVec 32)} {k : LsaKey} {seq : BitVec 32} {n : Nat}

/-- Every instance of the advertisement is at least `n` seconds old, or due to go. -/
def Counted (k : LsaKey) (seq : BitVec 32) (n : Nat) (list : List OspfLsa) : Prop :=
  ∀ l ∈ list, l.selfOriginated = false → l.key = k → l.header.seq = seq →
    n ≤ l.header.age.toNat ∨ maxAge.toNat ≤ l.header.age.toNat

/-- What holds of a list while a packet is processed: sequence numbers only grow. -/
structure Kept (k : LsaKey) (seq : BitVec 32) (n : Nat) (list : List OspfLsa) : Prop where
  room : ∀ l ∈ list, sizeofHeader ≤ l.bytes.length
  counted : Counted k seq n list
  found : ∃ l, lsaListFind list k = some l ∧ l.selfOriginated = false ∧ seq ≤ l.header.seq

/-- An update of the entry of a key keeps the list, as long as what it writes is counted and
no older than before. -/
theorem Kept.update {list : List OspfLsa} {key : LsaKey} {f : OspfLsa → OspfLsa} {l : OspfLsa}
    (kept : Kept k seq n list) (present : lsaListFind list key = some l)
    (keyed : (f l).key = key)
    (room : ∀ x ∈ lsaListUpdate list key f, sizeofHeader ≤ x.bytes.length)
    (written : ∀ x ∈ list, (f x).selfOriginated = false → (f x).key = k →
      (f x).header.seq = seq → n ≤ (f x).header.age.toNat ∨ maxAge.toNat ≤ (f x).header.age.toNat)
    (newer : key = k → (f l).selfOriginated = false ∧ seq ≤ (f l).header.seq) :
    Kept k seq n (lsaListUpdate list key f) := by
  refine ⟨room, ?_, ?_⟩
  · intro x hx foreign hkey hseq
    rcases mem_lsaListUpdate hx with old | ⟨x₀, hx₀, rfl⟩
    · exact kept.counted x old foreign hkey hseq
    · exact written x₀ hx₀ foreign hkey hseq
  · rw [lsaListFind_update f present keyed]
    split
    · rename_i same
      exact ⟨f l, rfl, newer same.symm⟩
    · exact kept.found

theorem Kept.install {net : Network} {desc : PacketDesc} {list : List OspfLsa} {lsah : Memory}
    (kept : Kept k seq n list) (sized : sizeofHeader ≤ (lsaHeader lsah).length.toNat) :
    Kept k seq n (installLsa net desc list lsah) := by
  obtain ⟨first, hfind, foreign, le⟩ := kept.found
  have header := header_receivedLsa net sized
  have hkey : (receivedLsa net lsah).key = (lsaHeader lsah).key := congrArg LsaHeader.key header
  have room : ∀ l ∈ installLsa net desc list lsah, sizeofHeader ≤ l.bytes.length :=
    room_install sized kept.room
  have outcome := installs_installLsa net desc list lsah
  generalize installLsa net desc list lsah = list' at outcome room ⊢
  cases outcome with
  | keep => exact kept
  | add absent _ _ =>
    have other : (lsaHeader lsah).key ≠ k := by
      rintro rfl
      rw [hfind] at absent
      cases absent
    refine ⟨room, ?_, first, ?_, foreign, le⟩
    · intro l hl foreign key hseq
      rcases List.mem_cons.mp hl with rfl | old
      · exact absurd (hkey.symm.trans key) other
      · exact kept.counted l old foreign key hseq
    · rw [lsaListFind_cons, hkey, if_neg other]
      exact hfind
  | @age found present =>
    have same : found.key = (lsaHeader lsah).key := lsaListFind_key present
    refine kept.update present ((OspfLsa.key_setAge found maxAge).trans same) room ?_ ?_
    · intro l hl _ _ _
      have two : 2 ≤ l.bytes.length := Nat.le_trans (by decide) (kept.room l hl)
      exact .inr (Nat.le_of_eq (congrArg BitVec.toNat (OspfLsa.age_setAge maxAge two).symm))
    · rintro rfl
      rw [hfind] at present
      cases present
      exact ⟨foreign, (OspfLsa.seq_setAge first maxAge).symm ▸ le⟩
  | @note found present =>
    have same : found.key = (lsaHeader lsah).key := lsaListFind_key present
    refine kept.update present same room kept.counted ?_
    rintro rfl
    rw [hfind] at present
    cases present
    exact ⟨foreign, le⟩
  | @replace found present _ newer =>
    have later : (lsaHeader lsah).key = k → seq < (lsaHeader lsah).seq := by
      rintro rfl
      rw [hfind] at present
      cases present
      exact Nat.lt_of_le_of_lt (BitVec.le_def.mp le) (BitVec.lt_def.mp newer)
    refine kept.update present hkey room ?_ ?_
    · intro _ _ _ key hseq
      have less := later (hkey.symm.trans key)
      rw [header] at hseq
      rw [hseq] at less
      exact absurd less (BitVec.lt_irrefl _)
    · intro same
      refine ⟨rfl, ?_⟩
      rw [header]
      exact BitVec.le_of_lt (later same)

theorem Counted.second (counted : Counted k seq n (s.list slot)) (aged : Aged s s') :
    Counted k seq (n+1) (s'.list slot) ∧
      ∀ l ∈ s'.list slot, l.header.age.toNat < maxAge.toNat := by
  have origin : ∀ l ∈ s'.list slot, ∃ a ∈ s.list slot, OneOlder _ _ a (some l) :=
    fun l hl => (aged slot).source hl
  constructor
  · intro l hl foreign key hseq
    obtain ⟨a, ha, older⟩ := origin l hl
    cases older with
    | own _ own' _ _ =>
      rw [foreign] at own'
      cases own'
    | older foreign₀ _ older young same =>
      have header := OspfLsa.header_congr same
      have key₀ : a.key = k := by
        rw [← key, OspfLsa.key, OspfLsa.key, header]
        exact (OspfLsa.key_setAge a _).symm
      have seq₀ : a.header.seq = seq := by
        rw [← hseq, header]
        exact (OspfLsa.seq_setAge a _).symm
      have below := BitVec.lt_def.mp young
      rcases counted a ha foreign₀ key₀ seq₀ with at_least | due
      · exact .inl (by omega)
      · omega
  · intro l hl
    obtain ⟨a, ha, older⟩ := origin l hl
    cases older with
    | own _ _ _ young => exact BitVec.lt_def.mp young
    | older _ _ _ young _ => exact BitVec.lt_def.mp young

theorem Stays.bound (stays : Stays slot k seq n s) :
    Room s ∧ Holds s slot k seq ∧ Counted k seq n (s.list slot) ∧ n < maxAge.toNat := by
  induction stays with
  | start reached held =>
    exact ⟨reached.room, held, fun l _ _ _ _ => .inl (Nat.zero_le _), by decide⟩
  | @other n s s' op before sized step quiet held ih =>
    obtain ⟨room, ⟨l, hfind, foreign, hseq⟩, counted, less⟩ := ih
    refine ⟨step_room room sized step, held, ?_, less⟩
    have apart : Quiet s s' → Counted k seq n (s'.list slot) := by
      intro quiet l hl foreign
      rcases quiet slot l hl with old | ⟨own, _⟩
      · exact counted l old foreign
      · rw [foreign] at own
        cases own
    cases op with
    | receive pkt desc =>
      cases step
      have kept : Kept k seq n (s.list slot) :=
        ⟨room slot, counted, l, hfind, foreign, hseq ▸ BitVec.le_refl _⟩
      exact (list_restore (fun _ _ lsah hlsah kept => kept.install (sized lsah hlsah)) slot
        kept).counted
    | timeout => exact absurd rfl quiet
    | originate areaId lsa =>
      cases step
      exact apart (Quiet.lsadbAdd s areaId lsa)
    | remove slot i =>
      cases step
      exact apart (Quiet.lsadbRemove s slot i)
    | networks areaId networks =>
      cases step
      exact apart (Quiet.setNetworks s areaId networks)
    | removeArea areaId =>
      cases step
      exact apart (Quiet.removeArea s areaId)
  | @second n s s' before step timely held ih =>
    obtain ⟨room, _, counted, _⟩ := ih
    obtain ⟨fuel, ended⟩ := step
    obtain ⟨counted', young⟩ := counted.second ((aged_iff room ended).mpr timely)
    refine ⟨@step_room _ _ .timeout room trivial ⟨fuel, ended⟩, held, counted', ?_⟩
    obtain ⟨l, hfind, foreign, hseq⟩ := held
    have member := List.mem_of_find?_eq_some hfind
    have below := young l member
    rcases counted' l member foreign (lsaListFind_key hfind) hseq with at_least | due
    · omega
    · omega

end Stays

section Ends

variable {s s' : Ospf}

theorem flushAll_mono {fuel more : Nat} (le : fuel ≤ more) (ended : flushAll fuel s = some s') :
    flushAll more s = some s' := by
  unfold flushAll at ended ⊢
  split at ended
  · rename_i drains
    simp only [List.all_eq_true] at drains
    have same : ∀ p ∈ s.areas.entries, ∀ net ∈ p.2.network,
        flushFlooding more net = flushFlooding fuel net := by
      intro p hp net hnet
      obtain ⟨r, hr⟩ := Option.isSome_iff_exists.mp (drains p hp net hnet)
      rw [hr]
      exact flushFlooding_mono le hr
    have all : s.areas.entries.all
        (fun p => p.2.network.all (fun net => (flushFlooding more net).isSome)) = true := by
      simp only [List.all_eq_true]
      intro p hp net hnet
      rw [same p hp net hnet]
      exact drains p hp net hnet
    rw [if_pos all, ← ended]
    have areas : s.areas.mapAreas (fun _ area =>
        { area with network := area.network.map (fun net => (flushed more net).1) }) =
        s.areas.mapAreas (fun _ area =>
        { area with network := area.network.map (fun net => (flushed fuel net).1) }) := by
      simp only [Areas.mapAreas, Areas.mk.injEq]
      refine List.map_congr_left (fun p hp => ?_)
      congr 2
      refine List.map_congr_left (fun net hnet => ?_)
      rw [flushed, flushed, same p hp net hnet]
    have sent : s.areas.entries.flatMap
        (fun p => p.2.network.flatMap (fun net => (flushed more net).2)) =
        s.areas.entries.flatMap
        (fun p => p.2.network.flatMap (fun net => (flushed fuel net).2)) := by
      refine List.flatMap_congr (fun p hp => ?_)
      refine List.flatMap_congr (fun net hnet => ?_)
      rw [flushed, flushed, same p hp net hnet]
    rw [areas, sent]
  · cases ended

theorem flushAll_ends (fit : QueuesFit s) : ∃ fuel s', flushAll fuel s = some s' := by
  let lengths := s.areas.entries.flatMap
    (fun p => p.2.network.map (fun net => net.floodingAllspfrouters.length))
  refine ⟨lengths.sum, ?_⟩
  have all : s.areas.entries.all (fun p => p.2.network.all
      (fun net => (flushFlooding lengths.sum net).isSome)) = true := by
    simp only [List.all_eq_true]
    intro p hp net hnet
    have listed : net.floodingAllspfrouters.length ∈ lengths :=
      List.mem_flatMap.mpr ⟨p, hp, List.mem_map_of_mem hnet⟩
    obtain ⟨after, pkts, ended, _⟩ :=
      flushFlooding_ends (fit p hp net hnet) (List.le_sum_of_mem listed)
    rw [ended]
    rfl
  exact ⟨_, by rw [flushAll, if_pos all]⟩

theorem lsadbTimeout_ends (room : Room s) (fits : Fits s) :
    ∃ fuel s', lsadbTimeout fuel s = some s' := by
  obtain ⟨fuel, drained, hdrained⟩ :=
    flushAll_ends (s := { s with floods := [], tx := [] }) fits.queued
  have first : Frame True { s with floods := [], tx := [] } { drained with lsaFlooded := 0 } :=
    frame_drained hdrained
  have room' : Room { drained with lsaFlooded := 0 } := by
    intro slot
    rw [first.list slot]
    exact room slot
  have fits' : Fits { drained with lsaFlooded := 0 } := by
    refine ⟨?_, first.queues trivial fits.queued⟩
    intro slot
    rw [first.list slot]
    exact fits.stored slot
  obtain ⟨more, s', hrest⟩ := flushAll_ends ((walks_ageAll room').queues fits')
  refine ⟨max fuel more, s', ?_⟩
  simp only [lsadbTimeout, Option.bind_eq_bind, Option.bind_eq_some_iff]
  exact ⟨drained, flushAll_mono (Nat.le_max_left _ _) hdrained,
    flushAll_mono (Nat.le_max_right _ _) hrest⟩

end Ends

/-- In every database reached with advertisements that have a header, a second ends
when everything fits a packet; it ages the database as meant exactly when no age of
another router's advertisement overflows and no area with advertisements to age has lost its
networks; and while this is so, such an advertisement stays for at most `MaxAge` seconds. -/
theorem lsdb_ages {s : Ospf} (reached : Reached s) :
    (Fits s → ∃ fuel s', lsadbTimeout fuel s = some s') ∧
      (∀ fuel s', lsadbTimeout fuel s = some s' → (Aged s s' ↔ Timely s)) ∧
      ∀ slot k seq n, Stays slot k seq n s → n ≤ maxAge.toNat := by
  refine ⟨lsadbTimeout_ends reached.room, fun fuel s' => aged_iff reached.room, ?_⟩
  intro slot k seq n stays
  exact Nat.le_of_lt stays.bound.2.2.2

/-- A router with one network that has heard nothing yet. -/
def silent : Ospf where
  areas := ⟨[(0, ⟨false, [], [designated]⟩)], by decide⟩
  extlist := []
  ospfRouterId := 0x09090909
  seqNumber := initialSequenceNumber
  lsaFlooded := 0
  floods := []
  tx := []

def summaryUpdate (age : BitVec 16) : UpdatePacket := updateOf 1 (summaryLsa age 0x80000001 0x0f3c)

/-- The router after it has received a summary with this age. -/
def heard (age : BitVec 16) : Ospf :=
  silent.restore (lsupdateRx silent.router (summaryUpdate age) fromNeighbor).1

theorem silent_list (slot : Option (BitVec 32)) : silent.list slot = [] := by
  cases slot with
  | none => rfl
  | some id =>
    by_cases here : id = 0
    · rw [here]
      rfl
    · have other : (id == (0 : BitVec 32)) = false := beq_false_of_ne here
      simp only [Ospf.list, Areas.find, silent, List.lookup_cons, other]
      rfl

theorem heard_list {age : BitVec 16} (area : (heard age).list none = []) {slot : Option (BitVec 32)}
    (other : slot ≠ some 0) : (heard age).list slot = [] := by
  cases slot with
  | none => exact area
  | some id =>
    have differs : (id == (0 : BitVec 32)) = false :=
      beq_false_of_ne (fun h => other (congrArg some h))
    have absent : silent.areas.find id = none := by
      simp only [Areas.find, silent, List.lookup_cons, differs]
      rfl
    simp only [heard, Ospf.list, Ospf.restore, Areas.find_mapAreas, absent]
    rfl

theorem reached_heard (age : BitVec 16)
    (sized : ∀ lsah ∈ (summaryUpdate age).lsas, sizeofHeader ≤ (lsaHeader lsah).length.toNat) :
    Reached (heard age) :=
  @Reached.step silent _ (.receive (summaryUpdate age) fromNeighbor) (.start silent_list) sized rfl

theorem fits_heard : Fits (heard 5) := by
  refine ⟨?_, ?_⟩
  · intro slot
    by_cases here : slot = some 0
    · rw [here]
      decide
    · rw [heard_list rfl here]
      exact fun l hl => by cases hl
  · unfold QueueFits
    decide

theorem lsdb_ages_heard :
    Reached (heard 5) ∧
      ∃ fuel s', lsadbTimeout fuel (heard 5) = some s' ∧ Aged (heard 5) s' := by
  have reached : Reached (heard 5) := reached_heard 5 (by decide)
  obtain ⟨ends, ages, _⟩ := lsdb_ages reached
  obtain ⟨fuel, s', ended⟩ := ends fits_heard
  refine ⟨reached, fuel, s', ended, (ages fuel s' ended).mpr ⟨?_, ?_⟩⟩
  · intro slot l hl _ last
    by_cases here : slot = some 0
    · rw [here] at hl
      have young : ∀ l ∈ (heard 5).list (some 0), l.header.age ≠ 0xffff := by decide
      exact absurd last (young l hl)
    · rw [heard_list rfl here] at hl
      cases hl
  · intro id unlinked l hl
    by_cases here : id = 0
    · subst here
      exact absurd ⟨_, rfl, by decide⟩ unlinked
    · rw [heard_list rfl (fun same => here (Option.some.inj same))] at hl
      cases hl

/-- The interface of the only network goes down. -/
def withdrawn : Ospf := setNetworks (heard 5) 0 []

/-- The age 65535 becomes 0, and the advertisement stays; without a network it keeps its age. -/
theorem overflowing_age_stays :
    (Reached (heard 0xffff) ∧
      ∃ s', lsadbTimeout 1 (heard 0xffff) = some s' ∧
        (s'.list (some 0)).map (·.header.age) = [0] ∧ ¬ Aged (heard 0xffff) s') ∧
    (Reached withdrawn ∧
      ∃ s', lsadbTimeout 1 withdrawn = some s' ∧
        (s'.list (some 0)).map (·.header.age) = [5] ∧ ¬ Aged withdrawn s') := by
  refine ⟨?_, ?_⟩
  · have reached : Reached (heard 0xffff) := reached_heard _ (by decide)
    have ended : ((lsadbTimeout 1 (heard 0xffff)).map
        (fun s => (s.list (some 0)).map (·.header.age))) = some [0] := by decide +kernel
    obtain ⟨s', hs', ages⟩ := Option.map_eq_some_iff.mp ended
    refine ⟨reached, s', hs', ages, fun aged => ?_⟩
    have timely := (aged_iff reached.room hs').mp aged
    have stored : ∃ l ∈ (heard 0xffff).list (some 0), l.selfOriginated = false ∧
        l.header.age = 0xffff ∧ l.flood = 1 := by decide
    obtain ⟨l, hl, foreign, last, waits⟩ := stored
    have idle := (timely.counts (some 0) l hl foreign last).1
    omega
  · have reached : Reached withdrawn :=
      @Reached.step (heard 5) _ (.networks 0 []) (reached_heard 5 (by decide)) trivial rfl
    have ended : ((lsadbTimeout 1 withdrawn).map
        (fun s => (s.list (some 0)).map (·.header.age))) = some [5] := by decide +kernel
    obtain ⟨s', hs', ages⟩ := Option.map_eq_some_iff.mp ended
    refine ⟨reached, s', hs', ages, fun aged => ?_⟩
    have timely := (aged_iff reached.room hs').mp aged
    have unlinked : ¬ withdrawn.linked 0 := by
      rintro ⟨area, found, some_network⟩
      cases found
      exact some_network rfl
    have stored : ∃ l ∈ withdrawn.list (some 0), l.selfOriginated = false := by decide
    obtain ⟨l, hl, foreign⟩ := stored
    rw [(timely.passed 0 unlinked l hl).1] at foreign
    cases foreign

end LsaAging
