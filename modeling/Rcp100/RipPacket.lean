import Rcp100.ByteBuffer
import Rcp100.RipConsistency

/-!
# RIP packets

A response is split into packets of 25 records. Where the interface has a password, the
first and the last record are taken by the authentication header and the digest, and 23
are left. The receiver finds the same layout again from the size of the datagram. Log
lines and statistics are left out, and so is the passive interface, which sends nothing.
-/

namespace RipPacket

open ByteBuffer RipDb RipResponse
open RipConsistency (Announceable FromCaller blank lan siblingOps)

/-- `MAX_ROUTES_PKT`. -/
def maxRoutesPkt : Nat := 25

/-- `sizeof(RipRoute)`, which is that of the authentication header too. -/
def sizeofRoute : Nat := 20

def ripPktLen (routes : Nat) : Nat := 4 + sizeofRoute*routes

/-- `rip_passwd`: at most `CLI_RIP_PASSWD` characters; the empty one stands for none. -/
structure Passwd where
  chars : List (BitVec 8)
  text : ∀ c ∈ chars, c ≠ 0
  bound : chars.length ≤ 16

/-- The password, filled up with zeros. -/
def Passwd.secret (p : Passwd) : List (BitVec 8) :=
  p.chars ++ List.replicate (16 - p.chars.length) 0

/-- A record in network order. -/
def routeBytes (r : RipRoute) : List (BitVec 8) :=
  be16 (BitVec.ofNat 16 r.family) ++ be16 (BitVec.ofNat 16 r.tag) ++ be32 r.ip ++ be32 r.mask ++
    be32 r.gw ++ be32 (BitVec.ofNat 32 r.metric)

def getRoute (b : Buffer) (o : Nat) : RipRoute where
  family := (get16 b o).toNat
  tag := (get16 b (o+2)).toNat
  ip := get32 b (o+4)
  mask := get32 b (o+8)
  gw := get32 b (o+12)
  metric := (get32 b (o+16)).toNat

/-- `RipAuthMd5`. -/
def authHeader (cnt : Nat) (time : BitVec 32) : List (BitVec 8) :=
  be16 0xffff ++ be16 3 ++ be16 (BitVec.ofNat 16 (ripPktLen (cnt+1))) ++ [1, 20] ++ be32 time ++
    List.replicate 8 0

section Send

variable (md5 : List (BitVec 8) → Digest) (passwd : Passwd)

/-- The packet with its authentication header and the mark of the digest, before the digest
is written. -/
def unsigned (time : BitVec 32) (rt : List RipRoute) : Buffer :=
  let cnt := rt.length
  let pkt := write (write zero 0 [2, 2, 0, 0]) 4 (authHeader cnt time)
  let pkt := write pkt (4 + sizeofRoute) (rt.flatMap routeBytes)
  write pkt (4 + sizeofRoute*(cnt+1)) (be16 0xffff ++ be16 1)

/-- The datagram of so many records. -/
def sendResponse (time : BitVec 32) (rt : List RipRoute) : List (BitVec 8) :=
  let cnt := rt.length
  if passwd.chars = [] then
    slice (write (write zero 0 [2, 2, 0, 0]) 4 (rt.flatMap routeBytes)) 0 (ripPktLen cnt)
  else
    let pkt := unsigned time rt
    let size := ripPktLen (cnt+2)
    let digest := md5 (slice pkt 0 (size - 16) ++ passwd.secret)
    slice (write pkt (4 + ripPktLen (cnt+1)) digest.1) 0 size

def recordsPerPacket : Nat := if passwd.chars = [] then maxRoutesPkt else maxRoutesPkt - 2

/-- The datagrams of a response; `times` is the clock at each of them. -/
def txresponse (times : Nat → BitVec 32) (routes : List RipRoute) : List (List (BitVec 8)) :=
  let rcnt := routes.length
  let per := recordsPerPacket passwd
  let rpkt := rcnt / per
  (List.range rpkt).map
      (fun i => sendResponse md5 passwd (times i) ((routes.drop (i*per)).take per)) ++
    [sendResponse md5 passwd (times rpkt) ((routes.drop (rpkt*per)).take (rcnt % per))]

end Send

structure Interface where
  ip : BitVec 32
  mask : BitVec 32
  kindex : Nat
  ripPasswd : Passwd

/-- A configured neighbor or network. -/
structure RcpRipPartner where
  ip : BitVec 32
  mask : BitVec 32

structure Config where
  intf : List Interface
  ripNeighbor : List RcpRipPartner
  ripNetwork : List RcpRipPartner

def rcpFindInterface (cfg : Config) (ip : BitVec 32) : Option Interface :=
  if ip = 0 then none else cfg.intf.find? (fun intf => intf.ip = ip)

def rcpFindInterfaceByKIndex (cfg : Config) (kindex : Nat) : Option Interface :=
  cfg.intf.find? (fun intf => intf.kindex = kindex)

def findNetworkForInterface (cfg : Config) (intf : Interface) : Option RcpRipPartner :=
  if intf.ip = 0 then none
  else cfg.ripNetwork.find? (fun net =>
    net.mask ≤ intf.mask && (intf.ip &&& net.mask) = (net.ip &&& net.mask))

structure Datagram where
  ipSource : BitVec 32
  ipDest : BitVec 32
  ifIndex : Nat
  data : List (BitVec 8)

/-- What was received: the buffer has the size of a packet with 25 records. -/
def Datagram.received (d : Datagram) : List (BitVec 8) := d.data.take (ripPktLen maxRoutesPkt)

def Datagram.size (d : Datagram) : Nat := d.received.length

def Datagram.buffer (d : Datagram) : Buffer := ofList d.received

/-- The number of records that the size stands for. -/
def Datagram.records (d : Datagram) : Nat := (d.size - 4) / sizeofRoute

/-- The neighbor list keeps a sequence number for each source. -/
structure RipNeighbor where
  ip : BitVec 32
  authSeq : BitVec 32

/-- How a datagram is dropped, or the records that are walked over. -/
inductive Verdict where
  | invalidSize
  | ownAddress
  | invalidInterface
  | invalidNetwork
  | invalidSource
  | invalidCommand
  | request
  | missingHeader
  | invalidOffset
  | invalidSequence
  | invalidDigest
  | routes (walked : List RipRoute)

def Verdict.walked : Verdict → List RipRoute
  | .routes l => l
  | _ => []

/-- A source that is not in the list is put in front of it. -/
def touchNeighbor (neighbors : List RipNeighbor) (ip : BitVec 32) : List RipNeighbor :=
  if neighbors.any (fun n => n.ip = ip) then neighbors else ⟨ip, 0⟩ :: neighbors

/-- The sequence number of a source; a source that is not in the list starts with 0. -/
def authSeqOf : List RipNeighbor → BitVec 32 → BitVec 32
  | [], _ => 0
  | n :: rest, ip => if n.ip = ip then n.authSeq else authSeqOf rest ip

def setAuthSeq : List RipNeighbor → BitVec 32 → BitVec 32 → List RipNeighbor
  | [], _, _ => []
  | n :: rest, ip, seq =>
    if n.ip = ip then { n with authSeq := seq } :: rest else n :: setAuthSeq rest ip seq

/-- The checks on the size and the source, before the source becomes a neighbor. -/
def precheck (cfg : Config) (d : Datagram) : Option Verdict :=
  if d.size ≤ 4 ∨ (d.size - 4) % sizeofRoute ≠ 0 then some .invalidSize
  else if (rcpFindInterface cfg d.ipSource).isSome then some .ownAddress
  else none

/-- The checks from the interface to the command. -/
def admission (cfg : Config) (d : Datagram) : Except Verdict Interface :=
  match rcpFindInterfaceByKIndex cfg d.ifIndex with
  | none => .error .invalidInterface
  | some rxif =>
    let configured := cfg.ripNeighbor.any (fun net => net.ip = d.ipSource && rxif.ip = d.ipDest)
    if !configured && (findNetworkForInterface cfg rxif).isNone then .error .invalidNetwork
    else if (d.ipSource &&& rxif.mask) ≠ (rxif.ip &&& rxif.mask) then .error .invalidSource
    else if 2 < d.buffer 0 then .error .invalidCommand
    else if d.buffer 0 = 1 then .error .request
    else .ok rxif

/-- The records from `rt` on. -/
def walk (b : Buffer) (rt routes : Nat) : List RipRoute :=
  (List.range' rt (routes - rt)).map (fun i => getRoute b (4 + sizeofRoute*i))

section Receive

variable (md5 : List (BitVec 8) → Digest)

/-- The sequence number of the authentication header. -/
def Datagram.seq (d : Datagram) : BitVec 32 := get32 d.buffer 12

def Datagram.offsetFits (d : Datagram) : Bool := (get16 d.buffer 8).toNat + sizeofRoute = d.size

def Datagram.digestFits (d : Datagram) (passwd : Passwd) : Bool :=
  slice d.buffer (4 + (get16 d.buffer 8).toNat) 16 =
    (md5 (slice d.buffer 0 (d.size - 16) ++ passwd.secret)).1

/-- The sequence number is stored before the digest is checked. -/
def rxAuth (passwd : Passwd) (d : Datagram) (authSeq : BitVec 32) : BitVec 32 × Verdict :=
  if d.offsetFits = false then (authSeq, .invalidOffset)
  else if d.seq ≠ 0 ∧ d.seq < authSeq then (authSeq, .invalidSequence)
  else if d.digestFits md5 passwd = false then (d.seq, .invalidDigest)
  else (d.seq, .routes (walk d.buffer 1 (d.records - 1)))

/-- The authentication of a response, and its records. -/
def rxResponse (passwd : Passwd) (d : Datagram) (authSeq : BitVec 32) : BitVec 32 × Verdict :=
  let family := get16 d.buffer 4
  let tag := get16 d.buffer 6
  if passwd.chars ≠ [] ∧ (family ≠ 0xffff ∨ tag ≠ 3) then (authSeq, .missingHeader)
  else if family = 0xffff then
    if tag = 3 ∧ passwd.chars ≠ [] then rxAuth md5 passwd d authSeq
    else (authSeq, .routes (walk d.buffer 1 (d.records - 1)))
  else (authSeq, .routes (walk d.buffer 0 d.records))

def rxpacket (cfg : Config) (neighbors : List RipNeighbor) (d : Datagram) :
    List RipNeighbor × Verdict :=
  match precheck cfg d with
  | some dropped => (neighbors, dropped)
  | none =>
    let known := touchNeighbor neighbors d.ipSource
    match admission cfg d with
    | .error dropped => (known, dropped)
    | .ok rxif =>
      let r := rxResponse md5 rxif.ripPasswd d (authSeqOf known d.ipSource)
      (setAuthSeq known d.ipSource r.1, r.2)

/-- The datagrams of a run, each with what it led to. -/
def rxAll (cfg : Config) (neighbors : List RipNeighbor) : List Datagram → List Verdict
  | [] => []
  | d :: rest =>
    let r := rxpacket md5 cfg neighbors d
    r.2 :: rxAll cfg r.1 rest

end Receive

section Layout

variable {b : Buffer} {o : Nat}

/-- The fields of a record fit into their bytes. -/
structure Wire (r : RipRoute) : Prop where
  family : r.family = 2
  tag : r.tag < 0x10000
  metric : r.metric < 0x100000000

@[simp] theorem length_routeBytes (r : RipRoute) : (routeBytes r).length = sizeofRoute := rfl

theorem length_records (rt : List RipRoute) :
    (rt.flatMap routeBytes).length = sizeofRoute * rt.length := by
  rw [List.length_flatMap, List.map_congr_left (fun r _ => length_routeBytes r)]
  simp [Nat.mul_comm]

theorem getRoute_eq {r : RipRoute} (wire : Wire r) (stored : slice b o sizeofRoute = routeBytes r) :
    getRoute b o = r := by
  have parts : slice b o 2 ++ slice b (o+2) 2 ++ slice b (o+4) 4 ++ slice b (o+8) 4 ++
      slice b (o+12) 4 ++ slice b (o+16) 4 = routeBytes r := by
    rw [← stored, sizeofRoute]
    simp only [← slice_add]
  rw [routeBytes] at parts
  obtain ⟨parts, metric⟩ := List.append_inj parts (by simp)
  obtain ⟨parts, gw⟩ := List.append_inj parts (by simp)
  obtain ⟨parts, mask⟩ := List.append_inj parts (by simp)
  obtain ⟨parts, ip⟩ := List.append_inj parts (by simp)
  obtain ⟨family, tag⟩ := List.append_inj parts (by simp)
  simp only [getRoute, get16_eq family, get16_eq tag, get32_eq ip, get32_eq mask, get32_eq gw,
    get32_eq metric, BitVec.toNat_ofNat, wire.family, Nat.mod_eq_of_lt wire.tag,
    Nat.mod_eq_of_lt wire.metric]
  cases r
  cases wire.family
  rfl

theorem walk_eq {rt : List RipRoute} (wire : ∀ r ∈ rt, Wire r) {first : Nat}
    (stored : slice b (4 + sizeofRoute*first) (sizeofRoute * rt.length) = rt.flatMap routeBytes) :
    walk b first (first + rt.length) = rt := by
  rw [walk, Nat.add_sub_cancel_left]
  induction rt generalizing first with
  | nil => rfl
  | cons r rest ih =>
    rw [List.length_cons, Nat.mul_succ, Nat.add_comm (sizeofRoute * rest.length), slice_add,
      List.flatMap_cons] at stored
    obtain ⟨here, later⟩ := List.append_inj stored (by simp)
    have next : 4 + sizeofRoute*first + sizeofRoute = 4 + sizeofRoute*(first+1) := by
      rw [sizeofRoute]
      omega
    rw [next] at later
    rw [List.length_cons, List.range'_succ, List.map_cons,
      getRoute_eq (wire r List.mem_cons_self) here]
    exact congrArg (r :: ·) (ih (fun x hx => wire x (List.mem_cons_of_mem r hx)) later)

theorem header_fields {cnt : Nat} {time : BitVec 32}
    (stored : slice b 4 sizeofRoute = authHeader cnt time) :
    get16 b 4 = 0xffff ∧ get16 b 6 = 3 ∧
      get16 b 8 = BitVec.ofNat 16 (ripPktLen (cnt+1)) ∧ get32 b 12 = time := by
  have parts : slice b 4 2 ++ slice b (4+2) 2 ++ slice b (4+4) 2 ++ slice b (4+6) 2 ++
      slice b (4+8) 4 ++ slice b (4+12) 8 = authHeader cnt time := by
    rw [← stored, sizeofRoute]
    simp only [← slice_add]
  rw [authHeader] at parts
  obtain ⟨parts, _⟩ := List.append_inj parts (by simp)
  obtain ⟨parts, seq⟩ := List.append_inj parts (by simp)
  obtain ⟨parts, _⟩ := List.append_inj parts (by simp)
  obtain ⟨parts, offset⟩ := List.append_inj parts (by simp)
  obtain ⟨family, tag⟩ := List.append_inj parts (by simp)
  exact ⟨get16_eq family, get16_eq tag, get16_eq offset, get32_eq seq⟩

@[simp] theorem length_authHeader (cnt : Nat) (time : BitVec 32) :
    (authHeader cnt time).length = sizeofRoute := rfl

theorem unsigned_parts (time : BitVec 32) (rt : List RipRoute) :
    unsigned time rt 0 = 2 ∧ slice (unsigned time rt) 4 sizeofRoute = authHeader rt.length time ∧
      slice (unsigned time rt) (4 + sizeofRoute) (sizeofRoute * rt.length) =
        rt.flatMap routeBytes := by
  have records := length_records rt
  have header := length_authHeader rt.length time
  have size : sizeofRoute = 20 := rfl
  have next : sizeofRoute * (rt.length+1) = sizeofRoute * rt.length + sizeofRoute := Nat.mul_succ ..
  simp only [unsigned]
  refine ⟨?_, ?_, ?_⟩
  · rw [write_of_lt _ _ (by omega), write_of_lt _ _ (by omega), write_of_lt _ _ (by omega)]
    rfl
  · rw [slice_write_before _ _ (by omega), slice_write_before _ _ (by omega)]
    exact slice_write_self _ 4 header
  · rw [slice_write_before _ _ (by omega)]
    exact slice_write_self _ _ records

end Layout

section Datagrams

variable {d : Datagram} {p : Buffer} {n : Nat}

theorem received_eq (sent : d.data = slice p 0 n) (fits : n ≤ ripPktLen maxRoutesPkt) :
    d.size = n ∧ ∀ o m, o + m ≤ n → slice d.buffer o m = slice p o m := by
  have whole : d.received = slice p 0 n := by
    rw [Datagram.received, sent]
    exact List.take_of_length_le (by simpa using fits)
  refine ⟨by rw [Datagram.size, whole, length_slice], ?_⟩
  intro o m inside
  refine slice_congr (fun i _ _ => ?_)
  rw [Datagram.buffer, whole, ofList_slice p (by omega), Nat.zero_add]

theorem received_byte (sent : d.data = slice p 0 n) (fits : n ≤ ripPktLen maxRoutesPkt) {i : Nat}
    (inside : i < n) : d.buffer i = p i := by
  have single := (received_eq sent fits).2 i 1 inside
  simpa [slice] using single

variable {md5 : List (BitVec 8) → Digest} {passwd : Passwd} {time authSeq : BitVec 32}
variable {rt : List RipRoute}

theorem rxResponse_plain (open' : passwd.chars = []) (wire : ∀ r ∈ rt, Wire r) (some' : rt ≠ [])
    (few : rt.length ≤ maxRoutesPkt) (sent : d.data = sendResponse md5 passwd time rt) :
    d.size = ripPktLen rt.length ∧ d.buffer 0 = 2 ∧
      rxResponse md5 passwd d authSeq = (authSeq, .routes rt) := by
  have records := length_records rt
  have size : sizeofRoute = 20 := rfl
  have fits : ripPktLen rt.length ≤ ripPktLen maxRoutesPkt := by
    simp only [ripPktLen, size]
    omega
  simp only [sendResponse, open', if_true] at sent
  obtain ⟨hsize, slices⟩ := received_eq sent fits
  have stored : slice d.buffer 4 (sizeofRoute * rt.length) = rt.flatMap routeBytes := by
    rw [slices _ _ (by simp only [ripPktLen]; omega)]
    exact slice_write_self _ 4 records
  have walked : walk d.buffer 0 rt.length = rt := by
    have all : walk d.buffer 0 (0 + rt.length) = rt := walk_eq wire stored
    rwa [Nat.zero_add] at all
  refine ⟨hsize, ?_, ?_⟩
  · rw [received_byte sent fits (by simp only [ripPktLen]; omega), write_of_lt _ _ (by omega)]
    rfl
  · obtain ⟨r, rest, rfl⟩ := List.exists_cons_of_ne_nil some'
    have family : get16 d.buffer 4 ≠ 0xffff := by
      have first : getRoute d.buffer 4 = r := by
        rw [List.length_cons, walk] at walked
        exact (List.cons.inj walked).1
      have two : (getRoute d.buffer 4).family = 2 := by
        rw [first]
        exact (wire r List.mem_cons_self).family
      intro mark
      simp only [getRoute, mark] at two
      exact absurd two (by decide)
    have count : d.records = (r :: rest).length := by
      rw [Datagram.records, hsize, ripPktLen, size]
      omega
    simp only [rxResponse, open', ne_eq, not_true_eq_false, false_and, if_false, family]
    rw [count, walked]

/-- With a password the digest is found where it was written, over the same bytes. -/
theorem rxResponse_signed (closed : passwd.chars ≠ []) (wire : ∀ r ∈ rt, Wire r)
    (few : rt.length ≤ maxRoutesPkt - 2) (sent : d.data = sendResponse md5 passwd time rt)
    (fresh : authSeq ≤ time) :
    d.size = ripPktLen (rt.length+2) ∧ d.buffer 0 = 2 ∧
      rxResponse md5 passwd d authSeq = (time, .routes rt) := by
  have records := length_records rt
  have size : sizeofRoute = 20 := rfl
  have total : ripPktLen (rt.length+2) = sizeofRoute * rt.length + 44 := by
    simp only [ripPktLen, size]
    omega
  have place : ripPktLen (rt.length+1) = sizeofRoute * rt.length + 24 := by
    simp only [ripPktLen, size]
    omega
  have fits : ripPktLen (rt.length+2) ≤ ripPktLen maxRoutesPkt := by
    simp only [ripPktLen, size, maxRoutesPkt] at few ⊢
    omega
  have small : ripPktLen (rt.length+1) < 0x10000 := by
    simp only [ripPktLen, size, maxRoutesPkt] at few ⊢
    omega
  obtain ⟨command, header, stored⟩ := unsigned_parts time rt
  simp only [sendResponse, if_neg closed] at sent
  have digestLength := (md5 (slice (unsigned time rt) 0 (ripPktLen (rt.length+2) - 16) ++
    passwd.secret)).2
  obtain ⟨hsize, slices⟩ := received_eq sent fits
  have before : ∀ o n, o + n ≤ 4 + ripPktLen (rt.length+1) →
      slice d.buffer o n = slice (unsigned time rt) o n := by
    intro o n inside
    rw [slices o n (by omega), slice_write_before _ _ inside]
  obtain ⟨family, tag, offset, seq⟩ :=
    header_fields ((before 4 sizeofRoute (by omega)).trans header)
  have offsetIs : (get16 d.buffer 8).toNat = ripPktLen (rt.length+1) := by
    rw [offset, BitVec.toNat_ofNat]
    exact Nat.mod_eq_of_lt small
  have walked : walk d.buffer 1 (1 + rt.length) = rt :=
    walk_eq wire ((before _ _ (by omega)).trans stored)
  have offsetFits : d.offsetFits = true := by
    rw [Datagram.offsetFits, offsetIs, hsize]
    exact decide_eq_true (by omega)
  have digestFits : d.digestFits md5 passwd = true := by
    rw [Datagram.digestFits, offsetIs, hsize, before 0 _ (by omega), slices _ _ (by omega)]
    exact decide_eq_true (slice_write_self _ _ digestLength)
  have current : ¬ (d.seq ≠ 0 ∧ d.seq < authSeq) := by
    rw [Datagram.seq, seq]
    exact fun old => absurd old.2 (BitVec.not_lt.mpr fresh)
  have count : d.records - 1 = 1 + rt.length := by
    rw [Datagram.records, hsize, total, size]
    omega
  refine ⟨hsize, ?_, ?_⟩
  · rw [received_byte sent fits (by omega), write_of_lt _ _ (by omega)]
    exact command
  · simp only [rxResponse, family, tag, rxAuth, offsetFits, digestFits, current, closed, count,
      walked, ne_eq, not_true_eq_false, not_false_eq_true, or_self, and_false, and_self, if_false,
      if_true, Bool.true_eq_false]
    rw [Datagram.seq, seq]

end Datagrams

section Neighbors

variable (neighbors : List RipNeighbor) (ip : BitVec 32)

theorem authSeqOf_unknown {neighbors : List RipNeighbor} {ip : BitVec 32}
    (unknown : ∀ n ∈ neighbors, n.ip ≠ ip) : authSeqOf neighbors ip = 0 := by
  induction neighbors with
  | nil => rfl
  | cons n rest ih =>
    rw [authSeqOf, if_neg (unknown n List.mem_cons_self)]
    exact ih (fun x hx => unknown x (List.mem_cons_of_mem n hx))

theorem authSeqOf_touchNeighbor :
    authSeqOf (touchNeighbor neighbors ip) ip = authSeqOf neighbors ip := by
  rw [touchNeighbor]
  split
  · rfl
  · rename_i unknown
    rw [authSeqOf, if_pos rfl, authSeqOf_unknown (by simpa using unknown)]

theorem authSeqOf_setAuthSeq {known : List RipNeighbor} (seq : BitVec 32)
    (there : known.any (fun n => n.ip = ip) = true) :
    authSeqOf (setAuthSeq known ip seq) ip = seq := by
  induction known with
  | nil => cases there
  | cons n rest ih =>
    rw [setAuthSeq]
    by_cases here : n.ip = ip
    · rw [if_pos here, authSeqOf, if_pos here]
    · rw [if_neg here, authSeqOf, if_neg here]
      simp only [List.any_cons, here, decide_false, Bool.false_or] at there
      exact ih there

theorem any_touchNeighbor :
    (touchNeighbor neighbors ip).any (fun n => n.ip = ip) = true := by
  rw [touchNeighbor]
  split
  · assumption
  · simp

end Neighbors

/-- The receiver of a response: the sender is another router of the subnet, and RIP runs
on the interface. -/
structure Peer where
  intf : RipInterface
  cfg : Config
  ipDest : BitVec 32
  ifIndex : Nat
  rxif : Interface
  found : rcpFindInterfaceByKIndex cfg ifIndex = some rxif
  foreign : rcpFindInterface cfg intf.ip = none
  configured : (cfg.ripNeighbor.any (fun net => net.ip = intf.ip && rxif.ip = ipDest) ||
    (findNetworkForInterface cfg rxif).isSome) = true
  onLink : (intf.ip &&& rxif.mask) = (rxif.ip &&& rxif.mask)

def Peer.datagram (peer : Peer) (data : List (BitVec 8)) : Datagram :=
  ⟨peer.intf.ip, peer.ipDest, peer.ifIndex, data⟩

@[simp] theorem Peer.datagram_ipSource (peer : Peer) (data : List (BitVec 8)) :
    (peer.datagram data).ipSource = peer.intf.ip := rfl

section Transmission

variable (md5 : List (BitVec 8) → Digest) (peer : Peer)

theorem Peer.rxpacket_eq (neighbors : List RipNeighbor) {data : List (BitVec 8)}
    (large : 4 < (peer.datagram data).size)
    (whole : ((peer.datagram data).size - 4) % sizeofRoute = 0)
    (command : (peer.datagram data).buffer 0 = 2) {seq : BitVec 32} {verdict : Verdict}
    (response : rxResponse md5 peer.rxif.ripPasswd (peer.datagram data)
      (authSeqOf neighbors peer.intf.ip) = (seq, verdict)) :
    ∃ neighbors', rxpacket md5 peer.cfg neighbors (peer.datagram data) = (neighbors', verdict) ∧
      authSeqOf neighbors' peer.intf.ip = seq := by
  have passes : precheck peer.cfg (peer.datagram data) = none := by
    rw [precheck, if_neg (by omega), Peer.datagram_ipSource, peer.foreign]
    rfl
  have admitted : admission peer.cfg (peer.datagram data) = .ok peer.rxif := by
    have found : rcpFindInterfaceByKIndex peer.cfg (peer.datagram data).ifIndex = some peer.rxif :=
      peer.found
    have partner : ¬ ((!peer.cfg.ripNeighbor.any (fun net =>
        net.ip = (peer.datagram data).ipSource && peer.rxif.ip = (peer.datagram data).ipDest) &&
          (findNetworkForInterface peer.cfg peer.rxif).isNone) = true) := by
      have configured := peer.configured
      rw [← Option.not_isSome, ← Bool.not_or, Bool.not_eq_true', Bool.not_eq_false]
      exact configured
    have onLink : ((peer.datagram data).ipSource &&& peer.rxif.mask) =
        (peer.rxif.ip &&& peer.rxif.mask) := peer.onLink
    simp only [admission, found]
    rw [if_neg partner, if_neg (not_not.mpr onLink), command]
    rfl
  refine ⟨setAuthSeq (touchNeighbor neighbors peer.intf.ip) peer.intf.ip seq, ?_, ?_⟩
  · simp only [rxpacket, passes, admitted]
    rw [Peer.datagram_ipSource, authSeqOf_touchNeighbor, response]
  · exact authSeqOf_setAuthSeq _ _ (any_touchNeighbor neighbors _)

theorem Peer.receives {neighbors : List RipNeighbor} {time : BitVec 32} {rt : List RipRoute}
    (wire : ∀ r ∈ rt, Wire r) (few : rt.length ≤ recordsPerPacket peer.rxif.ripPasswd)
    (fresh : authSeqOf neighbors peer.intf.ip ≤ time) :
    ∃ neighbors' verdict, rxpacket md5 peer.cfg neighbors
        (peer.datagram (sendResponse md5 peer.rxif.ripPasswd time rt)) = (neighbors', verdict) ∧
      authSeqOf neighbors' peer.intf.ip ≤ time ∧ verdict.walked = rt ∧
      (sendResponse md5 peer.rxif.ripPasswd time rt).length ≤ ripPktLen maxRoutesPkt ∧
      ((sendResponse md5 peer.rxif.ripPasswd time rt).length = ripPktLen 0 ∨
        verdict = .routes rt) := by
  have size : sizeofRoute = 20 := rfl
  by_cases open' : peer.rxif.ripPasswd.chars = []
  · have length : (sendResponse md5 peer.rxif.ripPasswd time rt).length = ripPktLen rt.length := by
      simp only [sendResponse, open', if_true, length_slice]
    simp only [recordsPerPacket, open', if_true] at few
    have fits : ripPktLen rt.length ≤ ripPktLen maxRoutesPkt := by
      simp only [ripPktLen, size]
      omega
    by_cases none : rt = []
    · subst none
      have dropped : precheck peer.cfg
          (peer.datagram (sendResponse md5 peer.rxif.ripPasswd time [])) = some .invalidSize := by
        have short : (peer.datagram (sendResponse md5 peer.rxif.ripPasswd time [])).size = 4 := by
          rw [Datagram.size, Datagram.received, Peer.datagram, List.length_take, length]
          rfl
        rw [precheck, if_pos (by omega)]
      refine ⟨neighbors, .invalidSize, ?_, fresh, rfl, length ▸ fits, .inl length⟩
      rw [rxpacket, dropped]
    · obtain ⟨hsize, command, response⟩ := rxResponse_plain (d := peer.datagram _) open' wire none
        few rfl
      have some' := List.length_pos_of_ne_nil none
      obtain ⟨neighbors', result, seq⟩ := peer.rxpacket_eq md5 neighbors
        (by rw [hsize, ripPktLen, size]; omega) (by rw [hsize, ripPktLen, size]; omega)
        command response
      exact ⟨neighbors', _, result, seq ▸ fresh, rfl, length ▸ fits, .inr rfl⟩
  · have length : (sendResponse md5 peer.rxif.ripPasswd time rt).length =
        ripPktLen (rt.length+2) := by
      simp only [sendResponse, open', if_false, length_slice]
    simp only [recordsPerPacket, open', if_false] at few
    obtain ⟨hsize, command, response⟩ := rxResponse_signed (d := peer.datagram _) open' wire few
      rfl fresh
    obtain ⟨neighbors', result, seq⟩ := peer.rxpacket_eq md5 neighbors
      (by rw [hsize, ripPktLen, size]; omega) (by rw [hsize, ripPktLen, size]; omega)
      command response
    refine ⟨neighbors', _, result, seq ▸ BitVec.le_refl _, rfl, ?_, .inr rfl⟩
    rw [length]
    simp only [ripPktLen, size, maxRoutesPkt] at few ⊢
    omega

/-- Packets with rising sequence numbers are received one after the other. -/
theorem Peer.receives_all {neighbors : List RipNeighbor} (sent : List (BitVec 32 × List RipRoute))
    (wire : ∀ x ∈ sent, ∀ r ∈ x.2, Wire r)
    (few : ∀ x ∈ sent, x.2.length ≤ recordsPerPacket peer.rxif.ripPasswd)
    (fresh : ∀ x ∈ sent, authSeqOf neighbors peer.intf.ip ≤ x.1)
    (rising : sent.Pairwise (fun x y => x.1 ≤ y.1)) :
    let packets := sent.map (fun x => sendResponse md5 peer.rxif.ripPasswd x.1 x.2)
    let verdicts := rxAll md5 peer.cfg neighbors (packets.map peer.datagram)
    (∀ p ∈ packets, p.length ≤ ripPktLen maxRoutesPkt) ∧
      (∀ x ∈ packets.zip verdicts, x.1.length = ripPktLen 0 ∨ ∃ l, x.2 = .routes l) ∧
      verdicts.flatMap Verdict.walked = sent.flatMap (·.2) := by
  induction sent generalizing neighbors with
  | nil => exact ⟨nofun, nofun, rfl⟩
  | cons x rest ih =>
    obtain ⟨later, rising⟩ := List.pairwise_cons.mp rising
    obtain ⟨neighbors', verdict, result, seq, walked, fits, passes⟩ :=
      peer.receives md5 (wire x List.mem_cons_self) (few x List.mem_cons_self)
        (fresh x List.mem_cons_self)
    obtain ⟨restFits, restPasses, restWalked⟩ := @ih neighbors'
      (fun y hy => wire y (List.mem_cons_of_mem x hy))
      (fun y hy => few y (List.mem_cons_of_mem x hy))
      (fun y hy => BitVec.le_trans seq (later y hy)) rising
    simp only [List.map_cons, rxAll, result, List.zip_cons_cons, List.flatMap_cons, walked]
    refine ⟨List.forall_mem_cons.mpr ⟨fits, restFits⟩, List.forall_mem_cons.mpr ⟨?_, restPasses⟩,
      congrArg (x.2 ++ ·) restWalked⟩
    rcases passes with empty | routes
    · exact .inl empty
    · exact .inr ⟨x.2, routes⟩

end Transmission

section Chunks

variable {α : Type} (l : List α) (per : Nat)

/-- The pieces of a response, in the order of the packets. -/
def pieces : List (List α) :=
  (List.range (l.length / per)).map (fun i => (l.drop (i*per)).take per) ++
    [(l.drop (l.length / per * per)).take (l.length % per)]

theorem flatten_pieces : (pieces l per).flatten = l := by
  have whole : ∀ q, ((List.range q).map (fun i => (l.drop (i*per)).take per)).flatten =
      l.take (q*per) := by
    intro q
    induction q with
    | zero => simp
    | succ q ih =>
      rw [List.range_succ, List.map_append, List.flatten_append, ih, Nat.succ_mul, List.take_add]
      simp
  rw [pieces, List.flatten_append, whole, List.flatten_cons, List.flatten_nil, List.append_nil,
    ← List.take_add, Nat.div_add_mod']
  exact List.take_length

theorem length_le_of_mem_pieces (pos : 0 < per) {piece : List α} (member : piece ∈ pieces l per) :
    piece.length ≤ per := by
  rcases List.mem_append.mp member with full | rest
  · obtain ⟨i, _, rfl⟩ := List.mem_map.mp full
    exact List.length_take_le ..
  · obtain rfl := List.mem_singleton.mp rest
    have bound := Nat.mod_lt l.length pos
    exact Nat.le_trans (List.length_take_le ..) (Nat.le_of_lt bound)

end Chunks

section Response

variable (md5 : List (BitVec 8) → Digest) (times : Nat → BitVec 32)

theorem txresponse_eq (passwd : Passwd) (routes : List RipRoute) :
    txresponse md5 passwd times routes =
      ((pieces routes (recordsPerPacket passwd)).mapIdx (fun i piece => (times i, piece))).map
        (fun x => sendResponse md5 passwd x.1 x.2) := by
  simp only [txresponse, pieces, List.mapIdx_append, List.map_append, List.length_map,
    List.length_range, List.mapIdx_cons, List.mapIdx_nil, List.map_cons, List.map_nil, Nat.zero_add]
  congr 1
  refine List.ext_getElem (by simp) (fun i _ _ => ?_)
  simp

theorem wire_advertise {e : RipDbElem} (announceable : Announceable e)
    (metric : e.metric ≤ 16) (intf : RipInterface) (unfilled : RipRoute) :
    Wire (advertise intf unfilled e) := by
  have types := announceable.type
  simp only [List.mem_cons, List.not_mem_nil, or_false] at types
  rcases types with h | h | h | h | h | h <;> simp only [advertise, h] <;>
    refine ⟨rfl, Nat.succ_pos _, ?_⟩ <;> dsimp only
  · split <;> omega
  · omega
  · omega
  · split <;> omega
  · omega
  · omega

/-- Every record that the callers' routes lead to fits into its bytes. -/
theorem wire_of_mem_response {ops : List (UpdateTimer × Op)}
    (callers : ∀ t a, (t, .ripdbAdd a) ∈ ops → FromCaller a)
    {intf : RipInterface} {rt : Nat → RipRoute} {updatesOnly : Bool} {r : RipRoute}
    (member : r ∈ ripdbBuildResponse (run .initial ops).1 intf rt updatesOnly) : Wire r := by
  obtain ⟨i, bound, rfl⟩ := List.mem_mapIdx.mp member
  have chosen := List.mem_of_mem_take (List.getElem_mem bound)
  obtain ⟨j, there⟩ := RipInvariant.mem_entries.mp (List.mem_filter.mp chosen).1
  have sound := (RipInvariant.run_keeps _ ops RipInvariant.initial_sound).1
  exact wire_advertise (RipConsistency.run_announceable callers there)
    (sound.counters j _ there).metric_le intf (rt i)

/-- Whatever the database holds and however the packets are cut: each packet fits, passes
the checks of the receiver unless it is empty, and the receiver walks over the records of
the response, each once and in order. -/
theorem response_survives (peer : Peer) (neighbors : List RipNeighbor)
    (ops : List (UpdateTimer × Op))
    (callers : ∀ t a, (t, .ripdbAdd a) ∈ ops → FromCaller a)
    (rt : Nat → RipRoute) (updatesOnly : Bool)
    (fresh : authSeqOf neighbors peer.intf.ip ≤ times 0)
    (clock : ∀ i j, i ≤ j → times i ≤ times j) :
    let routes := ripdbBuildResponse (run .initial ops).1 peer.intf rt updatesOnly
    let packets := txresponse md5 peer.rxif.ripPasswd times routes
    let verdicts := rxAll md5 peer.cfg neighbors (packets.map peer.datagram)
    (∀ p ∈ packets, p.length ≤ ripPktLen maxRoutesPkt) ∧
      (∀ x ∈ packets.zip verdicts, x.1.length = ripPktLen 0 ∨ ∃ l, x.2 = .routes l) ∧
      verdicts.flatMap Verdict.walked = routes := by
  intro routes
  have pos : 0 < recordsPerPacket peer.rxif.ripPasswd := by
    rw [recordsPerPacket]
    split <;> decide
  have cut := flatten_pieces routes (recordsPerPacket peer.rxif.ripPasswd)
  have member : ∀ x ∈ (pieces routes (recordsPerPacket peer.rxif.ripPasswd)).mapIdx
      (fun i piece => (times i, piece)),
      x.2 ∈ pieces routes (recordsPerPacket peer.rxif.ripPasswd) ∧ times 0 ≤ x.1 := by
    intro x hx
    obtain ⟨i, bound, rfl⟩ := List.mem_mapIdx.mp hx
    exact ⟨List.getElem_mem bound, clock 0 i (Nat.zero_le i)⟩
  have records : ((pieces routes (recordsPerPacket peer.rxif.ripPasswd)).mapIdx
      (fun i piece => (times i, piece))).map Prod.snd =
        pieces routes (recordsPerPacket peer.rxif.ripPasswd) :=
    List.ext_getElem (by simp) (fun i _ _ => by simp)
  have all := @Peer.receives_all md5 peer neighbors
    ((pieces routes (recordsPerPacket peer.rxif.ripPasswd)).mapIdx
      (fun i piece => (times i, piece))) ?_ ?_ ?_ ?_
  · rw [txresponse_eq]
    refine ⟨all.1, all.2.1, all.2.2.trans ?_⟩
    rw [List.flatMap_def, records]
    exact cut
  · intro x hx r hr
    refine wire_of_mem_response callers (?_ : r ∈ routes)
    rw [← cut]
    exact List.mem_flatten_of_mem (member x hx).1 hr
  · intro x hx
    exact length_le_of_mem_pieces _ _ pos (member x hx).1
  · intro x hx
    exact BitVec.le_trans fresh (member x hx).2
  · refine List.pairwise_iff_getElem.mpr (fun i j _ _ before => ?_)
    rw [List.getElem_mapIdx, List.getElem_mapIdx]
    exact clock i j (Nat.le_of_lt before)

/-- The neighbor 192.168.1.2 of the interface, with the password `abc`. -/
def lanPeer : Peer where
  intf := lan
  cfg := ⟨[⟨0xc0a80102, 0xffffff00, 1, ⟨[97, 98, 99], by decide, by decide⟩⟩], [],
    [⟨0xc0a80100, 0xffffff00⟩]⟩
  ipDest := 0xe0000009
  ifIndex := 1
  rxif := ⟨0xc0a80102, 0xffffff00, 1, ⟨[97, 98, 99], by decide, by decide⟩⟩
  found := rfl
  foreign := by decide
  configured := by decide
  onLink := by decide

/-- Some function in the place of MD5. -/
def lastBytes (message : List (BitVec 8)) : Digest :=
  ⟨(message.reverse ++ List.replicate 16 0).take 16, by simp⟩

theorem response_survives_siblings :
    ripdbBuildResponse (run .initial siblingOps).1 lanPeer.intf
        (fun _ => blank) false ≠ [] ∧
      (rxAll lastBytes lanPeer.cfg [⟨0xc0a80101, 5⟩]
          ((txresponse lastBytes lanPeer.rxif.ripPasswd (fun _ => 7)
            (ripdbBuildResponse (run .initial siblingOps).1 lanPeer.intf
              (fun _ => blank) false)).map lanPeer.datagram)).flatMap
            Verdict.walked =
        ripdbBuildResponse (run .initial siblingOps).1 lanPeer.intf
          (fun _ => blank) false := by
  refine ⟨by decide +kernel, ?_⟩
  exact (response_survives lastBytes (fun _ => 7) lanPeer [⟨0xc0a80101, 5⟩]
    siblingOps RipConsistency.siblingOps_callers (fun _ => blank)
    false (by decide) (fun _ _ _ => BitVec.le_refl _)).2.2

end Response

end RipPacket
