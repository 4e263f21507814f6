import Mathlib.Algebra.Ring.Nat
import Rcp100.IpAddress
import Rcp100.RipConsistency
import Rcp100.RipPacket
import Rcp100.StepRuns

/-!
# The entries of a received response

`rxpacket` takes the last entry for a digest whenever the first one is an authentication
entry, also when that announces a simple password. Of the entries that it walks over it
passes on those that pass its checks; the check of the mask refuses nothing.
-/

namespace RipEntries

open BitPrefix ByteBuffer IpAddress RipDb RipInvariant RipResponse RipPacket

/-- The entries of a datagram, as it was sent. -/
def sentEntries (d : RipPacket.Datagram) : List RipRoute :=
  walk (ofList d.data) 0 ((d.data.length - 4) / sizeofRoute)

/-- The first entry is one of authentication. -/
def leadsWithAuth (d : RipPacket.Datagram) : Prop := get16 (ofList d.data) 4 = 0xffff

instance (d : RipPacket.Datagram) : Decidable (leadsWithAuth d) :=
  inferInstanceAs (Decidable (_ = _))

/-- It announces a digest at the end. -/
def announcesDigest (d : RipPacket.Datagram) : Prop := get16 (ofList d.data) 6 = 3

instance (d : RipPacket.Datagram) : Decidable (announcesDigest d) :=
  inferInstanceAs (Decidable (_ = _))

/-- The entries that hold routes. -/
def routeEntries (d : RipPacket.Datagram) : List RipRoute :=
  if leadsWithAuth d then
    if announcesDigest d then (sentEntries d).tail.dropLast else (sentEntries d).tail
  else sentEntries d

section Walked

variable {md5 : List (BitVec 8) → Digest} {d : RipPacket.Datagram} {n : Nat}

theorem walk_length (b : Buffer) (rt routes : Nat) : (walk b rt routes).length = routes - rt := by
  rw [walk, List.length_map, List.length_range']

theorem walk_tail (b : Buffer) (n : Nat) : (walk b 0 n).tail = walk b 1 n := by
  rw [walk, walk, ← List.map_tail, List.tail_range', Nat.sub_zero, Nat.zero_add]

theorem walk_dropLast (b : Buffer) (rt n : Nat) : (walk b rt n).dropLast = walk b rt (n - 1) := by
  rw [walk, walk, ← List.map_dropLast]
  refine congrArg _ (List.ext_getElem (by simp; omega) fun i _ _ => ?_)
  simp [List.getElem_dropLast]

theorem sentEntries_eq (size : d.data.length = 4 + sizeofRoute*n) :
    sentEntries d = walk (ofList d.data) 0 n := by
  have count : (d.data.length - 4) / sizeofRoute = n := by
    rw [size, Nat.add_sub_cancel_left, sizeofRoute, Nat.mul_div_cancel_left _ (by omega)]
  rw [sentEntries, count]

theorem records_eq (size : d.data.length = 4 + sizeofRoute*n) : d.records = min n maxRoutesPkt := by
  rw [Datagram.records, Datagram.size, Datagram.received, List.length_take, size]
  simp only [ripPktLen, sizeofRoute]
  omega

theorem buffer_eq {i : Nat} (inside : i < ripPktLen maxRoutesPkt) :
    d.buffer i = ofList d.data i := by
  rw [Datagram.buffer, Datagram.received, ofList, ofList, List.getD_eq_getElem?_getD,
    List.getD_eq_getElem?_getD, List.getElem?_take_of_lt inside]

theorem get16_buffer {o : Nat} (inside : o + 1 < ripPktLen maxRoutesPkt) :
    get16 d.buffer o = get16 (ofList d.data) o := by
  rw [get16, get16, buffer_eq (by omega), buffer_eq inside]

theorem getRoute_congr {b b' : Buffer} {o : Nat} (same : ∀ j < 20, b (o+j) = b' (o+j)) :
    getRoute b o = getRoute b' o := by
  have first : b o = b' o := same 0 (by decide)
  simp (disch := decide) only [getRoute, get32, get16, Nat.add_assoc, Nat.reduceAdd, first, same]

theorem walk_buffer {rt routes : Nat} (few : routes ≤ maxRoutesPkt) :
    walk d.buffer rt routes = walk (ofList d.data) rt routes := by
  refine List.map_congr_left (fun i member => ?_)
  have below : i < maxRoutesPkt := by
    have bounds := List.mem_range'_1.mp member
    omega
  refine getRoute_congr (fun j low => buffer_eq ?_)
  simp only [ripPktLen, sizeofRoute]
  omega

theorem admission_ne_routes {cfg : RipPacket.Config} (rt : List RipRoute) :
    admission cfg d ≠ .error (.routes rt) := by
  unfold admission
  split
  · exact fun contra => by cases contra
  · dsimp only
    split
    · exact fun contra => by cases contra
    · split
      · exact fun contra => by cases contra
      · split
        · exact fun contra => by cases contra
        · split
          · exact fun contra => by cases contra
          · exact fun contra => by cases contra

theorem walked_eq {cfg : RipPacket.Config} {neighbors : List RipNeighbor} {walked : List RipRoute}
    (received : (rxpacket md5 cfg neighbors d).2 = .routes walked) :
    4 < d.size ∧ walked = if get16 d.buffer 4 = 0xffff then walk d.buffer 1 (d.records - 1)
      else walk d.buffer 0 d.records := by
  unfold rxpacket at received
  cases passes : precheck cfg d with
  | some dropped =>
    rw [passes] at received
    dsimp only at received
    rw [received, precheck] at passes
    split at passes
    · cases passes
    · split at passes
      · cases passes
      · cases passes
  | none =>
    have large : 4 < d.size := by
      by_contra small
      rw [precheck, if_pos (.inl (Nat.le_of_not_lt small))] at passes
      cases passes
    refine ⟨large, ?_⟩
    rw [passes] at received
    dsimp only at received
    cases admitted : admission cfg d with
    | error dropped =>
      rw [admitted] at received
      dsimp only at received
      exact absurd (received ▸ admitted) (admission_ne_routes walked)
    | ok rxif =>
      rw [admitted] at received
      dsimp only at received
      unfold rxResponse at received
      dsimp only at received
      by_cases missing : rxif.ripPasswd.chars ≠ [] ∧
          (get16 d.buffer 4 ≠ 0xffff ∨ get16 d.buffer 6 ≠ 3)
      · rw [if_pos missing] at received
        cases received
      · rw [if_neg missing] at received
        by_cases auth : get16 d.buffer 4 = 0xffff
        · rw [if_pos auth] at received
          rw [if_pos auth]
          split at received
          · unfold rxAuth at received
            split at received
            · cases received
            · split at received
              · cases received
              · split at received
                · cases received
                · exact (Verdict.routes.inj received).symm
          · exact (Verdict.routes.inj received).symm
        · rw [if_neg auth] at received
          rw [if_neg auth]
          exact (Verdict.routes.inj received).symm

end Walked

/-- Exactly the entries with routes are examined if and only if the datagram fits into the
buffer, and an authentication entry in front of other entries announces a digest. -/
theorem entries_examined_iff {md5 : List (BitVec 8) → Digest} {cfg : RipPacket.Config}
    {neighbors : List RipNeighbor} {d : RipPacket.Datagram} {n : Nat} {walked : List RipRoute}
    (size : d.data.length = 4 + sizeofRoute*n)
    (received : (rxpacket md5 cfg neighbors d).2 = .routes walked) :
    walked = routeEntries d ↔
      n ≤ maxRoutesPkt ∧ (leadsWithAuth d → announcesDigest d ∨ n = 1) := by
  obtain ⟨large, walked_def⟩ := walked_eq received
  have some : 1 ≤ n := by
    have total : d.size = min (ripPktLen maxRoutesPkt) d.data.length := List.length_take ..
    rw [total, size, sizeofRoute] at large
    omega
  have capacity : ripPktLen maxRoutesPkt = 504 := rfl
  rw [records_eq size, get16_buffer (by omega)] at walked_def
  rw [walked_def, routeEntries, sentEntries_eq size, walk_tail, walk_dropLast]
  by_cases fits : n ≤ maxRoutesPkt
  · rw [Nat.min_eq_left fits, walk_buffer (Nat.le_trans (Nat.sub_le n 1) fits), walk_buffer fits]
    by_cases auth : leadsWithAuth d
    · rw [if_pos (show get16 (ofList d.data) 4 = 0xffff from auth), if_pos auth]
      by_cases digest : announcesDigest d
      · rw [if_pos digest]
        exact iff_of_true rfl ⟨fits, fun _ => .inl digest⟩
      · rw [if_neg digest]
        constructor
        · intro same
          have lengths := congrArg List.length same
          rw [walk_length, walk_length] at lengths
          exact ⟨fits, fun _ => .inr (by omega)⟩
        · rintro ⟨_, only⟩
          have one := (only auth).resolve_left digest
          rw [one]
          rfl
    · rw [if_neg (show ¬ get16 (ofList d.data) 4 = 0xffff from auth), if_neg auth]
      exact iff_of_true rfl ⟨fits, fun contra => absurd contra auth⟩
  · refine iff_of_false (fun same => ?_) (fun contra => fits contra.1)
    have limit : maxRoutesPkt = 25 := rfl
    have lengths := congrArg List.length same
    rw [Nat.min_eq_right (by omega)] at lengths
    split at lengths
    · split at lengths
      · split at lengths
        · rw [walk_length, walk_length] at lengths
          omega
        · rw [walk_length, walk_length] at lengths
          omega
      · rename_i auth other
        exact other auth
    · split at lengths
      · rename_i other auth
        exact other auth
      · rw [walk_length, walk_length] at lengths
        omega

/-- 10.0.0.1 with the network 10.0.0.0/24 and no password. -/
def openLan : RipPacket.Config where
  intf := [⟨0x0a000001, 0xffffff00, 1, ⟨[], List.forall_mem_nil _, Nat.zero_le 16⟩⟩]
  ripNeighbor := []
  ripNetwork := [⟨0x0a000000, 0xffffff00⟩]

/-- A route with the metric 1. -/
def routeRecord (ip mask : BitVec 32) : RipRoute := ⟨2, 0, ip, mask, 0, 1⟩

/-- A response of 10.0.0.2 with these records. -/
def responseOf (records : List (BitVec 8)) : RipPacket.Datagram :=
  ⟨0x0a000002, 0xe0000009, 1, [2, 2, 0, 0] ++ records⟩

/-- The entry of a simple password. -/
def simpleAuth : List (BitVec 8) := be16 0xffff ++ be16 2 ++ List.replicate 16 0x61

def plainResponse : RipPacket.Datagram :=
  responseOf (routeBytes (routeRecord 0xc0a80200 0xffffff00))

def passwordResponse : RipPacket.Datagram :=
  responseOf (simpleAuth ++ routeBytes (routeRecord 0xc0a80200 0xffffff00))

theorem entries_examined_plain :
    [routeRecord 0xc0a80200 0xffffff00] = routeEntries plainResponse :=
  (@entries_examined_iff zeroDigest openLan [] plainResponse 1 _ rfl (by rfl)).mpr
    ⟨by decide, fun auth => absurd auth (by decide)⟩

/-- The only route behind a simple password is not examined. -/
theorem password_route_skipped :
    passwordResponse.data.length = 4 + sizeofRoute*2 ∧
      (rxpacket zeroDigest openLan [] passwordResponse).2 = .routes [] ∧
      routeEntries passwordResponse = [routeRecord 0xc0a80200 0xffffff00] :=
  ⟨rfl, rfl, rfl⟩

/-- The network mask of the class of an address. -/
def classMask (ip : BitVec 32) : BitVec 32 :=
  if inClassA ip then 0xff000000
  else if inClassB ip then 0xffff0000
  else if inClassC ip then 0xffffff00
  else if isMulticast ip then 0xf0000000
  else 0

/-- The checks on one route of a packet of any version. Version 1 has no masks. -/
def routeOfVersion (version : BitVec 8) (source : BitVec 32) (r : RipRoute) : Option Offer :=
  if r.family ≠ 2 then none
  else if isLoopback r.ip || isBroadcast r.ip || isMulticast r.ip then none
  else if r.metric > 16 || r.metric = 0 then none
  else if ¬ (r.ip = 0 ∧ r.mask = 0) ∧ version = 2 ∧ r.mask = 0 then none
  else if ¬ (r.ip = 0 ∧ r.mask = 0) ∧ version = 1 ∧ r.mask ≠ 0 then none
  else if r.mask ≠ 0 ∧ !maskContiguous r.mask then none
  else if r.gw ≠ 0 ∧ invalidHop r.gw then none
  else some ⟨r.ip, if version = 1 then classMask r.ip else r.mask,
    if r.gw = 0 then source else r.gw, r.metric⟩

/-- What `rxpacket` passes on of the entries that it walks over. -/
def offersOf (d : RipPacket.Datagram) (walked : List RipRoute) : List Offer :=
  walked.filterMap (routeOfVersion (d.buffer 1) d.ipSource)

/-- What is passed to `ripdb_add`; the others are passed to `ripdb_delete`. -/
def addedOf (d : RipPacket.Datagram) (walked : List RipRoute) : List Offer :=
  (offersOf d walked).filter (fun o => o.metric + 1 < 16)

/-- Some leading ones, and zeros behind them. -/
def Contiguous (mask : BitVec 32) : Prop := ∃ n ≤ 32, mask = leading 32 n

/-- Masks, addresses and lengths of these routes belong together. -/
structure OnlyPrefixes (offers : List Offer) : Prop where
  contiguous : ∀ o ∈ offers, Contiguous o.mask
  addresses : ∀ o ∈ offers, ∀ a, a &&& o.mask = o.ip &&& o.mask ↔
    SamePrefix (mask2bits o.mask) a o.ip
  distinct : ∀ o ∈ offers, ∀ o' ∈ offers, o.mask ≠ o'.mask →
    (o.ip, mask2bits o.mask) ≠ (o'.ip, mask2bits o'.mask)

/-- The checks other than that of the mask, on an entry of a packet that is not of version 1. -/
structure PassesOthers (version : BitVec 8) (r : RipRoute) : Prop where
  family : r.family = 2
  unicast : (isLoopback r.ip || isBroadcast r.ip || isMulticast r.ip) = false
  metric : 0 < r.metric ∧ r.metric < 15
  masked : version = 2 → r.mask = 0 → r.ip = 0
  hop : r.gw ≠ 0 → invalidHop r.gw = false

section Masks

theorem maskContiguousLoop_eq_true (mask : BitVec 32) (steps : Nat) (m : BitVec 32)
    (last : m.toNat = 2 ^ (steps - 1) ∨ steps = 0) :
    maskContiguousLoop mask steps m false = true := by
  induction steps generalizing m with
  | zero => rfl
  | succ steps ih =>
    have probe := last.resolve_right (Nat.succ_ne_zero steps)
    rw [Nat.add_sub_cancel] at probe
    rw [maskContiguousLoop, Bool.false_and, if_neg Bool.false_ne_true, Bool.false_or]
    cases steps with
    | zero => rfl
    | succ steps =>
      have even : (m &&& mask) ≠ 1 := by
        intro one
        have low : (m &&& mask).getLsbD 0 = false := by
          rw [BitVec.getLsbD_and, BitVec.getLsbD, probe, Nat.testBit_two_pow,
            decide_eq_false (by omega), Bool.false_and]
        rw [one] at low
        exact absurd low (by decide)
      rw [decide_eq_false even]
      refine ih (m >>> 1) (.inl ?_)
      rw [BitVec.toNat_ushiftRight, probe, Nat.shiftRight_eq_div_pow, Nat.add_sub_cancel,
        Nat.pow_one, Nat.pow_succ, Nat.mul_div_cancel _ (by omega)]

theorem maskContiguous_eq_true (mask : BitVec 32) : maskContiguous mask = true :=
  maskContiguousLoop_eq_true mask 32 _ (.inl rfl)

theorem contiguous_classMask (ip : BitVec 32) : Contiguous (classMask ip) := by
  unfold classMask
  split
  · exact ⟨8, by omega, by decide⟩
  · split
    · exact ⟨16, by omega, by decide⟩
    · split
      · exact ⟨24, by omega, by decide⟩
      · split
        · exact ⟨4, by omega, by decide⟩
        · exact ⟨0, by omega, by decide⟩

theorem Contiguous.addresses {mask : BitVec 32} (contiguous : Contiguous mask) (a b : BitVec 32) :
    a &&& mask = b &&& mask ↔ SamePrefix (mask2bits mask) a b := by
  obtain ⟨n, small, rfl⟩ := contiguous
  rw [mask2bits_leading small]
  exact and_leading_eq_iff small

theorem Contiguous.eq_of_length {mask mask' : BitVec 32} (contiguous : Contiguous mask)
    (contiguous' : Contiguous mask') (length : mask2bits mask = mask2bits mask') :
    mask = mask' := by
  obtain ⟨n, small, rfl⟩ := contiguous
  obtain ⟨n', small', rfl⟩ := contiguous'
  rw [mask2bits_leading small, mask2bits_leading small'] at length
  rw [length]

theorem onlyPrefixes_iff {offers : List Offer} :
    OnlyPrefixes offers ↔ ∀ o ∈ offers, Contiguous o.mask := by
  refine ⟨fun only => only.contiguous, fun contiguous => ⟨contiguous, ?_, ?_⟩⟩
  · exact fun o member a => (contiguous o member).addresses a o.ip
  · intro o member o' member' differs same
    exact differs ((contiguous o member).eq_of_length (contiguous o' member')
      (congrArg Prod.snd same))

end Masks

section Passed

variable {version : BitVec 8} {source : BitVec 32} {r : RipRoute} {o : Offer}

theorem routeOfVersion_some_iff (masked : version ≠ 1) :
    (routeOfVersion version source r = some o ∧ o.metric + 1 < 16) ↔
      PassesOthers version r ∧
        o = ⟨r.ip, r.mask, if r.gw = 0 then source else r.gw, r.metric⟩ := by
  constructor
  · rintro ⟨passed, valid⟩
    simp only [routeOfVersion, maskContiguous_eq_true, if_neg masked] at passed
    split at passed
    · cases passed
    rename_i family
    split at passed
    · cases passed
    rename_i unicast
    split at passed
    · cases passed
    rename_i metric
    split at passed
    · cases passed
    rename_i unmasked
    split at passed
    · cases passed
    split at passed
    · cases passed
    split at passed
    · cases passed
    rename_i hop
    have result := (Option.some.inj passed).symm
    have small : r.metric + 1 < 16 := by simpa [result] using valid
    refine ⟨⟨not_not.mp family, by simpa using unicast, ?_, ?_, ?_⟩, result⟩
    · simp only [Bool.or_eq_true, decide_eq_true_eq] at metric
      omega
    · intro two zero
      by_contra other
      exact unmasked ⟨fun both => other both.1, two, zero⟩
    · intro gw
      by_contra invalid
      exact hop ⟨gw, by simpa using invalid⟩
  · rintro ⟨passes, rfl⟩
    refine ⟨?_, Nat.succ_lt_succ passes.metric.2⟩
    have low := passes.metric.1
    have high := passes.metric.2
    have metric : ¬ (decide (r.metric > 16) || decide (r.metric = 0)) = true := by
      simp only [Bool.or_eq_true, decide_eq_true_eq]
      omega
    have unmasked : ¬ (¬ (r.ip = 0 ∧ r.mask = 0) ∧ version = 2 ∧ r.mask = 0) :=
      fun contra => contra.1 ⟨passes.masked contra.2.1 contra.2.2, contra.2.2⟩
    have hop : ¬ (r.gw ≠ 0 ∧ invalidHop r.gw = true) := by
      rintro ⟨gw, invalid⟩
      rw [passes.hop gw] at invalid
      cases invalid
    rw [routeOfVersion, if_neg (not_not_intro passes.family), passes.unicast,
      if_neg Bool.false_ne_true, if_neg metric, if_neg unmasked,
      if_neg (fun contra => masked contra.2.1), maskContiguous_eq_true,
      if_neg (fun contra => Bool.false_ne_true contra.2), if_neg hop, if_neg masked]

theorem mask_of_version_one (passed : routeOfVersion 1 source r = some o) :
    o.mask = classMask r.ip := by
  unfold routeOfVersion at passed
  split at passed
  · cases passed
  split at passed
  · cases passed
  split at passed
  · cases passed
  split at passed
  · cases passed
  split at passed
  · cases passed
  split at passed
  · cases passed
  split at passed
  · cases passed
  rw [← Option.some.inj passed, if_pos rfl]

/-- The packet has no masks, or those of its entries that matter are contiguous. -/
def MasksContiguous (d : RipPacket.Datagram) (walked : List RipRoute) : Prop :=
  d.buffer 1 = 1 ∨ ∀ r ∈ walked, PassesOthers (d.buffer 1) r → Contiguous r.mask

theorem addedOf_contiguous_iff (d : RipPacket.Datagram) (walked : List RipRoute) :
    (∀ o ∈ addedOf d walked, Contiguous o.mask) ↔ MasksContiguous d walked := by
  have member : ∀ o, o ∈ addedOf d walked ↔
      ∃ r ∈ walked, routeOfVersion (d.buffer 1) d.ipSource r = some o ∧ o.metric + 1 < 16 := by
    intro o
    simp only [addedOf, offersOf, List.mem_filter, List.mem_filterMap, decide_eq_true_eq]
    constructor
    · rintro ⟨⟨r, walks, passed⟩, valid⟩
      exact ⟨r, walks, passed, valid⟩
    · rintro ⟨r, walks, passed, valid⟩
      exact ⟨⟨r, walks, passed⟩, valid⟩
  by_cases one : d.buffer 1 = 1
  · refine iff_of_true (fun o added => ?_) (.inl one)
    obtain ⟨r, _, passed, _⟩ := (member o).mp added
    rw [one] at passed
    rw [mask_of_version_one passed]
    exact contiguous_classMask r.ip
  · constructor
    · refine fun contiguous => .inr fun r walks passes => ?_
      exact contiguous _ ((member _).mpr
        ⟨r, walks, (routeOfVersion_some_iff one).mpr ⟨passes, rfl⟩⟩)
    · rintro (contra | contiguous) o added
      · exact absurd contra one
      · obtain ⟨r, walks, passed⟩ := (member o).mp added
        obtain ⟨passes, rfl⟩ := (routeOfVersion_some_iff one).mp passed
        exact contiguous r walks passes

end Passed

section Runs

/-- The RIP process: its neighbors and its database. -/
structure Process where
  neighbors : List RipNeighbor
  db : Db

inductive Event where
  | datagram (t : UpdateTimer) (d : RipPacket.Datagram)
  | operation (op : UpdateTimer × Op)

variable (md5 : List (BitVec 8) → Digest) (cfg : RipPacket.Config)

def eventStep (s : Process) : Event → Process
  | .datagram t d =>
    let r := rxpacket md5 cfg s.neighbors d
    ⟨r.1, (offersOf d r.2.walked).foldl
      (fun db o => (applyOffer t d.ipSource d.ifIndex db o).1) s.db⟩
  | .operation op => ⟨s.neighbors, (step s.db op).1⟩

/-- The masks of a datagram, and those that the other callers of `ripdb_add` pass. -/
def EventContiguous (s : Process) : Event → Prop
  | .datagram _ d => MasksContiguous d (rxpacket md5 cfg s.neighbors d).2.walked
  | .operation (_, .ripdbAdd a) => Contiguous a.mask
  | .operation _ => True

def AllContiguous (db : Db) : Prop := ∀ i, ∀ e ∈ db i, Contiguous e.mask

/-- Two entries with different masks differ in the address or in the length. -/
def DistinctLengths (db : Db) : Prop :=
  ∀ e ∈ entries db, ∀ f ∈ entries db, e.mask ≠ f.mask →
    (e.ip, mask2bits e.mask) ≠ (f.ip, mask2bits f.mask)

theorem AllContiguous.distinctLengths {db : Db} (all : AllContiguous db) : DistinctLengths db := by
  intro e member f member' differs same
  obtain ⟨i, there⟩ := mem_entries.mp member
  obtain ⟨j, there'⟩ := mem_entries.mp member'
  exact differs ((all i e there).eq_of_length (all j f there') (congrArg Prod.snd same))

theorem AllContiguous.step {db : Db} (all : AllContiguous db) (op : UpdateTimer × Op)
    (contiguous : ∀ t a, op = (t, .ripdbAdd a) → Contiguous a.mask) :
    AllContiguous (RipDb.step db op).1 := by
  refine @RipConsistency.run_stable (fun e => Contiguous e.mask) ?_ (fun a => Contiguous a.mask)
    (fun _ _ fine => fine) [op] ?_ db all
  · intro e x stems fine
    rwa [show x.mask = e.mask from congrArg (fun k => k.2.2.1) stems.1]
  · intro t a member
    exact contiguous t a (List.mem_singleton.mp member).symm

theorem AllContiguous.applyOffer {db : Db} (all : AllContiguous db) (t : UpdateTimer)
    (source : BitVec 32) (rxif : Nat) {o : Offer} (fine : o.metric + 1 < 16 → Contiguous o.mask) :
    AllContiguous (RipResponse.applyOffer t source rxif db o).1 := by
  unfold RipResponse.applyOffer
  split
  · rename_i valid
    refine all.step (t, .ripdbAdd _) fun _ _ same => ?_
    cases same
    exact fine valid
  · exact all.step (t, .ripdbDelete ..) fun _ _ contra => by cases contra

theorem AllContiguous.eventStep {s : Process} (all : AllContiguous s.db) (event : Event)
    (fine : EventContiguous md5 cfg s event) : AllContiguous (eventStep md5 cfg s event).db := by
  cases event with
  | operation op => exact all.step op fun t a same => by rw [same] at fine; exact fine
  | datagram t d =>
    have offers := (addedOf_contiguous_iff d _).mpr fine
    simp only [RipEntries.eventStep]
    generalize (rxpacket md5 cfg s.neighbors d).2.walked = walked at offers
    have each : ∀ o ∈ offersOf d walked, o.metric + 1 < 16 → Contiguous o.mask :=
      fun o member valid => offers o (List.mem_filter.mpr ⟨member, decide_eq_true valid⟩)
    generalize s.db = db at all
    generalize offersOf d walked = rest at each
    induction rest generalizing db with
    | nil => exact all
    | cons o rest ih =>
      exact ih _ (all.applyOffer t d.ipSource d.ifIndex (each o List.mem_cons_self))
        (fun o member => each o (List.mem_cons_of_mem _ member))

end Runs

/-- The masks that a datagram brings into the database are contiguous, and belong to their
lengths, exactly if the packet is of version 1 or its entries that pass the other checks have
contiguous masks. In every run of such datagrams and of other operations with contiguous masks
no two entries with different masks have the same address and length. -/
theorem only_prefixes_iff (md5 : List (BitVec 8) → Digest) (cfg : RipPacket.Config) :
    (∀ neighbors d, OnlyPrefixes (addedOf d (rxpacket md5 cfg neighbors d).2.walked) ↔
      MasksContiguous d (rxpacket md5 cfg neighbors d).2.walked) ∧
      ∀ events, StepRuns.Along (eventStep md5 cfg) (EventContiguous md5 cfg) events ⟨[], .initial⟩ →
        StepRuns.Always (eventStep md5 cfg) (fun s => AllContiguous s.db ∧ DistinctLengths s.db)
          events ⟨[], .initial⟩ := by
  refine ⟨fun neighbors d => onlyPrefixes_iff.trans (addedOf_contiguous_iff d _), ?_⟩
  intro events along
  exact along.always (I := fun s => AllContiguous s.db) (fun s all => ⟨all, all.distinctLengths⟩)
    (fun s event all fine => all.eventStep md5 cfg event fine) (fun _ => List.forall_mem_nil _)

/-- A mask with a gap. -/
def gapResponse : RipPacket.Datagram :=
  responseOf (routeBytes (routeRecord 0xc0a80200 0xff00ff00) ++
    routeBytes (routeRecord 0xc0a80200 0xff000000))

/-- Both routes are passed on, and both have 8 leading ones. -/
theorem gap_mask_accepted :
    (rxpacket zeroDigest openLan [] gapResponse).2 =
        .routes [routeRecord 0xc0a80200 0xff00ff00, routeRecord 0xc0a80200 0xff000000] ∧
      addedOf gapResponse [routeRecord 0xc0a80200 0xff00ff00, routeRecord 0xc0a80200 0xff000000] =
        [⟨0xc0a80200, 0xff00ff00, 0x0a000002, 1⟩, ⟨0xc0a80200, 0xff000000, 0x0a000002, 1⟩] ∧
      mask2bits 0xff00ff00 = mask2bits 0xff000000 ∧
      ¬ OnlyPrefixes
        (addedOf gapResponse (rxpacket zeroDigest openLan [] gapResponse).2.walked) := by
  have received : (rxpacket zeroDigest openLan [] gapResponse).2 =
      .routes [routeRecord 0xc0a80200 0xff00ff00, routeRecord 0xc0a80200 0xff000000] := rfl
  have added : addedOf gapResponse
      [routeRecord 0xc0a80200 0xff00ff00, routeRecord 0xc0a80200 0xff000000] =
        [⟨0xc0a80200, 0xff00ff00, 0x0a000002, 1⟩, ⟨0xc0a80200, 0xff000000, 0x0a000002, 1⟩] := by
    decide
  refine ⟨received, added, by decide, fun only => ?_⟩
  rw [received, Verdict.walked, added] at only
  exact only.distinct _ List.mem_cons_self _ (List.mem_cons_of_mem _ List.mem_cons_self)
    (by decide) (by decide)

end RipEntries
