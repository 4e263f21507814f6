import Mathlib.Algebra.Order.BigOperators.Group.List
import Mathlib.Algebra.Order.Group.Nat
import Mathlib.Data.List.GetD
import Mathlib.Data.Nat.Cast.Order.Basic
import Rcp100.Flooding

/-!
# Building Link State Update packets

The bytes of a packet that `lsupdateBuildPkt` or `lsupdateBuildMultiplePkt` builds, and
what `lsupdateRx` reads out of them. The loop that sends a list in packets ends exactly
when no advertisement of the list is longer than the payload of a packet, and reception
admits longer ones.
-/

namespace UpdatePackets

open LsaFormat LsUpdate Flooding

/-- The packet with these advertisements; `stale` is what the buffer holds behind them. -/
def packetOf (stale : Memory) (lsas : List OspfLsa) : UpdatePacket where
  length := BitVec.ofNat 16 (24 + 4 + (lsas.map szlsa).sum)
  count := BitVec.ofNat 32 lsas.length
  body := fun i => (lsas.flatMap wire).getD i (stale i)

/-- The bytes of an advertisement in a packet. -/
def record (lsah : Memory) : List (BitVec 8) := lsah.bytes (lsaHeader lsah).length.toNat

/-- The checksum test of `lsupdateRx`. -/
def checksumOk (lsah : Memory) : Bool :=
  fletcher16 (lsah.offset 2) ((lsaHeader lsah).length.toNat - 2) = 0

section Records

variable {m m' body : Memory}

theorem bytes_congr {n : Nat} (same : ∀ i < n, m i = m' i) : m.bytes n = m'.bytes n := by
  unfold Memory.bytes
  exact List.map_congr_left fun i member => same i (List.mem_range.mp member)

theorem checksumOk_congr (sized : 20 ≤ (lsaHeader m).length.toNat)
    (same : ∀ i < (lsaHeader m).length.toNat, m' i = m i) : checksumOk m' = checksumOk m := by
  have header : lsaHeader m' = lsaHeader m :=
    lsaHeader_congr fun i inside => same i (lt_of_lt_of_le inside sized)
  have covered : (m'.offset 2).bytes ((lsaHeader m).length.toNat - 2 : Int).toNat =
      (m.offset 2).bytes ((lsaHeader m).length.toNat - 2 : Int).toNat := by
    refine bytes_congr fun i inside => same (2+i) ?_
    omega
  unfold checksumOk fletcher16
  rw [header, covered]

/-- The memory from `ptr` on holds these bytes. -/
def Holds (body : Memory) (ptr : Nat) (bytes : List (BitVec 8)) : Prop :=
  ∀ i < bytes.length, body (ptr + i) = bytes.getD i 0

theorem holds_packetOf (stale : Memory) (lsas : List OspfLsa) :
    Holds (packetOf stale lsas).body 0 (lsas.flatMap wire) := by
  intro i inside
  change (lsas.flatMap wire).getD (0 + i) (stale (0 + i)) = _
  rw [Nat.zero_add, List.getD_eq_getElem _ _ inside, List.getD_eq_getElem _ _ inside]

theorem Holds.append {ptr : Nat} {bytes rest : List (BitVec 8)}
    (holds : Holds body ptr (bytes ++ rest)) :
    Holds body ptr bytes ∧ Holds body (ptr + bytes.length) rest := by
  constructor
  · intro i inside
    rw [holds i (by rw [List.length_append]; omega), List.getD_append _ _ _ _ inside]
  · intro i inside
    have here := holds (bytes.length + i) (by rw [List.length_append]; omega)
    rw [List.getD_append_right _ _ _ _ (Nat.le_add_right _ _), Nat.add_sub_cancel_left] at here
    rw [Nat.add_assoc]
    exact here

variable {lsa : OspfLsa}

theorem Holds.memory {ptr : Nat} (holds : Holds body ptr (wire lsa)) {i : Nat}
    (inside : i < szlsa lsa) : body.offset ptr i = lsa.memory i := by
  have here := holds i (by rw [← szlsa_eq]; exact inside)
  exact here.trans (Memory.getD_bytes lsa.memory inside)

theorem Holds.header {ptr : Nat} (holds : Holds body ptr (wire lsa)) (headed : 20 ≤ szlsa lsa) :
    lsaHeader (body.offset ptr) = lsa.header :=
  lsaHeader_congr fun _ inside => holds.memory (lt_of_lt_of_le inside headed)

theorem Holds.record {ptr : Nat} (holds : Holds body ptr (wire lsa)) (headed : 20 ≤ szlsa lsa) :
    record (body.offset ptr) = wire lsa := by
  rw [UpdatePackets.record, holds.header headed]
  exact bytes_congr fun _ inside => holds.memory inside

end Records

section RoundTrip

variable {body : Memory} {lsas : List OspfLsa}

theorem verifyLength_holds {ptr : Nat} (headed : ∀ lsa ∈ lsas, 20 ≤ szlsa lsa)
    (holds : Holds body ptr (lsas.flatMap wire)) {size : Int}
    (room : ((lsas.map szlsa).sum : Int) ≤ size) :
    verifyLength body lsas.length size ptr = some (size - (lsas.map szlsa).sum) := by
  induction lsas generalizing ptr size with
  | nil => simp [verifyLength]
  | cons lsa rest ih =>
    rw [List.flatMap_cons] at holds
    obtain ⟨here, later⟩ := holds.append
    have header := here.header (headed lsa List.mem_cons_self)
    rw [← szlsa_eq] at later
    simp only [List.map_cons, List.sum_cons] at room ⊢
    have enough : ¬ size - (szlsa lsa : Int) < 0 := by omega
    rw [List.length_cons, verifyLength]
    simp only [header]
    rw [show lsa.header.length.toNat = szlsa lsa from rfl, if_neg enough,
      ih (fun l member => headed l (List.mem_cons_of_mem lsa member)) later (by omega)]
    exact congrArg some (by omega)

theorem lsaPointers_holds {ptr : Nat} (headed : ∀ lsa ∈ lsas, 20 ≤ szlsa lsa)
    (holds : Holds body ptr (lsas.flatMap wire)) :
    (lsaPointers body lsas.length ptr).map (fun p => record (body.offset p)) = lsas.map wire ∧
      ∀ p ∈ lsaPointers body lsas.length ptr, ∃ lsa ∈ lsas, Holds body p (wire lsa) := by
  induction lsas generalizing ptr with
  | nil => exact ⟨rfl, fun p member => by cases member⟩
  | cons lsa rest ih =>
    rw [List.flatMap_cons] at holds
    obtain ⟨here, later⟩ := holds.append
    have headedHere := headed lsa List.mem_cons_self
    rw [← szlsa_eq] at later
    rw [List.length_cons, lsaPointers, here.header headedHere]
    obtain ⟨records, members⟩ :=
      ih (fun l member => headed l (List.mem_cons_of_mem lsa member)) later
    constructor
    · rw [List.map_cons, List.map_cons, here.record headedHere]
      exact congrArg (wire lsa :: ·) records
    · intro p member
      rcases List.mem_cons.mp member with rfl | further
      · exact ⟨lsa, List.mem_cons_self, here⟩
      · obtain ⟨l, inside, holds⟩ := members p further
        exact ⟨l, List.mem_cons_of_mem lsa inside, holds⟩

/-- What reception makes of a packet: it is verified and held, the walk visits the advertisements
byte for byte, and the checksum of each passes. -/
def ReadsBack (pkt : UpdatePacket) (lsas : List OspfLsa) : Prop :=
  pkt.held = true ∧ pkt.lsas.map record = lsas.map wire ∧
    ∀ lsah ∈ pkt.lsas, checksumOk lsah = true

theorem le_sum_sizes (headed : ∀ lsa ∈ lsas, 20 ≤ szlsa lsa) :
    20 * lsas.length ≤ (lsas.map szlsa).sum := by
  induction lsas with
  | nil => exact Nat.zero_le _
  | cons lsa rest ih =>
    have := headed lsa List.mem_cons_self
    have := ih (fun l member => headed l (List.mem_cons_of_mem lsa member))
    simp only [List.length_cons, List.map_cons, List.sum_cons]
    omega

theorem readsBack_packetOf (stale : Memory) (some : lsas ≠ [])
    (headed : ∀ lsa ∈ lsas, 20 ≤ szlsa lsa) (sums : ∀ lsa ∈ lsas, checksumOk lsa.memory = true)
    (fits : (lsas.map szlsa).sum ≤ maxPayload) : ReadsBack (packetOf stale lsas) lsas := by
  have few : 20 * lsas.length ≤ maxPayload := (le_sum_sizes headed).trans fits
  have counted : lsas.length < 2 ^ 31 := by
    unfold maxPayload at few
    omega
  have cnt : (packetOf stale lsas).cnt = lsas.length := by
    change (BitVec.ofNat 32 lsas.length).toInt = _
    have small : (BitVec.ofNat 32 lsas.length).toNat = lsas.length :=
      Nat.mod_eq_of_lt (by omega)
    rw [BitVec.toInt_eq_toNat_of_lt (by omega), small]
  have long : (packetOf stale lsas).length.toNat = 24 + 4 + (lsas.map szlsa).sum := by
    unfold maxPayload at fits
    exact Nat.mod_eq_of_lt (by omega)
  have holds := holds_packetOf stale lsas
  obtain ⟨records, members⟩ := lsaPointers_holds headed holds
  refine ⟨?_, ?_, ?_⟩
  · have size : ((packetOf stale lsas).length.toNat : Int) - 28 = (lsas.map szlsa).sum := by
      rw [long]
      omega
    have positive : 0 < lsas.length := List.length_pos_iff.mpr some
    unfold UpdatePacket.held UpdatePacket.verified ackFits stackSize
    unfold maxPayload at few
    rw [cnt, size, Int.toNat_natCast, verifyLength_holds headed holds le_rfl, Int.sub_self]
    simp only [ne_eq, Int.natCast_eq_zero, decide_true, Bool.and_true, Bool.and_eq_true,
      decide_eq_true_eq]
    omega
  · rw [UpdatePacket.lsas, cnt, Int.toNat_natCast, List.map_map]
    exact records
  · intro lsah member
    rw [UpdatePacket.lsas, cnt, Int.toNat_natCast] at member
    obtain ⟨p, inside, rfl⟩ := List.mem_map.mp member
    obtain ⟨lsa, listed, here⟩ := members p inside
    rw [checksumOk_congr (headed lsa listed) fun i below => here.memory below]
    exact sums lsa listed

theorem lsupdateBuildMultiplePkt_whole {size : Nat}
    (fits : size + (lsas.map szlsa).sum ≤ maxPayload) :
    lsupdateBuildMultiplePkt size lsas = (lsas, []) := by
  induction lsas generalizing size with
  | nil => rfl
  | cons lsa rest ih =>
    rw [List.map_cons, List.sum_cons] at fits
    rw [lsupdateBuildMultiplePkt, if_neg (by omega), ih (by omega)]

theorem lsupdateBuildPkt_whole {lsa : OspfLsa} (fits : szlsa lsa ≤ maxPayload) :
    lsupdateBuildPkt lsa = [lsa] :=
  if_neg (not_lt_of_ge fits)

theorem szlsa_le_sum {lsa : OspfLsa} (listed : lsa ∈ lsas) : szlsa lsa ≤ (lsas.map szlsa).sum :=
  List.single_le_sum (fun _ _ => Nat.zero_le _) _ (List.mem_map_of_mem listed)

/-- The packet of a list that fits one, and the packet of each of its advertisements alone,
are read back as they were built. -/
theorem built_packets_read_back (stale : Memory) (some : lsas ≠ [])
    (headed : ∀ lsa ∈ lsas, 20 ≤ szlsa lsa) (sums : ∀ lsa ∈ lsas, checksumOk lsa.memory = true)
    (fits : (lsas.map szlsa).sum ≤ maxPayload) :
    (lsupdateBuildMultiplePkt 0 lsas).2 = [] ∧
      ReadsBack (packetOf stale (lsupdateBuildMultiplePkt 0 lsas).1) lsas ∧
      ∀ lsa ∈ lsas, ReadsBack (packetOf stale (lsupdateBuildPkt lsa)) [lsa] := by
  rw [lsupdateBuildMultiplePkt_whole (by omega)]
  refine ⟨rfl, readsBack_packetOf stale some headed sums fits, fun lsa listed => ?_⟩
  have small := le_trans (szlsa_le_sum listed) fits
  rw [lsupdateBuildPkt_whole small]
  refine readsBack_packetOf stale (List.cons_ne_nil lsa []) ?_ ?_ ?_
  · simpa using headed lsa listed
  · simpa using sums lsa listed
  · simpa using small

theorem built_packets_read_back_summary :
    (lsupdateBuildMultiplePkt 0 [summary, summary]).2 = [] ∧
      ReadsBack (packetOf (fun _ => 0) (lsupdateBuildMultiplePkt 0 [summary, summary]).1)
        [summary, summary] ∧
      ReadsBack (packetOf (fun _ => 0) (lsupdateBuildPkt summary)) [summary] := by
  obtain ⟨whole, list, alone⟩ := built_packets_read_back (fun _ => 0)
    (List.cons_ne_nil summary [summary]) (by decide) (by decide) (by decide)
  exact ⟨whole, list, alone summary List.mem_cons_self⟩

end RoundTrip

section Draining

variable {dest : Dest} {queue : List OspfLsa}

/-- The loop ends, sends the list in its order, and every packet has room for its
advertisements. -/
def DrainsAll (dest : Dest) (queue : List OspfLsa) : Prop :=
  ∃ fuel pkts, drain dest fuel queue = some pkts ∧
    sent pkts = queue.map (fun lsa => (dest, wire lsa)) ∧
    ∀ pkt ∈ pkts, (pkt.lsas.map szlsa).sum ≤ maxPayload

theorem payload_le {size : Nat} (room : size ≤ maxPayload) (queue : List OspfLsa) :
    size + ((lsupdateBuildMultiplePkt size queue).1.map szlsa).sum ≤ maxPayload := by
  induction queue generalizing size with
  | nil => exact room
  | cons lsa rest ih =>
    rw [lsupdateBuildMultiplePkt]
    split
    · exact room
    · have later := ih (show size + szlsa lsa ≤ maxPayload by omega)
      rw [List.map_cons, List.sum_cons]
      omega

theorem drain_payload {fuel : Nat} {pkts : List TxPacket}
    (ended : drain dest fuel queue = some pkts) :
    ∀ pkt ∈ pkts, (pkt.lsas.map szlsa).sum ≤ maxPayload := by
  induction fuel generalizing queue pkts with
  | zero =>
    cases queue with
    | nil =>
      cases ended
      exact fun pkt member => by cases member
    | cons lsa rest => cases ended
  | succ fuel ih =>
    cases queue with
    | nil =>
      cases ended
      exact fun pkt member => by cases member
    | cons lsa rest =>
      simp only [drain, Option.map_eq_some_iff] at ended
      obtain ⟨later, rested, rfl⟩ := ended
      intro pkt member
      rcases List.mem_cons.mp member with rfl | further
      · have whole := payload_le (Nat.zero_le maxPayload) (lsa :: rest)
        rw [Nat.zero_add] at whole
        exact whole
      · exact ih rested pkt further

/-- An advertisement that does not fit an empty packet is never sent, and the loop goes on
for ever. -/
theorem drainsAll_iff (dest : Dest) (queue : List OspfLsa) :
    DrainsAll dest queue ↔ ∀ lsa ∈ queue, szlsa lsa ≤ maxPayload := by
  constructor
  · rintro ⟨fuel, pkts, ended, all, -⟩ lsa listed
    have small := drain_fits ended (dest, wire lsa)
      (all ▸ List.mem_map_of_mem (f := fun l => (dest, wire l)) listed)
    rw [szlsa_eq]
    exact small
  · intro fits
    obtain ⟨pkts, ended⟩ := drain_ends dest fits le_rfl
    exact ⟨queue.length, pkts, ended, drain_sent ended, drain_payload ended⟩

/-- The header of a summary advertisement that announces 65472 bytes. -/
def jumboHeader : List (BitVec 8) :=
  [0x00, 0x01, 0x02, 0x03, 0x00, 0x00, 0x00, 0x00, 0x02, 0x02, 0x02, 0x02, 0x80, 0x00, 0x00,
    0x01, 0x78, 0x38, 0xff, 0xc0]

/-- The advertisement, with a correct checksum; what follows the header is 0. -/
def jumbo : Memory := fun i => jumboHeader.getD i 0

/-- The packet with this advertisement only; it fills an IP packet of 65520 bytes. -/
def jumboPacket : UpdatePacket := ⟨24 + 4 + 65472, 1, jumbo⟩

theorem fletcherLoop_zeros {room n c0 c1 : Nat} (zero : c0 % 255 = 0) :
    fletcherLoop (List.replicate n 0) room c0 c1 = (0, c1 % 255) := by
  induction n generalizing room c0 c1 with
  | zero => exact Prod.ext zero rfl
  | succ n ih =>
    cases room with
    | zero =>
      rw [List.replicate_succ, fletcherLoop, ih (by simp [zero])]
      simp [zero]
    | succ room =>
      rw [List.replicate_succ, fletcherLoop, ih (by simpa using zero)]
      refine Prod.ext rfl ?_
      change (c1 + (c0 + 0)) % 255 = c1 % 255
      omega

theorem bytes_padded (bytes : List (BitVec 8)) (n : Nat) :
    Memory.bytes (fun i => bytes.getD i 0) (bytes.length + n) = bytes ++ List.replicate n 0 := by
  refine List.ext_getElem ?_ fun i inside _ => ?_
  · rw [Memory.length_bytes, List.length_append, List.length_replicate]
  · rw [Memory.length_bytes] at inside
    rw [← List.getD_eq_getElem _ 0, Memory.getD_bytes _ inside]
    by_cases front : i < bytes.length
    · rw [List.getElem_append_left front, List.getD_eq_getElem _ _ front]
    · rw [List.getElem_append_right (not_lt.mp front), List.getElem_replicate,
        List.getD_eq_default _ _ (not_lt.mp front)]

theorem bytes_jumbo : (jumbo.offset 2).bytes 65470 =
    jumboHeader.drop 2 ++ List.replicate 65452 0 := by
  have shifted : jumbo.offset 2 = fun i => (jumboHeader.drop 2).getD i 0 := by
    funext i
    rw [Memory.offset, jumbo, List.getD_eq_getElem?_getD, List.getD_eq_getElem?_getD,
      List.getElem?_drop]
  rw [shifted]
  exact bytes_padded (jumboHeader.drop 2) 65452

theorem fletcherLoop_jumbo (rest : List (BitVec 8)) :
    fletcherLoop (jumboHeader.drop 2 ++ rest) 4102 0 0 = fletcherLoop rest 4084 765 2550 := rfl

theorem checksum_jumbo : fletcher16 (jumbo.offset 2) 65470 = 0 := by
  rw [fletcher16, show (65470 : Int).toNat = 65470 from rfl, bytes_jumbo, fletcherLoop_jumbo,
    fletcherLoop_zeros rfl]
  rfl

theorem accepted_jumbo : accepted false jumbo = true := by
  have length : ((lsaHeader jumbo).length.toNat : Int) - 2 = 65470 := by decide
  have type : (lsaHeader jumbo).type = 3 := by decide
  unfold accepted
  dsimp only
  rw [length, type, checksum_jumbo]
  rfl

theorem installLsa_jumbo : installLsa designated fromNeighbor [] jumbo =
    [receivedLsa designated jumbo] := by
  have young : (lsaHeader jumbo).age ≠ maxAge := by decide
  have ready : ¬ (designated.state = .backup ∧ fromNeighbor.ipDest = allDRouters) := by decide
  have absent : lsaListFind [] (lsaHeader jumbo).key = none := rfl
  unfold installLsa
  dsimp only
  rw [absent]
  dsimp only
  rw [if_neg ready, if_pos young]
  rfl

theorem list_lsupdateRx {r : Router} {pkt : UpdatePacket} {desc : PacketDesc} {area : Area}
    {net : Network} {nb : Neighbor} (held : pkt.held = true)
    (found : sender r desc = some (area, net, nb))
    (ready : ¬ nb.state.code < NState.exchange.code) :
    ((lsupdateRx r pkt desc).1.area desc.areaId).map (·.list) =
      some (rxLoop r area net nb desc pkt.lsas).list := by
  rw [lsupdateRx, if_pos held, found]
  dsimp only
  rw [if_neg ready]
  unfold rxStore
  dsimp only
  rw [Function.update_self]
  rfl

/-- A packet with it is admitted, the advertisement is in the database then, and the loop
does not end on it. -/
theorem oversized_lsa_admitted : ∃ lsa,
    ((lsupdateRx (receiver []) jumboPacket fromNeighbor).1.area 0).map (·.list) = some [lsa] ∧
      ¬ DrainsAll .allSpfRouters [lsa] := by
  have held : jumboPacket.held = true := by decide
  have walked : jumboPacket.lsas = [jumbo] :=
    congrArg (fun m => [m]) (funext fun i => congrArg jumbo (Nat.zero_add i))
  refine ⟨receivedLsa designated jumbo, ?_, fun drains => ?_⟩
  · have found : sender (receiver []) fromNeighbor =
        some (⟨false, [], [designated]⟩, designated,
          { ip := 0x0a000002, state := .full, lsreq := [], rxmtList := [] }) := rfl
    have type : (lsaHeader jumbo).type = 3 := by decide
    have table (st : RxState) : st.list = st.lsdb 3 := rfl
    have start : (rxStart (receiver []) ⟨false, [], [designated]⟩
        { ip := 0x0a000002, state := .full, lsreq := [], rxmtList := [] }).lsdb 3 = [] := rfl
    have after := list_lsupdateRx held found (by decide)
    rw [walked, rxLoop, List.foldl_cons, List.foldl_nil, table, lsdb_receiveLsa,
      if_pos accepted_jumbo, type, lsdb_setLsdb_of_iff _ _ Iff.rfl, start,
      installLsa_jumbo] at after
    exact after
  · have small := (drainsAll_iff _ _).mp drains _ List.mem_cons_self
    have length : (lsaHeader jumbo).length.toNat = 65472 := by decide
    have sized : sizeofHeader ≤ (lsaHeader jumbo).length.toNat := by
      rw [length, sizeofHeader]
      omega
    rw [szlsa, header_receivedLsa designated sized, length, maxPayload] at small
    omega

end Draining

end UpdatePackets
