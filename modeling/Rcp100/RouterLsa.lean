import Rcp100.Origination

/-!
# Router advertisements that have not changed

A new router advertisement replaces the one in the database unless `cmp_rtr_lsa` finds them
alike. The comparison takes the length from the header without converting it, so that the
number of bytes that it compares is that of another length; and it compares the options of
the first advertisement with themselves.
-/

namespace RouterLsa

open LsaFormat LsUpdate LsaAging Origination

theorem length_newLsa (seq : BitVec 32) (options : BitVec 8) (key : LsaKey)
    (body : List (BitVec 8)) :
    (newLsa seq options key body).header.length = BitVec.ofNat 16 (sizeofHeader + body.length) := by
  have field : ∀ i < 2, (newLsa seq options key body).memory (18 + i) =
      (ByteBuffer.be16 (BitVec.ofNat 16 (sizeofHeader + body.length))).getD i 0 := by
    intro i hi
    simp only [newLsa, insertChecksum, OspfLsa.memory]
    rw [getD_writeBytes _ _ (by simp), getD_writeBytes _ _ (by simp)]
    rcases (by omega : i = 0 ∨ i = 1) with rfl | rfl
    · rfl
    · rfl
  refine ByteBuffer.get16_eq ?_
  simp [ByteBuffer.slice, List.range_succ, field 0 (by omega), field 1 (by omega),
    ByteBuffer.be16]

section Links

variable {cfg : Settings}

theorem length_rtrLsaLink (net : Network) : (rtrLsaLink cfg net).length = 12 := by
  unfold rtrLsaLink
  split
  · simp
  · simp

theorem length_rtrLsaData (networks : List Network) :
    (rtrLsaData cfg networks).length =
      4 + 12 * (networks.filter (fun net => net.designatedRouter ≠ 0)).length := by
  have links : ∀ nets : List Network,
      (nets.flatMap (rtrLsaLink cfg)).length = 12 * nets.length := by
    intro nets
    induction nets with
    | nil => rfl
    | cons net nets ih =>
      rw [List.flatMap_cons, List.length_append, ih, length_rtrLsaLink, List.length_cons]
      omega
  simp only [rtrLsaData, List.length_append, links, List.length_cons, List.length_nil,
    ByteBuffer.length_be16]

end Links

section Networks

variable {cfg : Settings} {behind : Bool} {s : Ospf} {areaId : BitVec 32}

theorem network_modify (areas : Areas) (id : BitVec 32) (lists : Area → List OspfLsa)
    (i : BitVec 32) :
    ((areas.modify id (fun area => { area with list := lists area })).find i).map Area.network =
      (areas.find i).map Area.network := by
  rw [Areas.find_modify]
  split
  · rw [Option.map_map]
    rfl
  · rfl

theorem network_unlink (key : LsaKey) (i : BitVec 32) :
    ((unlink s areaId key).areas.find i).map Area.network = (s.areas.find i).map Area.network := by
  unfold unlink
  split
  · rfl
  · exact network_modify s.areas areaId _ i

theorem network_lsadbAdd (lsa : OspfLsa) (i : BitVec 32) :
    ((lsadbAdd s areaId lsa).areas.find i).map Area.network =
      (s.areas.find i).map Area.network := by
  unfold lsadbAdd
  split
  · rfl
  · exact network_modify s.areas areaId _ i

theorem network_originate (i : BitVec 32) :
    ((originate cfg s (.rtr behind areaId)).areas.find i).map Area.network =
      (s.areas.find i).map Area.network := by
  have dropped : ∀ (s : Ospf) key, ((if (ownCopy s areaId key).isSome then unlink s areaId key
      else s).areas.find i).map Area.network = (s.areas.find i).map Area.network := by
    intro s key
    split
    · exact network_unlink key i
    · rfl
  simp only [originate, Origin.call, lsaOriginateRtr]
  cases s.areas.find areaId with
  | none => rfl
  | some area =>
    dsimp only
    split
    · exact dropped s _
    · split
      · rfl
      · exact (network_lsadbAdd _ i).trans (dropped (nextSeq s) _)

theorem ownCopy_originated (cfg : Settings) (behind : Bool) {area : Area}
    (found : s.areas.find areaId = some area) (linked : area.network ≠ []) :
    ∃ lsa, ownCopy (originate cfg s (.rtr behind areaId)) areaId (rtrKey cfg areaId) = some lsa ∧
      (lsa = newLsa s.seqNumber 2 (rtrKey cfg areaId) (rtrLsaData cfg area.network) ∨
        (ownCopy s areaId (rtrKey cfg areaId) = some lsa ∧ cmpRtrLsa behind
          (newLsa s.seqNumber 2 (rtrKey cfg areaId) (rtrLsaData cfg area.network)) lsa =
            true)) := by
  have busy : ¬ area.network.isEmpty = true := by simpa using linked
  simp only [originate, Origin.call, lsaOriginateRtr, found, if_neg busy]
  split
  · rename_i passes
    obtain ⟨l, copy, same⟩ := (Option.any_eq_true _ _).mp passes
    exact ⟨l, copy, .inr ⟨copy, same⟩⟩
  · have keyed := key_newLsa s.seqNumber 2 (rtrKey cfg areaId) (rtrLsaData cfg area.network)
    generalize rv : newLsa s.seqNumber 2 (rtrKey cfg areaId) (rtrLsaData cfg area.network) = lsa
      at keyed
    have own : lsa.selfOriginated = true := by
      rw [← rv]
      rfl
    refine ⟨lsa, ?_, .inl rfl⟩
    have linked : ∀ s' : Ospf, (s'.areas.find areaId).isSome = true →
        ownCopy (lsadbAdd s' areaId lsa) areaId (rtrKey cfg areaId) = some lsa := by
      intro s' there
      have type : lsa.header.type ≠ 5 := by
        rw [show lsa.header.type = 1 from congrArg LsaKey.type keyed]
        decide
      have front : (lsadbAdd s' areaId lsa).list (some areaId) = lsa :: s'.list (some areaId) := by
        rw [lsadbAdd, if_neg type, list_modifyList s' areaId (lsaListAdd · lsa),
          if_pos ⟨rfl, there⟩]
        rfl
      have first : lsadbFind (lsadbAdd s' areaId lsa) areaId (rtrKey cfg areaId) = some lsa := by
        rw [lsadbFind, show slotOf areaId (rtrKey cfg areaId).type = some areaId from rfl, front,
          lsaListFind_cons, if_pos keyed]
      rw [ownCopy, first, Option.filter_some, if_pos own]
    refine linked _ ?_
    unfold replaceCopy
    dsimp only
    split
    · have same := @network_unlink (nextSeq s) areaId (rtrKey cfg areaId) areaId
      rw [show (nextSeq s).areas.find areaId = some area from found] at same
      obtain ⟨area', there, _⟩ := Option.map_eq_some_iff.mp same
      exact Option.isSome_iff_exists.mpr ⟨area', there⟩
    · exact Option.isSome_iff_exists.mpr ⟨area, found⟩

end Networks

/-- The number of bytes that are compared for a length: its bytes are in the other order, and
20 is subtracted without sign. -/
def compared (length : BitVec 16) : Nat :=
  ((length.extractLsb' 0 8 ++ length.extractLsb' 8 8 : BitVec 16).setWidth 64 - 20).toNat

/-- A router advertisement with so many links. -/
structure RouterAdvertisement (links : Nat) (lsa : OspfLsa) : Prop where
  type : lsa.header.type = 1
  size : lsa.bytes.length = 24 + 12*links
  length : lsa.header.length.toNat = 24 + 12*links
  count : lsa.memory.get16 22 = BitVec.ofNat 16 links

/-- Everything behind the header: the flags, the number of links, and the links. -/
def body (lsa : OspfLsa) : List (BitVec 8) := lsa.bytes.drop sizeofHeader

/-- If it comes to the bodies, no byte behind either of them is compared. -/
def StaysInside (lsa1 lsa2 : OspfLsa) : Prop :=
  cmpHeader lsa1 lsa2 = true →
    compared lsa1.header.length ≤ (body lsa1).length ∧
      compared lsa1.header.length ≤ (body lsa2).length

/-- The advertisements differ at most in age, sequence number and checksum. -/
structure SameContent (lsa1 lsa2 : OspfLsa) : Prop where
  options : lsa1.header.options = lsa2.header.options
  key : lsa1.key = lsa2.key
  length : lsa1.header.length = lsa2.header.length
  body : body lsa1 = body lsa2

/-- Whatever the memory behind the advertisements holds, the answer is that of the content. -/
def ComparesRightly (lsa1 lsa2 : OspfLsa) : Prop :=
  StaysInside lsa1 lsa2 ∧ ∀ behind, cmpRtrLsa behind lsa1 lsa2 = true ↔ SameContent lsa1 lsa2

/-- The count stays inside exactly if the length in the other byte order is at least that of
the header and at most the length. -/
theorem compared_le_iff (length : BitVec 16) (sized : 20 ≤ length.toNat) :
    compared length ≤ length.toNat - 20 ↔
      20 ≤ length.toNat % 256 * 256 + length.toNat / 256 ∧
        length.toNat % 256 * 256 + length.toNat / 256 ≤ length.toNat := by
  have bound := length.isLt
  have high : length.toNat / 256 < 256 := by omega
  have low : length.toNat % 256 < 256 := by omega
  have swapped : (length.extractLsb' 0 8 ++ length.extractLsb' 8 8 : BitVec 16).toNat =
      length.toNat % 256 * 256 + length.toNat / 256 := by
    rw [BitVec.toNat_append, BitVec.extractLsb'_toNat, BitVec.extractLsb'_toNat,
      Nat.shiftLeft_eq, Nat.shiftRight_eq_div_pow, Nat.shiftRight_eq_div_pow, Nat.mul_comm,
      ← Nat.two_pow_add_eq_or_of_lt (Nat.mod_lt _ (by decide))]
    omega
  have twenty : (20 : BitVec 64).toNat = 20 := rfl
  unfold compared
  rw [BitVec.toNat_sub, BitVec.toNat_setWidth, swapped, twenty]
  have small : length.toNat % 256 * 256 + length.toNat / 256 < 65536 := by omega
  generalize length.toNat % 256 * 256 + length.toNat / 256 = w at small ⊢
  rw [Nat.mod_eq_of_lt (by omega : w < 2 ^ 64)]
  omega

theorem cmpRtrLsa_iff {behind : Bool} {lsa1 lsa2 : OspfLsa} : cmpRtrLsa behind lsa1 lsa2 = true ↔
    cmpHeader lsa1 lsa2 = true ∧
      (body lsa1).take (compared lsa1.header.length) =
        (body lsa2).take (compared lsa1.header.length) ∧
      (compared lsa1.header.length ≤ (body lsa1).length ∨ behind = true) := by
  simp only [cmpRtrLsa, cmpBody, Bool.and_eq_true, Bool.or_eq_true, decide_eq_true_iff, body,
    List.length_drop, compared]

theorem cmpHeader_iff {lsa1 lsa2 : OspfLsa} : cmpHeader lsa1 lsa2 = true ↔
    lsa1.key = lsa2.key ∧ lsa1.header.length = lsa2.header.length := by
  simp [cmpHeader]

section Pairs

variable {links : Nat} {lsa1 lsa2 : OspfLsa} (first : RouterAdvertisement links lsa1)
variable (second : RouterAdvertisement links lsa2)

include first in
theorem length_body : (body lsa1).length = 4 + 12*links := by
  rw [body, List.length_drop, first.size, sizeofHeader]
  omega

include first second

theorem length_eq : lsa1.header.length = lsa2.header.length :=
  BitVec.eq_of_toNat_eq (first.length.trans second.length.symm)

/-- Two advertisements with equally many links are compared rightly exactly if their keys
differ, or the count stays inside the bodies and any difference shows in that many bytes. -/
theorem comparesRightly_iff : ComparesRightly lsa1 lsa2 ↔
    lsa1.key ≠ lsa2.key ∨ (compared lsa1.header.length ≤ 4 + 12*links ∧
      (lsa1.header.options ≠ lsa2.header.options ∨ body lsa1 ≠ body lsa2 →
        (body lsa1).take (compared lsa1.header.length) ≠
          (body lsa2).take (compared lsa1.header.length))) := by
  have length := length_eq first second
  have size := length_body first
  have size' := length_body second
  by_cases keyed : lsa1.key = lsa2.key
  · have header : cmpHeader lsa1 lsa2 = true := cmpHeader_iff.mpr ⟨keyed, length⟩
    constructor
    · rintro ⟨inside, right⟩
      have bound : compared lsa1.header.length ≤ 4 + 12*links := size ▸ (inside header).1
      refine .inr ⟨bound, ?_⟩
      intro differ same
      have content := (right false).mp (cmpRtrLsa_iff.mpr ⟨header, same, .inl (size ▸ bound)⟩)
      rcases differ with options | bodies
      · exact options content.options
      · exact bodies content.body
    · rintro (other | ⟨bound, shows⟩)
      · exact absurd keyed other
      refine ⟨fun _ => ⟨size ▸ bound, size' ▸ bound⟩, fun behind => ?_⟩
      rw [cmpRtrLsa_iff]
      constructor
      · rintro ⟨_, same, _⟩
        have equal : ¬ (lsa1.header.options ≠ lsa2.header.options ∨ body lsa1 ≠ body lsa2) :=
          fun differ => shows differ same
        rw [not_or, not_not, not_not] at equal
        exact ⟨equal.1, keyed, length, equal.2⟩
      · intro content
        exact ⟨header, by rw [content.body], .inl (size ▸ bound)⟩
  · refine iff_of_true ⟨?_, fun behind => ?_⟩ (.inl keyed)
    · exact fun header => absurd (cmpHeader_iff.mp header).1 keyed
    · rw [cmpRtrLsa_iff]
      exact iff_of_false (fun passes => keyed (cmpHeader_iff.mp passes.1).1)
        (fun content => keyed content.key)

end Pairs

theorem size_newLsa (seq : BitVec 32) (options : BitVec 8) (key : LsaKey)
    (data : List (BitVec 8)) :
    (newLsa seq options key data).bytes.length = sizeofHeader + data.length := by
  simp only [newLsa, insertChecksum, length_writeBytes, List.length_append,
    ByteBuffer.length_be16, ByteBuffer.length_be32, List.length_cons, List.length_nil,
    sizeofHeader]

theorem body_newLsa (seq : BitVec 32) (options : BitVec 8) (key : LsaKey)
    (data : List (BitVec 8)) : body (newLsa seq options key data) = data := by
  refine Eq.trans (List.ext_getElem? fun i => ?_) (slice_newLsa seq options key data)
  have size := size_newLsa seq options key data
  rw [body, List.getElem?_drop, ByteBuffer.slice, List.getElem?_map]
  by_cases inside : i < data.length
  · rw [List.getElem?_range inside, Option.map_some, OspfLsa.memory,
      List.getElem?_eq_getElem (by omega), List.getD_eq_getElem _ _ (by omega)]
  · rw [List.getElem?_eq_none (by omega), List.getElem?_eq_none (by simp; omega), Option.map_none]

section Consecutive

variable {cfg : Settings} {behind : Bool} {s : Ospf} {areaId : BitVec 32}

/-- The number of links of the router advertisement of an area. -/
def linkCount (area : Area) : Nat :=
  (area.network.filter (fun net => net.designatedRouter ≠ 0)).length

/-- How the new advertisement compares with the copy that an earlier call has left. -/
theorem cmpRtrLsa_copy {area : Area} (seq : BitVec 32) {seq' : BitVec 32} {lsa : OspfLsa}
    {P : Prop} (behind' : Bool)
    (kept : lsa = newLsa seq' 2 (rtrKey cfg areaId) (rtrLsaData cfg area.network) ∨
      (P ∧ cmpRtrLsa behind (newLsa seq' 2 (rtrKey cfg areaId) (rtrLsaData cfg area.network)) lsa =
        true)) :
    cmpRtrLsa behind' (newLsa seq 2 (rtrKey cfg areaId) (rtrLsaData cfg area.network)) lsa = true ↔
      compared (BitVec.ofNat 16 (24 + 12 * linkCount area)) ≤ 4 + 12 * linkCount area ∨
        behind' = true := by
  have length : ∀ seq, (newLsa seq 2 (rtrKey cfg areaId)
      (rtrLsaData cfg area.network)).header.length =
        BitVec.ofNat 16 (24 + 12 * linkCount area) := by
    intro seq
    rw [length_newLsa, length_rtrLsaData, sizeofHeader, linkCount, ← Nat.add_assoc]
  have size : (rtrLsaData cfg area.network).length = 4 + 12 * linkCount area :=
    length_rtrLsaData area.network
  rw [cmpRtrLsa_iff, cmpHeader_iff, length, body_newLsa, key_newLsa, size]
  rcases kept with rfl | ⟨_, passes⟩
  · rw [key_newLsa, length, body_newLsa]
    exact ⟨fun passes => passes.2.2, fun bound => ⟨⟨rfl, rfl⟩, rfl, bound⟩⟩
  · rw [cmpRtrLsa_iff, cmpHeader_iff, length, body_newLsa, key_newLsa] at passes
    obtain ⟨header, same, _⟩ := passes
    exact ⟨fun passes => passes.2.2, fun bound => ⟨header, same, bound⟩⟩

/-- The second of two calls finds the advertisement unchanged, whatever the memory behind it
holds, exactly if the count stays inside the body. -/
theorem second_call_iff (cfg : Settings) (behind : Bool) (s : Ospf) (areaId : BitVec 32) :
    (∀ behind', (lsaOriginateRtr cfg behind' (originate cfg s (.rtr behind areaId)) areaId).2 =
        none) ↔
      ∀ area, s.areas.find areaId = some area → area.network ≠ [] →
        compared (BitVec.ofNat 16 (24 + 12 * linkCount area)) ≤ 4 + 12 * linkCount area := by
  have networks := @network_originate cfg behind s areaId areaId
  cases found : s.areas.find areaId with
  | none =>
    rw [found, Option.map_none, Option.map_eq_none_iff] at networks
    refine iff_of_true (fun behind' => ?_)
      (fun area contra => absurd contra (Option.some_ne_none area).symm)
    simp only [lsaOriginateRtr, networks]
  | some area =>
    rw [found, Option.map_some] at networks
    obtain ⟨area', there, same⟩ := Option.map_eq_some_iff.mp networks
    simp only [Option.some.injEq, forall_eq']
    by_cases linked : area.network = []
    · refine iff_of_true (fun behind' => ?_) (fun contra => absurd linked contra)
      have empty : area'.network.isEmpty = true := by rw [same, linked]; rfl
      simp only [lsaOriginateRtr, there, if_pos empty]
    · have busy : ¬ area.network.isEmpty = true := by simpa using linked
      obtain ⟨lsa, copy, kept⟩ := ownCopy_originated cfg behind found linked
      have answer := fun behind' => cmpRtrLsa_copy
        (originate cfg s (.rtr behind areaId)).seqNumber behind' kept
      have call : ∀ behind', (lsaOriginateRtr cfg behind'
          (originate cfg s (.rtr behind areaId)) areaId).2 = none ↔
          compared (BitVec.ofNat 16 (24 + 12 * linkCount area)) ≤ 4 + 12 * linkCount area ∨
            behind' = true := by
        intro behind'
        rw [← answer behind']
        simp only [lsaOriginateRtr, there, same, if_neg busy, copy, Option.any_some]
        split
        · rename_i passes
          exact iff_of_true rfl passes
        · rename_i differs
          exact iff_of_false (by simp [replaceCopy]) differs
      simp only [call, imp_iff_right linked]
      exact ⟨fun all => (all false).resolve_right Bool.false_ne_true, fun bound _ => .inl bound⟩

end Consecutive

/-- Two router advertisements are compared rightly exactly if their keys differ, or the count
stays inside the bodies and every difference shows in so many bytes; and of two calls with the
same networks the second makes no advertisement exactly if the count stays inside the body. -/
theorem router_lsa_unchanged_iff {links : Nat} {lsa1 lsa2 : OspfLsa}
    (first : RouterAdvertisement links lsa1) (second : RouterAdvertisement links lsa2)
    (cfg : Settings) (behind : Bool) (s : Ospf) (areaId : BitVec 32) :
    (ComparesRightly lsa1 lsa2 ↔
      lsa1.key ≠ lsa2.key ∨ (compared lsa1.header.length ≤ 4 + 12*links ∧
        (lsa1.header.options ≠ lsa2.header.options ∨ body lsa1 ≠ body lsa2 →
          (body lsa1).take (compared lsa1.header.length) ≠
            (body lsa2).take (compared lsa1.header.length)))) ∧
      ((∀ behind', (lsaOriginateRtr cfg behind' (originate cfg s (.rtr behind areaId)) areaId).2 =
          none) ↔
        ∀ area, s.areas.find areaId = some area → area.network ≠ [] →
          compared (BitVec.ofNat 16 (24 + 12 * linkCount area)) ≤ 4 + 12 * linkCount area) :=
  ⟨comparesRightly_iff first second, second_call_iff cfg behind s areaId⟩

/-- An advertisement of router 10.0.0.12 with so many links of zeros. -/
def blankLinks (options : BitVec 8) (links : Nat) : OspfLsa where
  bytes := [0, 1, options, 1, 10, 0, 0, 12, 10, 0, 0, 12, 0x80, 0, 0, 2, 0, 0] ++
    ByteBuffer.be16 (BitVec.ofNat 16 (24 + 12*links)) ++ [0, 0] ++
    ByteBuffer.be16 (BitVec.ofNat 16 links) ++ List.replicate (12*links) 0
  selfOriginated := true
  flood := 0
  oldCnt := 0
  oldSelfOriginatedSeq := 0
  netIp := 0

/-- With 105 links the length is 1284, and 1009 bytes are compared. -/
theorem router_lsa_unchanged_many :
    ComparesRightly (blankLinks 2 105) (blankLinks 2 105) :=
  have advertisement : RouterAdvertisement 105 (blankLinks 2 105) :=
    ⟨by decide +kernel, by decide +kernel, by decide +kernel, by decide +kernel⟩
  (router_lsa_unchanged_iff advertisement advertisement
    ⟨false, false, fun _ => 0, fun _ => false, fun _ => 0, fun _ => 0, fun _ _ => 0, fun _ => 0⟩
    false ⟨⟨[], List.nodup_nil⟩, [], 0, 0, 0, [], []⟩ 0).1.mpr
    (.inr ⟨by decide +kernel, fun differ => differ.elim (absurd rfl) (absurd rfl)⟩)

/-- With one link the length is 36, and 9196 bytes are compared; and an advertisement without
links and other options passes for the same. -/
theorem one_link_compared_outside :
    RouterAdvertisement 1 (blankLinks 2 1) ∧ compared (blankLinks 2 1).header.length = 9196 ∧
      (body (blankLinks 2 1)).length = 16 ∧
      cmpRtrLsa false (blankLinks 2 1) (blankLinks 2 1) = false ∧
      cmpRtrLsa true (blankLinks 2 1) (blankLinks 0 1) = true ∧
      ¬ ComparesRightly (blankLinks 2 1) (blankLinks 2 1) := by
  refine ⟨⟨by decide, by decide, by decide, by decide⟩, by decide, by decide, by decide,
    by decide, ?_⟩
  rintro ⟨inside, _⟩
  exact absurd (inside (by decide)).1 (by decide)

end RouterLsa
