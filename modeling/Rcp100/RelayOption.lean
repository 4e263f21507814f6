import Rcp100.DhcpOptions

/-!
# Option 82 of the relay

The relay appends option 82, with its host name and the name of the interface, in the place of
the end marker of a request, and cuts it out of the reply. The length of the packet is kept
apart from the pointer to its marker.
-/

namespace RelayOption

open TlvLists DhcpOptions
open Function (update update_self)

/-- A text in a character array of `n + 1` bytes. -/
structure Name (n : Nat) where
  text : List (BitVec 8)
  ended : 0 ∉ text
  fits : text.length ≤ n

/-- `shm->config.hostname`. -/
abbrev HostName := Name 16

/-- `pif->name`. -/
abbrev InterfaceName := Name 15

/-- The options, with what lies behind their area, and what `chk_options` found. -/
structure Packet where
  options : Memory
  parsed : Parsed

def lenOption (host : HostName) (intf : InterfaceName) : Nat :=
  host.text.length + 1 + intf.text.length

/-- The option, byte by byte. -/
def relayBytes (host : HostName) (intf : InterfaceName) : List (BitVec 8) :=
  [82, BitVec.ofNat 8 (lenOption host intf + 2), 1, BitVec.ofNat 8 (lenOption host intf)] ++
    host.text ++ [46] ++ intf.text

/-- The bytes are written from `pkt_end` on, and the marker behind them. -/
def populate (host : HostName) (intf : InterfaceName) (pkt : Packet) : Packet where
  options := store pkt.options pkt.parsed.pktEnd (relayBytes host intf ++ [0xff])
  parsed := { pkt.parsed with
    pktEnd := pkt.parsed.pktEnd + (lenOption host intf + 4)
    pktLen := pkt.parsed.pktLen + (lenOption host intf + 4) }

/-- `rxpacket`, where it adds option 82. -/
def addOption82 (dhcprOption82 : Bool) (host : HostName) (intf : InterfaceName) (pkt : Packet) :
    Packet :=
  if dhcprOption82 = true ∧ pkt.parsed.pkt82 = none then
    if pkt.parsed.pktLen + lenOption host intf < maxPktSize then populate host intf pkt
    else pkt
  else pkt

/-- `rxpacket`, where it removes option 82. -/
def removeOption82 (pkt : Packet) : Packet :=
  match pkt.parsed.pkt82 with
  | none => pkt
  | some i =>
    { options := update pkt.options i 0xff
      parsed := { pkt.parsed with
        pktLen := pkt.parsed.pktLen - (pkt.options (i+1)).toNat
        pktEnd := i
        pkt82 := none } }

/-- The options, parsed again, are those before without option 82. -/
def KeepsOthers (before after : Memory) : Prop :=
  ∃ os last last', Laid before 0 os last ∧
    Laid after 0 (os.filter fun t : Tlv Ends => t.code ≠ 82) last' ∧ after last' = 0xff

/-- Option 82 is gone, nothing else is, and the length counts the bytes up to the marker. -/
structure RemovesOnly (requestedIp : BitVec 32) (before after : Packet) : Prop where
  options : KeepsOthers before.options after.options
  length : ∃ q, (chkOptions requestedIp).run after.options = .accepted q ∧
    after.parsed.pktLen = q.pktLen

/-- The packet fits the buffer, and its length, its marker and the length bytes of what was
appended agree. -/
structure FitsBuffer (before after : Packet) : Prop where
  pktLen : after.parsed.pktLen ≤ maxPktSize
  inside : after.parsed.pktEnd < area
  marker : after.options after.parsed.pktEnd = 0xff
  counts : after.parsed.pktLen = fixedPart + after.parsed.pktEnd + 1
  optionLength : before.parsed.pktEnd < after.parsed.pktEnd →
    before.parsed.pktEnd + 2 + (after.options (before.parsed.pktEnd + 1)).toNat =
      after.parsed.pktEnd
  suboptionLength : before.parsed.pktEnd < after.parsed.pktEnd →
    before.parsed.pktEnd + 4 + (after.options (before.parsed.pktEnd + 3)).toNat =
      after.parsed.pktEnd

section Adding

variable {host : HostName} {intf : InterfaceName} {m : Memory} {requestedIp : BitVec 32}
  {p : Parsed}

theorem lenOption_le (host : HostName) (intf : InterfaceName) : lenOption host intf ≤ 32 := by
  have left := host.fits
  have right := intf.fits
  unfold lenOption
  omega

/-- What stands behind the length byte of the option. -/
def relayValue (host : HostName) (intf : InterfaceName) : List (BitVec 8) :=
  [1, BitVec.ofNat 8 (lenOption host intf)] ++ host.text ++ [46] ++ intf.text

theorem length_relayValue (host : HostName) (intf : InterfaceName) :
    (relayValue host intf).length = lenOption host intf + 2 := by
  simp only [relayValue, lenOption, List.length_append, List.length_cons, List.length_nil]
  omega

theorem relayValue_fits (host : HostName) (intf : InterfaceName) :
    (relayValue host intf).length < 256 := by
  have short := lenOption_le host intf
  rw [length_relayValue]
  omega

theorem relay_goes : ¬ Ends 82 := by decide

/-- The option as a record. -/
def relayTlv (host : HostName) (intf : InterfaceName) : Tlv Ends :=
  ⟨82, relayValue host intf, relay_goes, relayValue_fits host intf⟩

theorem relayBytes_eq (host : HostName) (intf : InterfaceName) :
    relayBytes host intf = (relayTlv host intf).encode := by
  rw [Tlv.encode]
  change _ = _ :: BitVec.ofNat 8 (relayValue host intf).length :: relayValue host intf
  rw [length_relayValue]
  rfl

theorem length_encode_relayTlv (host : HostName) (intf : InterfaceName) :
    (relayTlv host intf).encode.length = lenOption host intf + 4 := by
  rw [Tlv.length_encode]
  change (relayValue host intf).length + 2 = _
  rw [length_relayValue]

theorem laid_populate {os : List (Tlv Ends)} (laid : Laid m 0 os p.pktEnd) :
    Laid (populate host intf ⟨m, p⟩).options 0 (os ++ [relayTlv host intf])
      (populate host intf ⟨m, p⟩).parsed.pktEnd := by
  have ends : Ends 0xff := Or.inl rfl
  have extended := laid.extend (relayTlv host intf) ends
  rw [length_encode_relayTlv, ← relayBytes_eq] at extended
  exact extended

theorem marker_populate :
    (populate host intf ⟨m, p⟩).options (populate host intf ⟨m, p⟩).parsed.pktEnd = 0xff := by
  have stored := @holds_store _ m p.pktEnd (relayBytes host intf ++ [0xff])
  have marker := (holds_append.mp stored).2.1
  rw [relayBytes_eq, length_encode_relayTlv, ← relayBytes_eq] at marker
  exact marker

theorem lengths_populate :
    ((populate host intf ⟨m, p⟩).options (p.pktEnd + 1)).toNat = lenOption host intf + 2 ∧
      ((populate host intf ⟨m, p⟩).options (p.pktEnd + 3)).toNat = lenOption host intf := by
  have short := lenOption_le host intf
  have stored := @holds_store _ m p.pktEnd (relayBytes host intf ++ [0xff])
  obtain ⟨-, option, -, suboption, -⟩ := stored
  constructor
  · exact (congrArg BitVec.toNat option).trans (by rw [BitVec.toNat_ofNat]; omega)
  · exact (congrArg BitVec.toNat suboption).trans (by rw [BitVec.toNat_ofNat]; omega)

theorem fits_populate_iff (size : p.pktLen = fixedPart + p.pktEnd + 1) :
    FitsBuffer ⟨m, p⟩ (populate host intf ⟨m, p⟩) ↔
      p.pktLen + lenOption host intf + 4 ≤ maxPktSize := by
  obtain ⟨option, suboption⟩ := @lengths_populate host intf m p
  constructor
  · intro fits
    have bound := fits.pktLen
    change p.pktLen + (lenOption host intf + 4) ≤ maxPktSize at bound
    omega
  · intro room
    have total := packet_size
    refine ⟨?_, ?_, marker_populate, ?_, fun _ => ?_, fun _ => ?_⟩
    · change p.pktLen + (lenOption host intf + 4) ≤ maxPktSize
      omega
    · change p.pktEnd + (lenOption host intf + 4) < area
      omega
    · change p.pktLen + (lenOption host intf + 4) = fixedPart + (p.pktEnd + _) + 1
      omega
    · rw [option]
      change p.pktEnd + 2 + _ = p.pktEnd + (lenOption host intf + 4)
      omega
    · rw [suboption]
      change p.pktEnd + 4 + _ = p.pktEnd + (lenOption host intf + 4)
      omega

theorem fits_unchanged (size : p.pktLen = fixedPart + p.pktEnd + 1) (marker : m p.pktEnd = 0xff)
    (short : p.pktLen ≤ maxPktSize) : FitsBuffer ⟨m, p⟩ ⟨m, p⟩ := by
  have total := packet_size
  refine ⟨short, ?_, marker, size, fun less => ?_, fun less => ?_⟩
  · change p.pktEnd < area
    omega
  · exact absurd less (Nat.lt_irrefl _)
  · exact absurd less (Nat.lt_irrefl _)

end Adding

/-- For every accepted packet and all names: appending option 82 overflows the packet exactly
where the check of the space leaves out the four bytes before the names. -/
theorem relay_fits_iff {m : Memory} {requestedIp : BitVec 32} {p : Parsed}
    (accepted : (chkOptions requestedIp).run m = .accepted p) (short : p.pktLen ≤ maxPktSize)
    (dhcprOption82 : Bool) (host : HostName) (intf : InterfaceName) :
    FitsBuffer ⟨m, p⟩ (addOption82 dhcprOption82 host intf ⟨m, p⟩) ↔
      (dhcprOption82 = true → p.pkt82 = none →
        p.pktLen + lenOption host intf + 4 ≤ maxPktSize ∨
          maxPktSize ≤ p.pktLen + lenOption host intf) := by
  obtain ⟨os, -, -, marker, size, -⟩ := accepted_spec accepted
  have unchanged := fits_unchanged size marker short
  by_cases adds : dhcprOption82 = true ∧ p.pkt82 = none
  · simp only [addOption82, adds, and_self, if_true, forall_const]
    by_cases space : p.pktLen + lenOption host intf < maxPktSize
    · rw [if_pos space, fits_populate_iff size]
      omega
    · rw [if_neg space]
      exact iff_of_true unchanged (Or.inr (Nat.le_of_not_lt space))
  · rw [addOption82, if_neg adds]
    exact iff_of_true unchanged fun enabled none => absurd ⟨enabled, none⟩ adds

/-- `rcp` on `eth0`. -/
def rcpHost : HostName := ⟨[0x72, 0x63, 0x70], by decide, by decide⟩

def eth0 : InterfaceName := ⟨[0x65, 0x74, 0x68, 0x30], by decide, by decide⟩

/-- The options of a DISCOVER. -/
def discover : Memory := fun i => [53, 1, 1, 0xff].getD i 0

def discoverParsed : Parsed := ⟨{ pktType := some 2 }, 3, 244⟩

theorem discover_fits :
    FitsBuffer ⟨discover, discoverParsed⟩
      (addOption82 true rcpHost eth0 ⟨discover, discoverParsed⟩) := by
  have accepted : (chkOptions 0).run discover = .accepted discoverParsed := by decide +kernel
  exact (relay_fits_iff accepted (by decide) true rcpHost eth0).mpr fun _ _ => Or.inl (by decide)

/-- A DISCOVER with so many options that the check leaves one byte for the names. -/
def tight : Memory := fun i =>
  let filler := (43#8) :: 255#8 :: List.replicate 255 1#8
  ([53#8, 1#8, 1#8] ++ filler ++ filler ++ filler ++ filler ++ [43#8, 89#8] ++
    List.replicate 89 1#8 ++ [255#8]).getD i 0

def tightParsed : Parsed := ⟨{ pktType := some 2 }, 1122, 1363⟩

theorem tight_overflows :
    (chkOptions 0).run tight = .accepted tightParsed ∧ tightParsed.pktLen ≤ maxPktSize ∧
      ¬ FitsBuffer ⟨tight, tightParsed⟩ (addOption82 true rcpHost eth0 ⟨tight, tightParsed⟩) := by
  refine ⟨by decide +kernel, by decide, fun fits => ?_⟩
  have long : maxPktSize <
      (addOption82 true rcpHost eth0 ⟨tight, tightParsed⟩).parsed.pktLen := by decide
  exact absurd fits.pktLen (Nat.not_le_of_lt long)

section Removing

variable {host : HostName} {intf : InterfaceName} {m : Memory} {requestedIp : BitVec 32}
  {p : Parsed} {i : Nat}

/-- Option 82 ends the list and stands in it once. -/
def OnlyLast (m : Memory) : Prop :=
  ∃ (before : List (Tlv Ends)) (t : Tlv Ends) (last : Nat),
    Laid m 0 (before ++ [t]) last ∧ t.code = 82 ∧ ∀ u ∈ before, u.code ≠ 82

variable {os : List (Tlv Ends)} {last : Nat}

theorem filter_others (others : ∀ u ∈ os, u.code ≠ 82) :
    os.filter (fun t => t.code ≠ 82) = os :=
  List.filter_eq_self.mpr fun u member => decide_eq_true (others u member)

theorem filter_relay {t : Tlv Ends} (code : t.code = 82) (os : List (Tlv Ends)) :
    (t :: os).filter (fun t => t.code ≠ 82) = os.filter fun t => t.code ≠ 82 := by
  simp only [List.filter_cons, code, ne_eq, not_true_eq_false, decide_false, Bool.false_eq_true,
    if_false]

theorem cut_spec (laid : Laid m 0 os last)
    (relay : lastAt 82 0 os = some i) :
    ∃ before t after, os = before ++ t :: after ∧ t.code = 82 ∧ (∀ u ∈ after, u.code ≠ 82) ∧
      Laid (update m i 0xff) 0 before i ∧ i + 2 + (m (i+1)).toNat ≤ last := by
  obtain ⟨before, t, after, rfl, code, others, rfl⟩ := lastAt_eq_some relay
  obtain ⟨holds, further⟩ := laid.at_option
  have ends : Ends 0xff := Or.inl rfl
  refine ⟨before, t, after, rfl, code, others, laid.cut ends, ?_⟩
  rw [toNat_lengthByte holds]
  omega

theorem keepsOthers_iff (laid : Laid m 0 os last)
    (relay : lastAt 82 0 os = some i) :
    KeepsOthers m (update m i 0xff) ↔ OnlyLast m := by
  obtain ⟨before, t, after, rfl, code, others, kept, -⟩ := cut_spec laid relay
  constructor
  · rintro ⟨os', last', stop, laid', filtered, -⟩
    obtain ⟨rfl, rfl⟩ := laid.unique laid'
    obtain ⟨same, rfl⟩ := kept.unique filtered
    have gone : ∀ u ∈ before, u.code ≠ 82 := by
      intro u member
      rw [same] at member
      exact of_decide_eq_true (List.mem_filter.mp member).2
    rw [List.filter_append, filter_others gone, List.self_eq_append_right] at same
    rw [filter_relay code, filter_others others] at same
    subst same
    exact ⟨before, t, last, laid, code, gone⟩
  · rintro ⟨before', t', last', laid', code', gone⟩
    obtain ⟨same, rfl⟩ := laid.unique laid'
    rcases List.eq_nil_or_concat after with rfl | ⟨between, u, rfl⟩
    · obtain ⟨rfl, -⟩ := List.append_inj' same rfl
      refine ⟨before ++ [t], last, i, laid, ?_, update_self _ _ _⟩
      rw [List.filter_append, filter_others gone, filter_relay code, List.filter_nil,
        List.append_nil]
      exact kept
    · -- an option behind the last option 82 would itself have the code 82
      rw [List.concat_eq_append, ← List.cons_append, ← List.append_assoc] at same
      obtain ⟨-, tails⟩ := List.append_inj' same rfl
      obtain ⟨rfl, -⟩ := List.cons.inj tails
      have member : u ∈ between.concat u := by
        rw [List.concat_eq_append]
        exact List.mem_append_right between List.mem_cons_self
      exact absurd code' (others u member)

theorem run_cut (laid : Laid m 0 os last)
    (short : os.length < area + 1) (relay : lastAt 82 0 os = some i) :
    ∃ q, (chkOptions requestedIp).run (update m i 0xff) = .accepted q ∧
      q.pktLen = fixedPart + i + 1 := by
  obtain ⟨before, t, after, rfl, -, -, kept, -⟩ := cut_spec laid relay
  rw [List.length_append, List.length_cons] at short
  have marker : update m i 0xff i = 0xff := update_self _ _ _
  exact ⟨_, accepted_iff.mpr ⟨before, i, kept, by omega, marker, rfl⟩, rfl⟩

theorem removeOption82_some (relay : p.pkt82 = some i) :
    removeOption82 ⟨m, p⟩ =
      ⟨update m i 0xff,
        { p with pktLen := p.pktLen - (m (i+1)).toNat, pktEnd := i, pkt82 := none }⟩ := by
  simp only [removeOption82, relay]

/-- What an accepted reply with option 82 is turned into: the two bytes before the value of the
option, and all that follows it, still count. -/
theorem remove_spec (accepted : (chkOptions requestedIp).run m = .accepted p)
    (relay : p.pkt82 = some i) :
    (KeepsOthers m (removeOption82 ⟨m, p⟩).options ↔ OnlyLast m) ∧
      ∃ q, (chkOptions requestedIp).run (removeOption82 ⟨m, p⟩).options = .accepted q ∧
        (removeOption82 ⟨m, p⟩).parsed.pktLen =
          q.pktLen + 2 + (p.pktEnd - (i + 2 + (m (i+1)).toNat)) := by
  obtain ⟨os, laid, short, -, size, found⟩ := accepted_spec accepted
  rw [found] at relay
  obtain ⟨-, -, -, -, -, -, -, further⟩ := cut_spec laid relay
  obtain ⟨q, reparsed, counts⟩ := @run_cut m requestedIp i os p.pktEnd laid short relay
  rw [removeOption82_some (found.trans relay)]
  refine ⟨keepsOthers_iff laid relay, q, reparsed, ?_⟩
  change p.pktLen - (m (i+1)).toNat = _
  omega

/-- The option that the relay has appended is cut out again, in the place where it was, and the
length keeps two bytes of it. -/
theorem remove_populate (accepted : (chkOptions requestedIp).run m = .accepted p)
    (space : p.pktLen + lenOption host intf < maxPktSize) :
    ∃ q, (chkOptions requestedIp).run (populate host intf ⟨m, p⟩).options = .accepted q ∧
      (removeOption82 ⟨(populate host intf ⟨m, p⟩).options, q⟩).parsed.pktEnd = p.pktEnd ∧
      (removeOption82 ⟨(populate host intf ⟨m, p⟩).options, q⟩).parsed.pktLen = p.pktLen + 2 ∧
      ∀ i ≤ p.pktEnd,
        (removeOption82 ⟨(populate host intf ⟨m, p⟩).options, q⟩).options i = m i := by
  obtain ⟨os, laid, -, marker, size, -⟩ := accepted_spec accepted
  have further := laid.le
  have start := laid.size
  have total := packet_size
  have short : (os ++ [relayTlv host intf]).length < area + 1 := by
    rw [List.length_append, List.length_singleton]
    omega
  let q := parsed (populate host intf ⟨m, p⟩).options requestedIp (os ++ [relayTlv host intf])
    (populate host intf ⟨m, p⟩).parsed.pktEnd
  have found : q.pkt82 = some p.pktEnd := by
    have code : (relayTlv host intf).code = 82 := rfl
    rw [pkt82_parsed, lastAt_concat code, ← start]
  refine ⟨q, accepted_iff.mpr ⟨_, _, laid_populate laid, short, marker_populate, rfl⟩, ?_⟩
  rw [removeOption82_some found]
  refine ⟨rfl, ?_, fun i upper => ?_⟩
  · change fixedPart + (p.pktEnd + (lenOption host intf + 4)) + 1 - _ = p.pktLen + 2
    rw [lengths_populate.1]
    omega
  · rcases Nat.lt_or_eq_of_le upper with before | rfl
    · exact (Function.update_of_ne (Nat.ne_of_lt before) _ _).trans
        (store_outside (Or.inl before))
    · exact (update_self _ _ _).trans marker.symm

end Removing

/-- No accepted reply with option 82 is left with exactly its other options and their length
(the other options are all there only when option 82 ends the list), and no packet that option
82 was added to gets its length back. -/
theorem removal_never_exact (requestedIp : BitVec 32) :
    (∀ m p, (chkOptions requestedIp).run m = .accepted p → p.pkt82 ≠ none →
      ¬ RemovesOnly requestedIp ⟨m, p⟩ (removeOption82 ⟨m, p⟩) ∧
        (KeepsOthers m (removeOption82 ⟨m, p⟩).options ↔ OnlyLast m)) ∧
    ∀ m p host intf, (chkOptions requestedIp).run m = .accepted p → p.pkt82 = none →
      p.pktLen + lenOption host intf < maxPktSize →
        ∃ q, (chkOptions requestedIp).run (addOption82 true host intf ⟨m, p⟩).options =
            .accepted q ∧
          (removeOption82 ⟨(addOption82 true host intf ⟨m, p⟩).options, q⟩).parsed.pktLen ≠
            p.pktLen := by
  constructor
  · intro m p accepted present
    obtain ⟨i, relay⟩ := Option.ne_none_iff_exists'.mp present
    obtain ⟨keeps, q, reparsed, counts⟩ := remove_spec accepted relay
    refine ⟨fun removes => ?_, keeps⟩
    obtain ⟨q', reparsed', length⟩ := removes.length
    cases reparsed.symm.trans reparsed'
    omega
  · intro m p host intf accepted absent space
    obtain ⟨q, reparsed, -, counts, -⟩ := remove_populate accepted space
    have adds : addOption82 true host intf ⟨m, p⟩ = populate host intf ⟨m, p⟩ := by
      rw [addOption82, if_pos ⟨rfl, absent⟩, if_pos space]
    rw [adds]
    exact ⟨q, reparsed, by omega⟩

/-- The options of an OFFER, with option 82 before the lease time. -/
def offer : Memory := fun i => [53, 1, 2, 82, 2, 1, 0, 51, 4, 0, 0, 14, 16, 0xff].getD i 0

def offerParsed : Parsed := ⟨{ pktType := some 2, pkt82 := some 3, leaseTime := 3600 }, 13, 254⟩

theorem offer_inexact :
    (¬ RemovesOnly 0 ⟨offer, offerParsed⟩ (removeOption82 ⟨offer, offerParsed⟩) ∧
      (KeepsOthers offer (removeOption82 ⟨offer, offerParsed⟩).options ↔ OnlyLast offer)) ∧
      ∃ q, (chkOptions 0).run (addOption82 true rcpHost eth0 ⟨discover, discoverParsed⟩).options =
          .accepted q ∧
        (removeOption82 ⟨(addOption82 true rcpHost eth0 ⟨discover, discoverParsed⟩).options,
          q⟩).parsed.pktLen ≠ discoverParsed.pktLen :=
  ⟨(removal_never_exact 0).1 offer offerParsed (by decide +kernel) (by decide),
    (removal_never_exact 0).2 discover discoverParsed rcpHost eth0 (by decide +kernel) (by decide)
      (by decide)⟩

/-- The lease time is lost, and the length counts eight bytes too many. -/
theorem offer_mangled :
    (chkOptions 0).run offer = .accepted offerParsed ∧
      ¬ RemovesOnly 0 ⟨offer, offerParsed⟩ (removeOption82 ⟨offer, offerParsed⟩) := by
  refine ⟨by decide +kernel, fun removes => ?_⟩
  obtain ⟨q, reparsed, length⟩ := removes.length
  have parsedAgain : (chkOptions 0).run (removeOption82 ⟨offer, offerParsed⟩).options =
      .accepted ⟨{ pktType := some 2 }, 3, 244⟩ := by decide +kernel
  cases reparsed.symm.trans parsedAgain
  exact absurd length (by decide)

end RelayOption
