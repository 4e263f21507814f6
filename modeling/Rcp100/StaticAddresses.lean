import Rcp100.DhcpServer

/-!
# Reserved addresses

The address of a static host is looked up when the host asks for one. What keeps it from
the other clients is that no range has it.
-/

namespace StaticAddresses

open ChainTable LeaseTables FaultRuns DhcpServer
open Function (update update_of_ne update_self)

/-- No two static hosts have one MAC address or one IP address. -/
def ConfiguredOnce (hosts : List Host) : Prop :=
  ∀ host ∈ hosts, ∀ other ∈ hosts, host.valid → other.valid →
    (host.mac = other.mac ↔ host.ip = other.ip)

instance (hosts : List Host) : Decidable (ConfiguredOnce hosts) :=
  inferInstanceAs (Decidable (∀ host ∈ hosts, ∀ other ∈ hosts, host.valid → other.valid →
    (host.mac = other.mac ↔ host.ip = other.ip)))

/-- No static address is in the range of a network. -/
def OutsideRanges (hosts : List Host) (networks : List Network) : Prop :=
  ∀ host ∈ hosts, host.valid → ∀ net ∈ networks, net.valid → net.rangeStart ≠ 0 →
    net.rangeEnd ≠ 0 → ¬ InRange net host.ip

/-- Only the host of a static address has a lease of it. -/
def Reserved (hosts : List Host) (m : Mem) : Prop :=
  ∀ host ∈ hosts, host.valid → ∀ p, leaseFindIp m host.ip = .ok (some p) → m.mac p = host.mac

/-- A static host without a lease is offered its own address in the network of the address. -/
def GetsOwn (hosts : List Host) (s : Server) : Prop :=
  ∀ host ∈ hosts, host.valid → host.ip ≠ 0 → leaseFindMac s.mem host.mac = .ok none →
    ∀ (now : Nat) (pkt : Pkt) (pif : Interface) (net : Network) (p : Ptr),
      pkt.chaddr = host.mac →
      s.networks.find? (eligible (chosenFor pkt pif)) = some net →
      host.ip &&& net.mask = net.ip &&& net.mask → p ∉ s.mem.live →
        ∃ s', exec hosts s now (.discover pkt pif (some p)) = .ok (s', .offer host.ip)

/-- `malloc` does not fail. -/
def Supplied : Event → Prop
  | .discover _ _ block => block ≠ none
  | _ => True

/-- The invariant of the runs. -/
structure Kept (hosts : List Host) (s : Server) (leases : List Ptr) : Prop where
  holds : Holds s.mem leases
  noZero : NoZero s.mem leases
  outside : OutsideRanges hosts s.networks
  reserved : ∀ p ∈ leases, ∀ host ∈ hosts, host.valid → s.mem.ip p = host.ip →
    s.mem.mac p = host.mac

section Configurations

variable {hosts : List Host} {networks networks' : List Network}

variable {net : Network}

theorem mem_of_config (same : networks'.map Network.config = networks.map Network.config)
    (member : net ∈ networks') :
    ∃ old ∈ networks, old.config = net.config := by
  have inside := List.mem_map_of_mem (f := Network.config) member
  rw [same] at inside
  exact List.mem_map.mp inside

theorem config_eq {old : Network} (same : old.config = net.config) :
    old.valid = net.valid ∧ old.ip = net.ip ∧ old.mask = net.mask ∧
      old.rangeStart = net.rangeStart ∧ old.rangeEnd = net.rangeEnd := by
  simp only [Network.config, Network.mk.injEq] at same
  exact ⟨same.1, same.2.1, same.2.2.1, same.2.2.2.1, same.2.2.2.2.1⟩

theorem OutsideRanges.config (outside : OutsideRanges hosts networks)
    (same : networks'.map Network.config = networks.map Network.config) :
    OutsideRanges hosts networks' := by
  intro host member valid net inside netValid start last
  obtain ⟨old, oldInside, equal⟩ := mem_of_config same inside
  obtain ⟨sameValid, -, -, sameStart, sameEnd⟩ := config_eq equal
  rw [InRange, ← sameStart, ← sameEnd]
  rw [← sameValid] at netValid
  rw [← sameStart] at start
  rw [← sameEnd] at last
  exact outside host member valid old oldInside netValid start last

theorem staticIp_some {mac : Mac} {ip : Ip}
    (found : staticIp hosts net mac = some ip) :
    ∃ host ∈ hosts, host.valid ∧ host.mac = mac ∧ host.ip = ip := by
  rw [staticIp, Option.map_eq_some_iff] at found
  obtain ⟨host, first, rfl⟩ := found
  have fits := List.find?_some first
  simp only [Bool.and_eq_true, decide_eq_true_eq] at fits
  exact ⟨host, List.mem_of_find?_eq_some first, fits.1.1, fits.1.2, rfl⟩

theorem staticIp_own (once : ConfiguredOnce hosts) {host : Host} (member : host ∈ hosts)
    (valid : host.valid) (here : host.ip &&& net.mask = net.ip &&& net.mask) :
    staticIp hosts net host.mac = some host.ip := by
  have found : (hosts.find? fun h => h.valid && h.mac = host.mac &&
      h.ip &&& net.mask = net.ip &&& net.mask).isSome := by
    rw [List.find?_isSome]
    exact ⟨host, member, by simp [valid, here]⟩
  obtain ⟨other, first⟩ := Option.isSome_iff_exists.mp found
  have fits := List.find?_some first
  simp only [Bool.and_eq_true, decide_eq_true_eq] at fits
  have same := (once other (List.mem_of_find?_eq_some first) host member fits.1.1 valid).mp
    fits.1.2
  rw [staticIp, first, Option.map_some, same]

theorem eligible_masked {pkt : Pkt} {pif : Interface}
    (found : eligible (chosenFor pkt pif) net) : net.ip &&& net.mask = net.ip := by
  simp only [eligible, chosenFor, Bool.and_eq_true] at found
  have chosen := found.1.1.2
  by_cases direct : pkt.giaddr = 0
  · rw [if_pos direct, Bool.and_eq_true, decide_eq_true_eq, decide_eq_true_eq] at chosen
    rw [← chosen.1, chosen.2, BitVec.and_assoc, BitVec.and_self]
  · rw [if_neg direct, decide_eq_true_eq] at chosen
    rw [← chosen, BitVec.and_assoc, BitVec.and_self]

end Configurations

section Steps

variable {hosts : List Host} {s s' : Server} {leases leases' : List Ptr} {now : Nat}

theorem Kept.of_agree (kept : Kept hosts s leases) (holds : Holds s'.mem leases')
    (networks : s'.networks.map Network.config = s.networks.map Network.config)
    (agree : ∀ p ∈ leases', p ∈ leases ∧ s'.mem.ip p = s.mem.ip p ∧
      s'.mem.mac p = s.mem.mac p) : Kept hosts s' leases' := by
  refine ⟨holds, ?_, kept.outside.config networks, ?_⟩
  · intro p member
    obtain ⟨old, sameIp, -⟩ := agree p member
    rw [sameIp]
    exact kept.noZero p old
  · intro p member host inside valid same
    obtain ⟨old, sameIp, sameMac⟩ := agree p member
    rw [sameIp] at same
    rw [sameMac]
    exact kept.reserved p old host inside valid same

theorem Kept.own (once : ConfiguredOnce hosts) (kept : Kept hosts s leases) {net : Network}
    {pkt : Pkt} {pif : Interface} {ip : Ip}
    (first : s.networks.find? (eligible (chosenFor pkt pif)) = some net)
    (source : staticIp hosts net pkt.chaddr = some ip ∨
      staticIp hosts net pkt.chaddr = none ∧ (NoZero s.mem leases → InRange net ip))
    {host : Host} (member : host ∈ hosts) (valid : host.valid) (same : ip = host.ip) :
    pkt.chaddr = host.mac := by
  rcases source with static | ⟨-, inRange⟩
  · obtain ⟨other, inside, otherValid, mac, otherIp⟩ := staticIp_some static
    rw [← mac]
    exact (once other inside host member otherValid valid).mpr (otherIp.trans same)
  · have fits := List.find?_some first
    simp only [eligible, Bool.and_eq_true, decide_eq_true_eq] at fits
    have inside := inRange kept.noZero
    rw [same] at inside
    exact absurd inside (kept.outside host member valid net (List.mem_of_find?_eq_some first)
      fits.1.1.1 fits.1.2 fits.2)

/-- An event changes no address of a lease, and adds one lease at most. -/
theorem agree_or_leased {m' : Mem} {written : List LeaseStore}
    (change : Change hosts s leases now m' leases' written) :
    (∀ p ∈ leases', p ∈ leases ∧ m'.ip p = s.mem.ip p ∧ m'.mac p = s.mem.mac p) ∨
    ∃ (p : Ptr) (pkt : Pkt) (pif : Interface) (ip : Ip) (net : Network),
      leases' = p :: leases ∧ p ∉ s.mem.live ∧ m'.ip = update s.mem.ip p ip ∧
      m'.mac = update s.mem.mac p pkt.chaddr ∧ ip ≠ 0 ∧
      s.networks.find? (eligible (chosenFor pkt pif)) = some net ∧
      (staticIp hosts net pkt.chaddr = some ip ∨
        staticIp hosts net pkt.chaddr = none ∧ (NoZero s.mem leases → InRange net ip)) := by
  cases change with
  | marked marked =>
    obtain ⟨_, _, rfl⟩ := marked
    exact .inl fun p member => ⟨member, rfl, rfl⟩
  | leased p pkt pif ip net marked fresh newMac free used first source =>
    obtain ⟨_, _, rfl⟩ := marked
    exact .inr ⟨p, pkt, pif, ip, net, rfl, fresh, rfl, rfl, used, first, source⟩
  | stored p tstamp lease t member marked =>
    obtain ⟨_, _, rfl⟩ := marked
    exact .inl fun p member => ⟨member, rfl, rfl⟩
  | expired same =>
    refine .inl fun p member => ⟨(List.mem_filter.mp member).1, ?_, ?_⟩
    · rw [same.ip]
    · rw [same.mac]
  | updated ps walk => exact .inl fun p member => ⟨member, rfl, rfl⟩

theorem Kept.done (once : ConfiguredOnce hosts) (kept : Kept hosts s leases) {event : Event}
    {outcome : Outcome} (done : Done hosts s leases now event s' leases' outcome) :
    Kept hosts s' leases' := by
  rcases agree_or_leased done.change with
    agree | ⟨p, pkt, pif, ip, net, rfl, fresh, ips, macs, used, first, source⟩
  · exact kept.of_agree done.holds done.networks agree
  have old : ∀ q ∈ leases, s'.mem.ip q = s.mem.ip q ∧ s'.mem.mac q = s.mem.mac q := by
    intro q member
    have apart : q ≠ p := by
      rintro rfl
      exact fresh (used_of_member kept.holds member)
    rw [ips, macs, update_of_ne apart, update_of_ne apart]
    exact ⟨rfl, rfl⟩
  refine ⟨done.holds, ?_, kept.outside.config done.networks, ?_⟩
  · intro q member
    rcases List.mem_cons.mp member with rfl | before
    · rw [ips, update_self]
      exact used
    · rw [(old q before).1]
      exact kept.noZero q before
  · intro q member host inside valid same
    rcases List.mem_cons.mp member with rfl | before
    · rw [ips, update_self] at same
      rw [macs, update_self]
      exact kept.own once first source inside valid same
    · rw [(old q before).1] at same
      rw [(old q before).2]
      exact kept.reserved q before host inside valid same

theorem Kept.accepted (kept : Kept hosts s leases) {event : Event} (supplied : Supplied event) :
    ¬ Refused hosts s leases event := by
  cases event with
  | discover pkt pif block =>
    rintro (empty | ⟨newMac, net, -, ip, static, q, member, same⟩)
    · exact supplied empty
    · obtain ⟨host, inside, valid, mac, hostIp⟩ := staticIp_some static
      have mine := kept.reserved q member host inside valid (same.trans hostIp.symm)
      exact newMac q member (mine.trans mac)
  | request | decline | release | timeout | fileUpdate => exact fun impossible => impossible

theorem Kept.reservedByMac (kept : Kept hosts s leases) : Reserved hosts s.mem := by
  intro host inside valid p found
  obtain ⟨r, searched, isLease⟩ := kept.holds.findIp host.ip
  rw [searched] at found
  obtain ⟨member, same⟩ := (isLease p).mp (Except.ok.inj found)
  exact kept.reserved p member host inside valid same

theorem offerLease_granted {m : Mem} {p : Ptr} {mac : Mac} {ip : Ip} {tstamp : Nat}
    {net : Network} {networks : List Network}
    (member : ∃ other ∈ networks, other.config = net.config) (valid : net.valid)
    (here : ip &&& net.mask = net.ip) (pkt : Pkt) :
    ∃ s', offerLease ⟨grant (addedLease m p mac ip tstamp) p net, networks⟩ pkt p =
      .ok (s', .offer ip) := by
  have used : p ∈ (grant (addedLease m p mac ip tstamp) p net).live := List.mem_cons_self
  have sameIp : (grant (addedLease m p mac ip tstamp) p net).ip p = ip := update_self ..
  have sameMask : (grant (addedLease m p mac ip tstamp) p net).mask p = net.mask :=
    update_self ..
  obtain ⟨other, inside, same⟩ := member
  obtain ⟨otherValid, otherIp, otherMask, -⟩ := config_eq same
  have found : (networks.find? fun candidate => candidate.valid && ip &&& net.mask = candidate.ip
      && net.mask = candidate.mask).isSome := by
    rw [List.find?_isSome]
    exact ⟨other, inside, by simp [otherValid, valid, otherIp, here, otherMask]⟩
  obtain ⟨first, isFirst⟩ := Option.isSome_iff_exists.mp found
  have network : findNetwork ⟨grant (addedLease m p mac ip tstamp) p net, networks⟩ p =
      .ok (some first) := by
    rw [findNetwork, access_ok used]
    simp only [sameIp, sameMask, isFirst]
  refine ⟨Server.setTid ⟨grant (addedLease m p mac ip tstamp) p net, networks⟩ p pkt.tid, ?_⟩
  rw [offerLease, network, ok_bind]
  simp only [sameIp, pure_eq_ok]

theorem Kept.getsOwn (once : ConfiguredOnce hosts) (kept : Kept hosts s leases) :
    GetsOwn hosts s := by
  intro host inside valid used noLease now pkt pif net p mac first here fresh
  have newMac : ∀ q ∈ leases, s.mem.mac q ≠ pkt.chaddr := by
    obtain ⟨r, searched, isLease⟩ := kept.holds.findMac host.mac
    rw [searched] at noLease
    intro q member same
    rw [mac] at same
    have found := (isLease q).mpr ⟨member, same⟩
    rw [Except.ok.inj noLease] at found
    cases found
  have static : staticIp hosts net pkt.chaddr = some host.ip := by
    rw [mac]
    exact staticIp_own once inside valid here
  rcases discover_new kept.holds hosts now pkt pif (some p) newMac with
    ⟨zero, -⟩ | ⟨nothing, -⟩ | ⟨found, again, m', r, networks', assigns, same, ended⟩
  · exact absurd kept.noZero zero
  · rw [first] at nothing
    cases nothing
  rw [first] at again
  cases again
  cases assigns with
  | none nothing => exact absurd (nothing host.ip static) used
  | assertion taken =>
    refine absurd (taken.imp_right fun held => ?_)
      (kept.accepted (show Supplied (.discover pkt pif (some p)) by simp [Supplied]))
    exact ⟨newMac, net, first, held⟩
  | lease q ip malloc some free source =>
    cases malloc
    rcases source with mine | ⟨none, -⟩
    · rw [static] at mine
      cases mine
      have eligibleNet := List.find?_some first
      have valid : net.valid := by
        simp only [eligible, Bool.and_eq_true] at eligibleNet
        exact eligibleNet.1.1.1
      have inNetwork : ∃ other ∈ networks', other.config = net.config :=
        mem_of_config same.symm (List.mem_of_find?_eq_some first)
      obtain ⟨s', offered⟩ := offerLease_granted inNetwork valid
        (here.trans (eligible_masked eligibleNet)) pkt
      exact ⟨s', ended.trans offered⟩
    · rw [static] at none
      cases none

end Steps

section Runs

variable {hosts : List Host} {t : Trace} {leases : List Ptr}

/-- No address that is reserved has gone to another client, and no assertion has failed. -/
structure Honoured (hosts : List Host) (t : Trace) : Prop where
  reserved : Reserved hosts t.server.mem
  getsOwn : GetsOwn hosts t.server
  accepted : .assertion ∉ t.outcomes

theorem step_kept (once : ConfiguredOnce hosts) (kept : Kept hosts t.server leases)
    (accepted : .assertion ∉ t.outcomes) {op : Nat × Event} (allowed : Allowed t op)
    (supplied : Supplied op.2) :
    ∃ t', step hosts t op = .ok t' ∧ (∃ leases', Kept hosts t'.server leases') ∧
      .assertion ∉ t'.outcomes := by
  rcases exec_spec kept.holds allowed.2 with
    ⟨zero, -⟩ | ⟨s', outcome, leases', ended, done⟩
  · exact absurd kept.noZero zero
  refine ⟨_, by rw [step, ended]; rfl, ⟨leases', kept.done once done⟩, ?_⟩
  intro failed
  rcases List.mem_append.mp failed with before | now
  · exact accepted before
  · exact kept.accepted supplied (done.assertion (List.mem_singleton.mp now).symm)

theorem Kept.of_reserved {s : Server} (holds : Holds s.mem leases)
    (noZero : NoZero s.mem leases) (outside : OutsideRanges hosts s.networks)
    (reserved : Reserved hosts s.mem) : Kept hosts s leases := by
  refine ⟨holds, noZero, outside, fun p member host inside valid same => ?_⟩
  obtain ⟨r, searched, isLease⟩ := holds.findIp host.ip
  rw [(isLease p).mpr ⟨member, same⟩] at searched
  exact reserved host inside valid p searched

/-- While no static address is in a range, and `malloc` does not fail, the reserved addresses
stay reserved. -/
theorem reserved_addresses (once : ConfiguredOnce hosts) (s : Server)
    (outside : OutsideRanges hosts s.networks) (holds : Holds s.mem leases)
    (noZero : NoZero s.mem leases) (reserved : Reserved hosts s.mem) (clock : Nat)
    (ops : List (Nat × Event))
    (allowed : Along (step hosts) (fun t op => Allowed t op ∧ Supplied op.2) ops
      ⟨s, clock, [], []⟩) :
    ∃ t', run (step hosts) ops ⟨s, clock, [], []⟩ = .ok t' ∧ Honoured hosts t' := by
  have along := run_rule
    (I := fun t => (∃ leases, Kept hosts t.server leases) ∧ .assertion ∉ t.outcomes)
    (fun t op inv holds => by
      obtain ⟨⟨leases, kept⟩, accepted⟩ := inv
      exact step_kept once kept accepted holds.1 holds.2)
    allowed ⟨⟨leases, .of_reserved holds noZero outside reserved⟩, List.not_mem_nil⟩
  obtain ⟨t', ran, ⟨leases', kept⟩, accepted⟩ := along
  exact ⟨t', ran, kept.reservedByMac, kept.getsOwn once, accepted⟩

def demoTrace : Trace := ⟨⟨initial [], [demoNetwork]⟩, 0, [], []⟩

instance : (event : Event) → Decidable (Supplied event)
  | .discover _ _ block => inferInstanceAs (Decidable (block ≠ none))
  | .request _ | .decline _ | .release _ | .timeout | .fileUpdate => .isTrue trivial

/-- The stranger is first, and the host gets its address all the same. -/
def demoOps : List (Nat × Event) :=
  [(5, .discover (demoDiscover 1) demoInterface (some 0)),
    (6, .discover (demoDiscover 2) demoInterface (some 1))]

theorem reserved_addresses_demo :
    ∃ t', run (step [⟨true, 0x0a000005, 2⟩]) demoOps demoTrace = .ok t' ∧
      Honoured [⟨true, 0x0a000005, 2⟩] t' := by
  refine reserved_addresses (by decide) ⟨initial [], [demoNetwork]⟩ ?_
    (holds_initial []) ?_ ?_ 0 demoOps (by decide +kernel)
  · intro host member _ net inside _ _ _
    rw [List.mem_singleton] at member inside
    subst member
    subst inside
    decide
  · exact fun p member => absurd member List.not_mem_nil
  · intro host _ _ p found
    cases found

/-- The stranger gets the address of the host, which is in the range. -/
theorem reserved_addresses_taken :
    ¬ ∀ (hosts : List Host), ConfiguredOnce hosts → ∀ (s : Server) (leases : List Ptr),
      Holds s.mem leases → NoZero s.mem leases → Reserved hosts s.mem →
      ∀ (clock : Nat) (ops : List (Nat × Event)),
      Along (step hosts) (fun t op => Allowed t op ∧ Supplied op.2) ops ⟨s, clock, [], []⟩ →
        ∃ t', run (step hosts) ops ⟨s, clock, [], []⟩ = .ok t' ∧ Honoured hosts t' := by
  intro all
  obtain ⟨t, ran, honoured⟩ := all [⟨true, 0x0a00000a, 2⟩] (by decide)
    ⟨initial [], [demoNetwork]⟩ [] (holds_initial [])
    (fun p member => absurd member List.not_mem_nil)
    (fun host _ _ p found => by cases found) 0 demoOps (by decide +kernel)
  have failed : (run (step [⟨true, 0x0a00000a, 2⟩]) demoOps demoTrace).map (·.outcomes) =
      .ok [.offer 0x0a00000a, .assertion] := by decide +kernel
  rw [demoTrace, ran] at failed
  have outcomes : t.outcomes = [.offer 0x0a00000a, .assertion] := Except.ok.inj failed
  have accepted := honoured.accepted
  rw [outcomes] at accepted
  exact accepted (by decide)

end Runs

end StaticAddresses
