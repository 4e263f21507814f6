import Rcp100.BitPrefix
import Rcp100.StaticAddresses

/-!
# The network of an offer

A client is on the network of the interface that its message came in on, or on one that has
the address of the relay. `process_discover` looks for that network only for a client that has
no lease; the lease of any other client is offered again.
-/

namespace OfferNetworks

open ChainTable LeaseTables DhcpServer StaticAddresses BitPrefix

/-- `add_router`. -/
def routers (net : Network) : List Ip :=
  if net.gw1 = 0 then [] else if net.gw2 = 0 then [net.gw1] else [net.gw1, net.gw2]

/-- What an offer says about addresses. -/
structure OfferOptions where
  yiaddr : Ip
  subnetMask : Ip
  routers : List Ip
deriving DecidableEq

/-- The first half of `process_discover`: the lease that is offered. -/
def discoverLease (hosts : List Host) (s : Server) (now : Nat) (pkt : Pkt) (pif : Interface)
    (block : Option Ptr) : Except Fault (Server × Option Ptr) := do
  match ← leaseFindMac s.mem pkt.chaddr with
  | some p =>
    if ← access s.mem.live p (s.mem.declined p) then return (s, none)
    return (s, some p)
  | none =>
    let (s, r) ← assignFor hosts s now pkt pif block
    match r with
    | .lease p => return (s, some p)
    | .none | .assertion => return (s, none)

/-- The second half: the options come from the lease and from the network of the lease. -/
def offerOptions (s : Server) (p : Ptr) : Except Fault (Option OfferOptions) := do
  match ← findNetwork s p with
  | none => return none
  | some net => return some ⟨s.mem.ip p, s.mem.mask p, routers net⟩

/-- The offer that `process_discover` queues. -/
def queuedOffer (hosts : List Host) (s : Server) (now : Nat) (pkt : Pkt) (pif : Interface)
    (block : Option Ptr) : Except Fault (Option OfferOptions) := do
  let (s, r) ← discoverLease hosts s now pkt pif block
  match r with
  | none => return none
  | some p => offerOptions s p

/-- The address of an offer. -/
def offered : Outcome → Option Ip
  | .offer ip => some ip
  | _ => none

theorem offered_offerLease (s : Server) (pkt : Pkt) (p : Ptr) :
    (offerLease s pkt p).map (fun r => offered r.2) =
      (offerOptions s p).map (·.map OfferOptions.yiaddr) := by
  unfold offerLease offerOptions
  rcases findNetwork s p with _ | _ | _
  · rfl
  · rfl
  · rfl

/-- `process_discover` offers the address of the offer that it queues, and no other one. -/
theorem offered_processDiscover (hosts : List Host) (s : Server) (now : Nat) (pkt : Pkt)
    (pif : Interface) (block : Option Ptr) :
    (processDiscover hosts s now pkt pif block).map (fun r => offered r.2) =
      (queuedOffer hosts s now pkt pif block).map (·.map OfferOptions.yiaddr) := by
  unfold processDiscover queuedOffer discoverLease
  rcases leaseFindMac s.mem pkt.chaddr with _ | _ | p
  · rfl
  · rcases assignFor hosts s now pkt pif block with _ | ⟨t, p | _ | _⟩
    · rfl
    · exact offered_offerLease t pkt p
    · rfl
    · rfl
  · simp only [ok_bind]
    rcases access s.mem.live p (s.mem.declined p) with _ | _ | _
    · rfl
    · exact offered_offerLease s pkt p
    · rfl

/-- A network as the commands leave it: the mask was given by its length, and the range is in
the network. -/
structure Configured (net : Network) : Prop where
  mask : ∃ n ≤ 32, net.mask = leading 32 n
  ordered : net.rangeStart ≤ net.rangeEnd
  startInside : net.rangeStart ≠ 0 → net.rangeStart &&& net.mask = net.ip &&& net.mask
  endInside : net.rangeEnd ≠ 0 → net.rangeEnd &&& net.mask = net.ip &&& net.mask

/-- Address, mask and gateways are those of one network that the client is on. -/
def OfClientNetwork (networks : List Network) (pkt : Pkt) (pif : Interface) (o : OfferOptions) :
    Prop :=
  ∃ net ∈ networks, net.valid = true ∧ chosenFor pkt pif net = true ∧
    o.yiaddr &&& net.mask = net.ip ∧ o.subnetMask = net.mask ∧ o.routers = routers net

/-- What is offered fits the network of the client. -/
def OffersFit (hosts : List Host) (s : Server) (now : Nat) (pkt : Pkt) (pif : Interface)
    (block : Option Ptr) : Prop :=
  ∀ o, queuedOffer hosts s now pkt pif block = .ok (some o) →
    OfClientNetwork s.networks pkt pif o

/-- The client is where the address was leased. -/
def SameNetwork (pkt : Pkt) (pif : Interface) (ip mask : Ip) : Prop :=
  if pkt.giaddr = 0 then pif.ip &&& pif.mask = ip &&& mask ∧ pif.mask = mask
  else pkt.giaddr &&& mask = ip &&& mask

instance (pkt : Pkt) (pif : Interface) (ip mask : Ip) : Decidable (SameNetwork pkt pif ip mask) :=
  inferInstanceAs (Decidable (if pkt.giaddr = 0 then _ else _))

/-- A lease that the client holds, and that is not declined, is one of the network that the
client is on, or of none that is configured. -/
def StaysOnNetwork (s : Server) (leases : List Ptr) (pkt : Pkt) (pif : Interface) : Prop :=
  ∀ p ∈ leases, s.mem.mac p = pkt.chaddr → s.mem.declined p = false →
    (∃ net ∈ s.networks, net.valid = true ∧ s.mem.ip p &&& s.mem.mask p = net.ip ∧
      s.mem.mask p = net.mask) →
    SameNetwork pkt pif (s.mem.ip p) (s.mem.mask p)

section Offers

variable {hosts : List Host} {s : Server} {leases : List Ptr} {now : Nat} {pkt : Pkt}
  {pif : Interface} {block : Option Ptr}

variable {net : Network} {ip : Ip} {p : Ptr}

theorem chosenFor_iff {mask : Ip} (sameIp : ip &&& mask = net.ip)
    (sameMask : mask = net.mask) :
    chosenFor pkt pif net = true ↔ SameNetwork pkt pif ip mask := by
  rw [chosenFor, SameNetwork]
  by_cases direct : pkt.giaddr = 0
  · rw [if_pos direct, if_pos direct, Bool.and_eq_true, decide_eq_true_eq, decide_eq_true_eq,
      sameIp, sameMask]
  · rw [if_neg direct, if_neg direct, decide_eq_true_eq, sameIp, sameMask]

/-- The network of the lease is configured. -/
def NetworkKnown (s : Server) (p : Ptr) : Prop :=
  ∃ net ∈ s.networks, net.valid = true ∧ s.mem.ip p &&& s.mem.mask p = net.ip ∧
    s.mem.mask p = net.mask

theorem findNetwork_spec (used : p ∈ s.mem.live) :
    (∃ net ∈ s.networks, findNetwork s p = .ok (some net) ∧ net.valid = true ∧
      s.mem.ip p &&& s.mem.mask p = net.ip ∧ s.mem.mask p = net.mask) ∨
    (findNetwork s p = .ok none ∧ ¬ NetworkKnown s p) := by
  rw [findNetwork, access_ok used]
  cases found : s.networks.find? _ with
  | some net =>
    have fits := List.find?_some found
    simp only [Bool.and_eq_true, decide_eq_true_eq] at fits
    exact .inl ⟨net, List.mem_of_find?_eq_some found, rfl, fits.1.1, fits.1.2, fits.2⟩
  | none =>
    refine .inr ⟨rfl, ?_⟩
    rintro ⟨net, member, valid, sameIp, sameMask⟩
    refine List.find?_eq_none.mp found net member ?_
    rw [valid, decide_eq_true sameIp, decide_eq_true sameMask]
    rfl

/-- The offer of a lease fits exactly when the client is where the address was leased. -/
theorem offerOptions_fit_iff (used : p ∈ s.mem.live) :
    (∀ o, offerOptions s p = .ok (some o) → OfClientNetwork s.networks pkt pif o) ↔
      (NetworkKnown s p → SameNetwork pkt pif (s.mem.ip p) (s.mem.mask p)) := by
  rw [offerOptions]
  rcases findNetwork_spec used with ⟨net, member, found, valid, sameIp, sameMask⟩ |
    ⟨found, unknown⟩
  · simp only [found, ok_bind, pure_eq_ok, Except.ok.injEq, Option.some.injEq, forall_eq']
    constructor
    · rintro ⟨other, -, -, chosen, ofAddress, ofMask, -⟩ -
      rw [← ofMask] at ofAddress
      exact (chosenFor_iff ofAddress ofMask).mp chosen
    · intro stays
      have here := stays ⟨net, member, valid, sameIp, sameMask⟩
      exact ⟨net, member, valid, (chosenFor_iff sameIp sameMask).mpr here, sameMask ▸ sameIp,
        sameMask, rfl⟩
  · refine iff_of_true (fun o impossible => ?_) fun known => absurd known unknown
    simp only [found, ok_bind, pure_eq_ok] at impossible
    cases impossible

theorem Configured.inside (configured : Configured net)
    (start : net.rangeStart ≠ 0) (last : net.rangeEnd ≠ 0) (inRange : InRange net ip) :
    ip &&& net.mask = net.ip &&& net.mask := by
  obtain ⟨n, few, mask⟩ := configured.mask
  have startInside := configured.startInside start
  rcases inRange with rfl | ⟨above, below⟩
  · exact startInside
  · have ends := startInside.trans (configured.endInside last).symm
    rw [mask, and_leading_eq_iff few] at ends
    rw [← startInside, mask, and_leading_eq_iff few]
    exact ends.between few above below

theorem granted_ip (m : Mem) (p : Ptr) (mac : Mac) (ip : Ip) (tstamp : Nat) (net : Network) :
    (grant (addedLease m p mac ip tstamp) p net).ip p = ip := by
  change Function.update m.ip p ip p = ip
  rw [Function.update_self]

theorem granted_mask (m : Mem) (p : Ptr) (mac : Mac) (ip : Ip) (tstamp : Nat) (net : Network) :
    (grant (addedLease m p mac ip tstamp) p net).mask p = net.mask := by
  change Function.update (Function.update m.mask p 0) p net.mask p = net.mask
  rw [Function.update_self]

theorem assigned_inside (configured : ∀ net ∈ s.networks, net.valid = true → Configured net)
    (noZero : NoZero s.mem leases)
    (first : s.networks.find? (eligible (chosenFor pkt pif)) = some net)
    (source : staticIp hosts net pkt.chaddr = some ip ∨
      staticIp hosts net pkt.chaddr = none ∧ (NoZero s.mem leases → InRange net ip)) :
    ip &&& net.mask = net.ip := by
  have fits := List.find?_some first
  rw [← eligible_masked fits]
  simp only [eligible, Bool.and_eq_true, decide_eq_true_eq] at fits
  obtain ⟨⟨⟨valid, -⟩, start⟩, last⟩ := fits
  rcases source with static | ⟨-, inRange⟩
  · rw [staticIp, Option.map_eq_some_iff] at static
    obtain ⟨host, found, rfl⟩ := static
    have same := List.find?_some found
    simp only [Bool.and_eq_true, decide_eq_true_eq] at same
    exact same.2
  · exact (configured net (List.mem_of_find?_eq_some first) valid).inside start last
      (inRange noZero)

/-- The networks differ in the addresses that were assigned last at most. -/
theorem OfClientNetwork.config {networks networks' : List Network}
    (same : networks'.map Network.config = networks.map Network.config) {o : OfferOptions}
    (ofNetwork : OfClientNetwork networks' pkt pif o) : OfClientNetwork networks pkt pif o := by
  obtain ⟨net, member, valid, chosen, sameIp, sameMask, sameRouters⟩ := ofNetwork
  obtain ⟨old, oldMember, equal⟩ := mem_of_config same member
  obtain ⟨equalValid, equalIp, equalMask, -⟩ := config_eq equal
  have gateways := congrArg (fun net : Network => (net.gw1, net.gw2)) equal
  simp only [Network.config, Prod.mk.injEq] at gateways
  refine ⟨old, oldMember, equalValid.trans valid, ?_, ?_, ?_, ?_⟩
  · rwa [chosenFor, equalIp, equalMask, ← chosenFor]
  · rwa [equalIp, equalMask]
  · rwa [equalMask]
  · rwa [routers, gateways.1, gateways.2, ← routers]

/-- The lease that the client holds is offered again, whatever network the client is on. -/
theorem held_fit_iff {hosts : List Host} {now : Nat} {block : Option Ptr}
    (used : p ∈ s.mem.live) (searched : leaseFindMac s.mem pkt.chaddr = .ok (some p)) :
    OffersFit hosts s now pkt pif block ↔ (s.mem.declined p = false →
      NetworkKnown s p → SameNetwork pkt pif (s.mem.ip p) (s.mem.mask p)) := by
  rw [OffersFit, queuedOffer, discoverLease, searched, ok_bind]
  simp only [access_ok used, ok_bind]
  cases s.mem.declined p with
  | true =>
    refine iff_of_true (fun o impossible => ?_) fun impossible => by cases impossible
    cases impossible
  | false =>
    simp only [Bool.false_eq_true, if_false, pure_eq_ok, ok_bind, forall_const]
    exact offerOptions_fit_iff used

theorem new_fit (holds : Holds s.mem leases) (noZero : NoZero s.mem leases)
    (configured : ∀ net ∈ s.networks, net.valid = true → Configured net) {hosts : List Host}
    {now : Nat} {block : Option Ptr} (newMac : ∀ q ∈ leases, s.mem.mac q ≠ pkt.chaddr)
    (searched : leaseFindMac s.mem pkt.chaddr = .ok none) :
    OffersFit hosts s now pkt pif block := by
  intro o queued
  rw [queuedOffer, discoverLease, searched, ok_bind] at queued
  simp only at queued
  rcases assignFor_spec holds hosts now pkt pif block newMac with
    ⟨zero, -⟩ | ⟨-, ended⟩ | ⟨net, first, m', r, networks', assigns, same, ended⟩
  · exact absurd noZero zero
  · rw [ended] at queued
    cases queued
  · rw [ended] at queued
    cases assigns with
    | none => cases queued
    | assertion => cases queued
    | lease p ip malloc some free source =>
      have inside := assigned_inside configured noZero first source
      have chosen : chosenFor pkt pif net = true := by
        have fits := List.find?_some first
        simp only [eligible, Bool.and_eq_true] at fits
        exact fits.1.1.2
      have fit := (@offerOptions_fit_iff
        ⟨grant (addedLease s.mem p pkt.chaddr ip (now + offerLeaseTime)) p net, networks'⟩
        pkt pif p List.mem_cons_self).mpr
      refine (fit (fun _ => ?_) o queued).config same
      rw [granted_ip, granted_mask]
      exact (chosenFor_iff inside rfl).mp chosen

end Offers

/-- The offers fit the network of the client exactly when the lease that the client holds, if
it has one, is of that network. -/
theorem offers_fit_iff (hosts : List Host) {s : Server} {leases : List Ptr}
    (holds : Holds s.mem leases) (noZero : NoZero s.mem leases)
    (configured : ∀ net ∈ s.networks, net.valid = true → Configured net) (now : Nat) (pkt : Pkt)
    (pif : Interface) (block : Option Ptr) :
    OffersFit hosts s now pkt pif block ↔ StaysOnNetwork s leases pkt pif := by
  obtain ⟨r, searched, isLease⟩ := holds.findMac pkt.chaddr
  cases r with
  | some p =>
    obtain ⟨member, mine⟩ := (isLease p).mp rfl
    rw [held_fit_iff (used_of_member holds member) searched]
    constructor
    · intro stays q inside same
      cases (isLease q).mpr ⟨inside, same⟩
      exact stays
    · exact fun stays => stays p member mine
  | none =>
    have newMac : ∀ q ∈ leases, s.mem.mac q ≠ pkt.chaddr := by
      intro q member same
      cases (isLease q).mpr ⟨member, same⟩
    refine iff_of_true (new_fit holds noZero configured newMac searched) ?_
    exact fun p member mine => absurd mine (newMac p member)

/-- The network 10.0.1.0/24, with the gateway 10.0.1.1. -/
def secondNetwork : Network :=
  { demoNetwork with ip := 0x0a000100, rangeStart := 0x0a00010a, rangeEnd := 0x0a000114,
                     gw1 := 0x0a000101 }

/-- A client with the lease 10.0.0.10 of the first network. -/
def movedServer : Server :=
  ⟨grant (addedLease (initial []) 7 1 0x0a00000a 120) 7 demoNetwork,
    [demoNetwork, secondNetwork]⟩

theorem holds_moved : Holds movedServer.mem [7] := by
  have added : Holds (addedLease (initial []) 7 1 0x0a00000a 120) [7] :=
    (holds_initial []).added List.not_mem_nil (fun _ impossible => by cases impossible)
      (fun _ impossible => by cases impossible)
  exact holds_grant added demoNetwork

theorem configured_moved :
    ∀ net ∈ movedServer.networks, net.valid = true → Configured net := by
  intro net member _
  rcases List.mem_cons.mp member with rfl | member
  · exact ⟨⟨24, by decide, by decide⟩, by decide, by decide, by decide⟩
  · rw [List.mem_singleton.mp member]
    exact ⟨⟨24, by decide, by decide⟩, by decide, by decide, by decide⟩

theorem noZero_moved : NoZero movedServer.mem [7] := by
  intro p member
  rw [List.mem_singleton.mp member]
  decide

/-- On its own network the client is offered its lease. -/
theorem stayed_fits :
    OffersFit [] movedServer 105 (demoDiscover 1) demoInterface none :=
  (offers_fit_iff [] holds_moved noZero_moved configured_moved 105 (demoDiscover 1)
    demoInterface none).mpr (by
      intro p member _ _ _
      rw [List.mem_singleton.mp member]
      decide)

/-- On the second network it is offered the lease of the first one. -/
theorem moved_offered :
    Holds movedServer.mem [7] ∧ NoZero movedServer.mem [7] ∧
      (∀ net ∈ movedServer.networks, net.valid = true → Configured net) ∧
      ¬ OffersFit [] movedServer 105 (demoDiscover 1) ⟨0x0a000101, 0xffffff00⟩ none := by
  refine ⟨holds_moved, noZero_moved, configured_moved, fun fits => ?_⟩
  have queued : queuedOffer [] movedServer 105 (demoDiscover 1) ⟨0x0a000101, 0xffffff00⟩ none =
      .ok (some ⟨0x0a00000a, 0xffffff00, []⟩) := by decide +kernel
  obtain ⟨net, member, -, chosen, sameIp, -, -⟩ := fits _ queued
  rcases List.mem_cons.mp member with rfl | member
  · exact absurd chosen (by decide)
  · rw [List.mem_singleton.mp member] at sameIp
    exact absurd sameIp (by decide)

end OfferNetworks
