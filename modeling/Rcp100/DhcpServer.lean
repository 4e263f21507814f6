import Rcp100.LeaseTables
import Rcp100.FaultRuns
import Mathlib.Data.Finset.Card
import Mathlib.Data.Finset.Filter

/-!
# The messages of the DHCP server

The addresses come from the ranges of the configured networks, or from the table of static
hosts. An offer is a lease of twenty seconds; a request makes it a lease of the duration
that is configured for the network, and a release one of twenty seconds again.
-/

namespace DhcpServer

open ChainTable LeaseTables
open Function (update)

structure Network where
  valid : Bool
  ip : Ip
  mask : Ip
  rangeStart : Ip
  rangeEnd : Ip
  leaseDays : BitVec 8
  leaseHours : BitVec 8
  leaseMinutes : BitVec 8
  lastIp : Ip
  gw1 : Ip := 0
  gw2 : Ip := 0
deriving DecidableEq

/-- A static address. -/
structure Host where
  valid : Bool
  ip : Ip
  mac : Mac
deriving DecidableEq

/-- The interface a message was received on. -/
structure Interface where
  ip : Ip
  mask : Ip
deriving DecidableEq

/-- The fields of a message that the server reads. -/
structure Pkt where
  chaddr : Mac
  giaddr : Ip
  ciaddr : Ip
  requestedIp : Ip
  tid : BitVec 32
deriving DecidableEq

structure Server where
  mem : Mem
  networks : List Network

/-- What a message leads to: an answer, or the `ASSERT(0)` after `lease_add`. -/
inductive Outcome where
  | silent
  | offer (ip : Ip)
  | ack (ip : Ip)
  | nack
  | assertion
deriving DecidableEq

/-- `DHCP_OFFER_LEASE_TIME`, in seconds. -/
def offerLeaseTime : Nat := 20

def leaseSeconds (net : Network) : BitVec 32 :=
  net.leaseMinutes.setWidth 32 * 60 + net.leaseHours.setWidth 32 * 3600 +
    net.leaseDays.setWidth 32 * 24 * 3600

/-- `for (ip = from; ip <= last; ip++)`, the two loops of `assign_ip`. -/
def firstFree (m : Mem) (last : Ip) : Nat → Ip → Except Fault (Option Ip)
  | 0, _ => .error .endless
  | steps+1, ip =>
    if ip ≤ last then do
      if (← leaseFindIp m ip).isNone then return some ip else firstFree m last steps (ip + 1)
    else return none

/-- The static address of a client in the network. -/
def staticIp (hosts : List Host) (net : Network) (mac : Mac) : Option Ip :=
  (hosts.find? fun host =>
    host.valid && host.mac = mac && host.ip &&& net.mask = net.ip &&& net.mask).map (·.ip)

/-- The address after the one that was assigned last. -/
def startIp (net : Network) : Ip :=
  if net.lastIp = 0 then net.rangeStart
  else
    let start := net.lastIp + 1
    if start < net.rangeStart ∨ net.rangeEnd < start then net.rangeStart else start

/-- The two loops of `assign_ip`; zero where no address is free. -/
def dynamicIp (m : Mem) (net : Network) : Except Fault Ip := do
  let start := startIp net
  match ← firstFree m net.rangeEnd (m.live.length + 1) start with
  | some ip => return ip
  | none => return (← firstFree m start (m.live.length + 1) net.rangeStart).getD 0

def assignIp (hosts : List Host) (m : Mem) (net : Network) (mac : Mac) :
    Except Fault (Network × Ip) :=
  match staticIp hosts net mac with
  | some ip => return (net, ip)
  | none => do
    let ip ← dynamicIp m net
    return ({ net with lastIp := ip }, ip)

/-- What `assign_lease` and `assign_lease_relay` return. -/
inductive Assigned where
  | lease (p : Ptr)
  | none
  /-- `NULL` after the `ASSERT(0)` -/
  | assertion
deriving DecidableEq

/-- The lease gets the duration and the mask of the network. -/
def grant (m : Mem) (p : Ptr) (net : Network) : Mem :=
  { m with
    lease := update m.lease p (leaseSeconds net)
    mask := update m.mask p net.mask }

/-- What is done in the network that was found. -/
def assignIn (hosts : List Host) (m : Mem) (mac : Mac) (now : Nat) (block : Option Ptr)
    (net : Network) : Except Fault (Network × Mem × Assigned) := do
  let (net, ip) ← assignIp hosts m net mac
  if ip = 0 then return (net, m, .none)
  let (m, lease) ← leaseAdd m mac ip (now + offerLeaseTime) now block
  match lease with
  | none => return (net, m, .assertion)
  | some p => return (net, grant m p net, .lease p)

/-- A network that `assign_lease` looks for. -/
def eligible (chosen : Network → Bool) (net : Network) : Bool :=
  net.valid && chosen net && net.rangeStart ≠ 0 && net.rangeEnd ≠ 0

/-- The loop over the networks, up to the first one that is eligible. -/
def assignFirst (chosen : Network → Bool) (m : Mem)
    (body : Network → Except Fault (Network × Mem × Assigned)) :
    List Network → Except Fault (List Network × Mem × Assigned)
  | [] => return ([], m, .none)
  | net :: rest =>
    if eligible chosen net then do
      let (net, r) ← body net
      return (net :: rest, r)
    else do
      let (rest, r) ← assignFirst chosen m body rest
      return (net :: rest, r)

section Messages

variable (hosts : List Host) (s : Server) (now : Nat)

def assignLease (pif : Interface) (mac : Mac) (block : Option Ptr) :
    Except Fault (Server × Assigned) := do
  let (networks, m, r) ← assignFirst
    (fun net => pif.ip &&& pif.mask = net.ip && pif.mask = net.mask) s.mem
    (assignIn hosts s.mem mac now block) s.networks
  return (⟨m, networks⟩, r)

def assignLeaseRelay (giaddr : Ip) (mac : Mac) (block : Option Ptr) :
    Except Fault (Server × Assigned) := do
  let (networks, m, r) ← assignFirst (fun net => giaddr &&& net.mask = net.ip) s.mem
    (assignIn hosts s.mem mac now block) s.networks
  return (⟨m, networks⟩, r)

/-- The interface is looked at unless a relay sent the message. -/
def assignFor (pkt : Pkt) (pif : Interface) (block : Option Ptr) :
    Except Fault (Server × Assigned) :=
  if pkt.giaddr = 0 then assignLease hosts s now pif pkt.chaddr block
  else assignLeaseRelay hosts s now pkt.giaddr pkt.chaddr block

end Messages

def findNetwork (s : Server) (p : Ptr) : Except Fault (Option Network) :=
  access s.mem.live p (s.networks.find? fun net =>
    net.valid && s.mem.ip p &&& s.mem.mask p = net.ip && s.mem.mask p = net.mask)

def Server.setTid (s : Server) (p : Ptr) (tid : BitVec 32) : Server :=
  { s with mem := { s.mem with tid := update s.mem.tid p tid } }

def Server.setLease (s : Server) (p : Ptr) (lease : BitVec 32) : Server :=
  { s with mem := { s.mem with lease := update s.mem.lease p lease } }

def Server.setDeclined (s : Server) (p : Ptr) : Server :=
  { s with mem := { s.mem with declined := update s.mem.declined p true } }

def Server.setMem (s : Server) (m : Mem) : Server := { s with mem := m }

/-- The end of `process_discover`, where the offer is built. -/
def offerLease (s : Server) (pkt : Pkt) (p : Ptr) : Except Fault (Server × Outcome) := do
  match ← findNetwork s p with
  | none => return (s, .silent)
  | some _ => return (s.setTid p pkt.tid, .offer (s.mem.ip p))

def processDiscover (hosts : List Host) (s : Server) (now : Nat) (pkt : Pkt) (pif : Interface)
    (block : Option Ptr) : Except Fault (Server × Outcome) := do
  match ← leaseFindMac s.mem pkt.chaddr with
  | some p =>
    if ← access s.mem.live p (s.mem.declined p) then return (s, .silent)
    offerLease s pkt p
  | none =>
    let (s, r) ← assignFor hosts s now pkt pif block
    match r with
    | .lease p => offerLease s pkt p
    | .none => return (s, .silent)
    | .assertion => return (s, .assertion)

/-- The lease of this address when it is also the one of the client. -/
def clientLease (m : Mem) (ip : Ip) (mac : Mac) : Except Fault (Option Ptr) := do
  let lease1 ← leaseFindIp m ip
  let lease2 ← leaseFindMac m mac
  return if lease1 = lease2 then lease1 else none

/-- The address of the option, else the one of the field. -/
def requestedAddress (pkt : Pkt) : Ip := if pkt.requestedIp = 0 then pkt.ciaddr else pkt.requestedIp

def processDecline (s : Server) (pkt : Pkt) : Except Fault (Server × Outcome) := do
  let ip := requestedAddress pkt
  if ip = 0 then return (s, .silent)
  match ← clientLease s.mem ip pkt.chaddr with
  | none => return (s, .silent)
  | some p =>
    let tid ← access s.mem.live p (s.mem.tid p)
    if tid ≠ 0 ∧ tid ≠ pkt.tid then return (s, .silent)
    return (s.setDeclined p, .silent)

/-- The lease ends at another time, and is written to the file. -/
def renewAndStore (s : Server) (p : Ptr) (tstamp : Nat) (lease : BitVec 32) :
    Except Fault Server := do
  let m ← leaseRenew s.mem p tstamp
  let s := (s.setMem m).setLease p lease
  let m ← leaseStore s.mem p
  return s.setMem m

def processRequest (s : Server) (now : Nat) (pkt : Pkt) : Except Fault (Server × Outcome) := do
  let ip := requestedAddress pkt
  if ip = 0 then return (s, .nack)
  match ← clientLease s.mem ip pkt.chaddr with
  | none => return (s, .nack)
  | some p =>
    let tid ← access s.mem.live p (s.mem.tid p)
    if tid ≠ 0 ∧ tid ≠ pkt.tid then return (s, .nack)
    let s := s.setTid p 0
    match ← findNetwork s p with
    | none => return (s, .silent)
    | some net =>
      let s ← renewAndStore s p (now + (leaseSeconds net).toNat) (leaseSeconds net)
      return (s, .ack (s.mem.ip p))

def processRelease (s : Server) (now : Nat) (pkt : Pkt) : Except Fault (Server × Outcome) := do
  if pkt.ciaddr = 0 then return (s, .silent)
  match ← clientLease s.mem pkt.ciaddr pkt.chaddr with
  | none => return (s, .silent)
  | some p =>
    let tid ← access s.mem.live p (s.mem.tid p)
    if tid ≠ 0 then return (s, .silent)
    match ← findNetwork s p with
    | none => return (s, .silent)
    | some _ =>
      let s ← renewAndStore s p (now + offerLeaseTime) (BitVec.ofNat 32 offerLeaseTime)
      return (s.setDeclined p, .silent)

inductive Event where
  | discover (pkt : Pkt) (pif : Interface) (block : Option Ptr)
  | request (pkt : Pkt)
  | decline (pkt : Pkt)
  | release (pkt : Pkt)
  | timeout
  | fileUpdate
deriving DecidableEq

def exec (hosts : List Host) (s : Server) (now : Nat) :
    Event → Except Fault (Server × Outcome)
  | .discover pkt pif block => processDiscover hosts s now pkt pif block
  | .request pkt => processRequest s now pkt
  | .decline pkt => processDecline s pkt
  | .release pkt => processRelease s now pkt
  | .timeout => do
    let m ← leaseTimeout s.mem now
    return (s.setMem m, .silent)
  | .fileUpdate => do
    let m ← leaseFileUpdate s.mem
    return (s.setMem m, .silent)

/-- The records that a step writes to the file. -/
def records (before after : Mem) : Event → List LeaseStore
  | .fileUpdate => after.file
  | _ => after.file.drop before.file.length

/-- A run so far: the server, the time, all records ever written, and the outcomes. -/
structure Trace where
  server : Server
  clock : Nat
  log : List LeaseStore
  outcomes : List Outcome

def step (hosts : List Host) (t : Trace) (op : Nat × Event) : Except Fault Trace := do
  let (s, outcome) ← exec hosts t.server op.1 op.2
  return ⟨s, op.1, t.log ++ records t.server.mem s.mem op.2, t.outcomes ++ [outcome]⟩

/-- `malloc` returns a block that is not in use. -/
def Fresh (m : Mem) : Event → Prop
  | .discover _ _ block => ∀ p ∈ block, p ∉ m.live
  | _ => True

/-- Time does not go back, and blocks are fresh. -/
def Allowed (t : Trace) (op : Nat × Event) : Prop :=
  t.clock ≤ op.1 ∧ Fresh t.server.mem op.2

instance (m : Mem) : (event : Event) → Decidable (Fresh m event)
  | .discover _ _ block => inferInstanceAs (Decidable (∀ p ∈ block, p ∉ m.live))
  | .request _ | .decline _ | .release _ | .timeout | .fileUpdate => .isTrue trivial

instance (t : Trace) (op : Nat × Event) : Decidable (Allowed t op) :=
  inferInstanceAs (Decidable (t.clock ≤ op.1 ∧ Fresh t.server.mem op.2))

section Addresses

variable {m : Mem} {leases : List Ptr}

theorem firstFree_some (holds : Holds m leases) {last a : Ip} {steps : Nat} {ip : Ip}
    (found : firstFree m last steps ip = .ok (some a)) :
    a ≤ last ∧ ∀ p ∈ leases, m.ip p ≠ a := by
  induction steps generalizing ip with
  | zero => cases found
  | succ steps ih =>
    rw [firstFree] at found
    by_cases inside : ip ≤ last
    · obtain ⟨r, searched, isLease⟩ := holds.findIp ip
      rw [if_pos inside, searched, ok_bind] at found
      cases r with
      | some p => exact ih found
      | none =>
        cases found
        refine ⟨inside, fun p member same => ?_⟩
        cases (isLease p).mpr ⟨member, same⟩
    · rw [if_neg inside] at found
      cases found

theorem firstFree_cases (holds : Holds m leases) (last : Ip) (steps : Nat) (ip : Ip) :
    firstFree m last steps ip = .error .endless ∨ ∃ r, firstFree m last steps ip = .ok r := by
  induction steps generalizing ip with
  | zero => exact .inl rfl
  | succ steps ih =>
    rw [firstFree]
    by_cases inside : ip ≤ last
    · obtain ⟨r, searched, -⟩ := holds.findIp ip
      rw [if_pos inside, searched, ok_bind]
      cases r with
      | some p => exact ih (ip + 1)
      | none => exact .inr ⟨some ip, rfl⟩
    · rw [if_neg inside]
      exact .inr ⟨none, rfl⟩

/-- No lease has the address zero. -/
def NoZero (m : Mem) (leases : List Ptr) : Prop := ∀ p ∈ leases, m.ip p ≠ 0

theorem firstFree_zero (holds : Holds m leases) (noZero : NoZero m leases) (last : Ip)
    (steps : Nat) : firstFree m last (steps + 1) 0 = .ok (some 0) := by
  obtain ⟨r, searched, isZero⟩ := holds.findIp 0
  rw [firstFree, if_pos (by bv_omega), searched, ok_bind]
  cases r with
  | none => rfl
  | some q =>
    obtain ⟨member, same⟩ := (isZero q).mp rfl
    exact absurd same (noZero q member)

theorem firstFree_range (holds : Holds m leases) (noZero : NoZero m leases) {last a : Ip}
    {steps : Nat} {ip : Ip} (found : firstFree m last steps ip = .ok (some a)) :
    a = 0 ∨ ip ≤ a := by
  induction steps generalizing ip with
  | zero => cases found
  | succ steps ih =>
    rw [firstFree] at found
    by_cases inside : ip ≤ last
    · obtain ⟨r, searched, isLease⟩ := holds.findIp ip
      rw [if_pos inside, searched, ok_bind] at found
      cases r with
      | none =>
        cases found
        exact .inr (BitVec.le_refl _)
      | some p =>
        rcases ih found with zero | above
        · exact .inl zero
        by_cases top : ip + 1 = 0
        · left
          cases steps with
          | zero => cases found
          | succ steps =>
            change firstFree m last (steps + 1) (ip + 1) = .ok (some a) at found
            rw [top, firstFree_zero holds noZero] at found
            cases found
            rfl
        · right
          bv_omega
    · rw [if_neg inside] at found
      cases found

/-- The leases with this address or a higher one. -/
def above (m : Mem) (leases : List Ptr) (ip : Ip) : Finset Ptr :=
  leases.toFinset.filter (fun p => ip ≤ m.ip p)

theorem firstFree_ends (holds : Holds m leases) (noZero : NoZero m leases) {last : Ip}
    {steps : Nat} {ip : Ip} (enough : (above m leases ip).card < steps) :
    ∃ r, firstFree m last steps ip = .ok r := by
  induction steps generalizing ip with
  | zero => exact absurd enough (Nat.not_lt_zero _)
  | succ steps ih =>
    rw [firstFree]
    by_cases inside : ip ≤ last
    · obtain ⟨r, searched, isLease⟩ := holds.findIp ip
      rw [if_pos inside, searched, ok_bind]
      cases r with
      | none => exact ⟨some ip, rfl⟩
      | some p =>
        obtain ⟨member, same⟩ := (isLease p).mp rfl
        have here : p ∈ above m leases ip := by
          rw [above, Finset.mem_filter, List.mem_toFinset]
          exact ⟨member, by rw [same]; exact BitVec.le_refl _⟩
        change ∃ r, firstFree m last steps (ip + 1) = .ok r
        by_cases top : ip + 1 = 0
        · have some : 0 < (above m leases ip).card := Finset.card_pos.mpr ⟨p, here⟩
          obtain ⟨n, rfl⟩ := Nat.exists_eq_add_one_of_ne_zero (show steps ≠ 0 by omega)
          exact ⟨_, top ▸ firstFree_zero holds noZero last n⟩
        · have fewer : above m leases (ip + 1) ⊂ above m leases ip := by
            rw [Finset.ssubset_iff_of_subset]
            · refine ⟨p, here, ?_⟩
              rw [above, Finset.mem_filter, same]
              rintro ⟨-, higher⟩
              bv_omega
            · intro q member
              rw [above, Finset.mem_filter] at member ⊢
              refine ⟨member.1, ?_⟩
              have higher := member.2
              bv_omega
          have smaller := Finset.card_lt_card fewer
          exact ih (by omega)
    · rw [if_neg inside]
      exact ⟨none, rfl⟩

end Addresses

section Assignment

variable {m : Mem} {leases : List Ptr} {net : Network}

/-- An address that `assign_ip` may take from the range of the network. -/
def InRange (net : Network) (ip : Ip) : Prop :=
  ip = net.rangeStart ∨ net.rangeStart ≤ ip ∧ ip ≤ net.rangeEnd

instance (net : Network) (ip : Ip) : Decidable (InRange net ip) :=
  inferInstanceAs (Decidable (ip = net.rangeStart ∨ net.rangeStart ≤ ip ∧ ip ≤ net.rangeEnd))

theorem startIp_inRange (net : Network) : InRange net (startIp net) := by
  rw [startIp]
  by_cases zero : net.lastIp = 0
  · rw [if_pos zero]
    exact .inl rfl
  · rw [if_neg zero]
    by_cases outside : net.lastIp + 1 < net.rangeStart ∨ net.rangeEnd < net.lastIp + 1
    · rw [if_pos outside]
      exact .inl rfl
    · rw [if_neg outside]
      rw [not_or, BitVec.not_lt, BitVec.not_lt] at outside
      exact .inr outside

theorem InRange.between {ip : Ip} (between : net.rangeStart ≤ ip ∧ ip ≤ startIp net ∨
    startIp net ≤ ip ∧ ip ≤ net.rangeEnd) : InRange net ip := by
  rcases startIp_inRange net with same | inside
  · rw [same] at between
    rcases between with lower | upper
    · exact .inl (BitVec.le_antisymm lower.2 lower.1)
    · exact .inr upper
  · right
    rcases between with lower | upper
    · exact ⟨lower.1, BitVec.le_trans lower.2 inside.2⟩
    · exact ⟨BitVec.le_trans inside.1 upper.1, upper.2⟩

theorem dynamicIp_free (holds : Holds m leases) {ip : Ip} (found : dynamicIp m net = .ok ip)
    (some : ip ≠ 0) : ∀ p ∈ leases, m.ip p ≠ ip := by
  rw [dynamicIp] at found
  rcases firstFree_cases holds net.rangeEnd (m.live.length + 1) (startIp net) with
    failed | ⟨r, searched⟩
  · rw [failed, error_bind] at found
    cases found
  rw [searched, ok_bind] at found
  cases r with
  | some a =>
    cases found
    exact (firstFree_some holds searched).2
  | none =>
    rcases firstFree_cases holds (startIp net) (m.live.length + 1) net.rangeStart with
      failed | ⟨r, again⟩
    · simp only [failed, error_bind] at found
      cases found
    simp only [again, ok_bind, pure_eq_ok] at found
    cases r with
    | none =>
      cases found
      exact absurd rfl some
    | some a =>
      cases found
      exact (firstFree_some holds again).2

theorem dynamicIp_cases (holds : Holds m leases) (net : Network) :
    dynamicIp m net = .error .endless ∨ ∃ ip, dynamicIp m net = .ok ip := by
  rw [dynamicIp]
  rcases firstFree_cases holds net.rangeEnd (m.live.length + 1) (startIp net) with
    failed | ⟨r, searched⟩
  · rw [failed, error_bind]
    exact .inl rfl
  rw [searched, ok_bind]
  cases r with
  | some a => exact .inr ⟨a, rfl⟩
  | none =>
    rcases firstFree_cases holds (startIp net) (m.live.length + 1) net.rangeStart with
      failed | ⟨r, again⟩
    · exact .inl (by simp only [failed, error_bind])
    · exact .inr ⟨r.getD 0, by simp only [again, ok_bind, pure_eq_ok]⟩

theorem card_above_lt (holds : Holds m leases) (ip : Ip) :
    (above m leases ip).card < m.live.length + 1 := by
  obtain ⟨_, _, _, chained⟩ := holds
  have inside : above m leases ip ⊆ m.live.toFinset := by
    intro p member
    rw [above, Finset.mem_filter, List.mem_toFinset] at member
    exact List.mem_toFinset.mpr (chained.used p member.1)
  have card := Finset.card_le_card inside
  have length := m.live.toFinset_card_le
  omega

theorem dynamicIp_spec (holds : Holds m leases) (noZero : NoZero m leases) (net : Network) :
    ∃ ip, dynamicIp m net = .ok ip ∧ (ip ≠ 0 → InRange net ip) := by
  rw [dynamicIp]
  obtain ⟨r, searched⟩ := firstFree_ends holds noZero
    (card_above_lt holds (startIp net))
  rw [searched, ok_bind]
  cases r with
  | some a =>
    refine ⟨a, rfl, fun some => .between (.inr ⟨?_, (firstFree_some holds searched).1⟩)⟩
    exact (firstFree_range holds noZero searched).resolve_left some
  | none =>
    obtain ⟨r, again⟩ := @firstFree_ends _ _ holds noZero (startIp net) _ _
      (card_above_lt holds net.rangeStart)
    simp only [again, ok_bind, pure_eq_ok]
    refine ⟨r.getD 0, rfl, fun some => ?_⟩
    cases r with
    | none => exact absurd rfl some
    | some a =>
      refine .between (.inl ⟨?_, (firstFree_some holds again).1⟩)
      exact (firstFree_range holds noZero again).resolve_left some

/-- The configuration of a network, without the address that was assigned last. -/
def Network.config (net : Network) : Network := { net with lastIp := 0 }

/-- What `assign_lease` does in the network: it finds no address, the address it finds
cannot be leased, or it is leased. -/
inductive Assigns (hosts : List Host) (m : Mem) (leases : List Ptr) (mac : Mac) (now : Nat)
    (block : Option Ptr) (net : Network) : Mem → Assigned → Prop
  | none (nothing : ∀ ip, staticIp hosts net mac = some ip → ip = 0) :
      Assigns hosts m leases mac now block net m .none
  | assertion (taken : block = Option.none ∨
      ∃ ip, staticIp hosts net mac = some ip ∧ ∃ q ∈ leases, m.ip q = ip) :
      Assigns hosts m leases mac now block net m .assertion
  | lease (p : Ptr) (ip : Ip) (malloc : block = some p) (some : ip ≠ 0)
      (free : ∀ q ∈ leases, m.ip q ≠ ip)
      (source : staticIp hosts net mac = Option.some ip ∨
        staticIp hosts net mac = Option.none ∧ (NoZero m leases → InRange net ip)) :
      Assigns hosts m leases mac now block net
        (grant (addedLease m p mac ip (now + offerLeaseTime)) p net) (.lease p)

theorem assignIn_found (holds : Holds m leases) {hosts : List Host} {mac : Mac} {now : Nat}
    {block : Option Ptr} {net' : Network} {ip : Ip} (newMac : ∀ q ∈ leases, m.mac q ≠ mac)
    (found : assignIp hosts m net mac = .ok (net', ip)) (same : net'.config = net.config)
    (source : staticIp hosts net mac = some ip ∨ staticIp hosts net mac = none ∧
      (ip ≠ 0 → ∀ q ∈ leases, m.ip q ≠ ip) ∧ (NoZero m leases → ip ≠ 0 → InRange net ip)) :
    ∃ net' m' r, assignIn hosts m mac now block net = .ok (net', m', r) ∧
      net'.config = net.config ∧ Assigns hosts m leases mac now block net m' r := by
  have granted (m : Mem) (p : Ptr) : grant m p net' = grant m p net := by
    have fields := congrArg (fun net : Network => (net.leaseDays, net.leaseHours,
      net.leaseMinutes, net.mask)) same
    simp only [Network.config, Prod.mk.injEq] at fields
    obtain ⟨days, hours, minutes, mask⟩ := fields
    rw [grant, grant, leaseSeconds, leaseSeconds, days, hours, minutes, mask]
  by_cases zero : ip = 0
  · refine ⟨net', m, .none, ?_, same, .none ?_⟩
    · simp only [assignIn, found, ok_bind, zero, if_true, pure_eq_ok]
    · intro a isStatic
      rcases source with static | ⟨dynamic, -⟩
      · rw [static] at isStatic
        cases isStatic
        exact zero
      · rw [dynamic] at isStatic
        cases isStatic
  rcases leaseAdd_spec holds mac ip (now + offerLeaseTime) now block with
    ⟨why, refused⟩ | ⟨others, -, p, rfl, added⟩
  · refine ⟨net', m, .assertion, ?_, same, .assertion ?_⟩
    · simp only [assignIn, found, ok_bind, zero, if_false, refused, pure_eq_ok]
    rcases why with ⟨q, member, taken⟩ | late | empty
    · rcases taken with sameMac | sameIp
      · exact absurd sameMac (newMac q member)
      · rcases source with static | ⟨-, free, -⟩
        · exact .inr ⟨ip, static, q, member, sameIp⟩
        · exact absurd sameIp (free zero q member)
    · exact absurd late (Nat.not_lt.mpr (Nat.le_add_right now _))
    · exact .inl empty
  · refine ⟨net', _, .lease p, ?_, same,
      .lease p ip rfl zero (fun q member => (others q member).2) ?_⟩
    · simp only [assignIn, found, ok_bind, zero, if_false, added, pure_eq_ok, granted]
    · exact source.imp_right fun dynamic => ⟨dynamic.1, fun noZero => dynamic.2.2 noZero zero⟩

theorem assignIn_spec (holds : Holds m leases) (hosts : List Host) {mac : Mac} (now : Nat)
    (block : Option Ptr) (net : Network) (newMac : ∀ q ∈ leases, m.mac q ≠ mac) :
    (¬ NoZero m leases ∧ assignIn hosts m mac now block net = .error .endless) ∨
      ∃ net' m' r, assignIn hosts m mac now block net = .ok (net', m', r) ∧
        net'.config = net.config ∧ Assigns hosts m leases mac now block net m' r := by
  cases static : staticIp hosts net mac with
  | some ip =>
    have found : assignIp hosts m net mac = .ok (net, ip) := by
      simp only [assignIp, static, pure_eq_ok]
    exact .inr (assignIn_found holds newMac found rfl (.inl static))
  | none =>
    rcases dynamicIp_cases holds net with failed | ⟨ip, searched⟩
    · refine .inl ⟨fun noZero => ?_, ?_⟩
      · obtain ⟨ip, searched, -⟩ := dynamicIp_spec holds noZero net
        rw [failed] at searched
        cases searched
      · simp only [assignIn, assignIp, static, failed, error_bind]
    · have found : assignIp hosts m net mac = .ok ({ net with lastIp := ip }, ip) := by
        simp only [assignIp, static, searched, ok_bind, pure_eq_ok]
      refine .inr (assignIn_found holds newMac found rfl (.inr ⟨static, ?_, ?_⟩))
      · exact dynamicIp_free holds searched
      · intro noZero some
        obtain ⟨a, again, inRange⟩ := dynamicIp_spec holds noZero net
        rw [searched] at again
        cases again
        exact inRange some

theorem assignFirst_spec (chosen : Network → Bool) (m : Mem)
    (body : Network → Except Fault (Network × Mem × Assigned)) (networks : List Network) :
    (networks.find? (eligible chosen) = none ∧
      assignFirst chosen m body networks = .ok (networks, m, .none)) ∨
    ∃ net, networks.find? (eligible chosen) = some net ∧
      ((∃ e, body net = .error e ∧ assignFirst chosen m body networks = .error e) ∨
        ∃ net' r, body net = .ok (net', r) ∧ ∃ networks',
          assignFirst chosen m body networks = .ok (networks', r) ∧
            (net'.config = net.config →
              networks'.map Network.config = networks.map Network.config)) := by
  induction networks with
  | nil => exact .inl ⟨rfl, rfl⟩
  | cons net rest ih =>
    rw [List.find?_cons, assignFirst]
    cases here : eligible chosen net with
    | true =>
      rw [if_pos rfl]
      refine .inr ⟨net, rfl, ?_⟩
      cases done : body net with
      | error e => exact .inl ⟨e, rfl, rfl⟩
      | ok r =>
        refine .inr ⟨r.1, r.2, rfl, r.1 :: rest, rfl, fun same => ?_⟩
        rw [List.map_cons, List.map_cons, same]
    | false =>
      rw [if_neg (by simp)]
      rcases ih with ⟨none, ended⟩ | ⟨found, first, failed | ⟨net', r, done, rest', ended, same⟩⟩
      · exact .inl ⟨none, by rw [ended]; rfl⟩
      · obtain ⟨e, wrong, ended⟩ := failed
        exact .inr ⟨found, first, .inl ⟨e, wrong, by rw [ended]; rfl⟩⟩
      · refine .inr ⟨found, first, .inr ⟨net', r, done, net :: rest', by rw [ended]; rfl, ?_⟩⟩
        intro config
        rw [List.map_cons, List.map_cons, same config]

end Assignment

/-- The two memories differ in the transaction ids and the declined marks at most. -/
def Marked (m m' : Mem) : Prop := ∃ tid declined, m' = { m with tid := tid, declined := declined }

theorem Marked.refl (m : Mem) : Marked m m := ⟨m.tid, m.declined, rfl⟩

theorem holds_grant {m : Mem} {leases : List Ptr} {p : Ptr} (holds : Holds m leases)
    (net : Network) : Holds (grant m p net) leases :=
  holds.congr rfl rfl rfl rfl rfl rfl rfl

theorem Marked.holds {m m' : Mem} {leases : List Ptr} (marked : Marked m m')
    (holds : Holds m leases) : Holds m' leases := by
  obtain ⟨_, _, rfl⟩ := marked
  exact holds.congr rfl rfl rfl rfl rfl rfl rfl

section Handlers

variable {s : Server} {leases : List Ptr}

theorem findNetwork_ok (holds : Holds s.mem leases) {p : Ptr} (member : p ∈ leases) :
    findNetwork s p = .ok (s.networks.find? fun net =>
      net.valid && s.mem.ip p &&& s.mem.mask p = net.ip && s.mem.mask p = net.mask) := by
  obtain ⟨_, _, _, chained⟩ := holds
  exact access_ok (chained.used p member) _

/-- The network that `find_network` finds for a lease. -/
def networkOf (s : Server) (p : Ptr) : Option Network :=
  s.networks.find? fun net =>
    net.valid && s.mem.ip p &&& s.mem.mask p = net.ip && s.mem.mask p = net.mask

theorem offerLease_cases (holds : Holds s.mem leases) (pkt : Pkt) {p : Ptr}
    (member : p ∈ leases) :
    (networkOf s p = none ∧ offerLease s pkt p = .ok (s, .silent)) ∨
      offerLease s pkt p = .ok (s.setTid p pkt.tid, .offer (s.mem.ip p)) := by
  rw [offerLease, findNetwork_ok holds member, ok_bind, ← networkOf]
  cases networkOf s p with
  | none => exact .inl ⟨rfl, rfl⟩
  | some net => exact .inr rfl

theorem offerLease_spec (holds : Holds s.mem leases) (pkt : Pkt) {p : Ptr}
    (member : p ∈ leases) :
    ∃ s' outcome, offerLease s pkt p = .ok (s', outcome) ∧ Marked s.mem s'.mem ∧
      s'.networks = s.networks ∧ (outcome = .silent ∨ outcome = .offer (s.mem.ip p)) := by
  rcases offerLease_cases holds pkt member with ⟨-, ended⟩ | ended
  · exact ⟨s, .silent, ended, .refl _, rfl, .inl rfl⟩
  · exact ⟨s.setTid p pkt.tid, _, ended, ⟨_, _, rfl⟩, rfl, .inr rfl⟩

/-- The networks that a DISCOVER is for. -/
def chosenFor (pkt : Pkt) (pif : Interface) (net : Network) : Bool :=
  if pkt.giaddr = 0 then pif.ip &&& pif.mask = net.ip && pif.mask = net.mask
  else pkt.giaddr &&& net.mask = net.ip

theorem assignFor_eq (hosts : List Host) (s : Server) (now : Nat) (pkt : Pkt) (pif : Interface)
    (block : Option Ptr) :
    assignFor hosts s now pkt pif block = (do
      let (networks, m, r) ← assignFirst (chosenFor pkt pif) s.mem
        (assignIn hosts s.mem pkt.chaddr now block) s.networks
      return (⟨m, networks⟩, r)) := by
  rw [assignFor]
  by_cases direct : pkt.giaddr = 0
  · have chosen : chosenFor pkt pif =
        fun net => pif.ip &&& pif.mask = net.ip && pif.mask = net.mask := by
      funext net
      rw [chosenFor, if_pos direct]
    rw [if_pos direct, chosen]
    rfl
  · have chosen : chosenFor pkt pif = fun net => decide (pkt.giaddr &&& net.mask = net.ip) := by
      funext net
      rw [chosenFor, if_neg direct]
    rw [if_neg direct, chosen]
    rfl

theorem assignFor_spec (holds : Holds s.mem leases) (hosts : List Host) (now : Nat) (pkt : Pkt)
    (pif : Interface) (block : Option Ptr) (newMac : ∀ q ∈ leases, s.mem.mac q ≠ pkt.chaddr) :
    (¬ NoZero s.mem leases ∧ assignFor hosts s now pkt pif block = .error .endless) ∨
    (s.networks.find? (eligible (chosenFor pkt pif)) = none ∧
      assignFor hosts s now pkt pif block = .ok (s, .none)) ∨
    ∃ net, s.networks.find? (eligible (chosenFor pkt pif)) = some net ∧ ∃ m' r networks',
      Assigns hosts s.mem leases pkt.chaddr now block net m' r ∧
      networks'.map Network.config = s.networks.map Network.config ∧
      assignFor hosts s now pkt pif block = .ok (⟨m', networks'⟩, r) := by
  rw [assignFor_eq]
  rcases assignFirst_spec (chosenFor pkt pif) s.mem
    (assignIn hosts s.mem pkt.chaddr now block) s.networks with
    ⟨none, ended⟩ | ⟨net, first, ⟨e, wrong, ended⟩ | ⟨net', r, done, networks', ended, same⟩⟩
  · exact .inr (.inl ⟨none, by rw [ended]; rfl⟩)
  · rcases assignIn_spec holds hosts now block net newMac with ⟨zero, endless⟩ | ⟨_, _, _, ok, -⟩
    · rw [wrong] at endless
      cases endless
      exact .inl ⟨zero, by rw [ended]; rfl⟩
    · rw [wrong] at ok
      cases ok
  · rcases assignIn_spec holds hosts now block net newMac with
      ⟨_, endless⟩ | ⟨_, m', r', ok, config, assigns⟩
    · rw [done] at endless
      cases endless
    · rw [done] at ok
      cases ok
      exact .inr (.inr ⟨net, first, m', r', networks', assigns, same config, by rw [ended]; rfl⟩)

theorem discover_new (holds : Holds s.mem leases) (hosts : List Host) (now : Nat) (pkt : Pkt)
    (pif : Interface) (block : Option Ptr) (newMac : ∀ q ∈ leases, s.mem.mac q ≠ pkt.chaddr) :
    (¬ NoZero s.mem leases ∧
      processDiscover hosts s now pkt pif block = .error .endless) ∨
    (s.networks.find? (eligible (chosenFor pkt pif)) = none ∧
      processDiscover hosts s now pkt pif block = .ok (s, .silent)) ∨
    ∃ net, s.networks.find? (eligible (chosenFor pkt pif)) = some net ∧ ∃ m' r networks',
      Assigns hosts s.mem leases pkt.chaddr now block net m' r ∧
      networks'.map Network.config = s.networks.map Network.config ∧
      processDiscover hosts s now pkt pif block =
        match r with
        | .lease p => offerLease ⟨m', networks'⟩ pkt p
        | .none => .ok (⟨m', networks'⟩, .silent)
        | .assertion => .ok (⟨m', networks'⟩, .assertion) := by
  obtain ⟨r, searched, isLease⟩ := holds.findMac pkt.chaddr
  have unknown : r = none := by
    cases r with
    | none => rfl
    | some q =>
      obtain ⟨member, same⟩ := (isLease q).mp rfl
      exact absurd same (newMac q member)
  rw [processDiscover, searched, unknown, ok_bind]
  simp only
  rcases assignFor_spec holds hosts now pkt pif block newMac with
    ⟨zero, endless⟩ | ⟨none, ended⟩ | ⟨net, first, m', r', networks', assigns, same, ended⟩
  · exact .inl ⟨zero, by rw [endless, error_bind]⟩
  · exact .inr (.inl ⟨none, by rw [ended]; rfl⟩)
  · refine .inr (.inr ⟨net, first, m', r', networks', assigns, same, ?_⟩)
    rw [ended]
    cases r' <;> rfl

theorem clientLease_spec {m : Mem} (holds : Holds m leases) (ip : Ip) (mac : Mac) :
    ∃ r, clientLease m ip mac = .ok r ∧
      ∀ p, r = some p ↔ p ∈ leases ∧ m.ip p = ip ∧ m.mac p = mac := by
  obtain ⟨lease1, byIp, isIp⟩ := holds.findIp ip
  obtain ⟨lease2, byMac, isMac⟩ := holds.findMac mac
  refine ⟨if lease1 = lease2 then lease1 else none, ?_, fun p => ?_⟩
  · simp only [clientLease, byIp, byMac, ok_bind, pure_eq_ok]
  by_cases agree : lease1 = lease2
  · rw [if_pos agree]
    constructor
    · intro found
      have inIp := (isIp p).mp found
      have inMac := (isMac p).mp (agree ▸ found)
      exact ⟨inIp.1, inIp.2, inMac.2⟩
    · rintro ⟨member, sameIp, -⟩
      exact (isIp p).mpr ⟨member, sameIp⟩
  · rw [if_neg agree]
    constructor
    · intro found
      cases found
    · rintro ⟨member, sameIp, sameMac⟩
      exact absurd (((isIp p).mpr ⟨member, sameIp⟩).trans
        ((isMac p).mpr ⟨member, sameMac⟩).symm) agree

/-- The memory after a lease was renewed and stored. -/
def stored (m : Mem) (p : Ptr) (tstamp : Nat) (lease : BitVec 32)
    (t : Table Ptr (BitVec 8)) : Mem :=
  { m with
    tstamp := update m.tstamp p tstamp
    lease := update m.lease p lease
    htTstamp := t
    file := m.file ++ [⟨m.ip p, m.mask p, m.mac p, tstamp, lease⟩] }

theorem renewAndStore_spec (holds : Holds s.mem leases) {p : Ptr} (member : p ∈ leases)
    (tstamp : Nat) (lease : BitVec 32) :
    ∃ t, renewAndStore s p tstamp lease = .ok (s.setMem (stored s.mem p tstamp lease t)) ∧
      Holds (stored s.mem p tstamp lease t) leases := by
  obtain ⟨t, renewed, holds'⟩ := holds.renew member tstamp
  refine ⟨t, ?_, ?_⟩
  · obtain ⟨_, _, _, chained⟩ := holds
    have used := chained.used p member
    simp only [renewAndStore, renewed, ok_bind, Server.setMem, Server.setLease, leaseStore, store,
      access_ok used, Function.update_self, pure_eq_ok, stored]
  · exact holds'.congr rfl rfl rfl rfl rfl rfl rfl

/-- Everything that one event can do to the memory, and what it writes to the file. -/
inductive Change (hosts : List Host) (s : Server) (leases : List Ptr) (now : Nat) :
    Mem → List Ptr → List LeaseStore → Prop
  | marked {m'} (marked : Marked s.mem m') : Change hosts s leases now m' leases []
  | leased {m'} (p : Ptr) (pkt : Pkt) (pif : Interface) (ip : Ip) (net : Network)
      (marked : Marked (grant (addedLease s.mem p pkt.chaddr ip (now + offerLeaseTime)) p net) m')
      (fresh : p ∉ s.mem.live)
      (newMac : ∀ q ∈ leases, s.mem.mac q ≠ pkt.chaddr) (free : ∀ q ∈ leases, s.mem.ip q ≠ ip)
      (used : ip ≠ 0) (first : s.networks.find? (eligible (chosenFor pkt pif)) = some net)
      (source : staticIp hosts net pkt.chaddr = some ip ∨
        staticIp hosts net pkt.chaddr = none ∧ (NoZero s.mem leases → InRange net ip)) :
      Change hosts s leases now m' (p :: leases) []
  | stored {m'} (p : Ptr) (tstamp : Nat) (lease : BitVec 32) (t : Table Ptr (BitVec 8))
      (member : p ∈ leases) (marked : Marked (DhcpServer.stored s.mem p tstamp lease t) m') :
      Change hosts s leases now m' leases
        [⟨s.mem.ip p, s.mem.mask p, s.mem.mac p, tstamp, lease⟩]
  | expired {m'} (same : Same s.mem m') :
      Change hosts s leases now m' (leases.filter (fun p => ¬ due s.mem now p)) []
  | updated (ps : List Ptr) (walk : ∀ p, p ∈ ps ↔ p ∈ leases) :
      Change hosts s leases now { s.mem with file := ps.map (store s.mem) } leases
        (ps.map (store s.mem))

end Handlers

section Events

variable {hosts : List Host} {s : Server} {leases : List Ptr} {now : Nat}

/-- The reasons for which a DISCOVER ends at the `ASSERT(0)`. -/
def Refused (hosts : List Host) (s : Server) (leases : List Ptr) : Event → Prop
  | .discover pkt pif block => block = none ∨
    (∀ q ∈ leases, s.mem.mac q ≠ pkt.chaddr) ∧
      ∃ net, s.networks.find? (eligible (chosenFor pkt pif)) = some net ∧
        ∃ ip, staticIp hosts net pkt.chaddr = some ip ∧ ∃ q ∈ leases, s.mem.ip q = ip
  | _ => False

/-- What is known after an event. -/
structure Done (hosts : List Host) (s : Server) (leases : List Ptr) (now : Nat) (event : Event)
    (s' : Server) (leases' : List Ptr) (outcome : Outcome) : Prop where
  holds : Holds s'.mem leases'
  networks : s'.networks.map Network.config = s.networks.map Network.config
  change : Change hosts s leases now s'.mem leases' (records s.mem s'.mem event)
  assertion : outcome = .assertion → Refused hosts s leases event

theorem records_marked {m m' : Mem} (same : m'.file = m.file) {event : Event}
    (other : event ≠ .fileUpdate) : records m m' event = [] := by
  cases event <;> first | exact absurd rfl other | simp [records, same]

theorem Done.of_marked (holds : Holds s.mem leases) {event : Event} {s' : Server}
    {outcome : Outcome} (marked : Marked s.mem s'.mem)
    (networks : s'.networks.map Network.config = s.networks.map Network.config)
    (other : event ≠ .fileUpdate)
    (assertion : outcome = .assertion → Refused hosts s leases event) :
    Done hosts s leases now event s' leases outcome := by
  refine ⟨marked.holds holds, networks, ?_, assertion⟩
  have same : s'.mem.file = s.mem.file := by
    obtain ⟨_, _, equal⟩ := marked
    rw [equal]
  rw [records_marked same other]
  exact .marked marked

theorem Done.of_stored {p : Ptr} {tstamp : Nat} {lease : BitVec 32} {t : Table Ptr (BitVec 8)}
    {event : Event} {s' : Server} {outcome : Outcome} (member : p ∈ leases)
    (holds : Holds (stored s.mem p tstamp lease t) leases)
    (marked : Marked (stored s.mem p tstamp lease t) s'.mem)
    (networks : s'.networks = s.networks) (other : event ≠ .fileUpdate)
    (fine : outcome ≠ .assertion) : Done hosts s leases now event s' leases outcome := by
  refine ⟨marked.holds holds, by rw [networks], ?_, fun wrong => absurd wrong fine⟩
  have written : records s.mem s'.mem event =
      [⟨s.mem.ip p, s.mem.mask p, s.mem.mac p, tstamp, lease⟩] := by
    obtain ⟨_, _, equal⟩ := marked
    cases event <;> first | exact absurd rfl other | simp [records, equal, stored]
  rw [written]
  exact .stored p tstamp lease t member marked

theorem discover_spec (holds : Holds s.mem leases) (pkt : Pkt) (pif : Interface)
    {block : Option Ptr} (fresh : ∀ p ∈ block, p ∉ s.mem.live) :
    (¬ NoZero s.mem leases ∧ processDiscover hosts s now pkt pif block = .error .endless) ∨
    ∃ s' outcome leases', processDiscover hosts s now pkt pif block = .ok (s', outcome) ∧
      Done hosts s leases now (.discover pkt pif block) s' leases' outcome := by
  have notUpdate : Event.discover pkt pif block ≠ .fileUpdate := by
    intro impossible
    cases impossible
  obtain ⟨r, searched, isLease⟩ := holds.findMac pkt.chaddr
  cases r with
  | some p =>
    obtain ⟨member, -⟩ := (isLease p).mp rfl
    have used : p ∈ s.mem.live := by
      obtain ⟨_, _, _, chained⟩ := holds
      exact chained.used p member
    right
    cases declined : s.mem.declined p with
    | true =>
      refine ⟨s, .silent, leases, ?_, .of_marked holds (.refl _) rfl notUpdate ?_⟩
      · simp only [processDiscover, searched, ok_bind, access_ok used, declined, if_true,
          pure_eq_ok]
      · intro impossible
        cases impossible
    | false =>
      obtain ⟨s', outcome, ended, marked, networks, which⟩ := offerLease_spec holds pkt member
      refine ⟨s', outcome, leases, ?_, .of_marked holds marked (by rw [networks]) notUpdate ?_⟩
      · simp only [processDiscover, searched, ok_bind, access_ok used, declined,
          Bool.false_eq_true, if_false, ended]
      · rintro rfl
        rcases which with impossible | impossible <;> cases impossible
  | none =>
    have newMac : ∀ q ∈ leases, s.mem.mac q ≠ pkt.chaddr := by
      intro q member same
      cases (isLease q).mpr ⟨member, same⟩
    rcases discover_new holds hosts now pkt pif block newMac with
      endless | ⟨-, ended⟩ | ⟨net, first, m', r, networks', assigns, same, ended⟩
    · exact .inl endless
    · refine .inr ⟨s, .silent, leases, ended, .of_marked holds (.refl _) rfl notUpdate ?_⟩
      intro impossible
      cases impossible
    · right
      cases assigns with
      | none nothing =>
        refine ⟨_, .silent, leases, ended, .of_marked holds (.refl _) same notUpdate ?_⟩
        intro impossible
        cases impossible
      | assertion taken =>
        refine ⟨_, .assertion, leases, ended, .of_marked holds (.refl _) same notUpdate ?_⟩
        intro _
        exact taken.imp_right fun static => ⟨newMac, net, first, static⟩
      | lease p ip malloc used free source =>
        subst malloc
        have holds' : Holds (grant (addedLease s.mem p pkt.chaddr ip (now + offerLeaseTime)) p net)
            (p :: leases) :=
          holds_grant (holds.added (fresh p rfl) newMac free) net
        obtain ⟨s', outcome, offered, marked, networks, which⟩ := offerLease_spec
          (s := ⟨_, networks'⟩) holds' pkt List.mem_cons_self
        refine ⟨s', outcome, p :: leases, ended.trans offered, marked.holds holds', ?_, ?_, ?_⟩
        · rw [networks]
          exact same
        · have file : s'.mem.file = s.mem.file := by
            obtain ⟨_, _, equal⟩ := marked
            rw [equal]
            rfl
          rw [records_marked file notUpdate]
          exact .leased p pkt pif ip net marked (fresh p rfl) newMac free used first source
        · rintro rfl
          rcases which with impossible | impossible <;> cases impossible

theorem used_of_member (holds : Holds s.mem leases) {p : Ptr} (member : p ∈ leases) :
    p ∈ s.mem.live := by
  obtain ⟨_, _, _, chained⟩ := holds
  exact chained.used p member

/-- The lease that a DECLINE or a REQUEST is about, and its transaction if it is an offer. -/
structure Accepts (s : Server) (pkt : Pkt) (p : Ptr) : Prop where
  given : requestedAddress pkt ≠ 0
  ip : s.mem.ip p = requestedAddress pkt
  mac : s.mem.mac p = pkt.chaddr
  tid : s.mem.tid p = 0 ∨ s.mem.tid p = pkt.tid

/-- The lease that a RELEASE is about, which is no offer. -/
structure Releases (s : Server) (pkt : Pkt) (p : Ptr) : Prop where
  given : pkt.ciaddr ≠ 0
  ip : s.mem.ip p = pkt.ciaddr
  mac : s.mem.mac p = pkt.chaddr
  tid : s.mem.tid p = 0

section

variable (holds : Holds s.mem leases)

include holds

theorem decline_cases (pkt : Pkt) :
    (∃ p ∈ leases, Accepts s pkt p ∧ processDecline s pkt = .ok (s.setDeclined p, .silent)) ∨
      ((∀ p ∈ leases, ¬ Accepts s pkt p) ∧ processDecline s pkt = .ok (s, .silent)) := by
  rw [processDecline]
  by_cases zero : requestedAddress pkt = 0
  · exact .inr ⟨fun p _ accepts => accepts.given zero, by rw [if_pos zero]; rfl⟩
  obtain ⟨r, searched, isLease⟩ := clientLease_spec holds (requestedAddress pkt) pkt.chaddr
  rw [if_neg zero, searched, ok_bind]
  cases r with
  | none =>
    refine .inr ⟨fun p member accepts => ?_, rfl⟩
    cases (isLease p).mpr ⟨member, accepts.ip, accepts.mac⟩
  | some p =>
    obtain ⟨member, ip, mac⟩ := (isLease p).mp rfl
    simp only [access_ok (used_of_member holds member), ok_bind]
    by_cases other : s.mem.tid p ≠ 0 ∧ s.mem.tid p ≠ pkt.tid
    · refine .inr ⟨fun q inside accepts => ?_, by rw [if_pos other]; rfl⟩
      cases (isLease q).mpr ⟨inside, accepts.ip, accepts.mac⟩
      exact accepts.tid.elim other.1 other.2
    · exact .inl ⟨p, member, ⟨zero, ip, mac, by tauto⟩, by rw [if_neg other]; rfl⟩

theorem request_cases (pkt : Pkt) :
    (∃ p ∈ leases, Accepts s pkt p ∧ ∃ net t, networkOf s p = some net ∧
      processRequest s now pkt = .ok ((s.setTid p 0).setMem
        (stored (s.setTid p 0).mem p (now + (leaseSeconds net).toNat) (leaseSeconds net) t),
        .ack (s.mem.ip p)) ∧
      Holds (stored (s.setTid p 0).mem p (now + (leaseSeconds net).toNat) (leaseSeconds net) t)
        leases) ∨
    (∃ p ∈ leases, Accepts s pkt p ∧ networkOf s p = none ∧
      processRequest s now pkt = .ok (s.setTid p 0, .silent)) ∨
    ((∀ p ∈ leases, ¬ Accepts s pkt p) ∧ processRequest s now pkt = .ok (s, .nack)) := by
  rw [processRequest]
  by_cases zero : requestedAddress pkt = 0
  · exact .inr (.inr ⟨fun p _ accepts => accepts.given zero, by rw [if_pos zero]; rfl⟩)
  obtain ⟨r, searched, isLease⟩ := clientLease_spec holds (requestedAddress pkt) pkt.chaddr
  rw [if_neg zero, searched, ok_bind]
  cases r with
  | none =>
    refine .inr (.inr ⟨fun p member accepts => ?_, rfl⟩)
    cases (isLease p).mpr ⟨member, accepts.ip, accepts.mac⟩
  | some p =>
    obtain ⟨member, ip, mac⟩ := (isLease p).mp rfl
    simp only [access_ok (used_of_member holds member), ok_bind]
    by_cases other : s.mem.tid p ≠ 0 ∧ s.mem.tid p ≠ pkt.tid
    · refine .inr (.inr ⟨fun q inside accepts => ?_, by rw [if_pos other]; rfl⟩)
      cases (isLease q).mpr ⟨inside, accepts.ip, accepts.mac⟩
      exact accepts.tid.elim other.1 other.2
    have accepts : Accepts s pkt p := ⟨zero, ip, mac, by tauto⟩
    have cleared : Marked s.mem (s.setTid p 0).mem := ⟨_, _, rfl⟩
    have holds' := cleared.holds holds
    have same : networkOf (s.setTid p 0) p = networkOf s p := rfl
    rw [if_neg other, findNetwork_ok holds' member, ok_bind, ← networkOf, same]
    cases found : networkOf s p with
    | none => exact .inr (.inl ⟨p, member, accepts, found, rfl⟩)
    | some net =>
      obtain ⟨t, renewed, held⟩ := renewAndStore_spec holds' member
        (now + (leaseSeconds net).toNat) (leaseSeconds net)
      exact .inl ⟨p, member, accepts, net, t, found, by simp only [renewed, ok_bind]; rfl, held⟩

theorem release_cases (pkt : Pkt) :
    (∃ p ∈ leases, Releases s pkt p ∧ ∃ t,
      processRelease s now pkt = .ok ((s.setMem (stored s.mem p (now + offerLeaseTime)
        (BitVec.ofNat 32 offerLeaseTime) t)).setDeclined p, .silent) ∧
      Holds (stored s.mem p (now + offerLeaseTime) (BitVec.ofNat 32 offerLeaseTime) t)
        leases) ∨
    processRelease s now pkt = .ok (s, .silent) := by
  rw [processRelease]
  by_cases zero : pkt.ciaddr = 0
  · exact .inr (by rw [if_pos zero]; rfl)
  obtain ⟨r, searched, isLease⟩ := clientLease_spec holds pkt.ciaddr pkt.chaddr
  rw [if_neg zero, searched, ok_bind]
  cases r with
  | none => exact .inr rfl
  | some p =>
    obtain ⟨member, ip, mac⟩ := (isLease p).mp rfl
    simp only [access_ok (used_of_member holds member), ok_bind]
    by_cases temporary : s.mem.tid p ≠ 0
    · exact .inr (by rw [if_pos temporary]; rfl)
    rw [if_neg temporary, findNetwork_ok holds member, ok_bind]
    cases s.networks.find? _ with
    | none => exact .inr rfl
    | some net =>
      obtain ⟨t, renewed, held⟩ := renewAndStore_spec holds member (now + offerLeaseTime)
        (BitVec.ofNat 32 offerLeaseTime)
      exact .inl ⟨p, member, ⟨zero, ip, mac, not_not.mp temporary⟩, t,
        by simp only [renewed, ok_bind]; rfl, held⟩

theorem decline_spec (pkt : Pkt) :
    ∃ s' outcome leases', processDecline s pkt = .ok (s', outcome) ∧
      Done hosts s leases now (.decline pkt) s' leases' outcome := by
  have done (s' : Server) (marked : Marked s.mem s'.mem) (networks : s'.networks = s.networks) :
      Done hosts s leases now (.decline pkt) s' leases .silent :=
    .of_marked holds marked (by rw [networks]) (by intro impossible; cases impossible)
      (by intro impossible; cases impossible)
  rcases decline_cases holds pkt with ⟨p, -, -, ended⟩ | ⟨-, ended⟩
  · exact ⟨_, .silent, leases, ended, done _ ⟨_, _, rfl⟩ rfl⟩
  · exact ⟨s, .silent, leases, ended, done s (.refl _) rfl⟩

theorem request_spec (pkt : Pkt) :
    ∃ s' outcome leases', processRequest s now pkt = .ok (s', outcome) ∧
      Done hosts s leases now (.request pkt) s' leases' outcome := by
  have done (s' : Server) (outcome : Outcome) (marked : Marked s.mem s'.mem)
      (networks : s'.networks = s.networks) (fine : outcome ≠ .assertion) :
      Done hosts s leases now (.request pkt) s' leases outcome :=
    .of_marked holds marked (by rw [networks]) (by intro impossible; cases impossible)
      (fun wrong => absurd wrong fine)
  rcases @request_cases s leases now holds pkt with
    ⟨p, member, -, net, t, -, ended, held⟩ | ⟨p, -, -, -, ended⟩ | ⟨-, ended⟩
  · have marked : Marked (stored s.mem p (now + (leaseSeconds net).toNat) (leaseSeconds net) t)
        (stored (s.setTid p 0).mem p (now + (leaseSeconds net).toNat) (leaseSeconds net) t) :=
      ⟨_, _, rfl⟩
    have back : Marked (stored (s.setTid p 0).mem p (now + (leaseSeconds net).toNat)
        (leaseSeconds net) t)
        (stored s.mem p (now + (leaseSeconds net).toNat) (leaseSeconds net) t) :=
      ⟨_, _, rfl⟩
    exact ⟨_, _, leases, ended, .of_stored member (back.holds held) marked rfl
      (by intro impossible; cases impossible) (by intro impossible; cases impossible)⟩
  · exact ⟨_, .silent, leases, ended, done _ .silent ⟨_, _, rfl⟩ rfl (by decide)⟩
  · exact ⟨s, .nack, leases, ended, done s .nack (.refl _) rfl (by decide)⟩

theorem release_spec (pkt : Pkt) :
    ∃ s' outcome leases', processRelease s now pkt = .ok (s', outcome) ∧
      Done hosts s leases now (.release pkt) s' leases' outcome := by
  rcases @release_cases s leases now holds pkt with ⟨p, member, -, t, ended, held⟩ | ended
  · exact ⟨_, _, leases, ended, .of_stored member held ⟨_, _, rfl⟩ rfl
      (by intro impossible; cases impossible) (by intro impossible; cases impossible)⟩
  · exact ⟨s, .silent, leases, ended, .of_marked holds (.refl _) rfl
      (by intro impossible; cases impossible) (by intro impossible; cases impossible)⟩

theorem exec_spec {event : Event} (fresh : Fresh s.mem event) :
    (¬ NoZero s.mem leases ∧ exec hosts s now event = .error .endless) ∨
    ∃ s' outcome leases', exec hosts s now event = .ok (s', outcome) ∧
      Done hosts s leases now event s' leases' outcome := by
  cases event with
  | discover pkt pif block => exact discover_spec holds pkt pif fresh
  | request pkt => exact .inr (request_spec holds pkt)
  | decline pkt => exact .inr (decline_spec holds pkt)
  | release pkt => exact .inr (release_spec holds pkt)
  | timeout =>
    obtain ⟨m', expired, same, -, holds'⟩ := leaseTimeout_spec holds now
    refine .inr ⟨s.setMem m', .silent, _, by rw [exec, expired]; rfl, holds', rfl, ?_, ?_⟩
    · have nothing : records s.mem m' .timeout = [] :=
        records_marked same.file (by intro impossible; cases impossible)
      change Change hosts s leases now m' _ (records s.mem m' .timeout)
      rw [nothing]
      exact .expired same
    · intro impossible
      cases impossible
  | fileUpdate =>
    obtain ⟨ps, walk, -, mem⟩ := leaseWalk_spec holds
    refine .inr ⟨s.setMem { s.mem with file := ps.map (store s.mem) }, .silent, leases,
      ?_, ?_, rfl, .updated ps mem, ?_⟩
    · rw [exec, leaseFileUpdate, walk]
      rfl
    · exact holds.congr rfl rfl rfl rfl rfl rfl rfl
    · intro impossible
      cases impossible

end

end Events

/-- The network 10.0.0.0/24 with the addresses from 10.0.0.10 to 10.0.0.20. -/
def demoNetwork : Network :=
  { valid := true, ip := 0x0a000000, mask := 0xffffff00, rangeStart := 0x0a00000a
    rangeEnd := 0x0a000014, leaseDays := 1, leaseHours := 0, leaseMinutes := 0, lastIp := 0 }

def demoInterface : Interface := ⟨0x0a000001, 0xffffff00⟩

def demoDiscover (mac : Mac) : Pkt := ⟨mac, 0, 0, 0, 7⟩

end DhcpServer
