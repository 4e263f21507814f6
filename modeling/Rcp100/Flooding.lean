import Mathlib.Data.List.Perm.Basic
import Rcp100.LsUpdate

/-!
# Flooding on one network

`lsa_tx_network` sends an advertisement at once while few were flooded, and queues
a copy otherwise; `flush_flooding` drains the queues. The results compare what is
handed to `lsa_tx_network` with what reaches `txpacket`.
-/

namespace Flooding

open LsaFormat LsUpdate

/-- `OSPF_FLOOD_MAX`. -/
def floodMax : Nat := 32

/-- `OSPF_MAX_PAYLOAD`. -/
def maxPayload : Nat := 65535 - 64

/-- The bytes that are copied into a packet. -/
def wire (lsa : OspfLsa) : List (BitVec 8) := lsa.memory.bytes lsa.header.length.toNat

def szlsa (lsa : OspfLsa) : Nat := lsa.header.length.toNat

/-- A Link State Update packet that is handed to `txpacket`. -/
structure TxPacket where
  dest : Dest
  lsas : List OspfLsa

/-- `lsupdateBuildPkt`: a packet is sent without its advertisement when that one is
too long. -/
def lsupdateBuildPkt (lsa : OspfLsa) : List OspfLsa :=
  if szlsa lsa > maxPayload then [] else [lsa]

/-- `lsupdateBuildMultiplePkt`: the advertisements of one packet, and the rest of
the queue. -/
def lsupdateBuildMultiplePkt (size : Nat) : List OspfLsa → List OspfLsa × List OspfLsa
  | [] => ([], [])
  | lsa :: rest =>
    if size + szlsa lsa > maxPayload then ([], lsa :: rest)
    else
      let r := lsupdateBuildMultiplePkt (size + szlsa lsa) rest
      (lsa :: r.1, r.2)

/-- The copy in a queue or in a retransmission list: the bytes with a cleared `h`. -/
def copyLsa (lsa : OspfLsa) : OspfLsa :=
  { lsa with
    selfOriginated := false, flood := 0, oldCnt := 0, oldSelfOriginatedSeq := 0, netIp := 0 }

/-- The guards of `lsa_tx_network`. -/
def passes (net : Network) (lsa : OspfLsa) : Bool :=
  (net.state = .drOther || net.state = .backup || net.state = .dr) &&
    (match net.neighbor with
      | [] => false
      | [nb] => nb.state = .full
      | _ => true) &&
    !(net.designatedRouter = 0 && net.backupRouter = 0) &&
    !(net.state = .backup && lsa.netIp = net.ip)

/-- The group an advertisement is sent to. -/
def group (state : NetState) : Dest := if state = .drOther then .allDRouters else .allSpfRouters

/-- The neighbor is flooded to: adjacent, and on a network where this router is
neither DR nor backup, one of these two. -/
def floodsTo (net : Network) (nb : Neighbor) : Bool :=
  NState.exStart.code ≤ nb.state.code &&
    !(net.state = .drOther && nb.ip ≠ net.designatedRouter && nb.ip ≠ net.backupRouter)

/-- The copy replaces an older one in the retransmission list. -/
def rxmtAdd (net : Network) (lsa : OspfLsa) (nb : Neighbor) : Neighbor :=
  if floodsTo net nb then
    let cleared :=
      if (lsaListFind nb.rxmtList lsa.key).isSome then lsaListRemove nb.rxmtList lsa.key
      else nb.rxmtList
    { nb with
      rxmtList := lsaListAdd cleared (copyLsa lsa)
      rxmtListTimer := if nb.rxmtListTimer ≤ 0 then net.rxtmInterval else nb.rxmtListTimer }
  else nb

/-- The part of `lsa_tx_network` that sends or queues. -/
def sendOrQueue (flooded : Nat) (net : Network) (lsa : OspfLsa) : Network × List TxPacket :=
  let net := { net with floodingCnt := net.floodingCnt + 1 }
  if flooded + 1 < floodMax then (net, [⟨group net.state, lsupdateBuildPkt lsa⟩])
  else if net.state = .drOther then
    ({ net with floodingAlldrouters := copyLsa lsa :: net.floodingAlldrouters }, [])
  else ({ net with floodingAllspfrouters := copyLsa lsa :: net.floodingAllspfrouters }, [])

/-- `flooded` is the static `lsa_flooded`; its new value is returned too. -/
def lsaTxNetwork (flooded : Nat) (net : Network) (lsa : OspfLsa) :
    Nat × Network × List TxPacket :=
  if passes net lsa then
    let r := sendOrQueue flooded net lsa
    (flooded + 1, { r.1 with neighbor := r.1.neighbor.map (rxmtAdd r.1 lsa) }, r.2)
  else (flooded, net, [])

/-- The loop that sends a queue in packets. It does not end when the first
advertisement of the rest is too long for a packet, and then no fuel is enough. -/
def drain (dest : Dest) : Nat → List OspfLsa → Option (List TxPacket)
  | _, [] => some []
  | 0, _ :: _ => none
  | fuel+1, lsa :: rest =>
    let r := lsupdateBuildMultiplePkt 0 (lsa :: rest)
    (drain dest fuel r.2).map (⟨dest, r.1⟩ :: ·)

/-- A branch of `flush_flooding`: one queue is tested, one is sent. -/
def drainIf (tested queue : List OspfLsa) (dest : Dest) (fuel : Nat) : Option (List TxPacket) :=
  if tested ≠ [] then drain dest fuel queue else some []

/-- `flush_flooding` on one network. The first branch tests one queue and sends the
other. -/
def flushFlooding (fuel : Nat) (net : Network) : Option (Network × List TxPacket) := do
  let first ← drainIf net.floodingAlldrouters net.floodingAllspfrouters .allDRouters fuel
  let second ← drainIf net.floodingAllspfrouters net.floodingAllspfrouters .allSpfRouters fuel
  return ({ net with floodingAlldrouters := [], floodingAllspfrouters := [], floodingCnt := 0 },
    first ++ second)

/-- A call of `lsa_tx_network` with the counter and the state of the network at
that time. -/
structure TxCall where
  flooded : Nat
  state : NetState
  designatedRouter : BitVec 32
  backupRouter : BitVec 32
  neighbor : List Neighbor
  lsa : OspfLsa

/-- The network as the call finds it; the queues are those of the calls before. -/
def TxCall.enter (c : TxCall) (net : Network) : Network :=
  { net with
    state := c.state
    designatedRouter := c.designatedRouter
    backupRouter := c.backupRouter
    neighbor := c.neighbor }

/-- The network after the calls, and the packets sent by them. -/
def runCalls : Network → List TxCall → Network × List TxPacket
  | net, [] => (net, [])
  | net, c :: calls =>
    let r := lsaTxNetwork c.flooded (c.enter net) c.lsa
    let s := runCalls r.2.1 calls
    (s.1, r.2.2 ++ s.2)

/-- Every advertisement of the packets, with its destination. -/
def sent (pkts : List TxPacket) : List (Dest × List (BitVec 8)) :=
  pkts.flatMap (fun p => p.lsas.map (fun lsa => (p.dest, wire lsa)))

/-- Every advertisement handed over, with the destination it is due to. -/
def handed (calls : List TxCall) : List (Dest × List (BitVec 8)) :=
  calls.map (fun c => (group c.state, wire c.lsa))

/-- The calls that queue their advertisement. -/
def queued (drOther : Bool) (calls : List TxCall) : List (List (BitVec 8)) :=
  (calls.filter (fun c => !decide (c.flooded + 1 < floodMax) &&
    (decide (c.state = .drOther) == drOther))).map (fun c => wire c.lsa)

/-- The flush ends with both queues empty, and every advertisement was sent exactly
once, to its destination. -/
def FloodsAll (net : Network) (calls : List TxCall) : Prop :=
  ∃ fuel net' pkts, flushFlooding fuel (runCalls net calls).1 = some (net', pkts) ∧
    net'.floodingAlldrouters = [] ∧ net'.floodingAllspfrouters = [] ∧
    (sent ((runCalls net calls).2 ++ pkts)).Perm (handed calls)

theorem wire_copyLsa (lsa : OspfLsa) : wire (copyLsa lsa) = wire lsa := by
  unfold wire
  rw [OspfLsa.header_congr (show (copyLsa lsa).bytes = lsa.bytes from rfl)]
  rfl

theorem szlsa_eq (lsa : OspfLsa) : szlsa lsa = (wire lsa).length := by
  simp [wire, szlsa, Memory.length_bytes]

theorem sent_append (p q : List TxPacket) : sent (p ++ q) = sent p ++ sent q :=
  List.flatMap_append

theorem lsupdateBuildMultiplePkt_append (size : Nat) (queue : List OspfLsa) :
    (lsupdateBuildMultiplePkt size queue).1 ++ (lsupdateBuildMultiplePkt size queue).2 = queue := by
  induction queue generalizing size with
  | nil => rfl
  | cons lsa rest ih =>
    rw [lsupdateBuildMultiplePkt]
    split
    · rfl
    · exact congrArg (lsa :: ·) (ih (size + szlsa lsa))

theorem lsupdateBuildMultiplePkt_fits (size : Nat) (queue : List OspfLsa) :
    ∀ lsa ∈ (lsupdateBuildMultiplePkt size queue).1, szlsa lsa ≤ maxPayload := by
  induction queue generalizing size with
  | nil => exact fun lsa h => by cases h
  | cons x rest ih =>
    rw [lsupdateBuildMultiplePkt]
    split
    · exact fun lsa h => by cases h
    · rintro lsa h
      rcases List.mem_cons.mp h with rfl | later
      · omega
      · exact ih _ lsa later

variable {queue : List OspfLsa} {fuel : Nat} {dest : Dest} {pkts : List TxPacket}

theorem drain_ends (dest : Dest)
    (fits : ∀ lsa ∈ queue, szlsa lsa ≤ maxPayload) (enough : queue.length ≤ fuel) :
    ∃ pkts, drain dest fuel queue = some pkts := by
  induction fuel generalizing queue with
  | zero =>
    cases List.eq_nil_of_length_eq_zero (Nat.le_zero.mp enough)
    exact ⟨[], rfl⟩
  | succ fuel ih =>
    cases queue with
    | nil => exact ⟨[], rfl⟩
    | cons x rest =>
      have split := lsupdateBuildMultiplePkt_append 0 (x :: rest)
      have first : ¬ 0 + szlsa x > maxPayload := by
        have := fits x List.mem_cons_self
        omega
      have taken : (lsupdateBuildMultiplePkt 0 (x :: rest)).2.length ≤ fuel := by
        have whole := congrArg List.length split
        rw [lsupdateBuildMultiplePkt, if_neg first] at whole ⊢
        simp only [List.length_append, List.length_cons] at whole enough ⊢
        omega
      have later : ∀ lsa ∈ (lsupdateBuildMultiplePkt 0 (x :: rest)).2, szlsa lsa ≤ maxPayload := by
        intro lsa h
        apply fits
        rw [← split]
        exact List.mem_append_right _ h
      obtain ⟨pkts, hdrain⟩ := ih later taken
      exact ⟨⟨dest, (lsupdateBuildMultiplePkt 0 (x :: rest)).1⟩ :: pkts, by simp [drain, hdrain]⟩

theorem drain_mono {more : Nat} (le : fuel ≤ more)
    (ended : drain dest fuel queue = some pkts) :
    drain dest more queue = some pkts := by
  induction fuel generalizing more queue pkts with
  | zero =>
    cases queue with
    | nil =>
      cases ended
      cases more with
      | zero => rfl
      | succ more => rfl
    | cons lsa rest => cases ended
  | succ fuel ih =>
    cases more with
    | zero => omega
    | succ more =>
      cases queue with
      | nil => exact ended
      | cons lsa rest =>
        simp only [drain, Option.map_eq_some_iff] at ended ⊢
        obtain ⟨later, hdrain, rfl⟩ := ended
        exact ⟨later, ih (by omega) hdrain, rfl⟩

theorem drain_sent (ended : drain dest fuel queue = some pkts) :
    sent pkts = queue.map (fun lsa => (dest, wire lsa)) := by
  induction fuel generalizing queue pkts with
  | zero =>
    cases queue with
    | nil =>
      cases ended
      rfl
    | cons lsa rest => cases ended
  | succ fuel ih =>
    cases queue with
    | nil =>
      cases ended
      rfl
    | cons lsa rest =>
      simp only [drain, Option.map_eq_some_iff] at ended
      obtain ⟨later, hdrain, rfl⟩ := ended
      have one : sent (⟨dest, (lsupdateBuildMultiplePkt 0 (lsa :: rest)).1⟩ :: later) =
          (lsupdateBuildMultiplePkt 0 (lsa :: rest)).1.map (fun l => (dest, wire l)) ++
            sent later := rfl
      rw [one, ih hdrain, ← List.map_append, lsupdateBuildMultiplePkt_append]

theorem drain_fits (ended : drain dest fuel queue = some pkts) :
    ∀ x ∈ sent pkts, x.2.length ≤ maxPayload := by
  induction fuel generalizing queue pkts with
  | zero =>
    cases queue with
    | nil =>
      cases ended
      exact fun x h => by cases h
    | cons lsa rest => cases ended
  | succ fuel ih =>
    cases queue with
    | nil =>
      cases ended
      exact fun x h => by cases h
    | cons lsa rest =>
      simp only [drain, Option.map_eq_some_iff] at ended
      obtain ⟨later, hdrain, rfl⟩ := ended
      rintro x h
      rcases List.mem_append.mp h with now | next
      · obtain ⟨l, hl, rfl⟩ := List.mem_map.mp now
        simpa only [szlsa_eq] using lsupdateBuildMultiplePkt_fits 0 _ l hl
      · exact ih hdrain x next

/-- The calls that send their advertisement at once. -/
def immediate (calls : List TxCall) : List (Dest × List (BitVec 8)) :=
  (calls.filter (fun c => decide (c.flooded + 1 < floodMax))).map
    (fun c => (group c.state, wire c.lsa))

theorem queued_cons (drOther : Bool) (c : TxCall) (calls : List TxCall) :
    queued drOther (c :: calls) =
      if ¬ c.flooded + 1 < floodMax ∧ decide (c.state = .drOther) = drOther then
        wire c.lsa :: queued drOther calls else queued drOther calls := by
  by_cases now : c.flooded + 1 < floodMax
  · simp [queued, now]
  · by_cases here : decide (c.state = .drOther) = drOther
    · simp [queued, now, here]
    · simp [queued, now, here]

theorem handed_perm (calls : List TxCall) :
    (handed calls).Perm (immediate calls ++
      ((queued true calls).map (Dest.allDRouters, ·) ++
        (queued false calls).map (Dest.allSpfRouters, ·))) := by
  induction calls with
  | nil => exact List.Perm.refl _
  | cons c calls ih =>
    have step : handed (c :: calls) = (group c.state, wire c.lsa) :: handed calls := rfl
    rw [step]
    by_cases now : c.flooded + 1 < floodMax
    · have himm : immediate (c :: calls) = (group c.state, wire c.lsa) :: immediate calls := by
        simp [immediate, now]
      rw [himm, queued_cons, queued_cons, if_neg (fun h => h.1 now), if_neg (fun h => h.1 now)]
      exact ih.cons _
    · have himm : immediate (c :: calls) = immediate calls := by
        simp [immediate, now]
      rw [himm, queued_cons, queued_cons]
      by_cases other : c.state = .drOther
      · rw [if_pos ⟨now, by simp [other]⟩, if_neg (by simp [other]), group, if_pos other]
        exact (ih.cons _).trans List.perm_middle.symm
      · rw [if_neg (by simp [other]), if_pos ⟨now, by simp [other]⟩, group, if_neg other]
        rw [← List.append_assoc] at ih ⊢
        exact (ih.cons _).trans List.perm_middle.symm

section Calls

variable {net : Network}

theorem lsaTxNetwork_queues (flooded : Nat) {lsa : OspfLsa} (pass : passes net lsa = true) :
    (lsaTxNetwork flooded net lsa).2.1.ip = net.ip ∧
      (lsaTxNetwork flooded net lsa).2.1.floodingAlldrouters =
        (if ¬ flooded + 1 < floodMax ∧ net.state = .drOther then
          copyLsa lsa :: net.floodingAlldrouters else net.floodingAlldrouters) ∧
      (lsaTxNetwork flooded net lsa).2.1.floodingAllspfrouters =
        (if ¬ flooded + 1 < floodMax ∧ net.state ≠ .drOther then
          copyLsa lsa :: net.floodingAllspfrouters else net.floodingAllspfrouters) ∧
      (lsaTxNetwork flooded net lsa).2.2 =
        (if flooded + 1 < floodMax then [⟨group net.state, lsupdateBuildPkt lsa⟩] else []) := by
  simp only [lsaTxNetwork, pass, if_true, sendOrQueue]
  by_cases now : flooded + 1 < floodMax
  · simp [now]
  · by_cases other : net.state = .drOther
    · simp [now, other]
    · simp [now, other]

theorem passes_enter {net' : Network} (same : net'.ip = net.ip) (c : TxCall) :
    passes (c.enter net') c.lsa = passes (c.enter net) c.lsa := by
  simp only [passes, TxCall.enter, same]
  rfl

variable {calls : List TxCall}

section

variable (pass : ∀ c ∈ calls, passes (c.enter net) c.lsa = true)

include pass

theorem runCalls_queues :
    (runCalls net calls).1.floodingAlldrouters.map wire =
        (queued true calls).reverse ++ net.floodingAlldrouters.map wire ∧
      (runCalls net calls).1.floodingAllspfrouters.map wire =
        (queued false calls).reverse ++ net.floodingAllspfrouters.map wire := by
  induction calls generalizing net with
  | nil => exact ⟨rfl, rfl⟩
  | cons c calls ih =>
    obtain ⟨hip, hd, hspf, _⟩ := lsaTxNetwork_queues c.flooded (pass c List.mem_cons_self)
    have state : (c.enter net).state = c.state := rfl
    rw [state] at hd hspf
    have later : ∀ x ∈ calls, passes (x.enter (lsaTxNetwork c.flooded (c.enter net) c.lsa).2.1)
        x.lsa = true := by
      intro x hx
      rw [passes_enter hip]
      exact pass x (List.mem_cons_of_mem _ hx)
    obtain ⟨ihd, ihspf⟩ := ih later
    constructor
    · refine ihd.trans ?_
      rw [hd, queued_cons]
      by_cases add : ¬ c.flooded + 1 < floodMax ∧ c.state = .drOther
      · rw [if_pos add, if_pos ⟨add.1, by simp [add.2]⟩]
        simp [TxCall.enter, wire_copyLsa]
      · rw [if_neg add, if_neg (by simpa using add)]
        rfl
    · refine ihspf.trans ?_
      rw [hspf, queued_cons]
      by_cases add : ¬ c.flooded + 1 < floodMax ∧ c.state ≠ .drOther
      · rw [if_pos add, if_pos ⟨add.1, by simp [add.2]⟩]
        simp [TxCall.enter, wire_copyLsa]
      · rw [if_neg add, if_neg (by simpa using add)]
        rfl

theorem runCalls_sent (fits : ∀ c ∈ calls, szlsa c.lsa ≤ maxPayload) :
    sent (runCalls net calls).2 = immediate calls := by
  induction calls generalizing net with
  | nil => rfl
  | cons c calls ih =>
    obtain ⟨hip, _, _, hsent⟩ := lsaTxNetwork_queues c.flooded (pass c List.mem_cons_self)
    have rest := @ih (lsaTxNetwork c.flooded (c.enter net) c.lsa).2.1
      (fun x hx => (passes_enter hip x).trans (pass x (List.mem_cons_of_mem _ hx)))
      (fun x hx => fits x (List.mem_cons_of_mem _ hx))
    have whole : sent (runCalls net (c :: calls)).2 =
        sent (lsaTxNetwork c.flooded (c.enter net) c.lsa).2.2 ++ immediate calls := by
      rw [← rest, ← sent_append]
      rfl
    have short : ¬ szlsa c.lsa > maxPayload := Nat.not_lt.mpr (fits c List.mem_cons_self)
    rw [whole, hsent]
    by_cases now : c.flooded + 1 < floodMax
    · simp [now, sent, lsupdateBuildPkt, short, immediate, TxCall.enter]
    · simp [now, sent, immediate]

theorem runCalls_fits :
    ∀ x ∈ sent (runCalls net calls).2, x.2.length ≤ maxPayload := by
  induction calls generalizing net with
  | nil =>
    rintro x h
    cases h
  | cons c calls ih =>
    obtain ⟨hip, _, _, hsent⟩ := lsaTxNetwork_queues c.flooded (pass c List.mem_cons_self)
    have rest := @ih (lsaTxNetwork c.flooded (c.enter net) c.lsa).2.1
      (fun x hx => (passes_enter hip x).trans (pass x (List.mem_cons_of_mem _ hx)))
    rintro x h
    have split : x ∈ sent (lsaTxNetwork c.flooded (c.enter net) c.lsa).2.2 ∨
        x ∈ sent (runCalls (lsaTxNetwork c.flooded (c.enter net) c.lsa).2.1 calls).2 := by
      rw [← List.mem_append, ← sent_append]
      exact h
    rcases split with first | later
    · rw [hsent] at first
      by_cases now : c.flooded + 1 < floodMax
      · by_cases long : szlsa c.lsa > maxPayload
        · simp [now, sent, lsupdateBuildPkt, long] at first
        · simp [now, sent, lsupdateBuildPkt, long] at first
          rw [first, ← szlsa_eq]
          exact Nat.le_of_not_lt long
      · simp [now, sent] at first
    · exact rest x later

end

end Calls

section Flush

variable {net : Network} {fuel : Nat}

variable {tested queue : List OspfLsa} {dest : Dest} {pkts : List TxPacket} {after : Network}

theorem drainIf_fits (ended : drainIf tested queue dest fuel = some pkts) :
    ∀ x ∈ sent pkts, x.2.length ≤ maxPayload := by
  rw [drainIf] at ended
  split at ended
  · exact drain_fits ended
  · cases ended
    exact fun x h => by cases h

theorem drainIf_ends (tested : List OspfLsa) (dest : Dest)
    (fits : ∀ lsa ∈ queue, szlsa lsa ≤ maxPayload) (enough : queue.length ≤ fuel) :
    ∃ pkts, drainIf tested queue dest fuel = some pkts := by
  rw [drainIf]
  split
  · exact drain_ends dest fits enough
  · exact ⟨[], rfl⟩

theorem drainIf_sent (ended : drainIf tested queue dest fuel = some pkts) :
    sent pkts = if tested ≠ [] then queue.map (fun lsa => (dest, wire lsa)) else [] := by
  rw [drainIf] at ended
  split at ended
  · rw [if_pos ‹_›]
    exact drain_sent ended
  · rw [if_neg ‹_›]
    cases ended
    rfl

theorem flushFlooding_cases (ended : flushFlooding fuel net = some (after, pkts)) :
    ∃ first second,
      drainIf net.floodingAlldrouters net.floodingAllspfrouters .allDRouters fuel = some first ∧
      drainIf net.floodingAllspfrouters net.floodingAllspfrouters .allSpfRouters fuel =
        some second ∧
      pkts = first ++ second := by
  simp only [flushFlooding, Option.bind_eq_bind, Option.bind_eq_some_iff, Option.pure_def,
    Option.some.injEq, Prod.mk.injEq] at ended
  obtain ⟨first, hfirst, second, hsecond, _, rfl⟩ := ended
  exact ⟨first, second, hfirst, hsecond, rfl⟩

theorem flushFlooding_after (ended : flushFlooding fuel net = some (after, pkts)) :
    after = { net with
      floodingAlldrouters := [], floodingAllspfrouters := [], floodingCnt := 0 } := by
  simp only [flushFlooding, Option.bind_eq_bind, Option.bind_eq_some_iff, Option.pure_def,
    Option.some.injEq, Prod.mk.injEq] at ended
  obtain ⟨_, _, _, _, rfl, _⟩ := ended
  rfl

theorem drainIf_mono {more : Nat} (le : fuel ≤ more)
    (ended : drainIf tested queue dest fuel = some pkts) :
    drainIf tested queue dest more = some pkts := by
  rw [drainIf] at ended ⊢
  split at ended
  · rw [if_pos ‹_›]
    exact drain_mono le ended
  · rw [if_neg ‹_›]
    exact ended

theorem flushFlooding_mono {more : Nat} (le : fuel ≤ more)
    (ended : flushFlooding fuel net = some (after, pkts)) :
    flushFlooding more net = some (after, pkts) := by
  obtain ⟨first, second, hfirst, hsecond, rfl⟩ := flushFlooding_cases ended
  rw [flushFlooding_after ended]
  simp only [flushFlooding, drainIf_mono le hfirst, drainIf_mono le hsecond]
  rfl

theorem flushFlooding_fits (ended : flushFlooding fuel net = some (after, pkts)) :
    ∀ x ∈ sent pkts, x.2.length ≤ maxPayload := by
  obtain ⟨first, second, hfirst, hsecond, rfl⟩ := flushFlooding_cases ended
  rintro x h
  rw [sent_append] at h
  rcases List.mem_append.mp h with one | two
  · exact drainIf_fits hfirst x one
  · exact drainIf_fits hsecond x two

theorem flushFlooding_ends (fits : ∀ lsa ∈ net.floodingAllspfrouters, szlsa lsa ≤ maxPayload)
    (enough : net.floodingAllspfrouters.length ≤ fuel) :
    ∃ after pkts, flushFlooding fuel net = some (after, pkts) ∧
      after.floodingAlldrouters = [] ∧ after.floodingAllspfrouters = [] := by
  obtain ⟨first, hfirst⟩ := drainIf_ends net.floodingAlldrouters .allDRouters fits enough
  obtain ⟨second, hsecond⟩ := drainIf_ends net.floodingAllspfrouters .allSpfRouters fits enough
  exact ⟨_, first ++ second, by simp only [flushFlooding, hfirst, hsecond]; rfl, rfl, rfl⟩

theorem flushFlooding_sent (ended : flushFlooding fuel net = some (after, pkts)) :
    sent pkts =
      (if net.floodingAlldrouters ≠ [] then
        (net.floodingAllspfrouters.map wire).map (Dest.allDRouters, ·) else []) ++
      (net.floodingAllspfrouters.map wire).map (Dest.allSpfRouters, ·) := by
  obtain ⟨first, second, hfirst, hsecond, rfl⟩ := flushFlooding_cases ended
  rw [sent_append, drainIf_sent hfirst, drainIf_sent hsecond, List.map_map, List.map_map]
  by_cases none : net.floodingAllspfrouters = []
  · simp [none]
  · rw [if_pos none]
    rfl

end Flush

section FloodsAll

variable {net : Network} {calls : List TxCall}

/-- Each pair of queues is sent and due to its own group, so the groups can be compared
one by one. -/
theorem perm_groups {a b c d : List (List (BitVec 8))}
    (perm : (a.map (Dest.allDRouters, ·) ++ b.map (Dest.allSpfRouters, ·)).Perm
      (c.map (Dest.allDRouters, ·) ++ d.map (Dest.allSpfRouters, ·))) : a.Perm c := by
  have part : ∀ x y : List (List (BitVec 8)),
      (x.map (Dest.allDRouters, ·) ++ y.map (Dest.allSpfRouters, ·)).filterMap
        (fun p => if p.1 = .allDRouters then some p.2 else none) = x := by
    intro x y
    simp [List.filterMap_append, List.filterMap_map]
  simpa only [part] using perm.filterMap (fun p => if p.1 = .allDRouters then some p.2 else none)

theorem floodsAll_fits (pass : ∀ c ∈ calls, passes (c.enter net) c.lsa = true)
    (all : FloodsAll net calls) : ∀ c ∈ calls, szlsa c.lsa ≤ maxPayload := by
  obtain ⟨fuel, after, pkts, ended, _, _, perm⟩ := all
  rintro c hc
  have due : (group c.state, wire c.lsa) ∈ sent ((runCalls net calls).2 ++ pkts) :=
    perm.mem_iff.mpr (List.mem_map.mpr ⟨c, hc, rfl⟩)
  rw [sent_append] at due
  rw [szlsa_eq]
  rcases List.mem_append.mp due with now | flushed
  · exact runCalls_fits pass _ now
  · exact flushFlooding_fits ended _ flushed

theorem floodsAll_iff (allEmpty : net.floodingAlldrouters = [])
    (spfEmpty : net.floodingAllspfrouters = [])
    (pass : ∀ c ∈ calls, passes (c.enter net) c.lsa = true) :
    FloodsAll net calls ↔
      (∀ c ∈ calls, szlsa c.lsa ≤ maxPayload) ∧
        (queued true calls = [] ∨ (queued true calls).Perm (queued false calls)) := by
  obtain ⟨hd, hspf⟩ := runCalls_queues pass
  rw [allEmpty, List.map_nil, List.append_nil] at hd
  rw [spfEmpty, List.map_nil, List.append_nil] at hspf
  have tested : (runCalls net calls).1.floodingAlldrouters = [] ↔ queued true calls = [] := by
    rw [← List.map_eq_nil_iff (f := wire), hd, List.reverse_eq_nil_iff]
  constructor
  · intro all
    have fits := floodsAll_fits pass all
    refine ⟨fits, ?_⟩
    obtain ⟨fuel, after, pkts, ended, _, _, perm⟩ := all
    rw [sent_append, runCalls_sent pass fits, flushFlooding_sent ended] at perm
    have rest := (List.perm_append_left_iff _).mp (perm.trans (handed_perm calls))
    by_cases none : queued true calls = []
    · exact .inl none
    · rw [if_pos (fun h => none (tested.mp h)), hspf] at rest
      exact .inr ((perm_groups rest).symm.trans (List.reverse_perm _))
  · rintro ⟨fits, same⟩
    have short : ∀ lsa ∈ (runCalls net calls).1.floodingAllspfrouters, szlsa lsa ≤ maxPayload := by
      intro lsa h
      have : wire lsa ∈ queued false calls := by
        rw [← List.mem_reverse, ← hspf]
        exact List.mem_map_of_mem h
      obtain ⟨c, hc, same⟩ := List.mem_map.mp this
      rw [szlsa_eq, ← same, ← szlsa_eq]
      exact fits c (List.mem_of_mem_filter hc)
    obtain ⟨after, pkts, ended, h1, h2⟩ := flushFlooding_ends short (Nat.le_refl _)
    refine ⟨_, after, pkts, ended, h1, h2, ?_⟩
    rw [sent_append, runCalls_sent pass fits, flushFlooding_sent ended]
    refine List.Perm.trans ?_ (handed_perm calls).symm
    refine List.Perm.append_left _ ?_
    rw [hspf]
    refine List.Perm.append ?_ ((List.reverse_perm _).map _)
    by_cases none : queued true calls = []
    · rw [if_neg (fun h => h (tested.mpr none)), none]
      exact List.Perm.refl _
    · rw [if_pos (fun h => none (tested.mp h))]
      exact ((List.reverse_perm _).trans (same.resolve_left none).symm).map _

end FloodsAll

/-- The summary 10.1.0.0/16 of the router 1.1.1.1. -/
def summary : OspfLsa :=
  ⟨[0, 1, 0, 3, 10, 1, 0, 0, 1, 1, 1, 1, 0x80, 0, 0, 1, 0x0f, 0x3c, 0, 28,
    255, 255, 0, 0, 0, 0, 0, 5], true, 1, 0, 0, 0⟩

/-- A call on the network `designated` in the given state. -/
def callOf (flooded : Nat) (state : NetState) : TxCall :=
  ⟨flooded, state, 0x0a000002, 0, designated.neighbor, summary⟩

theorem floodsAll_designated :
    designated.floodingAlldrouters = [] ∧ designated.floodingAllspfrouters = [] ∧
      (∀ c ∈ [callOf 3 .drOther, callOf 31 .dr], passes (c.enter designated) c.lsa = true) ∧
      FloodsAll designated [callOf 3 .drOther, callOf 31 .dr] := by
  have pass : ∀ c ∈ [callOf 3 .drOther, callOf 31 .dr],
      passes (c.enter designated) c.lsa = true := by decide
  have fits : ∀ c ∈ [callOf 3 .drOther, callOf 31 .dr], szlsa c.lsa ≤ maxPayload := by decide
  exact ⟨rfl, rfl, pass, (floodsAll_iff rfl rfl pass).mpr ⟨fits, .inl rfl⟩⟩

/-- The one advertisement is queued for AllDRouters, and the flush frees it unsent. -/
theorem drOther_queue_lost :
    designated.floodingAlldrouters = [] ∧ designated.floodingAllspfrouters = [] ∧
      passes ((callOf 31 .drOther).enter designated) summary = true ∧
      ¬ FloodsAll designated [callOf 31 .drOther] := by
  refine ⟨rfl, rfl, rfl, ?_⟩
  rintro ⟨fuel, after, pkts, ended, _, _, perm⟩
  have count := perm.length_eq
  rw [sent_append, flushFlooding_sent ended] at count
  have one : (handed [callOf 31 .drOther]).length = 1 := rfl
  rw [one] at count
  revert count
  decide

end Flooding
