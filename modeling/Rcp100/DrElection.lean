import Mathlib.Data.Prod.Lex
import Rcp100.LsUpdate
import Rcp100.RankedElection

/-!
# Designated Router election

`drbdrElection` elects the Designated Router of a network and its backup. The router
itself takes part as a temporary neighbor, and when its own role changed the election
is repeated on the same list of neighbors. The steps that follow an election (the
network advertisement, the event AdjOK) are left out.
-/

namespace DrElection

open LsUpdate RankedElection

/-- What the election reads and writes of `OspfNeighbor`. -/
structure OspfNeighbor where
  ip : BitVec 32
  routerId : BitVec 32
  state : NState
  priority : BitVec 8
  designatedRouter : BitVec 32
  backupRouter : BitVec 32
  drElectionSum : BitVec 64 := 0
  bdrElectionSum : BitVec 64 := 0
  deriving DecidableEq, Repr

/-- What the election reads and writes of `OspfNetwork`, and the router identifier of
the configuration. -/
structure OspfNetwork where
  ip : BitVec 32
  routerPriority : BitVec 8
  designatedRouter : BitVec 32
  backupRouter : BitVec 32
  neighbor : List OspfNeighbor
  ospfRouterId : BitVec 32
  deriving DecidableEq, Repr

/-- A loop over the neighbors that keeps the one with the largest sum. -/
def largest (counts : OspfNeighbor → Bool) (sum : OspfNeighbor → BitVec 64)
    (list : List OspfNeighbor) : Option OspfNeighbor :=
  list.foldl (fun best nb =>
    if counts nb then
      match best with
      | none => some nb
      | some b => if sum b < sum nb then some nb else best
    else best) none

/-- Routers that declare themselves Designated Router lose their sum for the backup. -/
def discard (nb : OspfNeighbor) : OspfNeighbor :=
  if nb.bdrElectionSum ≠ 0 ∧ nb.designatedRouter = nb.ip then { nb with bdrElectionSum := 0 }
  else nb

/-- The list with its sums, `dr_nb` and `bdr_nb`. -/
structure Election where
  neighbor : List OspfNeighbor
  drNb : Option OspfNeighbor
  bdrNb : Option OspfNeighbor

def step2and3 (list : List OspfNeighbor) : Election :=
  let list := list.map discard
  let declared := largest (fun nb => nb.bdrElectionSum ≠ 0 && nb.backupRouter = nb.ip)
    (·.bdrElectionSum) list
  let bdrNb := match declared with
    | none => largest (fun nb => nb.bdrElectionSum ≠ 0) (·.bdrElectionSum) list
    | some nb => some nb
  let drNb := match largest (fun nb => nb.drElectionSum ≠ 0 && nb.designatedRouter = nb.ip)
      (·.drElectionSum) list with
    | none => bdrNb
    | some nb => some nb
  ⟨list, drNb, bdrNb⟩

/-- The router takes part: its neighbor state is at least 2-Way and its priority is
not 0. -/
def eligible (nb : OspfNeighbor) : Bool :=
  NState.twoWay.code ≤ nb.state.code && nb.priority ≠ 0

def electionSum (nb : OspfNeighbor) : BitVec 64 :=
  nb.priority.setWidth 64 <<< 32 ||| nb.routerId.setWidth 64

def initSums (nb : OspfNeighbor) : OspfNeighbor :=
  if eligible nb then
    { nb with drElectionSum := electionSum nb, bdrElectionSum := electionSum nb }
  else { nb with drElectionSum := 0, bdrElectionSum := 0 }

/-- The router itself as a temporary neighbor, with what it declares. -/
def thisNb (net : OspfNetwork) (designatedRouter backupRouter : BitVec 32) : OspfNeighbor where
  ip := net.ip
  routerId := net.ospfRouterId
  state := .twoWay
  priority := net.routerPriority
  designatedRouter := designatedRouter
  backupRouter := backupRouter

/-- `neighborAdd` refuses an address that is there. -/
def linked (net : OspfNetwork) : Bool :=
  net.routerPriority ≠ 0 && net.neighbor.all (fun nb => nb.ip ≠ net.ip)

/-- The temporary neighbor is the first of the list. -/
def updateThis (linked : Bool) (designatedRouter backupRouter : BitVec 32) :
    List OspfNeighbor → List OspfNeighbor
  | [] => []
  | this :: rest =>
    if linked then
      { this with designatedRouter := designatedRouter, backupRouter := backupRouter } :: rest
    else this :: rest

/-- The router's role changed, as step 4 tests it. -/
def roleChanged (net : OspfNetwork) (dr bdr : BitVec 32) : Bool :=
  (dr = net.ip && net.designatedRouter ≠ net.ip) ||
    (dr ≠ net.ip && net.designatedRouter = net.ip) ||
    (bdr = net.ip && net.backupRouter ≠ net.ip) ||
    (bdr ≠ net.ip && net.backupRouter = net.ip)

/-- Steps 1 to 4: nothing is repeated when there is no backup. -/
def elect (net : OspfNetwork) : Election :=
  let list := if linked net then
      thisNb net net.designatedRouter net.backupRouter :: net.neighbor else net.neighbor
  let first := step2and3 (list.map initSums)
  match first.drNb, first.bdrNb with
  | some dr, some bdr =>
    if net.routerPriority ≠ 0 ∧ roleChanged net dr.ip bdr.ip then
      step2and3 (updateThis (linked net) dr.ip bdr.ip first.neighbor)
    else first
  | _, _ => first

/-- The addresses the election leaves in the network; an election without a winner
leaves the Designated Router as it is. -/
def drbdrElection (net : OspfNetwork) : BitVec 32 × BitVec 32 :=
  let result := elect net
  ((result.drNb.map (·.ip)).getD net.designatedRouter, (result.bdrNb.map (·.ip)).getD 0)

/-- The rules of the procedure: priority first, then the router identifier. -/
def rules : Rules OspfNeighbor (ℕ ×ₗ ℕ) where
  rank nb := toLex (nb.priority.toNat, nb.routerId.toNat)
  designated nb := nb.designatedRouter = nb.ip
  backup nb := nb.backupRouter = nb.ip

/-- The routers on the list of the procedure, with what the calculating router
declares. -/
def attached (net : OspfNetwork) (designatedRouter backupRouter : BitVec 32) :
    List OspfNeighbor :=
  (thisNb net designatedRouter backupRouter :: net.neighbor).filter eligible

/-- Steps 2 and 3 of the procedure, as addresses. -/
def winners (routers : List OspfNeighbor) : BitVec 32 × BitVec 32 :=
  (((rules.electDesignated routers).map (·.ip)).getD 0,
    ((rules.electBackup routers).map (·.ip)).getD 0)

/-- The calculating router holds a role. -/
def holdsRole (net : OspfNetwork) (elected : Option OspfNeighbor) : Bool :=
  elected.any (fun nb => nb.ip = net.ip)

/-- The procedure: when the calculating router's role changed, the steps 2 and 3 are
repeated with what it declares now. -/
def procedure (net : OspfNetwork) : BitVec 32 × BitVec 32 :=
  let routers := attached net net.designatedRouter net.backupRouter
  let first := winners routers
  if holdsRole net (rules.electDesignated routers) = decide (net.designatedRouter = net.ip) ∧
      holdsRole net (rules.electBackup routers) = decide (net.backupRouter = net.ip) then first
  else winners (attached net first.1 first.2)

/-- Addresses and router identifiers differ, those of the calculating router included. -/
structure Distinct (net : OspfNetwork) : Prop where
  ips : (net.ip :: net.neighbor.map (·.ip)).Nodup
  routerIds : (net.ospfRouterId :: net.neighbor.map (·.routerId)).Nodup

section Sums

theorem electionSum_toNat (nb : OspfNeighbor) :
    (electionSum nb).toNat = nb.priority.toNat * 4294967296 + nb.routerId.toNat := by
  have hp := nb.priority.isLt
  have hr := nb.routerId.isLt
  have shifted : (nb.priority.setWidth 64 <<< 32).toNat = nb.priority.toNat <<< 32 := by
    rw [BitVec.toNat_shiftLeft, BitVec.toNat_setWidth, Nat.shiftLeft_eq, Nat.shiftLeft_eq]
    omega
  have low : (nb.routerId.setWidth 64).toNat = nb.routerId.toNat := by
    rw [BitVec.toNat_setWidth]
    omega
  rw [electionSum, BitVec.toNat_or, shifted, low, ← Nat.shiftLeft_add_eq_or_of_lt hr,
    Nat.shiftLeft_eq]

theorem electionSum_lt_iff (a b : OspfNeighbor) :
    (electionSum a).toNat < (electionSum b).toNat ↔ rules.rank a < rules.rank b := by
  have ha := a.routerId.isLt
  have hb := b.routerId.isLt
  rw [electionSum_toNat, electionSum_toNat, rules, Prod.Lex.toLex_lt_toLex]
  omega

theorem electionSum_ne_zero {nb : OspfNeighbor} (part : eligible nb = true) :
    electionSum nb ≠ 0 := by
  intro zero
  have hsum := electionSum_toNat nb
  rw [zero] at hsum
  have priority : nb.priority ≠ 0 := by
    simp only [eligible, Bool.and_eq_true, decide_eq_true_eq] at part
    exact part.2
  have positive : nb.priority.toNat ≠ 0 := fun h => priority (BitVec.eq_of_toNat_eq h)
  have none : (0 : BitVec 64).toNat = 0 := rfl
  omega

theorem largest_eq (counts : OspfNeighbor → Bool) (sum : OspfNeighbor → BitVec 64)
    (list : List OspfNeighbor) :
    largest counts sum list = (list.filter counts).argmax (fun nb => (sum nb).toNat) := by
  rw [largest, List.argmax, List.foldl_filter]
  congr 1
  funext best nb
  split
  · cases best with
    | none => rfl
    | some b => simp only [List.argAux, BitVec.lt_def]
  · rfl

end Sums

/-- The router stands for backup as far as its sum tells. -/
def standing (nb : OspfNeighbor) : Bool := nb.bdrElectionSum ≠ 0

/-- The sums of the list belong to its routers. -/
def Prepared (list : List OspfNeighbor) : Prop :=
  ∀ nb ∈ list, nb.drElectionSum = (if eligible nb then electionSum nb else 0) ∧
    (nb.bdrElectionSum = nb.drElectionSum ∨ nb.bdrElectionSum = 0)

section Step

variable {list : List OspfNeighbor}

theorem Prepared.standing (prepared : Prepared list) {nb : OspfNeighbor} (member : nb ∈ list)
    (stands : standing nb = true) : eligible nb = true ∧ nb.bdrElectionSum = electionSum nb := by
  obtain ⟨sum, same | zero⟩ := prepared nb member
  · simp only [DrElection.standing, decide_eq_true_eq] at stands
    split at sum
    · rename_i part
      exact ⟨part, same.trans sum⟩
    · exact absurd (same.trans sum) stands
  · simp [DrElection.standing, zero] at stands

theorem standing_discard (nb : OspfNeighbor) :
    standing (discard nb) = (standing nb && !rules.designated nb) := by
  by_cases drops : nb.bdrElectionSum ≠ 0 ∧ nb.designatedRouter = nb.ip
  · rw [discard, if_pos drops]
    simp [standing, rules, drops.2]
  · rw [discard, if_neg drops]
    by_cases none : nb.bdrElectionSum = 0
    · simp [standing, none]
    · have other : nb.designatedRouter ≠ nb.ip := fun h => drops ⟨none, h⟩
      simp [rules, other]

theorem discard_of_standing {nb : OspfNeighbor} (stands : standing (discard nb) = true) :
    discard nb = nb := by
  rw [standing_discard, Bool.and_eq_true] at stands
  simp only [rules, Bool.not_eq_true', decide_eq_false_iff_not] at stands
  rw [discard, if_neg (fun h => stands.2 h.2)]

theorem largest_standing (prepared : Prepared list) (p : OspfNeighbor → Bool) :
    largest (fun nb => standing nb && p nb) (·.bdrElectionSum) (list.map discard) =
      ((list.filter standing).filter (fun nb => !rules.designated nb && p nb)).argmax
        rules.rank := by
  have kept : (list.map discard).filter (fun nb => standing nb && p nb) =
      (list.filter standing).filter (fun nb => !rules.designated nb && p nb) := by
    rw [List.filter_map, List.filter_filter]
    have same : ∀ nb, ((fun nb => standing nb && p nb) ∘ discard) nb =
        ((!rules.designated nb && p nb) && standing nb) := by
      intro nb
      simp only [Function.comp]
      by_cases stands : standing (discard nb) = true
      · rw [stands, discard_of_standing stands]
        rw [standing_discard, Bool.and_eq_true] at stands
        rw [stands.1, stands.2]
        simp
      · have parts := standing_discard nb
        rw [Bool.not_eq_true] at stands
        rw [stands] at parts ⊢
        cases stood : standing nb with
        | false => simp
        | true =>
          rw [stood, Bool.true_and] at parts
          rw [← parts]
          simp
    rw [funext same]
    refine (List.map_congr_left (fun nb hnb => ?_)).trans (List.map_id _)
    refine discard_of_standing ?_
    have stands := (List.mem_filter.mp hnb).2
    simp only [Bool.and_eq_true] at stands
    rw [standing_discard, stands.2, stands.1.1]
    rfl
  rw [largest_eq, kept]
  refine argmax_congr (fun a ha b hb => ?_)
  have sumOf : ∀ nb ∈ (list.filter standing).filter (fun nb => !rules.designated nb && p nb),
      nb.bdrElectionSum = electionSum nb := by
    intro nb hnb
    have member := List.mem_filter.mp (List.mem_filter.mp hnb).1
    exact (prepared.standing member.1 member.2).2
  rw [sumOf a ha, sumOf b hb, electionSum_lt_iff]

theorem bdrNb_step2and3 (prepared : Prepared list) :
    (step2and3 list).bdrNb = rules.electBackup (list.filter standing) := by
  have declared := largest_standing prepared rules.backup
  have any := largest_standing prepared (fun _ => true)
  simp only [Bool.and_true] at any
  simp only [step2and3, Rules.electBackup]
  rw [← declared, ← any]
  change (match largest (fun nb => standing nb && rules.backup nb) (·.bdrElectionSum)
    (list.map discard) with | none => _ | some nb => some nb) = _
  cases largest (fun nb => standing nb && rules.backup nb) (·.bdrElectionSum)
    (list.map discard) with
  | none => rfl
  | some nb => rfl

end Step

section Addresses

variable {list l m : List OspfNeighbor}

def ipOf (elected : Option OspfNeighbor) : Option (BitVec 32) := elected.map (·.ip)

/-- The highest of the routers that declare themselves Designated Router. -/
def declaredDr (routers : List OspfNeighbor) : Option OspfNeighbor :=
  (routers.filter rules.designated).argmax rules.rank

/-- A router without its sums. -/
def erase (nb : OspfNeighbor) : OspfNeighbor := { nb with drElectionSum := 0, bdrElectionSum := 0 }

theorem erase_discard (nb : OspfNeighbor) : erase (discard nb) = erase nb := by
  unfold discard
  split
  · rfl
  · rfl

theorem drElectionSum_discard (nb : OspfNeighbor) :
    (discard nb).drElectionSum = nb.drElectionSum := by
  unfold discard
  split
  · rfl
  · rfl

theorem erase_initSums (nb : OspfNeighbor) : erase (initSums nb) = erase nb := by
  unfold initSums
  split
  · rfl
  · rfl

theorem of_erase {β : Type} (f : OspfNeighbor → β) (reads : ∀ nb, f (erase nb) = f nb)
    {a b : OspfNeighbor} (same : erase a = erase b) : f a = f b := by
  rw [← reads a, ← reads b, same]

theorem ipOf_electBackup (same : l.map erase = m.map erase) :
    ipOf (rules.electBackup l) = ipOf (rules.electBackup m) := by
  have through : ∀ k : List OspfNeighbor,
      ipOf (rules.electBackup k) = ipOf (rules.electBackup (k.map erase)) := by
    intro k
    rw [electBackup_map (g := erase) (fun _ => rfl) (fun _ => rfl) (fun _ => rfl), ipOf, ipOf,
      Option.map_map]
    rfl
  rw [through l, through m, same]

theorem ipOf_declaredDr (same : l.map erase = m.map erase) :
    ipOf (declaredDr l) = ipOf (declaredDr m) := by
  have through : ∀ k : List OspfNeighbor,
      ipOf (declaredDr k) = ipOf (declaredDr (k.map erase)) := by
    intro k
    rw [declaredDr, declaredDr, List.filter_map, argmax_map, ipOf, ipOf, Option.map_map]
    rfl
  rw [through l, through m, same]

theorem filter_map_erase {g : OspfNeighbor → OspfNeighbor} {p q : OspfNeighbor → Bool}
    (erases : ∀ nb, erase (g nb) = erase nb) (same : ∀ nb, p (g nb) = q nb) :
    ((l.map g).filter p).map erase = (l.filter q).map erase := by
  have test : p ∘ g = q := funext same
  rw [List.filter_map, List.map_map, test]
  exact List.map_congr_left (fun nb _ => erases nb)

theorem step_ips (prepared : Prepared list) :
    ipOf (step2and3 list).bdrNb = ipOf (rules.electBackup (list.filter standing)) ∧
      ipOf (step2and3 list).drNb = (ipOf (declaredDr (list.filter eligible))).or
        (ipOf (rules.electBackup (list.filter standing))) := by
  have hbdr := bdrNb_step2and3 prepared
  refine ⟨congrArg ipOf hbdr, ?_⟩
  have declared : largest (fun nb => nb.drElectionSum ≠ 0 && nb.designatedRouter = nb.ip)
      (·.drElectionSum) (list.map discard) = (declaredDr (list.filter eligible)).map discard := by
    rw [largest_eq, List.filter_map, argmax_map, declaredDr, List.filter_filter]
    have same : ∀ nb ∈ list, ((fun nb : OspfNeighbor =>
        nb.drElectionSum ≠ 0 && nb.designatedRouter = nb.ip) ∘ discard) nb =
        (rules.designated nb && eligible nb) := by
      intro nb member
      have declares : decide ((discard nb).designatedRouter = (discard nb).ip) =
          rules.designated nb :=
        of_erase rules.designated (fun _ => rfl) (erase_discard nb)
      have part : decide (nb.drElectionSum ≠ 0) = eligible nb := by
        rw [(prepared nb member).1]
        cases part : eligible nb with
        | true => exact decide_eq_true (electionSum_ne_zero part)
        | false => simp
      rw [Function.comp, drElectionSum_discard, declares, part, Bool.and_comm]
    rw [List.filter_congr same]
    congr 1
    refine argmax_congr (fun a ha b hb => ?_)
    have sumOf : ∀ nb ∈ list.filter (fun nb => rules.designated nb && eligible nb),
        (discard nb).drElectionSum = electionSum nb := by
      intro nb hnb
      obtain ⟨member, part⟩ := List.mem_filter.mp hnb
      rw [drElectionSum_discard, (prepared nb member).1, if_pos (Bool.and_eq_true_iff.mp part).2]
    rw [sumOf a ha, sumOf b hb, electionSum_lt_iff]
  have hdr : (step2and3 list).drNb =
      ((declaredDr (list.filter eligible)).map discard).or (step2and3 list).bdrNb := by
    rw [← declared]
    simp only [step2and3]
    cases largest (fun nb => nb.drElectionSum ≠ 0 && nb.designatedRouter = nb.ip)
      (·.drElectionSum) (list.map discard) with
    | none => rfl
    | some nb => rfl
  rw [hdr, ← hbdr]
  simp only [ipOf, Option.map_or, Option.map_map]
  congr 1
  congr 1
  funext nb
  exact of_erase OspfNeighbor.ip (fun _ => rfl) (erase_discard nb)

theorem eligible_initSums (nb : OspfNeighbor) : eligible (initSums nb) = eligible nb :=
  of_erase eligible (fun _ => rfl) (erase_initSums nb)

theorem standing_initSums (nb : OspfNeighbor) : standing (initSums nb) = eligible nb := by
  unfold initSums
  split
  · rename_i part
    rw [part]
    exact decide_eq_true (electionSum_ne_zero part)
  · rename_i part
    rw [Bool.not_eq_true] at part
    rw [part]
    rfl

theorem prepared_initSums (list : List OspfNeighbor) : Prepared (list.map initSums) := by
  intro nb hnb
  obtain ⟨original, _, rfl⟩ := List.mem_map.mp hnb
  have sum := of_erase electionSum (fun _ => rfl) (erase_initSums original)
  rw [eligible_initSums, sum]
  unfold initSums
  split
  · exact ⟨rfl, .inl rfl⟩
  · exact ⟨rfl, .inl rfl⟩

theorem Prepared.discard (prepared : Prepared list) : Prepared (list.map discard) := by
  intro nb hnb
  obtain ⟨original, member, rfl⟩ := List.mem_map.mp hnb
  have part := of_erase eligible (fun _ => rfl) (erase_discard original)
  have sum := of_erase electionSum (fun _ => rfl) (erase_discard original)
  rw [drElectionSum_discard, part, sum]
  refine ⟨(prepared original member).1, ?_⟩
  unfold DrElection.discard
  split
  · exact .inr rfl
  · exact (prepared original member).2

theorem first_ips (list : List OspfNeighbor) :
    ipOf (step2and3 (list.map initSums)).bdrNb = ipOf (rules.electBackup (list.filter eligible)) ∧
      ipOf (step2and3 (list.map initSums)).drNb =
        ipOf (rules.electDesignated (list.filter eligible)) := by
  obtain ⟨hbdr, hdr⟩ := step_ips (prepared_initSums list)
  have stand := ipOf_electBackup (filter_map_erase (l := list) erase_initSums standing_initSums)
  have part := ipOf_declaredDr (filter_map_erase (l := list) erase_initSums eligible_initSums)
  rw [stand] at hbdr hdr
  rw [part] at hdr
  refine ⟨hbdr, hdr.trans ?_⟩
  simp only [ipOf, Rules.electDesignated, Option.map_or]
  rfl

end Addresses

section Second

variable {net : OspfNetwork}

theorem eligible_thisNb (takesPart : net.routerPriority ≠ 0) (d b : BitVec 32) :
    eligible (thisNb net d b) = true := by
  exact Bool.and_eq_true_iff.mpr ⟨rfl, decide_eq_true takesPart⟩

theorem second_ips (takesPart : net.routerPriority ≠ 0) (d b d' b' : BitVec 32) :
    let list := updateThis true d' b'
      (step2and3 ((thisNb net d b :: net.neighbor).map initSums)).neighbor
    let others := net.neighbor.filter eligible
    ipOf (step2and3 list).bdrNb =
        ipOf (rules.electBackup (if d = net.ip then others else thisNb net d' b' :: others)) ∧
      ipOf (step2and3 list).drNb =
        (ipOf (declaredDr (thisNb net d' b' :: others))).or (ipOf (step2and3 list).bdrNb) := by
  dsimp only
  let x := discard (initSums (thisNb net d b))
  let x' : OspfNeighbor := { x with designatedRouter := d', backupRouter := b' }
  let rest := net.neighbor.map (discard ∘ initSums)
  have hlist : updateThis true d' b'
      (step2and3 ((thisNb net d b :: net.neighbor).map initSums)).neighbor = x' :: rest := by
    have hrest : (net.neighbor.map initSums).map discard = rest := List.map_map
    rw [← hrest]
    rfl
  rw [hlist]
  have before : erase x = thisNb net d b := (erase_discard _).trans (erase_initSums _)
  have after : erase x' = thisNb net d' b' :=
    congrArg (fun nb : OspfNeighbor => { nb with designatedRouter := d', backupRouter := b' })
      before
  have prepared : Prepared (x' :: rest) := by
    have old : Prepared (x :: rest) := by
      have whole := (prepared_initSums (thisNb net d b :: net.neighbor)).discard
      rwa [List.map_map] at whole
    intro nb hnb
    rcases List.mem_cons.mp hnb with rfl | later
    · exact old x List.mem_cons_self
    · exact old nb (List.mem_cons_of_mem _ later)
  have stands : standing x' = !decide (d = net.ip) := by
    have same : standing x' = standing x := rfl
    have declares := of_erase rules.designated (fun _ => rfl) (erase_initSums (thisNb net d b))
    rw [same, standing_discard, standing_initSums, eligible_thisNb takesPart, declares]
    rfl
  have part : eligible x' = true :=
    (of_erase eligible (fun _ => rfl) after).trans (eligible_thisNb takesPart d' b')
  have erases : ∀ nb, erase ((discard ∘ initSums) nb) = erase nb :=
    fun nb => (erase_discard _).trans (erase_initSums nb)
  have restStanding : (rest.filter standing).map erase =
      ((net.neighbor.filter eligible).filter (fun nb => !rules.designated nb)).map erase := by
    rw [List.filter_filter]
    refine filter_map_erase erases (fun nb => ?_)
    rw [Function.comp, standing_discard, standing_initSums,
      of_erase rules.designated (fun _ => rfl) (erase_initSums nb), Bool.and_comm]
  have restEligible : (rest.filter eligible).map erase =
      (net.neighbor.filter eligible).map erase :=
    filter_map_erase erases (fun nb => of_erase eligible (fun _ => rfl) (erases nb))
  obtain ⟨hbdr, hdr⟩ := step_ips prepared
  rw [← hbdr] at hdr
  constructor
  · rw [hbdr]
    by_cases declared : d = net.ip
    · rw [if_pos declared, List.filter_cons_of_neg (by rw [stands, declared]; simp),
        ipOf_electBackup restStanding, electBackup_filter]
    · rw [if_neg declared, List.filter_cons_of_pos (by rw [stands]; simp [declared]),
        ← electBackup_cons_filter (net.neighbor.filter eligible)]
      refine ipOf_electBackup ?_
      rw [List.map_cons, List.map_cons, restStanding, after]
      rfl
  · rw [hdr]
    congr 1
    refine ipOf_declaredDr ?_
    rw [List.filter_cons_of_pos part, List.map_cons, List.map_cons, restEligible, after]
    rfl

end Second

/-- The router declares itself Designated Router, loses the role to a router that
declares the same and ranks higher, and ranks above everyone who stands for backup,
none of whom declares itself backup. An address 0 cannot be told from none. -/
structure Deposed (net : OspfNetwork) : Prop where
  takesPart : net.routerPriority ≠ 0
  declares : net.designatedRouter = net.ip
  outranked : ∃ nb ∈ net.neighbor.filter eligible, rules.designated nb = true ∧
    rules.rank (thisNb net 0 0) < rules.rank nb
  next : ∀ nb ∈ net.neighbor.filter eligible, rules.designated nb = false →
    rules.backup nb = false ∧ rules.rank nb < rules.rank (thisNb net 0 0)
  named : net.ip ≠ 0 ∨ ∃ nb ∈ net.neighbor.filter eligible, rules.designated nb = false

section Main

variable {net : OspfNetwork}

theorem Distinct.ip_ne (distinct : Distinct net) {nb : OspfNeighbor}
    (member : nb ∈ net.neighbor.filter eligible) : nb.ip ≠ net.ip := by
  intro same
  have fresh := (List.nodup_cons.mp distinct.ips).1
  exact fresh (same ▸ List.mem_map_of_mem (List.mem_filter.mp member).1)

theorem Distinct.rank_ne (distinct : Distinct net) {nb : OspfNeighbor}
    (member : nb ∈ net.neighbor.filter eligible) :
    rules.rank nb ≠ rules.rank (thisNb net 0 0) := by
  intro same
  have ids : nb.routerId.toNat = net.ospfRouterId.toNat := congrArg (fun p => (ofLex p).2) same
  have fresh := (List.nodup_cons.mp distinct.routerIds).1
  have equal : nb.routerId = net.ospfRouterId := BitVec.eq_of_toNat_eq ids
  exact fresh (equal ▸ List.mem_map_of_mem (List.mem_filter.mp member).1)

theorem Distinct.linked (distinct : Distinct net) (takesPart : net.routerPriority ≠ 0) :
    linked net = true := by
  refine Bool.and_eq_true_iff.mpr ⟨decide_eq_true takesPart, ?_⟩
  rw [List.all_eq_true]
  intro nb hnb
  refine decide_eq_true (fun same => ?_)
  exact (List.nodup_cons.mp distinct.ips).1 (same ▸ List.mem_map_of_mem hnb)

theorem attached_eq (takesPart : net.routerPriority ≠ 0) (d b : BitVec 32) :
    attached net d b = thisNb net d b :: net.neighbor.filter eligible :=
  List.filter_cons_of_pos (eligible_thisNb takesPart d b)

theorem attached_eq_of_zero (zero : net.routerPriority = 0) (d b : BitVec 32) :
    attached net d b = net.neighbor.filter eligible := by
  refine List.filter_cons_of_neg ?_
  rw [Bool.not_eq_true]
  exact Bool.and_eq_false_iff.mpr (.inr (decide_eq_false (fun h => h zero)))

theorem electDesignated_ips (routers : List OspfNeighbor) :
    ipOf (rules.electDesignated routers) =
      (ipOf (declaredDr routers)).or (ipOf (rules.electBackup routers)) := by
  simp only [ipOf, Rules.electDesignated, Option.map_or]
  rfl

theorem roleChanged_iff (net : OspfNetwork) (d b : BitVec 32) :
    roleChanged net d b = true ↔
      ¬ ((d = net.ip ↔ net.designatedRouter = net.ip) ∧
        (b = net.ip ↔ net.backupRouter = net.ip)) := by
  simp only [roleChanged, Bool.or_eq_true, Bool.and_eq_true, decide_eq_true_eq]
  tauto

theorem elect_ips (isLinked : linked net = true) (takesPart : net.routerPriority ≠ 0) :
    (ipOf (elect net).drNb, ipOf (elect net).bdrNb) =
      match ipOf (rules.electDesignated (attached net net.designatedRouter net.backupRouter)),
          ipOf (rules.electBackup (attached net net.designatedRouter net.backupRouter)) with
      | some d, some b =>
        if roleChanged net d b then
          let others := net.neighbor.filter eligible
          let bdr := ipOf (rules.electBackup
            (if net.designatedRouter = net.ip then others else thisNb net d b :: others))
          ((ipOf (declaredDr (thisNb net d b :: others))).or bdr, bdr)
        else (some d, some b)
      | d, b => (d, b) := by
  obtain ⟨hbdr, hdr⟩ :=
    first_ips (thisNb net net.designatedRouter net.backupRouter :: net.neighbor)
  change _ = ipOf (rules.electBackup (attached net _ _)) at hbdr
  change _ = ipOf (rules.electDesignated (attached net _ _)) at hdr
  have second := second_ips takesPart net.designatedRouter net.backupRouter
  unfold elect
  rw [isLinked, if_pos rfl, ← hbdr, ← hdr]
  dsimp only at second ⊢
  generalize step2and3 ((thisNb net net.designatedRouter net.backupRouter :: net.neighbor).map
    initSums) = first at second ⊢
  obtain ⟨neighbor, drNb, bdrNb⟩ := first
  cases drNb with
  | none => rfl
  | some dr =>
    cases bdrNb with
    | none => rfl
    | some bdr =>
      simp only [ipOf, Option.map_some]
      by_cases changed : roleChanged net dr.ip bdr.ip = true
      · rw [if_pos ⟨takesPart, changed⟩, if_pos changed]
        obtain ⟨b, d⟩ := second dr.ip bdr.ip
        simp only [ipOf] at b d
        rw [d, b]
      · rw [if_neg (fun h => changed h.2), if_neg changed]
        rfl

theorem holdsRole_iff (elected : Option OspfNeighbor) :
    holdsRole net elected = true ↔ ipOf elected = some net.ip := by
  cases elected with
  | none => simp [holdsRole, ipOf]
  | some nb => simp [holdsRole, ipOf]

theorem procedure_eq (net : OspfNetwork) :
    procedure net =
      let routers := attached net net.designatedRouter net.backupRouter
      let first := winners routers
      if (ipOf (rules.electDesignated routers) = some net.ip ↔ net.designatedRouter = net.ip) ∧
          (ipOf (rules.electBackup routers) = some net.ip ↔ net.backupRouter = net.ip) then first
      else winners (attached net first.1 first.2) := by
  have test : ∀ (o : Option OspfNeighbor) (p : Prop) [Decidable p],
      holdsRole net o = decide p ↔ (ipOf o = some net.ip ↔ p) := by
    intro o p _
    rw [← holdsRole_iff o, Bool.eq_iff_iff, decide_eq_true_iff]
  simp only [procedure, test]

theorem drbdrElection_eq (net : OspfNetwork) :
    drbdrElection net = ((ipOf (elect net).drNb).getD net.designatedRouter,
      (ipOf (elect net).bdrNb).getD 0) :=
  rfl

theorem getD_electDesignated {routers : List OspfNeighbor} (some_router : routers ≠ [])
    {d : BitVec 32} :
    ((ipOf (rules.electDesignated routers)).getD d, (ipOf (rules.electBackup routers)).getD 0) =
      winners routers := by
  have elected : rules.electDesignated routers ≠ none :=
    fun h => some_router (electDesignated_eq_none.mp h)
  obtain ⟨dr, hdr⟩ := Option.ne_none_iff_exists'.mp elected
  rw [winners, hdr]
  rfl

theorem election_of_zero (zero : net.routerPriority = 0) :
    drbdrElection net = procedure net ↔
      attached net net.designatedRouter net.backupRouter ≠ [] ∨ net.designatedRouter = 0 := by
  have unlinked : linked net = false :=
    Bool.and_eq_false_iff.mpr (.inl (decide_eq_false (fun h => h zero)))
  obtain ⟨hbdr, hdr⟩ := first_ips net.neighbor
  have once : elect net = step2and3 (net.neighbor.map initSums) := by
    unfold elect
    rw [unlinked, if_neg (by decide)]
    dsimp only
    split
    · rw [if_neg (fun h => h.1 zero)]
    · rfl
  have same : procedure net = winners (net.neighbor.filter eligible) := by
    rw [procedure_eq]
    simp only [attached_eq_of_zero zero, ite_self]
  rw [same, drbdrElection_eq, once, hbdr, hdr, attached_eq_of_zero zero]
  change _ = ((ipOf (rules.electDesignated _)).getD 0, (ipOf (rules.electBackup _)).getD 0) ↔ _
  rw [Prod.mk.injEq, and_iff_left rfl]
  cases elected : rules.electDesignated (net.neighbor.filter eligible) with
  | none =>
    have empty := electDesignated_eq_none.mp elected
    rw [empty]
    simp [ipOf]
  | some dr =>
    have some_router : net.neighbor.filter eligible ≠ [] := by
      intro empty
      rw [empty] at elected
      cases elected
    simp [ipOf, some_router]

theorem election_of_undeclared (distinct : Distinct net) (takesPart : net.routerPriority ≠ 0)
    (silent : net.designatedRouter ≠ net.ip) : drbdrElection net = procedure net := by
  have ips := elect_ips (distinct.linked takesPart) takesPart
  have stands : rules.electBackup (attached net net.designatedRouter net.backupRouter) ≠ none := by
    rw [Ne, electBackup_eq_none, attached_eq takesPart,
      List.filter_cons_of_pos (by simp [rules, thisNb, silent])]
    exact List.cons_ne_nil _ _
  obtain ⟨bdr, hbdr⟩ := Option.ne_none_iff_exists'.mp stands
  have hdr := electDesignated_ips (attached net net.designatedRouter net.backupRouter)
  rw [hbdr] at hdr ips
  obtain ⟨d, hd⟩ : ∃ d, ipOf (rules.electDesignated
      (attached net net.designatedRouter net.backupRouter)) = some d := by
    rw [hdr]
    cases ipOf (declaredDr (attached net net.designatedRouter net.backupRouter)) with
    | none => exact ⟨bdr.ip, rfl⟩
    | some d => exact ⟨d, rfl⟩
  rw [hd] at ips
  have hb : ipOf (some bdr) = some bdr.ip := rfl
  rw [hb] at ips
  dsimp only at ips
  have hfirst : winners (attached net net.designatedRouter net.backupRouter) = (d, bdr.ip) := by
    change ((ipOf _).getD 0, (ipOf _).getD 0) = _
    rw [hd, hbdr]
    rfl
  have again := roleChanged_iff net d bdr.ip
  rw [procedure_eq, drbdrElection_eq]
  dsimp only
  rw [hfirst, hd, hbdr, hb]
  simp only [Option.some.injEq]
  by_cases changed : roleChanged net d bdr.ip = true
  · rw [if_pos changed, if_neg silent, ← attached_eq takesPart, ← electDesignated_ips] at ips
    obtain ⟨hd', hb'⟩ := Prod.mk.inj ips
    rw [if_neg (again.mp changed), hd', hb']
    exact getD_electDesignated (attached_eq takesPart _ _ ▸ List.cons_ne_nil _ _)
  · rw [if_neg changed] at ips
    obtain ⟨hd', hb'⟩ := Prod.mk.inj ips
    rw [if_pos (not_not.mp (fun h => changed (again.mpr h))), hd', hb']
    rfl

end Main

section Declared

variable {net : OspfNetwork}

theorem declaredDr_this (d b : BitVec 32) (others : List OspfNeighbor) :
    declaredDr (thisNb net d b :: others) =
      if d = net.ip then
        match declaredDr others with
        | none => some (thisNb net d b)
        | some c => if rules.rank (thisNb net 0 0) < rules.rank c then some c
          else some (thisNb net d b)
      else declaredDr others := by
  have claims : rules.designated (thisNb net d b) = decide (d = net.ip) := rfl
  by_cases here : d = net.ip
  · have claimed : rules.designated (thisNb net d b) = true := claims.trans (decide_eq_true here)
    rw [if_pos here, declaredDr, List.filter_cons_of_pos claimed, List.argmax_cons]
    change _ = match List.argmax rules.rank (others.filter rules.designated) with
      | none => some (thisNb net d b)
      | some c => _
    cases List.argmax rules.rank (others.filter rules.designated) with
    | none => rfl
    | some c => rfl
  · rw [if_neg here, declaredDr,
      List.filter_cons_of_neg (by rw [claims]; exact fun h => here (of_decide_eq_true h))]
    rfl

theorem electBackup_this {d b : BitVec 32} (declares : d = net.ip) (others : List OspfNeighbor) :
    rules.electBackup (thisNb net d b :: others) = rules.electBackup others :=
  electBackup_cons_of_designated (decide_eq_true declares)

theorem election_of_kept (distinct : Distinct net) (takesPart : net.routerPriority ≠ 0)
    (declares : net.designatedRouter = net.ip)
    (kept : ∀ c, declaredDr (net.neighbor.filter eligible) = some c →
      ¬ rules.rank (thisNb net 0 0) < rules.rank c) : drbdrElection net = procedure net := by
  have claim : ∀ b, declaredDr (thisNb net net.ip b :: net.neighbor.filter eligible) =
      some (thisNb net net.ip b) := by
    intro b
    rw [declaredDr_this, if_pos rfl]
    split
    · rfl
    · rename_i c hc
      rw [if_neg (kept c hc)]
  have wins : ∀ b, winners (attached net net.ip b) =
      (net.ip, (ipOf (rules.electBackup (net.neighbor.filter eligible))).getD 0) := by
    intro b
    rw [attached_eq takesPart]
    change ((ipOf _).getD 0, (ipOf _).getD 0) = _
    rw [electDesignated_ips, claim, electBackup_this rfl]
    rfl
  have ips := elect_ips (distinct.linked takesPart) takesPart
  rw [attached_eq takesPart, electDesignated_ips, declares, claim, electBackup_this rfl] at ips
  have code : (ipOf (elect net).drNb, ipOf (elect net).bdrNb) =
      (some net.ip, ipOf (rules.electBackup (net.neighbor.filter eligible))) := by
    rw [ips]
    cases hb : ipOf (rules.electBackup (net.neighbor.filter eligible)) with
    | none => rfl
    | some b =>
      change (if roleChanged net net.ip b = true then _ else _) = _
      split
      · simp only [if_true, hb]
        exact congrArg (fun o => ((ipOf o).or (some b), some b)) (claim b)
      · rfl
  obtain ⟨hdr, hbdr⟩ := Prod.mk.inj code
  rw [drbdrElection_eq, procedure_eq, hdr, hbdr]
  dsimp only
  rw [declares, wins, wins, ite_self]
  rfl

theorem declaredDr_of_lost {others : List OspfNeighbor} {c : OspfNeighbor}
    (claims : declaredDr others = some c)
    (outranks : rules.rank (thisNb net 0 0) < rules.rank c) (d b : BitVec 32) :
    declaredDr (thisNb net d b :: others) = some c := by
  rw [declaredDr_this, claims]
  split
  · exact if_pos outranks
  · rfl

theorem elect_of_lost (distinct : Distinct net) (takesPart : net.routerPriority ≠ 0)
    (declares : net.designatedRouter = net.ip) {c : OspfNeighbor}
    (claims : declaredDr (net.neighbor.filter eligible) = some c)
    (outranks : rules.rank (thisNb net 0 0) < rules.rank c) :
    drbdrElection net =
      (c.ip, (ipOf (rules.electBackup (net.neighbor.filter eligible))).getD 0) := by
  have lost := declaredDr_of_lost claims outranks
  have ips := elect_ips (distinct.linked takesPart) takesPart
  rw [attached_eq takesPart, electDesignated_ips, declares, lost, electBackup_this rfl] at ips
  have code : (ipOf (elect net).drNb, ipOf (elect net).bdrNb) =
      (some c.ip, ipOf (rules.electBackup (net.neighbor.filter eligible))) := by
    rw [ips]
    cases hb : ipOf (rules.electBackup (net.neighbor.filter eligible)) with
    | none => rfl
    | some b =>
      change (if roleChanged net c.ip b = true then _ else _) = _
      split
      · simp only [if_true, lost, hb]
        rfl
      · rfl
  obtain ⟨hdr, hbdr⟩ := Prod.mk.inj code
  rw [drbdrElection_eq, hdr, hbdr]
  rfl

theorem procedure_of_lost (takesPart : net.routerPriority ≠ 0)
    (declares : net.designatedRouter = net.ip) {c : OspfNeighbor}
    (claims : declaredDr (net.neighbor.filter eligible) = some c)
    (outranks : rules.rank (thisNb net 0 0) < rules.rank c) (other : c.ip ≠ net.ip) :
    procedure net =
      (c.ip, (ipOf (rules.electBackup (thisNb net c.ip
        ((ipOf (rules.electBackup (net.neighbor.filter eligible))).getD 0) ::
          net.neighbor.filter eligible))).getD 0) := by
  have lost := declaredDr_of_lost claims outranks
  have dr : ∀ d b, ipOf (rules.electDesignated (attached net d b)) = some c.ip := by
    intro d b
    rw [attached_eq takesPart, electDesignated_ips, lost]
    rfl
  have wins : ∀ d b, winners (attached net d b) =
      (c.ip,
        (ipOf (rules.electBackup (thisNb net d b :: net.neighbor.filter eligible))).getD 0) := by
    intro d b
    change ((ipOf _).getD 0, (ipOf _).getD 0) = _
    rw [dr, attached_eq takesPart]
    rfl
  have changed : ¬ ((ipOf (rules.electDesignated (attached net net.designatedRouter
      net.backupRouter)) = some net.ip ↔ net.designatedRouter = net.ip) ∧
      (ipOf (rules.electBackup (attached net net.designatedRouter net.backupRouter)) =
        some net.ip ↔ net.backupRouter = net.ip)) := by
    rw [dr]
    exact fun h => other (Option.some.inj (h.1.mpr declares))
  rw [procedure_eq]
  dsimp only
  rw [if_neg changed, wins, wins, electBackup_this declares]

theorem backup_of_lost (distinct : Distinct net) {d : BitVec 32} (other : d ≠ net.ip) :
    (ipOf (rules.electBackup (net.neighbor.filter eligible))).getD 0 =
        (ipOf (rules.electBackup (thisNb net d
          ((ipOf (rules.electBackup (net.neighbor.filter eligible))).getD 0) ::
            net.neighbor.filter eligible))).getD 0 ↔
      ¬ ((∀ nb ∈ net.neighbor.filter eligible, rules.designated nb = false →
          rules.backup nb = false ∧ rules.rank nb < rules.rank (thisNb net 0 0)) ∧
        (net.ip ≠ 0 ∨ ∃ nb ∈ net.neighbor.filter eligible, rules.designated nb = false)) := by
  have ipNe : ∀ nb ∈ net.neighbor.filter eligible, nb.ip ≠ net.ip := fun _ => distinct.ip_ne
  have rankNe : ∀ nb ∈ net.neighbor.filter eligible,
      rules.rank nb ≠ rules.rank (thisNb net 0 0) := fun _ => distinct.rank_ne
  generalize net.neighbor.filter eligible = others at ipNe rankNe ⊢
  have stands : ∀ b, rules.designated (thisNb net d b) = false := fun _ => decide_eq_false other
  cases declared : (others.filter (fun nb => !rules.designated nb && rules.backup nb)).argmax
      rules.rank with
  | some g =>
    -- a router that declares itself backup is elected by both
    obtain ⟨member, claims⟩ := List.mem_filter.mp (List.argmax_mem declared)
    obtain ⟨undesignated, backs⟩ := Bool.and_eq_true_iff.mp claims
    have same : rules.electBackup others = some g := by rw [Rules.electBackup, declared]; rfl
    have silent : rules.backup (thisNb net d ((ipOf (some g)).getD 0)) = false :=
      decide_eq_false (ipNe g member)
    rw [same, electBackup_cons (stands _) silent, declared]
    refine iff_of_true rfl (fun h => ?_)
    have free := (h.1 g member (by simpa using undesignated)).1
    rw [free] at backs
    cases backs
  | none =>
    have nobody := List.filter_eq_nil_iff.mp (List.argmax_eq_none.mp declared)
    have same : rules.electBackup others =
        (others.filter (fun nb => !rules.designated nb)).argmax rules.rank := by
      rw [Rules.electBackup, declared]
      rfl
    cases best : (others.filter (fun nb => !rules.designated nb)).argmax rules.rank with
    | none =>
      -- nobody else stands for backup
      have alone := List.argmax_eq_none.mp best
      have none := List.filter_eq_nil_iff.mp alone
      rw [same, best, electBackup_alone (stands _) alone]
      change 0 = net.ip ↔ _
      constructor
      · rintro zero ⟨_, named | ⟨nb, member, free⟩⟩
        · exact named zero.symm
        · exact none nb member (by simp [free])
      · intro fine
        by_contra named
        refine fine ⟨?_, .inl (fun h => named h.symm)⟩
        intro nb member free
        exact absurd (by simp [free]) (none nb member)
    | some f =>
      obtain ⟨member, undesignated⟩ := List.mem_filter.mp (List.argmax_mem best)
      have free : rules.designated f = false := by simpa using undesignated
      have silent : rules.backup (thisNb net d ((ipOf (some f)).getD 0)) = false :=
        decide_eq_false (ipNe f member)
      rw [same, best, electBackup_cons (stands _) silent, declared, List.argmax_cons, best]
      change f.ip = (ipOf (if rules.rank (thisNb net 0 0) < rules.rank f then some f
        else some (thisNb net d f.ip))).getD 0 ↔ _
      by_cases higher : rules.rank (thisNb net 0 0) < rules.rank f
      · rw [if_pos higher]
        refine iff_of_true rfl (fun h => ?_)
        exact lt_asymm higher (h.1 f member free).2
      · rw [if_neg higher]
        refine iff_of_false (ipNe f member) (fun fine => fine ⟨?_, .inr ⟨f, member, free⟩⟩)
        intro nb hnb free'
        have below := List.le_of_mem_argmax (List.mem_filter.mpr ⟨hnb, by simp [free']⟩) best
        refine ⟨?_, lt_of_le_of_ne (le_trans below (le_of_not_gt higher)) (rankNe nb hnb)⟩
        have silent' := nobody nb hnb
        simpa [free'] using silent'

end Declared

/-- The neighbor 10.0.0.2 with what it declares. -/
def neighborOf (designatedRouter : BitVec 32) : OspfNeighbor where
  ip := 0x0a000002
  routerId := 0x02020202
  state := .twoWay
  priority := 1
  designatedRouter := designatedRouter
  backupRouter := 0

/-- The router 10.0.0.1 declares itself Designated Router. -/
def networkWith (neighbor : OspfNeighbor) : OspfNetwork where
  ip := 0x0a000001
  routerPriority := 1
  designatedRouter := 0x0a000001
  backupRouter := 0
  neighbor := [neighbor]
  ospfRouterId := 0x01010101

/-- Two parts of a network meet, each with its own Designated Router. -/
def merged : OspfNetwork := networkWith (neighborOf 0x0a000002)

theorem distinct_merged : Distinct merged := ⟨by decide, by decide⟩

/-- A neighbor joins that accepts the Designated Router. -/
def joining : OspfNetwork := networkWith (neighborOf 0x0a000001)

end DrElection
