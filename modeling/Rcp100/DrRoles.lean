import Rcp100.DrElection

/-!
# Roles after an election

Two properties of the election of the Designated Router. The calculating router never
takes both roles at once, because the repeated pass separates them. And a network whose
two roles are held by routers that declare them stays as it is, so that no neighbor is
sent the event AdjOK.
-/

namespace DrRoles

open LsUpdate RankedElection DrElection

/-- The list that the election runs over. -/
def listed (net : OspfNetwork) : List OspfNeighbor :=
  if linked net then thisNb net net.designatedRouter net.backupRouter :: net.neighbor
  else net.neighbor

/-- Step 7: a role has another address than before. -/
def changed (net : OspfNetwork) : Bool :=
  let result := elect net
  (match result.drNb with
    | some dr => decide (dr.ip ≠ net.designatedRouter)
    | none => false) ||
  match result.bdrNb with
    | some bdr => decide (bdr.ip ≠ net.backupRouter)
    | none => decide (net.backupRouter ≠ 0)

/-- The neighbors that are sent AdjOK; the temporary neighbor has been unlinked. -/
def adjOk (net : OspfNetwork) : List OspfNeighbor :=
  if changed net then net.neighbor.filter (fun nb => NState.twoWay.code ≤ nb.state.code) else []

theorem changed_eq (net : OspfNetwork) :
    changed net = decide (drbdrElection net ≠ (net.designatedRouter, net.backupRouter)) := by
  rw [changed, drbdrElection]
  generalize elect net = result
  obtain ⟨neighbor, drNb, bdrNb⟩ := result
  rw [Bool.eq_iff_iff, decide_eq_true_iff]
  simp only [ne_eq, Prod.mk.injEq, not_and_or]
  cases drNb with
  | none =>
    cases bdrNb with
    | none => simpa using not_congr eq_comm
    | some bdr => simp
  | some dr =>
    cases bdrNb with
    | none => simpa using or_congr_right (not_congr eq_comm)
    | some bdr => simp

section Backup

variable {net : OspfNetwork} {others : List OspfNeighbor} {d b : BitVec 32}

variable {routers : List OspfNeighbor}

theorem mem_electBackup {nb : OspfNeighbor}
    (elected : rules.electBackup routers = some nb) :
    nb ∈ routers ∧ rules.designated nb = false := by
  rw [Rules.electBackup, Option.or_eq_some_iff] at elected
  rcases elected with best | ⟨-, best⟩
  · obtain ⟨member, claims⟩ := List.mem_filter.mp (List.argmax_mem best)
    exact ⟨member, by simpa using (Bool.and_eq_true_iff.mp claims).1⟩
  · obtain ⟨member, free⟩ := List.mem_filter.mp (List.argmax_mem best)
    exact ⟨member, by simpa using free⟩

theorem electBackup_apart {ip : BitVec 32}
    (apart : ∀ nb ∈ routers, nb.ip ≠ ip) : ipOf (rules.electBackup routers) ≠ some ip := by
  intro same
  cases elected : rules.electBackup routers with
  | none =>
    rw [elected] at same
    cases same
  | some nb =>
    rw [elected] at same
    exact apart nb (mem_electBackup elected).1 (Option.some.inj same)

theorem electDesignated_of_backup (backup : ipOf (rules.electBackup routers) = some b) :
    ∃ d, ipOf (rules.electDesignated routers) = some d := by
  rw [electDesignated_ips, backup]
  cases ipOf (declaredDr routers) with
  | none => exact ⟨b, rfl⟩
  | some c => exact ⟨c, rfl⟩

/-- The calculating router is elected backup without declaring it only if nobody else
declares it and its rank is the highest; what else it declares does not matter. -/
theorem electBackup_this_iff (apart : ∀ nb ∈ others, nb.ip ≠ net.ip) (notDr : d ≠ net.ip)
    (notBdr : b ≠ net.ip) :
    ipOf (rules.electBackup (thisNb net d b :: others)) = some net.ip ↔
      (∀ nb ∈ others, rules.designated nb = false → rules.backup nb = false) ∧
      ∀ nb ∈ others, rules.designated nb = false →
        ¬ rules.rank (thisNb net 0 0) < rules.rank nb := by
  have stands : rules.designated (thisNb net d b) = false := decide_eq_false notDr
  have silent : rules.backup (thisNb net d b) = false := decide_eq_false notBdr
  rw [electBackup_cons stands silent]
  cases declared : (others.filter (fun r => !rules.designated r && rules.backup r)).argmax
      rules.rank with
  | some g =>
    obtain ⟨member, claims⟩ := List.mem_filter.mp (List.argmax_mem declared)
    obtain ⟨free, backs⟩ := Bool.and_eq_true_iff.mp claims
    refine iff_of_false ?_ ?_
    · exact fun same => apart g member (Option.some.inj same)
    · rintro ⟨nobody, -⟩
      rw [nobody g member (by simpa using free)] at backs
      cases backs
  | none =>
    have none := List.filter_eq_nil_iff.mp (List.argmax_eq_none.mp declared)
    have nobody : ∀ nb ∈ others, rules.designated nb = false → rules.backup nb = false := by
      intro nb member free
      simpa [free] using none nb member
    rw [and_iff_right nobody, List.argmax_cons]
    change ipOf ((Option.none).or _) = _ ↔ _
    cases best : (others.filter (fun r => !rules.designated r)).argmax rules.rank with
    | none =>
      have alone := List.filter_eq_nil_iff.mp (List.argmax_eq_none.mp best)
      refine iff_of_true rfl fun nb member free => ?_
      exact absurd (by simp [free]) (alone nb member)
    | some f =>
      obtain ⟨member, undesignated⟩ := List.mem_filter.mp (List.argmax_mem best)
      have free : rules.designated f = false := by simpa using undesignated
      change ipOf (if rules.rank (thisNb net 0 0) < rules.rank f then some f
        else some (thisNb net d b)) = _ ↔ _
      by_cases higher : rules.rank (thisNb net 0 0) < rules.rank f
      · rw [if_pos higher]
        refine iff_of_false (fun same => apart f member (Option.some.inj same)) fun all => ?_
        exact all f member free higher
      · rw [if_neg higher]
        refine iff_of_true rfl fun nb hnb free' => ?_
        have below := List.le_of_mem_argmax (List.mem_filter.mpr ⟨hnb, by simp [free']⟩) best
        exact not_lt_of_ge (le_trans below (le_of_not_gt higher))

theorem electBackup_this_of_designated (apart : ∀ nb ∈ others, nb.ip ≠ net.ip)
    (isDr : d = net.ip) :
    ipOf (rules.electBackup (thisNb net d b :: others)) ≠ some net.ip := by
  rw [electBackup_this isDr]
  exact electBackup_apart apart

end Backup

section Both

variable {net : OspfNetwork}

theorem declaredDr_apart {others : List OspfNeighbor}
    (apart : ∀ nb ∈ others, nb.ip ≠ net.ip) :
    ipOf (declaredDr others) ≠ some net.ip := by
  intro same
  cases found : declaredDr others with
  | none =>
    rw [found] at same
    cases same
  | some nb =>
    rw [found] at same
    have member := (List.mem_filter.mp (List.argmax_mem found)).1
    exact apart nb member (Option.some.inj same)

theorem repeated_apart {others : List OspfNeighbor} (apart : ∀ nb ∈ others, nb.ip ≠ net.ip)
    {d b : BitVec 32}
    (first : ipOf (rules.electDesignated
      (thisNb net net.designatedRouter net.backupRouter :: others)) = some d)
    (backup : ipOf (rules.electBackup
      (thisNb net net.designatedRouter net.backupRouter :: others)) = some b)
    (undeclared : net.designatedRouter ≠ net.ip)
    (again : ipOf (rules.electBackup (thisNb net d b :: others)) = some net.ip)
    (both : (ipOf (declaredDr (thisNb net d b :: others))).or
      (ipOf (rules.electBackup (thisNb net d b :: others))) = some net.ip) : False := by
  have notDr : d ≠ net.ip := fun isDr => electBackup_this_of_designated apart isDr again
  rw [declaredDr_this, if_neg notDr] at both
  have nobody : ipOf (declaredDr others) = none := by
    cases found : ipOf (declaredDr others) with
    | none => rfl
    | some c =>
      rw [found] at both
      exact absurd (found.trans both) (declaredDr_apart apart)
  -- nobody declares itself Designated Router, so the first pass copied the backup
  rw [electDesignated_ips, declaredDr_this, if_neg undeclared, nobody, backup] at first
  have same : b = d := Option.some.inj first
  subst same
  by_cases declares : net.backupRouter = net.ip
  · have alone : ¬ ∃ nb ∈ others, rules.designated nb = false ∧ rules.backup nb = true := by
      rintro ⟨nb, member, free, backs⟩
      have silent := ((electBackup_this_iff apart notDr notDr).mp again).1 nb member free
      rw [silent] at backs
      cases backs
    have free : rules.designated (thisNb net net.designatedRouter net.backupRouter) = false :=
      decide_eq_false undeclared
    have backs : rules.backup (thisNb net net.designatedRouter net.backupRouter) = true :=
      decide_eq_true declares
    have none : others.filter (fun r => !rules.designated r && rules.backup r) = [] := by
      refine List.filter_eq_nil_iff.mpr fun nb member both => alone ⟨nb, member, ?_⟩
      simpa using both
    rw [Rules.electBackup, List.filter_cons_of_pos (by rw [free, backs]; rfl), none] at backup
    exact notDr (Option.some.inj backup).symm
  · have won := (electBackup_this_iff apart undeclared declares).mpr
      ((electBackup_this_iff apart notDr notDr).mp again)
    rw [backup] at won
    exact notDr (Option.some.inj won)

theorem passes_of_backup (isLinked : linked net = true) (takesPart : net.routerPriority ≠ 0)
    {ip : BitVec 32} (elected : ipOf (elect net).bdrNb = some ip) :
    ∃ d b, ipOf (rules.electDesignated (thisNb net net.designatedRouter net.backupRouter ::
          net.neighbor.filter eligible)) = some d ∧
      ipOf (rules.electBackup (thisNb net net.designatedRouter net.backupRouter ::
          net.neighbor.filter eligible)) = some b ∧
      (ipOf (elect net).drNb, some ip) =
        if roleChanged net d b then
          let others := net.neighbor.filter eligible
          let bdr := ipOf (rules.electBackup
            (if net.designatedRouter = net.ip then others else thisNb net d b :: others))
          ((ipOf (declaredDr (thisNb net d b :: others))).or bdr, bdr)
        else (some d, some b) := by
  have ips := elect_ips isLinked takesPart
  rw [elected, attached_eq takesPart] at ips
  cases backup : ipOf (rules.electBackup
      (thisNb net net.designatedRouter net.backupRouter :: net.neighbor.filter eligible)) with
  | none =>
    rw [backup] at ips
    cases first : ipOf (rules.electDesignated (thisNb net net.designatedRouter net.backupRouter ::
        net.neighbor.filter eligible)) with
    | none =>
      rw [first] at ips
      cases (Prod.mk.inj ips).2
    | some d =>
      rw [first] at ips
      cases (Prod.mk.inj ips).2
  | some b =>
    obtain ⟨d, first⟩ := electDesignated_of_backup backup
    rw [first, backup] at ips
    exact ⟨d, b, first, rfl, ips⟩

/-- A router that takes part and did not hold both roles does not hold both after an
election. An address 0 stands for no router, and a router hears no Hello of its own. -/
theorem never_both (takesPart : net.routerPriority ≠ 0) (named : net.ip ≠ 0)
    (apart : ∀ nb ∈ net.neighbor, nb.ip ≠ net.ip)
    (before : ¬ (net.designatedRouter = net.ip ∧ net.backupRouter = net.ip)) :
    ¬ ((drbdrElection net).1 = net.ip ∧ (drbdrElection net).2 = net.ip) := by
  rintro ⟨isDr, isBdr⟩
  have isLinked : linked net = true := by
    refine Bool.and_eq_true_iff.mpr ⟨decide_eq_true takesPart, List.all_eq_true.mpr ?_⟩
    exact fun nb member => decide_eq_true (apart nb member)
  have apart' : ∀ nb ∈ net.neighbor.filter eligible, nb.ip ≠ net.ip :=
    fun nb member => apart nb (List.mem_filter.mp member).1
  rw [drbdrElection_eq] at isDr isBdr
  have bdr : ipOf (elect net).bdrNb = some net.ip :=
    (Option.getD_eq_iff.mp isBdr).resolve_right fun unset => named unset.2.symm
  obtain ⟨d, b, first, backup, passes⟩ := passes_of_backup isLinked takesPart bdr
  by_cases repeats : roleChanged net d b = true
  · rw [if_pos repeats] at passes
    obtain ⟨dr, again⟩ := Prod.mk.inj passes
    by_cases declared : net.designatedRouter = net.ip
    · rw [if_pos declared] at again
      exact electBackup_apart apart' again.symm
    · rw [if_neg declared] at again dr
      refine repeated_apart apart' first backup declared again.symm ?_
      rw [← dr]
      exact (Option.getD_eq_iff.mp isDr).resolve_right fun unset => declared unset.2
  · rw [if_neg repeats] at passes
    obtain ⟨dr, again⟩ := Prod.mk.inj passes
    rw [dr] at isDr
    have roles := not_not.mp (mt (roleChanged_iff net d b).mpr repeats)
    exact before ⟨roles.1.mp isDr, roles.2.mp (Option.some.inj again).symm⟩

/-- A router alone on a network, with the address 0 and the backup 10.0.0.2 of before. -/
def zeroAddress : OspfNetwork := ⟨0, 1, 0, 0x0a000002, [], 0x01010101⟩

/-- A neighbor with the router's own address. -/
def ownAddress : OspfNetwork where
  ip := 0x0a000001
  routerPriority := 1
  designatedRouter := 0
  backupRouter := 0
  neighbor := [⟨0x0a000001, 0x02020202, .twoWay, 1, 0, 0, 0, 0⟩]
  ospfRouterId := 0x01010101

/-- The backup that was not elected has the address 0; and a router whose address is that
of a neighbor is not linked into the list, where the neighbor takes both roles. -/
theorem both_roles_addresses :
    (zeroAddress.routerPriority ≠ 0 ∧
        ¬ (zeroAddress.designatedRouter = zeroAddress.ip ∧
          zeroAddress.backupRouter = zeroAddress.ip) ∧
        drbdrElection zeroAddress = (zeroAddress.ip, zeroAddress.ip)) ∧
      (ownAddress.routerPriority ≠ 0 ∧
        ¬ (ownAddress.designatedRouter = ownAddress.ip ∧
          ownAddress.backupRouter = ownAddress.ip) ∧
        drbdrElection ownAddress = (ownAddress.ip, ownAddress.ip)) := by
  decide

/-- The Designated Router is gone, and the router was its backup. -/
def successor : OspfNetwork where
  ip := 0x0a000001
  routerPriority := 1
  designatedRouter := 0x0a000003
  backupRouter := 0x0a000001
  neighbor := [⟨0x0a000002, 0x02020202, .full, 2, 0x0a000003, 0x0a000001, 0, 0⟩]
  ospfRouterId := 0x01010101

theorem never_both_successor : drbdrElection successor = (0x0a000001, 0x0a000002) ∧
    ¬ ((drbdrElection successor).1 = successor.ip ∧
      (drbdrElection successor).2 = successor.ip) :=
  ⟨by decide, never_both (by decide) (by decide) (by decide) (by decide)⟩

end Both

section Stable

/-- The roles are held by routers of the list that declare them, and nobody else declares
one. -/
structure Held (net : OspfNetwork) (dr bdr : BitVec 32) : Prop where
  apart : dr ≠ bdr
  known : net.designatedRouter = dr ∧ net.backupRouter = bdr
  drListed : ∃ nb ∈ listed net, eligible nb = true ∧ nb.ip = dr
  bdrListed : ∃ nb ∈ listed net, eligible nb = true ∧ nb.ip = bdr
  designated : ∀ nb ∈ listed net, eligible nb = true →
    (rules.designated nb = true ↔ nb.ip = dr)
  backup : ∀ nb ∈ listed net, eligible nb = true → nb.ip ≠ dr →
    (rules.backup nb = true ↔ nb.ip = bdr)

variable {net : OspfNetwork} {dr bdr : BitVec 32}

theorem argmax_ip {routers : List OspfNeighbor} {ip : BitVec 32} (some : routers ≠ [])
    (all : ∀ nb ∈ routers, nb.ip = ip) : ipOf (routers.argmax rules.rank) = Option.some ip := by
  cases best : routers.argmax rules.rank with
  | none => exact absurd (List.argmax_eq_none.mp best) some
  | some nb => exact congrArg Option.some (all nb (List.argmax_mem best))

theorem Held.elected (held : Held net dr bdr) :
    ipOf (rules.electDesignated ((listed net).filter eligible)) = some dr ∧
      ipOf (rules.electBackup ((listed net).filter eligible)) = some bdr := by
  obtain ⟨d, hd, partD, ipD⟩ := held.drListed
  obtain ⟨b, hb, partB, ipB⟩ := held.bdrListed
  have backup : ipOf (rules.electBackup ((listed net).filter eligible)) = some bdr := by
    have free : rules.designated b = false := by
      rw [← Bool.not_eq_true, held.designated b hb partB, ipB]
      exact held.apart.symm
    have backs : rules.backup b = true :=
      (held.backup b hb partB (ipB ▸ held.apart.symm)).mpr ipB
    have declared : ipOf ((((listed net).filter eligible).filter
        (fun r => !rules.designated r && rules.backup r)).argmax rules.rank) = some bdr := by
      refine argmax_ip (List.ne_nil_of_mem (List.mem_filter.mpr
        ⟨List.mem_filter.mpr ⟨hb, partB⟩, by rw [free, backs]; rfl⟩)) fun nb member => ?_
      obtain ⟨inside, claims⟩ := List.mem_filter.mp member
      obtain ⟨hnb, part⟩ := List.mem_filter.mp inside
      obtain ⟨notDr, isBdr⟩ := Bool.and_eq_true_iff.mp claims
      have other : nb.ip ≠ dr := by
        intro same
        rw [(held.designated nb hnb part).mpr same] at notDr
        cases notDr
      exact (held.backup nb hnb part other).mp isBdr
    rw [ipOf] at declared
    rw [Rules.electBackup, ipOf, Option.map_or, declared]
    rfl
  refine ⟨?_, backup⟩
  have claims : rules.designated d = true := (held.designated d hd partD).mpr ipD
  have declared : ipOf (declaredDr ((listed net).filter eligible)) = some dr := by
    refine argmax_ip (List.ne_nil_of_mem (List.mem_filter.mpr
      ⟨List.mem_filter.mpr ⟨hd, partD⟩, claims⟩)) fun nb member => ?_
    obtain ⟨inside, isDr⟩ := List.mem_filter.mp member
    obtain ⟨hnb, part⟩ := List.mem_filter.mp inside
    exact (held.designated nb hnb part).mp isDr
  rw [electDesignated_ips, declared]
  rfl

/-- Where the roles are held, whatever the priorities and identifiers, the election keeps
them and no neighbor is sent AdjOK. -/
theorem no_preemption (held : Held net dr bdr) :
    drbdrElection net = (net.designatedRouter, net.backupRouter) ∧ adjOk net = [] := by
  obtain ⟨known, knownB⟩ := held.known
  obtain ⟨hdr, hbdr⟩ := held.elected
  obtain ⟨firstB, firstD⟩ := first_ips (listed net)
  rw [hbdr] at firstB
  rw [hdr] at firstD
  have kept : drbdrElection net = (net.designatedRouter, net.backupRouter) := by
    have once : elect net = step2and3 ((listed net).map initSums) := by
      unfold elect
      dsimp only
      rw [show (if linked net then thisNb net net.designatedRouter net.backupRouter :: net.neighbor
        else net.neighbor) = listed net from rfl]
      cases foundD : (step2and3 ((listed net).map initSums)).drNb with
      | none => rfl
      | some d =>
        cases foundB : (step2and3 ((listed net).map initSums)).bdrNb with
        | none => rfl
        | some b =>
          rw [foundD] at firstD
          rw [foundB] at firstB
          have sameD : d.ip = net.designatedRouter := (Option.some.inj firstD).trans known.symm
          have sameB : b.ip = net.backupRouter := (Option.some.inj firstB).trans knownB.symm
          have unchanged : ¬ roleChanged net d.ip b.ip = true := by
            rw [roleChanged_iff, not_not, sameD, sameB]
            exact ⟨Iff.rfl, Iff.rfl⟩
          exact if_neg fun both => unchanged both.2
    rw [drbdrElection_eq, once, firstB, firstD, known, knownB]
    rfl
  refine ⟨kept, ?_⟩
  rw [adjOk, changed_eq, kept]
  simp

/-- The router is neither Designated Router nor backup, and outranks both. -/
def settled : OspfNetwork where
  ip := 0x0a000001
  routerPriority := 9
  designatedRouter := 0x0a000002
  backupRouter := 0x0a000003
  neighbor := [⟨0x0a000002, 0x02020202, .full, 1, 0x0a000002, 0x0a000003, 0, 0⟩,
    ⟨0x0a000003, 0x03030303, .full, 2, 0x0a000002, 0x0a000003, 0, 0⟩]
  ospfRouterId := 0x09090909

theorem no_preemption_settled :
    drbdrElection settled = (settled.designatedRouter, settled.backupRouter) ∧
      adjOk settled = [] :=
  have held : Held settled 0x0a000002 0x0a000003 :=
    ⟨by decide, by decide, by decide, by decide, by decide, by decide⟩
  no_preemption held

end Stable

end DrRoles
