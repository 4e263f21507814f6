import Rcp100.AclConfig

/-!
# Access lists that are saved and loaded again

Which entries come back when the printed lines are executed on an empty table.
-/

namespace AclReload

open AccessLists AclWords AclReading AclTable AclEntries AclConfig SpecialTokens IpAddress
  PrintedNumbers
open CliParser (wordsOf)

section Lost

variable {env : Env} {acl : Acl} {e : AclExtended} {items : List Item} {words : List Word}
  {captured : List (Token × Word)}

/-- There is no command for the line: with ports and an interface there is `permit` only. -/
def Unspoken (acl : Acl) : Prop :=
  match acl.data with
  | .extended e => acl.action = .deny ∧ HasPorts e.protocol ∧ e.outInterface ≠ []
  | _ => False

theorem not_source_word {source : Token} {word : Word} (isSource : source ∈ [Token.cidrnet, .any])
    (isWord : word = Token.tcp.text ∨ word = Token.udp.text) :
    accepts env source word = false := by
  cases accepted : accepts env source word with
  | false => rfl
  | true =>
    have kinds : source = .any ∨ source = .cidrnet ∨ source = .cidrnetDestination := by
      simp only [List.mem_cons, List.not_mem_nil, or_false] at isSource
      rcases isSource with rfl | rfl
      · exact .inr (.inl rfl)
      · exact .inl rfl
    obtain ⟨-, -, notTcp, notUdp, -⟩ := noColon_of_source kinds accepted
    rcases isWord with rfl | rfl
    · exact absurd rfl notTcp
    · exact absurd rfl notUdp

/-- A destination is neither a number nor `out-interface`. -/
theorem not_destination_word {destination : Token} {word : Word}
    (isDestination : destination ∈ [Token.cidrnetDestination, .any])
    (isWord : isnum word = true ∨ word = Token.outInterface.text) :
    accepts env destination word = false := by
  cases accepted : accepts env destination word with
  | false => rfl
  | true =>
    simp only [List.mem_cons, List.not_mem_nil, or_false] at isDestination
    rcases isDestination with rfl | rfl
    · rw [accepts_network (.inr rfl)] at accepted
      obtain ⟨ip, bits, net⟩ := isNetwork_of_chkCidrnet accepted
      rcases isWord with number | out
      · rw [net.not_isnum] at number
        cases number
      · exact absurd out (net.ne (by decide))
    · cases (accepts_word rfl).mp accepted
      rcases isWord with number | out
      · revert number
        decide
      · revert out
        decide

theorem action_of_head {action : Token} {tail : List Item}
    (isAction : action = .deny ∨ action = .permit)
    (taken : captures env (extendedHead action ++ tail) (printHead acl ++ words) = some captured) :
    action = actionToken acl.action := by
  obtain ⟨no, number, mac, rest, back, shape, -, isNo, -⟩ := captures_head isAction taken
  cases no with
  | some w =>
    have first : Token.accessList.text = w := (List.cons.inj shape).1
    rw [isNo w rfl] at first
    exact absurd first (by decide)
  | none =>
    have same : Action.text acl.action = action.text :=
      (List.cons.inj (List.cons.inj (List.cons.inj shape).2).2).1
    revert same
    cases acl.action <;> rcases isAction with rfl | rfl <;> decide

/-- A command that takes a deny line is a deny command, and takes the conditions behind the
head. -/
theorem captures_behind (number : 100 ≤ acl.listNumber.toNat ∧ acl.listNumber.toNat ≤ 199)
    (fits : ExtendedFits env e) (deny : acl.action = .deny) {action : Token} {tail : List Item}
    (isAction : action = .deny ∨ action = .permit) {captured : List (Token × Word)}
    (taken : captures env (extendedHead action ++ tail)
      (printHead acl ++ ((nonEmpty (macText e.mac)).toList ++ conditionsText e)) = some captured) :
    action = .deny ∧ ∃ back, captures env tail (conditionsText e) = some back := by
  have same := action_of_head isAction taken
  subst same
  refine ⟨by rw [deny]; rfl, Option.isSome_iff_exists.mp ?_⟩
  rw [← isSome_extendedHead number fits, taken]
  rfl

theorem captures_protocolNumber {source : Token} {word : Word} {words : List Word}
    (isSource : source ∈ [Token.cidrnet, .any])
    (isWord : word = Token.tcp.text ∨ word = Token.udp.text) (items : List Item) :
    captures env (opt .protocolNumber :: req source :: items) (word :: words) = none := by
  have notNumber : isnum word = false := by
    rcases isWord with rfl | rfl <;> decide
  cases taken : captures env (opt .protocolNumber :: req source :: items) (word :: words) with
  | none => rfl
  | some captured =>
    exfalso
    obtain ⟨first, rest, back, isRest, -, isNumber, taken⟩ := captures_opt taken
    cases first with
    | some w =>
      cases (List.cons.inj isRest).1
      have rejected : accepts env .protocolNumber _ = false := not_number_of_not_isnum rfl notNumber
      rw [isNumber _ rfl] at rejected
      cases rejected
    | none =>
      rw [Option.toList_none, List.nil_append] at isRest
      rw [← isRest] at taken
      obtain ⟨w, rest, back, same, -, accepted, -⟩ := captures_req taken
      cases (List.cons.inj same).1
      rw [not_source_word isSource isWord] at accepted
      cases accepted

theorem captures_port {destination : Token} {words : List Word}
    (isDestination : destination ∈ [Token.cidrnetDestination, .any]) (port : BitVec 16)
    (items : List Item) :
    captures env (opt .port :: req destination :: items)
      ((nonEmpty (printUnless 0 port.toNat)).toList ++ Token.outInterface.text :: words) =
        none := by
  cases taken : captures env (opt .port :: req destination :: items)
      ((nonEmpty (printUnless 0 port.toNat)).toList ++ Token.outInterface.text :: words) with
  | none => rfl
  | some captured =>
    exfalso
    obtain ⟨first, rest, back, isRest, -, isPort, taken⟩ := captures_opt taken
    obtain ⟨d, rest, back, rfl, -, accepted, -⟩ := captures_req taken
    have isNumber : isnum d = true ∨ d = Token.outInterface.text := by
      have printed := (port_printed port).2
      generalize nonEmpty (printUnless 0 port.toNat) = text at isRest printed
      cases text with
      | none =>
        cases first with
        | none => exact .inr (List.cons.inj isRest).1.symm
        | some p =>
          cases (List.cons.inj isRest).1
          have rejected : accepts env .port _ = false := not_port_of_not_isnum (.inl rfl)
            (show isnum Token.outInterface.text = false by decide)
          rw [isPort _ rfl] at rejected
          cases rejected
      | some n =>
        cases first with
        | none => exact .inl ((List.cons.inj isRest).1 ▸ printed n rfl)
        | some p => exact .inr (List.cons.inj (List.cons.inj isRest).2).1.symm
    rw [not_destination_word isDestination isNumber] at accepted
    cases accepted

theorem captures_unspoken (isData : acl.data = .extended e) (number : 100 ≤ acl.listNumber.toNat ∧
      acl.listNumber.toNat ≤ 199) (fits : ExtendedFits env e) (unspoken : Unspoken acl)
    (member : items ∈ extendedCommands) :
    captures env items ((printExtendedAclEntry acl e).filter (· ≠ [])) = none := by
  rw [Unspoken, isData] at unspoken
  obtain ⟨deny, ports, named⟩ := unspoken
  obtain ⟨protocol, isTcp, isText⟩ := accepts_protocolText ports
  have isWord : protocol.text = Token.tcp.text ∨ protocol.text = Token.udp.text :=
    isTcp.imp (congrArg Token.text) (congrArg Token.text)
  have shape : conditionsText e = protocol.text :: printNetwork e.ip e.maskBits ::
      ((nonEmpty (printUnless 0 e.port.toNat)).toList ++ Token.outInterface.text ::
        e.outInterface :: ((nonEmpty (printUnless 0 e.destPort.toNat)).toList ++
          (nonEmpty (constring e.constate)).toList)) := by
    rw [conditionsText, isText, destinationText, if_pos named]
    rfl
  rw [filter_extended]
  cases taken : captures env items
      (printHead acl ++ ((nonEmpty (macText e.mac)).toList ++ conditionsText e)) with
  | none => rfl
  | some captured =>
    exfalso
    simp only [extendedCommands, List.mem_append, protocolCommands, portCommands,
      portInterfaceCommands, List.mem_flatMap, List.mem_map] at member
    rcases member with (⟨action, isAction, source, isSource, destination, isDestination, rfl⟩ |
      ⟨action, isAction, token, isToken, source, isSource, destination, isDestination, rfl⟩) |
      ⟨token, isToken, source, isSource, rfl⟩
    · simp only [List.append_assoc] at taken
      obtain ⟨-, back, taken⟩ := captures_behind number fits deny (by simpa using isAction) taken
      rw [shape] at taken
      cases (captures_protocolNumber isSource isWord _).symm.trans taken
    · obtain ⟨-, back, taken⟩ := captures_behind number fits deny (by simpa using isAction) taken
      rw [shape] at taken
      obtain ⟨w, rest, back, same, -, -, taken⟩ := captures_req taken
      rw [← (List.cons.inj same).2] at taken
      obtain ⟨w, rest, back, same, -, -, taken⟩ := captures_req taken
      rw [← (List.cons.inj same).2] at taken
      cases (captures_port isDestination e.port _).symm.trans taken
    · obtain ⟨impossible, -⟩ := captures_behind number fits deny (.inr rfl) taken
      cases impossible

end Lost

section Entries

variable {env : Env} {acl : Acl} {t : Table} {words : List Word} {handler : Handler}

/-- The line of an entry. -/
def lineOf (acl : Acl) : List Word :=
  match acl.data with
  | .simple _ => printStandardAclEntry acl
  | .extended e => printExtendedAclEntry acl e
  | .icmp e => printIcmpAclEntry acl e

def rereadAcl (acl : Acl) : Acl := { acl with data := reread acl.data }

theorem exec_spoken (spoken : Spoken env words handler) (entry : handler ≠ .noAcl)
    (read : handler.read words = .ok (false, acl)) :
    exec env t words = after t (processAcl t false acl words) := by
  obtain ⟨items, member, taken⟩ := spoken
  obtain ⟨captured, taken⟩ := Option.isSome_iff_exists.mp taken
  rw [exec_command member taken, run_of_read entry read]

theorem exec_lineOf (fits : Fits env acl) (spoken : ¬ Unspoken acl) :
    exec env t ((lineOf acl).filter (· ≠ [])) =
      after t (processAcl t false (rereadAcl acl) ((lineOf acl).filter (· ≠ []))) := by
  rw [lineOf]
  cases isData : acl.data with
  | simple e =>
    have net := fits
    rw [Fits, isData] at net
    simp only [filter_standard]
    exact exec_spoken (spoken_standard isData fits) (by decide) (readStandard_printed isData net.2)
  | extended e =>
    have inside := fits
    rw [Fits, isData] at inside
    refine @exec_spoken _ _ _ _ .extended ?_ (by decide) (readExtended_printed isData inside.2)
    by_cases ports : HasPorts e.protocol
    · refine spoken_ports isData fits ports fun named => ?_
      cases action : acl.action with
      | permit => rfl
      | deny =>
        refine absurd ?_ spoken
        rw [Unspoken, isData]
        exact ⟨action, ports, named⟩
    · exact spoken_protocol isData fits ports
  | icmp e =>
    have inside := fits
    rw [Fits, isData] at inside
    exact exec_spoken (spoken_icmp isData fits) (by decide) (readIcmp_printed isData inside.2)

theorem accessList_of_command : ∀ c ∈ commands, req .accessList ∈ c.1 := by
  decide +kernel

theorem exec_other (absent : Token.accessList.text ∉ words) : exec env t words = t := by
  cases found : handlerOf env words with
  | none => rw [exec, found]
  | some handler =>
    obtain ⟨items, captured, member, taken⟩ := command_of_handlerOf found
    obtain ⟨word, isWord⟩ := Option.isSome_iff_exists.mp
      (captures_required taken (accessList_of_command _ member))
    obtain ⟨inside, accepted, -⟩ := wordOf_sound taken isWord
    rw [(accepts_word rfl).mp accepted] at inside
    exact absurd inside absent

theorem kindOf_printed {e : AclExtended} (number : 100 ≤ acl.listNumber.toNat ∧
      acl.listNumber.toNat ≤ 199) (fits : ExtendedFits env e) :
    kindOf ((printExtendedAclEntry acl e).filter (· ≠ [])) = .extended := by
  obtain ⟨w, args, shape, noColon, notIcmp⟩ := conditionsText_head fits
  have large : ¬ (atoi (decimal acl.listNumber.toNat)).toNat < 100 := by
    rw [atoi_decimal (by omega), BitVec.toNat_ofNat]
    omega
  have head (rest : List Word) : (if (printHead acl ++ rest).head? = some Token.no.text then
      (printHead acl ++ rest).drop 1 else printHead acl ++ rest) = printHead acl ++ rest :=
    drop_no none forall_mem_none _
  have isMac := (@macText_spec env _ fits.mac).1
  rw [filter_extended, shape, kindOf, head]
  generalize nonEmpty (macText e.mac) = mac at isMac
  cases mac with
  | none =>
    simp only [printHead, Option.toList_none, List.nil_append, List.cons_append, large, if_false,
      noColon, notIcmp]
  | some m =>
    have colon := colon_of_mac (isMac m rfl).1
    have other : ¬ some w = some Token.icmp.text := fun same => notIcmp (Option.some.inj same)
    simp only [printHead, Option.toList_some, List.nil_append, List.cons_append, large, if_false,
      colon, if_true, List.head?_cons, other]

theorem exec_unspoken (fits : Fits env acl) (unspoken : Unspoken acl) :
    exec env t ((lineOf acl).filter (· ≠ [])) = t := by
  cases isData : acl.data with
  | simple e =>
    rw [Unspoken, isData] at unspoken
    exact absurd unspoken id
  | icmp e =>
    rw [Unspoken, isData] at unspoken
    exact absurd unspoken id
  | extended e =>
    rw [Fits, isData] at fits
    obtain ⟨number, fits⟩ := fits
    rw [lineOf, isData]
    simp only
    cases found : handlerOf env ((printExtendedAclEntry acl e).filter (· ≠ [])) with
    | none => rw [exec, found]
    | some handler =>
      obtain ⟨items, captured, member, taken⟩ := command_of_handlerOf found
      have kind := kindOf_printed number fits
      rw [kindOf_command member taken] at kind
      subst kind
      cases commandOf_mem member with
      | extended inside =>
        rw [captures_unspoken isData number fits unspoken inside] at taken
        cases taken

theorem blankFree_lineOf (fits : Fits env acl) : ∀ word ∈ lineOf acl, ' ' ∉ word := by
  have action : ' ' ∉ Action.text acl.action := by
    cases acl.action <;> decide
  have head : ∀ word ∈ printHead acl, ' ' ∉ word := by
    simp only [printHead, List.forall_mem_cons]
    exact ⟨by decide, blank_decimal _, action, List.forall_mem_nil _⟩
  have number (n : Nat) : ' ' ∉ printUnless 0 n := by
    rw [printUnless]
    split_ifs
    · exact List.not_mem_nil
    · exact blank_decimal n
  have mac {bytes : List (BitVec 8)} (six : bytes.length = 6) : ' ' ∉ macText bytes := by
    rw [macText]
    split_ifs
    · exact List.not_mem_nil
    · exact blank_printMac six
  rw [lineOf]
  cases isData : acl.data with
  | simple e =>
    simp only [printStandardAclEntry, List.forall_mem_append, List.forall_mem_cons]
    exact ⟨head, blank_printNetwork _ _, List.forall_mem_nil _⟩
  | icmp e =>
    rw [Fits, isData] at fits
    simp only [printIcmpAclEntry, List.forall_mem_append, List.forall_mem_cons]
    exact ⟨head, mac (by rw [fits.2.mac]; rfl), by decide, blank_printNetwork _ _,
      blank_printNetwork _ _, number _, List.forall_mem_nil _⟩
  | extended e =>
    rw [Fits, isData] at fits
    have protocol : ' ' ∉ protocolText e.protocol := by
      rw [protocolText]
      split_ifs
      · exact List.not_mem_nil
      · decide
      · decide
      · exact blank_decimal _
    have destination : ∀ word ∈ destinationText e, ' ' ∉ word := by
      rw [destinationText]
      by_cases named : e.outInterface ≠ []
      · rw [if_pos named]
        simp only [List.forall_mem_cons]
        exact ⟨by decide, (fits.2.interface named).2.1, List.forall_mem_nil _⟩
      · rw [if_neg named]
        simp only [List.forall_mem_cons]
        exact ⟨blank_printNetwork _ _, List.forall_mem_nil _⟩
    simp only [printExtendedAclEntry, List.forall_mem_append, List.forall_mem_cons]
    exact ⟨⟨⟨head, mac fits.2.mac, protocol, blank_printNetwork _ _, number _,
      List.forall_mem_nil _⟩, destination⟩, number _, (constring_spec fits.2.states).2.2.1,
      List.forall_mem_nil _⟩

end Entries

section Reload

variable {env : Env} {acl : Acl} {t : Table}

/-- A network that is not printed as `any`, or is `any`. -/
def PlainNet (ip : BitVec 32) (bits : Nat) : Prop := ip = 0 → bits = 0

/-- The entries that come back: the loops over the lists leave out the last number of each kind,
`any` stands for all masks, and there must be a command for the line. -/
def Kept (acl : Acl) : Prop :=
  acl.listNumber ≠ 99 ∧ acl.listNumber ≠ 199 ∧
  match acl.data with
  | .simple e => PlainNet e.ip e.maskBits
  | .extended e => PlainNet e.ip e.maskBits ∧ PlainNet e.destIp e.destMaskBits ∧
    ¬ (acl.action = .deny ∧ HasPorts e.protocol ∧ e.outInterface ≠ [])
  | .icmp e => PlainNet e.ip e.maskBits ∧ PlainNet e.destIp e.destMaskBits

theorem rereadNet_plain {ip : BitVec 32} {bits : Nat} (plain : PlainNet ip bits) :
    (rereadNet ip bits).2 = bits := by
  rw [rereadNet]
  by_cases zero : ip = 0
  · simp only [zero, if_true, plain zero]
  · simp only [zero, if_false]

theorem plainNet_reread (ip : BitVec 32) (bits : Nat) : PlainNet ip (rereadNet ip bits).2 := by
  intro zero
  rw [rereadNet]
  simp only [zero, if_true]

theorem Kept.spoken (kept : Kept acl) : ¬ Unspoken acl := by
  obtain ⟨-, -, data⟩ := kept
  rw [Unspoken]
  cases isData : acl.data with
  | simple e => exact id
  | icmp e => exact id
  | extended e =>
    rw [isData] at data
    exact data.2.2

theorem Kept.reread (kept : Kept acl) : rereadAcl acl = acl := by
  obtain ⟨-, -, data⟩ := kept
  obtain ⟨isData, action, number⟩ := acl
  rw [rereadAcl]
  cases isData with
  | simple e =>
    simp only [AclConfig.reread, rereadNet_plain data]
  | extended e =>
    simp only [AclConfig.reread, rereadNet_plain data.1, rereadNet_plain data.2.1]
  | icmp e =>
    simp only [AclConfig.reread, rereadNet_plain data.1, rereadNet_plain data.2]

theorem kept_reread (spoken : ¬ Unspoken acl) (printed : acl.listNumber ≠ 99 ∧
    acl.listNumber ≠ 199) : Kept (rereadAcl acl) := by
  refine ⟨printed.1, printed.2, ?_⟩
  rw [rereadAcl]
  cases isData : acl.data with
  | simple e => exact plainNet_reread _ _
  | extended e =>
    rw [Unspoken, isData] at spoken
    exact ⟨plainNet_reread _ _, plainNet_reread _ _, spoken⟩
  | icmp e => exact ⟨plainNet_reread _ _, plainNet_reread _ _⟩

/-- The entries in the order of their lines. -/
def printed (t : Table) : List Acl :=
  (List.range' 1 98).flatMap (listOf t) ++ (List.range' 100 99).flatMap (listOf t)

theorem mem_listOf {number : Nat} : acl ∈ listOf t number ↔
    acl ∈ acls t ∧ acl.listNumber.toNat = number := by
  rw [listOf, List.mem_append, entriesOf, entriesOf, List.mem_filter, List.mem_filter,
    decide_eq_true_eq, decide_eq_true_eq]
  cases action : acl.action <;> simp

theorem mem_printed (fits : ∀ a ∈ acls t, Fits env a) :
    acl ∈ printed t ↔ acl ∈ acls t ∧ acl.listNumber ≠ 99 ∧ acl.listNumber ≠ 199 := by
  have number (n : Nat) (small : n < 256) : acl.listNumber ≠ BitVec.ofNat 8 n ↔
      acl.listNumber.toNat ≠ n := by
    rw [ne_eq, ← BitVec.toNat_inj, BitVec.toNat_ofNat, Nat.mod_eq_of_lt small]
  have n99 := number 99 (by decide)
  have n199 := number 199 (by decide)
  simp only [printed, List.mem_append, List.mem_flatMap, mem_listOf, List.mem_range'_1]
  constructor
  · rintro (⟨n, bounds, member, same⟩ | ⟨n, bounds, member, same⟩)
    · exact ⟨member, n99.mpr (by omega), n199.mpr (by omega)⟩
    · exact ⟨member, n99.mpr (by omega), n199.mpr (by omega)⟩
  · rintro ⟨member, not99, not199⟩
    have not99 := n99.mp not99
    have not199 := n199.mp not199
    have isFit := fits acl member
    rw [Fits] at isFit
    cases isData : acl.data with
    | simple e =>
      rw [isData] at isFit
      have bounds := isFit.1
      exact .inl ⟨_, by omega, member, rfl⟩
    | extended e =>
      rw [isData] at isFit
      have bounds := isFit.1
      exact .inr ⟨_, by omega, member, rfl⟩
    | icmp e =>
      rw [isData] at isFit
      have bounds := isFit.1
      exact .inr ⟨_, by omega, member, rfl⟩

theorem configAcl_eq (fits : ∀ a ∈ acls t, Fits env a) :
    configAcl t = (printed t).map (fun a => [' '].intercalate (lineOf a)) ++ ["!".toList] := by
  have standard : (List.range' 1 98).flatMap (fun n => (listOf t n).map printStandardAclEntry) =
      ((List.range' 1 98).flatMap (listOf t)).map lineOf := by
    rw [List.map_flatMap]
    refine List.flatMap_congr fun n bounds => List.map_congr_left fun a member => ?_
    obtain ⟨inside, same⟩ := mem_listOf.mp member
    have isFit := fits a inside
    rw [List.mem_range'_1] at bounds
    rw [Fits] at isFit
    rw [lineOf]
    cases isData : a.data with
    | simple e => rfl
    | extended e =>
      rw [isData] at isFit
      have large := isFit.1
      omega
    | icmp e =>
      rw [isData] at isFit
      have large := isFit.1
      omega
  have typed : (List.range' 100 99).flatMap (fun n => (listOf t n).filterMap printTyped) =
      ((List.range' 100 99).flatMap (listOf t)).map lineOf := by
    rw [List.map_flatMap]
    refine List.flatMap_congr fun n bounds => ?_
    rw [← List.filterMap_eq_map]
    refine List.filterMap_congr fun a member => ?_
    obtain ⟨inside, same⟩ := mem_listOf.mp member
    have isFit := fits a inside
    rw [List.mem_range'_1] at bounds
    rw [Fits] at isFit
    rw [printTyped, Function.comp_apply, lineOf]
    cases isData : a.data with
    | simple e =>
      rw [isData] at isFit
      have small := isFit.1
      omega
    | extended e => rfl
    | icmp e => rfl
  rw [configAcl, standard, typed, ← List.map_append, List.map_map]
  rfl

end Reload

section Runs

variable {env : Env} {acl : Acl} {t : Table} {entries : List Acl}

/-- The printed lines, executed one after the other. -/
def load (env : Env) (entries : List Acl) (t : Table) : Table :=
  run env (entries.map fun a => [' '].intercalate (lineOf a)) t

theorem load_cons (fits : Fits env acl) (entries : List Acl) (t : Table) :
    load env (acl :: entries) t =
      load env entries (exec env t ((lineOf acl).filter (· ≠ []))) := by
  rw [load, load, run, run, List.map_cons, List.foldl_cons, execLine,
    wordsOf_intercalate (blankFree_lineOf fits)]

theorem exec_kept {old : Table} (ok : Ok t) (isOld : Ok old) (part : ∀ a ∈ acls t, a ∈ acls old)
    (fits : Fits env acl) (kept : Kept acl) (member : acl ∈ acls old) :
    Ok (exec env t ((lineOf acl).filter (· ≠ []))) ∧
      ∀ a, a ∈ acls (exec env t ((lineOf acl).filter (· ≠ []))) ↔ a ∈ acls t ∨ a = acl := by
  rw [exec_lineOf fits kept.spoken, kept.reread]
  rcases processAcl_cases ok false acl ((lineOf acl).filter (· ≠ [])) with
    ⟨t', done, ok', effect⟩ | ⟨-, absent, size, -⟩
  · simp only [done]
    refine ⟨ok', fun a => (effect a).trans ?_⟩
    rw [if_neg Bool.false_ne_true]
  · have larger : (acl :: acls t).length ≤ (acls old).length := by
      refine (List.subperm_of_subset (List.nodup_cons.mpr ⟨absent, ok.nodup⟩)
        fun a inside => ?_).length_le
      rcases List.mem_cons.mp inside with rfl | inside
      · exact member
      · exact part a inside
    have most := acls_length_le isOld
    rw [List.length_cons] at larger
    omega

theorem load_kept {old : Table} (isOld : Ok old) (ok : Ok t)
    (part : ∀ a ∈ acls t, a ∈ acls old)
    (all : ∀ a ∈ entries, Fits env a ∧ Kept a ∧ a ∈ acls old) :
    ∀ a, a ∈ acls (load env entries t) ↔ a ∈ acls t ∨ a ∈ entries := by
  induction entries generalizing t with
  | nil =>
    intro a
    simp only [List.not_mem_nil, or_false]
    rfl
  | cons acl entries ih =>
    obtain ⟨fits, kept, member⟩ := all acl List.mem_cons_self
    obtain ⟨ok', effect⟩ := exec_kept ok isOld part fits kept member
    intro a
    rw [load_cons fits, ih ok' (fun b inside => ?_)
      fun b inside => all b (List.mem_cons_of_mem acl inside), effect, List.mem_cons, or_assoc]
    rcases (effect b).mp inside with inside | rfl
    · exact part b inside
    · exact member

theorem exec_brings (ok : Ok t) (fits : Fits env acl)
    (printed : acl.listNumber ≠ 99 ∧ acl.listNumber ≠ 199) :
    Ok (exec env t ((lineOf acl).filter (· ≠ []))) ∧
      ∀ a ∈ acls (exec env t ((lineOf acl).filter (· ≠ []))), a ∈ acls t ∨ Kept a := by
  refine ⟨exec_ok ok _, fun a member => ?_⟩
  by_cases unspoken : Unspoken acl
  · rw [exec_unspoken fits unspoken] at member
    exact .inl member
  · rw [exec_lineOf fits unspoken] at member
    rcases processAcl_cases ok false (rereadAcl acl) ((lineOf acl).filter (· ≠ [])) with
      ⟨t', done, -, effect⟩ | ⟨-, -, -, full⟩
    · simp only [done] at member
      have origin := (effect a).mp member
      rw [if_neg Bool.false_ne_true] at origin
      refine origin.imp_right fun same => ?_
      rw [same]
      exact kept_reread unspoken printed
    · simp only [full] at member
      exact .inl member

theorem load_brings (ok : Ok t) (all : ∀ a ∈ entries, Fits env a ∧ a.listNumber ≠ 99 ∧
    a.listNumber ≠ 199) : ∀ a ∈ acls (load env entries t), a ∈ acls t ∨ Kept a := by
  induction entries generalizing t with
  | nil => exact fun a member => .inl member
  | cons acl entries ih =>
    obtain ⟨fits, isPrinted⟩ := all acl List.mem_cons_self
    obtain ⟨ok', brings⟩ := exec_brings ok fits isPrinted
    intro a member
    rw [load_cons fits] at member
    rcases ih ok' (fun b inside => all b (List.mem_cons_of_mem acl inside)) a member with old | kept
    · exact brings a old
    · exact .inr kept

theorem run_configAcl (fits : ∀ a ∈ acls t, Fits env a) (start : Table) :
    run env (configAcl t) start = load env (printed t) start := by
  have last (t : Table) : execLine env t "!".toList = t := exec_other (by decide)
  rw [configAcl_eq fits, run, List.foldl_append, List.foldl_cons, List.foldl_nil, last]
  rfl

theorem reload_iff (ok : Ok t) (fits : ∀ a ∈ acls t, Fits env a) :
    (∀ a, a ∈ acls (run env (configAcl t) emptyTable) ↔ a ∈ acls t) ↔
      ∀ a ∈ acls t, Kept a := by
  have empty (a : Acl) : a ∉ acls emptyTable := acls_emptyTable ▸ List.not_mem_nil
  rw [run_configAcl fits]
  constructor
  · intro same a member
    have all : ∀ a ∈ printed t, Fits env a ∧ a.listNumber ≠ 99 ∧ a.listNumber ≠ 199 := by
      intro b inside
      obtain ⟨inside, isPrinted⟩ := (mem_printed fits).mp inside
      exact ⟨fits b inside, isPrinted⟩
    exact (load_brings emptyTable_ok all a ((same a).mpr member)).resolve_left (empty a)
  · intro kept a
    have inside (b : Acl) : b ∈ printed t ↔ b ∈ acls t :=
      (mem_printed fits).trans ⟨fun both => both.1,
        fun member => ⟨member, (kept b member).1, (kept b member).2.1⟩⟩
    rw [load_kept ok emptyTable_ok (fun b member => absurd member (empty b))
      fun b member => ⟨fits b ((inside b).mp member), kept b ((inside b).mp member),
        (inside b).mp member⟩, inside]
    exact ⟨fun both => both.resolve_left (empty a), .inr⟩

theorem run_append (env : Env) (before behind : List (List Char)) (t : Table) :
    run env (before ++ behind) t = run env behind (run env before t) := List.foldl_append

theorem run_fits (env : Env) (lines : List (List Char))
    (plain : ∀ line ∈ lines, MacPlain env (wordsOf line)) :
    Ok (run env lines emptyTable) ∧ ∀ a ∈ acls (run env lines emptyTable), Fits env a := by
  induction lines using List.reverseRecOn with
  | nil =>
    refine ⟨emptyTable_ok, fun a member => ?_⟩
    exact absurd member (acls_emptyTable ▸ List.not_mem_nil)
  | append_singleton lines line ih =>
    obtain ⟨ok, fits⟩ := ih fun l member => plain l (List.mem_append_left _ member)
    rw [run_append]
    refine ⟨exec_ok ok _, fits_exec ok (plain line (List.mem_append_right _ List.mem_cons_self))
      (fun word member => (wordsFrom_blankFree member).1) fits⟩

/-- Every command is obeyed and the saved lines bring the table back exactly when MAC addresses
are written plainly, there is room, and all entries are kept. -/
theorem saved_iff (env : Env) (lines : List (List Char)) :
    (∀ before line behind, lines = before ++ line :: behind →
        Obeyed env (run env before emptyTable) (wordsOf line)) ∧
      (∀ a, a ∈ acls (run env (configAcl (run env lines emptyTable)) emptyTable) ↔
        a ∈ acls (run env lines emptyTable)) ↔
    (∀ before line behind, lines = before ++ line :: behind →
        MacPlain env (wordsOf line) ∧ Room env (run env before emptyTable) (wordsOf line)) ∧
      ∀ a ∈ acls (run env lines emptyTable), Kept a := by
  have okRun (lines : List (List Char)) : Ok (run env lines emptyTable) := by
    induction lines using List.reverseRecOn with
    | nil => exact emptyTable_ok
    | append_singleton lines line ih =>
      rw [run_append]
      exact exec_ok ih _
  have steps : (∀ before line behind, lines = before ++ line :: behind →
      Obeyed env (run env before emptyTable) (wordsOf line)) ↔
      ∀ before line behind, lines = before ++ line :: behind →
        MacPlain env (wordsOf line) ∧ Room env (run env before emptyTable) (wordsOf line) :=
    forall_congr' fun before => forall_congr' fun line => forall₂_congr fun behind _ =>
      obeyed_iff (okRun before)
  rw [steps]
  refine and_congr_right fun all => ?_
  obtain ⟨ok, fits⟩ := run_fits env lines fun line member => by
    obtain ⟨before, behind, split⟩ := List.append_of_mem member
    exact (all before line behind split).1
  exact reload_iff ok fits

/-- The last standard list is not saved. -/
theorem list99_lost : ¬ ∀ a, a ∈ acls (run ⟨fun _ => false, []⟩ (configAcl (run ⟨fun _ => false, []⟩
    ["access-list 99 deny any".toList] emptyTable)) emptyTable) ↔
      a ∈ acls (run ⟨fun _ => false, []⟩ ["access-list 99 deny any".toList] emptyTable) := by
  intro same
  obtain ⟨acl, isAcl⟩ : ∃ acl : Acl, acl = ⟨.simple ⟨0, 0⟩, .deny, 99⟩ := ⟨_, rfl⟩
  have fits : Fits ⟨fun _ => false, []⟩ acl := by
    rw [isAcl]
    exact ⟨⟨by decide, by decide⟩, isNet_zero⟩
  have spoken : ¬ Unspoken acl := by
    rw [isAcl]
    exact id
  have line : run ⟨fun _ => false, []⟩ ["access-list 99 deny any".toList] emptyTable =
      after emptyTable (processAcl emptyTable false acl ((lineOf acl).filter (· ≠ []))) := by
    have text : "access-list 99 deny any".toList = [' '].intercalate (lineOf acl) := by
      rw [isAcl]
      decide
    have kept : rereadAcl acl = acl := by
      rw [isAcl]
      rfl
    have loaded := load_cons fits [] emptyTable
    rw [exec_lineOf fits spoken, kept] at loaded
    rw [text]
    exact loaded
  rw [line] at same
  rcases processAcl_cases emptyTable_ok false acl ((lineOf acl).filter (· ≠ [])) with
    ⟨t', done, ok, effect⟩ | ⟨-, -, size, -⟩
  · simp only [done, after, Bool.false_eq_true, if_false] at same effect
    have all : ∀ a ∈ acls t', Fits ⟨fun _ => false, []⟩ a := by
      intro a member
      rcases (effect a).mp member with impossible | rfl
      · exact absurd impossible (acls_emptyTable ▸ List.not_mem_nil)
      · exact fits
    refine ((reload_iff ok all).mp same acl ((effect acl).mpr (.inr rfl))).1 ?_
    rw [isAcl]
  · rw [acls_emptyTable] at size
    cases size

end Runs

end AclReload
