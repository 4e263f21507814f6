import Rcp100.NetfilterRules

/-!
# The verdict of the firewall

The chains that the script builds, the verdict of a packet that comes to the hook of an
interface, and when it is what the list means.
-/

namespace NetfilterVerdict

open AccessLists AclWords AclReading AclTable AclConfig SpecialTokens Netfilter NetfilterRules
open PacketFilter hiding exec
open CliParser (wordsOf)
open Function (update update_of_ne)

section Script

variable {t : Table} {number : Nat} {f : Filter Condition Nat}

/-- The rules of the chain of a list. -/
def rulesOf (t : Table) (number : Nat) : List AclRule :=
  (entriesOf t number .deny).map netfilterAddRule ++
    ((entriesOf t number .permit).map netfilterAddRule ++
      if entriesOf t number .permit ≠ [] then [⟨[], .drop⟩] else [])

theorem addRules_true (number : Nat) (acls : List Acl) :
    addRules number true acls = (acls.map netfilterAddRule).map (.append number) := by
  induction acls with
  | nil => rfl
  | cons acl acls ih =>
    rw [addRules, ih]
    rfl

theorem addRules_false {acls : List Acl} (some : acls ≠ []) :
    addRules number false acls =
      .newChain number :: (acls.map netfilterAddRule).map (.append number) := by
  cases acls with
  | nil => exact absurd rfl some
  | cons acl acls =>
    rw [addRules, addRules_true]
    rfl

theorem generateList_eq (t : Table) (number : Nat) :
    generateList t number =
      if entriesOf t number .deny ≠ [] ∨ entriesOf t number .permit ≠ [] then
        .newChain number :: (rulesOf t number).map (.append number) else [] := by
  rw [generateList, rulesOf]
  cases deny : entriesOf t number .deny with
  | nil =>
    cases permit : entriesOf t number .permit with
    | nil => rfl
    | cons acl acls =>
      refine Eq.trans ?_ (if_pos (.inr (List.cons_ne_nil _ _))).symm
      simp only [decide_false, ne_eq, not_true_eq_false]
      rw [addRules_false (List.cons_ne_nil _ _)]
      simp [addRules]
  | cons acl acls =>
    refine Eq.trans ?_ (if_pos (.inl (List.cons_ne_nil _ _))).symm
    simp only [ne_eq, reduceCtorEq, not_false_eq_true, decide_true]
    rw [addRules_false (List.cons_ne_nil _ _), addRules_true]
    by_cases some : entriesOf t number .permit = []
    · simp [some]
    · simp [some]

/-- The chain of a list, if it has entries. -/
def chainOf (t : Table) (number : Nat) : Option (List AclRule) :=
  if entriesOf t number .deny ≠ [] ∨ entriesOf t number .permit ≠ [] then
    some (rulesOf t number) else none

theorem execAll_generateList (isNew : f.chains number = none) :
    execAll (generateList t number) f =
      { f with chains := update f.chains number (chainOf t number) } := by
  rw [generateList_eq, chainOf]
  split_ifs
  · exact execAll_newChain isNew _
  · rw [← isNew, Function.update_eq_self]
    rfl

theorem execAll_lists {numbers : List Nat} (distinct : numbers.Nodup)
    (isNew : ∀ n ∈ numbers, f.chains n = none) :
    execAll (numbers.flatMap (generateList t)) f =
      { f with chains := fun n => if n ∈ numbers then chainOf t n else f.chains n } := by
  induction numbers generalizing f with
  | nil => rfl
  | cons number numbers ih =>
    obtain ⟨absent, distinct⟩ := List.nodup_cons.mp distinct
    rw [List.flatMap_cons, execAll_append,
      execAll_generateList (isNew number List.mem_cons_self), ih distinct]
    · congr 1
      funext n
      by_cases same : n = number
      · subst same
        simp only [absent, if_false, Function.update_self, List.mem_cons, true_or, if_true]
      · simp only [update_of_ne same, List.mem_cons, same, false_or]
    · intro n member
      have other : n ≠ number := by
        rintro rfl
        exact absent member
      simp only [update_of_ne other]
      exact isNew n (List.mem_cons_of_mem number member)

theorem execAll_empty (f : Filter Condition Nat) :
    execAll netfilterGenerateEmpty f = ⟨fun _ => .accept, fun _ => [], fun _ => none⟩ := by
  have policies : update (update (update f.policy .input .accept)
      .output .accept) .forward .accept = fun _ => Verdict.accept := by
    funext hook
    cases hook <;> rfl
  calc
    execAll netfilterGenerateEmpty f =
      ⟨update (update (update f.policy .input .accept)
        .output .accept) .forward .accept, fun _ => [], fun _ => none⟩ := rfl
    _ = _ := by rw [policies]

/-- The chain that a jump to the list finds. -/
def chains (t : Table) (number : Nat) : Option (List AclRule) :=
  if number ∈ List.range' 1 198 then chainOf t number else none

end Script

section Hooks

variable {t : Table} {interfaces : Interfaces} {i : Interface} {hook : Hook} {packet : Packet}

theorem jumps_of_interface (t : Table) (i : Interface) (hook : Hook) :
    ((jumpsOf i).filter fun j => decide (j.1 = hook) && (chains t j.2.target).isSome).map (·.2) =
      if i.list hook ≠ 0 ∧ (chains t (i.list hook).toNat).isSome = true then
        [(jumpOf i hook).2] else [] := by
  have all : [Hook.input, .output, .forward].filter (fun h => decide (h = hook)) = [hook] := by
    cases hook <;> rfl
  have kept : (jumpsOf i).filter (fun j => decide (j.1 = hook) && (chains t j.2.target).isSome) =
      (([Hook.input, .output, .forward].filter fun h => decide (h = hook)).filter fun h =>
        decide (i.list h ≠ 0) && (chains t (i.list h).toNat).isSome).map (jumpOf i) := by
    rw [jumpsOf, List.filter_map, List.filter_filter, List.filter_filter]
    congr 1
    refine List.filter_congr fun h _ => ?_
    simp only [Function.comp_apply, jumpOf]
    rw [Bool.and_right_comm, Bool.and_assoc, Bool.and_comm]
    rfl
  rw [kept, all, List.filter_cons, List.filter_nil]
  by_cases chosen : i.list hook ≠ 0 ∧ (chains t (i.list hook).toNat).isSome = true
  · rw [if_pos chosen, decide_eq_true chosen.1, chosen.2]
    rfl
  · have rejected :
        (decide (i.list hook ≠ 0) && (chains t (i.list hook).toNat).isSome) = false := by
      rw [Bool.and_eq_false_iff, decide_eq_false_iff_not, ← Bool.not_eq_true]
      exact not_and_or.mp chosen
    rw [if_neg chosen, rejected]
    rfl

/-- The rules of a hook, interface by interface. -/
def jumpsFor (t : Table) (hook : Hook) (i : Interface) : List (Rule Condition Nat) :=
  if i.list hook ≠ 0 ∧ (chains t (i.list hook).toNat).isSome = true then [(jumpOf i hook).2]
  else []

theorem jumps_of_interfaces (t : Table) (all : List Interface) (hook : Hook) :
    ((all.flatMap jumpsOf).filter fun j =>
        decide (j.1 = hook) && (chains t j.2.target).isSome).map (·.2) =
      all.flatMap (jumpsFor t hook) := by
  rw [List.filter_flatMap, List.map_flatMap]
  exact List.flatMap_congr fun i _ => jumps_of_interface t i hook

theorem execAll_generate (t : Table) (interfaces : Interfaces) (f : Filter Condition Nat) :
    execAll (netfilterGenerate t interfaces) f =
      ⟨fun _ => .accept, fun hook => interfaces.all.flatMap (jumpsFor t hook), chains t⟩ := by
  rw [netfilterGenerate, execAll_append, execAll_append, execAll_empty,
    execAll_lists List.nodup_range' (fun n _ => rfl), execAll_jumps]
  congr 1
  funext hook
  exact jumps_of_interfaces t interfaces.all hook

theorem fires_of_interface (through : holds (interfaceCondition i.name hook) packet = true)
    (j : Interface) : (jumpOf j hook).2.fires holds packet = decide (j.name = i.name) := by
  rw [jumpOf, Rule.fires, List.all_cons, List.all_nil, Bool.and_true]
  cases hook <;> simp only [interfaceCondition, holds, decide_eq_true_eq] at through ⊢ <;>
    rw [through] <;> exact decide_eq_decide.mpr eq_comm

theorem verdict_generate (member : i ∈ interfaces.all) (applied : i.list hook ≠ 0)
    (through : holds (interfaceCondition i.name hook) packet = true)
    (start : Filter Condition Nat) :
    (execAll (netfilterGenerate t interfaces) start).verdict holds hook packet =
      ((chains t (i.list hook).toNat).bind (firstVerdict holds · packet)).getD .accept := by
  obtain ⟨front, back, split⟩ := List.append_of_mem member
  have names := interfaces.distinct
  rw [split, List.map_append, List.map_cons] at names
  obtain ⟨alone, -⟩ := List.nodup_cons.mp (List.nodup_middle.mp names)
  have skipped : ∀ rule ∈ front.flatMap (jumpsFor t hook) ++ back.flatMap (jumpsFor t hook),
      rule.fires holds packet = false := by
    rw [← List.flatMap_append]
    intro rule inside
    obtain ⟨j, isOther, isRule⟩ := List.mem_flatMap.mp inside
    rw [jumpsFor] at isRule
    split_ifs at isRule
    · rw [List.mem_singleton.mp isRule, fires_of_interface through, decide_eq_false_iff_not]
      intro same
      rw [← List.map_append, ← same] at alone
      exact alone (List.mem_map_of_mem isOther)
    · exact absurd isRule List.not_mem_nil
  rw [execAll_generate, Filter.verdict, split]
  simp only [List.flatMap_append, List.flatMap_cons]
  cases isChain : chains t (i.list hook).toNat with
  | none =>
    have nothing : jumpsFor t hook i = [] := by
      rw [jumpsFor, isChain]
      exact if_neg fun h => Bool.false_ne_true h.2
    have behind := @traverse_skip _ _ _ _ (chains t) .accept _ _ skipped []
    rw [List.append_nil] at behind
    rw [nothing, List.nil_append, behind]
    rfl
  | some rules =>
    have single : jumpsFor t hook i = [(jumpOf i hook).2] := by
      rw [jumpsFor, isChain]
      exact if_pos ⟨applied, rfl⟩
    have fires : (jumpOf i hook).2.fires holds packet = true := by
      rw [fires_of_interface through, decide_eq_true_eq]
    rw [single, List.cons_append, List.nil_append, traverse_single fires skipped]
    have target : (jumpOf i hook).2.target = (i.list hook).toNat := rfl
    rw [target, isChain]

end Hooks

section Lists

variable {env : Env} {t : Table} {number : Nat} {action : Action} {packet : Packet}

theorem mem_entriesOf {acl : Acl} : acl ∈ entriesOf t number action ↔
    ∃ s, some s ∈ t ∧ s.acl = acl ∧ s.acl.listNumber.toNat = number ∧ s.acl.action = action := by
  rw [entriesOf, List.mem_filter, acls, List.mem_filterMap, decide_eq_true_eq]
  constructor
  · rintro ⟨⟨slot, inside, isAcl⟩, same⟩
    obtain ⟨s, rfl, rfl⟩ := Option.map_eq_some_iff.mp isAcl
    exact ⟨s, inside, rfl, same⟩
  · rintro ⟨s, inside, rfl, same⟩
    exact ⟨⟨some s, inside, rfl⟩, same⟩

theorem hits_iff {met : Written → Bool} : hits env t number action met = true ↔
    ∃ s, some s ∈ t ∧ s.acl.listNumber.toNat = number ∧ s.acl.action = action ∧
      ∃ r, commandOf env s.command = some r ∧ met r.2 = true := by
  simp only [hits, List.any_eq_true, Option.any_eq_true, Bool.and_eq_true, decide_eq_true_eq]
  constructor
  · rintro ⟨slot, inside, s, rfl, ⟨same, isAction⟩, r, isCommand, isMet⟩
    exact ⟨s, inside, same, isAction, r, isCommand, isMet⟩
  · rintro ⟨s, inside, same, isAction, r, isCommand, isMet⟩
    exact ⟨some s, inside, s, rfl, ⟨same, isAction⟩, r, isCommand, isMet⟩

theorem fires_iff (told : ∀ s, some s ∈ t → Told env s) :
    (∃ rule ∈ (entriesOf t number action).map netfilterAddRule,
      rule.fires holds packet = true) ↔
    hits env t number action (fun w => meets (enforced w) packet) = true := by
  rw [hits_iff]
  constructor
  · rintro ⟨rule, inside, fires⟩
    obtain ⟨acl, isEntry, rfl⟩ := List.mem_map.mp inside
    obtain ⟨s, isStored, rfl, same⟩ := mem_entriesOf.mp isEntry
    obtain ⟨r, isCommand, left⟩ := told s isStored
    exact ⟨s, isStored, same.1, same.2, r, isCommand, (left packet).symm.trans fires⟩
  · rintro ⟨s, isStored, same, isAction, r, isCommand, isMet⟩
    obtain ⟨r', isCommand', left⟩ := told s isStored
    cases isCommand.symm.trans isCommand'
    exact ⟨_, List.mem_map_of_mem (mem_entriesOf.mpr ⟨s, isStored, rfl, same, isAction⟩),
      (left packet).trans isMet⟩

theorem target_of_entriesOf {rule : AclRule}
    (inside : rule ∈ (entriesOf t number action).map netfilterAddRule) :
    rule.target = target action := by
  obtain ⟨acl, isEntry, rfl⟩ := List.mem_map.mp inside
  obtain ⟨s, -, rfl, -, rfl⟩ := mem_entriesOf.mp isEntry
  rw [netfilterAddRule]
  split <;> rfl

theorem firstVerdict_rulesOf (told : ∀ s, some s ∈ t → Told env s) :
    (firstVerdict holds (rulesOf t number) packet).getD .accept =
      if hits env t number .deny (fun w => meets (enforced w) packet) then .drop
      else if hits env t number .permit (fun w => meets (enforced w) packet) then .accept
      else if entriesOf t number .permit ≠ [] then .drop
      else .accept := by
  rw [rulesOf, firstVerdict_append, firstVerdict_append,
    firstVerdict_target fun rule inside => target_of_entriesOf inside,
    firstVerdict_target fun rule inside => target_of_entriesOf inside,
    if_congr (fires_iff told) rfl rfl, if_congr (fires_iff told) rfl rfl]
  by_cases denied : hits env t number .deny (fun w => meets (enforced w) packet) = true
  · rw [if_pos denied, if_pos denied]
    rfl
  · rw [if_neg denied, if_neg denied]
    by_cases permitted : hits env t number .permit (fun w => meets (enforced w) packet) = true
    · rw [if_pos permitted, if_pos permitted]
      rfl
    · rw [if_neg permitted, if_neg permitted]
      split_ifs <;> rfl

theorem meets_enforced {w : Written} (met : meets w packet = true) :
    meets (enforced w) packet = true := by
  have filtered {α : Type} {o : Option α} {p q : α → Bool} (all : o.all q = true) :
      (o.filter p).all q = true := by
    cases o with
    | none => rfl
    | some a =>
      rw [Option.filter_some]
      split_ifs
      · exact all
      · rfl
  simp only [meets, enforced, Bool.and_eq_true] at met ⊢
  obtain ⟨⟨⟨⟨⟨⟨⟨⟨mac, protocol⟩, source⟩, port⟩, destination⟩, destPort⟩, out⟩, states⟩, type⟩ :=
    met
  exact ⟨⟨⟨⟨⟨⟨⟨⟨filtered mac, filtered protocol⟩, filtered source⟩, port⟩, filtered destination⟩,
    destPort⟩, out⟩, states⟩, filtered type⟩

/-- The packet satisfies the conditions that are enforced, but not all that are written: it
fails one with a zero, or the protocol 255. -/
def slips (w : Written) (packet : Packet) : Bool := meets (enforced w) packet && !meets w packet

theorem hits_enforced : hits env t number action (fun w => meets (enforced w) packet) = true ↔
    hits env t number action (meets · packet) = true ∨
      hits env t number action (slips · packet) = true := by
  simp only [hits_iff]
  constructor
  · rintro ⟨s, inside, same, isAction, r, isCommand, isMet⟩
    cases written : meets r.2 packet with
    | true => exact .inl ⟨s, inside, same, isAction, r, isCommand, written⟩
    | false =>
      refine .inr ⟨s, inside, same, isAction, r, isCommand, ?_⟩
      rw [slips, isMet, written]
      rfl
  · rintro (⟨s, inside, same, isAction, r, isCommand, isMet⟩ |
      ⟨s, inside, same, isAction, r, isCommand, isMet⟩)
    · exact ⟨s, inside, same, isAction, r, isCommand, meets_enforced isMet⟩
    · rw [slips, Bool.and_eq_true] at isMet
      exact ⟨s, inside, same, isAction, r, isCommand, isMet.1⟩

/-- The last list has no chain, so that nothing is dropped; in the other lists an entry that the
packet meets only in what is enforced makes no difference. -/
def Faithful (env : Env) (t : Table) (number : Nat) (packet : Packet) : Prop :=
  if number ≤ 198 then
    (hits env t number .deny (slips · packet) = true →
      hits env t number .deny (meets · packet) = true ∨
        (hits env t number .permit (meets · packet) = false ∧
          entriesOf t number .permit ≠ [])) ∧
    (hits env t number .permit (slips · packet) = true →
      hits env t number .deny (meets · packet) = true ∨
        hits env t number .deny (slips · packet) = true ∨
        hits env t number .permit (meets · packet) = true)
  else
    hits env t number .deny (meets · packet) = false ∧
      (entriesOf t number .permit ≠ [] → hits env t number .permit (meets · packet) = true)

theorem chains_getD (number : Nat) (nonzero : number ≠ 0) :
    ((chains t number).bind (firstVerdict holds · packet)).getD .accept =
      if number ≤ 198 then (firstVerdict holds (rulesOf t number) packet).getD .accept
      else .accept := by
  rw [chains]
  by_cases small : number ≤ 198
  · rw [if_pos small, if_pos (List.mem_range'_1.mpr (by omega)), chainOf]
    split_ifs with some
    · rfl
    · rw [not_or, not_not, not_not] at some
      rw [rulesOf, some.1, some.2]
      rfl
  · rw [if_neg small, if_neg fun inside => small (by
      rw [List.mem_range'_1] at inside
      omega)]
    rfl

theorem some_of_hits {met : Written → Bool} (hit : hits env t number action met = true) :
    entriesOf t number action ≠ [] := by
  obtain ⟨s, inside, same, isAction, -⟩ := hits_iff.mp hit
  exact List.ne_nil_of_mem (mem_entriesOf.mpr ⟨s, inside, rfl, same, isAction⟩)

theorem rules_faithful_iff (told : ∀ s, some s ∈ t → Told env s) (nonzero : number ≠ 0) :
    ((chains t number).bind (firstVerdict holds · packet)).getD .accept =
      meaning env t number packet ↔ Faithful env t number packet := by
  rw [chains_getD number nonzero, meaning, Faithful]
  by_cases small : number ≤ 198
  · rw [if_pos small, if_pos small, firstVerdict_rulesOf told, if_congr hits_enforced rfl rfl,
      if_congr hits_enforced rfl rfl]
    have slipped : hits env t number .permit (slips · packet) = true →
        entriesOf t number .permit ≠ [] := some_of_hits
    revert slipped
    cases hits env t number .deny (meets · packet) <;>
      cases hits env t number .deny (slips · packet) <;>
      cases hits env t number .permit (meets · packet) <;>
      cases hits env t number .permit (slips · packet) <;>
      by_cases some : entriesOf t number .permit = [] <;> simp [some]
  · rw [if_neg small, if_neg small]
    cases hits env t number .deny (meets · packet) <;>
      cases hits env t number .permit (meets · packet) <;>
      by_cases some : entriesOf t number .permit = [] <;> simp [some]

end Lists

section Runs

theorem macPlain_of_noColon {env : Env} {words : List Word} (noColon : ∀ word ∈ words, ':' ∉ word) :
    MacPlain env words := by
  intro items handler captured member entry taken mac isMac
  obtain ⟨inside, accepted, -⟩ := wordOf_sound taken isMac
  exact absurd (colon_of_mac accepted) (noColon mac inside)

theorem processAcl_emptyTable (acl : Acl) (argv : List Word) :
    processAcl emptyTable false acl argv =
      .ok (some ⟨acl, argv⟩ :: List.replicate 1023 none) := by
  have empty : emptyTable = none :: List.replicate 1023 none := rfl
  have absent : aclFind emptyTable acl = none :=
    List.findIdx?_eq_none_iff.mpr fun slot member => by
      rw [List.eq_of_mem_replicate member]
      rfl
  simp only [processAcl, absent]
  rfl

/-- The firewall decides as the list means exactly when the leniency of the rules makes no
difference. -/
theorem verdict_iff {env : Env} {lines : List (List Char)}
    (plain : ∀ line ∈ lines, MacPlain env (wordsOf line)) {interfaces : Interfaces} {i : Interface}
    (member : i ∈ interfaces.all) {hook : Hook} (applied : i.list hook ≠ 0) {packet : Packet}
    (through : holds (interfaceCondition i.name hook) packet = true)
    (start : Filter Condition Nat) :
    (execAll (netfilterGenerate (run env lines emptyTable) interfaces) start).verdict holds hook
        packet = meaning env (run env lines emptyTable) (i.list hook).toNat packet ↔
      Faithful env (run env lines emptyTable) (i.list hook).toNat packet := by
  have nonzero : (i.list hook).toNat ≠ 0 := fun zero => applied (BitVec.eq_of_toNat_eq zero)
  rw [verdict_generate member applied through,
    rules_faithful_iff (told_run env lines plain) nonzero]

/-- An interface with a list in front of it. -/
def guarded (number : BitVec 8) : Interfaces where
  all := [⟨"eth0".toList, number, 0, 0⟩]
  named := by
    simp
  distinct := by
    simp

/-- A packet that comes in. -/
def incoming : Packet :=
  { mac := [0, 1, 2, 3, 4, 5], protocol := 6, source := 0x0a000001, sourcePort := 1024
    destination := 0x0a000002, destinationPort := 22, icmpType := 0, state := .new
    inInterface := "eth0".toList, outInterface := [] }

/-- A host and the network around it, in two lists. -/
def demoLines : List (List Char) :=
  ["access-list 10 deny 10.0.0.1/32".toList, "access-list 10 permit 10.0.0.0/8".toList,
    "access-list 20 deny any".toList]

theorem verdict_guarded :
    (execAll (netfilterGenerate (run ⟨fun _ => false, []⟩ demoLines emptyTable) (guarded 10))
        ⟨fun _ => .accept, fun _ => [], fun _ => none⟩).verdict holds .input incoming =
      meaning ⟨fun _ => false, []⟩ (run ⟨fun _ => false, []⟩ demoLines emptyTable) 10 incoming ↔
    Faithful ⟨fun _ => false, []⟩ (run ⟨fun _ => false, []⟩ demoLines emptyTable) 10
      incoming := by
  have noColon : ∀ line ∈ demoLines, ∀ word ∈ wordsOf line, ':' ∉ word := by decide
  exact verdict_iff (i := ⟨"eth0".toList, 10, 0, 0⟩)
    (fun line member => macPlain_of_noColon (noColon line member)) List.mem_cons_self (by decide)
    (by decide) _

/-- The last list lets through what it denies. -/
theorem list199_open :
    (execAll (netfilterGenerate (run ⟨fun _ => false, []⟩
        ["access-list 199 deny any any".toList] emptyTable) (guarded 199))
        ⟨fun _ => .accept, fun _ => [], fun _ => none⟩).verdict holds .input incoming ≠
      meaning ⟨fun _ => false, []⟩ (run ⟨fun _ => false, []⟩
        ["access-list 199 deny any any".toList] emptyTable) 199 incoming := by
  obtain ⟨words, isWords⟩ : ∃ words, words = wordsOf "access-list 199 deny any any".toList :=
    ⟨_, rfl⟩
  have handler : handlerOf ⟨fun _ => false, []⟩ words = some .extended := by
    rw [isWords]
    decide +kernel
  have read : readExtended words = .ok (false,
      ⟨.extended ⟨0, 0, 0, 255, 0, 0, 0, [], 0, zeroMac⟩, .deny, 199⟩) := by
    rw [isWords]
    rfl
  have command : ∃ r, commandOf ⟨fun _ => false, []⟩ words = some r ∧
      meets r.2 incoming = true := by
    have whole : (commandOf ⟨fun _ => false, []⟩ words).any (fun r => meets r.2 incoming) =
        true := by
      rw [isWords]
      decide +kernel
    exact Option.any_eq_true .. |>.mp whole
  have table : run ⟨fun _ => false, []⟩ ["access-list 199 deny any any".toList] emptyTable =
      some ⟨⟨.extended ⟨0, 0, 0, 255, 0, 0, 0, [], 0, zeroMac⟩, .deny, 199⟩, words⟩ ::
        List.replicate 1023 none := by
    have line : run ⟨fun _ => false, []⟩ ["access-list 199 deny any any".toList] emptyTable =
        AccessLists.exec ⟨fun _ => false, []⟩ emptyTable words := by
      rw [run, List.foldl_cons, List.foldl_nil, execLine, isWords]
    rw [line, AccessLists.exec, handler]
    simp only [Handler.run, cliAclCmd, read, ChainTable.ok_bind, processAcl_emptyTable, after]
  have denied : hits ⟨fun _ => false, []⟩ (run ⟨fun _ => false, []⟩
      ["access-list 199 deny any any".toList] emptyTable) 199 .deny (meets · incoming) = true := by
    obtain ⟨r, isCommand, isMet⟩ := command
    rw [table]
    exact hits_iff.mpr ⟨_, List.mem_cons_self, rfl, rfl, r, isCommand, isMet⟩
  have noChain : chains (run ⟨fun _ => false, []⟩
      ["access-list 199 deny any any".toList] emptyTable) 199 = none := if_neg (by decide)
  have inside : (⟨"eth0".toList, 199, 0, 0⟩ : Interface) ∈ (guarded 199).all := List.mem_cons_self
  rw [verdict_generate inside (by decide) (by decide), meaning, if_pos denied]
  change ((chains _ 199).bind _).getD _ ≠ _
  rw [noChain]
  decide

end Runs

end NetfilterVerdict
