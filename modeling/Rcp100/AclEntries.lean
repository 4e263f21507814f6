import Rcp100.AclTable

/-!
# Entries that commands store

What the fields of an entry can be when a command of the grammar wrote them, and that all
entries of a table are of this kind.
-/

namespace AclEntries

open AccessLists AclWords AclReading AclTable SpecialTokens IpAddress PrintedNumbers
open CliParser (isSpecial)

section Fields

/-- A network that can be written. -/
structure IsNet (net : BitVec 32 × Nat) : Prop where
  fits : net.2 ≤ 32
  within : net.1 &&& ~~~ maskLoop net.2 0x80000000 0 = 0
  unicast : isMulticast net.1 = false

structure ExtendedFits (env : Env) (e : AclExtended) : Prop where
  source : IsNet (e.ip, e.maskBits)
  destination : IsNet (e.destIp, e.destMaskBits)
  ports : e.port ≠ 0 ∨ e.destPort ≠ 0 → e.protocol = 6 ∨ e.protocol = 17
  interface : e.outInterface ≠ [] → accepts env .interface e.outInterface = true ∧
    ' ' ∉ e.outInterface ∧ (e.destIp, e.destMaskBits) = (0, 0) ∧ e.destPort = 0
  states : e.constate.toNat < 2 ^ 4
  mac : e.mac.length = 6

structure IcmpFits (e : AclIcmp) : Prop where
  source : IsNet (e.ip, e.maskBits)
  destination : IsNet (e.destIp, e.destMaskBits)
  type : e.icmpType.toNat ≤ 255
  mac : e.mac = zeroMac

/-- What the data of an entry of the list with this number can be. -/
def DataFits (env : Env) (number : Nat) : AclData → Prop
  | .simple e => (1 ≤ number ∧ number ≤ 99) ∧ IsNet (e.ip, e.maskBits)
  | .extended e => (100 ≤ number ∧ number ≤ 199) ∧ ExtendedFits env e
  | .icmp e => (100 ≤ number ∧ number ≤ 199) ∧ IcmpFits e

def Fits (env : Env) (acl : Acl) : Prop := DataFits env acl.listNumber.toNat acl.data

theorem isNet_zero : IsNet (0, 0) := ⟨by decide, by decide, by decide⟩

end Fields

section Captured

variable {env : Env} {items : List Item} {words : List Word} {captured : List (Token × Word)}
  {token : Token}

theorem isNet_network (taken : captures env items words = some captured)
    (isNetwork : token = .cidrnet ∨ token = .cidrnetDestination) :
    IsNet (((wordOf captured token).bind network).getD (0, 0)) := by
  cases isWord : wordOf captured token with
  | none => exact isNet_zero
  | some word =>
    have accepted := (wordOf_sound taken isWord).2.1
    rw [accepts_network isNetwork] at accepted
    obtain ⟨ip, bits, net⟩ := isNetwork_of_chkCidrnet accepted
    rw [Option.bind_some, net.network]
    exact ⟨net.fits, net.within, net.unicast⟩

theorem wordOf_none (taken : captures env items words = some captured)
    (absent : ∀ item ∈ items, item.token ≠ token) : wordOf captured token = none := by
  cases isWord : wordOf captured token with
  | none => rfl
  | some word =>
    obtain ⟨-, -, item, member, same⟩ := wordOf_sound taken isWord
    exact absurd same (absent item member)

theorem length_of_scanMac {width : Nat → Nat} {str : List Char} {mac : List (BitVec 32)}
    (scanned : scanMac width str = some mac) : mac.length = 6 := by
  simp only [scanMac, Option.bind_eq_bind, Option.bind_eq_some_iff, Option.pure_def] at scanned
  obtain ⟨_, -, _, -, _, -, _, -, _, -, _, -, _, -, _, -, _, -, _, -, _, -, same⟩ := scanned
  cases same
  rfl

theorem states_lt (l : List Word) {bits : BitVec 8} (small : bits.toNat < 2 ^ 4) :
    (l.foldl (fun bits state => bits ||| (stateBit state).getD 0) bits).toNat < 2 ^ 4 := by
  induction l generalizing bits with
  | nil => exact small
  | cons state l ih =>
    refine ih ?_
    rw [BitVec.toNat_or]
    refine Nat.or_lt_two_pow small ?_
    rw [stateBit]
    split_ifs <;> decide

theorem mac_length (mac : Option Word) :
    ((((mac.bind (scanMac fun length => length))).map fun mac =>
      mac.map fun b => b.setWidth 8).getD zeroMac).length = 6 := by
  cases mac with
  | none => rfl
  | some word =>
    rw [Option.bind_some]
    cases scanned : scanMac (fun length => length) word with
    | none => rfl
    | some mac => exact (List.length_map ..).trans (length_of_scanMac scanned)

end Captured

section Patterns

theorem ports_of_extended : ∀ items ∈ extendedCommands,
    (∃ item ∈ items, item.token = .port ∨ item.token = .portDestination) →
    req .tcp ∈ items ∨ req .udp ∈ items := by
  decide +kernel

theorem interface_of_extended : ∀ items ∈ extendedCommands,
    (∃ item ∈ items, item.token = .interface) → ∀ item ∈ items,
      item.token ≠ .cidrnetDestination ∧ item.token ≠ .portDestination := by
  decide +kernel

theorem number_of_extended : ∀ items ∈ extendedCommands ++ icmpCommands,
    req .extendedNumber ∈ items ∧ ∀ item ∈ items, item.token ≠ .standardNumber := by
  decide +kernel

theorem number_of_standard : ∀ items ∈ standardCommands, req .standardNumber ∈ items := by
  decide +kernel

end Patterns

section Stored

variable {env : Env} {items : List Item} {words : List Word} {captured : List (Token × Word)}
  {handler : Handler} {t : Table}

theorem number_written {token : Token} {a b : BitVec 32} (isNumber : token.bounds = some (a, b))
    (small : b.toNat < 256) (taken : captures env items words = some captured)
    (chosen : ∃ word, wordOf captured token = some word ∧
      (wordOf captured .standardNumber).or (wordOf captured .extendedNumber) = some word) :
    a.toNat ≤ ((written captured).listNumber.setWidth 8).toNat ∧
      ((written captured).listNumber.setWidth 8).toNat ≤ b.toNat := by
  obtain ⟨word, isWord, same⟩ := chosen
  have bounds := number_bounds isNumber (wordOf_sound taken isWord).2.1
  have isList : (written captured).listNumber = atoi word := by
    simp only [written, same, Option.getD_some]
  rw [isList, BitVec.toNat_setWidth, Nat.mod_eq_of_lt (by omega)]
  exact bounds

theorem number_extended (member : items ∈ extendedCommands ++ icmpCommands)
    (taken : captures env items words = some captured) :
    100 ≤ ((written captured).listNumber.setWidth 8).toNat ∧
      ((written captured).listNumber.setWidth 8).toNat ≤ 199 := by
  obtain ⟨required, others⟩ := number_of_extended items member
  obtain ⟨word, isWord⟩ := Option.isSome_iff_exists.mp (captures_required taken required)
  refine number_written rfl (by decide) taken ⟨word, isWord, ?_⟩
  rw [wordOf_none taken others, Option.none_or, isWord]

theorem fits_extended (member : items ∈ extendedCommands)
    (taken : captures env items words = some captured) (blankFree : ∀ word ∈ words, ' ' ∉ word) :
    ExtendedFits env (written captured).extended := by
  have ports (token : Token) (isPort : token = .port ∨ token = .portDestination)
      (port : (((wordOf captured token).map atoi).getD 0).setWidth 16 ≠ (0 : BitVec 16)) :
      (written captured).extended.protocol = 6 ∨ (written captured).extended.protocol = 17 := by
    cases isWord : wordOf captured token with
    | none =>
      rw [isWord] at port
      exact absurd rfl port
    | some word =>
      obtain ⟨-, -, item, inside, same⟩ := wordOf_sound taken isWord
      have named := ports_of_extended items member ⟨item, inside, same ▸ isPort⟩
      by_cases tcp : (wordOf captured .tcp).isSome = true
      · left
        simp only [Written.extended, written, tcp, if_true, Option.getD_some]
        rfl
      · have udp : (wordOf captured .udp).isSome = true := by
          rcases named with isTcp | isUdp
          · exact absurd (captures_required taken isTcp) tcp
          · exact captures_required taken isUdp
        right
        simp only [Written.extended, written, tcp, udp, if_true, Bool.false_eq_true, if_false,
          Option.getD_some]
        rfl
  refine ⟨isNet_network taken (.inl rfl), isNet_network taken (.inr rfl), ?_, fun named => ?_,
    states_lt _ (by decide), mac_length _⟩
  · rintro (port | port)
    · exact ports .port (.inl rfl) port
    · exact ports .portDestination (.inr rfl) port
  · cases isWord : wordOf captured .interface with
    | none =>
      simp only [Written.extended, written, isWord, Option.getD_none] at named
      exact absurd rfl named
    | some word =>
      obtain ⟨inside, accepted, item, isItem, same⟩ := wordOf_sound taken isWord
      have others := interface_of_extended items member ⟨item, isItem, same⟩
      have noNet := wordOf_none taken fun item inside => (others item inside).1
      have noPort := wordOf_none taken fun item inside => (others item inside).2
      simp only [Written.extended, written, isWord, noNet, noPort, Option.getD_some]
      exact ⟨accepted, blankFree word inside, rfl, rfl⟩

theorem icmpType_le {word : Word} (accepted : accepts env .icmpType word = true) :
    (atoi word).toNat ≤ 255 := by
  rw [accepts_icmpType, chkRange, Bool.and_eq_true] at accepted
  obtain ⟨-, accepted⟩ := accepted
  rw [atoi]
  cases scanned : scanInt word with
  | none => decide
  | some r =>
    simp only [scanned, Bool.not_eq_true', Bool.or_eq_false_iff] at accepted
    exact (between_of_slt (by decide) accepted.1 accepted.2).2

theorem fits_icmp (taken : captures env items words = some captured)
    (noMac : wordOf captured .mac = none) :
    IcmpFits (written captured).icmp := by
  refine ⟨isNet_network taken (.inl rfl), isNet_network taken (.inr rfl), ?_, ?_⟩
  · cases isWord : wordOf captured .icmpType with
    | none =>
      simp only [Written.icmp, written, isWord]
      decide
    | some word =>
      simp only [Written.icmp, written, isWord]
      exact icmpType_le (wordOf_sound taken isWord).2.1
  · simp only [Written.icmp, written, noMac]
    rfl

theorem fits_written (member : (items, handler) ∈ commands) (entry : handler ≠ .noAcl)
    (taken : captures env items words = some captured) (blankFree : ∀ word ∈ words, ' ' ∉ word)
    (plain : MacPlain env words) : Fits env ((written captured).entry handler) := by
  have noMac (other : handler ≠ .extended) : wordOf captured .mac = none := by
    cases isMac : wordOf captured .mac with
    | none => rfl
    | some mac => exact absurd (plain items handler captured member entry taken mac isMac).1 other
  cases commandOf_mem member with
  | standard inside =>
    obtain ⟨word, isWord⟩ := Option.isSome_iff_exists.mp
      (captures_required taken (number_of_standard _ inside))
    refine ⟨@number_written _ _ _ _ .standardNumber _ _ rfl (by decide) taken ⟨word, isWord, ?_⟩,
      isNet_network taken (.inl rfl)⟩
    rw [isWord, Option.some_or]
  | noAcl => exact absurd rfl entry
  | extended inside =>
    exact ⟨number_extended (List.mem_append_left _ inside) taken,
      fits_extended inside taken blankFree⟩
  | icmp inside =>
    exact ⟨number_extended (List.mem_append_right _ inside) taken,
      fits_icmp taken (noMac (by decide))⟩

theorem mem_exec (ok : Ok t) (plain : MacPlain env words) {acl : Acl}
    (member : acl ∈ acls (exec env t words)) :
    acl ∈ acls t ∨ ∃ items handler captured, (items, handler) ∈ commands ∧ handler ≠ .noAcl ∧
      captures env items words = some captured ∧ acl = (written captured).entry handler := by
  rcases exec_cases env t words with same | ⟨number, rfl, cleared⟩ |
    ⟨items, handler, captured, noform, acl', isCommand, entry, taken, read, done⟩
  · exact .inl (same ▸ member)
  · obtain ⟨t', runs, -, effect⟩ := cliNoAclCmd_spec ok Token.accessList.text number
    rw [cleared, runs] at member
    exact .inl ((effect acl).mp member).1
  · have asWritten := (read_iff isCommand entry taken).mpr
      (plain items handler captured isCommand entry taken)
    obtain ⟨rfl, rfl⟩ := Prod.mk.inj (Except.ok.inj (read.symm.trans asWritten))
    rw [done] at member
    rcases processAcl_cases ok (written captured).no ((written captured).entry handler) words with
      ⟨t', runs, -, effect⟩ | ⟨-, -, -, full⟩
    · rw [runs] at member
      have origin := (effect acl).mp member
      split_ifs at origin
      · exact .inl origin.1
      · exact origin.imp_right fun same =>
          ⟨items, handler, captured, isCommand, entry, taken, same⟩
    · rw [full] at member
      exact .inl member

theorem fits_exec (ok : Ok t) (plain : MacPlain env words)
    (blankFree : ∀ word ∈ words, ' ' ∉ word) (all : ∀ acl ∈ acls t, Fits env acl) :
    ∀ acl ∈ acls (exec env t words), Fits env acl := by
  intro acl member
  rcases mem_exec ok plain member with old | ⟨items, handler, captured, isCommand, entry, taken,
    rfl⟩
  · exact all acl old
  · exact fits_written isCommand entry taken blankFree plain

end Stored

end AclEntries
