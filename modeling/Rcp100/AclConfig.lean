import Rcp100.AclEntries

/-!
# Access lists in the saved configuration

The lines that are printed for the table, and what comes of them when they are executed on an
empty table.
-/

namespace AclConfig

open AccessLists AclWords AclReading AclTable AclEntries SpecialTokens IpAddress PrintedNumbers
open ChainTable
open CliParser (wordsOf)

section Printing

def Action.text : Action → Word
  | .permit => Token.permit.text
  | .deny => Token.deny.text

/-- The zero address is printed as `any`, whatever the mask is. -/
def printNetwork (ip : BitVec 32) (maskBits : Nat) : Word :=
  if ip = 0 then Token.any.text else printCidr ip maskBits

def isMacAllzero (mac : List (BitVec 8)) : Bool := mac.all (· = 0)

def macText (mac : List (BitVec 8)) : Word := if isMacAllzero mac then [] else printMac mac

/-- A number that is not printed when it is the given one. -/
def printUnless (absent number : Nat) : Word := if number = absent then [] else decimal number

def protocolText (protocol : BitVec 8) : Word :=
  if protocol = 255 then []
  else if protocol = 6 then Token.tcp.text
  else if protocol = 17 then Token.udp.text
  else decimal protocol.toNat

/-- The names of the bits, in the order in which they are appended. -/
def stateNames (constate : BitVec 8) : List Word :=
  (if constate &&& 1 ≠ 0 then ["new".toList] else []) ++
  (if constate &&& 2 ≠ 0 then ["established".toList] else []) ++
  (if constate &&& 4 ≠ 0 then ["related".toList] else []) ++
  (if constate &&& 8 ≠ 0 then ["invalid".toList] else [])

def constring (constate : BitVec 8) : Word := [','].intercalate (stateNames constate)

/-- The words for the destination, or for the interface. -/
def destinationText (e : AclExtended) : List Word :=
  if e.outInterface ≠ [] then [Token.outInterface.text, e.outInterface]
  else [printNetwork e.destIp e.destMaskBits]

/-- What the three kinds of lines start with. -/
def printHead (acl : Acl) : List Word :=
  [Token.accessList.text, decimal acl.listNumber.toNat, Action.text acl.action]

/-- The address and the mask are at the same place in the three kinds of entries. -/
def source : AclData → BitVec 32 × Nat
  | .simple e => (e.ip, e.maskBits)
  | .extended e => (e.ip, e.maskBits)
  | .icmp e => (e.ip, e.maskBits)

/-- The words of `print_standard_acl_entry`, which are printed with blanks between them. -/
def printStandardAclEntry (acl : Acl) : List Word :=
  printHead acl ++ [printNetwork (source acl.data).1 (source acl.data).2]

/-- The words of `print_icmp_acl_entry`; some may be empty. -/
def printIcmpAclEntry (acl : Acl) (e : AclIcmp) : List Word :=
  printHead acl ++ [macText e.mac, Token.icmp.text, printNetwork e.ip e.maskBits,
    printNetwork e.destIp e.destMaskBits, printUnless 0 e.icmpType.toNat]

/-- The words of `print_extended_acl_entry`; some may be empty. -/
def printExtendedAclEntry (acl : Acl) (e : AclExtended) : List Word :=
  printHead acl ++ [macText e.mac, protocolText e.protocol, printNetwork e.ip e.maskBits,
    printUnless 0 e.port.toNat] ++ destinationText e ++
    [printUnless 0 e.destPort.toNat, constring e.constate]

/-- The entries of a list with an action, in the order of the table. -/
def entriesOf (t : Table) (number : Nat) (action : Action) : List Acl :=
  (acls t).filter fun acl => acl.listNumber.toNat = number ∧ acl.action = action

/-- The entries of one list, the ones that deny first. -/
def listOf (t : Table) (number : Nat) : List Acl :=
  entriesOf t number .deny ++ entriesOf t number .permit

/-- What is printed for an entry of an extended list. -/
def printTyped (acl : Acl) : Option (List Word) :=
  match acl.data with
  | .extended e => some (printExtendedAclEntry acl e)
  | .icmp e => some (printIcmpAclEntry acl e)
  | .simple _ => none

/-- The lines that `configAcl` prints. -/
def configAcl (t : Table) : List (List Char) :=
  (((List.range' 1 98).flatMap fun number => (listOf t number).map printStandardAclEntry) ++
    (List.range' 100 99).flatMap fun number => (listOf t number).filterMap printTyped).map
      ([' '].intercalate ·) ++ ["!".toList]

def execLine (env : Env) (t : Table) (line : List Char) : Table := exec env t (wordsOf line)

def run (env : Env) (lines : List (List Char)) (t : Table) : Table := lines.foldl (execLine env) t

end Printing

section Words

variable {env : Env} {token : Token} {ip : BitVec 32} {bits n : Nat}

theorem slt_eq_false {a b : BitVec 32} (small : b.toNat < 2 ^ 31) (le : a.toNat ≤ b.toNat) :
    b.slt a = false := by
  rw [BitVec.slt, decide_eq_false_iff_not, BitVec.toInt_eq_toNat_cond,
    BitVec.toInt_eq_toNat_cond]
  split_ifs <;> omega

theorem chkRange_decimal {least most : BitVec 32} (bounds : least.toNat ≤ n ∧ n ≤ most.toNat)
    (small : most.toNat < 2 ^ 31) : chkRange least most (decimal n) = true := by
  have value : (BitVec.ofNat 32 n).toNat = n := by
    rw [BitVec.toNat_ofNat]
    omega
  have scanned := scanInt_decimal (n := n) (by omega) (stops_nil 10)
  rw [List.append_nil] at scanned
  rw [chkRange, scanned, Bool.and_eq_true, List.all_eq_true]
  refine ⟨fun c member => isdigit_of_isDigit (isDigit_decimal member), ?_⟩
  simp only [slt_eq_false (show (BitVec.ofNat 32 n).toNat < 2 ^ 31 by omega)
    (value ▸ bounds.1), slt_eq_false small (value ▸ bounds.2), Bool.or_self, Bool.not_false]

theorem accepts_decimal {a b : BitVec 32} (isNumber : token.bounds = some (a, b))
    (bounds : a.toNat ≤ n ∧ n ≤ b.toNat) (small : b.toNat < 2 ^ 31) :
    accepts env token (decimal n) = true := by
  have value : (BitVec.ofNat 32 n).toNat = n := by
    rw [BitVec.toNat_ofNat]
    omega
  have low : (BitVec.ofNat 32 n).slt a = false :=
    slt_eq_false (by omega) (by rw [value]; exact bounds.1)
  have high : b.slt (BitVec.ofNat 32 n) = false :=
    slt_eq_false small (by rw [value]; exact bounds.2)
  rw [accepts_number isNumber, isnum_decimal, atoi_decimal (by omega), low, high]
  rfl

/-- The token that takes a network that is printed. -/
def netToken (token : Token) (ip : BitVec 32) : Token := if ip = 0 then .any else token

/-- The network that is read again. -/
def rereadNet (ip : BitVec 32) (bits : Nat) : BitVec 32 × Nat :=
  (ip, if ip = 0 then 0 else bits)

theorem accepts_printNetwork (isNetwork : token = .cidrnet ∨ token = .cidrnetDestination)
    (fits : IsNet (ip, bits)) :
    accepts env (netToken token ip) (printNetwork ip bits) = true := by
  rw [netToken, printNetwork]
  split_ifs
  · exact (accepts_word rfl).mpr rfl
  · rw [accepts_network isNetwork]
    exact chkCidrnet_printCidr _ fits.fits fits.within fits.unicast

theorem network_printNetwork (isNetwork : token = .cidrnet ∨ token = .cidrnetDestination)
    (fits : IsNet (ip, bits)) :
    networkOf (netToken token ip) (printNetwork ip bits) = rereadNet ip bits := by
  have notAny : token ≠ .any := by
    rcases isNetwork with rfl | rfl <;> decide
  rw [networkOf, netToken, printNetwork, rereadNet]
  by_cases zero : ip = 0
  · simp only [zero, if_true, Option.getD_none]
  · simp only [zero, if_false, notAny, network, atocidr_printCidr ip fits.fits, Option.map_some,
      mask2bits_maskLoop fits.fits, Option.getD_some]

theorem constring_spec {constate : BitVec 8} (small : constate.toNat < 2 ^ 4) :
    (splitCommas (constring constate)).all states.contains = true ∧
    (splitCommas (constring constate)).foldl
      (fun bits state => bits ||| (stateBit state).getD 0) 0 = constate ∧
    ' ' ∉ constring constate ∧ (constring constate = [] ↔ constate = 0) := by
  have all : ∀ i : Fin 16, (splitCommas (constring (BitVec.ofNat 8 i))).all states.contains = true ∧
      (splitCommas (constring (BitVec.ofNat 8 i))).foldl
        (fun bits state => bits ||| (stateBit state).getD 0) 0 = BitVec.ofNat 8 i ∧
      ' ' ∉ constring (BitVec.ofNat 8 i) ∧
      (constring (BitVec.ofNat 8 i) = [] ↔ BitVec.ofNat 8 i = 0) := by
    decide +kernel
  have whole := all ⟨constate.toNat, small⟩
  rw [BitVec.ofNat_toNat, BitVec.setWidth_eq] at whole
  exact whole

theorem blank_decimal (n : Nat) : ' ' ∉ decimal n := fun member => by
  have digit := isDigit_decimal member
  revert digit
  decide

theorem blank_printIp (ip : BitVec 32) : ' ' ∉ printIp ip := by
  simp [printIp, blank_decimal]

theorem blank_printNetwork (ip : BitVec 32) (bits : Nat) : ' ' ∉ printNetwork ip bits := by
  rw [printNetwork]
  split_ifs
  · decide
  · simp [printCidr, blank_printIp, blank_decimal]

theorem blank_printMac {mac : List (BitVec 8)} (six : mac.length = 6) : ' ' ∉ printMac mac := by
  have byte (b : BitVec 8) : ' ' ∉ hexByte b := by
    have bound := b.isLt
    have high := digitChar_hex (n := b.toNat / 16) (by omega)
    have low := digitChar_hex (n := b.toNat % 16) (by omega)
    simp only [hexByte, List.mem_cons, List.not_mem_nil, or_false, not_or]
    exact ⟨high.2.2.2.2.2.2.1.symm, low.2.2.2.2.2.2.1.symm⟩
  obtain ⟨a, b, c, d, e, f, rfl⟩ : ∃ a b c d e f, mac = [a, b, c, d, e, f] := by
    obtain ⟨a, mac, rfl⟩ := List.exists_of_length_succ _ six
    obtain ⟨b, mac, rfl⟩ := List.exists_of_length_succ _ (Nat.succ.inj six)
    obtain ⟨c, mac, rfl⟩ := List.exists_of_length_succ mac (by simpa using six)
    obtain ⟨d, e, f, rfl⟩ := List.length_eq_three.mp (by simpa using six : mac.length = 3)
    exact ⟨a, b, c, d, e, f, rfl⟩
  have shape : printMac [a, b, c, d, e, f] = hexByte a ++ ':' :: (hexByte b ++ ':' ::
      (hexByte c ++ ':' :: (hexByte d ++ ':' :: (hexByte e ++ ':' :: hexByte f)))) := rfl
  simp [shape, byte]

end Words

section Lines

variable {env : Env} {acl : Acl} {e : AclExtended} {args : List Word}

/-- A word that may be empty, which is no word then. -/
def nonEmpty (word : Word) : Option Word := if word = [] then none else some word

theorem filter_nonEmpty (word : Word) (words : List Word) :
    (word :: words).filter (· ≠ []) = (nonEmpty word).toList ++ words.filter (· ≠ []) := by
  rw [nonEmpty, List.filter_cons]
  by_cases empty : word = []
  · simp only [empty, ne_eq, not_true_eq_false, decide_false, Bool.false_eq_true, if_false,
      if_true, Option.toList_none, List.nil_append]
  · simp only [empty, ne_eq, not_false_eq_true, decide_true, if_true, if_false,
      Option.toList_some, List.cons_append, List.nil_append]

theorem nonEmpty_of_ne {word : Word} (nonempty : word ≠ []) : nonEmpty word = some word :=
  if_neg nonempty

theorem mem_nonEmpty {word w : Word} (member : w ∈ nonEmpty word) : w = word ∧ word ≠ [] := by
  rw [nonEmpty] at member
  split_ifs at member with empty
  · cases member
  · cases member
    exact ⟨rfl, empty⟩

theorem printNetwork_ne_nil (ip : BitVec 32) (bits : Nat) : printNetwork ip bits ≠ [] := by
  rw [printNetwork]
  split_ifs
  · decide
  · simp [printCidr]

theorem filter_printHead (acl : Acl) (words : List Word) :
    (printHead acl ++ words).filter (· ≠ []) = printHead acl ++ words.filter (· ≠ []) := by
  have action : Action.text acl.action ≠ [] := by
    cases acl.action <;> decide
  simp only [printHead, List.cons_append, List.nil_append, filter_nonEmpty,
    nonEmpty_of_ne action, nonEmpty_of_ne (decimal_ne_nil _),
    nonEmpty_of_ne (show Token.accessList.text ≠ [] by decide), Option.toList_some]

theorem filter_destinationText (e : AclExtended) (words : List Word) :
    (destinationText e ++ words).filter (· ≠ []) = destinationText e ++ words.filter (· ≠ []) := by
  rw [destinationText]
  by_cases named : e.outInterface ≠ []
  · simp only [if_pos named, List.cons_append, List.nil_append, filter_nonEmpty,
      nonEmpty_of_ne named, nonEmpty_of_ne (show Token.outInterface.text ≠ [] by decide),
      Option.toList_some]
  · simp only [if_neg named, List.cons_append, List.nil_append, filter_nonEmpty,
      nonEmpty_of_ne (printNetwork_ne_nil _ _), Option.toList_some]

/-- The words behind the MAC address. -/
def conditionsText (e : AclExtended) : List Word :=
  (nonEmpty (protocolText e.protocol)).toList ++ printNetwork e.ip e.maskBits ::
    ((nonEmpty (printUnless 0 e.port.toNat)).toList ++ (destinationText e ++
      ((nonEmpty (printUnless 0 e.destPort.toNat)).toList ++
        (nonEmpty (constring e.constate)).toList)))

theorem filter_extended (acl : Acl) (e : AclExtended) :
    (printExtendedAclEntry acl e).filter (· ≠ []) =
      printHead acl ++ ((nonEmpty (macText e.mac)).toList ++ conditionsText e) := by
  simp only [printExtendedAclEntry, List.append_assoc, filter_printHead, List.cons_append,
    List.nil_append, filter_nonEmpty, filter_destinationText, List.filter_nil,
    nonEmpty_of_ne (printNetwork_ne_nil _ _), conditionsText, Option.toList_some, List.append_nil]

theorem filter_icmp (acl : Acl) (e : AclIcmp) (noMac : e.mac = zeroMac) :
    (printIcmpAclEntry acl e).filter (· ≠ []) =
      printHead acl ++ Token.icmp.text :: printNetwork e.ip e.maskBits ::
        printNetwork e.destIp e.destMaskBits ::
          (nonEmpty (printUnless 0 e.icmpType.toNat)).toList := by
  have empty : macText e.mac = [] := by
    rw [noMac]
    rfl
  simp only [printIcmpAclEntry, filter_printHead, empty, filter_nonEmpty, List.filter_nil,
    nonEmpty_of_ne (printNetwork_ne_nil _ _),
    nonEmpty_of_ne (show Token.icmp.text ≠ [] by decide), Option.toList_some, List.append_nil,
    List.cons_append, List.nil_append]
  rfl

theorem filter_standard (acl : Acl) :
    (printStandardAclEntry acl).filter (· ≠ []) = printStandardAclEntry acl := by
  rw [printStandardAclEntry, filter_printHead, filter_nonEmpty,
    nonEmpty_of_ne (printNetwork_ne_nil _ _)]
  rfl

end Lines

section Reading

variable {env : Env} {acl : Acl} {e : AclExtended} {args : List Word}

/-- The entry that its line stands for. -/
def reread : AclData → AclData
  | .simple e => .simple { e with maskBits := (rereadNet e.ip e.maskBits).2 }
  | .extended e => .extended
    { e with
      maskBits := (rereadNet e.ip e.maskBits).2
      destMaskBits := (rereadNet e.destIp e.destMaskBits).2 }
  | .icmp e => .icmp
    { e with
      maskBits := (rereadNet e.ip e.maskBits).2
      destMaskBits := (rereadNet e.destIp e.destMaskBits).2 }

theorem readHead (acl : Acl) (args : List Word) :
    readNo (printHead acl ++ args) =
      .ok (false, decimal acl.listNumber.toNat :: Action.text acl.action :: args) :=
  readNo_head forall_mem_none

theorem readNumber_decimal (number : BitVec 8) (args : List Word) :
    readNumber (decimal number.toNat :: args) = .ok (number, args) := by
  have bound := number.isLt
  simp only [readNumber, next, ok_bind, pure_eq_ok,
    atoi_decimal (show number.toNat < 2 ^ 32 by omega)]
  rw [BitVec.setWidth_ofNat_of_le (by decide), BitVec.ofNat_toNat, BitVec.setWidth_eq]

theorem readAction_text (action : Action) (args : List Word) :
    readAction (Action.text action :: args) = .ok (action, args) := by
  cases action <;> rfl

theorem netToken_cases (token : Token) (ip : BitVec 32) :
    netToken token ip = .any ∨ netToken token ip = token := by
  rw [netToken]
  split_ifs
  · exact .inl rfl
  · exact .inr rfl

theorem noColon_printNetwork {ip : BitVec 32} {bits : Nat} (fits : IsNet (ip, bits)) :
    ':' ∉ printNetwork ip bits ∧ isnum (printNetwork ip bits) = false ∧
      printNetwork ip bits ≠ "tcp".toList ∧ printNetwork ip bits ≠ "udp".toList ∧
      printNetwork ip bits ≠ Token.icmp.text := by
  have accepted : accepts ⟨fun _ => false, []⟩ (netToken .cidrnet ip) (printNetwork ip bits) =
      true :=
    accepts_printNetwork (.inl rfl) fits
  exact noColon_of_source ((netToken_cases .cidrnet ip).imp_right .inl) accepted

theorem readNetwork_printed (text : String) {ip : BitVec 32} {bits : Nat}
    (fits : IsNet (ip, bits)) (args : List Word) :
    readNetwork text (printNetwork ip bits :: args) = .ok (rereadNet ip bits, args) := by
  have accepted : accepts ⟨fun _ => false, []⟩ (netToken .cidrnet ip) (printNetwork ip bits) =
      true :=
    accepts_printNetwork (.inl rfl) fits
  rw [readNetwork_head text ((netToken_cases .cidrnet ip).imp_right .inl) accepted,
    network_printNetwork (.inl rfl) fits]

theorem readStandard_printed {e : AclSimple} (isData : acl.data = .simple e)
    (fits : IsNet (e.ip, e.maskBits)) :
    readStandard (printStandardAclEntry acl) =
      .ok (false, { acl with data := reread acl.data }) := by
  simp only [readStandard, printStandardAclEntry, readHead, ok_bind, readNumber_decimal,
    readAction_text, isData, source, readNetwork_printed _ fits, pure_eq_ok]
  rfl

theorem readIcmp_printed {e : AclIcmp} (isData : acl.data = .icmp e) (fits : IcmpFits e) :
    readIcmp ((printIcmpAclEntry acl e).filter (· ≠ [])) =
      .ok (false, { acl with data := reread acl.data }) := by
  have skipped (args : List Word) : readMacIcmp (Token.icmp.text :: args) =
      .ok (zeroMac, args) := rfl
  have bound := e.icmpType.isLt
  have types : readIcmpType (nonEmpty (printUnless 0 e.icmpType.toNat)).toList = e.icmpType := by
    rw [printUnless]
    by_cases zero : e.icmpType.toNat = 0
    · rw [if_pos zero]
      exact (BitVec.eq_of_toNat_eq zero).symm
    · rw [if_neg zero, nonEmpty_of_ne (decimal_ne_nil _)]
      change atoi (decimal e.icmpType.toNat) = e.icmpType
      rw [atoi_decimal bound, BitVec.ofNat_toNat, BitVec.setWidth_eq]
  rw [filter_icmp acl e fits.mac]
  simp only [readIcmp, readHead, ok_bind, readNumber_decimal, readAction_text, skipped,
    readIcmpConditions, readNetwork_printed _ fits.source, readNetwork_printed _ fits.destination,
    types, pure_eq_ok, isData]
  rw [← fits.mac]
  rfl

theorem readProtocol_printed (protocol : BitVec 8) {word : Word} (args : List Word)
    (other : isnum word = false) (notTcp : word ≠ "tcp".toList) (notUdp : word ≠ "udp".toList) :
    readProtocol ((nonEmpty (protocolText protocol)).toList ++ word :: args) =
      .ok (protocol, word :: args) := by
  have bound := protocol.isLt
  rw [protocolText]
  by_cases none : protocol = 255
  · rw [if_pos none]
    have read := @readProtocol_head _ args _ forall_mem_none other
      notTcp notUdp
    rw [none]
    exact read
  · rw [if_neg none]
    by_cases tcp : protocol = 6
    · rw [if_pos tcp, tcp]
      rfl
    · rw [if_neg tcp]
      by_cases udp : protocol = 17
      · rw [if_pos udp, udp]
        rfl
      · rw [if_neg udp, nonEmpty_of_ne (decimal_ne_nil _)]
        have isNumber : ∀ w ∈ some (decimal protocol.toNat), isnum w = true := by
          intro w member
          cases member
          exact isnum_decimal _
        rw [readProtocol_head isNumber other notTcp notUdp, Option.map_some, Option.getD_some,
          atoi_decimal (by omega), BitVec.setWidth_ofNat_of_le (by decide), BitVec.ofNat_toNat,
          BitVec.setWidth_eq]

theorem port_printed (port : BitVec 16) :
    (((nonEmpty (printUnless 0 port.toNat)).map atoi).getD 0).setWidth 16 = port ∧
      ∀ w ∈ nonEmpty (printUnless 0 port.toNat), isnum w = true := by
  have bound := port.isLt
  rw [printUnless]
  by_cases zero : port.toNat = 0
  · rw [if_pos zero]
    exact ⟨(BitVec.eq_of_toNat_eq zero).symm, forall_mem_none⟩
  · rw [if_neg zero, nonEmpty_of_ne (decimal_ne_nil _)]
    refine ⟨?_, fun w member => ?_⟩
    · rw [Option.map_some, Option.getD_some, atoi_decimal (by omega),
        BitVec.setWidth_ofNat_of_le (by decide), BitVec.ofNat_toNat, BitVec.setWidth_eq]
    · cases member
      exact isnum_decimal _

theorem readDestination_printed (fits : ExtendedFits env e) (args : List Word) :
    readDestination (destinationText e ++ args) =
      .ok (rereadNet e.destIp e.destMaskBits, e.outInterface, args) := by
  rw [destinationText]
  by_cases named : e.outInterface ≠ []
  · obtain ⟨accepted, -, isZero, -⟩ := fits.interface named
    rw [Prod.mk.injEq] at isZero
    rw [if_pos named, isZero.1, isZero.2]
    exact readDestination_interface accepted
  · have empty : e.outInterface = [] := not_not.mp named
    have read := @readDestination_head env _ _ args
      (netToken_cases .cidrnetDestination e.destIp)
      (accepts_printNetwork (.inr rfl) fits.destination)
    rw [if_neg named, empty]
    exact read.trans (by rw [network_printNetwork (.inr rfl) fits.destination])

theorem destinationText_head (fits : ExtendedFits env e) :
    ∃ w args, destinationText e = w :: args ∧ isnum w = false := by
  rw [destinationText]
  by_cases named : e.outInterface ≠ []
  · rw [if_pos named]
    exact ⟨_, _, rfl, by decide⟩
  · rw [if_neg named]
    exact ⟨_, _, rfl, (noColon_printNetwork fits.destination).2.1⟩

theorem constate_printed (fits : ExtendedFits env e) :
    (statesOf (nonEmpty (constring e.constate))).foldl
      (fun bits state => bits ||| (stateBit state).getD 0) 0 = e.constate ∧
    ∀ w ∈ nonEmpty (constring e.constate), accepts env .connectionState w = true := by
  obtain ⟨accepted, value, -, isEmpty⟩ := constring_spec fits.states
  refine ⟨?_, fun w member => ?_⟩
  · by_cases empty : constring e.constate = []
    · rw [empty, isEmpty.mp empty]
      rfl
    · rw [nonEmpty_of_ne empty]
      exact value
  · obtain ⟨rfl, -⟩ := mem_nonEmpty member
    exact accepted

theorem readConditions_printed (fits : ExtendedFits env e) :
    readConditions e.mac (conditionsText e) = .ok
      { e with
        maskBits := (rereadNet e.ip e.maskBits).2
        destMaskBits := (rereadNet e.destIp e.destMaskBits).2 } := by
  obtain ⟨-, notNumber, notTcp, notUdp, -⟩ := noColon_printNetwork fits.source
  have read := readConditions_eq
    (readProtocol_printed e.protocol _ notNumber notTcp notUdp)
    ((netToken_cases .cidrnet e.ip).imp_right .inl) (accepts_printNetwork (.inl rfl) fits.source)
    (port_printed e.port).2 (destinationText_head fits) (readDestination_printed fits)
    (port_printed e.destPort).2 (constate_printed fits).2 e.mac
  rw [(port_printed e.port).1, (port_printed e.destPort).1, (constate_printed fits).1,
    network_printNetwork (.inl rfl) fits.source] at read
  exact read

end Reading

section Grammar

variable {env : Env} {acl : Acl} {e : AclExtended} {items : List Item} {token : Token}
  {words : List Word}

theorem isSome_req {word : Word} (accepted : accepts env token word = true) :
    (captures env (req token :: items) (word :: words)).isSome =
      (captures env items words).isSome := by
  rw [captures_req_cons accepted, Option.isSome_map]

theorem isSome_opt {word : Option Word} (accepted : ∀ w ∈ word, accepts env token w = true)
    (other : word = none → ∀ w ∈ words.head?, accepts env token w = false) :
    (captures env (opt token :: items) (word.toList ++ words)).isSome =
      (captures env items words).isSome := by
  rw [captures_opt_append accepted other, Option.isSome_map]

theorem isSome_last {word : Option Word} (accepted : ∀ w ∈ word, accepts env token w = true) :
    (captures env [opt token] word.toList).isSome = true := by
  have whole := @isSome_opt _ [] _ [] _ accepted fun _ => forall_mem_none
  rw [List.append_nil] at whole
  exact whole

def actionToken : Action → Token
  | .permit => .permit
  | .deny => .deny

theorem isSome_head {number : Token}
    (accepted : accepts env number (decimal acl.listNumber.toNat) = true) :
    (captures env
      (opt .no :: req .accessList :: req number :: req (actionToken acl.action) :: items)
      (printHead acl ++ words)).isSome = (captures env items words).isSome := by
  have isAction : accepts env (actionToken acl.action) (Action.text acl.action) = true := by
    cases acl.action <;> exact (accepts_word rfl).mpr rfl
  have isList : accepts env .accessList Token.accessList.text = true := (accepts_word rfl).mpr rfl
  refine (isSome_opt forall_mem_none fun _ w isHead => ?_).trans ?_
  · cases isHead
    rfl
  · exact (isSome_req isList).trans ((isSome_req accepted).trans (isSome_req isAction))

theorem accepts_extendedNumber {n : Nat} (bounds : 100 ≤ n ∧ n ≤ 199) :
    accepts env .extendedNumber (decimal n) = true :=
  accepts_decimal (a := 100) (b := 199) rfl bounds (by decide)

/-- The words are a command for the handler. -/
def Spoken (env : Env) (words : List Word) (handler : Handler) : Prop :=
  ∃ items, (items, handler) ∈ commands ∧ (captures env items words).isSome = true

theorem spoken_standard {e : AclSimple} (isData : acl.data = .simple e) (fits : Fits env acl) :
    Spoken env (printStandardAclEntry acl) .standard := by
  rw [Fits, isData] at fits
  obtain ⟨number, net⟩ := fits
  refine ⟨[opt .no, req .accessList, req .standardNumber, req (actionToken acl.action),
    req (netToken .cidrnet e.ip)], ?_, ?_⟩
  · rcases netToken_cases .cidrnet e.ip with same | same <;> rw [same] <;>
      cases acl.action <;> decide
  · have isNumber : accepts env .standardNumber (decimal acl.listNumber.toNat) = true :=
      accepts_decimal (a := 1) (b := 99) rfl number (by decide)
    rw [printStandardAclEntry, isData]
    exact (isSome_head isNumber).trans (isSome_req (accepts_printNetwork (.inl rfl) net))

theorem spoken_icmp {e : AclIcmp} (isData : acl.data = .icmp e) (fits : Fits env acl) :
    Spoken env ((printIcmpAclEntry acl e).filter (· ≠ [])) .icmp := by
  rw [Fits, isData] at fits
  obtain ⟨number, fits⟩ := fits
  have isType : ∀ w ∈ nonEmpty (printUnless 0 e.icmpType.toNat),
      accepts env .icmpType w = true := by
    intro w member
    obtain ⟨rfl, nonempty⟩ := mem_nonEmpty member
    rw [printUnless] at nonempty ⊢
    split_ifs at nonempty ⊢
    · exact absurd rfl nonempty
    · rw [accepts_icmpType]
      exact chkRange_decimal ⟨Nat.zero_le _, fits.type⟩ (by decide)
  have isIcmp : accepts env .icmp Token.icmp.text = true := (accepts_word rfl).mpr rfl
  refine ⟨extendedHead (actionToken acl.action) ++ [req .icmp, req (netToken .cidrnet e.ip),
    req (netToken .cidrnetDestination e.destIp), opt .icmpType], ?_, ?_⟩
  · rcases netToken_cases .cidrnet e.ip with same | same <;>
      rcases netToken_cases .cidrnetDestination e.destIp with same' | same' <;>
      rw [same, same'] <;> cases acl.action <;> decide
  · rw [filter_icmp acl e fits.mac]
    refine (isSome_head (accepts_extendedNumber number)).trans ?_
    refine (isSome_opt forall_mem_none fun _ w isHead => ?_).trans ?_
    · cases isHead
      rfl
    · exact (isSome_req isIcmp).trans ((isSome_req (accepts_printNetwork (.inl rfl)
        fits.source)).trans ((isSome_req (accepts_printNetwork (.inr rfl)
          fits.destination)).trans (isSome_last isType)))

theorem macText_spec {mac : List (BitVec 8)} (six : mac.length = 6) :
    (∀ w ∈ nonEmpty (macText mac), accepts env .mac w = true ∧ MacRead w) ∧
      macBytes (nonEmpty (macText mac)) = mac := by
  have scanned : scanMac (fun length => length) (printMac mac) =
      some (mac.map fun x => x.setWidth 32) := scanMac_printMac (fun n two => ⟨n - 2, by omega⟩) six
  have nonempty : printMac mac ≠ [] := List.ne_nil_of_mem (colon_of_scanMac scanned)
  have back : (mac.map fun x => x.setWidth 32).map (fun x => x.setWidth 8) = mac := by
    rw [List.map_map]
    refine (List.map_congr_left fun x _ => ?_).trans (List.map_id mac)
    exact BitVec.setWidth_setWidth_of_le x (by decide)
  rw [macText]
  by_cases zero : isMacAllzero mac = true
  · rw [if_pos zero]
    refine ⟨forall_mem_none, ?_⟩
    rw [isMacAllzero, List.all_eq_true] at zero
    rw [List.eq_replicate_of_mem fun b member => of_decide_eq_true (zero b member), six]
    rfl
  · rw [if_neg zero, nonEmpty_of_ne nonempty]
    refine ⟨fun w member => ?_, ?_⟩
    · cases member
      exact ⟨chkMac_printMac Token.mac.text six, _, scanned, by rw [atomac_printMac six, back]⟩
    · rw [macBytes, Option.bind_some, scanned, Option.map_some, Option.getD_some, back]

end Grammar

section Extended

variable {env : Env} {acl : Acl} {e : AclExtended} {words : List Word}

/-- `tcp` or `udp`. -/
def HasPorts (protocol : BitVec 8) : Prop := protocol = 6 ∨ protocol = 17

instance (protocol : BitVec 8) : Decidable (HasPorts protocol) :=
  inferInstanceAs (Decidable (_ ∨ _))

theorem conditionsText_head (fits : ExtendedFits env e) :
    ∃ w args, conditionsText e = w :: args ∧ ':' ∉ w ∧ w ≠ Token.icmp.text := by
  obtain ⟨noColon, -, -, -, notIcmp⟩ := noColon_printNetwork fits.source
  rw [conditionsText, protocolText]
  split_ifs
  · exact ⟨_, _, rfl, noColon, notIcmp⟩
  · exact ⟨_, _, rfl, by decide, by decide⟩
  · exact ⟨_, _, rfl, by decide, by decide⟩
  · rw [nonEmpty_of_ne (decimal_ne_nil _)]
    have number := isnum_decimal e.protocol.toNat
    refine ⟨_, _, rfl, not_mem_of_isnum number (by decide), fun same => ?_⟩
    rw [same] at number
    revert number
    decide

theorem readExtended_printed (isData : acl.data = .extended e) (fits : ExtendedFits env e) :
    readExtended ((printExtendedAclEntry acl e).filter (· ≠ [])) =
      .ok (false, { acl with data := reread acl.data }) := by
  obtain ⟨w, args, shape, noColon, -⟩ := conditionsText_head fits
  obtain ⟨isMac, bytes⟩ := @macText_spec env _ fits.mac
  have macs := @readMac_head _ args _ (fun w member => (isMac w member).2) noColon
  rw [bytes, ← shape] at macs
  rw [filter_extended]
  simp only [readExtended, readHead, ok_bind, readNumber_decimal, readAction_text, macs,
    readConditions_printed fits, pure_eq_ok, isData]
  rfl

variable {word : Word} {token : Token}

theorem not_mac_of_noColon (noColon : ':' ∉ word) :
    accepts env .mac word = false := by
  cases accepted : accepts env .mac word with
  | false => rfl
  | true => exact absurd (colon_of_mac accepted) noColon

theorem isSome_extendedHead {tail : List Item} (number : 100 ≤ acl.listNumber.toNat ∧
      acl.listNumber.toNat ≤ 199) (fits : ExtendedFits env e) :
    (captures env (extendedHead (actionToken acl.action) ++ tail)
      (printHead acl ++ ((nonEmpty (macText e.mac)).toList ++ conditionsText e))).isSome =
      (captures env tail (conditionsText e)).isSome := by
  obtain ⟨w, args, shape, noColon, -⟩ := conditionsText_head fits
  refine (isSome_head (accepts_extendedNumber number)).trans
    (isSome_opt (fun w member => ((macText_spec fits.mac).1 w member).1) fun _ w isHead => ?_)
  rw [shape] at isHead
  cases isHead
  exact not_mac_of_noColon noColon

theorem not_port_of_not_isnum (isPort : token = .port ∨ token = .portDestination)
    (other : isnum word = false) : accepts env token word = false := by
  rw [accepts_port isPort]
  cases accepted : chkRange 1 65535 word with
  | false => rfl
  | true =>
    rw [isnum_of_chkRange accepted] at other
    cases other

theorem not_number_of_not_isnum {a b : BitVec 32}
    (isNumber : token.bounds = some (a, b)) (other : isnum word = false) :
    accepts env token word = false := by
  rw [accepts_number isNumber, other]
  rfl

theorem accepts_printedPort (isPort : token = .port ∨ token = .portDestination)
    (port : BitVec 16) : ∀ w ∈ nonEmpty (printUnless 0 port.toNat), accepts env token w = true := by
  intro w member
  obtain ⟨rfl, nonempty⟩ := mem_nonEmpty member
  have bound := port.isLt
  rw [printUnless] at nonempty ⊢
  split_ifs at nonempty ⊢
  · exact absurd rfl nonempty
  · rw [accepts_port isPort]
    refine chkRange_decimal ⟨?_, ?_⟩ (by decide)
    · change 1 ≤ port.toNat
      omega
    · change port.toNat ≤ 65535
      omega

theorem spoken_protocol (isData : acl.data = .extended e) (fits : Fits env acl)
    (noPorts : ¬ HasPorts e.protocol) :
    Spoken env ((printExtendedAclEntry acl e).filter (· ≠ [])) .extended := by
  rw [Fits, isData] at fits
  obtain ⟨number, fits⟩ := fits
  have zeros : e.port = 0 ∧ e.destPort = 0 := by
    by_contra some
    exact noPorts (fits.ports (by tauto))
  have isProtocol : ∀ w ∈ nonEmpty (protocolText e.protocol),
      accepts env .protocolNumber w = true := by
    intro w member
    obtain ⟨rfl, nonempty⟩ := mem_nonEmpty member
    rw [HasPorts, not_or] at noPorts
    have bound := e.protocol.isLt
    rw [protocolText, if_neg noPorts.1, if_neg noPorts.2] at nonempty ⊢
    split_ifs at nonempty ⊢
    · exact absurd rfl nonempty
    · exact accepts_decimal (a := 0) (b := 255) rfl ⟨Nat.zero_le _, Nat.le_of_lt_succ bound⟩
        (by decide)
  have isSource : accepts env (netToken .cidrnet e.ip) (printNetwork e.ip e.maskBits) = true :=
    accepts_printNetwork (.inl rfl) fits.source
  have isOut : accepts env .outInterface Token.outInterface.text = true :=
    (accepts_word rfl).mpr rfl
  obtain ⟨destination, isDestination, spoken⟩ : ∃ destination : List Item,
      destination ∈ [[req .cidrnetDestination], [req .any], [req .outInterface, req .interface]] ∧
      ∀ tail words, (captures env (destination ++ tail) (destinationText e ++ words)).isSome =
        (captures env tail words).isSome := by
    rw [destinationText]
    by_cases named : e.outInterface ≠ []
    · refine ⟨_, List.mem_cons_of_mem _ (List.mem_cons_of_mem _ List.mem_cons_self),
        fun tail words => ?_⟩
      rw [if_pos named]
      exact (isSome_req isOut).trans (isSome_req (fits.interface named).1)
    · refine ⟨[req (netToken .cidrnetDestination e.destIp)], ?_, fun tail words => ?_⟩
      · rcases netToken_cases .cidrnetDestination e.destIp with same | same <;> rw [same] <;> simp
      · rw [if_neg named]
        exact isSome_req (accepts_printNetwork (.inr rfl) fits.destination)
  refine ⟨extendedHead (actionToken acl.action) ++
    ([opt .protocolNumber, req (netToken .cidrnet e.ip)] ++ destination ++
      [opt .connectionState]), ?_, ?_⟩
  · have inside : extendedHead (actionToken acl.action) ++
        ([opt .protocolNumber, req (netToken .cidrnet e.ip)] ++ destination ++
          [opt .connectionState]) ∈ protocolCommands := by
      simp only [protocolCommands, List.mem_flatMap, List.mem_map]
      refine ⟨actionToken acl.action, ?_, netToken .cidrnet e.ip, ?_, destination, isDestination,
        ?_⟩
      · cases acl.action <;> decide
      · rcases netToken_cases .cidrnet e.ip with same | same <;> rw [same] <;> simp
      · simp only [List.append_assoc]
    simp only [commands, extendedCommands, List.mem_append, List.mem_map]
    exact .inl (.inr ⟨_, .inl (.inl inside), rfl⟩)
  · rw [filter_extended, isSome_extendedHead number fits, conditionsText, zeros.1, zeros.2]
    refine (isSome_opt isProtocol fun _ w isHead => ?_).trans ?_
    · cases isHead
      exact not_number_of_not_isnum rfl
        (noColon_printNetwork fits.source).2.1
    · refine (isSome_req isSource).trans ((spoken _ _).trans ?_)
      exact isSome_last (constate_printed fits).2

theorem accepts_protocolText (ports : HasPorts e.protocol) :
    ∃ protocol : Token, (protocol = .tcp ∨ protocol = .udp) ∧
      nonEmpty (protocolText e.protocol) = some protocol.text := by
  rw [protocolText]
  rcases ports with tcp | udp
  · rw [tcp]
    exact ⟨.tcp, .inl rfl, rfl⟩
  · rw [udp]
    exact ⟨.udp, .inr rfl, rfl⟩

theorem spoken_ports (isData : acl.data = .extended e) (fits : Fits env acl)
    (ports : HasPorts e.protocol) (kept : e.outInterface ≠ [] → acl.action = .permit) :
    Spoken env ((printExtendedAclEntry acl e).filter (· ≠ [])) .extended := by
  rw [Fits, isData] at fits
  obtain ⟨number, fits⟩ := fits
  obtain ⟨protocol, isTcp, isText⟩ := accepts_protocolText ports
  have isProtocol : accepts env protocol protocol.text = true := by
    rcases isTcp with rfl | rfl <;> exact (accepts_word rfl).mpr rfl
  have isSource : accepts env (netToken .cidrnet e.ip) (printNetwork e.ip e.maskBits) = true :=
    accepts_printNetwork (.inl rfl) fits.source
  have isOut : accepts env .outInterface Token.outInterface.text = true :=
    (accepts_word rfl).mpr rfl
  have sources : netToken .cidrnet e.ip ∈ [Token.cidrnet, .any] := by
    rcases netToken_cases .cidrnet e.ip with same | same <;> rw [same] <;> simp
  have protocols : protocol ∈ [Token.tcp, .udp] := by
    rcases isTcp with rfl | rfl <;> simp
  have states := isSome_last (constate_printed fits).2
  have destPorts : (captures env [opt .portDestination, opt .connectionState]
      ((nonEmpty (printUnless 0 e.destPort.toNat)).toList ++
        (nonEmpty (constring e.constate)).toList)).isSome = true := by
    refine (isSome_opt (accepts_printedPort (.inr rfl) e.destPort)
      fun _ w isHead => ?_).trans states
    exact not_port_of_not_isnum (.inr rfl) (not_isnum_of_states
      ((constate_printed fits).2 w (Option.mem_toList.mp (List.mem_of_mem_head? isHead))))
  have behindSource (items : List Item) :
      (captures env (req protocol :: req (netToken .cidrnet e.ip) :: opt .port :: items)
        (conditionsText e)).isSome = (captures env items (destinationText e ++
          ((nonEmpty (printUnless 0 e.destPort.toNat)).toList ++
            (nonEmpty (constring e.constate)).toList))).isSome := by
    obtain ⟨first, args, shape, other⟩ := destinationText_head fits
    rw [conditionsText, isText]
    refine (isSome_req isProtocol).trans ((isSome_req isSource).trans
      (isSome_opt (accepts_printedPort (.inl rfl) e.port) fun _ w isHead => ?_))
    rw [shape] at isHead
    cases isHead
    exact not_port_of_not_isnum (.inl rfl) other
  by_cases named : e.outInterface ≠ []
  · obtain ⟨accepted, -, -, zero⟩ := fits.interface named
    refine ⟨extendedHead .permit ++ [req protocol, req (netToken .cidrnet e.ip), opt .port,
      req .outInterface, req .interface, opt .connectionState], ?_, ?_⟩
    · have inside : extendedHead .permit ++ [req protocol, req (netToken .cidrnet e.ip), opt .port,
          req .outInterface, req .interface, opt .connectionState] ∈ portInterfaceCommands :=
        List.mem_flatMap.mpr ⟨protocol, protocols, List.mem_map.mpr ⟨_, sources, rfl⟩⟩
      simp only [commands, extendedCommands, List.mem_append, List.mem_map]
      exact .inl (.inr ⟨_, .inr inside, rfl⟩)
    · have head := @isSome_extendedHead _ _ _ ([req protocol, req (netToken .cidrnet e.ip),
        opt .port, req .outInterface, req .interface, opt .connectionState]) number fits
      rw [kept named] at head
      rw [filter_extended]
      refine head.trans ((behindSource _).trans ?_)
      rw [destinationText, if_pos named, zero]
      exact (isSome_req isOut).trans ((isSome_req accepted).trans states)
  · refine ⟨extendedHead (actionToken acl.action) ++ [req protocol, req (netToken .cidrnet e.ip),
      opt .port, req (netToken .cidrnetDestination e.destIp), opt .portDestination,
      opt .connectionState], ?_, ?_⟩
    · have inside : extendedHead (actionToken acl.action) ++ [req protocol,
          req (netToken .cidrnet e.ip), opt .port, req (netToken .cidrnetDestination e.destIp),
          opt .portDestination, opt .connectionState] ∈ portCommands := by
        simp only [portCommands, List.mem_flatMap, List.mem_map]
        refine ⟨actionToken acl.action, ?_, protocol, protocols, _, sources,
          netToken .cidrnetDestination e.destIp, ?_, rfl⟩
        · cases acl.action <;> decide
        · rcases netToken_cases .cidrnetDestination e.destIp with same | same <;> rw [same] <;> simp
      simp only [commands, extendedCommands, List.mem_append, List.mem_map]
      exact .inl (.inr ⟨_, .inl (.inr inside), rfl⟩)
    · rw [filter_extended]
      refine (isSome_extendedHead number fits).trans ((behindSource _).trans ?_)
      rw [destinationText, if_neg named]
      exact (isSome_req (accepts_printNetwork (.inr rfl) fits.destination)).trans destPorts

end Extended

end AclConfig
