import Rcp100.AclWords

/-!
# Reading access list commands

The handlers walk their arguments one after the other. What they read is what is written in the
command, but for MAC addresses; and the words of a command go to its handler.
-/

namespace AclReading

open AccessLists AclWords SpecialTokens IpAddress PrintedNumbers ChainTable
open CliParser (isSpecial)

section Readers

variable {env : Env} {token : Token} {word : Word} {args : List Word}

theorem readNo_head {no : Option Word} (isNo : ∀ w ∈ no, w = Token.no.text) :
    readNo (no.toList ++ Token.accessList.text :: args) = .ok (no.isSome, args) := by
  cases no with
  | none =>
    have other : Token.accessList.text ≠ "no".toList := by decide
    change Except.ok (if Token.accessList.text = "no".toList then _ else _) = _
    rw [if_neg other]
    rfl
  | some w =>
    cases isNo w rfl
    have same : Token.no.text = "no".toList := rfl
    change Except.ok (if Token.no.text = "no".toList then _ else _) = _
    rw [if_pos same]
    rfl

theorem readAction_head {action : Token} (isAction : action = .deny ∨ action = .permit) :
    readAction (action.text :: args) =
      .ok (if action = .deny then .deny else .permit, args) := by
  rcases isAction with rfl | rfl <;> rfl

/-- A MAC address that is read as it is written. -/
def MacRead (word : Word) : Prop :=
  ∃ mac, scanMac (fun length => length) word = some mac ∧
    atomac word = some (mac.map fun b => b.setWidth 8)

/-- The bytes of a MAC address that may be written. -/
def macBytes (mac : Option Word) : List (BitVec 8) :=
  ((mac.bind (scanMac fun length => length)).map fun mac => mac.map fun b => b.setWidth 8).getD
    zeroMac

theorem readMac_head {mac : Option Word} (isRead : ∀ w ∈ mac, MacRead w)
    (other : ':' ∉ word) :
    readMac (mac.toList ++ word :: args) = .ok (macBytes mac, word :: args) := by
  cases mac with
  | none =>
    change readMac (word :: args) = _
    simp only [readMac, atomac_none other]
    rfl
  | some w =>
    obtain ⟨mac, written, read⟩ := isRead w rfl
    change readMac (w :: word :: args) = _
    simp only [readMac, read, macBytes, Option.bind_some, written, Option.map_some,
      Option.getD_some]

theorem readProtocol_head {protocol : Option Word}
    (isNumber : ∀ w ∈ protocol, isnum w = true) (other : isnum word = false)
    (notTcp : word ≠ "tcp".toList) (notUdp : word ≠ "udp".toList) :
    readProtocol (protocol.toList ++ word :: args) =
      .ok (((protocol.map atoi).getD 255).setWidth 8, word :: args) := by
  cases protocol with
  | none =>
    change readProtocol (word :: args) = _
    rw [readProtocol, other, if_neg Bool.false_ne_true, if_neg notTcp, if_neg notUdp]
    rfl
  | some w =>
    change readProtocol (w :: word :: args) = _
    rw [readProtocol, isNumber w rfl, if_pos rfl]
    rfl

/-- What a source, or a destination, stands for. -/
def networkOf (token : Token) (word : Word) : BitVec 32 × Nat :=
  (if token = .any then none else network word).getD (0, 0)

theorem readNetwork_head (text : String) (isSource : token = .any ∨
    token = .cidrnet ∨ token = .cidrnetDestination) (accepted : accepts env token word = true) :
    readNetwork text (word :: args) = .ok (networkOf token word, args) := by
  rcases isSource with rfl | isNet
  · cases (accepts_word rfl).mp accepted
    simp only [readNetwork, next, ok_bind]
    rfl
  · rw [accepts_network isNet] at accepted
    obtain ⟨ip, bits, isNetwork⟩ := isNetwork_of_chkCidrnet accepted
    have notAny : word ≠ "any".toList := isNetwork.ne (by decide)
    have notToken : token ≠ .any := by
      rcases isNet with rfl | rfl <;> decide
    simp only [readNetwork, next, ok_bind, if_neg notAny, isNetwork.readCidr, networkOf,
      if_neg notToken, isNetwork.network, pure_eq_ok, Option.getD_some]

theorem readPort_head {port : Option Word} (isNumber : ∀ w ∈ port, isnum w = true)
    (other : ∀ w ∈ args.head?, isnum w = false) :
    readPort (port.toList ++ args) = (((port.map atoi).getD 0).setWidth 16, args) := by
  cases port with
  | none =>
    change readPort args = _
    cases args with
    | nil => rfl
    | cons w args =>
      rw [readPort, other w rfl, if_neg Bool.false_ne_true]
      rfl
  | some w =>
    change readPort (w :: args) = _
    rw [readPort, isNumber w rfl, if_pos rfl]
    rfl

theorem readDestination_head (isDestination : token = .any ∨ token = .cidrnetDestination)
    (accepted : accepts env token word = true) :
    readDestination (word :: args) = .ok (networkOf token word, [], args) := by
  rcases isDestination with rfl | isNet
  · cases (accepts_word rfl).mp accepted
    simp only [readDestination, next, ok_bind]
    rfl
  · rw [accepts_network (.inr isNet)] at accepted
    obtain ⟨ip, bits, isNetwork⟩ := isNetwork_of_chkCidrnet accepted
    have notAny : word ≠ "any".toList := isNetwork.ne (by decide)
    have notOut : word ≠ "out-interface".toList := isNetwork.ne (by decide)
    have notToken : token ≠ .any := by
      rw [isNet]
      decide
    simp only [readDestination, next, ok_bind, if_neg notAny, if_neg notOut,
      isNetwork.readCidr, networkOf, if_neg notToken, isNetwork.network, pure_eq_ok,
      Option.getD_some]

theorem readDestination_interface (accepted : accepts env .interface word = true) :
    readDestination (Token.outInterface.text :: word :: args) = .ok ((0, 0), word, args) := by
  rw [accepts_interface, Bool.and_eq_true, decide_eq_true_eq] at accepted
  have notAny : Token.outInterface.text ≠ "any".toList := by decide
  have same : Token.outInterface.text = "out-interface".toList := rfl
  simp only [readDestination, next, ok_bind, if_neg notAny, if_pos same, pure_eq_ok]
  rw [rcpMaxIfName, List.take_of_length_le accepted.1]

theorem readStates_states {l : List Word} (all : ∀ state ∈ l, state ∈ states) (bits : BitVec 8) :
    readStates l bits =
      .ok (l.foldl (fun bits state => bits ||| (stateBit state).getD 0) bits) := by
  have known : ∀ state ∈ states, (stateBit state).isSome = true := by
    decide
  induction l generalizing bits with
  | nil => rfl
  | cons state l ih =>
    obtain ⟨bit, isBit⟩ := Option.isSome_iff_exists.mp
      (known state (all state List.mem_cons_self))
    rw [readStates, isBit]
    simp only
    rw [ih fun s member => all s (List.mem_cons_of_mem state member), List.foldl_cons, isBit]
    rfl

/-- The states that may be written. -/
def statesOf (word : Option Word) : List Word := (word.map splitCommas).getD []

theorem readConstate_head {word : Option Word}
    (accepted : ∀ w ∈ word, accepts env .connectionState w = true) :
    readConstate word.toList = .ok ((statesOf word).foldl
      (fun bits state => bits ||| (stateBit state).getD 0) 0) := by
  cases word with
  | none => rfl
  | some w =>
    have all := accepted w rfl
    rw [accepts_states, List.all_eq_true] at all
    exact readStates_states (fun state member => by simpa using all state member) 0

end Readers

section Tails

variable {env : Env} {token : Token} {words : List Word} {back : List (Token × Word)}

/-- The words behind the MAC address of an extended command, as they are read. -/
structure Tail (words : List Word) (back : List (Token × Word)) : Prop where
  start : ∃ word args, words = word :: args ∧ ':' ∉ word ∧ word ≠ Token.icmp.text
  others : ∀ token : Token, token.isHead → wordOf back token = none
  read : ∀ mac, readConditions mac words = .ok { (written back).extended with mac := mac }

variable {source : Token}

theorem noColon_of_source {word : Word} (isSource : source = .any ∨
    source = .cidrnet ∨ source = .cidrnetDestination)
    (accepted : accepts env source word = true) :
    ':' ∉ word ∧ isnum word = false ∧ word ≠ "tcp".toList ∧ word ≠ "udp".toList ∧
      word ≠ Token.icmp.text := by
  rcases isSource with rfl | isNet
  · cases (accepts_word rfl).mp accepted
    decide
  · rw [accepts_network isNet] at accepted
    obtain ⟨ip, bits, isNetwork⟩ := isNetwork_of_chkCidrnet accepted
    exact ⟨isNetwork.noColon, isNetwork.not_isnum, isNetwork.ne (by decide),
      isNetwork.ne (by decide), isNetwork.ne (by decide)⟩

theorem readConditions_eq {protocol : BitVec 8} {word : Word}
    {port destPort state : Option Word} {middle : List Word} {net : BitVec 32 × Nat}
    {interface : Word}
    (isProtocol : readProtocol words =
      .ok (protocol, word :: (port.toList ++ (middle ++ (destPort.toList ++ state.toList)))))
    (isSource : source = .any ∨ source = .cidrnet ∨ source = .cidrnetDestination)
    (accepted : accepts env source word = true) (isPort : ∀ w ∈ port, isnum w = true)
    (notPort : ∃ w args, middle = w :: args ∧ isnum w = false)
    (isDestination : ∀ args, readDestination (middle ++ args) = .ok (net, interface, args))
    (isDestPort : ∀ w ∈ destPort, isnum w = true)
    (isState : ∀ w ∈ state, accepts env .connectionState w = true) (mac : List (BitVec 8)) :
    readConditions mac words = .ok
      { ip := (networkOf source word).1
        maskBits := (networkOf source word).2
        port := ((port.map atoi).getD 0).setWidth 16
        protocol := protocol
        destIp := net.1
        destMaskBits := net.2
        destPort := ((destPort.map atoi).getD 0).setWidth 16
        outInterface := interface
        constate := (statesOf state).foldl (fun bits state => bits ||| (stateBit state).getD 0) 0
        mac := mac } := by
  obtain ⟨first, args, rfl, notNumber⟩ := notPort
  have ports := @readPort_head ((first :: args) ++ (destPort.toList ++ state.toList)) _ isPort
    fun w isHead => by
      cases isHead
      exact notNumber
  have destPorts := readPort_head isDestPort fun w isHead =>
    not_isnum_of_states (isState w (Option.mem_toList.mp (List.mem_of_mem_head? isHead)))
  simp only [readConditions, isProtocol, readNetwork_head _ isSource accepted, ok_bind, ports,
    isDestination, destPorts, readConstate_head isState, pure_eq_ok]

theorem forall_mem_none {p : Word → Prop} : ∀ w ∈ (none : Option Word), p w := by
  intro w impossible
  cases impossible

theorem tail_protocol (isSource : source = .cidrnet ∨ source = .any)
    {destination : List Item} (isDestination : destination = [req .cidrnetDestination] ∨
      destination = [req .any] ∨ destination = [req .outInterface, req .interface])
    (taken : captures env ([opt .protocolNumber, req source] ++ destination ++
      [opt .connectionState]) words = some back) : Tail words back := by
  rw [List.append_assoc, List.cons_append, List.cons_append, List.nil_append] at taken
  obtain ⟨protocol, words, back, rfl, rfl, isProtocol, taken⟩ := captures_opt taken
  obtain ⟨word, words, back, rfl, rfl, accepted, taken⟩ := captures_req taken
  have isNumber : ∀ w ∈ protocol, isnum w = true := fun w member =>
    isnum_of_accepts rfl (isProtocol w member)
  have isSource' : source = .any ∨ source = .cidrnet ∨ source = .cidrnetDestination :=
    isSource.elim (fun h => .inr (.inl h)) .inl
  obtain ⟨noColon, notNumber, notTcp, notUdp, notIcmp⟩ := noColon_of_source isSource' accepted
  have start : ∃ first args, protocol.toList ++ word :: words = first :: args ∧ ':' ∉ first ∧
      first ≠ Token.icmp.text := by
    cases protocol with
    | none => exact ⟨word, words, rfl, noColon, notIcmp⟩
    | some w =>
      refine ⟨w, word :: words, rfl, not_mem_of_isnum (isNumber w rfl) (by decide), ?_⟩
      rintro rfl
      exact absurd (isNumber _ rfl) (by decide)
  have protocols (args : List Word) := @readProtocol_head _ args _ isNumber notNumber notTcp
    notUdp
  have kinds : (∃ token, (token = .any ∨ token = .cidrnetDestination) ∧
      destination = [req token]) ∨ destination = [req .outInterface, req .interface] := by
    rcases isDestination with h | h | h
    · exact .inl ⟨_, .inr rfl, h⟩
    · exact .inl ⟨_, .inl rfl, h⟩
    · exact .inr h
  rcases kinds with ⟨token, isNet, rfl⟩ | rfl
  · obtain ⟨d, words, back, rfl, rfl, acceptedD, taken⟩ := captures_req taken
    obtain ⟨state, words, back, rfl, rfl, isState, taken⟩ := captures_opt taken
    obtain ⟨rfl, rfl⟩ := captures_nil taken
    rw [List.append_nil] at start ⊢
    refine ⟨start, ?_, fun mac => ?_⟩
    · rintro head (rfl | rfl | rfl | rfl | rfl | rfl | rfl) <;> rcases isSource with rfl | rfl <;>
        rcases isNet with rfl | rfl <;> simp
    · refine (readConditions_eq (protocols _)
        isSource' accepted forall_mem_none
        ⟨d, [], rfl, (noColon_of_source (isNet.imp_right .inr) acceptedD).2.1⟩
        (fun args => readDestination_head isNet acceptedD) forall_mem_none isState mac).trans ?_
      rcases isSource with rfl | rfl <;> rcases isNet with rfl | rfl <;>
        simp [written, Written.extended, networkOf, statesOf]
  · obtain ⟨o, words, back, rfl, rfl, acceptedO, taken⟩ := captures_req taken
    obtain ⟨d, words, back, rfl, rfl, acceptedD, taken⟩ := captures_req taken
    obtain ⟨state, words, back, rfl, rfl, isState, taken⟩ := captures_opt taken
    obtain ⟨rfl, rfl⟩ := captures_nil taken
    cases (accepts_word rfl).mp acceptedO
    rw [List.append_nil] at start ⊢
    refine ⟨start, ?_, fun mac => ?_⟩
    · rintro head (rfl | rfl | rfl | rfl | rfl | rfl | rfl) <;> rcases isSource with rfl | rfl <;>
        simp
    · refine (readConditions_eq
        (protocols _) isSource' accepted forall_mem_none
        ⟨_, [d], rfl, by decide⟩ (fun args => readDestination_interface acceptedD)
        forall_mem_none isState mac).trans ?_
      rcases isSource with rfl | rfl <;> simp [written, Written.extended, networkOf, statesOf]

theorem isnum_of_port {port : Option Word} (kind : token = .port ∨ token = .portDestination)
    (accepted : ∀ w ∈ port, accepts env token w = true) : ∀ w ∈ port, isnum w = true := by
  intro w member
  have chosen := accepted w member
  rw [accepts_port kind] at chosen
  exact isnum_of_chkRange chosen

theorem protocol_head {word : Word} (isProtocol : token = .tcp ∨ token = .udp)
    (accepted : accepts env token word = true) : ':' ∉ word ∧ word ≠ Token.icmp.text ∧
      ∀ args, readProtocol (word :: args) = .ok (if token = .tcp then 6 else 17, args) := by
  rcases isProtocol with rfl | rfl <;> cases (accepts_word rfl).mp accepted <;>
    exact ⟨by decide, by decide, fun args => rfl⟩

theorem tail_port {protocol destination : Token} (isProtocol : protocol = .tcp ∨
      protocol = .udp) (isSource : source = .cidrnet ∨ source = .any)
    (isDestination : destination = .cidrnetDestination ∨ destination = .any)
    (taken : captures env [req protocol, req source, opt .port, req destination,
      opt .portDestination, opt .connectionState] words = some back) : Tail words back := by
  obtain ⟨p, words, back, rfl, rfl, acceptedP, taken⟩ := captures_req taken
  obtain ⟨word, words, back, rfl, rfl, accepted, taken⟩ := captures_req taken
  obtain ⟨port, words, back, rfl, rfl, acceptedPort, taken⟩ := captures_opt taken
  obtain ⟨d, words, back, rfl, rfl, acceptedD, taken⟩ := captures_req taken
  obtain ⟨destPort, words, back, rfl, rfl, acceptedDest, taken⟩ := captures_opt taken
  obtain ⟨state, words, back, rfl, rfl, isState, taken⟩ := captures_opt taken
  obtain ⟨rfl, rfl⟩ := captures_nil taken
  rw [List.append_nil, List.append_nil]
  have isNet : destination = .any ∨ destination = .cidrnetDestination := isDestination.symm
  obtain ⟨noColon, notIcmp, read⟩ := protocol_head isProtocol acceptedP
  refine ⟨⟨p, _, rfl, noColon, notIcmp⟩, ?_, fun mac => ?_⟩
  · rintro head (rfl | rfl | rfl | rfl | rfl | rfl | rfl) <;> rcases isSource with rfl | rfl <;>
      rcases isProtocol with rfl | rfl <;> rcases isDestination with rfl | rfl <;> simp
  · refine (readConditions_eq (read _)
      (isSource.elim (fun h => .inr (.inl h)) .inl) accepted
      (isnum_of_port (.inl rfl) acceptedPort)
      ⟨d, [], rfl, (noColon_of_source (isNet.imp_right .inr) acceptedD).2.1⟩
      (fun args => readDestination_head isNet acceptedD)
      (isnum_of_port (.inr rfl) acceptedDest) isState mac).trans ?_
    rcases isSource with rfl | rfl <;> rcases isProtocol with rfl | rfl <;>
      rcases isDestination with rfl | rfl <;>
      simp [written, Written.extended, networkOf, statesOf]

theorem tail_portInterface {protocol : Token} (isProtocol : protocol = .tcp ∨
      protocol = .udp) (isSource : source = .cidrnet ∨ source = .any)
    (taken : captures env [req protocol, req source, opt .port, req .outInterface,
      req .interface, opt .connectionState] words = some back) : Tail words back := by
  obtain ⟨p, words, back, rfl, rfl, acceptedP, taken⟩ := captures_req taken
  obtain ⟨word, words, back, rfl, rfl, accepted, taken⟩ := captures_req taken
  obtain ⟨port, words, back, rfl, rfl, acceptedPort, taken⟩ := captures_opt taken
  obtain ⟨o, words, back, rfl, rfl, acceptedO, taken⟩ := captures_req taken
  obtain ⟨d, words, back, rfl, rfl, acceptedD, taken⟩ := captures_req taken
  obtain ⟨state, words, back, rfl, rfl, isState, taken⟩ := captures_opt taken
  obtain ⟨rfl, rfl⟩ := captures_nil taken
  cases (accepts_word rfl).mp acceptedO
  rw [List.append_nil, List.append_nil]
  obtain ⟨noColon, notIcmp, read⟩ := protocol_head isProtocol acceptedP
  refine ⟨⟨p, _, rfl, noColon, notIcmp⟩, ?_, fun mac => ?_⟩
  · rintro head (rfl | rfl | rfl | rfl | rfl | rfl | rfl) <;> rcases isSource with rfl | rfl <;>
      rcases isProtocol with rfl | rfl <;> simp
  · refine (readConditions_eq
      (read _) (isSource.elim (fun h => .inr (.inl h)) .inl) accepted
      (isnum_of_port (.inl rfl) acceptedPort)
      ⟨_, [d], rfl, by decide⟩ (fun args => readDestination_interface acceptedD) forall_mem_none
      isState mac).trans ?_
    rcases isSource with rfl | rfl <;> rcases isProtocol with rfl | rfl <;>
      simp [written, Written.extended, networkOf, statesOf]

end Tails

section Extended

variable {env : Env} {items : List Item} {words : List Word} {captured : List (Token × Word)}

theorem captures_head {action : Token} (isAction : action = .deny ∨ action = .permit)
    (taken : captures env (extendedHead action ++ items) words = some captured) :
    ∃ no number mac rest back,
      words = no.toList ++ Token.accessList.text :: number :: action.text :: (mac.toList ++ rest) ∧
      captured = optional .no no ++ (.accessList, Token.accessList.text) ::
        (.extendedNumber, number) :: (action, action.text) :: (optional .mac mac ++ back) ∧
      (∀ w ∈ no, w = Token.no.text) ∧ accepts env .extendedNumber number = true ∧
      (∀ w ∈ mac, accepts env .mac w = true) ∧ captures env items rest = some back := by
  obtain ⟨no, words, back, rfl, rfl, isNo, taken⟩ := captures_opt taken
  obtain ⟨list, words, back, rfl, rfl, isList, taken⟩ := captures_req taken
  obtain ⟨number, words, back, rfl, rfl, isNumber, taken⟩ := captures_req taken
  obtain ⟨word, words, back, rfl, rfl, isWord, taken⟩ := captures_req taken
  obtain ⟨mac, words, back, rfl, rfl, isMac, taken⟩ := captures_opt taken
  have isText : word = action.text := by
    rcases isAction with rfl | rfl <;> exact (accepts_word rfl).mp isWord
  rw [isText, (accepts_word rfl).mp isList]
  exact ⟨no, number, mac, words, back, rfl, rfl,
    fun w member => (accepts_word rfl).mp (isNo w member), isNumber, isMac, taken⟩

theorem tail_of_extended (member : items ∈ extendedCommands) :
    ∃ action tail, (action = .deny ∨ action = .permit) ∧ items = extendedHead action ++ tail ∧
      ∀ env words back, captures env tail words = some back → Tail words back := by
  simp only [extendedCommands, List.mem_append, protocolCommands, portCommands,
    portInterfaceCommands, List.mem_flatMap, List.mem_map] at member
  rcases member with (⟨action, isAction, source, isSource, destination, isDestination, rfl⟩ |
    ⟨action, isAction, protocol, isProtocol, source, isSource, destination, isDestination, rfl⟩) |
    ⟨protocol, isProtocol, source, isSource, rfl⟩
  · refine ⟨action, _, by simpa using isAction, ?_, fun env words back taken =>
      tail_protocol (by simpa using isSource) (by simpa using isDestination) taken⟩
    simp only [List.append_assoc]
  · exact ⟨action, _, by simpa using isAction, rfl, fun env words back taken =>
      tail_port (by simpa using isProtocol) (by simpa using isSource)
        (by simpa using isDestination) taken⟩
  · exact ⟨.permit, _, .inr rfl, rfl, fun env words back taken =>
      tail_portInterface (by simpa using isProtocol) (by simpa using isSource) taken⟩

theorem written_head {action : Token} (isAction : action = .deny ∨ action = .permit)
    (no mac : Option Word) (number : Word) {back : List (Token × Word)}
    (others : ∀ token : Token, token.isHead → wordOf back token = none) :
    written (optional .no no ++ (.accessList, Token.accessList.text) ::
        (.extendedNumber, number) :: (action, action.text) :: (optional .mac mac ++ back)) =
      { written back with
        no := no.isSome
        listNumber := atoi number
        action := if action = .deny then .deny else .permit
        mac := mac.bind (scanMac fun length => length) } := by
  have none' := others
  unfold Token.isHead at none'
  rcases isAction with rfl | rfl <;> simp [written, none']

theorem macRead_of_accepts {mac : Word} (accepted : accepts env .mac mac = true) :
    ∃ bytes, scanMac (fun length => length) mac = some bytes := by
  rw [accepts_mac, chkMac] at accepted
  cases scanned : scanMac (fun length => length) mac with
  | none =>
    rw [scanned] at accepted
    cases accepted
  | some bytes => exact ⟨bytes, rfl⟩

/-- A MAC address that `%2x` does not read is taken for a network, which it is not. -/
theorem readConditions_mac {mac : Word} (accepted : accepts env .mac mac = true)
    (bytes : List (BitVec 8)) (args : List Word) :
    readConditions bytes (mac :: args) =
      .error (.message "Error: invalid source IP address\n") := by
  obtain ⟨scan, scanned⟩ := macRead_of_accepts accepted
  have colon := colon_of_scanMac scanned
  have ne {other : Word} (noColon : ':' ∉ other) : mac ≠ other := by
    rintro rfl
    exact noColon colon
  have notNumber : isnum mac = false := by
    rw [Bool.eq_false_iff]
    exact fun number => not_mem_of_isnum number (by decide) colon
  have protocols := @readProtocol_head _ args _ forall_mem_none notNumber
    (ne (by decide)) (ne (by decide))
  have notAny : mac ≠ "any".toList := ne (by decide)
  rw [Option.toList_none, List.nil_append] at protocols
  simp only [readConditions, protocols, ok_bind, readNetwork, next, if_neg notAny, readCidr,
    atocidr_none_of_scanMac scanned, error_bind]

theorem readExtended_iff (member : items ∈ extendedCommands)
    (taken : captures env items words = some captured) :
    readExtended words = .ok ((written captured).no,
        (written captured).acl (.extended (written captured).extended)) ↔
      ∀ w ∈ wordOf captured .mac, MacRead w := by
  obtain ⟨action, tail, isAction, rfl, isTail⟩ := tail_of_extended member
  obtain ⟨no, number, mac, rest, back, rfl, rfl, isNo, -, isMac, taken⟩ :=
    captures_head isAction taken
  obtain ⟨⟨first, args, rfl, noColon, -⟩, others, read⟩ := isTail env rest back taken
  have isMacWord : wordOf (optional .no no ++ (.accessList, Token.accessList.text) ::
      (.extendedNumber, number) :: (action, action.text) :: (optional .mac mac ++ back)) .mac =
        mac := by
    have absent := others .mac (by simp [Token.isHead])
    rcases isAction with rfl | rfl <;> simp [absent]
  rw [isMacWord, written_head isAction no mac number others]
  simp only [readExtended, readNo_head isNo, readNumber, next, ok_bind, pure_eq_ok,
    readAction_head isAction]
  constructor
  · intro same
    cases mac with
    | none => exact forall_mem_none
    | some w =>
      intro w' isW
      cases isW
      have accepted := isMac w rfl
      obtain ⟨scan, scanned⟩ := macRead_of_accepts accepted
      refine ⟨scan, scanned, ?_⟩
      cases bytes : atomac w with
      | none =>
        simp only [Option.toList_some, List.cons_append, List.nil_append, readMac, bytes, ok_bind,
          readConditions_mac accepted, error_bind] at same
        cases same
      | some bytes' =>
        simp only [Option.toList_some, List.cons_append, List.nil_append, readMac, bytes, ok_bind,
          read, Written.acl, Written.extended, Except.ok.injEq, Prod.mk.injEq,
          Acl.mk.injEq, AclData.extended.injEq, AclExtended.mk.injEq, Option.bind_some, scanned,
          Option.map_some, Option.getD_some] at same
        rw [same.2.1.2.2.2.2.2.2.2.2.2]
  · intro isRead
    simp only [readMac_head isRead noColon, ok_bind, read]
    rfl

end Extended

section Others

variable {env : Env} {items : List Item} {words : List Word} {captured : List (Token × Word)}

theorem captures_standard (member : items ∈ standardCommands)
    (taken : captures env items words = some captured) :
    ∃ no number action source word, (action = .deny ∨ action = .permit) ∧
      (source = .cidrnet ∨ source = .any) ∧
      words = no.toList ++ Token.accessList.text :: number :: [Token.text action, word] ∧
      captured = optional .no no ++ [(.accessList, Token.accessList.text),
        (.standardNumber, number), (action, action.text), (source, word)] ∧
      (∀ w ∈ no, w = Token.no.text) ∧ accepts env .standardNumber number = true ∧
      accepts env source word = true := by
  simp only [standardCommands, List.mem_flatMap, List.mem_map] at member
  obtain ⟨action, isAction, source, isSource, rfl⟩ := member
  have isAction : action = .deny ∨ action = .permit := by simpa using isAction
  obtain ⟨no, words, back, rfl, rfl, isNo, taken⟩ := captures_opt taken
  obtain ⟨list, words, back, rfl, rfl, isList, taken⟩ := captures_req taken
  obtain ⟨number, words, back, rfl, rfl, isNumber, taken⟩ := captures_req taken
  obtain ⟨word, words, back, rfl, rfl, isWord, taken⟩ := captures_req taken
  obtain ⟨net, words, back, rfl, rfl, accepted, taken⟩ := captures_req taken
  obtain ⟨rfl, rfl⟩ := captures_nil taken
  have isText : word = action.text := by
    rcases isAction with rfl | rfl <;> exact (accepts_word rfl).mp isWord
  rw [isText, (accepts_word rfl).mp isList]
  exact ⟨no, number, action, source, net, isAction, by simpa using isSource, rfl, rfl,
    fun w member => (accepts_word rfl).mp (isNo w member), isNumber, accepted⟩

theorem readStandard_written (member : items ∈ standardCommands)
    (taken : captures env items words = some captured) :
    readStandard words = .ok ((written captured).no,
      (written captured).acl (.simple (written captured).simple)) := by
  obtain ⟨no, number, action, source, word, isAction, isSource, rfl, rfl, isNo, -, accepted⟩ :=
    captures_standard member taken
  simp only [readStandard, readNo_head isNo, readNumber, next, ok_bind, pure_eq_ok,
    readAction_head isAction, readNetwork_head _
      (isSource.elim (fun h => .inr (.inl h)) .inl) accepted]
  rcases isAction with rfl | rfl <;> rcases isSource with rfl | rfl <;>
    simp [written, Written.acl, Written.simple, networkOf]

theorem captures_icmp (member : items ∈ icmpCommands)
    (taken : captures env items words = some captured) :
    ∃ no number action mac source word destination net type,
      (action = .deny ∨ action = .permit) ∧ (source = .cidrnet ∨ source = .any) ∧
      (destination = .cidrnetDestination ∨ destination = .any) ∧
      words = no.toList ++ Token.accessList.text :: number :: Token.text action ::
        (mac.toList ++ Token.icmp.text :: word :: net :: type.toList) ∧
      captured = optional .no no ++ (.accessList, Token.accessList.text) ::
        (.extendedNumber, number) :: (action, action.text) :: (optional .mac mac ++
          (.icmp, Token.icmp.text) :: (source, word) :: (destination, net) ::
            optional .icmpType type) ∧
      (∀ w ∈ no, w = Token.no.text) ∧ accepts env .extendedNumber number = true ∧
      (∀ w ∈ mac, accepts env .mac w = true) ∧ accepts env source word = true ∧
      accepts env destination net = true ∧ ∀ w ∈ type, accepts env .icmpType w = true := by
  simp only [icmpCommands, List.mem_flatMap, List.mem_map] at member
  obtain ⟨action, isAction, source, isSource, destination, isDestination, rfl⟩ := member
  have isAction : action = .deny ∨ action = .permit := by simpa using isAction
  obtain ⟨no, number, mac, rest, back, rfl, rfl, isNo, isNumber, isMac, taken⟩ :=
    captures_head isAction taken
  obtain ⟨icmp, words, back, rfl, rfl, isIcmp, taken⟩ := captures_req taken
  obtain ⟨word, words, back, rfl, rfl, accepted, taken⟩ := captures_req taken
  obtain ⟨net, words, back, rfl, rfl, acceptedNet, taken⟩ := captures_req taken
  obtain ⟨type, words, back, rfl, rfl, acceptedType, taken⟩ := captures_opt taken
  obtain ⟨rfl, rfl⟩ := captures_nil taken
  rw [(accepts_word rfl).mp isIcmp, List.append_nil, List.append_nil]
  exact ⟨no, number, action, mac, source, word, destination, net, type, isAction,
    by simpa using isSource, by simpa using isDestination, rfl, rfl, isNo, isNumber, isMac,
    accepted, acceptedNet, acceptedType⟩

theorem readIcmp_iff (member : items ∈ icmpCommands)
    (taken : captures env items words = some captured) :
    readIcmp words = .ok ((written captured).no,
        (written captured).acl (.icmp (written captured).icmp)) ↔
      wordOf captured .mac = none := by
  obtain ⟨no, number, action, mac, source, word, destination, net, type, isAction, isSource,
    isDestination, rfl, rfl, isNo, -, -, accepted, acceptedNet, -⟩ := captures_icmp member taken
  have isMacWord : wordOf (optional .no no ++ (.accessList, Token.accessList.text) ::
      (.extendedNumber, number) :: (action, action.text) :: (optional .mac mac ++
          (.icmp, Token.icmp.text) :: (source, word) :: (destination, net) ::
            optional .icmpType type)) .mac = mac := by
    rcases isAction with rfl | rfl <;> rcases isSource with rfl | rfl <;>
      rcases isDestination with rfl | rfl <;> simp
  have noNetwork (args : List Word) (bytes : List (BitVec 8)) :
      readIcmpConditions bytes (Token.icmp.text :: args) =
        .error (.message "Error: invalid source IP address\n") := rfl
  rw [isMacWord]
  simp only [readIcmp, readNo_head isNo, readNumber, next, ok_bind, pure_eq_ok,
    readAction_head isAction]
  constructor
  · intro same
    cases mac with
    | none => rfl
    | some w =>
      cases bytes : atomac w with
      | none =>
        simp only [Option.toList_some, List.cons_append, List.nil_append, readMacIcmp, bytes,
          ok_bind, noNetwork, error_bind] at same
        cases same
      | some bytes' =>
        simp only [Option.toList_some, List.cons_append, List.nil_append, readMacIcmp, bytes,
          ok_bind, noNetwork, error_bind] at same
        cases same
  · rintro rfl
    have skipped (args : List Word) : readMacIcmp (Token.icmp.text :: args) =
        .ok (zeroMac, args) := rfl
    have types : readIcmpType type.toList = (type.map atoi).getD 0 := by
      cases type <;> rfl
    rw [Option.toList_none, List.nil_append]
    simp only [skipped, ok_bind, readIcmpConditions, readNetwork_head _
      (isSource.elim (fun h => .inr (.inl h)) .inl) accepted, readNetwork_head _
      (isDestination.elim (fun h => .inr (.inr h)) .inl) acceptedNet, types, pure_eq_ok]
    rcases isAction with rfl | rfl <;> rcases isSource with rfl | rfl <;>
      rcases isDestination with rfl | rfl <;>
      simp [written, Written.acl, Written.icmp, networkOf]

end Others

section Handlers

variable {env : Env} {items : List Item} {words : List Word} {captured : List (Token × Word)}
  {handler : Handler}

/-- Which handler the words are for, by where they differ. -/
def kindOf (words : List Word) : Handler :=
  match (if words.head? = some Token.no.text then words.drop 1 else words) with
  | _ :: number :: _ :: word :: rest =>
    if (atoi number).toNat < 100 then .standard
    else if ':' ∈ word then
      if rest.head? = some Token.icmp.text then .icmp else .extended
    else if word = Token.icmp.text then .icmp
    else .extended
  | [_, _] => .noAcl
  | _ => .standard

theorem between_of_slt {v a b : BitVec 32} (small : a.toNat < 2 ^ 31 ∧ b.toNat < 2 ^ 31)
    (low : v.slt a = false) (high : b.slt v = false) : a.toNat ≤ v.toNat ∧ v.toNat ≤ b.toNat := by
  rw [BitVec.slt, decide_eq_false_iff_not, BitVec.toInt_eq_toNat_cond,
    BitVec.toInt_eq_toNat_cond] at low high
  have bound := v.isLt
  split_ifs at low high <;> omega

theorem number_bounds {token : Token} {word : Word} {a b : BitVec 32}
    (isNumber : token.bounds = some (a, b)) (accepted : accepts env token word = true) :
    a.toNat ≤ (atoi word).toNat ∧ (atoi word).toNat ≤ b.toNat := by
  rw [accepts_number isNumber, Bool.and_eq_true, Bool.not_eq_true', Bool.or_eq_false_iff]
    at accepted
  obtain ⟨-, low, high⟩ := accepted
  refine between_of_slt ?_ low high
  cases token <;> cases isNumber <;> decide

theorem drop_no (no : Option Word) (isNo : ∀ w ∈ no, w = Token.no.text) (args : List Word) :
    (if (no.toList ++ Token.accessList.text :: args).head? = some Token.no.text then
      (no.toList ++ Token.accessList.text :: args).drop 1
      else no.toList ++ Token.accessList.text :: args) = Token.accessList.text :: args := by
  cases no with
  | none =>
    have other : Token.accessList.text ≠ Token.no.text := by decide
    exact if_neg fun same => other (Option.some.inj same)
  | some w =>
    cases isNo w rfl
    exact if_pos rfl

theorem kindOf_standard (member : items ∈ standardCommands)
    (taken : captures env items words = some captured) : kindOf words = .standard := by
  obtain ⟨no, number, action, source, word, -, -, rfl, -, isNo, isNumber, -⟩ :=
    captures_standard member taken
  have bounds := number_bounds rfl isNumber
  have small : (atoi number).toNat < 100 := Nat.lt_succ_of_le bounds.2
  simp only [kindOf, drop_no no isNo, small, if_true]

theorem extendedNumber_large {number : Word}
    (accepted : accepts env .extendedNumber number = true) :
    ¬ (atoi number).toNat < 100 :=
  Nat.not_lt.mpr (@number_bounds _ .extendedNumber _ _ _ rfl accepted).1

theorem colon_of_mac {mac : Word} (accepted : accepts env .mac mac = true) : ':' ∈ mac := by
  obtain ⟨bytes, scanned⟩ := macRead_of_accepts accepted
  exact colon_of_scanMac scanned

theorem kindOf_extended (member : items ∈ extendedCommands)
    (taken : captures env items words = some captured) : kindOf words = .extended := by
  obtain ⟨action, tail, isAction, rfl, isTail⟩ := tail_of_extended member
  obtain ⟨no, number, mac, rest, back, rfl, -, isNo, isNumber, isMac, taken⟩ :=
    captures_head isAction taken
  obtain ⟨⟨first, args, rfl, noColon, notIcmp⟩, -, -⟩ := isTail env rest back taken
  have large := extendedNumber_large isNumber
  cases mac with
  | none =>
    rw [kindOf, drop_no no isNo]
    simp only [Option.toList_none, List.nil_append, large, if_false, noColon, notIcmp]
  | some w =>
    have colon := colon_of_mac (isMac w rfl)
    have other : ¬ some first = some Token.icmp.text := fun same => notIcmp (Option.some.inj same)
    rw [kindOf, drop_no no isNo]
    simp only [Option.toList_some, List.cons_append, List.nil_append, large, if_false, colon,
      if_true, List.head?_cons, other]

theorem kindOf_icmp (member : items ∈ icmpCommands)
    (taken : captures env items words = some captured) : kindOf words = .icmp := by
  obtain ⟨no, number, action, mac, source, word, destination, net, type, -, -, -, rfl, -, isNo,
    isNumber, isMac, -⟩ := captures_icmp member taken
  have large := extendedNumber_large isNumber
  have noColon : ':' ∉ Token.icmp.text := by decide
  cases mac with
  | none =>
    rw [kindOf, drop_no no isNo]
    simp only [Option.toList_none, List.nil_append, large, if_false, noColon, if_true]
  | some w =>
    have colon := colon_of_mac (isMac w rfl)
    rw [kindOf, drop_no no isNo]
    simp only [Option.toList_some, List.cons_append, List.nil_append, large, if_false, colon,
      if_true, List.head?_cons]

theorem captures_no (member : items ∈ noCommands)
    (taken : captures env items words = some captured) :
    ∃ number, words = [Token.no.text, Token.accessList.text, number] := by
  simp only [noCommands, List.mem_map] at member
  obtain ⟨token, -, rfl⟩ := member
  obtain ⟨no, words, back, rfl, rfl, isNo, taken⟩ := captures_req taken
  obtain ⟨list, words, back, rfl, rfl, isList, taken⟩ := captures_req taken
  obtain ⟨number, words, back, rfl, rfl, isNumber, taken⟩ := captures_req taken
  obtain ⟨rfl, rfl⟩ := captures_nil taken
  rw [(accepts_word rfl).mp isNo, (accepts_word rfl).mp isList]
  exact ⟨number, rfl⟩

/-- The grammar of each handler. -/
inductive CommandOf (items : List Item) : Handler → Prop
  | standard (inside : items ∈ standardCommands) : CommandOf items .standard
  | noAcl (inside : items ∈ noCommands) : CommandOf items .noAcl
  | extended (inside : items ∈ extendedCommands) : CommandOf items .extended
  | icmp (inside : items ∈ icmpCommands) : CommandOf items .icmp

theorem commandOf_mem (member : (items, handler) ∈ commands) : CommandOf items handler := by
  simp only [commands, List.mem_append, List.mem_map, Prod.mk.injEq] at member
  rcases member with ((⟨_, inside, rfl, rfl⟩ | ⟨_, inside, rfl, rfl⟩) | ⟨_, inside, rfl, rfl⟩) |
    ⟨_, inside, rfl, rfl⟩
  · exact .standard inside
  · exact .noAcl inside
  · exact .extended inside
  · exact .icmp inside

theorem kindOf_command (member : (items, handler) ∈ commands)
    (taken : captures env items words = some captured) : kindOf words = handler := by
  cases commandOf_mem member with
  | standard inside => exact kindOf_standard inside taken
  | noAcl inside =>
    obtain ⟨number, rfl⟩ := captures_no inside taken
    rfl
  | extended inside => exact kindOf_extended inside taken
  | icmp inside => exact kindOf_icmp inside taken

theorem handlerOf_command (member : (items, handler) ∈ commands)
    (taken : captures env items words = some captured) : handlerOf env words = some handler := by
  have fits : (captures env items words).isSome = true := by
    rw [taken]
    rfl
  rw [handlerOf]
  cases found : commands.find? fun c => (captures env c.1 words).isSome with
  | none =>
    have none := List.find?_eq_none.mp found (items, handler) member
    exact absurd fits none
  | some c =>
    have fits' : (captures env c.1 words).isSome = true :=
      List.find?_some (p := fun c : List Item × Handler => (captures env c.1 words).isSome) found
    obtain ⟨captured', taken'⟩ := Option.isSome_iff_exists.mp fits'
    have same := kindOf_command (List.mem_of_find?_eq_some found)
      taken'
    rw [Option.map_some, ← same, kindOf_command member taken]

theorem command_of_handlerOf (found : handlerOf env words = some handler) :
    ∃ items captured, (items, handler) ∈ commands ∧ captures env items words = some captured := by
  obtain ⟨⟨items, h⟩, isFound, rfl⟩ := Option.map_eq_some_iff.mp found
  have fits : (captures env items words).isSome = true :=
    List.find?_some (p := fun c : List Item × Handler => (captures env c.1 words).isSome) isFound
  obtain ⟨captured, taken⟩ := Option.isSome_iff_exists.mp fits
  exact ⟨items, captured, List.mem_of_find?_eq_some isFound, taken⟩

end Handlers

end AclReading
