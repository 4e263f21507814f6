import Rcp100.Netfilter

/-!
# Rules and what is written

The rule of an entry fires when the packet satisfies the conditions that are written in the
command, except those that the script leaves out.
-/

namespace NetfilterRules

open AccessLists AclWords AclReading AclTable AclEntries AclConfig SpecialTokens IpAddress
  Netfilter
open PacketFilter hiding exec
open CliParser (wordsOf)

section Conditions

variable {packet : Packet}

theorem all_mac (mac : Option (List (BitVec 32))) :
    (macConditions ((mac.map fun mac => mac.map fun b => b.setWidth 8).getD zeroMac)).all
        (holds · packet) =
      (mac.filter fun mac => !isMacAllzero (mac.map fun b => b.setWidth 8)).all
        fun mac => packet.mac = mac.map fun b => b.setWidth 8 := by
  cases mac with
  | none => rfl
  | some mac =>
    rw [Option.map_some, Option.getD_some, macConditions, Option.filter_some]
    by_cases zero : isMacAllzero (mac.map fun b => b.setWidth 8) = true
    · simp [zero]
    · simp [zero, holds]

theorem all_network {condition : BitVec 32 → Nat → Condition} {address : BitVec 32}
    (reads : ∀ ip bits, holds (condition ip bits) packet = inNetwork address ip bits)
    (net : Option (BitVec 32 × Nat)) :
    (if (net.getD (0, 0)).1 = 0 then []
      else [condition (net.getD (0, 0)).1 (net.getD (0, 0)).2]).all (holds · packet) =
      (net.filter fun net => net.1 ≠ 0).all fun net => inNetwork address net.1 net.2 := by
  cases net with
  | none => rfl
  | some net =>
    rw [Option.getD_some, Option.filter_some]
    by_cases zero : net.1 = 0
    · rw [if_pos zero, if_neg (by simp [zero])]
      rfl
    · rw [if_neg zero, if_pos (decide_eq_true zero), List.all_cons, List.all_nil, Bool.and_true,
        reads]
      rfl

theorem all_source (net : Option (BitVec 32 × Nat)) :
    (sourceConditions (net.getD (0, 0)).1 (net.getD (0, 0)).2).all (holds · packet) =
      (net.filter fun net => net.1 ≠ 0).all fun net => inNetwork packet.source net.1 net.2 :=
  all_network (fun _ _ => rfl) net

theorem all_destination (net : Option (BitVec 32 × Nat)) :
    (destinationConditions (net.getD (0, 0)).1 (net.getD (0, 0)).2).all (holds · packet) =
      (net.filter fun net => net.1 ≠ 0).all fun net =>
        inNetwork packet.destination net.1 net.2 :=
  all_network (fun _ _ => rfl) net

theorem setWidth_eq_iff {n : Nat} {small : BitVec n} {large : BitVec 32} (wide : n ≤ 32)
    (fits : large.toNat < 2 ^ n) : small.setWidth 32 = large ↔ small = large.setWidth n := by
  rw [← BitVec.toNat_inj, ← BitVec.toNat_inj, BitVec.toNat_setWidth, BitVec.toNat_setWidth,
    Nat.mod_eq_of_lt fits, Nat.mod_eq_of_lt]
  exact Nat.lt_of_lt_of_le small.isLt (Nat.pow_le_pow_right (by decide) wide)

theorem all_port {port : Option (BitVec 32)} (option : BitVec 16 → Condition) (field : BitVec 16)
    (isOption : ∀ p, holds (option p) packet = decide (field = p))
    (bounds : ∀ p ∈ port, 1 ≤ p.toNat ∧ p.toNat ≤ 65535) :
    (if (port.getD 0).setWidth 16 = (0 : BitVec 16) then []
        else [option ((port.getD 0).setWidth 16)]).all (holds · packet) =
      port.all fun port => field.setWidth 32 = port := by
  cases port with
  | none => rfl
  | some p =>
    obtain ⟨low, high⟩ := bounds p rfl
    have nonzero : p.setWidth 16 ≠ (0 : BitVec 16) := by
      rw [ne_eq, ← BitVec.toNat_inj, BitVec.toNat_setWidth, Nat.mod_eq_of_lt (by omega)]
      change ¬ p.toNat = 0
      omega
    rw [Option.getD_some, if_neg nonzero, List.all_cons, List.all_nil, Bool.and_true, isOption,
      Option.all_some]
    exact decide_eq_decide.mpr (setWidth_eq_iff (by decide) (by omega)).symm

theorem all_protocol {protocol : Option (BitVec 32)}
    (bounds : ∀ p ∈ protocol, p.toNat ≤ 255) :
    (if (protocol.getD 255).setWidth 8 = (255 : BitVec 8) then []
        else [Condition.protocol ((protocol.getD 255).setWidth 8)]).all (holds · packet) =
      (protocol.filter fun number => number ≠ 0 ∧ number ≠ 255).all
        fun number => packet.protocol.setWidth 32 = number := by
  cases protocol with
  | none => rfl
  | some p =>
    have small : p.toNat < 2 ^ 8 := Nat.lt_succ_of_le (bounds p rfl)
    have is (n : BitVec 8) : n = p.setWidth 8 ↔ n.setWidth 32 = p :=
      (setWidth_eq_iff (by decide) small).symm
    have zero : p.setWidth 8 = (0 : BitVec 8) ↔ p = 0 := eq_comm.trans ((is 0).trans eq_comm)
    have most : p.setWidth 8 = (255 : BitVec 8) ↔ p = 255 := eq_comm.trans ((is 255).trans eq_comm)
    rw [Option.getD_some, Option.filter_some]
    by_cases isMost : p = 255
    · rw [if_pos (most.mpr isMost), if_neg (by simp [isMost])]
      rfl
    · rw [if_neg (mt most.mp isMost), List.all_cons, List.all_nil, Bool.and_true, holds]
      by_cases isZero : p = 0
      · rw [zero.mpr isZero, if_neg (by simp [isZero])]
        rfl
      · rw [if_pos (decide_eq_true ⟨isZero, isMost⟩), Option.all_some,
          decide_eq_false (mt zero.mp isZero), Bool.false_or]
        exact decide_eq_decide.mpr (is packet.protocol)

theorem text_of_states {word : Word} (isState : word ∈ states) : ∃ state : ConnState,
    word = state.text := by
  simp only [states, List.mem_cons, List.not_mem_nil, or_false] at isState
  rcases isState with rfl | rfl | rfl | rfl
  · exact ⟨.new, rfl⟩
  · exact ⟨.established, rfl⟩
  · exact ⟨.related, rfl⟩
  · exact ⟨.invalid, rfl⟩

def ConnState.bit : ConnState → BitVec 8
  | .new => 1
  | .established => 2
  | .related => 4
  | .invalid => 8

theorem stateBit_eq (state : ConnState) : stateBit state.text = some (ConnState.bit state) := by
  cases state <;> rfl

theorem mem_stateList (constate : BitVec 8) (state : ConnState) :
    state ∈ stateList constate ↔ constate &&& ConnState.bit state ≠ 0 := by
  cases state <;> simp [stateList, ConnState.bit]

theorem bit_states {l : List Word} (all : ∀ word ∈ l, word ∈ states) (bits : BitVec 8)
    (state : ConnState) :
    (l.foldl (fun bits word => bits ||| (stateBit word).getD 0) bits) &&& ConnState.bit state ≠ 0 ↔
      bits &&& ConnState.bit state ≠ 0 ∨ state.text ∈ l := by
  induction l generalizing bits with
  | nil => simp
  | cons word l ih =>
    obtain ⟨first, rfl⟩ := text_of_states (all word List.mem_cons_self)
    have here : (bits ||| ConnState.bit first) &&& ConnState.bit state ≠ 0 ↔
        bits &&& ConnState.bit state ≠ 0 ∨ state = first := by
      have set : ∀ a b : BitVec 8, a ||| b ≠ 0 ↔ a ≠ 0 ∨ b ≠ 0 := by
        intro a b
        exact (not_congr BitVec.or_eq_zero_iff).trans not_and_or
      have apart : ConnState.bit first &&& ConnState.bit state ≠ 0 ↔ state = first := by
        cases first <;> cases state <;> decide
      rw [BitVec.and_or_distrib_right, set, apart]
    have same : state.text = first.text ↔ state = first := by
      cases state <;> cases first <;> decide
    rw [List.foldl_cons, ih fun w member => all w (List.mem_cons_of_mem _ member), stateBit_eq,
      Option.getD_some, here, List.mem_cons, same, or_assoc]

theorem all_states {l : List Word} (all : ∀ word ∈ l, word ∈ states) :
    (if l.foldl (fun bits word => bits ||| (stateBit word).getD 0) (0 : BitVec 8) ≠ 0 then
        [Condition.states (stateList
          (l.foldl (fun bits word => bits ||| (stateBit word).getD 0) 0))] else []).all
        (holds · packet) =
      (l = [] || packet.state.text ∈ l) := by
  have none (state : ConnState) : ¬ (0 : BitVec 8) &&& ConnState.bit state ≠ 0 := by
    cases state <;> decide
  have read (state : ConnState) := (bit_states all 0 state).trans (or_iff_right (none state))
  cases l with
  | nil => rfl
  | cons word l =>
    obtain ⟨first, isFirst⟩ := text_of_states (all word List.mem_cons_self)
    have some : (word :: l).foldl (fun bits word => bits ||| (stateBit word).getD 0)
        (0 : BitVec 8) ≠ 0 := by
      intro zero
      have set := (read first).mpr (isFirst ▸ List.mem_cons_self)
      rw [zero] at set
      exact none first set
    rw [if_pos some, List.all_cons, List.all_nil, Bool.and_true, holds]
    simp only [mem_stateList, read, List.cons_ne_nil, decide_false, Bool.false_or]

end Conditions

section Patterns

theorem tokens_of_standard : ∀ items ∈ standardCommands, ∀ item ∈ items,
    item.token ∉ [Token.mac, .protocolNumber, .tcp, .udp, .icmp, .port, .cidrnetDestination,
      .interface, .portDestination, .connectionState, .icmpType] := by
  decide +kernel

theorem tokens_of_extended : ∀ items ∈ extendedCommands, ∀ item ∈ items,
    item.token ∉ [Token.icmp, .icmpType] := by
  decide +kernel

theorem tokens_of_icmp : ∀ items ∈ icmpCommands, ∀ item ∈ items,
    item.token ∉ [Token.protocolNumber, .tcp, .udp, .port, .interface, .portDestination,
      .connectionState] := by
  decide +kernel

theorem icmp_of_icmp : ∀ items ∈ icmpCommands, req .icmp ∈ items := by
  decide +kernel

end Patterns

section Rules

variable {env : Env} {items : List Item} {words : List Word} {captured : List (Token × Word)}
  {handler : Handler} {packet : Packet}

theorem chkRange_bounds {least most : BitVec 32} {word : Word}
    (small : least.toNat < 2 ^ 31 ∧ most.toNat < 2 ^ 31)
    (accepted : chkRange least most word = true) :
    least.toNat ≤ (atoi word).toNat ∧ (atoi word).toNat ≤ most.toNat := by
  rw [chkRange, Bool.and_eq_true] at accepted
  obtain ⟨-, accepted⟩ := accepted
  rw [atoi]
  cases scanned : scanInt word with
  | none =>
    rw [scanned] at accepted
    cases accepted
  | some r =>
    simp only [scanned, Bool.not_eq_true', Bool.or_eq_false_iff] at accepted
    exact between_of_slt small accepted.1 accepted.2

section

variable (taken : captures env items words = some captured)

include taken

theorem port_bounds {token : Token} (isPort : token = .port ∨ token = .portDestination) :
    ∀ port ∈ (wordOf captured token).map atoi, 1 ≤ port.toNat ∧ port.toNat ≤ 65535 := by
  intro port member
  obtain ⟨word, isWord, rfl⟩ := Option.map_eq_some_iff.mp member
  have accepted := (wordOf_sound taken isWord).2.1
  rw [accepts_port isPort] at accepted
  exact chkRange_bounds (by decide) accepted

theorem protocol_bounds :
    ∀ number ∈ (written captured).protocol, number.toNat ≤ 255 := by
  intro number member
  rw [written] at member
  simp only at member
  split_ifs at member
  · cases member
    decide
  · cases member
    decide
  · cases member
    decide
  · obtain ⟨word, isWord, rfl⟩ := Option.map_eq_some_iff.mp member
    exact (number_bounds rfl (wordOf_sound taken isWord).2.1).2

theorem states_written :
    ∀ word ∈ (written captured).states, word ∈ states := by
  intro word member
  cases isWord : wordOf captured .connectionState with
  | none =>
    simp only [written, isWord] at member
    cases member
  | some text =>
    have accepted := (wordOf_sound taken isWord).2.1
    rw [accepts_states, List.all_eq_true] at accepted
    simp only [written, isWord] at member
    simpa using accepted word member

theorem wordOf_absent {tokens : List Token}
    (absent : ∀ item ∈ items, item.token ∉ tokens) {token : Token} (inside : token ∈ tokens) :
    wordOf captured token = none :=
  wordOf_none taken fun item member same => absent item member (same ▸ inside)

end

theorem all_behind (member : items ∈ extendedCommands)
    (taken : captures env items words = some captured) :
    (if (written captured).extended.outInterface ≠ [] then
        [Condition.outInterface (written captured).extended.outInterface]
      else destinationConditions (written captured).extended.destIp
        (written captured).extended.destMaskBits).all (holds · packet) =
      (((written captured).destination.filter fun net => net.1 ≠ 0).all
        (fun net => inNetwork packet.destination net.1 net.2) &&
      (written captured).outInterface.all fun name => packet.outInterface = name) := by
  cases isWord : wordOf captured .interface with
  | none =>
    have noName : (written captured).outInterface = none := isWord
    rw [if_neg (by rw [Written.extended, noName]; exact fun h => h rfl), noName, Option.all_none,
      Bool.and_true]
    exact all_destination _
  | some word =>
    have isName : (written captured).outInterface = some word := isWord
    obtain ⟨-, accepted, item, isItem, same⟩ := wordOf_sound taken isWord
    have others := interface_of_extended items member ⟨item, isItem, same⟩
    have noNet : (written captured).destination = none := by
      have none := wordOf_none taken fun item inside => (others item inside).1
      simp only [written, none, Option.bind_none]
    have named : word ≠ [] := by
      rw [accepts_interface, Bool.and_eq_true, List.any_eq_true] at accepted
      obtain ⟨-, name, -, chosen⟩ := accepted
      simp only [Bool.and_eq_true, decide_eq_true_eq] at chosen
      exact chosen.2 ▸ chosen.1.1
    have isOut : (written captured).extended.outInterface = word := by
      rw [Written.extended, isName]
      rfl
    rw [isOut, if_pos named, noNet, isName, Option.filter_none, Option.all_none, Bool.true_and,
      List.all_cons, List.all_nil, Bool.and_true]
    rfl

theorem all_append_eq {front back : List Condition} {a b : Bool}
    (isFront : front.all (holds · packet) = a) (isBack : back.all (holds · packet) = b) :
    (front ++ back).all (holds · packet) = (a && b) := by
  rw [List.all_append, isFront, isBack]

theorem and_swap (a b c d e : Bool) : (a && (b && c) && d && e) = (a && b && d && c && e) := by
  rw [← Bool.and_assoc, Bool.and_right_comm (a && b) c d]

theorem and_rotate (a b c d : Bool) : (a && b && c && d) = (a && c && d && b) := by
  rw [Bool.and_right_comm a b c, Bool.and_right_comm (a && c) b d]

theorem fires_extended (member : items ∈ extendedCommands)
    (taken : captures env items words = some captured) :
    (netfilterAddRule ((written captured).entry .extended)).fires holds packet =
      meets (enforced (written captured)) packet := by
  have noType : (written captured).icmpType = none := by
    have none := wordOf_absent taken (tokens_of_extended items member)
      (show Token.icmpType ∈ _ by decide)
    simp only [written, none, Option.map_none]
  have ports := all_port .sourcePort packet.sourcePort (fun p => rfl)
    (port_bounds taken (.inl rfl))
  have destPorts := all_port .destinationPort packet.destinationPort (fun p => rfl)
    (port_bounds taken (.inr rfl))
  have whole := all_append_eq (all_append_eq (all_append_eq (all_append_eq (all_append_eq
    (all_append_eq (all_mac (written captured).mac)
      (all_protocol (protocol_bounds taken))) (all_source (written captured).source)) ports)
        (all_behind member taken)) destPorts) (all_states (states_written taken))
  refine Eq.trans ?_ (whole.trans ?_)
  · rfl
  · rw [meets, enforced, noType, Option.filter_none, Option.all_none, Bool.and_true]
    exact and_swap _ _ _ _ _

theorem fires_standard (member : items ∈ standardCommands)
    (taken : captures env items words = some captured) :
    (netfilterAddRule ((written captured).entry .standard)).fires holds packet =
      meets (enforced (written captured)) packet := by
  have absent {token : Token} := @wordOf_absent _ _ _ _ taken _
    (tokens_of_standard items member) token
  have sources := @all_source packet (written captured).source
  refine Eq.trans ?_ (sources.trans ?_)
  · rfl
  · simp only [meets, enforced, written, absent (show Token.mac ∈ _ by decide),
      absent (show Token.protocolNumber ∈ _ by decide), absent (show Token.tcp ∈ _ by decide),
      absent (show Token.udp ∈ _ by decide), absent (show Token.icmp ∈ _ by decide),
      absent (show Token.port ∈ _ by decide), absent (show Token.cidrnetDestination ∈ _ by decide),
      absent (show Token.interface ∈ _ by decide),
      absent (show Token.portDestination ∈ _ by decide),
      absent (show Token.connectionState ∈ _ by decide),
      absent (show Token.icmpType ∈ _ by decide), Option.isSome_none, Bool.false_eq_true, if_false,
      Option.map_none, Option.bind_none, Option.getD_none, Option.filter_none, Option.all_none,
      Bool.and_true, Bool.true_and, decide_true, Bool.true_or]

theorem all_type (type : Option (BitVec 32)) :
    (if type.getD 0 = 0 then [] else [Condition.icmpType (type.getD 0)]).all (holds · packet) =
      (type.filter fun type => type ≠ 0).all fun type => packet.icmpType.setWidth 32 = type := by
  cases type with
  | none => rfl
  | some type =>
    rw [Option.getD_some, Option.filter_some]
    by_cases zero : type = 0
    · rw [if_pos zero, if_neg (by simp [zero])]
      rfl
    · rw [if_neg zero, if_pos (decide_eq_true zero), List.all_cons, List.all_nil, Bool.and_true]
      rfl

theorem fires_icmp (member : items ∈ icmpCommands)
    (taken : captures env items words = some captured) :
    (netfilterAddRule ((written captured).entry .icmp)).fires holds packet =
      meets (enforced (written captured)) packet := by
  have absent {token : Token} := @wordOf_absent _ _ _ _ taken _
    (tokens_of_icmp items member) token
  have isIcmp := captures_required taken (icmp_of_icmp items member)
  have protocols : [Condition.protocol 1].all (holds · packet) =
      decide (packet.protocol.setWidth 32 = (1 : BitVec 32)) := by
    have same : packet.protocol.setWidth 32 = (1 : BitVec 32) ↔ packet.protocol = 1 :=
      setWidth_eq_iff (by decide) (by decide)
    rw [List.all_cons, List.all_nil, Bool.and_true, holds, decide_eq_decide.mpr same]
    rfl
  have whole := all_append_eq (all_append_eq (all_append_eq (all_append_eq
    (all_mac (written captured).mac) protocols)
      (all_type (written captured).icmpType)) (all_source (written captured).source))
        (all_destination (written captured).destination)
  refine Eq.trans ?_ (whole.trans ?_)
  · rfl
  · have isProtocol : (written captured).protocol = some 1 := by
      simp only [written, absent (show Token.tcp ∈ _ by decide),
        absent (show Token.udp ∈ _ by decide), isIcmp, Option.isSome_none, Bool.false_eq_true,
        if_false, if_true]
    have protocolLeft : (some (1 : BitVec 32)).filter (fun number => number ≠ 0 ∧ number ≠ 255) =
        some 1 := rfl
    rw [meets, enforced]
    simp only [isProtocol, protocolLeft, Option.all_some]
    simp only [written, absent (show Token.port ∈ _ by decide),
      absent (show Token.interface ∈ _ by decide),
      absent (show Token.portDestination ∈ _ by decide),
      absent (show Token.connectionState ∈ _ by decide), Option.map_none, Option.getD_none,
      Option.all_none, Bool.and_true, decide_true, Bool.true_or]
    exact and_rotate _ _ _ _

end Rules

section Stored

variable {env : Env} {items : List Item} {words : List Word} {captured : List (Token × Word)}
  {handler : Handler} {t t' : Table}

theorem fires_command (member : (items, handler) ∈ commands) (entry : handler ≠ .noAcl)
    (taken : captures env items words = some captured) (packet : Packet) :
    (netfilterAddRule ((written captured).entry handler)).fires holds packet =
      meets (enforced (written captured)) packet := by
  cases commandOf_mem member with
  | standard inside => exact fires_standard inside taken
  | noAcl => exact absurd rfl entry
  | extended inside => exact fires_extended inside taken
  | icmp inside => exact fires_icmp inside taken

/-- The rule of a stored entry does what is left of its command. -/
def Told (env : Env) (s : Stored) : Prop :=
  ∃ r, commandOf env s.command = some r ∧
    ∀ packet, (netfilterAddRule s.acl).fires holds packet = meets (enforced r.2) packet

theorem told_command (member : (items, handler) ∈ commands) (entry : handler ≠ .noAcl)
    (taken : captures env items words = some captured) (plain : MacPlain env words) :
    Told env ⟨(written captured).entry handler, words⟩ := by
  cases found : commandOf env words with
  | none =>
    have none := List.findSome?_eq_none_iff.mp found (items, handler) member
    rw [taken] at none
    cases none
  | some r =>
    obtain ⟨⟨items', handler'⟩, member', isSome⟩ := List.exists_of_findSome?_eq_some found
    obtain ⟨captured', taken', rfl⟩ := Option.map_eq_some_iff.mp isSome
    refine ⟨_, found, fun packet => ?_⟩
    have kinds := (kindOf_command member taken).symm.trans (kindOf_command member' taken')
    subst kinds
    have read := (read_iff member entry taken).mpr (plain items handler captured member entry taken)
    have read' := (read_iff member' entry taken').mpr
      (plain items' handler captured' member' entry taken')
    have same := (Prod.mk.inj (Except.ok.inj (read.symm.trans read'))).2
    simp only [same]
    exact fires_command member' entry taken' packet

theorem mem_processAcl {noform : Bool} {acl : Acl} {argv : List Word} {s : Stored}
    (member : some s ∈ after t (processAcl t noform acl argv)) :
    some s ∈ t ∨ s = ⟨acl, argv⟩ := by
  cases find : aclFind t acl with
  | none =>
    cases noform with
    | true =>
      simp only [processAcl, find, after] at member
      exact .inl member
    | false =>
      cases empty : aclFindEmpty t with
      | none =>
        simp only [processAcl, find, empty, after] at member
        exact .inl member
      | some i =>
        simp only [processAcl, find, empty, after] at member
        exact (List.mem_or_eq_of_mem_set member).imp_right Option.some.inj
  | some i =>
    cases noform with
    | true =>
      simp only [processAcl, find, after] at member
      refine .inl ((List.mem_or_eq_of_mem_set member).resolve_right ?_)
      intro impossible
      cases impossible
    | false =>
      simp only [processAcl, find, after] at member
      exact .inl member

theorem told_exec (plain : MacPlain env words) (all : ∀ s, some s ∈ t → Told env s) :
    ∀ s, some s ∈ exec env t words → Told env s := by
  intro s member
  rcases exec_cases env t words with same | ⟨number, rfl, cleared⟩ |
    ⟨items, handler, captured, noform, acl, isCommand, entry, taken, read, done⟩
  · exact all s (same ▸ member)
  · rw [cleared] at member
    obtain ⟨slot, isSlot, same⟩ := List.mem_map.mp
      (show some s ∈ t.map (clearSlot (atoi number)) from member)
    cases slot with
    | none => cases same
    | some s' =>
      rw [clearSlot] at same
      split_ifs at same
      cases same
      exact all s isSlot
  · have asWritten := (read_iff isCommand entry taken).mpr
      (plain items handler captured isCommand entry taken)
    obtain ⟨rfl, rfl⟩ := Prod.mk.inj (Except.ok.inj (read.symm.trans asWritten))
    rw [done] at member
    rcases mem_processAcl member with old | rfl
    · exact all s old
    · exact told_command isCommand entry taken plain

theorem told_run (env : Env) (lines : List (List Char))
    (plain : ∀ line ∈ lines, MacPlain env (wordsOf line)) :
    ∀ s, some s ∈ run env lines emptyTable → Told env s := by
  induction lines using List.reverseRecOn with
  | nil =>
    intro s member
    cases List.eq_of_mem_replicate (show some s ∈ List.replicate rcpAclLimit none from member)
  | append_singleton lines line ih =>
    have split : run env (lines ++ [line]) emptyTable =
        exec env (run env lines emptyTable) (wordsOf line) := List.foldl_append
    rw [split]
    exact told_exec (plain line (List.mem_append_right _ List.mem_cons_self))
      (ih fun l member => plain l (List.mem_append_left _ member))

end Stored

end NetfilterRules
