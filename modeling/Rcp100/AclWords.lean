import Rcp100.AccessLists

/-!
# The words of access list commands

What is captured for the tokens of a command, and how the words differ that the tokens accept:
networks have dots, MAC addresses have colons, numbers have digits only.
-/

namespace AclWords

open AccessLists SpecialTokens IpAddress PrintedNumbers ChainTable
open CliParser (isSpecial)

section Captures

variable {env : Env} {token : Token} {items : List Item} {words : List Word}
  {captured : List (Token × Word)}

/-- What was captured for an optional token. -/
def optional (token : Token) (word : Option Word) : List (Token × Word) :=
  (word.map (token, ·)).toList

theorem captures_nil (taken : captures env [] words = some captured) :
    words = [] ∧ captured = [] := by
  cases words with
  | nil =>
    cases taken
    exact ⟨rfl, rfl⟩
  | cons word words => cases taken

theorem captures_req (taken : captures env (req token :: items) words = some captured) :
    ∃ word rest back, words = word :: rest ∧ captured = (token, word) :: back ∧
      accepts env token word = true ∧ captures env items rest = some back := by
  cases words with
  | nil => cases taken
  | cons word rest =>
    rw [captures] at taken
    by_cases accepted : accepts env token word = true
    · rw [req, if_pos accepted] at taken
      obtain ⟨back, isBack, rfl⟩ := Option.map_eq_some_iff.mp taken
      exact ⟨word, rest, back, rfl, rfl, accepted, isBack⟩
    · rw [req, if_neg accepted] at taken
      cases taken

theorem captures_opt (taken : captures env (opt token :: items) words = some captured) :
    ∃ word rest back, words = word.toList ++ rest ∧ captured = optional token word ++ back ∧
      (∀ w ∈ word, accepts env token w = true) ∧ captures env items rest = some back := by
  cases words with
  | nil =>
    exact ⟨none, [], captured, rfl, rfl, (fun w impossible => by cases impossible), taken⟩
  | cons word rest =>
    rw [captures] at taken
    by_cases accepted : accepts env token word = true
    · rw [opt, if_pos accepted] at taken
      obtain ⟨back, isBack, rfl⟩ := Option.map_eq_some_iff.mp taken
      refine ⟨some word, rest, back, rfl, rfl, fun w same => ?_, isBack⟩
      cases same
      exact accepted
    · rw [opt, if_neg accepted] at taken
      exact ⟨none, word :: rest, captured, rfl, rfl, (fun w impossible => by cases impossible),
        taken⟩

theorem captures_req_cons {word : Word} (accepted : accepts env token word = true) :
    captures env (req token :: items) (word :: words) =
      (captures env items words).map ((token, word) :: ·) := if_pos accepted

theorem captures_opt_append {word : Option Word} (accepted : ∀ w ∈ word, accepts env token w = true)
    (other : word = none → ∀ w ∈ words.head?, accepts env token w = false) :
    captures env (opt token :: items) (word.toList ++ words) =
      (captures env items words).map (optional token word ++ ·) := by
  cases word with
  | some word => exact if_pos (accepted word rfl)
  | none =>
    have same : (captures env items words).map ((optional token none) ++ ·) =
        captures env items words := Option.map_id_apply
    rw [same]
    cases words with
    | nil => rfl
    | cons word words =>
      have rejected := other rfl word rfl
      change (if accepts env token word = true then _ else _) = _
      rw [rejected]
      rfl

@[simp]
theorem wordOf_cons (capture : Token × Word) (captured : List (Token × Word)) (token : Token) :
    wordOf (capture :: captured) token =
      if capture.1 = token then some capture.2 else wordOf captured token := by
  rw [wordOf, List.find?_cons]
  by_cases same : capture.1 = token
  · simp only [same, decide_true, if_true, Option.map_some]
  · simp only [same, decide_false, if_false]
    rfl

@[simp]
theorem wordOf_append (word : Option Word) (captured : List (Token × Word))
    (token token' : Token) :
    wordOf (optional token word ++ captured) token' =
      if token = token' then word.or (wordOf captured token') else wordOf captured token' := by
  cases word with
  | none =>
    change wordOf captured token' = _
    rw [Option.none_or, ite_self]
  | some word => exact wordOf_cons _ _ _

@[simp]
theorem wordOf_nil (token : Token) : wordOf [] token = none := rfl

@[simp]
theorem wordOf_optional (word : Option Word) (token token' : Token) :
    wordOf (optional token word) token' = if token = token' then word else none := by
  have whole := wordOf_append word [] token token'
  rw [List.append_nil, wordOf_nil, Option.or_none] at whole
  exact whole

theorem captures_sound (taken : captures env items words = some captured) :
    ∀ c ∈ captured, c.2 ∈ words ∧ accepts env c.1 c.2 = true ∧
      ∃ item ∈ items, item.token = c.1 := by
  induction items generalizing words captured with
  | nil =>
    obtain ⟨-, rfl⟩ := captures_nil taken
    exact fun c impossible => absurd impossible List.not_mem_nil
  | cons item items ih =>
    obtain ⟨token, isOptional⟩ := item
    have behind {rest : List Word} {back : List (Token × Word)}
        (taken : captures env items rest = some back) (c : Token × Word) (member : c ∈ back) :
        c.2 ∈ rest ∧ accepts env c.1 c.2 = true ∧
          ∃ item ∈ ⟨token, isOptional⟩ :: items, item.token = c.1 := by
      obtain ⟨inside, accepted, item, isItem, same⟩ := ih taken c member
      exact ⟨inside, accepted, item, List.mem_cons_of_mem _ isItem, same⟩
    cases isOptional with
    | false =>
      obtain ⟨word, rest, back, rfl, rfl, accepted, taken⟩ := captures_req taken
      intro c member
      rcases List.mem_cons.mp member with rfl | member
      · exact ⟨List.mem_cons_self, accepted, _, List.mem_cons_self, rfl⟩
      · obtain ⟨inside, others⟩ := behind taken c member
        exact ⟨List.mem_cons_of_mem word inside, others⟩
    | true =>
      obtain ⟨word, rest, back, rfl, rfl, accepted, taken⟩ := captures_opt taken
      intro c member
      rcases List.mem_append.mp member with chosen | member
      · obtain ⟨w, isWord, rfl⟩ := Option.map_eq_some_iff.mp (Option.mem_toList.mp chosen)
        exact ⟨List.mem_append_left rest (Option.mem_toList.mpr isWord), accepted w isWord, _,
          List.mem_cons_self, rfl⟩
      · obtain ⟨inside, others⟩ := behind taken c member
        exact ⟨List.mem_append_right word.toList inside, others⟩

theorem captures_required (taken : captures env items words = some captured)
    (required : req token ∈ items) : (wordOf captured token).isSome = true := by
  induction items generalizing words captured with
  | nil => exact absurd required List.not_mem_nil
  | cons item items ih =>
    obtain ⟨first, isOptional⟩ := item
    cases isOptional with
    | false =>
      obtain ⟨word, rest, back, rfl, rfl, -, taken⟩ := captures_req taken
      rw [wordOf_cons]
      split_ifs with same
      · rfl
      · refine ih taken ((List.mem_cons.mp required).resolve_left ?_)
        rintro ⟨⟩
        exact same rfl
    | true =>
      obtain ⟨word, rest, back, rfl, rfl, -, taken⟩ := captures_opt taken
      have later := ih taken ((List.mem_cons.mp required).resolve_left (by rintro ⟨⟩))
      rw [wordOf_append]
      split_ifs with same
      · rw [Option.isSome_or, later, Bool.or_true]
      · exact later

theorem wordOf_mem {word : Word} (isWord : wordOf captured token = some word) :
    (token, word) ∈ captured := by
  obtain ⟨c, found, rfl⟩ := Option.map_eq_some_iff.mp isWord
  have same : c.1 = token := of_decide_eq_true
    (List.find?_some (p := fun c : Token × Word => c.1 = token) found)
  rw [← same]
  exact List.mem_of_find?_eq_some found

theorem wordOf_sound (taken : captures env items words = some captured) {word : Word}
    (isWord : wordOf captured token = some word) :
    word ∈ words ∧ accepts env token word = true ∧ ∃ item ∈ items, item.token = token :=
  captures_sound taken _ (wordOf_mem isWord)

end Captures

section Words

variable {env : Env} {word : Word}

theorem scanDigits_suffix (base width acc : Nat) (str : List Char) :
    (scanDigits base width acc str).2.2 <:+ str := by
  induction str generalizing width acc with
  | nil => cases width <;> exact List.suffix_rfl
  | cons c str ih =>
    cases width with
    | zero => exact List.suffix_rfl
    | succ width =>
      rw [scanDigits]
      cases digitValue base c with
      | none => exact List.suffix_rfl
      | some d => exact (ih width _).trans (List.suffix_cons c str)

theorem scanSign_suffix (width : Nat) (str : List Char) : (scanSign width str).2.2 <:+ str := by
  unfold scanSign
  split
  · exact List.suffix_cons _ _
  · exact List.suffix_cons _ _
  · exact List.suffix_rfl

variable {str rest : List Char} {token : Token}

theorem scanHexadecimal_suffix {width : Nat} {negative : Bool}
    {value : Nat} (scanned : scanHexadecimal width str = some (negative, value, rest)) :
    rest <:+ str := by
  have front := (scanSign_suffix width (str.dropWhile isSpace)).trans
    (List.dropWhile_suffix isSpace)
  rw [scanHexadecimal] at scanned
  dsimp only at scanned
  split at scanned
  · cases scanned
  · rename_i isStr
    rw [isStr] at front
    split at scanned
    · split at scanned
      · cases scanned
        exact (scanDigits_suffix ..).trans ((List.suffix_cons _ _).trans
          ((List.suffix_cons _ _).trans front))
      · cases scanned
        exact (scanDigits_suffix ..).trans ((List.suffix_cons _ _).trans front)
    · cases scanned
      exact (List.suffix_cons _ _).trans front
  · split at scanned
    · cases scanned
    · cases scanned
      exact (scanDigits_suffix ..).trans front

theorem scanHex_suffix {width : Nat} {value : BitVec 32}
    (scanned : scanHex width str = some (value, rest)) : rest <:+ str := by
  obtain ⟨⟨negative, magnitude, rest'⟩, isSome, same⟩ := Option.map_eq_some_iff.mp scanned
  cases same
  exact scanHexadecimal_suffix isSome

theorem literal_some {c : Char} (read : literal c str = some rest) :
    str = c :: rest := by
  cases str with
  | nil => cases read
  | cons d str =>
    rw [literal] at read
    split_ifs at read with same
    cases read
    rw [same]

theorem colon_of_scanMac {width : Nat → Nat} {mac : List (BitVec 32)}
    (scanned : scanMac width word = some mac) : ':' ∈ word := by
  rw [scanMac] at scanned
  simp only [Option.bind_eq_bind] at scanned
  obtain ⟨⟨a, rest⟩, first, scanned⟩ := Option.bind_eq_some_iff.mp scanned
  obtain ⟨rest', colon, -⟩ := Option.bind_eq_some_iff.mp scanned
  have shape : rest = ':' :: rest' := literal_some colon
  refine (scanHex_suffix first).subset ?_
  rw [shape]
  exact List.mem_cons_self

theorem colon_of_atomac {mac : List (BitVec 8)} (read : atomac word = some mac) :
    ':' ∈ word := by
  rw [atomac] at read
  split at read
  · cases read
  · rename_i scanned
    exact colon_of_scanMac scanned

theorem atomac_none (noColon : ':' ∉ word) : atomac word = none := by
  cases read : atomac word with
  | none => rfl
  | some mac => exact absurd (colon_of_atomac read) noColon

theorem accepts_word (plain : isSpecial token.text = false) :
    accepts env token word = true ↔ word = token.text := by
  rw [accepts, plain]
  simp only [Bool.false_eq_true, if_false, decide_eq_true_eq]
  exact eq_comm

theorem accepts_mac : accepts env .mac word = chkMac Token.mac.text word := rfl

theorem accepts_network (isNetwork : token = .cidrnet ∨ token = .cidrnetDestination) :
    accepts env token word = chkCidrnet token.text word := by
  rcases isNetwork with rfl | rfl <;> rfl

theorem accepts_port (isPort : token = .port ∨ token = .portDestination) :
    accepts env token word = chkRange 1 65535 word := by
  rcases isPort with rfl | rfl <;> rfl

theorem accepts_states :
    accepts env .connectionState word = (splitCommas word).all states.contains := rfl

theorem accepts_interface : accepts env .interface word =
    (decide (word.length ≤ 15) && env.interfaces.any fun name => name ≠ [] &&
      !interfaceVirtual name && name = word) := rfl

theorem accepts_icmpType : accepts env .icmpType word = chkRange 0 255 word := rfl

theorem accepts_number {a b : BitVec 32} (isNumber : token.bounds = some (a, b)) :
    accepts env token word = (isnum word && !((atoi word).slt a || b.slt (atoi word))) := by
  have chosen : accepts env token word = chkInt2 token.text word := by
    cases token <;> first | rfl | cases isNumber
  have bounds : scanBounds scanInt token.text = some (a, b) := by
    cases token <;> first | cases isNumber; decide | cases isNumber
  rw [chosen, chkInt2, bounds]

end Words

section Kinds

variable {env : Env} {token : Token} {word : Word}

/-- What the word for a network has. -/
structure IsNetwork (word : Word) (ip : BitVec 32) (bits : Nat) : Prop where
  read : atocidr word = some (ip, maskLoop bits 0x80000000 0)
  fits : bits ≤ 32
  within : ip &&& ~~~ maskLoop bits 0x80000000 0 = 0
  unicast : isMulticast ip = false
  dots : word.count '.' = 3
  characters : ∀ c ∈ word, c = '.' ∨ c = '/' ∨ isdigit c = true

theorem isNetwork_of_chkCidrnet (accepted : chkCidrnet token.text word = true) :
    ∃ ip bits, IsNetwork word ip bits := by
  rw [chkCidrnet, Bool.and_eq_true] at accepted
  obtain ⟨bounds, accepted⟩ := accepted
  cases read : atocidr word with
  | none =>
    rw [read] at accepted
    cases accepted
  | some r =>
    obtain ⟨ip, mask⟩ := r
    obtain ⟨bits, fits, rfl⟩ := atocidr_some read
    rw [read] at accepted
    simp only [Bool.and_eq_true, decide_eq_true_eq, Bool.not_eq_true'] at accepted
    rw [cidrBounds, Bool.and_eq_true] at bounds
    obtain ⟨format, -⟩ := bounds
    simp only [isCidrFormat, Bool.and_eq_true, List.all_eq_true, decide_eq_true_eq,
      Bool.or_eq_true] at format
    refine ⟨ip, bits, read, fits, accepted.1, accepted.2, format.1.1.2, fun c member => ?_⟩
    rcases format.1.1.1 c member with (dot | slash) | digit
    · exact .inl dot
    · exact .inr (.inl slash)
    · exact .inr (.inr digit)

variable {ip : BitVec 32} {bits : Nat}

section

variable (isNetwork : IsNetwork word ip bits)

include isNetwork

theorem IsNetwork.network :
    network word = some (ip, bits) := by
  rw [AccessLists.network, isNetwork.read, Option.map_some, mask2bits_maskLoop isNetwork.fits]

theorem IsNetwork.readCidr (text : String) : readCidr text word = .ok (ip, bits) := by
  rw [AccessLists.readCidr, isNetwork.read]
  simp only [mask2bits_maskLoop isNetwork.fits]

theorem IsNetwork.ne {other : Word} (dotted : other.count '.' ≠ 3) : word ≠ other := by
  rintro rfl
  exact dotted isNetwork.dots

theorem IsNetwork.noColon :
    ':' ∉ word := by
  intro member
  have kinds := isNetwork.characters ':' member
  revert kinds
  decide

theorem IsNetwork.not_isnum :
    isnum word = false := by
  have dot : '.' ∈ word := List.count_pos_iff.mp (by rw [isNetwork.dots]; decide)
  rw [isnum, Bool.and_eq_false_iff]
  refine .inr (List.all_eq_false.mpr ⟨'.', dot, by decide⟩)

end

theorem isnum_digits (number : isnum word = true) : ∀ c ∈ word, isdigit c = true := by
  rw [isnum, Bool.and_eq_true, List.all_eq_true] at number
  exact number.2

theorem not_mem_of_isnum (number : isnum word = true) {c : Char} (other : isdigit c = false) :
    c ∉ word := by
  intro member
  rw [isnum_digits number c member] at other
  cases other

theorem isnum_of_chkRange {least most : BitVec 32} (accepted : chkRange least most word = true) :
    isnum word = true := by
  rw [chkRange, Bool.and_eq_true] at accepted
  obtain ⟨digits, accepted⟩ := accepted
  rw [isnum, Bool.and_eq_true, decide_eq_true_eq]
  refine ⟨?_, digits⟩
  rintro rfl
  cases accepted

theorem isnum_of_accepts {a b : BitVec 32} (isNumber : token.bounds = some (a, b))
    (accepted : accepts env token word = true) : isnum word = true := by
  rw [accepts_number isNumber, Bool.and_eq_true] at accepted
  exact accepted.1

theorem not_isnum_of_states (accepted : accepts env .connectionState word = true) :
    isnum word = false := by
  by_contra isNumber
  rw [Bool.not_eq_false] at isNumber
  have comma : ',' ∉ word := not_mem_of_isnum isNumber (by decide)
  have nonempty : word ≠ [] := by
    rintro rfl
    cases isNumber
  have whole : splitCommas word = [word] := by
    rw [splitCommas, List.splitOn_eq_singleton comma]
    simp [nonempty]
  rw [accepts_states, whole] at accepted
  have isState : word ∈ states := by
    simpa using accepted
  have all : ∀ state ∈ states, isnum state = false := by
    decide
  rw [all word isState] at isNumber
  cases isNumber

end Kinds

section Colons

variable {word str t : List Char}

/-- A number in front of a dot. -/
def BeforeDot (str t : List Char) : Prop :=
  ∃ digits, (∀ c ∈ digits, isdigit c = true) ∧ str = digits ++ '.' :: t

theorem BeforeDot.tail {c : Char} (before : BeforeDot (c :: str) t) :
    c = '.' ∨ isdigit c = true ∧ BeforeDot str t := by
  obtain ⟨digits, all, shape⟩ := before
  cases digits with
  | nil => exact .inl (List.cons.inj shape).1
  | cons d digits =>
    obtain ⟨rfl, rest⟩ := List.cons.inj shape
    exact .inr ⟨all c List.mem_cons_self, digits,
      fun e member => all e (List.mem_cons_of_mem c member), rest⟩

theorem BeforeDot.not_colon (before : BeforeDot str t) : str.head? ≠ some ':' := by
  intro colon
  cases str with
  | nil => cases colon
  | cons c str =>
    cases colon
    rcases before.tail with dot | ⟨digit, -⟩
    · revert dot
      decide
    · revert digit
      decide

theorem beforeDot_of_scanDigits {width acc : Nat}
    (stops : (scanDigits 10 width acc str).2.2 = '.' :: t) : BeforeDot str t := by
  induction str generalizing width acc with
  | nil => cases width <;> cases stops
  | cons c str ih =>
    cases width with
    | zero => exact ⟨[], fun c impossible => absurd impossible List.not_mem_nil, stops⟩
    | succ width =>
      rw [scanDigits] at stops
      cases value : digitValue 10 c with
      | none =>
        rw [value] at stops
        exact ⟨[], fun c impossible => absurd impossible List.not_mem_nil, stops⟩
      | some d =>
        rw [value] at stops
        obtain ⟨digits, all, rfl⟩ := ih stops
        refine ⟨c :: digits, fun e member => ?_, rfl⟩
        rcases List.mem_cons.mp member with rfl | member
        · rw [isdigit, value]
          rfl
        · exact all e member

theorem BeforeDot.scanDigits (before : BeforeDot str t) (width acc : Nat) :
    BeforeDot (scanDigits 16 width acc str).2.2 t := by
  induction str generalizing width acc with
  | nil =>
    obtain ⟨digits, -, shape⟩ := before
    cases digits <;> cases shape
  | cons c str ih =>
    cases width with
    | zero => exact before
    | succ width =>
      rw [SpecialTokens.scanDigits]
      cases value : digitValue 16 c with
      | none => exact before
      | some d =>
        rcases before.tail with rfl | ⟨-, rest⟩
        · have none : digitValue 16 '.' = none := by decide
          rw [none] at value
          cases value
        · exact ih rest width _

theorem scanSign_cons (width : Nat) (c : Char) (str : List Char) :
    scanSign (width + 1) (c :: str) =
      if c = '-' then (true, width, str)
      else if c = '+' then (false, width, str)
      else (false, width + 1, c :: str) := by
  by_cases minus : c = '-'
  · subst minus
    rfl
  · by_cases plus : c = '+'
    · subst plus
      rfl
    · rw [if_neg minus, if_neg plus, scanSign]
      · rintro left s - same
        exact minus (List.cons.inj same).1
      · rintro left s - same
        exact plus (List.cons.inj same).1

theorem scanSign_rest (width width' : Nat) (str : List Char) :
    (scanSign (width + 1) str).2.2 = (scanSign (width' + 1) str).2.2 := by
  cases str with
  | nil => rfl
  | cons c str =>
    rw [scanSign_cons, scanSign_cons]
    split_ifs <;> rfl

theorem beforeDot_of_scanHexadecimal {width : Nat} {negative : Bool} {value : Nat}
    {rest : List Char} (scanned : scanHexadecimal width word = some (negative, value, rest))
    (before : BeforeDot (scanSign width (word.dropWhile isSpace)).2.2 t) : BeforeDot rest t := by
  rw [scanHexadecimal] at scanned
  dsimp only at scanned
  split at scanned
  · cases scanned
  · rename_i isStr
    rw [isStr] at before
    have digits := before.tail.resolve_left (by decide)
    split at scanned
    · rename_i left c str _ _ _
      split at scanned
      · rename_i isX
        rcases digits.2.tail with dot | ⟨digit, -⟩
        · rcases isX with rfl | rfl <;> cases dot
        · have others : isdigit 'x' = false ∧ isdigit 'X' = false := by decide
          rcases isX with rfl | rfl
          · exact absurd digit (Bool.eq_false_iff.mp others.1)
          · exact absurd digit (Bool.eq_false_iff.mp others.2)
      · cases scanned
        exact digits.2.scanDigits _ _
    · cases scanned
      exact digits.2
  · split at scanned
    · cases scanned
    · cases scanned
      exact before.scanDigits _ _

theorem beforeDot_of_scanUnsigned {value : BitVec 32}
    (scanned : scanUnsigned word = some (value, '.' :: t)) (width : Nat) :
    BeforeDot (scanSign (width + 1) (word.dropWhile isSpace)).2.2 t := by
  obtain ⟨⟨negative, magnitude, rest⟩, decimal, same⟩ := Option.map_eq_some_iff.mp scanned
  cases same
  simp only [scanDecimal] at decimal
  split_ifs at decimal
  obtain ⟨-, stops⟩ := Prod.mk.inj (Option.some.inj decimal)
  have before := beforeDot_of_scanDigits (Prod.mk.inj stops).2
  cases text : word.dropWhile isSpace with
  | nil =>
    rw [text] at before
    obtain ⟨digits, -, empty⟩ := before
    cases digits <;> cases empty
  | cons c str =>
    rw [text, List.length_cons, scanSign_rest _ width] at before
    exact before

theorem atocidr_none_of_scanMac {mac : List (BitVec 32)}
    (scanned : scanMac (fun length => length) word = some mac) : atocidr word = none := by
  obtain ⟨w, isWidth⟩ : ∃ w, word.length = w + 1 :=
    Nat.exists_eq_add_one.mpr (List.length_pos_of_mem (colon_of_scanMac scanned))
  rw [scanMac] at scanned
  simp only [Option.bind_eq_bind] at scanned
  obtain ⟨⟨a, rest⟩, first, scanned⟩ := Option.bind_eq_some_iff.mp scanned
  obtain ⟨rest', colon, -⟩ := Option.bind_eq_some_iff.mp scanned
  have shape : rest = ':' :: rest' := literal_some colon
  obtain ⟨⟨negative, value, back⟩, hex, same⟩ := Option.map_eq_some_iff.mp first
  have isBack : back = ':' :: rest' := (Prod.mk.inj same).2.trans shape
  have nothing : scanCidr scanUnsigned word = none := by
    rw [Option.eq_none_iff_forall_ne_some]
    intro r whole
    simp only [scanCidr, scanQuad, Option.bind_eq_bind] at whole
    obtain ⟨_, quad, -⟩ := Option.bind_eq_some_iff.mp whole
    obtain ⟨⟨b, behind⟩, number, quad⟩ := Option.bind_eq_some_iff.mp quad
    obtain ⟨t, dot, -⟩ := Option.bind_eq_some_iff.mp quad
    have isDot : behind = '.' :: t := literal_some dot
    rw [isDot] at number
    rw [isWidth] at hex
    have after := beforeDot_of_scanHexadecimal hex (beforeDot_of_scanUnsigned number w)
    rw [isBack] at after
    exact after.not_colon rfl
  rw [atocidr, nothing]

end Colons

end AclWords
