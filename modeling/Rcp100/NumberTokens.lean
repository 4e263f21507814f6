import Rcp100.PrintedNumbers

/-!
# The tokens for numbers

A token such as `<i,1,99>` or `<u,0,255>` looks at the characters of a word, then converts the
whole word with a fixed width and compares the result with the bounds. A word of digits has a
value of any size, so the two views agree on the words whose value fits.
-/

namespace NumberTokens

open SpecialTokens PrintedNumbers

/-- The value of a nonempty word of digits. -/
def numeral (str : Word) : Option Nat :=
  if isnum str then some (Nat.ofDigitChars 10 str 0) else none

/-- The conversion `%d`. -/
def printInt (a : BitVec 32) : Word :=
  if a.toInt < 0 then '-' :: decimal a.toInt.natAbs else decimal a.toInt.natAbs

/-- The token `<i,a,b>`. -/
def intToken (a b : BitVec 32) : Word :=
  "<i,".toList ++ (printInt a ++ ',' :: (printInt b ++ ['>']))

/-- The token `<u,a,b>`. -/
def uintToken (a b : BitVec 32) : Word :=
  "<u,".toList ++ (decimal a.toNat ++ ',' :: (decimal b.toNat ++ ['>']))

/-- What `atoi` makes of a number without a sign. -/
def cutInt (v : Nat) : Int := Int.bmod (min v (2 ^ 63 - 1)) (2 ^ 32)

/-- What `%u` makes of a number without a sign. -/
def cutUnsigned (v : Nat) : Nat := if v < 2 ^ 64 then v % 2 ^ 32 else 2 ^ 32 - 1

/-- The word as a handler reads it with `%u`. -/
def readUnsigned (str : Word) : BitVec 32 := ((scanUnsigned str).map (·.1)).getD 0

/-- The words that the token takes are its own text and the numbers within the bounds, and
the handler then reads the number. -/
def Exact (env : Env) (token : Word) (low high reads : Int) (str : Word) : Prop :=
  (cliCheckSpecial env token str = true ↔
    str = token ∨ ∃ v, numeral str = some v ∧ low ≤ v ∧ v ≤ high) ∧
  (cliCheckSpecial env token str = true → ∀ v, numeral str = some v → reads = v)

section Conversions

variable {str rest : List Char} {v : Nat}

theorem isDigit_of_isdigit {c : Char} (digit : isdigit c = true) : c.isDigit := by
  rw [isdigit, digitValue] at digit
  by_cases decimalDigit : '0' ≤ c ∧ c ≤ '9'
  · simp only [Char.isDigit, Bool.and_eq_true, decide_eq_true_eq]
    exact decimalDigit
  · simp only [if_neg decimalDigit] at digit
    split_ifs at digit <;> first | omega | cases digit

section

variable (isNumeral : numeral str = some v)

include isNumeral

theorem isnum_of_numeral : isnum str = true := by
  rw [numeral] at isNumeral
  split_ifs at isNumeral with accepted
  exact accepted

theorem scanDecimal_numeral :
    scanDecimal str = some (false, v, []) := by
  have accepted := isnum_of_numeral isNumeral
  rw [numeral, if_pos accepted] at isNumeral
  rw [isnum, Bool.and_eq_true, decide_eq_true_eq, List.all_eq_true] at accepted
  have scanned := scanDecimal_digits accepted.1
    (fun c member => isDigit_of_isdigit (accepted.2 c member)) (stops_nil 10)
  rw [List.append_nil, Option.some.inj isNumeral] at scanned
  exact scanned

theorem atoi_numeral : (atoi str).toInt = cutInt v := by
  rw [atoi, scanInt, scanDecimal_numeral isNumeral]
  simp only [Option.map_some, Option.getD_some, toInt, Bool.false_eq_true, if_false]
  rw [BitVec.toInt_ofInt]
  rfl

theorem readUnsigned_numeral :
    (readUnsigned str).toNat = cutUnsigned v := by
  rw [readUnsigned, scanUnsigned, scanDecimal_numeral isNumeral]
  simp only [Option.map_some, Option.getD_some, toUnsigned, Bool.false_eq_true, if_false]
  rw [cutUnsigned]
  split_ifs with fits
  · rw [BitVec.ofInt_natCast, BitVec.toNat_ofNat]
  · rfl

end

theorem cutInt_of_lt (small : v < 2 ^ 31) : cutInt v = v := by
  rw [cutInt, Int.bmod_def]
  split_ifs <;> omega

theorem cutUnsigned_of_lt (small : v < 2 ^ 32) : cutUnsigned v = v := by
  rw [cutUnsigned, if_pos (by omega), Nat.mod_eq_of_lt small]

theorem scanInt_printInt (a : BitVec 32) (stops : Stops 10 rest) :
    scanInt (printInt a ++ rest) = some (a, rest) := by
  have lower := BitVec.le_toInt a
  have upper := BitVec.toInt_lt (x := a)
  rw [printInt, scanInt]
  split_ifs with negative
  · have value : max (-(a.toInt.natAbs : Int)) (-2 ^ 63) = a.toInt := by omega
    rw [List.cons_append, scanDecimal_minus _ stops, Option.map_some]
    simp only [toInt, if_true]
    rw [value, BitVec.ofInt_toInt]
  · have value : min (a.toInt.natAbs : Int) (2 ^ 63 - 1) = a.toInt := by omega
    rw [scanDecimal_decimal _ stops, Option.map_some]
    simp only [toInt, Bool.false_eq_true, if_false]
    rw [value, BitVec.ofInt_toInt]

theorem scanBounds_intToken (a b : BitVec 32) :
    scanBounds scanInt (intToken a b) = some (a, b) := by
  have first := scanInt_printInt a (stops_cons (c := ',') (printInt b ++ ['>']) rfl)
  have second := scanInt_printInt b (stops_cons (c := '>') [] rfl)
  have behind : (intToken a b).drop 3 = printInt a ++ ',' :: (printInt b ++ ['>']) := rfl
  simp only [scanBounds, behind, first, second, literal, if_true, Option.bind_eq_bind,
    Option.bind_some, Option.pure_def]

theorem scanBounds_uintToken (a b : BitVec 32) :
    scanBounds scanUnsigned (uintToken a b) = some (a, b) := by
  have first := scanUnsigned_decimal a.isLt
    (stops_cons (c := ',') (decimal b.toNat ++ ['>']) rfl)
  have second := scanUnsigned_decimal b.isLt (stops_cons (c := '>') [] rfl)
  have behind : (uintToken a b).drop 3 =
      decimal a.toNat ++ ',' :: (decimal b.toNat ++ ['>']) := rfl
  rw [BitVec.ofNat_toNat, BitVec.setWidth_eq] at first second
  simp only [scanBounds, behind, first, second, literal, if_true, Option.bind_eq_bind,
    Option.bind_some, Option.pure_def]

end Conversions

section Checks

variable {env : Env} {token str : Word} {low high : Int} {a b : BitVec 32}

theorem numeral_token (rest : Word) : numeral ('<' :: rest) = none := by
  rw [numeral, isnum_cons]
  rfl

theorem cliCheckSpecial_int (other : str ≠ intToken a b) :
    cliCheckSpecial env (intToken a b) str = chkInt2 (intToken a b) str := by
  have found : chk.find? (·.fits (intToken a b)) =
      some ⟨"<i, numbers here...>".toList, 3, fun _ => chkInt2⟩ := by
    rw [chk, List.find?_cons_of_pos rfl]
  rw [cliCheckSpecial, found]
  exact if_neg fun same => other same.2.symm

theorem cliCheckSpecial_uint (other : str ≠ uintToken a b) :
    cliCheckSpecial env (uintToken a b) str = chkUint2 (uintToken a b) str := by
  have found : chk.find? (·.fits (uintToken a b)) =
      some ⟨"<u, numbers here...>".toList, 3, fun _ => chkUint2⟩ := by
    rw [chk, List.find?_cons_of_neg Bool.false_ne_true, List.find?_cons_of_pos rfl]
  rw [cliCheckSpecial, found]
  exact if_neg fun same => other same.2.symm

theorem chkInt2_iff :
    chkInt2 (intToken a b) str = true ↔
      isnum str = true ∧ a.toInt ≤ (atoi str).toInt ∧ (atoi str).toInt ≤ b.toInt := by
  rw [chkInt2, scanBounds_intToken]
  simp only [Bool.and_eq_true, Bool.not_eq_true', Bool.or_eq_false_iff, BitVec.slt,
    decide_eq_false_iff_not, Int.not_lt]

theorem chkUint2_iff :
    chkUint2 (uintToken a b) str = true ↔
      isnum str = true ∧ a.toNat ≤ (readUnsigned str).toNat ∧
        (readUnsigned str).toNat ≤ b.toNat := by
  rw [chkUint2, scanBounds_uintToken]
  simp only [Bool.and_eq_true, Bool.not_eq_true', Bool.or_eq_false_iff, readUnsigned,
    decide_eq_false_iff_not, gt_iff_lt, BitVec.not_lt, BitVec.le_def]

/-- A check that converts a numeral and compares, and is right below a limit that no upper
bound reaches: it is right except for the values that are cut into the bounds. -/
theorem exact_iff {reads : Int} {cut : Nat → Int} {limit : Nat}
    (known : cliCheckSpecial env token token = true) (notNumeral : numeral token = none)
    (check : str ≠ token → (cliCheckSpecial env token str = true ↔
      isnum str = true ∧ low ≤ reads ∧ reads ≤ high))
    (conversion : ∀ v, numeral str = some v → reads = cut v)
    (right : ∀ v < limit, cut v = v) (within : high < limit) :
    Exact env token low high reads str ↔
      ∀ v, numeral str = some v → limit ≤ v → ¬ (low ≤ cut v ∧ cut v ≤ high) := by
  by_cases isToken : str = token
  · subst isToken
    have no : ∀ v, numeral str ≠ some v := by
      intro v isNumeral
      rw [notNumeral] at isNumeral
      cases isNumeral
    constructor
    · intro _ v isNumeral
      exact absurd isNumeral (no v)
    · intro _
      exact ⟨⟨fun _ => .inl rfl, fun _ => known⟩, fun _ v isNumeral => absurd isNumeral (no v)⟩
  · rw [Exact, check isToken]
    simp only [isToken, false_or]
    constructor
    · rintro ⟨accepts, -⟩ v isNumeral large ⟨least, most⟩
      have value := conversion v isNumeral
      obtain ⟨w, isNumeral', -, below⟩ := accepts.mp
        ⟨isnum_of_numeral isNumeral, value ▸ least, value ▸ most⟩
      cases isNumeral.symm.trans isNumeral'
      omega
    · intro never
      have small : ∀ v, numeral str = some v → low ≤ reads ∧ reads ≤ high → reads = v := by
        intro v isNumeral between
        have value := conversion v isNumeral
        by_cases large : limit ≤ v
        · exact absurd (value ▸ between) (never v isNumeral large)
        · exact value.trans (right v (Nat.lt_of_not_le large))
      refine ⟨⟨?_, ?_⟩, fun accepted v isNumeral => small v isNumeral accepted.2⟩
      · rintro ⟨accepted, between⟩
        have isNumeral : numeral str = some (Nat.ofDigitChars 10 str 0) := if_pos accepted
        exact ⟨_, isNumeral, small _ isNumeral between ▸ between⟩
      · rintro ⟨v, isNumeral, least, most⟩
        have value : reads = v :=
          (conversion v isNumeral).trans (right v (by omega))
        exact ⟨isnum_of_numeral isNumeral, value ▸ least, value ▸ most⟩

end Checks

/-- The tokens take exactly their range, except for the numerals of at least 2³¹, or 2³²,
whose cut value lies between the bounds. -/
theorem numeric_exact_iff (env : Env) (a b : BitVec 32) (str : Word) :
    (Exact env (intToken a b) a.toInt b.toInt (atoi str).toInt str ↔
      ∀ v, numeral str = some v → 2 ^ 31 ≤ v → ¬ (a.toInt ≤ cutInt v ∧ cutInt v ≤ b.toInt)) ∧
    (Exact env (uintToken a b) a.toNat b.toNat (readUnsigned str).toNat str ↔
      ∀ v, numeral str = some v → 2 ^ 32 ≤ v →
        ¬ (a.toNat ≤ cutUnsigned v ∧ cutUnsigned v ≤ b.toNat)) := by
  constructor
  · refine exact_iff ?_ (numeral_token _) ?_ (fun v => atoi_numeral)
      (fun v small => cutInt_of_lt small) (BitVec.toInt_lt (x := b))
    · rw [cliCheckSpecial_self]
      exact ⟨_, List.mem_cons_self, rfl⟩
    · intro other
      rw [cliCheckSpecial_int other, chkInt2_iff]
  · have unsigned := @exact_iff env (uintToken a b) str a.toNat _ _ _ _
      ?_ (numeral_token _) ?_
      (fun v isNumeral => congrArg Nat.cast (readUnsigned_numeral isNumeral))
      (fun v small => congrArg Nat.cast (cutUnsigned_of_lt small)) (Int.ofNat_lt.mpr b.isLt)
    · simpa only [Int.ofNat_le] using unsigned
    · rw [cliCheckSpecial_self]
      exact ⟨_, List.mem_cons_of_mem _ List.mem_cons_self, rfl⟩
    · intro other
      rw [cliCheckSpecial_uint other, chkUint2_iff]
      simp only [Int.ofNat_le]

/-- Ten digits whose value is cut to one. -/
theorem tenDigits_accepted :
    ¬ Exact ⟨fun _ => false, []⟩ (intToken 1 10) 1 10 (atoi "4294967297".toList).toInt
        "4294967297".toList ∧
      ¬ Exact ⟨fun _ => false, []⟩ (uintToken 1 10) 1 10
        (readUnsigned "4294967297".toList).toNat "4294967297".toList := by
  have value : numeral "4294967297".toList = some 4294967297 := by decide
  constructor
  · rintro ⟨-, reads⟩
    exact absurd (reads (by decide) _ value) (by decide)
  · rintro ⟨-, reads⟩
    exact absurd (reads (by decide) _ value) (by decide)

end NumberTokens
