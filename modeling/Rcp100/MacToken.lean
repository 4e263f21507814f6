import Rcp100.PrintedNumbers

/-!
# The token for MAC addresses

`chk_mac` reads six hexadecimal numbers of any length, `atomac` reads at most two characters
of each. Both may skip blanks, take a sign, and leave what is behind the last number.
-/

namespace MacToken

open SpecialTokens PrintedNumbers

section Digits

variable {c : Char} {digits rest : List Char}

def isxdigit (c : Char) : Bool := (digitValue 16 c).isSome

/-- The value of digits, behind others. -/
def hexFrom (acc : Nat) (digits : List Char) : Nat :=
  digits.foldl (fun acc c => 16 * acc + (digitValue 16 c).getD 0) acc

def hexValue (digits : List Char) : Nat := hexFrom 0 digits

theorem digitValue_lt {v : Nat} (digit : digitValue 16 c = some v) : v < 16 := by
  rw [digitValue] at digit
  split_ifs at digit <;> (cases digit; omega)

theorem hexFrom_append (acc : Nat) (l l' : List Char) :
    hexFrom acc (l ++ l') = hexFrom (hexFrom acc l) l' := List.foldl_append

theorem hexFrom_eq (acc : Nat) (l : List Char) :
    hexFrom acc l = acc * 16 ^ l.length + hexValue l := by
  induction l generalizing acc with
  | nil => simp [hexFrom, hexValue]
  | cons c l ih =>
    have step (n : Nat) : hexFrom n (c :: l) =
      hexFrom (16 * n + (digitValue 16 c).getD 0) l := rfl
    rw [hexValue, step, step, ih, ih (16 * 0 + _), List.length_cons, Nat.pow_succ, Nat.mul_zero,
      Nat.zero_add, Nat.add_mul, Nat.add_assoc, Nat.mul_comm 16 acc, Nat.mul_assoc,
      Nat.mul_comm 16]

theorem hexValue_lt (l : List Char) : hexValue l < 16 ^ l.length := by
  induction l using List.reverseRecOn with
  | nil => exact Nat.one_pos
  | append_singleton l c ih =>
    have last : (digitValue 16 c).getD 0 < 16 := by
      cases digit : digitValue 16 c with
      | none => decide
      | some v => exact digitValue_lt digit
    have whole : hexValue (l ++ [c]) = 16 * hexValue l + (digitValue 16 c).getD 0 :=
      hexFrom_append 0 l [c]
    rw [whole, List.length_append, List.length_singleton, Nat.pow_succ]
    omega

theorem hexValue_eq_zero {l l' : List Char} (some : l' ≠ [])
    (same : hexValue (l ++ l') = hexValue l) : hexValue (l ++ l') = 0 := by
  have whole : hexValue (l ++ l') = hexValue l * 16 ^ l'.length + hexValue l' := by
    rw [hexValue, hexFrom_append, hexFrom_eq]
    rfl
  obtain ⟨n, isLength⟩ := Nat.exists_eq_add_one_of_ne_zero (mt List.length_eq_zero_iff.mp some)
  rw [isLength, Nat.pow_succ] at whole
  have positive : 0 < 16 ^ n := Nat.pow_pos (by decide)
  have most : hexValue l * 1 ≤ hexValue l * 16 ^ n := Nat.mul_le_mul_left _ positive
  rw [← Nat.mul_assoc] at whole
  omega

theorem not_blank_of_isxdigit (digit : isxdigit c = true) :
    isSpace c = false ∧ c ≠ '-' ∧ c ≠ '+' ∧ c ≠ 'x' ∧ c ≠ 'X' ∧ c ≠ ':' := by
  have other {d : Char} (none : isxdigit d = false) : c ≠ d := by
    rintro rfl
    rw [none] at digit
    cases digit
  refine ⟨?_, other rfl, other rfl, other rfl, other rfl, other rfl⟩
  have large : 48 ≤ c.toNat := by
    by_contra small
    have decimal : ¬('0' ≤ c ∧ c ≤ '9') := fun both => small both.1
    have lower : ¬('a' ≤ c ∧ c ≤ 'f') := fun both => small (Nat.le_trans (by decide) both.1)
    have upper : ¬('A' ≤ c ∧ c ≤ 'F') := fun both => small (Nat.le_trans (by decide) both.1)
    rw [isxdigit, digitValue, if_neg decimal, if_neg lower, if_neg upper] at digit
    cases digit
  have far {d : Char} (small : d.toNat < 48) : c ≠ d := by
    rintro rfl
    omega
  simp only [isSpace, far (show ' '.toNat < 48 by decide), far (show '\t'.toNat < 48 by decide),
    far (show '\n'.toNat < 48 by decide), far (show '\r'.toNat < 48 by decide),
    show c.toNat ≠ 11 by omega, show c.toNat ≠ 12 by omega, decide_false, Bool.or_false]

/-- What is behind a number of an address. -/
def Ends (rest : List Char) : Prop := rest = [] ∨ ∃ str, rest = ':' :: str

theorem Ends.stops (ends : Ends rest) : Stops 16 rest := by
  rcases ends with rfl | ⟨str, rfl⟩
  · exact stops_nil 16
  · exact stops_cons str rfl

theorem scanDigits_hex (hex : ∀ c ∈ digits, isxdigit c = true) (stops : Stops 16 rest)
    (width acc : Nat) : scanDigits 16 width acc (digits ++ rest) =
      (hexFrom acc (digits.take width), (digits.take width).length, digits.drop width ++ rest) := by
  induction digits generalizing width acc with
  | nil =>
    rw [List.take_nil, List.drop_nil]
    exact scanDigits_stop (.inr stops)
  | cons c digits ih =>
    cases width with
    | zero => rfl
    | succ width =>
      obtain ⟨v, digit⟩ := Option.isSome_iff_exists.mp (hex c List.mem_cons_self)
      rw [List.cons_append, scanDigits, digit]
      dsimp only
      rw [ih (fun d member => hex d (List.mem_cons_of_mem c member)), List.take_succ_cons,
        List.drop_succ_cons, List.length_cons]
      have next : hexFrom acc (c :: digits.take width) =
          hexFrom (16 * acc + v) (digits.take width) := by
        rw [hexFrom, List.foldl_cons, digit]
        rfl
      rw [next]

end Digits

/-- The text of a number: blanks, a sign, and digits. -/
structure Group where
  blanks : Word
  sign : Word
  digits : Word

namespace Group

def text (g : Group) : Word := g.blanks ++ (g.sign ++ g.digits)

structure Wf (g : Group) : Prop where
  blanks : ∀ c ∈ g.blanks, isSpace c = true
  sign : g.sign = [] ∨ g.sign = ['+'] ∨ g.sign = ['-']
  some : g.digits ≠ []
  digits : ∀ c ∈ g.digits, isxdigit c = true

def negative (g : Group) : Bool := g.sign = ['-']

/-- The number that is written. -/
def value (g : Group) : Int := if g.negative then -(hexValue g.digits : Int) else hexValue g.digits

/-- The number is two characters at most. -/
def Short (g : Group) : Prop := g.sign.length + g.digits.length ≤ 2

/-- The digits among the first characters. -/
def first (width : Nat) (g : Group) : Word := g.digits.take (width - g.sign.length)

def left (width : Nat) (g : Group) : Word := g.digits.drop (width - g.sign.length)

end Group

section Scanning

variable {g : Group} {rest : List Char} {width : Nat}

theorem scanSign_group (wf : g.Wf) (rest : List Char) (wide : g.sign.length < width) :
    scanSign width (g.sign ++ (g.digits ++ rest)) =
      (g.negative, width - g.sign.length, g.digits ++ rest) := by
  obtain ⟨width, rfl⟩ := Nat.exists_eq_add_one_of_ne_zero (Nat.ne_zero_of_lt wide)
  rcases wf.sign with none | plus | minus
  · obtain ⟨c, digits, isDigits⟩ := List.exists_cons_of_ne_nil wf.some
    have first := wf.digits c (isDigits ▸ List.mem_cons_self)
    obtain ⟨-, notMinus, notPlus, -⟩ := not_blank_of_isxdigit first
    have notNegative : g.negative = false := by
      rw [Group.negative, none]
      rfl
    rw [notNegative, none, isDigits, List.nil_append, List.cons_append, scanSign]
    · rfl
    · rintro w str - same
      exact notMinus (List.cons.inj same).1
    · rintro w str - same
      exact notPlus (List.cons.inj same).1
  · rw [Group.negative, plus]
    rfl
  · rw [Group.negative, minus]
    rfl

theorem scanHexadecimal_digits {str digits rest : List Char} {negative : Bool} {left : Nat}
    (sign : scanSign width (str.dropWhile isSpace) = (negative, left, digits ++ rest))
    (some' : digits ≠ []) (hex : ∀ c ∈ digits, isxdigit c = true) (ends : Ends rest)
    (wide : 0 < left) : scanHexadecimal width str =
      some (negative, hexValue (digits.take left), digits.drop left ++ rest) := by
  obtain ⟨c, digits, rfl⟩ := List.exists_cons_of_ne_nil some'
  obtain ⟨left, rfl⟩ := Nat.exists_eq_add_one_of_ne_zero (Nat.ne_of_gt wide)
  have scanned := scanDigits_hex (fun d member => hex d (List.mem_cons_of_mem c member)) ends.stops
  rw [scanHexadecimal, sign]
  by_cases zero : c = '0'
  · subst zero
    have value : hexValue (('0' :: digits).take (left + 1)) = hexValue (digits.take left) := rfl
    rw [value, List.drop_succ_cons]
    cases left with
    | zero => rfl
    | succ left =>
      have next : digits ++ rest = [] ∨
          ∃ c str, digits ++ rest = c :: str ∧ ¬ (c = 'x' ∨ c = 'X') := by
        cases digits with
        | nil =>
          rcases ends with rfl | ⟨str, rfl⟩
          · exact .inl rfl
          · exact .inr ⟨':', str, rfl, by decide⟩
        | cons c digits =>
          obtain ⟨-, -, -, notX, notUpperX, -⟩ := not_blank_of_isxdigit
            (hex c (List.mem_cons_of_mem _ List.mem_cons_self))
          exact .inr ⟨c, digits ++ rest, rfl, not_or.mpr ⟨notX, notUpperX⟩⟩
      have scanned := scanned (left + 1) 0
      rcases next with none | ⟨c, str, isNext, notX⟩
      · rw [none] at scanned
        obtain ⟨rfl, rfl⟩ := List.append_eq_nil_iff.mp none
        rfl
      · rw [isNext] at scanned
        simp only [List.cons_append, isNext, if_neg notX, scanned]
        rfl
  · have scanned := scanDigits_hex hex ends.stops (left + 1) 0
    split
    · rename_i impossible
      cases impossible
    · rename_i isZero
      exact absurd (List.cons.inj isZero).1 zero
    · rename_i left' _ isLeft _
      cases isLeft
      simp only [scanned]
      rfl

theorem scanHexadecimal_group (wf : g.Wf) (ends : Ends rest) (wide : g.sign.length < width) :
    scanHexadecimal width (g.text ++ rest) =
      some (g.negative, hexValue (g.first width), g.left width ++ rest) := by
  have kept : (g.text ++ rest).dropWhile isSpace = g.sign ++ (g.digits ++ rest) := by
    have stop : (g.sign ++ (g.digits ++ rest)).dropWhile isSpace =
        g.sign ++ (g.digits ++ rest) := by
      rcases wf.sign with none | plus | minus
      · obtain ⟨c, digits, isDigits⟩ := List.exists_cons_of_ne_nil wf.some
        have first := wf.digits c (isDigits ▸ List.mem_cons_self)
        rw [none, isDigits, List.nil_append, List.cons_append, List.dropWhile_cons,
          (not_blank_of_isxdigit first).1]
        rfl
      · rw [plus]
        rfl
      · rw [minus]
        rfl
    rw [Group.text, List.append_assoc, List.append_assoc, List.dropWhile_append_of_pos wf.blanks,
      stop]
  exact scanHexadecimal_digits (kept ▸ scanSign_group wf rest wide) wf.some wf.digits ends
    (Nat.sub_pos_of_lt wide)

end Scanning

section Series

variable {g last : Group} {gs : List Group} {str : Word}

/-- The numbers with colons between them. -/
def macText : List Group → Word
  | [] => []
  | [g] => g.text
  | g :: gs => g.text ++ ':' :: macText gs

/-- The word is six hexadecimal numbers, and nothing behind them. -/
structure IsMac (str : Word) (gs : List Group) : Prop where
  six : gs.length = 6
  wf : ∀ g ∈ gs, g.Wf
  text : str = macText gs

/-- The conversions of a series of numbers, and what is left. -/
def scanSeries (width : Nat → Nat) : Nat → List Char → Option (List (BitVec 32) × List Char)
  | 0, str => (scanHex (width str.length) str).map fun r => ([r.1], r.2)
  | n+1, str => do
    let (a, str) ← scanHex (width str.length) str
    let str ← literal ':' str
    let (rest, str) ← scanSeries width n str
    return (a :: rest, str)

theorem scanMac_eq (width : Nat → Nat) (str : List Char) :
    scanMac width str = (scanSeries width 5 str).map (·.1) := by
  simp only [scanMac, scanSeries, Option.bind_eq_bind, Option.pure_def, Option.map_bind,
    Option.bind_map, Option.bind_assoc, Function.comp_def, Option.map_some, Option.bind_some]

namespace Group

/-- The number as it is read. -/
def read (g : Group) : BitVec 32 := toUnsigned g.negative (hexValue g.digits)

/-- The number as `%2x` reads it. -/
def readTwo (g : Group) : BitVec 32 := toUnsigned g.negative (hexValue (g.first 2))

theorem Wf.sign_le (wf : g.Wf) : g.sign.length ≤ 1 := by
  rcases wf.sign with none | plus | minus
  · simp [none]
  · simp [plus]
  · simp [minus]

theorem first_of_le {width : Nat} (fits : g.sign.length + g.digits.length ≤ width) :
    g.first width = g.digits ∧ g.left width = [] :=
  ⟨List.take_of_length_le (by omega), List.drop_of_length_le (by omega)⟩

theorem Short.first (short : g.Short) : g.readTwo = g.read ∧ g.left 2 = [] := by
  obtain ⟨whole, nothing⟩ := first_of_le short
  rw [readTwo, whole]
  exact ⟨rfl, nothing⟩

end Group

theorem scanHex_group (wf : g.Wf) {rest : List Char} (ends : Ends rest) {width : Nat}
    (wide : g.sign.length < width) : scanHex width (g.text ++ rest) =
      some (toUnsigned g.negative (hexValue (g.first width)), g.left width ++ rest) := by
  rw [scanHex, scanHexadecimal_group wf ends wide]
  rfl

theorem scanHex_two (wf : g.Wf) {rest : List Char} (ends : Ends rest) :
    scanHex 2 (g.text ++ rest) = some (g.readTwo, g.left 2 ++ rest) :=
  scanHex_group wf ends (Nat.lt_succ_of_le wf.sign_le)

theorem scanHex_whole (wf : g.Wf) {rest : List Char} (ends : Ends rest) :
    scanHex (g.text ++ rest).length (g.text ++ rest) = some (g.read, rest) := by
  have fits : g.sign.length + g.digits.length ≤ (g.text ++ rest).length := by
    simp only [Group.text, List.length_append]
    omega
  have some' := List.length_pos_iff.mpr wf.some
  obtain ⟨whole, nothing⟩ := Group.first_of_le fits
  rw [scanHex_group wf ends (by omega), whole, nothing]
  rfl

theorem macText_cons {g' : Group} : macText (g :: g' :: gs) = g.text ++ ':' :: macText (g' :: gs) :=
  rfl

theorem scanSeries_whole (wf : ∀ h ∈ g :: gs, h.Wf) :
    scanSeries (fun length => length) gs.length (macText (g :: gs)) =
      some ((g :: gs).map Group.read, []) := by
  induction gs generalizing g with
  | nil =>
    have whole := scanHex_whole (wf g List.mem_cons_self) (.inl rfl)
    rw [List.append_nil] at whole
    rw [List.length_nil, scanSeries, macText, whole]
    rfl
  | cons g' gs ih =>
    rw [macText_cons, List.length_cons, scanSeries,
      scanHex_whole (wf g List.mem_cons_self) (.inr ⟨_, rfl⟩)]
    simp only [Option.bind_eq_bind, Option.bind_some, literal, if_true,
      ih fun h member => wf h (List.mem_cons_of_mem g member)]
    rfl

theorem scanSeries_two (wf : ∀ h ∈ gs ++ [last], h.Wf) {r : List (BitVec 32) × List Char} :
    scanSeries (fun _ => 2) gs.length (macText (gs ++ [last])) = some r ↔
      (∀ h ∈ gs, h.Short) ∧ r = (gs.map Group.read ++ [last.readTwo], last.left 2) := by
  induction gs generalizing r with
  | nil =>
    have two := scanHex_two (wf last List.mem_cons_self) (.inl rfl)
    rw [List.append_nil, List.append_nil] at two
    rw [List.length_nil, scanSeries, List.nil_append, macText, two]
    simp [Group.readTwo, eq_comm]
  | cons g gs ih =>
    have own := wf g List.mem_cons_self
    obtain ⟨g', rest, isRest⟩ := List.exists_cons_of_ne_nil
      (List.append_ne_nil_of_right_ne_nil gs (List.cons_ne_nil last []))
    have later := @ih fun h member => wf h (List.mem_cons_of_mem g member)
    have two := scanHex_two own (.inr ⟨macText (g' :: rest), rfl⟩)
    rw [List.cons_append, isRest, macText_cons, List.length_cons, scanSeries, two]
    rw [isRest] at later
    simp only [Option.bind_eq_bind, Option.bind_some]
    by_cases short : g.Short
    · obtain ⟨same, nothing⟩ := short.first
      rw [nothing, List.nil_append]
      simp only [literal, if_true, Option.bind_some, Option.bind_eq_some_iff, later,
        Option.pure_def, Option.some.injEq, List.forall_mem_cons, List.map_cons]
      constructor
      · rintro ⟨_, ⟨others, rfl⟩, rfl⟩
        exact ⟨⟨short, others⟩, by rw [← same]; rfl⟩
      · rintro ⟨⟨-, others⟩, rfl⟩
        exact ⟨_, ⟨others, rfl⟩, by rw [← same]; rfl⟩
    · -- a digit is left where the colon should be
      have some' : g.left 2 ≠ [] := by
        have wide := own.sign_le
        rw [Group.left, Ne, List.drop_eq_nil_iff]
        unfold Group.Short at short
        omega
      obtain ⟨c, left, isLeft⟩ := List.exists_cons_of_ne_nil some'
      have digit := own.digits c (List.mem_of_mem_drop (isLeft ▸ List.mem_cons_self))
      rw [isLeft, List.cons_append]
      simp only [literal, if_neg (not_blank_of_isxdigit digit).2.2.2.2.2, Option.bind_none,
        List.forall_mem_cons, short, false_and]
      constructor
      · intro impossible
        cases impossible
      · exact False.elim

end Series

section Checks

variable {str token : Word} {gs : List Group} {last g : Group}

/-- The conversion `%x`, six times, reads numbers of a byte. -/
def ReadsBytes (str : Word) : Prop :=
  ∃ mac, scanMac (fun length => length) str = some mac ∧ ∀ v ∈ mac, v ≤ 255

theorem chkMac_iff (token : Word) : chkMac token str = true ↔ ReadsBytes str := by
  rw [chkMac, ReadsBytes]
  cases scanMac (fun length => length) str with
  | none => simp
  | some mac =>
    simp only [Bool.not_eq_true', List.any_eq_false, decide_eq_true_eq, Option.some.injEq,
      exists_eq_left', gt_iff_lt, BitVec.not_lt]

/-- The numbers are what the conversion makes of the word. -/
def Converts (str : Word) (gs : List Group) : Prop :=
  (∀ g ∈ gs, 0 ≤ g.value ∧ g.value ≤ 255) ∧
    atomac str = some (gs.map fun g => BitVec.ofInt 8 g.value)

/-- The word is six numbers of at most two characters each, but for zeros at its end. -/
def ShortMac (str : Word) : Prop :=
  ∃ gs last, IsMac str (gs ++ [last]) ∧ (∀ g ∈ gs, g.Short) ∧
    (last.Short ∨ hexValue last.digits = 0)

theorem toUnsigned_plus {v : Nat} (small : v ≤ 255) : toUnsigned false v = BitVec.ofNat 32 v := by
  rw [toUnsigned, if_pos (by omega)]
  exact BitVec.ofInt_natCast ..

theorem toUnsigned_minus {v : Nat} (small : v ≤ 255) (byte : toUnsigned true v ≤ 255) : v = 0 := by
  rw [toUnsigned, if_pos (by omega), BitVec.le_def] at byte
  simp only [if_true, BitVec.toNat_ofInt] at byte
  change (-(v : Int) % (4294967296 : Nat)).toNat ≤ 255 at byte
  omega

namespace Group

theorem hexValue_first (g : Group) : hexValue (g.first 2) ≤ 255 := by
  have less := hexValue_lt (g.first 2)
  have length : (g.first 2).length ≤ 2 := by
    rw [Group.first, List.length_take]
    omega
  have most : 16 ^ (g.first 2).length ≤ 16 ^ 2 := Nat.pow_le_pow_right (by decide) length
  omega

theorem digits_eq (g : Group) : g.digits = g.first 2 ++ g.left 2 := (List.take_append_drop ..).symm

theorem value_of_byte (small : hexValue g.digits ≤ 255) (byte : g.read ≤ 255) :
    g.value = hexValue g.digits := by
  rw [Group.value]
  cases sign : g.negative with
  | false => rfl
  | true =>
    rw [read, sign] at byte
    have zero := toUnsigned_minus small byte
    rw [zero]
    rfl

theorem readTwo_eq (byte : g.read ≤ 255) (kind : g.Short ∨ hexValue g.digits = 0) :
    (0 ≤ g.value ∧ g.value ≤ 255) ∧ g.readTwo ≤ 255 ∧
      g.readTwo.setWidth 8 = BitVec.ofInt 8 g.value := by
  have small : hexValue g.digits ≤ 255 := by
    rcases kind with short | zero
    · have same := (first_of_le short).1
      exact same ▸ g.hexValue_first
    · omega
  have value := value_of_byte small byte
  have sameValue : hexValue (g.first 2) = hexValue g.digits := by
    rcases kind with short | zero
    · rw [(first_of_le short).1]
    · have whole : hexValue g.digits =
          hexValue (g.first 2) * 16 ^ (g.left 2).length + hexValue (g.left 2) := by
        rw [hexValue, g.digits_eq, hexFrom_append, hexFrom_eq]
        rfl
      have positive : 0 < 16 ^ (g.left 2).length := Nat.pow_pos (by decide)
      have most := Nat.le_mul_of_pos_right (hexValue (g.first 2)) positive
      omega
  have same : g.readTwo = g.read := by
    rw [readTwo, sameValue]
    rfl
  refine ⟨by omega, same ▸ byte, ?_⟩
  have read : g.read = BitVec.ofNat 32 (hexValue g.digits) := by
    rw [Group.read]
    cases sign : g.negative with
    | false => exact toUnsigned_plus small
    | true =>
      rw [Group.read, sign] at byte
      rw [toUnsigned_minus small byte]
      rfl
  rw [same, read, value, BitVec.ofInt_natCast]
  exact BitVec.setWidth_ofNat_of_le (by decide) _

end Group

theorem atomac_some {bytes : List (BitVec 8)} : atomac str = some bytes ↔
    ∃ mac, scanMac (fun _ => 2) str = some mac ∧ (∀ v ∈ mac, v ≤ 255) ∧
      mac.map (·.setWidth 8) = bytes := by
  rw [atomac]
  cases scanMac (fun _ => 2) str with
  | none => simp
  | some mac =>
    have within : mac.any (fun v => v > 0xff) = false ↔ ∀ v ∈ mac, v ≤ 255 := by
      simp only [List.any_eq_false, decide_eq_true_eq, gt_iff_lt, BitVec.not_lt]
    simp only [Option.some.injEq, exists_eq_left', ← within]
    cases mac.any (fun v => v > 0xff) <;> simp

theorem IsMac.whole (isMac : IsMac str gs) :
    scanMac (fun length => length) str = some (gs.map Group.read) := by
  obtain ⟨six, wf, rfl⟩ := isMac
  obtain ⟨g, rest, rfl⟩ := List.exists_cons_of_length_eq_add_one six
  have five : rest.length = 5 := Nat.succ.inj six
  rw [scanMac_eq, ← five, scanSeries_whole wf]
  rfl

theorem IsMac.two {mac : List (BitVec 32)} (isMac : IsMac str (gs ++ [last])) :
    scanMac (fun _ => 2) str = some mac ↔
      (∀ g ∈ gs, g.Short) ∧ mac = gs.map Group.read ++ [last.readTwo] := by
  obtain ⟨six, wf, rfl⟩ := isMac
  have five : gs.length = 5 := by
    rw [List.length_append, List.length_singleton] at six
    omega
  rw [scanMac_eq, ← five, Option.map_eq_some_iff]
  constructor
  · rintro ⟨r, scanned, rfl⟩
    obtain ⟨short, rfl⟩ := (scanSeries_two wf).mp scanned
    exact ⟨short, rfl⟩
  · rintro ⟨short, rfl⟩
    exact ⟨_, (scanSeries_two wf).mpr ⟨short, rfl⟩, rfl⟩

theorem last_of_readTwo (wf : last.Wf) (inside : 0 ≤ last.value ∧ last.value ≤ 255)
    (same : last.readTwo.setWidth 8 = BitVec.ofInt 8 last.value) :
    last.Short ∨ hexValue last.digits = 0 := by
  by_cases short : last.Short
  · exact .inl short
  refine .inr ?_
  have few := last.hexValue_first
  rw [Group.value, Group.readTwo] at *
  cases sign : last.negative with
  | true =>
    rw [sign] at inside
    simp only [if_true] at inside
    omega
  | false =>
    rw [sign] at inside same
    simp only [Bool.false_eq_true, if_false] at inside same
    rw [toUnsigned_plus few, BitVec.ofInt_natCast,
      BitVec.setWidth_ofNat_of_le (by decide) _] at same
    have number := congrArg BitVec.toNat same
    rw [BitVec.toNat_ofNat, BitVec.toNat_ofNat] at number
    have equal : hexValue (last.first 2 ++ last.left 2) = hexValue (last.first 2) := by
      rw [← last.digits_eq]
      omega
    rw [last.digits_eq]
    refine hexValue_eq_zero ?_ equal
    have sign_le := wf.sign_le
    rw [Group.left, Ne, List.drop_eq_nil_iff]
    unfold Group.Short at short
    omega

theorem converts_iff (isMac : IsMac str (gs ++ [last])) (reads : ReadsBytes str) :
    Converts str (gs ++ [last]) ↔
      (∀ g ∈ gs, g.Short) ∧ (last.Short ∨ hexValue last.digits = 0) := by
  rw [Converts, atomac_some]
  constructor
  · rintro ⟨inside, mac, scanned, -, same⟩
    obtain ⟨short, rfl⟩ := isMac.two.mp scanned
    have member : last ∈ gs ++ [last] := List.mem_append_right _ List.mem_cons_self
    refine ⟨short, last_of_readTwo (isMac.wf last member) (inside last member) ?_⟩
    rw [List.map_append, List.map_append] at same
    exact (List.cons.inj (List.append_inj' same rfl).2).1
  · rintro ⟨short, kind⟩
    obtain ⟨mac, scanned, bytes⟩ := reads
    cases scanned.symm.trans isMac.whole
    have isByte : ∀ g ∈ gs ++ [last], g.read ≤ 255 := fun g member =>
      bytes _ (List.mem_map_of_mem member)
    have own := fun g (member : g ∈ gs) => Group.readTwo_eq
      (isByte g (List.mem_append_left _ member)) (.inl (short g member))
    have end_ := Group.readTwo_eq (isByte last (List.mem_append_right _ List.mem_cons_self)) kind
    have stored : gs.map Group.read = gs.map Group.readTwo := List.map_congr_left fun g member =>
      (short g member).first.1.symm
    refine ⟨fun g member => ?_, _, isMac.two.mpr ⟨short, rfl⟩, fun v member => ?_, ?_⟩
    · rcases List.mem_append.mp member with before | here
      · exact (own g before).1
      · exact List.mem_singleton.mp here ▸ end_.1
    · rcases List.mem_append.mp member with before | here
      · obtain ⟨g, inside, rfl⟩ := List.mem_map.mp before
        exact isByte g (List.mem_append_left _ inside)
      · exact List.mem_singleton.mp here ▸ end_.2.1
    · rw [stored, List.map_append, List.map_append, List.map_map]
      refine congrArg₂ _ (List.map_congr_left fun g member => (own g member).2.2) ?_
      exact congrArg (fun b => [b]) end_.2.2

end Checks

end MacToken
