import Rcp100.SpecialTokens
import Rcp100.CliParser
import Rcp100.IpAddress

/-!
# Numbers and lines that are printed and read back

What `printf` writes with `%u`, `%02x` and the formats for addresses, and that `sscanf` reads
it back; and the words of a line that is printed with blanks between its parts.
-/

namespace PrintedNumbers

open SpecialTokens IpAddress

/-- The conversion `%u`, and `%d` where nothing is negative. -/
def decimal (n : Nat) : Word := Nat.toDigits 10 n

section Decimal

/-- What is scanned ends here. -/
def Stops (base : Nat) (rest : List Char) : Prop := ∀ c ∈ rest.head?, digitValue base c = none

variable {c : Char} {rest : List Char} {n : Nat}

theorem digitValue_of_isDigit (digit : c.isDigit) :
    digitValue 10 c = some (c.toNat - '0'.toNat) := by
  simp only [Char.isDigit, Bool.and_eq_true, decide_eq_true_eq] at digit
  have low : '0' ≤ c := digit.1
  have high : c ≤ '9' := digit.2
  have bound : c.toNat ≤ 57 := digit.2
  have small : c.toNat - '0'.toNat < 10 := by
    change c.toNat - 48 < 10
    omega
  simp only [digitValue, low, high, and_self, if_true]
  rw [if_pos small]

theorem scanDigits_digits {digits : List Char} {width acc : Nat}
    (all : ∀ c ∈ digits, c.isDigit) (stops : Stops 10 rest) (fits : digits.length ≤ width) :
    scanDigits 10 width acc (digits ++ rest) =
      (Nat.ofDigitChars 10 digits acc, digits.length, rest) := by
  induction digits generalizing width acc with
  | nil =>
    cases rest with
    | nil =>
      cases width <;> rfl
    | cons c rest =>
      have stop : digitValue 10 c = none := stops c rfl
      cases width with
      | zero => rfl
      | succ width =>
        rw [List.nil_append, scanDigits, stop]
        rfl
  | cons c digits ih =>
    obtain ⟨width, rfl⟩ : ∃ w, width = w + 1 :=
      Nat.exists_eq_add_one.mpr (Nat.lt_of_lt_of_le (Nat.succ_pos _) fits)
    rw [List.cons_append, scanDigits, digitValue_of_isDigit (all c List.mem_cons_self)]
    simp only
    rw [ih (fun d member => all d (List.mem_cons_of_mem c member)) (Nat.le_of_succ_le_succ fits),
      Nat.ofDigitChars_cons, List.length_cons]

theorem isDigit_decimal (member : c ∈ decimal n) : c.isDigit :=
  Nat.isDigit_of_mem_toDigits (by decide) (by decide) member

theorem isdigit_of_isDigit (digit : c.isDigit) : isdigit c = true := by
  rw [isdigit, digitValue_of_isDigit digit]
  rfl

theorem decimal_ne_nil (n : Nat) : decimal n ≠ [] := Nat.toDigits_ne_nil

theorem not_blank_of_isDigit (digit : c.isDigit) :
    isSpace c = false ∧ c ≠ '-' ∧ c ≠ '+' := by
  simp only [Char.isDigit, Bool.and_eq_true, decide_eq_true_eq] at digit
  have low : 48 ≤ c.toNat := digit.1
  have other {d : Char} (small : d.toNat < 48) : c ≠ d := by
    rintro rfl
    omega
  refine ⟨?_, other (by decide), other (by decide)⟩
  simp only [isSpace, other (show ' '.toNat < 48 by decide), other (show '\t'.toNat < 48 by decide),
    other (show '\n'.toNat < 48 by decide), other (show '\r'.toNat < 48 by decide),
    show c.toNat ≠ 11 by omega, show c.toNat ≠ 12 by omega, decide_false, Bool.or_false]

theorem scanDecimal_digits {digits : List Char} (nonempty : digits ≠ [])
    (all : ∀ c ∈ digits, c.isDigit) (stops : Stops 10 rest) :
    scanDecimal (digits ++ rest) = some (false, Nat.ofDigitChars 10 digits 0, rest) := by
  obtain ⟨c, digits, rfl⟩ := List.exists_cons_of_ne_nil nonempty
  obtain ⟨notSpace, notMinus, notPlus⟩ := not_blank_of_isDigit (all c List.mem_cons_self)
  have sign : scanSign ((c :: digits) ++ rest).length ((c :: digits) ++ rest) =
      (false, ((c :: digits) ++ rest).length, (c :: digits) ++ rest) := by
    rw [scanSign]
    · rintro left str ⟨⟩ same
      exact notMinus (List.cons.inj same).1
    · rintro left str ⟨⟩ same
      exact notPlus (List.cons.inj same).1
  rw [scanDecimal]
  simp only [List.cons_append, List.dropWhile_cons, notSpace, Bool.false_eq_true, if_false]
  rw [← List.cons_append, sign]
  simp only
  rw [scanDigits_digits all stops (by rw [List.length_append]; omega)]
  rfl

theorem scanDecimal_decimal (n : Nat) (stops : Stops 10 rest) :
    scanDecimal (decimal n ++ rest) = some (false, n, rest) := by
  rw [scanDecimal_digits (decimal_ne_nil n) (fun c member => isDigit_decimal member) stops,
    decimal, Nat.ofDigitChars_ten_toDigits]

theorem scanDecimal_minus (n : Nat) (stops : Stops 10 rest) :
    scanDecimal ('-' :: (decimal n ++ rest)) = some (true, n, rest) := by
  have kept : ('-' :: (decimal n ++ rest)).dropWhile isSpace = '-' :: (decimal n ++ rest) := rfl
  have some : (decimal n).length ≠ 0 := by
    rw [Ne, List.length_eq_zero_iff]
    exact decimal_ne_nil n
  rw [scanDecimal, kept, List.length_cons]
  simp only [scanSign]
  rw [scanDigits_digits (fun c member => isDigit_decimal member) stops
    (by rw [List.length_append]; omega), decimal, Nat.ofDigitChars_ten_toDigits]
  exact if_neg some

theorem scanInt_decimal (small : n < 2 ^ 32)
    (stops : Stops 10 rest) : scanInt (decimal n ++ rest) = some (BitVec.ofNat 32 n, rest) := by
  rw [scanInt, scanDecimal_decimal n stops, Option.map_some, toInt]
  have least : min (n : Int) (2 ^ 63 - 1) = n := by omega
  simp only [Bool.false_eq_true, if_false]
  rw [least, BitVec.ofInt_natCast]

theorem scanUnsigned_decimal (small : n < 2 ^ 32)
    (stops : Stops 10 rest) :
    scanUnsigned (decimal n ++ rest) = some (BitVec.ofNat 32 n, rest) := by
  have fits : n < 2 ^ 64 := by omega
  rw [scanUnsigned, scanDecimal_decimal n stops, Option.map_some, toUnsigned]
  simp only [Bool.false_eq_true, if_false, if_pos fits]
  rw [BitVec.ofInt_natCast]

theorem stops_nil (base : Nat) : Stops base [] := by
  intro c impossible
  cases impossible

theorem atoi_decimal (small : n < 2 ^ 32) : atoi (decimal n) = BitVec.ofNat 32 n := by
  rw [atoi, ← List.append_nil (decimal n), scanInt_decimal small (stops_nil 10)]
  rfl

theorem isnum_decimal (n : Nat) : isnum (decimal n) = true := by
  rw [isnum, Bool.and_eq_true, decide_eq_true_eq, List.all_eq_true]
  exact ⟨decimal_ne_nil n, fun c member => isdigit_of_isDigit (isDigit_decimal member)⟩

end Decimal

section Addresses

/-- `RCP_PRINT_IP`, the byte with this number from the right. -/
def octet (ip : BitVec 32) (i : Nat) : Nat := ((ip >>> (8 * i)) &&& 0xff).toNat

/-- The format `%u.%u.%u.%u`, or `%d.%d.%d.%d`. -/
def printIp (ip : BitVec 32) : Word :=
  decimal (octet ip 3) ++ '.' :: (decimal (octet ip 2) ++ '.' :: (decimal (octet ip 1) ++
    '.' :: decimal (octet ip 0)))

/-- The format `%u.%u.%u.%u/%u`. -/
def printCidr (ip : BitVec 32) (bits : Nat) : Word := printIp ip ++ '/' :: decimal bits

theorem octet_lt (ip : BitVec 32) (i : Nat) : octet ip i < 256 := by
  rw [octet, BitVec.toNat_and]
  exact Nat.lt_of_le_of_lt Nat.and_le_right (by decide)

theorem octet_eq (ip : BitVec 32) (i : Nat) : octet ip i = ip.toNat >>> (8 * i) % 256 := by
  rw [octet, BitVec.toNat_and, BitVec.toNat_ushiftRight]
  exact Nat.and_two_pow_sub_one_eq_mod _ 8

theorem quadAddress_ofNat (a b c d : Nat) :
    quadAddress (BitVec.ofNat 32 a) (BitVec.ofNat 32 b) (BitVec.ofNat 32 c) (BitVec.ofNat 32 d) =
      BitVec.ofNat 32 (a * 0x1000000 + b * 0x10000 + c * 0x100 + d) := by
  rw [BitVec.ofNat_add, BitVec.ofNat_add, BitVec.ofNat_add, BitVec.ofNat_mul, BitVec.ofNat_mul,
    BitVec.ofNat_mul]
  rfl

theorem quadAddress_octets (ip : BitVec 32) :
    quadAddress (BitVec.ofNat 32 (octet ip 3)) (BitVec.ofNat 32 (octet ip 2))
      (BitVec.ofNat 32 (octet ip 1)) (BitVec.ofNat 32 (octet ip 0)) = ip := by
  have bound := ip.isLt
  refine BitVec.eq_of_toNat_eq ?_
  rw [quadAddress_ofNat, BitVec.toNat_ofNat]
  simp only [octet_eq, Nat.shiftRight_eq_div_pow]
  omega

theorem stops_cons {base : Nat} {c : Char} (rest : List Char) (none : digitValue base c = none) :
    Stops base (c :: rest) := by
  intro d isHead
  cases isHead
  exact none

theorem scanQuad_printIp {scan : List Char → Option (BitVec 32 × List Char)}
    (scans : ∀ n < 2 ^ 32, ∀ rest, Stops 10 rest →
      scan (decimal n ++ rest) = some (BitVec.ofNat 32 n, rest)) (ip : BitVec 32)
    {rest : List Char} (stops : Stops 10 rest) :
    scanQuad scan (printIp ip ++ rest) =
      some ((BitVec.ofNat 32 (octet ip 3), BitVec.ofNat 32 (octet ip 2),
        BitVec.ofNat 32 (octet ip 1), BitVec.ofNat 32 (octet ip 0)), rest) := by
  have dot (i : Nat) (rest : List Char) : scan (decimal (octet ip i) ++ '.' :: rest) =
      some (BitVec.ofNat 32 (octet ip i), '.' :: rest) :=
    scans _ (Nat.lt_trans (octet_lt ip i) (by decide)) _ (stops_cons rest rfl)
  have last := scans _ (Nat.lt_trans (octet_lt ip 0) (by decide)) rest stops
  simp only [printIp, List.append_assoc, List.cons_append, scanQuad, dot, last, literal, if_true,
    Option.bind_eq_bind, Option.bind_some, Option.pure_def]

variable {bits : Nat}

theorem scanCidr_printCidr {scan : List Char → Option (BitVec 32 × List Char)}
    (scans : ∀ n < 2 ^ 32, ∀ rest, Stops 10 rest →
      scan (decimal n ++ rest) = some (BitVec.ofNat 32 n, rest)) (ip : BitVec 32)
    (fits : bits ≤ 32) :
    scanCidr scan (printCidr ip bits) =
      some ((BitVec.ofNat 32 (octet ip 3), BitVec.ofNat 32 (octet ip 2),
        BitVec.ofNat 32 (octet ip 1), BitVec.ofNat 32 (octet ip 0)), BitVec.ofNat 32 bits) := by
  have last := scans bits (Nat.lt_of_le_of_lt fits (by decide)) [] (stops_nil 10)
  rw [List.append_nil] at last
  have quad := scanQuad_printIp scans ip (stops_cons (c := '/') (decimal bits) rfl)
  simp only [scanCidr, printCidr, quad, literal, last, if_true, Option.bind_eq_bind,
    Option.bind_some, Option.pure_def]

theorem ofNat_octet_le (ip : BitVec 32) (i : Nat) : ¬ BitVec.ofNat 32 (octet ip i) > 255 := by
  have small := octet_lt ip i
  rw [gt_iff_lt, BitVec.lt_def, BitVec.toNat_ofNat]
  change ¬ 255 < _
  omega

theorem ofNat_bits_le (fits : bits ≤ 32) : ¬ BitVec.ofNat 32 bits > 32 := by
  rw [gt_iff_lt, BitVec.lt_def, BitVec.toNat_ofNat]
  change ¬ 32 < _
  omega

theorem atocidr_printCidr (ip : BitVec 32) (fits : bits ≤ 32) :
    atocidr (printCidr ip bits) = some (ip, maskLoop bits 0x80000000 0) := by
  have number : (BitVec.ofNat 32 bits).toNat = bits := by
    rw [BitVec.toNat_ofNat]
    omega
  rw [atocidr, scanCidr_printCidr (fun n small rest => scanUnsigned_decimal small) ip fits]
  simp only [ofNat_octet_le, ofNat_bits_le fits, or_self, if_false, quadAddress_octets, number]

theorem count_decimal {c : Char} (other : c.isDigit = false) (n : Nat) :
    (decimal n).count c = 0 := by
  refine List.count_eq_zero.mpr fun member => ?_
  rw [isDigit_decimal member] at other
  cases other

theorem isCidrFormat_printCidr (ip : BitVec 32) (fits : bits ≤ 32) :
    isCidrFormat (printCidr ip bits) = true := by
  have digits (n : Nat) : (decimal n).all (fun c => c = '.' || c = '/' || isdigit c) = true := by
    refine List.all_eq_true.mpr fun c member => ?_
    rw [isdigit_of_isDigit (isDigit_decimal member), Bool.or_true]
  have dots (n : Nat) : (decimal n).count '.' = 0 := count_decimal rfl n
  have slashes (n : Nat) : (decimal n).count '/' = 0 := count_decimal rfl n
  rw [isCidrFormat, scanCidr_printCidr (fun n small rest => scanInt_decimal small) ip fits]
  simp [printCidr, printIp, digits, dots, slashes, List.all_append, List.count_append]

theorem cidrBounds_printCidr (ip : BitVec 32) (fits : bits ≤ 32) :
    cidrBounds (printCidr ip bits) = true := by
  rw [cidrBounds, isCidrFormat_printCidr ip fits,
    scanCidr_printCidr (fun n small rest => scanInt_decimal small) ip fits]
  simp only [ofNat_octet_le, ofNat_bits_le fits, decide_false, Bool.or_self, Bool.not_false,
    Bool.and_self]

theorem chkCidrnet_printCidr (token : Word) {ip : BitVec 32} (fits : bits ≤ 32)
    (network : ip &&& ~~~ maskLoop bits 0x80000000 0 = 0) (unicast : isMulticast ip = false) :
    chkCidrnet token (printCidr ip bits) = true := by
  rw [chkCidrnet, cidrBounds_printCidr ip fits, atocidr_printCidr ip fits]
  simp only [network, unicast, decide_true, Bool.not_false, Bool.and_self]

theorem mask2bits_maskLoop (fits : bits ≤ 32) :
    mask2bits (maskLoop bits 0x80000000 0) = bits := by
  have all : ∀ n : Fin 33, mask2bits (maskLoop n.val 0x80000000 0) = n.val := by decide
  exact all ⟨bits, by omega⟩

theorem atocidr_some {str : Word} {ip mask : BitVec 32} (read : atocidr str = some (ip, mask)) :
    ∃ bits ≤ 32, mask = maskLoop bits 0x80000000 0 := by
  rw [atocidr] at read
  split at read
  · cases read
  · rename_i a b c d e _
    by_cases wrong : a > 255 ∨ b > 255 ∨ c > 255 ∨ d > 255 ∨ e > 32
    · rw [if_pos wrong] at read
      cases read
    · rw [if_neg wrong] at read
      cases read
      simp only [not_or] at wrong
      exact ⟨e.toNat, BitVec.not_lt.mp wrong.2.2.2.2, rfl⟩

end Addresses

section Hexadecimal

/-- The conversion `%02x` of a byte. -/
def hexByte (b : BitVec 8) : Word := [Nat.digitChar (b.toNat / 16), Nat.digitChar (b.toNat % 16)]

/-- The format `%02x:%02x:%02x:%02x:%02x:%02x`. -/
def printMac (mac : List (BitVec 8)) : Word := [':'].intercalate (mac.map hexByte)

theorem digitChar_hex {n : Nat} (small : n < 16) :
    digitValue 16 n.digitChar = some n ∧ isSpace n.digitChar = false ∧ n.digitChar ≠ '-' ∧
      n.digitChar ≠ '+' ∧ n.digitChar ≠ 'x' ∧ n.digitChar ≠ 'X' ∧ n.digitChar ≠ ' ' ∧
      (n.digitChar = '0' → n = 0) := by
  have all : ∀ n : Fin 16, digitValue 16 n.val.digitChar = some n.val ∧
      isSpace n.val.digitChar = false ∧ n.val.digitChar ≠ '-' ∧ n.val.digitChar ≠ '+' ∧
      n.val.digitChar ≠ 'x' ∧ n.val.digitChar ≠ 'X' ∧ n.val.digitChar ≠ ' ' ∧
      (n.val.digitChar = '0' → n.val = 0) := by
    decide
  exact all ⟨n, small⟩

theorem scanDigits_stop {width acc : Nat} {rest : List Char} (stops : width = 0 ∨ Stops 16 rest) :
    scanDigits 16 width acc rest = (acc, 0, rest) := by
  cases rest with
  | nil => cases width <;> rfl
  | cons c rest =>
    cases width with
    | zero => rfl
    | succ width =>
      have stop : digitValue 16 c = none := stops.resolve_left (by omega) c rfl
      rw [scanDigits, stop]

theorem scanHex_hexByte (b : BitVec 8) (width : Nat) {rest : List Char}
    (stops : width = 0 ∨ Stops 16 rest) :
    scanHex (width + 2) (hexByte b ++ rest) = some (b.setWidth 32, rest) := by
  have bound := b.isLt
  obtain ⟨high, notSpace, notMinus, notPlus, -, -, -, isZero⟩ :=
    digitChar_hex (n := b.toNat / 16) (by omega)
  obtain ⟨low, -, -, -, notX, notUpperX, -, -⟩ := digitChar_hex (n := b.toNat % 16) (by omega)
  have whole : 16 * (b.toNat / 16) + b.toNat % 16 = b.toNat := Nat.div_add_mod _ 16
  have value : scanHexadecimal (width + 2) (hexByte b ++ rest) = some (false, b.toNat, rest) := by
    have sign : scanSign (width + 2) (hexByte b ++ rest) =
        (false, width + 2, hexByte b ++ rest) := by
      rw [scanSign]
      · rintro left str - same
        exact notMinus (List.cons.inj same).1
      · rintro left str - same
        exact notPlus (List.cons.inj same).1
    have kept : (hexByte b ++ rest).dropWhile isSpace = hexByte b ++ rest := by
      rw [hexByte, List.cons_append, List.dropWhile_cons, notSpace]
      rfl
    rw [scanHexadecimal, kept, sign]
    by_cases zero : (b.toNat / 16).digitChar = '0'
    · have small := isZero zero
      have shape : hexByte b ++ rest = '0' :: (b.toNat % 16).digitChar :: rest := by
        rw [hexByte, zero]
        rfl
      rw [small] at whole
      simp only [shape, notX, notUpperX, or_self, if_false, scanDigits, low]
      rw [scanDigits_stop stops]
      simp only [Nat.mul_zero, Nat.zero_add] at whole ⊢
      rw [whole]
    · have shape : hexByte b ++ rest =
          (b.toNat / 16).digitChar :: (b.toNat % 16).digitChar :: rest := rfl
      have digits : scanDigits 16 (width + 1 + 1) 0 (hexByte b ++ rest) = (b.toNat, 2, rest) := by
        rw [shape]
        simp only [scanDigits, high, low]
        rw [scanDigits_stop stops]
        simp only [Nat.mul_zero, Nat.zero_add, whole]
      split
      · rename_i impossible
        cases impossible
      · rename_i _ isZeroDigit
        exact absurd (List.cons.inj (shape.symm.trans isZeroDigit)).1 zero
      · rename_i left _ isLeft _
        cases isLeft
        simp only [digits]
        rfl
  have small : b.toNat < 2 ^ 64 := by omega
  rw [scanHex, value, Option.map_some, toUnsigned]
  simp only [Bool.false_eq_true, if_false, if_pos small]
  rw [BitVec.ofInt_natCast, BitVec.ofNat_toNat]

variable {mac : List (BitVec 8)}

theorem scanMac_printMac {width : Nat → Nat} (wide : ∀ n, 2 ≤ n → ∃ w, width n = w + 2)
    (six : mac.length = 6) :
    scanMac width (printMac mac) = some (mac.map (·.setWidth 32)) := by
  match mac, six with
  | [a, b, c, d, e, f], _ =>
    have next (x : BitVec 8) (rest : List Char) (stops : Stops 16 rest) :
        scanHex (width (hexByte x ++ rest).length) (hexByte x ++ rest) =
          some (x.setWidth 32, rest) := by
      obtain ⟨w, isWidth⟩ := wide (hexByte x ++ rest).length (by
        rw [List.length_append]
        exact Nat.le_add_right 2 _)
      rw [isWidth]
      exact scanHex_hexByte x w (.inr stops)
    have colon (x : BitVec 8) (rest : List Char) := next x (':' :: rest) (stops_cons rest rfl)
    have last := next f [] (stops_nil 16)
    rw [List.append_nil] at last
    have shape : printMac [a, b, c, d, e, f] = hexByte a ++ ':' :: (hexByte b ++ ':' ::
        (hexByte c ++ ':' :: (hexByte d ++ ':' :: (hexByte e ++ ':' :: hexByte f)))) := by
      rfl
    simp only [scanMac, shape, colon, last, literal, if_true, Option.bind_eq_bind,
      Option.bind_some, Option.pure_def, List.map_cons, List.map_nil]

theorem any_bytes (mac : List (BitVec 8)) :
    ((mac.map fun x => x.setWidth 32).any fun x : BitVec 32 => x > 255) = false := by
  rw [List.any_eq_false]
  intro x member
  obtain ⟨b, -, rfl⟩ := List.mem_map.mp member
  have bound := b.isLt
  rw [decide_eq_true_eq, gt_iff_lt, BitVec.lt_def, BitVec.toNat_setWidth]
  change ¬ 255 < _
  omega

theorem atomac_printMac (six : mac.length = 6) :
    atomac (printMac mac) = some mac := by
  have back : (mac.map (fun x => x.setWidth 32)).map (fun x => x.setWidth 8) = mac := by
    rw [List.map_map]
    refine (List.map_congr_left fun x _ => ?_).trans (List.map_id mac)
    exact BitVec.setWidth_setWidth_of_le x (by decide)
  rw [atomac, scanMac_printMac (fun n _ => ⟨0, rfl⟩) six]
  simp only [any_bytes, Bool.false_eq_true, if_false, back]

theorem chkMac_printMac (token : Word) (six : mac.length = 6) :
    chkMac token (printMac mac) = true := by
  rw [chkMac, scanMac_printMac (fun n two => ⟨n - 2, by omega⟩) six]
  simp only [any_bytes, Bool.not_false]

end Hexadecimal

section Lines

open CliParser (wordsOf wordsFrom getWordLen)

variable {str : List Char} {words : List Word}

/-- The words of a line, by the blanks between them. -/
def unblanked (str : List Char) : List Word := (str.splitOn ' ').filter (· ≠ [])

theorem unblanked_blank (str : List Char) : unblanked (' ' :: str) = unblanked str := by
  rw [unblanked, List.splitOn_cons_eq_if_modifyHead]
  rfl

theorem unblanked_word {word : Word} (blankFree : ' ' ∉ word) (nonempty : word ≠ []) :
    unblanked word = [word] := by
  rw [unblanked, List.splitOn_eq_singleton blankFree]
  exact List.filter_cons_of_pos (decide_eq_true nonempty)

theorem unblanked_append {word : Word} (blankFree : ' ' ∉ word) (nonempty : word ≠ [])
    (str : List Char) : unblanked (word ++ ' ' :: str) = word :: unblanked str := by
  rw [unblanked, List.splitOn_append_cons_self_of_not_mem blankFree]
  exact List.filter_cons_of_pos (decide_eq_true nonempty)

theorem unblanked_dropWhile (str : List Char) :
    unblanked (str.dropWhile (· = ' ')) = unblanked str := by
  induction str with
  | nil => rfl
  | cons c str ih =>
    by_cases blank : c = ' '
    · subst blank
      rw [unblanked_blank]
      exact ih
    · rw [List.dropWhile_cons_of_neg (by simpa using blank)]

theorem getWordLen_split (ptr : List Char) :
    ∃ word rest, ptr = word ++ rest ∧ ' ' ∉ word ∧ getWordLen ptr = word.length ∧
      (rest = [] ∨ ∃ str, rest = ' ' :: str) := by
  induction ptr with
  | nil => exact ⟨[], [], rfl, List.not_mem_nil, rfl, .inl rfl⟩
  | cons c ptr ih =>
    by_cases blank : c = ' '
    · subst blank
      exact ⟨[], ' ' :: ptr, rfl, List.not_mem_nil, rfl, .inr ⟨ptr, rfl⟩⟩
    · obtain ⟨word, rest, rfl, blankFree, size, behind⟩ := ih
      refine ⟨c :: word, rest, rfl, ?_, ?_, behind⟩
      · rintro (_ | ⟨_, member⟩)
        · exact blank rfl
        · exact blankFree member
      · rw [getWordLen] at size ⊢
        rw [List.takeWhile_cons_of_pos (by simpa using blank), List.length_cons, size,
          List.length_cons]

theorem wordsFrom_eq {left : Nat} (enough : str.length ≤ left) :
    wordsFrom left str = unblanked str := by
  induction left generalizing str with
  | zero =>
    cases List.eq_nil_of_length_eq_zero (Nat.le_zero.mp enough)
    rfl
  | succ left ih =>
    have shorter : (str.dropWhile (· = ' ')).length ≤ str.length :=
      (List.dropWhile_sublist _).length_le
    have start := List.head?_dropWhile_not (· = ' ') str
    rw [wordsFrom, ← unblanked_dropWhile str]
    generalize str.dropWhile (· = ' ') = ptr at shorter start ⊢
    obtain ⟨word, rest, rfl, blankFree, size, behind⟩ := getWordLen_split ptr
    rw [size, List.take_left, List.drop_left]
    rw [List.length_append] at shorter
    cases word with
    | nil =>
      rcases behind with rfl | ⟨s, rfl⟩
      · rfl
      · simp at start
    | cons c word =>
      rw [if_neg (by rw [List.length_cons]; omega)]
      rw [List.length_cons] at shorter
      rcases behind with rfl | ⟨s, rfl⟩
      · rw [List.append_nil, unblanked_word blankFree (List.cons_ne_nil c word),
          ih (by omega)]
        rfl
      · rw [unblanked_append blankFree (List.cons_ne_nil c word), ih (by omega),
          unblanked_blank]

theorem wordsFrom_blankFree {left : Nat} {word : Word} (member : word ∈ wordsFrom left str) :
    ' ' ∉ word ∧ word ≠ [] := by
  induction left generalizing str with
  | zero => exact absurd member List.not_mem_nil
  | succ left ih =>
    rw [wordsFrom] at member
    obtain ⟨first, rest, isPtr, blankFree, size, -⟩ :=
      getWordLen_split (str.dropWhile (· = ' '))
    rw [size] at member
    split_ifs at member with empty
    · exact absurd member List.not_mem_nil
    · rcases List.mem_cons.mp member with rfl | later
      · rw [isPtr, List.take_left]
        refine ⟨blankFree, ?_⟩
        rintro rfl
        exact empty rfl
      · exact ih later

theorem wordsOf_intercalate (blankFree : ∀ word ∈ words, ' ' ∉ word) :
    wordsOf ([' '].intercalate words) = words.filter (· ≠ []) := by
  rw [wordsOf, wordsFrom_eq (Nat.le_refl _), unblanked]
  cases words with
  | nil => rfl
  | cons word words => rw [List.splitOn_intercalate ' ' blankFree (List.cons_ne_nil word words)]

end Lines

end PrintedNumbers
