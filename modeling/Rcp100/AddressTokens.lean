import Rcp100.MaskToken
import Rcp100.MacToken

/-!
# Tokens for addresses and the conversions of the handlers

A handler converts a word that the parser has accepted, and does not ask whether that worked.
The checks use `%d` and `%x`, the conversions `%u` and `%2x`: a number that is cut to 32 bits,
or is written with more characters than two, is accepted and converted to something else.
-/

namespace AddressTokens

open BitPrefix SpecialTokens PrintedNumbers NumberTokens MaskToken MacToken

/-- An address, a slash, and a number. -/
def IsNetwork (str : Word) (q : Quad) (n : Nat) : Prop :=
  ∃ quad bits : Word, str = quad ++ '/' :: bits ∧ IsQuad quad q ∧ numeral bits = some n

/-- A number that `%d` turns into a prefix length. -/
def ReadAsBits (n : Nat) : Prop := min n (2 ^ 63 - 1) % 2 ^ 32 ≤ 32

/-- The conversion gives the address, and the mask of so many ones. -/
structure NetworkConverts (str : Word) (q : Quad) (n : Nat) : Prop where
  written : IsNetwork str q n
  octets : q.All IsOctet
  bits : n ≤ 32
  converted : atocidr str = some (q.address, leading 32 n)

/-- The parser and the handlers agree on a word: what a token accepts is an address, and its
conversion gives the numbers that are written. -/
structure Agree (env : Env) (str : Word) : Prop where
  ip : cliCheckSpecial env "<ip>".toList str = true →
    ∃ q, IsQuad str q ∧ q.All IsOctet ∧ atoip str = some q.address
  cidr : cliCheckSpecial env "<cidr>".toList str = true → ∃ q n, NetworkConverts str q n
  cidrnet : cliCheckSpecial env "<cidrnet>".toList str = true →
    ∃ q n, NetworkConverts str q n ∧ q.address &&& ~~~leading 32 n = 0
  mac : cliCheckSpecial env "<mac>".toList str = true → ∃ gs, IsMac str gs ∧ Converts str gs

section Networks

variable {str p rest : Word} {q : Quad} {n v : Nat}

/-- What is behind a number of a network. -/
def BehindNumber (rest : Word) : Prop :=
  rest = [] ∨ ∃ c str, rest = c :: str ∧ (c = '.' ∨ c = '/')

theorem BehindNumber.stops (behind : BehindNumber rest) : Stops 10 rest := by
  rcases behind with rfl | ⟨c, str, rfl, rfl | rfl⟩
  · exact stops_nil 10
  · exact stops_cons str rfl
  · exact stops_cons str rfl

theorem scanDecimal_number (digits : p.all isdigit = true) (behind : BehindNumber rest) :
    scanDecimal (p ++ rest) = (numeral p).map fun v => (false, v, rest) := by
  by_cases nonempty : p = []
  · subst nonempty
    rcases behind with rfl | ⟨c, str, rfl, rfl | rfl⟩ <;> rfl
  · rw [scanDecimal_digits nonempty (isDigit_of_all digits) behind.stops,
      numeral_digits digits nonempty, Option.map_some]

theorem scanInt_number (digits : p.all isdigit = true) (behind : BehindNumber rest) :
    scanInt (p ++ rest) = (numeral p).map fun v => (toInt false v, rest) := by
  rw [scanInt, scanDecimal_number digits behind, Option.map_map]
  rfl

theorem scanUnsigned_number (digits : p.all isdigit = true) (behind : BehindNumber rest) :
    scanUnsigned (p ++ rest) = (numeral p).map fun v => (toUnsigned false v, rest) := by
  rw [scanUnsigned, scanDecimal_number digits behind, Option.map_map]
  rfl

theorem scanCidr_network {scan : List Char → Option (BitVec 32 × List Char)}
    {value : Nat → BitVec 32} (scans : ∀ {p rest : Word}, p.all isdigit = true →
      BehindNumber rest → scan (p ++ rest) = (numeral p).map fun v => (value v, rest))
    (isNetwork : IsNetwork str q n) :
    scanCidr scan str = some ((value q.a, value q.b, value q.c, value q.d), value n) := by
  obtain ⟨quad, bits, rfl, ⟨p, r, s, t, rfl, one, two, three, four⟩, five⟩ := isNetwork
  have dot {p : Word} {v : Nat} (isNumeral : numeral p = some v) (rest : Word) :
      scan (p ++ '.' :: rest) = some (value v, '.' :: rest) := by
    rw [scans (digits_of_numeral isNumeral) (.inr ⟨'.', rest, rfl, .inl rfl⟩), isNumeral]
    rfl
  have slash : scan (t ++ '/' :: bits) = some (value q.d, '/' :: bits) := by
    rw [scans (digits_of_numeral four) (.inr ⟨'/', bits, rfl, .inr rfl⟩), four]
    rfl
  have last : scan bits = some (value n, []) := by
    have end_ := scans (digits_of_numeral five) (.inl rfl)
    rw [List.append_nil] at end_
    rw [end_, five]
    rfl
  have shape : p ++ '.' :: (r ++ '.' :: (s ++ '.' :: t)) ++ '/' :: bits =
      p ++ '.' :: (r ++ '.' :: (s ++ '.' :: (t ++ '/' :: bits))) := by
    simp only [List.append_assoc, List.cons_append]
  rw [shape]
  simp only [scanCidr, scanQuad, dot one, dot two, dot three, slash, last, literal, if_true,
    Option.bind_eq_bind, Option.bind_some, Option.pure_def]

/-- The characters that `is_cidr_format` lets through. -/
def netChar (c : Char) : Bool := c = '.' || c = '/' || isdigit c

theorem firstDigits (clean : str.all netChar = true) :
    ∃ p rest, str = p ++ rest ∧ p.all isdigit = true ∧ BehindNumber rest ∧
      rest.all netChar = true := by
  induction str with
  | nil => exact ⟨[], [], rfl, rfl, .inl rfl, rfl⟩
  | cons c str ih =>
    have whole := clean
    rw [List.all_cons, Bool.and_eq_true] at clean
    by_cases digit : isdigit c = true
    · obtain ⟨p, rest, rfl, digits, behind, restClean⟩ := ih clean.2
      refine ⟨c :: p, rest, rfl, ?_, behind, restClean⟩
      rw [List.all_cons, digit, digits]
      rfl
    · refine ⟨[], c :: str, rfl, rfl, .inr ⟨c, str, rfl, ?_⟩, whole⟩
      have kind := clean.1
      rw [netChar, Bool.not_eq_true _ |>.mp digit] at kind
      simpa using kind

theorem scanInt_some (clean : str.all netChar = true) {r : BitVec 32 × List Char}
    (scanned : scanInt str = some r) :
    ∃ p v, str = p ++ r.2 ∧ numeral p = some v ∧ BehindNumber r.2 ∧ r.2.all netChar = true := by
  obtain ⟨p, rest, rfl, digits, behind, restClean⟩ := firstDigits clean
  rw [scanInt_number digits behind, Option.map_eq_some_iff] at scanned
  obtain ⟨v, isNumeral, rfl⟩ := scanned
  exact ⟨p, v, rfl, isNumeral, behind, restClean⟩

theorem literal_some {c : Char} {r : List Char} (passed : literal c str = some r) :
    str = c :: r := by
  cases str with
  | nil => cases passed
  | cons d str =>
    rw [literal] at passed
    split_ifs at passed with same
    cases passed
    rw [same]

theorem isNetwork_of_scanCidr (clean : str.all netChar = true) (three : str.count '.' = 3)
    (one : str.count '/' = 1) (scanned : (scanCidr scanInt str).isSome = true) :
    ∃ q n, IsNetwork str q n := by
  obtain ⟨result, scanned⟩ := Option.isSome_iff_exists.mp scanned
  simp only [scanCidr, scanQuad, Option.bind_eq_bind, Option.bind_assoc, Option.pure_def,
    Option.bind_some, Option.bind_eq_some_iff] at scanned
  obtain ⟨⟨a, s₀⟩, first, s₁, dot₁, ⟨b, t₁⟩, second, s₂, dot₂, ⟨c, t₂⟩, third, s₃, dot₃, ⟨d, t₃⟩,
    fourth, s₄, slash, ⟨e, t₄⟩, fifth, -⟩ := scanned
  have behind {c : Char} {r l : Word} (passed : literal c r = some l)
      (clean : r.all netChar = true) : l.all netChar = true := by
    rw [literal_some passed, List.all_cons, Bool.and_eq_true] at clean
    exact clean.2
  obtain ⟨p, v₁, rfl, one', -, clean₁⟩ := scanInt_some clean first
  obtain ⟨r, v₂, isR, two', -, clean₂⟩ := scanInt_some (behind dot₁ clean₁) second
  obtain ⟨s, v₃, isS, three', -, clean₃⟩ := scanInt_some (behind dot₂ clean₂) third
  obtain ⟨t, v₄, isT, four', -, clean₄⟩ := scanInt_some (behind dot₃ clean₃) fourth
  obtain ⟨u, v₅, isU, five', last, -⟩ := scanInt_some (behind slash clean₄) fifth
  rw [literal_some dot₁, isR, literal_some dot₂, isS, literal_some dot₃, isT, literal_some slash,
    isU] at three one ⊢
  obtain ⟨-, dots₁, slashes₁⟩ := digits_clean (digits_of_numeral one')
  obtain ⟨-, dots₂, slashes₂⟩ := digits_clean (digits_of_numeral two')
  obtain ⟨-, dots₃, slashes₃⟩ := digits_clean (digits_of_numeral three')
  obtain ⟨-, dots₄, slashes₄⟩ := digits_clean (digits_of_numeral four')
  obtain ⟨-, dots₅, slashes₅⟩ := digits_clean (digits_of_numeral five')
  have nothing : t₄ = [] := by
    rcases last with none | ⟨c, l, isLast, rfl | rfl⟩
    · exact none
    · dsimp only at isLast
      rw [isLast] at three
      simp [List.count_append, dots₁, dots₂, dots₃, dots₄, dots₅] at three
    · dsimp only at isLast
      rw [isLast] at one
      simp [List.count_append, slashes₁, slashes₂, slashes₃, slashes₄, slashes₅] at one
  refine ⟨⟨v₁, v₂, v₃, v₄⟩, v₅, p ++ '.' :: (r ++ '.' :: (s ++ '.' :: t)), u, ?_,
    ⟨p, r, s, t, rfl, one', two', three', four'⟩, five'⟩
  simp only [nothing, List.append_nil, List.append_assoc, List.cons_append]

theorem IsNetwork.clean (isNetwork : IsNetwork str q n) :
    str.all netChar = true ∧ str.count '.' = 3 ∧ str.count '/' = 1 := by
  obtain ⟨quad, bits, rfl, isQuad, five⟩ := isNetwork
  obtain ⟨clean, dots, -⟩ := isQuad.clean
  obtain ⟨digits, dots', slashes⟩ := digits_clean (digits_of_numeral five)
  have weaker : ∀ l : Word, l.all dotOrDigit = true → l.all netChar = true ∧ l.count '/' = 0 := by
    intro l all
    rw [List.all_eq_true] at all ⊢
    refine ⟨fun c member => ?_, List.count_eq_zero.mpr fun member => ?_⟩
    · have kind := all c member
      rw [dotOrDigit, Bool.or_eq_true] at kind
      rw [netChar, Bool.or_assoc]
      rcases kind with dot | digit
      · rw [dot]
        rfl
      · rw [digit, Bool.or_true, Bool.or_true]
    · exact absurd (all _ member) (by decide)
  obtain ⟨clean', noSlash⟩ := weaker _ clean
  obtain ⟨digits', -⟩ := weaker _ digits
  refine ⟨?_, ?_, ?_⟩
  · rw [List.all_append, clean', List.all_cons, digits']
    rfl
  · rw [List.count_append, List.count_cons_of_ne (by decide), dots, dots']
  · rw [List.count_append, List.count_cons_self, noSlash, slashes]

theorem isCidrFormat_iff : isCidrFormat str = true ↔ ∃ q n, IsNetwork str q n := by
  have shape : isCidrFormat str = true ↔ str.all netChar = true ∧ str.count '.' = 3 ∧
      str.count '/' = 1 ∧ (scanCidr scanInt str).isSome = true := by
    rw [isCidrFormat]
    simp only [Bool.and_eq_true, decide_eq_true_eq, and_assoc]
    rfl
  rw [shape]
  constructor
  · rintro ⟨clean, three, one, scanned⟩
    exact isNetwork_of_scanCidr clean three one scanned
  · rintro ⟨q, n, isNetwork⟩
    obtain ⟨clean, three, one⟩ := isNetwork.clean
    refine ⟨clean, three, one, ?_⟩
    rw [scanCidr_network scanInt_number isNetwork]
    rfl

theorem IsNetwork.unique {q' : Quad} {n' : Nat} (isNetwork : IsNetwork str q n)
    (isNetwork' : IsNetwork str q' n') : q = q' ∧ n = n' := by
  obtain ⟨quad, bits, rfl, isQuad, five⟩ := isNetwork
  obtain ⟨quad', bits', same, isQuad', five'⟩ := isNetwork'
  have noSlash {l : Word} {q : Quad} (isQuad : IsQuad l q) : '/' ∉ l := by
    have clean := List.all_eq_true.mp isQuad.clean.1
    exact fun member => absurd (clean _ member) (by decide)
  have parts := congrArg (List.takeWhile (· ≠ '/')) same
  have stop (l rest : Word) (none : '/' ∉ l) : (l ++ '/' :: rest).takeWhile (· ≠ '/') = l := by
    rw [List.takeWhile_append_of_pos fun c member =>
      decide_eq_true (ne_of_mem_of_not_mem member none)]
    simp
  rw [stop _ _ (noSlash isQuad), stop _ _ (noSlash isQuad')] at parts
  subst parts
  cases List.append_cancel_left same
  exact ⟨isQuad.unique isQuad', Option.some.inj (five.symm.trans five')⟩

end Networks

section Checks

variable {str token : Word} {q : Quad} {n v : Nat}

theorem ReadAsBits.read (read : ReadAsBits n) :
    toUnsigned false n = BitVec.ofNat 32 n ∧ ¬ BitVec.ofNat 32 n > 32 ∧ n % 2 ^ 32 ≤ 32 :=
  number_read (by decide) read

theorem toInt_gt_bits_iff (n : Nat) : ¬ toInt false n > 32 ↔ ReadAsBits n := by
  rw [gt_iff_lt, BitVec.not_lt, BitVec.le_def, toNat_toInt]
  rfl

theorem maskLoop_leading {bits : Nat} (few : bits ≤ 32) :
    maskLoop bits 0x80000000 0 = leading 32 bits := by
  have all : ∀ n : Fin 33, maskLoop n.val 0x80000000 0 = leading 32 n.val := by decide
  exact all ⟨bits, by omega⟩

theorem IsNetwork.atocidr_read (isNetwork : IsNetwork str q n) (read : q.All ReadAsOctet)
    (readBits : ReadAsBits n) : atocidr str = some (q.address, leading 32 (n % 2 ^ 32)) := by
  obtain ⟨first, second, third, last⟩ := read
  obtain ⟨same, fits, few⟩ := readBits.read
  rw [atocidr, scanCidr_network scanUnsigned_number isNetwork]
  simp only [octet_read first, octet_read second, octet_read third, octet_read last, same, fits,
    or_self, if_false, BitVec.toNat_ofNat]
  rw [maskLoop_leading few]
  rfl

theorem chkIp_iff : chkIp token str = true ↔ ∃ q, IsQuad str q ∧ q.All ReadAsOctet ∧
    isMulticast q.address = false ∧ isBroadcast q.address = false := by
  have shape : chkIp token str = true ↔ chkMask token str = true ∧
      isMulticast ((atoip str).getD 0) = false ∧ isBroadcast ((atoip str).getD 0) = false := by
    rw [chkIp, chkMask]
    cases scanQuad scanInt str with
    | none => simp
    | some result =>
      simp only [chkMaskLoop_eq_true, Bool.and_true, Bool.and_eq_true, Bool.not_eq_true',
        Bool.or_eq_false_iff, and_assoc]
  rw [shape, chkMask_iff]
  constructor
  · rintro ⟨⟨q, isQuad, read⟩, unicast, single⟩
    rw [isQuad.atoip read] at unicast single
    exact ⟨q, isQuad, read, unicast, single⟩
  · rintro ⟨q, isQuad, read, unicast, single⟩
    rw [isQuad.atoip read]
    exact ⟨⟨q, isQuad, read⟩, unicast, single⟩

theorem cidrBounds_iff : cidrBounds str = true ↔
    ∃ q n, IsNetwork str q n ∧ q.All ReadAsOctet ∧ ReadAsBits n := by
  rw [cidrBounds, Bool.and_eq_true, isCidrFormat_iff]
  constructor
  · rintro ⟨⟨q, n, isNetwork⟩, within⟩
    rw [scanCidr_network scanInt_number isNetwork] at within
    simp only [Bool.not_eq_true', Bool.or_eq_false_iff, decide_eq_false_iff_not, and_assoc]
      at within
    obtain ⟨first, second, third, last, bits⟩ := within
    exact ⟨q, n, isNetwork, ⟨(toInt_gt_iff _).mp first, (toInt_gt_iff _).mp second,
      (toInt_gt_iff _).mp third, (toInt_gt_iff _).mp last⟩, (toInt_gt_bits_iff n).mp bits⟩
  · rintro ⟨q, n, isNetwork, ⟨first, second, third, last⟩, bits⟩
    refine ⟨⟨q, n, isNetwork⟩, ?_⟩
    rw [scanCidr_network scanInt_number isNetwork]
    simp only [(toInt_gt_iff _).mpr first, (toInt_gt_iff _).mpr second, (toInt_gt_iff _).mpr third,
      (toInt_gt_iff _).mpr last, (toInt_gt_bits_iff n).mpr bits, decide_false, Bool.or_self,
      Bool.not_false]

theorem chkCidr_iff : chkCidr token str = true ↔ ∃ q n, IsNetwork str q n ∧ q.All ReadAsOctet ∧
    ReadAsBits n ∧ isMulticast q.address = false ∧ isBroadcast q.address = false := by
  rw [chkCidr, Bool.and_eq_true, cidrBounds_iff]
  simp only [Bool.not_eq_true', Bool.or_eq_false_iff]
  constructor
  · rintro ⟨⟨q, n, isNetwork, read, bits⟩, unicast, single⟩
    rw [isNetwork.atocidr_read read bits] at unicast single
    exact ⟨q, n, isNetwork, read, bits, unicast, single⟩
  · rintro ⟨q, n, isNetwork, read, bits, unicast, single⟩
    refine ⟨⟨q, n, isNetwork, read, bits⟩, ?_⟩
    rw [isNetwork.atocidr_read read bits]
    exact ⟨unicast, single⟩

theorem chkCidrnet_iff : chkCidrnet token str = true ↔ ∃ q n, IsNetwork str q n ∧
    q.All ReadAsOctet ∧ ReadAsBits n ∧ q.address &&& ~~~leading 32 (n % 2 ^ 32) = 0 ∧
      isMulticast q.address = false := by
  rw [chkCidrnet, Bool.and_eq_true, cidrBounds_iff]
  constructor
  · rintro ⟨⟨q, n, isNetwork, read, bits⟩, inside⟩
    rw [isNetwork.atocidr_read read bits] at inside
    simp only [Bool.and_eq_true, decide_eq_true_eq, Bool.not_eq_true'] at inside
    exact ⟨q, n, isNetwork, read, bits, inside⟩
  · rintro ⟨q, n, isNetwork, read, bits, inside⟩
    refine ⟨⟨q, n, isNetwork, read, bits⟩, ?_⟩
    rw [isNetwork.atocidr_read read bits]
    simpa only [Bool.and_eq_true, decide_eq_true_eq, Bool.not_eq_true'] using inside

end Checks

section Agreement

variable {env : Env} {str token : Word} {f : CHK}

theorem accepts_iff (found : chk.find? (·.fits token) = some f) :
    cliCheckSpecial env token str = true ↔ str = token ∨ f.function env token str = true := by
  rw [cliCheckSpecial, found]
  dsimp only
  by_cases own : str = token
  · subst own
    simp
  · rw [if_neg fun both => own both.2.symm]
    simp [own]

def tokens : List Word :=
  ["<ip>".toList, "<cidr>".toList, "<cidrnet>".toList, "<mac>".toList]

/-- The words on which the parser and the handlers agree: they are no token, no number of an
address is cut to one of at most 255, or to a prefix length of at most 32, and no number of a MAC
address has more than two characters. -/
structure Plain (str : Word) : Prop where
  notToken : str ∉ tokens
  ip : ∀ q, IsQuad str q → q.All ReadAsOctet → isMulticast q.address = false →
    isBroadcast q.address = false → q.All IsOctet
  cidr : ∀ q n, IsNetwork str q n → q.All ReadAsOctet → ReadAsBits n →
    isMulticast q.address = false →
    (isBroadcast q.address = false ∨ q.address &&& ~~~leading 32 (n % 2 ^ 32) = 0) →
    q.All IsOctet ∧ n ≤ 32
  mac : ReadsBytes str → ShortMac str

theorem networkConverts_of_read {q : Quad} {n : Nat} (isNetwork : IsNetwork str q n)
    (octets : q.All IsOctet) (few : n ≤ 32) : NetworkConverts str q n := by
  obtain ⟨first, second, third, last⟩ := octets
  have bits : ReadAsBits n := by
    rw [ReadAsBits]
    omega
  have converted := isNetwork.atocidr_read ⟨first.read, second.read, third.read, last.read⟩ bits
  rw [Nat.mod_eq_of_lt (by omega)] at converted
  exact ⟨isNetwork, ⟨first, second, third, last⟩, few, converted⟩

theorem not_token (agree : Agree env str) : str ∉ tokens := by
  have noQuad (rest : Word) (q : Quad) : ¬ IsQuad ('<' :: rest) q := by
    intro isQuad
    have clean := isQuad.clean.1
    rw [List.all_cons, Bool.and_eq_true] at clean
    exact absurd clean.1 (by decide)
  have noNetwork (rest : Word) (q : Quad) (n : Nat) : ¬ IsNetwork ('<' :: rest) q n := by
    intro isNetwork
    have clean := isNetwork.clean.1
    rw [List.all_cons, Bool.and_eq_true] at clean
    exact absurd clean.1 (by decide)
  intro member
  simp only [tokens, List.mem_cons, List.not_mem_nil, or_false] at member
  rcases member with rfl | rfl | rfl | rfl
  · obtain ⟨q, isQuad, -⟩ := agree.ip ((accepts_iff rfl).mpr (.inl rfl))
    exact noQuad _ q isQuad
  · obtain ⟨q, n, converts⟩ := agree.cidr ((accepts_iff rfl).mpr (.inl rfl))
    exact noNetwork _ q n converts.written
  · obtain ⟨q, n, converts, -⟩ := agree.cidrnet ((accepts_iff rfl).mpr (.inl rfl))
    exact noNetwork _ q n converts.written
  · obtain ⟨gs, -, -, converted⟩ := agree.mac ((accepts_iff rfl).mpr (.inl rfl))
    cases converted

/-- The parser and the handlers agree on exactly the plain words. -/
theorem token_agrees_iff (env : Env) (str : Word) : Agree env str ↔ Plain str := by
  constructor
  · intro agree
    refine ⟨not_token agree, fun q isQuad read unicast single => ?_,
      fun q n isNetwork read bits unicast kind => ?_, fun reads => ?_⟩
    · have checked : chkIp "<ip>".toList str = true :=
        chkIp_iff.mpr ⟨q, isQuad, read, unicast, single⟩
      obtain ⟨q', isQuad', octets, -⟩ := agree.ip ((accepts_iff rfl).mpr (.inr checked))
      exact isQuad.unique isQuad' ▸ octets
    · have converts : ∃ q n, NetworkConverts str q n := by
        rcases kind with single | noHost
        · have checked : chkCidr "<cidr>".toList str = true :=
            chkCidr_iff.mpr ⟨q, n, isNetwork, read, bits, unicast, single⟩
          exact agree.cidr ((accepts_iff rfl).mpr (.inr checked))
        · have checked : chkCidrnet "<cidrnet>".toList str = true :=
            chkCidrnet_iff.mpr ⟨q, n, isNetwork, read, bits, noHost, unicast⟩
          obtain ⟨q, n, converts, -⟩ := agree.cidrnet ((accepts_iff rfl).mpr (.inr checked))
          exact ⟨q, n, converts⟩
      obtain ⟨q', n', isNetwork', octets, few, -⟩ := converts
      obtain ⟨rfl, rfl⟩ := isNetwork.unique isNetwork'
      exact ⟨octets, few⟩
    · have checked : chkMac "<mac>".toList str = true := (chkMac_iff _).mpr reads
      obtain ⟨gs, isMac, converts⟩ := agree.mac ((accepts_iff rfl).mpr (.inr checked))
      obtain ⟨init, last, rfl⟩ : ∃ init last, gs = init ++ [last] := by
        refine ⟨gs.dropLast, gs.getLast (fun none => ?_), (List.dropLast_append_getLast _).symm⟩
        have six := isMac.six
        rw [none] at six
        cases six
      obtain ⟨short, kind⟩ := (converts_iff isMac reads).mp converts
      exact ⟨init, last, isMac, short, kind⟩
  · rintro ⟨notToken, ip, cidr, mac⟩
    have other {token : Word} (member : token ∈ tokens) : str ≠ token := by
      rintro rfl
      exact notToken member
    refine ⟨fun accepted => ?_, fun accepted => ?_, fun accepted => ?_, fun accepted => ?_⟩
    · have checked : chkIp "<ip>".toList str = true :=
        ((accepts_iff rfl).mp accepted).resolve_left (other (by decide))
      obtain ⟨q, isQuad, read, unicast, single⟩ := chkIp_iff.mp checked
      have octets := ip q isQuad read unicast single
      exact ⟨q, isQuad, octets, isQuad.atoip read⟩
    · have checked : chkCidr "<cidr>".toList str = true :=
        ((accepts_iff rfl).mp accepted).resolve_left (other (by decide))
      obtain ⟨q, n, isNetwork, read, bits, unicast, single⟩ := chkCidr_iff.mp checked
      obtain ⟨octets, few⟩ := cidr q n isNetwork read bits unicast (.inl single)
      exact ⟨q, n, networkConverts_of_read isNetwork octets few⟩
    · have checked : chkCidrnet "<cidrnet>".toList str = true :=
        ((accepts_iff rfl).mp accepted).resolve_left (other (by decide))
      obtain ⟨q, n, isNetwork, read, bits, noHost, unicast⟩ := chkCidrnet_iff.mp checked
      obtain ⟨octets, few⟩ := cidr q n isNetwork read bits unicast (.inr noHost)
      rw [Nat.mod_eq_of_lt (by omega)] at noHost
      exact ⟨q, n, networkConverts_of_read isNetwork octets few, noHost⟩
    · have checked : chkMac "<mac>".toList str = true :=
        ((accepts_iff rfl).mp accepted).resolve_left (other (by decide))
      have reads := (chkMac_iff _).mp checked
      obtain ⟨gs, last, isMac, short, kind⟩ := mac reads
      exact ⟨gs ++ [last], isMac, (converts_iff isMac reads).mpr ⟨short, kind⟩⟩

/-- A number of an address that is cut to one, and a number of a MAC address with three
characters. -/
theorem cut_accepted :
    ¬ Agree ⟨fun _ => false, []⟩ "4294967297.0.0.1".toList ∧
      ¬ Agree ⟨fun _ => false, []⟩ "001:2:3:4:5:6".toList := by
  constructor
  · intro agree
    have isQuad : IsQuad "4294967297.0.0.1".toList ⟨4294967297, 0, 0, 1⟩ :=
      ⟨"4294967297".toList, "0".toList, "0".toList, "1".toList, rfl, by decide, rfl, rfl, rfl⟩
    obtain ⟨q, isQuad', octets, -⟩ := agree.ip (by decide)
    rw [← isQuad.unique isQuad'] at octets
    exact absurd octets.1 (by decide)
  · intro agree
    obtain ⟨gs, -, -, converted⟩ := agree.mac (by decide)
    have failed : atomac "001:2:3:4:5:6".toList = none := by decide
    rw [failed] at converted
    cases converted

end Agreement

end AddressTokens
