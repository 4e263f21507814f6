import Rcp100.RipEntries
import Rcp100.NumberTokens

/-!
# The token for masks

`chk_mask` counts the dots of a word, converts the four numbers and walks over the bits of
the mask. The conversion cuts a number to 32 bits, and the walk refuses nothing, so more
words are accepted than there are masks.
-/

namespace MaskToken

open BitPrefix IpAddress SpecialTokens PrintedNumbers NumberTokens RipResponse RipEntries

/-- Four numbers of any size. -/
structure Quad where
  a : Nat
  b : Nat
  c : Nat
  d : Nat

namespace Quad

def All (q : Quad) (property : Nat → Prop) : Prop :=
  property q.a ∧ property q.b ∧ property q.c ∧ property q.d

/-- The address that the four numbers stand for. -/
def address (q : Quad) : BitVec 32 :=
  quadAddress (BitVec.ofNat 32 q.a) (BitVec.ofNat 32 q.b) (BitVec.ofNat 32 q.c)
    (BitVec.ofNat 32 q.d)

end Quad

/-- The word is four decimal numbers with dots between them. -/
def IsQuad (str : Word) (q : Quad) : Prop :=
  ∃ p r s t : Word, str = p ++ '.' :: (r ++ '.' :: (s ++ '.' :: t)) ∧
    numeral p = some q.a ∧ numeral r = some q.b ∧ numeral s = some q.c ∧ numeral t = some q.d

/-- A number of an address. -/
def IsOctet (v : Nat) : Prop := v ≤ 255

instance (v : Nat) : Decidable (IsOctet v) := inferInstanceAs (Decidable (v ≤ 255))

/-- A number that `%d` turns into a number of an address. -/
def ReadAsOctet (v : Nat) : Prop := min v (2 ^ 63 - 1) % 2 ^ 32 ≤ 255

instance (v : Nat) : Decidable (ReadAsOctet v) :=
  inferInstanceAs (Decidable (min v (2 ^ 63 - 1) % 2 ^ 32 ≤ 255))

/-- Leading ones, as many as `mask2bits` counts, and zeros behind them. -/
def IsMask (mask : BitVec 32) : Prop := mask = BitVec.allOnes 32 <<< (32 - mask2bits mask)

instance (mask : BitVec 32) : Decidable (IsMask mask) :=
  inferInstanceAs (Decidable (mask = BitVec.allOnes 32 <<< (32 - mask2bits mask)))

/-- The check takes the masks and nothing else, and the masks that are read from accepted
words, or from networks, are masks. -/
structure Exact (env : Env) (token str : Word) : Prop where
  accepts : chkMask token str = true ↔ ∃ q, IsQuad str q ∧ q.All IsOctet ∧ IsMask q.address
  stored : cliCheckSpecial env "<mask>".toList str = true →
    ∀ mask, atoip str = some mask → IsMask mask
  networks : ∀ ip mask, atocidr str = some (ip, mask) → IsMask mask

section Bits

theorem isMask_iff (mask : BitVec 32) : IsMask mask ↔ Contiguous mask := by
  constructor
  · intro isMask
    by_cases few : mask2bits mask ≤ 32
    · exact ⟨mask2bits mask, few, isMask⟩
    · refine ⟨32, le_rfl, isMask.trans ?_⟩
      rw [leading, Nat.sub_eq_zero_of_le (by omega)]
  · rintro ⟨n, few, rfl⟩
    rw [IsMask, mask2bits_leading few, leading]

theorem chkMaskLoop_eq (mask : BitVec 32) (steps : Nat) (m : BitVec 32) (zero : Bool) :
    chkMaskLoop mask steps m zero = maskContiguousLoop mask steps m zero := by
  induction steps generalizing m zero with
  | zero => rfl
  | succ steps ih => rw [chkMaskLoop, maskContiguousLoop, ih]

theorem chkMaskLoop_eq_true (mask : BitVec 32) :
    chkMaskLoop mask 32 0x80000000 false = true := by
  rw [chkMaskLoop_eq]
  exact maskContiguous_eq_true mask

theorem isMask_maskLoop {bits : Nat} (few : bits ≤ 32) :
    IsMask (maskLoop bits 0x80000000 0) := by
  have all : ∀ n : Fin 33, maskLoop n.val 0x80000000 0 = leading 32 n.val := by decide
  exact (isMask_iff _).mpr ⟨bits, few, all ⟨bits, by omega⟩⟩

end Bits

section Conversion

variable {p str rest : Word} {v : Nat}

theorem isDigit_of_all (digits : p.all isdigit = true) : ∀ c ∈ p, c.isDigit := by
  rw [List.all_eq_true] at digits
  exact fun c member => isDigit_of_isdigit (digits c member)

theorem numeral_digits (digits : p.all isdigit = true) (nonempty : p ≠ []) :
    numeral p = some (Nat.ofDigitChars 10 p 0) := by
  rw [numeral, isnum, decide_eq_true nonempty, digits]
  rfl

theorem digits_of_numeral (isNumeral : numeral p = some v) : p.all isdigit = true := by
  have accepted := isnum_of_numeral isNumeral
  rw [isnum, Bool.and_eq_true] at accepted
  exact accepted.2

/-- What follows a group of digits. -/
def Behind (rest : Word) : Prop := rest = [] ∨ ∃ str, rest = '.' :: str

theorem Behind.stops (behind : Behind rest) : Stops 10 rest := by
  rcases behind with rfl | ⟨str, rfl⟩
  · exact stops_nil 10
  · exact stops_cons str rfl

theorem scanDecimal_group (digits : p.all isdigit = true) (behind : Behind rest) :
    scanDecimal (p ++ rest) = (numeral p).map fun v => (false, v, rest) := by
  by_cases nonempty : p = []
  · subst nonempty
    rcases behind with rfl | ⟨str, rfl⟩
    · rfl
    · rfl
  · rw [scanDecimal_digits nonempty (isDigit_of_all digits) behind.stops,
      numeral_digits digits nonempty, Option.map_some]

theorem literal_self (c : Char) (str : Word) : literal c (c :: str) = some str := if_pos rfl

theorem scanQuad_groups {scan : List Char → Option (BitVec 32 × List Char)}
    {value : Nat → BitVec 32} (scans : ∀ {p rest : Word}, p.all isdigit = true → Behind rest →
      scan (p ++ rest) = (numeral p).map fun v => (value v, rest))
    {p r s t : Word} (first : p.all isdigit = true) (second : r.all isdigit = true)
    (third : s.all isdigit = true) (last : t.all isdigit = true)
    {result : (BitVec 32 × BitVec 32 × BitVec 32 × BitVec 32) × List Char} :
    scanQuad scan (p ++ '.' :: (r ++ '.' :: (s ++ '.' :: t))) = some result ↔
      ∃ a b c d, numeral p = some a ∧ numeral r = some b ∧ numeral s = some c ∧
        numeral t = some d ∧ result = ((value a, value b, value c, value d), []) := by
  have end_ := scans last (.inl rfl)
  rw [List.append_nil] at end_
  rw [scanQuad, scans first (.inr ⟨_, rfl⟩)]
  cases numeral p with
  | none => simp
  | some a =>
    simp only [Option.map_some, Option.bind_eq_bind, Option.bind_some, literal_self]
    rw [scans second (.inr ⟨_, rfl⟩)]
    cases numeral r with
    | none => simp
    | some b =>
      simp only [Option.map_some, Option.bind_some, literal_self]
      rw [scans third (.inr ⟨_, rfl⟩)]
      cases numeral s with
      | none => simp
      | some c =>
        simp only [Option.map_some, Option.bind_some, literal_self]
        rw [end_]
        cases numeral t with
        | none => simp
        | some d => simp [eq_comm]

theorem scanInt_group (digits : p.all isdigit = true) (behind : Behind rest) :
    scanInt (p ++ rest) = (numeral p).map fun v => (toInt false v, rest) := by
  rw [scanInt, scanDecimal_group digits behind, Option.map_map]
  rfl

theorem scanUnsigned_group (digits : p.all isdigit = true) (behind : Behind rest) :
    scanUnsigned (p ++ rest) = (numeral p).map fun v => (toUnsigned false v, rest) := by
  rw [scanUnsigned, scanDecimal_group digits behind, Option.map_map]
  rfl

theorem toNat_toInt (v : Nat) : (toInt false v).toNat = min v (2 ^ 63 - 1) % 2 ^ 32 := by
  have least : min (v : Int) (2 ^ 63 - 1) = (min v (2 ^ 63 - 1) : Nat) := by omega
  simp only [toInt, Bool.false_eq_true, if_false]
  rw [least, BitVec.ofInt_natCast, BitVec.toNat_ofNat]

theorem toInt_gt_iff (v : Nat) : ¬ toInt false v > 255 ↔ ReadAsOctet v := by
  rw [gt_iff_lt, BitVec.not_lt, BitVec.le_def, toNat_toInt]
  rfl

theorem number_read {most : Nat} (small : most < 2 ^ 32 - 1)
    (read : min v (2 ^ 63 - 1) % 2 ^ 32 ≤ most) :
    toUnsigned false v = BitVec.ofNat 32 v ∧ ¬ BitVec.ofNat 32 v > BitVec.ofNat 32 most ∧
      v % 2 ^ 32 ≤ most := by
  have below : v < 2 ^ 63 - 1 := by omega
  refine ⟨?_, ?_, by omega⟩
  · rw [toUnsigned, if_pos (by omega)]
    exact BitVec.ofInt_natCast ..
  · rw [gt_iff_lt, BitVec.not_lt, BitVec.le_def, BitVec.toNat_ofNat, BitVec.toNat_ofNat]
    omega

theorem octet_read (read : ReadAsOctet v) :
    toUnsigned false v = BitVec.ofNat 32 v ∧ ¬ BitVec.ofNat 32 v > 255 := by
  obtain ⟨same, small, -⟩ := number_read (by decide) read
  exact ⟨same, small⟩

theorem IsOctet.read (isOctet : IsOctet v) : ReadAsOctet v := by
  rw [IsOctet] at isOctet
  rw [ReadAsOctet]
  omega

theorem Quad.All.read {q : Quad} (octets : q.All IsOctet) : q.All ReadAsOctet := by
  obtain ⟨first, second, third, last⟩ := octets
  exact ⟨first.read, second.read, third.read, last.read⟩

end Conversion

section Groups

variable {str : Word} {q : Quad}

/-- The characters that the loop of `chk_mask` lets through. -/
def dotOrDigit (c : Char) : Bool := c = '.' || isdigit c

theorem firstGroup {n : Nat} (clean : str.all dotOrDigit = true)
    (count : str.count '.' = n + 1) :
    ∃ p rest, str = p ++ '.' :: rest ∧ p.all isdigit = true ∧ rest.all dotOrDigit = true ∧
      rest.count '.' = n := by
  induction str with
  | nil => cases count
  | cons c str ih =>
    rw [List.all_cons, Bool.and_eq_true] at clean
    by_cases dot : c = '.'
    · subst dot
      rw [List.count_cons_self] at count
      exact ⟨[], str, rfl, rfl, clean.2, by omega⟩
    · rw [List.count_cons_of_ne dot] at count
      obtain ⟨p, rest, rfl, digits, restClean, restCount⟩ := ih clean.2 count
      have digit : isdigit c = true := by
        simpa only [dotOrDigit, decide_eq_false dot, Bool.false_or] using clean.1
      refine ⟨c :: p, rest, rfl, ?_, restClean, restCount⟩
      rw [List.all_cons, digit, digits, Bool.true_and]

theorem lastGroup (clean : str.all dotOrDigit = true) (count : str.count '.' = 0) :
    str.all isdigit = true := by
  rw [List.all_eq_true] at clean ⊢
  intro c member
  have dot : c ≠ '.' := by
    rintro rfl
    exact List.count_eq_zero.mp count member
  simpa only [dotOrDigit, decide_eq_false dot, Bool.false_or] using clean c member

theorem fourGroups (clean : str.all dotOrDigit = true) (three : str.count '.' = 3) :
    ∃ p r s t : Word, str = p ++ '.' :: (r ++ '.' :: (s ++ '.' :: t)) ∧
      p.all isdigit = true ∧ r.all isdigit = true ∧ s.all isdigit = true ∧
      t.all isdigit = true := by
  obtain ⟨p, rest, rfl, first, clean, count⟩ := firstGroup clean three
  obtain ⟨r, rest, rfl, second, clean, count⟩ := firstGroup clean count
  obtain ⟨s, t, rfl, third, clean, count⟩ := firstGroup clean count
  exact ⟨p, r, s, t, rfl, first, second, third, lastGroup clean count⟩

theorem digits_clean {p : Word} (digits : p.all isdigit = true) :
    p.all dotOrDigit = true ∧ p.count '.' = 0 ∧ p.count '/' = 0 := by
  have digit := isDigit_of_all digits
  rw [List.all_eq_true] at digits ⊢
  refine ⟨fun c member => ?_, List.count_eq_zero.mpr fun member => ?_,
    List.count_eq_zero.mpr fun member => ?_⟩
  · rw [dotOrDigit, digits c member, Bool.or_true]
  · exact absurd (digit _ member) (by decide)
  · exact absurd (digit _ member) (by decide)

theorem IsQuad.clean (isQuad : IsQuad str q) :
    str.all dotOrDigit = true ∧ str.count '.' = 3 ∧ isCidrFormat str = false := by
  obtain ⟨p, r, s, t, rfl, first, second, third, last⟩ := isQuad
  obtain ⟨clean₁, dots₁, slashes₁⟩ := digits_clean (digits_of_numeral first)
  obtain ⟨clean₂, dots₂, slashes₂⟩ := digits_clean (digits_of_numeral second)
  obtain ⟨clean₃, dots₃, slashes₃⟩ := digits_clean (digits_of_numeral third)
  obtain ⟨clean₄, dots₄, slashes₄⟩ := digits_clean (digits_of_numeral last)
  have dot : dotOrDigit '.' = true := rfl
  refine ⟨?_, ?_, ?_⟩
  · simp only [List.all_append, List.all_cons, clean₁, clean₂, clean₃, clean₄, dot,
      Bool.and_self]
  · simp only [List.count_append, List.count_cons_self, dots₁, dots₂, dots₃, dots₄]
  · have slashes : (p ++ '.' :: (r ++ '.' :: (s ++ '.' :: t))).count '/' = 0 := by
      simp [List.count_append, slashes₁, slashes₂, slashes₃, slashes₄]
    rw [isCidrFormat, slashes]
    simp

theorem scanInt_quad_iff (clean : str.all dotOrDigit = true) (three : str.count '.' = 3)
    {result : (BitVec 32 × BitVec 32 × BitVec 32 × BitVec 32) × List Char} :
    scanQuad scanInt str = some result ↔
      ∃ q, IsQuad str q ∧ result =
        ((toInt false q.a, toInt false q.b, toInt false q.c, toInt false q.d), []) := by
  constructor
  · intro scanned
    obtain ⟨p, r, s, t, rfl, first, second, third, last⟩ := fourGroups clean three
    obtain ⟨a, b, c, d, one, two, three, four, same⟩ :=
      (scanQuad_groups scanInt_group first second third last).mp scanned
    exact ⟨⟨a, b, c, d⟩, ⟨p, r, s, t, rfl, one, two, three, four⟩, same⟩
  · rintro ⟨q, ⟨p, r, s, t, rfl, one, two, three, four⟩, rfl⟩
    exact (scanQuad_groups scanInt_group (digits_of_numeral one) (digits_of_numeral two)
      (digits_of_numeral three) (digits_of_numeral four)).mpr
      ⟨q.a, q.b, q.c, q.d, one, two, three, four, rfl⟩

theorem chkMask_iff (token : Word) :
    chkMask token str = true ↔ ∃ q, IsQuad str q ∧ q.All ReadAsOctet := by
  have shape : chkMask token str = true ↔
      isCidrFormat str = false ∧ str.all dotOrDigit = true ∧ str.count '.' = 3 ∧
        ∃ result, scanQuad scanInt str = some result ∧ ¬ result.1.1 > 255 ∧
          ¬ result.1.2.1 > 255 ∧ ¬ result.1.2.2.1 > 255 ∧ ¬ result.1.2.2.2 > 255 := by
    rw [chkMask]
    cases scanQuad scanInt str with
    | none => simp
    | some result =>
      simp only [chkMaskLoop_eq_true, Bool.and_true, Bool.and_eq_true, Bool.not_eq_true',
        decide_eq_true_eq, Bool.or_eq_false_iff, decide_eq_false_iff_not, Option.some.injEq,
        exists_eq_left', and_assoc]
      rfl
  rw [shape]
  constructor
  · rintro ⟨-, clean, three, result, scanned, first, second, third, last⟩
    obtain ⟨q, isQuad, rfl⟩ := (scanInt_quad_iff clean three).mp scanned
    exact ⟨q, isQuad, (toInt_gt_iff _).mp first, (toInt_gt_iff _).mp second,
      (toInt_gt_iff _).mp third, (toInt_gt_iff _).mp last⟩
  · rintro ⟨q, isQuad, first, second, third, last⟩
    obtain ⟨clean, three, noNetwork⟩ := isQuad.clean
    exact ⟨noNetwork, clean, three, _, (scanInt_quad_iff clean three).mpr ⟨q, isQuad, rfl⟩,
      (toInt_gt_iff _).mpr first, (toInt_gt_iff _).mpr second, (toInt_gt_iff _).mpr third,
      (toInt_gt_iff _).mpr last⟩

theorem IsQuad.atoip (isQuad : IsQuad str q) (read : q.All ReadAsOctet) :
    atoip str = some q.address := by
  obtain ⟨p, r, s, t, rfl, one, two, three, four⟩ := isQuad
  have scanned := (scanQuad_groups scanUnsigned_group (digits_of_numeral one)
    (digits_of_numeral two) (digits_of_numeral three) (digits_of_numeral four)).mpr
    ⟨q.a, q.b, q.c, q.d, one, two, three, four, rfl⟩
  obtain ⟨first, second, third, last⟩ := read
  rw [SpecialTokens.atoip, scanned]
  simp only [octet_read first, octet_read second, octet_read third, octet_read last, or_self,
    if_false, Quad.address]

theorem group_inj {p p' rest rest' : Word} (digits : p.all isdigit = true)
    (digits' : p'.all isdigit = true) (same : p ++ '.' :: rest = p' ++ '.' :: rest') :
    p = p' ∧ rest = rest' := by
  induction p generalizing p' with
  | nil =>
    cases p' with
    | nil => exact ⟨rfl, (List.cons.inj same).2⟩
    | cons c p' =>
      rw [← (List.cons.inj same).1] at digits'
      cases digits'
  | cons c p ih =>
    rw [List.all_cons, Bool.and_eq_true] at digits
    cases p' with
    | nil =>
      rw [(List.cons.inj same).1] at digits
      cases digits.1
    | cons c' p' =>
      rw [List.all_cons, Bool.and_eq_true] at digits'
      obtain ⟨rfl, tails⟩ := List.cons.inj same
      obtain ⟨rfl, behind⟩ := ih digits.2 digits'.2 tails
      exact ⟨rfl, behind⟩

theorem IsQuad.unique {q' : Quad} (isQuad : IsQuad str q) (isQuad' : IsQuad str q') :
    q = q' := by
  obtain ⟨p, r, s, t, rfl, one, two, three, four⟩ := isQuad
  obtain ⟨p', r', s', t', same, one', two', three', four'⟩ := isQuad'
  obtain ⟨rfl, behind⟩ := group_inj (digits_of_numeral one) (digits_of_numeral one') same
  obtain ⟨rfl, others⟩ := group_inj (digits_of_numeral two) (digits_of_numeral two') behind
  obtain ⟨rfl, rfl⟩ := group_inj (digits_of_numeral three) (digits_of_numeral three') others
  cases q
  cases q'
  rw [Quad.mk.injEq]
  exact ⟨Option.some.inj (one.symm.trans one'), Option.some.inj (two.symm.trans two'),
    Option.some.inj (three.symm.trans three'), Option.some.inj (four.symm.trans four')⟩

end Groups

theorem maskToken_cases {env : Env} {str : Word}
    (accepted : cliCheckSpecial env "<mask>".toList str = true) :
    str = "<mask>".toList ∨ chkMask "<mask>".toList str = true := by
  have found : chk.find? (·.fits "<mask>".toList) =
      some ⟨"<mask>".toList, 6, fun _ => chkMask⟩ := rfl
  by_cases own : str = "<mask>".toList
  · exact .inl own
  · have checked : cliCheckSpecial env "<mask>".toList str = chkMask "<mask>".toList str := by
      rw [cliCheckSpecial, found]
      exact if_neg fun same => own same.2.symm
    exact .inr (checked.symm.trans accepted)

/-- The check is exact on the words that are not four numbers, each read as one of an
address, of which one is larger or that stand for a mask with a gap. -/
theorem mask_exact_iff (env : Env) (token str : Word) :
    Exact env token str ↔
      ∀ q, IsQuad str q → q.All ReadAsOctet → q.All IsOctet ∧ IsMask q.address := by
  constructor
  · intro exact_ q isQuad read
    have accepted : chkMask token str = true := (chkMask_iff token).mpr ⟨q, isQuad, read⟩
    obtain ⟨q', isQuad', octets, isMask⟩ := exact_.accepts.mp accepted
    rw [isQuad.unique isQuad']
    exact ⟨octets, isMask⟩
  · intro gaps
    have accepts : chkMask token str = true ↔
        ∃ q, IsQuad str q ∧ q.All IsOctet ∧ IsMask q.address := by
      rw [chkMask_iff]
      constructor
      · rintro ⟨q, isQuad, read⟩
        exact ⟨q, isQuad, gaps q isQuad read⟩
      · rintro ⟨q, isQuad, octets, -⟩
        exact ⟨q, isQuad, octets.read⟩
    refine ⟨accepts, fun accepted mask read => ?_, fun ip mask read => ?_⟩
    · rcases maskToken_cases accepted with rfl | checked
      · cases read
      · obtain ⟨q, isQuad, octets, isMask⟩ := (accepts.mp
          ((chkMask_iff token).mpr ((chkMask_iff _).mp checked)))
        rw [isQuad.atoip octets.read] at read
        cases read
        exact isMask
    · obtain ⟨bits, few, rfl⟩ := atocidr_some read
      exact isMask_maskLoop few

/-- A mask with a gap, and a number that is cut to 255. -/
theorem gapMask_accepted :
    ¬ Exact ⟨fun _ => false, []⟩ "<mask>".toList "255.0.255.0".toList ∧
      ¬ Exact ⟨fun _ => false, []⟩ "<mask>".toList "4294967551.0.0.0".toList := by
  constructor
  · intro exact_
    have isQuad : IsQuad "255.0.255.0".toList ⟨255, 0, 255, 0⟩ :=
      ⟨"255".toList, "0".toList, "255".toList, "0".toList, rfl, rfl, rfl, rfl, rfl⟩
    have accepted := (chkMask_iff "<mask>".toList).mpr ⟨_, isQuad, by
      refine ⟨?_, ?_, ?_, ?_⟩ <;> decide⟩
    obtain ⟨q, isQuad', -, isMask⟩ := exact_.accepts.mp accepted
    rw [← isQuad.unique isQuad'] at isMask
    exact absurd isMask (by decide)
  · intro exact_
    have isQuad : IsQuad "4294967551.0.0.0".toList ⟨4294967551, 0, 0, 0⟩ :=
      ⟨"4294967551".toList, "0".toList, "0".toList, "0".toList, rfl, by decide, rfl, rfl, rfl⟩
    have accepted := (chkMask_iff "<mask>".toList).mpr ⟨_, isQuad, by
      refine ⟨?_, ?_, ?_, ?_⟩ <;> decide⟩
    obtain ⟨q, isQuad', octets, -⟩ := exact_.accepts.mp accepted
    rw [← isQuad.unique isQuad'] at octets
    exact absurd octets.1 (by decide)

end MaskToken
