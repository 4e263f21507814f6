import Rcp100.DnsCache
import Mathlib.Data.List.TakeWhile

/-!
# What a DNS message says

The proxy compares names as strings, with dots between the labels; a message has them as
labels. Here are both, and what it means that a message has a question and that its records
are complete.
-/

namespace DnsMessages

open DnsPacket DnsCache

/-- The loop of `dnspkt_get_real_name`; `steps` bounds its rounds. -/
def dots : Nat → List Byte → Nat → Option (List Byte)
  | 0, _, _ => some []
  | _+1, [], _ => some []
  | steps+1, c :: rest, total =>
    if c = 0 then some []
    else if maxDomainName ≤ total + c.toNat then none
    else do
      let later ← dots steps (rest.drop c.toNat) (total + c.toNat)
      return rest.take c.toNat ++ 0x2e :: later

/-- The string, without the last dot; no string where the name is too long. -/
def getRealName (name : List Byte) : Option (List Byte) :=
  (dots name.length name 0).map fun out => cString out.dropLast

/-- Every label with a dot behind it. -/
def dotted (labels : List Label) : List Byte := labels.flatMap (· ++ [0x2e])

/-- Every label with its length in front. -/
def prefixed (labels : List Label) : List Byte :=
  labels.flatMap fun label => BitVec.ofNat 8 label.length :: label

/-- The labels have no zero byte. -/
def ZeroFree (labels : List Label) : Prop := ∀ label ∈ labels, (0 : Byte) ∉ label

/-- The labels have no dot. -/
def DotFree (labels : List Label) : Prop := ∀ label ∈ labels, (0x2e : Byte) ∉ label

section Names

variable {labels labels' : List Label} {label : Label}

theorem DotFree.tail (dotFree : DotFree (label :: labels)) : DotFree labels :=
  fun l member => dotFree l (List.mem_cons_of_mem label member)

theorem prefixed_cons (label : Label) (labels : List Label) :
    prefixed (label :: labels) = BitVec.ofNat 8 label.length :: (label ++ prefixed labels) := rfl

theorem wire_eq (labels : List Label) : wire labels = prefixed labels ++ [0] := by
  induction labels with
  | nil => rfl
  | cons label rest ih =>
    rw [wire, ih, prefixed_cons, List.cons_append, List.cons_append, List.append_assoc]

theorem dotted_cons (label : Label) (labels : List Label) :
    dotted (label :: labels) = label ++ 0x2e :: dotted labels := by
  rw [dotted, List.flatMap_cons, List.append_assoc]
  rfl

theorem toNat_size (short : label.length < 64) :
    (BitVec.ofNat 8 label.length : Byte).toNat = label.length := by
  rw [BitVec.toNat_ofNat, Nat.mod_eq_of_lt (by omega)]

theorem size_ne_zero (some : 0 < label.length) (short : label.length < 64) :
    (BitVec.ofNat 8 label.length : Byte) ≠ 0 := by
  intro zero
  have none := toNat_size short
  rw [zero] at none
  have empty : label.length = 0 := none.symm
  omega

theorem prefixed_injective (wellFormed : WellFormed labels) (wellFormed' : WellFormed labels')
    (same : prefixed labels = prefixed labels') : labels = labels' := by
  induction labels generalizing labels' with
  | nil =>
    cases labels' with
    | nil => rfl
    | cons => cases same
  | cons label rest ih =>
    cases labels' with
    | nil => cases same
    | cons label' rest' =>
      rw [prefixed_cons, prefixed_cons, List.cons.injEq] at same
      obtain ⟨sizes, behind⟩ := same
      have length : label.length = label'.length := by
        rw [← toNat_size wellFormed.head.2, ← toNat_size wellFormed'.head.2, sizes]
      obtain ⟨rfl, later⟩ := List.append_inj behind length
      rw [ih wellFormed.tail wellFormed'.tail later]

theorem zero_notMem_prefixed (wellFormed : WellFormed labels) (zeroFree : ZeroFree labels) :
    (0 : Byte) ∉ prefixed labels := by
  intro inside
  obtain ⟨label, member, here⟩ := List.mem_flatMap.mp inside
  obtain ⟨some, short⟩ := wellFormed label member
  rcases List.mem_cons.mp here with size | inLabel
  · exact size_ne_zero some short size.symm
  · exact zeroFree label member inLabel

theorem cString_self {l : List Byte} (zeroFree : (0 : Byte) ∉ l) : cString l = l := by
  refine List.takeWhile_eq_self_iff.mpr fun b member => decide_eq_true ?_
  rintro rfl
  exact zeroFree member

theorem takeWhile_append_stop {b : Byte} {l : List Byte} (absent : b ∉ l) (rest : List Byte) :
    (l ++ b :: rest).takeWhile (· ≠ b) = l := by
  rw [List.takeWhile_append_of_pos, List.takeWhile_cons_of_neg (by simp), List.append_nil]
  intro c member
  refine decide_eq_true ?_
  rintro rfl
  exact absent member

theorem append_stop_inj {b : Byte} {l l' rest rest' : List Byte} (absent : b ∉ l)
    (absent' : b ∉ l') (same : l ++ b :: rest = l' ++ b :: rest') : l = l' ∧ rest = rest' := by
  have front : l = l' := by
    rw [← takeWhile_append_stop absent rest, same, takeWhile_append_stop absent' rest']
  subst front
  exact ⟨rfl, (List.cons.inj (List.append_cancel_left same)).2⟩

theorem cString_wire (wellFormed : WellFormed labels) (zeroFree : ZeroFree labels) :
    cString (wire labels) = prefixed labels := by
  rw [wire_eq]
  exact takeWhile_append_stop (zero_notMem_prefixed wellFormed zeroFree) []

theorem dots_wire {steps total : Nat} (wellFormed : WellFormed labels)
    (short : total + (wire labels).length ≤ maxDomainName) (enough : labels.length < steps) :
    dots steps (wire labels) total = some (dotted labels) := by
  induction labels generalizing steps total with
  | nil =>
    obtain ⟨steps, rfl⟩ := Nat.exists_eq_add_one_of_ne_zero (Nat.ne_zero_of_lt enough)
    rfl
  | cons label rest ih =>
    obtain ⟨steps, rfl⟩ := Nat.exists_eq_add_one_of_ne_zero (Nat.ne_zero_of_lt enough)
    obtain ⟨some, less⟩ := wellFormed.head
    have length := length_wire_cons label rest
    have least := length_wire_pos rest
    have size := toNat_size less
    have goOn := @ih _ (total + label.length) wellFormed.tail (by omega)
      (by simpa using enough)
    have fits : ¬ maxDomainName ≤ total + label.length := by omega
    rw [wire, List.cons_append, dots, if_neg (size_ne_zero some less), size, if_neg fits,
      List.drop_left' rfl, goOn, List.take_left' rfl, dotted_cons]
    rfl

theorem getRealName_wire (wellFormed : WellFormed labels)
    (short : (wire labels).length ≤ maxDomainName) :
    getRealName (wire labels) = some (cString (dotted labels).dropLast) := by
  rw [getRealName, dots_wire wellFormed (by omega) (length_le_wire labels)]
  rfl

theorem length_dotted (labels : List Label) :
    (dotted labels).length + 1 = (wire labels).length := by
  induction labels with
  | nil => rfl
  | cons label rest ih =>
    rw [dotted_cons, List.length_append, List.length_cons, length_wire_cons]
    omega

theorem dotted_injective (dotFree : DotFree labels) (dotFree' : DotFree labels')
    (same : dotted labels = dotted labels') : labels = labels' := by
  induction labels generalizing labels' with
  | nil =>
    cases labels' with
    | nil => rfl
    | cons label' rest' =>
      rw [dotted_cons] at same
      cases label' <;> cases same
  | cons label rest ih =>
    cases labels' with
    | nil =>
      rw [dotted_cons] at same
      cases label <;> cases same
    | cons label' rest' =>
      rw [dotted_cons, dotted_cons] at same
      have absent := dotFree label List.mem_cons_self
      have absent' := dotFree' label' List.mem_cons_self
      obtain ⟨rfl, later⟩ := append_stop_inj absent absent' same
      rw [ih dotFree.tail dotFree'.tail later]

theorem zero_notMem_dotted (zeroFree : ZeroFree labels) : (0 : Byte) ∉ dotted labels := by
  intro inside
  obtain ⟨label, member, here⟩ := List.mem_flatMap.mp inside
  rcases List.mem_append.mp here with inLabel | dot
  · exact zeroFree label member inLabel
  · cases List.mem_singleton.mp dot

theorem dropLast_dotted (labels : List Label) (nonempty : labels ≠ []) :
    (dotted labels).dropLast ++ [0x2e] = dotted labels := by
  obtain ⟨front, last, rfl⟩ := (List.eq_nil_or_concat' labels).resolve_left nonempty
  rw [dotted, List.flatMap_append, List.flatMap_singleton, ← List.append_assoc,
    List.dropLast_concat]

end Names

section Strings

variable {labels labels' : List Label}

theorem realName_injective (wellFormed : WellFormed labels) (wellFormed' : WellFormed labels')
    (zeroFree : ZeroFree labels) (zeroFree' : ZeroFree labels') (dotFree : DotFree labels)
    (dotFree' : DotFree labels')
    (same : cString (dotted labels).dropLast = cString (dotted labels').dropLast) :
    labels = labels' := by
  have whole {l : List Label} (zeroFree : ZeroFree l) :
      cString (dotted l).dropLast = (dotted l).dropLast :=
    cString_self fun inside => zero_notMem_dotted zeroFree ((List.dropLast_sublist _).subset inside)
  rw [whole zeroFree, whole zeroFree'] at same
  have root {l : List Label} (wellFormed : WellFormed l) (empty : (dotted l).dropLast = []) :
      l = [] := by
    by_contra some
    have last := dropLast_dotted l some
    have length := length_dotted l
    rw [← last, empty] at length
    cases l with
    | nil => exact some rfl
    | cons label rest =>
      have most := length_wire_cons label rest
      have least := length_wire_pos rest
      have first := wellFormed.head.1
      rw [List.nil_append, List.length_singleton] at length
      omega
  by_cases empty : labels = []
  · subst empty
    exact (root wellFormed' same.symm).symm
  by_cases empty' : labels' = []
  · subst empty'
    exact root wellFormed same
  · refine dotted_injective dotFree dotFree' ?_
    rw [← dropLast_dotted labels empty, ← dropLast_dotted labels' empty', same]

/-- The name of a host stands for these labels; a dot at the end is not counted. -/
structure HostNamed (name : List Byte) (labels : List Label) : Prop where
  wellFormed : WellFormed labels
  zeroFree : ZeroFree labels
  dotFree : DotFree labels
  nonempty : labels ≠ []
  spelled : name = (dotted labels).dropLast ∨ name = dotted labels

theorem staticBytes_append {label : Label} (dotFree : (0x2e : Byte) ∉ label)
    (rest front : List Byte) :
    staticBytes (label ++ rest) front = staticBytes rest (front ++ label) := by
  induction label generalizing front with
  | nil => rw [List.nil_append, List.append_nil]
  | cons c label ih =>
    obtain ⟨other, later⟩ := not_or.mp (mt List.mem_cons.mpr dotFree)
    rw [List.cons_append, staticBytes, if_neg (Ne.symm other), ih later, List.append_assoc]
    rfl

theorem staticBytes_dot (label rest : List Byte) :
    staticBytes (0x2e :: rest) label =
      BitVec.ofNat 8 label.length :: (label ++ staticBytes rest []) := by
  rw [staticBytes, if_pos rfl]
  rfl

theorem staticBytes_dotted (dotFree : DotFree labels) :
    staticBytes (dotted labels) [] = wire labels := by
  induction labels with
  | nil => rfl
  | cons label rest ih =>
    rw [dotted_cons, staticBytes_append (dotFree label List.mem_cons_self), staticBytes_dot,
      ih dotFree.tail]
    rfl

theorem staticBytes_dropLast (dotFree : DotFree labels) (nonempty : labels ≠ []) :
    staticBytes (dotted labels).dropLast [] = prefixed labels := by
  induction labels with
  | nil => exact absurd rfl nonempty
  | cons label rest ih =>
    have first := dotFree label List.mem_cons_self
    rw [dotted_cons]
    cases rest with
    | nil =>
      have alone := staticBytes_append first [] []
      rw [List.append_nil] at alone
      rw [dotted, List.flatMap_nil, List.dropLast_concat, alone, prefixed_cons]
      simp [staticBytes, prefixed]
    | cons next rest =>
      have some : dotted (next :: rest) ≠ [] := by
        rw [dotted_cons]
        simp
      rw [List.dropLast_append_of_ne_nil (List.cons_ne_nil _ _),
        List.dropLast_cons_of_ne_nil some, staticBytes_append first, staticBytes_dot,
        ih dotFree.tail (List.cons_ne_nil _ _)]
      rfl

theorem HostNamed.realStaticName {name : List Byte} (named : HostNamed name labels) :
    realStaticName name = prefixed labels := by
  obtain ⟨wellFormed, zeroFree, dotFree, nonempty, rfl | rfl⟩ := named
  · rw [DnsCache.realStaticName, staticBytes_dropLast dotFree nonempty]
    exact cString_self (zero_notMem_prefixed wellFormed zeroFree)
  · rw [DnsCache.realStaticName, staticBytes_dotted dotFree]
    exact cString_wire wellFormed zeroFree

end Strings

section Sections

/-- The name in a question, and the type. -/
abbrev Question := List Label × BitVec 16

/-- The type of a record, and its data. -/
abbrev Record := BitVec 16 × List Byte

/-- The questions between two positions. -/
def QuestionsAt (buf : Buffer) : Nat → List Question → Nat → Prop
  | ptr, [], stop => ptr = stop
  | ptr, (labels, type) :: rest, stop =>
    WellFormed labels ∧ bytes buf ptr (wire labels).length = wire labels ∧
      read16 buf (ptr + (wire labels).length) = type ∧
      QuestionsAt buf (ptr + (wire labels).length + 4) rest stop

/-- A name of a record, which may end in a pointer. -/
def NameAt (buf : Buffer) (ptr size : Nat) : Prop :=
  ∃ labels, WellFormed labels ∧
    ((size = (wire labels).length ∧ bytes buf ptr size = wire labels) ∨
    (size = (prefixed labels).length + 2 ∧
      bytes buf ptr (prefixed labels).length = prefixed labels ∧
      buf (ptr + (prefixed labels).length) &&& 0xc0 = 0xc0))

/-- The records between two positions. -/
def RecordsAt (buf : Buffer) : Nat → List Record → Nat → Prop
  | ptr, [], stop => ptr = stop
  | ptr, (type, data) :: rest, stop =>
    ∃ size, NameAt buf ptr size ∧ read16 buf (ptr + size) = type ∧
      (read16 buf (ptr + size + 8)).toNat = data.length ∧
      bytes buf (ptr + size + 10) data.length = data ∧
      RecordsAt buf (ptr + size + 10 + data.length) rest stop

/-- The message has the questions that it announces. -/
def HasQuestions (buf : Buffer) (len : Nat) (questions : List Question) : Prop :=
  (read16 buf 4).toNat = questions.length ∧
    ∃ stop, QuestionsAt buf 12 questions stop ∧ stop ≤ len

/-- The message has everything that it announces. -/
structure Complete (buf : Buffer) (len : Nat) (questions : List Question)
    (records : List Record) : Prop where
  queries : (read16 buf 4).toNat = questions.length
  count : (read16 buf 6).toNat + (read16 buf 8).toNat + (read16 buf 10).toNat = records.length
  parsed : ∃ middle stop, QuestionsAt buf 12 questions middle ∧
    RecordsAt buf middle records stop ∧ stop ≤ len

/-- The messages differ in their transaction ids at most. -/
def SameBody (buf buf' : Buffer) : Prop := ∀ i, 2 ≤ i → buf' i = buf i

variable {buf buf' : Buffer} {len : Nat}

variable {ptr stop : Nat} {questions : List Question} {records : List Record}

section

variable (same : SameBody buf buf')

include same

theorem SameBody.read16 (behind : 2 ≤ ptr) :
    DnsPacket.read16 buf' ptr = DnsPacket.read16 buf ptr := by
  rw [DnsPacket.read16, DnsPacket.read16, same ptr behind, same (ptr + 1) (by omega)]

theorem SameBody.bytes (behind : 2 ≤ ptr) (n : Nat) :
    DnsPacket.bytes buf' ptr n = DnsPacket.bytes buf ptr n :=
  bytes_congr fun i here _ => same i (by omega)

theorem SameBody.questionsAt (behind : 2 ≤ ptr) (here : QuestionsAt buf ptr questions stop) :
    QuestionsAt buf' ptr questions stop := by
  induction questions generalizing ptr with
  | nil => exact here
  | cons question rest ih =>
    obtain ⟨wellFormed, name, type, later⟩ := here
    refine ⟨wellFormed, ?_, ?_, ih (by omega) later⟩
    · rw [same.bytes behind]
      exact name
    · rw [same.read16 (by omega)]
      exact type

theorem SameBody.nameAt {size : Nat} (behind : 2 ≤ ptr)
    (here : NameAt buf ptr size) : NameAt buf' ptr size := by
  obtain ⟨labels, wellFormed, ⟨length, name⟩ | ⟨length, name, pointer⟩⟩ := here
  · refine ⟨labels, wellFormed, .inl ⟨length, ?_⟩⟩
    rw [same.bytes behind]
    exact name
  · refine ⟨labels, wellFormed, .inr ⟨length, ?_, ?_⟩⟩
    · rw [same.bytes behind]
      exact name
    · rw [same _ (by omega)]
      exact pointer

theorem SameBody.recordsAt (behind : 2 ≤ ptr) (here : RecordsAt buf ptr records stop) :
    RecordsAt buf' ptr records stop := by
  induction records generalizing ptr with
  | nil => exact here
  | cons record rest ih =>
    obtain ⟨size, name, type, length, data, later⟩ := here
    refine ⟨size, same.nameAt behind name, ?_, ?_, ?_, ih (by omega) later⟩
    · rw [same.read16 (by omega)]
      exact type
    · rw [same.read16 (by omega)]
      exact length
    · rw [same.bytes (by omega)]
      exact data

theorem SameBody.complete (complete : Complete buf len questions records) :
    Complete buf' len questions records := by
  obtain ⟨queries, count, middle, stop, questionsAt, recordsAt, inside⟩ := complete
  have behind : ∀ {ptr : Nat} {questions : List Question} {stop : Nat},
      QuestionsAt buf ptr questions stop → ptr ≤ stop := by
    intro ptr questions stop here
    induction questions generalizing ptr with
    | nil => exact Nat.le_of_eq here
    | cons question rest ih =>
      have later := ih here.2.2.2
      omega
  have start := behind questionsAt
  refine ⟨?_, ?_, middle, stop, same.questionsAt (by omega) questionsAt,
    same.recordsAt (by omega) recordsAt, inside⟩
  · rw [same.read16 (by omega)]
    exact queries
  · rw [same.read16 (by omega), same.read16 (by omega), same.read16 (by omega)]
    exact count

end

theorem RecordsAt.le (here : RecordsAt buf ptr records stop) : ptr ≤ stop := by
  induction records generalizing ptr with
  | nil => exact Nat.le_of_eq here
  | cons record rest ih =>
    obtain ⟨size, -, -, -, -, later⟩ := here
    have later' := ih later
    omega

end Sections

section Extracted

variable {buf : Buffer} {len : Nat} {labels : List Label} {type : BitVec 16}

theorem readA_question (ptr : Nat) (f : Fields) :
    (readA buf len ptr f).2.queryName = f.queryName ∧
      (readA buf len ptr f).2.queryType = f.queryType := by
  rw [readA]
  dsimp only
  split_ifs <;> exact ⟨rfl, rfl⟩

theorem readAaaa_question (ptr : Nat) (f : Fields) :
    (readAaaa buf len ptr f).2.queryName = f.queryName ∧
      (readAaaa buf len ptr f).2.queryType = f.queryType := by
  rw [readAaaa]
  dsimp only
  split_ifs <;> exact ⟨rfl, rfl⟩

theorem readAnswer_question (acount ptr : Nat) (f : Fields) :
    (readAnswer buf len acount ptr f).2.queryName = f.queryName ∧
      (readAnswer buf len acount ptr f).2.queryType = f.queryType := by
  rw [readAnswer]
  dsimp only
  split_ifs
  all_goals first | exact ⟨rfl, rfl⟩ | exact readA_question _ _ | exact readAaaa_question _ _

theorem verify_name (buf : Buffer) (len : Nat) (old : Fields) :
    ∃ labels, WellFormed labels ∧ (wire labels).length ≤ maxDomainName ∧
      (dnspktVerify buf len old).2.queryName = wire labels := by
  have root : ∃ labels, WellFormed labels ∧ (wire labels).length ≤ maxDomainName ∧
      ([0] : List Byte) = wire labels :=
    ⟨[], fun _ member => absurd member List.not_mem_nil, by decide, rfl⟩
  rw [dnspktVerify]
  by_cases header : len < 12
  · rw [if_pos header]
    exact root
  rw [if_neg header, readBody]
  by_cases queries : read16 buf 4 ≠ 1
  · rw [if_pos queries]
    exact root
  rw [if_neg queries]
  by_cases name : getNameLen buf 12 len = 0
  · simp only [name, if_true]
    exact root
  obtain ⟨labels, wellFormed, length, here, short, -⟩ :=
    (getNameLen_eq_iff (Nat.not_lt.mp header) name).mp rfl
  refine ⟨labels, wellFormed, length ▸ short, ?_⟩
  rw [← here]
  simp only [name, if_false]
  by_cases answers : (read16 buf 6).toNat = 0
  · rw [if_pos answers]
  · rw [if_neg answers]
    exact (readAnswer_question _ _ _).1

theorem verify_realName (buf : Buffer) (len : Nat) (old : Fields) :
    ∃ name, getRealName (dnspktVerify buf len old).2.queryName = some name ∧
      name.length < maxDomainName := by
  obtain ⟨labels, wellFormed, short, same⟩ := verify_name buf len old
  refine ⟨_, by rw [same, getRealName_wire wellFormed short], ?_⟩
  have shorter := (List.takeWhile_prefix (· ≠ (0 : Byte)) (l := (dotted labels).dropLast)).length_le
  have length := length_dotted labels
  rw [List.length_dropLast] at shorter
  rw [cString]
  omega

/-- The question of a message with one question is extracted, but for the upper byte of its
type. -/
theorem verify_question (question : HasQuestions buf len [(labels, type)])
    (short : (wire labels).length ≤ maxDomainName) (old : Fields) :
    (dnspktVerify buf len old).2.queryName = wire labels ∧
      (dnspktVerify buf len old).2.queryType = type.setWidth 8 := by
  obtain ⟨queries, stop, ⟨wellFormed, name, isType, done⟩, inside⟩ := question
  have one : read16 buf 4 = 1 := BitVec.eq_of_toNat_eq queries
  change 12 + (wire labels).length + 4 = stop at done
  have nameLen : getNameLen buf 12 len = (wire labels).length :=
    (getNameLen_eq_iff (by omega) (Nat.ne_of_gt (length_wire_pos labels))).mpr
      ⟨labels, wellFormed, rfl, name, short, by omega⟩
  rw [dnspktVerify, if_neg (by omega), readBody, if_neg (not_not.mpr one)]
  simp only [nameLen, Nat.ne_of_gt (length_wire_pos labels), if_false, name, isType]
  by_cases answers : (read16 buf 6).toNat = 0
  · rw [if_pos answers]
    exact ⟨rfl, rfl⟩
  · rw [if_neg answers]
    exact readAnswer_question _ _ _

/-- A message that asks one question, which is told by what is extracted of it. -/
structure Plain (buf : Buffer) (len : Nat) (labels : List Label) (type : BitVec 16) :
    Prop where
  question : HasQuestions buf len [(labels, type)]
  short : (wire labels).length ≤ maxDomainName
  zeroFree : ZeroFree labels
  byte : type < 256

theorem Plain.wellFormed (plain : Plain buf len labels type) : WellFormed labels := by
  obtain ⟨-, stop, here, -⟩ := plain.question
  exact here.1

theorem setWidth_byte_inj {type type' : BitVec 16} (byte : type < 256) (byte' : type' < 256)
    (same : type.setWidth 8 = type'.setWidth 8) : type = type' := by
  have numbers := congrArg BitVec.toNat same
  rw [BitVec.toNat_setWidth, BitVec.toNat_setWidth] at numbers
  have less : type.toNat < 256 := byte
  have less' : type'.toNat < 256 := byte'
  refine BitVec.eq_of_toNat_eq ?_
  omega

end Extracted

end DnsMessages
