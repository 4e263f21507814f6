import Rcp100.CachedAnswers
import Rcp100.SpecialTokens

/-!
# Domain names, back and forth

A host name is a text with dots; the cache has it in labels, each with its length in front.
Both directions write into buffers of `CLI_MAX_DOMAIN_NAME` bytes and one more. The list of
the cache prints the texts.
-/

namespace DomainNames

open ChainTable DnsPacket DnsMessages DnsProxy CachedAnswers
open DnsCache (Cache Entry Host Shape cString staticBytes realStaticName Fewer FreshBlock
  FreshBlocks NoCname Owned Ptr addStatic_grows age buckets cacheRemove clearMarker drop freeCname
  learned_key readNext release sweepChain)
open FaultRuns (Along run run_rule)

/-- The memory from a buffer on, and the places that were written, relative to its start. -/
structure Written where
  mem : Buffer
  places : List Int

def Written.put (m : Written) (o : Int) (b : Byte) : Written :=
  { mem := if 0 ≤ o then write8 m.mem o.toNat b else m.mem, places := o :: m.places }

/-- Every write was in a buffer of `CLI_MAX_DOMAIN_NAME + 1` bytes. -/
def Inside (m : Written) : Prop := ∀ o ∈ m.places, 0 ≤ o ∧ o < 64

/-- The loop of `cache_add_static`: `start` is where the length of the label goes, `out` where
the next character does, and `cnt` is the length so far. -/
def buildLoop : List Byte → Nat → Nat → Nat → Written → Written
  | [], start, out, cnt, m => (m.put start (BitVec.ofNat 8 cnt)).put out 0
  | c :: rest, start, out, cnt, m =>
    if c ≠ 0x2e then buildLoop rest start (out + 1) (cnt + 1) (m.put out c)
    else buildLoop rest out (out + 1) 0 (m.put start (BitVec.ofNat 8 cnt))

/-- The real name that `cache_add_static` builds of a text, over what is in the memory. -/
def buildName (old : Buffer) (name : List Byte) : Written := buildLoop name 0 1 0 ⟨old, []⟩

/-- `memcpy` to a place. -/
def Written.copy (m : Written) (o : Nat) : List Byte → Written
  | [] => m
  | b :: rest => (m.put o b).copy (o + 1) rest

/-- The loop of `dnspkt_get_real_name`, with the place that it has come to; nothing where the
function returns NULL. -/
def realNameLoop : Nat → List Byte → Nat → Nat → Written → Written × Option Nat
  | 0, _, out, _, m => (m, some out)
  | _+1, [], out, _, m => (m, some out)
  | steps+1, c :: rest, out, total, m =>
    if c = 0 then (m, some out)
    else if maxDomainName ≤ total + c.toNat then (m, none)
    else realNameLoop steps (rest.drop c.toNat) (out + c.toNat + 1) (total + c.toNat)
      ((m.copy out (rest.take c.toNat)).put (out + c.toNat : Nat) 0x2e)

/-- What is in the buffer, as a string. -/
def Written.text (m : Written) : List Byte := cString (bytes m.mem 0 64)

/-- `dnspkt_get_real_name`: the extra dot is removed, also where there is none. -/
def realName (old : Buffer) (name : List Byte) : Written × Option (List Byte) :=
  match realNameLoop name.length name 0 0 (Written.put ⟨old, []⟩ 0 0) with
  | (m, none) => (m, none)
  | (m, some out) =>
    let m := m.put ((out : Int) - 1) 0
    (m, some m.text)

section Building

variable {m : Written} {o : Nat} {b : Byte}

theorem put_mem (m : Written) (o : Nat) (b : Byte) : (m.put o b).mem = write8 m.mem o b := by
  rw [Written.put, if_pos (Int.natCast_nonneg o)]
  rfl

theorem put_places (m : Written) (o : Int) (b : Byte) : (m.put o b).places = o :: m.places := rfl

theorem bytes_put_outside {p n : Nat} (outside : o < p ∨ p + n ≤ o) :
    bytes (m.put o b).mem p n = bytes m.mem p n := by
  rw [put_mem]
  refine bytes_congr fun i least most => Function.update_of_ne ?_ _ _
  omega

theorem bytes_put_here : bytes (m.put o b).mem o 1 = [b] := by
  rw [put_mem, bytes_one, write8, Function.update_self]

/-- The bytes that the loop leaves: what was finished, the label that was begun, and the rest
of the text in labels. -/
theorem bytes_buildLoop (rest : List Byte) {front label : List Byte}
    (done : bytes m.mem 0 front.length = front)
    (begun : bytes m.mem (front.length + 1) label.length = label) :
    bytes (buildLoop rest front.length (front.length + 1 + label.length) label.length m).mem 0
        (front.length + (staticBytes rest label).length + 1) =
      front ++ staticBytes rest label ++ [0] := by
  induction rest generalizing m front label with
  | nil =>
    have size : front.length + (staticBytes [] label).length + 1 =
        front.length + (1 + (label.length + 1)) := by
      simp only [staticBytes, List.length_cons]
      omega
    rw [buildLoop, size, bytes_add, bytes_add, bytes_add, Nat.zero_add,
      bytes_put_outside (.inr (by omega)), bytes_put_outside (.inr (by omega)), done,
      bytes_put_outside (.inr (by omega)), bytes_put_here, bytes_put_outside (.inr (by omega)),
      bytes_put_outside (.inl (by omega)), begun, bytes_put_here]
    simp [staticBytes]
  | cons c rest ih =>
    by_cases dot : c = 0x2e
    · subst dot
      rw [buildLoop, if_neg (not_not.mpr rfl), staticBytes_dot]
      have length : (front ++ BitVec.ofNat 8 label.length :: label).length =
          front.length + 1 + label.length := by
        simp only [List.length_append, List.length_cons]
        omega
      have done' : bytes (m.put front.length (BitVec.ofNat 8 label.length)).mem 0
          (front ++ BitVec.ofNat 8 label.length :: label).length =
            front ++ BitVec.ofNat 8 label.length :: label := by
        rw [length, bytes_add, bytes_add, Nat.zero_add, Nat.zero_add,
          bytes_put_outside (.inr (by omega)), done, bytes_put_here,
          bytes_put_outside (.inl (by omega)), begun, List.append_assoc]
        rfl
      have goneOn := @ih _ _ [] done' rfl
      rw [length, List.length_nil, Nat.add_zero] at goneOn
      rw [show front.length + (BitVec.ofNat 8 label.length :: (label ++ staticBytes rest [])).length
        + 1 = front.length + 1 + label.length + (staticBytes rest []).length + 1 by
          simp only [List.length_append, List.length_cons]
          omega, goneOn]
      simp only [List.append_assoc, List.cons_append]
    · have other : staticBytes (c :: rest) label = staticBytes rest (label ++ [c]) := by
        rw [staticBytes, if_neg dot]
      rw [buildLoop, if_pos dot, other]
      have begun' : bytes (m.put (front.length + 1 + label.length : Nat) c).mem (front.length + 1)
          (label ++ [c]).length = label ++ [c] := by
        rw [List.length_append, List.length_singleton, bytes_add,
          bytes_put_outside (.inr (by omega)), begun, bytes_put_here]
      have goneOn := ih (m := m.put (front.length + 1 + label.length : Nat) c)
        ((bytes_put_outside (.inr (by omega))).trans done) begun'
      rw [List.length_append, List.length_singleton] at goneOn
      exact goneOn

theorem length_staticBytes (rest label : List Byte) :
    (staticBytes rest label).length = rest.length + label.length + 1 := by
  induction rest generalizing label with
  | nil => simp [staticBytes]
  | cons c rest ih =>
    by_cases dot : c = 0x2e
    · subst dot
      rw [staticBytes_dot, List.length_cons, List.length_append, ih, List.length_cons,
        List.length_nil]
      omega
    · rw [staticBytes, if_neg dot, ih, List.length_append, List.length_singleton, List.length_cons]
      omega

theorem bytes_buildName (old : Buffer) (name : List Byte) :
    bytes (buildName old name).mem 0 (name.length + 2) = staticBytes name [] ++ [0] := by
  have built := @bytes_buildLoop ⟨old, []⟩ name [] [] rfl rfl
  rw [length_staticBytes, List.length_nil, List.nil_append] at built
  rw [← built]
  exact congrArg _ (by omega)

theorem places_buildLoop (rest : List Byte) {start out cnt : Nat} (before : start < out)
    (inside : ∀ o ∈ m.places, 0 ≤ o ∧ o < (out : Int)) :
    ((out + rest.length : Nat) : Int) ∈ (buildLoop rest start out cnt m).places ∧
      ∀ o ∈ (buildLoop rest start out cnt m).places, 0 ≤ o ∧ o ≤ (out + rest.length : Nat) := by
  induction rest generalizing start out cnt m with
  | nil =>
    rw [buildLoop, put_places, put_places]
    refine ⟨List.mem_cons_self, fun o member => ?_⟩
    rw [List.length_nil, Nat.add_zero]
    rcases List.mem_cons.mp member with rfl | member
    · omega
    rcases List.mem_cons.mp member with rfl | member
    · omega
    · have range := inside o member
      omega
  | cons c rest ih =>
    have length : out + (c :: rest).length = out + 1 + rest.length := by
      rw [List.length_cons]
      omega
    rw [buildLoop, length]
    by_cases dot : c = 0x2e
    · rw [if_neg (not_not.mpr dot)]
      refine ih (Nat.lt_succ_self out) fun o member => ?_
      rw [put_places] at member
      rcases List.mem_cons.mp member with rfl | member
      · omega
      · have range := inside o member
        omega
    · rw [if_pos dot]
      refine ih (by omega) fun o member => ?_
      rw [put_places] at member
      rcases List.mem_cons.mp member with rfl | member
      · omega
      · have range := inside o member
        omega

theorem inside_buildName_iff (old : Buffer) (name : List Byte) :
    Inside (buildName old name) ↔ name.length ≤ 62 := by
  obtain ⟨last, range⟩ := @places_buildLoop ⟨old, []⟩ name 0 1 0 Nat.one_pos
    fun o member => absurd member List.not_mem_nil
  constructor
  · intro inside
    have most := (inside _ last).2
    omega
  · intro short o member
    have here := range o member
    omega

end Building

section Naming

variable {m : Written} {labels : List Label}

theorem copy_mem (m : Written) (o : Nat) (l : List Byte) :
    (m.copy o l).mem = writeBytes m.mem o l := by
  induction l generalizing m o with
  | nil => rfl
  | cons b l ih => rw [Written.copy, ih, put_mem, writeBytes]

theorem copy_places (m : Written) (o : Nat) (l : List Byte) {i : Int}
    (member : i ∈ (m.copy o l).places) : i ∈ m.places ∨ (o : Int) ≤ i ∧ i < o + l.length := by
  induction l generalizing m o with
  | nil => exact .inl member
  | cons b l ih =>
    rw [List.length_cons]
    rcases ih (m.put o b) (o + 1) member with before | ⟨least, most⟩
    · rw [put_places] at before
      rcases List.mem_cons.mp before with rfl | old
      · exact .inr (by omega)
      · exact .inl old
    · exact .inr (by omega)

/-- The characters of a name, without lengths and dots. -/
def letters (labels : List Label) : Nat := (labels.map List.length).sum

theorem letters_cons (label : Label) (labels : List Label) :
    letters (label :: labels) = label.length + letters labels := rfl

theorem length_wire (labels : List Label) :
    (wire labels).length = letters labels + labels.length + 1 := by
  induction labels with
  | nil => rfl
  | cons label rest ih =>
    rw [length_wire_cons, ih, letters_cons, List.length_cons]
    omega

theorem realNameLoop_wire (wellFormed : WellFormed labels) {steps out total : Nat}
    (short : total + letters labels < maxDomainName) (enough : labels.length < steps) :
    ∃ m', realNameLoop steps (wire labels) out total m =
        (m', some (out + (dotted labels).length)) ∧
      m'.mem = writeBytes m.mem out (dotted labels) ∧
      ∀ i ∈ m'.places, i ∈ m.places ∨ (out : Int) ≤ i ∧ i < out + (dotted labels).length := by
  induction labels generalizing steps out total m with
  | nil =>
    obtain ⟨steps, rfl⟩ := Nat.exists_eq_add_one_of_ne_zero (Nat.ne_zero_of_lt enough)
    exact ⟨m, rfl, rfl, fun i member => .inl member⟩
  | cons label rest ih =>
    obtain ⟨steps, rfl⟩ := Nat.exists_eq_add_one_of_ne_zero (Nat.ne_zero_of_lt enough)
    obtain ⟨some, less⟩ := wellFormed.head
    rw [letters_cons] at short
    have size := toNat_size less
    have fits : ¬ maxDomainName ≤ total + label.length := by omega
    obtain ⟨m', looped, mem, places⟩ := @ih
      ((m.copy out label).put (out + label.length : Nat) 0x2e) wellFormed.tail steps
      (out + label.length + 1) (total + label.length) (by omega) (by simpa using enough)
    have length : (dotted (label :: rest)).length = label.length + 1 + (dotted rest).length := by
      rw [dotted_cons, List.length_append, List.length_cons]
      omega
    refine ⟨m', ?_, ?_, fun i member => ?_⟩
    · rw [wire, List.cons_append, realNameLoop, if_neg (size_ne_zero some less), size, if_neg fits,
        List.drop_left' rfl, List.take_left' rfl, looped, length]
      congr 2
      omega
    · have dot (buf : Buffer) (o : Nat) (b : Byte) : write8 buf o b = writeBytes buf o [b] := rfl
      rw [mem, put_mem, copy_mem, dot, writeBytes_append,
        writeBytes_behind _ _ (by rw [List.length_append, List.length_singleton]; omega),
        dotted_cons, List.append_assoc]
      rfl
    · rw [length]
      rcases places i member with before | range
      · rw [put_places] at before
        rcases List.mem_cons.mp before with rfl | copied
        · exact .inr (by omega)
        · rcases copy_places m out label copied with old | range
          · exact .inl old
          · exact .inr (by omega)
      · exact .inr (by omega)

theorem cString_append_zero (l rest : List Byte) : cString (l ++ 0 :: rest) = cString l := by
  induction l with
  | nil => rfl
  | cons b l ih =>
    by_cases zero : b = 0
    · subst zero
      rfl
    · rw [List.cons_append, cString, List.takeWhile_cons_of_pos (by simpa using zero), cString,
        List.takeWhile_cons_of_pos (by simpa using zero)]
      exact congrArg _ ih

theorem realName_wire (wellFormed : WellFormed labels) (nonempty : labels ≠ [])
    (short : letters labels < maxDomainName) (fits : (wire labels).length ≤ 65) (old : Buffer) :
    Inside (realName old (wire labels)).1 ∧
      (realName old (wire labels)).2 = some (cString (dotted labels).dropLast) := by
  obtain ⟨m', looped, mem, places⟩ := @realNameLoop_wire (Written.put ⟨old, []⟩ 0 0) labels
    wellFormed (wire labels).length 0 0 (by omega) (length_le_wire labels)
  have split := dropLast_dotted labels nonempty
  have size := congrArg List.length split
  have length := length_dotted labels
  rw [List.length_append, List.length_singleton] at size
  generalize (dotted labels).dropLast = text at split size
  have back : ((0 + (dotted labels).length : Nat) : Int) - 1 = (text.length : Nat) := by omega
  rw [realName, looped]
  dsimp only
  rw [back]
  constructor
  · intro i member
    rw [put_places] at member
    rcases List.mem_cons.mp member with rfl | looping
    · omega
    rcases places i looping with first | range
    · rw [put_places] at first
      rcases List.mem_cons.mp first with rfl | none
      · omega
      · exact absurd none List.not_mem_nil
    · omega
  · have written : bytes (m'.put text.length 0).mem 0 (text.length + 1) = text ++ [0] := by
      have here : bytes m'.mem 0 text.length = text := by
        rw [mem, ← split]
        exact bytes_part [] text [0x2e] rfl rfl rfl
      rw [bytes_add, bytes_put_outside (.inr (by omega)), here, Nat.zero_add, bytes_put_here]
    have whole : 64 = (text.length + 1) + (63 - text.length) := by omega
    rw [Written.text, whole, bytes_add, written, List.append_assoc]
    exact congrArg some (cString_append_zero text _)

theorem realName_root (old : Buffer) : ¬ Inside (realName old (wire [])).1 := by
  intro inside
  have first := inside (-1) List.mem_cons_self
  omega

end Naming

section Printing

variable {m : Cache}

/-- A line of the list. -/
inductive Line where
  | static (name : List Byte) (ip : BitVec 32)
  | cname (name : List Byte) (ipv4 : Bool) (ttl : BitVec 32)
  | ipv4 (name : List Byte) (ip : BitVec 32) (ttl : BitVec 32)
  | ipv6 (name : List Byte) (ttl : BitVec 32)

/-- What is printed for an entry. -/
def entryLines (name : List Byte) (e : Entry) : List Line :=
  if e.ttl = 3600 then [.static name e.ip]
  else if e.cname ≠ none then [.cname name (e.type = 1) e.ttl]
  else if e.type = 1 then [.ipv4 name e.ip e.ttl]
  else if e.type = 28 then [.ipv6 name e.ttl]
  else []

/-- The loop over a chain; nothing where it is not at the end after some rounds. An entry
without a text is met again in the next round. -/
def printChain (m : Cache) : Nat → Option Ptr → Option (List Line)
  | _, none => some []
  | 0, some _ => none
  | rounds+1, some ptr =>
    if ptr ∈ m.live then
      match getRealName (m.entry ptr).name with
      | none => printChain m rounds (some ptr)
      | some name => do
        let later ← printChain m rounds (m.table.next ptr)
        return entryLines name (m.entry ptr) ++ later
    else none

def printBuckets (m : Cache) (rounds : Nat) : List (BitVec 10) → Option (List Line)
  | [] => some []
  | h :: rest => do
    let chain ← printChain m rounds (m.table.head h)
    let later ← printBuckets m rounds rest
    return chain ++ later

def cachePrint (m : Cache) (rounds : Nat) : Option (List Line) :=
  printBuckets m rounds buckets

/-- The list of the cache comes to an end. -/
def Terminates (m : Cache) : Prop := ∃ rounds lines, cachePrint m rounds = some lines

/-- The entry has a text. -/
def Spelled (m : Cache) (p : Ptr) : Prop := getRealName (m.entry p).name ≠ none

theorem printChain_spelled {start : Option Ptr} {chain : List Ptr}
    (path : PointerList.Path m.table.next start chain none)
    (spelled : ∀ p ∈ chain, p ∈ m.live ∧ Spelled m p) {rounds : Nat}
    (enough : chain.length ≤ rounds) : ∃ lines, printChain m rounds start = some lines := by
  induction chain generalizing start rounds with
  | nil =>
    cases path
    exact ⟨[], by cases rounds <;> rfl⟩
  | cons p chain ih =>
    obtain ⟨rfl, rest⟩ := path
    obtain ⟨rounds, rfl⟩ := Nat.exists_eq_add_one_of_ne_zero (Nat.ne_zero_of_lt enough)
    obtain ⟨used, hasName⟩ := spelled p List.mem_cons_self
    obtain ⟨name, isName⟩ := Option.ne_none_iff_exists'.mp hasName
    obtain ⟨later, printed⟩ := ih rest (fun q member => spelled q (List.mem_cons_of_mem p member))
      (Nat.le_of_succ_le_succ enough)
    refine ⟨entryLines name (m.entry p) ++ later, ?_⟩
    rw [printChain, if_pos used, isName]
    simp only [printed]
    rfl

theorem printChain_stuck {start : Option Ptr} {front rest : List Ptr}
    {p : Ptr} (path : PointerList.Path m.table.next start (front ++ p :: rest) none)
    (unspelled : ¬ Spelled m p) (rounds : Nat) : printChain m rounds start = none := by
  induction rounds generalizing start front with
  | zero =>
    rw [path.start_eq]
    cases front <;> rfl
  | succ rounds ih =>
    cases front with
    | nil =>
      obtain ⟨rfl, later⟩ := path
      have nameless : getRealName (m.entry p).name = none := not_not.mp unspelled
      rw [printChain, nameless]
      simp only [@ih (some p) [] ⟨rfl, later⟩, ite_self]
    | cons q front =>
      obtain ⟨rfl, later⟩ := path
      rw [printChain]
      cases getRealName (m.entry q).name with
      | none => simp only [@ih (some q) (q :: front) ⟨rfl, later⟩, ite_self]
      | some name =>
        simp only [@ih _ front later]
        exact ite_self _

theorem printBuckets_some {rounds : Nat} {l : List (BitVec 10)} :
    (∃ lines, printBuckets m rounds l = some lines) ↔
      ∀ h ∈ l, ∃ lines, printChain m rounds (m.table.head h) = some lines := by
  induction l with
  | nil => exact ⟨fun _ h member => absurd member List.not_mem_nil, fun _ => ⟨[], rfl⟩⟩
  | cons h l ih =>
    rw [List.forall_mem_cons, ← ih, printBuckets]
    constructor
    · rintro ⟨lines, printed⟩
      obtain ⟨chain, first, printed⟩ := Option.bind_eq_some_iff.mp printed
      obtain ⟨later, second, -⟩ := Option.bind_eq_some_iff.mp printed
      exact ⟨⟨chain, first⟩, later, second⟩
    · rintro ⟨⟨chain, first⟩, later, second⟩
      rw [first, second]
      exact ⟨chain ++ later, rfl⟩

theorem terminates_iff (shape : Shape m) : Terminates m ↔ ∀ p ∈ m.live, Spelled m p := by
  obtain ⟨chains, chained⟩ := shape.chained
  constructor
  · rintro ⟨rounds, printed⟩ p used
    obtain ⟨lines, ended⟩ := printBuckets_some.mp printed (DnsCache.hash (m.entry p).name)
      (DnsCache.mem_buckets _)
    obtain ⟨front, rest, split⟩ := List.append_of_mem
      ((Threads.mem chained (DnsCache.hash (m.entry p).name) p).mpr ⟨used, rfl⟩)
    have path := Threads.path chained (DnsCache.hash (m.entry p).name)
    rw [split] at path
    by_contra unspelled
    rw [printChain_stuck path unspelled] at ended
    cases ended
  · intro spelled
    refine ⟨m.live.length, printBuckets_some.mpr fun h _ => ?_⟩
    refine printChain_spelled (Threads.path chained h) (fun p member => ?_)
      (Threads.length_le chained (fun _ used => used) h)
    have used := ((Threads.mem chained h p).mp member).1
    exact ⟨used, spelled p used⟩

end Printing

section Texts

/-- A text that fits in its place in the configuration. -/
structure Text (name : List Byte) : Prop where
  short : name.length ≤ maxDomainName
  zeroFree : (0 : Byte) ∉ name

theorem text_of_chkDomainName {token str : SpecialTokens.Word}
    (accepted : SpecialTokens.chkDomainName token str = true) :
    Text (str.map fun c => BitVec.ofNat 8 c.toNat) := by
  simp only [SpecialTokens.chkDomainName, SpecialTokens.chkLength, SpecialTokens.inputNotClean,
    Bool.and_eq_true, decide_eq_true_eq, Bool.not_eq_true', List.any_eq_false] at accepted
  obtain ⟨⟨⟨-, short⟩, clean⟩, -⟩ := accepted
  refine ⟨by rwa [List.length_map], fun zero => ?_⟩
  obtain ⟨c, member, byte⟩ := List.mem_map.mp zero
  have small : 0 < c.toNat ∧ c.toNat < 256 := by
    have allowed := clean c member
    simp only [Bool.not_eq_false, Bool.or_eq_true, Bool.and_eq_true, decide_eq_true_eq,
      Char.le_def, UInt32.le_iff_toNat_le] at allowed
    rcases allowed with (((((lower | upper) | digit) | rfl) | rfl) | rfl) | rfl
    · exact ⟨Nat.lt_of_lt_of_le (by decide) lower.1, Nat.lt_of_le_of_lt lower.2 (by decide)⟩
    · exact ⟨Nat.lt_of_lt_of_le (by decide) upper.1, Nat.lt_of_le_of_lt upper.2 (by decide)⟩
    · exact ⟨Nat.lt_of_lt_of_le (by decide) digit.1, Nat.lt_of_le_of_lt digit.2 (by decide)⟩
    all_goals decide
  have none := congrArg BitVec.toNat byte
  rw [BitVec.toNat_ofNat, Nat.mod_eq_of_lt small.2] at none
  exact absurd none (Nat.ne_of_gt small.1)

variable {labels : List Label}

/-- The string of a sequence of labels, which may be empty, has a text if it is short. -/
theorem dots_prefixed (short : ∀ label ∈ labels, label.length < 64)
    {steps total : Nat} (less : total + letters labels < maxDomainName) :
    dots steps (cString (prefixed labels)) total ≠ none := by
  induction labels generalizing steps total with
  | nil => cases steps <;> exact Option.some_ne_none _
  | cons label rest ih =>
    cases steps with
    | zero => exact Option.some_ne_none _
    | succ steps =>
      rw [letters_cons] at less
      have size := toNat_size (short label List.mem_cons_self)
      rw [prefixed_cons]
      by_cases empty : (BitVec.ofNat 8 label.length : Byte) = 0
      · rw [empty]
        exact Option.some_ne_none _
      rw [cString, List.takeWhile_cons_of_pos (by simpa using empty), dots, if_neg empty, size,
        if_neg (by omega)]
      have later : dots steps (List.drop label.length
          (cString (label ++ prefixed rest))) (total + label.length) ≠ none := by
        by_cases zero : (0 : Byte) ∈ label
        · -- the string ends in the label
          obtain ⟨before, after, rfl⟩ := List.append_of_mem zero
          have cut := (List.takeWhile_prefix (· ≠ (0 : Byte)) (l := before)).length_le
          rw [List.append_assoc, List.cons_append, cString_append_zero, List.drop_eq_nil_of_le]
          · cases steps <;> exact Option.some_ne_none _
          · rw [List.length_append, cString]
            omega
        · have whole : cString (label ++ prefixed rest) = label ++ cString (prefixed rest) := by
            rw [cString, List.takeWhile_append_of_pos]
            · rfl
            · intro b member
              refine decide_eq_true ?_
              rintro rfl
              exact zero member
          rw [whole, List.drop_left' rfl]
          exact ih (fun l member => short l (List.mem_cons_of_mem label member)) (by omega)
      obtain ⟨text, isText⟩ := Option.ne_none_iff_exists'.mp later
      rw [show (List.takeWhile (fun x => decide (x ≠ 0)) (label ++ prefixed rest)) =
        cString (label ++ prefixed rest) from rfl, isText]
      exact Option.some_ne_none _

theorem staticBytes_prefixed (rest label : List Byte) : ∃ labels,
    staticBytes rest label = prefixed labels ∧ letters labels ≤ label.length + rest.length := by
  induction rest generalizing label with
  | nil => exact ⟨[label], by simp [staticBytes, prefixed], by simp [letters]⟩
  | cons c rest ih =>
    by_cases dot : c = 0x2e
    · subst dot
      obtain ⟨labels, same, few⟩ := ih []
      refine ⟨label :: labels, by rw [staticBytes_dot, same, prefixed_cons], ?_⟩
      rw [letters_cons, List.length_cons]
      rw [List.length_nil] at few
      omega
    · obtain ⟨labels, same, few⟩ := ih (label ++ [c])
      refine ⟨labels, by rw [staticBytes, if_neg dot, same], ?_⟩
      rw [List.length_append, List.length_singleton] at few
      rw [List.length_cons]
      omega

theorem length_le_letters {label : Label} (member : label ∈ labels) :
    label.length ≤ letters labels := by
  obtain ⟨front, back, rfl⟩ := List.append_of_mem member
  rw [letters, List.map_append, List.map_cons, List.sum_append, List.sum_cons]
  omega

theorem getRealName_static {name : List Byte} (short : name.length ≤ 62) :
    getRealName (realStaticName name) ≠ none := by
  obtain ⟨labels, same, few⟩ := staticBytes_prefixed name []
  rw [List.length_nil] at few
  have spelled : dots (realStaticName name).length (cString (prefixed labels)) 0 ≠ none := by
    refine dots_prefixed (fun label member => ?_) ?_
    · have least := length_le_letters member
      omega
    · unfold maxDomainName
      omega
  rw [← same] at spelled
  rw [getRealName, Ne, Option.map_eq_none_iff]
  exact spelled

theorem getRealName_learned (wellFormed : WellFormed labels)
    (short : (wire labels).length ≤ maxDomainName) :
    getRealName (cString (wire labels)) ≠ none := by
  have size := length_wire labels
  have spelled : dots (cString (wire labels)).length (cString (prefixed labels)) 0 ≠ none :=
    dots_prefixed (fun label member => (wellFormed label member).2) (by omega)
  have same : cString (wire labels) = cString (prefixed labels) := by
    rw [wire_eq]
    exact cString_append_zero _ []
  rw [getRealName, Ne, Option.map_eq_none_iff]
  rw [same] at spelled ⊢
  exact spelled

end Texts

section Forgetting

variable {m m' : Cache}

/-- The cache without its packets, which the chains do not depend on. -/
def forget (m : Cache) : Cache :=
  { m with packets := [], entry := fun p => { m.entry p with cname := none, cnameLen := 0 } }

theorem forget_owned (m : Cache) : Owned (forget m) := by
  refine ⟨fun p _ q cname => ?_, fun p _ p' _ q cname _ => ?_⟩ <;> cases cname

theorem forget_shape : Shape (forget m) ↔ Shape m :=
  ⟨fun shape => shape.congr rfl rfl fun _ _ => rfl, fun shape => shape.congr rfl rfl fun _ _ => rfl⟩

theorem forget_setEntry (m : Cache) (p : Ptr) (e : Entry) :
    forget (m.setEntry p e) = (forget m).setEntry p { e with cname := none, cnameLen := 0 } := by
  rw [forget, forget, Cache.setEntry, Cache.setEntry]
  congr 1
  funext q
  by_cases same : q = p
  · subst same
    simp only [Function.update_self]
  · simp only [Function.update_of_ne same]

/-- What a function does, it does without the packets too. -/
def Blind (f : Cache → Except Fault Cache) : Prop :=
  ∀ m m', f m = .ok m' → f (forget m) = .ok (forget m')

theorem Blind.bind {f g : Cache → Except Fault Cache} (first : Blind f) (second : Blind g) :
    Blind fun m => f m >>= g := by
  intro m m' done
  obtain ⟨t, ran, done⟩ := bind_eq_ok done
  change f (forget m) >>= g = _
  rw [first m t ran, ok_bind]
  exact second t m' done

theorem freeCname_blind (p : Ptr) : Blind fun m => freeCname m p := by
  intro m m' done
  have same : forget m = forget m' := by
    cases cname : (m.entry p).cname with
    | none =>
      simp only [freeCname, cname] at done
      cases done
      rfl
    | some q =>
      simp only [freeCname, cname] at done
      obtain ⟨-, rfl⟩ := access_eq_ok done
      rfl
  rw [← same]
  rfl

theorem freeEntry_blind (p : Ptr) : Blind fun m => DnsCache.freeEntry m p := by
  intro m m' done
  obtain ⟨used, rfl⟩ := access_eq_ok done
  exact access_ok used _

theorem cacheRemove_blind (p : Ptr) : Blind fun m => cacheRemove m p := by
  intro m m' done
  obtain ⟨h, isHash, done⟩ := bind_eq_ok done
  obtain ⟨table, removed, done⟩ := bind_eq_ok done
  cases done
  have isHash' : access (forget m).live p (DnsCache.hash ((forget m).entry p).name) = .ok h :=
    isHash
  have removed' : (forget m).table.remove (forget m).live h p = .ok table := removed
  simp only [cacheRemove, isHash', removed', ok_bind]
  rfl

theorem drop_blind (p : Ptr) : Blind fun m => drop m p :=
  (cacheRemove_blind p).bind ((freeCname_blind p).bind (freeEntry_blind p))

theorem release_blind (p : Ptr) : Blind (release p) := by
  intro m m' done
  obtain ⟨t, here, done⟩ := bind_eq_ok done
  obtain ⟨used, rfl⟩ := access_eq_ok here
  have here' : access (forget m).live p (forget m) = .ok (forget m) := access_ok used _
  rw [release, here', ok_bind]
  exact ((freeCname_blind p).bind (freeEntry_blind p)) m m' done

theorem clearMarker_blind (p : Ptr) : Blind (clearMarker p) := by
  intro m m' done
  obtain ⟨used, rfl⟩ := access_eq_ok done
  rw [forget_setEntry]
  exact access_ok used _

theorem age_blind (p : Ptr) : Blind (age p) := by
  intro m m' done
  obtain ⟨e, here, done⟩ := bind_eq_ok done
  obtain ⟨used, rfl⟩ := access_eq_ok here
  have used' : p ∈ (forget m).live := used
  rw [age, access_ok used', ok_bind]
  by_cases static : (m.entry p).isStatic = true
  · rw [if_pos static] at done
    have static' : ((forget m).entry p).isStatic = true := static
    rw [if_pos static']
    by_cases marked : (m.entry p).marker = true
    · rw [if_pos marked] at done
      cases done
      exact if_pos marked
    · rw [if_neg marked] at done
      exact (if_neg marked).trans (drop_blind p m m' done)
  · rw [if_neg static] at done
    have static' : ¬ ((forget m).entry p).isStatic = true := static
    rw [if_neg static']
    have set := forget_setEntry m p { m.entry p with ttl := (m.entry p).ttl - 1 }
    by_cases expired : (m.entry p).ttl - 1 = 0
    · rw [if_pos expired] at done
      have dropped := drop_blind p _ m' done
      rw [set] at dropped
      exact (if_pos expired).trans dropped
    · rw [if_neg expired] at done
      cases done
      rw [set]
      exact if_neg expired

theorem sweepChain_blind {body : Ptr → Cache → Except Fault Cache}
    (blind : ∀ p, Blind (body p)) (h : BitVec 10) :
    Blind fun m => sweepChain body m h := by
  have sweeps (steps : Nat) : ∀ start m m', sweep readNext body steps start m = .ok m' →
      sweep readNext body steps start (forget m) = .ok (forget m') := by
    induction steps with
    | zero =>
      intro start m m' done
      cases start with
      | none =>
        cases done
        rfl
      | some p => cases done
    | succ steps ih =>
      intro start m m' done
      cases start with
      | none =>
        cases done
        rfl
      | some p =>
        obtain ⟨following, read, done⟩ := bind_eq_ok done
        obtain ⟨t, worked, done⟩ := bind_eq_ok done
        have read' : readNext (forget m) p = .ok following := read
        rw [sweep, read', ok_bind, blind p m t worked, ok_bind]
        exact ih following t m' done
  exact fun m m' done => sweeps _ _ m m' done

theorem clearChain_blind (h : BitVec 10) : Blind fun m => DnsCache.clearChain m h := by
  intro m m' done
  obtain ⟨t, swept, done⟩ := bind_eq_ok done
  cases done
  have swept' : sweepChain release (forget m) h = .ok (forget t) :=
    sweepChain_blind release_blind h m t swept
  change sweepChain release (forget m) h >>= _ = _
  rw [swept']
  rfl

theorem foldlM_blind {f : Cache → BitVec 10 → Except Fault Cache}
    (blind : ∀ h, Blind fun m => f m h) (l : List (BitVec 10)) : Blind fun m => l.foldlM f m := by
  induction l with
  | nil =>
    intro m m' done
    cases done
    rfl
  | cons h l ih => exact (blind h).bind ih

end Forgetting

section Runs

variable {m m' : Cache}

/-- The cache is a map, and the names of its entries have texts. -/
structure Printable (m : Cache) : Prop where
  shape : Shape m
  spelled : ∀ p ∈ m.live, Spelled m p

section

variable (printable : Printable m)

include printable

theorem Printable.fewer (shape : Shape m')
    (fewer : Fewer (forget m) (forget m')) : Printable m' := by
  refine ⟨shape, fun p used => ?_⟩
  have name : (m'.entry p).name = (m.entry p).name := congrArg Prod.fst (fewer.key used)
  rw [Spelled, name]
  exact printable.spelled p (fewer.live p used)

theorem Printable.timer (timed : DnsCache.cacheTimer m = .ok m') :
    Printable m' := by
  have timed' := foldlM_blind (fun h => sweepChain_blind age_blind h) buckets m m' timed
  obtain ⟨t, same, shape, -, aged, -⟩ :=
    DnsCache.cacheTimer_spec (forget_shape.mpr printable.shape) (forget_owned m)
  cases timed'.symm.trans same
  exact printable.fewer (forget_shape.mp shape) aged.1

theorem Printable.clear (cleared : DnsCache.cacheClear m = .ok m') :
    Printable m' := by
  have cleared' := foldlM_blind clearChain_blind buckets m m' cleared
  obtain ⟨t, same, shape, -, aged⟩ :=
    DnsCache.cacheClear_spec (forget_shape.mpr printable.shape) (forget_owned m)
  cases cleared'.symm.trans same
  exact printable.fewer (forget_shape.mp shape) aged.1

theorem Printable.clearMarkers
    (cleared : DnsCache.buckets.foldlM (sweepChain clearMarker) m = .ok m') :
    Printable m' ∧ m'.live = m.live := by
  have cleared' :=
    foldlM_blind (fun h => sweepChain_blind clearMarker_blind h) buckets m m' cleared
  obtain ⟨t, same, shape, -, unmarked, -⟩ :=
    DnsCache.clearMarkers_spec (forget_shape.mpr printable.shape) (forget_owned m)
  cases cleared'.symm.trans same
  exact ⟨printable.fewer (forget_shape.mp shape) unmarked.fewer, unmarked.live⟩

theorem Printable.update (shape : Shape m') {p : Ptr} {e : Entry}
    (live : ∀ q ∈ m'.live, q = p ∨ q ∈ m.live) (entry : m'.entry = Function.update m.entry p e)
    (spelled : getRealName e.name ≠ none) : Printable m' := by
  refine ⟨shape, fun q used => ?_⟩
  by_cases same : q = p
  · rw [Spelled, entry, same, Function.update_self]
    exact spelled
  · rw [Spelled, entry, Function.update_of_ne same]
    exact printable.spelled q ((live q used).resolve_left same)

theorem Printable.addStatic {host : Host} {block : Option Ptr}
    (fresh : FreshBlock m.live block) (short : host.name.length ≤ 62)
    (done : DnsCache.cacheAddStatic m host block = .ok m') : Printable m' := by
  have shape' := (addStatic_grows printable.shape fresh done).1
  have adds := DnsCache.cacheAddStatic_cases printable.shape host block
  rw [done] at adds
  have keyed {e : Entry} (key : e.key = host.key) : getRealName e.name ≠ none := by
    rw [show e.name = realStaticName host.name from congrArg Prod.fst key]
    exact getRealName_static short
  cases adds with
  | nothing => exact printable
  | plain p used key =>
    have named : getRealName (m.entry p).name ≠ none := keyed key
    exact printable.update shape' (fun q inside => .inr inside) rfl named
  | cname p q used key _ _ entry same =>
    exact printable.update shape' (fun q inside => .inr inside) rfl (keyed (same.1.trans key))
  | new p malloc absent entry isNew =>
    refine printable.update shape' (fun q inside => List.mem_cons.mp inside) rfl ?_
    rw [isNew]
    exact keyed rfl

theorem Printable.addStatics {hosts : List (Host × Option Ptr)} (fresh : FreshBlocks m.live hosts)
    (short : ∀ host ∈ hosts, host.1.name.length ≤ 62)
    (done : DnsCache.addStatics m hosts = .ok m') : Printable m' := by
  induction hosts generalizing m with
  | nil =>
    cases done
    exact printable
  | cons host hosts ih =>
    rw [DnsCache.addStatics_cons] at done
    obtain ⟨t, first, done⟩ := bind_eq_ok done
    obtain ⟨-, -, -, live⟩ := addStatic_grows printable.shape fresh.head first
    exact ih (printable.addStatic fresh.head (short host List.mem_cons_self) first)
      (fresh.tail live) (fun o member => short o (List.mem_cons_of_mem host member)) done

end

/-- An answer is one that `process_server` caches for a datagram. -/
def FromPacket (_ : Cache) : DnsCache.Op → Prop
  | .insert a _ _ => ∃ d w packet, cachedAnswer (extracted d w) packet = some a
  | _ => True

/-- Configured hosts have at most 62 characters. -/
def ShortHosts (_ : Cache) : DnsCache.Op → Prop
  | .updateStatic hosts => ∀ host ∈ hosts, host.1.name.length ≤ 62
  | _ => True

theorem Printable.insert (printable : Printable m) {a : DnsCache.Answer}
    {block packetBlock : Option Ptr} (fresh : FreshBlock m.live block)
    (learned : ∃ d w packet, cachedAnswer (extracted d w) packet = some a)
    (done : DnsCache.cacheInsert m a block packetBlock = .ok m') : Printable m' := by
  obtain ⟨d, w, packet, cached⟩ := learned
  obtain ⟨-, name, -⟩ := cachedAnswer_some cached
  obtain ⟨labels, wellFormed, short, isName⟩ := verify_name d.buf d.len w.old
  have spelled : getRealName (DnsCache.learned a).name ≠ none := by
    rw [show (DnsCache.learned a).name = a.queryName from congrArg Prod.fst
      (learned_key a), name, extracted, isName]
    exact getRealName_learned wellFormed short
  obtain ⟨t, done', inserts⟩ := DnsCache.cacheInsert_cases printable.shape a block packetBlock fresh
  cases done.symm.trans done'
  obtain ⟨chains, chained⟩ := printable.shape.chained
  cases inserts with
  | found => exact printable
  | noMemory => exact printable
  | plain p malloc type absent =>
    refine printable.update ?_ (fun q inside => List.mem_cons.mp inside) rfl spelled
    refine chained.add printable.shape.differ (fresh p malloc) ?_ rfl rfl rfl
    rw [learned_key]
    exact absent
  | cname p q malloc mallocPacket type absent =>
    refine printable.update (e := { DnsCache.learned a with
      cname := some q, cnameLen := a.packet.len }) ?_
      (fun q inside => List.mem_cons.mp inside) rfl spelled
    refine chained.add printable.shape.differ (fresh p malloc) ?_ rfl rfl rfl
    rw [show Entry.key { DnsCache.learned a with cname := some q, cnameLen := a.packet.len } =
      (a.queryName, a.queryType) from learned_key a]
    exact absent

theorem step_printable {op : DnsCache.Op} (printable : Printable m)
    (allowed : DnsCache.Allowed m op) (learned : FromPacket m op) (short : ShortHosts m op)
    (done : DnsCache.exec m op = .ok m') : Printable m' := by
  cases op with
  | insert a block packetBlock => exact printable.insert allowed.1 learned done
  | updateStatic hosts =>
    obtain ⟨t, cleared, added⟩ := bind_eq_ok done
    obtain ⟨printable', live⟩ := printable.clearMarkers cleared
    have fresh : FreshBlocks t.live hosts := live.symm ▸ allowed
    exact printable'.addStatics fresh short added
  | timer => exact printable.timer done
  | clear => exact printable.clear done
  | reply name type =>
    obtain ⟨_, -, same⟩ := bind_eq_ok done
    cases same
    exact printable

end Runs

section Names

/-- The text has these labels. -/
structure Spells (text : List Byte) (labels : List Label) : Prop where
  wellFormed : WellFormed labels
  zeroFree : ZeroFree labels
  dotFree : DotFree labels
  nonempty : labels ≠ []
  spelled : text = (dotted labels).dropLast

/-- The real name of the text is its labels with their lengths, which gives the text back;
all is written in the buffers. -/
def Converts (text : List Byte) (labels : List Label) : Prop :=
  ∀ old old', Inside (buildName old text) ∧
    bytes (buildName old text).mem 0 (text.length + 2) = wire labels ∧
    Inside (realName old' (bytes (buildName old text).mem 0 (text.length + 2))).1 ∧
    (realName old' (bytes (buildName old text).mem 0 (text.length + 2))).2 = some text

/-- The text of a name is written in the buffer, and there is one. -/
def Safe (name : List Byte) : Prop :=
  ∀ old, Inside (realName old name).1 ∧ (realName old name).2 ≠ none

variable {labels : List Label}

theorem Spells.length {text : List Byte} (spells : Spells text labels) :
    (wire labels).length = text.length + 2 := by
  have last := congrArg List.length (dropLast_dotted labels spells.nonempty)
  have size := length_dotted labels
  rw [List.length_append, List.length_singleton] at last
  rw [spells.spelled]
  omega

theorem converts_iff {text : List Byte} (spells : Spells text labels) :
    Converts text labels ↔ text.length ≤ 62 := by
  constructor
  · intro converts
    exact (inside_buildName_iff (fun _ => 0) text).mp (converts (fun _ => 0) (fun _ => 0)).1
  · intro short old old'
    have length := spells.length
    have count := length_wire labels
    have some := List.length_pos_iff.mpr spells.nonempty
    have built : bytes (buildName old text).mem 0 (text.length + 2) = wire labels := by
      rw [bytes_buildName, spells.spelled, staticBytes_dropLast spells.dotFree spells.nonempty,
        wire_eq]
    obtain ⟨inside, isText⟩ := realName_wire spells.wellFormed spells.nonempty
      (by unfold maxDomainName; omega) (by omega) old'
    have whole : cString (dotted labels).dropLast = text := by
      rw [spells.spelled]
      exact cString_self fun zero =>
        zero_notMem_dotted spells.zeroFree ((List.dropLast_sublist _).subset zero)
    rw [built]
    exact ⟨(inside_buildName_iff old text).mpr short, rfl, inside, whole ▸ isText⟩

theorem safe_iff (wellFormed : WellFormed labels)
    (short : (wire labels).length ≤ maxDomainName) : Safe (wire labels) ↔ labels ≠ [] := by
  constructor
  · rintro safe rfl
    exact realName_root (fun _ => 0) (safe fun _ => 0).1
  · intro nonempty old
    have count := length_wire labels
    unfold maxDomainName at short
    obtain ⟨inside, isText⟩ := realName_wire wellFormed nonempty
      (by unfold maxDomainName; omega) (by omega) old
    rw [isText]
    exact ⟨inside, Option.some_ne_none _⟩

/-- A text converts exactly when it has at most 62 characters, a name that `get_name_len`
accepts has its text written in the buffer exactly when it is not the root, and in every run
where the configured hosts have at most 62 characters the list of the cache ends. -/
theorem names_convert (text : List Byte) (labels : List Label) (buf : Buffer) (ptr len : Nat)
    (ops : List DnsCache.Op) (m : Cache) :
    (Text text → Spells text labels → (Converts text labels ↔ text.length ≤ 62)) ∧
    (ptr ≤ len → getNameLen buf ptr len ≠ 0 →
      (Safe (bytes buf ptr (getNameLen buf ptr len)) ↔ buf ptr ≠ 0)) ∧
    (Along DnsCache.exec DnsCache.Allowed ops Cache.empty →
      Along DnsCache.exec FromPacket ops Cache.empty →
      Along DnsCache.exec ShortHosts ops Cache.empty →
      run DnsCache.exec ops Cache.empty = .ok m → Terminates m) := by
  refine ⟨fun _ spells => converts_iff spells, fun start accepted => ?_,
    fun allowed learned short ran => ?_⟩
  · obtain ⟨labels, wellFormed, length, here, short, -⟩ :=
      (getNameLen_eq_iff start accepted).mp rfl
    rw [here, safe_iff wellFormed (length ▸ short), not_iff_not]
    have first := congrArg List.head? here
    rw [← length] at first
    cases labels with
    | nil => exact ⟨fun _ => List.head_eq_of_cons_eq (length ▸ here), fun _ => rfl⟩
    | cons label rest =>
      refine ⟨fun impossible => (by cases impossible), fun zero => ?_⟩
      rw [← length] at here
      obtain ⟨size, -⟩ := bytes_wire_cons.mp here
      rw [zero] at size
      exact absurd size.symm (size_ne_zero wellFormed.head.1 wellFormed.head.2)
  · have printable : Printable m := by
      refine FaultRuns.reach_rule (P := fun m op => (DnsCache.Allowed m op ∧ FromPacket m op) ∧
        ShortHosts m op) ?_ ((allowed.and learned).and short) ?_ ran
      · rintro s op s' printable ⟨⟨allowed, learned⟩, short⟩ done
        exact step_printable printable allowed learned short done
      · exact ⟨DnsCache.empty_sound.shape, fun p used => absurd used List.not_mem_nil⟩
    exact (terminates_iff printable.shape).mpr printable.spelled

theorem spells_letters {n : Nat} (some : 0 < n) (short : n < 64) :
    Spells (List.replicate n 0x61) [List.replicate n 0x61] := by
  refine ⟨fun label member => ?_, fun label member zero => ?_, fun label member dot => ?_,
    List.cons_ne_nil _ _, ?_⟩
  · cases List.mem_singleton.mp member
    rw [List.length_replicate]
    exact ⟨some, short⟩
  · cases List.mem_singleton.mp member
    cases List.eq_of_mem_replicate zero
  · cases List.mem_singleton.mp member
    cases List.eq_of_mem_replicate dot
  · rw [dotted_cons]
    exact List.dropLast_concat.symm

theorem text_letters {n : Nat} (short : n ≤ maxDomainName) : Text (List.replicate n 0x61) := by
  refine ⟨by rw [List.length_replicate]; exact short, fun zero => ?_⟩
  cases List.eq_of_mem_replicate zero

/-- A text of 62 letters, and the list of the cache when the host `a` is configured. -/
theorem names_convert_longest :
    Converts (List.replicate 62 0x61) [List.replicate 62 0x61] ∧
      ∃ m, run DnsCache.exec [.updateStatic [(⟨[0x61], 0x0a000002⟩, some 1)], .timer]
        Cache.empty = .ok m ∧ Terminates m := by
  have at62 := fun ops m => names_convert (List.replicate 62 0x61) [List.replicate 62 0x61]
    (fun _ => 0) 0 0 ops m
  have converts := (at62 [] Cache.empty).1 (text_letters (by decide))
    (spells_letters (by decide) (by decide))
  refine ⟨converts.mpr (by decide), ?_⟩
  have allowed : Along DnsCache.exec DnsCache.Allowed
      [.updateStatic [(⟨[0x61], 0x0a000002⟩, some 1)], .timer] Cache.empty := by
    decide +kernel
  have noCname : Along DnsCache.exec NoCname
      [.updateStatic [(⟨[0x61], 0x0a000002⟩, some 1)], .timer] Cache.empty := by
    decide +kernel
  obtain ⟨m, ran, -⟩ := run_rule
    (fun s op sound both => DnsCache.exec_spec sound op both.1 both.2)
    (allowed.and noCname) DnsCache.empty_sound
  refine ⟨m, ran, (at62 _ m).2.2 allowed ⟨trivial, fun _ _ => ⟨trivial, fun _ _ => trivial⟩⟩
    ⟨fun host member => ?_, fun _ _ => ⟨trivial, fun _ _ => trivial⟩⟩ ran⟩
  cases List.mem_singleton.mp member
  decide

/-- One letter more, and the last byte is written behind the buffer. -/
theorem names_overflow :
    ¬ ((∀ text labels, Text text → Spells text labels → Converts text labels) ∧
      (∀ buf ptr len, ptr ≤ len → getNameLen buf ptr len ≠ 0 →
        Safe (bytes buf ptr (getNameLen buf ptr len))) ∧
      ∀ ops m, Along DnsCache.exec DnsCache.Allowed ops Cache.empty →
        Along DnsCache.exec FromPacket ops Cache.empty →
        run DnsCache.exec ops Cache.empty = .ok m → Terminates m) := by
  rintro ⟨all, -⟩
  have spells : Spells (List.replicate 63 0x61) [List.replicate 63 0x61] :=
    spells_letters (by decide) (by decide)
  exact absurd ((converts_iff spells).mp (all _ _ (text_letters (by decide)) spells)) (by decide)

end Names

end DomainNames
