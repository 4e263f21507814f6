import Rcp100.ChainTable
import Rcp100.OptionalGroups
import Rcp100.BlankWords

/-!
# The command description language

A line describes a command with optional words in brackets. The variants are registered one by
one while the words are put together in one buffer, which is cut again when a bracket has been
left out.
-/

namespace CmdParser

open OptionalGroups
open BlankWords
open ChainTable (ok_bind error_bind)

def maxTokensPerLine : Nat := 512

def maxLine : Nat := 2048

/-- Why the parser stops. -/
inductive Stop where
  /-- a message about parentheses, and `exit(1)` -/
  | unmatched
  /-- the null pointer behind the tokens is followed -/
  | null
  /-- `targv` is read past its end -/
  | outside
  /-- `outbuf` is written past its end -/
  | overflow
  /-- the blanks of a command are removed back over its start -/
  | before
  /-- the recursion is deeper than the fuel -/
  | endless
deriving DecidableEq

section Source

def isBracket (c : Char) : Bool := c = '[' || c = ']'

/-- The slots of `targv`, as far as there are words for them. -/
def tokenize (msg : List Char) : List Word := split maxTokensPerLine msg

/-- The array has one more slot, which stays null. -/
def arg (targv : List Word) (n : Nat) : Except Stop (Option Word) :=
  if n ≤ maxTokensPerLine then .ok targv[n]? else .error .outside

def starts (c : Char) (w : Word) : Bool := w.head? = some c

structure Out where
  outbuf : List Char
  printed : List (List Char)

/-- The registration has the command as it is; its blanks are removed from a copy. -/
def printCmd (cmd : List Char) (out : Out) : Except Stop Out :=
  if cmd.all (· = ' ') then .error .before
  else .ok { out with printed := out.printed ++ [cmd] }

def strcat (out : Out) (str : List Char) : Except Stop Out :=
  if (out.outbuf ++ str).length ≤ maxLine then .ok { out with outbuf := out.outbuf ++ str }
  else .error .overflow

/-- The loop of `parse_block`. -/
def closing (targv : List Word) : Nat → Nat → Except Stop Nat
  | 0, _ => .error .endless
  | fuel+1, n => do
    match ← arg targv n with
    | none => .error .null
    | some w => if starts ']' w then .ok n else closing targv fuel (n+1)

def parseBlock (parse : Nat → Out → Except Stop Out) (targv : List Word) (start : Nat)
    (out : Out) : Except Stop (Nat × Out) := do
  let n ← closing targv (maxTokensPerLine + 1) start
  let after ← parse (n+1) out
  match ← arg targv (start+1) with
  | none => .error .unmatched
  | some _ => .ok (start+1, { after with outbuf := after.outbuf.take out.outbuf.length })

def parse (targv : List Word) : Nat → Nat → Out → Except Stop Out
  | 0, _, _ => .error .endless
  | fuel+1, start, out => do
    let out := if start = 0 then { out with outbuf := [] } else out
    match ← arg targv start with
    | none => printCmd out.outbuf out
    | some w =>
      let (start, out) ←
        if starts '[' w then parseBlock (parse targv fuel) targv start out else .ok (start, out)
      match ← arg targv start with
      | none => .error .null
      | some w =>
        let start := if starts ']' w then start + 1 else start
        match ← arg targv start with
        | none => printCmd out.outbuf out
        | some w =>
          if starts '[' w then parse targv fuel start out
          else do
            let out ← strcat out w
            let out ← strcat out [' ']
            parse targv fuel (start+1) out

def spaced (cmd : List Char) : List Char :=
  cmd.flatMap fun c => if isBracket c then [' ', c, ' '] else [c]

/-- The texts of the registrations. The recursion reads on with every call. -/
def expandCmd (cmd : List Char) : Except Stop (List (List Char)) :=
  if cmd.count '[' ≠ cmd.count ']' then .error .unmatched
  else if cmd.count '[' = 0 then (printCmd cmd ⟨[], []⟩).map Out.printed
  else
    (parse (tokenize (spaced cmd)) (maxTokensPerLine + 2) 0 ⟨[], []⟩).map
      Out.printed

end Source

section Language

/-- The words and the brackets of a line. -/
def tokens (cmd : List Char) : List Word := words (spaced cmd)

def itemTokens : Item Word → List Word
  | .word w => [w]
  | .group ws => ['['] :: ws ++ [[']']]

/-- The line is made of these words and groups of words, in this order. -/
structure Describes (cmd : List Char) (items : List (Item Word)) : Prop where
  tokens : tokens cmd = items.flatMap itemTokens
  plain : ∀ w ∈ items.flatMap Item.words, ∀ c ∈ w, isBracket c = false

def Mandatory (items : List (Item Word)) : Prop := ∃ w, Item.word w ∈ items

/-- The registrations are the variants of the line, one for each choice of groups. -/
def ExpandsToAll (cmd : List Char) (items : List (Item Word)) : Prop :=
  ∃ texts, expandCmd cmd = .ok texts ∧ texts.length = 2^groups items ∧
    texts.map words = variants items

end Language

section Tokens

variable {targv rest : List Word} {start : Nat} {w : Word} {out after : Out}

/-- These tokens are left from an index on. -/
def At (targv : List Word) (start : Nat) (left : List Word) : Prop :=
  ∃ front, targv = front ++ left ∧ front.length = start

theorem At.arg (at' : At targv start rest) (short : targv.length ≤ maxTokensPerLine) :
    arg targv start = .ok rest.head? := by
  obtain ⟨front, rfl, rfl⟩ := at'
  rw [List.length_append] at short
  rw [CmdParser.arg, if_pos (by omega)]
  cases rest with
  | nil => simp
  | cons w rest => simp

theorem At.next (at' : At targv start (w :: rest)) : At targv (start+1) rest := by
  obtain ⟨front, rfl, rfl⟩ := at'
  exact ⟨front ++ [w], by simp, by simp⟩

theorem At.skip {ws : List Word} (at' : At targv start (ws ++ rest)) :
    At targv (start + ws.length) rest := by
  obtain ⟨front, rfl, rfl⟩ := at'
  exact ⟨front ++ ws, by simp, by simp⟩

theorem At.length (at' : At targv start rest) : start + rest.length = targv.length := by
  obtain ⟨front, rfl, rfl⟩ := at'
  simp

/-- What a call of `parse` comes to, with enough fuel. -/
def Parses (targv : List Word) (start : Nat) (out : Out) (r : Except Stop Out) : Prop :=
  ∀ fuel, targv.length < start + fuel → parse targv fuel start out = r

/-- A word without brackets. -/
def Plain (w : Word) : Prop := w ≠ [] ∧ ∀ c ∈ w, isBlank c = false ∧ isBracket c = false

theorem Plain.starts (plain : Plain w) : starts '[' w = false ∧ starts ']' w = false := by
  obtain ⟨some', all⟩ := plain
  cases w with
  | nil => exact absurd rfl some'
  | cons c w =>
    have other := (all c List.mem_cons_self).2
    rw [isBracket, Bool.or_eq_false_iff, decide_eq_false_iff_not, decide_eq_false_iff_not] at other
    simp [CmdParser.starts, other.1, other.2]

theorem strcat_ok {str : List Char} (room : out.outbuf.length + str.length ≤ maxLine) :
    strcat out str = .ok { out with outbuf := out.outbuf ++ str } := by
  rw [strcat, if_pos (by rwa [List.length_append])]

/-- The buffer with these words behind. -/
def Out.addAll (out : Out) (ws : List Word) : Out :=
  { out with outbuf := out.outbuf ++ textOf ws }

theorem strcat_word (room : out.outbuf.length + (w.length + 1) ≤ maxLine)
    (next : Out → Except Stop Out) :
    (strcat out w >>= fun out => strcat out [' '] >>= next) = next (out.addAll [w]) := by
  rw [strcat_ok (by omega), ok_bind, strcat_ok, ok_bind, List.append_assoc, Out.addAll, textOf,
    List.flatMap_singleton]
  rw [List.length_append, List.length_singleton]
  omega

theorem reset_eq (fresh : start = 0 → out.outbuf = []) :
    (if start = 0 then { out with outbuf := [] } else out) = out := by
  split_ifs with first
  · rw [← fresh first]
  · rfl

section

variable (short : targv.length ≤ maxTokensPerLine)

include short

theorem parses_nil (at' : At targv start [])
    (fresh : start = 0 → out.outbuf = []) : Parses targv start out (printCmd out.outbuf out) := by
  intro fuel enough
  have length := at'.length
  obtain ⟨fuel, rfl⟩ := Nat.exists_eq_add_one.mpr (show 0 < fuel by
    rw [List.length_nil] at length; omega)
  rw [parse, reset_eq fresh, at'.arg short]
  rfl

theorem parses_word (at' : At targv start (w :: rest))
    (plain : Plain w) (fresh : start = 0 → out.outbuf = [])
    (room : out.outbuf.length + (w.length + 1) ≤ maxLine) {r : Except Stop Out}
    (next : Parses targv (start+1) (out.addAll [w]) r) : Parses targv start out r := by
  intro fuel enough
  have length := at'.length
  rw [List.length_cons] at length
  obtain ⟨fuel, rfl⟩ := Nat.exists_eq_add_one.mpr (show 0 < fuel by omega)
  rw [parse, reset_eq fresh, at'.arg short]
  simp only [ok_bind, List.head?_cons, plain.starts.1, plain.starts.2, Bool.false_eq_true, if_false,
    at'.arg short]
  rw [strcat_word room]
  exact next fuel (by omega)

theorem parses_close (at' : At targv start ([']'] :: rest)) (fresh : start = 0 → out.outbuf = [])
    (once : ∀ w ∈ rest.head?, starts ']' w = false) {r : Except Stop Out}
    (next : Parses targv (start+1) out r) : Parses targv start out r := by
  intro fuel enough
  have length := at'.length
  rw [List.length_cons] at length
  obtain ⟨fuel, rfl⟩ := Nat.exists_eq_add_one.mpr (show 0 < fuel by omega)
  have later := next (fuel+1) (by omega)
  have notOpen : starts '[' [']'] = false := rfl
  have closes : starts ']' [']'] = true := rfl
  rw [parse, if_neg (Nat.succ_ne_zero _), at'.next.arg short] at later
  rw [parse, reset_eq fresh, at'.arg short]
  simp only [ok_bind, List.head?_cons, notOpen, closes, Bool.false_eq_true, if_false, if_true,
    at'.arg short, at'.next.arg short]
  cases rest with
  | nil => exact later
  | cons w rest =>
    cases opens : starts '[' w with
    | true =>
      simp only [List.head?_cons, opens, if_true]
      exact next fuel (by omega)
    | false =>
      have notClosed := once w rfl
      simp only [ok_bind, List.head?_cons, opens, notClosed, Bool.false_eq_true, if_false,
        at'.next.arg short] at later ⊢
      exact later

theorem closing_skip {ws : List Word} {left : Nat}
    (at' : At targv start (ws ++ rest)) (inside : ∀ w ∈ ws, starts ']' w = false) :
    closing targv (ws.length + left) start = closing targv left (start + ws.length) := by
  induction ws generalizing start with
  | nil => rw [List.length_nil, Nat.zero_add, Nat.add_zero]
  | cons w ws ih =>
    have other := inside w List.mem_cons_self
    rw [List.length_cons, Nat.add_right_comm, closing, at'.arg short]
    simp only [ok_bind, List.cons_append, List.head?_cons, other, Bool.false_eq_true, if_false]
    rw [ih at'.next (fun v member => inside v (List.mem_cons_of_mem w member)), Nat.add_right_comm]
    rfl

theorem closing_eq {ws : List Word} {fuel : Nat}
    (at' : At targv start (ws ++ [']'] :: rest)) (inside : ∀ w ∈ ws, starts ']' w = false)
    (enough : ws.length < fuel) : closing targv fuel start = .ok (start + ws.length) := by
  obtain ⟨left, rfl⟩ := Nat.exists_eq_add_of_lt enough
  rw [Nat.add_assoc, closing_skip short at' inside, closing, at'.skip.arg short]
  rfl

/-- Without a closing bracket the loop runs into the null pointer. -/
theorem closing_null {ws : List Word} {fuel : Nat}
    (at' : At targv start ws) (inside : ∀ w ∈ ws, starts ']' w = false)
    (enough : ws.length < fuel) : closing targv fuel start = .error .null := by
  obtain ⟨left, rfl⟩ := Nat.exists_eq_add_of_lt enough
  rw [← List.append_nil ws] at at'
  rw [Nat.add_assoc, closing_skip short at' inside, closing, at'.skip.arg short]
  rfl

end

theorem plain_closed {ws : List Word} (plain : ∀ w ∈ ws, Plain w) :
    ∀ w ∈ ['['] :: ws, starts ']' w = false := by
  intro w member
  rcases List.mem_cons.mp member with rfl | inside
  · rfl
  · exact (plain w inside).starts.2

theorem parses_group (short : targv.length ≤ maxTokensPerLine) {ws : List Word}
    (at' : At targv start (['['] :: ws ++ [']'] :: rest)) (plain : ∀ w ∈ ws, Plain w)
    (fresh : start = 0 → out.outbuf = [])
    (without : Parses targv (start + ws.length + 2) out (.ok after)) {r : Except Stop Out}
    (next : Parses targv (start+1)
      { after with outbuf := after.outbuf.take out.outbuf.length } r) :
    Parses targv start out r := by
  intro fuel enough
  have length := at'.length
  rw [List.length_append, List.length_cons, List.length_cons] at length
  obtain ⟨fuel, rfl⟩ := Nat.exists_eq_add_one.mpr (show 0 < fuel by omega)
  have later := next (fuel+1) (by omega)
  have opens : starts '[' ['['] = true := rfl
  have found : closing targv (maxTokensPerLine + 1) start = .ok (start + (['['] :: ws).length) :=
    closing_eq short at' (plain_closed plain) (by rw [List.length_cons]; omega)
  obtain ⟨v, behind, inner, notOpen⟩ : ∃ v behind, ws ++ [']'] :: rest = v :: behind ∧
      starts '[' v = false := by
    cases ws with
    | nil => exact ⟨[']'], rest, rfl, rfl⟩
    | cons w ws => exact ⟨w, ws ++ [']'] :: rest, rfl, (plain w List.mem_cons_self).starts.1⟩
  have second : At targv (start+1) (v :: behind) := inner ▸ at'.next
  have block : parseBlock (parse targv fuel) targv start out =
      .ok (start+1, { after with outbuf := after.outbuf.take out.outbuf.length }) := by
    rw [parseBlock, found, ok_bind, List.length_cons,
      show start + (ws.length + 1) + 1 = start + ws.length + 2 by omega, without fuel (by omega),
      ok_bind, second.arg short]
    rfl
  rw [parse, if_neg (Nat.succ_ne_zero _), second.arg short] at later
  simp only [ok_bind, List.head?_cons, notOpen, Bool.false_eq_true, if_false] at later
  rw [parse, reset_eq fresh, at'.arg short]
  simp only [ok_bind, List.cons_append, List.head?_cons, opens, if_true, block]
  exact later

theorem parses_error (short : targv.length ≤ maxTokensPerLine)
    (at' : At targv start (['['] :: rest)) (fresh : start = 0 → out.outbuf = []) {e : Stop}
    (block : ∀ fuel, targv.length < start + (fuel+1) →
      parseBlock (parse targv fuel) targv start out = .error e) :
    Parses targv start out (.error e) := by
  intro fuel enough
  have length := at'.length
  rw [List.length_cons] at length
  obtain ⟨fuel, rfl⟩ := Nat.exists_eq_add_one.mpr (show 0 < fuel by omega)
  have opens : starts '[' ['['] = true := rfl
  rw [parse, reset_eq fresh, at'.arg short]
  simp only [ok_bind, List.head?_cons, opens, if_true, block fuel enough, error_bind]

theorem parses_group_error (short : targv.length ≤ maxTokensPerLine) {ws : List Word}
    (at' : At targv start (['['] :: ws ++ [']'] :: rest)) (plain : ∀ w ∈ ws, Plain w)
    (fresh : start = 0 → out.outbuf = []) {e : Stop}
    (without : Parses targv (start + ws.length + 2) out (.error e)) :
    Parses targv start out (.error e) := by
  refine parses_error short at' fresh fun fuel enough => ?_
  have length := at'.length
  rw [List.length_append, List.length_cons, List.length_cons] at length
  have found : closing targv (maxTokensPerLine + 1) start = .ok (start + (['['] :: ws).length) :=
    closing_eq short at' (plain_closed plain) (by rw [List.length_cons]; omega)
  rw [parseBlock, found, ok_bind, List.length_cons,
    show start + (ws.length + 1) + 1 = start + ws.length + 2 by omega, without fuel (by omega),
    error_bind]

theorem parses_open (short : targv.length ≤ maxTokensPerLine) {ws : List Word}
    (at' : At targv start (['['] :: ws)) (plain : ∀ w ∈ ws, Plain w)
    (fresh : start = 0 → out.outbuf = []) : Parses targv start out (.error .null) := by
  refine parses_error short at' fresh fun fuel _ => ?_
  have length := at'.length
  rw [List.length_cons] at length
  have lost : closing targv (maxTokensPerLine + 1) start = .error .null :=
    closing_null short at' (plain_closed plain) (by rw [List.length_cons]; omega)
  rw [parseBlock, lost, error_bind]

end Tokens

section Variants

variable {targv rest : List Word} {start : Nat} {out : Out} {items : List (Item Word)}

theorem spread_append (vs ws : List Word) : spread (vs ++ ws) = spread vs + spread ws := by
  rw [spread, spread, spread, List.map_append, List.sum_append]

theorem textOf_append (vs ws : List Word) : textOf (vs ++ ws) = textOf vs ++ textOf ws :=
  List.flatMap_append

theorem addAll_append (vs ws : List Word) :
    (out.addAll vs).addAll ws = out.addAll (vs ++ ws) := by
  rw [Out.addAll, Out.addAll, Out.addAll, textOf_append, List.append_assoc]

theorem length_addAll (ws : List Word) :
    (out.addAll ws).outbuf.length = out.outbuf.length + spread ws := by
  rw [Out.addAll, List.length_append, length_textOf]

theorem spread_cons (w : Word) (ws : List Word) :
    spread (w :: ws) = spread [w] + spread ws := spread_append [w] ws

theorem parses_words (short : targv.length ≤ maxTokensPerLine) {ws : List Word}
    (at' : At targv start (ws ++ rest)) (plain : ∀ w ∈ ws, Plain w)
    (fresh : start = 0 → out.outbuf = []) (room : out.outbuf.length + spread ws ≤ maxLine)
    {r : Except Stop Out} (next : Parses targv (start + ws.length) (out.addAll ws) r) :
    Parses targv start out r := by
  induction ws generalizing start out with
  | nil =>
    rw [Out.addAll, textOf, List.flatMap_nil, List.append_nil] at next
    exact next
  | cons w ws ih =>
    rw [spread_cons, ← Nat.add_assoc] at room
    refine parses_word short at' (plain w List.mem_cons_self) fresh (Nat.le_of_add_right_le room) ?_
    refine ih at'.next (fun v member => plain v (List.mem_cons_of_mem w member))
      (fun impossible => absurd impossible (Nat.succ_ne_zero _)) ?_ ?_
    · rwa [length_addAll]
    · rw [List.length_cons] at next
      rw [show start + 1 + ws.length = start + (ws.length + 1) by omega, addAll_append]
      exact next

/-- These variants are printed behind the buffer, and something is left in it. -/
def Out.emit (out : Out) (more : List Char) (wss : List (List Word)) : Out :=
  ⟨out.outbuf ++ more, out.printed ++ wss.map fun ws => out.outbuf ++ textOf ws⟩

theorem emit_addAll (ws : List Word) (more : List Char) (wss : List (List Word)) :
    (out.addAll ws).emit more wss = out.emit (textOf ws ++ more) (wss.map (ws ++ ·)) := by
  simp only [Out.emit, Out.addAll, List.append_assoc, List.map_map, Function.comp_def,
    textOf_append]

/-- Something is printed in every variant. -/
def Shown (out : Out) (items : List (Item Word)) : Prop :=
  (∃ c ∈ out.outbuf, c ≠ ' ') ∨ Mandatory items

theorem emit_emit (more more' : List Char) (vss wss : List (List Word)) :
    Out.emit ⟨out.outbuf, (out.emit more vss).printed⟩ more' wss =
      out.emit more' (vss ++ wss) := by
  simp only [Out.emit, List.map_append, List.append_assoc]

theorem not_shown_addAll {ws : List Word} (blank : ¬ Shown (out.addAll ws) items) :
    ¬ Shown out items := by
  rintro (⟨c, member, other⟩ | mandatory)
  · exact blank (.inl ⟨c, List.mem_append_left _ member, other⟩)
  · exact blank (.inr mandatory)

theorem shown_word {w : Word} (plain : Plain w) : Shown (out.addAll [w]) items := by
  obtain ⟨c, v, rfl⟩ := List.exists_cons_of_ne_nil plain.1
  refine .inl ⟨c, by simp [Out.addAll, textOf], ?_⟩
  rintro rfl
  exact absurd (plain.2 ' ' List.mem_cons_self).1 (by decide)

theorem mandatory_group {ws : List Word} :
    Mandatory (.group ws :: items) ↔ Mandatory items := by
  constructor
  · rintro ⟨w, member⟩
    rcases List.mem_cons.mp member with impossible | later
    · cases impossible
    · exact ⟨w, later⟩
  · rintro ⟨w, member⟩
    exact ⟨w, List.mem_cons_of_mem _ member⟩

theorem head_itemTokens (plain : ∀ w ∈ items.flatMap Item.words, Plain w) :
    ∀ w ∈ (items.flatMap itemTokens).head?, starts ']' w = false := by
  intro w first
  cases items with
  | nil => cases first
  | cons item items =>
    cases item with
    | word v =>
      cases first
      exact (plain w List.mem_cons_self).starts.2
    | group ws =>
      cases first
      rfl

/-- All variants of what is left are printed behind the buffer, or nothing but blanks is. -/
theorem parses_items (short : targv.length ≤ maxTokensPerLine)
    (at' : At targv start (items.flatMap itemTokens))
    (plain : ∀ w ∈ items.flatMap Item.words, Plain w) (fresh : start = 0 → out.outbuf = [])
    (room : out.outbuf.length + spread (items.flatMap Item.words) ≤ maxLine) :
    (∃ more, Parses targv start out (.ok (out.emit more (variants items)))) ∨
    ¬ Shown out items ∧ Parses targv start out (.error .before) := by
  induction items generalizing start out with
  | nil =>
    have printed := parses_nil short at' fresh
    by_cases blank : (out.outbuf.all (· = ' ')) = true
    · rw [printCmd, if_pos blank] at printed
      refine .inr ⟨?_, printed⟩
      rintro (⟨c, member, other⟩ | ⟨w, absent⟩)
      · exact other (by simpa using List.all_eq_true.mp blank c member)
      · cases absent
    · rw [printCmd, if_neg blank] at printed
      refine .inl ⟨[], ?_⟩
      rw [Out.emit, variants_nil, List.map_singleton, textOf, List.flatMap_nil, List.append_nil]
      exact printed
  | cons item items ih =>
    rw [List.flatMap_cons, spread_append, ← Nat.add_assoc] at room
    rw [List.flatMap_cons] at at' plain
    have later := fun w member => plain w (List.mem_append_right _ member)
    cases item with
    | word w =>
      have whole := plain w List.mem_cons_self
      have parsed := @ih (start+1) (out.addAll [w]) at'.next later
        (fun impossible => absurd impossible (Nat.succ_ne_zero _)) (by rwa [length_addAll])
      rcases parsed with ⟨more, parsed⟩ | ⟨blank, -⟩
      · rw [emit_addAll] at parsed
        rw [variants_word]
        exact .inl ⟨_, parses_word short at' whole fresh (Nat.le_of_add_right_le room) parsed⟩
      · exact absurd (shown_word whole) blank
    | group ws =>
      have inside : ∀ w ∈ ws, Plain w := fun w member => plain w (List.mem_append_left _ member)
      have grouped : At targv start (['['] :: ws ++ [']'] :: items.flatMap itemTokens) := by
        simpa [itemTokens] using at'
      have closed : At targv (start + 1 + ws.length) ([']'] :: items.flatMap itemTokens) :=
        grouped.next.skip
      have behind : At targv (start + ws.length + 2) (items.flatMap itemTokens) := by
        convert closed.next using 1
        omega
      rcases @ih (start + ws.length + 2) out behind later
          (fun impossible => absurd impossible (Nat.succ_ne_zero _)) (by omega) with
        ⟨more, without⟩ | ⟨blank, without⟩
      · -- the buffer is cut back to what it was
        obtain ⟨cut, cutEq⟩ : ∃ cut : Out,
            cut = ⟨out.outbuf, (out.emit more (variants items)).printed⟩ := ⟨_, rfl⟩
        have roomCut : cut.outbuf.length + spread ws ≤ maxLine := by
          rw [cutEq]
          exact Nat.le_of_add_right_le room
        have step {r : Except Stop Out}
            (next : Parses targv (start + ws.length + 2) (cut.addAll ws) r) :
            Parses targv start out r := by
          refine parses_group short grouped inside fresh without ?_
          have same : { out.emit more (variants items) with
              outbuf := (out.emit more (variants items)).outbuf.take out.outbuf.length } = cut := by
            rw [cutEq, Out.emit, List.take_left]
          rw [same]
          refine parses_words short grouped.next inside (fun impossible =>
            absurd impossible (Nat.succ_ne_zero _)) roomCut ?_
          refine parses_close short closed (fun impossible => absurd impossible (by omega))
            (head_itemTokens later) ?_
          rwa [show start + 1 + ws.length + 1 = start + ws.length + 2 by omega]
        rcases @ih (start + ws.length + 2) (cut.addAll ws) behind later
            (fun impossible => absurd impossible (Nat.succ_ne_zero _)) (by
              rw [length_addAll, cutEq]; exact room) with ⟨more', chosen⟩ | ⟨blank, chosen⟩
        · rw [emit_addAll, cutEq, emit_emit, ← variants_group] at chosen
          rw [cutEq] at step
          exact .inl ⟨_, step chosen⟩
        · refine .inr ⟨fun shown => not_shown_addAll blank ?_, step chosen⟩
          rw [cutEq]
          rcases shown with solid | mandatory
          · exact .inl solid
          · exact .inr (mandatory_group.mp mandatory)
      · refine .inr ⟨?_, parses_group_error short grouped inside fresh without⟩
        rintro (solid | mandatory)
        · exact blank (.inl solid)
        · exact blank (.inr (mandatory_group.mp mandatory))

theorem parses_cut (short : targv.length ≤ maxTokensPerLine) {ws : List Word}
    (at' : At targv start (items.flatMap itemTokens ++ ['['] :: ws))
    (plain : ∀ w ∈ items.flatMap Item.words, Plain w) (open' : ∀ w ∈ ws, Plain w)
    (fresh : start = 0 → out.outbuf = [])
    (room : out.outbuf.length + spread (items.flatMap Item.words) ≤ maxLine) :
    Parses targv start out (.error .null) := by
  induction items generalizing start out with
  | nil => exact parses_open short at' open' fresh
  | cons item items ih =>
    rw [List.flatMap_cons, spread_append, ← Nat.add_assoc] at room
    rw [List.flatMap_cons] at plain
    rw [List.flatMap_cons, List.append_assoc] at at'
    have later := fun w member => plain w (List.mem_append_right _ member)
    cases item with
    | word w =>
      refine parses_word short at' (plain w List.mem_cons_self) fresh
        (Nat.le_of_add_right_le room) ?_
      exact ih at'.next later (fun impossible => absurd impossible (Nat.succ_ne_zero _))
        (by rwa [length_addAll])
    | group vs =>
      have inside : ∀ w ∈ vs, Plain w := fun w member => plain w (List.mem_append_left _ member)
      have grouped : At targv start
          (['['] :: vs ++ [']'] :: (items.flatMap itemTokens ++ ['['] :: ws)) := by
        simpa [itemTokens] using at'
      have closed : At targv (start + 1 + vs.length)
          ([']'] :: (items.flatMap itemTokens ++ ['['] :: ws)) := grouped.next.skip
      have behind : At targv (start + vs.length + 2)
          (items.flatMap itemTokens ++ ['['] :: ws) := by
        convert closed.next using 1
        omega
      refine parses_group_error short grouped inside fresh ?_
      exact ih behind later (fun impossible => absurd impossible (Nat.succ_ne_zero _)) (by omega)

/-- Where the tokens are cut: between two items, or inside a group. -/
theorem take_itemTokens {n : Nat} (inside : n < (items.flatMap itemTokens).length) :
    ∃ front back, items = front ++ back ∧ back ≠ [] ∧
      ((items.flatMap itemTokens).take n = front.flatMap itemTokens ∨
        ∃ ws k, Item.group ws ∈ back ∧ (items.flatMap itemTokens).take n =
          front.flatMap itemTokens ++ ['['] :: ws.take k) := by
  induction items generalizing n with
  | nil => exact absurd inside (Nat.not_lt_zero n)
  | cons item items ih =>
    by_cases whole : (itemTokens item).length ≤ n
    · rw [List.flatMap_cons, List.length_append] at inside
      obtain ⟨front, back, rfl, some', either⟩ := ih (n := n - (itemTokens item).length) (by omega)
      refine ⟨item :: front, back, rfl, some', ?_⟩
      rw [List.flatMap_cons, List.take_append, List.take_of_length_le whole, List.flatMap_cons]
      rcases either with cut | ⟨ws, k, member, cut⟩
      · exact .inl (by rw [cut])
      · exact .inr ⟨ws, k, member, by rw [cut, List.append_assoc]⟩
    · refine ⟨[], item :: items, rfl, List.cons_ne_nil _ _, ?_⟩
      rw [List.flatMap_cons, List.take_append_of_le_length (by omega)]
      cases item with
      | word w =>
        have zero : n = 0 := by
          simp only [itemTokens, List.length_singleton] at whole
          omega
        rw [zero]
        exact .inl rfl
      | group ws =>
        cases n with
        | zero => exact .inl rfl
        | succ n =>
          refine .inr ⟨ws, n, List.mem_cons_self, ?_⟩
          simp only [itemTokens, List.length_append, List.length_cons, List.length_nil] at whole
          rw [itemTokens, List.cons_append, List.take_succ_cons,
            List.take_append_of_le_length (by omega)]
          rfl

theorem variants_ne_of_cut {front back : List (Item Word)} (some' : back ≠ []) :
    variants front ≠ variants (front ++ back) := by
  intro same
  by_cases none : groups back = 0
  · obtain ⟨_, first⟩ := @variants_head _ front
    obtain ⟨_, first'⟩ := @variants_head _ (front ++ back)
    rw [first, first', groups_append, none, Nat.add_zero, pick_append_words none] at same
    have nothing := (List.cons.inj same).1
    rw [List.self_eq_append_right, List.flatMap_eq_nil_iff] at nothing
    obtain ⟨item, rest, rfl⟩ := List.exists_cons_of_ne_nil some'
    have empty := nothing item List.mem_cons_self
    cases item with
    | word w => cases empty
    | group ws => exact absurd none (Nat.succ_ne_zero _)
  · have lengths := congrArg List.length same
    rw [length_variants, length_variants, groups_append] at lengths
    have fewer := Nat.pow_lt_pow_right (show 1 < 2 by decide)
      (show groups front < groups front + groups back by omega)
    omega

end Variants

section Lines

variable {cmd : List Char} {items : List (Item Word)} {c : Char}

theorem filter_words (text : List Char) :
    (words text).flatten.filter isBracket = text.filter isBracket := by
  have other : ∀ c, isBlank c = true → isBracket c = false := by
    intro c blank
    rw [isBlank, Bool.or_eq_true, decide_eq_true_eq, decide_eq_true_eq] at blank
    rcases blank with rfl | rfl
    · rfl
    · rfl
  induction text using text_induction with
  | empty => rw [words_nil]; rfl
  | blank c str blank ih =>
    rw [words_blank blank, ih, List.filter_cons_of_neg (by rw [other c blank]; decide)]
  | word w some' whole => rw [words_word some' whole, List.flatten_singleton]
  | more w c str some' whole blank ih =>
    rw [words_append some' whole blank, List.flatten_cons, List.filter_append, List.filter_append,
      ih, List.filter_cons_of_neg (by rw [other c blank]; decide)]

theorem filter_spaced (cmd : List Char) :
    (spaced cmd).filter isBracket = cmd.filter isBracket := by
  induction cmd with
  | nil => rfl
  | cons d cmd ih =>
    rw [spaced, List.flatMap_cons, List.filter_append, ← spaced, ih]
    cases bracket : isBracket d with
    | true =>
      have space : isBracket ' ' = false := rfl
      simp [bracket, space]
    | false => simp [bracket]

theorem filter_tokens (cmd : List Char) :
    (tokens cmd).flatten.filter isBracket = cmd.filter isBracket := by
  rw [tokens, filter_words, filter_spaced]

theorem length_spaced (cmd : List Char) :
    (spaced cmd).length = cmd.length + 2 * (cmd.count '[' + cmd.count ']') := by
  induction cmd with
  | nil => rfl
  | cons d cmd ih =>
    rw [spaced, List.flatMap_cons, List.length_append, ← spaced, ih, List.length_cons,
      List.count_cons, List.count_cons]
    by_cases opens : d = '['
    · subst opens
      simp [isBracket]
      omega
    · by_cases closes : d = ']'
      · subst closes
        simp [isBracket]
        omega
      · simp [isBracket, opens, closes]
        omega

theorem spaced_of_noBrackets (none : ∀ c ∈ cmd, isBracket c = false) : spaced cmd = cmd := by
  induction cmd with
  | nil => rfl
  | cons d cmd ih =>
    rw [spaced, List.flatMap_cons, if_neg (by rw [none d List.mem_cons_self]; decide), ← spaced,
      ih fun c member => none c (List.mem_cons_of_mem d member)]
    rfl

theorem spread_itemTokens (items : List (Item Word)) :
    spread (items.flatMap itemTokens) =
      spread (items.flatMap Item.words) + 4 * groups items := by
  induction items with
  | nil => rfl
  | cons item items ih =>
    rw [List.flatMap_cons, List.flatMap_cons, spread_append, spread_append, ih]
    cases item with
    | word w =>
      rw [groups, itemTokens, Item.words]
      omega
    | group ws =>
      have brackets : spread [['[']] = 2 ∧ spread [[']']] = 2 := ⟨rfl, rfl⟩
      rw [groups, itemTokens, Item.words, spread_append, spread_cons, brackets.1, brackets.2]
      omega

theorem count_itemTokens (plain : ∀ w ∈ items.flatMap Item.words, ∀ c ∈ w, isBracket c = false) :
    (items.flatMap itemTokens).flatten.count '[' = groups items ∧
      (items.flatMap itemTokens).flatten.count ']' = groups items := by
  have absent : ∀ ws : List Word, (∀ w ∈ ws, ∀ c ∈ w, isBracket c = false) →
      ws.flatten.count '[' = 0 ∧ ws.flatten.count ']' = 0 := by
    intro ws plain
    rw [List.count_eq_zero, List.count_eq_zero]
    constructor
    · intro member
      obtain ⟨w, inside, bracket⟩ := List.mem_flatten.mp member
      exact absurd (plain w inside _ bracket) (by decide)
    · intro member
      obtain ⟨w, inside, bracket⟩ := List.mem_flatten.mp member
      exact absurd (plain w inside _ bracket) (by decide)
  induction items with
  | nil => exact ⟨rfl, rfl⟩
  | cons item items ih =>
    rw [List.flatMap_cons] at plain
    obtain ⟨opened, closed⟩ := ih fun w member => plain w (List.mem_append_right _ member)
    have own := absent item.words fun w member => plain w (List.mem_append_left _ member)
    rw [List.flatMap_cons, List.flatten_append, List.count_append, List.count_append, opened,
      closed]
    cases item with
    | word w =>
      rw [Item.words] at own
      rw [itemTokens, own.1, own.2, groups]
      omega
    | group ws =>
      rw [Item.words] at own
      rw [itemTokens, List.flatten_append, List.flatten_cons, List.count_append, List.count_append,
        List.count_append, List.count_append, own.1, own.2, groups]
      simp
      omega

end Lines

section Description

variable {cmd : List Char} {items : List (Item Word)}

theorem Describes.plain_words (described : Describes cmd items) :
    ∀ w ∈ items.flatMap Item.words, Plain w := by
  intro w member
  have token : w ∈ CmdParser.tokens cmd := by
    obtain ⟨item, inside, own⟩ := List.mem_flatMap.mp member
    rw [described.tokens]
    refine List.mem_flatMap.mpr ⟨item, inside, ?_⟩
    cases item with
    | word v => exact own
    | group ws => exact List.mem_append_left _ (List.mem_cons_of_mem _ own)
  obtain ⟨some', solid⟩ := solid_of_mem_words (spaced cmd) w token
  exact ⟨some', fun c inside => ⟨solid c inside, described.plain w member c inside⟩⟩

theorem Describes.brackets (described : Describes cmd items) :
    cmd.count '[' = groups items ∧ cmd.count ']' = groups items := by
  have brackets := count_itemTokens described.plain
  rw [← described.tokens, ← List.count_filter (p := isBracket) (a := '[') rfl,
    ← List.count_filter (p := isBracket) (a := ']') rfl, filter_tokens, List.count_filter rfl,
    List.count_filter rfl] at brackets
  exact brackets

theorem Describes.spread_le (described : Describes cmd items) :
    spread (items.flatMap Item.words) ≤ cmd.length + 1 := by
  have all : spread (CmdParser.tokens cmd) ≤ (spaced cmd).length + 1 := spread_words (spaced cmd)
  rw [described.tokens, spread_itemTokens, length_spaced, described.brackets.1,
    described.brackets.2] at all
  omega

end Description

section Expansion

variable {cmd : List Char} {items : List (Item Word)}

theorem itemTokens_of_words (none : groups items = 0) :
    items.flatMap itemTokens = items.flatMap Item.words := by
  induction items with
  | nil => rfl
  | cons item items ih =>
    cases item with
    | word w => exact congrArg (w :: ·) (ih none)
    | group ws => exact absurd none (Nat.succ_ne_zero _)

theorem expandsToAll_of_words (described : Describes cmd items) (mandatory : Mandatory items)
    (none : groups items = 0) : ExpandsToAll cmd items := by
  obtain ⟨opened, closed⟩ := described.brackets
  rw [none, List.count_eq_zero] at opened closed
  have noBracket : ∀ c ∈ cmd, isBracket c = false := by
    intro c member
    rw [isBracket, Bool.or_eq_false_iff, decide_eq_false_iff_not, decide_eq_false_iff_not]
    constructor
    · rintro rfl
      exact opened member
    · rintro rfl
      exact closed member
  have only : words cmd = items.flatMap Item.words := by
    rw [← itemTokens_of_words none, ← described.tokens, tokens, spaced_of_noBrackets noBracket]
  obtain ⟨w, member⟩ := mandatory
  have solid : cmd.all (· = ' ') = false := by
    rw [List.all_eq_false]
    by_contra blank
    push Not at blank
    have blanks : ∀ text : List Char, (∀ c ∈ text, c = ' ') → words text = [] := by
      intro text all
      induction text with
      | nil => exact words_nil
      | cons c text ih =>
        rw [all c List.mem_cons_self, words_blank rfl]
        exact ih fun d inside => all d (List.mem_cons_of_mem c inside)
    have word : w ∈ words cmd := by
      rw [only]
      exact List.mem_flatMap.mpr ⟨_, member, List.mem_singleton_self w⟩
    rw [blanks cmd fun c inside => by simpa using blank c inside] at word
    cases word
  refine ⟨[cmd], ?_, ?_, ?_⟩
  · rw [expandCmd, List.count_eq_zero.mpr opened, List.count_eq_zero.mpr closed, if_neg (by simp),
      if_pos rfl, printCmd, solid]
    rfl
  · rw [none]
    rfl
  · rw [List.map_singleton, only, variants, none, choices, List.map_singleton,
      pick_of_groups_eq_zero none]

theorem expandCmd_eq (described : Describes cmd items) (some' : groups items ≠ 0)
    {r : Except Stop Out}
    (parses : Parses ((tokens cmd).take maxTokensPerLine) 0 ⟨[], []⟩ r) :
    expandCmd cmd = r.map Out.printed := by
  obtain ⟨opened, closed⟩ := described.brackets
  rw [expandCmd, opened, closed, if_neg (by simp), if_neg some', tokenize, split_eq]
  congr 1
  refine parses _ ?_
  have short : ((tokens cmd).take maxTokensPerLine).length ≤ maxTokensPerLine :=
    List.length_take_le _ _
  omega

theorem words_emit {wss : List (List Word)} {more : List Char} {all : List Word}
    (plain : ∀ w ∈ all, Plain w) (inside : ∀ ws ∈ wss, ∀ w ∈ ws, w ∈ all) :
    (Out.emit ⟨[], []⟩ more wss).printed.map words = wss := by
  change (wss.map fun ws => textOf ws).map words = wss
  rw [List.map_map]
  refine (List.map_congr_left fun ws member => ?_).trans (List.map_id wss)
  exact words_textOf fun w own =>
    have whole := plain w (inside ws member w own)
    ⟨whole.1, fun c char => (whole.2 c char).1⟩

theorem expandsToAll_of_fits (described : Describes cmd items) (mandatory : Mandatory items)
    (some' : groups items ≠ 0) (short : cmd.length < maxLine)
    (fits : (tokens cmd).length ≤ maxTokensPerLine) : ExpandsToAll cmd items := by
  have plain := described.plain_words
  have room : ([] : List Char).length + spread (items.flatMap Item.words) ≤ maxLine := by
    have length := described.spread_le
    rw [List.length_nil]
    omega
  have whole : (tokens cmd).take maxTokensPerLine = items.flatMap itemTokens := by
    rw [List.take_of_length_le fits, described.tokens]
  have few : ((tokens cmd).take maxTokensPerLine).length ≤ maxTokensPerLine :=
    List.length_take_le _ _
  rcases @parses_items _ 0 ⟨[], []⟩ _ few ⟨[], whole, rfl⟩ plain (fun _ => rfl) room with
    ⟨more, parses⟩ | ⟨hidden, -⟩
  · refine ⟨_, expandCmd_eq described some' parses, ?_, ?_⟩
    · exact List.length_map _ |>.trans (length_variants items)
    · apply words_emit plain
      intro ws variant w own
      obtain ⟨choice, -, rfl⟩ := List.mem_map.mp variant
      exact mem_of_mem_pick own
  · exact absurd (.inr mandatory) hidden

/-- Where the tokens are cut off, the variants of the line are not what is registered. -/
theorem not_expandsToAll_of_cut (described : Describes cmd items) (some' : groups items ≠ 0)
    (short : cmd.length < maxLine) (cut : maxTokensPerLine < (tokens cmd).length) :
    ¬ ExpandsToAll cmd items := by
  rintro ⟨texts, run, -, same⟩
  have plain := described.plain_words
  have length := described.spread_le
  have few : ((tokens cmd).take maxTokensPerLine).length ≤ maxTokensPerLine :=
    List.length_take_le _ _
  rw [described.tokens] at cut
  obtain ⟨front, back, rfl, behind, taken⟩ := take_itemTokens cut
  rw [← described.tokens] at taken
  rw [List.flatMap_append] at plain length
  rw [spread_append] at length
  have inside : ∀ w ∈ front.flatMap Item.words, Plain w := fun w member =>
    plain w (List.mem_append_left _ member)
  have room : ([] : List Char).length + spread (front.flatMap Item.words) ≤ maxLine := by
    rw [List.length_nil]
    omega
  rcases taken with between | ⟨ws, k, group, within⟩
  · rcases @parses_items _ 0 ⟨[], []⟩ _ few ⟨[], between, rfl⟩ inside (fun _ => rfl) room with
      ⟨more, parses⟩ | ⟨-, parses⟩
    · rw [expandCmd_eq described some' parses] at run
      cases run
      refine variants_ne_of_cut behind (Eq.trans ?_ same)
      symm
      apply words_emit inside
      intro ws variant w own
      obtain ⟨choice, -, rfl⟩ := List.mem_map.mp variant
      exact mem_of_mem_pick own
    · rw [expandCmd_eq described some' parses] at run
      cases run
  · have open' : ∀ w ∈ ws.take k, Plain w := fun w member =>
      plain w (List.mem_append_right _
        (List.mem_flatMap.mpr ⟨_, group, List.mem_of_mem_take member⟩))
    have parses := @parses_cut _ 0 ⟨[], []⟩ _ few _ ⟨[], within, rfl⟩ inside open'
      (fun _ => rfl) room
    rw [expandCmd_eq described some' parses] at run
    cases run

/-- The brackets are tokens too, and there are slots for so many. -/
theorem expandsToAll_iff (described : Describes cmd items) (mandatory : Mandatory items)
    (short : cmd.length < maxLine) :
    ExpandsToAll cmd items ↔ groups items = 0 ∨ (tokens cmd).length ≤ maxTokensPerLine := by
  by_cases none : groups items = 0
  · exact iff_of_true (expandsToAll_of_words described mandatory none) (.inl none)
  · constructor
    · intro all
      by_contra neither
      push Not at neither
      exact not_expandsToAll_of_cut described none short neither.2 all
    · rintro (impossible | fits)
      · exact absurd impossible none
      · exact expandsToAll_of_fits described mandatory none short fits

theorem expandsToAll_debug :
    ExpandsToAll "[no] debug rip [events]".toList
      [.group ["no".toList], .word "debug".toList, .word "rip".toList, .group ["events".toList]] :=
  (expandsToAll_iff ⟨by decide, by simp [Item.words, isBracket]⟩
    ⟨_, List.mem_cons_of_mem _ List.mem_cons_self⟩ (by decide)).mpr (.inr (by decide))

theorem tokens_group {w : Word} (plain : Plain w) (rest : List Char) :
    tokens ('[' :: w ++ ']' :: rest) = ['['] :: w :: [']'] :: tokens rest := by
  have solid : ∀ c ∈ w, isBlank c = false := fun c member => (plain.2 c member).1
  have parts : spaced ('[' :: w ++ ']' :: rest) =
      ' ' :: (['['] ++ ' ' :: (w ++ ' ' :: ([']'] ++ ' ' :: spaced rest))) := by
    have inside := spaced_of_noBrackets fun c member => (plain.2 c member).2
    rw [spaced, List.cons_append, List.flatMap_cons, List.flatMap_append, ← spaced, inside,
      List.flatMap_cons, ← spaced]
    rfl
  have single : ∀ c ∈ ['['] ++ [']'], isBlank c = false := by simp [isBlank]
  rw [tokens, parts, words_blank rfl,
    words_append (List.cons_ne_nil _ _) (fun c own => single c (List.mem_append_left _ own)) rfl,
    words_append plain.1 solid rfl,
    words_append (List.cons_ne_nil _ _) (fun c own => single c (List.mem_append_right _ own)) rfl,
    tokens]

/-- Three hundred optional words of one letter, and one word: the brackets do not fit. -/
theorem not_expandsToAll_letters :
    ∃ cmd items, Describes cmd items ∧ Mandatory items ∧ cmd.length < maxLine ∧
      (items.flatMap Item.words).length < maxTokensPerLine ∧ ¬ ExpandsToAll cmd items := by
  have letter : Plain ['a'] := ⟨List.cons_ne_nil _ _, by simp [isBlank, isBracket]⟩
  have tokensOf : ∀ n, tokens ((List.replicate n ['[', 'a', ']']).flatten ++ ['b']) =
      (List.replicate n (Item.group [['a']]) ++ [Item.word ['b']]).flatMap itemTokens := by
    intro n
    induction n with
    | zero => decide
    | succ n ih =>
      rw [List.replicate_succ, List.replicate_succ, List.flatten_cons]
      exact (tokens_group letter _).trans (congrArg ([['['], ['a'], [']']] ++ ·) ih)
  have described : Describes ((List.replicate 300 ['[', 'a', ']']).flatten ++ ['b'])
      (List.replicate 300 (Item.group [['a']]) ++ [Item.word ['b']]) := by
    refine ⟨tokensOf 300, fun w member => ?_⟩
    rw [List.flatMap_append, List.mem_append, List.mem_flatMap] at member
    rcases member with ⟨item, optional, own⟩ | last
    · rw [List.eq_of_mem_replicate optional] at own
      rw [List.mem_singleton.mp own]
      simp [isBracket]
    · rw [List.mem_singleton.mp last]
      simp [isBracket]
  have short : ((List.replicate 300 ['[', 'a', ']']).flatten ++ ['b']).length < maxLine := by
    decide +kernel
  refine ⟨_, _, described, ⟨['b'], List.mem_append_right _ (List.mem_singleton_self _)⟩, short,
    by decide +kernel, not_expandsToAll_of_cut described (by decide +kernel) short ?_⟩
  rw [described.tokens]
  decide +kernel

end Expansion

end CmdParser
