import Rcp100.LiteralLookup
import Rcp100.Mux
import Rcp100.PrintedNumbers
import Mathlib.Data.List.TakeWhile

/-!
# The command line

A line is looked up with its output modifiers, which are nodes of the tree below the show
commands. Then it is cut at its first bar and looked up again, and the second node is
executed. The parser sees words, the cut sees characters, so a bar inside a word shortens
the command that is executed.
-/

namespace CommandLine

open WordTrie CliParser LiteralLookup
open Mux (Proc rcpProcRip rcpProcDhcp rcpProcOspf)

section Modes

def climodeNone : CliMode := 0
def climodeLogin : CliMode := 1
def climodeEnable : CliMode := 1 <<< 1
def climodeConfig : CliMode := 1 <<< 2
def climodeInterface : CliMode := 1 <<< 3
def climodeInterfaceLoopback : CliMode := 1 <<< 4
def climodeInterfaceBridge : CliMode := 1 <<< 5
def climodeInterfaceVlan : CliMode := 1 <<< 6
def climodeRip : CliMode := 1 <<< 7
def climodeDhcpRelay : CliMode := 1 <<< 8
def climodeTunnelIpsec : CliMode := 1 <<< 9
def climodeOspf : CliMode := 1 <<< 10
def climodeDhcpServer : CliMode := 1 <<< 12
def climodeDhcpNetwork : CliMode := 1 <<< 13

/-- The modes that are entered from the configuration mode. -/
def configured : List CliMode :=
  [climodeInterface, climodeInterfaceLoopback, climodeInterfaceBridge, climodeInterfaceVlan,
    climodeRip, climodeDhcpRelay, climodeTunnelIpsec, climodeOspf, climodeDhcpServer]

def cliPreviousMode (mode : CliMode) : CliMode :=
  if mode = climodeLogin then climodeNone
  else if mode = climodeEnable then climodeLogin
  else if mode = climodeConfig then climodeEnable
  else if mode ∈ configured then climodeConfig
  else if mode = climodeDhcpNetwork then climodeDhcpServer
  else climodeNone

/-- In these modes a command is not tried again in the previous one. -/
def topModes : List CliMode := [climodeConfig, climodeLogin, climodeNone, climodeEnable]

/-- How often a command is tried again at most. -/
def retries (mode : CliMode) : Nat :=
  if mode ∈ topModes then 0 else if mode = climodeDhcpNetwork then 2 else 1

theorem retries_previous {mode : CliMode} (retried : mode ∉ topModes) :
    retries (cliPreviousMode mode) < retries mode := by
  have config : retries climodeConfig = 0 := by decide
  have server : retries climodeDhcpServer = 1 := by decide
  have none : retries climodeNone = 0 := by decide
  have apart : mode ≠ climodeLogin ∧ mode ≠ climodeEnable ∧ mode ≠ climodeConfig := by
    simp only [topModes, List.mem_cons, not_or] at retried
    exact ⟨retried.2.1, retried.2.2.2.1, retried.1⟩
  have some' : 0 < retries mode := by
    rw [retries, if_neg retried]
    split_ifs <;> decide
  rw [cliPreviousMode, if_neg apart.1, if_neg apart.2.1, if_neg apart.2.2]
  split_ifs with deeper network
  · rwa [config]
  · have two : retries mode = 2 := by rw [retries, if_neg retried, if_pos network]
    rw [server, two]
    decide
  · rwa [none]

end Modes

section OutputModifiers

def bar : Word := ['|']

/-- `cli_alloc_modifs`. -/
def omCommands : List String :=
  ["| count", "| file <file>", "| no-more", "| include <word>", "| exclude <word>",
    "| include <word> | count", "| include <word> | file <file>", "| include <word> | no-more",
    "| include <word> | exclude <word>", "| include <word> | exclude <word> | count",
    "| include <word> | exclude <word> | file <file>",
    "| include <word> | exclude <word> | no-more", "| include <word> | include <word>",
    "| include <word> | include <word> | count",
    "| include <word> | include <word> | file <file>",
    "| include <word> | include <word> | no-more",
    "| include <word> | include <word> | exclude <word>",
    "| include <word> | include <word> | exclude <word> | count",
    "| include <word> | include <word> | exclude <word> | file <file>",
    "| include <word> | include <word> | exclude <word> | no-more"]

def cliAllocModifs : Option (Trie Word Label) :=
  addAll (omCommands.map fun cmd => ⟨climodeAll, cmd.toList⟩)
    (.node bar (createNode climodeAll) .nil .nil)

/-- The list with another one behind it. -/
def chain (om : Trie Word Label) : Trie Word Label → Trie Word Label
  | .nil => om
  | .node key label rule next => .node key label rule (chain om next)

/-- The modifiers end the list of their parent, and the walk does not go into them. -/
def addOm (om : Trie Word Label) : Trie Word Label → Trie Word Label
  | .nil => .nil
  | .node key label rule next =>
    if key = bar then .node key label (if label.exe = 0 then rule else chain om rule) next
    else
      let rule' := addOm om rule
      .node key label (if label.exe = 0 then rule' else chain om rule') (addOm om next)

/-- The first node with the token and a mode gets another list below it. -/
def changeRule (w : Word) (f : Trie Word Label → Trie Word Label) :
    Trie Word Label → Trie Word Label
  | .nil => .nil
  | .node key label rule next =>
    if key = w ∧ visibleToAll label = true then .node key label (f rule) next
    else .node key label rule (changeRule w f next)

/-- Nothing is returned when the command `show` is not found. -/
def cliParserAddOM (special : Word → Word → Bool) (om head : Trie Word Label) :
    Option (Trie Word Label) :=
  (findToken special climodeAll head noOp "show".toList).2.map fun n =>
    changeRule n.1 (addOm om) head

end OutputModifiers

section Commands

/-- What the rest of the program has for the node of a command, and the debug mode. -/
structure Session where
  cliDbg : Bool
  /-- The node has a question that the user did not accept. -/
  declined : Bool
  /-- The table of this process has a function for the node. -/
  function : Bool
  owner : Proc

inductive Call where
  | cliExecNode (mode : CliMode) (n : CliNode) (cmd : List Char)
  | cliSendMux (mode : CliMode) (cmd : List Char) (destination : Proc) (n : CliNode)

inductive Outcome where
  | ignored
  | debugOnly
  | notFound (wordMultimatch : List Char)
  | nullNode
  | declined
  | passed (calls : List Call)
  | preserved (cliLineBuffer : List Char)

structure Done where
  outcome : Outcome
  lastCmdOk : Bool
  cmode : CliMode

def destination (s : Session) (mode : CliMode) (n : CliNode) : Proc :=
  if n.2.1.exe > 1 ∨ s.owner = 0 ∨ s.owner = rcpProcOspf ||| rcpProcRip then
    if mode = climodeOspf then rcpProcOspf
    else if mode = climodeRip then rcpProcRip
    else if mode = climodeDhcpServer then rcpProcDhcp
    else s.owner
  else s.owner

/-- A command that is not found in this process goes to the multiplexer. -/
def calls (s : Session) (mode : CliMode) (n : CliNode) (wordCompleted : List Char) : List Call :=
  .cliExecNode mode n wordCompleted ::
    if s.function then [] else [.cliSendMux mode wordCompleted (destination s mode n) n]

/-- The end of `cli_process_cmd`, with the node and the text of the last lookup. -/
def execute (s : Session) (mode : CliMode) (n : CliNode) (wordCompleted : List Char) : Done :=
  if 0 < n.2.1.exe ∧ mode &&& n.2.1.exeMode ≠ 0 then
    ⟨if s.declined then .declined else .passed (calls s mode n wordCompleted), true, mode⟩
  else ⟨.preserved wordCompleted, false, mode⟩

def isBlank (line : List Char) : Bool := line.all fun c => c = ' ' || c = '\t'

/-- The line without its output modifiers. -/
def cutLine (line : List Char) : List Char := line.takeWhile (· ≠ '|')

def debug : List Char := "debug".toList

/-- A command of which no word is found is tried again in the previous mode, which stays when
the command can be executed there. -/
def cliProcessCmd (special : Word → Word → Bool) (s : Session) (head : Trie Word Label)
    (mode : CliMode) (op : CliParserOp) (line : List Char) : Done :=
  if isBlank line then ⟨.ignored, false, mode⟩
  else
    match cliParserFindCmd special mode head op line with
    | none => ⟨.nullNode, false, mode⟩
    | some (op, n) =>
      if debug.isPrefixOf op.wordCompleted && !s.cliDbg then ⟨.debugOnly, false, mode⟩
      else if _ : op.lastNodeMatch.isNone = true ∧ mode ∉ topModes then
        let r := cliProcessCmd special s head (cliPreviousMode mode) op line
        { r with cmode := if r.lastCmdOk then r.cmode else mode }
      else
        match n with
        | none => ⟨.notFound op.wordMultimatch, false, mode⟩
        | some n =>
          if '|' ∈ line then
            match cliParserFindCmd special mode head op (cutLine line) with
            | some (op, some n) => execute s mode n op.wordCompleted
            | some (_, none) | none => ⟨.nullNode, false, mode⟩
          else execute s mode n op.wordCompleted
  termination_by retries mode
  decreasing_by exact retries_previous (And.right ‹_›)

end Commands

section Conditions

/-- The words before the first one that is a bar. -/
def command (line : List Char) : List Word := (wordsOf line).takeWhile (· ≠ bar)

/-- What is executed is found by the words before the first bar: their node, with their
completed text. Only the debug commands are refused before that. -/
def Faithful (special : Word → Word → Bool) (head : Trie Word Label) (mode : CliMode)
    (op : CliParserOp) (line : List Char) : Prop :=
  ∃ op' n, findWords special mode (command line) head noOp = (op', some n) ∧
    ∀ s, (cliProcessCmd special s head mode op line).outcome = .debugOnly ∧ s.cliDbg = false ∨
      cliProcessCmd special s head mode op line = execute s mode n op'.wordCompleted

/-- No word has a bar, or the first one that does is a bar and is not the first word. -/
def BarClear (words : List Word) : Prop :=
  ∀ w, words.find? (fun w => '|' ∈ w) = some w → w = bar ∧ words.head? ≠ some bar

/-- A token with a bar is a bar. -/
def BarWord (w : Word) : Prop := '|' ∈ w → w = bar

end Conditions

section Lookups

/-- The words are found one below the other. The last one has the node, and the text is made
from all of them. -/
inductive Finds (special : Word → Word → Bool) (mode : CliMode) :
    List Word → Trie Word Label → CliNode → List Char → Prop where
  | last {w : Word} {level : Trie Word Label} {n : CliNode}
      (found : (findToken special mode level noOp w).2 = some n) :
      Finds special mode [w] level n (findToken special mode level noOp w).1.wordCompleted
  | more {w : Word} {rest : List Word} {level : Trie Word Label} {n m : CliNode}
      {text : List Char} (found : (findToken special mode level noOp w).2 = some n)
      (below : Finds special mode rest n.2.2 m text) :
      Finds special mode (w :: rest) level m
        ((findToken special mode level noOp w).1.wordCompleted ++ text)

variable {special : Word → Word → Bool} {mode : CliMode} {level : Trie Word Label}
  {op : CliParserOp} {w : Word} {words : List Word} {n : CliNode} {text : List Char}

theorem findToken_completed (op : CliParserOp) (w : Word) :
    (findToken special mode level op w).1.wordCompleted =
      op.wordCompleted ++ (findToken special mode level noOp w).1.wordCompleted := by
  rw [findToken, findToken]
  split
  · simp [noOp]
  · split
    · simp [noOp]
    · dsimp only
      split <;> simp [noOp]

theorem findWords_finds (found : (findWords special mode words level op).2 = some n) :
    ∃ text, Finds special mode words level n text ∧
      (findWords special mode words level op).1.wordCompleted = op.wordCompleted ++ text ∧
      (findWords special mode words level op).1.lastNodeMatch = some n := by
  induction words generalizing level op with
  | nil => cases found
  | cons w rest ih =>
    have node := @findToken_node special mode level
      { op with wordMultimatch := [], word := w } noOp w
    have completed := @findToken_completed special mode level
      { op with wordMultimatch := [], word := w } w
    cases first : (findToken special mode level
        { op with wordMultimatch := [], word := w } w).2 with
    | none =>
      simp only [findWords, first] at found
      cases found
    | some c =>
      rw [first] at node
      cases rest with
      | nil =>
        simp only [findWords, first] at found ⊢
        cases found
        exact ⟨_, .last node.symm, completed, rfl⟩
      | cons v rest =>
        cases level' : c.2.2 with
        | nil =>
          simp only [findWords, first, level'] at found
          cases found
        | node key label rule next =>
          rw [findWords] at found ⊢
          simp only [first, level'] at found ⊢
          obtain ⟨text, finds, behind, last⟩ := ih found
          rw [← level'] at finds
          refine ⟨_, .more node.symm finds, ?_, last⟩
          rw [behind, completed, List.append_assoc]

theorem not_finds_nil (words : List Word) : ¬ Finds special mode words .nil n text := by
  intro finds
  cases finds with
  | last found => cases found
  | more found _ => cases found

theorem Finds.findWords (finds : Finds special mode words level n text) (op : CliParserOp) :
    (findWords special mode words level op).2 = some n := by
  induction finds generalizing op with
  | @last w level n found =>
    have node := @findToken_node special mode level
      { op with wordMultimatch := [], word := w } noOp w
    rw [found] at node
    simp only [CliParser.findWords, node]
  | @more w rest level n m text found below ih =>
    have node := @findToken_node special mode level
      { op with wordMultimatch := [], word := w } noOp w
    rw [found] at node
    cases rest with
    | nil => cases below
    | cons v rest =>
      cases level' : n.2.2 with
      | nil =>
        rw [level'] at below
        exact absurd below (not_finds_nil _)
      | node key label rule next =>
        rw [level'] at ih
        rw [CliParser.findWords]
        simp only [node, level']
        exact ih _

theorem Finds.unique (finds : Finds special mode words level n text) {n' : CliNode}
    {text' : List Char} (finds' : Finds special mode words level n' text') :
    n = n' ∧ text = text' := by
  induction finds generalizing text' with
  | last found =>
    cases finds' with
    | last found' =>
      rw [found] at found'
      exact ⟨Option.some.inj found', rfl⟩
    | more _ below => cases below
  | more found below ih =>
    cases finds' with
    | last => cases below
    | more found' below' =>
      rw [found] at found'
      cases found'
      obtain ⟨same, sameText⟩ := ih below'
      exact ⟨same, by rw [sameText]⟩

theorem Finds.front {front back : List Word} (some' : front ≠ [])
    (finds : Finds special mode (front ++ back) level n text) :
    ∃ m text', Finds special mode front level m text' := by
  induction front generalizing level n text with
  | nil => exact absurd rfl some'
  | cons w front ih =>
    cases front with
    | nil =>
      cases finds with
      | last found => exact ⟨_, _, .last found⟩
      | more found _ => exact ⟨_, _, .last found⟩
    | cons v front =>
      cases finds with
      | more found below =>
        obtain ⟨m, text', finds⟩ := ih (List.cons_ne_nil v front) below
        exact ⟨m, _, .more found finds⟩

theorem cliParserFindCmd_finds {head : Trie Word Label} {line : List Char} {op' : CliParserOp}
    (found : cliParserFindCmd special mode head op line = some (op', some n)) :
    Finds special mode (wordsOf line) head n op'.wordCompleted ∧ op'.lastNodeMatch = some n := by
  have isFound : findWords special mode (wordsOf line) head { op with
      wordCompleted := [], lastNodeMatch := none, wordMultimatch := [], depth := 0 } =
      (op', some n) := by
    unfold CliParser.cliParserFindCmd at found
    dsimp only at found
    split at found
    · cases found
    · exact Option.some.inj found
  obtain ⟨text, finds, completed, last⟩ := findWords_finds (congrArg Prod.snd isFound)
  rw [isFound] at completed last
  dsimp only at completed last
  rw [List.nil_append] at completed
  rw [completed]
  exact ⟨finds, last⟩

theorem Finds.cliParserFindCmd {head : Trie Word Label} {line : List Char}
    (finds : Finds special mode (wordsOf line) head n text) (op : CliParserOp) :
    ∃ op', cliParserFindCmd special mode head op line = some (op', some n) ∧
      op'.wordCompleted = text := by
  have nonNil : head ≠ .nil := by
    rintro rfl
    exact not_finds_nil _ finds
  have found := cliParserFindCmd_eq special mode nonNil op line
  generalize isFound : CliParser.findWords special mode (wordsOf line) head { op with
    wordCompleted := [], lastNodeMatch := none, wordMultimatch := [], depth := 0 } = r at found
  have node := finds.findWords { op with
    wordCompleted := [], lastNodeMatch := none, wordMultimatch := [], depth := 0 }
  obtain ⟨op', n'⟩ := r
  rw [isFound] at node
  cases node
  exact ⟨op', found, ((cliParserFindCmd_finds found).1.unique finds).2⟩

end Lookups

section Bars

variable {special : Word → Word → Bool} {mode : CliMode} {level : Trie Word Label}
  {w : Word} {words : List Word} {n : CliNode} {text : List Char}

theorem findToken_word (found : (findToken special mode level noOp w).2 = some n) :
    ∃ c, (findToken special mode level noOp w).1.wordCompleted = c ++ [' '] ∧
      (c = w ∨ c = n.1 ∧ w <+: c) := by
  cases exact : (siblings level).find?
      (fun n => !isSpecial n.1 && visible mode n && n.1 = w) with
  | some m =>
    simp only [findToken, exact] at found ⊢
    cases found
    have holds := List.find?_some exact
    simp only [Bool.and_eq_true, decide_eq_true_eq] at holds
    exact ⟨n.1, rfl, .inl holds.2⟩
  | none =>
    cases accepted : (siblings level).find?
        (fun n => isSpecial n.1 && visible mode n && special n.1 w) with
    | some m =>
      simp only [findToken, exact, accepted]
      exact ⟨w, rfl, .inl rfl⟩
    | none =>
      rcases only : (siblings level).filter
          (fun n => !isSpecial n.1 && visible mode n && w.isPrefixOf n.1) with
        _ | ⟨m, _ | ⟨second, others⟩⟩
      · simp only [findToken, exact, accepted, only] at found
        cases found
      · simp only [findToken, exact, accepted, only] at found ⊢
        cases found
        obtain ⟨-, holds⟩ := List.mem_filter.mp (only ▸ List.mem_cons_self)
        simp only [Bool.and_eq_true, List.isPrefixOf_iff_prefix] at holds
        exact ⟨n.1, rfl, .inr ⟨rfl, holds.2⟩⟩
      · simp only [findToken, exact, accepted, only] at found
        cases found

theorem findToken_bar (keys : AllKeys BarWord level) (some' : w ≠ [])
    (found : (findToken special mode level noOp w).2 = some n) :
    '|' ∈ (findToken special mode level noOp w).1.wordCompleted ↔ '|' ∈ w := by
  obtain ⟨c, completed, either⟩ := findToken_word found
  have own : '|' ∈ c ↔ '|' ∈ w := by
    rcases either with rfl | ⟨rfl, starts⟩
    · rfl
    · refine ⟨fun inside => ?_, fun inside => starts.subset inside⟩
      have isBar := (keys.of_mem (findToken_mem found).1).1 inside
      obtain ⟨d, rest, rfl⟩ := List.exists_cons_of_ne_nil some'
      rw [isBar, bar, List.cons_prefix_cons] at starts
      rw [starts.1]
      exact List.mem_cons_self
  rw [completed, List.mem_append, own]
  simp

theorem Finds.bar_iff (finds : Finds special mode words level n text)
    (keys : AllKeys BarWord level) (some' : ∀ w ∈ words, w ≠ []) :
    '|' ∈ text ↔ ∃ w ∈ words, '|' ∈ w := by
  induction finds with
  | last found =>
    rw [findToken_bar keys (some' _ List.mem_cons_self) found]
    simp
  | more found below ih =>
    have keys' := (keys.of_mem (findToken_mem found).1).2
    rw [List.mem_append, findToken_bar keys (some' _ List.mem_cons_self) found,
      ih keys' fun w member => some' w (List.mem_cons_of_mem _ member)]
    simp

end Bars

section Words

open PrintedNumbers (unblanked unblanked_blank unblanked_word unblanked_append wordsFrom_eq
  wordsFrom_blankFree getWordLen_split)

theorem line_induction {P : List Char → Prop} (empty : P [])
    (blank : ∀ str, P str → P (' ' :: str))
    (word : ∀ w, w ≠ [] → ' ' ∉ w → P w)
    (more : ∀ w str, w ≠ [] → ' ' ∉ w → P str → P (w ++ ' ' :: str)) (line : List Char) :
    P line := by
  induction size : line.length using Nat.strongRecOn generalizing line with
  | ind size ih =>
    subst size
    obtain ⟨w, rest, rfl, blankFree, -, behind⟩ := getWordLen_split line
    have shorter : ∀ str, rest = ' ' :: str → P str := by
      rintro str rfl
      refine ih str.length ?_ str rfl
      rw [List.length_append, List.length_cons]
      omega
    rcases behind with rfl | ⟨str, rfl⟩
    · rw [List.append_nil]
      cases w with
      | nil => exact empty
      | cons c w => exact word (c :: w) (List.cons_ne_nil c w) blankFree
    · cases w with
      | nil => exact blank str (shorter str rfl)
      | cons c w => exact more (c :: w) str (List.cons_ne_nil c w) blankFree (shorter str rfl)

theorem wordsOf_eq (line : List Char) : wordsOf line = unblanked line :=
  wordsFrom_eq (Nat.le_refl _)

theorem wordsOf_ne_nil {line : List Char} : ∀ w ∈ wordsOf line, w ≠ [] :=
  fun _ member => (wordsFrom_blankFree member).2

theorem bar_mem_iff (line : List Char) : '|' ∈ line ↔ ∃ w ∈ wordsOf line, '|' ∈ w := by
  rw [wordsOf_eq]
  induction line using line_induction with
  | empty => simp [unblanked]
  | blank str ih => simp [unblanked_blank, ih]
  | word w some' blankFree => simp [unblanked_word blankFree some']
  | more w str some' blankFree ih => simp [unblanked_append blankFree some', ih]

theorem cutLine_append {w : Word} (barFree : '|' ∉ w) (str : List Char) :
    cutLine (w ++ ' ' :: str) = w ++ ' ' :: cutLine str := by
  have all : ∀ c ∈ w, decide (c ≠ '|') = true := by
    intro c member
    rw [decide_eq_true_iff]
    rintro rfl
    exact barFree member
  rw [cutLine, List.takeWhile_append_of_pos all]
  rfl

theorem wordsOf_cutLine {line : List Char}
    (first : (wordsOf line).find? (fun w => '|' ∈ w) = some bar) :
    wordsOf (cutLine line) = command line := by
  rw [command]
  rw [wordsOf_eq] at first
  rw [wordsOf_eq, wordsOf_eq]
  induction line using line_induction with
  | empty => cases first
  | blank str ih =>
    rw [unblanked_blank] at first ⊢
    have cut : cutLine (' ' :: str) = ' ' :: cutLine str := rfl
    rw [cut, unblanked_blank]
    exact ih first
  | word w some' blankFree =>
    rw [unblanked_word blankFree some'] at first ⊢
    have isBar : w = bar := by
      rw [List.find?_singleton] at first
      split_ifs at first
      exact Option.some.inj first
    subst isBar
    rfl
  | more w str some' blankFree ih =>
    rw [unblanked_append blankFree some'] at first ⊢
    by_cases inside : '|' ∈ w
    · rw [List.find?_cons_of_pos (by simpa using inside)] at first
      cases first
      rfl
    · have other : w ≠ bar := by
        rintro rfl
        exact inside (List.mem_singleton_self _)
      rw [List.find?_cons_of_neg (by simpa using inside)] at first
      rw [cutLine_append inside, unblanked_append blankFree some', ih first,
        List.takeWhile_cons_of_pos (by simpa using other)]

theorem cutLine_bar (line : List Char) : ∀ w ∈ wordsOf (cutLine line), '|' ∉ w := by
  intro w member inside
  have barred : '|' ∈ cutLine line := (bar_mem_iff _).mpr ⟨w, member, inside⟩
  simpa using List.mem_takeWhile_imp barred

theorem mem_command {line : List Char} {w : Word}
    (first : (wordsOf line).find? (fun w => '|' ∈ w) = some w) (other : w ≠ bar) :
    w ∈ command line := by
  rw [command]
  generalize wordsOf line = words at first ⊢
  induction words with
  | nil => cases first
  | cons v words ih =>
    by_cases inside : '|' ∈ v
    · rw [List.find?_cons_of_pos (by simpa using inside)] at first
      cases first
      rw [List.takeWhile_cons_of_pos (by simpa using other)]
      exact List.mem_cons_self
    · have before : v ≠ bar := by
        rintro rfl
        exact inside (List.mem_singleton_self _)
      rw [List.find?_cons_of_neg (by simpa using inside)] at first
      rw [List.takeWhile_cons_of_pos (by simpa using before)]
      exact List.mem_cons_of_mem v (ih first)

end Words

section Executed

variable {special : Word → Word → Bool} {mode : CliMode} {head : Trie Word Label}
  {op op' : CliParserOp} {line : List Char} {n : CliNode} {text : List Char}

/-- In debug mode, the command that is found is the one that is executed, or what is found by
the cut line. -/
theorem cliProcessCmd_found
    (found : cliParserFindCmd special mode head op line = some (op', some n))
    (notBlank : isBlank line = false) (s : Session) :
    (cliProcessCmd special s head mode op line).outcome = .debugOnly ∧ s.cliDbg = false ∨
      cliProcessCmd special s head mode op line =
        if '|' ∈ line then
          match cliParserFindCmd special mode head op' (cutLine line) with
          | some (op, some n) => execute s mode n op.wordCompleted
          | some (_, none) | none => ⟨.nullNode, false, mode⟩
        else execute s mode n op'.wordCompleted := by
  have last := (cliParserFindCmd_finds found).2
  rw [cliProcessCmd, notBlank, found]
  simp only [Bool.false_eq_true, if_false, last, Option.isNone_some, false_and, dite_false]
  by_cases refused : (debug.isPrefixOf op'.wordCompleted && !s.cliDbg) = true
  · rw [if_pos refused]
    rw [Bool.and_eq_true, Bool.not_eq_true'] at refused
    exact .inl ⟨rfl, refused.2⟩
  · rw [if_neg refused]
    exact .inr rfl

theorem execute_text {s : Session} (accepted : s.declined = false) {n' : CliNode}
    {text' : List Char} (same : execute s mode n text = execute s mode n' text') :
    text = text' := by
  have outcomes := congrArg Done.outcome same
  simp only [execute, accepted, Bool.false_eq_true, if_false] at outcomes
  split_ifs at outcomes
  · simp only [Outcome.passed.injEq, calls, List.cons.injEq, Call.cliExecNode.injEq] at outcomes
    exact outcomes.1.2.2
  · exact Outcome.preserved.inj outcomes

theorem execute_ne_nullNode (s : Session) :
    execute s mode n text ≠ ⟨.nullNode, false, mode⟩ := by
  intro same
  have outcomes := congrArg Done.outcome same
  simp only [execute] at outcomes
  split_ifs at outcomes

theorem noOp_completed : noOp.wordCompleted = [] := rfl

theorem Finds.faithful (finds : Finds special mode (command line) head n text)
    (executed : ∀ s,
      (cliProcessCmd special s head mode op line).outcome = .debugOnly ∧ s.cliDbg = false ∨
        cliProcessCmd special s head mode op line = execute s mode n text) :
    Faithful special head mode op line := by
  have found := finds.findWords noOp
  obtain ⟨text', finds', completed, -⟩ := findWords_finds found
  rw [noOp_completed, List.nil_append] at completed
  refine ⟨_, n, Prod.ext rfl found, ?_⟩
  rw [completed, ← (finds.unique finds').2]
  exact executed

theorem faithful_of_clear (found : cliParserFindCmd special mode head op line = some (op', some n))
    (notBlank : isBlank line = false) (clear : BarClear (wordsOf line)) :
    Faithful special head mode op line := by
  obtain ⟨finds, -⟩ := cliParserFindCmd_finds found
  have executed := cliProcessCmd_found found notBlank
  cases first : (wordsOf line).find? (fun w => '|' ∈ w) with
  | none =>
    have barFree : ∀ w ∈ wordsOf line, '|' ∉ w := by
      simpa using first
    have whole : command line = wordsOf line := by
      rw [command, List.takeWhile_eq_self_iff]
      intro w member
      rw [decide_eq_true_iff]
      rintro rfl
      exact barFree bar member (List.mem_singleton_self _)
    have noBar : '|' ∉ line := by
      rw [bar_mem_iff]
      rintro ⟨w, member, inside⟩
      exact barFree w member inside
    refine Finds.faithful (whole ▸ finds) fun s => ?_
    have result := executed s
    rwa [if_neg noBar] at result
  | some w =>
    obtain ⟨rfl, notFirst⟩ := clear w first
    have inside : '|' ∈ line := (bar_mem_iff line).mpr ⟨bar, List.mem_of_find?_eq_some first,
      List.mem_singleton_self _⟩
    have some' : command line ≠ [] := by
      rw [command]
      cases words : wordsOf line with
      | nil =>
        rw [words] at first
        cases first
      | cons v rest =>
        rw [words, List.head?_cons] at notFirst
        have other : v ≠ bar := fun same => notFirst (congrArg some same)
        rw [List.takeWhile_cons_of_pos (by simpa using other)]
        exact List.cons_ne_nil _ _
    obtain ⟨rest, split⟩ : command line <+: wordsOf line := List.takeWhile_prefix _
    rw [← split] at finds
    obtain ⟨m, text, finds'⟩ := finds.front some'
    refine finds'.faithful fun s => ?_
    rw [← wordsOf_cutLine first] at finds'
    obtain ⟨op'', again, completed⟩ := finds'.cliParserFindCmd op'
    have result := executed s
    rw [if_pos inside, again] at result
    rwa [← completed]

theorem clear_of_faithful (keys : AllKeys BarWord head)
    (found : cliParserFindCmd special mode head op line = some (op', some n))
    (notBlank : isBlank line = false) (faithful : Faithful special head mode op line) :
    BarClear (wordsOf line) := by
  obtain ⟨op₁, m, isFound, executed⟩ := faithful
  obtain ⟨text, finds, completed, -⟩ := findWords_finds (congrArg Prod.snd isFound)
  rw [isFound, noOp_completed, List.nil_append] at completed
  dsimp only at completed
  intro w first
  have inside : '|' ∈ w := by simpa using List.find?_some first
  have inLine : '|' ∈ line :=
    (bar_mem_iff line).mpr ⟨w, List.mem_of_find?_eq_some first, inside⟩
  have isBar : w = bar := by
    by_contra other
    have barred : '|' ∈ text := (finds.bar_iff keys fun v member =>
      wordsOf_ne_nil v ((List.takeWhile_prefix _).subset member)).mpr
        ⟨w, mem_command first other, inside⟩
    -- the text of the cut line has no bar
    have result := cliProcessCmd_found found notBlank ⟨true, false, false, 0⟩
    have expected := executed ⟨true, false, false, 0⟩
    simp only [Bool.true_eq_false, and_false, false_or, if_pos inLine] at result expected
    rw [expected] at result
    cases again : cliParserFindCmd special mode head op' (cutLine line) with
    | none =>
      rw [again] at result
      exact execute_ne_nullNode _ result
    | some r =>
      obtain ⟨op₂, node⟩ := r
      cases node with
      | none =>
        rw [again] at result
        exact execute_ne_nullNode _ result
      | some m' =>
        rw [again] at result
        have same := execute_text rfl result
        obtain ⟨finds', -⟩ := cliParserFindCmd_finds again
        rw [← completed, same, finds'.bar_iff keys wordsOf_ne_nil] at barred
        obtain ⟨v, member, bad⟩ := barred
        exact cutLine_bar line v member bad
  refine ⟨isBar, fun isFirst => ?_⟩
  obtain ⟨rest, words⟩ := List.head?_eq_some_iff.mp isFirst
  rw [command, words, List.takeWhile_cons_of_neg (by simp)] at finds
  cases finds

/-- A line that is found is executed as the words before its first bar exactly when it is not
blank and no word before that bar has a bar in it. -/
theorem executed_iff (keys : AllKeys BarWord head)
    (found : cliParserFindCmd special mode head op line = some (op', some n)) :
    Faithful special head mode op line ↔
      isBlank line = false ∧ BarClear (wordsOf line) := by
  constructor
  · intro faithful
    have notBlank : isBlank line = false := by
      by_contra blank
      rw [Bool.not_eq_false] at blank
      obtain ⟨op₁, m, -, executed⟩ := faithful
      have expected := executed ⟨true, false, false, 0⟩
      rw [cliProcessCmd, if_pos blank] at expected
      rcases expected with ⟨impossible, -⟩ | same
      · cases impossible
      · have outcomes := congrArg Done.outcome same
        simp only [execute] at outcomes
        split_ifs at outcomes
    exact ⟨notBlank, clear_of_faithful keys found notBlank faithful⟩
  · rintro ⟨notBlank, clear⟩
    exact faithful_of_clear found notBlank clear

/-- Also when a command is tried again in the previous modes, a clear line is executed as the
words before its first bar, in the mode in which it is found: that of the session, or the one
that so many retries lead to. -/
theorem passed_command {s : Session} {cs : List Call} (clear : BarClear (wordsOf line))
    (passed : (cliProcessCmd special s head mode op line).outcome = .passed cs) :
    ∃ k ≤ retries mode, ∃ n text,
      Finds special (cliPreviousMode^[k] mode) (command line) head n text ∧
        cs = calls s (cliPreviousMode^[k] mode) n text := by
  induction size : retries mode using Nat.strongRecOn generalizing mode op with
  | ind size ih =>
    subst size
    by_cases blank : isBlank line = true
    · rw [cliProcessCmd, if_pos blank] at passed
      cases passed
    · rw [Bool.not_eq_true] at blank
      cases found : cliParserFindCmd special mode head op line with
      | none =>
        rw [cliProcessCmd, blank, found] at passed
        cases passed
      | some r =>
        obtain ⟨op', node⟩ := r
        cases node with
        | some n =>
          obtain ⟨op₁, m, isFound, executed⟩ := faithful_of_clear found blank clear
          obtain ⟨text, finds, completed, -⟩ := findWords_finds (congrArg Prod.snd isFound)
          rw [isFound, noOp_completed, List.nil_append] at completed
          dsimp only at completed
          rcases executed s with ⟨refused, -⟩ | same
          · rw [refused] at passed
            cases passed
          · rw [same, execute, completed] at passed
            split_ifs at passed with executable accepted
            exact ⟨0, Nat.zero_le _, m, text, finds, (Outcome.passed.inj passed).symm⟩
        | none =>
          rw [cliProcessCmd, blank, found] at passed
          simp only [Bool.false_eq_true, if_false] at passed
          by_cases refused : (debug.isPrefixOf op'.wordCompleted && !s.cliDbg) = true
          · rw [if_pos refused] at passed
            cases passed
          · rw [if_neg refused] at passed
            by_cases retried : op'.lastNodeMatch.isNone = true ∧ mode ∉ topModes
            · rw [dif_pos retried] at passed
              have fewer := retries_previous retried.2
              obtain ⟨k, bound, again⟩ := ih _ fewer passed rfl
              exact ⟨k + 1, by omega, again⟩
            · rw [dif_neg retried] at passed
              cases passed

end Executed

section Tree

variable {cmds : List Cmd} {t t' om head : Trie Word Label}

theorem allKeys_addAll (keys : AllKeys BarWord t)
    (barred : ∀ c ∈ cmds, ∀ w ∈ c.words, BarWord w) (built : addAll cmds t = some t') :
    AllKeys BarWord t' := by
  induction cmds generalizing t with
  | nil =>
    cases built
    exact keys
  | cons c rest ih =>
    rw [addAll, List.foldlM_cons, Option.bind_eq_bind, Option.bind_eq_some_iff] at built
    obtain ⟨next, added, built⟩ := built
    exact ih (keys.insert (barred c List.mem_cons_self) added)
      (fun d member => barred d (List.mem_cons_of_mem c member)) built

theorem addAll_made (modes : ∀ c ∈ cmds, c.mode ≠ 0) (t : Trie Word Label) :
    ∃ t', addAll cmds t = some t' := by
  induction cmds generalizing t with
  | nil => exact ⟨t, rfl⟩
  | cons c rest ih =>
    have usable : newNode c.mode = some (createNode c.mode) :=
      if_pos (visibleToAll_iff.mpr (modes c List.mem_cons_self))
    obtain ⟨first, made⟩ : ∃ b, firstNode c.mode t = some b := by
      cases t with
      | nil => exact ⟨_, rfl⟩
      | node key label rule next => exact ⟨_, usable⟩
    obtain ⟨next, added⟩ : ∃ next, cliParserAddCmd c.mode t c.cmd = some next := by
      rw [cliParserAddCmd, usable, made]
      exact insert_made _ _ _
    obtain ⟨t', built⟩ := ih (fun d member => modes d (List.mem_cons_of_mem c member)) next
    refine ⟨t', ?_⟩
    rw [addAll, List.foldlM_cons, added]
    exact built

theorem allKeys_chain (keysOm : AllKeys BarWord om) (keys : AllKeys BarWord t) :
    AllKeys BarWord (chain om t) := by
  induction t with
  | nil => exact keysOm
  | node key label rule next _ ih => exact ⟨keys.1, keys.2.1, ih keys.2.2⟩

theorem allKeys_addOm (keysOm : AllKeys BarWord om) (keys : AllKeys BarWord t) :
    AllKeys BarWord (addOm om t) := by
  induction t with
  | nil => trivial
  | node key label rule next ihRule ihNext =>
    have behind : ∀ r, AllKeys BarWord r →
        AllKeys BarWord (if label.exe = 0 then r else chain om r) := by
      intro r keysRule
      split_ifs
      · exact keysRule
      · exact allKeys_chain keysOm keysRule
    rw [addOm]
    by_cases isBar : key = bar
    · rw [if_pos isBar]
      exact ⟨keys.1, behind rule keys.2.1, keys.2.2⟩
    · rw [if_neg isBar]
      exact ⟨keys.1, behind _ (ihRule keys.2.1), ihNext keys.2.2⟩

theorem allKeys_changeRule {w : Word} {f : Trie Word Label → Trie Word Label}
    (kept : ∀ r, AllKeys BarWord r → AllKeys BarWord (f r)) (keys : AllKeys BarWord t) :
    AllKeys BarWord (changeRule w f t) := by
  induction t with
  | nil => trivial
  | node key label rule next _ ih =>
    rw [changeRule]
    split_ifs
    · exact ⟨keys.1, kept rule keys.2.1, keys.2.2⟩
    · exact ⟨keys.1, keys.2.1, ih keys.2.2⟩

theorem allKeys_modifs (made : cliAllocModifs = some om) : AllKeys BarWord om := by
  have start : AllKeys BarWord (.node bar (createNode climodeAll) .nil .nil) :=
    ⟨fun _ => rfl, trivial, trivial⟩
  refine allKeys_addAll start (fun c member w inside => ?_) made
  obtain ⟨cmd, isModifier, rfl⟩ := List.mem_map.mp member
  have checked : ∀ cmd ∈ omCommands, ∀ w ∈ wordsOf cmd.toList, '|' ∈ w → w = bar := by
    simp only [omCommands, List.forall_mem_cons, List.not_mem_nil, false_imp_iff, implies_true,
      and_true]
    -- A literal is the list of its characters, which is much faster than its decoding.
    and_intros <;> (rw [String.toList_ofList]; decide)
  exact checked cmd isModifier w inside

/-- The tree of commands without bars and their output modifiers has no other word with one. -/
theorem allKeys_tree {special : Word → Word → Bool} (barFree : ∀ c ∈ cmds, '|' ∉ c.cmd)
    (built : addAll cmds .nil = some t) (made : cliAllocModifs = some om)
    (extended : cliParserAddOM special om t = some head) : AllKeys BarWord head := by
  have plain : AllKeys BarWord t := by
    have start : AllKeys BarWord (.nil : Trie Word Label) := trivial
    refine allKeys_addAll start (fun c member w word inside => ?_) built
    exact absurd ((bar_mem_iff c.cmd).mpr ⟨w, word, inside⟩) (barFree c member)
  obtain ⟨n, -, rfl⟩ := Option.map_eq_some_iff.mp extended
  exact allKeys_changeRule (fun r keys => allKeys_addOm (allKeys_modifs made) keys) plain

end Tree

section Cases

open SpecialTokens (cliCheckSpecial)

def routerCmds : List Cmd :=
  [⟨climodeAll, "show administrators".toList⟩,
    ⟨climodeConfig, "enable password <password>".toList⟩]

def plainTree : Trie Word Label := (addAll routerCmds .nil).getD .nil

def modifiers : Trie Word Label := cliAllocModifs.getD .nil

def routerTree : Trie Word Label :=
  (cliParserAddOM (cliCheckSpecial emptyEnv) modifiers plainTree).getD .nil

theorem plainTree_eq : addAll routerCmds .nil = some plainTree := rfl

theorem modifiers_eq : cliAllocModifs = some modifiers := by
  have modes : ∀ c ∈ omCommands.map fun cmd => (⟨climodeAll, cmd.toList⟩ : Cmd), c.mode ≠ 0 := by
    intro c member
    obtain ⟨cmd, -, rfl⟩ := List.mem_map.mp member
    exact (by decide : climodeAll ≠ 0)
  obtain ⟨om, made⟩ := addAll_made modes (.node bar (createNode climodeAll) .nil .nil)
  rw [modifiers, cliAllocModifs, made, Option.getD_some]

theorem routerTree_eq :
    cliParserAddOM (cliCheckSpecial emptyEnv) modifiers plainTree = some routerTree := by
  obtain ⟨n, found⟩ : ∃ n, (findToken (cliCheckSpecial emptyEnv) climodeAll plainTree noOp
      "show".toList).2 = some n := ⟨_, rfl⟩
  rw [routerTree, cliParserAddOM, found, Option.map_some, Option.getD_some]

theorem allKeys_routerTree : AllKeys BarWord routerTree :=
  allKeys_tree (by decide) plainTree_eq modifiers_eq routerTree_eq

def countLine : List Char := "show administrators | count".toList

/-- A command with an output modifier. -/
theorem faithful_count :
    Faithful (cliCheckSpecial emptyEnv) routerTree climodeEnable noOp countLine := by
  have isFound : ((cliParserFindCmd (cliCheckSpecial emptyEnv) climodeEnable routerTree noOp
      countLine).bind Prod.snd).isSome = true := by
    rw [routerTree, modifiers, cliAllocModifs, omCommands]
    repeat rw [List.map_cons, String.toList_ofList]
    decide +kernel
  obtain ⟨n, isNode⟩ := Option.isSome_iff_exists.mp isFound
  obtain ⟨⟨op', node⟩, found, rfl⟩ := Option.bind_eq_some_iff.mp isNode
  refine (executed_iff allKeys_routerTree found).mpr ⟨by decide, fun w first => ?_⟩
  have words : (wordsOf countLine).find? (fun w => '|' ∈ w) = some bar := by decide
  rw [words] at first
  cases first
  exact ⟨rfl, by decide⟩

def passwordLine : List Char := "enable password a|b".toList

def enableLine : List Char := "enable password a".toList

/-- The debug mode, with a function for the command. -/
def debugSession : Session := ⟨true, false, true, 2⟩

/-- A command of the configuration mode, entered in the RIP mode. -/
theorem passed_command_password :
    ∃ cs k, k ≤ retries climodeRip ∧ (cliProcessCmd (cliCheckSpecial emptyEnv) debugSession
        routerTree climodeRip noOp enableLine).outcome = .passed cs ∧
      ∃ n text, Finds (cliCheckSpecial emptyEnv) (cliPreviousMode^[k] climodeRip)
          (command enableLine) routerTree n text ∧
        cs = calls debugSession (cliPreviousMode^[k] climodeRip) n text := by
  obtain ⟨op, unknown, retried⟩ : ∃ op,
      cliParserFindCmd (cliCheckSpecial emptyEnv) climodeRip routerTree noOp enableLine =
        some (op, none) ∧ op.lastNodeMatch.isNone = true := ⟨_, rfl, rfl⟩
  have again : (cliProcessCmd (cliCheckSpecial emptyEnv) debugSession routerTree climodeRip noOp
      enableLine).outcome = (cliProcessCmd (cliCheckSpecial emptyEnv) debugSession routerTree
        climodeConfig op enableLine).outcome := by
    rw [cliProcessCmd, if_neg (by decide), unknown]
    simp only [debugSession, Bool.not_true, Bool.and_false, Bool.false_eq_true, if_false]
    rw [dif_pos ⟨retried, by decide⟩]
    rfl
  obtain ⟨op', n, found, executable⟩ : ∃ op' n,
      cliParserFindCmd (cliCheckSpecial emptyEnv) climodeConfig routerTree op enableLine =
        some (op', some n) ∧
      (0 < n.2.1.exe ∧ climodeConfig &&& n.2.1.exeMode ≠ 0) := by
    cases unknown
    exact ⟨_, _, rfl, by decide, by decide⟩
  rcases cliProcessCmd_found found (by decide) debugSession with ⟨-, impossible⟩ | executed
  · cases impossible
  · rw [if_neg (by decide), execute, if_pos executable] at executed
    have passed := again.trans (congrArg Done.outcome executed)
    have noBar : (wordsOf enableLine).find? (fun w => '|' ∈ w) = none := by decide
    obtain ⟨k, bound, m, text, finds, same⟩ :=
      passed_command (fun w first => by cases noBar.symm.trans first) passed
    exact ⟨_, k, bound, passed, m, text, finds, same⟩

/-- The password is accepted as a word, and cut before it is passed on. -/
theorem password_cut :
    (∃ op' n,
      cliParserFindCmd (cliCheckSpecial emptyEnv) climodeConfig routerTree noOp passwordLine =
        some (op', some n) ∧ op'.wordCompleted = "enable password a|b ".toList) ∧
    (∃ n, cliProcessCmd (cliCheckSpecial emptyEnv) debugSession routerTree climodeConfig noOp
        passwordLine =
      ⟨.passed [.cliExecNode climodeConfig n "enable password a ".toList], true,
        climodeConfig⟩) ∧
    ¬ Faithful (cliCheckSpecial emptyEnv) routerTree climodeConfig noOp passwordLine := by
  obtain ⟨op', n, found, completed⟩ : ∃ op' n,
      cliParserFindCmd (cliCheckSpecial emptyEnv) climodeConfig routerTree noOp passwordLine =
        some (op', some n) ∧
      op'.wordCompleted = "enable password a|b ".toList := ⟨_, _, rfl, by decide⟩
  obtain ⟨op₁, n₁, cut, cutText, executable⟩ : ∃ op₁ n₁,
      cliParserFindCmd (cliCheckSpecial emptyEnv) climodeConfig routerTree noOp
        (cutLine passwordLine) = some (op₁, some n₁) ∧
      op₁.wordCompleted = "enable password a ".toList ∧
      (0 < n₁.2.1.exe ∧ climodeConfig &&& n₁.2.1.exeMode ≠ 0) :=
    ⟨_, _, rfl, by decide, by decide⟩
  refine ⟨⟨op', n, found, completed⟩, ⟨n₁, ?_⟩, fun faithful => ?_⟩
  · have inside : '|' ∈ passwordLine := by decide
    obtain ⟨op₂, again, text⟩ := (cliParserFindCmd_finds cut).1.cliParserFindCmd op'
    rcases cliProcessCmd_found found (by decide) debugSession with ⟨-, impossible⟩ | executed
    · cases impossible
    · rw [if_pos inside, again] at executed
      refine executed.trans ?_
      change execute debugSession climodeConfig n₁ op₂.wordCompleted = _
      rw [execute, if_pos executable, text, cutText]
      rfl
  · have clear := clear_of_faithful allKeys_routerTree found (by decide) faithful
    exact absurd (clear "a|b".toList (by decide)).1 (by decide)

end Cases

end CommandLine
