import Rcp100.CommandLine

/-!
# The mode after a command that is not executed

A line of which no word is found is tried again in the previous mode. The session returns to
its own mode when the retry does not report success, and success is noted before the question
of the command is asked.
-/

namespace ModeRestore

open WordTrie CliParser LiteralLookup CommandLine

section Question

/-- Whether the user does not accept. A line is read up to nine characters. -/
def askQuestion (html : Bool) (typed : Option (List Char)) : Bool :=
  if html then false
  else
    match typed with
    | none => true
    | some line =>
      let ptr := (line.take 9).dropWhile fun c => c = ' ' || c = '\t'
      (ptr.take 3).map Char.toLower ≠ "yes".toList

/-- The questions of the nodes, and what the user of a session types. -/
structure Dialog where
  question : CliNode → Option (List Char)
  html : Bool
  typed : Option (List Char)

def Dialog.refuses (d : Dialog) (n : CliNode) : Bool :=
  (d.question n).isSome && askQuestion d.html d.typed

end Question

section Settled

variable (special : Word → Word → Bool) (head : Trie Word Label) (line : List Char)

/-- No word of the line is found. -/
def unknown (mode : CliMode) : Bool :=
  (cliParserFindCmd special mode head noOp line).any fun r => r.1.lastNodeMatch.isNone

/-- The mode in which a line is looked up last. -/
def lookupMode (mode : CliMode) : CliMode :=
  if _ : unknown special head line mode = true ∧ mode ∉ topModes then
    lookupMode (cliPreviousMode mode)
  else mode
termination_by retries mode
decreasing_by exact retries_previous (And.right ‹_›)

/-- The node whose command ends in this mode, after the debug commands were refused and the
output modifiers were cut. -/
def executedNode (cliDbg : Bool) (mode : CliMode) : Option CliNode :=
  if isBlank line then none
  else
    match cliParserFindCmd special mode head noOp line with
    | some (op, some n) =>
      if debug.isPrefixOf op.wordCompleted && !cliDbg then none
      else
        let last :=
          if '|' ∈ line then
            (cliParserFindCmd special mode head noOp (cutLine line)).bind Prod.snd
          else some n
        last.filter fun n => 0 < n.2.1.exe ∧ mode &&& n.2.1.exeMode ≠ 0
    | some (_, none) | none => none

/-- The session whose answer is that of the dialog to the question of the executed node. -/
def asked (d : Dialog) (s : Session) (mode : CliMode) : Session :=
  { s with
    declined :=
      (executedNode special head line s.cliDbg (lookupMode special head line mode)).any d.refuses }

end Settled

/-- A command that is neither run nor forwarded leaves the mode as it was. -/
def KeepsMode (d : Done) (mode : CliMode) : Prop :=
  (∀ cs, d.outcome ≠ .passed cs) → d.cmode = mode

section Lookup

variable {special : Word → Word → Bool} {mode : CliMode} {head level : Trie Word Label}
  {line : List Char} {words : List Word} {op op' : CliParserOp}

theorem findWords_known (known : op.lastNodeMatch.isSome = true) :
    (findWords special mode words level op).1.lastNodeMatch.isSome = true := by
  induction words generalizing level op with
  | nil => exact known
  | cons w rest ih =>
    have kept : (findToken special mode level { op with wordMultimatch := [], word := w }
        w).1.lastNodeMatch = op.lastNodeMatch := by
      rw [findToken]
      split
      · rfl
      · split
        · rfl
        · dsimp only
          split <;> rfl
    cases first :
      (findToken special mode level { op with wordMultimatch := [], word := w } w).2 with
    | none =>
      simp only [findWords, first]
      rw [kept]
      exact known
    | some n =>
      cases rest with
      | nil => simp only [findWords, first, Option.isSome_some]
      | cons v rest =>
        cases below : n.2.2 with
        | nil => simp only [findWords, first, below, Option.isSome_some]
        | node key label rule next =>
          rw [findWords]
          simp only [first, below]
          exact ih rfl

theorem findWords_unknown (still : (findWords special mode words level op).1.lastNodeMatch = none) :
    (findWords special mode words level op).1.wordCompleted = op.wordCompleted := by
  cases words with
  | nil => rfl
  | cons w rest =>
    cases first :
      (findToken special mode level { op with wordMultimatch := [], word := w } w).2 with
    | none =>
      simp only [findWords, first]
      rw [findToken] at first ⊢
      split at first
      · cases first
      · split at first
        · cases first
        · dsimp only at first ⊢
          split at first
          · cases first
          · rfl
    | some n =>
      exfalso
      cases rest with
      | nil =>
        simp only [findWords, first] at still
        cases still
      | cons v rest =>
        cases below : n.2.2 with
        | nil =>
          simp only [findWords, first, below] at still
          cases still
        | node key label rule next =>
          rw [findWords] at still
          simp only [first, below] at still
          have known := @findWords_known special mode (.node key label rule next) (v :: rest)
            { (findToken special mode level { op with wordMultimatch := [], word := w } w).1 with
              lastNodeMatch := some n
              depth := (findToken special mode level
                { op with wordMultimatch := [], word := w } w).1.depth + 1 } rfl
          rw [still] at known
          cases known

/-- What a lookup finds does not depend on the one before it. -/
theorem cliParserFindCmd_any (op : CliParserOp) :
    (cliParserFindCmd special mode head op line).map
        (fun r => (r.1.lastNodeMatch, r.1.wordCompleted, r.2)) =
      (cliParserFindCmd special mode head noOp line).map
        (fun r => (r.1.lastNodeMatch, r.1.wordCompleted, r.2)) := by
  unfold CliParser.cliParserFindCmd
  cases wordsOf line with
  | nil => cases head <;> rfl
  | cons w rest => cases head <;> rfl

variable {node : Option CliNode}

theorem cliParserFindCmd_same {op' : CliParserOp} (op : CliParserOp)
    (found : cliParserFindCmd special mode head op line = some (op', node)) :
    ∃ op₀, cliParserFindCmd special mode head noOp line = some (op₀, node) ∧
      op₀.lastNodeMatch = op'.lastNodeMatch ∧ op₀.wordCompleted = op'.wordCompleted := by
  have same := @cliParserFindCmd_any special mode head line op
  rw [found, Option.map_some] at same
  obtain ⟨⟨op₀, node₀⟩, found₀, equal⟩ := Option.map_eq_some_iff.mp same.symm
  simp only [Prod.mk.injEq] at equal
  obtain ⟨last, completed, rfl⟩ := equal
  exact ⟨op₀, found₀, last, completed⟩

theorem cliParserFindCmd_none (op : CliParserOp)
    (lost : cliParserFindCmd special mode head op line = none) :
    cliParserFindCmd special mode head noOp line = none := by
  have same := @cliParserFindCmd_any special mode head line op
  rw [lost, Option.map_none] at same
  exact Option.map_eq_none_iff.mp same.symm

theorem cliParserFindCmd_unknown
    (found : cliParserFindCmd special mode head op line = some (op', node))
    (still : op'.lastNodeMatch = none) : op'.wordCompleted = [] ∧ node = none := by
  constructor
  · unfold CliParser.cliParserFindCmd at found
    dsimp only at found
    split at found
    · cases found
    · have isOp := congrArg Prod.fst (Option.some.inj found)
      dsimp only at isOp
      rw [← isOp] at still ⊢
      exact findWords_unknown still
  · cases node with
    | none => rfl
    | some n =>
      have last := (cliParserFindCmd_finds found).2
      rw [still] at last
      cases last

theorem unknown_iff (found : cliParserFindCmd special mode head op line = some (op', node)) :
    unknown special head line mode = true ↔ op'.lastNodeMatch.isNone = true := by
  obtain ⟨op₀, found₀, last, -⟩ := cliParserFindCmd_same op found
  rw [unknown, found₀, Option.any_some, last]

end Lookup

section Retried

variable {special : Word → Word → Bool} {mode : CliMode} {head : Trie Word Label}
  {line : List Char} {op : CliParserOp} {s : Session} {n : CliNode}

theorem lookupMode_settled (settled : ¬ (unknown special head line mode = true ∧ mode ∉ topModes)) :
    lookupMode special head line mode = mode := by
  rw [lookupMode, dif_neg settled]

theorem lookupMode_retried (again : unknown special head line mode = true ∧ mode ∉ topModes) :
    lookupMode special head line mode = lookupMode special head line (cliPreviousMode mode) := by
  rw [lookupMode, dif_pos again]

/-- A line without a known word, outside of the top modes, is left to the previous mode. -/
theorem cliProcessCmd_retried (notBlank : isBlank line = false)
    (again : unknown special head line mode = true ∧ mode ∉ topModes) :
    ∃ op', cliProcessCmd special s head mode op line =
      { cliProcessCmd special s head (cliPreviousMode mode) op' line with
        cmode :=
          if (cliProcessCmd special s head (cliPreviousMode mode) op' line).lastCmdOk then
            (cliProcessCmd special s head (cliPreviousMode mode) op' line).cmode
          else mode } := by
  cases found : cliParserFindCmd special mode head op line with
  | none =>
    have absent := again.1
    rw [unknown, cliParserFindCmd_none op found, Option.any_none] at absent
    cases absent
  | some r =>
    obtain ⟨op', node⟩ := r
    have last := (unknown_iff found).mp again.1
    have completed := (cliParserFindCmd_unknown found (Option.isNone_iff_eq_none.mp last)).1
    have notDebug : debug.isPrefixOf op'.wordCompleted = false := by
      rw [completed]
      rfl
    refine ⟨op', ?_⟩
    rw [cliProcessCmd, notBlank, found]
    simp only [Bool.false_eq_true, if_false, notDebug, Bool.false_and, last, again.2,
      not_false_eq_true, and_self, dite_true]

/-- What is left of a command that is not tried again: it ends at the node, or changes nothing. -/
def Settles (s : Session) (mode : CliMode) (d : Done) : Option CliNode → Prop
  | some n => ∃ text,
    d = ⟨if s.declined then .declined else .passed (calls s mode n text), true, mode⟩
  | none => d.lastCmdOk = false ∧ d.cmode = mode

theorem settles_execute (text : List Char) :
    Settles s mode (execute s mode n text)
      ((some n).filter fun n => 0 < n.2.1.exe ∧ mode &&& n.2.1.exeMode ≠ 0) := by
  rw [Option.filter_some]
  by_cases ends : 0 < n.2.1.exe ∧ mode &&& n.2.1.exeMode ≠ 0
  · rw [if_pos (decide_eq_true ends), execute, if_pos ends]
    exact ⟨text, rfl⟩
  · rw [if_neg (by simpa using ends), execute, if_neg ends]
    exact ⟨rfl, rfl⟩

theorem cliProcessCmd_settled
    (settled : ¬ (unknown special head line mode = true ∧ mode ∉ topModes)) :
    Settles s mode (cliProcessCmd special s head mode op line)
      (executedNode special head line s.cliDbg mode) := by
  cases blank : isBlank line with
  | true =>
    rw [cliProcessCmd, executedNode, blank]
    exact ⟨rfl, rfl⟩
  | false =>
    cases found : cliParserFindCmd special mode head op line with
    | none =>
      rw [cliProcessCmd, executedNode, blank, found, cliParserFindCmd_none op found]
      exact ⟨rfl, rfl⟩
    | some r =>
      obtain ⟨op', node⟩ := r
      obtain ⟨op₀, found₀, last, completed⟩ := cliParserFindCmd_same op found
      rw [unknown_iff found] at settled
      rw [cliProcessCmd, executedNode, blank, found, found₀]
      by_cases refused : (debug.isPrefixOf op'.wordCompleted && !s.cliDbg) = true
      · cases node with
        | none =>
          simp only [Bool.false_eq_true, if_false, if_pos refused]
          exact ⟨rfl, rfl⟩
        | some n =>
          simp only [Bool.false_eq_true, if_false, completed, if_pos refused]
          exact ⟨rfl, rfl⟩
      · cases node with
        | none =>
          simp only [Bool.false_eq_true, if_false, if_neg refused, dif_neg settled]
          exact ⟨rfl, rfl⟩
        | some n =>
          simp only [Bool.false_eq_true, if_false, completed, if_neg refused, dif_neg settled]
          by_cases barred : '|' ∈ line
          · simp only [if_pos barred]
            cases cut : cliParserFindCmd special mode head op' (cutLine line) with
            | none =>
              rw [cliParserFindCmd_none op' cut]
              exact ⟨rfl, rfl⟩
            | some r =>
              obtain ⟨op₁, node₁⟩ := r
              obtain ⟨op₂, again, -⟩ := cliParserFindCmd_same op' cut
              rw [again, Option.bind_some]
              cases node₁ with
              | none => exact ⟨rfl, rfl⟩
              | some m => exact settles_execute op₁.wordCompleted
          · simp only [if_neg barred]
            exact settles_execute op'.wordCompleted

theorem cliProcessCmd_cases (notBlank : isBlank line = false) :
    match executedNode special head line s.cliDbg (lookupMode special head line mode) with
    | some n => ∃ text, cliProcessCmd special s head mode op line =
        ⟨if s.declined then .declined
          else .passed (calls s (lookupMode special head line mode) n text), true,
          lookupMode special head line mode⟩
    | none => (cliProcessCmd special s head mode op line).lastCmdOk = false ∧
        (cliProcessCmd special s head mode op line).cmode = mode := by
  induction size : retries mode using Nat.strongRecOn generalizing mode op with
  | ind size ih =>
    subst size
    by_cases again : unknown special head line mode = true ∧ mode ∉ topModes
    · obtain ⟨op', retried⟩ := @cliProcessCmd_retried special mode head line op s notBlank again
      have inner := @ih _ (retries_previous again.2) (cliPreviousMode mode) op' rfl
      rw [lookupMode_retried again, retried]
      cases node : executedNode special head line s.cliDbg
          (lookupMode special head line (cliPreviousMode mode)) with
      | none =>
        rw [node] at inner
        dsimp only at inner ⊢
        rw [inner.1]
        exact ⟨rfl, rfl⟩
      | some n =>
        rw [node] at inner
        obtain ⟨text, ran⟩ := inner
        exact ⟨text, by rw [ran]; rfl⟩
    · have settles := @cliProcessCmd_settled special mode head line op s again
      rw [lookupMode_settled again]
      cases node : executedNode special head line s.cliDbg mode with
      | none =>
        rw [node] at settles
        exact settles
      | some n =>
        rw [node] at settles
        exact settles

end Retried

section Kept

variable {special : Word → Word → Bool} {head : Trie Word Label} {line : List Char}
  {d : Dialog} {s : Session} {mode : CliMode} {op : CliParserOp} {n : CliNode}

theorem keepsMode_executed
    (node : executedNode special head line s.cliDbg (lookupMode special head line mode) = some n) :
    KeepsMode (cliProcessCmd special (asked special head line d s mode) head mode op line) mode ↔
      lookupMode special head line mode = mode ∨ d.refuses n = false := by
  have notBlank : isBlank line = false := by
    rw [executedNode] at node
    split at node
    · cases node
    · rename_i shown
      exact Bool.eq_false_iff.mpr shown
  have cases := @cliProcessCmd_cases special mode head line op
    (asked special head line d s mode) notBlank
  rw [show (asked special head line d s mode).cliDbg = s.cliDbg from rfl, node] at cases
  obtain ⟨text, ran⟩ := cases
  have answer : (asked special head line d s mode).declined = d.refuses n := by
    rw [asked, node, Option.any_some]
  rw [ran, answer, KeepsMode]
  cases refused : d.refuses n with
  | true => simp
  | false => simp

theorem keepsMode_idle
    (idle : executedNode special head line s.cliDbg (lookupMode special head line mode) = none) :
    KeepsMode (cliProcessCmd special (asked special head line d s mode) head mode op line)
      mode := by
  intro _
  cases blank : isBlank line with
  | true =>
    rw [cliProcessCmd, blank]
    rfl
  | false =>
    have cases := @cliProcessCmd_cases special mode head line op
      (asked special head line d s mode) blank
    rw [show (asked special head line d s mode).cliDbg = s.cliDbg from rfl, idle] at cases
    exact cases.2

/-- A command that is not executed leaves the mode alone exactly when the line is not looked up
last in another mode, where a command ends whose question is refused. -/
theorem mode_kept_iff (special : Word → Word → Bool) (head : Trie Word Label) (line : List Char)
    (d : Dialog) (s : Session) (mode : CliMode) (op : CliParserOp) :
    KeepsMode (cliProcessCmd special (asked special head line d s mode) head mode op line) mode ↔
      lookupMode special head line mode = mode ∨
      ∀ n, executedNode special head line s.cliDbg (lookupMode special head line mode) = some n →
        d.refuses n = false := by
  cases node : executedNode special head line s.cliDbg (lookupMode special head line mode) with
  | none => exact iff_of_true (keepsMode_idle node) (.inr fun n impossible => by cases impossible)
  | some n => simpa using keepsMode_executed node

end Kept

section Cases

open SpecialTokens (cliCheckSpecial)

def telnetCmds : List Cmd :=
  [⟨climodeAll, "show administrators".toList⟩, ⟨climodeInterface, "shutdown".toList⟩,
    ⟨climodeConfig, "service telnet port <i,1,65535>".toList⟩]

def telnetTree : Trie Word Label := (addAll telnetCmds .nil).getD .nil

def telnetLine : List Char := "service telnet port 23".toList

def refusal : Dialog :=
  { question := fun _ => some "This command will terminate all active Telnet sessions.".toList
    html := false
    typed := some "no\n".toList }

/-- In interface mode the command is found in configuration mode, where the session stays after
the user refused it. -/
theorem telnet_refused :
    lookupMode (cliCheckSpecial emptyEnv) telnetTree telnetLine climodeInterface = climodeConfig ∧
    ¬ KeepsMode (cliProcessCmd (cliCheckSpecial emptyEnv)
      (asked (cliCheckSpecial emptyEnv) telnetTree telnetLine refusal ⟨false, false, false, 2⟩
        climodeInterface) telnetTree climodeInterface noOp telnetLine) climodeInterface := by
  have again : unknown (cliCheckSpecial emptyEnv) telnetTree telnetLine climodeInterface = true ∧
      climodeInterface ∉ topModes := ⟨by decide, by decide⟩
  have top : ¬ (unknown (cliCheckSpecial emptyEnv) telnetTree telnetLine climodeConfig = true ∧
      climodeConfig ∉ topModes) := fun both => both.2 (by decide)
  have last : lookupMode (cliCheckSpecial emptyEnv) telnetTree telnetLine climodeInterface =
      climodeConfig := by
    rw [lookupMode_retried again]
    exact lookupMode_settled top
  refine ⟨last, fun keeps => ?_⟩
  obtain ⟨n, node⟩ : ∃ n, executedNode (cliCheckSpecial emptyEnv) telnetTree telnetLine false
      climodeConfig = some n := Option.isSome_iff_exists.mp (by decide)
  rw [keepsMode_executed (last ▸ node), last] at keeps
  rcases keeps with same | accepted
  · exact absurd same (by decide)
  · have refused : refusal.refuses n = true := rfl
    rw [refused] at accepted
    cases accepted

end Cases

end ModeRestore
