import Rcp100.CliParser
import Rcp100.SpecialTokens
import Mathlib.Data.List.Find

/-!
# Commands looked up by their own text

Help texts and callbacks are installed for a command by its text, special tokens included.
A special token is then a word of a line, and every special token of the level is asked
whether it accepts the word, the one that was added first before the others.
-/

namespace LiteralLookup

open WordTrie CliParser
open SpecialTokens (Env Known cliCheckSpecial cliCheckSpecial_self)

section Search

variable (special : Word → Word → Bool) (mode : CliMode)

def noOp : CliParserOp := ⟨[], [], [], none, 0⟩

/-- The tokens of the nodes that the search goes through. -/
def searchPath : List Word → Trie Word Label → Option (List Word)
  | [], _ => none
  | [token], level => (findToken special mode level noOp token).2.map (fun n => [n.1])
  | token :: next :: rest, level =>
    (findToken special mode level noOp token).2.bind fun n =>
      (searchPath (next :: rest) n.2.2).map (n.1 :: ·)

end Search

section Order

variable (cmds : List Cmd)

/-- The word of a command after the words of a path. -/
def nextWord (p : List Word) (c : Cmd) : Option Word :=
  if p <+: c.words then (c.words.drop p.length).head? else none

/-- The words after a path, in the order in which the commands were added. -/
def nextWords (p : List Word) : List Word := cmds.filterMap (nextWord p)

end Order

/-- Every special token on the way is known, and no other special token that was added
before it on its level and is visible accepts it. -/
def OwnWay (env : Env) (cmds : List Cmd) (c : Cmd) : Prop :=
  ∀ p w, p ++ [w] <+: c.words → isSpecial w = true →
    Known w ∧ ∀ v ∈ (nextWords cmds p).takeWhile (· ≠ w),
      isSpecial v = true → Shows cmds c.mode (p ++ [v]) → cliCheckSpecial env v w = false

section Levels

variable {cmds : List Cmd} {c : Cmd} {t : Trie Word Label}

theorem nextWord_eq_some {p : List Word} {v : Word} :
    nextWord p c = some v ↔ p ++ [v] <+: c.words := by
  rw [nextWord]
  constructor
  · intro next
    split at next
    · rename_i along
      obtain ⟨rest, words⟩ := along
      rw [← words, List.drop_left] at next
      obtain ⟨more, rfl⟩ := List.head?_eq_some_iff.mp next
      exact ⟨more, by rw [← words, List.append_assoc]; rfl⟩
    · cases next
  · rintro ⟨more, words⟩
    rw [List.append_assoc] at words
    rw [if_pos ⟨_, words⟩, ← words, List.drop_left]
    rfl

theorem mem_nextWords {p : List Word} {v : Word} :
    v ∈ nextWords cmds p ↔ ∃ c ∈ cmds, p ++ [v] <+: c.words := by
  simp only [nextWords, List.mem_filterMap, nextWord_eq_some]

/-- One more command puts its next word at the end of a level, if it is not there. -/
theorem keysBelow_add {t' : Trie Word Label} (tidy : Tidy visibleToAll t)
    (added : cliParserAddCmd c.mode t c.cmd = some t') (p : List Word) :
    (∀ v, nextWord p c = some v → keysBelow t' p = push (keysBelow t p) v) ∧
      (nextWord p c = none → keysBelow t' p = keysBelow t p) := by
  obtain ⟨inside, outside⟩ := insert_keysBelow tidy added
    (fun b made => (newNode_eq_some made).2) (fun b made => visibleToAll_of_firstNode made) p
  constructor
  · intro v next
    exact inside v (nextWord_eq_some.mp next)
  · intro none
    refine outside fun v along => ?_
    have next := nextWord_eq_some.mpr along
    rw [none] at next
    cases next

theorem find?_keysBelow {done todo : List Cmd} {t t' : Trie Word Label}
    (labelled : Labelled done t) (built : addAll todo t = some t') (p : List Word)
    (P : Word → Bool) (same : (keysBelow t p).find? P = (nextWords done p).find? P) :
    (keysBelow t' p).find? P = (nextWords (done ++ todo) p).find? P := by
  induction todo generalizing done t with
  | nil =>
    cases built
    rw [List.append_nil]
    exact same
  | cons c rest ih =>
    rw [addAll, List.foldlM_cons, Option.bind_eq_bind, Option.bind_eq_some_iff] at built
    obtain ⟨next, added, built⟩ := built
    rw [List.append_cons]
    refine ih (labelled.add added) built ?_
    obtain ⟨inside, outside⟩ := keysBelow_add labelled.tidy added p
    rw [nextWords, List.filterMap_append]
    cases word : nextWord p c with
    | none =>
      rw [outside word, same, List.filterMap_cons_none word, List.filterMap_nil,
        List.append_nil]
      rfl
    | some v =>
      rw [inside v word, find?_push, List.find?_append, same,
        List.filterMap_cons_some word, List.filterMap_nil, List.find?_append]
      rfl

theorem find?_level (built : addAll cmds .nil = some t) (p : List Word) (P : Word → Bool) :
    (keysBelow t p).find? P = (nextWords cmds p).find? P := by
  have start : (keysBelow (.nil : Trie Word Label) p).find? P = (nextWords [] p).find? P := by
    rw [keysBelow_trie_nil]
    rfl
  exact find?_keysBelow labelled_nil built p P start

end Levels

section Step

variable {special : Word → Word → Bool} {mode : CliMode} {level : Trie Word Label}

theorem findToken_node (op op' : CliParserOp) (w : Word) :
    (findToken special mode level op w).2 = (findToken special mode level op' w).2 := by
  rw [findToken, findToken]
  split
  · rfl
  · split
    · rfl
    · dsimp only
      split <;> rfl

theorem findToken_mem {op : CliParserOp} {w : Word} {n : CliNode}
    (found : (findToken special mode level op w).2 = some n) :
    n ∈ siblings level ∧ visible mode n = true := by
  rw [findToken] at found
  split at found
  · rename_i exact
    cases found
    have holds := List.find?_some exact
    simp only [Bool.and_eq_true] at holds
    exact ⟨List.mem_of_find?_eq_some exact, holds.1.2⟩
  · split at found
    · rename_i accepted
      cases found
      have holds := List.find?_some accepted
      simp only [Bool.and_eq_true] at holds
      exact ⟨List.mem_of_find?_eq_some accepted, holds.1.2⟩
    · dsimp only at found
      split at found
      · rename_i only
        cases found
        obtain ⟨member, holds⟩ := List.mem_filter.mp (only ▸ List.mem_cons_self)
        simp only [Bool.and_eq_true] at holds
        exact ⟨member, holds.1.2⟩
      · cases found

variable {cmds : List Cmd} {t : Trie Word Label}

theorem findToken_regular (labelled : Labelled cmds t) {p : List Word} {w : Word}
    (regular : isSpecial w = false) (shown : Shows cmds mode (p ++ [w])) (op : CliParserOp) :
    ∃ n, (findToken special mode (below t p) op w).2 = some n ∧ n.1 = w := by
  obtain ⟨n, member, rfl, seen⟩ := labelled.node_of_shows shown
  cases exact : (siblings (below t p)).find?
      (fun m => !isSpecial m.1 && visible mode m && m.1 = n.1) with
  | none =>
    have differs := List.find?_eq_none.mp exact n member
    simp [regular, seen] at differs
  | some m =>
    have holds := List.find?_some exact
    simp only [Bool.and_eq_true, decide_eq_true_eq] at holds
    exact ⟨m, by simp only [findToken, exact], holds.2⟩

open Classical in
/-- The special tokens are asked in the order in which they were added. -/
theorem findToken_special (labelled : Labelled cmds t) (built : addAll cmds .nil = some t)
    {p : List Word} {w : Word} (isSpecialW : isSpecial w = true) (op : CliParserOp) :
    (findToken special mode (below t p) op w).2.map (·.1) =
      (nextWords cmds p).find?
        (fun v => isSpecial v && decide (Shows cmds mode (p ++ [v])) && special v w) := by
  have noExact : (siblings (below t p)).find?
      (fun n => !isSpecial n.1 && visible mode n && n.1 = w) = none := by
    rw [List.find?_eq_none]
    intro n _
    by_cases same : n.1 = w
    · simp [same, isSpecialW]
    · simp [same]
  have noPrefix : (siblings (below t p)).filter
      (fun n => !isSpecial n.1 && visible mode n && w.isPrefixOf n.1) = [] := by
    rw [List.filter_eq_nil_iff]
    intro n _
    cases regular : isSpecial n.1 with
    | true => simp
    | false =>
      have apart : ¬ w <+: n.1 := by
        rintro ⟨rest, word⟩
        rw [isSpecial, decide_eq_true_iff] at isSpecialW
        rw [isSpecial, ← word, List.head?_append, isSpecialW] at regular
        simp at regular
      simp [apart]
  have keys : (siblings (below t p)).find?
      (fun n => isSpecial n.1 && visible mode n && special n.1 w) =
      (siblings (below t p)).find? ((fun v => isSpecial v &&
        decide (Shows cmds mode (p ++ [v])) && special v w) ∘ (·.1)) := by
    refine List.find?_congr fun n member => ?_
    have seen : visible mode n = true ↔ _ := labelled.visible_iff member
    rw [Function.comp, Bool.eq_iff_iff]
    simp only [Bool.and_eq_true, decide_eq_true_eq, seen]
  rw [← find?_level built, keysBelow, List.find?_map, ← keys]
  cases accepted : (siblings (below t p)).find?
      (fun n => isSpecial n.1 && visible mode n && special n.1 w) with
  | none => simp only [findToken, noExact, accepted, noPrefix]
  | some n => simp only [findToken, noExact, accepted]

end Step

section Runs

variable {special : Word → Word → Bool} {mode : CliMode} {cmds : List Cmd}
  {t : Trie Word Label}

theorem isAt_of_findToken (labelled : Labelled cmds t) {p : List Word} {op : CliParserOp}
    {w : Word} {n : CliNode} (found : (findToken special mode (below t p) op w).2 = some n) :
    IsAt t (p ++ [n.1]) n := by
  obtain ⟨label, rule⟩ := (mem_siblings_below labelled.tidy).mp
    (show (n.1, n.2.1, n.2.2) ∈ _ from (findToken_mem found).1)
  exact ⟨by simp, label, rule⟩

theorem findWords_path (labelled : Labelled cmds t) (words p : List Word) (op : CliParserOp) :
    (findWords special mode words (below t p) op).2 = none ∧
        searchPath special mode words (below t p) = none ∨
      ∃ q n, (findWords special mode words (below t p) op).2 = some n ∧
        searchPath special mode words (below t p) = some q ∧ IsAt t (p ++ q) n := by
  induction words generalizing p op with
  | nil => exact .inl ⟨rfl, rfl⟩
  | cons w rest ih =>
    have node := @findToken_node special mode (below t p)
      { op with wordMultimatch := [], word := w } noOp w
    cases found : (findToken special mode (below t p)
        { op with wordMultimatch := [], word := w } w).2 with
    | none =>
      rw [found] at node
      refine .inl ⟨by simp only [findWords, found], ?_⟩
      cases rest with
      | nil => rw [searchPath, ← node, Option.map_none]
      | cons v more => rw [searchPath, ← node, Option.bind_none]
    | some n =>
      rw [found] at node
      have isAt := isAt_of_findToken labelled found
      have level : below t (p ++ [n.1]) = n.2.2 := isAt.2.2
      cases rest with
      | nil =>
        right
        refine ⟨[n.1], n, by simp only [findWords, found], ?_, isAt⟩
        rw [searchPath, ← node, Option.map_some]
      | cons v more =>
        have path : searchPath special mode (w :: v :: more) (below t p) =
            (searchPath special mode (v :: more) (below t (p ++ [n.1]))).map (n.1 :: ·) := by
          rw [searchPath, ← node, Option.bind_some, level]
        rw [path]
        rcases ih (p ++ [n.1]) { (findToken special mode (below t p)
            { op with wordMultimatch := [], word := w } w).1 with
              lastNodeMatch := some n
              depth := (findToken special mode (below t p)
                { op with wordMultimatch := [], word := w } w).1.depth + 1 } with
          ⟨none, nowhere⟩ | ⟨q, m, result, leads, isAt'⟩
        · left
          refine ⟨?_, by rw [nowhere, Option.map_none]⟩
          rw [level] at none
          cases empty : n.2.2 with
          | nil => simp only [findWords, found, empty]
          | node key lbl sub next =>
            rw [empty] at none
            simpa only [findWords, found, empty] using none
        · right
          refine ⟨n.1 :: q, m, ?_, by rw [leads, Option.map_some], ?_⟩
          · rw [level] at result
            cases empty : n.2.2 with
            | nil =>
              rw [level, empty] at leads
              cases more <;> cases leads
            | node key lbl sub next =>
              rw [empty] at result
              simpa only [findWords, found, empty] using result
          · rw [List.append_cons]
            exact isAt'

/-- The node that is found for a word below a path has this word for its token. -/
def Steps (special : Word → Word → Bool) (mode : CliMode) (t : Trie Word Label)
    (p : List Word) (w : Word) : Prop :=
  (findToken special mode (below t p) noOp w).2.map (·.1) = some w

theorem searchPath_eq_self_iff (labelled : Labelled cmds t) (words p : List Word)
    (nonempty : words ≠ []) :
    searchPath special mode words (below t p) = some words ↔
      ∀ q w, q ++ [w] <+: words → Steps special mode t (p ++ q) w := by
  induction words generalizing p with
  | nil => exact absurd rfl nonempty
  | cons w rest ih =>
    have first (all : ∀ q v, q ++ [v] <+: w :: rest → Steps special mode t (p ++ q) v) :
        ∃ n, (findToken special mode (below t p) noOp w).2 = some n ∧ n.1 = w := by
      have here := all [] w ⟨rest, rfl⟩
      rw [List.append_nil] at here
      exact Option.map_eq_some_iff.mp here
    have along {q : List Word} {v : Word} (inside : q ++ [v] <+: w :: rest) :
        q = [] ∧ v = w ∨ ∃ q', q = w :: q' ∧ q' ++ [v] <+: rest := by
      cases q with
      | nil => exact .inl ⟨rfl, (List.cons_prefix_cons.mp inside).1⟩
      | cons u q' =>
        obtain ⟨rfl, deeper⟩ := List.cons_prefix_cons.mp inside
        exact .inr ⟨q', rfl, deeper⟩
    cases rest with
    | nil =>
      rw [searchPath]
      constructor
      · intro single q v inside
        obtain ⟨n, found, eq⟩ := Option.map_eq_some_iff.mp single
        rcases along inside with ⟨rfl, rfl⟩ | ⟨q', -, deeper⟩
        · rw [Steps, List.append_nil, found, Option.map_some, (List.cons.inj eq).1]
        · exact absurd (List.prefix_nil.mp deeper) (by simp)
      · intro all
        obtain ⟨n, found, eq⟩ := first all
        rw [found, Option.map_some, eq]
    | cons v more =>
      rw [searchPath]
      cases found : (findToken special mode (below t p) noOp w).2 with
      | none =>
        rw [Option.bind_none]
        constructor
        · intro none
          cases none
        · intro all
          obtain ⟨n, found', -⟩ := first all
          rw [found] at found'
          cases found'
      | some n =>
        have level : below t (p ++ [n.1]) = n.2.2 := (isAt_of_findToken labelled found).2.2
        rw [Option.bind_some, ← level]
        constructor
        · intro path q u inside
          obtain ⟨q', path', eq⟩ := Option.map_eq_some_iff.mp path
          obtain ⟨same, rfl⟩ := List.cons.inj eq
          rcases along inside with ⟨rfl, rfl⟩ | ⟨q'', rfl, deeper⟩
          · rw [Steps, List.append_nil, found, Option.map_some, same]
          · rw [same] at path'
            rw [List.append_cons]
            exact (ih (p ++ [w]) (by simp)).mp path' q'' u deeper
        · intro all
          obtain ⟨n', found', same⟩ := first all
          rw [found] at found'
          cases found'
          rw [same, (ih (p ++ [w]) (by simp)).mpr ?_, Option.map_some]
          intro q u deeper
          have step := all (w :: q) u (List.cons_prefix_cons.mpr ⟨rfl, deeper⟩)
          rwa [List.append_cons] at step

end Runs

section Own

theorem find?_eq_some_first_iff {α : Type} [DecidableEq α] {P : α → Bool} {l : List α} {w : α}
    (member : w ∈ l) :
    l.find? P = some w ↔ P w = true ∧ ∀ v ∈ l.takeWhile (· ≠ w), P v = false := by
  induction l with
  | nil => cases member
  | cons u rest ih =>
    by_cases same : u = w
    · subst same
      rw [List.takeWhile_cons_of_neg (by simp)]
      constructor
      · intro found
        exact ⟨List.find?_some found, by simp⟩
      · rintro ⟨holds, -⟩
        exact List.find?_cons_of_pos holds
    · have later : w ∈ rest := (List.mem_cons.mp member).resolve_left (Ne.symm same)
      rw [List.takeWhile_cons_of_pos (by simpa using same)]
      cases here : P u with
      | true =>
        rw [List.find?_cons_of_pos here]
        constructor
        · intro found
          exact absurd (Option.some.inj found) same
        · rintro ⟨-, none⟩
          have fails := none u List.mem_cons_self
          rw [here] at fails
          cases fails
      | false =>
        rw [List.find?_cons_of_neg (by simp [here]), ih later]
        simp [here]

variable {env : Env} {cmds : List Cmd} {c : Cmd} {t : Trie Word Label}

theorem shows_own (member : c ∈ cmds) (some' : c.mode ≠ 0) {p : List Word}
    (along : p <+: c.words) : Shows cmds c.mode p := by
  obtain ⟨i, bit⟩ := ne_zero_iff_getLsbD.mp some'
  exact ⟨i, .inl ⟨c, member, along, bit⟩, bit⟩

theorem mode_ne_zero_of_steps {special : Word → Word → Bool} {mode : CliMode} {p : List Word}
    {w : Word} (steps : Steps special mode t p w) : mode ≠ 0 := by
  rintro rfl
  obtain ⟨n, found, -⟩ := Option.map_eq_some_iff.mp steps
  have seen := (findToken_mem found).2
  simp [visible] at seen

theorem steps_special (labelled : Labelled cmds t) (built : addAll cmds .nil = some t)
    (member : c ∈ cmds) (some' : c.mode ≠ 0) {p : List Word} {w : Word}
    (along : p ++ [w] <+: c.words) (isSpecialW : isSpecial w = true) :
    Steps (cliCheckSpecial env) c.mode t p w ↔
      Known w ∧ ∀ v ∈ (nextWords cmds p).takeWhile (· ≠ w),
        isSpecial v = true → Shows cmds c.mode (p ++ [v]) → cliCheckSpecial env v w = false := by
  classical
  have own := shows_own member some' along
  have there : w ∈ nextWords cmds p := mem_nextWords.mpr ⟨c, member, along⟩
  rw [Steps, findToken_special labelled built isSpecialW, find?_eq_some_first_iff there,
    ← cliCheckSpecial_self env]
  simp only [isSpecialW, own, decide_true, Bool.true_and, Bool.and_eq_false_imp,
    Bool.and_eq_true, decide_eq_true_eq, and_imp]

/-- The look up of a command by its own text ends at the node of the command exactly when
the command has a mode and its special tokens are known and not accepted by others that
were added before them. -/
theorem cliParserFindCmd_ownText (env : Env) (cmds : List Cmd) (t : Trie Word Label)
    (c : Cmd) (op : CliParserOp) (built : addAll cmds .nil = some t) (member : c ∈ cmds)
    (nonempty : c.words ≠ []) :
    (∃ op' n, cliParserFindCmd (cliCheckSpecial env) c.mode t op c.cmd = some (op', some n) ∧
      searchPath (cliCheckSpecial env) c.mode c.words t = some c.words ∧
      IsAt t c.words n ∧ 0 < n.2.1.exe) ↔
    c.mode ≠ 0 ∧ OwnWay env cmds c := by
  have labelled : Labelled cmds t := labelled_addAll labelled_nil built
  have path := @searchPath_eq_self_iff (cliCheckSpecial env) c.mode _ _
    labelled c.words [] nonempty
  constructor
  · rintro ⟨-, -, -, leads, -⟩
    have steps := path.mp leads
    have some' : c.mode ≠ 0 := by
      obtain ⟨w, rest, words⟩ := List.exists_cons_of_ne_nil nonempty
      exact mode_ne_zero_of_steps (steps [] w ⟨rest, by rw [words]; rfl⟩)
    refine ⟨some', ?_⟩
    intro p w along special
    exact (steps_special labelled built member some' along special).mp (steps p w along)
  · rintro ⟨some', way⟩
    have leads : searchPath (cliCheckSpecial env) c.mode c.words t = some c.words := by
      refine path.mpr fun q w along => ?_
      rw [List.nil_append]
      cases special : isSpecial w with
      | true =>
        exact (steps_special labelled built member some' along special).mpr (way q w along special)
      | false =>
        obtain ⟨n, found, token⟩ := findToken_regular
          labelled special (shows_own member some' along) noOp
        rw [Steps, found, Option.map_some, token]
    rcases findWords_path labelled c.words []
        { op with wordCompleted := [], lastNodeMatch := none, wordMultimatch := [], depth := 0 }
      with ⟨-, nowhere⟩ | ⟨q, n, found, leads', isAt⟩
    · rw [show below t [] = t from rfl, leads] at nowhere
      cases nowhere
    · rw [show below t [] = t from rfl, leads] at leads'
      cases leads'
      have nonNil := nonNil_of_words labelled member nonempty
      have result := cliParserFindCmd_eq (cliCheckSpecial env) c.mode nonNil op c.cmd
      exact ⟨_, n, result.trans (congrArg some (Prod.ext rfl found)), leads, isAt,
        (labelled.label _ _ isAt.2.1).exe.mpr ⟨c, member, rfl⟩⟩

end Own

section Cases

def emptyEnv : Env := ⟨fun _ => false, []⟩

def demoCmds : List Cmd :=
  [⟨2, "show <ip>".toList⟩, ⟨2, "show <word>".toList⟩, ⟨4, "clear <i,1,99>".toList⟩]

def demoTree : Trie Word Label := (addAll demoCmds .nil).getD .nil

theorem demoTree_eq : addAll demoCmds .nil = some demoTree := rfl

theorem ownWay_showIp : OwnWay emptyEnv demoCmds ⟨2, "show <ip>".toList⟩ := by
  rintro p w ⟨rest, words⟩ special
  replace words : p ++ [w] ++ rest = ["show".toList, "<ip>".toList] := words
  rcases p with _ | ⟨u, _ | ⟨v, more⟩⟩
  · obtain ⟨rfl, -⟩ := List.cons.inj words
    exact absurd special (by decide)
  · obtain ⟨rfl, tail⟩ := List.cons.inj words
    obtain ⟨rfl, -⟩ := List.cons.inj tail
    refine ⟨by decide, ?_⟩
    intro v early
    have first : (nextWords demoCmds ["show".toList]).takeWhile (· ≠ "<ip>".toList) = [] := by
      decide
    rw [first] at early
    cases early
  · simp at words

/-- The text `show <ip>` leads to its own node: the token was added before `<word>`. -/
theorem cliParserFindCmd_showIp :
    ∃ op' n, cliParserFindCmd (cliCheckSpecial emptyEnv) 2 demoTree noOp "show <ip>".toList =
        some (op', some n) ∧
      IsAt demoTree ["show".toList, "<ip>".toList] n := by
  obtain ⟨op', n, found, -, isAt, -⟩ := (cliParserFindCmd_ownText emptyEnv demoCmds demoTree
    ⟨2, "show <ip>".toList⟩ noOp demoTree_eq List.mem_cons_self (by decide)).mpr
      ⟨by decide, ownWay_showIp⟩
  exact ⟨op', n, found, isAt⟩

def takenCmds : List Cmd := [⟨2, "show <word>".toList⟩, ⟨2, "show <ip>".toList⟩]

def takenTree : Trie Word Label := (addAll takenCmds .nil).getD .nil

/-- The text `show <ip>` leads to the node of `show <word>`. -/
theorem cliParserFindCmd_taken :
    ¬ ∀ (env : Env) (cmds : List Cmd) (t : Trie Word Label) (c : Cmd) (op : CliParserOp),
      addAll cmds .nil = some t → c ∈ cmds → c.words ≠ [] →
      ∃ op' n, cliParserFindCmd (cliCheckSpecial env) c.mode t op c.cmd = some (op', some n) ∧
        searchPath (cliCheckSpecial env) c.mode c.words t = some c.words ∧
        IsAt t c.words n ∧ 0 < n.2.1.exe := by
  intro all
  obtain ⟨-, -, -, leads, -⟩ := all emptyEnv takenCmds takenTree ⟨2, "show <ip>".toList⟩ noOp
    rfl (List.mem_cons_of_mem _ List.mem_cons_self) (by decide)
  have taken : searchPath (cliCheckSpecial emptyEnv) 2 (wordsOf "show <ip>".toList) takenTree =
      some ["show".toList, "<word>".toList] := by decide
  rw [Cmd.words, taken] at leads
  exact absurd leads (by decide)

end Cases

end LiteralLookup
