import Rcp100.WordTrie

/-!
# The command line parser

The commands are kept in a tree of words. A node has the modes in which it is visible and
the modes in which a command ends there. A line is looked up word by word: the word itself
first, then the special tokens, then the only visible word that starts with it.
-/

namespace CliParser

open WordTrie

abbrev Word := List Char

abbrev CliMode := BitVec 64

def climodeAll : CliMode := BitVec.allOnes 64

def getWordLen (str : List Char) : Nat := (str.takeWhile (· ≠ ' ')).length

/-- The words that both parsers meet one after the other. A word is not longer than the
string, so `left` does not run out. -/
def wordsFrom : Nat → List Char → List Word
  | 0, _ => []
  | left+1, str =>
    let ptr := str.dropWhile (· = ' ')
    let len := getWordLen ptr
    if len = 0 then [] else ptr.take len :: wordsFrom left (ptr.drop len)

def wordsOf (str : List Char) : List Word := wordsFrom str.length str

/-- What a node holds besides its token, its `rule` and its `next`. -/
structure Label where
  exe : Nat
  exeMode : CliMode
  mode : CliMode
deriving DecidableEq

abbrev CliNode := Word × Label × Trie Word Label

def createNode (mode : CliMode) : Label := { exe := 0, exeMode := 0, mode := mode }

/-- `find_token` of `parser_add.c` looks with `CLIMODE_ALL`. -/
def visibleToAll (n : Label) : Bool := n.mode &&& climodeAll ≠ 0

/-- A node made with no mode is not found by the retry, which makes another one until the
memory is used up. -/
def newNode (mode : CliMode) : Option Label :=
  if visibleToAll (createNode mode) then some (createNode mode) else none

/-- The node of the first word when it is new. The head was created with `CLIMODE_ALL` and
without a token. -/
def firstNode (mode : CliMode) : Trie Word Label → Option Label
  | .nil => some (createNode climodeAll)
  | .node .. => newNode mode

/-- `cliParserAddCmd_internal`. -/
def cliParserAddCmd (mode : CliMode) (head : Trie Word Label) (str : List Char) :
    Option (Trie Word Label) :=
  insert visibleToAll (newNode mode) (fun found => { found with mode := found.mode ||| mode })
    (fun found =>
      { exe := found.exe + 1
        exeMode := found.exeMode ||| mode
        mode := found.mode ||| mode })
    (wordsOf str) (firstNode mode head) head

structure CliParserOp where
  word : Word
  wordMultimatch : List Char
  wordCompleted : List Char
  lastNodeMatch : Option CliNode
  depth : Nat

def isSpecial (token : Word) : Bool := token.head? = some '<'

section Find

variable (special : Word → Word → Bool) (mode : CliMode)

def visible (n : CliNode) : Bool := n.2.1.mode &&& mode ≠ 0

/-- `find_token` of `parser_find.c`. The test `cliCheckSpecial(token, word) == 0` is a
parameter. -/
def findToken (level : Trie Word Label) (op : CliParserOp) (token : Word) :
    CliParserOp × Option CliNode :=
  match (siblings level).find? (fun n => !isSpecial n.1 && visible mode n && n.1 = token) with
  | some n => ({ op with wordCompleted := op.wordCompleted ++ n.1 ++ [' '] }, some n)
  | none =>
    match (siblings level).find?
        (fun n => isSpecial n.1 && visible mode n && special n.1 token) with
    | some n => ({ op with wordCompleted := op.wordCompleted ++ token ++ [' '] }, some n)
    | none =>
      let matched := (siblings level).filter
        (fun n => !isSpecial n.1 && visible mode n && token.isPrefixOf n.1)
      let op := { op with wordMultimatch := matched.flatMap (fun n => n.1 ++ [' ']) }
      match matched with
      | [n] => ({ op with wordCompleted := op.wordCompleted ++ n.1 ++ [' '] }, some n)
      | _ => (op, none)

/-- `cliParserFindCmd_internal`. -/
def findWords : List Word → Trie Word Label → CliParserOp → CliParserOp × Option CliNode
  | [], _, op => ({ op with wordMultimatch := [] }, none)
  | token :: rest, level, op =>
    let r := findToken special mode level { op with wordMultimatch := [], word := token } token
    match r.2 with
    | none => (r.1, none)
    | some n =>
      let op := { r.1 with lastNodeMatch := some n, depth := r.1.depth + 1 }
      match rest, n.2.2 with
      | [], _ => (op, some n)
      | _ :: _, .nil => (op, none)
      | _ :: _, .node .. => findWords rest n.2.2 op

/-- Nothing is returned when the head has no token and a word is looked up: the assertion
of `find_token` fails. -/
def cliParserFindCmd (head : Trie Word Label) (op : CliParserOp) (str : List Char) :
    Option (CliParserOp × Option CliNode) :=
  let op := { op with
    wordCompleted := [], lastNodeMatch := none, wordMultimatch := [], depth := 0 }
  match wordsOf str, head with
  | _ :: _, .nil => none
  | words, head => some (findWords special mode words head op)

end Find

/-- A call of `cliParserAddCmd`. -/
structure Cmd where
  mode : CliMode
  cmd : List Char

def Cmd.words (c : Cmd) : List Word := wordsOf c.cmd

/-- The tree after a sequence of calls, all of which found enough memory. -/
def addAll (cmds : List Cmd) (head : Trie Word Label) : Option (Trie Word Label) :=
  cmds.foldlM (fun head c => cliParserAddCmd c.mode head c.cmd) head

section Built

variable (cmds : List Cmd)

/-- The token of the head, the first word that was added. -/
def firstWord : Option Word := (cmds.flatMap Cmd.words).head?

/-- The bit is among the modes of a node: that of a command along the path, or any at the
head. -/
def Seen (p : List Word) (i : Nat) : Prop :=
  (∃ c ∈ cmds, p <+: c.words ∧ c.mode.getLsbD i = true) ∨
    i < 64 ∧ ∃ w, firstWord cmds = some w ∧ p = [w]

/-- Exactly this command was added with a mode that has the bit. -/
def Added (p : List Word) (i : Nat) : Prop :=
  ∃ c ∈ cmds, c.words = p ∧ c.mode.getLsbD i = true

structure LabelOf (p : List Word) (b : Label) : Prop where
  mode : ∀ i, b.mode.getLsbD i = true ↔ Seen cmds p i
  exe : 0 < b.exe ↔ ∃ c ∈ cmds, c.words = p
  exeMode : ∀ i, b.exeMode.getLsbD i = true ↔ Added cmds p i

/-- The tree has the nodes of the commands, with the labels that follow from them. -/
structure Labelled (t : Trie Word Label) : Prop where
  tidy : Tidy visibleToAll t
  there : ∀ p, p ≠ [] → ((∃ b, labelAt t p = some b) ↔ ∃ c ∈ cmds, p <+: c.words)
  label : ∀ p b, labelAt t p = some b → LabelOf cmds p b

end Built

section Adding

variable {cmds : List Cmd} {c : Cmd} {t : Trie Word Label}

theorem firstWord_snoc : firstWord (cmds ++ [c]) = (firstWord cmds).or c.words.head? := by
  rw [firstWord, firstWord, List.flatMap_append, List.head?_append, List.flatMap_singleton]

theorem labelled_nil : Labelled [] .nil := by
  refine ⟨trivial, ?_, ?_⟩
  · intro p _
    have absent : labelAt (.nil : Trie Word Label) p = none := by
      rcases p with _ | ⟨w, _ | ⟨v, rest⟩⟩ <;> rfl
    simp [absent]
  · intro p b found
    have absent : labelAt (.nil : Trie Word Label) p = none := by
      rcases p with _ | ⟨w, _ | ⟨v, rest⟩⟩ <;> rfl
    rw [absent] at found
    cases found

theorem Labelled.firstWord_eq_none_iff (labelled : Labelled cmds t) :
    firstWord cmds = none ↔ t = .nil := by
  rw [firstWord, List.head?_eq_none_iff, List.flatMap_eq_nil_iff]
  constructor
  · intro blank
    cases t with
    | nil => rfl
    | node key label rule next =>
      have found : labelAt (.node key label rule next) [key] = some label := by
        simp [labelAt, child]
      obtain ⟨c, member, along⟩ := (labelled.there [key] (by simp)).mp ⟨label, found⟩
      rw [blank c member] at along
      exact absurd (List.prefix_nil.mp along) (by simp)
  · rintro rfl c member
    cases words : c.words with
    | nil => rfl
    | cons w rest =>
      have along : [w] <+: c.words := by
        rw [words]
        exact ⟨rest, rfl⟩
      obtain ⟨b, found⟩ := (labelled.there [w] (by simp)).mpr ⟨c, member, along⟩
      cases found

variable {p : List Word} {i : Nat} {b : Label} {mode : CliMode}

/-- A bit is seen after a command was added when it was seen before, or the command goes
along the path, or the path is the new head. -/
theorem seen_snoc :
    Seen (cmds ++ [c]) p i ↔
      Seen cmds p i ∨ p <+: c.words ∧ c.mode.getLsbD i = true ∨
        firstWord cmds = none ∧ i < 64 ∧ ∃ w, c.words.head? = some w ∧ p = [w] := by
  rw [Seen, Seen, firstWord_snoc]
  cases firstWord cmds with
  | none =>
    simp only [Option.none_or, List.mem_append, List.mem_singleton, or_and_right, exists_or,
      exists_eq_left, true_and, reduceCtorEq, false_and, exists_false, and_false, or_false,
      or_assoc]
  | some w =>
    simp only [Option.some_or, List.mem_append, List.mem_singleton, or_and_right, exists_or,
      exists_eq_left, reduceCtorEq, false_and, or_false]
    constructor
    · rintro ((old | new) | head)
      · exact .inl (.inl old)
      · exact .inr new
      · exact .inl (.inr head)
    · rintro ((old | head) | new)
      · exact .inl (.inl old)
      · exact .inr head
      · exact .inl (.inr new)

theorem added_snoc :
    Added (cmds ++ [c]) p i ↔ Added cmds p i ∨ c.words = p ∧ c.mode.getLsbD i = true := by
  simp only [Added, List.mem_append, List.mem_singleton, or_and_right, exists_or, exists_eq_left]

theorem visibleToAll_iff : visibleToAll b = true ↔ b.mode ≠ 0 := by
  have all : b.mode &&& climodeAll = b.mode := BitVec.and_allOnes
  rw [visibleToAll, all, decide_eq_true_iff]

theorem newNode_eq_some (made : newNode mode = some b) :
    b = createNode mode ∧ visibleToAll b = true := by
  rw [newNode] at made
  split at made
  · rename_i usable
    cases made
    exact ⟨rfl, usable⟩
  · cases made

theorem firstWord_along {w : Word} (first : firstWord cmds = some w) :
    ∃ c ∈ cmds, [w] <+: c.words := by
  induction cmds with
  | nil => cases first
  | cons d rest ih =>
    rw [firstWord, List.flatMap_cons, List.head?_append] at first
    cases words : d.words with
    | nil =>
      rw [words] at first
      obtain ⟨c, member, along⟩ := ih first
      exact ⟨c, List.mem_cons_of_mem _ member, along⟩
    | cons v more =>
      rw [words] at first
      cases first
      exact ⟨d, List.mem_cons_self, by rw [words]; exact ⟨more, rfl⟩⟩

theorem not_seen (absent : ¬ ∃ c ∈ cmds, p <+: c.words) :
    ¬ Seen cmds p i := by
  rintro (⟨d, member, along, -⟩ | ⟨-, w, first, rfl⟩)
  · exact absent ⟨d, member, along⟩
  · exact absent (firstWord_along first)

theorem labelAt_trie_nil (p : List Word) : labelAt (.nil : Trie Word Label) p = none := by
  rcases p with _ | ⟨w, _ | ⟨v, rest⟩⟩ <;> rfl

theorem Labelled.prior_mode (labelled : Labelled cmds t)
    (nonempty : p ≠ []) (along : p <+: c.words)
    (prior : PriorLabel t (newNode c.mode) (firstNode c.mode t) p b) (i : Nat) :
    (b.mode ||| c.mode).getLsbD i = true ↔ Seen (cmds ++ [c]) p i := by
  rw [seen_snoc, BitVec.getLsbD_or, Bool.or_eq_true]
  rcases prior with old | ⟨new, made⟩
  · have nonNil : firstWord cmds ≠ none := by
      intro none
      rw [labelled.firstWord_eq_none_iff.mp none, labelAt_trie_nil] at old
      cases old
    rw [(labelled.label p b old).mode i]
    simp only [along, true_and, nonNil, false_and, or_false]
  · have absent : ¬ ∃ d ∈ cmds, p <+: d.words := by
      rw [← labelled.there p nonempty, new]
      simp
    have plain (made : newNode c.mode = some b) : b.mode.getLsbD i = c.mode.getLsbD i := by
      rw [(newNode_eq_some made).1, createNode]
    simp only [not_seen absent, along, true_and, false_or]
    by_cases one : p.length = 1
    · obtain ⟨w, rfl⟩ := List.length_eq_one_iff.mp one
      rw [if_pos one] at made
      have head : c.words.head? = some w := by
        obtain ⟨rest, words⟩ := along
        rw [← words]
        rfl
      cases t with
      | nil =>
        cases made
        have none : firstWord cmds = none := labelled.firstWord_eq_none_iff.mpr rfl
        have bit : (createNode climodeAll).mode.getLsbD i = decide (i < 64) :=
          BitVec.getLsbD_allOnes
        simp [none, head, bit, or_comm]
      | node key label rule next =>
        have nonNil : firstWord cmds ≠ none := by
          intro none
          cases labelled.firstWord_eq_none_iff.mp none
        simp only [plain made, nonNil, false_and, or_false, or_self]
    · rw [if_neg one] at made
      have long : ¬ ∃ w, c.words.head? = some w ∧ p = [w] := by
        rintro ⟨w, -, rfl⟩
        exact one rfl
      simp only [plain made, long, and_false, or_false, or_self]

theorem Labelled.prior_exe (labelled : Labelled cmds t)
    (nonempty : p ≠ []) (prior : PriorLabel t (newNode c.mode) (firstNode c.mode t) p b) :
    (0 < b.exe ↔ ∃ d ∈ cmds, d.words = p) ∧
      ∀ i, b.exeMode.getLsbD i = true ↔ Added cmds p i := by
  rcases prior with old | ⟨new, made⟩
  · exact ⟨(labelled.label p b old).exe, (labelled.label p b old).exeMode⟩
  · have absent : ¬ ∃ d ∈ cmds, p <+: d.words := by
      rw [← labelled.there p nonempty, new]
      simp
    have created : ∃ mode, b = createNode mode := by
      split at made
      · cases t with
        | nil =>
          cases made
          exact ⟨_, rfl⟩
        | node => exact ⟨_, (newNode_eq_some made).1⟩
      · exact ⟨_, (newNode_eq_some made).1⟩
    obtain ⟨mode, rfl⟩ := created
    constructor
    · constructor
      · intro positive
        exact absurd positive (Nat.lt_irrefl 0)
      · rintro ⟨d, member, rfl⟩
        exact absurd ⟨d, member, List.prefix_rfl⟩ absent
    · intro i
      constructor
      · intro bit
        simp [createNode] at bit
      · rintro ⟨d, member, rfl, -⟩
        exact absurd ⟨d, member, List.prefix_rfl⟩ absent

theorem visibleToAll_of_firstNode (made : firstNode mode t = some b) : visibleToAll b = true := by
  cases t with
  | nil =>
    cases made
    decide
  | node => exact (newNode_eq_some made).2

theorem visibleToAll_or (usable : visibleToAll b = true) :
    visibleToAll { b with mode := b.mode ||| mode } = true := by
  rw [visibleToAll_iff] at usable ⊢
  intro zero
  exact usable (BitVec.or_eq_zero_iff.mp zero).1

theorem Labelled.add {t' : Trie Word Label} (labelled : Labelled cmds t)
    (added : cliParserAddCmd c.mode t c.cmd = some t') : Labelled (cmds ++ [c]) t' := by
  obtain ⟨tidy, others, along⟩ := insert_spec labelled.tidy added
    (fun b made => (newNode_eq_some made).2) (fun b made => visibleToAll_of_firstNode made)
    (fun b usable => visibleToAll_or usable) (fun b usable => visibleToAll_or usable)
  refine ⟨tidy, ?_, ?_⟩
  · intro p nonempty
    by_cases inside : p <+: c.words
    · obtain ⟨b, -, label⟩ := along p nonempty inside
      constructor
      · intro _
        exact ⟨c, by simp, inside⟩
      · intro _
        exact ⟨_, label⟩
    · rw [others p inside, labelled.there p nonempty]
      constructor
      · rintro ⟨d, member, inside'⟩
        exact ⟨d, List.mem_append_left _ member, inside'⟩
      · rintro ⟨d, member, inside'⟩
        rcases List.mem_append.mp member with old | new
        · exact ⟨d, old, inside'⟩
        · rw [List.mem_singleton.mp new] at inside'
          exact absurd inside' inside
  · intro p b found
    have nonempty : p ≠ [] := by
      rintro rfl
      cases found
    by_cases inside : p <+: c.words
    · obtain ⟨b₀, prior, label⟩ := along p nonempty inside
      have mode := labelled.prior_mode nonempty inside prior
      obtain ⟨exe, exeMode⟩ := labelled.prior_exe nonempty prior
      rw [label] at found
      by_cases last : p = c.words
      · cases Option.some.inj (found.symm.trans (congrArg some (if_pos last)))
        refine ⟨mode, ?_, ?_⟩
        · exact ⟨fun _ => ⟨c, by simp, last.symm⟩, fun _ => Nat.succ_pos _⟩
        · intro i
          rw [added_snoc, BitVec.getLsbD_or, Bool.or_eq_true, exeMode i]
          simp only [last, true_and]
      · cases Option.some.inj (found.symm.trans (congrArg some (if_neg last)))
        refine ⟨mode, ?_, ?_⟩
        · rw [exe]
          simp only [List.mem_append, List.mem_singleton, or_and_right, exists_or,
            exists_eq_left, Ne.symm last, or_false]
        · intro i
          rw [added_snoc, exeMode i]
          simp only [Ne.symm last, false_and, or_false]
    · rw [others p inside] at found
      have old := labelled.label p b found
      have notHead : ¬ ∃ w, c.words.head? = some w ∧ p = [w] := by
        rintro ⟨w, head, rfl⟩
        obtain ⟨rest, words⟩ := List.head?_eq_some_iff.mp head
        exact inside (by rw [words]; exact ⟨rest, rfl⟩)
      have other : c.words ≠ p := by
        rintro rfl
        exact inside List.prefix_rfl
      refine ⟨?_, ?_, ?_⟩
      · intro i
        rw [seen_snoc, old.mode i]
        simp only [inside, notHead, false_and, and_false, or_false]
      · rw [old.exe]
        simp only [List.mem_append, List.mem_singleton, or_and_right, exists_or,
          exists_eq_left, other, or_false]
      · intro i
        rw [added_snoc, old.exeMode i]
        simp only [other, false_and, or_false]

theorem labelled_addAll {cmds todo : List Cmd} {t t' : Trie Word Label}
    (labelled : Labelled cmds t) (built : addAll todo t = some t') :
    Labelled (cmds ++ todo) t' := by
  induction todo generalizing cmds t with
  | nil =>
    cases built
    rw [List.append_nil]
    exact labelled
  | cons c rest ih =>
    rw [addAll, List.foldlM_cons, Option.bind_eq_bind, Option.bind_eq_some_iff] at built
    obtain ⟨next, added, built⟩ := built
    rw [List.append_cons]
    exact ih (labelled.add added) built

end Adding

section Resolution

variable (cmds : List Cmd) (mode : CliMode)

/-- The node at the path is visible in the mode. -/
def Shows (p : List Word) : Prop := ∃ i, Seen cmds p i ∧ mode.getLsbD i = true

/-- Below the path `p` the word `w` stands for `v`: it is the same word, or it is not there
and `v` is the only one that starts with it. -/
def Picks (p : List Word) (w v : Word) : Prop :=
  Shows cmds mode (p ++ [v]) ∧
    (v = w ∨ ¬ Shows cmds mode (p ++ [w]) ∧ w <+: v ∧
      ∀ u, Shows cmds mode (p ++ [u]) → w <+: u → u = v)

/-- From the path `p` the words lead to the path `q`. -/
inductive Resolves : List Word → List Word → List Word → Prop
  | nil (p : List Word) : Resolves p [] p
  | cons {p : List Word} {w v : Word} {rest q : List Word} :
    Picks cmds mode p w v → Resolves (p ++ [v]) rest q → Resolves p (w :: rest) q

def Plain : Prop := ∀ c ∈ cmds, ∀ w ∈ c.words, isSpecial w = false

end Resolution

section Found

variable {cmds : List Cmd} {mode : CliMode} {t : Trie Word Label}

variable {p : List Word} {w : Word} {n : CliNode}

theorem Picks.unique {u v : Word} (first : Picks cmds mode p w u)
    (second : Picks cmds mode p w v) : u = v := by
  obtain ⟨shown, rfl | ⟨absent, starts, only⟩⟩ := first
  · obtain ⟨-, rfl | ⟨absent', -, -⟩⟩ := second
    · rfl
    · exact absurd shown absent'
  · obtain ⟨shown', rfl | ⟨-, starts', -⟩⟩ := second
    · exact absurd shown' absent
    · exact (only v shown' starts').symm

theorem Resolves.unique {words q r : List Word} (first : Resolves cmds mode p words q)
    (second : Resolves cmds mode p words r) : q = r := by
  induction first with
  | nil p =>
    cases second
    rfl
  | cons picks _ ih =>
    obtain - | ⟨picks', rest'⟩ := second
    rw [picks'.unique picks] at rest'
    exact ih rest'

theorem ne_zero_iff_getLsbD {x : CliMode} : x ≠ 0 ↔ ∃ i, x.getLsbD i = true := by
  constructor
  · intro nonzero
    by_contra none
    refine nonzero (BitVec.eq_of_getLsbD_eq fun i _ => ?_)
    rw [Bool.eq_false_iff.mpr (fun bit => none ⟨i, bit⟩)]
    exact BitVec.getLsbD_zero.symm
  · rintro ⟨i, bit⟩ rfl
    exact absurd bit (by simp)

section

variable (labelled : Labelled cmds t)

include labelled

theorem Labelled.visible_iff (member : n ∈ siblings (below t p)) :
    visible mode n = true ↔ Shows cmds mode (p ++ [n.1]) := by
  have label := (mem_siblings_below labelled.tidy).mp (show (n.1, n.2.1, n.2.2) ∈ _ from member)
  have modes := (labelled.label _ _ label.1).mode
  rw [visible, decide_eq_true_iff, ne_zero_iff_getLsbD, Shows]
  simp only [BitVec.getLsbD_and, Bool.and_eq_true, modes]

theorem Labelled.node_of_shows {v : Word} (shown : Shows cmds mode (p ++ [v])) :
    ∃ n ∈ siblings (below t p), n.1 = v ∧ visible mode n = true := by
  have along : ∃ c ∈ cmds, (p ++ [v]) <+: c.words := by
    by_contra absent
    obtain ⟨i, seen, -⟩ := shown
    exact not_seen absent seen
  obtain ⟨b, label⟩ := (labelled.there _ (by simp)).mpr along
  have member := (mem_siblings_below labelled.tidy).mpr ⟨label, rfl⟩
  exact ⟨_, member, rfl, (labelled.visible_iff member).mpr shown⟩

theorem Labelled.not_special (plain : Plain cmds) (member : n ∈ siblings (below t p)) :
    isSpecial n.1 = false := by
  have label := (mem_siblings_below labelled.tidy).mp (show (n.1, n.2.1, n.2.2) ∈ _ from member)
  obtain ⟨c, inCmds, along⟩ := (labelled.there _ (by simp)).mp ⟨_, label.1⟩
  exact plain c inCmds n.1 (along.subset (by simp))

theorem Labelled.mem_matched (plain : Plain cmds) :
    n ∈ (siblings (below t p)).filter
        (fun n => !isSpecial n.1 && visible mode n && w.isPrefixOf n.1) ↔
      n ∈ siblings (below t p) ∧ Shows cmds mode (p ++ [n.1]) ∧ w <+: n.1 := by
  rw [List.mem_filter]
  refine and_congr_right fun member => ?_
  simp [labelled.not_special plain member, labelled.visible_iff member]

theorem Labelled.find_special (plain : Plain cmds)
    (special : Word → Word → Bool) (mode : CliMode) (p : List Word) (w : Word) :
    (siblings (below t p)).find?
      (fun n => isSpecial n.1 && visible mode n && special n.1 w) = none := by
  rw [List.find?_eq_none]
  intro n member
  simp [labelled.not_special plain member]

theorem Labelled.not_shows (plain : Plain cmds) (none : (siblings (below t p)).find?
      (fun n => !isSpecial n.1 && visible mode n && n.1 = w) = none) :
    ¬ Shows cmds mode (p ++ [w]) := by
  intro shown
  obtain ⟨n, member, rfl, seen⟩ := labelled.node_of_shows shown
  have differs := List.find?_eq_none.mp none n member
  simp [labelled.not_special plain member, seen] at differs

theorem findToken_spec (plain : Plain cmds)
    (special : Word → Word → Bool) (mode : CliMode) (p : List Word) (op : CliParserOp)
    (w : Word) :
    let r := findToken special mode (below t p) op w
    (∃ n ∈ siblings (below t p), r.2 = some n ∧ Picks cmds mode p w n.1 ∧
      r.1.wordCompleted = op.wordCompleted ++ n.1 ++ [' ']) ∨
    r.2 = none ∧ ∀ v, ¬ Picks cmds mode p w v := by
  intro r
  rcases exact : (siblings (below t p)).find?
      (fun n => !isSpecial n.1 && visible mode n && n.1 = w) with _ | n
  · have unknown := labelled.not_shows plain exact
    have noSpecial := labelled.find_special plain special mode p w
    rcases found : (siblings (below t p)).filter
        (fun n => !isSpecial n.1 && visible mode n && w.isPrefixOf n.1) with
      _ | ⟨a, _ | ⟨b, more⟩⟩
    · right
      refine ⟨by simp only [r, findToken, exact, noSpecial, found], ?_⟩
      rintro v ⟨shown, rfl | ⟨-, starts, -⟩⟩
      · exact unknown shown
      · obtain ⟨n, member, rfl, -⟩ := labelled.node_of_shows shown
        have inside := (labelled.mem_matched plain).mpr ⟨member, shown, starts⟩
        rw [found] at inside
        cases inside
    · left
      obtain ⟨member, shown, starts⟩ :=
        (labelled.mem_matched plain).mp (found ▸ List.mem_cons_self)
      refine ⟨a, member, by simp only [r, findToken, exact, noSpecial, found], ?_,
        by simp only [r, findToken, exact, noSpecial, found]⟩
      refine ⟨shown, .inr ⟨unknown, starts, ?_⟩⟩
      intro u shown' starts'
      obtain ⟨n, member', rfl, -⟩ := labelled.node_of_shows shown'
      have inside := (labelled.mem_matched plain).mpr ⟨member', shown', starts'⟩
      rw [found, List.mem_singleton] at inside
      rw [inside]
    · right
      refine ⟨by simp only [r, findToken, exact, noSpecial, found], ?_⟩
      rintro v ⟨shown, rfl | ⟨-, starts, only⟩⟩
      · exact unknown shown
      · obtain ⟨-, shownA, startsA⟩ :=
          (labelled.mem_matched plain).mp (found ▸ List.mem_cons_self)
        obtain ⟨-, shownB, startsB⟩ := (labelled.mem_matched plain).mp
          (found ▸ List.mem_cons_of_mem a List.mem_cons_self)
        have distinct : (((siblings (below t p)).filter (fun n =>
            !isSpecial n.1 && visible mode n && w.isPrefixOf n.1)).map (·.1)).Nodup :=
          (labelled.tidy.below p).nodup.sublist (List.filter_sublist.map _)
        rw [found, List.map_cons, List.map_cons, List.nodup_cons] at distinct
        refine distinct.1 ?_
        rw [only a.1 shownA startsA, only b.1 shownB startsB]
        exact List.mem_cons_self
  · left
    have member := List.mem_of_find?_eq_some exact
    have holds := List.find?_some exact
    simp only [Bool.and_eq_true, decide_eq_true_eq] at holds
    obtain ⟨⟨-, seen⟩, rfl⟩ := holds
    refine ⟨n, member, by simp only [r, findToken, exact], ?_,
      by simp only [r, findToken, exact]⟩
    exact ⟨(labelled.visible_iff member).mp seen, .inl rfl⟩

end

/-- The text of a path, each word with the blank that `find_token` puts behind it. -/
def textOf (q : List Word) : List Char := q.flatMap (· ++ [' '])

/-- The node at a path. -/
def IsAt (t : Trie Word Label) (q : List Word) (n : CliNode) : Prop :=
  q.getLast? = some n.1 ∧ labelAt t q = some n.2.1 ∧ below t q = n.2.2

theorem findWords_spec (labelled : Labelled cmds t) (plain : Plain cmds)
    (special : Word → Word → Bool) (mode : CliMode) (words : List Word)
    (nonempty : words ≠ []) (p : List Word) (op : CliParserOp) :
    let r := findWords special mode words (below t p) op
    (∃ q n, r.2 = some n ∧ Resolves cmds mode p words (p ++ q) ∧ IsAt t (p ++ q) n ∧
      r.1.wordCompleted = op.wordCompleted ++ textOf q) ∨
    r.2 = none ∧ ∀ q, ¬ Resolves cmds mode p words q := by
  induction words generalizing p op with
  | nil => exact absurd rfl nonempty
  | cons w rest ih =>
    intro r
    rcases findToken_spec labelled plain special mode p
        { op with wordMultimatch := [], word := w } w with
      ⟨n, member, found, picks, completed⟩ | ⟨none, nothing⟩
    · obtain ⟨label, rule⟩ :=
        (mem_siblings_below labelled.tidy).mp (show (n.1, n.2.1, n.2.2) ∈ _ from member)
      cases rest with
      | nil =>
        left
        refine ⟨[n.1], n, ?_, ?_, ?_, ?_⟩
        · simp only [r, findWords, found]
        · exact .cons picks (.nil _)
        · exact ⟨by simp, label, rule⟩
        · simp only [r, findWords, found, completed, textOf, List.flatMap_singleton,
            List.append_assoc]
      | cons w' rest =>
        cases empty : n.2.2 with
        | nil =>
          right
          refine ⟨by simp only [r, findWords, found, empty], ?_⟩
          rintro q (_ | ⟨picks', further⟩)
          rw [picks'.unique picks] at further
          obtain - | ⟨⟨shown, -⟩, -⟩ := further
          obtain ⟨m, inside, -⟩ := labelled.node_of_shows shown
          rw [rule, empty] at inside
          cases inside
        | node key lbl sub next =>
          have step : r = findWords special mode (w' :: rest) (below t (p ++ [n.1]))
              { (findToken special mode (below t p)
                  { op with wordMultimatch := [], word := w } w).1 with
                lastNodeMatch := some n
                depth := (findToken special mode (below t p)
                  { op with wordMultimatch := [], word := w } w).1.depth + 1 } := by
            rw [rule]
            simp only [r, findWords, found, empty]
          rw [step]
          rcases ih (by simp) (p ++ [n.1]) _ with
            ⟨q, m, result, resolves, isAt, text⟩ | ⟨none, nothing⟩
          · left
            refine ⟨n.1 :: q, m, result, ?_, ?_, ?_⟩
            · rw [List.append_cons]
              exact .cons picks resolves
            · rw [List.append_cons]
              exact isAt
            · rw [text, completed, textOf, textOf, List.flatMap_cons]
              simp only [List.append_assoc]
          · right
            refine ⟨none, ?_⟩
            rintro q (_ | ⟨picks', further⟩)
            rw [picks'.unique picks] at further
            exact nothing q further
    · right
      refine ⟨by simp only [r, findWords, none], ?_⟩
      rintro q (_ | ⟨picks, -⟩)
      exact nothing _ picks

theorem nonNil_of_words {t : Trie Word Label} (labelled : Labelled cmds t) {c : Cmd}
    (member : c ∈ cmds) (words : c.words ≠ []) : t ≠ .nil := by
  intro empty
  rw [← labelled.firstWord_eq_none_iff, firstWord, List.head?_eq_none_iff,
    List.flatMap_eq_nil_iff] at empty
  exact words (empty c member)

theorem cliParserFindCmd_eq (special : Word → Word → Bool) (mode : CliMode)
    {t : Trie Word Label} (nonNil : t ≠ .nil) (op : CliParserOp) (line : List Char) :
    cliParserFindCmd special mode t op line = some (findWords special mode (wordsOf line) t
      { op with
        wordCompleted := [], lastNodeMatch := none, wordMultimatch := [], depth := 0 }) := by
  cases t with
  | nil => exact absurd rfl nonNil
  | node key label rule next =>
    simp only [cliParserFindCmd]
    cases wordsOf line <;> rfl

/-- The search by the tree is the one over the commands. A line that leads to a path ends
at the node of the path, which can be executed in a mode exactly when this command was
added with it; every other line ends nowhere. -/
theorem cliParserFindCmd_exact (special : Word → Word → Bool) (mode : CliMode)
    (cmds : List Cmd) (t : Trie Word Label) (op : CliParserOp) (line : List Char)
    (built : addAll cmds .nil = some t) (plain : Plain cmds) :
    (∀ q, wordsOf line ≠ [] → Resolves cmds mode [] (wordsOf line) q →
      ∃ op' n, cliParserFindCmd special mode t op line = some (op', some n) ∧ IsAt t q n ∧
        op'.wordCompleted = textOf q ∧
        ∀ i, 0 < n.2.1.exe ∧ n.2.1.exeMode.getLsbD i = true ↔ Added cmds q i) ∧
    ((∃ c ∈ cmds, c.words ≠ []) →
      wordsOf line = [] ∨ (∀ q, ¬ Resolves cmds mode [] (wordsOf line) q) →
      ∃ op', cliParserFindCmd special mode t op line = some (op', none)) := by
  have labelled : Labelled cmds t := labelled_addAll labelled_nil built
  constructor
  · intro q nonempty resolves
    rcases findWords_spec labelled plain special mode (wordsOf line) nonempty []
        { op with wordCompleted := [], lastNodeMatch := none, wordMultimatch := [], depth := 0 }
      with ⟨q', n, found, resolves', isAt, text⟩ | ⟨-, nothing⟩
    · obtain rfl : q' = q := resolves'.unique resolves
      have nonNil : t ≠ .nil := by
        rintro rfl
        rw [List.nil_append, IsAt, labelAt_trie_nil] at isAt
        exact absurd isAt.2.1 (by simp)
      have label := labelled.label q' _ isAt.2.1
      refine ⟨_, n, ?_, isAt, text, ?_⟩
      · rw [cliParserFindCmd_eq special mode nonNil]
        exact congrArg some (Prod.ext rfl found)
      · intro i
        rw [label.exe, label.exeMode]
        constructor
        · exact fun both => both.2
        · rintro ⟨c, member, words, bit⟩
          exact ⟨⟨c, member, words⟩, c, member, words, bit⟩
    · exact absurd resolves (nothing q)
  · rintro ⟨c, member, words⟩ nowhere
    rw [cliParserFindCmd_eq special mode (nonNil_of_words labelled member words)]
    refine ⟨_, congrArg some (Prod.ext rfl ?_)⟩
    by_cases blank : wordsOf line = []
    · rw [blank]
      rfl
    · rcases findWords_spec labelled plain special mode (wordsOf line) blank []
          { op with wordCompleted := [], lastNodeMatch := none, wordMultimatch := [], depth := 0 }
        with ⟨q, n, -, resolves, -⟩ | ⟨none, -⟩
      · rcases nowhere with blank' | nothing
        · exact absurd blank' blank
        · exact absurd resolves (nothing _)
      · exact none

def demoCmds : List Cmd :=
  [⟨2, "show ip".toList⟩, ⟨4, "shutdown".toList⟩, ⟨6, "show ip route".toList⟩]

def demoTree : Trie Word Label := (addAll demoCmds .nil).getD .nil

/-- In mode 2 the words `sh i` stand for `show ip`: the command `shutdown` is not visible. -/
theorem cliParserFindCmd_abbreviated :
    ∃ q op' n, Resolves demoCmds 2 [] (wordsOf " sh  i".toList) q ∧
      cliParserFindCmd (fun _ _ => false) 2 demoTree ⟨[], [], [], none, 0⟩ " sh  i".toList =
        some (op', some n) ∧
      op'.wordCompleted = "show ip ".toList ∧ Added demoCmds q 1 := by
  have built : addAll demoCmds .nil = some demoTree := rfl
  have plain : Plain demoCmds := by
    rw [Plain]
    decide
  have exact := cliParserFindCmd_exact (fun _ _ => false) 2 demoCmds demoTree
    ⟨[], [], [], none, 0⟩ " sh  i".toList built plain
  have leads : ∃ q, Resolves demoCmds 2 [] (wordsOf " sh  i".toList) q := by
    by_contra nothing
    obtain ⟨op', none⟩ := exact.2 ⟨_, List.mem_cons_self, by decide⟩ (.inr (not_exists.mp nothing))
    cases none
  obtain ⟨q, resolves⟩ := leads
  obtain ⟨op', n, found, -, -, executable⟩ := exact.1 q (by decide) resolves
  refine ⟨q, op', n, resolves, found, ?_, ?_⟩
  · cases found
    rfl
  · rw [← executable]
    cases found
    decide

end Found

end CliParser
