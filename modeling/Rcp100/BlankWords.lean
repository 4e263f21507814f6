import Mathlib.Algebra.Ring.Nat
import Mathlib.Data.List.TakeWhile
import Mathlib.Tactic.Common

/-!
# Words between blanks

A text is split into its words, up to so many of them, by skipping blanks and then the characters
of a word in turn.
-/

namespace BlankWords

abbrev Word := List Char

def isBlank (c : Char) : Bool := c = ' ' || c = '\t'

/-- The first words of a text, for so many slots. -/
def split : Nat → List Char → List Word
  | 0, _ => []
  | left+1, msg =>
    let ptr := msg.dropWhile isBlank
    if ptr = [] then []
    else
      ptr.takeWhile (fun c => !isBlank c) ::
        match ptr.dropWhile (fun c => !isBlank c) with
        | [] => []
        | _ :: behind => split left behind

/-- All words of a text. -/
def words (text : List Char) : List Word := (text.splitOnP isBlank).filter (· ≠ [])

section Words

variable {w : Word} {text : List Char} {c : Char}

theorem words_nil : words [] = [] := by
  rw [words, List.splitOnP_nil]
  rfl

theorem words_blank (blank : isBlank c = true) : words (c :: text) = words text := by
  rw [words, words, ← List.nil_append (c :: text), List.splitOnP_append_cons [] text blank,
    List.splitOnP_nil]
  rfl

theorem words_append (some' : w ≠ []) (solid : ∀ d ∈ w, isBlank d = false)
    (blank : isBlank c = true) : words (w ++ c :: text) = w :: words text := by
  rw [words, words, List.splitOnP_append_cons w text blank, List.splitOnP_eq_singleton solid,
    List.singleton_append, List.filter_cons_of_pos (by simpa using some')]

theorem words_word (some' : w ≠ []) (solid : ∀ d ∈ w, isBlank d = false) : words w = [w] := by
  rw [words, List.splitOnP_eq_singleton solid, List.filter_cons_of_pos (by simpa using some')]
  rfl

theorem text_induction {P : List Char → Prop} (empty : P [])
    (blank : ∀ c str, isBlank c = true → P str → P (c :: str))
    (word : ∀ w, w ≠ [] → (∀ d ∈ w, isBlank d = false) → P w)
    (more : ∀ w c str, w ≠ [] → (∀ d ∈ w, isBlank d = false) → isBlank c = true → P str →
      P (w ++ c :: str)) (text : List Char) : P text := by
  induction size : text.length using Nat.strongRecOn generalizing text with
  | ind size ih =>
    subst size
    cases text with
    | nil => exact empty
    | cons first text =>
      cases begins : isBlank first with
      | true => exact blank first text begins (ih text.length (Nat.lt_succ_self _) text rfl)
      | false =>
        have parts := List.takeWhile_append_dropWhile (p := fun c => !isBlank c) (l := text)
        have solid : ∀ d ∈ first :: text.takeWhile (fun c => !isBlank c), isBlank d = false := by
          intro d member
          rcases List.mem_cons.mp member with rfl | later
          · exact begins
          · simpa using List.mem_takeWhile_imp later
        cases rest : text.dropWhile (fun c => !isBlank c) with
        | nil =>
          rw [rest, List.append_nil] at parts
          rw [← parts]
          exact word _ (List.cons_ne_nil _ _) solid
        | cons c str =>
          have stop : isBlank c = true := by
            have fails := List.head?_dropWhile_not (fun c => !isBlank c) text
            rw [rest] at fails
            simpa using fails
          have shorter : str.length < (first :: text).length := by
            have lengths := congrArg List.length parts
            rw [rest, List.length_append, List.length_cons] at lengths
            rw [List.length_cons]
            omega
          rw [rest] at parts
          rw [← parts]
          exact more _ c str (List.cons_ne_nil _ _) solid stop (ih _ shorter str rfl)

theorem solid_of_mem_words (text : List Char) :
    ∀ w ∈ words text, w ≠ [] ∧ ∀ c ∈ w, isBlank c = false := by
  induction text using text_induction with
  | empty =>
    rw [words_nil]
    exact fun _ member => by cases member
  | blank c str blank ih =>
    rw [words_blank blank]
    exact ih
  | word w some' solid =>
    rw [words_word some' solid]
    intro v member
    rw [List.mem_singleton.mp member]
    exact ⟨some', solid⟩
  | more w c str some' solid blank ih =>
    rw [words_append some' solid blank]
    intro v member
    rcases List.mem_cons.mp member with rfl | later
    · exact ⟨some', solid⟩
    · exact ih v later

theorem split_word {left : Nat} (some' : w ≠ []) (solid : ∀ d ∈ w, isBlank d = false)
    (rest : List Char) (ends : ∀ d ∈ rest.head?, isBlank d = true) :
    split (left+1) (w ++ rest) = w :: split left rest.tail := by
  have first : (w ++ rest).dropWhile isBlank = w ++ rest := by
    cases w with
    | nil => exact absurd rfl some'
    | cons d w => exact List.dropWhile_cons_of_neg (by simp [solid d List.mem_cons_self])
  have all : ∀ d ∈ w, (!isBlank d) = true := fun d member => by rw [solid d member]; rfl
  have taken : rest.takeWhile (fun c => !isBlank c) = [] ∧
      rest.dropWhile (fun c => !isBlank c) = rest := by
    cases rest with
    | nil => exact ⟨rfl, rfl⟩
    | cons d rest =>
      have blank := ends d rfl
      exact ⟨List.takeWhile_cons_of_neg (by simp [blank]),
        List.dropWhile_cons_of_neg (by simp [blank])⟩
  rw [split, first, if_neg (by simp [some'])]
  rw [List.takeWhile_append_of_pos all, List.dropWhile_append_of_pos all, taken.1, taken.2,
    List.append_nil]
  cases rest with
  | nil => cases left <;> rfl
  | cons d behind => rfl

theorem split_eq (left : Nat) (msg : List Char) : split left msg = (words msg).take left := by
  induction msg using text_induction generalizing left with
  | empty => cases left <;> rfl
  | blank c str blank ih =>
    rw [words_blank blank, ← ih]
    cases left with
    | zero => rfl
    | succ left => rw [split, split, List.dropWhile_cons_of_pos blank]
  | word w some' solid =>
    rw [words_word some' solid]
    cases left with
    | zero => rfl
    | succ left =>
      have only := @split_word w left some' solid [] (fun _ absent => by cases absent)
      rw [List.append_nil] at only
      rw [only]
      cases left <;> rfl
  | more w c str some' solid blank ih =>
    rw [words_append some' solid blank]
    cases left with
    | zero => rfl
    | succ left =>
      rw [split_word some' solid (c :: str) (fun d first => by cases first; exact blank),
        List.take_succ_cons, ← ih]
      rfl

def textOf (ws : List Word) : List Char := ws.flatMap (· ++ [' '])

theorem words_textOf {ws : List Word} (solid : ∀ w ∈ ws, w ≠ [] ∧ ∀ c ∈ w, isBlank c = false) :
    words (textOf ws) = ws := by
  induction ws with
  | nil => exact words_nil
  | cons w ws ih =>
    obtain ⟨some', whole⟩ := solid w List.mem_cons_self
    rw [textOf, List.flatMap_cons, List.append_assoc, List.singleton_append,
      words_append some' whole rfl]
    exact congrArg (w :: ·) (ih fun v member => solid v (List.mem_cons_of_mem w member))

/-- So long would a text be with a blank behind each of its words. -/
def spread (ws : List Word) : Nat := (ws.map fun w => w.length + 1).sum

theorem length_textOf (ws : List Word) : (textOf ws).length = spread ws := by
  induction ws with
  | nil => rfl
  | cons w ws ih =>
    rw [textOf, List.flatMap_cons, List.length_append, List.length_append, spread, List.map_cons,
      List.sum_cons]
    exact congrArg (w.length + 1 + ·) ih

theorem spread_words (text : List Char) : spread (words text) ≤ text.length + 1 := by
  induction text using text_induction with
  | empty =>
    rw [words_nil]
    exact Nat.zero_le _
  | blank c str blank ih =>
    rw [words_blank blank, List.length_cons]
    omega
  | word w some' solid =>
    rw [words_word some' solid]
    exact Nat.le_refl _
  | more w c str some' solid blank ih =>
    rw [words_append some' solid blank, spread, List.map_cons, List.sum_cons, List.length_append,
      List.length_cons]
    rw [spread] at ih
    omega

end Words

end BlankWords
