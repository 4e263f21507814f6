import Mathlib.Tactic.Common

/-!
# A line that is edited at a cursor

The line is what stands before the cursor and what stands behind it. An insertion into a line
that is full is ignored.
-/

namespace LineEditor

variable {α : Type}

structure Line (α : Type) where
  before : List α
  after : List α

def Line.text (line : Line α) : List α := line.before ++ line.after

inductive Edit (α : Type) where
  | insert (a : α)
  | backspace
  | delete
  | left
  | right
  | home
  | toEnd

/-- The cursor stands behind the text. -/
def Line.start (text : List α) : Line α := ⟨text, []⟩

def Line.edit (limit : Nat) (line : Line α) : Edit α → Line α
  | .insert a => if line.text.length < limit then ⟨line.before ++ [a], line.after⟩ else line
  | .backspace => ⟨line.before.dropLast, line.after⟩
  | .delete => ⟨line.before, line.after.tail⟩
  | .left => ⟨line.before.dropLast, line.before.getLast?.toList ++ line.after⟩
  | .right => ⟨line.before ++ line.after.head?.toList, line.after.tail⟩
  | .home => ⟨[], line.text⟩
  | .toEnd => ⟨line.text, []⟩

section Texts

variable {limit : Nat} {line : Line α}

theorem text_start (text : List α) : (Line.start text).text = text := List.append_nil text

theorem text_left (limit : Nat) (line : Line α) : (line.edit limit .left).text = line.text := by
  obtain ⟨before, after⟩ := line
  rcases List.eq_nil_or_concat before with rfl | ⟨front, a, rfl⟩
  · rfl
  · simp [Line.edit, Line.text]

theorem text_right (limit : Nat) (line : Line α) : (line.edit limit .right).text = line.text := by
  obtain ⟨before, after⟩ := line
  cases after with
  | nil => simp [Line.edit, Line.text]
  | cons a after => simp [Line.edit, Line.text]

theorem text_home (limit : Nat) (line : Line α) : (line.edit limit .home).text = line.text := rfl

theorem text_toEnd (limit : Nat) (line : Line α) : (line.edit limit .toEnd).text = line.text :=
  List.append_nil _

end Texts

end LineEditor
