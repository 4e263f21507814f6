import Rcp100.LineEditor
import Rcp100.StepRuns
import Mathlib.Data.List.Basic
import Mathlib.Data.List.TakeWhile

/-!
# Reading a command line

The line is edited in the buffer of the caller, where a zero byte ends the text. A character is
inserted by way of a copy of the text behind the cursor.
-/

namespace Gets

open LineEditor

def cliMaxLine : Nat := 1024

def nul : Char := Char.ofNat 0

section Memory

/-- The text from an index on; without a zero byte it is read past the end. -/
def cstr (buf : List Char) (i : Nat) : Option (List Char) :=
  if nul ∈ buf.drop i then some ((buf.drop i).takeWhile (· ≠ nul)) else none

def strlen (buf : List Char) (i : Nat) : Option Nat := (cstr buf i).map List.length

def store (buf : List Char) (i : Nat) (c : Char) : Option (List Char) :=
  if i < buf.length then some (buf.set i c) else none

def memmove (buf : List Char) (dst src n : Nat) : Option (List Char) :=
  if src + n ≤ buf.length ∧ dst + n ≤ buf.length then
    some (buf.take dst ++ (buf.drop src).take n ++ buf.drop (dst + n))
  else none

def strcpy (buf : List Char) (dst : Nat) (str : List Char) : Option (List Char) :=
  if dst + str.length + 1 ≤ buf.length then
    some (buf.take dst ++ str ++ nul :: buf.drop (dst + str.length + 1))
  else none

end Memory

section Source

/-- What `cliGets` returns: `GETS_OK` and the others. -/
inductive Rv where
  | ok
  | question
  | tab
  | arrowUp
  | arrowDown

inductive Key where
  | enter
  | question
  | tab
  | backspace
  | arrowUp
  | arrowDown
  | arrowRight
  | arrowLeft
  | home
  | toEnd
  | delete
  /-- another escape sequence -/
  | unknown
  | char (c : Char)

def esc : Char := Char.ofNat 0x1b

def del : Char := Char.ofNat 0x7f

/-- The next key and the characters behind it, where it is there as a whole. -/
def readKey : List Char → Option (Key × List Char)
  | [] => none
  | c :: rest =>
    if c = '\n' then some (.enter, rest)
    else if c = '?' then some (.question, rest)
    else if c = '\t' then some (.tab, rest)
    else if c = del then some (.backspace, rest)
    else if c = esc then
      match rest with
      | c2 :: c3 :: rest =>
        if c2 = '[' ∧ c3 = 'A' then some (.arrowUp, rest)
        else if c2 = '[' ∧ c3 = 'B' then some (.arrowDown, rest)
        else if c2 = '[' ∧ c3 = 'C' then some (.arrowRight, rest)
        else if c2 = '[' ∧ c3 = 'D' then some (.arrowLeft, rest)
        else if c2 = 'O' ∧ c3 = 'H' then some (.home, rest)
        else if c2 = 'O' ∧ c3 = 'F' then some (.toEnd, rest)
        else if c2 = '[' ∧ c3 = '3' then
          match rest with
          | _ :: rest => some (.delete, rest)
          | [] => none
        else some (.unknown, rest)
      | _ => none
    else some (.char c, rest)

/-- What the terminal sends. -/
def Key.codes : Key → List Char
  | .enter => ['\n']
  | .question => ['?']
  | .tab => ['\t']
  | .backspace => [del]
  | .arrowUp => [esc, '[', 'A']
  | .arrowDown => [esc, '[', 'B']
  | .arrowRight => [esc, '[', 'C']
  | .arrowLeft => [esc, '[', 'D']
  | .home => [esc, 'O', 'H']
  | .toEnd => [esc, 'O', 'F']
  | .delete => [esc, '[', '3', '~']
  | .unknown => [esc, '[', 'E']
  | .char c => [c]

/-- The keys that end the loop. -/
def Key.rv : Key → Option Rv
  | .enter => some .ok
  | .question => some .question
  | .tab => some .tab
  | .arrowUp => some .arrowUp
  | .arrowDown => some .arrowDown
  | _ => none

structure State where
  buf : List Char
  ptr : Nat

/-- `memmove(ptr, ptr + 1, strlen(ptr + 1) + 1)`. -/
def shift (s : State) : Option State := do
  let n ← strlen s.buf (s.ptr + 1)
  let buf ← memmove s.buf s.ptr (s.ptr + 1) (n + 1)
  return { s with buf }

def addChar (c : Char) (s : State) : Option State := do
  if (← s.buf[s.ptr]?) = nul then
    let buf ← store s.buf s.ptr c
    return { s with buf, ptr := s.ptr + 1 }
  else
    let rest ← cstr s.buf s.ptr
    -- `tmp` has `CLI_MAX_LINE` bytes
    if 1 + rest.length + 1 ≤ cliMaxLine then
      let buf ← strcpy s.buf s.ptr ((c :: rest).takeWhile (· ≠ nul))
      return { s with buf, ptr := s.ptr + 1 }
    else none

/-- The body of the loop. -/
def press (s : State) : Key → Option State
  | .backspace => if s.ptr = 0 then some s else shift { s with ptr := s.ptr - 1 }
  | .arrowRight => do
    if (← s.buf[s.ptr]?) = nul then return s
    else return { s with ptr := s.ptr + 1 }
  | .arrowLeft => some { s with ptr := s.ptr - 1 }
  | .home => some { s with ptr := 0 }
  | .toEnd => do
    let n ← strlen s.buf s.ptr
    return { s with ptr := s.ptr + n }
  | .delete => do
    if (← s.buf[s.ptr]?) = nul then return s
    else shift s
  | .char c => addChar c s
  | _ => some s

/-- Without a key that ends it, the loop waits for another one. -/
def loop : List Key → State → Option (State × Option Rv)
  | [], s => some (s, none)
  | key :: keys, s =>
    match key.rv with
    | some rv => some (s, some rv)
    | none => do
      let s ← press s key
      loop keys s

def cliGets (buf : List Char) (keys : List Key) : Option (State × Option Rv) := do
  let text ← cstr buf 0
  loop keys ⟨text ++ List.replicate (buf.length - text.length) nul, text.length⟩

/-- The same on what the terminal sends. -/
def getsLoop : Nat → List Char → State → Option (State × Option Rv)
  | 0, _, s => some (s, none)
  | rounds+1, sent, s =>
    match readKey sent with
    | none => some (s, none)
    | some (key, rest) =>
      match key.rv with
      | some rv => some (s, some rv)
      | none => do
        let s ← press s key
        getsLoop rounds rest s

theorem readKey_codes {key : Key} (plain : ∀ c, key = .char c → c ∉ ['\n', '?', '\t', del, esc])
    (rest : List Char) : readKey (key.codes ++ rest) = some (key, rest) := by
  cases key with
  | char c =>
    have other := plain c rfl
    simp only [List.mem_cons, List.not_mem_nil, not_or, or_false] at other
    simp [Key.codes, readKey, other]
  | _ => rfl

theorem getsLoop_codes {keys : List Key}
    (plain : ∀ c, .char c ∈ keys → c ∉ ['\n', '?', '\t', del, esc]) (s : State) :
    getsLoop keys.length (keys.flatMap Key.codes) s = loop keys s := by
  induction keys generalizing s with
  | nil => rfl
  | cons key keys ih =>
    have first : readKey ((key :: keys).flatMap Key.codes) =
        some (key, keys.flatMap Key.codes) :=
      readKey_codes (fun c same => plain c (same ▸ List.mem_cons_self)) _
    have rest := funext (ih fun c member => plain c (List.mem_cons_of_mem key member))
    rw [List.length_cons, getsLoop, first, loop]
    dsimp only
    cases key.rv with
    | some rv => rfl
    | none => exact congrArg (press s key).bind rest

end Source

section Purpose

def Key.edit : Key → Option (Edit Char)
  | .backspace => some .backspace
  | .arrowRight => some .right
  | .arrowLeft => some .left
  | .home => some .home
  | .toEnd => some .toEnd
  | .delete => some .delete
  | .char c => some (.insert c)
  | _ => none

def typeKey (size : Nat) (line : Line Char) (key : Key) : Line Char :=
  match key.edit with
  | some e => line.edit (size - 1) e
  | none => line

/-- The keys before the one that ends the loop. -/
def pressed (keys : List Key) : List Key := keys.takeWhile fun key => key.rv.isNone

/-- The line in a buffer, with the cursor behind it. -/
def lineOf (buf : List Char) : Line Char := Line.start (buf.takeWhile (· ≠ nul))

/-- The buffer has the text of the line and zeros behind it, and the cursor stands at the
cursor of the line. -/
structure Shows (size : Nat) (line : Line Char) (s : State) : Prop where
  whole : s.buf.length = size
  text : s.buf.takeWhile (· ≠ nul) = line.text
  room : line.text.length < size
  zeros : ∀ c ∈ s.buf.drop line.text.length, c = nul
  cursor : s.ptr = line.before.length

/-- Nothing is written or read outside, and the line is edited. -/
def Edits (buf : List Char) (keys : List Key) : Prop :=
  ∃ s rv, cliGets buf keys = some (s, rv) ∧
    Shows buf.length ((pressed keys).foldl (typeKey buf.length) (lineOf buf)) s

/-- There is room for the key: in the buffer, and in `tmp` where it is inserted. -/
def Fits (size : Nat) (line : Line Char) : Key → Prop
  | .char c => c ≠ nul ∧ line.text.length + 1 < size ∧
      (line.after = [] ∨ line.after.length + 2 ≤ cliMaxLine)
  | _ => True

end Purpose

section Buffers

variable {front text : List Char} {k : Nat}

theorem takeWhile_text (clean : nul ∉ text) (rest : List Char) :
    (text ++ nul :: rest).takeWhile (fun c => decide (c ≠ nul)) = text := by
  have all : ∀ c ∈ text, decide (c ≠ nul) = true :=
    fun c member => decide_eq_true fun same => clean (same ▸ member)
  rw [List.takeWhile_append_of_pos all]
  exact List.append_nil text

theorem cstr_eq (clean : nul ∉ text) (rest : List Char) :
    cstr (front ++ (text ++ nul :: rest)) front.length = some text := by
  rw [cstr, List.drop_left, if_pos (List.mem_append_right _ List.mem_cons_self),
    takeWhile_text clean]

theorem getElem?_cursor (rest : List Char) :
    (front ++ (text ++ nul :: rest))[front.length]? = some (text.head?.getD nul) := by
  rw [List.getElem?_append_right (Nat.le_refl _), Nat.sub_self]
  cases text with
  | nil => rfl
  | cons c text => rfl

/-- The buffer of a line. -/
def memory (line : Line Char) (k : Nat) : State :=
  ⟨line.before ++ (line.after ++ nul :: List.replicate k nul), line.before.length⟩

theorem shows_memory {line : Line Char} (clean : nul ∉ line.text) (k : Nat) :
    Shows (line.text.length + k + 1) line (memory line k) := by
  have buf : (memory line k).buf = line.text ++ nul :: List.replicate k nul := by
    rw [memory, Line.text, List.append_assoc]
  refine ⟨?_, ?_, by omega, ?_, rfl⟩
  · rw [buf, List.length_append, List.length_cons, List.length_replicate]
    rfl
  · rw [buf]
    exact takeWhile_text clean _
  · rw [buf, List.drop_left, ← List.replicate_succ]
    exact fun c member => List.eq_of_mem_replicate member

theorem Shows.eq_memory {size : Nat} {line : Line Char} {s : State} (shows : Shows size line s) :
    nul ∉ line.text ∧ ∃ k, size = line.text.length + k + 1 ∧ s = memory line k := by
  obtain ⟨whole, text, room, zeros, cursor⟩ := shows
  constructor
  · intro member
    rw [← text] at member
    exact absurd (List.mem_takeWhile_imp member) (by decide)
  · obtain ⟨k, rfl⟩ : ∃ k, size = line.text.length + k + 1 :=
      ⟨size - line.text.length - 1, by omega⟩
    refine ⟨k, rfl, ?_⟩
    have front : s.buf.take line.text.length = line.text := by
      have begins := List.takeWhile_prefix (l := s.buf) (fun c => decide (c ≠ nul))
      rw [text] at begins
      exact (List.prefix_iff_eq_take.mp begins).symm
    have back : s.buf.drop line.text.length = nul :: List.replicate k nul := by
      rw [← List.replicate_succ, List.eq_replicate_iff, List.length_drop, whole]
      exact ⟨by omega, zeros⟩
    have buf : s.buf = line.before ++ (line.after ++ nul :: List.replicate k nul) := by
      rw [← List.append_assoc, ← back]
      conv_lhs => rw [← List.take_append_drop line.text.length s.buf, front]
      rfl
    cases s
    simp only [memory, State.mk.injEq]
    exact ⟨buf, cursor⟩

theorem shift_memory {before after : List Char} {c : Char} (clean : nul ∉ after) (k : Nat) :
    shift (memory ⟨before, c :: after⟩ k) = some (memory ⟨before, after⟩ (k+1)) := by
  obtain ⟨z, zeros⟩ : ∃ z, z = List.replicate k nul := ⟨_, rfl⟩
  have regroup : before ++ (c :: after ++ nul :: z) = (before ++ [c]) ++ (after ++ nul :: z) := by
    simp
  have found := @cstr_eq (before ++ [c]) after clean z
  rw [List.length_append, List.length_singleton, ← regroup] at found
  have length : strlen (before ++ (c :: after ++ nul :: z)) (before.length + 1) =
      some after.length := by
    rw [strlen, found]
    rfl
  have kept : (before ++ (c :: after ++ nul :: z)).take before.length = before := List.take_left
  have moved : ((before ++ (c :: after ++ nul :: z)).drop (before.length + 1)).take
      (after.length + 1) = after ++ [nul] := by
    rw [← List.drop_drop, List.drop_left, List.cons_append, List.drop_succ_cons, List.drop_zero,
      List.take_append, List.take_of_length_le (Nat.le_succ _), Nat.add_sub_cancel_left]
    rfl
  have left : (before ++ (c :: after ++ nul :: z)).drop (before.length + (after.length + 1)) =
      nul :: z := by
    rw [← List.drop_drop, List.drop_left]
    exact @List.drop_left _ (c :: after) _
  have room : before.length + 1 + (after.length + 1) ≤ (before ++ (c :: after ++ nul :: z)).length ∧
      before.length + (after.length + 1) ≤ (before ++ (c :: after ++ nul :: z)).length := by
    simp only [List.length_append, List.length_cons]
    omega
  have buf : before ++ (after ++ [nul]) ++ nul :: z =
      before ++ (after ++ nul :: List.replicate (k+1) nul) := by
    rw [List.replicate_succ, ← zeros]
    simp
  rw [shift, memory, memory, ← zeros, length]
  simp only [Option.bind_eq_bind, Option.bind_some, memmove, if_pos room, kept, moved, left,
    Option.pure_def, buf]

theorem shows_shift {size : Nat} {before after : List Char} {c : Char} {s : State}
    (shows : Shows size ⟨before, c :: after⟩ s) :
    ∃ t, shift s = some t ∧ Shows size ⟨before, after⟩ t := by
  obtain ⟨clean, k, rfl, rfl⟩ := shows.eq_memory
  have clean' : nul ∉ (Line.text ⟨before, after⟩) := by
    intro member
    rcases List.mem_append.mp member with old | old
    · exact clean (List.mem_append_left _ old)
    · exact clean (List.mem_append_right _ (List.mem_cons_of_mem c old))
  refine ⟨_, shift_memory (fun member => clean' (List.mem_append_right _ member)) k, ?_⟩
  have shown := shows_memory clean' (k+1)
  simp only [Line.text, List.length_append, List.length_cons] at shown ⊢
  rwa [show before.length + (after.length + 1) + k + 1 =
    before.length + after.length + (k + 1) + 1 by omega]

end Buffers

section Keys

variable {size : Nat} {line : Line Char} {s : State}

section

variable (shows : Shows size line s)

include shows

theorem Shows.load :
    s.buf[s.ptr]? = some (line.after.head?.getD nul) := by
  obtain ⟨-, k, -, rfl⟩ := shows.eq_memory
  exact getElem?_cursor (List.replicate k nul)

theorem Shows.cstr : cstr s.buf s.ptr = some line.after := by
  obtain ⟨clean, k, -, rfl⟩ := shows.eq_memory
  exact cstr_eq (fun member => clean (List.mem_append_right _ member)) (List.replicate k nul)

theorem Shows.head :
    line.after.head?.getD nul = nul ↔ line.after = [] := by
  obtain ⟨clean, -⟩ := shows.eq_memory
  cases after : line.after with
  | nil => exact iff_of_true rfl rfl
  | cons c rest =>
    refine iff_of_false (fun same => clean ?_) (List.cons_ne_nil c rest)
    rw [Line.text, after]
    exact List.mem_append_right _ (same ▸ List.mem_cons_self)

theorem Shows.move {moved : Line Char} (same : moved.text = line.text)
    {ptr : Nat} (there : ptr = moved.before.length) : Shows size moved { s with ptr } :=
  ⟨shows.whole, same ▸ shows.text, same ▸ shows.room, same ▸ shows.zeros, there⟩

theorem shows_press {key : Key} (other : ∀ c, key ≠ .char c) :
    ∃ t, press s key = some t ∧ Shows size (typeKey size line key) t := by
  have load := shows.load
  have head := shows.head
  obtain ⟨before, after⟩ := line
  cases key with
  | char c => exact absurd rfl (other c)
  | backspace =>
    rcases List.eq_nil_or_concat' before with rfl | ⟨front, c, rfl⟩
    · exact ⟨s, if_pos shows.cursor, shows⟩
    · have ptr : s.ptr = front.length + 1 := shows.cursor.trans List.length_append
      have moved : Shows size ⟨front, c :: after⟩ { s with ptr := s.ptr - 1 } := by
        apply shows.move
        · simp [Line.text]
        · rw [ptr]
          rfl
      obtain ⟨t, shifted, shows'⟩ := shows_shift moved
      refine ⟨t, ?_, ?_⟩
      · rw [press, if_neg (by omega), shifted]
      · change Shows size ⟨(front ++ [c]).dropLast, after⟩ t
        rwa [List.dropLast_concat]
  | arrowRight =>
    rw [press, load, Option.bind_eq_bind, Option.bind_some]
    cases after with
    | nil =>
      have same : typeKey size ⟨before, []⟩ .arrowRight = ⟨before, []⟩ :=
        congrArg (Line.mk · []) (List.append_nil before)
      refine ⟨s, if_pos rfl, ?_⟩
      rwa [same]
    | cons c after =>
      have letter : ¬ c = nul := fun same => absurd (head.mp same) (List.cons_ne_nil c after)
      have same : (typeKey size ⟨before, c :: after⟩ .arrowRight).text =
          Line.text ⟨before, c :: after⟩ := text_right (size - 1) _
      refine ⟨{ s with ptr := s.ptr + 1 }, if_neg letter, shows.move same ?_⟩
      rw [shows.cursor]
      change before.length + 1 = (before ++ [c]).length
      rw [List.length_append, List.length_singleton]
  | arrowLeft =>
    refine ⟨{ s with ptr := s.ptr - 1 }, rfl, shows.move (text_left (size - 1) _) ?_⟩
    rw [shows.cursor]
    exact List.length_dropLast.symm
  | home => exact ⟨{ s with ptr := 0 }, rfl, shows.move (text_home (size - 1) _) rfl⟩
  | toEnd =>
    rw [press, strlen, shows.cstr]
    refine ⟨{ s with ptr := s.ptr + after.length }, rfl, shows.move (text_toEnd (size - 1) _) ?_⟩
    rw [shows.cursor]
    exact List.length_append.symm
  | delete =>
    rw [press, load, Option.bind_eq_bind, Option.bind_some]
    cases after with
    | nil => exact ⟨s, if_pos rfl, shows⟩
    | cons c after =>
      have letter : ¬ c = nul := fun same => absurd (head.mp same) (List.cons_ne_nil c after)
      obtain ⟨t, shifted, shows'⟩ := shows_shift shows
      exact ⟨t, (if_neg letter).trans shifted, shows'⟩
  | _ => exact ⟨s, rfl, shows⟩

theorem addChar_end (atEnd : line.after = []) (c : Char) :
    addChar c s = some { s with buf := s.buf.set s.ptr c, ptr := s.ptr + 1 } := by
  have inside : s.ptr < s.buf.length := by
    rw [shows.cursor, shows.whole]
    exact Nat.lt_of_le_of_lt (List.length_append ▸ Nat.le_add_right _ _) shows.room
  rw [addChar, shows.load, shows.head.mpr atEnd]
  simp only [Option.bind_eq_bind, Option.bind_some, if_true, store, if_pos inside, Option.pure_def]

theorem addChar_inside (inside : line.after ≠ []) (c : Char) :
    addChar c s =
      if line.after.length + 2 ≤ cliMaxLine then
        (strcpy s.buf s.ptr ((c :: line.after).takeWhile (· ≠ nul))).map
          fun buf => { s with buf, ptr := s.ptr + 1 }
      else none := by
  have letter : ¬ line.after.head?.getD nul = nul := fun same => inside (shows.head.mp same)
  have bound : 1 + line.after.length + 1 ≤ cliMaxLine ↔ line.after.length + 2 ≤ cliMaxLine := by
    omega
  rw [addChar, shows.load, shows.cstr]
  simp only [Option.bind_eq_bind, Option.bind_some, if_neg letter, bound]
  split_ifs with room
  · cases strcpy s.buf s.ptr ((c :: line.after).takeWhile (· ≠ nul)) <;> rfl
  · rfl

theorem Shows.buf_eq :
    ∃ k, size = line.text.length + k + 1 ∧ s.ptr = line.before.length ∧
      s.buf = line.before ++ (line.after ++ nul :: List.replicate k nul) := by
  obtain ⟨-, k, whole, rfl⟩ := shows.eq_memory
  exact ⟨k, whole, rfl, rfl⟩

theorem shows_press_of_fits {key : Key} (fits : Fits size line key) :
    ∃ t, press s key = some t ∧ Shows size (typeKey size line key) t := by
  by_cases insertion : ∃ c, key = .char c
  · obtain ⟨c, rfl⟩ := insertion
    obtain ⟨letter, room, behind⟩ := fits
    obtain ⟨clean, -⟩ := shows.eq_memory
    obtain ⟨k, rfl, ptr, buf⟩ := shows.buf_eq
    obtain ⟨k, rfl⟩ : ∃ j, k = j + 1 := ⟨k - 1, by omega⟩
    have typed : typeKey (line.text.length + (k + 1) + 1) line (.char c) =
        ⟨line.before ++ [c], line.after⟩ := if_pos (by omega)
    have clean' : nul ∉ Line.text ⟨line.before ++ [c], line.after⟩ := by
      simp only [Line.text, List.mem_append, List.mem_singleton, not_or] at clean ⊢
      exact ⟨⟨clean.1, fun same => letter same.symm⟩, clean.2⟩
    have length : (Line.text ⟨line.before ++ [c], line.after⟩).length = line.text.length + 1 := by
      simp only [Line.text, List.length_append, List.length_singleton]
      omega
    have shown := shows_memory clean' k
    rw [length, show line.text.length + 1 + k + 1 = line.text.length + (k + 1) + 1 by omega]
      at shown
    rw [typed]
    refine ⟨_, ?_, shown⟩
    rw [press]
    by_cases atEnd : line.after = []
    · rw [addChar_end shows atEnd, buf, ptr, atEnd, memory, List.nil_append, List.set_append,
        if_neg (Nat.lt_irrefl _), Nat.sub_self]
      simp [List.replicate_succ]
    · have tmp : line.after.length + 2 ≤ cliMaxLine := behind.resolve_left atEnd
      have whole : (c :: line.after).takeWhile (fun d => decide (d ≠ nul)) = c :: line.after := by
        rw [List.takeWhile_eq_self_iff]
        intro d member
        apply decide_eq_true
        rintro rfl
        apply clean'
        rw [Line.text, List.append_assoc]
        exact List.mem_append_right _ member
      have enough : line.before.length + (c :: line.after).length + 1 ≤ s.buf.length := by
        rw [shows.whole]
        simp only [Line.text, List.length_append, List.length_cons]
        omega
      have left : (line.before ++ (line.after ++ nul :: List.replicate (k+1) nul)).drop
          (line.before.length + (c :: line.after).length + 1) = List.replicate k nul := by
        rw [List.length_cons, Nat.add_assoc, Nat.add_assoc, ← List.drop_drop, List.drop_left,
          ← List.drop_drop, List.drop_left]
        rfl
      rw [addChar_inside shows atEnd, if_pos tmp, whole, strcpy, ptr, if_pos enough, buf,
        List.take_left, left, memory]
      simp
  · exact shows_press shows fun c same => insertion ⟨c, same⟩

end

theorem takeWhile_set_nul {front : List Char} (clean : nul ∉ front) (c : Char) (rest : List Char) :
    (front ++ c :: rest).takeWhile (fun d => decide (d ≠ nul)) = front ++
      if c = nul then [] else c :: rest.takeWhile (fun d => decide (d ≠ nul)) := by
  have all : ∀ d ∈ front, decide (d ≠ nul) = true :=
    fun d member => decide_eq_true fun same => clean (same ▸ member)
  rw [List.takeWhile_append_of_pos all]
  split_ifs with zero
  · rw [List.takeWhile_cons_of_neg (by simp [zero])]
  · rw [List.takeWhile_cons_of_pos (by simp [zero])]

theorem not_shows_of_not_fits (shows : Shows size line s) {key : Key}
    (misfit : ¬ Fits size line key) :
    ¬ ∃ t, press s key = some t ∧ Shows size (typeKey size line key) t := by
  obtain ⟨clean, -⟩ := shows.eq_memory
  obtain ⟨k, rfl, ptr, buf⟩ := shows.buf_eq
  have cleanBefore : nul ∉ line.before := fun member => clean (List.mem_append_left _ member)
  cases key with
  | char c =>
    rintro ⟨t, pressed, shown⟩
    by_cases atEnd : line.after = []
    · have text : line.text = line.before := by rw [Line.text, atEnd, List.append_nil]
      rw [press, addChar_end shows atEnd] at pressed
      obtain rfl := Option.some.inj pressed
      have after : (s.buf.set s.ptr c).takeWhile (fun d => decide (d ≠ nul)) = line.before ++
          if c = nul then [] else [c] := by
        rw [buf, ptr, atEnd, List.nil_append, List.set_append, if_neg (Nat.lt_irrefl _),
          Nat.sub_self, List.set_cons_zero, takeWhile_set_nul cleanBefore]
        cases k <;> simp [List.replicate_succ]
      have seen := shown.text
      have cursor := shown.cursor
      rw [after] at seen
      have longer : s.ptr + 1 = line.before.length + 1 := by rw [ptr]
      by_cases room : line.text.length < line.text.length + k + 1 - 1
      · have typed : typeKey (line.text.length + k + 1) line (.char c) =
            ⟨line.before ++ [c], line.after⟩ := if_pos room
        apply misfit
        refine ⟨?_, by omega, .inl atEnd⟩
        rintro rfl
        rw [typed, if_pos rfl, Line.text, atEnd] at seen
        simp at seen
      · have typed : typeKey (line.text.length + k + 1) line (.char c) = line := if_neg room
        rw [typed] at cursor
        change s.ptr + 1 = line.before.length at cursor
        omega
    · rw [press, addChar_inside shows atEnd] at pressed
      split_ifs at pressed with tmp
      · obtain ⟨after, copied, rfl⟩ := Option.map_eq_some_iff.mp pressed
        rw [strcpy] at copied
        split_ifs at copied with enough
        · by_cases letter : c = nul
          · have none : (c :: line.after).takeWhile (fun d => decide (d ≠ nul)) = [] :=
              List.takeWhile_cons_of_neg (by simp [letter])
            have seen := shown.text
            rw [none, ptr, buf, List.take_left, List.append_nil] at copied
            obtain rfl := Option.some.inj copied
            change List.takeWhile _ (line.before ++ nul :: _) = _ at seen
            rw [takeWhile_set_nul cleanBefore, if_pos rfl, List.append_nil, typeKey, Key.edit]
              at seen
            have some' := List.length_pos_iff.mpr atEnd
            have lengths := congrArg List.length seen
            simp only [Line.edit] at lengths
            split_ifs at lengths
            · simp only [Line.text, List.length_append] at lengths
              omega
            · simp only [Line.text, List.length_append] at lengths
              omega
          · have whole : (c :: line.after).takeWhile (fun d => decide (d ≠ nul)) =
                c :: line.after := by
              rw [List.takeWhile_eq_self_iff]
              intro d member
              apply decide_eq_true
              rintro rfl
              rcases List.mem_cons.mp member with same | behind
              · exact letter same.symm
              · exact clean (List.mem_append_right _ behind)
            rw [whole, ptr, shows.whole] at enough
            simp only [Line.text, List.length_append, List.length_cons] at enough
            refine misfit ⟨letter, ?_, .inr tmp⟩
            simp only [Line.text, List.length_append]
            omega
  | _ => exact absurd trivial misfit

end Keys

section Runs

open StepRuns (Along Always)

variable {size : Nat} {line : Line Char} {s : State} {buf : List Char}

/-- The memory and the line that it should hold. -/
def both (size : Nat) (run : Option State × Line Char) (key : Key) : Option State × Line Char :=
  (run.1.bind fun s => press s key, typeKey size run.2 key)

def Holds (size : Nat) (run : Option State × Line Char) : Prop :=
  ∃ s, run.1 = some s ∧ Shows size run.2 s

theorem always_holds_iff (shows : Shows size line s) (keys : List Key) :
    Always (both size) (Holds size) keys (some s, line) ↔
      Along (typeKey size) (Fits size) keys line := by
  have keeps : ∀ run key, Holds size run → Fits size run.2 key →
      Holds size (both size run key) := by
    rintro ⟨-, line⟩ key ⟨s, rfl, shows⟩ fits
    exact shows_press_of_fits shows fits
  have breaks : ∀ run key, Holds size run → ¬ Fits size run.2 key →
      ¬ Holds size (both size run key) := by
    rintro ⟨-, line⟩ key ⟨s, rfl, shows⟩ misfit
    exact not_shows_of_not_fits shows misfit
  have start : Holds size (some s, line) := ⟨s, rfl, shows⟩
  rw [StepRuns.always_iff_along (fun run holds => holds) keeps breaks start]
  exact StepRuns.along_map (fun run key => rfl)

theorem loop_eq (keys : List Key) (s : State) (line : Line Char) :
    (loop keys s).map Prod.fst = ((pressed keys).foldl (both size) (some s, line)).1 := by
  have stuck : ∀ (keys : List Key) (line : Line Char),
      (keys.foldl (both size) (none, line)).1 = none := by
    intro keys
    induction keys with
    | nil => exact fun line => rfl
    | cons key keys ih => exact fun line => ih _
  induction keys generalizing s line with
  | nil => rfl
  | cons key keys ih =>
    rw [loop]
    cases ends : key.rv with
    | some rv =>
      have none : pressed (key :: keys) = [] :=
        List.takeWhile_cons_of_neg (by rw [ends]; exact Bool.false_ne_true)
      rw [none]
      rfl
    | none =>
      have first : pressed (key :: keys) = key :: pressed keys :=
        List.takeWhile_cons_of_pos (by rw [ends]; rfl)
      rw [first, List.foldl_cons, both, Option.bind_some]
      simp only
      cases press s key with
      | none => exact (stuck (pressed keys) _).symm
      | some t => exact ih t _

theorem foldl_both (keys : List Key) (run : Option State × Line Char) :
    (keys.foldl (both size) run).2 = keys.foldl (typeKey size) run.2 := by
  induction keys generalizing run with
  | nil => rfl
  | cons key keys ih => exact ih _

/-- The state in which the loop starts. -/
def opened (buf : List Char) : State :=
  ⟨(lineOf buf).text ++ List.replicate (buf.length - (lineOf buf).text.length) nul,
    (lineOf buf).text.length⟩

theorem shows_opened (terminated : nul ∈ buf) : Shows buf.length (lineOf buf) (opened buf) := by
  have text := text_start (buf.takeWhile fun c => decide (c ≠ nul))
  have clean : nul ∉ (lineOf buf).text := by
    intro member
    rw [lineOf, text] at member
    exact absurd (List.mem_takeWhile_imp member) (by decide)
  have shorter : (lineOf buf).text.length < buf.length := by
    rw [lineOf, text]
    refine Nat.lt_of_le_of_ne (List.takeWhile_prefix _).length_le fun same => ?_
    have whole := (List.takeWhile_prefix (l := buf) fun c => decide (c ≠ nul)).eq_of_length same
    rw [← whole] at terminated
    exact absurd (List.mem_takeWhile_imp terminated) (by decide)
  obtain ⟨k, size⟩ : ∃ k, buf.length = (lineOf buf).text.length + k + 1 :=
    ⟨buf.length - (lineOf buf).text.length - 1, by omega⟩
  have shown := shows_memory clean k
  have same : opened buf = memory (lineOf buf) k := by
    rw [opened, memory, size, show (lineOf buf).text.length + k + 1 - (lineOf buf).text.length =
      k + 1 by omega, List.replicate_succ, lineOf, text]
    rfl
  rw [same, size]
  exact shown

theorem edits_iff_holds (terminated : nul ∈ buf) (keys : List Key) :
    Edits buf keys ↔
      Holds buf.length
        ((pressed keys).foldl (both buf.length) (some (opened buf), lineOf buf)) := by
  have text := text_start (buf.takeWhile fun c => decide (c ≠ nul))
  have start : cliGets buf keys = loop keys (opened buf) := by
    rw [cliGets, cstr, List.drop_zero, if_pos terminated, opened, lineOf, text]
    rfl
  rw [Edits, start, Holds, foldl_both, ← loop_eq keys (opened buf)]
  constructor
  · rintro ⟨s, rv, done, shows⟩
    exact ⟨s, by rw [done]; rfl, shows⟩
  · rintro ⟨s, done, shows⟩
    obtain ⟨⟨t, rv⟩, finished, rfl⟩ := Option.map_eq_some_iff.mp done
    exact ⟨t, rv, finished, shows⟩

theorem always_edits_iff (terminated : nul ∈ buf) (keys : List Key) :
    (∀ n, Edits buf (keys.take n)) ↔
      Always (both buf.length) (Holds buf.length) (pressed keys)
        (some (opened buf), lineOf buf) := by
  rw [StepRuns.always_iff_take]
  refine forall_congr' fun n => ?_
  rw [edits_iff_holds terminated, pressed, pressed, List.take_takeWhile]

/-- The editor edits the line after every key exactly when every key fits. -/
theorem edits_iff (terminated : nul ∈ buf) (keys : List Key) :
    (∀ n, Edits buf (keys.take n)) ↔
      Along (typeKey buf.length) (Fits buf.length) (pressed keys) (lineOf buf) :=
  (always_edits_iff terminated keys).trans (always_holds_iff (shows_opened terminated) _)

theorem lineOf_replicate (n : Nat) : lineOf (List.replicate n nul) = ⟨[], []⟩ := by
  cases n with
  | zero => rfl
  | succ n => rfl

/-- `so`, an `h` between the two, and a `w` at the end that is erased again. -/
theorem edits_sho : Edits (List.replicate 1025 nul)
    [.char 's', .char 'o', .arrowLeft, .char 'h', .toEnd, .char 'w', .backspace, .tab] := by
  refine (edits_iff (List.mem_replicate.mpr ⟨by decide, rfl⟩) [.char 's', .char 'o', .arrowLeft,
    .char 'h', .toEnd, .char 'w', .backspace, .tab]).mpr ?_ 8
  rw [List.length_replicate, lineOf_replicate]
  exact ⟨⟨by decide, by decide, .inl rfl⟩, ⟨by decide, by decide, .inl rfl⟩, trivial,
    ⟨by decide, by decide, .inr (by decide)⟩, trivial, ⟨by decide, by decide, .inl rfl⟩, trivial,
    trivial⟩

theorem foldl_chars (c : Char) (n : Nat) :
    (List.replicate n (Key.char c)).foldl (typeKey size) ⟨[], []⟩ =
      ⟨List.replicate (min n (size - 1)) c, []⟩ := by
  induction n with
  | zero => rw [Nat.zero_min]; rfl
  | succ n ih =>
    rw [List.replicate_succ', List.foldl_append, ih]
    change (if (List.replicate (min n (size - 1)) c ++ []).length < size - 1 then
      Line.mk (List.replicate (min n (size - 1)) c ++ [c]) [] else _) = _
    rw [List.append_nil, List.length_replicate]
    split_ifs with room
    · rw [← List.replicate_succ', show min n (size - 1) + 1 = min (n + 1) (size - 1) by omega]
    · rw [show min n (size - 1) = min (n + 1) (size - 1) by omega]

/-- One character more than the buffer holds is written over the last zero. -/
theorem not_edits_full :
    ¬ ∀ n, Edits (List.replicate 1025 nul) ((List.replicate 1025 (Key.char 'a')).take n) := by
  have terminated : nul ∈ List.replicate 1025 nul := List.mem_replicate.mpr ⟨by decide, rfl⟩
  have all : pressed (List.replicate 1025 (Key.char 'a')) = List.replicate 1025 (Key.char 'a') := by
    rw [pressed, List.takeWhile_eq_self_iff]
    intro key member
    rw [List.eq_of_mem_replicate member]
    rfl
  rw [always_edits_iff terminated, always_holds_iff (shows_opened terminated), all,
    List.length_replicate, lineOf_replicate, List.replicate_succ', StepRuns.along_append,
    foldl_chars]
  rintro ⟨-, ⟨-, room, -⟩, -⟩
  rw [Line.text, List.append_nil, List.length_replicate] at room
  omega

end Runs

end Gets
