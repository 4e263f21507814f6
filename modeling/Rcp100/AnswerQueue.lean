import Mathlib.Data.List.Induction
import Mathlib.Data.List.Nodup
import Mathlib.Data.List.Perm.Basic
import Rcp100.StepRuns

/-!
# Items that wait for an answer

An item with a key waits in a queue for some ticks. An answer for a key marks the first item
with it, and a marked item is dropped with the next tick; an item that is not marked is sent
when its ticks are over. Items are numbered by the events that brought them.
-/

namespace AnswerQueue

structure Item (κ : Type) where
  number : Nat
  key : κ
  ttl : Int
  marked : Bool

/-- What became of an item, and the event that ended its wait. -/
structure Fate (κ : Type) where
  number : Nat
  key : κ
  sent : Bool
  ended : Nat
deriving DecidableEq

inductive Event (κ : Type) where
  | put (key : κ)
  | answer (key : κ)
  | tick
  | idle
deriving DecidableEq

structure Queue (κ : Type) where
  now : Nat
  items : List (Item κ)
  fates : List (Fate κ)

variable {κ : Type}

def start : Queue κ := ⟨0, [], []⟩

def Item.down (i : Item κ) : Item κ := { i with ttl := i.ttl - 1 }

def Item.stopped (i : Item κ) : Item κ := { i with ttl := 0, marked := true }

def Item.isOver (i : Item κ) : Bool := i.ttl ≤ 0

def Item.fate (now : Nat) (i : Item κ) : Fate κ := ⟨i.number, i.key, !i.marked, now⟩

section Steps

variable [DecidableEq κ]

/-- The first item with the key is marked. -/
def mark (k : κ) : List (Item κ) → List (Item κ)
  | [] => []
  | i :: items => if i.key = k then i.stopped :: items else i :: mark k items

/-- An item waits for `n` ticks. -/
def step (n : Nat) (q : Queue κ) : Event κ → Queue κ
  | .put k => { q with now := q.now + 1, items := ⟨q.now, k, n, false⟩ :: q.items }
  | .answer k => { q with now := q.now + 1, items := mark k q.items }
  | .tick =>
    { now := q.now + 1
      items := (q.items.map Item.down).filter fun i => !i.isOver
      fates := q.fates ++ ((q.items.map Item.down).filter Item.isOver).map (Item.fate q.now) }
  | .idle => { q with now := q.now + 1 }

def run (n : Nat) (events : List (Event κ)) : Queue κ := events.foldl (step n) start

/-- All items with the key are marked, but the first one. -/
def RestMarked (k : κ) (items : List (Item κ)) : Prop :=
  ((items.filter fun i => i.key = k).tail.all Item.marked) = true

instance (k : κ) (items : List (Item κ)) : Decidable (RestMarked k items) :=
  inferInstanceAs (Decidable (_ = true))

/-- An answer leaves no item with its key unmarked. -/
def Reaches (q : Queue κ) : Event κ → Prop
  | .answer k => RestMarked k q.items
  | _ => True

end Steps

/-- The events behind one event and before another. -/
def between (events : List (Event κ)) (first last : Nat) : List (Event κ) :=
  (events.take last).drop (first + 1)

def Event.isTick : Event κ → Bool
  | .tick => true
  | _ => false

def ticks (events : List (Event κ)) : Nat := events.countP Event.isTick

/-- Each item that was put is sent or dropped once, with its `n`-th tick at the latest. -/
structure EachOnce (n : Nat) (events : List (Event κ)) (fates : List (Fate κ)) : Prop where
  once : (fates.map Fate.number).Nodup
  wasPut : ∀ f ∈ fates, events[f.number]? = some (.put f.key)
  ended : ∀ f ∈ fates, f.number < f.ended ∧ events[f.ended]? = some .tick
  soon : ∀ f ∈ fates, ticks (between events f.number f.ended) < n
  all : ∀ number key, events[number]? = some (.put key) →
    n ≤ ticks (between events number events.length) → ∃ f ∈ fates, f.number = number

/-- No item is sent that an answer came for while it waited. -/
def Silent (events : List (Event κ)) (fates : List (Fate κ)) : Prop :=
  ∀ f ∈ fates, f.sent = true → .answer f.key ∉ between events f.number f.ended

section Lists

variable {events : List (Event κ)} {event : Event κ} {first last : Nat}

theorem between_length : between events first events.length = events.drop (first + 1) := by
  rw [between, List.take_length]

theorem between_snoc (past : last ≤ events.length) :
    between (events ++ [event]) first last = between events first last := by
  rw [between, List.take_append_of_le_length past, between]

theorem between_now (known : first < events.length) :
    between (events ++ [event]) first (events ++ [event]).length =
      between events first events.length ++ [event] := by
  rw [between_length, between_length, List.drop_append_of_le_length known]

theorem ticks_snoc : ticks (events ++ [event]) = ticks events + if event.isTick then 1 else 0 := by
  simp only [ticks, List.countP_append, List.countP_singleton]

theorem getElem?_snoc {a : Event κ} (here : events[first]? = some a) :
    (events ++ [event])[first]? = some a := by
  rw [List.getElem?_append_left (List.getElem?_eq_some_iff.mp here).1]
  exact here

theorem lt_of_getElem? {a : Event κ} (here : events[first]? = some a) : first < events.length :=
  (List.getElem?_eq_some_iff.mp here).1

theorem getElem?_now : (events ++ [event])[events.length]? = some event :=
  List.getElem?_concat_length

theorem getElem?_snoc_cases {a : Event κ} (here : (events ++ [event])[first]? = some a) :
    events[first]? = some a ∨ (first = events.length ∧ event = a) := by
  rcases Nat.lt_trichotomy first events.length with before | rfl | after
  · rw [List.getElem?_append_left before] at here
    exact .inl here
  · rw [getElem?_now] at here
    exact .inr ⟨rfl, Option.some.inj here⟩
  · have inside := lt_of_getElem? here
    rw [List.length_append, List.length_singleton] at inside
    omega

end Lists

section Marks

variable [DecidableEq κ] {k : κ} {items : List (Item κ)} {i : Item κ}

theorem mark_cases (member : i ∈ mark k items) :
    i ∈ items ∨ ∃ old ∈ items, old.key = k ∧ i = old.stopped := by
  induction items with
  | nil => cases member
  | cons first items ih =>
    by_cases same : first.key = k
    · rw [mark, if_pos same] at member
      rcases List.mem_cons.mp member with rfl | later
      · exact .inr ⟨first, List.mem_cons_self, same, rfl⟩
      · exact .inl (List.mem_cons_of_mem first later)
    · rw [mark, if_neg same] at member
      rcases List.mem_cons.mp member with rfl | later
      · exact .inl List.mem_cons_self
      · rcases ih later with old | ⟨old, known, key, stopped⟩
        · exact .inl (List.mem_cons_of_mem first old)
        · exact .inr ⟨old, List.mem_cons_of_mem first known, key, stopped⟩

theorem map_number_mark : (mark k items).map Item.number = items.map Item.number := by
  induction items with
  | nil => rfl
  | cons first items ih =>
    rw [mark]
    split_ifs
    · rfl
    · rw [List.map_cons, ih, List.map_cons]

theorem restMarked_iff :
    RestMarked k items ↔ ∀ i ∈ mark k items, i.key = k → i.marked = true := by
  induction items with
  | nil => exact iff_of_true rfl fun i member => absurd member List.not_mem_nil
  | cons first items ih =>
    by_cases same : first.key = k
    · simp only [RestMarked, mark, same, decide_true, List.filter_cons_of_pos, List.tail_cons,
        List.all_eq_true, List.mem_filter, decide_eq_true_eq, if_true, List.forall_mem_cons]
      constructor
      · exact fun all => ⟨fun _ => rfl, fun i member key => all i ⟨member, key⟩⟩
      · exact fun all i member => all.2 i member.1 member.2
    · have dropped : (first :: items).filter (fun i => i.key = k) =
          items.filter fun i => i.key = k := by
        rw [List.filter_cons, if_neg (by simpa using same)]
      rw [mark, if_neg same, RestMarked, dropped, List.forall_mem_cons]
      exact ih.trans ⟨fun all => ⟨fun key => absurd key same, all⟩, fun all => all.2⟩

end Marks

section Tick

variable [DecidableEq κ] {n : Nat} {q : Queue κ} {i : Item κ} {f : Fate κ}

theorem mem_items_tick :
    i ∈ (step n q .tick).items ↔ ∃ old ∈ q.items, 1 < old.ttl ∧ i = old.down := by
  simp only [step, List.mem_filter, List.mem_map, Item.isOver, Bool.not_eq_true',
    decide_eq_false_iff_not, Int.not_le]
  constructor
  · rintro ⟨⟨old, member, rfl⟩, waits⟩
    have more : 0 < old.ttl - 1 := waits
    exact ⟨old, member, by omega, rfl⟩
  · rintro ⟨old, member, waits, rfl⟩
    have more : 0 < old.ttl - 1 := by omega
    exact ⟨⟨old, member, rfl⟩, more⟩

theorem mem_fates_tick :
    f ∈ (step n q .tick).fates ↔
      f ∈ q.fates ∨ ∃ old ∈ q.items, old.ttl ≤ 1 ∧ f = old.fate q.now := by
  simp only [step, List.mem_append, List.mem_map, List.mem_filter, Item.isOver,
    decide_eq_true_eq]
  refine or_congr_right ⟨?_, ?_⟩
  · rintro ⟨i, ⟨⟨old, member, rfl⟩, ends⟩, rfl⟩
    have last : old.ttl - 1 ≤ 0 := ends
    exact ⟨old, member, by omega, rfl⟩
  · rintro ⟨old, member, ends, rfl⟩
    have last : old.ttl - 1 ≤ 0 := by omega
    exact ⟨old.down, ⟨⟨old, member, rfl⟩, last⟩, rfl⟩

theorem numbers_tick :
    ((step n q .tick).items.map Item.number ++ (step n q .tick).fates.map Fate.number).Perm
      (q.items.map Item.number ++ q.fates.map Fate.number) := by
  have fateNumber : ∀ items : List (Item κ),
      (items.map (Item.fate q.now)).map Fate.number = items.map Item.number := by
    intro items
    rw [List.map_map]
    rfl
  have downNumber : (q.items.map Item.down).map Item.number = q.items.map Item.number := by
    rw [List.map_map]
    rfl
  have split := (List.filter_append_perm Item.isOver (q.items.map Item.down)).map Item.number
  rw [List.map_append, downNumber] at split
  simp only [step, List.map_append, fateNumber]
  refine List.perm_append_comm.trans ?_
  rw [List.append_assoc]
  exact (split.append_left _).trans List.perm_append_comm

end Tick

/-- An item that waits: it has as many ticks left as have not come since, unless it is marked. -/
structure Waits (n : Nat) (events : List (Event κ)) (i : Item κ) : Prop where
  wasPut : events[i.number]? = some (.put i.key)
  left : i.marked = false → i.ttl + ticks (between events i.number events.length) = n
  stopped : i.marked = true → i.ttl ≤ 1
  soon : ticks (between events i.number events.length) < n

/-- An item that was sent or dropped. -/
structure Ended (n : Nat) (events : List (Event κ)) (f : Fate κ) : Prop where
  wasPut : events[f.number]? = some (.put f.key)
  after : f.number < f.ended
  tick : events[f.ended]? = some .tick
  soon : ticks (between events f.number f.ended) < n

section Items

variable {n : Nat} {events : List (Event κ)} {i : Item κ} {f : Fate κ}

theorem Waits.known (waits : Waits n events i) : i.number < events.length :=
  lt_of_getElem? waits.wasPut

theorem Waits.snoc {event : Event κ} (waits : Waits n events i) (noTick : event.isTick = false) :
    Waits n (events ++ [event]) i := by
  have same : ticks (between (events ++ [event]) i.number (events ++ [event]).length) =
      ticks (between events i.number events.length) := by
    rw [between_now waits.known, ticks_snoc, noTick]
    rfl
  refine ⟨getElem?_snoc waits.wasPut, fun unmarked => ?_, waits.stopped, ?_⟩
  · rw [same]
    exact waits.left unmarked
  · rw [same]
    exact waits.soon

theorem Waits.stop (waits : Waits n events i) : Waits n events i.stopped where
  wasPut := waits.wasPut
  left unmarked := by cases unmarked
  stopped _ := Int.zero_le_ofNat 1
  soon := waits.soon

theorem ticks_now (known : i.number < events.length) :
    ticks (between (events ++ [.tick]) i.number (events ++ [Event.tick]).length) =
      ticks (between events i.number events.length) + 1 := by
  rw [between_now known, ticks_snoc]
  rfl

theorem Waits.down (waits : Waits n events i) (more : 1 < i.ttl) :
    Waits n (events ++ [.tick]) i.down := by
  have unmarked : i.marked = false := by
    cases marked : i.marked with
    | false => rfl
    | true => exact absurd (waits.stopped marked) (by omega)
  have left := waits.left unmarked
  have now := ticks_now waits.known
  refine ⟨getElem?_snoc waits.wasPut, fun _ => ?_, fun marked => ?_, ?_⟩
  · change i.ttl - 1 + ticks (between (events ++ [.tick]) i.number _) = n
    omega
  · cases unmarked.symm.trans marked
  · change ticks (between (events ++ [.tick]) i.number _) < n
    omega

theorem Waits.ends (waits : Waits n events i) :
    Ended n (events ++ [.tick]) (i.fate events.length) where
  wasPut := getElem?_snoc waits.wasPut
  after := waits.known
  tick := getElem?_now
  soon := by
    change ticks (between (events ++ [.tick]) i.number events.length) < n
    rw [between_snoc (Nat.le_refl _)]
    exact waits.soon

theorem waits_fresh (positive : 0 < n) (events : List (Event κ)) (k : κ) :
    Waits n (events ++ [.put k]) ⟨events.length, k, n, false⟩ := by
  have nothing : between (events ++ [.put k]) events.length (events ++ [Event.put k]).length =
      [] := by
    rw [between_length]
    exact List.drop_eq_nil_of_le (by simp)
  refine ⟨getElem?_now, fun _ => ?_, fun marked => absurd marked Bool.false_ne_true, ?_⟩
  · rw [nothing]
    exact Int.add_zero _
  · rw [nothing]
    exact positive

theorem Ended.snoc (ended : Ended n events f) (event : Event κ) :
    Ended n (events ++ [event]) f where
  wasPut := getElem?_snoc ended.wasPut
  after := ended.after
  tick := getElem?_snoc ended.tick
  soon := by
    rw [between_snoc (Nat.le_of_lt (lt_of_getElem? ended.tick))]
    exact ended.soon

end Items

/-- The state of a queue after some events: every item that was put is there once, waiting or
ended. -/
structure Tracks (n : Nat) (events : List (Event κ)) (q : Queue κ) : Prop where
  now : q.now = events.length
  nodup : (q.items.map Item.number ++ q.fates.map Fate.number).Nodup
  items : ∀ i ∈ q.items, Waits n events i
  fates : ∀ f ∈ q.fates, Ended n events f
  all : ∀ number key, events[number]? = some (.put key) →
    number ∈ q.items.map Item.number ++ q.fates.map Fate.number

section Runs

variable [DecidableEq κ] {n : Nat} {events : List (Event κ)} {event : Event κ} {q : Queue κ}

theorem run_snoc (events : List (Event κ)) (event : Event κ) :
    run n (events ++ [event]) = step n (run n events) event := by
  rw [run, List.foldl_append]
  rfl

omit [DecidableEq κ] in
theorem tracks_start : Tracks n [] (start : Queue κ) where
  now := rfl
  nodup := List.nodup_nil
  items _ member := by cases member
  fates _ member := by cases member
  all _ _ here := by cases here

omit [DecidableEq κ] in
theorem Tracks.numbers_lt (tracks : Tracks n events q) :
    ∀ number ∈ q.items.map Item.number ++ q.fates.map Fate.number, number < events.length := by
  intro number member
  rcases List.mem_append.mp member with waiting | done
  · obtain ⟨i, known, rfl⟩ := List.mem_map.mp waiting
    exact (tracks.items i known).known
  · obtain ⟨f, known, rfl⟩ := List.mem_map.mp done
    exact lt_of_getElem? (tracks.fates f known).wasPut

omit [DecidableEq κ] in
theorem Tracks.now_snoc (tracks : Tracks n events q) (event : Event κ) :
    q.now + 1 = (events ++ [event]).length := by
  rw [tracks.now, List.length_append, List.length_singleton]

omit [DecidableEq κ] in
theorem Tracks.all_snoc (tracks : Tracks n events q) (noPut : ∀ k, event ≠ .put k) {number : Nat}
    {key : κ} (here : (events ++ [event])[number]? = some (.put key)) :
    number ∈ q.items.map Item.number ++ q.fates.map Fate.number := by
  rcases getElem?_snoc_cases here with before | ⟨-, same⟩
  · exact tracks.all number key before
  · exact absurd same (noPut key)

theorem Tracks.put (tracks : Tracks n events q) (positive : 0 < n) (k : κ) :
    Tracks n (events ++ [.put k]) (step n q (.put k)) where
  now := tracks.now_snoc _
  nodup := by
    refine List.nodup_cons.mpr ⟨fun member => ?_, tracks.nodup⟩
    have before := tracks.numbers_lt _ member
    exact absurd before (tracks.now ▸ Nat.lt_irrefl _)
  items i member := by
    rcases List.mem_cons.mp member with rfl | old
    · rw [tracks.now]
      exact waits_fresh positive events k
    · exact (tracks.items i old).snoc rfl
  fates f member := (tracks.fates f member).snoc _
  all number key here := by
    rcases getElem?_snoc_cases here with before | ⟨rfl, -⟩
    · exact List.mem_cons_of_mem _ (tracks.all number key before)
    · exact tracks.now ▸ List.mem_cons_self

theorem Tracks.answer (tracks : Tracks n events q) (k : κ) :
    Tracks n (events ++ [.answer k]) (step n q (.answer k)) where
  now := tracks.now_snoc _
  nodup := by
    change ((mark k q.items).map Item.number ++ q.fates.map Fate.number).Nodup
    rw [map_number_mark]
    exact tracks.nodup
  items i member := by
    rcases mark_cases member with old | ⟨old, known, -, rfl⟩
    · exact (tracks.items i old).snoc rfl
    · exact ((tracks.items old known).snoc rfl).stop
  fates f member := (tracks.fates f member).snoc _
  all number key here := by
    change number ∈ (mark k q.items).map Item.number ++ q.fates.map Fate.number
    rw [map_number_mark]
    exact tracks.all_snoc (fun _ same => by cases same) here

theorem Tracks.tick (tracks : Tracks n events q) :
    Tracks n (events ++ [.tick]) (step n q .tick) where
  now := tracks.now_snoc _
  nodup := numbers_tick.nodup_iff.mpr tracks.nodup
  items i member := by
    obtain ⟨old, known, more, rfl⟩ := mem_items_tick.mp member
    exact (tracks.items old known).down more
  fates f member := by
    rcases mem_fates_tick.mp member with before | ⟨old, known, -, rfl⟩
    · exact (tracks.fates f before).snoc _
    · rw [tracks.now]
      exact (tracks.items old known).ends
  all number key here :=
    numbers_tick.mem_iff.mpr (tracks.all_snoc (fun _ same => by cases same) here)

theorem Tracks.idle (tracks : Tracks n events q) :
    Tracks n (events ++ [.idle]) (step n q .idle) where
  now := tracks.now_snoc _
  nodup := tracks.nodup
  items i member := (tracks.items i member).snoc rfl
  fates f member := (tracks.fates f member).snoc _
  all _ _ here := tracks.all_snoc (fun _ same => by cases same) here

theorem tracks_run (positive : 0 < n) (events : List (Event κ)) :
    Tracks n events (run n events) := by
  induction events using List.reverseRecOn with
  | nil => exact tracks_start
  | append_singleton events event ih =>
    rw [run_snoc]
    cases event with
    | put k => exact ih.put positive k
    | answer k => exact ih.answer k
    | tick => exact ih.tick
    | idle => exact ih.idle

omit [DecidableEq κ] in
theorem Tracks.eachOnce (tracks : Tracks n events q) : EachOnce n events q.fates where
  once := (List.nodup_append.mp tracks.nodup).2.1
  wasPut f member := (tracks.fates f member).wasPut
  ended f member := ⟨(tracks.fates f member).after, (tracks.fates f member).tick⟩
  soon f member := (tracks.fates f member).soon
  all number key here late := by
    rcases List.mem_append.mp (tracks.all number key here) with waiting | done
    · obtain ⟨i, known, rfl⟩ := List.mem_map.mp waiting
      exact absurd (tracks.items i known).soon (Nat.not_lt_of_le late)
    · obtain ⟨f, known, same⟩ := List.mem_map.mp done
      exact ⟨f, known, same⟩

end Runs

/-- No answer came for an item that waits without a mark, nor for one that was sent. -/
structure Quiet (events : List (Event κ)) (q : Queue κ) : Prop where
  told : ∀ i ∈ q.items, i.marked = false →
    .answer i.key ∉ between events i.number events.length
  silent : Silent events q.fates

section Answers

variable [DecidableEq κ] {n : Nat} {events : List (Event κ)} {event : Event κ} {q : Queue κ}
  {i : Item κ}

omit [DecidableEq κ] in
theorem not_answered_snoc {number : Nat} {k : κ} (known : number < events.length)
    (other : event ≠ .answer k) (told : .answer k ∉ between events number events.length) :
    .answer k ∉ between (events ++ [event]) number (events ++ [event]).length := by
  rw [between_now known]
  intro member
  rcases List.mem_append.mp member with before | now
  · exact told before
  · exact other (List.mem_singleton.mp now).symm

omit [DecidableEq κ] in
theorem Tracks.silent_snoc (tracks : Tracks n events q) (silent : Silent events q.fates)
    (event : Event κ) : Silent (events ++ [event]) q.fates := by
  intro f member sent
  rw [between_snoc (Nat.le_of_lt (lt_of_getElem? (tracks.fates f member).tick))]
  exact silent f member sent

theorem Quiet.put (tracks : Tracks n events q) (quiet : Quiet events q) (k : κ) :
    Quiet (events ++ [.put k]) (step n q (.put k)) := by
  refine ⟨fun i member unmarked => ?_, tracks.silent_snoc quiet.silent _⟩
  rcases List.mem_cons.mp member with rfl | old
  · rw [tracks.now, between_length, List.drop_eq_nil_of_le (by simp)]
    exact List.not_mem_nil
  · exact not_answered_snoc (tracks.items i old).known (fun same => by cases same)
      (quiet.told i old unmarked)

theorem Quiet.answer (tracks : Tracks n events q) (quiet : Quiet events q) {k : κ}
    (rest : RestMarked k q.items) : Quiet (events ++ [.answer k]) (step n q (.answer k)) := by
  refine ⟨fun i member unmarked => ?_, tracks.silent_snoc quiet.silent _⟩
  have other : i.key ≠ k := fun same =>
    Bool.false_ne_true (unmarked.symm.trans (restMarked_iff.mp rest i member same))
  rcases mark_cases member with old | ⟨old, -, -, rfl⟩
  · refine not_answered_snoc (tracks.items i old).known (fun same => ?_)
      (quiet.told i old unmarked)
    exact other (Event.answer.inj same).symm
  · cases unmarked

theorem Quiet.tick (tracks : Tracks n events q) (quiet : Quiet events q) :
    Quiet (events ++ [.tick]) (step n q .tick) := by
  refine ⟨fun i member unmarked => ?_, fun f member sent => ?_⟩
  · obtain ⟨old, known, -, rfl⟩ := mem_items_tick.mp member
    exact not_answered_snoc (tracks.items old known).known (fun same => by cases same)
      (quiet.told old known unmarked)
  · rcases mem_fates_tick.mp member with before | ⟨old, known, -, rfl⟩
    · exact tracks.silent_snoc quiet.silent _ f before sent
    · rw [tracks.now]
      change .answer old.key ∉ between (events ++ [.tick]) old.number events.length
      rw [between_snoc (Nat.le_refl _)]
      exact quiet.told old known (Bool.not_eq_true' _ ▸ sent)

theorem Quiet.idle (tracks : Tracks n events q) (quiet : Quiet events q) :
    Quiet (events ++ [.idle]) (step n q .idle) := by
  refine ⟨fun i member unmarked => ?_, tracks.silent_snoc quiet.silent _⟩
  exact not_answered_snoc (tracks.items i member).known (fun same => by cases same)
    (quiet.told i member unmarked)

theorem Quiet.step (tracks : Tracks n events q) (quiet : Quiet events q)
    (reaches : Reaches q event) : Quiet (events ++ [event]) (step n q event) := by
  cases event with
  | put k => exact quiet.put tracks k
  | answer k => exact quiet.answer tracks reaches
  | tick => exact quiet.tick tracks
  | idle => exact quiet.idle tracks

theorem quiet_run (positive : 0 < n) (along : StepRuns.Along (step n) Reaches events start) :
    Quiet events (run n events) := by
  induction events using List.reverseRecOn with
  | nil =>
    exact ⟨fun i member => absurd member List.not_mem_nil,
      fun f member => absurd member List.not_mem_nil⟩
  | append_singleton events event ih =>
    obtain ⟨before, now, -⟩ := StepRuns.along_append.mp along
    rw [run_snoc]
    exact (ih before).step (tracks_run positive events) now

theorem fates_step {f : Fate κ} (member : f ∈ q.fates) : f ∈ (step n q event).fates := by
  cases event with
  | tick => exact mem_fates_tick.mpr (.inl member)
  | put k => exact member
  | answer k => exact member
  | idle => exact member

theorem fates_foldl {f : Fate κ} (member : f ∈ q.fates) :
    f ∈ (events.foldl (step n) q).fates := by
  induction events generalizing q with
  | nil => exact member
  | cons event events ih => exact ih (fates_step member)

theorem sent_later (count : Nat) (tracks : Tracks n events q) (member : i ∈ q.items)
    (unmarked : i.marked = false) (enough : i.ttl ≤ count) :
    ∃ f ∈ ((List.replicate count Event.tick).foldl (step n) q).fates,
      f.number = i.number ∧ f.key = i.key ∧ f.sent = true ∧ events.length ≤ f.ended := by
  induction count generalizing events q i with
  | zero =>
    have waits := tracks.items i member
    have left := waits.left unmarked
    have soon := waits.soon
    omega
  | succ count ih =>
    rw [List.replicate_succ, List.foldl_cons]
    by_cases last : i.ttl ≤ 1
    · have sent : i.fate q.now ∈ (step n q .tick).fates :=
        mem_fates_tick.mpr (.inr ⟨i, member, last, rfl⟩)
      refine ⟨_, fates_foldl sent, rfl, rfl, ?_, Nat.le_of_eq tracks.now.symm⟩
      exact congrArg Bool.not unmarked
    · have waiting : i.down ∈ (step n q .tick).items :=
        mem_items_tick.mpr ⟨i, member, Int.not_le.mp last, rfl⟩
      have fewer : i.down.ttl ≤ count := by
        change i.ttl - 1 ≤ count
        omega
      obtain ⟨f, done, number, key, sent, late⟩ := ih tracks.tick waiting unmarked fewer
      rw [List.length_append] at late
      exact ⟨f, done, number, key, sent, by omega⟩

omit [DecidableEq κ] in
theorem mem_between_append {number last : Nat} {e : Event κ} (later : events.length ≤ last)
    (member : e ∈ between events number events.length) (more : List (Event κ)) :
    e ∈ between (events ++ more) number last := by
  rw [between_length] at member
  rw [between, List.take_append, List.take_of_length_le later]
  rw [List.drop_append]
  exact List.mem_append_left _ member

/-- An answer that leaves an item with its key unmarked is followed by ticks that send it. -/
theorem not_silent (positive : 0 < n) {k : κ} (misses : ¬ RestMarked k (run n events).items) :
    ¬ Silent (events ++ [.answer k] ++ List.replicate n .tick)
      (run n (events ++ [.answer k] ++ List.replicate n .tick)).fates := by
  have missed := mt restMarked_iff.mpr misses
  simp only [not_forall] at missed
  obtain ⟨i, member, key, unmarked⟩ := missed
  have unmarked' : i.marked = false := Bool.eq_false_iff.mpr unmarked
  have tracks : Tracks n (events ++ [.answer k]) (run n (events ++ [.answer k])) :=
    tracks_run positive _
  have waiting : i ∈ (run n (events ++ [.answer k])).items := by
    rw [run_snoc]
    exact member
  have left := (tracks.items i waiting).left unmarked'
  obtain ⟨f, done, number, sameKey, sent, late⟩ :=
    sent_later n tracks waiting unmarked' (by omega)
  intro silent
  have here : f ∈ (run n (events ++ [.answer k] ++ List.replicate n .tick)).fates := by
    rw [run, List.foldl_append]
    exact done
  refine silent f here sent ?_
  rw [number, sameKey, key]
  refine mem_between_append late ?_ _
  -- the item was there before the answer
  have before : i.number < events.length := by
    have old : i.number ∈ (mark k (run n events).items).map Item.number :=
      List.mem_map_of_mem member
    rw [map_number_mark] at old
    exact (tracks_run positive events).numbers_lt _ (List.mem_append_left _ old)
  rw [between_now before]
  exact List.mem_append_right _ List.mem_cons_self

/-- Answers reach all items with their keys along a run exactly when, wherever it stops, the
items that are then left to their ticks are sent without an answer. -/
theorem reaches_iff (positive : 0 < n) :
    StepRuns.Along (step n) Reaches events start ↔
      ∀ front, front <+: events →
        Silent (front ++ List.replicate n .tick)
          (run n (front ++ List.replicate n .tick)).fates := by
  constructor
  · rintro along front ⟨back, rfl⟩
    refine (quiet_run positive (StepRuns.along_append.mpr ⟨?_, ?_⟩)).silent
    · exact (StepRuns.along_append.mp along).1
    · have quietTicks : ∀ count (q : Queue κ),
          StepRuns.Along (step n) Reaches (List.replicate count .tick) q := by
        intro count
        induction count with
        | zero => exact fun _ => trivial
        | succ count ih => exact fun q => ⟨trivial, ih _⟩
      exact quietTicks n _
  · intro silent
    induction events using List.reverseRecOn with
    | nil => trivial
    | append_singleton events event ih =>
      refine StepRuns.along_append.mpr ⟨ih fun front isFront => ?_, ?_, trivial⟩
      · exact silent front (isFront.trans (List.prefix_append events [event]))
      · by_contra misses
        cases event with
        | answer k => exact not_silent positive misses (silent _ (List.prefix_refl _))
        | put k => exact misses trivial
        | tick => exact misses trivial
        | idle => exact misses trivial

end Answers

end AnswerQueue
