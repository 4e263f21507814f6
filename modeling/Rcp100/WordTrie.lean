import Mathlib.Data.List.Infix
import Mathlib.Tactic.Common

/-!
# Tries of words

A trie in the first child, next sibling form. Every node has a key and a label; the nodes
of a level form a list. A path of keys is added by following the keys that are there and
appending the others, and labels are changed on the way.
-/

namespace WordTrie

inductive Trie (κ β : Type) where
  | nil
  | node (key : κ) (label : β) (rule next : Trie κ β)

section Levels

variable {κ β : Type}

/-- The nodes of the first level, each with what is below it. -/
def siblings : Trie κ β → List (κ × β × Trie κ β)
  | .nil => []
  | .node key label rule next => (key, label, rule) :: siblings next

/-- No key occurs twice on a level, and every label can be found again. -/
def Tidy (usable : β → Bool) : Trie κ β → Prop
  | .nil => True
  | .node key label rule next =>
    usable label = true ∧ key ∉ (siblings next).map (·.1) ∧ Tidy usable rule ∧ Tidy usable next

variable {usable : β → Bool} {t : Trie κ β} {w : κ} {c : β × Trie κ β}

theorem Tidy.nodup (tidy : Tidy usable t) :
    ((siblings t).map (·.1)).Nodup := by
  induction t with
  | nil => exact List.nodup_nil
  | node key label rule next _ ih => exact List.nodup_cons.mpr ⟨tidy.2.1, ih tidy.2.2.2⟩

variable [DecidableEq κ]

def child (w : κ) : Trie κ β → Option (β × Trie κ β)
  | .nil => none
  | .node key label rule next => if key = w then some (label, rule) else child w next

/-- What is below a path. -/
def below (t : Trie κ β) : List κ → Trie κ β
  | [] => t
  | w :: rest =>
    match child w t with
    | none => .nil
    | some c => below c.2 rest

def labelAt (t : Trie κ β) : List κ → Option β
  | [] => none
  | [w] => (child w t).map (·.1)
  | w :: v :: rest => (child w t).bind (fun c => labelAt c.2 (v :: rest))

/-- Changes the node of a key; a new node is made at the end of the level when there is
none that is usable. -/
def update (usable : β → Bool) (w : κ) (fresh : Option β)
    (f : β → Trie κ β → Option (β × Trie κ β)) : Trie κ β → Option (Trie κ β)
  | .nil => do
    let label ← fresh
    let r ← f label .nil
    return .node w r.1 r.2 .nil
  | .node key label rule next =>
    if key = w ∧ usable label = true then do
      let r ← f label rule
      return .node key r.1 r.2 next
    else do
      let next' ← update usable w fresh f next
      return .node key label rule next'

/-- Adds a path. The first node has a label of its own when it is new. -/
def insert (usable : β → Bool) (make : Option β) (pass last : β → β) :
    List κ → Option β → Trie κ β → Option (Trie κ β)
  | [], _, t => some t
  | [w], first, t => update usable w first (fun label rule => some (last label, rule)) t
  | w :: v :: rest, first, t =>
    update usable w first (fun label rule => do
      let rule' ← insert usable make pass last (v :: rest) make rule
      return (pass label, rule')) t

theorem mem_siblings_of_child (found : child w t = some c) : (w, c) ∈ siblings t := by
  induction t with
  | nil => cases found
  | node key label rule next _ ih =>
    rw [child] at found
    split at found
    · rename_i same
      cases found
      subst same
      exact List.mem_cons_self
    · exact List.mem_cons_of_mem _ (ih found)

theorem child_of_mem_siblings
    (tidy : Tidy usable t) (member : (w, c) ∈ siblings t) : child w t = some c := by
  induction t with
  | nil => cases member
  | node key label rule next _ ih =>
    rw [child]
    rcases List.mem_cons.mp member with here | later
    · cases here
      rw [if_pos rfl]
    · have other : key ≠ w := by
        rintro rfl
        exact tidy.2.1 (List.mem_map.mpr ⟨_, later, rfl⟩)
      rw [if_neg other]
      exact ih tidy.2.2.2 later

theorem child_eq_none_iff :
    child w t = none ↔ w ∉ (siblings t).map (·.1) := by
  induction t with
  | nil => simp [child, siblings]
  | node key label rule next _ ih =>
    rw [child, siblings, List.map_cons, List.mem_cons, not_or]
    by_cases same : key = w
    · simp [same]
    · rw [if_neg same, ih]
      exact ⟨fun none => ⟨fun h => same h.symm, none⟩, fun both => both.2⟩

theorem Tidy.of_child (tidy : Tidy usable t) (found : child w t = some c) :
    usable c.1 = true ∧ Tidy usable c.2 := by
  induction t with
  | nil => cases found
  | node key label rule next _ ih =>
    rw [child] at found
    split at found
    · cases found
      exact ⟨tidy.1, tidy.2.2.1⟩
    · exact ih tidy.2.2.2 found

theorem labelAt_cons {p : List κ} (more : p ≠ []) :
    labelAt t (w :: p) = (child w t).bind (fun c => labelAt c.2 p) := by
  obtain ⟨v, rest, rfl⟩ := List.exists_cons_of_ne_nil more
  rfl

theorem labelAt_snoc (t : Trie κ β) (p : List κ) (v : κ) :
    labelAt t (p ++ [v]) = (child v (below t p)).map (·.1) := by
  induction p generalizing t with
  | nil => rfl
  | cons w rest ih =>
    rw [List.cons_append, labelAt_cons (by simp), below]
    cases child w t with
    | none => rfl
    | some c => exact ih c.2

theorem below_snoc (t : Trie κ β) (p : List κ) (v : κ) :
    below t (p ++ [v]) = ((child v (below t p)).map (·.2)).getD .nil := by
  induction p generalizing t with
  | nil =>
    rw [List.nil_append, below, below]
    cases child v t <;> rfl
  | cons w rest ih =>
    rw [List.cons_append, below, below]
    cases child w t with
    | none => rfl
    | some c => exact ih c.2

theorem Tidy.below (tidy : Tidy usable t) (p : List κ) :
    Tidy usable (WordTrie.below t p) := by
  induction p generalizing t with
  | nil => exact tidy
  | cons w rest ih =>
    rw [WordTrie.below]
    split
    · trivial
    · rename_i found
      exact ih (tidy.of_child found).2

theorem mem_siblings_below (tidy : Tidy usable t)
    {p : List κ} {v : κ} {b : β} {r : Trie κ β} :
    (v, b, r) ∈ siblings (below t p) ↔
      labelAt t (p ++ [v]) = some b ∧ below t (p ++ [v]) = r := by
  rw [labelAt_snoc, below_snoc]
  constructor
  · intro member
    rw [child_of_mem_siblings (tidy.below p) member]
    exact ⟨rfl, rfl⟩
  · rintro ⟨label, rule⟩
    obtain ⟨c, found, rfl⟩ := Option.map_eq_some_iff.mp label
    rw [found] at rule
    rw [← rule]
    exact mem_siblings_of_child found

end Levels

section Updates

variable {κ β : Type} [DecidableEq κ] {usable : β → Bool}

/-- The node before a change: the one of the key, or a new one without anything below. -/
def Prior (t : Trie κ β) (w : κ) (fresh : Option β) (c : β × Trie κ β) : Prop :=
  child w t = some c ∨ child w t = none ∧ fresh = some c.1 ∧ c.2 = .nil

variable {t : Trie κ β} {w : κ} {fresh : Option β}

theorem update_spec {t' : Trie κ β}
    {f : β → Trie κ β → Option (β × Trie κ β)} (tidy : Tidy usable t)
    (updated : update usable w fresh f t = some t') :
    ∃ c r, Prior t w fresh c ∧ f c.1 c.2 = some r ∧ child w t' = some r ∧
      (∀ v, v ≠ w → child v t' = child v t) ∧
      (usable r.1 = true → Tidy usable r.2 → Tidy usable t') := by
  induction t generalizing t' with
  | nil =>
    simp only [update, Option.bind_eq_bind, Option.bind_eq_some_iff, Option.pure_def,
      Option.some.injEq] at updated
    obtain ⟨b, made, r, changed, rfl⟩ := updated
    refine ⟨(b, .nil), r, .inr ⟨rfl, made, rfl⟩, changed, ?_, ?_, ?_⟩
    · rw [child, if_pos rfl]
    · intro v other
      simp only [child, if_neg other.symm]
    · intro found tidy'
      exact ⟨found, by simp [siblings], tidy', trivial⟩
  | node key label rule next _ ih =>
    rw [update] at updated
    split at updated
    · rename_i here
      obtain ⟨rfl, -⟩ := here
      simp only [Option.bind_eq_bind, Option.bind_eq_some_iff, Option.pure_def,
        Option.some.injEq] at updated
      obtain ⟨r, changed, rfl⟩ := updated
      refine ⟨(label, rule), r, .inl ?_, changed, ?_, ?_, ?_⟩
      · rw [child, if_pos rfl]
      · rw [child, if_pos rfl]
      · intro v other
        rw [child, child, if_neg other.symm, if_neg other.symm]
      · intro found tidy'
        exact ⟨found, tidy.2.1, tidy', tidy.2.2.2⟩
    · rename_i elsewhere
      have other : key ≠ w := fun same => elsewhere ⟨same, tidy.1⟩
      simp only [Option.bind_eq_bind, Option.bind_eq_some_iff, Option.pure_def,
        Option.some.injEq] at updated
      obtain ⟨next', updated, rfl⟩ := updated
      obtain ⟨c, r, prior, changed, here, others, tidy'⟩ := ih tidy.2.2.2 updated
      refine ⟨c, r, ?_, changed, ?_, ?_, ?_⟩
      · rw [Prior, child, if_neg other]
        exact prior
      · rw [child, if_neg other]
        exact here
      · intro v hv
        rw [child, child, others v hv]
      · intro found below
        have absent : key ∉ (siblings next').map (·.1) := by
          rw [← child_eq_none_iff, others key other, child_eq_none_iff]
          exact tidy.2.1
        exact ⟨tidy.1, absent, tidy.2.2.1, tidy' found below⟩

variable {make : Option β} {pass last : β → β}

/-- The label before a path is added: the old one, or that of a new node. -/
def PriorLabel (t : Trie κ β) (make first : Option β) (p : List κ) (b : β) : Prop :=
  labelAt t p = some b ∨ labelAt t p = none ∧ (if p.length = 1 then first else make) = some b

theorem insert_cons (w : κ) (ws : List κ) (first : Option β) (t : Trie κ β) :
    insert usable make pass last (w :: ws) first t =
      update usable w first (fun label rule => (insert usable make pass last ws make rule).map
        (fun rule' => (if ws = [] then last label else pass label, rule'))) t := by
  cases ws with
  | nil => rfl
  | cons v rest =>
    simp only [insert, reduceCtorEq, if_false]
    congr
    funext label rule
    cases insert usable make pass last (v :: rest) make rule <;> rfl

theorem Prior.tidy {c : β × Trie κ β}
    (prior : Prior t w fresh c) (tidy : Tidy usable t)
    (makes : ∀ b, fresh = some b → usable b = true) : usable c.1 = true ∧ Tidy usable c.2 := by
  rcases prior with old | ⟨-, made, empty⟩
  · exact tidy.of_child old
  · rw [empty]
    exact ⟨makes _ made, trivial⟩

theorem Prior.labelAt {c : β × Trie κ β}
    (prior : Prior t w fresh c) {p : List κ} (more : p ≠ []) :
    WordTrie.labelAt t (w :: p) = WordTrie.labelAt c.2 p := by
  rw [labelAt_cons more]
  rcases prior with old | ⟨none, -, empty⟩
  · rw [old]
    rfl
  · obtain ⟨v, rest, rfl⟩ := List.exists_cons_of_ne_nil more
    rw [none, empty]
    cases rest <;> rfl

theorem insert_spec {ws : List κ} {first : Option β} {t' : Trie κ β} (tidy : Tidy usable t)
    (inserted : insert usable make pass last ws first t = some t')
    (makes : ∀ b, make = some b → usable b = true)
    (makesFirst : ∀ b, first = some b → usable b = true)
    (passes : ∀ b, usable b = true → usable (pass b) = true)
    (lasts : ∀ b, usable b = true → usable (last b) = true) :
    Tidy usable t' ∧ (∀ p, ¬ p <+: ws → labelAt t' p = labelAt t p) ∧
      ∀ p, p ≠ [] → p <+: ws → ∃ b, PriorLabel t make first p b ∧
        labelAt t' p = some (if p = ws then last b else pass b) := by
  induction ws generalizing first t t' with
  | nil =>
    cases inserted
    refine ⟨tidy, fun _ _ => rfl, ?_⟩
    intro p some' inside
    exact absurd (List.prefix_nil.mp inside) some'
  | cons w ws ih =>
    rw [insert_cons] at inserted
    obtain ⟨c, r, prior, changed, here, others, tidy'⟩ := update_spec tidy inserted
    obtain ⟨rule', inner, rfl⟩ := Option.map_eq_some_iff.mp changed
    obtain ⟨usableC, tidyC⟩ := prior.tidy tidy makesFirst
    obtain ⟨tidyRule, unchanged, along⟩ := ih tidyC inner makes
    refine ⟨tidy' ?_ tidyRule, ?_, ?_⟩
    · dsimp only
      split
      · exact lasts _ usableC
      · exact passes _ usableC
    · intro p outside
      cases p with
      | nil => exact absurd List.nil_prefix outside
      | cons u rest =>
        by_cases same : u = w
        · subst same
          have deeper : ¬ rest <+: ws := by
            intro inside
            exact outside (List.cons_prefix_cons.mpr ⟨rfl, inside⟩)
          have more : rest ≠ [] := by
            rintro rfl
            exact deeper List.nil_prefix
          rw [prior.labelAt more, labelAt_cons more, here]
          exact unchanged rest deeper
        · cases rest with
          | nil => rw [labelAt, labelAt, others u same]
          | cons v rest => rw [labelAt, labelAt, others u same]
    · intro p some' inside
      cases p with
      | nil => exact absurd rfl some'
      | cons u rest =>
        obtain ⟨rfl, deeper⟩ := List.cons_prefix_cons.mp inside
        by_cases end' : rest = []
        · subst end'
          refine ⟨c.1, ?_, ?_⟩
          · rw [PriorLabel, labelAt]
            rcases prior with old | ⟨none, made, -⟩
            · exact .inl (by rw [old]; rfl)
            · exact .inr ⟨by rw [none]; rfl, made⟩
          · rw [labelAt, here]
            simp [eq_comm]
        · obtain ⟨b, priorLabel, label⟩ := along rest end' deeper
          refine ⟨b, ?_, ?_⟩
          · rw [PriorLabel, prior.labelAt end']
            have length : ¬ (u :: rest).length = 1 := by
              simpa using end'
            rw [if_neg length]
            simpa [PriorLabel] using priorLabel
          · rw [labelAt_cons end', here]
            simpa using label

end Updates

section Order

variable {κ β : Type} [DecidableEq κ] {usable : β → Bool}

/-- The keys of the level below a path, in their order. -/
def keysBelow (t : Trie κ β) (p : List κ) : List κ := (siblings (below t p)).map (·.1)

/-- A key that is not there yet goes to the end. -/
def push (keys : List κ) (w : κ) : List κ := if w ∈ keys then keys else keys ++ [w]

theorem find?_push (P : κ → Bool) (keys : List κ) (w : κ) :
    (push keys w).find? P = (keys ++ [w]).find? P := by
  rw [push]
  split
  · rename_i member
    rw [List.find?_append]
    cases found : keys.find? P with
    | some v => rfl
    | none =>
      have fails := List.find?_eq_none.mp found w member
      rw [Option.none_or, List.find?_singleton, if_neg fails]
  · rfl

variable {t : Trie κ β} {w : κ}

theorem update_keys {t' : Trie κ β} {fresh : Option β}
    {f : β → Trie κ β → Option (β × Trie κ β)} (tidy : Tidy usable t)
    (updated : update usable w fresh f t = some t') :
    (siblings t').map (·.1) = push ((siblings t).map (·.1)) w := by
  induction t generalizing t' with
  | nil =>
    simp only [update, Option.bind_eq_bind, Option.bind_eq_some_iff, Option.pure_def,
      Option.some.injEq] at updated
    obtain ⟨b, -, r, -, rfl⟩ := updated
    rfl
  | node key label rule next _ ih =>
    rw [update] at updated
    split at updated
    · rename_i here
      simp only [Option.bind_eq_bind, Option.bind_eq_some_iff, Option.pure_def,
        Option.some.injEq] at updated
      obtain ⟨r, -, rfl⟩ := updated
      have member : w ∈ (siblings (.node key label rule next)).map (·.1) := by
        rw [siblings, here.1]
        exact List.mem_cons_self
      rw [push, if_pos member]
      rfl
    · rename_i elsewhere
      have other : w ≠ key := fun same => elsewhere ⟨same.symm, tidy.1⟩
      simp only [Option.bind_eq_bind, Option.bind_eq_some_iff, Option.pure_def,
        Option.some.injEq] at updated
      obtain ⟨next', updated, rfl⟩ := updated
      rw [siblings, siblings, List.map_cons, List.map_cons, ih tidy.2.2.2 updated, push, push]
      simp only [List.mem_cons, other, false_or]
      split <;> rfl

theorem keysBelow_trie_nil (p : List κ) : keysBelow (.nil : Trie κ β) p = [] := by
  cases p <;> rfl

theorem keysBelow_cons {p : List κ} {c : β × Trie κ β}
    (found : child w t = some c) : keysBelow t (w :: p) = keysBelow c.2 p := by
  rw [keysBelow, below, found]
  rfl

theorem Prior.keysBelow {fresh : Option β} {c : β × Trie κ β}
    (prior : Prior t w fresh c) (p : List κ) :
    WordTrie.keysBelow t (w :: p) = WordTrie.keysBelow c.2 p := by
  rcases prior with old | ⟨none, -, empty⟩
  · exact keysBelow_cons old
  · rw [empty, keysBelow_trie_nil, WordTrie.keysBelow, below, none]
    rfl

variable {make : Option β} {pass last : β → β}

theorem insert_keysBelow {ws : List κ} {first : Option β} {t' : Trie κ β}
    (tidy : Tidy usable t) (inserted : insert usable make pass last ws first t = some t')
    (makes : ∀ b, make = some b → usable b = true)
    (makesFirst : ∀ b, first = some b → usable b = true) (p : List κ) :
    (∀ v, p ++ [v] <+: ws → keysBelow t' p = push (keysBelow t p) v) ∧
      ((∀ v, ¬ p ++ [v] <+: ws) → keysBelow t' p = keysBelow t p) := by
  induction ws generalizing first t t' p with
  | nil =>
    cases inserted
    refine ⟨?_, fun _ => rfl⟩
    intro v along
    exact absurd (List.prefix_nil.mp along) (by simp)
  | cons w ws ih =>
    rw [insert_cons] at inserted
    obtain ⟨c, r, prior, changed, here, others, -⟩ := update_spec tidy inserted
    obtain ⟨rule', inner, rfl⟩ := Option.map_eq_some_iff.mp changed
    cases p with
    | nil =>
      constructor
      · intro v along
        obtain ⟨rfl, -⟩ := List.cons_prefix_cons.mp along
        exact update_keys tidy inserted
      · intro none
        exact absurd (List.cons_prefix_cons.mpr ⟨rfl, List.nil_prefix⟩) (none w)
    | cons u q =>
      by_cases same : u = w
      · subst same
        obtain ⟨inside, outside⟩ := ih (prior.tidy tidy makesFirst).2 inner makes q
        rw [keysBelow_cons here, prior.keysBelow q]
        constructor
        · intro v along
          exact inside v (List.cons_prefix_cons.mp along).2
        · intro none
          exact outside fun v along => none v (List.cons_prefix_cons.mpr ⟨rfl, along⟩)
      · have level : keysBelow t' (u :: q) = keysBelow t (u :: q) := by
          rw [keysBelow, keysBelow, below, below, others u same]
        refine ⟨?_, fun _ => level⟩
        intro v along
        exact absurd (List.cons_prefix_cons.mp along).1 same

end Order

section Keys

variable {κ β : Type} {P : κ → Prop}

/-- All keys of the trie have the property. -/
def AllKeys (P : κ → Prop) : Trie κ β → Prop
  | .nil => True
  | .node key _ rule next => P key ∧ AllKeys P rule ∧ AllKeys P next

theorem AllKeys.of_mem {t : Trie κ β} (keys : AllKeys P t) {c : κ × β × Trie κ β}
    (member : c ∈ siblings t) : P c.1 ∧ AllKeys P c.2.2 := by
  induction t with
  | nil => cases member
  | node key label rule next _ ih =>
    rcases List.mem_cons.mp member with rfl | later
    · exact ⟨keys.1, keys.2.1⟩
    · exact ih keys.2.2 later

variable [DecidableEq κ] {usable : β → Bool}

theorem AllKeys.update {w : κ} {fresh : Option β} {f : β → Trie κ β → Option (β × Trie κ β)}
    {t t' : Trie κ β} (keys : AllKeys P t) (own : P w)
    (kept : ∀ b r c, f b r = some c → AllKeys P r → AllKeys P c.2)
    (updated : WordTrie.update usable w fresh f t = some t') : AllKeys P t' := by
  induction t generalizing t' with
  | nil =>
    simp only [WordTrie.update, Option.bind_eq_bind, Option.bind_eq_some_iff, Option.pure_def,
      Option.some.injEq] at updated
    obtain ⟨b, -, c, changed, rfl⟩ := updated
    exact ⟨own, kept b .nil c changed trivial, trivial⟩
  | node key label rule next _ ih =>
    rw [WordTrie.update] at updated
    split at updated
    · simp only [Option.bind_eq_bind, Option.bind_eq_some_iff, Option.pure_def,
        Option.some.injEq] at updated
      obtain ⟨c, changed, rfl⟩ := updated
      exact ⟨keys.1, kept label rule c changed keys.2.1, keys.2.2⟩
    · simp only [Option.bind_eq_bind, Option.bind_eq_some_iff, Option.pure_def,
        Option.some.injEq] at updated
      obtain ⟨next', changed, rfl⟩ := updated
      exact ⟨keys.1, keys.2.1, ih keys.2.2 changed⟩

theorem AllKeys.insert {make first : Option β} {pass last : β → β} {p : List κ}
    {t t' : Trie κ β} (keys : AllKeys P t) (own : ∀ w ∈ p, P w)
    (inserted : WordTrie.insert usable make pass last p first t = some t') : AllKeys P t' := by
  induction p generalizing first t t' with
  | nil =>
    cases inserted
    exact keys
  | cons w rest ih =>
    have deeper := fun v member => own v (List.mem_cons_of_mem w member)
    cases rest with
    | nil =>
      refine keys.update (own w List.mem_cons_self) (fun b r c changed below => ?_) inserted
      cases changed
      exact below
    | cons v rest =>
      refine keys.update (own w List.mem_cons_self) (fun b r c changed below => ?_) inserted
      simp only [Option.bind_eq_bind, Option.bind_eq_some_iff, Option.pure_def,
        Option.some.injEq] at changed
      obtain ⟨r', inside, rfl⟩ := changed
      exact ih below deeper inside

end Keys

section Growth

variable {κ β : Type} [DecidableEq κ] {usable : β → Bool}

theorem update_made {w : κ} {fresh : β} {f : β → Trie κ β → Option (β × Trie κ β)}
    (changes : ∀ b r, ∃ c, f b r = some c) (t : Trie κ β) :
    ∃ t', update usable w (some fresh) f t = some t' := by
  induction t with
  | nil =>
    obtain ⟨c, changed⟩ := changes fresh .nil
    exact ⟨_, by simp only [update, Option.bind_eq_bind, Option.bind_some, changed]; rfl⟩
  | node key label rule next _ ih =>
    rw [update]
    split_ifs
    · obtain ⟨c, changed⟩ := changes label rule
      exact ⟨_, by rw [changed]; rfl⟩
    · obtain ⟨next', changed⟩ := ih
      exact ⟨_, by rw [changed]; rfl⟩

theorem insert_made {make : β} {pass last : β → β} (p : List κ) (first : β) (t : Trie κ β) :
    ∃ t', insert usable (some make) pass last p (some first) t = some t' := by
  induction p generalizing first t with
  | nil => exact ⟨t, rfl⟩
  | cons w rest ih =>
    cases rest with
    | nil => exact update_made (fun b r => ⟨_, rfl⟩) t
    | cons v rest =>
      refine update_made (fun b r => ?_) t
      obtain ⟨r', below⟩ := ih make r
      exact ⟨_, by rw [below]; rfl⟩

end Growth

end WordTrie
