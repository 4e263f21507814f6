import Rcp100.PointerList
import Mathlib.Data.List.Perm.Subperm
import Mathlib.Data.List.Nodup

/-!
# Tables of chains

A table has a chain of cells for each bucket; every cell has one link. A cell is put in
front of a chain, taken out of it, or searched for. The cells in use are given as a list:
touching another cell is a failure, and so is a walk that is longer than the list, which
can only go round in a circle.
-/

namespace ChainTable

open PointerList
open Function (update update_of_ne update_self)

inductive Fault where
  /-- a cell that is not in use was touched -/
  | freed
  /-- the cell to be taken out is not in the chain -/
  | missing
  /-- the walk does not end -/
  | endless
deriving DecidableEq

@[simp]
theorem ok_bind {ε α β : Type} (a : α) (f : α → Except ε β) : (Except.ok a >>= f) = f a := rfl

@[simp]
theorem error_bind {ε α β : Type} (e : ε) (f : α → Except ε β) :
    ((Except.error e : Except ε α) >>= f) = .error e := rfl

@[simp]
theorem pure_eq_ok {ε α : Type} (a : α) : (pure a : Except ε α) = .ok a := rfl

theorem bind_eq_ok {ε α β : Type} {x : Except ε α} {f : α → Except ε β} {b : β}
    (done : x >>= f = .ok b) : ∃ a, x = .ok a ∧ f a = .ok b := by
  cases x with
  | error e => cases done
  | ok a => exact ⟨a, rfl, done⟩

structure Table (P H : Type) where
  head : H → Option P
  next : P → Option P

variable {P H : Type} [DecidableEq P] [DecidableEq H]

/-- Touches a cell. -/
def access {α : Type} (live : List P) (p : P) (r : α) : Except Fault α :=
  if p ∈ live then .ok r else .error .freed

omit [DecidableEq H] in
theorem access_eq_ok {α : Type} {live : List P} {p : P} {r a : α}
    (done : access live p r = .ok a) : p ∈ live ∧ r = a := by
  rw [access] at done
  by_cases used : p ∈ live
  · rw [if_pos used] at done
    exact ⟨used, Except.ok.inj done⟩
  · rw [if_neg used] at done
    cases done

def Table.add (t : Table P H) (h : H) (p : P) : Table P H :=
  { head := update t.head h (some p), next := update t.next p (t.head h) }

/-- The cell whose link leads to `c`, from a cell on. -/
def before (live : List P) (next : P → Option P) (c : P) : Nat → P → Except Fault P
  | 0, _ => .error .endless
  | steps+1, prev => do
    match ← access live prev (next prev) with
    | none => .error .missing
    | some ptr => if ptr = c then return prev else before live next c steps ptr

def Table.remove (live : List P) (t : Table P H) (h : H) (c : P) : Except Fault (Table P H) :=
  match t.head h with
  | none => .error .missing
  | some first =>
    if first = c then do
      let following ← access live c (t.next c)
      return { t with head := update t.head h following }
    else do
      let prev ← before live t.next c live.length first
      let following ← access live c (t.next c)
      return { t with next := update t.next prev following }

/-- The first cell that passes a test. -/
def search (live : List P) (next : P → Option P) (test : P → Bool) :
    Nat → Option P → Except Fault (Option P)
  | _, none => .ok none
  | 0, some _ => .error .endless
  | steps+1, some p => do
    let (found, following) ← access live p (test p, next p)
    if found then return some p else search live next test steps following

def Table.find (live : List P) (t : Table P H) (h : H) (test : P → Bool) :
    Except Fault (Option P) :=
  search live t.next test live.length (t.head h)

/-- The cells of a chain. -/
def collect (live : List P) (next : P → Option P) : Nat → Option P → Except Fault (List P)
  | _, none => .ok []
  | 0, some _ => .error .endless
  | steps+1, some p => do
    let following ← access live p (next p)
    let rest ← collect live next steps following
    return p :: rest

/-- A walk that reads the link of a cell before it works on the cell. -/
def sweep {σ : Type} (read : σ → P → Except Fault (Option P)) (body : P → σ → Except Fault σ) :
    Nat → Option P → σ → Except Fault σ
  | _, none, s => .ok s
  | 0, some _, _ => .error .endless
  | steps+1, some p, s => do
    let following ← read s p
    let s ← body p s
    sweep read body steps following s

/-- The chains of a table hold the given cells, each one once and in the bucket of its
place. -/
structure Threads (t : Table P H) (place : P → H) (cells : List P) (chains : H → List P) :
    Prop where
  path : ∀ h, Path t.next (t.head h) (chains h) none
  nodup : ∀ h, (chains h).Nodup
  mem : ∀ h p, p ∈ chains h ↔ p ∈ cells ∧ place p = h

section Specs

variable {t : Table P H} {place : P → H} {cells live : List P} {chains : H → List P} {c : P}

omit [DecidableEq H] [DecidableEq P] in
theorem Threads.congr {place' : P → H} {cells' : List P} (threads : Threads t place cells chains)
    (same : ∀ p, p ∈ cells' ↔ p ∈ cells) (places : ∀ p ∈ cells, place' p = place p) :
    Threads t place' cells' chains := by
  refine ⟨threads.path, threads.nodup, fun h p => ?_⟩
  rw [threads.mem, same]
  constructor
  · rintro ⟨member, here⟩
    exact ⟨member, (places p member).trans here⟩
  · rintro ⟨member, here⟩
    exact ⟨member, (places p member).symm.trans here⟩

variable {p : P} {next : P → Option P} {front : List P}

theorem access_ok {α : Type} (member : p ∈ live) (r : α) :
    access live p r = .ok r := if_pos member

theorem access_freed {α : Type} (absent : p ∉ live) (r : α) :
    access live p r = .error .freed := if_neg absent

theorem Threads.add (threads : Threads t place cells chains) (fresh : c ∉ cells) :
    Threads (t.add (place c) c) place (c :: cells)
      (update chains (place c) (c :: chains (place c))) := by
  have apart (h : H) : ∀ p ∈ chains h,
      update t.next c (t.head (place c)) p = t.next p := by
    intro p member
    refine update_of_ne ?_ _ _
    rintro rfl
    exact fresh ((threads.mem h p).mp member).1
  refine ⟨fun h => ?_, fun h => ?_, fun h p => ?_⟩
  · by_cases here : h = place c
    · subst here
      simp only [Table.add, update_self]
      refine ⟨rfl, ?_⟩
      rw [update_self]
      exact (threads.path _).congr (apart _)
    · simp only [Table.add, update_of_ne here]
      exact (threads.path h).congr (apart h)
  · by_cases here : h = place c
    · subst here
      rw [update_self, List.nodup_cons]
      exact ⟨fun member => fresh ((threads.mem _ c).mp member).1, threads.nodup _⟩
    · rw [update_of_ne here]
      exact threads.nodup h
  · by_cases here : h = place c
    · subst here
      rw [update_self, List.mem_cons, List.mem_cons, threads.mem]
      constructor
      · rintro (rfl | ⟨member, same⟩)
        · exact ⟨.inl rfl, rfl⟩
        · exact ⟨.inr member, same⟩
      · rintro ⟨rfl | member, same⟩
        · exact .inl rfl
        · exact .inr ⟨member, same⟩
    · rw [update_of_ne here, threads.mem, List.mem_cons]
      constructor
      · rintro ⟨member, same⟩
        exact ⟨.inr member, same⟩
      · rintro ⟨rfl | member, same⟩
        · exact absurd same.symm here
        · exact ⟨member, same⟩

omit [DecidableEq H] in
theorem before_spec {back : List P} {prev : P} (steps : Nat)
    (path : Path next (some prev) (prev :: front ++ c :: back) none)
    (used : ∀ p ∈ prev :: front, p ∈ live) (absent : c ∉ front) (enough : front.length < steps) :
    before live next c steps prev = .ok ((prev :: front).getLast (by simp)) := by
  induction front generalizing prev steps with
  | nil =>
    obtain ⟨steps, rfl⟩ := Nat.exists_eq_add_one_of_ne_zero (Nat.ne_zero_of_lt enough)
    have link : next prev = some c := path.2.1
    rw [before, access_ok (used prev (by simp)), link]
    exact if_pos rfl
  | cons q front ih =>
    obtain ⟨steps, rfl⟩ := Nat.exists_eq_add_one_of_ne_zero (Nat.ne_zero_of_lt enough)
    obtain ⟨other, later⟩ := not_or.mp (mt List.mem_cons.mpr absent)
    have link : next prev = some q := path.2.1
    have rest : Path next (some q) (q :: front ++ c :: back) none := by
      have tail : Path next (next prev) (q :: front ++ c :: back) none := path.2
      rwa [link] at tail
    rw [before, access_ok (used prev (by simp)), link]
    have goOn := ih steps rest (fun p member => used p (List.mem_cons_of_mem _ member)) later
      (by simpa using enough)
    rw [List.getLast_cons (by simp), ← goOn]
    exact if_neg (Ne.symm other)

/-- A table whose links and heads differ from the old ones in the chain of `c` only, from
which the cell is gone. -/
theorem Threads.without (threads : Threads t place cells chains) {t' : Table P H}
    (path : Path t'.next (t'.head (place c)) ((chains (place c)).erase c) none)
    (heads : ∀ h, h ≠ place c → t'.head h = t.head h)
    (links : ∀ h, h ≠ place c → ∀ p ∈ chains h, t'.next p = t.next p) :
    Threads t' place (cells.filter (· ≠ c))
      (update chains (place c) ((chains (place c)).erase c)) := by
  have nodup := threads.nodup (place c)
  refine ⟨fun h => ?_, fun h => ?_, fun h p => ?_⟩
  · by_cases here : h = place c
    · subst here
      rw [update_self]
      exact path
    · rw [update_of_ne here, heads h here]
      exact (threads.path h).congr (links h here)
  · by_cases here : h = place c
    · subst here
      rw [update_self]
      exact nodup.erase c
    · rw [update_of_ne here]
      exact threads.nodup h
  · rw [List.mem_filter, decide_eq_true_iff]
    by_cases here : h = place c
    · subst here
      rw [update_self, nodup.mem_erase_iff, threads.mem]
      tauto
    · rw [update_of_ne here, threads.mem]
      constructor
      · rintro ⟨old, same⟩
        refine ⟨⟨old, ?_⟩, same⟩
        rintro rfl
        exact here same.symm
      · rintro ⟨⟨old, -⟩, same⟩
        exact ⟨old, same⟩

omit [DecidableEq H] in
theorem Threads.split (threads : Threads t place cells chains) (member : c ∈ cells) :
    ∃ front back, chains (place c) = front ++ c :: back ∧ c ∉ front ∧
      (chains (place c)).erase c = front ++ back := by
  have inChain : c ∈ chains (place c) := (threads.mem _ c).mpr ⟨member, rfl⟩
  have nodup := threads.nodup (place c)
  obtain ⟨front, back, chain⟩ := List.append_of_mem inChain
  have absent : c ∉ front := by
    intro inFront
    rw [chain] at nodup
    exact (List.nodup_append.mp nodup).2.2 c inFront c (by simp) rfl
  refine ⟨front, back, chain, absent, ?_⟩
  rw [chain, List.erase_append_right _ absent, List.erase_cons_head]

omit [DecidableEq H] in
theorem Threads.walk (threads : Threads t place cells chains)
    (used : ∀ p ∈ cells, p ∈ live) {first : P} {back : List P}
    (chain : chains (place c) = first :: front ++ c :: back) (absent : c ∉ front) :
    t.head (place c) = some first ∧ before live t.next c live.length first =
      .ok ((first :: front).getLast (by simp)) := by
  have path := threads.path (place c)
  have nodup := threads.nodup (place c)
  rw [chain] at path nodup
  have head : t.head (place c) = some first := path.1
  have sub : (first :: front ++ c :: back) ⊆ live := by
    intro p inside
    rw [← chain] at inside
    exact used p ((threads.mem (place c) p).mp inside).1
  have short : front.length < live.length := by
    have bound := (List.subperm_of_subset nodup sub).length_le
    simp only [List.length_append, List.length_cons] at bound
    omega
  refine ⟨head, before_spec live.length (head ▸ path) (fun p inFront => ?_) absent short⟩
  exact sub (List.mem_append_left _ inFront)

theorem Threads.remove (threads : Threads t place cells chains) (member : c ∈ cells)
    (used : ∀ p ∈ cells, p ∈ live) :
    ∃ t', t.remove live (place c) c = .ok t' ∧
      Threads t' place (cells.filter (· ≠ c))
        (update chains (place c) ((chains (place c)).erase c)) := by
  obtain ⟨front, back, chain, absent, erased⟩ := threads.split member
  have path := threads.path (place c)
  have nodup := threads.nodup (place c)
  have usedC : c ∈ live := used c member
  rw [chain] at path nodup
  cases front with
  | nil =>
    have first : t.head (place c) = some c := path.1
    refine ⟨{ t with head := update t.head (place c) (t.next c) }, ?_, ?_⟩
    · rw [Table.remove, first]
      simp only [if_true, access_ok usedC]
      rfl
    · refine threads.without ?_ ?_ (fun _ _ _ _ => rfl)
      · rw [erased]
        simp only [List.nil_append, update_self]
        exact path.2
      · intro h other
        exact update_of_ne other _ _
  | cons first front =>
    obtain ⟨other, absent⟩ := not_or.mp (mt List.mem_cons.mpr absent)
    obtain ⟨head, walk⟩ := threads.walk used chain absent
    obtain ⟨init, last, split⟩ : ∃ init last, first :: front = init ++ [last] :=
      ⟨_, _, (List.dropLast_append_getLast (by simp)).symm⟩
    have isLast : (first :: front).getLast (by simp) = last := by
      simp [split]
    refine ⟨{ t with next := update t.next last (t.next c) }, ?_, ?_⟩
    · rw [Table.remove, head]
      simp only [if_neg (Ne.symm other), walk, access_ok usedC, isLast]
      rfl
    · refine threads.without ?_ (fun _ _ => rfl) ?_
      · rw [erased]
        rw [split, List.append_assoc] at path nodup ⊢
        obtain ⟨nodupInit, nodupLast, disjoint⟩ := List.nodup_append.mp nodup
        have nodupTail := (List.nodup_cons.mp nodupLast)
        refine Path.remove (c := last) (p := c) path (update_self ..) ?_ ?_
        · intro q inInit
          refine update_of_ne ?_ _ _
          rintro rfl
          exact disjoint q inInit q (by simp) rfl
        · intro q inBack
          refine update_of_ne ?_ _ _
          rintro rfl
          exact nodupTail.1 (List.mem_cons_of_mem _ inBack)
      · intro h elsewhere p inside
        refine update_of_ne ?_ _ _
        rintro rfl
        have there : p ∈ chains (place c) := by
          rw [chain, split]
          simp
        rw [threads.mem] at inside there
        exact elsewhere (inside.2.symm.trans there.2)

omit [DecidableEq H] in
theorem search_spec {start : Option P} {ps : List P} {test : P → Bool}
    (path : Path next start ps none) (used : ∀ p ∈ ps, p ∈ live) (steps : Nat)
    (enough : ps.length ≤ steps) : search live next test steps start = .ok (ps.find? test) := by
  induction ps generalizing start steps with
  | nil =>
    cases path
    cases steps <;> rfl
  | cons p ps ih =>
    obtain ⟨steps, rfl⟩ := Nat.exists_eq_add_one_of_ne_zero
      (Nat.ne_zero_of_lt (Nat.lt_of_lt_of_le (Nat.succ_pos _) enough))
    rw [path.1, search, access_ok (used p List.mem_cons_self)]
    have goOn := ih path.2 (fun q member => used q (List.mem_cons_of_mem p member)) steps
      (by simpa using enough)
    cases passed : test p with
    | true =>
      rw [List.find?_cons_of_pos passed]
      simp only [bind, Except.bind]
      rfl
    | false =>
      rw [List.find?_cons_of_neg (by simp [passed]), ← goOn]
      simp only [bind, Except.bind]
      rfl

omit [DecidableEq H] in
theorem collect_spec {start : Option P} {ps : List P}
    (path : Path next start ps none) (used : ∀ p ∈ ps, p ∈ live) (steps : Nat)
    (enough : ps.length ≤ steps) : collect live next steps start = .ok ps := by
  induction ps generalizing start steps with
  | nil =>
    cases path
    cases steps <;> rfl
  | cons p ps ih =>
    obtain ⟨steps, rfl⟩ := Nat.exists_eq_add_one_of_ne_zero
      (Nat.ne_zero_of_lt (Nat.lt_of_lt_of_le (Nat.succ_pos _) enough))
    have goOn := ih path.2 (fun q member => used q (List.mem_cons_of_mem p member)) steps
      (by simpa using enough)
    rw [path.1, collect, access_ok (used p List.mem_cons_self)]
    simp only [bind, Except.bind, goOn]
    rfl

omit [DecidableEq P] [DecidableEq H] in
theorem Threads.next_eq {h : H} {rest : List P}
    (threads : Threads t place cells chains) (chain : chains h = front ++ p :: rest) :
    t.next p = rest.head? := by
  obtain ⟨-, -, -, after⟩ := path_append.mp (chain ▸ threads.path h)
  cases rest with
  | nil => exact after
  | cons q rest => exact after.1

omit [DecidableEq P] [DecidableEq H] in
theorem Threads.head_eq (threads : Threads t place cells chains) (h : H) :
    t.head h = (chains h).head? := by
  have path := threads.path h
  cases chain : chains h with
  | nil =>
    rw [chain] at path
    exact path
  | cons q rest =>
    rw [chain] at path
    exact path.1

omit [DecidableEq P] [DecidableEq H] in
theorem Threads.length_le (threads : Threads t place cells chains) (used : ∀ p ∈ cells, p ∈ live)
    (h : H) : (chains h).length ≤ live.length :=
  (List.subperm_of_subset (threads.nodup h)
    (fun p member => used p ((threads.mem h p).mp member).1)).length_le

omit [DecidableEq H] in
theorem Threads.find (threads : Threads t place cells chains) (used : ∀ p ∈ cells, p ∈ live)
    (h : H) (test : P → Bool) : t.find live h test = .ok ((chains h).find? test) := by
  have inside : ∀ p ∈ chains h, p ∈ live := fun p member =>
    used p ((threads.mem h p).mp member).1
  exact search_spec (threads.path h) inside _ (threads.length_le used h)

omit [DecidableEq H] in
theorem Threads.collect (threads : Threads t place cells chains) (used : ∀ p ∈ cells, p ∈ live)
    (h : H) : ChainTable.collect live t.next live.length (t.head h) = .ok (chains h) := by
  have inside : ∀ p ∈ chains h, p ∈ live := fun p member =>
    used p ((threads.mem h p).mp member).1
  exact collect_spec (threads.path h) inside _ (threads.length_le used h)

omit [DecidableEq P] in
theorem apart_cons {κ : Type} {key key' : P → κ}
    (apart : ∀ a ∈ cells, ∀ b ∈ cells, key a = key b → a = b)
    (old : ∀ q ∈ cells, key' q = key q) (new : ∀ q ∈ cells, key q ≠ key' c) :
    ∀ a ∈ c :: cells, ∀ b ∈ c :: cells, key' a = key' b → a = b := by
  intro a inA b inB same
  rcases List.mem_cons.mp inA with rfl | oldA <;> rcases List.mem_cons.mp inB with rfl | oldB
  · rfl
  · rw [old b oldB] at same
    exact absurd same.symm (new b oldB)
  · rw [old a oldA] at same
    exact absurd same (new a oldA)
  · rw [old a oldA, old b oldB] at same
    exact apart a oldA b oldB same

omit [DecidableEq H] in
theorem Threads.find_key {κ : Type} [DecidableEq κ] {key : P → κ} {hash : κ → H}
    (threads : Threads t (fun p => hash (key p)) cells chains) (used : ∀ p ∈ cells, p ∈ live)
    (unique : ∀ p ∈ cells, ∀ q ∈ cells, key p = key q → p = q) (k : κ) :
    ∃ r, t.find live (hash k) (fun p => key p = k) = .ok r ∧
      ∀ p, r = some p ↔ p ∈ cells ∧ key p = k := by
  refine ⟨_, threads.find used (hash k) _, fun p => ?_⟩
  constructor
  · intro found
    have holds := List.find?_some found
    rw [decide_eq_true_iff] at holds
    exact ⟨((threads.mem _ p).mp (List.mem_of_find?_eq_some found)).1, holds⟩
  · rintro ⟨member, rfl⟩
    cases found : (chains (hash (key p))).find? (fun q => key q = key p) with
    | none =>
      have fails := List.find?_eq_none.mp found p ((threads.mem _ p).mpr ⟨member, rfl⟩)
      simp at fails
    | some q =>
      have holds := List.find?_some found
      rw [decide_eq_true_iff] at holds
      have inside := ((threads.mem _ q).mp (List.mem_of_find?_eq_some found)).1
      rw [unique q inside p member holds]

end Specs

section Sweeps

variable {σ : Type} {read : σ → P → Except Fault (Option P)} {body : P → σ → Except Fault σ}

omit [DecidableEq P] in
/-- The rule for a walk: each round has the rest of the path before it, and keeps it. -/
theorem sweep_rule (Inv : List P → σ → Prop)
    (round : ∀ p rest s, Inv (p :: rest) s →
      read s p = .ok rest.head? ∧ ∃ s', body p s = .ok s' ∧ Inv rest s')
    (path : List P) (s : σ) (steps : Nat) (enough : path.length ≤ steps) (start : Inv path s) :
    ∃ s', sweep read body steps path.head? s = .ok s' ∧ Inv [] s' := by
  induction path generalizing s steps with
  | nil => exact ⟨s, by cases steps <;> rfl, start⟩
  | cons p rest ih =>
    obtain ⟨steps, rfl⟩ := Nat.exists_eq_add_one_of_ne_zero
      (Nat.ne_zero_of_lt (Nat.lt_of_lt_of_le (Nat.succ_pos _) enough))
    obtain ⟨link, s', worked, kept⟩ := round p rest s start
    obtain ⟨last, swept, done⟩ := ih s' steps (by simpa using enough) kept
    refine ⟨last, ?_, done⟩
    rw [List.head?_cons, sweep, link]
    simp only [bind, Except.bind, worked]
    exact swept

end Sweeps

end ChainTable
