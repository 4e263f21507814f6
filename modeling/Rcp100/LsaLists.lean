import Rcp100.PointerList
import Mathlib.Logic.Function.Basic

/-!
# The LSA lists and their hash table

Every LSA in a list is also in a chain of the hash table, which the area lists, the
external list and the retransmission lists of the neighbors share. The memory has one
function for each field, so that an assignment to a field is an update of its function. An
access to an LSA that is not allocated is a failure.
-/

namespace LsaLists

open PointerList
open Function (update update_eq_self update_of_ne update_self)

/-- The address of an LSA. -/
abbrev Ptr := Nat

/-- The address of the head of a list. -/
abbrev Head := Nat

structure Mem where
  allocated : Ptr → Bool
  type : Ptr → BitVec 8
  linkStateId : Ptr → BitVec 32
  advRouter : Ptr → BitVec 32
  next : Ptr → Option Ptr
  prev : Ptr → Option Ptr
  hashNext : Ptr → Option Ptr
  head : Ptr → Option Head
  list : Head → Option Ptr
  bucket : BitVec 12 → Option Ptr

/-- One round of the loop of `hash`. -/
def hashByte (h : BitVec 32) (b : BitVec 8) : BitVec 32 :=
  let h := h + b.setWidth 32
  let h := h + h <<< 10
  h ^^^ h >>> 6

/-- The bytes of an address are in network order. -/
def hash (ip : BitVec 32) : BitVec 12 :=
  let bytes := [ip.extractLsb' 24 8, ip.extractLsb' 16 8, ip.extractLsb' 8 8, ip.extractLsb' 0 8]
  let h := bytes.foldl hashByte 0
  let h := h + h <<< 3
  let h := h ^^^ h >>> 11
  let h := h + h <<< 15
  h.setWidth 12

section Access

variable {α : Type} (m : Mem) (p : Ptr)

def access (r : α) : Option α := if m.allocated p then some r else none

def setNext (q : Option Ptr) : Option Mem :=
  access m p { m with next := update m.next p q }

def setPrev (q : Option Ptr) : Option Mem :=
  access m p { m with prev := update m.prev p q }

def setHashNext (q : Option Ptr) : Option Mem :=
  access m p { m with hashNext := update m.hashNext p q }

def setHead (h : Head) : Option Mem :=
  access m p { m with head := update m.head p (some h) }

end Access

def setList (m : Mem) (h : Head) (q : Option Ptr) : Mem :=
  { m with list := update m.list h q }

def setBucket (m : Mem) (index : BitVec 12) (q : Option Ptr) : Mem :=
  { m with bucket := update m.bucket index q }

def lsaHashAdd (m : Mem) (head : Head) (lsa : Ptr) : Option Mem := do
  let index := hash (← access m lsa (m.linkStateId lsa))
  let m ← setHead m lsa head
  let m ← setHashNext m lsa (m.bucket index)
  return setBucket m index (some lsa)

/-- The loop of `lsaHashRemove`, of at most `steps` rounds. -/
def unchain (m : Mem) (lsa : Ptr) : Nat → Ptr → Option Mem
  | 0, _ => none
  | steps+1, ptr => do
    match ← access m ptr (m.hashNext ptr) with
    | none => return m
    | some following =>
      if following = lsa then
        let m ← setHashNext m ptr (← access m lsa (m.hashNext lsa))
        setHashNext m lsa none
      else unchain m lsa steps following

def lsaHashRemove (steps : Nat) (m : Mem) (lsa : Ptr) : Option Mem := do
  let index := hash (← access m lsa (m.linkStateId lsa))
  match m.bucket index with
  | none => return m
  | some first =>
    if first = lsa then
      let m := setBucket m index (← access m lsa (m.hashNext lsa))
      setHashNext m lsa none
    else unchain m lsa steps first

def lsaFree (steps : Nat) (m : Mem) (lsa : Ptr) : Option Mem := do
  let m ← lsaHashRemove steps m lsa
  access m lsa { m with allocated := update m.allocated lsa false }

def lsaListAddHash (m : Mem) (head : Head) (lsa : Ptr) : Option Mem := do
  let m ← lsaHashAdd m head lsa
  let m ← setNext m lsa none
  let m ← setPrev m lsa none
  match m.list head with
  | none => return setList m head (some lsa)
  | some first =>
    let m ← setNext m lsa (some first)
    let m ← setPrev m first (some lsa)
    return setList m head (some lsa)

def lsaListRemove (steps : Nat) (m : Mem) (head : Head) (lsa : Ptr) : Option Mem := do
  let m ← lsaHashRemove steps m lsa
  match m.list head with
  | none => return m
  | some first =>
    if first = lsa then
      let following ← access m lsa (m.next lsa)
      let m := setList m head following
      match following with
      | none => return m
      | some n => setPrev m n none
    else
      match ← access m lsa (m.prev lsa) with
      -- the assertion fails
      | none => none
      | some before =>
        let m ← setNext m before (← access m lsa (m.next lsa))
        match ← access m lsa (m.next lsa) with
        | none => return m
        | some n => setPrev m n (← access m lsa (m.prev lsa))

def lsaListReplace (steps : Nat) (m : Mem) (head : Head) (oldlsa lsa : Ptr) : Option Mem := do
  match m.list head with
  | none => return m
  | some _ =>
    let m ← lsaHashRemove steps m oldlsa
    let m ← lsaHashAdd m head lsa
    let m ← setNext m lsa (← access m oldlsa (m.next oldlsa))
    let m ← setPrev m lsa (← access m oldlsa (m.prev oldlsa))
    let m ← match ← access m oldlsa (m.next oldlsa) with
      | none => some m
      | some n => setPrev m n (some lsa)
    let m ← match ← access m oldlsa (m.prev oldlsa) with
      | none => some m
      | some b => setNext m b (some lsa)
    return if m.list head = some oldlsa then setList m head (some lsa) else m

/-- The loop of `lsaListFind`. -/
def findFrom (m : Mem) (head : Head) (type : BitVec 8) (linkStateId advRouter : BitVec 32) :
    Nat → Option Ptr → Option (Option Ptr)
  | _, none => some none
  | 0, some _ => none
  | steps+1, some lsa => do
    let here ← access m lsa (decide (m.head lsa = some head ∧ m.type lsa = type ∧
      m.linkStateId lsa = linkStateId ∧ m.advRouter lsa = advRouter))
    if here then return some lsa
    else findFrom m head type linkStateId advRouter steps (m.hashNext lsa)

def lsaListFind (steps : Nat) (m : Mem) (head : Head) (type : BitVec 8)
    (linkStateId advRouter : BitVec 32) : Option (Option Ptr) :=
  if m.list head = none then some none
  else findFrom m head type linkStateId advRouter steps (m.bucket (hash linkStateId))

/-- The loop of `clear_lsa`, which frees the LSAs of a list without taking them out. -/
def freeFrom (steps : Nat) : Nat → Mem → Option Ptr → Option Mem
  | _, m, none => some m
  | 0, _, some _ => none
  | left+1, m, some lsa => do
    let following ← access m lsa (m.next lsa)
    let m ← lsaFree steps m lsa
    freeFrom steps left m following

/-- The list is freed as a whole, and its head set to `NULL`. -/
def freeList (steps : Nat) (m : Mem) (head : Head) : Option Mem := do
  let m ← freeFrom steps steps m (m.list head)
  return setList m head none

/-- `malloc`, with the header filled in. Nothing is known about the links. -/
def allocate (m : Mem) (lsa : Ptr) (type : BitVec 8) (linkStateId advRouter : BitVec 32)
    (next prev hashNext : Option Ptr) (head : Option Head) : Mem :=
  { m with
    allocated := update m.allocated lsa true
    type := update m.type lsa type
    linkStateId := update m.linkStateId lsa linkStateId
    advRouter := update m.advRouter lsa advRouter
    next := update m.next lsa next
    prev := update m.prev lsa prev
    hashNext := update m.hashNext lsa hashNext
    head := update m.head lsa head }

theorem access_eq {α : Type} {m : Mem} {p : Ptr} (allocated : m.allocated p = true) (r : α) :
    access m p r = some r := if_pos allocated

variable {hashNext : Ptr → Option Ptr} {bucket : BitVec 12 → Option Ptr}
   {linkStateId : Ptr → BitVec 32} {front back : List Ptr}

section HashTable

/-- The chains of the hash table hold the LSAs of a set, each in the chain of its hash. -/
def Hashed (linkStateId : Ptr → BitVec 32) (hashNext : Ptr → Option Ptr)
    (bucket : BitVec 12 → Option Ptr) (S : Ptr → Prop) : Prop :=
  ∃ chains : BitVec 12 → List Ptr, ∀ i, Path hashNext (bucket i) (chains i) none ∧
    (chains i).Nodup ∧ ∀ p, p ∈ chains i ↔ S p ∧ hash (linkStateId p) = i

variable {m : Mem} {S : Ptr → Prop} {lsa : Ptr}

theorem Hashed.congr {S' : Ptr → Prop} (hashed : Hashed m.linkStateId hashNext bucket S)
    (same : ∀ p, S' p ↔ S p) : Hashed m.linkStateId hashNext bucket S' := by
  obtain ⟨chains, ok⟩ := hashed
  refine ⟨chains, fun i => ⟨(ok i).1, (ok i).2.1, fun p => ?_⟩⟩
  rw [same p]
  exact (ok i).2.2 p

theorem lsaHashAdd_spec (hashed : Hashed m.linkStateId m.hashNext m.bucket S)
    (allocated : m.allocated lsa = true) (fresh : ¬ S lsa) (head : Head) :
    ∃ hashNext bucket,
      lsaHashAdd m head lsa = some { m with
        head := update m.head lsa (some head)
        hashNext := hashNext
        bucket := bucket } ∧
      Hashed m.linkStateId hashNext bucket (fun p => S p ∨ p = lsa) := by
  obtain ⟨chains, ok⟩ := hashed
  let index := hash (m.linkStateId lsa)
  refine ⟨update m.hashNext lsa (m.bucket index),
    update m.bucket index (some lsa), ?_, ?_⟩
  · simp [lsaHashAdd, access, allocated, setHead, setHashNext, setBucket, index]
  · refine ⟨update chains index (lsa :: chains index), fun i => ?_⟩
    obtain ⟨path, nodup, members⟩ := ok i
    have notIn : lsa ∉ chains i := fun member => fresh ((members lsa).mp member).1
    have kept : ∀ p ∈ chains i, update m.hashNext lsa (m.bucket index) p =
        m.hashNext p := by
      intro p member
      refine update_of_ne ?_ _ _
      rintro rfl
      exact notIn member
    by_cases here : i = index
    · subst here
      simp only [update_self]
      refine ⟨⟨rfl, ?_⟩, List.nodup_cons.mpr ⟨notIn, nodup⟩, ?_⟩
      · rw [update_self]
        exact path.congr kept
      · intro p
        rw [List.mem_cons, members p]
        constructor
        · rintro (rfl | ⟨old, same⟩)
          · exact ⟨.inr rfl, rfl⟩
          · exact ⟨.inl old, same⟩
        · rintro ⟨old | rfl, same⟩
          · exact .inr ⟨old, same⟩
          · exact .inl rfl
    · simp only [update_of_ne here]
      refine ⟨path.congr kept, nodup, fun p => ?_⟩
      rw [members p]
      constructor
      · rintro ⟨old, same⟩
        exact ⟨.inl old, same⟩
      · rintro ⟨old | rfl, same⟩
        · exact ⟨old, same⟩
        · exact absurd same.symm here

theorem unchain_step {ptr q : Ptr} (here : m.allocated ptr = true)
    (following : m.hashNext ptr = some q) (other : q ≠ lsa) (steps : Nat) :
    unchain m lsa (steps+1) ptr = unchain m lsa steps q := by
  simp [unchain, access, here, following, other]

theorem unchain_spec {ptr : Ptr} {rest : List Ptr}
    (path : Path m.hashNext (some ptr) (ptr :: rest) none)
    (allocated : ∀ p ∈ lsa :: ptr :: rest, m.allocated p = true) :
    (lsa ∉ rest ∧ ∀ steps, rest.length < steps → unchain m lsa steps ptr = some m) ∨
    ∃ front c back, ptr :: rest = front ++ c :: lsa :: back ∧
      ∀ steps, rest.length < steps → unchain m lsa steps ptr = some { m with
        hashNext := update (update m.hashNext c (m.hashNext lsa)) lsa none } := by
  induction rest generalizing ptr with
  | nil =>
    have last : m.hashNext ptr = none := path.2
    left
    refine ⟨by simp, fun steps enough => ?_⟩
    obtain ⟨steps, rfl⟩ := Nat.exists_eq_add_one_of_ne_zero (Nat.ne_zero_of_lt enough)
    simp [unchain, access, allocated, last]
  | cons q rest ih =>
    have following : m.hashNext ptr = some q := path.2.1
    have here : m.allocated ptr = true := allocated ptr (by simp)
    by_cases found : q = lsa
    · subst found
      right
      refine ⟨[], ptr, rest, rfl, fun steps enough => ?_⟩
      obtain ⟨steps, rfl⟩ := Nat.exists_eq_add_one_of_ne_zero (Nat.ne_zero_of_lt enough)
      simp [unchain, access, here, following, setHashNext, allocated]
    · have liveRest : ∀ p ∈ lsa :: q :: rest, m.allocated p = true := by
        intro p member
        refine allocated p ?_
        rcases List.mem_cons.mp member with rfl | later
        · exact List.mem_cons_self
        · exact List.mem_cons_of_mem _ (List.mem_cons_of_mem _ later)
      rcases ih ⟨rfl, path.2.2⟩ liveRest with ⟨absent, same⟩ | ⟨front, c, back, chain, result⟩
      · left
        refine ⟨?_, fun steps enough => ?_⟩
        · rw [List.mem_cons, not_or]
          exact ⟨fun h => found h.symm, absent⟩
        · obtain ⟨steps, rfl⟩ := Nat.exists_eq_add_one_of_ne_zero (Nat.ne_zero_of_lt enough)
          rw [unchain_step here following found]
          exact same steps (by simpa using enough)
      · right
        refine ⟨ptr :: front, c, back, by rw [chain]; rfl, fun steps enough => ?_⟩
        obtain ⟨steps, rfl⟩ := Nat.exists_eq_add_one_of_ne_zero (Nat.ne_zero_of_lt enough)
        rw [unchain_step here following found]
        exact result steps (by simpa using enough)

theorem hashed_without {hashNext' : Ptr → Option Ptr}
    {bucket' : BitVec 12 → Option Ptr} {chains : BitVec 12 → List Ptr}
    (ok : ∀ i, Path hashNext (bucket i) (chains i) none ∧
      (chains i).Nodup ∧ ∀ p, p ∈ chains i ↔ S p ∧ hash (linkStateId p) = i)
    (chain : List Ptr) (path : Path hashNext' (bucket' (hash (linkStateId lsa))) chain none)
    (nodup : chain.Nodup)
    (members : ∀ p, p ∈ chain ↔ p ∈ chains (hash (linkStateId lsa)) ∧ p ≠ lsa)
    (buckets : ∀ i, i ≠ hash (linkStateId lsa) → bucket' i = bucket i)
    (links : ∀ p, p ∉ chains (hash (linkStateId lsa)) → p ≠ lsa → hashNext' p = hashNext p) :
    Hashed linkStateId hashNext' bucket' (fun p => S p ∧ p ≠ lsa) := by
  refine ⟨update chains (hash (linkStateId lsa)) chain, fun i => ?_⟩
  by_cases here : i = hash (linkStateId lsa)
  · subst here
    simp only [update_self]
    refine ⟨path, nodup, fun p => ?_⟩
    rw [members p, (ok _).2.2 p]
    constructor
    · exact fun ⟨⟨old, same⟩, other⟩ => ⟨⟨old, other⟩, same⟩
    · exact fun ⟨⟨old, other⟩, same⟩ => ⟨⟨old, same⟩, other⟩
  · obtain ⟨pathI, nodupI, membersI⟩ := ok i
    rw [update_of_ne here, buckets i here]
    have elsewhere : ∀ p ∈ chains i, p ≠ lsa := by
      rintro p member rfl
      exact here ((membersI p).mp member).2.symm
    refine ⟨pathI.congr ?_, nodupI, fun p => ?_⟩
    · intro p member
      refine links p ?_ (elsewhere p member)
      intro also
      exact here (((membersI p).mp member).2.symm.trans (((ok _).2.2 p).mp also).2)
    · rw [membersI p]
      constructor
      · exact fun ⟨old, same⟩ => ⟨⟨old, elsewhere p ((membersI p).mpr ⟨old, same⟩)⟩, same⟩
      · exact fun ⟨⟨old, _⟩, same⟩ => ⟨old, same⟩

theorem hashed_unlinked {chains : BitVec 12 → List Ptr}
    (ok : ∀ i, Path hashNext (bucket i) (chains i) none ∧
      (chains i).Nodup ∧ ∀ p, p ∈ chains i ↔ S p ∧ hash (linkStateId p) = i)
    {c : Ptr}
    (chain : chains (hash (linkStateId lsa)) = front ++ c :: lsa :: back) :
    Hashed linkStateId (update (update hashNext c (hashNext lsa)) lsa none)
      bucket (fun p => S p ∧ p ≠ lsa) := by
  obtain ⟨path, nodup, -⟩ := ok (hash (linkStateId lsa))
  rw [chain] at path nodup
  have apart := nodup
  rw [List.nodup_append, List.nodup_cons, List.nodup_cons] at apart
  obtain ⟨-, ⟨freshC, freshLsa, -⟩, disjoint⟩ := apart
  have otherC : c ≠ lsa := by
    rintro rfl
    exact freshC List.mem_cons_self
  have unchanged : ∀ p, p ≠ c → p ≠ lsa →
      update (update hashNext c (hashNext lsa)) lsa none p = hashNext p := by
    intro p ofC ofLsa
    rw [update_of_ne ofLsa, update_of_ne ofC]
  refine hashed_without ok (front ++ c :: back) ?_ ?_ ?_ (fun _ _ => rfl) ?_
  · refine path.remove ?_ ?_ ?_
    · rw [update_of_ne otherC, update_self]
    · intro p member
      exact unchanged p (disjoint p member c (by simp)) (disjoint p member lsa (by simp))
    · intro p member
      refine unchanged p ?_ ?_
      · rintro rfl
        exact freshC (List.mem_cons_of_mem _ member)
      · rintro rfl
        exact freshLsa member
  · exact nodup.sublist (List.Sublist.append_left
      (List.Sublist.cons_cons c (List.sublist_cons_self lsa back)) front)
  · intro p
    rw [chain]
    simp only [List.mem_append, List.mem_cons]
    constructor
    · intro member
      refine ⟨by tauto, ?_⟩
      rintro rfl
      rcases member with inFront | here | inBack
      · exact disjoint p inFront p (by simp) rfl
      · exact otherC here.symm
      · exact freshLsa inBack
    · tauto
  · intro p outside other
    refine unchanged p ?_ other
    rintro rfl
    rw [chain] at outside
    exact outside (by simp)

theorem hashed_absent (hashed : Hashed linkStateId hashNext bucket S)
    (absent : ¬ S lsa) : Hashed linkStateId hashNext bucket (fun p => S p ∧ p ≠ lsa) := by
  have same : (fun p => S p ∧ p ≠ lsa) = S := by
    funext p
    refine propext ⟨And.left, fun member => ⟨member, ?_⟩⟩
    rintro rfl
    exact absent member
  rw [same]
  exact hashed

theorem lsaHashRemove_spec (hashed : Hashed m.linkStateId m.hashNext m.bucket S)
    (live : ∀ p, S p → m.allocated p = true) (allocated : m.allocated lsa = true) :
    ∃ n hashNext bucket, (∀ steps, n ≤ steps → lsaHashRemove steps m lsa =
        some { m with hashNext := hashNext, bucket := bucket }) ∧
      Hashed m.linkStateId hashNext bucket (fun p => S p ∧ p ≠ lsa) := by
  obtain ⟨chains, ok⟩ := hashed
  obtain ⟨path, nodup, members⟩ := ok (hash (m.linkStateId lsa))
  cases chain : chains (hash (m.linkStateId lsa)) with
  | nil =>
    rw [chain] at path members
    have absent : ¬ S lsa := fun member => by simpa using (members lsa).mpr ⟨member, rfl⟩
    refine ⟨0, m.hashNext, m.bucket, ?_, hashed_absent ⟨chains, ok⟩ absent⟩
    intro steps _
    have empty : m.bucket (hash (m.linkStateId lsa)) = none := path
    simp [lsaHashRemove, access, allocated, empty]
  | cons first rest =>
    rw [chain] at path members nodup
    have start : m.bucket (hash (m.linkStateId lsa)) = some first := path.1
    obtain ⟨fresh, nodupRest⟩ := List.nodup_cons.mp nodup
    by_cases isFirst : first = lsa
    · subst isFirst
      refine ⟨0, update m.hashNext first none,
        update m.bucket (hash (m.linkStateId first)) (m.hashNext first), ?_, ?_⟩
      · intro steps _
        simp [lsaHashRemove, access, allocated, start, setBucket, setHashNext]
      · refine hashed_without ok rest ?_ nodupRest ?_ ?_ ?_
        · rw [update_self]
          refine path.2.congr fun p member => update_of_ne ?_ _ _
          rintro rfl
          exact fresh member
        · intro p
          rw [chain, List.mem_cons]
          constructor
          · intro member
            refine ⟨.inr member, ?_⟩
            rintro rfl
            exact fresh member
          · rintro ⟨rfl | member, other⟩
            · exact absurd rfl other
            · exact member
        · exact fun i other => update_of_ne other _ _
        · exact fun p _ other => update_of_ne other _ _
    · have liveChain : ∀ p ∈ lsa :: first :: rest, m.allocated p = true := by
        intro p member
        rcases List.mem_cons.mp member with rfl | inside
        · exact allocated
        · exact live p ((members p).mp inside).1
      have step (steps : Nat) : lsaHashRemove steps m lsa = unchain m lsa steps first := by
        simp [lsaHashRemove, access, allocated, start, isFirst]
      rcases unchain_spec ⟨rfl, path.2⟩ liveChain with
        ⟨absent, same⟩ | ⟨front, c, back, split, result⟩
      · have notIn : ¬ S lsa := by
          intro member
          rcases List.mem_cons.mp ((members lsa).mpr ⟨member, rfl⟩) with here | later
          · exact isFirst here.symm
          · exact absent later
        refine ⟨rest.length + 1, m.hashNext, m.bucket, ?_, hashed_absent ⟨chains, ok⟩ notIn⟩
        intro steps enough
        rw [step, same steps enough]
      · rw [split] at chain
        refine ⟨rest.length + 1, _, m.bucket, fun steps enough => ?_, hashed_unlinked ok chain⟩
        rw [step, result steps enough]

end HashTable

variable {h : Head} {start : Option Ptr} {ps : List Ptr}

section Lists

/-- The lists are doubly linked, and each LSA of a list has its head. -/
structure Listed (next prev : Ptr → Option Ptr) (head : Ptr → Option Head)
    (list : Head → Option Ptr) (L : Head → List Ptr) : Prop where
  path : ∀ h, DPath next prev none (list h) (L h) none
  nodup : ∀ h, (L h).Nodup
  owner : ∀ h, ∀ p ∈ L h, head p = some h

def Member (L : Head → List Ptr) (p : Ptr) : Prop := ∃ h, p ∈ L h

/-- The invariant: the lists, with exactly their LSAs in the hash table. -/
structure Coherent (m : Mem) (L : Head → List Ptr) : Prop where
  listed : Listed m.next m.prev m.head m.list L
  hashed : Hashed m.linkStateId m.hashNext m.bucket (Member L)
  live : ∀ p, Member L p → m.allocated p = true

variable {next next' prev prev' : Ptr → Option Ptr} {head head' : Ptr → Option Head}
  {list : Head → Option Ptr} {L : Head → List Ptr}

theorem Listed.change (listed : Listed next prev head list L)
    (path : DPath next' prev' none start ps none) (nodup : ps.Nodup)
    (owner : ∀ p ∈ ps, head' p = some h)
    (others : ∀ k p, k ≠ h → p ∈ L k → next' p = next p ∧ prev' p = prev p ∧ head' p = head p) :
    Listed next' prev' head' (update list h start) (update L h ps) := by
  refine ⟨?_, ?_, ?_⟩
  · intro k
    by_cases here : k = h
    · subst here
      rw [update_self, update_self]
      exact path
    · rw [update_of_ne here, update_of_ne here]
      exact (listed.path k).congr (fun p member => (others k p here member).1)
        (fun p member => (others k p here member).2.1)
  · intro k
    by_cases here : k = h
    · subst here
      rw [update_self]
      exact nodup
    · rw [update_of_ne here]
      exact listed.nodup k
  · intro k p member
    by_cases here : k = h
    · subst here
      rw [update_self] at member
      exact owner p member
    · rw [update_of_ne here] at member
      rw [(others k p here member).2.2]
      exact listed.owner k p member

variable {p : Ptr}

theorem Listed.elsewhere (listed : Listed next prev head list L) {k : Head} {q : Ptr}
    (inH : p ∈ L h) (inK : q ∈ L k) (other : k ≠ h) : q ≠ p := by
  rintro rfl
  exact other (Option.some.inj ((listed.owner k q inK).symm.trans (listed.owner h q inH)))

theorem member_update (others : ∀ k, p ∈ L k → p ∈ L h → k = h) :
    Member (update L h ps) p ↔ p ∈ ps ∨ Member L p ∧ p ∉ L h := by
  constructor
  · rintro ⟨k, member⟩
    by_cases here : k = h
    · subst here
      rw [update_self] at member
      exact .inl member
    · rw [update_of_ne here] at member
      exact .inr ⟨⟨k, member⟩, fun also => here (others k member also)⟩
  · rintro (inside | ⟨⟨k, member⟩, outside⟩)
    · exact ⟨h, by rw [update_self]; exact inside⟩
    · refine ⟨k, ?_⟩
      rw [update_of_ne]
      · exact member
      · rintro rfl
        exact outside member

section

variable (listed : Listed next prev head list L)

include listed

theorem Listed.unique {k : Head}
    (inK : p ∈ L k) (inH : p ∈ L h) : k = h :=
  Option.some.inj ((listed.owner k p inK).symm.trans (listed.owner h p inH))

theorem Listed.member_push (h : Head) (lsa p : Ptr) :
    Member (update L h (lsa :: L h)) p ↔ Member L p ∨ p = lsa := by
  rw [member_update (fun k inK inH => listed.unique inK inH), List.mem_cons]
  constructor
  · rintro ((rfl | member) | ⟨member, -⟩)
    · exact .inr rfl
    · exact .inl ⟨h, member⟩
    · exact .inl member
  · intro member
    by_cases here : p ∈ L h
    · exact .inl (.inr here)
    · rcases member with old | rfl
      · exact .inr ⟨old, here⟩
      · exact .inl (.inl rfl)

theorem Listed.next_mem {q : Ptr}
    (inside : p ∈ L h) (link : next p = some q) : q ∈ L h := by
  obtain ⟨front, back, split⟩ := List.append_of_mem inside
  have path := listed.path h
  rw [split] at path ⊢
  obtain ⟨-, -, -, -, rest⟩ := dPath_append.mp path
  exact List.mem_append_right _ (List.mem_cons_of_mem p (rest.mem_of_start link))

theorem Listed.prev_mem {q : Ptr}
    (inside : p ∈ L h) (link : prev p = some q) : q ∈ L h := by
  obtain ⟨front, back, split⟩ := List.append_of_mem inside
  have path := listed.path h
  rw [split] at path ⊢
  obtain ⟨-, -, -, last, -⟩ := dPath_append.mp path
  rcases List.eq_nil_or_concat front with rfl | ⟨l, c, rfl⟩
  · cases link.symm.trans last
  · rw [List.concat_eq_append, lastOr_snoc, link, Option.some.injEq] at last
    subst last
    simp

end

variable {m : Mem} {lsa : Ptr}

theorem Coherent.live_next (coherent : Coherent m L) (inside : lsa ∈ L h) :
    ∀ x, m.next lsa = some x → m.allocated x = true :=
  fun x link => coherent.live x ⟨h, coherent.listed.next_mem inside link⟩

theorem Coherent.live_prev (coherent : Coherent m L) (inside : lsa ∈ L h) :
    ∀ x, m.prev lsa = some x → m.allocated x = true :=
  fun x link => coherent.live x ⟨h, coherent.listed.prev_mem inside link⟩

theorem Listed.push (listed : Listed next prev head list L) (h : Head) (fresh : ¬ Member L lsa) :
    Listed (update next lsa (list h)) (linkTo (update prev lsa none) (list h)
      (some lsa)) (update head lsa (some h)) (update list h (some lsa))
      (update L h (lsa :: L h)) := by
  have notIn : ∀ k, ∀ p ∈ L k, p ≠ lsa := by
    rintro k p member rfl
    exact fresh ⟨k, member⟩
  have path := listed.path h
  have notFirst : list h ≠ some lsa := fun first => notIn h lsa (path.mem_of_start first) rfl
  refine listed.change ⟨rfl, ?_, ?_⟩ ?_ ?_ ?_
  · rw [linkTo_other notFirst, update_self]
  · rw [update_self]
    refine path.rebase (listed.nodup h) ?_ ?_ ?_
    · exact fun p member => update_of_ne (notIn h p member) _ _
    · intro p member later
      rw [linkTo_other later, update_of_ne (notIn h p member)]
    · exact fun p start _ => linkTo_self start
  · exact List.nodup_cons.mpr ⟨fun member => notIn h lsa member rfl, listed.nodup h⟩
  · intro p member
    rcases List.mem_cons.mp member with rfl | old
    · rw [update_self]
    · rw [update_of_ne (notIn h p old)]
      exact listed.owner h p old
  · intro k p different member
    have elsewhere : list h ≠ some p := fun first =>
      listed.elsewhere (path.mem_of_start first) member different rfl
    simp only [update_of_ne (notIn k p member), linkTo_other elsewhere, and_self]

theorem lsaListAddHash_spec (coherent : Coherent m L) (h : Head)
    (allocated : m.allocated lsa = true) (fresh : ¬ Member L lsa) :
    ∃ m', lsaListAddHash m h lsa = some m' ∧
      Coherent m' (update L h (lsa :: L h)) := by
  obtain ⟨hashNext, bucket, added, hashed⟩ :=
    lsaHashAdd_spec coherent.hashed allocated fresh h
  have members := coherent.listed.member_push h lsa
  refine ⟨{ m with
    head := update m.head lsa (some h), hashNext := hashNext, bucket := bucket
    next := update m.next lsa (m.list h)
    prev := linkTo (update m.prev lsa none) (m.list h) (some lsa)
    list := update m.list h (some lsa) }, ?_, coherent.listed.push h fresh,
    hashed.congr members, ?_⟩
  · cases first : m.list h with
    | none =>
      simp [lsaListAddHash, added, setNext, setPrev, access, allocated, first, setList, linkTo]
    | some f =>
      have liveF : m.allocated f = true :=
        coherent.live f ⟨h, (coherent.listed.path h).mem_of_start first⟩
      simp [lsaListAddHash, added, setNext, setPrev, access, allocated, first, setList, liveF,
        linkTo]
  · intro p member
    rcases (members p).mp member with old | rfl
    · exact coherent.live p old
    · exact allocated

theorem Listed.member_drop (listed : Listed next prev head list L)
    (split : L h = front ++ lsa :: back) (p : Ptr) :
    Member (update L h (front ++ back)) p ↔ Member L p ∧ p ≠ lsa := by
  have apart := listed.nodup h
  rw [split, List.nodup_append, List.nodup_cons] at apart
  obtain ⟨-, ⟨fresh, -⟩, disjoint⟩ := apart
  have kept : p ∈ L h ↔ p ∈ front ++ back ∨ p = lsa := by
    rw [split]
    simp only [List.mem_append, List.mem_cons]
    tauto
  have gone : lsa ∉ front ++ back := by
    rw [List.mem_append, not_or]
    exact ⟨fun inFront => disjoint lsa inFront lsa (by simp) rfl, fresh⟩
  rw [member_update (fun k inK inH => listed.unique inK inH)]
  constructor
  · rintro (inside | ⟨member, outside⟩)
    · refine ⟨⟨h, kept.mpr (.inl inside)⟩, ?_⟩
      rintro rfl
      exact gone inside
    · refine ⟨member, ?_⟩
      rintro rfl
      exact outside (kept.mpr (.inr rfl))
  · rintro ⟨member, other⟩
    by_cases inside : p ∈ L h
    · rcases kept.mp inside with here | same
      · exact .inl here
      · exact absurd same other
    · exact .inr ⟨member, inside⟩

theorem Listed.remove_first (listed : Listed next prev head list L)
    (split : L h = lsa :: back) (back' : ∀ p, next lsa = some p → prev' p = none)
    (prevs : ∀ p, next lsa ≠ some p → prev' p = prev p) :
    Listed next prev' head (update list h (next lsa)) (update L h back) := by
  have path := listed.path h
  have nodup := listed.nodup h
  rw [split] at path nodup
  refine listed.change ?_ (List.nodup_cons.mp nodup).2 ?_ ?_
  · exact path.2.2.rebase (List.nodup_cons.mp nodup).2 (fun _ _ => rfl)
      (fun p _ other => prevs p other) (fun p start _ => back' p start)
  · intro p member
    exact listed.owner h p (by rw [split]; exact List.mem_cons_of_mem lsa member)
  · intro k p other member
    refine ⟨rfl, prevs p ?_, rfl⟩
    intro start
    have inside : p ∈ L h := by
      rw [split]
      exact List.mem_cons_of_mem lsa (path.2.2.mem_of_start start)
    exact other (listed.unique member inside)

theorem Listed.remove_later (listed : Listed next prev head list L) {c : Ptr}
    (split : L h = front ++ c :: lsa :: back)
    (link : next' c = next lsa) (nexts : ∀ p, p ≠ c → next' p = next p)
    (back' : ∀ p, next lsa = some p → prev' p = some c)
    (prevs : ∀ p, next lsa ≠ some p → prev' p = prev p) :
    Listed next' prev' head list (update L h (front ++ c :: back)) := by
  have path := listed.path h
  have nodup := listed.nodup h
  rw [split] at path nodup
  obtain ⟨-, -, -, -, -, -, rest⟩ := dPath_append.mp path
  have apart := nodup
  rw [List.nodup_append, List.nodup_cons] at apart
  obtain ⟨-, ⟨freshC, -⟩, disjoint⟩ := apart
  have sub : (front ++ c :: back).Sublist (front ++ c :: lsa :: back) :=
    List.Sublist.append_left (List.Sublist.cons_cons c (List.sublist_cons_self lsa back)) front
  have changed := @Listed.change h (list h) (front ++ c :: back) next next' prev prev' head head
    list L listed
  rw [update_eq_self] at changed
  refine changed ?_ (nodup.sublist sub) ?_ ?_
  · refine path.remove nodup link back' ?_ (fun p _ other => prevs p other)
    intro p member
    refine nexts p ?_
    rintro rfl
    rcases List.mem_append.mp member with inFront | inBack
    · exact disjoint p inFront p (by simp) rfl
    · exact freshC (List.mem_cons_of_mem lsa inBack)
  · intro p member
    exact listed.owner h p (by rw [split]; exact sub.subset member)
  · intro k p other member
    have outside : p ∉ L h := fun inside => other (listed.unique member inside)
    rw [split] at outside
    refine ⟨nexts p ?_, prevs p ?_, rfl⟩
    · rintro rfl
      exact outside (by simp)
    · intro start
      exact outside (by simp [rest.mem_of_start start])

theorem lsaListRemove_spec (coherent : Coherent m L) (inside : lsa ∈ L h) :
    ∃ n m' front back, L h = front ++ lsa :: back ∧
      (∀ steps, n ≤ steps → lsaListRemove steps m h lsa = some m') ∧
      Coherent m' (update L h (front ++ back)) := by
  have allocated := coherent.live lsa ⟨h, inside⟩
  obtain ⟨n, hashNext, bucket, removed, hashed⟩ :=
    lsaHashRemove_spec coherent.hashed coherent.live allocated
  obtain ⟨front, back, split⟩ := List.append_of_mem inside
  have members := coherent.listed.member_drop split
  have hashed' : Hashed m.linkStateId hashNext bucket
      (Member (update L h (front ++ back))) := hashed.congr members
  have liveNext := coherent.live_next inside
  have live : ∀ p, Member (update L h (front ++ back)) p → m.allocated p = true :=
    fun p member => coherent.live p ((members p).mp member).1
  have path := coherent.listed.path h
  have nodup := coherent.listed.nodup h
  rcases List.eq_nil_or_concat front with rfl | ⟨front, c, rfl⟩
  · rw [List.nil_append] at split
    rw [split] at path
    have start : m.list h = some lsa := path.1
    refine ⟨n, { m with
      hashNext := hashNext, bucket := bucket, list := update m.list h (m.next lsa)
      prev := linkTo m.prev (m.next lsa) none }, [], back, split, ?_, ?_, hashed', live⟩
    · intro steps enough
      cases following : m.next lsa with
      | none =>
        simp [lsaListRemove, removed steps enough, start, access, allocated, setList, following,
          linkTo]
      | some x =>
        simp [lsaListRemove, removed steps enough, start, access, allocated, setList, following,
          linkTo, setPrev, liveNext]
    · exact coherent.listed.remove_first split (fun p here => linkTo_self here)
        (fun p other => linkTo_other other)
  · rw [List.concat_eq_append, List.append_assoc, List.singleton_append] at split
    rw [split] at path nodup
    obtain ⟨middle, before, -, -, -, backLsa, -⟩ := dPath_append.mp path
    obtain ⟨f, inFront, start⟩ := path.start_of_append
    have apart : ∀ p ∈ front ++ [c], p ≠ lsa := by
      rintro p member rfl
      rw [List.append_cons] at nodup
      exact (List.nodup_append.mp nodup).2.2 p member p (by simp) rfl
    have liveC : m.allocated c = true := coherent.live c ⟨h, by rw [split]; simp⟩
    have otherC : c ≠ lsa := apart c (by simp)
    refine ⟨n, { m with
      hashNext := hashNext, bucket := bucket, next := update m.next c (m.next lsa)
      prev := linkTo m.prev (m.next lsa) (some c) }, front.concat c, back, ?_, ?_, ?_, hashed',
      live⟩
    · rw [split]
      simp
    · intro steps enough
      cases following : m.next lsa with
      | none =>
        simp [lsaListRemove, removed steps enough, start, apart f inFront, access, allocated,
          backLsa, setNext, liveC, following, linkTo, otherC.symm]
      | some x =>
        simp [lsaListRemove, removed steps enough, start, apart f inFront, access, allocated,
          backLsa, setNext, liveC, following, linkTo, otherC.symm, setPrev, liveNext]
    · rw [List.concat_eq_append, List.append_assoc, List.singleton_append]
      exact coherent.listed.remove_later split (update_self ..)
        (fun p other => update_of_ne other _ _) (fun p here => linkTo_self here)
        (fun p other => linkTo_other other)

theorem Listed.member_replace (listed : Listed next prev head list L) {oldlsa : Ptr}
    (split : L h = front ++ oldlsa :: back) (p : Ptr) :
    Member (update L h (front ++ lsa :: back)) p ↔
      (Member L p ∧ p ≠ oldlsa) ∨ p = lsa := by
  have others : ∀ k, p ∈ L k → p ∈ L h → k = h := fun k inK inH => listed.unique inK inH
  rw [← listed.member_drop split, member_update others, member_update others]
  simp only [List.mem_append, List.mem_cons]
  tauto

theorem Listed.replace (listed : Listed next prev head list L) {oldlsa : Ptr}
    (split : L h = front ++ oldlsa :: back) (fresh : ¬ Member L lsa) :
    Listed (linkTo (update next lsa (next oldlsa)) (prev oldlsa) (some lsa))
      (linkTo (update prev lsa (prev oldlsa)) (next oldlsa) (some lsa))
      (update head lsa (some h))
      (update list h (if front = [] then some lsa else list h))
      (update L h (front ++ lsa :: back)) := by
  have path := listed.path h
  have nodup := listed.nodup h
  rw [split] at path nodup
  have notIn : ∀ k, ∀ p ∈ L k, p ≠ lsa := by
    rintro k p member rfl
    exact fresh ⟨k, member⟩
  have inList : ∀ p, p ∈ front ++ oldlsa :: back → p ∈ L h := by
    intro p member
    rw [split]
    exact member
  have inside : oldlsa ∈ L h := inList oldlsa (by simp)
  have nextIn (p : Ptr) (link : next oldlsa = some p) : p ∈ L h := listed.next_mem inside link
  have prevIn (p : Ptr) (link : prev oldlsa = some p) : p ∈ L h := listed.prev_mem inside link
  have nextLsa : next oldlsa ≠ some lsa := fun link => notIn h lsa (nextIn lsa link) rfl
  have prevLsa : prev oldlsa ≠ some lsa := fun link => notIn h lsa (prevIn lsa link) rfl
  have keptSub : ∀ p ∈ front ++ back, p ∈ L h := by
    intro p member
    refine inList p ?_
    rcases List.mem_append.mp member with inFront | inBack
    · exact List.mem_append_left _ inFront
    · exact List.mem_append_right _ (List.mem_cons_of_mem _ inBack)
  refine listed.change ?_ ?_ ?_ ?_
  · refine path.replace nodup ?_ ?_ (fun p link => linkTo_self link)
      (fun p link => linkTo_self link) ?_ ?_
    · rw [linkTo_other prevLsa, update_self]
    · rw [linkTo_other nextLsa, update_self]
    · intro p member other
      rw [linkTo_other other, update_of_ne (notIn h p (keptSub p member))]
    · intro p member other
      rw [linkTo_other other, update_of_ne (notIn h p (keptSub p member))]
  · rw [List.nodup_append, List.nodup_cons] at nodup ⊢
    obtain ⟨nodupFront, ⟨-, nodupBack⟩, disjoint⟩ := nodup
    refine ⟨nodupFront, ⟨?_, nodupBack⟩, ?_⟩
    · intro member
      exact notIn h lsa (keptSub lsa (List.mem_append_right _ member)) rfl
    · intro p inFront q inRest
      rcases List.mem_cons.mp inRest with rfl | inBack
      · exact notIn h p (keptSub p (List.mem_append_left _ inFront))
      · exact disjoint p inFront q (List.mem_cons_of_mem _ inBack)
  · intro p member
    by_cases same : p = lsa
    · rw [same, update_self]
    · rw [update_of_ne same]
      refine listed.owner h p (keptSub p ?_)
      rcases List.mem_append.mp member with inFront | inRest
      · exact List.mem_append_left _ inFront
      · rcases List.mem_cons.mp inRest with here | inBack
        · exact absurd here same
        · exact List.mem_append_right _ inBack
  · intro k p other member
    have outside : p ∉ L h := fun inside => other (listed.unique member inside)
    rw [linkTo_other (fun link => outside (prevIn p link)),
      linkTo_other (fun link => outside (nextIn p link))]
    simp only [update_of_ne (notIn k p member), and_self]

theorem lsaListReplace_spec (coherent : Coherent m L) {oldlsa : Ptr}
    (inside : oldlsa ∈ L h) (allocated : m.allocated lsa = true) (fresh : ¬ Member L lsa) :
    ∃ n m' front back, L h = front ++ oldlsa :: back ∧
      (∀ steps, n ≤ steps → lsaListReplace steps m h oldlsa lsa = some m') ∧
      Coherent m' (update L h (front ++ lsa :: back)) := by
  have liveOld := coherent.live oldlsa ⟨h, inside⟩
  obtain ⟨n, hashNext₁, bucket₁, removed, hashed₁⟩ :=
    lsaHashRemove_spec coherent.hashed coherent.live liveOld
  obtain ⟨hashNext, bucket, added, hashed⟩ :=
    @lsaHashAdd_spec { m with hashNext := hashNext₁, bucket := bucket₁ } _ lsa hashed₁
      allocated (fun old => fresh old.1) h
  obtain ⟨front, back, split⟩ := List.append_of_mem inside
  have members (p : Ptr) : Member (update L h (front ++ lsa :: back)) p ↔
      (Member L p ∧ p ≠ oldlsa) ∨ p = lsa := coherent.listed.member_replace split p
  have path := coherent.listed.path h
  have nodup := coherent.listed.nodup h
  rw [split] at path nodup
  have isFirst : m.list h = some oldlsa ↔ front = [] := by
    constructor
    · intro start
      cases front with
      | nil => rfl
      | cons f rest =>
        cases Option.some.inj (start.symm.trans path.1)
        exact absurd (List.mem_append_right rest List.mem_cons_self) (List.nodup_cons.mp nodup).1
    · rintro rfl
      exact path.1
  obtain ⟨f, -, start⟩ := path.start_of_append
  have different : oldlsa ≠ lsa := by
    rintro rfl
    exact fresh ⟨h, inside⟩
  have apart : ∀ x, m.next oldlsa = some x → oldlsa ≠ x := by
    rintro x link rfl
    obtain ⟨-, -, -, -, rest⟩ := dPath_append.mp path
    exact (List.nodup_cons.mp (List.nodup_append.mp nodup).2.1).1 (rest.mem_of_start link)
  have liveNext := coherent.live_next inside
  have livePrev := coherent.live_prev inside
  refine ⟨n, { m with
    hashNext := hashNext, bucket := bucket, head := update m.head lsa (some h)
    next := linkTo (update m.next lsa (m.next oldlsa)) (m.prev oldlsa) (some lsa)
    prev := linkTo (update m.prev lsa (m.prev oldlsa)) (m.next oldlsa) (some lsa)
    list := update m.list h (if front = [] then some lsa else m.list h) },
    front, back, split, ?_, coherent.listed.replace split fresh, hashed.congr members, ?_⟩
  · intro steps enough
    have lists : update m.list h (if front = [] then some lsa else m.list h) =
        if m.list h = some oldlsa then update m.list h (some lsa) else m.list := by
      by_cases first : m.list h = some oldlsa
      · rw [if_pos first, if_pos (isFirst.mp first)]
      · rw [if_neg first, if_neg (fun empty => first (isFirst.mpr empty)),
          update_eq_self]
    rw [lists]
    cases following : m.next oldlsa with
    | none =>
      by_cases first : m.list h = some oldlsa <;> cases before : m.prev oldlsa <;>
        simp [lsaListReplace, start ▸ first, start, removed steps enough, added, access, setNext,
          setPrev, setList, allocated, liveOld, different, livePrev, following, before, linkTo]
    | some x =>
      have other := apart x following
      by_cases first : m.list h = some oldlsa <;> cases before : m.prev oldlsa <;>
        simp [lsaListReplace, start ▸ first, start, removed steps enough, added, access, setNext,
          setPrev, setList, allocated, liveOld, different, liveNext, livePrev, following, before,
          other, linkTo]
  · intro p member
    rcases (members p).mp member with ⟨old, -⟩ | rfl
    · exact coherent.live p old
    · exact allocated

theorem lsaFree_eq {S : Ptr → Prop} (hashed : Hashed m.linkStateId m.hashNext m.bucket S)
    (live : ∀ p, S p → m.allocated p = true) (allocated : m.allocated lsa = true) :
    ∃ n hashNext bucket, (∀ steps, n ≤ steps → lsaFree steps m lsa = some { m with
        hashNext := hashNext, bucket := bucket
        allocated := update m.allocated lsa false }) ∧
      Hashed m.linkStateId hashNext bucket (fun p => S p ∧ p ≠ lsa) := by
  obtain ⟨n, hashNext, bucket, removed, hashed'⟩ := lsaHashRemove_spec hashed live allocated
  refine ⟨n, hashNext, bucket, fun steps enough => ?_, hashed'⟩
  simp [lsaFree, removed steps enough, access, allocated]

theorem lsaFree_spec (coherent : Coherent m L) (allocated : m.allocated lsa = true)
    (unlinked : ¬ Member L lsa) :
    ∃ n m', (∀ steps, n ≤ steps → lsaFree steps m lsa = some m') ∧ Coherent m' L := by
  obtain ⟨n, hashNext, bucket, freed, hashed⟩ :=
    lsaFree_eq coherent.hashed coherent.live allocated
  have same : (fun p => Member L p ∧ p ≠ lsa) = Member L := by
    funext p
    refine propext ⟨And.left, fun member => ⟨member, ?_⟩⟩
    rintro rfl
    exact unlinked member
  rw [same] at hashed
  refine ⟨n, _, freed, coherent.listed, hashed, ?_⟩
  intro p member
  have other : p ≠ lsa := by
    rintro rfl
    exact unlinked member
  exact (update_of_ne other _ _).trans (coherent.live p member)

theorem freeFrom_spec {S : Ptr → Prop} (m : Mem)
    (path : Path m.next start ps none) (nodup : ps.Nodup)
    (hashed : Hashed m.linkStateId m.hashNext m.bucket S)
    (live : ∀ p, S p → m.allocated p = true) (inside : ∀ p ∈ ps, S p) :
    ∃ n hashNext bucket allocated, (∀ steps left, n ≤ steps → ps.length ≤ left →
        freeFrom steps left m start = some { m with
          hashNext := hashNext, bucket := bucket, allocated := allocated }) ∧
      Hashed m.linkStateId hashNext bucket (fun p => S p ∧ p ∉ ps) ∧
      ∀ p, p ∉ ps → allocated p = m.allocated p := by
  induction ps generalizing m start S with
  | nil =>
    cases path
    refine ⟨0, m.hashNext, m.bucket, m.allocated, fun _ left _ _ => ?_, ?_, fun _ _ => rfl⟩
    · cases left <;> rfl
    · simpa using hashed
  | cons q ps ih =>
    obtain ⟨rfl, rest⟩ := path
    obtain ⟨fresh, nodupPs⟩ := List.nodup_cons.mp nodup
    have liveQ := live q (inside q List.mem_cons_self)
    obtain ⟨n, hashNext, bucket, freed, hashed'⟩ := lsaFree_eq hashed live liveQ
    obtain ⟨n', hashNext', bucket', allocated', run, hashedPs, kept⟩ :=
      ih { m with
          hashNext := hashNext, bucket := bucket
          allocated := update m.allocated q false } rest nodupPs hashed'
        (fun p member => by
          dsimp only
          rw [update_of_ne member.2]
          exact live p member.1)
        (fun p member => ⟨inside p (List.mem_cons_of_mem q member), by
          rintro rfl
          exact fresh member⟩)
    refine ⟨max n n', hashNext', bucket', allocated', ?_, ?_, ?_⟩
    · intro steps left enough long
      obtain ⟨left, rfl⟩ := Nat.exists_eq_add_one_of_ne_zero (Nat.ne_zero_of_lt long)
      simp only [freeFrom, access_eq liveQ, freed steps (by omega), Option.bind_eq_bind,
        Option.bind_some]
      exact run steps left (by omega) (by simpa using long)
    · have same : (fun p => S p ∧ p ∉ q :: ps) = fun p => (S p ∧ p ≠ q) ∧ p ∉ ps := by
        funext p
        rw [List.mem_cons, not_or, and_assoc]
      rw [same]
      exact hashedPs
    · intro p outside
      rw [List.mem_cons, not_or] at outside
      rw [kept p outside.2]
      exact update_of_ne outside.1 _ _

theorem freeList_spec (coherent : Coherent m L) (h : Head) :
    ∃ n m', (∀ steps, n ≤ steps → freeList steps m h = some m') ∧
      Coherent m' (update L h []) := by
  obtain ⟨n, hashNext, bucket, allocated, run, hashed, kept⟩ := freeFrom_spec m
    (coherent.listed.path h).path (coherent.listed.nodup h) coherent.hashed coherent.live
    (fun p member => ⟨h, member⟩)
  have members : Member (update L h []) = fun p => Member L p ∧ p ∉ L h := by
    funext p
    rw [member_update (fun k inK inH => coherent.listed.unique inK inH)]
    simp
  refine ⟨max n (L h).length, { m with
    hashNext := hashNext, bucket := bucket, allocated := allocated
    list := update m.list h none }, ?_, ?_, ?_, ?_⟩
  · intro steps enough
    simp [freeList, run steps steps (by omega) (by omega), setList]
  · exact coherent.listed.change rfl List.nodup_nil (by simp) (fun _ _ _ _ => ⟨rfl, rfl, rfl⟩)
  · rw [members]
    exact hashed
  · intro p member
    rw [members] at member
    dsimp only
    rw [kept p member.2]
    exact coherent.live p member.1

theorem allocate_spec (coherent : Coherent m L) (new : m.allocated lsa = false)
    (type : BitVec 8) (linkStateId advRouter : BitVec 32) (next prev hashNext : Option Ptr)
    (head : Option Head) :
    Coherent (allocate m lsa type linkStateId advRouter next prev hashNext head) L := by
  have notIn : ∀ p, Member L p → p ≠ lsa := by
    rintro p member rfl
    cases new.symm.trans (coherent.live p member)
  refine ⟨⟨?_, coherent.listed.nodup, ?_⟩, ?_, ?_⟩
  · intro h
    refine (coherent.listed.path h).congr ?_ ?_
    · exact fun p member => update_of_ne (notIn p ⟨h, member⟩) _ _
    · exact fun p member => update_of_ne (notIn p ⟨h, member⟩) _ _
  · intro h p member
    exact (update_of_ne (notIn p ⟨h, member⟩) _ _).trans
      (coherent.listed.owner h p member)
  · obtain ⟨chains, ok⟩ := coherent.hashed
    refine ⟨chains, fun i => ?_⟩
    obtain ⟨path, nodup, members⟩ := ok i
    refine ⟨path.congr ?_, nodup, fun p => ?_⟩
    · exact fun p member => update_of_ne (notIn p ((members p).mp member).1) _ _
    · rw [members p]
      refine and_congr_right fun member => ?_
      rw [allocate]
      dsimp only
      rw [update_of_ne (notIn p member)]
  · intro p member
    exact (update_of_ne (notIn p member) _ _).trans (coherent.live p member)

/-- The LSA has this type, link state id and advertising router. -/
def HasKey (m : Mem) (type : BitVec 8) (linkStateId advRouter : BitVec 32) (lsa : Ptr) : Prop :=
  m.type lsa = type ∧ m.linkStateId lsa = linkStateId ∧ m.advRouter lsa = advRouter

theorem findFrom_spec {type : BitVec 8} {linkStateId advRouter : BitVec 32}
    (path : Path m.hashNext start ps none) (live : ∀ p ∈ ps, m.allocated p = true) :
    ∃ r, (∀ steps, ps.length ≤ steps →
        findFrom m h type linkStateId advRouter steps start = some r) ∧
      (∀ p, r = some p → p ∈ ps ∧ m.head p = some h ∧ HasKey m type linkStateId advRouter p) ∧
      (r = none → ∀ p ∈ ps, m.head p = some h → ¬ HasKey m type linkStateId advRouter p) := by
  induction ps generalizing start with
  | nil =>
    cases path
    refine ⟨none, fun steps _ => ?_, by simp, by simp⟩
    cases steps <;> rfl
  | cons q ps ih =>
    obtain ⟨rfl, rest⟩ := path
    have liveQ := live q List.mem_cons_self
    by_cases here : m.head q = some h ∧ HasKey m type linkStateId advRouter q
    · refine ⟨some q, fun steps long => ?_, ?_, by simp⟩
      · obtain ⟨steps, rfl⟩ := Nat.exists_eq_add_one_of_ne_zero (Nat.ne_zero_of_lt long)
        have found : decide (m.head q = some h ∧ m.type q = type ∧
            m.linkStateId q = linkStateId ∧ m.advRouter q = advRouter) = true :=
          decide_eq_true here
        simp [findFrom, access_eq liveQ, found]
      · rintro p ⟨⟩
        exact ⟨List.mem_cons_self, here⟩
    · obtain ⟨r, run, some', none'⟩ :=
        ih rest (fun p member => live p (List.mem_cons_of_mem q member))
      refine ⟨r, fun steps long => ?_, ?_, ?_⟩
      · obtain ⟨steps, rfl⟩ := Nat.exists_eq_add_one_of_ne_zero (Nat.ne_zero_of_lt long)
        have other : decide (m.head q = some h ∧ m.type q = type ∧
            m.linkStateId q = linkStateId ∧ m.advRouter q = advRouter) = false :=
          decide_eq_false here
        rw [← run steps (by simpa using long)]
        simp [findFrom, access_eq liveQ, other]
      · intro p result
        obtain ⟨member, key⟩ := some' p result
        exact ⟨List.mem_cons_of_mem q member, key⟩
      · intro result p member owner key
        rcases List.mem_cons.mp member with rfl | later
        · exact here ⟨owner, key⟩
        · exact none' result p later owner key

theorem lsaListFind_spec (coherent : Coherent m L) (h : Head) (type : BitVec 8)
    (linkStateId advRouter : BitVec 32) :
    ∃ n r, (∀ steps, n ≤ steps →
        lsaListFind steps m h type linkStateId advRouter = some r) ∧
      (r ≠ none ↔ ∃ p ∈ L h, HasKey m type linkStateId advRouter p) ∧
      ∀ p, r = some p → p ∈ L h ∧ HasKey m type linkStateId advRouter p := by
  by_cases empty : m.list h = none
  · have noMember : L h = [] := (path_nil (coherent.listed.path h).path).mp empty
    refine ⟨0, none, fun steps _ => if_pos empty, ?_, by simp⟩
    simp [noMember]
  · obtain ⟨chains, ok⟩ := coherent.hashed
    obtain ⟨path, -, members⟩ := ok (hash linkStateId)
    obtain ⟨r, run, some', none'⟩ := @findFrom_spec h _ _ m type linkStateId advRouter path
      (fun p member => coherent.live p ((members p).mp member).1)
    have sound : ∀ p, r = some p → p ∈ L h ∧ HasKey m type linkStateId advRouter p := by
      intro p result
      obtain ⟨member, owner, key⟩ := some' p result
      obtain ⟨k, inK⟩ := ((members p).mp member).1
      cases Option.some.inj ((coherent.listed.owner k p inK).symm.trans owner)
      exact ⟨inK, key⟩
    refine ⟨(chains (hash linkStateId)).length, r, ?_, ?_, sound⟩
    · intro steps long
      rw [lsaListFind, if_neg empty]
      exact run steps long
    · constructor
      · intro found
        obtain ⟨p, result⟩ := Option.ne_none_iff_exists'.mp found
        exact ⟨p, sound p result⟩
      · rintro ⟨p, inside, key⟩ missing
        refine none' missing p ((members p).mpr ⟨⟨h, inside⟩, ?_⟩)
          (coherent.listed.owner h p inside) key
        rw [key.2.1]

end Lists

section Runs

/-- A call on the lists; the last two are `lsaFree` of one LSA and the loop that frees a
whole list. -/
inductive Op where
  | allocate (lsa : Ptr) (type : BitVec 8) (linkStateId advRouter : BitVec 32)
    (next prev hashNext : Option Ptr) (head : Option Head)
  | add (head : Head) (lsa : Ptr)
  | remove (head : Head) (lsa : Ptr)
  | replace (head : Head) (oldlsa lsa : Ptr)
  | free (lsa : Ptr)
  | freeList (head : Head)

def exec (steps : Nat) (m : Mem) : Op → Option Mem
  | .allocate lsa type linkStateId advRouter next prev hashNext head =>
    some (allocate m lsa type linkStateId advRouter next prev hashNext head)
  | .add head lsa => lsaListAddHash m head lsa
  | .remove head lsa => lsaListRemove steps m head lsa
  | .replace head oldlsa lsa => lsaListReplace steps m head oldlsa lsa
  | .free lsa => lsaFree steps m lsa
  | .freeList head => freeList steps m head

/-- The call ends with this memory when its loops may take enough rounds. -/
def Ends (m : Mem) (op : Op) (m' : Mem) : Prop :=
  ∃ n, ∀ steps, n ≤ steps → exec steps m op = some m'

/-- The LSA is met from the head of the list on. -/
def Linked (m : Mem) (head : Head) (lsa : Ptr) : Prop :=
  ∃ ps, Path m.next (m.list head) ps none ∧ lsa ∈ ps

/-- An LSA is allocated and in no list. -/
def Loose (m : Mem) (lsa : Ptr) : Prop := m.allocated lsa = true ∧ ∀ head, ¬ Linked m head lsa

/-- An LSA is removed from and replaced in its list, and added or freed while it is in
none. -/
def Permitted (m : Mem) : Op → Prop
  | .allocate lsa .. => m.allocated lsa = false
  | .add _ lsa => Loose m lsa
  | .remove head lsa => Linked m head lsa
  | .replace head oldlsa lsa => Linked m head oldlsa ∧ Loose m lsa
  | .free lsa => Loose m lsa
  | .freeList _ => True

inductive Reached : Mem → Prop
  | start {m : Mem} : (∀ head, m.list head = none) → (∀ i, m.bucket i = none) → Reached m
  | step {m m' : Mem} {op : Op} : Reached m → Permitted m op → Ends m op m' → Reached m'

variable {m m' : Mem} {L : Head → List Ptr}

theorem Coherent.linked_iff (coherent : Coherent m L) {head : Head} {lsa : Ptr} :
    Linked m head lsa ↔ lsa ∈ L head := by
  have path := (coherent.listed.path head).path
  constructor
  · rintro ⟨ps, other, member⟩
    rw [path.unique other]
    exact member
  · exact fun member => ⟨L head, path, member⟩

theorem Coherent.not_member (coherent : Coherent m L) {lsa : Ptr} (loose : Loose m lsa) :
    ¬ Member L lsa :=
  fun ⟨head, member⟩ => loose.2 head (coherent.linked_iff.mpr member)

theorem Coherent.exec (coherent : Coherent m L) {op : Op} (permitted : Permitted m op) :
    ∃ m' L', Ends m op m' ∧ Coherent m' L' := by
  cases op with
  | allocate lsa type linkStateId advRouter next prev hashNext head =>
    exact ⟨_, L, ⟨0, fun _ _ => rfl⟩, allocate_spec coherent permitted ..⟩
  | add head lsa =>
    obtain ⟨m', run, coherent'⟩ :=
      lsaListAddHash_spec coherent head permitted.1 (coherent.not_member permitted)
    exact ⟨m', _, ⟨0, fun _ _ => run⟩, coherent'⟩
  | remove head lsa =>
    obtain ⟨n, m', front, back, -, run, coherent'⟩ :=
      lsaListRemove_spec coherent (coherent.linked_iff.mp permitted)
    exact ⟨m', _, ⟨n, run⟩, coherent'⟩
  | replace head oldlsa lsa =>
    obtain ⟨n, m', front, back, -, run, coherent'⟩ :=
      lsaListReplace_spec coherent (coherent.linked_iff.mp permitted.1) permitted.2.1
        (coherent.not_member permitted.2)
    exact ⟨m', _, ⟨n, run⟩, coherent'⟩
  | free lsa =>
    obtain ⟨n, m', run, coherent'⟩ :=
      lsaFree_spec coherent permitted.1 (coherent.not_member permitted)
    exact ⟨m', L, ⟨n, run⟩, coherent'⟩
  | freeList head =>
    obtain ⟨n, m', run, coherent'⟩ := freeList_spec coherent head
    exact ⟨m', _, ⟨n, run⟩, coherent'⟩

theorem Ends.unique {op : Op} {m₁ m₂ : Mem} (first : Ends m op m₁) (second : Ends m op m₂) :
    m₁ = m₂ := by
  obtain ⟨n, first⟩ := first
  obtain ⟨k, second⟩ := second
  exact Option.some.inj ((first (max n k) (Nat.le_max_left n k)).symm.trans
    (second (max n k) (Nat.le_max_right n k)))

theorem Reached.coherent (reached : Reached m) : ∃ L, Coherent m L := by
  induction reached with
  | start lists buckets =>
    refine ⟨fun _ => [], ⟨lists, fun _ => List.nodup_nil, by simp⟩, ?_, ?_⟩
    · refine ⟨fun _ => [], fun i => ⟨buckets i, List.nodup_nil, fun p => ?_⟩⟩
      simp [Member]
    · rintro p ⟨head, member⟩
      cases member
  | step _ permitted ends ih =>
    obtain ⟨L, coherent⟩ := ih
    obtain ⟨m₁, L₁, ends₁, coherent₁⟩ := coherent.exec permitted
    rw [ends.unique ends₁]
    exact ⟨L₁, coherent₁⟩

/-- After any sequence of calls every list is doubly linked, every further call ends, and
`lsaListFind` returns an LSA of the list exactly when one with the key is linked there. -/
theorem lists_coherent (reached : Reached m) :
    (∀ op, Permitted m op → ∃ m', Ends m op m') ∧
    ∀ head, (∃ ps, DPath m.next m.prev none (m.list head) ps none) ∧
      ∀ type linkStateId advRouter, ∃ n r,
        (∀ steps, n ≤ steps → lsaListFind steps m head type linkStateId advRouter = some r) ∧
        (r ≠ none ↔ ∃ lsa, Linked m head lsa ∧ HasKey m type linkStateId advRouter lsa) ∧
        ∀ lsa, r = some lsa → Linked m head lsa ∧ HasKey m type linkStateId advRouter lsa := by
  obtain ⟨L, coherent⟩ := reached.coherent
  refine ⟨?_, fun head => ⟨⟨L head, coherent.listed.path head⟩, ?_⟩⟩
  · intro op permitted
    obtain ⟨m', -, ends, -⟩ := coherent.exec permitted
    exact ⟨m', ends⟩
  · intro type linkStateId advRouter
    obtain ⟨n, r, run, found, sound⟩ :=
      lsaListFind_spec coherent head type linkStateId advRouter
    simp only [coherent.linked_iff]
    exact ⟨n, r, run, found, sound⟩

/-- No LSA is allocated. -/
def emptyMem : Mem where
  allocated _ := false
  type _ := 0
  linkStateId _ := 0
  advRouter _ := 0
  next _ := none
  prev _ := none
  hashNext _ := none
  head _ := none
  list _ := none
  bucket _ := none

/-- The memory with one router LSA. -/
def oneLsa : Mem := allocate emptyMem 1 1 0x0a000001 0x0a000001 none none none none

theorem reached_oneLsa : Reached oneLsa := by
  have start : Reached emptyMem := .start (fun _ => rfl) (fun _ => rfl)
  have permitted :
      Permitted emptyMem (.allocate 1 1 0x0a000001 0x0a000001 none none none none) := rfl
  exact .step start permitted ⟨0, fun _ _ => rfl⟩

/-- The LSA in a list of its own. -/
def oneInList : Mem := (lsaListAddHash oneLsa 0 1).getD oneLsa

theorem reached_oneInList : Reached oneInList := by
  have permitted : Permitted oneLsa (.add 0 1) := by
    refine ⟨rfl, ?_⟩
    rintro head ⟨ps, path, member⟩
    rw [show ps = [] from (path_nil path).mp rfl] at member
    cases member
  exact .step reached_oneLsa permitted ⟨0, fun _ _ => rfl⟩

theorem lists_coherent_one :
    Reached oneInList ∧ ∃ n r,
      (∀ steps, n ≤ steps → lsaListFind steps oneInList 0 1 0x0a000001 0x0a000001 = some r) ∧
        r ≠ none := by
  refine ⟨reached_oneInList, ?_⟩
  obtain ⟨n, r, run, found, -⟩ :=
    ((lists_coherent reached_oneInList).2 0).2 1 0x0a000001 0x0a000001
  refine ⟨n, r, run, found.mpr ⟨1, ⟨[1], ⟨rfl, rfl⟩, List.mem_singleton_self 1⟩, ?_⟩⟩
  exact ⟨rfl, rfl, rfl⟩

theorem linked_one : Linked oneInList 0 1 := ⟨[1], ⟨rfl, rfl⟩, List.mem_singleton_self 1⟩

/-- `lsaFree` of an LSA of a list: it stays linked and is not found, and its memory is
not allocated. An LSA that is added again is its own successor. -/
theorem freed_member_stays_linked :
    (∃ m, Reached oneInList ∧ Linked oneInList 0 1 ∧ Ends oneInList (.free 1) m ∧
      Linked m 0 1 ∧ HasKey m 1 0x0a000001 0x0a000001 1 ∧ m.allocated 1 = false ∧
      ∀ steps, lsaListFind steps m 0 1 0x0a000001 0x0a000001 = some none) ∧
    ∃ m, Ends oneInList (.add 0 1) m ∧ ∀ ps, ¬ Path m.next (m.list 0) ps none := by
  constructor
  · refine ⟨(lsaFree 0 oneInList 1).getD oneInList, reached_oneInList, linked_one,
      ⟨0, fun _ _ => rfl⟩, ⟨[1], ⟨rfl, rfl⟩, List.mem_singleton_self 1⟩, ⟨rfl, rfl, rfl⟩, rfl, ?_⟩
    intro steps
    cases steps <;> rfl
  · refine ⟨(lsaListAddHash oneInList 0 1).getD oneInList, ⟨0, fun _ _ => rfl⟩, ?_⟩
    have loop : ∀ ps, ¬ Path ((lsaListAddHash oneInList 0 1).getD oneInList).next (some 1) ps
        none := by
      intro ps
      induction ps with
      | nil =>
        intro path
        cases path
      | cons p ps ih =>
        rintro ⟨here, rest⟩
        cases here
        exact ih rest
    exact loop

end Runs

end LsaLists
