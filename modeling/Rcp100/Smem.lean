import Mathlib.Data.List.Nodup
import Mathlib.Data.List.Perm.Subperm
import Mathlib.Logic.Function.Basic
import Mathlib.Tactic.Common

/-!
# The shared memory allocator

A bucket divides its memory into chunks of 16 bytes. A cell of `pmem` belongs to each
chunk: it is 0 for a free chunk, and counts the chunks from here to the end of the block
otherwise. The search for free chunks starts at the last allocation and starts again from
the first chunk when it meets the end. Statistics are left out.
-/

namespace Smem

/-- `ALIGN_SIZE`. -/
def alignSize : Nat := 16

def sizeofBucket : Nat := 56

structure Bucket where
  maxChunks : Nat
  pmem : Nat → BitVec 8
  lastAllocation : Nat
  lastFree : Nat

/-- The memory that a bucket is made of. It has room for the bucket itself, and its offsets
are of type `int`. -/
structure Region where
  mem : Nat
  size : Nat
  room : sizeofBucket + 2*alignSize ≤ size
  offsets : size < 0x80000000

/-- The aligned address, and the size that is left. -/
def align (mem size : Nat) : Nat × Nat :=
  if mem % alignSize = 0 then (mem, size)
  else (mem / alignSize * alignSize + alignSize, size - alignSize)

def smemInitialize (r : Region) : Bucket :=
  let bkt := align r.mem r.size
  let cmem := align (bkt.1 + sizeofBucket) (bkt.2 - sizeofBucket)
  { maxChunks := cmem.2 / (1 + alignSize)
    pmem := fun _ => 0
    lastAllocation := 0
    lastFree := 0 }

def getChunksFromSize (size : Nat) : Nat :=
  let chunks := if size % alignSize = 0 then size / alignSize else size / alignSize + 1
  if chunks = 0 then 1 else chunks

/-- The inner loop of `rcpAlloc`: where it stops, and whether all cells were empty. -/
def emptyRun (pmem : Nat → BitVec 8) (i : Nat) : Nat → Nat × Bool
  | 0 => (i, true)
  | left+1 => if pmem i ≠ 0 then (i, false) else emptyRun pmem (i+1) left

theorem le_emptyRun (pmem : Nat → BitVec 8) (i left : Nat) : i ≤ (emptyRun pmem i left).1 := by
  induction left generalizing i with
  | zero => exact Nat.le_refl i
  | succ left ih =>
    rw [emptyRun]
    split
    · exact Nat.le_refl i
    · exact Nat.le_of_succ_le (ih (i+1))

/-- The outer loop of `rcpAlloc`. A cell in use is skipped with the rest of its block. -/
def findEmpty (b : Bucket) (chunks i : Nat) : Option Nat :=
  if inside : i + chunks < b.maxChunks then
    if b.pmem i = 0 then
      let stop := emptyRun b.pmem i chunks
      if stop.2 then some (stop.1 - chunks) else findEmpty b chunks (stop.1 + 1)
    else findEmpty b chunks (i + ((b.pmem i).toNat - 1) + 1)
  else none
termination_by b.maxChunks - i
decreasing_by
  · have later := le_emptyRun b.pmem i chunks
    omega
  · omega

/-- The cells of a new block, from `entry` on. -/
def writeCells (pmem : Nat → BitVec 8) (entry : Nat) : Nat → Nat → BitVec 8
  | 0 => pmem
  | size+1 => writeCells (Function.update pmem entry (BitVec.ofNat 8 (size+1))) (entry+1) size

def clearCells (pmem : Nat → BitVec 8) (delta : Nat) : Nat → Nat → BitVec 8
  | 0 => pmem
  | size+1 => clearCells (Function.update pmem delta 0) (delta+1) size

/-- The bucket afterwards, and the offset of the block in `cmem`. -/
def rcpAlloc (b : Bucket) (size : Nat) : Bucket × Option Nat :=
  let chunks := getChunksFromSize size
  match findEmpty b chunks b.lastAllocation with
  | some index =>
    ({ b with pmem := writeCells b.pmem index chunks, lastAllocation := index },
      some (index * alignSize / 4 * 4))
  | none =>
    if b.lastAllocation ≠ 0 then rcpAlloc { b with lastAllocation := 0, lastFree := 0 } size
    else (b, none)
termination_by b.lastAllocation

/-- The bucket afterwards, and whether an assertion failed. -/
def rcpFree (b : Bucket) (mem : Nat) : Bucket × Bool :=
  let delta := mem / alignSize
  if b.maxChunks ≤ delta then (b, true)
  else if b.pmem delta = 0 then (b, true)
  else
    ({ b with
        lastFree := delta
        pmem := clearCells b.pmem delta (b.pmem delta).toNat }, false)

/-- A block that was allocated and not freed: its offset and the size asked for. -/
structure Block where
  mem : Nat
  size : Nat
  bound : size ≤ 4080

def Block.chunks (k : Block) : Nat := getChunksFromSize k.size

/-- The offset behind the last chunk. -/
def Block.stop (k : Block) : Nat := k.mem + alignSize * k.chunks

inductive Op where
  | alloc (size : Nat) (bound : size ≤ 4080)
  | free (i : Nat)

/-- The bucket, the live blocks, and whether an assertion of `rcpFree` has failed. -/
structure State where
  bucket : Bucket
  live : List Block
  asserted : Bool

/-- One call. Only a live block is freed. -/
def step (s : State) : Op → State
  | .alloc size bound =>
    let r := rcpAlloc s.bucket size
    { s with bucket := r.1, live := s.live ++ r.2.toList.map (fun mem => ⟨mem, size, bound⟩) }
  | .free i =>
    match s.live[i]? with
    | none => s
    | some k =>
      let r := rcpFree s.bucket k.mem
      ⟨r.1, s.live.eraseIdx i, s.asserted || r.2⟩

def run (s : State) (ops : List Op) : State := ops.foldl step s

def start (r : Region) : State := ⟨smemInitialize r, [], false⟩

/-- The chunk belongs to the block. -/
def Block.Has (k : Block) (i : Nat) : Prop := k.mem ≤ alignSize * i ∧ alignSize * i < k.stop

/-- What holds between the calls. -/
structure Sound (s : State) : Prop where
  disjoint : s.live.Pairwise (fun k k' => k.stop ≤ k'.mem ∨ k'.stop ≤ k.mem)
  aligned : ∀ k ∈ s.live, k.mem % alignSize = 0
  inside : ∀ k ∈ s.live, k.stop ≤ s.bucket.maxChunks * alignSize
  enough : ∀ k ∈ s.live, k.mem + k.size ≤ k.stop
  cells : ∀ k ∈ s.live, ∀ j < k.chunks,
    (s.bucket.pmem (k.mem / alignSize + j)).toNat = k.chunks - j
  others : ∀ i, (∀ k ∈ s.live, ¬ k.Has i) → s.bucket.pmem i = 0
  last : s.bucket.maxChunks ≠ 0 → s.bucket.lastAllocation < s.bucket.maxChunks
  quiet : s.asserted = false

section Cells

variable (pmem : Nat → BitVec 8)

theorem emptyRun_true {i left : Nat} (empty : (emptyRun pmem i left).2 = true) :
    (emptyRun pmem i left).1 = i + left ∧ ∀ j < left, pmem (i+j) = 0 := by
  induction left generalizing i with
  | zero => exact ⟨rfl, by omega⟩
  | succ left ih =>
    rw [emptyRun] at empty ⊢
    split at empty
    · cases empty
    · rename_i free
      rw [if_neg free]
      obtain ⟨stop, rest⟩ := ih empty
      refine ⟨by omega, ?_⟩
      intro j hj
      cases j with
      | zero => exact not_not.mp free
      | succ j =>
        have later := rest j (by omega)
        rwa [Nat.add_right_comm, Nat.add_assoc] at later

theorem writeCells_apply (entry size i : Nat) :
    writeCells pmem entry size i =
      if entry ≤ i ∧ i < entry + size then BitVec.ofNat 8 (entry + size - i) else pmem i := by
  induction size generalizing pmem entry with
  | zero => rw [writeCells, if_neg (by omega)]
  | succ size ih =>
    rw [writeCells, ih]
    by_cases later : entry + 1 ≤ i ∧ i < entry + 1 + size
    · rw [if_pos later, if_pos (by omega)]
      congr 1
      omega
    · rw [if_neg later]
      by_cases here : i = entry
      · rw [here, Function.update_self, if_pos (by omega)]
        congr 1
        omega
      · rw [Function.update_of_ne here, if_neg (by omega)]

theorem clearCells_apply (delta size i : Nat) :
    clearCells pmem delta size i = if delta ≤ i ∧ i < delta + size then 0 else pmem i := by
  induction size generalizing pmem delta with
  | zero => rw [clearCells, if_neg (by omega)]
  | succ size ih =>
    rw [clearCells, ih]
    by_cases later : delta + 1 ≤ i ∧ i < delta + 1 + size
    · rw [if_pos later, if_pos (by omega)]
    · rw [if_neg later]
      by_cases here : i = delta
      · rw [here, Function.update_self, if_pos (by omega)]
      · rw [Function.update_of_ne here, if_neg (by omega)]

end Cells

section Calls

theorem findEmpty_spec {b : Bucket} {chunks i index : Nat}
    (found : findEmpty b chunks i = some index) :
    index + chunks < b.maxChunks ∧ ∀ j < chunks, b.pmem (index+j) = 0 := by
  fun_induction findEmpty b chunks i with
  | case1 i inside free stop empty =>
    obtain ⟨ends, cells⟩ := emptyRun_true b.pmem empty
    have same : stop.1 = i + chunks := ends
    obtain rfl : i = index := by
      have value := Option.some.inj found
      omega
    exact ⟨inside, cells⟩
  | case2 i inside free stop used ih => exact ih found
  | case3 i inside used ih => exact ih found
  | case4 i outside => cases found

theorem rcpAlloc_cases (b : Bucket) (size : Nat) :
    (∃ index lastFree, rcpAlloc b size =
        (⟨b.maxChunks, writeCells b.pmem index (getChunksFromSize size), index, lastFree⟩,
          some (index * alignSize)) ∧
      index + getChunksFromSize size < b.maxChunks ∧
      ∀ j < getChunksFromSize size, b.pmem (index+j) = 0) ∨
    ∃ lastFree, rcpAlloc b size = (⟨b.maxChunks, b.pmem, 0, lastFree⟩, none) := by
  fun_induction rcpAlloc b size with
  | case1 b chunks index found =>
    obtain ⟨inside, free⟩ := findEmpty_spec found
    refine .inl ⟨index, b.lastFree, ?_, inside, free⟩
    have offset : index * alignSize / 4 * 4 = index * alignSize := by
      rw [alignSize]
      omega
    rw [offset]
  | case2 b chunks full later ih => exact ih
  | case3 b chunks full first =>
    refine .inr ⟨b.lastFree, ?_⟩
    rw [← not_not.mp first]

theorem getChunksFromSize_eq (size : Nat) :
    getChunksFromSize size = max 1 ((size + 15) / 16) := by
  have sixteen : alignSize = 16 := rfl
  simp only [getChunksFromSize]
  by_cases whole : size % alignSize = 0
  · rw [if_pos whole]
    rw [sixteen] at whole ⊢
    by_cases zero : size / 16 = 0
    · rw [if_pos zero]
      omega
    · rw [if_neg zero]
      omega
  · rw [if_neg whole, if_neg (Nat.succ_ne_zero _)]
    rw [sixteen] at whole ⊢
    omega

theorem Block.chunks_pos (k : Block) : 0 < k.chunks := by
  rw [Block.chunks, getChunksFromSize_eq]
  omega

theorem Block.size_le (k : Block) : k.size ≤ alignSize * k.chunks := by
  rw [Block.chunks, getChunksFromSize_eq, alignSize]
  omega

theorem Block.chunks_le (k : Block) : k.chunks ≤ 255 := by
  have bound := k.bound
  rw [Block.chunks, getChunksFromSize_eq]
  omega

end Calls

section Invariant

variable {s : State}

theorem Sound.has_iff (sound : Sound s) {k : Block} (member : k ∈ s.live) (i : Nat) :
    k.Has i ↔ k.mem / alignSize ≤ i ∧ i < k.mem / alignSize + k.chunks := by
  have aligned := sound.aligned k member
  simp only [Block.Has, Block.stop, alignSize] at aligned ⊢
  omega

theorem sound_start (r : Region) : Sound (start r) where
  disjoint := .nil
  aligned := nofun
  inside := nofun
  enough := nofun
  cells := nofun
  others := fun _ _ => rfl
  last := Nat.pos_of_ne_zero
  quiet := rfl

theorem Sound.cell_ne_zero (sound : Sound s) {k : Block} (member : k ∈ s.live) {i : Nat}
    (has : k.Has i) : s.bucket.pmem i ≠ 0 := by
  obtain ⟨lower, upper⟩ := (sound.has_iff member i).mp has
  have cell := sound.cells k member (i - k.mem / alignSize) (by omega)
  rw [Nat.add_sub_cancel' lower] at cell
  intro zero
  rw [zero] at cell
  have empty : (0 : BitVec 8).toNat = 0 := rfl
  omega

theorem Sound.take (sound : Sound s) (k : Block) {index lastFree : Nat}
    (place : k.mem = index * alignSize) (inside : index + k.chunks < s.bucket.maxChunks)
    (free : ∀ j < k.chunks, s.bucket.pmem (index+j) = 0) :
    Sound
      { s with
        bucket := ⟨s.bucket.maxChunks, writeCells s.bucket.pmem index k.chunks, index, lastFree⟩
        live := s.live ++ [k] } := by
  have start : k.mem / alignSize = index := by
    rw [place, alignSize]
    omega
  have apart : ∀ old ∈ s.live, ∀ i, old.Has i → ¬ (index ≤ i ∧ i < index + k.chunks) := by
    intro old member i has range
    have zero := free (i - index) (by omega)
    rw [Nat.add_sub_cancel' range.1] at zero
    exact sound.cell_ne_zero member has zero
  have disjoint : ∀ old ∈ s.live, old.stop ≤ k.mem ∨ k.stop ≤ old.mem := by
    intro old member
    have aligned := sound.aligned old member
    have oldPos := old.chunks_pos
    have newPos := k.chunks_pos
    have first := apart old member (old.mem / alignSize)
    have second := apart old member index
    simp only [Block.Has, Block.stop, alignSize] at *
    omega
  constructor
  · refine List.pairwise_append.mpr ⟨sound.disjoint, List.pairwise_singleton _ _, ?_⟩
    intro old member new hnew
    obtain rfl := List.mem_singleton.mp hnew
    exact disjoint old member
  · intro x hx
    rcases List.mem_append.mp hx with old | new
    · exact sound.aligned x old
    · obtain rfl := List.mem_singleton.mp new
      rw [place, alignSize]
      omega
  · intro x hx
    rcases List.mem_append.mp hx with old | new
    · exact sound.inside x old
    · obtain rfl := List.mem_singleton.mp new
      simp only [Block.stop, place, alignSize]
      omega
  · intro x hx
    rcases List.mem_append.mp hx with old | new
    · exact sound.enough x old
    · exact Nat.add_le_add_left x.size_le x.mem
  · intro x hx j hj
    dsimp only
    rw [writeCells_apply]
    rcases List.mem_append.mp hx with old | new
    · have has : x.Has (x.mem / alignSize + j) := (sound.has_iff old _).mpr (by omega)
      rw [if_neg (apart x old _ has)]
      exact sound.cells x old j hj
    · obtain rfl := List.mem_singleton.mp new
      have bound := x.chunks_le
      rw [start, if_pos (by omega), BitVec.toNat_ofNat]
      omega
  · intro i none
    have outside : ¬ k.Has i := none k (List.mem_append_right _ List.mem_cons_self)
    dsimp only
    rw [writeCells_apply, if_neg ?_]
    · exact sound.others i (fun x hx => none x (List.mem_append_left _ hx))
    · intro range
      refine outside ?_
      simp only [Block.Has, Block.stop, place, alignSize]
      omega
  · intro _
    exact Nat.lt_of_le_of_lt (Nat.le_add_right _ _) inside
  · exact sound.quiet

theorem Sound.apart (sound : Sound s) {i j : Nat} (hi : i < s.live.length)
    (hj : j < s.live.length) (other : j ≠ i) {c : Nat} (has : s.live[j].Has c) :
    ¬ s.live[i].Has c := by
  have pairs := List.pairwise_iff_getElem.mp sound.disjoint
  have ends : s.live[i].stop ≤ s.live[j].mem ∨ s.live[j].stop ≤ s.live[i].mem := by
    rcases Nat.lt_or_gt_of_ne other with before | after
    · exact (pairs j i hj hi before).symm
    · exact pairs i j hi hj after
  simp only [Block.Has] at has ⊢
  omega

theorem Sound.release (sound : Sound s) {i : Nat} {k : Block} (found : s.live[i]? = some k) :
    ∃ b, rcpFree s.bucket k.mem = (b, false) ∧
      Sound { s with bucket := b, live := s.live.eraseIdx i } := by
  obtain ⟨bound, rfl⟩ := List.getElem?_eq_some_iff.mp found
  have member : s.live[i] ∈ s.live := List.getElem_mem bound
  have pos := s.live[i].chunks_pos
  have aligned := sound.aligned _ member
  have inside := sound.inside _ member
  have first : s.live[i].Has (s.live[i].mem / alignSize) := (sound.has_iff member _).mpr (by omega)
  have cell := sound.cells _ member 0 pos
  rw [Nat.add_zero, Nat.sub_zero] at cell
  have range : ¬ s.bucket.maxChunks ≤ s.live[i].mem / alignSize := by
    simp only [Block.stop, alignSize] at *
    omega
  simp only [rcpFree]
  rw [if_neg range, if_neg (sound.cell_ne_zero member first), cell]
  refine ⟨_, rfl, ?_⟩
  have apart : ∀ x ∈ s.live.eraseIdx i, ∀ c, x.Has c → ¬ s.live[i].Has c := by
    intro x hx c has
    obtain ⟨j, hj, other, rfl⟩ := List.mem_eraseIdx_iff_getElem.mp hx
    exact sound.apart bound hj other has
  have sub : ∀ x ∈ s.live.eraseIdx i, x ∈ s.live := fun _ => List.mem_of_mem_eraseIdx
  constructor
  · exact sound.disjoint.sublist (List.eraseIdx_sublist ..)
  · exact fun x hx => sound.aligned x (sub x hx)
  · exact fun x hx => sound.inside x (sub x hx)
  · exact fun x hx => sound.enough x (sub x hx)
  · intro x hx j hj
    have has : x.Has (x.mem / alignSize + j) := (sound.has_iff (sub x hx) _).mpr (by omega)
    have outside := (sound.has_iff member _).not.mp (apart x hx _ has)
    dsimp only
    rw [clearCells_apply, if_neg outside]
    exact sound.cells x (sub x hx) j hj
  · intro c none
    dsimp only
    rw [clearCells_apply]
    split
    · rfl
    · rename_i outside
      refine sound.others c (fun x hx has => ?_)
      obtain ⟨j, hj, rfl⟩ := List.getElem_of_mem hx
      by_cases same : j = i
      · subst same
        exact outside ((sound.has_iff member c).mp has)
      · exact none _ (List.mem_eraseIdx_iff_getElem.mpr ⟨j, hj, same, rfl⟩) has
  · exact sound.last
  · exact sound.quiet

theorem Sound.step (sound : Sound s) (op : Op) : Sound (step s op) := by
  cases op with
  | alloc size bound =>
    obtain ⟨index, lastFree, result, inside, free⟩ | ⟨lastFree, result⟩ :=
      rcpAlloc_cases s.bucket size
    · simp only [Smem.step, result]
      exact sound.take ⟨index * alignSize, size, bound⟩ rfl inside free
    · simp only [Smem.step, result, Option.toList_none, List.map_nil, List.append_nil]
      exact ⟨sound.disjoint, sound.aligned, sound.inside, sound.enough, sound.cells, sound.others,
        Nat.pos_of_ne_zero, sound.quiet⟩
  | free i =>
    simp only [Smem.step]
    split
    · exact sound
    · rename_i k found
      obtain ⟨b, result, after⟩ := sound.release found
      rw [result, Bool.or_false]
      exact after

/-- Whatever is allocated and freed: the live blocks are disjoint, in bounds and large
enough, the cells say where they are, and no assertion fails. -/
theorem run_sound (r : Region) (ops : List Op) : Sound (run (start r) ops) := by
  have runs : ∀ s, Sound s → Sound (run s ops) := by
    induction ops with
    | nil => exact fun _ sound => sound
    | cons op ops ih => exact fun _ sound => ih _ (sound.step op)
  exact runs _ (sound_start r)

example : (run (start ⟨8, 160, by decide, by decide⟩)
    [.alloc 20 (by decide), .alloc 5 (by decide), .free 0, .alloc 3 (by decide),
      .alloc 16 (by decide)]).live.map (fun k => (k.mem, k.size)) =
        [(32, 5), (0, 3), (16, 16)] := by
  decide +kernel

end Invariant

end Smem
