import Rcp100.Smem

/-!
# The capacity of the shared memory allocator

The search for free chunks never tries the last position. A block of 256 chunks has the
length 0 in its first cell, so that it looks free and is not returned. Shorter blocks come
back completely.
-/

namespace SmemCapacity

open Smem

/-- So many free cells from a cell on. -/
def FreeRun (b : Bucket) (i chunks : Nat) : Prop :=
  i + chunks ≤ b.maxChunks ∧ ∀ j < chunks, b.pmem (i+j) = 0

/-- The cells of a block count down to its end. -/
def Counting (pmem : Nat → BitVec 8) : Prop :=
  ∀ i, ∀ j < (pmem i).toNat, pmem (i+j) ≠ 0

section Search

theorem emptyRun_false {pmem : Nat → BitVec 8} {i left : Nat}
    (used : (emptyRun pmem i left).2 = false) :
    pmem (emptyRun pmem i left).1 ≠ 0 ∧ (emptyRun pmem i left).1 < i + left := by
  induction left generalizing i with
  | zero => cases used
  | succ left ih =>
    rw [emptyRun] at used ⊢
    by_cases here : pmem i ≠ 0
    · rw [if_pos here]
      exact ⟨here, by dsimp only; omega⟩
    · rw [if_neg here] at used ⊢
      obtain ⟨stop, bound⟩ := ih used
      exact ⟨stop, by omega⟩

/-- The search passes no free chunks, but for those at the very end. -/
theorem findEmpty_none {b : Bucket} {chunks i : Nat} (counting : Counting b.pmem)
    (positive : 0 < chunks) (found : findEmpty b chunks i = none) (p : Nat) (later : i ≤ p)
    (inside : p + chunks < b.maxChunks) : ¬ FreeRun b p chunks := by
  fun_induction findEmpty b chunks i with
  | case1 i _ free stop empty => cases found
  | case2 i _ free stop used ih =>
    obtain ⟨taken, bound⟩ : b.pmem stop.1 ≠ 0 ∧ stop.1 < i + chunks :=
      emptyRun_false (Bool.eq_false_iff.mpr used)
    by_cases behind : stop.1 + 1 ≤ p
    · exact ih found behind
    · rintro ⟨_, cells⟩
      have cell := cells (stop.1 - p) (by omega)
      rw [Nat.add_sub_cancel' (by omega)] at cell
      exact taken cell
  | case3 i _ used ih =>
    have length : (b.pmem i).toNat ≠ 0 := fun zero => used (BitVec.eq_of_toNat_eq zero)
    by_cases behind : i + ((b.pmem i).toNat - 1) + 1 ≤ p
    · exact ih found behind
    · rintro ⟨_, cells⟩
      have cell := cells 0 positive
      have taken := counting i (p - i) (by omega)
      rw [Nat.add_sub_cancel' later] at taken
      exact taken cell
  | case4 i outside => omega

theorem getChunksFromSize_pos (size : Nat) : 0 < getChunksFromSize size := by
  rw [getChunksFromSize_eq]
  omega

theorem rcpAlloc_none_iff {b : Bucket} (counting : Counting b.pmem) (size : Nat) :
    (rcpAlloc b size).2 = none ↔
      ∀ p, p + getChunksFromSize size < b.maxChunks → ¬ FreeRun b p (getChunksFromSize size) := by
  constructor
  · intro failed
    fun_induction rcpAlloc b size with
    | case1 b chunks index found => cases failed
    | case2 b chunks full later ih => exact ih counting failed
    | case3 b chunks full first =>
      have zero : b.lastAllocation = 0 := not_not.mp first
      exact fun p inside =>
        findEmpty_none counting (getChunksFromSize_pos size) full p (by omega) inside
  · intro none
    obtain ⟨index, lastFree, result, inside, free⟩ | ⟨lastFree, result⟩ := rcpAlloc_cases b size
    · exact absurd ⟨Nat.le_of_lt inside, free⟩ (none index inside)
    · rw [result]

end Search

section Blocks

variable {s : State}

theorem counting_of_sound (sound : Sound s) : Counting s.bucket.pmem := by
  intro i j below
  by_cases owned : ∃ k ∈ s.live, k.Has i
  · obtain ⟨k, member, has⟩ := owned
    obtain ⟨lower, upper⟩ := (sound.has_iff member i).mp has
    have cell := sound.cells k member (i - k.mem / alignSize) (by omega)
    rw [Nat.add_sub_cancel' lower] at cell
    exact sound.cell_ne_zero member ((sound.has_iff member (i+j)).mpr (by omega))
  · have zero := sound.others i (fun k member has => owned ⟨k, member, has⟩)
    rw [zero] at below
    exact absurd below (Nat.not_lt_zero j)

theorem cells_rcpFree (sound : Sound s) {k : Block} (member : k ∈ s.live) :
    (rcpFree s.bucket k.mem).2 = false ∧
      ∀ j < k.chunks, (rcpFree s.bucket k.mem).1.pmem (k.mem / alignSize + j) = 0 := by
  have pos := k.chunks_pos
  have aligned := sound.aligned k member
  have inside := sound.inside k member
  have first : k.Has (k.mem / alignSize) := (sound.has_iff member _).mpr (by omega)
  have cell := sound.cells k member 0 pos
  rw [Nat.add_zero, Nat.sub_zero] at cell
  have range : ¬ s.bucket.maxChunks ≤ k.mem / alignSize := by
    simp only [Block.stop, alignSize] at *
    omega
  simp only [rcpFree]
  rw [if_neg range, if_neg (sound.cell_ne_zero member first), cell]
  refine ⟨rfl, fun j below => ?_⟩
  dsimp only
  rw [clearCells_apply, if_pos (by omega)]

theorem free_all (sound : Sound s) (i : Nat) :
    (Smem.run s (List.replicate s.live.length (.free 0))).bucket.pmem i = 0 := by
  have released : ∀ n (s : State), Sound s → s.live.length = n →
      Sound (Smem.run s (List.replicate n (.free 0))) ∧
        (Smem.run s (List.replicate n (.free 0))).live = [] := by
    intro n
    induction n with
    | zero => exact fun s sound empty => ⟨sound, List.eq_nil_of_length_eq_zero empty⟩
    | succ n ih =>
      intro s sound length
      have next : (Smem.step s (.free 0)).live.length = n := by
        obtain ⟨k, rest, live⟩ := List.exists_cons_of_length_eq_add_one length
        have found : s.live[0]? = some k := by rw [live]; rfl
        simp only [Smem.step, found, List.length_eraseIdx, length, Nat.succ_pos, if_true,
          Nat.add_sub_cancel]
      exact ih _ (sound.step (.free 0)) next
  obtain ⟨sound', empty⟩ := released _ s sound rfl
  refine sound'.others i (fun k member => ?_)
  rw [empty] at member
  cases member

theorem returned_iff {b : Bucket} {size mem : Nat} (documented : size ≤ 4096)
    (taken : (rcpAlloc b size).2 = some mem) :
    (∀ j < getChunksFromSize size,
      (rcpFree (rcpAlloc b size).1 mem).1.pmem (mem / alignSize + j) = 0) ↔ size ≤ 4080 := by
  obtain ⟨index, lastFree, result, inside, free⟩ | ⟨lastFree, result⟩ := rcpAlloc_cases b size
  · rw [result] at taken ⊢
    obtain rfl := (Option.some.inj taken).symm
    have place : index * alignSize / alignSize = index := by
      rw [alignSize]
      omega
    have chunks := getChunksFromSize_eq size
    have positive := getChunksFromSize_pos size
    have cell : writeCells b.pmem index (getChunksFromSize size) index =
        BitVec.ofNat 8 (getChunksFromSize size) := by
      rw [writeCells_apply, if_pos (by omega), Nat.add_sub_cancel_left]
    have range : ¬ b.maxChunks ≤ index := by omega
    simp only [rcpFree, place, if_neg range, cell]
    by_cases short : size ≤ 4080
    · have length : (BitVec.ofNat 8 (getChunksFromSize size)).toNat = getChunksFromSize size := by
        rw [BitVec.toNat_ofNat, Nat.mod_eq_of_lt (by omega)]
      have used : ¬ BitVec.ofNat 8 (getChunksFromSize size) = 0 := by
        intro zero
        rw [zero] at length
        have empty : (0 : BitVec 8).toNat = 0 := rfl
        omega
      rw [if_neg used, length]
      refine iff_of_true (fun j below => ?_) short
      dsimp only
      rw [clearCells_apply, if_pos (by omega)]
    · have full : getChunksFromSize size = 256 := by omega
      rw [full, if_pos (by decide)]
      refine iff_of_false (fun cleared => ?_) short
      have second := cleared 1 (by omega)
      dsimp only at second
      rw [writeCells_apply, if_pos (by omega), show index + 256 - (index + 1) = 255 by omega]
        at second
      exact absurd second (by decide)
  · rw [result] at taken
    cases taken

end Blocks

/-- In a bucket without blocks of 256 chunks: an allocation that fails shows that there is no
free place exactly if there is another place than the last one, or that is not free either; the
live blocks come back completely, and with all of them the whole capacity; and a new block of
a documented size comes back completely exactly if it has at most 255 chunks. -/
theorem capacity_iff (r : Region) (ops : List Op) :
    (∀ size ≤ 4096, ((rcpAlloc (run (start r) ops).bucket size).2 = none →
        ∀ p, ¬ FreeRun (run (start r) ops).bucket p (getChunksFromSize size)) ↔
      (∃ p, p + getChunksFromSize size < (run (start r) ops).bucket.maxChunks ∧
        FreeRun (run (start r) ops).bucket p (getChunksFromSize size)) ∨
      ∀ p, p + getChunksFromSize size = (run (start r) ops).bucket.maxChunks →
        ¬ FreeRun (run (start r) ops).bucket p (getChunksFromSize size)) ∧
      (∀ k ∈ (run (start r) ops).live, (rcpFree (run (start r) ops).bucket k.mem).2 = false ∧
        ∀ j < k.chunks,
          (rcpFree (run (start r) ops).bucket k.mem).1.pmem (k.mem / alignSize + j) = 0) ∧
      (∀ i, (run (run (start r) ops)
        (List.replicate (run (start r) ops).live.length (.free 0))).bucket.pmem i = 0) ∧
      ∀ size ≤ 4096, ∀ mem, (rcpAlloc (run (start r) ops).bucket size).2 = some mem →
        ((∀ j < getChunksFromSize size,
          (rcpFree (rcpAlloc (run (start r) ops).bucket size).1 mem).1.pmem
            (mem / alignSize + j) = 0) ↔ size ≤ 4080) := by
  have sound := run_sound r ops
  refine ⟨fun size _ => ?_, fun k member => cells_rcpFree sound member, free_all sound,
    fun size documented mem taken => returned_iff documented taken⟩
  rw [rcpAlloc_none_iff (counting_of_sound sound)]
  constructor
  · intro right
    by_cases place : ∃ p, p + getChunksFromSize size < (run (start r) ops).bucket.maxChunks ∧
        FreeRun (run (start r) ops).bucket p (getChunksFromSize size)
    · exact .inl place
    · exact .inr fun p _ => right (fun p inside free => place ⟨p, inside, free⟩) p
  · rintro (⟨p, inside, free⟩ | last) none p'
    · exact absurd free (none p inside)
    · intro free
      rcases Nat.lt_or_eq_of_le free.1 with inside | whole
      · exact none p' inside free
      · exact last p' whole free

/-- 16 bytes do not fit into a memory of one chunk, and a block of 4096 bytes is not returned. -/
theorem last_place_and_256_chunks :
    ((start ⟨0, 89, by decide, by decide⟩).bucket.maxChunks = 1 ∧
      (rcpAlloc (start ⟨0, 89, by decide, by decide⟩).bucket 16).2 = none ∧
      FreeRun (start ⟨0, 89, by decide, by decide⟩).bucket 0 (getChunksFromSize 16)) ∧
      ∃ mem, (rcpAlloc (start ⟨0, 8192, by decide, by decide⟩).bucket 4096).2 = some mem ∧
        ¬ ∀ j < getChunksFromSize 4096,
          (rcpFree (rcpAlloc (start ⟨0, 8192, by decide, by decide⟩).bucket 4096).1 mem).1.pmem
            (mem / alignSize + j) = 0 := by
  have one : getChunksFromSize 16 = 1 := by decide
  have room : (start ⟨0, 89, by decide, by decide⟩).bucket.maxChunks = 1 := by decide
  refine ⟨⟨room, ?_, ?_⟩, ?_⟩
  · refine (rcpAlloc_none_iff (counting_of_sound (sound_start _)) 16).mpr fun p inside => ?_
    rw [room, one] at inside
    omega
  · refine ⟨Nat.le_of_eq ?_, fun _ _ => rfl⟩
    rw [Nat.zero_add]
    exact one.trans room.symm
  · have wide : 0 + getChunksFromSize 4096 <
        (start ⟨0, 8192, by decide, by decide⟩).bucket.maxChunks := by decide
    have found := (rcpAlloc_none_iff (counting_of_sound (sound_start
      ⟨0, 8192, by decide, by decide⟩)) 4096).not.mpr
        fun none => none 0 wide ⟨Nat.le_of_lt wide, fun _ _ => rfl⟩
    obtain ⟨mem, taken⟩ := Option.ne_none_iff_exists'.mp found
    exact ⟨mem, taken, (returned_iff (by decide) taken).not.mpr (by decide)⟩

end SmemCapacity
