/-
  LzLib.MemPool.Conservation
  ──────────────────────────
  **NO CHUNK IS LOST, AND NONE IS SHARED.**

  `SlabOk size count c free taken`: the headers on the pool's list are `free`,
  the chunks that callers hold are `taken`, and together they are the chunks
  of the slab; whatever else the callers hold came from the heap.  That
  `mem_put` tells the two apart is a matter of addresses: behind the header of
  a chunk the remainder is 0, and a block of the heap is off the slab.
-/
import LzLib.MemPool.MemPoolDef

namespace LzLib.MemPool

open LzLib.Foundation

/-! ## §1. The chunks of a slab. -/

/-- The headers of a slab. -/
def chunks (pool padded count : Nat) : List Nat := (List.range count).map fun i => pool + i * padded

theorem mem_chunks {pool padded count : Nat} {a : Nat} :
    a ∈ chunks pool padded count ↔ ∃ i, i < count ∧ pool + i * padded = a := by
  unfold chunks
  simp only [List.mem_map, List.mem_range]

theorem chunks_nodup {pool padded count : Nat} (h : 0 < padded) : (chunks pool padded count).Nodup := by
  refine List.Nodup.map ?_ List.nodup_range
  intro i j hij
  have hmul : i * padded = j * padded := by
    have hsum : pool + i * padded = pool + j * padded := hij
    omega
  exact Nat.eq_of_mul_eq_mul_right h hmul

/-- A chunk lies inside the slab. -/
theorem chunk_inside {pool padded count : Nat} {a : Nat} (h : a ∈ chunks pool padded count) :
    pool ≤ a ∧ a + padded ≤ pool + count * padded := by
  obtain ⟨i, hi, rfl⟩ := mem_chunks.mp h
  have hmul : (i + 1) * padded ≤ count * padded := Nat.mul_le_mul_right padded hi
  rw [Nat.succ_mul] at hmul
  omega

/-- Two chunks have no byte in common. -/
theorem chunks_apart {pool padded count : Nat} {a b : Nat} (ha : a ∈ chunks pool padded count)
    (hb : b ∈ chunks pool padded count) (hne : a ≠ b) : Apart a padded b padded := by
  obtain ⟨i, -, rfl⟩ := mem_chunks.mp ha
  obtain ⟨j, -, rfl⟩ := mem_chunks.mp hb
  unfold Apart
  rcases Nat.lt_trichotomy i j with hlt | rfl | hlt
  · have hmul : (i + 1) * padded ≤ j * padded := Nat.mul_le_mul_right padded hlt
    rw [Nat.succ_mul] at hmul
    omega
  · exact absurd rfl hne
  · have hmul : (j + 1) * padded ≤ i * padded := Nat.mul_le_mul_right padded hlt
    rw [Nat.succ_mul] at hmul
    omega

/-- A larger neighbourhood is apart only if a smaller one is. -/
theorem Apart.mono {a n b m a' n' b' m' : Nat} (h : Apart a n b m) (ha : a ≤ a') (ha' : a' + n' ≤ a + n)
    (hb : b ≤ b') (hb' : b' + m' ≤ b + m) : Apart a' n' b' m' := by
  unfold Apart at h ⊢
  omega

theorem Apart.symm {a n b m : Nat} (h : Apart a n b m) : Apart b m a n := Or.symm h

/-! ## §2. The invariant. -/

/-- What the callers may use of a chunk: from behind its header. -/
def behind (a : Nat) : Nat := a + padBoundary

theorem behind_injective : Function.Injective behind := by
  intro a b h
  unfold behind at h
  omega

/-- **Free and taken chunks make up the slab.** -/
structure SlabOk (size count : Nat) (c : Client) (free taken : List Nat) : Prop where
  pos : 0 < size
  padded : c.mp.paddedSizeofType = size + padBoundary
  real : c.mp.realSizeofType = size
  ends : c.mp.poolEnd = c.mp.pool + count * (size + padBoundary)
  memory : c.mp.poolEnd ≤ 2 ^ 64
  ring : Ring c.mp.list .head (free.map .chunk)
  cold : c.mp.coldCount = free.length
  hot : c.mp.hotCount = taken.length
  partition : (free ++ taken).Perm (chunks c.mp.pool (size + padBoundary) count)
  out : c.out.Perm (taken.map behind ++ c.heap.map Prod.fst)
  heap : ∀ b ∈ c.heap, b.1 ≠ 0 ∧ b.2 = size ∧
    Apart b.1 size c.mp.pool (count * (size + padBoundary))
  blocks : c.heap.Pairwise fun b b' => Apart b.1 size b'.1 size

section Reading

variable {size count : Nat} {c : Client} {free taken : List Nat}

theorem SlabOk.padded_pos (h : SlabOk size count c free taken) : 0 < size + padBoundary := by
  have hpos := h.pos
  omega

theorem SlabOk.nodup (h : SlabOk size count c free taken) : (free ++ taken).Nodup :=
  h.partition.nodup_iff.mpr (chunks_nodup h.padded_pos)

theorem SlabOk.mem_free (h : SlabOk size count c free taken) {a : Nat} (ha : a ∈ free) :
    a ∈ chunks c.mp.pool (size + padBoundary) count := h.partition.mem_iff.mp (List.mem_append_left _ ha)

theorem SlabOk.mem_taken (h : SlabOk size count c free taken) {a : Nat} (ha : a ∈ taken) :
    a ∈ chunks c.mp.pool (size + padBoundary) count := h.partition.mem_iff.mp (List.mem_append_right _ ha)

/-- `real_sizeof_type`, as `malloc` is given it. -/
theorem SlabOk.real_toNat (h : SlabOk size count c free taken) : c.mp.realSizeofType.toNat = size := by
  rw [h.real, Int.toNat_natCast]

/-- **`__is_member`** behind the header of a chunk. -/
theorem SlabOk.isMember_chunk (h : SlabOk size count c free taken) {a : Nat}
    (ha : a ∈ chunks c.mp.pool (size + padBoundary) count) : isMember c.mp (behind a) = 1 := by
  have hpos := h.pos
  have hends := h.ends
  have hmemory := h.memory
  obtain ⟨hlow, hhigh⟩ := chunk_inside ha
  obtain ⟨i, hi, hai⟩ := mem_chunks.mp ha
  have hsum : (behind a : Int) - padBoundary - c.mp.pool = ((i * (size + padBoundary) : Nat) : Int) := by
    unfold behind
    push_cast
    rw [← hai]
    push_cast
    omega
  have hsmall : i * (size + padBoundary) < 2 ^ 64 := by omega
  have hnull : ¬ behind a = 0 := by
    unfold behind padBoundary
    omega
  -- the pointer lies in the slab
  have hrange : ¬ (behind a < c.mp.pool ∨ c.mp.poolEnd ≤ behind a) := by
    unfold behind
    omega
  -- and a whole number of chunks behind its start
  have hrest : ¬ ((behind a : Int) - padBoundary - c.mp.pool) % 2 ^ 64 % c.mp.paddedSizeofType ≠ 0 := by
    rw [hsum, h.padded]
    have hmod : ((i * (size + padBoundary) : Nat) : Int) % 2 ^ 64 = ((i * (size + padBoundary) : Nat) : Int) := by
      refine Int.emod_eq_of_lt (Int.natCast_nonneg _) ?_
      exact_mod_cast hsmall
    rw [hmod, not_not]
    exact_mod_cast Nat.mul_mod_left i (size + padBoundary)
  unfold isMember
  rw [if_neg hnull, if_neg hrange, if_neg hrest]

/-- **`__is_member`** of a block of the heap. -/
theorem SlabOk.isMember_heap (h : SlabOk size count c free taken) {b : Nat × Nat} (hb : b ∈ c.heap) :
    isMember c.mp b.1 = 0 := by
  have hpos := h.pos
  have hends := h.ends
  obtain ⟨hnull, -, hapart⟩ := h.heap b hb
  have hrange : b.1 < c.mp.pool ∨ c.mp.poolEnd ≤ b.1 := by
    unfold Apart at hapart
    omega
  unfold isMember
  rw [if_neg hnull, if_pos hrange]

/-- A block of the heap is no chunk. -/
theorem SlabOk.heap_ne_chunk (h : SlabOk size count c free taken) {b : Nat × Nat} (hb : b ∈ c.heap)
    {a : Nat} (ha : a ∈ taken) : b.1 ≠ behind a := by
  intro heq
  have hzero := h.isMember_heap hb
  rw [heq, h.isMember_chunk (h.mem_taken ha)] at hzero
  cases hzero

/-- **`mem_put` of a chunk** links it. -/
theorem SlabOk.memPut_chunk (h : SlabOk size count c free taken) {a : Nat} (ha : a ∈ taken) :
    memPut c.mp (behind a) = some ({ c.mp with
      list := listAdd c.mp.list (.chunk a) .head
      hotCount := c.mp.hotCount - 1
      coldCount := c.mp.coldCount + 1 }, none) := by
  have hnull : ¬ behind a = 0 := by
    unfold behind padBoundary
    omega
  have hback : behind a - padBoundary = a := Nat.add_sub_cancel a padBoundary
  unfold memPut
  rw [if_neg hnull, if_pos (h.isMember_chunk (h.mem_taken ha)), hback]

/-- **`mem_put` of a block of the heap** frees it, and leaves the pool alone. -/
theorem SlabOk.memPut_heap (h : SlabOk size count c free taken) {b : Nat × Nat} (hb : b ∈ c.heap) :
    memPut c.mp b.1 = some (c.mp, some b.1) := by
  have hzero := h.isMember_heap hb
  have hone : ¬ isMember c.mp b.1 = 1 := by
    rw [hzero]
    decide
  have hminus : ¬ isMember c.mp b.1 = -1 := by
    rw [hzero]
    decide
  unfold memPut
  rw [if_neg (h.heap b hb).1, if_neg hone, if_neg hminus]

/-- What the callers hold, one or the other. -/
theorem SlabOk.mem_out (h : SlabOk size count c free taken) {ptr : Nat} (hptr : ptr ∈ c.out) :
    (∃ a ∈ taken, behind a = ptr) ∨ ∃ b ∈ c.heap, b.1 = ptr := by
  rw [h.out.mem_iff, List.mem_append, List.mem_map, List.mem_map] at hptr
  exact hptr

/-- **No two pointers share a byte.** -/
theorem SlabOk.out_apart (h : SlabOk size count c free taken) :
    c.out.Pairwise fun p q => Apart p size q size := by
  have hsymm : ∀ {p q : Nat}, Apart p size q size → Apart q size p size := Apart.symm
  rw [h.out.pairwise_iff hsymm, List.pairwise_append, List.pairwise_map, List.pairwise_map]
  refine ⟨?_, h.blocks, ?_⟩
  · have hnodup : taken.Nodup := (List.nodup_append.mp h.nodup).2.1
    refine List.Pairwise.imp_of_mem ?_ hnodup
    intro a b ha hb hne
    have hchunks := chunks_apart (h.mem_taken ha) (h.mem_taken hb) hne
    unfold behind
    exact hchunks.mono (by omega) (by omega) (by omega) (by omega)
  · intro p hp q hq
    obtain ⟨a, ha, rfl⟩ := List.mem_map.mp hp
    obtain ⟨b, hb, rfl⟩ := List.mem_map.mp hq
    obtain ⟨hlow, hhigh⟩ := chunk_inside (h.mem_taken ha)
    -- a chunk lies inside the slab, a block of the heap does not
    have hslab := (h.heap b hb).2.2.symm
    unfold behind
    exact hslab.mono (by omega) (by omega) (Nat.le_refl _) (Nat.le_refl _)

/-- **No pointer reaches the header of a free chunk.** -/
theorem SlabOk.header_apart (h : SlabOk size count c free taken) {ptr hdr : Nat} (hptr : ptr ∈ c.out)
    (hhdr : hdr ∈ free) : Apart ptr size hdr padBoundary := by
  rcases h.mem_out hptr with ⟨a, ha, rfl⟩ | ⟨b, hb, rfl⟩
  · have hne : a ≠ hdr := fun e => (List.nodup_append.mp h.nodup).2.2 hdr hhdr a ha e.symm
    have hchunks := chunks_apart (h.mem_taken ha) (h.mem_free hhdr) hne
    unfold behind
    exact hchunks.mono (by omega) (by omega) (Nat.le_refl _) (by omega)
  · obtain ⟨hlow, hhigh⟩ := chunk_inside (h.mem_free hhdr)
    have hslab := (h.heap b hb).2.2
    exact hslab.mono (Nat.le_refl _) (Nat.le_refl _) hlow (by omega)

end Reading

/-! ## §3. Each call keeps it. -/

section Steps

variable {size count : Nat} {c : Client} {free taken : List Nat}

/-- The blocks that are left, by their addresses. -/
theorem map_eraseP_block (heap : List (Nat × Nat)) (ptr : Nat) :
    (heap.eraseP fun b => some ptr = some b.1).map Prod.fst = (heap.map Prod.fst).erase ptr := by
  induction heap with
  | nil => rfl
  | cons b heap ih =>
      by_cases hb : ptr = b.1
      · rw [List.eraseP_cons_of_pos (by simp [hb]), List.map_cons, ← hb, List.erase_cons_head]
      · rw [List.eraseP_cons_of_neg (by simp [hb]), List.map_cons, List.map_cons, ih,
          List.erase_cons_tail (by simp [Ne.symm hb])]

theorem chunk_injective : Function.Injective ListNode.chunk := fun _ _ h => ListNode.chunk.inj h

/-- A header off the list. -/
theorem not_mem_ring {a : Nat} (ha : a ∉ free) : ListNode.chunk a ∉ ListNode.head :: free.map .chunk := by
  rw [List.mem_cons, not_or, List.mem_map_of_injective chunk_injective]
  exact ⟨ListNode.noConfusion, ha⟩

/-- `mem_get` with a free chunk. -/
theorem SlabOk.get_chunk {a : Nat} (h : SlabOk size count c (a :: free) taken) (malloc : Option Nat) :
    ∃ c', c.step (.get malloc) = some c' ∧ SlabOk size count c' free (a :: taken) := by
  have hcold : c.mp.coldCount ≠ 0 := by
    rw [h.cold, List.length_cons]
    omega
  -- the first node behind the head goes
  have hring : Ring c.mp.list .head ([] ++ ListNode.chunk a :: free.map .chunk) := h.ring
  have hnext : (c.mp.list .head).next = .chunk a := hring.next_head
  have hget : memGet c.mp malloc = some ({ c.mp with
      list := listDel .poison c.mp.list (.chunk a)
      hotCount := c.mp.hotCount + 1
      coldCount := c.mp.coldCount - 1 }, some (behind a)) := by
    unfold memGet
    rw [if_pos hcold, hnext]
    rfl
  refine ⟨⟨{ c.mp with
      list := listDel .poison c.mp.list (.chunk a)
      hotCount := c.mp.hotCount + 1
      coldCount := c.mp.coldCount - 1 }, behind a :: c.out, c.heap⟩, ?_, ?_⟩
  · unfold Client.step
    simp only [hget, Option.map_some, if_neg hcold]
    rfl
  · refine { h with ring := hring.del .poison, cold := ?_, hot := ?_, partition := ?_, out := ?_ }
    · show c.mp.coldCount - 1 = free.length
      rw [h.cold, List.length_cons]
      omega
    · show c.mp.hotCount + 1 = (a :: taken).length
      rw [h.hot, List.length_cons]
      omega
    · exact List.perm_middle.trans h.partition
    · exact h.out.cons (behind a)

/-- `mem_get` with the slab used up. -/
theorem SlabOk.get_heap (h : SlabOk size count c [] taken) (malloc : Option Nat)
    (hfresh : ∀ a, malloc = some a → c.Fresh a) :
    ∃ c', c.step (.get malloc) = some c' ∧ SlabOk size count c' [] taken := by
  have hcold : c.mp.coldCount = 0 := h.cold
  have hget : memGet c.mp malloc = some (c.mp, malloc) := by
    unfold memGet
    rw [if_neg (not_not_intro hcold)]
  -- the slab has no chunk left, so the heap is asked
  cases malloc with
  | none =>
      refine ⟨c, ?_, h⟩
      unfold Client.step
      simp only [hget, Option.map_some, if_pos hcold]
      rfl
  | some a =>
      refine ⟨⟨c.mp, a :: c.out, (a, size) :: c.heap⟩, ?_, ?_⟩
      · unfold Client.step
        simp only [hget, Option.map_some, if_pos hcold, h.real_toNat]
        rfl
      · -- the new block is apart from the slab and from the other blocks
        obtain ⟨hnull, hslab, hblocks⟩ := hfresh a rfl
        rw [h.real_toNat] at hslab hblocks
        have hlen : c.mp.poolEnd - c.mp.pool = count * (size + padBoundary) := by
          rw [h.ends, Nat.add_sub_cancel_left]
        rw [hlen] at hslab
        refine { h with out := ?_, heap := ?_, blocks := ?_ }
        · show (a :: c.out).Perm (taken.map behind ++ a :: c.heap.map Prod.fst)
          exact (h.out.cons a).trans List.perm_middle.symm
        · intro b hb
          rcases List.mem_cons.mp hb with rfl | hb
          · exact ⟨hnull, rfl, hslab⟩
          · exact h.heap b hb
        · refine List.pairwise_cons.mpr ⟨?_, h.blocks⟩
          intro b hb
          have hapart := hblocks b hb
          rw [(h.heap b hb).2.1] at hapart
          exact hapart

/-- **`mem_get`** takes the first free chunk, or asks the heap. -/
theorem SlabOk.get (h : SlabOk size count c free taken) (malloc : Option Nat)
    (hfresh : c.mp.coldCount = 0 → ∀ a, malloc = some a → c.Fresh a) :
    ∃ c' free' taken', c.step (.get malloc) = some c' ∧ SlabOk size count c' free' taken' := by
  cases free with
  | nil =>
      obtain ⟨c', hstep, h'⟩ := h.get_heap malloc (hfresh h.cold)
      exact ⟨c', [], taken, hstep, h'⟩
  | cons a free =>
      obtain ⟨c', hstep, h'⟩ := h.get_chunk malloc
      exact ⟨c', free, a :: taken, hstep, h'⟩

/-- `mem_put` of a chunk that is out. -/
theorem SlabOk.put_chunk (h : SlabOk size count c free taken) {a : Nat} (ha : a ∈ taken) :
    ∃ c', c.step (.put (behind a)) = some c' ∧ SlabOk size count c' (a :: free) (taken.erase a) := by
  have hput := h.memPut_chunk ha
  -- no block of the heap goes
  have hnone : (c.heap.eraseP fun b => (none : Option Nat) = some b.1) = c.heap := by
    refine List.eraseP_of_forall_not ?_
    intro b _ heq
    cases of_decide_eq_true heq
  refine ⟨⟨{ c.mp with
      list := listAdd c.mp.list (.chunk a) .head
      hotCount := c.mp.hotCount - 1
      coldCount := c.mp.coldCount + 1 }, c.out.erase (behind a), c.heap⟩, ?_, ?_⟩
  · unfold Client.step
    simp only [hput, Option.map_some, hnone]
  · have hnotfree : a ∉ free := fun hf => (List.nodup_append.mp h.nodup).2.2 a hf a ha rfl
    have hlen := List.length_erase_of_mem ha
    have hpos := List.length_pos_of_mem ha
    refine { h with ring := h.ring.add (not_mem_ring hnotfree), cold := ?_, hot := ?_, partition := ?_, out := ?_ }
    · show c.mp.coldCount + 1 = (a :: free).length
      rw [h.cold, List.length_cons]
      omega
    · show c.mp.hotCount - 1 = (taken.erase a).length
      rw [h.hot, hlen]
      omega
    · have hback : (a :: free ++ taken.erase a).Perm (free ++ taken) :=
        List.perm_middle.symm.trans ((List.perm_cons_erase ha).symm.append_left free)
      exact hback.trans h.partition
    · have hmem : behind a ∈ taken.map behind := List.mem_map_of_mem ha
      have herase := h.out.erase (behind a)
      rw [List.erase_append_left _ hmem, ← List.map_erase behind_injective] at herase
      exact herase

/-- `mem_put` of a block of the heap. -/
theorem SlabOk.put_heap (h : SlabOk size count c free taken) {b : Nat × Nat} (hb : b ∈ c.heap) :
    ∃ c', c.step (.put b.1) = some c' ∧ SlabOk size count c' free taken := by
  have hput := h.memPut_heap hb
  refine ⟨⟨c.mp, c.out.erase b.1, c.heap.eraseP fun b' => some b.1 = some b'.1⟩, ?_, ?_⟩
  · unfold Client.step
    simp only [hput, Option.map_some]
  · have hsub : ∀ b' ∈ (c.heap.eraseP fun b' => some b.1 = some b'.1), b' ∈ c.heap :=
      fun b' hb' => List.mem_of_mem_eraseP hb'
    refine { h with out := ?_, heap := fun b' hb' => h.heap b' (hsub b' hb'), blocks := ?_ }
    · have hnot : b.1 ∉ taken.map behind := by
        intro hmem
        obtain ⟨a, ha, heq⟩ := List.mem_map.mp hmem
        exact h.heap_ne_chunk hb ha heq.symm
      have herase := h.out.erase b.1
      rw [List.erase_append_right _ hnot, ← map_eraseP_block] at herase
      exact herase
    · exact h.blocks.sublist (List.eraseP_sublist)

/-- **`mem_put`** links a chunk, or frees a block. -/
theorem SlabOk.put (h : SlabOk size count c free taken) {ptr : Nat} (hptr : ptr ∈ c.out) :
    ∃ c' free' taken', c.step (.put ptr) = some c' ∧ SlabOk size count c' free' taken' := by
  rcases h.mem_out hptr with ⟨a, ha, rfl⟩ | ⟨b, hb, rfl⟩
  · obtain ⟨c', hstep, h'⟩ := h.put_chunk ha
    exact ⟨c', a :: free, taken.erase a, hstep, h'⟩
  · obtain ⟨c', hstep, h'⟩ := h.put_heap hb
    exact ⟨c', free, taken, hstep, h'⟩

end Steps

/-! ## §4. A new pool. -/

/-- The loop of `mem_pool_new_fn` links the chunks in order. -/
theorem initChunks_ring {pool padded : Nat} (hpos : 0 < padded) :
    ∀ (n i : Nat) (L : Links ListNode),
      Ring L .head ((List.range i).map fun k => ListNode.chunk (pool + k * padded)) →
      Ring (initChunks pool padded n i L) .head
        ((List.range (i + n)).map fun k => ListNode.chunk (pool + k * padded)) := by
  intro n
  induction n with
  | zero =>
      intro i L hring
      exact hring
  | succ n ih =>
      intro i L hring
      -- the next chunk is not on the list yet
      have hnew : ListNode.chunk (pool + i * padded) ∉
          ListNode.head :: (List.range i).map fun k => ListNode.chunk (pool + k * padded) := by
        rw [List.mem_cons, not_or]
        refine ⟨ListNode.noConfusion, ?_⟩
        intro hmem
        obtain ⟨k, hk, heq⟩ := List.mem_map.mp hmem
        have hmul : k * padded = i * padded := by
          have hsum := ListNode.chunk.inj heq
          omega
        have hki := Nat.eq_of_mul_eq_mul_right hpos hmul
        have hlt := List.mem_range.mp hk
        omega
      have hinit : Ring (initListHead L (.chunk (pool + i * padded))) .head
          ((List.range i).map fun k => ListNode.chunk (pool + k * padded)) := by
        refine hring.congr ?_
        intro x hx
        refine initListHead_frame L ?_
        intro heq
        exact hnew (heq ▸ hx)
      have hadded := hinit.addTail hnew
      have hrange : (List.range i).map (fun k => ListNode.chunk (pool + k * padded))
          ++ [ListNode.chunk (pool + i * padded)]
          = (List.range (i + 1)).map fun k => ListNode.chunk (pool + k * padded) := by
        rw [List.range_succ, List.map_append]
        rfl
      rw [hrange] at hadded
      have hrest := ih (i + 1) _ hadded
      rw [Nat.add_right_comm, Nat.add_assoc] at hrest
      exact hrest

/-- A new pool has all of its chunks. -/
theorem slabOk_new {sizeofType count : Nat} (hsize : (sizeofType : Int) ≤ int32Max)
    (hcount : (count : Int) ≤ int32Max) {env : NewEnv}
    (hslab : ∀ pool, env.slab = some pool → pool + count * (sizeofType + padBoundary) ≤ 2 ^ 64)
    {mp : MemPool} (hnew : memPoolNewFn sizeofType count env = some mp) :
    SlabOk sizeofType count ⟨mp, [], []⟩ (chunks mp.pool (sizeofType + padBoundary) count) [] := by
  unfold memPoolNewFn at hnew
  split at hnew
  · cases hnew
  next hargs =>
  split at hnew
  · cases hnew
  -- a chunk of such a size does not wrap
  have hword : (sizeofType + padBoundary) % 2 ^ 64 = sizeofType + padBoundary := by
    unfold int32Max at hsize
    unfold padBoundary
    omega
  rw [hword] at hnew
  obtain ⟨pool, hpool, rfl⟩ := Option.map_eq_some_iff.mp hnew
  have hpos : 0 < sizeofType := by omega
  -- the `int` counters keep their arguments
  have hint : ∀ n : Nat, (n : Int) ≤ int32Max → wrap32 n = n := by
    intro n hn
    unfold int32Max at hn
    exact wrap32_eq (by omega) (by omega)
  have hreal := hint sizeofType hsize
  have hcold := hint count hcount
  have hlen : (chunks pool (sizeofType + padBoundary) count).length = count := by
    unfold chunks
    rw [List.length_map, List.length_range]
  constructor
  · exact hpos
  · rfl
  · dsimp only
    exact hreal
  · rfl
  · have hmemory := hslab pool hpool
    exact hmemory
  · have hpadded : 0 < sizeofType + padBoundary := by omega
    have hring : Ring (initChunks pool (sizeofType + padBoundary) count 0
        (initListHead (fun _ => ⟨.poison, .poison⟩) .head)) .head
        ((List.range (0 + count)).map fun k => ListNode.chunk (pool + k * (sizeofType + padBoundary))) :=
      initChunks_ring hpadded count 0 _ (ring_initListHead _ _)
    rw [Nat.zero_add] at hring
    unfold chunks
    rw [List.map_map]
    exact hring
  · dsimp only
    rw [hlen]
    exact hcold
  · rfl
  · rw [List.append_nil]
  · exact List.Perm.refl _
  · intro b hb
    cases hb
  · exact List.Pairwise.nil

/-! ## §5. Runs. -/

/-- **What callers may rely on.** -/
structure Conserved (sizeofType count : Nat) (c : Client) : Prop where
  counts : c.mp.hotCount + c.mp.coldCount = count
  /-- `free` hangs on the pool's list, `taken` are the chunks that callers hold. -/
  lists : ∃ free taken : List Nat, Ring c.mp.list .head (free.map .chunk) ∧
    c.mp.coldCount = free.length ∧
    (free ++ taken).Perm (chunks c.mp.pool (sizeofType + padBoundary) count) ∧
    c.out.Perm (taken.map behind ++ c.heap.map Prod.fst) ∧
    ∀ ptr ∈ c.out, ∀ hdr ∈ free, Apart ptr sizeofType hdr padBoundary
  apart : c.out.Pairwise fun p q => Apart p sizeofType q sizeofType
  room : ∀ ptr ∈ c.out,
    (∃ hdr ∈ chunks c.mp.pool (sizeofType + padBoundary) count, hdr + padBoundary = ptr ∧
      ptr + sizeofType ≤ hdr + (sizeofType + padBoundary) ∧
      hdr + (sizeofType + padBoundary) ≤ c.mp.poolEnd) ∨
    ∃ b ∈ c.heap, b.1 = ptr ∧ sizeofType ≤ b.2
  freed : ∀ b ∈ c.heap, memPut c.mp b.1 = some (c.mp, some b.1)

theorem SlabOk.conserved {size count : Nat} {c : Client} {free taken : List Nat}
    (h : SlabOk size count c free taken) : Conserved size count c := by
  constructor
  · have hlen := h.partition.length_eq
    unfold chunks at hlen
    rw [List.length_append, List.length_map, List.length_range] at hlen
    rw [h.hot, h.cold]
    omega
  · exact ⟨free, taken, h.ring, h.cold, h.partition, h.out, fun ptr hptr hdr hhdr => h.header_apart hptr hhdr⟩
  · exact h.out_apart
  · intro ptr hptr
    rcases h.mem_out hptr with ⟨a, ha, rfl⟩ | ⟨b, hb, rfl⟩
    · refine Or.inl ⟨a, h.mem_taken ha, rfl, ?_, ?_⟩
      · unfold behind
        omega
      · rw [h.ends]
        exact (chunk_inside (h.mem_taken ha)).2
    · exact Or.inr ⟨b, hb, rfl, Nat.le_of_eq (h.heap b hb).2.1.symm⟩
  · intro b hb
    exact h.memPut_heap hb

/-- One call. -/
theorem memPoolClient_step {size count : Nat} (c : Client) (o : PoolOp)
    (hc : ∃ free taken, SlabOk size count c free taken) (ho : memPoolClient.allowed c o) :
    ∃ c', memPoolClient.step c o = some c' ∧ ∃ free taken, SlabOk size count c' free taken := by
  obtain ⟨free, taken, hok⟩ := hc
  cases o with
  | get malloc =>
      obtain ⟨c', free', taken', hstep, hok'⟩ := hok.get malloc ho
      exact ⟨c', hstep, free', taken', hok'⟩
  | put ptr =>
      obtain ⟨c', free', taken', hstep, hok'⟩ := hok.put ho
      exact ⟨c', hstep, free', taken', hok'⟩

/-- **MEMORY POOL CONSERVATION.**  Whatever callers get and put, putting only
what they hold, nothing is aborted, no chunk is lost and none is shared. -/
theorem mem_pool_conservation (sizeofType count : Nat) (hsize : (sizeofType : Int) ≤ int32Max)
    (hcount : (count : Int) ≤ int32Max) (env : NewEnv)
    (hslab : ∀ pool, env.slab = some pool → pool + count * (sizeofType + padBoundary) ≤ 2 ^ 64)
    (mp : MemPool) (hnew : memPoolNewFn sizeofType count env = some mp) (ops : List PoolOp)
    (hlegal : memPoolClient.Legal ⟨mp, [], []⟩ ops) :
    ∃ c, memPoolClient.run ⟨mp, [], []⟩ ops = some c ∧ Conserved sizeofType count c := by
  have hstart : ∃ free taken, SlabOk sizeofType count ⟨mp, [], []⟩ free taken :=
    ⟨_, _, slabOk_new hsize hcount hslab hnew⟩
  obtain ⟨c, hrun, free, taken, hok⟩ := memPoolClient.run_inv memPoolClient_step ops _ hstart hlegal
  exact ⟨c, hrun, hok.conserved⟩

instance (c : Client) (a : Nat) : Decidable (c.Fresh a) := inferInstanceAs (Decidable (_ ∧ _ ∧ _))

theorem allowed_get_iff (c : Client) (malloc : Option Nat) :
    (c.mp.coldCount = 0 → ∀ a ∈ malloc.toList, c.Fresh a) ↔ memPoolClient.allowed c (.get malloc) := by
  show _ ↔ (c.mp.coldCount = 0 → ∀ a, malloc = some a → c.Fresh a)
  simp only [Option.mem_toList]

instance (c : Client) : ∀ o, Decidable (memPoolClient.allowed c o)
  | .get malloc => decidable_of_iff _ (allowed_get_iff c malloc)
  | .put ptr => inferInstanceAs (Decidable (ptr ∈ c.out))

/-- Two chunks of 24 bytes at 4096, and a third block from the heap; the heap
block and the first chunk are put back, and a chunk is got again. -/
theorem mem_pool_conservation_three : ∃ mp c, memPoolNewFn 8 2 ⟨true, some 4096⟩ = some mp ∧
    memPoolClient.run ⟨mp, [], []⟩
      [.get none, .get none, .get (some 512), .put 512, .put 4112, .get (some 512)] = some c ∧
    Conserved 8 2 c := by
  have hslab : ∀ pool, (⟨true, some 4096⟩ : NewEnv).slab = some pool →
      pool + 2 * (8 + padBoundary) ≤ 2 ^ 64 := by
    intro pool hpool
    cases hpool
    decide
  obtain ⟨c, hrun, hok⟩ := mem_pool_conservation 8 2 (by decide) (by decide) ⟨true, some 4096⟩ hslab _ rfl
    [.get none, .get none, .get (some 512), .put 512, .put 4112, .get (some 512)]
    (memPoolClient.legal_of_check (by decide +kernel))
  exact ⟨_, c, rfl, hrun, hok⟩

end LzLib.MemPool
