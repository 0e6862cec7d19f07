/-
  LzLib.Iobuf.Pages
  ─────────────────
  **HOW AN ARENA IS CUT INTO PAGES.**

  The sizes of a pool are `size_t`, but `__iobuf_arena_init_iobufs` counts the
  pages and the bytes behind `mem_base` in `int`s.  Round `i` of its loop
  therefore stores `mem_base + wrap32 (i * page_size)`
  (`initIobufsLoop_pages`), and the layout is right exactly when neither the
  number of pages nor the offset of the last one is beyond `INT_MAX`.

  Main result: `arena_layout_iff`, for every pool, arena and pair of sizes.
-/
import LzLib.Iobuf.PoolDef

namespace LzLib.Iobuf

open LzLib.Foundation

/-! ## §1. The loop. -/

/-- The first `n` iobufs have the pointers that the loop makes. -/
def Stored (pageSize : Nat) (memBase : Int) (n : Nat) (bufs : List IobufData) : Prop :=
  ∀ (k : Nat) (d : IobufData), k < n → bufs[k]? = some d → d.ptr = memBase + wrap32 (k * pageSize)

/-- One round stores one pointer more. -/
theorem Stored.modify {pageSize : Nat} {memBase : Int} {i : Nat} {bufs : List IobufData}
    (h : Stored pageSize memBase i bufs) : Stored pageSize memBase (i + 1)
      (bufs.modify i fun d => { d with ptr := memBase + wrap32 (i * pageSize) }) := by
  intro k d hk hd
  rw [List.getElem?_modify] at hd
  obtain ⟨d₀, hd₀, rfl⟩ := Option.map_eq_some_iff.mp hd
  by_cases hik : i = k
  · rw [if_pos hik, hik]
  · rw [if_neg hik]
    exact h k d₀ (by omega) hd₀

/-- The running offset after one round more. -/
theorem offset_step (pageSize i : Nat) :
    wrap32 (wrap32 (i * pageSize) + pageSize) = wrap32 ((i + 1 : Nat) * pageSize) := by
  rw [wrap32_add]
  push_cast
  rw [Int.add_mul, Int.one_mul]

/-- **The loop of `__iobuf_arena_init_iobufs`** does not touch the base, adds
its rounds to `passive_cnt`, and stores a pointer in each round. -/
theorem initIobufsLoop_pages (pageSize : Nat) (a : Addr) :
    ∀ (n i : Nat) (bufs : List IobufData) (A : Arena) (L : Links IobufNode),
      Stored pageSize A.memBase i bufs → A.passiveCnt + n ≤ int32Max →
      ∃ A' L' bufs', initIobufsLoop pageSize a n i (wrap32 (i * pageSize)) bufs A L = some (A', L') ∧
        A'.iobufs = some bufs' ∧ bufs'.length = bufs.length ∧
        A'.passiveCnt = A.passiveCnt + n ∧ Stored pageSize A.memBase (i + n) bufs' := by
  intro n
  induction n with
  | zero =>
      intro i bufs A L hstored _
      exact ⟨_, _, bufs, rfl, rfl, rfl, (Int.add_zero _).symm, hstored⟩
  | succ n ih =>
      intro i bufs A L hstored hfits
      have hinc : incInt A.passiveCnt = some (A.passiveCnt + 1) := by
        unfold incInt
        rw [if_pos (by omega)]
      obtain ⟨A', L', bufs', hrun, hiobufs, hlen, hcnt, hpages⟩ :=
        ih (i + 1) (bufs.modify i fun d => { d with ptr := A.memBase + wrap32 (i * pageSize) })
          { A with passiveCnt := A.passiveCnt + 1 }
          (listAdd (initListHead L (.iobuf ⟨a, i⟩)) (.iobuf ⟨a, i⟩) (.head (a, .passive)))
          hstored.modify (by
            show A.passiveCnt + 1 + n ≤ int32Max
            omega)
      refine ⟨A', L', bufs', ?_, hiobufs, ?_, ?_, ?_⟩
      · unfold initIobufsLoop
        simp only [hinc, offset_step]
        exact hrun
      · rw [hlen, List.length_modify]
      · rw [hcnt]
        push_cast
        omega
      · have hsum : i + 1 + n = i + (n + 1) := by omega
        rw [hsum] at hpages
        exact hpages

/-! ## §2. Pages. -/

/-- **The pages of an arena**: as many as fit, one behind the other. -/
structure Carved (arenaSize pageSize : Nat) (memBase : Int) (bufs : List IobufData) : Prop where
  count : bufs.length = arenaSize / pageSize
  ptr : ∀ (i : Nat) (d : IobufData), bufs[i]? = some d → d.ptr = memBase + i * pageSize
  apart : ∀ (i j : Nat) (d d' : IobufData), i ≠ j → bufs[i]? = some d → bufs[j]? = some d' →
    d.ptr + pageSize ≤ d'.ptr ∨ d'.ptr + pageSize ≤ d.ptr
  inside : ∀ d ∈ bufs, memBase ≤ d.ptr ∧ d.ptr + pageSize ≤ memBase + arenaSize

/-- What page `i` leaves for page `j`. -/
theorem page_behind (pageSize : Nat) {i j : Nat} (h : i < j) : (i : Int) * pageSize + pageSize ≤ j * pageSize := by
  have hmul : (i + 1) * pageSize ≤ j * pageSize := Nat.mul_le_mul_right pageSize h
  rw [Nat.succ_mul] at hmul
  exact_mod_cast hmul

/-- Pages at the right addresses are apart and inside. -/
theorem carved_of_ptr {arenaSize pageSize : Nat} {memBase : Int} {bufs : List IobufData}
    (hcount : bufs.length = arenaSize / pageSize)
    (hptr : ∀ (i : Nat) (d : IobufData), bufs[i]? = some d → d.ptr = memBase + i * pageSize) :
    Carved arenaSize pageSize memBase bufs := by
  refine ⟨hcount, hptr, ?_, ?_⟩
  · intro i j d d' hne hd hd'
    rw [hptr i d hd, hptr j d' hd']
    rcases Nat.lt_or_gt_of_ne hne with hlt | hlt
    · have hpage := page_behind pageSize hlt
      omega
    · have hpage := page_behind pageSize hlt
      omega
  · intro d hd
    obtain ⟨i, hi⟩ := List.mem_iff_getElem?.mp hd
    obtain ⟨hlt, -⟩ := List.getElem?_eq_some_iff.mp hi
    rw [hcount] at hlt
    -- the last page ends where the arena does, or before
    have hpage := page_behind pageSize hlt
    have hall : arenaSize / pageSize * pageSize ≤ arenaSize := Nat.div_mul_le_self arenaSize pageSize
    have hallInt : ((arenaSize / pageSize : Nat) : Int) * pageSize ≤ arenaSize := by exact_mod_cast hall
    have hstart : (0 : Int) ≤ i * pageSize := by exact_mod_cast Nat.zero_le (i * pageSize)
    rw [hptr i d hi]
    omega

/-- **A page layout**: what `__iobuf_arena_init_iobufs` is to make of an arena. -/
def PageLayout (p : Pool) (a : Addr) (memBase : Int) (r : Option Pool) : Prop :=
  ∃ p' A bufs, r = some p' ∧ p'.heap a = some A ∧ A.iobufs = some bufs ∧
    Carved p.arenaSize p.pageSize memBase bufs ∧ A.passiveCnt = bufs.length ∧ 1 ≤ A.passiveCnt

/-- Neither the number of pages nor the offset of the last is beyond `INT_MAX`. -/
def IntsSuffice (p : Pool) : Prop :=
  ((p.arenaSize / p.pageSize : Nat) : Int) ≤ int32Max ∧
    (((p.arenaSize / p.pageSize - 1) * p.pageSize : Nat) : Int) ≤ int32Max

section Layout

variable {p : Pool} {a : Addr} {memBase : Int}

/-- The sizes that `iobuf_pool_new` accepts give at least one page. -/
theorem page_pos (hpos : 0 < p.pageSize) (hle : p.pageSize ≤ p.arenaSize) :
    1 ≤ p.arenaSize / p.pageSize := (Nat.one_le_div_iff hpos).mpr hle

/-- The number of pages as an `int`. -/
theorem Pool.iobufCnt_wrap (hpos : 0 < p.pageSize) :
    p.iobufCnt = some (wrap32 (p.arenaSize / p.pageSize : Nat)) := by
  have hne : ¬ p.pageSize = 0 := Nat.ne_of_gt hpos
  unfold Pool.iobufCnt
  rw [if_neg hne]

/-- The `int` that the number of pages is stored in. -/
def Pool.pagesInt (p : Pool) : Nat := (wrap32 (p.arenaSize / p.pageSize : Nat)).toNat

theorem pagesInt_le : (p.pagesInt : Int) ≤ int32Max := by
  have hhigh := wrap32_lt (p.arenaSize / p.pageSize : Nat)
  unfold Pool.pagesInt int32Max
  omega

theorem pagesInt_eq_iff : p.pagesInt = p.arenaSize / p.pageSize ↔
    ((p.arenaSize / p.pageSize : Nat) : Int) ≤ int32Max := by
  constructor
  · intro heq
    rw [← heq]
    exact pagesInt_le
  · intro hle
    unfold int32Max at hle
    have hnonneg : (0 : Int) ≤ (p.arenaSize / p.pageSize : Nat) := Int.natCast_nonneg _
    have hlow : (-2 ^ 31 : Int) ≤ (p.arenaSize / p.pageSize : Nat) := Int.le_trans (by decide) hnonneg
    have hhigh : ((p.arenaSize / p.pageSize : Nat) : Int) < 2 ^ 31 := Int.lt_of_le_sub_one hle
    unfold Pool.pagesInt
    rw [wrap32_eq hlow hhigh, Int.toNat_natCast]

/-- The arena has as many iobufs as the `int` says, and each the pointer its
round stored. -/
theorem initIobufs_stored (hpos : 0 < p.pageSize) (a : Addr) (memBase : Int) :
    ∃ p' A bufs, iobufArenaInitIobufs (p.freshArena a memBase) a { Arena.zero with memBase := memBase } true
        = some p' ∧
      p'.heap a = some A ∧ A.iobufs = some bufs ∧ bufs.length = p.pagesInt ∧
      A.passiveCnt = bufs.length ∧ Stored p.pageSize memBase bufs.length bufs := by
  have hcnt : (p.freshArena a memBase).iobufCnt = some (wrap32 (p.arenaSize / p.pageSize : Nat)) :=
    Pool.iobufCnt_wrap hpos
  -- before the first round nothing is stored
  have hnone : Stored p.pageSize memBase 0 (List.replicate p.pagesInt ⟨0, 0⟩) := by
    intro k d hk
    omega
  have hfits : Arena.zero.passiveCnt + p.pagesInt ≤ int32Max := by
    have hle := pagesInt_le (p := p)
    show 0 + _ ≤ int32Max
    omega
  obtain ⟨A, L, bufs, hrun, hiobufs, hlen, hpassive, hstored⟩ :=
    initIobufsLoop_pages p.pageSize a p.pagesInt 0 (List.replicate p.pagesInt ⟨0, 0⟩)
      { Arena.zero with memBase := memBase } (p.freshArena a memBase).blinks hnone hfits
  rw [List.length_replicate] at hlen
  have hzero : wrap32 ((0 : Nat) * p.pageSize : Int) = 0 := by
    rw [Int.natCast_zero, Int.zero_mul]
    rfl
  rw [hzero] at hrun
  refine ⟨{ p.freshArena a memBase with
    blinks := L, heap := Function.update (p.freshArena a memBase).heap a (some A) }, A, bufs,
    ?_, ?_, hiobufs, hlen, ?_, ?_⟩
  · unfold Pool.pagesInt at hrun
    have hsize : (p.freshArena a memBase).pageSize = p.pageSize := rfl
    unfold iobufArenaInitIobufs
    simp only [hcnt, hsize, if_true, hrun]
  · exact Function.update_self ..
  · rw [hpassive, hlen]
    exact Int.zero_add _
  · rw [Nat.zero_add] at hstored
    rw [hlen]
    exact hstored

/-- Without memory for the iobufs nothing happens. -/
theorem initIobufs_failed (hpos : 0 < p.pageSize) {A : Arena} :
    iobufArenaInitIobufs p a A false = some p := by
  unfold iobufArenaInitIobufs
  rw [Pool.iobufCnt_wrap hpos]
  rfl

/-- **Sizes that fit are laid out.** -/
theorem layout_of_fits (hpos : 0 < p.pageSize) (hle : p.pageSize ≤ p.arenaSize) (h : IntsSuffice p) :
    PageLayout p a memBase
      (iobufArenaInitIobufs (p.freshArena a memBase) a { Arena.zero with memBase := memBase } true) := by
  obtain ⟨p', A, bufs, hrun, hheap, hiobufs, hlen, hpassive, hstored⟩ := initIobufs_stored hpos a memBase
  rw [pagesInt_eq_iff.mpr h.1] at hlen
  refine ⟨p', A, bufs, hrun, hheap, hiobufs, carved_of_ptr hlen ?_, hpassive, ?_⟩
  · intro i d hd
    obtain ⟨hlt, -⟩ := List.getElem?_eq_some_iff.mp hd
    -- no page starts behind the last one
    have hmul : i * p.pageSize ≤ (p.arenaSize / p.pageSize - 1) * p.pageSize :=
      Nat.mul_le_mul_right _ (by omega)
    have hoffset : (((p.arenaSize / p.pageSize - 1) * p.pageSize : Nat) : Int) ≤ int32Max := h.2
    unfold int32Max at hoffset
    have hwrap : wrap32 ((i * p.pageSize : Nat) : Int) = ((i * p.pageSize : Nat) : Int) :=
      wrap32_eq (by omega) (by omega)
    push_cast at hwrap
    rw [hstored i d hlt hd, hwrap]
  · rw [hpassive, hlen]
    exact_mod_cast page_pos hpos hle

/-- **Only sizes that fit are laid out.** -/
theorem fits_of_layout (hpos : 0 < p.pageSize) (hle : p.pageSize ≤ p.arenaSize)
    (h : PageLayout p a memBase
      (iobufArenaInitIobufs (p.freshArena a memBase) a { Arena.zero with memBase := memBase } true)) :
    IntsSuffice p := by
  obtain ⟨p', A, bufs, hrun, hheap, hiobufs, hlen, -, hstored⟩ := initIobufs_stored hpos a memBase
  obtain ⟨p'', A', bufs', hrun', hheap', hiobufs', hcarved, -, -⟩ := h
  cases hrun.symm.trans hrun'
  cases hheap.symm.trans hheap'
  cases hiobufs.symm.trans hiobufs'
  have hcount := hcarved.count
  have hpage := page_pos hpos hle
  rw [hlen] at hcount
  refine ⟨pagesInt_eq_iff.mp hcount, ?_⟩
  -- the last iobuf has its pointer, so its offset did not wrap
  have hlast : p.arenaSize / p.pageSize - 1 < bufs.length := by omega
  obtain ⟨d, hd⟩ : ∃ d, bufs[p.arenaSize / p.pageSize - 1]? = some d :=
    ⟨_, List.getElem?_eq_getElem hlast⟩
  have hptr := hcarved.ptr _ d hd
  rw [hstored _ d hlast hd] at hptr
  have hhigh := wrap32_lt (((p.arenaSize / p.pageSize - 1 : Nat) : Int) * p.pageSize)
  unfold int32Max
  push_cast
  omega

end Layout

/-- **PAGE LAYOUT OF AN ARENA.**  For any sizes that `iobuf_pool_new` accepts,
`__iobuf_arena_init_iobufs` cuts a new arena into all of its pages, one behind
the other, if and only if there is memory for the iobufs and neither the number
of pages nor the offset of the last page is beyond `INT_MAX`. -/
theorem arena_layout_iff (p : Pool) (a : Addr) (memBase : Int) (calloc : Bool)
    (hpos : 0 < p.pageSize) (hle : p.pageSize ≤ p.arenaSize) :
    PageLayout p a memBase
      (iobufArenaInitIobufs (p.freshArena a memBase) a { Arena.zero with memBase := memBase } calloc) ↔
    calloc = true ∧ IntsSuffice p := by
  cases calloc with
  | true =>
      constructor
      · intro h
        exact ⟨rfl, fits_of_layout hpos hle h⟩
      · intro h
        exact layout_of_fits hpos hle h.2
  | false =>
      refine ⟨?_, fun h => absurd h.1 (by decide)⟩
      -- without memory for the iobufs the arena has none
      rintro ⟨p', A, bufs, hrun, hheap, hiobufs, -⟩
      have hsize : 0 < (p.freshArena a memBase).pageSize := hpos
      rw [initIobufs_failed hsize, Option.some.injEq] at hrun
      have hsame : p'.heap a = some { Arena.zero with memBase := memBase } := by
        rw [← hrun]
        exact Function.update_self ..
      rw [hsame, Option.some.injEq] at hheap
      rw [← hheap] at hiobufs
      cases hiobufs

/-- The pool of `iobuf_pool_new` before its first arena. -/
def bare (arenaSize pageSize : Nat) : Pool :=
  { pageSize := pageSize, arenaSize := arenaSize, arenaCnt := 0
    alinks := initListHead (initListHead (initListHead (fun _ => ⟨.poison, .poison⟩) (.head .arenas))
      (.head .filled)) (.head .purge)
    blinks := fun _ => ⟨.poison, .poison⟩, heap := fun _ => none, unmapped := [], puts := [] }

/-- Four pages of 4096 bytes. -/
theorem arena_layout_four : PageLayout (bare 16384 4096) 7 65536
    (iobufArenaInitIobufs ((bare 16384 4096).freshArena 7 65536) 7 { Arena.zero with memBase := 65536 } true) :=
  (arena_layout_iff (bare 16384 4096) 7 65536 true (by decide) (by decide)).mpr ⟨rfl, by decide, by decide⟩

/-- **Three pages of 1 GiB**: the third iobuf points `2 ^ 31` bytes in front of
the arena. -/
theorem third_page_in_front :
    iobufPoolNew (3 * 2 ^ 30) (2 ^ 30) true ⟨none, 0, false⟩ = some (some (bare (3 * 2 ^ 30) (2 ^ 30))) ∧
    ∃ p' A bufs d, iobufArenaInitIobufs ((bare (3 * 2 ^ 30) (2 ^ 30)).freshArena 7 (2 ^ 40)) 7
        { Arena.zero with memBase := 2 ^ 40 } true = some p' ∧
      p'.heap 7 = some A ∧ A.iobufs = some bufs ∧ bufs[2]? = some d ∧
      d.ptr = 2 ^ 40 - 2 ^ 31 ∧ d.ptr ≠ 2 ^ 40 + 2 * 2 ^ 30 := by
  refine ⟨rfl, ?_⟩
  obtain ⟨p', A, bufs, hrun, hheap, hiobufs, hlen, -, hstored⟩ :=
    initIobufs_stored (p := bare (3 * 2 ^ 30) (2 ^ 30)) (by decide) 7 (2 ^ 40)
  have hlast : 2 < bufs.length := by
    rw [hlen]
    decide
  have hptr := hstored 2 bufs[2] hlast (List.getElem?_eq_getElem hlast)
  have hwrap : (2 ^ 40 : Int) + wrap32 ((2 : Nat) * (2 ^ 30 : Nat)) = 2 ^ 40 - 2 ^ 31 := by decide
  have hfront : bufs[2].ptr = 2 ^ 40 - 2 ^ 31 := hptr.trans hwrap
  refine ⟨p', A, bufs, bufs[2], hrun, hheap, hiobufs, List.getElem?_eq_getElem hlast, hfront, ?_⟩
  rw [hfront]
  decide

end LzLib.Iobuf
