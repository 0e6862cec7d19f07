/-
  LzLib.Iobuf.Arenas
  ──────────────────
  **ARENAS COME AND GO.**

  A pool grows by an arena taken back from `purge` or by a new one
  (`iobufPoolAddArena_spec`), and shrinks by the arenas on `purge`
  (`iobufPoolPrune_spec`).  Only arenas without an active iobuf are ever
  destroyed, so the assertion `ref == 0` holds of every iobuf that goes.
-/
import LzLib.Iobuf.PoolInvariant

namespace LzLib.Iobuf

open LzLib.Foundation

/-! ## §1. A new arena. -/

/-- No iobuf of the array counts a reference. -/
def NoRefs (bufs : List IobufData) : Prop :=
  ∀ (k : Nat) (d : IobufData), bufs[k]? = some d → d.ref = 0

/-- The loop that sets up the iobufs puts each on the passive list. -/
theorem initIobufsLoop_spec (pageSize : Nat) {a : Addr} (used : Addr × Side → Prop)
    (hused : used (a, .passive)) :
    ∀ (n i : Nat) (offset : Int) (bufs : List IobufData) (A : Arena) (L : Links IobufNode)
      (bl : Addr × Side → List IobufPtr),
      Rings L IobufNode.head IobufNode.iobuf used bl →
      (∀ j, used j → ∀ k, i ≤ k → (⟨a, k⟩ : IobufPtr) ∉ bl j) →
      NoRefs bufs →
      A.passiveCnt + n ≤ int32Max →
      ∃ (A' : Arena) (L' : Links IobufNode) (bufs' : List IobufData) (xs : List IobufPtr),
        initIobufsLoop pageSize a n i offset bufs A L = some (A', L') ∧
        A' = { A with iobufs := some bufs', passiveCnt := A.passiveCnt + n } ∧
        bufs'.length = bufs.length ∧ NoRefs bufs' ∧
        xs.Perm ((List.range' i n).map (IobufPtr.mk a)) ∧
        Rings L' IobufNode.head IobufNode.iobuf used
          (Function.update bl (a, .passive) (xs ++ bl (a, .passive)))
  | 0, i, offset, bufs, A, L, bl, R, _, hzero, _ => by
      refine ⟨_, _, bufs, [], rfl, by simp, rfl, hzero, by simp, ?_⟩
      rw [List.nil_append, Function.update_eq_self]
      exact R
  | n + 1, i, offset, bufs, A, L, bl, R, hfresh, hzero, hfits => by
      have hinc : incInt A.passiveCnt = some (A.passiveCnt + 1) := by
        rw [incInt, if_pos (by omega)]
      have R₁ := (R.initNode (b := ⟨a, i⟩) fun j hj => hfresh j hj i (Nat.le_refl i)).add hused
        fun j hj => hfresh j hj i (Nat.le_refl i)
      -- the iobufs of the remaining rounds are still on no list
      have hfresh₁ : ∀ j, used j → ∀ k, i + 1 ≤ k →
          (⟨a, k⟩ : IobufPtr) ∉ Function.update bl (a, .passive) (⟨a, i⟩ :: bl (a, .passive)) j := by
        intro j hj k hk
        by_cases hjp : j = (a, .passive)
        · subst hjp
          rw [Function.update_self, List.mem_cons, IobufPtr.mk.injEq, not_or]
          exact ⟨by omega, hfresh _ hj k (by omega)⟩
        · rw [Function.update_of_ne hjp]
          exact hfresh j hj k (by omega)
      have hzero₁ : NoRefs (bufs.modify i fun d => { d with ptr := A.memBase + offset }) := by
        intro k d hd
        rw [List.getElem?_modify] at hd
        obtain ⟨d₀, hd₀, rfl⟩ := Option.map_eq_some_iff.mp hd
        have href := hzero k d₀ hd₀
        by_cases hik : i = k
        · simp only [if_pos hik]
          exact href
        · simp only [if_neg hik]
          exact href
      obtain ⟨A', L', bufs', xs, hrun, hA', hlen, hz, hperm, R'⟩ :=
        initIobufsLoop_spec pageSize used hused n (i + 1) (wrap32 (offset + pageSize))
          (bufs.modify i fun d => { d with ptr := A.memBase + offset })
          { A with passiveCnt := A.passiveCnt + 1 } _ _ R₁ hfresh₁ hzero₁ (by
            show A.passiveCnt + 1 + n ≤ int32Max
            omega)
      refine ⟨A', L', bufs', xs ++ [⟨a, i⟩], ?_, ?_, ?_, hz, ?_, ?_⟩
      · simp only [initIobufsLoop, hinc]
        exact hrun
      · rw [hA']
        simp only [Arena.mk.injEq, true_and]
        push_cast
        omega
      · rw [hlen, List.length_modify]
      · rw [List.range'_succ, List.map_cons]
        exact (hperm.append_right _).trans (List.perm_append_singleton _ _)
      · rw [Function.update_idem, Function.update_self] at R'
        rw [List.append_assoc]
        exact R'

section NewArena

variable {N : Nat} {p : Pool} {refs : IobufPtr → Nat} {al : PoolList → List Addr}
  {bl : Addr × Side → List IobufPtr} {a : Addr}

theorem PoolOk.not_mem_of_dead (h : PoolOk N p refs al bl) (hnew : p.heap a = none) (l : PoolList) :
    a ∉ al l := fun hmem => (h.live a).mpr ⟨l, hmem⟩ hnew

/-- The lists after `INIT_LIST_HEAD` of the two heads of a new arena. -/
def withArena (bl : Addr × Side → List IobufPtr) (a : Addr) : Addr × Side → List IobufPtr :=
  Function.update (Function.update bl (a, .active) []) (a, .passive) []

theorem withArena_other {i : Addr × Side} (hi : i.1 ≠ a) : withArena bl a i = bl i := by
  have h₁ : i ≠ (a, .passive) := fun e => hi (congrArg Prod.fst e)
  have h₂ : i ≠ (a, .active) := fun e => hi (congrArg Prod.fst e)
  rw [withArena, Function.update_of_ne h₁, Function.update_of_ne h₂]

theorem PoolOk.freshArena_iobufRings (h : PoolOk N p refs al bl) (hnew : p.heap a = none) (map : Int) :
    Rings (p.freshArena a map).blinks IobufNode.head IobufNode.iobuf
      (fun i => i.1 = a ∨ p.heap i.1 ≠ none) (withArena bl a) := by
  have R₁ := h.iobufRings.initHead (a, .active)
  have R₂ := R₁.initHead (a, .passive)
  refine R₂.restrict ?_ fun _ _ => rfl
  rintro ⟨a', s⟩ (rfl | hlive)
  · cases s
    · exact Or.inr (Or.inl rfl)
    · exact Or.inl rfl
  · exact Or.inr (Or.inr hlive)

theorem PoolOk.freshArena_arenaRings (h : PoolOk N p refs al bl) (hnew : p.heap a = none) (map : Int) :
    Rings (p.freshArena a map).alinks ArenaNode.head ArenaNode.arena (fun _ => True) al :=
  h.arenaRings.initNode fun l _ => h.not_mem_of_dead hnew l

/-- The invariant does not see the links of nodes that hang on no live head. -/
theorem PoolOk.relink (h : PoolOk N p refs al bl) {p' : Pool} (hsize : p'.pageSize = p.pageSize)
    (hasize : p'.arenaSize = p.arenaSize) (hcnt : p'.arenaCnt = p.arenaCnt) (hheap : p'.heap = p.heap)
    (hal : Rings p'.alinks ArenaNode.head ArenaNode.arena (fun _ => True) al)
    (hbl : Rings p'.blinks IobufNode.head IobufNode.iobuf (fun i => p.heap i.1 ≠ none) bl) :
    PoolOk N p' refs al bl where
  pageSize := by rw [hsize]; exact h.pageSize
  pages := by rw [hsize, hasize]; exact h.pages
  pos := h.pos
  fits := h.fits
  arenaRings := hal
  iobufRings := by rw [hheap]; exact hbl
  live := by rw [hheap]; exact h.live
  arenaCnt := by rw [hcnt]; exact h.arenaCnt
  arena := by rw [hheap]; exact h.arena
  filled := by rw [hheap]; exact h.filled
  purge := by rw [hheap]; exact h.purge
  held := by rw [hheap]; exact h.held

/-- **A failed allocation** leaves no trace: the arena without iobufs goes
again. -/
theorem PoolOk.freshArena_destroy (h : PoolOk N p refs al bl) (hnew : p.heap a = none) (map : Int) :
    ∃ p', iobufArenaDestroy (p.freshArena a map) a = some p' ∧ p'.puts = p.puts ∧
      PoolOk N p' refs al bl := by
  have hcnt : (p.freshArena a map).iobufCnt = some (N : Int) := h.iobufCnt
  have hheap : (p.freshArena a map).heap a = some { Arena.zero with memBase := map } :=
    Function.update_self ..
  have hback : Function.update (p.freshArena a map).heap a none = p.heap := by
    show Function.update (Function.update p.heap a _) a none = p.heap
    rw [Function.update_idem, ← hnew, Function.update_eq_self]
  have hdestroy : ∃ unmapped, iobufArenaDestroy (p.freshArena a map) a
      = some { p.freshArena a map with
          unmapped := unmapped, heap := Function.update (p.freshArena a map).heap a none } := by
    simp only [iobufArenaDestroy, hheap, iobufArenaDestroyIobufs, hcnt]
    exact ⟨_, rfl⟩
  obtain ⟨unmapped, hrun⟩ := hdestroy
  refine ⟨_, hrun, rfl, ?_⟩
  refine h.relink rfl rfl rfl hback (h.freshArena_arenaRings hnew map) ?_
  refine (h.freshArena_iobufRings hnew map).restrict (fun i hi => Or.inr hi) ?_
  intro i hi
  refine (withArena_other ?_).symm
  rintro rfl
  exact hi hnew

/-- The lists after a new arena has been offered. -/
def offered (al : PoolList → List Addr) (a : Addr) : PoolList → List Addr :=
  Function.update al .arenas (al .arenas ++ [a])

theorem mem_offered {a' : Addr} {l : PoolList} :
    a' ∈ offered al a l ↔ a' ∈ al l ∨ (a' = a ∧ l = .arenas) := by
  unfold offered
  by_cases hl : l = .arenas
  · subst hl
    simp
  · rw [Function.update_of_ne hl]
    simp [hl]

/-- An arena whose iobufs are all passive, and that nobody has a reference to. -/
theorem ArenaOk.unused {A : Arena} {bufs : List IobufData} {xs : List IobufPtr}
    (hactive : A.activeCnt = 0) (hpassive : A.passiveCnt = N) (hbufs : A.iobufs = some bufs)
    (hlen : bufs.length = N) (hzero : NoRefs bufs)
    (hxs : xs.Perm ((List.range N).map (IobufPtr.mk a)))
    (hnoref : ∀ b : IobufPtr, b.arena = a → refs b = 0) : ArenaOk N refs a A [] xs where
  activeCnt := by
    rw [hactive]
    rfl
  passiveCnt := by rw [hpassive, hxs.length_eq, List.length_map, List.length_range]
  partition := hxs
  counted := by
    refine ⟨bufs, hbufs, hlen, ?_⟩
    intro i d hd
    rw [hzero i d hd, hnoref ⟨a, i⟩ rfl]
    rfl
  active_iff := by
    intro b hb
    rw [List.nil_append, hxs.mem_iff, List.mem_map] at hb
    obtain ⟨i, _, rfl⟩ := hb
    simp [hnoref ⟨a, i⟩ rfl]

/-- **A new arena joins**: the pool with one arena more, at the end of
`arenas`, all of its iobufs passive and without references. -/
theorem PoolOk.joinArena (h : PoolOk N p refs al bl) (hnew : p.heap a = none) {p' : Pool} {A : Arena}
    {bufs : List IobufData} {xs : List IobufPtr}
    (hsize : p'.pageSize = p.pageSize) (hasize : p'.arenaSize = p.arenaSize)
    (hcnt : p'.arenaCnt = p.arenaCnt + 1) (hheap : p'.heap = Function.update p.heap a (some A))
    (hal : Rings p'.alinks ArenaNode.head ArenaNode.arena (fun _ => True) (offered al a))
    (hbl : Rings p'.blinks IobufNode.head IobufNode.iobuf (fun i => i.1 = a ∨ p.heap i.1 ≠ none)
      (Function.update (withArena bl a) (a, .passive) xs))
    (hactive : A.activeCnt = 0) (hpassive : A.passiveCnt = N) (hbufs : A.iobufs = some bufs)
    (hlen : bufs.length = N) (hzero : NoRefs bufs)
    (hxs : xs.Perm ((List.range N).map (IobufPtr.mk a))) :
    PoolOk N p' refs (offered al a) (Function.update (withArena bl a) (a, .passive) xs) := by
  have hhere : p'.heap a = some A := by rw [hheap, Function.update_self]
  have hother : ∀ a', a' ≠ a → p'.heap a' = p.heap a' := by
    intro a' hne
    rw [hheap, Function.update_of_ne hne]
  have hlive : ∀ a', p'.heap a' ≠ none → a' = a ∨ p.heap a' ≠ none := by
    intro a' hne
    by_cases ha : a' = a
    · exact Or.inl ha
    · exact Or.inr (hother a' ha ▸ hne)
  -- a reference to an iobuf of `a` would make the address live
  have hnoref : ∀ b : IobufPtr, b.arena = a → refs b = 0 := by
    intro b hb
    by_contra hne
    exact (h.held b (by omega)).1 (hb ▸ hnew)
  refine h.around (a := a) hsize hasize hother ?_ ?_ (fun _ _ => rfl) ?_ hal
    (hbl.restrict (fun i hi => hlive i.1 hi) fun _ _ => rfl) ?_ ?_ ?_
  · intro a' hne l
    rw [mem_offered]
    exact or_iff_left fun e => hne e.1
  · intro a' s hne
    rw [Function.update_of_ne (fun e => hne (congrArg Prod.fst e)), withArena_other hne]
  · have hgrow : arenaTotal (Function.update al .arenas (al .arenas ++ [a])) = arenaTotal al + 1 :=
      arenaTotal_grow al (by simp)
    rw [hcnt, h.arenaCnt, offered, hgrow]
    push_cast
    rfl
  · exact iff_of_true (by simp [hhere]) ⟨.arenas, mem_offered.mpr (Or.inr ⟨rfl, rfl⟩)⟩
  · intro A' hA'
    rw [hhere, Option.some.injEq] at hA'
    subst hA'
    have hact : Function.update (withArena bl a) (a, .passive) xs (a, .active) = [] := by
      rw [Function.update_of_ne (by simp), withArena, Function.update_of_ne (by simp),
        Function.update_self]
    have hpos := h.pos
    have hne : ¬ A.passiveCnt = 0 := by omega
    rw [hact, Function.update_self]
    refine ⟨ArenaOk.unused hactive hpassive hbufs hlen hzero hxs hnoref, ?_, fun _ => hactive⟩
    simp [mem_offered, h.not_mem_of_dead hnew .filled, hne]
  · intro b hb hpos
    rw [hnoref b hb] at hpos
    exact absurd hpos (Nat.lt_irrefl 0)

/-- The iobufs of a new arena are on no list yet. -/
theorem PoolOk.freshArena_unlisted (h : PoolOk N p refs al bl) {j : Addr × Side}
    (hj : j.1 = a ∨ p.heap j.1 ≠ none) (k : Nat) : (⟨a, k⟩ : IobufPtr) ∉ withArena bl a j := by
  obtain ⟨a', s⟩ := j
  intro hmem
  by_cases ha : a' = a
  · subst ha
    cases s <;> simp [withArena] at hmem
  · rw [withArena_other ha] at hmem
    have hlive : p.heap a' ≠ none := hj.resolve_left ha
    obtain ⟨A, hA⟩ := Option.ne_none_iff_exists'.mp hlive
    have hboth : (⟨a, k⟩ : IobufPtr) ∈ bl (a', .active) ++ bl (a', .passive) := by
      cases s
      · exact List.mem_append_left _ hmem
      · exact List.mem_append_right _ hmem
    exact ha (((h.arena a' A hA).mem_iff _).mp hboth).1.symm

/-- The loop over the iobufs of a new arena: all of them are passive. -/
theorem PoolOk.freshArena_init (h : PoolOk N p refs al bl) (hnew : p.heap a = none) (map : Int) :
    ∃ (A : Arena) (L : Links IobufNode) (bufs : List IobufData) (xs : List IobufPtr),
      initIobufsLoop p.pageSize a N 0 0 (List.replicate N ⟨0, 0⟩) { Arena.zero with memBase := map }
        (p.freshArena a map).blinks = some (A, L) ∧
      A.activeCnt = 0 ∧ A.passiveCnt = N ∧ A.iobufs = some bufs ∧ bufs.length = N ∧ NoRefs bufs ∧
      xs.Perm ((List.range N).map (IobufPtr.mk a)) ∧
      Rings L IobufNode.head IobufNode.iobuf (fun i => i.1 = a ∨ p.heap i.1 ≠ none)
        (Function.update (withArena bl a) (a, .passive) xs) := by
  have hfits := h.fits
  have hzeroed : NoRefs (List.replicate N ⟨0, 0⟩) := by
    intro k d hd
    rw [List.getElem?_replicate] at hd
    split at hd
    · rw [← Option.some.inj hd]
    · cases hd
  have hroom : ({ Arena.zero with memBase := map } : Arena).passiveCnt + N ≤ int32Max := by
    show (0 : Int) + N ≤ int32Max
    omega
  obtain ⟨A, L, bufs, xs, hrun, hA, hlen, hzero, hperm, R⟩ :=
    initIobufsLoop_spec p.pageSize (fun i => i.1 = a ∨ p.heap i.1 ≠ none) (Or.inl rfl) N 0 0
      (List.replicate N ⟨0, 0⟩) { Arena.zero with memBase := map } _ _
      (h.freshArena_iobufRings hnew map) (fun _ hj k _ => h.freshArena_unlisted hj k) hzeroed hroom
  -- the passive list was empty before the loop
  have hpassive : withArena bl a (a, .passive) = [] := by rw [withArena, Function.update_self]
  rw [hpassive, List.append_nil] at R
  refine ⟨A, L, bufs, xs, hrun, ?_, ?_, ?_, ?_, hzero, ?_, R⟩
  · rw [hA]
    rfl
  · rw [hA]
    exact Int.zero_add _
  · rw [hA]
  · rw [hlen, List.length_replicate]
  · rw [List.range_eq_range']
    exact hperm

/-- **`__iobuf_arena_alloc`, offered**: when it succeeds, the pool with the new
arena at the end of `arenas` is fine; when it fails, the pool is. -/
theorem iobufArenaAlloc_spec (h : PoolOk N p refs al bl) (env : AllocEnv)
    (hfresh : ∀ a, env.calloc = some a → p.heap a = none) :
    (int32Max ≤ p.arenaCnt ∧ iobufArenaAlloc p env = none) ∨
    (∃ p', iobufArenaAlloc p env = some (p', none) ∧ p'.puts = p.puts ∧ PoolOk N p' refs al bl) ∨
    ∃ p' a, iobufArenaAlloc p env = some (p', some a) ∧ p'.puts = p.puts ∧
      ∃ bl', PoolOk N (p'.offerArena a) refs (offered al a) bl' := by
  unfold iobufArenaAlloc
  cases hcalloc : env.calloc with
  | none => exact Or.inr (Or.inl ⟨p, rfl, rfl, h⟩)
  | some a =>
      have hnew := hfresh a hcalloc
      obtain ⟨pd, hdestroy, hputs, hd⟩ := h.freshArena_destroy hnew env.map
      dsimp only
      by_cases hmap : env.map = mapFailed
      · rw [if_pos hmap, hdestroy]
        exact Or.inr (Or.inl ⟨pd, rfl, hputs, hd⟩)
      rw [if_neg hmap]
      have hcnt : (p.freshArena a env.map).iobufCnt = some (N : Int) := h.iobufCnt
      unfold iobufArenaInitIobufs
      rw [hcnt]
      cases hiobufs : env.iobufs with
      | false =>
          -- without iobufs the arena is destroyed again
          have hnull : ((p.freshArena a env.map).heap a).bind Arena.iobufs = none := by
            show (Function.update p.heap a _ a).bind Arena.iobufs = none
            rw [Function.update_self]
            rfl
          simp only [Bool.false_eq_true, if_false, if_pos hnull, hdestroy]
          exact Or.inr (Or.inl ⟨pd, rfl, hputs, hd⟩)
      | true =>
          obtain ⟨A, L, bufs, xs, hrun, hactive, hpassive, hbufs, hlen, hzero, hperm, R⟩ :=
            h.freshArena_init hnew env.map
          have hsize : (p.freshArena a env.map).pageSize = p.pageSize := rfl
          simp only [if_true, Int.toNat_natCast, hsize, hrun, Function.update_self, Option.bind_some, hbufs,
            reduceCtorEq, if_false]
          have hcnt₀ : (p.freshArena a env.map).arenaCnt = p.arenaCnt := rfl
          rw [hcnt₀, incInt]
          by_cases hfull : p.arenaCnt < int32Max
          · rw [if_pos hfull]
            refine Or.inr (Or.inr ⟨_, a, rfl, rfl, Function.update (withArena bl a) (a, .passive) xs, ?_⟩)
            refine h.joinArena hnew rfl rfl rfl ?_ ?_ R hactive hpassive hbufs hlen hzero hperm
            · show Function.update (Function.update p.heap a _) a (some _) = _
              rw [Function.update_idem]
            · exact (h.freshArena_arenaRings hnew env.map).addTail trivial fun l _ =>
                h.not_mem_of_dead hnew l
          · rw [if_neg hfull]
            exact Or.inl ⟨by omega, rfl⟩

/-- **`__iobuf_pool_add_arena`**: the arena it returns is on `arenas`, and the
reserve has been used up first.  The only way not to return is one arena too
many for `arena_cnt`. -/
theorem iobufPoolAddArena_spec (h : PoolOk N p refs al bl) (env : AllocEnv)
    (hfresh : ∀ a, env.calloc = some a → p.heap a = none) :
    (int32Max ≤ p.arenaCnt ∧ iobufPoolAddArena p env = none) ∨
    ∃ p' r al' bl', iobufPoolAddArena p env = some (p', r) ∧ p'.puts = p.puts ∧
      PoolOk N p' refs al' bl' ∧ (∀ a, r = some a → a ∈ al' .arenas) ∧
      (Spare al → al' .purge = []) := by
  have hfirst := h.arenaRings.first (i := .purge) trivial
  unfold iobufPoolAddArena iobufArenaUnprune
  cases hpurge : al .purge with
  | nil =>
      rw [hpurge] at hfirst
      simp only [hfirst, List.head?_nil, Option.map_none, Option.getD_none]
      rcases iobufArenaAlloc_spec h env hfresh with
        ⟨hfull, hnone⟩ | ⟨p', hrun, hputs, hok⟩ | ⟨p', a, hrun, hputs, bl', hok⟩
      · simp only [hnone]
        exact Or.inl ⟨hfull, trivial⟩
      · simp only [hrun]
        exact Or.inr ⟨p', none, al, bl, rfl, hputs, hok, by simp, fun _ => hpurge⟩
      · simp only [hrun]
        refine Or.inr ⟨_, some a, offered al a, bl', rfl, hputs, hok, ?_, fun _ => ?_⟩
        · intro a' ha
          cases ha
          exact mem_offered.mpr (Or.inr ⟨rfl, rfl⟩)
        · rw [offered, Function.update_of_ne (by simp), hpurge]
  | cons a rest =>
      rw [hpurge] at hfirst
      simp only [hfirst, List.head?_cons, Option.map_some, Option.getD_some]
      -- a purged arena is offered again before a new one is allocated
      have hmem : a ∈ al .purge := by rw [hpurge]; simp
      obtain ⟨A, hA⟩ := h.arenaLive hmem
      obtain ⟨al', hrings, hmoved⟩ := rings_reoffer h.arenaRings hmem .arenas
      refine Or.inr ⟨_, some a, al', bl, rfl, rfl, ?_, ?_, ?_⟩
      · refine h.updateArena (a := a) A (by simp [hA]) ?_ ⟨rfl, rfl, rfl, fun _ _ => rfl,
          fun _ _ _ => rfl⟩ hrings h.iobufRings hmoved (h.arena a A hA) ?_ (by simp) ?_
        · rw [← hA]
          exact (Function.update_eq_self a p.heap).symm
        · rw [← h.filled a A hA, mem_list_iff h.arenaRings hmem]
          simp
        · intro b _ hb
          exact (h.held b hb).2
      · intro a' ha
        cases ha
        exact (hmoved.here _).mpr rfl
      · -- it was the only one
        intro hspare
        have hlen := hspare.1
        rw [hpurge, List.length_cons] at hlen
        obtain rfl : rest = [] := List.eq_nil_of_length_eq_zero (by omega)
        refine hmoved.purge_nil (by simp) ?_
        intro a' ha'
        rw [hpurge] at ha'
        exact List.mem_singleton.mp ha'

end NewArena

/-! ## §2. An arena without active iobufs is destroyed. -/

/-- The loop over the iobufs of an arena finds every assertion true. -/
theorem destroyIobufsLoop_spec {a : Addr} {bufs : List IobufData} {used : Addr × Side → Prop}
    (hused : used (a, .passive)) (hzero : NoRefs bufs) :
    ∀ (n i : Nat) (L : Links IobufNode) (bl : Addr × Side → List IobufPtr),
      Rings L IobufNode.head IobufNode.iobuf used bl → i + n ≤ bufs.length →
      (∀ k, i ≤ k → k < i + n → (⟨a, k⟩ : IobufPtr) ∈ bl (a, .passive)) →
      ∃ L' xs, destroyIobufsLoop a bufs n i L = some L' ∧
        Rings L' IobufNode.head IobufNode.iobuf used (Function.update bl (a, .passive) xs) := by
  intro n
  induction n with
  | zero =>
      intro i L bl R _ _
      exact ⟨L, bl (a, .passive), rfl, by rw [Function.update_eq_self]; exact R⟩
  | succ n ih =>
      intro i L bl R hlen hmem
      have hget : bufs[i]? = some bufs[i] := List.getElem?_eq_getElem (by omega)
      have hR := R.delInit hused (hmem i (Nat.le_refl i) (by omega))
      obtain ⟨L', xs, hrun, R'⟩ := ih (i + 1) _ _ hR (by omega) (by
        intro k hk hkn
        rw [Function.update_self, List.mem_erase_of_ne (by simp; omega)]
        exact hmem k (by omega) (by omega))
      refine ⟨L', xs, ?_, ?_⟩
      · rw [destroyIobufsLoop, hget]
        exact (if_pos (hzero i _ hget)).trans hrun
      · rw [Function.update_idem] at R'
        exact R'

section Prune

variable {N : Nat} {refs : IobufPtr → Nat} {bl : Addr × Side → List IobufPtr}

/-- **An arena leaves**: the pool without an arena that nobody has a
reference to. -/
theorem PoolOk.dropArena {p p' : Pool} {al : PoolList → List Addr} (h : PoolOk N p refs al bl) {a : Addr}
    {l : PoolList} {xs : List IobufPtr} (ha : a ∈ al l)
    (hsize : p'.pageSize = p.pageSize) (hasize : p'.arenaSize = p.arenaSize)
    (hcnt : p'.arenaCnt = p.arenaCnt - 1) (hheap : p'.heap = Function.update p.heap a none)
    (hal : Rings p'.alinks ArenaNode.head ArenaNode.arena (fun _ => True)
      (Function.update al l ((al l).erase a)))
    (hbl : Rings p'.blinks IobufNode.head IobufNode.iobuf (fun i => p.heap i.1 ≠ none)
      (Function.update bl (a, .passive) xs))
    (hnoref : ∀ i < N, refs ⟨a, i⟩ = 0) :
    PoolOk N p' refs (Function.update al l ((al l).erase a)) (Function.update bl (a, .passive) xs) := by
  have herased := h.arenaRings.erased trivial ha
  have hgone : p'.heap a = none := by rw [hheap, Function.update_self]
  have hother : ∀ a', a' ≠ a → p'.heap a' = p.heap a' := by
    intro a' hne
    rw [hheap, Function.update_of_ne hne]
  have hlive : ∀ a', p'.heap a' ≠ none → p.heap a' ≠ none := by
    intro a' hne
    by_cases ha' : a' = a
    · exact absurd (ha' ▸ hgone) hne
    · rw [← hother a' ha']
      exact hne
  refine h.around (a := a) hsize hasize hother ?_ ?_ (fun _ _ => rfl) ?_ hal
    (hbl.restrict (fun i hi => hlive i.1 hi) fun _ _ => rfl) ?_ ?_ ?_
  · intro a' hne l'
    exact mem_update_erase hne l'
  · intro a' s hne
    exact Function.update_of_ne (fun e => hne (congrArg Prod.fst e)) _ _
  · have hless := arenaTotal_erase ha
    rw [hcnt, h.arenaCnt]
    omega
  · refine iff_of_false (fun hne => hne hgone) ?_
    rintro ⟨l', hl'⟩
    exact herased l' trivial hl'
  · intro A hA
    rw [hgone] at hA
    cases hA
  · intro b hb hpos
    -- the iobufs of `a` have no reference
    obtain ⟨-, hindex⟩ := h.held b hpos
    have hb0 : b = ⟨a, b.index⟩ := by rw [← hb]
    rw [hb0, hnoref b.index hindex] at hpos
    exact absurd hpos (Nat.lt_irrefl 0)

/-- **An arena is destroyed**: without references, it goes from its list and
from the memory, and every assertion on the way holds. -/
theorem PoolOk.destroyArena {p : Pool} {al : PoolList → List Addr} (h : PoolOk N p refs al bl) {a : Addr}
    {A : Arena} (hA : p.heap a = some A) (hcnt : A.activeCnt = 0) {l : PoolList} (ha : a ∈ al l) :
    ∃ p' bl', iobufArenaDestroy { p with
        alinks := listDelInit p.alinks (.arena a), arenaCnt := p.arenaCnt - 1 } a = some p' ∧
      p'.puts = p.puts ∧ PoolOk N p' refs (Function.update al l ((al l).erase a)) bl' ∧
      p'.alinks = listDelInit p.alinks (.arena a) ∧ p'.arenaCnt = p.arenaCnt - 1 := by
  have hok := h.arena a A hA
  have hnoref := hok.unreferenced hcnt
  obtain ⟨bufs, hbufs, hlen, hrefs⟩ := hok.counted
  have hzero : NoRefs bufs := by
    intro k d hd
    have hk : k < N := hlen ▸ (List.getElem?_eq_some_iff.mp hd).1
    rw [hrefs k d hd, hnoref k hk]
    rfl
  -- so every iobuf is on the passive list
  have hpassive : ∀ k, 0 ≤ k → k < 0 + N → (⟨a, k⟩ : IobufPtr) ∈ bl (a, .passive) := by
    intro k _ hk
    have hkN : k < N := by omega
    have hmem := (hok.mem_iff ⟨a, k⟩).mpr ⟨rfl, hkN⟩
    refine (List.mem_append.mp hmem).resolve_left ?_
    rw [hok.active_iff _ hmem, hnoref k hkN]
    simp
  obtain ⟨L, xs, hrun, R⟩ := destroyIobufsLoop_spec (by simp [hA]) hzero N 0 p.blinks bl
    h.iobufRings (by omega) hpassive
  have hcntN := h.iobufCnt
  have hdestroy : ∃ unmapped, iobufArenaDestroy { p with
        alinks := listDelInit p.alinks (.arena a), arenaCnt := p.arenaCnt - 1 } a
      = some { p with
          alinks := listDelInit p.alinks (.arena a), arenaCnt := p.arenaCnt - 1, blinks := L
          unmapped := unmapped, heap := Function.update p.heap a none } := by
    have hcnt' : ({ p with alinks := listDelInit p.alinks (.arena a), arenaCnt := p.arenaCnt - 1 } :
      Pool).iobufCnt = some (N : Int) := hcntN
    simp only [iobufArenaDestroy, hA, iobufArenaDestroyIobufs, hcnt', hbufs, Int.toNat_natCast, hrun,
      Option.map_some]
    exact ⟨_, rfl⟩
  obtain ⟨unmapped, hdestroy⟩ := hdestroy
  exact ⟨_, Function.update bl (a, .passive) xs, hdestroy, rfl,
    h.dropArena ha rfl rfl rfl rfl (h.arenaRings.delInit trivial ha) R hnoref, rfl, rfl⟩

/-- The loop of `__iobuf_pool_prune` destroys every arena on `purge`. -/
theorem pruneLoop_spec :
    ∀ (xs : List Addr) (n : Nat) (p : Pool) (al : PoolList → List Addr) (bl : Addr × Side → List IobufPtr),
      PoolOk N p refs al bl → al .purge = xs → xs.length < n →
      ∃ p' al' bl', pruneLoop n p (p.alinks (.head .purge)).next = some p' ∧ p'.puts = p.puts ∧
        PoolOk N p' refs al' bl' ∧ al' .purge = []
  | [], n + 1, p, al, bl, h, hpurge, _ => by
      have hfirst := h.arenaRings.first (i := .purge) trivial
      rw [hpurge] at hfirst
      rw [hfirst]
      exact ⟨p, al, bl, rfl, rfl, h, hpurge⟩
  | a :: rest, n + 1, p, al, bl, h, hpurge, hn => by
      have hfirst := h.arenaRings.first (i := .purge) trivial
      have hnext := h.arenaRings.next (i := .purge) trivial (l := []) (by rw [hpurge]; rfl)
      have hmem : a ∈ al .purge := by rw [hpurge]; simp
      obtain ⟨A, hA⟩ := h.arenaLive hmem
      have hcnt := h.purge a A hA hmem
      have hdec := h.decArenaCnt
      obtain ⟨p₁, bl₁, hdestroy, hputs, h₁, hlinks, _⟩ := h.destroyArena hA hcnt hmem
      have hpurge₁ : Function.update al .purge ((al .purge).erase a) .purge = rest := by
        rw [Function.update_self, hpurge, List.erase_cons_head]
      have hfirst₁ := h₁.arenaRings.first (i := .purge) trivial
      rw [hpurge₁] at hfirst₁
      obtain ⟨p', al', bl', hrun, hputs', h', hempty⟩ :=
        pruneLoop_spec rest n p₁ _ bl₁ h₁ hpurge₁ (by simpa using hn)
      refine ⟨p', al', bl', ?_, hputs'.trans hputs, h', hempty⟩
      rw [hpurge] at hfirst
      rw [hfirst]
      -- the next arena, read before the first one goes, is the new first
      rw [hfirst₁, ← hnext] at hrun
      simp only [List.head?_cons, Option.map_some, Option.getD_some, pruneLoop, hA, hcnt, ne_eq,
        not_true_eq_false, if_false, hdec, hdestroy]
      exact hrun

/-- **`__iobuf_pool_prune`** always finishes, and keeps the pool fine: without
candidates on `arenas` it does nothing, with them it empties `purge`. -/
theorem iobufPoolPrune_spec {p : Pool} {al : PoolList → List Addr} (h : PoolOk N p refs al bl) :
    ∃ p' al' bl', iobufPoolPrune p = some p' ∧ p'.puts = p.puts ∧
      PoolOk N p' refs al' bl' ∧
      (al .arenas = [] ∧ al' = al ∨ al .arenas ≠ [] ∧ al' .purge = []) := by
  have hcandidates := h.arenaRings.listEmpty_iff (i := .arenas) trivial
  unfold iobufPoolPrune
  by_cases hempty : listEmpty p.alinks (ArenaNode.head .arenas) = true
  · rw [if_pos hempty]
    exact ⟨p, al, bl, rfl, rfl, h, Or.inl ⟨hcandidates.mp hempty, rfl⟩⟩
  · rw [if_neg hempty]
    have hlen : (al .purge).length < p.arenaCnt.toNat + 1 := by
      rw [h.arenaCnt, Int.toNat_natCast, arenaTotal]
      omega
    obtain ⟨p', al', bl', hrun, hputs, h', hpurge⟩ := pruneLoop_spec _ _ p al bl h rfl hlen
    exact ⟨p', al', bl', hrun, hputs, h', Or.inr ⟨fun hnil => hempty (hcandidates.mpr hnil), hpurge⟩⟩

end Prune

end LzLib.Iobuf
