/-
  LzLib.Iobuf.Destroy
  ───────────────────
  **WHAT `iobuf_pool_destroy` LEAVES BEHIND.**

  Once no iobuf is referenced, no arena is on `filled`: the arenas of a pool
  are on `arenas` or on `purge`.  `iobuf_pool_destroy` walks over `arenas`
  alone.  There it destroys every arena, each with one `munmap`
  (`destroyLoop_spec`); what is on `purge` stays.

  The bases of the arenas are followed through every operation (`BasesKept`),
  so that what is unmapped is what `mmap` has returned.

  Main result: `destroy_complete_iff`.
-/
import LzLib.Iobuf.PoolRuns

namespace LzLib.Iobuf

open LzLib.Foundation

/-! ## §1. The bases of the arenas. -/

/-- The base of a live arena. -/
def Pool.base (p : Pool) (a : Addr) : Option Int := (p.heap a).map Arena.memBase

/-- No arena is new, and none has got another base. -/
def BasesKept (p p' : Pool) : Prop := ∀ a m, p'.base a = some m → p.base a = some m

/-- As before, but for an arena that `env` has paid for. -/
def BasesGrown (env : AllocEnv) (p p' : Pool) : Prop :=
  ∀ a m, p'.base a = some m →
    p.base a = some m ∨ (env.calloc = some a ∧ m = env.map ∧ m ≠ mapFailed)

section Bases

variable {p p' p'' : Pool} {a : Addr} {env : AllocEnv}

theorem BasesKept.refl (p : Pool) : BasesKept p p := fun _ _ h => h

theorem BasesKept.trans (h : BasesKept p p') (h' : BasesKept p' p'') : BasesKept p p'' :=
  fun a m hm => h a m (h' a m hm)

theorem BasesKept.grown (h : BasesKept p p') : BasesGrown env p p' := fun a m hm => Or.inl (h a m hm)

theorem BasesGrown.kept (h : BasesGrown env p p') (h' : BasesKept p' p'') : BasesGrown env p p'' :=
  fun a m hm => h a m (h' a m hm)

theorem BasesKept.grow (h : BasesKept p p') (h' : BasesGrown env p' p'') : BasesGrown env p p'' := by
  intro a m hm
  rcases h' a m hm with hold | hnew
  · exact Or.inl (h a m hold)
  · exact Or.inr hnew

theorem basesKept_of_heap (h : p'.heap = p.heap) : BasesKept p p' := by
  intro a m hm
  unfold Pool.base at hm ⊢
  rw [h] at hm
  exact hm

/-- Data of an arena change, its base does not. -/
theorem basesKept_of_update {A A' : Arena} (h : p'.heap = Function.update p.heap a (some A'))
    (hA : p.heap a = some A) (hbase : A'.memBase = A.memBase) : BasesKept p p' := by
  intro b m hm
  unfold Pool.base at hm ⊢
  rw [h] at hm
  by_cases hb : b = a
  · rw [hb, Function.update_self, Option.map_some, hbase] at hm
    rw [hb, hA, Option.map_some]
    exact hm
  · rw [Function.update_of_ne hb] at hm
    exact hm

/-- **`__iobuf_arena_destroy`**: the arena goes, with one `munmap` of a base
that is a mapping. -/
theorem iobufArenaDestroy_run (h : iobufArenaDestroy p a = some p') :
    ∃ A, p.heap a = some A ∧ p'.heap = Function.update p.heap a none ∧
      p'.unmapped =
        if A.memBase ≠ 0 ∧ A.memBase ≠ mapFailed then p.unmapped ++ [A.memBase] else p.unmapped := by
  unfold iobufArenaDestroy at h
  split at h
  · cases h
  next A hA =>
    split at h
    · cases h
    next p₁ h₁ =>
      have hsame : p₁.heap = p.heap ∧ p₁.unmapped = p.unmapped := by
        unfold iobufArenaDestroyIobufs at h₁
        split at h₁
        · cases h₁
        · split at h₁
          · cases h₁
            exact ⟨rfl, rfl⟩
          · obtain ⟨L, -, rfl⟩ := Option.map_eq_some_iff.mp h₁
            exact ⟨rfl, rfl⟩
      cases h
      refine ⟨A, hA, ?_, ?_⟩
      · show Function.update p₁.heap a none = _
        rw [hsame.1]
      · show (if _ then p₁.unmapped ++ _ else p₁.unmapped) = _
        rw [hsame.2]

theorem iobufArenaDestroy_bases (h : iobufArenaDestroy p a = some p') : BasesKept p p' := by
  obtain ⟨A, -, hheap, -⟩ := iobufArenaDestroy_run h
  intro b m hm
  unfold Pool.base at hm ⊢
  rw [hheap] at hm
  by_cases hb : b = a
  · rw [hb, Function.update_self] at hm
    cases hm
  · rw [Function.update_of_ne hb] at hm
    exact hm

theorem initIobufsLoop_memBase (pageSize : Nat) {A' : Arena} {L' : Links IobufNode} :
    ∀ (n i : Nat) (offset : Int) (bufs : List IobufData) (A : Arena) (L : Links IobufNode),
      initIobufsLoop pageSize a n i offset bufs A L = some (A', L') → A'.memBase = A.memBase := by
  intro n
  induction n with
  | zero =>
      intro i offset bufs A L h
      cases h
      rfl
  | succ n ih =>
      intro i offset bufs A L h
      unfold initIobufsLoop at h
      simp only at h
      split at h
      · cases h
      · have hrest := ih _ _ _ _ _ h
        exact hrest

theorem iobufArenaInitIobufs_bases {A : Arena} {calloc : Bool} (hA : p.heap a = some A)
    (h : iobufArenaInitIobufs p a A calloc = some p') : BasesKept p p' := by
  unfold iobufArenaInitIobufs at h
  split at h
  · cases h
  · split at h
    · split at h
      · cases h
      next A' L' hloop =>
        cases h
        exact basesKept_of_update rfl hA (initIobufsLoop_memBase _ _ _ _ _ _ _ hloop)
    · cases h
      exact BasesKept.refl p

theorem freshArena_bases (hcalloc : env.calloc = some a) (hmap : env.map ≠ mapFailed) :
    BasesGrown env p (p.freshArena a env.map) := by
  intro b m hm
  unfold Pool.base at hm ⊢
  have hheap : (p.freshArena a env.map).heap = Function.update p.heap a (some { Arena.zero with memBase := env.map }) := rfl
  rw [hheap] at hm
  by_cases hb : b = a
  · rw [hb, Function.update_self, Option.map_some, Option.some.injEq] at hm
    exact Or.inr ⟨hb ▸ hcalloc, hm.symm, hm ▸ hmap⟩
  · rw [Function.update_of_ne hb] at hm
    exact Or.inl hm

/-- **`__iobuf_arena_alloc`** adds one arena at most, on what `mmap` returned. -/
theorem iobufArenaAlloc_bases {r : Option Addr} (h : iobufArenaAlloc p env = some (p', r)) :
    BasesGrown env p p' := by
  unfold iobufArenaAlloc at h
  split at h
  · cases h
    exact (BasesKept.refl p).grown
  next a hcalloc =>
    simp only at h
    split at h
    next hfailed =>
      -- the arena is destroyed again: only its address was new
      obtain ⟨p₁, h₁, heq⟩ := Option.map_eq_some_iff.mp h
      cases heq
      obtain ⟨A, -, hheap, -⟩ := iobufArenaDestroy_run h₁
      refine BasesKept.grown ?_
      intro b m hm
      unfold Pool.base at hm ⊢
      rw [hheap] at hm
      by_cases hb : b = a
      · rw [hb, Function.update_self] at hm
        cases hm
      · have hfresh : (p.freshArena a env.map).heap b = p.heap b := Function.update_of_ne hb _ _
        rw [Function.update_of_ne hb, hfresh] at hm
        exact hm
    next hmap =>
      have hfresh := freshArena_bases (p := p) hcalloc hmap
      split at h
      · cases h
      next p₁ h₁ =>
        have hinit := iobufArenaInitIobufs_bases (Function.update_self ..) h₁
        split at h
        · obtain ⟨p₂, h₂, heq⟩ := Option.map_eq_some_iff.mp h
          cases heq
          exact (hfresh.kept hinit).kept (iobufArenaDestroy_bases h₂)
        · obtain ⟨cnt, -, heq⟩ := Option.map_eq_some_iff.mp h
          cases heq
          exact (hfresh.kept hinit).kept (basesKept_of_heap rfl)

theorem iobufArenaUnprune_bases {r : Option Addr} (h : iobufArenaUnprune p = some (p', r)) :
    BasesKept p p' := by
  unfold iobufArenaUnprune at h
  split at h
  · cases h
    exact BasesKept.refl p
  · cases h
    exact basesKept_of_heap rfl
  · cases h

theorem iobufPoolAddArena_bases {r : Option Addr} (h : iobufPoolAddArena p env = some (p', r)) :
    BasesGrown env p p' := by
  unfold iobufPoolAddArena at h
  split at h
  · cases h
  next p₁ a h₁ =>
    cases h
    exact ((iobufArenaUnprune_bases h₁).trans (basesKept_of_heap rfl)).grown
  next p₁ h₁ =>
    have hprune := iobufArenaUnprune_bases h₁
    split at h
    · cases h
    next p₂ a h₂ =>
      cases h
      exact (hprune.grow (iobufArenaAlloc_bases h₂)).kept (basesKept_of_heap rfl)
    next p₂ h₂ =>
      cases h
      exact hprune.grow (iobufArenaAlloc_bases h₂)

theorem modifyRef_bases {b : IobufPtr} {f : Int → Option Int} {r : Int}
    (h : p.modifyRef b f = some (p', r)) : BasesKept p p' := by
  unfold Pool.modifyRef at h
  split at h
  · cases h
  next A hA =>
    split at h
    · cases h
    split at h
    · cases h
    obtain ⟨r', -, heq⟩ := Option.map_eq_some_iff.mp h
    cases heq
    exact basesKept_of_update rfl hA rfl

theorem iobufRef_bases {b : IobufPtr} (h : iobufRef p b = some p') : BasesKept p p' := by
  obtain ⟨⟨p₁, r⟩, h₁, rfl⟩ := Option.map_eq_some_iff.mp h
  exact modifyRef_bases h₁

theorem iobufGetLocked_bases {b : IobufPtr} (h : iobufGetLocked p a = some (p', b)) : BasesKept p p' := by
  unfold iobufGetLocked at h
  split at h
  next A hnext hA =>
    split at h
    · cases h
      split
      · exact basesKept_of_update rfl hA rfl
      · exact basesKept_of_update rfl hA rfl
    · cases h
  · cases h

/-- **`iobuf_get`** adds one arena at most. -/
theorem iobufGet_bases {r : Option IobufPtr} (h : iobufGet p env = some (p', r)) : BasesGrown env p p' := by
  have hselect : ∀ p₁ r₁, iobufSelectArena p env = some (p₁, r₁) → BasesGrown env p p₁ := by
    intro p₁ r₁ h₁
    unfold iobufSelectArena at h₁
    split at h₁
    · cases h₁
    · cases h₁
      exact (BasesKept.refl p).grown
    · exact iobufPoolAddArena_bases h₁
  unfold iobufGet at h
  rcases hsel : iobufSelectArena p env with _ | ⟨p₁, _ | a⟩
  · rw [hsel] at h
    cases h
  · rw [hsel] at h
    cases h
    exact hselect _ _ hsel
  · rw [hsel] at h
    simp only at h
    split at h
    · cases h
    next p₂ b h₂ =>
      obtain ⟨p₃, h₃, heq⟩ := Option.map_eq_some_iff.mp h
      cases heq
      exact ((hselect _ _ hsel).kept (iobufGetLocked_bases h₂)).kept (iobufRef_bases h₃)

theorem iobufPutLocked_bases {b : IobufPtr} (h : iobufPutLocked p b = some p') : BasesKept p p' := by
  unfold iobufPutLocked at h
  split at h
  · cases h
  next A hA =>
    simp only at h
    split at h
    · cases h
      -- the arena moves between lists, before and after its data change
      split
      · split
        · exact basesKept_of_update rfl hA rfl
        · exact basesKept_of_update rfl hA rfl
      · split
        · exact basesKept_of_update rfl hA rfl
        · exact basesKept_of_update rfl hA rfl
    · cases h

theorem pruneLoop_bases : ∀ (n : Nat) (p : Pool) (node : ArenaNode),
    pruneLoop n p node = some p' → BasesKept p p' := by
  intro n
  induction n with
  | zero =>
      intro p node h
      cases h
  | succ n ih =>
      intro p node h
      cases node with
      | head l =>
          cases l with
          | purge =>
              cases h
              exact BasesKept.refl _
          | arenas => cases h
          | filled => cases h
      | poison => cases h
      | arena a =>
          simp only [pruneLoop] at h
          split at h
          · cases h
          split at h
          · exact ih _ _ h
          split at h
          · cases h
          next cnt hcnt =>
            split at h
            · cases h
            next p₁ h₁ =>
              have hunlink : BasesKept p { p with
                  alinks := listDelInit p.alinks (.arena a), arenaCnt := cnt } := basesKept_of_heap rfl
              exact (hunlink.trans (iobufArenaDestroy_bases h₁)).trans (ih _ _ h)

theorem iobufUnref_bases {b : IobufPtr} (h : iobufUnref p b = some p') : BasesKept p p' := by
  unfold iobufUnref at h
  split at h
  · cases h
  next p₁ ref h₁ =>
    have href := modifyRef_bases h₁
    split at h
    · unfold iobufPut at h
      split at h
      · cases h
      next p₂ h₂ =>
        have hput := href.trans (iobufPutLocked_bases h₂)
        unfold iobufPoolPrune at h
        split at h
        · cases h
          exact hput
        · exact hput.trans (pruneLoop_bases _ _ _ h)
    · cases h
      exact href

end Bases

/-! ## §2. Every arena has a mapping of its own. -/

/-- **The mappings of a pool**: none is at `NULL` or failed, none is shared. -/
structure Mapped (p : Pool) : Prop where
  real : ∀ a m, p.base a = some m → m ≠ 0 ∧ m ≠ mapFailed
  apart : ∀ a b m, p.base a = some m → p.base b = some m → a = b

/-- What `mmap` promises, called for a new arena: the mapping is not at `NULL`,
and no live arena is on it. -/
def AllocEnv.MapsFresh (env : AllocEnv) (p : Pool) : Prop :=
  env.calloc ≠ none → env.map ≠ 0 ∧ ∀ a, p.base a ≠ some env.map

section Mapping

variable {p p' : Pool} {env : AllocEnv}

theorem Mapped.kept (h : Mapped p) (hkept : BasesKept p p') : Mapped p' :=
  ⟨fun a m hm => h.real a m (hkept a m hm), fun a b m ha hb => h.apart a b m (hkept a m ha) (hkept b m hb)⟩

theorem Mapped.grown (h : Mapped p) (hmaps : env.MapsFresh p) (hgrown : BasesGrown env p p') : Mapped p' := by
  have hnew : ∀ a, env.calloc = some a → env.map ≠ 0 ∧ ∀ b, p.base b ≠ some env.map := by
    intro a ha
    refine hmaps ?_
    rw [ha]
    exact Option.some_ne_none a
  constructor
  · intro a m hm
    rcases hgrown a m hm with hold | ⟨ha, rfl, hfailed⟩
    · exact h.real a m hold
    · exact ⟨(hnew a ha).1, hfailed⟩
  · intro a b m ha hb
    -- the new mapping is no old one, and there is one new arena at most
    rcases hgrown a m ha with holdA | ⟨hca, rfl, -⟩
    · rcases hgrown b m hb with holdB | ⟨hcb, rfl, -⟩
      · exact h.apart a b m holdA holdB
      · exact absurd holdA ((hnew b hcb).2 a)
    · rcases hgrown b _ hb with holdB | ⟨hcb, -, -⟩
      · exact absurd holdB ((hnew a hca).2 b)
      · exact Option.some.inj (hca.symm.trans hcb)

end Mapping

/-- Callers as in `poolClient`, on a system whose `mmap` keeps its promise. -/
def mappedClient : Component Client PoolOp where
  step := Client.step
  allowed c o := c.allowed o ∧
    match o with
    | .get env => env.MapsFresh c.pool
    | _ => True

/-- The pool is fine, and its arenas are mapped. -/
def Client.OnMappings (N : Nat) (c : Client) : Prop := PoolInv N c.pool c.held ∧ Mapped c.pool

/-- One operation. -/
theorem Client.step_onMappings {N : Nat} (c : Client) (o : PoolOp) (c' : Client) (hc : c.OnMappings N)
    (ho : mappedClient.allowed c o) (hs : mappedClient.step c o = some c') : c'.OnMappings N := by
  have hstep : c.step o = some c' := hs
  refine ⟨?_, ?_⟩
  · rcases Client.step_safe c o (Client.safe_of_inv hc.1) ho.1 with ⟨c₁, h₁, hsafe⟩ | ⟨-, hnone⟩
    · rw [hstep] at h₁
      cases h₁
      exact hsafe.inv
    · rw [hstep] at hnone
      cases hnone
  · have hmapped := hc.2
    cases o with
    | get env =>
        unfold Client.step at hstep
        simp only at hstep
        split at hstep
        · cases hstep
        next p hget =>
          cases hstep
          exact hmapped.grown ho.2 (iobufGet_bases hget)
        next p b hget =>
          cases hstep
          exact hmapped.grown ho.2 (iobufGet_bases hget)
    | ref b =>
        obtain ⟨p, href, rfl⟩ := Option.map_eq_some_iff.mp hstep
        exact hmapped.kept (iobufRef_bases href)
    | unref b =>
        obtain ⟨p, hunref, rfl⟩ := Option.map_eq_some_iff.mp hstep
        exact hmapped.kept (iobufUnref_bases hunref)

/-- A new pool. -/
theorem iobufPoolNew_mapped {arenaSize pageSize : Nat} {calloc : Bool} {env : AllocEnv} {p : Pool}
    (hmap : env.calloc ≠ none → env.map ≠ 0)
    (hnew : iobufPoolNew arenaSize pageSize calloc env = some (some p)) : Mapped p := by
  unfold iobufPoolNew at hnew
  split at hnew
  · cases hnew
  split at hnew
  · obtain ⟨⟨p', r⟩, hadd, heq⟩ := Option.map_eq_some_iff.mp hnew
    cases heq
    -- the pool has no arena before this one
    refine Mapped.grown ?_ ?_ (iobufPoolAddArena_bases hadd)
    · constructor
      · intro a m hm
        cases hm
      · intro a b m hm
        cases hm
    · intro hcalloc
      refine ⟨hmap hcalloc, ?_⟩
      intro a hm
      cases hm
  · cases hnew

/-! ## §3. The walk over `arenas`. -/

section Walk

variable {N : Nat} {refs : IobufPtr → Nat}

/-- An arena none of whose iobufs is referenced is idle. -/
theorem ArenaOk.idle {a : Addr} {A : Arena} {active passive : List IobufPtr}
    (h : ArenaOk N refs a A active passive) (hnoref : ∀ b, refs b = 0) : active = [] := by
  refine List.eq_nil_iff_forall_not_mem.mpr ?_
  intro b hb
  have hpos := (h.active_iff b (List.mem_append_left _ hb)).mp hb
  rw [hnoref b] at hpos
  exact absurd hpos (Nat.lt_irrefl 0)

/-- **Without references no arena is full.** -/
theorem PoolOk.filled_nil {p : Pool} {al : PoolList → List Addr} {bl : Addr × Side → List IobufPtr}
    (h : PoolOk N p refs al bl) (hnoref : ∀ b, refs b = 0) : al .filled = [] := by
  refine List.eq_nil_iff_forall_not_mem.mpr ?_
  intro a ha
  obtain ⟨A, hA⟩ := h.arenaLive ha
  have hok := h.arena a A hA
  have hpassive := (h.filled a A hA).mp ha
  have hlen := hok.length
  have hpos := h.pos
  rw [hok.passiveCnt] at hpassive
  rw [hok.idle hnoref, List.length_nil] at hlen
  omega

/-- **An idle arena goes with its mapping**; the other arenas keep theirs. -/
theorem PoolOk.unmapArena {p : Pool} {al : PoolList → List Addr} {bl : Addr × Side → List IobufPtr}
    (h : PoolOk N p refs al bl) (hmapped : Mapped p) (hnoref : ∀ b, refs b = 0) {a : Addr} {l : PoolList}
    (ha : a ∈ al l) :
    ∃ p' bl' m, iobufArenaDestroy { p with
        alinks := listDelInit p.alinks (.arena a), arenaCnt := p.arenaCnt - 1 } a = some p' ∧
      PoolOk N p' refs (Function.update al l ((al l).erase a)) bl' ∧ Mapped p' ∧
      p.base a = some m ∧ p'.unmapped = p.unmapped ++ [m] ∧ ∀ b, b ≠ a → p'.base b = p.base b := by
  obtain ⟨A, hA⟩ := h.arenaLive ha
  have hcnt : A.activeCnt = 0 := by
    have hok := h.arena a A hA
    rw [hok.activeCnt, hok.idle hnoref]
    rfl
  obtain ⟨p', bl', hdestroy, -, h', -, -⟩ := h.destroyArena hA hcnt ha
  have hbase : p.base a = some A.memBase := by
    unfold Pool.base
    rw [hA]
    rfl
  -- its base is a mapping, and it is given back
  obtain ⟨A', hA', hheap, hunmapped⟩ := iobufArenaDestroy_run hdestroy
  have hsame : A' = A := Option.some.inj (hA'.symm.trans hA)
  rw [hsame, if_pos (hmapped.real a _ hbase)] at hunmapped
  have hunlink : BasesKept p { p with
      alinks := listDelInit p.alinks (.arena a), arenaCnt := p.arenaCnt - 1 } := basesKept_of_heap rfl
  have hkept : BasesKept p p' := hunlink.trans (iobufArenaDestroy_bases hdestroy)
  refine ⟨p', bl', A.memBase, hdestroy, h', hmapped.kept hkept, hbase, hunmapped, ?_⟩
  intro b hne
  unfold Pool.base
  rw [hheap, Function.update_of_ne hne]

/-- **The loop of `iobuf_pool_destroy`** destroys the arenas on `arenas`, each
with one `munmap`, and leaves the other two lists alone. -/
theorem destroyLoop_spec (hnoref : ∀ b, refs b = 0) :
    ∀ (xs : List Addr) (n : Nat) (p : Pool) (al : PoolList → List Addr) (bl : Addr × Side → List IobufPtr),
      PoolOk N p refs al bl → Mapped p → al .arenas = xs → xs.length < n →
      ∃ p' al' bl' ms, destroyLoop n p (p.alinks (.head .arenas)).next = some p' ∧
        PoolOk N p' refs al' bl' ∧ al' .arenas = [] ∧ (∀ l, l ≠ .arenas → al' l = al l) ∧
        xs.map p.base = ms.map some ∧ p'.unmapped = p.unmapped ++ ms := by
  intro xs
  induction xs with
  | nil =>
      intro n p al bl h _ harenas hn
      have hfirst := h.arenaRings.first (i := .arenas) trivial
      rw [harenas] at hfirst
      cases n with
      | zero => exact absurd hn (Nat.not_lt_zero _)
      | succ n =>
          refine ⟨p, al, bl, [], ?_, h, harenas, fun _ _ => rfl, rfl, (List.append_nil _).symm⟩
          rw [hfirst]
          rfl
  | cons a rest ih =>
      intro n p al bl h hmapped harenas hn
      cases n with
      | zero => exact absurd hn (Nat.not_lt_zero _)
      | succ n =>
          have hfirst := h.arenaRings.first (i := .arenas) trivial
          have hnext := h.arenaRings.next (i := .arenas) trivial (l := []) (by rw [harenas]; rfl)
          have hmem : a ∈ al .arenas := by
            rw [harenas]
            exact List.mem_cons_self
          obtain ⟨p₁, bl₁, m, hdestroy, h₁, hmapped₁, hbase, hunmapped, hsame⟩ :=
            h.unmapArena hmapped hnoref hmem
          have harenas₁ : Function.update al .arenas ((al .arenas).erase a) .arenas = rest := by
            rw [Function.update_self, harenas, List.erase_cons_head]
          have hnodup := h.arenaRings.nodup (i := .arenas) trivial
          rw [harenas, List.nodup_cons] at hnodup
          have hrest : rest.map p₁.base = rest.map p.base := by
            refine List.map_congr_left ?_
            intro b hb
            exact hsame b fun e => hnodup.1 (e ▸ hb)
          obtain ⟨p', al', bl', ms, hrun, h', hempty, hothers, hms, hlog⟩ :=
            ih n p₁ _ bl₁ h₁ hmapped₁ harenas₁ (by simpa using hn)
          refine ⟨p', al', bl', m :: ms, ?_, h', hempty, ?_, ?_, ?_⟩
          · have hfirst₁ := h₁.arenaRings.first (i := .arenas) trivial
            rw [harenas₁] at hfirst₁
            rw [harenas] at hfirst
            rw [hfirst]
            -- the next arena, read before the first one goes, is the new first
            rw [hfirst₁, ← hnext] at hrun
            simp only [List.head?_cons, Option.map_some, Option.getD_some, destroyLoop, h.decArenaCnt,
              hdestroy]
            exact hrun
          · intro l hl
            rw [hothers l hl, Function.update_of_ne hl]
          · rw [List.map_cons, List.map_cons, hbase, ← hms, hrest]
          · rw [hlog, hunmapped, List.append_assoc]
            rfl

end Walk

/-! ## §4. Complete destruction. -/

/-- **Everything is gone**: the arenas, their number, the three lists, and,
with one `munmap` each, the mappings. -/
structure DestroyedAll (p p' : Pool) : Prop where
  freed : ∀ a, p'.heap a = none
  arenaCnt : p'.arenaCnt = 0
  lists : ∀ l, listEmpty p'.alinks (.head l) = true
  unmapped : ∃ (xs : List Addr) (ms : List Int), xs.Nodup ∧ (∀ a, a ∈ xs ↔ p.heap a ≠ none) ∧
    xs.map p.base = ms.map some ∧ ms.Nodup ∧ p'.unmapped = p.unmapped ++ ms

/-- Arenas with different bases. -/
theorem Mapped.nodup {p : Pool} (h : Mapped p) {xs : List Addr} {ms : List Int} (hnodup : xs.Nodup)
    (hms : xs.map p.base = ms.map some) : ms.Nodup := by
  have hsome : (ms.map some).Nodup := by
    rw [← hms]
    refine List.Nodup.map_on ?_ hnodup
    intro a ha b _ hab
    obtain ⟨m, -, hm⟩ := List.mem_map.mp (hms ▸ List.mem_map_of_mem (f := p.base) ha)
    exact h.apart a b m hm.symm (hab ▸ hm.symm)
  exact List.Nodup.of_map some hsome

/-- **`iobuf_pool_destroy` of an idle pool** is complete exactly when nothing is
in reserve. -/
theorem iobufPoolDestroy_spec {N : Nat} {p : Pool} {refs : IobufPtr → Nat} (h : PoolInv N p refs)
    (hmapped : Mapped p) (hnoref : ∀ b, refs b = 0) :
    ∃ p', iobufPoolDestroy p = some p' ∧ (DestroyedAll p p' ↔ listEmpty p.alinks (.head .purge) = true) := by
  obtain ⟨al, bl, hok⟩ := h
  have hpurge := hok.arenaRings.listEmpty_iff (i := .purge) trivial
  have hlen : (al .arenas).length < p.arenaCnt.toNat + 1 := by
    rw [hok.arenaCnt, Int.toNat_natCast, arenaTotal]
    omega
  obtain ⟨p', al', bl', ms, hrun, hok', hempty, hothers, hms, hlog⟩ :=
    destroyLoop_spec hnoref _ _ p al bl hok hmapped rfl hlen
  refine ⟨p', hrun, ?_⟩
  rw [hpurge]
  constructor
  · intro hall
    -- an arena on `purge` is still there
    refine List.eq_nil_iff_forall_not_mem.mpr ?_
    intro a ha
    rw [← hothers .purge (by decide)] at ha
    exact (hok'.live a).mpr ⟨.purge, ha⟩ (hall.freed a)
  · intro hnil
    have hfilled := hok.filled_nil hnoref
    have hgone : ∀ l, al' l = [] := by
      intro l
      cases l with
      | arenas => exact hempty
      | filled => rw [hothers .filled (by decide), hfilled]
      | purge => rw [hothers .purge (by decide), hnil]
    have hlive : ∀ a, a ∈ al .arenas ↔ p.heap a ≠ none := by
      intro a
      rw [hok.live a]
      constructor
      · intro ha
        exact ⟨.arenas, ha⟩
      · rintro ⟨l, hl⟩
        cases l with
        | arenas => exact hl
        | filled => rw [hfilled] at hl; cases hl
        | purge => rw [hnil] at hl; cases hl
    have hnodup := hok.arenaRings.nodup (i := .arenas) trivial
    refine ⟨?_, ?_, ?_, ⟨al .arenas, ms, hnodup, hlive, hms, hmapped.nodup hnodup hms, hlog⟩⟩
    · intro a
      by_contra hne
      obtain ⟨l, hl⟩ := (hok'.live a).mp hne
      rw [hgone l] at hl
      cases hl
    · rw [hok'.arenaCnt, arenaTotal, hgone, hgone, hgone]
      rfl
    · intro l
      exact (hok'.arenaRings.listEmpty_iff (i := l) trivial).mpr (hgone l)

/-- **POOL DESTRUCTION.**  At the end of any run after which no iobuf is
referenced, `iobuf_pool_destroy` finishes; it has destroyed every arena, each
with one `munmap`, if and only if no arena was on `purge`. -/
theorem destroy_complete_iff (arenaSize pageSize : Nat) (hpage : 0 < pageSize) (hsize : pageSize ≤ arenaSize)
    (hfits : (arenaSize / pageSize : Nat) ≤ int32Max) (env : AllocEnv)
    (hmap : env.calloc ≠ none → env.map ≠ 0) :
    ∃ p, iobufPoolNew arenaSize pageSize true env = some (some p) ∧
      ∀ ops, mappedClient.Legal ⟨p, fun _ => 0⟩ ops →
        ∀ c, mappedClient.run ⟨p, fun _ => 0⟩ ops = some c → (∀ b, c.held b = 0) →
          ∃ p', iobufPoolDestroy c.pool = some p' ∧
            (DestroyedAll c.pool p' ↔ listEmpty c.pool.alinks (.head .purge) = true) := by
  obtain ⟨p, hnew, hinv⟩ := iobufPoolNew_inv arenaSize pageSize hpage hsize hfits env
  refine ⟨p, hnew, ?_⟩
  intro ops hlegal c hrun hnoref
  have hstart : Client.OnMappings (arenaSize / pageSize) ⟨p, fun _ => 0⟩ :=
    ⟨hinv, iobufPoolNew_mapped hmap hnew⟩
  obtain ⟨hinv', hmapped⟩ := mappedClient.run_safe Client.step_onMappings hstart hlegal hrun
  exact iobufPoolDestroy_spec hinv' hmapped hnoref

/-- Calls that bring no arena keep what is asked of `mmap`. -/
theorem legal_mapped {ops : List PoolOp} (hold : ∀ env, .get env ∈ ops → env.calloc = none) {c : Client}
    (h : poolClient.Legal c ops) : mappedClient.Legal c ops := by
  induction ops generalizing c with
  | nil => trivial
  | cons o ops ih =>
      refine ⟨⟨h.1, ?_⟩, fun c' hc' => ih (fun env henv => hold env (List.mem_cons_of_mem _ henv)) (h.2 c' hc')⟩
      cases o with
      | get env => exact fun hcalloc => absurd (hold env List.mem_cons_self) hcalloc
      | ref b => trivial
      | unref b => trivial

/-- Both pages of an arena are taken, one of them twice, and put back. -/
def takeBoth : List PoolOp :=
  [.get noArena, .get noArena, .ref ⟨1, 0⟩, .unref ⟨1, 0⟩, .unref ⟨1, 1⟩, .unref ⟨1, 0⟩]

theorem takeBoth_old : ∀ env, .get env ∈ takeBoth → env.calloc = none := by
  intro env h
  simp only [takeBoth, List.mem_cons, List.not_mem_nil, PoolOp.get.injEq, reduceCtorEq, or_false, or_self] at h
  rw [h]
  rfl

/-- A pool that has handed nothing out is destroyed; one that has all its pages back is not. -/
theorem destroy_complete_iff_twoEnds : ∃ p c, iobufPoolNew 8 4 true twoPages = some (some p) ∧
    mappedClient.run ⟨p, fun _ => 0⟩ takeBoth = some c ∧ (∀ b, c.held b = 0) ∧
    (∃ p', iobufPoolDestroy p = some p' ∧ DestroyedAll p p') ∧
    ∃ p', iobufPoolDestroy c.pool = some p' ∧ ¬ DestroyedAll c.pool p' := by
  obtain ⟨p, hnew, hruns⟩ :=
    destroy_complete_iff 8 4 (by decide) (by decide) (by decide) twoPages (fun _ => by decide)
  have hcheck : ((iobufPoolNew 8 4 true twoPages).bind fun r => r.map fun p =>
      (listEmpty p.alinks (.head .purge), poolClient.legalCheck ⟨p, fun _ => 0⟩ takeBoth,
        (mappedClient.run ⟨p, fun _ => 0⟩ takeBoth).map fun c => listEmpty c.pool.alinks (.head .purge)))
      = some (true, true, some false) := by decide +kernel
  have hheld : ((iobufPoolNew 8 4 true twoPages).bind fun r => r.bind fun p =>
      (mappedClient.run ⟨p, fun _ => 0⟩ takeBoth).map Client.held)
      = some (Function.update (Function.update (Function.update (Function.update (Function.update (Function.update
          (fun _ => 0) ⟨1, 1⟩ 1) ⟨1, 0⟩ 1) ⟨1, 0⟩ 2) ⟨1, 0⟩ 1) ⟨1, 1⟩ 0) ⟨1, 0⟩ 0) := rfl
  rw [hnew] at hcheck hheld
  simp only [Option.bind_some, Option.map_some, Option.some.injEq, Prod.mk.injEq] at hcheck hheld
  obtain ⟨hempty, hlegal, hfull⟩ := hcheck
  obtain ⟨c, hrun, hpurge⟩ := Option.map_eq_some_iff.mp hfull
  rw [hrun, Option.map_some, Option.some.injEq] at hheld
  have hnone : ∀ b, c.held b = 0 := by
    intro b
    rw [hheld]
    simp only [Function.update_apply]
    split_ifs <;> rfl
  obtain ⟨p₀, hdestroy₀, hiff₀⟩ := hruns [] trivial _ rfl fun _ => rfl
  obtain ⟨p₁, hdestroy₁, hiff₁⟩ :=
    hruns takeBoth (legal_mapped takeBoth_old (poolClient.legal_of_check hlegal)) c hrun hnone
  exact ⟨p, c, hnew, hrun, hnone, ⟨p₀, hdestroy₀, hiff₀.mpr hempty⟩, p₁, hdestroy₁,
    fun hall => Bool.false_ne_true (hpurge.symm.trans (hiff₁.mp hall))⟩

/-- **One page is taken and put back**: its arena, now on `purge`, survives the
pool, still counted and mapped. -/
theorem destroy_leaves_purge : ∃ p c p', iobufPoolNew 8 4 true twoPages = some (some p) ∧
    mappedClient.run ⟨p, fun _ => 0⟩ [.get noArena, .unref ⟨1, 1⟩] = some c ∧
    iobufPoolDestroy c.pool = some p' ∧ c.held ⟨1, 0⟩ = 0 ∧ c.held ⟨1, 1⟩ = 0 ∧
    p'.heap 1 ≠ none ∧ p'.arenaCnt = 1 ∧ p'.unmapped = [] := by
  have hrun : ((iobufPoolNew 8 4 true twoPages).bind fun r => r.bind fun p =>
      (mappedClient.run ⟨p, fun _ => 0⟩ [.get noArena, .unref ⟨1, 1⟩]).bind fun c =>
        (iobufPoolDestroy c.pool).map fun p' => decide (c.held ⟨1, 0⟩ = 0 ∧ c.held ⟨1, 1⟩ = 0 ∧
          (p'.heap 1).isNone = false ∧ p'.arenaCnt = 1 ∧ p'.unmapped = [])) = some true := by decide +kernel
  obtain ⟨r, hnew, hr⟩ := Option.bind_eq_some_iff.mp hrun
  obtain ⟨p, rfl, hp⟩ := Option.bind_eq_some_iff.mp hr
  obtain ⟨c, hc, hd⟩ := Option.bind_eq_some_iff.mp hp
  obtain ⟨p', hp', hbad⟩ := Option.map_eq_some_iff.mp hd
  obtain ⟨hheld₀, hheld₁, hlive, hcnt, hlog⟩ := of_decide_eq_true hbad
  refine ⟨p, c, p', hnew, hc, hp', hheld₀, hheld₁, ?_, hcnt, hlog⟩
  intro hnone
  rw [hnone] at hlive
  cases hlive

end LzLib.Iobuf
