/-
  LzLib.Iobuf.PoolInvariant
  ─────────────────────────
  **WHAT A POOL LOOKS LIKE.**

  `PoolOk N p refs al bl` reads the pool `p` off two families of lists: the
  arenas `al l` on the list `l` of the pool, and the iobufs `bl (a, s)` on the
  side `s` of the arena `a`.  `refs b` is the number of references that exist
  to the iobuf `b`, wherever they are held.

  The operations change one arena at a time.  `PoolOk.updateArena` is the one
  rule for that: the new data of this arena, its new place on the lists
  (`Moved`), and the rings after the pointer writes.
-/
import LzLib.Iobuf.PoolDef

namespace LzLib.Iobuf

open LzLib.Foundation

/-! ## §1. The invariant. -/

/-- The number of arenas on the lists of a pool. -/
def arenaTotal (al : PoolList → List Addr) : Nat :=
  (al .arenas).length + (al .filled).length + (al .purge).length

/-- **An arena agrees with its two lists and with the references**: the
counters are the lengths, the lists divide the `N` iobufs, every `ref` counts
the references, and an iobuf is on the active list exactly when it has any. -/
structure ArenaOk (N : Nat) (refs : IobufPtr → Nat) (a : Addr) (A : Arena)
    (active passive : List IobufPtr) : Prop where
  activeCnt : A.activeCnt = active.length
  passiveCnt : A.passiveCnt = passive.length
  partition : (active ++ passive).Perm ((List.range N).map (IobufPtr.mk a))
  counted : ∃ bufs, A.iobufs = some bufs ∧ bufs.length = N ∧
    ∀ i d, bufs[i]? = some d → d.ref = (refs ⟨a, i⟩ : Int)
  active_iff : ∀ b ∈ active ++ passive, b ∈ active ↔ 0 < refs b

/-- **The pool invariant.** -/
structure PoolOk (N : Nat) (p : Pool) (refs : IobufPtr → Nat) (al : PoolList → List Addr)
    (bl : Addr × Side → List IobufPtr) : Prop where
  pageSize : p.pageSize ≠ 0
  pages : p.arenaSize / p.pageSize = N
  pos : 0 < N
  fits : (N : Int) ≤ int32Max
  arenaRings : Rings p.alinks .head .arena (fun _ => True) al
  iobufRings : Rings p.blinks .head .iobuf (fun i => p.heap i.1 ≠ none) bl
  live : ∀ a, p.heap a ≠ none ↔ ∃ l, a ∈ al l
  arenaCnt : p.arenaCnt = arenaTotal al
  arena : ∀ a A, p.heap a = some A → ArenaOk N refs a A (bl (a, .active)) (bl (a, .passive))
  filled : ∀ a A, p.heap a = some A → (a ∈ al .filled ↔ A.passiveCnt = 0)
  purge : ∀ a A, p.heap a = some A → a ∈ al .purge → A.activeCnt = 0
  held : ∀ b, 0 < refs b → p.heap b.arena ≠ none ∧ b.index < N

/-- The pool is fine, for some lists. -/
def PoolInv (N : Nat) (p : Pool) (refs : IobufPtr → Nat) : Prop :=
  ∃ al bl, PoolOk N p refs al bl

theorem head_inj_arena : Function.Injective ArenaNode.head := fun _ _ h => ArenaNode.head.inj h

theorem head_inj_iobuf : Function.Injective IobufNode.head := fun _ _ h => IobufNode.head.inj h

/-! ## §2. Reading an arena. -/

section Reading

variable {N : Nat} {refs : IobufPtr → Nat} {a : Addr} {A : Arena} {active passive : List IobufPtr}

theorem ArenaOk.mem_iff (h : ArenaOk N refs a A active passive) (b : IobufPtr) :
    b ∈ active ++ passive ↔ b.arena = a ∧ b.index < N := by
  rw [h.partition.mem_iff, List.mem_map]
  constructor
  · rintro ⟨i, hi, rfl⟩
    exact ⟨rfl, List.mem_range.mp hi⟩
  · rintro ⟨rfl, hi⟩
    exact ⟨b.index, List.mem_range.mpr hi, rfl⟩

theorem ArenaOk.length (h : ArenaOk N refs a A active passive) :
    active.length + passive.length = N := by
  rw [← List.length_append, h.partition.length_eq, List.length_map, List.length_range]

theorem ArenaOk.nodup (h : ArenaOk N refs a A active passive) : (active ++ passive).Nodup := by
  rw [h.partition.nodup_iff]
  refine List.Nodup.map ?_ List.nodup_range
  intro i j hij
  exact (IobufPtr.mk.inj hij).2

/-- No iobuf has a reference exactly when the active list is empty. -/
theorem ArenaOk.unreferenced (h : ArenaOk N refs a A active passive) (hcnt : A.activeCnt = 0) :
    ∀ i < N, refs ⟨a, i⟩ = 0 := by
  intro i hi
  have hnil : active = [] := by
    rw [h.activeCnt] at hcnt
    exact List.eq_nil_of_length_eq_zero (by omega)
  have hmem := (h.mem_iff ⟨a, i⟩).mpr ⟨rfl, hi⟩
  have hiff := h.active_iff _ hmem
  rw [hnil] at hiff
  simp only [List.not_mem_nil, false_iff] at hiff
  omega

end Reading

theorem PoolOk.arenaLive {N : Nat} {p : Pool} {refs : IobufPtr → Nat} {al : PoolList → List Addr}
    {bl : Addr × Side → List IobufPtr} (h : PoolOk N p refs al bl) {l : PoolList} {a : Addr}
    (ha : a ∈ al l) : ∃ A, p.heap a = some A :=
  Option.ne_none_iff_exists'.mp ((h.live a).mpr ⟨l, ha⟩)

theorem PoolOk.iobufCnt {N : Nat} {p : Pool} {refs : IobufPtr → Nat} {al : PoolList → List Addr}
    {bl : Addr × Side → List IobufPtr} (h : PoolOk N p refs al bl) : p.iobufCnt = some (N : Int) := by
  have hfits := h.fits
  have hneg : ¬ p.pageSize = 0 := h.pageSize
  rw [Pool.iobufCnt, if_neg hneg, h.pages]
  unfold int32Max at hfits
  rw [wrap32_eq (by omega) (by omega)]

/-- The number of arenas can always go down. -/
theorem PoolOk.decArenaCnt {N : Nat} {p : Pool} {refs : IobufPtr → Nat} {al : PoolList → List Addr}
    {bl : Addr × Side → List IobufPtr} (h : PoolOk N p refs al bl) :
    decInt p.arenaCnt = some (p.arenaCnt - 1) := by
  rw [decInt, if_pos]
  rw [h.arenaCnt]
  unfold int32Max
  omega

/-! ## §3. One arena changes place. -/

/-- The arena `a` goes to the list `l`; all others stay where they are. -/
structure Moved (al al' : PoolList → List Addr) (a : Addr) (l : PoolList) : Prop where
  here : ∀ l', a ∈ al' l' ↔ l' = l
  others : ∀ a', a' ≠ a → ∀ l', a' ∈ al' l' ↔ a' ∈ al l'
  total : arenaTotal al' = arenaTotal al

section Moving

variable {L : Links ArenaNode} {al : PoolList → List Addr} {a : Addr} {l₀ : PoolList}

/-- The list an arena is on, and no other. -/
theorem mem_list_iff (R : Rings L ArenaNode.head ArenaNode.arena (fun _ => True) al)
    (ha : a ∈ al l₀) (l : PoolList) : a ∈ al l ↔ l = l₀ := by
  constructor
  · intro hl
    by_contra hne
    exact R.apart l l₀ trivial trivial hne a hl ha
  · rintro rfl
    exact ha

theorem Moved.stay (R : Rings L ArenaNode.head ArenaNode.arena (fun _ => True) al)
    (ha : a ∈ al l₀) : Moved al al a l₀ :=
  ⟨mem_list_iff R ha, fun _ _ _ => Iff.rfl, rfl⟩

theorem Moved.trans {al₁ al₂ al₃ : PoolList → List Addr} {l l' : PoolList}
    (h₁ : Moved al₁ al₂ a l) (h₂ : Moved al₂ al₃ a l') : Moved al₁ al₃ a l' :=
  ⟨h₂.here, fun a' hne l'' => (h₂.others a' hne l'').trans (h₁.others a' hne l''),
   h₂.total.trans h₁.total⟩

/-- **The reserve**: at most one arena on `purge`, and none beside a candidate
on `arenas`. -/
def Spare (al : PoolList → List Addr) : Prop :=
  (al .purge).length ≤ 1 ∧ (al .arenas ≠ [] → al .purge = [])

theorem spare_of_nil {al : PoolList → List Addr} (h : al .purge = []) : Spare al := by
  refine ⟨?_, fun _ => h⟩
  rw [h]
  exact Nat.zero_le 1

/-- `purge` is empty once its only arena has moved elsewhere. -/
theorem Moved.purge_nil {al' : PoolList → List Addr} {l : PoolList} (M : Moved al al' a l)
    (hl : l ≠ .purge) (honly : ∀ a' ∈ al .purge, a' = a) : al' .purge = [] := by
  refine List.eq_nil_iff_forall_not_mem.mpr ?_
  intro a' ha'
  by_cases haa : a' = a
  · rw [haa, M.here] at ha'
    exact hl ha'.symm
  · exact haa (honly a' ((M.others a' haa _).mp ha'))

/-- The lists after `a` has left `l₀`. -/
theorem arenaTotal_erase (ha : a ∈ al l₀) :
    arenaTotal (Function.update al l₀ ((al l₀).erase a)) + 1 = arenaTotal al := by
  have hlen := List.length_erase_of_mem ha
  have hpos := List.length_pos_of_mem ha
  unfold arenaTotal
  cases l₀ <;> simp only [Function.update_self, Function.update_of_ne, ne_eq, reduceCtorEq,
    not_false_eq_true] <;> omega

/-- The lists after one arena more on `l`. -/
theorem arenaTotal_grow (al : PoolList → List Addr) {xs : List Addr} {l : PoolList} (hlen : xs.length = (al l).length + 1) :
    arenaTotal (Function.update al l xs) = arenaTotal al + 1 := by
  unfold arenaTotal
  cases l <;> simp only [Function.update_self, Function.update_of_ne, ne_eq, reduceCtorEq,
    not_false_eq_true] <;> omega

theorem moved_of_place (R : Rings L ArenaNode.head ArenaNode.arena (fun _ => True) al)
    (ha : a ∈ al l₀) {l : PoolList} {xs : List Addr}
    (hxs : xs.Perm (a :: Function.update al l₀ ((al l₀).erase a) l)) :
    Moved al (Function.update (Function.update al l₀ ((al l₀).erase a)) l xs) a l := by
  have herased := R.erased trivial ha
  refine ⟨?_, ?_, ?_⟩
  · intro l'
    by_cases hl : l' = l
    · simp [hl, hxs.mem_iff]
    · rw [Function.update_of_ne hl]
      simp only [herased l' trivial, hl]
  · intro a' hne l'
    have herase : a' ∈ Function.update al l₀ ((al l₀).erase a) l' ↔ a' ∈ al l' :=
      mem_update_erase hne l'
    by_cases hl : l' = l
    · rw [hl, Function.update_self, hxs.mem_iff, List.mem_cons, ← hl, herase]
      exact or_iff_right hne
    · rw [Function.update_of_ne hl, herase]
  · have hgrow := arenaTotal_grow (Function.update al l₀ ((al l₀).erase a)) (l := l)
      (hxs.length_eq.trans (List.length_cons ..))
    have herase := arenaTotal_erase ha
    omega

variable (R : Rings L ArenaNode.head ArenaNode.arena (fun _ => True) al) (ha : a ∈ al l₀)
include R ha

/-- `list_del`, then `list_add`. -/
theorem rings_moveArena (l : PoolList) : ∃ al',
    Rings (listAdd (listDel .poison L (.arena a)) (.arena a) (.head l)) ArenaNode.head ArenaNode.arena
      (fun _ => True) al' ∧ Moved al al' a l := by
  have hdel := R.del .poison trivial ha
  exact ⟨_, hdel.add trivial (R.erased trivial ha), moved_of_place R ha (List.Perm.refl _)⟩

/-- `list_del`, then `list_add_tail`. -/
theorem rings_moveArenaTail (l : PoolList) : ∃ al',
    Rings (listAddTail (listDel .poison L (.arena a)) (.arena a) (.head l)) ArenaNode.head
      ArenaNode.arena (fun _ => True) al' ∧ Moved al al' a l := by
  have hdel := R.del .poison trivial ha
  exact ⟨_, hdel.addTail trivial (R.erased trivial ha),
    moved_of_place R ha (List.perm_append_singleton _ _)⟩

/-- `list_del_init`, then `list_add_tail`. -/
theorem rings_reoffer (l : PoolList) : ∃ al',
    Rings (listAddTail (listDelInit L (.arena a)) (.arena a) (.head l)) ArenaNode.head ArenaNode.arena
      (fun _ => True) al' ∧ Moved al al' a l := by
  have hdel := R.delInit trivial ha
  exact ⟨_, hdel.addTail trivial (R.erased trivial ha),
    moved_of_place R ha (List.perm_append_singleton _ _)⟩

end Moving

/-! ## §4. One arena changes. -/

/-- What an operation on the arena `a` leaves alone. -/
structure Elsewhere (p p' : Pool) (refs refs' : IobufPtr → Nat)
    (bl bl' : Addr × Side → List IobufPtr) (a : Addr) : Prop where
  pageSize : p'.pageSize = p.pageSize
  arenaSize : p'.arenaSize = p.arenaSize
  arenaCnt : p'.arenaCnt = p.arenaCnt
  counts : ∀ b, b.arena ≠ a → refs' b = refs b
  lists : ∀ a' s, a' ≠ a → bl' (a', s) = bl (a', s)

/-- The references of other arenas do not matter to an arena. -/
theorem ArenaOk.congr {N : Nat} {refs refs' : IobufPtr → Nat} {a : Addr} {A : Arena}
    {active passive : List IobufPtr} (h : ArenaOk N refs a A active passive)
    (same : ∀ b : IobufPtr, b.arena = a → refs' b = refs b) : ArenaOk N refs' a A active passive where
  activeCnt := h.activeCnt
  passiveCnt := h.passiveCnt
  partition := h.partition
  counted := by
    obtain ⟨bufs, hbufs, hlen, href⟩ := h.counted
    refine ⟨bufs, hbufs, hlen, ?_⟩
    intro i d hd
    rw [href i d hd, same ⟨a, i⟩ rfl]
  active_iff b hb := by
    rw [h.active_iff b hb, same b ((h.mem_iff b).mp hb).1]

/-- **Everything around one arena**: the invariant only has to be looked at
again for the arena `a`, where the others, their lists and the references to
their iobufs are as they were. -/
theorem PoolOk.around {N : Nat} {p p' : Pool} {refs refs' : IobufPtr → Nat}
    {al al' : PoolList → List Addr} {bl bl' : Addr × Side → List IobufPtr} {a : Addr}
    (h : PoolOk N p refs al bl) (hsize : p'.pageSize = p.pageSize) (hasize : p'.arenaSize = p.arenaSize)
    (hheap : ∀ a', a' ≠ a → p'.heap a' = p.heap a')
    (hmem : ∀ a', a' ≠ a → ∀ l, a' ∈ al' l ↔ a' ∈ al l)
    (hlists : ∀ a' s, a' ≠ a → bl' (a', s) = bl (a', s))
    (hcounts : ∀ b : IobufPtr, b.arena ≠ a → refs' b = refs b)
    (hcnt : p'.arenaCnt = arenaTotal al')
    (arenaRings : Rings p'.alinks ArenaNode.head ArenaNode.arena (fun _ => True) al')
    (iobufRings : Rings p'.blinks IobufNode.head IobufNode.iobuf (fun i => p'.heap i.1 ≠ none) bl')
    (hlive : p'.heap a ≠ none ↔ ∃ l, a ∈ al' l)
    (hhere : ∀ A, p'.heap a = some A → ArenaOk N refs' a A (bl' (a, .active)) (bl' (a, .passive)) ∧
      (a ∈ al' .filled ↔ A.passiveCnt = 0) ∧ (a ∈ al' .purge → A.activeCnt = 0))
    (hheld : ∀ b : IobufPtr, b.arena = a → 0 < refs' b → p'.heap a ≠ none ∧ b.index < N) :
    PoolOk N p' refs' al' bl' where
  pageSize := by rw [hsize]; exact h.pageSize
  pages := by rw [hsize, hasize]; exact h.pages
  pos := h.pos
  fits := h.fits
  arenaRings := arenaRings
  iobufRings := iobufRings
  live := by
    intro a'
    by_cases ha : a' = a
    · rw [ha, hlive]
    · rw [hheap a' ha, h.live a']
      simp only [hmem a' ha]
  arenaCnt := hcnt
  arena := by
    intro a' A hA
    by_cases ha : a' = a
    · subst ha
      exact (hhere A hA).1
    · rw [hheap a' ha] at hA
      rw [hlists a' .active ha, hlists a' .passive ha]
      refine (h.arena a' A hA).congr ?_
      intro b hb
      exact hcounts b (hb ▸ ha)
  filled := by
    intro a' A hA
    by_cases ha : a' = a
    · subst ha
      exact (hhere A hA).2.1
    · rw [hheap a' ha] at hA
      rw [hmem a' ha]
      exact h.filled a' A hA
  purge := by
    intro a' A hA hpurge
    by_cases ha : a' = a
    · subst ha
      exact (hhere A hA).2.2 hpurge
    · rw [hheap a' ha] at hA
      rw [hmem a' ha] at hpurge
      exact h.purge a' A hA hpurge
  held := by
    intro b hb
    by_cases ha : b.arena = a
    · rw [ha]
      exact hheld b ha hb
    · rw [hcounts b ha] at hb
      rw [hheap b.arena ha]
      exact h.held b hb

/-- **The update rule**: the invariant after one arena has changed, from this
arena's new data, its place on the lists, and the rings. -/
theorem PoolOk.updateArena {N : Nat} {p p' : Pool} {refs refs' : IobufPtr → Nat}
    {al al' : PoolList → List Addr} {bl bl' : Addr × Side → List IobufPtr} {a : Addr} {l : PoolList}
    (h : PoolOk N p refs al bl) (A' : Arena) (halive : p.heap a ≠ none)
    (heap : p'.heap = Function.update p.heap a (some A'))
    (elsewhere : Elsewhere p p' refs refs' bl bl' a)
    (arenaRings : Rings p'.alinks ArenaNode.head ArenaNode.arena (fun _ => True) al')
    (iobufRings : Rings p'.blinks IobufNode.head IobufNode.iobuf (fun i => p.heap i.1 ≠ none) bl')
    (moved : Moved al al' a l) (hok : ArenaOk N refs' a A' (bl' (a, .active)) (bl' (a, .passive)))
    (hfilled : l = .filled ↔ A'.passiveCnt = 0) (hpurge : l = .purge → A'.activeCnt = 0)
    (hindex : ∀ b, b.arena = a → 0 < refs' b → b.index < N) :
    PoolOk N p' refs' al' bl' := by
  have hother : ∀ a', a' ≠ a → p'.heap a' = p.heap a' := by
    intro a' hne
    rw [heap, Function.update_of_ne hne]
  have hhere : p'.heap a = some A' := by rw [heap, Function.update_self]
  have halive' : p'.heap a ≠ none := by simp [hhere]
  -- so the same arenas are live
  have hlive : ∀ a', p'.heap a' ≠ none → p.heap a' ≠ none := by
    intro a' hne
    by_cases ha : a' = a
    · rw [ha]
      exact halive
    · rw [← hother a' ha]
      exact hne
  refine h.around elsewhere.pageSize elsewhere.arenaSize hother moved.others elsewhere.lists
    elsewhere.counts ?_ arenaRings (iobufRings.restrict (fun i hi => hlive i.1 hi) fun _ _ => rfl) ?_ ?_ ?_
  · rw [elsewhere.arenaCnt, moved.total]
    exact h.arenaCnt
  · exact iff_of_true halive' ⟨l, (moved.here l).mpr rfl⟩
  · intro A hA
    rw [hhere, Option.some.injEq] at hA
    subst hA
    refine ⟨hok, ?_, ?_⟩
    · rw [moved.here, ← hfilled]
      exact eq_comm
    · intro hmem
      exact hpurge ((moved.here .purge).mp hmem).symm
  · intro b hb hpos
    exact ⟨halive', hindex b hb hpos⟩

end LzLib.Iobuf
