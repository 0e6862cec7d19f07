/-
  LzLib.Iobuf.PoolRuns
  ────────────────────
  **GET, REF AND UNREF KEEP THE POOL FINE.**

  Each operation has one specification over `PoolOk`: what it does to the
  references, and that it has an outcome.  An iobuf that `iobuf_get` returns
  had no reference; one that `iobuf_unref` puts back has none left.  The only
  way for an operation not to have an outcome is a counter at `INT_MAX`.
-/
import LzLib.Iobuf.Arenas
import LzLib.Foundation.Runs

namespace LzLib.Iobuf

open LzLib.Foundation

/-! ## §1. The reference count of one iobuf. -/

section Refs

variable {N : Nat} {p : Pool} {refs : IobufPtr → Nat} {al : PoolList → List Addr}
  {bl : Addr × Side → List IobufPtr} {b : IobufPtr}

/-- The data of an iobuf of a live arena. -/
theorem ArenaOk.data {a : Addr} {A : Arena} {active passive : List IobufPtr}
    (h : ArenaOk N refs a A active passive) {i : Nat} (hi : i < N) : ∃ bufs d,
      A.iobufs = some bufs ∧ bufs.length = N ∧ bufs[i]? = some d ∧ d.ref = (refs ⟨a, i⟩ : Int) := by
  obtain ⟨bufs, hbufs, hlen, hrefs⟩ := h.counted
  have hget : bufs[i]? = some bufs[i] := List.getElem?_eq_getElem (by omega)
  exact ⟨bufs, bufs[i], hbufs, hlen, hget, hrefs i _ hget⟩

theorem modifyRef_run {A : Arena} {bufs : List IobufData} {d : IobufData} {f : Int → Option Int} {r : Int}
    (hA : p.heap b.arena = some A) (hbufs : A.iobufs = some bufs) (hd : bufs[b.index]? = some d)
    (hf : f d.ref = some r) : p.modifyRef b f
      = some (p.setArena b.arena { A with iobufs := some (bufs.set b.index { d with ref := r }) }, r) := by
  simp only [Pool.modifyRef, hA, hbufs, hd, hf, Option.map_some]

/-- The counts of an arena after one `ref` has been written. -/
theorem counted_set {a : Addr} {A : Arena} {active passive : List IobufPtr}
    (h : ArenaOk N refs a A active passive) {bufs : List IobufData} {i : Nat} {d : IobufData} {r : Nat}
    (hbufs : A.iobufs = some bufs) (hd : bufs[i]? = some d) :
    ∃ bufs', some (bufs.set i { d with ref := (r : Int) }) = some bufs' ∧ bufs'.length = N ∧
      ∀ k d', bufs'[k]? = some d' → d'.ref = (Function.update refs ⟨a, i⟩ r ⟨a, k⟩ : Int) := by
  obtain ⟨bufs₀, hbufs₀, hlen, hrefs⟩ := h.counted
  obtain rfl : bufs = bufs₀ := Option.some.inj (hbufs.symm.trans hbufs₀)
  refine ⟨_, rfl, by rw [List.length_set, hlen], ?_⟩
  intro k d' hk
  have hi := (List.getElem?_eq_some_iff.mp hd).1
  by_cases hki : k = i
  · subst hki
    rw [List.getElem?_set_self hi, Option.some.injEq] at hk
    rw [← hk, Function.update_self]
  · rw [List.getElem?_set_ne (Ne.symm hki)] at hk
    rw [hrefs k d' hk, Function.update_of_ne (by simp [hki])]

/-- **The rule for one reference count**: the iobuf goes to the side its new
count wants, and the others stay on theirs. -/
theorem ArenaOk.recount {A : Arena} {active passive active' passive' : List IobufPtr} {r : Nat}
    (h : ArenaOk N refs b.arena A active passive) {bufs : List IobufData} {d : IobufData}
    (hbufs : A.iobufs = some bufs) (hd : bufs[b.index]? = some d)
    (hperm : (active' ++ passive').Perm (active ++ passive)) (hself : b ∈ active' ↔ 0 < r)
    (hothers : ∀ b', b' ≠ b → (b' ∈ active' ↔ b' ∈ active)) :
    ArenaOk N (Function.update refs b r) b.arena { A with
      iobufs := some (bufs.set b.index { d with ref := (r : Int) })
      activeCnt := active'.length, passiveCnt := passive'.length } active' passive' where
  activeCnt := rfl
  passiveCnt := rfl
  partition := hperm.trans h.partition
  counted := counted_set h hbufs hd
  active_iff := by
    intro b' hb'
    by_cases hbb : b' = b
    · rw [hbb, Function.update_self, hself]
    · rw [Function.update_of_ne hbb, hothers b' hbb]
      exact h.active_iff b' (hperm.mem_iff.mp hb')

/-- The counters of an arena that gives an iobuf away stay in range. -/
theorem ArenaOk.getCounts {a : Addr} {A : Arena} {active rest : List IobufPtr}
    (h : ArenaOk N refs a A active (b :: rest)) (hfits : (N : Int) ≤ int32Max) :
    decInt A.passiveCnt = some (rest.length : Int) ∧
      incInt A.activeCnt = some (active.length + 1 : Int) := by
  have hlength := h.length
  rw [List.length_cons] at hlength
  constructor
  · rw [decInt, if_pos (by rw [h.passiveCnt]; unfold int32Max; omega), h.passiveCnt, List.length_cons]
    push_cast
    rw [Int.add_sub_cancel]
  · rw [incInt, if_pos (by rw [h.activeCnt]; omega), h.activeCnt]

/-- So do those of an arena that takes one back. -/
theorem ArenaOk.putCounts {a : Addr} {A : Arena} {active passive : List IobufPtr}
    (h : ArenaOk N refs a A active passive) (hfits : (N : Int) ≤ int32Max) (hact : b ∈ active) :
    decInt A.activeCnt = some ((active.erase b).length : Int) ∧
      incInt A.passiveCnt = some (passive.length + 1 : Int) := by
  have hlength := h.length
  have hpos := List.length_pos_of_mem hact
  have herase := List.length_erase_of_mem hact
  constructor
  · rw [decInt, if_pos (by rw [h.activeCnt]; unfold int32Max; omega), h.activeCnt]
    congr 1
    omega
  · rw [incInt, if_pos (by rw [h.passiveCnt]; omega), h.passiveCnt]

/-- The first passive iobuf becomes active with its first reference. -/
theorem ArenaOk.activated {A : Arena} {active rest : List IobufPtr}
    (h : ArenaOk N refs b.arena A active (b :: rest)) {bufs : List IobufData} {d : IobufData}
    (hbufs : A.iobufs = some bufs) (hd : bufs[b.index]? = some d) :
    ArenaOk N (Function.update refs b 1) b.arena { A with
      iobufs := some (bufs.set b.index { d with ref := ((1 : Nat) : Int) })
      activeCnt := (b :: active).length, passiveCnt := rest.length } (b :: active) rest := by
  have hperm : (b :: active ++ rest).Perm (active ++ b :: rest) := List.perm_middle.symm
  refine h.recount hbufs hd hperm (iff_of_true List.mem_cons_self Nat.one_pos) ?_
  intro b' hbb
  rw [List.mem_cons, or_iff_right hbb]

/-- An active iobuf becomes passive with its last reference gone. -/
theorem ArenaOk.deactivated {A : Arena} {active passive : List IobufPtr}
    (h : ArenaOk N refs b.arena A active passive) {bufs : List IobufData} {d : IobufData}
    (hbufs : A.iobufs = some bufs) (hd : bufs[b.index]? = some d) (hact : b ∈ active) :
    ArenaOk N (Function.update refs b 0) b.arena { A with
      iobufs := some (bufs.set b.index { d with ref := ((0 : Nat) : Int) })
      activeCnt := (active.erase b).length, passiveCnt := (b :: passive).length }
      (active.erase b) (b :: passive) := by
  have hperm : (active.erase b ++ b :: passive).Perm (active ++ passive) :=
    List.perm_middle.trans ((List.perm_cons_erase hact).symm.append_right _)
  have hnodup := (List.nodup_append.mp h.nodup).1
  refine h.recount hbufs hd hperm (iff_of_false hnodup.not_mem_erase (Nat.lt_irrefl 0)) ?_
  intro b' hbb
  exact List.mem_erase_of_ne hbb

/-- Only `b` has a new count. -/
theorem PoolOk.index_lt (h : PoolOk N p refs al bl) (hindex : b.index < N) {r : Nat} {b' : IobufPtr}
    (hb' : 0 < Function.update refs b r b') : b'.index < N := by
  by_cases hbb : b' = b
  · exact hbb ▸ hindex
  · rw [Function.update_of_ne hbb] at hb'
    exact (h.held b' hb').2

/-- Iobufs of other arenas keep their counts. -/
theorem update_elsewhere {a : Addr} (hba : b.arena = a) {r : Nat} {b' : IobufPtr} (hne : b'.arena ≠ a) :
    Function.update refs b r b' = refs b' := by
  refine Function.update_of_ne ?_ _ _
  rintro rfl
  exact hne hba

/-- **The count of a referenced iobuf changes and stays positive.** -/
theorem PoolOk.setRef (h : PoolOk N p refs al bl) (hb : 0 < refs b) {k : Nat} (hk : 0 < k)
    {f : Int → Option Int} (hf : f (refs b) = some (k : Int)) :
    ∃ p', p.modifyRef b f = some (p', (k : Int)) ∧ p'.puts = p.puts ∧
      PoolOk N p' (Function.update refs b k) al bl := by
  obtain ⟨hlive, hindex⟩ := h.held b hb
  obtain ⟨A, hA⟩ := Option.ne_none_iff_exists'.mp hlive
  have hok := h.arena b.arena A hA
  obtain ⟨bufs, d, hbufs, hlen, hd, href⟩ := hok.data hindex
  rw [← href] at hf
  refine ⟨_, modifyRef_run hA hbufs hd hf, rfl, ?_⟩
  obtain ⟨l, hl⟩ := (h.live b.arena).mp hlive
  have hact : b ∈ bl (b.arena, .active) :=
    (hok.active_iff b ((hok.mem_iff b).mpr ⟨rfl, hindex⟩)).mpr hb
  have hrecount := hok.recount (r := k) hbufs hd (List.Perm.refl _) (iff_of_true hact hk)
    fun _ _ => Iff.rfl
  rw [← hok.activeCnt, ← hok.passiveCnt] at hrecount
  refine h.updateArena _ hlive rfl ⟨rfl, rfl, rfl, ?_, fun _ _ _ => rfl⟩ h.arenaRings h.iobufRings
    (Moved.stay h.arenaRings hl) hrecount ?_ ?_ fun b' _ hb' => h.index_lt hindex hb'
  · intro b' hne
    exact update_elsewhere rfl hne
  · rw [eq_comm, ← mem_list_iff h.arenaRings hl .filled]
    exact h.filled b.arena A hA
  · rintro rfl
    exact h.purge b.arena A hA hl

/-- **`iobuf_ref`** counts one more reference, short of `INT_MAX`. -/
theorem iobufRef_spec (h : PoolOk N p refs al bl) (hb : 0 < refs b) :
    (int32Max ≤ refs b ∧ iobufRef p b = none) ∨
    ∃ p', iobufRef p b = some p' ∧ p'.puts = p.puts ∧
      PoolOk N p' (Function.update refs b (refs b + 1)) al bl := by
  by_cases hfull : (refs b : Int) < int32Max
  · have hinc : incInt (refs b) = some ((refs b + 1 : Nat) : Int) := by
      rw [incInt, if_pos hfull]
      rfl
    obtain ⟨p', hrun, hputs, hok⟩ := h.setRef hb (Nat.succ_pos _) hinc
    refine Or.inr ⟨p', ?_, hputs, hok⟩
    rw [iobufRef, hrun]
    rfl
  · refine Or.inl ⟨by omega, ?_⟩
    obtain ⟨hlive, hindex⟩ := h.held b hb
    obtain ⟨A, hA⟩ := Option.ne_none_iff_exists'.mp hlive
    obtain ⟨bufs, d, hbufs, _, hd, href⟩ := (h.arena b.arena A hA).data hindex
    have hinc : incInt d.ref = none := by
      have href' : d.ref = (refs b : Int) := href
      rw [href', incInt, if_neg hfull]
    simp only [iobufRef, Pool.modifyRef, hA, hbufs, hd, hinc, Option.map_none]

end Refs

/-! ## §2. Getting. -/

/-- The lists after the iobuf `b` has gone from one side of its arena to the
front of the other. -/
def movedIobuf (bl : Addr × Side → List IobufPtr) (a : Addr) (s s' : Side) (b : IobufPtr) :
    Addr × Side → List IobufPtr :=
  Function.update (Function.update bl (a, s) ((bl (a, s)).erase b)) (a, s') (b :: bl (a, s'))

section MovedIobuf

variable {bl : Addr × Side → List IobufPtr} {a : Addr} {s s' : Side} {b : IobufPtr}

theorem movedIobuf_to : movedIobuf bl a s s' b (a, s') = b :: bl (a, s') := Function.update_self ..

theorem movedIobuf_from (hss : s ≠ s') : movedIobuf bl a s s' b (a, s) = (bl (a, s)).erase b := by
  rw [movedIobuf, Function.update_of_ne (by simp [hss]), Function.update_self]

theorem movedIobuf_other {a' : Addr} (t : Side) (hne : a' ≠ a) :
    movedIobuf bl a s s' b (a', t) = bl (a', t) := by
  rw [movedIobuf, Function.update_of_ne (fun e => hne (congrArg Prod.fst e)),
    Function.update_of_ne (fun e => hne (congrArg Prod.fst e))]

/-- `list_add` after the node has left the other side. -/
theorem rings_movedIobuf (s' : Side) {L L' : Links IobufNode} {used : Addr × Side → Prop}
    (R : Rings L IobufNode.head IobufNode.iobuf used bl) (hs : used (a, s)) (hs' : used (a, s'))
    (hss : s ≠ s') (hb : b ∈ bl (a, s))
    (R' : Rings L' IobufNode.head IobufNode.iobuf used
      (Function.update bl (a, s) ((bl (a, s)).erase b))) :
    Rings (listAdd L' (.iobuf b) (.head (a, s'))) IobufNode.head IobufNode.iobuf used
      (movedIobuf bl a s s' b) := by
  have hadd := R'.add (i := (a, s')) hs' (R.erased (i := (a, s)) hs hb)
  have hother : Function.update bl (a, s) ((bl (a, s)).erase b) (a, s') = bl (a, s') :=
    Function.update_of_ne (by simp [Ne.symm hss]) _ _
  rw [hother] at hadd
  exact hadd

/-- **An iobuf changes sides**: the update rule, where the count of `b` is the
only one that changes. -/
theorem PoolOk.moveIobuf {N : Nat} {p p' : Pool} {refs : IobufPtr → Nat} {r : Nat}
    {al al' : PoolList → List Addr} {l : PoolList} (h : PoolOk N p refs al bl) (hba : b.arena = a)
    (hindex : b.index < N) (A' : Arena) (halive : p.heap a ≠ none)
    (heap : p'.heap = Function.update p.heap a (some A')) (hsize : p'.pageSize = p.pageSize)
    (hasize : p'.arenaSize = p.arenaSize) (hcnt : p'.arenaCnt = p.arenaCnt)
    (arenaRings : Rings p'.alinks ArenaNode.head ArenaNode.arena (fun _ => True) al')
    (iobufRings : Rings p'.blinks IobufNode.head IobufNode.iobuf (fun i => p.heap i.1 ≠ none)
      (movedIobuf bl a s s' b))
    (moved : Moved al al' a l) (hok : ArenaOk N (Function.update refs b r) a A'
      (movedIobuf bl a s s' b (a, .active)) (movedIobuf bl a s s' b (a, .passive)))
    (hfilled : l = .filled ↔ A'.passiveCnt = 0) (hpurge : l = .purge → A'.activeCnt = 0) :
    PoolOk N p' (Function.update refs b r) al' (movedIobuf bl a s s' b) := by
  refine h.updateArena A' halive heap ⟨hsize, hasize, hcnt, ?_, ?_⟩ arenaRings iobufRings moved hok
    hfilled hpurge ?_
  · intro b' hne
    exact update_elsewhere hba hne
  · intro a' t hne
    exact movedIobuf_other t hne
  · intro b' _ hb'
    exact h.index_lt hindex hb'

end MovedIobuf

section Get

variable {N : Nat} {p : Pool} {refs : IobufPtr → Nat} {al : PoolList → List Addr}
  {bl : Addr × Side → List IobufPtr}

/-- The traversal of `arenas` ends, at an arena of the list or at its head. -/
theorem selectLoop_spec (h : PoolOk N p refs al bl) :
    ∀ (xs pre : List Addr) (n : Nat), al .arenas = pre ++ xs → xs.length < n →
      ∃ r, selectLoop p n ((xs.head?.map ArenaNode.arena).getD (.head .arenas)) = some r ∧
        ∀ a, r = some a → a ∈ al .arenas := by
  intro xs
  induction xs with
  | nil =>
      intro pre n _ hn
      obtain ⟨m, rfl⟩ := Nat.exists_eq_succ_of_ne_zero (by omega : n ≠ 0)
      exact ⟨none, rfl, by simp⟩
  | cons a rest ih =>
      intro pre n hpre hn
      obtain ⟨m, rfl⟩ := Nat.exists_eq_succ_of_ne_zero (by omega : n ≠ 0)
      have hmem : a ∈ al .arenas := by rw [hpre]; simp
      obtain ⟨A, hA⟩ := h.arenaLive hmem
      have hnext := h.arenaRings.next (i := .arenas) trivial hpre
      simp only [List.head?_cons, Option.map_some, Option.getD_some, selectLoop, hA]
      by_cases hp : A.passiveCnt ≠ 0
      · rw [if_pos hp]
        refine ⟨some a, rfl, ?_⟩
        intro a' ha
        cases ha
        exact hmem
      · rw [if_neg hp, hnext]
        exact ih (pre ++ [a]) m (by rw [hpre]; simp) (by simpa using hn)

/-- **`__iobuf_select_arena`**: the arena it returns is on `arenas`. -/
theorem iobufSelectArena_spec (h : PoolOk N p refs al bl) (env : AllocEnv)
    (hfresh : ∀ a, env.calloc = some a → p.heap a = none) :
    (int32Max ≤ p.arenaCnt ∧ iobufSelectArena p env = none) ∨
    ∃ p' r al' bl', iobufSelectArena p env = some (p', r) ∧ p'.puts = p.puts ∧
      PoolOk N p' refs al' bl' ∧ (∀ a, r = some a → a ∈ al' .arenas) ∧
      (Spare al → al' .purge = []) := by
  have hlen : (al .arenas).length < p.arenaCnt.toNat + 1 := by
    rw [h.arenaCnt, Int.toNat_natCast, arenaTotal]
    omega
  obtain ⟨r, hrun, hr⟩ := selectLoop_spec h (al .arenas) [] _ rfl hlen
  unfold iobufSelectArena
  rw [h.arenaRings.first (i := .arenas) trivial, hrun]
  cases r with
  | none => exact iobufPoolAddArena_spec h env hfresh
  | some a =>
      refine Or.inr ⟨p, some a, al, bl, rfl, rfl, h, hr, ?_⟩
      intro hspare
      exact hspare.2 (List.ne_nil_of_mem (hr a rfl))

/-- The code of `__iobuf_get` on an arena with a passive iobuf. -/
theorem iobufGetLocked_run {a : Addr} {A : Arena} {b : IobufPtr} {x y : Int}
    (hfirst : (p.blinks (.head (a, .passive))).next = .iobuf b) (hA : p.heap a = some A)
    (hx : decInt A.passiveCnt = some x) (hy : incInt A.activeCnt = some y) {l₀ : PoolList}
    (R : Rings p.alinks ArenaNode.head ArenaNode.arena (fun _ => True) al) (ha : a ∈ al l₀) :
    ∃ L al', iobufGetLocked p a = some ({ p with
        alinks := L
        blinks := listAdd (listDel .poison p.blinks (.iobuf b)) (.iobuf b) (.head (a, .active))
        heap := Function.update p.heap a (some { A with passiveCnt := x, activeCnt := y }) }, b) ∧
      Rings L ArenaNode.head ArenaNode.arena (fun _ => True) al' ∧
      Moved al al' a (if x = 0 then .filled else l₀) := by
  unfold iobufGetLocked
  simp only [hfirst, hA, hx, hy]
  by_cases hx0 : x = 0
  · obtain ⟨al', hR, hmoved⟩ := rings_moveArena R ha .filled
    simp only [if_pos hx0]
    exact ⟨_, al', rfl, hR, hmoved⟩
  · simp only [if_neg hx0]
    exact ⟨_, al, rfl, R, Moved.stay R ha⟩

/-- An arena of `arenas` has a passive iobuf to give away. -/
theorem PoolOk.firstPassive (h : PoolOk N p refs al bl) {a : Addr} (ha : a ∈ al .arenas) {A : Arena}
    (hA : p.heap a = some A) : ∃ b rest, bl (a, .passive) = b :: rest ∧ refs b = 0 := by
  have hok := h.arena a A hA
  have hlive : p.heap a ≠ none := by simp [hA]
  have hnotfull : A.passiveCnt ≠ 0 := by
    intro hz
    have hf := (h.filled a A hA).mpr hz
    exact h.arenaRings.apart .arenas .filled trivial trivial (by simp) a ha hf
  obtain ⟨b, rest, hpassive⟩ : ∃ b rest, bl (a, .passive) = b :: rest := by
    refine List.exists_cons_of_ne_nil ?_
    intro hnil
    rw [hok.passiveCnt, hnil] at hnotfull
    exact hnotfull rfl
  have hbmem : b ∈ bl (a, .passive) := by rw [hpassive]; simp
  have hnactive : b ∉ bl (a, .active) := fun hact =>
    h.iobufRings.apart (a, .active) (a, .passive) hlive hlive (by simp) b hact hbmem
  have hiff := hok.active_iff b (List.mem_append_right _ hbmem)
  refine ⟨b, rest, hpassive, ?_⟩
  by_contra hne
  exact hnactive (hiff.mpr (by omega))

/-- **An iobuf is taken** from an arena on `arenas`: it had no reference, the
pool with its first reference is fine, and no arena goes to `purge`. -/
theorem PoolOk.take (h : PoolOk N p refs al bl) {a : Addr} (ha : a ∈ al .arenas) :
    ∃ p₁ p₂ b al' bl', iobufGetLocked p a = some (p₁, b) ∧ iobufRef p₁ b = some p₂ ∧
      p₂.puts = p.puts ∧ refs b = 0 ∧ PoolOk N p₂ (Function.update refs b 1) al' bl' ∧
      (al .purge = [] → al' .purge = []) := by
  obtain ⟨A, hA⟩ := h.arenaLive ha
  obtain ⟨b, rest, hpassive, href⟩ := h.firstPassive ha hA
  have hbmem : b ∈ bl (a, .passive) := by rw [hpassive]; simp
  obtain ⟨hba, hindex⟩ := ((h.arena a A hA).mem_iff b).mp (List.mem_append_right _ hbmem)
  subst hba
  have hok := h.arena b.arena A hA
  have hlive : p.heap b.arena ≠ none := by simp [hA]
  obtain ⟨bufs, d, hbufs, hlen, hd, hdref⟩ := hok.data hindex
  rw [hpassive] at hok
  obtain ⟨hdec, hinc⟩ := hok.getCounts h.fits
  have hfirst : (p.blinks (.head (b.arena, .passive))).next = .iobuf b := by
    rw [h.iobufRings.first (i := (b.arena, .passive)) hlive, hpassive]
    rfl
  -- the arena is full when its last passive iobuf goes
  obtain ⟨L, al', hrun, hrings, hmoved⟩ := iobufGetLocked_run hfirst hA hdec hinc h.arenaRings ha
  have hd0 : d.ref = 0 := by
    rw [hdref]
    exact congrArg Int.ofNat href
  have hinc₁ : incInt d.ref = some ((1 : Nat) : Int) := by rw [hd0]; decide
  have hadd := rings_movedIobuf .active h.iobufRings hlive hlive (by simp) hbmem
    (h.iobufRings.del .poison (i := (b.arena, .passive)) hlive hbmem)
  have hheap : Function.update p.heap b.arena (some { A with
        passiveCnt := (rest.length : Int)
        activeCnt := ((bl (b.arena, .active)).length + 1 : Int) }) b.arena
      = some { A with
          passiveCnt := (rest.length : Int), activeCnt := (bl (b.arena, .active)).length + 1 } :=
    Function.update_self ..
  have hstays : (if (rest.length : Int) = 0 then PoolList.filled else .arenas) ≠ .purge := by
    split <;> simp
  refine ⟨_, _, b, al', _, hrun, congrArg (Option.map Prod.fst)
    (modifyRef_run (A := { A with
      passiveCnt := (rest.length : Int), activeCnt := (bl (b.arena, .active)).length + 1 })
      hheap hbufs hd hinc₁), rfl, href,
    h.moveIobuf rfl hindex { A with
      iobufs := some (bufs.set b.index { d with ref := ((1 : Nat) : Int) })
      passiveCnt := rest.length, activeCnt := (bl (b.arena, .active)).length + 1 } hlive ?_ rfl rfl rfl
      hrings hadd hmoved ?_ ?_ ?_, ?_⟩
  · show Function.update (Function.update p.heap b.arena _) b.arena _ = _
    rw [Function.update_idem]
  · rw [movedIobuf_to, movedIobuf_from (by simp), hpassive, List.erase_cons_head]
    exact hok.activated hbufs hd
  · by_cases hz : (rest.length : Int) = 0
    · rw [if_pos hz]
      exact iff_of_true rfl hz
    · rw [if_neg hz]
      exact iff_of_false (by simp) hz
  · intro hpurge
    exact absurd hpurge hstays
  · intro hnil
    refine hmoved.purge_nil hstays ?_
    rw [hnil]
    intro a' ha'
    cases ha'

/-- A pool after an operation that keeps it fine, and its reserve bounded. -/
def PoolNext (N : Nat) (al : PoolList → List Addr) (p' : Pool) (refs' : IobufPtr → Nat) : Prop :=
  ∃ al' bl', PoolOk N p' refs' al' bl' ∧ (Spare al → Spare al')

theorem PoolNext.inv {p' : Pool} {refs' : IobufPtr → Nat} (h : PoolNext N al p' refs') :
    PoolInv N p' refs' := by
  obtain ⟨al', bl', hok, -⟩ := h
  exact ⟨al', bl', hok⟩

/-- **`iobuf_get`**: what it returns had no reference and now has one; if
nothing could be allocated, nothing is referenced anew. -/
theorem iobufGet_spec (h : PoolOk N p refs al bl) (env : AllocEnv)
    (hfresh : ∀ a, env.calloc = some a → p.heap a = none) :
    (int32Max ≤ p.arenaCnt ∧ iobufGet p env = none) ∨
    (∃ p', iobufGet p env = some (p', none) ∧ p'.puts = p.puts ∧ PoolNext N al p' refs) ∨
    ∃ p' b, iobufGet p env = some (p', some b) ∧ p'.puts = p.puts ∧ refs b = 0 ∧
      PoolNext N al p' (Function.update refs b 1) := by
  unfold iobufGet
  rcases iobufSelectArena_spec h env hfresh with
    ⟨hfull, hnone⟩ | ⟨p', r, al', bl', hrun, hputs, hok, hr, hspare⟩
  · rw [hnone]
    exact Or.inl ⟨hfull, rfl⟩
  · rw [hrun]
    cases r with
    | none => exact Or.inr (Or.inl ⟨p', rfl, hputs, al', bl', hok, fun hs => spare_of_nil (hspare hs)⟩)
    | some a =>
        obtain ⟨p₁, p₂, b, al₂, bl₂, hget, href, hputs₂, hzero, hok₂, hnil⟩ := hok.take (hr a rfl)
        simp only [hget, href, Option.map_some]
        exact Or.inr (Or.inr ⟨p₂, b, rfl, hputs₂.trans hputs, hzero, al₂, bl₂, hok₂,
          fun hs => spare_of_nil (hnil (hspare hs))⟩)

end Get

/-! ## §3. Putting back. -/

section Put

variable {N : Nat} {p : Pool} {refs : IobufPtr → Nat} {al : PoolList → List Addr}
  {bl : Addr × Side → List IobufPtr} {b : IobufPtr}

/-- The code of `__iobuf_put`: the arena may change its list twice. -/
theorem iobufPutLocked_run {A : Arena} {x y : Int} (hA : p.heap b.arena = some A)
    (hx : decInt A.activeCnt = some x) (hy : incInt A.passiveCnt = some y) {l₀ : PoolList}
    (R : Rings p.alinks ArenaNode.head ArenaNode.arena (fun _ => True) al) (ha : b.arena ∈ al l₀) :
    ∃ L al', iobufPutLocked p b = some { p with
        alinks := L
        blinks := listAdd (listDelInit p.blinks (.iobuf b)) (.iobuf b) (.head (b.arena, .passive))
        puts := p.puts ++ [b]
        heap := Function.update p.heap b.arena (some { A with activeCnt := x, passiveCnt := y }) } ∧
      Rings L ArenaNode.head ArenaNode.arena (fun _ => True) al' ∧
      Moved al al' b.arena (if x = 0 then .purge else if A.passiveCnt = 0 then .arenas else l₀) := by
  unfold iobufPutLocked
  simp only [hA, hx, hy]
  -- where the arena is after the first branch
  obtain ⟨p₁, al₁, l₁, hp₁, hlinks, R₁, hmoved₁, hl₁⟩ : ∃ p₁ al₁ l₁,
      (if A.passiveCnt = 0 then p.moveArenaTail b.arena .arenas else p) = p₁ ∧
      p₁ = { p with alinks := p₁.alinks } ∧
      Rings p₁.alinks ArenaNode.head ArenaNode.arena (fun _ => True) al₁ ∧ Moved al al₁ b.arena l₁ ∧
      l₁ = if A.passiveCnt = 0 then .arenas else l₀ := by
    by_cases hfull : A.passiveCnt = 0
    · obtain ⟨al₁, R₁, hmoved₁⟩ := rings_moveArenaTail R ha .arenas
      simp only [if_pos hfull]
      exact ⟨_, al₁, .arenas, rfl, rfl, R₁, hmoved₁, rfl⟩
    · simp only [if_neg hfull]
      exact ⟨p, al, l₀, rfl, rfl, R, Moved.stay R ha, rfl⟩
  rw [hp₁, ← hl₁, hlinks]
  by_cases hx0 : x = 0
  · obtain ⟨al', R', hmoved⟩ := rings_moveArenaTail R₁ ((hmoved₁.here l₁).mpr rfl) .purge
    simp only [if_pos hx0]
    exact ⟨_, al', rfl, R', hmoved₁.trans hmoved⟩
  · simp only [if_neg hx0]
    exact ⟨_, al₁, rfl, R₁, hmoved₁⟩

/-- Where the arena of `b` goes when an iobuf is put back: it was in use, is
not full any more, and one with a single page goes straight to `purge`. -/
structure PutAway (N : Nat) (al al' : PoolList → List Addr) (a : Addr) (l : PoolList) : Prop where
  moved : Moved al al' a l
  inUse : a ∉ al .purge
  notFull : l ≠ .filled
  fromFilled : a ∈ al .filled → (l = .purge ↔ N = 1)

/-- Where the arena of `b` goes, read off its counters before the put: `x`
iobufs stay active. -/
theorem putAway_of_counts (h : PoolOk N p refs al bl) {a : Addr} {A : Arena} (hA : p.heap a = some A)
    {l₀ : PoolList} (hl₀ : a ∈ al l₀) {x : Nat} (hactive : A.activeCnt = x + 1)
    {al' : PoolList → List Addr} (moved : Moved al al' a
      (if (x : Int) = 0 then .purge else if A.passiveCnt = 0 then .arenas else l₀)) :
    PutAway N al al' a (if (x : Int) = 0 then .purge else if A.passiveCnt = 0 then .arenas else l₀) ∧
      ((if (x : Int) = 0 then PoolList.purge else if A.passiveCnt = 0 then .arenas else l₀) = .purge →
        (x : Int) = 0) := by
  have hfull : A.passiveCnt = 0 ↔ l₀ = .filled := by
    rw [← h.filled a A hA, mem_list_iff h.arenaRings hl₀, eq_comm]
  have hnotpurge : l₀ ≠ .purge := by
    rintro rfl
    have hzero := h.purge a A hA hl₀
    omega
  have hok := h.arena a A hA
  have hlength := hok.length
  have hacnt := hok.activeCnt
  have hpcnt := hok.passiveCnt
  refine ⟨⟨moved, ?_, ?_, ?_⟩, ?_⟩
  · intro hpurge
    exact hnotpurge ((mem_list_iff h.arenaRings hl₀ .purge).mp hpurge).symm
  · -- an arena on `filled` goes to `arenas`, or on to `purge`
    split
    · simp
    · split
      · simp
      next hy => exact fun e => hy (hfull.mpr e)
  · -- from `filled`, all `N` iobufs were active
    intro hfilled
    have hzero := (h.filled a A hA).mp hfilled
    by_cases hx : (x : Int) = 0
    · rw [if_pos hx]
      exact iff_of_true rfl (by omega)
    · rw [if_neg hx, if_pos hzero]
      refine iff_of_false (by simp) ?_
      omega
  · by_cases hx : (x : Int) = 0
    · exact fun _ => hx
    · rw [if_neg hx]
      by_cases hy : A.passiveCnt = 0
      · rw [if_pos hy]
        intro hpurge
        cases hpurge
      · rw [if_neg hy]
        exact fun e => absurd e hnotpurge

/-- **The last reference goes**: the iobuf is passive again, and its arena is
where its counters say. -/
theorem PoolOk.putBack (h : PoolOk N p refs al bl) (hb : refs b = 1) :
    ∃ p₁ p₂ al' bl' l, p.modifyRef b decInt = some (p₁, 0) ∧ iobufPutLocked p₁ b = some p₂ ∧
      p₂.puts = p.puts ++ [b] ∧ PoolOk N p₂ (Function.update refs b 0) al' bl' ∧
      PutAway N al al' b.arena l := by
  obtain ⟨hlive, hindex⟩ := h.held b (by omega)
  obtain ⟨A, hA⟩ := Option.ne_none_iff_exists'.mp hlive
  have hok := h.arena b.arena A hA
  obtain ⟨bufs, d, hbufs, hlen, hd, hdref⟩ := hok.data hindex
  have hd1 : d.ref = 1 := by
    rw [hdref]
    exact congrArg Int.ofNat hb
  have hdec₁ : decInt d.ref = some ((0 : Nat) : Int) := by rw [hd1]; decide
  have hball : b ∈ bl (b.arena, .active) ++ bl (b.arena, .passive) := (hok.mem_iff b).mpr ⟨rfl, hindex⟩
  have hact : b ∈ bl (b.arena, .active) := (hok.active_iff b hball).mpr (by omega)
  obtain ⟨l₀, hl₀⟩ := (h.live b.arena).mp hlive
  obtain ⟨hdec, hinc⟩ := hok.putCounts h.fits hact
  have hheap : Function.update p.heap b.arena (some { A with
        iobufs := some (bufs.set b.index { d with ref := ((0 : Nat) : Int) }) }) b.arena
      = some { A with iobufs := some (bufs.set b.index { d with ref := ((0 : Nat) : Int) }) } :=
    Function.update_self ..
  -- the count is written first, then the iobuf changes sides
  obtain ⟨L, al', hrun, hrings, hmoved⟩ := iobufPutLocked_run (p := p.setArena b.arena { A with
    iobufs := some (bufs.set b.index { d with ref := ((0 : Nat) : Int) }) }) hheap hdec hinc
    h.arenaRings hl₀
  have hadd := rings_movedIobuf .passive h.iobufRings hlive hlive (by simp) hact
    (h.iobufRings.delInit (i := (b.arena, .active)) hlive hact)
  have hactive : A.activeCnt = ((bl (b.arena, .active)).erase b).length + 1 := by
    rw [hok.activeCnt, List.length_erase_of_mem hact]
    have hpos := List.length_pos_of_mem hact
    omega
  obtain ⟨hput, hpurge⟩ := putAway_of_counts h hA hl₀ hactive hmoved
  have hne : ¬ ((bl (b.arena, .passive)).length : Int) + 1 = 0 := by omega
  refine ⟨_, _, al', _, _, modifyRef_run hA hbufs hd hdec₁, hrun, rfl, h.moveIobuf rfl hindex { A with
      iobufs := some (bufs.set b.index { d with ref := ((0 : Nat) : Int) })
      activeCnt := ((bl (b.arena, .active)).erase b).length
      passiveCnt := (bl (b.arena, .passive)).length + 1 } hlive ?_ rfl rfl rfl
      hrings hadd hmoved ?_ ?_ hpurge, hput⟩
  · show Function.update (Function.update p.heap b.arena _) b.arena _ = _
    rw [Function.update_idem]
  · rw [movedIobuf_to, movedIobuf_from (by simp)]
    exact hok.deactivated hbufs hd hact
  · -- an arena with a passive iobuf is not on filled
    exact iff_of_false hput.notFull hne

/-- Another reference than the last one. -/
theorem iobufUnref_more (h : PoolOk N p refs al bl) (hb : 1 < refs b) :
    ∃ p', iobufUnref p b = some p' ∧ p'.puts = p.puts ∧
      PoolOk N p' (Function.update refs b (refs b - 1)) al bl := by
  have hdec : decInt (refs b) = some ((refs b - 1 : Nat) : Int) := by
    rw [decInt, if_pos (by unfold int32Max; omega)]
    congr 1
    omega
  have hheld : 0 < refs b := by omega
  obtain ⟨p', hmod, hputs, hok⟩ := h.setRef hheld (by omega : 0 < refs b - 1) hdec
  have hne : ¬ ((refs b - 1 : Nat) : Int) = 0 := by omega
  unfold iobufUnref
  exact ⟨p', by simp only [hmod, if_neg hne], hputs, hok⟩

/-- Two arenas on `purge` are more than the reserve. -/
theorem not_spare_of_two {a a' : Addr} (ha : a ∈ al .purge) (ha' : a' ∈ al .purge) (hne : a ≠ a') :
    ¬ Spare al := by
  intro hspare
  have hlen := hspare.1
  cases hal : al .purge with
  | nil =>
      rw [hal] at ha
      cases ha
  | cons x rest =>
      rw [hal, List.length_cons] at hlen
      obtain rfl : rest = [] := List.eq_nil_of_length_eq_zero (by omega)
      rw [hal, List.mem_singleton] at ha ha'
      exact hne (ha.trans ha'.symm)

/-- What the put leaves in reserve where there is nothing to prune. -/
theorem PutAway.spare_iff {al' : PoolList → List Addr} {a : Addr} {l : PoolList} (hput : PutAway N al al' a l)
    (hlisted : ∃ l₀, a ∈ al l₀) (hnodup : (al' .purge).Nodup) (hnil : al' .arenas = [])
    (hspare : Spare al) : Spare al' ↔ 2 ≤ N ∨ al .purge = [] ∨ al .arenas ≠ [] := by
  have hl : l = .purge := by
    cases l with
    | purge => rfl
    | filled => exact absurd rfl hput.notFull
    | arenas =>
        have hmem := (hput.moved.here .arenas).mpr rfl
        rw [hnil] at hmem
        cases hmem
  subst hl
  have hhere : a ∈ al' .purge := (hput.moved.here .purge).mpr rfl
  by_cases hempty : al .purge = []
  · refine iff_of_true ⟨?_, fun hne => absurd hnil hne⟩ (Or.inr (Or.inl hempty))
    -- the arena is alone there
    have honly : ∀ a' ∈ al' .purge, a' = a := by
      intro a' ha'
      by_contra hne
      rw [hput.moved.others a' hne, hempty] at ha'
      cases ha'
    rw [List.eq_replicate_of_mem honly, List.nodup_replicate] at hnodup
    exact hnodup
  · -- it was not on `arenas`, where no candidate was beside the reserve
    have hnone : ¬ al .arenas ≠ [] := fun hne => hempty (hspare.2 hne)
    have hfilled : a ∈ al .filled := by
      obtain ⟨l₀, hl₀⟩ := hlisted
      cases l₀ with
      | filled => exact hl₀
      | purge => exact absurd hl₀ hput.inUse
      | arenas => exact absurd (List.ne_nil_of_mem hl₀) hnone
    have hone : N = 1 := (hput.fromFilled hfilled).mp rfl
    refine iff_of_false ?_ (by
      rintro (htwo | hnil' | hne)
      · omega
      · exact hempty hnil'
      · exact hnone hne)
    obtain ⟨x, hx⟩ := List.exists_mem_of_ne_nil _ hempty
    have hxa : x ≠ a := fun e => hput.inUse (e ▸ hx)
    exact not_spare_of_two hhere ((hput.moved.others x hxa _).mpr hx) hxa.symm

/-- **The last reference**: the iobuf is put back, and the reserve stays
bounded exactly if it has room for the arena or the arena has more pages. -/
theorem iobufUnref_last (h : PoolOk N p refs al bl) (hone : refs b = 1) :
    ∃ p' al' bl', iobufUnref p b = some p' ∧ p'.puts = p.puts ++ [b] ∧
      PoolOk N p' (Function.update refs b 0) al' bl' ∧
      (Spare al → (Spare al' ↔ 2 ≤ N ∨ al .purge = [] ∨ al .arenas ≠ [])) := by
  obtain ⟨p₁, p₂, al₂, bl₂, l, hmod, hput, hputs, hok, haway⟩ := h.putBack hone
  obtain ⟨p', al', bl', hprune, hputs', hok', hpruned⟩ := iobufPoolPrune_spec hok
  refine ⟨p', al', bl', ?_, hputs'.trans hputs, hok', ?_⟩
  · simp only [iobufUnref, hmod, if_true, iobufPut, hput, hprune]
  · intro hspare
    have hlisted := (h.live b.arena).mp (h.held b (by omega)).1
    rcases hpruned with ⟨hnil, rfl⟩ | ⟨hcandidate, hempty⟩
    · exact haway.spare_iff hlisted (hok'.arenaRings.nodup trivial) hnil hspare
    · refine iff_of_true (spare_of_nil hempty) ?_
      -- the candidate was there before, or it is the arena that was full
      by_contra hno
      rw [not_or, not_or, not_not] at hno
      obtain ⟨htwo, hpurge, harenas⟩ := hno
      have hpos := h.pos
      refine hcandidate (List.eq_nil_iff_forall_not_mem.mpr ?_)
      intro a ha
      by_cases hab : a = b.arena
      · rw [hab, haway.moved.here] at ha
        have hfilled : b.arena ∈ al .filled := by
          obtain ⟨l₀, hl₀⟩ := hlisted
          cases l₀ with
          | filled => exact hl₀
          | purge => exact absurd hl₀ haway.inUse
          | arenas =>
              rw [harenas] at hl₀
              cases hl₀
        have hl := (haway.fromFilled hfilled).mpr (by omega)
        rw [hl] at ha
        cases ha
      · rw [haway.moved.others a hab, harenas] at ha
        cases ha

/-- **`iobuf_unref`** gives one reference back; with the last one the iobuf
is put back, and never before. -/
theorem iobufUnref_spec (h : PoolOk N p refs al bl) (hb : 0 < refs b) :
    ∃ p', iobufUnref p b = some p' ∧ PoolInv N p' (Function.update refs b (refs b - 1)) ∧
      p'.puts = p.puts ++ if refs b = 1 then [b] else [] := by
  by_cases hone : refs b = 1
  · obtain ⟨p', al', bl', hrun, hputs, hok, -⟩ := iobufUnref_last h hone
    rw [if_pos hone, hone]
    exact ⟨p', hrun, ⟨al', bl', hok⟩, hputs⟩
  · obtain ⟨p', hrun, hputs, hok⟩ := iobufUnref_more h (by omega : 1 < refs b)
    rw [if_neg hone, List.append_nil]
    exact ⟨p', hrun, ⟨al, bl, hok⟩, hputs⟩

end Put

/-! ## §4. Runs of the pool. -/

/-- A pool and the references its callers hold. -/
structure Client where
  pool : Pool
  held : IobufPtr → Nat

/-- What callers do with a pool. -/
inductive PoolOp
  | get (env : AllocEnv)
  | ref (b : IobufPtr)
  | unref (b : IobufPtr)

/-- An operation, with the references it gives to the caller or takes back. -/
def Client.step (c : Client) : PoolOp → Option Client
  | .get env =>
      match iobufGet c.pool env with
      | none => none
      | some (p, none) => some { c with pool := p }
      | some (p, some b) => some ⟨p, Function.update c.held b (c.held b + 1)⟩
  | .ref b => (iobufRef c.pool b).map fun p => ⟨p, Function.update c.held b (c.held b + 1)⟩
  | .unref b => (iobufUnref c.pool b).map fun p => ⟨p, Function.update c.held b (c.held b - 1)⟩

/-- `CALLOC` returns memory that is not in use; callers name only iobufs they
hold a reference to. -/
def Client.allowed (c : Client) : PoolOp → Prop
  | .get env => ∀ a, env.calloc = some a → c.pool.heap a = none
  | .ref b => 0 < c.held b
  | .unref b => 0 < c.held b

def poolClient : Component Client PoolOp := ⟨Client.step, Client.allowed⟩

/-- The counter that the operation would raise is at `INT_MAX`. -/
def Client.AtIntMax (c : Client) : PoolOp → Prop
  | .get _ => int32Max ≤ c.pool.arenaCnt
  | .ref b => int32Max ≤ c.held b
  | .unref _ => False

/-- The pool is fine, and `iobuf_get` hands out nothing that is referenced. -/
structure Client.Safe (N : Nat) (c : Client) : Prop where
  inv : PoolInv N c.pool c.held
  exclusive : ∀ env p b, (∀ a, env.calloc = some a → c.pool.heap a = none) →
    iobufGet c.pool env = some (p, some b) → c.held b = 0

theorem Client.safe_of_inv {N : Nat} {c : Client} (h : PoolInv N c.pool c.held) : c.Safe N := by
  refine ⟨h, ?_⟩
  intro env p b hfresh hget
  obtain ⟨al, bl, hok⟩ := h
  rcases iobufGet_spec hok env hfresh with ⟨_, hnone⟩ | ⟨p', hrun, _⟩ | ⟨p', b', hrun, _, hzero, _⟩
  · rw [hnone] at hget
    cases hget
  · rw [hrun] at hget
    cases hget
  · rw [hrun] at hget
    cases hget
    exact hzero

/-- One operation keeps the pool safe, short of `INT_MAX`. -/
theorem Client.step_safe {N : Nat} (c : Client) (o : PoolOp) (hc : c.Safe N) (ho : c.allowed o) :
    (∃ c', c.step o = some c' ∧ c'.Safe N) ∨ (c.AtIntMax o ∧ c.step o = none) := by
  obtain ⟨al, bl, hok⟩ := hc.inv
  cases o with
  | get env =>
      rcases iobufGet_spec hok env ho with
        ⟨hfull, hnone⟩ | ⟨p, hrun, _, hinv⟩ | ⟨p, b, hrun, _, hzero, hinv⟩
      · exact Or.inr ⟨hfull, by simp only [Client.step, hnone]⟩
      · exact Or.inl ⟨{ c with pool := p }, by simp only [Client.step, hrun], safe_of_inv hinv.inv⟩
      · refine Or.inl ⟨⟨p, Function.update c.held b (c.held b + 1)⟩, ?_, safe_of_inv ?_⟩
        · simp only [Client.step, hrun]
        · rw [hzero]
          exact hinv.inv
  | ref b =>
      rcases iobufRef_spec hok ho with ⟨hfull, hnone⟩ | ⟨p, hrun, _, hok'⟩
      · exact Or.inr ⟨hfull, by simp only [Client.step, hnone, Option.map_none]⟩
      · refine Or.inl ⟨⟨p, Function.update c.held b (c.held b + 1)⟩, ?_, safe_of_inv ⟨al, bl, hok'⟩⟩
        simp only [Client.step, hrun, Option.map_some]
  | unref b =>
      obtain ⟨p, hrun, hinv, _⟩ := iobufUnref_spec hok ho
      refine Or.inl ⟨⟨p, Function.update c.held b (c.held b - 1)⟩, ?_, safe_of_inv hinv⟩
      simp only [Client.step, hrun, Option.map_some]

/-- The empty pool of `iobuf_pool_new`, before its first arena. -/
theorem poolOk_empty {p : Pool} {arenaSize pageSize : Nat} (hpage : 0 < pageSize)
    (hsize : pageSize ≤ arenaSize) (hfits : (arenaSize / pageSize : Nat) ≤ int32Max)
    (hp : p.pageSize = pageSize) (ha : p.arenaSize = arenaSize) (hcnt : p.arenaCnt = 0)
    (hheap : p.heap = fun _ => none) {L : Links ArenaNode}
    (hlinks : p.alinks = initListHead (initListHead (initListHead L (.head .arenas)) (.head .filled))
      (.head .purge)) :
    PoolOk (arenaSize / pageSize) p (fun _ => 0) (fun _ => []) fun _ => [] := by
  have hnone : ∀ a, p.heap a = none := by
    intro a
    rw [hheap]
  have hdead : ∀ {a : Addr} {A : Arena}, p.heap a = some A → False := by
    intro a A hA
    rw [hnone a] at hA
    cases hA
  exact {
    pageSize := by rw [hp]; exact Nat.ne_of_gt hpage
    pages := by rw [hp, ha]
    pos := Nat.div_pos hsize hpage
    fits := hfits
    arenaRings := by
      -- the heads are initialised one after the other
      have R₀ : Rings L ArenaNode.head ArenaNode.arena (fun _ => False) (fun _ => []) :=
        rings_none L head_inj_arena (fun _ _ e => ArenaNode.arena.inj e) nofun
      have R₁ := R₀.initHead .arenas
      have R₂ := R₁.initHead .filled
      have R₃ := R₂.initHead .purge
      rw [hlinks]
      refine R₃.restrict ?_ ?_
      · intro l _
        cases l <;> simp
      · intro l _
        simp only [Function.update_apply, ite_self]
    iobufRings := by
      have R₀ : Rings p.blinks IobufNode.head IobufNode.iobuf (fun _ => False) (fun _ => []) :=
        rings_none _ head_inj_iobuf (fun _ _ e => IobufNode.iobuf.inj e) nofun
      exact R₀.restrict (fun i hi => hi (hnone i.1)) fun _ _ => rfl
    live := by
      intro a
      simp [hnone a]
    arenaCnt := hcnt
    arena := fun _ _ hA => (hdead hA).elim
    filled := fun _ _ hA => (hdead hA).elim
    purge := fun _ _ hA => (hdead hA).elim
    held := fun _ hb => absurd hb (Nat.lt_irrefl 0) }

/-- A new pool is fine, nobody holds anything of it, and its first arena is a
candidate. -/
theorem iobufPoolNew_spec (arenaSize pageSize : Nat) (hpage : 0 < pageSize) (hsize : pageSize ≤ arenaSize)
    (hfits : (arenaSize / pageSize : Nat) ≤ int32Max) (env : AllocEnv) :
    ∃ p al bl, iobufPoolNew arenaSize pageSize true env = some (some p) ∧
      PoolOk (arenaSize / pageSize) p (fun _ => 0) al bl ∧ Spare al := by
  have hneg : ¬ arenaSize < pageSize := by omega
  unfold iobufPoolNew
  rw [if_neg hneg, if_pos rfl]
  have hempty := poolOk_empty (p := {
      pageSize := pageSize, arenaSize := arenaSize, arenaCnt := 0
      alinks := initListHead (initListHead (initListHead (fun _ => ⟨.poison, .poison⟩) (.head .arenas))
        (.head .filled)) (.head .purge)
      blinks := fun _ => ⟨.poison, .poison⟩, heap := fun _ => none, unmapped := [], puts := [] })
    hpage hsize hfits rfl rfl rfl rfl rfl
  rcases iobufPoolAddArena_spec hempty env (fun _ _ => rfl) with
    ⟨hfull, _⟩ | ⟨p, r, al, bl, hrun, _, hok, _, hnil⟩
  · exact absurd (show int32Max ≤ 0 from hfull) (by decide)
  · have hpurge := hnil (spare_of_nil rfl)
    exact ⟨p, al, bl, by simp only [hrun, Option.map_some], hok, spare_of_nil hpurge⟩

theorem iobufPoolNew_inv (arenaSize pageSize : Nat) (hpage : 0 < pageSize) (hsize : pageSize ≤ arenaSize)
    (hfits : (arenaSize / pageSize : Nat) ≤ int32Max) (env : AllocEnv) :
    ∃ p, iobufPoolNew arenaSize pageSize true env = some (some p) ∧
      PoolInv (arenaSize / pageSize) p fun _ => 0 := by
  obtain ⟨p, al, bl, hnew, hok, -⟩ := iobufPoolNew_spec arenaSize pageSize hpage hsize hfits env
  exact ⟨p, hnew, al, bl, hok⟩

/-- **THE POOL INVARIANT.**  A pool from `iobuf_pool_new`, however its arenas
are allocated, is safe after every operation of callers that name only what
they hold; in particular no assertion fails and no arena with a referenced
iobuf is destroyed.  A run ends early only at a counter that is `INT_MAX`. -/
theorem pool_invariant (arenaSize pageSize : Nat) (hpage : 0 < pageSize) (hsize : pageSize ≤ arenaSize)
    (hfits : (arenaSize / pageSize : Nat) ≤ int32Max) (env : AllocEnv) :
    ∃ p, iobufPoolNew arenaSize pageSize true env = some (some p) ∧
      ∀ ops, poolClient.Legal ⟨p, fun _ => 0⟩ ops →
        (∃ c, poolClient.run ⟨p, fun _ => 0⟩ ops = some c ∧ c.Safe (arenaSize / pageSize)) ∨
        ∃ pre o post c, ops = pre ++ o :: post ∧ poolClient.run ⟨p, fun _ => 0⟩ pre = some c ∧
          c.Safe (arenaSize / pageSize) ∧ c.AtIntMax o ∧ poolClient.step c o = none := by
  obtain ⟨p, hnew, hinv⟩ := iobufPoolNew_inv arenaSize pageSize hpage hsize hfits env
  refine ⟨p, hnew, ?_⟩
  intro ops hlegal
  have hstart : Client.Safe (arenaSize / pageSize) ⟨p, fun _ => 0⟩ := Client.safe_of_inv hinv
  exact poolClient.run_inv_or Client.step_safe ops _ hstart hlegal

theorem allowed_get_iff (c : Client) (env : AllocEnv) :
    ((env.calloc.all fun a => (c.pool.heap a).isNone) = true) ↔ c.allowed (.get env) := by
  show _ ↔ ∀ a, env.calloc = some a → c.pool.heap a = none
  cases env.calloc <;> simp

instance (c : Client) : ∀ o, Decidable (c.allowed o)
  | .get env => decidable_of_iff _ (allowed_get_iff c env)
  | .ref b => inferInstanceAs (Decidable (0 < c.held b))
  | .unref b => inferInstanceAs (Decidable (0 < c.held b))

instance (c : Client) (o : PoolOp) : Decidable (poolClient.allowed c o) :=
  inferInstanceAs (Decidable (c.allowed o))

/-- Two pages in one arena at address 1; no further arena can be allocated. -/
def twoPages : AllocEnv := ⟨some 1, 4096, true⟩

def noArena : AllocEnv := ⟨none, 0, false⟩

/-- Both pages are taken, one is shared and given back twice: the arena goes
to `filled` and back to `arenas`. -/
theorem pool_invariant_twoPages : ∃ p, iobufPoolNew 8 4 true twoPages = some (some p) ∧
    ((∃ c, poolClient.run ⟨p, fun _ => 0⟩
        [.get noArena, .get noArena, .ref ⟨1, 1⟩, .unref ⟨1, 1⟩, .unref ⟨1, 1⟩] = some c ∧ c.Safe 2) ∨
      ∃ pre o post c, [.get noArena, .get noArena, .ref ⟨1, 1⟩, .unref ⟨1, 1⟩, .unref ⟨1, 1⟩]
        = pre ++ o :: post ∧ poolClient.run ⟨p, fun _ => 0⟩ pre = some c ∧ c.Safe 2 ∧
          c.AtIntMax o ∧ poolClient.step c o = none) := by
  obtain ⟨p, hnew, hruns⟩ := pool_invariant 8 4 (by decide) (by decide) (by decide) twoPages
  have hcheck : ((iobufPoolNew 8 4 true twoPages).bind fun r => r.map fun p => poolClient.legalCheck ⟨p, fun _ => 0⟩
      [.get noArena, .get noArena, .ref ⟨1, 1⟩, .unref ⟨1, 1⟩, .unref ⟨1, 1⟩]) = some true := by decide +kernel
  rw [hnew] at hcheck
  exact ⟨p, hnew, hruns _ (poolClient.legal_of_check (Option.some.inj hcheck))⟩

/-! ## §5. The page size of a new pool. -/

theorem iobufArenaDestroy_pageSize {p p' : Pool} {a : Addr} (h : iobufArenaDestroy p a = some p') :
    p'.pageSize = p.pageSize := by
  unfold iobufArenaDestroy at h
  split at h
  · cases h
  · split at h
    · cases h
    next p₁ h₁ =>
      have hsame : p₁.pageSize = p.pageSize := by
        unfold iobufArenaDestroyIobufs at h₁
        split at h₁
        · cases h₁
        · split at h₁
          · cases h₁
            rfl
          · obtain ⟨L, -, rfl⟩ := Option.map_eq_some_iff.mp h₁
            rfl
      cases h
      exact hsame

theorem iobufArenaInitIobufs_pageSize {p p' : Pool} {a : Addr} {A : Arena} {calloc : Bool}
    (h : iobufArenaInitIobufs p a A calloc = some p') : p'.pageSize = p.pageSize := by
  unfold iobufArenaInitIobufs at h
  split at h
  · cases h
  · split at h
    · split at h
      · cases h
      · cases h
        rfl
    · cases h
      rfl

theorem iobufArenaAlloc_pageSize {p p' : Pool} {env : AllocEnv} {r : Option Addr}
    (h : iobufArenaAlloc p env = some (p', r)) : p'.pageSize = p.pageSize := by
  unfold iobufArenaAlloc at h
  split at h
  · cases h
    rfl
  next a _ =>
    simp only at h
    split at h
    · obtain ⟨p₁, h₁, heq⟩ := Option.map_eq_some_iff.mp h
      cases heq
      have hdestroy := iobufArenaDestroy_pageSize h₁
      exact hdestroy
    · split at h
      · cases h
      next p₁ h₁ =>
        have hinit := iobufArenaInitIobufs_pageSize h₁
        -- the arena is kept, or destroyed for want of its iobufs
        split at h
        · obtain ⟨p₂, h₂, heq⟩ := Option.map_eq_some_iff.mp h
          cases heq
          exact (iobufArenaDestroy_pageSize h₂).trans hinit
        · obtain ⟨cnt, -, heq⟩ := Option.map_eq_some_iff.mp h
          cases heq
          exact hinit

theorem iobufPoolAddArena_pageSize {p p' : Pool} {env : AllocEnv} {r : Option Addr}
    (h : iobufPoolAddArena p env = some (p', r)) : p'.pageSize = p.pageSize := by
  have hprune : ∀ p₁ r₁, iobufArenaUnprune p = some (p₁, r₁) → p₁.pageSize = p.pageSize := by
    intro p₁ r₁ h₁
    unfold iobufArenaUnprune at h₁
    split at h₁
    · cases h₁
      rfl
    · cases h₁
      rfl
    · cases h₁
  unfold iobufPoolAddArena at h
  split at h
  · cases h
  next p₁ a h₁ =>
    cases h
    exact hprune p₁ _ h₁
  next p₁ h₁ =>
    have hfirst := hprune p₁ _ h₁
    split at h
    · cases h
    next p₂ a h₂ =>
      cases h
      exact (iobufArenaAlloc_pageSize h₂).trans hfirst
    next p₂ h₂ =>
      cases h
      exact (iobufArenaAlloc_pageSize h₂).trans hfirst

/-- A pool has the page size that it was made with. -/
theorem iobufPoolNew_pageSize {arenaSize pageSize : Nat} {calloc : Bool} {env : AllocEnv} {p : Pool}
    (h : iobufPoolNew arenaSize pageSize calloc env = some (some p)) : p.pageSize = pageSize := by
  unfold iobufPoolNew at h
  split at h
  · cases h
  · split at h
    · obtain ⟨⟨p', r⟩, hadd, heq⟩ := Option.map_eq_some_iff.mp h
      cases heq
      exact iobufPoolAddArena_pageSize hadd
    · cases h

end LzLib.Iobuf
