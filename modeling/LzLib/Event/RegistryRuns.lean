/-
  LzLib.Event.RegistryRuns
  ────────────────────────
  **THE REGISTRY AND THE KERNEL AGREE, OVER ANY RUN.**

  `RegistryOk pool wanted`: the slots of the pool are the descriptors that
  `wanted` knows, each once, with what was registered for it; the kernel
  watches the same descriptors, with the mask and the index of their slots.

  What is wanted is not read off the pool: `replay fd` follows the calls that
  were made for `fd` alone.  Each operation keeps the agreement, although
  unregistering moves the last slot into the hole, and hints may be stale.
-/
import LzLib.Event.Registry
import LzLib.Foundation.Runs

namespace LzLib.Event

open LzLib.Foundation

/-! ## §1. What was asked for. -/

/-- What is registered for a descriptor. -/
structure Registration where
  events : Mask
  handler : Addr
  data : Addr
  deriving DecidableEq

def RegSlot.registration (slot : RegSlot) : Registration := ⟨slot.events, slot.handler, slot.data⟩

/-- The calls on an event pool. -/
inductive EventOp where
  | register (fd : Int) (handler data : Addr) (pollIn pollOut : Int)
  | selectOn (fd hint pollIn pollOut : Int)
  | unregister (fd hint : Int)
  deriving DecidableEq

def EventOp.fd : EventOp → Int
  | .register fd _ _ _ _ => fd
  | .selectOn fd _ _ _ => fd
  | .unregister fd _ => fd

/-- One call for a descriptor. -/
def replayOne (r : Option Registration) : EventOp → Option Registration
  | .register _ handler data pollIn pollOut =>
      some ⟨Mask.switch ⟨true, false, false⟩ pollIn pollOut, handler, data⟩
  | .selectOn _ _ pollIn pollOut => r.map fun r => { r with events := r.events.switch pollIn pollOut }
  | .unregister _ _ => none

/-- **What the calls for `fd` amount to.** -/
def replay (fd : Int) (ops : List EventOp) : Option Registration :=
  (ops.filter fun o => o.fd = fd).foldl replayOne none

theorem replay_own (ops : List EventOp) (o : EventOp) :
    replay o.fd (ops ++ [o]) = replayOne (replay o.fd ops) o := by
  simp [replay, List.filter_append]

theorem replay_other {fd : Int} (ops : List EventOp) {o : EventOp} (hne : o.fd ≠ fd) :
    replay fd (ops ++ [o]) = replay fd ops := by
  simp [replay, List.filter_append, hne]

/-! ## §2. The invariant. -/

/-- **The pool serves what is wanted.** -/
structure RegistryOk (pool : EventPool) (wanted : Int → Option Registration) : Prop where
  live : pool.regNull = false
  distinct : (pool.reg.map RegSlot.fd).Nodup
  slots : ∀ (i : Nat) (slot : RegSlot), pool.reg[i]? = some slot →
    wanted slot.fd = some slot.registration ∧
      assocGet pool.interest slot.fd = some ⟨slot.events, slot.fd, i⟩
  absent : ∀ fd, fd ∉ pool.reg.map RegSlot.fd → wanted fd = none ∧ assocGet pool.interest fd = none

section Reading

variable {pool : EventPool} {wanted : Int → Option Registration}

theorem RegistryOk.not_null (h : RegistryOk pool wanted) : ¬ pool.regNull = true := by
  rw [h.live]
  decide

theorem fd_mem {i : Nat} {slot : RegSlot} {reg : List RegSlot} (h : reg[i]? = some slot) :
    slot.fd ∈ reg.map RegSlot.fd :=
  List.mem_map.mpr ⟨slot, List.mem_of_getElem? h, rfl⟩

/-- Two slots of one descriptor are one slot. -/
theorem RegistryOk.index_unique (h : RegistryOk pool wanted) {i j : Nat} {slot slot' : RegSlot}
    (hi : pool.reg[i]? = some slot) (hj : pool.reg[j]? = some slot') (hfd : slot.fd = slot'.fd) :
    i = j := by
  have hlt : i < (pool.reg.map RegSlot.fd).length := by
    rw [List.length_map]
    exact (List.getElem?_eq_some_iff.mp hi).1
  refine (List.getElem?_inj hlt h.distinct).mp ?_
  rw [List.getElem?_map, List.getElem?_map, hi, hj, Option.map_some, Option.map_some, hfd]

theorem RegistryOk.mem_iff (h : RegistryOk pool wanted) (fd : Int) :
    fd ∈ pool.reg.map RegSlot.fd ↔ wanted fd ≠ none := by
  constructor
  · intro hmem
    obtain ⟨slot, hslot, rfl⟩ := List.mem_map.mp hmem
    obtain ⟨i, hi⟩ := List.getElem?_of_mem hslot
    rw [(h.slots i slot hi).1]
    exact Option.some_ne_none _
  · intro hne
    by_contra hmem
    exact hne (h.absent fd hmem).1

/-- **`__event_getindex`** finds a wanted descriptor for every hint, and no
other. -/
theorem RegistryOk.getindex (h : RegistryOk pool wanted) (fd hint : Int) :
    match wanted fd with
    | none => eventGetindex pool.reg fd hint = none
    | some r => ∃ i, eventGetindex pool.reg fd hint = some i ∧
        pool.reg[i]? = some ⟨fd, r.events, r.handler, r.data⟩ := by
  cases hw : wanted fd with
  | none =>
      dsimp only
      cases hi : eventGetindex pool.reg fd hint with
      | none => rfl
      | some i =>
          obtain ⟨slot, hslot, rfl⟩ := eventGetindex_fd hi
          rw [(h.slots i slot hslot).1] at hw
          cases hw
  | some r =>
      have hmem : fd ∈ pool.reg.map RegSlot.fd := by
        rw [h.mem_iff, hw]
        exact Option.some_ne_none r
      obtain ⟨slot, hslot, rfl⟩ := List.mem_map.mp hmem
      obtain ⟨i, hi⟩ := eventGetindex_isSome hint hslot rfl
      obtain ⟨found, hfound, hfd⟩ := eventGetindex_fd hi
      have hreg := (h.slots i found hfound).1
      rw [hfd, hw, Option.some.injEq] at hreg
      refine ⟨i, hi, ?_⟩
      rw [hfound, hreg, ← hfd]
      rfl

end Reading

/-! ## §3. Each operation keeps the agreement. -/

section Steps

variable {pool : EventPool} {wanted wanted' : Int → Option Registration}

/-- A change of one descriptor that changes nothing. -/
theorem wanted_unchanged {fd : Int} (hown : wanted' fd = wanted fd)
    (hother : ∀ fd', fd' ≠ fd → wanted' fd' = wanted fd') : wanted = wanted' := by
  funext fd'
  by_cases hfd : fd' = fd
  · rw [hfd, hown]
  · exact (hother fd' hfd).symm

/-- A slot joins at the end. -/
theorem RegistryOk.append (h : RegistryOk pool wanted) (count : Nat) (slot : RegSlot)
    (hnew : wanted slot.fd = none) (hown : wanted' slot.fd = some slot.registration)
    (hother : ∀ fd, fd ≠ slot.fd → wanted' fd = wanted fd) :
    ∃ pool', eventAppend { pool with count } slot false = (pool', 0) ∧ RegistryOk pool' wanted' ∧
      pool'.count = count ∧ pool'.used = pool.used + 1 := by
  have hnot : slot.fd ∉ pool.reg.map RegSlot.fd := by
    rw [h.mem_iff, hnew]
    exact not_not_intro rfl
  have hkernel := (h.absent slot.fd hnot).2
  have happend : eventAppend { pool with count } slot false
      = ({ pool with
          count, reg := pool.reg ++ [slot]
          interest := assocSet pool.interest slot.fd ⟨slot.events, slot.fd, pool.used⟩ }, 0) :=
    ctl_add _ _ _ hkernel
  refine ⟨_, happend, ?_, rfl, by simp [EventPool.used]⟩
  constructor
  · exact h.live
  · show ((pool.reg ++ [slot]).map RegSlot.fd).Nodup
    rw [List.map_append, List.nodup_append]
    refine ⟨h.distinct, by simp, ?_⟩
    intro fd hfd fd' hfd'
    rintro rfl
    exact hnot (List.mem_singleton.mp hfd' ▸ hfd)
  · intro i s hs
    have hs' : (pool.reg ++ [slot])[i]? = some s := hs
    show _ ∧ assocGet (assocSet pool.interest slot.fd _) s.fd = _
    -- the old slots, and the new one at the end
    rcases Nat.lt_trichotomy i pool.reg.length with hi | hi | hi
    · rw [List.getElem?_append_left hi] at hs'
      have hne : s.fd ≠ slot.fd := fun e => hnot (e ▸ fd_mem hs')
      rw [hother _ hne, assocGet_set, if_neg hne]
      exact h.slots i s hs'
    · rw [hi, List.getElem?_append_right (Nat.le_refl _), Nat.sub_self] at hs'
      cases hs'
      rw [assocGet_set, if_pos rfl, hi]
      exact ⟨hown, rfl⟩
    · rw [List.getElem?_append_right (Nat.le_of_lt hi)] at hs'
      have hbound := (List.getElem?_eq_some_iff.mp hs').1
      rw [List.length_singleton] at hbound
      omega
  · intro fd hfd
    have hfd' : fd ∉ (pool.reg ++ [slot]).map RegSlot.fd := hfd
    rw [List.map_append, List.mem_append, not_or, List.map_singleton, List.mem_singleton] at hfd'
    show _ ∧ assocGet (assocSet pool.interest slot.fd _) fd = none
    rw [hother _ hfd'.2, assocGet_set, if_neg hfd'.2]
    exact h.absent fd hfd'.1

/-- **`event_register`** of a descriptor that is not registered. -/
theorem eventRegister_ok (h : RegistryOk pool wanted) (wanted' : Int → Option Registration) {fd : Int} (handler data : Addr)
    (pollIn pollOut : Int) (hnew : wanted fd = none)
    (hown : wanted' fd = some ⟨Mask.switch ⟨true, false, false⟩ pollIn pollOut, handler, data⟩)
    (hother : ∀ fd', fd' ≠ fd → wanted' fd' = wanted fd') :
    ∃ pool', eventRegister pool fd handler data pollIn pollOut true false = some (pool', 0) ∧
      RegistryOk pool' wanted' ∧
      pool'.count = (if pool.count = pool.used then pool.count * 2 else pool.count) ∧
      pool'.used = pool.used + 1 := by
  obtain ⟨pool', happend, hok, hcount, hused⟩ := h.append
    (if pool.count = pool.used then pool.count * 2 else pool.count)
    (newSlot fd handler data pollIn pollOut) hnew hown hother
  refine ⟨pool', ?_, hok, hcount, hused⟩
  rw [eventRegister_room h.live (fun _ => rfl), happend]

/-- A new mask leaves the descriptors of the table. -/
theorem map_fd_switch (reg : List RegSlot) (i : Nat) (pollIn pollOut : Int) :
    (reg.modify i (RegSlot.switch pollIn pollOut)).map RegSlot.fd = reg.map RegSlot.fd := by
  refine List.ext_getElem? fun j => ?_
  rw [List.getElem?_map, List.getElem?_map, List.getElem?_modify]
  by_cases hij : i = j
  · simp only [if_pos hij]
    cases reg[j]? <;> rfl
  · simp only [if_neg hij]
    cases reg[j]? <;> rfl

/-- A slot gets its new mask, in the table and in the kernel. -/
theorem RegistryOk.switch (h : RegistryOk pool wanted) {i : Nat} {fd : Int} {r : Registration}
    (hslot : pool.reg[i]? = some ⟨fd, r.events, r.handler, r.data⟩) {pollIn pollOut : Int}
    (hown : wanted' fd = some { r with events := r.events.switch pollIn pollOut })
    (hother : ∀ fd', fd' ≠ fd → wanted' fd' = wanted fd') :
    RegistryOk { pool with
      reg := pool.reg.modify i (RegSlot.switch pollIn pollOut)
      interest := assocSet pool.interest fd ⟨r.events.switch pollIn pollOut, fd, i⟩ } wanted' := by
  constructor
  · exact h.live
  · show (List.map RegSlot.fd _).Nodup
    rw [map_fd_switch]
    exact h.distinct
  · intro j s hs
    have hs' : (pool.reg.modify i (RegSlot.switch pollIn pollOut))[j]? = some s := hs
    show _ ∧ assocGet (assocSet pool.interest fd _) s.fd = _
    -- the changed slot, or one that is untouched
    by_cases hij : i = j
    · subst hij
      rw [List.getElem?_modify_eq, hslot] at hs'
      cases hs'
      have hfd : (RegSlot.switch pollIn pollOut ⟨fd, r.events, r.handler, r.data⟩).fd = fd := rfl
      rw [hfd, hown, assocGet_set, if_pos rfl]
      exact ⟨rfl, rfl⟩
    · rw [List.getElem?_modify_ne _ _ hij] at hs'
      have hne : s.fd ≠ fd := fun e => hij (h.index_unique hslot hs' e.symm)
      rw [hother _ hne, assocGet_set, if_neg hne]
      exact h.slots j s hs'
  · intro fd' hfd'
    have hfd'' : fd' ∉ pool.reg.map RegSlot.fd := by
      rw [← map_fd_switch pool.reg i pollIn pollOut]
      exact hfd'
    have hne : fd' ≠ fd := by
      rintro rfl
      exact hfd'' (fd_mem hslot)
    show _ ∧ assocGet (assocSet pool.interest fd _) fd' = none
    rw [hother _ hne, assocGet_set, if_neg hne]
    exact h.absent fd' hfd''

/-- **`event_select_on`**, for every hint. -/
theorem eventSelectOn_ok (h : RegistryOk pool wanted) (wanted' : Int → Option Registration) (fd hint pollIn pollOut : Int)
    (hown : wanted' fd
      = (wanted fd).map fun r => { r with events := r.events.switch pollIn pollOut })
    (hother : ∀ fd', fd' ≠ fd → wanted' fd' = wanted fd') :
    ∃ pool', eventSelectOn pool fd hint pollIn pollOut false
        = some (pool', if wanted fd = none then -1 else 0) ∧
      RegistryOk pool' wanted' ∧ pool'.count = pool.count ∧ pool'.used = pool.used := by
  have hfind := h.getindex fd hint
  rw [eventSelectOn, if_neg h.not_null]
  cases hw : wanted fd with
  | none =>
      rw [hw] at hfind hown
      rw [hfind]
      exact ⟨pool, by simp, wanted_unchanged (hown.trans hw.symm) hother ▸ h, rfl, rfl⟩
  | some r =>
      rw [hw] at hfind hown
      obtain ⟨i, hi, hslot⟩ := hfind
      have hkernel := (h.slots i _ hslot).2
      have hmod : (pool.reg.modify i (RegSlot.switch pollIn pollOut))[i]?
          = some (RegSlot.switch pollIn pollOut ⟨fd, r.events, r.handler, r.data⟩) := by
        rw [List.getElem?_modify_eq, hslot]
        rfl
      refine ⟨_, ?_, h.switch hslot hown hother, rfl, by simp [EventPool.used]⟩
      simp only [hi, hmod, Option.map_some, reduceCtorEq, if_false]
      exact congrArg some (ctl_mod _ fd _ hkernel)

/-- The last slot of a table with a hole. -/
theorem getElem?_last (pre mid : List RegSlot) (hole last : RegSlot) :
    (pre ++ hole :: (mid ++ [last]))[pre.length + 1 + mid.length]? = some last := by
  rw [List.getElem?_append_right (by omega), List.getElem?_cons, if_neg (by omega),
    List.getElem?_append_right (by omega)]
  have hidx : pre.length + 1 + mid.length - pre.length - 1 - mid.length = 0 := by omega
  rw [hidx]
  rfl

/-- The fds of a table without one slot. -/
theorem mem_without_hole {pre mid : List RegSlot} {hole last : RegSlot} (fd : Int) :
    fd ∈ (pre ++ hole :: (mid ++ [last])).map RegSlot.fd ↔
      fd = hole.fd ∨ fd ∈ (pre ++ last :: mid).map RegSlot.fd := by
  simp only [List.map_append, List.map_cons, List.map_nil, List.mem_append, List.mem_cons,
    List.not_mem_nil, or_false]
  tauto

section Removal

variable {pre : List RegSlot} {hole : RegSlot}

/-- Slots before the removed one keep their index and their entry. -/
theorem RegistryOk.before_hole (h : RegistryOk pool wanted) {post : List RegSlot}
    (hreg : pool.reg = pre ++ hole :: post) (hother : ∀ fd, fd ≠ hole.fd → wanted' fd = wanted fd)
    {j : Nat} {s : RegSlot} (hs : pre[j]? = some s) :
    wanted' s.fd = some s.registration ∧
      assocGet (assocDel pool.interest hole.fd) s.fd = some ⟨s.events, s.fd, j⟩ := by
  have hj := (List.getElem?_eq_some_iff.mp hs).1
  have hs' : pool.reg[j]? = some s := by rw [hreg, List.getElem?_append_left hj, hs]
  have hhole : pool.reg[pre.length]? = some hole := by
    rw [hreg, List.getElem?_append_right (Nat.le_refl _), Nat.sub_self]
    rfl
  have hne : s.fd ≠ hole.fd := by
    intro e
    have hij := h.index_unique hs' hhole e
    omega
  rw [hother _ hne, assocGet_del, if_neg hne]
  exact h.slots j s hs'

/-- The removed slot was the last one. -/
theorem RegistryOk.dropLast (h : RegistryOk pool wanted) (hreg : pool.reg = pre ++ [hole])
    (hown : wanted' hole.fd = none) (hother : ∀ fd, fd ≠ hole.fd → wanted' fd = wanted fd) :
    RegistryOk ⟨pool.count, pre, pool.regNull, assocDel pool.interest hole.fd⟩ wanted' := by
  have hdistinct := h.distinct
  rw [hreg, List.map_append, List.nodup_append] at hdistinct
  refine ⟨h.live, hdistinct.1, ?_, ?_⟩
  · intro j s hs
    exact h.before_hole hreg hother hs
  · intro fd hfd
    show _ ∧ assocGet (assocDel pool.interest hole.fd) fd = none
    rw [assocGet_del]
    by_cases hne : fd = hole.fd
    · rw [hne, if_pos rfl]
      exact ⟨hown, rfl⟩
    · rw [if_neg hne, hother _ hne]
      apply h.absent
      rw [hreg, List.map_append, List.mem_append, not_or]
      exact ⟨hfd, by simp [hne]⟩

/-- The last slot fills the hole, and the kernel knows its new index. -/
theorem RegistryOk.moveLast (h : RegistryOk pool wanted) {mid : List RegSlot} {last : RegSlot}
    (hreg : pool.reg = pre ++ hole :: (mid ++ [last]))
    (hown : wanted' hole.fd = none) (hother : ∀ fd, fd ≠ hole.fd → wanted' fd = wanted fd) :
    RegistryOk ⟨pool.count, pre ++ last :: mid, pool.regNull,
      assocSet (assocDel pool.interest hole.fd) last.fd ⟨last.events, last.fd, pre.length⟩⟩ wanted' := by
  have hhole : pool.reg[pre.length]? = some hole := by
    rw [hreg, List.getElem?_append_right (Nat.le_refl _), Nat.sub_self]
    rfl
  have hlast : pool.reg[pre.length + 1 + mid.length]? = some last := by
    rw [hreg, getElem?_last]
  have hlne : last.fd ≠ hole.fd := by
    intro e
    have hij := h.index_unique hlast hhole e
    omega
  have hmoved : (pre ++ last :: mid).Perm (pre ++ (mid ++ [last])) :=
    List.Perm.append_left pre (List.perm_append_singleton last mid).symm
  have hdistinct := h.distinct
  rw [hreg] at hdistinct
  refine ⟨h.live, ?_, ?_, ?_⟩
  · show ((pre ++ last :: mid).map RegSlot.fd).Nodup
    rw [(hmoved.map RegSlot.fd).nodup_iff]
    exact hdistinct.sublist (((List.sublist_cons_self _ _).append_left pre).map _)
  · intro j s hs
    have hs' : (pre ++ last :: mid)[j]? = some s := hs
    show _ ∧ assocGet (assocSet (assocDel pool.interest hole.fd) last.fd _) s.fd = _
    rw [assocGet_set]
    -- before the hole, the moved slot itself, behind it
    rcases Nat.lt_trichotomy j pre.length with hj | hj | hj
    · rw [List.getElem?_append_left hj] at hs'
      have hs'' : pool.reg[j]? = some s := by rw [hreg, List.getElem?_append_left hj, hs']
      have hne : s.fd ≠ last.fd := by
        intro e
        have hij := h.index_unique hs'' hlast e
        omega
      rw [if_neg hne]
      exact h.before_hole hreg hother hs'
    · rw [hj, List.getElem?_append_right (Nat.le_refl _), Nat.sub_self] at hs'
      cases hs'
      rw [if_pos rfl, hother _ hlne, hj]
      exact ⟨(h.slots _ last hlast).1, rfl⟩
    · rw [List.getElem?_append_right (Nat.le_of_lt hj), List.getElem?_cons,
        if_neg (by omega)] at hs'
      have hjm := (List.getElem?_eq_some_iff.mp hs').1
      have hs'' : pool.reg[j]? = some s := by
        rw [hreg, List.getElem?_append_right (Nat.le_of_lt hj), List.getElem?_cons,
          if_neg (by omega), List.getElem?_append_left hjm, hs']
      have hne : s.fd ≠ last.fd := by
        intro e
        have hij := h.index_unique hs'' hlast e
        omega
      have hne' : s.fd ≠ hole.fd := by
        intro e
        have hij := h.index_unique hs'' hhole e
        omega
      rw [if_neg hne, hother _ hne', assocGet_del, if_neg hne']
      exact h.slots j s hs''
  · intro fd hfd
    have hfd' : fd ∉ (pre ++ last :: mid).map RegSlot.fd := hfd
    have hnl : fd ≠ last.fd := by
      rintro rfl
      exact hfd' (by simp)
    show _ ∧ assocGet (assocSet (assocDel pool.interest hole.fd) last.fd _) fd = none
    rw [assocGet_set, if_neg hnl, assocGet_del]
    by_cases hne : fd = hole.fd
    · rw [hne, if_pos rfl]
      exact ⟨hown, rfl⟩
    · rw [if_neg hne, hother _ hne]
      apply h.absent
      rw [hreg, mem_without_hole, not_or]
      exact ⟨hne, hfd'⟩

/-- With the hole forgotten, the kernel still has the last slot under its old
index. -/
theorem RegistryOk.last_interest (h : RegistryOk pool wanted) {mid : List RegSlot} {last : RegSlot}
    (hreg : pool.reg = pre ++ hole :: (mid ++ [last])) :
    assocGet (assocDel pool.interest hole.fd) last.fd
      = some ⟨last.events, last.fd, pre.length + 1 + mid.length⟩ := by
  have hhole : pool.reg[pre.length]? = some hole := by
    rw [hreg, List.getElem?_append_right (Nat.le_refl _), Nat.sub_self]
    rfl
  have hlast : pool.reg[pre.length + 1 + mid.length]? = some last := by
    rw [hreg, getElem?_last]
  have hne : last.fd ≠ hole.fd := by
    intro e
    have hij := h.index_unique hlast hhole e
    omega
  rw [assocGet_del, if_neg hne]
  exact (h.slots _ last hlast).2

end Removal

/-- **`event_unregister`**, for every hint: the last slot fills the hole. -/
theorem eventUnregister_ok (h : RegistryOk pool wanted) (wanted' : Int → Option Registration) (fd hint : Int)
    (hown : wanted' fd = none) (hother : ∀ fd', fd' ≠ fd → wanted' fd' = wanted fd') :
    ∃ pool', eventUnregister pool fd hint false false
        = some (pool', if wanted fd = none then -1 else 0) ∧
      RegistryOk pool' wanted' ∧ pool'.count = pool.count ∧ pool'.used ≤ pool.used := by
  have hfind := h.getindex fd hint
  rw [eventUnregister, if_neg h.not_null]
  cases hw : wanted fd with
  | none =>
      rw [hw] at hfind
      rw [hfind]
      exact ⟨pool, by simp, wanted_unchanged (hown.trans hw.symm) hother ▸ h, rfl, Nat.le_refl _⟩
  | some r =>
      rw [hw] at hfind
      obtain ⟨i, hi, hslot⟩ := hfind
      have hkernel := (h.slots i _ hslot).2
      obtain ⟨pre, post, hreg, hpre⟩ := getElem?_split hslot
      have hmod : pool.reg.modify i RegSlot.dead
          = pre ++ RegSlot.dead ⟨fd, r.events, r.handler, r.data⟩ :: post := by
        rw [hreg, ← hpre, modify_split]
      -- first the kernel forgets `fd`, then the table closes the hole
      have hdel := ctl_del { pool with reg := pool.reg.modify i RegSlot.dead } fd
        ⟨⟨false, false, false⟩, fd, i⟩ hkernel
      have hused : pool.used = i + 1 + post.length := by
        rw [EventPool.used, hreg, List.length_append, List.length_cons, hpre]
        omega
      have hzero : ¬ (0 : Int) = -1 := by decide
      simp only [hi, hdel, reduceCtorEq, if_false]
      by_cases hlast : pool.used - 1 = i
      · have hpost : post = [] := List.length_eq_zero_iff.mp (by omega)
        rw [hpost] at hreg
        have hdrop : (pool.reg.modify i RegSlot.dead).dropLast = pre := by
          rw [hmod, hpost, List.dropLast_concat]
        rw [if_pos hlast, hdrop]
        refine ⟨_, rfl, h.dropLast hreg hown hother, rfl, ?_⟩
        rw [hused]
        show pre.length ≤ _
        omega
      · have hpost : post ≠ [] := by
          rintro rfl
          rw [List.length_nil] at hused
          omega
        obtain ⟨mid, last, rfl⟩ : ∃ mid last, post = mid ++ [last] :=
          ⟨post.dropLast, post.getLast hpost, (List.dropLast_append_getLast hpost).symm⟩
        have hget : (pool.reg.modify i RegSlot.dead).getLast? = some last := by
          rw [hmod, List.append_cons, ← List.append_assoc, List.getLast?_concat]
        have hlkernel := h.last_interest hreg
        have hctl := ctl_mod { pool with
            reg := pool.reg.modify i RegSlot.dead, interest := assocDel pool.interest fd } last.fd
          ⟨last.events, last.fd, i⟩ hlkernel
        have hreg' : ((pool.reg.modify i RegSlot.dead).set i last).dropLast = pre ++ last :: mid := by
          rw [hmod, ← hpre, set_split, List.append_cons, ← List.append_assoc, List.dropLast_concat,
            ← List.append_cons]
        rw [if_neg hlast, hget, Option.map_some, eventMoveLast]
        simp only [hctl, if_neg hzero, hreg']
        refine ⟨_, rfl, hpre ▸ h.moveLast hreg hown hother, rfl, ?_⟩
        rw [hused]
        show (pre ++ last :: mid).length ≤ _
        rw [List.length_append, List.length_append, List.length_cons, List.length_singleton]
        omega

end Steps

/-! ## §4. Runs. -/

/-- One call, with allocation and `epoll_ctl` at their best. -/
def eventStep (pool : EventPool) : EventOp → Option (EventPool × Int)
  | .register fd handler data pollIn pollOut =>
      eventRegister pool fd handler data pollIn pollOut true false
  | .selectOn fd hint pollIn pollOut => eventSelectOn pool fd hint pollIn pollOut false
  | .unregister fd hint => eventUnregister pool fd hint false false

/-- An event pool with the calls made so far: only what is not registered is
registered. -/
def eventRuns : Component (EventPool × List EventOp) EventOp where
  step s o := (eventStep s.1 o).map fun r => (r.1, s.2 ++ [o])
  allowed s o :=
    match o with
    | .register fd _ _ _ _ => replay fd s.2 = none
    | _ => True

/-- `event_dispatch_epoll_handler`: the handler it calls, and its data. -/
def eventDispatchHandler (pool : EventPool) (ev : EpollEvent) : Option (Addr × Addr) :=
  (eventGetindex pool.reg ev.fd ev.idx).bind fun i =>
    (pool.reg[i]?).map fun slot => (slot.handler, slot.data)

/-- The table holds what is in use, if it had any room to begin with. -/
def HasRoom (count : Nat) (pool : EventPool) : Prop :=
  0 < count → 0 < pool.count ∧ pool.used ≤ pool.count

/-- One call keeps the agreement. -/
theorem eventStep_ok {count : Nat} (s : EventPool × List EventOp) (o : EventOp)
    (hok : RegistryOk s.1 (fun fd => replay fd s.2) ∧ HasRoom count s.1) (ho : eventRuns.allowed s o) :
    ∃ s', eventRuns.step s o = some s' ∧
      RegistryOk s'.1 (fun fd => replay fd s'.2) ∧ HasRoom count s'.1 := by
  obtain ⟨hok, hroom⟩ := hok
  have hown := replay_own s.2 o
  have hother : ∀ fd, fd ≠ o.fd → replay fd (s.2 ++ [o]) = replay fd s.2 :=
    fun fd hne => replay_other s.2 (Ne.symm hne)
  show ∃ s', (eventStep s.1 o).map (fun r => (r.1, s.2 ++ [o])) = some s' ∧ _
  cases o with
  | register fd handler data pollIn pollOut =>
      have hnew : replay fd s.2 = none := ho
      obtain ⟨pool, hrun, hok', hcount, hused⟩ := eventRegister_ok
        hok (fun fd' => replay fd' (s.2 ++ [EventOp.register fd handler data pollIn pollOut]))
        handler data pollIn pollOut hnew hown hother
      refine ⟨(pool, _), by rw [eventStep, hrun]; rfl, hok', ?_⟩
      intro hpos
      obtain ⟨hpos', hle⟩ := hroom hpos
      rw [hcount, hused]
      split <;> omega
  | selectOn fd hint pollIn pollOut =>
      obtain ⟨pool, hrun, hok', hcount, hused⟩ := eventSelectOn_ok
        hok (fun fd' => replay fd' (s.2 ++ [EventOp.selectOn fd hint pollIn pollOut]))
        fd hint pollIn pollOut hown hother
      refine ⟨(pool, _), by rw [eventStep, hrun]; rfl, hok', ?_⟩
      intro hpos
      rw [hcount, hused]
      exact hroom hpos
  | unregister fd hint =>
      obtain ⟨pool, hrun, hok', hcount, hused⟩ := eventUnregister_ok
        hok (fun fd' => replay fd' (s.2 ++ [EventOp.unregister fd hint])) fd hint hown hother
      refine ⟨(pool, _), by rw [eventStep, hrun]; rfl, hok', ?_⟩
      intro hpos
      obtain ⟨hpos', hle⟩ := hroom hpos
      rw [hcount]
      exact ⟨hpos', Nat.le_trans hused hle⟩

theorem registryOk_new (count : Nat) : RegistryOk (eventPoolNew count) fun _ => none := by
  refine ⟨rfl, List.nodup_nil, ?_, ?_⟩
  · intro i slot h
    cases h
  · intro fd _
    exact ⟨rfl, rfl⟩

/-- The calls are remembered in order. -/
theorem eventRuns_history : ∀ (ops : List EventOp) (s t : EventPool × List EventOp),
    eventRuns.run s ops = some t → t.2 = s.2 ++ ops := by
  intro ops
  induction ops with
  | nil =>
      intro s t h
      cases h
      exact (List.append_nil _).symm
  | cons o ops ih =>
      intro s t h
      obtain ⟨s₁, h₁, hrest⟩ := Option.bind_eq_some_iff.mp h
      obtain ⟨r, _, rfl⟩ := Option.map_eq_some_iff.mp h₁
      rw [ih _ t hrest, List.append_assoc, List.singleton_append]

/-- **THE REGISTRY INVARIANT.**  After any calls that register only what is
not registered, registry and kernel hold what was asked for, and for every
descriptor and every hint the lookup and the dispatch find its slot, or
nothing if it is not registered. -/
theorem event_registry (count : Nat) (ops : List EventOp)
    (hlegal : eventRuns.Legal (eventPoolNew count, []) ops) :
    ∃ pool, eventRuns.run (eventPoolNew count, []) ops = some (pool, ops) ∧
      RegistryOk pool (fun fd => replay fd ops) ∧ HasRoom count pool ∧
      ∀ fd (hint : Int) (ev : EpollEvent), ev.fd = fd →
        match replay fd ops with
        | none => eventGetindex pool.reg fd hint = none ∧ eventDispatchHandler pool ev = none
        | some r => (∃ i, eventGetindex pool.reg fd hint = some i ∧
            pool.reg[i]? = some ⟨fd, r.events, r.handler, r.data⟩) ∧
            eventDispatchHandler pool ev = some (r.handler, r.data) := by
  have hstart : RegistryOk (eventPoolNew count) (fun fd => replay fd []) ∧
      HasRoom count (eventPoolNew count) :=
    ⟨registryOk_new count, fun hpos => ⟨hpos, Nat.zero_le _⟩⟩
  obtain ⟨⟨pool, history⟩, hrun, hok, hroom⟩ :=
    eventRuns.run_inv eventStep_ok ops (eventPoolNew count, []) hstart hlegal
  obtain rfl : history = ops := eventRuns_history ops _ _ hrun
  refine ⟨pool, hrun, hok, hroom, ?_⟩
  intro fd hint ev hev
  have hhint := hok.getindex fd hint
  -- the event carries an index as hint, and any hint will do
  have hcached := hok.getindex fd ev.idx
  cases hw : replay fd history with
  | none =>
      rw [hw] at hhint hcached
      refine ⟨hhint, ?_⟩
      rw [eventDispatchHandler, hev, hcached]
      rfl
  | some r =>
      rw [hw] at hhint hcached
      obtain ⟨i, hi, hslot⟩ := hcached
      refine ⟨hhint, ?_⟩
      rw [eventDispatchHandler, hev, hi, Option.bind_some, hslot]
      rfl

/-- Three descriptors in a table for one; the first is unregistered with a
stale hint, so that the last moves to its place. -/
theorem event_registry_moved : ∃ pool,
    eventRuns.run (eventPoolNew 1, []) [.register 5 1 1 1 0, .register 6 2 2 1 0, .register 7 3 3 1 (-1),
      .unregister 5 2, .selectOn 7 2 (-1) 1] = some (pool,
        [.register 5 1 1 1 0, .register 6 2 2 1 0, .register 7 3 3 1 (-1), .unregister 5 2,
          .selectOn 7 2 (-1) 1]) ∧
    eventDispatchHandler pool ⟨⟨false, true, false⟩, 7, 2⟩ = some (3, 3) := by
  obtain ⟨pool, hrun, -, -, hfind⟩ := event_registry 1
    [.register 5 1 1 1 0, .register 6 2 2 1 0, .register 7 3 3 1 (-1), .unregister 5 2,
      .selectOn 7 2 (-1) 1]
    ⟨rfl, fun _ h₁ => by
      cases h₁
      exact ⟨rfl, fun _ h₂ => by
        cases h₂
        exact ⟨rfl, fun _ _ => ⟨trivial, fun _ _ => ⟨trivial, fun _ _ => trivial⟩⟩⟩⟩⟩
  exact ⟨pool, hrun, (hfind 7 2 ⟨⟨false, true, false⟩, 7, 2⟩ rfl).2⟩

end LzLib.Event
