/-
  LzLib.Event.Registry
  ────────────────────
  **A DESCRIPTOR WATCHED BY THE POOL.**

  `Watched pool fd out`: exactly one slot of the registry holds `fd`, the
  kernel watches it with the mask of that slot, and `out` is the POLLOUT bit.
  Selecting on `fd` itself sets the bit; whatever is registered, selected or
  unregistered for other descriptors leaves it alone, although unregistering
  moves slots about.
-/
import LzLib.Event.EpollDef

namespace LzLib.Event

open LzLib.Foundation

/-! ## §1. Slots by index. -/

theorem getElem?_split {α : Type} {l : List α} {i : Nat} {a : α} (h : l[i]? = some a) :
    ∃ pre post, l = pre ++ a :: post ∧ pre.length = i := by
  obtain ⟨hi, rfl⟩ := List.getElem?_eq_some_iff.mp h
  refine ⟨l.take i, l.drop (i + 1), ?_, ?_⟩
  · rw [List.getElem_cons_drop, List.take_append_drop]
  · rw [List.length_take]
    omega

theorem modify_split {α : Type} (pre post : List α) (a : α) (f : α → α) :
    (pre ++ a :: post).modify pre.length f = pre ++ f a :: post := by
  induction pre with
  | nil => rfl
  | cons x pre ih =>
      rw [List.cons_append, List.length_cons, List.modify_succ_cons, ih]
      rfl

theorem set_split {α : Type} (pre post : List α) (a b : α) :
    (pre ++ a :: post).set pre.length b = pre ++ b :: post := by
  induction pre with
  | nil => rfl
  | cons x pre ih =>
      rw [List.cons_append, List.length_cons, List.set_cons_succ, ih]
      rfl

/-- The index found is one of `fd`. -/
theorem eventGetindex_fd {reg : List RegSlot} {fd idx : Int} {i : Nat}
    (h : eventGetindex reg fd idx = some i) : ∃ slot, reg[i]? = some slot ∧ slot.fd = fd := by
  unfold eventGetindex at h
  split at h
  next hc =>
    cases h
    obtain ⟨slot, hslot, hfd⟩ := Option.map_eq_some_iff.mp hc.2
    exact ⟨slot, hslot, hfd⟩
  next =>
    obtain ⟨hi, hfd, -⟩ := List.findIdx?_eq_some_iff_getElem.mp h
    exact ⟨reg[i], List.getElem?_eq_getElem hi, of_decide_eq_true hfd⟩

/-- A registered descriptor is found, whatever the hint. -/
theorem eventGetindex_isSome {reg : List RegSlot} {fd : Int} (idx : Int) {slot : RegSlot}
    (hmem : slot ∈ reg) (hfd : slot.fd = fd) : ∃ i, eventGetindex reg fd idx = some i := by
  unfold eventGetindex
  split
  next => exact ⟨_, rfl⟩
  next =>
    cases hfind : reg.findIdx? fun slot => decide (slot.fd = fd) with
    | some i => exact ⟨i, rfl⟩
    | none =>
        have hno := List.findIdx?_eq_none_iff.mp hfind slot hmem
        exact absurd hfd (of_decide_eq_false hno)

/-! ## §2. The slots of one descriptor. -/

/-- The slots that hold `fd`. -/
def slotsOf (reg : List RegSlot) (fd : Int) : List RegSlot := reg.filter fun slot => slot.fd = fd

theorem slotsOf_append (l r : List RegSlot) (fd : Int) :
    slotsOf (l ++ r) fd = slotsOf l fd ++ slotsOf r fd := List.filter_append l r

theorem slotsOf_cons_ne {slot : RegSlot} {reg : List RegSlot} {fd : Int} (h : slot.fd ≠ fd) :
    slotsOf (slot :: reg) fd = slotsOf reg fd :=
  List.filter_cons_of_neg (by simpa using h)

theorem slotsOf_cons_eq {slot : RegSlot} {reg : List RegSlot} {fd : Int} (h : slot.fd = fd) :
    slotsOf (slot :: reg) fd = slot :: slotsOf reg fd :=
  List.filter_cons_of_pos (by simpa using h)

/-- Another descriptor's slot may change into any other. -/
theorem slotsOf_modify_ne {reg : List RegSlot} {fd : Int} {i : Nat} {slot : RegSlot}
    {f : RegSlot → RegSlot} (h : reg[i]? = some slot) (hne : slot.fd ≠ fd)
    (hne' : (f slot).fd ≠ fd) : slotsOf (reg.modify i f) fd = slotsOf reg fd := by
  obtain ⟨pre, post, rfl, rfl⟩ := getElem?_split h
  rw [modify_split, slotsOf_append, slotsOf_append, slotsOf_cons_ne hne, slotsOf_cons_ne hne']

/-- Moving the last slot into another descriptor's hole keeps the only slot of `fd`. -/
theorem slotsOf_hole {pre mid : List RegSlot} {hole last only : RegSlot} {fd : Int}
    (hne : hole.fd ≠ fd) (h : slotsOf (pre ++ hole :: (mid ++ [last])) fd = [only]) :
    slotsOf (pre ++ last :: mid) fd = [only] := by
  rw [slotsOf_append, slotsOf_cons_ne hne, ← slotsOf_append] at h
  have hperm : (pre ++ (mid ++ [last])).Perm (pre ++ last :: mid) :=
    List.Perm.append_left pre (List.perm_append_singleton last mid)
  have hslots : [only].Perm (slotsOf (pre ++ last :: mid) fd) := h ▸ hperm.filter _
  exact List.perm_singleton.mp hslots.symm

/-! ## §3. What `epoll_ctl` leaves. -/

section Ctl

variable (pool : EventPool) (refused : Bool) (op : CtlOp) (fd : Int) (ev : EpollEvent)

@[simp] theorem ctl_reg : (pool.ctl refused op fd ev).1.reg = pool.reg := by
  unfold EventPool.ctl
  split <;> rfl

@[simp] theorem ctl_regNull : (pool.ctl refused op fd ev).1.regNull = pool.regNull := by
  unfold EventPool.ctl
  split <;> rfl

/-- The entries of other descriptors stay. -/
theorem ctl_other {fd' : Int} (hne : fd ≠ fd') :
    assocGet (pool.ctl refused op fd ev).1.interest fd' = assocGet pool.interest fd' := by
  unfold EventPool.ctl
  cases hctl : epollCtl refused op pool.interest fd ev with
  | none => rfl
  | some interest =>
      show assocGet interest fd' = _
      have hset : assocGet (assocSet pool.interest fd ev) fd' = assocGet pool.interest fd' := by
        rw [assocGet_set, if_neg (Ne.symm hne)]
      have hdel : assocGet (assocDel pool.interest fd) fd' = assocGet pool.interest fd' := by
        rw [assocGet_del, if_neg (Ne.symm hne)]
      unfold epollCtl at hctl
      split at hctl
      · cases hctl
      · cases op <;> cases hget : assocGet pool.interest fd <;> rw [hget] at hctl <;>
          cases hctl <;> assumption

/-- A modification that is not refused installs its event. -/
theorem ctl_mod {old : EpollEvent} (h : assocGet pool.interest fd = some old) :
    pool.ctl false .mod fd ev = ({ pool with interest := assocSet pool.interest fd ev }, 0) := by
  have hctl : epollCtl false .mod pool.interest fd ev = some (assocSet pool.interest fd ev) := by
    simp [epollCtl, h]
  rw [EventPool.ctl, hctl]

/-- So does an addition, for a descriptor the kernel does not know. -/
theorem ctl_add (h : assocGet pool.interest fd = none) :
    pool.ctl false .add fd ev = ({ pool with interest := assocSet pool.interest fd ev }, 0) := by
  have hctl : epollCtl false .add pool.interest fd ev = some (assocSet pool.interest fd ev) := by
    simp [epollCtl, h]
  rw [EventPool.ctl, hctl]

theorem ctl_del {old : EpollEvent} (h : assocGet pool.interest fd = some old) :
    pool.ctl false .del fd ev = ({ pool with interest := assocDel pool.interest fd }, 0) := by
  have hctl : epollCtl false .del pool.interest fd ev = some (assocDel pool.interest fd) := by
    simp [epollCtl, h]
  rw [EventPool.ctl, hctl]

/-- A modification that succeeds has installed its event. -/
theorem ctl_mod_done (h : (pool.ctl refused .mod fd ev).2 ≠ -1) :
    assocGet (pool.ctl refused .mod fd ev).1.interest fd = some ev := by
  unfold EventPool.ctl at h ⊢
  cases hctl : epollCtl refused .mod pool.interest fd ev with
  | none =>
      rw [hctl] at h
      exact absurd rfl h
  | some interest =>
      show assocGet interest fd = some ev
      unfold epollCtl at hctl
      split at hctl
      · cases hctl
      · cases hget : assocGet pool.interest fd <;> rw [hget] at hctl <;> cases hctl
        rw [assocGet_set, if_pos rfl]

end Ctl

/-! ## §4. A watched descriptor. -/

/-- `fd` has one slot, the kernel watches it with that slot's mask, and POLLOUT
is `out`. -/
structure Watched (pool : EventPool) (fd : Int) (out : Bool) : Prop where
  live : pool.regNull = false
  watched : ∃ slot ev, slotsOf pool.reg fd = [slot] ∧ slot.events.pollOut = out ∧
    assocGet pool.interest fd = some ev ∧ ev.events = slot.events

theorem Watched.not_null {pool : EventPool} {fd : Int} {out : Bool} (h : Watched pool fd out) :
    ¬ pool.regNull = true := by
  rw [h.live]
  decide

/-- POLLOUT interest, as the kernel sees it. -/
def pollOutEnabled (pool : EventPool) (fd : Int) : Bool :=
  ((assocGet pool.interest fd).map fun ev => ev.events.pollOut) = some true

theorem Watched.pollOut_eq {pool : EventPool} {fd : Int} {out : Bool} (h : Watched pool fd out) :
    pollOutEnabled pool fd = out := by
  obtain ⟨slot, ev, -, hout, hev, hmask⟩ := h.watched
  rw [pollOutEnabled, hev, Option.map_some, hmask, hout]
  cases out <;> rfl

/-- The part of the pool that `Watched` reads. -/
theorem Watched.congr {pool pool' : EventPool} {fd : Int} {out : Bool} (h : Watched pool fd out)
    (hlive : pool'.regNull = pool.regNull) (hreg : slotsOf pool'.reg fd = slotsOf pool.reg fd)
    (hint : assocGet pool'.interest fd = assocGet pool.interest fd) : Watched pool' fd out := by
  obtain ⟨slot, ev, hslots, hout, hev, hmask⟩ := h.watched
  exact ⟨hlive.trans h.live, slot, ev, hreg.trans hslots, hout, hint.trans hev, hmask⟩

/-- A call of `epoll_ctl` for another descriptor. -/
theorem Watched.ctl {pool : EventPool} {fd fd' : Int} {out : Bool} (h : Watched pool fd out)
    (hne : fd' ≠ fd) (refused : Bool) (op : CtlOp) (ev : EpollEvent) :
    Watched (pool.ctl refused op fd' ev).1 fd out :=
  h.congr (ctl_regNull _ _ _ _ _) (by rw [ctl_reg]) (ctl_other _ _ _ _ _ hne)

/-- The registry as the only slot of `fd` splits it. -/
theorem slotsOf_eq_singleton {pre post : List RegSlot} {found slot : RegSlot} {fd : Int}
    (hfd : found.fd = fd) (h : slotsOf (pre ++ found :: post) fd = [slot]) :
    found = slot ∧ slotsOf pre fd = [] ∧ slotsOf post fd = [] := by
  rw [slotsOf_append, slotsOf_cons_eq hfd] at h
  have hlen := congrArg List.length h
  rw [List.length_append, List.length_cons, List.length_singleton] at hlen
  have hpre : slotsOf pre fd = [] := List.length_eq_zero_iff.mp (by omega)
  have hpost : slotsOf post fd = [] := List.length_eq_zero_iff.mp (by omega)
  rw [hpre, hpost, List.nil_append, List.cons.injEq] at h
  exact ⟨h.1, hpre, hpost⟩

/-- The slot that is switched. -/
theorem getElem?_switch {reg : List RegSlot} {i : Nat} {found : RegSlot} (hfound : reg[i]? = some found)
    (pollIn pollOut : Int) :
    (reg.modify i (RegSlot.switch pollIn pollOut))[i]? = some (found.switch pollIn pollOut) := by
  rw [List.getElem?_modify_eq, hfound]
  rfl

/-- Selecting never gets stuck while the table is there, and leaves it there. -/
theorem eventSelectOn_total {pool : EventPool} (h : pool.regNull = false)
    (fd hint pollIn pollOut : Int) (refused : Bool) :
    ∃ r, eventSelectOn pool fd hint pollIn pollOut refused = some r ∧ r.1.regNull = false := by
  rw [eventSelectOn, if_neg (by rw [h]; decide)]
  cases hi : eventGetindex pool.reg fd hint with
  | none => exact ⟨_, rfl, h⟩
  | some i =>
      obtain ⟨found, hfound, -⟩ := eventGetindex_fd hi
      have hget := getElem?_switch hfound pollIn pollOut
      simp only [hget, Option.map_some]
      refine ⟨_, rfl, ?_⟩
      rw [ctl_regNull]
      exact h

/-- **Selecting on the descriptor itself** sets its POLLOUT bit. -/
theorem eventSelectOn_watched {pool : EventPool} {fd : Int} {out : Bool} (h : Watched pool fd out)
    (hint on : Int) : ∃ pool', eventSelectOn pool fd hint (-1) on false = some (pool', 0) ∧
      Watched pool' fd (switchBit on out) := by
  obtain ⟨slot, ev, hslots, hout, hev, hmask⟩ := h.watched
  have hslot : slot ∈ slotsOf pool.reg fd := by
    rw [hslots]
    exact List.mem_singleton_self slot
  have hmem := List.mem_filter.mp hslot
  obtain ⟨i, hi⟩ := eventGetindex_isSome hint hmem.1 (of_decide_eq_true hmem.2)
  obtain ⟨found, hfound, hfd⟩ := eventGetindex_fd hi
  -- the slot that was found is the only one of `fd`
  obtain ⟨pre, post, hreg, hpre⟩ := getElem?_split hfound
  rw [hreg] at hslots
  obtain ⟨rfl, hnil, hnil'⟩ := slotsOf_eq_singleton hfd hslots
  have hmod : pool.reg.modify i (RegSlot.switch (-1) on)
      = pre ++ found.switch (-1) on :: post := by
    rw [hreg, ← hpre, modify_split]
  have hget : (pre ++ found.switch (-1) on :: post)[i]? = some (found.switch (-1) on) := by
    rw [← hpre, List.getElem?_append_right (Nat.le_refl _), Nat.sub_self]
    rfl
  refine ⟨{ pool with
      reg := pre ++ found.switch (-1) on :: post
      interest := assocSet pool.interest fd ⟨(found.switch (-1) on).events, fd, i⟩ },
    ?_, h.live, found.switch (-1) on, ⟨(found.switch (-1) on).events, fd, i⟩, ?_, ?_, ?_, rfl⟩
  · rw [eventSelectOn, if_neg h.not_null]
    simp only [hi, hmod, hget, Option.map_some]
    exact congrArg some (ctl_mod _ fd _ hev)
  · show slotsOf (pre ++ _ :: post) fd = _
    rw [slotsOf_append, slotsOf_cons_eq (show (found.switch (-1) on).fd = fd from hfd), hnil,
      hnil', List.nil_append]
  · show switchBit on found.events.pollOut = _
    rw [hout]
  · show assocGet (assocSet pool.interest fd _) fd = _
    rw [assocGet_set, if_pos rfl]

/-- With room in the table the slot is appended; a full table grows first. -/
theorem eventRegister_room {pool : EventPool} {room : Bool} (hlive : pool.regNull = false)
    (hroom : pool.count = pool.used → room = true) (fd : Int) (handler data : Addr)
    (pollIn pollOut : Int) (refused : Bool) :
    eventRegister pool fd handler data pollIn pollOut room refused
      = some (eventAppend
          { pool with count := if pool.count = pool.used then pool.count * 2 else pool.count }
          (newSlot fd handler data pollIn pollOut) refused) := by
  rw [eventRegister, if_neg (by rw [hlive]; decide)]
  by_cases hfull : pool.count = pool.used
  · rw [if_pos hfull, if_pos hfull, hroom hfull, if_pos rfl]
  · rw [if_neg hfull, if_neg hfull]

/-- Without, it is lost. -/
theorem eventRegister_lost {pool : EventPool} (hlive : pool.regNull = false)
    (hfull : pool.count = pool.used) (fd : Int) (handler data : Addr) (pollIn pollOut : Int)
    (refused : Bool) :
    eventRegister pool fd handler data pollIn pollOut false refused
      = some ({ pool with count := pool.count * 2, regNull := true }, -1) := by
  rw [eventRegister, if_neg (by rw [hlive]; decide), if_pos hfull]
  rfl

/-- **Registering a new descriptor** makes the pool watch it. -/
theorem eventRegister_watched {pool : EventPool} {fd : Int} (hlive : pool.regNull = false)
    (hnew : slotsOf pool.reg fd = []) (hkernel : assocGet pool.interest fd = none)
    (handler data : Addr) (pollIn pollOut : Int) :
    ∃ r, eventRegister pool fd handler data pollIn pollOut true false = some r ∧
      Watched r.1 fd (switchBit pollOut false) := by
  rw [eventRegister_room hlive (fun _ => rfl)]
  refine ⟨_, rfl, ?_⟩
  generalize (if pool.count = pool.used then pool.count * 2 else pool.count) = count
  have hadd : (eventAppend { pool with count } (newSlot fd handler data pollIn pollOut) false).1
      = ⟨count, pool.reg ++ [newSlot fd handler data pollIn pollOut], pool.regNull,
          assocSet pool.interest fd
            ⟨(newSlot fd handler data pollIn pollOut).events, fd, pool.used⟩⟩ :=
    congrArg Prod.fst (ctl_add ⟨count, pool.reg ++ [_], pool.regNull, pool.interest⟩ fd _ hkernel)
  rw [hadd]
  refine ⟨hlive, newSlot fd handler data pollIn pollOut,
    ⟨(newSlot fd handler data pollIn pollOut).events, fd, pool.used⟩, ?_, rfl, ?_, rfl⟩
  · show slotsOf (pool.reg ++ _) fd = _
    rw [slotsOf_append, hnew, slotsOf_cons_eq (show (newSlot fd _ _ _ _).fd = fd from rfl)]
    rfl
  · show assocGet (assocSet pool.interest fd _) fd = _
    rw [assocGet_set, if_pos rfl]

/-! ## §5. Operations on other descriptors. -/

theorem eventAppend_watched {pool : EventPool} {fd : Int} {out : Bool} (h : Watched pool fd out)
    {slot : RegSlot} (hne : slot.fd ≠ fd) (refused : Bool) :
    Watched (eventAppend pool slot refused).1 fd out := by
  have hreg : slotsOf (pool.reg ++ [slot]) fd = slotsOf pool.reg fd := by
    rw [slotsOf_append, slotsOf_cons_ne hne]
    exact List.append_nil _
  have happended : Watched { pool with reg := pool.reg ++ [slot] } fd out := h.congr rfl hreg rfl
  exact happended.ctl hne _ _ _

theorem eventRegister_other {pool : EventPool} {fd fd' : Int} {out : Bool}
    (h : Watched pool fd out) (hne : fd' ≠ fd) (handler data : Addr) (pollIn pollOut : Int)
    (refused : Bool) : ∃ r, eventRegister pool fd' handler data pollIn pollOut true refused = some r ∧
      Watched r.1 fd out := by
  have hgrown : Watched
      { pool with count := if pool.count = pool.used then pool.count * 2 else pool.count } fd out :=
    h.congr rfl rfl rfl
  rw [eventRegister_room h.live (fun _ => rfl)]
  exact ⟨_, rfl, eventAppend_watched hgrown (show (newSlot fd' _ _ _ _).fd ≠ fd from hne) _⟩

theorem eventSelectOn_other {pool : EventPool} {fd fd' : Int} {out : Bool} (h : Watched pool fd out)
    (hne : fd' ≠ fd) (hint pollIn pollOut : Int) (refused : Bool) :
    ∃ r, eventSelectOn pool fd' hint pollIn pollOut refused = some r ∧ Watched r.1 fd out := by
  rw [eventSelectOn, if_neg h.not_null]
  cases hi : eventGetindex pool.reg fd' hint with
  | none => exact ⟨_, rfl, h⟩
  | some i =>
      obtain ⟨found, hfound, hfd⟩ := eventGetindex_fd hi
      have hfne : found.fd ≠ fd := by rw [hfd]; exact hne
      have hreg := slotsOf_modify_ne (f := RegSlot.switch pollIn pollOut) hfound hfne hfne
      have hget := getElem?_switch hfound pollIn pollOut
      have hswitched : Watched { pool with reg := pool.reg.modify i (RegSlot.switch pollIn pollOut) }
          fd out := h.congr rfl hreg rfl
      simp only [hget, Option.map_some]
      exact ⟨_, rfl, hswitched.ctl hne _ _ _⟩

/-- Unregistering never gets stuck while the table is there. -/
theorem eventUnregister_total {pool : EventPool} (h : pool.regNull = false) (fd hint : Int)
    (refused refusedMod : Bool) : ∃ r, eventUnregister pool fd hint refused refusedMod = some r := by
  rw [eventUnregister, if_neg (by rw [h]; decide)]
  cases hi : eventGetindex pool.reg fd hint with
  | none => exact ⟨_, rfl⟩
  | some i =>
      obtain ⟨found, hfound, -⟩ := eventGetindex_fd hi
      simp only
      split
      · exact ⟨_, rfl⟩
      · split
        · exact ⟨_, rfl⟩
        · -- the table is not empty
          rw [ctl_reg]
          have hne : pool.reg.modify i RegSlot.dead ≠ [] := by
            intro hnil
            have hlen := congrArg List.length hnil
            obtain ⟨hlt, -⟩ := List.getElem?_eq_some_iff.mp hfound
            rw [List.length_modify, List.length_nil] at hlen
            omega
          rw [List.getLast?_eq_some_getLast hne]
          exact ⟨_, rfl⟩

/-- Unregistering leaves the table where it is. -/
theorem eventUnregister_regNull {pool : EventPool} {fd hint : Int} {refused refusedMod : Bool}
    {r : EventPool × Int} (h : eventUnregister pool fd hint refused refusedMod = some r) :
    r.1.regNull = pool.regNull := by
  unfold eventUnregister at h
  split at h
  · cases h
  split at h
  · cases h
    rfl
  next idx _ =>
  simp only at h
  split at h
  · cases h
    exact ctl_regNull _ _ _ _ _
  split at h
  · cases h
    exact ctl_regNull _ _ _ _ _
  · -- moving the last slot is one more call of `epoll_ctl`
    obtain ⟨last, -, rfl⟩ := Option.map_eq_some_iff.mp h
    unfold eventMoveLast
    simp only
    split
    · rw [ctl_regNull, ctl_regNull]
    · show (EventPool.ctl _ _ _ _ _).1.regNull = _
      rw [ctl_regNull, ctl_regNull]

/-- The last slot moves into the hole that another descriptor has left. -/
theorem eventMoveLast_watched {pool : EventPool} {fd : Int} {out : Bool} (h : Watched pool fd out)
    {pre mid : List RegSlot} {hole last : RegSlot} (hne : hole.fd ≠ fd)
    (hreg : pool.reg = pre ++ hole :: (mid ++ [last])) (refused : Bool) :
    Watched (eventMoveLast pool pre.length last refused).1 fd out := by
  have hset : ((pre ++ hole :: (mid ++ [last])).set pre.length last).dropLast
      = pre ++ last :: mid := by
    rw [set_split, List.append_cons, ← List.append_assoc, List.dropLast_concat, ← List.append_cons]
  obtain ⟨slot, ev, hslots, hout, hev, hmask⟩ := h.watched
  have hmoved : slotsOf (pre ++ last :: mid) fd = [slot] :=
    slotsOf_hole hne (by rw [← hreg]; exact hslots)
  rw [eventMoveLast]
  by_cases hfail : (pool.ctl refused .mod last.fd ⟨last.events, last.fd, pre.length⟩).2 = -1
  · -- refused: nothing has moved
    have hsame : pool.ctl refused .mod last.fd ⟨last.events, last.fd, pre.length⟩ = (pool, -1) := by
      unfold EventPool.ctl at hfail ⊢
      cases hctl : epollCtl refused .mod pool.interest last.fd
          ⟨last.events, last.fd, pre.length⟩ with
      | none => rfl
      | some interest =>
          rw [hctl] at hfail
          exact absurd hfail (show (0 : Int) ≠ -1 by decide)
    simp only [hsame]
    exact h
  · simp only [if_neg hfail]
    have hnew : ∃ ev', assocGet (pool.ctl refused .mod last.fd
        ⟨last.events, last.fd, pre.length⟩).1.interest fd = some ev' ∧ ev'.events = slot.events := by
      by_cases hl : last.fd = fd
      · -- it is the slot of `fd` that moves
        have hmem : last ∈ slotsOf (pre ++ last :: mid) fd :=
          List.mem_filter.mpr ⟨by simp, decide_eq_true hl⟩
        have hsame : last = slot := by
          rw [hmoved] at hmem
          exact List.mem_singleton.mp hmem
        have hdone := ctl_mod_done _ _ _ _ hfail
        rw [hl] at hdone ⊢
        exact ⟨_, hdone, by rw [hsame]⟩
      · exact ⟨ev, (ctl_other _ _ _ _ _ hl).trans hev, hmask⟩
    obtain ⟨ev', hev', hmask'⟩ := hnew
    refine ⟨?_, slot, ev', ?_, hout, hev', hmask'⟩
    · show (pool.ctl _ _ _ _).1.regNull = false
      rw [ctl_regNull]
      exact h.live
    · show slotsOf (((pool.ctl _ _ _ _).1.reg.set pre.length last).dropLast) fd = _
      rw [ctl_reg, hreg, hset]
      exact hmoved

/-- **Unregistering another descriptor** keeps `fd` watched, although it may
be its slot that moves. -/
theorem eventUnregister_other {pool : EventPool} {fd fd' : Int} {out : Bool}
    (h : Watched pool fd out) (hfd : fd ≠ -1) (hne : fd' ≠ fd) (hint : Int)
    (refused refusedMod : Bool) :
    ∃ r, eventUnregister pool fd' hint refused refusedMod = some r ∧ Watched r.1 fd out := by
  rw [eventUnregister, if_neg h.not_null]
  cases hi : eventGetindex pool.reg fd' hint with
  | none => exact ⟨_, rfl, h⟩
  | some i =>
      obtain ⟨found, hfound, hfound'⟩ := eventGetindex_fd hi
      have hfne : found.fd ≠ fd := by rw [hfound']; exact hne
      have hdead : found.dead.fd ≠ fd := Ne.symm hfd
      -- marking another slot leaves the slots of `fd`
      have hmarked := slotsOf_modify_ne (f := RegSlot.dead) hfound hfne hdead
      obtain ⟨pre, post, hreg, rfl⟩ := getElem?_split hfound
      have hmod : pool.reg.modify pre.length RegSlot.dead = pre ++ found.dead :: post := by
        rw [hreg, modify_split]
      have hdead' : Watched { pool with reg := pool.reg.modify pre.length RegSlot.dead } fd out :=
        h.congr rfl hmarked rfl
      have hdel := hdead'.ctl hne refused .del ⟨⟨false, false, false⟩, fd', pre.length⟩
      have hdelReg := ctl_reg { pool with reg := pool.reg.modify pre.length RegSlot.dead }
        refused .del fd' ⟨⟨false, false, false⟩, fd', pre.length⟩
      rw [hmod] at hdel hdelReg
      simp only [hmod]
      generalize EventPool.ctl { pool with reg := pre ++ found.dead :: post } refused .del fd'
        ⟨⟨false, false, false⟩, fd', pre.length⟩ = r at hdel hdelReg ⊢
      -- the comparison with `used` asks whether anything is behind the hole
      have hlast : pool.used - 1 = pre.length ↔ post = [] := by
        have hused : pool.used = pre.length + (post.length + 1) := by
          rw [EventPool.used, hreg, List.length_append, List.length_cons]
        rw [← List.length_eq_zero_iff]
        omega
      split
      · exact ⟨r, rfl, hdel⟩
      · by_cases hpost : post = []
        · rw [if_pos (hlast.mpr hpost)]
          refine ⟨_, rfl, hdel.congr rfl ?_ rfl⟩
          show slotsOf r.1.reg.dropLast fd = _
          rw [hdelReg, hpost, List.dropLast_concat, slotsOf_append, slotsOf_cons_ne hdead]
          exact (List.append_nil _).symm
        · rw [if_neg fun hc => hpost (hlast.mp hc)]
          obtain ⟨mid, last, rfl⟩ : ∃ mid last, post = mid ++ [last] :=
            ⟨post.dropLast, post.getLast hpost, (List.dropLast_append_getLast hpost).symm⟩
          -- the slot that moves may be the one of `fd`
          have hget : r.1.reg.getLast? = some last := by
            rw [hdelReg, List.append_cons, ← List.append_assoc, List.getLast?_concat]
          rw [hget, Option.map_some]
          exact ⟨_, rfl, eventMoveLast_watched hdel hdead hdelReg refusedMod⟩

end LzLib.Event
