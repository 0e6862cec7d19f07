/-
  LzLib.Event.Atomicity
  ─────────────────────
  **WHAT A FAILED CALL LEAVES BEHIND.**

  Each call of the event pool updates the table and the kernel in sequence,
  and stops at the first step that fails.  Nothing is rolled back: a refused
  `ADD` leaves the slot, a failed `realloc` loses the table, a refused `DEL`
  or `MOD` of the moved slot leaves a dead slot, and a refused `MOD` leaves
  the new mask in the table alone.

  `Undisturbed` names the calls that none of this happens to; exactly those
  are atomic.
-/
import LzLib.Event.RegistryRuns

namespace LzLib.Event

open LzLib.Foundation

/-! ## §1. Calls with every outcome. -/

/-- A call, with what `realloc` (`room`) and `epoll_ctl` (`refused`,
`refusedMod`) answer. -/
inductive EventCall where
  | register (fd : Int) (handler data : Addr) (pollIn pollOut : Int) (room refused : Bool)
  | unregister (fd hint : Int) (refused refusedMod : Bool)
  | selectOn (fd hint pollIn pollOut : Int) (refused : Bool)
  deriving DecidableEq

def EventPool.call (pool : EventPool) : EventCall → Option (EventPool × Int)
  | .register fd handler data pollIn pollOut room refused =>
      eventRegister pool fd handler data pollIn pollOut room refused
  | .unregister fd hint refused refusedMod => eventUnregister pool fd hint refused refusedMod
  | .selectOn fd hint pollIn pollOut refused => eventSelectOn pool fd hint pollIn pollOut refused

/-- The kernel adds no negative descriptor (`EBADF`). -/
def EventCall.Honest : EventCall → Prop
  | .register fd _ _ _ _ _ refused => fd < 0 → refused = true
  | _ => True

/-- Table and kernel describe the same descriptors with the same masks, and no
slot is dead. -/
def Agreement (pool : EventPool) : Prop :=
  (∀ slot ∈ pool.reg, slot.fd ≠ -1) ∧
    ∀ fd, (slotsOf pool.reg fd).map RegSlot.events
      = ((assocGet pool.interest fd).map EpollEvent.events).toList

/-- **A failed call leaves no trace.** -/
def Atomic (pool : EventPool) (call : EventCall) (r : EventPool × Int) : Prop :=
  r.2 = -1 →
    match call with
    | .register .. => r.1.reg = pool.reg ∧ r.1.regNull = pool.regNull
    | _ => Agreement r.1

/-- Nothing fails once the table has been touched. -/
def Undisturbed (pool : EventPool) : EventCall → Prop
  | .register fd _ _ _ _ room refused =>
      (pool.count = pool.used → room = true) ∧ refused = false ∧ assocGet pool.interest fd = none
  | .unregister fd _ refused refusedMod =>
      fd ∈ pool.reg.map RegSlot.fd →
        refused = false ∧ (refusedMod = false ∨ (pool.reg.getLast?).map RegSlot.fd = some fd)
  | .selectOn fd _ pollIn pollOut refused =>
      refused = false ∨
        ∀ slot ∈ pool.reg, slot.fd = fd → slot.events.switch pollIn pollOut = slot.events

instance (pool : EventPool) : ∀ call, Decidable (Undisturbed pool call)
  | .register .. => inferInstanceAs (Decidable (_ ∧ _ ∧ _))
  | .unregister .. => inferInstanceAs (Decidable (_ → _))
  | .selectOn .. => inferInstanceAs (Decidable (_ ∨ _))

instance : ∀ call : EventCall, Decidable call.Honest
  | .register .. => inferInstanceAs (Decidable (_ → _))
  | .unregister .. => inferInstanceAs (Decidable True)
  | .selectOn .. => inferInstanceAs (Decidable True)

/-! ## §2. A pool that serves what is wanted. -/

/-- The invariant: every slot is wanted, and no negative descriptor is. -/
def Serves (pool : EventPool) : Prop :=
  ∃ wanted, RegistryOk pool wanted ∧ ∀ fd, fd < 0 → wanted fd = none

theorem serves_new (count : Nat) : Serves (eventPoolNew count) :=
  ⟨fun _ => none, registryOk_new count, fun _ _ => rfl⟩

section Reading

variable {pool : EventPool} {wanted : Int → Option Registration}

/-- The kernel watches the descriptors that are wanted. -/
theorem RegistryOk.interest_iff (h : RegistryOk pool wanted) (fd : Int) :
    assocGet pool.interest fd = none ↔ wanted fd = none := by
  have hmem := h.mem_iff fd
  constructor
  · intro hnone
    by_contra hne
    obtain ⟨slot, hslot, rfl⟩ := List.mem_map.mp (hmem.mpr hne)
    obtain ⟨i, hi⟩ := List.getElem?_of_mem hslot
    rw [(h.slots i slot hi).2] at hnone
    cases hnone
  · intro hnone
    refine (h.absent fd ?_).2
    rw [hmem]
    exact not_not_intro hnone

/-- A registered descriptor has one slot. -/
theorem RegistryOk.slotsOf_eq (h : RegistryOk pool wanted) {i : Nat} {slot : RegSlot}
    (hi : pool.reg[i]? = some slot) : slotsOf pool.reg slot.fd = [slot] := by
  obtain ⟨pre, post, hreg, rfl⟩ := getElem?_split hi
  have hdistinct := h.distinct
  rw [hreg, List.map_append, List.map_cons] at hdistinct
  obtain ⟨-, hcons, hdisjoint⟩ := List.nodup_append.mp hdistinct
  have hpre : slotsOf pre slot.fd = [] := by
    refine List.filter_eq_nil_iff.mpr ?_
    intro s hs hfd
    exact hdisjoint s.fd (List.mem_map_of_mem hs) slot.fd List.mem_cons_self (of_decide_eq_true hfd)
  have hpost : slotsOf post slot.fd = [] := by
    refine List.filter_eq_nil_iff.mpr ?_
    intro s hs hfd
    refine (List.nodup_cons.mp hcons).1 ?_
    rw [← of_decide_eq_true hfd]
    exact List.mem_map_of_mem hs
  rw [hreg, slotsOf_append, slotsOf_cons_eq rfl, hpre, hpost, List.nil_append]

theorem slotsOf_absent {reg : List RegSlot} {fd : Int} (h : fd ∉ reg.map RegSlot.fd) :
    slotsOf reg fd = [] := by
  refine List.filter_eq_nil_iff.mpr ?_
  intro slot hslot hfd
  refine h ?_
  rw [← of_decide_eq_true hfd]
  exact List.mem_map_of_mem hslot

/-- **What serves, agrees.** -/
theorem RegistryOk.agreement (h : RegistryOk pool wanted) (hneg : ∀ fd, fd < 0 → wanted fd = none) :
    Agreement pool := by
  constructor
  · intro slot hslot hdead
    have hmem : slot.fd ∈ pool.reg.map RegSlot.fd := List.mem_map_of_mem hslot
    rw [h.mem_iff, hdead] at hmem
    exact hmem (hneg (-1) (by decide))
  · intro fd
    by_cases hmem : fd ∈ pool.reg.map RegSlot.fd
    · obtain ⟨slot, hslot, rfl⟩ := List.mem_map.mp hmem
      obtain ⟨i, hi⟩ := List.getElem?_of_mem hslot
      rw [h.slotsOf_eq hi, (h.slots i slot hi).2]
      rfl
    · rw [slotsOf_absent hmem, (h.absent fd hmem).2]
      rfl

/-- A dead slot is no agreement. -/
theorem not_agreement_of_dead {slot : RegSlot} {i : Nat} (h : pool.reg[i]? = some slot)
    (hdead : slot.fd = -1) : ¬ Agreement pool := by
  intro hagree
  exact hagree.1 slot (List.mem_of_getElem? h) hdead

/-- The slot that `eventGetindex` finds, marked dead. -/
theorem getElem?_dead {reg : List RegSlot} {slot : RegSlot} {i : Nat} (h : reg[i]? = some slot) :
    (reg.modify i RegSlot.dead)[i]? = some slot.dead := by
  rw [List.getElem?_modify_eq, h]
  rfl

end Reading

/-! ## §3. The calls, one by one. -/

/-- A call that returns 0 has not failed. -/
theorem atomic_of_done (pool pool' : EventPool) (call : EventCall) : Atomic pool call (pool', 0) := by
  intro hfail
  have hzero : ¬ (0 : Int) = -1 := by decide
  exact absurd hfail hzero

/-- What a call does to a pool that serves: it returns, it is atomic exactly
when it is undisturbed, and then the pool still serves. -/
def Settles (pool : EventPool) (call : EventCall) : Prop :=
  ∃ r, pool.call call = some r ∧ (Atomic pool call r ↔ Undisturbed pool call) ∧
    (Undisturbed pool call → Serves r.1)

theorem ctl_refused (pool : EventPool) (op : CtlOp) (fd : Int) (ev : EpollEvent) :
    pool.ctl true op fd ev = (pool, -1) := rfl

/-- A refused `ADD`, by the kernel or because the descriptor is watched. -/
theorem ctl_add_fails (pool : EventPool) (refused : Bool) (fd : Int) (ev : EpollEvent)
    (h : ¬ (refused = false ∧ assocGet pool.interest fd = none)) :
    pool.ctl refused .add fd ev = (pool, -1) := by
  cases refused with
  | true => rfl
  | false =>
      cases hget : assocGet pool.interest fd with
      | none => exact absurd ⟨rfl, hget⟩ h
      | some old => simp [EventPool.ctl, epollCtl, hget]

section Calls

variable {pool : EventPool} {wanted : Int → Option Registration}

/-- `wanted` with another entry for `fd`. -/
def rewanted (wanted : Int → Option Registration) (fd : Int) (r : Option Registration) :
    Int → Option Registration :=
  fun fd' => if fd' = fd then r else wanted fd'

theorem rewanted_own (fd : Int) (r : Option Registration) : rewanted wanted fd r fd = r := if_pos rfl

theorem rewanted_other {fd : Int} (r : Option Registration) :
    ∀ fd', fd' ≠ fd → rewanted wanted fd r fd' = wanted fd' := fun _ hne => if_neg hne

theorem rewanted_negative (hneg : ∀ fd, fd < 0 → wanted fd = none) {fd : Int}
    {r : Option Registration} (hr : fd < 0 → r = none) :
    ∀ fd', fd' < 0 → rewanted wanted fd r fd' = none := by
  intro fd' hlt
  unfold rewanted
  split
  next heq => exact hr (heq ▸ hlt)
  next => exact hneg fd' hlt

/-- A call that does what it should. -/
theorem settles_done {pool' : EventPool} {call : EventCall} (hcall : pool.call call = some (pool', 0))
    (hquiet : Undisturbed pool call) (hserves : Serves pool') : Settles pool call :=
  ⟨_, hcall, iff_of_true (atomic_of_done _ _ _) hquiet, fun _ => hserves⟩

/-- A call that fails, and is neither undisturbed nor atomic. -/
theorem settles_failed {r : EventPool × Int} {call : EventCall} (hcall : pool.call call = some r)
    (hquiet : ¬ Undisturbed pool call) (hatomic : ¬ Atomic pool call r) : Settles pool call :=
  ⟨_, hcall, iff_of_false hatomic hquiet, fun hno => absurd hno hquiet⟩

/-- A register that fails, and leaves a trace in the table. -/
theorem register_not_atomic (h : RegistryOk pool wanted) {fd : Int} {handler data : Addr}
    {pollIn pollOut : Int} {room refused : Bool} {r : EventPool × Int} (hr : r.2 = -1)
    (htrace : r.1.reg ≠ pool.reg ∨ r.1.regNull = true) :
    ¬ Atomic pool (.register fd handler data pollIn pollOut room refused) r := by
  intro hatomic
  have hclean := hatomic hr
  rcases htrace with hreg | hnull
  · exact hreg hclean.1
  · rw [hclean.2, h.live] at hnull
    cases hnull

/-- **`event_register`** rolls nothing back. -/
theorem register_settles (h : RegistryOk pool wanted) (hneg : ∀ fd, fd < 0 → wanted fd = none)
    (fd : Int) (handler data : Addr) (pollIn pollOut : Int) (room refused : Bool)
    (hhonest : fd < 0 → refused = true) :
    Settles pool (.register fd handler data pollIn pollOut room refused) := by
  by_cases hquiet : Undisturbed pool (.register fd handler data pollIn pollOut room refused)
  · have hnew : wanted fd = none := (h.interest_iff fd).mp hquiet.2.2
    obtain ⟨pool', hrun, hok, -, -⟩ := eventRegister_ok h (rewanted wanted fd _) handler data pollIn
      pollOut hnew (rewanted_own fd _) (rewanted_other _)
    have hcall : pool.call (.register fd handler data pollIn pollOut room refused)
        = some (pool', 0) := by
      -- `room` is asked only when the table is full
      show eventRegister pool fd handler data pollIn pollOut room refused = _
      rw [eventRegister_room h.live hquiet.1, hquiet.2.1, ← hrun, eventRegister_room h.live fun _ => rfl]
    refine settles_done hcall hquiet ⟨_, hok, rewanted_negative hneg ?_⟩
    intro hlt
    rw [hhonest hlt] at hquiet
    exact absurd hquiet.2.1 (by decide)
  · by_cases hroom : pool.count = pool.used ∧ room = false
    · -- the table is lost
      have hcall : pool.call (.register fd handler data pollIn pollOut room refused)
          = some ({ pool with count := pool.count * 2, regNull := true }, -1) := by
        rw [hroom.2]
        exact eventRegister_lost h.live hroom.1 fd handler data pollIn pollOut refused
      exact settles_failed hcall hquiet (register_not_atomic h rfl (Or.inr rfl))
    · -- the slot stays
      have hyes : pool.count = pool.used → room = true := by
        intro hfull
        cases room with
        | true => rfl
        | false => exact absurd ⟨hfull, rfl⟩ hroom
      have hfail : ¬ (refused = false ∧ assocGet pool.interest fd = none) := by
        intro hok
        exact hquiet ⟨hyes, hok⟩
      have happend : ∀ count : Nat,
          eventAppend { pool with count } (newSlot fd handler data pollIn pollOut) refused
            = ({ pool with count, reg := pool.reg ++ [newSlot fd handler data pollIn pollOut] }, -1) := by
        intro count
        exact ctl_add_fails ⟨count, pool.reg ++ [_], pool.regNull, pool.interest⟩ refused fd _ hfail
      have hgrown : pool.reg ++ [newSlot fd handler data pollIn pollOut] ≠ pool.reg := by
        intro heq
        have hlen := congrArg List.length heq
        rw [List.length_append, List.length_singleton] at hlen
        omega
      have hcall := eventRegister_room h.live hyes fd handler data pollIn pollOut refused
      rw [happend] at hcall
      exact settles_failed hcall hquiet (register_not_atomic h rfl (Or.inl hgrown))

/-- With a refused `MOD` the mask of the slot is switched, the kernel's is not. -/
theorem selectOn_refused (h : RegistryOk pool wanted) {fd hint : Int} {i : Nat} {slot : RegSlot}
    (hi : eventGetindex pool.reg fd hint = some i) (hslot : pool.reg[i]? = some slot)
    (pollIn pollOut : Int) :
    pool.call (.selectOn fd hint pollIn pollOut true)
      = some ({ pool with reg := pool.reg.modify i (RegSlot.switch pollIn pollOut) }, -1) := by
  have hmod : (pool.reg.modify i (RegSlot.switch pollIn pollOut))[i]?
      = some (slot.switch pollIn pollOut) := by
    rw [List.getElem?_modify_eq, hslot]
    rfl
  show eventSelectOn pool fd hint pollIn pollOut true = _
  rw [eventSelectOn, if_neg h.not_null, hi]
  simp only [hmod, Option.map_some]
  rfl

/-- The only slot of a descriptor, with its mask switched. -/
theorem RegistryOk.slotsOf_switch (h : RegistryOk pool wanted) {i : Nat} {slot : RegSlot}
    (hslot : pool.reg[i]? = some slot) (pollIn pollOut : Int) :
    slotsOf (pool.reg.modify i (RegSlot.switch pollIn pollOut)) slot.fd
      = [slot.switch pollIn pollOut] := by
  have honly := h.slotsOf_eq hslot
  obtain ⟨pre, post, hreg, hpre⟩ := getElem?_split hslot
  rw [hreg] at honly
  obtain ⟨-, hnil, hnil'⟩ := slotsOf_eq_singleton rfl honly
  have hfd : (slot.switch pollIn pollOut).fd = slot.fd := rfl
  rw [hreg, ← hpre, modify_split, slotsOf_append, slotsOf_cons_eq hfd, hnil, hnil', List.nil_append]

/-- A refused `MOD` of a mask that was that mask already touches nothing. -/
theorem selectOn_refused_same (h : RegistryOk pool wanted) (hneg : ∀ fd, fd < 0 → wanted fd = none)
    {fd hint : Int} {i : Nat} {reg : Registration} (hi : eventGetindex pool.reg fd hint = some i)
    (hslot : pool.reg[i]? = some ⟨fd, reg.events, reg.handler, reg.data⟩) {pollIn pollOut : Int}
    (hsame : reg.events.switch pollIn pollOut = reg.events) :
    Settles pool (.selectOn fd hint pollIn pollOut true) := by
  have hcall := selectOn_refused h hi hslot pollIn pollOut
  have hunchanged : pool.reg.modify i (RegSlot.switch pollIn pollOut) = pool.reg := by
    obtain ⟨pre, post, hreg, hpre⟩ := getElem?_split hslot
    rw [hreg, ← hpre, modify_split, RegSlot.switch, hsame]
  have hquiet : Undisturbed pool (.selectOn fd hint pollIn pollOut true) := by
    refine Or.inr ?_
    intro slot hmem hfd
    obtain ⟨j, hj⟩ := List.getElem?_of_mem hmem
    have hij := h.index_unique hj hslot hfd
    rw [hij, hslot] at hj
    cases hj
    exact hsame
  rw [hunchanged] at hcall
  exact ⟨_, hcall, iff_of_true (fun _ => h.agreement hneg) hquiet, fun _ => ⟨wanted, h, hneg⟩⟩

/-- With another mask, the table has it and the kernel does not. -/
theorem selectOn_refused_other (h : RegistryOk pool wanted) {fd hint : Int} {i : Nat} {reg : Registration}
    (hi : eventGetindex pool.reg fd hint = some i)
    (hslot : pool.reg[i]? = some ⟨fd, reg.events, reg.handler, reg.data⟩) {pollIn pollOut : Int}
    (hother : reg.events.switch pollIn pollOut ≠ reg.events) :
    Settles pool (.selectOn fd hint pollIn pollOut true) := by
  have hquiet : ¬ Undisturbed pool (.selectOn fd hint pollIn pollOut true) := by
    rintro (hno | hall)
    · cases hno
    · exact hother (hall _ (List.mem_of_getElem? hslot) rfl)
  refine settles_failed (selectOn_refused h hi hslot pollIn pollOut) hquiet ?_
  intro hatomic
  have hown := (hatomic rfl).2 fd
  have hslots : slotsOf (pool.reg.modify i (RegSlot.switch pollIn pollOut)) fd = _ :=
    h.slotsOf_switch hslot pollIn pollOut
  have hint : assocGet pool.interest fd = some ⟨reg.events, fd, i⟩ := (h.slots i _ hslot).2
  simp only [hslots, hint] at hown
  exact hother (List.singleton_inj.mp hown)

/-- **`event_select_on`** leaves the table's mask changed. -/
theorem selectOn_settles (h : RegistryOk pool wanted) (hneg : ∀ fd, fd < 0 → wanted fd = none)
    (fd hint pollIn pollOut : Int) (refused : Bool) :
    Settles pool (.selectOn fd hint pollIn pollOut refused) := by
  have hfind := h.getindex fd hint
  cases hw : wanted fd with
  | none =>
      -- not registered: nothing is touched
      rw [hw] at hfind
      have hcall : pool.call (.selectOn fd hint pollIn pollOut refused) = some (pool, -1) := by
        show eventSelectOn pool fd hint pollIn pollOut refused = _
        rw [eventSelectOn, if_neg h.not_null, hfind]
      have hquiet : Undisturbed pool (.selectOn fd hint pollIn pollOut refused) := by
        refine Or.inr ?_
        intro slot hslot hfd
        have hmem : slot.fd ∈ pool.reg.map RegSlot.fd := List.mem_map_of_mem hslot
        rw [hfd, h.mem_iff] at hmem
        exact absurd hw hmem
      exact ⟨_, hcall, iff_of_true (fun _ => h.agreement hneg) hquiet, fun _ => ⟨wanted, h, hneg⟩⟩
  | some reg =>
      rw [hw] at hfind
      obtain ⟨i, hi, hslot⟩ := hfind
      cases refused with
      | false =>
          obtain ⟨pool', hrun, hok, -, -⟩ := eventSelectOn_ok h (rewanted wanted fd _) fd hint pollIn
            pollOut (rewanted_own fd _) (rewanted_other _)
          rw [hw] at hrun
          refine settles_done hrun (Or.inl rfl) ⟨_, hok, rewanted_negative hneg ?_⟩
          intro hlt
          rw [hneg fd hlt]
          rfl
      | true =>
          by_cases hsame : reg.events.switch pollIn pollOut = reg.events
          · exact selectOn_refused_same h hneg hi hslot hsame
          · exact selectOn_refused_other h hi hslot hsame

/-- With nothing behind the hole, the kernel is not asked about a moved slot. -/
theorem eventUnregister_behind {fd hint : Int} {i : Nat} (hi : eventGetindex pool.reg fd hint = some i)
    (hlast : pool.used - 1 = i) (refused refusedMod : Bool) :
    eventUnregister pool fd hint refused refusedMod = eventUnregister pool fd hint refused false := by
  unfold eventUnregister
  simp only [hi, if_pos hlast]

/-- The last slot is that of `fd`. -/
theorem RegistryOk.last_iff (h : RegistryOk pool wanted) {i : Nat} {slot : RegSlot}
    (hi : pool.reg[i]? = some slot) :
    (pool.reg.getLast?).map RegSlot.fd = some slot.fd ↔ pool.used - 1 = i := by
  have hlt := (List.getElem?_eq_some_iff.mp hi).1
  rw [List.getLast?_eq_getElem?]
  show (pool.reg[pool.used - 1]?).map RegSlot.fd = some slot.fd ↔ _
  constructor
  · intro hfd
    obtain ⟨last, hlast, hlfd⟩ := Option.map_eq_some_iff.mp hfd
    exact h.index_unique hlast hi hlfd
  · intro hidx
    rw [hidx, hi]
    rfl

/-- With a refused `DEL`, or a refused `MOD` of the slot that should move, the
slot is dead and stays. -/
theorem unregister_refused (h : RegistryOk pool wanted) {fd hint : Int} {i : Nat} {slot : RegSlot}
    (hi : eventGetindex pool.reg fd hint = some i) (hslot : pool.reg[i]? = some slot)
    {refused refusedMod : Bool} (hwhy : refused = true ∨ refusedMod = true ∧ pool.used - 1 ≠ i) :
    ∃ interest, pool.call (.unregister fd hint refused refusedMod)
      = some ({ pool with reg := pool.reg.modify i RegSlot.dead, interest }, -1) := by
  have hdead := getElem?_dead hslot
  show ∃ interest, eventUnregister pool fd hint refused refusedMod = _
  rw [eventUnregister, if_neg h.not_null, hi]
  cases refused with
  | true =>
      simp only [ctl_refused, if_pos]
      exact ⟨_, rfl⟩
  | false =>
      -- `DEL` was accepted, and another slot has to move
      obtain ⟨hmod, hbehind⟩ := hwhy.resolve_left Bool.false_ne_true
      obtain ⟨found, hfound, hfd⟩ := eventGetindex_fd hi
      have hkernel := (h.slots i found hfound).2
      rw [hfd] at hkernel
      have hdel := ctl_del { pool with reg := pool.reg.modify i RegSlot.dead } fd
        ⟨⟨false, false, false⟩, fd, i⟩ hkernel
      have hzero : ¬ (0 : Int) = -1 := by decide
      have hne : pool.reg.modify i RegSlot.dead ≠ [] := List.ne_nil_of_mem (List.mem_of_getElem? hdead)
      simp only [hdel, if_neg hzero, if_neg hbehind, List.getLast?_eq_some_getLast hne,
        Option.map_some, eventMoveLast, hmod, ctl_refused, if_pos]
      exact ⟨_, rfl⟩

/-- **`event_unregister`** leaves a dead slot. -/
theorem unregister_settles (h : RegistryOk pool wanted) (hneg : ∀ fd, fd < 0 → wanted fd = none)
    (fd hint : Int) (refused refusedMod : Bool) :
    Settles pool (.unregister fd hint refused refusedMod) := by
  have hfind := h.getindex fd hint
  have hmem := h.mem_iff fd
  cases hw : wanted fd with
  | none =>
      -- not registered: nothing is touched
      rw [hw] at hfind hmem
      have hcall : pool.call (.unregister fd hint refused refusedMod) = some (pool, -1) := by
        show eventUnregister pool fd hint refused refusedMod = _
        rw [eventUnregister, if_neg h.not_null, hfind]
      have hquiet : Undisturbed pool (.unregister fd hint refused refusedMod) := by
        intro hin
        exact absurd rfl (hmem.mp hin)
      exact ⟨_, hcall, iff_of_true (fun _ => h.agreement hneg) hquiet, fun _ => ⟨wanted, h, hneg⟩⟩
  | some reg =>
      rw [hw] at hfind hmem
      obtain ⟨i, hi, hslot⟩ := hfind
      have hin : fd ∈ pool.reg.map RegSlot.fd := hmem.mpr (Option.some_ne_none _)
      have hlastIff := h.last_iff hslot
      have hkernel := (h.slots i _ hslot).2
      by_cases hquiet : Undisturbed pool (.unregister fd hint refused refusedMod)
      · obtain ⟨pool', hrun, hok, -, -⟩ := eventUnregister_ok h (rewanted wanted fd none) fd hint
          (rewanted_own fd none) (rewanted_other none)
        rw [hw] at hrun
        have hcall : pool.call (.unregister fd hint refused refusedMod) = some (pool', 0) := by
          show eventUnregister pool fd hint refused refusedMod = _
          obtain ⟨hdel, hmove⟩ := hquiet hin
          rw [hdel]
          rcases hmove with hno | hlast
          · rw [hno]
            exact hrun
          · rw [eventUnregister_behind hi (hlastIff.mp hlast)]
            exact hrun
        exact settles_done hcall hquiet ⟨_, hok, rewanted_negative hneg fun _ => rfl⟩
      · -- the dead slot is still in the table
        have hwhy : refused = true ∨ refusedMod = true ∧ pool.used - 1 ≠ i := by
          cases refused with
          | true => exact Or.inl rfl
          | false =>
              refine Or.inr ⟨?_, ?_⟩
              · cases refusedMod with
                | true => rfl
                | false => exact absurd (fun _ => ⟨rfl, Or.inl rfl⟩) hquiet
              · intro hlast
                exact hquiet fun _ => ⟨rfl, Or.inr (hlastIff.mpr hlast)⟩
        obtain ⟨interest, hcall⟩ := unregister_refused h hi hslot hwhy
        refine settles_failed hcall hquiet ?_
        intro hatomic
        exact not_agreement_of_dead (getElem?_dead hslot) rfl (hatomic rfl)

end Calls

/-! ## §4. Runs. -/

/-- **Every honest call of a pool that serves** is atomic exactly when nothing
fails under it. -/
theorem call_settles {pool : EventPool} (h : Serves pool) (call : EventCall) (hhonest : call.Honest) :
    Settles pool call := by
  obtain ⟨wanted, hok, hneg⟩ := h
  cases call with
  | register fd handler data pollIn pollOut room refused =>
      exact register_settles hok hneg fd handler data pollIn pollOut room refused hhonest
  | unregister fd hint refused refusedMod => exact unregister_settles hok hneg fd hint refused refusedMod
  | selectOn fd hint pollIn pollOut refused =>
      exact selectOn_settles hok hneg fd hint pollIn pollOut refused

/-- An event pool under calls that meet the condition. -/
def eventCalls : Component EventPool EventCall where
  step pool call := (pool.call call).map Prod.fst
  allowed pool call := call.Honest ∧ Undisturbed pool call

instance : ∀ pool call, Decidable (eventCalls.allowed pool call) :=
  fun _ _ => inferInstanceAs (Decidable (_ ∧ _))

theorem eventCalls_step (pool : EventPool) (call : EventCall) (h : Serves pool)
    (hc : eventCalls.allowed pool call) : ∃ pool', eventCalls.step pool call = some pool' ∧
      Serves pool' := by
  obtain ⟨r, hr, -, hkeep⟩ := call_settles h call hc.1
  refine ⟨r.1, ?_, hkeep hc.2⟩
  show (pool.call call).map Prod.fst = _
  rw [hr]
  rfl

/-- **REGISTRY ERROR ATOMICITY, EXACTLY.**  In a run of undisturbed calls every
call is atomic; and at its end, whatever is called next with whatever outcome
of `realloc` and `epoll_ctl` is atomic if and only if it is undisturbed. -/
theorem registry_atomic (count : Nat) (calls : List EventCall)
    (hlegal : eventCalls.Legal (eventPoolNew count) calls) :
    (∀ pre call post, calls = pre ++ call :: post →
      ∃ pool r, eventCalls.run (eventPoolNew count) pre = some pool ∧ pool.call call = some r ∧
        Atomic pool call r) ∧
    ∃ pool, eventCalls.run (eventPoolNew count) calls = some pool ∧
      ∀ call : EventCall, call.Honest → ∃ r, pool.call call = some r ∧
        (Atomic pool call r ↔ Undisturbed pool call) := by
  constructor
  · intro pre call post hsplit
    rw [hsplit] at hlegal
    obtain ⟨hpre, hnext⟩ := Component.Legal.split hlegal
    obtain ⟨pool, hrun, hserves⟩ := eventCalls.run_inv eventCalls_step pre _ (serves_new count) hpre
    obtain ⟨hhonest, hquiet⟩ := hnext pool hrun
    obtain ⟨r, hr, hiff, -⟩ := call_settles hserves call hhonest
    exact ⟨pool, r, hrun, hr, hiff.mpr hquiet⟩
  · obtain ⟨pool, hrun, hserves⟩ := eventCalls.run_inv eventCalls_step calls _ (serves_new count) hlegal
    refine ⟨pool, hrun, ?_⟩
    intro call hhonest
    obtain ⟨r, hr, hiff, -⟩ := call_settles hserves call hhonest
    exact ⟨r, hr, hiff⟩

/-- Two descriptors; the first goes, so that the second moves, and a refused
`MOD` to the mask it has already is harmless. -/
theorem registry_atomic_moved : ∃ pool,
    eventCalls.run (eventPoolNew 1) [.register 5 1 1 1 0 true false, .register 6 2 2 1 0 true false,
      .unregister 5 0 false false, .selectOn 6 1 1 (-1) true] = some pool := by
  have hlegal : eventCalls.Legal (eventPoolNew 1) [.register 5 1 1 1 0 true false,
      .register 6 2 2 1 0 true false, .unregister 5 0 false false, .selectOn 6 1 1 (-1) true] :=
    eventCalls.legal_of_check (by decide)
  obtain ⟨-, pool, hrun, -⟩ := registry_atomic 1 _ hlegal
  exact ⟨pool, hrun⟩

/-- A refused `ADD` returns -1 and leaves the slot; unregistering with a
refused `DEL` returns -1 and leaves a dead slot. -/
theorem refused_leaves_slot :
    (∃ r, (eventPoolNew 1).call (.register 5 1 1 1 0 true true) = some r ∧ r.2 = -1 ∧ r.1.used = 1 ∧
      ¬ Atomic (eventPoolNew 1) (.register 5 1 1 1 0 true true) r) ∧
    ∃ pool r, (eventPoolNew 1).call (.register 5 1 1 1 0 true false) = some (pool, 0) ∧
      pool.call (.unregister 5 0 true false) = some r ∧ r.2 = -1 ∧
      r.1.reg.map RegSlot.fd = [-1] ∧ ¬ Atomic pool (.unregister 5 0 true false) r := by
  refine ⟨⟨_, rfl, rfl, rfl, ?_⟩, _, _, rfl, rfl, rfl, rfl, ?_⟩
  · intro hatomic
    exact absurd (hatomic rfl).1 (by decide)
  · intro hatomic
    have hdead := (hatomic rfl).1 ⟨-1, ⟨true, true, false⟩, 1, 1⟩ (by decide)
    exact hdead rfl

end LzLib.Event
