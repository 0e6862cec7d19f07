/-
  LzLib.Event.Poll
  ────────────────
  **THE POLL BACK END DOES WHAT THE EPOLL BACK END DOES.**

  Both back ends do the same to the registry (`nextReg`); the one has the pipe in
  front.  So the array that is given to `poll` holds what the kernel watches for
  epoll, and who is ready is handed to the handler that epoll would call.

  Main result: `poll_as_epoll`.
-/
import LzLib.Event.PollDef
import LzLib.Event.Dispatch

namespace LzLib.Event

open LzLib.Foundation

/-! ## §1. What a call does to the registry. -/

/-- The first slot of `fd`. -/
def slotIndex (reg : List RegSlot) (fd : Int) : Option Nat := reg.findIdx? fun slot => slot.fd = fd

/-- The last slot fills the hole. -/
def closeHole (reg : List RegSlot) (i : Nat) : List RegSlot :=
  (reg.getLast?).elim reg fun last => (reg.set i last).dropLast

def nextReg (reg : List RegSlot) : EventOp → List RegSlot
  | .register fd handler data pollIn pollOut => reg ++ [newSlot fd handler data pollIn pollOut]
  | .selectOn fd _ pollIn pollOut => (slotIndex reg fd).elim reg fun i => reg.modify i (RegSlot.switch pollIn pollOut)
  | .unregister fd _ => (slotIndex reg fd).elim reg fun i => closeHole reg i

/-- Whether a call is for a descriptor that can be served. -/
def serves (reg : List RegSlot) : EventOp → Bool
  | .register _ _ _ _ _ => true
  | .selectOn fd _ _ _ => (slotIndex reg fd).isSome
  | .unregister fd _ => (slotIndex reg fd).isSome

variable {reg : List RegSlot} {slot : RegSlot} {fd hint : Int} {op : EventOp}

/-- Where no descriptor has two slots, hints make no difference. -/
theorem eventGetindex_eq (hnodup : (reg.map RegSlot.fd).Nodup) : eventGetindex reg fd hint = slotIndex reg fd := by
  rw [eventGetindex]
  by_cases hhint : hint > -1 ∧ (reg[hint.toNat]?).map RegSlot.fd = some fd
  · rw [if_pos hhint]
    obtain ⟨slot, hslot, hfd⟩ := Option.map_eq_some_iff.mp hhint.2
    symm
    rw [slotIndex, List.findIdx?_eq_some_iff_getElem]
    obtain ⟨hlt, hget⟩ := List.getElem?_eq_some_iff.mp hslot
    refine ⟨hlt, decide_eq_true (hget ▸ hfd), fun j hj => ?_⟩
    have hne : (reg.map RegSlot.fd)[j]? ≠ (reg.map RegSlot.fd)[hint.toNat]? := by
      intro heq
      have := (List.getElem?_inj (by rw [List.length_map]; omega) hnodup).mp heq
      omega
    rw [List.getElem?_map, List.getElem?_map, hslot, List.getElem?_eq_getElem (by omega : j < reg.length)] at hne
    intro hfd'
    exact hne (congrArg some ((of_decide_eq_true hfd').trans hfd.symm))
  · rw [if_neg hhint, slotIndex]

theorem slotIndex_cons (h : slot.fd ≠ fd) : slotIndex (slot :: reg) fd = (slotIndex reg fd).map (· + 1) := by
  rw [slotIndex, List.findIdx?_cons, if_neg (by simpa using h), slotIndex]

/-- With a slot found there is a last one. -/
theorem slotIndex_last {i : Nat} (h : slotIndex reg fd = some i) :
    ∃ last, reg.getLast? = some last ∧ closeHole reg i = (reg.set i last).dropLast := by
  have hne : reg ≠ [] := by
    rintro rfl
    cases h
  obtain ⟨last, hlast⟩ := Option.isSome_iff_exists.mp (List.getLast?_isSome.mpr hne)
  refine ⟨last, hlast, ?_⟩
  rw [closeHole, hlast]
  rfl

theorem closeHole_cons {i : Nat} (h : slotIndex reg fd = some i) :
    closeHole (slot :: reg) (i + 1) = slot :: closeHole reg i := by
  obtain ⟨last, hlast, hclose⟩ := slotIndex_last h
  have hne : reg.set i last ≠ [] := by
    intro hnil
    rw [List.set_eq_nil_iff] at hnil
    rw [hnil] at hlast
    cases hlast
  rw [hclose, closeHole, List.getLast?_cons, hlast]
  show ((slot :: reg).set (i + 1) last).dropLast = slot :: (reg.set i last).dropLast
  rw [List.set_cons_succ, List.dropLast_cons_of_ne_nil hne]

/-- A slot that no call is for stays in front. -/
theorem nextReg_cons (hne : op.fd ≠ slot.fd) : nextReg (slot :: reg) op = slot :: nextReg reg op := by
  cases op with
  | register fd handler data pollIn pollOut => rfl
  | selectOn fd hint pollIn pollOut =>
      have hne : slot.fd ≠ fd := Ne.symm hne
      rw [nextReg, nextReg, slotIndex_cons hne]
      cases slotIndex reg fd <;> rfl
  | unregister fd hint =>
      have hne : slot.fd ≠ fd := Ne.symm hne
      rw [nextReg, nextReg, slotIndex_cons hne]
      cases hfound : slotIndex reg fd with
      | none => rfl
      | some i => exact closeHole_cons hfound

theorem serves_cons (hne : op.fd ≠ slot.fd) : serves (slot :: reg) op = serves reg op := by
  cases op with
  | register fd handler data pollIn pollOut => rfl
  | selectOn fd hint pollIn pollOut =>
      have hne : slot.fd ≠ fd := Ne.symm hne
      rw [serves, serves, slotIndex_cons hne, Option.isSome_map]
  | unregister fd hint =>
      have hne : slot.fd ≠ fd := Ne.symm hne
      rw [serves, serves, slotIndex_cons hne, Option.isSome_map]

/-! ## §2. The two back ends. -/

/-- **The poll back end.** -/
theorem pollStep_next {pool : PollPool} (hnodup : (pool.reg.map RegSlot.fd).Nodup) (hchanged : pool.changed = true)
    (op : EventOp) :
    ∃ pool' r, pollStep pool op = some (pool', r) ∧ (r ≠ -1 ↔ serves pool.reg op = true) ∧
      pool'.reg = nextReg pool.reg op ∧ pool'.changed = true := by
  cases op with
  | register fd handler data pollIn pollOut =>
      rw [pollStep, eventRegisterPoll]
      by_cases hfull : pool.count = pool.used
      · rw [if_pos hfull, if_pos rfl]
        exact ⟨_, _, rfl, ⟨fun _ => rfl, fun _ => by omega⟩, rfl, rfl⟩
      · rw [if_neg hfull]
        exact ⟨_, _, rfl, ⟨fun _ => rfl, fun _ => by omega⟩, rfl, rfl⟩
  | selectOn fd hint pollIn pollOut =>
      rw [pollStep, eventSelectOnPoll, eventGetindex_eq hnodup, serves, nextReg]
      cases slotIndex pool.reg fd with
      | none => exact ⟨_, _, rfl, by simp, rfl, hchanged⟩
      | some i =>
          refine ⟨_, _, rfl, by simp, ?_, ?_⟩
          · by_cases hbits : pollIn + pollOut > -2
            · exact congrArg PollPool.reg (if_pos hbits)
            · exact congrArg PollPool.reg (if_neg hbits)
          · by_cases hbits : pollIn + pollOut > -2
            · exact congrArg PollPool.changed (if_pos hbits)
            · exact (congrArg PollPool.changed (if_neg hbits)).trans hchanged
  | unregister fd hint =>
      rw [pollStep, eventUnregisterPoll, eventGetindex_eq hnodup, serves, nextReg]
      cases hindex : slotIndex pool.reg fd with
      | none => exact ⟨_, _, rfl, by simp, rfl, hchanged⟩
      | some i =>
          obtain ⟨last, hlast, hclose⟩ := slotIndex_last hindex
          refine ⟨{ pool with reg := (pool.reg.set i last).dropLast, changed := true }, i, ?_, by simp, ?_, rfl⟩
          · show (pool.reg.getLast?).map _ = _
            rw [hlast]
            rfl
          · exact hclose.symm

variable {pool : EventPool} {wanted : Int → Option Registration}

theorem RegistryOk.slotIndex (h : RegistryOk pool wanted) (fd : Int) :
    match wanted fd with
    | none => slotIndex pool.reg fd = none
    | some r => ∃ i, slotIndex pool.reg fd = some i ∧ pool.reg[i]? = some ⟨fd, r.events, r.handler, r.data⟩ := by
  rw [← eventGetindex_eq h.distinct]
  exact h.getindex fd 0

/-- The hole was dead in the meantime. -/
theorem set_dead (reg : List RegSlot) (i : Nat) (last : RegSlot) :
    (reg.modify i RegSlot.dead).set i last = reg.set i last := by
  refine List.ext_getElem? fun j => ?_
  by_cases hij : i = j
  · rw [List.getElem?_set, List.getElem?_set, List.length_modify, if_pos hij, if_pos hij]
  · rw [List.getElem?_set_ne hij, List.getElem?_set_ne hij, List.getElem?_modify_ne _ _ hij]

/-- A hole at the end goes away whatever is in it. -/
theorem dropLast_dead {i : Nat} (last : RegSlot) (hend : reg.length - 1 = i) :
    (reg.modify i RegSlot.dead).dropLast = (reg.set i last).dropLast := by
  refine List.ext_getElem? fun j => ?_
  rw [List.getElem?_dropLast, List.getElem?_dropLast, List.length_modify, List.length_set]
  by_cases hj : j < reg.length - 1
  · rw [if_pos hj, if_pos hj, List.getElem?_modify_ne _ _ (by omega), List.getElem?_set_ne (by omega)]
  · rw [if_neg hj, if_neg hj]

/-- **The epoll back end.** -/
theorem eventStep_next (h : RegistryOk pool wanted)
    (hnew : ∀ fd handler data pollIn pollOut, op = .register fd handler data pollIn pollOut → wanted fd = none) :
    ∃ pool', eventStep pool op = some (pool', if serves pool.reg op then 0 else -1) ∧
      pool'.reg = nextReg pool.reg op := by
  cases op with
  | register fd handler data pollIn pollOut =>
      have hfree := hnew fd handler data pollIn pollOut rfl
      have habsent : fd ∉ pool.reg.map RegSlot.fd := fun hmem => (h.mem_iff fd).mp hmem hfree
      rw [eventStep, eventRegister_room h.live (fun _ => rfl), eventAppend]
      exact ⟨_, congrArg some (ctl_add _ fd _ (h.absent fd habsent).2), rfl⟩
  | selectOn fd hint pollIn pollOut =>
      have hindex := h.slotIndex fd
      rw [eventStep, eventSelectOn, if_neg h.not_null, eventGetindex_eq h.distinct, serves, nextReg]
      cases hw : wanted fd with
      | none =>
          rw [hw] at hindex
          rw [hindex]
          exact ⟨pool, rfl, rfl⟩
      | some r =>
          rw [hw] at hindex
          obtain ⟨i, hi, hslot⟩ := hindex
          have hmod : (pool.reg.modify i (RegSlot.switch pollIn pollOut))[i]?
              = some (RegSlot.switch pollIn pollOut ⟨fd, r.events, r.handler, r.data⟩) := by
            rw [List.getElem?_modify_eq, hslot]
            rfl
          rw [hi]
          simp only [hmod, Option.map_some]
          exact ⟨_, congrArg some (ctl_mod _ fd _ (h.slots i _ hslot).2), rfl⟩
  | unregister fd hint =>
      have hindex := h.slotIndex fd
      rw [eventStep, eventUnregister, if_neg h.not_null, eventGetindex_eq h.distinct, serves, nextReg]
      cases hw : wanted fd with
      | none =>
          rw [hw] at hindex
          rw [hindex]
          exact ⟨pool, rfl, rfl⟩
      | some r =>
          rw [hw] at hindex
          obtain ⟨i, hi, hslot⟩ := hindex
          obtain ⟨last, hlast, hclose⟩ := slotIndex_last hi
          have hdel := ctl_del { pool with reg := pool.reg.modify i RegSlot.dead } fd
            ⟨⟨false, false, false⟩, fd, i⟩ (h.slots i _ hslot).2
          have hlt := (List.getElem?_eq_some_iff.mp hslot).1
          have hzero : ¬ (0 : Int) = -1 := by decide
          rw [hi]
          simp only [hdel, if_neg hzero]
          show ∃ pool' : EventPool, _ = some (pool', (0 : Int)) ∧ pool'.reg = closeHole pool.reg i
          rw [hclose]
          by_cases hend : pool.used - 1 = i
          · rw [if_pos hend]
            exact ⟨_, rfl, dropLast_dead last hend⟩
          · have hget : (pool.reg.modify i RegSlot.dead).getLast? = some last := by
              have hne : i ≠ pool.reg.length - 1 := Ne.symm hend
              rw [List.getLast?_eq_getElem?, List.length_modify, List.getElem?_modify_ne _ _ hne,
                ← List.getLast?_eq_getElem?, hlast]
            rw [if_neg hend, hget, Option.map_some, eventMoveLast]
            have hkernel : assocGet (assocDel pool.interest fd) last.fd = some ⟨last.events, last.fd, pool.used - 1⟩ := by
              rw [List.getLast?_eq_getElem?] at hlast
              have hne : last.fd ≠ fd := fun hfd => hend (h.index_unique hlast hslot hfd)
              rw [assocGet_del, if_neg hne]
              exact (h.slots _ _ hlast).2
            have hmod := ctl_mod { pool with
                reg := pool.reg.modify i RegSlot.dead, interest := assocDel pool.interest fd } last.fd
              ⟨last.events, last.fd, i⟩ hkernel
            simp only [hmod, if_neg hzero]
            exact ⟨_, rfl, congrArg List.dropLast (set_dead pool.reg i last)⟩

/-! ## §3. The specification. -/

/-- The epoll back end under the same calls, what `poll` is to be asked for, and
the answers that are to be handed out. -/
structure PollAgenda where
  epoll : EventPool
  ops : List EventOp
  asked : List (Int × Mask)
  batch : List (Int × Revents)

/-- The handler of the pipe, or the one that epoll would call; the index is one more. -/
def agendaCall (breaker : Int) (flush : Addr) (a : PollAgenda) (e : Int × Revents) : Option HandlerCall :=
  if e.2.quiet then none
  else if e.1 = breaker then e.2.call e.1 0 flush 0
  else
    (slotIndex a.epoll.reg e.1).bind fun i =>
      (eventDispatchHandler a.epoll ⟨⟨false, false, false⟩, e.1, i⟩).bind fun hd => e.2.call e.1 (i + 1) hd.1 hd.2

/-- What an answer of `poll` leaves to hand out. -/
def answered (asked : List (Int × Mask)) : PollAnswer → List (Int × Revents)
  | .interrupted => []
  | .failed => asked.map fun p => (p.1, Revents.zero)
  | .filled revents => if revents.all Revents.quiet then [] else (asked.map Prod.fst).zip revents

/-- The pipe, and what the kernel would watch. -/
def toAsk (breaker : Int) (reg : List RegSlot) : List (Int × Mask) :=
  (breaker, ⟨true, true, false⟩) :: reg.map fun slot => (slot.fd, slot.events)

/-- One step. -/
def pollAgendaStep (breaker : Int) (flush : Addr) (a : PollAgenda) : PollOp → PollAgenda × PollSeen
  | .pool op =>
      (eventStep a.epoll op).elim (a, .nothing) fun r =>
        ({ a with epoll := r.1, ops := a.ops ++ [op] }, .returned (r.2 ≠ -1))
  | .resize _ => ({ a with asked := toAsk breaker a.epoll.reg }, .nothing)
  | .poll answer => ({ a with batch := answered a.asked answer }, .asked a.asked)
  | .hand => ({ a with batch := a.batch.tail }, .handed (a.batch.head?.bind (agendaCall breaker flush a)))

/-- The thread, and those that it runs among. -/
def pollLoop (breaker : Int) : Server PollLoop PollOp PollSeen where
  step := pollLoopStep
  allowed := pollLoopAllowed breaker

/-- A new pool, and the thread at the start of `event_dispatch_poll`. -/
def pollLoopNew (count : Nat) (breaker : Int) (flush : Addr) : PollLoop :=
  ⟨eventPoolNewPoll count breaker flush, 0, 0, fun _ => none, 0, 0, .top⟩

def pollAgendaNew (count : Nat) : PollAgenda := ⟨eventPoolNew count, [], [], []⟩

/-! ## §4. The invariant. -/

/-- The array, against what is to be asked for and to be handed out. -/
def PollLeft (mem : List PollFd) (size : Nat) (a : PollAgenda) : Stage → Prop
  | .top => a.batch = []
  | .waiting =>
      a.batch = [] ∧ 0 < size ∧ size ≤ mem.length ∧
        mem.take size = a.asked.map fun p => ⟨p.1, p.2, Revents.zero⟩
  | .handing n i => i < n ∧ n ≤ mem.length ∧ ((mem.take n).drop i).map (fun ufd => (ufd.fd, ufd.revents)) = a.batch

/-- **The thread, against its agenda.** -/
structure PollOk (count : Nat) (breaker : Int) (flush : Addr) (s : PollLoop) (a : PollAgenda) : Prop where
  registry : RegistryOk a.epoll fun fd => replay fd a.ops
  room : HasRoom count a.epoll
  pipe : replay breaker a.ops = none
  reg : s.pool.reg = breakerSlot breaker flush :: a.epoll.reg
  changed : s.pool.changed = true
  same : s.ufds = s.evcache
  cache : s.evcache ≠ 0 → ∃ mem, s.memory s.evcache = some mem ∧ mem.length = s.evcacheSize
  noCache : s.evcache = 0 → s.evcacheSize = 0
  others : ∀ b, b ≠ s.evcache ∨ s.evcache = 0 → s.memory b = none
  left : PollLeft ((s.memory s.evcache).getD []) s.size a s.stage

variable {count : Nat} {breaker : Int} {flush : Addr} {s : PollLoop} {a : PollAgenda}

theorem pollLoopNew_ok (count : Nat) (breaker : Int) (flush : Addr) :
    PollOk count breaker flush (pollLoopNew count breaker flush) (pollAgendaNew count) where
  registry := registryOk_new count
  room hpos := ⟨hpos, Nat.zero_le _⟩
  pipe := rfl
  reg := rfl
  changed := rfl
  same := rfl
  cache h := absurd rfl h
  noCache _ := rfl
  others _ _ := rfl
  left := rfl

/-- The pipe has a slot of its own. -/
theorem PollOk.distinct (h : PollOk count breaker flush s a) : (s.pool.reg.map RegSlot.fd).Nodup := by
  rw [h.reg, List.map_cons, List.nodup_cons]
  exact ⟨fun hmem => (h.registry.mem_iff breaker).mp hmem h.pipe, h.registry.distinct⟩

/-- **The lookup** finds what epoll finds. -/
theorem dispatchPollFd_eq (h : PollOk count breaker flush s a) (ufd : PollFd) (i : Nat) :
    dispatchPollFd s.pool.reg ufd i = agendaCall breaker flush a (ufd.fd, ufd.revents) := by
  rw [dispatchPollFd, agendaCall]
  by_cases hquiet : ufd.revents.quiet = true
  · rw [if_pos hquiet, if_pos hquiet]
  · rw [if_neg hquiet, if_neg hquiet, eventGetindex_eq h.distinct, h.reg]
    by_cases hpipe : ufd.fd = breaker
    · have hfirst : slotIndex (breakerSlot breaker flush :: a.epoll.reg) ufd.fd = some 0 := by
        rw [slotIndex, List.findIdx?_cons]
        exact if_pos (decide_eq_true hpipe.symm)
      rw [if_pos hpipe, hfirst]
      rfl
    · rw [if_neg hpipe, slotIndex_cons (Ne.symm hpipe), Option.bind_map]
      cases hindex : slotIndex a.epoll.reg ufd.fd with
      | none => rfl
      | some j =>
          rw [Option.bind_some, Option.bind_some, eventDispatchHandler, eventGetindex_eq h.registry.distinct, hindex]
          show ((breakerSlot breaker flush :: a.epoll.reg)[j + 1]?).bind _ = ((a.epoll.reg[j]?).map _).bind _
          rw [List.getElem?_cons_succ, Option.bind_map]
          rfl

/-! ## §5. The steps. -/

/-- A call on the pool. -/
theorem pollPool_ok (h : PollOk count breaker flush s a) {op : EventOp} (hallowed : pollLoopAllowed breaker s (.pool op)) :
    ∃ s', pollLoopStep s (.pool op) = some (s', (pollAgendaStep breaker flush a (.pool op)).2) ∧
      PollOk count breaker flush s' (pollAgendaStep breaker flush a (.pool op)).1 := by
  obtain ⟨hpipe, hfresh⟩ := hallowed
  have hne : op.fd ≠ (breakerSlot breaker flush).fd := hpipe
  have hfree : eventRuns.allowed (a.epoll, a.ops) op := by
    cases op with
    | register fd handler data pollIn pollOut =>
        have hmem : fd ∉ s.pool.reg.map RegSlot.fd := hfresh
        rw [h.reg, List.map_cons, List.mem_cons, not_or] at hmem
        exact h.registry.free hmem.2
    | selectOn fd hint pollIn pollOut => trivial
    | unregister fd hint => trivial
  obtain ⟨⟨epoll, ops⟩, hstep, hregistry, hroom⟩ := eventStep_ok (a.epoll, a.ops) op ⟨h.registry, h.room⟩ hfree
  obtain ⟨r, hr, hpair⟩ := Option.map_eq_some_iff.mp hstep
  obtain rfl : r.1 = epoll := congrArg Prod.fst hpair
  obtain rfl : a.ops ++ [op] = ops := congrArg Prod.snd hpair
  -- both registries, from the same one
  have hnew : ∀ fd handler data pollIn pollOut, op = .register fd handler data pollIn pollOut → replay fd a.ops = none := by
    rintro fd handler data pollIn pollOut rfl
    exact hfree
  obtain ⟨epoll', hepoll, hreg⟩ := eventStep_next h.registry hnew
  obtain rfl : r = (epoll', if serves a.epoll.reg op then 0 else -1) := Option.some.inj (hr.symm.trans hepoll)
  obtain ⟨pool, ret, hpool, hret, hreg', hchanged⟩ := pollStep_next h.distinct h.changed op
  rw [h.reg, nextReg_cons hne, ← hreg] at hreg'
  rw [h.reg, serves_cons hne] at hret
  have hseen : decide (ret ≠ -1) = decide ((if serves a.epoll.reg op then (0 : Int) else -1) ≠ -1) := by
    rw [decide_eq_decide, hret]
    cases serves a.epoll.reg op <;> simp
  refine ⟨{ s with pool := pool }, ?_, ?_⟩
  · rw [pollLoopStep, hpool, pollAgendaStep, hepoll]
    show some (_, PollSeen.returned (decide (ret ≠ -1))) = _
    rw [hseen]
    rfl
  · rw [pollAgendaStep, hepoll]
    refine ⟨hregistry, hroom, ?_, hreg', hchanged, h.same, h.cache, h.noCache, h.others, ?_⟩
    · show replay breaker (a.ops ++ [op]) = none
      rw [replay_other a.ops hpipe]
      exact h.pipe
    · have hleft := h.left
      show PollLeft _ s.size { a with epoll := epoll', ops := a.ops ++ [op] } s.stage
      cases hstage : s.stage <;> rw [hstage] at hleft <;> exact hleft

/-- The old cache goes. -/
theorem PollOk.freeCache (h : PollOk count breaker flush s a) :
    ∃ memory, s.freeCache = some { s with memory := memory } ∧ ∀ b, memory b = none := by
  by_cases h0 : s.evcache = 0
  · exact ⟨s.memory, if_pos h0, fun b => h.others b (Or.inr h0)⟩
  · obtain ⟨mem, hmem, -⟩ := h.cache h0
    refine ⟨Function.update s.memory s.evcache none, ?_, fun b => ?_⟩
    · rw [PollLoop.freeCache, if_neg h0, hmem]
      rfl
    · by_cases hb : b = s.evcache
      · rw [hb, Function.update_self]
      · rw [Function.update_of_ne hb]
        exact h.others b (Or.inl hb)

theorem ufds_same (h : s.ufds = s.evcache) : s = { s with ufds := s.evcache } := by
  cases s
  cases h
  rfl

/-- After `growCache` there is an array for the registry, and no other. -/
theorem PollOk.growCache (h : PollOk count breaker flush s a) {c : Addr} (hc : c ≠ 0) :
    ∃ cache size memory mem,
      s.growCache (some c) = some { s with evcache := cache, ufds := cache, evcacheSize := size, memory := memory } ∧
        cache ≠ 0 ∧ memory cache = some mem ∧ mem.length = size ∧ s.pool.used ≤ size ∧
        ∀ b, b ≠ cache → memory b = none := by
  by_cases hgrow : s.pool.used > s.evcacheSize
  · obtain ⟨memory, hfree, hnone⟩ := h.freeCache
    refine ⟨c, s.pool.used, Function.update memory c (some (List.replicate s.pool.used PollFd.zero)), _, ?_, hc,
      Function.update_self .., List.length_replicate, Nat.le_refl _, fun b hb => ?_⟩
    · rw [PollLoop.growCache, if_pos hgrow, hfree]
      rfl
    · rw [Function.update_of_ne hb]
      exact hnone b
  · have hused : 0 < s.pool.used := by
      rw [PollPool.used, h.reg]
      exact Nat.succ_pos _
    have h0 : s.evcache ≠ 0 := by
      intro h0
      have := h.noCache h0
      omega
    obtain ⟨mem, hmem, hlength⟩ := h.cache h0
    refine ⟨s.evcache, s.evcacheSize, s.memory, mem, ?_, h0, hmem, hlength, by omega, fun b hb => h.others b (Or.inl hb)⟩
    rw [PollLoop.growCache, if_neg hgrow]
    exact congrArg some (ufds_same h.same)

/-- What the copied registry asks for. -/
theorem map_pollFd (h : PollOk count breaker flush s a) :
    s.pool.reg.map RegSlot.pollFd = (toAsk breaker a.epoll.reg).map fun p => ⟨p.1, p.2, Revents.zero⟩ := by
  rw [h.reg, toAsk, List.map_cons, List.map_cons, List.map_map]
  rfl

/-- `event_dispatch_poll_resize`. -/
theorem resize_ok (h : PollOk count breaker flush s a) {alloc : Option Addr}
    (hallowed : pollLoopAllowed breaker s (.resize alloc)) :
    ∃ s', pollLoopStep s (.resize alloc) = some (s', .nothing) ∧
      PollOk count breaker flush s' (pollAgendaStep breaker flush a (.resize alloc)).1 := by
  obtain ⟨hstage, c, hc, hc0, -⟩ := hallowed
  obtain rfl : alloc = some c := hc
  have hbatch : a.batch = [] := by
    have hleft := h.left
    rw [hstage] at hleft
    exact hleft
  obtain ⟨cache, size, memory, mem, hgrow, hcache, hmem, hsize, hused, hothers⟩ := h.growCache hc0
  have hpos : 0 < s.pool.used := by
    rw [PollPool.used, h.reg]
    exact Nat.succ_pos _
  have hcopy : PollLoop.copyReg { s with evcache := cache, ufds := cache, evcacheSize := size, memory := memory }
      = some { s with
          evcache := cache, ufds := cache, evcacheSize := size, size := s.pool.used
          memory := Function.update memory cache (some (s.pool.reg.map RegSlot.pollFd ++ mem.drop s.pool.used)) } := by
    rw [PollLoop.copyReg]
    show (if s.pool.used = 0 then _ else (memory cache).bind _) = _
    rw [if_neg (by omega), hmem, Option.bind_some]
    exact if_pos (hsize ▸ hused)
  have hlength : (s.pool.reg.map RegSlot.pollFd).length = s.pool.used := List.length_map ..
  refine ⟨{ s with
    evcache := cache, ufds := cache, evcacheSize := size, size := s.pool.used, stage := .waiting
    memory := Function.update memory cache (some (s.pool.reg.map RegSlot.pollFd ++ mem.drop s.pool.used)) }, ?_, ?_⟩
  · rw [pollLoopStep, pollResize, if_pos h.changed, hgrow, Option.bind_some, hcopy]
    rfl
  · refine ⟨h.registry, h.room, h.pipe, h.reg, h.changed, rfl, fun _ => ⟨_, Function.update_self .., ?_⟩,
      fun h0 => absurd h0 hcache, ?_, ?_⟩
    · show _ = size
      rw [List.length_append, hlength, List.length_drop, hsize]
      omega
    · intro b hb
      have hne : b ≠ cache := hb.resolve_right hcache
      show Function.update memory cache _ b = none
      rw [Function.update_of_ne hne]
      exact hothers b hne
    · show PollLeft ((Function.update memory cache _ cache).getD []) s.pool.used _ .waiting
      rw [Function.update_self, Option.getD_some]
      refine ⟨hbatch, hpos, ?_, ?_⟩
      · rw [List.length_append, hlength]
        omega
      · rw [List.take_append_of_le_length (Nat.le_of_eq hlength.symm), List.take_of_length_le (Nat.le_of_eq hlength)]
        exact map_pollFd h

/-- What was answered, entry by entry. -/
theorem zip_answered {asked : List (Int × Mask)} {revents : List Revents} :
    (List.zipWith PollFd.answered (asked.map fun p => ⟨p.1, p.2, Revents.zero⟩) revents).map (fun ufd => (ufd.fd, ufd.revents))
      = (asked.map Prod.fst).zip revents := by
  rw [List.map_zipWith, List.zipWith_map_left, List.zip_map_left, List.map_zip_eq_zipWith]
  rfl

/-- The array while the thread is in `poll`. -/
theorem PollOk.waiting (h : PollOk count breaker flush s a) (hstage : s.stage = .waiting) :
    ∃ mem, s.memory s.evcache = some mem ∧ mem.length = s.evcacheSize ∧ s.evcache ≠ 0 ∧ 0 < s.size ∧
      s.size ≤ mem.length ∧ mem.take s.size = a.asked.map fun p => ⟨p.1, p.2, Revents.zero⟩ := by
  have hleft := h.left
  rw [hstage] at hleft
  obtain ⟨-, hpos, hsize, harray⟩ := hleft
  -- the array is longer than nothing
  have h0 : s.evcache ≠ 0 := by
    intro h0
    rw [h.others s.evcache (Or.inr h0)] at hsize
    have hsize : s.size ≤ 0 := hsize
    omega
  obtain ⟨mem, hmem, hlength⟩ := h.cache h0
  rw [hmem, Option.getD_some] at hsize harray
  exact ⟨mem, hmem, hlength, h0, hpos, hsize, harray⟩

/-- What `poll` was asked for. -/
theorem map_asked (asked : List (Int × Mask)) :
    (asked.map fun p => (⟨p.1, p.2, Revents.zero⟩ : PollFd)).map (fun ufd => (ufd.fd, ufd.events)) = asked := by
  rw [List.map_map]
  exact List.map_id _

/-- `poll`, and the checks of what it returns. -/
theorem poll_ok (h : PollOk count breaker flush s a) {answer : PollAnswer}
    (hallowed : pollLoopAllowed breaker s (.poll answer)) :
    ∃ s', pollLoopStep s (.poll answer) = some (s', .asked a.asked) ∧
      PollOk count breaker flush s' (pollAgendaStep breaker flush a (.poll answer)).1 := by
  obtain ⟨hstage, hanswer⟩ := hallowed
  obtain ⟨mem, hmem, hlength, h0, hpos, hsize, harray⟩ := h.waiting hstage
  have hasked : (mem.take s.size).map (fun ufd => (ufd.fd, ufd.events)) = a.asked := harray ▸ map_asked a.asked
  have hcount : a.asked.length = s.size := by
    rw [← hasked, List.length_map, List.length_take]
    omega
  cases answer with
  | interrupted =>
      refine ⟨{ s with stage := .top }, ?_,
        ⟨h.registry, h.room, h.pipe, h.reg, h.changed, h.same, h.cache, h.noCache, h.others, rfl⟩⟩
      rw [pollLoopStep, pollWait, h.same, hmem, Option.bind_some, if_pos hsize, hasked]
  | failed =>
      refine ⟨{ s with stage := .handing s.size 0 }, ?_,
        ⟨h.registry, h.room, h.pipe, h.reg, h.changed, h.same, h.cache, h.noCache, h.others, ?_⟩⟩
      · rw [pollLoopStep, pollWait, h.same, hmem, Option.bind_some, if_pos hsize, hasked, if_pos hpos]
      · show PollLeft ((s.memory s.evcache).getD []) s.size _ (.handing s.size 0)
        rw [hmem, Option.getD_some]
        refine ⟨hpos, hsize, ?_⟩
        rw [List.drop_zero, harray, List.map_map]
        rfl
  | filled revents =>
      have hsame : revents.length = s.size := hanswer
      have hfront : (List.zipWith PollFd.answered (mem.take s.size) revents).length = s.size := by
        rw [List.length_zipWith, List.length_take]
        omega
      refine ⟨{ s with
        memory := Function.update s.memory s.evcache
          (some (List.zipWith PollFd.answered (mem.take s.size) revents ++ mem.drop s.size))
        stage := if revents.all Revents.quiet then .top else .handing s.size 0 }, ?_, ?_⟩
      · rw [pollLoopStep, pollWait, h.same, hmem, Option.bind_some, if_pos hsize, hasked, if_pos hpos]
      · refine ⟨h.registry, h.room, h.pipe, h.reg, h.changed, h.same, fun _ => ⟨_, Function.update_self .., ?_⟩,
          fun hz => absurd hz h0, ?_, ?_⟩
        · rw [List.length_append, hfront, List.length_drop]
          show s.size + (mem.length - s.size) = s.evcacheSize
          omega
        · intro b hb
          have hne : b ≠ s.evcache := hb.resolve_right h0
          show Function.update s.memory s.evcache _ b = none
          rw [Function.update_of_ne hne]
          exact h.others b hb
        · show PollLeft ((Function.update s.memory s.evcache _ s.evcache).getD []) s.size
            { a with batch := answered a.asked (.filled revents) } (if revents.all Revents.quiet then .top else .handing s.size 0)
          rw [Function.update_self, Option.getD_some, answered]
          by_cases hquiet : revents.all Revents.quiet = true
          · rw [if_pos hquiet, if_pos hquiet]
            rfl
          · rw [if_neg hquiet, if_neg hquiet]
            refine ⟨hpos, ?_, ?_⟩
            · rw [List.length_append, hfront]
              omega
            · rw [List.drop_zero, List.take_append_of_le_length (Nat.le_of_eq hfront.symm),
                List.take_of_length_le (Nat.le_of_eq hfront), harray, zip_answered]

/-- One entry is handed out. -/
theorem pollHand_ok (h : PollOk count breaker flush s a) (hallowed : pollLoopAllowed breaker s .hand) :
    ∃ s', pollLoopStep s .hand = some (s', (pollAgendaStep breaker flush a .hand).2) ∧
      PollOk count breaker flush s' (pollAgendaStep breaker flush a .hand).1 := by
  cases hstage : s.stage with
  | top => exact absurd hstage hallowed.1
  | waiting => exact absurd hstage hallowed.2
  | handing size i =>
      have hleft := h.left
      rw [hstage] at hleft
      obtain ⟨hi, hsize, hbatch⟩ := hleft
      have h0 : s.evcache ≠ 0 := by
        intro h0
        rw [h.others s.evcache (Or.inr h0)] at hsize
        have hsize : size ≤ 0 := hsize
        omega
      obtain ⟨mem, hmem, hlength⟩ := h.cache h0
      rw [hmem, Option.getD_some] at hsize hbatch
      have hlt : i < mem.length := by omega
      have hhead : a.batch = (mem[i].fd, mem[i].revents) ::
          ((mem.take size).drop (i + 1)).map fun ufd => (ufd.fd, ufd.revents) := by
        rw [← hbatch, List.drop_eq_getElem_cons (by rw [List.length_take]; omega), List.getElem_take, List.map_cons]
      have hcall : pollLoopStep s .hand
          = some ({ s with stage := if i + 1 < size then .handing size (i + 1) else .top },
              .handed (agendaCall breaker flush a (mem[i].fd, mem[i].revents))) := by
        rw [pollLoopStep, pollHand, hstage]
        show (s.memory s.ufds).bind _ = _
        rw [h.same, hmem, Option.bind_some]
        show (mem[i]?).bind _ = _
        rw [List.getElem?_eq_getElem hlt, ← dispatchPollFd_eq h mem[i] i]
        rfl
      rw [hcall, pollAgendaStep, hhead]
      refine ⟨_, rfl, ⟨h.registry, h.room, h.pipe, h.reg, h.changed, h.same, h.cache, h.noCache, h.others, ?_⟩⟩
      show PollLeft ((s.memory s.evcache).getD []) s.size
        { a with batch := ((mem.take size).drop (i + 1)).map fun ufd => (ufd.fd, ufd.revents) }
        (if i + 1 < size then .handing size (i + 1) else .top)
      rw [hmem, Option.getD_some]
      by_cases hmore : i + 1 < size
      · rw [if_pos hmore]
        exact ⟨hmore, hsize, rfl⟩
      · rw [if_neg hmore]
        have hend : (mem.take size).drop (i + 1) = [] := by
          rw [List.drop_eq_nil_iff, List.length_take]
          omega
        rw [hend]
        rfl

/-- **One step** does what the agenda says. -/
theorem pollLoopStep_ok (h : PollOk count breaker flush s a) {op : PollOp} (hallowed : pollLoopAllowed breaker s op) :
    ∃ s', pollLoopStep s op = some (s', (pollAgendaStep breaker flush a op).2) ∧
      PollOk count breaker flush s' (pollAgendaStep breaker flush a op).1 := by
  cases op with
  | pool op => exact pollPool_ok h hallowed
  | resize alloc => exact resize_ok h hallowed
  | poll answer => exact poll_ok h hallowed
  | hand => exact pollHand_ok h hallowed

/-! ## §6. Runs. -/

/-- **EVERY RUN OF THE POLL BACK END** does what the epoll back end does under the
same calls: a call succeeds in the one if it does in the other; `poll` is asked for
the pipe and for what the kernel watches for epoll; each answer is handed out once
and in order, to the handler that epoll would call; and no array is read that was
freed, or behind its end, or left behind. -/
theorem poll_as_epoll (count : Nat) (breaker : Int) (flush : Addr) {ops : List PollOp}
    (hlegal : (pollLoop breaker).Legal (pollLoopNew count breaker flush) ops) :
    ∃ s, (pollLoop breaker).run (pollLoopNew count breaker flush) ops
        = some (s, (Server.specRun (pollAgendaStep breaker flush) (pollAgendaNew count) ops).2) ∧
      s.pool.reg = breakerSlot breaker flush ::
        (Server.specRun (pollAgendaStep breaker flush) (pollAgendaNew count) ops).1.epoll.reg ∧
      RegistryOk (Server.specRun (pollAgendaStep breaker flush) (pollAgendaNew count) ops).1.epoll
        (fun fd => replay fd (Server.specRun (pollAgendaStep breaker flush) (pollAgendaNew count) ops).1.ops) ∧
      ∀ b, (s.memory b).isSome → b = s.evcache := by
  have hstep : ∀ s a op, PollOk count breaker flush s a → pollLoopAllowed breaker s op →
      ∃ s', pollLoopStep s op = some (s', (pollAgendaStep breaker flush a op).2) ∧
        PollOk count breaker flush s' (pollAgendaStep breaker flush a op).1 :=
    fun _ _ _ h hallowed => pollLoopStep_ok h hallowed
  obtain ⟨s, hrun, h⟩ := (pollLoop breaker).run_refines hstep (pollLoopNew_ok count breaker flush) hlegal
  refine ⟨s, hrun, h.reg, h.registry, fun b hb => ?_⟩
  by_contra hne
  rw [h.others b (Or.inl hne)] at hb
  cases hb

instance (breaker : Int) (s : PollLoop) (op : PollOp) : Decidable ((pollLoop breaker).allowed s op) :=
  match op with
  | .pool (.register fd _ _ _ _) => inferInstanceAs (Decidable (fd ≠ breaker ∧ fd ∉ s.pool.reg.map RegSlot.fd))
  | .pool (.selectOn fd _ _ _) => inferInstanceAs (Decidable (fd ≠ breaker ∧ True))
  | .pool (.unregister fd _) => inferInstanceAs (Decidable (fd ≠ breaker ∧ True))
  | .resize alloc => inferInstanceAs (Decidable (s.stage = .top ∧ ∃ a ∈ alloc, a ≠ 0 ∧ (s.memory a).isNone))
  | .poll .interrupted => inferInstanceAs (Decidable (s.stage = .waiting ∧ True))
  | .poll .failed => inferInstanceAs (Decidable (s.stage = .waiting ∧ True))
  | .poll (.filled revents) => inferInstanceAs (Decidable (s.stage = .waiting ∧ revents.length = s.size))
  | .hand => inferInstanceAs (Decidable (s.stage ≠ .top ∧ s.stage ≠ .waiting))

/-- Two descriptors are ready, and the second is unregistered before its turn. -/
def oneTooLate : List PollOp :=
  [.pool (.register 5 1 11 1 0), .pool (.register 6 2 22 1 0), .resize (some 64),
    .poll (.filled [Revents.zero, ⟨false, true, false, false, true, false⟩, ⟨false, true, false, false, false, false⟩]),
    .hand, .hand, .pool (.unregister 6 1), .hand, .resize (some 80), .poll .interrupted]

theorem poll_as_epoll_oneTooLate :
    ∃ s, (pollLoop 3).run (pollLoopNew 1 3 9) oneTooLate
        = some (s, [.returned true, .returned true, .nothing,
            .asked [(3, ⟨true, true, false⟩), (5, ⟨true, true, false⟩), (6, ⟨true, true, false⟩)],
            .handed none, .handed (some ⟨1, 5, 1, 11, true, false, true⟩), .returned true, .handed none,
            .nothing, .asked [(3, ⟨true, true, false⟩), (5, ⟨true, true, false⟩)]]) ∧
      s.pool.reg = [breakerSlot 3 9, newSlot 5 1 11 1 0] ∧
      RegistryOk (Server.specRun (pollAgendaStep 3 9) (pollAgendaNew 1) oneTooLate).1.epoll
        (fun fd => replay fd (Server.specRun (pollAgendaStep 3 9) (pollAgendaNew 1) oneTooLate).1.ops) ∧
      ∀ b, (s.memory b).isSome → b = s.evcache :=
  poll_as_epoll 1 3 9 (Server.legal_of_check _ (by decide +kernel))

end LzLib.Event
