/-
  LzLib.Event.Dispatch
  ────────────────────
  **EVERY EVENT GOES TO THE HANDLER THAT IS REGISTERED AT ITS TURN.**

  The dispatching thread runs among other threads and handlers that register,
  select and unregister as they like.  What it does is told by an agenda: the
  calls that were made on the pool, and the events that the kernel has reported
  and that are not handed out yet.  The cache behind the events is replaced as the
  pool grows; the thread reads none that was freed, and keeps no old one.

  Main result: `event_dispatch`.
-/
import LzLib.Event.DispatchDef
import LzLib.Foundation.Refinement

namespace LzLib.Event

open LzLib.Foundation

/-! ## §1. The agenda. -/

/-- The calls on the pool so far, and the events that are to be handed out. -/
structure Agenda where
  ops : List EventOp
  batch : List ReadyEvent
  deriving DecidableEq

/-- The handler that was asked for, for an event of a registered descriptor. -/
def delivered (ops : List EventOp) (ev : ReadyEvent) : Option HandlerCall :=
  if ev.quiet then none else ev.call ((replay ev.fd ops).map fun r => (r.handler, r.data))

/-- One step. -/
def agendaStep (a : Agenda) : LoopOp → Agenda × Option HandlerCall
  | .pool op => ({ a with ops := a.ops ++ [op] }, none)
  | .enter _ => (a, none)
  | .wait ready => ({ a with batch := ready.getD [] }, none)
  | .hand => ({ a with batch := a.batch.tail }, a.batch.head?.bind (delivered a.ops))

/-- The thread, and those that it runs among. -/
def eventLoop : Server EventLoop LoopOp (Option HandlerCall) where
  step := loopStep
  allowed := loopAllowed

/-- A new pool, and the thread at the start of `event_dispatch_epoll`. -/
def loopNew (count : Nat) : EventLoop := ⟨eventPoolNew count, 0, 0, fun _ => none, 0, .top⟩

/-! ## §2. The invariant. -/

/-- What is left of the batch, in the cache. -/
def Left (mem : List ReadyEvent) : Stage → List ReadyEvent → Prop
  | .handing size i, batch => i < size ∧ size ≤ mem.length ∧ (mem.take size).drop i = batch
  | _, batch => batch = []

/-- **The thread, against its agenda.** -/
structure LoopOk (count : Nat) (s : EventLoop) (a : Agenda) : Prop where
  registry : RegistryOk s.pool fun fd => replay fd a.ops
  room : HasRoom count s.pool
  same : s.events = s.evcache
  cache : s.evcache ≠ 0 → ∃ mem, s.memory s.evcache = some mem ∧ mem.length = s.evcacheSize
  others : ∀ b, b ≠ s.evcache ∨ s.evcache = 0 → s.memory b = none
  left : Left ((s.memory s.evcache).getD []) s.stage a.batch

variable {count : Nat} {s : EventLoop} {a : Agenda}

theorem loopNew_ok (count : Nat) : LoopOk count (loopNew count) ⟨[], []⟩ where
  registry := registryOk_new count
  room hpos := ⟨hpos, Nat.zero_le _⟩
  same := rfl
  cache h := absurd rfl h
  others _ _ := rfl
  left := rfl

/-- A registered descriptor is not free. -/
theorem RegistryOk.free {pool : EventPool} {ops : List EventOp} (h : RegistryOk pool fun fd => replay fd ops) {fd : Int}
    (hfd : fd ∉ pool.reg.map RegSlot.fd) : replay fd ops = none := (h.absent fd hfd).1

/-- **The lookup** finds what was asked for. -/
theorem dispatchEvent_eq {pool : EventPool} {ops : List EventOp} (h : RegistryOk pool fun fd => replay fd ops)
    (ev : ReadyEvent) : dispatchEvent pool ev = delivered ops ev := by
  have hfound : eventDispatchHandler pool ⟨⟨ev.pri, ev.pollIn, ev.pollOut⟩, ev.fd, ev.idx⟩
      = (replay ev.fd ops).map fun r => (r.handler, r.data) := by
    have hindex := h.getindex ev.fd ev.idx
    cases hw : replay ev.fd ops with
    | none =>
        rw [hw] at hindex
        rw [eventDispatchHandler, hindex]
        rfl
    | some r =>
        rw [hw] at hindex
        obtain ⟨i, hi, hslot⟩ := hindex
        rw [eventDispatchHandler, hi, Option.bind_some, hslot]
        rfl
  rw [dispatchEvent, delivered, hfound]

/-! ## §3. The steps. -/

/-- A call on the pool. -/
theorem pool_ok (h : LoopOk count s a) {op : EventOp} (hallowed : loopAllowed s (.pool op)) :
    ∃ s', loopStep s (.pool op) = some (s', none) ∧ LoopOk count s' (agendaStep a (.pool op)).1 := by
  have hlegal : eventRuns.allowed (s.pool, a.ops) op := by
    cases op with
    | register fd handler data pollIn pollOut => exact h.registry.free hallowed
    | selectOn fd hint pollIn pollOut => trivial
    | unregister fd hint => trivial
  obtain ⟨⟨pool, ops⟩, hstep, hregistry, hroom⟩ := eventStep_ok (s.pool, a.ops) op ⟨h.registry, h.room⟩ hlegal
  obtain ⟨r, hr, hpair⟩ := Option.map_eq_some_iff.mp hstep
  obtain rfl : r.1 = pool := congrArg Prod.fst hpair
  obtain rfl : a.ops ++ [op] = ops := congrArg Prod.snd hpair
  refine ⟨{ s with pool := r.1 }, ?_, ⟨hregistry, hroom, h.same, h.cache, h.others, h.left⟩⟩
  rw [loopStep, hr]
  rfl

/-- The old cache goes. -/
theorem freeCache_ok (h : LoopOk count s a) :
    ∃ memory, s.freeCache = some { s with memory := memory } ∧ ∀ b, memory b = none := by
  by_cases h0 : s.evcache = 0
  · exact ⟨s.memory, if_pos h0, fun b => h.others b (Or.inr h0)⟩
  · obtain ⟨mem, hmem, -⟩ := h.cache h0
    refine ⟨Function.update s.memory s.evcache none, ?_, fun b => ?_⟩
    · rw [EventLoop.freeCache, if_neg h0, hmem]
      rfl
    · by_cases hb : b = s.evcache
      · rw [hb, Function.update_self]
      · rw [Function.update_of_ne hb]
        exact h.others b (Or.inl hb)

/-- The part under the lock. -/
theorem enter_ok (h : LoopOk count s a) {alloc : Option Addr} (hallowed : loopAllowed s (.enter alloc)) :
    ∃ s', loopStep s (.enter alloc) = some (s', none) ∧ LoopOk count s' a := by
  obtain ⟨hstage, -, halloc⟩ := hallowed
  have hbatch : a.batch = [] := by
    have hleft := h.left
    rw [hstage] at hleft
    exact hleft
  by_cases hgrow : s.pool.used > s.evcacheSize
  · obtain ⟨memory, hfree, hnone⟩ := freeCache_ok h
    refine ⟨{ EventLoop.newCache { s with memory := memory } alloc with stage := .waiting }, ?_, ?_⟩
    · rw [loopStep, loopEnter, EventLoop.growCache, if_pos hgrow, hfree]
      rfl
    · cases alloc with
      | none =>
          -- no cache at all, though `evcache_size` is set
          exact ⟨h.registry, h.room, rfl, fun h0 => absurd rfl h0, fun b _ => hnone b, hbatch⟩
      | some c =>
          refine ⟨h.registry, h.room, rfl, fun _ => ⟨_, Function.update_self .., List.length_replicate⟩, ?_, hbatch⟩
          intro b hb
          have hne : b ≠ c := hb.resolve_right (halloc c rfl).1
          show Function.update memory c _ b = none
          rw [Function.update_of_ne hne]
          exact hnone b
  · refine ⟨{ s with stage := .waiting }, ?_, ⟨h.registry, h.room, h.same, h.cache, h.others, hbatch⟩⟩
    rw [loopStep, loopEnter, EventLoop.growCache, if_neg hgrow]
    rfl

/-- `epoll_wait`. -/
theorem wait_ok (h : LoopOk count s a) {ready : Option (List ReadyEvent)} (hallowed : loopAllowed s (.wait ready)) :
    ∃ s', loopStep s (.wait ready) = some (s', none) ∧ LoopOk count s' (agendaStep a (.wait ready)).1 := by
  cases ready with
  | none => exact ⟨_, rfl, ⟨h.registry, h.room, h.same, h.cache, h.others, rfl⟩⟩
  | some batch =>
      cases batch with
      | nil => exact ⟨_, rfl, ⟨h.registry, h.room, h.same, h.cache, h.others, rfl⟩⟩
      | cons ev batch =>
          obtain ⟨hlength, hnull⟩ := hallowed.2 _ rfl
          have h0 : s.evcache ≠ 0 := fun h0 => List.cons_ne_nil ev batch (hnull h0)
          obtain ⟨mem, hmem, hsize⟩ := h.cache h0
          rw [List.length_cons] at hlength
          have hfits : batch.length + 1 ≤ mem.length := by omega
          refine ⟨{ s with
            memory := Function.update s.memory s.evcache (some ((ev :: batch) ++ mem.drop (batch.length + 1)))
            stage := .handing (batch.length + 1) 0 }, ?_, ?_⟩
          · rw [loopStep, loopWait, hmem]
            show Option.map _ (if batch.length + 1 ≤ mem.length then _ else none) = _
            rw [if_pos hfits]
            rfl
          · refine ⟨h.registry, h.room, h.same, fun _ => ⟨_, Function.update_self .., ?_⟩, ?_, ?_⟩
            · simp
              omega
            · intro b hb
              have hne : b ≠ s.evcache := hb.resolve_right h0
              show Function.update s.memory s.evcache _ b = none
              rw [Function.update_of_ne hne]
              exact h.others b hb
            · show Left ((Function.update s.memory s.evcache _ s.evcache).getD []) (.handing (batch.length + 1) 0) (ev :: batch)
              rw [Function.update_self]
              refine ⟨Nat.succ_pos _, ?_, ?_⟩
              · simp
              · simp

/-- One event is handed out. -/
theorem hand_ok (h : LoopOk count s a) (hallowed : loopAllowed s .hand) :
    ∃ s', loopStep s .hand = some (s', (agendaStep a .hand).2) ∧ LoopOk count s' (agendaStep a .hand).1 := by
  cases hstage : s.stage with
  | top => exact absurd hstage hallowed.1
  | waiting => exact absurd hstage hallowed.2
  | handing size i =>
      have hleft := h.left
      rw [hstage] at hleft
      obtain ⟨hi, hsize, hbatch⟩ := hleft
      -- the array is longer than nothing
      have h0 : s.evcache ≠ 0 := by
        intro h0
        rw [h.others s.evcache (Or.inr h0)] at hsize
        have hsize : size ≤ 0 := hsize
        omega
      obtain ⟨mem, hmem, hlength⟩ := h.cache h0
      rw [hmem, Option.getD_some] at hsize hbatch
      have hlt : i < mem.length := by omega
      have hhead : a.batch = mem[i] :: (mem.take size).drop (i + 1) := by
        rw [← hbatch, List.drop_eq_getElem_cons (by rw [List.length_take]; omega), List.getElem_take]
      have hcall : loopStep s .hand
          = some ({ s with stage := if i + 1 < size then .handing size (i + 1) else .top }, delivered a.ops mem[i]) := by
        rw [loopStep, loopHand, hstage]
        show (s.memory s.events).bind _ = _
        rw [h.same, hmem, Option.bind_some]
        show (mem[i]?).bind _ = _
        rw [List.getElem?_eq_getElem hlt, ← dispatchEvent_eq h.registry]
        rfl
      rw [hcall, agendaStep, hhead]
      refine ⟨_, rfl, ⟨h.registry, h.room, h.same, h.cache, h.others, ?_⟩⟩
      show Left ((s.memory s.evcache).getD []) (if i + 1 < size then .handing size (i + 1) else .top)
        ((mem.take size).drop (i + 1))
      rw [hmem, Option.getD_some]
      by_cases hmore : i + 1 < size
      · rw [if_pos hmore]
        exact ⟨hmore, hsize, rfl⟩
      · rw [if_neg hmore]
        show (mem.take size).drop (i + 1) = []
        rw [List.drop_eq_nil_iff, List.length_take]
        omega

/-- **One step** does what the agenda says. -/
theorem loopStep_ok (h : LoopOk count s a) {op : LoopOp} (hallowed : loopAllowed s op) :
    ∃ s', loopStep s op = some (s', (agendaStep a op).2) ∧ LoopOk count s' (agendaStep a op).1 := by
  cases op with
  | pool op => exact pool_ok h hallowed
  | enter alloc => exact enter_ok h hallowed
  | wait ready => exact wait_ok h hallowed
  | hand => exact hand_ok h hallowed

/-! ## §4. Runs. -/

/-- **EVERY RUN OF THE DISPATCHING THREAD**, with any calls on the pool in between:
it never reads a freed cache or behind the end of one; each event that the kernel
reports is handed out once, in order, to the handler that is registered for its
descriptor at that moment, and to none if there is none; no old cache is left. -/
theorem event_dispatch (count : Nat) {ops : List LoopOp} (hlegal : eventLoop.Legal (loopNew count) ops) :
    ∃ s, eventLoop.run (loopNew count) ops = some (s, (Server.specRun agendaStep ⟨[], []⟩ ops).2) ∧
      RegistryOk s.pool (fun fd => replay fd (Server.specRun agendaStep ⟨[], []⟩ ops).1.ops) ∧
      ∀ b, (s.memory b).isSome → b = s.evcache := by
  have hstep : ∀ s a op, LoopOk count s a → loopAllowed s op →
      ∃ s', loopStep s op = some (s', (agendaStep a op).2) ∧ LoopOk count s' (agendaStep a op).1 :=
    fun _ _ _ h hallowed => loopStep_ok h hallowed
  obtain ⟨s, hrun, h⟩ := eventLoop.run_refines hstep (loopNew_ok count) hlegal
  refine ⟨s, hrun, h.registry, fun b hb => ?_⟩
  by_contra hne
  rw [h.others b (Or.inl hne)] at hb
  cases hb

instance (s : EventLoop) (op : LoopOp) : Decidable (eventLoop.allowed s op) :=
  match op with
  | .pool (.register fd _ _ _ _) => inferInstanceAs (Decidable (fd ∉ s.pool.reg.map RegSlot.fd))
  | .pool (.selectOn _ _ _ _) => inferInstanceAs (Decidable True)
  | .pool (.unregister _ _) => inferInstanceAs (Decidable True)
  | .enter alloc =>
      inferInstanceAs (Decidable (s.stage = .top ∧ s.pool.used ≠ 0 ∧ ∀ a ∈ alloc, a ≠ 0 ∧ (s.memory a).isNone))
  | .wait ready =>
      inferInstanceAs (Decidable (s.stage = .waiting ∧
        ∀ batch ∈ ready, batch.length ≤ s.evcacheSize ∧ (s.evcache = 0 → batch = [])))
  | .hand => inferInstanceAs (Decidable (s.stage ≠ .top ∧ s.stage ≠ .waiting))

/-- Three events in one batch; the handler of the first unregisters the second
descriptor, and the third was moved to another index. -/
def threeEvents : List LoopOp :=
  [.pool (.register 5 1 11 1 0), .pool (.register 6 2 22 1 0), .pool (.register 7 3 33 1 1), .enter (some 64),
    .wait (some [⟨false, true, false, false, false, 5, 0⟩, ⟨false, true, false, false, false, 6, 1⟩,
      ⟨false, false, true, false, true, 7, 2⟩]),
    .hand, .pool (.unregister 6 1), .hand, .hand, .enter none, .wait none]

theorem event_dispatch_threeEvents :
    ∃ s, eventLoop.run (loopNew 1) threeEvents
        = some (s, [none, none, none, none, none, some ⟨1, 5, 0, 11, true, false, false⟩, none, none,
            some ⟨3, 7, 2, 33, false, true, true⟩, none, none]) ∧
      RegistryOk s.pool (fun fd => replay fd (Server.specRun agendaStep ⟨[], []⟩ threeEvents).1.ops) ∧
      ∀ b, (s.memory b).isSome → b = s.evcache :=
  event_dispatch 1 (Server.legal_of_check _ (by decide +kernel))

end LzLib.Event
