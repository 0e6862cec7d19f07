/-
  LzLib.Event.PollDef
  ───────────────────
  `event.c`: the poll back end, which takes the place of epoll where there is none.

  There is no list in the kernel.  The thread copies the registry to an array of
  `struct pollfd` before each `poll`, and learns the results from the same array.
  A pipe (`breaker`) is registered first, with `__flush_fd` as its handler.  The
  loop of the thread is cut where others can come in between, as in `DispatchDef`.
  A NULL table or array that is written to has no outcome (`none`).
-/
import LzLib.Event.DispatchDef

namespace LzLib.Event

open LzLib.Foundation

/-! ## §1. The registry. -/

/-- `struct event_pool`, as far as this back end uses it; `reg` is `reg[0..used)`. -/
structure PollPool where
  count : Nat
  reg : List RegSlot
  changed : Bool

/-- `used`. -/
def PollPool.used (pool : PollPool) : Nat := pool.reg.length

/-- The part of `event_register_poll` after the table has room. -/
def pollAppend (pool : PollPool) (slot : RegSlot) : PollPool × Int :=
  ({ pool with reg := pool.reg ++ [slot], changed := true }, pool.used)

/-- `event_register_poll`; `room` is what `realloc` answers when the table is full. -/
def eventRegisterPoll (pool : PollPool) (fd : Int) (handler data : Addr) (pollIn pollOut : Int) (room : Bool) :
    Option (PollPool × Int) :=
  if pool.count = pool.used then
    if room then some (pollAppend { pool with count := pool.count + 256 } (newSlot fd handler data pollIn pollOut))
    else none
  else some (pollAppend pool (newSlot fd handler data pollIn pollOut))

/-- `event_unregister_poll`. -/
def eventUnregisterPoll (pool : PollPool) (fd idxHint : Int) : Option (PollPool × Int) :=
  match eventGetindex pool.reg fd idxHint with
  | none => some (pool, -1)
  | some idx =>
      pool.reg.getLast?.map fun last => ({ pool with reg := (pool.reg.set idx last).dropLast, changed := true }, idx)

/-- `event_select_on_poll`. -/
def eventSelectOnPoll (pool : PollPool) (fd idxHint pollIn pollOut : Int) : PollPool × Int :=
  match eventGetindex pool.reg fd idxHint with
  | none => (pool, -1)
  | some idx =>
      let pool := { pool with reg := pool.reg.modify idx (RegSlot.switch pollIn pollOut) }
      (if pollIn + pollOut > -2 then { pool with changed := true } else pool, idx)

/-- One call, when `realloc` gives what it is asked for. -/
def pollStep (pool : PollPool) : EventOp → Option (PollPool × Int)
  | .register fd handler data pollIn pollOut => eventRegisterPoll pool fd handler data pollIn pollOut true
  | .selectOn fd hint pollIn pollOut => some (eventSelectOnPoll pool fd hint pollIn pollOut)
  | .unregister fd hint => eventUnregisterPoll pool fd hint

/-- The slot of the pipe. -/
def breakerSlot (breaker : Int) (flush : Addr) : RegSlot := newSlot breaker flush 0 1 0

/-- `event_pool_new_poll`, when pipe and allocations succeed. -/
def eventPoolNewPoll (count : Nat) (breaker : Int) (flush : Addr) : PollPool where
  count := if count = 0 then 256 else count
  reg := [breakerSlot breaker flush]
  changed := true

/-- It registers the pipe with a new table. -/
theorem eventPoolNewPoll_eq (count : Nat) (breaker : Int) (flush : Addr) :
    eventRegisterPoll ⟨count, [], false⟩ breaker flush 0 1 0 true = some (eventPoolNewPoll count breaker flush, 0) := by
  rw [eventRegisterPoll, eventPoolNewPoll]
  show (if count = 0 then _ else _) = _
  by_cases h : count = 0
  · rw [if_pos h, if_pos h, h]
    rfl
  · rw [if_neg h, if_neg h]
    rfl

/-! ## §2. The thread. -/

/-- `revents`. -/
structure Revents where
  pri : Bool
  pollIn : Bool
  pollOut : Bool
  err : Bool
  hup : Bool
  nval : Bool
  deriving DecidableEq

/-- `revents = 0`. -/
def Revents.zero : Revents := ⟨false, false, false, false, false, false⟩

/-- `!revents`. -/
def Revents.quiet (r : Revents) : Bool := !(r.pri || r.pollIn || r.pollOut || r.err || r.hup || r.nval)

/-- `struct pollfd`. -/
structure PollFd where
  fd : Int
  events : Mask
  revents : Revents
  deriving DecidableEq

/-- What `CALLOC` leaves. -/
def PollFd.zero : PollFd := ⟨0, ⟨false, false, false⟩, Revents.zero⟩

/-- What the loop of `event_dispatch_poll_resize` writes for a slot. -/
def RegSlot.pollFd (slot : RegSlot) : PollFd := ⟨slot.fd, slot.events, Revents.zero⟩

/-- The pool with its cache, and the local variables of the thread. -/
structure PollLoop where
  pool : PollPool
  evcache : Addr
  evcacheSize : Nat
  memory : Heap (List PollFd)
  ufds : Addr
  size : Nat
  stage : Stage

/-- What `poll` answers. -/
inductive PollAnswer
  /-- −1 with `EINTR`. -/
  | interrupted
  /-- −1 for another reason. -/
  | failed
  | filled (revents : List Revents)
  deriving DecidableEq

/-- What happens. -/
inductive PollOp
  /-- A call on the pool, by another thread or by a handler. -/
  | pool (op : EventOp)
  /-- `event_dispatch_poll_resize`; `alloc`: what `CALLOC` answers. -/
  | resize (alloc : Option Addr)
  | poll (answer : PollAnswer)
  /-- The body of the inner loop, for one entry. -/
  | hand
  deriving DecidableEq

/-- What is seen of it. -/
inductive PollSeen
  /-- A call that has returned; whether with an index or 0, and not with −1. -/
  | returned (ok : Bool)
  /-- `poll` was called for these. -/
  | asked (watched : List (Int × Mask))
  /-- A handler was called, or none. -/
  | handed (call : Option HandlerCall)
  | nothing
  deriving DecidableEq

/-- `if (event_pool->evcache) free (event_pool->evcache);`. -/
def PollLoop.freeCache (s : PollLoop) : Option PollLoop :=
  if s.evcache = 0 then some s
  else (s.memory s.evcache).map fun _ => { s with memory := Function.update s.memory s.evcache none }

/-- A cache for `event_pool->used` entries. -/
def PollLoop.newCache (s : PollLoop) (alloc : Option Addr) : PollLoop :=
  let size := s.pool.used
  match alloc with
  | none => { s with evcache := 0, ufds := 0, evcacheSize := size }
  | some a =>
      { s with
        evcache := a, ufds := a, evcacheSize := size
        memory := Function.update s.memory a (some (List.replicate size PollFd.zero)) }

/-- `if (event_pool->used > event_pool->evcache_size) …`. -/
def PollLoop.growCache (s : PollLoop) (alloc : Option Addr) : Option PollLoop :=
  if s.pool.used > s.evcacheSize then s.freeCache.map fun s => s.newCache alloc else some s

/-- The loop that copies the registry to `ufds`. -/
def PollLoop.copyReg (s : PollLoop) : Option PollLoop :=
  if s.pool.used = 0 then some { s with size := 0 }
  else
    (s.memory s.ufds).bind fun mem =>
      if s.pool.used ≤ mem.length then
        some { s with
          memory := Function.update s.memory s.ufds (some (s.pool.reg.map RegSlot.pollFd ++ mem.drop s.pool.used))
          size := s.pool.used }
      else none

/-- `size = event_dispatch_poll_resize (event_pool, ufds, size); ufds = event_pool->evcache;`. -/
def pollResize (s : PollLoop) (alloc : Option Addr) : Option PollLoop :=
  (if s.pool.changed then (s.growCache alloc).bind PollLoop.copyReg else some s).map fun s =>
    { s with ufds := s.evcache, stage := .waiting }

/-- `ufds[i].revents`, as `poll` sets it. -/
def PollFd.answered (ufd : PollFd) (revents : Revents) : PollFd := { ufd with revents }

/-- `poll (ufds, size, 1)`, and the checks of what it returns. -/
def pollWait (s : PollLoop) (answer : PollAnswer) : Option (PollLoop × PollSeen) :=
  (s.memory s.ufds).bind fun mem =>
    if s.size ≤ mem.length then
      let asked := (mem.take s.size).map fun ufd => (ufd.fd, ufd.events)
      let handing := if 0 < s.size then Stage.handing s.size 0 else .top
      match answer with
      | .interrupted => some ({ s with stage := .top }, .asked asked)
      | .failed => some ({ s with stage := handing }, .asked asked)
      | .filled revents =>
          let mem := List.zipWith PollFd.answered (mem.take s.size) revents ++ mem.drop s.size
          some ({ s with
            memory := Function.update s.memory s.ufds (some mem)
            stage := if revents.all Revents.quiet then .top else handing }, .asked asked)
    else none

/-- `if (handler) ret = handler (ufds[i].fd, idx, data, …);`. -/
def Revents.call (revents : Revents) (fd : Int) (idx : Nat) (handler data : Addr) : Option HandlerCall :=
  if handler = 0 then none
  else some ⟨handler, fd, idx, data, revents.pollIn || revents.pri, revents.pollOut,
    revents.err || revents.hup || revents.nval⟩

/-- `event_dispatch_poll_handler`, and the check before it. -/
def dispatchPollFd (reg : List RegSlot) (ufd : PollFd) (i : Nat) : Option HandlerCall :=
  if ufd.revents.quiet then none
  else
    (eventGetindex reg ufd.fd i).bind fun idx =>
      (reg[idx]?).bind fun slot => ufd.revents.call ufd.fd idx slot.handler slot.data

/-- One round of the inner loop. -/
def pollHand (s : PollLoop) : Option (PollLoop × PollSeen) :=
  match s.stage with
  | .handing size i => do
      let mem ← s.memory s.ufds
      let ufd ← mem[i]?
      return ({ s with stage := if i + 1 < size then .handing size (i + 1) else .top },
        .handed (dispatchPollFd s.pool.reg ufd i))
  | _ => none

/-- One step, and what is seen of it. -/
def pollLoopStep (s : PollLoop) : PollOp → Option (PollLoop × PollSeen)
  | .pool op => (pollStep s.pool op).map fun r => ({ s with pool := r.1 }, .returned (r.2 ≠ -1))
  | .resize alloc => (pollResize s alloc).map fun s => (s, .nothing)
  | .poll answer => pollWait s answer
  | .hand => pollHand s

/-- When a step can come: the thread is at its place; `CALLOC` gives what is not
live; `poll` answers for as many entries as it was asked for; nobody else has the
pipe, and a descriptor is not registered twice. -/
def pollLoopAllowed (breaker : Int) (s : PollLoop) : PollOp → Prop
  | .pool op =>
      op.fd ≠ breaker ∧
        match op with
        | .register fd _ _ _ _ => fd ∉ s.pool.reg.map RegSlot.fd
        | _ => True
  | .resize alloc => s.stage = .top ∧ ∃ a ∈ alloc, a ≠ 0 ∧ (s.memory a).isNone
  | .poll answer =>
      s.stage = .waiting ∧
        match answer with
        | .filled revents => revents.length = s.size
        | _ => True
  | .hand => s.stage ≠ .top ∧ s.stage ≠ .waiting

end LzLib.Event
