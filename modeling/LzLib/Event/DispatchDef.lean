/-
  LzLib.Event.DispatchDef
  ───────────────────────
  `event.c`: `event_dispatch_epoll`, the thread that hands events out.

  The loop of the thread is cut where others can come in between: at the lock, at
  `epoll_wait`, and before each event of a batch.  There the other threads, and
  the handlers that are called, make their calls on the pool.  The array behind
  `evcache` is in memory: a read of a freed one, or behind its end, has no outcome
  (`none`).  There is one dispatching thread.
-/
import LzLib.Event.RegistryRuns

namespace LzLib.Event

open LzLib.Foundation

/-! ## §1. Events that are ready. -/

/-- `struct epoll_event`, as `epoll_wait` fills it in. -/
structure ReadyEvent where
  pri : Bool
  pollIn : Bool
  pollOut : Bool
  err : Bool
  hup : Bool
  fd : Int
  idx : Nat
  deriving DecidableEq

/-- What `CALLOC` leaves. -/
def zeroEvent : ReadyEvent := ⟨false, false, false, false, false, 0, 0⟩

/-- `!events[i].events`. -/
def ReadyEvent.quiet (ev : ReadyEvent) : Bool := !(ev.pri || ev.pollIn || ev.pollOut || ev.err || ev.hup)

/-- A call of a handler, with its arguments; a flag is whether the bits are not all zero. -/
structure HandlerCall where
  handler : Addr
  fd : Int
  idx : Nat
  data : Addr
  pollIn : Bool
  pollOut : Bool
  pollErr : Bool
  deriving DecidableEq

/-- `if (handler) ret = handler (…);`. -/
def ReadyEvent.call (ev : ReadyEvent) (found : Option (Addr × Addr)) : Option HandlerCall :=
  found.bind fun hd =>
    if hd.1 = 0 then none
    else some ⟨hd.1, ev.fd, ev.idx, hd.2, ev.pollIn || ev.pri, ev.pollOut, ev.err || ev.hup⟩

/-! ## §2. The thread. -/

/-- Where the thread is. -/
inductive Stage
  | top
  | waiting
  | handing (size i : Nat)
  deriving DecidableEq

/-- The pool with its cache, and the local variables of the thread. -/
structure EventLoop where
  pool : EventPool
  evcache : Addr
  evcacheSize : Nat
  memory : Heap (List ReadyEvent)
  events : Addr
  stage : Stage

/-- What happens. -/
inductive LoopOp
  /-- A call on the pool, by another thread or by a handler. -/
  | pool (op : EventOp)
  /-- The part of the loop under the lock; `alloc`: what `CALLOC` answers. -/
  | enter (alloc : Option Addr)
  /-- `epoll_wait`; `none` is −1. -/
  | wait (ready : Option (List ReadyEvent))
  /-- The body of the inner loop, for one event. -/
  | hand
  deriving DecidableEq

/-- `if (event_pool->evcache) free (event_pool->evcache);`. -/
def EventLoop.freeCache (s : EventLoop) : Option EventLoop :=
  if s.evcache = 0 then some s
  else (s.memory s.evcache).map fun _ => { s with memory := Function.update s.memory s.evcache none }

/-- A cache for `event_pool->used + 256` events. -/
def EventLoop.newCache (s : EventLoop) (alloc : Option Addr) : EventLoop :=
  let size := s.pool.used + 256
  match alloc with
  | none => { s with evcache := 0, events := 0, evcacheSize := size }
  | some a =>
      { s with
        evcache := a, events := a, evcacheSize := size
        memory := Function.update s.memory a (some (List.replicate size zeroEvent)) }

/-- `if (event_pool->used > event_pool->evcache_size) …`. -/
def EventLoop.growCache (s : EventLoop) (alloc : Option Addr) : Option EventLoop :=
  if s.pool.used > s.evcacheSize then s.freeCache.map fun s => s.newCache alloc else some s

/-- The part under the lock, when the pool is in use. -/
def loopEnter (s : EventLoop) (alloc : Option Addr) : Option EventLoop :=
  (s.growCache alloc).map fun s => { s with stage := .waiting }

/-- `epoll_wait` writes to `evcache`, and the thread looks at what it returns. -/
def loopWait (s : EventLoop) : Option (List ReadyEvent) → Option EventLoop
  | none => some { s with stage := .top }
  | some [] => some { s with stage := .top }
  | some (ev :: batch) => do
      let mem ← s.memory s.evcache
      if batch.length + 1 ≤ mem.length then
        let mem := (ev :: batch) ++ mem.drop (batch.length + 1)
        some { s with memory := Function.update s.memory s.evcache (some mem), stage := .handing (batch.length + 1) 0 }
      else none

/-- The handler that is called for `events[i]`, if any. -/
def dispatchEvent (pool : EventPool) (ev : ReadyEvent) : Option HandlerCall :=
  if ev.quiet then none
  else ev.call (eventDispatchHandler pool ⟨⟨ev.pri, ev.pollIn, ev.pollOut⟩, ev.fd, ev.idx⟩)

/-- One round of the inner loop. -/
def loopHand (s : EventLoop) : Option (EventLoop × Option HandlerCall) :=
  match s.stage with
  | .handing size i => do
      let mem ← s.memory s.events
      let ev ← mem[i]?
      return ({ s with stage := if i + 1 < size then .handing size (i + 1) else .top }, dispatchEvent s.pool ev)
  | _ => none

/-- One step, and the handler that it calls. -/
def loopStep (s : EventLoop) : LoopOp → Option (EventLoop × Option HandlerCall)
  | .pool op => (eventStep s.pool op).map fun r => ({ s with pool := r.1 }, none)
  | .enter alloc => (loopEnter s alloc).map fun s => (s, none)
  | .wait ready => (loopWait s ready).map fun s => (s, none)
  | .hand => loopHand s

/-- When a step can come: the thread is at its place and sleeps while the pool is not
in use; an allocation gives what is not live; `epoll_wait` keeps to the size that
it is given, and cannot write to NULL; a descriptor is not registered twice. -/
def loopAllowed (s : EventLoop) : LoopOp → Prop
  | .pool (.register fd _ _ _ _) => fd ∉ s.pool.reg.map RegSlot.fd
  | .pool _ => True
  | .enter alloc => s.stage = .top ∧ s.pool.used ≠ 0 ∧ ∀ a ∈ alloc, a ≠ 0 ∧ (s.memory a).isNone
  | .wait ready => s.stage = .waiting ∧ ∀ batch ∈ ready, batch.length ≤ s.evcacheSize ∧ (s.evcache = 0 → batch = [])
  | .hand => s.stage ≠ .top ∧ s.stage ≠ .waiting

end LzLib.Event
