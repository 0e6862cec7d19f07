/-
  LzLib.Event.EpollDef
  ────────────────────
  **THE EVENT POOL OF `event.c`, EPOLL BACK END.**

  The registry is an array of slots, of which `reg[0..used)` are in use; the
  kernel keeps an interest list of its own.  Both are data of the model, so
  that a registration can be compared with what the kernel watches.
  `epoll_ctl` may refuse for reasons of its own (`refused`); without that
  `ADD` fails on a known descriptor, `MOD` and `DEL` on an unknown one.
-/
import LzLib.Foundation.Assoc
import LzLib.Foundation.NullLists

namespace LzLib.Event

open LzLib.Foundation

/-! ## §1. Data. -/

/-- The `EPOLLPRI`, `EPOLLIN` and `EPOLLOUT` bits of `events`. -/
structure Mask where
  pri : Bool
  pollIn : Bool
  pollOut : Bool
  deriving DecidableEq

/-- One slot of the registry. -/
structure RegSlot where
  fd : Int
  events : Mask
  handler : Addr
  data : Addr
  deriving DecidableEq

/-- `struct epoll_event` with the `struct event_data` inside it. -/
structure EpollEvent where
  events : Mask
  fd : Int
  idx : Nat
  deriving DecidableEq

/-- `struct event_pool`: `reg` is `reg[0..used)`, `interest` the kernel's list
behind `fd`. -/
structure EventPool where
  count : Nat
  reg : List RegSlot
  /-- A failed `realloc` has replaced the table by `NULL`. -/
  regNull : Bool
  interest : List (Int × EpollEvent)
  deriving DecidableEq

/-- `used`. -/
def EventPool.used (pool : EventPool) : Nat := pool.reg.length

/-- `event_pool_new_epoll`. -/
def eventPoolNew (count : Nat) : EventPool where
  count := count
  reg := []
  regNull := false
  interest := []

/-! ## §2. The kernel. -/

inductive CtlOp where
  | add
  | mod
  | del
  deriving DecidableEq

/-- `epoll_ctl`; `none` is `-1`. -/
def epollCtl (refused : Bool) (op : CtlOp) (interest : List (Int × EpollEvent)) (fd : Int)
    (event : EpollEvent) : Option (List (Int × EpollEvent)) :=
  if refused then none
  else
    match op, assocGet interest fd with
    | .add, none => some (assocSet interest fd event)
    | .add, some _ => none
    | .mod, some _ => some (assocSet interest fd event)
    | .mod, none => none
    | .del, some _ => some (assocDel interest fd)
    | .del, none => none

/-- `ret = epoll_ctl (event_pool->fd, op, fd, &epoll_event)`. -/
def EventPool.ctl (pool : EventPool) (refused : Bool) (op : CtlOp) (fd : Int) (event : EpollEvent) :
    EventPool × Int :=
  match epollCtl refused op pool.interest fd event with
  | none => (pool, -1)
  | some interest => ({ pool with interest }, 0)

/-- `close (fd)`: the kernel watches no closed descriptor. -/
def EventPool.close (pool : EventPool) (fd : Int) : EventPool :=
  { pool with interest := assocDel pool.interest fd }

/-! ## §3. The operations. -/

/-- The slot that holds `fd`, tried at `idx` first. -/
def eventGetindex (reg : List RegSlot) (fd idx : Int) : Option Nat :=
  if idx > -1 ∧ (reg[idx.toNat]?).map RegSlot.fd = some fd then some idx.toNat
  else reg.findIdx? fun slot => slot.fd = fd

/-- `switch (poll_in)` and `switch (poll_out)`: one bit of the mask. -/
def switchBit (poll : Int) (bit : Bool) : Bool :=
  if poll = 1 then true else if poll = 0 then false else bit

/-- Both switches. -/
def Mask.switch (m : Mask) (pollIn pollOut : Int) : Mask :=
  { m with pollIn := switchBit pollIn m.pollIn, pollOut := switchBit pollOut m.pollOut }

/-- A new slot of the registry. -/
def newSlot (fd : Int) (handler data : Addr) (pollIn pollOut : Int) : RegSlot :=
  ⟨fd, Mask.switch ⟨true, false, false⟩ pollIn pollOut, handler, data⟩

/-- The part of `event_register_epoll` after the table has room. -/
def eventAppend (pool : EventPool) (slot : RegSlot) (refused : Bool) : EventPool × Int :=
  EventPool.ctl { pool with reg := pool.reg ++ [slot] } refused .add slot.fd
    ⟨slot.events, slot.fd, pool.used⟩

/-- `event_register_epoll`; `room` is what `realloc` answers when the table is
full. -/
def eventRegister (pool : EventPool) (fd : Int) (handler data : Addr) (pollIn pollOut : Int)
    (room refused : Bool) : Option (EventPool × Int) :=
  if pool.regNull then none
  else if pool.count = pool.used then
    if room then
      some (eventAppend { pool with count := pool.count * 2 }
        (newSlot fd handler data pollIn pollOut) refused)
    else some ({ pool with count := pool.count * 2, regNull := true }, -1)
  else some (eventAppend pool (newSlot fd handler data pollIn pollOut) refused)

/-- `event_pool->reg[idx].fd = -1`. -/
def RegSlot.dead (slot : RegSlot) : RegSlot := { slot with fd := -1 }

/-- `event_pool->reg[idx] = event_pool->reg[lastidx]; event_pool->used--;`
once the kernel knows the new index of the last slot. -/
def eventMoveLast (pool : EventPool) (idx : Nat) (last : RegSlot) (refused : Bool) :
    EventPool × Int :=
  let r := pool.ctl refused .mod last.fd ⟨last.events, last.fd, idx⟩
  if r.2 = -1 then r else ({ r.1 with reg := (r.1.reg.set idx last).dropLast }, r.2)

/-- `event_unregister_epoll`; `refused` and `refusedMod` are for its two calls
of `epoll_ctl`. -/
def eventUnregister (pool : EventPool) (fd idxHint : Int) (refused refusedMod : Bool) :
    Option (EventPool × Int) :=
  if pool.regNull then none
  else
    match eventGetindex pool.reg fd idxHint with
    | none => some (pool, -1)
    | some idx =>
        let r := EventPool.ctl { pool with reg := pool.reg.modify idx RegSlot.dead } refused .del fd
          ⟨⟨false, false, false⟩, fd, idx⟩
        if r.2 = -1 then some r
        else if pool.used - 1 = idx then some ({ r.1 with reg := r.1.reg.dropLast }, r.2)
        else
          -- the last slot moves into the hole
          r.1.reg.getLast?.map fun last => eventMoveLast r.1 idx last refusedMod

/-- A slot after both switches. -/
def RegSlot.switch (pollIn pollOut : Int) (slot : RegSlot) : RegSlot :=
  { slot with events := slot.events.switch pollIn pollOut }

/-- `event_select_on_epoll`. -/
def eventSelectOn (pool : EventPool) (fd idxHint pollIn pollOut : Int) (refused : Bool) :
    Option (EventPool × Int) :=
  if pool.regNull then none
  else
    match eventGetindex pool.reg fd idxHint with
    | none => some (pool, -1)
    | some idx =>
        let reg := pool.reg.modify idx (RegSlot.switch pollIn pollOut)
        (reg[idx]?).map fun slot =>
          EventPool.ctl { pool with reg } refused .mod fd ⟨slot.events, fd, idx⟩

end LzLib.Event
