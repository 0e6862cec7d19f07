/-
  LzLib.Timer.TimerDef
  ────────────────────
  **THE TIMER REGISTRY** (`timer.c`).

  Events wait on the circular list `active`, sorted by deadline, and go to
  `stale` when the timer thread fires them.  `reg->lock` is a flag: a
  function that locks while its own thread holds the lock never returns
  (`deadlock`).  `fault` is an access to a freed event, or a traversal that
  goes round more often than there ever were events.

  Every event carries its serial number, which the program does not have: an
  address may be used again after `FREE`.
-/
import LzLib.Foundation.NullLists
import LzLib.Foundation.Rings
import Mathlib.Algebra.Group.Int.Defs

namespace LzLib.Timer

open LzLib.Foundation

/-! ## §1. Data. -/

/-- The lists of a registry. -/
inductive TimerList
  | active
  | stale
deriving DecidableEq

/-- What `next` and `prev` link: `&reg->active`, `&reg->stale`, and events. -/
inductive TimerNode
  | head (l : TimerList)
  | event (e : Addr)
deriving DecidableEq

/-- `struct timeval`. -/
structure Timeval where
  sec : Int
  usec : Int
deriving DecidableEq

/-- `TS (tv)`, an `unsigned long long`. -/
def ts (tv : Timeval) : Nat := ((tv.sec * 1000000 + tv.usec) % 2 ^ 64).toNat

/-- `struct _lz_timer`, without its links. -/
structure TimerEvent where
  due : Timeval
  cbk : Addr
  data : Addr
  serial : Nat
deriving DecidableEq

/-- `struct _lz_timer_registry` with the memory of its events; `created` is
the number of events so far. -/
structure Registry where
  fin : Bool
  links : Links TimerNode
  heap : Heap TimerEvent
  locked : Bool
  created : Nat

/-- Why a function does not return. -/
inductive Stuck
  | deadlock
  | fault
deriving DecidableEq

/-- `pthread_mutex_lock (&reg->lock)`. -/
def Registry.lock (reg : Registry) : Except Stuck Registry :=
  if reg.locked then .error .deadlock else .ok { reg with locked := true }

/-- `pthread_mutex_unlock (&reg->lock)`. -/
def Registry.unlock (reg : Registry) : Registry := { reg with locked := false }

/-- `lz_timer_registry_init`. -/
def timerRegistryInit : Registry where
  fin := false
  links := initListHead (initListHead (fun _ => ⟨.head .active, .head .active⟩) (.head .active))
    (.head .stale)
  heap := fun _ => none
  locked := false
  created := 0

/-! ## §2. The lists. -/

/-- `event->next->prev = event->prev; event->prev->next = event->next;` -/
def timerUnlink (L : Links TimerNode) (e : Addr) : Links TimerNode :=
  let L := setPrev L (L (.event e)).next (L (.event e)).prev
  setNext L (L (.event e)).prev (L (.event e)).next

/-- `lz_timer_call_stale`. -/
def timerCallStale (L : Links TimerNode) (e : Addr) : Links TimerNode :=
  let L := timerUnlink L e
  let L := setNext L (.event e) (.head .stale)
  let L := setPrev L (.event e) (L (L (.event e)).next).prev
  let L := setPrev L (L (.event e)).next (.event e)
  setNext L (L (.event e)).prev (.event e)

/-- The loop of `lz_timer_call_after` from a node of `active`, backwards to
the last event with an earlier deadline. -/
def searchBack (reg : Registry) (at' : Nat) : Nat → TimerNode → Except Stuck TimerNode
  | 0, _ => .error .fault
  | _ + 1, .head .active => .ok (.head .active)
  | n + 1, .event e =>
      match reg.heap e with
      | none => .error .fault
      | some ev =>
          if ts ev.due < at' then .ok (.event e)
          else searchBack reg at' n (reg.links (.event e)).prev
  | _ + 1, .head .stale => .error .fault

/-! ## §3. The client's functions. -/

/-- `event->at` from the time of day and `delta`. -/
def deadline (now delta : Timeval) : Timeval :=
  let usec := (now.usec + delta.usec).tmod 1000000
  let sec := now.sec + (usec + delta.usec).tdiv 1000000
  ⟨sec + delta.sec, usec⟩

/-- `lz_timer_call_after`; `calloc` is the answer of `CALLOC`. -/
def timerCallAfter (reg : Registry) (now delta : Timeval) (cbk data : Addr) (calloc : Option Addr) :
    Except Stuck (Registry × Option Addr) :=
  match calloc with
  | none => .ok (reg, none)
  | some e =>
      let due := deadline now delta
      let reg :=
        { reg with
          heap := Function.update reg.heap e (some ⟨due, cbk, data, reg.created⟩)
          created := reg.created + 1 }
      match reg.lock with
      | .error stuck => .error stuck
      | .ok reg =>
          match searchBack reg (ts due) (reg.created + 1) (reg.links (.head .active)).prev with
          | .error stuck => .error stuck
          | .ok trav =>
              -- event->prev = trav, and the event between trav and its next
              let reg := { reg with links := listAdd reg.links (.event e) trav }
              .ok (reg.unlock, some e)

/-- `lz_timer_call_cancel`. -/
def timerCallCancel (reg : Registry) (e : Addr) : Except Stuck Registry :=
  match reg.lock with
  | .error stuck => .error stuck
  | .ok reg =>
      let reg := { reg with links := timerUnlink reg.links e }
      let reg := reg.unlock
      -- FREE (event)
      if reg.heap e = none then .error .fault
      else .ok { reg with heap := Function.update reg.heap e none }

/-! ## §4. The timer thread. -/

/-- The protected section of the inner loop of `lz_timer_proc`: the event to
fire, if one is due. -/
def timerSection (reg : Registry) (now : Nat) : Except Stuck (Registry × Option Addr) :=
  match reg.lock with
  | .error stuck => .error stuck
  | .ok reg =>
      match (reg.links (.head .active)).next with
      | .head .active => .ok (reg.unlock, none)
      | .head .stale => .error .fault
      | .event e =>
          match reg.heap e with
          | none => .error .fault
          | some ev =>
              if ts ev.due ≤ now then
                .ok ({ reg with links := timerCallStale reg.links e }.unlock, some e)
              else .ok (reg.unlock, none)

/-- `n` rounds of the inner loop at the time `now`; the events whose callbacks
were invoked. -/
def passLoop (now : Nat) : Nat → Registry → Except Stuck (Registry × List TimerEvent)
  | 0, _ => .error .fault
  | n + 1, reg =>
      match timerSection reg now with
      | .error stuck => .error stuck
      | .ok (reg, none) => .ok (reg, [])
      | .ok (reg, some e) =>
          -- event->cbk (event->data)
          match reg.heap e with
          | none => .error .fault
          | some ev => (passLoop now n reg).map fun r => (r.1, ev :: r.2)

/-- One pass of the outer loop of `lz_timer_proc`. -/
def timerPass (reg : Registry) (now : Nat) : Except Stuck (Registry × List TimerEvent) :=
  passLoop now (reg.created + 1) reg

/-- One of the two cleanup loops of `lz_timer_proc`. -/
def drainLoop (l : TimerList) : Nat → Registry → Except Stuck Registry
  | 0, _ => .error .fault
  | n + 1, reg =>
      let node := (reg.links (.head l)).next
      if node = .head l then .ok reg
      else
        match node with
        | .head _ => .error .fault
        | .event e =>
            match timerCallCancel reg e with
            | .error stuck => .error stuck
            | .ok reg => drainLoop l n reg

/-- The cleanup phase of `lz_timer_proc`, once `reg->fin` is set. -/
def timerCleanup (reg : Registry) : Except Stuck Registry :=
  match reg.lock with
  | .error stuck => .error stuck
  | .ok reg =>
      match drainLoop .active (reg.created + 1) reg with
      | .error stuck => .error stuck
      | .ok reg => (drainLoop .stale (reg.created + 1) reg).map Registry.unlock

end LzLib.Timer
