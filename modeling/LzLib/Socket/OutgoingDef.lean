/-
  LzLib.Socket.OutgoingDef
  ────────────────────────
  **SUBMITTING MESSAGES AND CHURNING THE QUEUE.**

  The outgoing half of `socket.c` in the order of the source, with the
  functions that close a connection.  Every call of `__socket_rwv` gets a
  script of its own; `scripts` runs out into calls that answer `EAGAIN`.
-/
import LzLib.Socket.TransportDef

namespace LzLib.Socket

open LzLib.Foundation
open LzLib.Event

/-! ## §1. Closing. -/

/-- `__socket_disconnect`. -/
def disconnect (t : Transport) : Transport :=
  if t.sock ≠ -1 then { t with connected := notConnected } else t

/-- `__socket_reset`; `refused` and `refusedMod` are what `event_unregister`
meets. -/
def socketReset (t : Transport) (refused refusedMod : Bool) : Option Transport :=
  (eventUnregister t.pool t.sock t.idx refused refusedMod).map fun r =>
    { t with
      log := t.log ++ (t.incoming.mem.hdrP.toList.map fun b => .freeHdr b.addr)
        ++ (t.incoming.mem.iobuf.toList.map fun b => .unrefIobuf b.addr)
      incoming := .zero
      pool := r.1.close t.sock
      sock := -1
      idx := -1
      connected := notConnected }

/-! ## §2. Queue entries. -/

/-- What `socket_submit` is given: `buf` with its `len` bytes, the payload
vector, and the iobref that keeps the payload. -/
structure Message where
  addr : Addr
  buf : Bytes
  vector : List Bytes
  iobref : Option Addr
  deriving DecidableEq

/-- `iov_length (vector, count)`. -/
def iovLength (vector : List Bytes) : Nat := (vector.map List.length).sum

/-- `__socket_ioq_new`, for a vector that passes its assertion. -/
def ioqNew (m : Message) : Ioq :=
  let vector := IoVec.whole (socketHeader m.buf.length (iovLength m.vector))
    :: IoVec.whole m.buf :: m.vector.map IoVec.whole
  { pendingVector := vector
    pendingCount := vector.length
    buf := m.addr
    iobref := m.iobref }

/-- `__socket_ioq_entry_free`: what it releases. -/
def ioqEntryFree (e : Ioq) : List MemEvent :=
  (e.iobref.toList.map .unrefIobref) ++ [.freeBuf e.buf]

/-- `__socket_ioq_flush`. -/
def ioqFlush (t : Transport) : Transport :=
  { t with log := t.log ++ t.ioq.flatMap ioqEntryFree, ioq := [] }

/-! ## §3. Churning. -/

/-- `__socket_ioq_churn_entry`: the entry is gone when it was written in full. -/
structure Churned where
  transport : Transport
  entry : Option Ioq
  ret : Int

def ioqChurnEntry (t : Transport) (e : Ioq) (script : List WriteEvent) : Option Churned :=
  (socketWritev script t.sent e.pendingVector e.pendingCount).map fun r =>
    let t := { t with sent := r.state }
    if r.pendingCount = 0 then ⟨{ t with log := t.log ++ ioqEntryFree e }, none, 0⟩
    else
      ⟨t, some { e with pendingVector := r.pendingVector, pendingCount := r.pendingCount },
        r.pendingCount⟩

/-- The loop of `__socket_ioq_churn` over the queue; `ret` is what the last
entry returned. -/
def churnLoop (t : Transport) : List Ioq → List (List WriteEvent) → Int → Option (Transport × Int)
  | [], _, ret => some ({ t with ioq := [] }, ret)
  | e :: rest, scripts, _ =>
      (ioqChurnEntry t e (scripts.headD [])).bind fun c =>
        match c.entry with
        | none => churnLoop c.transport rest scripts.tail c.ret
        | some e => some ({ c.transport with ioq := e :: rest }, c.ret)

/-- `__socket_ioq_churn`. -/
def ioqChurn (t : Transport) (scripts : List (List WriteEvent)) (refused : Bool) :
    Option (Transport × Int) :=
  (churnLoop t t.ioq scripts 0).bind fun r =>
    if r.1.ioq = [] then
      -- all pending writes done, not interested in POLLOUT
      (r.1.selectOut 0 refused).map fun t => (t, r.2)
    else some r

/-! ## §4. Events and submissions. -/

/-- `socket_event_poll_err`. -/
def eventPollErr (t : Transport) (refused refusedMod : Bool) : Option Transport :=
  socketReset (ioqFlush t) refused refusedMod

/-- `socket_event_poll_out`. -/
def eventPollOut (t : Transport) (scripts : List (List WriteEvent)) (refused : Bool) :
    Option (Transport × Int) :=
  if t.connected = 1 then
    (ioqChurn t scripts refused).map fun r =>
      if r.2 = -1 then (disconnect r.1, -1) else r
  else some (t, -1)

/-- `socket_submit`; `room` is what `CALLOC` answers. -/
def socketSubmit (t : Transport) (m : Message) (script : List WriteEvent) (room refused : Bool) :
    Option (Transport × Int) :=
  if t.connected ≠ 1 then some (t, -1)
  else if room = false then some (t, -1)
  -- `assert (count <= (MAX_IOVEC-2))`
  else if m.vector.length > maxIovec - 2 then none
  else
    let entry := ioqNew m
    let t := { t with log := t.log ++ m.iobref.toList.map .refIobref }
    if t.ioq = [] then
      (ioqChurnEntry t entry script).bind fun c =>
        match c.entry with
        -- written in full: need_append = 0
        | none => some (c.transport, c.ret)
        | some entry =>
            let t := { c.transport with ioq := [entry] }
            -- first entry to wait: continue writing on POLLOUT
            if c.ret > 0 then (t.selectOut 1 refused).map fun t => (t, 0)
            else some (t, 0)
    else some ({ t with ioq := t.ioq ++ [entry] }, 0)

end LzLib.Socket
