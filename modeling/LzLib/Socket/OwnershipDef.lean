/-
  LzLib.Socket.OwnershipDef
  ─────────────────────────
  **A CONNECTION FROM ITS START TO THE DESTRUCTION OF ITS TRANSPORT.**

  `socket_event_handler` takes `priv->lock` once for each of its parts, so
  that submissions and receipts of other threads may fall between them.
  `Phase` is where the event thread stands, and one step of a run is one
  locked section.  Run through without interruption the sections are
  `socketEventHandler`.

  Beside the transport a `Connection` carries its reference count
  (`transport.c`), and an account of what came in: the messages taken and
  refused, the memory allocated for incoming ones, and what was received.
-/
import LzLib.Socket.ProtoDef
import LzLib.Foundation.Runs

namespace LzLib.Socket

open LzLib.Foundation
open LzLib.Event

/-! ## §1. Memory allocated by the machine. -/

inductive Alloc where
  | hdr (a : Addr)
  | iobuf (a : Addr)
  deriving DecidableEq

/-- What the calls of `MALLOC` and `iobuf_get` in one round return. -/
def roundAllocs (env : PollIn) (s : Reader) : List Alloc :=
  match s.incoming.state, validateHeader s.incoming.mem.header with
  | .headerCame, some (_, size2) =>
      env.malloc.toList.map .hdr ++
        if size2 ≠ 0 then env.iobuf.toList.map fun b => .iobuf b.addr else []
  | _, _ => []

/-- The same over the rounds of `protoLoop`. -/
def loopAllocs (env : PollIn) : Nat → Option ProtoState → Int → Reader → List Alloc
  | 0, _, _, _ => []
  | fuel + 1, previous, ret, s =>
      if s.incoming.state = .complete then []
      else if previous = some s.incoming.state then []
      else
        roundAllocs env s ++
          match protoRound env ret s with
          | some (.next ret' s') => loopAllocs env fuel (some s.incoming.state) ret' s'
          | _ => []

/-- What a call of `__socket_proto_state_machine` allocates. -/
def machineAllocs (env : PollIn) (s : Reader) : List Alloc := loopAllocs env 6 none (-1) s

/-! ## §2. Connections. -/

/-- What `epoll_wait` reports. -/
structure Ready where
  pollIn : Bool
  pollOut : Bool
  pollErr : Bool
  deriving DecidableEq

/-- The next locked section of `socket_event_handler`, with `ret` so far. -/
inductive Phase where
  | idle
  | connectFinish (ready : Ready)
  | pollOut (ready : Ready)
  | pollIn (ready : Ready) (ret : Int)
  | pollErr (ready : Ready) (ret : Int)
  | unref
  deriving DecidableEq

structure Connection where
  transport : Transport
  phase : Phase
  /-- `this->refcount`, and whether `transport_destroy` has run. -/
  refcount : Int
  destroyed : Bool
  /-- The references of others than the event pool. -/
  held : Nat
  accepted : List Message
  rejected : List Message
  allocated : List Alloc
  received : List Received

/-- A new connection; `stream` is all that the peer will send. -/
def Connection.start (pool : EventPool) (sock idx : Int) (connected : UInt8) (stream : Bytes)
    (held : Nat) : Connection where
  transport := { Transport.initial pool sock idx connected with inbound := stream }
  phase := .idle
  refcount := held + 1
  destroyed := false
  held := held
  accepted := []
  rejected := []
  allocated := []
  received := []

/-- `transport_unref`. -/
def transportUnref (c : Connection) : Connection :=
  let refcount := c.refcount - 1
  { c with refcount := refcount, destroyed := c.destroyed || refcount = 0 }

/-! ## §3. Steps. -/

/-- The event thread goes on to its next locked section. -/
def resume (c : Connection) (env : EventEnv) : Option Connection :=
  match c.phase with
  | .idle => none
  | .connectFinish ready =>
      some { c with
        transport := if c.transport.connected = 0 then connectFinish c.transport env.connect
          else c.transport
        phase := .pollOut ready }
  | .pollOut ready =>
      if ready.pollOut then
        (eventPollOut c.transport env.scripts env.selectRefused).map fun r =>
          { c with transport := r.1, phase := .pollIn ready r.2 }
      else some { c with phase := .pollIn ready 0 }
  | .pollIn ready ret =>
      if ret = 0 ∧ ready.pollIn then
        (eventPollIn c.transport env.input).map fun r =>
          { c with
            transport := r.1
            phase := .pollErr ready r.2
            allocated := c.allocated ++ machineAllocs env.input c.transport.reader }
      else some { c with phase := .pollErr ready ret }
  | .pollErr ready ret =>
      if ret < 0 ∨ ready.pollErr then
        (eventPollErr c.transport env.delRefused env.modRefused).map fun t =>
          { c with transport := t, phase := .unref }
      else some { c with phase := .idle }
  | .unref => some (transportUnref { c with phase := .idle })

/-- What happens to a connection. -/
inductive ConnectionOp where
  | submit (m : Message) (script : List WriteEvent) (room refused : Bool)
  | receive (given : Bool)
  | disconnect
  /-- An event for the descriptor: `priv->idx = idx`. -/
  | event (idx : Int) (ready : Ready)
  | resume (env : EventEnv)
  /-- Another holder calls `transport_unref`. -/
  | unref
  /-- Other descriptors change the event pool. -/
  | others (pool : EventPool)

/-- What `socket_submit` returned for `m` is written down. -/
def Connection.submitted (c : Connection) (m : Message) (t : Transport) (ret : Int) : Connection :=
  if ret = 0 then { c with transport := t, accepted := c.accepted ++ [m] }
  else { c with transport := t, rejected := c.rejected ++ [m] }

def Connection.step (c : Connection) : ConnectionOp → Option Connection
  | .submit m script room refused =>
      (socketSubmit c.transport m script room refused).map fun r => c.submitted m r.1 r.2
  | .receive given =>
      let r := socketReceive c.transport given
      some { c with transport := r.1, received := c.received ++ r.2.toList }
  | .disconnect => some { c with transport := LzLib.Socket.disconnect c.transport }
  | .event idx ready =>
      some { c with transport := { c.transport with idx }, phase := .connectFinish ready }
  | .resume env => LzLib.Socket.resume c env
  | .unref => some (transportUnref { c with held := c.held - 1 })
  | .others pool => some { c with transport := { c.transport with pool } }

/-- A destroyed transport is not used any more.  An event comes for a
descriptor that is registered, and to one thread; holders give back
references they have. -/
def Connection.allowed (c : Connection) (op : ConnectionOp) : Prop :=
  c.destroyed = false ∧
    match op with
    | .submit m _ _ _ => m.vector.length ≤ maxIovec - 2
    | .event _ _ => c.phase = .idle ∧ c.transport.sock ≠ -1
    | .resume _ => c.phase ≠ .idle
    | .unref => 0 < c.held
    | .others pool => pool.regNull = false
    | _ => True

instance (c : Connection) (op : ConnectionOp) : Decidable (c.allowed op) :=
  match op with
  | .submit m _ _ _ => inferInstanceAs (Decidable (c.destroyed = false ∧ m.vector.length ≤ maxIovec - 2))
  | .receive _ => inferInstanceAs (Decidable (c.destroyed = false ∧ True))
  | .disconnect => inferInstanceAs (Decidable (c.destroyed = false ∧ True))
  | .event _ _ => inferInstanceAs (Decidable (c.destroyed = false ∧ c.phase = .idle ∧ c.transport.sock ≠ -1))
  | .resume _ => inferInstanceAs (Decidable (c.destroyed = false ∧ c.phase ≠ .idle))
  | .unref => inferInstanceAs (Decidable (c.destroyed = false ∧ 0 < c.held))
  | .others pool => inferInstanceAs (Decidable (c.destroyed = false ∧ pool.regNull = false))

def connections : Component Connection ConnectionOp := ⟨Connection.step, Connection.allowed⟩

instance (c : Connection) (op : ConnectionOp) : Decidable (connections.allowed c op) :=
  inferInstanceAs (Decidable (c.allowed op))

/-! ## §4. The sections in a row. -/

section Sections

variable {c : Connection} {ready : Ready} (env : EventEnv)

theorem resume_pollErr {ret : Int} (h : c.phase = .pollErr ready ret) :
    (resume c env).map Connection.transport = handlerEnd ready.pollErr env (c.transport, ret) := by
  unfold resume handlerEnd
  rw [h]
  dsimp only
  split
  · rw [Option.map_map]
    exact Option.map_id'
  · rfl

theorem resume_pollIn {ret : Int} (h : c.phase = .pollIn ready ret) :
    ((resume c env).bind fun c => resume c env).map Connection.transport
      = (if ret = 0 ∧ ready.pollIn then eventPollIn c.transport env.input
          else some (c.transport, ret)).bind (handlerEnd ready.pollErr env) := by
  rw [resume.eq_def c env, h]
  dsimp only
  split
  · rw [Option.bind_map, Option.map_bind]
    congr 1
    funext r
    dsimp only [Function.comp]
    apply resume_pollErr
    rfl
  · rw [Option.bind_some, Option.bind_some]
    apply resume_pollErr
    rfl

theorem resume_pollOut (h : c.phase = .pollOut ready) :
    ((resume c env).bind fun c => (resume c env).bind fun c => resume c env).map Connection.transport
      = (if ready.pollOut then eventPollOut c.transport env.scripts env.selectRefused
          else some (c.transport, 0)).bind fun r =>
        (if r.2 = 0 ∧ ready.pollIn then eventPollIn r.1 env.input else some r).bind
          (handlerEnd ready.pollErr env) := by
  rw [resume.eq_def c env, h]
  dsimp only
  split
  · rw [Option.bind_map, Option.map_bind]
    congr 1
    funext r
    dsimp only [Function.comp]
    apply resume_pollIn
    rfl
  · rw [Option.bind_some, Option.bind_some]
    apply resume_pollIn
    rfl

end Sections

/-- **The sections in a row** are `socket_event_handler`, up to the release
of the transport. -/
theorem sections_eq_handler (c : Connection) (idx : Int) (ready : Ready) (env : EventEnv) :
    (connections.run c [.event idx ready, .resume env, .resume env, .resume env, .resume env]).map
        Connection.transport
      = socketEventHandler c.transport idx ready.pollIn ready.pollOut ready.pollErr env := by
  simp only [connections, Component.run, Connection.step, Option.bind_some, Option.bind_fun_some]
  rw [resume.eq_def]
  apply resume_pollOut
  rfl

end LzLib.Socket
