/-
  LzLib.Socket.ProtoDef
  ─────────────────────
  **THE INCOMING PROTOCOL STATE MACHINE AND THE EVENT HANDLER.**

  The incoming half of `socket.c`.  The machine reads into the header inside
  `priv->incoming`, into the block `hdr_p` it allocates, and into the page of
  the iobuf it gets; a byte laid outside its block has no outcome, and
  neither has a read through a `hdr_p` that `MALLOC` left `NULL`.

  What the system answers during one POLLIN event is a `PollIn`: a script for
  each of the two reads, and the two allocations.
-/
import LzLib.Socket.OutgoingDef

namespace LzLib.Socket

open LzLib.Foundation
open LzLib.Event

/-! ## §1. The memory read into. -/

/-- Bytes written to the part that a piece points to. -/
def Landing.put (mem : Landing) : Dest → Nat → Bytes → Option Landing
  | .header, off, bs => (overwrite mem.header off bs).map fun header => { mem with header }
  | .hdr, off, bs =>
      if bs = [] then some mem
      else mem.hdrP.bind fun b => (overwrite b.mem off (bs.map some)).map fun cells =>
        { mem with hdrP := some ⟨b.addr, cells⟩ }
  | .buf, off, bs =>
      if bs = [] then some mem
      else mem.iobuf.bind fun b => (overwrite b.mem off (bs.map some)).map fun cells =>
        { mem with iobuf := some ⟨b.addr, cells⟩ }

theorem Landing.put_nil (mem : Landing) (d : Dest) (off : Nat) : mem.put d off [] = some mem := by
  cases d with
  | header =>
      rw [Landing.put, overwrite_nil]
      rfl
  | hdr => rw [Landing.put, if_pos rfl]
  | buf => rw [Landing.put, if_pos rfl]

theorem Landing.put_append (mem : Landing) (d : Dest) (off : Nat) (xs ys : Bytes) :
    mem.put d off (xs ++ ys)
      = (mem.put d off xs).bind fun mem' => mem'.put d (off + xs.length) ys := by
  by_cases hx : xs = []
  · subst hx
    rw [Landing.put_nil]
    rfl
  by_cases hy : ys = []
  · subst hy
    rw [List.append_nil]
    cases mem.put d off xs with
    | none => rfl
    | some mem' => exact (Landing.put_nil mem' d _).symm
  have hxy : xs ++ ys ≠ [] := fun e => hx (List.append_eq_nil_iff.mp e).1
  cases d with
  | header =>
      simp only [Landing.put, overwrite_append, Option.map_bind, Option.bind_map]
      rfl
  | hdr =>
      cases hb : mem.hdrP with
      | none => simp [Landing.put, hx, hb]
      | some b =>
          simp only [Landing.put, if_neg hx, if_neg hy, if_neg hxy, hb, Option.bind_some,
            List.map_append, overwrite_append, List.length_map, Option.map_bind, Option.bind_map]
          rfl
  | buf =>
      cases hb : mem.iobuf with
      | none => simp [Landing.put, hx, hb]
      | some b =>
          simp only [Landing.put, if_neg hx, if_neg hy, if_neg hxy, hb, Option.bind_some,
            List.map_append, overwrite_append, List.length_map, Option.map_bind, Option.bind_map]
          rfl

/-- The memory of `priv->incoming`. -/
def landingStore : Store Landing Dest where
  put := Landing.put
  put_nil := Landing.put_nil
  put_append := Landing.put_append

/-! ## §2. The header. -/

/-- The largest `size1` and `size2` of a header. -/
def maxSize1 : Nat := 1048576
def maxSize2 : Nat := 131072

/-- `__socket_proto_validate_header`; `none` is `-1`. -/
def validateHeader (header : Bytes) : Option (Nat × Nat) :=
  -- `strcmp (header->colonO, ":O")`
  if header.take 3 ≠ [0x3a, 0x4f, 0] then none
  else if header[11]? ≠ some 42 then none
  else
    (getWordU (header.drop 3)).bind fun size1 =>
      (getWordU (header.drop 7)).bind fun size2 =>
        if size1 = 0 ∨ size1 > maxSize1 then none
        else if size2 > maxSize2 then none
        else some (size1, size2)

/-! ## §3. The rounds of the machine. -/

/-- What the system answers during one POLLIN event. -/
structure PollIn where
  headerScript : List ReadEvent
  dataScript : List ReadEvent
  /-- `MALLOC` for the header block. -/
  malloc : Option Addr
  /-- `iobuf_get`: the page it hands out. -/
  iobuf : Option Block

/-- The connection as the machine sees it. -/
structure Reader where
  inbound : Bytes
  incoming : Incoming
  deriving DecidableEq

/-- The receiving side of the connection for one read. -/
def Reader.side (s : Reader) : ReadSide Landing := ⟨s.inbound, s.incoming.mem⟩

/-- The pieces of the vector, after a read. -/
def Reader.after (s : Reader) (r : Rwv (ReadSide Landing) Dest) : Reader :=
  ⟨r.state.inbound,
    { s.incoming with mem := r.state.mem, pendingVector := r.pendingVector }⟩

/-- `priv->incoming.state = state`. -/
def Reader.goto (s : Reader) (state : ProtoState) : Reader :=
  ⟨s.inbound, { s.incoming with state }⟩

/-- How one round of the loop ends. -/
inductive Round where
  /-- `break`: on to the next round. -/
  | next (ret : Int) (s : Reader)
  /-- `goto unlock`. -/
  | unlock (ret : Int) (s : Reader)

/-- `-ENOMEM`. -/
def enomem : Int := -12

/-- `case SOCKET_PROTO_STATE_NADA`. -/
def caseNada (ret : Int) (s : Reader) : Round :=
  .next ret ⟨s.inbound, { s.incoming with
    pendingVector := [⟨.header, 0, 12⟩]
    state := .headerComing }⟩

/-- `case SOCKET_PROTO_STATE_HEADER_COMING`: the read passes no pending count. -/
def caseHeaderComing (env : PollIn) (s : Reader) : Option Round :=
  (socketReadv landingStore env.headerScript s.side s.incoming.pendingVector 1).map fun r =>
    if r.pendingCount = 0 then .next 0 ((s.after r).goto .headerCame)
    else .unlock r.pendingCount (s.after r)

/-- The two pieces of the message, and on to `SOCKET_PROTO_STATE_DATA_COMING`. -/
def installVector (inc : Incoming) (size1 size2 : Nat) : Incoming :=
  let vector := ⟨.hdr, 0, size1⟩ :: if size2 ≠ 0 then [⟨.buf, 0, size2⟩] else []
  { inc with pendingVector := vector, pendingCount := vector.length, state := .dataComing }

/-- The sizes, and the block for the header: `MALLOC (size1)`. -/
def allocHdr (env : PollIn) (inc : Incoming) (size1 size2 : Nat) : Incoming :=
  { inc with
    hdrlen := size1
    buflen := size2
    mem := { inc.mem with hdrP := env.malloc.map fun a => ⟨a, List.replicate size1 none⟩ } }

/-- `case SOCKET_PROTO_STATE_HEADER_CAME`. -/
def caseHeaderCame (env : PollIn) (s : Reader) : Round :=
  match validateHeader s.incoming.mem.header with
  | none => .unlock (-1) s
  | some (size1, size2) =>
      let inc := allocHdr env s.incoming size1 size2
      if size2 ≠ 0 then
        match env.iobuf with
        | none => .unlock enomem ⟨s.inbound, inc⟩
        | some page =>
            let inc := { inc with mem := { inc.mem with iobuf := some page } }
            .next 0 ⟨s.inbound, installVector inc size1 size2⟩
      else .next 0 ⟨s.inbound, installVector inc size1 size2⟩

/-- `priv->incoming.pending_count = count`. -/
def Reader.setCount (s : Reader) (count : Int) : Reader :=
  ⟨s.inbound, { s.incoming with pendingCount := count }⟩

/-- `case SOCKET_PROTO_STATE_DATA_COMING`. -/
def caseDataComing (env : PollIn) (s : Reader) : Option Round :=
  (socketReadv landingStore env.dataScript s.side s.incoming.pendingVector
      s.incoming.pendingCount).map fun r =>
    let s := (s.after r).setCount r.pendingCount
    if r.pendingCount = 0 then .next 0 (s.goto .dataCame) else .unlock r.pendingCount s

/-- `case SOCKET_PROTO_STATE_DATA_CAME`. -/
def caseDataCame (ret : Int) (s : Reader) : Round :=
  .next ret ⟨s.inbound, { s.incoming with
    pendingVector := []
    pendingCount := 0
    state := .complete }⟩

/-- The `switch` of one round. -/
def protoRound (env : PollIn) (ret : Int) (s : Reader) : Option Round :=
  match s.incoming.state with
  | .nada => some (caseNada ret s)
  | .headerComing => caseHeaderComing env s
  | .headerCame => some (caseHeaderCame env s)
  | .dataComing => caseDataComing env s
  | .dataCame => some (caseDataCame ret s)
  | .complete => some (.next ret s)

/-- What a call of the machine leaves; `stuck` when it gave up because the
state did not change. -/
structure ProtoResult where
  ret : Int
  stuck : Bool
  reader : Reader

/-- The loop; `fuel` bounds the rounds. -/
def protoLoop (env : PollIn) : Nat → Option ProtoState → Int → Reader → Option ProtoResult
  | 0, _, _, _ => none
  | fuel + 1, previous, ret, s =>
      if s.incoming.state = .complete then some ⟨ret, false, s⟩
      else if previous = some s.incoming.state then some ⟨-1, true, s⟩
      else
        (protoRound env ret s).bind fun r =>
          match r with
          | .unlock ret' s' => some ⟨ret', false, s'⟩
          | .next ret' s' => protoLoop env fuel (some s.incoming.state) ret' s'

/-- `__socket_proto_state_machine`: there are six states. -/
def protoStateMachine (env : PollIn) (s : Reader) : Option ProtoResult :=
  protoLoop env 6 none (-1) s

/-! ## §4. Events. -/

/-- The transport as the machine sees it. -/
def Transport.reader (t : Transport) : Reader := ⟨t.inbound, t.incoming⟩

/-- `socket_event_poll_in`. -/
def eventPollIn (t : Transport) (env : PollIn) : Option (Transport × Int) :=
  (protoStateMachine env t.reader).map fun r =>
    ({ t with inbound := r.reader.inbound, incoming := r.reader.incoming }, r.ret)

/-- How a connection attempt stands: `SO_ERROR`, then `getsockname`. -/
inductive ConnectOutcome where
  | done
  | inProgress
  | failed
  | noName
  deriving DecidableEq

/-- `socket_connect_finish`, which returns 0. -/
def connectFinish (t : Transport) : ConnectOutcome → Transport
  | .done => { t with connected := 1 }
  | .inProgress => t
  | .failed => disconnect t
  | .noName => disconnect t

/-- What the system answers during one event. -/
structure EventEnv where
  connect : ConnectOutcome
  scripts : List (List WriteEvent)
  selectRefused : Bool
  input : PollIn
  delRefused : Bool
  modRefused : Bool

/-- `ret < 0 || poll_err`: the connection is torn down. -/
def handlerEnd (pollErr : Bool) (env : EventEnv) (r : Transport × Int) : Option Transport :=
  if r.2 < 0 ∨ pollErr then eventPollErr r.1 env.delRefused env.modRefused else some r.1

/-- `socket_event_handler`. -/
def socketEventHandler (t : Transport) (idx : Int) (pollIn pollOut pollErr : Bool)
    (env : EventEnv) : Option Transport :=
  let t := { t with idx }
  let t := if t.connected = 0 then connectFinish t env.connect else t
  let out := if pollOut then eventPollOut t env.scripts env.selectRefused else some (t, 0)
  out.bind fun r =>
    let input := if r.2 = 0 ∧ pollIn then eventPollIn r.1 env.input else some r
    input.bind (handlerEnd pollErr env)

/-! ## §5. Receiving. -/

/-- What `socket_receive` hands out: `*hdr_p`, `*hdrlen_p` and `*iobuf_p`. -/
structure Received where
  hdrP : Option Block
  hdrlen : Nat
  iobuf : Option Block
  deriving DecidableEq

/-- `socket_receive`; `given` when none of the three pointers is `NULL`. -/
def socketReceive (t : Transport) (given : Bool) : Transport × Option Received :=
  if t.connected = 1 ∧ given ∧ t.incoming.state = .complete then
    ({ t with incoming := .zero },
      some ⟨t.incoming.mem.hdrP, t.incoming.hdrlen, t.incoming.mem.iobuf⟩)
  else (t, none)

end LzLib.Socket
