/-
  LzLib.Socket.CreationDef
  ────────────────────────
  **CREATING A TRANSPORT, AND THE FIELDS IT IS USED THROUGH.**

  `struct transport` has two fields that every use goes through and that no
  function of the repository assigns: `globals_ctx` and `iobuf_pool`.  The
  definitions here follow `transport_load`, the accepting half of
  `socket_server_event_handler` and their common `socket_init` field by
  field, and write down each dereference of one of the two with the pointer
  it finds; a `NULL` there ends the program.

  The functions that use a transport later on are those of the other modules,
  with their dereferences.  `string2boolean` and `string2bytesize` are called
  by `socket_init` and defined nowhere in the repository: they are
  parameters.
-/
import LzLib.Foundation.Traced
import LzLib.Socket.OwnershipDef

namespace LzLib.Socket

open LzLib.Foundation
open LzLib.Event

/-! ## §1. Data. -/

/-- The fields that are dereferenced. -/
inductive Field where
  | globalsCtx
  | iobufPool
  deriving DecidableEq

/-- A dereference of `this->field`, and the pointer there. -/
structure Deref where
  field : Field
  found : Option Addr
  deriving DecidableEq

/-- The strings of an options dictionary. -/
abbrev Options := List (String × String)

/-- `globals_ctx_t`: what a transport uses of it. -/
structure GlobalsCtx where
  options : Options
  iobufPool : Option Addr

/-- `socket_private_t`: what is set when the transport is created. -/
structure SocketPrivate where
  sock : Int
  idx : Int
  connected : UInt8
  bio : Bool
  nodelay : Bool
  lowlat : Bool
  windowsize : Int
  deriving DecidableEq

/-- `struct transport`; `private` is `priv`. -/
structure TransportT where
  priv : Option SocketPrivate
  refcount : Int
  globalsCtx : Option Addr
  iobufPool : Option Addr
  deriving DecidableEq

/-- `CALLOC (1, sizeof (struct transport))`. -/
def TransportT.zero : TransportT := ⟨none, 0, none, none⟩

/-- `this->globals_ctx->…` -/
def TransportT.ctx (this : TransportT) : Traced Deref Addr :=
  .event ⟨.globalsCtx, this.globalsCtx⟩ this.globalsCtx

/-- `iobuf_get (this->iobuf_pool)`, up to its first access to the pool. -/
def TransportT.pool (this : TransportT) : Traced Deref Addr :=
  .event ⟨.iobufPool, this.iobufPool⟩ this.iobufPool

/-- The same where it happens only if `cond` holds. -/
def TransportT.ctxIf (this : TransportT) (cond : Bool) : Traced Deref Unit :=
  if cond then this.ctx >>= fun _ => pure () else pure ()

def TransportT.poolIf (this : TransportT) (cond : Bool) : Traced Deref Unit :=
  if cond then this.pool >>= fun _ => pure () else pure ()

/-! ## §2. `socket_init`. -/

/-- What `socket_init` meets: the contexts in memory, the answer of `CALLOC`,
and the two parsers (`none` is their failure). -/
structure InitEnv where
  ctxs : Addr → GlobalsCtx
  calloc : Bool
  string2boolean : String → Option Bool
  string2bytesize : String → Option Nat

/-- `DEFAULT_SOCKET_WINDOW_SIZE`. -/
def defaultWindowSize : Nat := 512 * 1024

/-- `dict_get (this->globals_ctx->options, key)`. -/
def TransportT.option (this : TransportT) (env : InitEnv) (key : String) : Traced Deref (Option String) := do
  let ctx ← this.ctx
  pure (assocGet (env.ctxs ctx).options key)

/-- A boolean option: looked up once to see whether it is there, and again to
be read; a value that is no boolean counts as true. -/
def TransportT.boolOption (this : TransportT) (env : InitEnv) (key : String) : Traced Deref Bool := do
  let present ← this.option env key
  if present.isSome then
    let value ← this.option env key
    pure ((value.bind env.string2boolean).getD true)
  else pure true

/-- `socket_init`, and what it returns. -/
def socketInit (this : TransportT) (env : InitEnv) : Traced Deref (TransportT × Int) :=
  if this.priv.isSome then pure (this, -1)
  else if env.calloc = false then pure (this, -1)
  else do
    -- without the option `bio` is 0 from `CALLOC`, as it is for a true value
    let nonblocking ← this.boolOption env "non-blocking-io"
    let nodelay ← this.boolOption env "transport.socket.nodelay"
    let windowsize ← this.option env "transport.window-size"
    match windowsize with
    | some optstr =>
        match env.string2bytesize optstr with
        | none => pure (this, -1)
        | some windowsize => finish nonblocking nodelay windowsize
    | none => finish nonblocking nodelay defaultWindowSize
where
  /-- The last option, and `this->private = priv`. -/
  finish (nonblocking nodelay : Bool) (windowsize : Nat) : Traced Deref (TransportT × Int) := do
    let lowlat ← this.option env "transport.socket.lowlat"
    let priv := ⟨-1, -1, notConnected, !nonblocking, nodelay, lowlat.isSome, wrap32 windowsize⟩
    pure ({ this with priv := some priv }, 0)

/-! ## §3. `transport_load`. -/

/-- What `transport_load` meets beside `socket_init`: `CALLOC`, and the room
for each of the two options it may set. -/
structure LoadEnv where
  calloc : Bool
  setType : Bool
  setFamily : Bool
  init : InitEnv

/-- `dict_set_str`, which may fail for lack of memory. -/
def dictSetOption (options : Options) (key value : String) (room : Bool) : Options :=
  if room then assocSet options key value else options

/-- `*tmp = '\0'` at the first `/`, in the dictionary's own string. -/
def beforeSlash (type : String) : String := String.ofList (type.toList.takeWhile (· ≠ '/'))

/-- The transport type: defaulted, or cut at its slash; `tcp` sets the family. -/
def loadOptions (options : Options) (env : LoadEnv) : Options :=
  match assocGet options "transport-type" with
  | none => dictSetOption options "transport-type" "socket" env.setType
  | some type =>
      let options := assocSet options "transport-type" (beforeSlash type)
      if beforeSlash type = "tcp" then dictSetOption options "transport.address-family" "inet" env.setFamily
      else options

/-- What `transport_load` leaves: the options, and the transport it returns. -/
structure Loaded where
  options : Option Options
  transport : Option TransportT

/-- `transport_load`.  Its parameter `ctx` is not used. -/
def transportLoad (options : Option Options) (_ctx : Option Addr) (env : LoadEnv) : Traced Deref Loaded :=
  match options with
  | none => pure ⟨none, none⟩
  | some options =>
      if env.calloc = false then pure ⟨some options, none⟩
      else do
        let r ← socketInit .zero env.init
        if r.2 ≠ 0 then pure ⟨some (loadOptions options env), none⟩
        else pure ⟨some (loadOptions options env), some r.1⟩

/-! ## §4. Accepting a connection. -/

/-- A listening transport that is initialised. -/
structure Listener where
  this : TransportT
  priv : SocketPrivate
  ctx : Addr
  has_priv : this.priv = some priv
  has_ctx : this.globalsCtx = some ctx

/-- What `socket_server_event_handler` meets. -/
structure AcceptEnv where
  pollIn : Bool
  /-- `accept`. -/
  newSock : Int
  /-- `__socket_nonblock` and `getsockname` do not fail. -/
  nonblock : Bool
  getsockname : Bool
  calloc : Bool
  init : InitEnv
  /-- What `event_register` returns. -/
  idx : Int

/-- `new_priv = new_trans->private` and the section that uses it; without a
`private` its lock is taken through `NULL`. -/
def registerAccepted (l : Listener) (env : AcceptEnv) (newTrans : TransportT) : Traced Deref (Option TransportT) := do
  let newPriv ← Traced.ofOption newTrans.priv
  -- `ctx` was read from the listening transport
  let _ ← l.this.ctx
  pure (some { newTrans with
    refcount := newTrans.refcount + 1
    priv := some { newPriv with sock := env.newSock, connected := 1, idx := env.idx } })

/-- The accepting half of `socket_server_event_handler`: the new transport.  A
`new_trans` that could not be allocated is written to through `NULL`. -/
def acceptConnection (l : Listener) (env : AcceptEnv) : Traced Deref (Option TransportT) :=
  if env.pollIn = false then pure none
  else if env.newSock = -1 then pure none
  else if l.priv.bio = false ∧ env.nonblock = false then pure none
  else if env.calloc = false then .ofOption none
  else if env.getsockname = false then pure none
  else do
    -- what `socket_init` returns is not looked at
    let r ← socketInit .zero env.init
    registerAccepted l env r.1

/-! ## §5. Later uses. -/

/-- How far `socket_connect` gets. -/
structure ConnectEnv where
  /-- `client_fill_address_family` succeeds, and with which family. -/
  family : Bool
  known : Bool
  unix : Bool
  /-- The address of the peer is found. -/
  resolved : Bool
  /-- `socket`. -/
  sock : Int
  nonblock : Bool
  bound : Bool
  /-- `connect` succeeds, or is in progress. -/
  connected : Bool
  handler : Addr
  data : Addr
  room : Bool
  refused : Bool

/-- What a transport is used for. -/
inductive Use where
  | connect (env : ConnectEnv)
  | submit (m : Message) (script : List WriteEvent) (room refused : Bool)
  | pollOut (scripts : List (List WriteEvent)) (refused : Bool)
  | pollIn (env : PollIn)
  | pollErr (refused refusedMod : Bool)

/-- `socket_connect`: the options are read for the family, for the address,
and on a unix socket for the path to bind; then comes the event pool. -/
def useConnect (this : TransportT) (bio : Bool) (t : Transport) (env : ConnectEnv) : Traced Deref Transport :=
  if t.sock ≠ -1 then pure t
  else do
    let _ ← this.ctx
    if env.family = false ∨ env.known = false then pure t
    else
      let _ ← this.ctx
      if env.resolved = false ∨ env.sock = -1 ∨ (bio = false ∧ env.nonblock = false) then pure t
      else
        this.ctxIf env.unix
        if env.bound = false ∨ env.connected = false then pure t
        else
          let _ ← this.ctx
          let r ← Traced.ofOption
            (eventRegister t.pool env.sock env.handler env.data 1 1 env.room env.refused)
          pure { t with sock := env.sock, idx := r.2, connected := 0, pool := r.1 }

/-- `socket_submit` comes to `event_select_on`: the first entry that waits. -/
def needPollOut (t : Transport) (m : Message) (script : List WriteEvent) (room : Bool) : Bool :=
  t.connected = 1 ∧ room = true ∧ t.ioq = [] ∧
    (ioqChurnEntry { t with log := t.log ++ m.iobref.toList.map .refIobref } (ioqNew m) script).any
      fun c => c.ret > 0

/-- `__socket_ioq_churn` comes to `event_select_on`: nothing waits any more. -/
def churnsAll (t : Transport) (scripts : List (List WriteEvent)) : Bool :=
  t.connected = 1 ∧ (churnLoop t t.ioq scripts 0).any fun r => r.1.ioq = []

/-- The machine comes to `iobuf_get`: with a page to get it gets one. -/
def asksPage (env : PollIn) (s : Reader) : Bool :=
  machineAllocs { env with malloc := none, iobuf := some ⟨0, []⟩ } s = [.iobuf 0]

/-- Any of the uses, with its dereferences before the rest. -/
def useTransport (this : TransportT) (bio : Bool) (t : Transport) : Use → Traced Deref Transport
  | .connect env => useConnect this bio t env
  | .submit m script room refused => do
      this.ctxIf (needPollOut t m script room)
      .ofOption ((socketSubmit t m script room refused).map Prod.fst)
  | .pollOut scripts refused => do
      this.ctxIf (churnsAll t scripts)
      .ofOption ((eventPollOut t scripts refused).map Prod.fst)
  | .pollIn env => do
      this.poolIf (asksPage env t.reader)
      .ofOption ((eventPollIn t env).map Prod.fst)
  | .pollErr refused refusedMod => do
      let _ ← this.ctx
      .ofOption (eventPollErr t refused refusedMod)

/-- One use after the other. -/
def useAll (this : TransportT) (bio : Bool) : Transport → List Use → Traced Deref Transport
  | t, [] => pure t
  | t, use :: uses => do
      let t ← useTransport this bio t use
      useAll this bio t uses

/-! ## §6. From creation to the last use. -/

/-- How a transport comes into being. -/
inductive Creation where
  | load (options : Option Options) (ctx : Option Addr) (env : LoadEnv)
  | accept (l : Listener) (env : AcceptEnv)

/-- The transport, if one is returned. -/
def Creation.made : Creation → Traced Deref (Option TransportT)
  | .load options ctx env => do
      let r ← transportLoad options ctx env
      pure r.transport
  | .accept l env => acceptConnection l env

/-- A transport is made, and then used; `pool` are the events of its context,
`stream` is what its peer sends. -/
def Creation.life (c : Creation) (pool : EventPool) (stream : Bytes) (uses : List Use) :
    Traced Deref (Option Transport) := do
  match ← c.made with
  | none => pure none
  | some this =>
      let priv ← Traced.ofOption this.priv
      let t := { Transport.initial pool priv.sock priv.idx priv.connected with inbound := stream }
      let t ← useAll this priv.bio t uses
      pure (some t)

/-- The context that a transport is made for: the one given to
`transport_load`, for an accepted connection to that of the listener. -/
def Creation.ctx : Creation → Option Addr
  | .load _ ctx _ => ctx
  | .accept l _ => some l.ctx

def Creation.ctxs : Creation → Addr → GlobalsCtx
  | .load _ _ env => env.init.ctxs
  | .accept _ env => env.init.ctxs

/-- The pointer that a dereference should find. -/
def Creation.wanted (c : Creation) : Field → Option Addr
  | .globalsCtx => c.ctx
  | .iobufPool => c.ctx.bind fun a => (c.ctxs a).iobufPool

/-- The creation gets as far as the options of `socket_init`. -/
def Creation.readsOptions : Creation → Bool
  | .load options _ env => options.isSome && env.calloc && env.init.calloc
  | .accept l env =>
      env.pollIn && env.newSock != -1 && (l.priv.bio || env.nonblock) && env.calloc && env.getsockname
        && env.init.calloc

end LzLib.Socket
