/-
  LzLib.Socket.ConnectDef
  ───────────────────────
  **CONNECTING AND LISTENING.**

  `socket_connect` and `socket_listen` with every system call they make: the
  answers of the calls are arguments, and what they do to the transport, the
  event pool and the open sockets of the process is the result.  The
  addresses come from the functions of `name.c`, of which the model keeps
  what decides the way through: the options, the address family and what is
  returned.

  `gf_resolve_ip6` is called by `name.c` and defined nowhere in the
  repository: it is a parameter, like `getaddrinfo`.
-/
import LzLib.Foundation.Numerals
import LzLib.Socket.CreationDef

namespace LzLib.Socket

open LzLib.Foundation
open LzLib.Event

/-! ## §1. Addresses: `name.c`. -/

/-- `sa_family_t`: `AF_UNSPEC`, `AF_UNIX`, `AF_INET`, `AF_INET6`, `AF_INET_SDP`. -/
inductive SaFamily where
  | unspec
  | unix
  | inet
  | inet6
  | inetSdp
  deriving DecidableEq

/-- `UNIX_PATH_MAX`. -/
def unixPathMax : Nat := 108

/-- `DEFAULT_SOCKET_LISTEN_PORT`. -/
def defaultSocketListenPort : Nat := 6996

/-- `CLIENT_PORT_CEILING`. -/
def clientPortCeiling : Nat := 1024

/-- `strcasecmp` answers 0; `name` is in lower case. -/
def sameWord (str name : String) : Bool := str.toLower = name

/-- The `address-family` option. -/
def namedFamily (addressFamily : String) : Option SaFamily :=
  if sameWord addressFamily "unix" then some .unix
  else if sameWord addressFamily "inet" then some .inet
  else if sameWord addressFamily "inet6" then some .inet6
  else if sameWord addressFamily "inet-sdp" then some .inetSdp
  else if sameWord addressFamily "inet/inet6" || sameWord addressFamily "inet6/inet" then some .unspec
  else none

/-- `client_fill_address_family`; `none` is `-1`. -/
def clientFillAddressFamily (options : Options) : Option SaFamily :=
  match assocGet options "transport.address-family" with
  | some addressFamily => namedFamily addressFamily
  | none =>
      match assocGet options "remote-host", assocGet options "transport.socket.connect-path" with
      | some _, none => some .unspec
      | none, some _ => some .unix
      | _, _ => none

/-- `server_fill_address_family`. -/
def serverFillAddressFamily (options : Options) : Option SaFamily :=
  match assocGet options "transport.address-family" with
  | some addressFamily => namedFamily addressFamily
  | none => some .unspec

/-- `data_to_uint16`. -/
def dataToUint16 (data : String) : Nat := ((strtol 0 data.toUTF8.data.toList).value % 65536).toNat

/-- `af_inet_client_get_remote_sockaddr`: what it returns, and `sa_family`.
`resolve` is `gf_resolve_ip6` (`none` is `-1`). -/
def afInetClientGetRemoteSockaddr (options : Options) (family : SaFamily)
    (resolve : String → Nat → SaFamily → Option SaFamily) : Int × SaFamily :=
  match assocGet options "remote-host" with
  | none => (-1, family)
  | some remoteHost =>
      let remotePort :=
        ((assocGet options "remote-port").map dataToUint16).getD defaultSocketListenPort
      if remotePort = 65535 then (-1, family)
      else
        match resolve remoteHost remotePort family with
        | none => (-1, family)
        | some found => (0, found)

/-- `af_unix_client_get_remote_sockaddr`. -/
def afUnixClientGetRemoteSockaddr (options : Options) : Int × SaFamily :=
  match assocGet options "transport.socket.connect-path" with
  | none => (-1, .unix)
  | some connectPath => if connectPath.utf8ByteSize > unixPathMax then (-1, .unix) else (0, .unix)

/-- `socket_client_get_remote_sockaddr`. -/
def socketClientGetRemoteSockaddr (options : Options)
    (resolve : String → Nat → SaFamily → Option SaFamily) : Int × SaFamily :=
  match clientFillAddressFamily options with
  | none => (-1, .unspec)
  | some .unix => afUnixClientGetRemoteSockaddr options
  | some .inetSdp => afInetClientGetRemoteSockaddr options .inet resolve
  | some family => afInetClientGetRemoteSockaddr options family resolve

/-- `af_inet_server_get_local_sockaddr`; `lookup` is `getaddrinfo`, for a host
or `NULL`. -/
def afInetServerGetLocalSockaddr (options : Options) (family : SaFamily)
    (lookup : Option String → SaFamily → Option SaFamily) : Int × SaFamily :=
  let listenHost := assocGet options "transport.socket.bind-address"
  if listenHost = none ∧ (family = .inet6 ∨ family = .inet) then (0, family)
  else
    match lookup listenHost family with
    | none => (-1, family)
    | some found => (0, found)

/-- `af_unix_server_get_local_sockaddr`. -/
def afUnixServerGetLocalSockaddr (options : Options) : Int × SaFamily :=
  match assocGet options "transport.socket.listen-path" with
  | none => (-1, .unix)
  | some listenPath => if listenPath.utf8ByteSize > unixPathMax then (-1, .unix) else (0, .unix)

/-- `socket_server_get_local_sockaddr`. -/
def socketServerGetLocalSockaddr (options : Options)
    (lookup : Option String → SaFamily → Option SaFamily) : Int × SaFamily :=
  match serverFillAddressFamily options with
  | none => (-1, .unspec)
  | some .unix => afUnixServerGetLocalSockaddr options
  | some .inetSdp => afInetServerGetLocalSockaddr options .inet lookup
  | some family => afInetServerGetLocalSockaddr options family lookup

/-! ## §2. Binding. -/

/-- A system call that returns 0 or `-1`. -/
def sysRet (done : Bool) : Int := if done then 0 else -1

/-- What `bind` answers, as far as it matters. -/
inductive BindAnswer where
  | done
  | eacces
  | failed
  deriving DecidableEq

/-- `af_inet_bind_to_port_lt_ceiling`, from `port` down. -/
def afInetBindToPortLtCeiling (bind : Nat → BindAnswer) : Nat → Int
  | 0 => -1
  | port + 1 =>
      match bind (port + 1) with
      | .done => 0
      | .eacces => -1
      | .failed => afInetBindToPortLtCeiling bind port

/-- `af_unix_client_bind`. -/
def afUnixClientBind (options : Options) (bindPath : String → Bool) : Int :=
  match assocGet options "transport.socket.bind-path" with
  | none => 0
  | some path => if path.utf8ByteSize > unixPathMax then 0 else sysRet (bindPath path)

/-- `client_bind`. -/
def clientBind (options : Options) (family : SaFamily) (bindPort : Nat → BindAnswer)
    (bindPath : String → Bool) : Int :=
  match family with
  | .unix => afUnixClientBind options bindPath
  | .unspec => -1
  | _ =>
      -- that no low port is free is only logged
      let ret := afInetBindToPortLtCeiling bindPort (clientPortCeiling - 1)
      if ret = -1 then 0 else ret

/-- `__socket_nonblock`: `fcntl` twice. -/
def socketNonblock (getfl : Int) (setfl : Bool) : Int := if getfl ≠ -1 then sysRet setfl else -1

/-! ## §3. The transport and its surroundings. -/

/-- A transport, the event pool of its context, and the sockets that are open. -/
structure Endpoint where
  this : TransportT
  pool : EventPool
  fds : List Int
  deriving DecidableEq

/-- `priv->sock = socket (sa_family, SOCK_STREAM, 0)`. -/
def Endpoint.openSocket (w : Endpoint) (priv : SocketPrivate) (fd : Int) : Endpoint where
  this := { w.this with priv := some { priv with sock := fd } }
  pool := w.pool
  fds := fd :: w.fds

/-- `close (priv->sock); priv->sock = -1`. -/
def Endpoint.closeSocket (w : Endpoint) (priv : SocketPrivate) : Endpoint where
  this := { w.this with priv := some { priv with sock := -1 } }
  pool := w.pool.close priv.sock
  fds := w.fds.erase priv.sock

/-! ## §4. `socket_connect`. -/

inductive ConnectAnswer where
  | done
  | inProgress
  | failed
  deriving DecidableEq

/-- What `socket_connect` meets: the options of the context, and the answer of
each call; `room` and `refused` are those of `event_register`. -/
structure ConnectCalls where
  options : Options
  resolve : String → Nat → SaFamily → Option SaFamily
  socket : Int
  getfl : Int
  setfl : Bool
  bindPort : Nat → BindAnswer
  bindPath : String → Bool
  connect : ConnectAnswer
  handler : Addr
  data : Addr
  room : Bool
  refused : Bool

/-- From `priv->connected = 0` on; `ret` is what `connect` returned. -/
def connectRegister (w : Endpoint) (priv : SocketPrivate) (ret : Int) (calls : ConnectCalls) :
    Option (Endpoint × Int) :=
  (eventRegister w.pool priv.sock calls.handler calls.data 1 1 calls.room calls.refused).map fun r =>
    let priv := { priv with connected := 0, idx := r.2 }
    (⟨{ w.this with refcount := w.this.refcount + 1, priv := some priv }, r.1, w.fds⟩,
      if r.2 = -1 then -1 else ret)

/-- With a socket: non-blocking, bound, connected.  What the socket options
and `__socket_nodelay` return is overwritten. -/
def connectSocket (w : Endpoint) (priv : SocketPrivate) (family : SaFamily) (calls : ConnectCalls) :
    Option (Endpoint × Int) :=
  if priv.bio = false ∧ socketNonblock calls.getfl calls.setfl = -1 then some (w.closeSocket priv, -1)
  else if clientBind calls.options family calls.bindPort calls.bindPath = -1 then
    some (w.closeSocket priv, -1)
  else
    match calls.connect with
    | .failed => some (w.closeSocket priv, -1)
    | .inProgress => connectRegister w priv (-1) calls
    | .done => connectRegister w priv 0 calls

/-- `socket_connect`. -/
def socketConnect (w : Endpoint) (calls : ConnectCalls) : Option (Endpoint × Int) :=
  match w.this.priv with
  | none => some (w, -1)
  | some priv =>
      if priv.sock ≠ -1 then some (w, 0)
      else
        let remote := socketClientGetRemoteSockaddr calls.options calls.resolve
        if remote.1 = -1 then some (w, -1)
        -- `ret` is still that of the address
        else if calls.socket = -1 then some (w, remote.1)
        else
          connectSocket (w.openSocket priv calls.socket) { priv with sock := calls.socket } remote.2 calls

/-! ## §5. `socket_listen`. -/

/-- What `socket_listen` meets. -/
structure ListenCalls where
  options : Options
  lookup : Option String → SaFamily → Option SaFamily
  socket : Int
  getfl : Int
  setfl : Bool
  /-- `bind` in `__socket_server_bind`. -/
  bind : Bool
  listen : Bool
  handler : Addr
  data : Addr
  room : Bool
  refused : Bool

/-- From `transport_ref` on; `ret` is what `listen` returned. -/
def listenRegister (w : Endpoint) (priv : SocketPrivate) (ret : Int) (calls : ListenCalls) :
    Option (Endpoint × Int) :=
  (eventRegister w.pool priv.sock calls.handler calls.data 1 0 calls.room calls.refused).map fun r =>
    let priv := { priv with idx := r.2 }
    let w : Endpoint := ⟨{ w.this with refcount := w.this.refcount + 1, priv := some priv }, r.1, w.fds⟩
    if r.2 = -1 then (w.closeSocket priv, -1) else (w, ret)

/-- With a socket: non-blocking, bound, listening. -/
def listenSocket (w : Endpoint) (priv : SocketPrivate) (calls : ListenCalls) : Option (Endpoint × Int) :=
  if priv.bio = false ∧ socketNonblock calls.getfl calls.setfl = -1 then some (w.closeSocket priv, -1)
  else if sysRet calls.bind = -1 then some (w.closeSocket priv, -1)
  else if sysRet calls.listen = -1 then some (w.closeSocket priv, -1)
  else listenRegister w priv (sysRet calls.listen) calls

/-- `socket_listen`; without a `private` its lock is taken through `NULL`. -/
def socketListen (w : Endpoint) (calls : ListenCalls) : Option (Endpoint × Int) :=
  match w.this.priv with
  | none => none
  | some priv =>
      if priv.sock ≠ -1 then some (w, -1)
      else
        let here := socketServerGetLocalSockaddr calls.options calls.lookup
        if here.1 = -1 then some (w, here.1)
        -- `ret` is still that of the address
        else if calls.socket = -1 then some (w, here.1)
        else listenSocket (w.openSocket priv calls.socket) { priv with sock := calls.socket } calls

end LzLib.Socket
