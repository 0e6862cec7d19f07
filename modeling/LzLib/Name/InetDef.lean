/-
  LzLib.Name.InetDef
  ──────────────────
  **THE ADDRESSES OF AN INTERNET SOCKET** (`name.c`).

  `af_inet_client_get_remote_sockaddr` and `af_inet_server_get_local_sockaddr`
  with the values that the options have as they are in the dict.  A port is
  read by `data_to_uint16`, and 65535 is its value where there is none.

  `gf_resolve_ip6`, which is defined nowhere in the repository, and `getaddrinfo`
  are parameters.  `none` is a program that has read outside a value.
-/
import LzLib.Dict.IntegersDef
import LzLib.Socket.ConnectDef

namespace LzLib.Name

open LzLib.Foundation
open LzLib.Dict (Data BytePtr)
open LzLib.Socket (SaFamily defaultSocketListenPort)

variable {α : Type}

/-- `dict_get (options, key)`. -/
abbrev Options := String → Option Data

/-! ## §1. The client. -/

/-- What is returned, the port that `gf_resolve_ip6` was given, and the address copied to `*sockaddr`. -/
structure RemoteAddr (α : Type) where
  ret : Int
  port : Option Int
  sockaddr : Option α
  deriving DecidableEq

/-- `af_inet_client_get_remote_sockaddr`; `resolve` is `gf_resolve_ip6`, `none` is -1. -/
def afInetClientGetRemoteSockaddr (resolve : BytePtr → Int → SaFamily → Option α) (family : SaFamily)
    (options : Options) : Option (RemoteAddr α) :=
  match options "remote-host" with
  | none => some ⟨-1, none, none⟩
  | some remoteHostData =>
      match remoteHostData.data with
      | none => some ⟨-1, none, none⟩
      | some remoteHost =>
          -- `remote_port` is a `uint16_t`, whatever the option says
          let remotePort :=
            match options "remote-port" with
            | none => some (defaultSocketListenPort : Int)
            | some remotePortData => Dict.dataToUint16 (some remotePortData)
          remotePort.map fun remotePort =>
            -- `(uint16_t)-1`: an invalid port, or the port 65535
            if remotePort = 65535 then ⟨-1, none, none⟩
            else
              match resolve remoteHost remotePort family with
              | none => ⟨-1, some remotePort, none⟩
              | some addr => ⟨0, some remotePort, some addr⟩

/-! ## §2. The server. -/

/-- What `*addr` is set to: the address `in6addr_any` or `INADDR_ANY` with a port, or a
result of `getaddrinfo`. -/
inductive LocalSockaddr (α : Type)
  | inet6 (sin6Port : Int)
  | inet (sinPort : Int)
  | copied (addr : α)
  deriving DecidableEq

/-- What is returned, the `service` that `getaddrinfo` was given, and `*addr`. -/
structure LocalAddr (α : Type) where
  ret : Int
  service : Option Bytes
  addr : Option (LocalSockaddr α)
  deriving DecidableEq

/-- `af_inet_server_get_local_sockaddr`. -/
def afInetServerGetLocalSockaddr (getaddrinfo : Option BytePtr → Bytes → SaFamily → Option α) (family : SaFamily)
    (options : Options) : Option (LocalAddr α) :=
  let listenPort :=
    match options "transport.socket.listen-port" with
    | none => some 65535
    | some listenPortData => Dict.dataToUint16 (some listenPortData)
  listenPort.map fun listenPort =>
    -- here `(uint16_t)-1` is no error, but a port that is not given
    let listenPort := if listenPort = 65535 then (defaultSocketListenPort : Int) else listenPort
    match options "transport.socket.bind-address", family with
    -- without an address to bind to, these two families need no lookup
    | none, .inet6 => ⟨0, none, some (.inet6 listenPort)⟩
    | none, .inet => ⟨0, none, some (.inet listenPort)⟩
    | listenHostData, family =>
        let service := intText listenPort
        match getaddrinfo (listenHostData.bind Data.data) service family with
        | none => ⟨-1, some service, none⟩
        | some addr => ⟨0, some service, some (.copied addr)⟩

end LzLib.Name
