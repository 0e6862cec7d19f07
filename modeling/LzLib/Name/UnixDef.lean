/-
  LzLib.Name.UnixDef
  ──────────────────
  **THE ADDRESSES OF A UNIX SOCKET** (`name.c`).

  The path of an option is copied with `strcpy` into the `sun_path` of a
  `struct sockaddr_storage`, and `get_transport_identifiers` copies it with
  `strcpy` from there into the `identifier` of a `peer_info_t`.

  An address and a record are memories of their own, with the offsets of Linux.
  `none` is a program that has read on behind the memory of a string, or
  through NULL.
-/
import LzLib.Foundation.Copies
import LzLib.Name.InetDef

namespace LzLib.Name

open LzLib.Foundation
open LzLib.Dict (Data BytePtr)
open LzLib.Socket (unixPathMax)

/-! ## §1. The layout. -/

/-- `offsetof (struct sockaddr_un, sun_path)`. -/
def sunPath : Nat := 2

/-- `sizeof (struct sockaddr_un)`. -/
def sizeofSockaddrUn : Nat := 110

/-- `sizeof (struct sockaddr_storage)`. -/
def sizeofStorage : Nat := 128

/-- `offsetof (peer_info_t, identifier)`, behind the address and its length. -/
def identifierAt : Nat := 132

/-- The values of `sa_family`. -/
def afUnix : Nat := 1
def afInet : Nat := 2
def afInet6 : Nat := 10
def afInetSdp : Nat := 27

/-- `sa_family` of the address at the head of a memory. -/
def saFamily (m : Memory) : Nat := (m 0).toNat + 256 * (m 1).toNat

/-- `sa_family = family`. -/
def setFamily (s : Written) (family : Nat) : Written := s.copy 0 [family.toUInt8, (family / 256).toUInt8]

/-- `data_to_str`, and the string there; inside, `none` is NULL. -/
def dataToStr (data : Data) : Option (Option CStr) :=
  match data.data with
  | none => some none
  | some p => (CStr.scan (p.block.drop p.off.toNat)).map some

/-! ## §2. Paths. -/

/-- What is returned, the message where the path is not used, the address, and `*sockaddr_len` where it is set. -/
structure PathCall where
  ret : Int
  report : Option String
  addr : Written
  sockaddrLen : Option Nat

/-- `af_unix_client_bind`; `bind` tells whether the system call succeeds. -/
def afUnixClientBind (bind : Memory → Bool) (options : Options) (sockaddr : Written) : Option PathCall :=
  let notSpecified : PathCall :=
    ⟨0, some "bind-path not specfied for unix socket, letting connect to assign default value", sockaddr, none⟩
  match options "transport.socket.bind-path" with
  | none => some notSpecified
  | some pathData =>
      (dataToStr pathData).map fun path =>
        match path with
        | none => notSpecified
        | some path =>
            -- `strlen` leaves the NUL out, `strcpy` does not
            if path.strlen > unixPathMax then notSpecified
            else
              let addr := sockaddr.strcpy sunPath path
              if bind addr.bytes then ⟨0, none, addr, none⟩
              else ⟨-1, some "cannot bind to unix-domain socket", addr, none⟩

/-- `af_unix_client_get_remote_sockaddr`. -/
def afUnixClientGetRemoteSockaddr (options : Options) (sockaddr : Written) : Option PathCall :=
  match options "transport.socket.connect-path" with
  | none =>
      some ⟨-1, some "option transport.unix.connect-path not specified for address-family unix", sockaddr, none⟩
  | some connectPathData =>
      (dataToStr connectPathData).map fun connectPath =>
        match connectPath with
        | none => ⟨-1, some "transport.unix.connect-path is null-string", sockaddr, none⟩
        | some connectPath =>
            if connectPath.strlen > unixPathMax then
              ⟨-1, some s!"connect-path value length {connectPath.strlen} > {unixPathMax} octets", sockaddr, none⟩
            else ⟨0, none, sockaddr.strcpy sunPath connectPath, some sizeofSockaddrUn⟩

/-- `af_unix_server_get_local_sockaddr`; its `strlen` takes no NULL. -/
def afUnixServerGetLocalSockaddr (options : Options) (addr : Written) : Option PathCall :=
  match options "transport.socket.listen-path" with
  | none => some ⟨-1, some "missing option transport.socket.listen-path", addr, none⟩
  | some listenPathData =>
      (dataToStr listenPathData).bind fun listenPath =>
        listenPath.map fun listenPath =>
          if listenPath.strlen > unixPathMax then
            ⟨-1, some s!"option transport.unix.listen-path has value length {listenPath.strlen} > {unixPathMax}",
              addr, none⟩
          else ⟨0, none, (setFamily addr afUnix).strcpy sunPath listenPath, some sizeofSockaddrUn⟩

/-! ## §3. Identifiers. -/

/-- `memcpy (&info->sockaddr, &sockaddr, sockaddr_len)`, in `socket_connect` and `socket_listen`. -/
def takeSockaddr (info : Written) (sockaddr : Memory) (sockaddrLen : Nat) : Written :=
  info.copy 0 (sockaddr.bytesAt 0 sockaddrLen)

/-- `strcpy (info->identifier, sunaddr->sun_path)`. -/
def fillUnixIdentifier (info : Written) : Option Written :=
  (info.bytes.strAt sunPath (sizeofStorage - sunPath)).map fun path => info.strcpy identifierAt path

/-- The `AF_INET` cases of `get_transport_identifiers`; `fill` is `fill_inet6_inet_identifiers`. -/
def inetIdentifiers (fill : Written → Int × Written) (myinfo peerinfo : Written) : Int × Written × Written :=
  let (ret, myinfo) := fill myinfo
  if ret = -1 then (ret, myinfo, peerinfo)
  else
    let (ret, peerinfo) := fill peerinfo
    (ret, myinfo, peerinfo)

/-- `get_transport_identifiers`. -/
def getTransportIdentifiers (fill : Written → Int × Written) (myinfo peerinfo : Written) :
    Option (Int × Written × Written) :=
  let family := saFamily myinfo.bytes
  if family = afInetSdp then
    -- the case falls through to that of `AF_INET`, under this family
    let (ret, myinfo, peerinfo) := inetIdentifiers fill (setFamily myinfo afInet) (setFamily peerinfo afInet)
    if ret = -1 then some (ret, myinfo, peerinfo)
    else some (ret, setFamily myinfo afInetSdp, setFamily peerinfo afInetSdp)
  else if family = afInet ∨ family = afInet6 then some (inetIdentifiers fill myinfo peerinfo)
  else if family = afUnix then
    (fillUnixIdentifier myinfo).bind fun myinfo =>
      (fillUnixIdentifier peerinfo).map fun peerinfo => (0, myinfo, peerinfo)
  else some (-1, myinfo, peerinfo)

end LzLib.Name
