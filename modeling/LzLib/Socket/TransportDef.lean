/-
  LzLib.Socket.TransportDef
  ─────────────────────────
  **THE SOCKET TRANSPORT: ITS STATE.**

  `Transport` is `socket_private_t` together with what the functions of
  `socket.c` act on outside it: the event pool, the bytes the kernel has
  accepted on the connection, the bytes the peer sends that are not read
  yet, and a log of what becomes of the buffers the transport was given or
  has allocated.

  A pending vector is the list of the pieces from `pending_vector` on; the
  arrays it points into are only ever read through it.
-/
import LzLib.Event.EpollDef
import LzLib.Socket.RwvDef

namespace LzLib.Socket

open LzLib.Foundation
open LzLib.Event

/-! ## §1. Outgoing. -/

/-- `MAX_IOVEC`. -/
def maxIovec : Nat := 16

/-- `struct socket_header` as it lies in memory. -/
def socketHeader (size1 size2 : Int) : Bytes :=
  [0x3a, 0x4f, 0] ++ putWord size1 ++ putWord size2 ++ [42]

@[simp] theorem socketHeader_length (size1 size2 : Int) : (socketHeader size1 size2).length = 12 := rfl

/-- `struct ioq`: one message on its way out. -/
structure Ioq where
  pendingVector : List (IoVec Bytes)
  pendingCount : Int
  buf : Addr
  iobref : Option Addr
  deriving DecidableEq

/-! ## §2. Incoming. -/

/-- `socket_proto_state_t`. -/
inductive ProtoState where
  | nada
  | headerComing
  | headerCame
  | dataComing
  | dataCame
  | complete
  deriving DecidableEq

/-- What a piece of the incoming vector points to. -/
inductive Dest where
  | header
  | hdr
  | buf
  deriving DecidableEq

/-- A block of memory; `none` is a byte never written. -/
structure Block where
  addr : Addr
  mem : List (Option UInt8)
  deriving DecidableEq

/-- The part of `priv->incoming` that bytes are read into: the header, the
block `hdr_p`, and the page of `iobuf` behind `buf_p`. -/
structure Landing where
  header : Bytes
  hdrP : Option Block
  iobuf : Option Block
  deriving DecidableEq

/-- `priv->incoming`. -/
structure Incoming where
  state : ProtoState
  mem : Landing
  hdrlen : Nat
  buflen : Nat
  pendingVector : List (IoVec Dest)
  pendingCount : Int
  deriving DecidableEq

/-- `memset (&priv->incoming, 0, sizeof (priv->incoming))`. -/
def Incoming.zero : Incoming where
  state := .nada
  mem := ⟨List.replicate 12 0, none, none⟩
  hdrlen := 0
  buflen := 0
  pendingVector := []
  pendingCount := 0

/-! ## §3. The transport. -/

/-- What happens to the memory a transport handles. -/
inductive MemEvent where
  | refIobref (a : Addr)
  | unrefIobref (a : Addr)
  | freeBuf (a : Addr)
  | freeHdr (a : Addr)
  | unrefIobuf (a : Addr)
  deriving DecidableEq

structure Transport where
  sock : Int
  idx : Int
  /-- 255, which is `-1` in an `unsigned char`: not connected; 0: in progress; 1: connected. -/
  connected : UInt8
  ioq : List Ioq
  incoming : Incoming
  pool : EventPool
  /-- The bytes the kernel has accepted. -/
  sent : Bytes
  /-- The bytes from the peer that are not read yet. -/
  inbound : Bytes
  log : List MemEvent
  deriving DecidableEq

/-- `priv->connected = -1`. -/
def notConnected : UInt8 := 255

/-- What `socket_init` leaves, on the descriptor `sock`. -/
def Transport.initial (pool : EventPool) (sock idx : Int) (connected : UInt8) : Transport where
  sock := sock
  idx := idx
  connected := connected
  ioq := []
  incoming := .zero
  pool := pool
  sent := []
  inbound := []
  log := []

/-- The end of `socket_server_event_handler`: a transport for an accepted
connection. -/
def accepted (pool : EventPool) (newSock : Int) (handler data : Addr) (room refused : Bool) :
    Option Transport :=
  (eventRegister pool newSock handler data 1 0 room refused).map fun r =>
    .initial r.1 newSock r.2 1

/-- The end of `socket_connect`: a transport whose connection is in progress. -/
def connecting (pool : EventPool) (sock : Int) (handler data : Addr) (room refused : Bool) :
    Option Transport :=
  (eventRegister pool sock handler data 1 1 room refused).map fun r =>
    .initial r.1 sock r.2 0

/-- A connection accepted on descriptor 5 of a new pool. -/
def acceptedFive : Transport :=
  .initial (eventAppend (eventPoolNew 16) (newSlot 5 1 2 1 0) false).1 5 0 1

example : accepted (eventPoolNew 16) 5 1 2 true false = some acceptedFive := by decide

/-- `priv->idx = event_select_on (event_pool, priv->sock, priv->idx, -1, poll_out)`. -/
def Transport.selectOut (t : Transport) (pollOut : Int) (refused : Bool) : Option Transport :=
  (eventSelectOn t.pool t.sock t.idx (-1) pollOut refused).map fun r =>
    { t with pool := r.1, idx := r.2 }

end LzLib.Socket
