/-
  LzLib.Socket.RwvDef
  ───────────────────
  **SCATTER/GATHER READS AND WRITES, AS `socket.c` DOES THEM.**

  `socketRwv` is the loop both directions share.  What the system calls
  answer is a script, one entry a call: the loop consumes it, and an
  exhausted script answers `EAGAIN` (no more can be moved now).  A call with
  a negative count is refused (`EINVAL`) whatever the script says.

  `opvector` is the list of the pieces from the pointer on, so that reading
  `opvector[0]` of an empty list has no outcome.
-/
import LzLib.Foundation.Gather

namespace LzLib.Socket

open LzLib.Foundation

/-! ## §1. The system calls. -/

/-- What `readv` or `writev` reports: a count, or `-1` with an `errno`. -/
inductive SysRet where
  | moved (n : Nat)
  | again
  | intr
  | error
  deriving DecidableEq

/-- `MAX_RW_COUNT`: no call moves more, so that the count fits an `int`. -/
def maxRwCount : Nat := 0x7ffff000

/-- What the kernel does at one `writev`. -/
inductive WriteEvent where
  /-- It accepts up to `n` bytes. -/
  | take (n : Nat)
  | again
  | intr
  | fail
  deriving DecidableEq

/-- `writev` on the connection; the bytes accepted so far are `sent`. -/
def writev : WriteEvent → Bytes → List (IoVec Bytes) → Option (SysRet × Bytes)
  | .take n, sent, v =>
      let m := min n (min (total v) maxRwCount)
      some (.moved m, sent ++ (gather v).take m)
  | .again, sent, _ => some (.again, sent)
  | .intr, sent, _ => some (.intr, sent)
  | .fail, sent, _ => some (.error, sent)

/-- What the kernel does at one `readv`. -/
inductive ReadEvent where
  /-- It delivers up to `n` bytes of the stream. -/
  | data (n : Nat)
  | again
  | intr
  /-- The peer has closed. -/
  | eof
  | fail
  deriving DecidableEq

/-- The receiving side: the stream not yet read, and the memory read into. -/
structure ReadSide (μ : Type) where
  inbound : Bytes
  mem : μ

/-- `readv` on the connection.  No byte of the stream there means `EAGAIN`. -/
def readv {μ β : Type} (M : Store μ β) :
    ReadEvent → ReadSide μ → List (IoVec β) → Option (SysRet × ReadSide μ)
  | .data n, s, v =>
      let m := min n (min (total v) (min maxRwCount s.inbound.length))
      if m = 0 ∧ 0 < total v then some (.again, s)
      else (scatter M v (s.inbound.take m) s.mem).map fun mem =>
        (.moved m, ⟨s.inbound.drop m, mem⟩)
  | .again, s, _ => some (.again, s)
  | .intr, s, _ => some (.intr, s)
  | .eof, s, _ => some (.moved 0, s)
  | .fail, s, _ => some (.error, s)

/-! ## §2. Moving on in the vector. -/

section Loop

variable {β : Type}

/-- `while (opcount && !opvector[0].iov_len) { opvector++; opcount--; }` -/
def dropEmpty : List (IoVec β) → Int → Option (List (IoVec β) × Int)
  | [], opcount => if opcount = 0 then some ([], 0) else none
  | iov :: rest, opcount =>
      if opcount ≠ 0 ∧ iov.iovLen = 0 then dropEmpty rest (opcount - 1)
      else some (iov :: rest, opcount)

/-- `while (moved < ret) { ... }`; `fuel` bounds the number of rounds. -/
def moveOn : Nat → Nat → Nat → List (IoVec β) → Int → Option (List (IoVec β) × Int)
  | 0, _, _, _, _ => none
  | fuel + 1, ret, moved, opvector, opcount =>
      if moved < ret then
        match opvector with
        | [] => none
        | iov :: rest =>
            if iov.iovLen ≤ ret - moved then
              (dropEmpty rest (opcount - 1)).bind fun p =>
                moveOn fuel ret (moved + iov.iovLen) p.1 p.2
            else
              (dropEmpty (iov.advance (ret - moved) :: rest) opcount).bind fun p =>
                moveOn fuel ret ret p.1 p.2
      else some (opvector, opcount)

/-! ## §3. `__socket_rwv`. -/

/-- What a call leaves: the connection and memory, `*pending_vector` and
`*pending_count`, which is also the value returned. -/
structure Rwv (σ β : Type) where
  state : σ
  pendingVector : List (IoVec β)
  pendingCount : Int

variable {ε σ : Type}

/-- `__socket_rwv`: `write` selects the direction, `sys` is the system call. -/
def socketRwv (write : Bool) (sys : ε → σ → List (IoVec β) → Option (SysRet × σ)) :
    List ε → σ → List (IoVec β) → Int → Option (Rwv σ β)
  | [], s, opvector, opcount =>
      -- out of script: `EAGAIN`, or `EINVAL` for a negative count
      some ⟨s, opvector, if opcount < 0 then -1 else opcount⟩
  | ev :: evs, s, opvector, opcount =>
      if opcount = 0 then some ⟨s, opvector, 0⟩
      else if opcount < 0 then some ⟨s, opvector, -1⟩
      else
        (sys ev s opvector).bind fun r =>
          match r.1 with
          | .again => some ⟨r.2, opvector, opcount⟩
          | .intr => socketRwv write sys evs r.2 opvector opcount
          | .error => some ⟨r.2, opvector, -1⟩
          | .moved n =>
              if n = 0 then
                -- a write that takes nothing is done for now; a read of nothing is the end
                some ⟨r.2, opvector, if write then opcount else -1⟩
              else
                (moveOn (opvector.length + 1) n 0 opvector opcount).bind fun p =>
                  socketRwv write sys evs r.2 p.1 p.2

end Loop

/-- `__socket_writev`. -/
def socketWritev (script : List WriteEvent) (sent : Bytes) (vector : List (IoVec Bytes))
    (count : Int) : Option (Rwv Bytes Bytes) :=
  socketRwv true writev script sent vector count

/-- `__socket_readv`. -/
def socketReadv {μ β : Type} (M : Store μ β) (script : List ReadEvent) (s : ReadSide μ)
    (vector : List (IoVec β)) (count : Int) : Option (Rwv (ReadSide μ) β) :=
  socketRwv false (readv M) script s vector count

end LzLib.Socket
