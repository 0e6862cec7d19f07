/-
  LzLib.CommonUtils.FileChecksumDef
  ─────────────────────────────────
  `compute_checksum` and `get_checksum_for_file` (`common-utils.c`).

  `*checksum` is its four bytes, which `checksum_buf` points at; a pointer to
  bytes is the function of the offset that it reads.  The file is what its
  `read` calls return, one after another: `some chunk`, where a chunk of no
  bytes is the end of the file, or `none` for -1.  Behind the list the file is
  at its end.
-/
import LzLib.Foundation.Words
import Mathlib.Data.Fin.VecNotation

namespace LzLib.CommonUtils

open LzLib.Foundation

/-! ## §1. `compute_checksum`. -/

/-- The four bytes of `*checksum`. -/
abbrev Checksum := Fin 4 → UInt8

/-- The bytes that take the place of a checksum of zero. -/
def checksumSeed : Checksum := ![0xba, 0xbe, 0xb0, 0x0b]

/-- `checksum_buf[k] ^= x`. -/
def xorAt (checksumBuf : Checksum) (k : Nat) (x : UInt8) : Checksum :=
  fun j => if j.val = k then checksumBuf j ^^^ x else checksumBuf j

/-- The body of the first loop. -/
def stride (buf : Nat → UInt8) (checksumBuf : Checksum) (ret : Nat) : Checksum :=
  let checksumBuf := xorAt checksumBuf 0 (buf ret)
  let checksumBuf := xorAt checksumBuf 1 (buf (ret + 1) <<< 1)
  let checksumBuf := xorAt checksumBuf 2 (buf (ret + 2) <<< 2)
  xorAt checksumBuf 3 (buf (ret + 3) <<< 3)

/-- `compute_checksum (buf, size, checksum)`, for a size of four or more. -/
def computeChecksum (buf : Nat → UInt8) (size : Nat) (checksum : Checksum) : Checksum :=
  let checksumBuf := if ∀ k, checksum k = 0 then checksumSeed else checksum
  -- ret = 0, 4, 8, … while ret < size - 4
  let checksumBuf := (List.range ((size - 4 + 3) / 4)).foldl (fun c t => stride buf c (4 * t)) checksumBuf
  -- ret = 0, … while ret <= size % 4
  (List.range (size % 4 + 1)).foldl (fun c ret => xorAt c ret (buf (size - 4 + ret) <<< UInt8.ofNat ret)) checksumBuf

/-! ## §2. `get_checksum_for_file`. -/

/-- `LZ_CHECKSUM_BUF_SIZE`. -/
def checksumBufSize : Nat := 1024

/-- What `read` puts into the buffer; behind it the buffer keeps what it held. -/
def readInto (buf : Nat → UInt8) (chunk : Bytes) : Nat → UInt8 := fun i => chunk.getD i (buf i)

/-- The loop, and what the last `read` returned. -/
def checksumLoop : (Nat → UInt8) → List (Option Bytes) → Checksum → Int × Checksum
  | _, [], checksum => (0, checksum)
  | _, none :: _, checksum => (-1, checksum)
  | buf, some chunk :: reads, checksum =>
      if chunk.length = 0 then (0, checksum)
      else
        let buf := readInto buf chunk
        checksumLoop buf reads (computeChecksum buf checksumBufSize checksum)

/-- `get_checksum_for_file`: the buffer is zero at first. -/
def getChecksumForFile (reads : List (Option Bytes)) (checksum : Checksum) : Int × Checksum :=
  checksumLoop (fun _ => 0) reads checksum

/-- The chunks, of 1 to 1024 bytes each, in which `read` may deliver the content. -/
def Delivers (reads : List (Option Bytes)) (content : Bytes) : Prop :=
  ∃ chunks : List Bytes, reads = chunks.map some ∧ chunks.flatten = content
    ∧ ∀ chunk ∈ chunks, 1 ≤ chunk.length ∧ chunk.length ≤ checksumBufSize

end LzLib.CommonUtils
