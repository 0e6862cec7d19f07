/-
  LzLib.Dict.OldFormatDef
  ───────────────────────
  **THE OLD TEXT FORMAT OF A DICT** (`dict.c`).

      count \n | keylen : vallen \n key NUL value | keylen : vallen \n …

  The numbers are hexadecimal, eight digits at least; the reader skips 9 and
  18 bytes whatever it has read.  The length, the writer into one buffer and
  the writer into a vector are loops of their own, two of which count pairs
  while the others follow the list to its end.

  `sprintf` writes a NUL behind its text.  A write that leaves its buffer has
  no outcome, and neither has `sscanf` on bytes that no NUL ends.  The buffers
  that a caller puts into the vector lie apart from each other.
-/
import LzLib.Dict.SerializeDef
import LzLib.Foundation.Numerals

namespace LzLib.Dict

open LzLib.Foundation

/-- `*p`. -/
def derefPair (pairs : Heap Pair) (p : Addr) : Option Pair := if p = 0 then none else pairs p

/-- `*value`. -/
def derefData (h : DataHeap) (value : Addr) : Option Data := if value = 0 then none else h.cells value

/-- `%08"PRIx64"` of a number that is converted to 64 bits. -/
def hexField (n : Int) : Bytes := hex8 (n % 2 ^ 64).toNat

/-- `"%08"PRIx64"\n"`. -/
def countText (count : Int) : Bytes := hexField count ++ [10]

/-- `"%08"PRIx64":%08"PRIx64"\n"`. -/
def pairText (keylen vallen : Int) : Bytes := hexField keylen ++ 58 :: (hexField vallen ++ [10])

/-! ## §1. The length. -/

/-- What a value adds to the length. -/
def addValueLen (value : Data) (len : Int) : Option Int :=
  match value.vec with
  | some vec => addVecLen value.len.toNat vec len
  | none => some (wrap32 (len + value.len))

/-- The loop of `dict_serialized_length_old`. -/
def lengthOldPairs (pairs : Heap Pair) (h : DataHeap) : Nat → Addr → Int → Option Int
  | 0, _, len => some len
  | count + 1, pair, len => do
      let p ← derefPair pairs pair
      let len := wrap32 (len + 18)
      let len := wrap32 (len + (p.key.strlen + 1))
      let value ← derefData h p.value
      let len ← addValueLen value len
      lengthOldPairs pairs h count p.next len

/-- `dict_serialized_length_old`; a negative count leads off the list. -/
def dictSerializedLengthOld (this : Dict) (h : DataHeap) : Option Int :=
  if this.count < 0 then none else lengthOldPairs this.pairs h this.count.toNat this.membersList 9

/-! ## §2. Writing into a buffer. -/

/-- `memcpy (_, value->data, value->len)`: the bytes copied. -/
def Data.copied (value : Data) : Option Bytes :=
  match value.data with
  | some p => p.read value.len
  | none => if value.len = 0 then some [] else none

/-- The loop of `dict_serialize_old`, with `buf` at `off`. -/
def serializeOldPairs (pairs : Heap Pair) (h : DataHeap) : Nat → Addr → Nat → Bytes → Option Bytes
  | 0, _, _, buf => some buf
  | count + 1, pair, off, buf => do
      let p ← derefPair pairs pair
      let value ← derefData h p.value
      let keylen := p.key.strlen + 1
      let buf ← overwrite buf off (pairText keylen value.len ++ [0])
      let off := off + 18
      let buf ← overwrite buf off (CStr.block p.key)
      let off := off + keylen
      let bytes ← value.copied
      let buf ← overwrite buf off bytes
      serializeOldPairs pairs h count p.next (off + bytes.length) buf

/-- `dict_serialize_old`: status, and what `buf` holds. -/
def dictSerializeOld (this : Dict) (h : DataHeap) (buf : Bytes) : Option (Int × Bytes) := do
  let buf ← overwrite buf 0 (countText this.count ++ [0])
  if this.count < 0 then none
  else
    let buf ← serializeOldPairs this.pairs h this.count.toNat this.membersList 9 buf
    return (0, buf)

/-! ## §3. Reading. -/

/-- `sscanf (buf, "%"SCNx64"\n", &count)`: what it returns, and `count` if it is
set. -/
def sscanfCount (s : CStr) : Int × Option Nat :=
  match scanfHex s.chars with
  | .ended => (-1, none)
  | .mismatch => (0, none)
  | .number n _ => (1, some n)

/-- `sscanf (buf, "%"SCNx64":%"SCNx64"\n", &key_len, &value_len)`, if it returns 2. -/
def sscanfLens (s : CStr) : Option (Nat × Nat) :=
  match scanfHex s.chars with
  | .number keyLen (c :: rest) =>
      if c = 58 then
        match scanfHex rest with
        | .number valueLen _ => some (keyLen, valueLen)
        | _ => none
      else none
  | _ => none

/-- The loop of `dict_unserialize_old`, `count` entries to go, with `buf` at
`off`.  `none` in place of the dict is the NULL of `err`. -/
def unserializeOldPairs (buf : Bytes) : Nat → Int → Dict → DataHeap → Option (Option Dict × DataHeap)
  | 0, _, fill, h => some (some fill, h)
  | count + 1, off, fill, h => do
      let s ← stringAt buf off
      match sscanfLens s with
      | none => return (none, h)
      | some (keyLen, valueLen) =>
          let off := off + 18
          let data := off + keyLen
          let (h, value) := h.alloc (staticValue buf data (wrap32 valueLen))
          let key ← stringAt buf off
          let (fill, h, _) ← dictSet fill h (some key) value
          unserializeOldPairs buf count (data + valueLen) fill h

/-- `dict_unserialize_old (buf, _, fill)`, the three pointers not NULL: the dict
that is returned, and the values.  On `err` the dict is freed. -/
def dictUnserializeOld (buf : Bytes) (fill : Dict) (h : DataHeap) : Option (Option Dict × DataHeap) := do
  let s ← stringAt buf 0
  let scanned := sscanfCount s
  let fill := { fill with count := 0 }
  if scanned.1 = 0 then return (none, h)
  else
    -- at the end of the text `count` has not been set
    let count ← scanned.2
    if count = 0 then return (none, h) else unserializeOldPairs buf count 9 fill h

/-! ## §4. The vector. -/

/-- `struct iovec` in the array of the caller; `iov_base` may be NULL. -/
structure IovEntry where
  iovBase : Option BytePtr
  iovLen : Nat
  deriving DecidableEq

/-- Writing through a pointer. -/
def BytePtr.write (p : BytePtr) (bs : Bytes) : Option BytePtr :=
  if 0 ≤ p.off then (overwrite p.block p.off.toNat bs).map fun block => { p with block := block } else none

/-- The loop of `dict_iovec_len`, at most `fuel` pairs. -/
def iovecLenPairs (pairs : Heap Pair) (h : DataHeap) : Nat → Addr → Int → Option Int
  | 0, pair, len => if pair = 0 then some len else none
  | fuel + 1, pair, len =>
      if pair = 0 then some len
      else do
        let p ← pairs pair
        let len := wrap32 (len + 1)
        let len := wrap32 (len + 1)
        let value ← derefData h p.value
        let len := if value.vec.isSome then wrap32 (len + value.len) else wrap32 (len + 1)
        iovecLenPairs pairs h fuel p.next len

/-- `dict_iovec_len`. -/
def dictIovecLen (this : Dict) (h : DataHeap) : Option Int :=
  iovecLenPairs this.pairs h this.brk this.membersList 1

/-- `vec[i] = …`. -/
def setEntry (vec : List IovEntry) (i : Int) (e : IovEntry) : Option (List IovEntry) :=
  if 0 ≤ i ∧ i < vec.length then some (vec.set i.toNat e) else none

/-- `vec[i].iov_len = len; if (vec[i].iov_base) sprintf (vec[i].iov_base, text);` -/
def setHeader (vec : List IovEntry) (i : Int) (len : Nat) (text : Bytes) : Option (List IovEntry) :=
  if 0 ≤ i then do
    let e ← vec[i.toNat]?
    match e.iovBase with
    | none => setEntry vec i { e with iovLen := len }
    | some p =>
        let p ← p.write (text ++ [0])
        setEntry vec i { iovBase := some p, iovLen := len }
  else none

/-- `for (i = 0; i < value->len; i++) vallen += value->vec[i].iov_len`. -/
def addVallen : Nat → List (IoVec Bytes) → Int → Option Int
  | 0, _, vallen => some vallen
  | _ + 1, [], _ => none
  | n + 1, iov :: vec, vallen => addVallen n vec (Int.bmod (vallen + iov.iovLen) (2 ^ 64))

/-- `vallen` of a value. -/
def vallenOf (value : Data) : Option Int :=
  match value.vec with
  | some src => addVallen value.len.toNat src 0
  | none => some value.len

/-- A piece of a value's vector as an entry. -/
def iovEntry (iov : IoVec Bytes) : IovEntry := ⟨some ⟨iov.base, iov.off⟩, iov.iovLen⟩

/-- `for (k = 0; k < value->len; k++) { vec[i] = value->vec[k]; i++; }` -/
def copyVec : Nat → List (IoVec Bytes) → Int → List IovEntry → Option (Int × List IovEntry)
  | 0, _, i, vec => some (i, vec)
  | _ + 1, [], _, _ => none
  | n + 1, iov :: src, i, vec => do
      let vec ← setEntry vec i (iovEntry iov)
      copyVec n src (wrap32 (i + 1)) vec

/-- The entries of a value, from `vec[i]` on. -/
def setValue (value : Data) (i : Int) (vec : List IovEntry) : Option (Int × List IovEntry) :=
  match value.vec with
  | some src => copyVec value.len.toNat src i vec
  | none => do
      let vec ← setEntry vec i ⟨value.data, (value.len % 2 ^ 64).toNat⟩
      return (wrap32 (i + 1), vec)

/-- The loop of `dict_to_iovec`, at most `fuel` pairs. -/
def toIovecPairs (pairs : Heap Pair) (h : DataHeap) : Nat → Addr → Int → List IovEntry → Option (List IovEntry)
  | 0, pair, _, vec => if pair = 0 then some vec else none
  | fuel + 1, pair, i, vec =>
      if pair = 0 then some vec
      else do
        let p ← pairs pair
        let keylen := p.key.strlen + 1
        let value ← derefData h p.value
        let vallen ← vallenOf value
        let vec ← setHeader vec i 18 (pairText keylen vallen)
        let i := wrap32 (i + 1)
        let vec ← setEntry vec i ⟨some ⟨CStr.block p.key, 0⟩, keylen⟩
        let i := wrap32 (i + 1)
        let (i, vec) ← setValue value i vec
        toIovecPairs pairs h fuel p.next i vec

/-- `dict_to_iovec`: status, and the array; its argument `count` is not read. -/
def dictToIovec (this : Dict) (h : DataHeap) (vec : List IovEntry) : Option (Int × List IovEntry) := do
  let vec ← setHeader vec 0 9 (countText this.count)
  let vec ← toIovecPairs this.pairs h this.brk this.membersList 1 vec
  return (0, vec)

end LzLib.Dict
