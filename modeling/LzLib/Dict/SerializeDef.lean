/-
  LzLib.Dict.SerializeDef
  ───────────────────────
  **SERIALIZING AND UNSERIALIZING A DICT** (`dict.c`).

      count | keylen vallen key NUL value | keylen vallen key NUL value | …

  All three words are `int32_t` in network order.  The length loop, the
  encoder and the decoder are three loops of their own in the source and
  stay so here.  An offset into the buffer is an integer: the decoder moves
  its cursor by words it has read, and nothing keeps it from moving back.
-/
import LzLib.Dict.DictDef

namespace LzLib.Dict

open LzLib.Foundation

/-- `DICT_HDR_LEN`. -/
def dictHdrLen : Int := 4

/-- `DICT_DATA_HDR_KEY_LEN`. -/
def dictDataHdrKeyLen : Int := 4

/-- `DICT_DATA_HDR_VAL_LEN`. -/
def dictDataHdrValLen : Int := 4

/-! ## §1. The length. -/

/-- `for (i = 0; i < value->len; i++) len += value->vec[i].iov_len`: the first
`n` pieces of the vector.  The test `iov_len < 0` before each addition never
holds: `iov_len` is unsigned. -/
def addVecLen : Nat → List (IoVec Bytes) → Int → Option Int
  | 0, _, len => some len
  | _ + 1, [], _ => none
  | n + 1, iov :: vec, len => addVecLen n vec (wrap32 (len + iov.iovLen))

/-- The loop of `_dict_serialized_length`. -/
def pairsLength (pairs : Heap Pair) (h : DataHeap) : Nat → Addr → Int → Option Int
  | 0, _, len => some len
  | count + 1, pair, len =>
      if pair = 0 then some eInval
      else match pairs pair with
        | none => none
        | some p =>
            let len := wrap32 (len + (dictDataHdrKeyLen + dictDataHdrValLen))
            let len := wrap32 (len + (p.key.strlen + 1))
            if p.value = 0 then some eInval
            else match h.cells p.value with
              | none => none
              | some value =>
                  match value.vec with
                  | some vec =>
                      match addVecLen value.len.toNat vec len with
                      | none => none
                      | some len => pairsLength pairs h count p.next len
                  | none =>
                      if value.len < 0 then some eInval
                      else pairsLength pairs h count p.next (wrap32 (len + value.len))

/-- `_dict_serialized_length`. -/
def dictSerializedLengthLocked (this : Dict) (h : DataHeap) : Option Int :=
  if this.count < 0 then some eInval
  else pairsLength this.pairs h this.count.toNat this.membersList dictHdrLen

/-- `dict_serialized_length`. -/
def dictSerializedLength (this : Dict) (h : DataHeap) : Option Int :=
  dictSerializedLengthLocked this h

/-! ## §2. The encoder. -/

/-- The body of the loop of `_dict_serialize`: status (-1 for `goto out`) and
everything written so far. -/
def serializePair (h : DataHeap) (p : Pair) (out : Bytes) : Option (Int × Bytes) :=
  if p.value = 0 then some (-1, out ++ putWord (wrap32 p.key.strlen))
  else match h.cells p.value, (BytePtr.mk (CStr.block p.key) 0).read (wrap32 p.key.strlen) with
    | some value, some key =>
        match value.data with
        | none => some (-1, out ++ putWord (wrap32 p.key.strlen) ++ putWord value.len ++ key ++ [0])
        | some data =>
            match data.read value.len with
            | none => none
            | some bytes =>
                some (0, out ++ putWord (wrap32 p.key.strlen) ++ putWord value.len ++ key ++ [0] ++ bytes)
    | _, _ => none

/-- The loop of `_dict_serialize`. -/
def serializePairs (pairs : Heap Pair) (h : DataHeap) : Nat → Addr → Bytes → Option (Int × Bytes)
  | 0, _, out => some (0, out)
  | count + 1, pair, out =>
      if pair = 0 then some (-1, out)
      else match pairs pair with
        | none => none
        | some p =>
            match serializePair h p out with
            | none => none
            | some (ret, out) =>
                if ret ≠ 0 then some (ret, out) else serializePairs pairs h count p.next out

/-- `_dict_serialize`: status and the bytes written to `buf`. -/
def dictSerializeLocked (this : Dict) (h : DataHeap) : Option (Int × Bytes) :=
  if this.count < 0 then some (-1, [])
  else serializePairs this.pairs h this.count.toNat this.membersList (putWord this.count)

/-- `dict_serialize`. -/
def dictSerialize (this : Dict) (h : DataHeap) : Option (Int × Bytes) := dictSerializeLocked this h

/-- `dict_allocate_and_serialize`: status, the buffer `*buf` points to (none for
NULL) and `*length`.  `callocOk` is the outcome of the allocation; writing more
than was allocated has no outcome. -/
def dictAllocateAndSerialize (this : Dict) (h : DataHeap) (callocOk : Bool) :
    Option (Int × Option Bytes × Option Int) :=
  match dictSerializedLengthLocked this h with
  | none => none
  | some len =>
      if len < 0 then some (len, none, none)
      else if !callocOk then some (eNomem, none, none)
      else match dictSerializeLocked this h with
        | none => none
        | some (ret, out) =>
            if len < out.length then none
            else if ret < 0 then some (ret, none, none)
            else some (ret, some (out ++ List.replicate (len.toNat - out.length) 0), some len)

/-! ## §3. The decoder. -/

/-- The word at byte `off` of the buffer. -/
def wordAt (buf : Bytes) (off : Int) : Option Int :=
  if 0 ≤ off then getWord (buf.drop off.toNat) else none

/-- The C string at byte `off` of the buffer, ended by a NUL inside it. -/
def stringAt (buf : Bytes) (off : Int) : Option CStr :=
  if 0 ≤ off then CStr.scan (buf.drop off.toNat) else none

/-- A value put into the dict: the cursor before and after its entry, and the
range of the buffer the value points to. -/
structure Stored where
  before : Int
  data : Int
  len : Int
  after : Int
  deriving DecidableEq

/-- A run of `dict_unserialize`: its return value (none when its behaviour is
undefined), what it did to the dict and the values, and a record of every range
`(off, n)` of the buffer it examined and of every value it stored. -/
structure UnserializeRun where
  ret : Option Int
  this : Dict
  heap : DataHeap
  examined : List (Int × Int)
  stored : List Stored

/-- Record the `n` bytes at `off` as examined. -/
def UnserializeRun.examine (r : UnserializeRun) (off n : Int) : UnserializeRun :=
  { r with examined := r.examined ++ [(off, n)] }

/-- `value = get_new_data (); value->len = vallen; value->data = buf; value->is_static = 1;` -/
def staticValue (buf : Bytes) (off vallen : Int) : Data :=
  { Data.zero with len := vallen, data := some ⟨buf, off⟩, isStatic := true }

/-- The loop of `dict_unserialize`, `count` entries to go, `off` the offset of
`buf`.  The key is scanned for its NUL by `dict_set`; a scan that finds none
examines the byte after the buffer. -/
def unserializePairs (buf : Bytes) (size : Int) : Nat → Int → UnserializeRun → UnserializeRun
  | 0, _, r => { r with ret := some 0 }
  | count + 1, off, r =>
      if off + dictDataHdrKeyLen > size then { r with ret := some (-1) }
      else
        let r := r.examine off 4
        match wordAt buf off with
        | none => { r with ret := none }
        | some keylen =>
            if off + 4 + dictDataHdrValLen > size then { r with ret := some (-1) }
            else
              let r := r.examine (off + 4) 4
              match wordAt buf (off + 4) with
              | none => { r with ret := none }
              | some vallen =>
                  if off + 8 + keylen > size then { r with ret := some (-1) }
                  else
                    let data := off + 8 + (keylen + 1)
                    if data + vallen > size then { r with ret := some (-1) }
                    else
                      let (heap, value) := r.heap.alloc (staticValue buf data vallen)
                      match stringAt buf (off + 8) with
                      | none => { r.examine (off + 8) (size - (off + 8) + 1) with ret := none }
                      | some key =>
                          let r := r.examine (off + 8) (key.strlen + 1)
                          match dictSet r.this heap (some key) value with
                          | none => { r with ret := none }
                          | some (this, heap, _) =>
                              unserializePairs buf size count (data + vallen)
                                { r with
                                  this := this, heap := heap,
                                  stored := r.stored ++
                                    [{ before := off, data := data, len := vallen,
                                       after := data + vallen }] }

/-- `dict_unserialize (orig_buf, size, fill)`, the three pointers not NULL and
`size` the length of the buffer. -/
def dictUnserialize (origBuf : Bytes) (fill : Dict) (h : DataHeap) : UnserializeRun :=
  let size : Int := origBuf.length
  let r : UnserializeRun := { ret := none, this := fill, heap := h, examined := [], stored := [] }
  if size = 0 then { r with ret := some (-1) }
  else if dictHdrLen > size then { r with ret := some (-1) }
  else
    let r := r.examine 0 4
    match wordAt origBuf 0 with
    | none => { r with ret := none }
    | some count =>
        if count < 0 then { r with ret := some (-1) }
        else
          -- count will be set by the dict_set's below
          let r := { r with this := { r.this with count := 0 } }
          unserializePairs origBuf size count.toNat dictHdrLen r

end LzLib.Dict
