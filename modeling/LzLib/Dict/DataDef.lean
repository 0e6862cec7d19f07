/-
  LzLib.Dict.DataDef
  ──────────────────
  **THE VALUES OF A DICT** (`data_t`, `dict.c`).

  A `data_t` is a reference-counted cell.  Its payload is a `char *` into
  memory that none of the functions here writes, so the pointer carries the
  block it points into; a length that does not fit the block is a read
  outside it (`none`).  Freed cells are gone from the heap: a function that
  still follows a pointer to one has no outcome, and neither has one that
  counts beyond the range of an `int32_t`.
-/
import LzLib.Foundation.Gather
import LzLib.Foundation.NullLists

namespace LzLib.Dict

open LzLib.Foundation

/-! ## §1. Payload pointers. -/

/-- A `char *`: byte `off` of a block of memory. -/
structure BytePtr where
  block : Bytes
  off : Int
  deriving DecidableEq

/-- The `n` bytes at `p`; `none` when they are not all inside the block. -/
def BytePtr.read (p : BytePtr) (n : Int) : Option Bytes :=
  if 0 ≤ n ∧ 0 ≤ p.off ∧ p.off + n ≤ p.block.length then
    some ((p.block.drop p.off.toNat).take n.toNat)
  else none

/-- What `FREE` leaves in a pointer: nothing can be read through it. -/
def BytePtr.dangling : BytePtr := ⟨[], 0⟩

/-! ## §2. `data_t` and its heap. -/

/-- `struct _data`. -/
structure Data where
  isStatic : Bool
  isConst : Bool
  len : Int
  vec : Option (List (IoVec Bytes))
  data : Option BytePtr
  refcount : Int
  deriving DecidableEq

/-- The zeroed cell of `CALLOC (1, sizeof (data_t))`. -/
def Data.zero : Data :=
  { isStatic := false, isConst := false, len := 0, vec := none, data := none, refcount := 0 }

/-- All live `data_t`; addresses from `brk` on were never handed out. -/
structure DataHeap where
  cells : Heap Data
  brk : Addr

/-- Overwrite the cell at `a`. -/
def DataHeap.set (h : DataHeap) (a : Addr) (d : Data) : DataHeap :=
  { h with cells := Function.update h.cells a (some d) }

/-- `free` the cell at `a`. -/
def DataHeap.free (h : DataHeap) (a : Addr) : DataHeap :=
  { h with cells := Function.update h.cells a none }

/-- A new cell holding `d`, and its address. -/
def DataHeap.alloc (h : DataHeap) (d : Data) : DataHeap × Addr :=
  ({ cells := Function.update h.cells h.brk (some d), brk := h.brk + 1 }, h.brk)

/-! ## §3. Reference counting. -/

/-- What `data_destroy` leaves of a cell: the payload is freed unless static, and
`len` is poisoned. -/
def Data.scrapped (data : Data) : Data :=
  if data.isStatic then { data with len := wrap32 0xbabababa }
  else
    { data with
      data := data.data.map fun _ => BytePtr.dangling, vec := data.vec.map fun _ => [],
      len := wrap32 0xbabababa }

/-- `data_destroy`; a const cell is scrapped but not freed. -/
def dataDestroy (h : DataHeap) (this : Addr) : Option DataHeap :=
  if this = 0 then some h
  else match h.cells this with
    | none => none
    | some d => some (if d.isConst then h.set this d.scrapped else h.free this)

/-- `data_unref`. -/
def dataUnref (h : DataHeap) (this : Addr) : Option DataHeap :=
  if this = 0 then some h
  else match h.cells this with
    | none => none
    | some d =>
        (decInt d.refcount).bind fun ref =>
          let h := h.set this { d with refcount := ref }
          if ref = 0 then dataDestroy h this else some h

/-- `data_ref`. -/
def dataRef (h : DataHeap) (this : Addr) : Option (DataHeap × Addr) :=
  if this = 0 then some (h, 0)
  else match h.cells this with
    | none => none
    | some d => (incInt d.refcount).map fun ref => (h.set this { d with refcount := ref }, this)

/-! ## §4. The constructors behind the `dict_set_*` wrappers.

Each returns the cell it fills in, `none` for the NULL it returns on a NULL
argument.  `ptr` is the argument pointer, `none` for NULL. -/

/-- The block of a C string, its NUL included. -/
def CStr.block (s : CStr) : Bytes := s.chars ++ [0]

/-- `asprintf (&data->data, "%d", value); data->len = strlen (data->data) + 1`:
the decimal text of an integer. -/
def decimalText (value : Int) : Bytes := (toString value).toUTF8.toList

/-- The shared body of the `data_from_<integer>` functions and `data_from_double`:
the text printed for the value becomes the payload. -/
def dataFromText (text : Bytes) : Data :=
  { Data.zero with data := some ⟨text ++ [0], 0⟩, len := wrap32 (text.length + 1) }

/-- `data_from_int8`, `data_from_int16`, `data_from_int32`, `data_from_int64`:
all four print the value in decimal. -/
def dataFromInt (value : Int) : Data := dataFromText (decimalText value)

/-- `data_from_uint16`, `data_from_uint32`, `data_from_uint64`. -/
def dataFromUint (value : Nat) : Data := dataFromText (decimalText value)

/-- `data_from_ptr`. -/
def dataFromPtr (ptr : Option BytePtr) : Option Data :=
  ptr.map fun p => { Data.zero with data := some p }

/-- `data_from_static_ptr`: NULL is a valid value here. -/
def dataFromStaticPtr (ptr : Option BytePtr) : Data :=
  { Data.zero with isStatic := true, data := ptr }

/-- `data_from_dynptr`. -/
def dataFromDynptr (ptr : Option BytePtr) (len : Int) : Data :=
  { Data.zero with len := len, data := ptr }

/-- `str_to_data`. -/
def strToData (value : Option CStr) : Option Data :=
  value.map fun s =>
    { Data.zero with len := wrap32 (s.strlen + 1), data := some ⟨CStr.block s, 0⟩, isStatic := true }

/-- `data_from_dynstr`. -/
def dataFromDynstr (value : Option CStr) : Option Data :=
  value.map fun s =>
    { Data.zero with len := wrap32 (s.strlen + 1), data := some ⟨CStr.block s, 0⟩ }

/-- `bin_to_data`. -/
def binToData (ptr : Option BytePtr) (len : Int) : Option Data :=
  ptr.map fun p => { Data.zero with isStatic := true, len := len, data := some p }

end LzLib.Dict
