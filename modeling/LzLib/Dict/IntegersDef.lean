/-
  LzLib.Dict.IntegersDef
  ──────────────────────
  **THE INTEGER READERS OF A DICT** (`dict.c`).

  An integer is stored as its decimal text.  The legacy readers `data_to_*`
  and the checked ones `_data_to_*`, which the `dict_get_*` wrappers use, hand
  the text to one of the `strto*` functions with a free base and convert the
  result to their type.  `long` has 64 bits.

  The readers differ in the parser alone, so each is one of two bodies with
  its parser and its type.
-/
import LzLib.Dict.DictDef
import LzLib.Foundation.Numerals

namespace LzLib.Dict

open LzLib.Foundation

/-! ## §1. The types. -/

inductive IntType
  | int8
  | int16
  | int32
  | int64
  | uint16
  | uint32
  | uint64
  deriving DecidableEq

def IntType.signed : IntType → Bool
  | .int8 | .int16 | .int32 | .int64 => true
  | .uint16 | .uint32 | .uint64 => false

/-- The number of values of the type. -/
def IntType.size : IntType → Nat
  | .int8 => 2 ^ 8
  | .int16 | .uint16 => 2 ^ 16
  | .int32 | .uint32 => 2 ^ 32
  | .int64 | .uint64 => 2 ^ 64

/-- The values of the type. -/
def IntType.InRange (T : IntType) (z : Int) : Prop :=
  if T.signed then -((T.size / 2 : Nat) : Int) ≤ z ∧ z < (T.size / 2 : Nat) else 0 ≤ z ∧ z < T.size

instance (T : IntType) (z : Int) : Decidable (T.InRange z) := inferInstanceAs (Decidable (ite _ _ _))

/-- The conversion to the type. -/
def IntType.narrow (T : IntType) (z : Int) : Int :=
  if T.signed then z.bmod T.size else z % T.size

/-! ## §2. Reading a value. -/

/-- `str`: the payload with a NUL behind it, as a C string. -/
def Data.str (data : Data) : Option Bytes :=
  match data.data with
  | some p => (p.read data.len).map fun bs => bs.takeWhile fun c => c ≠ 0
  | none => if data.len = 0 then some [] else none

/-- The shared body of the `data_to_*` readers; `none` for a NULL value. -/
def readLegacy (strto : Nat → Bytes → Parsed) (T : IntType) : Option Data → Option Int
  | none => some (T.narrow (-1))
  | some data => data.str.map fun str => T.narrow (strto 0 str).value

/-- `data_to_int64`. -/
def dataToInt64 := readLegacy strtoull .int64

/-- `data_to_int32`. -/
def dataToInt32 := readLegacy strtoul .int32

/-- `data_to_int16`. -/
def dataToInt16 := readLegacy strtol .int16

/-- `data_to_int8`. -/
def dataToInt8 := readLegacy strtol .int8

/-- `data_to_uint64`. -/
def dataToUint64 := readLegacy strtoll .uint64

/-- `data_to_uint32`. -/
def dataToUint32 := readLegacy strtol .uint32

/-- `data_to_uint16`. -/
def dataToUint16 := readLegacy strtol .uint16

/-- `-ERANGE`. -/
def eRange : Int := -34

/-- The shared body of the `_data_to_*` readers: the status, and what `*val` is
set to. -/
def readChecked (strto : Nat → Bytes → Parsed) (T : IntType) : Option Data → Option (Int × Option Int)
  | none => some (eInval, none)
  | some data => data.str.map fun str =>
      let result := strto 0 str
      (if result.erange then eRange else 0, some (T.narrow result.value))

/-- `_data_to_int8`. -/
def dataToInt8Checked := readChecked strtol .int8

/-- `_data_to_int16`. -/
def dataToInt16Checked := readChecked strtol .int16

/-- `_data_to_int32`. -/
def dataToInt32Checked := readChecked strtol .int32

/-- `_data_to_int64`. -/
def dataToInt64Checked := readChecked strtoll .int64

/-- `_data_to_uint16`. -/
def dataToUint16Checked := readChecked strtoul .uint16

/-- `_data_to_uint32`. -/
def dataToUint32Checked := readChecked strtoul .uint32

/-- `_data_to_uint64`. -/
def dataToUint64Checked := readChecked strtoull .uint64

/-! ## §3. The wrappers. -/

/-- The shared body of `dict_get_int8` to `dict_get_uint64`: take a reference,
convert, drop the reference. -/
def dictGetInteger (convert : Option Data → Option (Int × Option Int)) (this : Dict) (h : DataHeap)
    (key : CStr) : Option (Int × Option Int × DataHeap) := do
  let (ret, data, h) ← dictGetWithRef this h key
  if ret ≠ 0 then return (ret, none, h)
  let (ret, val) ← convert (h.cells data)
  let h ← dataUnref h data
  return (ret, val, h)

/-- `dict_get_int8`. -/
def dictGetInt8 := dictGetInteger dataToInt8Checked

/-- `dict_get_int16`. -/
def dictGetInt16 := dictGetInteger dataToInt16Checked

/-- `dict_get_int32`. -/
def dictGetInt32 := dictGetInteger dataToInt32Checked

/-- `dict_get_int64`. -/
def dictGetInt64 := dictGetInteger dataToInt64Checked

/-- `dict_get_uint16`. -/
def dictGetUint16 := dictGetInteger dataToUint16Checked

/-- `dict_get_uint32`. -/
def dictGetUint32 := dictGetInteger dataToUint32Checked

/-- `dict_get_uint64`. -/
def dictGetUint64 := dictGetInteger dataToUint64Checked

/-! ## §4. The functions of a type. -/

/-- `data_from_T`. -/
def IntType.dataFrom : IntType → Int → Data
  | .int8, v | .int16, v | .int32, v | .int64, v => dataFromInt v
  | .uint16, v | .uint32, v | .uint64, v => dataFromUint v.toNat

/-- `dict_set_T`. -/
def IntType.dictSet (T : IntType) (this : Dict) (h : DataHeap) (key : Option CStr) (val : Int) :
    Option (Dict × DataHeap × Int) :=
  match T with
  | .int8 | .int16 | .int32 | .int64 => dictSetInt this h key val
  | .uint16 | .uint32 | .uint64 => dictSetUint this h key val.toNat

/-- `data_to_T`. -/
def IntType.dataTo : IntType → Option Data → Option Int
  | .int8 => dataToInt8
  | .int16 => dataToInt16
  | .int32 => dataToInt32
  | .int64 => dataToInt64
  | .uint16 => dataToUint16
  | .uint32 => dataToUint32
  | .uint64 => dataToUint64

/-- `_data_to_T`. -/
def IntType.dataToChecked : IntType → Option Data → Option (Int × Option Int)
  | .int8 => dataToInt8Checked
  | .int16 => dataToInt16Checked
  | .int32 => dataToInt32Checked
  | .int64 => dataToInt64Checked
  | .uint16 => dataToUint16Checked
  | .uint32 => dataToUint32Checked
  | .uint64 => dataToUint64Checked

/-- `dict_get_T`. -/
def IntType.dictGet : IntType → Dict → DataHeap → CStr → Option (Int × Option Int × DataHeap)
  | .int8 => dictGetInt8
  | .int16 => dictGetInt16
  | .int32 => dictGetInt32
  | .int64 => dictGetInt64
  | .uint16 => dictGetUint16
  | .uint32 => dictGetUint32
  | .uint64 => dictGetUint64

end LzLib.Dict
