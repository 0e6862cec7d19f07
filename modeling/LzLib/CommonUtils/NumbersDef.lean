/-
  LzLib.CommonUtils.NumbersDef
  ────────────────────────────
  **NUMBERS FROM STRINGS** (`common-utils.c`).

  A parser looks for a `-` behind the white space, lets `strtoull` read the
  number and judges by `errno` and by the tail.  `errno` is the caller's before
  and after, unless the parser sets it.

  Where `strtoull` finds no digit, it returns 0, leaves the tail at the start of
  the string and `errno` alone.

  The parsers of numbers without a unit share a body, `readNumber`: five workers
  differ in the `strto*` function and in the type they store, and the parsers for
  types of a fixed width call a worker with a local variable, test the range and
  store what they got.
-/
import LzLib.Foundation.Literals
import LzLib.Foundation.Memory

namespace LzLib.CommonUtils

open LzLib.Foundation

/-- `EINVAL`. -/
def einval : Int := 22

/-- `ERANGE`. -/
def erange : Int := 34

/-- What a parser leaves: its status, `*n` (`none` where `n` is NULL), and `errno`. -/
structure Outcome where
  ret : Int
  n : Option Nat
  errno : Int
  deriving DecidableEq

/-- The loop over the white space in front: whether a `-` ends it. -/
def minusAhead : Bytes → Bool
  | [] => false
  | c :: cs => if isSpace c then minusAhead cs else c = 45

/-! ## §1. Units. -/

/-- `LZ_UNIT_KB`. -/
def lzUnitKb : Nat := 1024

/-- `LZ_UNIT_MB`. -/
def lzUnitMb : Nat := 1048576

/-- `LZ_UNIT_GB`. -/
def lzUnitGb : Nat := 1073741824

/-- `LZ_UNIT_TB`. -/
def lzUnitTb : Nat := 1099511627776

/-- `LZ_UNIT_PB`. -/
def lzUnitPb : Nat := 1125899906842624

/-- `"KB"`, `"MB"`, `"GB"`, `"TB"` and `"PB"` with their units, in the order in
which the tail is compared. -/
def lzUnits : List (Bytes × Nat) :=
  [([75, 66], lzUnitKb), ([77, 66], lzUnitMb), ([71, 66], lzUnitGb), ([84, 66], lzUnitTb), ([80, 66], lzUnitPb)]

/-- `value *= …`, by the tail; `none` for a tail that is no unit. -/
def scaled (value : Nat) (tail : Bytes) : Option Nat :=
  if tail = [] then some value
  else (lzUnits.find? fun unit => strcasecmp tail unit.1 = 0).map fun unit => value * unit.2 % 2 ^ 64

/-! ## §2. The parser. -/

/-- `lz_string2bytesize`. -/
def lzString2bytesize (str : Option CStr) (n : Option Nat) (errno : Int) : Outcome :=
  match str, n with
  | some str, some old =>
      if minusAhead str.chars then ⟨-1, some old, errno⟩
      else
        let parsed := strtoull 10 str.chars
        if parsed.erange then ⟨-1, some old, erange⟩
        else match scaled parsed.value.toNat parsed.endptr with
          | none => ⟨-1, some old, errno⟩
          | some value => ⟨0, some value, errno⟩
  | _, _ => ⟨-1, n, einval⟩

/-! ## §3. Numbers without a unit. -/

/-- What the parser of a number leaves: its status, what it has stored in `*n`,
and `errno`. -/
structure Reading where
  ret : Int
  stored : Option Int
  errno : Int
  deriving DecidableEq

/-- The body of these parsers: `strto` reads, `tails` may follow the number, and
`convert` is what the assignment to `*n` makes of the value.  Of `n` it matters
whether it is NULL. -/
def readNumber {α : Type} (refuseMinus : Bool) (strto : Bytes → Parsed) (tails : List Bytes) (convert : Int → Int)
    (str : Option CStr) (n : Option α) (errno : Int) : Reading :=
  match str, n with
  | some str, some _ =>
      if refuseMinus && minusAhead str.chars then ⟨-1, none, errno⟩
      else
        let parsed := strto str.chars
        if parsed.erange then ⟨-1, none, erange⟩
        else if parsed.endptr ∈ tails then ⟨0, some (convert parsed.value), errno⟩
        else ⟨-1, none, errno⟩
  | _, _ => ⟨-1, none, einval⟩

section Workers

variable {α : Type} (str : Option CStr) (n : Option α) (base : Nat) (errno : Int)

/-- The tails after which `lz_string2time` stores: none, `"s"` and `"sec"`. -/
def timeTails : List Bytes := [[], [115], [115, 101, 99]]

/-- The tails after which `lz_string2percent` stores: none, and `"%"`. -/
def percentTails : List Bytes := [[], [37]]

/-- `lz_string2time`: the value of `strtol` becomes a `uint32_t`. -/
def lzString2time : Reading := readNumber true (strtol 0) timeTails (· % 2 ^ 32) str n errno

/-- `lz_string2percent`. -/
def lzString2percent : Reading := readNumber true (strtol 0) percentTails (· % 2 ^ 32) str n errno

/-- `_lz_string2long`. -/
def string2long : Reading := readNumber false (strtol base) [[]] id str n errno

/-- `_lz_string2ulong`. -/
def string2ulong : Reading := readNumber true (strtoul base) [[]] id str n errno

/-- `_lz_string2uint`: `*n = (unsigned int)value`. -/
def string2uint : Reading := readNumber true (strtoul base) [[]] (· % 2 ^ 32) str n errno

/-- `_lz_string2longlong`. -/
def string2longlong : Reading := readNumber false (strtoll base) [[]] id str n errno

/-- `_lz_string2ulonglong`. -/
def string2ulonglong : Reading := readNumber true (strtoull base) [[]] id str n errno

end Workers

/-! ## §4. Parsers that store in memory. -/

/-- What a parser leaves: its status, the memory, and `errno`. -/
structure Stored where
  ret : Int
  mem : Memory
  errno : Int

/-- `unsigned int`, in four bytes. -/
def uintT : CInt := ⟨4, false⟩

/-- `long`, in eight bytes. -/
def longT : CInt := ⟨8, true⟩

/-- A worker that is given the caller's pointer, as one to the type `t`. -/
def throughPointer (t : CInt) (worker : Option CStr → Option Nat → Int → Reading)
    (str : Option CStr) (n : Option Nat) (m : Memory) (errno : Int) : Option Stored :=
  let rv := worker str n errno
  match n, rv.stored with
  | some a, some value => some ⟨rv.ret, m.store t a value, rv.errno⟩
  | _, _ => some ⟨rv.ret, m, rv.errno⟩

/-- The body of the parsers of a fixed width: the worker stores in the local `l`,
and `*n` is assigned, `n` NULL or not, if `l` is in the range. -/
def fixedWidth (t : CInt) (min max : Int) (worker : Option CStr → Option Unit → Int → Reading)
    (str : Option CStr) (n : Option Nat) (m : Memory) (errno : Int) : Option Stored :=
  let rv := worker str (some ()) errno
  if rv.ret ≠ 0 then some ⟨rv.ret, m, rv.errno⟩
  else
    let l := rv.stored.getD 0
    if min ≤ l ∧ l ≤ max then n.map fun a => ⟨0, m.store t a l, rv.errno⟩
    else some ⟨-1, m, erange⟩

section Parsers

variable (str : Option CStr) (n : Option Nat) (m : Memory) (errno : Int)

/-- `lz_string2int`: the worker stores through `(long *) n`. -/
def lzString2int : Option Stored :=
  throughPointer longT (string2long · · 0 ·) str n m errno

/-- `lz_string2uint`. -/
def lzString2uint : Option Stored :=
  throughPointer uintT (string2uint · · 0 ·) str n m errno

/-- `lz_string2int8`. -/
def lzString2int8 : Option Stored :=
  fixedWidth ⟨1, true⟩ (-2 ^ 7) (2 ^ 7 - 1) (string2long · · 0 ·) str n m errno

/-- `lz_string2int16`. -/
def lzString2int16 : Option Stored :=
  fixedWidth ⟨2, true⟩ (-2 ^ 15) (2 ^ 15 - 1) (string2long · · 0 ·) str n m errno

/-- `lz_string2int32`. -/
def lzString2int32 : Option Stored :=
  fixedWidth ⟨4, true⟩ (-2 ^ 31) (2 ^ 31 - 1) (string2long · · 0 ·) str n m errno

/-- `lz_string2int64`. -/
def lzString2int64 : Option Stored :=
  fixedWidth ⟨8, true⟩ (-2 ^ 63) (2 ^ 63 - 1) (string2longlong · · 0 ·) str n m errno

/-- `lz_string2uint8`. -/
def lzString2uint8 : Option Stored :=
  fixedWidth ⟨1, false⟩ 0 (2 ^ 8 - 1) (string2ulong · · 0 ·) str n m errno

/-- `lz_string2uint16`. -/
def lzString2uint16 : Option Stored :=
  fixedWidth ⟨2, false⟩ 0 (2 ^ 16 - 1) (string2ulong · · 0 ·) str n m errno

/-- `lz_string2uint32`. -/
def lzString2uint32 : Option Stored :=
  fixedWidth ⟨4, false⟩ 0 (2 ^ 32 - 1) (string2ulong · · 0 ·) str n m errno

/-- `lz_string2uint64`. -/
def lzString2uint64 : Option Stored :=
  fixedWidth ⟨8, false⟩ 0 (2 ^ 64 - 1) (string2ulonglong · · 0 ·) str n m errno

/-- `lz_string2uint_base10`. -/
def lzString2uintBase10 : Option Stored :=
  throughPointer uintT (string2uint · · 10 ·) str n m errno

/-- `lz_string2uint8_base10`. -/
def lzString2uint8Base10 : Option Stored :=
  fixedWidth ⟨1, false⟩ 0 (2 ^ 8 - 1) (string2ulong · · 10 ·) str n m errno

/-- `lz_string2uint16_base10`. -/
def lzString2uint16Base10 : Option Stored :=
  fixedWidth ⟨2, false⟩ 0 (2 ^ 16 - 1) (string2ulong · · 10 ·) str n m errno

/-- `lz_string2uint32_base10`. -/
def lzString2uint32Base10 : Option Stored :=
  fixedWidth ⟨4, false⟩ 0 (2 ^ 32 - 1) (string2ulong · · 10 ·) str n m errno

/-- `lz_string2uint64_base10`. -/
def lzString2uint64Base10 : Option Stored :=
  fixedWidth ⟨8, false⟩ 0 (2 ^ 64 - 1) (string2ulonglong · · 10 ·) str n m errno

end Parsers

end LzLib.CommonUtils
