/-
  LzLib.Dict.DictDef
  ──────────────────
  **THE DICT** (`dict_t`, `dict.c`): a hash table whose pairs are threaded on
  two lists at once, the singly linked chain of their bucket and the doubly
  linked list of all members.

  A dict carries the heap of its own pairs (no pointer ever leads from one
  dict's pairs to another's); the values live in the shared `DataHeap`.
  Following a pointer to a pair that is not live, indexing `members` outside
  the array, or counting beyond the range of an `int32_t` has no outcome
  (`none`).  Allocation succeeds.
-/
import LzLib.Dict.DataDef
import LzLib.Hash.HashFn
import Mathlib.Data.Nat.Digits.Defs

namespace LzLib

open LzLib.Foundation LzLib.Hash

/-! ## §1. Data. -/

namespace Dict

/-- `struct _data_pair`. -/
structure Pair where
  hashNext : Addr
  prev : Addr
  next : Addr
  value : Addr
  key : CStr
  deriving DecidableEq

end Dict

/-- `struct _dict`, with the heap of its pairs. -/
structure Dict where
  hashSize : Int
  count : Int
  refcount : Int
  members : Int → Addr
  membersList : Addr
  pairs : Heap Dict.Pair
  brk : Addr

namespace Dict

/-- `get_new_dict_full`. -/
def getNewDictFull (sizeHint : Int) : Dict :=
  { hashSize := sizeHint, count := 0, refcount := 0, members := fun _ => 0, membersList := 0,
    pairs := fun _ => none, brk := 1 }

/-- `get_new_dict`. -/
def getNewDict : Dict := getNewDictFull 1

/-- `dict_ref`. -/
def dictRef (this : Dict) : Option Dict := (incInt this.refcount).map fun refcount => { this with refcount }

/-- `dict_new`. -/
def dictNew : Dict := { getNewDictFull 1 with refcount := 1 }

/-- It takes a reference to a new dict. -/
theorem dictNew_eq : dictRef (getNewDictFull 1) = some dictNew := rfl

/-- Write some fields of the pair at `p`. -/
def modifyPair (this : Dict) (p : Addr) (f : Pair → Pair) : Option Dict :=
  match this.pairs p with
  | none => none
  | some pair => some { this with pairs := Function.update this.pairs p (some (f pair)) }

/-- `this->members[hashval]`. -/
def bucket (this : Dict) (hashval : Int) : Option Addr :=
  if 0 ≤ hashval ∧ hashval < this.hashSize then some (this.members hashval) else none

/-! ## §2. Lookup. -/

/-- `tmp = SuperFastHash (key, strlen (key)); hashval = (tmp % this->hash_size)`
with `tmp` an `int`: the bucket `_dict_set` inserts into. -/
def setBucket (this : Dict) (key : CStr) : Int :=
  (wrap32 (superFastHash key.chars).toNat).tmod this.hashSize

/-- `hashval = SuperFastHash (key, strlen (key)) % this->hash_size`, an unsigned
remainder: the bucket `_dict_lookup` and `dict_del` search. -/
def getBucket (this : Dict) (key : CStr) : Int :=
  ((superFastHash key.chars).toNat % this.hashSize.toNat : Nat)

/-- The loop of `_dict_lookup`, at most `fuel` pairs. -/
def findPair (pairs : Heap Pair) (key : CStr) : Nat → Addr → Option Addr
  | 0, pair => if pair = 0 then some 0 else none
  | fuel + 1, pair =>
      if pair = 0 then some 0
      else match pairs pair with
        | none => none
        | some p => if p.key = key then some pair else findPair pairs key fuel p.hashNext

/-- `_dict_lookup`: the pair of `key`, or NULL. -/
def dictLookup (this : Dict) (key : CStr) : Option Addr := do
  let first ← this.bucket (this.getBucket key)
  findPair this.pairs key this.brk first

/-! ## §3. Set. -/

/-- A lower-case hexadecimal digit. -/
def hexDigit (d : Nat) : UInt8 :=
  if d % 16 < 10 then UInt8.ofNat (48 + d % 16) else UInt8.ofNat (87 + d % 16)

theorem hexDigit_ne_zero (d : Nat) : hexDigit d ≠ 0 := by
  have hd : d % 16 < 16 := Nat.mod_lt d (by omega)
  unfold hexDigit
  interval_cases d % 16 <;> decide

/-- `asprintf (&key, "ref:%p", value)`. -/
def refKey (value : Addr) : CStr where
  chars := [114, 101, 102, 58, 48, 120] ++ ((Nat.digits 16 value).reverse.map hexDigit)
  nulFree := by
    intro h
    rcases List.mem_append.mp h with h | h
    · revert h; decide
    · obtain ⟨d, _, hd⟩ := List.mem_map.mp h
      exact hexDigit_ne_zero d hd

/-- The new pair of `_dict_set`, in front of its chain and of the member list. -/
def linkPair (this : Dict) (hashval : Int) (key : CStr) (value : Addr) : Option Dict := do
  let first ← this.bucket hashval
  let count ← incInt this.count
  let pair := this.brk
  let fresh : Pair :=
    { hashNext := first, prev := 0, next := this.membersList, value := value, key := key }
  let linked : Dict :=
    { this with
      pairs := Function.update this.pairs pair (some fresh), brk := this.brk + 1,
      members := Function.update this.members hashval pair,
      membersList := pair, count := count }
  if this.membersList = 0 then some linked
  else linked.modifyPair this.membersList fun p => { p with prev := pair }

/-- `_dict_set`; a NULL key stands for a key made from the value's address. -/
def dictSetLocked (this : Dict) (h : DataHeap) (key : Option CStr) (value : Addr) :
    Option (Dict × DataHeap × Int) := do
  let key := key.getD (refKey value)
  let hashval := this.setBucket key
  let pair ← dictLookup this key
  if pair ≠ 0 then
    let old ← this.pairs pair
    let (h, value) ← dataRef h value
    let this ← this.modifyPair pair fun p => { p with value := value }
    let h ← dataUnref h old.value
    return (this, h, 0)
  else
    let (h, value) ← dataRef h value
    let this ← this.linkPair hashval key value
    return (this, h, 0)

/-- `dict_set`. -/
def dictSet (this : Dict) (h : DataHeap) (key : Option CStr) (value : Addr) :
    Option (Dict × DataHeap × Int) :=
  if value = 0 then some (this, h, -1) else dictSetLocked this h key value

/-! ## §4. Get and delete. -/

/-- `dict_get`. -/
def dictGet (this : Dict) (key : CStr) : Option Addr := do
  let pair ← dictLookup this key
  if pair ≠ 0 then (this.pairs pair).map Pair.value else some 0

/-- The loop of `dict_del`: the pair of `key` (or NULL) and the pair before it
on the chain. -/
def findPrevPair (pairs : Heap Pair) (key : CStr) : Nat → Addr → Addr → Option (Addr × Addr)
  | 0, prev, pair => if pair = 0 then some (prev, 0) else none
  | fuel + 1, prev, pair =>
      if pair = 0 then some (prev, 0)
      else match pairs pair with
        | none => none
        | some p =>
            if p.key = key then some (prev, pair) else findPrevPair pairs key fuel pair p.hashNext

/-- Take `pair` off its hash chain. -/
def unchain (this : Dict) (hashval : Int) (prev : Addr) (pair : Pair) : Option Dict :=
  if prev ≠ 0 then this.modifyPair prev fun p => { p with hashNext := pair.hashNext }
  else some { this with members := Function.update this.members hashval pair.hashNext }

/-- `if (pair->prev) pair->prev->next = pair->next; else this->members_list = pair->next;` -/
def passNext (this : Dict) (pair : Pair) : Option Dict :=
  if pair.prev ≠ 0 then this.modifyPair pair.prev fun p => { p with next := pair.next }
  else some { this with membersList := pair.next }

/-- `if (pair->next) pair->next->prev = pair->prev;` -/
def passPrev (this : Dict) (pair : Pair) : Option Dict :=
  if pair.next ≠ 0 then this.modifyPair pair.next fun p => { p with prev := pair.prev }
  else some this

/-- `dict_del`. -/
def dictDel (this : Dict) (h : DataHeap) (key : CStr) : Option (Dict × DataHeap) := do
  let hashval := this.getBucket key
  let first ← this.bucket hashval
  let (prev, pair) ← findPrevPair this.pairs key this.brk 0 first
  if pair = 0 then return (this, h)
  else
    let p ← this.pairs pair
    let this ← this.unchain hashval prev p
    let h ← dataUnref h p.value
    let this ← this.passNext p
    let this ← this.passPrev p
    let count ← decInt this.count
    return ({ this with pairs := Function.update this.pairs pair none, count := count }, h)

/-! ## §5. The typed wrappers. -/

/-- `-EINVAL`. -/
def eInval : Int := -22

/-- `-ENOENT`. -/
def eNoent : Int := -2

/-- `-ENOMEM`. -/
def eNomem : Int := -12

/-- The shared body of the `dict_set_*` wrappers: the constructor's cell, `none`
when it returned NULL, goes into the dict. -/
def dictSetData (this : Dict) (h : DataHeap) (key : Option CStr) (data : Option Data) :
    Option (Dict × DataHeap × Int) :=
  match data with
  | none => some (this, h, eInval)
  | some d =>
      let (h, value) := h.alloc d
      dictSet this h key value

/-- `dict_set_int8`, `dict_set_int16`, `dict_set_int32`, `dict_set_int64`. -/
def dictSetInt (this : Dict) (h : DataHeap) (key : Option CStr) (val : Int) :=
  dictSetData this h key (some (dataFromInt val))

/-- `dict_set_uint16`, `dict_set_uint32`, `dict_set_uint64`. -/
def dictSetUint (this : Dict) (h : DataHeap) (key : Option CStr) (val : Nat) :=
  dictSetData this h key (some (dataFromUint val))

/-- `dict_set_static_ptr`. -/
def dictSetStaticPtr (this : Dict) (h : DataHeap) (key : Option CStr) (ptr : Option BytePtr) :=
  dictSetData this h key (some (dataFromStaticPtr ptr))

/-- `dict_set_dynptr`; the `size_t` length is kept as an `int32_t`. -/
def dictSetDynptr (this : Dict) (h : DataHeap) (key : Option CStr) (ptr : Option BytePtr) (len : Nat) :=
  dictSetData this h key (some (dataFromDynptr ptr (wrap32 len)))

/-- `dict_set_ptr`. -/
def dictSetPtr (this : Dict) (h : DataHeap) (key : Option CStr) (ptr : Option BytePtr) :=
  dictSetData this h key (dataFromPtr ptr)

/-- `dict_set_str`. -/
def dictSetStr (this : Dict) (h : DataHeap) (key : Option CStr) (str : Option CStr) :=
  dictSetData this h key (strToData str)

/-- `dict_set_dynstr`. -/
def dictSetDynstr (this : Dict) (h : DataHeap) (key : Option CStr) (str : Option CStr) :=
  dictSetData this h key (dataFromDynstr str)

/-- `dict_set_bin`: a dynamic copy of what `bin_to_data` makes. -/
def dictSetBin (this : Dict) (h : DataHeap) (key : Option CStr) (ptr : Option BytePtr) (size : Nat) :=
  dictSetData this h key ((binToData ptr (wrap32 size)).map fun d => { d with isStatic := false })

/-- `dict_set_static_bin`. -/
def dictSetStaticBin (this : Dict) (h : DataHeap) (key : Option CStr) (ptr : Option BytePtr) (size : Nat) :=
  dictSetData this h key (binToData ptr (wrap32 size))

/-- `dict_get_with_ref`: status, the value (NULL when there is none), heap. -/
def dictGetWithRef (this : Dict) (h : DataHeap) (key : CStr) : Option (Int × Addr × DataHeap) := do
  let pair ← dictLookup this key
  if pair = 0 then return (eNoent, 0, h)
  else
    let p ← this.pairs pair
    let (h, data) ← dataRef h p.value
    return (0, data, h)

/-- The shared body of the `dict_get_*` wrappers: take a reference, convert the
value, drop the reference.  `convert` is the wrapper's `_data_to_*`. -/
def dictGetVia {α : Type} (convert : Data → Int × α) (this : Dict) (h : DataHeap) (key : CStr) :
    Option (Int × Option α × DataHeap) := do
  let (ret, data, h) ← dictGetWithRef this h key
  if ret ≠ 0 then return (ret, none, h)
  let d ← h.cells data
  let (ret, val) := convert d
  let h ← dataUnref h data
  return (ret, some val, h)

end Dict

end LzLib
