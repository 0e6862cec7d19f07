/-
  LzLib.Rbthash.RbthashDef
  ────────────────────────
  `rbthash.c`: a hash table whose buckets are libavl tables of entries, ordered
  by `rbthash_comparator`.  The table copies the key; the data is a pointer of
  the caller, which the table only compares with NULL, returns, and passes to
  the caller's `dfunc`.

  Entries come from the memory pool `entrypool`.  The model keeps the number of
  entries that were taken and not put back, and the arguments of `dfunc`.
-/
import LzLib.Foundation.ItemSets
import LzLib.Foundation.Words

namespace LzLib.Rbthash

open LzLib.Foundation

variable {δ : Type}

/-! ## §1. Entries. -/

/-- `rbthash_entry_t`; `keylen` is the length of `key`. -/
structure RbthashEntry (δ : Type) where
  data : Option δ
  key : Bytes
  keyhash : UInt32

/-- `memcmp`, of two keys of one length. -/
def memcmp : Bytes → Bytes → Int
  | a :: as, b :: bs => if a = b then memcmp as bs else if a < b then -1 else 1
  | _, _ => 0

/-- `rbthash_comparator`. -/
def rbthashComparator (e₁ e₂ : RbthashEntry δ) : Int :=
  if e₁.key.length ≠ e₂.key.length then
    if e₁.key.length < e₂.key.length then -1
    else if e₁.key.length > e₂.key.length then 1
    else 0
  else memcmp e₁.key e₂.key

/-! ## §2. The table, over buckets of any kind. -/

/-- `rbthash_table_t`.  `outstanding`: the entries from `entrypool` that were not
put back; `destroyed`: the arguments of `dfunc`. -/
structure RbthashTableT (τ δ : Type) where
  numbuckets : Nat
  buckets : Nat → τ
  hashfunc : Bytes → UInt32
  dfunc : Bool
  outstanding : Int
  destroyed : List δ

/-- Which allocations of an insertion succeed: the entry from the pool, the copy
of the key; and the answer for the node of the tree. -/
structure InsertAlloc (ν : Type) where
  entry : Bool
  keyCopy : Bool
  node : ν

section

variable {τ ν : Type}

/-- One bucket has changed. -/
def RbthashTableT.setBucket (tbl : RbthashTableT τ δ) (nbucket : Nat) (t : τ) : RbthashTableT τ δ :=
  { tbl with buckets := Function.update tbl.buckets nbucket t }

/-- `mem_put (tbl->entrypool, entry)`. -/
def RbthashTableT.memPut (tbl : RbthashTableT τ δ) : RbthashTableT τ δ :=
  { tbl with outstanding := tbl.outstanding - 1 }

/-- `rbthash_init_entry`. -/
def rbthashInitEntry (tbl : RbthashTableT τ δ) (data : Option δ) (key : Option Bytes) (alloc : InsertAlloc ν) :
    RbthashTableT τ δ × Option (RbthashEntry δ) :=
  match data, key with
  | some data, some key =>
      if alloc.entry then
        let tbl := { tbl with outstanding := tbl.outstanding + 1 }
        if alloc.keyCopy then (tbl, some ⟨some data, key, tbl.hashfunc key⟩)
        else (tbl.memPut, none)
      else (tbl, none)
  | _, _ => (tbl, none)

/-- `rbthash_deinit_entry`. -/
def rbthashDeinitEntry (tbl : RbthashTableT τ δ) (entry : RbthashEntry δ) : RbthashTableT τ δ :=
  match entry.data with
  | none => tbl.memPut
  | some data =>
      if tbl.dfunc then { tbl with destroyed := tbl.destroyed ++ [data] }.memPut else tbl.memPut

/-- `rbthash_entry_bucket`. -/
def rbthashEntryBucket (tbl : RbthashTableT τ δ) (entry : RbthashEntry δ) : Nat :=
  entry.keyhash.toNat % tbl.numbuckets

/-- `rbthash_key_bucket`. -/
def rbthashKeyBucket (tbl : RbthashTableT τ δ) (key : Bytes) : Nat :=
  (tbl.hashfunc key).toNat % tbl.numbuckets

end

/-- `searchentry` of `rbthash_get` and `rbthash_remove`. -/
def searchEntry (key : Bytes) : RbthashEntry δ := ⟨none, key, 0⟩

/-- The calls on a table. -/
inductive RbthashOp (ν δ : Type)
  | insert (data : Option δ) (key : Option Bytes) (alloc : InsertAlloc ν)
  | get (key : Option Bytes)
  | remove (key : Option Bytes)

/-! ## §3. Over the sets of a library. -/

/-- The table over the tables `rb` of libavl. -/
abbrev RbthashTable (rb : ItemSets (RbthashEntry δ) rbthashComparator) := RbthashTableT rb.Table δ

variable {rb : ItemSets (RbthashEntry δ) rbthashComparator}

/-- `rbthash_table_init`, when every allocation succeeds. -/
def rbthashTableInit (rb : ItemSets (RbthashEntry δ) rbthashComparator) (buckets : Nat)
    (hfunc : Bytes → UInt32) (dfunc : Bool) : RbthashTable rb where
  numbuckets := buckets
  buckets := fun _ => rb.create
  hashfunc := hfunc
  dfunc := dfunc
  outstanding := 0
  destroyed := []

/-- `rbthash_insert_entry`. -/
def rbthashInsertEntry (tbl : RbthashTable rb) (entry : RbthashEntry δ) (node : Bool) :
    RbthashTable rb × Int :=
  let nbucket := rbthashEntryBucket tbl entry
  let probed := rb.probe (tbl.buckets nbucket) entry node
  let tbl := tbl.setBucket nbucket probed.1
  match probed.2 with
  | none => (tbl, -1)
  | some _ => (tbl, 0)

/-- `rbthash_insert`. -/
def rbthashInsert (tbl : RbthashTable rb) (data : Option δ) (key : Option Bytes) (alloc : InsertAlloc Bool) :
    RbthashTable rb × Int :=
  match rbthashInitEntry tbl data key alloc with
  | (tbl, none) => (tbl, -1)
  | (tbl, some entry) =>
      let inserted := rbthashInsertEntry tbl entry alloc.node
      if inserted.2 = -1 then (rbthashDeinitEntry inserted.1 entry, inserted.2) else inserted

/-- `rbthash_get`. -/
def rbthashGet (tbl : RbthashTable rb) (key : Option Bytes) : Option δ :=
  match key with
  | none => none
  | some key =>
      match rb.find (tbl.buckets (rbthashKeyBucket tbl key)) (searchEntry key) with
      | none => none
      | some entry => entry.data

/-- `rbthash_remove`. -/
def rbthashRemove (tbl : RbthashTable rb) (key : Option Bytes) : RbthashTable rb × Option δ :=
  match key with
  | none => (tbl, none)
  | some key =>
      let nbucket := rbthashKeyBucket tbl key
      let deleted := rb.delete (tbl.buckets nbucket) (searchEntry key)
      let tbl := tbl.setBucket nbucket deleted.1
      match deleted.2 with
      | none => (tbl, none)
      | some entry => (tbl.memPut, entry.data)

/-- The entries in the buckets. -/
def RbthashTable.entries (tbl : RbthashTable rb) : List (RbthashEntry δ) :=
  (List.range tbl.numbuckets).flatMap fun n => rb.items (tbl.buckets n)

/-- `rbthash_table_destroy`: `rb_destroy` of every bucket, with
`rbthash_entry_deiniter`. -/
def rbthashTableDestroy (tbl : RbthashTable rb) : RbthashTable rb :=
  { tbl.entries.foldl rbthashDeinitEntry tbl with buckets := fun _ => rb.create }

/-! ## §4. Runs. -/

def rbthashStep (tbl : RbthashTable rb) : RbthashOp Bool δ → RbthashTable rb
  | .insert data key alloc => (rbthashInsert tbl data key alloc).1
  | .get _ => tbl
  | .remove key => (rbthashRemove tbl key).1

def rbthashRun (tbl : RbthashTable rb) (ops : List (RbthashOp Bool δ)) : RbthashTable rb :=
  ops.foldl rbthashStep tbl

end LzLib.Rbthash
