/-
  LzLib.Rbthash.TreesDef
  ──────────────────────
  `rbthash.c` once more, with the trees of `rb.c` in its buckets: every call on a
  bucket goes to the memory model of that tree, with `RB_MAX_HEIGHT` as it is.  The
  table, and the functions on its entries, are those of `RbthashDef`.

  A call has no outcome (`none`) where `rb.c` has none.  The trees of two buckets
  have no node in common, so each has its own memory.
-/
import LzLib.Rb.RbRuns
import LzLib.Rbthash.RbthashSpec

namespace LzLib.Rbthash.Trees

open LzLib.Foundation LzLib.Rb LzLib.Rbthash

variable {δ : Type}

/-- The table over the trees of `rb.c`. -/
abbrev RbthashTable (δ : Type) := RbthashTableT (RbTable (RbthashEntry δ)) δ

/-- Which allocations of an insertion succeed, and what the allocator answers for
the node of the tree. -/
abbrev InsertAlloc := Rbthash.InsertAlloc (Option Addr)

/-- The calls on a table. -/
abbrev RbthashOp (δ : Type) := Rbthash.RbthashOp (Option Addr) δ

/-- `rbthash_table_init`, when every allocation succeeds. -/
def rbthashTableInit (buckets : Nat) (hfunc : Bytes → UInt32) (dfunc : Bool) : RbthashTable δ where
  numbuckets := buckets
  buckets := fun _ => rbCreate
  hashfunc := hfunc
  dfunc := dfunc
  outstanding := 0
  destroyed := []

/-- `rbthash_insert_entry`. -/
def rbthashInsertEntry (tbl : RbthashTable δ) (entry : RbthashEntry δ) (node : Option Addr) :
    Option (RbthashTable δ × Int) := do
  let nbucket := rbthashEntryBucket tbl entry
  let (t, p) ← rbProbe rbthashComparator rbMaxHeight (tbl.buckets nbucket) entry node
  return (tbl.setBucket nbucket t, if p.isSome then 0 else -1)

/-- `rbthash_insert`. -/
def rbthashInsert (tbl : RbthashTable δ) (data : Option δ) (key : Option Bytes) (alloc : InsertAlloc) :
    Option (RbthashTable δ × Int) :=
  match rbthashInitEntry tbl data key alloc with
  | (tbl, none) => some (tbl, -1)
  | (tbl, some entry) => do
      let (tbl, ret) ← rbthashInsertEntry tbl entry alloc.node
      return (if ret = -1 then rbthashDeinitEntry tbl entry else tbl, ret)

/-- `rbthash_get`. -/
def rbthashGet (tbl : RbthashTable δ) (key : Option Bytes) : Option (Option δ) :=
  match key with
  | none => some none
  | some key => do
      let entry ← rbFind rbthashComparator (tbl.buckets (rbthashKeyBucket tbl key)) (searchEntry key)
      return entry.bind RbthashEntry.data

/-- `rbthash_remove`. -/
def rbthashRemove (tbl : RbthashTable δ) (key : Option Bytes) : Option (RbthashTable δ × Option δ) :=
  match key with
  | none => some (tbl, none)
  | some key => do
      let nbucket := rbthashKeyBucket tbl key
      let (t, entry) ← rbDelete rbthashComparator rbMaxHeight (tbl.buckets nbucket) (searchEntry key)
      let tbl := tbl.setBucket nbucket t
      match entry with
      | none => return (tbl, none)
      | some entry => return (tbl.memPut, entry.data)

/-- `rbthash_table_destroy_buckets`: one bucket after the other. -/
def rbthashTableDestroyBuckets (tbl : RbthashTable δ) (buckets : List Nat) : Option (RbthashTable δ) :=
  match buckets with
  | [] => some tbl
  | x :: xs => do
      let (nodes, entries) ← rbDestroy (tbl.buckets x) true
      let tbl := tbl.setBucket x { tbl.buckets x with nodes := nodes }
      rbthashTableDestroyBuckets (entries.foldl rbthashDeinitEntry tbl) xs

/-- `rbthash_table_destroy`. -/
def rbthashTableDestroy (tbl : RbthashTable δ) : Option (RbthashTable δ) :=
  rbthashTableDestroyBuckets tbl (List.range tbl.numbuckets)

/-- What a call returns: an `int`, or a pointer to data. -/
abbrev Answer (δ : Type) := Int ⊕ Option δ

def rbthashStep (tbl : RbthashTable δ) : RbthashOp δ → Option (RbthashTable δ × Answer δ)
  | .insert data key alloc => (rbthashInsert tbl data key alloc).map fun r => (r.1, .inl r.2)
  | .get key => (rbthashGet tbl key).map fun r => (tbl, .inr r)
  | .remove key => (rbthashRemove tbl key).map fun r => (r.1, .inr r.2)

/-- No bucket is too large for the stacks of `rb.c`, and a node is allocated where
nothing is live. -/
def rbthashAllowed (tbl : RbthashTable δ) (op : RbthashOp δ) : Prop :=
  (∀ x < tbl.numbuckets, (tbl.buckets x).count + 2 < 2 ^ 25) ∧
    match op with
    | .insert _ _ alloc =>
        match alloc.node with
        | some n => n ≠ 0 ∧ ∀ x < tbl.numbuckets, (tbl.buckets x).nodes n = none
        | none => True
    | _ => True

def rbthashServer (δ : Type) : Server (RbthashTable δ) (RbthashOp δ) (Answer δ) where
  step := rbthashStep
  allowed := rbthashAllowed

end LzLib.Rbthash.Trees
