/-
  LzLib.MemPool.MemPoolDef
  ────────────────────────
  **THE MEMORY POOL OF `mem-pool.c`.**

  One slab of `count` chunks.  A chunk is a list header of
  `LZ_MEM_POOL_PAD_BOUNDARY` bytes with the memory for the caller behind it;
  the headers of the free chunks are linked on the pool's list.  With no free
  chunk left `mem_get` turns to `malloc`, and `mem_put` finds out by the
  address which kind of pointer it is given.

  Addresses are numbers below `2 ^ 64`, 0 is `NULL`.  The links of the headers
  are kept apart from the bytes they lie in: what the callers may write to is
  a question about addresses.
-/
import LzLib.Foundation.Rings
import LzLib.Foundation.Runs
import LzLib.Foundation.Words
import Mathlib.Algebra.Group.Int.Defs
import Mathlib.Algebra.Group.Nat.Defs

namespace LzLib

open LzLib.Foundation

/-! ## §1. Data. -/

/-- What the list of a pool links: its head, and the headers of chunks. -/
inductive MemPool.ListNode where
  | head
  | chunk (a : Nat)
  | poison
  deriving DecidableEq

/-- `struct mem_pool`; `list` are the links of its list and of the headers. -/
structure MemPool where
  list : Links MemPool.ListNode
  hotCount : Int
  coldCount : Int
  paddedSizeofType : Nat
  pool : Nat
  poolEnd : Nat
  realSizeofType : Int

namespace MemPool

/-- `LZ_MEM_POOL_PAD_BOUNDARY`, which is `sizeof (struct list_head)`. -/
def padBoundary : Nat := 16

/-! ## §2. A new pool. -/

/-- What `CALLOC` answers for the pool itself and for its slab. -/
structure NewEnv where
  calloc : Bool
  slab : Option Nat

/-- `n` rounds of the loop of `mem_pool_new_fn` from round `i`. -/
def initChunks (pool padded : Nat) : Nat → Nat → Links ListNode → Links ListNode
  | 0, _, L => L
  | n + 1, i, L =>
      let list := ListNode.chunk (pool + i * padded)
      initChunks pool padded n (i + 1) (listAddTail (initListHead L list) list .head)

/-- `mem_pool_new_fn`; `none` is `NULL`. -/
def memPoolNewFn (sizeofType count : Nat) (env : NewEnv) : Option MemPool :=
  if sizeofType = 0 ∨ count = 0 then none
  else if env.calloc = false then none
  else
    let padded := (sizeofType + padBoundary) % 2 ^ 64
    env.slab.map fun pool =>
      { list := initChunks pool padded count 0 (initListHead (fun _ => ⟨.poison, .poison⟩) .head)
        hotCount := 0
        coldCount := wrap32 count
        paddedSizeofType := padded
        pool := pool
        poolEnd := pool + count * padded
        realSizeofType := wrap32 sizeofType }

/-! ## §3. Getting and putting. -/

/-- `mem_get`, with the answer of `MALLOC`; `none` where a list without a chunk
is unlinked. -/
def memGet (p : MemPool) (malloc : Option Nat) : Option (MemPool × Option Nat) :=
  if p.coldCount ≠ 0 then
    match (p.list .head).next with
    | .chunk a =>
        some ({ p with
          list := listDel .poison p.list (.chunk a)
          hotCount := p.hotCount + 1
          coldCount := p.coldCount - 1 }, some (a + padBoundary))
    | _ => none
  -- memory from the heap is not moved past a header
  else some (p, malloc)

/-- `__is_member`; the remainder is that of an `unsigned long`. -/
def isMember (p : MemPool) (ptr : Nat) : Int :=
  if ptr = 0 then -1
  else if ptr < p.pool ∨ p.poolEnd ≤ ptr then 0
  else if ((ptr : Int) - padBoundary - p.pool) % 2 ^ 64 % p.paddedSizeofType ≠ 0 then -1
  else 1

/-- `mem_put`, and the pointer it gives to `FREE`; `none` is `abort ()`. -/
def memPut (p : MemPool) (ptr : Nat) : Option (MemPool × Option Nat) :=
  if ptr = 0 then some (p, none)
  else if isMember p ptr = 1 then
    some ({ p with
      list := listAdd p.list (.chunk (ptr - padBoundary)) .head
      hotCount := p.hotCount - 1
      coldCount := p.coldCount + 1 }, none)
  else if isMember p ptr = -1 then none
  else some (p, some ptr)

/-! ## §4. A pool and its callers. -/

/-- `[a, a + n)` and `[b, b + m)` have no byte in common. -/
def Apart (a n b m : Nat) : Prop := a + n ≤ b ∨ b + m ≤ a

instance (a n b m : Nat) : Decidable (Apart a n b m) := inferInstanceAs (Decidable (_ ∨ _))

/-- A pool, the pointers that callers have got and not yet put, and the blocks
of the heap, with their sizes, that `mem_get` has got from `malloc`. -/
structure Client where
  mp : MemPool
  out : List Nat
  heap : List (Nat × Nat)

inductive PoolOp where
  | get (malloc : Option Nat)
  | put (ptr : Nat)
  deriving DecidableEq

/-- One call, with what the callers hold and the heap after it. -/
def Client.step (c : Client) : PoolOp → Option Client
  | .get malloc => (memGet c.mp malloc).map fun r =>
      let block := if c.mp.coldCount = 0 then malloc.map fun a => (a, c.mp.realSizeofType.toNat) else none
      ⟨r.1, r.2.toList ++ c.out, block.toList ++ c.heap⟩
  | .put ptr => (memPut c.mp ptr).map fun r =>
      ⟨r.1, c.out.erase ptr, c.heap.eraseP fun b => r.2 = some b.1⟩

/-- What `malloc` promises of a block: it is apart from the slab and from the
blocks that are not freed. -/
def Client.Fresh (c : Client) (a : Nat) : Prop :=
  a ≠ 0 ∧ Apart a c.mp.realSizeofType.toNat c.mp.pool (c.mp.poolEnd - c.mp.pool) ∧
    ∀ b ∈ c.heap, Apart a c.mp.realSizeofType.toNat b.1 b.2

/-- `malloc`, asked for a block, keeps its promise; callers put what they hold. -/
def Client.allowed (c : Client) : PoolOp → Prop
  | .get malloc => c.mp.coldCount = 0 → ∀ a, malloc = some a → c.Fresh a
  | .put ptr => ptr ∈ c.out

def memPoolClient : Component Client PoolOp := ⟨Client.step, Client.allowed⟩

end MemPool

end LzLib
