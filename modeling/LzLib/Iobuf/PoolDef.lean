/-
  LzLib.Iobuf.PoolDef
  ───────────────────
  **THE IOBUF POOL** (`iobuf.c`): arenas of equal pages, handed out with a
  reference count.

  A pool keeps its arenas on three circular lists: `arenas` (the candidates
  for the next page), `filled` (no free page) and `purge` (no page in use).
  An arena keeps its iobufs on two: `active` and `passive`.  The links of both
  kinds of list are the memories `alinks` and `blinks`; the other fields of a
  live arena are in `heap`.

  An iobuf is an element of its arena's array, so its address is the arena
  with an index, and `iobuf->iobuf_arena` is the first half of it.  `none` is
  a run without an outcome: a failed assertion, an access to a freed arena, a
  division by zero, a signed overflow, or a loop that goes round more often
  than the pool has arenas.
-/
import LzLib.Foundation.NullLists
import LzLib.Foundation.Rings
import LzLib.Foundation.Words

namespace LzLib.Iobuf

open LzLib.Foundation

/-! ## §1. Data. -/

/-- The lists of a pool. -/
inductive PoolList
  | arenas
  | filled
  | purge
deriving DecidableEq

/-- What `arena->list` links: heads of a pool, arenas, and `LIST_POISON`. -/
inductive ArenaNode
  | head (l : PoolList)
  | arena (a : Addr)
  | poison
deriving DecidableEq

/-- The lists of an arena. -/
inductive Side
  | active
  | passive
deriving DecidableEq

/-- `struct iobuf *`: `&arena->iobufs[index]`. -/
structure IobufPtr where
  arena : Addr
  index : Nat
deriving DecidableEq

/-- What `iobuf->list` links: heads of an arena, iobufs, and `LIST_POISON`. -/
inductive IobufNode
  | head (i : Addr × Side)
  | iobuf (b : IobufPtr)
  | poison
deriving DecidableEq

/-- `struct iobuf`, without its links. -/
structure IobufData where
  ref : Int
  ptr : Int
deriving DecidableEq

/-- `struct iobuf_arena`, without its links; `iobufs` is `none` for NULL. -/
structure Arena where
  memBase : Int
  iobufs : Option (List IobufData)
  activeCnt : Int
  passiveCnt : Int

/-- A `CALLOC`ed arena. -/
def Arena.zero : Arena := ⟨0, none, 0, 0⟩

/-- `struct iobuf_pool` with the memory of its arenas.  `unmapped` and `puts`
record the calls of `munmap` and `__iobuf_put`. -/
structure Pool where
  pageSize : Nat
  arenaSize : Nat
  arenaCnt : Int
  alinks : Links ArenaNode
  blinks : Links IobufNode
  heap : Heap Arena
  unmapped : List Int
  puts : List IobufPtr

/-- `MAP_FAILED`. -/
def mapFailed : Int := -1

/-- What the system answers when an arena is allocated. -/
structure AllocEnv where
  /-- `CALLOC` of the arena. -/
  calloc : Option Addr
  /-- The result of `mmap`. -/
  map : Int
  /-- `CALLOC` of the iobufs succeeds. -/
  iobufs : Bool

/-- `iobuf_cnt = arena_size / page_size`. -/
def Pool.iobufCnt (p : Pool) : Option Int :=
  if p.pageSize = 0 then none else some (wrap32 (p.arenaSize / p.pageSize : Nat))

def Pool.setArena (p : Pool) (a : Addr) (A : Arena) : Pool :=
  { p with heap := Function.update p.heap a (some A) }

/-- `list_del` of an arena, then `list_add` at the head `l`. -/
def Pool.moveArena (p : Pool) (a : Addr) (l : PoolList) : Pool :=
  { p with alinks := listAdd (listDel .poison p.alinks (.arena a)) (.arena a) (.head l) }

/-- `list_del` of an arena, then `list_add_tail` at the head `l`. -/
def Pool.moveArenaTail (p : Pool) (a : Addr) (l : PoolList) : Pool :=
  { p with alinks := listAddTail (listDel .poison p.alinks (.arena a)) (.arena a) (.head l) }

/-! ## §2. Arenas come and go. -/

/-- `n` rounds of the loop of `__iobuf_arena_init_iobufs` from round `i`. -/
def initIobufsLoop (pageSize : Nat) (a : Addr) :
    Nat → Nat → Int → List IobufData → Arena → Links IobufNode → Option (Arena × Links IobufNode)
  | 0, _, _, bufs, A, L => some ({ A with iobufs := some bufs }, L)
  | n + 1, i, offset, bufs, A, L =>
      let node := IobufNode.iobuf ⟨a, i⟩
      let bufs := bufs.modify i fun d => { d with ptr := A.memBase + offset }
      let L := listAdd (initListHead L node) node (.head (a, .passive))
      match incInt A.passiveCnt with
      | none => none
      | some cnt =>
          initIobufsLoop pageSize a n (i + 1) (wrap32 (offset + pageSize)) bufs
            { A with passiveCnt := cnt } L

/-- `__iobuf_arena_init_iobufs`. -/
def iobufArenaInitIobufs (p : Pool) (a : Addr) (A : Arena) (calloc : Bool) : Option Pool :=
  match p.iobufCnt with
  | none => none
  | some cnt =>
      if calloc then
        match initIobufsLoop p.pageSize a cnt.toNat 0 0 (List.replicate cnt.toNat ⟨0, 0⟩) A p.blinks with
        | none => none
        | some (A, L) => some { p with blinks := L, heap := Function.update p.heap a (some A) }
      else some p

/-- `n` rounds of the loop of `__iobuf_arena_destroy_iobufs` from round `i`. -/
def destroyIobufsLoop (a : Addr) (bufs : List IobufData) :
    Nat → Nat → Links IobufNode → Option (Links IobufNode)
  | 0, _, L => some L
  | n + 1, i, L =>
      match bufs[i]? with
      | none => none
      | some d =>
          -- assert (iobuf->ref == 0)
          if d.ref = 0 then destroyIobufsLoop a bufs n (i + 1) (listDelInit L (.iobuf ⟨a, i⟩)) else none

/-- `__iobuf_arena_destroy_iobufs`. -/
def iobufArenaDestroyIobufs (p : Pool) (a : Addr) (A : Arena) : Option Pool :=
  match p.iobufCnt with
  | none => none
  | some cnt =>
      match A.iobufs with
      | none => some p
      | some bufs => (destroyIobufsLoop a bufs cnt.toNat 0 p.blinks).map fun L => { p with blinks := L }

/-- `__iobuf_arena_destroy`. -/
def iobufArenaDestroy (p : Pool) (a : Addr) : Option Pool :=
  match p.heap a with
  | none => none
  | some A =>
      match iobufArenaDestroyIobufs p a A with
      | none => none
      | some p =>
          let unmapped :=
            if A.memBase ≠ 0 ∧ A.memBase ≠ mapFailed then p.unmapped ++ [A.memBase] else p.unmapped
          some { p with unmapped := unmapped, heap := Function.update p.heap a none }

/-- The `CALLOC`ed and initialised arena of `__iobuf_arena_alloc`. -/
def Pool.freshArena (p : Pool) (a : Addr) (map : Int) : Pool :=
  { p with
    alinks := initListHead p.alinks (.arena a)
    blinks := initListHead (initListHead p.blinks (.head (a, .active))) (.head (a, .passive))
    heap := Function.update p.heap a (some { Arena.zero with memBase := map }) }

/-- `__iobuf_arena_alloc`. -/
def iobufArenaAlloc (p : Pool) (env : AllocEnv) : Option (Pool × Option Addr) :=
  match env.calloc with
  | none => some (p, none)
  | some a =>
      let p := p.freshArena a env.map
      if env.map = mapFailed then (iobufArenaDestroy p a).map (·, none)
      else
        match iobufArenaInitIobufs p a { Arena.zero with memBase := env.map } env.iobufs with
        | none => none
        | some p =>
            if (p.heap a).bind Arena.iobufs = none then (iobufArenaDestroy p a).map (·, none)
            else (incInt p.arenaCnt).map fun cnt => ({ p with arenaCnt := cnt }, some a)

/-- `__iobuf_arena_unprune`. -/
def iobufArenaUnprune (p : Pool) : Option (Pool × Option Addr) :=
  match (p.alinks (.head .purge)).next with
  | .head .purge => some (p, none)
  | .arena a => some ({ p with alinks := listDelInit p.alinks (.arena a) }, some a)
  | _ => none

/-- The tail of `__iobuf_pool_add_arena`: `list_add_tail` to `arenas`. -/
def Pool.offerArena (p : Pool) (a : Addr) : Pool :=
  { p with alinks := listAddTail p.alinks (.arena a) (.head .arenas) }

/-- `__iobuf_pool_add_arena`. -/
def iobufPoolAddArena (p : Pool) (env : AllocEnv) : Option (Pool × Option Addr) :=
  match iobufArenaUnprune p with
  | none => none
  | some (p, some a) => some (p.offerArena a, some a)
  | some (p, none) =>
      match iobufArenaAlloc p env with
      | none => none
      | some (p, some a) => some (p.offerArena a, some a)
      | some (p, none) => some (p, none)

/-- `iobuf_pool_new`, with `calloc` for the allocation of the pool itself. -/
def iobufPoolNew (arenaSize pageSize : Nat) (calloc : Bool) (env : AllocEnv) : Option (Option Pool) :=
  if arenaSize < pageSize then some none
  else if calloc then
    let links : Links ArenaNode := fun _ => ⟨.poison, .poison⟩
    let alinks := initListHead links (.head .arenas)
    let alinks := initListHead alinks (.head .filled)
    let alinks := initListHead alinks (.head .purge)
    let p : Pool :=
      { pageSize := pageSize, arenaSize := arenaSize, arenaCnt := 0, alinks := alinks
        blinks := fun _ => ⟨.poison, .poison⟩, heap := fun _ => none, unmapped := [], puts := [] }
    -- the result of iobuf_pool_add_arena is not looked at
    (iobufPoolAddArena p env).map fun r => some r.1
  else some none

/-- The loop of `__iobuf_pool_prune` from a node of `purge`. -/
def pruneLoop : Nat → Pool → ArenaNode → Option Pool
  | 0, _, _ => none
  | _ + 1, p, .head .purge => some p
  | n + 1, p, .arena a =>
      match p.heap a with
      | none => none
      | some A =>
          -- the traversal is a safe one: the next arena is read first
          let next := (p.alinks (.arena a)).next
          if A.activeCnt ≠ 0 then pruneLoop n p next
          else
            match decInt p.arenaCnt with
            | none => none
            | some cnt =>
                match iobufArenaDestroy
                  { p with alinks := listDelInit p.alinks (.arena a), arenaCnt := cnt } a with
                | none => none
                | some p => pruneLoop n p next
  | _ + 1, _, _ => none

/-- `__iobuf_pool_prune`. -/
def iobufPoolPrune (p : Pool) : Option Pool :=
  if listEmpty p.alinks (.head .arenas) then some p
  else pruneLoop (p.arenaCnt.toNat + 1) p (p.alinks (.head .purge)).next

/-- The loop of `iobuf_pool_destroy` from a node of `arenas`. -/
def destroyLoop : Nat → Pool → ArenaNode → Option Pool
  | 0, _, _ => none
  | _ + 1, p, .head .arenas => some p
  | n + 1, p, .arena a =>
      -- a safe traversal, as in `__iobuf_pool_prune`
      let next := (p.alinks (.arena a)).next
      match decInt p.arenaCnt with
      | none => none
      | some cnt =>
          match iobufArenaDestroy
            { p with alinks := listDelInit p.alinks (.arena a), arenaCnt := cnt } a with
          | none => none
          | some p => destroyLoop n p next
  | _ + 1, _, _ => none

/-- `iobuf_pool_destroy`. -/
def iobufPoolDestroy (p : Pool) : Option Pool :=
  destroyLoop (p.arenaCnt.toNat + 1) p (p.alinks (.head .arenas)).next

/-! ## §3. Getting and putting an iobuf. -/

/-- The loop of `__iobuf_select_arena` from a node of `arenas`. -/
def selectLoop (p : Pool) : Nat → ArenaNode → Option (Option Addr)
  | 0, _ => none
  | _ + 1, .head .arenas => some none
  | n + 1, .arena a =>
      match p.heap a with
      | none => none
      | some A => if A.passiveCnt ≠ 0 then some (some a) else selectLoop p n (p.alinks (.arena a)).next
  | _ + 1, _ => none

/-- `__iobuf_select_arena`. -/
def iobufSelectArena (p : Pool) (env : AllocEnv) : Option (Pool × Option Addr) :=
  match selectLoop p (p.arenaCnt.toNat + 1) (p.alinks (.head .arenas)).next with
  | none => none
  | some (some a) => some (p, some a)
  | some none => iobufPoolAddArena p env

/-- `iobuf->ref` becomes what `f` makes of it. -/
def Pool.modifyRef (p : Pool) (b : IobufPtr) (f : Int → Option Int) : Option (Pool × Int) :=
  match p.heap b.arena with
  | none => none
  | some A =>
      match A.iobufs with
      | none => none
      | some bufs =>
          match bufs[b.index]? with
          | none => none
          | some d => (f d.ref).map fun r =>
              (p.setArena b.arena { A with iobufs := some (bufs.set b.index { d with ref := r }) }, r)

/-- `iobuf_ref`. -/
def iobufRef (p : Pool) (b : IobufPtr) : Option Pool := (p.modifyRef b incInt).map Prod.fst

/-- `__iobuf_get`. -/
def iobufGetLocked (p : Pool) (a : Addr) : Option (Pool × IobufPtr) :=
  match (p.blinks (.head (a, .passive))).next, p.heap a with
  | .iobuf b, some A =>
      match decInt A.passiveCnt, incInt A.activeCnt with
      | some passiveCnt, some activeCnt =>
          let p :=
            { p with blinks := listAdd (listDel .poison p.blinks (.iobuf b)) (.iobuf b) (.head (a, .active)) }
          let p := p.setArena a { A with passiveCnt := passiveCnt, activeCnt := activeCnt }
          some (if passiveCnt = 0 then p.moveArena a .filled else p, b)
      | _, _ => none
  | _, _ => none

/-- `iobuf_get`. -/
def iobufGet (p : Pool) (env : AllocEnv) : Option (Pool × Option IobufPtr) :=
  match iobufSelectArena p env with
  | none => none
  | some (p, none) => some (p, none)
  | some (p, some a) =>
      match iobufGetLocked p a with
      | none => none
      | some (p, b) => (iobufRef p b).map fun p => (p, some b)

/-- `__iobuf_put`. -/
def iobufPutLocked (p : Pool) (b : IobufPtr) : Option Pool :=
  match p.heap b.arena with
  | none => none
  | some A =>
      let p := if A.passiveCnt = 0 then p.moveArenaTail b.arena .arenas else p
      match decInt A.activeCnt, incInt A.passiveCnt with
      | some activeCnt, some passiveCnt =>
          let p :=
            { p with
              blinks := listAdd (listDelInit p.blinks (.iobuf b)) (.iobuf b) (.head (b.arena, .passive))
              puts := p.puts ++ [b] }
          let p := p.setArena b.arena { A with activeCnt := activeCnt, passiveCnt := passiveCnt }
          some (if activeCnt = 0 then p.moveArenaTail b.arena .purge else p)
      | _, _ => none

/-- `iobuf_put`. -/
def iobufPut (p : Pool) (b : IobufPtr) : Option Pool :=
  match iobufPutLocked p b with
  | none => none
  | some p => iobufPoolPrune p

/-- `iobuf_unref`. -/
def iobufUnref (p : Pool) (b : IobufPtr) : Option Pool :=
  match p.modifyRef b decInt with
  | none => none
  | some (p, ref) => if ref = 0 then iobufPut p b else some p

end LzLib.Iobuf
