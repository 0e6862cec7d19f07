/-
  LzLib.Iobuf.IobrefDef
  ─────────────────────
  **IOBREFS** (`iobuf.c`): a counted group of at most eight iobufs.  A slot
  holds one reference to its iobuf; the iobref itself has a count of its own,
  and the last reference to it releases the slots.

  Live iobrefs are kept by address.  `none` is a run without an outcome: of
  the pool, a signed overflow of a count, an access to a freed iobref, or a
  lock taken twice by one thread.
-/
import LzLib.Iobuf.PoolDef
import LzLib.Foundation.Assoc

namespace LzLib.Iobuf

open LzLib.Foundation

/-! ## §1. Data. -/

/-- `struct iobref`: `iobrefs[8]` is `slots`. -/
structure Iobref where
  ref : Int
  slots : List (Option IobufPtr)

/-- A pool, and the iobrefs in memory. -/
structure Buffers where
  pool : Pool
  iobrefs : List (Addr × Iobref)

def Buffers.setIobref (s : Buffers) (r : Addr) (x : Iobref) : Buffers :=
  { s with iobrefs := assocSet s.iobrefs r x }

/-- `-ENOMEM`. -/
def negENOMEM : Int := -12

/-! ## §2. Creating and destroying. -/

/-- `iobref_new`; `calloc` is the answer of `CALLOC`. -/
def iobrefNew (s : Buffers) (calloc : Option Addr) : Buffers × Option Addr :=
  match calloc with
  | none => (s, none)
  | some r => (s.setIobref r ⟨0 + 1, List.replicate 8 none⟩, some r)

/-- `iobref_ref`. -/
def iobrefRef (s : Buffers) (r : Addr) : Option Buffers :=
  match assocGet s.iobrefs r with
  | none => none
  | some x => (incInt x.ref).map fun ref => s.setIobref r { x with ref := ref }

/-- The loop of `iobref_destroy` over the slots. -/
def releaseLoop : List (Option IobufPtr) → Pool → Option Pool
  | [], p => some p
  | none :: slots, p => releaseLoop slots p
  | some b :: slots, p =>
      match iobufUnref p b with
      | none => none
      | some p => releaseLoop slots p

/-- `iobref_destroy`. -/
def iobrefDestroy (s : Buffers) (r : Addr) : Option Buffers :=
  match assocGet s.iobrefs r with
  | none => none
  | some x => (releaseLoop x.slots s.pool).map fun p => ⟨p, assocDel s.iobrefs r⟩

/-- `iobref_unref`. -/
def iobrefUnref (s : Buffers) (r : Addr) : Option Buffers :=
  match assocGet s.iobrefs r with
  | none => none
  | some x =>
      match decInt x.ref with
      | none => none
      | some ref =>
          let s := s.setIobref r { x with ref := ref }
          if ref = 0 then iobrefDestroy s r else some s

/-! ## §3. Adding and merging. -/

/-- The loop of `__iobref_add`: the first empty slot takes the iobuf. -/
def addLoop (p : Pool) (b : IobufPtr) :
    List (Option IobufPtr) → Option (Pool × List (Option IobufPtr) × Int)
  | [] => some (p, [], negENOMEM)
  | none :: slots => (iobufRef p b).map fun p => (p, some b :: slots, 0)
  | some b' :: slots => (addLoop p b slots).map fun r => (r.1, some b' :: r.2.1, r.2.2)

/-- `iobref_add`. -/
def iobrefAdd (s : Buffers) (r : Addr) (b : IobufPtr) : Option (Buffers × Int) :=
  match assocGet s.iobrefs r with
  | none => none
  | some x =>
      match addLoop s.pool b x.slots with
      | none => none
      | some (p, slots, ret) => some (⟨p, assocSet s.iobrefs r { x with slots := slots }⟩, ret)

/-- The loop of `iobref_merge` over the slots of `from`. -/
def mergeLoop (to' : Addr) : List (Option IobufPtr) → Buffers → Int → Option (Buffers × Int)
  | [], s, ret => some (s, ret)
  | none :: _, s, ret => some (s, ret)
  | some b :: slots, s, _ =>
      match iobrefAdd s to' b with
      | none => none
      | some (s, ret) => if ret < 0 then some (s, ret) else mergeLoop to' slots s ret

/-- `iobref_merge`; `from->lock` is held over the loop, and `iobref_add` takes
`to->lock`: one iobref merged into itself waits for its own lock. -/
def iobrefMerge (s : Buffers) (to' from' : Addr) : Option (Buffers × Int) :=
  match assocGet s.iobrefs from' with
  | none => none
  | some x =>
      if to' = from' ∧ x.slots.head? ≠ some none then none else mergeLoop to' x.slots s 0

/-! ## §4. Runs. -/

/-- The memory, and the references that callers hold to iobufs and to
iobrefs. -/
structure Holders where
  buf : Buffers
  held : IobufPtr → Nat
  heldRefs : Addr → Nat

/-- What callers do. -/
inductive IobrefOp
  | get (env : AllocEnv)
  | ref (b : IobufPtr)
  | unref (b : IobufPtr)
  | newIobref (calloc : Option Addr)
  | refIobref (r : Addr)
  | unrefIobref (r : Addr)
  | add (r : Addr) (b : IobufPtr)
  | merge (to' from' : Addr)

/-- An operation, with the references it gives to the caller or takes back. -/
def Holders.step (s : Holders) : IobrefOp → Option Holders
  | .get env =>
      match iobufGet s.buf.pool env with
      | none => none
      | some (p, none) => some { s with buf := { s.buf with pool := p } }
      | some (p, some b) =>
          some { s with buf := { s.buf with pool := p }, held := Function.update s.held b (s.held b + 1) }
  | .ref b =>
      (iobufRef s.buf.pool b).map fun p =>
        { s with buf := { s.buf with pool := p }, held := Function.update s.held b (s.held b + 1) }
  | .unref b =>
      (iobufUnref s.buf.pool b).map fun p =>
        { s with buf := { s.buf with pool := p }, held := Function.update s.held b (s.held b - 1) }
  | .newIobref calloc =>
      match iobrefNew s.buf calloc with
      | (buf, none) => some { s with buf := buf }
      | (buf, some r) => some { s with buf := buf, heldRefs := Function.update s.heldRefs r 1 }
  | .refIobref r =>
      (iobrefRef s.buf r).map fun buf =>
        { s with buf := buf, heldRefs := Function.update s.heldRefs r (s.heldRefs r + 1) }
  | .unrefIobref r =>
      (iobrefUnref s.buf r).map fun buf =>
        { s with buf := buf, heldRefs := Function.update s.heldRefs r (s.heldRefs r - 1) }
  | .add r b => (iobrefAdd s.buf r b).map fun res => { s with buf := res.1 }
  | .merge to' from' => (iobrefMerge s.buf to' from').map fun res => { s with buf := res.1 }

end LzLib.Iobuf
