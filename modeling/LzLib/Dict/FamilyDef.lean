/-
  LzLib.Dict.FamilyDef
  ────────────────────
  **MANY DICTS, ONE SET OF VALUES** (`dict_copy`, `dict_copy_with_ref`,
  `dict_destroy`, `dict.c`).

  The dicts of a program share their values: one `data_t` can sit in several
  dicts and under several keys.  A `Family` is all of them at once.  Beside
  what the program has in memory it records two things the program does not:
  the references its callers hold, and the calls of `data_destroy` so far.
  The second is found by replaying the `data_ref` and `data_unref` calls of
  each operation, one after the other.
-/
import LzLib.Dict.DictDef
import LzLib.Foundation.Runs
import Mathlib.Data.List.Dedup

namespace LzLib.Dict

open LzLib.Foundation

/-! ## §1. Walking the members of a dict. -/

/-- `dict_foreach`, at most `fuel` pairs.  `pairsOf` reads the pairs of the
walked dict: the callback `fn` may have changed them. -/
def dictForeach {σ : Type} (pairsOf : σ → Option (Heap Pair)) (fn : σ → CStr → Addr → Option σ) :
    Nat → Addr → σ → Option σ
  | 0, pairs, s => if pairs = 0 then some s else none
  | fuel + 1, pairs, s =>
      if pairs = 0 then some s
      else do
        let heap ← pairsOf s
        let pair ← heap pairs
        let s ← fn s pair.key pair.value
        -- `pairs = pairs->next` comes after the callback
        let heap ← pairsOf s
        let pair ← heap pairs
        dictForeach pairsOf fn fuel pair.next s

/-- The loop of `dict_destroy`, at most `fuel` pairs. -/
def destroyPairs : Nat → Addr → Heap Pair → DataHeap → Option DataHeap
  | 0, prev, _, h => if prev = 0 then some h else none
  | fuel + 1, prev, pairs, h =>
      if prev = 0 then some h
      else do
        let c ← pairs prev
        let h ← dataUnref h c.value
        destroyPairs fuel c.next (Function.update pairs prev none) h

/-- `dict_destroy`: what is left is the values. -/
def dictDestroy (this : Dict) (h : DataHeap) : Option DataHeap :=
  destroyPairs this.brk this.membersList this.pairs h

/-! ## §2. The calls an operation makes to `data_ref` and `data_unref`. -/

/-- One such call. -/
inductive RefCall where
  /-- `data_ref`. -/
  | ref (this : Addr)
  /-- `data_unref`. -/
  | unref (this : Addr)
  deriving DecidableEq

/-- `data_unref` of `this` drops its count to 0 and calls `data_destroy`. -/
def lastRef (h : DataHeap) (this : Addr) : Bool := (h.cells this).any fun d => d.refcount - 1 = 0

/-- The heap after some calls, and the values destroyed by them. -/
def replay : DataHeap → List RefCall → Option (DataHeap × List Addr)
  | h, [] => some (h, [])
  | h, .ref this :: calls => do
      let (h, _) ← dataRef h this
      replay h calls
  | h, .unref this :: calls => do
      let h' ← dataUnref h this
      let (h'', dead) ← replay h' calls
      return (h'', if lastRef h this then this :: dead else dead)

/-- The calls of `dict_set`: on overwriting, the new value is held before the old
one is let go. -/
def dictSetCalls (this : Dict) (key : Option CStr) (value : Addr) : Option (List RefCall) :=
  if value = 0 then some []
  else do
    let pair ← dictLookup this (key.getD (refKey value))
    if pair = 0 then return [.ref value]
    else
      let old ← this.pairs pair
      return [.ref value, .unref old.value]

/-- The calls of `dict_del`. -/
def dictDelCalls (this : Dict) (key : CStr) : Option (List RefCall) := do
  let first ← this.bucket (this.getBucket key)
  let (_, pair) ← findPrevPair this.pairs key this.brk 0 first
  if pair = 0 then return []
  else
    let p ← this.pairs pair
    return [.unref p.value]

/-- The calls of a `dict_get_*` wrapper. -/
def dictGetCalls (this : Dict) (key : CStr) : Option (List RefCall) := do
  let pair ← dictLookup this key
  if pair = 0 then return []
  else
    let p ← this.pairs pair
    return [.ref p.value, .unref p.value]

/-- The calls of the loop of `dict_destroy`. -/
def destroyCalls (pairs : Heap Pair) : Nat → Addr → Option (List RefCall)
  | 0, prev => if prev = 0 then some [] else none
  | fuel + 1, prev =>
      if prev = 0 then some []
      else do
        let c ← pairs prev
        let calls ← destroyCalls pairs fuel c.next
        return .unref c.value :: calls

/-- The calls of `dict_destroy`. -/
def dictDestroyCalls (this : Dict) : Option (List RefCall) :=
  destroyCalls this.pairs this.brk this.membersList

/-! ## §3. The family. -/

/-- Dicts by number, their values, the references callers hold, and the values
`data_destroy` has been called for. -/
structure Family where
  dicts : Nat → Option Dict
  made : Nat
  heap : DataHeap
  held : List Addr
  destroyed : List Addr

/-- Nothing has been made yet. -/
def Family.start : Family where
  dicts _ := none
  made := 0
  heap := { cells := fun _ => none, brk := 1 }
  held := []
  destroyed := []

/-- An operation has made some calls and left the heap `h'`. -/
def Family.charge (w : Family) (calls : List RefCall) (h' : DataHeap) : Option Family := do
  let (_, dead) ← replay w.heap calls
  return { w with heap := h', destroyed := w.destroyed ++ dead }

/-- Another dict. -/
def Family.addDict (w : Family) (d : Dict) : Family :=
  { w with dicts := Function.update w.dicts w.made (some d), made := w.made + 1 }

/-- Dict `i` has become `d`. -/
def Family.putDict (w : Family) (i : Nat) (d : Option Dict) : Family :=
  { w with dicts := Function.update w.dicts i d }

/-- `dict_set` on dict `i`. -/
def Family.set (w : Family) (i : Nat) (key : Option CStr) (value : Addr) : Option Family := do
  let d ← w.dicts i
  let calls ← dictSetCalls d key value
  let (d', h', _) ← dictSet d w.heap key value
  (w.putDict i (some d')).charge calls h'

/-- `dict_del` on dict `i`. -/
def Family.del (w : Family) (i : Nat) (key : CStr) : Option Family := do
  let d ← w.dicts i
  let calls ← dictDelCalls d key
  let (d', h') ← dictDel d w.heap key
  (w.putDict i (some d')).charge calls h'

/-- A `dict_get_*` wrapper on dict `i`. -/
def Family.getVia {α : Type} (w : Family) (convert : Data → Int × α) (i : Nat) (key : CStr) :
    Option Family := do
  let d ← w.dicts i
  let calls ← dictGetCalls d key
  let (_, _, h') ← dictGetVia convert d w.heap key
  w.charge calls h'

/-- `dict_foreach (dict, _copy, new)` for the dicts `i` and `j`. -/
def Family.copyInto (w : Family) (i j : Nat) : Option Family := do
  let dict ← w.dicts i
  dictForeach (fun w => (w.dicts i).map Dict.pairs) (fun w key value => w.set j (some key) value)
    dict.brk dict.membersList w

/-- `dict_copy`; a NULL `new` stands for a dict with as many buckets. -/
def Family.copy (w : Family) (i : Nat) (new : Option Nat) : Option Family := do
  let dict ← w.dicts i
  match new with
  | some j => w.copyInto i j
  | none => (w.addDict (getNewDictFull dict.hashSize)).copyInto i w.made

/-- `dict_copy_with_ref`; a NULL `new` stands for a dict of `dict_new`. -/
def Family.copyWithRef (w : Family) (i : Nat) (new : Option Nat) : Option Family :=
  match new with
  | some j => w.copyInto i j
  | none => (w.addDict LzLib.Dict.dictNew).copyInto i w.made

/-- `data_ref` by a caller, who keeps what it returns. -/
def Family.ref (w : Family) (this : Addr) : Option Family := do
  let (h', data) ← dataRef w.heap this
  { w with held := if data = 0 then w.held else data :: w.held }.charge [.ref this] h'

/-- `data_unref` by a caller. -/
def Family.unref (w : Family) (this : Addr) : Option Family := do
  let h' ← dataUnref w.heap this
  { w with held := w.held.erase this }.charge [.unref this] h'

/-- `dict_destroy` of dict `i`. -/
def Family.destroy (w : Family) (i : Nat) : Option Family := do
  let d ← w.dicts i
  let calls ← dictDestroyCalls d
  let h' ← dictDestroy d w.heap
  (w.putDict i none).charge calls h'

/-! ## §4. Runs of a family. -/

/-- The operations; dicts go by their number. -/
inductive FamilyOp (α : Type) where
  /-- `get_new_dict_full`, and `get_new_dict` with 1. -/
  | getNewDictFull (sizeHint : Int)
  /-- `dict_new`. -/
  | dictNew
  /-- A constructor of values: the cell `c`, with its reference count at 0. -/
  | newData (c : Data)
  /-- `dict_set`. -/
  | set (i : Nat) (key : Option CStr) (value : Addr)
  /-- `dict_del`. -/
  | del (i : Nat) (key : CStr)
  /-- A `dict_get_*` wrapper. -/
  | getVia (convert : Data → Int × α) (i : Nat) (key : CStr)
  /-- `dict_copy`. -/
  | copy (i : Nat) (new : Option Nat)
  /-- `dict_copy_with_ref`. -/
  | copyWithRef (i : Nat) (new : Option Nat)
  /-- `data_ref`. -/
  | ref (this : Addr)
  /-- `data_unref`. -/
  | unref (this : Addr)
  /-- `dict_destroy`. -/
  | destroy (i : Nat)

/-- One operation. -/
def familyStep {α : Type} (w : Family) : FamilyOp α → Option Family
  | .getNewDictFull sizeHint => some (w.addDict (getNewDictFull sizeHint))
  | .dictNew => some (w.addDict LzLib.Dict.dictNew)
  | .newData c => some { w with heap := (w.heap.alloc { c with refcount := 0 }).1 }
  | .set i key value => w.set i key value
  | .del i key => w.del i key
  | .getVia convert i key => w.getVia convert i key
  | .copy i new => w.copy i new
  | .copyWithRef i new => w.copyWithRef i new
  | .ref this => w.ref this
  | .unref this => w.unref this
  | .destroy i => w.destroy i

/-- A `data_t` that has been made and not destroyed. -/
def Family.live (w : Family) (a : Addr) : Bool := (w.heap.cells a).isSome && !w.destroyed.contains a

/-- What callers promise: their dicts and values are live, and they hold what
they release. -/
def promised {α : Type} (w : Family) : FamilyOp α → Bool
  | .getNewDictFull _ => true
  | .dictNew => true
  | .newData _ => true
  | .set i _ value => (w.dicts i).isSome && (value = 0 || w.live value)
  | .del i _ => (w.dicts i).isSome
  | .getVia _ i _ => (w.dicts i).isSome
  | .copy i new => (w.dicts i).isSome && new.all fun j => (w.dicts j).isSome
  | .copyWithRef i new => (w.dicts i).isSome && new.all fun j => (w.dicts j).isSome
  | .ref this => w.live this
  | .unref this => w.held.contains this
  | .destroy i => (w.dicts i).isSome

/-- Runs in which callers keep their promises. -/
def familyComponent (α : Type) : Component Family (FamilyOp α) where
  step := familyStep
  allowed w o := promised w o = true

/-! ## §5. Who refers to a value. -/

/-- The keys under which a dict stores `a`. -/
def keysOf (this : Dict) (a : Addr) : List CStr :=
  ((List.range this.brk).filterMap fun p =>
    (this.pairs p).bind fun c => if c.value = a then some c.key else none).dedup

/-- The (dict, key) slots storing `a`. -/
def Family.slots (w : Family) (a : Addr) : Nat :=
  ((List.range w.made).map fun i => (w.dicts i).elim 0 fun d => (d.keysOf a).length).sum

/-- The slots storing `a` and the references callers hold to it. -/
def Family.refs (w : Family) (a : Addr) : Nat := w.slots a + w.held.count a

end LzLib.Dict
