/-
  LzLib.Rb.TraverserDef
  ─────────────────────
  `rb.c`: traversers, and the calls that replace an item.

  All traversers here are on one table, so `rb_table` is left out.  `rb_stack` is a
  list, the last entry first, and `rb_height` is its length.  A generation may be
  one less than that of a new table, which is 0.

  The functions for the two directions differ in 0 and 1 only: there is one text
  for both, with `d` for the link that is followed.  An `assert` that fails has no
  outcome, as has a node that is not live.
-/
import LzLib.Rb.RbDef

namespace LzLib.Rb

open LzLib.Foundation

variable {ε : Type}

/-! ## §1. Traversers. -/

/-- `struct rb_traverser`. -/
structure RbTraverser where
  node : Addr
  stack : List Addr
  generation : Int
  deriving DecidableEq

section Operations

variable (cmp : ε → ε → Int) (maxHeight : Nat)

/-- The loop of `trav_refresh` from `i`; `room`: how many entries the stack still has. -/
def refreshDown (t : RbTable ε) (node : Addr) : Nat → Addr → List Addr → Option (List Addr)
  | room, i, stack =>
      if i = node then some stack
      else
        match room with
        | 0 => none
        | room + 1 =>
            if i = 0 then none
            else do
              let x ← t.nodes node
              let n ← t.nodes i
              refreshDown t node room (n.link (0 < cmp x.data n.data)) (i :: stack)

/-- `trav_refresh`. -/
def travRefresh (t : RbTable ε) (trav : RbTraverser) : Option RbTraverser :=
  let trav := { trav with generation := t.generation }
  if trav.node = 0 then some trav
  else do
    let stack ← refreshDown cmp t trav.node maxHeight t.root []
    return { trav with stack }

/-- `rb_t_init`. -/
def rbTInit (t : RbTable ε) : RbTraverser := ⟨0, [], t.generation⟩

/-- `while (x->rb_link[d] != NULL)`: down from `x`, and the stack. -/
def edgeDown (t : RbTable ε) (d : Bool) : Nat → Addr → List Addr → Option (Addr × List Addr)
  | room, x, stack =>
      match t.nodes x with
      | none => none
      | some n =>
          if n.link d = 0 then some (x, stack)
          else
            match room with
            | 0 => none
            | room + 1 => edgeDown t d room (n.link d) (x :: stack)

/-- `rb_t_first` and `rb_t_last`, and the item that they return. -/
def travEdge (t : RbTable ε) (d : Bool) : Option (RbTraverser × Option ε) :=
  if t.root = 0 then some (⟨0, [], t.generation⟩, none)
  else do
    let (x, stack) ← edgeDown t d maxHeight t.root []
    let n ← t.nodes x
    return (⟨x, stack, t.generation⟩, some n.data)

/-- `rb_t_first`. -/
def rbTFirst (t : RbTable ε) : Option (RbTraverser × Option ε) := travEdge maxHeight t false

/-- `rb_t_last`. -/
def rbTLast (t : RbTable ε) : Option (RbTraverser × Option ε) := travEdge maxHeight t true

/-- The loop of `rb_t_find` from `p`.  The node that was found (NULL: none), and the stack. -/
def findDown (t : RbTable ε) (item : ε) : Nat → Addr → List Addr → Option (Addr × List Addr)
  | room, p, stack =>
      if p = 0 then some (0, [])
      else
        match t.nodes p with
        | none => none
        | some n =>
            if cmp item n.data = 0 then some (p, stack)
            else
              match room with
              | 0 => none
              | room + 1 => findDown t item room (n.link (0 < cmp item n.data)) (p :: stack)

/-- `rb_t_find`. -/
def rbTFind (t : RbTable ε) (item : ε) : Option (RbTraverser × Option ε) := do
  let (p, stack) ← findDown cmp t item maxHeight t.root []
  if p = 0 then return (⟨0, stack, t.generation⟩, none)
  else
    let n ← t.nodes p
    return (⟨p, stack, t.generation⟩, some n.data)

/-- `rb_t_insert`.  The stack stays what it was, behind the generation of the table. -/
def rbTInsert (t : RbTable ε) (trav : RbTraverser) (item : ε) (alloc : Option Addr) :
    Option (RbTable ε × RbTraverser × Option ε) := do
  let (t, p) ← rbProbe cmp maxHeight t item alloc
  match p with
  | some p =>
      let n ← t.nodes p
      return (t, ⟨p, trav.stack, t.generation - 1⟩, some n.data)
  | none => return (t, rbTInit t, none)

/-- `rb_t_cur`. -/
def rbTCur (t : RbTable ε) (trav : RbTraverser) : Option (Option ε) :=
  if trav.node = 0 then some none else (t.nodes trav.node).map fun n => some n.data

/-- `rb_t_copy`; where both are one traverser, this changes nothing either. -/
def rbTCopy (t : RbTable ε) (trav src : RbTraverser) : Option (RbTraverser × Option ε) := do
  let stack := if src.generation = t.generation then src.stack else trav.stack
  return (⟨src.node, stack, src.generation⟩, ← rbTCur t src)

/-- The loop `do … while (y == x->rb_link[d])`, up from `y`: where it ends (NULL: the
stack was empty), and the stack. -/
def climb (t : RbTable ε) (d : Bool) : Addr → List Addr → Option (Addr × List Addr)
  | _, [] => some (0, [])
  | y, x :: stack => do
      let n ← t.nodes x
      if y = n.link d then climb t d x stack else return (x, stack)

/-- `rb_t_next` and `rb_t_prev`, from their node `x`: where they end (NULL: there is no
such item), and the stack. -/
def stepFrom (t : RbTable ε) (d : Bool) (x : Addr) (stack : List Addr) : Option (Addr × List Addr) := do
  let n ← t.nodes x
  if n.link d ≠ 0 then
    if stack.length < maxHeight then
      edgeDown t (!d) (maxHeight - (stack.length + 1)) (n.link d) (x :: stack)
    else none
  else climb t d x stack

/-- `if (trav->rb_generation != trav->rb_table->rb_generation) trav_refresh (trav);`. -/
def travFresh (t : RbTable ε) (trav : RbTraverser) : Option RbTraverser :=
  if trav.generation ≠ t.generation then travRefresh cmp maxHeight t trav else some trav

/-- `rb_t_next` and `rb_t_prev`. -/
def travStep (t : RbTable ε) (d : Bool) (trav : RbTraverser) : Option (RbTraverser × Option ε) := do
  let trav ← travFresh cmp maxHeight t trav
  if trav.node = 0 then travEdge maxHeight t (!d)
  else
    let (x, stack) ← stepFrom maxHeight t d trav.node trav.stack
    if x = 0 then return ({ trav with node := 0, stack := stack }, none)
    else
      let n ← t.nodes x
      return ({ trav with node := x, stack := stack }, some n.data)

/-- `rb_t_next`. -/
def rbTNext (t : RbTable ε) (trav : RbTraverser) : Option (RbTraverser × Option ε) := travStep cmp maxHeight t true trav

/-- `rb_t_prev`. -/
def rbTPrev (t : RbTable ε) (trav : RbTraverser) : Option (RbTraverser × Option ε) := travStep cmp maxHeight t false trav

/-- `rb_t_replace`: the item that was replaced. -/
def rbTReplace (t : RbTable ε) (trav : RbTraverser) (new : ε) : Option (RbTable ε × ε) :=
  if trav.node = 0 then none
  else do
    let n ← t.nodes trav.node
    return (t.put trav.node { n with data := new }, n.data)

/-! ## §2. The calls over `rb_probe`. -/

variable [DecidableEq ε]

/-- `rb_insert`. -/
def rbInsert (t : RbTable ε) (item : ε) (alloc : Option Addr) : Option (RbTable ε × Option ε) := do
  let (t, p) ← rbProbe cmp maxHeight t item alloc
  match p with
  | none => return (t, none)
  | some p =>
      let n ← t.nodes p
      return (t, if n.data = item then none else some n.data)

/-- `rb_replace`. -/
def rbReplace (t : RbTable ε) (item : ε) (alloc : Option Addr) : Option (RbTable ε × Option ε) := do
  let (t, p) ← rbProbe cmp maxHeight t item alloc
  match p with
  | none => return (t, none)
  | some p =>
      let n ← t.nodes p
      if n.data = item then return (t, none)
      else return (t.put p { n with data := item }, some n.data)

end Operations

end LzLib.Rb
