/-
  LzLib.Rb.RbDef
  ──────────────
  `rb.c`: the red-black trees that `rbthash.c` keeps its entries in, with their
  nodes in memory.

  A function that follows NULL or a freed node, or writes beyond its stack of
  `RB_MAX_HEIGHT` entries, has no outcome (`none`).  The stacks `pa` and `da` are
  one list, the last entry first.  Where the source has two halves that differ in
  0 and 1 only (`da[k - 2] == 0` and else), there is one text here, with `d` for
  the side of the first half.
-/
import LzLib.Foundation.NullLists
import LzLib.Foundation.RedBlack

namespace LzLib.Rb

open LzLib.Foundation

variable {ε : Type}

/-! ## §1. Tables. -/

/-- `struct rb_node`. -/
structure RbNode (ε : Type) where
  link : Bool → Addr
  data : ε
  color : Color

/-- `struct rb_table`, with the live nodes that its allocator gave out.  The
`generation` is taken not to come round: fewer than `2 ^ 64` changes. -/
structure RbTable (ε : Type) where
  root : Addr
  count : Nat
  generation : Nat
  nodes : Heap (RbNode ε)

/-- An entry of `pa`: a node, or `&tree->rb_root` taken for one (`none`). -/
abbrev Place := Option Addr

/-- `pa[k - 1], da[k - 1]` first. -/
abbrev Stack := List (Place × Bool)

namespace RbTable

variable (t : RbTable ε)

def color (a : Addr) : Option Color := (t.nodes a).map RbNode.color

/-- `p->rb_link[d]`.  Behind `rb_root`, taken for a node, there is no second link. -/
def link (p : Place) (d : Bool) : Option Addr :=
  match p with
  | none => if d then none else some t.root
  | some a => (t.nodes a).map fun n => n.link d

/-- The memory with the node `n` at `a`. -/
def put (a : Addr) (n : RbNode ε) : RbTable ε := { t with nodes := Function.update t.nodes a (some n) }

/-- `a->rb_color = c`. -/
def setColor (a : Addr) (c : Color) : Option (RbTable ε) := do
  let n ← t.nodes a
  return t.put a { n with color := c }

/-- `p->rb_link[d] = q`. -/
def setLink (p : Place) (d : Bool) (q : Addr) : Option (RbTable ε) :=
  match p with
  | none => if d then none else some { t with root := q }
  | some a => do
      let n ← t.nodes a
      return t.put a { n with link := Function.update n.link d q }

/-- `libavl_free (a)`. -/
def free (a : Addr) : RbTable ε := { t with nodes := Function.update t.nodes a none }

/-- `tree->rb_count++; tree->rb_generation++`. -/
def counted : RbTable ε := { t with count := t.count + 1, generation := t.generation + 1 }

/-- `tree->rb_count--; tree->rb_generation++`. -/
def discounted : RbTable ε := { t with count := t.count - 1, generation := t.generation + 1 }

/-- `a == NULL || a->rb_color == RB_BLACK`. -/
def isBlack (a : Addr) : Option Bool :=
  if a = 0 then some true else (t.color a).map fun c => c = .black

end RbTable

/-- `rb_create`, when the table can be allocated. -/
def rbCreate : RbTable ε := ⟨0, 0, 0, fun _ => none⟩

section Operations

variable (cmp : ε → ε → Int) (maxHeight : Nat)

/-! ## §2. Finding. -/

/-- The loop of `rb_find` from the node `p`, for at most `fuel` nodes. -/
def rbFindFrom (t : RbTable ε) (item : ε) : Nat → Addr → Option (Option ε)
  | 0, _ => none
  | fuel + 1, p =>
      if p = 0 then some none
      else do
        let n ← t.nodes p
        if cmp item n.data < 0 then rbFindFrom t item fuel (n.link false)
        else if 0 < cmp item n.data then rbFindFrom t item fuel (n.link true)
        else return some n.data

/-- `rb_find`; no way down is longer than the tree has nodes. -/
def rbFind (t : RbTable ε) (item : ε) : Option (Option ε) := rbFindFrom cmp t item (t.count + 1) t.root

/-! ## §3. Inserting. -/

/-- The way of `rb_probe` down from `p`; `room`: how many entries the stack still
has.  The node that was found (NULL: none), and the stack. -/
def probeDown (t : RbTable ε) (item : ε) : Nat → Addr → Stack → Option (Addr × Stack)
  | room, p, stack =>
      if p = 0 then some (0, stack)
      else
        match t.nodes p with
        | none => none
        | some n =>
            if cmp item n.data = 0 then some (p, stack)
            else
              match room with
              | 0 => none
              | room + 1 => probeDown t item room (n.link (0 < cmp item n.data)) ((some p, 0 < cmp item n.data) :: stack)

/-- The end of the loop: `g` is `pa[k - 2]`, `p` is `pa[k - 1]`, and `up` is `pa[k - 3]`. -/
def probeRotate (t : RbTable ε) (p g : Addr) (up : Place) (d₁ d₂ d₃ : Bool) : Option (RbTable ε) := do
  let (t, y) ←
    if d₁ = d₂ then some (t, p)
    else do
      let y ← t.link (some p) (!d₂)
      let t ← t.setLink (some p) (!d₂) (← t.link (some y) d₂)
      let t ← t.setLink (some y) d₂ p
      let t ← t.setLink (some g) d₂ y
      some (t, y)
  let t ← t.setColor g .red
  let t ← t.setColor y .black
  let t ← t.setLink (some g) d₂ (← t.link (some y) (!d₂))
  let t ← t.setLink (some y) (!d₂) g
  t.setLink up d₃ y

/-- The loop of `rb_probe` that repairs the colours. -/
def probeRepair (t : RbTable ε) : Stack → Option (RbTable ε)
  | (pa₁, d₁) :: (pa₂, d₂) :: (pa₃, d₃) :: stack => do
      let p ← pa₁
      if (← t.color p) = .red then
        let g ← pa₂
        let y ← t.link (some g) (!d₂)
        if ← t.isBlack y then probeRotate t p g pa₃ d₁ d₂ d₃
        else
          let t ← t.setColor y .black
          let t ← t.setColor p .black
          let t ← t.setColor g .red
          probeRepair t ((pa₃, d₃) :: stack)
      else return t
  | _ => some t

/-- `rb_probe`: the node whose `rb_data` it returns a pointer to.  `alloc`: what the
allocator answers. -/
def rbProbe (t : RbTable ε) (item : ε) (alloc : Option Addr) : Option (RbTable ε × Option Addr) := do
  let (p, stack) ← probeDown cmp t item (maxHeight - 1) t.root [(none, false)]
  if p ≠ 0 then return (t, some p)
  else
    let (q, d) ← stack.head?
    match alloc with
    | none => return (← t.setLink q d 0, none)
    | some n =>
        let t ← t.setLink q d n
        let t := t.put n ⟨fun _ => 0, item, .red⟩
        let t ← probeRepair t.counted stack
        let t ← t.setColor t.root .black
        return (t, some n)

/-! ## §4. Deleting. -/

/-- The way of `rb_delete` down from `p`, where the last comparison gave `c`.  The
node that was found (NULL: none), and the stack. -/
def deleteDown (t : RbTable ε) (item : ε) : Nat → Place → Int → Stack → Option (Place × Stack)
  | room, p, c, stack =>
      if c = 0 then some (p, stack)
      else
        match room with
        | 0 => none
        | room + 1 => do
            let q ← t.link p (0 < c)
            if q = 0 then some (none, stack)
            else
              let n ← t.nodes q
              deleteDown t item room (some q) (cmp item n.data) ((p, 0 < c) :: stack)

/-- The inner loop of `rb_delete`, down the left links from `r`: the last two nodes
`r` and `s`, and the stack with the way to `r`. -/
def successorDown (t : RbTable ε) : Nat → Addr → Stack → Option (Addr × Addr × Stack)
  | 0, _, _ => none
  | room + 1, r, stack => do
      let s ← t.link (some r) false
      if (← t.link (some s) false) = 0 then return (r, s, (some r, false) :: stack)
      else successorDown t room s ((some r, false) :: stack)

/-- `t = a->rb_color; a->rb_color = b->rb_color; b->rb_color = t`. -/
def swapColors (t : RbTable ε) (a b : Addr) : Option (RbTable ε) := do
  let ca ← t.color a
  let cb ← t.color b
  let t ← t.setColor a cb
  t.setColor b ca

/-- `p` leaves the tree: what comes in its place, and the stack with the way to
where a node is missing now. -/
def unlinkNode (t : RbTable ε) (p : Addr) (stack : Stack) : Option (RbTable ε × Stack) := do
  let (q, d) ← stack.head?
  let r ← t.link (some p) true
  if r = 0 then return (← t.setLink q d (← t.link (some p) false), stack)
  else if (← t.link (some r) false) = 0 then
    let t ← t.setLink (some r) false (← t.link (some p) false)
    let t ← swapColors t r p
    let t ← t.setLink q d r
    if stack.length < maxHeight then return (t, (some r, true) :: stack) else none
  else
    -- the entry `j` of the stack is left for `s`
    let (r', s, way) ← successorDown t (maxHeight - (stack.length + 1)) r []
    let t ← t.setLink q d s
    let t ← t.setLink (some s) false (← t.link (some p) false)
    let t ← t.setLink (some r') false (← t.link (some s) true)
    let t ← t.setLink (some s) true (← t.link (some p) true)
    let t ← swapColors t s p
    return (t, way ++ (some s, true) :: stack)

/-- A red sibling `w` of the hole on the side `d` below `a` comes up; `up`, `e`: the
entry before.  The new sibling. -/
def deleteRedSibling (t : RbTable ε) (a w : Addr) (d : Bool) (up : Place) (e : Bool) :
    Option (RbTable ε × Addr) := do
  let t ← t.setColor w .black
  let t ← t.setColor a .red
  let t ← t.setLink (some a) (!d) (← t.link (some w) d)
  let t ← t.setLink (some w) d a
  let t ← t.setLink up e w
  return (t, ← t.link (some a) (!d))

/-- The rotations that end the loop, at a black sibling `w` with a red child. -/
def deleteRotate (t : RbTable ε) (a w : Addr) (d : Bool) (up : Place) (e : Bool) : Option (RbTable ε) := do
  let (t, w) ←
    if ← t.isBlack (← t.link (some w) (!d)) then do
      let y ← t.link (some w) d
      let t ← t.setColor y .black
      let t ← t.setColor w .red
      let t ← t.setLink (some w) d (← t.link (some y) (!d))
      let t ← t.setLink (some y) (!d) w
      let t ← t.setLink (some a) (!d) y
      some (t, y)
    else some (t, w)
  let t ← t.setColor w (← t.color a)
  let t ← t.setColor a .black
  let t ← t.setColor (← t.link (some w) (!d)) .black
  let t ← t.setLink (some a) (!d) (← t.link (some w) d)
  let t ← t.setLink (some w) d a
  t.setLink up e w

/-- The loop of `rb_delete` that repairs the colours, for at most `fuel` rounds. -/
def deleteRepair (t : RbTable ε) : Nat → Stack → Option (RbTable ε)
  | 0, _ => none
  | _ + 1, [] => none
  | fuel + 1, (pa, d) :: stack => do
      let x ← t.link pa d
      if !(← t.isBlack x) then t.setColor x .black
      else
        match stack with
        | [] => return t
        | (up, e) :: rest =>
            let a ← pa
            let w ← t.link (some a) (!d)
            let (t, w, stack) ←
              if (← t.color w) = .red then do
                let (t, w') ← deleteRedSibling t a w d up e
                if stack.length + 1 < maxHeight then some (t, w', (some w, d) :: (up, e) :: rest) else none
              else some (t, w, (up, e) :: rest)
            if (← t.isBlack (← t.link (some w) false)) && (← t.isBlack (← t.link (some w) true)) then
              let t ← t.setColor w .red
              deleteRepair t fuel stack
            else
              let (up, e) ← stack.head?
              deleteRotate t a w d up e

/-- `rb_delete`: the item that was found and taken out.  The repair ends, since two
rounds go up by one entry at least. -/
def rbDelete (t : RbTable ε) (item : ε) : Option (RbTable ε × Option ε) := do
  let (p, stack) ← deleteDown cmp t item maxHeight none (-1) []
  match p with
  | none => return (t, none)
  | some p =>
      let n ← t.nodes p
      let (t, stack) ← unlinkNode maxHeight t p stack
      let t ← if (← t.color p) = .black then deleteRepair maxHeight t (2 * stack.length + 1) stack else some t
      return ((t.free p).discounted, some n.data)

end Operations

/-! ## §5. The end. -/

/-- The loop of `rb_destroy` from the node `p`; `destroy`: whether there is a
function to destroy the items.  The arguments of that function, in order. -/
def rbDestroyFrom (t : RbTable ε) (destroy : Bool) : Nat → Addr → Option (RbTable ε × List ε)
  | 0, _ => none
  | fuel + 1, p =>
      if p = 0 then some (t, [])
      else do
        let n ← t.nodes p
        if n.link false = 0 then
          let (t, ys) ← rbDestroyFrom (t.free p) destroy fuel (n.link true)
          return (t, if destroy then n.data :: ys else ys)
        else
          let q := n.link false
          let t ← t.setLink (some p) false (← t.link (some q) true)
          let t ← t.setLink (some q) true p
          rbDestroyFrom t destroy fuel q

/-- `rb_destroy`: the nodes that are left, and what was destroyed.  No node comes
up twice, so the loop has no more than two rounds for each. -/
def rbDestroy (t : RbTable ε) (destroy : Bool) : Option (Heap (RbNode ε) × List ε) := do
  let (t, ys) ← rbDestroyFrom t destroy (2 * t.count + 1) t.root
  return (t.nodes, ys)

/-- `RB_MAX_HEIGHT`, unless it is defined otherwise. -/
def rbMaxHeight : Nat := 48

end LzLib.Rb
