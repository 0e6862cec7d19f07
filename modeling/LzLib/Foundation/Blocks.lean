/-
  LzLib.Foundation.Blocks
  ───────────────────────
  **A HEAP OF BLOCKS.**

  A block holds bytes or pointers; it is named by the order of its allocation,
  and is gone once it has been freed.  `none` as an answer is what C leaves
  undefined: an access outside a block, and a block freed twice.  The
  environment decides which allocations it grants.

  The lemmas find a block in `front ++ some b :: behind` by the length of
  `front`, and change nothing else.
-/
import LzLib.Foundation.Words

namespace LzLib.Foundation

/-! ## §1. The heap. -/

/-- What a block holds. -/
inductive Block where
  | bytes (bs : Bytes)
  | slots (ps : List (Option Nat))
  deriving DecidableEq

/-- The blocks in the order of their allocation, `none` where freed. -/
abbrev Blocks := List (Option Block)

/-- The block of a string. -/
def Block.ofStr (s : CStr) : Block := .bytes (s.chars ++ [0])

/-- An allocation, if `alloc` grants the block of this number; NULL else. -/
def Blocks.allocate (h : Blocks) (alloc : Nat → Bool) (b : Block) : Option Nat × Blocks :=
  if alloc h.length then (some h.length, h ++ [some b]) else (none, h)

/-- `free`. -/
def Blocks.free (h : Blocks) : Option Nat → Option Blocks
  | none => some h
  | some i =>
      match h[i]? with
      | some (some _) => some (h.set i none)
      | _ => none

/-- The bytes of block `i`. -/
def Blocks.bytes (h : Blocks) (i : Nat) : Option Bytes :=
  match h[i]? with
  | some (some (.bytes bs)) => some bs
  | _ => none

/-- The pointers in block `i`. -/
def Blocks.slots (h : Blocks) (i : Nat) : Option (List (Option Nat)) :=
  match h[i]? with
  | some (some (.slots ps)) => some ps
  | _ => none

/-- The string in block `i` from `off` on. -/
def Blocks.cstr (h : Blocks) (i off : Nat) : Option CStr := (h.bytes i).bind fun bs => CStr.scan (bs.drop off)

/-- `block[off] = c`, for bytes. -/
def Blocks.putByte (h : Blocks) (i off : Nat) (c : UInt8) : Option Blocks :=
  (h.bytes i).bind fun bs => if off < bs.length then some (h.set i (some (.bytes (bs.set off c)))) else none

/-- `block[k]`, for pointers. -/
def Blocks.slot (h : Blocks) (i : Nat) (k : Int) : Option (Option Nat) :=
  (h.slots i).bind fun ps => if 0 ≤ k then ps[k.toNat]? else none

/-- `block[k] = p`, for pointers. -/
def Blocks.putSlot (h : Blocks) (i : Nat) (k : Int) (p : Option Nat) : Option Blocks :=
  (h.slots i).bind fun ps =>
    if 0 ≤ k ∧ k < ps.length then some (h.set i (some (.slots (ps.set k.toNat p)))) else none

/-- `strdup` of the string in block `i` from `off` on. -/
def Blocks.strdup (h : Blocks) (alloc : Nat → Bool) (i off : Nat) : Option (Option Nat × Blocks) :=
  (h.cstr i off).map fun s => h.allocate alloc (Block.ofStr s)

/-! ## §2. One block among others. -/

section At

variable {front behind : Blocks} {i : Nat} {bs : Bytes} {ps : List (Option Nat)}

theorem Blocks.getElem?_at {b : Option Block} (hi : i = front.length) : (front ++ b :: behind)[i]? = some b := by
  rw [hi, List.getElem?_append_right (Nat.le_refl _), Nat.sub_self]
  rfl

theorem Blocks.set_at {b b' : Option Block} (hi : i = front.length) :
    (front ++ b :: behind).set i b' = front ++ b' :: behind := by
  rw [hi, List.set_append_right _ _ (Nat.le_refl _), Nat.sub_self]
  rfl

theorem Blocks.bytes_at (hi : i = front.length) : Blocks.bytes (front ++ some (.bytes bs) :: behind) i = some bs := by
  unfold Blocks.bytes
  rw [Blocks.getElem?_at hi]

theorem Blocks.slots_at (hi : i = front.length) : Blocks.slots (front ++ some (.slots ps) :: behind) i = some ps := by
  unfold Blocks.slots
  rw [Blocks.getElem?_at hi]

/-- **What is live can be freed.** -/
theorem Blocks.free_at {b : Block} (hi : i = front.length) :
    Blocks.free (front ++ some b :: behind) (some i) = some (front ++ none :: behind) := by
  unfold Blocks.free
  simp only [Blocks.getElem?_at hi, Blocks.set_at hi]

/-- The string that starts behind `done`. -/
theorem Blocks.cstr_at (hi : i = front.length) {done t rest : Bytes} (hnul : (0 : UInt8) ∉ t) {off : Nat}
    (hoff : off = done.length) :
    Blocks.cstr (front ++ some (.bytes (done ++ (t ++ 0 :: rest))) :: behind) i off = some ⟨t, hnul⟩ := by
  have hscan : CStr.scan (t ++ 0 :: rest) = some ⟨t, hnul⟩ := CStr.scan_chars ⟨t, hnul⟩ rest
  unfold Blocks.cstr
  rw [Blocks.bytes_at hi, Option.bind_some, hoff, List.drop_left, hscan]

theorem Blocks.putByte_at (hi : i = front.length) {done rest : Bytes} {b c : UInt8} {off : Nat}
    (hoff : off = done.length) :
    Blocks.putByte (front ++ some (.bytes (done ++ b :: rest)) :: behind) i off c
      = some (front ++ some (.bytes (done ++ c :: rest)) :: behind) := by
  have hset : (done ++ b :: rest).set off c = done ++ c :: rest := by
    rw [hoff, List.set_append_right _ _ (Nat.le_refl _), Nat.sub_self]
    rfl
  unfold Blocks.putByte
  rw [Blocks.bytes_at hi, Option.bind_some, hset, Blocks.set_at hi, if_pos]
  rw [hoff, List.length_append, List.length_cons]
  omega

theorem Blocks.slot_at (hi : i = front.length) {slots : List (Option Nat)} (k : Nat) :
    Blocks.slot (front ++ some (.slots slots) :: behind) i k = slots[k]? := by
  unfold Blocks.slot
  rw [Blocks.slots_at hi, Option.bind_some, if_pos (by omega), Int.toNat_natCast]

theorem Blocks.putSlot_at (hi : i = front.length) {done rest : List (Option Nat)} {p q : Option Nat} {k : Int}
    (hk : k = done.length) :
    Blocks.putSlot (front ++ some (.slots (done ++ p :: rest)) :: behind) i k q
      = some (front ++ some (.slots (done ++ q :: rest)) :: behind) := by
  have htoNat : k.toNat = done.length := by omega
  have hset : (done ++ p :: rest).set k.toNat q = done ++ q :: rest := by
    rw [htoNat, List.set_append_right _ _ (Nat.le_refl _), Nat.sub_self]
    rfl
  unfold Blocks.putSlot
  rw [Blocks.slots_at hi, Option.bind_some, hset, Blocks.set_at hi, if_pos]
  rw [hk, List.length_append, List.length_cons]
  omega

/-- **Nothing is written behind the last slot.** -/
theorem Blocks.putSlot_outside (hi : i = front.length) {q : Option Nat} {k : Int} (hk : (ps.length : Int) ≤ k) :
    Blocks.putSlot (front ++ some (.slots ps) :: behind) i k q = none := by
  unfold Blocks.putSlot
  rw [Blocks.slots_at hi, Option.bind_some, if_neg (by omega)]

end At

end LzLib.Foundation
