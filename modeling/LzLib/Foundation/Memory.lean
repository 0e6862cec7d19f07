/-
  LzLib.Foundation.Memory
  ───────────────────────
  **VARIABLES IN A MEMORY OF BYTES.**

  A memory gives every address a byte.  An integer type has a size and may have
  a sign; a variable holds an integer of its type in two's complement, the low
  byte first.  A store is read back (`value_store`) and changes no byte outside
  the variable (`store_outside`).
-/
import LzLib.Foundation.Words
import Mathlib.Algebra.Group.Nat.Defs
import Mathlib.Algebra.Group.Int.Defs

namespace LzLib.Foundation

/-- The bytes of a process. -/
abbrev Memory := Nat → UInt8

/-- An integer type of C. -/
structure CInt where
  size : Nat
  signed : Bool
  deriving DecidableEq

/-- How many values the type has. -/
def CInt.card (t : CInt) : Nat := 256 ^ t.size

/-- The type has the value. -/
def CInt.Has (t : CInt) (z : Int) : Prop :=
  if t.signed then -(t.card : Int) ≤ 2 * z ∧ 2 * z < t.card else 0 ≤ z ∧ z < t.card

instance (t : CInt) (z : Int) : Decidable (t.Has z) := by
  unfold CInt.Has
  infer_instance

theorem CInt.has_signed {size : Nat} {z : Int} :
    (CInt.mk size true).Has z ↔ -(256 : Int) ^ size ≤ 2 * z ∧ 2 * z < 256 ^ size := by
  show -((256 ^ size : Nat) : Int) ≤ 2 * z ∧ 2 * z < ((256 ^ size : Nat) : Int) ↔ _
  rw [Int.natCast_pow]
  rfl

theorem CInt.has_unsigned {size : Nat} {z : Int} : (CInt.mk size false).Has z ↔ 0 ≤ z ∧ z < 256 ^ size := by
  show 0 ≤ z ∧ z < ((256 ^ size : Nat) : Int) ↔ _
  rw [Int.natCast_pow]
  rfl

/-- A byte and its successor differ. -/
theorem byte_ne_succ (b : UInt8) : b ≠ b + 1 := by
  obtain ⟨b⟩ := b
  revert b
  decide +kernel

/-! ## §1. Store and load. -/

/-- The unsigned number with the two's complement of `z`. -/
def CInt.encode (t : CInt) (z : Int) : Nat := (z % t.card).toNat

/-- `*a = z`, for a variable of the type at `a`. -/
def Memory.store (m : Memory) (t : CInt) (a : Nat) (z : Int) : Memory :=
  fun i => if a ≤ i ∧ i < a + t.size then (t.encode z / 256 ^ (i - a)).toUInt8 else m i

/-- The `k` bytes at `a`, as an unsigned number. -/
def Memory.load (m : Memory) (a : Nat) : Nat → Nat
  | 0 => 0
  | k + 1 => m.load a k + 256 ^ k * (m (a + k)).toNat

/-- `*a`, for a variable of the type at `a`. -/
def Memory.value (m : Memory) (t : CInt) (a : Nat) : Int :=
  let u := m.load a t.size
  if t.signed ∧ t.card ≤ 2 * u then (u : Int) - t.card else u

/-! ## §2. What is stored is read back. -/

section Store

variable (m : Memory) (t : CInt) (a : Nat) (z : Int)

theorem CInt.card_pos : 0 < t.card := Nat.pow_pos (by decide)

/-- **A store stays inside its variable.** -/
theorem Memory.store_outside {i : Nat} (h : i < a ∨ a + t.size ≤ i) : m.store t a z i = m i := by
  unfold Memory.store
  rw [if_neg (by omega)]

theorem Memory.store_inside {k : Nat} (h : k < t.size) :
    m.store t a z (a + k) = (t.encode z / 256 ^ k).toUInt8 := by
  unfold Memory.store
  rw [if_pos (by omega), Nat.add_sub_cancel_left]

theorem Memory.load_store {k : Nat} (h : k ≤ t.size) : (m.store t a z).load a k = t.encode z % 256 ^ k := by
  induction k with
  | zero =>
      rw [Nat.pow_zero, Nat.mod_one]
      rfl
  | succ k ih =>
      have hbyte : ((t.encode z / 256 ^ k).toUInt8).toNat = t.encode z / 256 ^ k % 256 := rfl
      rw [Memory.load, ih (by omega), m.store_inside t a z (by omega), hbyte, Nat.mod_pow_succ]

theorem CInt.encode_lt : t.encode z < t.card := by
  have hpos := t.card_pos
  have hlt := Int.emod_lt_of_pos z (show (0 : Int) < t.card by omega)
  have hnonneg := Int.emod_nonneg z (show (t.card : Int) ≠ 0 by omega)
  unfold CInt.encode
  omega

variable {z}

/-- What is encoded of a number that is not negative, and of a negative one. -/
theorem CInt.encode_eq (h : t.Has z) : (t.encode z : Int) = if z < 0 then z + t.card else z := by
  have hpos := t.card_pos
  have hwide : -(t.card : Int) ≤ z ∧ z < t.card := by
    unfold CInt.Has at h
    split at h <;> omega
  have hnonneg := Int.emod_nonneg z (show (t.card : Int) ≠ 0 by omega)
  unfold CInt.encode
  rw [Int.toNat_of_nonneg hnonneg]
  by_cases hz : z < 0
  · rw [if_pos hz, ← Int.add_emod_right]
    exact Int.emod_eq_of_lt (by omega) (by omega)
  · rw [if_neg hz]
    exact Int.emod_eq_of_lt (by omega) hwide.2

/-- **A variable holds what has been stored**, if its type has the value. -/
theorem Memory.value_store (h : t.Has z) : (m.store t a z).value t a = z := by
  have hload : (m.store t a z).load a t.size = t.encode z := by
    rw [m.load_store t a z (Nat.le_refl _)]
    exact Nat.mod_eq_of_lt (t.encode_lt z)
  have henc := t.encode_eq h
  unfold Memory.value
  dsimp only
  rw [hload]
  unfold CInt.Has at h
  cases hs : t.signed with
  | false =>
      rw [hs, if_neg (by decide)] at h
      rw [if_neg (by simp), henc, if_neg (by omega)]
  | true =>
      rw [hs, if_pos rfl] at h
      by_cases hz : z < 0
      · rw [if_pos hz] at henc
        rw [if_pos ⟨rfl, by omega⟩]
        omega
      · rw [if_neg hz] at henc
        rw [if_neg (by omega)]
        exact henc

end Store

end LzLib.Foundation
