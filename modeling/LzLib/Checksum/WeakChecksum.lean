/-
  LzLib.Checksum.WeakChecksum
  ───────────────────────────
  **THE WEAK CHECKSUM OF RSYNC** (`checksum.c`).

  Two `uint32_t` accumulators over signed bytes: the sum of the bytes, and the
  sum of these sums.  The loop takes four bytes at a time while more than four
  are left.  Unsigned arithmetic is that of a ring, in which the accumulators
  are the images of two integers, `sum₁` and `sum₂`: `weakTail_sums`.
-/
import LzLib.Foundation.Words
import Mathlib.Algebra.BigOperators.Fin
import Mathlib.Tactic.Ring

namespace LzLib.Checksum

open LzLib.Foundation

/-- A byte as a `signed char`. -/
def signedChar (c : UInt8) : Int := if c < 128 then c.toNat else (c.toNat : Int) - 256

/-! ## §1. The function. -/

/-- The tail loop, byte by byte. -/
def weakTail : UInt32 → UInt32 → Bytes → UInt32 × UInt32
  | s₁, s₂, [] => (s₁, s₂)
  | s₁, s₂, b :: buf =>
      let s₁ := s₁ + UInt32.ofInt (signedChar b)
      weakTail s₁ (s₂ + s₁) buf

/-- The loop over four bytes, while `i < len - 4`, and the tail loop behind it. -/
def weakLoop : UInt32 → UInt32 → Bytes → UInt32 × UInt32
  -- `b₄` stays: four bytes left are for the tail loop
  | s₁, s₂, b₀ :: b₁ :: b₂ :: b₃ :: b₄ :: buf =>
      let s₂ := s₂ + (4 * (s₁ + UInt32.ofInt (signedChar b₀)) + UInt32.ofInt (3 * signedChar b₁)
        + UInt32.ofInt (2 * signedChar b₂) + UInt32.ofInt (signedChar b₃))
      let s₁ := s₁ + UInt32.ofInt (signedChar b₀ + signedChar b₁ + signedChar b₂ + signedChar b₃)
      weakLoop s₁ s₂ (b₄ :: buf)
  | s₁, s₂, buf => weakTail s₁ s₂ buf

/-- The two accumulators as one checksum. -/
def weakSum (s : UInt32 × UInt32) : UInt32 := (s.1 &&& (0xffff : UInt32)) + (s.2 <<< 16)

/-- `rsync_weak_checksum`. -/
def rsyncWeakChecksum (buf : Bytes) : UInt32 := weakSum (weakLoop 0 0 buf)

/-! ## §2. The sums. -/

/-- The sum of the bytes. -/
def sum₁ (buf : Bytes) : Int := ∑ i : Fin buf.length, signedChar buf[i]

/-- The sum of the bytes, each as often as it is summed up. -/
def sum₂ (buf : Bytes) : Int := ∑ i : Fin buf.length, ((buf.length : Int) - (i : Nat)) * signedChar buf[i]

theorem sum₁_cons (b : UInt8) (buf : Bytes) : sum₁ (b :: buf) = signedChar b + sum₁ buf := by
  show (∑ i : Fin (buf.length + 1), signedChar (b :: buf)[i]) = _
  rw [Fin.sum_univ_succ]
  rfl

theorem sum₂_cons (b : UInt8) (buf : Bytes) :
    sum₂ (b :: buf) = (buf.length + 1) * signedChar b + sum₂ buf := by
  show (∑ i : Fin (buf.length + 1), (((b :: buf).length : Int) - (i : Nat)) * signedChar (b :: buf)[i]) = _
  rw [Fin.sum_univ_succ]
  have hsucc : ∀ i : Fin buf.length, (((b :: buf).length : Int) - (i.succ : Nat)) * signedChar (b :: buf)[i.succ]
      = ((buf.length : Int) - (i : Nat)) * signedChar buf[i] := by
    intro i
    have hlen : ((b :: buf).length : Int) - (i.succ : Nat) = (buf.length : Int) - (i : Nat) := by
      rw [List.length_cons, Fin.val_succ]
      omega
    rw [hlen]
    rfl
  rw [Finset.sum_congr rfl (fun i _ => hsucc i)]
  simp [sum₂]

theorem sum₁_concat (buf : Bytes) (y : UInt8) : sum₁ (buf ++ [y]) = sum₁ buf + signedChar y := by
  induction buf with
  | nil => simp [sum₁]
  | cons b buf ih => rw [List.cons_append, sum₁_cons, sum₁_cons, ih]; omega

theorem sum₂_concat (buf : Bytes) (y : UInt8) : sum₂ (buf ++ [y]) = sum₂ buf + sum₁ buf + signedChar y := by
  induction buf with
  | nil => simp [sum₁, sum₂]
  | cons b buf ih =>
      rw [List.cons_append, sum₂_cons, sum₂_cons, sum₁_cons, ih, List.length_append]
      push_cast
      simp only [List.length_cons, List.length_nil]
      push_cast
      ring

/-! ## §3. The loops. -/

theorem weakTail_sums : ∀ (buf : Bytes) (s₁ s₂ : UInt32), weakTail s₁ s₂ buf
    = (s₁ + UInt32.ofInt (sum₁ buf), s₂ + UInt32.ofInt buf.length * s₁ + UInt32.ofInt (sum₂ buf)) := by
  intro buf
  induction buf with
  | nil =>
      intro s₁ s₂
      have h₁ : UInt32.ofInt (sum₁ []) = 0 := rfl
      have h₂ : UInt32.ofInt (sum₂ []) = 0 := rfl
      have hlen : UInt32.ofInt (([] : Bytes).length : Int) = 0 := rfl
      rw [weakTail, h₁, h₂, hlen]
      congr 1
      · grind
      · grind
  | cons b buf ih =>
      intro s₁ s₂
      have hlen : UInt32.ofInt ((b :: buf).length : Int) = UInt32.ofInt buf.length + 1 := by
        rw [List.length_cons, Int.natCast_add, UInt32.ofInt_add]
        rfl
      -- an identity in the ring of `uint32_t`, with the sums behind `b` as its variables
      rw [weakTail, ih, sum₁_cons, sum₂_cons, hlen, UInt32.ofInt_add, UInt32.ofInt_add, UInt32.ofInt_mul,
        UInt32.ofInt_add, UInt32.ofInt_one]
      congr 1
      · grind
      · grind

/-- Four steps of the tail loop at once. -/
theorem weakTail_four (s₁ s₂ : UInt32) (b₀ b₁ b₂ b₃ : UInt8) (buf : Bytes) :
    weakTail s₁ s₂ (b₀ :: b₁ :: b₂ :: b₃ :: buf)
      = weakTail (s₁ + UInt32.ofInt (signedChar b₀ + signedChar b₁ + signedChar b₂ + signedChar b₃))
          (s₂ + (4 * (s₁ + UInt32.ofInt (signedChar b₀)) + UInt32.ofInt (3 * signedChar b₁)
            + UInt32.ofInt (2 * signedChar b₂) + UInt32.ofInt (signedChar b₃))) buf := by
  have h₂ : UInt32.ofInt 2 = 2 := rfl
  have h₃ : UInt32.ofInt 3 = 3 := rfl
  simp only [weakTail, UInt32.ofInt_add, UInt32.ofInt_mul, h₂, h₃]
  congr 1
  · grind
  · grind

theorem weakLoop_eq_weakTail (s₁ s₂ : UInt32) (buf : Bytes) : weakLoop s₁ s₂ buf = weakTail s₁ s₂ buf := by
  fun_induction weakLoop s₁ s₂ buf with
  | case1 s₁ s₂ b₀ b₁ b₂ b₃ b₄ buf s₂' s₁' ih => rw [ih, weakTail_four]
  | case2 => rfl

/-! ## §4. The halves. -/

theorem ofInt_low (a : Int) : ((UInt32.ofInt a).toNat % 2 ^ 16 : Nat) = a % 2 ^ 16 := by
  unfold UInt32.ofInt
  rw [UInt32.toNat_ofNat']
  omega

theorem weakSum_toNat (s : UInt32 × UInt32) :
    (weakSum s).toNat = s.1.toNat % 2 ^ 16 + 2 ^ 16 * (s.2.toNat % 2 ^ 16) := by
  have hand : s.1.toNat &&& 0xffff = s.1.toNat % 2 ^ 16 := Nat.and_two_pow_sub_one_eq_mod s.1.toNat 16
  have hshift : (s.2.toNat <<< 16) % 2 ^ 32 = 2 ^ 16 * (s.2.toNat % 2 ^ 16) := by
    rw [Nat.shiftLeft_eq]
    omega
  unfold weakSum
  rw [UInt32.toNat_add, UInt32.toNat_and, UInt32.toNat_shiftLeft]
  show ((s.1.toNat &&& 0xffff) + (s.2.toNat <<< 16) % 2 ^ 32) % 2 ^ 32 = _
  rw [hand, hshift]
  omega

/-- The closed form. -/
theorem rsyncWeakChecksum_toNat (buf : Bytes) :
    ((rsyncWeakChecksum buf).toNat : Int) = sum₁ buf % 2 ^ 16 + 2 ^ 16 * (sum₂ buf % 2 ^ 16) := by
  have hsums : weakLoop 0 0 buf = (UInt32.ofInt (sum₁ buf), UInt32.ofInt (sum₂ buf)) := by
    rw [weakLoop_eq_weakTail, weakTail_sums]
    congr 1
    · grind
    · grind
  have h₁ := ofInt_low (sum₁ buf)
  have h₂ := ofInt_low (sum₂ buf)
  unfold rsyncWeakChecksum
  rw [hsums, weakSum_toNat]
  rw [Int.natCast_add, Int.natCast_mul, h₁, h₂]
  rfl

/-- The half of a checksum that holds the sum of the bytes. -/
def lowHalf (csum : UInt32) : Int := csum.toNat % 2 ^ 16

/-- The half that holds the sum of these sums. -/
def highHalf (csum : UInt32) : Int := csum.toNat / 2 ^ 16

theorem lowHalf_rsync (buf : Bytes) : lowHalf (rsyncWeakChecksum buf) = sum₁ buf % 2 ^ 16 := by
  have h := rsyncWeakChecksum_toNat buf
  unfold lowHalf
  omega

theorem highHalf_rsync (buf : Bytes) : highHalf (rsyncWeakChecksum buf) = sum₂ buf % 2 ^ 16 := by
  have h := rsyncWeakChecksum_toNat buf
  unfold highHalf
  omega

/-! ## §5. The window. -/

theorem sum₁_slide (w : Bytes) (x y : UInt8) :
    sum₁ (w ++ [y]) = sum₁ (x :: w) - signedChar x + signedChar y := by
  rw [sum₁_concat, sum₁_cons]
  omega

theorem sum₂_slide (w : Bytes) (x y : UInt8) :
    sum₂ (w ++ [y]) = sum₂ (x :: w) - (x :: w).length * signedChar x + sum₁ (w ++ [y]) := by
  rw [sum₂_concat, sum₂_cons, sum₁_concat, List.length_cons]
  push_cast
  ring

/-- **The weak checksum is its definition.**  For every buffer the checksum holds the
two sums modulo `2 ^ 16`, the unrolled loop is the loop over single bytes, and a window
moved by one byte has the sums, and the halves of the checksum, that the old ones give. -/
theorem weak_checksum_exact :
    (∀ buf : Bytes, ((rsyncWeakChecksum buf).toNat : Int) = sum₁ buf % 2 ^ 16 + 2 ^ 16 * (sum₂ buf % 2 ^ 16))
    ∧ (∀ buf : Bytes, rsyncWeakChecksum buf = weakSum (weakTail 0 0 buf))
    ∧ ∀ (w : Bytes) (x y : UInt8),
        sum₁ (w ++ [y]) = sum₁ (x :: w) - signedChar x + signedChar y
        ∧ sum₂ (w ++ [y]) = sum₂ (x :: w) - (x :: w).length * signedChar x + sum₁ (w ++ [y])
        ∧ lowHalf (rsyncWeakChecksum (w ++ [y]))
          = (lowHalf (rsyncWeakChecksum (x :: w)) - signedChar x + signedChar y) % 2 ^ 16
        ∧ highHalf (rsyncWeakChecksum (w ++ [y]))
          = (highHalf (rsyncWeakChecksum (x :: w)) - (x :: w).length * signedChar x
              + lowHalf (rsyncWeakChecksum (w ++ [y]))) % 2 ^ 16 := by
  refine ⟨rsyncWeakChecksum_toNat, fun buf => ?_, fun w x y => ⟨sum₁_slide w x y, sum₂_slide w x y, ?_, ?_⟩⟩
  · unfold rsyncWeakChecksum
    rw [weakLoop_eq_weakTail]
  · have hslide := sum₁_slide w x y
    rw [lowHalf_rsync, lowHalf_rsync, hslide]
    omega
  · have hslide := sum₂_slide w x y
    rw [highHalf_rsync, highHalf_rsync, lowHalf_rsync, hslide]
    generalize ((x :: w).length : Int) * signedChar x = p
    omega

end LzLib.Checksum
