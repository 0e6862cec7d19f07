/-
  LzLib.Foundation.Pieces
  ───────────────────────
  **A STREAM THAT IS TAKEN IN WHOLE PIECES.**

  A function of a state and a piece of `n` entries is applied to one piece of a
  list after another; fewer than `n` entries are left over.  What is left over
  waits in front of what comes next, so a stream may come in parts:
  `wholePieces_append`.
-/
import Mathlib.Data.List.Basic

namespace LzLib.Foundation

variable {σ α : Type} (n : Nat) (f : σ → List α → σ)

/-! ## §1. Whole pieces. -/

/-- `k` pieces of `n` entries each, and the entries behind them. -/
def pieces : Nat → σ → List α → σ × List α
  | 0, s, xs => (s, xs)
  | k + 1, s, xs => pieces k (f s (xs.take n)) (xs.drop n)

/-- All the pieces there are. -/
def wholePieces (s : σ) (xs : List α) : σ × List α := pieces n f (xs.length / n) s xs

variable {n f} {s : σ} {xs ys : List α}

theorem wholePieces_short (h : xs.length < n) : wholePieces n f s xs = (s, xs) := by
  show pieces n f (xs.length / n) s xs = (s, xs)
  rw [Nat.div_eq_of_lt h]
  rfl

theorem wholePieces_step (hn : 0 < n) (h : n ≤ xs.length) :
    wholePieces n f s xs = wholePieces n f (f s (xs.take n)) (xs.drop n) := by
  have hcount : xs.length / n = (xs.drop n).length / n + 1 := by
    rw [List.length_drop, Nat.div_eq_sub_div hn h]
  show pieces n f (xs.length / n) s xs = pieces n f ((xs.drop n).length / n) _ _
  rw [hcount]
  rfl

/-- A piece that comes first is taken first. -/
theorem wholePieces_cons (hn : 0 < n) (h : xs.length = n) :
    wholePieces n f s (xs ++ ys) = wholePieces n f (f s xs) ys := by
  rw [wholePieces_step hn (by simp [h]), List.take_left' h, List.drop_left' h]

/-- Induction over the pieces of a list. -/
theorem pieces_induction {P : σ → List α → Prop} (hn : 0 < n)
    (short : ∀ s xs, xs.length < n → P s xs)
    (piece : ∀ s xs, n ≤ xs.length → P (f s (xs.take n)) (xs.drop n) → P s xs) :
    ∀ s xs, P s xs := by
  suffices h : ∀ k s (xs : List α), xs.length ≤ k → P s xs from fun s xs => h _ s xs (Nat.le_refl _)
  intro k
  induction k with
  | zero => exact fun s xs hk => short s xs (by omega)
  | succ k ih =>
      intro s xs hk
      by_cases hlen : n ≤ xs.length
      · exact piece s xs hlen (ih _ _ (by rw [List.length_drop]; omega))
      · exact short s xs (by omega)

/-- What is left over is the end of the list. -/
theorem wholePieces_rest (hn : 0 < n) : ∀ (s : σ) (xs : List α),
    (wholePieces n f s xs).2 = xs.drop (xs.length - xs.length % n) := by
  refine pieces_induction (f := f) hn ?_ ?_
  · intro s xs h
    rw [wholePieces_short h, Nat.mod_eq_of_lt h, Nat.sub_self]
    rfl
  · intro s xs h ih
    have hmod : (xs.drop n).length % n = xs.length % n := by
      rw [List.length_drop, ← Nat.mod_eq_sub_mod h]
    have hle : xs.length % n ≤ (xs.drop n).length := by
      rw [← hmod]
      exact Nat.mod_le _ _
    rw [wholePieces_step hn h, ih, List.drop_drop, hmod]
    congr 1
    rw [List.length_drop] at hle ⊢
    omega

theorem wholePieces_rest_length (hn : 0 < n) (s : σ) (xs : List α) :
    (wholePieces n f s xs).2.length = xs.length % n := by
  rw [wholePieces_rest hn, List.length_drop]
  have := Nat.mod_le xs.length n
  omega

/-! ## §2. A stream in parts. -/

/-- A list behind another: the entries left over come first. -/
theorem wholePieces_append (hn : 0 < n) (ys : List α) : ∀ (s : σ) (xs : List α),
    wholePieces n f s (xs ++ ys)
      = wholePieces n f (wholePieces n f s xs).1 ((wholePieces n f s xs).2 ++ ys) := by
  refine pieces_induction (f := f) hn ?_ ?_
  · intro s xs h
    rw [wholePieces_short h]
  · intro s xs h ih
    rw [wholePieces_step hn (by simp; omega), List.take_append_of_le_length h,
      List.drop_append_of_le_length h, ih, wholePieces_step (s := s) hn h]

end LzLib.Foundation
