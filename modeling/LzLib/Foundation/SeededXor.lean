/-
  LzLib.Foundation.SeededXor
  ──────────────────────────
  **ACCUMULATORS UNDER EXCLUSIVE OR**, several lanes of bytes that are fed one
  contribution after another, where a state of zeros is replaced by a seed
  before it is fed.

  A run leaves the exclusive or of what it started from and of all it was fed,
  with the seed once more or not: `feedAll_total`.  So two runs whose contributions
  differ in one lane only end apart, for the seed has no lane that is zero.
-/
import Mathlib.Data.Finset.Fold
import Mathlib.Data.Finset.Range
import Mathlib.Data.Fintype.Defs
import Mathlib.Data.Fintype.Sets

namespace LzLib.Foundation

/-! ## §1. Exclusive or over a finite set of places. -/

/-- The exclusive or of `f` over `s`. -/
def xorOver (s : Finset Nat) (f : Nat → UInt8) : UInt8 := s.fold (· ^^^ ·) 0 f

theorem xorOver_range_succ (n : Nat) (f : Nat → UInt8) :
    xorOver (Finset.range (n + 1)) f = xorOver (Finset.range n) f ^^^ f n := by
  unfold xorOver
  rw [Finset.range_add_one, Finset.fold_insert Finset.notMem_range_self, UInt8.xor_comm]

theorem xorOver_congr {s : Finset Nat} {f g : Nat → UInt8} (h : ∀ i ∈ s, f i = g i) :
    xorOver s f = xorOver s g := Finset.fold_congr h

theorem xorOver_zero (s : Finset Nat) : xorOver s (fun _ => 0) = 0 := by
  induction s using Finset.induction_on with
  | empty => rfl
  | insert i s hi ih =>
      unfold xorOver at ih ⊢
      rw [Finset.fold_insert hi, ih]
      rfl

theorem xorOver_xor (s : Finset Nat) (f g : Nat → UInt8) :
    xorOver s (fun i => f i ^^^ g i) = xorOver s f ^^^ xorOver s g := by
  have h : s.fold (· ^^^ ·) (0 ^^^ 0 : UInt8) (fun i => f i ^^^ g i) = xorOver s f ^^^ xorOver s g :=
    Finset.fold_op_distrib
  exact h

/-- All places but one are zero. -/
theorem xorOver_single (s : Finset Nat) (q : Nat) (x : UInt8) :
    xorOver s (fun i => if i = q then x else 0) = if q ∈ s then x else 0 := by
  induction s using Finset.induction_on with
  | empty => rfl
  | insert i s hi ih =>
      unfold xorOver at ih ⊢
      rw [Finset.fold_insert hi, ih]
      by_cases hq : i = q
      · subst hq
        rw [if_pos rfl, if_neg hi, if_pos (Finset.mem_insert_self i s), UInt8.xor_zero]
      · rw [if_neg hq, UInt8.zero_xor]
        simp [Finset.mem_insert, Ne.symm hq]

/-! ## §2. The accumulators. -/

section Lanes

variable {ι : Type} [Fintype ι]

/-- The seed in place of a state of zeros. -/
def reseed (seed c : ι → UInt8) : ι → UInt8 := if ∀ k, c k = 0 then seed else c

/-- One contribution after the other. -/
def feedAll (seed : ι → UInt8) : (ι → UInt8) → List (ι → UInt8) → ι → UInt8
  | c, [] => c
  | c, x :: xs => feedAll seed (fun k => reseed seed c k ^^^ x k) xs

/-- The exclusive or of all contributions. -/
def xorTotal : List (ι → UInt8) → ι → UInt8
  | [], _ => 0
  | x :: xs, k => x k ^^^ xorTotal xs k

theorem reseed_of_ne {seed c : ι → UInt8} {k : ι} (h : c k ≠ 0) : reseed seed c = c := by
  unfold reseed
  rw [if_neg]
  intro hall
  exact h (hall k)

theorem reseed_zero (seed : ι → UInt8) : reseed seed (fun _ => 0) = seed := by
  unfold reseed
  rw [if_pos (fun _ => rfl)]

/-- The seed is one more contribution, or none. -/
theorem reseed_eq (seed c : ι → UInt8) : ∃ ε : Bool, ∀ k, reseed seed c k = c k ^^^ (bif ε then seed k else 0) := by
  by_cases hzero : ∀ k, c k = 0
  · refine ⟨true, fun k => ?_⟩
    unfold reseed
    rw [if_pos hzero, hzero k]
    exact UInt8.zero_xor.symm
  · refine ⟨false, fun k => ?_⟩
    unfold reseed
    rw [if_neg hzero]
    exact UInt8.xor_zero.symm

theorem reseed_reseed {seed : ι → UInt8} {j : ι} (hj : seed j ≠ 0) (c : ι → UInt8) :
    reseed seed (reseed seed c) = reseed seed c := by
  by_cases hzero : ∀ k, c k = 0
  · have h : reseed seed c = seed := if_pos hzero
    rw [h, reseed_of_ne hj]
  · have h : reseed seed c = c := if_neg hzero
    rw [h, h]

/-- Contributions of zero do no more than to reseed. -/
theorem feedAll_zeros {seed : ι → UInt8} {j : ι} (hj : seed j ≠ 0) (c : ι → UInt8) : ∀ n,
    feedAll seed c (List.replicate (n + 1) (fun _ => 0)) = reseed seed c := by
  intro n
  induction n generalizing c with
  | zero =>
      funext k
      exact UInt8.xor_zero
  | succ n ih =>
      have hstep : (fun k => reseed seed c k ^^^ 0) = reseed seed c := funext fun _ => UInt8.xor_zero
      show feedAll seed (fun k => reseed seed c k ^^^ 0) (List.replicate (n + 1) (fun _ => 0)) = _
      rw [hstep, ih, reseed_reseed hj]

theorem feedAll_append (seed : ι → UInt8) (xs ys : List (ι → UInt8)) :
    ∀ c, feedAll seed c (xs ++ ys) = feedAll seed (feedAll seed c xs) ys := by
  induction xs with
  | nil => intro c; rfl
  | cons x xs ih => intro c; exact ih _

omit [Fintype ι] in
theorem xorTotal_append (xs ys : List (ι → UInt8)) (k : ι) : xorTotal (xs ++ ys) k = xorTotal xs k ^^^ xorTotal ys k := by
  induction xs with
  | nil => exact UInt8.zero_xor.symm
  | cons x xs ih =>
      show x k ^^^ xorTotal (xs ++ ys) k = x k ^^^ xorTotal xs k ^^^ xorTotal ys k
      rw [ih, UInt8.xor_assoc]

/-- A run adds up, but for the seed. -/
theorem feedAll_total (seed : ι → UInt8) (xs : List (ι → UInt8)) :
    ∀ c, ∃ ε : Bool, ∀ k, feedAll seed c xs k = c k ^^^ xorTotal xs k ^^^ (bif ε then seed k else 0) := by
  induction xs with
  | nil =>
      intro c
      refine ⟨false, fun k => ?_⟩
      simp [feedAll, xorTotal]
  | cons x xs ih =>
      intro c
      obtain ⟨ε, hε⟩ := reseed_eq seed c
      obtain ⟨ε', hε'⟩ := ih (fun k => reseed seed c k ^^^ x k)
      refine ⟨ε ^^ ε', fun k => ?_⟩
      -- the seed now and the seed later are two contributions that cancel out
      have hseeds : (bif ε ^^ ε' then seed k else 0) = (bif ε then seed k else 0) ^^^ (bif ε' then seed k else 0) := by
        cases ε <;> cases ε' <;> simp
      show feedAll seed _ xs k = c k ^^^ (x k ^^^ xorTotal xs k) ^^^ _
      rw [hε' k, hε k, hseeds]
      ac_rfl

/-- **Runs apart.**  Two runs from one state end apart when their contributions agree in a
lane where the seed is not zero and disagree in another. -/
theorem feedAll_apart {seed : ι → UInt8} {j k : ι} {xs ys : List (ι → UInt8)} (hseed : seed j ≠ 0)
    (hj : xorTotal xs j = xorTotal ys j) (hk : xorTotal xs k ≠ xorTotal ys k) (c : ι → UInt8) :
    feedAll seed c xs ≠ feedAll seed c ys := by
  intro heq
  obtain ⟨ε, hε⟩ := feedAll_total seed xs c
  obtain ⟨ε', hε'⟩ := feedAll_total seed ys c
  have hsame : ∀ i, c i ^^^ xorTotal xs i ^^^ (bif ε then seed i else 0) = c i ^^^ xorTotal ys i ^^^ (bif ε' then seed i else 0) := by
    intro i
    rw [← hε i, ← hε' i, heq]
  -- the lane `j` tells whether the seed came in equally often
  have hεε : ε = ε' := by
    have h := hsame j
    rw [hj, UInt8.xor_right_inj] at h
    cases ε <;> cases ε' <;> simp_all
  have h := hsame k
  rw [hεε, UInt8.xor_left_inj, UInt8.xor_right_inj] at h
  exact hk h

/-- Runs apart by one contribution. -/
theorem feedAll_apart_at {seed x y : ι → UInt8} {j k : ι} (hseed : seed j ≠ 0) (hj : x j = y j) (hk : x k ≠ y k)
    (xs ys : List (ι → UInt8)) (c : ι → UInt8) : feedAll seed c (xs ++ x :: ys) ≠ feedAll seed c (xs ++ y :: ys) := by
  apply feedAll_apart (j := j) (k := k) hseed
  · rw [xorTotal_append, xorTotal_append]
    show _ ^^^ (x j ^^^ _) = _ ^^^ (y j ^^^ _)
    rw [hj]
  · rw [xorTotal_append, xorTotal_append]
    intro heq
    have h : x k ^^^ xorTotal ys k = y k ^^^ xorTotal ys k := (UInt8.xor_right_inj _).mp heq
    exact hk ((UInt8.xor_left_inj _).mp h)

/-- A difference that is fed twice cancels out, where the state between is not zero. -/
theorem feedAll_twice {seed c x y d : ι → UInt8} {j : ι} (hj : reseed seed c j ^^^ x j ≠ 0) (hd : d j = 0) :
    feedAll seed c [fun k => x k ^^^ d k, fun k => y k ^^^ d k] = feedAll seed c [x, y] := by
  have hj' : reseed seed c j ^^^ (x j ^^^ d j) ≠ 0 := by
    rw [hd, UInt8.xor_zero]
    exact hj
  funext k
  show reseed seed (fun k => reseed seed c k ^^^ (x k ^^^ d k)) k ^^^ (y k ^^^ d k)
    = reseed seed (fun k => reseed seed c k ^^^ x k) k ^^^ y k
  rw [reseed_of_ne (c := fun k => reseed seed c k ^^^ (x k ^^^ d k)) hj', reseed_of_ne (c := fun k => reseed seed c k ^^^ x k) hj]
  show reseed seed c k ^^^ (x k ^^^ d k) ^^^ (y k ^^^ d k) = _
  calc reseed seed c k ^^^ (x k ^^^ d k) ^^^ (y k ^^^ d k)
      = reseed seed c k ^^^ x k ^^^ y k ^^^ (d k ^^^ d k) := by ac_rfl
    _ = reseed seed c k ^^^ x k ^^^ y k := by rw [UInt8.xor_self, UInt8.xor_zero]

/-- Whatever is fed, some start leaves no lane zero behind. -/
theorem feedAll_start {seed a : ι → UInt8} (ha : ∀ k, a k ≠ 0) (hseed : ∀ k, a k ≠ seed k) (xs : List (ι → UInt8)) :
    ∀ k, feedAll seed (fun k => xorTotal xs k ^^^ a k) xs k ≠ 0 := by
  intro k
  obtain ⟨ε, hε⟩ := feedAll_total seed xs (fun k => xorTotal xs k ^^^ a k)
  have hk : feedAll seed (fun k => xorTotal xs k ^^^ a k) xs k = a k ^^^ (bif ε then seed k else 0) := by
    rw [hε k]
    show xorTotal xs k ^^^ a k ^^^ xorTotal xs k ^^^ _ = _
    rw [UInt8.xor_comm (xorTotal xs k) (a k), UInt8.xor_assoc (a k), UInt8.xor_self, UInt8.xor_zero]
  rw [hk]
  cases ε with
  | false => simpa using ha k
  | true => simpa [UInt8.xor_eq_zero_iff] using hseed k

end Lanes

end LzLib.Foundation
