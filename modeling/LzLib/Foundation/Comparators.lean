/-
  LzLib.Foundation.Comparators
  ────────────────────────────
  **THREE-WAY COMPARISONS.**

  A comparison returns an `int` of which only the sign counts.  `Decides cmp lt`
  says that the sign is that of the order `lt`; what an ordered container asks
  of the comparison is then what the order has: antisymmetry of the sign,
  transitivity, and zero for equal items only.
-/
import Mathlib.Data.List.Shortlex

namespace LzLib.Foundation

variable {ε κ : Type} {cmp : ε → ε → Int} {lt : ε → ε → Prop} {a b c : ε}

/-- **The sign of `cmp`** is that of the order. -/
structure Decides (cmp : ε → ε → Int) (lt : ε → ε → Prop) : Prop where
  neg : ∀ a b, cmp a b < 0 ↔ lt a b
  pos : ∀ a b, 0 < cmp a b ↔ lt b a

namespace Decides

/-- The other way round the sign is the opposite one. -/
theorem swap (D : Decides cmp lt) : (cmp a b).sign = -(cmp b a).sign := by
  have hneg : cmp a b < 0 ↔ 0 < cmp b a := (D.neg a b).trans (D.pos b a).symm
  have hpos : 0 < cmp a b ↔ cmp b a < 0 := (D.pos a b).trans (D.neg b a).symm
  rcases Int.lt_trichotomy (cmp a b) 0 with h | h | h
  · rw [Int.sign_eq_neg_one_of_neg h, Int.sign_eq_one_of_pos (hneg.mp h)]
  · have hzero : cmp b a = 0 := by omega
    rw [h, hzero]
    rfl
  · rw [Int.sign_eq_one_of_pos h, Int.sign_eq_neg_one_of_neg (hpos.mp h)]
    rfl

theorem trans (D : Decides cmp lt) (htrans : ∀ {a b c}, lt a b → lt b c → lt a c) (hab : cmp a b < 0) (hbc : cmp b c < 0) :
    cmp a c < 0 := by
  rw [D.neg] at hab hbc ⊢
  exact htrans hab hbc

/-- Zero is for items that the order does not tell apart. -/
theorem eq_zero_iff (D : Decides cmp lt) : cmp a b = 0 ↔ ¬ lt a b ∧ ¬ lt b a := by
  rw [← D.neg, ← D.pos]
  omega

/-- Where the order is one of keys, zero is for items with one key. -/
theorem eq_zero_iff_key {key : ε → κ} {r : κ → κ → Prop} [Std.Trichotomous r] [Std.Asymm r]
    (D : Decides cmp (InvImage r key)) : cmp a b = 0 ↔ key a = key b := by
  rw [D.eq_zero_iff]
  constructor
  · intro h
    exact Std.Trichotomous.trichotomous (r := r) (key a) (key b) h.1 h.2
  · intro h
    have hirrefl : ¬ r (key b) (key b) := fun hr => Std.Asymm.asymm (r := r) _ _ hr hr
    unfold InvImage
    rw [h]
    exact ⟨hirrefl, hirrefl⟩

end Decides

/-- **What an ordered container asks**: the sign turns round with the arguments,
the negative results are transitive, and so are the zeros. -/
structure Compares (cmp : ε → ε → Int) : Prop where
  swap : ∀ {a b}, cmp a b < 0 ↔ 0 < cmp b a
  trans : ∀ {a b c}, cmp a b < 0 → cmp b c < 0 → cmp a c < 0
  zero_trans : ∀ {a b c}, cmp a b = 0 → cmp b c = 0 → cmp a c = 0

theorem Decides.compares {key : ε → κ} {r : κ → κ → Prop} [Std.Trichotomous r] [Std.Asymm r]
    (D : Decides cmp (InvImage r key)) (htrans : ∀ {x y z}, r x y → r y z → r x z) : Compares cmp where
  swap := (D.neg _ _).trans (D.pos _ _).symm
  trans := D.trans htrans
  zero_trans hab hbc := by
    rw [D.eq_zero_iff_key] at hab hbc ⊢
    exact hab.trans hbc

/-- **Shorter lists first**, lists of one length by their elements. -/
theorem shortlex_trans {r : κ → κ → Prop} (htrans : ∀ {x y z}, r x y → r y z → r x z) {as bs cs : List κ}
    (hab : List.Shortlex r as bs) (hbc : List.Shortlex r bs cs) : List.Shortlex r as cs := by
  rw [List.shortlex_def] at hab hbc ⊢
  rcases hab with hab | ⟨hab, hlex⟩
  · rcases hbc with hbc | ⟨hbc, -⟩
    · exact Or.inl (hab.trans hbc)
    · exact Or.inl (hbc ▸ hab)
  · rcases hbc with hbc | ⟨hbc, hlex'⟩
    · exact Or.inl (hab ▸ hbc)
    · exact Or.inr ⟨hab.trans hbc, List.lex_trans htrans hlex hlex'⟩

end LzLib.Foundation
