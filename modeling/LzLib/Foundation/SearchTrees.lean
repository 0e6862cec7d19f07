/-
  LzLib.Foundation.SearchTrees
  ────────────────────────────
  **SEARCHING A TREE FROM THE ROOT.**

  A search is steered by a function on the values (`cut v < 0`: what is looked for
  is before `v`; zero: it is `v`).  Where the values are in an order that the cut
  respects, everything before the place where the search ends is before what is
  looked for, and everything after it is after.
-/
import LzLib.Foundation.RedBlackRepair
import LzLib.Foundation.Comparators

namespace LzLib.Foundation

variable {α ε : Type}

namespace ColorTree

/-- The way from the hole of `fs` down `t`: to a value with `cut v = 0`, or to an empty tree. -/
def descend (cut : α → Int) : List (Frame α) → ColorTree α → List (Frame α) × ColorTree α
  | fs, nil => (fs, nil)
  | fs, node c l v r =>
      if cut v = 0 then (fs, node c l v r)
      else if 0 < cut v then descend cut (⟨true, c, v, l⟩ :: fs) r
      else descend cut (⟨false, c, v, r⟩ :: fs) l

/-- Every frame is passed on the side that the cut says. -/
def Toward (cut : α → Int) (fs : List (Frame α)) : Prop :=
  ∀ f ∈ fs, cut f.value ≠ 0 ∧ f.dir = decide (0 < cut f.value)

/-- The cut respects the order `R`. -/
structure Respects (R : α → α → Prop) (cut : α → Int) : Prop where
  neg : ∀ {a b}, R a b → cut a < 0 → cut b < 0
  pos : ∀ {a b}, R a b → 0 < cut b → 0 < cut a

variable {cut : α → Int} {R : α → α → Prop} {t : ColorTree α} {fs : List (Frame α)} {c : Color} {v : α}
  {l r : ColorTree α}

/-! ## §1. The way. -/

theorem plug_descend : plug (descend cut fs t).1 (descend cut fs t).2 = plug fs t := by
  induction t generalizing fs with
  | nil => rfl
  | node c l v r ihl ihr =>
      rw [descend]
      split_ifs
      · rfl
      · exact ihr
      · exact ihl

theorem Toward.cons {d : Bool} {s : ColorTree α} (h : Toward cut fs) (hv : cut v ≠ 0) (hd : d = decide (0 < cut v)) :
    Toward cut (⟨d, c, v, s⟩ :: fs) := by
  intro f hf
  rcases List.mem_cons.mp hf with rfl | hf
  · exact ⟨hv, hd⟩
  · exact h f hf

theorem toward_descend (h : Toward cut fs) : Toward cut (descend cut fs t).1 := by
  induction t generalizing fs with
  | nil => exact h
  | node c l v r ihl ihr =>
      rw [descend]
      split_ifs with hv hpos
      · exact h
      · exact ihr (h.cons hv (by simp [hpos]))
      · exact ihl (h.cons hv (by simp [hpos]))

/-- Where the search ends. -/
theorem descend_end :
    (descend cut fs t).2 = nil ∨ ∃ c l v r, (descend cut fs t).2 = node c l v r ∧ cut v = 0 := by
  induction t generalizing fs with
  | nil => exact Or.inl rfl
  | node c l v r ihl ihr =>
      rw [descend]
      split_ifs with hv
      · exact Or.inr ⟨c, l, v, r, rfl, hv⟩
      · exact ihr
      · exact ihl

/-! ## §2. What it passes. -/

/-- **The way separates the values**: those before its end from those after it. -/
theorem Toward.sides (h : Toward cut fs) (hcut : Respects R cut) (hs : (before fs ++ after fs).Pairwise R) :
    (∀ a ∈ before fs, 0 < cut a) ∧ ∀ a ∈ after fs, cut a < 0 := by
  induction fs with
  | nil => exact ⟨nofun, nofun⟩
  | cons f fs ih =>
      obtain ⟨hne, hdir⟩ := h f (List.mem_cons_self ..)
      have htail : Toward cut fs := fun g hg => h g (List.mem_cons_of_mem _ hg)
      rw [before, after] at hs ⊢
      by_cases hpos : 0 < cut f.value
      · have hd : f.dir = true := by rw [hdir, decide_eq_true hpos]
        rw [if_pos hd, if_pos hd] at hs ⊢
        have hsub : (before fs ++ after fs).Sublist (before fs ++ (f.other.toList ++ [f.value]) ++ after fs) :=
          (List.sublist_append_left _ _).append_right _
        obtain ⟨hbefore, hafter⟩ := ih htail (hs.sublist hsub)
        refine ⟨?_, hafter⟩
        intro a ha
        rcases List.mem_append.mp ha with ha | ha
        · exact hbefore a ha
        · rcases List.mem_append.mp ha with ha | ha
          · have hother := (List.pairwise_append.mp (List.pairwise_append.mp hs).1).2.1
            exact hcut.pos ((List.pairwise_append.mp hother).2.2 a ha f.value (List.mem_singleton_self _)) hpos
          · rw [List.mem_singleton.mp ha]
            exact hpos
      · have hneg : cut f.value < 0 := by omega
        have hd : f.dir = false := by rw [hdir, decide_eq_false hpos]
        rw [hd, if_neg Bool.false_ne_true, if_neg Bool.false_ne_true] at hs ⊢
        have hsub : (before fs ++ after fs).Sublist (before fs ++ (f.value :: (f.other.toList ++ after fs))) :=
          ((List.sublist_append_right _ _).cons _).append_left _
        obtain ⟨hbefore, hafter⟩ := ih htail (hs.sublist hsub)
        refine ⟨hbefore, ?_⟩
        intro a ha
        have hrest := List.pairwise_cons.mp (List.pairwise_append.mp hs).2.1
        rcases List.mem_cons.mp ha with rfl | ha
        · exact hneg
        · rcases List.mem_append.mp ha with hother | hother
          · exact hcut.neg (hrest.1 a ha) hneg
          · exact hafter a hother

end ColorTree

end LzLib.Foundation
