/-
  LzLib.Foundation.SortedSets
  ───────────────────────────
  **SETS AS LISTS IN ORDER.**

  What an ordered container is meant to be: its members, listed in the order of
  the comparison.  An algorithm that keeps such a list finds a place in it, so
  the lemmas are about a list that is cut at that place.
-/
import LzLib.Foundation.Comparators
import LzLib.Foundation.ItemSets
import Mathlib.Data.List.Sort

namespace LzLib.Foundation

variable {ε : Type} {cmp : ε → ε → Int} {item x y : ε} {L R : List ε}

/-- The members, in order. -/
def Ordered (cmp : ε → ε → Int) (L : List ε) : Prop := L.Pairwise fun a b => cmp a b < 0

/-- The member that is equal to `item`. -/
def memberOf (cmp : ε → ε → Int) (item : ε) (L : List ε) : Option ε := L.find? fun y => cmp item y = 0

/-- The members with `item`, in its place. -/
def insertInto (cmp : ε → ε → Int) (item : ε) (L : List ε) : List ε := L.orderedInsert (fun a b => cmp a b < 0) item

/-- The members without the one that is equal to `item`. -/
def removeFrom (cmp : ε → ε → Int) (item : ε) (L : List ε) : List ε := L.eraseP fun y => cmp item y = 0

/-! ## §1. A place that a member has. -/

theorem Compares.eq_zero_symm (hcmp : Compares cmp) (h : cmp x y = 0) : cmp y x = 0 := by
  have h₁ := hcmp.swap (a := x) (b := y)
  have h₂ := hcmp.swap (a := y) (b := x)
  omega

theorem Compares.self (hcmp : Compares cmp) (x : ε) : cmp x x = 0 := by
  have hswap := hcmp.swap (a := x) (b := x)
  omega

/-- Equal items are in the same order to all others. -/
theorem Compares.keeps (hcmp : Compares cmp) (hzero : cmp item y = 0) (x : ε) :
    (cmp x y < 0 → cmp x item < 0) ∧ (cmp y x < 0 → cmp item x < 0) := by
  have hsymm := hcmp.eq_zero_symm hzero
  constructor
  · intro hxy
    rcases Int.lt_trichotomy (cmp x item) 0 with hlt | heq | hgt
    · exact hlt
    · have := hcmp.zero_trans heq hzero
      omega
    · have := hcmp.trans (hcmp.swap.mpr hgt) hxy
      omega
  · intro hyx
    rcases Int.lt_trichotomy (cmp item x) 0 with hlt | heq | hgt
    · exact hlt
    · have := hcmp.zero_trans hsymm heq
      omega
    · have := hcmp.trans hyx (hcmp.swap.mpr hgt)
      omega

/-- No other member is equal to the item. -/
theorem Ordered.ne_zero_before (hcmp : Compares cmp) (h : Ordered cmp (L ++ y :: R)) (hzero : cmp item y = 0) :
    ∀ x ∈ L, cmp item x ≠ 0 := by
  intro x hx hx0
  have hlt := (List.pairwise_append.mp h).2.2 x hx y (List.mem_cons_self ..)
  have heq := hcmp.zero_trans (hcmp.eq_zero_symm hx0) hzero
  omega

theorem Ordered.memberOf_eq (hcmp : Compares cmp) (h : Ordered cmp (L ++ y :: R)) (hzero : cmp item y = 0) :
    memberOf cmp item (L ++ y :: R) = some y := by
  have hbefore : L.find? (fun y => decide (cmp item y = 0)) = none := by
    rw [List.find?_eq_none]
    intro x hx
    simpa using h.ne_zero_before hcmp hzero x hx
  rw [memberOf, List.find?_append, hbefore, Option.none_or, List.find?_cons_of_pos (by simpa using hzero)]

theorem Ordered.removeFrom_eq (hcmp : Compares cmp) (h : Ordered cmp (L ++ y :: R)) (hzero : cmp item y = 0) :
    removeFrom cmp item (L ++ y :: R) = L ++ R := by
  have hbefore : ∀ x ∈ L, ¬ decide (cmp item x = 0) = true := by
    intro x hx
    simpa using h.ne_zero_before hcmp hzero x hx
  rw [removeFrom, List.eraseP_append_right _ hbefore, List.eraseP_cons_of_pos (by simpa using hzero)]

/-! ## §2. A place between the members. -/

theorem memberOf_eq_none (h : ∀ x ∈ L, cmp item x ≠ 0) : memberOf cmp item L = none := by
  rw [memberOf, List.find?_eq_none]
  intro x hx
  simpa using h x hx

theorem removeFrom_of_none (h : ∀ x ∈ L, cmp item x ≠ 0) : removeFrom cmp item L = L := by
  refine List.eraseP_of_forall_not ?_
  intro x hx
  simpa using h x hx

theorem insertInto_cons_lt (h : cmp item x < 0) : insertInto cmp item (x :: L) = item :: x :: L := if_pos h

theorem insertInto_cons_gt (h : ¬ cmp item x < 0) : insertInto cmp item (x :: L) = x :: insertInto cmp item L := if_neg h

/-- The item goes between those before it and those after it. -/
theorem insertInto_eq (hcmp : Compares cmp) (hL : ∀ x ∈ L, cmp x item < 0) (hR : ∀ x ∈ R, cmp item x < 0) :
    insertInto cmp item (L ++ R) = L ++ item :: R := by
  induction L with
  | nil =>
      cases R with
      | nil => rfl
      | cons x R => exact insertInto_cons_lt (hR x (List.mem_cons_self ..))
  | cons x L ih =>
      have hx := hcmp.swap.mp (hL x (List.mem_cons_self ..))
      rw [List.cons_append, insertInto_cons_gt (by omega), ih fun z hz => hL z (List.mem_cons_of_mem _ hz)]
      rfl

theorem insertInto_perm : (insertInto cmp item L).Perm (item :: L) := List.perm_orderedInsert _ _ _

theorem Ordered.insertInto (hcmp : Compares cmp) (h : Ordered cmp L) (hnone : ∀ x ∈ L, cmp item x ≠ 0) :
    Ordered cmp (insertInto cmp item L) := by
  induction L with
  | nil => exact List.pairwise_singleton _ _
  | cons a L ih =>
      obtain ⟨hfirst, hrest⟩ := List.pairwise_cons.mp h
      have hne := hnone a (List.mem_cons_self ..)
      by_cases hlt : cmp item a < 0
      · rw [insertInto_cons_lt hlt]
        refine List.pairwise_cons.mpr ⟨?_, h⟩
        intro b hb
        rcases List.mem_cons.mp hb with rfl | hb
        · exact hlt
        · exact hcmp.trans hlt (hfirst b hb)
      · have hafter : cmp a item < 0 := hcmp.swap.mpr (by omega)
        rw [insertInto_cons_gt hlt]
        refine List.pairwise_cons.mpr ⟨?_, ih hrest fun x hx => hnone x (List.mem_cons_of_mem _ hx)⟩
        intro b hb
        rcases List.mem_cons.mp (insertInto_perm.mem_iff.mp hb) with rfl | hb
        · exact hafter
        · exact hfirst b hb

/-! ## §3. Lists in order, as sets. -/

theorem memberOf_eq_some (h : memberOf cmp item L = some y) : y ∈ L ∧ cmp item y = 0 :=
  ⟨List.mem_of_find?_eq_some h, by simpa using List.find?_some h⟩

theorem memberOf_eq_none_iff : memberOf cmp item L = none ↔ ∀ x ∈ L, cmp item x ≠ 0 := by
  refine ⟨fun h => ?_, memberOf_eq_none⟩
  simpa [memberOf] using h

/-- The sets whose members are listed in order. -/
def orderedSets (hcmp : Compares cmp) : ItemSets ε cmp where
  Table := { L : List ε // Ordered cmp L }
  create := ⟨[], List.Pairwise.nil⟩
  items := Subtype.val
  probe t x node :=
    if h : ∀ y ∈ t.val, cmp x y ≠ 0 then
      if node then (⟨insertInto cmp x t.val, t.property.insertInto hcmp h⟩, some x) else (t, none)
    else (t, memberOf cmp x t.val)
  find t x := memberOf cmp x t.val
  delete t x := (⟨removeFrom cmp x t.val, t.property.sublist List.eraseP_sublist⟩, memberOf cmp x t.val)
  items_create := rfl
  distinct t := t.property.imp Int.ne_of_lt
  find_some _ _ _ := memberOf_eq_some
  find_none _ _ := memberOf_eq_none_iff.mp
  probe_found t x y node h := by
    have hy := memberOf_eq_some h
    rw [dif_neg fun hall => hall y hy.1 hy.2, h]
  probe_failed t x h := by rw [dif_pos (memberOf_eq_none_iff.mp h), if_neg Bool.false_ne_true]
  probe_new t x h := by
    rw [dif_pos (memberOf_eq_none_iff.mp h), if_pos rfl]
    exact ⟨rfl, insertInto_perm⟩
  delete_found t x y h := ⟨h, perm_eraseP _ h⟩
  delete_none t x h := by
    have hsame := removeFrom_of_none (memberOf_eq_none_iff.mp h)
    exact Prod.ext (Subtype.ext hsame) h

end LzLib.Foundation
