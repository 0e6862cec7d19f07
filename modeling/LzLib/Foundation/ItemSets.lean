/-
  LzLib.Foundation.ItemSets
  ─────────────────────────
  **SETS OF ITEMS UNDER A COMPARISON.**

  An ordered-set library stores items that the caller compares with a function
  `cmp`; two items with `cmp a b = 0` are the same member.  `ItemSets` is what
  such a library promises, whatever tree is behind it: `probe` inserts an item
  or finds the one that is there, `find` finds, `delete` removes.  A node
  allocation may fail.

  Where `cmp a b = 0` means that two items have one key, a set is a finite map
  from keys to items (§2).
-/
import Mathlib.Data.List.Nodup

namespace LzLib.Foundation

variable {ε κ : Type}

/-! ## §1. The interface. -/

/-- Sets of items; `items` lists the members in some order. -/
structure ItemSets (ε : Type) (cmp : ε → ε → Int) where
  /-- The sets. -/
  Table : Type
  /-- The empty set. -/
  create : Table
  /-- The members. -/
  items : Table → List ε
  /-- Insert, or find the equal member; `node`: whether a node can be allocated. -/
  probe : Table → ε → Bool → Table × Option ε
  /-- The equal member. -/
  find : Table → ε → Option ε
  /-- Take the equal member out. -/
  delete : Table → ε → Table × Option ε
  items_create : items create = []
  distinct : ∀ t, (items t).Pairwise fun a b => cmp a b ≠ 0
  find_some : ∀ t x y, find t x = some y → y ∈ items t ∧ cmp x y = 0
  find_none : ∀ t x, find t x = none → ∀ y ∈ items t, cmp x y ≠ 0
  probe_found : ∀ t x y node, find t x = some y → probe t x node = (t, some y)
  probe_failed : ∀ t x, find t x = none → probe t x false = (t, none)
  probe_new : ∀ t x, find t x = none →
    (probe t x true).2 = some x ∧ (items (probe t x true).1).Perm (x :: items t)
  delete_found : ∀ t x y, find t x = some y →
    (delete t x).2 = some y ∧ (items t).Perm (y :: items (delete t x).1)
  delete_none : ∀ t x, find t x = none → delete t x = (t, none)

/-! ## §2. Sets with keys. -/

section Keys

variable {cmp : ε → ε → Int} {key : ε → κ}

/-- `cmp` compares keys. -/
def ComparesKeys (cmp : ε → ε → Int) (key : ε → κ) : Prop := ∀ a b, cmp a b = 0 ↔ key a = key b

variable (S : ItemSets ε cmp) (hcmp : ComparesKeys cmp key) {t : S.Table} {x y z : ε}

include hcmp

theorem ItemSets.keys_nodup (t : S.Table) : ((S.items t).map key).Nodup := by
  unfold List.Nodup
  rw [List.pairwise_map]
  refine (S.distinct t).imp ?_
  intro a b hab hkey
  exact hab ((hcmp a b).mpr hkey)

/-- A member is found by its key. -/
theorem ItemSets.find_eq_some_iff : S.find t x = some y ↔ y ∈ S.items t ∧ key y = key x := by
  constructor
  · intro h
    have hfound := S.find_some t x y h
    exact ⟨hfound.1, ((hcmp x y).mp hfound.2).symm⟩
  · intro h
    cases hfind : S.find t x with
    | none => exact absurd ((hcmp x y).mpr h.2.symm) (S.find_none t x hfind y h.1)
    | some z =>
        have hz := S.find_some t x z hfind
        have hkeys : key z = key y := ((hcmp x z).mp hz.2).symm.trans h.2.symm
        rw [List.inj_on_of_nodup_map (S.keys_nodup hcmp t) hz.1 h.1 hkeys]

theorem ItemSets.find_eq_none_iff : S.find t x = none ↔ ∀ y ∈ S.items t, key y ≠ key x := by
  constructor
  · intro h y hy hkey
    exact S.find_none t x h y hy ((hcmp x y).mpr hkey.symm)
  · intro h
    cases hfind : S.find t x with
    | none => rfl
    | some y =>
        have hy := (S.find_eq_some_iff hcmp).mp hfind
        exact absurd hy.2 (h y hy.1)

/-- Looking up depends on the members only. -/
theorem ItemSets.find_congr {t' : S.Table} (h : ∀ y, key y = key x → (y ∈ S.items t' ↔ y ∈ S.items t)) :
    S.find t' x = S.find t x := by
  cases hfind : S.find t x with
  | none =>
      rw [S.find_eq_none_iff hcmp] at hfind ⊢
      intro y hy hkey
      exact hfind y ((h y hkey).mp hy) hkey
  | some y =>
      rw [S.find_eq_some_iff hcmp] at hfind ⊢
      exact ⟨(h y hfind.2).mpr hfind.1, hfind.2⟩

/-- After an insertion: the new member under its key, the others as before. -/
theorem ItemSets.find_probe_new (h : S.find t x = none) (hkey : key z = key x) :
    S.find (S.probe t x true).1 z = some x := by
  rw [S.find_eq_some_iff hcmp]
  exact ⟨(S.probe_new t x h).2.mem_iff.mpr (List.mem_cons_self ..), hkey.symm⟩

theorem ItemSets.find_probe_other (node : Bool) (hkey : key z ≠ key x) :
    S.find (S.probe t x node).1 z = S.find t z := by
  cases hfind : S.find t x with
  | some y => rw [S.probe_found t x y node hfind]
  | none =>
      cases node with
      | false => rw [S.probe_failed t x hfind]
      | true =>
          apply S.find_congr hcmp
          intro y hy
          rw [(S.probe_new t x hfind).2.mem_iff, List.mem_cons]
          constructor
          · rintro (rfl | hmem)
            · exact absurd hy.symm hkey
            · exact hmem
          · exact Or.inr

/-- After a deletion: nothing under the key, the others as before. -/
theorem ItemSets.find_delete (hkey : key z = key x) : S.find (S.delete t x).1 z = none := by
  cases hfind : S.find t x with
  | none =>
      rw [S.delete_none t x hfind, S.find_eq_none_iff hcmp, hkey]
      exact (S.find_eq_none_iff hcmp).mp hfind
  | some y =>
      have hy := (S.find_eq_some_iff hcmp).mp hfind
      have hperm := (S.delete_found t x y hfind).2
      rw [S.find_eq_none_iff hcmp, hkey]
      intro w hw hwx
      -- `w` would be a second member with the key of `y`
      have hnodup := (hperm.map key).nodup_iff.mp (S.keys_nodup hcmp t)
      rw [List.map_cons, List.nodup_cons] at hnodup
      apply hnodup.1
      rw [hy.2, ← hwx]
      exact List.mem_map_of_mem hw

theorem ItemSets.find_delete_other (hkey : key z ≠ key x) :
    S.find (S.delete t x).1 z = S.find t z := by
  cases hfind : S.find t x with
  | none => rw [S.delete_none t x hfind]
  | some y =>
      have hy := (S.find_eq_some_iff hcmp).mp hfind
      apply S.find_congr hcmp
      intro w hw
      rw [(S.delete_found t x y hfind).2.mem_iff, List.mem_cons]
      constructor
      · exact Or.inr
      · rintro (rfl | hmem)
        · exact absurd (hw.symm.trans hy.2) hkey
        · exact hmem

end Keys

/-! ## §3. Lists as sets. -/

theorem perm_eraseP (p : ε → Bool) {l : List ε} {y : ε} (h : l.find? p = some y) :
    l.Perm (y :: l.eraseP p) := by
  induction l with
  | nil => cases h
  | cons a l ih =>
      cases ha : p a with
      | true =>
          rw [List.find?_cons_of_pos ha, Option.some.injEq] at h
          rw [List.eraseP_cons_of_pos ha, h]
      | false =>
          have hneg : ¬ p a = true := by rw [ha]; exact Bool.false_ne_true
          rw [List.find?_cons_of_neg hneg] at h
          rw [List.eraseP_cons_of_neg hneg]
          exact ((ih h).cons a).trans (List.Perm.swap y a _)

/-- Lists without equal members. -/
def listSets (cmp : ε → ε → Int) : ItemSets ε cmp where
  Table := { l : List ε // l.Pairwise fun a b => cmp a b ≠ 0 }
  create := ⟨[], List.Pairwise.nil⟩
  items := Subtype.val
  probe t x node :=
    if h : ∀ y ∈ t.val, cmp x y ≠ 0 then
      if node then (⟨x :: t.val, List.pairwise_cons.mpr ⟨h, t.property⟩⟩, some x) else (t, none)
    else (t, t.val.find? fun y => cmp x y = 0)
  find t x := t.val.find? fun y => cmp x y = 0
  delete t x :=
    (⟨t.val.eraseP fun y => cmp x y = 0, t.property.sublist List.eraseP_sublist⟩,
      t.val.find? fun y => cmp x y = 0)
  items_create := rfl
  distinct t := t.property
  find_some t x y h := by
    have hy := List.find?_some h
    exact ⟨List.mem_of_find?_eq_some h, by simpa using hy⟩
  find_none t x h := by simpa using h
  probe_found t x y node h := by
    have hnot : ¬ ∀ y ∈ t.val, cmp x y ≠ 0 := by
      intro hall
      have hy := List.find?_some h
      exact hall y (List.mem_of_find?_eq_some h) (by simpa using hy)
    rw [dif_neg hnot, h]
  probe_failed t x h := by
    have hall : ∀ y ∈ t.val, cmp x y ≠ 0 := by simpa using h
    rw [dif_pos hall]
    rfl
  probe_new t x h := by
    have hall : ∀ y ∈ t.val, cmp x y ≠ 0 := by simpa using h
    rw [dif_pos hall]
    exact ⟨rfl, List.Perm.refl _⟩
  delete_found t x y h := ⟨h, perm_eraseP _ h⟩
  delete_none t x h := by
    have hall : ∀ y ∈ t.val, cmp x y ≠ 0 := by simpa using h
    have herase : (t.val.eraseP fun y => cmp x y = 0) = t.val :=
      List.eraseP_of_forall_not (by simpa using hall)
    simp only [h, Prod.mk.injEq, and_true]
    exact Subtype.ext herase

end LzLib.Foundation
