/-
  LzLib.Foundation.Walks
  ──────────────────────
  **WALKING A TREE IN ORDER.**

  A walk goes from a value to its neighbour in the direction `d` (`true`: up in
  the order).  In the tree that is one of two ways: down along the near edge of
  the subtree on the side `d`, or, where that is empty, up to the first frame
  whose hole is on the other side.
-/
import LzLib.Foundation.RedBlackRepair

namespace LzLib.Foundation

variable {α κ : Type}

/-! ## §1. Lists, from one of their ends. -/

/-- The list in the direction `d`. -/
def along (d : Bool) (L : List α) : List α := if d then L else L.reverse

@[simp] theorem along_up (L : List α) : along true L = L := rfl

@[simp] theorem along_down (L : List α) : along false L = L.reverse := rfl

@[simp] theorem along_nil (d : Bool) : along d ([] : List α) = [] := by cases d <;> rfl

theorem along_not (d : Bool) (L : List α) : along (!d) L = (along d L).reverse := by
  cases d with
  | false => exact (List.reverse_reverse L).symm
  | true => rfl

theorem map_along {β : Type} (f : α → β) (d : Bool) (L : List α) : (along d L).map f = along d (L.map f) := by
  cases d <;> simp

/-- The entry behind the one with the key. -/
def following [DecidableEq κ] (key : κ) : List (κ × α) → Option (κ × α)
  | [] => none
  | s :: L => if s.1 = key then L.head? else following key L

theorem following_split [DecidableEq κ] {key : κ} {A B : List (κ × α)} {x : α} (h : key ∉ A.map Prod.fst) :
    following key (A ++ (key, x) :: B) = B.head? := by
  induction A with
  | nil => exact if_pos rfl
  | cons s A ih =>
      rw [List.map_cons, List.mem_cons, not_or] at h
      rw [List.cons_append, following, if_neg (Ne.symm h.1)]
      exact ih h.2

namespace ColorTree

/-! ## §2. Trees, from one of their sides. -/

/-- What is beyond the hole in the direction `d`. -/
def beyond (d : Bool) : List (Frame α) → List α
  | [] => []
  | f :: fs => if f.dir = d then beyond d fs else f.value :: (along d f.other.toList ++ beyond d fs)

variable {d : Bool} {c : Color} {v : α} {s near far : ColorTree α} {f : Frame α} {fs gs : List (Frame α)}

theorem along_fork : along d (fork d c v near far).toList = along d far.toList ++ v :: along d near.toList := by
  cases d <;> simp [fork]

theorem along_fork_not :
    along (!d) (fork d c v near far).toList = along (!d) near.toList ++ v :: along (!d) far.toList := by
  cases d <;> simp [fork]

theorem beyond_same (h : f.dir = d) : beyond d (f :: fs) = beyond d fs := if_pos h

theorem beyond_other (h : f.dir ≠ d) : beyond d (f :: fs) = f.value :: (along d f.other.toList ++ beyond d fs) :=
  if_neg h

/-- **The order of a tree with a hole.** -/
theorem along_plug (d : Bool) :
    along d (plug fs s).toList = (beyond (!d) fs).reverse ++ (along d s.toList ++ beyond d fs) := by
  induction fs generalizing s with
  | nil => simp [plug, beyond]
  | cons f fs ih =>
      rw [plug, ih, Frame.fill]
      by_cases hdir : f.dir = d
      · -- what is on the side of the hole comes behind
        have hne : f.dir ≠ !d := by simp [hdir]
        rw [beyond_same hdir, beyond_other hne, hdir, along_fork, along_not]
        simp
      · have hnot : f.dir = !d := by simp [Bool.eq_not, hdir]
        rw [beyond_other hdir, beyond_same hnot, hnot]
        have horder : along (!!d) (fork (!d) f.color f.value s f.other).toList
            = along (!!d) s.toList ++ f.value :: along (!!d) f.other.toList := along_fork_not
        rw [Bool.not_not] at horder
        rw [horder]
        simp

/-- Frames with the hole on the side `d` have nothing beyond it. -/
theorem beyond_append (h : ∀ g ∈ gs, g.dir = d) : beyond d (gs ++ fs) = beyond d fs := by
  induction gs with
  | nil => rfl
  | cons g gs ih =>
      rw [List.cons_append, beyond_same (h g (List.mem_cons_self ..))]
      exact ih fun f hf => h f (List.mem_cons_of_mem _ hf)

/-- **Down an edge**: its end is the first in the other direction. -/
theorem head_edge (h : ∀ g ∈ gs, g.dir = d) :
    (along (!d) (plug gs (fork d c v nil far)).toList).head? = some v := by
  have hnone : beyond d gs = [] := by
    have happend : beyond d (gs ++ []) = beyond d [] := beyond_append h
    rwa [List.append_nil] at happend
  rw [along_plug, Bool.not_not, hnone, along_fork_not]
  simp

/-! ## §3. Other values in the same tree. -/

/-- The tree with the function on its values. -/
def map (g : α → α) : ColorTree α → ColorTree α
  | nil => nil
  | node c l v r => node c (map g l) (g v) (map g r)

/-- The frame with the function on its values. -/
def Frame.map (g : α → α) (f : Frame α) : Frame α := ⟨f.dir, f.color, g f.value, f.other.map g⟩

variable {g : α → α} {t : ColorTree α} {n : Nat}

@[simp] theorem toList_map : (t.map g).toList = t.toList.map g := by
  induction t with
  | nil => rfl
  | node c l v r ihl ihr => rw [map, toList_node, ihl, ihr, toList_node, List.map_append, List.map_cons]

@[simp] theorem color_map : (t.map g).color = t.color := by cases t <;> rfl

@[simp] theorem map_fork : (fork d c v near far).map g = fork d c (g v) (near.map g) (far.map g) := by cases d <;> rfl

theorem map_plug : (plug fs s).map g = plug (fs.map (Frame.map g)) (s.map g) := by
  induction fs generalizing s with
  | nil => rfl
  | cons f fs ih =>
      rw [plug, ih, Frame.fill, map_fork]
      rfl

theorem Balanced.map (h : Balanced t n) (g : α → α) : Balanced (t.map g) n := by
  induction h with
  | nil => exact .nil
  | red hl hr _ _ ihl ihr => exact .red (color_map.trans hl) (color_map.trans hr) ihl ihr
  | black _ _ ihl ihr => exact .black ihl ihr

/-- The colours do not depend on the values. -/
theorem RedBlack.map (h : RedBlack t) (g : α → α) : RedBlack (t.map g) := by
  obtain ⟨hroot, n, hn⟩ := h
  exact ⟨color_map.trans hroot, n, hn.map g⟩

end ColorTree

end LzLib.Foundation
