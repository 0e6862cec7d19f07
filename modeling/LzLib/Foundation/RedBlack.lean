/-
  LzLib.Foundation.RedBlack
  ─────────────────────────
  **RED-BLACK TREES, AND TREES WITH A HOLE.**

  Trees whose nodes are red or black and carry a value.  A list of frames is a
  tree with a hole: what is around the place where an algorithm works, the
  nearest node first.  The two mirror images of an operation are one here:
  `fork d` is a node seen from its side `d`.

    • `toList`        — the values in order; every rotation leaves them;
    • `Balanced t n`  — no red node has a red child, and every way down meets
                        `n` black nodes;
    • `Fits fs n`     — a balanced tree of black height `n` may be put into the hole.

  Main result: `Balanced.pow_le_size`, the height of a tree against the number
  of its nodes.
-/
import Mathlib.Data.List.Nodup
import Mathlib.Algebra.Order.Ring.Nat
import Mathlib.Tactic.Ring

namespace LzLib.Foundation

variable {α : Type}

/-! ## §1. Trees. -/

inductive Color
  | black
  | red
  deriving DecidableEq

inductive ColorTree (α : Type)
  | nil
  | node (c : Color) (l : ColorTree α) (v : α) (r : ColorTree α)

namespace ColorTree

/-- The values in order. -/
def toList : ColorTree α → List α
  | nil => []
  | node _ l v r => l.toList ++ v :: r.toList

def height : ColorTree α → Nat
  | nil => 0
  | node _ l _ r => max l.height r.height + 1

/-- The colour of the root; the empty tree counts as black. -/
def color : ColorTree α → Color
  | nil => .black
  | node c _ _ _ => c

/-- A node, seen from its side `d` (`true`: the right one). -/
def fork (d : Bool) (c : Color) (v : α) (near far : ColorTree α) : ColorTree α :=
  match d with
  | false => node c near v far
  | true => node c far v near

/-- The root painted black. -/
def blacken : ColorTree α → ColorTree α
  | nil => nil
  | node _ l v r => node .black l v r

variable {d : Bool} {c c' c₁ c₂ : Color} {v w : α} {s t l r A B C : ColorTree α}

@[simp] theorem toList_nil : (nil : ColorTree α).toList = [] := rfl

@[simp] theorem toList_node : (node c l v r).toList = l.toList ++ v :: r.toList := rfl

@[simp] theorem color_fork : (fork d c v s t).color = c := by cases d <;> rfl

@[simp] theorem blacken_fork : (fork d c v s t).blacken = fork d .black v s t := by cases d <;> rfl

@[simp] theorem toList_blacken : t.blacken.toList = t.toList := by cases t <;> rfl

@[simp] theorem color_blacken : t.blacken.color = .black := by cases t <;> rfl

theorem blacken_of_black (h : t.color = .black) : t.blacken = t := by
  cases t with
  | nil => rfl
  | node c l v r =>
      cases c with
      | black => rfl
      | red => cases h

/-- From the other side. -/
@[simp] theorem fork_not : fork (!d) c v s t = fork d c v t s := by cases d <;> rfl

theorem fork_ne_nil : fork d c v s t ≠ nil := by cases d <;> simp [fork]

theorem height_fork : (fork d c v s t).height = max s.height t.height + 1 := by
  cases d with
  | false => rfl
  | true =>
      show max t.height s.height + 1 = _
      rw [Nat.max_comm]

theorem height_le_length : t.height ≤ t.toList.length := by
  induction t with
  | nil => exact Nat.le_refl _
  | node c l v r ihl ihr =>
      rw [height, toList_node, List.length_append, List.length_cons]
      omega

/-- A tree is empty or a node, from whichever side. -/
theorem fork_cases (d : Bool) (t : ColorTree α) : t = nil ∨ ∃ c v near far, t = fork d c v near far := by
  cases t with
  | nil => exact Or.inl rfl
  | node c l v r =>
      cases d with
      | false => exact Or.inr ⟨c, v, l, r, rfl⟩
      | true => exact Or.inr ⟨c, v, r, l, rfl⟩

/-- The node with the other colour holds the same. -/
theorem toList_fork_color : (fork d c v s t).toList = (fork d c' v s t).toList := by cases d <;> rfl

/-- A subtree counts by its values only. -/
theorem toList_fork_congr {s' t' : ColorTree α} (hs : s.toList = s'.toList) (ht : t.toList = t'.toList) :
    (fork d c v s t).toList = (fork d c' v s' t').toList := by
  cases d <;> simp [fork, hs, ht]

/-- **A rotation leaves the order.** -/
theorem toList_rotate :
    (fork d c v (fork d c' w A B) C).toList = (fork d c₁ w A (fork d c₂ v B C)).toList := by
  cases d <;> simp [fork]

/-! ## §2. Balance. -/

/-- No red node has a red child, and every way down meets `n` black nodes. -/
inductive Balanced : ColorTree α → Nat → Prop
  | nil : Balanced ColorTree.nil 0
  | red {l v r n} : l.color = .black → r.color = .black → Balanced l n → Balanced r n →
      Balanced (node .red l v r) n
  | black {l v r n} : Balanced l n → Balanced r n → Balanced (node .black l v r) (n + 1)

theorem balanced_red_iff {n : Nat} :
    Balanced (fork d .red v s t) n ↔
      s.color = .black ∧ t.color = .black ∧ Balanced s n ∧ Balanced t n := by
  constructor
  · intro h
    cases d with
    | false =>
        cases h with
        | red hl hr hbl hbr => exact ⟨hl, hr, hbl, hbr⟩
    | true =>
        cases h with
        | red hl hr hbl hbr => exact ⟨hr, hl, hbr, hbl⟩
  · rintro ⟨hs, ht, hbs, hbt⟩
    cases d with
    | false => exact .red hs ht hbs hbt
    | true => exact .red ht hs hbt hbs

theorem balanced_black_iff {n : Nat} :
    Balanced (fork d .black v s t) (n + 1) ↔ Balanced s n ∧ Balanced t n := by
  constructor
  · intro h
    cases d with
    | false =>
        cases h with
        | black hl hr => exact ⟨hl, hr⟩
    | true =>
        cases h with
        | black hl hr => exact ⟨hr, hl⟩
  · rintro ⟨hs, ht⟩
    cases d with
    | false => exact .black hs ht
    | true => exact .black ht hs

/-- A black node has black height at least one. -/
theorem Balanced.black_height {n : Nat} (h : Balanced (fork d .black v s t) n) : ∃ m, n = m + 1 := by
  cases d with
  | false =>
      cases h with
      | black _ _ => exact ⟨_, rfl⟩
  | true =>
      cases h with
      | black _ _ => exact ⟨_, rfl⟩

/-- A tree of black height at least one has a root. -/
theorem Balanced.exists_fork {n : Nat} (d : Bool) (h : Balanced t (n + 1)) :
    ∃ c v near far, t = fork d c v near far := by
  rcases fork_cases d t with rfl | ht
  · cases h
  · exact ht

/-- Painting the root black makes the ways down longer, or leaves them. -/
theorem Balanced.blacken {n : Nat} (h : Balanced t n) : ∃ m, Balanced t.blacken m := by
  cases h with
  | nil => exact ⟨0, .nil⟩
  | red _ _ hl hr => exact ⟨_, .black hl hr⟩
  | black hl hr => exact ⟨_, .black hl hr⟩

theorem Balanced.blacken_red {n : Nat} (h : Balanced t n) (hc : t.color = .red) : Balanced t.blacken (n + 1) := by
  cases h with
  | nil => cases hc
  | red _ _ hl hr => exact .black hl hr
  | black _ _ => cases hc

/-- **Red-black trees**: balanced, with a black root. -/
def RedBlack (t : ColorTree α) : Prop := t.color = .black ∧ ∃ n, Balanced t n

theorem RedBlack.blacken (h : RedBlack t) : RedBlack t.blacken := by
  obtain ⟨-, n, hn⟩ := h
  exact ⟨color_blacken, hn.blacken⟩

/-! ## §3. Height. -/

section Height

variable {n k : Nat}

theorem Balanced.two_pow_le (h : Balanced t n) : 2 ^ n ≤ t.toList.length + 1 := by
  induction h with
  | nil => exact Nat.le_refl _
  | red _ _ _ _ ihl ihr =>
      rw [toList_node, List.length_append, List.length_cons]
      omega
  | black _ _ ihl ihr =>
      rw [toList_node, List.length_append, List.length_cons, pow_succ]
      omega

/-- At least every other node on a way down is black. -/
theorem Balanced.height_le (h : Balanced t n) :
    (t.color = .black → n ≤ t.height ∧ t.height ≤ 2 * n) ∧
      (t.color = .red → n + 1 ≤ t.height ∧ t.height ≤ 2 * n + 1) := by
  induction h with
  | nil => exact ⟨fun _ => ⟨Nat.le_refl _, Nat.le_refl _⟩, nofun⟩
  | red hl hr _ _ ihl ihr =>
      have h₁ := ihl.1 hl
      have h₂ := ihr.1 hr
      refine ⟨nofun, fun _ => ?_⟩
      rw [height]
      omega
  | @black l v r n _ _ ihl ihr =>
      refine ⟨fun _ => ?_, nofun⟩
      have hany : ∀ {s : ColorTree α}, (s.color = .black → n ≤ s.height ∧ s.height ≤ 2 * n) ∧
          (s.color = .red → n + 1 ≤ s.height ∧ s.height ≤ 2 * n + 1) → n ≤ s.height ∧ s.height ≤ 2 * n + 1 := by
        intro s hs
        cases hc : s.color with
        | black =>
            have := hs.1 hc
            omega
        | red =>
            have := hs.2 hc
            omega
      have h₁ := hany ihl
      have h₂ := hany ihr
      rw [height]
      omega

/-- What a tree of height `a` below a black node adds: its own nodes and those
that balance it on the other side. -/
theorem Balanced.tall_child {m : Nat} (h : Balanced s n)
    (ih : (s.color = .black → 2 ^ n + 2 ^ (s.height - n) ≤ s.toList.length + 2) ∧
      (s.color = .red → 2 ^ (n + 1) + 2 ^ (s.height - 1 - n) ≤ s.toList.length + 2)) (hm : 2 ^ n ≤ m + 1) :
    2 ^ (n + 1) + 2 ^ (s.height - n) ≤ s.toList.length + m + 3 := by
  have hpow : 2 ^ (n + 1) = 2 ^ n * 2 := pow_succ 2 n
  cases hc : s.color with
  | black =>
      have := ih.1 hc
      omega
  | red =>
      have hred := ih.2 hc
      have hheight := h.height_le.2 hc
      -- one red node on the way pays for the last factor of two
      have hsplit : 2 ^ (s.height - n) = 2 ^ (s.height - 1 - n) * 2 := by
        rw [← pow_succ]
        congr 1
        omega
      have hle : 2 ^ (s.height - 1 - n) ≤ 2 ^ n := Nat.pow_le_pow_right (by decide) (by omega)
      omega

/-- **Height against size.**  A way down of `h` nodes, `n` of them black, needs
`2 ^ n + 2 ^ (h - n) - 2` nodes at least. -/
theorem Balanced.pow_le_size (h : Balanced t n) :
    (t.color = .black → 2 ^ n + 2 ^ (t.height - n) ≤ t.toList.length + 2) ∧
      (t.color = .red → 2 ^ (n + 1) + 2 ^ (t.height - 1 - n) ≤ t.toList.length + 2) := by
  induction h with
  | nil => exact ⟨fun _ => Nat.le_refl _, nofun⟩
  | @red l v r n hl hr hbl hbr ihl ihr =>
      refine ⟨nofun, fun _ => ?_⟩
      have hpow : 2 ^ (n + 1) = 2 ^ n * 2 := pow_succ 2 n
      have hsl := hbl.two_pow_le
      have hsr := hbr.two_pow_le
      have h₁ := ihl.1 hl
      have h₂ := ihr.1 hr
      rw [toList_node, List.length_append, List.length_cons, height, Nat.add_sub_cancel]
      -- the taller child decides
      rcases Nat.le_total l.height r.height with hle | hle
      · rw [Nat.max_eq_right hle]
        omega
      · rw [Nat.max_eq_left hle]
        omega
  | @black l v r n hbl hbr ihl ihr =>
      refine ⟨fun _ => ?_, nofun⟩
      have h₁ := hbl.tall_child ihl hbr.two_pow_le
      have h₂ := hbr.tall_child ihr hbl.two_pow_le
      rw [toList_node, List.length_append, List.length_cons, height]
      rcases Nat.le_total l.height r.height with hle | hle
      · rw [Nat.max_eq_right hle, Nat.add_sub_add_right]
        omega
      · rw [Nat.max_eq_left hle, Nat.add_sub_add_right]
        omega

/-- **A red-black tree of few nodes is low.** -/
theorem RedBlack.height_lt (h : RedBlack t) (hsize : t.toList.length + 2 < 2 ^ (k + 1)) : t.height < 2 * k := by
  obtain ⟨hcolor, n, hn⟩ := h
  by_contra hlow
  have hheight := (hn.height_le.1 hcolor).2
  have hpow := hn.pow_le_size.1 hcolor
  rcases Nat.lt_or_ge k n with hkn | hnk
  · have hbig : 2 ^ (k + 1) ≤ 2 ^ n := Nat.pow_le_pow_right (by decide) hkn
    have hpos := Nat.two_pow_pos (t.height - n)
    omega
  · -- then every other node on the way is black, and none more
    have hn : n = k := by omega
    have h₁ : t.height - n = k := by omega
    rw [h₁, hn] at hpow
    rw [pow_succ] at hsize
    omega

end Height

end ColorTree

end LzLib.Foundation
