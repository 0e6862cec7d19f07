/-
  LzLib.Foundation.RedBlackRepair
  ───────────────────────────────
  **REPAIRING RED-BLACK TREES FROM A HOLE.**

  After a leaf was put in or a node was taken out the colours are wrong in one
  place.  The repair goes up from there, one frame or two at a time:

    • `insertUp`  — the subtree in the hole has a red root, which may have a red parent;
    • `deleteUp`  — the ways through the hole are short of one black node.

  Neither touches the order of the values, and each ends in a red-black tree.
-/
import LzLib.Foundation.RedBlack

namespace LzLib.Foundation

variable {α : Type}

namespace ColorTree

/-! ## §1. Trees with a hole. -/

/-- A node one of whose children is the hole; `dir`: which. -/
structure Frame (α : Type) where
  dir : Bool
  color : Color
  value : α
  other : ColorTree α

def Frame.fill (f : Frame α) (t : ColorTree α) : ColorTree α := fork f.dir f.color f.value t f.other

/-- The tree that has `t` in the hole. -/
def plug : List (Frame α) → ColorTree α → ColorTree α
  | [], t => t
  | f :: fs, t => plug fs (f.fill t)

/-- The values before the hole, in order. -/
def before : List (Frame α) → List α
  | [] => []
  | f :: fs => if f.dir then before fs ++ (f.other.toList ++ [f.value]) else before fs

/-- The values after the hole, in order. -/
def after : List (Frame α) → List α
  | [] => []
  | f :: fs => if f.dir then after fs else f.value :: (f.other.toList ++ after fs)

/-- The child on the side `d`. -/
def sub (d : Bool) : ColorTree α → ColorTree α
  | nil => nil
  | node _ l _ r => if d then r else l

variable {d : Bool} {c c' : Color} {v w : α} {s t x l r near far : ColorTree α} {f g : Frame α}
  {fs gs : List (Frame α)} {n : Nat}

@[simp] theorem sub_fork : (fork d c v near far).sub d = near := by cases d <;> rfl

@[simp] theorem sub_not_fork : (fork d c v near far).sub (!d) = far := by cases d <;> rfl

theorem plug_append : plug (fs ++ gs) t = plug gs (plug fs t) := by
  induction fs generalizing t with
  | nil => rfl
  | cons f fs ih => exact ih

@[simp] theorem toList_plug : (plug fs t).toList = before fs ++ (t.toList ++ after fs) := by
  induction fs generalizing t with
  | nil => simp [plug, before, after]
  | cons f fs ih =>
      rw [plug, ih, Frame.fill, before, after]
      cases f.dir <;> simp [fork]

/-! ## §2. What fits. -/

/-- A red root may be put into the hole. -/
def AllowsRed : List (Frame α) → Prop
  | [] => False
  | f :: _ => f.color = .black

/-- A tree of black height `n` with a black root may be put into the hole. -/
def Fits : List (Frame α) → Nat → Prop
  | [], _ => True
  | f :: fs, n =>
      match f.color with
      | .red => f.other.color = .black ∧ Balanced f.other n ∧ AllowsRed fs ∧ Fits fs n
      | .black => Balanced f.other n ∧ Fits fs (n + 1)

theorem fits_red (h : f.color = .red) :
    Fits (f :: fs) n ↔ f.other.color = .black ∧ Balanced f.other n ∧ AllowsRed fs ∧ Fits fs n := by
  rw [Fits, h]

theorem fits_black (h : f.color = .black) : Fits (f :: fs) n ↔ Balanced f.other n ∧ Fits fs (n + 1) := by
  rw [Fits, h]

/-- The values do not matter. -/
theorem fits_value {fs gs : List (Frame α)} {n : Nat} (v w : α) :
    Fits (fs ++ ⟨d, c, v, t⟩ :: gs) n ↔ Fits (fs ++ ⟨d, c, w, t⟩ :: gs) n := by
  have hred : ∀ fs : List (Frame α), AllowsRed (fs ++ ⟨d, c, v, t⟩ :: gs) ↔ AllowsRed (fs ++ ⟨d, c, w, t⟩ :: gs) := by
    intro fs
    cases fs <;> rfl
  induction fs generalizing n with
  | nil => rfl
  | cons f fs ih =>
      rw [List.cons_append, List.cons_append]
      cases hf : f.color with
      | red =>
          rw [fits_red hf, fits_red hf, hred fs]
          exact and_congr_right' (and_congr_right' (and_congr_right' ih))
      | black =>
          rw [fits_black hf, fits_black hf]
          exact and_congr_right' ih

/-- **What fits makes a red-black tree.** -/
theorem Fits.plug (hf : Fits fs n) (ht : Balanced t n) (hred : t.color = .red → AllowsRed fs) :
    RedBlack (plug fs t) := by
  induction fs generalizing t n with
  | nil =>
      refine ⟨?_, n, ht⟩
      cases hc : t.color with
      | black => exact hc
      | red => exact (hred hc).elim
  | cons f fs ih =>
      cases hcolor : f.color with
      | black =>
          rw [fits_black hcolor] at hf
          refine ih hf.2 ?_ ?_
          · rw [Frame.fill, hcolor]
            exact balanced_black_iff.mpr ⟨ht, hf.1⟩
          · rw [Frame.fill, color_fork, hcolor]
            exact nofun
      | red =>
          rw [fits_red hcolor] at hf
          have hblack : t.color = .black := by
            cases hc : t.color with
            | black => rfl
            | red =>
                have hf' : f.color = .black := hred hc
                rw [hcolor] at hf'
                cases hf'
          refine ih hf.2.2.2 ?_ fun _ => hf.2.2.1
          rw [Frame.fill, hcolor]
          exact balanced_red_iff.mpr ⟨hblack, hf.1, ht, hf.2.1⟩

/-- What is in the hole of a red-black tree fits. -/
theorem RedBlack.fits (h : RedBlack (ColorTree.plug fs t)) :
    ∃ n, Fits fs n ∧ Balanced t n ∧ (t.color = .red → AllowsRed fs) := by
  induction fs generalizing t with
  | nil =>
      obtain ⟨hc, n, hn⟩ := h
      refine ⟨n, trivial, hn, ?_⟩
      intro hred
      have hc' : t.color = .black := hc
      rw [hred] at hc'
      cases hc'
  | cons f fs ih =>
      obtain ⟨n, hfits, hbal, hred⟩ := ih h
      rw [Frame.fill] at hbal hred
      rw [color_fork] at hred
      cases hcolor : f.color with
      | red =>
          rw [hcolor, balanced_red_iff] at hbal
          refine ⟨n, (fits_red hcolor).mpr ⟨hbal.2.1, hbal.2.2.2, hred hcolor, hfits⟩, hbal.2.2.1, ?_⟩
          intro hc
          rw [hbal.1] at hc
          cases hc
      | black =>
          rw [hcolor] at hbal
          obtain ⟨m, rfl⟩ := hbal.black_height
          rw [balanced_black_iff] at hbal
          exact ⟨m, (fits_black hcolor).mpr ⟨hbal.2, hfits⟩, hbal.1, fun _ => hcolor⟩

/-! ## §3. After an insertion. -/

/-- The rotations that end the repair: the node of `f` or, where `f` and `g`
look to different sides, its child in the hole comes up in the place of `g`. -/
def rotateUp (f g : Frame α) (t : ColorTree α) : ColorTree α :=
  if f.dir = g.dir then fork g.dir .black f.value t (fork g.dir .red g.value f.other g.other)
  else
    match t with
    | nil => g.fill (f.fill nil)
    | node c l v r =>
        fork g.dir .black v (fork g.dir f.color f.value f.other ((node c l v r).sub g.dir))
          (fork g.dir .red g.value ((node c l v r).sub !g.dir) g.other)

/-- The repair after an insertion. -/
def insertUp : List (Frame α) → ColorTree α → ColorTree α
  | f :: g :: fs, t =>
      match f.color with
      | .black => plug (f :: g :: fs) t
      | .red =>
          match g.other.color with
          | .red =>
              insertUp fs
                (fork g.dir .red g.value (fork f.dir .black f.value t f.other) g.other.blacken)
          | .black => plug fs (rotateUp f g t)
  | fs, t => plug fs t

theorem toList_rotateUp : (rotateUp f g t).toList = (g.fill (f.fill t)).toList := by
  unfold rotateUp Frame.fill
  by_cases hdir : f.dir = g.dir
  · rw [if_pos hdir, hdir]
    exact toList_rotate.symm
  · rw [if_neg hdir]
    cases t with
    | nil => rfl
    | node c l v r =>
        have hother : f.dir = !g.dir := by
          rw [Bool.eq_not]
          exact hdir
        rw [hother]
        cases g.dir <;> simp [fork, sub]

theorem toList_plug_congr (h : s.toList = t.toList) : (plug fs s).toList = (plug fs t).toList := by
  rw [toList_plug, toList_plug, h]

theorem toList_insertUp : (insertUp fs t).toList = (plug fs t).toList := by
  induction fs, t using insertUp.induct with
  | case1 f g fs t hf => rw [insertUp, hf]
  | case2 f g fs t hf hg ih =>
      rw [insertUp, hf]
      simp only [hg]
      rw [ih]
      exact toList_plug_congr (toList_fork_congr toList_fork_color toList_blacken)
  | case3 f g fs t hf hg =>
      rw [insertUp, hf]
      simp only [hg]
      exact toList_plug_congr toList_rotateUp
  | case4 fs t hfs =>
      unfold insertUp
      split
      · exact (hfs _ _ _ rfl).elim
      · rfl

theorem rotateUp_balanced (hf : f.color = .red) (hfits : Fits (f :: g :: fs) n)
    (hother : g.other.color = .black) (ht : Balanced t n) (hred : t.color = .red) :
    Balanced (rotateUp f g t) (n + 1) ∧ (rotateUp f g t).color = .black := by
  rw [fits_red hf] at hfits
  have hg : g.color = .black := hfits.2.2.1
  have hfits' := hfits.2.2.2
  rw [fits_black hg] at hfits'
  unfold rotateUp
  by_cases hdir : f.dir = g.dir
  · rw [if_pos hdir]
    exact ⟨balanced_black_iff.mpr ⟨ht, balanced_red_iff.mpr ⟨hfits.1, hother, hfits.2.1, hfits'.1⟩⟩,
      color_fork⟩
  · rw [if_neg hdir, hf]
    rcases fork_cases g.dir t with rfl | ⟨c, v, a, b, rfl⟩
    · cases hred
    · rw [color_fork] at hred
      rw [hred, balanced_red_iff] at ht
      obtain ⟨ha, hb, hba, hbb⟩ := ht
      -- the red child comes up black, over the red nodes of `f` and `g`
      have hleft := balanced_red_iff (d := g.dir) (v := f.value).mpr ⟨hfits.1, ha, hfits.2.1, hba⟩
      have hright := balanced_red_iff (d := g.dir) (v := g.value).mpr ⟨hb, hother, hbb, hfits'.1⟩
      cases hd : g.dir <;> rw [hd] at hleft hright <;>
        exact ⟨balanced_black_iff.mpr ⟨hleft, hright⟩, rfl⟩

/-- **The repair after an insertion ends in a red-black tree.** -/
theorem insertUp_redBlack (hfits : Fits fs n) (ht : Balanced t n) (hred : t.color = .red) :
    RedBlack (insertUp fs t).blacken := by
  induction fs, t using insertUp.induct generalizing n with
  | case1 f g fs t hf =>
      rw [insertUp, hf]
      exact (hfits.plug ht fun _ => hf).blacken
  | case2 f g fs t hf hg ih =>
      rw [insertUp, hf]
      simp only [hg]
      rw [fits_red hf] at hfits
      have hgb : g.color = .black := hfits.2.2.1
      have hfits' := hfits.2.2.2
      rw [fits_black hgb] at hfits'
      -- parent and uncle black: the grandparent is the red root one black node higher
      refine ih hfits'.2 ?_ color_fork
      refine balanced_red_iff.mpr ⟨color_fork, color_blacken, ?_, ?_⟩
      · exact balanced_black_iff.mpr ⟨ht, hfits.2.1⟩
      · exact hfits'.1.blacken_red hg
  | case3 f g fs t hf hg =>
      rw [insertUp, hf]
      simp only [hg]
      have hrot := rotateUp_balanced hf hfits hg ht hred
      rw [fits_red hf] at hfits
      have hfits' := hfits.2.2.2
      rw [fits_black hfits.2.2.1] at hfits'
      refine (hfits'.2.plug hrot.1 ?_).blacken
      rw [hrot.2]
      exact nofun
  | case4 fs t hfs =>
      cases fs with
      | nil => exact ⟨color_blacken, ht.blacken⟩
      | cons f fs =>
          cases fs with
          | cons g fs => exact (hfs f g fs rfl).elim
          | nil =>
              -- a node that has no parent is the root, and black
              have hf : f.color = .black := by
                cases hc : f.color with
                | black => rfl
                | red => exact ((fits_red hc).mp hfits).2.2.1.elim
              exact (hfits.plug ht fun _ => hf).blacken

/-! ## §4. After a deletion. -/

/-- A black sibling with the value `u`, on the other side than `d`: what comes in
the place of the parent, and whether the ways through it are still short. -/
def blackSibling (d : Bool) (c : Color) (v : α) (x : ColorTree α) (u : α) (near far : ColorTree α) :
    ColorTree α × Bool :=
  if near.color = .black ∧ far.color = .black then (fork d c v x (fork d .red u near far), true)
  else if far.color = .black then
    match near with
    | nil => (fork d c v x (fork d .black u nil far), false)
    | node _ l y r =>
        (fork d c y (fork d .black v x ((node .red l y r).sub d))
          (fork d .black u ((node .red l y r).sub !d) far), false)
  else (fork d c u (fork d .black v x near) far.blacken, false)

/-- A red sibling: it comes up black, and the parent goes down red, with a black sibling. -/
def redSibling (d : Bool) (v : α) (x : ColorTree α) (u : α) (near far : ColorTree α) : ColorTree α :=
  match near with
  | nil => fork d .black u (fork d .red v x nil) far
  | node _ l y r =>
      let r := blackSibling d .red v x y ((node .black l y r).sub d) ((node .black l y r).sub !d)
      fork d .black u (if r.2 then r.1.blacken else r.1) far

/-- One round of the repair, at the frame next to the hole. -/
def siblingUp (f : Frame α) (x : ColorTree α) : ColorTree α × Bool :=
  match f.other with
  | nil => (f.fill x, false)
  | node .red l u r =>
      (redSibling f.dir f.value x u ((node .red l u r).sub f.dir) ((node .red l u r).sub !f.dir), false)
  | node .black l u r =>
      blackSibling f.dir f.color f.value x u ((node .black l u r).sub f.dir) ((node .black l u r).sub !f.dir)

/-- The repair after a deletion. -/
def deleteUp : List (Frame α) → ColorTree α → ColorTree α
  | [], x => x.blacken
  | f :: fs, x =>
      match x.color with
      | .red => plug (f :: fs) x.blacken
      | .black => if (siblingUp f x).2 then deleteUp fs (siblingUp f x).1 else plug fs (siblingUp f x).1

section Sibling

variable {u : α}

theorem siblingUp_black : siblingUp ⟨d, c, v, fork d .black u near far⟩ x = blackSibling d c v x u near far := by
  cases d <;> rfl

theorem siblingUp_red : siblingUp ⟨d, c, v, fork d .red u near far⟩ x = (redSibling d v x u near far, false) := by
  cases d <;> rfl

theorem blackSibling_up (h : near.color = .black ∧ far.color = .black) :
    blackSibling d c v x u near far = (fork d c v x (fork d .red u near far), true) := if_pos h

theorem blackSibling_last (h : ¬(near.color = .black ∧ far.color = .black)) :
    (blackSibling d c v x u near far).2 = false := by
  unfold blackSibling
  rw [if_neg h]
  split_ifs
  · cases near <;> rfl
  · rfl

theorem toList_blackSibling :
    (blackSibling d c v x u near far).1.toList = (fork d c v x (fork d .black u near far)).toList := by
  unfold blackSibling
  split_ifs with hblack hfar
  · exact toList_fork_congr rfl toList_fork_color
  · rcases fork_cases d near with rfl | ⟨c', y, a, b, rfl⟩
    · rfl
    · cases d <;> simp [fork, sub]
  · cases d <;> simp [fork]

theorem redSibling_fork {y : α} {a b : ColorTree α} :
    redSibling d v x u (fork d c y a b) far
      = fork d .black u
          (if (blackSibling d .red v x y a b).2 then (blackSibling d .red v x y a b).1.blacken
            else (blackSibling d .red v x y a b).1) far := by
  cases d <;> rfl

theorem toList_redSibling :
    (redSibling d v x u near far).toList = (fork d c v x (fork d .red u near far)).toList := by
  rcases fork_cases d near with rfl | ⟨c', y, a, b, rfl⟩
  · cases d <;> simp [redSibling, fork]
  · have hinner : (if (blackSibling d .red v x y a b).2 then (blackSibling d .red v x y a b).1.blacken
        else (blackSibling d .red v x y a b).1).toList = (fork d .red v x (fork d .black y a b)).toList := by
      split_ifs
      · rw [toList_blacken, toList_blackSibling]
      · exact toList_blackSibling
    rw [redSibling_fork]
    refine (toList_fork_congr hinner rfl).trans (?_ : (fork d .black u (fork d .red v x (fork d .black y a b)) far).toList = _)
    cases d <;> simp [fork]

theorem toList_siblingUp : (siblingUp f x).1.toList = (f.fill x).toList := by
  obtain ⟨d, c, v, t⟩ := f
  rcases fork_cases d t with rfl | ⟨c', u, near, far, rfl⟩
  · rfl
  · cases c' with
    | black =>
        rw [siblingUp_black]
        exact toList_blackSibling
    | red =>
        rw [siblingUp_red]
        exact toList_redSibling

theorem toList_deleteUp : (deleteUp fs x).toList = (plug fs x).toList := by
  induction fs generalizing x with
  | nil => exact toList_blacken
  | cons f fs ih =>
      rw [deleteUp]
      cases x.color with
      | red => exact toList_plug_congr toList_blacken
      | black =>
          dsimp only
          split_ifs
          · rw [ih]
            exact toList_plug_congr toList_siblingUp
          · exact toList_plug_congr toList_siblingUp

/-! ### Short trees. -/

/-- The ways through `t` meet `n` black nodes, and `n + 1` once its root is black. -/
def Short (t : ColorTree α) (n : Nat) : Prop :=
  (t.color = .red → Balanced t.blacken (n + 1)) ∧ (t.color = .black → Balanced t n)

theorem Balanced.short (h : Balanced t n) : Short t n :=
  ⟨fun hc => h.blacken_red hc, fun _ => h⟩

/-- **The round at a black sibling**: the ways are as long as they have to be, or
still short by one and the place is one frame further up. -/
theorem blackSibling_balanced (hx : Balanced x n) (hnear : Balanced near n)
    (hfar : Balanced far n) :
    (blackSibling d c v x u near far).1.color = c ∧
      ((blackSibling d c v x u near far).2 = true → Balanced (blackSibling d c v x u near far).1.blacken (n + 1)) ∧
      ((blackSibling d c v x u near far).2 = false →
        Balanced (blackSibling d c v x u near far).1 (if c = .black then n + 2 else n + 1)) := by
  have hover : ∀ {a b : ColorTree α} {w : α}, a.color = .black → b.color = .black → Balanced a (n + 1) →
      Balanced b (n + 1) → Balanced (fork d c w a b) (if c = .black then n + 2 else n + 1) := by
    intro a b w hca hcb ha hb
    cases c with
    | black => exact balanced_black_iff.mpr ⟨ha, hb⟩
    | red => exact balanced_red_iff.mpr ⟨hca, hcb, ha, hb⟩
  unfold blackSibling
  by_cases hblack : near.color = .black ∧ far.color = .black
  · rw [if_pos hblack]
    refine ⟨color_fork, fun _ => ?_, nofun⟩
    rw [blacken_fork]
    exact balanced_black_iff.mpr ⟨hx, balanced_red_iff.mpr ⟨hblack.1, hblack.2, hnear, hfar⟩⟩
  · rw [if_neg hblack]
    by_cases hf : far.color = .black
    · rw [if_pos hf]
      rcases fork_cases d near with rfl | ⟨c', y, a, b, rfl⟩
      · exact absurd ⟨rfl, hf⟩ hblack
      · -- the near child is red, and its children take the places beside it
        have hred : c' = .red := by
          cases c' with
          | red => rfl
          | black => exact absurd ⟨color_fork, hf⟩ hblack
        rw [hred, balanced_red_iff] at hnear
        have hleft := balanced_black_iff (d := d) (v := v).mpr ⟨hx, hnear.2.2.1⟩
        have hright := balanced_black_iff (d := d) (v := u).mpr ⟨hnear.2.2.2, hfar⟩
        have hres := hover (w := y) color_fork color_fork hleft hright
        cases d <;> exact ⟨rfl, nofun, fun _ => hres⟩
    · rw [if_neg hf]
      have hfred : far.color = .red := by
        cases hc : far.color with
        | black => exact absurd hc hf
        | red => rfl
      refine ⟨color_fork, nofun, fun _ => ?_⟩
      exact hover color_fork color_blacken (balanced_black_iff.mpr ⟨hx, hnear⟩) (hfar.blacken_red hfred)

/-- The round at a red sibling is the last one. -/
theorem redSibling_balanced (hx : Balanced x n) (hw : Balanced (fork d .red u near far) (n + 1)) :
    Balanced (redSibling d v x u near far) (n + 2) ∧ (redSibling d v x u near far).color = .black := by
  rw [balanced_red_iff] at hw
  obtain ⟨hnear, hfar, hbnear, hbfar⟩ := hw
  obtain ⟨c', y, a, b, rfl⟩ := hbnear.exists_fork d
  rw [color_fork] at hnear
  rw [hnear, balanced_black_iff] at hbnear
  have hround := blackSibling_balanced (d := d) (c := .red) (v := v) (u := y) hx hbnear.1 hbnear.2
  have hinner : Balanced (if (blackSibling d .red v x y a b).2 then (blackSibling d .red v x y a b).1.blacken
      else (blackSibling d .red v x y a b).1) (n + 1) := by
    cases hshort : (blackSibling d .red v x y a b).2 with
    | true => exact hround.2.1 hshort
    | false => exact hround.2.2 hshort
  rw [redSibling_fork]
  exact ⟨balanced_black_iff.mpr ⟨hinner, hbfar⟩, color_fork⟩

end Sibling

/-- **One round of the repair.** -/
theorem siblingUp_fits (hfits : Fits (f :: fs) (n + 1)) (hx : Balanced x n) :
    ((siblingUp f x).2 = true → ∃ m, Short (siblingUp f x).1 m ∧ Fits fs (m + 1)) ∧
      ((siblingUp f x).2 = false →
        ∃ m, Fits fs m ∧ Balanced (siblingUp f x).1 m ∧ ((siblingUp f x).1.color = .red → AllowsRed fs)) := by
  obtain ⟨d, c, v, t⟩ := f
  have hother : Balanced t (n + 1) := by
    cases c with
    | red => exact ((fits_red rfl).mp hfits).2.1
    | black => exact ((fits_black rfl).mp hfits).1
  obtain ⟨c', u, near, far, rfl⟩ := hother.exists_fork d
  cases c' with
  | red =>
      -- a red sibling has a black parent
      have hc : c = .black := by
        cases c with
        | black => rfl
        | red =>
            have hcolor := ((fits_red rfl).mp hfits).1
            rw [color_fork] at hcolor
            cases hcolor
      subst hc
      have hround := redSibling_balanced (v := v) hx hother
      rw [siblingUp_red]
      refine ⟨nofun, fun _ => ⟨n + 2, ((fits_black rfl).mp hfits).2, hround.1, ?_⟩⟩
      rw [hround.2]
      exact nofun
  | black =>
      rw [balanced_black_iff] at hother
      obtain ⟨hcolor, hshort, hdone⟩ :=
        blackSibling_balanced (d := d) (c := c) (v := v) (u := u) hx hother.1 hother.2
      rw [siblingUp_black, hcolor]
      cases c with
      | red =>
          rw [fits_red rfl] at hfits
          refine ⟨fun h => ⟨n, ⟨fun _ => hshort h, ?_⟩, hfits.2.2.2⟩,
            fun h => ⟨n + 1, hfits.2.2.2, hdone h, fun _ => hfits.2.2.1⟩⟩
          rw [hcolor]
          exact nofun
      | black =>
          rw [fits_black rfl] at hfits
          refine ⟨fun h => ⟨n + 1, ⟨?_, fun _ => ?_⟩, hfits.2⟩, fun h => ⟨n + 2, hfits.2, hdone h, nofun⟩⟩
          · rw [hcolor]
            exact nofun
          · rw [← blacken_of_black hcolor]
            exact hshort h

/-- **The repair after a deletion ends in a red-black tree.** -/
theorem deleteUp_redBlack (hx : Short x n) (hfits : Fits fs (n + 1)) : RedBlack (deleteUp fs x) := by
  induction fs generalizing x n with
  | nil =>
      refine ⟨color_blacken, ?_⟩
      cases hc : x.color with
      | red => exact ⟨_, hx.1 hc⟩
      | black => exact (hx.2 hc).blacken
  | cons f fs ih =>
      rw [deleteUp]
      cases hc : x.color with
      | red =>
          refine hfits.plug (hx.1 hc) ?_
          rw [color_blacken]
          exact nofun
      | black =>
          have hround := siblingUp_fits hfits (hx.2 hc)
          dsimp only
          cases hshort : (siblingUp f x).2 with
          | true =>
              rw [if_pos rfl]
              obtain ⟨m, hm, hfits'⟩ := hround.1 hshort
              exact ih hm hfits'
          | false =>
              rw [if_neg Bool.false_ne_true]
              obtain ⟨m, hfits', hm, hred⟩ := hround.2 hshort
              exact hfits'.plug hm hred

/-! ## §5. Taking a node out. -/

/-- The least node of a tree: the way to it, its colour and value, and its right child. -/
def least : ColorTree α → Option (List (Frame α) × Color × α × ColorTree α)
  | nil => none
  | node c l v r =>
      match least l with
      | none => some ([], c, v, r)
      | some (sp, cs, s, sr) => some (sp ++ [⟨false, c, v, r⟩], cs, s, sr)

/-- A node of colour `c` that had the one child `x` has left the hole to it. -/
def closeUp (c : Color) (fs : List (Frame α)) (x : ColorTree α) : ColorTree α :=
  match c with
  | .black => deleteUp fs x
  | .red => plug fs x

/-- The node in the hole, of colour `c` with the children `l` and `r`, is taken out
and the next node in order put in its place: the colour that is missing, where it
is missing, and what is there. -/
def takeOut (fs : List (Frame α)) (c : Color) (l r : ColorTree α) : Color × List (Frame α) × ColorTree α :=
  match least r with
  | none => (c, fs, l)
  | some (sp, cs, s, sr) => (cs, sp ++ ⟨true, c, s, l⟩ :: fs, sr)

/-- The tree without the node in the hole. -/
def removeAt (fs : List (Frame α)) (c : Color) (l r : ColorTree α) : ColorTree α :=
  closeUp (takeOut fs c l r).1 (takeOut fs c l r).2.1 (takeOut fs c l r).2.2

theorem least_eq_none_iff : least t = none ↔ t = nil := by
  cases t with
  | nil => exact ⟨fun _ => rfl, fun _ => rfl⟩
  | node c l v r =>
      refine ⟨?_, nofun⟩
      rw [least]
      cases least l with
      | none => exact nofun
      | some p => exact nofun

theorem least_spec {sp : List (Frame α)} {cs : Color} {u : α} {sr : ColorTree α}
    (h : least t = some (sp, cs, u, sr)) : t = plug sp (node cs nil u sr) ∧ ∀ f ∈ sp, f.dir = false := by
  induction t generalizing sp with
  | nil => cases h
  | node c l v r ih _ =>
      rw [least] at h
      cases hl : least l with
      | none =>
          rw [hl] at h
          cases h
          exact ⟨by rw [least_eq_none_iff.mp hl]; rfl, by simp⟩
      | some p =>
          obtain ⟨sp', cs', s', sr'⟩ := p
          rw [hl] at h
          cases h
          obtain ⟨hplug, hdir⟩ := ih hl
          refine ⟨?_, ?_⟩
          · rw [plug_append, ← hplug]
            rfl
          · intro f hf
            rcases List.mem_append.mp hf with hf | hf
            · exact hdir f hf
            · rw [List.mem_singleton.mp hf]

/-- The node in the hole and its successor, each in its place. -/
theorem plug_least {sp : List (Frame α)} {cs : Color} {u : α} {sr : ColorTree α} (h : least r = some (sp, cs, u, sr)) :
    plug fs (node c l v r) = plug (sp ++ ⟨true, c, v, l⟩ :: fs) (node cs nil u sr) := by
  rw [plug_append, plug, ← (least_spec h).1]
  rfl

theorem toList_closeUp : (closeUp c fs x).toList = (plug fs x).toList := by
  cases c with
  | black => exact toList_deleteUp
  | red => rfl

theorem closeUp_redBlack (hfits : Fits fs n) (hbal : Balanced (fork d c v x nil) n) :
    RedBlack (closeUp c fs x) := by
  cases c with
  | black =>
      obtain ⟨m, rfl⟩ := hbal.black_height
      exact deleteUp_redBlack (balanced_black_iff.mp hbal).1.short hfits
  | red =>
      rw [balanced_red_iff] at hbal
      refine hfits.plug hbal.2.2.1 ?_
      rw [hbal.1]
      exact nofun

/-- The place that the taking out leaves: a node of the missing colour, with one
child, was there. -/
theorem takeOut_fits (h : RedBlack (plug fs (node c l v r))) :
    ∃ d w n, Fits (takeOut fs c l r).2.1 n ∧
      Balanced (fork d (takeOut fs c l r).1 w (takeOut fs c l r).2.2 nil) n := by
  unfold takeOut
  cases hr : least r with
  | none =>
      rw [least_eq_none_iff.mp hr] at h
      obtain ⟨n, hfits, hbal, -⟩ := h.fits
      exact ⟨false, v, n, hfits, hbal⟩
  | some p =>
      obtain ⟨sp, cs, u, sr⟩ := p
      -- the successor's value comes up, and the colours around its place stay
      rw [plug_least hr] at h
      obtain ⟨n, hfits, hbal, -⟩ := h.fits
      exact ⟨true, u, n, (fits_value v u).mp hfits, hbal⟩

/-- Nothing is before the least node. -/
theorem before_of_left {sp : List (Frame α)} (h : ∀ f ∈ sp, f.dir = false) : before sp = [] := by
  induction sp with
  | nil => rfl
  | cons f sp ih =>
      rw [before, h f (List.mem_cons_self ..)]
      exact ih fun g hg => h g (List.mem_cons_of_mem _ hg)

/-- **Everything but the value of the node is left**, in order. -/
theorem toList_takeOut :
    (plug (takeOut fs c l r).2.1 (takeOut fs c l r).2.2).toList = before fs ++ (l.toList ++ r.toList ++ after fs) := by
  unfold takeOut
  cases hr : least r with
  | none =>
      dsimp only
      rw [toList_plug, least_eq_none_iff.mp hr]
      simp
  | some p =>
      obtain ⟨sp, cs, u, sr⟩ := p
      obtain ⟨hplug, hdir⟩ := least_spec hr
      dsimp only
      rw [plug_append, plug, toList_plug, hplug]
      simp [Frame.fill, fork, before_of_left hdir]

theorem toList_removeAt : (removeAt fs c l r).toList = before fs ++ (l.toList ++ r.toList ++ after fs) :=
  toList_closeUp.trans toList_takeOut

/-- **Taking a node out of a red-black tree leaves one.** -/
theorem removeAt_redBlack (h : RedBlack (plug fs (node c l v r))) : RedBlack (removeAt fs c l r) := by
  obtain ⟨d, w, n, hfits, hbal⟩ := takeOut_fits h
  exact closeUp_redBlack hfits hbal

theorem length_add_height_le : fs.length + t.height ≤ (plug fs t).height := by
  induction fs generalizing t with
  | nil => rw [List.length_nil, Nat.zero_add, plug]
  | cons f fs ih =>
      refine Nat.le_trans ?_ ih
      rw [Frame.fill, height_fork, List.length_cons]
      omega

/-- The place that the taking out leaves is in the tree. -/
theorem length_takeOut_lt : (takeOut fs c l r).2.1.length < (plug fs (node c l v r)).height := by
  unfold takeOut
  cases hr : least r with
  | none =>
      refine Nat.lt_of_lt_of_le ?_ length_add_height_le
      rw [height]
      exact Nat.lt_add_of_pos_right (Nat.succ_pos _)
  | some p =>
      obtain ⟨sp, cs, u, sr⟩ := p
      rw [plug_least hr]
      refine Nat.lt_of_lt_of_le ?_ length_add_height_le
      rw [height, List.length_append, List.length_append, List.length_cons, List.length_cons]
      exact Nat.lt_add_of_pos_right (Nat.succ_pos _)

end ColorTree

end LzLib.Foundation
