/-
  LzLib.Rb.Delete
  ───────────────
  **`rb_delete` IN MEMORY.**

  The node with the item leaves the tree, and its successor takes its place; where
  a black node is missing now, the loop of `rb_delete` does to the memory what
  `deleteUp` does to the tree.  No step follows NULL: a place that is short of a
  black node has a sibling, and a red sibling has children.

  Main result: `rbDelete_spec`.
-/
import LzLib.Rb.Probe

namespace LzLib.Rb

open LzLib.Foundation LzLib.Foundation.ColorTree

variable {ε : Type} {t t' : RbTable ε} {x near far : ColorTree (Addr × ε)} {d : Bool} {c : Color} {u v : Addr × ε}
  {fs : List (Frame (Addr × ε))} {up : Place} {e : Bool} {rest : Stack}

/-! ## §1. One round at a black sibling. -/

theorem aroundAddrs_recolor :
    addrs (fork d c v x (fork d .red u near far)) + aroundAddrs fs
      = addrs x + aroundAddrs (⟨d, c, v, fork d .black u near far⟩ :: fs) :=
  addrs_of_plug [⟨d, c, v, fork d .black u near far⟩] (toList_fork_congr rfl toList_fork_color)

theorem aroundAddrs_redSibling (c₁ c₂ : Color) :
    addrs x + aroundAddrs (⟨d, c₁, v, near⟩ :: ⟨d, c₂, u, far⟩ :: fs)
      = addrs x + aroundAddrs (⟨d, c, v, fork d .red u near far⟩ :: fs) := by
  rw [← addrs_plug, ← addrs_plug]
  rw [plug, plug, plug]
  refine addrs_congr (toList_plug_congr ?_)
  cases d <;> simp [Frame.fill, fork]

/-- Two black children: the sibling is painted red. -/
theorem deleteRecolor_spec (z : Zip t (⟨d, c, v, fork d .black u near far⟩ :: fs) x) :
    ∃ t', t.setColor u.1 .red = some t' ∧ Zip t' fs (fork d c v x (fork d .red u near far)) ∧
      Edits (addrs x + aroundAddrs (⟨d, c, v, fork d .black u near far⟩ :: fs)) t t' := by
  have hnodup : (addrs (fork d c v x (fork d .red u near far)) + aroundAddrs fs).Nodup := by
    rw [aroundAddrs_recolor]
    exact z.nodup
  obtain ⟨hx, ⟨hv0, hv, hw, hfs⟩, hnd⟩ := z
  rw [holds_fork] at hw
  obtain ⟨hu0, hu, hnear, hfar⟩ := hw
  simp only [rootAddr_fork] at hv0 hv hfs
  simp only [addrs_fork, aroundAddrs, Multiset.cons_add, Multiset.add_cons, Multiset.nodup_cons, Multiset.mem_cons,
    Multiset.mem_add, not_or] at hnd
  obtain ⟨⟨hvu, hvx⟩, hux, -⟩ := hnd
  refine ⟨_, RbTable.setColor_node hu, ⟨?_, ?_, hnodup⟩, ?_⟩
  · simp [holds_put, RbTable.nodes_put_of_ne, *]
  · simp [holdsAround_put, *]
  · simp [edits_put, Edits.refl, aroundAddrs]

/-- A red child: the rotations end the loop. -/
theorem deleteRotate_spec (z : Zip t (⟨d, c, v, fork d .black u near far⟩ :: fs) x)
    (hstack : stackOf fs = (up, e) :: rest) (hred : ¬(near.color = .black ∧ far.color = .black)) :
    ∃ t', deleteRotate t v.1 u.1 d up e = some t' ∧ Zip t' fs (blackSibling d c v x u near far).1 ∧
      Edits (addrs x + aroundAddrs (⟨d, c, v, fork d .black u near far⟩ :: fs)) t t' := by
  have hnodup : (addrs (blackSibling d c v x u near far).1 + aroundAddrs fs).Nodup := by
    rw [addrs_of_plug [⟨d, c, v, fork d .black u near far⟩] toList_blackSibling]
    exact z.nodup
  obtain ⟨hx, ⟨hv0, hv, hw, hfs⟩, hnd⟩ := z
  rw [holds_fork] at hw
  obtain ⟨hu0, hu, hnear, hfar⟩ := hw
  have hblack := hfar.isBlack
  simp only [rootAddr_fork] at hv0 hv hfs
  by_cases hf : far.color = .black
  · rcases fork_cases d near with rfl | ⟨c', y, a, b, rfl⟩
    · exact absurd ⟨rfl, hf⟩ hred
    · -- the near child comes up first
      have hres : (blackSibling d c v x u (fork d c' y a b) far).1
          = fork d c y (fork d .black v x a) (fork d .black u b far) := by
        unfold blackSibling
        rw [if_neg hred, if_pos hf]
        cases d <;> rfl
      rw [hres] at hnodup ⊢
      rw [holds_fork] at hnear
      obtain ⟨hy0, hy, ha, hb⟩ := hnear
      simp only [rootAddr_fork] at hu
      simp only [addrs_fork, aroundAddrs, Multiset.cons_add, Multiset.add_cons, Multiset.nodup_cons, Multiset.mem_cons,
        Multiset.mem_add, not_or] at hnd
      obtain ⟨⟨hvu, hvy, hvx⟩, ⟨huy, hux⟩, hyx, -⟩ := hnd
      have huv := Ne.symm hvu
      have hyv := Ne.symm hvy
      have hyu := Ne.symm huy
      simp only [deleteRotate, RbTable.color, RbTable.setColor_eq, RbTable.link_some, RbTable.setLink_some,
        RbTable.nodes_put_of_ne, RbTable.nodes_put_self, RbTable.put_put, links_near, links_far, update_links_near,
        update_links_far, Option.bind_eq_bind, Option.bind_some, Option.map_some, decide_true, if_true,
        ne_eq, not_false_eq_true, hv, hu, hy, hblack, hf, hvu, hvy, huy, huv, hyv, hyu]
      refine HoldsAround.place (p := v.1) ?_ hstack ?_ rootAddr_fork hnodup ?_ ?_
      · simp [holdsAround_put, *]
      · simp [holds_put, RbTable.nodes_put_of_ne, *]
      · simp [edits_put, Edits.refl, aroundAddrs]
      · simp +contextual [aroundAddrs]
  · have hres : (blackSibling d c v x u near far).1 = fork d c u (fork d .black v x near) far.blacken := by
      unfold blackSibling
      rw [if_neg hred, if_neg hf]
    rw [hres] at hnodup ⊢
    rcases fork_cases d far with rfl | ⟨c', y, a, b, rfl⟩
    · exact absurd rfl hf
    · rw [blacken_fork] at hnodup ⊢
      rw [holds_fork] at hfar
      obtain ⟨hy0, hy, ha, hb⟩ := hfar
      rw [color_fork] at hf
      simp only [rootAddr_fork, color_fork] at hu hblack
      simp only [addrs_fork, aroundAddrs, Multiset.cons_add, Multiset.add_cons, Multiset.nodup_cons, Multiset.mem_cons,
        Multiset.mem_add, not_or] at hnd
      obtain ⟨⟨hvu, hvy, hvx⟩, ⟨huy, hux⟩, hyx, -⟩ := hnd
      have huv := Ne.symm hvu
      have hyv := Ne.symm hvy
      have hyu := Ne.symm huy
      simp only [deleteRotate, RbTable.color, RbTable.setColor_eq, RbTable.link_some, RbTable.setLink_some,
        RbTable.nodes_put_of_ne, RbTable.nodes_put_self, links_near, links_far, update_links_near,
        update_links_far, Option.bind_eq_bind, Option.bind_some, Option.map_some, decide_false, if_false,
        Bool.false_eq_true, ne_eq, not_false_eq_true, hv, hu, hy, hblack, hf, hvu, hvy, huy, huv, hyv, hyu]
      refine HoldsAround.place (p := v.1) ?_ hstack ?_ rootAddr_fork hnodup ?_ ?_
      · simp [holdsAround_put, *]
      · simp [holds_put, RbTable.nodes_put_of_ne, *]
      · simp [edits_put, Edits.refl, aroundAddrs]
      · simp +contextual [aroundAddrs]

/-- A red sibling comes up, and its near child is the new sibling. -/
theorem deleteRedSibling_spec (z : Zip t (⟨d, c, v, fork d .red u near far⟩ :: fs) x)
    (hstack : stackOf fs = (up, e) :: rest) :
    ∃ t', deleteRedSibling t v.1 u.1 d up e = some (t', rootAddr near) ∧
      Zip t' (⟨d, .red, v, near⟩ :: ⟨d, .black, u, far⟩ :: fs) x ∧
      Edits (addrs x + aroundAddrs (⟨d, c, v, fork d .red u near far⟩ :: fs)) t t' := by
  have hrot : (fork d .black u (fork d .red v x near) far).toList
      = (plug [⟨d, c, v, fork d .red u near far⟩] x).toList := by
    cases d <;> simp [plug, Frame.fill, fork]
  have hnodup : (addrs (fork d .black u (fork d .red v x near) far) + aroundAddrs fs).Nodup := by
    rw [addrs_of_plug [⟨d, c, v, fork d .red u near far⟩] hrot]
    exact z.nodup
  obtain ⟨hx, ⟨hv0, hv, hw, hfs⟩, hnd⟩ := z
  rw [holds_fork] at hw
  obtain ⟨hu0, hu, hnear, hfar⟩ := hw
  simp only [rootAddr_fork] at hv0 hv hfs
  simp only [addrs_fork, aroundAddrs, Multiset.cons_add, Multiset.add_cons, Multiset.nodup_cons, Multiset.mem_cons,
    Multiset.mem_add, not_or] at hnd
  obtain ⟨⟨hvu, hvx⟩, hux, -⟩ := hnd
  have huv := Ne.symm hvu
  have hplace : ∃ t', (((t.put u.1 ⟨links d (rootAddr near) (rootAddr far), u.2, .black⟩).put v.1
        ⟨links d (rootAddr x) (rootAddr near), v.2, .red⟩).put u.1 ⟨links d v.1 (rootAddr far), u.2, .black⟩).setLink
          up e u.1 = some t' ∧
      Zip t' fs (fork d .black u (fork d .red v x near) far) ∧
      Edits (addrs x + aroundAddrs (⟨d, c, v, fork d .red u near far⟩ :: fs)) t t' := by
    refine HoldsAround.place (p := v.1) ?_ hstack ?_ rootAddr_fork hnodup ?_ ?_
    · simp [holdsAround_put, *]
    · simp [holds_put, RbTable.nodes_put_of_ne, *]
    · simp [edits_put, Edits.refl, aroundAddrs]
    · simp +contextual [aroundAddrs]
  obtain ⟨t', hset, z', hedits⟩ := hplace
  have hlast := z'.holds
  rw [holds_fork, holds_fork] at hlast
  have hlink := RbTable.link_node (d := !d) hlast.2.2.1.2.1
  refine ⟨t', ?_, zip_cons.mpr (zip_cons.mpr z'), hedits⟩
  simp [deleteRedSibling, RbTable.setColor_eq, RbTable.link_some, RbTable.setLink_some, RbTable.nodes_put_of_ne, hv, hu,
    huv, hvu, hset, hlast]

/-! ## §2. The repair. -/

/-- What the loop sees of the children of the sibling. -/
theorem blackChildren (h : Holds t.nodes (fork d c u near far)) :
    ∃ p q b₁ b₂, t.link (some u.1) false = some p ∧ t.isBlack p = some b₁ ∧ t.link (some u.1) true = some q ∧
      t.isBlack q = some b₂ ∧ (b₁ && b₂) = decide (near.color = .black ∧ far.color = .black) := by
  rw [holds_fork] at h
  obtain ⟨-, hu, hnear, hfar⟩ := h
  cases d with
  | false =>
      refine ⟨_, _, _, _, RbTable.link_node hu, hnear.isBlack, RbTable.link_node hu, hfar.isBlack, ?_⟩
      rw [Bool.decide_and]
  | true =>
      refine ⟨_, _, _, _, RbTable.link_node hu, hfar.isBlack, RbTable.link_node hu, hnear.isBlack, ?_⟩
      rw [Bool.decide_and, Bool.and_comm]

/-- An empty or red place: the loop ends. -/
theorem deleteRepair_end (maxHeight fuel : Nat) (z : Zip t fs x) (h : fs = [] ∨ x.color = .red) :
    ∃ t', deleteRepair maxHeight t (fuel + 1) (stackOf fs) = some t' ∧ Zip t' [] (plug fs x.blacken) ∧
      Edits (addrs x + aroundAddrs fs) t t' := by
  obtain ⟨up, e, rest, hstack⟩ := stackOf_cons fs
  have hlink := z.around.link hstack
  have hblack := z.holds.isBlack
  cases hc : x.color with
  | black =>
      rcases h with rfl | h
      · refine ⟨t, ?_, ?_, Edits.refl⟩
        · cases hstack
          rw [stackOf, deleteRepair]
          simp only [hlink, hblack, hc, Option.bind_eq_bind, Option.bind_some, decide_true, Bool.not_true,
            Bool.false_eq_true, if_false]
          rfl
        · rw [blacken_of_black hc]
          exact z
      · rw [hc] at h
        cases h
  | red =>
      have hne : x ≠ .nil := by
        rintro rfl
        cases hc
      obtain ⟨t', hset, z', hedits⟩ := z.blacken hne
      have hroot : rootAddr x ≠ 0 := fun h0 => hne (z.holds.rootAddr_eq_zero.mp h0)
      refine ⟨t', ?_, zip_plug.mp z', hedits.mono fun y hy => Multiset.mem_add.mpr (Or.inl hy)⟩
      rw [hstack, deleteRepair.eq_def]
      simp only [hlink, hblack, hc, Option.bind_eq_bind, Option.bind_some, reduceCtorEq, decide_false, Bool.not_false,
        if_true, hset]

/-- One round at a black sibling. -/
theorem deleteRepair_black {maxHeight fuel : Nat} (z : Zip t (⟨d, c, v, fork d .black u near far⟩ :: fs) x)
    (hx : x.color = .black) (hstack : stackOf fs = (up, e) :: rest) :
    deleteRepair maxHeight t (fuel + 1) (stackOf (⟨d, c, v, fork d .black u near far⟩ :: fs))
      = if near.color = .black ∧ far.color = .black then
          (t.setColor u.1 .red).bind fun t => deleteRepair maxHeight t fuel (stackOf fs)
        else deleteRotate t v.1 u.1 d up e := by
  have hlink := z.around.link (show stackOf _ = (some v.1, d) :: stackOf fs from rfl)
  have hblack := z.holds.isBlack
  have hw := z.around.other
  rw [rootAddr_fork] at hw
  have hcolor := RbTable.color_node (holds_fork.mp z.around.2.2.1).2.1
  obtain ⟨p, q, b₁, b₂, h₁, h₂, h₃, h₄, hand⟩ := blackChildren z.around.2.2.1
  have hchildren : (b₁ = true ∧ b₂ = true) ↔ (near.color = .black ∧ far.color = .black) := by
    rw [← Bool.and_eq_true, hand, decide_eq_true_iff]
  rw [← if_congr hchildren rfl rfl]
  rw [stackOf, hstack, deleteRepair]
  simp only [hlink, hblack, hx, hw, hcolor, h₁, h₂, h₃, h₄, Option.bind_eq_bind, Option.bind_some, decide_true,
    Bool.not_true, Bool.false_eq_true, if_false, reduceCtorEq, Bool.and_eq_true, List.head?_cons]

/-- One round at a red sibling, whose near child `y` is the sibling then. -/
theorem deleteRepair_red {maxHeight fuel : Nat} {y : Addr × ε} {a b : ColorTree (Addr × ε)}
    (z : Zip t (⟨d, c, v, fork d .red u (fork d .black y a b) far⟩ :: fs) x)
    (z' : Zip t' (⟨d, .red, v, fork d .black y a b⟩ :: ⟨d, .black, u, far⟩ :: fs) x)
    (hx : x.color = .black) (hstack : stackOf fs = (up, e) :: rest)
    (hrotate : deleteRedSibling t v.1 u.1 d up e = some (t', y.1)) (hroom : (stackOf fs).length + 1 < maxHeight) :
    deleteRepair maxHeight t (fuel + 1) (stackOf (⟨d, c, v, fork d .red u (fork d .black y a b) far⟩ :: fs))
      = if a.color = .black ∧ b.color = .black then
          (t'.setColor y.1 .red).bind fun t => deleteRepair maxHeight t fuel (stackOf (⟨d, .black, u, far⟩ :: fs))
        else deleteRotate t' v.1 y.1 d (some u.1) d := by
  have hlink := z.around.link (show stackOf _ = (some v.1, d) :: stackOf fs from rfl)
  have hblack := z.holds.isBlack
  have hw := z.around.other
  rw [rootAddr_fork] at hw
  have hcolor := RbTable.color_node (holds_fork.mp z.around.2.2.1).2.1
  obtain ⟨p, q, b₁, b₂, h₁, h₂, h₃, h₄, hand⟩ := blackChildren z'.around.2.2.1
  have hchildren : (b₁ = true ∧ b₂ = true) ↔ (a.color = .black ∧ b.color = .black) := by
    rw [← Bool.and_eq_true, hand, decide_eq_true_iff]
  rw [hstack, List.length_cons] at hroom
  rw [← if_congr hchildren rfl rfl]
  rw [stackOf, stackOf, hstack, deleteRepair]
  simp only [hlink, hblack, hx, hw, hcolor, h₁, h₂, h₃, h₄, hrotate, List.length_cons, hroom, Option.bind_eq_bind,
    Option.bind_some, decide_true, Bool.not_true, Bool.false_eq_true, if_false, if_true, Bool.and_eq_true,
    List.head?_cons]

/-- **The repair in memory is that of the tree**; it ends, and it never follows NULL. -/
theorem deleteRepair_spec {maxHeight fuel n : Nat} (z : Zip t fs x) (hx : Short x n) (hfits : Fits fs (n + 1))
    (hfuel : fs.length + 2 ≤ fuel) (hroom : fs.length + 1 < maxHeight) :
    ∃ t', deleteRepair maxHeight t fuel (stackOf fs) = some t' ∧ Zip t' [] (deleteUp fs x) ∧
      Edits (addrs x + aroundAddrs fs) t t' := by
  induction fs generalizing t x n fuel with
  | nil =>
      obtain ⟨fuel, rfl⟩ : ∃ m, fuel = m + 1 := ⟨fuel - 1, by omega⟩
      exact deleteRepair_end _ _ z (Or.inl rfl)
  | cons f fs ih =>
      obtain ⟨fuel, rfl⟩ : ∃ m, fuel = m + 1 := ⟨fuel - 1, by omega⟩
      rw [List.length_cons] at hfuel hroom
      rw [deleteUp]
      cases hc : x.color with
      | red => exact deleteRepair_end _ _ z (Or.inr hc)
      | black =>
          have hround := siblingUp_fits hfits (hx.2 hc)
          obtain ⟨d, c, v, w⟩ := f
          obtain ⟨up, e, rest, hstack⟩ := stackOf_cons fs
          have hother : Balanced w (n + 1) := by
            cases c with
            | red => exact ((fits_red rfl).mp hfits).2.1
            | black => exact ((fits_black rfl).mp hfits).1
          obtain ⟨c', u, near, far, rfl⟩ := hother.exists_fork d
          cases c' with
          | black =>
              rw [siblingUp_black] at hround
              rw [siblingUp_black, deleteRepair_black z hc hstack]
              by_cases hblack : near.color = .black ∧ far.color = .black
              · -- the place is one frame further up
                rw [blackSibling_up hblack] at hround ⊢
                obtain ⟨m, hshort, hfits'⟩ := hround.1 rfl
                obtain ⟨t₁, hset, z₁, hedits₁⟩ := deleteRecolor_spec z
                obtain ⟨t', hrepair, z', hedits⟩ := ih z₁ hshort hfits' (by omega : fs.length + 2 ≤ fuel) (by omega)
                rw [if_pos hblack, hset, if_pos rfl]
                refine ⟨t', hrepair, z', hedits₁.trans ?_⟩
                rw [← aroundAddrs_recolor]
                exact hedits
              · obtain ⟨t', hrotate, z', hedits⟩ := deleteRotate_spec z hstack hblack
                rw [if_neg hblack, blackSibling_last hblack, if_neg Bool.false_ne_true]
                exact ⟨t', hrotate, zip_plug.mp z', hedits⟩
          | red =>
              rw [balanced_red_iff] at hother
              obtain ⟨c', y, a, b, rfl⟩ := hother.2.2.1.exists_fork d
              obtain rfl : c' = .black := by simpa using hother.1
              obtain ⟨t₁, hred, z₁, hedits₁⟩ := deleteRedSibling_spec z hstack
              rw [rootAddr_fork] at hred
              rw [siblingUp_red, deleteRepair_red z z₁ hc hstack hred (by rw [length_stackOf]; omega), redSibling_fork]
              rw [if_neg Bool.false_ne_true]
              rw [← aroundAddrs_redSibling .red .black] at hedits₁ ⊢
              by_cases hblack : a.color = .black ∧ b.color = .black
              · -- the parent, red now, is painted black in the next round
                obtain ⟨fuel, rfl⟩ : ∃ m, fuel = m + 1 := ⟨fuel - 1, by omega⟩
                obtain ⟨t₂, hset, z₂, hedits₂⟩ := deleteRecolor_spec z₁
                obtain ⟨t', hrepair, z', hedits⟩ := deleteRepair_end maxHeight fuel z₂
                  (Or.inr color_fork)
                rw [aroundAddrs_recolor] at hedits
                rw [if_pos hblack, hset, blackSibling_up hblack, if_pos rfl]
                exact ⟨t', hrepair, z', hedits₁.trans (hedits₂.trans hedits)⟩
              · obtain ⟨t', hrotate, z', hedits⟩ := deleteRotate_spec z₁ rfl hblack
                rw [if_neg hblack, blackSibling_last hblack, if_neg Bool.false_ne_true]
                exact ⟨t', hrotate, zip_plug.mp (zip_cons.mp z'), hedits₁.trans hedits⟩

/-! ## §3. The way down. -/

section Calls

variable {cmp : ε → ε → Int} {maxHeight : Nat} {T l r : ColorTree (Addr × ε)} {item : ε}

/-- The node that a place is, NULL for the empty tree. -/
def rootPlace : ColorTree (Addr × ε) → Place
  | .nil => none
  | .node _ _ v _ => some v.1

/-- A link is followed, and the loop goes on below. -/
theorem deleteDown_enter (fs : List (Frame (Addr × ε))) {room : Nat} {stack : Stack} (hx : Holds t.nodes x) (hroom : x.height ≤ room) :
    ∃ stack',
      (if rootAddr x = 0 then some (none, stack)
        else (t.nodes (rootAddr x)).bind fun n =>
          deleteDown cmp t item room (some (rootAddr x)) (cmp item n.data) (stackOf fs))
        = some (rootPlace (descend (cutBy cmp item) fs x).2, stack') ∧
      ((descend (cutBy cmp item) fs x).2 ≠ .nil → stack' = stackOf (descend (cutBy cmp item) fs x).1) := by
  induction x generalizing fs room stack with
  | nil => exact ⟨stack, rfl, fun h => absurd rfl h⟩
  | node c l v r ihl ihr =>
      obtain ⟨hne, hnode, hl, hr⟩ := hx
      rw [height] at hroom
      rw [descend, cutBy, rootAddr_node, if_neg hne, hnode, Option.bind_some]
      dsimp only
      unfold deleteDown
      by_cases hzero : cmp item v.2 = 0
      · rw [if_pos hzero, if_pos hzero]
        exact ⟨_, rfl, fun _ => rfl⟩
      · rw [if_neg hzero, if_neg hzero]
        obtain ⟨room, rfl⟩ : ∃ m, room = m + 1 := ⟨room - 1, by omega⟩
        by_cases hpos : 0 < cmp item v.2
        · rw [if_pos hpos, decide_eq_true hpos]
          dsimp only
          rw [RbTable.link_node hnode]
          exact ihr (⟨true, c, v, l⟩ :: fs) hr (by omega)
        · rw [if_neg hpos, decide_eq_false hpos]
          dsimp only
          rw [RbTable.link_node hnode]
          exact ihl (⟨false, c, v, r⟩ :: fs) hl (by omega)

theorem deleteDown_eq (cmp : ε → ε → Int) (item : ε) (z : Zip t [] T) (hroom : T.height < maxHeight) :
    ∃ stack, deleteDown cmp t item maxHeight none (-1) [] = some (rootPlace (descend (cutBy cmp item) [] T).2, stack) ∧
      ((descend (cutBy cmp item) [] T).2 ≠ .nil → stack = stackOf (descend (cutBy cmp item) [] T).1) := by
  obtain ⟨room, rfl⟩ : ∃ m, maxHeight = m + 1 := ⟨maxHeight - 1, by omega⟩
  unfold deleteDown
  rw [if_neg (by decide : ¬(-1 : Int) = 0)]
  dsimp only
  rw [show t.link none (decide ((0 : Int) < -1)) = some (rootAddr T) from congrArg some z.root]
  exact deleteDown_enter [] z.holds (by omega)

/-! ## §4. Taking the node out. -/

theorem Holds.of_plug {nodes : Heap (RbNode ε)} (fs : List (Frame (Addr × ε))) (h : Holds nodes (plug fs x)) : Holds nodes x := by
  induction fs generalizing x with
  | nil => exact h
  | cons f fs ih =>
      have hfill := ih h
      rw [Frame.fill, holds_fork] at hfill
      exact hfill.2.2.1

/-- Another tree with the same root is in the hole. -/
theorem Holds.plug_congr {nodes nodes' : Heap (RbNode ε)} {a b : ColorTree (Addr × ε)} (h : Holds nodes (plug fs a))
    (hb : Holds nodes' b) (hroot : rootAddr b = rootAddr a) (same : ∀ x ∈ aroundAddrs fs, nodes' x = nodes x) :
    Holds nodes' (plug fs b) := by
  induction fs generalizing a b with
  | nil => exact hb
  | cons f fs ih =>
      have hfill := Holds.of_plug fs h
      rw [Frame.fill, holds_fork] at hfill
      rw [aroundAddrs] at same
      refine ih h ?_ (rootAddr_fill.trans rootAddr_fill.symm) fun x hx => same x (by simp [hx])
      rw [Frame.fill, holds_fork, hroot]
      refine ⟨hfill.1, (same _ (Multiset.mem_cons_self _ _)).trans hfill.2.1, hb, ?_⟩
      exact hfill.2.2.2.congr fun x hx => same x (by simp [hx])

/-- The node itself and what is left. -/
theorem addrs_takeOut :
    addrs (plug fs (.node c l v r)) = v.1 ::ₘ (addrs (takeOut fs c l r).2.2 + aroundAddrs (takeOut fs c l r).2.1) := by
  rw [← addrs_plug, addrs_eq, addrs_eq, toList_takeOut, toList_plug, toList_node, Multiset.cons_coe, Multiset.coe_eq_coe]
  simp only [List.map_append, List.map_cons, List.append_assoc, List.cons_append]
  exact (List.perm_middle.append_left _).trans List.perm_middle

/-- The way down the left links ends at the least node. -/
theorem successorDown_eq (room : Nat) (stack : Stack) {f : Frame (Addr × ε)} {sp : List (Frame (Addr × ε))} {cs : Color} {sr : ColorTree (Addr × ε)}
    (hr : Holds t.nodes r) (h : least r = some (f :: sp, cs, u, sr)) (hroom : sp.length < room) :
    successorDown t room (rootAddr r) stack
      = some (f.value.1, u.1, (f :: sp).map (fun g => (some g.value.1, g.dir)) ++ stack) := by
  induction r generalizing room sp stack with
  | nil => cases h
  | node c l v r ih _ =>
      obtain ⟨room, rfl⟩ : ∃ m, room = m + 1 := ⟨room - 1, by omega⟩
      obtain ⟨hne, hnode, hl, -⟩ := hr
      rw [least] at h
      have hleft := RbTable.link_node (d := false) hnode
      rw [rootAddr_node, successorDown, hleft]
      cases l with
      | nil =>
          simp [least] at h
      | node cl ll w lr =>
          have hlink := RbTable.link_node (d := false) hl.2.1
          have hzero := hl.2.2.1.rootAddr_eq_zero
          have hcalled : t.link (some w.1) false = some (rootAddr ll) := hlink
          cases hleast : least (.node cl ll w lr) with
          | none => cases least_eq_none_iff.mp hleast
          | some found =>
              obtain ⟨sp', cs', u', sr'⟩ := found
              rw [hleast] at h
              simp only [Option.some.injEq, Prod.mk.injEq] at h
              obtain ⟨hsp, rfl, rfl, rfl⟩ := h
              cases sp' with
              | nil =>
                  cases hsp
                  rw [least] at hleast
                  cases hll : least ll with
                  | none =>
                      rw [hll] at hleast
                      cases hleast
                      simp [hcalled, least_eq_none_iff.mp hll]
                  | some found =>
                      rw [hll] at hleast
                      simp at hleast
              | cons g sp' =>
                  cases hsp
                  have hll : rootAddr ll ≠ 0 := by
                    intro h0
                    rw [hzero.mp h0] at hleast
                    cases hleast
                  have hrest := ih room ((some v.1, false) :: stack) hl hleast (by simp at hroom; omega)
                  rw [rootAddr_node] at hrest
                  simp [hcalled, hll, hrest]

/-- No right child: the left one comes up. -/
theorem unlinkNode_last (z : Zip t fs (.node c l v .nil)) :
    ∃ t', unlinkNode maxHeight t v.1 (stackOf fs) = some (t', stackOf fs) ∧ Zip t' fs l ∧ t'.color v.1 = some c ∧
      Edits (addrs (.node c l v .nil) + aroundAddrs fs) t t' := by
  obtain ⟨up, e, rest, hstack⟩ := stackOf_cons fs
  obtain ⟨⟨hne, hnode, hl, -⟩, hfs, hnd⟩ := z
  rw [addrs, addrs_nil, Multiset.add_zero, Multiset.cons_add, Multiset.nodup_cons, Multiset.mem_add, not_or] at hnd
  obtain ⟨⟨-, hvfs⟩, hnodup⟩ := hnd
  obtain ⟨t', hset, z', hedits⟩ := hfs.place (t := t) (S := aroundAddrs fs) hstack hl rfl hnodup Edits.refl fun _ hx => hx
  refine ⟨t', ?_, z', ?_, hedits.mono fun x hx => Multiset.mem_add.mpr (Or.inr hx)⟩
  · simp [unlinkNode, hstack, RbTable.link_some, hnode, hset]
  · rw [RbTable.color, hedits.outside _ hvfs, hnode]
    rfl

/-- The right child has no left one: it comes up. -/
theorem unlinkNode_next {cr : Color} (z : Zip t fs (.node c l v (.node cr .nil u r)))
    (hroom : (stackOf fs).length < maxHeight) :
    ∃ t', unlinkNode maxHeight t v.1 (stackOf fs) = some (t', stackOf (⟨true, c, u, l⟩ :: fs)) ∧
      Zip t' (⟨true, c, u, l⟩ :: fs) r ∧ t'.color v.1 = some cr ∧
      Edits (addrs (.node c l v (.node cr .nil u r)) + aroundAddrs fs) t t' := by
  obtain ⟨up, e, rest, hstack⟩ := stackOf_cons fs
  obtain ⟨⟨hv0, hv, hl, hu0, hu, -, hr⟩, hfs, hnd⟩ := z
  rw [rootAddr_node] at hv hfs
  rw [rootAddr_nil] at hu
  simp only [addrs, Multiset.zero_add, Multiset.cons_add, Multiset.add_cons, Multiset.nodup_cons, Multiset.mem_cons,
    Multiset.mem_add, not_or] at hnd
  obtain ⟨⟨hvu, ⟨hvl, hvr⟩, hvfs⟩, ⟨⟨hul, hur⟩, hufs⟩, hnd⟩ := hnd
  have huv := Ne.symm hvu
  have hnodup : (addrs (.node c l u r) + aroundAddrs fs).Nodup := by
    rw [addrs, Multiset.cons_add, Multiset.nodup_cons, Multiset.mem_add, Multiset.mem_add, not_or, not_or]
    exact ⟨⟨⟨hul, hur⟩, hufs⟩, hnd⟩
  have hedits : Edits (addrs (.node c l v (.node cr .nil u r)) + aroundAddrs fs) t
      ((t.put u.1 ⟨links false (rootAddr l) (rootAddr r), u.2, c⟩).put v.1 ⟨links false (rootAddr l) u.1, v.2, cr⟩) := by
    simp [edits_put, Edits.refl, addrs]
  obtain ⟨t', hset, z', hedits'⟩ := HoldsAround.place (p := v.1) (s := .node c l u r) (S := aroundAddrs fs)
    (t := (t.put u.1 ⟨links false (rootAddr l) (rootAddr r), u.2, c⟩).put v.1 ⟨links false (rootAddr l) u.1, v.2, cr⟩)
    (by simp [holdsAround_put, *]) hstack (by simp [Holds, holds_put, RbTable.nodes_put_of_ne, *]) rfl hnodup
    Edits.refl fun _ hx => hx
  refine ⟨t', ?_, zip_cons.mpr z', ?_, hedits.trans (hedits'.mono fun x hx => Multiset.mem_add.mpr (Or.inr hx))⟩
  · rw [hstack, List.length_cons] at hroom
    rw [rootAddr_node] at hset
    simp only [unlinkNode, stackOf, hstack, List.head?_cons, List.length_cons, hroom, swapColors, RbTable.color,
      RbTable.setColor_eq, RbTable.link_some, RbTable.setLink_some, RbTable.nodes_put_of_ne, RbTable.nodes_put_self,
      RbTable.put_put, links_near, links_right, update_links_near, Option.bind_eq_bind, Option.bind_some, Option.map_some,
      ne_eq, not_false_eq_true, if_true, if_false, hv, hu, hvu, hu0, hset]
    rfl
  · rw [RbTable.color, hedits'.outside _ hvfs, RbTable.nodes_put_self]
    rfl

theorem left_of_least {f : Frame (Addr × ε)} {sp : List (Frame (Addr × ε))} {cs : Color} {sr : ColorTree (Addr × ε)}
    (hr : Holds t.nodes r) (h : least r = some (f :: sp, cs, u, sr)) :
    rootAddr r ≠ 0 ∧ ∃ n, t.nodes (rootAddr r) = some n ∧ n.link false ≠ 0 := by
  cases r with
  | nil => cases h
  | node c l v r =>
      refine ⟨hr.1, _, hr.2.1, ?_⟩
      intro h0
      rw [hr.2.2.1.rootAddr_eq_zero.mp h0] at h
      cases h

/-- The least node of the right subtree takes the place. -/
theorem unlinkNode_least {f : Frame (Addr × ε)} {sp : List (Frame (Addr × ε))} {cs : Color} {sr : ColorTree (Addr × ε)}
    (z : Zip t fs (.node c l v r)) (hleast : least r = some (f :: sp, cs, u, sr))
    (hroom : (stackOf fs).length + 1 + sp.length < maxHeight) :
    ∃ t', unlinkNode maxHeight t v.1 (stackOf fs) = some (t', stackOf (f :: sp ++ ⟨true, c, u, l⟩ :: fs)) ∧
      Zip t' (f :: sp ++ ⟨true, c, u, l⟩ :: fs) sr ∧ t'.color v.1 = some cs ∧
      Edits (addrs (.node c l v r) + aroundAddrs fs) t t' := by
  obtain ⟨up, e, rest, hstack⟩ := stackOf_cons fs
  obtain ⟨hplug, hdir⟩ := least_spec hleast
  have hfdir : f.dir = false := hdir f (List.mem_cons_self ..)
  have hnodup := z.nodup
  obtain ⟨⟨hv0, hv, hl, hr⟩, hfs, hnd⟩ := z
  rw [rootAddr_node] at hfs
  have hway := successorDown_eq (maxHeight - ((stackOf fs).length + 1)) [] hr hleast (by omega)
  have hright : addrs r = u.1 ::ₘ (addrs sr + f.value.1 ::ₘ (addrs f.other + aroundAddrs sp)) := by
    rw [hplug, addrs_plug, addrs, addrs_nil, Multiset.zero_add, aroundAddrs, Multiset.cons_add]
  have hinner : Holds t.nodes (f.fill (.node cs .nil u sr)) := by
    rw [hplug] at hr
    exact Holds.of_plug sp hr
  rw [Frame.fill, holds_fork, hfdir] at hinner
  obtain ⟨hf0, hf, ⟨hu0, hu, -, hsr⟩, hother⟩ := hinner
  rw [rootAddr_node] at hf
  rw [rootAddr_nil] at hu
  simp only [addrs, hright, Multiset.cons_add, Multiset.add_cons, Multiset.nodup_cons, Multiset.mem_cons,
    Multiset.mem_add, not_or] at hnd
  obtain ⟨⟨hvu, hvf, ⟨hvl, hvsr, hvother, hvsp⟩, hvfs⟩, ⟨huf, ⟨hul, husr, huother, husp⟩, hufs⟩,
    ⟨⟨hfl, hfsr, hfother, hfsp⟩, hffs⟩, -⟩ := hnd
  have huv := Ne.symm hvu
  have hfv := Ne.symm hvf
  have hfu := Ne.symm huf
  have haround : (aroundAddrs fs).Nodup := (Multiset.nodup_add.mp hnodup).2.1
  obtain ⟨t₁, hset, hfs₁, hedits⟩ := hfs.setLink haround hstack u.1
  -- none of the nodes that are written next are around the hole
  have hdisjoint := (Multiset.nodup_add.mp hnodup).2.2
  have hin : ∀ x ∈ addrs (.node c l v r), t₁.nodes x = t.nodes x := fun x hx =>
    hedits.outside x (Multiset.disjoint_left.mp hdisjoint hx)
  have hmem : ∀ x ∈ addrs r, t₁.nodes x = t.nodes x := fun x hx => hin x (by simp [addrs, hx])
  have hv₁ := (hin v.1 (Multiset.mem_cons_self ..)).trans hv
  have hu₁ := (hmem u.1 (by simp [hright])).trans hu
  have hf₁ := (hmem f.value.1 (by simp [hright])).trans hf
  have hl₁ : Holds t₁.nodes l := hl.congr fun x hx => hin x (by simp [addrs, hx])
  have hsr₁ : Holds t₁.nodes sr := hsr.congr fun x hx => hmem x (by simp [hright, hx])
  have hother₁ : Holds t₁.nodes f.other := hother.congr fun x hx => hmem x (by simp [hright, hx])
  obtain ⟨hr0, n, hrn, hleft⟩ := left_of_least hr hleast
  have hinner₁ : Holds ((((t₁.put u.1 ⟨links false (rootAddr l) (rootAddr sr), u.2, cs⟩).put f.value.1
      ⟨links false (rootAddr sr) (rootAddr f.other), f.value.2, f.color⟩).put u.1
      ⟨links false (rootAddr l) (rootAddr r), u.2, c⟩).put v.1 ⟨links false (rootAddr l) (rootAddr r), v.2, cs⟩).nodes
      (f.fill sr) := by
    rw [Frame.fill, holds_fork, hfdir]
    simp [holds_put, RbTable.nodes_put_of_ne, *]
  refine ⟨(((t₁.put u.1 ⟨links false (rootAddr l) (rootAddr sr), u.2, cs⟩).put f.value.1
    ⟨links false (rootAddr sr) (rootAddr f.other), f.value.2, f.color⟩).put u.1
    ⟨links false (rootAddr l) (rootAddr r), u.2, c⟩).put v.1 ⟨links false (rootAddr l) (rootAddr r), v.2, cs⟩,
    ?_, ?_, ?_, ?_⟩
  · have hmap : (f :: sp).map (fun g => (some g.value.1, g.dir)) ++ (some u.1, true) :: stackOf fs
        = stackOf (f :: sp ++ ⟨true, c, u, l⟩ :: fs) :=
      (stackOf_append (f :: sp) (⟨true, c, u, l⟩ :: fs)).symm
    rw [← hmap]
    rw [List.append_nil, hstack, List.length_cons] at hway
    rw [hstack]
    simp only [unlinkNode, List.head?_cons, List.length_cons, hway, swapColors, RbTable.color, RbTable.setColor_eq,
      RbTable.link_some, RbTable.setLink_some, RbTable.nodes_put_of_ne, RbTable.nodes_put_self, RbTable.put_put, links_near,
      links_right, update_links_near, update_links_right, Option.bind_eq_bind, Option.bind_some, Option.map_some, ne_eq,
      not_false_eq_true, if_false, hv, hv₁, hu₁, hf₁, hvu, hvf, huf, hfu, hr0, hrn, hleft, hset]
    rfl
  · refine zip_append.mpr (zip_cons.mpr ⟨⟨hu0, ?_, ?_, ?_⟩, ?_, ?_⟩)
    · rw [RbTable.nodes_put_of_ne huv, RbTable.nodes_put_self, hplug, plug, plug]
      rw [rootAddr_plug_congr (rootAddr_fill.trans rootAddr_fill.symm)]
    · simp [holds_put, *]
    · rw [plug]
      rw [hplug, plug] at hr
      refine hr.plug_congr hinner₁ (rootAddr_fill.trans rootAddr_fill.symm) ?_
      intro x hx
      rw [RbTable.nodes_put_of_ne (ne_of_mem_of_not_mem hx hvsp), RbTable.nodes_put_of_ne (ne_of_mem_of_not_mem hx husp),
        RbTable.nodes_put_of_ne (ne_of_mem_of_not_mem hx hfsp), RbTable.nodes_put_of_ne (ne_of_mem_of_not_mem hx husp)]
      exact hmem x (by simp [hright, hx])
    · show HoldsAround _ fs u.1
      simp [holdsAround_put, *]
    · refine (Multiset.nodup_cons.mp (?_ : (v.1 ::ₘ _).Nodup)).2
      rw [show Frame.fill ⟨true, c, u, l⟩ (plug (f :: sp) sr) = .node c l u (plug (f :: sp) sr) from rfl]
      convert hnodup using 1
      simp only [addrs, hright, addrs_plug, aroundAddrs, Multiset.cons_add, Multiset.add_cons]
  · rw [RbTable.color, RbTable.nodes_put_self]
    rfl
  · have hedits' : Edits (addrs (.node c l v r) + aroundAddrs fs) t t₁ :=
      hedits.mono fun x hx => Multiset.mem_add.mpr (Or.inr hx)
    refine (edits_put ?_).mpr ((edits_put ?_).mpr ((edits_put ?_).mpr ((edits_put ?_).mpr hedits'))) <;>
      simp [addrs, hright]

/-- **The node leaves the tree**, and keeps the colour that is missing. -/
theorem unlinkNode_spec (z : Zip t fs (.node c l v r)) (hroom : (plug fs (.node c l v r)).height < maxHeight) :
    ∃ t', unlinkNode maxHeight t v.1 (stackOf fs) = some (t', stackOf (takeOut fs c l r).2.1) ∧
      Zip t' (takeOut fs c l r).2.1 (takeOut fs c l r).2.2 ∧ t'.color v.1 = some (takeOut fs c l r).1 ∧
      Edits (addrs (.node c l v r) + aroundAddrs fs) t t' := by
  have hlength : (takeOut fs c l r).2.1.length < (plug fs (.node c l v r)).height := length_takeOut_lt
  have hstack : (stackOf fs).length = fs.length + 1 := length_stackOf
  unfold takeOut at hlength ⊢
  cases hleast : least r with
  | none =>
      obtain rfl := least_eq_none_iff.mp hleast
      exact unlinkNode_last z
  | some found =>
      obtain ⟨sp, cs, u, sr⟩ := found
      rw [hleast] at hlength
      dsimp only at hlength
      rw [List.length_append, List.length_cons] at hlength
      cases sp with
      | nil =>
          obtain ⟨rfl, -⟩ := least_spec hleast
          rw [List.length_nil] at hlength
          exact unlinkNode_next z (by omega)
      | cons f sp =>
          rw [List.length_cons] at hlength
          exact unlinkNode_least z hleast (by omega)

/-! ## §5. The call. -/

theorem Zip.free {p : Addr} (z : Zip t [] T) (hp : p ∉ addrs T) : Zip (t.free p).discounted [] T :=
  ⟨z.holds.congr fun _ hx => Function.update_of_ne (ne_of_mem_of_not_mem hx hp) _ _, z.around, z.nodup⟩

/-- **`rb_delete`** takes the equal item out, frees its node, and the table stays a
red-black tree; where no item is equal it changes nothing. -/
theorem rbDelete_spec (hcmp : Compares cmp) (h : RbOk cmp t T) (hroom : T.height < maxHeight) (item : ε) :
    ((∀ e ∈ T.toList, cmp item e.2 ≠ 0) ∧ rbDelete cmp maxHeight t item = some (t, none)) ∨
      ∃ t' T' L p y R, rbDelete cmp maxHeight t item = some (t', some y) ∧ RbOk cmp t' T' ∧
        T.toList = L ++ (p, y) :: R ∧ cmp item y = 0 ∧ T'.toList = L ++ R ∧ t'.nodes p = none ∧
        t'.generation = t.generation + 1 := by
  obtain ⟨stack, hdown, hstack⟩ := deleteDown_eq cmp item h.zip hroom
  rcases h.search hcmp item with ⟨fs, c, l, v, r, hsearch, hplug, hzero⟩ | ⟨fs, hsearch, hplug, hL, hR⟩
  · right
    rw [hsearch] at hdown hstack
    rw [hstack nofun] at hdown
    subst hplug
    have hz : Zip t fs (.node c l v r) := zip_plug.mpr h.zip
    obtain ⟨t₁, hunlink, z₁, hcolor, hedits₁⟩ := unlinkNode_spec hz hroom
    obtain ⟨d, w, n, hfits, hbal⟩ := takeOut_fits h.redBlack
    have hlength : (takeOut fs c l r).2.1.length < (plug fs (.node c l v r)).height := length_takeOut_lt
    have haddrs : addrs (plug fs (.node c l v r))
        = v.1 ::ₘ (addrs (takeOut fs c l r).2.2 + aroundAddrs (takeOut fs c l r).2.1) := addrs_takeOut
    -- the missing colour: the repair of the memory is that of the tree
    have hrepair : ∃ t₂, (if (takeOut fs c l r).1 = .black then
          deleteRepair maxHeight t₁ (2 * (stackOf (takeOut fs c l r).2.1).length + 1) (stackOf (takeOut fs c l r).2.1)
        else some t₁) = some t₂ ∧ Zip t₂ [] (removeAt fs c l r) ∧
        Edits (addrs (takeOut fs c l r).2.2 + aroundAddrs (takeOut fs c l r).2.1) t₁ t₂ := by
      unfold removeAt closeUp
      cases hc : (takeOut fs c l r).1 with
      | red => exact ⟨t₁, rfl, zip_plug.mp z₁, Edits.refl⟩
      | black =>
          rw [hc] at hbal
          obtain ⟨m, rfl⟩ := hbal.black_height
          rw [if_pos rfl]
          refine deleteRepair_spec z₁ (balanced_black_iff.mp hbal).1.short hfits ?_ ?_
          · rw [length_stackOf]
            omega
          · omega
    obtain ⟨t₂, hrepair, z₂, hedits₂⟩ := hrepair
    have hrest : addrs (removeAt fs c l r)
        = addrs (takeOut fs c l r).2.2 + aroundAddrs (takeOut fs c l r).2.1 :=
      (addrs_congr toList_closeUp).trans addrs_plug
    rw [← hrest] at haddrs hedits₂
    have hnodup := h.zip.nodup
    rw [aroundAddrs, Multiset.add_zero, haddrs, Multiset.nodup_cons] at hnodup
    have hT' : (removeAt fs c l r).toList = (before fs ++ l.toList) ++ (r.toList ++ after fs) := by
      rw [toList_removeAt]
      simp
    have hT : (plug fs (.node c l v r)).toList = (before fs ++ l.toList) ++ v :: (r.toList ++ after fs) := by
      rw [toList_plug, toList_node]
      simp
    refine ⟨(t₂.free v.1).discounted, removeAt fs c l r, before fs ++ l.toList, v.1, v.2, r.toList ++ after fs, ?_,
      ⟨z₂.free hnodup.1, (z₂.free hnodup.1).live ?_, ?_, removeAt_redBlack h.redBlack, ?_⟩, hT, hzero, hT',
      Function.update_self _ _ _, ?_⟩
    · unfold rbDelete
      rw [hdown]
      simp only [rootPlace, hz.holds.2.1, hunlink, hcolor, Option.bind_eq_bind, Option.bind_some]
      by_cases hc : (takeOut fs c l r).1 = .black
      · rw [if_pos hc] at hrepair ⊢
        rw [hrepair]
        rfl
      · rw [if_neg hc] at hrepair ⊢
        cases hrepair
        rfl
    · intro x hx
      by_cases hxv : x = v.1
      · rw [hxv]
        exact Function.update_self _ _ _
      · refine (Function.update_of_ne hxv _ _).trans ?_
        rw [hedits₂.outside x hx]
        have hout : x ∉ addrs (plug fs (.node c l v r)) := by
          rw [haddrs, Multiset.mem_cons, not_or]
          exact ⟨hxv, hx⟩
        rw [hedits₁.outside x (by rwa [← addrs_plug])]
        exact Option.not_isSome_iff_eq_none.mp (fun hsome => hout ((h.live x).mp hsome))
    · show t₂.count - 1 = _
      rw [hedits₂.count, hedits₁.count, h.count, hT, hT']
      simp only [List.length_append, List.length_cons]
      omega
    · rw [hT']
      have hsorted := h.sorted
      rw [hT] at hsorted
      exact hsorted.sublist ((List.sublist_cons_self _ _).append_left _)
    · show t₂.generation + 1 = _
      rw [hedits₂.generation, hedits₁.generation]
  · left
    rw [hsearch] at hdown
    subst hplug
    refine ⟨?_, ?_⟩
    · rw [toList_plug]
      exact search_none hcmp hL hR
    · unfold rbDelete
      rw [hdown]
      rfl

end Calls

end LzLib.Rb
