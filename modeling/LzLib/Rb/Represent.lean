/-
  LzLib.Rb.Represent
  ──────────────────
  **TREES IN MEMORY.**

  `Holds nodes s`: the nodes of the tree `s`, each a pair of address and item, are
  in memory as they should be.  `Zip t fs s`: the table `t` is the tree that has
  `s` in the hole of `fs`, and no address occurs twice; this is what an algorithm
  knows that stands at a place with a stack of what is above.

  The writes of `rb.c` are one node at a time.  Each comes with the node as it is
  then (`RbTable.setLink_node` and so on), and everything that does not contain
  the node stays (`Holds.congr`, `HoldsAround.congr`).
-/
import LzLib.Rb.RbDef
import LzLib.Foundation.SearchTrees
import Mathlib.Data.Multiset.UnionInter

namespace LzLib.Rb

open LzLib.Foundation LzLib.Foundation.ColorTree

variable {ε : Type}

/-! ## §1. The two links of a node. -/

/-- `near` on the side `d`, `far` on the other. -/
def links (d : Bool) (near far : Addr) : Bool → Addr := fun e => if e = d then near else far

variable {d : Bool} {p q near far : Addr}

@[simp] theorem links_near : links d near far d = near := if_pos rfl

@[simp] theorem links_far : links d near far (!d) = far := by cases d <;> rfl

@[simp] theorem links_not : links (!d) near far = links d far near := by
  funext e
  cases d <;> cases e <;> rfl

theorem links_null : links d 0 0 = fun _ => 0 := by
  funext e
  exact ite_self _

@[simp] theorem update_links_near : Function.update (links d near far) d q = links d q far := by
  funext e
  cases d <;> cases e <;> rfl

@[simp] theorem update_links_far : Function.update (links d near far) (!d) q = links d near q := by
  funext e
  cases d <;> cases e <;> rfl

@[simp] theorem links_right : links false near far true = far := rfl

@[simp] theorem update_links_right : Function.update (links false near far) true q = links false near q :=
  update_links_far (d := false)

/-! ## §2. Trees of addresses and items. -/

/-- The address of the root. -/
def rootAddr : ColorTree (Addr × ε) → Addr
  | .nil => 0
  | .node _ _ v _ => v.1

/-- The addresses of the nodes. -/
def addrs : ColorTree (Addr × ε) → Multiset Addr
  | .nil => 0
  | .node _ l v r => v.1 ::ₘ (addrs l + addrs r)

/-- The addresses of the nodes around a hole. -/
def aroundAddrs : List (Frame (Addr × ε)) → Multiset Addr
  | [] => 0
  | f :: fs => f.value.1 ::ₘ (addrs f.other + aroundAddrs fs)

/-- The tree is in memory. -/
def Holds (nodes : Heap (RbNode ε)) : ColorTree (Addr × ε) → Prop
  | .nil => True
  | .node c l v r =>
      v.1 ≠ 0 ∧ nodes v.1 = some ⟨links false (rootAddr l) (rootAddr r), v.2, c⟩ ∧ Holds nodes l ∧ Holds nodes r

/-- What is around the hole is in memory, and the hole is the place of the pointer `p`. -/
def HoldsAround (t : RbTable ε) : List (Frame (Addr × ε)) → Addr → Prop
  | [], p => t.root = p
  | f :: fs, p =>
      f.value.1 ≠ 0 ∧ t.nodes f.value.1 = some ⟨links f.dir p (rootAddr f.other), f.value.2, f.color⟩ ∧
        Holds t.nodes f.other ∧ HoldsAround t fs f.value.1

variable {t t' : RbTable ε} {nodes nodes' : Heap (RbNode ε)} {s a b : ColorTree (Addr × ε)} {c : Color} {v : Addr × ε}
  {f : Frame (Addr × ε)} {fs : List (Frame (Addr × ε))} {n : RbNode ε}

@[simp] theorem rootAddr_nil : rootAddr (.nil : ColorTree (Addr × ε)) = 0 := rfl

@[simp] theorem rootAddr_node {l r : ColorTree (Addr × ε)} : rootAddr (.node c l v r) = v.1 := rfl

@[simp] theorem rootAddr_fork : rootAddr (fork d c v a b) = v.1 := by cases d <;> rfl

@[simp] theorem rootAddr_fill : rootAddr (f.fill s) = f.value.1 := rootAddr_fork

@[simp] theorem rootAddr_blacken : rootAddr s.blacken = rootAddr s := by cases s <;> rfl

@[simp] theorem addrs_nil : addrs (.nil : ColorTree (Addr × ε)) = 0 := rfl

@[simp] theorem addrs_fork : addrs (fork d c v a b) = v.1 ::ₘ (addrs a + addrs b) := by
  cases d with
  | false => rfl
  | true => exact congrArg _ (Multiset.add_comm _ _)

@[simp] theorem addrs_blacken : addrs s.blacken = addrs s := by cases s <;> rfl

theorem addrs_eq : addrs s = (s.toList.map Prod.fst : List Addr) := by
  induction s with
  | nil => rfl
  | node c l v r ihl ihr =>
      rw [addrs, ihl, ihr, toList_node, List.map_append, List.map_cons, ← Multiset.coe_add, ← Multiset.cons_coe,
        Multiset.add_cons]

theorem addrs_congr (h : a.toList = b.toList) : addrs a = addrs b := by rw [addrs_eq, addrs_eq, h]

theorem addrs_plug : addrs (plug fs s) = addrs s + aroundAddrs fs := by
  induction fs generalizing s with
  | nil => exact (Multiset.add_zero _).symm
  | cons f fs ih =>
      rw [plug, ih, Frame.fill, addrs_fork, aroundAddrs, Multiset.add_cons, Multiset.cons_add, Multiset.add_assoc]

/-- A tree with the nodes of the innermost frames `gs` and of what is in their hole. -/
theorem addrs_of_plug (gs : List (Frame (Addr × ε))) (h : a.toList = (plug gs s).toList) :
    addrs a + aroundAddrs fs = addrs s + aroundAddrs (gs ++ fs) := by
  rw [← addrs_plug, ← addrs_plug, plug_append, addrs_plug, addrs_plug, addrs_congr h]

theorem rootAddr_plug_congr (h : rootAddr a = rootAddr b) : rootAddr (plug fs a) = rootAddr (plug fs b) := by
  induction fs generalizing a b with
  | nil => exact h
  | cons f fs ih => exact ih (rootAddr_fill.trans rootAddr_fill.symm)

theorem rootAddr_mem (h : rootAddr s ≠ 0) : rootAddr s ∈ addrs s := by
  cases s with
  | nil => exact absurd rfl h
  | node c l v r => exact Multiset.mem_cons_self _ _

@[simp] theorem holds_nil : Holds nodes .nil := trivial

@[simp] theorem holds_fork :
    Holds nodes (fork d c v a b) ↔
      v.1 ≠ 0 ∧ nodes v.1 = some ⟨links d (rootAddr a) (rootAddr b), v.2, c⟩ ∧ Holds nodes a ∧ Holds nodes b := by
  cases d with
  | false => rfl
  | true =>
      show _ ∧ nodes v.1 = some ⟨links (!true) (rootAddr b) (rootAddr a), v.2, c⟩ ∧ _ ∧ _ ↔ _
      rw [links_not, and_comm (a := Holds nodes b)]

/-- A tree in memory depends on its own nodes only. -/
theorem Holds.congr (h : Holds nodes s) (same : ∀ x ∈ addrs s, nodes' x = nodes x) : Holds nodes' s := by
  induction s with
  | nil => trivial
  | node c l v r ihl ihr =>
      obtain ⟨hne, hnode, hl, hr⟩ := h
      refine ⟨hne, (same _ (Multiset.mem_cons_self _ _)).trans hnode, ihl hl ?_, ihr hr ?_⟩
      · intro x hx
        exact same x (Multiset.mem_cons_of_mem (Multiset.mem_add.mpr (Or.inl hx)))
      · intro x hx
        exact same x (Multiset.mem_cons_of_mem (Multiset.mem_add.mpr (Or.inr hx)))

theorem HoldsAround.congr (h : HoldsAround t fs p) (hroot : t'.root = t.root)
    (same : ∀ x ∈ aroundAddrs fs, t'.nodes x = t.nodes x) : HoldsAround t' fs p := by
  induction fs generalizing p with
  | nil => exact hroot.trans h
  | cons f fs ih =>
      obtain ⟨hne, hnode, hother, hfs⟩ := h
      refine ⟨hne, (same _ (Multiset.mem_cons_self _ _)).trans hnode, hother.congr ?_, ih hfs ?_⟩
      · intro x hx
        exact same x (Multiset.mem_cons_of_mem (Multiset.mem_add.mpr (Or.inl hx)))
      · intro x hx
        exact same x (Multiset.mem_cons_of_mem (Multiset.mem_add.mpr (Or.inr hx)))

theorem Holds.ne_zero (h : Holds nodes s) {x : Addr} (hx : x ∈ addrs s) : x ≠ 0 := by
  induction s with
  | nil => cases (Multiset.notMem_zero x hx)
  | node c l v r ihl ihr =>
      rcases Multiset.mem_cons.mp hx with rfl | hx
      · exact h.1
      · rcases Multiset.mem_add.mp hx with hx | hx
        · exact ihl h.2.2.1 hx
        · exact ihr h.2.2.2 hx

theorem Holds.isSome (h : Holds nodes s) {x : Addr} (hx : x ∈ addrs s) : (nodes x).isSome := by
  induction s with
  | nil => cases (Multiset.notMem_zero x hx)
  | node c l v r ihl ihr =>
      rcases Multiset.mem_cons.mp hx with rfl | hx
      · rw [h.2.1]
        rfl
      · rcases Multiset.mem_add.mp hx with hx | hx
        · exact ihl h.2.2.1 hx
        · exact ihr h.2.2.2 hx

/-- NULL is where the tree is empty. -/
theorem Holds.rootAddr_eq_zero (h : Holds nodes s) : rootAddr s = 0 ↔ s = .nil := by
  cases s with
  | nil => exact ⟨fun _ => rfl, fun _ => rfl⟩
  | node c l v r => exact ⟨fun h0 => absurd h0 h.1, nofun⟩

/-! ## §3. Reads and writes. -/

@[simp] theorem RbTable.nodes_put_self : (t.put p n).nodes p = some n := Function.update_self _ _ _

theorem RbTable.nodes_put_of_ne (h : q ≠ p) : (t.put p n).nodes q = t.nodes q := Function.update_of_ne h _ _

@[simp] theorem RbTable.put_put {m : RbNode ε} : (t.put p n).put p m = t.put p m := by
  simp only [RbTable.put, Function.update_idem]

@[simp] theorem RbTable.root_put : (t.put p n).root = t.root := rfl

theorem RbTable.color_node (h : t.nodes p = some n) : t.color p = some n.color := by
  rw [RbTable.color, h]
  rfl

theorem RbTable.link_node (h : t.nodes p = some n) : t.link (some p) d = some (n.link d) := by
  rw [RbTable.link, h]
  rfl

theorem RbTable.setColor_node (h : t.nodes p = some n) :
    t.setColor p c = some (t.put p { n with color := c }) := by
  rw [RbTable.setColor, h]
  rfl

theorem RbTable.setLink_node (h : t.nodes p = some n) :
    t.setLink (some p) d q = some (t.put p { n with link := Function.update n.link d q }) := by
  rw [RbTable.setLink, h]
  rfl

theorem RbTable.link_some : t.link (some p) d = (t.nodes p).map fun n => n.link d := rfl

theorem RbTable.setLink_some :
    t.setLink (some p) d q = (t.nodes p).bind fun n => some (t.put p { n with link := Function.update n.link d q }) := rfl

theorem RbTable.setColor_eq : t.setColor p c = (t.nodes p).bind fun n => some (t.put p { n with color := c }) := rfl

/-- A write outside leaves a tree. -/
theorem holds_put (hp : p ∉ addrs s) : Holds (t.put p n).nodes s ↔ Holds t.nodes s := by
  have hne : ∀ x ∈ addrs s, x ≠ p := fun x hx => ne_of_mem_of_not_mem hx hp
  constructor
  · intro h
    exact h.congr fun x hx => (RbTable.nodes_put_of_ne (hne x hx)).symm
  · intro h
    exact h.congr fun x hx => RbTable.nodes_put_of_ne (hne x hx)

theorem holdsAround_put (hp : p ∉ aroundAddrs fs) : HoldsAround (t.put p n) fs q ↔ HoldsAround t fs q := by
  have hne : ∀ x ∈ aroundAddrs fs, x ≠ p := fun x hx => ne_of_mem_of_not_mem hx hp
  constructor
  · intro h
    exact h.congr rfl fun x hx => (RbTable.nodes_put_of_ne (hne x hx)).symm
  · intro h
    exact h.congr rfl fun x hx => RbTable.nodes_put_of_ne (hne x hx)

/-- `a == NULL || a->rb_color == RB_BLACK`, of a tree. -/
theorem Holds.isBlack (h : Holds t.nodes s) : t.isBlack (rootAddr s) = some (decide (s.color = .black)) := by
  cases s with
  | nil => rfl
  | node c l v r =>
      have hne : rootAddr (.node c l v r : ColorTree (Addr × ε)) ≠ 0 := h.1
      rw [RbTable.isBlack, if_neg hne]
      show (t.color v.1).map _ = _
      rw [RbTable.color_node h.2.1]
      rfl

/-! ## §4. The stack. -/

/-- `pa` and `da` for the frames. -/
def stackOf : List (Frame (Addr × ε)) → Stack
  | [] => [(none, false)]
  | f :: fs => (some f.value.1, f.dir) :: stackOf fs

theorem length_stackOf : (stackOf fs).length = fs.length + 1 := by
  induction fs with
  | nil => rfl
  | cons f fs ih => rw [stackOf, List.length_cons, ih, List.length_cons]

theorem stackOf_append (gs fs : List (Frame (Addr × ε))) :
    stackOf (gs ++ fs) = gs.map (fun f => (some f.value.1, f.dir)) ++ stackOf fs := by
  induction gs with
  | nil => rfl
  | cons g gs ih => rw [List.cons_append, stackOf, ih, List.map_cons, List.cons_append]

/-- The entry of the stack that has the hole. -/
theorem stackOf_cons (fs : List (Frame (Addr × ε))) : ∃ up e rest, stackOf fs = (up, e) :: rest := by
  cases fs with
  | nil => exact ⟨_, _, _, rfl⟩
  | cons f fs => exact ⟨_, _, _, rfl⟩

/-! ## §5. A tree and what is around it. -/

/-- `t'` differs from `t` in the nodes of `S` only, and in the root. -/
structure Edits (S : Multiset Addr) (t t' : RbTable ε) : Prop where
  count : t'.count = t.count
  generation : t'.generation = t.generation
  outside : ∀ x ∉ S, t'.nodes x = t.nodes x

theorem Edits.refl {S : Multiset Addr} : Edits S t t := ⟨rfl, rfl, fun _ _ => rfl⟩

theorem Edits.trans {S : Multiset Addr} {t₁ t₂ t₃ : RbTable ε} (h : Edits S t₁ t₂) (h' : Edits S t₂ t₃) :
    Edits S t₁ t₃ :=
  ⟨h'.count.trans h.count, h'.generation.trans h.generation,
    fun x hx => (h'.outside x hx).trans (h.outside x hx)⟩

theorem Edits.mono {S S' : Multiset Addr} (h : Edits S t t') (hle : ∀ x ∈ S, x ∈ S') : Edits S' t t' :=
  ⟨h.count, h.generation, fun x hx => h.outside x fun hx' => hx (hle x hx')⟩

theorem edits_put {S : Multiset Addr} (hp : p ∈ S) : Edits S t (t'.put p n) ↔ Edits S t t' := by
  have hne : ∀ x ∉ S, x ≠ p := fun x hx hxp => hx (hxp.symm ▸ hp)
  constructor
  · intro h
    exact ⟨h.count, h.generation, fun x hx => (RbTable.nodes_put_of_ne (hne x hx)).symm.trans (h.outside x hx)⟩
  · intro h
    exact ⟨h.count, h.generation, fun x hx => (RbTable.nodes_put_of_ne (hne x hx)).trans (h.outside x hx)⟩

/-- **The table is the tree that has `s` in the hole of `fs`.** -/
structure Zip (t : RbTable ε) (fs : List (Frame (Addr × ε))) (s : ColorTree (Addr × ε)) : Prop where
  holds : Holds t.nodes s
  around : HoldsAround t fs (rootAddr s)
  nodup : (addrs s + aroundAddrs fs).Nodup

theorem zip_cons : Zip t (f :: fs) s ↔ Zip t fs (f.fill s) := by
  have hnodup : addrs s + aroundAddrs (f :: fs) = addrs (f.fill s) + aroundAddrs fs := by
    rw [Frame.fill, addrs_fork, aroundAddrs, Multiset.add_cons, Multiset.cons_add, Multiset.add_assoc]
  constructor
  · rintro ⟨hs, ⟨hne, hnode, hother, hfs⟩, hnd⟩
    refine ⟨?_, ?_, hnodup ▸ hnd⟩
    · rw [Frame.fill, holds_fork]
      exact ⟨hne, hnode, hs, hother⟩
    · rw [rootAddr_fill]
      exact hfs
  · rintro ⟨hs, hfs, hnd⟩
    rw [Frame.fill, holds_fork] at hs
    rw [rootAddr_fill] at hfs
    exact ⟨hs.2.2.1, ⟨hs.1, hs.2.1, hs.2.2.2, hfs⟩, hnodup.symm ▸ hnd⟩

theorem zip_append {gs : List (Frame (Addr × ε))} : Zip t (gs ++ fs) s ↔ Zip t fs (plug gs s) := by
  induction gs generalizing s with
  | nil => rfl
  | cons g gs ih => exact zip_cons.trans ih

theorem zip_plug : Zip t fs s ↔ Zip t [] (plug fs s) := by
  have h : Zip t (fs ++ []) s ↔ Zip t [] (plug fs s) := zip_append
  rwa [List.append_nil] at h

/-- The link of the hole, read. -/
theorem HoldsAround.link {up : Place} {e : Bool} {rest : Stack} (h : HoldsAround t fs p)
    (hstack : stackOf fs = (up, e) :: rest) : t.link up e = some p := by
  cases fs with
  | nil =>
      cases hstack
      exact congrArg some h
  | cons f fs =>
      cases hstack
      rw [RbTable.link_node h.2.1]
      exact congrArg some links_near

/-- The other link of the node above the hole. -/
theorem HoldsAround.other (h : HoldsAround t (f :: fs) p) : t.link (some f.value.1) (!f.dir) = some (rootAddr f.other) := by
  rw [RbTable.link_node h.2.1]
  exact congrArg some links_far

/-- **The link of the hole, written**: another subtree is in the hole. -/
theorem HoldsAround.setLink {up : Place} {e : Bool} {rest : Stack} (h : HoldsAround t fs p)
    (hnodup : (aroundAddrs fs).Nodup) (hstack : stackOf fs = (up, e) :: rest) (q : Addr) :
    ∃ t', t.setLink up e q = some t' ∧ HoldsAround t' fs q ∧ Edits (aroundAddrs fs) t t' := by
  cases fs with
  | nil =>
      cases hstack
      exact ⟨_, rfl, rfl, rfl, rfl, fun _ _ => rfl⟩
  | cons f fs =>
      cases hstack
      obtain ⟨hne, hnode, hother, hfs⟩ := h
      rw [aroundAddrs, Multiset.nodup_cons, Multiset.mem_add, not_or] at hnodup
      refine ⟨_, RbTable.setLink_node hnode, ⟨hne, ?_, (holds_put hnodup.1.1).mpr hother,
        (holdsAround_put hnodup.1.2).mpr hfs⟩, rfl, rfl, ?_⟩
      · rw [RbTable.nodes_put_self, update_links_near]
      · intro x hx
        rw [aroundAddrs, Multiset.mem_cons, not_or] at hx
        exact RbTable.nodes_put_of_ne hx.1

/-- **Another tree is put into the hole**, at the end of some writes. -/
theorem HoldsAround.place {up : Place} {e : Bool} {rest : Stack} {S : Multiset Addr} (h : HoldsAround t' fs p)
    (hstack : stackOf fs = (up, e) :: rest) (hs : Holds t'.nodes s) (hq : rootAddr s = q)
    (hnodup : (addrs s + aroundAddrs fs).Nodup) (hedits : Edits S t t') (hsub : ∀ x ∈ aroundAddrs fs, x ∈ S) :
    ∃ t'', t'.setLink up e q = some t'' ∧ Zip t'' fs s ∧ Edits S t t'' := by
  obtain ⟨-, hfs, hdisjoint⟩ := Multiset.nodup_add.mp hnodup
  obtain ⟨t'', hset, haround, hedits'⟩ := h.setLink hfs hstack q
  refine ⟨t'', hset, ⟨?_, hq ▸ haround, hnodup⟩, hedits.trans (hedits'.mono hsub)⟩
  exact hs.congr fun x hx => hedits'.outside x (Multiset.disjoint_left.mp hdisjoint hx)

/-- The link of the hole written with what it is already. -/
theorem HoldsAround.setLink_same {up : Place} {e : Bool} {rest : Stack} (h : HoldsAround t fs p)
    (hstack : stackOf fs = (up, e) :: rest) : t.setLink up e p = some t := by
  cases fs with
  | nil =>
      cases hstack
      have hroot : t.root = p := h
      rw [RbTable.setLink, if_neg Bool.false_ne_true, ← hroot]
  | cons f fs =>
      cases hstack
      rw [RbTable.setLink_node h.2.1, update_links_near, RbTable.put, ← h.2.1, Function.update_eq_self]

/-- The counters do not matter. -/
theorem Zip.congr (z : Zip t fs s) (hnodes : t'.nodes = t.nodes) (hroot : t'.root = t.root) : Zip t' fs s :=
  ⟨hnodes ▸ z.holds, z.around.congr hroot fun _ _ => by rw [hnodes], z.nodup⟩

theorem Zip.root (z : Zip t [] s) : t.root = rootAddr s := z.around

/-- The root of the tree in the hole is painted black. -/
theorem Zip.blacken (z : Zip t fs s) (hs : s ≠ .nil) :
    ∃ t', t.setColor (rootAddr s) .black = some t' ∧ Zip t' fs s.blacken ∧ Edits (addrs s) t t' := by
  cases s with
  | nil => exact absurd rfl hs
  | node c l v r =>
      obtain ⟨hne, hnode, hl, hr⟩ := z.holds
      have hnd := z.nodup
      rw [addrs, Multiset.cons_add, Multiset.nodup_cons, Multiset.mem_add, Multiset.mem_add, not_or, not_or] at hnd
      refine ⟨_, RbTable.setColor_node hnode, ⟨⟨hne, RbTable.nodes_put_self, ?_, ?_⟩, ?_, z.nodup⟩, ?_⟩
      · exact (holds_put hnd.1.1.1).mpr hl
      · exact (holds_put hnd.1.1.2).mpr hr
      · exact (holdsAround_put hnd.1.2).mpr z.around
      · exact (edits_put (Multiset.mem_cons_self _ _)).mpr Edits.refl

/-! ## §6. Tables. -/

/-- What is looked for is `item`. -/
def cutBy (cmp : ε → ε → Int) (item : ε) (v : Addr × ε) : Int := cmp item v.2

theorem respects_cutBy {cmp : ε → ε → Int} (hcmp : Compares cmp) (item : ε) :
    Respects (fun a b : Addr × ε => cmp a.2 b.2 < 0) (cutBy cmp item) where
  neg hab ha := hcmp.trans ha hab
  pos hab hb := hcmp.swap.mp (hcmp.trans hab (hcmp.swap.mpr hb))

/-- **A table as the functions of `rb.c` leave it**: a red-black tree, its items in
order, and no live nodes but those of the tree. -/
structure RbOk (cmp : ε → ε → Int) (t : RbTable ε) (T : ColorTree (Addr × ε)) : Prop where
  zip : Zip t [] T
  live : ∀ x, (t.nodes x).isSome ↔ x ∈ addrs T
  count : t.count = T.toList.length
  redBlack : RedBlack T
  sorted : T.toList.Pairwise fun a b => cmp a.2 b.2 < 0

theorem rbCreate_ok {cmp : ε → ε → Int} : RbOk cmp (rbCreate : RbTable ε) .nil where
  zip := ⟨trivial, rfl, Multiset.nodup_zero⟩
  live x := ⟨nofun, fun h => absurd h (Multiset.notMem_zero x)⟩
  count := rfl
  redBlack := ⟨rfl, 0, .nil⟩
  sorted := List.Pairwise.nil

/-- After writes to the nodes of the tree only. -/
theorem Zip.live {T : ColorTree (Addr × ε)} (z : Zip t [] T) (houtside : ∀ x ∉ addrs T, t.nodes x = none) (x : Addr) :
    (t.nodes x).isSome ↔ x ∈ addrs T := by
  constructor
  · intro h
    by_contra hx
    rw [houtside x hx] at h
    cases h
  · exact fun hx => z.holds.isSome hx

end LzLib.Rb
