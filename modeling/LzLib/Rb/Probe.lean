/-
  LzLib.Rb.Probe
  ──────────────
  **`rb_probe` IN MEMORY.**

  The way down ends at a node with an equal item, or at NULL where the item
  belongs.  The new node is red; from there the loop of `rb_probe` does to the
  memory what `insertUp` does to the tree.

  Main result: `rbProbe_spec`.
-/
import LzLib.Rb.Represent

namespace LzLib.Rb

open LzLib.Foundation LzLib.Foundation.ColorTree

variable {ε : Type} {t : RbTable ε} {s : ColorTree (Addr × ε)} {f g : Frame (Addr × ε)}
  {fs : List (Frame (Addr × ε))} {up : Place} {e : Bool} {rest : Stack}

/-! ## §1. The repair. -/

/-- **The rotations.** -/
theorem probeRotate_spec (z : Zip t (f :: g :: fs) s) (hs : s ≠ .nil) (hstack : stackOf fs = (up, e) :: rest) :
    ∃ t', probeRotate t f.value.1 g.value.1 up f.dir g.dir e = some t' ∧ Zip t' fs (rotateUp f g s) ∧
      Edits (addrs s + aroundAddrs (f :: g :: fs)) t t' := by
  have hnodup : (addrs (rotateUp f g s) + aroundAddrs fs).Nodup := by
    rw [addrs_of_plug [f, g] toList_rotateUp]
    exact z.nodup
  obtain ⟨fd, fc, fv, fo⟩ := f
  obtain ⟨gd, gc, gv, go⟩ := g
  obtain ⟨hhs, ⟨hf0, hf, hfo, hg0, hg, hgo, hfs⟩, hnd⟩ := z
  rcases fork_cases gd s with rfl | ⟨c, v, a, b, rfl⟩
  · exact absurd rfl hs
  rw [holds_fork] at hhs
  obtain ⟨hv0, hv, ha, hb⟩ := hhs
  simp only [rootAddr_fork] at hf0 hf hfo hg0 hg hgo hfs
  simp only [addrs_fork, aroundAddrs, Multiset.cons_add, Multiset.add_cons, Multiset.nodup_cons, Multiset.mem_cons,
    Multiset.mem_add, not_or] at hnd
  obtain ⟨⟨hfg, hfv, hfab⟩, ⟨hgv, hgab⟩, hva, -⟩ := hnd
  have hgf := Ne.symm hfg
  have hvf := Ne.symm hfv
  have hvg := Ne.symm hgv
  by_cases hdir : fd = gd
  · -- the node of `f` comes up
    subst hdir
    have hrot : rotateUp ⟨fd, fc, fv, fo⟩ ⟨fd, gc, gv, go⟩ (fork fd c v a b)
        = fork fd .black fv (fork fd c v a b) (fork fd .red gv fo go) := if_pos rfl
    rw [hrot] at hnodup ⊢
    simp [probeRotate, RbTable.setColor_eq, RbTable.link_some, RbTable.setLink_some, RbTable.nodes_put_of_ne, *]
    refine HoldsAround.place (p := gv.1) ?_ hstack ?_ rootAddr_fork hnodup ?_ ?_
    · simp [holdsAround_put, *]
    · simp [holds_put, RbTable.nodes_put_of_ne, *]
    · simp [edits_put, Edits.refl, aroundAddrs]
    · simp +contextual [aroundAddrs]
  · -- the child comes up, over both
    have hfd : fd = !gd := by
      rw [Bool.eq_not]
      exact hdir
    subst hfd
    have hrot : rotateUp ⟨!gd, fc, fv, fo⟩ ⟨gd, gc, gv, go⟩ (fork gd c v a b)
        = fork gd .black v (fork gd fc fv fo a) (fork gd .red gv b go) := by
      cases gd <;> rfl
    rw [hrot] at hnodup ⊢
    simp [probeRotate, RbTable.setColor_eq, RbTable.link_some, RbTable.setLink_some, RbTable.nodes_put_of_ne, *]
    refine HoldsAround.place (p := gv.1) ?_ hstack ?_ rootAddr_fork hnodup ?_ ?_
    · simp [holdsAround_put, *]
    · simp [holds_put, RbTable.nodes_put_of_ne, *]
    · simp [edits_put, Edits.refl, aroundAddrs]
    · simp +contextual [aroundAddrs]

/-- Parent and uncle are painted black, the grandparent red. -/
theorem probeRecolor_spec (z : Zip t (f :: g :: fs) s) (hred : g.other.color = .red) :
    ∃ t₁ t₂ t', t.setColor (rootAddr g.other) .black = some t₁ ∧ t₁.setColor f.value.1 .black = some t₂ ∧
      t₂.setColor g.value.1 .red = some t' ∧
      Zip t' fs (fork g.dir .red g.value (fork f.dir .black f.value s f.other) g.other.blacken) ∧
      Edits (addrs s + aroundAddrs (f :: g :: fs)) t t' := by
  have hnodup : (addrs (fork g.dir .red g.value (fork f.dir .black f.value s f.other) g.other.blacken)
      + aroundAddrs fs).Nodup := by
    rw [addrs_of_plug [f, g] (toList_fork_congr toList_fork_color toList_blacken)]
    exact z.nodup
  obtain ⟨fd, fc, fv, fo⟩ := f
  obtain ⟨gd, gc, gv, go⟩ := g
  rcases fork_cases gd go with rfl | ⟨c, v, a, b, rfl⟩
  · cases hred
  obtain ⟨hs, ⟨hf0, hf, hfo, hg0, hg, hgo, hfs⟩, hnd⟩ := z
  rw [holds_fork] at hgo
  obtain ⟨hv0, hv, ha, hb⟩ := hgo
  simp only [rootAddr_fork] at hf0 hf hfo hg0 hg hfs
  simp only [addrs_fork, aroundAddrs, Multiset.cons_add, Multiset.add_cons, Multiset.nodup_cons, Multiset.mem_cons,
    Multiset.mem_add, not_or] at hnd
  obtain ⟨⟨hfg, hfv, hfab⟩, ⟨hgv, hgab⟩, hva, -⟩ := hnd
  have hgf := Ne.symm hfg
  have hvf := Ne.symm hfv
  have hvg := Ne.symm hgv
  refine ⟨t.put v.1 ⟨links gd (rootAddr a) (rootAddr b), v.2, .black⟩,
    (t.put v.1 ⟨links gd (rootAddr a) (rootAddr b), v.2, .black⟩).put fv.1
      ⟨links fd (rootAddr s) (rootAddr fo), fv.2, .black⟩,
    ((t.put v.1 ⟨links gd (rootAddr a) (rootAddr b), v.2, .black⟩).put fv.1
      ⟨links fd (rootAddr s) (rootAddr fo), fv.2, .black⟩).put gv.1 ⟨links gd fv.1 v.1, gv.2, .red⟩,
    ?_, ?_, ?_, ⟨?_, ?_, hnodup⟩, ?_⟩
  · simp [RbTable.setColor_eq, hv]
  · simp [RbTable.setColor_eq, RbTable.nodes_put_of_ne, hfv, hf]
  · simp [RbTable.setColor_eq, RbTable.nodes_put_of_ne, hgf, hgv, hg]
  · simp [holds_put, RbTable.nodes_put_of_ne, *]
  · simp [holdsAround_put, *]
  · simp [edits_put, Edits.refl, aroundAddrs]

/-- One round of the loop. -/
theorem probeRepair_cons {p g : Addr} {d₁ d₂ : Bool} :
    probeRepair t ((some p, d₁) :: (some g, d₂) :: (up, e) :: rest)
      = (t.color p).bind fun c =>
          if c = .red then
            (t.link (some g) (!d₂)).bind fun y => (t.isBlack y).bind fun b =>
              if b then probeRotate t p g up d₁ d₂ e
              else
                (t.setColor y .black).bind fun t => (t.setColor p .black).bind fun t => (t.setColor g .red).bind fun t =>
                  probeRepair t ((up, e) :: rest)
          else some t := by
  rw [probeRepair]
  rfl

/-- **The repair in memory is that of the tree.** -/
theorem probeRepair_spec (z : Zip t fs s) (hs : s ≠ .nil) :
    ∃ t', probeRepair t (stackOf fs) = some t' ∧ Zip t' [] (insertUp fs s) ∧ Edits (addrs s + aroundAddrs fs) t t' := by
  induction fs, s using insertUp.induct generalizing t with
  | case1 f g fs s hf =>
      obtain ⟨up, e, rest, hstack⟩ := stackOf_cons fs
      refine ⟨t, ?_, ?_, Edits.refl⟩
      · have hcolor : t.color f.value.1 = some .black := (RbTable.color_node z.around.2.1).trans (congrArg some hf)
        rw [stackOf, stackOf, hstack, probeRepair_cons, hcolor, Option.bind_some, if_neg (by decide)]
      · rw [insertUp, hf]
        exact zip_plug.mp z
  | case2 f g fs s hf hg ih =>
      obtain ⟨up, e, rest, hstack⟩ := stackOf_cons fs
      obtain ⟨t₁, t₂, t₃, h₁, h₂, h₃, z', hedits⟩ := probeRecolor_spec z hg
      obtain ⟨t', hrepair, z'', hedits'⟩ := ih z' fork_ne_nil
      refine ⟨t', ?_, ?_, hedits.trans (hedits'.mono ?_)⟩
      · have hcolor : t.color f.value.1 = some .red := (RbTable.color_node z.around.2.1).trans (congrArg some hf)
        have hlink := HoldsAround.other z.around.2.2.2
        have hblack : t.isBlack (rootAddr g.other) = some false := by
          rw [z.around.2.2.2.2.2.1.isBlack, hg]
          rfl
        rw [stackOf, stackOf, hstack, probeRepair_cons, hcolor, Option.bind_some, if_pos rfl, hlink, Option.bind_some,
          hblack, Option.bind_some, if_neg Bool.false_ne_true, h₁, Option.bind_some, h₂,
          Option.bind_some, h₃, Option.bind_some, ← hstack]
        exact hrepair
      · rw [insertUp, hf]
        simp only [hg]
        exact z''
      · rw [addrs_of_plug [f, g] (toList_fork_congr toList_fork_color toList_blacken)]
        exact fun x hx => hx
  | case3 f g fs s hf hg =>
      obtain ⟨up, e, rest, hstack⟩ := stackOf_cons fs
      obtain ⟨t', hrotate, z', hedits⟩ := probeRotate_spec z hs hstack
      refine ⟨t', ?_, ?_, hedits⟩
      · have hcolor : t.color f.value.1 = some .red := (RbTable.color_node z.around.2.1).trans (congrArg some hf)
        have hlink := HoldsAround.other z.around.2.2.2
        have hblack : t.isBlack (rootAddr g.other) = some true := by
          rw [z.around.2.2.2.2.2.1.isBlack, hg]
          rfl
        rw [stackOf, stackOf, hstack, probeRepair_cons, hcolor, Option.bind_some, if_pos rfl, hlink, Option.bind_some,
          hblack, Option.bind_some, if_pos rfl]
        exact hrotate
      · rw [insertUp, hf]
        simp only [hg]
        exact zip_plug.mp z'
  | case4 fs s hfs =>
      refine ⟨t, ?_, ?_, Edits.refl⟩
      · cases fs with
        | nil => rfl
        | cons f fs =>
            cases fs with
            | nil => rfl
            | cons g fs => exact (hfs f g fs rfl).elim
      · have hinsert : insertUp fs s = plug fs s := by
          unfold insertUp
          split
          · exact (hfs _ _ _ rfl).elim
          · rfl
        rw [hinsert]
        exact zip_plug.mp z

/-! ## §2. The way down. -/

section Calls

variable {cmp : ε → ε → Int} {maxHeight : Nat} {T : ColorTree (Addr × ε)} {item : ε}

theorem probeDown_eq (cmp : ε → ε → Int) (item : ε) (fs : List (Frame (Addr × ε))) (room : Nat) (hs : Holds t.nodes s) (hroom : s.height ≤ room) :
    probeDown cmp t item room (rootAddr s) (stackOf fs)
      = some (rootAddr (descend (cutBy cmp item) fs s).2, stackOf (descend (cutBy cmp item) fs s).1) := by
  induction s generalizing fs room with
  | nil =>
      unfold probeDown
      rfl
  | node c l v r ihl ihr =>
      obtain ⟨hne, hnode, hl, hr⟩ := hs
      rw [height] at hroom
      rw [descend, cutBy, rootAddr_node]
      unfold probeDown
      rw [if_neg hne, hnode]
      dsimp only
      by_cases hzero : cmp item v.2 = 0
      · rw [if_pos hzero, if_pos hzero]
        rfl
      · rw [if_neg hzero, if_neg hzero]
        obtain ⟨room, rfl⟩ : ∃ m, room = m + 1 := ⟨room - 1, by omega⟩
        by_cases hpos : 0 < cmp item v.2
        · rw [if_pos hpos, decide_eq_true hpos]
          exact ihr (⟨true, c, v, l⟩ :: fs) room hr (by omega)
        · rw [if_neg hpos, decide_eq_false hpos]
          exact ihl (⟨false, c, v, r⟩ :: fs) room hl (by omega)

/-- What a search of the table finds, or where the item would be. -/
theorem RbOk.search (hcmp : Compares cmp) (h : RbOk cmp t T) (item : ε) :
    (∃ fs c l v r, descend (cutBy cmp item) [] T = (fs, .node c l v r) ∧ plug fs (.node c l v r) = T ∧
        cmp item v.2 = 0) ∨
      ∃ fs, descend (cutBy cmp item) [] T = (fs, .nil) ∧ plug fs .nil = T ∧
        (∀ e ∈ before fs, cmp e.2 item < 0) ∧ ∀ e ∈ after fs, cmp item e.2 < 0 := by
  have hplug : plug (descend (cutBy cmp item) [] T).1 (descend (cutBy cmp item) [] T).2 = T := plug_descend
  have htoward : Toward (cutBy cmp item) (descend (cutBy cmp item) [] T).1 := toward_descend nofun
  have hend : (descend (cutBy cmp item) [] T).2 = .nil ∨
      ∃ c l v r, (descend (cutBy cmp item) [] T).2 = .node c l v r ∧ cutBy cmp item v = 0 := descend_end
  generalize descend (cutBy cmp item) [] T = found at hplug htoward hend
  obtain ⟨fs, s⟩ := found
  rcases hend with hnil | ⟨c, l, v, r, hnode, hzero⟩
  · dsimp only at hnil
    subst hnil
    have hsorted := h.sorted
    rw [← show plug fs .nil = T from hplug, toList_plug, toList_nil, List.nil_append] at hsorted
    have hsides := htoward.sides (respects_cutBy hcmp item) hsorted
    exact Or.inr ⟨fs, rfl, hplug, fun e he => hcmp.swap.mpr (hsides.1 e he), hsides.2⟩
  · dsimp only at hnode
    subst hnode
    exact Or.inl ⟨fs, c, l, v, r, rfl, hplug, hzero⟩

/-- An item that would be between its neighbours is not in the tree. -/
theorem search_none {L R : List (Addr × ε)} (hcmp : Compares cmp) (hL : ∀ e ∈ L, cmp e.2 item < 0)
    (hR : ∀ e ∈ R, cmp item e.2 < 0) : ∀ e ∈ L ++ R, cmp item e.2 ≠ 0 := by
  intro e he
  rcases List.mem_append.mp he with he | he
  · have := hcmp.swap.mp (hL e he)
    omega
  · have := hR e he
    omega

/-! ## §3. The call. -/

/-- The new node, red, in the place of NULL. -/
theorem probe_link (item : ε) (z : Zip t fs .nil) (hstack : stackOf fs = (up, e) :: rest) {n : Addr} (hn : n ≠ 0)
    (hfresh : t.nodes n = none) (hlive : ∀ x ∈ aroundAddrs fs, (t.nodes x).isSome) :
    ∃ t', t.setLink up e n = some t' ∧
      Zip (t'.put n ⟨fun _ => 0, item, .red⟩) fs (.node .red .nil (n, item) .nil) ∧ Edits (aroundAddrs fs) t t' := by
  have hnew : n ∉ aroundAddrs fs := by
    intro h
    have := hlive n h
    rw [hfresh] at this
    cases this
  have hnodup := z.nodup
  rw [addrs_nil, Multiset.zero_add] at hnodup
  obtain ⟨t', hset, haround, hedits⟩ := z.around.setLink hnodup hstack n
  refine ⟨t', hset, ⟨⟨hn, ?_, trivial, trivial⟩, (holdsAround_put hnew).mpr haround, ?_⟩, hedits⟩
  · rw [RbTable.nodes_put_self, rootAddr_nil, links_null]
  · rw [addrs, addrs_nil, Multiset.add_zero, Multiset.cons_add, Multiset.zero_add]
    exact Multiset.nodup_cons.mpr ⟨hnew, hnodup⟩

/-- **`rb_probe`** finds the equal item, or puts the new one where it belongs, and
the table stays a red-black tree; without a node it changes nothing. -/
theorem rbProbe_spec (hcmp : Compares cmp) (h : RbOk cmp t T) (hroom : T.height < maxHeight) (item : ε)
    {alloc : Option Addr} (halloc : ∀ n, alloc = some n → n ≠ 0 ∧ t.nodes n = none) :
    (∃ p y, (p, y) ∈ T.toList ∧ cmp item y = 0 ∧ rbProbe cmp maxHeight t item alloc = some (t, some p)) ∨
      ∃ L R, T.toList = L ++ R ∧ (∀ e ∈ L, cmp e.2 item < 0) ∧ (∀ e ∈ R, cmp item e.2 < 0) ∧
        match alloc with
        | none => rbProbe cmp maxHeight t item alloc = some (t, none)
        | some n =>
            ∃ t' T', rbProbe cmp maxHeight t item alloc = some (t', some n) ∧ RbOk cmp t' T' ∧
              T'.toList = L ++ (n, item) :: R ∧ t'.generation = t.generation + 1 := by
  have hdown := probeDown_eq cmp item [] (maxHeight - 1) h.zip.holds (by omega)
  rw [← h.zip.root] at hdown
  rcases h.search hcmp item with ⟨fs, c, l, v, r, hsearch, hplug, hzero⟩ | ⟨fs, hsearch, hplug, hL, hR⟩
  · left
    rw [hsearch] at hdown
    have hz : Zip t fs (.node c l v r) := by
      rw [zip_plug, hplug]
      exact h.zip
    refine ⟨v.1, v.2, ?_, hzero, ?_⟩
    · rw [← hplug]
      simp
    · have hne : v.1 ≠ 0 := hz.holds.1
      unfold rbProbe
      rw [show [((none : Place), false)] = stackOf ([] : List (Frame (Addr × ε))) from rfl, hdown]
      simp [hne]
  · right
    rw [hsearch] at hdown
    have hz : Zip t fs .nil := by
      rw [zip_plug, hplug]
      exact h.zip
    have hlist : T.toList = before fs ++ after fs := by
      rw [← hplug, toList_plug]
      rfl
    refine ⟨before fs, after fs, hlist, hL, hR, ?_⟩
    obtain ⟨up, e, rest, hstack⟩ := stackOf_cons fs
    have hstart : [((none : Place), false)] = stackOf ([] : List (Frame (Addr × ε))) := rfl
    cases alloc with
    | none =>
        have hsame : t.setLink up e 0 = some t := hz.around.setLink_same hstack
        unfold rbProbe
        rw [hstart, hdown]
        simp [hstack, hsame]
    | some n =>
        obtain ⟨hn, hfresh⟩ := halloc n rfl
        have hwhole : aroundAddrs fs = addrs T := by
          rw [← hplug, addrs_plug, addrs_nil, Multiset.zero_add]
        obtain ⟨t₁, hset, z₁, hedits₁⟩ := probe_link item hz hstack hn hfresh
          (fun x hx => (h.live x).mpr (hwhole ▸ hx))
        obtain ⟨t₂, hrepair, z₂, hedits₂⟩ := probeRepair_spec
          (t := (t₁.put n ⟨fun _ => 0, item, .red⟩).counted) (z₁.congr rfl rfl) nofun
        have hT' : (insertUp fs (.node .red .nil (n, item) .nil)).toList = before fs ++ (n, item) :: after fs := by
          rw [toList_insertUp, toList_plug]
          rfl
        have haddrs : addrs (insertUp fs (.node .red .nil (n, item) .nil))
            = addrs (.node .red .nil (n, item) .nil) + aroundAddrs fs := by
          rw [addrs_congr toList_insertUp, addrs_plug]
        obtain ⟨t₃, hblacken, z₃, hedits₃⟩ := z₂.blacken (by
          intro hnil
          rw [hnil] at hT'
          simp at hT')
        rw [← z₂.root] at hblacken
        refine ⟨t₃, (insertUp fs (.node .red .nil (n, item) .nil)).blacken, ?_, ⟨z₃, ?_, ?_, ?_, ?_⟩, ?_, ?_⟩
        · unfold rbProbe
          rw [hstart, hdown]
          simp only [rootAddr_nil, Option.bind_eq_bind, Option.bind_some, ne_eq, not_true_eq_false, if_false, hstack,
            List.head?_cons, hset, Option.pure_def]
          rw [← hstack, hrepair]
          simp [hblacken]
        · refine z₃.live ?_
          intro x hx
          rw [addrs_blacken] at hx
          rw [hedits₃.outside x hx]
          rw [haddrs] at hx
          rw [hedits₂.outside x hx]
          rw [Multiset.mem_add, addrs, Multiset.mem_cons, not_or, not_or] at hx
          refine (RbTable.nodes_put_of_ne hx.1.1).trans ?_
          rw [hedits₁.outside x hx.2]
          rw [hwhole, ← h.live] at hx
          exact Option.not_isSome_iff_eq_none.mp hx.2
        · rw [hedits₃.count, hedits₂.count, toList_blacken, hT', List.length_append, List.length_cons, ← Nat.add_assoc,
            ← List.length_append, ← hlist, ← h.count]
          exact congrArg (· + 1) hedits₁.count
        · obtain ⟨m, hfits, hbal, -⟩ := (hplug ▸ h.redBlack : RedBlack (plug fs .nil)).fits
          exact insertUp_redBlack hfits (.red rfl rfl hbal hbal) rfl
        · rw [toList_blacken, hT']
          have hsorted := h.sorted
          rw [hlist, List.pairwise_append] at hsorted
          refine List.pairwise_append.mpr ⟨hsorted.1, List.pairwise_cons.mpr ⟨hR, hsorted.2.1⟩, ?_⟩
          intro a ha b hb
          rcases List.mem_cons.mp hb with rfl | hb
          · exact hL a ha
          · exact hsorted.2.2 a ha b hb
        · rw [toList_blacken, hT']
        · rw [hedits₃.generation, hedits₂.generation]
          exact congrArg (· + 1) hedits₁.generation

end Calls

end LzLib.Rb
