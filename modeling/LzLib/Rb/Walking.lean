/-
  LzLib.Rb.Walking
  ────────────────
  **WHERE A TRAVERSER GOES.**

  A traverser stands at a node of the tree, with the nodes above it on its stack,
  or at none.  `StandsAt t T trav slot`: it stands at `slot`, and its stack is the way
  to it.  Each function of a traverser is shown to end at the right slot of the
  ordered list of slots, from the stack that it has or from the one that
  `trav_refresh` makes.

  Main result: `travStep_spec`.
-/
import LzLib.Rb.TraverserDef
import LzLib.Rb.RbRuns
import LzLib.Foundation.Walks

namespace LzLib.Rb

open LzLib.Foundation LzLib.Foundation.ColorTree

variable {ε : Type} {cmp : ε → ε → Int} {maxHeight room : Nat} {t : RbTable ε} {s T : ColorTree (Addr × ε)}
  {fs : List (Frame (Addr × ε))} {d : Bool} {trav : RbTraverser} {slot : Option (Addr × ε)}

/-- `rb_stack` above a hole. -/
def ancestors (fs : List (Frame (Addr × ε))) : List Addr := fs.map fun f => f.value.1

/-! ## §1. The loops. -/

/-- **Down along an edge.** -/
theorem edgeDown_spec (d : Bool) (stack : List Addr) (hs : Holds t.nodes s) (hne : s ≠ .nil)
    (hroom : s.height ≤ room + 1) :
    ∃ gs c v far, plug gs (fork d c v .nil far) = s ∧ (∀ g ∈ gs, g.dir = d) ∧
      edgeDown t d room (rootAddr s) stack = some (v.1, ancestors gs ++ stack) := by
  induction room generalizing s stack with
  | zero =>
      rcases fork_cases d s with rfl | ⟨c, v, near, far, rfl⟩
      · exact absurd rfl hne
      have hnear : near = .nil := by
        cases near with
        | nil => rfl
        | node c l w r =>
            rw [height_fork, height] at hroom
            omega
      subst hnear
      rw [holds_fork] at hs
      refine ⟨[], c, v, far, rfl, fun g hg => absurd hg List.not_mem_nil, ?_⟩
      rw [rootAddr_fork, edgeDown, hs.2.1]
      exact if_pos links_near
  | succ room ih =>
      rcases fork_cases d s with rfl | ⟨c, v, near, far, rfl⟩
      · exact absurd rfl hne
      rw [holds_fork] at hs
      rw [height_fork] at hroom
      rw [rootAddr_fork, edgeDown, hs.2.1]
      simp only [links_near]
      by_cases hnear : near = .nil
      · subst hnear
        exact ⟨[], c, v, far, rfl, fun g hg => absurd hg List.not_mem_nil, if_pos rfl⟩
      · have hlink : rootAddr near ≠ 0 := fun h0 => hnear (hs.2.2.1.rootAddr_eq_zero.mp h0)
        obtain ⟨gs, c', v', far', hplug, hdirs, hdown⟩ := ih (v.1 :: stack) hs.2.2.1 hnear (by omega)
        refine ⟨gs ++ [⟨d, c, v, far⟩], c', v', far', ?_, ?_, ?_⟩
        · rw [plug_append, hplug]
          rfl
        · intro g hg
          rcases List.mem_append.mp hg with hg | hg
          · exact hdirs g hg
          · rw [List.mem_singleton.mp hg]
        · rw [if_neg hlink, hdown]
          simp [ancestors]

/-- **Up the stack**, from the child that the hole is the place of. -/
theorem climb_spec (d : Bool) (z : Zip t fs s) (hne : s ≠ .nil) :
    (beyond d fs = [] ∧ climb t d (rootAddr s) (ancestors fs) = some (0, [])) ∨
      ∃ gs f rest, fs = gs ++ f :: rest ∧ (∀ g ∈ gs, g.dir = d) ∧ f.dir ≠ d ∧
        climb t d (rootAddr s) (ancestors fs) = some (f.value.1, ancestors rest) := by
  induction fs generalizing s with
  | nil => exact Or.inl ⟨rfl, rfl⟩
  | cons f fs ih =>
      obtain ⟨-, hnode, hother, -⟩ := z.around
      have hstep : climb t d (rootAddr s) (ancestors (f :: fs))
          = if rootAddr s = links f.dir (rootAddr s) (rootAddr f.other) d then climb t d f.value.1 (ancestors fs)
            else some (f.value.1, ancestors fs) := by
        show (t.nodes f.value.1).bind _ = _
        rw [hnode]
        rfl
      by_cases hdir : f.dir = d
      · rw [hdir, links_near, if_pos rfl] at hstep
        have hfill : f.fill s ≠ .nil := fork_ne_nil
        have hih := ih (zip_cons.mp z) hfill
        rw [rootAddr_fill, ← hstep] at hih
        rcases hih with ⟨hnone, hclimb⟩ | ⟨gs, g, rest, hfs, hdirs, hg, hclimb⟩
        · exact Or.inl ⟨(beyond_same hdir).trans hnone, hclimb⟩
        · refine Or.inr ⟨f :: gs, g, rest, by rw [hfs]; rfl, ?_, hg, hclimb⟩
          intro h hh
          rcases List.mem_cons.mp hh with rfl | hh
          · exact hdir
          · exact hdirs h hh
      · -- the other child is another node, or none
        have hnot : d = !f.dir := by rw [Bool.eq_not]; exact Ne.symm hdir
        have hdiffer : rootAddr s ≠ rootAddr f.other := by
          intro heq
          have hroot : rootAddr s ≠ 0 := fun h0 => hne (z.holds.rootAddr_eq_zero.mp h0)
          have hnd := z.nodup
          rw [aroundAddrs, Multiset.add_cons, Multiset.nodup_cons] at hnd
          have hdisjoint := Multiset.disjoint_left.mp (Multiset.nodup_add.mp hnd.2).2.2 (rootAddr_mem hroot)
          exact hdisjoint (Multiset.mem_add.mpr (Or.inl (heq ▸ rootAddr_mem (heq ▸ hroot))))
        refine Or.inr ⟨[], f, fs, rfl, fun g hg => absurd hg List.not_mem_nil, hdir, ?_⟩
        rw [hstep, hnot, links_far, if_neg hdiffer]

/-- The loop of `trav_refresh` goes the way of a search for the item of its node. -/
theorem refreshDown_eq (fs : List (Frame (Addr × ε))) {x : RbNode ε} {a : Addr} (hx : t.nodes a = some x)
    (hzero : cmp x.data x.data = 0) (hs : Holds t.nodes s) (hroom : s.height ≤ room)
    (hend : rootAddr (descend (cutBy cmp x.data) fs s).2 = a) (ha : a ≠ 0) :
    refreshDown cmp t a room (rootAddr s) (ancestors fs) = some (ancestors (descend (cutBy cmp x.data) fs s).1) := by
  induction s generalizing fs room with
  | nil => exact absurd hend.symm ha
  | node c l v r ihl ihr =>
      obtain ⟨hne, hnode, hl, hr⟩ := hs
      rw [descend] at hend ⊢
      rw [rootAddr_node]
      by_cases hcut : cutBy cmp x.data v = 0
      · rw [if_pos hcut] at hend ⊢
        unfold refreshDown
        exact if_pos hend
      · -- at the node itself the search would have ended
        have hother : v.1 ≠ a := by
          rintro rfl
          rw [hnode, Option.some.injEq] at hx
          rw [← hx] at hzero hcut
          exact hcut hzero
        obtain ⟨room, rfl⟩ : ∃ m, room = m + 1 := ⟨room - 1, by rw [height] at hroom; omega⟩
        rw [height] at hroom
        have hstep : refreshDown cmp t a (room + 1) v.1 (ancestors fs)
            = refreshDown cmp t a room (links false (rootAddr l) (rootAddr r) (0 < cmp x.data v.2)) (v.1 :: ancestors fs) := by
          rw [refreshDown, if_neg hother]
          show (if v.1 = 0 then none else (t.nodes a).bind fun x => (t.nodes v.1).bind fun n => _) = _
          rw [if_neg hne, hx, hnode]
          rfl
        rw [if_neg hcut] at hend ⊢
        rw [hstep]
        by_cases hpos : 0 < cutBy cmp x.data v
        · have hdec : decide (0 < cmp x.data v.2) = true := decide_eq_true hpos
          rw [if_pos hpos] at hend ⊢
          rw [hdec]
          exact ihr (⟨true, c, v, l⟩ :: fs) hr (by omega) hend
        · have hdec : decide (0 < cmp x.data v.2) = false := decide_eq_false hpos
          rw [if_neg hpos] at hend ⊢
          rw [hdec]
          exact ihl (⟨false, c, v, r⟩ :: fs) hl (by omega) hend

/-- The loop of `rb_t_find`. -/
theorem findDown_eq (cmp : ε → ε → Int) (item : ε) (fs : List (Frame (Addr × ε))) (hs : Holds t.nodes s)
    (hroom : s.height ≤ room) :
    findDown cmp t item room (rootAddr s) (ancestors fs)
      = some (rootAddr (descend (cutBy cmp item) fs s).2,
          if rootAddr (descend (cutBy cmp item) fs s).2 = 0 then []
          else ancestors (descend (cutBy cmp item) fs s).1) := by
  induction s generalizing fs room with
  | nil =>
      unfold findDown
      rfl
  | node c l v r ihl ihr =>
      obtain ⟨hne, hnode, hl, hr⟩ := hs
      rw [descend, rootAddr_node]
      by_cases hcut : cutBy cmp item v = 0
      · have hzero : cmp item v.2 = 0 := hcut
        unfold findDown
        rw [if_pos hcut, if_neg hne, hnode, rootAddr_node, if_neg hne]
        exact if_pos hzero
      · have hzero : ¬ cmp item v.2 = 0 := hcut
        obtain ⟨room, rfl⟩ : ∃ m, room = m + 1 := ⟨room - 1, by rw [height] at hroom; omega⟩
        rw [height] at hroom
        have hstep : findDown cmp t item (room + 1) v.1 (ancestors fs)
            = findDown cmp t item room (links false (rootAddr l) (rootAddr r) (0 < cmp item v.2)) (v.1 :: ancestors fs) := by
          rw [findDown, if_neg hne, hnode]
          exact if_neg hzero
        rw [if_neg hcut, hstep]
        by_cases hpos : 0 < cutBy cmp item v
        · have hdec : decide (0 < cmp item v.2) = true := decide_eq_true hpos
          rw [if_pos hpos, hdec]
          exact ihr (⟨true, c, v, l⟩ :: fs) hr (by omega)
        · have hdec : decide (0 < cmp item v.2) = false := decide_eq_false hpos
          rw [if_neg hpos, hdec]
          exact ihl (⟨false, c, v, r⟩ :: fs) hl (by omega)

/-! ## §2. Slots. -/

/-- The address of a slot, or NULL. -/
def slotAddr (slot : Option (Addr × ε)) : Addr := (slot.map Prod.fst).getD 0

/-- **The neighbour of the slot at `a`** in the direction `d`; NULL is between the
last slot and the first. -/
def neighbour (d : Bool) (a : Addr) (L : List (Addr × ε)) : Option (Addr × ε) :=
  if a = 0 then (along d L).head? else following a (along d L)

/-- No address occurs twice. -/
theorem RbOk.nodup_slots (h : RbOk cmp t T) : (T.toList.map Prod.fst).Nodup := by
  have hnodup := h.zip.nodup
  rwa [aroundAddrs, Multiset.add_zero, addrs_eq, Multiset.coe_nodup] at hnodup

theorem mem_addrs_iff {a : Addr} : a ∈ addrs T ↔ ∃ y, (a, y) ∈ T.toList := by
  rw [addrs_eq, Multiset.mem_coe, List.mem_map]
  constructor
  · rintro ⟨v, hv, rfl⟩
    exact ⟨v.2, hv⟩
  · rintro ⟨y, hy⟩
    exact ⟨_, hy, rfl⟩

/-- Equal items are in one slot. -/
theorem RbOk.slot_unique (hcmp : Compares cmp) (h : RbOk cmp t T) {u v : Addr × ε} (hu : u ∈ T.toList)
    (hv : v ∈ T.toList) (hzero : cmp u.2 v.2 = 0) : u = v := by
  obtain ⟨L, R, hT⟩ := List.append_of_mem hu
  have hsorted := h.sorted
  rw [hT] at hsorted hv
  have hsides := List.pairwise_append.mp hsorted
  rcases List.mem_append.mp hv with hv | hv
  · have hlt := hsides.2.2 v hv u (List.mem_cons_self ..)
    have hsym := hcmp.eq_zero_symm hzero
    omega
  · rcases List.mem_cons.mp hv with rfl | hv
    · rfl
    · have hlt := (List.pairwise_cons.mp hsides.2.1).1 v hv
      omega

/-- The neighbour of a node is in its near subtree, or beyond its hole. -/
theorem RbOk.neighbour_eq (h : RbOk cmp t T) {c : Color} {v : Addr × ε} {near far : ColorTree (Addr × ε)}
    (hplug : plug fs (fork d c v near far) = T) (hne : v.1 ≠ 0) :
    neighbour d v.1 T.toList = (along d near.toList ++ beyond d fs).head? := by
  have horder : along d T.toList
      = ((beyond (!d) fs).reverse ++ along d far.toList) ++ v :: (along d near.toList ++ beyond d fs) := by
    rw [← hplug, along_plug, along_fork]
    simp
  have hnodup : ((along d T.toList).map Prod.fst).Nodup := by
    rw [map_along]
    cases d with
    | false => exact List.nodup_reverse.mpr h.nodup_slots
    | true => exact h.nodup_slots
  rw [horder, List.map_append, List.map_cons] at hnodup
  rw [neighbour, if_neg hne, horder]
  refine following_split fun hmem => ?_
  exact (List.nodup_append.mp hnodup).2.2 _ hmem _ (List.mem_cons_self ..) rfl

/-! ## §3. Where a traverser stands. -/

/-- `trav` is at `slot`, and its stack is the way there. -/
structure StandsAt (t : RbTable ε) (T : ColorTree (Addr × ε)) (trav : RbTraverser) (slot : Option (Addr × ε)) : Prop where
  node : trav.node = slotAddr slot
  generation : trav.generation = t.generation
  way : ∀ v, slot = some v → ∃ fs c l r, plug fs (.node c l v r) = T ∧ trav.stack = ancestors fs

/-- **What holds of every traverser**: a stack of this generation is the way to its node. -/
structure TravOk (t : RbTable ε) (T : ColorTree (Addr × ε)) (trav : RbTraverser) : Prop where
  generation : trav.generation ≤ t.generation
  way : trav.generation = t.generation → trav.node ≠ 0 →
    ∃ fs c l v r, plug fs (.node c l v r) = T ∧ v.1 = trav.node ∧ trav.stack = ancestors fs

theorem StandsAt.ok (h : StandsAt t T trav slot) : TravOk t T trav := by
  refine ⟨Int.le_of_eq h.generation, fun _ hne => ?_⟩
  cases slot with
  | none => exact absurd h.node hne
  | some v =>
      obtain ⟨fs, c, l, r, hplug, hstack⟩ := h.way v rfl
      exact ⟨fs, c, l, v, r, hplug, h.node.symm, hstack⟩

theorem standsAt_none (t : RbTable ε) (T : ColorTree (Addr × ε)) (stack : List Addr) :
    StandsAt t T ⟨0, stack, t.generation⟩ none :=
  ⟨rfl, rfl, fun _ h => by cases h⟩

/-- A node of the tree, from the side `d`. -/
theorem standsAt_fork {c : Color} {v : Addr × ε} {near far : ColorTree (Addr × ε)}
    (hplug : plug fs (fork d c v near far) = T) : StandsAt t T ⟨v.1, ancestors fs, t.generation⟩ (some v) := by
  refine ⟨rfl, rfl, ?_⟩
  rintro _ ⟨⟩
  cases d with
  | false => exact ⟨fs, c, near, far, hplug, rfl⟩
  | true => exact ⟨fs, c, far, near, hplug, rfl⟩

theorem RbOk.zip_plug (h : RbOk cmp t T) (hplug : plug fs s = T) : Zip t fs s := by
  rw [Rb.zip_plug, hplug]
  exact h.zip

/-- **`rb_t_first` and `rb_t_last`.** -/
theorem travEdge_spec (h : RbOk cmp t T) (hroom : T.height < maxHeight) (d : Bool) :
    ∃ trav, travEdge maxHeight t d = some (trav, (along (!d) T.toList).head?.map Prod.snd) ∧
      StandsAt t T trav (along (!d) T.toList).head? := by
  rw [travEdge, h.zip.root]
  by_cases hT : T = .nil
  · subst hT
    rw [toList_nil, along_nil]
    exact ⟨_, rfl, standsAt_none t _ []⟩
  · have hroot : rootAddr T ≠ 0 := fun h0 => hT (h.zip.holds.rootAddr_eq_zero.mp h0)
    obtain ⟨gs, c, v, far, hplug, hdirs, hdown⟩ := edgeDown_spec d [] h.zip.holds hT (by omega : T.height ≤ maxHeight + 1)
    have hnode := (holds_fork.mp (h.zip_plug hplug).holds).2.1
    have hhead : (along (!d) T.toList).head? = some v := by
      rw [← hplug]
      exact head_edge hdirs
    rw [if_neg hroot, hdown, hhead, List.append_nil]
    refine ⟨⟨v.1, ancestors gs, t.generation⟩, ?_, standsAt_fork hplug⟩
    show (t.nodes v.1).bind _ = _
    rw [hnode]
    rfl

/-- **`trav_refresh`** finds the way to the node again. -/
theorem travRefresh_spec (hcmp : Compares cmp) (h : RbOk cmp t T) (hroom : T.height < maxHeight) {y : ε}
    (hy : (trav.node, y) ∈ T.toList) :
    ∃ trav', travRefresh cmp maxHeight t trav = some trav' ∧ StandsAt t T trav' (some (trav.node, y)) := by
  have hself := hcmp.self y
  have hne : trav.node ≠ 0 := h.zip.holds.ne_zero (mem_addrs_iff.mpr ⟨y, hy⟩)
  obtain ⟨x, hx, rfl⟩ := h.zip.holds.data hy
  rcases h.search hcmp x.data with ⟨fs, c, l, v, r, hsearch, hplug, hzero⟩ | ⟨fs, hsearch, hplug, hL, hR⟩
  · have hv : v ∈ T.toList := by
      rw [← hplug, toList_plug]
      simp
    have hslot : (trav.node, x.data) = v := h.slot_unique hcmp hy hv hzero
    subst hslot
    have hdown := refreshDown_eq [] hx hself h.zip.holds (Nat.le_of_lt hroom) (by rw [hsearch]; rfl) hne
    rw [hsearch, ← h.zip.root] at hdown
    refine ⟨⟨trav.node, ancestors fs, t.generation⟩, ?_, standsAt_fork (d := false) hplug⟩
    rw [travRefresh, if_neg hne]
    show (refreshDown cmp t trav.node maxHeight t.root (ancestors ([] : List (Frame (Addr × ε))))).bind _ = _
    rw [hdown]
    rfl
  · -- the item of the node is in the tree
    rw [← hplug, toList_plug] at hy
    exact absurd hself (search_none hcmp hL hR _ hy)

/-- **`rb_t_find`.** -/
theorem rbTFind_spec (hcmp : Compares cmp) (h : RbOk cmp t T) (hroom : T.height < maxHeight) (item : ε) :
    (∃ trav v, rbTFind cmp maxHeight t item = some (trav, some v.2) ∧ v ∈ T.toList ∧ cmp item v.2 = 0 ∧
        StandsAt t T trav (some v)) ∨
      ∃ trav, rbTFind cmp maxHeight t item = some (trav, none) ∧ (∀ v ∈ T.toList, cmp item v.2 ≠ 0) ∧
        StandsAt t T trav none := by
  have hdown := findDown_eq cmp item [] h.zip.holds (Nat.le_of_lt hroom)
  rw [← h.zip.root] at hdown
  rcases h.search hcmp item with ⟨fs, c, l, v, r, hsearch, hplug, hzero⟩ | ⟨fs, hsearch, hplug, hL, hR⟩
  · left
    have hne : v.1 ≠ 0 := (h.zip_plug hplug).holds.1
    have hnode := (h.zip_plug hplug).holds.2.1
    rw [hsearch, rootAddr_node, if_neg hne] at hdown
    refine ⟨⟨v.1, ancestors fs, t.generation⟩, v, ?_, ?_, hzero, standsAt_fork (d := false) hplug⟩
    · show (findDown cmp t item maxHeight t.root (ancestors ([] : List (Frame (Addr × ε))))).bind _ = _
      rw [hdown, Option.bind_some]
      show (if v.1 = 0 then _ else (t.nodes v.1).bind _) = _
      rw [if_neg hne, hnode]
      rfl
    · rw [← hplug, toList_plug]
      simp
  · right
    rw [hsearch] at hdown
    refine ⟨⟨0, [], t.generation⟩, ?_, ?_, standsAt_none t T []⟩
    · show (findDown cmp t item maxHeight t.root (ancestors ([] : List (Frame (Addr × ε))))).bind _ = _
      rw [hdown]
      rfl
    · rw [← hplug, toList_plug]
      exact search_none hcmp hL hR

/-! ## §4. The next item. -/

/-- The node that a traverser stands at. -/
theorem StandsAt.node_live {v : Addr × ε} (hat : StandsAt t T trav (some v)) (h : RbOk cmp t T) :
    v.1 ≠ 0 ∧ ∃ n, t.nodes v.1 = some n ∧ n.data = v.2 := by
  obtain ⟨fs, c, l, r, hplug, -⟩ := hat.way v rfl
  have hholds := (h.zip_plug hplug).holds
  exact ⟨hholds.1, _, hholds.2.1, rfl⟩

/-- Down into the near subtree. -/
theorem step_down (h : RbOk cmp t T) (hroom : T.height < maxHeight) {c : Color} {v : Addr × ε}
    {near far : ColorTree (Addr × ε)} (hplug : plug fs (fork d c v near far) = T) (hne : near ≠ .nil) :
    ∃ (w : Addr × ε) (stack : List Addr), (along d near.toList ++ beyond d fs).head? = some w ∧
      (ancestors fs).length < maxHeight ∧
      edgeDown t (!d) (maxHeight - ((ancestors fs).length + 1)) (rootAddr near) (v.1 :: ancestors fs)
        = some (w.1, stack) ∧
      StandsAt t T ⟨w.1, stack, t.generation⟩ (some w) := by
  have hholds := holds_fork.mp (h.zip_plug hplug).holds
  have hheight : fs.length + (near.height + 1) ≤ T.height := by
    have hle : fs.length + (fork d c v near far).height ≤ (plug fs (fork d c v near far)).height := length_add_height_le
    rw [hplug, height_fork] at hle
    omega
  have hlength : (ancestors fs).length = fs.length := List.length_map _
  have hnear : near.height ≤ maxHeight - ((ancestors fs).length + 1) + 1 := by omega
  obtain ⟨gs, c', w, far', hgs, hdirs, hdown⟩ := edgeDown_spec (!d) (v.1 :: ancestors fs) hholds.2.2.1 hne hnear
  have hplug' : plug (gs ++ ⟨d, c, v, far⟩ :: fs) (fork (!d) c' w .nil far') = T := by
    rw [plug_append, hgs]
    exact hplug
  have hhead : (along d near.toList).head? = some w := by
    have hedge : (along (!!d) (plug gs (fork (!d) c' w .nil far')).toList).head? = some w := head_edge hdirs
    rwa [hgs, Bool.not_not] at hedge
  refine ⟨w, ancestors (gs ++ ⟨d, c, v, far⟩ :: fs), ?_, by omega, ?_, standsAt_fork hplug'⟩
  · rw [List.head?_append, hhead]
    rfl
  · rw [hdown]
    simp [ancestors]

/-- Up, where the near subtree is empty. -/
theorem step_up (h : RbOk cmp t T) {c : Color} {v : Addr × ε} {far : ColorTree (Addr × ε)}
    (hplug : plug fs (fork d c v .nil far) = T) :
    (beyond d fs = [] ∧ climb t d v.1 (ancestors fs) = some (0, [])) ∨
      ∃ (w : Addr × ε) (stack : List Addr), (beyond d fs).head? = some w ∧
        climb t d v.1 (ancestors fs) = some (w.1, stack) ∧ StandsAt t T ⟨w.1, stack, t.generation⟩ (some w) := by
  have hclimb := climb_spec d (h.zip_plug hplug) fork_ne_nil
  rw [rootAddr_fork] at hclimb
  rcases hclimb with hnone | ⟨gs, f, rest, rfl, hdirs, hdir, hclimb⟩
  · exact Or.inl hnone
  · right
    have hplug' : plug rest (fork f.dir f.color f.value (plug gs (fork d c v .nil far)) f.other) = T := by
      rw [← hplug, plug_append]
      rfl
    refine ⟨f.value, ancestors rest, ?_, hclimb, standsAt_fork hplug'⟩
    rw [beyond_append hdirs, beyond_other hdir]
    rfl

/-- `rb_t_next` and `rb_t_prev`, behind the refresh. -/
theorem travStep_fresh (h : RbOk cmp t T) (hroom : T.height < maxHeight) (d : Bool) {v : Addr × ε}
    (hat : StandsAt t T trav (some v)) :
    ∃ trav', travStep cmp maxHeight t d trav = some (trav', (neighbour d v.1 T.toList).map Prod.snd) ∧
      StandsAt t T trav' (neighbour d v.1 T.toList) := by
  have hne := (hat.node_live h).1
  obtain ⟨fs, c', l, r, hplug, hstack⟩ := hat.way v rfl
  obtain ⟨node, stack, generation⟩ := trav
  obtain rfl : node = v.1 := hat.node
  obtain rfl : generation = t.generation := hat.generation
  obtain rfl : stack = ancestors fs := hstack
  obtain ⟨c, near, far, hfork⟩ : ∃ c near far, ColorTree.node c' l v r = fork d c v near far := by
    cases d with
    | false => exact ⟨c', l, r, rfl⟩
    | true => exact ⟨c', r, l, rfl⟩
  rw [hfork] at hplug
  have hholds := holds_fork.mp (h.zip_plug hplug).holds
  have hfrom : stepFrom maxHeight t d v.1 (ancestors fs)
      = if rootAddr near ≠ 0 then
          if (ancestors fs).length < maxHeight then
            edgeDown t (!d) (maxHeight - ((ancestors fs).length + 1)) (rootAddr near) (v.1 :: ancestors fs)
          else none
        else climb t d v.1 (ancestors fs) := by
    rw [stepFrom, hholds.2.1]
    show (if links d (rootAddr near) (rootAddr far) d ≠ 0 then _ else _) = _
    simp only [links_near]
  have hstep : travStep cmp maxHeight t d ⟨v.1, ancestors fs, t.generation⟩
      = (stepFrom maxHeight t d v.1 (ancestors fs)).bind fun xs =>
          if xs.1 = 0 then some (⟨0, xs.2, t.generation⟩, none)
          else (t.nodes xs.1).bind fun n => some (⟨xs.1, xs.2, t.generation⟩, some n.data) := by
    rw [travStep, travFresh, if_neg (not_not.mpr rfl)]
    exact if_neg hne
  rw [hstep, hfrom, h.neighbour_eq hplug hne]
  by_cases hnear : near = .nil
  · subst hnear
    rw [rootAddr_nil, if_neg (not_not.mpr rfl), toList_nil, along_nil, List.nil_append]
    rcases step_up h hplug with ⟨hnone, hclimb⟩ | ⟨w, stack, hhead, hclimb, hw⟩
    · rw [hclimb, hnone]
      exact ⟨_, rfl, standsAt_none t T []⟩
    · obtain ⟨hw0, n, hn, hdata⟩ := hw.node_live h
      rw [hclimb, hhead, Option.bind_some, if_neg hw0, hn, Option.bind_some, hdata]
      exact ⟨_, rfl, hw⟩
  · have hlink : rootAddr near ≠ 0 := fun h0 => hnear (hholds.2.2.1.rootAddr_eq_zero.mp h0)
    obtain ⟨w, stack, hhead, hlength, hdown, hw⟩ := step_down h hroom hplug hnear
    obtain ⟨hw0, n, hn, hdata⟩ := hw.node_live h
    rw [if_pos hlink, if_pos hlength, hdown, hhead, Option.bind_some, if_neg hw0, hn, Option.bind_some, hdata]
    exact ⟨_, rfl, hw⟩

/-- **`rb_t_next` and `rb_t_prev`** go to the neighbour of their node in the table
as it is now. -/
theorem travStep_spec (hcmp : Compares cmp) (h : RbOk cmp t T) (hroom : T.height < maxHeight) (d : Bool)
    (hok : TravOk t T trav) (hnode : trav.node = 0 ∨ trav.node ∈ addrs T) :
    ∃ trav', travStep cmp maxHeight t d trav = some (trav', (neighbour d trav.node T.toList).map Prod.snd) ∧
      StandsAt t T trav' (neighbour d trav.node T.toList) := by
  by_cases h0 : trav.node = 0
  · have hstep : travStep cmp maxHeight t d trav = travEdge maxHeight t (!d) := by
      by_cases hfresh : trav.generation = t.generation
      · rw [travStep, travFresh, if_neg (not_not.mpr hfresh)]
        exact if_pos h0
      · rw [travStep, travFresh, if_pos hfresh, travRefresh, if_pos h0]
        exact if_pos h0
    rw [hstep, neighbour, if_pos h0]
    have hedge := travEdge_spec h hroom (!d)
    rwa [Bool.not_not] at hedge
  · obtain ⟨y, hy⟩ := mem_addrs_iff.mp (hnode.resolve_left h0)
    by_cases hfresh : trav.generation = t.generation
    · obtain ⟨fs, c, l, v, r, hplug, hv, hstack⟩ := hok.way hfresh h0
      have hat : StandsAt t T trav (some v) := by
        refine ⟨hv.symm, hfresh, ?_⟩
        rintro _ ⟨⟩
        exact ⟨fs, c, l, r, hplug, hstack⟩
      rw [← hv]
      exact travStep_fresh h hroom d hat
    · obtain ⟨trav', hrefresh, hat⟩ := travRefresh_spec hcmp h hroom hy
      have hstep : travStep cmp maxHeight t d trav = travStep cmp maxHeight t d trav' := by
        rw [travStep, travStep, travFresh, if_pos hfresh, hrefresh, travFresh, if_neg (not_not.mpr hat.generation)]
      rw [hstep]
      exact travStep_fresh h hroom d hat

end LzLib.Rb
