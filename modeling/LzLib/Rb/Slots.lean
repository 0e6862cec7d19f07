/-
  LzLib.Rb.Slots
  ──────────────
  **THE SLOTS OF A TABLE.**

  A slot is an address and the item there; a table is its slots in the order of
  the items.  The calls of `RbRuns` are told here slot by slot, and the write of an
  item into a slot is shown to leave the tree, and with it every stack of a traverser.
-/
import LzLib.Rb.Walking
import LzLib.Foundation.Assoc

namespace LzLib.Rb

open LzLib.Foundation LzLib.Foundation.ColorTree

variable {ε : Type}

/-! ## §1. Lists of slots. -/

section Lists

variable (cmp : ε → ε → Int)

/-- Slots are compared by their items. -/
def onItem (a b : Addr × ε) : Int := cmp a.2 b.2

/-- The slot with the item that is equal to `item`. -/
def slotOf (item : ε) (L : List (Addr × ε)) : Option (Addr × ε) := L.find? fun s => cmp item s.2 = 0

/-- The slots with one for `item`, and that one. -/
def slotProbe (L : List (Addr × ε)) (item : ε) (alloc : Option Addr) : List (Addr × ε) × Option (Addr × ε) :=
  match slotOf cmp item L with
  | some s => (L, some s)
  | none =>
      match alloc with
      | some n => (insertInto (onItem cmp) (n, item) L, some (n, item))
      | none => (L, none)

/-- The slots with `item` in the slot of an equal one, or in one of its own; the item
that it replaces. -/
def slotReplace [DecidableEq ε] (L : List (Addr × ε)) (item : ε) (alloc : Option Addr) : List (Addr × ε) × Option ε :=
  match slotOf cmp item L with
  | some s => (assocSet L s.1 item, if s.2 = item then none else some s.2)
  | none => ((slotProbe cmp L item alloc).1, none)

/-- The slots without the one whose item is equal to `item`. -/
def slotDelete (item : ε) (L : List (Addr × ε)) : List (Addr × ε) := L.eraseP fun s => cmp item s.2 = 0

end Lists

variable {cmp : ε → ε → Int} {maxHeight : Nat} {t t' : RbTable ε} {T T' : ColorTree (Addr × ε)} {trav : RbTraverser}
  {item y : ε} {p : Addr} {L R : List (Addr × ε)}

/-! ## §2. The calls. -/

theorem onItem_compares (hcmp : Compares cmp) : Compares (onItem cmp) where
  swap := hcmp.swap
  trans := hcmp.trans
  zero_trans := hcmp.zero_trans

theorem slotOf_eq (hcmp : Compares cmp) (h : Ordered (onItem cmp) (L ++ (p, y) :: R)) (hzero : cmp item y = 0) :
    slotOf cmp item (L ++ (p, y) :: R) = some (p, y) := by
  have hmember : memberOf (onItem cmp) (p, item) (L ++ (p, y) :: R) = some (p, y) :=
    h.memberOf_eq (onItem_compares hcmp) hzero
  exact hmember

theorem slotOf_eq_none (h : ∀ v ∈ L, cmp item v.2 ≠ 0) : slotOf cmp item L = none := by
  have hmember : memberOf (onItem cmp) (0, item) L = none := memberOf_eq_none h
  exact hmember

theorem slotDelete_eq (hcmp : Compares cmp) (h : Ordered (onItem cmp) (L ++ (p, y) :: R)) (hzero : cmp item y = 0) :
    slotDelete cmp item (L ++ (p, y) :: R) = L ++ R := by
  have hremove : removeFrom (onItem cmp) (p, item) (L ++ (p, y) :: R) = L ++ R :=
    h.removeFrom_eq (onItem_compares hcmp) hzero
  exact hremove

theorem slotDelete_none (h : ∀ v ∈ L, cmp item v.2 ≠ 0) : slotDelete cmp item L = L := by
  have hremove : removeFrom (onItem cmp) (0, item) L = L := removeFrom_of_none h
  exact hremove

theorem slotProbe_found {v : Addr × ε} {alloc : Option Addr} (h : slotOf cmp item L = some v) :
    slotProbe cmp L item alloc = (L, some v) := by
  unfold slotProbe
  rw [h]

theorem slotProbe_new {n : Addr} (h : slotOf cmp item L = none) :
    slotProbe cmp L item (some n) = (insertInto (onItem cmp) (n, item) L, some (n, item)) := by
  unfold slotProbe
  rw [h]

theorem slotProbe_failed (h : slotOf cmp item L = none) : slotProbe cmp L item none = (L, none) := by
  unfold slotProbe
  rw [h]

theorem slotReplace_found [DecidableEq ε] {v : Addr × ε} {alloc : Option Addr} (h : slotOf cmp item L = some v) :
    slotReplace cmp L item alloc = (assocSet L v.1 item, if v.2 = item then none else some v.2) := by
  unfold slotReplace
  rw [h]

theorem slotReplace_new [DecidableEq ε] {alloc : Option Addr} (h : slotOf cmp item L = none) :
    slotReplace cmp L item alloc = ((slotProbe cmp L item alloc).1, none) := by
  unfold slotReplace
  rw [h]

/-- The table is as it was, or of the next generation. -/
def Onwards (t : RbTable ε) (T : ColorTree (Addr × ε)) (t' : RbTable ε) (T' : ColorTree (Addr × ε)) : Prop :=
  (t' = t ∧ T' = T) ∨ t'.generation = t.generation + 1

/-- A traverser of an older generation promises nothing of its stack. -/
theorem TravOk.onwards (h : TravOk t T trav) (ho : Onwards t T t' T') : TravOk t' T' trav := by
  rcases ho with ⟨rfl, rfl⟩ | hgen
  · exact h
  · have hle := h.generation
    refine ⟨by omega, fun heq => ?_⟩
    omega

/-- **`rb_probe`, slot by slot.** -/
theorem rbProbe_slots (hcmp : Compares cmp) (h : RbOk cmp t T) {alloc : Option Addr}
    (hallowed : rbAllowed maxHeight t (.probe item alloc)) :
    ∃ t' T', rbProbe cmp maxHeight t item alloc = some (t', (slotProbe cmp T.toList item alloc).2.map Prod.fst) ∧
      RbOk cmp t' T' ∧ T'.toList = (slotProbe cmp T.toList item alloc).1 ∧ Onwards t T t' T' ∧
      ∀ v, (slotProbe cmp T.toList item alloc).2 = some v → v ∈ T'.toList := by
  have hroom := h.height_lt hallowed.1
  have halloc : ∀ n, alloc = some n → n ≠ 0 ∧ t.nodes n = none := by
    rintro n rfl
    exact hallowed.2
  rcases rbProbe_spec hcmp h hroom item halloc with ⟨p, y, hp, hzero, hprobe⟩ | ⟨L, R, hT, hL, hR, hcase⟩
  · obtain ⟨L, R, hT⟩ := List.append_of_mem hp
    have hslot : slotOf cmp item T.toList = some (p, y) := by
      have hordered : Ordered (onItem cmp) T.toList := h.sorted
      rw [hT] at hordered ⊢
      exact slotOf_eq hcmp hordered hzero
    rw [slotProbe_found hslot]
    refine ⟨t, T, hprobe, h, rfl, Or.inl ⟨rfl, rfl⟩, ?_⟩
    rintro _ ⟨⟩
    exact hp
  · have hnone : slotOf cmp item T.toList = none := by
      rw [hT]
      exact slotOf_eq_none (search_none hcmp hL hR)
    cases alloc with
    | none =>
        rw [slotProbe_failed hnone]
        exact ⟨t, T, hcase, h, rfl, Or.inl ⟨rfl, rfl⟩, fun v hv => by cases hv⟩
    | some n =>
        obtain ⟨t', T', hprobe, h', hT', hgen⟩ := hcase
        rw [slotProbe_new hnone]
        refine ⟨t', T', hprobe, h', ?_, Or.inr hgen, ?_⟩
        · show T'.toList = insertInto (onItem cmp) (n, item) T.toList
          rw [hT', hT]
          exact (insertInto_eq (onItem_compares hcmp) hL hR).symm
        · rintro _ ⟨⟩
          rw [hT']
          simp

/-- **`rb_delete`, slot by slot.** -/
theorem rbDelete_slots (hcmp : Compares cmp) (h : RbOk cmp t T) (hallowed : rbAllowed maxHeight t (.delete item)) :
    ∃ t' T', rbDelete cmp maxHeight t item = some (t', (slotOf cmp item T.toList).map Prod.snd) ∧ RbOk cmp t' T' ∧
      T'.toList = slotDelete cmp item T.toList ∧ Onwards t T t' T' := by
  rcases rbDelete_spec hcmp h (h.height_lt hallowed.1) item with
    ⟨hnone, hdelete⟩ | ⟨t', T', L, p, y, R, hdelete, h', hT, hzero, hT', -, hgen⟩
  · rw [slotOf_eq_none hnone, slotDelete_none hnone]
    exact ⟨t, T, hdelete, h, rfl, Or.inl ⟨rfl, rfl⟩⟩
  · have hordered : Ordered (onItem cmp) T.toList := h.sorted
    rw [hT] at hordered ⊢
    rw [slotOf_eq hcmp hordered hzero, slotDelete_eq hcmp hordered hzero]
    exact ⟨t', T', hdelete, h', hT', Or.inr hgen⟩

/-- `rb_find`, slot by slot. -/
theorem rbFind_slots (hcmp : Compares cmp) (h : RbOk cmp t T) (item : ε) :
    rbFind cmp t item = some ((slotOf cmp item T.toList).map Prod.snd) := by
  rw [rbFind_spec hcmp h item, memberOf, items, List.find?_map]
  rfl

/-! ## §3. Another item in a slot. -/

/-- The item of the slot at `a` becomes `new`. -/
def retag (a : Addr) (new : ε) (v : Addr × ε) : Addr × ε := if v.1 = a then (a, new) else v

theorem retag_fst (a : Addr) (new : ε) (v : Addr × ε) : (retag a new v).1 = v.1 := by
  unfold retag
  split
  next h => exact h.symm
  next => rfl

theorem rootAddr_retag (a : Addr) (new : ε) : rootAddr (T.map (retag a new)) = rootAddr T := by
  cases T with
  | nil => rfl
  | node c l v r => exact retag_fst a new v

theorem keys_retag (a : Addr) (new : ε) (L : List (Addr × ε)) : (L.map (retag a new)).map Prod.fst = L.map Prod.fst := by
  rw [List.map_map]
  exact List.map_congr_left fun v _ => retag_fst a new v

theorem addrs_retag (a : Addr) (new : ε) : addrs (T.map (retag a new)) = addrs T := by
  rw [addrs_eq, addrs_eq, toList_map, keys_retag]

theorem ancestors_retag (a : Addr) (new : ε) (fs : List (Frame (Addr × ε))) :
    ancestors (fs.map (Frame.map (retag a new))) = ancestors fs := by
  rw [ancestors, ancestors, List.map_map]
  exact List.map_congr_left fun f _ => retag_fst a new f.value

/-- The write to one node, in the tree. -/
theorem Holds.retagged {a : Addr} {n : RbNode ε} (h : Holds t.nodes T) (hn : t.nodes a = some n) (new : ε) :
    Holds (t.put a { n with data := new }).nodes (T.map (retag a new)) := by
  induction T with
  | nil => trivial
  | node c l v r ihl ihr =>
      obtain ⟨hne, hnode, hl, hr⟩ := h
      refine ⟨(retag_fst a new v).symm ▸ hne, ?_, ihl hl, ihr hr⟩
      rw [rootAddr_retag, rootAddr_retag, retag_fst]
      by_cases hv : v.1 = a
      · subst hv
        rw [hnode, Option.some.injEq] at hn
        rw [RbTable.nodes_put_self, ← hn, retag, if_pos rfl]
      · rw [RbTable.nodes_put_of_ne hv, hnode, retag, if_neg hv]

/-- **An item is replaced**: the tree stays, and so does every stack. -/
theorem RbOk.retagged (h : RbOk cmp t T) {a : Addr} {n : RbNode ε} (hn : t.nodes a = some n) (new : ε)
    (hsorted : (T.toList.map (retag a new)).Pairwise fun u v => cmp u.2 v.2 < 0) :
    RbOk cmp (t.put a { n with data := new }) (T.map (retag a new)) where
  zip := by
    refine ⟨h.zip.holds.retagged hn new, ?_, ?_⟩
    · show t.root = _
      rw [rootAddr_retag]
      exact h.zip.root
    · rw [addrs_retag]
      exact h.zip.nodup
  live x := by
    rw [addrs_retag, ← h.live x]
    by_cases hx : x = a
    · rw [hx, RbTable.nodes_put_self, hn]
      exact ⟨fun _ => rfl, fun _ => rfl⟩
    · rw [RbTable.nodes_put_of_ne hx]
  count := by
    rw [toList_map, List.length_map]
    exact h.count
  redBlack := h.redBlack.map _
  sorted := by
    rw [toList_map]
    exact hsorted

theorem TravOk.retagged (h : TravOk t T trav) {a : Addr} {n : RbNode ε} (new : ε) :
    TravOk (t.put a n) (T.map (retag a new)) trav := by
  refine ⟨h.generation, fun hgen hne => ?_⟩
  obtain ⟨fs, c, l, v, r, hplug, hv, hstack⟩ := h.way hgen hne
  refine ⟨fs.map (Frame.map (retag a new)), c, l.map (retag a new), retag a new v, r.map (retag a new),
    ?_, ?_, ?_⟩
  · rw [← hplug, map_plug]
    rfl
  · rw [retag_fst]
    exact hv
  · rw [ancestors_retag]
    exact hstack

/-- In a list that is cut at the slot, the item changes there. -/
theorem map_retag {a : Addr} {new : ε} (hnodup : ((L ++ (a, y) :: R).map Prod.fst).Nodup) :
    (L ++ (a, y) :: R).map (retag a new) = L ++ (a, new) :: R := by
  obtain ⟨hL, hR⟩ := nodup_split hnodup
  have hsame : ∀ M : List (Addr × ε), a ∉ M.map Prod.fst → M.map (retag a new) = M := fun M hM => replace_of_not_mem hM
  rw [List.map_append, List.map_cons, hsame L hL, hsame R hR]
  exact congrArg (fun v => L ++ v :: R) (if_pos rfl)

theorem assocSet_eq_retag {a : Addr} (new : ε) (ha : a ∈ L.map Prod.fst) : assocSet L a new = L.map (retag a new) :=
  if_pos ha

/-- Where the slots are in order, and the new item keeps to it. -/
theorem ordered_retag {a : Addr} {new : ε} (hordered : Ordered (onItem cmp) (L ++ (a, y) :: R))
    (hL : ∀ u ∈ L, cmp u.2 y < 0 → cmp u.2 new < 0) (hR : ∀ u ∈ R, cmp y u.2 < 0 → cmp new u.2 < 0) :
    Ordered (onItem cmp) (L ++ (a, new) :: R) := by
  obtain ⟨hleft, hright, hcross⟩ := List.pairwise_append.mp hordered
  obtain ⟨hfirst, hrest⟩ := List.pairwise_cons.mp hright
  refine List.pairwise_append.mpr ⟨hleft, List.pairwise_cons.mpr ⟨?_, hrest⟩, ?_⟩
  · intro u hu
    exact hR u hu (hfirst u hu)
  · intro u hu v hv
    rcases List.mem_cons.mp hv with rfl | hv
    · exact hL u hu (hcross u hu _ (List.mem_cons_self ..))
    · exact hcross u hu v (List.mem_cons_of_mem _ hv)

/-- **The write of `rb_t_replace` and `rb_replace`.** -/
theorem RbOk.replace (h : RbOk cmp t T) {a : Addr} (hy : (a, y) ∈ T.toList) {new : ε}
    (hkeeps : ∀ u ∈ T.toList, u.1 ≠ a → (cmp u.2 y < 0 → cmp u.2 new < 0) ∧ (cmp y u.2 < 0 → cmp new u.2 < 0)) :
    ∃ n, t.nodes a = some n ∧ n.data = y ∧ RbOk cmp (t.put a { n with data := new }) (T.map (retag a new)) ∧
      (T.map (retag a new)).toList = assocSet T.toList a new := by
  obtain ⟨n, hn, hdata⟩ := h.zip.holds.data hy
  have hnodup := h.nodup_slots
  obtain ⟨L, R, hT⟩ := List.append_of_mem hy
  have hordered : Ordered (onItem cmp) T.toList := h.sorted
  rw [hT] at hordered hnodup hkeeps
  have hkeys := nodup_split hnodup
  refine ⟨n, hn, hdata, h.retagged hn new ?_, ?_⟩
  · rw [hT, map_retag hnodup]
    refine ordered_retag hordered ?_ ?_
    · intro u hu
      have hne : u.1 ≠ a := fun heq => hkeys.1 (List.mem_map.mpr ⟨u, hu, heq⟩)
      exact (hkeeps u (List.mem_append_left _ hu) hne).1
    · intro u hu
      have hne : u.1 ≠ a := fun heq => hkeys.2 (List.mem_map.mpr ⟨u, hu, heq⟩)
      exact (hkeeps u (List.mem_append_right _ (List.mem_cons_of_mem _ hu)) hne).2
  · rw [toList_map]
    exact (assocSet_eq_retag new (List.mem_map.mpr ⟨_, hy, rfl⟩)).symm

end LzLib.Rb
