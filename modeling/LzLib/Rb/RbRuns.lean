/-
  LzLib.Rb.RbRuns
  ───────────────
  **A TABLE IS A SET IN ORDER.**

  The calls `rb_probe`, `rb_find` and `rb_delete` on a table do, answer for answer,
  what the same calls do on a list of the members in order; no call follows NULL
  or a freed node, and none writes beyond its stack while the table has fewer
  than `2 ^ (maxHeight / 2 + 1) - 2` members.

  Main result: `rb_runs`.
-/
import LzLib.Rb.Delete
import LzLib.Foundation.SortedSets
import LzLib.Foundation.Refinement

namespace LzLib.Rb

open LzLib.Foundation LzLib.Foundation.ColorTree

variable {ε : Type} {cmp : ε → ε → Int} {maxHeight : Nat} {t : RbTable ε} {s T : ColorTree (Addr × ε)}
  {fs : List (Frame (Addr × ε))} {item : ε}

/-! ## §1. Finding. -/

/-- The items of a tree, in order. -/
def items (T : ColorTree (Addr × ε)) : List ε := T.toList.map Prod.snd

/-- The item of the root. -/
def rootItem : ColorTree (Addr × ε) → Option ε
  | .nil => none
  | .node _ _ v _ => some v.2

theorem rbFindFrom_eq (cmp : ε → ε → Int) (item : ε) (fs : List (Frame (Addr × ε))) {fuel : Nat} (hs : Holds t.nodes s) (hfuel : s.height < fuel) :
    rbFindFrom cmp t item fuel (rootAddr s) = some (rootItem (descend (cutBy cmp item) fs s).2) := by
  induction s generalizing fs fuel with
  | nil =>
      obtain ⟨fuel, rfl⟩ : ∃ m, fuel = m + 1 := ⟨fuel - 1, by omega⟩
      rfl
  | node c l v r ihl ihr =>
      obtain ⟨fuel, rfl⟩ : ∃ m, fuel = m + 1 := ⟨fuel - 1, by omega⟩
      obtain ⟨hne, hnode, hl, hr⟩ := hs
      rw [height] at hfuel
      rw [descend, cutBy, rootAddr_node, rbFindFrom, if_neg hne, hnode]
      simp only [Option.bind_eq_bind, Option.bind_some]
      rcases Int.lt_trichotomy (cmp item v.2) 0 with hneg | hzero | hpos
      · rw [if_pos hneg, if_neg (Int.ne_of_lt hneg), if_neg (Int.not_lt.mpr (Int.le_of_lt hneg))]
        exact ihl _ hl (by omega)
      · rw [hzero]
        rfl
      · rw [if_neg (Int.not_lt.mpr (Int.le_of_lt hpos)), if_pos hpos, if_neg (Int.ne_of_gt hpos), if_pos hpos]
        exact ihr _ hr (by omega)

theorem RbOk.ordered (h : RbOk cmp t T) : Ordered cmp (items T) := List.pairwise_map.mpr h.sorted

/-- **`rb_find`** finds the equal member. -/
theorem rbFind_spec (hcmp : Compares cmp) (h : RbOk cmp t T) (item : ε) :
    rbFind cmp t item = some (memberOf cmp item (items T)) := by
  have hordered := h.ordered
  have hheight : T.height < t.count + 1 := by
    rw [h.count]
    exact Nat.lt_succ_of_le height_le_length
  rw [rbFind, h.zip.root, rbFindFrom_eq cmp item [] h.zip.holds hheight]
  rcases h.search hcmp item with ⟨fs, c, l, v, r, hsearch, hplug, hzero⟩ | ⟨fs, hsearch, hplug, hL, hR⟩
  · rw [hsearch]
    rw [← hplug, items, toList_plug, toList_node, List.append_assoc, List.cons_append, ← List.append_assoc,
      List.map_append, List.map_cons] at hordered ⊢
    rw [hordered.memberOf_eq hcmp hzero]
    rfl
  · have hnone := search_none hcmp hL hR
    rw [hsearch, memberOf_eq_none]
    · rfl
    · rw [← hplug, items, toList_plug]
      exact List.forall_mem_map.mpr hnone

/-! ## §2. One call. -/

/-- The calls on a table; `alloc` is what the allocator answers. -/
inductive RbCall (ε : Type)
  | probe (item : ε) (alloc : Option Addr)
  | find (item : ε)
  | delete (item : ε)

/-- A call, and the item that it returns or returns a pointer to. -/
def rbCall (cmp : ε → ε → Int) (maxHeight : Nat) (t : RbTable ε) : RbCall ε → Option (RbTable ε × Option ε)
  | .probe item alloc => do
      let (t, p) ← rbProbe cmp maxHeight t item alloc
      match p with
      | none => return (t, none)
      | some p => return (t, some (← t.nodes p).data)
  | .find item => do return (t, ← rbFind cmp t item)
  | .delete item => rbDelete cmp maxHeight t item

/-- The call on the list of the members. -/
def memberCall (cmp : ε → ε → Int) (L : List ε) : RbCall ε → List ε × Option ε
  | .probe item alloc =>
      match memberOf cmp item L with
      | some y => (L, some y)
      | none => if alloc.isSome then (insertInto cmp item L, some item) else (L, none)
  | .find item => (L, memberOf cmp item L)
  | .delete item => (removeFrom cmp item L, memberOf cmp item L)

/-- An allocation answers with NULL or with an address where nothing is live, and
the table is not too large for the stacks. -/
def rbAllowed (maxHeight : Nat) (t : RbTable ε) (call : RbCall ε) : Prop :=
  t.count + 2 < 2 ^ (maxHeight / 2 + 1) ∧
    match call with
    | .probe _ (some n) => n ≠ 0 ∧ t.nodes n = none
    | _ => True

/-- A table and those who call on it. -/
def rbServer (cmp : ε → ε → Int) (maxHeight : Nat) : Server (RbTable ε) (RbCall ε) (Option ε) where
  step := rbCall cmp maxHeight
  allowed := rbAllowed maxHeight

/-- The data of a node of the tree. -/
theorem Holds.data {nodes : Heap (RbNode ε)} (h : Holds nodes s) {p : Addr} {y : ε} (hp : (p, y) ∈ s.toList) :
    ∃ n, nodes p = some n ∧ n.data = y := by
  induction s with
  | nil => cases hp
  | node c l v r ihl ihr =>
      obtain ⟨-, hnode, hl, hr⟩ := h
      rcases List.mem_append.mp hp with hp | hp
      · exact ihl hl hp
      · rcases List.mem_cons.mp hp with rfl | hp
        · exact ⟨_, hnode, rfl⟩
        · exact ihr hr hp

/-- The table is low enough for the stacks. -/
theorem RbOk.height_lt (h : RbOk cmp t T) (hcount : t.count + 2 < 2 ^ (maxHeight / 2 + 1)) : T.height < maxHeight := by
  rw [h.count] at hcount
  have := h.redBlack.height_lt hcount
  omega

/-- **One call** does what it does on the list of the members. -/
theorem rbCall_refines (hcmp : Compares cmp) (h : RbOk cmp t T) {call : RbCall ε} (hallowed : rbAllowed maxHeight t call) :
    ∃ t' T', rbCall cmp maxHeight t call = some (t', (memberCall cmp (items T) call).2) ∧ RbOk cmp t' T' ∧
      items T' = (memberCall cmp (items T) call).1 := by
  have hroom := h.height_lt hallowed.1
  have hordered := h.ordered
  cases call with
  | find item => exact ⟨t, T, by rw [rbCall, rbFind_spec hcmp h]; rfl, h, rfl⟩
  | probe item alloc =>
      have halloc : ∀ n, alloc = some n → n ≠ 0 ∧ t.nodes n = none := by
        rintro n rfl
        exact hallowed.2
      rcases rbProbe_spec hcmp h hroom item halloc with ⟨p, y, hp, hzero, hprobe⟩ | ⟨L, R, hT, hL, hR, hcase⟩
      · obtain ⟨n, hn, hdata⟩ := h.zip.holds.data hp
        obtain ⟨L, R, hT⟩ := List.append_of_mem hp
        have hmember : memberOf cmp item (items T) = some y := by
          rw [items, hT, List.map_append, List.map_cons] at hordered ⊢
          exact hordered.memberOf_eq hcmp hzero
        refine ⟨t, T, ?_, h, by rw [memberCall, hmember]⟩
        simp [rbCall, memberCall, hprobe, hmember, hn, hdata]
      · have hnone : memberOf cmp item (items T) = none := by
          rw [items, hT]
          exact memberOf_eq_none (List.forall_mem_map.mpr (search_none hcmp hL hR))
        cases alloc with
        | none => exact ⟨t, T, by simp [rbCall, memberCall, hnone, hcase], h, by simp [memberCall, hnone]⟩
        | some p =>
            obtain ⟨t', T', hprobe, h', hT', -⟩ := hcase
            obtain ⟨n, hn, hdata⟩ := h'.zip.holds.data (p := p) (y := item) (by simp [hT'])
            refine ⟨t', T', ?_, h', ?_⟩
            · simp [rbCall, memberCall, hprobe, hnone, hn, hdata]
            · rw [memberCall, hnone, items, hT', items, hT, List.map_append, List.map_append, List.map_cons]
              refine (insertInto_eq hcmp ?_ ?_).symm
              · exact List.forall_mem_map.mpr hL
              · exact List.forall_mem_map.mpr hR
  | delete item =>
      rcases rbDelete_spec hcmp h hroom item with ⟨hnone, hdelete⟩ | ⟨t', T', L, p, y, R, hdelete, h', hT, hzero, hT', -⟩
      · have hnone' : ∀ y ∈ items T, cmp item y ≠ 0 := List.forall_mem_map.mpr hnone
        refine ⟨t, T, ?_, h, (removeFrom_of_none hnone').symm⟩
        rw [rbCall, hdelete, memberCall, memberOf_eq_none hnone']
      · rw [items, hT, List.map_append, List.map_cons] at hordered
        refine ⟨t', T', ?_, h', ?_⟩
        · rw [rbCall, hdelete, memberCall, items, hT, List.map_append, List.map_cons]
          rw [hordered.memberOf_eq hcmp hzero]
        · rw [memberCall, items, items, hT, hT', List.map_append, List.map_append, List.map_cons]
          exact (hordered.removeFrom_eq hcmp hzero).symm

/-- `rb_probe`, for a caller that looks only whether there is a pointer. -/
theorem rbProbe_refines (hcmp : Compares cmp) (h : RbOk cmp t T) {alloc : Option Addr}
    (hallowed : rbAllowed maxHeight t (.probe item alloc)) :
    ∃ t' p T', rbProbe cmp maxHeight t item alloc = some (t', p) ∧
      p.isSome = (memberCall cmp (items T) (.probe item alloc)).2.isSome ∧ RbOk cmp t' T' ∧
      items T' = (memberCall cmp (items T) (.probe item alloc)).1 := by
  obtain ⟨t', T', hcall, h', hitems⟩ := rbCall_refines hcmp h hallowed
  obtain ⟨⟨t₁, p⟩, hprobe, hcall⟩ := Option.bind_eq_some_iff.mp hcall
  have hpair : t₁ = t' ∧ p.isSome = (memberCall cmp (items T) (.probe item alloc)).2.isSome := by
    cases p with
    | none =>
        have hsame := Prod.ext_iff.mp (Option.some.inj hcall)
        exact ⟨hsame.1, by rw [← hsame.2]; rfl⟩
    | some p =>
        obtain ⟨n, -, hcall⟩ := Option.bind_eq_some_iff.mp hcall
        have hsame := Prod.ext_iff.mp (Option.some.inj hcall)
        exact ⟨hsame.1, by rw [← hsame.2]; rfl⟩
  exact ⟨t', p, T', hpair.1 ▸ hprobe, hpair.2, h', hitems⟩

/-- The list of the members is the set in order. -/
theorem orderedSets_probe (hcmp : Compares cmp) (L : (orderedSets hcmp).Table) (item : ε) (alloc : Option Addr) :
    ((orderedSets hcmp).items ((orderedSets hcmp).probe L item alloc.isSome).1,
      ((orderedSets hcmp).probe L item alloc.isSome).2) = memberCall cmp ((orderedSets hcmp).items L) (.probe item alloc) := by
  rw [memberCall]
  cases hmember : memberOf cmp item ((orderedSets hcmp).items L) with
  | some y => rw [(orderedSets hcmp).probe_found L item y _ hmember]
  | none =>
      cases alloc with
      | none => rw [Option.isSome_none, (orderedSets hcmp).probe_failed L item hmember]; rfl
      | some n =>
          have hnew : (orderedSets hcmp).probe L item true = (⟨insertInto cmp item L.val, _⟩, some item) :=
            dif_pos (memberOf_eq_none_iff.mp hmember)
          rw [Option.isSome_some, hnew]
          rfl

/-! ## §3. Runs. -/

theorem rb_run_ok (hcmp : Compares cmp) {calls : List (RbCall ε)}
    (hlegal : (rbServer cmp maxHeight).Legal rbCreate calls) :
    ∃ t, (rbServer cmp maxHeight).run rbCreate calls = some (t, (Server.specRun (memberCall cmp) [] calls).2) ∧
      ∃ T, RbOk cmp t T ∧ items T = (Server.specRun (memberCall cmp) [] calls).1 := by
  refine (rbServer cmp maxHeight).run_refines (R := fun t L => ∃ T, RbOk cmp t T ∧ items T = L) ?_
    ⟨.nil, rbCreate_ok, rfl⟩ hlegal
  rintro t _ call ⟨T, h, rfl⟩ hallowed
  obtain ⟨t', T', hcall, h', hitems⟩ := rbCall_refines hcmp h hallowed
  exact ⟨t', hcall, T', h', hitems⟩

/-- **EVERY RUN OF CALLS** on a new table answers as on a set in order: the calls
never get stuck, the table is a red-black tree of the members with no other live
nodes, and its counter is their number. -/
theorem rb_runs (hcmp : Compares cmp) (maxHeight : Nat) {calls : List (RbCall ε)}
    (hlegal : (rbServer cmp maxHeight).Legal rbCreate calls) :
    ∃ t T, (rbServer cmp maxHeight).run rbCreate calls = some (t, (Server.specRun (memberCall cmp) [] calls).2) ∧
      RbOk cmp t T ∧ items T = (Server.specRun (memberCall cmp) [] calls).1 := by
  obtain ⟨t, hrun, T, hok, hitems⟩ := rb_run_ok hcmp hlegal
  exact ⟨t, T, hrun, hok, hitems⟩

/-- Numbers, compared by their difference. -/
def difference (a b : Int) : Int := a - b

theorem difference_compares : Compares difference where
  swap := by unfold difference; omega
  trans := by unfold difference; omega
  zero_trans := by unfold difference; omega

instance (t : RbTable ε) (call : RbCall ε) : Decidable (rbAllowed maxHeight t call) :=
  match call with
  | .probe _ (some n) =>
      decidable_of_iff (t.count + 2 < 2 ^ (maxHeight / 2 + 1) ∧ n ≠ 0 ∧ (t.nodes n).isNone) (by simp [rbAllowed])
  | .probe _ none => decidable_of_iff (t.count + 2 < 2 ^ (maxHeight / 2 + 1)) (by simp [rbAllowed])
  | .find _ => decidable_of_iff (t.count + 2 < 2 ^ (maxHeight / 2 + 1)) (by simp [rbAllowed])
  | .delete _ => decidable_of_iff (t.count + 2 < 2 ^ (maxHeight / 2 + 1)) (by simp [rbAllowed])

instance (t : RbTable ε) (call : RbCall ε) : Decidable ((rbServer cmp maxHeight).allowed t call) :=
  inferInstanceAs (Decidable (rbAllowed maxHeight t call))

/-- Four members in, the root out. -/
def difference_calls : List (RbCall Int) :=
  [.probe 1 (some 16), .probe 2 (some 32), .probe 3 (some 48), .probe 4 (some 64), .probe 3 (some 80), .delete 2, .find 4]

theorem difference_legal : (rbServer difference rbMaxHeight).Legal rbCreate difference_calls := by
  refine Server.legal_of_check _ ?_
  decide +kernel

theorem rb_runs_difference :
    ∃ t T, (rbServer difference rbMaxHeight).run rbCreate difference_calls
        = some (t, [some 1, some 2, some 3, some 4, some 3, some 2, some 4]) ∧
      RbOk difference t T ∧ items T = [1, 3, 4] :=
  rb_runs difference_compares rbMaxHeight difference_legal

end LzLib.Rb
