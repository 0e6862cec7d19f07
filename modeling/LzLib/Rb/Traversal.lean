/-
  LzLib.Rb.Traversal
  ──────────────────
  **A TRAVERSAL WHILE THE TABLE CHANGES.**

  A traverser goes by `rb_t_next` from `rb_t_init` to the NULL at the end.  Between
  its steps other callers probe, insert and delete, and other traversers move; only
  the item that it is at is not deleted, and items are replaced by equal ones.  Then
  what it returns is in ascending order, and no item is missed that was in the table
  all the time.

  Main result: `rb_traversal`.
-/
import LzLib.Rb.TraverserRuns

namespace LzLib.Rb

open LzLib.Foundation LzLib.Foundation.ColorTree

variable {ε ι : Type}

/-! ## §1. What the others may do. -/

section Promises

variable [DecidableEq ε] [DecidableEq ι] (cmp : ε → ε → Int) (maxHeight : Nat) (i : ι)

/-- A call does not disturb the traverser `i`: no other call moves it, the item
that it is at is not deleted, and items are replaced by equal ones. -/
def Lets (s : Traversed ε ι) : TravCall ε ι → Prop
  | .table (.delete item) => ∀ y, rbTCur s.table (s.travs i) = some (some y) → cmp item y ≠ 0
  | .replace j new => ∀ y, rbTCur s.table (s.travs j) = some (some y) → cmp new y = 0
  | .init j => j ≠ i
  | .first j => j ≠ i
  | .last j => j ≠ i
  | .find j _ => j ≠ i
  | .insert j _ _ => j ≠ i
  | .copy j _ => j ≠ i
  | .prev j => j ≠ i
  | _ => True

/-- A traversal by `i`, and everybody else. -/
def traversal : Server (Traversed ε ι) (TravCall ε ι) (Option ε) where
  step := travCall cmp maxHeight
  allowed s call := travAllowed cmp maxHeight s call ∧ Lets cmp i s call

/-- `rb_t_next (i)`. -/
def isNext : TravCall ε ι → Bool
  | .next j => j = i
  | _ => false

/-- What the calls of `rb_t_next (i)` have returned. -/
def heard (calls : List (TravCall ε ι)) (answers : List (Option ε)) : List (Option ε) :=
  ((calls.zip answers).filter fun c => isNext i c.1).map Prod.snd

/-- In every state along the calls `rb_find` finds `x` itself. -/
def Stays (s : Traversed ε ι) (calls : List (TravCall ε ι)) (x : ε) : Prop :=
  ∀ k s' ys, (traversal cmp maxHeight i).run s (calls.take k) = some (s', ys) → rbFind cmp s'.table x = some (some x)

end Promises

/-! ## §2. Where the traversal is. -/

/-- It is at the last item of `vs`, or at one that is equal; nothing was returned: at none. -/
def SweptTo (cmp : ε → ε → Int) (a : Addr) (L : List (Addr × ε)) (vs : List ε) : Prop :=
  (vs = [] ∧ a = 0) ∨ ∃ us y z, vs = us ++ [y] ∧ (a, z) ∈ L ∧ cmp z y = 0

/-- `x` was returned, or is still to come. -/
def Ahead (cmp : ε → ε → Int) (vs : List ε) (x : ε) : Prop := x ∈ vs ∨ ∀ us y, vs = us ++ [y] → cmp y x < 0

variable {cmp : ε → ε → Int} {maxHeight : Nat} {i : ι} {s : Traversed ε ι} {w : Marked ε ι}
  {T : ColorTree (Addr × ε)} {L L' : List (Addr × ε)} {a : Addr} {v : Addr × ε} {x y z : ε} {vs us : List ε}

theorem last_eq {us us' : List ε} (h : us ++ [x] = us' ++ [y]) : x = y :=
  List.singleton_injective (List.append_inj' h rfl).2

theorem ahead_nil : Ahead cmp [] x := Or.inr fun us y h => absurd h.symm (List.append_ne_nil_of_right_ne_nil us (List.cons_ne_nil y []))

/-- Nothing that is returned comes before the last item. -/
theorem ordered_append (hcmp : Compares cmp) (hvs : Ordered cmp (us ++ [y])) (hyx : cmp y x < 0) :
    Ordered cmp (us ++ [y] ++ [x]) := by
  obtain ⟨hus, -, hlast⟩ := List.pairwise_append.mp hvs
  refine List.pairwise_append.mpr ⟨hvs, List.pairwise_singleton _ _, ?_⟩
  intro u hu b hb
  rw [List.mem_singleton.mp hb]
  rcases List.mem_append.mp hu with hu | hu
  · exact hcmp.trans (hlast u hu y (List.mem_singleton_self y)) hyx
  · rw [List.mem_singleton.mp hu]
    exact hyx

/-- What the first step goes to. -/
theorem first_step (hordered : Ordered (onItem cmp) L) (hhead : L.head? = some v) (hx : x ∈ L.map Prod.snd) :
    Ahead cmp [v.2] x := by
  obtain ⟨R, rfl⟩ : ∃ R, L = v :: R := by
    cases L with
    | nil => cases hhead
    | cons u R => exact ⟨R, by rw [Option.some.inj hhead]⟩
  obtain ⟨u, hu, rfl⟩ := List.mem_map.mp hx
  rcases List.mem_cons.mp hu with rfl | hu
  · exact Or.inl (List.mem_singleton_self _)
  · right
    intro us y hys
    have hlt : cmp v.2 u.2 < 0 := (List.pairwise_cons.mp hordered).1 u hu
    have hys : [] ++ [v.2] = us ++ [y] := hys
    rw [← last_eq hys]
    exact hlt

/-- What is behind the slot that it is at. -/
theorem behind_of_ahead (hcmp : Compares cmp) {A B : List (Addr × ε)}
    (hordered : Ordered (onItem cmp) (A ++ (a, z) :: B)) (hzero : cmp z y = 0) (hyx : cmp y x < 0)
    (hx : x ∈ (A ++ (a, z) :: B).map Prod.snd) : ∃ u ∈ B, u.2 = x := by
  have hzx : cmp z x < 0 := (hcmp.keeps hzero x).2 hyx
  obtain ⟨hA, hB, hcross⟩ := List.pairwise_append.mp hordered
  obtain ⟨u, hu, rfl⟩ := List.mem_map.mp hx
  rcases List.mem_append.mp hu with hu | hu
  · have hlt : cmp u.2 z < 0 := hcross u hu _ (List.mem_cons_self ..)
    have hgt := hcmp.swap.mp hlt
    omega
  · rcases List.mem_cons.mp hu with rfl | hu
    · have hself := hcmp.self z
      have hzx : cmp z z < 0 := hzx
      omega
    · exact ⟨u, hu, rfl⟩

/-- **One step** returns the next item, and skips none that stays. -/
theorem sweep_step (hcmp : Compares cmp) (hordered : Ordered (onItem cmp) L) (hnodup : (L.map Prod.fst).Nodup)
    (hpos : ∀ u ∈ L, u.1 ≠ 0) (hvs : Ordered cmp vs) (hat : SweptTo cmp a L vs) (hnext : neighbour true a L = some v) :
    Ordered cmp (vs ++ [v.2]) ∧ SweptTo cmp v.1 L (vs ++ [v.2]) ∧
      ∀ x, Ahead cmp vs x → x ∈ L.map Prod.snd → Ahead cmp (vs ++ [v.2]) x := by
  rcases hat with ⟨rfl, rfl⟩ | ⟨us, y, z, rfl, hz, hzero⟩
  · have hhead : L.head? = some v := by
      rw [neighbour, if_pos rfl] at hnext
      exact hnext
    have hv : v ∈ L := List.mem_of_mem_head? hhead
    refine ⟨List.pairwise_singleton _ _, Or.inr ⟨[], v.2, v.2, rfl, hv, hcmp.self v.2⟩, fun x _ hx => ?_⟩
    exact first_step hordered hhead hx
  · obtain ⟨A, B, rfl⟩ := List.append_of_mem hz
    rw [neighbour, if_neg (hpos _ hz), along_up, following_split (nodup_split hnodup).1] at hnext
    obtain ⟨R, rfl⟩ : ∃ R, B = v :: R := by
      cases B with
      | nil => cases hnext
      | cons u R => exact ⟨R, by rw [Option.some.inj hnext]⟩
    obtain ⟨hfirst, hrest⟩ := List.pairwise_cons.mp (List.pairwise_append.mp hordered).2.1
    have hzv : cmp z v.2 < 0 := hfirst v (List.mem_cons_self ..)
    have hyv : cmp y v.2 < 0 := (hcmp.keeps (hcmp.eq_zero_symm hzero) v.2).2 hzv
    have hv : v ∈ A ++ (a, z) :: v :: R := by simp
    refine ⟨ordered_append hcmp hvs hyv, Or.inr ⟨us ++ [y], v.2, v.2, rfl, hv, hcmp.self v.2⟩, fun x hahead hx => ?_⟩
    rcases hahead with hmem | hahead
    · exact Or.inl (List.mem_append_left _ hmem)
    · obtain ⟨u, hu, rfl⟩ := behind_of_ahead hcmp hordered hzero (hahead us y rfl) hx
      rcases List.mem_cons.mp hu with rfl | hu
      · exact Or.inl (List.mem_append_right _ (List.mem_singleton_self _))
      · right
        intro us' y' hys
        rw [← last_eq hys]
        exact (List.pairwise_cons.mp hrest).1 u hu

/-- **At the end** nothing that stays is still to come. -/
theorem sweep_end (hcmp : Compares cmp) (hordered : Ordered (onItem cmp) L) (hnodup : (L.map Prod.fst).Nodup)
    (hpos : ∀ u ∈ L, u.1 ≠ 0) (hat : SweptTo cmp a L vs) (hnext : neighbour true a L = none) (hahead : Ahead cmp vs x)
    (hx : x ∈ L.map Prod.snd) : x ∈ vs := by
  rcases hat with ⟨rfl, rfl⟩ | ⟨us, y, z, rfl, hz, hzero⟩
  · rw [neighbour, if_pos rfl, along_up, List.head?_eq_none_iff] at hnext
    rw [hnext] at hx
    exact absurd hx List.not_mem_nil
  · rcases hahead with hmem | hahead
    · exact hmem
    · obtain ⟨A, B, rfl⟩ := List.append_of_mem hz
      rw [neighbour, if_neg (hpos _ hz), along_up, following_split (nodup_split hnodup).1, List.head?_eq_none_iff] at hnext
      obtain ⟨u, hu, -⟩ := behind_of_ahead hcmp hordered hzero (hahead us y rfl) hx
      rw [hnext] at hu
      exact absurd hu List.not_mem_nil

/-! ## §3. Other calls. -/

/-- The slot that the traverser is at is still there, with an equal item. -/
def Remains (cmp : ε → ε → Int) (a : Addr) (L L' : List (Addr × ε)) : Prop :=
  ∀ z, (a, z) ∈ L → ∃ z', (a, z') ∈ L' ∧ cmp z' z = 0

theorem Remains.same (hcmp : Compares cmp) (a : Addr) (h : ∀ z, (a, z) ∈ L → (a, z) ∈ L') : Remains cmp a L L' :=
  fun z hz => ⟨z, h z hz, hcmp.self z⟩

theorem SweptTo.remains (hcmp : Compares cmp) (h : SweptTo cmp a L vs) (hremains : Remains cmp a L L') :
    SweptTo cmp a L' vs := by
  rcases h with h | ⟨us, y, z, hvs, hz, hzero⟩
  · exact Or.inl h
  · obtain ⟨z', hz', hzero'⟩ := hremains z hz
    exact Or.inr ⟨us, y, z', hvs, hz', hcmp.zero_trans hzero' hzero⟩

theorem remains_probe (hcmp : Compares cmp) (a : Addr) (L : List (Addr × ε)) (item : ε) (alloc : Option Addr) :
    Remains cmp a L (slotProbe cmp L item alloc).1 := by
  refine Remains.same hcmp a fun z hz => ?_
  cases hslot : slotOf cmp item L with
  | some u =>
      rw [slotProbe_found hslot]
      exact hz
  | none =>
      cases alloc with
      | none =>
          rw [slotProbe_failed hslot]
          exact hz
      | some n =>
          rw [slotProbe_new hslot]
          exact insertInto_perm.mem_iff.mpr (List.mem_cons_of_mem _ hz)

/-- An item is written over an equal one. -/
theorem remains_set (hcmp : Compares cmp) {b : Addr} {new : ε} (hb : (b, y) ∈ L) (hnodup : (L.map Prod.fst).Nodup)
    (hzero : cmp new y = 0) : Remains cmp a L (assocSet L b new) := by
  intro z hz
  rw [assocSet_eq_retag new (List.mem_map.mpr ⟨_, hb, rfl⟩)]
  by_cases hab : a = b
  · subst hab
    have hsame : z = y := by
      have hget := assocGet_of_mem hnodup hz
      rw [assocGet_of_mem hnodup hb] at hget
      exact (Option.some.inj hget).symm
    exact ⟨new, List.mem_map.mpr ⟨_, hz, if_pos rfl⟩, hsame ▸ hzero⟩
  · exact ⟨z, List.mem_map.mpr ⟨_, hz, if_neg hab⟩, hcmp.self z⟩

theorem remains_replace [DecidableEq ε] (hcmp : Compares cmp) (a : Addr) (hnodup : (L.map Prod.fst).Nodup) (item : ε)
    (alloc : Option Addr) : Remains cmp a L (slotReplace cmp L item alloc).1 := by
  cases hslot : slotOf cmp item L with
  | some u =>
      rw [slotReplace_found hslot]
      exact remains_set hcmp (List.mem_of_find?_eq_some hslot) hnodup (by simpa using List.find?_some hslot)
  | none =>
      rw [slotReplace_new hslot]
      exact remains_probe hcmp a L item alloc

theorem remains_delete (hcmp : Compares cmp) {item : ε} (h : ∀ z, (a, z) ∈ L → cmp item z ≠ 0) :
    Remains cmp a L (slotDelete cmp item L) := by
  refine Remains.same hcmp a fun z hz => ?_
  exact (List.mem_eraseP_of_neg (by simpa using h z hz)).mpr hz

variable [DecidableEq ε] [DecidableEq ι]

/-- **A call of the others** leaves the traverser, and the slot that it is at. -/
theorem others_remain (hcmp : Compares cmp) (h : Agrees cmp s w T) {call : TravCall ε ι} (hother : isNext i call = false)
    (hallowed : travAllowed cmp maxHeight s call) (hlets : Lets cmp i s call) :
    (markedCall cmp w call).1.mark i = w.mark i ∧
      Remains cmp (w.mark i) w.slots (markedCall cmp w call).1.slots := by
  have hnodup : (w.slots.map Prod.fst).Nodup := h.slots ▸ h.table.nodup_slots
  have hsame : Remains cmp (w.mark i) w.slots w.slots := Remains.same hcmp _ fun _ hz => hz
  have hmark : ∀ j (b : Addr), j ≠ i → Function.update w.mark j b i = w.mark i :=
    fun j b hj => Function.update_of_ne (Ne.symm hj) _ _
  have hcur : ∀ j z, (w.mark j, z) ∈ w.slots → rbTCur s.table (s.travs j) = some (some z) := by
    intro j z hz
    have hz' : ((s.travs j).node, z) ∈ T.toList := by
      rw [h.marks j, h.slots]
      exact hz
    have hlive : (s.table.nodes (s.travs j).node).isSome := (h.table.live _).mpr (mem_addrs_iff.mpr ⟨z, hz'⟩)
    rw [rbTCur_spec h.table (Or.inr hlive), assocGet_of_mem h.table.nodup_slots hz']
  cases call with
  | table call =>
      cases call with
      | probe item alloc => exact ⟨rfl, remains_probe hcmp _ _ item alloc⟩
      | find item => exact ⟨rfl, hsame⟩
      | delete item => exact ⟨rfl, remains_delete hcmp fun z hz => hlets z (hcur i z hz)⟩
  | insertItem item alloc => exact ⟨rfl, remains_probe hcmp _ _ item alloc⟩
  | replaceItem item alloc => exact ⟨rfl, remains_replace hcmp _ hnodup item alloc⟩
  | init j => exact ⟨hmark j _ hlets, hsame⟩
  | first j => exact ⟨hmark j _ hlets, hsame⟩
  | last j => exact ⟨hmark j _ hlets, hsame⟩
  | find j item => exact ⟨hmark j _ hlets, hsame⟩
  | insert j item alloc => exact ⟨hmark j _ hlets, remains_probe hcmp _ _ item alloc⟩
  | copy j k => exact ⟨hmark j _ hlets, hsame⟩
  | next j => exact ⟨hmark j _ (of_decide_eq_false hother), hsame⟩
  | prev j => exact ⟨hmark j _ hlets, hsame⟩
  | cur j => exact ⟨rfl, hsame⟩
  | replace j new =>
      obtain ⟨y, hy⟩ := mem_addrs_iff.mp ((h.table.usable hallowed.2.1).resolve_left hallowed.1)
      rw [h.marks j, h.slots] at hy
      exact ⟨rfl, remains_set hcmp hy hnodup (hlets y (hcur j y hy))⟩

/-! ## §4. Runs. -/

omit [DecidableEq ε] in
theorem heard_cons (i : ι) (call : TravCall ε ι) (calls : List (TravCall ε ι)) (answer : Option ε) (answers : List (Option ε)) :
    heard i (call :: calls) (answer :: answers)
      = if isNext i call then answer :: heard i calls answers else heard i calls answers := by
  unfold heard
  rw [List.zip_cons_cons, List.filter_cons]
  split
  next => rfl
  next => rfl

/-- What is found from the start on is in the table at the start. -/
theorem Stays.mem {calls : List (TravCall ε ι)} (hcmp : Compares cmp) (h : Agrees cmp s w T)
    (hstays : Stays cmp maxHeight i s calls x) : x ∈ w.slots.map Prod.snd := by
  have hfind : rbFind cmp s.table x = some (some x) := hstays 0 s [] rfl
  rw [rbFind_slots hcmp h.table x, Option.some.injEq] at hfind
  obtain ⟨v, hv, hvx⟩ := Option.map_eq_some_iff.mp hfind
  rw [← h.slots]
  exact List.mem_map.mpr ⟨v, List.mem_of_find?_eq_some hv, hvx⟩

theorem Stays.tail {call : TravCall ε ι} {calls : List (TravCall ε ι)} {s₁ : Traversed ε ι} {answer : Option ε}
    (hstep : travCall cmp maxHeight s call = some (s₁, answer)) (hstays : Stays cmp maxHeight i s (call :: calls) x) :
    Stays cmp maxHeight i s₁ calls x := by
  intro k s' ys hrun
  refine hstays (k + 1) s' (answer :: ys) ?_
  show (travCall cmp maxHeight s call).bind _ = _
  rw [hstep]
  show ((traversal cmp maxHeight i).run s₁ (calls.take k)).bind _ = _
  rw [hrun]
  rfl

omit [DecidableEq ε] [DecidableEq ι] in
/-- What is left of the answers behind an item. -/
theorem split_item {answer : ε} {hs rest : List (Option ε)} (h : some answer :: hs = vs.map some ++ rest) :
    (vs = [] ∧ rest.head? = some (some answer)) ∨ ∃ us, vs = answer :: us ∧ hs = us.map some ++ rest := by
  cases vs with
  | nil =>
      rw [List.map_nil, List.nil_append] at h
      exact Or.inl ⟨rfl, by rw [← h]; rfl⟩
  | cons v us =>
      rw [List.map_cons, List.cons_append, List.cons.injEq, Option.some.injEq] at h
      exact Or.inr ⟨us, by rw [h.1], h.2⟩

/-- The run of a traversal that has returned `vs`. -/
theorem sweep_run (hcmp : Compares cmp) {calls : List (TravCall ε ι)} :
    ∀ {s : Traversed ε ι} {w : Marked ε ι} {T : ColorTree (Addr × ε)} {vs : List ε}, Agrees cmp s w T → Ordered cmp vs →
      SweptTo cmp (w.mark i) w.slots vs → (traversal cmp maxHeight i).Legal s calls →
      ∃ s' ys, (traversal cmp maxHeight i).run s calls = some (s', ys) ∧
        ∀ us rest, heard i calls ys = us.map some ++ rest →
          Ordered cmp (vs ++ us) ∧
            (rest.head? = some none → ∀ x, Ahead cmp vs x → Stays cmp maxHeight i s calls x → x ∈ vs ++ us) := by
  induction calls with
  | nil =>
      intro s w T vs _ hvs _ _
      refine ⟨s, [], rfl, fun us rest hheard => ?_⟩
      obtain ⟨hus, hrest⟩ := List.append_eq_nil_iff.mp (hheard : [] = us.map some ++ rest).symm
      rw [List.map_eq_nil_iff.mp hus, List.append_nil, hrest]
      exact ⟨hvs, fun hend => by cases hend⟩
  | cons call calls ih =>
      intro s w T vs h hvs hat hlegal
      obtain ⟨s₁, T₁, hstep, h₁⟩ := travCall_follows hcmp h hlegal.1.1
      have hlegal₁ := hlegal.2 s₁ _ hstep
      have hrun : ∀ s' ys, (traversal cmp maxHeight i).run s₁ calls = some (s', ys) →
          (traversal cmp maxHeight i).run s (call :: calls) = some (s', (markedCall cmp w call).2 :: ys) := by
        intro s' ys hrest
        show (travCall cmp maxHeight s call).bind _ = _
        rw [hstep]
        show ((traversal cmp maxHeight i).run s₁ calls).bind _ = _
        rw [hrest]
        rfl
      cases hnext : isNext i call with
      | false =>
          obtain ⟨hmark, hremains⟩ := others_remain hcmp h hnext hlegal.1.1 hlegal.1.2
          have hat₁ := hat.remains hcmp hremains
          rw [← hmark] at hat₁
          obtain ⟨s', ys, hrest, hheard⟩ := ih h₁ hvs hat₁ hlegal₁
          refine ⟨s', _, hrun s' ys hrest, fun us rest hsplit => ?_⟩
          rw [heard_cons, hnext, if_neg Bool.false_ne_true] at hsplit
          obtain ⟨hordered, hcomplete⟩ := hheard us rest hsplit
          exact ⟨hordered, fun hend x hx hstays => hcomplete hend x hx (hstays.tail hstep)⟩
      | true =>
          obtain rfl : call = .next i := by
            cases call with
            | next j => rw [of_decide_eq_true hnext]
            | _ => cases hnext
          have hslots : Ordered (onItem cmp) w.slots := h.slots ▸ h.table.sorted
          have hnodup : (w.slots.map Prod.fst).Nodup := h.slots ▸ h.table.nodup_slots
          have hpos : ∀ u ∈ w.slots, u.1 ≠ 0 := by
            intro u hu
            rw [← h.slots] at hu
            exact h.table.zip.holds.ne_zero (mem_addrs_iff.mpr ⟨u.2, hu⟩)
          have hmark : (markedCall cmp w (.next i)).1.mark i = slotAddr (neighbour true (w.mark i) w.slots) :=
            Function.update_self ..
          cases hneighbour : neighbour true (w.mark i) w.slots with
          | none =>
              -- the end; what comes behind it is another round
              have hanswer : (markedCall cmp w (.next i)).2 = none := congrArg (Option.map Prod.snd) hneighbour
              rw [hneighbour] at hmark
              have hat₁ : SweptTo cmp ((markedCall cmp w (.next i)).1.mark i) w.slots [] := Or.inl ⟨rfl, hmark⟩
              obtain ⟨s', ys, hrest, -⟩ := ih h₁ List.Pairwise.nil hat₁ hlegal₁
              refine ⟨s', _, hrun s' ys hrest, fun us rest hsplit => ?_⟩
              rw [heard_cons, hnext, if_pos rfl, hanswer] at hsplit
              obtain rfl : us = [] := by
                cases us with
                | nil => rfl
                | cons u us => cases hsplit
              rw [List.append_nil]
              exact ⟨hvs, fun _ x hx hstays => sweep_end hcmp hslots hnodup hpos hat hneighbour hx (hstays.mem hcmp h)⟩
          | some v =>
              have hanswer : (markedCall cmp w (.next i)).2 = some v.2 := congrArg (Option.map Prod.snd) hneighbour
              rw [hneighbour] at hmark
              obtain ⟨hvs₁, hat₁, hahead⟩ := sweep_step hcmp hslots hnodup hpos hvs hat hneighbour
              have hat₁ : SweptTo cmp ((markedCall cmp w (.next i)).1.mark i) w.slots (vs ++ [v.2]) := hmark ▸ hat₁
              obtain ⟨s', ys, hrest, hheard⟩ := ih h₁ hvs₁ hat₁ hlegal₁
              refine ⟨s', _, hrun s' ys hrest, fun us rest hsplit => ?_⟩
              rw [heard_cons, hnext, if_pos rfl, hanswer] at hsplit
              rcases split_item hsplit with ⟨rfl, hhead⟩ | ⟨us, rfl, hbehind⟩
              · rw [List.append_nil]
                refine ⟨hvs, fun hend => ?_⟩
                rw [hhead] at hend
                cases hend
              · obtain ⟨hordered, hcomplete⟩ := hheard us rest hbehind
                rw [List.append_assoc] at hordered
                refine ⟨hordered, fun hend x hx hstays => ?_⟩
                have hmem := hcomplete hend x (hahead x hx (hstays.mem hcmp h)) (hstays.tail hstep)
                rwa [List.append_assoc] at hmem

/-- **A TRAVERSAL WHILE THE TABLE CHANGES**: what the calls of `rb_t_next` return
before the first NULL is in ascending order, and where NULL is returned nothing is
missing that was in the table all the time. -/
theorem rb_traversal (hcmp : Compares cmp) (maxHeight : Nat) (i : ι) {calls₀ calls : List (TravCall ε ι)}
    (hlegal₀ : (travServer cmp maxHeight).Legal travStart (calls₀ ++ [.init i]))
    (hlegal : ∀ s ys₀, (travServer cmp maxHeight).run travStart (calls₀ ++ [.init i]) = some (s, ys₀) →
      (traversal cmp maxHeight i).Legal s calls) :
    ∃ s ys₀ s' ys, (travServer cmp maxHeight).run travStart (calls₀ ++ [.init i]) = some (s, ys₀) ∧
      (traversal cmp maxHeight i).run s calls = some (s', ys) ∧
      ∀ vs rest, heard i calls ys = vs.map some ++ rest →
        Ordered cmp vs ∧ (rest.head? = some none → ∀ x, Stays cmp maxHeight i s calls x → x ∈ vs) := by
  obtain ⟨s, hrun₀, T, h⟩ := trav_run_agrees hcmp hlegal₀
  have hmark : (Server.specRun (markedCall cmp) markedStart (calls₀ ++ [.init i])).1.mark i = 0 := by
    rw [Server.specRun_append]
    exact Function.update_self ..
  have hat : SweptTo cmp ((Server.specRun (markedCall cmp) markedStart (calls₀ ++ [.init i])).1.mark i)
      (Server.specRun (markedCall cmp) markedStart (calls₀ ++ [.init i])).1.slots [] := Or.inl ⟨rfl, hmark⟩
  obtain ⟨s', ys, hrun, hheard⟩ := sweep_run hcmp h List.Pairwise.nil hat (hlegal s _ hrun₀)
  refine ⟨s, _, s', ys, hrun₀, hrun, fun vs rest hsplit => ?_⟩
  obtain ⟨hordered, hcomplete⟩ := hheard vs rest hsplit
  exact ⟨hordered, fun hend x hstays => hcomplete hend x ahead_nil hstays⟩

omit [DecidableEq ε] [DecidableEq ι] in
/-- The promises about what is not deleted, evaluated. -/
theorem lets_delete_iff {item : ε} :
    (rbTCur s.table (s.travs i)).join.all (fun y => cmp item y ≠ 0) = true ↔ Lets cmp i s (.table (.delete item)) := by
  show _ ↔ ∀ y, rbTCur s.table (s.travs i) = some (some y) → cmp item y ≠ 0
  cases rbTCur s.table (s.travs i) with
  | none => simp
  | some o => cases o <;> simp

omit [DecidableEq ε] [DecidableEq ι] in
theorem lets_replace_iff {j : ι} {new : ε} :
    (rbTCur s.table (s.travs j)).join.all (fun y => cmp new y = 0) = true ↔ Lets cmp i s (.replace j new) := by
  show _ ↔ ∀ y, rbTCur s.table (s.travs j) = some (some y) → cmp new y = 0
  cases rbTCur s.table (s.travs j) with
  | none => simp
  | some o => cases o <;> simp

instance (i : ι) (s : Traversed ε ι) (call : TravCall ε ι) : Decidable (Lets cmp i s call) :=
  match call with
  | .table (.delete _) => decidable_of_iff _ lets_delete_iff
  | .replace _ _ => decidable_of_iff _ lets_replace_iff
  | .init j => inferInstanceAs (Decidable (j ≠ i))
  | .first j => inferInstanceAs (Decidable (j ≠ i))
  | .last j => inferInstanceAs (Decidable (j ≠ i))
  | .find j _ => inferInstanceAs (Decidable (j ≠ i))
  | .insert j _ _ => inferInstanceAs (Decidable (j ≠ i))
  | .copy j _ => inferInstanceAs (Decidable (j ≠ i))
  | .prev j => inferInstanceAs (Decidable (j ≠ i))
  | .table (.probe _ _) => inferInstanceAs (Decidable True)
  | .table (.find _) => inferInstanceAs (Decidable True)
  | .insertItem _ _ => inferInstanceAs (Decidable True)
  | .replaceItem _ _ => inferInstanceAs (Decidable True)
  | .next _ => inferInstanceAs (Decidable True)
  | .cur _ => inferInstanceAs (Decidable True)

noncomputable instance (i : ι) (s : Traversed ε ι) (call : TravCall ε ι) :
    Decidable ((traversal cmp maxHeight i).allowed s call) :=
  inferInstanceAs (Decidable ((travServer cmp maxHeight).allowed s call ∧ Lets cmp i s call))

/-- Three members; while they are listed, one goes that was listed, two come. -/
def difference_sweep : List (TravCall Int Bool) :=
  [.next false, .next false, .table (.delete 10), .table (.probe 25 (some 64)), .table (.probe 15 (some 80)), .next false,
    .first true, .next false, .next false]

def difference_members : List (TravCall Int Bool) :=
  [.table (.probe 10 (some 16)), .table (.probe 20 (some 32)), .table (.probe 30 (some 48))]

theorem difference_sweepLegal :
    (travServer difference rbMaxHeight).Legal travStart (difference_members ++ [.init false]) ∧
      ∀ s ys₀, (travServer difference rbMaxHeight).run travStart (difference_members ++ [.init false]) = some (s, ys₀) →
        (traversal difference rbMaxHeight false).Legal s difference_sweep := by
  refine ⟨Server.legal_of_check _ (by decide +kernel), fun s ys₀ hrun => Server.legal_of_check _ ?_⟩
  have hall : ((travServer difference rbMaxHeight).run travStart (difference_members ++ [.init false])).all
      (fun r => (traversal difference rbMaxHeight false).legalCheck r.1 difference_sweep) = true := by
    decide +kernel
  rw [hrun] at hall
  exact hall

theorem rb_traversal_difference :
    ∃ s ys₀ s' ys, (travServer difference rbMaxHeight).run travStart (difference_members ++ [.init false]) = some (s, ys₀) ∧
      (traversal difference rbMaxHeight false).run s difference_sweep = some (s', ys) ∧
      ∀ vs rest, heard false difference_sweep ys = vs.map some ++ rest →
        Ordered difference vs ∧
          (rest.head? = some none → ∀ x, Stays difference rbMaxHeight false s difference_sweep x → x ∈ vs) :=
  rb_traversal difference_compares rbMaxHeight false difference_sweepLegal.1 difference_sweepLegal.2

example :
    (((travServer difference rbMaxHeight).run travStart (difference_members ++ [.init false])).bind fun r =>
      ((traversal difference rbMaxHeight false).run r.1 difference_sweep).map fun q => heard false difference_sweep q.2)
      = some [some 10, some 20, some 25, some 30, none] := by
  decide +kernel

end LzLib.Rb
