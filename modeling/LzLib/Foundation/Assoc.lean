/-
  LzLib.Foundation.Assoc
  ──────────────────────
  **FINITE MAPS AS ASSOCIATION LISTS**, newest key first: setting a key the
  list already has replaces its value in place, setting a new key puts it in
  front, deleting keeps the order of the rest.  With distinct keys these are
  exactly update and removal of the map `assocGet l`.
-/
import Mathlib.Data.List.Nodup
import Mathlib.Data.List.Basic

namespace LzLib.Foundation

section Assoc

variable {κ υ : Type} [DecidableEq κ]

/-- The value of `k`. -/
def assocGet (l : List (κ × υ)) (k : κ) : Option υ :=
  (l.find? fun e => e.1 = k).map Prod.snd

/-- Set `k` to `v`. -/
def assocSet (l : List (κ × υ)) (k : κ) (v : υ) : List (κ × υ) :=
  if k ∈ l.map Prod.fst then l.map fun e => if e.1 = k then (k, v) else e else (k, v) :: l

/-- Remove `k`. -/
def assocDel (l : List (κ × υ)) (k : κ) : List (κ × υ) :=
  l.filter fun e => e.1 ≠ k

theorem length_assocSet (l : List (κ × υ)) (k : κ) (v : υ) :
    ((assocSet l k v).length : Int) = l.length + (if k ∈ l.map Prod.fst then 0 else 1) := by
  unfold assocSet
  split
  next => simp
  next => simp

theorem assocGet_cons (e : κ × υ) (l : List (κ × υ)) (k : κ) :
    assocGet (e :: l) k = if e.1 = k then some e.2 else assocGet l k := by
  unfold assocGet
  rw [List.find?_cons]
  by_cases h : e.1 = k
  · simp [h]
  · simp [h]

theorem assocGet_eq_none_iff (l : List (κ × υ)) (k : κ) :
    assocGet l k = none ↔ k ∉ l.map Prod.fst := by
  induction l with
  | nil => simp [assocGet]
  | cons e l ih =>
      rw [assocGet_cons, List.map_cons, List.mem_cons]
      by_cases h : e.1 = k
      · simp [h]
      · rw [if_neg h, ih]
        simp [Ne.symm h]

theorem assocGet_replace (l : List (κ × υ)) (k k' : κ) (v : υ) :
    assocGet (l.map fun e => if e.1 = k then (k, v) else e) k'
      = if k' = k ∧ k ∈ l.map Prod.fst then some v else assocGet l k' := by
  induction l with
  | nil => simp [assocGet]
  | cons e l ih =>
      rw [List.map_cons, assocGet_cons, ih, assocGet_cons]
      by_cases h : e.1 = k
      · by_cases h' : k = k'
        · subst h'; simp [h]
        · simp [h, h', Ne.symm h']
      · have hk : k ∈ (e :: l).map Prod.fst ↔ k ∈ l.map Prod.fst := by
          rw [List.map_cons, List.mem_cons, or_iff_right (Ne.symm h)]
        simp only [h, hk, if_false]
        by_cases h' : k' = k
        · subst h'; simp only [if_neg h]
        · simp [h']

/-- **Setting is updating.** -/
theorem assocGet_set (l : List (κ × υ)) (k k' : κ) (v : υ) :
    assocGet (assocSet l k v) k' = if k' = k then some v else assocGet l k' := by
  unfold assocSet
  split
  next h =>
    rw [assocGet_replace]
    by_cases h' : k' = k
    · rw [if_pos ⟨h', h⟩, if_pos h']
    · rw [if_neg (fun e => h' e.1), if_neg h']
  next =>
    rw [assocGet_cons]
    by_cases h' : k' = k
    · rw [if_pos h', if_pos h'.symm]
    · rw [if_neg h', if_neg (Ne.symm h')]

/-- **Deleting is removing.** -/
theorem assocGet_del (l : List (κ × υ)) (k k' : κ) :
    assocGet (assocDel l k) k' = if k' = k then none else assocGet l k' := by
  unfold assocDel
  induction l with
  | nil => simp [assocGet]
  | cons e l ih =>
      rw [List.filter_cons]
      by_cases h : e.1 = k
      · rw [if_neg (by simp [h]), ih, assocGet_cons, h]
        by_cases h' : k' = k
        · rw [if_pos h', if_pos h']
        · rw [if_neg h', if_neg h', if_neg (Ne.symm h')]
      · rw [if_pos (by simp [h]), assocGet_cons, assocGet_cons, ih]
        by_cases h' : k' = k
        · subst h'; simp [h]
        · simp [h']

theorem assocGet_mem {l : List (κ × υ)} {k : κ} {v : υ} (h : assocGet l k = some v) : (k, v) ∈ l := by
  obtain ⟨e, he, rfl⟩ := Option.map_eq_some_iff.mp h
  have hk : e.1 = k := by simpa using List.find?_some he
  subst hk
  exact List.mem_of_find?_eq_some he

/-! Values changed by a function. -/

section Map

variable {ω : Type} (g : υ → ω)

omit [DecidableEq κ] in
theorem keys_map (l : List (κ × υ)) :
    (l.map fun e => (e.1, g e.2)).map Prod.fst = l.map Prod.fst := by
  rw [List.map_map]
  rfl

theorem assocGet_map (l : List (κ × υ)) (k : κ) :
    assocGet (l.map fun e => (e.1, g e.2)) k = (assocGet l k).map g := by
  induction l with
  | nil => rfl
  | cons e l ih =>
      rw [List.map_cons, assocGet_cons, assocGet_cons, ih]
      split
      next => rfl
      next => rfl

theorem assocSet_map (l : List (κ × υ)) (k : κ) (v : υ) :
    assocSet (l.map fun e => (e.1, g e.2)) k (g v) = (assocSet l k v).map fun e => (e.1, g e.2) := by
  unfold assocSet
  rw [keys_map]
  split
  next =>
    rw [List.map_map, List.map_map]
    apply List.map_congr_left
    intro e _
    by_cases he : e.1 = k
    · simp [he]
    · simp [he]
  next => rfl

theorem foldl_assocSet_map : ∀ (ds l : List (κ × υ)),
    (ds.map fun e => (e.1, g e.2)).foldl (fun l e => assocSet l e.1 e.2) (l.map fun e => (e.1, g e.2))
      = (ds.foldl (fun l e => assocSet l e.1 e.2) l).map fun e => (e.1, g e.2)
  | [], _ => rfl
  | d :: ds, l => by
      rw [List.map_cons, List.foldl_cons, List.foldl_cons, assocSet_map, foldl_assocSet_map ds]

end Map

theorem mem_assocSet {l : List (κ × υ)} {k : κ} {v : υ} {e : κ × υ} (h : e ∈ assocSet l k v) :
    e ∈ l ∨ e = (k, v) := by
  unfold assocSet at h
  split at h
  next =>
    obtain ⟨b, hb, rfl⟩ := List.mem_map.mp h
    by_cases hk : b.1 = k
    · exact Or.inr (if_pos hk)
    · exact Or.inl (by rw [if_neg hk]; exact hb)
  next => exact (List.mem_cons.mp h).symm

theorem mem_foldl_assocSet {e : κ × υ} : ∀ {ds l : List (κ × υ)},
    e ∈ ds.foldl (fun l e => assocSet l e.1 e.2) l → e ∈ l ∨ e ∈ ds
  | [], _, h => Or.inl h
  | d :: ds, l, h => by
      have hrest : e ∈ assocSet l d.1 d.2 ∨ e ∈ ds := mem_foldl_assocSet h
      rcases hrest with h | h
      · rcases mem_assocSet h with h | rfl
        · exact Or.inl h
        · exact Or.inr List.mem_cons_self
      · exact Or.inr (List.mem_cons_of_mem d h)

/-- Setting new keys one after the other puts the last one in front. -/
theorem foldl_assocSet_new : ∀ (ds l : List (κ × υ)), ((ds ++ l).map Prod.fst).Nodup →
    ds.foldl (fun l e => assocSet l e.1 e.2) l = ds.reverse ++ l
  | [], _, _ => rfl
  | d :: ds, l, h => by
      rw [List.cons_append, List.map_cons, List.nodup_cons, List.map_append, List.mem_append,
        not_or] at h
      have hmid : ((ds ++ d :: l).map Prod.fst).Nodup := by
        rw [List.map_append, List.map_cons]
        exact List.nodup_middle.mpr (List.nodup_cons.mpr ⟨by rw [List.mem_append]; tauto, h.2⟩)
      have hnew : assocSet l d.1 d.2 = d :: l := if_neg h.1.2
      rw [List.foldl_cons, hnew, foldl_assocSet_new ds (d :: l) hmid, List.reverse_cons,
        List.append_assoc]
      rfl

/-! The three operations at the only entry with the key. -/

theorem assocGet_split {l r : List (κ × υ)} {k : κ} {o : υ} (hl : k ∉ l.map Prod.fst) :
    assocGet (l ++ (k, o) :: r) k = some o := by
  induction l with
  | nil => rw [List.nil_append, assocGet_cons, if_pos rfl]
  | cons e l ih =>
      rw [List.map_cons, List.mem_cons, not_or] at hl
      rw [List.cons_append, assocGet_cons, if_neg (Ne.symm hl.1), ih hl.2]

theorem replace_of_not_mem {l : List (κ × υ)} {k : κ} {v : υ} (hl : k ∉ l.map Prod.fst) :
    (l.map fun e => if e.1 = k then (k, v) else e) = l := by
  calc (l.map fun e => if e.1 = k then (k, v) else e) = l.map id := by
        apply List.map_congr_left
        intro e he
        exact if_neg fun h => hl (List.mem_map.mpr ⟨e, he, h⟩)
    _ = l := List.map_id l

theorem assocSet_split {l r : List (κ × υ)} {k : κ} {o v : υ} (hl : k ∉ l.map Prod.fst)
    (hr : k ∉ r.map Prod.fst) : assocSet (l ++ (k, o) :: r) k v = l ++ (k, v) :: r := by
  unfold assocSet
  rw [if_pos (by simp), List.map_append, List.map_cons, replace_of_not_mem hl,
    replace_of_not_mem hr, if_pos rfl]

theorem assocDel_of_not_mem {l : List (κ × υ)} {k : κ} (hl : k ∉ l.map Prod.fst) :
    assocDel l k = l := by
  unfold assocDel
  rw [List.filter_eq_self]
  intro e he
  have hne : e.1 ≠ k := fun h => hl (List.mem_map.mpr ⟨e, he, h⟩)
  exact decide_eq_true hne

theorem assocDel_split {l r : List (κ × υ)} {k : κ} {o : υ} (hl : k ∉ l.map Prod.fst)
    (hr : k ∉ r.map Prod.fst) : assocDel (l ++ (k, o) :: r) k = l ++ r := by
  have hl' := assocDel_of_not_mem hl
  have hr' := assocDel_of_not_mem hr
  unfold assocDel at hl' hr' ⊢
  rw [List.filter_append, hl', List.filter_cons, if_neg (by simp), hr']

theorem assocGet_of_mem {l : List (κ × υ)} {k : κ} {v : υ} (hnd : (l.map Prod.fst).Nodup)
    (h : (k, v) ∈ l) : assocGet l k = some v := by
  obtain ⟨l₁, l₂, rfl⟩ := List.append_of_mem h
  rw [List.map_append, List.map_cons] at hnd
  apply assocGet_split
  intro hk
  exact (List.nodup_append.mp hnd).2.2 k hk k List.mem_cons_self rfl

omit [DecidableEq κ] in
/-- With distinct keys an entry's key is its own. -/
theorem nodup_split {l₁ l₂ : List (κ × υ)} {e : κ × υ} (hnd : ((l₁ ++ e :: l₂).map Prod.fst).Nodup) :
    e.1 ∉ l₁.map Prod.fst ∧ e.1 ∉ l₂.map Prod.fst := by
  rw [List.map_append, List.map_cons] at hnd
  have hnot := (List.nodup_cons.mp (List.nodup_middle.mp hnd)).1
  rwa [List.mem_append, not_or] at hnot

/-- Where the only entry with a key sits. -/
theorem assoc_split {l : List (κ × υ)} {k : κ} {o : υ} (hnd : (l.map Prod.fst).Nodup)
    (hget : assocGet l k = some o) :
    ∃ l₁ l₂, l = l₁ ++ (k, o) :: l₂ ∧ k ∉ l₁.map Prod.fst ∧ k ∉ l₂.map Prod.fst := by
  obtain ⟨l₁, l₂, rfl⟩ := List.append_of_mem (assocGet_mem hget)
  exact ⟨l₁, l₂, rfl, nodup_split hnd⟩

theorem length_assocDel {l : List (κ × υ)} (hnd : (l.map Prod.fst).Nodup) (k : κ) :
    ((assocDel l k).length : Int) = l.length - (if k ∈ l.map Prod.fst then 1 else 0) := by
  by_cases hk : k ∈ l.map Prod.fst
  · obtain ⟨e, he, rfl⟩ := List.mem_map.mp hk
    obtain ⟨a, b, rfl⟩ := List.append_of_mem he
    obtain ⟨ha, hb⟩ := nodup_split hnd
    rw [if_pos hk, show a ++ e :: b = a ++ (e.1, e.2) :: b from rfl, assocDel_split ha hb]
    simp only [List.length_append, List.length_cons]
    omega
  · rw [if_neg hk, assocDel_of_not_mem hk, Int.sub_zero]

/-- With distinct keys the order of the entries does not matter. -/
theorem assocGet_reverse {l : List (κ × υ)} (hnd : (l.map Prod.fst).Nodup) (k : κ) :
    assocGet l.reverse k = assocGet l k := by
  by_cases hk : k ∈ l.map Prod.fst
  · obtain ⟨e, he, rfl⟩ := List.mem_map.mp hk
    obtain ⟨a, b, rfl⟩ := List.append_of_mem he
    obtain ⟨ha, hb⟩ := nodup_split hnd
    have hrev : (a ++ e :: b).reverse = b.reverse ++ (e.1, e.2) :: a.reverse := by simp
    rw [hrev, assocGet_split (by rw [List.map_reverse, List.mem_reverse]; exact hb),
      show a ++ e :: b = a ++ (e.1, e.2) :: b from rfl, assocGet_split ha]
  · rw [(assocGet_eq_none_iff l k).mpr hk, (assocGet_eq_none_iff l.reverse k).mpr]
    rw [List.map_reverse, List.mem_reverse]
    exact hk

/-- What setting and deleting do to the values: the old value of the key is
replaced, or goes. -/
theorem assoc_values {l : List (κ × υ)} {k : κ} {o : υ} (hnd : (l.map Prod.fst).Nodup)
    (hget : assocGet l k = some o) :
    ∃ rest : List υ, (l.map Prod.snd).Perm (o :: rest) ∧
      (∀ v, ((assocSet l k v).map Prod.snd).Perm (v :: rest)) ∧
      ((assocDel l k).map Prod.snd).Perm rest := by
  obtain ⟨l₁, l₂, rfl, h₁, h₂⟩ := assoc_split hnd hget
  refine ⟨(l₁ ++ l₂).map Prod.snd, ?_, ?_, ?_⟩
  · rw [List.map_append, List.map_append, List.map_cons]
    exact List.perm_middle
  · intro v
    rw [assocSet_split h₁ h₂, List.map_append, List.map_append, List.map_cons]
    exact List.perm_middle
  · rw [assocDel_split h₁ h₂]

theorem assocSet_of_not_mem {l : List (κ × υ)} {k : κ} {v : υ} (hk : k ∉ l.map Prod.fst) :
    assocSet l k v = (k, v) :: l := if_neg hk

theorem keys_assocSet (l : List (κ × υ)) (k : κ) (v : υ) :
    (assocSet l k v).map Prod.fst
      = if k ∈ l.map Prod.fst then l.map Prod.fst else k :: l.map Prod.fst := by
  unfold assocSet
  split
  next =>
    rw [List.map_map]
    apply List.map_congr_left
    intro e _
    by_cases he : e.1 = k
    · simp [he]
    · simp [he]
  next => rfl

theorem keys_assocDel (l : List (κ × υ)) (k : κ) :
    (assocDel l k).map Prod.fst = (l.map Prod.fst).filter (fun k' => k' ≠ k) := by
  rw [assocDel, List.filter_map]
  rfl

theorem nodup_keys_assocSet {l : List (κ × υ)} {k : κ} {v : υ} (h : (l.map Prod.fst).Nodup) :
    ((assocSet l k v).map Prod.fst).Nodup := by
  rw [keys_assocSet]
  split
  next => exact h
  next hk => exact List.nodup_cons.mpr ⟨hk, h⟩

theorem nodup_keys_assocDel {l : List (κ × υ)} {k : κ} (h : (l.map Prod.fst).Nodup) :
    ((assocDel l k).map Prod.fst).Nodup := by
  rw [keys_assocDel]
  exact h.filter _

/-! Setting many keys, one after the other. -/

/-- The keys that are set are found as they were set. -/
theorem assocGet_foldl_set (k : κ) : ∀ {ds : List (κ × υ)} (l : List (κ × υ)), (ds.map Prod.fst).Nodup →
    assocGet (ds.foldl (fun l e => assocSet l e.1 e.2) l) k = (assocGet ds k).or (assocGet l k) := by
  intro ds
  induction ds with
  | nil => intro l _; rfl
  | cons d ds ih =>
      intro l hnd
      obtain ⟨hd, hnd⟩ := List.nodup_cons.mp hnd
      rw [List.foldl_cons, ih _ hnd, assocGet_set, assocGet_cons]
      by_cases hk : d.1 = k
      · subst hk
        rw [(assocGet_eq_none_iff ds d.1).mpr hd, if_pos rfl, if_pos rfl]
        rfl
      · rw [if_neg (Ne.symm hk), if_neg hk]

/-- The keys are those of both lists. -/
theorem mem_keys_foldl_set {k : κ} : ∀ {ds l : List (κ × υ)},
    k ∈ (ds.foldl (fun l e => assocSet l e.1 e.2) l).map Prod.fst ↔ k ∈ ds.map Prod.fst ∨ k ∈ l.map Prod.fst := by
  intro ds
  induction ds with
  | nil => intro l; simp
  | cons d ds ih =>
      intro l
      rw [List.foldl_cons, ih, keys_assocSet, List.map_cons, List.mem_cons]
      split
      next hin =>
        constructor
        · tauto
        · rintro ((rfl | hds) | hl)
          · exact Or.inr hin
          · exact Or.inl hds
          · exact Or.inr hl
      next =>
        rw [List.mem_cons]
        tauto

theorem nodup_keys_foldl_set : ∀ {ds l : List (κ × υ)}, (l.map Prod.fst).Nodup →
    ((ds.foldl (fun l e => assocSet l e.1 e.2) l).map Prod.fst).Nodup := by
  intro ds
  induction ds with
  | nil => intro l hnd; exact hnd
  | cons d ds ih =>
      intro l hnd
      exact ih (nodup_keys_assocSet hnd)

end Assoc

end LzLib.Foundation
