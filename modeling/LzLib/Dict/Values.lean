/-
  LzLib.Dict.Values
  ─────────────────
  **WHO HOLDS A VALUE.**

  `Counted h vals` says that every address in `vals` is a live `data_t` and
  that no `data_t` is held more often than its reference count says; the rest
  of the count belongs to other holders.  `data_ref` adds a holder,
  `data_unref` takes one away, and neither touches the payload of a value
  that is still held.
-/
import LzLib.Dict.DataDef
import Mathlib.Data.List.Count
import Mathlib.Data.List.Perm.Basic

namespace LzLib.Dict

open LzLib.Foundation

/-- Every value in `vals` is live, and held at most as often as it counts. -/
structure Counted (h : DataHeap) (vals : List Addr) : Prop where
  live : ∀ a ∈ vals, h.cells a ≠ none
  counted : ∀ a c, h.cells a = some c → (vals.count a : Int) ≤ c.refcount
  below : ∀ a c, h.cells a = some c → a ≠ 0 ∧ a < h.brk
  pos : 0 < h.brk

/-- The payload of a value: the cell without its reference count. -/
def DataHeap.view (h : DataHeap) (a : Addr) : Option Data :=
  (h.cells a).map fun c => { c with refcount := 0 }

/-- Another reference to `a` can be counted. -/
def DataHeap.Room (h : DataHeap) (a : Addr) : Prop := ∀ c, h.cells a = some c → c.refcount < int32Max

theorem DataHeap.set_cells (h : DataHeap) (a b : Addr) (c : Data) :
    (h.set a c).cells b = if b = a then some c else h.cells b := by
  show Function.update h.cells a (some c) b = _
  by_cases hb : b = a
  · subst hb; simp
  · simp [hb]

theorem DataHeap.free_cells (h : DataHeap) (a b : Addr) :
    (h.free a).cells b = if b = a then none else h.cells b := by
  show Function.update h.cells a none b = _
  by_cases hb : b = a
  · subst hb; simp
  · simp [hb]

theorem DataHeap.set_set (h : DataHeap) (a : Addr) (c c' : Data) : (h.set a c).set a c' = h.set a c' := by
  show DataHeap.mk (Function.update (Function.update _ _ _) _ _) _ = _
  rw [Function.update_idem]
  rfl

theorem DataHeap.set_free (h : DataHeap) (a : Addr) (c : Data) : (h.set a c).free a = h.free a := by
  show DataHeap.mk (Function.update (Function.update _ _ _) _ _) _ = _
  rw [Function.update_idem]
  rfl

theorem DataHeap.alloc_cells (h : DataHeap) (b : Addr) (c : Data) :
    (h.alloc c).1.cells b = if b = h.brk then some c else h.cells b := by
  show Function.update h.cells h.brk (some c) b = _
  by_cases hb : b = h.brk
  · subst hb; simp
  · simp [hb]

theorem DataHeap.view_congr {h h' : DataHeap} {a : Addr} (hc : h'.cells a = h.cells a) :
    h'.view a = h.view a := by
  unfold DataHeap.view
  rw [hc]

section

variable {h : DataHeap} {vals : List Addr}

theorem Counted.perm {vals' : List Addr} (C : Counted h vals) (hp : vals'.Perm vals) :
    Counted h vals' where
  live a ha := C.live a (hp.mem_iff.mp ha)
  counted a c hc := by rw [hp.count_eq]; exact C.counted a c hc
  below := C.below
  pos := C.pos

theorem Counted.ne_zero (C : Counted h vals) {a : Addr} (ha : a ∈ vals) : a ≠ 0 := by
  obtain ⟨c, hc⟩ := Option.ne_none_iff_exists'.mp (C.live a ha)
  exact (C.below a c hc).1

/-- Forgetting a holder keeps the counts. -/
theorem Counted.forget {a : Addr} (C : Counted h (a :: vals)) : Counted h vals where
  live b hb := C.live b (List.mem_cons_of_mem a hb)
  counted b c hc := by
    have := C.counted b c hc
    have hle := List.count_le_count_cons (a := b) (b := a) (l := vals)
    omega
  below := C.below
  pos := C.pos

/-- The same cells seen from outside: nobody in particular holds them. -/
theorem Counted.nobody : ∀ {vals : List Addr}, Counted h vals → Counted h []
  | [], C => C
  | _ :: _, C => C.forget.nobody

/-- Where the count is at its end, `data_ref` has no outcome. -/
theorem dataRef_full {a : Addr} (ha : a ≠ 0) (hfull : ¬ h.Room a) : dataRef h a = none := by
  obtain ⟨c, hc, hle⟩ : ∃ c, h.cells a = some c ∧ int32Max ≤ c.refcount := by
    by_contra hno
    exact hfull fun c hc => Int.not_le.mp fun hle => hno ⟨c, hc, hle⟩
  unfold dataRef
  rw [if_neg ha, hc]
  show (incInt c.refcount).map _ = none
  rw [incInt_full hle]
  rfl

/-- **`data_ref`** adds a holder. -/
theorem dataRef_spec (C : Counted h vals) {a : Addr} (ha : h.cells a ≠ none) (hroom : h.Room a) :
    ∃ h', dataRef h a = some (h', a) ∧ Counted h' (a :: vals) ∧ (∀ b, h'.view b = h.view b) ∧
      h'.brk = h.brk := by
  obtain ⟨c, hc⟩ := Option.ne_none_iff_exists'.mp ha
  refine ⟨h.set a { c with refcount := c.refcount + 1 }, ?_, ⟨?_, ?_, ?_, C.pos⟩, ?_, rfl⟩
  · unfold dataRef
    rw [if_neg (C.below a c hc).1, hc]
    show (incInt c.refcount).map _ = _
    rw [incInt_eq (hroom c hc)]
    rfl
  · intro b hb
    rw [DataHeap.set_cells]
    split
    next => exact Option.some_ne_none _
    next hba => exact C.live b ((List.mem_cons.mp hb).resolve_left hba)
  · -- the cell that is held once more, and the others
    intro b c' hc'
    rw [DataHeap.set_cells] at hc'
    split at hc'
    next hba =>
      cases hc'
      subst hba
      have := C.counted b c hc
      rw [List.count_cons_self]
      show _ ≤ c.refcount + 1
      omega
    next hba =>
      rw [List.count_cons_of_ne (Ne.symm hba)]
      exact C.counted b c' hc'
  · intro b c' hc'
    rw [DataHeap.set_cells] at hc'
    split at hc'
    next hba => subst hba; exact C.below b c hc
    next => exact C.below b c' hc'
  · intro b
    by_cases hba : b = a
    · subst hba
      unfold DataHeap.view
      rw [DataHeap.set_cells, if_pos rfl, hc]
      rfl
    · exact DataHeap.view_congr (by rw [DataHeap.set_cells, if_neg hba])

theorem scrapped_refcount (c : Data) : c.scrapped.refcount = c.refcount := by
  unfold Data.scrapped
  split <;> rfl

/-- **What `data_ref` does**: nothing to NULL, and else it counts. -/
theorem dataRef_cases {h' : DataHeap} {a b : Addr} (heq : dataRef h a = some (h', b)) :
    b = a ∧ ((a = 0 ∧ h' = h) ∨
      ∃ c, a ≠ 0 ∧ h.cells a = some c ∧ h' = h.set a { c with refcount := c.refcount + 1 }) := by
  unfold dataRef at heq
  by_cases ha : a = 0
  · rw [if_pos ha] at heq
    cases heq
    exact ⟨ha.symm, Or.inl ⟨ha, rfl⟩⟩
  · rw [if_neg ha] at heq
    cases hc : h.cells a with
    | none =>
        rw [hc] at heq
        cases heq
    | some c =>
        rw [hc] at heq
        obtain ⟨ref, href, heq⟩ := Option.map_eq_some_iff.mp heq
        cases heq
        rw [incInt_some href]
        exact ⟨rfl, Or.inr ⟨c, ha, rfl, rfl⟩⟩

/-- **What `data_unref` leaves of a heap**: at 0 the cell is freed, or scrapped when it
is const. -/
inductive Unrefs (h : DataHeap) (a : Addr) : DataHeap → Prop
  | null (ha : a = 0) : Unrefs h a h
  | fewer {c : Data} (hc : h.cells a = some c) (hmore : c.refcount - 1 ≠ 0) :
      Unrefs h a (h.set a { c with refcount := c.refcount - 1 })
  | freed {c : Data} (hc : h.cells a = some c) (hlast : c.refcount - 1 = 0) : Unrefs h a (h.free a)
  | scrapped {c : Data} (hc : h.cells a = some c) (hlast : c.refcount - 1 = 0) :
      Unrefs h a (h.set a (Data.scrapped { c with refcount := c.refcount - 1 }))

theorem dataUnref_cases {h' : DataHeap} {a : Addr} (heq : dataUnref h a = some h') : Unrefs h a h' := by
  unfold dataUnref at heq
  by_cases ha : a = 0
  · rw [if_pos ha] at heq
    cases heq
    exact .null ha
  · rw [if_neg ha] at heq
    cases hc : h.cells a with
    | none =>
        rw [hc] at heq
        cases heq
    | some c =>
        rw [hc] at heq
        obtain ⟨ref, href, heq⟩ := Option.bind_eq_some_iff.mp heq
        obtain rfl := decInt_some href
        replace heq : (if c.refcount - 1 = 0 then dataDestroy _ a else some _) = some h' := heq
        split at heq
        next hlast =>
          unfold dataDestroy at heq
          rw [if_neg ha, DataHeap.set_cells, if_pos rfl, Option.some.injEq] at heq
          subst heq
          -- the count was written first, and is overwritten
          split
          · rw [DataHeap.set_set]
            exact .scrapped hc hlast
          · rw [DataHeap.set_free]
            exact .freed hc hlast
        next hmore =>
          cases heq
          exact .fewer hc hmore

/-- It has an outcome on what is live. -/
theorem dataUnref_isSome {a : Addr} {c : Data} (hc : h.cells a = some c) (hlow : -int32Max ≤ c.refcount) :
    ∃ h', dataUnref h a = some h' := by
  unfold dataUnref
  by_cases ha : a = 0
  · exact ⟨h, if_pos ha⟩
  · rw [if_neg ha, hc]
    show ∃ h', (decInt c.refcount).bind _ = some h'
    rw [decInt_eq hlow, Option.bind_some]
    show ∃ h', (if c.refcount - 1 = 0 then dataDestroy _ a else some _) = some h'
    split
    · unfold dataDestroy
      rw [if_neg ha, DataHeap.set_cells, if_pos rfl]
      exact ⟨_, rfl⟩
    · exact ⟨_, rfl⟩

/-- A holder of `a` less is no matter to the other cells. -/
theorem Counted.other {a b : Addr} {c : Data} (C : Counted h (a :: vals)) (hba : b ≠ a)
    (hc : h.cells b = some c) : (vals.count b : Int) ≤ c.refcount := by
  have hcount := C.counted b c hc
  rwa [List.count_cons_of_ne (Ne.symm hba)] at hcount

/-- Writing a cell at `a` that still counts the remaining holders. -/
theorem Counted.rewrite {a : Addr} {c : Data} (C : Counted h (a :: vals))
    (hle : (vals.count a : Int) ≤ c.refcount) : Counted (h.set a c) vals := by
  obtain ⟨c₀, hc₀⟩ := Option.ne_none_iff_exists'.mp (C.live a List.mem_cons_self)
  refine ⟨?_, ?_, ?_, C.pos⟩
  · intro b hb
    rw [DataHeap.set_cells]
    split
    next => exact Option.some_ne_none _
    next => exact C.live b (List.mem_cons_of_mem a hb)
  · intro b cb hcb
    rw [DataHeap.set_cells] at hcb
    split at hcb
    next hba => cases hcb; subst hba; exact hle
    next hba => exact C.other hba hcb
  · intro b cb hcb
    rw [DataHeap.set_cells] at hcb
    split at hcb
    next hba => subst hba; exact C.below b c₀ hc₀
    next => exact C.below b cb hcb

/-- Freeing the cell at `a`, when nobody else holds it. -/
theorem Counted.release {a : Addr} (C : Counted h (a :: vals)) (hnot : a ∉ vals) : Counted (h.free a) vals := by
  refine ⟨?_, ?_, ?_, C.pos⟩
  · intro b hb
    have hba : b ≠ a := fun e => hnot (e ▸ hb)
    rw [DataHeap.free_cells, if_neg hba]
    exact C.live b (List.mem_cons_of_mem a hb)
  · intro b cb hcb
    rw [DataHeap.free_cells] at hcb
    split at hcb
    next => cases hcb
    next hba => exact C.other hba hcb
  · intro b cb hcb
    rw [DataHeap.free_cells] at hcb
    split at hcb
    next => cases hcb
    next hba => exact C.below b cb hcb

/-- **`data_unref`** takes a holder away; values still held keep their payload. -/
theorem dataUnref_spec {a : Addr} (C : Counted h (a :: vals)) :
    ∃ h', dataUnref h a = some h' ∧ Counted h' vals ∧ (∀ b ∈ vals, h'.view b = h.view b) ∧
      h'.brk = h.brk := by
  obtain ⟨c, hc⟩ := Option.ne_none_iff_exists'.mp (C.live a List.mem_cons_self)
  have hcount := C.counted a c hc
  rw [List.count_cons_self] at hcount
  obtain ⟨h', hunref⟩ := dataUnref_isSome hc (by unfold int32Max; omega)
  have hset_view : ∀ c', ∀ b, b ≠ a → (h.set a c').view b = h.view b := fun c' b hba =>
    DataHeap.view_congr (by rw [DataHeap.set_cells, if_neg hba])
  -- nobody in `vals` holds a cell that is destroyed
  have hnot : c.refcount - 1 = 0 → ∀ b ∈ vals, b ≠ a := by
    rintro hlast b hb rfl
    have hpos := List.count_pos_iff.mpr hb
    omega
  refine ⟨h', hunref, ?_⟩
  cases dataUnref_cases hunref with
  | null ha => exact absurd ha (C.ne_zero List.mem_cons_self)
  | fewer hc₁ hmore =>
      obtain rfl := Option.some.inj (hc.symm.trans hc₁)
      refine ⟨C.rewrite (show _ ≤ c.refcount - 1 by omega), fun b _ => ?_, rfl⟩
      by_cases hba : b = a
      · subst hba
        unfold DataHeap.view
        rw [DataHeap.set_cells, if_pos rfl, hc]
        rfl
      · exact hset_view _ b hba
  | freed hc₁ hlast =>
      obtain rfl := Option.some.inj (hc.symm.trans hc₁)
      refine ⟨C.release fun hin => hnot hlast a hin rfl, fun b hb => ?_, rfl⟩
      exact DataHeap.view_congr (by rw [DataHeap.free_cells, if_neg (hnot hlast b hb)])
  | scrapped hc₁ hlast =>
      obtain rfl := Option.some.inj (hc.symm.trans hc₁)
      refine ⟨C.rewrite ?_, fun b hb => hset_view _ b (hnot hlast b hb), rfl⟩
      rw [scrapped_refcount]
      show _ ≤ c.refcount - 1
      omega

/-- A written cell counts no more than it did, if what is written does not. -/
theorem set_refcount {a b : Addr} {c c₁ c' : Data} {n : Int} (hc : h.cells a = some c) (hle : c₁.refcount ≤ c.refcount + n)
    (hn : 0 ≤ n) (hc' : (h.set a c₁).cells b = some c') : ∃ c, h.cells b = some c ∧ c'.refcount ≤ c.refcount + n := by
  rw [DataHeap.set_cells] at hc'
  split at hc'
  next hba =>
    cases hc'
    exact ⟨c, hba ▸ hc, hle⟩
  next => exact ⟨c', hc', by omega⟩

/-- `data_ref` counts one reference. -/
theorem dataRef_refcount {h' : DataHeap} {a b : Addr} {c' : Data} (heq : dataRef h a = some (h', b))
    (hc' : h'.cells a = some c') : ∃ c, h.cells a = some c ∧ c'.refcount ≤ c.refcount + 1 := by
  obtain ⟨-, ⟨-, rfl⟩ | ⟨c, -, hc, rfl⟩⟩ := dataRef_cases heq
  · exact ⟨c', hc', by omega⟩
  · exact set_refcount hc (Int.le_refl _) (by decide) hc'

/-- `data_unref` adds no reference. -/
theorem dataUnref_refcount {h' : DataHeap} {a b : Addr} {c' : Data} (heq : dataUnref h a = some h')
    (hc' : h'.cells b = some c') : ∃ c, h.cells b = some c ∧ c'.refcount ≤ c.refcount := by
  cases dataUnref_cases heq with
  | null ha => exact ⟨c', hc', Int.le_refl _⟩
  | @fewer c hc hmore =>
      simpa using set_refcount (n := 0) hc (show c.refcount - 1 ≤ c.refcount + 0 by omega) (Int.le_refl 0) hc'
  | freed hc hlast =>
      rw [DataHeap.free_cells] at hc'
      split at hc'
      · cases hc'
      · exact ⟨c', hc', Int.le_refl _⟩
  | @scrapped c hc hlast =>
      have hle : (Data.scrapped { c with refcount := c.refcount - 1 }).refcount ≤ c.refcount + 0 := by
        rw [scrapped_refcount]
        show c.refcount - 1 ≤ _
        omega
      simpa using set_refcount hc hle (Int.le_refl 0) hc'

/-- A new cell is held by nobody. -/
theorem Counted.alloc (C : Counted h vals) {c : Data} (hc : 0 ≤ c.refcount) :
    Counted (h.alloc c).1 vals ∧ (h.alloc c).1.cells h.brk = some c ∧
      (∀ b ∈ vals, (h.alloc c).1.view b = h.view b) := by
  -- every cell is below `brk`
  have hold : ∀ b, h.cells b ≠ none → b ≠ h.brk := by
    intro b hb e
    obtain ⟨cb, hcb⟩ := Option.ne_none_iff_exists'.mp hb
    exact absurd (C.below b cb hcb).2 (e ▸ Nat.lt_irrefl _)
  have hnot : h.brk ∉ vals := fun hin => hold _ (C.live _ hin) rfl
  refine ⟨⟨?_, ?_, ?_, Nat.succ_pos _⟩, ?_, ?_⟩
  · intro b hb
    rw [DataHeap.alloc_cells, if_neg (hold b (C.live b hb))]
    exact C.live b hb
  · intro b cb hcb
    rw [DataHeap.alloc_cells] at hcb
    split at hcb
    next hb =>
      cases hcb
      subst hb
      rw [List.count_eq_zero.mpr hnot]
      exact hc
    next => exact C.counted b cb hcb
  · intro b cb hcb
    rw [DataHeap.alloc_cells] at hcb
    split at hcb
    next hb =>
      subst hb
      exact ⟨Nat.ne_of_gt C.pos, Nat.lt_succ_self _⟩
    next => exact ⟨(C.below b cb hcb).1, Nat.lt_succ_of_lt (C.below b cb hcb).2⟩
  · rw [DataHeap.alloc_cells, if_pos rfl]
  · intro b hb
    exact DataHeap.view_congr (by rw [DataHeap.alloc_cells, if_neg (hold b (C.live b hb))])

end

end LzLib.Dict
