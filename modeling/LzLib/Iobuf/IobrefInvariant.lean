/-
  LzLib.Iobuf.IobrefInvariant
  ───────────────────────────
  **COUNTING TWO KINDS OF REFERENCES.**

  The references to an iobuf are those that callers hold and those in the
  slots of live iobrefs (`slotCount`).  The slots of an iobref fill up from the
  front (`fillSlots`), so that a loop that stops at an empty slot has seen
  them all.  Releasing the slots of an iobref puts back exactly the iobufs
  that had no other reference (`releaseLoop_spec`).
-/
import LzLib.Iobuf.IobrefDef
import LzLib.Iobuf.PoolRuns
import Mathlib.Data.List.Count

namespace LzLib.Iobuf

open LzLib.Foundation

/-! ## §1. The slots of all iobrefs. -/

/-- In how many slots an iobuf is. -/
def slotCount (l : List (Addr × Iobref)) (b : IobufPtr) : Nat :=
  (l.map fun e => e.2.slots.count (some b)).sum

section SlotCount

variable {l : List (Addr × Iobref)} {r : Addr} {x y : Iobref}

theorem slotCount_append (l l' : List (Addr × Iobref)) (b : IobufPtr) :
    slotCount (l ++ l') b = slotCount l b + slotCount l' b := by
  unfold slotCount
  rw [List.map_append, List.sum_append]

theorem slotCount_cons (e : Addr × Iobref) (l : List (Addr × Iobref)) (b : IobufPtr) :
    slotCount (e :: l) b = e.2.slots.count (some b) + slotCount l b := by
  unfold slotCount
  rw [List.map_cons, List.sum_cons]

/-- The only entry of an iobref. -/
theorem iobrefs_split (hnodup : (l.map Prod.fst).Nodup) (h : assocGet l r = some x) :
    ∃ pre post, l = pre ++ (r, x) :: post ∧ r ∉ pre.map Prod.fst ∧ r ∉ post.map Prod.fst := by
  obtain ⟨pre, post, rfl⟩ := List.append_of_mem (assocGet_mem h)
  refine ⟨pre, post, rfl, ?_, ?_⟩
  · intro hmem
    rw [List.map_append, List.map_cons] at hnodup
    exact (List.nodup_append.mp hnodup).2.2 r hmem r (List.mem_cons_self ..) rfl
  · rw [List.map_append, List.map_cons] at hnodup
    exact (List.nodup_cons.mp (List.nodup_append.mp hnodup).2.1).1

theorem slotCount_set (hnodup : (l.map Prod.fst).Nodup) (h : assocGet l r = some x) (y : Iobref)
    (b : IobufPtr) :
    slotCount (assocSet l r y) b + x.slots.count (some b) = slotCount l b + y.slots.count (some b) := by
  obtain ⟨pre, post, rfl, hpre, hpost⟩ := iobrefs_split hnodup h
  rw [assocSet_split hpre hpost]
  simp only [slotCount_append, slotCount_cons]
  omega

theorem slotCount_del (hnodup : (l.map Prod.fst).Nodup) (h : assocGet l r = some x) (b : IobufPtr) :
    slotCount (assocDel l r) b + x.slots.count (some b) = slotCount l b := by
  obtain ⟨pre, post, rfl, hpre, hpost⟩ := iobrefs_split hnodup h
  rw [assocDel_split hpre hpost]
  simp only [slotCount_append, slotCount_cons]
  omega

theorem slotCount_new (h : assocGet l r = none) (y : Iobref) (b : IobufPtr) :
    slotCount (assocSet l r y) b = y.slots.count (some b) + slotCount l b := by
  rw [assocSet_of_not_mem ((assocGet_eq_none_iff l r).mp h), slotCount_cons]

/-- Writing back what is there. -/
theorem assocSet_same (hnodup : (l.map Prod.fst).Nodup) (h : assocGet l r = some x) :
    assocSet l r x = l := by
  obtain ⟨pre, post, rfl, hpre, hpost⟩ := iobrefs_split hnodup h
  exact assocSet_split hpre hpost

end SlotCount

/-! ## §2. The slots of one iobref. -/

/-- The slots of an iobref with the iobufs `xs`. -/
def fillSlots (xs : List IobufPtr) : List (Option IobufPtr) :=
  xs.map some ++ List.replicate (8 - xs.length) none

theorem count_fillSlots (xs : List IobufPtr) (b : IobufPtr) : (fillSlots xs).count (some b) = xs.count b := by
  unfold fillSlots
  rw [List.count_append, List.count_map_of_injective _ _ (Option.some_injective _), List.count_replicate]
  simp

/-- The search for an empty slot runs over the full ones. -/
theorem addLoop_map (p : Pool) (b : IobufPtr) (xs : List IobufPtr) (slots : List (Option IobufPtr)) :
    addLoop p b (xs.map some ++ slots)
      = (addLoop p b slots).map fun r => (r.1, xs.map some ++ r.2.1, r.2.2) := by
  induction xs with
  | nil => simp
  | cons x xs ih =>
      simp only [List.map_cons, List.cons_append, addLoop, ih, Option.map_map]
      rfl

theorem addLoop_room {p : Pool} {b : IobufPtr} {xs : List IobufPtr} (hroom : xs.length < 8) :
    addLoop p b (fillSlots xs) = (iobufRef p b).map fun p => (p, fillSlots (xs ++ [b]), 0) := by
  obtain ⟨k, hk⟩ : ∃ k, 8 - xs.length = k + 1 := ⟨8 - xs.length - 1, by omega⟩
  have hk' : 8 - (xs ++ [b]).length = k := by
    rw [List.length_append, List.length_singleton]
    omega
  unfold fillSlots
  rw [hk, hk', addLoop_map, List.replicate_succ, List.map_append, List.append_assoc]
  unfold addLoop
  rw [Option.map_map]
  rfl

theorem addLoop_full {p : Pool} {b : IobufPtr} {xs : List IobufPtr} (hfull : xs.length = 8) :
    addLoop p b (fillSlots xs) = some (p, fillSlots xs, negENOMEM) := by
  unfold fillSlots
  rw [hfull, addLoop_map]
  rfl

/-! ## §3. Putting back. -/

/-- From `refs` to `refs'`, an iobuf was put back when its last reference
went, and only then, and once. -/
def PutsWhenZero (p p' : Pool) (refs refs' : IobufPtr → Nat) : Prop :=
  ∃ new, p'.puts = p.puts ++ new ∧ new.Nodup ∧ ∀ b, b ∈ new ↔ 0 < refs b ∧ refs' b = 0

section Puts

variable {p p' p'' : Pool} {refs refs' refs'' : IobufPtr → Nat} {N : Nat}

theorem PutsWhenZero.none (hputs : p'.puts = p.puts) (h : ∀ b, 0 < refs b → 0 < refs' b) :
    PutsWhenZero p p' refs refs' := by
  refine ⟨[], by rw [hputs, List.append_nil], List.nodup_nil, ?_⟩
  intro b
  apply iff_of_false List.not_mem_nil
  rintro ⟨hpos, hzero⟩
  have hpos' := h b hpos
  omega

/-- References that only go. -/
theorem PutsWhenZero.trans (h₁ : PutsWhenZero p p' refs refs') (h₂ : PutsWhenZero p' p'' refs' refs'')
    (hle₁ : ∀ b, refs' b ≤ refs b) (hle₂ : ∀ b, refs'' b ≤ refs' b) : PutsWhenZero p p'' refs refs'' := by
  obtain ⟨new₁, hputs₁, hnodup₁, hmem₁⟩ := h₁
  obtain ⟨new₂, hputs₂, hnodup₂, hmem₂⟩ := h₂
  refine ⟨new₁ ++ new₂, by rw [hputs₂, hputs₁, List.append_assoc], ?_, ?_⟩
  · refine List.nodup_append.mpr ⟨hnodup₁, hnodup₂, ?_⟩
    rintro b hb _ hb' rfl
    have hzero := ((hmem₁ b).mp hb).2
    have hpos := ((hmem₂ b).mp hb').1
    omega
  · intro b
    have hb₁ := hle₁ b
    have hb₂ := hle₂ b
    rw [List.mem_append, hmem₁, hmem₂]
    omega

/-- **One reference less.** -/
theorem iobufUnref_puts (h : PoolInv N p refs) {b : IobufPtr} (hb : 0 < refs b) :
    ∃ p', iobufUnref p b = some p' ∧ PoolInv N p' (Function.update refs b (refs b - 1)) ∧
      PutsWhenZero p p' refs (Function.update refs b (refs b - 1)) := by
  obtain ⟨al, bl, hok⟩ := h
  obtain ⟨p', hrun, hinv, hputs⟩ := iobufUnref_spec hok hb
  refine ⟨p', hrun, hinv, _, hputs, ?_, ?_⟩
  · split
    · exact List.nodup_singleton b
    · exact List.nodup_nil
  · intro c
    by_cases hone : refs b = 1
    · rw [if_pos hone, List.mem_singleton]
      by_cases hc : c = b
      · rw [hc, Function.update_self]
        exact iff_of_true rfl ⟨hb, by omega⟩
      · rw [Function.update_of_ne hc]
        apply iff_of_false hc
        omega
    · rw [if_neg hone]
      apply iff_of_false List.not_mem_nil
      by_cases hc : c = b
      · rw [hc, Function.update_self]
        omega
      · rw [Function.update_of_ne hc]
        omega

/-- **The slots of an iobref are released**, one reference each. -/
theorem releaseLoop_spec (slots : List (Option IobufPtr)) (h : PoolInv N p refs)
    (hslots : ∀ b, slots.count (some b) ≤ refs b) :
    ∃ p', releaseLoop slots p = some p' ∧ PoolInv N p' (fun b => refs b - slots.count (some b)) ∧
      PutsWhenZero p p' refs fun b => refs b - slots.count (some b) := by
  induction slots generalizing p refs with
  | nil => exact ⟨p, rfl, h, PutsWhenZero.none rfl fun _ hb => hb⟩
  | cons slot slots ih =>
      cases slot with
      | none =>
          have hcount : ∀ b : IobufPtr, (none :: slots).count (some b) = slots.count (some b) :=
            fun b => List.count_cons_of_ne (by simp)
          simp only [hcount] at hslots ⊢
          exact ih h hslots
      | some b =>
          have hb := hslots b
          rw [List.count_cons_self] at hb
          obtain ⟨p₁, hrun₁, hinv₁, hputs₁⟩ := iobufUnref_puts h (by omega : 0 < refs b)
          -- the loop goes on with one reference less, and one slot less that needs it
          have hleft : ∀ c, slots.count (some c) ≤ Function.update refs b (refs b - 1) c := by
            intro c
            have hc := hslots c
            by_cases hcb : c = b
            · rw [hcb, Function.update_self]
              omega
            · rw [List.count_cons_of_ne (by simp [Ne.symm hcb])] at hc
              rw [Function.update_of_ne hcb]
              exact hc
          obtain ⟨p', hrun, hinv, hputs⟩ := ih hinv₁ hleft
          have hrefs : (fun c => Function.update refs b (refs b - 1) c - slots.count (some c))
              = fun c => refs c - (some b :: slots).count (some c) := by
            funext c
            by_cases hcb : c = b
            · rw [hcb, Function.update_self, List.count_cons_self]
              omega
            · rw [Function.update_of_ne hcb, List.count_cons_of_ne (by simp [Ne.symm hcb])]
          rw [hrefs] at hinv hputs
          refine ⟨p', by simp only [releaseLoop, hrun₁, hrun], hinv, hputs₁.trans hputs ?_ ?_⟩
          · intro c
            by_cases hcb : c = b
            · rw [hcb, Function.update_self]
              omega
            · rw [Function.update_of_ne hcb]
          · intro c
            rw [← congrFun hrefs c]
            omega

end Puts

end LzLib.Iobuf
