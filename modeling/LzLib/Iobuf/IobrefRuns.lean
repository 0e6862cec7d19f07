/-
  LzLib.Iobuf.IobrefRuns
  ──────────────────────
  **REFERENCE CONSERVATION.**

  Over any run of callers that release only what they hold, the `ref` of an
  iobuf is the number of references callers hold plus the number of slots of
  live iobrefs it is in, and it is put back exactly when that sum becomes 0.
  Merging takes over the first eight of both iobrefs together.

  Main result: `reference_conservation`.
-/
import LzLib.Iobuf.IobrefInvariant

namespace LzLib.Iobuf

open LzLib.Foundation

/-! ## §1. The invariant. -/

/-- All references to an iobuf. -/
def Holders.total (s : Holders) (b : IobufPtr) : Nat := s.held b + slotCount s.buf.iobrefs b

/-- Callers name what they hold, or what an iobref they hold keeps alive, and
release only what they hold; `CALLOC` returns memory that is not in use. -/
def Holders.allowed (s : Holders) : IobrefOp → Prop
  | .get env => ∀ a, env.calloc = some a → s.buf.pool.heap a = none
  | .ref b => 0 < s.total b
  | .unref b => 0 < s.held b
  | .newIobref calloc => ∀ r, calloc = some r → assocGet s.buf.iobrefs r = none
  | .refIobref r => 0 < s.heldRefs r
  | .unrefIobref r => 0 < s.heldRefs r
  | .add r b => 0 < s.heldRefs r ∧ 0 < s.total b
  | .merge to' from' => to' ≠ from' ∧ 0 < s.heldRefs to' ∧ 0 < s.heldRefs from'

def holders : Component Holders IobrefOp := ⟨Holders.step, Holders.allowed⟩

/-- The iobufs of a live iobref. -/
def Buffers.Contains (buf : Buffers) (r : Addr) (xs : List IobufPtr) : Prop :=
  ∃ x, assocGet buf.iobrefs r = some x ∧ xs.length ≤ 8 ∧ x.slots = fillSlots xs

/-- A count that the operation would raise is at `INT_MAX`, or as far below
it as a merge has slots. -/
def Holders.AtIntMax (s : Holders) : IobrefOp → Prop
  | .get _ => int32Max ≤ s.buf.pool.arenaCnt
  | .ref b => int32Max ≤ s.total b
  | .refIobref r => int32Max ≤ s.heldRefs r
  | .add _ b => int32Max ≤ s.total b
  | .merge _ from' => ∃ ys b, s.buf.Contains from' ys ∧ b ∈ ys ∧ int32Max ≤ s.total b + 8
  | _ => False

/-- **Conservation**, between two operations. -/
structure Conserved (N : Nat) (s : Holders) : Prop where
  inv : PoolInv N s.buf.pool s.total
  nodup : (s.buf.iobrefs.map Prod.fst).Nodup
  counted : ∀ r x, assocGet s.buf.iobrefs r = some x → x.ref = s.heldRefs r ∧ 0 < s.heldRefs r
  filled : ∀ r x, assocGet s.buf.iobrefs r = some x → ∃ xs, s.buf.Contains r xs
  dead : ∀ r, assocGet s.buf.iobrefs r = none → s.heldRefs r = 0

section Reading

variable {N : Nat} {s : Holders}

theorem Conserved.get (h : Conserved N s) {r : Addr} (hr : 0 < s.heldRefs r) :
    ∃ x xs, assocGet s.buf.iobrefs r = some x ∧ xs.length ≤ 8 ∧ x.slots = fillSlots xs := by
  cases hget : assocGet s.buf.iobrefs r with
  | none =>
      have hzero := h.dead r hget
      omega
  | some x =>
      obtain ⟨xs, y, hy, hlen, hslots⟩ := h.filled r x hget
      rw [hget, Option.some.injEq] at hy
      exact ⟨x, xs, rfl, hlen, hy ▸ hslots⟩

/-- An iobuf in a slot is referenced. -/
theorem total_of_slot (h : Conserved N s) {r : Addr} {x : Iobref} {xs : List IobufPtr}
    (hx : assocGet s.buf.iobrefs r = some x) (hslots : x.slots = fillSlots xs) {b : IobufPtr} (hb : b ∈ xs) :
    0 < s.total b := by
  have hdel := slotCount_del h.nodup hx b
  have hpos := List.count_pos_iff.mpr hb
  rw [hslots, count_fillSlots] at hdel
  unfold Holders.total
  omega

end Reading

/-! ## §2. Writing one iobref. -/

/-- The iobref `r` becomes `x`, and `callers` the references to it. -/
theorem Conserved.write {N : Nat} {s : Holders} (h : Conserved N s) {r : Addr} {x : Iobref} {callers : Nat}
    {p : Pool} (xs : List IobufPtr) (hlen : xs.length ≤ 8) (hslots : x.slots = fillSlots xs)
    (href : x.ref = callers) (hcallers : 0 < callers)
    (hinv : PoolInv N p fun b => s.held b + slotCount (assocSet s.buf.iobrefs r x) b) :
    Conserved N ⟨⟨p, assocSet s.buf.iobrefs r x⟩, s.held, Function.update s.heldRefs r callers⟩ := by
  -- an entry of the written table is the new one or an old one
  have hget : ∀ r' y, assocGet (assocSet s.buf.iobrefs r x) r' = some y →
      r' = r ∧ y = x ∨ r' ≠ r ∧ assocGet s.buf.iobrefs r' = some y := by
    intro r' y hy
    rw [assocGet_set] at hy
    by_cases hr : r' = r
    · rw [if_pos hr, Option.some.injEq] at hy
      exact Or.inl ⟨hr, hy.symm⟩
    · rw [if_neg hr] at hy
      exact Or.inr ⟨hr, hy⟩
  refine ⟨hinv, nodup_keys_assocSet h.nodup, ?_, ?_, ?_⟩
  · intro r' y hy
    rcases hget r' y hy with ⟨rfl, rfl⟩ | ⟨hne, hold⟩
    · show y.ref = (Function.update s.heldRefs r' callers r' : Int) ∧ 0 < Function.update s.heldRefs r' callers r'
      rw [Function.update_self]
      exact ⟨href, hcallers⟩
    · show y.ref = (Function.update s.heldRefs r callers r' : Int) ∧ 0 < Function.update s.heldRefs r callers r'
      rw [Function.update_of_ne hne]
      exact h.counted r' y hold
  · intro r' y hy
    rcases hget r' y hy with ⟨rfl, rfl⟩ | ⟨hne, hold⟩
    · exact ⟨xs, y, hy, hlen, hslots⟩
    · obtain ⟨ys, z, hz, hrest⟩ := h.filled r' y hold
      rw [hold, Option.some.injEq] at hz
      exact ⟨ys, y, hy, hz ▸ hrest⟩
  · intro r' hnone
    have hnone' : (if r' = r then some x else assocGet s.buf.iobrefs r') = none := by
      rw [← assocGet_set]
      exact hnone
    by_cases hr : r' = r
    · rw [if_pos hr] at hnone'
      cases hnone'
    · rw [if_neg hr] at hnone'
      show Function.update s.heldRefs r callers r' = 0
      rw [Function.update_of_ne hr]
      exact h.dead r' hnone'

/-! ## §3. The operations. -/

/-- What an operation does: conservation again, and the iobufs whose last
reference went are put back. -/
def StepOk (N : Nat) (s : Holders) (s' : Holders) : Prop :=
  Conserved N s' ∧ PutsWhenZero s.buf.pool s'.buf.pool s.total s'.total

section Operations

variable {N : Nat} {s : Holders}

/-- Another number of references in callers' hands. -/
theorem total_update (s : Holders) {b : IobufPtr} {k n : Nat} (hk : k + slotCount s.buf.iobrefs b = n) :
    (fun c => Function.update s.held b k c + slotCount s.buf.iobrefs c) = Function.update s.total b n := by
  funext c
  by_cases hc : c = b
  · rw [hc, Function.update_self, Function.update_self, hk]
  · rw [Function.update_of_ne hc, Function.update_of_ne hc]
    rfl

/-- An operation on the pool alone. -/
theorem Conserved.onPool (h : Conserved N s) {p : Pool} (held : IobufPtr → Nat)
    (hinv : PoolInv N p fun b => held b + slotCount s.buf.iobrefs b) :
    Conserved N { s with buf := { s.buf with pool := p }, held := held } :=
  ⟨hinv, h.nodup, h.counted, h.filled, h.dead⟩

theorem update_succ_pos (refs : IobufPtr → Nat) (b : IobufPtr) {n : Nat} (hn : 0 < n) (c : IobufPtr)
    (hc : 0 < refs c) : 0 < Function.update refs b n c := by
  by_cases hcb : c = b
  · rw [hcb, Function.update_self]
    exact hn
  · rw [Function.update_of_ne hcb]
    exact hc

theorem step_get (h : Conserved N s) (env : AllocEnv) (ho : s.allowed (.get env)) :
    (∃ s', s.step (.get env) = some s' ∧ StepOk N s s') ∨
      (s.AtIntMax (.get env) ∧ s.step (.get env) = none) := by
  obtain ⟨al, bl, hok⟩ := h.inv
  rcases iobufGet_spec hok env ho with ⟨hfull, hnone⟩ | ⟨p, hrun, hputs, hinv⟩ | ⟨p, b, hrun, hputs, hzero, hinv⟩
  · exact Or.inr ⟨hfull, by simp only [Holders.step, hnone]⟩
  · refine Or.inl ⟨{ s with buf := { s.buf with pool := p } }, by simp only [Holders.step, hrun], ?_, ?_⟩
    · exact h.onPool s.held hinv.inv
    · exact PutsWhenZero.none hputs fun _ hb => hb
  · have htotal : s.held b + 1 + slotCount s.buf.iobrefs b = 1 := by
      unfold Holders.total at hzero
      omega
    have hinv' := hinv.inv
    rw [← total_update s htotal] at hinv'
    refine Or.inl ⟨_, by simp only [Holders.step, hrun], h.onPool _ hinv', PutsWhenZero.none hputs ?_⟩
    show ∀ c, 0 < s.total c → 0 < Function.update s.held b (s.held b + 1) c + slotCount s.buf.iobrefs c
    intro c hc
    rw [congrFun (total_update s htotal) c]
    exact update_succ_pos s.total b Nat.one_pos c hc

theorem step_ref (h : Conserved N s) {b : IobufPtr} (ho : s.allowed (.ref b)) :
    (∃ s', s.step (.ref b) = some s' ∧ StepOk N s s') ∨ (s.AtIntMax (.ref b) ∧ s.step (.ref b) = none) := by
  obtain ⟨al, bl, hok⟩ := h.inv
  rcases iobufRef_spec hok ho with ⟨hfull, hnone⟩ | ⟨p, hrun, hputs, hok'⟩
  · exact Or.inr ⟨hfull, by simp only [Holders.step, hnone, Option.map_none]⟩
  · have htotal : s.held b + 1 + slotCount s.buf.iobrefs b = s.total b + 1 := by
      unfold Holders.total
      omega
    rw [← total_update s htotal] at hok'
    refine Or.inl ⟨_, by simp only [Holders.step, hrun, Option.map_some], h.onPool _ ⟨al, bl, hok'⟩,
      PutsWhenZero.none hputs ?_⟩
    show ∀ c, 0 < s.total c → 0 < Function.update s.held b (s.held b + 1) c + slotCount s.buf.iobrefs c
    intro c hc
    rw [congrFun (total_update s htotal) c]
    exact update_succ_pos s.total b (Nat.succ_pos _) c hc

theorem step_unref (h : Conserved N s) {b : IobufPtr} (ho : s.allowed (.unref b)) :
    ∃ s', s.step (.unref b) = some s' ∧ StepOk N s s' := by
  have hheld : 0 < s.held b := ho
  have hpos : 0 < s.total b := Nat.add_pos_left hheld _
  have htotal : s.held b - 1 + slotCount s.buf.iobrefs b = s.total b - 1 := by
    unfold Holders.total
    omega
  obtain ⟨p, hrun, hinv, hputs⟩ := iobufUnref_puts h.inv hpos
  rw [← total_update s htotal] at hinv hputs
  exact ⟨_, by simp only [Holders.step, hrun, Option.map_some], h.onPool _ hinv, hputs⟩

theorem step_newIobref (h : Conserved N s) {calloc : Option Addr} (ho : s.allowed (.newIobref calloc)) :
    ∃ s', s.step (.newIobref calloc) = some s' ∧ StepOk N s s' := by
  cases calloc with
  | none => exact ⟨s, rfl, h, PutsWhenZero.none rfl fun _ hb => hb⟩
  | some r =>
      have hnew : assocGet s.buf.iobrefs r = none := ho r rfl
      have hslots : ∀ b, slotCount (assocSet s.buf.iobrefs r ⟨0 + 1, List.replicate 8 none⟩) b
          = slotCount s.buf.iobrefs b := by
        intro b
        rw [slotCount_new hnew]
        show (fillSlots []).count (some b) + _ = _
        rw [count_fillSlots, List.count_nil, Nat.zero_add]
      have htotal : (fun b => s.held b
          + slotCount (assocSet s.buf.iobrefs r ⟨0 + 1, List.replicate 8 none⟩) b) = s.total := by
        funext b
        rw [hslots]
        rfl
      refine ⟨_, rfl, h.write [] (by simp) rfl rfl Nat.one_pos (htotal ▸ h.inv), ?_⟩
      apply PutsWhenZero.none rfl
      intro b hb
      rw [← htotal] at hb
      exact hb

/-- The same slots, with another count of the iobref. -/
theorem total_recount (h : Conserved N s) {r : Addr} {x : Iobref} (hx : assocGet s.buf.iobrefs r = some x)
    (ref : Int) :
    (fun b => s.held b + slotCount (assocSet s.buf.iobrefs r { x with ref := ref }) b) = s.total := by
  funext b
  have hset := slotCount_set h.nodup hx { x with ref := ref } b
  have hcount : ({ x with ref := ref } : Iobref).slots.count (some b) = x.slots.count (some b) := rfl
  unfold Holders.total
  omega

theorem step_refIobref (h : Conserved N s) {r : Addr} (ho : s.allowed (.refIobref r)) :
    (∃ s', s.step (.refIobref r) = some s' ∧ StepOk N s s') ∨
      (s.AtIntMax (.refIobref r) ∧ s.step (.refIobref r) = none) := by
  obtain ⟨x, xs, hx, hlen, hslots⟩ := h.get ho
  have href := (h.counted r x hx).1
  by_cases hfull : (s.heldRefs r : Int) < int32Max
  · have hinc : incInt x.ref = some ((s.heldRefs r : Int) + 1) := by
      rw [href, incInt, if_pos hfull]
    have htotal := total_recount h hx (s.heldRefs r + 1)
    refine Or.inl ⟨_, by simp only [Holders.step, iobrefRef, hx, hinc, Option.map_some]; rfl, ?_, ?_⟩
    · exact h.write xs hlen hslots rfl (Nat.succ_pos _) (htotal ▸ h.inv)
    · apply PutsWhenZero.none rfl
      intro b hb
      rw [← htotal] at hb
      exact hb
  · refine Or.inr ⟨Int.not_lt.mp hfull, ?_⟩
    have hinc : incInt x.ref = none := by rw [href, incInt, if_neg hfull]
    simp only [Holders.step, iobrefRef, hx, hinc, Option.map_none]

theorem assocDel_set {l : List (Addr × Iobref)} {r : Addr} {x : Iobref} (hnodup : (l.map Prod.fst).Nodup)
    (hx : assocGet l r = some x) (y : Iobref) : assocDel (assocSet l r y) r = assocDel l r := by
  obtain ⟨pre, post, rfl, hpre, hpost⟩ := iobrefs_split hnodup hx
  rw [assocSet_split hpre hpost, assocDel_split hpre hpost, assocDel_split hpre hpost]

/-- **The last reference to an iobref** releases its slots. -/
theorem iobrefDestroy_spec (h : Conserved N s) {r : Addr} {x y : Iobref}
    (hx : assocGet s.buf.iobrefs r = some x) (hy : y.slots = x.slots) :
    ∃ buf', iobrefDestroy (s.buf.setIobref r y) r = some buf' ∧
      StepOk N s ⟨buf', s.held, Function.update s.heldRefs r 0⟩ := by
  have hget : assocGet (assocSet s.buf.iobrefs r y) r = some y := by
    rw [assocGet_set, if_pos rfl]
  -- the slots are among the references that exist
  have hle : ∀ b, x.slots.count (some b) ≤ s.total b := by
    intro b
    have hdel := slotCount_del h.nodup hx b
    unfold Holders.total
    omega
  obtain ⟨p, hrun, hinv, hputs⟩ := releaseLoop_spec x.slots h.inv hle
  -- so what is left is the callers' references and the other slots
  have htotal : (fun b => s.total b - x.slots.count (some b))
      = fun b => s.held b + slotCount (assocDel s.buf.iobrefs r) b := by
    funext b
    have hdel := slotCount_del h.nodup hx b
    unfold Holders.total
    omega
  rw [htotal] at hinv hputs
  have hlookup : ∀ r', assocGet (assocDel s.buf.iobrefs r) r'
      = if r' = r then none else assocGet s.buf.iobrefs r' := fun r' => assocGet_del _ _ _
  refine ⟨⟨p, assocDel s.buf.iobrefs r⟩, ?_, ⟨hinv, nodup_keys_assocDel h.nodup, ?_, ?_, ?_⟩, hputs⟩
  · unfold iobrefDestroy Buffers.setIobref
    dsimp only
    rw [hget, assocDel_set h.nodup hx]
    simp only [hy, hrun, Option.map_some]
  · -- the other iobrefs keep their callers
    intro r' z hz
    have hz' := (hlookup r').symm.trans hz
    by_cases hr : r' = r
    · rw [if_pos hr] at hz'
      cases hz'
    · rw [if_neg hr] at hz'
      show z.ref = (Function.update s.heldRefs r 0 r' : Int) ∧ 0 < Function.update s.heldRefs r 0 r'
      rw [Function.update_of_ne hr]
      exact h.counted r' z hz'
  · intro r' z hz
    have hz' := (hlookup r').symm.trans hz
    by_cases hr : r' = r
    · rw [if_pos hr] at hz'
      cases hz'
    · rw [if_neg hr] at hz'
      obtain ⟨ys, w, hw, hrest⟩ := h.filled r' z hz'
      rw [hz', Option.some.injEq] at hw
      exact ⟨ys, z, hz, hw ▸ hrest⟩
  · intro r' hnone
    have hnone' := (hlookup r').symm.trans hnone
    show Function.update s.heldRefs r 0 r' = 0
    by_cases hr : r' = r
    · rw [hr, Function.update_self]
    · rw [if_neg hr] at hnone'
      rw [Function.update_of_ne hr]
      exact h.dead r' hnone'

theorem step_unrefIobref (h : Conserved N s) {r : Addr} (ho : s.allowed (.unrefIobref r)) :
    ∃ s', s.step (.unrefIobref r) = some s' ∧ StepOk N s s' := by
  have hpos : 0 < s.heldRefs r := ho
  obtain ⟨x, xs, hx, hlen, hslots⟩ := h.get hpos
  have href := (h.counted r x hx).1
  have hdec : decInt x.ref = some ((s.heldRefs r - 1 : Nat) : Int) := by
    rw [href, decInt, if_pos (by unfold int32Max; omega)]
    congr 1
    omega
  -- the last caller destroys it, and its slots give their references back
  by_cases hlast : s.heldRefs r = 1
  · obtain ⟨buf', hrun, hstep⟩ := iobrefDestroy_spec h hx (y := { x with ref := 0 }) rfl
    refine ⟨_, ?_, hstep⟩
    have hzero : ((s.heldRefs r - 1 : Nat) : Int) = 0 := by omega
    simp only [Holders.step, iobrefUnref, hx, hdec, hzero, if_true, hrun, Option.map_some]
    rw [hlast]
  · have htotal := total_recount h hx ((s.heldRefs r - 1 : Nat) : Int)
    have hne : ¬ ((s.heldRefs r - 1 : Nat) : Int) = 0 := by omega
    refine ⟨_, by simp only [Holders.step, iobrefUnref, hx, hdec, if_neg hne, Option.map_some]; rfl, ?_, ?_⟩
    · exact h.write xs hlen hslots rfl (by omega) (htotal ▸ h.inv)
    · apply PutsWhenZero.none rfl
      intro b hb
      rw [← htotal] at hb
      exact hb

/-- What adding iobufs to `r` may change: one reference more for some, and
the slots of `r`. -/
structure Grown (N : Nat) (s : Holders) (r : Addr) (buf' : Buffers) : Prop where
  conserved : Conserved N { s with buf := buf' }
  puts : buf'.pool.puts = s.buf.pool.puts
  kept : ∀ b, 0 < s.total b → 0 < ({ s with buf := buf' } : Holders).total b
  others : ∀ r', r' ≠ r → assocGet buf'.iobrefs r' = assocGet s.buf.iobrefs r'

theorem Grown.stepOk {r : Addr} {buf' : Buffers} (h : Grown N s r buf') :
    StepOk N s { s with buf := buf' } :=
  ⟨h.conserved, PutsWhenZero.none h.puts h.kept⟩

/-- **`iobref_add`** into an iobref with an empty slot. -/
theorem iobrefAdd_room (h : Conserved N s) {r : Addr} {x : Iobref} {xs : List IobufPtr}
    (hx : assocGet s.buf.iobrefs r = some x) (hslots : x.slots = fillSlots xs) (hroom : xs.length < 8)
    {b : IobufPtr} (hb : 0 < s.total b) :
    (int32Max ≤ s.total b ∧ iobrefAdd s.buf r b = none) ∨
    ∃ buf', iobrefAdd s.buf r b = some (buf', 0) ∧ Grown N s r buf' ∧
      assocGet buf'.iobrefs r = some { x with slots := fillSlots (xs ++ [b]) } ∧
      ({ s with buf := buf' } : Holders).total = Function.update s.total b (s.total b + 1) := by
  obtain ⟨al, bl, hok⟩ := h.inv
  rcases iobufRef_spec hok hb with ⟨hfull, hnone⟩ | ⟨p, hrun, hputs, hok'⟩
  · refine Or.inl ⟨hfull, ?_⟩
    simp only [iobrefAdd, hx, hslots, addLoop_room hroom, hnone, Option.map_none]
  · have hcounted := h.counted r x hx
    -- the slot is the one place that holds one more
    have htotal : (fun c => s.held c
        + slotCount (assocSet s.buf.iobrefs r { x with slots := fillSlots (xs ++ [b]) }) c)
          = Function.update s.total b (s.total b + 1) := by
      funext c
      have hset := slotCount_set h.nodup hx { x with slots := fillSlots (xs ++ [b]) } c
      have hcount : ({ x with slots := fillSlots (xs ++ [b]) } : Iobref).slots.count (some c)
          = xs.count c + [b].count c := by
        show (fillSlots (xs ++ [b])).count (some c) = _
        rw [count_fillSlots, List.count_append]
      rw [hslots, count_fillSlots] at hset
      by_cases hc : c = b
      · subst hc
        rw [List.count_singleton_self] at hcount
        rw [Function.update_self]
        unfold Holders.total
        omega
      · rw [List.count_singleton, if_neg (by simp [Ne.symm hc])] at hcount
        rw [Function.update_of_ne hc]
        unfold Holders.total
        omega
    have hsame : Function.update s.heldRefs r (s.heldRefs r) = s.heldRefs := Function.update_eq_self r _
    have hinv : PoolInv N p fun c => s.held c
        + slotCount (assocSet s.buf.iobrefs r { x with slots := fillSlots (xs ++ [b]) }) c := by
      rw [htotal]
      exact ⟨al, bl, hok'⟩
    have hlen : (xs ++ [b]).length ≤ 8 := by
      rw [List.length_append, List.length_singleton]
      omega
    have hwrite := h.write (xs ++ [b]) (x := { x with slots := fillSlots (xs ++ [b]) }) hlen rfl
      hcounted.1 hcounted.2 hinv
    rw [hsame] at hwrite
    refine Or.inr ⟨⟨p, assocSet s.buf.iobrefs r { x with slots := fillSlots (xs ++ [b]) }⟩, ?_,
      ⟨hwrite, hputs, ?_, ?_⟩, ?_, htotal⟩
    · simp only [iobrefAdd, hx, hslots, addLoop_room hroom, hrun, Option.map_some]
    · intro c hc
      show 0 < (fun c => s.held c
        + slotCount (assocSet s.buf.iobrefs r { x with slots := fillSlots (xs ++ [b]) }) c) c
      rw [htotal]
      exact update_succ_pos s.total b (Nat.succ_pos _) c hc
    · intro r' hr
      rw [assocGet_set, if_neg hr]
    · rw [assocGet_set, if_pos rfl]

/-- `iobref_add` into a full iobref takes no reference. -/
theorem iobrefAdd_full (h : Conserved N s) {r : Addr} {x : Iobref} {xs : List IobufPtr}
    (hx : assocGet s.buf.iobrefs r = some x) (hslots : x.slots = fillSlots xs) (hfull : xs.length = 8)
    (b : IobufPtr) : iobrefAdd s.buf r b = some (s.buf, negENOMEM) := by
  have hsame : ({ x with slots := fillSlots xs } : Iobref) = x := by rw [← hslots]
  simp only [iobrefAdd, hx, hslots, addLoop_full hfull, hsame, assocSet_same h.nodup hx]

theorem Grown.refl (h : Conserved N s) (r : Addr) : Grown N s r s.buf :=
  ⟨h, rfl, fun _ hb => hb, fun _ _ => rfl⟩

theorem step_add (h : Conserved N s) {r : Addr} {b : IobufPtr} (ho : s.allowed (.add r b)) :
    (∃ s', s.step (.add r b) = some s' ∧ StepOk N s s') ∨
      (s.AtIntMax (.add r b) ∧ s.step (.add r b) = none) := by
  obtain ⟨x, xs, hx, hlen, hslots⟩ := h.get ho.1
  by_cases hroom : xs.length < 8
  · rcases iobrefAdd_room h hx hslots hroom ho.2 with ⟨hfull, hnone⟩ | ⟨buf', hrun, hgrown, -, -⟩
    · exact Or.inr ⟨hfull, by simp only [Holders.step, hnone, Option.map_none]⟩
    · exact Or.inl ⟨_, by simp only [Holders.step, hrun, Option.map_some], hgrown.stepOk⟩
  · have hrun := iobrefAdd_full h hx hslots (by omega) b
    exact Or.inl ⟨_, by simp only [Holders.step, hrun, Option.map_some], (Grown.refl h r).stepOk⟩

/-- **The loop of `iobref_merge`**, over the iobufs `ys` of `from`. -/
theorem mergeLoop_spec (to' : Addr) (k : Nat) (ys : List IobufPtr) {s : Holders} (h : Conserved N s)
    {x : Iobref} {xs : List IobufPtr} (hx : assocGet s.buf.iobrefs to' = some x)
    (hslots : x.slots = fillSlots xs) (hlen : xs.length ≤ 8) (hys : ∀ b ∈ ys, 0 < s.total b) :
    ((∃ b ∈ ys, int32Max ≤ s.total b + (8 - xs.length : Nat)) ∧
      mergeLoop to' (ys.map some ++ List.replicate k none) s.buf 0 = none) ∨
    ∃ buf' ret, mergeLoop to' (ys.map some ++ List.replicate k none) s.buf 0 = some (buf', ret) ∧
      Grown N s to' buf' ∧
      assocGet buf'.iobrefs to' = some { x with slots := fillSlots ((xs ++ ys).take 8) } ∧
      (ret = 0 ↔ xs.length + ys.length ≤ 8) ∧ (ret ≠ 0 → ret = negENOMEM) := by
  induction ys generalizing s x xs with
  | nil =>
      have hend : mergeLoop to' (List.replicate k none) s.buf 0 = some (s.buf, 0) := by
        cases k <;> rfl
      have hsame : ({ x with slots := fillSlots ((xs ++ []).take 8) } : Iobref) = x := by
        rw [List.append_nil, List.take_of_length_le hlen, ← hslots]
      refine Or.inr ⟨s.buf, 0, hend, Grown.refl h to', by rw [hsame]; exact hx, ?_, fun hne => absurd rfl hne⟩
      exact iff_of_true rfl (by simpa using hlen)
  | cons b ys ih =>
      by_cases hroom : xs.length < 8
      · rcases iobrefAdd_room h hx hslots hroom (hys b (List.mem_cons_self ..)) with
          ⟨hfull, hnone⟩ | ⟨buf₁, hrun₁, hgrown₁, hx₁, htotal₁⟩
        · refine Or.inl ⟨⟨b, List.mem_cons_self .., by omega⟩, ?_⟩
          simp only [List.map_cons, List.cons_append, mergeLoop, hnone]
        · have hlen₁ : (xs ++ [b]).length = xs.length + 1 := by
            rw [List.length_append, List.length_singleton]
          have hloop : mergeLoop to' ((b :: ys).map some ++ List.replicate k none) s.buf 0
              = mergeLoop to' (ys.map some ++ List.replicate k none) buf₁ 0 := by
            simp only [List.map_cons, List.cons_append, mergeLoop, hrun₁]
            rfl
          have hys₁ : ∀ c ∈ ys, 0 < ({ s with buf := buf₁ } : Holders).total c :=
            fun c hc => hgrown₁.kept c (hys c (List.mem_cons_of_mem _ hc))
          rcases ih (s := { s with buf := buf₁ }) hgrown₁.conserved hx₁ rfl (by omega) hys₁ with
            ⟨⟨c, hc, hmax⟩, hnone⟩ | ⟨buf', ret, hrun, hgrown, hx', hret, hnomem⟩
          · refine Or.inl ⟨⟨c, List.mem_cons_of_mem _ hc, ?_⟩, hloop.trans hnone⟩
            -- the head of the loop has counted `c` at most once
            have hcount : ({ s with buf := buf₁ } : Holders).total c ≤ s.total c + 1 := by
              rw [htotal₁]
              by_cases hcb : c = b
              · rw [hcb, Function.update_self]
              · rw [Function.update_of_ne hcb]
                omega
            omega
          · refine Or.inr ⟨buf', ret, hloop.trans hrun, ⟨hgrown.conserved, hgrown.puts.trans hgrown₁.puts, ?_,
              ?_⟩, ?_, ?_, hnomem⟩
            · intro c hc
              exact hgrown.kept c (hgrown₁.kept c hc)
            · intro r' hr
              exact (hgrown.others r' hr).trans (hgrown₁.others r' hr)
            · rw [hx', List.append_assoc, List.singleton_append]
            · rw [hret, hlen₁, List.length_cons]
              omega
      · -- no slot is left: the merge stops here
        have hfull : xs.length = 8 := by omega
        have hadd := iobrefAdd_full h hx hslots hfull b
        have hloop : mergeLoop to' ((b :: ys).map some ++ List.replicate k none) s.buf 0
            = some (s.buf, negENOMEM) := by
          simp only [List.map_cons, List.cons_append, mergeLoop, hadd]
          rfl
        have hsame : ({ x with slots := fillSlots ((xs ++ b :: ys).take 8) } : Iobref) = x := by
          rw [← hfull, List.take_left, ← hslots]
        refine Or.inr ⟨s.buf, negENOMEM, hloop, Grown.refl h to', by rw [hsame]; exact hx, ?_, fun _ => rfl⟩
        apply iff_of_false
        · decide
        · rw [List.length_cons]
          omega

/-- **`iobref_merge`** of distinct iobrefs: the first eight of both, and 0 if
these are all. -/
theorem iobrefMerge_spec (h : Conserved N s) {to' from' : Addr} (hne : to' ≠ from') {xs ys : List IobufPtr}
    (hto : s.buf.Contains to' xs) (hfrom : s.buf.Contains from' ys) :
    (s.AtIntMax (.merge to' from') ∧ iobrefMerge s.buf to' from' = none) ∨
    ∃ buf' ret, iobrefMerge s.buf to' from' = some (buf', ret) ∧ Grown N s to' buf' ∧
      buf'.Contains to' ((xs ++ ys).take 8) ∧ buf'.Contains from' ys ∧
      (ret = 0 ↔ xs.length + ys.length ≤ 8) ∧ (ret ≠ 0 → ret = negENOMEM) := by
  obtain ⟨x, hx, hxlen, hxslots⟩ := hto
  obtain ⟨y, hy, hylen, hyslots⟩ := hfrom
  have hneg : ¬ (to' = from' ∧ (fillSlots ys).head? ≠ some none) := fun hboth => hne hboth.1
  have hrun : iobrefMerge s.buf to' from' = mergeLoop to' (fillSlots ys) s.buf 0 := by
    simp only [iobrefMerge, hy, hyslots, if_neg hneg]
  rw [hrun]
  rcases mergeLoop_spec to' (8 - ys.length) ys h hx hxslots hxlen (fun b hb => total_of_slot h hy hyslots hb) with
    ⟨⟨b, hb, hmax⟩, hnone⟩ | ⟨buf', ret, hloop, hgrown, hx', hret, hnomem⟩
  · refine Or.inl ⟨⟨ys, b, ⟨y, hy, hylen, hyslots⟩, hb, ?_⟩, hnone⟩
    omega
  · refine Or.inr ⟨buf', ret, hloop, hgrown, ⟨_, hx', ?_, rfl⟩, ⟨y, ?_, hylen, hyslots⟩, hret, hnomem⟩
    · rw [List.length_take]
      exact Nat.min_le_left ..
    · rw [hgrown.others from' (Ne.symm hne)]
      exact hy

theorem step_merge (h : Conserved N s) {to' from' : Addr} (ho : s.allowed (.merge to' from')) :
    (∃ s', s.step (.merge to' from') = some s' ∧ StepOk N s s') ∨
      (s.AtIntMax (.merge to' from') ∧ s.step (.merge to' from') = none) := by
  obtain ⟨x, xs, hx, hxlen, hxslots⟩ := h.get ho.2.1
  obtain ⟨y, ys, hy, hylen, hyslots⟩ := h.get ho.2.2
  rcases iobrefMerge_spec h ho.1 ⟨x, hx, hxlen, hxslots⟩ ⟨y, hy, hylen, hyslots⟩ with
    ⟨hmax, hnone⟩ | ⟨buf', ret, hrun, hgrown, -⟩
  · exact Or.inr ⟨hmax, by simp only [Holders.step, hnone, Option.map_none]⟩
  · exact Or.inl ⟨_, by simp only [Holders.step, hrun, Option.map_some], hgrown.stepOk⟩

/-- Every operation, short of `INT_MAX`. -/
theorem step_ok (s : Holders) (o : IobrefOp) (h : Conserved N s) (ho : s.allowed o) :
    (∃ s', s.step o = some s' ∧ StepOk N s s') ∨ (s.AtIntMax o ∧ s.step o = none) := by
  cases o with
  | get env => exact step_get h env ho
  | ref b => exact step_ref h ho
  | unref b => exact Or.inl (step_unref h ho)
  | newIobref calloc => exact Or.inl (step_newIobref h ho)
  | refIobref r => exact step_refIobref h ho
  | unrefIobref r => exact Or.inl (step_unrefIobref h ho)
  | add r b => exact step_add h ho
  | merge to' from' => exact step_merge h ho

end Operations

/-! ## §4. Runs. -/

/-- `iobuf->ref`. -/
def Pool.refOf (p : Pool) (b : IobufPtr) : Option Int :=
  match p.heap b.arena with
  | none => none
  | some A =>
      match A.iobufs with
      | none => none
      | some bufs => bufs[b.index]?.map IobufData.ref

/-- The counts in memory are the references. -/
theorem refOf_eq {N : Nat} {p : Pool} {refs : IobufPtr → Nat} (h : PoolInv N p refs) (b : IobufPtr) :
    (∀ r, p.refOf b = some r → r = refs b) ∧ (0 < refs b → p.refOf b = some (refs b : Int)) := by
  obtain ⟨al, bl, hok⟩ := h
  unfold Pool.refOf
  cases hA : p.heap b.arena with
  | none =>
      refine ⟨nofun, ?_⟩
      intro hb
      exact absurd hA (hok.held b hb).1
  | some A =>
      obtain ⟨bufs, hbufs, hlen, hrefs⟩ := (hok.arena b.arena A hA).counted
      simp only [hbufs]
      constructor
      · intro r hr
        obtain ⟨d, hd, rfl⟩ := Option.map_eq_some_iff.mp hr
        exact hrefs b.index d hd
      · intro hb
        have hindex := (hok.held b hb).2
        have hd : bufs[b.index]? = some bufs[b.index] := List.getElem?_eq_getElem (by omega)
        rw [hd, Option.map_some, hrefs b.index _ hd]

/-- **What holds in every state**: the counts; what the next operation puts
back; that the slots of an iobref fill from the front; and what a merge
gives. -/
structure Conservation (N : Nat) (s : Holders) : Prop where
  conserved : Conserved N s
  refs : ∀ b r, s.buf.pool.refOf b = some r → r = (s.held b + slotCount s.buf.iobrefs b : Nat)
  counted : ∀ b, 0 < s.total b → s.buf.pool.refOf b = some (s.total b : Int)
  putBack : ∀ o s', s.allowed o → s.step o = some s' →
    PutsWhenZero s.buf.pool s'.buf.pool s.total s'.total
  front : ∀ r x, assocGet s.buf.iobrefs r = some x → ∃ xs, s.buf.Contains r xs
  merge : ∀ to' from' xs ys buf' ret, to' ≠ from' → s.buf.Contains to' xs → s.buf.Contains from' ys →
    iobrefMerge s.buf to' from' = some (buf', ret) →
    buf'.Contains to' ((xs ++ ys).take 8) ∧ buf'.Contains from' ys ∧ (ret = 0 ↔ xs.length + ys.length ≤ 8)

theorem Conserved.conservation {N : Nat} {s : Holders} (h : Conserved N s) : Conservation N s where
  conserved := h
  refs b := (refOf_eq h.inv b).1
  counted b := (refOf_eq h.inv b).2
  putBack o s' ho hs' := by
    rcases step_ok s o h ho with ⟨s₁, hs₁, hstep⟩ | ⟨-, hnone⟩
    · rw [hs', Option.some.injEq] at hs₁
      rw [hs₁]
      exact hstep.2
    · rw [hs'] at hnone
      cases hnone
  front := h.filled
  merge to' from' xs ys buf' ret hne hto hfrom hrun := by
    rcases iobrefMerge_spec h hne hto hfrom with ⟨-, hnone⟩ | ⟨buf₁, ret₁, hrun₁, -, hto', hfrom', hret, -⟩
    · rw [hrun] at hnone
      cases hnone
    · rw [hrun, Option.some.injEq, Prod.mk.injEq] at hrun₁
      rw [hrun₁.1, hrun₁.2]
      exact ⟨hto', hfrom', hret⟩

/-- **REFERENCE CONSERVATION**, over any run on a pool of `iobuf_pool_new`.  A
run ends early only at a count that is, or in a merge may become, more than
`INT_MAX`. -/
theorem reference_conservation (arenaSize pageSize : Nat) (hpage : 0 < pageSize) (hsize : pageSize ≤ arenaSize)
    (hfits : (arenaSize / pageSize : Nat) ≤ int32Max) (env : AllocEnv) :
    ∃ p, iobufPoolNew arenaSize pageSize true env = some (some p) ∧
      ∀ ops, holders.Legal ⟨⟨p, []⟩, fun _ => 0, fun _ => 0⟩ ops →
        (∃ s, holders.run ⟨⟨p, []⟩, fun _ => 0, fun _ => 0⟩ ops = some s ∧
          Conservation (arenaSize / pageSize) s) ∨
        ∃ pre o post s, ops = pre ++ o :: post ∧
          holders.run ⟨⟨p, []⟩, fun _ => 0, fun _ => 0⟩ pre = some s ∧
          Conservation (arenaSize / pageSize) s ∧ s.AtIntMax o ∧ holders.step s o = none := by
  obtain ⟨p, hnew, hinv⟩ := iobufPoolNew_inv arenaSize pageSize hpage hsize hfits env
  refine ⟨p, hnew, ?_⟩
  intro ops hlegal
  have hstart : Conservation (arenaSize / pageSize) ⟨⟨p, []⟩, fun _ => 0, fun _ => 0⟩ :=
    Conserved.conservation ⟨hinv, List.nodup_nil, nofun, nofun, fun _ _ => rfl⟩
  refine holders.run_inv_or ?_ ops _ hstart hlegal
  intro s o hs ho
  rcases step_ok s o hs.conserved ho with ⟨s', hrun, hstep⟩ | hstuck
  · exact Or.inl ⟨s', hrun, hstep.1.conservation⟩
  · exact Or.inr hstuck

/-- One iobuf in two iobrefs: it is put back with the second of them. -/
def sharedPage : List IobrefOp :=
  [.get noArena, .newIobref (some 50), .newIobref (some 60), .add 50 ⟨1, 1⟩, .unref ⟨1, 1⟩,
    .merge 60 50, .unrefIobref 50, .unrefIobref 60]

/-- What the callers of `sharedPage` look at: the references to the page, those
to the two iobrefs, and which iobrefs there are. -/
def Holders.look (s : Holders) : Nat × Nat × Nat × Nat × List Addr :=
  (s.held ⟨1, 1⟩, s.total ⟨1, 1⟩, s.heldRefs 50, s.heldRefs 60, s.buf.iobrefs.map Prod.fst)

theorem reference_conservation_sharedPage : ∃ p, iobufPoolNew 8 4 true twoPages = some (some p) ∧
    ((∃ s, holders.run ⟨⟨p, []⟩, fun _ => 0, fun _ => 0⟩ sharedPage = some s ∧ Conservation 2 s) ∨
      ∃ pre o post s, sharedPage = pre ++ o :: post ∧
        holders.run ⟨⟨p, []⟩, fun _ => 0, fun _ => 0⟩ pre = some s ∧
        Conservation 2 s ∧ s.AtIntMax o ∧ holders.step s o = none) := by
  obtain ⟨p, hnew, hruns⟩ := reference_conservation 8 4 (by decide) (by decide) (by decide) twoPages
  refine ⟨p, hnew, hruns _ ?_⟩
  -- what is held after each prefix
  have hlook : ∀ ops v, ((iobufPoolNew 8 4 true twoPages).bind fun r => r.bind fun p =>
      (holders.run ⟨⟨p, []⟩, fun _ => 0, fun _ => 0⟩ ops).map Holders.look) = some v →
      ∀ s, holders.run ⟨⟨p, []⟩, fun _ => 0, fun _ => 0⟩ ops = some s → s.look = v := by
    intro ops v h s hs
    rw [hnew] at h
    simpa only [Option.bind_some, hs, Option.map_some, Option.some.injEq] using h
  have h₁ : holders.Legal ⟨⟨p, []⟩, fun _ => 0, fun _ => 0⟩ [.get noArena] :=
    ⟨(by intro a h; cases h), fun _ _ => trivial⟩
  have hfresh : ∀ ops n m k l is r, (∀ s, holders.run ⟨⟨p, []⟩, fun _ => 0, fun _ => 0⟩ ops = some s →
      s.look = (n, m, k, l, is)) → r ∉ is →
      ∀ s, holders.run ⟨⟨p, []⟩, fun _ => 0, fun _ => 0⟩ ops = some s → s.allowed (.newIobref (some r)) := by
    intro ops n m k l is r h hr s hs r' hr'
    cases hr'
    have hkeys : s.buf.iobrefs.map Prod.fst = is := congrArg (fun v => v.2.2.2.2) (h s hs)
    rw [assocGet_eq_none_iff, hkeys]
    exact hr
  have h₂ := Component.Legal.concat _ h₁ (o := .newIobref (some 50))
    (hfresh _ 1 1 0 0 [] 50 (hlook _ _ (by decide +kernel)) (by decide))
  have h₃ := Component.Legal.concat _ h₂ (o := .newIobref (some 60))
    (hfresh _ 1 1 1 0 [50] 60 (hlook _ _ (by decide +kernel)) (by decide))
  have h₄ := Component.Legal.concat _ h₃ (o := .add 50 ⟨1, 1⟩) (by
    intro s hs
    have hlooks := hlook _ (1, 1, 1, 1, [60, 50]) (by decide +kernel) s hs
    simp only [Holders.look, Prod.mk.injEq] at hlooks
    show 0 < s.heldRefs 50 ∧ 0 < s.total ⟨1, 1⟩
    omega)
  have h₅ := Component.Legal.concat _ h₄ (o := .unref ⟨1, 1⟩) (by
    intro s hs
    have hlooks := hlook _ (1, 2, 1, 1, [60, 50]) (by decide +kernel) s hs
    simp only [Holders.look, Prod.mk.injEq] at hlooks
    show 0 < s.held ⟨1, 1⟩
    omega)
  have h₆ := Component.Legal.concat _ h₅ (o := .merge 60 50) (by
    intro s hs
    have hlooks := hlook _ (0, 1, 1, 1, [60, 50]) (by decide +kernel) s hs
    simp only [Holders.look, Prod.mk.injEq] at hlooks
    exact ⟨by decide, by omega, by omega⟩)
  have h₇ := Component.Legal.concat _ h₆ (o := .unrefIobref 50) (by
    intro s hs
    have hlooks := hlook _ (0, 2, 1, 1, [60, 50]) (by decide +kernel) s hs
    simp only [Holders.look, Prod.mk.injEq] at hlooks
    show 0 < s.heldRefs 50
    omega)
  exact Component.Legal.concat _ h₇ (o := .unrefIobref 60) (by
    intro s hs
    have hlooks := hlook _ (0, 1, 0, 1, [60]) (by decide +kernel) s hs
    simp only [Holders.look, Prod.mk.injEq] at hlooks
    show 0 < s.heldRefs 60
    omega)

end LzLib.Iobuf
