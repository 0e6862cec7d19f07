/-
  LzLib.MemPool.Membership
  ────────────────────────
  **WHICH POINTERS `__is_member` TAKES FOR CHUNKS.**

  `__is_member` takes the header off the pointer before it divides by the size
  of a chunk.  Behind the first header the difference is the distance from the
  first user address, and the remainder tells chunks from other addresses.
  Inside the first header it is negative, so the division sees it modulo
  `2 ^ 64`, and `2 ^ 64` is in general no multiple of the size of a chunk.

  Main result: `mem_pool_classification`, for every pool after any calls and
  every pointer.
-/
import LzLib.MemPool.Conservation

namespace LzLib.MemPool

open LzLib.Foundation

/-! ## §1. What no call changes. -/

/-- A slab of `count` chunks inside the address space. -/
structure SlabAt (count : Nat) (mp : MemPool) : Prop where
  ends : mp.poolEnd = mp.pool + count * mp.paddedSizeofType
  start : 0 < mp.pool
  memory : mp.poolEnd ≤ 2 ^ 64

/-- What `CALLOC` promises of a slab: it is not at `NULL`, and it does not
reach over the end of the address space. -/
def NewEnv.KeepsPromise (env : NewEnv) (sizeofType count : Nat) : Prop :=
  ∀ pool ∈ env.slab, 0 < pool ∧ pool + count * ((sizeofType + padBoundary) % 2 ^ 64) ≤ 2 ^ 64

theorem slabAt_new {sizeofType count : Nat} {env : NewEnv} (henv : env.KeepsPromise sizeofType count)
    {mp : MemPool} (hnew : memPoolNewFn sizeofType count env = some mp) : SlabAt count mp := by
  unfold memPoolNewFn at hnew
  split at hnew
  · cases hnew
  split at hnew
  · cases hnew
  obtain ⟨pool, hpool, rfl⟩ := Option.map_eq_some_iff.mp hnew
  obtain ⟨hstart, hmemory⟩ := henv pool hpool
  exact ⟨rfl, hstart, hmemory⟩

theorem SlabAt.memGet {count : Nat} {mp : MemPool} (h : SlabAt count mp) {malloc : Option Nat}
    {r : MemPool × Option Nat} (hr : memGet mp malloc = some r) : SlabAt count r.1 := by
  unfold LzLib.MemPool.memGet at hr
  split at hr
  · split at hr
    · cases hr
      exact ⟨h.ends, h.start, h.memory⟩
    · cases hr
  · cases hr
    exact h

theorem SlabAt.memPut {count : Nat} {mp : MemPool} (h : SlabAt count mp) {ptr : Nat}
    {r : MemPool × Option Nat} (hr : memPut mp ptr = some r) : SlabAt count r.1 := by
  unfold LzLib.MemPool.memPut at hr
  split at hr
  · cases hr
    exact h
  split at hr
  · cases hr
    exact ⟨h.ends, h.start, h.memory⟩
  split at hr
  · cases hr
  · cases hr
    exact h

/-- One call. -/
theorem SlabAt.step {count : Nat} {c c' : Client} (h : SlabAt count c.mp) {o : PoolOp}
    (hstep : c.step o = some c') : SlabAt count c'.mp := by
  cases o with
  | get malloc =>
      obtain ⟨r, hr, rfl⟩ := Option.map_eq_some_iff.mp hstep
      exact h.memGet hr
  | put ptr =>
      obtain ⟨r, hr, rfl⟩ := Option.map_eq_some_iff.mp hstep
      exact h.memPut hr

/-- Any calls, whatever the callers put. -/
theorem SlabAt.run {count : Nat} {ops : List PoolOp} :
    ∀ {c c' : Client}, SlabAt count c.mp → memPoolClient.run c ops = some c' → SlabAt count c'.mp := by
  induction ops with
  | nil =>
      intro c c' h hrun
      cases hrun
      exact h
  | cons o ops ih =>
      intro c c' h hrun
      obtain ⟨c₁, hstep, hrest⟩ := Option.bind_eq_some_iff.mp hrun
      exact ih (h.step hstep) hrest

/-! ## §2. The test of `__is_member`. -/

/-- The user addresses of a slab: from behind the header of each chunk. -/
def users (count : Nat) (mp : MemPool) : List Nat :=
  (chunks mp.pool mp.paddedSizeofType count).map behind

/-- `p` lies inside the first header of the slab, and the wrapped distance to
the first user address is a multiple of the size of a chunk. -/
def FrontAligned (mp : MemPool) (p : Nat) : Prop :=
  mp.pool ≤ p ∧ p < mp.pool + padBoundary ∧ p < mp.poolEnd ∧
    (2 ^ 64 - padBoundary + (p - mp.pool)) % mp.paddedSizeofType = 0

instance (mp : MemPool) (p : Nat) : Decidable (FrontAligned mp p) :=
  inferInstanceAs (Decidable (_ ∧ _ ∧ _ ∧ _))

/-- A user address that is not in the slab: chunks have room for their headers
unless the sum `sizeof_type + LZ_MEM_POOL_PAD_BOUNDARY` wraps. -/
def Beyond (count : Nat) (mp : MemPool) (p : Nat) : Prop := p ∈ users count mp ∧ mp.poolEnd ≤ p

instance (count : Nat) (mp : MemPool) (p : Nat) : Decidable (Beyond count mp p) :=
  inferInstanceAs (Decidable (_ ∧ _))

section Test

variable {count : Nat} {mp : MemPool} {p : Nat}

theorem mem_users : p ∈ users count mp ↔ ∃ i, i < count ∧ mp.pool + i * mp.paddedSizeofType + padBoundary = p := by
  unfold users behind
  constructor
  · intro h
    obtain ⟨a, ha, hap⟩ := List.mem_map.mp h
    obtain ⟨i, hi, hai⟩ := mem_chunks.mp ha
    exact ⟨i, hi, by rw [hai]; exact hap⟩
  · rintro ⟨i, hi, hp⟩
    exact List.mem_map.mpr ⟨_, mem_chunks.mpr ⟨i, hi, rfl⟩, hp⟩

theorem users_behind_header (h : p ∈ users count mp) : mp.pool + padBoundary ≤ p := by
  obtain ⟨i, -, hp⟩ := mem_users.mp h
  omega

/-- Chunks with room for a byte behind the header end inside the slab. -/
theorem not_beyond (hends : mp.poolEnd = mp.pool + count * mp.paddedSizeofType)
    (hroom : padBoundary < mp.paddedSizeofType) : ¬ Beyond count mp p := by
  rintro ⟨huser, hbeyond⟩
  obtain ⟨i, hi, hp⟩ := mem_users.mp huser
  have hmul : (i + 1) * mp.paddedSizeofType ≤ count * mp.paddedSizeofType := Nat.mul_le_mul_right _ hi
  rw [Nat.succ_mul] at hmul
  omega

/-- The difference that `__is_member` divides, behind the first header. -/
theorem distance_behind (h : mp.pool + padBoundary ≤ p) (hp : p < 2 ^ 64) :
    ((p : Int) - padBoundary - mp.pool) % 2 ^ 64 = ((p - padBoundary - mp.pool : Nat) : Int) := by
  have hsum : (p : Int) - padBoundary - mp.pool = ((p - padBoundary - mp.pool : Nat) : Int) := by omega
  rw [hsum]
  refine Int.emod_eq_of_lt (Int.natCast_nonneg _) ?_
  omega

/-- And inside it, where it is negative. -/
theorem distance_front (hlow : mp.pool ≤ p) (hhigh : p < mp.pool + padBoundary) :
    ((p : Int) - padBoundary - mp.pool) % 2 ^ 64 = ((2 ^ 64 - padBoundary + (p - mp.pool) : Nat) : Int) := by
  unfold padBoundary at hhigh ⊢
  have hwrap : (p : Int) - (16 : Nat) - mp.pool
      = ((2 ^ 64 - 16 + (p - mp.pool) : Nat) : Int) + 2 ^ 64 * (-1) := by omega
  rw [hwrap, Int.add_mul_emod_self_left]
  refine Int.emod_eq_of_lt (Int.natCast_nonneg _) ?_
  omega

/-- Outside the slab the answer is 0, and only there. -/
theorem isMember_eq_zero_iff (hp : p ≠ 0) : isMember mp p = 0 ↔ p < mp.pool ∨ mp.poolEnd ≤ p := by
  unfold isMember
  rw [if_neg hp]
  split
  next hout => exact ⟨fun _ => hout, fun _ => rfl⟩
  next hin =>
    split
    · exact ⟨fun h => absurd h (by decide), fun h => absurd h hin⟩
    · exact ⟨fun h => absurd h (by decide), fun h => absurd h hin⟩

/-- There are three answers. -/
theorem isMember_range (mp : MemPool) (p : Nat) : isMember mp p = 1 ∨ isMember mp p = 0 ∨ isMember mp p = -1 := by
  unfold isMember
  split
  · exact Or.inr (Or.inr rfl)
  split
  · exact Or.inr (Or.inl rfl)
  split
  · exact Or.inr (Or.inr rfl)
  · exact Or.inl rfl

/-- Inside the slab the remainder decides. -/
theorem isMember_inside (hp : p ≠ 0) (hlow : mp.pool ≤ p) (hhigh : p < mp.poolEnd) :
    isMember mp p = 1 ↔ ((p : Int) - padBoundary - mp.pool) % 2 ^ 64 % mp.paddedSizeofType = 0 := by
  have hin : ¬ (p < mp.pool ∨ mp.poolEnd ≤ p) := by omega
  unfold isMember
  rw [if_neg hp, if_neg hin]
  split
  next hrest => exact ⟨fun h => absurd h (by decide), fun h => absurd h hrest⟩
  next hrest => exact ⟨fun _ => not_not.mp hrest, fun _ => rfl⟩

/-- **The pointers taken for chunks**: the user addresses in the slab, and what
the wrapped distance lets through. -/
theorem isMember_eq_one_iff (h : SlabAt count mp) (hp : p ≠ 0) :
    isMember mp p = 1 ↔ (p ∈ users count mp ∧ p < mp.poolEnd) ∨ FrontAligned mp p := by
  have hends := h.ends
  have hmemory := h.memory
  by_cases hin : mp.pool ≤ p ∧ p < mp.poolEnd
  · rw [isMember_inside hp hin.1 hin.2]
    by_cases hfront : p < mp.pool + padBoundary
    · -- no user address is inside the first header
      rw [distance_front hin.1 hfront]
      constructor
      · intro hrest
        exact Or.inr ⟨hin.1, hfront, hin.2, by exact_mod_cast hrest⟩
      · rintro (⟨huser, -⟩ | ⟨-, -, -, hrest⟩)
        · have hbehind := users_behind_header huser
          omega
        · exact_mod_cast hrest
    · -- the distance is a number of chunks, and one that fits
      have hbehind : mp.pool + padBoundary ≤ p := by omega
      rw [distance_behind hbehind (by omega)]
      constructor
      · intro hrest
        have hmod : (p - padBoundary - mp.pool) % mp.paddedSizeofType = 0 := by exact_mod_cast hrest
        obtain ⟨i, hi⟩ := Nat.dvd_of_mod_eq_zero hmod
        rw [Nat.mul_comm] at hi
        refine Or.inl ⟨mem_users.mpr ⟨i, ?_, by omega⟩, hin.2⟩
        apply Nat.lt_of_mul_lt_mul_right (a := mp.paddedSizeofType)
        omega
      · rintro (⟨huser, -⟩ | ⟨-, hhigh, -, -⟩)
        · obtain ⟨i, -, hip⟩ := mem_users.mp huser
          have hdist : p - padBoundary - mp.pool = i * mp.paddedSizeofType := by omega
          rw [hdist]
          exact_mod_cast Nat.mul_mod_left i mp.paddedSizeofType
        · omega
  · -- outside the slab
    have hout : p < mp.pool ∨ mp.poolEnd ≤ p := by omega
    have hzero := (isMember_eq_zero_iff hp).mpr hout
    rw [hzero]
    constructor
    · intro hone
      cases hone
    · rintro (⟨huser, hhigh⟩ | ⟨hlow, -, hhigh, -⟩)
      · have hbehind := users_behind_header huser
        omega
      · omega

end Test

/-! ## §3. The classification. -/

/-- **A pointer is classified** as the comments in `mem_put` have it. -/
structure Classified (count : Nat) (mp : MemPool) (p : Nat) : Prop where
  member : isMember mp p = 1 ↔ p ∈ users count mp
  outside : isMember mp p = 0 ↔ p < mp.pool ∨ mp.poolEnd ≤ p
  misaligned : isMember mp p = -1 ↔ p ∉ users count mp ∧ mp.pool ≤ p ∧ p < mp.poolEnd
  /-- A misaligned address in the slab is not put. -/
  aborts : p ∉ users count mp → mp.pool ≤ p → p < mp.poolEnd → memPut mp p = none
  /-- Nothing but a chunk is linked. -/
  links : ∀ r, memPut mp p = some r → r.1.list = mp.list ∨
    ∃ a ∈ chunks mp.pool mp.paddedSizeofType count, r.1.list = listAdd mp.list (.chunk a) .head

section Classification

variable {count : Nat} {mp : MemPool} {p : Nat}

theorem memPut_misaligned (hp : p ≠ 0) (h : isMember mp p = -1) : memPut mp p = none := by
  have hone : ¬ isMember mp p = 1 := by
    rw [h]
    decide
  unfold memPut
  rw [if_neg hp, if_neg hone, if_pos h]

/-- What `mem_put` links. -/
theorem memPut_links {r : MemPool × Option Nat} (hr : memPut mp p = some r) :
    r.1.list = mp.list ∨ (isMember mp p = 1 ∧ r.1.list = listAdd mp.list (.chunk (p - padBoundary)) .head) := by
  unfold memPut at hr
  split at hr
  · cases hr
    exact Or.inl rfl
  split at hr
  next hone =>
    cases hr
    exact Or.inr ⟨hone, rfl⟩
  split at hr
  · cases hr
  · cases hr
    exact Or.inl rfl

/-- A test that is right about the user addresses is right about all. -/
theorem classified_of_member (hp : p ≠ 0)
    (hmember : isMember mp p = 1 ↔ p ∈ users count mp) : Classified count mp p := by
  have hzero : isMember mp p = 0 ↔ p < mp.pool ∨ mp.poolEnd ≤ p := isMember_eq_zero_iff hp
  have hminus : isMember mp p = -1 ↔ p ∉ users count mp ∧ mp.pool ≤ p ∧ p < mp.poolEnd := by
    -- three results, three places
    rcases isMember_range mp p with hone | hnull | hneg
    · have huser := hmember.mp hone
      rw [hone]
      exact ⟨fun h => absurd h (by decide), fun h => absurd huser h.1⟩
    · have hout := hzero.mp hnull
      rw [hnull]
      exact ⟨fun h => absurd h (by decide), fun h => absurd hout (by omega)⟩
    · have hnot : ¬ (p < mp.pool ∨ mp.poolEnd ≤ p) := by
        intro hout
        have hnull := hzero.mpr hout
        rw [hneg] at hnull
        cases hnull
      refine ⟨fun _ => ⟨?_, by omega, by omega⟩, fun _ => hneg⟩
      intro huser
      have hone := hmember.mpr huser
      rw [hneg] at hone
      cases hone
  refine ⟨hmember, hzero, hminus, ?_, ?_⟩
  · intro huser hlow hhigh
    exact memPut_misaligned hp (hminus.mpr ⟨huser, hlow, hhigh⟩)
  · intro r hr
    rcases memPut_links hr with hsame | ⟨hone, hlink⟩
    · exact Or.inl hsame
    · obtain ⟨a, ha, hap⟩ := List.mem_map.mp (hmember.mp hone)
      have hback : p - padBoundary = a := by
        unfold behind at hap
        omega
      exact Or.inr ⟨a, ha, by rw [hlink, hback]⟩

/-- **The classification is right** outside what the wrapped distance lets
through. -/
theorem classified_iff (h : SlabAt count mp) (hp : p ≠ 0) :
    Classified count mp p ↔ ¬ FrontAligned mp p ∧ ¬ Beyond count mp p := by
  have hone := isMember_eq_one_iff h hp
  constructor
  · intro hclass
    constructor
    · intro hfront
      -- inside the first header there is no user address
      have hbehind := users_behind_header (hclass.member.mp (hone.mpr (Or.inr hfront)))
      have hhigh := hfront.2.1
      omega
    · rintro ⟨huser, hbeyond⟩
      have hmember := hclass.member.mpr huser
      rw [hclass.outside.mpr (Or.inr hbeyond)] at hmember
      cases hmember
  · rintro ⟨hfront, hbeyond⟩
    refine classified_of_member hp (hone.trans ?_)
    constructor
    · rintro (⟨huser, -⟩ | hf)
      · exact huser
      · exact absurd hf hfront
    · intro huser
      refine Or.inl ⟨huser, ?_⟩
      by_contra hout
      exact hbeyond ⟨huser, by omega⟩

end Classification

/-- **POINTER CLASSIFICATION.**  In a pool of any size after any calls, a
pointer is classified right if and only if the wrapped distance of the first
header does not let it through (and, where the size of a chunk wraps, it is no
user address behind the slab); `NULL` is refused before the test. -/
theorem mem_pool_classification (sizeofType count : Nat) (env : NewEnv)
    (henv : env.KeepsPromise sizeofType count) (mp : MemPool)
    (hnew : memPoolNewFn sizeofType count env = some mp) (ops : List PoolOp) (c : Client)
    (hrun : memPoolClient.run ⟨mp, [], []⟩ ops = some c) :
    (∀ p, p ≠ 0 → (Classified count c.mp p ↔ ¬ FrontAligned c.mp p ∧ ¬ Beyond count c.mp p)) ∧
    (padBoundary < c.mp.paddedSizeofType → ∀ p, ¬ Beyond count c.mp p) ∧
    isMember c.mp 0 = -1 ∧ memPut c.mp 0 = some (c.mp, none) := by
  have hnewSlab : SlabAt count (⟨mp, [], []⟩ : Client).mp := slabAt_new henv hnew
  have hslab := hnewSlab.run hrun
  exact ⟨fun p hp => classified_iff hslab hp, fun hroom p => not_beyond hslab.ends hroom, rfl, rfl⟩

/-- A slab of four chunks of 24 bytes, after one `mem_get`: the start of the
third chunk is misaligned. -/
theorem mem_pool_classification_four : ∃ mp c, memPoolNewFn 8 4 ⟨true, some 4096⟩ = some mp ∧
    memPoolClient.run ⟨mp, [], []⟩ [.get none] = some c ∧ Classified 4 c.mp 4144 := by
  have henv : (⟨true, some 4096⟩ : NewEnv).KeepsPromise 8 4 := by
    intro pool hpool
    cases hpool
    decide
  have hruns : ((memPoolNewFn 8 4 ⟨true, some 4096⟩).bind fun mp =>
      (memPoolClient.run ⟨mp, [], []⟩ [.get none]).map fun c =>
        decide (¬ FrontAligned c.mp 4144 ∧ ¬ Beyond 4 c.mp 4144)) = some true := by decide +kernel
  obtain ⟨mp, hnew, hruns⟩ := Option.bind_eq_some_iff.mp hruns
  obtain ⟨c, hrun, hoff⟩ := Option.map_eq_some_iff.mp hruns
  have hclass := mem_pool_classification 8 4 ⟨true, some 4096⟩ henv mp hnew [.get none] c hrun
  exact ⟨mp, c, hnew, hrun, (hclass.1 4144 (by decide)).mpr (of_decide_eq_true hoff)⟩

/-- **The first header of a pool of 8 byte objects**: the start of the slab is
taken for a chunk, and an address in front of the slab is linked. -/
theorem mem_pool_front_linked : ∃ mp r, memPoolNewFn 8 2 ⟨true, some 4096⟩ = some mp ∧
    4096 ∉ users 2 mp ∧ isMember mp 4096 = 1 ∧ memPut mp 4096 = some r ∧
    r.1.list = listAdd mp.list (.chunk 4080) .head ∧ 4080 < mp.pool := by
  refine ⟨_, _, rfl, by decide, by decide, rfl, rfl, by decide⟩

end LzLib.MemPool
