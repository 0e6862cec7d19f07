/-
  LzLib.Rbthash.RbthashSpec
  ─────────────────────────
  **WHAT ONE CALL ON THE TABLE DOES.**

  Two entries compare equal when they have the same key.  `InsertCase` and
  `RemoveCase` say once what an insertion and a removal can do; every later
  proof goes by their cases.

  `RbthashOk`: each entry is in the bucket of its key.
-/
import LzLib.Rbthash.ComparatorOrder

namespace LzLib.Rbthash

open LzLib.Foundation

variable {δ : Type} {rb : ItemSets (RbthashEntry δ) rbthashComparator}

/-! ## §1. Comparing. -/

/-- The comparator compares the keys. -/
theorem rbthashComparator_comparesKeys :
    ComparesKeys rbthashComparator (RbthashEntry.key : RbthashEntry δ → Bytes) := by
  intro e₁ e₂
  exact rbthashComparator_decides.eq_zero_iff_key

/-- An entry is found by its key, whatever else the searched entry says. -/
theorem find_searchEntry (t : rb.Table) (x : RbthashEntry δ) :
    rb.find t x = rb.find t (searchEntry x.key) := by
  cases hfind : rb.find t (searchEntry x.key) with
  | none =>
      rw [rb.find_eq_none_iff rbthashComparator_comparesKeys] at hfind ⊢
      exact hfind
  | some y =>
      rw [rb.find_eq_some_iff rbthashComparator_comparesKeys] at hfind ⊢
      exact hfind

/-! ## §2. The cases. -/

/-- The entry of an insertion. -/
def newEntry (tbl : RbthashTable rb) (data : δ) (key : Bytes) : RbthashEntry δ :=
  ⟨some data, key, tbl.hashfunc key⟩

/-- What is stored under a key. -/
def RbthashTable.stored (tbl : RbthashTable rb) (key : Bytes) : Option (RbthashEntry δ) :=
  rb.find (tbl.buckets (rbthashKeyBucket tbl key)) (searchEntry key)

/-- The arguments are not NULL, and there is memory for the entry and its key. -/
def ReachesTree (data : Option δ) (key : Option Bytes) (alloc : InsertAlloc Bool) : Prop :=
  data ≠ none ∧ key ≠ none ∧ alloc.entry = true ∧ alloc.keyCopy = true

/-- **An insertion**: it gives up before the tree; or the key is there, and
the new entry is nowhere; or the tree has no node for it, and the entry is
deinitialised; or it is stored. -/
inductive InsertCase (tbl : RbthashTable rb) :
    Option δ → Option Bytes → InsertAlloc Bool → RbthashTable rb × Int → Prop
  | refused {data : Option δ} {key : Option Bytes} {alloc : InsertAlloc Bool}
      (early : ¬ ReachesTree data key alloc) : InsertCase tbl data key alloc (tbl, -1)
  | found {data : δ} {key : Bytes} {node : Bool} {e : RbthashEntry δ} (present : tbl.stored key = some e) :
      InsertCase tbl (some data) (some key) ⟨true, true, node⟩
        ({ tbl with outstanding := tbl.outstanding + 1 }, 0)
  | noNode {data : δ} {key : Bytes} (absent : tbl.stored key = none) :
      InsertCase tbl (some data) (some key) ⟨true, true, false⟩
        ({ tbl with destroyed := if tbl.dfunc then tbl.destroyed ++ [data] else tbl.destroyed }, -1)
  | added {data : δ} {key : Bytes} (absent : tbl.stored key = none) :
      InsertCase tbl (some data) (some key) ⟨true, true, true⟩
        ({ tbl with
            outstanding := tbl.outstanding + 1
            buckets := Function.update tbl.buckets (rbthashKeyBucket tbl key)
              (rb.probe (tbl.buckets (rbthashKeyBucket tbl key)) (newEntry tbl data key) true).1 }, 0)

theorem rbthashInitEntry_early {tbl : RbthashTable rb} {data : Option δ} {key : Option Bytes}
    {alloc : InsertAlloc Bool} (h : ¬ ReachesTree data key alloc) :
    rbthashInitEntry tbl data key alloc = (tbl, none) := by
  unfold ReachesTree at h
  cases data with
  | none => rfl
  | some data =>
      cases key with
      | none => rfl
      | some key =>
          unfold rbthashInitEntry
          cases hentry : alloc.entry with
          | false => rfl
          | true =>
              cases hcopy : alloc.keyCopy with
              | true => exact absurd ⟨Option.some_ne_none _, Option.some_ne_none _, hentry, hcopy⟩ h
              | false =>
                  -- the entry goes back to the pool
                  show (({ tbl with outstanding := tbl.outstanding + 1 } : RbthashTable rb).memPut, _) = (tbl, _)
                  simp only [RbthashTableT.memPut, Int.add_sub_cancel]

/-- `rbthash_insert_entry`, by the answer of `rb_probe`. -/
theorem rbthashInsertEntry_probe (tbl : RbthashTable rb) {e : RbthashEntry δ} {node : Bool} {t : rb.Table}
    {answer : Option (RbthashEntry δ)}
    (h : rb.probe (tbl.buckets (rbthashEntryBucket tbl e)) e node = (t, answer)) :
    rbthashInsertEntry tbl e node
      = ({ tbl with buckets := Function.update tbl.buckets (rbthashEntryBucket tbl e) t },
          if answer.isSome then 0 else -1) := by
  unfold rbthashInsertEntry
  simp only [h]
  cases answer with
  | none => rfl
  | some x => rfl

/-- `rbthash_deinit_entry` of an entry that was just taken from the pool. -/
theorem rbthashDeinitEntry_new (tbl : RbthashTable rb) (data : δ) (key : Bytes) :
    rbthashDeinitEntry { tbl with outstanding := tbl.outstanding + 1 } (newEntry tbl data key)
      = { tbl with destroyed := if tbl.dfunc then tbl.destroyed ++ [data] else tbl.destroyed } := by
  unfold rbthashDeinitEntry newEntry
  cases hdfunc : tbl.dfunc with
  | true => simp only [if_true, RbthashTableT.memPut, Int.add_sub_cancel]
  | false => simp only [Bool.false_eq_true, if_false, RbthashTableT.memPut, Int.add_sub_cancel]

/-- An insertion that reaches the tree. -/
theorem rbthashInsert_reached (tbl : RbthashTable rb) (data : δ) (key : Bytes) (node : Bool) :
    rbthashInsert tbl (some data) (some key) ⟨true, true, node⟩
      = let inserted := rbthashInsertEntry { tbl with outstanding := tbl.outstanding + 1 }
          (newEntry tbl data key) node
        if inserted.2 = -1 then (rbthashDeinitEntry inserted.1 (newEntry tbl data key), inserted.2)
        else inserted := rfl

/-- Every insertion is one of the cases. -/
theorem rbthashInsert_case (tbl : RbthashTable rb) (data : Option δ) (key : Option Bytes)
    (alloc : InsertAlloc Bool) : InsertCase tbl data key alloc (rbthashInsert tbl data key alloc) := by
  by_cases hreach : ReachesTree data key alloc
  · obtain ⟨hdata, hkey, hentry, hcopy⟩ := hreach
    obtain ⟨data, rfl⟩ := Option.ne_none_iff_exists'.mp hdata
    obtain ⟨key, rfl⟩ := Option.ne_none_iff_exists'.mp hkey
    obtain ⟨entry, keyCopy, node⟩ := alloc
    cases hentry
    cases hcopy
    rw [rbthashInsert_reached]
    have hfind : rb.find (tbl.buckets (rbthashKeyBucket tbl key)) (newEntry tbl data key) = tbl.stored key :=
      find_searchEntry _ _
    cases hstored : tbl.stored key with
    | some e =>
        -- rb_probe answers with the entry that is there
        rw [hstored] at hfind
        rw [rbthashInsertEntry_probe _ (rb.probe_found _ _ _ node hfind)]
        simp only [Option.isSome_some, if_true, Function.update_eq_self]
        exact InsertCase.found hstored
    | none =>
        rw [hstored] at hfind
        cases node with
        | false =>
            rw [rbthashInsertEntry_probe _ (rb.probe_failed _ _ hfind)]
            simp only [Option.isSome_none, Function.update_eq_self, Bool.false_eq_true, if_false, if_true,
              rbthashDeinitEntry_new]
            exact InsertCase.noNode hstored
        | true =>
            have hprobe : rb.probe (tbl.buckets (rbthashKeyBucket tbl key)) (newEntry tbl data key) true
                = (_, some (newEntry tbl data key)) := Prod.ext rfl (rb.probe_new _ _ hfind).1
            rw [rbthashInsertEntry_probe { tbl with outstanding := tbl.outstanding + 1 }
              (e := newEntry tbl data key) hprobe]
            exact InsertCase.added hstored
  · have hrun : rbthashInsert tbl data key alloc = (tbl, -1) := by
      unfold rbthashInsert
      rw [rbthashInitEntry_early hreach]
    rw [hrun]
    exact InsertCase.refused hreach

/-- **A removal** takes out the entry under the key, if there is one. -/
inductive RemoveCase (tbl : RbthashTable rb) : Option Bytes → RbthashTable rb × Option δ → Prop
  | null : RemoveCase tbl none (tbl, none)
  | nothing {key : Bytes} (absent : tbl.stored key = none) : RemoveCase tbl (some key) (tbl, none)
  | taken {key : Bytes} {e : RbthashEntry δ} (present : tbl.stored key = some e) :
      RemoveCase tbl (some key)
        ({ tbl with
            outstanding := tbl.outstanding - 1
            buckets := Function.update tbl.buckets (rbthashKeyBucket tbl key)
              (rb.delete (tbl.buckets (rbthashKeyBucket tbl key)) (searchEntry key)).1 }, e.data)

theorem rbthashRemove_case (tbl : RbthashTable rb) (key : Option Bytes) :
    RemoveCase tbl key (rbthashRemove tbl key) := by
  cases key with
  | none => exact RemoveCase.null
  | some key =>
      unfold rbthashRemove
      cases hstored : tbl.stored key with
      | none =>
          have hdelete := rb.delete_none _ _ hstored
          simp only [hdelete, RbthashTableT.setBucket, Function.update_eq_self]
          exact RemoveCase.nothing hstored
      | some e =>
          have hdelete := (rb.delete_found _ _ _ hstored).1
          simp only [hdelete]
          exact RemoveCase.taken hstored

/-! ## §3. Every entry in the bucket of its key. -/

structure RbthashOk (tbl : RbthashTable rb) : Prop where
  nonempty : 1 ≤ tbl.numbuckets
  placed : ∀ n, ∀ e ∈ rb.items (tbl.buckets n), rbthashKeyBucket tbl e.key = n
  filled : ∀ n, ∀ e ∈ rb.items (tbl.buckets n), e.data ≠ none

theorem rbthashOk_init (rb : ItemSets (RbthashEntry δ) rbthashComparator) {buckets : Nat}
    (hb : 1 ≤ buckets) (hfunc : Bytes → UInt32) (dfunc : Bool) :
    RbthashOk (rbthashTableInit rb buckets hfunc dfunc) := by
  have hempty : ∀ n, rb.items ((rbthashTableInit rb buckets hfunc dfunc).buckets n) = [] :=
    fun _ => rb.items_create
  refine ⟨hb, ?_, ?_⟩
  · intro n e he
    rw [hempty] at he
    cases he
  · intro n e he
    rw [hempty] at he
    cases he

section Placed

variable {tbl : RbthashTable rb}

theorem keyBucket_lt (h : RbthashOk tbl) (key : Bytes) : rbthashKeyBucket tbl key < tbl.numbuckets :=
  Nat.mod_lt _ h.nonempty

/-- The entries under a key are what a lookup of the key finds. -/
theorem stored_eq_some_iff (h : RbthashOk tbl) {key : Bytes} {e : RbthashEntry δ} :
    tbl.stored key = some e ↔ e ∈ tbl.entries ∧ e.key = key := by
  unfold RbthashTable.stored RbthashTable.entries
  rw [rb.find_eq_some_iff rbthashComparator_comparesKeys, List.mem_flatMap]
  constructor
  · rintro ⟨hmem, hkey⟩
    exact ⟨⟨_, List.mem_range.mpr (keyBucket_lt h key), hmem⟩, hkey⟩
  · rintro ⟨⟨n, -, hmem⟩, rfl⟩
    rw [h.placed n e hmem]
    exact ⟨hmem, rfl⟩

theorem stored_eq_none_iff (h : RbthashOk tbl) {key : Bytes} :
    tbl.stored key = none ↔ ∀ e ∈ tbl.entries, e.key ≠ key := by
  constructor
  · intro hnone e he hkey
    rw [(stored_eq_some_iff h).mpr ⟨he, hkey⟩] at hnone
    cases hnone
  · intro hall
    cases hstored : tbl.stored key with
    | none => rfl
    | some e =>
        have he := (stored_eq_some_iff h).mp hstored
        exact absurd he.2 (hall e he.1)

/-- A bucket that gets an entry of its own, or loses some, keeps the order. -/
theorem RbthashOk.updateBucket (h : RbthashOk tbl) {n : Nat} {t : rb.Table} {tbl' : RbthashTable rb}
    (hnum : tbl'.numbuckets = tbl.numbuckets) (hhash : tbl'.hashfunc = tbl.hashfunc)
    (hbuckets : tbl'.buckets = Function.update tbl.buckets n t)
    (hitems : ∀ e ∈ rb.items t, e ∈ rb.items (tbl.buckets n) ∨ rbthashKeyBucket tbl e.key = n ∧ e.data ≠ none) :
    RbthashOk tbl' := by
  have hbucket : ∀ key, rbthashKeyBucket tbl' key = rbthashKeyBucket tbl key := by
    intro key
    unfold rbthashKeyBucket
    rw [hnum, hhash]
  have hcases : ∀ n', ∀ e ∈ rb.items (tbl'.buckets n'),
      e ∈ rb.items (tbl.buckets n') ∨ rbthashKeyBucket tbl e.key = n' ∧ e.data ≠ none := by
    intro n' e he
    rw [hbuckets] at he
    by_cases hn : n' = n
    · rw [hn, Function.update_self] at he
      rw [hn]
      exact hitems e he
    · rw [Function.update_of_ne hn] at he
      exact Or.inl he
  refine ⟨by rw [hnum]; exact h.nonempty, ?_, ?_⟩
  · intro n' e he
    rw [hbucket]
    rcases hcases n' e he with hold | hnew
    · exact h.placed n' e hold
    · exact hnew.1
  · intro n' e he
    rcases hcases n' e he with hold | hnew
    · exact h.filled n' e hold
    · exact hnew.2

theorem rbthashInsert_ok (h : RbthashOk tbl) (data : Option δ) (key : Option Bytes) (alloc : InsertAlloc Bool) :
    RbthashOk (rbthashInsert tbl data key alloc).1 := by
  have hcase := rbthashInsert_case tbl data key alloc
  generalize rbthashInsert tbl data key alloc = r at hcase ⊢
  cases hcase with
  | refused early => exact h
  | found present => exact ⟨h.nonempty, h.placed, h.filled⟩
  | noNode absent => exact ⟨h.nonempty, h.placed, h.filled⟩
  | @added data key absent =>
      refine h.updateBucket (t := _) rfl rfl rfl ?_
      intro e he
      have hfind := (find_searchEntry _ (newEntry tbl data key)).trans absent
      have hmem := (rb.probe_new _ _ hfind).2.mem_iff.mp he
      rcases List.mem_cons.mp hmem with rfl | hold
      · exact Or.inr ⟨rfl, Option.some_ne_none _⟩
      · exact Or.inl hold

theorem rbthashRemove_ok (h : RbthashOk tbl) (key : Option Bytes) : RbthashOk (rbthashRemove tbl key).1 := by
  have hcase := rbthashRemove_case tbl key
  generalize rbthashRemove tbl key = r at hcase ⊢
  cases hcase with
  | null => exact h
  | nothing absent => exact h
  | taken present =>
      refine h.updateBucket (t := _) rfl rfl rfl ?_
      intro e he
      have hperm := (rb.delete_found _ _ _ present).2
      exact Or.inl (hperm.mem_iff.mpr (List.mem_cons_of_mem _ he))

theorem rbthashStep_ok (h : RbthashOk tbl) (op : RbthashOp Bool δ) : RbthashOk (rbthashStep tbl op) := by
  cases op with
  | insert data key alloc => exact rbthashInsert_ok h data key alloc
  | get key => exact h
  | remove key => exact rbthashRemove_ok h key

theorem rbthashRun_ok (h : RbthashOk tbl) (ops : List (RbthashOp Bool δ)) : RbthashOk (rbthashRun tbl ops) := by
  induction ops generalizing tbl with
  | nil => exact h
  | cons op ops ih => exact ih (rbthashStep_ok h op)

end Placed

end LzLib.Rbthash
