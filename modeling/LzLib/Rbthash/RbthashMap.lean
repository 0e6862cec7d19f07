/-
  LzLib.Rbthash.RbthashMap
  ────────────────────────
  **THE TABLE AS A MAP.**

  A lookup sees only what was stored under its key, in whatever bucket, and
  a removal returns what a lookup would have.  An insertion under a key that
  is there stores nothing, and says so to nobody: `rb_probe` returns the old
  entry, and `rbthash_insert` returns 0.

  Main result: `rbthash_map`.
-/
import LzLib.Rbthash.RbthashSpec

namespace LzLib.Rbthash

open LzLib.Foundation

variable {δ : Type} {rb : ItemSets (RbthashEntry δ) rbthashComparator}

/-! ## §1. One call. -/

/-- The call inserts or removes under the key. -/
def RbthashOp.changes (op : RbthashOp Bool δ) (key : Bytes) : Prop :=
  match op with
  | .insert _ key' _ => key' = some key
  | .get _ => False
  | .remove key' => key' = some key

/-- What a lookup returns. -/
theorem rbthashGet_eq (tbl : RbthashTable rb) (key : Bytes) :
    rbthashGet tbl (some key) = (tbl.stored key).bind RbthashEntry.data := by
  unfold rbthashGet RbthashTable.stored
  dsimp only
  cases rb.find (tbl.buckets (rbthashKeyBucket tbl key)) (searchEntry key) with
  | none => rfl
  | some e => rfl

section Call

variable {tbl : RbthashTable rb} {key : Bytes} {n : Nat} {t : rb.Table}

/-- Another bucket, or another key in the same bucket. -/
theorem stored_update_other {tbl' : RbthashTable rb} (hnum : tbl'.numbuckets = tbl.numbuckets)
    (hhash : tbl'.hashfunc = tbl.hashfunc) (hbuckets : tbl'.buckets = Function.update tbl.buckets n t)
    (h : rb.find t (searchEntry key) = rb.find (tbl.buckets n) (searchEntry key)) :
    tbl'.stored key = tbl.stored key := by
  unfold RbthashTable.stored rbthashKeyBucket
  rw [hnum, hhash, hbuckets]
  by_cases hn : (tbl.hashfunc key).toNat % tbl.numbuckets = n
  · rw [hn, Function.update_self, h]
  · rw [Function.update_of_ne hn]

theorem rbthashInsert_frame (data : Option δ) {key'' : Option Bytes} (alloc : InsertAlloc Bool)
    (hne : key'' ≠ some key) : (rbthashInsert tbl data key'' alloc).1.stored key = tbl.stored key := by
  have hcase := rbthashInsert_case tbl data key'' alloc
  generalize rbthashInsert tbl data key'' alloc = r at hcase ⊢
  cases hcase with
  | refused early => rfl
  | found present => rfl
  | noNode absent => rfl
  | @added data key' absent =>
      refine stored_update_other rfl rfl rfl ?_
      apply rb.find_probe_other rbthashComparator_comparesKeys
      intro hkey
      exact hne (congrArg some hkey.symm)

theorem rbthashRemove_frame {key'' : Option Bytes} (hne : key'' ≠ some key) :
    (rbthashRemove tbl key'').1.stored key = tbl.stored key := by
  have hcase := rbthashRemove_case tbl key''
  generalize rbthashRemove tbl key'' = r at hcase ⊢
  cases hcase with
  | null => rfl
  | nothing absent => rfl
  | @taken key' e present =>
      refine stored_update_other rfl rfl rfl ?_
      apply rb.find_delete_other rbthashComparator_comparesKeys
      intro hkey
      exact hne (congrArg some hkey.symm)

/-- A call changes nothing under another key. -/
theorem rbthashStep_frame {op : RbthashOp Bool δ} (h : ¬ op.changes key) :
    (rbthashStep tbl op).stored key = tbl.stored key := by
  cases op with
  | insert data key' alloc => exact rbthashInsert_frame data alloc h
  | get key' => rfl
  | remove key' => exact rbthashRemove_frame h

theorem rbthashRun_frame {ops : List (RbthashOp Bool δ)} (h : ∀ op ∈ ops, ¬ op.changes key) :
    (rbthashRun tbl ops).stored key = tbl.stored key := by
  induction ops generalizing tbl with
  | nil => rfl
  | cons op ops ih =>
      have hrest : (rbthashRun (rbthashStep tbl op) ops).stored key = (rbthashStep tbl op).stored key :=
        ih fun op' hop' => h op' (List.mem_cons_of_mem _ hop')
      exact hrest.trans (rbthashStep_frame (h op (List.mem_cons_self ..)))

/-- What is under the key after an insertion that returns 0. -/
theorem rbthashInsert_stored {data : Option δ} {alloc : InsertAlloc Bool}
    (hret : (rbthashInsert tbl data (some key) alloc).2 = 0) :
    ((rbthashInsert tbl data (some key) alloc).1.stored key).bind RbthashEntry.data
      = match tbl.stored key with
        | some e => e.data
        | none => data := by
  have hcase := rbthashInsert_case tbl data (some key) alloc
  generalize rbthashInsert tbl data (some key) alloc = r at hcase hret ⊢
  cases hcase with
  | refused early => cases hret
  | @found data _ node e present =>
      have hsame : RbthashTable.stored ({ tbl with outstanding := tbl.outstanding + 1 } : RbthashTable rb) key = some e :=
        present
      rw [hsame, present]
      rfl
  | noNode absent => cases hret
  | @added data _ absent =>
      rw [absent]
      have hfind := (find_searchEntry _ (newEntry tbl data key)).trans absent
      show (rb.find (Function.update tbl.buckets (rbthashKeyBucket tbl key) _ (rbthashKeyBucket tbl key))
        (searchEntry key)).bind RbthashEntry.data = some data
      rw [Function.update_self,
        rb.find_probe_new rbthashComparator_comparesKeys (z := searchEntry key) hfind rfl]
      rfl

/-- A removal returns what a lookup returns, and leaves nothing. -/
theorem rbthashRemove_stored :
    (rbthashRemove tbl (some key)).2 = (tbl.stored key).bind RbthashEntry.data ∧
      (rbthashRemove tbl (some key)).1.stored key = none := by
  have hcase := rbthashRemove_case tbl (some key)
  generalize rbthashRemove tbl (some key) = r at hcase ⊢
  cases hcase with
  | nothing absent => exact ⟨by rw [absent]; rfl, absent⟩
  | @taken _ e present =>
      refine ⟨by rw [present]; rfl, ?_⟩
      show rb.find (Function.update tbl.buckets (rbthashKeyBucket tbl key) _ (rbthashKeyBucket tbl key))
        (searchEntry key) = none
      rw [Function.update_self]
      exact rb.find_delete rbthashComparator_comparesKeys rfl

end Call

/-! ## §2. Runs. -/

/-- **THE TABLE IS A MAP, AND WHERE IT IS NOT.**  After any run: an insertion
that returns 0 makes its data what lookups of the key return, up to the next
insertion or removal under the key, if and only if no other data is there
already; a removal returns what a lookup would have, and no lookup finds the
key afterwards; no call changes what is found under another key. -/
theorem rbthash_map (rb : ItemSets (RbthashEntry δ) rbthashComparator) {buckets : Nat} (hb : 1 ≤ buckets)
    (hfunc : Bytes → UInt32) (dfunc : Bool) (ops : List (RbthashOp Bool δ)) (key : Bytes)
    {tbl : RbthashTable rb} (hrun : tbl = rbthashRun (rbthashTableInit rb buckets hfunc dfunc) ops) :
    (∀ data alloc, (rbthashInsert tbl data (some key) alloc).2 = 0 →
      ((∀ mid, (∀ op ∈ mid, ¬ op.changes key) →
          rbthashGet (rbthashRun (rbthashInsert tbl data (some key) alloc).1 mid) (some key) = data) ↔
        ∀ e ∈ tbl.entries, e.key = key → e.data = data)) ∧
      (rbthashRemove tbl (some key)).2 = rbthashGet tbl (some key) ∧
      rbthashGet (rbthashRemove tbl (some key)).1 (some key) = none ∧
      ∀ op : RbthashOp Bool δ, ¬ op.changes key →
        rbthashGet (rbthashStep tbl op) (some key) = rbthashGet tbl (some key) := by
  have hok : RbthashOk tbl := hrun ▸ rbthashRun_ok (rbthashOk_init rb hb hfunc dfunc) ops
  refine ⟨?_, ?_, ?_, ?_⟩
  · intro data alloc hret
    have hstored := rbthashInsert_stored hret
    -- the tree keeps the entry that is there, and the new data with it is lost
    have hmid : ∀ mid : List (RbthashOp Bool δ), (∀ op ∈ mid, ¬ op.changes key) →
        rbthashGet (rbthashRun (rbthashInsert tbl data (some key) alloc).1 mid) (some key)
          = match tbl.stored key with
            | some e => e.data
            | none => data := by
      intro mid hother
      rw [rbthashGet_eq, rbthashRun_frame hother, hstored]
    constructor
    · intro h e he hkey
      have hhere := (hmid [] (by simp)).symm.trans (h [] (by simp))
      rw [(stored_eq_some_iff hok).mpr ⟨he, hkey⟩] at hhere
      exact hhere
    · intro h mid hother
      rw [hmid mid hother]
      cases hpresent : tbl.stored key with
      | none => rfl
      | some e =>
          have he := (stored_eq_some_iff hok).mp hpresent
          exact h e he.1 he.2
  · rw [rbthashGet_eq]
    exact rbthashRemove_stored.1
  · rw [rbthashGet_eq, rbthashRemove_stored.2]
    rfl
  · intro op hop
    rw [rbthashGet_eq, rbthashGet_eq, rbthashStep_frame hop]

/-- Lists of entries with numbers as data. -/
def natSets : ItemSets (RbthashEntry Nat) rbthashComparator := listSets _

/-- An empty table of one bucket. -/
def oneBucket : RbthashTable natSets := rbthashTableInit _ 1 (fun _ => 7) false

/-- Every allocation succeeds. -/
def enough : InsertAlloc Bool := ⟨true, true, true⟩

theorem rbthash_map_oneBucket :
    rbthashGet (rbthashRun (rbthashInsert oneBucket (some 10) (some [1]) enough).1
      [.insert (some 20) (some [2]) enough, .remove (some [2])]) (some [1]) = some 10 := by
  have hret : (rbthashInsert oneBucket (some 10) (some [1]) enough).2 = 0 := by decide +kernel
  have hmap := rbthash_map natSets (Nat.le_refl 1) (fun _ => 7) false [] [1] rfl
  have hfresh : ∀ mid, (∀ op ∈ mid, ¬ op.changes [1]) →
      rbthashGet (rbthashRun (rbthashInsert oneBucket (some 10) (some [1]) enough).1 mid) (some [1])
        = some 10 := by
    apply (hmap.1 (some 10) enough hret).mpr
    intro e he
    cases he
  have hother : (some [2] : Option Bytes) ≠ some [1] := by decide
  apply hfresh
  intro op hop
  rcases List.mem_cons.mp hop with rfl | hop
  · exact hother
  · rw [List.mem_singleton.mp hop]
    exact hother

/-- The second insertion under a key returns 0, and lookups still return the
first data. -/
theorem second_insert_not_stored :
    ¬ ∀ (ops : List (RbthashOp Bool Nat)) (data : Option Nat) (key : Bytes) (alloc : InsertAlloc Bool),
      (rbthashInsert (rbthashRun oneBucket ops) data (some key) alloc).2 = 0 →
      rbthashGet (rbthashInsert (rbthashRun oneBucket ops) data (some key) alloc).1 (some key) = data := by
  intro hall
  have hret : (rbthashInsert (rbthashRun oneBucket [.insert (some 10) (some [1]) enough]) (some 20)
      (some [1]) enough).2 = 0 := by decide +kernel
  have hget : rbthashGet (rbthashInsert (rbthashRun oneBucket [.insert (some 10) (some [1]) enough]) (some 20)
      (some [1]) enough).1 (some [1]) = some 10 := by decide +kernel
  have hclaim := hall [.insert (some 10) (some [1]) enough] (some 20) [1] enough hret
  rw [hget] at hclaim
  cases hclaim

end LzLib.Rbthash
