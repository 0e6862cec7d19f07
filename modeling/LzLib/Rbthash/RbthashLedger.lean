/-
  LzLib.Rbthash.RbthashLedger
  ───────────────────────────
  **WHO OWNS THE DATA.**

  A ledger of the calls on a table: each insertion has a number, and the
  ledger keeps which insertions returned 0, which returned -1, and what the
  removals returned.  At every moment the accepted data are those removed,
  those in the buckets, and those that are lost; a data is lost when its key
  was there already (`LedgerOk`).

  Main result: `rbthash_ownership`.  The accounts balance after a run if and
  only if every insertion that reached the tree found its key absent and got
  its node.
-/
import LzLib.Rbthash.RbthashSpec
import LzLib.Foundation.NullLists
import LzLib.Foundation.Runs

namespace LzLib.Rbthash

open LzLib.Foundation

/-! ## §1. The ledger. -/

/-- A data pointer, with the number of the insertion that brought it. -/
abbrev Item := Nat × Addr

variable {rb : ItemSets (RbthashEntry Item) rbthashComparator}

structure Ledger (rb : ItemSets (RbthashEntry Item) rbthashComparator) where
  tbl : RbthashTable rb
  calls : Nat
  accepted : List Item
  rejected : List Item
  removed : List Item

inductive LedgerOp
  | insert (data : Option Addr) (key : Option Bytes) (alloc : InsertAlloc Bool)
  | remove (key : Option Bytes)

def ledgerStep (s : Ledger rb) : LedgerOp → Ledger rb
  | .insert data key alloc =>
      let item := data.map fun p => (s.calls, p)
      let inserted := rbthashInsert s.tbl item key alloc
      { s with
        tbl := inserted.1
        calls := s.calls + 1
        accepted := if inserted.2 = 0 then s.accepted ++ item.toList else s.accepted
        rejected := if inserted.2 = 0 then s.rejected else s.rejected ++ item.toList }
  | .remove key =>
      let taken := rbthashRemove s.tbl key
      { s with tbl := taken.1, removed := s.removed ++ taken.2.toList }

/-- An insertion that reaches the tree finds its key absent and gets its
node. -/
def fits (s : Ledger rb) : LedgerOp → Prop
  | .insert data key alloc =>
      ReachesTree data key alloc → (∀ e ∈ s.tbl.entries, key ≠ some e.key) ∧ alloc.node = true
  | .remove _ => True

def ledger (rb : ItemSets (RbthashEntry Item) rbthashComparator) : Component (Ledger rb) LedgerOp where
  step s op := some (ledgerStep s op)
  allowed := fits

/-- A new table, with a destructor. -/
def Ledger.init (rb : ItemSets (RbthashEntry Item) rbthashComparator) (buckets : Nat)
    (hfunc : Bytes → UInt32) : Ledger rb :=
  ⟨rbthashTableInit rb buckets hfunc true, 0, [], [], []⟩

/-- **The accounts balance**: the pool has an entry out for each one in a
bucket; every accepted data was returned by one removal or is destroyed with
the table, once; none that was rejected is destroyed. -/
structure Owned (s : Ledger rb) : Prop where
  counted : s.tbl.outstanding = s.tbl.entries.length
  once : s.accepted.Perm (s.removed ++ (rbthashTableDestroy s.tbl).destroyed)
  distinct : s.accepted.Nodup
  spared : ∀ x ∈ s.rejected, x ∉ (rbthashTableDestroy s.tbl).destroyed
  returned : (rbthashTableDestroy s.tbl).outstanding = 0

/-! ## §2. The entries of a table. -/

/-- The data in the buckets. -/
def RbthashTable.held (tbl : RbthashTable rb) : List Item := tbl.entries.filterMap RbthashEntry.data

/-- One more member in one of the lists. -/
theorem flatMap_range_perm {α : Type} {f g : Nat → List α} {n k : Nat} {x : α} (hn : n < k)
    (hother : ∀ m, m ≠ n → g m = f m) (h : (g n).Perm (x :: f n)) :
    ((List.range k).flatMap g).Perm (x :: (List.range k).flatMap f) := by
  induction k with
  | zero => omega
  | succ k ih =>
      simp only [List.range_succ, List.flatMap_append, List.flatMap_singleton]
      by_cases hnk : n = k
      · subst hnk
        have hbefore : (List.range n).flatMap g = (List.range n).flatMap f := by
          apply List.flatMap_congr
          intro m hm
          have hlt := List.mem_range.mp hm
          exact hother m (by omega)
        rw [hbefore]
        exact (h.append_left _).trans List.perm_middle
      · rw [hother k (Ne.symm hnk)]
        have hperm := ih (by omega)
        exact hperm.append_right (f k)

section Entries

variable {tbl tbl' : RbthashTable rb} {n : Nat} {e : RbthashEntry Item}

/-- Bucket `n` has become `t`, with one more entry. -/
theorem entries_add {t : rb.Table} (hn : n < tbl.numbuckets) (hnum : tbl'.numbuckets = tbl.numbuckets)
    (hbuckets : tbl'.buckets = Function.update tbl.buckets n t)
    (h : (rb.items t).Perm (e :: rb.items (tbl.buckets n))) : tbl'.entries.Perm (e :: tbl.entries) := by
  unfold RbthashTable.entries
  rw [hnum, hbuckets]
  apply flatMap_range_perm hn
  · intro m hm
    rw [Function.update_of_ne hm]
  · rw [Function.update_self]
    exact h

/-- Bucket `n` has become `t`, with one entry less. -/
theorem entries_take {t : rb.Table} (hn : n < tbl.numbuckets) (hnum : tbl'.numbuckets = tbl.numbuckets)
    (hbuckets : tbl'.buckets = Function.update tbl.buckets n t)
    (h : (rb.items (tbl.buckets n)).Perm (e :: rb.items t)) : tbl.entries.Perm (e :: tbl'.entries) := by
  unfold RbthashTable.entries
  rw [hnum, hbuckets]
  apply flatMap_range_perm hn
  · intro m hm
    rw [Function.update_of_ne hm]
  · rw [Function.update_self]
    exact h

theorem held_perm (h : tbl'.entries.Perm (e :: tbl.entries)) :
    tbl'.held.Perm (e.data.toList ++ tbl.held) := by
  have hmap := h.filterMap RbthashEntry.data
  unfold RbthashTable.held
  cases hdata : e.data with
  | none =>
      rw [List.filterMap_cons_none hdata] at hmap
      exact hmap
  | some x =>
      rw [List.filterMap_cons_some hdata] at hmap
      exact hmap

end Entries

/-- Destroying the entries one after the other. -/
theorem foldl_deinit (es : List (RbthashEntry Item)) (tbl : RbthashTable rb) (hdfunc : tbl.dfunc = true) :
    (es.foldl rbthashDeinitEntry tbl).destroyed = tbl.destroyed ++ es.filterMap RbthashEntry.data ∧
      (es.foldl rbthashDeinitEntry tbl).outstanding = tbl.outstanding - es.length := by
  induction es generalizing tbl with
  | nil => exact ⟨(List.append_nil _).symm, (Int.sub_zero _).symm⟩
  | cons e es ih =>
      have hone : (rbthashDeinitEntry tbl e).dfunc = true ∧
          (rbthashDeinitEntry tbl e).destroyed = tbl.destroyed ++ e.data.toList ∧
          (rbthashDeinitEntry tbl e).outstanding = tbl.outstanding - 1 := by
        unfold rbthashDeinitEntry
        cases e.data with
        | none => exact ⟨hdfunc, (List.append_nil _).symm, rfl⟩
        | some x =>
            simp only [hdfunc, if_true]
            exact ⟨rfl, rfl, rfl⟩
      have hrest := ih (rbthashDeinitEntry tbl e) hone.1
      rw [List.foldl_cons, hrest.1, hrest.2, hone.2.1, hone.2.2, List.length_cons]
      constructor
      · cases hdata : e.data with
        | none => rw [List.filterMap_cons_none hdata, Option.toList_none, List.append_nil]
        | some x =>
            rw [List.filterMap_cons_some hdata, Option.toList_some, List.append_assoc,
              List.singleton_append]
      · omega

/-! ## §3. The invariant. -/

/-- The items of the first `calls` insertions, each once. -/
structure Booked (items : List Item) (calls : Nat) : Prop where
  numbered : ∀ x ∈ items, x.1 < calls
  distinct : items.Nodup

theorem Booked.none {items : List Item} {calls : Nat} (h : Booked items calls) : Booked items (calls + 1) :=
  ⟨fun x hx => Nat.lt_succ_of_lt (h.numbered x hx), h.distinct⟩

theorem Booked.next {items items' : List Item} {calls : Nat} (h : Booked items calls) {p : Addr}
    (hperm : items'.Perm ((calls, p) :: items)) : Booked items' (calls + 1) := by
  constructor
  · intro x hx
    rcases List.mem_cons.mp (hperm.mem_iff.mp hx) with rfl | hold
    · exact Nat.lt_succ_self calls
    · exact Nat.lt_succ_of_lt (h.numbered x hold)
  · rw [hperm.nodup_iff, List.nodup_cons]
    refine ⟨?_, h.distinct⟩
    intro hmem
    exact Nat.lt_irrefl _ (h.numbered _ hmem)

/-- **Where the data are**, after any run: removed, in the buckets, or `lost`.
What was destroyed was rejected. -/
structure LedgerOk (s : Ledger rb) (lost : List Item) : Prop where
  ok : RbthashOk s.tbl
  dfunc : s.tbl.dfunc = true
  places : s.accepted.Perm (s.removed ++ s.tbl.held ++ lost)
  refused : ∀ x ∈ s.tbl.destroyed, x ∈ s.rejected
  counted : s.tbl.outstanding = s.tbl.entries.length + lost.length
  booked : Booked (s.accepted ++ s.rejected) s.calls

theorem ledgerOk_init {buckets : Nat} (hb : 1 ≤ buckets) (hfunc : Bytes → UInt32) :
    LedgerOk (Ledger.init rb buckets hfunc) [] := by
  have hentries : (Ledger.init rb buckets hfunc).tbl.entries = [] := by
    apply List.flatMap_eq_nil_iff.mpr
    intro n _
    exact rb.items_create
  refine ⟨rbthashOk_init rb hb hfunc true, rfl, ?_, ?_, ?_, ⟨?_, List.nodup_nil⟩⟩
  · rw [RbthashTable.held, hentries]
    exact List.Perm.refl _
  · intro x hx
    cases hx
  · rw [hentries]
    rfl
  · intro x hx
    cases hx

/-- The accounts balance exactly if nothing is lost and nothing destroyed. -/
theorem owned_iff {s : Ledger rb} {lost : List Item} (h : LedgerOk s lost) :
    Owned s ↔ lost = [] ∧ s.tbl.destroyed = [] := by
  have hdestroy := foldl_deinit s.tbl.entries s.tbl h.dfunc
  have hdestroyed : (rbthashTableDestroy s.tbl).destroyed = s.tbl.destroyed ++ s.tbl.held := hdestroy.1
  have houtstanding : (rbthashTableDestroy s.tbl).outstanding = s.tbl.outstanding - s.tbl.entries.length :=
    hdestroy.2
  constructor
  · intro howned
    constructor
    · have hlen := howned.counted
      rw [h.counted] at hlen
      exact List.eq_nil_of_length_eq_zero (by omega)
    · rw [List.eq_nil_iff_forall_not_mem]
      intro x hx
      apply howned.spared x (h.refused x hx)
      rw [hdestroyed]
      exact List.mem_append_left _ hx
  · rintro ⟨rfl, hnone⟩
    have hplaces := h.places
    rw [List.append_nil] at hplaces
    rw [hnone, List.nil_append] at hdestroyed
    refine ⟨by simpa using h.counted, by rw [hdestroyed]; exact hplaces,
      (List.nodup_append.mp h.booked.distinct).1, ?_, ?_⟩
    · intro x hx
      rw [hdestroyed]
      intro hheld
      -- an item in a bucket was accepted
      have haccepted := hplaces.mem_iff.mpr (List.mem_append_right _ hheld)
      exact (List.nodup_append.mp h.booked.distinct).2.2 x haccepted x hx rfl
    · rw [houtstanding, h.counted]
      simp

/-! ## §4. One call. -/

section Step

variable {s : Ledger rb} {lost : List Item}

theorem reachesTree_map {data : Option Addr} {key : Option Bytes} {alloc : InsertAlloc Bool} (n : Nat) :
    ReachesTree (data.map fun p => (n, p)) key alloc ↔ ReachesTree data key alloc := by
  unfold ReachesTree
  cases data <;> simp

theorem item_eq {data : Option Addr} {n : Nat} {x : Item} (h : (data.map fun p => (n, p)) = some x) :
    ∃ p, x = (n, p) := by
  cases data with
  | none => cases h
  | some p => exact ⟨p, (Option.some.inj h).symm⟩

/-- An accepted item in the books. -/
theorem Booked.accept {accepted rejected : List Item} {calls : Nat} (h : Booked (accepted ++ rejected) calls)
    (p : Addr) : Booked (accepted ++ [(calls, p)] ++ rejected) (calls + 1) := by
  apply h.next (p := p)
  rw [List.append_assoc, List.singleton_append]
  exact List.perm_middle

/-- A rejected item, or none, in the books. -/
theorem Booked.reject {accepted rejected : List Item} {calls : Nat} (h : Booked (accepted ++ rejected) calls)
    (data : Option Addr) :
    Booked (accepted ++ (rejected ++ (data.map fun p => (calls, p)).toList)) (calls + 1) := by
  cases data with
  | none =>
      rw [Option.map_none, Option.toList_none, List.append_nil]
      exact h.none
  | some p =>
      rw [Option.map_some, Option.toList_some, ← List.append_assoc]
      exact h.next (List.perm_append_singleton _ _)

/-- An entry has joined a bucket, and its data is accepted. -/
theorem LedgerOk.join (h : LedgerOk s lost) {tbl' : RbthashTable rb} {e : RbthashEntry Item} {p : Addr}
    (hdata : e.data = some (s.calls, p)) (hok : RbthashOk tbl') (hdfunc : tbl'.dfunc = s.tbl.dfunc)
    (hdestroyed : tbl'.destroyed = s.tbl.destroyed) (hout : tbl'.outstanding = s.tbl.outstanding + 1)
    (hentries : tbl'.entries.Perm (e :: s.tbl.entries)) :
    LedgerOk { s with tbl := tbl', calls := s.calls + 1, accepted := s.accepted ++ [(s.calls, p)] } lost := by
  refine ⟨hok, hdfunc.trans h.dfunc, ?_, ?_, ?_, h.booked.accept p⟩
  · show (s.accepted ++ [(s.calls, p)]).Perm (s.removed ++ tbl'.held ++ lost)
    have hheld := held_perm hentries
    rw [hdata] at hheld
    have hplaces := h.places.append_right [(s.calls, p)]
    refine hplaces.trans ((List.perm_append_singleton _ _).trans ?_)
    refine List.Perm.trans ?_ ((hheld.symm.append_left s.removed).append_right lost)
    rw [List.append_assoc, List.append_assoc]
    exact List.perm_middle.symm
  · show ∀ x ∈ tbl'.destroyed, x ∈ s.rejected
    rw [hdestroyed]
    exact h.refused
  · have hcounted := h.counted
    have hlen := hentries.length_eq
    rw [List.length_cons] at hlen
    show tbl'.outstanding = (tbl'.entries.length : Int) + lost.length
    omega

/-- An entry has left its bucket, and its data is returned. -/
theorem LedgerOk.leave (h : LedgerOk s lost) {tbl' : RbthashTable rb} {e : RbthashEntry Item}
    (hok : RbthashOk tbl') (hdfunc : tbl'.dfunc = s.tbl.dfunc) (hdestroyed : tbl'.destroyed = s.tbl.destroyed)
    (hout : tbl'.outstanding = s.tbl.outstanding - 1) (hentries : s.tbl.entries.Perm (e :: tbl'.entries)) :
    LedgerOk { s with tbl := tbl', removed := s.removed ++ e.data.toList } lost := by
  refine ⟨hok, hdfunc.trans h.dfunc, ?_, ?_, ?_, h.booked⟩
  · show s.accepted.Perm (s.removed ++ e.data.toList ++ tbl'.held ++ lost)
    have hheld := held_perm hentries
    refine h.places.trans (List.Perm.append_right lost ?_)
    rw [List.append_assoc]
    exact hheld.append_left s.removed
  · show ∀ x ∈ tbl'.destroyed, x ∈ s.rejected
    rw [hdestroyed]
    exact h.refused
  · have hcounted := h.counted
    have hlen := hentries.length_eq
    rw [List.length_cons] at hlen
    show tbl'.outstanding = (tbl'.entries.length : Int) + lost.length
    omega

/-- The books after an insertion. -/
theorem ledgerStep_insert (h : LedgerOk s lost) (data : Option Addr) (key : Option Bytes)
    (alloc : InsertAlloc Bool) :
    ∃ lost', LedgerOk (ledgerStep s (.insert data key alloc)) lost' ∧
      (lost' = [] ∧ (ledgerStep s (.insert data key alloc)).tbl.destroyed = [] ↔
        (lost = [] ∧ s.tbl.destroyed = []) ∧ fits s (.insert data key alloc)) := by
  have hok := rbthashInsert_ok h.ok (data.map fun p => (s.calls, p)) key alloc
  have hcase := rbthashInsert_case s.tbl (data.map fun p => (s.calls, p)) key alloc
  simp only [ledgerStep, fits]
  rw [← reachesTree_map s.calls]
  generalize hitem : (data.map fun p => (s.calls, p)) = item at hok hcase ⊢
  generalize rbthashInsert s.tbl item key alloc = r at hok hcase ⊢
  cases hcase with
  | @refused item key alloc early =>
      refine ⟨lost, ⟨h.ok, h.dfunc, h.places, ?_, h.counted, ?_⟩, ?_⟩
      · intro x hx
        exact List.mem_append_left _ (h.refused x hx)
      · subst hitem
        exact h.booked.reject data
      · exact ⟨fun hclean => ⟨hclean, fun hreach => absurd hreach early⟩, And.left⟩
  | @found x key node e present =>
      obtain ⟨p, rfl⟩ := item_eq hitem
      -- the new entry is in no bucket, and its data is lost
      refine ⟨lost ++ [(s.calls, p)], ⟨hok, h.dfunc, ?_, h.refused, ?_, h.booked.accept p⟩, ?_⟩
      · show (s.accepted ++ [(s.calls, p)]).Perm (s.removed ++ s.tbl.held ++ (lost ++ [(s.calls, p)]))
        rw [← List.append_assoc]
        exact h.places.append_right _
      · have hcounted := h.counted
        show s.tbl.outstanding + 1 = (s.tbl.entries.length : Int) + (lost ++ [(s.calls, p)]).length
        rw [List.length_append, List.length_singleton]
        omega
      · apply iff_of_false
        · simp
        · rintro ⟨-, hfits⟩
          have he := (stored_eq_some_iff h.ok).mp present
          have habsent := (hfits ⟨Option.some_ne_none _, Option.some_ne_none _, rfl, rfl⟩).1 e he.1
          exact habsent (congrArg some he.2.symm)
  | @noNode x key absent =>
      obtain ⟨p, rfl⟩ := item_eq hitem
      have hdestroyed : (if s.tbl.dfunc = true then s.tbl.destroyed ++ [(s.calls, p)] else s.tbl.destroyed)
          = s.tbl.destroyed ++ [(s.calls, p)] := if_pos h.dfunc
      refine ⟨lost, ⟨hok, h.dfunc, h.places, ?_, h.counted, ?_⟩, ?_⟩
      · intro x hx
        show x ∈ s.rejected ++ [(s.calls, p)]
        have hx' : x ∈ s.tbl.destroyed ++ [(s.calls, p)] := hdestroyed ▸ hx
        rcases List.mem_append.mp hx' with hold | hnew
        · exact List.mem_append_left _ (h.refused x hold)
        · exact List.mem_append_right _ hnew
      · exact h.booked.reject (some p)
      · apply iff_of_false
        · rintro ⟨-, hnone⟩
          rw [hdestroyed] at hnone
          exact List.append_ne_nil_of_right_ne_nil _ (List.cons_ne_nil _ _) hnone
        · rintro ⟨-, hfits⟩
          exact Bool.false_ne_true (hfits ⟨Option.some_ne_none _, Option.some_ne_none _, rfl, rfl⟩).2
  | @added x key absent =>
      obtain ⟨p, rfl⟩ := item_eq hitem
      have hfind := (find_searchEntry _ (newEntry s.tbl (s.calls, p) key)).trans absent
      obtain ⟨tbl', htbl'⟩ : ∃ tbl' : RbthashTable rb, tbl' = ({ s.tbl with
        outstanding := s.tbl.outstanding + 1
        buckets := Function.update s.tbl.buckets (rbthashKeyBucket s.tbl key)
          (rb.probe (s.tbl.buckets (rbthashKeyBucket s.tbl key)) (newEntry s.tbl (s.calls, p) key) true).1 } :
          RbthashTable rb) := ⟨_, rfl⟩
      have hentries : tbl'.entries.Perm (newEntry s.tbl (s.calls, p) key :: s.tbl.entries) :=
        entries_add (keyBucket_lt h.ok key) (by rw [htbl']) (by rw [htbl']) (rb.probe_new _ _ hfind).2
      have hdestroyed : tbl'.destroyed = s.tbl.destroyed := by rw [htbl']
      rw [← htbl'] at hok ⊢
      refine ⟨lost, h.join rfl hok (by rw [htbl']) hdestroyed (by rw [htbl']) hentries, ?_⟩
      rw [hdestroyed]
      constructor
      · intro hclean
        refine ⟨hclean, fun _ => ⟨?_, rfl⟩⟩
        intro e he hkey
        exact (stored_eq_none_iff h.ok).mp absent e he (Option.some.inj hkey).symm
      · exact And.left

/-- The books after a removal. -/
theorem ledgerStep_remove (h : LedgerOk s lost) (key : Option Bytes) :
    LedgerOk (ledgerStep s (.remove key)) lost ∧
      (ledgerStep s (.remove key)).tbl.destroyed = s.tbl.destroyed := by
  have hok := rbthashRemove_ok h.ok key
  have hcase := rbthashRemove_case s.tbl key
  simp only [ledgerStep]
  generalize rbthashRemove s.tbl key = r at hok hcase ⊢
  cases hcase with
  | null =>
      refine ⟨⟨h.ok, h.dfunc, ?_, h.refused, h.counted, h.booked⟩, rfl⟩
      rw [Option.toList_none, List.append_nil]
      exact h.places
  | nothing absent =>
      refine ⟨⟨h.ok, h.dfunc, ?_, h.refused, h.counted, h.booked⟩, rfl⟩
      rw [Option.toList_none, List.append_nil]
      exact h.places
  | @taken key e present =>
      obtain ⟨tbl', htbl'⟩ : ∃ tbl' : RbthashTable rb, tbl' = ({ s.tbl with
        outstanding := s.tbl.outstanding - 1
        buckets := Function.update s.tbl.buckets (rbthashKeyBucket s.tbl key)
          (rb.delete (s.tbl.buckets (rbthashKeyBucket s.tbl key)) (searchEntry key)).1 } :
          RbthashTable rb) := ⟨_, rfl⟩
      -- one entry leaves, and its data is returned
      have hentries : s.tbl.entries.Perm (e :: tbl'.entries) :=
        entries_take (keyBucket_lt h.ok key) (by rw [htbl']) (by rw [htbl']) (rb.delete_found _ _ _ present).2
      have hdestroyed : tbl'.destroyed = s.tbl.destroyed := by rw [htbl']
      rw [← htbl'] at hok ⊢
      exact ⟨h.leave hok (by rw [htbl']) hdestroyed (by rw [htbl']) hentries, hdestroyed⟩

/-- The books after a call: clean if they were clean and the call fits. -/
theorem ledgerStep_ok (h : LedgerOk s lost) (op : LedgerOp) :
    ∃ lost', LedgerOk (ledgerStep s op) lost' ∧
      (lost' = [] ∧ (ledgerStep s op).tbl.destroyed = [] ↔ (lost = [] ∧ s.tbl.destroyed = []) ∧ fits s op) := by
  cases op with
  | insert data key alloc => exact ledgerStep_insert h data key alloc
  | remove key =>
      have hremove := ledgerStep_remove h key
      refine ⟨lost, hremove.1, ?_⟩
      rw [hremove.2]
      exact ⟨fun hclean => ⟨hclean, trivial⟩, And.left⟩

end Step

/-! ## §5. Runs. -/

theorem ledgerRun_ok (ops : List LedgerOp) {s : Ledger rb} {lost : List Item} (h : LedgerOk s lost) :
    ∃ s' lost', (ledger rb).run s ops = some s' ∧ LedgerOk s' lost' ∧
      (lost' = [] ∧ s'.tbl.destroyed = [] ↔ (lost = [] ∧ s.tbl.destroyed = []) ∧ (ledger rb).Legal s ops) := by
  induction ops generalizing s lost with
  | nil => exact ⟨s, lost, rfl, h, by simp [Component.Legal]⟩
  | cons op ops ih =>
      obtain ⟨lost₁, h₁, hclean₁⟩ := ledgerStep_ok h op
      obtain ⟨s', lost', hrun, h', hclean'⟩ := ih h₁
      refine ⟨s', lost', hrun, h', ?_⟩
      rw [hclean', hclean₁, and_assoc]
      apply and_congr_right
      intro _
      constructor
      · rintro ⟨hfits, hrest⟩
        refine ⟨hfits, ?_⟩
        rintro _ ⟨⟩
        exact hrest
      · rintro ⟨hfits, hrest⟩
        exact ⟨hfits, hrest _ rfl⟩

/-- **OWNERSHIP, AND EXACTLY WHEN IT HOLDS.**  After any run of insertions and
removals, with any failures of allocation, the accounts balance if and only if
every insertion of the run that reached the tree found its key absent and got
its node. -/
theorem rbthash_ownership (rb : ItemSets (RbthashEntry Item) rbthashComparator) {buckets : Nat}
    (hb : 1 ≤ buckets) (hfunc : Bytes → UInt32) (ops : List LedgerOp) :
    ∃ s, (ledger rb).run (.init rb buckets hfunc) ops = some s ∧
      (Owned s ↔ (ledger rb).Legal (.init rb buckets hfunc) ops) := by
  have hinit : LedgerOk (Ledger.init rb buckets hfunc) [] := ledgerOk_init hb hfunc
  obtain ⟨s, lost, hrun, h, hclean⟩ := ledgerRun_ok ops hinit
  refine ⟨s, hrun, ?_⟩
  rw [owned_iff h, hclean]
  exact and_iff_right ⟨rfl, rfl⟩

/-- An empty table of one bucket with a destructor, over lists. -/
def oneLedger : Ledger (listSets rbthashComparator) := .init _ 1 fun _ => 7

/-- An insertion, and the removal of what it stored. -/
def inOut : List LedgerOp := [.insert (some 10) (some [1]) ⟨true, true, true⟩, .remove (some [1])]

theorem rbthash_ownership_inOut :
    ∃ s, (ledger (listSets rbthashComparator)).run oneLedger inOut = some s ∧ Owned s := by
  have howned := rbthash_ownership (listSets rbthashComparator) (Nat.le_refl 1) (fun _ => 7) inOut
  obtain ⟨s, hrun, hiff⟩ := howned
  refine ⟨s, hrun, hiff.mpr ⟨?_, fun _ _ => ⟨trivial, fun _ _ => trivial⟩⟩⟩
  intro _
  refine ⟨?_, rfl⟩
  intro e he
  cases he

/-- The second insertion under a key returns 0, and its entry and data are in
no account. -/
theorem oneLedger_not_owned :
    ¬ ∀ ops s, (ledger (listSets rbthashComparator)).run oneLedger ops = some s → Owned s := by
  intro hall
  have howned := hall [.insert (some 10) (some [1]) ⟨true, true, true⟩,
    .insert (some 20) (some [1]) ⟨true, true, true⟩] _ rfl
  have hcounted := howned.counted
  revert hcounted
  decide +kernel

/-- Without a node, the data of an insertion that returns -1 is destroyed. -/
example : ((ledger (listSets rbthashComparator)).run oneLedger
    [.insert (some 10) (some [1]) ⟨true, true, false⟩]).map (fun s => (s.rejected, s.tbl.destroyed))
      = some ([(0, 10)], [(0, 10)]) := rfl

end LzLib.Rbthash
