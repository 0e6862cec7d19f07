/-
  LzLib.Foundation.Batches
  ────────────────────────
  **READING BATCHES, ONE ENTRY AFTER THE OTHER.**

  Entries come in lists, the batches.  The entry `(k, i)` is number `i` of
  batch `k`; `entries` has all of them, batch after batch.  A reader that has
  read all batches but the last, and a first part of the last, has read each
  entry at most once and in order: `ReadInOrder`.
-/
import Mathlib.Data.List.Nodup
import Mathlib.Data.List.Range

namespace LzLib.Foundation

variable {α : Type}

/-! ## §1. Entries. -/

/-- The first `n` entries of batch `k`. -/
def batchRow (k n : Nat) : List (Nat × Nat) := (List.range n).map fun i => (k, i)

/-- All entries, batch after batch. -/
def entries (xss : List (List α)) : List (Nat × Nat) := xss.zipIdx.flatMap fun b => batchRow b.2 b.1.length

/-- The value of an entry. -/
def entryAt (xss : List (List α)) (p : Nat × Nat) : Option α := xss[p.1]?.bind fun xs => xs[p.2]?

theorem batchRow_succ (k n : Nat) : batchRow k (n + 1) = batchRow k n ++ [(k, n)] := by
  unfold batchRow
  rw [List.range_succ, List.map_append]
  rfl

theorem mem_batchRow {k n : Nat} {p : Nat × Nat} : p ∈ batchRow k n ↔ p.1 = k ∧ p.2 < n := by
  unfold batchRow
  constructor
  · intro hp
    obtain ⟨i, hi, rfl⟩ := List.mem_map.mp hp
    exact ⟨rfl, List.mem_range.mp hi⟩
  · intro hp
    exact List.mem_map.mpr ⟨p.2, List.mem_range.mpr hp.2, by rw [← hp.1]⟩

theorem nodup_batchRow (k n : Nat) : (batchRow k n).Nodup := by
  unfold batchRow
  apply List.Nodup.map _ List.nodup_range
  intro i j hij
  exact congrArg Prod.snd hij

theorem batchRow_initial (k : Nat) {i n : Nat} (h : i ≤ n) : batchRow k i <+: batchRow k n := by
  induction n with
  | zero =>
      have hi : i = 0 := Nat.le_zero.mp h
      subst hi
      exact List.prefix_rfl
  | succ n ih =>
      by_cases heq : i = n + 1
      · subst heq
        exact List.prefix_rfl
      · apply (ih (by omega)).trans
        rw [batchRow_succ]
        exact List.prefix_append _ _

@[simp] theorem entries_nil : entries ([] : List (List α)) = [] := rfl

@[simp] theorem entries_concat (xss : List (List α)) (xs : List α) :
    entries (xss ++ [xs]) = entries xss ++ batchRow xss.length xs.length := by
  unfold entries
  rw [List.zipIdx_append, List.flatMap_append]
  simp

theorem mem_entries {xss : List (List α)} {p : Nat × Nat} :
    p ∈ entries xss ↔ ∃ xs, xss[p.1]? = some xs ∧ p.2 < xs.length := by
  unfold entries
  simp only [List.mem_flatMap, mem_batchRow]
  constructor
  · rintro ⟨⟨xs, k⟩, hmem, hk, hi⟩
    refine ⟨xs, ?_, hi⟩
    rw [hk]
    exact List.mem_zipIdx_iff_getElem?.mp hmem
  · rintro ⟨xs, hxs, hi⟩
    exact ⟨(xs, p.1), List.mem_zipIdx_iff_getElem?.mpr hxs, rfl, hi⟩

theorem lt_of_mem_entries {xss : List (List α)} {p : Nat × Nat} (h : p ∈ entries xss) : p.1 < xss.length := by
  obtain ⟨xs, hxs, -⟩ := mem_entries.mp h
  exact (List.getElem?_eq_some_iff.mp hxs).1

theorem nodup_entries (xss : List (List α)) : (entries xss).Nodup := by
  induction xss using List.reverseRecOn with
  | nil => exact List.nodup_nil
  | append_singleton xss xs ih =>
      rw [entries_concat]
      apply List.Nodup.append ih (nodup_batchRow _ _)
      intro p hp hrow
      have hlt := lt_of_mem_entries hp
      rw [(mem_batchRow.mp hrow).1] at hlt
      exact Nat.lt_irrefl _ hlt

/-- The entries have the values of the batches in order. -/
theorem map_entries (xss : List (List α)) : (entries xss).map (entryAt xss) = xss.flatten.map some := by
  induction xss using List.reverseRecOn with
  | nil => rfl
  | append_singleton xss xs ih =>
      have hold : ∀ p ∈ entries xss, entryAt (xss ++ [xs]) p = entryAt xss p := by
        intro p hp
        unfold entryAt
        rw [List.getElem?_append_left (lt_of_mem_entries hp)]
      have hrow : (batchRow xss.length xs.length).map (entryAt (xss ++ [xs])) = xs.map some := by
        apply List.ext_getElem?
        intro i
        unfold batchRow entryAt
        simp only [List.map_map, List.getElem?_map]
        by_cases hi : i < xs.length
        · simp [hi]
        · have hle : xs.length ≤ i := Nat.le_of_not_lt hi
          simp [hle]
      rw [entries_concat, List.map_append, List.map_congr_left hold, ih, hrow]
      simp

/-! ## §2. What was read. -/

/-- **Read in order**: a first part of all entries, with every batch but the last. -/
structure ReadInOrder (xss : List (List α)) (read : List (Nat × Nat)) : Prop where
  inOrder : read <+: entries xss
  earlier : entries xss.dropLast <+: read

theorem ReadInOrder.nodup {xss : List (List α)} {read : List (Nat × Nat)} (R : ReadInOrder xss read) : read.Nodup :=
  R.inOrder.sublist.nodup (nodup_entries xss)

/-- Part of the last batch is read. -/
theorem readInOrder_row (xss : List (List α)) {xs : List α} {i : Nat} (h : i ≤ xs.length) :
    ReadInOrder (xss ++ [xs]) (entries xss ++ batchRow xss.length i) where
  inOrder := by
    rw [entries_concat]
    exact (List.prefix_append_right_inj _).mpr (batchRow_initial _ h)
  earlier := by
    rw [List.dropLast_concat]
    exact List.prefix_append _ _

/-- All is read. -/
theorem readInOrder_entries (xss : List (List α)) : ReadInOrder xss (entries xss) := by
  induction xss using List.reverseRecOn with
  | nil => exact ⟨List.prefix_rfl, List.prefix_rfl⟩
  | append_singleton xss xs ih =>
      rw [entries_concat]
      exact readInOrder_row xss (Nat.le_refl _)

/-- All is read when the whole of the last batch is. -/
theorem read_row_eq_entries_iff (xss : List (List α)) (xs : List α) (i : Nat) :
    entries xss ++ batchRow xss.length i = entries (xss ++ [xs]) ↔ i = xs.length := by
  rw [entries_concat, List.append_cancel_left_eq]
  constructor
  · intro heq
    have hlen := congrArg List.length heq
    unfold batchRow at hlen
    simpa using hlen
  · exact congrArg (batchRow xss.length)

end LzLib.Foundation
