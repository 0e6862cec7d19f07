/-
  LzLib.Rbthash.ComparatorOrder
  ─────────────────────────────
  **`rbthash_comparator` ORDERS THE KEYS.**

  A red-black tree needs more of its comparison than that equal keys compare as
  zero: the comparison has to be a strict total order.  Shorter keys come first,
  and keys of one length are in the order of their bytes.

  The comparator is modelled a second time here, on the entries as they are in
  memory, with a pointer to the key and an `int` for its length, and with the NULL
  pointers that it refuses; on entries with a key it is the one of the table's model.
-/
import LzLib.Foundation.Comparators
import LzLib.Foundation.Copies
import LzLib.Rbthash.RbthashDef

namespace LzLib.Rbthash

open LzLib.Foundation

variable {δ : Type}

/-! ## §1. Entries in memory. -/

/-- `rbthash_entry_t`; `key` is the memory from the key on. -/
structure RawEntry (δ : Type) where
  data : Option δ
  key : Memory
  keylen : Int
  keyhash : UInt32

/-- An `int` as a `size_t`. -/
def sizeT (n : Int) : Nat := (if n < 0 then n + 2 ^ 64 else n).toNat

/-- `memcmp (s1, s2, n)`, from offset `off` on. -/
def memcmpAt (s₁ s₂ : Memory) : Nat → Nat → Int
  | _, 0 => 0
  | off, n + 1 =>
      if s₁ off = s₂ off then memcmpAt s₁ s₂ (off + 1) n
      else if s₁ off < s₂ off then -1 else 1

/-- `rbthash_comparator`; `none` is NULL, and `param` tells whether there is a parameter. -/
def rbthashComparatorRaw (entry₁ entry₂ : Option (RawEntry δ)) (param : Bool) : Int :=
  match entry₁, entry₂, param with
  | some e₁, some e₂, true =>
      if e₁.keylen ≠ e₂.keylen then
        if e₁.keylen < e₂.keylen then -1
        else if e₁.keylen > e₂.keylen then 1
        else 0
      else memcmpAt e₁.key e₂.key 0 (sizeT e₁.keylen)
  | _, _, _ => -1

/-- The bytes of the key. -/
def RawEntry.keyBytes (e : RawEntry δ) : Bytes := e.key.bytesAt 0 e.keylen.toNat

/-- The entry of the table's model. -/
def RawEntry.entry (e : RawEntry δ) : RbthashEntry δ := ⟨e.data, e.keyBytes, e.keyhash⟩

/-! ## §2. Bytes. -/

theorem memcmpAt_eq (s₁ s₂ : Memory) (n : Nat) : ∀ off,
    memcmpAt s₁ s₂ off n = memcmp (s₁.bytesAt off n) (s₂.bytesAt off n) := by
  induction n with
  | zero =>
      intro off
      rfl
  | succ n ih =>
      intro off
      rw [Memory.bytesAt_succ, Memory.bytesAt_succ]
      unfold memcmpAt memcmp
      rw [ih]

/-- The first byte that differs decides. -/
theorem memcmp_decides {as bs : Bytes} (hlen : as.length = bs.length) :
    (memcmp as bs < 0 ↔ List.Lex (· < ·) as bs) ∧ (0 < memcmp as bs ↔ List.Lex (· < ·) bs as) := by
  induction as generalizing bs with
  | nil =>
      have hbs : bs = [] := List.eq_nil_of_length_eq_zero hlen.symm
      subst hbs
      unfold memcmp
      simp
  | cons a as ih =>
      cases bs with
      | nil => cases hlen
      | cons b bs =>
          rw [List.cons_lex_cons_iff, List.cons_lex_cons_iff]
          unfold memcmp
          by_cases hab : a = b
          · subst hab
            have hirrefl : ¬ a < a := UInt8.lt_irrefl a
            simp only [if_true, hirrefl, true_and, false_or]
            exact ih (Nat.succ.inj hlen)
          · have hba : ¬ b = a := fun h => hab h.symm
            simp only [hab, hba, if_false, false_and, or_false]
            by_cases hlt : a < b
            · have hnot : ¬ b < a := UInt8.lt_asymm hlt
              simp [hlt, hnot]
            · have hgt : b < a := UInt8.lt_of_le_of_ne (UInt8.not_lt.mp hlt) hba
              simp [hlt, hgt]

/-! ## §3. Keys. -/

/-- **The order of the keys**: shorter ones first, keys of one length by their bytes. -/
theorem rbthashComparator_decides :
    Decides (rbthashComparator (δ := δ)) (InvImage (List.Shortlex (· < ·)) RbthashEntry.key) := by
  have hcases : ∀ e₁ e₂ : RbthashEntry δ,
      (rbthashComparator e₁ e₂ < 0 ↔ List.Shortlex (· < ·) e₁.key e₂.key)
        ∧ (0 < rbthashComparator e₁ e₂ ↔ List.Shortlex (· < ·) e₂.key e₁.key) := by
    intro e₁ e₂
    rw [List.shortlex_def, List.shortlex_def]
    unfold rbthashComparator
    by_cases hlen : e₁.key.length = e₂.key.length
    · rw [if_neg (not_not_intro hlen)]
      have hbytes := memcmp_decides hlen
      simp [hlen, hbytes.1, hbytes.2]
    · rw [if_pos hlen]
      by_cases hlt : e₁.key.length < e₂.key.length
      · rw [if_pos hlt]
        omega
      · rw [if_neg hlt]
        omega
  exact ⟨fun a b => (hcases a b).1, fun a b => (hcases a b).2⟩

/-- On entries with a key the comparator is that of the table's model. -/
theorem rbthashComparatorRaw_eq {e₁ e₂ : RawEntry δ} (h₁ : 0 ≤ e₁.keylen) (h₂ : 0 ≤ e₂.keylen) :
    rbthashComparatorRaw (some e₁) (some e₂) true = rbthashComparator e₁.entry e₂.entry := by
  have hlen : ∀ e : RawEntry δ, e.entry.key.length = e.keylen.toNat := fun e => Memory.length_bytesAt _ _ _
  unfold rbthashComparatorRaw rbthashComparator
  rw [hlen, hlen]
  by_cases heq : e₁.keylen = e₂.keylen
  · have hsize : sizeT e₁.keylen = e₁.keylen.toNat := by
      unfold sizeT
      rw [if_neg (by omega)]
    simp only [heq, ne_eq, not_true_eq_false, if_false]
    rw [← heq, hsize, memcmpAt_eq]
    unfold RawEntry.entry RawEntry.keyBytes
    rw [heq]
  · have hne : e₁.keylen.toNat ≠ e₂.keylen.toNat := by omega
    have hlt : e₁.keylen < e₂.keylen ↔ e₁.keylen.toNat < e₂.keylen.toNat := by omega
    have hgt : e₁.keylen > e₂.keylen ↔ e₁.keylen.toNat > e₂.keylen.toNat := by omega
    simp only [if_pos heq, if_pos hne, hlt, hgt]

/-- **`rbthash_comparator` is a strict total order on keys.** -/
theorem rbthashComparatorRaw_order (e₁ e₂ e₃ : RawEntry δ) (h₁ : 0 ≤ e₁.keylen) (h₂ : 0 ≤ e₂.keylen)
    (h₃ : 0 ≤ e₃.keylen) :
    (rbthashComparatorRaw (some e₁) (some e₂) true = 0 ↔ e₁.keyBytes = e₂.keyBytes)
      ∧ (rbthashComparatorRaw (some e₁) (some e₂) true).sign = -(rbthashComparatorRaw (some e₂) (some e₁) true).sign
      ∧ (rbthashComparatorRaw (some e₁) (some e₂) true < 0 → rbthashComparatorRaw (some e₂) (some e₃) true < 0 →
          rbthashComparatorRaw (some e₁) (some e₃) true < 0) := by
  have D := rbthashComparator_decides (δ := δ)
  rw [rbthashComparatorRaw_eq h₁ h₂, rbthashComparatorRaw_eq h₂ h₁, rbthashComparatorRaw_eq h₂ h₃,
    rbthashComparatorRaw_eq h₁ h₃]
  have hbytes : ∀ {x y z : UInt8}, x < y → y < z → x < z := fun hx hy => UInt8.lt_trans hx hy
  refine ⟨D.eq_zero_iff_key, D.swap, ?_⟩
  intro hab hbc
  exact D.trans (fun h h' => shortlex_trans (r := (· < ·)) hbytes h h') hab hbc

/-- The entry of the key `c`, or `c` and `d`. -/
def rawKey (c d : UInt8) (keylen : Int) : RawEntry Unit := ⟨none, fun i => if i = 0 then c else d, keylen, 0⟩

/-- `"b"` is before `"aa"` and that before `"ab"`. -/
theorem rbthashComparatorRaw_order_three :
    rbthashComparatorRaw (some (rawKey 98 0 1)) (some (rawKey 97 98 2)) true < 0 :=
  (rbthashComparatorRaw_order (rawKey 98 0 1) (rawKey 97 97 2) (rawKey 97 98 2) (by decide) (by decide)
    (by decide)).2.2 (by decide) (by decide)

end LzLib.Rbthash
