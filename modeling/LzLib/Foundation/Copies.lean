/-
  LzLib.Foundation.Copies
  ───────────────────────
  **COPIES INTO A MEMORY, AND WHERE THEY WRITE.**

  A copy is given no size of its destination.  Beside the memory it leaves,
  the model keeps the addresses that were written, so that a copy that writes
  what was there before is still a copy to that place.
-/
import LzLib.Foundation.Memory

namespace LzLib.Foundation

/-! ## §1. Bytes and strings in a memory. -/

/-- The `n` bytes at `a`. -/
def Memory.bytesAt (m : Memory) (a n : Nat) : Bytes := (List.range n).map fun i => m (a + i)

@[simp] theorem Memory.length_bytesAt (m : Memory) (a n : Nat) : (m.bytesAt a n).length = n := by
  unfold Memory.bytesAt
  simp

theorem Memory.bytesAt_add (m : Memory) (a n k : Nat) :
    m.bytesAt a (n + k) = m.bytesAt a n ++ m.bytesAt (a + n) k := by
  unfold Memory.bytesAt
  rw [List.range_add, List.map_append, List.map_map]
  congr 1
  apply List.map_congr_left
  intro i _
  exact congrArg m (Nat.add_assoc a n i).symm

theorem Memory.bytesAt_succ (m : Memory) (a n : Nat) : m.bytesAt a (n + 1) = m a :: m.bytesAt (a + 1) n := by
  rw [Nat.add_comm n 1, m.bytesAt_add]
  rfl

/-- A part of the bytes at `a`. -/
theorem Memory.bytesAt_part (m : Memory) (a : Nat) {i n k : Nat} (h : i + n ≤ k) :
    ((m.bytesAt a k).drop i).take n = m.bytesAt (a + i) n := by
  obtain ⟨d, rfl⟩ := Nat.exists_eq_add_of_le h
  rw [m.bytesAt_add, m.bytesAt_add, List.append_assoc, List.drop_left' (m.length_bytesAt a i),
    List.take_left' (m.length_bytesAt (a + i) n)]

/-- The string at `a`, when it ends in the next `n` bytes. -/
def Memory.strAt (m : Memory) (a n : Nat) : Option CStr := CStr.scan (m.bytesAt a n)

/-- Bytes that are no NUL are part of the string. -/
theorem CStr.length_le_of_scan {cs rest : Bytes} {t : CStr} (h : (0 : UInt8) ∉ cs)
    (ht : CStr.scan (cs ++ rest) = some t) : cs.length ≤ t.strlen := by
  induction cs generalizing t with
  | nil => exact Nat.zero_le _
  | cons c cs ih =>
      have hc : c ≠ 0 := by
        intro hzero
        apply h
        rw [hzero]
        exact List.mem_cons_self
      rw [List.cons_append] at ht
      unfold CStr.scan at ht
      rw [dif_neg hc] at ht
      cases hscan : CStr.scan (cs ++ rest) with
      | none => simp [hscan] at ht
      | some u =>
          simp only [hscan, Option.some.injEq] at ht
          rw [← ht]
          exact Nat.succ_le_succ (ih (fun hmem => h (List.mem_cons_of_mem c hmem)) hscan)

/-- A string and its NUL are read back. -/
theorem Memory.strAt_eq {m : Memory} {a n : Nat} {s : CStr} (hn : s.strlen < n)
    (h : m.bytesAt a (s.strlen + 1) = s.chars ++ [0]) : m.strAt a n = some s := by
  obtain ⟨d, rfl⟩ := Nat.exists_eq_add_of_le hn
  unfold Memory.strAt
  rw [m.bytesAt_add, h, List.append_assoc]
  exact CStr.scan_chars s _

/-- A string whose first characters are known. -/
theorem Memory.length_le_of_strAt {m : Memory} {a n : Nat} {s t : CStr} (hn : s.strlen ≤ n)
    (h : m.bytesAt a s.strlen = s.chars) (ht : m.strAt a n = some t) : s.strlen ≤ t.strlen := by
  obtain ⟨d, rfl⟩ := Nat.exists_eq_add_of_le hn
  unfold Memory.strAt at ht
  rw [m.bytesAt_add, h] at ht
  exact CStr.length_le_of_scan s.nulFree ht

/-! ## §2. Copies. -/

/-- A memory, and the addresses that were written. -/
structure Written where
  bytes : Memory
  written : List Nat

/-- `*a = b`. -/
def Written.put (s : Written) (a : Nat) (b : UInt8) : Written :=
  ⟨Function.update s.bytes a b, s.written ++ [a]⟩

/-- The bytes one after the other, from `dst` on. -/
def Written.copy : Written → Nat → Bytes → Written
  | s, _, [] => s
  | s, dst, b :: bs => (s.put dst b).copy (dst + 1) bs

/-- `strcpy (dst, str)`. -/
def Written.strcpy (s : Written) (dst : Nat) (str : CStr) : Written := s.copy dst (str.chars ++ [0])

/-- **Where a copy writes.** -/
theorem Written.mem_copy (bs : Bytes) : ∀ (s : Written) (dst a : Nat),
    a ∈ (s.copy dst bs).written ↔ a ∈ s.written ∨ (dst ≤ a ∧ a < dst + bs.length) := by
  induction bs with
  | nil =>
      intro s dst a
      constructor
      · intro h
        exact Or.inl h
      · rintro (h | h)
        · exact h
        · exact absurd h.2 (by simpa using h.1)
  | cons b bs ih =>
      intro s dst a
      show a ∈ ((s.put dst b).copy (dst + 1) bs).written ↔ _
      rw [ih]
      unfold Written.put
      rw [List.mem_append, List.mem_singleton, List.length_cons]
      have hplace : (a = dst ∨ dst + 1 ≤ a ∧ a < dst + 1 + bs.length) ↔ (dst ≤ a ∧ a < dst + (bs.length + 1)) := by omega
      rw [or_assoc, hplace]

/-- Where it does not write, the memory is as before. -/
theorem Written.copy_outside (bs : Bytes) : ∀ (s : Written) (dst : Nat) {a : Nat},
    a < dst ∨ dst + bs.length ≤ a → (s.copy dst bs).bytes a = s.bytes a := by
  induction bs with
  | nil =>
      intro s dst a _
      rfl
  | cons b bs ih =>
      intro s dst a h
      rw [List.length_cons] at h
      show ((s.put dst b).copy (dst + 1) bs).bytes a = _
      rw [ih (s.put dst b) (dst + 1) (by omega)]
      exact Function.update_of_ne (by omega) _ _

/-- **The bytes are there.** -/
theorem Written.bytesAt_copy (bs : Bytes) : ∀ (s : Written) (dst : Nat), (s.copy dst bs).bytes.bytesAt dst bs.length = bs := by
  induction bs with
  | nil =>
      intro s dst
      rfl
  | cons b bs ih =>
      intro s dst
      have hfirst : ((s.put dst b).copy (dst + 1) bs).bytes dst = b := by
        rw [Written.copy_outside bs (s.put dst b) (dst + 1) (Or.inl (Nat.lt_succ_self dst))]
        exact Function.update_self _ _ _
      show ((s.put dst b).copy (dst + 1) bs).bytes.bytesAt dst (bs.length + 1) = b :: bs
      rw [Memory.bytesAt_succ, ih, hfirst]

/-- A part of what was copied. -/
theorem Written.bytesAt_copy_part (s : Written) (dst : Nat) (bs : Bytes) {i n : Nat} (h : i + n ≤ bs.length) :
    (s.copy dst bs).bytes.bytesAt (dst + i) n = (bs.drop i).take n := by
  rw [← Memory.bytesAt_part _ dst h, Written.bytesAt_copy bs s dst]

section Strcpy

variable (s : Written) (dst : Nat) (str : CStr)

theorem Written.mem_strcpy {a : Nat} :
    a ∈ (s.strcpy dst str).written ↔ a ∈ s.written ∨ (dst ≤ a ∧ a ≤ dst + str.strlen) := by
  unfold Written.strcpy
  rw [Written.mem_copy, List.length_append, List.length_singleton]
  show a ∈ s.written ∨ (dst ≤ a ∧ a < dst + (str.strlen + 1)) ↔ _
  have hplace : (dst ≤ a ∧ a < dst + (str.strlen + 1)) ↔ (dst ≤ a ∧ a ≤ dst + str.strlen) := by omega
  rw [hplace]

theorem Written.bytesAt_strcpy : (s.strcpy dst str).bytes.bytesAt dst (str.strlen + 1) = str.chars ++ [0] := by
  have hcopy := Written.bytesAt_copy (str.chars ++ [0]) s dst
  rw [List.length_append, List.length_singleton] at hcopy
  exact hcopy

/-- **`strcpy` into a buffer of `size` bytes** stays inside when there is room for the NUL. -/
theorem Written.strcpy_inside_iff (size : Nat) :
    (∀ a ∈ (Written.mk s.bytes []).strcpy dst str |>.written, dst ≤ a ∧ a < dst + size) ↔ str.strlen < size := by
  constructor
  · intro hall
    have hlast := hall (dst + str.strlen) (by
      rw [Written.mem_strcpy]
      exact Or.inr ⟨Nat.le_add_right _ _, Nat.le_refl _⟩)
    omega
  · intro hlt a ha
    rw [Written.mem_strcpy] at ha
    rcases ha with ha | ha
    · cases ha
    · omega

end Strcpy

end LzLib.Foundation
