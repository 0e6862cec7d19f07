/-
  LzLib.Hash.DmHash
  ─────────────────
  **THE WORDS OF A MESSAGE** (`dm_hashfn`).

  The three counters stay in step, so the words passed to `dm_round` are all
  full words of the message, one word that has the last `len % 4` bytes shifted
  into the pad, and pads: `passedWords_eq`.  A full word gives its bytes back.
  The shifted word does not: a byte of 0x80 or more sets every bit above it,
  and what was shifted in before is lost.
-/
import LzLib.Hash.DmHashDef
import Mathlib.Data.List.GetD
import Mathlib.Tactic.IntervalCases

namespace LzLib.Hash

open LzLib.Foundation

/-! ## §1. A word of four bytes. -/

/-- Bits that are shifted above a number are added to it. -/
theorem or_shiftLeft {x k : Nat} (hx : x < 2 ^ k) (y : Nat) : x ||| y <<< k = x + y * 2 ^ k := by
  rw [Nat.or_comm, ← Nat.shiftLeft_add_eq_or_of_lt hx, Nat.shiftLeft_eq, Nat.add_comm]

theorem toNat_shifted (c : UInt8) {k : UInt32} (hk : k.toNat ≤ 24) : (c.toUInt32 <<< k).toNat = c.toNat <<< k.toNat := by
  have hc := c.toNat_lt
  have hpow : 2 ^ k.toNat ≤ 2 ^ 24 := Nat.pow_le_pow_right (by decide) hk
  have hlt : c.toNat * 2 ^ k.toNat < 2 ^ 32 := by
    calc c.toNat * 2 ^ k.toNat ≤ c.toNat * 2 ^ 24 := Nat.mul_le_mul_left _ hpow
      _ < 2 ^ 32 := by omega
  rw [UInt32.toNat_shiftLeft, UInt8.toNat_toUInt32, Nat.mod_eq_of_lt (by omega : k.toNat < 32), Nat.shiftLeft_eq,
    Nat.mod_eq_of_lt hlt]

theorem loadWord_toNat (msg : Bytes) (i : Nat) :
    (loadWord msg i).toNat = (msg.getD (4 * i) 0).toNat + (msg.getD (4 * i + 1) 0).toNat * 2 ^ 8
      + (msg.getD (4 * i + 2) 0).toNat * 2 ^ 16 + (msg.getD (4 * i + 3) 0).toNat * 2 ^ 24 := by
  have h0 := (msg.getD (4 * i) 0).toNat_lt
  have h1 := (msg.getD (4 * i + 1) 0).toNat_lt
  have h2 := (msg.getD (4 * i + 2) 0).toNat_lt
  unfold loadWord
  rw [UInt32.toNat_or, UInt32.toNat_or, UInt32.toNat_or, toNat_shifted _ (by decide), toNat_shifted _ (by decide),
    toNat_shifted _ (by decide), UInt8.toNat_toUInt32]
  show (((msg.getD (4 * i) 0).toNat ||| (msg.getD (4 * i + 1) 0).toNat <<< 8) ||| (msg.getD (4 * i + 2) 0).toNat <<< 16)
    ||| (msg.getD (4 * i + 3) 0).toNat <<< 24 = _
  have h01 : (msg.getD (4 * i) 0).toNat + (msg.getD (4 * i + 1) 0).toNat * 2 ^ 8 < 2 ^ 16 := by omega
  have h012 : (msg.getD (4 * i) 0).toNat + (msg.getD (4 * i + 1) 0).toNat * 2 ^ 8
      + (msg.getD (4 * i + 2) 0).toNat * 2 ^ 16 < 2 ^ 24 := by omega
  rw [or_shiftLeft h0, or_shiftLeft h01, or_shiftLeft h012]

/-- A word has its four bytes. -/
theorem loadWord_inj {m₁ m₂ : Bytes} {i : Nat} (h : loadWord m₁ i = loadWord m₂ i) :
    ∀ j, j < 4 → m₁.getD (4 * i + j) 0 = m₂.getD (4 * i + j) 0 := by
  have h₁ := loadWord_toNat m₁ i
  have h₂ := loadWord_toNat m₂ i
  rw [h] at h₁
  intro j hj
  apply UInt8.toNat_inj.mp
  have hlt₁ := fun k => (m₁.getD (4 * i + k) 0).toNat_lt
  have hlt₂ := fun k => (m₂.getD (4 * i + k) 0).toNat_lt
  have a0 := hlt₁ 0
  have a1 := hlt₁ 1
  have a2 := hlt₁ 2
  have a3 := hlt₁ 3
  have b0 := hlt₂ 0
  have b1 := hlt₂ 1
  have b2 := hlt₂ 2
  have b3 := hlt₂ 3
  rw [Nat.add_zero] at a0 b0
  interval_cases j
  · rw [Nat.add_zero]
    omega
  · omega
  · omega
  · omega

/-! ## §2. The tail. -/

/-- One byte shifted into a word. -/
def shiftIn (word : UInt32) (c : UInt8) : UInt32 := (word <<< 8) ||| charToUInt32 c

theorem shiftIn_low (word : UInt32) {c : UInt8} (hc : c < 128) :
    (shiftIn word c).toNat = c.toNat + word.toNat % 2 ^ 24 * 2 ^ 8 := by
  have hlt := c.toNat_lt
  have hshift : (word.toNat <<< 8) % 2 ^ 32 = (word.toNat % 2 ^ 24) <<< 8 := by
    rw [Nat.shiftLeft_eq, Nat.shiftLeft_eq]
    omega
  unfold shiftIn charToUInt32
  rw [if_pos hc, UInt32.toNat_or, UInt32.toNat_shiftLeft, UInt8.toNat_toUInt32]
  show (word.toNat <<< 8) % 2 ^ 32 ||| c.toNat = _
  rw [hshift, Nat.or_comm, or_shiftLeft hlt]

theorem charToUInt32_high {c : UInt8} (hc : ¬ c < 128) : (charToUInt32 c).toNat = 0xffffff00 + c.toNat := by
  obtain ⟨c⟩ := c
  revert c
  decide +kernel

/-- A byte of 0x80 or more leaves nothing of the word. -/
theorem shiftIn_high (word : UInt32) {c : UInt8} (hc : ¬ c < 128) : shiftIn word c = charToUInt32 c := by
  unfold shiftIn charToUInt32
  rw [if_neg hc]
  have hones : (-1 : UInt32) <<< 8 = 0xffffff00 := by decide
  have hlost : (word <<< 8) ||| (0xffffff00 : UInt32) = 0xffffff00 := by
    rw [← hones, ← UInt32.shiftLeft_or, UInt32.or_neg_one]
  rw [UInt32.or_comm, UInt32.or_assoc, UInt32.or_comm (0xffffff00 : UInt32), hlost]

theorem shiftIn_mod (word : UInt32) (c : UInt8) : (shiftIn word c).toNat % 256 = c.toNat := by
  have hlt := c.toNat_lt
  by_cases hc : c < 128
  · rw [shiftIn_low word hc]
    omega
  · rw [shiftIn_high word hc, charToUInt32_high hc]
    omega

/-- One more byte: the low bytes of two words differ if it does, or if it leaves them their
difference. -/
theorem shiftIn_differ (a b : UInt32) (x y : UInt8) {k : Nat} (hk : k < 4) :
    (shiftIn a x).toNat % 256 ^ (k + 1) ≠ (shiftIn b y).toNat % 256 ^ (k + 1)
      ↔ x ≠ y ∨ (x < 128 ∧ a.toNat % 256 ^ k ≠ b.toNat % 256 ^ k) := by
  by_cases hxy : x = y
  · subst hxy
    by_cases hx : x < 128
    · have hlt := x.toNat_lt
      rw [shiftIn_low a hx, shiftIn_low b hx]
      simp only [hx, true_and, not_true_eq_false, false_or, ne_eq]
      interval_cases k <;> omega
    · rw [shiftIn_high a hx, shiftIn_high b hx]
      simp only [hx, false_and, ne_eq, not_true_eq_false, or_false]
  · -- the low byte of a word is the byte shifted in last, whatever it is
    have hne : x.toNat ≠ y.toNat := fun h => hxy (UInt8.toNat_inj.mp h)
    have hx := shiftIn_mod a x
    have hy := shiftIn_mod b y
    have hdiffer : (shiftIn a x).toNat % 256 ^ (k + 1) ≠ (shiftIn b y).toNat % 256 ^ (k + 1) := by
      interval_cases k <;> omega
    exact ⟨fun _ => Or.inl hxy, fun _ => hdiffer⟩

/-- The bytes shifted into a word, the last one first. -/
def shiftAll (word : UInt32) : Bytes → UInt32
  | [] => word
  | c :: cs => shiftIn (shiftAll word cs) c

theorem shiftAll_concat (word : UInt32) (cs : Bytes) (c : UInt8) :
    shiftAll word (cs ++ [c]) = shiftAll (shiftIn word c) cs := by
  induction cs with
  | nil => rfl
  | cons c' cs ih => exact congrArg (shiftIn · c') ih

/-- A byte at which two lists differ, with none of 0x80 or more before it. -/
def Kept (xs ys : Bytes) : Prop := ∃ p : Nat, xs[p]? ≠ ys[p]? ∧ ∀ q, q < p → ∀ c ∈ xs[q]?, c < 128

theorem kept_cons (x y : UInt8) (xs ys : Bytes) : Kept (x :: xs) (y :: ys) ↔ x ≠ y ∨ (x < 128 ∧ Kept xs ys) := by
  constructor
  · intro h
    obtain ⟨p, hp, hlow⟩ := h
    cases p with
    | zero =>
        left
        intro hxy
        exact hp (congrArg some hxy)
    | succ p =>
        right
        exact ⟨hlow 0 (Nat.succ_pos p) x rfl, p, hp, fun q hq c hc => hlow (q + 1) (Nat.succ_lt_succ hq) c hc⟩
  · intro h
    rcases h with hxy | ⟨hx, p, hp, hlow⟩
    · exact ⟨0, fun h => hxy (Option.some.inj h), fun q hq => absurd hq (Nat.not_lt_zero q)⟩
    · refine ⟨p + 1, hp, fun q hq c hc => ?_⟩
      cases q with
      | zero =>
          cases hc
          exact hx
      | succ q => exact hlow q (Nat.lt_of_succ_lt_succ hq) c hc

/-- At most four bytes: the low bytes of the words differ where a byte is kept that differs. -/
theorem shiftAll_differ (word : UInt32) : ∀ (xs ys : Bytes) (k : Nat), xs.length = ys.length → xs.length ≤ k → k ≤ 4
    → ((shiftAll word xs).toNat % 256 ^ k ≠ (shiftAll word ys).toNat % 256 ^ k ↔ Kept xs ys) := by
  intro xs
  induction xs with
  | nil =>
      intro ys k hlen _ _
      rw [List.length_eq_zero_iff.mp hlen.symm]
      constructor
      · intro h
        exact absurd rfl h
      · intro h
        obtain ⟨p, hp, -⟩ := h
        exact absurd rfl hp
  | cons x xs ih =>
      intro ys k hlen hk hk4
      cases ys with
      | nil => exact absurd hlen (Nat.succ_ne_zero _)
      | cons y ys =>
          cases k with
          | zero => exact absurd hk (Nat.not_succ_le_zero _)
          | succ k =>
              -- below the last byte, one byte less of the words is compared
              have hrest := ih ys k (Nat.succ.inj hlen) (Nat.le_of_succ_le_succ hk) (by omega)
              rw [kept_cons, ← hrest]
              exact shiftIn_differ (shiftAll word xs) (shiftAll word ys) x y (by omega)

/-! ## §3. The counters. -/

/-- The counters in step, with `i` words passed. -/
def countersAt (msg : Bytes) (i : Nat) : Counters := ⟨i, msg.length / 4 - i, msg.length - 4 * i⟩

theorem next_countersAt (msg : Bytes) (i : Nat) : (countersAt msg i).next = countersAt msg (i + 1) := by
  show (⟨i + 1, msg.length / 4 - i - 1, msg.length - 4 * i - 4⟩ : Counters)
    = ⟨i + 1, msg.length / 4 - (i + 1), msg.length - 4 * (i + 1)⟩
  congr 1

/-- A quad is four words further. -/
theorem quadStep_countersAt (msg : Bytes) (i : Nat) (h : UInt32 × UInt32) (passed : List DmArray) :
    quadStep msg ⟨countersAt msg i, h, passed⟩
      = ⟨countersAt msg (i + 4),
          dmRound 6 ⟨loadWord msg i, loadWord msg (i + 1), loadWord msg (i + 2), loadWord msg (i + 3)⟩ h,
          passed ++ [⟨loadWord msg i, loadWord msg (i + 1), loadWord msg (i + 2), loadWord msg (i + 3)⟩]⟩ := by
  unfold quadStep
  simp only [next_countersAt]
  rfl

theorem quadLoop_spec (msg : Bytes) : ∀ (n i : Nat) (h : UInt32 × UInt32) (passed : List DmArray),
    (quadLoop msg n ⟨countersAt msg i, h, passed⟩).counters = countersAt msg (i + 4 * n)
    ∧ (quadLoop msg n ⟨countersAt msg i, h, passed⟩).passed.flatMap DmArray.words
      = passed.flatMap DmArray.words ++ (List.range' i (4 * n)).map (loadWord msg) := by
  intro n
  induction n with
  | zero =>
      intro i h passed
      exact ⟨rfl, (List.append_nil _).symm⟩
  | succ n ih =>
      intro i h passed
      rw [quadLoop, quadStep_countersAt]
      have hrest := ih (i + 4) (dmRound 6 ⟨loadWord msg i, loadWord msg (i + 1), loadWord msg (i + 2), loadWord msg (i + 3)⟩ h)
        (passed ++ [⟨loadWord msg i, loadWord msg (i + 1), loadWord msg (i + 2), loadWord msg (i + 3)⟩])
      constructor
      · rw [hrest.1]
        congr 1
        omega
      · rw [hrest.2, List.flatMap_append, List.append_assoc]
        congr 1

theorem lastSlot_word (msg : Bytes) (pad : UInt32) {i : Nat} (hi : i < msg.length / 4) :
    lastSlot msg pad (countersAt msg i) = (loadWord msg i, countersAt msg (i + 1)) := by
  have hwords : (countersAt msg i).fullWords ≠ 0 := by
    show msg.length / 4 - i ≠ 0
    omega
  unfold lastSlot
  rw [if_pos hwords, next_countersAt]
  rfl

/-- The tail loop shifts in the last bytes, in their order. -/
theorem tailLoop_eq (msg : Bytes) : ∀ (n : Nat) (word : UInt32), n ≤ msg.length
    → tailLoop msg n word = shiftAll word (msg.drop (msg.length - n)).reverse := by
  intro n
  induction n with
  | zero =>
      intro word _
      rw [Nat.sub_zero, List.drop_length]
      rfl
  | succ n ih =>
      intro word hn
      have hlt : msg.length - (n + 1) < msg.length := by omega
      have hdrop : msg.drop (msg.length - (n + 1)) = msg.getD (msg.length - (n + 1)) 0 :: msg.drop (msg.length - n) := by
        rw [List.drop_eq_getElem_cons hlt, List.getD_eq_getElem msg 0 hlt]
        congr 2
        omega
      rw [tailLoop, ih _ (by omega), hdrop, List.reverse_cons, shiftAll_concat]
      rfl

/-- The word that holds the last `len % 4` bytes. -/
def tailWord (msg : Bytes) : UInt32 :=
  shiftAll (padWord msg.length) (msg.drop (4 * (msg.length / 4))).reverse

theorem lastSlot_tail (msg : Bytes) : lastSlot msg (padWord msg.length) (countersAt msg (msg.length / 4))
    = (tailWord msg, ⟨msg.length / 4, 0, 0⟩) := by
  have hwords : ¬ (countersAt msg (msg.length / 4)).fullWords ≠ 0 := by
    show ¬ msg.length / 4 - msg.length / 4 ≠ 0
    omega
  have hbytes : msg.length - (msg.length - 4 * (msg.length / 4)) = 4 * (msg.length / 4) := by omega
  unfold lastSlot
  rw [if_neg hwords]
  show (tailLoop msg (msg.length - 4 * (msg.length / 4)) (padWord msg.length),
    (⟨msg.length / 4, msg.length / 4 - msg.length / 4, 0⟩ : Counters)) = _
  rw [tailLoop_eq msg _ _ (Nat.sub_le _ _), hbytes, Nat.sub_self]
  rfl

/-- A slot behind the tail is the pad. -/
theorem lastSlot_pad (msg : Bytes) (pad : UInt32) (i : Nat) : lastSlot msg pad ⟨i, 0, 0⟩ = (pad, ⟨i, 0, 0⟩) := by
  unfold lastSlot
  rw [if_neg (fun h => h rfl)]
  rfl

/-- The words of `n` slots. -/
def slotWords (msg : Bytes) : Nat → Counters → List UInt32
  | 0, _ => []
  | n + 1, c => (lastSlot msg (padWord msg.length) c).1 :: slotWords msg n (lastSlot msg (padWord msg.length) c).2

theorem slotWords_pad (msg : Bytes) (i : Nat) : ∀ n,
    slotWords msg n ⟨i, 0, 0⟩ = List.replicate n (padWord msg.length) := by
  intro n
  induction n with
  | zero => rfl
  | succ n ih =>
      rw [slotWords, lastSlot_pad, ih]
      rfl

theorem slotWords_spec (msg : Bytes) (n : Nat) : ∀ r i, i + r = msg.length / 4
    → slotWords msg (r + (n + 1)) (countersAt msg i)
      = (List.range' i r).map (loadWord msg) ++ tailWord msg :: List.replicate n (padWord msg.length) := by
  intro r
  induction r with
  | zero =>
      intro i hi
      have hlast : i = msg.length / 4 := by omega
      rw [Nat.zero_add, slotWords, hlast, lastSlot_tail, slotWords_pad]
      rfl
  | succ r ih =>
      intro i hi
      have hcount : r + 1 + (n + 1) = r + (n + 1) + 1 := by omega
      rw [hcount, slotWords, lastSlot_word msg _ (by omega), ih (i + 1) (by omega), List.range'_succ]
      rfl

/-- **What `dm_round` is given**: the full words, the tail, and pads up to a full array. -/
theorem passedWords_eq (msg : Bytes) :
    passedWords msg = (List.range (msg.length / 4)).map (loadWord msg)
      ++ tailWord msg :: List.replicate (3 - msg.length / 4 % 4) (padWord msg.length) := by
  have hquads := quadLoop_spec msg (msg.length / 16) 0 (0x9464a485, 0x542e1a94) []
  rw [Nat.zero_add] at hquads
  -- the quads take 4 * (len / 16) words, the slots of the last array those that are left
  have hslots := slotWords_spec msg (3 - msg.length / 4 % 4) (msg.length / 4 % 4) (4 * (msg.length / 16)) (by omega)
  have hfour : msg.length / 4 % 4 + (3 - msg.length / 4 % 4 + 1) = 4 := by omega
  have hrange : List.range' 0 (4 * (msg.length / 16)) ++ List.range' (4 * (msg.length / 16)) (msg.length / 4 % 4)
      = List.range (msg.length / 4) := by
    have h := @List.range'_append_1 0 (4 * (msg.length / 16)) (msg.length / 4 % 4)
    rw [Nat.zero_add] at h
    rw [h, List.range_eq_range']
    congr 1
    omega
  have hpassed : passedWords msg
      = (quadLoop msg (msg.length / 16) ⟨countersAt msg 0, (0x9464a485, 0x542e1a94), []⟩).passed.flatMap DmArray.words
        ++ slotWords msg 4 (quadLoop msg (msg.length / 16) ⟨countersAt msg 0, (0x9464a485, 0x542e1a94), []⟩).counters := by
    unfold passedWords dmRun
    rw [List.flatMap_append]
    rfl
  rw [hfour] at hslots
  rw [hpassed, hquads.1, hquads.2, hslots, ← hrange]
  simp only [List.flatMap_nil, List.nil_append, List.map_append, List.append_assoc]

/-! ## §4. Two messages of one length. -/

/-- All full words agree if and only if all their bytes do. -/
theorem words_agree_iff {m₁ m₂ : Bytes} {n : Nat} :
    (List.range n).map (loadWord m₁) = (List.range n).map (loadWord m₂) ↔ ∀ p, p < 4 * n → m₁.getD p 0 = m₂.getD p 0 := by
  rw [List.map_inj_left]
  constructor
  · intro h p hp
    have hword := loadWord_inj (h (p / 4) (List.mem_range.mpr (by omega))) (p % 4) (by omega)
    rw [Nat.div_add_mod] at hword
    exact hword
  · intro h i hi
    have hlt := List.mem_range.mp hi
    unfold loadWord
    rw [h (4 * i) (by omega), h (4 * i + 1) (by omega), h (4 * i + 2) (by omega), h (4 * i + 3) (by omega)]

theorem reverse_drop_getElem? {m : Bytes} {w r : Nat} (hr : r < m.length - w) :
    (m.drop w).reverse[r]? = some (m.getD (m.length - 1 - r) 0) := by
  have hlt : m.length - 1 - r < m.length := by omega
  have hindex : w + (m.length - w - 1 - r) = m.length - 1 - r := by omega
  rw [List.getElem?_reverse (by rw [List.length_drop]; exact hr), List.length_drop, List.getElem?_drop, hindex,
    List.getElem?_eq_getElem hlt, List.getD_eq_getElem m 0 hlt]

/-- A byte kept among the last ones, seen from the front of the message. -/
theorem kept_drop_iff {m₁ m₂ : Bytes} (hlen : m₁.length = m₂.length) (w : Nat) :
    Kept (m₁.drop w).reverse (m₂.drop w).reverse ↔ ∃ p, w ≤ p ∧ p < m₁.length ∧ m₁.getD p 0 ≠ m₂.getD p 0
      ∧ ∀ q, p < q → q < m₁.length → m₁.getD q 0 < 0x80 := by
  constructor
  · intro h
    obtain ⟨r, hr, hlow⟩ := h
    by_cases hlt : r < m₁.length - w
    · refine ⟨m₁.length - 1 - r, by omega, by omega, ?_, fun q hq hq' => ?_⟩
      · rw [reverse_drop_getElem? hlt, reverse_drop_getElem? (hlen ▸ hlt), ← hlen] at hr
        exact fun heq => hr (congrArg some heq)
      · apply hlow (m₁.length - 1 - q) (by omega)
        have hindex : m₁.length - 1 - (m₁.length - 1 - q) = q := by omega
        rw [reverse_drop_getElem? (by omega), hindex]
        rfl
    · have hnone : ∀ m : Bytes, m.length = m₁.length → (m.drop w).reverse[r]? = none := by
        intro m hm
        apply List.getElem?_eq_none
        rw [List.length_reverse, List.length_drop]
        omega
      rw [hnone m₁ rfl, hnone m₂ hlen.symm] at hr
      exact absurd rfl hr
  · intro h
    obtain ⟨p, hwp, hp, hne, hlow⟩ := h
    have hindex : m₁.length - 1 - (m₁.length - 1 - p) = p := by omega
    refine ⟨m₁.length - 1 - p, ?_, fun r hr c hc => ?_⟩
    · rw [reverse_drop_getElem? (by omega), reverse_drop_getElem? (by omega), ← hlen, hindex]
      exact fun heq => hne (Option.some.inj heq)
    · rw [reverse_drop_getElem? (by omega)] at hc
      cases hc
      exact hlow (m₁.length - 1 - r) (by omega) (by omega)

/-- The tails differ if and only if a byte differs with none of 0x80 or more behind it. -/
theorem tailWord_differ {m₁ m₂ : Bytes} (hlen : m₁.length = m₂.length) :
    tailWord m₁ ≠ tailWord m₂ ↔ ∃ p, 4 * (m₁.length / 4) ≤ p ∧ p < m₁.length ∧ m₁.getD p 0 ≠ m₂.getD p 0
      ∧ ∀ q, p < q → q < m₁.length → m₁.getD q 0 < 0x80 := by
  have hshift := shiftAll_differ (padWord m₁.length) (m₁.drop (4 * (m₁.length / 4))).reverse
    (m₂.drop (4 * (m₁.length / 4))).reverse 4
    (by rw [List.length_reverse, List.length_reverse, List.length_drop, List.length_drop, hlen])
    (by rw [List.length_reverse, List.length_drop]; omega) (Nat.le_refl 4)
  have htail : tailWord m₂ = shiftAll (padWord m₁.length) (m₂.drop (4 * (m₁.length / 4))).reverse := by
    unfold tailWord
    rw [hlen]
  have hmod : ∀ a : UInt32, a.toNat % 256 ^ 4 = a.toNat := fun a => Nat.mod_eq_of_lt a.toNat_lt
  rw [hmod, hmod, kept_drop_iff hlen] at hshift
  rw [← hshift, htail]
  exact UInt32.toNat_inj.not.symm

/-- **The words of two messages.**  For all messages of one length, the words passed to
`dm_round` differ if and only if the messages differ at a byte that lies in a full word or
has no byte of 0x80 or more behind it. -/
theorem dm_words_differ_iff (m₁ m₂ : Bytes) (hlen : m₁.length = m₂.length) :
    passedWords m₁ ≠ passedWords m₂ ↔ ∃ p, p < m₁.length ∧ m₁.getD p 0 ≠ m₂.getD p 0
      ∧ (p < 4 * (m₁.length / 4) ∨ ∀ q, p < q → q < m₁.length → m₁.getD q 0 < 0x80) := by
  have hsplit : passedWords m₁ = passedWords m₂ ↔
      (List.range (m₁.length / 4)).map (loadWord m₁) = (List.range (m₁.length / 4)).map (loadWord m₂)
        ∧ tailWord m₁ = tailWord m₂ := by
    rw [passedWords_eq, passedWords_eq, ← hlen]
    constructor
    · intro h
      have hparts := List.append_inj h (by rw [List.length_map, List.length_map])
      exact ⟨hparts.1, (List.cons.inj hparts.2).1⟩
    · intro h
      rw [h.1, h.2]
  rw [Ne, hsplit, words_agree_iff, not_and_or]
  constructor
  · intro h
    rcases h with hwords | htail
    · simp only [not_forall] at hwords
      obtain ⟨p, hp, hne⟩ := hwords
      exact ⟨p, by omega, hne, Or.inl hp⟩
    · obtain ⟨p, -, hp, hne, hlow⟩ := (tailWord_differ hlen).mp htail
      exact ⟨p, hp, hne, Or.inr hlow⟩
  · intro h
    obtain ⟨p, hp, hne, hcase⟩ := h
    by_cases hfull : p < 4 * (m₁.length / 4)
    · left
      intro hall
      exact hne (hall p hfull)
    · right
      have hlow := hcase.resolve_left hfull
      exact (tailWord_differ hlen).mpr ⟨p, Nat.le_of_not_lt hfull, hp, hne, hlow⟩

/-- Messages of five bytes, which differ in the last one. -/
theorem dm_words_differ_five : passedWords [1, 2, 3, 4, 5] ≠ passedWords [1, 2, 3, 4, 6] :=
  (dm_words_differ_iff [1, 2, 3, 4, 5] [1, 2, 3, 4, 6] rfl).mpr
    ⟨4, by decide, by decide, Or.inr (fun q hq hq' => absurd hq' (by show ¬ q < 5; omega))⟩

/-- Two messages of two bytes, with a byte of 0x80 behind the one that differs. -/
theorem dm_words_lost : ([0x00, 0x80] : Bytes).length = ([0x01, 0x80] : Bytes).length ∧ ([0x00, 0x80] : Bytes) ≠ [0x01, 0x80]
    ∧ passedWords [0x00, 0x80] = passedWords [0x01, 0x80] := by
  refine ⟨rfl, by decide, ?_⟩
  decide

end LzLib.Hash
