/-
  LzLib.Foundation.Scanning
  ─────────────────────────
  **WHAT A SCAN FINDS IN A TEXT.**

  `Spells b s sign d rest` says what a numeral is, without saying how it is
  found: white space, the sign, digits of base `b` with value `d`, and `rest`.
  A scan finds the longest one.
-/
import LzLib.Foundation.Numerals

namespace LzLib.Foundation

/-! ## §1. Digits. -/

/-- The value of digits, after `acc`. -/
def digitsFrom (b : Nat) (acc : Nat) (ds : Bytes) : Nat := ds.foldl (fun n c => n * b + digitVal c) acc

/-- **The value of digits.** -/
def digitsValue (b : Nat) (ds : Bytes) : Nat := digitsFrom b 0 ds

section Digits

variable {b : Nat}

/-- Digits are read to their end. -/
theorem readDigits_append {rest : Bytes} (hrest : NoDigit b rest) : ∀ {ds : Bytes} (acc : Nat),
    (∀ c ∈ ds, digitVal c < b) → readDigits b acc (ds ++ rest) = (digitsFrom b acc ds, rest) := by
  intro ds
  induction ds with
  | nil =>
      intro acc _
      exact readDigits_stop acc hrest
  | cons c ds ih =>
      intro acc hds
      show readDigits b acc (c :: (ds ++ rest)) = _
      rw [readDigits, if_pos (hds c List.mem_cons_self), ih _ (fun c' hc' => hds c' (List.mem_cons_of_mem _ hc'))]
      rfl

/-- **What is read are digits**, and what follows starts with none. -/
theorem readDigits_split : ∀ (s : Bytes) (acc : Nat), ∃ ds, s = ds ++ (readDigits b acc s).2 ∧
    (∀ c ∈ ds, digitVal c < b) ∧ NoDigit b (readDigits b acc s).2 ∧ (readDigits b acc s).1 = digitsFrom b acc ds := by
  intro s
  induction s with
  | nil =>
      intro acc
      refine ⟨[], rfl, fun c hc => absurd hc List.not_mem_nil, ?_, rfl⟩
      intro c hc
      cases hc
  | cons c s ih =>
      intro acc
      by_cases hc : digitVal c < b
      · obtain ⟨ds, hs, hds, hstop, hval⟩ := ih (acc * b + digitVal c)
        have hread : readDigits b acc (c :: s) = readDigits b (acc * b + digitVal c) s := by rw [readDigits, if_pos hc]
        rw [hread]
        refine ⟨c :: ds, by rw [List.cons_append, ← hs], ?_, hstop, hval⟩
        intro c' hc'
        rcases List.mem_cons.mp hc' with rfl | hc'
        · exact hc
        · exact hds c' hc'
      · have hread : readDigits b acc (c :: s) = (acc, c :: s) := by rw [readDigits, if_neg hc]
        rw [hread]
        refine ⟨[], rfl, fun c hc => absurd hc List.not_mem_nil, ?_, rfl⟩
        intro c' hc'
        cases hc'
        exact Nat.not_lt.mp hc

end Digits

/-! ## §2. Numerals. -/

/-- **`s` is white space, `sign`, digits with value `d`, and `rest`.** -/
def Spells (b : Nat) (s sign : Bytes) (d : Nat) (rest : Bytes) : Prop :=
  ∃ ws ds, s = ws ++ (sign ++ (ds ++ rest)) ∧ (∀ c ∈ ws, isSpace c = true) ∧ ds ≠ [] ∧
    (∀ c ∈ ds, digitVal c < b) ∧ digitsValue b ds = d

/-- The sign of a negative number, and those of the others. -/
def IsSign (negative : Bool) (sign : Bytes) : Prop :=
  if negative then sign = [45] else sign = [] ∨ sign = [43]

theorem dropWhile_spaces {ws s : Bytes} (hws : ∀ c ∈ ws, isSpace c = true) (hs : ∀ c ∈ s.head?, isSpace c = false) :
    (ws ++ s).dropWhile isSpace = s := by
  rw [List.dropWhile_append_of_pos hws]
  cases s with
  | nil => rfl
  | cons c s =>
      have hc := hs c rfl
      rw [List.dropWhile_cons_of_neg (by rw [hc]; exact Bool.false_ne_true)]

/-- A text is white space and what it is without. -/
theorem spaces_split (s : Bytes) : ∃ ws, s = ws ++ s.dropWhile isSpace ∧ ∀ c ∈ ws, isSpace c = true := by
  refine ⟨s.takeWhile isSpace, List.takeWhile_append_dropWhile.symm, ?_⟩
  intro c hc
  exact List.all_eq_true.mp List.all_takeWhile c hc

/-- The sign that is read is in front. -/
theorem readSign_split (s : Bytes) : ∃ sign, s = sign ++ (readSign s).2 ∧ IsSign (readSign s).1 sign := by
  cases s with
  | nil => exact ⟨[], rfl, Or.inl rfl⟩
  | cons c s =>
      unfold readSign
      dsimp only
      by_cases hminus : c = 45
      · rw [if_pos hminus, hminus]
        exact ⟨[45], rfl, rfl⟩
      · rw [if_neg hminus]
        by_cases hplus : c = 43
        · rw [if_pos hplus, hplus]
          exact ⟨[43], rfl, Or.inr rfl⟩
        · rw [if_neg hplus]
          exact ⟨[], rfl, Or.inl rfl⟩

/-- A sign in front of a digit is read, and is no white space. -/
theorem readSign_sign {negative : Bool} {sign : Bytes} (hsign : IsSign negative sign) {c : UInt8} {cs : Bytes}
    (hc : digitVal c < 36) :
    readSign (sign ++ c :: cs) = (negative, c :: cs) ∧ ∀ x ∈ (sign ++ c :: cs).head?, isSpace x = false := by
  obtain ⟨hspace, hminus, hplus⟩ := digit_plain hc
  have hplain : readSign (c :: cs) = (false, c :: cs) := by rw [readSign, if_neg hminus, if_neg hplus]
  cases negative with
  | true =>
      obtain rfl : sign = [45] := hsign
      refine ⟨rfl, ?_⟩
      intro x hx
      cases hx
      rfl
  | false =>
      have hsign : sign = [] ∨ sign = [43] := hsign
      rcases hsign with rfl | rfl
      · refine ⟨hplain, ?_⟩
        intro x hx
        cases hx
        exact hspace
      · refine ⟨rfl, ?_⟩
        intro x hx
        cases hx
        rfl

section Scan

variable {b : Nat}

theorem readBase_given (h0 : b ≠ 0) (h16 : b ≠ 16) (s : Bytes) : readBase b s = (b, s) := by
  unfold readBase
  rw [if_neg (by simp [h0, h16]), if_pos h0]

/-- **What is found is a numeral**, the longest one. -/
theorem spells_of_scanInt (h0 : b ≠ 0) (h16 : b ≠ 16) {s : Bytes} {n : Scanned} (hn : scanInt b s = some n) :
    ∃ sign, IsSign n.negative sign ∧ Spells b s sign n.magnitude n.rest ∧ NoDigit b n.rest := by
  obtain ⟨ws, hws, hspaces⟩ := spaces_split s
  obtain ⟨sign, hsign, hneg⟩ := readSign_split (s.dropWhile isSpace)
  unfold scanInt at hn
  simp only [readBase_given h0 h16] at hn
  split at hn
  next => cases hn
  next c cs hdigits =>
    split at hn
    next hc =>
      cases hn
      obtain ⟨ds, hds, hall, hstop, hval⟩ := readDigits_split (b := b) (c :: cs) 0
      have hne : ds ≠ [] := by
        rintro rfl
        have hfirst : c ∈ (readDigits b 0 (c :: cs)).2.head? := by
          rw [List.nil_append] at hds
          rw [← hds]
          rfl
        exact absurd (hstop c hfirst) (Nat.not_le.mpr hc)
      refine ⟨sign, hneg, ⟨ws, ds, ?_, hspaces, hne, hall, hval.symm⟩, hstop⟩
      rw [← hds, ← hdigits, ← hsign]
      exact hws
    next => cases hn

/-- **A numeral is found**, if no digit follows it. -/
theorem scanInt_of_spells (h0 : b ≠ 0) (h16 : b ≠ 16) (hle : b ≤ 36) {s sign rest : Bytes} {negative : Bool} {d : Nat}
    (hsign : IsSign negative sign) (hs : Spells b s sign d rest) (hstop : NoDigit b rest) :
    scanInt b s = some ⟨negative, d, rest⟩ := by
  obtain ⟨ws, ds, rfl, hspaces, hne, hall, hval⟩ := hs
  obtain ⟨c, ds, rfl⟩ := List.exists_cons_of_ne_nil hne
  have hc : digitVal c < b := hall c List.mem_cons_self
  obtain ⟨hread, hplain⟩ : readSign (sign ++ c :: (ds ++ rest)) = (negative, c :: (ds ++ rest)) ∧ _ :=
    readSign_sign hsign (Nat.lt_of_lt_of_le hc hle)
  have hdigits : readDigits b 0 (c :: (ds ++ rest)) = (d, rest) := by
    rw [← hval]
    exact readDigits_append hstop 0 hall
  have hskip : (ws ++ (sign ++ (c :: ds ++ rest))).dropWhile isSpace = sign ++ c :: (ds ++ rest) :=
    dropWhile_spaces hspaces hplain
  unfold scanInt
  simp only [hskip, hread, readBase_given h0 h16, if_pos hc, hdigits]

end Scan

/-! ## §3. Comparison without case. -/

/-- `tolower` in the C locale. -/
def tolower (c : UInt8) : UInt8 := if 65 ≤ c ∧ c ≤ 90 then c + 32 else c

/-- `strcasecmp` of two strings without their NULs. -/
def strcasecmp : Bytes → Bytes → Int
  | [], [] => 0
  | a :: _, [] => (tolower a).toNat
  | [], b :: _ => -((tolower b).toNat : Int)
  | a :: as, b :: bs =>
      if tolower a = tolower b then strcasecmp as bs else ((tolower a).toNat : Int) - (tolower b).toNat

theorem tolower_ne_zero {c : UInt8} (h : c ≠ 0) : (tolower c).toNat ≠ 0 := by
  have hall : ∀ c : UInt8, c ≠ 0 → (tolower c).toNat ≠ 0 := by
    intro c
    obtain ⟨c⟩ := c
    revert c
    decide +kernel
  exact hall c h

/-- **Equal but for case.** -/
theorem strcasecmp_eq_zero_iff : ∀ {a b : Bytes}, (0 : UInt8) ∉ a → (0 : UInt8) ∉ b →
    (strcasecmp a b = 0 ↔ a.map tolower = b.map tolower) := by
  intro a
  induction a with
  | nil =>
      intro b _ hb
      cases b with
      | nil => exact iff_of_true rfl rfl
      | cons y b =>
          have hy := tolower_ne_zero (fun h0 => hb (h0 ▸ List.mem_cons_self))
          apply iff_of_false
          · show ¬ -((tolower y).toNat : Int) = 0
            omega
          · exact fun h => nomatch h
  | cons x a ih =>
      intro b ha hb
      rw [List.mem_cons, not_or] at ha
      cases b with
      | nil =>
          have hx := tolower_ne_zero (Ne.symm ha.1)
          apply iff_of_false
          · show ¬ ((tolower x).toNat : Int) = 0
            omega
          · exact fun h => nomatch h
      | cons y b =>
          rw [List.mem_cons, not_or] at hb
          unfold strcasecmp
          rw [List.map_cons, List.map_cons, List.cons.injEq]
          by_cases hxy : tolower x = tolower y
          · rw [if_pos hxy, ih ha.2 hb.2]
            exact ⟨fun h => ⟨hxy, h⟩, fun h => h.2⟩
          · rw [if_neg hxy]
            apply iff_of_false
            · have hne : (tolower x).toNat ≠ (tolower y).toNat := fun h => hxy (UInt8.toNat_inj.mp h)
              omega
            · exact fun h => hxy h.1

end LzLib.Foundation
