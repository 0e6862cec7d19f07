/-
  LzLib.Foundation.Literals
  ─────────────────────────
  **NUMERALS WITH A PREFIX.**

  Where `strto*` is given the base 0, the text chooses it: `0x` stands before
  hexadecimal digits, `0` before octal ones, and decimal digits start with
  another digit.  `Literal b s sign d rest` says what a number in base 10 or 0
  is; a scan finds exactly these: `literal_of_scanInt`, `scanInt_of_literal`.
-/
import LzLib.Foundation.Scanning

namespace LzLib.Foundation

/-! ## §1. The grammar. -/

/-- **A numeral and its value**, in base 10, or in the base 0 by its prefix. -/
inductive Numeral : Nat → Bytes → Nat → Prop
  | decimal {ds : Bytes} (hne : ds ≠ []) (hds : ∀ c ∈ ds, digitVal c < 10) : Numeral 10 ds (digitsValue 10 ds)
  | plain {ds : Bytes} (hne : ds ≠ []) (hds : ∀ c ∈ ds, digitVal c < 10) (hzero : ds.head? ≠ some 48) :
      Numeral 0 ds (digitsValue 10 ds)
  | octal {ds : Bytes} (hds : ∀ c ∈ ds, digitVal c < 8) : Numeral 0 (48 :: ds) (digitsValue 8 ds)
  | hexadecimal {x : UInt8} {ds : Bytes} (hx : x = 120 ∨ x = 88) (hne : ds ≠ []) (hds : ∀ c ∈ ds, digitVal c < 16) :
      Numeral 0 (48 :: x :: ds) (digitsValue 16 ds)

/-- **`s` is white space, `sign`, a numeral with value `d`, and `rest`.** -/
def Literal (b : Nat) (s sign : Bytes) (d : Nat) (rest : Bytes) : Prop :=
  ∃ ws num, s = ws ++ (sign ++ (num ++ rest)) ∧ (∀ c ∈ ws, isSpace c = true) ∧ Numeral b num d

/-- No digit of any base up to 16 in front, and no `x`. -/
def Stops (rest : Bytes) : Prop := ∀ c ∈ rest.head?, 16 ≤ digitVal c ∧ c ≠ 120 ∧ c ≠ 88

theorem Stops.noDigit {rest : Bytes} (h : Stops rest) {b : Nat} (hb : b ≤ 16) : NoDigit b rest := by
  intro c hc
  have hdigit := (h c hc).1
  omega

theorem stops_nil : Stops [] := by
  intro c hc
  cases hc

/-! ## §2. The base. -/

/-- A numeral starts with a decimal digit. -/
theorem Numeral.head {b d : Nat} {num : Bytes} (N : Numeral b num d) :
    ∃ c cs, num = c :: cs ∧ digitVal c < 10 := by
  cases N with
  | decimal hne hds =>
      obtain ⟨c, cs, rfl⟩ := List.exists_cons_of_ne_nil hne
      exact ⟨c, cs, rfl, hds c List.mem_cons_self⟩
  | plain hne hds _ =>
      obtain ⟨c, cs, rfl⟩ := List.exists_cons_of_ne_nil hne
      exact ⟨c, cs, rfl, hds c List.mem_cons_self⟩
  | octal hds => exact ⟨48, _, rfl, by decide⟩
  | hexadecimal hx hne hds => exact ⟨48, _, rfl, by decide⟩

/-- A prefix needs a zero, an `x` and a digit behind it. -/
theorem hexPrefix_iff (s : Bytes) :
    hexPrefix s = true ↔ ∃ x c cs, s = 48 :: x :: c :: cs ∧ (x = 120 ∨ x = 88) ∧ digitVal c < 16 := by
  constructor
  · intro h
    unfold hexPrefix at h
    split at h
    next x c cs =>
      rw [Bool.and_eq_true, Bool.or_eq_true, decide_eq_true_eq, decide_eq_true_eq, decide_eq_true_eq] at h
      exact ⟨x, c, cs, rfl, h⟩
    next => cases h
  · intro h
    obtain ⟨x, c, cs, rfl, hx, hc⟩ := h
    show ((decide (x = 120) || decide (x = 88)) && decide (digitVal c < 16)) = true
    rw [Bool.and_eq_true, Bool.or_eq_true, decide_eq_true_eq, decide_eq_true_eq, decide_eq_true_eq]
    exact ⟨hx, hc⟩

/-- `x` is no digit below 16. -/
theorem digitVal_x {x : UInt8} (h : x = 120 ∨ x = 88) : digitVal x = 33 := by
  rcases h with rfl | rfl <;> rfl

/-- No prefix in front of octal digits. -/
theorem hexPrefix_octal {ds rest : Bytes} (hds : ∀ c ∈ ds, digitVal c < 8) (hrest : Stops rest) :
    hexPrefix (48 :: (ds ++ rest)) = false := by
  rw [Bool.eq_false_iff]
  intro hhex
  obtain ⟨x, c, cs, hs, hx, -⟩ := (hexPrefix_iff _).mp hhex
  injection hs with _ hs
  cases ds with
  | nil =>
      have hstop := hrest x (by rw [← List.nil_append rest, hs]; rfl)
      rcases hx with rfl | rfl
      · exact hstop.2.1 rfl
      · exact hstop.2.2 rfl
  | cons y ds =>
      injection hs with hy _
      have hdigit := hds y List.mem_cons_self
      rw [hy, digitVal_x hx] at hdigit
      omega

theorem hexPrefix_plain {s : Bytes} (h : s.head? ≠ some 48) : hexPrefix s = false := by
  rw [Bool.eq_false_iff]
  intro hhex
  obtain ⟨x, c, cs, rfl, -⟩ := (hexPrefix_iff s).mp hhex
  exact h rfl

/-- **The base of a numeral is the one its digits are in.** -/
theorem Numeral.readBase {b d : Nat} {num : Bytes} (N : Numeral b num d) {rest : Bytes} (hrest : Stops rest) :
    ∃ b' ds, LzLib.Foundation.readBase b (num ++ rest) = (b', ds ++ rest) ∧ ds ≠ [] ∧ b' ≤ 16 ∧
      (∀ c ∈ ds, digitVal c < b') ∧ digitsValue b' ds = d := by
  cases N with
  | decimal hne hds => exact ⟨10, num, readBase_given (by decide) (by decide) _, hne, by decide, hds, rfl⟩
  | plain hne hds hzero =>
      have hhead : (num ++ rest).head? ≠ some 48 := by
        obtain ⟨c, cs, rfl⟩ := List.exists_cons_of_ne_nil hne
        exact hzero
      refine ⟨10, num, ?_, hne, by decide, hds, rfl⟩
      unfold LzLib.Foundation.readBase
      rw [hexPrefix_plain hhead, if_neg (by simp), if_neg (by simp), if_neg hhead]
  | @octal ds hds =>
      have hzero : digitVal 48 = 0 := rfl
      refine ⟨8, 48 :: ds, ?_, List.cons_ne_nil _ _, by decide, ?_, ?_⟩
      · unfold LzLib.Foundation.readBase
        rw [List.cons_append, hexPrefix_octal hds hrest, if_neg (by simp), if_neg (by simp)]
        rfl
      · intro c hc
        rcases List.mem_cons.mp hc with rfl | hc
        · decide
        · exact hds c hc
      · show digitsFrom 8 (0 * 8 + digitVal 48) ds = _
        rw [hzero]
        rfl
  | @hexadecimal x ds hx hne hds =>
      have hhex : hexPrefix (48 :: x :: (ds ++ rest)) = true := by
        obtain ⟨c, cs, rfl⟩ := List.exists_cons_of_ne_nil hne
        exact (hexPrefix_iff _).mpr ⟨x, c, cs ++ rest, rfl, hx, hds c List.mem_cons_self⟩
      refine ⟨16, ds, ?_, hne, Nat.le_refl _, hds, rfl⟩
      unfold LzLib.Foundation.readBase
      rw [List.cons_append, List.cons_append, hhex, if_pos (by simp)]
      rfl

/-- **Digits in the base that has been chosen are a numeral**, with the prefix. -/
theorem numeral_of_readBase {b b' : Nat} (hb : b = 0 ∨ b = 10) {s ds rest : Bytes}
    (hbase : readBase b s = (b', ds ++ rest)) (hne : ds ≠ []) (hds : ∀ c ∈ ds, digitVal c < b') :
    ∃ num, s = num ++ rest ∧ Numeral b num (digitsValue b' ds) := by
  rcases hb with rfl | rfl
  · unfold readBase at hbase
    by_cases hhex : hexPrefix s = true
    · rw [if_pos ⟨Or.inl rfl, hhex⟩] at hbase
      obtain ⟨x, c, cs, rfl, hx, -⟩ := (hexPrefix_iff s).mp hhex
      injection hbase with hb' hs
      have hs : c :: cs = ds ++ rest := hs
      subst hb'
      refine ⟨48 :: x :: ds, ?_, Numeral.hexadecimal hx hne hds⟩
      rw [hs]
      rfl
    · rw [if_neg (fun h => hhex h.2), if_neg (by simp)] at hbase
      by_cases hzero : s.head? = some 48
      · rw [if_pos hzero] at hbase
        injection hbase with hb' hs
        subst hb'
        obtain ⟨c, ds, rfl⟩ := List.exists_cons_of_ne_nil hne
        rw [hs] at hzero
        obtain rfl : c = 48 := Option.some.inj hzero
        exact ⟨48 :: ds, hs, Numeral.octal (fun c hc => hds c (List.mem_cons_of_mem _ hc))⟩
      · rw [if_neg hzero] at hbase
        injection hbase with hb' hs
        subst hb'
        refine ⟨ds, hs, Numeral.plain hne hds ?_⟩
        obtain ⟨c, ds, rfl⟩ := List.exists_cons_of_ne_nil hne
        rw [hs] at hzero
        exact hzero
  · rw [readBase_given (by decide) (by decide)] at hbase
    injection hbase with hb' hs
    subst hb'
    exact ⟨ds, hs, Numeral.decimal hne hds⟩

/-! ## §3. What a scan finds. -/

/-- **What is found is a number.** -/
theorem literal_of_scanInt {b : Nat} (hb : b = 0 ∨ b = 10) {s : Bytes} {n : Scanned} (hn : scanInt b s = some n) :
    ∃ sign, IsSign n.negative sign ∧ Literal b s sign n.magnitude n.rest := by
  obtain ⟨ws, hws, hspaces⟩ := spaces_split s
  obtain ⟨sign, hsign, hneg⟩ := readSign_split (s.dropWhile isSpace)
  unfold scanInt at hn
  dsimp only at hn
  split at hn
  next => cases hn
  next c cs hdigits =>
    split at hn
    next hc =>
      cases hn
      obtain ⟨ds, hds, hall, hstop, hval⟩ :=
        readDigits_split (b := (readBase b (readSign (s.dropWhile isSpace)).2).1) (c :: cs) 0
      have hne : ds ≠ [] := by
        rintro rfl
        have hfirst : c ∈ (readDigits (readBase b (readSign (s.dropWhile isSpace)).2).1 0 (c :: cs)).2.head? := by
          rw [List.nil_append] at hds
          rw [← hds]
          rfl
        exact absurd (hstop c hfirst) (Nat.not_le.mpr hc)
      obtain ⟨num, hnum, N⟩ := numeral_of_readBase hb (Prod.ext rfl (hdigits.trans hds)) hne hall
      refine ⟨sign, hneg, ws, num, ?_, hspaces, ?_⟩
      · rw [← hnum, ← hsign]
        exact hws
      · dsimp only
        rw [hval]
        exact N
    next => cases hn

/-- **A number is found**, if what follows it stops the digits. -/
theorem scanInt_of_literal {b : Nat} {s sign rest : Bytes} {negative : Bool} {d : Nat} (hsign : IsSign negative sign)
    (hs : Literal b s sign d rest) (hrest : Stops rest) : scanInt b s = some ⟨negative, d, rest⟩ := by
  obtain ⟨ws, num, rfl, hspaces, N⟩ := hs
  obtain ⟨b', ds, hbase, hne, hle, hall, hval⟩ := N.readBase hrest
  obtain ⟨c, cs, hnum, hc⟩ := N.head
  have hsigned : readSign (sign ++ (num ++ rest)) = (negative, num ++ rest) ∧
      ∀ x ∈ (sign ++ (num ++ rest)).head?, isSpace x = false := by
    rw [hnum]
    exact readSign_sign hsign (by omega)
  have hskip : (ws ++ (sign ++ (num ++ rest))).dropWhile isSpace = sign ++ (num ++ rest) :=
    dropWhile_spaces hspaces hsigned.2
  obtain ⟨x, ds, rfl⟩ := List.exists_cons_of_ne_nil hne
  have hx : digitVal x < b' := hall x List.mem_cons_self
  have hdigits : readDigits b' 0 (x :: (ds ++ rest)) = (d, rest) := by
    rw [← hval]
    exact readDigits_append (hrest.noDigit hle) 0 hall
  have hbase : readBase b (num ++ rest) = (b', x :: (ds ++ rest)) := hbase
  unfold scanInt
  simp only [hskip, hsigned.1, hbase, if_pos hx, hdigits]

end LzLib.Foundation
