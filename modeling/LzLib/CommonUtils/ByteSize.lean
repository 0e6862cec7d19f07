/-
  LzLib.CommonUtils.ByteSize
  ──────────────────────────
  **THE SIZES THAT `lz_string2bytesize` ACCEPTS.**

  A size is a decimal numeral, not negative, with a unit or without: `Denotes`.
  The parser reads exactly the sizes, and takes two kinds of strings for sizes
  that are none: a unit without a numeral, and a size of `2 ^ 64` or more whose
  numeral is below: `bytesize_iff`.
-/
import LzLib.CommonUtils.NumbersDef
import Mathlib.Algebra.Group.Nat.Defs
import Mathlib.Algebra.Group.Int.Defs

namespace LzLib.CommonUtils

open LzLib.Foundation

/-! ## §1. Sizes. -/

/-- The factor of a suffix, in upper or lower case; of none, it is 1. -/
inductive Factor : Bytes → Nat → Prop
  | none : Factor [] 1
  | unit {suffix : Bytes} {unit : Bytes × Nat} (hunit : unit ∈ lzUnits)
      (hsame : suffix.map tolower = unit.1.map tolower) : Factor suffix unit.2

/-- **A size**: white space, a `+` or none, digits with value `d`, and a suffix
with factor `u`. -/
def Denotes (s : Bytes) (d u : Nat) : Prop :=
  ∃ sign suffix, (sign = [] ∨ sign = [43]) ∧ Spells 10 s sign d suffix ∧ Factor suffix u

/-- **The string is read as it should be**: a size below `2 ^ 64` is stored, every
other string is refused and `*n` stays as it is. -/
structure ReadAsSize (s : CStr) : Prop where
  accepts : ∀ {d u : Nat}, Denotes s.chars d u → d * u < 2 ^ 64 → ∀ old errno,
    (lzString2bytesize (some s) (some old) errno).ret = 0 ∧
      (lzString2bytesize (some s) (some old) errno).n = some (d * u)
  refuses : (∀ d u, Denotes s.chars d u → 2 ^ 64 ≤ d * u) → ∀ old errno,
    (lzString2bytesize (some s) (some old) errno).ret = -1 ∧
      (lzString2bytesize (some s) (some old) errno).n = some old

/-! ## §2. Suffixes. -/

theorem Factor.pos {suffix : Bytes} {u : Nat} (F : Factor suffix u) : 0 < u ∧ u < 2 ^ 64 := by
  cases F with
  | none => omega
  | unit hunit _ =>
      simp only [lzUnits, List.mem_cons, List.not_mem_nil, or_false] at hunit
      rcases hunit with rfl | rfl | rfl | rfl | rfl <;> decide

/-- A suffix starts with no digit, no white space and no sign. -/
theorem Factor.head {suffix : Bytes} {u : Nat} (F : Factor suffix u) :
    ∀ c ∈ suffix.head?, 10 ≤ digitVal c ∧ isSpace c = false ∧ c ≠ 45 ∧ c ≠ 43 := by
  have hall : ∀ c : UInt8, 97 ≤ tolower c → tolower c ≤ 122 → 10 ≤ digitVal c ∧ isSpace c = false ∧ c ≠ 45 ∧ c ≠ 43 := by
    intro c
    obtain ⟨c⟩ := c
    revert c
    decide +kernel
  intro c hc
  cases F with
  | none => cases hc
  | @unit _ unit hunit hsame =>
      cases suffix with
      | nil => cases hc
      | cons x suffix =>
          cases hc
          rw [List.map_cons] at hsame
          simp only [lzUnits, List.mem_cons, List.not_mem_nil, or_false] at hunit
          rcases hunit with rfl | rfl | rfl | rfl | rfl
          all_goals
            injection hsame with hc _
            apply hall
            · rw [hc]; decide
            · rw [hc]; decide

/-- Comparing the tail with the units. -/
theorem find_units {tail : Bytes} (hnul : (0 : UInt8) ∉ tail) :
    (lzUnits.find? fun unit => strcasecmp tail unit.1 = 0)
      = lzUnits.find? fun unit => tail.map tolower = unit.1.map tolower := by
  unfold lzUnits
  simp (disch := decide) only [List.find?, strcasecmp_eq_zero_iff hnul]

/-- **A suffix scales**, and what overflows is lost. -/
theorem Factor.scaled {tail : Bytes} {u value : Nat} (F : Factor tail u) (hnul : (0 : UInt8) ∉ tail)
    (hvalue : value < 2 ^ 64) : LzLib.CommonUtils.scaled value tail = some (value * u % 2 ^ 64) := by
  cases F with
  | none =>
      rw [Nat.mul_one, Nat.mod_eq_of_lt hvalue]
      rfl
  | @unit _ unit hunit hsame =>
      have hall : ∀ unit ∈ lzUnits, unit.1.map tolower ≠ [] ∧
          (lzUnits.find? fun x => unit.1.map tolower = x.1.map tolower) = some unit := by decide
      obtain ⟨hne, hfind⟩ := hall unit hunit
      rw [← hsame] at hne hfind
      replace hne : tail ≠ [] := by
        rintro rfl
        exact hne rfl
      unfold LzLib.CommonUtils.scaled
      rw [if_neg hne, find_units hnul, hfind]
      rfl

theorem scaled_none {tail : Bytes} (hnul : (0 : UInt8) ∉ tail) (h : ∀ u, ¬ Factor tail u) (value : Nat) :
    scaled value tail = none := by
  have hne : tail ≠ [] := by
    rintro rfl
    exact h 1 Factor.none
  have hfind : (lzUnits.find? fun x => tail.map tolower = x.1.map tolower) = none := by
    rw [List.find?_eq_none]
    intro unit hunit hsame
    exact h unit.2 (Factor.unit hunit (of_decide_eq_true hsame))
  unfold scaled
  rw [if_neg hne, find_units hnul, hfind]
  rfl

theorem Factor.unique {tail : Bytes} {u u' : Nat} (F : Factor tail u) (F' : Factor tail u')
    (hnul : (0 : UInt8) ∉ tail) : u = u' := by
  have hone : (1 : Nat) < 2 ^ 64 := by decide
  have hsame := (F.scaled hnul hone).symm.trans (F'.scaled hnul hone)
  have hu := F.pos.2
  have hu' := F'.pos.2
  rw [Nat.one_mul, Nat.one_mul, Nat.mod_eq_of_lt hu, Nat.mod_eq_of_lt hu'] at hsame
  exact Option.some.inj hsame

/-! ## §3. The numeral. -/

/-- **A size is what the scan finds**, with the factor of its tail. -/
theorem denotes_iff {s : Bytes} {d u : Nat} :
    Denotes s d u ↔ ∃ suffix, scanInt 10 s = some ⟨false, d, suffix⟩ ∧ Factor suffix u := by
  constructor
  · intro D
    obtain ⟨sign, suffix, hsign, hs, F⟩ := D
    have hstop : NoDigit 10 suffix := fun c hc => (F.head c hc).1
    exact ⟨suffix, scanInt_of_spells (by decide) (by decide) (by decide) hsign hs hstop, F⟩
  · intro D
    obtain ⟨suffix, hscan, F⟩ := D
    obtain ⟨sign, hsign, hs, -⟩ := spells_of_scanInt (by decide) (by decide) hscan
    exact ⟨sign, suffix, hsign, hs, F⟩

/-- A suffix alone has no numeral. -/
theorem Factor.bare {s : Bytes} {u : Nat} (F : Factor s u) : minusAhead s = false ∧ scanInt 10 s = Option.none := by
  cases hs : s with
  | nil => exact ⟨rfl, rfl⟩
  | cons c cs =>
      obtain ⟨hdigit, hspace, hminus, hplus⟩ := F.head c (hs ▸ rfl)
      have hskip : (c :: cs).dropWhile isSpace = c :: cs :=
        List.dropWhile_cons_of_neg (by rw [hspace]; exact Bool.false_ne_true)
      have hsign : readSign (c :: cs) = (false, c :: cs) := by rw [readSign, if_neg hminus, if_neg hplus]
      constructor
      · unfold minusAhead
        rw [hspace]
        simp [hminus]
      · unfold scanInt
        simp only [hskip, hsign, readBase_given (show (10 : Nat) ≠ 0 by decide) (show (10 : Nat) ≠ 16 by decide),
          if_neg (Nat.not_lt.mpr hdigit)]

theorem minusAhead_eq (s : Bytes) : minusAhead s = (readSign (s.dropWhile isSpace)).1 := by
  induction s with
  | nil => rfl
  | cons c s ih =>
      unfold minusAhead
      by_cases hspace : isSpace c = true
      · rw [if_pos hspace, List.dropWhile_cons_of_pos hspace]
        exact ih
      · rw [if_neg hspace, List.dropWhile_cons_of_neg hspace]
        unfold readSign
        by_cases hminus : c = 45
        · simp [hminus]
        · simp [hminus]
          split <;> rfl

/-- The number that is found is negative if there is a `-`. -/
theorem scanInt_negative {b : Nat} {s : Bytes} {n : Scanned} (hn : scanInt b s = some n) : n.negative = minusAhead s := by
  rw [minusAhead_eq]
  unfold scanInt at hn
  dsimp only at hn
  split at hn
  next => cases hn
  next =>
    split at hn
    next =>
      cases hn
      rfl
    next => cases hn

/-! ## §4. The parser. -/

section Parser

variable {s : CStr} (old : Nat) (errno : Int)

/-- The tail of a string is a string. -/
theorem tail_nulFree {n : Scanned} (hn : scanInt 10 s.chars = some n) : (0 : UInt8) ∉ n.rest := by
  obtain ⟨sign, -, ⟨ws, ds, hs, -⟩, -⟩ := spells_of_scanInt (by decide) (by decide) hn
  have hnul := s.nulFree
  rw [hs] at hnul
  simp only [List.mem_append, not_or] at hnul
  exact hnul.2.2.2

/-- A `-` is refused. -/
theorem parse_minus (hminus : minusAhead s.chars = true) :
    lzString2bytesize (some s) (some old) errno = ⟨-1, some old, errno⟩ := by
  unfold lzString2bytesize
  dsimp only
  rw [if_pos hminus]

/-- Without a numeral the whole string is the tail. -/
theorem parse_none (hminus : minusAhead s.chars = false) (hscan : scanInt 10 s.chars = none) :
    lzString2bytesize (some s) (some old) errno = match scaled 0 s.chars with
      | none => ⟨-1, some old, errno⟩
      | some value => ⟨0, some value, errno⟩ := by
  have hparsed : strtoull 10 s.chars = ⟨0, s.chars, false⟩ := by
    unfold strtoull
    rw [hscan]
  unfold lzString2bytesize
  dsimp only
  rw [hminus, hparsed]
  rfl

/-- A numeral that does not fit is refused. -/
theorem parse_large {d : Nat} {tail : Bytes} (hscan : scanInt 10 s.chars = some ⟨false, d, tail⟩) (hd : 2 ^ 64 ≤ d) :
    lzString2bytesize (some s) (some old) errno = ⟨-1, some old, erange⟩ := by
  have hparsed : strtoull 10 s.chars = ⟨2 ^ 64 - 1, tail, true⟩ := by
    unfold strtoull
    rw [hscan]
    exact if_pos hd
  unfold lzString2bytesize
  dsimp only
  rw [← scanInt_negative hscan, hparsed]
  rfl

/-- A numeral that fits is scaled by its tail. -/
theorem parse_some {d : Nat} {tail : Bytes} (hscan : scanInt 10 s.chars = some ⟨false, d, tail⟩) (hd : d < 2 ^ 64) :
    lzString2bytesize (some s) (some old) errno = match scaled d tail with
      | none => ⟨-1, some old, errno⟩
      | some value => ⟨0, some value, errno⟩ := by
  have hvalue : (d : Int) % 2 ^ 64 = d := Int.emod_eq_of_lt (by omega) (by omega)
  have hparsed : strtoull 10 s.chars = ⟨d, tail, false⟩ := by
    unfold strtoull
    rw [hscan]
    show (if 2 ^ 64 ≤ d then _ else Parsed.mk ((d : Int) % 2 ^ 64) tail false) = _
    rw [if_neg (Nat.not_le.mpr hd), hvalue]
  unfold lzString2bytesize
  dsimp only
  rw [← scanInt_negative hscan, hparsed]
  rfl

end Parser

/-- A suffix alone is stored as 0. -/
theorem ReadAsSize.not_bare {s : CStr} (R : ReadAsSize s) (u : Nat) : ¬ Factor s.chars u := by
  intro F
  obtain ⟨hminus, hscan⟩ := F.bare
  have hnosize : ∀ d u, Denotes s.chars d u → 2 ^ 64 ≤ d * u := by
    intro d u D
    obtain ⟨suffix, hfound, -⟩ := denotes_iff.mp D
    rw [hscan] at hfound
    cases hfound
  have hret := (R.refuses hnosize 0 0).1
  rw [parse_none 0 0 hminus hscan, F.scaled s.nulFree (by decide)] at hret
  exact absurd hret (show (0 : Int) ≠ -1 by decide)

/-- What a size overflows by is lost. -/
theorem ReadAsSize.fits {s : CStr} (R : ReadAsSize s) {d u : Nat} (D : Denotes s.chars d u) (hd : d < 2 ^ 64) :
    d * u < 2 ^ 64 := by
  by_contra hlarge
  obtain ⟨suffix, hscan, F⟩ := denotes_iff.mp D
  have hnosize : ∀ d' u', Denotes s.chars d' u' → 2 ^ 64 ≤ d' * u' := by
    intro d' u' D'
    obtain ⟨suffix', hscan', F'⟩ := denotes_iff.mp D'
    rw [hscan] at hscan'
    cases hscan'
    rw [← F.unique F' (tail_nulFree hscan)]
    exact Nat.not_lt.mp hlarge
  have hret := (R.refuses hnosize 0 0).1
  rw [parse_some 0 0 hscan hd, F.scaled (tail_nulFree hscan) hd] at hret
  exact absurd hret (show (0 : Int) ≠ -1 by decide)

/-- **Which strings are read as they should be**: not a suffix alone or the empty
string, and no size of `2 ^ 64` or more with a numeral below. -/
theorem bytesize_iff (s : CStr) :
    ReadAsSize s ↔ (∀ u, ¬ Factor s.chars u) ∧ ∀ d u, Denotes s.chars d u → d < 2 ^ 64 → d * u < 2 ^ 64 := by
  constructor
  · intro R
    exact ⟨R.not_bare, fun d u D hd => R.fits D hd⟩
  · intro hcond
    obtain ⟨hbare, hfits⟩ := hcond
    constructor
    · intro d u D hlt old errno
      obtain ⟨suffix, hscan, F⟩ := denotes_iff.mp D
      have hd : d < 2 ^ 64 := Nat.lt_of_le_of_lt (Nat.le_mul_of_pos_right d F.pos.1) hlt
      rw [parse_some old errno hscan hd, F.scaled (tail_nulFree hscan) hd, Nat.mod_eq_of_lt hlt]
      exact ⟨rfl, rfl⟩
    · intro hnosize old errno
      by_cases hminus : minusAhead s.chars = true
      · rw [parse_minus old errno hminus]
        exact ⟨rfl, rfl⟩
      · replace hminus : minusAhead s.chars = false := Bool.eq_false_iff.mpr hminus
        cases hscan : scanInt 10 s.chars with
        | none =>
            rw [parse_none old errno hminus hscan, scaled_none s.nulFree hbare]
            exact ⟨rfl, rfl⟩
        | some n =>
            obtain ⟨negative, d, suffix⟩ := n
            obtain rfl : negative = false := (scanInt_negative hscan).trans hminus
            by_cases hd : d < 2 ^ 64
            · -- a suffix would make it a size that the condition bounds
              have hnone : ∀ u, ¬ Factor suffix u := by
                intro u F
                have D : Denotes s.chars d u := denotes_iff.mpr ⟨suffix, hscan, F⟩
                exact absurd (hfits d u D hd) (Nat.not_lt.mpr (hnosize d u D))
              rw [parse_some old errno hscan hd, scaled_none (tail_nulFree hscan) hnone]
              exact ⟨rfl, rfl⟩
            · rw [parse_large old errno hscan (Nat.not_lt.mp hd)]
              exact ⟨rfl, rfl⟩

/-- The empty string, a unit alone, and `2 ^ 14` times `2 ^ 50` are stored as 0. -/
theorem bytesize_wrong :
    ∃ empty unit large : CStr, empty.chars = [] ∧ unit.chars = [75, 66] ∧
      large.chars = [49, 54, 51, 56, 52, 80, 66] ∧
      lzString2bytesize (some empty) (some 7) 0 = ⟨0, some 0, 0⟩ ∧
      lzString2bytesize (some unit) (some 7) 0 = ⟨0, some 0, 0⟩ ∧
      lzString2bytesize (some large) (some 7) 0 = ⟨0, some 0, 0⟩ ∧
      ¬ ReadAsSize empty ∧ ¬ ReadAsSize unit ∧ ¬ ReadAsSize large := by
  have hunit : Factor [75, 66] lzUnitKb := Factor.unit (List.mem_cons_self) rfl
  have hpeta : Factor [80, 66] lzUnitPb := Factor.unit (show ([80, 66], lzUnitPb) ∈ lzUnits by decide) rfl
  have hlarge : Denotes [49, 54, 51, 56, 52, 80, 66] 16384 lzUnitPb :=
    denotes_iff.mpr ⟨[80, 66], by decide +kernel, hpeta⟩
  refine ⟨⟨[], by decide⟩, ⟨[75, 66], by decide⟩, ⟨[49, 54, 51, 56, 52, 80, 66], by decide⟩, rfl, rfl, rfl,
    by decide +kernel, by decide +kernel, by decide +kernel, ?_, ?_, ?_⟩
  · intro R
    exact R.not_bare 1 Factor.none
  · intro R
    exact R.not_bare lzUnitKb hunit
  · intro R
    exact absurd (R.fits hlarge (by decide)) (by decide)

/-- A size in kilobytes. -/
example : lzString2bytesize (some ⟨[32, 43, 49, 48, 107, 98], by decide⟩) (some 7) 3 = ⟨0, some 10240, 3⟩ := by
  decide +kernel

end LzLib.CommonUtils
