/-
  LzLib.CommonUtils.FixedWidth
  ────────────────────────────
  **THE NUMBERS THAT THE FIXED-WIDTH PARSERS ACCEPT.**

  A number is white space, a sign, a numeral and a tail: `Number`.  All parsers
  share a body, and `readNumber_cases` says once what it comes to: it stores the
  number, or 0 where there is only a tail, and refuses every other string.

  The twelve parsers of a fixed width accept the numbers of their type, and one
  string that is none: the empty one (`reads_iff`).
-/
import LzLib.CommonUtils.ByteSize

namespace LzLib.CommonUtils

open LzLib.Foundation

/-! ## §1. Numbers. -/

/-- **A number with value `z`**: white space, a sign (a `-` only if `signed`), a
numeral in base `b`, and one of the tails. -/
def Number (b : Nat) (signed : Bool) (tails : List Bytes) (s : Bytes) (z : Int) : Prop :=
  ∃ negative sign d rest, IsSign negative sign ∧ (negative = true → signed = true) ∧ Literal b s sign d rest ∧
    rest ∈ tails ∧ z = if negative then -(d : Int) else d

/-- Tails that end a numeral, and hold none. -/
def Tails (b : Nat) (tails : List Bytes) : Prop :=
  ∀ t ∈ tails, Stops t ∧ minusAhead t = false ∧ scanInt b t = none

/-- **The numbers between `lo` and `hi` are read as they are**, those outside set `errno`. -/
def ReadsBetween (b : Nat) (signed : Bool) (lo hi : Int) (strto : Bytes → Parsed) : Prop :=
  ∀ s, (signed = false → minusAhead s = false) →
    match scanInt b s with
    | none => strto s = ⟨0, s, false⟩
    | some n => if lo ≤ n.value ∧ n.value < hi then strto s = ⟨n.value, n.rest, false⟩ else (strto s).erange = true

theorem strtoll_reads (b : Nat) (signed : Bool) : ReadsBetween b signed (-2 ^ 63) (2 ^ 63) (strtoll b) := by
  intro s _
  unfold strtoll
  cases hscan : scanInt b s with
  | none => rfl
  | some n =>
      dsimp only
      by_cases hlow : n.value < -2 ^ 63
      · rw [if_neg (by omega), if_pos hlow]
      · rw [if_neg hlow]
        by_cases hhigh : 2 ^ 63 ≤ n.value
        · rw [if_neg (by omega), if_pos hhigh]
        · rw [if_pos (by omega), if_neg hhigh]

theorem strtoull_reads (b : Nat) : ReadsBetween b false 0 (2 ^ 64) (strtoull b) := by
  intro s hminus
  cases hscan : scanInt b s with
  | none =>
      unfold strtoull
      rw [hscan]
  | some n =>
      have hvalue : n.value = n.magnitude := by
        unfold Scanned.value
        rw [scanInt_negative hscan, hminus rfl]
        rfl
      show if 0 ≤ n.value ∧ n.value < 2 ^ 64 then _ else _
      unfold strtoull
      rw [hscan]
      dsimp only
      split
      next hfits =>
        rw [if_neg (by omega), Int.emod_eq_of_lt hfits.1 hfits.2]
      next hlarge =>
        rw [if_pos (by omega)]

/-! ## §2. The body of the parsers. -/

section Body

variable {b : Nat} {signed : Bool} {tails : List Bytes} {s : CStr}

/-- **A number is what the scan finds.** -/
theorem number_iff (hb : b = 0 ∨ b = 10) (T : Tails b tails) {s : Bytes} {z : Int} :
    Number b signed tails s z ↔ ∃ n, scanInt b s = some n ∧ (n.negative = true → signed = true) ∧ n.rest ∈ tails ∧
      z = n.value := by
  constructor
  · intro N
    obtain ⟨negative, sign, d, rest, hsign, hneg, L, hrest, hz⟩ := N
    exact ⟨⟨negative, d, rest⟩, scanInt_of_literal hsign L (T rest hrest).1, hneg, hrest, hz⟩
  · intro h
    obtain ⟨n, hscan, hneg, hrest, hz⟩ := h
    obtain ⟨sign, hsign, L⟩ := literal_of_scanInt hb hscan
    exact ⟨n.negative, sign, n.magnitude, n.rest, hsign, hneg, L, hrest, hz⟩

/-- A text has one value. -/
theorem Number.unique (hb : b = 0 ∨ b = 10) (T : Tails b tails) {s : Bytes} {z z' : Int}
    (N : Number b signed tails s z) (N' : Number b signed tails s z') : z = z' := by
  obtain ⟨n, hscan, -, -, hz⟩ := (number_iff hb T).mp N
  obtain ⟨n', hscan', -, -, hz'⟩ := (number_iff hb T).mp N'
  rw [hscan] at hscan'
  cases hscan'
  rw [hz, hz']

/-- A tail alone is no number. -/
theorem Number.not_tail (hb : b = 0 ∨ b = 10) (T : Tails b tails) {s : Bytes} {z : Int}
    (N : Number b signed tails s z) : s ∉ tails := by
  intro hs
  obtain ⟨n, hscan, -⟩ := (number_iff hb T).mp N
  rw [(T s hs).2.2] at hscan
  cases hscan

/-- What the body stores: a number that fits, or 0 where there is only a tail. -/
def Accepted (b : Nat) (signed : Bool) (lo hi : Int) (tails : List Bytes) (s : Bytes) (z : Int) : Prop :=
  (s ∈ tails ∧ z = 0) ∨ (Number b signed tails s z ∧ lo ≤ z ∧ z < hi)

variable {lo hi : Int} {strto : Bytes → Parsed}

/-- Where the scan finds nothing, a tail is accepted. -/
theorem accepted_of_scan_none (hb : b = 0 ∨ b = 10) (T : Tails b tails) {s : Bytes} (hscan : scanInt b s = none)
    (z : Int) : Accepted b signed lo hi tails s z ↔ s ∈ tails ∧ z = 0 := by
  constructor
  · intro A
    rcases A with hs | ⟨N, -⟩
    · exact hs
    · obtain ⟨n, hfound, -⟩ := (number_iff hb T).mp N
      rw [hscan] at hfound
      cases hfound
  · intro hs
    exact Or.inl hs

/-- Where the scan finds a number, its value is accepted, if it fits and a tail follows. -/
theorem accepted_of_scan_some (hb : b = 0 ∨ b = 10) (T : Tails b tails) {s : Bytes} {n : Scanned}
    (hscan : scanInt b s = some n) (hahead : signed = false → minusAhead s = false) (z : Int) :
    Accepted b signed lo hi tails s z ↔ z = n.value ∧ n.rest ∈ tails ∧ lo ≤ n.value ∧ n.value < hi := by
  have hnegative : n.negative = true → signed = true := by
    intro hneg
    rw [scanInt_negative hscan] at hneg
    by_contra hsigned
    rw [hahead (Bool.eq_false_iff.mpr hsigned)] at hneg
    cases hneg
  constructor
  · intro A
    rcases A with ⟨hs, -⟩ | ⟨N, hz⟩
    · rw [(T _ hs).2.2] at hscan
      cases hscan
    · obtain ⟨n', hfound, -, hrest, rfl⟩ := (number_iff hb T).mp N
      rw [hscan] at hfound
      cases hfound
      exact ⟨rfl, hrest, hz⟩
  · intro h
    obtain ⟨rfl, hrest, hfits⟩ := h
    exact Or.inr ⟨(number_iff hb T).mpr ⟨n, hscan, hnegative, hrest, rfl⟩, hfits⟩

/-- A `-` is never accepted by an unsigned parser. -/
theorem not_accepted_of_minus (hb : b = 0 ∨ b = 10) (T : Tails b tails) {s : Bytes} (hsigned : signed = false)
    (hminus : minusAhead s = true) (z : Int) : ¬ Accepted b signed lo hi tails s z := by
  intro A
  rcases A with ⟨hs, -⟩ | ⟨N, -⟩
  · rw [(T _ hs).2.1] at hminus
    cases hminus
  · obtain ⟨n, hscan, hneg, -⟩ := (number_iff hb T).mp N
    rw [hneg ((scanInt_negative hscan).trans hminus)] at hsigned
    cases hsigned

/-- **What a parser comes to**: it stores what is accepted, and nothing else. -/
theorem readNumber_cases (hb : b = 0 ∨ b = 10) (T : Tails b tails) (R : ReadsBetween b signed lo hi strto)
    {α : Type} (x : α) (convert : Int → Int) (errno : Int) :
    (∃ z, Accepted b signed lo hi tails s.chars z ∧
      readNumber (!signed) strto tails convert (some s) (some x) errno = ⟨0, some (convert z), errno⟩) ∨
    ((∀ z, ¬ Accepted b signed lo hi tails s.chars z) ∧
      ∃ e, readNumber (!signed) strto tails convert (some s) (some x) errno = ⟨-1, none, e⟩) := by
  unfold readNumber
  dsimp only
  -- the check for a `-` comes first
  by_cases hminus : (!signed && minusAhead s.chars) = true
  · right
    rw [if_pos hminus]
    rw [Bool.and_eq_true, Bool.not_eq_true'] at hminus
    exact ⟨not_accepted_of_minus hb T hminus.1 hminus.2, errno, rfl⟩
  · rw [if_neg hminus]
    have hahead : signed = false → minusAhead s.chars = false := by
      intro hsigned
      rw [hsigned] at hminus
      exact Bool.eq_false_iff.mpr hminus
    have hread := R s.chars hahead
    -- no number at the front, or one and what is behind it
    cases hscan : scanInt b s.chars with
    | none =>
        have honly : ∀ z, Accepted b signed lo hi tails s.chars z ↔ s.chars ∈ tails ∧ z = 0 := accepted_of_scan_none hb T hscan
        rw [hscan] at hread
        dsimp only at hread
        rw [hread]
        dsimp only
        rw [if_neg Bool.false_ne_true]
        by_cases hs : s.chars ∈ tails
        · left
          rw [if_pos hs]
          exact ⟨0, (honly 0).mpr ⟨hs, rfl⟩, rfl⟩
        · right
          rw [if_neg hs]
          exact ⟨fun z A => hs ((honly z).mp A).1, errno, rfl⟩
    | some n =>
        have honly : ∀ z, Accepted b signed lo hi tails s.chars z
            ↔ z = n.value ∧ n.rest ∈ tails ∧ lo ≤ n.value ∧ n.value < hi := accepted_of_scan_some hb T hscan hahead
        rw [hscan] at hread
        dsimp only at hread
        by_cases hfits : lo ≤ n.value ∧ n.value < hi
        · rw [if_pos hfits] at hread
          rw [hread]
          dsimp only
          rw [if_neg Bool.false_ne_true]
          by_cases hrest : n.rest ∈ tails
          · left
            rw [if_pos hrest]
            exact ⟨n.value, (honly n.value).mpr ⟨rfl, hrest, hfits⟩, rfl⟩
          · right
            rw [if_neg hrest]
            exact ⟨fun z A => hrest ((honly z).mp A).2.1, errno, rfl⟩
        · rw [if_neg hfits] at hread
          right
          rw [if_pos hread]
          exact ⟨fun z A => hfits ((honly z).mp A).2.2, erange, rfl⟩

/-- What is accepted has one value. -/
theorem Accepted.unique (hb : b = 0 ∨ b = 10) (T : Tails b tails) {s : Bytes} {z z' : Int}
    (A : Accepted b signed lo hi tails s z) (A' : Accepted b signed lo hi tails s z') : z = z' := by
  rcases A with ⟨hs, h0⟩ | ⟨N, -⟩
  · rcases A' with ⟨-, h0'⟩ | ⟨N', -⟩
    · rw [h0, h0']
    · exact absurd hs (N'.not_tail hb T)
  · rcases A' with ⟨hs, -⟩ | ⟨N', -⟩
    · exact absurd hs (N.not_tail hb T)
    · exact N.unique hb T N'

/-- What is accepted is stored. -/
theorem readNumber_of_accepted (hb : b = 0 ∨ b = 10) (T : Tails b tails) (R : ReadsBetween b signed lo hi strto)
    {z : Int} (A : Accepted b signed lo hi tails s.chars z) {α : Type} (x : α) (convert : Int → Int) (errno : Int) :
    readNumber (!signed) strto tails convert (some s) (some x) errno = ⟨0, some (convert z), errno⟩ := by
  rcases readNumber_cases hb T R x convert errno with ⟨z', A', hread⟩ | ⟨hnone, -⟩
  · rw [hread, A.unique hb T A']
  · exact absurd A (hnone z)

/-- What is not accepted is refused. -/
theorem readNumber_of_refused (hb : b = 0 ∨ b = 10) (T : Tails b tails) (R : ReadsBetween b signed lo hi strto)
    (hnone : ∀ z, ¬ Accepted b signed lo hi tails s.chars z) {α : Type} (x : α) (convert : Int → Int) (errno : Int) :
    ∃ e, readNumber (!signed) strto tails convert (some s) (some x) errno = ⟨-1, none, e⟩ := by
  rcases readNumber_cases hb T R x convert errno with ⟨z, A, -⟩ | ⟨-, hread⟩
  · exact absurd A (hnone z)
  · exact hread

end Body

/-- The end of the string is a tail that holds no number. -/
theorem tails_end {b : Nat} (hb : b = 0 ∨ b = 10) : Tails b [[]] := by
  intro t ht
  obtain rfl := List.mem_singleton.mp ht
  refine ⟨stops_nil, rfl, ?_⟩
  rcases hb with rfl | rfl <;> rfl

/-! ## §3. The parsers of a fixed width. -/

/-- The parsers of a fixed width. -/
inductive FixedParser where
  | int8 | int16 | int32 | int64
  | uint8 | uint16 | uint32 | uint64
  | uint8Base10 | uint16Base10 | uint32Base10 | uint64Base10
  deriving DecidableEq

namespace FixedParser

/-- The function. -/
def run : FixedParser → Option CStr → Option Nat → Memory → Int → Option Stored
  | int8 => lzString2int8
  | int16 => lzString2int16
  | int32 => lzString2int32
  | int64 => lzString2int64
  | uint8 => lzString2uint8
  | uint16 => lzString2uint16
  | uint32 => lzString2uint32
  | uint64 => lzString2uint64
  | uint8Base10 => lzString2uint8Base10
  | uint16Base10 => lzString2uint16Base10
  | uint32Base10 => lzString2uint32Base10
  | uint64Base10 => lzString2uint64Base10

/-- The type of `*n`. -/
def ty : FixedParser → CInt
  | int8 => ⟨1, true⟩
  | int16 => ⟨2, true⟩
  | int32 => ⟨4, true⟩
  | int64 => ⟨8, true⟩
  | uint8 | uint8Base10 => ⟨1, false⟩
  | uint16 | uint16Base10 => ⟨2, false⟩
  | uint32 | uint32Base10 => ⟨4, false⟩
  | uint64 | uint64Base10 => ⟨8, false⟩

/-- The base of its numerals. -/
def base : FixedParser → Nat
  | int8 | int16 | int32 | int64 | uint8 | uint16 | uint32 | uint64 => 0
  | uint8Base10 | uint16Base10 | uint32Base10 | uint64Base10 => 10

/-- The string is a number of this parser, with value `z` and nothing behind it. -/
def IsNumber (p : FixedParser) (s : CStr) (z : Int) : Prop := Number p.base p.ty.signed [[]] s.chars z

/-- **The string is read as it should be**: a number of the type is stored in `*n`,
every other string is refused and the memory stays as it is. -/
structure Reads (p : FixedParser) (s : CStr) : Prop where
  accepts : ∀ {z : Int}, p.IsNumber s z → p.ty.Has z → ∀ a m errno, ∃ out,
    p.run (some s) (some a) m errno = some out ∧ out.ret = 0 ∧ out.mem.value p.ty a = z ∧
      ∀ i, i < a ∨ a + p.ty.size ≤ i → out.mem i = m i
  refuses : (∀ z, p.IsNumber s z → ¬ p.ty.Has z) → ∀ a m errno, ∃ out,
    p.run (some s) (some a) m errno = some out ∧ out.ret = -1 ∧ out.mem = m

theorem base_cases (p : FixedParser) : p.base = 0 ∨ p.base = 10 := by
  cases p <;> first | exact Or.inl rfl | exact Or.inr rfl

/-- The range that is tested is that of the type, and 64 bits hold it. -/
theorem range_signed {size : Nat} {min max : Int} (hmin : 2 * min = -256 ^ size) (hmax : 2 * (max + 1) = 256 ^ size)
    (hsize : (256 : Int) ^ size ≤ 2 ^ 64) (z : Int) :
    (min ≤ z ∧ z ≤ max ↔ (CInt.mk size true).Has z) ∧
      ((CInt.mk size true).Has z → -2 ^ 63 ≤ z ∧ z < 2 ^ 63) := by
  rw [CInt.has_signed]
  omega

theorem range_unsigned {size : Nat} {max : Int} (hmax : max + 1 = 256 ^ size) (hsize : (256 : Int) ^ size ≤ 2 ^ 64)
    (z : Int) :
    (0 ≤ z ∧ z ≤ max ↔ (CInt.mk size false).Has z) ∧ ((CInt.mk size false).Has z → 0 ≤ z ∧ z < 2 ^ 64) := by
  rw [CInt.has_unsigned]
  omega

/-- Each parser is the body applied to the range of its type. -/
theorem run_eq (p : FixedParser) : ∃ min max lo hi strto,
    p.run = fixedWidth p.ty min max (readNumber (!p.ty.signed) strto [[]] id) ∧
      ReadsBetween p.base p.ty.signed lo hi strto ∧
      ∀ z, (min ≤ z ∧ z ≤ max ↔ p.ty.Has z) ∧ (p.ty.Has z → lo ≤ z ∧ z < hi) := by
  cases p with
  | int8 => exact ⟨_, _, _, _, _, rfl, strtoll_reads 0 true, range_signed (by decide) (by decide) (by decide)⟩
  | int16 => exact ⟨_, _, _, _, _, rfl, strtoll_reads 0 true, range_signed (by decide) (by decide) (by decide)⟩
  | int32 => exact ⟨_, _, _, _, _, rfl, strtoll_reads 0 true, range_signed (by decide) (by decide) (by decide)⟩
  | int64 => exact ⟨_, _, _, _, _, rfl, strtoll_reads 0 true, range_signed (by decide) (by decide) (by decide)⟩
  | uint8 => exact ⟨_, _, _, _, _, rfl, strtoull_reads 0, range_unsigned (by decide) (by decide)⟩
  | uint16 => exact ⟨_, _, _, _, _, rfl, strtoull_reads 0, range_unsigned (by decide) (by decide)⟩
  | uint32 => exact ⟨_, _, _, _, _, rfl, strtoull_reads 0, range_unsigned (by decide) (by decide)⟩
  | uint64 => exact ⟨_, _, _, _, _, rfl, strtoull_reads 0, range_unsigned (by decide) (by decide)⟩
  | uint8Base10 => exact ⟨_, _, _, _, _, rfl, strtoull_reads 10, range_unsigned (by decide) (by decide)⟩
  | uint16Base10 => exact ⟨_, _, _, _, _, rfl, strtoull_reads 10, range_unsigned (by decide) (by decide)⟩
  | uint32Base10 => exact ⟨_, _, _, _, _, rfl, strtoull_reads 10, range_unsigned (by decide) (by decide)⟩
  | uint64Base10 => exact ⟨_, _, _, _, _, rfl, strtoull_reads 10, range_unsigned (by decide) (by decide)⟩

/-- A number of a parser has one value. -/
theorem IsNumber.unique {p : FixedParser} {s : CStr} {z z' : Int} (N : p.IsNumber s z) (N' : p.IsNumber s z') :
    z = z' :=
  Number.unique p.base_cases (tails_end p.base_cases) N N'

theorem IsNumber.ne_nil {p : FixedParser} {s : CStr} {z : Int} (N : p.IsNumber s z) : s.chars ≠ [] := by
  intro hs
  exact Number.not_tail p.base_cases (tails_end p.base_cases) N (List.mem_singleton.mpr hs)

/-- What is taken for a number: a number, or the empty string, for 0. -/
def Takes (p : FixedParser) (s : CStr) (z : Int) : Prop := (s.chars = [] ∧ z = 0) ∨ p.IsNumber s z

theorem Takes.unique {p : FixedParser} {s : CStr} {z z' : Int} (hz : p.Takes s z) (hz' : p.Takes s z') : z = z' := by
  rcases hz with ⟨hs, h0⟩ | N
  · rcases hz' with ⟨-, h0'⟩ | N'
    · rw [h0, h0']
    · exact absurd hs N'.ne_nil
  · rcases hz' with ⟨hs, -⟩ | N'
    · exact absurd hs N.ne_nil
    · exact N.unique N'

/-- **What a parser comes to.** -/
theorem run_cases (p : FixedParser) (s : CStr) (a : Nat) (m : Memory) (errno : Int) :
    (∃ z, p.Takes s z ∧ p.ty.Has z ∧ p.run (some s) (some a) m errno = some ⟨0, m.store p.ty a z, errno⟩) ∨
    ((∀ z, p.Takes s z → ¬ p.ty.Has z) ∧ ∃ e, p.run (some s) (some a) m errno = some ⟨-1, m, e⟩) := by
  obtain ⟨min, max, lo, hi, strto, hrun, R, hrange⟩ := p.run_eq
  have T := tails_end p.base_cases
  have haccepted : ∀ {z}, p.Takes s z → p.ty.Has z → Accepted p.base p.ty.signed lo hi [[]] s.chars z := by
    intro z hz hhas
    rcases hz with ⟨hs, hz⟩ | N
    · exact Or.inl ⟨List.mem_singleton.mpr hs, hz⟩
    · exact Or.inr ⟨N, (hrange z).2 hhas⟩
  rw [hrun]
  unfold fixedWidth
  dsimp only
  rcases readNumber_cases p.base_cases T R (s := s) () id errno with ⟨z, A, hread⟩ | ⟨hnone, e, hread⟩
  · have hz : p.Takes s z := by
      rcases A with ⟨hs, hz⟩ | ⟨N, -⟩
      · exact Or.inl ⟨List.mem_singleton.mp hs, hz⟩
      · exact Or.inr N
    rw [hread, if_neg (fun h => h rfl)]
    dsimp only [id, Option.getD_some]
    by_cases hhas : p.ty.Has z
    · left
      rw [if_pos ((hrange z).1.mpr hhas)]
      exact ⟨z, hz, hhas, rfl⟩
    · right
      rw [if_neg (fun h => hhas ((hrange z).1.mp h))]
      refine ⟨?_, erange, rfl⟩
      intro z' hz'
      rw [hz'.unique hz]
      exact hhas
  · right
    rw [hread]
    dsimp only
    rw [if_pos (by decide)]
    refine ⟨?_, e, rfl⟩
    intro z hz hhas
    exact hnone z (haccepted hz hhas)

/-- Every type has 0. -/
theorem has_zero (p : FixedParser) : p.ty.Has 0 := by
  cases p <;> decide

/-- The empty string is stored as 0. -/
theorem run_empty (p : FixedParser) {s : CStr} (hs : s.chars = []) (a : Nat) (m : Memory) (errno : Int) :
    p.run (some s) (some a) m errno = some ⟨0, m.store p.ty a 0, errno⟩ := by
  rcases p.run_cases s a m errno with ⟨z, hz, -, hrun⟩ | ⟨hnone, -⟩
  · rcases hz with ⟨-, rfl⟩ | N
    · exact hrun
    · exact absurd hs N.ne_nil
  · exact absurd p.has_zero (hnone 0 (Or.inl ⟨hs, rfl⟩))

theorem Reads.ne_nil {p : FixedParser} {s : CStr} (R : p.Reads s) : s.chars ≠ [] := by
  intro hs
  obtain ⟨out, hout, hret, -⟩ := R.refuses (fun z N => absurd hs N.ne_nil) 0 (fun _ => 0) 0
  rw [p.run_empty hs] at hout
  cases hout
  exact absurd hret (show (0 : Int) ≠ -1 by decide)

/-- **Which strings are read as they should be**: all but the empty one. -/
theorem reads_iff (p : FixedParser) (s : CStr) : p.Reads s ↔ s.chars ≠ [] := by
  constructor
  · intro R
    exact R.ne_nil
  · intro hne
    constructor
    · intro z N hhas a m errno
      rcases p.run_cases s a m errno with ⟨z', hz', -, hrun⟩ | ⟨hnone, -⟩
      · rcases hz' with ⟨hs, -⟩ | N'
        · exact absurd hs hne
        · rw [N.unique N']
          rw [N.unique N'] at hhas
          exact ⟨_, hrun, rfl, m.value_store p.ty a hhas, fun i hi => m.store_outside p.ty a z' hi⟩
      · exact absurd hhas (hnone z (Or.inr N))
    · intro hnone a m errno
      rcases p.run_cases s a m errno with ⟨z, hz, hhas, -⟩ | ⟨-, e, hrun⟩
      · rcases hz with ⟨hs, -⟩ | N
        · exact absurd hs hne
        · exact absurd hhas (hnone z N)
      · exact ⟨_, hrun, rfl, rfl⟩

/-- Every parser takes the empty string for 0. -/
theorem reads_wrong :
    ∃ empty : CStr, empty.chars = [] ∧ ∀ p : FixedParser, ¬ p.Reads empty ∧
      ∀ a m errno, p.run (some empty) (some a) m errno = some ⟨0, m.store p.ty a 0, errno⟩ := by
  refine ⟨⟨[], by decide⟩, rfl, ?_⟩
  intro p
  constructor
  · intro R
    exact R.ne_nil rfl
  · intro a m errno
    exact p.run_empty rfl a m errno

end FixedParser

/-! ## §4. The parsers of `int` and `unsigned int`. -/

/-- The parsers that have a sibling of 32 bits. -/
inductive IntParser where
  | int
  | uint
  | uintBase10

namespace IntParser

/-- The function. -/
def run : IntParser → Option CStr → Option Nat → Memory → Int → Option Stored
  | int => lzString2int
  | uint => lzString2uint
  | uintBase10 => lzString2uintBase10

/-- Its sibling. -/
def sibling : IntParser → FixedParser
  | int => .int32
  | uint => .uint32
  | uintBase10 => .uint32Base10

/-- **A parser and its sibling agree on a string**: they have the same status and
store the same value, and neither writes outside the four bytes of its variable. -/
def Agrees (p : IntParser) (s : CStr) : Prop :=
  ∀ a m errno, ∃ out out', p.run (some s) (some a) m errno = some out ∧
    p.sibling.run (some s) (some a) m errno = some out' ∧ out.ret = out'.ret ∧
    (out.ret = 0 → out.mem.value p.sibling.ty a = out'.mem.value p.sibling.ty a) ∧
    ∀ i, i < a ∨ a + 4 ≤ i → out.mem i = m i ∧ out'.mem i = m i

/-- The strings that tell them apart: all that `lz_string2int` accepts, which are the
empty one and the numbers of 64 bits, and the unsigned numbers of 33 to 64 bits. -/
def TellsApart : IntParser → CStr → Prop
  | int, s => s.chars = [] ∨ ∃ z, Number 0 true [[]] s.chars z ∧ -2 ^ 63 ≤ z ∧ z < 2 ^ 63
  | uint, s => ∃ z, Number 0 false [[]] s.chars z ∧ 2 ^ 32 ≤ z ∧ z < 2 ^ 64
  | uintBase10, s => ∃ z, Number 10 false [[]] s.chars z ∧ 2 ^ 32 ≤ z ∧ z < 2 ^ 64

end IntParser

section Pointer

variable {b : Nat} {signed : Bool} {lo hi : Int} {strto : Bytes → Parsed}

/-- What is accepted is stored through the caller's pointer. -/
theorem throughPointer_of_accepted (hb : b = 0 ∨ b = 10) (R : ReadsBetween b signed lo hi strto) {s : CStr} {z : Int}
    (A : Accepted b signed lo hi [[]] s.chars z) (t : CInt) (convert : Int → Int) (a : Nat) (m : Memory) (errno : Int) :
    throughPointer t (readNumber (!signed) strto [[]] convert) (some s) (some a) m errno
      = some ⟨0, m.store t a (convert z), errno⟩ := by
  unfold throughPointer
  dsimp only
  rw [readNumber_of_accepted hb (tails_end hb) R A]

theorem throughPointer_of_refused (hb : b = 0 ∨ b = 10) (R : ReadsBetween b signed lo hi strto) {s : CStr}
    (hnone : ∀ z, ¬ Accepted b signed lo hi [[]] s.chars z) (t : CInt) (convert : Int → Int) (a : Nat) (m : Memory)
    (errno : Int) :
    ∃ e, throughPointer t (readNumber (!signed) strto [[]] convert) (some s) (some a) m errno = some ⟨-1, m, e⟩ := by
  obtain ⟨e, hread⟩ := readNumber_of_refused hb (tails_end hb) R hnone a convert errno
  unfold throughPointer
  dsimp only
  rw [hread]
  exact ⟨e, rfl⟩

/-- What a number of 64 bits is to a parser of a fixed width. -/
theorem FixedParser.run_of_accepted {p : FixedParser} {s : CStr} {z : Int}
    (A : Accepted p.base p.ty.signed lo hi [[]] s.chars z) (a : Nat) (m : Memory) (errno : Int) :
    (p.ty.Has z → p.run (some s) (some a) m errno = some ⟨0, m.store p.ty a z, errno⟩) ∧
      (¬ p.ty.Has z → ∃ e, p.run (some s) (some a) m errno = some ⟨-1, m, e⟩) := by
  have hz : p.Takes s z := by
    rcases A with ⟨hs, hz⟩ | ⟨N, -⟩
    · exact Or.inl ⟨List.mem_singleton.mp hs, hz⟩
    · exact Or.inr N
  rcases p.run_cases s a m errno with ⟨z', hz', hhas', hrun⟩ | ⟨hnone, hrun⟩
  · rw [hz'.unique hz] at hhas' hrun
    exact ⟨fun _ => hrun, fun hnot => absurd hhas' hnot⟩
  · exact ⟨fun hhas => absurd hhas (hnone z hz), fun _ => hrun⟩

/-- What is no number of 64 bits is refused by a parser of a fixed width. -/
theorem FixedParser.run_of_refused {p : FixedParser} {s : CStr} (hrange : ∀ z, p.ty.Has z → lo ≤ z ∧ z < hi)
    (hnone : ∀ z, ¬ Accepted p.base p.ty.signed lo hi [[]] s.chars z) (a : Nat) (m : Memory) (errno : Int) :
    ∃ e, p.run (some s) (some a) m errno = some ⟨-1, m, e⟩ := by
  rcases p.run_cases s a m errno with ⟨z, hz, hhas, -⟩ | ⟨-, hrun⟩
  · rcases hz with ⟨hs, hz⟩ | N
    · exact absurd (Or.inl ⟨List.mem_singleton.mpr hs, hz⟩) (hnone z)
    · exact absurd (Or.inr ⟨N, hrange z hhas⟩) (hnone z)
  · exact hrun

end Pointer

namespace IntParser

/-- Where both refuse, they agree. -/
theorem Agrees.of_refused {p : IntParser} {s : CStr}
    (hrun : ∀ a m errno, ∃ e, p.run (some s) (some a) m errno = some ⟨-1, m, e⟩)
    (hsibling : ∀ a m errno, ∃ e, p.sibling.run (some s) (some a) m errno = some ⟨-1, m, e⟩) : p.Agrees s := by
  intro a m errno
  obtain ⟨e, hout⟩ := hrun a m errno
  obtain ⟨e', hout'⟩ := hsibling a m errno
  exact ⟨_, _, hout, hout', rfl, fun _ => rfl, fun i _ => ⟨rfl, rfl⟩⟩

/-- `lz_string2int` writes eight bytes. -/
theorem int_agrees_iff (s : CStr) : int.Agrees s ↔ ¬ int.TellsApart s := by
  have happart : int.TellsApart s ↔ ∃ z, Accepted 0 true (-2 ^ 63) (2 ^ 63) [[]] s.chars z := by
    constructor
    · intro h
      rcases h with hs | ⟨z, N⟩
      · exact ⟨0, Or.inl ⟨List.mem_singleton.mpr hs, rfl⟩⟩
      · exact ⟨z, Or.inr N⟩
    · intro h
      obtain ⟨z, ⟨hs, -⟩ | N⟩ := h
      · exact Or.inl (List.mem_singleton.mp hs)
      · exact Or.inr ⟨z, N⟩
  rw [happart]
  constructor
  · intro hagree h
    obtain ⟨z, A⟩ := h
    -- the byte behind the variable held another value
    obtain ⟨out, out', hout, -, -, -, houtside⟩ := hagree 0 (fun _ => (longT.encode z / 256 ^ 4).toUInt8 + 1) 0
    have hrun := throughPointer_of_accepted (Or.inl rfl) (strtoll_reads 0 true) A longT id 0
      (fun _ => (longT.encode z / 256 ^ 4).toUInt8 + 1) 0
    rw [show int.run (some s) (some 0) _ 0 = _ from hrun] at hout
    cases hout
    have hbyte := (houtside 4 (Or.inr (Nat.le_refl _))).1
    have hstored := Memory.store_inside (fun _ => (longT.encode z / 256 ^ 4).toUInt8 + 1) longT 0 z (show 4 < 8 by decide)
    rw [Nat.zero_add] at hstored
    exact byte_ne_succ _ (hstored.symm.trans hbyte)
  · intro hnot
    have hnone : ∀ z, ¬ Accepted 0 true (-2 ^ 63) (2 ^ 63) [[]] s.chars z := fun z A => hnot ⟨z, A⟩
    apply Agrees.of_refused
    · intro a m errno
      exact throughPointer_of_refused (Or.inl rfl) (strtoll_reads 0 true) hnone longT id a m errno
    · intro a m errno
      apply FixedParser.run_of_refused (p := .int32) _ hnone
      intro z hhas
      have hmin : 2 * (-2 ^ 31 : Int) = -256 ^ 4 := rfl
      have hmax : 2 * ((2 ^ 31 - 1 : Int) + 1) = 256 ^ 4 := rfl
      exact (FixedParser.range_signed hmin hmax (by decide) z).2 hhas

/-- `lz_string2uint` and its sibling of base 10 keep the low 32 bits. -/
theorem uint_agrees_iff {p : IntParser} {strto : Bytes → Parsed} {b : Nat} (hb : b = 0 ∨ b = 10)
    (R : ReadsBetween b false 0 (2 ^ 64) strto)
    (hrun : p.run = throughPointer uintT (readNumber (!false) strto [[]] (· % 2 ^ 32)))
    (hbase : p.sibling.base = b) (hty : p.sibling.ty = uintT) (s : CStr) :
    p.Agrees s ↔ ¬ ∃ z, Number b false [[]] s.chars z ∧ 2 ^ 32 ≤ z ∧ z < 2 ^ 64 := by
  have hhas : ∀ z : Int, p.sibling.ty.Has z ↔ 0 ≤ z ∧ z < 2 ^ 32 := by
    intro z
    rw [hty]
    show (CInt.mk 4 false).Has z ↔ _
    rw [CInt.has_unsigned]
    rfl
  have hsigned : p.sibling.ty.signed = false := by rw [hty]; rfl
  constructor
  · intro hagree h
    -- the generic parser accepts `z`, the one of 32 bits does not
    obtain ⟨z, N, hlarge, hfits⟩ := h
    have A : Accepted b false 0 (2 ^ 64) [[]] s.chars z := Or.inr ⟨N, by omega, hfits⟩
    obtain ⟨out, out', hout, hout', hret, -⟩ := hagree 0 (fun _ => 0) 0
    have hgeneric := throughPointer_of_accepted hb R A uintT (· % 2 ^ 32) 0 (fun _ => 0) 0
    rw [hrun, hgeneric] at hout
    have A' : Accepted p.sibling.base p.sibling.ty.signed 0 (2 ^ 64) [[]] s.chars z := by
      rw [hbase, hsigned]
      exact A
    obtain ⟨e, hrefused⟩ := (FixedParser.run_of_accepted A' 0 (fun _ => 0) 0).2 (by rw [hhas]; omega)
    rw [hrefused] at hout'
    cases hout
    cases hout'
    exact absurd hret (show (0 : Int) ≠ -1 by decide)
  · intro hnot
    by_cases h : ∃ z, Accepted b false 0 (2 ^ 64) [[]] s.chars z
    · obtain ⟨z, A⟩ := h
      -- what is accepted fits, so that nothing is cut off
      have hsmall : 0 ≤ z ∧ z < 2 ^ 32 := by
        rcases A with ⟨-, rfl⟩ | ⟨N, hpos, hfits⟩
        · decide
        · by_contra hlarge
          exact hnot ⟨z, N, by omega, hfits⟩
      have A' : Accepted p.sibling.base p.sibling.ty.signed 0 (2 ^ 64) [[]] s.chars z := by
        rw [hbase, hsigned]
        exact A
      intro a m errno
      have hgeneric := throughPointer_of_accepted hb R A uintT (· % 2 ^ 32) a m errno
      have hfixed := (FixedParser.run_of_accepted A' a m errno).1 ((hhas z).mpr hsmall)
      rw [Int.emod_eq_of_lt hsmall.1 hsmall.2] at hgeneric
      rw [hty] at hfixed
      refine ⟨_, _, by rw [hrun]; exact hgeneric, hfixed, rfl, fun _ => rfl, fun i hi => ?_⟩
      have houtside := m.store_outside uintT a z hi
      exact ⟨houtside, houtside⟩
    · have hnone : ∀ z, ¬ Accepted b false 0 (2 ^ 64) [[]] s.chars z := fun z A => h ⟨z, A⟩
      apply Agrees.of_refused
      · intro a m errno
        rw [hrun]
        exact throughPointer_of_refused hb R hnone uintT _ a m errno
      · intro a m errno
        have hrange : ∀ z, p.sibling.ty.Has z → 0 ≤ z ∧ z < 2 ^ 64 := by
          intro z hz
          have hsmall := (hhas z).mp hz
          omega
        apply FixedParser.run_of_refused hrange
        rw [hbase, hsigned]
        exact hnone

/-- **Which strings do not tell the parsers of one width apart.** -/
theorem agrees_iff (p : IntParser) (s : CStr) : p.Agrees s ↔ ¬ p.TellsApart s := by
  cases p with
  | int => exact int_agrees_iff s
  | uint => exact uint_agrees_iff (Or.inl rfl) (strtoull_reads 0) rfl rfl rfl s
  | uintBase10 => exact uint_agrees_iff (Or.inr rfl) (strtoull_reads 10) rfl rfl rfl s

/-- `"1"` through `lz_string2int` overwrites the byte behind the variable, and
`"4294967296"` is 0 for `lz_string2uint` and refused by its sibling. -/
theorem agrees_wrong :
    ∃ one large : CStr, one.chars = [49] ∧ large.chars = [52, 50, 57, 52, 57, 54, 55, 50, 57, 54] ∧
      (lzString2int (some one) (some 0) (fun _ => 255) 0).map (fun out => (out.ret, out.mem 4)) = some (0, 0) ∧
      (lzString2uint (some large) (some 0) (fun _ => 255) 0).map (fun out => (out.ret, out.mem.value uintT 0))
        = some (0, 0) ∧
      (lzString2uint32 (some large) (some 0) (fun _ => 255) 0).map (fun out => out.ret) = some (-1) ∧
      ¬ int.Agrees one ∧ ¬ uint.Agrees large ∧ ¬ uintBase10.Agrees large := by
  have hnumber : ∀ b, b = 0 ∨ b = 10 → Number b false [[]] [52, 50, 57, 52, 57, 54, 55, 50, 57, 54] 4294967296 := by
    intro b hb
    apply (number_iff hb (tails_end hb)).mpr
    refine ⟨⟨false, 4294967296, []⟩, ?_, fun h => absurd h (by decide), List.mem_singleton_self _, rfl⟩
    rcases hb with rfl | rfl <;> decide +kernel
  have hone : Number 0 true [[]] [49] 1 := by
    apply (number_iff (Or.inl rfl) (tails_end (Or.inl rfl))).mpr
    exact ⟨⟨false, 1, []⟩, by decide +kernel, fun _ => rfl, List.mem_singleton_self _, rfl⟩
  refine ⟨⟨[49], by decide⟩, ⟨[52, 50, 57, 52, 57, 54, 55, 50, 57, 54], by decide⟩, rfl, rfl, by decide +kernel,
    by decide +kernel, by decide +kernel, ?_, ?_, ?_⟩
  · intro hagree
    exact (int_agrees_iff _).mp hagree (Or.inr ⟨1, hone, by decide, by decide⟩)
  · intro hagree
    exact (uint_agrees_iff (Or.inl rfl) (strtoull_reads 0) rfl rfl rfl _).mp hagree
      ⟨4294967296, hnumber 0 (Or.inl rfl), by decide, by decide⟩
  · intro hagree
    exact (uint_agrees_iff (Or.inr rfl) (strtoull_reads 10) rfl rfl rfl _).mp hagree
      ⟨4294967296, hnumber 10 (Or.inr rfl), by decide, by decide⟩

end IntParser

/-- `" +0x7f"` and `"128"`, as an `int8_t`. -/
example : (lzString2int8 (some ⟨[32, 43, 48, 120, 55, 102], by decide⟩) (some 4) (fun _ => 0) 3).map
      (fun out => (out.ret, out.mem.value ⟨1, true⟩ 4, out.errno)) = some (0, 127, 3) ∧
    (lzString2int8 (some ⟨[49, 50, 56], by decide⟩) (some 4) (fun _ => 9) 3).map
      (fun out => (out.ret, out.mem.value ⟨1, true⟩ 4, out.errno)) = some (-1, 9, erange) := by
  decide +kernel

end LzLib.CommonUtils
