/-
  LzLib.Foundation.Numerals
  ─────────────────────────
  **NUMBERS AS TEXT, WRITTEN AND READ AS C DOES.**

  `numeral b n` are the digits of `n`, `intText z` is what `%d` and its kin
  print.  `scanInt` is what the `strto*` functions read in the C locale: white
  space, a sign, a prefix that may choose the base, and digits; `strtoll` and
  `strtoull` clamp or wrap the number found, in 64 bits, and say so by `ERANGE`.

  The bridge is `readDigits_numeral`: reading the digits of a number, whatever
  follows, is having read that number.  `hex8` and `scanfHex` are the fields of
  eight hexadecimal digits that `printf` writes and `scanf` reads.
-/
import LzLib.Foundation.Words
import Mathlib.Algebra.Group.Int.Defs
import Mathlib.Algebra.Group.Nat.Defs

namespace LzLib.Foundation

/-! ## §1. Digits. -/

/-- An ASCII character as a byte. -/
def charByte (c : Char) : UInt8 := c.toNat.toUInt8

/-- The digits of `n` in base `b`, the most significant first. -/
def numeral (b n : Nat) : Bytes := (Nat.toDigits b n).map charByte

/-- One digit, lower case. -/
def digitByte (d : Nat) : UInt8 := charByte (Nat.digitChar d)

/-- The value of a digit of any base up to 36; 36 for other characters. -/
def digitVal (c : UInt8) : Nat :=
  if 48 ≤ c ∧ c ≤ 57 then c.toNat - 48
  else if 97 ≤ c ∧ c ≤ 122 then c.toNat - 87
  else if 65 ≤ c ∧ c ≤ 90 then c.toNat - 55
  else 36

theorem digitVal_digitByte {d : Nat} (h : d < 16) : digitVal (digitByte d) = d := by
  interval_cases d <;> rfl

theorem numeral_small {b n : Nat} (h : n < b) : numeral b n = [digitByte n] := by
  unfold numeral
  rw [Nat.toDigits_of_lt_base h]
  rfl

theorem numeral_step {b n : Nat} (hb : 1 < b) (h : b ≤ n) :
    numeral b n = numeral b (n / b) ++ [digitByte (n % b)] := by
  unfold numeral
  rw [Nat.toDigits_of_base_le hb h, List.map_append]
  rfl

/-- **Induction on the digits of a number**, from its front. -/
theorem numeral_induction {b : Nat} (hb : 1 < b) {P : Nat → Prop} (hsmall : ∀ n, n < b → P n)
    (hstep : ∀ n, b ≤ n → P (n / b) → P n) (n : Nat) : P n := by
  induction n using Nat.strong_induction_on with
  | _ n ih =>
      by_cases h : n < b
      · exact hsmall n h
      · have hle : b ≤ n := by omega
        exact hstep n hle (ih (n / b) (Nat.div_lt_self (by omega) hb))

/-- A number below `b ^ k` has at most `k` digits. -/
theorem numeral_length_le {b : Nat} (hb : 1 < b) (n : Nat) :
    ∀ k, 0 < k → n < b ^ k → (numeral b n).length ≤ k := by
  induction n using numeral_induction hb with
  | hsmall n h =>
      intro k hk _
      rw [numeral_small h]
      exact hk
  | hstep n h ih =>
      intro k hk hlt
      obtain ⟨j, rfl⟩ : ∃ j, k = j + 1 := ⟨k - 1, by omega⟩
      have hj : 0 < j := by
        rcases Nat.eq_zero_or_pos j with rfl | hpos
        · rw [Nat.zero_add, Nat.pow_one] at hlt
          omega
        · exact hpos
      have hdiv : n / b < b ^ j := by
        rw [Nat.div_lt_iff_lt_mul (by omega), ← Nat.pow_succ]
        exact hlt
      rw [numeral_step hb h, List.length_append]
      have hrest := ih j hj hdiv
      show _ + 1 ≤ j + 1
      omega

/-- Every character of a numeral is a digit of its base. -/
theorem numeral_digits {b : Nat} (hb : 1 < b) (hle : b ≤ 16) (n : Nat) :
    ∀ c ∈ numeral b n, digitVal c < b := by
  induction n using numeral_induction hb with
  | hsmall n h =>
      intro c hc
      rw [numeral_small h, List.mem_singleton] at hc
      rw [hc, digitVal_digitByte (by omega)]
      exact h
  | hstep n h ih =>
      intro c hc
      rw [numeral_step hb h, List.mem_append, List.mem_singleton] at hc
      have hmod := Nat.mod_lt n (show b > 0 by omega)
      rcases hc with hc | hc
      · exact ih c hc
      · rw [hc, digitVal_digitByte (by omega)]
        exact hmod

/-- A positive number does not start with the digit zero. -/
theorem numeral_head {b : Nat} (hb : 1 < b) (hle : b ≤ 16) (n : Nat) :
    0 < n → ∃ c cs, numeral b n = c :: cs ∧ 0 < digitVal c := by
  induction n using numeral_induction hb with
  | hsmall n h =>
      intro hpos
      refine ⟨digitByte n, [], numeral_small h, ?_⟩
      rw [digitVal_digitByte (by omega)]
      exact hpos
  | hstep n h ih =>
      intro _
      obtain ⟨c, cs, hcs, hc⟩ := ih (Nat.div_pos h (by omega))
      refine ⟨c, cs ++ [digitByte (n % b)], ?_, hc⟩
      rw [numeral_step hb h, hcs]
      rfl

/-! ## §2. Reading digits. -/

/-- The number that the digits in front make, after `acc`, and what follows. -/
def readDigits (b : Nat) : Nat → Bytes → Nat × Bytes
  | acc, [] => (acc, [])
  | acc, c :: cs => if digitVal c < b then readDigits b (acc * b + digitVal c) cs else (acc, c :: cs)

/-- No digit in front. -/
def NoDigit (b : Nat) (s : Bytes) : Prop := ∀ c ∈ s.head?, b ≤ digitVal c

theorem readDigits_stop {b : Nat} (acc : Nat) {s : Bytes} (h : NoDigit b s) : readDigits b acc s = (acc, s) := by
  cases s with
  | nil => rfl
  | cons c cs =>
      have hc : b ≤ digitVal c := h c rfl
      unfold readDigits
      rw [if_neg (by omega)]

/-- **Reading back the digits of a number.** -/
theorem readDigits_numeral {b : Nat} (hb : 1 < b) (hle : b ≤ 16) (n : Nat) :
    ∀ rest, readDigits b 0 (numeral b n ++ rest) = readDigits b n rest := by
  induction n using numeral_induction hb with
  | hsmall n h =>
      intro rest
      rw [numeral_small h]
      show readDigits b 0 (digitByte n :: rest) = _
      rw [readDigits, digitVal_digitByte (by omega), if_pos h, Nat.zero_mul, Nat.zero_add]
  | hstep n h ih =>
      intro rest
      have hmod := Nat.mod_lt n (show b > 0 by omega)
      have hdiv : n / b * b + n % b = n := Nat.div_add_mod' n b
      rw [numeral_step hb h, List.append_assoc, ih]
      show readDigits b (n / b) (digitByte (n % b) :: rest) = _
      rw [readDigits, digitVal_digitByte (by omega), if_pos hmod, hdiv]

/-- Zeros in front do not count. -/
theorem readDigits_zeros {b : Nat} (hb : 1 < b) (k : Nat) (s : Bytes) :
    readDigits b 0 (List.replicate k 48 ++ s) = readDigits b 0 s := by
  induction k with
  | zero => rfl
  | succ k ih =>
      rw [List.replicate_succ, List.cons_append, readDigits]
      have hzero : digitVal 48 = 0 := rfl
      rw [hzero, if_pos (by omega), Nat.zero_mul, Nat.add_zero]
      exact ih

/-! ## §3. What the `strto*` functions find. -/

/-- `isspace` in the C locale. -/
def isSpace (c : UInt8) : Bool := c = 32 || (9 ≤ c && c ≤ 13)

/-- A sign, and what follows. -/
def readSign : Bytes → Bool × Bytes
  | [] => (false, [])
  | c :: cs => if c = 45 then (true, cs) else if c = 43 then (false, cs) else (false, c :: cs)

/-- `0x` or `0X`, and a hexadecimal digit behind it. -/
def hexPrefix : Bytes → Bool
  | 48 :: x :: c :: _ => (x = 120 || x = 88) && digitVal c < 16
  | _ => false

/-- The base, which `0` leaves to the text, and the digits. -/
def readBase (base : Nat) (s : Bytes) : Nat × Bytes :=
  if (base = 0 ∨ base = 16) ∧ hexPrefix s then (16, s.drop 2)
  else if base ≠ 0 then (base, s)
  else if s.head? = some 48 then (8, s)
  else (10, s)

/-- A number that has been found, and the text behind it. -/
structure Scanned where
  negative : Bool
  magnitude : Nat
  rest : Bytes
  deriving DecidableEq

/-- The number with its sign. -/
def Scanned.value (n : Scanned) : Int := if n.negative then -(n.magnitude : Int) else n.magnitude

/-- The number in front of a text; `none` without a digit. -/
def scanInt (base : Nat) (s : Bytes) : Option Scanned :=
  let signed := readSign (s.dropWhile isSpace)
  let based := readBase base signed.2
  match based.2 with
  | [] => none
  | c :: cs =>
      if digitVal c < based.1 then
        let read := readDigits based.1 0 (c :: cs)
        some ⟨signed.1, read.1, read.2⟩
      else none

/-- What a `strto*` function returns, where it leaves `endptr`, and whether it
sets `errno` to `ERANGE`. -/
structure Parsed where
  value : Int
  endptr : Bytes
  erange : Bool
  deriving DecidableEq

/-- `strtoll`: clamped. -/
def strtoll (base : Nat) (s : Bytes) : Parsed :=
  match scanInt base s with
  | none => ⟨0, s, false⟩
  | some n =>
      if n.value < -2 ^ 63 then ⟨-2 ^ 63, n.rest, true⟩
      else if 2 ^ 63 ≤ n.value then ⟨2 ^ 63 - 1, n.rest, true⟩
      else ⟨n.value, n.rest, false⟩

/-- `strtoull`: the magnitude is clamped, the negation of a smaller one wraps. -/
def strtoull (base : Nat) (s : Bytes) : Parsed :=
  match scanInt base s with
  | none => ⟨0, s, false⟩
  | some n =>
      if 2 ^ 64 ≤ n.magnitude then ⟨2 ^ 64 - 1, n.rest, true⟩
      else ⟨n.value % 2 ^ 64, n.rest, false⟩

/-- `strtol`, where `long` has 64 bits. -/
abbrev strtol := strtoll

/-- `strtoul`, where `long` has 64 bits. -/
abbrev strtoul := strtoull

/-! ## §4. Reading back. -/

/-- What `%d` and its kin print. -/
def intText (z : Int) : Bytes := if z < 0 then 45 :: numeral 10 z.natAbs else numeral 10 z.natAbs

/-- A digit is no white space and no sign. -/
theorem digit_plain {c : UInt8} (h : digitVal c < 36) : isSpace c = false ∧ c ≠ 45 ∧ c ≠ 43 := by
  have hall : ∀ c : UInt8, digitVal c < 36 → isSpace c = false ∧ c ≠ 45 ∧ c ≠ 43 := by
    intro c
    obtain ⟨c⟩ := c
    revert c
    decide +kernel
  exact hall c h

/-- The digits of a number are not mistaken for white space, sign or prefix. -/
theorem readSign_digit {c : UInt8} {cs : Bytes} (h : digitVal c < 36) :
    readSign ((c :: cs).dropWhile isSpace) = (false, c :: cs) := by
  obtain ⟨hspace, hminus, hplus⟩ := digit_plain h
  rw [List.dropWhile_cons_of_neg (by simp [hspace])]
  rw [readSign, if_neg hminus, if_neg hplus]

/-- The base of a decimal text. -/
theorem readBase_ten {base : Nat} (hbase : base = 10 ∨ base = 0) {c : UInt8} {cs : Bytes} (hc : 0 < digitVal c) :
    readBase base (c :: cs) = (10, c :: cs) := by
  have hne : c ≠ 48 := by
    rintro rfl
    exact absurd hc (by decide)
  have hhex : hexPrefix (c :: cs) = false := by
    unfold hexPrefix
    split
    next heq =>
      cases heq
      exact absurd rfl hne
    · rfl
  unfold readBase
  rw [hhex, if_neg (by simp)]
  rcases hbase with rfl | rfl
  · rfl
  · rw [if_neg (by simp), if_neg (by simpa using hne)]

/-- The text ends here, or its C string does. -/
def Ended (s : Bytes) : Prop := ∀ c ∈ s.head?, c = 0

theorem Ended.noDigit {b : Nat} {s : Bytes} (h : Ended s) (hb : b ≤ 36) : NoDigit b s := by
  intro c hc
  rw [h c hc]
  exact hb

/-- `0` alone is read in base 8 or 10. -/
theorem readBase_zero {base : Nat} (hbase : base = 10 ∨ base = 0) {rest : Bytes} (h : Ended rest) :
    ∃ b, readBase base (48 :: rest) = (b, 48 :: rest) ∧ 0 < b ∧ b ≤ 10 := by
  have hhex : hexPrefix (48 :: rest) = false := by
    unfold hexPrefix
    split
    next x c cs heq =>
      rw [List.cons_eq_cons] at heq
      have hx : x = 0 := h x (by rw [heq.2]; rfl)
      rw [hx]
      rfl
    · rfl
  unfold readBase
  rw [hhex, if_neg (by simp)]
  rcases hbase with rfl | rfl
  · exact ⟨10, rfl, by decide, by decide⟩
  · exact ⟨8, rfl, by decide, by decide⟩

/-- The digits of a number, read for `strto*` with the base 10 or a free base. -/
theorem readBase_numeral {base : Nat} (hbase : base = 10 ∨ base = 0) (n : Nat) {rest : Bytes} (h : Ended rest) :
    ∃ b c cs, readBase base (c :: cs) = (b, c :: cs) ∧ numeral 10 n ++ rest = c :: cs ∧
      digitVal c < b ∧ b ≤ 10 ∧ readDigits b 0 (c :: cs) = (n, rest) := by
  rcases Nat.eq_zero_or_pos n with rfl | hpos
  · obtain ⟨b, hread, hb, hle⟩ := readBase_zero hbase h
    refine ⟨b, 48, rest, hread, rfl, hb, hle, ?_⟩
    have hdigits := readDigits_stop 0 (h.noDigit (b := b) (by omega))
    have hzero : digitVal 48 = 0 := rfl
    rw [readDigits, hzero, if_pos hb, Nat.zero_mul]
    exact hdigits
  · obtain ⟨c, cs, hcs, hc⟩ := numeral_head (b := 10) (by decide) (by decide) n hpos
    have hdigit : digitVal c < 10 := by
      refine numeral_digits (b := 10) (by decide) (by decide) n c ?_
      rw [hcs]
      exact List.mem_cons_self
    refine ⟨10, c, cs ++ rest, readBase_ten hbase hc, ?_, hdigit, Nat.le_refl _, ?_⟩
    · rw [hcs]
      rfl
    · have hdigits := readDigits_numeral (b := 10) (by decide) (by decide) n rest
      rw [hcs, readDigits_stop n (h.noDigit (by decide))] at hdigits
      exact hdigits

/-- **The text of an integer is read as that integer.** -/
theorem scanInt_intText {base : Nat} (hbase : base = 10 ∨ base = 0) (z : Int) {rest : Bytes} (h : Ended rest) :
    scanInt base (intText z ++ rest) = some ⟨decide (z < 0), z.natAbs, rest⟩ := by
  obtain ⟨b, c, cs, hread, hcs, hc, hle, hdigits⟩ := readBase_numeral hbase z.natAbs h
  have hsign : readSign ((intText z ++ rest).dropWhile isSpace) = (decide (z < 0), c :: cs) := by
    unfold intText
    by_cases hneg : z < 0
    · rw [if_pos hneg, List.cons_append, hcs]
      show (true, c :: cs) = _
      rw [decide_eq_true hneg]
    · rw [if_neg hneg, hcs, readSign_digit (by omega), decide_eq_false hneg]
  unfold scanInt
  simp only [hsign, hread, if_pos hc, hdigits]

theorem scanned_value (z : Int) (rest : Bytes) : (Scanned.mk (decide (z < 0)) z.natAbs rest).value = z := by
  unfold Scanned.value
  by_cases hneg : z < 0
  · simp only [decide_eq_true hneg, if_true]
    omega
  · simp only [decide_eq_false hneg, Bool.false_eq_true, if_false]
    omega

/-- `strtoll` of the text of an integer. -/
theorem strtoll_intText {base : Nat} (hbase : base = 10 ∨ base = 0) (z : Int) {rest : Bytes} (h : Ended rest) :
    strtoll base (intText z ++ rest)
      = if z < -2 ^ 63 then ⟨-2 ^ 63, rest, true⟩
        else if 2 ^ 63 ≤ z then ⟨2 ^ 63 - 1, rest, true⟩ else ⟨z, rest, false⟩ := by
  unfold strtoll
  simp only [scanInt_intText hbase z h, scanned_value]

/-- `strtoull` of the text of an integer. -/
theorem strtoull_intText {base : Nat} (hbase : base = 10 ∨ base = 0) (z : Int) {rest : Bytes} (h : Ended rest) :
    strtoull base (intText z ++ rest)
      = if 2 ^ 64 ≤ z.natAbs then ⟨2 ^ 64 - 1, rest, true⟩ else ⟨z % 2 ^ 64, rest, false⟩ := by
  unfold strtoull
  simp only [scanInt_intText hbase z h, scanned_value]

/-! ## §5. Lean's own decimal text. -/

theorem utf8EncodeChar_digitChar {d : Nat} (h : d < 10) : String.utf8EncodeChar (Nat.digitChar d) = [digitByte d] := by
  interval_cases d <;> rfl

/-- The characters of a decimal numeral take one byte each. -/
theorem flatMap_utf8_toDigits (n : Nat) : (Nat.toDigits 10 n).flatMap String.utf8EncodeChar = numeral 10 n := by
  induction n using numeral_induction (b := 10) (by decide) with
  | hsmall n h =>
      rw [Nat.toDigits_of_lt_base h, numeral_small h, List.flatMap_singleton, utf8EncodeChar_digitChar h]
  | hstep n h ih =>
      have hmod := Nat.mod_lt n (show 10 > 0 by decide)
      rw [Nat.toDigits_of_base_le (by decide) h, numeral_step (by decide) h, List.flatMap_append, ih,
        List.flatMap_singleton, utf8EncodeChar_digitChar hmod]

/-- The bytes of an array, listed from byte `i` on. -/
theorem toList_loop (bs : ByteArray) (i : Nat) (acc : Bytes) :
    ByteArray.toList.loop bs i acc = acc.reverse ++ bs.data.toList.drop i := by
  rw [ByteArray.toList.loop]
  split
  next h =>
    have hlt : i < bs.data.toList.length := h
    have hget : bs.get! i = bs.data.toList[i] := by
      show bs.data[i]! = _
      rw [getElem!_pos bs.data i h]
      rfl
    rw [toList_loop bs (i + 1), hget, List.drop_eq_getElem_cons hlt, List.reverse_cons, List.append_assoc]
    rfl
  next h =>
    have hge : bs.data.toList.length ≤ i := Nat.le_of_not_lt h
    rw [List.drop_eq_nil_of_le hge, List.append_nil]
termination_by bs.size - i

theorem toList_eq (bs : ByteArray) : bs.toList = bs.data.toList := by
  unfold ByteArray.toList
  rw [toList_loop]
  rfl

theorem repr_bytes (n : Nat) : n.repr.toUTF8.toList = numeral 10 n := by
  show (String.ofList (Nat.toDigits 10 n)).toByteArray.toList = _
  rw [toList_eq, String.toByteArray_ofList, List.utf8Encode, List.toList_data_toByteArray]
  exact flatMap_utf8_toDigits n

/-- **`toString` prints an integer as `%d` does.** -/
theorem toString_bytes (z : Int) : (toString z).toUTF8.toList = intText z := by
  cases z with
  | ofNat n =>
      have hneg : ¬ (Int.ofNat n < 0) := Int.not_lt.mpr (Int.natCast_nonneg n)
      unfold intText
      rw [if_neg hneg]
      exact repr_bytes n
  | negSucc n =>
      have hneg : Int.negSucc n < 0 := by omega
      have hrepr : n.succ.repr.toByteArray.data.toList = numeral 10 n.succ := by
        rw [← toList_eq]
        exact repr_bytes n.succ
      unfold intText
      rw [if_pos hneg]
      show ("-" ++ n.succ.repr).toByteArray.toList = _
      rw [toList_eq, String.toByteArray_append, ByteArray.toList_data_append, hrepr]
      rfl

/-! ## §6. Hexadecimal fields. -/

/-- What `%08lx` prints: eight digits at least, with zeros in front. -/
def hex8 (n : Nat) : Bytes := List.replicate (8 - (numeral 16 n).length) 48 ++ numeral 16 n

theorem hex8_length {n : Nat} (h : n < 16 ^ 8) : (hex8 n).length = 8 := by
  have hlen := numeral_length_le (b := 16) (by decide) n 8 (by decide) h
  unfold hex8
  rw [List.length_append, List.length_replicate]
  omega

theorem hex8_digits (n : Nat) : ∀ c ∈ hex8 n, digitVal c < 16 := by
  intro c hc
  rcases List.mem_append.mp hc with hc | hc
  · rw [List.eq_of_mem_replicate hc]
    decide
  · exact numeral_digits (by decide) (by decide) n c hc

/-- There are two digits in front. -/
theorem hex8_front (n : Nat) : ∃ c d cs, hex8 n = c :: d :: cs ∧ digitVal c < 16 ∧ digitVal d < 16 := by
  have hall := hex8_digits n
  have hlen : 8 ≤ (hex8 n).length := by
    unfold hex8
    rw [List.length_append, List.length_replicate]
    omega
  cases hcs : hex8 n with
  | nil =>
      rw [hcs] at hlen
      exact absurd hlen (by decide)
  | cons c cs =>
      cases cs with
      | nil =>
          rw [hcs] at hlen
          exact absurd hlen (by simp)
      | cons d cs =>
          rw [hcs] at hall
          exact ⟨c, d, cs, rfl, hall c List.mem_cons_self, hall d (List.mem_cons_of_mem c List.mem_cons_self)⟩

theorem readDigits_hex8 (n : Nat) {rest : Bytes} (h : NoDigit 16 rest) :
    readDigits 16 0 (hex8 n ++ rest) = (n, rest) := by
  unfold hex8
  rw [List.append_assoc, readDigits_zeros (by decide), readDigits_numeral (by decide) (by decide), readDigits_stop n h]

/-- What a `%lx` of `sscanf` comes to: the text has ended, there is no number, or
there is one, in 64 bits, and text behind it. -/
inductive Conversion where
  | ended
  | mismatch
  | number (n : Nat) (rest : Bytes)
  deriving DecidableEq

/-- `0x` or `0X` is skipped; digits have to follow it. -/
def skipHexPrefix : Bytes → Bytes
  | c :: x :: cs => if c = 48 ∧ (x = 120 ∨ x = 88) then cs else c :: x :: cs
  | s => s

/-- `%lx` of `sscanf`. -/
def scanfHex (s : Bytes) : Conversion :=
  let s := s.dropWhile isSpace
  if s = [] then .ended
  else
    let signed := readSign s
    match skipHexPrefix signed.2 with
    | [] => .mismatch
    | c :: cs =>
        if digitVal c < 16 then
          let read := readDigits 16 0 (c :: cs)
          .number (if 2 ^ 64 ≤ read.1 then 2 ^ 64 - 1 else if signed.1 then (2 ^ 64 - read.1) % 2 ^ 64 else read.1)
            read.2
        else .mismatch

/-- **A hexadecimal field is read back.** -/
theorem scanfHex_hex8 {n : Nat} (hn : n < 2 ^ 64) {rest : Bytes} (h : NoDigit 16 rest) :
    scanfHex (hex8 n ++ rest) = .number n rest := by
  obtain ⟨c, d, cs, hfront, hc, hd⟩ := hex8_front n
  have hread := readDigits_hex8 n h
  rw [hfront] at hread ⊢
  have hread : readDigits 16 0 (c :: d :: (cs ++ rest)) = (n, rest) := hread
  -- the first digit is no white space and no sign, the second no `x`
  have hsign : readSign ((c :: d :: (cs ++ rest)).dropWhile isSpace) = (false, c :: d :: (cs ++ rest)) :=
    readSign_digit (by omega)
  have hstart : (c :: d :: (cs ++ rest)).dropWhile isSpace = c :: d :: (cs ++ rest) :=
    List.dropWhile_cons_of_neg (by simp [(digit_plain (show digitVal c < 36 by omega)).1])
  have hskipped : skipHexPrefix (c :: d :: (cs ++ rest)) = c :: d :: (cs ++ rest) := by
    apply if_neg
    rintro ⟨-, rfl | rfl⟩
    · exact absurd hd (by decide)
    · exact absurd hd (by decide)
  have hsmall : ¬ 2 ^ 64 ≤ n := Nat.not_le.mpr hn
  show scanfHex (c :: d :: (cs ++ rest)) = _
  unfold scanfHex
  dsimp only
  rw [hstart] at hsign ⊢
  rw [if_neg (List.cons_ne_nil _ _), hsign]
  dsimp only
  rw [hskipped]
  dsimp only
  rw [if_pos hc, hread]
  dsimp only
  rw [if_neg hsmall]
  rfl

end LzLib.Foundation
