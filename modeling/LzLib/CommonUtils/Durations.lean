/-
  LzLib.CommonUtils.Durations
  ───────────────────────────
  **THE VALUES OF DURATIONS AND PERCENTAGES.**

  `lz_string2time` and `lz_string2percent` judge by the tail that `strtol`
  leaves, and assign its value to a `uint32_t`.  A tail alone passes for a
  number, and a value of 33 bits or more loses its upper part; the value of
  every other string is kept: `keeps_value_iff`.
-/
import LzLib.CommonUtils.FixedWidth

namespace LzLib.CommonUtils

open LzLib.Foundation

/-- The parsers of durations and of percentages. -/
inductive MeasureParser where
  | time
  | percent

namespace MeasureParser

/-- The function, for an `n` that is not NULL. -/
def run : MeasureParser → CStr → Int → Reading
  | time, s, errno => lzString2time (some s) (some ()) errno
  | percent, s, errno => lzString2percent (some s) (some ()) errno

/-- What may follow the numeral. -/
def tails : MeasureParser → List Bytes
  | time => timeTails
  | percent => percentTails

/-- **Only a number is accepted, with its value**: white space, a `+` or none, a
numeral in base 0, and one of the tails. -/
def KeepsValue (p : MeasureParser) (s : CStr) : Prop :=
  ∀ errno, (p.run s errno).ret = 0 →
    ∃ z, Number 0 false p.tails s.chars z ∧ (p.run s errno).stored = some z

/-- No tail holds a number, and each ends one. -/
theorem tails_tails (p : MeasureParser) : Tails 0 p.tails := by
  have hstops : ∀ {c : UInt8} {cs : Bytes}, 16 ≤ digitVal c ∧ c ≠ 120 ∧ c ≠ 88 → Stops (c :: cs) := by
    intro c cs h x hx
    cases hx
    exact h
  cases p with
  | time =>
      intro t ht
      simp only [tails, timeTails, List.mem_cons, List.not_mem_nil, or_false] at ht
      rcases ht with rfl | rfl | rfl
      · exact ⟨stops_nil, rfl, rfl⟩
      · exact ⟨hstops (by decide), rfl, rfl⟩
      · exact ⟨hstops (by decide), rfl, rfl⟩
  | percent =>
      intro t ht
      simp only [tails, percentTails, List.mem_cons, List.not_mem_nil, or_false] at ht
      rcases ht with rfl | rfl
      · exact ⟨stops_nil, rfl, rfl⟩
      · exact ⟨hstops (by decide), rfl, rfl⟩

/-- Both are the body of the number parsers, with `strtol`. -/
theorem run_eq (p : MeasureParser) (s : CStr) (errno : Int) :
    p.run s errno = readNumber (!false) (strtol 0) p.tails (· % 2 ^ 32) (some s) (some ()) errno := by
  cases p <;> rfl

variable {p : MeasureParser} {s : CStr}

/-- What is accepted is stored, less its upper bits. -/
theorem run_of_accepted {z : Int} (A : Accepted 0 false (-2 ^ 63) (2 ^ 63) p.tails s.chars z) (errno : Int) :
    p.run s errno = ⟨0, some (z % 2 ^ 32), errno⟩ := by
  rw [run_eq]
  exact readNumber_of_accepted (Or.inl rfl) p.tails_tails (strtoll_reads 0 false) A () _ errno

/-- A number without a `-` is not negative. -/
theorem number_nonneg {tails : List Bytes} {b : Nat} {s : Bytes} {z : Int} (N : Number b false tails s z) : 0 ≤ z := by
  obtain ⟨negative, sign, d, rest, -, hneg, -, -, rfl⟩ := N
  cases negative with
  | true => exact absurd (hneg rfl) Bool.false_ne_true
  | false => exact Int.natCast_nonneg d

/-- A tail alone has no value to keep. -/
theorem KeepsValue.not_tail (hkeeps : p.KeepsValue s) : s.chars ∉ p.tails := by
  intro hs
  have hrun := run_of_accepted (p := p) (Or.inl ⟨hs, rfl⟩ : Accepted 0 false (-2 ^ 63) (2 ^ 63) p.tails s.chars 0) 0
  obtain ⟨z, N, -⟩ := hkeeps 0 (by rw [hrun])
  exact N.not_tail (Or.inl rfl) p.tails_tails hs

/-- What is kept fits. -/
theorem KeepsValue.fits (hkeeps : p.KeepsValue s) {z : Int} (N : Number 0 false p.tails s.chars z) (hz : z < 2 ^ 63) :
    z < 2 ^ 32 := by
  have hnonneg := number_nonneg N
  have hrun := run_of_accepted (p := p) (Or.inr ⟨N, by omega, hz⟩) 0
  obtain ⟨z', N', hstored⟩ := hkeeps 0 (by rw [hrun])
  rw [hrun, N'.unique (Or.inl rfl) p.tails_tails N] at hstored
  have hvalue : z % 2 ^ 32 = z := Option.some.inj hstored
  omega

/-- **Which values are kept**: not that of a tail alone, and no value of 33 to 63 bits. -/
theorem keeps_value_iff (p : MeasureParser) (s : CStr) :
    p.KeepsValue s ↔ s.chars ∉ p.tails ∧ ∀ z, Number 0 false p.tails s.chars z → z < 2 ^ 63 → z < 2 ^ 32 := by
  constructor
  · intro hkeeps
    exact ⟨hkeeps.not_tail, fun z N hz => hkeeps.fits N hz⟩
  · intro hcond errno hret
    obtain ⟨hs, hfits⟩ := hcond
    by_cases h : ∃ z, Accepted 0 false (-2 ^ 63) (2 ^ 63) p.tails s.chars z
    · obtain ⟨z, A⟩ := h
      rw [run_of_accepted A errno]
      rcases A with ⟨htail, -⟩ | ⟨N, -, hz⟩
      · exact absurd htail hs
      · have hnonneg := number_nonneg N
        refine ⟨z, N, ?_⟩
        show some (z % 2 ^ 32) = some z
        rw [Int.emod_eq_of_lt hnonneg (hfits z N hz)]
    · obtain ⟨e, hread⟩ := readNumber_of_refused (Or.inl rfl) p.tails_tails (strtoll_reads 0 false)
        (fun z A => h ⟨z, A⟩) () (· % 2 ^ 32) errno
      rw [run_eq, hread] at hret
      exact absurd hret (show (-1 : Int) ≠ 0 by decide)

/-- `"sec"` and `"%"` are 0, and `2 ^ 32` seconds are 0 too. -/
theorem keeps_value_wrong :
    ∃ sec percentSign large : CStr, sec.chars = [115, 101, 99] ∧ percentSign.chars = [37] ∧
      large.chars = [52, 50, 57, 52, 57, 54, 55, 50, 57, 54] ∧
      lzString2time (some sec) (some ()) 0 = ⟨0, some 0, 0⟩ ∧
      lzString2percent (some percentSign) (some ()) 0 = ⟨0, some 0, 0⟩ ∧
      lzString2time (some large) (some ()) 0 = ⟨0, some 0, 0⟩ ∧
      ¬ time.KeepsValue sec ∧ ¬ percent.KeepsValue percentSign ∧ ¬ time.KeepsValue large ∧
      ¬ percent.KeepsValue large := by
  have hnumber : ∀ p : MeasureParser, Number 0 false p.tails [52, 50, 57, 52, 57, 54, 55, 50, 57, 54] 4294967296 := by
    intro p
    apply (number_iff (Or.inl rfl) p.tails_tails).mpr
    refine ⟨⟨false, 4294967296, []⟩, by decide +kernel, fun h => absurd h (by decide), ?_, rfl⟩
    cases p <;> exact List.mem_cons_self
  refine ⟨⟨[115, 101, 99], by decide⟩, ⟨[37], by decide⟩, ⟨[52, 50, 57, 52, 57, 54, 55, 50, 57, 54], by decide⟩,
    rfl, rfl, rfl, by decide +kernel, by decide +kernel, by decide +kernel, ?_, ?_, ?_, ?_⟩
  · intro hkeeps
    exact hkeeps.not_tail (by decide)
  · intro hkeeps
    exact hkeeps.not_tail (by decide)
  · intro hkeeps
    exact absurd (hkeeps.fits (hnumber time) (by decide)) (by decide)
  · intro hkeeps
    exact absurd (hkeeps.fits (hnumber percent) (by decide)) (by decide)

end MeasureParser

/-- `" 0x10sec"` and `"100%"`. -/
example : lzString2time (some ⟨[32, 48, 120, 49, 48, 115, 101, 99], by decide⟩) (some ()) 3 = ⟨0, some 16, 3⟩ ∧
    lzString2percent (some ⟨[49, 48, 48, 37], by decide⟩) (some ()) 3 = ⟨0, some 100, 3⟩ := by
  decide +kernel

end LzLib.CommonUtils
