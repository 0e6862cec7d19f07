/-
  LzLib.Foundation.Words
  ──────────────────────
  **BYTES, C STRINGS AND NETWORK WORDS.**

  `CStr` is a NUL-terminated string, the terminator left out and its absence
  from the text carried as a field.  `putWord`/`getWord` are a 32-bit `int`
  stored in and read from network byte order on a little-endian machine,
  through the swap macros the source uses (`byte-order.h`), so that the byte
  order on the wire is a theorem and not a definition.  `wrap32` is what an
  `int` keeps of a mathematical result.
-/
import Mathlib.Data.List.Basic
import Mathlib.Tactic.IntervalCases

namespace LzLib.Foundation

abbrev Bytes := List UInt8

/-! ## §1. C strings. -/

/-- The characters of a NUL-terminated string, up to the NUL. -/
structure CStr where
  chars : Bytes
  nulFree : (0 : UInt8) ∉ chars
  deriving DecidableEq

/-- `strlen`. -/
def CStr.strlen (s : CStr) : Nat := s.chars.length

/-- The string that starts at the head of `bs`; `none` when no NUL ends it. -/
def CStr.scan : Bytes → Option CStr
  | [] => none
  | b :: bs =>
      if h : b = 0 then some ⟨[], by simp⟩
      else match CStr.scan bs with
        | none => none
        | some s => some ⟨b :: s.chars, by simp [s.nulFree, Ne.symm h]⟩

/-- The text found by a scan is followed by its NUL inside the scanned bytes. -/
theorem CStr.scan_length_lt : ∀ {bs : Bytes} {s : CStr}, CStr.scan bs = some s →
    s.strlen < bs.length
  | [], _, h => by simp [CStr.scan] at h
  | b :: bs, s, h => by
      by_cases hb : b = 0
      · simp only [CStr.scan, dif_pos hb, Option.some.injEq] at h
        subst h
        simp [CStr.strlen]
      · simp only [CStr.scan, dif_neg hb] at h
        cases hs : CStr.scan bs with
        | none => simp [hs] at h
        | some t =>
            simp only [hs, Option.some.injEq] at h
            subst h
            have := CStr.scan_length_lt hs
            simp only [CStr.strlen, List.length_cons] at this ⊢
            omega

/-- Scanning a terminated string finds it, whatever follows. -/
theorem CStr.scan_chars (s : CStr) (rest : Bytes) : CStr.scan (s.chars ++ 0 :: rest) = some s := by
  obtain ⟨cs, h⟩ := s
  induction cs with
  | nil => simp [CStr.scan]
  | cons c cs ih =>
      simp only [List.mem_cons, not_or] at h
      have := ih h.2
      simp only [List.cons_append, CStr.scan, dif_neg (Ne.symm h.1)]
      simp only at this
      simp [this]

/-! ## §2. Machine words. -/

/-- What an `int` keeps of the integer `n`. -/
def wrap32 (n : Int) : Int := n.bmod (2 ^ 32)

theorem wrap32_eq {n : Int} (h₁ : -2 ^ 31 ≤ n) (h₂ : n < 2 ^ 31) : wrap32 n = n := by
  unfold wrap32
  rw [Int.bmod_eq_of_le] <;> omega

theorem wrap32_lt (n : Int) : wrap32 n < 2 ^ 31 := by
  unfold wrap32
  have hlt := Int.bmod_lt (x := n) (m := 2 ^ 32) (by decide)
  exact hlt

theorem wrap32_ge (n : Int) : -2 ^ 31 ≤ wrap32 n := by
  unfold wrap32
  have hge := Int.le_bmod (x := n) (m := 2 ^ 32) (by decide)
  exact hge

/-- A sum may be wrapped once or twice. -/
theorem wrap32_add (a b : Int) : wrap32 (wrap32 a + b) = wrap32 (a + b) := Int.bmod_add_bmod

/-- `INT32_MAX`. -/
def int32Max : Int := 2 ^ 31 - 1

/-- `n++` on an `int`. -/
def incInt (n : Int) : Option Int := if n < int32Max then some (n + 1) else none

/-- `n--` on an `int`. -/
def decInt (n : Int) : Option Int := if -int32Max ≤ n then some (n - 1) else none

theorem incInt_eq {n : Int} (h : n < int32Max) : incInt n = some (n + 1) := if_pos h

theorem incInt_full {n : Int} (h : int32Max ≤ n) : incInt n = none := if_neg (Int.not_lt.mpr h)

theorem incInt_some {n m : Int} (h : incInt n = some m) : m = n + 1 := by
  unfold incInt at h
  split at h
  · exact (Option.some.inj h).symm
  · cases h

theorem decInt_eq {n : Int} (h : -int32Max ≤ n) : decInt n = some (n - 1) := if_pos h

theorem decInt_some {n m : Int} (h : decInt n = some m) : m = n - 1 := by
  unfold decInt at h
  split at h
  · exact (Option.some.inj h).symm
  · cases h

/-- `do_swap2`. -/
def doSwap2 (x : BitVec 32) : BitVec 32 :=
  ((x &&& 0x00ff#32) <<< 8) ||| ((x &&& 0xff00#32) >>> 8)

/-- `do_swap4`. -/
def doSwap4 (x : BitVec 32) : BitVec 32 :=
  (doSwap2 (x &&& 0x0000ffff#32) <<< 16) ||| doSwap2 ((x &&& 0xffff0000#32) >>> 16)

/-- `__swap32`, which is `hton32` and `ntoh32` on a little-endian machine. -/
def swap32 (x : BitVec 32) : BitVec 32 := doSwap4 x

/-- The four bytes of a word in memory, low byte first. -/
def leBytes (x : BitVec 32) : Bytes :=
  [⟨x.extractLsb' 0 8⟩, ⟨x.extractLsb' 8 8⟩, ⟨x.extractLsb' 16 8⟩, ⟨x.extractLsb' 24 8⟩]

/-- The word whose memory image is the four bytes. -/
def leWord (b₀ b₁ b₂ b₃ : UInt8) : BitVec 32 :=
  b₀.toBitVec.setWidth 32 ||| (b₁.toBitVec.setWidth 32 <<< 8)
    ||| (b₂.toBitVec.setWidth 32 <<< 16) ||| (b₃.toBitVec.setWidth 32 <<< 24)

theorem swap32_swap32 (x : BitVec 32) : swap32 (swap32 x) = x := by
  ext i hi
  simp only [swap32, doSwap4, doSwap2]
  interval_cases i <;> simp

theorem leWord_leBytes (x : BitVec 32) :
    leWord ⟨x.extractLsb' 0 8⟩ ⟨x.extractLsb' 8 8⟩ ⟨x.extractLsb' 16 8⟩ ⟨x.extractLsb' 24 8⟩ = x := by
  ext i hi
  simp only [leWord]
  interval_cases i <;> simp

/-! ## §3. An `int` on the wire. -/

/-- `netword = hton32 (n); memcpy (buf, &netword, 4)`. -/
def putWord (n : Int) : Bytes := leBytes (swap32 (BitVec.ofInt 32 n))

/-- `memcpy (&hostord, buf, 4); n = ntoh32 (hostord)`, read as `int32_t`. -/
def getWord : Bytes → Option Int
  | b₀ :: b₁ :: b₂ :: b₃ :: _ => some (swap32 (leWord b₀ b₁ b₂ b₃)).toInt
  | _ => none

/-- The same word, read as `uint32_t`. -/
def getWordU : Bytes → Option Nat
  | b₀ :: b₁ :: b₂ :: b₃ :: _ => some (swap32 (leWord b₀ b₁ b₂ b₃)).toNat
  | _ => none

@[simp] theorem putWord_length (n : Int) : (putWord n).length = 4 := rfl

/-- A word read back is the word written, whatever follows it. -/
theorem getWord_putWord {n : Int} (h₁ : -2 ^ 31 ≤ n) (h₂ : n < 2 ^ 31) (rest : Bytes) :
    getWord (putWord n ++ rest) = some n := by
  show some (swap32 (leWord _ _ _ _)).toInt = _
  rw [leWord_leBytes, swap32_swap32, BitVec.toInt_ofInt]
  exact congrArg some (wrap32_eq h₁ h₂)

theorem getWordU_putWord {n : Nat} (h : n < 2 ^ 32) (rest : Bytes) :
    getWordU (putWord n ++ rest) = some n := by
  show some (swap32 (leWord _ _ _ _)).toNat = _
  rw [leWord_leBytes, swap32_swap32, BitVec.toNat_ofInt]
  refine congrArg some ?_
  omega

theorem getWord_isSome {bs : Bytes} (h : 4 ≤ bs.length) : ∃ n, getWord bs = some n := by
  match bs, h with
  | _ :: _ :: _ :: _ :: _, _ => exact ⟨_, rfl⟩

/-- A word read is an `int`. -/
theorem getWord_le {bs : Bytes} {n : Int} (h : getWord bs = some n) : n ≤ int32Max := by
  unfold getWord at h
  split at h
  next b₀ b₁ b₂ b₃ _ =>
    have hlt := (swap32 (leWord b₀ b₁ b₂ b₃)).toInt_lt
    rw [Option.some.injEq] at h
    show n ≤ 2 ^ 31 - 1
    omega
  next => cases h

end LzLib.Foundation
