/-
  LzLib.Checksum.Md5
  ──────────────────
  **THE STREAMED DIGEST IS THE DIGEST OF THE STREAM.**

  `Rfc` is MD5 as RFC 1321 has it, over the whole message at once: padding,
  sixty-four steps for each block, the words by index formulas.  The code is
  given the message in parts of any length, keeps up to 63 bytes of it in a
  buffer, and rotates the names of its registers instead of their contents.
-/
import LzLib.Checksum.Md5Def
import LzLib.Foundation.Pieces
import LzLib.Foundation.Sines

namespace LzLib.Checksum

open LzLib.Foundation

/-! ## §1. MD5 of a whole message. -/

namespace Rfc

/-- The functions F, G, H and I. -/
def mix (i : Nat) (x y z : UInt32) : UInt32 :=
  match i with
  | 0 => (x &&& y) ||| (~~~x &&& z)
  | 1 => (x &&& z) ||| (y &&& ~~~z)
  | 2 => x ^^^ y ^^^ z
  | _ => y ^^^ (x ||| ~~~z)

/-- The word that step `i` adds. -/
def wordIndex (i : Nat) : Nat :=
  match i / 16 with
  | 0 => i % 16
  | 1 => (5 * i + 1) % 16
  | 2 => (3 * i + 5) % 16
  | _ => 7 * i % 16

/-- By how many bits step `i` rotates. -/
def amount (i : Nat) : Nat :=
  match i / 16, i % 4 with
  | 0, j => [7, 12, 17, 22].getD j 0
  | 1, j => [5, 9, 14, 20].getD j 0
  | 2, j => [4, 11, 16, 23].getD j 0
  | _, j => [6, 10, 15, 21].getD j 0

def rotateLeft (x : UInt32) (n : Nat) : UInt32 := ⟨x.toBitVec.rotateLeft n⟩

/-- The number with the given bytes, low byte first. -/
def value : Bytes → Nat
  | [] => 0
  | b :: bs => b.toNat + 256 * value bs

/-- The `k` low bytes of a number, low byte first. -/
def bytesOf : Nat → Nat → Bytes
  | 0, _ => []
  | k + 1, n => UInt8.ofNat n :: bytesOf k (n / 256)

/-- Word `i` of a block. -/
def word (block : Bytes) (i : Nat) : UInt32 := UInt32.ofNat (value ((block.drop (4 * i)).take 4))

/-- The constant of step `i`. -/
noncomputable def sine (i : Nat) : UInt32 := UInt32.ofNat ⌊((2 ^ 32 : ℕ) : ℝ) * |Real.sin ((i + 1 : ℕ) : ℝ)|⌋₊

/-- Step `i`: the contents move on by one register. -/
noncomputable def step (bs : Bytes) (r : Registers) (i : Nat) : Registers :=
  ⟨r.D, r.B + rotateLeft (r.A + mix (i / 16) r.B r.C r.D + word bs (wordIndex i) + sine i) (amount i), r.B, r.C⟩

/-- The sixty-four steps of a block, added to what was there. -/
noncomputable def block (r : Registers) (bs : Bytes) : Registers :=
  let r' := (List.range 64).foldl (step bs) r
  ⟨r.A + r'.A, r.B + r'.B, r.C + r'.C, r.D + r'.D⟩

def init : Registers := ⟨0x67452301, 0xEFCDAB89, 0x98BADCFE, 0x10325476⟩

/-- The message, a one bit, zeros up to 56 modulo 64, and the bit length modulo 2^64. -/
def pad (message : Bytes) : Bytes :=
  message ++ 0x80 :: (List.replicate ((119 - message.length % 64) % 64) 0 ++ bytesOf 8 (8 * message.length))

/-- The registers as bytes. -/
def digest (r : Registers) : Bytes :=
  bytesOf 4 r.A.toNat ++ bytesOf 4 r.B.toNat ++ bytesOf 4 r.C.toNat ++ bytesOf 4 r.D.toNat

/-- The digest of a message. -/
noncomputable def md5 (message : Bytes) : Bytes := digest (wholePieces 64 block init (pad message)).1

end Rfc

/-! ## §2. Words and bytes. -/

theorem toNat_shl (x : UInt32) (k : Nat) (hk : k < 32) :
    (x <<< UInt32.ofNat k).toNat = x.toNat * 2 ^ k % 2 ^ 32 := by
  rw [UInt32.toNat_shiftLeft, UInt32.toNat_ofNat_of_lt' (by simp [UInt32.size]; omega), Nat.mod_eq_of_lt hk,
    Nat.shiftLeft_eq]

theorem toNat_shr (x : UInt32) (k : Nat) (hk : k < 32) :
    (x >>> UInt32.ofNat k).toNat = x.toNat / 2 ^ k := by
  rw [UInt32.toNat_shiftRight, UInt32.toNat_ofNat_of_lt' (by simp [UInt32.size]; omega), Nat.mod_eq_of_lt hk,
    Nat.shiftRight_eq_div_pow]

/-- Two words with no bit in common. -/
theorem toNat_or_shl (x y : UInt32) (k : Nat) (hk : k < 32) (hx : x.toNat < 2 ^ k) :
    (x ||| (y <<< UInt32.ofNat k)).toNat = x.toNat + y.toNat * 2 ^ k % 2 ^ 32 := by
  have hsplit : y.toNat * 2 ^ k % 2 ^ 32 = (y.toNat % 2 ^ (32 - k)) <<< k := by
    rw [Nat.shiftLeft_eq, show (2 : Nat) ^ 32 = 2 ^ (32 - k) * 2 ^ k from by rw [← Nat.pow_add]; congr 1; omega,
      Nat.mul_mod_mul_right]
  rw [UInt32.toNat_or, toNat_shl y k hk, hsplit, Nat.or_comm, ← Nat.shiftLeft_add_eq_or_of_lt hx, Nat.add_comm]

theorem toNat_and (x : UInt32) (k : Nat) (hk : k ≤ 32) : (x &&& UInt32.ofNat (2 ^ k - 1)).toNat = x.toNat % 2 ^ k := by
  have hlt : 2 ^ k - 1 < UInt32.size :=
    Nat.lt_of_lt_of_le (Nat.sub_lt (Nat.two_pow_pos k) Nat.one_pos) (Nat.pow_le_pow_right (by omega) hk)
  rw [UInt32.toNat_and, UInt32.toNat_ofNat_of_lt' hlt, Nat.and_two_pow_sub_one_eq_mod]

theorem uval_lt (data : Chunk) (pos : Nat) : (uval data pos).toNat < 256 := UInt8.toNat_lt _

theorem pval_toNat (data : Chunk) (pos : Nat) :
    (pval data pos).toNat = (uval data pos).toNat + 256 * (uval data (pos + 1)).toNat := by
  have h₀ := uval_lt data pos
  have h₁ := uval_lt data (pos + 1)
  show (uval data pos ||| (uval data (pos + 1) <<< UInt32.ofNat 8)).toNat = _
  rw [toNat_or_shl _ _ 8 (by omega) (by omega)]
  omega

theorem ival_toNat (data : Chunk) (pos : Nat) :
    (ival data pos).toNat = (pval data pos).toNat + 65536 * (pval data (pos + 2)).toNat := by
  have h₀ := uval_lt data pos
  have h₁ := uval_lt data (pos + 1)
  have h₂ := uval_lt data (pos + 2)
  have h₃ := uval_lt data (pos + 2 + 1)
  have hlow := pval_toNat data pos
  have hhigh := pval_toNat data (pos + 2)
  show (pval data pos ||| (pval data (pos + 2) <<< UInt32.ofNat 16)).toNat = _
  rw [toNat_or_shl _ _ 16 (by omega) (by omega)]
  omega

/-- `IVAL` reads the word of the block. -/
theorem ival_eq (data : Chunk) (i : Nat) (hi : i < 16) : ival data (4 * i) = Rfc.word data.val i := by
  have hlen : data.val.length = 64 := data.property
  have hfour : (data.val.drop (4 * i)).take 4
      = [data.val.getD (4 * i) 0, data.val.getD (4 * i + 1) 0, data.val.getD (4 * i + 2) 0,
          data.val.getD (4 * i + 3) 0] := by
    refine List.ext_getElem (by simp; omega) fun j hj hj' => ?_
    have : j < 4 := by simpa using hj'
    interval_cases j <;> simp [List.getD_eq_getElem?_getD, hlen, show 4 * i + 3 < 64 by omega,
      show 4 * i + 2 < 64 by omega, show 4 * i + 1 < 64 by omega, show 4 * i < 64 by omega]
  apply UInt32.toNat_inj.mp
  rw [ival_toNat, pval_toNat, pval_toNat]
  unfold Rfc.word
  rw [hfour, UInt32.toNat_ofNat']
  have h₀ := uval_lt data (4 * i)
  have h₁ := uval_lt data (4 * i + 1)
  have h₂ := uval_lt data (4 * i + 2)
  have h₃ := uval_lt data (4 * i + 3)
  have hthird : 4 * i + 2 + 1 = 4 * i + 3 := rfl
  simp only [uval, UInt8.toNat_toUInt32, Rfc.value, hthird] at *
  omega

/-- `SIVAL` writes the bytes of the word, low byte first. -/
theorem sival_eq (v : UInt32) : sival v = Rfc.bytesOf 4 v.toNat := by
  have hbyte : ∀ (x : UInt32) (n : Nat), x.toNat % 256 = n % 256 → x.toUInt8 = UInt8.ofNat n := by
    intro x n h
    apply UInt8.toNat_inj.mp
    rw [UInt32.toNat_toUInt8, UInt8.toNat_ofNat']
    exact h
  have hand : ∀ x : UInt32, (x &&& 0xFF).toNat = x.toNat % 256 := fun x => toNat_and x 8 (by omega)
  have hand' : ∀ x : UInt32, (x &&& 0xFFFF).toNat = x.toNat % 65536 := fun x => toNat_and x 16 (by omega)
  have h8 : ∀ x : UInt32, (x >>> 8).toNat = x.toNat / 256 := fun x => toNat_shr x 8 (by omega)
  have h16 : ∀ x : UInt32, (x >>> 16).toNat = x.toNat / 65536 := fun x => toNat_shr x 16 (by omega)
  show [_, _, _, _] = [_, _, _, _]
  congr 1
  · exact hbyte _ _ (by rw [hand, hand']; omega)
  congr 1
  · exact hbyte _ _ (by rw [h8, hand']; omega)
  congr 1
  · exact hbyte _ _ (by rw [hand, h16]; omega)
  congr 1
  · exact hbyte _ _ (by rw [h8, h16]; omega)

namespace Rfc

theorem bytesOf_append (k m n : Nat) : bytesOf (k + m) n = bytesOf k n ++ bytesOf m (n / 256 ^ k) := by
  induction k generalizing n with
  | zero => simp [bytesOf]
  | succ k ih =>
      rw [Nat.succ_add]
      show UInt8.ofNat n :: bytesOf (k + m) (n / 256) = UInt8.ofNat n :: (bytesOf k (n / 256) ++ _)
      rw [ih, Nat.div_div_eq_div_mul, Nat.pow_succ, Nat.mul_comm 256]

theorem bytesOf_mod (k n : Nat) : bytesOf k (n % 256 ^ k) = bytesOf k n := by
  induction k generalizing n with
  | zero => rfl
  | succ k ih =>
      show UInt8.ofNat _ :: bytesOf k _ = UInt8.ofNat n :: bytesOf k (n / 256)
      congr 1
      · apply UInt8.toNat_inj.mp
        rw [UInt8.toNat_ofNat', UInt8.toNat_ofNat', Nat.pow_succ, Nat.mod_mul_left_mod]
      · rw [← ih (n / 256), Nat.pow_succ, Nat.mul_comm, Nat.mod_mul_right_div_self]

theorem bytesOf_length (k n : Nat) : (bytesOf k n).length = k := by
  induction k generalizing n with
  | zero => rfl
  | succ k ih => exact congrArg (· + 1) (ih (n / 256))

end Rfc

/-! ## §3. The rounds. -/

/-- The macro `S` rotates. -/
theorem s_eq {x n : UInt32} (hn : 0 < n.toNat) (hlt : n.toNat < 32) : md5S x n = Rfc.rotateLeft x n.toNat := by
  apply UInt32.toBitVec_inj.mp
  have hmask : x &&& 0xFFFFFFFF = x := by
    apply UInt32.toNat_inj.mp
    exact (toNat_and x 32 (by omega)).trans (Nat.mod_eq_of_lt x.toNat_lt)
  have hsub : (32 - n).toNat = 32 - n.toNat :=
    UInt32.toNat_sub_of_le _ _ (UInt32.le_iff_toNat_le.mpr (Nat.le_of_lt hlt))
  have hmod : ((32 : UInt32) - n).toNat % 32 = 32 - n.toNat := by
    rw [hsub]
    omega
  show ((x <<< n) ||| ((x &&& 0xFFFFFFFF) >>> (32 - n))).toBitVec = x.toBitVec.rotateLeft n.toNat
  rw [hmask, BitVec.rotateLeft_def, Nat.mod_eq_of_lt hlt]
  apply BitVec.eq_of_toNat_eq
  simp only [UInt32.toBitVec_or, BitVec.toNat_or, BitVec.toNat_shiftLeft, BitVec.toNat_ushiftRight,
    UInt32.toNat_toBitVec, UInt32.toNat_shiftLeft, UInt32.toNat_shiftRight, Nat.mod_eq_of_lt hlt, hmod]

theorem f₁_eq (x y z : UInt32) : f₁ x y z = Rfc.mix 0 x y z := by
  apply UInt32.toBitVec_inj.mp
  show z.toBitVec ^^^ (x.toBitVec &&& (y.toBitVec ^^^ z.toBitVec))
    = (x.toBitVec &&& y.toBitVec) ||| (~~~x.toBitVec &&& z.toBitVec)
  ext i hi
  simp only [BitVec.getElem_xor, BitVec.getElem_and, BitVec.getElem_or, BitVec.getElem_not]
  cases x.toBitVec[i] <;> cases y.toBitVec[i] <;> cases z.toBitVec[i] <;> rfl

theorem f₂_eq (x y z : UInt32) : f₂ x y z = Rfc.mix 1 x y z := by
  apply UInt32.toBitVec_inj.mp
  show y.toBitVec ^^^ (z.toBitVec &&& (x.toBitVec ^^^ y.toBitVec))
    = (x.toBitVec &&& z.toBitVec) ||| (y.toBitVec &&& ~~~z.toBitVec)
  ext i hi
  simp only [BitVec.getElem_xor, BitVec.getElem_and, BitVec.getElem_or, BitVec.getElem_not]
  cases x.toBitVec[i] <;> cases y.toBitVec[i] <;> cases z.toBitVec[i] <;> rfl

/-- One line, with the contents moved instead of the names. -/
def turn (F : Mix) (X : Fin 16 → UInt32) (r : Registers) (l : Line) : Registers :=
  ⟨r.D, md5S (r.A + (F r.B r.C r.D + X l.k + l.t)) l.s + r.B, r.B, r.C⟩

/-- Behind four lines every register is under its own name again. -/
theorem fourLines_eq (F : Mix) (X : Fin 16 → UInt32) (r : Registers) (l₀ l₁ l₂ l₃ : Line) :
    fourLines F X r l₀ l₁ l₂ l₃ = [l₀, l₁, l₂, l₃].foldl (turn F X) r := rfl

theorem md5Round_eq (F : Mix) (X : Fin 16 → UInt32) (r : Registers) (ls : List Line) (h : 4 ∣ ls.length) :
    md5Round F X r ls = ls.foldl (turn F X) r := by
  induction r, ls using md5Round.induct (F := F) (X := X) with
  | case1 r l₀ l₁ l₂ l₃ ls ih =>
      rw [md5Round, ih (by simpa using (Nat.dvd_add_left (Nat.dvd_refl 4)).mp h), fourLines_eq]
      rfl
  | case2 ls r hls =>
      rcases ls with _ | ⟨a, _ | ⟨b, _ | ⟨c, _ | ⟨d, ls⟩⟩⟩⟩
      · rfl
      · simp only [List.length_cons, List.length_nil] at h
        omega
      · simp only [List.length_cons, List.length_nil] at h
        omega
      · simp only [List.length_cons, List.length_nil] at h
        omega
      · exact absurd rfl (hls a b c d ls)

/-! ## §4. The table. -/

/-- The lines in the order of the source. -/
def allLines : List Line := lines₁ ++ lines₂ ++ lines₃ ++ lines₄

/-- The scale of the approximations. -/
def scale : ℤ := 2 ^ 128

/-- The sine of 1, in units of the scale. -/
def sinOne : ℤ := 286337738405724074564845076175058320434

/-- The cosine of 1, in units of the scale. -/
def cosOne : ℤ := 183855347493651442427684920285310598441

theorem sinOne_near : Near scale 2 (Real.sin 1) sinOne :=
  Near.ofSum (by decide) (sin_one_error (k := 20) (by decide)) (by decide +kernel) (by decide +kernel)

theorem cosOne_near : Near scale 2 (Real.cos 1) cosOne :=
  Near.ofSum (by decide) (cos_one_error (k := 20) (by decide)) (by decide +kernel) (by decide +kernel)

/-- The approximated sine of `n` is far enough from where the integer part of its multiple changes. -/
def Decided (n t : ℕ) : Prop :=
  (t : ℤ) * scale ≤ (2 ^ 32 : ℕ) * (|(turns scale sinOne cosOne n).1| - turnError n)
    ∧ ((2 ^ 32 : ℕ) : ℤ) * (|(turns scale sinOne cosOne n).1| + turnError n) < (t + 1) * scale

instance (n t : ℕ) : Decidable (Decided n t) := inferInstanceAs (Decidable (_ ∧ _))

/-- Every constant of the source is the integer part of a sine. -/
theorem table_sines {i : Nat} (hi : i < 64) : (allLines.getD i default).t = Rfc.sine i := by
  have hall : ∀ i < 64, Decided (i + 1) (allLines.getD i default).t.toNat := by decide +kernel
  have hscale : 9 * 2 ^ (i + 1) ≤ scale :=
    Int.le_trans (Int.mul_le_mul_of_nonneg_left (pow_le_pow_right₀ (by decide) (by omega : i + 1 ≤ 64)) (by decide))
      (by decide)
  have hfloor := floor_abs_near (by decide) (turns_near sinOne_near cosOne_near hscale).1 (hall i hi).1 (hall i hi).2
  unfold Rfc.sine
  rw [hfloor, UInt32.ofNat_toNat]

theorem wordIndex_lt (i : Nat) : Rfc.wordIndex i < 16 := by
  unfold Rfc.wordIndex
  split <;> omega

/-- Line `i` by the formulas. -/
def lineBy (T : Nat → UInt32) (i : Nat) : Line := ⟨⟨Rfc.wordIndex i, wordIndex_lt i⟩, UInt32.ofNat (Rfc.amount i), T i⟩

/-- Every line of the source is the one of the formulas. -/
theorem lines_eq (j : Nat) (hj : j < 4) :
    [lines₁, lines₂, lines₃, lines₄].getD j [] = (List.range' (16 * j) 16).map (lineBy Rfc.sine) := by
  have hall : ∀ j < 4, [lines₁, lines₂, lines₃, lines₄].getD j []
      = (List.range' (16 * j) 16).map (lineBy fun i => (allLines.getD i default).t) := by decide
  rw [hall j hj]
  refine List.map_congr_left fun i hi => ?_
  rw [List.mem_range'_1] at hi
  exact congrArg (Line.mk _ _) (table_sines (by omega))

theorem amount_bounds {i : Nat} (hi : i < 64) : 0 < Rfc.amount i ∧ Rfc.amount i < 32 := by
  have hall : ∀ i < 64, 0 < Rfc.amount i ∧ Rfc.amount i < 32 := by decide
  exact hall i hi

/-- A line is a step. -/
theorem turn_eq {bs : Bytes} {F : Mix} {X : Fin 16 → UInt32} {i : Nat} (hi : i < 64)
    (hF : ∀ x y z, F x y z = Rfc.mix (i / 16) x y z) (hX : ∀ k : Fin 16, X k = Rfc.word bs k) (r : Registers) :
    turn F X r (lineBy Rfc.sine i) = Rfc.step bs r i := by
  have hamount := amount_bounds hi
  have htoNat : (UInt32.ofNat (Rfc.amount i)).toNat = Rfc.amount i :=
    UInt32.toNat_ofNat_of_lt' (by simp only [UInt32.size]; omega)
  have hword : X ⟨Rfc.wordIndex i, wordIndex_lt i⟩ = Rfc.word bs (Rfc.wordIndex i) := hX _
  unfold turn lineBy Rfc.step
  simp only [hword]
  rw [s_eq (n := UInt32.ofNat (Rfc.amount i)) (by omega) (by omega), htoNat, hF, UInt32.add_comm _ r.B]
  simp only [UInt32.add_assoc]

/-- A round of the source is sixteen steps. -/
theorem round_eq {bs : Bytes} {F : Mix} {X : Fin 16 → UInt32} {j : Nat} {ls : List Line} (hj : j < 4)
    (hls : [lines₁, lines₂, lines₃, lines₄].getD j [] = ls)
    (hF : ∀ x y z, F x y z = Rfc.mix j x y z) (hX : ∀ k : Fin 16, X k = Rfc.word bs k) (r : Registers) :
    md5Round F X r ls = (List.range' (16 * j) 16).foldl (Rfc.step bs) r := by
  rw [← hls, lines_eq j hj, md5Round_eq _ _ _ _ (by simp), List.foldl_map]
  refine List.foldl_ext _ _ _ fun r i hi => ?_
  rw [List.mem_range'_1] at hi
  have hround : i / 16 = j := by omega
  exact turn_eq (by omega) (hround ▸ hF) hX r

/-- `md5_process` adds what the sixty-four steps make of the block. -/
theorem md5Process_eq (ctx : MdContext) (data : Chunk) :
    md5Process ctx data = { ctx with toRegisters := Rfc.block ctx.toRegisters data.val } := by
  have hX : ∀ k : Fin 16, ival data (4 * k) = Rfc.word data.val k := fun k => ival_eq data k k.isLt
  have hrange : List.range 64
      = List.range' (16 * 0) 16 ++ List.range' (16 * 1) 16 ++ List.range' (16 * 2) 16 ++ List.range' (16 * 3) 16 := by
    decide
  unfold md5Process Rfc.block
  rw [hrange, List.foldl_append, List.foldl_append, List.foldl_append, ← round_eq (j := 0) (by decide) rfl f₁_eq hX,
    ← round_eq (j := 1) (by decide) rfl f₂_eq hX, ← round_eq (F := f₃) (j := 2) (by decide) rfl (fun _ _ _ => rfl) hX,
    ← round_eq (F := f₄) (j := 3) (by decide) rfl (fun _ _ _ => rfl) hX]
  rfl

/-! ## §5. What a context has taken in. -/

/-- The message so far: its whole blocks are in the registers, the rest waits
in the buffer, and its length in bytes modulo 2^64 is in the two counters. -/
structure Absorbed (ctx : MdContext) (message : Bytes) : Prop where
  registers : ctx.toRegisters = (wholePieces 64 Rfc.block Rfc.init message).1
  pending : ctx.buffer.val.take (message.length % 64) = (wholePieces 64 Rfc.block Rfc.init message).2
  count : ctx.totalN.toNat = message.length % 2 ^ 32
  carries : ctx.totalN2.toNat = message.length / 2 ^ 32 % 2 ^ 32

theorem md5Begin_absorbed (ctx : MdContext) : Absorbed (md5Begin ctx) [] := ⟨rfl, rfl, rfl, rfl⟩

theorem memcpyAt_eq (buffer : Chunk) (left n : Nat) (input : Bytes) (h : left + n ≤ 64) (hn : n ≤ input.length) :
    ∃ b : Chunk, memcpyAt buffer left input n = some b
      ∧ b.val = buffer.val.take left ++ input.take n ++ buffer.val.drop (left + n) :=
  ⟨_, dif_pos ⟨h, hn⟩, rfl⟩

/-- What was copied stands in front. -/
theorem take_copied {buffer front : Bytes} {n left : Nat} (hbuffer : left ≤ buffer.length) (hfront : n ≤ front.length)
    (behind : Bytes) : (buffer.take left ++ front.take n ++ behind).take (left + n) = buffer.take left ++ front.take n :=
  List.take_left' (by simp [hbuffer, hfront])

/-- The loop takes all whole blocks of the input, and leaves the rest. -/
theorem md5Loop_spec (ctx : MdContext) (input : Bytes) (length : UInt32) (hlen : length.toNat ≤ input.length) :
    ∃ input' length', md5Loop ctx input length = some
        ({ ctx with toRegisters := (wholePieces 64 Rfc.block ctx.toRegisters (input.take length.toNat)).1 },
          input', length')
      ∧ input'.take length'.toNat = (wholePieces 64 Rfc.block ctx.toRegisters (input.take length.toNat)).2
      ∧ length'.toNat < 64 ∧ length'.toNat ≤ input'.length := by
  induction ctx, input, length using md5Loop.induct with
  | case1 ctx input length h ih =>
      have h64 : 64 ≤ length.toNat := UInt32.le_iff_toNat_le.mp h
      have hsub : (length - 64).toNat = length.toNat - 64 := UInt32.toNat_sub_of_le _ _ h
      have hchunk : chunkAt input = some ⟨input.take 64, by simp [csumChunk]; omega⟩ := dif_pos (by unfold csumChunk; omega)
      have hstep : wholePieces 64 Rfc.block ctx.toRegisters (input.take length.toNat)
          = wholePieces 64 Rfc.block (Rfc.block ctx.toRegisters (input.take 64))
              ((input.drop 64).take (length.toNat - 64)) := by
        rw [wholePieces_step (by decide) (by simp; omega), List.take_take, Nat.min_eq_left h64, List.drop_take]
      have hrest := ih ⟨input.take 64, by simp [csumChunk]; omega⟩ (by rw [hsub]; simp [csumChunk]; omega)
      rw [md5Process_eq, hsub] at hrest
      rw [md5Loop, if_pos h, hchunk, hstep, Option.bind_some, md5Process_eq]
      exact hrest
  | case2 ctx input length h =>
      have hlt : length.toNat < 64 := Nat.lt_of_not_le fun hle => h (UInt32.le_iff_toNat_le.mpr hle)
      rw [md5Loop, if_neg h, wholePieces_short (by simp; omega)]
      exact ⟨input, length, rfl, rfl, hlt, hlen⟩

/-- Filling the buffer takes nothing from what there is to absorb, and leaves
either an empty buffer or fewer bytes than fit. -/
theorem md5Fill_spec (ctx : MdContext) {input : Bytes} {length fill : UInt32} (left : UInt32)
    (hlen : length.toNat ≤ input.length)
    (hleft : left.toNat < 64) (hfill : fill.toNat = 64 - left.toNat) :
    ∃ (r : Registers) (buffer : Chunk) (input' : Bytes) (length' left' : UInt32),
      md5Fill ctx input length left fill
          = some ({ ctx with toRegisters := r, buffer := buffer }, input', length', left')
      ∧ wholePieces 64 Rfc.block ctx.toRegisters (ctx.buffer.val.take left.toNat ++ input.take length.toNat)
          = wholePieces 64 Rfc.block r (buffer.val.take left'.toNat ++ input'.take length'.toNat)
      ∧ length'.toNat ≤ input'.length ∧ (left'.toNat = 0 ∨ left'.toNat + length'.toNat < 64) := by
  have hbuffer : ctx.buffer.val.length = 64 := ctx.buffer.property
  unfold md5Fill
  by_cases hfull : left ≠ 0 ∧ fill ≤ length
  · have hle : fill.toNat ≤ length.toNat := UInt32.le_iff_toNat_le.mp hfull.2
    have hsub : (length - fill).toNat = length.toNat - fill.toNat := UInt32.toNat_sub_of_le _ _ hfull.2
    obtain ⟨b, hb, hval⟩ := memcpyAt_eq ctx.buffer left.toNat fill.toNat input (by omega)
      (by omega)
    have hdrop : ctx.buffer.val.drop (left.toNat + fill.toNat) = [] := List.drop_eq_nil_of_le (by omega)
    rw [hdrop, List.append_nil] at hval
    have hsplit : input.take length.toNat
        = input.take fill.toNat ++ (input.drop fill.toNat).take (length.toNat - fill.toNat) := by
      rw [← List.take_add, Nat.add_sub_cancel' hle]
    rw [if_pos hfull, hb]
    refine ⟨Rfc.block ctx.toRegisters b.val, b, input.drop fill.toNat, length - fill, 0, ?_, ?_, ?_, Or.inl rfl⟩
    · show some (md5Process _ b, _, _, _) = _
      rw [md5Process_eq]
    · rw [hsplit, ← List.append_assoc, ← hval, wholePieces_cons (by decide) (show b.val.length = 64 from b.property), hsub]
      rfl
    · rw [hsub, List.length_drop]
      omega
  · refine ⟨ctx.toRegisters, ctx.buffer, input, length, left, if_neg hfull, rfl, hlen, ?_⟩
    rcases Nat.eq_zero_or_pos left.toNat with h0 | hpos
    · exact Or.inl h0
    · refine Or.inr (Nat.lt_of_not_le fun hle => hfull ⟨?_, UInt32.le_iff_toNat_le.mpr (by omega)⟩)
      rintro rfl
      exact Nat.lt_irrefl 0 hpos

/-- The loop and the last copy: what is left over waits in the buffer. -/
theorem loop_copy_spec (ctx : MdContext) {input : Bytes} {length left : UInt32} (hlen : length.toNat ≤ input.length)
    (hleft : left.toNat = 0 ∨ left.toNat + length.toNat < 64) :
    ∃ buffer : Chunk,
      ((md5Loop ctx input length).bind fun (ctx, input, length) =>
        if length = 0 then some ctx
        else (memcpyAt ctx.buffer left.toNat input length.toNat).map fun buffer => { ctx with buffer := buffer })
        = some { ctx with
            toRegisters := (wholePieces 64 Rfc.block ctx.toRegisters
              (ctx.buffer.val.take left.toNat ++ input.take length.toNat)).1
            buffer := buffer }
      ∧ ∀ k, (wholePieces 64 Rfc.block ctx.toRegisters
              (ctx.buffer.val.take left.toNat ++ input.take length.toNat)).2.length = k →
          buffer.val.take k = (wholePieces 64 Rfc.block ctx.toRegisters
              (ctx.buffer.val.take left.toNat ++ input.take length.toNat)).2 := by
  have hbuffer : ctx.buffer.val.length = 64 := ctx.buffer.property
  obtain ⟨input', length', hloop, hrest, hlt, hlen'⟩ := md5Loop_spec ctx input length hlen
  -- in both cases the loop leaves what waited where it is, and the rest of the input goes behind it
  have hwhole : wholePieces 64 Rfc.block ctx.toRegisters (ctx.buffer.val.take left.toNat ++ input.take length.toNat)
      = ((wholePieces 64 Rfc.block ctx.toRegisters (input.take length.toNat)).1,
          ctx.buffer.val.take left.toNat ++ input'.take length'.toNat)
      ∧ left.toNat + length'.toNat ≤ 64 := by
    rw [hrest]
    rcases hleft with h0 | hshort
    · rw [h0, List.take_zero, List.nil_append, List.nil_append]
      exact ⟨rfl, by omega⟩
    · have hcount : (input'.take length'.toNat).length = length.toNat := by
        rw [hrest, wholePieces_rest_length (by decide), List.length_take, Nat.min_eq_left hlen,
          Nat.mod_eq_of_lt (by omega)]
      rw [List.length_take, Nat.min_eq_left hlen'] at hcount
      rw [wholePieces_short (by simp; omega), wholePieces_short (s := ctx.toRegisters) (by simp; omega)]
      exact ⟨rfl, by omega⟩
  rw [hwhole.1, hloop]
  show ∃ buffer : Chunk, (if length' = 0 then _ else _) = _ ∧ _
  by_cases h0 : length' = 0
  · rw [if_pos h0, h0]
    refine ⟨ctx.buffer, rfl, ?_⟩
    rintro k rfl
    simp [hbuffer]
  · rw [if_neg h0]
    obtain ⟨b, hb, hval⟩ := memcpyAt_eq ctx.buffer _ _ _ hwhole.2 hlen'
    rw [hb]
    refine ⟨b, rfl, ?_⟩
    rintro k rfl
    rw [hval, List.length_append, List.length_take, List.length_take, Nat.min_eq_left (by omega),
      Nat.min_eq_left hlen']
    exact take_copied (by omega) hlen' _

/-- `md5_update` with the next bytes of the message. -/
theorem md5Update_spec {ctx : MdContext} {message : Bytes} (input : Bytes) (length : UInt32) (h : Absorbed ctx message)
    (hlen : length.toNat ≤ input.length) :
    ∃ ctx', md5Update ctx input length = some ctx' ∧ Absorbed ctx' (message ++ input.take length.toNat) := by
  by_cases h0 : length = 0
  · refine ⟨ctx, if_pos h0, ?_⟩
    rw [h0]
    show Absorbed ctx (message ++ [])
    rw [List.append_nil]
    exact h
  have hmask : ∀ x : UInt32, x &&& 0xFFFFFFFF = x := fun x =>
    UInt32.toNat_inj.mp ((toNat_and x 32 (by omega)).trans (Nat.mod_eq_of_lt x.toNat_lt))
  have hleft : (ctx.totalN &&& 0x3F).toNat = message.length % 64 := by
    rw [show (0x3F : UInt32) = UInt32.ofNat (2 ^ 6 - 1) from rfl, toNat_and _ 6 (by omega), h.count]
    omega
  have hfill : (64 - (ctx.totalN &&& 0x3F)).toNat = 64 - (ctx.totalN &&& 0x3F).toNat :=
    UInt32.toNat_sub_of_le _ _ (UInt32.le_iff_toNat_le.mpr (by show _ ≤ 64; omega))
  have htotal : (ctx.totalN + length).toNat = (message.length + length.toNat) % 2 ^ 32 := by
    rw [UInt32.toNat_add, h.count]
    omega
  have hcarry : (if ctx.totalN + length < length then ctx.totalN2 + 1 else ctx.totalN2).toNat
      = (message.length + length.toNat) / 2 ^ 32 % 2 ^ 32 := by
    have hlt := length.toNat_lt
    have hone : (ctx.totalN2 + 1).toNat = (ctx.totalN2.toNat + 1) % 2 ^ 32 := UInt32.toNat_add _ _
    by_cases hover : ctx.totalN + length < length
    · rw [if_pos hover, hone, h.carries]
      rw [UInt32.lt_iff_toNat_lt, htotal] at hover
      omega
    · rw [if_neg hover, h.carries]
      rw [UInt32.lt_iff_toNat_lt, htotal] at hover
      omega
  unfold md5Update
  rw [if_neg h0]
  simp only [hmask]
  obtain ⟨r, buffer, input', length', left', hfilled, hwhole, hlen', hroom⟩ :=
    md5Fill_spec { ctx with
        totalN := ctx.totalN + length
        totalN2 := if ctx.totalN + length < length then ctx.totalN2 + 1 else ctx.totalN2 }
      (ctx.totalN &&& 0x3F) hlen (by omega) hfill
  rw [hfilled]
  obtain ⟨buffer', hcopied, hbuffer'⟩ := loop_copy_spec { ctx with
        toRegisters := r, buffer := buffer, totalN := ctx.totalN + length
        totalN2 := if ctx.totalN + length < length then ctx.totalN2 + 1 else ctx.totalN2 } hlen' hroom
  refine ⟨_, hcopied, ?_⟩
  have hstream : wholePieces 64 Rfc.block Rfc.init (message ++ input.take length.toNat)
      = wholePieces 64 Rfc.block r (buffer.val.take left'.toNat ++ input'.take length'.toNat) := by
    rw [wholePieces_append (by decide), ← h.registers, ← h.pending, ← hleft]
    exact hwhole
  refine ⟨?_, ?_, ?_, ?_⟩
  · rw [hstream]
  · rw [hstream]
    refine hbuffer' _ ?_
    rw [← hstream, wholePieces_rest_length (by decide)]
  · rw [List.length_append, List.length_take, Nat.min_eq_left hlen]
    exact htotal
  · rw [List.length_append, List.length_take, Nat.min_eq_left hlen]
    exact hcarry

/-! ## §6. The digest. -/

theorem bytesOf_congr {k m n : Nat} (h : m % 256 ^ k = n % 256 ^ k) : Rfc.bytesOf k m = Rfc.bytesOf k n := by
  rw [← Rfc.bytesOf_mod k m, h, Rfc.bytesOf_mod]

/-- `msglen` is the bit length, in eight bytes. -/
theorem msglen_eq {ctx : MdContext} {message : Bytes} (h : Absorbed ctx message) :
    sival (ctx.totalN <<< 3) ++ sival ((ctx.totalN >>> 29) ||| (ctx.totalN2 <<< 3))
      = Rfc.bytesOf 8 (8 * message.length) := by
  have hcount := h.count
  have hcarries := h.carries
  have hlow : (ctx.totalN <<< 3).toNat = ctx.totalN.toNat * 8 % 2 ^ 32 := toNat_shl ctx.totalN 3 (by omega)
  have htop : (ctx.totalN >>> 29).toNat = ctx.totalN.toNat / 2 ^ 29 := toNat_shr ctx.totalN 29 (by omega)
  have hhigh : ((ctx.totalN >>> 29) ||| (ctx.totalN2 <<< 3)).toNat
      = ctx.totalN.toNat / 2 ^ 29 + ctx.totalN2.toNat * 8 % 2 ^ 32 := by
    rw [← htop]
    refine toNat_or_shl _ _ 3 (by omega) ?_
    rw [htop]
    omega
  rw [sival_eq, sival_eq, hlow, hhigh, show (8 : Nat) = 4 + 4 from rfl, Rfc.bytesOf_append]
  congr 1
  · exact bytesOf_congr (by omega)
  · exact bytesOf_congr (by omega)

/-- `md5_padding` is a one bit and as many zeros as the length asks for. -/
theorem padding_eq (n : Nat) :
    md5Padding.take (if n % 64 < 56 then 56 - n % 64 else 120 - n % 64)
      = 0x80 :: List.replicate ((119 - n % 64) % 64) 0 := by
  have hpadn : (if n % 64 < 56 then 56 - n % 64 else 120 - n % 64) = (119 - n % 64) % 64 + 1 := by
    split <;> omega
  rw [hpadn]
  show 0x80 :: (List.replicate 63 0).take ((119 - n % 64) % 64) = _
  rw [List.take_replicate, Nat.min_eq_left (by omega)]

/-- `md5_result` returns the digest of the message. -/
theorem md5Result_spec {ctx : MdContext} {message : Bytes} (h : Absorbed ctx message) :
    (md5Result ctx).map (·.1) = some (Rfc.md5 message) := by
  have hlast : (ctx.totalN &&& 0x3F).toNat = message.length % 64 := by
    rw [show (0x3F : UInt32) = UInt32.ofNat (2 ^ 6 - 1) from rfl, toNat_and _ 6 (by omega), h.count]
    omega
  have hpadn : (if ctx.totalN &&& 0x3F < 56 then 56 - (ctx.totalN &&& 0x3F) else 120 - (ctx.totalN &&& 0x3F)).toNat
      = if message.length % 64 < 56 then 56 - message.length % 64 else 120 - message.length % 64 := by
    rw [← hlast]
    have hcompare : ctx.totalN &&& 0x3F < 56 ↔ (ctx.totalN &&& 0x3F).toNat < 56 := UInt32.lt_iff_toNat_lt
    by_cases hlt : ctx.totalN &&& 0x3F < 56
    · rw [if_pos hlt, if_pos (hcompare.mp hlt)]
      exact UInt32.toNat_sub_of_le _ _ (UInt32.le_of_lt hlt)
    · rw [if_neg hlt, if_neg fun h => hlt (hcompare.mpr h)]
      exact UInt32.toNat_sub_of_le _ _ (UInt32.le_iff_toNat_le.mpr (by show _ ≤ 120; omega))
  have hpadlen : md5Padding.length = 64 := rfl
  obtain ⟨ctx₁, hfirst, habs₁⟩ := md5Update_spec md5Padding _ h (by rw [hpadn, hpadlen]; split <;> omega)
  obtain ⟨ctx₂, hsecond, habs₂⟩ := md5Update_spec (Rfc.bytesOf 8 (8 * message.length)) 8 habs₁
    (Nat.le_of_eq (Rfc.bytesOf_length 8 _).symm)
  rw [hpadn, padding_eq] at habs₁ habs₂
  have hpad : message ++ 0x80 :: List.replicate ((119 - message.length % 64) % 64) 0
      ++ (Rfc.bytesOf 8 (8 * message.length)).take (8 : UInt32).toNat = Rfc.pad message := by
    have hmsglen : (Rfc.bytesOf 8 (8 * message.length)).take (8 : UInt32).toNat = Rfc.bytesOf 8 (8 * message.length) :=
      List.take_of_length_le (Nat.le_of_eq (Rfc.bytesOf_length 8 _))
    rw [hmsglen]
    simp [Rfc.pad]
  rw [hpad] at habs₂
  show ((md5Update ctx md5Padding _).bind fun ctx₁ => (md5Update ctx₁ (sival _ ++ sival _) 8).map _).map _ = _
  rw [hfirst, Option.bind_some, msglen_eq h, hsecond]
  show some (sival ctx₂.A ++ sival ctx₂.B ++ sival ctx₂.C ++ sival ctx₂.D) = some (Rfc.md5 message)
  unfold Rfc.md5
  rw [← habs₂.registers, sival_eq, sival_eq, sival_eq, sival_eq]
  rfl

/-- `md5_update` once for each part of a message, as long as it succeeds. -/
def md5Updates : MdContext → List (Bytes × UInt32) → Option MdContext
  | ctx, [] => some ctx
  | ctx, (input, length) :: parts => (md5Update ctx input length).bind fun ctx => md5Updates ctx parts

/-- The message that the parts make up. -/
def messageOf (parts : List (Bytes × UInt32)) : Bytes := parts.flatMap fun p => p.1.take p.2.toNat

theorem md5Updates_spec : ∀ {parts : List (Bytes × UInt32)} {ctx : MdContext} {message : Bytes}, Absorbed ctx message →
    (∀ p ∈ parts, p.2.toNat ≤ p.1.length) →
    ∃ ctx', md5Updates ctx parts = some ctx' ∧ Absorbed ctx' (message ++ messageOf parts)
  | [], ctx, message, h, _ => ⟨ctx, rfl, by simpa [messageOf] using h⟩
  | (input, length) :: parts, ctx, message, h, hlen => by
      obtain ⟨ctx₁, hupdate, habs⟩ := md5Update_spec _ _ h (hlen _ List.mem_cons_self)
      obtain ⟨ctx', hrun, habs'⟩ := md5Updates_spec habs fun p hp => hlen p (List.mem_cons_of_mem _ hp)
      refine ⟨ctx', by rw [md5Updates, hupdate]; exact hrun, ?_⟩
      rw [List.append_assoc] at habs'
      exact habs'

/-- **The digest of a stream.**  However a message is cut into parts, and
whatever the context held before `md5_begin`, no copy leaves the buffer, no read
leaves the input, and `md5_result` returns MD5 of the message. -/
theorem md5_stream (ctx : MdContext) (parts : List (Bytes × UInt32)) (h : ∀ p ∈ parts, p.2.toNat ≤ p.1.length) :
    ∃ ctx', md5Updates (md5Begin ctx) parts = some ctx'
      ∧ (md5Result ctx').map (·.1) = some (Rfc.md5 (messageOf parts)) := by
  obtain ⟨ctx', hrun, habs⟩ := md5Updates_spec (md5Begin_absorbed ctx) h
  exact ⟨ctx', hrun, md5Result_spec habs⟩

/-- The context of a local that nothing has been written to. -/
def uninitialized : MdContext := ⟨⟨1, 2, 3, 4⟩, 5, 6, ⟨List.replicate 64 7, rfl⟩⟩

/-- A message in three parts, the first with more bytes behind it. -/
theorem md5_stream_threeParts :
    ∃ ctx', md5Updates (md5Begin uninitialized) [([97, 98, 99], 2), ([], 0), ([99], 1)] = some ctx'
      ∧ (md5Result ctx').map (·.1) = some (Rfc.md5 [97, 98, 99]) :=
  md5_stream uninitialized [([97, 98, 99], 2), ([], 0), ([99], 1)] (by decide)

theorem ofInt_toNat {n : Int} (h₀ : 0 ≤ n) (h₁ : n < 2 ^ 31) : (UInt32.ofInt n).toNat = n.toNat := by
  obtain ⟨k, rfl⟩ := Int.eq_ofNat_of_zero_le h₀
  rw [UInt32.ofInt, Int.toNat_natCast, UInt32.toNat_ofNat']
  omega

/-- `get_md5` of a whole message. -/
theorem getMd5_eq (ctx : MdContext) {input : Bytes} {n : Int} (h₀ : 0 ≤ n) (h₁ : n < 2 ^ 31)
    (hn : n.toNat ≤ input.length) : getMd5 ctx input n = some (Rfc.md5 (input.take n.toNat)) := by
  have htoNat := ofInt_toNat h₀ h₁
  obtain ⟨ctx', hupdate, habs⟩ := md5Update_spec input (UInt32.ofInt n) (md5Begin_absorbed ctx)
    (by omega)
  unfold getMd5
  rw [hupdate, Option.bind_some, md5Result_spec habs, htoNat]
  rfl

/-- `rsync_strong_checksum` is `get_md5`. -/
theorem rsyncStrongChecksum_eq (m : MdContext) {buf : Bytes} {len : Int} (h₀ : 0 ≤ len) (h₁ : len < 2 ^ 31)
    (hlen : len.toNat ≤ buf.length) : rsyncStrongChecksum m buf len = some (Rfc.md5 (buf.take len.toNat)) :=
  getMd5_eq m h₀ h₁ hlen

-- the third test of `md5.c`
example : getMd5 uninitialized [97, 98, 99] 3
    = some [0x90, 0x01, 0x50, 0x98, 0x3c, 0xd2, 0x4f, 0xb0, 0xd6, 0x96, 0x3f, 0x7d, 0x28, 0xe1, 0x7f, 0x72] := by
  decide +kernel

end LzLib.Checksum
