/-
  LzLib.Checksum.Md5Def
  ─────────────────────
  `md5.c`, and `rsync_strong_checksum` (`checksum.c`).

  The machine is one on which `CAREFUL_ALIGNMENT` is 1, so `IVAL` and `SIVAL`
  go byte by byte.  `none` is a read behind the end of the input or a `memcpy`
  over the end of `ctx->buffer`.
-/
import LzLib.Foundation.Words

namespace LzLib.Checksum

open LzLib.Foundation

/-! ## §1. The context. -/

/-- `CSUM_CHUNK`. -/
def csumChunk : Nat := 64

/-- An array of `CSUM_CHUNK` bytes. -/
abbrev Chunk := { bs : Bytes // bs.length = csumChunk }

/-- `A`, `B`, `C` and `D`. -/
structure Registers where
  A : UInt32
  B : UInt32
  C : UInt32
  D : UInt32
  deriving DecidableEq

/-- `md_context`.  The comments in the header call `totalN` and `totalN2` a bit
count; `md5_update` counts bytes in them. -/
structure MdContext extends Registers where
  totalN : UInt32
  totalN2 : UInt32
  buffer : Chunk
  deriving DecidableEq

/-- `md5_begin`; the buffer keeps what it held. -/
def md5Begin (ctx : MdContext) : MdContext :=
  { ctx with
    A := 0x67452301, B := 0xEFCDAB89, C := 0x98BADCFE, D := 0x10325476
    totalN := 0, totalN2 := 0 }

/-! ## §2. `md5_process`. -/

/-- `UVAL`. -/
def uval (data : Chunk) (pos : Nat) : UInt32 := (data.val.getD pos 0).toUInt32

/-- `PVAL`. -/
def pval (data : Chunk) (pos : Nat) : UInt32 := uval data pos ||| (uval data (pos + 1) <<< 8)

/-- `IVAL`. -/
def ival (data : Chunk) (pos : Nat) : UInt32 := pval data pos ||| (pval data (pos + 2) <<< 16)

/-- The macro `S`. -/
def md5S (x n : UInt32) : UInt32 := (x <<< n) ||| ((x &&& 0xFFFFFFFF) >>> (32 - n))

/-- What the lines of a round differ in. -/
structure Line where
  k : Fin 16
  s : UInt32
  t : UInt32
  deriving DecidableEq, Inhabited

/-- A macro `F`. -/
abbrev Mix := UInt32 → UInt32 → UInt32 → UInt32

/-- The macro `P`: the new value of its first argument. -/
def md5P (F : Mix) (X : Fin 16 → UInt32) (a b c d : UInt32) (l : Line) : UInt32 :=
  let a := a + (F b c d + X l.k + l.t)
  md5S a l.s + b

/-- `P(A, B, C, D, …); P(D, A, B, C, …); P(C, D, A, B, …); P(B, C, D, A, …);`. -/
def fourLines (F : Mix) (X : Fin 16 → UInt32) (r : Registers) (l₀ l₁ l₂ l₃ : Line) : Registers :=
  let A := md5P F X r.A r.B r.C r.D l₀
  let D := md5P F X r.D A r.B r.C l₁
  let C := md5P F X r.C D A r.B l₂
  let B := md5P F X r.B C D A l₃
  ⟨A, B, C, D⟩

/-- The lines under one definition of `F`. -/
def md5Round (F : Mix) (X : Fin 16 → UInt32) : Registers → List Line → Registers
  | r, l₀ :: l₁ :: l₂ :: l₃ :: ls => md5Round F X (fourLines F X r l₀ l₁ l₂ l₃) ls
  | r, _ => r

/-- The first `F`. -/
def f₁ (x y z : UInt32) : UInt32 := z ^^^ (x &&& (y ^^^ z))

/-- The second `F`. -/
def f₂ (x y z : UInt32) : UInt32 := y ^^^ (z &&& (x ^^^ y))

/-- The third `F`. -/
def f₃ (x y z : UInt32) : UInt32 := x ^^^ y ^^^ z

/-- The fourth `F`. -/
def f₄ (x y z : UInt32) : UInt32 := y ^^^ (x ||| ~~~z)

/-- The lines under the first `F`. -/
def lines₁ : List Line :=
  [⟨0, 7, 0xD76AA478⟩, ⟨1, 12, 0xE8C7B756⟩, ⟨2, 17, 0x242070DB⟩, ⟨3, 22, 0xC1BDCEEE⟩,
   ⟨4, 7, 0xF57C0FAF⟩, ⟨5, 12, 0x4787C62A⟩, ⟨6, 17, 0xA8304613⟩, ⟨7, 22, 0xFD469501⟩,
   ⟨8, 7, 0x698098D8⟩, ⟨9, 12, 0x8B44F7AF⟩, ⟨10, 17, 0xFFFF5BB1⟩, ⟨11, 22, 0x895CD7BE⟩,
   ⟨12, 7, 0x6B901122⟩, ⟨13, 12, 0xFD987193⟩, ⟨14, 17, 0xA679438E⟩, ⟨15, 22, 0x49B40821⟩]

/-- The lines under the second `F`. -/
def lines₂ : List Line :=
  [⟨1, 5, 0xF61E2562⟩, ⟨6, 9, 0xC040B340⟩, ⟨11, 14, 0x265E5A51⟩, ⟨0, 20, 0xE9B6C7AA⟩,
   ⟨5, 5, 0xD62F105D⟩, ⟨10, 9, 0x02441453⟩, ⟨15, 14, 0xD8A1E681⟩, ⟨4, 20, 0xE7D3FBC8⟩,
   ⟨9, 5, 0x21E1CDE6⟩, ⟨14, 9, 0xC33707D6⟩, ⟨3, 14, 0xF4D50D87⟩, ⟨8, 20, 0x455A14ED⟩,
   ⟨13, 5, 0xA9E3E905⟩, ⟨2, 9, 0xFCEFA3F8⟩, ⟨7, 14, 0x676F02D9⟩, ⟨12, 20, 0x8D2A4C8A⟩]

/-- The lines under the third `F`. -/
def lines₃ : List Line :=
  [⟨5, 4, 0xFFFA3942⟩, ⟨8, 11, 0x8771F681⟩, ⟨11, 16, 0x6D9D6122⟩, ⟨14, 23, 0xFDE5380C⟩,
   ⟨1, 4, 0xA4BEEA44⟩, ⟨4, 11, 0x4BDECFA9⟩, ⟨7, 16, 0xF6BB4B60⟩, ⟨10, 23, 0xBEBFBC70⟩,
   ⟨13, 4, 0x289B7EC6⟩, ⟨0, 11, 0xEAA127FA⟩, ⟨3, 16, 0xD4EF3085⟩, ⟨6, 23, 0x04881D05⟩,
   ⟨9, 4, 0xD9D4D039⟩, ⟨12, 11, 0xE6DB99E5⟩, ⟨15, 16, 0x1FA27CF8⟩, ⟨2, 23, 0xC4AC5665⟩]

/-- The lines under the fourth `F`. -/
def lines₄ : List Line :=
  [⟨0, 6, 0xF4292244⟩, ⟨7, 10, 0x432AFF97⟩, ⟨14, 15, 0xAB9423A7⟩, ⟨5, 21, 0xFC93A039⟩,
   ⟨12, 6, 0x655B59C3⟩, ⟨3, 10, 0x8F0CCC92⟩, ⟨10, 15, 0xFFEFF47D⟩, ⟨1, 21, 0x85845DD1⟩,
   ⟨8, 6, 0x6FA87E4F⟩, ⟨15, 10, 0xFE2CE6E0⟩, ⟨6, 15, 0xA3014314⟩, ⟨13, 21, 0x4E0811A1⟩,
   ⟨4, 6, 0xF7537E82⟩, ⟨11, 10, 0xBD3AF235⟩, ⟨2, 15, 0x2AD7D2BB⟩, ⟨9, 21, 0xEB86D391⟩]

/-- `md5_process`. -/
def md5Process (ctx : MdContext) (data : Chunk) : MdContext :=
  -- X[0] = IVAL(data, 0), …, X[15] = IVAL(data, 60)
  let X : Fin 16 → UInt32 := fun i => ival data (4 * i)
  let r := md5Round f₁ X ctx.toRegisters lines₁
  let r := md5Round f₂ X r lines₂
  let r := md5Round f₃ X r lines₃
  let r := md5Round f₄ X r lines₄
  { ctx with A := ctx.A + r.A, B := ctx.B + r.B, C := ctx.C + r.C, D := ctx.D + r.D }

/-! ## §3. `md5_update`. -/

/-- The `CSUM_CHUNK` bytes at `input`. -/
def chunkAt (input : Bytes) : Option Chunk :=
  if h : csumChunk ≤ input.length then some ⟨input.take csumChunk, by simp [h]⟩ else none

/-- `memcpy (buffer + left, input, n)`. -/
def memcpyAt (buffer : Chunk) (left : Nat) (input : Bytes) (n : Nat) : Option Chunk :=
  if h : left + n ≤ csumChunk ∧ n ≤ input.length then
    some ⟨buffer.val.take left ++ input.take n ++ buffer.val.drop (left + n), by
      have := buffer.property
      simp only [List.length_append, List.length_take, List.length_drop]
      omega⟩
  else none

/-- `while (length >= CSUM_CHUNK)`, with `input` and `length` behind it. -/
def md5Loop (ctx : MdContext) (input : Bytes) (length : UInt32) : Option (MdContext × Bytes × UInt32) :=
  if 64 ≤ length then
    (chunkAt input).bind fun data => md5Loop (md5Process ctx data) (input.drop csumChunk) (length - 64)
  else some (ctx, input, length)
termination_by length.toNat
decreasing_by
  rename_i h
  have h64 : (64 : UInt32).toNat ≤ length.toNat := UInt32.le_iff_toNat_le.mp h
  rw [UInt32.toNat_sub_of_le _ _ h]
  show length.toNat - 64 < length.toNat
  have : (64 : UInt32).toNat = 64 := rfl
  omega

/-- What fills a buffer that was begun: the context, `input`, `length` and
`left` behind `if (left && length >= fill)`. -/
def md5Fill (ctx : MdContext) (input : Bytes) (length left fill : UInt32) :
    Option (MdContext × Bytes × UInt32 × UInt32) :=
  if left ≠ 0 ∧ fill ≤ length then
    (memcpyAt ctx.buffer left.toNat input fill.toNat).bind fun buffer =>
      some (md5Process { ctx with buffer := buffer } buffer, input.drop fill.toNat, length - fill, 0)
  else some (ctx, input, length, left)

/-- `md5_update`; `input` is the bytes from the pointer on. -/
def md5Update (ctx : MdContext) (input : Bytes) (length : UInt32) : Option MdContext :=
  if length = 0 then some ctx
  else
    let left := ctx.totalN &&& 0x3F
    let fill := 64 - left
    let totalN := (ctx.totalN + length) &&& 0xFFFFFFFF
    let totalN2 := if totalN < length then ctx.totalN2 + 1 else ctx.totalN2
    let ctx := { ctx with totalN := totalN, totalN2 := totalN2 }
    (md5Fill ctx input length left fill).bind fun (ctx, input, length, left) =>
      (md5Loop ctx input length).bind fun (ctx, input, length) =>
        if length = 0 then some ctx
        else (memcpyAt ctx.buffer left.toNat input length.toNat).map fun buffer => { ctx with buffer := buffer }

/-! ## §4. `md5_result`, and the whole digest. -/

/-- `SSVALX`: its two bytes. -/
def ssvalx (val : UInt32) : Bytes := [(val &&& 0xFF).toUInt8, (val >>> 8).toUInt8]

/-- `SIVAL`: its four bytes. -/
def sival (val : UInt32) : Bytes := ssvalx (val &&& 0xFFFF) ++ ssvalx (val >>> 16)

/-- `md5_padding`. -/
def md5Padding : Bytes := 0x80 :: List.replicate 63 0

/-- `md5_result`: the digest, and the context it leaves. -/
def md5Result (ctx : MdContext) : Option (Bytes × MdContext) :=
  let high := (ctx.totalN >>> 29) ||| (ctx.totalN2 <<< 3)
  let low := ctx.totalN <<< 3
  let msglen := sival low ++ sival high
  let last := ctx.totalN &&& 0x3F
  let padn := if last < 56 then 56 - last else 120 - last
  (md5Update ctx md5Padding padn).bind fun ctx =>
    (md5Update ctx msglen 8).map fun ctx =>
      (sival ctx.A ++ sival ctx.B ++ sival ctx.C ++ sival ctx.D, ctx)

/-- `get_md5`; `ctx` is what the local holds before `md5_begin`.  The `int` `n`
becomes the `uint32_t` length. -/
def getMd5 (ctx : MdContext) (input : Bytes) (n : Int) : Option Bytes :=
  (md5Update (md5Begin ctx) input (UInt32.ofInt n)).bind fun ctx => (md5Result ctx).map (·.1)

/-- `rsync_strong_checksum`. -/
def rsyncStrongChecksum (m : MdContext) (buf : Bytes) (len : Int) : Option Bytes :=
  (md5Update (md5Begin m) buf (UInt32.ofInt len)).bind fun m => (md5Result m).map (·.1)

end LzLib.Checksum
