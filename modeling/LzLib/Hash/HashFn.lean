/-
  LzLib.Hash.HashFn
  ─────────────────
  `SuperFastHash` (`hashfn.c`): 32-bit unsigned arithmetic, sixteen-bit loads
  in little-endian order, and `char` signed, so that the two single-byte end
  cases add a sign-extended byte.
-/
import LzLib.Foundation.Words

namespace LzLib.Hash

open LzLib.Foundation

/-- `get16bits (d)`. -/
def get16bits (lo hi : UInt8) : UInt32 := lo.toUInt32 ||| (hi.toUInt32 <<< 8)

/-- A (signed) `char` converted to `uint32_t`. -/
def charToUInt32 (c : UInt8) : UInt32 :=
  if c < 128 then c.toUInt32 else c.toUInt32 ||| 0xffffff00

/-- One turn of the main loop. -/
def superFastRound (hash : UInt32) (d₀ d₁ d₂ d₃ : UInt8) : UInt32 :=
  let hash := hash + get16bits d₀ d₁
  let tmp := (get16bits d₂ d₃ <<< 11) ^^^ hash
  let hash := (hash <<< 16) ^^^ tmp
  hash + (hash >>> 11)

/-- The main loop, then the end cases `rem = 3, 2, 1`. -/
def superFastLoop : UInt32 → Bytes → UInt32
  | hash, d₀ :: d₁ :: d₂ :: d₃ :: rest => superFastLoop (superFastRound hash d₀ d₁ d₂ d₃) rest
  | hash, [d₀, d₁, d₂] =>
      let hash := hash + get16bits d₀ d₁
      let hash := hash ^^^ (hash <<< 16)
      let hash := hash ^^^ (charToUInt32 d₂ <<< 18)
      hash + (hash >>> 11)
  | hash, [d₀, d₁] =>
      let hash := hash + get16bits d₀ d₁
      let hash := hash ^^^ (hash <<< 11)
      hash + (hash >>> 17)
  | hash, [d₀] =>
      let hash := hash + charToUInt32 d₀
      let hash := hash ^^^ (hash <<< 10)
      hash + (hash >>> 1)
  | hash, [] => hash

/-- The final "avalanching". -/
def superFastFinish (hash : UInt32) : UInt32 :=
  let hash := hash ^^^ (hash <<< 3)
  let hash := hash + (hash >>> 5)
  let hash := hash ^^^ (hash <<< 4)
  let hash := hash + (hash >>> 17)
  let hash := hash ^^^ (hash <<< 25)
  hash + (hash >>> 6)

/-- `SuperFastHash (data, strlen (data))`: the length becomes an `int32_t`, so that
a longer key is cut, or counts as empty. -/
def superFastHash (data : Bytes) : UInt32 :=
  let len := wrap32 data.length
  if len ≤ 1 then 1
  else superFastFinish (superFastLoop len.toNat.toUInt32 (data.take len.toNat))

end LzLib.Hash
