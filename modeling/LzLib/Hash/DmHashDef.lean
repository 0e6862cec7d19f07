/-
  LzLib.Hash.DmHashDef
  ────────────────────
  `dm_hashfn` (`hashfn.c`), the hash of Davies and Meyer: arrays of four words
  go through `dm_round`.

  `*intmsg` is a load of 32 bits in little-endian order, `char` is signed, and
  the length of the message is the length of the list.  A run records the
  arrays that it passes to `dm_round`, in their order.  The three counters are
  never counted below zero.
-/
import LzLib.Hash.HashFn

namespace LzLib.Hash

open LzLib.Foundation

/-! ## §1. `dm_round`. -/

/-- `uint32_t array[4]`. -/
structure DmArray where
  a₀ : UInt32
  a₁ : UInt32
  a₂ : UInt32
  a₃ : UInt32

/-- The words of an array. -/
def DmArray.words (array : DmArray) : List UInt32 := [array.a₀, array.a₁, array.a₂, array.a₃]

/-- The loop of `dm_round`, with `n` turns to go. -/
def dmRoundLoop (array : DmArray) : Nat → UInt32 → UInt32 → UInt32 → UInt32 × UInt32
  | 0, _, b₀, b₁ => (b₀, b₁)
  | n + 1, sum, b₀, b₁ =>
      let sum := sum + 0x9E3779B9
      let b₀ := b₀ + (((b₁ <<< 4) + array.a₀) ^^^ (b₁ + sum) ^^^ ((b₁ >>> 5) + array.a₁))
      let b₁ := b₁ + (((b₀ <<< 4) + array.a₂) ^^^ (b₀ + sum) ^^^ ((b₀ >>> 5) + array.a₃))
      dmRoundLoop array n sum b₀ b₁

/-- `dm_round (rounds, array, &h0, &h1)`. -/
def dmRound (rounds : Nat) (array : DmArray) (h : UInt32 × UInt32) : UInt32 × UInt32 :=
  let b := dmRoundLoop array rounds 0 h.1 h.2
  (h.1 + b.1, h.2 + b.2)

/-! ## §2. `dm_hashfn`. -/

/-- `__pad (len)`. -/
def padWord (len : Nat) : UInt32 :=
  let pad := len.toUInt32 ||| (len.toUInt32 <<< 8)
  pad ||| (pad <<< 16)

/-- The word `i` of a message. -/
def loadWord (msg : Bytes) (i : Nat) : UInt32 :=
  (msg.getD (4 * i) 0).toUInt32 ||| ((msg.getD (4 * i + 1) 0).toUInt32 <<< 8)
    ||| ((msg.getD (4 * i + 2) 0).toUInt32 <<< 16) ||| ((msg.getD (4 * i + 3) 0).toUInt32 <<< 24)

/-- The words that `intmsg` has passed, and what is left of words and bytes. -/
structure Counters where
  intmsg : Nat
  fullWords : Nat
  fullBytes : Nat

/-- The counters when one more word is read. -/
def Counters.next (c : Counters) : Counters := ⟨c.intmsg + 1, c.fullWords - 1, c.fullBytes - 4⟩

/-- A run so far: the counters, the two halves of the hash, and the arrays passed to `dm_round`. -/
structure DmState where
  counters : Counters
  h : UInt32 × UInt32
  passed : List DmArray

/-- One turn of the loop over full quads. -/
def quadStep (msg : Bytes) (s : DmState) : DmState :=
  let c₀ := s.counters
  let c₁ := c₀.next
  let c₂ := c₁.next
  let c₃ := c₂.next
  let array := ⟨loadWord msg c₀.intmsg, loadWord msg c₁.intmsg, loadWord msg c₂.intmsg, loadWord msg c₃.intmsg⟩
  ⟨c₃.next, dmRound 6 array s.h, s.passed ++ [array]⟩

def quadLoop (msg : Bytes) : Nat → DmState → DmState
  | 0, s => s
  | n + 1, s => quadLoop msg n (quadStep msg s)

/-- `while (full_bytes)`: the byte `len - full_bytes` is shifted in. -/
def tailLoop (msg : Bytes) : Nat → UInt32 → UInt32
  | 0, word => word
  | fullBytes + 1, word =>
      tailLoop msg fullBytes ((word <<< 8) ||| charToUInt32 (msg.getD (msg.length - (fullBytes + 1)) 0))

/-- One turn of the last loop: the word for the array, and the counters. -/
def lastSlot (msg : Bytes) (pad : UInt32) (c : Counters) : UInt32 × Counters :=
  if c.fullWords ≠ 0 then (loadWord msg c.intmsg, c.next)
  -- the first slot behind the full words takes all bytes that are left, the next ones the pad alone
  else (tailLoop msg c.fullBytes pad, { c with fullBytes := 0 })

/-- A whole run of `dm_hashfn`. -/
def dmRun (msg : Bytes) : DmState :=
  let len := msg.length
  let pad := padWord len
  let s := quadLoop msg (len / 16) ⟨⟨0, len / 4, len⟩, (0x9464a485, 0x542e1a94), []⟩
  let s₀ := lastSlot msg pad s.counters
  let s₁ := lastSlot msg pad s₀.2
  let s₂ := lastSlot msg pad s₁.2
  let s₃ := lastSlot msg pad s₂.2
  let array := ⟨s₀.1, s₁.1, s₂.1, s₃.1⟩
  ⟨s₃.2, dmRound 10 array s.h, s.passed ++ [array]⟩

/-- `dm_hashfn (msg, len)`. -/
def dmHashfn (msg : Bytes) : UInt32 := (dmRun msg).h.1 ^^^ (dmRun msg).h.2

/-- The words passed to `dm_round`, in their order. -/
def passedWords (msg : Bytes) : List UInt32 := (dmRun msg).passed.flatMap DmArray.words

end LzLib.Hash
