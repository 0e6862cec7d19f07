/-
  LzLib.CommonUtils.IovSubset
  ───────────────────────────
  **`iov_subset` CUTS A SLICE OUT OF A VECTOR** (`common-utils.h`).

  The offsets are of type `off_t`, signed, the lengths of type `size_t`; where
  the two meet, C compares without sign.  As long as the whole vector has less
  than `2 ^ 63` bytes this makes no difference, and what is written is `slice`,
  the part of each piece between the two offsets: `iov_subset_slices`.
-/
import LzLib.Foundation.Gather
import Mathlib.Data.List.Forall2
import Mathlib.Algebra.Group.Nat.Defs
import Mathlib.Algebra.Group.Int.Defs

namespace LzLib.CommonUtils

open LzLib.Foundation

/-! ## §1. The function. -/

/-- What an integer is as a `size_t`. -/
def sizeT (n : Int) : Int := n % 2 ^ 64

/-- What an integer is as an `off_t`. -/
def offT (n : Int) : Int := n.bmod (2 ^ 64)

/-- The variables of the loop, and the entries of `new` that have been written. -/
structure SubsetState (β : Type) where
  newCount : Int
  offset : Int
  new : List (IoVec β)

section Loop

variable {β : Type}

/-- The entry that is written for `orig[i]`, at `offset`. -/
def newEntry (srcOffset dstOffset offset : Int) (orig : IoVec β) : IoVec β :=
  let startOffset := if srcOffset ≥ offset then sizeT (srcOffset - offset) else 0
  let endOffset := if sizeT dstOffset ≤ sizeT (offset + orig.iovLen) then sizeT (dstOffset - offset) else orig.iovLen
  ⟨orig.base, orig.off + startOffset.toNat, (sizeT (endOffset - startOffset)).toNat⟩

/-- One turn of the loop; `new` says whether the argument is not NULL. -/
def subsetStep (srcOffset dstOffset : Int) (new : Bool) (st : SubsetState β) (orig : IoVec β) : SubsetState β :=
  let offset := offT (st.offset + orig.iovLen)
  if sizeT (st.offset + orig.iovLen) < sizeT srcOffset ∨ st.offset > dstOffset then { st with offset }
  else if new then ⟨st.newCount + 1, offset, st.new ++ [newEntry srcOffset dstOffset st.offset orig]⟩
  else ⟨st.newCount + 1, offset, st.new⟩

/-- `iov_subset`: the count, and the entries that `new` is given. -/
def iovSubset (orig : List (IoVec β)) (srcOffset dstOffset : Int) (new : Bool) : Int × List (IoVec β) :=
  let st := orig.foldl (subsetStep srcOffset dstOffset new) ⟨0, 0, []⟩
  (st.newCount, st.new)

/-! ## §2. The slice. -/

/-- The piece lies inside `orig`. -/
def IoVec.Inside (piece orig : IoVec β) : Prop :=
  piece.base = orig.base ∧ orig.off ≤ piece.off ∧ piece.off + piece.iovLen ≤ orig.off + orig.iovLen

/-- The part of a piece at `offset` that lies between `src` and `dst`; none, if they
do not even touch. -/
def clip (src dst offset : Nat) (orig : IoVec β) : List (IoVec β) :=
  if offset + orig.iovLen < src ∨ dst < offset then []
  else [⟨orig.base, orig.off + (src - offset), min (dst - offset) orig.iovLen - (src - offset)⟩]

/-- The parts of the pieces of a vector at `offset`. -/
def slice (src dst : Nat) : Nat → List (IoVec β) → List (IoVec β)
  | _, [] => []
  | offset, orig :: v => clip src dst offset orig ++ slice src dst (offset + orig.iovLen) v

variable {src dst : Nat}

theorem sizeT_nat {n : Nat} (h : n < 2 ^ 64) : sizeT n = n := Int.emod_eq_of_lt (by omega) (by omega)

theorem offT_nat {n : Nat} (h : n < 2 ^ 63) : offT n = n := by
  unfold offT
  rw [Int.bmod_eq_of_le] <;> omega

/-- The entry that is written is the part of the piece. -/
theorem newEntry_clip (hle : src ≤ dst) (hdst : dst < 2 ^ 63) {offset : Nat} {orig : IoVec β}
    (hend : offset + orig.iovLen < 2 ^ 63) (hsrc : src ≤ offset + orig.iovLen) (hoffset : offset ≤ dst) :
    newEntry src dst offset orig
      = ⟨orig.base, orig.off + (src - offset), min (dst - offset) orig.iovLen - (src - offset)⟩ := by
  have hcast : (offset : Int) + orig.iovLen = ((offset + orig.iovLen : Nat) : Int) := by omega
  have hstart : (if (src : Int) ≥ offset then sizeT (src - offset) else 0) = ((src - offset : Nat) : Int) := by
    by_cases h : (src : Int) ≥ offset
    · rw [if_pos h, show (src : Int) - offset = ((src - offset : Nat) : Int) by omega, sizeT_nat (by omega)]
    · rw [if_neg h]
      omega
  have hstop : (if (dst : Int) ≤ ((offset + orig.iovLen : Nat) : Int) then sizeT (dst - offset) else orig.iovLen)
      = ((min (dst - offset) orig.iovLen : Nat) : Int) := by
    by_cases h : (dst : Int) ≤ ((offset + orig.iovLen : Nat) : Int)
    · rw [if_pos h, show (dst : Int) - offset = ((dst - offset : Nat) : Int) by omega, sizeT_nat (by omega)]
      omega
    · rw [if_neg h]
      omega
  have hlen : ((min (dst - offset) orig.iovLen : Nat) : Int) - ((src - offset : Nat) : Int)
      = ((min (dst - offset) orig.iovLen - (src - offset) : Nat) : Int) := by omega
  unfold newEntry
  dsimp only
  rw [hcast, sizeT_nat (n := dst) (by omega), sizeT_nat (n := offset + orig.iovLen) (by omega), hstart, hstop, hlen,
    sizeT_nat (by omega), Int.toNat_natCast, Int.toNat_natCast]

/-- **One turn of the loop writes the part of one piece.** -/
theorem subsetStep_clip (hle : src ≤ dst) (hdst : dst < 2 ^ 63) (new : Bool) (count : Int) {offset : Nat}
    (written : List (IoVec β)) {orig : IoVec β} (hend : offset + orig.iovLen < 2 ^ 63) :
    subsetStep src dst new ⟨count, offset, written⟩ orig
      = ⟨count + (clip src dst offset orig).length, ((offset + orig.iovLen : Nat) : Int),
          written ++ if new then clip src dst offset orig else []⟩ := by
  have hcast : (offset : Int) + orig.iovLen = ((offset + orig.iovLen : Nat) : Int) := by omega
  unfold subsetStep clip
  dsimp only
  rw [hcast, offT_nat hend, sizeT_nat (by omega), sizeT_nat (by omega)]
  by_cases hout : offset + orig.iovLen < src ∨ dst < offset
  · rw [if_pos (by omega), if_pos hout]
    cases new <;> simp
  · have hentry := newEntry_clip hle hdst hend (show src ≤ offset + orig.iovLen by omega) (show offset ≤ dst by omega)
    rw [if_neg (by omega), if_neg hout]
    cases new with
    | true =>
        rw [if_pos rfl, if_pos rfl, hentry]
        rfl
    | false =>
        rw [if_neg Bool.false_ne_true, if_neg Bool.false_ne_true, List.append_nil]
        rfl

/-- **The loop writes the slice.** -/
theorem foldl_subsetStep (hle : src ≤ dst) (hdst : dst < 2 ^ 63) (new : Bool) : ∀ (orig : List (IoVec β)) (count : Int)
    (offset : Nat) (written : List (IoVec β)), offset + total orig < 2 ^ 63 →
    orig.foldl (subsetStep src dst new) ⟨count, offset, written⟩
      = ⟨count + (slice src dst offset orig).length, ((offset + total orig : Nat) : Int),
          written ++ if new then slice src dst offset orig else []⟩ := by
  intro orig
  induction orig with
  | nil =>
      intro count offset written _
      cases new <;> simp [slice]
  | cons iov orig ih =>
      intro count offset written htotal
      rw [total_cons] at htotal
      rw [List.foldl_cons, subsetStep_clip hle hdst new count written (by omega), ih _ _ _ (by omega), total_cons,
        Nat.add_assoc, slice, Int.add_assoc, ← Int.natCast_add, ← List.length_append]
      cases new with
      | true => rw [if_pos rfl, if_pos rfl, if_pos rfl, List.append_assoc]
      | false => rw [if_neg Bool.false_ne_true, if_neg Bool.false_ne_true, if_neg Bool.false_ne_true, List.append_nil]

theorem iovSubset_eq (hle : src ≤ dst) (hdst : dst < 2 ^ 63) {orig : List (IoVec β)} (htotal : total orig < 2 ^ 63)
    (new : Bool) :
    iovSubset orig src dst new = (((slice src dst 0 orig).length : Int), if new then slice src dst 0 orig else []) := by
  have hfold := foldl_subsetStep hle hdst new orig 0 0 [] (by rw [Nat.zero_add]; exact htotal)
  unfold iovSubset
  rw [show orig.foldl (subsetStep src dst new) ⟨0, 0, []⟩ = _ from hfold]
  dsimp only
  rw [Int.zero_add, List.nil_append]

/-- The parts are parts of pieces, in order. -/
theorem slice_inside (hle : src ≤ dst) : ∀ (orig : List (IoVec β)) (offset : Nat),
    ∃ kept, kept.Sublist orig ∧ List.Forall₂ IoVec.Inside (slice src dst offset orig) kept := by
  intro orig
  induction orig with
  | nil =>
      intro offset
      exact ⟨[], List.Sublist.refl _, List.Forall₂.nil⟩
  | cons iov orig ih =>
      intro offset
      obtain ⟨kept, hsub, hall⟩ := ih (offset + iov.iovLen)
      rw [slice, clip]
      split
      · exact ⟨kept, hsub.cons iov, hall⟩
      · refine ⟨iov :: kept, hsub.cons_cons iov, List.Forall₂.cons ⟨rfl, ?_, ?_⟩ hall⟩
        · show iov.off ≤ iov.off + (src - offset)
          omega
        · show iov.off + (src - offset) + (min (dst - offset) iov.iovLen - (src - offset)) ≤ iov.off + iov.iovLen
          omega

end Loop

/-! ## §3. The bytes. -/

section Bytes

variable {src dst : Nat}

/-- The bytes of the part of a piece. -/
theorem gather_clip {iov : IoVec Bytes} (h : iov.InBuf) (offset : Nat) :
    gather (clip src dst offset iov) = (iov.bytes.take (dst - offset)).drop (src - offset) := by
  have hlen := IoVec.bytes_length h
  unfold clip
  split
  next hout =>
    symm
    rw [gather_nil, List.drop_eq_nil_iff, List.length_take]
    omega
  next =>
    show ((iov.base.drop (iov.off + (src - offset))).take _) ++ [] = _
    unfold IoVec.bytes
    rw [List.append_nil, List.take_take, List.drop_take, List.drop_drop]

/-- **The slice of the bytes.** -/
theorem gather_slice : ∀ {orig : List (IoVec Bytes)} (offset : Nat), Readable orig →
    gather (slice src dst offset orig) = ((gather orig).take (dst - offset)).drop (src - offset) := by
  intro orig
  induction orig with
  | nil =>
      intro offset _
      rw [slice, gather_nil, List.take_nil, List.drop_nil]
  | cons iov orig ih =>
      intro offset hread
      have hrest : Readable orig := fun i hi => hread i (List.mem_cons_of_mem _ hi)
      have hlen := IoVec.bytes_length (hread iov List.mem_cons_self)
      have happend : gather (slice src dst offset (iov :: orig))
          = gather (clip src dst offset iov) ++ gather (slice src dst (offset + iov.iovLen) orig) := List.flatMap_append
      rw [happend, gather_clip (hread iov List.mem_cons_self), ih _ hrest, gather_cons, List.take_append, List.drop_append,
        List.length_take, hlen, Nat.sub_add_eq, Nat.sub_add_eq]
      congr 1
      -- either the piece ends before `dst`, or nothing of the rest is taken
      rcases Nat.le_total iov.iovLen (dst - offset) with hshort | hlong
      · rw [Nat.min_eq_right hshort]
      · rw [Nat.sub_eq_zero_of_le hlong, List.take_zero, List.drop_nil, List.drop_nil]

end Bytes

/-- **`iov_subset` slices a scattered buffer** whose length is an `off_t`: what is
written denotes the bytes from `src` to `dst`, each entry lies inside the one that it
comes from, there are not more than before, and the count is the same without `new`. -/
theorem iov_subset_slices {orig : List (IoVec Bytes)} (hread : Readable orig) (htotal : total orig < 2 ^ 63)
    (src dst : Nat) (hle : src ≤ dst) (hdst : dst < 2 ^ 63) :
    gather (iovSubset orig src dst true).2 = ((gather orig).take dst).drop src ∧
      (∃ kept, kept.Sublist orig ∧ List.Forall₂ IoVec.Inside (iovSubset orig src dst true).2 kept) ∧
      (iovSubset orig src dst true).1 = ((iovSubset orig src dst true).2.length : Int) ∧
      (iovSubset orig src dst true).2.length ≤ orig.length ∧
      iovSubset orig src dst false = ((iovSubset orig src dst true).1, []) := by
  obtain ⟨kept, hsub, hall⟩ := slice_inside hle orig 0
  rw [iovSubset_eq hle hdst htotal, iovSubset_eq hle hdst htotal]
  refine ⟨?_, ⟨kept, hsub, hall⟩, rfl, ?_, rfl⟩
  · exact gather_slice 0 hread
  · show (slice src dst 0 orig).length ≤ orig.length
    rw [hall.length_eq]
    exact hsub.length_le

/-- The third to fifth byte of `"ab"`, `""`, `"cdef"`. -/
theorem iov_subset_slices_cde :
    gather (iovSubset [IoVec.whole [97, 98], IoVec.whole [], IoVec.whole [99, 100, 101, 102]] (2 : Nat) (5 : Nat) true).2
        = [99, 100, 101] ∧
      (iovSubset [IoVec.whole [97, 98], IoVec.whole [], IoVec.whole [99, 100, 101, 102]] (2 : Nat) (5 : Nat) true).2.length
        ≤ 3 := by
  have hread : Readable [IoVec.whole [97, 98], IoVec.whole [], IoVec.whole [99, 100, 101, 102]] := by
    intro iov hiov
    simp only [List.mem_cons, List.not_mem_nil, or_false] at hiov
    rcases hiov with rfl | rfl | rfl <;> exact Nat.le_refl _
  obtain ⟨hbytes, -, -, hlen, -⟩ := iov_subset_slices hread (by decide) 2 5 (by decide) (by decide)
  exact ⟨hbytes, hlen⟩

/-- Behind `2 ^ 63` bytes the offset is negative, and the entry for the last byte lies
in none of the buffers. -/
theorem iov_subset_overflow :
    ∃ orig : List (IoVec Bytes), Readable orig ∧ orig.length = 3 ∧
      ∃ piece ∈ (iovSubset orig 0 1 true).2, ∀ iov ∈ orig, ¬ IoVec.Inside piece iov := by
  have hrun : ∀ b : Bytes, (iovSubset [⟨b, 0, 2 ^ 62⟩, ⟨b, 0, 2 ^ 62⟩, ⟨[7], 0, 1⟩] 0 1 true).2
      = [⟨b, 0, 1⟩, ⟨[7], 2 ^ 63, 1⟩] := by
    intro b
    simp [iovSubset, subsetStep, newEntry, sizeT, offT]
  have hbig : (⟨List.replicate (2 ^ 62) 0, 0, 2 ^ 62⟩ : IoVec Bytes).InBuf := by
    show 0 + 2 ^ 62 ≤ (List.replicate (2 ^ 62) (0 : UInt8)).length
    rw [List.length_replicate]
    decide
  refine ⟨[⟨List.replicate (2 ^ 62) 0, 0, 2 ^ 62⟩, ⟨List.replicate (2 ^ 62) 0, 0, 2 ^ 62⟩, ⟨[7], 0, 1⟩], ?_, rfl,
    ⟨[7], 2 ^ 63, 1⟩, ?_, ?_⟩
  · intro iov hiov
    simp only [List.mem_cons, List.not_mem_nil, or_false] at hiov
    rcases hiov with rfl | rfl | rfl
    · exact hbig
    · exact hbig
    · exact Nat.le_refl _
  · rw [hrun]
    exact List.mem_cons_of_mem _ List.mem_cons_self
  · intro iov hiov hinside
    have hend := hinside.2.2
    simp only [List.mem_cons, List.not_mem_nil, or_false] at hiov
    rcases hiov with rfl | rfl | rfl <;> exact absurd hend (by decide)

end LzLib.CommonUtils
