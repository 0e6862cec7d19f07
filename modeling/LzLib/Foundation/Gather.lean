/-
  LzLib.Foundation.Gather
  ───────────────────────
  **SCATTER/GATHER VECTORS.**

  An `IoVec` is a piece of a buffer: a base, an offset into it and a length.
  `skip n v` is the vector that is left after the first `n` bytes of `v` have
  been transferred, empty pieces in front removed; `gather` is the byte
  string a vector of readable buffers denotes, and `gather_skip` says that
  skipping bytes and dropping bytes of the denotation are the same.  `scatter`
  is the other direction: bytes laid out over the pieces of a vector in some
  memory, and `scatter_append` says that laying out two runs of bytes one
  after the other, the second over what `skip` leaves, is laying them out at
  once.
-/
import LzLib.Foundation.Words

namespace LzLib.Foundation

/-- `struct iovec`: `iov_base` is byte `off` of the buffer `base`. -/
structure IoVec (β : Type) where
  base : β
  off : Nat
  iovLen : Nat
  deriving DecidableEq

section Skip

variable {β : Type}

/-- The number of bytes a vector asks for. -/
def total (v : List (IoVec β)) : Nat := (v.map IoVec.iovLen).sum

/-- What is left of one piece after its first `n` bytes. -/
def IoVec.advance (iov : IoVec β) (n : Nat) : IoVec β :=
  { iov with off := iov.off + n, iovLen := iov.iovLen - n }

/-- What is left of `v` after `n` bytes, without empty pieces in front. -/
def skip : Nat → List (IoVec β) → List (IoVec β)
  | _, [] => []
  | n, iov :: rest =>
      if iov.iovLen ≤ n then skip (n - iov.iovLen) rest else iov.advance n :: rest

/-- No empty piece in front. -/
def Trim : List (IoVec β) → Prop
  | [] => True
  | iov :: _ => 0 < iov.iovLen

@[simp] theorem total_nil : total ([] : List (IoVec β)) = 0 := rfl

@[simp] theorem total_cons (iov : IoVec β) (v : List (IoVec β)) :
    total (iov :: v) = iov.iovLen + total v := by
  simp [total]

theorem trim_skip : ∀ (n : Nat) (v : List (IoVec β)), Trim (skip n v)
  | _, [] => trivial
  | n, iov :: rest => by
      unfold skip
      split
      next => exact trim_skip _ rest
      next h =>
        show 0 < iov.iovLen - n
        omega

theorem skip_zero {v : List (IoVec β)} (h : Trim v) : skip 0 v = v := by
  cases v with
  | nil => rfl
  | cons iov rest =>
      have h : 0 < iov.iovLen := h
      unfold skip
      rw [if_neg (by omega)]
      rfl

/-- Skipping in two steps. -/
theorem skip_skip : ∀ (m n : Nat) (v : List (IoVec β)), skip n (skip m v) = skip (m + n) v
  | _, _, [] => rfl
  | m, n, iov :: rest => by
      by_cases hm : iov.iovLen ≤ m
      · have e : skip m (iov :: rest) = skip (m - iov.iovLen) rest := by
          rw [skip, if_pos hm]
        rw [e, skip_skip, skip, if_pos (by omega)]
        congr 1
        omega
      · have e : skip m (iov :: rest) = iov.advance m :: rest := by
          rw [skip, if_neg hm]
        rw [e, skip, skip]
        by_cases hn : iov.iovLen ≤ m + n
        · rw [if_pos (show (iov.advance m).iovLen ≤ n by show iov.iovLen - m ≤ n; omega), if_pos hn]
          congr 1
          show n - (iov.iovLen - m) = m + n - iov.iovLen
          omega
        · rw [if_neg (show ¬ (iov.advance m).iovLen ≤ n by show ¬ iov.iovLen - m ≤ n; omega), if_neg hn]
          simp only [IoVec.advance, List.cons.injEq, and_true, IoVec.mk.injEq, true_and]
          omega

theorem total_skip : ∀ (n : Nat) (v : List (IoVec β)), total (skip n v) = total v - n
  | n, [] => by simp [skip]
  | n, iov :: rest => by
      rw [skip]
      split
      next h =>
        rw [total_skip, total_cons]
        omega
      next h =>
        rw [total_cons, total_cons]
        show iov.iovLen - n + total rest = _
        omega

theorem skip_eq_nil {n : Nat} {v : List (IoVec β)} (h : total v ≤ n) : skip n v = [] := by
  induction v generalizing n with
  | nil => rfl
  | cons iov rest ih =>
      rw [total_cons] at h
      rw [skip, if_pos (by omega)]
      exact ih (by omega)

theorem length_skip_le (n : Nat) (v : List (IoVec β)) : (skip n v).length ≤ v.length := by
  induction v generalizing n with
  | nil => exact Nat.le_refl _
  | cons iov rest ih =>
      rw [skip]
      split
      next =>
        have := ih (n - iov.iovLen)
        rw [List.length_cons]
        omega
      next => exact Nat.le_refl _

theorem skip_ne_nil {n : Nat} {v : List (IoVec β)} (h : n < total v) : skip n v ≠ [] := by
  intro e
  have := total_skip n v
  rw [e, total_nil] at this
  omega

end Skip

/-! ## §2. Gathering: the bytes a vector of readable buffers denotes. -/

section Gather

/-- The bytes one piece denotes. -/
def IoVec.bytes (iov : IoVec Bytes) : Bytes := (iov.base.drop iov.off).take iov.iovLen

/-- The piece lies inside its buffer. -/
def IoVec.InBuf (iov : IoVec Bytes) : Prop := iov.off + iov.iovLen ≤ iov.base.length

/-- The whole of a buffer as one piece. -/
def IoVec.whole (bs : Bytes) : IoVec Bytes := ⟨bs, 0, bs.length⟩

/-- The bytes a vector denotes. -/
def gather (v : List (IoVec Bytes)) : Bytes := v.flatMap IoVec.bytes

/-- Every piece lies inside its buffer. -/
def Readable (v : List (IoVec Bytes)) : Prop := ∀ iov ∈ v, iov.InBuf

@[simp] theorem gather_nil : gather [] = [] := rfl

@[simp] theorem gather_cons (iov : IoVec Bytes) (v : List (IoVec Bytes)) :
    gather (iov :: v) = iov.bytes ++ gather v := rfl

theorem IoVec.bytes_length {iov : IoVec Bytes} (h : iov.InBuf) : iov.bytes.length = iov.iovLen := by
  have h : iov.off + iov.iovLen ≤ iov.base.length := h
  rw [IoVec.bytes, List.length_take, List.length_drop]
  omega

@[simp] theorem IoVec.bytes_whole (bs : Bytes) : (IoVec.whole bs).bytes = bs := by
  simp [IoVec.whole, IoVec.bytes]

theorem IoVec.bytes_advance (iov : IoVec Bytes) (n : Nat) :
    (iov.advance n).bytes = iov.bytes.drop n := by
  simp [IoVec.bytes, IoVec.advance, List.drop_take, List.drop_drop]

theorem gather_length {v : List (IoVec Bytes)} (h : Readable v) : (gather v).length = total v := by
  induction v with
  | nil => rfl
  | cons iov v ih =>
      have hv : Readable v := fun i hi => h i (List.mem_cons_of_mem _ hi)
      rw [gather_cons, List.length_append, total_cons, ih hv,
        IoVec.bytes_length (h iov List.mem_cons_self)]

theorem readable_skip {v : List (IoVec Bytes)} (h : Readable v) (n : Nat) : Readable (skip n v) := by
  induction v generalizing n with
  | nil => exact h
  | cons iov v ih =>
      have hv : Readable v := fun i hi => h i (List.mem_cons_of_mem _ hi)
      rw [skip]
      split
      next => exact ih hv _
      next hn =>
        intro i hi
        rcases List.mem_cons.mp hi with rfl | hi
        · have hin : iov.off + iov.iovLen ≤ iov.base.length := h iov List.mem_cons_self
          show iov.off + n + (iov.iovLen - n) ≤ iov.base.length
          omega
        · exact hv i hi

/-- **Skipping is dropping**: what is left of a vector after `n` bytes denotes
what is left of its bytes. -/
theorem gather_skip {v : List (IoVec Bytes)} (h : Readable v) (n : Nat) :
    gather (skip n v) = (gather v).drop n := by
  induction v generalizing n with
  | nil => simp [skip]
  | cons iov v ih =>
      have hv : Readable v := fun i hi => h i (List.mem_cons_of_mem _ hi)
      have hlen := IoVec.bytes_length (h iov List.mem_cons_self)
      rw [skip]
      split
      next hn =>
        have hdrop : iov.bytes.drop n = [] := List.drop_eq_nil_of_le (by omega)
        rw [ih hv, gather_cons, List.drop_append, hdrop, hlen, List.nil_append]
      next hn =>
        rw [gather_cons, gather_cons, IoVec.bytes_advance, List.drop_append, hlen,
          show n - iov.iovLen = 0 by omega, List.drop_zero]

end Gather

/-! ## §3. Scattering: bytes laid out over a vector of writable buffers. -/

section Scatter

/-- Memory that pieces of buffers are written to.  `put` has no outcome where
the write leaves its buffer; writing two runs of bytes one after the other is
writing them at once. -/
structure Store (σ β : Type) where
  put : σ → β → Nat → Bytes → Option σ
  put_nil : ∀ s b off, put s b off [] = some s
  put_append : ∀ s b off xs ys,
    put s b off (xs ++ ys) = (put s b off xs).bind fun s' => put s' b (off + xs.length) ys

variable {σ β : Type} (M : Store σ β)

/-- Lay `bs` out over the pieces, in order. -/
def scatter : List (IoVec β) → Bytes → σ → Option σ
  | [], _, s => some s
  | iov :: v, bs, s =>
      (M.put s iov.base iov.off (bs.take iov.iovLen)).bind fun s' =>
        scatter v (bs.drop iov.iovLen) s'

@[simp] theorem scatter_nil (v : List (IoVec β)) (s : σ) : scatter M v [] s = some s := by
  induction v with
  | nil => rfl
  | cons iov v ih => rw [scatter, List.take_nil, M.put_nil, Option.bind_some, List.drop_nil, ih]

/-- What every single write keeps, scattering keeps. -/
theorem scatter_keeps {P : σ → Prop} (hput : ∀ s b off bs s', P s → M.put s b off bs = some s' → P s')
    {v : List (IoVec β)} {bs : Bytes} {s s' : σ} (hs : P s) (h : scatter M v bs s = some s') : P s' := by
  induction v generalizing bs s with
  | nil =>
      cases h
      exact hs
  | cons iov v ih =>
      obtain ⟨s₁, h₁, hrest⟩ := Option.bind_eq_some_iff.mp h
      exact ih (hput _ _ _ _ _ hs h₁) hrest

/-- **Scattering in two steps.** -/
theorem scatter_append (v : List (IoVec β)) (xs ys : Bytes) (s : σ) :
    scatter M v (xs ++ ys) s
      = (scatter M v xs s).bind fun s' => scatter M (skip xs.length v) ys s' := by
  induction v generalizing xs s with
  | nil => rfl
  | cons iov v ih =>
      rw [skip]
      by_cases hn : iov.iovLen ≤ xs.length
      · -- the first run fills this piece
        rw [if_pos hn, scatter, scatter, List.take_append_of_le_length hn,
          List.drop_append_of_le_length hn, Option.bind_assoc]
        congr 1
        funext s'
        rw [ih, List.length_drop]
      · -- the second run continues inside it
        have hle : xs.length ≤ iov.iovLen := by omega
        rw [if_neg hn, scatter, scatter, List.take_of_length_le hle, List.drop_eq_nil_of_le hle,
          List.take_append, List.take_of_length_le hle, List.drop_append,
          List.drop_eq_nil_of_le hle, List.nil_append, M.put_append, Option.bind_assoc,
          Option.bind_assoc]
        congr 1
        funext s'
        rw [scatter_nil, Option.bind_some, scatter]
        rfl

end Scatter

/-! ## §4. A buffer as memory. -/

section Overwrite

variable {α : Type}

/-- `xs` written into the buffer `l` at `off`; no outcome where it leaves the
buffer. -/
def overwrite (l : List α) (off : Nat) (xs : List α) : Option (List α) :=
  if xs = [] ∨ off + xs.length ≤ l.length then
    some (l.take off ++ xs ++ l.drop (off + xs.length))
  else none

theorem overwrite_nil (l : List α) (off : Nat) : overwrite l off [] = some l := by
  rw [overwrite, if_pos (Or.inl rfl), List.append_nil, List.length_nil, Nat.add_zero,
    List.take_append_drop]

theorem overwrite_append (l : List α) (off : Nat) (xs ys : List α) :
    overwrite l off (xs ++ ys)
      = (overwrite l off xs).bind fun l' => overwrite l' (off + xs.length) ys := by
  by_cases hy : ys = []
  · subst hy
    simp only [List.append_nil, overwrite_nil, Option.bind_fun_some]
  · by_cases hx : xs = []
    · subst hx
      rw [List.nil_append, overwrite_nil, Option.bind_some, List.length_nil, Nat.add_zero]
    · have hxy : xs ++ ys ≠ [] := fun e => hx (List.append_eq_nil_iff.mp e).1
      by_cases hfirst : off + xs.length ≤ l.length
      · -- the buffer keeps its length, and the second run starts where the first ended
        have hhead : (l.take off ++ xs).length = off + xs.length := by
          rw [List.length_append, List.length_take]
          omega
        have hlen : (l.take off ++ xs ++ l.drop (off + xs.length)).length = l.length := by
          rw [List.length_append, hhead, List.length_drop]
          omega
        have e : overwrite l off xs = some (l.take off ++ xs ++ l.drop (off + xs.length)) :=
          if_pos (Or.inr hfirst)
        rw [e, Option.bind_some, overwrite, overwrite, hlen]
        -- the second run fits as well, or neither does the whole
        by_cases hall : off + xs.length + ys.length ≤ l.length
        · have hpast : (l.take off ++ xs).drop (off + xs.length + ys.length) = [] :=
            List.drop_eq_nil_of_le (by omega)
          rw [if_pos (Or.inr (by rw [List.length_append]; omega)), if_pos (Or.inr hall),
            List.take_left' hhead, List.drop_append, hpast, List.nil_append, List.drop_drop, hhead,
            List.length_append, ← List.append_assoc (l.take off),
            show off + (xs.length + ys.length)
              = off + xs.length + (off + xs.length + ys.length - (off + xs.length)) by omega]
        · rw [if_neg, if_neg fun hc => hc.elim hy hall]
          rintro (hc | hc)
          · exact hxy hc
          · rw [List.length_append] at hc
            omega
      · have e : overwrite l off xs = none := if_neg fun hc => hc.elim hx hfirst
        rw [e, overwrite, if_neg]
        · rfl
        · rintro (hc | hc)
          · exact hxy hc
          · rw [List.length_append] at hc
            omega

/-- A run of bytes that fills the front of the buffer. -/
theorem overwrite_front {l xs : List α} (h : xs.length ≤ l.length) :
    overwrite l 0 xs = some (xs ++ l.drop xs.length) := by
  rw [overwrite, if_pos (Or.inr (by omega)), List.take_zero, List.nil_append, Nat.zero_add]

/-- A run of bytes that starts where the buffer's first part ends. -/
theorem overwrite_behind (done : List α) {rest xs : List α} (h : xs.length ≤ rest.length) :
    overwrite (done ++ rest) done.length xs = some (done ++ xs ++ rest.drop xs.length) := by
  have hfits : done.length + xs.length ≤ (done ++ rest).length := by
    rw [List.length_append]
    omega
  have hpast : done.drop (done.length + xs.length) = [] := List.drop_eq_nil_of_le (by omega)
  rw [overwrite, if_pos (Or.inr hfits), List.take_left, List.drop_append, hpast, List.nil_append, Nat.add_sub_cancel_left]

end Overwrite

end LzLib.Foundation
