/-
  LzLib.CommonUtils.Strsplit
  ──────────────────────────
  **`lz_strsplit` COPIES THE TOKENS.**

  Both loops walk over the pieces of the copy: `countTokens_spec` says what the
  first one counts, `copyTokens_spec` what the second one has copied when it
  ends, at the end of the string or at a failed `strdup`.
-/
import LzLib.CommonUtils.TokensDef
import LzLib.Foundation.Tokens
import Mathlib.Data.List.Forall2

namespace LzLib.CommonUtils

open LzLib.Foundation

/-! ## §1. Counting. -/

section Counting

variable {front behind : Blocks} {b : Nat} {delim : CStr}

/-- The first character of a token, or the NUL of an empty piece. -/
theorem byteAt_at (hb : b = front.length) {done t rest : Bytes} {off : Nat} (hoff : off = done.length) :
    byteAt (front ++ some (.bytes (done ++ (t ++ 0 :: rest))) :: behind) b off = some (t.headD 0) := by
  unfold byteAt
  rw [Blocks.bytes_at hb, Option.bind_some, hoff, List.getElem?_append_right (Nat.le_refl _), Nat.sub_self]
  cases t <;> rfl

/-- A piece is empty if its first byte is the NUL. -/
theorem headD_eq_zero_iff {t : Bytes} (hnul : (0 : UInt8) ∉ t) : t.headD 0 = 0 ↔ t = [] := by
  cases t with
  | nil => exact iff_of_true rfl rfl
  | cons c t =>
      apply iff_of_false
      · intro h0
        have hc : c = 0 := h0
        exact hnul (hc ▸ List.mem_cons_self)
      · exact List.cons_ne_nil _ _

theorem nulFree_piece {t rest : Bytes} {d : UInt8} (hnul : (0 : UInt8) ∉ t ++ d :: rest) :
    (0 : UInt8) ∉ t ∧ (0 : UInt8) ∉ rest := by
  simp only [List.mem_append, List.mem_cons, not_or] at hnul
  exact ⟨hnul.1, hnul.2.2⟩

/-- Past a piece: the offset of what follows it, and the buffer cut there. -/
theorem past_piece (done t rest : Bytes) : done.length + t.length + 1 = (done ++ (t ++ [0])).length ∧
    done ++ (t ++ 0 :: (rest ++ [0])) = (done ++ (t ++ [0])) ++ (rest ++ [0]) := by
  constructor
  · rw [List.length_append, List.length_append]
    rfl
  · simp only [List.append_assoc, List.cons_append, List.nil_append]

/-- What a piece adds to `count`. -/
theorem count_piece {t : Bytes} (hnul : (0 : UInt8) ∉ t) (ht : ∀ c ∈ t, isDelim delim c = false) (count : Int) :
    (if t.headD 0 ≠ 0 then wrap32 (wrap32 count + 1) else wrap32 count)
      = wrap32 (count + (tokensOf (isDelim delim) t).length) := by
  by_cases hempty : t = []
  · rw [if_neg (fun h => h ((headD_eq_zero_iff hnul).mpr hempty)), hempty]
    show _ = wrap32 (count + 0)
    rw [Int.add_zero]
  · rw [if_pos (fun h => hempty ((headD_eq_zero_iff hnul).mp h)), tokensOf_run hempty ht, wrap32_add]
    rfl

/-- **The first loop counts the tokens**, as far as an `int` goes. -/
theorem countTokens_spec (hb : b = front.length) : ∀ (fuel : Nat) (done s : Bytes) (count : Int),
    s.length + 2 ≤ fuel → (0 : UInt8) ∉ s → ∃ buf,
      countTokens b delim fuel (front ++ some (.bytes (done ++ (s ++ [0]))) :: behind) (some done.length) (wrap32 count)
        = some (wrap32 (count + (tokensOf (isDelim delim) s).length), front ++ some (.bytes buf) :: behind) := by
  intro fuel
  induction fuel with
  | zero =>
      intro done s count hfuel _
      omega
  | succ fuel ih =>
      intro done s count hfuel hnul
      unfold countTokens
      rcases piece_cases (p := isDelim delim) s with hs | ⟨t, d, rest, rfl, ht, hd⟩
      · rw [strsep_last hb rfl hnul hs, Option.bind_some]
        dsimp only
        rw [byteAt_at hb rfl, Option.bind_some, count_piece hnul hs]
        obtain ⟨fuel, rfl⟩ : ∃ k, fuel = k + 1 := ⟨fuel - 1, by omega⟩
        exact ⟨_, rfl⟩
      · have hnul' := nulFree_piece hnul
        rw [strsep_piece hb rfl hnul ht hd, Option.bind_some]
        dsimp only
        rw [byteAt_at hb rfl, Option.bind_some, count_piece hnul'.1 ht]
        obtain ⟨hdone, hbuf⟩ := past_piece done t rest
        have hlen : rest.length + 2 ≤ fuel := by
          rw [List.length_append, List.length_cons] at hfuel
          omega
        obtain ⟨buf, hrec⟩ := ih (done ++ (t ++ [0])) rest (count + (tokensOf (isDelim delim) t).length) hlen hnul'.2
        refine ⟨buf, ?_⟩
        rw [hdone, hbuf, hrec, tokensOf_append hd, List.length_append, Int.natCast_add, Int.add_assoc]

end Counting

/-! ## §2. Copying. -/

/-- The pointers to the blocks from `next` on. -/
def pointers (next k : Nat) : List (Option Nat) := (List.range' next k).map some

/-- The block of a token. -/
def tokenBlock (t : Bytes) : Option Block := some (.bytes (t ++ [0]))

/-- **How far the copies get**: whether to the last token, and how many there are;
`none` where a token finds no slot. -/
def copies (alloc : Nat → Bool) : Nat → List Bytes → Nat → Option (Bool × Nat)
  | _, [], _ => some (true, 0)
  | _, _ :: _, 0 => none
  | next, _ :: ts, m + 1 =>
      if alloc next then (copies alloc (next + 1) ts m).map fun r => (r.1, r.2 + 1) else some (false, 0)
termination_by structural _ ts => ts

/-- The heap of the second loop: the copy that is cut, the array with `m` slots
left, and the tokens. -/
def copyHeap (front : Blocks) (buf : Bytes) (filled : List (Option Nat)) (m : Nat) (toks : Blocks) : Blocks :=
  front ++ some (.bytes buf) :: some (.slots (filled ++ List.replicate m none)) :: toks

section Copying

variable {front : Blocks} {delim : CStr} {alloc : Nat → Bool}

theorem copyHeap_length (buf : Bytes) (filled : List (Option Nat)) (m : Nat) (toks : Blocks) :
    (copyHeap front buf filled m toks).length = front.length + 2 + toks.length := by
  unfold copyHeap
  rw [List.length_append, List.length_cons, List.length_cons]
  omega

/-- The array stands behind the copy. -/
theorem copyHeap_array (buf : Bytes) (filled : List (Option Nat)) (m : Nat) (toks : Blocks) :
    copyHeap front buf filled m toks
      = (front ++ [some (.bytes buf)]) ++ some (.slots (filled ++ List.replicate m none)) :: toks := by
  unfold copyHeap
  rw [List.append_assoc]
  rfl

/-- Copying one token: the answer of `strdup`, and the heap with it. -/
theorem strdup_token {done t rest : Bytes} (hnul : (0 : UInt8) ∉ t) (filled : List (Option Nat)) (m : Nat)
    (toks : Blocks) :
    (copyHeap front (done ++ (t ++ 0 :: rest)) filled m toks).strdup alloc front.length done.length
      = some (if alloc (front.length + 2 + toks.length)
          then (some (front.length + 2 + toks.length),
            copyHeap front (done ++ (t ++ 0 :: rest)) filled m (toks ++ [tokenBlock t]))
          else (none, copyHeap front (done ++ (t ++ 0 :: rest)) filled m toks)) := by
  have hstr : (copyHeap front (done ++ (t ++ 0 :: rest)) filled m toks).cstr front.length done.length
      = some ⟨t, hnul⟩ := Blocks.cstr_at rfl hnul rfl
  have happend : copyHeap front (done ++ (t ++ 0 :: rest)) filled m toks ++ [tokenBlock t]
      = copyHeap front (done ++ (t ++ 0 :: rest)) filled m (toks ++ [tokenBlock t]) := by
    unfold copyHeap
    rw [List.append_assoc]
    rfl
  unfold Blocks.strdup Blocks.allocate
  rw [hstr, Option.map_some, copyHeap_length, ← happend]
  rfl

/-- A slot is filled. -/
theorem putSlot_token (buf : Bytes) (filled : List (Option Nat)) (m : Nat) (toks : Blocks) (q : Option Nat) :
    (copyHeap front buf filled (m + 1) toks).putSlot (front.length + 1) filled.length q
      = some (copyHeap front buf (filled ++ [q]) m toks) := by
  have hput : Blocks.putSlot ((front ++ [some (.bytes buf)]) ++ some (.slots (filled ++ none :: List.replicate m none))
        :: toks) (front.length + 1) filled.length q
      = some ((front ++ [some (.bytes buf)]) ++ some (.slots (filled ++ q :: List.replicate m none)) :: toks) :=
    Blocks.putSlot_at (by rw [List.length_append]; rfl) rfl
  rw [copyHeap_array, copyHeap_array, List.replicate_succ, hput, List.append_assoc filled]
  rfl

/-- A slot that holds NULL is one that has not been filled. -/
theorem copyHeap_null (buf : Bytes) (filled : List (Option Nat)) (m : Nat) (toks : Blocks) :
    copyHeap front buf (filled ++ [none]) m toks = copyHeap front buf filled (m + 1) toks := by
  unfold copyHeap
  rw [List.append_assoc filled]
  rfl

/-- No slot is left. -/
theorem putSlot_full (buf : Bytes) (filled : List (Option Nat)) (toks : Blocks) (q : Option Nat) :
    (copyHeap front buf filled 0 toks).putSlot (front.length + 1) filled.length q = none := by
  have hlen : (filled ++ List.replicate 0 none).length = filled.length := by rw [List.replicate_zero, List.append_nil]
  rw [copyHeap_array]
  apply Blocks.putSlot_outside
  · rw [List.length_append, List.length_singleton]
  · omega

/-- The counter of the slots does not overflow before they are full. -/
theorem wrap32_slots {filled : List (Option Nat)} (h : filled.length + 1 < 2 ^ 31) :
    wrap32 ((filled.length : Int) + 1) = ((filled.length + 1 : Nat) : Int) := by
  rw [wrap32_eq (by omega) (by omega)]
  omega

/-- What the second loop leaves after `r`. -/
def Copied (front : Blocks) (filled : List (Option Nat)) (m : Nat) (toks : Blocks) (ts : List Bytes)
    (r : Bool × Nat) (out : Option (Bool × Int × Blocks)) : Prop :=
  ∃ buf, out = some (r.1, ((filled.length + r.2 + (if r.1 then 0 else 1) : Nat) : Int),
    copyHeap front buf (filled ++ pointers (front.length + 2 + toks.length) r.2) (m - r.2)
      (toks ++ (ts.take r.2).map tokenBlock))

/-- What the second loop leaves: nothing defined, if a token finds no slot. -/
def CopiesAs (front : Blocks) (alloc : Nat → Bool) (filled : List (Option Nat)) (m : Nat) (toks : Blocks)
    (ts : List Bytes) (out : Option (Bool × Int × Blocks)) : Prop :=
  match copies alloc (front.length + 2 + toks.length) ts m with
  | none => out = none
  | some r => Copied front filled m toks ts r out

theorem copiesAs_nil (buf : Bytes) (filled : List (Option Nat)) (m : Nat) (toks : Blocks) :
    CopiesAs front alloc filled m toks [] (some (true, (filled.length : Int), copyHeap front buf filled m toks)) := by
  have hpointers : pointers (front.length + 2 + toks.length) 0 = [] := rfl
  unfold CopiesAs copies Copied
  dsimp only
  rw [hpointers, List.take_nil, List.map_nil, List.append_nil, List.append_nil, Nat.sub_zero]
  exact ⟨buf, rfl⟩

/-- **One token**, and what follows it. -/
theorem copiesAs_cons {done t rest : Bytes} (hnul : (0 : UInt8) ∉ t) {filled : List (Option Nat)} {m : Nat}
    {toks : Blocks} {ts : List Bytes} (hslots : filled.length + m < 2 ^ 31)
    (K : Blocks → Int → Option (Bool × Int × Blocks))
    (hK : ∀ m', m = m' + 1 → CopiesAs front alloc (filled ++ [some (front.length + 2 + toks.length)]) m'
      (toks ++ [tokenBlock t]) ts
      (K (copyHeap front (done ++ (t ++ 0 :: rest)) (filled ++ [some (front.length + 2 + toks.length)]) m'
        (toks ++ [tokenBlock t])) ((filled ++ [some (front.length + 2 + toks.length)]).length : Int))) :
    CopiesAs front alloc filled m toks (t :: ts)
      (((copyHeap front (done ++ (t ++ 0 :: rest)) filled m toks).strdup alloc front.length done.length).bind fun dup =>
        (dup.2.putSlot (front.length + 1) filled.length dup.1).bind fun h =>
          if dup.1 = none then some (false, wrap32 ((filled.length : Int) + 1), h)
          else K h (wrap32 ((filled.length : Int) + 1))) := by
  rw [strdup_token hnul, Option.bind_some]
  cases m with
  | zero =>
      -- no slot is left: it would be written behind the array
      unfold CopiesAs copies
      dsimp only
      split
      · rw [putSlot_full]
        rfl
      · rw [putSlot_full]
        rfl
  | succ m =>
      have hlen : (filled ++ [some (front.length + 2 + toks.length)]).length = filled.length + 1 := by
        rw [List.length_append]
        rfl
      have hrec := hK m rfl
      rw [hlen] at hrec
      rw [wrap32_slots (by omega)]
      unfold CopiesAs copies
      -- the token finds a slot; its copy may be refused
      by_cases hgrant : alloc (front.length + 2 + toks.length) = true
      · rw [if_pos hgrant, if_pos hgrant, putSlot_token, Option.bind_some, if_neg (by simp)]
        unfold CopiesAs at hrec
        have hnext : front.length + 2 + (toks ++ [tokenBlock t]).length = front.length + 2 + toks.length + 1 := by
          rw [List.length_append]
          rfl
        rw [hnext] at hrec
        cases hcopies : copies alloc (front.length + 2 + toks.length + 1) ts m with
        | none =>
            rw [hcopies] at hrec
            exact hrec
        | some r =>
            rw [hcopies] at hrec
            obtain ⟨buf, hout⟩ := hrec
            refine ⟨buf, ?_⟩
            have hpointers : filled ++ pointers (front.length + 2 + toks.length) (r.2 + 1)
                = (filled ++ [some (front.length + 2 + toks.length)])
                  ++ pointers (front.length + 2 + toks.length + 1) r.2 := by
              rw [List.append_assoc]
              rfl
            have htoks : toks ++ ((t :: ts).take (r.2 + 1)).map tokenBlock
                = (toks ++ [tokenBlock t]) ++ (ts.take r.2).map tokenBlock := by
              rw [List.append_assoc]
              rfl
            show _ = some (r.1, ((filled.length + (r.2 + 1) + _ : Nat) : Int), copyHeap front buf
              (filled ++ pointers (front.length + 2 + toks.length) (r.2 + 1)) (m + 1 - (r.2 + 1))
              (toks ++ ((t :: ts).take (r.2 + 1)).map tokenBlock))
            rw [hout, hpointers, htoks, Nat.add_sub_add_right, hlen, hnext, Nat.add_right_comm filled.length,
              Nat.add_assoc filled.length]
      · rw [if_neg hgrant, if_neg hgrant, putSlot_token, Option.bind_some, if_pos rfl, copyHeap_null]
        have hpointers : pointers (front.length + 2 + toks.length) 0 = [] := rfl
        dsimp only
        unfold Copied
        rw [hpointers, List.take_zero, List.map_nil, List.append_nil, List.append_nil, Nat.sub_zero]
        exact ⟨_, rfl⟩

/-- The loop ends where `strsep` has no string left. -/
theorem copyTokens_done (b tokenList : Nat) {fuel : Nat} (hfuel : 0 < fuel) (h : Blocks) (i : Int) :
    copyTokens b tokenList delim alloc fuel h none i = some (true, i, h) := by
  obtain ⟨fuel, rfl⟩ : ∃ k, fuel = k + 1 := ⟨fuel - 1, by omega⟩
  rfl

theorem byteAt_copy {done t rest : Bytes} {filled : List (Option Nat)} {m : Nat} {toks : Blocks} :
    byteAt (copyHeap front (done ++ (t ++ 0 :: rest)) filled m toks) front.length done.length = some (t.headD 0) :=
  byteAt_at rfl rfl

/-- **The second loop copies the tokens.** -/
theorem copyTokens_spec : ∀ (fuel : Nat) (done s : Bytes) (filled : List (Option Nat)) (m : Nat) (toks : Blocks),
    s.length + 2 ≤ fuel → (0 : UInt8) ∉ s → filled.length + m < 2 ^ 31 →
    CopiesAs front alloc filled m toks (tokensOf (isDelim delim) s)
      (copyTokens front.length (front.length + 1) delim alloc fuel (copyHeap front (done ++ (s ++ [0])) filled m toks)
        (some done.length) filled.length) := by
  intro fuel
  induction fuel with
  | zero =>
      intro done s filled m toks hfuel
      omega
  | succ fuel ih =>
      intro done s filled m toks hfuel hnul hslots
      rw [copyTokens]
      rcases piece_cases (p := isDelim delim) s with hs | ⟨t, d, rest, rfl, ht, hd⟩
      · -- no delimiter is left: the last piece
        have hcut : strsep (copyHeap front (done ++ (s ++ [0])) filled m toks) front.length (some done.length) delim
            = some (some done.length, none, copyHeap front (done ++ (s ++ [0])) filled m toks) :=
          strsep_last rfl rfl hnul hs
        rw [hcut, Option.bind_some]
        dsimp only
        rw [byteAt_copy, Option.bind_some]
        by_cases hempty : s = []
        · rw [if_pos ((headD_eq_zero_iff hnul).mpr hempty), copyTokens_done _ _ (by omega)]
          rw [show tokensOf (isDelim delim) s = [] by rw [hempty]; rfl]
          exact copiesAs_nil _ filled m toks
        · rw [if_neg (fun h => hempty ((headD_eq_zero_iff hnul).mp h)), tokensOf_run hempty hs]
          apply copiesAs_cons hnul hslots (fun h i => copyTokens front.length (front.length + 1) delim alloc fuel h none i)
          intro m' _
          rw [copyTokens_done _ _ (by omega)]
          exact copiesAs_nil _ _ m' _
      · -- a piece, and the rest behind its delimiter
        have hnul' := nulFree_piece hnul
        have hcut : strsep (copyHeap front (done ++ ((t ++ d :: rest) ++ [0])) filled m toks) front.length
              (some done.length) delim
            = some (some done.length, some (done.length + t.length + 1),
                copyHeap front (done ++ (t ++ 0 :: (rest ++ [0]))) filled m toks) :=
          strsep_piece rfl rfl hnul ht hd
        obtain ⟨hdone, hbuf⟩ := past_piece done t rest
        have hlen : rest.length + 2 ≤ fuel := by
          rw [List.length_append, List.length_cons] at hfuel
          omega
        rw [hcut, Option.bind_some]
        dsimp only
        rw [byteAt_copy, Option.bind_some, tokensOf_append hd]
        by_cases hempty : t = []
        · rw [if_pos ((headD_eq_zero_iff hnul'.1).mpr hempty), hdone, hbuf]
          rw [show tokensOf (isDelim delim) t = [] by rw [hempty]; rfl]
          exact ih (done ++ (t ++ [0])) rest filled m toks hlen hnul'.2 hslots
        · rw [if_neg (fun h => hempty ((headD_eq_zero_iff hnul'.1).mp h)), tokensOf_run hempty ht]
          apply copiesAs_cons hnul'.1 hslots (fun h i => copyTokens front.length (front.length + 1) delim alloc fuel h
            (some (done.length + t.length + 1)) i)
          intro m' hm
          rw [hdone, hbuf]
          apply ih _ rest _ m' _ hlen hnul'.2
          rw [List.length_append, List.length_singleton]
          omega

end Copying

/-! ## §3. Undoing. -/

theorem pointers_length (next k : Nat) : (pointers next k).length = k := by
  unfold pointers
  rw [List.length_map, List.length_range']

theorem pointers_getElem? {next k j : Nat} (h : j < k) (rest : List (Option Nat)) :
    (pointers next k ++ rest)[j]? = some (some (next + j)) := by
  rw [List.getElem?_append_left (by rw [pointers_length]; exact h)]
  unfold pointers
  rw [List.getElem?_map, List.getElem?_range' h, Option.map_some, Nat.one_mul]

/-- **The tokens that were copied are freed**, one by one. -/
theorem freeTokens_spec {front : Blocks} {ps : List (Option Nat)} (steps : Nat) : ∀ (ts : List Bytes) (freed : Blocks),
    (∀ n, freed.length ≤ n → n < freed.length + ts.length → ps[n]? = some (some (front.length + 1 + n))) →
    freeTokens front.length (ts.length + steps) freed.length
        (front ++ some (.slots ps) :: (freed ++ ts.map tokenBlock))
      = freeTokens front.length steps ((freed.length + ts.length : Nat) : Int)
        (front ++ some (.slots ps) :: (freed ++ List.replicate ts.length none)) := by
  intro ts
  induction ts with
  | nil =>
      intro freed _
      rw [List.length_nil, Nat.zero_add]
      rfl
  | cons t ts ih =>
      intro freed hps
      have hslot := hps freed.length (Nat.le_refl _) (by rw [List.length_cons]; omega)
      -- the next slot points to the next block
      have hfree : Blocks.free ((front ++ some (.slots ps) :: freed) ++ tokenBlock t :: ts.map tokenBlock)
          (some (front.length + 1 + freed.length))
            = some ((front ++ some (.slots ps) :: freed) ++ none :: ts.map tokenBlock) := by
        apply Blocks.free_at
        rw [List.length_append, List.length_cons]
        omega
      have hbefore : front ++ some (.slots ps) :: (freed ++ (t :: ts).map tokenBlock)
          = (front ++ some (.slots ps) :: freed) ++ tokenBlock t :: ts.map tokenBlock := by
        rw [List.append_assoc]
        rfl
      have hafter : (front ++ some (.slots ps) :: freed) ++ none :: ts.map tokenBlock
          = front ++ some (.slots ps) :: ((freed ++ [none]) ++ ts.map tokenBlock) := by
        rw [List.append_assoc, List.append_assoc]
        rfl
      have hdone : (freed ++ [none]).length = freed.length + 1 := by
        rw [List.length_append]
        rfl
      have hrec := ih (freed ++ [none]) (by
        intro n hlow hhigh
        rw [hdone] at hlow hhigh
        exact hps n (by omega) (by rw [List.length_cons]; omega))
      have hnull : freed ++ List.replicate (t :: ts).length none = (freed ++ [none]) ++ List.replicate ts.length none := by
        rw [List.append_assoc]
        rfl
      rw [hdone, Nat.add_right_comm] at hrec
      rw [List.length_cons, Nat.add_right_comm, freeTokens, Blocks.slot_at rfl, hslot, Option.bind_some, hbefore, hfree,
        Option.bind_some, hafter, ← List.length_cons (a := t), hnull]
      exact hrec

/-! ## §4. The whole function. -/

section Copies

variable {alloc : Nat → Bool}

/-- One token of the copies: it has a slot, and is copied with those behind it, or is the first that is refused. -/
theorem copies_cons {t : Bytes} {ts : List Bytes} {next m k : Nat} {copied : Bool}
    (h : copies alloc next (t :: ts) m = some (copied, k)) :
    ∃ m', m = m' + 1 ∧
      ((alloc next = true ∧ ∃ k', k = k' + 1 ∧ copies alloc (next + 1) ts m' = some (copied, k')) ∨
        (alloc next = false ∧ copied = false ∧ k = 0)) := by
  cases m with
  | zero => cases h
  | succ m =>
      refine ⟨m, rfl, ?_⟩
      unfold copies at h
      split at h
      next hgrant =>
        obtain ⟨⟨copied', k'⟩, hrec, hr⟩ := Option.map_eq_some_iff.mp h
        cases hr
        exact Or.inl ⟨hgrant, k', rfl, hrec⟩
      next hrefused =>
        cases h
        exact Or.inr ⟨Bool.eq_false_iff.mpr hrefused, rfl, rfl⟩

theorem copies_true : ∀ {ts : List Bytes} {next m k : Nat}, copies alloc next ts m = some (true, k) →
    k = ts.length ∧ ts.length ≤ m ∧ ∀ j, j < ts.length → alloc (next + j) = true := by
  intro ts
  induction ts with
  | nil =>
      intro next m k h
      cases h
      exact ⟨rfl, Nat.zero_le _, fun j hj => absurd hj (Nat.not_lt_zero j)⟩
  | cons t ts ih =>
      intro next m k h
      obtain ⟨m', rfl, ⟨hgrant, k', rfl, hrec⟩ | ⟨-, hcopied, -⟩⟩ := copies_cons h
      · obtain ⟨hk, hm, hall⟩ := ih hrec
        refine ⟨by rw [hk, List.length_cons], by rw [List.length_cons]; omega, ?_⟩
        intro j hj
        cases j with
        | zero => exact hgrant
        | succ j =>
            have hj := hall j (Nat.lt_of_succ_lt_succ hj)
            rw [Nat.add_right_comm] at hj
            exact hj
      · cases hcopied

theorem copies_false : ∀ {ts : List Bytes} {next m k : Nat}, copies alloc next ts m = some (false, k) →
    k < ts.length ∧ k < m ∧ alloc (next + k) = false := by
  intro ts
  induction ts with
  | nil =>
      intro next m k h
      cases h
  | cons t ts ih =>
      intro next m k h
      obtain ⟨m', rfl, ⟨-, k', rfl, hrec⟩ | ⟨hrefused, -, rfl⟩⟩ := copies_cons h
      · obtain ⟨hk, hm, hnull⟩ := ih hrec
        rw [Nat.add_right_comm] at hnull
        exact ⟨Nat.succ_lt_succ hk, Nat.succ_lt_succ hm, hnull⟩
      · exact ⟨Nat.succ_pos _, Nat.succ_pos _, hrefused⟩

/-- With a slot for each token, the copies get somewhere. -/
theorem copies_some : ∀ {ts : List Bytes} {next m : Nat}, ts.length ≤ m → ∃ r, copies alloc next ts m = some r := by
  intro ts
  induction ts with
  | nil =>
      intro next m _
      exact ⟨_, rfl⟩
  | cons t ts ih =>
      intro next m hm
      cases m with
      | zero => exact absurd hm (Nat.not_succ_le_zero _)
      | succ m =>
          unfold copies
          split
          · have hrec : ∃ r, copies alloc (next + 1) ts m = some r := ih (Nat.le_of_succ_le_succ hm)
            obtain ⟨r, hr⟩ := hrec
            rw [hr]
            exact ⟨_, rfl⟩
          · exact ⟨_, rfl⟩

end Copies

section Whole

variable {h : Blocks} {str : Nat} {s : CStr} {delim : CStr} {tokens : Option (Option Nat)} {tokenCount : Option Int}
  {alloc : Nat → Bool}

theorem strdup_eq (hs : h.cstr str 0 = some s) : h.strdup alloc str 0 = some (h.allocate alloc (Block.ofStr s)) := by
  unfold Blocks.strdup
  rw [hs]
  rfl

/-- `CALLOC` of a count that is not negative, and of a negative one. -/
theorem callocTokens_nonneg {count : Int} (hlow : 0 ≤ count) (hhigh : count < 2 ^ 31) :
    callocTokens h alloc count = h.allocate alloc (.slots (List.replicate count.toNat none)) := by
  have hmod : count % 2 ^ 64 = count := Int.emod_eq_of_lt hlow (by omega)
  unfold callocTokens
  rw [hmod]
  exact if_pos (by omega)

theorem callocTokens_neg {count : Int} (hlow : -2 ^ 31 ≤ count) (hhigh : count < 0) :
    callocTokens h alloc count = (none, h) := by
  have hmod : count % 2 ^ 64 = count + 2 ^ 64 := by omega
  unfold callocTokens
  rw [hmod]
  exact if_neg (by omega)

/-- What the copies come to, with the array in block `a`. -/
def afterCopies (h : Blocks) (ts : List Bytes) (tokens : Option (Option Nat)) (tokenCount : Option Int) (count : Int) :
    Bool × Nat → Split
  | (true, k) =>
      ⟨0, some (some (h.length + 1)), some count,
        h ++ none :: some (.slots (pointers (h.length + 2) k ++ List.replicate (count.toNat - k) none))
          :: (ts.take k).map tokenBlock⟩
  | (false, k) => ⟨-1, tokens, tokenCount, h ++ List.replicate (k + 2) none⟩

theorem copyTokens_start (h : Blocks) (s delim : CStr) (alloc : Nat → Bool) {fuel : Nat} (hfuel : s.strlen + 2 ≤ fuel)
    {n : Nat} (hn : n < 2 ^ 31) :
    CopiesAs h alloc [] n [] (tokensOf (isDelim delim) s.chars)
      (copyTokens h.length (h.length + 1) delim alloc fuel
        ((h ++ [some (Block.ofStr s)]) ++ [some (.slots (List.replicate n none))]) (some 0) 0) := by
  have hcopy : CopiesAs h alloc [] n [] (tokensOf (isDelim delim) s.chars)
      (copyTokens h.length (h.length + 1) delim alloc fuel (copyHeap h ([] ++ (s.chars ++ [0])) [] n [])
        (some ([] : Bytes).length) ([] : List (Option Nat)).length) :=
    copyTokens_spec fuel [] s.chars [] n [] hfuel s.nulFree (by rw [List.length_nil]; omega)
  rw [copyHeap_array] at hcopy
  exact hcopy

/-- The copy that is cut is freed. -/
theorem free_copy (buf : Bytes) (filled : List (Option Nat)) (m : Nat) (toks : Blocks) :
    Blocks.free (copyHeap h buf filled m toks) (some h.length)
      = some (h ++ none :: some (.slots (filled ++ List.replicate m none)) :: toks) :=
  Blocks.free_at rfl

/-- The loop of `free_exit`, and what is freed behind it: after `k` copies the next
slot holds NULL. -/
theorem freeTokens_exit (ts : List Bytes) {m : Nat} (hm : ts.length < m) :
    (freeTokens (h.length + 1) (ts.length + 1) 0
        (h ++ none :: some (.slots (pointers (h.length + 2) ts.length ++ List.replicate (m - ts.length) none))
          :: ts.map tokenBlock)).bind (fun h' => h'.free (some (h.length + 1)))
      = some (h ++ List.replicate (ts.length + 2) none) := by
  obtain ⟨r, hr⟩ : ∃ r, m - ts.length = r + 1 := ⟨m - ts.length - 1, by omega⟩
  have hfront : ∀ behind : Blocks, h ++ none :: behind = (h ++ [none]) ++ behind := by
    intro behind
    rw [List.append_assoc]
    rfl
  have hlen : (h ++ [(none : Option Block)]).length = h.length + 1 := by
    rw [List.length_append]
    rfl
  have hps : ∀ n, ([] : Blocks).length ≤ n → n < ([] : Blocks).length + ts.length →
      (pointers (h.length + 2) ts.length ++ List.replicate (r + 1) none)[n]?
        = some (some ((h ++ [(none : Option Block)]).length + 1 + n)) := by
    intro n _ hn
    rw [List.length_nil, Nat.zero_add] at hn
    rw [pointers_getElem? hn, hlen]
  have hfreed := freeTokens_spec 1 ts [] hps
  have hnull : (pointers (h.length + 2) ts.length ++ List.replicate (r + 1) none)[ts.length]? = some none := by
    rw [List.getElem?_append_right (by rw [pointers_length]), pointers_length, Nat.sub_self]
    rfl
  rw [hlen, List.length_nil, Nat.zero_add, List.nil_append, List.nil_append] at hfreed
  rw [hr, hfront, show freeTokens (h.length + 1) (ts.length + 1) 0 _ = _ from hfreed, freeTokens, ← hlen, Blocks.slot_at rfl, hnull,
    Option.bind_some]
  show Blocks.free ((h ++ [none]) ++ some _ :: List.replicate ts.length none) (some (h ++ [none]).length) = _
  rw [Blocks.free_at rfl, List.append_assoc]
  rfl

/-- **From the second `strdup` on.** -/
theorem copySplit_eq (hs : h.cstr str 0 = some s) {fuel : Nat} (hfuel : s.strlen + 2 ≤ fuel) {count : Int}
    (hlow : -2 ^ 31 ≤ count) (hhigh : count < 2 ^ 31) :
    copySplit str delim tokens tokenCount alloc fuel count h
      = if alloc h.length then
          if 0 ≤ count ∧ alloc (h.length + 1) then
            (copies alloc (h.length + 2) (tokensOf (isDelim delim) s.chars) count.toNat).map
              (afterCopies h (tokensOf (isDelim delim) s.chars) tokens tokenCount count)
          else some ⟨-1, tokens, tokenCount, h ++ [none]⟩
        else some ⟨-1, tokens, tokenCount, h⟩ := by
  have hfree : ∀ b : Block, Blocks.free (h ++ [some b]) (some h.length) = some (h ++ [none]) := fun b => Blocks.free_at rfl
  have hlen : ∀ b : Option Block, (h ++ [b]).length = h.length + 1 := fun b => by rw [List.length_append]; rfl
  unfold copySplit
  rw [strdup_eq hs, Option.bind_some, Blocks.allocate]
  by_cases hgrant : alloc h.length = true
  · rw [if_pos hgrant, if_pos hgrant]
    dsimp only
    rcases Int.lt_or_le count 0 with hneg | hpos
    · rw [callocTokens_neg hlow hneg, if_neg (by omega)]
      dsimp only
      rw [hfree]
      rfl
    · rw [callocTokens_nonneg hpos hhigh, Blocks.allocate, hlen]
      by_cases harray : alloc (h.length + 1) = true
      · rw [if_pos harray, if_pos ⟨hpos, harray⟩]
        dsimp only
        -- the loop starts with an array of free slots
        have hstart := copyTokens_start h s delim alloc hfuel (show count.toNat < 2 ^ 31 by omega)
        unfold CopiesAs at hstart
        rw [List.length_nil, Nat.add_zero] at hstart
        cases hcopies : copies alloc (h.length + 2) (tokensOf (isDelim delim) s.chars) count.toNat with
        | none =>
            rw [hcopies] at hstart
            dsimp only at hstart
            rw [hstart]
            rfl
        | some r =>
            obtain ⟨copied, k⟩ := r
            rw [hcopies] at hstart
            obtain ⟨buf, hout⟩ := hstart
            rw [hout, Option.bind_some, Option.map_some]
            dsimp only
            rw [free_copy, Option.bind_some]
            cases copied with
            | true => rfl
            | false =>
                -- after `k` copies, the exit frees `k` tokens and the array
                obtain ⟨hk, hm, -⟩ := copies_false hcopies
                have htake : ((tokensOf (isDelim delim) s.chars).take k).length = k := by
                  rw [List.length_take]
                  omega
                have hexit := freeTokens_exit (h := h) ((tokensOf (isDelim delim) s.chars).take k) (htake.symm ▸ hm)
                have hsteps : (((0 + k + 1 : Nat) : Int)).toNat = k + 1 := by rw [Int.toNat_natCast, Nat.zero_add]
                rw [htake, ← hsteps] at hexit
                have hmap := congrArg (Option.map fun h' => Split.mk (-1) tokens tokenCount h') hexit
                rw [Option.map_bind] at hmap
                exact hmap
      · rw [if_neg harray, if_neg (fun hboth => harray hboth.2)]
        dsimp only
        rw [hfree]
        rfl
  · rw [if_neg hgrant, if_neg hgrant]

/-- What is behind a block does not matter to the string in it. -/
theorem cstr_append (hs : h.cstr str 0 = some s) (new : Blocks) : Blocks.cstr (h ++ new) str 0 = some s := by
  have hlt : str < h.length := by
    rcases Nat.lt_or_ge str h.length with hlt | hge
    · exact hlt
    · unfold Blocks.cstr Blocks.bytes at hs
      rw [List.getElem?_eq_none hge] at hs
      cases hs
  unfold Blocks.cstr Blocks.bytes at hs ⊢
  rw [List.getElem?_append_left hlt]
  exact hs

/-- **`lz_strsplit`**, by what is granted. -/
theorem lzStrsplit_eq (hs : h.cstr str 0 = some s) (old : Option Nat) (oldCount : Int) :
    lzStrsplit (some str) (some delim) (some old) (some oldCount) alloc h
      = if alloc h.length then
          copySplit str delim (some old) (some oldCount) alloc (s.strlen + 2)
            (wrap32 (tokensOf (isDelim delim) s.chars).length) (h ++ [none])
        else some ⟨-1, some old, some oldCount, h⟩ := by
  unfold lzStrsplit
  dsimp only
  rw [hs, Option.bind_some, strdup_eq hs, Option.bind_some, Blocks.allocate]
  by_cases hgrant : alloc h.length = true
  · rw [if_pos hgrant, if_pos hgrant]
    dsimp only
    have hcount : ∃ buf, countTokens h.length delim (s.strlen + 2) (h ++ [some (Block.ofStr s)]) (some 0) 0
        = some (wrap32 (tokensOf (isDelim delim) s.chars).length, h ++ [some (.bytes buf)]) := by
      have hspec : ∃ buf, countTokens h.length delim (s.strlen + 2) (h ++ [some (.bytes ([] ++ (s.chars ++ [0])))])
          (some ([] : Bytes).length) (wrap32 0)
          = some (wrap32 (0 + (tokensOf (isDelim delim) s.chars).length), h ++ [some (.bytes buf)]) :=
        countTokens_spec rfl (s.strlen + 2) [] s.chars 0 (Nat.le_refl _) s.nulFree
      rw [Int.zero_add] at hspec
      exact hspec
    obtain ⟨buf, hcount⟩ := hcount
    rw [hcount, Option.bind_some]
    dsimp only
    rw [show Blocks.free (h ++ [some (.bytes buf)]) (some h.length) = some (h ++ [none]) from Blocks.free_at rfl,
      Option.bind_some]
  · rw [if_neg hgrant, if_neg hgrant]

end Whole

/-! ## §5. The result. -/

/-- **The array in block `a` lists strings of their own**, the tokens `ts`: it has a
slot for each, no block is pointed at twice, and each holds its token. -/
def ListsTokens (h : Blocks) (a : Nat) (ts : List Bytes) : Prop :=
  ∃ ps : List Nat, h.slots a = some (ps.map some) ∧ ps.Nodup ∧ a ∉ ps ∧
    List.Forall₂ (fun p t => h.bytes p = some (t ++ [0])) ps ts

theorem listsTokens_of (front : Blocks) (ts : List Bytes) :
    ListsTokens (front ++ some (.slots (pointers (front.length + 1) ts.length)) :: ts.map tokenBlock) front.length ts := by
  refine ⟨List.range' (front.length + 1) ts.length, Blocks.slots_at rfl, List.nodup_range', ?_, ?_⟩
  · intro hmem
    rw [List.mem_range'_1] at hmem
    omega
  · rw [List.forall₂_iff_get]
    refine ⟨List.length_range', ?_⟩
    intro i hi hi'
    have hget : (front ++ some (.slots (pointers (front.length + 1) ts.length)) :: ts.map tokenBlock)[front.length + 1 + i]?
        = some (tokenBlock ts[i]) := by
      rw [List.getElem?_append_right (by omega), show front.length + 1 + i - front.length = i + 1 by omega,
        List.getElem?_cons_succ, List.getElem?_map, List.getElem?_eq_getElem hi']
      rfl
    rw [List.get_eq_getElem, List.getElem_range', Nat.one_mul]
    unfold Blocks.bytes
    rw [hget]
    rfl

/-- What is left after all copies lists the tokens. -/
theorem listsTokens_afterCopies (h : Blocks) (ts : List Bytes) (tokens : Option (Option Nat)) (tokenCount : Option Int) :
    ListsTokens (afterCopies h ts tokens tokenCount ts.length (true, ts.length)).blocks (h.length + 1) ts := by
  have hlist := listsTokens_of (h ++ [none]) ts
  rw [List.length_append, List.length_singleton, ← List.append_cons] at hlist
  show ListsTokens (h ++ none :: some (.slots (pointers (h.length + 2) ts.length
    ++ List.replicate ((ts.length : Int).toNat - ts.length) none)) :: (ts.take ts.length).map tokenBlock) _ ts
  rw [Int.toNat_natCast, Nat.sub_self, List.replicate_zero, List.append_nil, List.take_length]
  exact hlist

/-- Success is that all tokens are listed. -/
theorem strsplit_success {h : Blocks} {str : Nat} {s delim : CStr} (hs : h.cstr str 0 = some s) {old : Option Nat}
    {oldCount : Int} {alloc : Nat → Bool} {out : Split}
    (hout : lzStrsplit (some str) (some delim) (some old) (some oldCount) alloc h = some out) (hret : out.ret = 0) :
    ∃ a, out.tokens = some (some a) ∧ ListsTokens out.blocks a (tokensOf (isDelim delim) s.chars) := by
  have hhigh := wrap32_lt ((tokensOf (isDelim delim) s.chars).length : Int)
  have hrefused : ∀ {new : Blocks}, some (Split.mk (-1) (some old) (some oldCount) new) = some out →
      ∃ a, out.tokens = some (some a) ∧ ListsTokens out.blocks a (tokensOf (isDelim delim) s.chars) := by
    intro new hnew
    cases hnew
    exact absurd hret (show (-1 : Int) ≠ 0 by decide)
  rw [lzStrsplit_eq hs] at hout
  split at hout
  next =>
    rw [copySplit_eq (cstr_append hs _) (Nat.le_refl _) (wrap32_ge _) hhigh] at hout
    split at hout
    next =>
      split at hout
      next hboth =>
        obtain ⟨⟨copied, k⟩, hr, hafter⟩ := Option.map_eq_some_iff.mp hout
        cases copied with
        | true =>
            -- each token has found a slot, so that `count` has not overflowed
            obtain ⟨hk, hm, -⟩ := copies_true hr
            have hcount := wrap32_eq (n := ((tokensOf (isDelim delim) s.chars).length : Int)) (by omega) (by omega)
            rw [hcount, hk] at hafter
            rw [← hafter]
            exact ⟨_, rfl, listsTokens_afterCopies _ _ _ _⟩
        | false => exact hrefused (congrArg some hafter)
      next => exact hrefused hout
    next => exact hrefused hout
  next => exact hrefused hout

/-- All allocations for `n` tokens are granted: two copies of the string, the array
and the tokens. -/
def Granted (alloc : Nat → Bool) (h : Blocks) (n : Nat) : Prop :=
  ∀ i, h.length ≤ i → i < h.length + 3 + n → alloc i = true

/-- **`lz_strsplit` is exact**, as long as an `int` can count the tokens: the blocks
that were there stay as they are; with all it asks for it lists the tokens, and without
it has freed all it got, each block once, and leaves its arguments alone. -/
theorem strsplit_exact {h : Blocks} {str : Nat} {s : CStr} (hs : h.cstr str 0 = some s) (delim : CStr) {ts : List Bytes}
    (hts : Tokens (isDelim delim) s.chars ts) (hfew : ts.length < 2 ^ 31) (old : Option Nat) (oldCount : Int)
    (alloc : Nat → Bool) :
    ∃ out new, lzStrsplit (some str) (some delim) (some old) (some oldCount) alloc h = some out ∧
      out.blocks = h ++ new ∧
      (Granted alloc h ts.length → out.ret = 0 ∧ out.tokenCount = some (ts.length : Int) ∧
        ∃ a, out.tokens = some (some a) ∧ ListsTokens out.blocks a ts) ∧
      (¬ Granted alloc h ts.length → out.ret = -1 ∧ out.tokens = some old ∧ out.tokenCount = some oldCount ∧
        ∀ b ∈ new, b = none) := by
  have hcount : wrap32 (ts.length : Int) = ts.length := wrap32_eq (by omega) (by omega)
  rw [tokens_iff] at hts
  rw [lzStrsplit_eq hs, ← hts, hcount]
  have hlen : (h ++ [(none : Option Block)]).length = h.length + 1 := by
    rw [List.length_append]
    rfl
  -- every way to fail leaves the freed blocks only
  have hrefused : ∀ k, ¬ Granted alloc h ts.length → ∃ out new,
      some (Split.mk (-1) (some old) (some oldCount) (h ++ List.replicate k none)) = some out ∧ out.blocks = h ++ new ∧
      (Granted alloc h ts.length → out.ret = 0 ∧ out.tokenCount = some (ts.length : Int) ∧
        ∃ a, out.tokens = some (some a) ∧ ListsTokens out.blocks a ts) ∧
      (¬ Granted alloc h ts.length → out.ret = -1 ∧ out.tokens = some old ∧ out.tokenCount = some oldCount ∧
        ∀ b ∈ new, b = none) := by
    intro k hnot
    exact ⟨_, List.replicate k none, rfl, rfl, fun hall => absurd hall hnot,
      fun _ => ⟨rfl, rfl, rfl, fun b hb => List.eq_of_mem_replicate hb⟩⟩
  by_cases hfirst : alloc h.length = true
  · rw [if_pos hfirst, copySplit_eq (cstr_append hs _) (Nat.le_refl _) (by omega) (by omega), ← hts, hlen,
      Int.toNat_natCast]
    by_cases hsecond : alloc (h.length + 1) = true
    · rw [if_pos hsecond]
      by_cases harray : alloc (h.length + 1 + 1) = true
      · rw [if_pos ⟨by omega, harray⟩]
        have hcopies : ∃ r, copies alloc (h.length + 1 + 2) ts ts.length = some r := copies_some (Nat.le_refl _)
        obtain ⟨⟨copied, k⟩, hr⟩ := hcopies
        rw [hr, Option.map_some]
        cases copied with
        | true =>
            obtain ⟨hk, -, hall⟩ := copies_true hr
            have hlist := listsTokens_afterCopies (h ++ [none]) ts (some old) (some oldCount)
            rw [hlen] at hlist
            -- each of the three blocks and of the tokens was granted
            have hgranted : Granted alloc h ts.length := by
              intro i hlow hhigh
              rcases Nat.lt_or_ge i (h.length + 3) with hi | hi
              · obtain rfl | rfl | rfl : i = h.length ∨ i = h.length + 1 ∨ i = h.length + 1 + 1 := by omega
                · exact hfirst
                · exact hsecond
                · exact harray
              · have hj := hall (i - (h.length + 3)) (by omega)
                rw [show h.length + 1 + 2 + (i - (h.length + 3)) = i by omega] at hj
                exact hj
            refine ⟨_, _, rfl, List.append_assoc _ _ _, fun _ => ⟨rfl, rfl, h.length + 2, ?_, ?_⟩,
              fun hnot => absurd hgranted hnot⟩
            · show some (some ((h ++ [(none : Option Block)]).length + 1)) = _
              rw [hlen]
            · rw [hk]
              exact hlist
        | false =>
            obtain ⟨hk, -, hnull⟩ := copies_false hr
            have hall : ¬ Granted alloc h ts.length := by
              intro hall
              rw [hall (h.length + 1 + 2 + k) (by omega) (by omega)] at hnull
              cases hnull
            show ∃ out new, some (Split.mk (-1) (some old) (some oldCount) ((h ++ [none]) ++ List.replicate (k + 2) none))
              = some out ∧ _
            rw [List.append_assoc]
            exact hrefused (k + 3) hall
      · rw [if_neg (fun hboth => harray hboth.2), List.append_assoc]
        exact hrefused 2 (fun hall => harray (hall (h.length + 2) (by omega) (by omega)))
    · rw [if_neg hsecond]
      exact hrefused 1 (fun hall => hsecond (hall (h.length + 1) (by omega) (by omega)))
  · rw [if_neg hfirst]
    have hnone := hrefused 0 (fun hall => hfirst (hall h.length (Nat.le_refl _) (by omega)))
    rw [List.replicate_zero, List.append_nil] at hnone
    exact hnone

/-- `",ab,,c"` has two tokens; the array is the fourth block. -/
theorem strsplit_exact_ab :
    ∃ out new, lzStrsplit (some 0) (some ⟨[44], by decide⟩) (some none) (some 7) (fun _ => true)
        [some (.bytes [44, 97, 98, 44, 44, 99, 0])] = some out ∧
      out.blocks = [some (.bytes [44, 97, 98, 44, 44, 99, 0])] ++ new ∧
      (Granted (fun _ => true) [some (.bytes [44, 97, 98, 44, 44, 99, 0])] 2 → out.ret = 0 ∧ out.tokenCount = some 2 ∧
        ∃ a, out.tokens = some (some a) ∧ ListsTokens out.blocks a [[97, 98], [99]]) ∧
      (¬ Granted (fun _ => true) [some (.bytes [44, 97, 98, 44, 44, 99, 0])] 2 → out.ret = -1 ∧
        out.tokens = some none ∧ out.tokenCount = some 7 ∧ ∀ b ∈ new, b = none) :=
  strsplit_exact (s := ⟨[44, 97, 98, 44, 44, 99], by decide⟩) (by decide) ⟨[44], by decide⟩
    ((tokens_iff _).mpr (show [[97, 98], [99]] = _ by decide)) (by decide) none 7 (fun _ => true)

/-- A string with `n` tokens. -/
theorem tokensOf_many {p : UInt8 → Bool} (ha : p 97 = false) (hcomma : p 44 = true) (n : Nat) :
    tokensOf p (List.replicate n [97, 44]).flatten = List.replicate n [97] := by
  induction n with
  | zero => rfl
  | succ n ih =>
      have hrun : tokensOf p [97] = [[97]] := by
        apply tokensOf_run (List.cons_ne_nil _ _)
        intro c hc
        rw [List.mem_singleton.mp hc]
        exact ha
      rw [List.replicate_succ, List.flatten_cons]
      show tokensOf p ([97] ++ 44 :: (List.replicate n [97, 44]).flatten) = _
      rw [tokensOf_append hcomma, ih, hrun]
      rfl

/-- Where `count` comes back to 0, the first token finds no slot. -/
theorem strsplit_no_slot {h : Blocks} {str : Nat} {s delim : CStr} (hs : h.cstr str 0 = some s)
    (hne : tokensOf (isDelim delim) s.chars ≠ []) (hcount : wrap32 ((tokensOf (isDelim delim) s.chars).length : Int) = 0) :
    lzStrsplit (some str) (some delim) (some none) (some 0) (fun _ => true) h = none := by
  rw [lzStrsplit_eq hs, if_pos rfl, hcount, copySplit_eq (cstr_append hs _) (Nat.le_refl _) (by decide) (by decide),
    if_pos rfl, if_pos ⟨Int.le_refl 0, rfl⟩]
  obtain ⟨t, ts, hts⟩ := List.exists_cons_of_ne_nil hne
  rw [hts]
  rfl

/-- A string with `2 ^ 32` tokens: `count` is 0, and what follows is a write behind
an array without slots. -/
theorem strsplit_overflow :
    ∃ (h : Blocks) (str : Nat) (s delim : CStr) (ts : List Bytes), h.cstr str 0 = some s ∧
      Tokens (isDelim delim) s.chars ts ∧ ts.length = 2 ^ 32 ∧
      lzStrsplit (some str) (some delim) (some none) (some 0) (fun _ => true) h = none := by
  have hnul : (0 : UInt8) ∉ (List.replicate (2 ^ 32) [(97 : UInt8), 44]).flatten := by
    intro h0
    obtain ⟨l, hl, h0⟩ := List.mem_flatten.mp h0
    rw [List.eq_of_mem_replicate hl] at h0
    exact absurd h0 (by decide)
  have hmany := tokensOf_many (p := isDelim ⟨[44], by decide⟩) rfl rfl (2 ^ 32)
  have hs : Blocks.cstr ([] ++ some (.bytes ([] ++ ((List.replicate (2 ^ 32) [(97 : UInt8), 44]).flatten ++ [0]))) :: [])
      0 0 = some ⟨_, hnul⟩ := Blocks.cstr_at rfl hnul rfl
  refine ⟨_, 0, ⟨_, hnul⟩, ⟨[44], by decide⟩, List.replicate (2 ^ 32) [97], hs, ?_, List.length_replicate, ?_⟩
  · rw [tokens_iff]
    exact hmany.symm
  · apply strsplit_no_slot hs
    · rw [hmany]
      intro hempty
      have hlen := congrArg List.length hempty
      rw [List.length_replicate, List.length_nil] at hlen
      exact absurd hlen (by decide)
    · rw [hmany, List.length_replicate]
      decide

end LzLib.CommonUtils
