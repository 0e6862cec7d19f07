/-
  LzLib.Foundation.Strings
  ────────────────────────
  **THE TOKENISERS OF THE C LIBRARY.**

  `strsep` cuts the string in a block at its first delimiter, `strtok_r` at the
  first one behind a token; both overwrite the delimiter and leave where the rest
  starts.  What each does to a text is said once, by the parts of the text:
  `strsep_last`, `strsep_piece`, `strtokR_end`, `strtokR_last`, `strtokR_token`.
-/
import LzLib.Foundation.Blocks

namespace LzLib.Foundation

/-- A character of `delim`. -/
def isDelim (delim : CStr) (c : UInt8) : Bool := delim.chars.contains c

/-- `strspn`. -/
def strspn (s : Bytes) (delim : CStr) : Nat := (s.takeWhile (isDelim delim)).length

/-- `strcspn`. -/
def strcspn (s : Bytes) (delim : CStr) : Nat := (s.takeWhile fun c => !isDelim delim c).length

/-- `strcmp` of two strings without their NULs. -/
def strcmp : Bytes → Bytes → Int
  | [], [] => 0
  | a :: _, [] => a.toNat
  | [], b :: _ => -(b.toNat : Int)
  | a :: as, b :: bs => if a = b then strcmp as bs else (a.toNat : Int) - b.toNat

/-- `strsep`, on the block `b`: the token, what is left in `*stringp`, and the heap. -/
def strsep (h : Blocks) (b : Nat) (stringp : Option Nat) (delim : CStr) : Option (Option Nat × Option Nat × Blocks) :=
  match stringp with
  | none => some (none, none, h)
  | some off =>
      (h.cstr b off).bind fun s =>
        let n := strcspn s.chars delim
        if n = s.strlen then some (some off, none, h)
        else (h.putByte b (off + n) 0).map fun h => (some off, some (off + n + 1), h)

/-- `strtok_r`, on the block `b`: the token, what is left in `*saveptr`, and the heap. -/
def strtokR (h : Blocks) (b : Nat) (str : Option Nat) (delim : CStr) (saveptr : Option Nat) :
    Option (Option Nat × Option Nat × Blocks) :=
  match str.or saveptr with
  | none => none
  | some off =>
      (h.cstr b off).bind fun s =>
        let start := strspn s.chars delim
        if start = s.strlen then some (none, some (off + start), h)
        else
          let n := strcspn (s.chars.drop start) delim
          if start + n = s.strlen then some (some (off + start), some (off + start + n), h)
          else (h.putByte b (off + start + n) 0).map fun h => (some (off + start), some (off + start + n + 1), h)

/-! ## §1. Comparison. -/

theorem byte_toNat_ne_zero {c : UInt8} (h : c ≠ 0) : c.toNat ≠ 0 := by
  intro h0
  exact h (UInt8.toNat_inj.mp h0)

/-- **`strcmp` tells strings apart.** -/
theorem strcmp_eq_zero_iff : ∀ {a b : Bytes}, (0 : UInt8) ∉ a → (0 : UInt8) ∉ b → (strcmp a b = 0 ↔ a = b) := by
  intro a
  induction a with
  | nil =>
      intro b _ hb
      cases b with
      | nil => exact iff_of_true rfl rfl
      | cons y b =>
          have hy := byte_toNat_ne_zero (fun h0 : y = 0 => hb (h0 ▸ List.mem_cons_self))
          apply iff_of_false
          · show ¬ -(y.toNat : Int) = 0
            omega
          · exact fun h => nomatch h
  | cons x a ih =>
      intro b ha hb
      rw [List.mem_cons, not_or] at ha
      cases b with
      | nil =>
          have hx := byte_toNat_ne_zero (Ne.symm ha.1)
          apply iff_of_false
          · show ¬ (x.toNat : Int) = 0
            omega
          · exact fun h => nomatch h
      | cons y b =>
          rw [List.mem_cons, not_or] at hb
          unfold strcmp
          rw [List.cons.injEq]
          by_cases hxy : x = y
          · rw [if_pos hxy, ih ha.2 hb.2]
            exact ⟨fun h => ⟨hxy, h⟩, fun h => h.2⟩
          · rw [if_neg hxy]
            apply iff_of_false
            · have hne : x.toNat ≠ y.toNat := fun h => hxy (UInt8.toNat_inj.mp h)
              omega
            · exact fun h => hxy h.1

/-! ## §2. Spans. -/

section Spans

variable {delim : CStr}

theorem strspn_append {gap rest : Bytes} (hgap : ∀ c ∈ gap, isDelim delim c = true)
    (hrest : ∀ c ∈ rest.head?, isDelim delim c = false) : strspn (gap ++ rest) delim = gap.length := by
  unfold strspn
  rw [List.takeWhile_append_of_pos hgap]
  cases rest with
  | nil => rw [List.takeWhile_nil, List.append_nil]
  | cons c rest =>
      have hc := hrest c rfl
      rw [List.takeWhile_cons_of_neg (by rw [hc]; exact Bool.false_ne_true), List.append_nil]

theorem strcspn_append {t rest : Bytes} (ht : ∀ c ∈ t, isDelim delim c = false)
    (hrest : ∀ c ∈ rest.head?, isDelim delim c = true) : strcspn (t ++ rest) delim = t.length := by
  unfold strcspn
  rw [List.takeWhile_append_of_pos (fun c hc => by rw [ht c hc]; rfl)]
  cases rest with
  | nil => rw [List.takeWhile_nil, List.append_nil]
  | cons c rest =>
      have hc := hrest c rfl
      rw [List.takeWhile_cons_of_neg (by rw [hc]; exact Bool.false_ne_true), List.append_nil]

theorem strcspn_all {t : Bytes} (ht : ∀ c ∈ t, isDelim delim c = false) : strcspn t delim = t.length := by
  have h : strcspn (t ++ []) delim = t.length := strcspn_append ht (fun c hc => nomatch hc)
  rw [List.append_nil] at h
  exact h

end Spans

/-! ## §3. Cutting a string. -/

section Cutting

variable {front behind : Blocks} {b : Nat} {delim : CStr} {done : Bytes} {off : Nat}

/-- The last piece. -/
theorem strsep_last (hb : b = front.length) (hoff : off = done.length) {t : Bytes} (hnul : (0 : UInt8) ∉ t)
    (ht : ∀ c ∈ t, isDelim delim c = false) :
    strsep (front ++ some (.bytes (done ++ (t ++ [0]))) :: behind) b (some off) delim
      = some (some off, none, front ++ some (.bytes (done ++ (t ++ [0]))) :: behind) := by
  have hstr : Blocks.cstr (front ++ some (.bytes (done ++ (t ++ [0]))) :: behind) b off = some ⟨t, hnul⟩ :=
    Blocks.cstr_at hb hnul hoff
  unfold strsep
  dsimp only
  rw [hstr, Option.bind_some, strcspn_all ht]
  exact if_pos rfl

/-- A piece in front of a delimiter. -/
theorem strsep_piece (hb : b = front.length) (hoff : off = done.length) {t rest : Bytes} {d : UInt8}
    (hnul : (0 : UInt8) ∉ t ++ d :: rest) (ht : ∀ c ∈ t, isDelim delim c = false) (hd : isDelim delim d = true) :
    strsep (front ++ some (.bytes (done ++ ((t ++ d :: rest) ++ [0]))) :: behind) b (some off) delim
      = some (some off, some (off + t.length + 1),
          front ++ some (.bytes (done ++ (t ++ 0 :: (rest ++ [0])))) :: behind) := by
  have hstr : Blocks.cstr (front ++ some (.bytes (done ++ ((t ++ d :: rest) ++ [0]))) :: behind) b off
      = some ⟨t ++ d :: rest, hnul⟩ := Blocks.cstr_at hb hnul hoff
  have hcut : Blocks.putByte (front ++ some (.bytes ((done ++ t) ++ d :: (rest ++ [0]))) :: behind) b (off + t.length) 0
      = some (front ++ some (.bytes ((done ++ t) ++ 0 :: (rest ++ [0]))) :: behind) :=
    Blocks.putByte_at hb (by rw [List.length_append, hoff])
  have hspan : strcspn (t ++ d :: rest) delim = t.length := by
    apply strcspn_append ht
    intro c hc
    cases hc
    exact hd
  rw [List.append_assoc, List.append_assoc] at hcut
  unfold strsep
  dsimp only
  rw [hstr, Option.bind_some, hspan, if_neg, List.append_assoc, List.cons_append, hcut]
  · rfl
  · show t.length ≠ (t ++ d :: rest).length
    rw [List.length_append, List.length_cons]
    omega

variable {str saveptr : Option Nat}

/-- No token is left. -/
theorem strtokR_end (hb : b = front.length) (hoff : off = done.length) (hstart : str.or saveptr = some off)
    {gap : Bytes} (hnul : (0 : UInt8) ∉ gap) (hgap : ∀ c ∈ gap, isDelim delim c = true) :
    strtokR (front ++ some (.bytes (done ++ (gap ++ [0]))) :: behind) b str delim saveptr
      = some (none, some (off + gap.length), front ++ some (.bytes (done ++ (gap ++ [0]))) :: behind) := by
  have hstr : Blocks.cstr (front ++ some (.bytes (done ++ (gap ++ [0]))) :: behind) b off = some ⟨gap, hnul⟩ :=
    Blocks.cstr_at hb hnul hoff
  have hspan : strspn (gap ++ []) delim = gap.length := strspn_append hgap (fun c hc => nomatch hc)
  rw [List.append_nil] at hspan
  unfold strtokR
  rw [hstart]
  dsimp only
  rw [hstr, Option.bind_some, hspan]
  exact if_pos rfl

section Token

variable {gap t : Bytes} (hgap : ∀ c ∈ gap, isDelim delim c = true) (hne : t ≠ [])
  (ht : ∀ c ∈ t, isDelim delim c = false)

include hgap hne ht

/-- The gap in front of a token is skipped. -/
theorem strspn_token (rest : Bytes) : strspn (gap ++ (t ++ rest)) delim = gap.length := by
  apply strspn_append hgap
  intro c hc
  obtain ⟨x, t, rfl⟩ := List.exists_cons_of_ne_nil hne
  cases hc
  exact ht c List.mem_cons_self

/-- The last token. -/
theorem strtokR_last (hb : b = front.length) (hoff : off = done.length) (hstart : str.or saveptr = some off)
    (hnul : (0 : UInt8) ∉ gap ++ t) :
    strtokR (front ++ some (.bytes (done ++ ((gap ++ t) ++ [0]))) :: behind) b str delim saveptr
      = some (some (off + gap.length), some (off + gap.length + t.length),
          front ++ some (.bytes (done ++ ((gap ++ t) ++ [0]))) :: behind) := by
  have hstr : Blocks.cstr (front ++ some (.bytes (done ++ ((gap ++ t) ++ [0]))) :: behind) b off = some ⟨gap ++ t, hnul⟩ :=
    Blocks.cstr_at hb hnul hoff
  have hspan := strspn_token hgap hne ht []
  have hpos := List.length_pos_iff.mpr hne
  rw [List.append_nil] at hspan
  unfold strtokR
  rw [hstart]
  dsimp only
  rw [hstr, Option.bind_some, hspan, if_neg, List.drop_left, strcspn_all ht, if_pos]
  · show _ = (gap ++ t).length
    rw [List.length_append]
  · show _ ≠ (gap ++ t).length
    rw [List.length_append]
    omega

/-- A token in front of a delimiter. -/
theorem strtokR_token (hb : b = front.length) (hoff : off = done.length) (hstart : str.or saveptr = some off)
    {d : UInt8} {rest : Bytes} (hd : isDelim delim d = true) (hnul : (0 : UInt8) ∉ gap ++ (t ++ d :: rest)) :
    strtokR (front ++ some (.bytes (done ++ ((gap ++ (t ++ d :: rest)) ++ [0]))) :: behind) b str delim saveptr
      = some (some (off + gap.length), some (off + gap.length + t.length + 1),
          front ++ some (.bytes (done ++ (gap ++ (t ++ 0 :: (rest ++ [0]))))) :: behind) := by
  have hstr : Blocks.cstr (front ++ some (.bytes (done ++ ((gap ++ (t ++ d :: rest)) ++ [0]))) :: behind) b off
      = some ⟨gap ++ (t ++ d :: rest), hnul⟩ := Blocks.cstr_at hb hnul hoff
  have hcut : Blocks.putByte (front ++ some (.bytes ((done ++ (gap ++ t)) ++ d :: (rest ++ [0]))) :: behind) b
      (off + gap.length + t.length) 0
      = some (front ++ some (.bytes ((done ++ (gap ++ t)) ++ 0 :: (rest ++ [0]))) :: behind) :=
    Blocks.putByte_at hb (by rw [List.length_append, List.length_append, hoff, Nat.add_assoc])
  have hcspan : strcspn (t ++ d :: rest) delim = t.length := by
    apply strcspn_append ht
    intro c hc
    cases hc
    exact hd
  simp only [List.append_assoc, List.cons_append] at hcut hstr ⊢
  unfold strtokR
  rw [hstart]
  dsimp only
  rw [hstr, Option.bind_some, strspn_token hgap hne ht, if_neg, List.drop_left, hcspan, if_neg, hcut]
  · rfl
  · show _ ≠ (gap ++ (t ++ d :: rest)).length
    rw [List.length_append, List.length_append, List.length_cons]
    omega
  · show _ ≠ (gap ++ (t ++ d :: rest)).length
    rw [List.length_append, List.length_append, List.length_cons]
    omega

end Token

end Cutting

end LzLib.Foundation
