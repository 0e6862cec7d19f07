/-
  LzLib.CommonUtils.Strstr
  ────────────────────────
  **`lz_strstr` LOOKS FOR A TOKEN.**

  Its result is the last comparison: `lastComparison`, over the tokens of the
  string (`lzStrstr_eq`).  Where there is none, the loop does not run and the
  result keeps its initial 0: `token_membership_iff`.
-/
import LzLib.CommonUtils.Strsplit

namespace LzLib.CommonUtils

open LzLib.Foundation

/-! ## §1. The loop. -/

/-- The result of the loop over `ts`, which stops at the first 0. -/
def lastComparison (wanted : Bytes) : Int → List Bytes → Int
  | ret, [] => ret
  | _, t :: ts => if strcmp t wanted = 0 then 0 else lastComparison wanted (strcmp t wanted) ts

/-- A comparison that is not 0 is followed by 0 if the token comes. -/
theorem lastComparison_eq_zero_iff {wanted : Bytes} (hwanted : (0 : UInt8) ∉ wanted) : ∀ {ts : List Bytes} {ret : Int},
    ret ≠ 0 → (∀ t ∈ ts, (0 : UInt8) ∉ t) → (lastComparison wanted ret ts = 0 ↔ wanted ∈ ts) := by
  intro ts
  induction ts with
  | nil =>
      intro ret hret _
      exact iff_of_false hret List.not_mem_nil
  | cons t ts ih =>
      intro ret _ hnul
      have ht := strcmp_eq_zero_iff (hnul t List.mem_cons_self) hwanted
      unfold lastComparison
      by_cases hsame : strcmp t wanted = 0
      · rw [if_pos hsame, ← ht.mp hsame]
        exact iff_of_true rfl List.mem_cons_self
      · rw [if_neg hsame, ih hsame (fun t' ht' => hnul t' (List.mem_cons_of_mem _ ht')), List.mem_cons]
        have hne : wanted ≠ t := fun h => hsame (ht.mpr h.symm)
        exact ⟨Or.inr, fun h => h.resolve_left hne⟩

/-- **From 0 on, the result is 0 if the token comes, or no token does.** -/
theorem lastComparison_zero {wanted : Bytes} (hwanted : (0 : UInt8) ∉ wanted) {ts : List Bytes}
    (hnul : ∀ t ∈ ts, (0 : UInt8) ∉ t) : lastComparison wanted 0 ts = 0 ↔ wanted ∈ ts ∨ ts = [] := by
  cases ts with
  | nil => exact iff_of_true rfl (Or.inr rfl)
  | cons t ts =>
      -- the first comparison replaces the 0
      have hfirst : lastComparison wanted 0 (t :: ts) = lastComparison wanted 1 (t :: ts) := rfl
      rw [hfirst, lastComparison_eq_zero_iff hwanted (by decide) hnul]
      exact ⟨Or.inl, fun h => h.resolve_right (List.cons_ne_nil _ _)⟩

/-- No token of a string holds a NUL. -/
theorem token_nulFree {p : UInt8 → Bool} {s t : Bytes} (hnul : (0 : UInt8) ∉ s) (ht : t ∈ tokensOf p s) :
    (0 : UInt8) ∉ t := by
  obtain ⟨front, behind, rfl, -⟩ := mem_tokensOf.mp ht
  simp only [List.mem_append, not_or] at hnul
  exact hnul.2.1

section Loop

variable {front behind : Blocks} {b : Nat} {delim wanted : CStr}

/-- A token is compared, and the loop goes on behind it. -/
theorem compareTokens_token (hb : b = front.length) {done t rest : Bytes} (hnul : (0 : UInt8) ∉ t) (fuel : Nat)
    (savePtr : Option Nat) (ret : Int) :
    compareTokens b delim wanted (fuel + 1) (front ++ some (.bytes (done ++ (t ++ 0 :: rest))) :: behind)
        (some done.length) savePtr ret
      = if strcmp t wanted.chars = 0 then some (0, front ++ some (.bytes (done ++ (t ++ 0 :: rest))) :: behind)
        else (strtokR (front ++ some (.bytes (done ++ (t ++ 0 :: rest))) :: behind) b none delim savePtr).bind fun cut =>
          compareTokens b delim wanted fuel cut.2.2 cut.1 cut.2.1 (strcmp t wanted.chars) := by
  have hstr : Blocks.cstr (front ++ some (.bytes (done ++ (t ++ 0 :: rest))) :: behind) b done.length = some ⟨t, hnul⟩ :=
    Blocks.cstr_at hb hnul rfl
  rw [compareTokens]
  dsimp only
  rw [hstr, Option.bind_some]
  dsimp only
  split
  next hsame => rw [hsame]
  next => rfl

/-- **The loop compares all tokens**, to the first one that is equal. -/
theorem compareTokens_spec (hb : b = front.length) : ∀ (fuel : Nat) (done s : Bytes) (str savePtr : Option Nat) (ret : Int),
    s.length + 1 ≤ fuel → (0 : UInt8) ∉ s → str.or savePtr = some done.length → ∃ buf,
      (strtokR (front ++ some (.bytes (done ++ (s ++ [0]))) :: behind) b str delim savePtr).bind
          (fun cut => compareTokens b delim wanted fuel cut.2.2 cut.1 cut.2.1 ret)
        = some (lastComparison wanted.chars ret (tokensOf (isDelim delim) s), front ++ some (.bytes buf) :: behind) := by
  intro fuel
  induction fuel with
  | zero =>
      intro done s str savePtr ret hfuel
      omega
  | succ fuel ih =>
      intro done s str savePtr ret hfuel hnul hstart
      have T := tokens_tokensOf (isDelim delim) s
      generalize hts : tokensOf (isDelim delim) s = ts at T
      -- only delimiters are left, or there is a token
      cases T with
      | gap hs =>
          rw [strtokR_end hb rfl hstart hnul hs, Option.bind_some]
          exact ⟨_, rfl⟩
      | @token gap t rest ts hgap hne ht hrest T =>
          rw [(tokens_iff _).mp T]
          have hnul' : (0 : UInt8) ∉ t ∧ (0 : UInt8) ∉ rest := by
            simp only [List.mem_append, not_or] at hnul
            exact hnul.2
          have hpos := List.length_pos_iff.mpr hne
          have htoken : done.length + gap.length = (done ++ gap).length := List.length_append.symm
          -- it ends the string, or a delimiter is behind it
          cases rest with
          | nil =>
              rw [List.append_nil] at hnul hfuel ⊢
              rw [strtokR_last hgap hne ht hb rfl hstart hnul, Option.bind_some]
              dsimp only
              have hbuf : done ++ ((gap ++ t) ++ [0]) = (done ++ gap) ++ (t ++ [0]) := by
                simp only [List.append_assoc]
              rw [hbuf, htoken, compareTokens_token hb hnul'.1, lastComparison]
              split
              · exact ⟨_, rfl⟩
              · have hsave : (done ++ gap).length + t.length = (done ++ (gap ++ t)).length := by
                  rw [← List.length_append, List.append_assoc]
                have hnext : (done ++ gap) ++ (t ++ [0]) = (done ++ (gap ++ t)) ++ ([] ++ [0]) := by
                  simp only [List.append_assoc, List.nil_append]
                rw [hsave, hnext]
                apply ih (done ++ (gap ++ t)) [] none _ _ _ hnul'.2 rfl
                rw [List.length_append] at hfuel
                rw [List.length_nil]
                omega
          | cons d rest =>
              have hd : isDelim delim d = true := hrest d rfl
              rw [strtokR_token hgap hne ht hb rfl hstart hd hnul, Option.bind_some, tokensOf_cons hd]
              dsimp only
              have hbuf : done ++ (gap ++ (t ++ 0 :: (rest ++ [0]))) = (done ++ gap) ++ (t ++ 0 :: (rest ++ [0])) := by
                simp only [List.append_assoc]
              rw [hbuf, htoken, compareTokens_token hb hnul'.1, lastComparison]
              split
              · exact ⟨_, rfl⟩
              · have hsave : (done ++ gap).length + t.length + 1 = (done ++ (gap ++ (t ++ [0]))).length := by
                  simp only [List.length_append, List.length_singleton]
                  omega
                have hnext : (done ++ gap) ++ (t ++ 0 :: (rest ++ [0])) = (done ++ (gap ++ (t ++ [0]))) ++ (rest ++ [0]) := by
                  simp only [List.append_assoc, List.cons_append, List.nil_append]
                have hnul'' : (0 : UInt8) ∉ rest := fun h0 => hnul'.2 (List.mem_cons_of_mem _ h0)
                rw [hsave, hnext]
                apply ih (done ++ (gap ++ (t ++ [0]))) rest none _ _ _ hnul'' rfl
                rw [List.length_append, List.length_append, List.length_cons] at hfuel
                omega

end Loop

/-! ## §2. The result. -/

section Result

variable {h : Blocks} {str : Nat} {s delim wanted : CStr} {alloc : Nat → Bool}

/-- **`lz_strstr`**, with memory for the copy. -/
theorem lzStrstr_eq (hs : h.cstr str 0 = some s) (hgrant : alloc h.length = true) :
    lzStrstr (some str) (some delim) (some wanted) alloc h
      = some (lastComparison wanted.chars 0 (tokensOf (isDelim delim) s.chars), h ++ [none]) := by
  have hloop : ∃ buf, (strtokR (h ++ [some (.bytes ([] ++ (s.chars ++ [0])))]) h.length (some 0) delim none).bind
      (fun cut => compareTokens h.length delim wanted (s.strlen + 2) cut.2.2 cut.1 cut.2.1 0)
      = some (lastComparison wanted.chars 0 (tokensOf (isDelim delim) s.chars), h ++ [some (.bytes buf)]) :=
    compareTokens_spec rfl (s.strlen + 2) [] s.chars (some 0) none 0 (Nat.le_succ _) s.nulFree rfl
  obtain ⟨buf, hloop⟩ := hloop
  have hfree : Blocks.free (h ++ [some (.bytes buf)]) (some h.length) = some (h ++ [none]) := Blocks.free_at rfl
  unfold lzStrstr
  dsimp only
  rw [hs, Option.bind_some, strdup_eq hs, Option.bind_some, Blocks.allocate, if_pos hgrant]
  dsimp only
  rw [← Option.bind_assoc]
  show (Option.bind ((strtokR (h ++ [some (.bytes ([] ++ (s.chars ++ [0])))]) h.length (some 0) delim none).bind _) _) = _
  rw [hloop, Option.bind_some]
  dsimp only
  rw [hfree]
  rfl

/-- An array lists one sequence of tokens. -/
theorem ListsTokens.unique {a : Nat} {ts ts' : List Bytes} (L : ListsTokens h a ts) (L' : ListsTokens h a ts') :
    ts = ts' := by
  obtain ⟨ps, hslots, -, -, hall⟩ := L
  obtain ⟨ps', hslots', -, -, hall'⟩ := L'
  rw [hslots] at hslots'
  have hps : ps = ps' := List.map_injective_iff.mpr (Option.some_injective _) (Option.some.inj hslots')
  rw [← hps] at hall'
  refine List.right_unique_forall₂' ?_ hall hall'
  intro p t t' ht ht'
  have hbytes : t ++ [0] = t' ++ [0] := Option.some.inj (ht.symm.trans ht')
  exact List.append_cancel_right hbytes

end Result

/-- **`lz_strstr` is membership among the tokens** of `s`, with memory for its copy:
the maximal runs, and the strings that a successful `lz_strsplit` lists. -/
structure TokenMembership (s delim wanted : CStr) : Prop where
  runs : ∀ (h : Blocks) (str : Nat) (alloc : Nat → Bool), h.cstr str 0 = some s → alloc h.length = true →
    ∃ ret h', lzStrstr (some str) (some delim) (some wanted) alloc h = some (ret, h') ∧
      (ret = 0 ↔ MaximalRun (isDelim delim) s.chars wanted.chars)
  listed : ∀ (h : Blocks) (str : Nat) (alloc : Nat → Bool) (old : Option Nat) (oldCount : Int) (out : Split),
    h.cstr str 0 = some s → alloc h.length = true →
    lzStrsplit (some str) (some delim) (some old) (some oldCount) alloc h = some out → out.ret = 0 →
    ∃ ret h', lzStrstr (some str) (some delim) (some wanted) alloc h = some (ret, h') ∧
      (ret = 0 ↔ ∃ a ts, out.tokens = some (some a) ∧ ListsTokens out.blocks a ts ∧ wanted.chars ∈ ts)

/-- A string of delimiters gives 0. -/
theorem TokenMembership.has_token {s delim wanted : CStr} (M : TokenMembership s delim wanted) :
    tokensOf (isDelim delim) s.chars ≠ [] := by
  intro hnone
  have hs : Blocks.cstr ([] ++ some (.bytes ([] ++ (s.chars ++ [0]))) :: []) 0 0 = some s :=
    Blocks.cstr_at rfl s.nulFree rfl
  obtain ⟨ret, h', hrun, hret⟩ := M.runs _ 0 (fun _ => true) hs rfl
  rw [lzStrstr_eq hs rfl, hnone] at hrun
  cases hrun
  have hmem := mem_tokensOf.mpr (hret.mp rfl)
  rw [hnone] at hmem
  exact absurd hmem List.not_mem_nil

/-- **Where `lz_strstr` is membership**: on the strings with a character that is no
delimiter. -/
theorem token_membership_iff (s delim wanted : CStr) :
    TokenMembership s delim wanted ↔ ∃ c ∈ s.chars, isDelim delim c = false := by
  have htoken : tokensOf (isDelim delim) s.chars ≠ [] ↔ ∃ c ∈ s.chars, isDelim delim c = false := by
    rw [Ne, tokensOf_eq_nil_iff]
    simp only [not_forall, exists_prop, Bool.not_eq_true]
  rw [← htoken]
  constructor
  · intro M
    exact M.has_token
  · intro hne
    have hzero : lastComparison wanted.chars 0 (tokensOf (isDelim delim) s.chars) = 0 ↔
        wanted.chars ∈ tokensOf (isDelim delim) s.chars ∨ tokensOf (isDelim delim) s.chars = [] :=
      lastComparison_zero wanted.nulFree (fun t ht => token_nulFree s.nulFree ht)
    constructor
    · intro h str alloc hs hgrant
      refine ⟨_, _, lzStrstr_eq hs hgrant, ?_⟩
      rw [hzero, ← mem_tokensOf]
      exact ⟨fun h0 => h0.resolve_right hne, Or.inl⟩
    · intro h str alloc old oldCount out hs hgrant hout hret
      obtain ⟨a, ha, L⟩ := strsplit_success hs hout hret
      refine ⟨_, _, lzStrstr_eq hs hgrant, ?_⟩
      rw [hzero]
      constructor
      · intro h0
        exact ⟨a, _, ha, L, h0.resolve_right hne⟩
      · intro hlisted
        obtain ⟨a', ts, ha', L', hmem⟩ := hlisted
        rw [ha] at ha'
        cases ha'
        rw [L.unique L']
        exact Or.inl hmem

/-- `",,"` has no token, and `lz_strstr` finds `"x"` in it. -/
theorem token_membership_wrong :
    ∃ s delim wanted : CStr, s.chars = [44, 44] ∧ delim.chars = [44] ∧ wanted.chars = [120] ∧
      lzStrstr (some 0) (some delim) (some wanted) (fun _ => true) [some (Block.ofStr s)]
        = some (0, [some (Block.ofStr s), none]) ∧
      ¬ TokenMembership s delim wanted := by
  refine ⟨⟨[44, 44], by decide⟩, ⟨[44], by decide⟩, ⟨[120], by decide⟩, rfl, rfl, rfl, by decide, ?_⟩
  intro M
  exact M.has_token (by decide)

end LzLib.CommonUtils
