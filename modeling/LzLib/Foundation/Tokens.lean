/-
  LzLib.Foundation.Tokens
  ───────────────────────
  **TOKENS: THE MAXIMAL RUNS BETWEEN DELIMITERS.**

  `Tokens p s ts` says how a text is made: gaps of delimiters, with the tokens
  `ts` between them.  `MaximalRun p s t` says what one token is.  `tokensOf`
  computes the tokens from the pieces between single delimiters, less the empty
  ones; all three agree: `tokens_iff`, `mem_tokensOf`.
-/
import Mathlib.Data.List.Basic

namespace LzLib.Foundation

variable {α : Type} (p : α → Bool)

/-! ## §1. What tokens are. -/

/-- **A text and its tokens in order**: gaps of delimiters, and between them runs
without any. -/
inductive Tokens : List α → List (List α) → Prop
  | gap {s : List α} (hs : ∀ c ∈ s, p c = true) : Tokens s []
  | token {gap t rest : List α} {ts : List (List α)} (hgap : ∀ c ∈ gap, p c = true) (hne : t ≠ [])
      (ht : ∀ c ∈ t, p c = false) (hrest : ∀ c ∈ rest.head?, p c = true) (T : Tokens rest ts) :
      Tokens (gap ++ (t ++ rest)) (t :: ts)

/-- **A maximal run** without delimiters, not empty. -/
def MaximalRun (s t : List α) : Prop :=
  ∃ front behind, s = front ++ (t ++ behind) ∧ t ≠ [] ∧ (∀ c ∈ t, p c = false) ∧
    (∀ c ∈ front.getLast?, p c = true) ∧ ∀ c ∈ behind.head?, p c = true

/-- The pieces between the delimiters that are not empty. -/
def tokensOf (s : List α) : List (List α) := (s.splitOnP p).filter fun t => !t.isEmpty

section Pieces

variable {p}

/-! ## §2. Pieces. -/

/-- A delimiter separates. -/
theorem tokensOf_append {d : α} (hd : p d = true) (a b : List α) :
    tokensOf p (a ++ d :: b) = tokensOf p a ++ tokensOf p b := by
  unfold tokensOf
  rw [List.splitOnP_append_cons a b hd, List.filter_append]

@[simp] theorem tokensOf_nil : tokensOf p [] = [] := rfl

theorem tokensOf_cons {d : α} (hd : p d = true) (s : List α) : tokensOf p (d :: s) = tokensOf p s :=
  tokensOf_append hd [] s

/-- A run is one token. -/
theorem tokensOf_run {t : List α} (hne : t ≠ []) (ht : ∀ c ∈ t, p c = false) : tokensOf p t = [t] := by
  unfold tokensOf
  rw [List.splitOnP_eq_singleton ht, List.filter_singleton]
  cases t with
  | nil => exact absurd rfl hne
  | cons c t => rfl

/-- A gap holds no token. -/
theorem tokensOf_gap {gap : List α} (hgap : ∀ c ∈ gap, p c = true) (s : List α) :
    tokensOf p (gap ++ s) = tokensOf p s := by
  induction gap with
  | nil => rfl
  | cons c gap ih =>
      rw [List.cons_append, tokensOf_cons (hgap c List.mem_cons_self)]
      exact ih (fun c' hc' => hgap c' (List.mem_cons_of_mem _ hc'))

/-- A text is one piece, or a piece, a delimiter and the rest. -/
theorem piece_cases (s : List α) :
    (∀ c ∈ s, p c = false) ∨ ∃ t d rest, s = t ++ d :: rest ∧ (∀ c ∈ t, p c = false) ∧ p d = true := by
  induction s with
  | nil => exact Or.inl (fun c hc => absurd hc List.not_mem_nil)
  | cons c s ih =>
      cases hc : p c with
      | true => exact Or.inr ⟨[], c, s, rfl, fun c' hc' => absurd hc' List.not_mem_nil, hc⟩
      | false =>
          have hcons : ∀ {t : List α}, (∀ x ∈ t, p x = false) → ∀ x ∈ c :: t, p x = false := by
            intro t ht x hx
            rcases List.mem_cons.mp hx with rfl | hx
            · exact hc
            · exact ht x hx
          rcases ih with hs | ⟨t, d, rest, rfl, ht, hd⟩
          · exact Or.inl (hcons hs)
          · exact Or.inr ⟨c :: t, d, rest, rfl, hcons ht, hd⟩

/-- The first token, and those behind it. -/
theorem tokensOf_token {t rest : List α} (hne : t ≠ []) (ht : ∀ c ∈ t, p c = false)
    (hrest : ∀ c ∈ rest.head?, p c = true) : tokensOf p (t ++ rest) = t :: tokensOf p rest := by
  cases rest with
  | nil => rw [List.append_nil, tokensOf_run hne ht, tokensOf_nil]
  | cons d rest =>
      have hd : p d = true := hrest d rfl
      rw [tokensOf_append hd, tokensOf_run hne ht, tokensOf_cons hd]
      rfl

/-- A text without tokens has only delimiters. -/
theorem tokensOf_eq_nil_iff {s : List α} : tokensOf p s = [] ↔ ∀ c ∈ s, p c = true := by
  constructor
  · intro h
    induction s with
    | nil =>
        intro c hc
        exact absurd hc List.not_mem_nil
    | cons c s ih =>
        cases hc : p c with
        | true =>
            rw [tokensOf_cons hc] at h
            intro c' hc'
            rcases List.mem_cons.mp hc' with rfl | hc'
            · exact hc
            · exact ih h c' hc'
        | false =>
            unfold tokensOf at h
            rw [List.splitOnP_cons_eq_if_modifyHead, hc] at h
            obtain ⟨x, xs, hx⟩ := List.exists_cons_of_ne_nil (List.splitOnP_ne_nil p s)
            rw [hx] at h
            cases h
  · intro h
    have hgap := tokensOf_gap h []
    rw [List.append_nil] at hgap
    exact hgap

end Pieces

/-! ## §3. The three agree. -/

/-- A text is made of the tokens that are computed. -/
theorem tokens_tokensOf (s : List α) : Tokens p s (tokensOf p s) := by
  induction hn : s.length using Nat.strongRecOn generalizing s with
  | ind n ih =>
      have hsplit : s.takeWhile p ++ s.dropWhile p = s := List.takeWhile_append_dropWhile
      have hgap : ∀ c ∈ s.takeWhile p, p c = true := fun c hc => List.all_eq_true.mp List.all_takeWhile c hc
      cases hbody : s.dropWhile p with
      | nil =>
          rw [hbody, List.append_nil] at hsplit
          rw [hsplit] at hgap
          rw [tokensOf_eq_nil_iff.mpr hgap]
          exact Tokens.gap hgap
      | cons c body =>
          -- a run starts at `c`, and ends at a delimiter or with the text
          have hc : p c = false := by
            have hhead := List.head?_dropWhile_not p s
            rw [hbody] at hhead
            exact hhead
          have hrun : (c :: body).takeWhile (fun x => !p x) ++ (c :: body).dropWhile (fun x => !p x) = c :: body :=
            List.takeWhile_append_dropWhile
          have ht : ∀ x ∈ (c :: body).takeWhile (fun x => !p x), p x = false := by
            intro x hx
            have hx := List.all_eq_true.mp List.all_takeWhile x hx
            exact (Bool.not_eq_true' _).mp hx
          have hne : (c :: body).takeWhile (fun x => !p x) ≠ [] := by
            rw [List.takeWhile_cons_of_pos (by rw [hc]; rfl)]
            exact List.cons_ne_nil _ _
          have hrest : ∀ x ∈ ((c :: body).dropWhile (fun x => !p x)).head?, p x = true := by
            intro x hx
            have hhead := List.head?_dropWhile_not (fun x => !p x) (c :: body)
            rw [hx] at hhead
            simpa using hhead
          have hlen : ((c :: body).dropWhile (fun x => !p x)).length < n := by
            have hpos := List.length_pos_iff.mpr hne
            have htotal := congrArg List.length hrun
            have hwhole := congrArg List.length hsplit
            rw [List.length_append] at htotal hwhole
            rw [hbody] at hwhole
            omega
          have T := ih _ hlen _ rfl
          rw [← hsplit, hbody, ← hrun, tokensOf_gap hgap, tokensOf_token hne ht hrest]
          exact Tokens.token hgap hne ht hrest T

/-- **A text has one list of tokens.** -/
theorem tokens_iff {s : List α} {ts : List (List α)} : Tokens p s ts ↔ ts = tokensOf p s := by
  constructor
  · intro T
    induction T with
    | gap hs => exact (tokensOf_eq_nil_iff.mpr hs).symm
    | token hgap hne ht hrest _ ih => rw [tokensOf_gap hgap, tokensOf_token hne ht hrest, ih]
  · intro hts
    rw [hts]
    exact tokens_tokensOf p s

variable {p}

theorem Tokens.maximal {s t : List α} {ts : List (List α)} (T : Tokens p s ts) : t ∈ ts → MaximalRun p s t := by
  induction T with
  | gap hs =>
      intro hmem
      exact absurd hmem List.not_mem_nil
  | @token gap t' rest ts hgap hne ht hrest _ ih =>
      intro hmem
      rcases List.mem_cons.mp hmem with rfl | hmem
      · exact ⟨gap, rest, rfl, hne, ht, fun c hc => hgap c (List.mem_of_getLast? hc), hrest⟩
      · obtain ⟨front, behind, hs, hne', ht', hfront, hbehind⟩ := ih hmem
        refine ⟨gap ++ (t' ++ front), behind, by rw [hs]; simp only [List.append_assoc], hne', ht', ?_, hbehind⟩
        intro c hc
        cases front with
        | nil =>
            -- then the run starts where a delimiter has to stand
            obtain ⟨x, xs, rfl⟩ := List.exists_cons_of_ne_nil hne'
            have hx := ht' x List.mem_cons_self
            rw [hrest x (by rw [hs]; rfl)] at hx
            cases hx
        | cons x front =>
            rw [List.getLast?_append_of_ne_nil _ (by simp), List.getLast?_append_of_ne_nil _ (by simp)] at hc
            exact hfront c hc

/-- **The tokens are the maximal runs.** -/
theorem mem_tokensOf {s t : List α} : t ∈ tokensOf p s ↔ MaximalRun p s t := by
  constructor
  · exact (tokens_tokensOf p s).maximal
  · intro h
    obtain ⟨front, behind, rfl, hne, ht, hfront, hbehind⟩ := h
    have hhere : t ∈ tokensOf p (t ++ behind) := by
      rw [tokensOf_token hne ht hbehind]
      exact List.mem_cons_self
    rcases List.eq_nil_or_concat' front with rfl | ⟨front, d, rfl⟩
    · exact hhere
    · have hd : p d = true := hfront d (by simp)
      rw [List.append_assoc]
      show t ∈ tokensOf p (front ++ d :: (t ++ behind))
      rw [tokensOf_append hd]
      exact List.mem_append_right _ hhere

end LzLib.Foundation
