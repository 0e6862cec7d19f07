/-
  LzLib.Foundation.Runs
  ─────────────────────
  **RUNS OF A COMPONENT UNDER OPERATIONS.**

  A component is a step function that may have no outcome (`none`: the
  program's behaviour is undefined there) together with what its callers
  promise before each operation.  `Legal` is that promise kept along the
  run that really happens.  The invariant rule does both halves at once: a
  legal run never gets stuck, and the invariant holds at its end.
-/
import Mathlib.Data.List.Basic

namespace LzLib.Foundation

/-- A component with states `σ` and operations `ο`. -/
structure Component (σ ο : Type) where
  /-- One operation; `none` when the program's behaviour is undefined. -/
  step : σ → ο → Option σ
  /-- What the caller promises when it issues the operation. -/
  allowed : σ → ο → Prop

namespace Component

variable {σ ο : Type} (M : Component σ ο)

/-- The state after a list of operations. -/
def run : σ → List ο → Option σ
  | s, [] => some s
  | s, o :: os => (M.step s o).bind fun s' => run s' os

/-- The callers keep their promises along the run. -/
def Legal : σ → List ο → Prop
  | _, [] => True
  | s, o :: os => M.allowed s o ∧ ∀ s', M.step s o = some s' → Legal s' os

/-- The promises along a concrete run, evaluated. -/
def legalCheck [∀ s o, Decidable (M.allowed s o)] : σ → List ο → Bool
  | _, [] => true
  | s, o :: os => decide (M.allowed s o) && (M.step s o).all fun s' => legalCheck s' os

theorem legal_of_check [∀ s o, Decidable (M.allowed s o)] {os : List ο} {s : σ}
    (h : M.legalCheck s os = true) : M.Legal s os := by
  induction os generalizing s with
  | nil => trivial
  | cons o os ih =>
      unfold legalCheck at h
      rw [Bool.and_eq_true, decide_eq_true_iff] at h
      refine ⟨h.1, ?_⟩
      intro s' hs'
      apply ih
      simpa only [hs', Option.all_some] using h.2

/-- Callers that promise nothing keep their promises. -/
theorem legal_of_always (h : ∀ s o, M.allowed s o) (os : List ο) : ∀ s, M.Legal s os := by
  induction os with
  | nil =>
      intro s
      trivial
  | cons o os ih =>
      intro s
      exact ⟨h s o, fun s' _ => ih s'⟩

theorem run_append (xs ys : List ο) : ∀ s, M.run s (xs ++ ys) = (M.run s xs).bind fun t => M.run t ys := by
  induction xs with
  | nil =>
      intro s
      rfl
  | cons x xs ih =>
      intro s
      show (M.step s x).bind _ = ((M.step s x).bind _).bind _
      rw [Option.bind_assoc]
      congr 1
      funext t
      exact ih t

/-- An operation that gets stuck ends the run. -/
theorem run_stuck {pre post : List ο} {o : ο} {s t : σ} (hpre : M.run s pre = some t) (hstuck : M.step t o = none) :
    M.run s (pre ++ o :: post) = none := by
  rw [run_append, hpre, Option.bind_some]
  show (M.step t o).bind _ = none
  rw [hstuck]
  rfl

/-- A legal run goes on legally with an operation allowed at its end. -/
theorem Legal.concat {os : List ο} {o : ο} :
    ∀ {s : σ}, M.Legal s os → (∀ t, M.run s os = some t → M.allowed t o) → M.Legal s (os ++ [o]) := by
  induction os with
  | nil =>
      intro s _ ho
      exact ⟨ho s rfl, fun _ _ => trivial⟩
  | cons o' os ih =>
      intro s hl ho
      refine ⟨hl.1, ?_⟩
      intro s' hs'
      refine ih (hl.2 s' hs') ?_
      intro t ht
      refine ho t ?_
      simp only [run, hs', Option.bind_some, ht]

/-- The first part of a legal run is legal, and the operation after it is
allowed. -/
theorem Legal.split {M : Component σ ο} {os : List ο} {o : ο} {rest : List ο} :
    ∀ {s : σ}, M.Legal s (os ++ o :: rest) →
      M.Legal s os ∧ ∀ t, M.run s os = some t → M.allowed t o := by
  induction os with
  | nil =>
      intro s h
      refine ⟨trivial, ?_⟩
      intro t ht
      cases ht
      exact h.1
  | cons o' os ih =>
      intro s h
      refine ⟨⟨h.1, fun s' hs' => (ih (h.2 s' hs')).1⟩, ?_⟩
      intro t ht
      obtain ⟨s', hs', hrest⟩ := Option.bind_eq_some_iff.mp ht
      exact (ih (h.2 s' hs')).2 t hrest

/-- **Invariant rule**: if an allowed operation never gets stuck and keeps
`Inv`, a legal run never gets stuck and ends in `Inv`. -/
theorem run_inv {Inv : σ → Prop}
    (hstep : ∀ s o, Inv s → M.allowed s o → ∃ s', M.step s o = some s' ∧ Inv s') :
    ∀ (os : List ο) (s : σ), Inv s → M.Legal s os → ∃ s', M.run s os = some s' ∧ Inv s'
  | [], s, hs, _ => ⟨s, rfl, hs⟩
  | o :: os, s, hs, hl => by
      obtain ⟨s₁, h₁, hs₁⟩ := hstep s o hs hl.1
      obtain ⟨s₂, h₂, hs₂⟩ := run_inv hstep os s₁ hs₁ (hl.2 s₁ h₁)
      refine ⟨s₂, ?_, hs₂⟩
      simp only [run, h₁, Option.bind_some, h₂]

/-- The invariant rule where an operation may get stuck in a known way: the
run ends in `Inv`, or gets stuck so after a first part that kept `Inv`. -/
theorem run_inv_or {Inv : σ → Prop} {Stuck : σ → ο → Prop}
    (hstep : ∀ s o, Inv s → M.allowed s o → (∃ s', M.step s o = some s' ∧ Inv s') ∨ Stuck s o) :
    ∀ (os : List ο) (s : σ), Inv s → M.Legal s os →
      (∃ s', M.run s os = some s' ∧ Inv s') ∨
      ∃ pre o post t, os = pre ++ o :: post ∧ M.run s pre = some t ∧ Inv t ∧ Stuck t o := by
  intro os
  induction os with
  | nil =>
      intro s hs _
      exact Or.inl ⟨s, rfl, hs⟩
  | cons o os ih =>
      intro s hs hl
      rcases hstep s o hs hl.1 with ⟨s₁, h₁, hs₁⟩ | hstuck
      · rcases ih s₁ hs₁ (hl.2 s₁ h₁) with ⟨s₂, h₂, hs₂⟩ | ⟨pre, o', post, t, hos, hpre, ht, hstuck⟩
        · refine Or.inl ⟨s₂, ?_, hs₂⟩
          simp only [run, h₁, Option.bind_some, h₂]
        · refine Or.inr ⟨o :: pre, o', post, t, by rw [hos, List.cons_append], ?_, ht, hstuck⟩
          simp only [run, h₁, Option.bind_some, hpre]
      · exact Or.inr ⟨[], o, os, s, rfl, rfl, hs, hstuck⟩

/-- The invariant rule where a step may have no outcome: whenever the run has
an end, `Inv` holds there. -/
theorem run_safe {Inv : σ → Prop}
    (hstep : ∀ s o s', Inv s → M.allowed s o → M.step s o = some s' → Inv s')
    {os : List ο} {s t : σ} (hs : Inv s) (hl : M.Legal s os) (hrun : M.run s os = some t) :
    Inv t := by
  induction os generalizing s with
  | nil =>
      cases hrun
      exact hs
  | cons o os ih =>
      obtain ⟨s₁, h₁, hrest⟩ := Option.bind_eq_some_iff.mp hrun
      exact ih (hstep s o s₁ hs hl.1 h₁) (hl.2 s₁ h₁) hrest

/-- **What is over.**  If each step sets the flag `D` exactly where `P` held
before it and no longer holds after it, and `D` excludes `P`, then at the end of
a run `D` says that `P` held at some earlier point and does not hold any more. -/
theorem run_dropped {Inv P D : σ → Prop} (hover : ∀ s, Inv s → D s → ¬ P s)
    (hstep : ∀ s o s', Inv s → M.allowed s o → M.step s o = some s' →
      Inv s' ∧ (D s' ↔ D s ∨ (P s ∧ ¬ P s')))
    {os : List ο} : ∀ {s t : σ}, Inv s → M.Legal s os → M.run s os = some t →
      (D t ↔ D s ∨ (¬ P t ∧ ∃ pre post u, os = pre ++ post ∧ M.run s pre = some u ∧ P u)) := by
  induction os with
  | nil =>
      intro s t hs _ hrun
      cases hrun
      constructor
      · exact Or.inl
      · rintro (hd | ⟨hnot, pre, post, u, hos, hpre, hu⟩)
        · exact hd
        · cases (List.append_eq_nil_iff.mp hos.symm).1
          cases hpre
          exact absurd hu hnot
  | cons o os ih =>
      intro s t hs hl hrun
      obtain ⟨s₁, h₁, hrest⟩ := Option.bind_eq_some_iff.mp hrun
      obtain ⟨hs₁, hdrop⟩ := hstep s o s₁ hs hl.1 h₁
      have hend : Inv t := M.run_safe (fun s o s' hs ha h => (hstep s o s' hs ha h).1) hs hl hrun
      have hkeep := ih hs₁ (hl.2 s₁ h₁) hrest
      constructor
      · intro hd
        have hnot := hover t hend hd
        rcases hkeep.mp hd with hd₁ | ⟨-, pre, post, u, hos, hpre, hu⟩
        · rcases hdrop.mp hd₁ with hd₀ | ⟨hp, -⟩
          · exact Or.inl hd₀
          · exact Or.inr ⟨hnot, [], o :: os, s, rfl, rfl, hp⟩
        · refine Or.inr ⟨hnot, o :: pre, post, u, by rw [hos, List.cons_append], ?_, hu⟩
          simp only [run, h₁, Option.bind_some, hpre]
      · rintro (hd | ⟨hnot, pre, post, u, hos, hpre, hu⟩)
        · exact hkeep.mpr (Or.inl (hdrop.mpr (Or.inl hd)))
        · cases pre with
          | nil =>
              cases hpre
              -- `P` holds at the start: it is over after the first step, or holds there still
              by_cases hp₁ : P s₁
              · exact hkeep.mpr (Or.inr ⟨hnot, [], os, s₁, rfl, rfl, hp₁⟩)
              · exact hkeep.mpr (Or.inl (hdrop.mpr (Or.inr ⟨hu, hp₁⟩)))
          | cons o' pre =>
              obtain ⟨rfl, rfl⟩ := List.cons_eq_cons.mp hos
              obtain ⟨s₂, h₂, hpre'⟩ := Option.bind_eq_some_iff.mp hpre
              rw [h₁, Option.some.injEq] at h₂
              subst h₂
              exact hkeep.mpr (Or.inr ⟨hnot, pre, post, u, rfl, hpre', hu⟩)

end Component

end LzLib.Foundation
