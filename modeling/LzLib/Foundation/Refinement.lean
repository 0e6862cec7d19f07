/-
  LzLib.Foundation.Refinement
  ───────────────────────────
  **COMPONENTS THAT ANSWER, AND WHAT THEY ANSWER.**

  A `Server` answers each call that it gets, as long as the callers keep their
  promises; its specification is a function on abstract states that gives the
  answer and the next state.  If one call refines the specification, then so does
  every run (`run_refines`): the server never gets stuck, and all its answers are
  those of the specification.
-/
import Mathlib.Data.List.Basic

namespace LzLib.Foundation

/-- A component with states `σ` that answers calls `ο` with results `ρ`. -/
structure Server (σ ο ρ : Type) where
  /-- One call; `none` when the program's behaviour is undefined. -/
  step : σ → ο → Option (σ × ρ)
  /-- What the caller promises when it makes the call. -/
  allowed : σ → ο → Prop

namespace Server

variable {σ ο ρ τ : Type} (M : Server σ ο ρ)

/-- The state after a list of calls, and the answers. -/
def run : σ → List ο → Option (σ × List ρ)
  | s, [] => some (s, [])
  | s, o :: os => do
      let (s, y) ← M.step s o
      let (s, ys) ← run s os
      return (s, y :: ys)

/-- The callers keep their promises along the run. -/
def Legal : σ → List ο → Prop
  | _, [] => True
  | s, o :: os => M.allowed s o ∧ ∀ s' y, M.step s o = some (s', y) → Legal s' os

/-- The promises along a concrete run, evaluated. -/
def legalCheck [∀ s o, Decidable (M.allowed s o)] : σ → List ο → Bool
  | _, [] => true
  | s, o :: os => decide (M.allowed s o) && (M.step s o).all fun r => legalCheck r.1 os

theorem legal_of_check [∀ s o, Decidable (M.allowed s o)] {os : List ο} {s : σ} (h : M.legalCheck s os = true) :
    M.Legal s os := by
  induction os generalizing s with
  | nil => trivial
  | cons o os ih =>
      unfold legalCheck at h
      rw [Bool.and_eq_true, decide_eq_true_iff] at h
      refine ⟨h.1, ?_⟩
      intro s' y hs'
      apply ih
      simpa only [hs', Option.all_some] using h.2

/-- The run of a specification. -/
def specRun (spec : τ → ο → τ × ρ) : τ → List ο → τ × List ρ
  | x, [] => (x, [])
  | x, o :: os => ((specRun spec (spec x o).1 os).1, (spec x o).2 :: (specRun spec (spec x o).1 os).2)

variable {spec : τ → ο → τ × ρ} {R : σ → τ → Prop}

theorem specRun_append (os : List ο) (o : ο) : ∀ x, (specRun spec x (os ++ [o])).1 = (spec (specRun spec x os).1 o).1 := by
  induction os with
  | nil => exact fun _ => rfl
  | cons o' os ih => exact fun x => ih (spec x o').1

/-- **Refinement rule.** -/
theorem run_refines
    (hstep : ∀ s x o, R s x → M.allowed s o → ∃ s', M.step s o = some (s', (spec x o).2) ∧ R s' (spec x o).1) {os : List ο} :
    ∀ {s : σ} {x : τ}, R s x → M.Legal s os →
      ∃ s', M.run s os = some (s', (specRun spec x os).2) ∧ R s' (specRun spec x os).1 := by
  induction os with
  | nil => exact fun hR _ => ⟨_, rfl, hR⟩
  | cons o os ih =>
      intro s x hR hlegal
      obtain ⟨s₁, h₁, hR₁⟩ := hstep s x o hR hlegal.1
      obtain ⟨s₂, h₂, hR₂⟩ := ih hR₁ (hlegal.2 s₁ _ h₁)
      refine ⟨s₂, ?_, hR₂⟩
      simp only [run, h₁, Option.bind_eq_bind, Option.bind_some, h₂]
      rfl

end Server

end LzLib.Foundation
