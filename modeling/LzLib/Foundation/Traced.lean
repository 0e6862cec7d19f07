/-
  LzLib.Foundation.Traced
  ───────────────────────
  **COMPUTATIONS THAT LEAVE A TRACE AND MAY STOP.**

  A computation writes down events on its way; it ends with a result, or the
  program stops there.  `Spec P Q` says that every event of the trace is as
  `P` asks, and the result, if there is one, as `Q` does.  It has one rule for
  each way to build a computation.
-/
import Mathlib.Data.List.Basic

namespace LzLib.Foundation

/-- The events, and the result; `none` when the program has stopped. -/
structure Traced (τ α : Type) where
  trace : List τ
  result : Option α

namespace Traced

variable {τ α β : Type}

/-- One event `e`; the program stops there unless there is a value. -/
def event (e : τ) (value : Option α) : Traced τ α := ⟨[e], value⟩

/-- No event. -/
def ofOption (value : Option α) : Traced τ α := ⟨[], value⟩

/-- On from the result of `x`, if the program gets there. -/
protected def bind (x : Traced τ α) (f : α → Traced τ β) : Traced τ β :=
  match x.result with
  | none => ⟨x.trace, none⟩
  | some a => ⟨x.trace ++ (f a).trace, (f a).result⟩

instance : Monad (Traced τ) where
  pure a := ofOption (some a)
  bind := Traced.bind

@[simp] theorem ofOption_bind (a : α) (f : α → Traced τ β) : ofOption (some a) >>= f = f a := rfl

@[simp] theorem pure_bind (a : α) (f : α → Traced τ β) : (pure a : Traced τ α) >>= f = f a := rfl

/-- After an event at which the program stops nothing follows. -/
@[simp] theorem event_none_bind (e : τ) (f : α → Traced τ β) : event e none >>= f = event e none := rfl

/-! ## Specifications. -/

/-- Every event satisfies `P`, and the result `Q`. -/
structure Spec (P : τ → Prop) (Q : α → Prop) (x : Traced τ α) : Prop where
  events : ∀ e ∈ x.trace, P e
  result : ∀ a, x.result = some a → Q a

variable {P : τ → Prop} {Q : α → Prop} {R : β → Prop}

theorem spec_pure {a : α} (h : Q a) : Spec P Q (pure a : Traced τ α) where
  events e he := by cases he
  result a' ha' := by
    cases ha'
    exact h

theorem spec_ofOption {value : Option α} (h : ∀ a, value = some a → Q a) :
    Spec P Q (ofOption value : Traced τ α) where
  events e he := by cases he
  result := h

theorem spec_event {e : τ} {value : Option α} (he : P e) (h : ∀ a, value = some a → Q a) :
    Spec P Q (event e value) where
  events e' he' := by
    rw [List.mem_singleton.mp he']
    exact he
  result := h

/-- **The rule of sequence.** -/
theorem spec_bind {x : Traced τ α} {f : α → Traced τ β} (hx : Spec P Q x) (hf : ∀ a, Q a → Spec P R (f a)) :
    Spec P R (x >>= f) := by
  obtain ⟨trace, result⟩ := x
  cases result with
  | none => exact ⟨hx.events, by intro b hb; cases hb⟩
  | some a =>
      have ha := hf a (hx.result a rfl)
      refine ⟨?_, ha.result⟩
      intro e he
      rcases List.mem_append.mp he with he | he
      · exact hx.events e he
      · exact ha.events e he

end Traced

end LzLib.Foundation
