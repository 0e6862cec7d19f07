/-
  LzLib.Timer.Deadline
  ────────────────────
  **THE DEADLINE OF A NEW EVENT** (`lz_timer_call_after`).

  The microseconds of the time and of the delay are added and reduced first,
  and the carry is then computed from the field that already holds the
  reduced sum, plus the delay a second time.  The deadline is always
  normalised; the second that the carry is about is right for exactly the
  pairs of `CarryRight` (`after_deadline_iff`).
-/
import LzLib.Timer.TimerRuns
import Mathlib.Algebra.Group.Nat.Defs

namespace LzLib.Timer

open LzLib.Foundation

/-! ## §1. The carry. -/

/-- `0 <= tv_usec < 1000000`. -/
def Timeval.Normalised (tv : Timeval) : Prop := 0 ≤ tv.usec ∧ tv.usec < 1000000

instance (tv : Timeval) : Decidable tv.Normalised :=
  inferInstanceAs (Decidable (0 ≤ tv.usec ∧ tv.usec < 1000000))

/-- A time as a number of microseconds. -/
def Timeval.micros (tv : Timeval) : Int := tv.sec * 1000000 + tv.usec

/-- The deadline is the time plus the delay, as numbers and as the `unsigned
long long` that `TS` makes of them. -/
structure ExactDeadline (now delta due : Timeval) : Prop where
  normalised : due.Normalised
  micros : due.micros = now.micros + delta.micros
  stamp : ts due = (ts now + ts delta) % 2 ^ 64

/-- The microseconds of the delay, counted twice, do not fill a second, or fill
two. -/
def CarryRight (now delta : Timeval) : Prop :=
  now.usec + 2 * delta.usec < 1000000 ∨ 2000000 ≤ now.usec + 2 * delta.usec

theorem ts_eq_micros (tv : Timeval) : ts tv = (tv.micros % 2 ^ 64).toNat := rfl

/-- `TS` of a sum is the sum of both `TS`, in 64 bits. -/
theorem ts_add {now delta due : Timeval} (h : due.micros = now.micros + delta.micros) :
    ts due = (ts now + ts delta) % 2 ^ 64 := by
  rw [ts_eq_micros, ts_eq_micros, ts_eq_micros, h]
  omega

section

variable {now delta : Timeval}

/-- The microseconds are those of the sum, whatever happens to the seconds. -/
theorem deadline_normalised (hnow : now.Normalised) (hdelta : delta.Normalised) :
    (deadline now delta).Normalised := by
  unfold Timeval.Normalised at hnow hdelta
  have hsum : 0 ≤ now.usec + delta.usec := by omega
  show 0 ≤ (now.usec + delta.usec).tmod 1000000 ∧ (now.usec + delta.usec).tmod 1000000 < 1000000
  rw [Int.tmod_eq_emod_of_nonneg hsum]
  omega

/-- **The deadline, as a number**: off by the difference between the carry the
code computes and the carry that is due. -/
theorem deadline_micros (hnow : now.Normalised) (hdelta : delta.Normalised) :
    (deadline now delta).micros = now.micros + delta.micros
      + 1000000 * (((now.usec + delta.usec) % 1000000 + delta.usec) / 1000000
          - (now.usec + delta.usec) / 1000000) := by
  unfold Timeval.Normalised at hnow hdelta
  have hsum : 0 ≤ now.usec + delta.usec := by omega
  have hagain : 0 ≤ (now.usec + delta.usec) % 1000000 + delta.usec := by omega
  unfold deadline Timeval.micros
  dsimp only
  rw [Int.tmod_eq_emod_of_nonneg hsum, Int.tdiv_eq_ediv_of_nonneg hagain]
  -- quotient and remainder of the sum of the microseconds
  omega

/-- The two carries, in terms of the microseconds alone. -/
theorem carry_eq_iff (hnow : now.Normalised) (hdelta : delta.Normalised) :
    ((now.usec + delta.usec) % 1000000 + delta.usec) / 1000000 = (now.usec + delta.usec) / 1000000
      ↔ CarryRight now delta := by
  unfold Timeval.Normalised at hnow hdelta
  unfold CarryRight
  omega

/-- **Exactly when the deadline is right.** -/
theorem deadline_exact_iff (hnow : now.Normalised) (hdelta : delta.Normalised) :
    ExactDeadline now delta (deadline now delta) ↔ CarryRight now delta := by
  have hmicros := deadline_micros hnow hdelta
  rw [← carry_eq_iff hnow hdelta]
  constructor
  · intro h
    have hexact := h.micros
    omega
  · intro hcarry
    have hexact : (deadline now delta).micros = now.micros + delta.micros := by
      rw [hmicros, hcarry]
      omega
    exact ⟨deadline_normalised hnow hdelta, hexact, ts_add hexact⟩

end

/-! ## §2. The event that is created. -/

/-- **THE DEADLINE.**  In every reachable registry, at any time and for any
delay, `lz_timer_call_after` returns an event whose deadline is normalised,
and is the time plus the delay if and only if the carry is right. -/
theorem after_deadline_iff {ops : List TimerOp} (hlegal : timers.Legal .init ops) {s : Timers}
    (hrun : timers.run .init ops = some s) {now delta : Timeval} (hnow : now.Normalised)
    (hdelta : delta.Normalised) (cbk data : Addr) {e : Addr} (hnew : s.reg.heap e = none) :
    ∃ reg' event, timerCallAfter s.reg now delta cbk data (some e) = .ok (reg', some e) ∧
      reg'.heap e = some event ∧ event.due.Normalised ∧
      (ExactDeadline now delta event.due ↔ CarryRight now delta) := by
  obtain ⟨s', hrun', m, h⟩ := timers.run_inv timerStep_ok ops _ ⟨_, timersOk_init⟩ hlegal
  obtain rfl : s = s' := Option.some.inj (hrun.symm.trans hrun')
  obtain ⟨reg', pre, post, hcall, -, -, -, -, hheap⟩ :=
    timerCallAfter_spec h.ok h.unlocked now delta cbk data hnew
  refine ⟨reg', ⟨deadline now delta, cbk, data, s.reg.created⟩, hcall, ?_,
    deadline_normalised hnow hdelta, deadline_exact_iff hnow hdelta⟩
  rw [hheap, Function.update_self]

theorem after_deadline_iff_init :
    ∃ reg' event, timerCallAfter timerRegistryInit ⟨10, 300000⟩ ⟨0, 200000⟩ 1 1 (some 100)
        = .ok (reg', some 100) ∧
      reg'.heap 100 = some event ∧ event.due.Normalised ∧
      (ExactDeadline ⟨10, 300000⟩ ⟨0, 200000⟩ event.due ↔ CarryRight ⟨10, 300000⟩ ⟨0, 200000⟩) := by
  have hlegal : timers.Legal .init [] := trivial
  have hrun : timers.run .init [] = some .init := rfl
  exact after_deadline_iff hlegal hrun (by decide) (by decide) 1 1 rfl

/-- At 10.6 s with a delay of half a second the carry is lost. -/
theorem deadline_loses_second :
    ¬ ∀ now delta : Timeval, now.Normalised → delta.Normalised →
      ∃ reg' event, timerCallAfter timerRegistryInit now delta 1 1 (some 100) = .ok (reg', some 100) ∧
        reg'.heap 100 = some event ∧ ExactDeadline now delta event.due := by
  intro hall
  obtain ⟨reg', event, hcall, hheap, hexact⟩ :=
    hall ⟨10, 600000⟩ ⟨0, 500000⟩ (by decide) (by decide)
  have hdue : (match timerCallAfter timerRegistryInit ⟨10, 600000⟩ ⟨0, 500000⟩ 1 1 (some 100) with
      | .ok (reg, _) => (reg.heap 100).map TimerEvent.due
      | .error _ => none) = some ⟨10, 100000⟩ := by decide +kernel
  rw [hcall] at hdue
  have hdue' : (reg'.heap 100).map TimerEvent.due = some ⟨10, 100000⟩ := hdue
  rw [hheap] at hdue'
  have hmicros := hexact.micros
  rw [Option.some.inj hdue'] at hmicros
  exact absurd hmicros (by decide)

end LzLib.Timer
