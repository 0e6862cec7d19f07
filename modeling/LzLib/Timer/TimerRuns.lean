/-
  LzLib.Timer.TimerRuns
  ─────────────────────
  **RUNS OF THE REGISTRY, AND ITS SHUTDOWN.**

  Clients create and cancel events, and the timer thread passes over the
  active list now and then.  `Timers.made` is what the clients know: the events
  they asked for and have not cancelled.  Over any such run these are the events
  on the two lists, a pass fires exactly the active ones that are due, and no
  event is fired twice (`timer_registry`).

  The cleanup phase holds `reg->lock` and cancels with a function that takes
  it: it returns only if there is nothing to cancel
  (`cleanup_completes_iff`).
-/
import LzLib.Timer.TimerInvariant
import LzLib.Foundation.Runs

namespace LzLib.Timer

open LzLib.Foundation

/-! ## §1. Runs. -/

/-- The calls on a registry, and the passes of its thread. -/
inductive TimerOp
  | after (now delta : Timeval) (cbk data : Addr) (calloc : Option Addr)
  | cancel (e : Addr)
  | pass (now : Nat)
  | finish

/-- What a client asked for. -/
structure Asked where
  due : Timeval
  cbk : Addr
  data : Addr
deriving DecidableEq

/-- A registry, with the events whose callbacks were invoked, and the events that
clients made and have not cancelled. -/
structure Timers where
  reg : Registry
  fired : List TimerEvent
  made : List (Addr × Asked)

def timerStep (s : Timers) : TimerOp → Option Timers
  | .after now delta cbk data calloc =>
      (timerCallAfter s.reg now delta cbk data calloc).toOption.map fun r =>
        { s with
          reg := r.1
          made := (calloc.map fun e => (e, ⟨deadline now delta, cbk, data⟩)).toList ++ s.made }
  | .cancel e =>
      (timerCallCancel s.reg e).toOption.map fun reg =>
        { s with reg := reg, made := s.made.filter fun c => c.1 ≠ e }
  | .pass now => (timerPass s.reg now).toOption.map fun r => ⟨r.1, s.fired ++ r.2, s.made⟩
  | .finish => some { s with reg := { s.reg with fin := true } }

/-- `CALLOC` returns memory that is not in use; only events that exist are
cancelled; the thread passes until `fin` is set. -/
def timers : Component Timers TimerOp where
  step := timerStep
  allowed s op :=
    match op with
    | .after _ _ _ _ calloc => ∀ e, calloc = some e → s.reg.heap e = none
    | .cancel e => s.reg.heap e ≠ none
    | .pass _ => s.reg.fin = false
    | .finish => True

def Timers.init : Timers := ⟨timerRegistryInit, [], []⟩

/-- The event has what was asked for. -/
def TimerEvent.asked (ev : TimerEvent) : Asked := ⟨ev.due, ev.cbk, ev.data⟩

/-- What holds between two steps: the lists are in order, nobody holds the
lock, what clients made is what is in memory, and what was fired is what is no
longer active. -/
structure TimersOk (s : Timers) (m : TimerList → List Addr) : Prop where
  ok : TimerOk s.reg m
  unlocked : s.reg.locked = false
  made : ∀ e c, (e, c) ∈ s.made ↔ (s.reg.heap e).map TimerEvent.asked = some c
  once : (s.fired.map TimerEvent.serial).Nodup
  past : ∀ ev ∈ s.fired, ev.serial < s.reg.created
  waiting : ∀ e ∈ m .active, ∀ ev, s.reg.heap e = some ev → ev.serial ∉ s.fired.map TimerEvent.serial

theorem timersOk_init : TimersOk .init fun _ => [] := by
  have R₀ : Rings (fun _ => ⟨.head .active, .head .active⟩) TimerNode.head TimerNode.event (fun _ => False)
      (fun _ => []) :=
    rings_none _ (fun _ _ e => TimerNode.head.inj e) (fun _ _ e => TimerNode.event.inj e) nofun
  have R₁ := R₀.initHead .active
  have R₂ := R₁.initHead .stale
  have hrings : Rings timerRegistryInit.links TimerNode.head TimerNode.event (fun _ => True)
      (fun _ => []) := by
    refine R₂.restrict ?_ ?_
    · intro l _
      cases l <;> simp
    · intro l _
      simp only [Function.update_apply, ite_self]
  refine ⟨⟨hrings, ?_, List.Pairwise.nil, ⟨?_, ?_⟩, Nat.le_refl 0⟩, rfl, ?_, List.nodup_nil, nofun, nofun⟩
  · intro e
    simp [Timers.init, timerRegistryInit]
  · intro e ev h
    cases h
  · intro e e' ev ev' h
    cases h
  · intro e c
    simp [Timers.init, timerRegistryInit]

/-- **The events that clients made are those on the lists**, each of them on one,
with what was asked for. -/
structure Listed (s : Timers) (m : TimerList → List Addr) : Prop where
  listed : ∀ e, e ∈ s.made.map Prod.fst ↔ ∃ l, e ∈ m l
  one : ∀ l l' e, e ∈ m l → e ∈ m l' → l = l'
  asked : ∀ e c, (e, c) ∈ s.made → ∃ ev, s.reg.heap e = some ev ∧ ev.asked = c

theorem TimersOk.listed {s : Timers} {m : TimerList → List Addr} (h : TimersOk s m) : Listed s m := by
  refine ⟨?_, ?_, fun e c hc => Option.map_eq_some_iff.mp ((h.made e c).mp hc)⟩
  · intro e
    rw [← h.ok.live e, Option.ne_none_iff_exists', List.mem_map]
    constructor
    · rintro ⟨⟨e', c⟩, hmade, rfl⟩
      obtain ⟨ev, hev, -⟩ := Option.map_eq_some_iff.mp ((h.made _ c).mp hmade)
      exact ⟨ev, hev⟩
    · rintro ⟨ev, hev⟩
      exact ⟨(e, ev.asked), (h.made e _).mpr (by rw [hev]; rfl), rfl⟩
  · intro l l' e hl hl'
    by_contra hne
    exact h.ok.rings.apart l l' trivial trivial hne e hl hl'

/-- **A pass**, from a state in order: exactly the due events, each for the
first time, by deadline, and none of them left. -/
structure Passed (s : Timers) (m : TimerList → List Addr) (now : Nat) (reg' : Registry)
    (fired : List TimerEvent) (m' : TimerList → List Addr) : Prop where
  run : timerPass s.reg now = .ok (reg', fired)
  exactly : ((m .active).filter (isDue s.reg.heap now)).map s.reg.heap = fired.map some
  byDeadline : fired.Pairwise fun a b => ts a.due ≤ ts b.due
  after : TimersOk ⟨reg', s.fired ++ fired, s.made⟩ m'
  left : m' .active = (m .active).filter fun e => !isDue s.reg.heap now e
  none_due : ∀ e ∈ m' .active, now < dueOf reg'.heap e

/-- The rest of a sorted list is what is not due. -/
theorem dropWhile_due {heap : Heap TimerEvent} {xs : List Addr} (now : Nat)
    (h : xs.Pairwise fun a b => dueOf heap a ≤ dueOf heap b) :
    xs.dropWhile (isDue heap now) = xs.filter fun e => !isDue heap now e := by
  induction xs with
  | nil => rfl
  | cons e xs ih =>
      rw [List.pairwise_cons] at h
      by_cases hdue : isDue heap now e = true
      · rw [List.dropWhile_cons_of_pos hdue, List.filter_cons_of_neg (by simp [hdue]), ih h.2]
      · have hall : xs.filter (fun e => !isDue heap now e) = xs := by
          rw [List.filter_eq_self]
          intro x hx
          have hle := h.1 x hx
          simp only [isDue, decide_eq_true_eq, Bool.not_eq_true', decide_eq_false_iff_not] at hdue ⊢
          omega
        rw [List.dropWhile_cons_of_neg hdue, List.filter_cons_of_pos (by simpa using hdue), hall]

section Fired

variable {heap : Heap TimerEvent} {xs : List Addr} {fired : List TimerEvent}

/-- An event that fires is one of the due ones. -/
theorem fired_from (hfired : xs.map heap = fired.map some) {ev : TimerEvent} (hev : ev ∈ fired) :
    ∃ e ∈ xs, heap e = some ev := by
  have hmem : some ev ∈ xs.map heap := by
    rw [hfired]
    exact List.mem_map_of_mem hev
  obtain ⟨e, he, heq⟩ := List.mem_map.mp hmem
  exact ⟨e, he, heq⟩

/-- The order of the list is the order in which its events fire. -/
theorem fired_sorted (hfired : xs.map heap = fired.map some)
    (h : xs.Pairwise fun a b => dueOf heap a ≤ dueOf heap b) :
    fired.Pairwise fun a b => ts a.due ≤ ts b.due := by
  have hmap : (xs.map heap).Pairwise
      fun a b => (a.elim 0 fun ev => ts ev.due) ≤ b.elim 0 fun ev => ts ev.due := by
    rw [List.pairwise_map]
    refine h.imp ?_
    intro a b hab
    unfold dueOf at hab
    cases ha : heap a <;> cases hb : heap b <;> rw [ha, hb] at hab <;> exact hab
  rw [hfired, List.pairwise_map] at hmap
  exact hmap

/-- No event fires twice. -/
theorem fired_serials (hfired : xs.map heap = fired.map some) (hnodup : xs.Nodup) {created : Nat}
    (hnumbered : Numbered heap created) : (fired.map TimerEvent.serial).Nodup := by
  have hmap : (xs.map heap).Nodup := by
    refine hnodup.map_on ?_
    intro a ha b hb hab
    have hmem : heap a ∈ fired.map some := hfired ▸ List.mem_map_of_mem ha
    obtain ⟨eva, _, heva⟩ := List.mem_map.mp hmem
    exact hnumbered.distinct a b eva eva heva.symm (hab ▸ heva.symm) rfl
  rw [hfired] at hmap
  refine (List.Nodup.of_map some hmap).map_on ?_
  intro a ha b hb hab
  obtain ⟨ea, _, hea⟩ := fired_from hfired ha
  obtain ⟨eb, _, heb⟩ := fired_from hfired hb
  have hsame := hnumbered.distinct ea eb a b hea heb hab
  rw [hsame, heb] at hea
  exact (Option.some.inj hea).symm

end Fired

theorem timerPass_spec {s : Timers} {m : TimerList → List Addr} (h : TimersOk s m) (now : Nat) :
    ∃ reg' fired m', Passed s m now reg' fired m' := by
  have hfew := h.ok.few
  obtain ⟨reg', fired, hrun, hunlocked, hheap, hcreated, hfired, hok⟩ :=
    passLoop_spec now (s.reg.created + 1) (m .active) s.reg m h.ok h.unlocked rfl (by omega)
  rw [takeWhile_due now h.ok.sorted] at hfired hok
  rw [dropWhile_due now h.ok.sorted] at hok
  have hsorted := fired_sorted hfired (h.ok.sorted.sublist (List.filter_sublist (p := isDue s.reg.heap now)))
  have hactive := (h.ok.rings.nodup (i := .active) trivial).filter (isDue s.reg.heap now)
  refine ⟨reg', fired, _, hrun, hfired, hsorted, ⟨hok, hunlocked, ?_, ?_, ?_, ?_⟩, rfl, ?_⟩
  · intro e c
    rw [show (⟨reg', s.fired ++ fired, s.made⟩ : Timers).reg.heap = s.reg.heap from hheap]
    exact h.made e c
  · rw [List.map_append, List.nodup_append]
    refine ⟨h.once, fired_serials hfired hactive h.ok.numbered, ?_⟩
    intro k hk k' hk'
    obtain ⟨ev, hev, rfl⟩ := List.mem_map.mp hk'
    obtain ⟨e, he, heq⟩ := fired_from hfired hev
    rintro rfl
    exact h.waiting e (List.mem_filter.mp he).1 ev heq hk
  · intro ev hev
    rw [show (⟨reg', s.fired ++ fired, s.made⟩ : Timers).reg.created = s.reg.created from hcreated]
    rcases List.mem_append.mp hev with hev | hev
    · exact h.past ev hev
    · obtain ⟨e, _, heq⟩ := fired_from hfired hev
      exact h.ok.numbered.serials e ev heq
  · intro e he ev heq
    have heq' : s.reg.heap e = some ev := by
      rw [← hheap]
      exact heq
    obtain ⟨hactive, hnot⟩ := List.mem_filter.mp he
    rw [List.map_append, List.mem_append, not_or]
    refine ⟨h.waiting e hactive ev heq', ?_⟩
    -- an event that has fired was due
    intro hmem
    obtain ⟨ev', hev', hserial⟩ := List.mem_map.mp hmem
    obtain ⟨e', he', heq''⟩ := fired_from hfired hev'
    have hsame := h.ok.numbered.distinct e e' ev ev' heq' heq'' hserial.symm
    rw [← hsame] at he'
    rw [(List.mem_filter.mp he').2] at hnot
    cases hnot
  · intro e he
    obtain ⟨-, hnot⟩ := List.mem_filter.mp he
    rw [hheap]
    simpa [isDue] using hnot

/-- The new event has not fired, and those that wait are still the same. -/
theorem TimersOk.created {s : Timers} {m : TimerList → List Addr} (h : TimersOk s m) {e : Addr}
    {new : TimerEvent} (hserial : new.serial = s.reg.created) {pre post : List Addr}
    (hsplit : m .active = pre ++ post) {x : Addr} (hx : x ∈ pre ++ e :: post) {ev : TimerEvent}
    (hev : Function.update s.reg.heap e (some new) x = some ev) :
    ev.serial ∉ s.fired.map TimerEvent.serial := by
  by_cases hxe : x = e
  · rw [hxe, Function.update_self, Option.some.injEq] at hev
    intro hmem
    obtain ⟨ev', hfired, hev'⟩ := List.mem_map.mp hmem
    have hlt := h.past ev' hfired
    rw [hev', ← hev, hserial] at hlt
    exact Nat.lt_irrefl _ hlt
  · rw [Function.update_of_ne hxe] at hev
    refine h.waiting x ?_ ev hev
    rw [hsplit]
    simp only [List.mem_append, List.mem_cons] at hx ⊢
    tauto

/-- What clients made, with a new event. -/
theorem TimersOk.madeMore {s : Timers} {m : TimerList → List Addr} (h : TimersOk s m) {e : Addr}
    (hnew : s.reg.heap e = none) (new : TimerEvent) (e' : Addr) (c : Asked) :
    (e', c) ∈ (e, new.asked) :: s.made
      ↔ (Function.update s.reg.heap e (some new) e').map TimerEvent.asked = some c := by
  rw [List.mem_cons, Prod.mk.injEq]
  by_cases hee : e' = e
  · subst hee
    have hnone : (e', c) ∉ s.made := by
      intro hmade
      rw [h.made, hnew] at hmade
      cases hmade
    rw [Function.update_self, Option.map_some, Option.some.injEq]
    constructor
    · rintro (⟨-, rfl⟩ | hmade)
      · rfl
      · exact absurd hmade hnone
    · intro hc
      exact Or.inl ⟨rfl, hc.symm⟩
  · rw [Function.update_of_ne hee, h.made]
    exact or_iff_right fun hsame => hee hsame.1

/-- And without one. -/
theorem TimersOk.madeLess {s : Timers} {m : TimerList → List Addr} (h : TimersOk s m) (e e' : Addr)
    (c : Asked) :
    (e', c) ∈ s.made.filter (fun c => c.1 ≠ e)
      ↔ (Function.update s.reg.heap e none e').map TimerEvent.asked = some c := by
  rw [List.mem_filter, h.made, decide_eq_true_iff]
  by_cases hee : e' = e
  · subst hee
    rw [Function.update_self]
    exact iff_of_false (fun hboth => hboth.2 rfl) (by simp)
  · rw [Function.update_of_ne hee]
    exact and_iff_left hee

/-- One step keeps the registry in order. -/
theorem timerStep_ok (s : Timers) (op : TimerOp) (h : ∃ m, TimersOk s m) (hop : timers.allowed s op) :
    ∃ s', timers.step s op = some s' ∧ ∃ m, TimersOk s' m := by
  obtain ⟨m, h⟩ := h
  show ∃ s', timerStep s op = some s' ∧ _
  cases op with
  | after now delta cbk data calloc =>
      cases hcalloc : calloc with
      | none => exact ⟨s, rfl, m, h⟩
      | some e =>
          have hnew : s.reg.heap e = none := hop e hcalloc
          obtain ⟨reg', pre, post, hrun, hsplit, hok, hunlocked, hcreated, hheap⟩ :=
            timerCallAfter_spec h.ok h.unlocked now delta cbk data hnew
          refine ⟨⟨reg', s.fired, (e, ⟨deadline now delta, cbk, data⟩) :: s.made⟩,
            by rw [timerStep, hrun]; rfl, _, hok, hunlocked, ?_, h.once, ?_, ?_⟩
          · intro e' c
            rw [show (reg' : Registry).heap = _ from hheap]
            exact h.madeMore hnew ⟨deadline now delta, cbk, data, s.reg.created⟩ e' c
          · intro ev hev
            have hlt := h.past ev hev
            show ev.serial < reg'.created
            omega
          · intro x hx ev hev
            have hev' : Function.update s.reg.heap e
                (some ⟨deadline now delta, cbk, data, s.reg.created⟩) x = some ev := by
              rw [← hheap]
              exact hev
            rw [Function.update_self] at hx
            exact h.created rfl hsplit hx hev'
  | cancel e =>
      -- a caller has the event from an `after`, so it is on a list
      obtain ⟨l, hl⟩ := (h.ok.live e).mp hop
      obtain ⟨reg', hrun, hok, hunlocked, hheap, hcreated, _⟩ := timerCallCancel_spec h.ok h.unlocked hl
      refine ⟨⟨reg', s.fired, s.made.filter fun c => c.1 ≠ e⟩, by rw [timerStep, hrun]; rfl, _, hok, hunlocked,
        ?_, h.once, ?_, ?_⟩
      · intro e' c
        rw [show (reg' : Registry).heap = _ from hheap]
        exact h.madeLess e e' c
      · intro ev hev
        show ev.serial < reg'.created
        rw [hcreated]
        exact h.past ev hev
      · intro x hx ev hev
        have hev' : Function.update s.reg.heap e none x = some ev := by
          rw [← hheap]
          exact hev
        by_cases hxe : x = e
        · rw [hxe, Function.update_self] at hev'
          cases hev'
        · rw [Function.update_of_ne hxe] at hev'
          exact h.waiting x ((mem_update_erase hxe TimerList.active).mp hx) ev hev'
  | pass now =>
      obtain ⟨reg', fired, m', hpassed⟩ := timerPass_spec h now
      exact ⟨_, by rw [timerStep, hpassed.run]; rfl, m', hpassed.after⟩
  | finish => exact ⟨_, rfl, m, ⟨h.ok.rings, h.ok.live, h.ok.sorted, h.ok.numbered, h.ok.few⟩,
      h.unlocked, h.made, h.once, h.past, h.waiting⟩

/-- **THE REGISTRY INVARIANT.**  Over any run the lists are well formed, the events
that were created and not cancelled are those on the lists, each on exactly one
and with the deadline, callback and data of its call, and `active` is sorted; a
pass at any time fires exactly the active events that are due, by deadline, each
for the first and only time, and leaves none of them; and a call returns the
event that `CALLOC` gave it. -/
theorem timer_registry (ops : List TimerOp) (hlegal : timers.Legal .init ops) :
    ∃ s m, timers.run .init ops = some s ∧ TimersOk s m ∧ Listed s m ∧
      (∀ now, ∃ reg' fired m', Passed s m now reg' fired m') ∧
      ∀ now delta cbk data calloc, timers.allowed s (.after now delta cbk data calloc) →
        ∃ reg', timerCallAfter s.reg now delta cbk data calloc = .ok (reg', calloc) := by
  obtain ⟨s, hrun, m, hok⟩ := timers.run_inv timerStep_ok ops _ ⟨_, timersOk_init⟩ hlegal
  refine ⟨s, m, hrun, hok, hok.listed, timerPass_spec hok, ?_⟩
  intro now delta cbk data calloc hnew
  cases calloc with
  | none => exact ⟨s.reg, rfl⟩
  | some e =>
      obtain ⟨reg', -, -, hafter, -⟩ :=
        timerCallAfter_spec hok.ok hok.unlocked now delta cbk data (hnew e rfl)
      exact ⟨reg', hafter⟩

/-- Two events, the second due first, and a pass that fires it. -/
def twoEvents : List TimerOp :=
  [.after ⟨10, 0⟩ ⟨5, 0⟩ 1 1 (some 100), .after ⟨10, 0⟩ ⟨2, 0⟩ 2 2 (some 200), .pass 13000000]

theorem twoEvents_legal : timers.Legal .init twoEvents := by
  have hsecond : ((timers.run .init [.after ⟨10, 0⟩ ⟨5, 0⟩ 1 1 (some 100)]).map fun s =>
      s.reg.heap 200) = some none := by decide +kernel
  have hfin : ((timers.run .init [.after ⟨10, 0⟩ ⟨5, 0⟩ 1 1 (some 100),
      .after ⟨10, 0⟩ ⟨2, 0⟩ 2 2 (some 200)]).map fun s => s.reg.fin) = some false := by decide +kernel
  have h₁ : timers.Legal .init [.after ⟨10, 0⟩ ⟨5, 0⟩ 1 1 (some 100)] :=
    ⟨fun _ _ => rfl, fun _ _ => trivial⟩
  have h₂ := Component.Legal.concat _ h₁ (o := .after ⟨10, 0⟩ ⟨2, 0⟩ 2 2 (some 200)) (by
    intro t ht e he
    cases he
    rw [ht] at hsecond
    exact Option.some.inj hsecond)
  exact Component.Legal.concat _ h₂ (o := .pass 13000000) (by
    intro t ht
    rw [List.singleton_append] at ht
    rw [ht] at hfin
    exact Option.some.inj hfin)

theorem timer_registry_twoEvents :
    ∃ s m, timers.run .init twoEvents = some s ∧ TimersOk s m ∧ Listed s m ∧
      s.made = [(200, ⟨⟨12, 0⟩, 2, 2⟩), (100, ⟨⟨15, 0⟩, 1, 1⟩)] ∧ s.fired.map TimerEvent.cbk = [2] ∧
      ∀ now, ∃ reg' fired m', Passed s m now reg' fired m' := by
  have hend : (timers.run .init twoEvents).map (fun s => (s.made, s.fired.map TimerEvent.cbk))
      = some ([(200, ⟨⟨12, 0⟩, 2, 2⟩), (100, ⟨⟨15, 0⟩, 1, 1⟩)], [2]) := by decide +kernel
  obtain ⟨s, m, hrun, hok, hlisted, hpass, -⟩ := timer_registry twoEvents twoEvents_legal
  rw [hrun, Option.map_some, Option.some.injEq, Prod.mk.injEq] at hend
  exact ⟨s, m, hrun, hok, hlisted, hend.1, hend.2, hpass⟩

/-! ## §2. Shutdown. -/

/-- A function that locks, under the lock of its own thread. -/
theorem timerCallCancel_deadlock {reg : Registry} (h : reg.locked = true) (e : Addr) :
    timerCallCancel reg e = .error .deadlock := by
  have hlock : reg.lock = .error .deadlock := by
    rw [Registry.lock, h]
    rfl
  simp only [timerCallCancel, hlock]

/-- A cleanup loop under the lock: done on an empty list, else deadlocked. -/
theorem drainLoop_locked (reg : Registry) {m : TimerList → List Addr}
    (R : Rings reg.links TimerNode.head TimerNode.event (fun _ => True) m) (hlocked : reg.locked = true)
    (l : TimerList) (n : Nat) :
    drainLoop l (n + 1) reg = if m l = [] then .ok reg else .error .deadlock := by
  unfold drainLoop
  rw [R.first (i := l) trivial]
  cases hm : m l with
  | nil => simp
  | cons e rest => simp [timerCallCancel_deadlock hlocked]

theorem timerCleanup_eq {reg : Registry} {m : TimerList → List Addr}
    (R : Rings reg.links TimerNode.head TimerNode.event (fun _ => True) m) (hunlocked : reg.locked = false) :
    timerCleanup reg = if m .active = [] ∧ m .stale = [] then .ok reg else .error .deadlock := by
  have hlock := lock_of_unlocked hunlocked
  have hdrain := drainLoop_locked { reg with locked := true } R rfl
  simp only [timerCleanup, hlock]
  rw [hdrain]
  by_cases hactive : m .active = []
  · rw [if_pos hactive]
    show (drainLoop .stale (reg.created + 1) { reg with locked := true }).map Registry.unlock = _
    rw [hdrain]
    by_cases hstale : m .stale = []
    · rw [if_pos hstale, if_pos ⟨hactive, hstale⟩]
      exact congrArg Except.ok (lock_unlock hunlocked)
    · rw [if_neg hstale, if_neg fun hboth => hstale hboth.2]
      rfl
  · rw [if_neg hactive, if_neg fun hboth => hactive hboth.1]

/-- The search waits for nothing. -/
theorem searchBack_ne_deadlock (reg : Registry) (due n : Nat) (node : TimerNode) :
    searchBack reg due n node ≠ .error .deadlock := by
  induction n generalizing node with
  | zero => exact nofun
  | succ n ih =>
      cases node with
      | head l => cases l <;> exact nofun
      | event e =>
          unfold searchBack
          split
          · exact nofun
          · split
            · exact nofun
            · exact ih _

/-- Nothing in memory means nothing on the lists. -/
theorem TimersOk.empty_iff {s : Timers} {m : TimerList → List Addr} (h : TimersOk s m) :
    (∀ e, s.reg.heap e = none) ↔ m .active = [] ∧ m .stale = [] := by
  constructor
  · intro hnone
    constructor <;> exact List.eq_nil_iff_forall_not_mem.mpr fun e he => h.ok.fresh (hnone e) _ he
  · rintro ⟨hactive, hstale⟩ e
    by_contra hne
    obtain ⟨l, hl⟩ := (h.ok.live e).mp hne
    cases l with
    | active =>
        rw [hactive] at hl
        cases hl
    | stale =>
        rw [hstale] at hl
        cases hl

/-- **Shutdown, and exactly when it works**: in every reachable state, those
with `fin` set among them, the cleanup phase frees everything and returns if and
only if no event is left to free; otherwise its thread waits for a lock that it
holds itself.  No other function does that. -/
theorem cleanup_completes_iff {ops : List TimerOp} (hlegal : timers.Legal .init ops) {s : Timers}
    (hrun : timers.run .init ops = some s) :
    ((∃ reg', timerCleanup s.reg = .ok reg' ∧ ∀ e, reg'.heap e = none) ↔ ∀ e, s.reg.heap e = none) ∧
      (timerCleanup s.reg = .error .deadlock ↔ ¬ ∀ e, s.reg.heap e = none) ∧
      (∀ e, timerCallCancel s.reg e ≠ .error .deadlock) ∧
      (∀ now delta cbk data calloc,
        timerCallAfter s.reg now delta cbk data calloc ≠ .error .deadlock) ∧
      ∀ now, timerPass s.reg now ≠ .error .deadlock := by
  obtain ⟨s', hrun', m, h⟩ := timers.run_inv timerStep_ok ops _ ⟨_, timersOk_init⟩ hlegal
  obtain rfl : s = s' := Option.some.inj (hrun.symm.trans hrun')
  have hclean := timerCleanup_eq h.ok.rings h.unlocked
  refine ⟨?_, ?_, ?_, ?_, ?_⟩
  · rw [h.empty_iff, hclean]
    constructor
    · rintro ⟨reg', hok, -⟩
      by_contra hne
      rw [if_neg hne] at hok
      cases hok
    · intro hempty
      rw [if_pos hempty]
      exact ⟨s.reg, rfl, h.empty_iff.mpr hempty⟩
  · rw [h.empty_iff, hclean]
    -- `cleanup` cancels while it holds the lock
    by_cases hempty : m .active = [] ∧ m .stale = []
    · rw [if_pos hempty]
      exact iff_of_false (by intro hstuck; cases hstuck) (not_not_intro hempty)
    · rw [if_neg hempty]
      exact iff_of_true rfl hempty
  · intro e
    have hlock : s.reg.lock = .ok { s.reg with locked := true } := by
      rw [Registry.lock, h.unlocked]
      rfl
    simp only [timerCallCancel, hlock]
    intro hstuck
    split at hstuck
    · cases hstuck
    · cases hstuck
  · intro now delta cbk data calloc
    cases calloc with
    | none =>
        intro hstuck
        cases hstuck
    | some e =>
        simp only [timerCallAfter, Registry.lock, h.unlocked]
        intro hstuck
        split at hstuck
        · next hlock => cases hlock
        · split at hstuck
          · next hsearch =>
              rw [Except.error.inj hstuck] at hsearch
              exact searchBack_ne_deadlock _ _ _ _ hsearch
          · cases hstuck
  · intro now
    obtain ⟨reg', fired, m', hpassed⟩ := timerPass_spec h now
    rw [hpassed.run]
    intro hstuck
    cases hstuck

/-- One event, and `fin` before it is due. -/
def leftEvent : List TimerOp := [.after ⟨10, 0⟩ ⟨5, 0⟩ 1 1 (some 100), .finish]

theorem leftEvent_legal : timers.Legal .init leftEvent :=
  ⟨fun _ _ => rfl, fun _ _ => ⟨trivial, fun _ _ => trivial⟩⟩

theorem cleanup_completes_iff_leftEvent :
    ∃ s, timers.run .init leftEvent = some s ∧ s.reg.fin = true ∧
      (timerCleanup s.reg = .error .deadlock ↔ ¬ ∀ e, s.reg.heap e = none) := by
  have hfin : ((timers.run .init leftEvent).map fun s => s.reg.fin) = some true := by decide +kernel
  obtain ⟨s, hrun, hs⟩ := Option.map_eq_some_iff.mp hfin
  exact ⟨s, hrun, hs, (cleanup_completes_iff leftEvent_legal hrun).2.1⟩

/-- Not every registry can be shut down. -/
theorem leftEvent_deadlocks :
    ¬ ∀ ops, timers.Legal .init ops → ∀ s, timers.run .init ops = some s → s.reg.fin = true →
      ∃ reg', timerCleanup s.reg = .ok reg' ∧ ∀ e, reg'.heap e = none := by
  intro hall
  have hfin : ((timers.run .init leftEvent).map fun s =>
      (s.reg.fin, match timerCleanup s.reg with | .ok _ => none | .error stuck => some stuck))
        = some (true, some .deadlock) := by decide +kernel
  obtain ⟨s, hrun, hs⟩ := Option.map_eq_some_iff.mp hfin
  rw [Prod.mk.injEq] at hs
  obtain ⟨reg', hclean, -⟩ := hall leftEvent leftEvent_legal s hrun hs.1
  rw [hclean] at hs
  cases hs.2

end LzLib.Timer
