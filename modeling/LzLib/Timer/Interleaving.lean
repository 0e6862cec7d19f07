/-
  LzLib.Timer.Interleaving
  ────────────────────────
  **WHEN A CANCEL IS FINAL.**

  The timer thread decides under `reg->lock` which event to fire, gives up
  the lock, and only then reads `event->cbk` and `event->data`.  A client
  that cancels unlinks the event under the lock and frees it afterwards.  The
  steps here are the protected sections of both and what lies between them,
  in any order.

  Main result: `cancel_is_final`.  A cancel that returns is final unless the
  timer thread was about to fire that very event; if it was, the thread goes
  on to read freed memory.
-/
import LzLib.Timer.TimerRuns

namespace LzLib.Timer

open LzLib.Foundation

/-! ## §1. The steps. -/

/-- Where the timer thread is: in its loop, between a section and the
callback of the `serial`-th event, or past the cleanup. -/
inductive TimerThread
  | looping
  | firing (e : Addr) (serial : Nat)
  | exited

/-- What is observed of an event: a cancel of it returned, the timer thread
read it, or invoked its callback. -/
inductive TimerTrace
  | returned (serial : Nat)
  | reads (serial : Nat)
  | invokes (serial : Nat)
deriving DecidableEq

/-- `unlinked`: the events that are cancelled but not yet freed. -/
structure Threads where
  reg : Registry
  unlinked : List Addr
  thread : TimerThread
  trace : List TimerTrace

/-- A client creates an event, or takes one of the two steps of a cancel; the
timer thread runs a section, invokes a callback, or cleans up. -/
inductive ThreadOp
  | after (now delta : Timeval) (cbk data : Addr) (calloc : Option Addr)
  | cancelSection (e : Addr)
  | cancelReturn (e : Addr)
  | expire (now : Nat)
  | invoke
  | finish
  | cleanup

/-- The protected section of `lz_timer_call_cancel`. -/
def cancelSection (reg : Registry) (e : Addr) : Except Stuck Registry :=
  reg.lock.map fun reg => { reg with links := timerUnlink reg.links e }.unlock

/-- `FREE (event)` and the return of `lz_timer_call_cancel`. -/
def cancelReturn (reg : Registry) (e : Addr) : Registry :=
  { reg with heap := Function.update reg.heap e none }

/-- The number of the event at `e`. -/
def serialOf (heap : Heap TimerEvent) (e : Addr) : List Nat :=
  match heap e with
  | none => []
  | some ev => [ev.serial]

/-- The first active event is read in every section (`at = TS (event->at)`). -/
def headReads (reg : Registry) : List TimerTrace :=
  match (reg.links (.head .active)).next with
  | .head _ => []
  | .event e => (serialOf reg.heap e).map .reads

def threadStep (s : Threads) : ThreadOp → Option Threads
  | .after now delta cbk data calloc =>
      (timerCallAfter s.reg now delta cbk data calloc).toOption.map fun r => { s with reg := r.1 }
  | .cancelSection e =>
      (cancelSection s.reg e).toOption.map fun reg =>
        { s with reg := reg, unlinked := e :: s.unlinked }
  | .cancelReturn e =>
      some
        { s with
          reg := cancelReturn s.reg e
          unlinked := s.unlinked.erase e
          trace := s.trace ++ (serialOf s.reg.heap e).map .returned }
  | .expire now =>
      (timerSection s.reg now).toOption.map fun r =>
        { s with
          reg := r.1
          thread :=
            match r.2.bind fun e => (s.reg.heap e).map fun ev => (e, ev.serial) with
            | none => .looping
            | some (e, serial) => .firing e serial
          trace := s.trace ++ headReads s.reg }
  | .invoke =>
      match s.thread with
      | .firing e serial =>
          -- whose callback it is, is up to the memory at `e`
          some
            { s with
              thread := .looping
              trace := s.trace ++ .reads serial :: (serialOf s.reg.heap e).map .invokes }
      | _ => none
  | .finish => some { s with reg := { s.reg with fin := true } }
  | .cleanup =>
      (timerCleanup s.reg).toOption.map fun reg => { s with reg := reg, thread := .exited }

/-- Clients cancel events that exist and that nobody cancels already; the
timer thread invokes a callback after the section that chose it, and before
the next one. -/
def threads : Component Threads ThreadOp where
  step := threadStep
  allowed s op :=
    match op with
    | .after _ _ _ _ calloc => ∀ e, calloc = some e → s.reg.heap e = none
    | .cancelSection e => s.reg.heap e ≠ none ∧ e ∉ s.unlinked
    | .cancelReturn e => e ∈ s.unlinked
    | .expire _ => s.thread = .looping
    | .invoke => ∃ e serial, s.thread = .firing e serial
    | .finish => True
    | .cleanup => s.thread = .looping ∧ s.reg.fin = true

def Threads.init : Threads := ⟨timerRegistryInit, [], .looping, []⟩

/-- **A cancel is final**: after its return the timer thread neither reads the
event nor invokes its callback. -/
def Final (trace : List TimerTrace) : Prop :=
  trace.Pairwise fun a b => ∀ k, a = .returned k → b ≠ .reads k ∧ b ≠ .invokes k

/-- No cancel returns while the timer thread is about to fire its event. -/
def clearOf (s : Threads) : ThreadOp → Prop
  | .cancelReturn e => ∀ serial, s.thread ≠ .firing e serial
  | _ => True

/-- The runs in which no cancel meets the callback of its own event. -/
def clearThreads : Component Threads ThreadOp where
  step := threadStep
  allowed s op := threads.allowed s op ∧ clearOf s op

/-! ## §2. The registry in a larger memory. -/

section Larger

variable {reg : Registry} {heap' : Heap TimerEvent}

theorem searchBack_larger (H : Holds reg.heap heap') (due n : Nat) (node : TimerNode) {trav : TimerNode}
    (h : searchBack reg due n node = .ok trav) :
    searchBack { reg with heap := heap' } due n node = .ok trav := by
  induction n generalizing node with
  | zero => cases h
  | succ n ih =>
      cases node with
      | head l =>
          cases l with
          | active => exact h
          | stale => cases h
      | event e =>
          unfold searchBack at h ⊢
          cases hev : reg.heap e with
          | none =>
              rw [hev] at h
              cases h
          | some ev =>
              rw [hev] at h
              show (match heap' e with | none => _ | some ev => _) = _
              rw [H e ev hev]
              by_cases hearlier : ts ev.due < due
              · simp only [if_pos hearlier] at h ⊢
                exact h
              · simp only [if_neg hearlier] at h ⊢
                exact ih _ h

theorem timerCallAfter_larger (H : Holds reg.heap heap') {now delta : Timeval} {cbk data e : Addr}
    {reg' : Registry} (h : timerCallAfter reg now delta cbk data (some e) = .ok (reg', some e)) :
    timerCallAfter { reg with heap := heap' } now delta cbk data (some e)
      = .ok ({ reg' with
          heap := Function.update heap' e (some ⟨deadline now delta, cbk, data, reg.created⟩) }, some e) := by
  have Hnew : Holds (Function.update reg.heap e (some ⟨deadline now delta, cbk, data, reg.created⟩))
      (Function.update heap' e (some ⟨deadline now delta, cbk, data, reg.created⟩)) := by
    intro x ev hx
    by_cases hxe : x = e
    · rw [hxe, Function.update_self] at hx ⊢
      exact hx
    · rw [Function.update_of_ne hxe] at hx ⊢
      exact H x ev hx
  cases hlocked : reg.locked with
  | true =>
      simp only [timerCallAfter, Registry.lock, hlocked, if_true] at h
      cases h
  | false =>
      simp only [timerCallAfter, Registry.lock, hlocked, Bool.false_eq_true, if_false] at h ⊢
      split at h
      · cases h
      · next trav hsearch =>
          rw [searchBack_larger Hnew _ _ _ hsearch]
          cases h
          rfl

theorem timerSection_larger (H : Holds reg.heap heap') {now : Nat} {reg' : Registry} {fire : Option Addr}
    (h : timerSection reg now = .ok (reg', fire)) :
    timerSection { reg with heap := heap' } now = .ok ({ reg' with heap := heap' }, fire) := by
  cases hlocked : reg.locked with
  | true =>
      simp only [timerSection, Registry.lock, hlocked, if_true] at h
      cases h
  | false =>
      simp only [timerSection, Registry.lock, hlocked, Bool.false_eq_true, if_false] at h ⊢
      cases hnode : (reg.links (.head .active)).next with
      | head l =>
          cases l with
          | active =>
              simp only [hnode] at h ⊢
              cases h
              rfl
          | stale =>
              simp only [hnode] at h
              cases h
      | event e =>
          simp only [hnode] at h ⊢
          cases hev : reg.heap e with
          | none =>
              rw [hev] at h
              cases h
          | some ev =>
              rw [hev] at h
              rw [H e ev hev]
              by_cases hdue : ts ev.due ≤ now
              · simp only [if_pos hdue] at h ⊢
                cases h
                rfl
              · simp only [if_neg hdue] at h ⊢
                cases h
                rfl

end Larger

/-! ## §3. The invariant. -/

/-- The registry without the events that are on no list any more. -/
def listed (s : Threads) : Registry :=
  { s.reg with heap := fun e => if e ∈ s.unlinked then none else s.reg.heap e }

/-- What holds between two steps.  The event that is about to be fired is in
memory; a cancel that returned has taken its event out of memory. -/
structure ThreadsOk (s : Threads) (m : TimerList → List Addr) : Prop where
  ok : TimerOk (listed s) m
  unlocked : s.reg.locked = false
  kept : ∀ e ∈ s.unlinked, s.reg.heap e ≠ none
  nodup : s.unlinked.Nodup
  numbered : Numbered s.reg.heap s.reg.created
  past : ∀ k, .returned k ∈ s.trace → k < s.reg.created
  gone : ∀ k, .returned k ∈ s.trace → ∀ e ev, s.reg.heap e = some ev → ev.serial ≠ k
  firing : ∀ e k, s.thread = .firing e k → ∃ ev, s.reg.heap e = some ev ∧ ev.serial = k
  final : Final s.trace

theorem holds_listed (s : Threads) : Holds (listed s).heap s.reg.heap := by
  intro e ev h
  by_cases he : e ∈ s.unlinked
  · simp only [listed, if_pos he] at h
    cases h
  · simpa only [listed, if_neg he] using h

theorem threadsOk_init : ThreadsOk .init fun _ => [] := by
  refine ⟨timersOk_init.ok, rfl, nofun, List.nodup_nil, ⟨?_, ?_⟩, nofun, nofun, nofun, List.Pairwise.nil⟩
  · intro e ev h
    cases h
  · intro e e' ev ev' h
    cases h

/-- A registry with the same lists and the same memory is in the same order. -/
theorem TimerOk.congr {reg reg' : Registry} {m : TimerList → List Addr} (h : TimerOk reg m)
    (hlinks : reg'.links = reg.links) (hheap : reg'.heap = reg.heap) (hcreated : reg'.created = reg.created) :
    TimerOk reg' m := by
  obtain ⟨fin, links, heap, locked, created⟩ := reg'
  subst hlinks hheap hcreated
  exact ⟨h.rings, h.live, h.sorted, h.numbered, h.few⟩

/-- What may follow in a final trace: reads and callbacks of events whose
cancel has not returned. -/
theorem Final.append {trace more : List TimerTrace} (h : Final trace)
    (hmore : ∀ b ∈ more, ∀ k, .returned k ∈ trace → b ≠ .reads k ∧ b ≠ .invokes k)
    (hnone : ∀ k, .returned k ∉ more) : Final (trace ++ more) := by
  refine List.pairwise_append.mpr ⟨h, ?_, ?_⟩
  · refine List.pairwise_of_forall_mem_list ?_
    rintro a ha b _ k rfl
    exact absurd ha (hnone k)
  · rintro a ha b hb k rfl
    exact hmore b hb k ha

/-- A return may follow anything. -/
theorem Final.returned {trace : List TimerTrace} (h : Final trace) (ks : List Nat) :
    Final (trace ++ ks.map .returned) := by
  refine List.pairwise_append.mpr ⟨h, ?_, ?_⟩
  · refine List.pairwise_of_forall_mem_list ?_
    rintro a _ b hb k rfl
    obtain ⟨k', _, rfl⟩ := List.mem_map.mp hb
    exact ⟨nofun, nofun⟩
  · rintro a _ b hb k rfl
    obtain ⟨k', _, rfl⟩ := List.mem_map.mp hb
    exact ⟨nofun, nofun⟩

theorem serialOf_some {heap : Heap TimerEvent} {e : Addr} {ev : TimerEvent} (h : heap e = some ev) :
    serialOf heap e = [ev.serial] := by
  unfold serialOf
  rw [h]

theorem mem_serialOf {heap : Heap TimerEvent} {e : Addr} {k : Nat} :
    k ∈ serialOf heap e ↔ ∃ ev, heap e = some ev ∧ ev.serial = k := by
  unfold serialOf
  cases hev : heap e with
  | none => simp
  | some ev => simp [eq_comm]

theorem mem_headReads {reg : Registry} {b : TimerTrace} (hb : b ∈ headReads reg) :
    ∃ e ev, reg.heap e = some ev ∧ b = .reads ev.serial := by
  unfold headReads at hb
  split at hb
  · cases hb
  · next e _ =>
      obtain ⟨k, hk, rfl⟩ := List.mem_map.mp hb
      obtain ⟨ev, hev, rfl⟩ := mem_serialOf.mp hk
      exact ⟨e, ev, hev, rfl⟩

/-- A section keeps the order, and chooses an event in memory if any. -/
theorem timerSection_spec {reg : Registry} {m : TimerList → List Addr} (h : TimerOk reg m)
    (hunlocked : reg.locked = false) (now : Nat) :
    ∃ reg' fire m', timerSection reg now = .ok (reg', fire) ∧ TimerOk reg' m' ∧ reg'.locked = false ∧
      reg'.heap = reg.heap ∧ reg'.created = reg.created ∧ ∀ e, fire = some e → reg.heap e ≠ none := by
  by_cases hfirst : ∀ e, (m .active).head? = some e → now < dueOf reg.heap e
  · exact ⟨reg, none, m, timerSection_none h hunlocked hfirst, h, hunlocked, rfl, rfl, nofun⟩
  · simp only [not_forall, Nat.not_lt] at hfirst
    obtain ⟨e, he, hdue⟩ := hfirst
    obtain ⟨rest, hrest⟩ : ∃ rest, m .active = e :: rest := by
      cases hm : m .active with
      | nil =>
          rw [hm] at he
          cases he
      | cons x rest =>
          rw [hm] at he
          cases he
          exact ⟨rest, rfl⟩
    obtain ⟨reg', hrun, hok, hunlocked', hheap, hcreated⟩ := timerSection_due h hunlocked hrest hdue
    refine ⟨reg', some e, _, hrun, hok, hunlocked', hheap, hcreated, ?_⟩
    rintro _ ⟨⟩
    exact (h.live e).mpr ⟨.active, by rw [hrest]; simp⟩

section Steps

variable {s s' : Threads} {m : TimerList → List Addr}

/-- A new event has a new number. -/
theorem threadStep_after (h : ThreadsOk s m) {now delta : Timeval} {cbk data e : Addr}
    (hnew : s.reg.heap e = none) (hstep : threadStep s (.after now delta cbk data (some e)) = some s') :
    ∃ m', ThreadsOk s' m' := by
  have hnot : e ∉ s.unlinked := fun he => h.kept e he hnew
  have hnewListed : (listed s).heap e = none := by
    simp only [listed, if_neg hnot, hnew]
  obtain ⟨reg', pre, post, hrun, -, hok, hunlocked, hcreated, hheap⟩ :=
    timerCallAfter_spec h.ok h.unlocked now delta cbk data hnewListed
  -- the code sees the unlinked events too, and does the same
  have hlarger : timerCallAfter s.reg now delta cbk data (some e)
      = .ok ({ reg' with
          heap := Function.update s.reg.heap e (some ⟨deadline now delta, cbk, data, s.reg.created⟩) },
        some e) := timerCallAfter_larger (holds_listed s) hrun
  simp only [threadStep, hlarger, Except.toOption, Option.map_some, Option.some.injEq] at hstep
  subst hstep
  have hcreated' : reg'.created = s.reg.created + 1 := hcreated
  have hold : ∀ x, x ≠ e → Function.update s.reg.heap e
      (some ⟨deadline now delta, cbk, data, s.reg.created⟩) x = s.reg.heap x :=
    fun x hx => Function.update_of_ne hx _ _
  refine ⟨_, ⟨hok.congr rfl ?_ rfl, hunlocked, ?_, h.nodup, ?_, ?_, ?_, ?_, h.final⟩⟩
  · rw [hheap]
    funext x
    by_cases hxe : x = e
    · subst hxe
      simp only [listed, if_neg hnot, Function.update_self]
    · simp only [listed, hold x hxe, Function.update_of_ne hxe]
  · intro x hx
    by_cases hxe : x = e
    · exact absurd (hxe ▸ hx) hnot
    · exact fun hnone => h.kept x hx ((hold x hxe).symm.trans hnone)
  · show Numbered _ reg'.created
    rw [hcreated']
    exact h.numbered.insert e rfl
  · intro k hk
    have hlt := h.past k hk
    show k < reg'.created
    omega
  · -- a number that has returned is not the new one
    intro k hk x ev hx
    by_cases hxe : x = e
    · have hx' : Function.update s.reg.heap e _ x = some ev := hx
      rw [hxe, Function.update_self, Option.some.injEq] at hx'
      rw [← hx']
      exact Nat.ne_of_gt (h.past k hk)
    · exact h.gone k hk x ev ((hold x hxe).symm.trans hx)
  · intro x k hx
    obtain ⟨ev, hev, hserial⟩ := h.firing x k hx
    have hxe : x ≠ e := by
      rintro rfl
      rw [hnew] at hev
      cases hev
    exact ⟨ev, (hold x hxe).trans hev, hserial⟩

/-- The section of a cancel takes the event off its list. -/
theorem threadStep_cancelSection (h : ThreadsOk s m) {e : Addr} (he : s.reg.heap e ≠ none)
    (hnot : e ∉ s.unlinked) (hstep : threadStep s (.cancelSection e) = some s') :
    ∃ m', ThreadsOk s' m' := by
  have hlive : (listed s).heap e ≠ none := by
    simpa only [listed, if_neg hnot] using he
  obtain ⟨l, hl⟩ := (h.ok.live e).mp hlive
  obtain ⟨reg', -, hok, -, hheap, hcreated, hlinks⟩ := timerCallCancel_spec h.ok h.unlocked hl
  have hsection : cancelSection s.reg e
      = .ok { s.reg with links := timerUnlink s.reg.links e, locked := false } := by
    rw [cancelSection, Registry.lock, h.unlocked]
    rfl
  simp only [threadStep, hsection, Except.toOption, Option.map_some, Option.some.injEq] at hstep
  subst hstep
  refine ⟨_, ⟨hok.congr hlinks.symm ?_ hcreated.symm, rfl, ?_, ?_, h.numbered, h.past, h.gone, h.firing,
    h.final⟩⟩
  · rw [hheap]
    funext x
    by_cases hxe : x = e
    · subst hxe
      simp [listed]
    · simp [listed, hxe]
  · intro x hx
    rcases List.mem_cons.mp hx with rfl | hx
    · exact he
    · exact h.kept x hx
  · exact List.nodup_cons.mpr ⟨hnot, h.nodup⟩

/-- A cancel frees an event that the timer thread is not about to fire. -/
theorem threadStep_cancelReturn (h : ThreadsOk s m) {e : Addr} (he : e ∈ s.unlinked)
    (hclear : ∀ serial, s.thread ≠ .firing e serial)
    (hstep : threadStep s (.cancelReturn e) = some s') : ∃ m', ThreadsOk s' m' := by
  cases hstep
  have hsub := holds_erase s.reg.heap e
  -- the trace has one number more: that of the freed event
  have hreturned : ∀ k, .returned k ∈ s.trace ++ (serialOf s.reg.heap e).map TimerTrace.returned →
      .returned k ∈ s.trace ∨ ∃ ev, s.reg.heap e = some ev ∧ ev.serial = k := by
    intro k hk
    rcases List.mem_append.mp hk with hk | hk
    · exact Or.inl hk
    · obtain ⟨k', hk', heq⟩ := List.mem_map.mp hk
      cases heq
      exact Or.inr (mem_serialOf.mp hk')
  refine ⟨m, ⟨h.ok.congr rfl ?_ rfl, h.unlocked, ?_, h.nodup.erase e, h.numbered.smaller hsub, ?_, ?_, ?_,
    h.final.returned _⟩⟩
  · funext x
    by_cases hxe : x = e
    · subst hxe
      simp [listed, cancelReturn, he]
    · simp [listed, cancelReturn, hxe, List.mem_erase_of_ne]
  · intro x hx
    -- the timer thread has chosen another event
    have hxe : x ≠ e := ((h.nodup.mem_erase_iff).mp hx).1
    show Function.update s.reg.heap e none x ≠ none
    rw [Function.update_of_ne hxe]
    exact h.kept x (List.mem_of_mem_erase hx)
  · intro k hk
    rcases hreturned k hk with hk | ⟨ev, hev, rfl⟩
    · exact h.past k hk
    · exact h.numbered.serials e ev hev
  · intro k hk x evx hx
    have hx' : s.reg.heap x = some evx := hsub x evx hx
    rcases hreturned k hk with hk | ⟨ev, hev, rfl⟩
    · exact h.gone k hk x evx hx'
    · -- only the freed event had this number
      intro hserial
      have hxe := h.numbered.distinct x e evx ev hx' hev hserial
      have hfreed : Function.update s.reg.heap e none x = some evx := hx
      rw [hxe, Function.update_self] at hfreed
      cases hfreed
  · intro x k hx
    obtain ⟨ev, hev, hserial⟩ := h.firing x k hx
    have hxe : x ≠ e := by
      rintro rfl
      exact hclear k hx
    refine ⟨ev, ?_, hserial⟩
    show Function.update s.reg.heap e none x = some ev
    rw [Function.update_of_ne hxe, hev]

/-- A section reads the first active event, and may choose it. -/
theorem threadStep_expire (h : ThreadsOk s m) {now : Nat} (hstep : threadStep s (.expire now) = some s') :
    ∃ m', ThreadsOk s' m' := by
  obtain ⟨reg', fire, m', hrun, hok, hunlocked, hheap, hcreated, -⟩ := timerSection_spec h.ok h.unlocked now
  -- the section reads linked events only
  have hlarger : timerSection s.reg now = .ok ({ reg' with heap := s.reg.heap }, fire) :=
    timerSection_larger (holds_listed s) hrun
  simp only [threadStep, hlarger, Except.toOption, Option.map_some, Option.some.injEq] at hstep
  subst hstep
  have hcreated' : reg'.created = s.reg.created := hcreated
  -- a section writes no return
  have hold : ∀ k, .returned k ∈ s.trace ++ headReads s.reg → .returned k ∈ s.trace := by
    intro k hk
    rcases List.mem_append.mp hk with hk | hk
    · exact hk
    · obtain ⟨e, ev, _, heq⟩ := mem_headReads hk
      cases heq
  refine ⟨m', ⟨hok.congr rfl hheap.symm rfl, hunlocked, h.kept, h.nodup, ?_, ?_, ?_, ?_, ?_⟩⟩
  · show Numbered s.reg.heap reg'.created
    rw [hcreated']
    exact h.numbered
  · intro k hk
    show k < reg'.created
    rw [hcreated']
    exact h.past k (hold k hk)
  · exact fun k hk => h.gone k (hold k hk)
  · intro e k hx
    show ∃ ev, s.reg.heap e = some ev ∧ ev.serial = k
    dsimp only at hx
    cases hchosen : fire.bind fun e => (s.reg.heap e).map fun ev => (e, ev.serial) with
    | none =>
        rw [hchosen] at hx
        cases hx
    | some chosen =>
        rw [hchosen] at hx
        cases hx
        obtain ⟨x, -, hx⟩ := Option.bind_eq_some_iff.mp hchosen
        obtain ⟨ev, hev, hpair⟩ := Option.map_eq_some_iff.mp hx
        cases hpair
        exact ⟨ev, hev, rfl⟩
  · refine h.final.append ?_ ?_
    · intro b hb k hk
      obtain ⟨e, ev, hev, rfl⟩ := mem_headReads hb
      refine ⟨?_, nofun⟩
      intro heq
      exact h.gone k hk e ev hev (TimerTrace.reads.inj heq)
    · intro k hk
      obtain ⟨e, ev, _, heq⟩ := mem_headReads hk
      cases heq

/-- A callback is that of the chosen event, which is still in memory. -/
theorem threadStep_invoke (h : ThreadsOk s m) (hstep : threadStep s .invoke = some s') :
    ∃ m', ThreadsOk s' m' := by
  simp only [threadStep] at hstep
  split at hstep
  · next e serial hthread =>
      cases hstep
      obtain ⟨ev, hev, hserial⟩ := h.firing e serial hthread
      have hserials : serialOf s.reg.heap e = [serial] := by rw [serialOf_some hev, hserial]
      rw [hserials]
      have hold : ∀ k, .returned k ∈ s.trace ++ [TimerTrace.reads serial, .invokes serial] →
          .returned k ∈ s.trace := by
        intro k hk
        simpa using hk
      refine ⟨m, ⟨h.ok, h.unlocked, h.kept, h.nodup, h.numbered, fun k hk => h.past k (hold k hk),
        fun k hk => h.gone k (hold k hk), nofun, h.final.append ?_ ?_⟩⟩
      · intro b hb k hk
        have hne : serial ≠ k := hserial ▸ h.gone k hk e ev hev
        simp only [List.map_cons, List.map_nil, List.mem_cons, List.not_mem_nil, or_false] at hb
        rcases hb with rfl | rfl
        · exact ⟨fun heq => hne (TimerTrace.reads.inj heq), nofun⟩
        · exact ⟨nofun, fun heq => hne (TimerTrace.invokes.inj heq)⟩
      · intro k hk
        simp at hk
  · cases hstep

/-- A cleanup that returns had nothing to do. -/
theorem threadStep_cleanup (h : ThreadsOk s m) (hstep : threadStep s .cleanup = some s') :
    ∃ m', ThreadsOk s' m' := by
  have hrings : Rings s.reg.links TimerNode.head TimerNode.event (fun _ => True) m := h.ok.rings
  have hclean := timerCleanup_eq hrings h.unlocked
  simp only [threadStep, hclean] at hstep
  by_cases hempty : m .active = [] ∧ m .stale = []
  · rw [if_pos hempty] at hstep
    cases hstep
    exact ⟨m, ⟨h.ok, h.unlocked, h.kept, h.nodup, h.numbered, h.past, h.gone, nofun, h.final⟩⟩
  · rw [if_neg hempty] at hstep
    cases hstep

end Steps

theorem threadStep_ok (s : Threads) (op : ThreadOp) (s' : Threads) (h : ∃ m, ThreadsOk s m)
    (hop : clearThreads.allowed s op) (hstep : clearThreads.step s op = some s') : ∃ m, ThreadsOk s' m := by
  obtain ⟨m, h⟩ := h
  obtain ⟨hop, hclear⟩ := hop
  cases op with
  | after now delta cbk data calloc =>
      cases calloc with
      | none =>
          cases hstep
          exact ⟨m, h⟩
      | some e => exact threadStep_after h (hop e rfl) hstep
  | cancelSection e => exact threadStep_cancelSection h hop.1 hop.2 hstep
  | cancelReturn e => exact threadStep_cancelReturn h hop hclear hstep
  | expire now => exact threadStep_expire h hstep
  | invoke => exact threadStep_invoke h hstep
  | finish =>
      cases hstep
      exact ⟨m, ⟨h.ok.congr rfl rfl rfl, h.unlocked, h.kept, h.nodup, h.numbered, h.past, h.gone, h.firing,
        h.final⟩⟩
  | cleanup => exact threadStep_cleanup h hstep

/-! ## §4. Runs. -/

/-- **CANCEL, AND WHEN IT IS FINAL.**  In every interleaving in which no cancel
returns while the timer thread is about to fire its event, every cancel is
final.  Where one does return at that moment, the callback that the thread
goes on to invoke breaks it. -/
theorem cancel_is_final {ops : List ThreadOp} (hlegal : clearThreads.Legal .init ops) {s : Threads}
    (hrun : clearThreads.run .init ops = some s) :
    Final s.trace ∧
      ∀ e, threads.allowed s (.cancelReturn e) → ¬ clearOf s (.cancelReturn e) →
        ∃ t, threads.run s [.cancelReturn e, .invoke] = some t ∧ ¬ Final t.trace := by
  obtain ⟨m, h⟩ := clearThreads.run_safe threadStep_ok ⟨_, threadsOk_init⟩ hlegal hrun
  refine ⟨h.final, ?_⟩
  intro e he hmeet
  simp only [clearOf, ne_eq, not_forall, not_not] at hmeet
  obtain ⟨serial, hthread⟩ := hmeet
  obtain ⟨ev, hev, hserial⟩ := h.firing e serial hthread
  have hserials : serialOf s.reg.heap e = [serial] := by rw [serialOf_some hev, hserial]
  refine ⟨_, by simp only [Component.run, threads, threadStep, Option.bind_some, hthread]; rfl, ?_⟩
  intro hfinal
  simp only [hserials, List.map_cons, List.map_nil, List.append_assoc] at hfinal
  have hafter := (List.pairwise_append.mp hfinal).2.1
  have hrel := (List.pairwise_cons.mp hafter).1 (.reads serial) (by simp)
  exact (hrel serial rfl).1 rfl

/-- An event fires, and is cancelled afterwards. -/
def cancelFired : List ThreadOp :=
  [.after ⟨10, 0⟩ ⟨5, 0⟩ 1 1 (some 100), .expire 20000000, .invoke, .cancelSection 100, .cancelReturn 100]

/-- An event is chosen, and cancelled before its callback is invoked. -/
def cancelChosen : List ThreadOp :=
  [.after ⟨10, 0⟩ ⟨5, 0⟩ 1 1 (some 100), .expire 20000000, .cancelSection 100, .cancelReturn 100, .invoke]

/-- Both runs begin so, and the event is then about to be fired. -/
def chosen : List ThreadOp := cancelFired.take 2

theorem chosen_legal : clearThreads.Legal .init chosen := by
  refine ⟨⟨fun _ _ => rfl, trivial⟩, ?_⟩
  intro s' hs'
  refine ⟨⟨?_, trivial⟩, fun _ _ => trivial⟩
  cases hs'
  rfl

theorem cancelFired_legal : clearThreads.Legal .init cancelFired := by
  have hthread : ((clearThreads.run .init chosen).map fun s => match s.thread with
      | .firing e k => some (e, k) | _ => none) = some (some (100, 0)) := by decide +kernel
  have hheap : ((clearThreads.run .init (chosen ++ [.invoke])).map fun s =>
      (s.reg.heap 100).isSome && s.unlinked.isEmpty) = some true := by decide +kernel
  have hlast : ((clearThreads.run .init (chosen ++ [.invoke] ++ [.cancelSection 100])).map fun s =>
      (s.unlinked, match s.thread with | .firing _ _ => true | _ => false)) = some ([100], false) := by
    decide +kernel
  have h₁ := Component.Legal.concat _ chosen_legal (o := .invoke) (by
    intro t ht
    rw [ht] at hthread
    refine ⟨?_, trivial⟩
    simp only [Option.map_some, Option.some.injEq] at hthread
    split at hthread
    · next e k heq => exact ⟨e, k, heq⟩
    · cases hthread)
  have h₂ := Component.Legal.concat _ h₁ (o := .cancelSection 100) (by
    intro t ht
    rw [ht] at hheap
    simp only [Option.map_some, Option.some.injEq, Bool.and_eq_true, List.isEmpty_iff] at hheap
    refine ⟨⟨?_, ?_⟩, trivial⟩
    · exact Option.isSome_iff_ne_none.mp hheap.1
    · rw [hheap.2]
      exact List.not_mem_nil)
  refine Component.Legal.concat _ h₂ (o := .cancelReturn 100) ?_
  intro t ht
  rw [ht] at hlast
  simp only [Option.map_some, Option.some.injEq, Prod.mk.injEq] at hlast
  refine ⟨?_, ?_⟩
  · show 100 ∈ t.unlinked
    rw [hlast.1]
    exact List.mem_singleton_self _
  · intro serial hfiring
    rw [hfiring] at hlast
    cases hlast.2

theorem cancel_is_final_fired :
    ∃ s, clearThreads.run .init cancelFired = some s ∧ Final s.trace := by
  have hruns : ((clearThreads.run .init cancelFired).map fun s => s.trace)
      = some [.reads 0, .reads 0, .invokes 0, .returned 0] := by decide +kernel
  obtain ⟨s, hrun, -⟩ := Option.map_eq_some_iff.mp hruns
  exact ⟨s, hrun, (cancel_is_final cancelFired_legal hrun).1⟩

theorem threads_legal {s : Threads} {ops : List ThreadOp} (h : clearThreads.Legal s ops) :
    threads.Legal s ops := by
  induction ops generalizing s with
  | nil => trivial
  | cons op ops ih => exact ⟨h.1.1, fun s' hs' => ih (h.2 s' hs')⟩

theorem cancelChosen_legal : threads.Legal .init cancelChosen := by
  have hheap : ((threads.run .init chosen).map fun s =>
      (s.reg.heap 100).isSome && s.unlinked.isEmpty) = some true := by decide +kernel
  have hunlinked : ((threads.run .init (chosen ++ [.cancelSection 100])).map Threads.unlinked)
      = some [100] := by decide +kernel
  have hthread : ((threads.run .init (chosen ++ [.cancelSection 100] ++ [.cancelReturn 100])).map fun s =>
      match s.thread with | .firing e k => some (e, k) | _ => none) = some (some (100, 0)) := by decide +kernel
  have h₁ := Component.Legal.concat _ (threads_legal chosen_legal) (o := .cancelSection 100) (by
    intro t ht
    rw [ht] at hheap
    simp only [Option.map_some, Option.some.injEq, Bool.and_eq_true, List.isEmpty_iff] at hheap
    refine ⟨?_, ?_⟩
    · exact Option.isSome_iff_ne_none.mp hheap.1
    · rw [hheap.2]
      exact List.not_mem_nil)
  have h₂ := Component.Legal.concat _ h₁ (o := .cancelReturn 100) (by
    intro t ht
    rw [ht] at hunlinked
    show 100 ∈ t.unlinked
    rw [Option.some.inj hunlinked]
    exact List.mem_singleton_self _)
  refine Component.Legal.concat _ h₂ (o := .invoke) ?_
  intro t ht
  rw [ht] at hthread
  simp only [Option.map_some, Option.some.injEq] at hthread
  split at hthread
  · next e k heq => exact ⟨e, k, heq⟩
  · cases hthread

/-- Not every cancel is final. -/
theorem cancelChosen_not_final :
    ¬ ∀ ops, threads.Legal .init ops → ∀ s, threads.run .init ops = some s → Final s.trace := by
  intro hall
  have hruns : ((threads.run .init cancelChosen).map Threads.trace)
      = some [.reads 0, .returned 0, .reads 0] := by decide +kernel
  obtain ⟨s, hrun, htrace⟩ := Option.map_eq_some_iff.mp hruns
  have hfinal := hall cancelChosen cancelChosen_legal s hrun
  rw [htrace] at hfinal
  have hafter := (List.pairwise_cons.mp (List.pairwise_cons.mp hfinal).2).1 (.reads 0) (by simp)
  exact (hafter 0 rfl).1 rfl

end LzLib.Timer
