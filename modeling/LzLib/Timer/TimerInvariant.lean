/-
  LzLib.Timer.TimerInvariant
  ──────────────────────────
  **TWO LISTS, ONE OF THEM SORTED.**

  `TimerOk reg m`: the events in memory hang on the two lists of the registry,
  each on one of them, and `active` is sorted by deadline.  Inserting looks
  for the place from the end, expiring looks at the front only; both rely on
  the order and keep it.
-/
import LzLib.Timer.TimerDef

namespace LzLib.Timer

open LzLib.Foundation

/-! ## §1. The invariant. -/

/-- The deadline of an event, as the loops compare it. -/
def dueOf (heap : Heap TimerEvent) (e : Addr) : Nat :=
  match heap e with
  | none => 0
  | some ev => ts ev.due

/-- The deadline has been reached. -/
def isDue (heap : Heap TimerEvent) (now : Nat) (e : Addr) : Bool := dueOf heap e ≤ now

/-- Every event has a number below `created`, and a number of its own. -/
structure Numbered (heap : Heap TimerEvent) (created : Nat) : Prop where
  serials : ∀ e ev, heap e = some ev → ev.serial < created
  distinct : ∀ e e' ev ev', heap e = some ev → heap e' = some ev' → ev.serial = ev'.serial → e = e'

/-- `heap'` has the events of `heap`. -/
def Holds (heap heap' : Heap TimerEvent) : Prop := ∀ e ev, heap e = some ev → heap' e = some ev

theorem holds_erase (heap : Heap TimerEvent) (e : Addr) : Holds (Function.update heap e none) heap := by
  intro x ev hx
  by_cases hxe : x = e
  · rw [hxe, Function.update_self] at hx
    cases hx
  · rw [Function.update_of_ne hxe] at hx
    exact hx

theorem Numbered.smaller {heap heap' : Heap TimerEvent} {created : Nat} (h : Numbered heap' created)
    (H : Holds heap heap') : Numbered heap created :=
  ⟨fun e ev he => h.serials e ev (H e ev he),
    fun e e' ev ev' he he' => h.distinct e e' ev ev' (H e ev he) (H e' ev' he')⟩

/-- The next event gets the next number. -/
theorem Numbered.insert {heap : Heap TimerEvent} {created : Nat} (h : Numbered heap created) (e : Addr)
    {new : TimerEvent} (hnew : new.serial = created) :
    Numbered (Function.update heap e (some new)) (created + 1) := by
  have hcases : ∀ x ev, Function.update heap e (some new) x = some ev →
      x = e ∧ ev.serial = created ∨ heap x = some ev := by
    intro x ev hx
    by_cases hxe : x = e
    · rw [hxe, Function.update_self, Option.some.injEq] at hx
      exact Or.inl ⟨hxe, hx ▸ hnew⟩
    · rw [Function.update_of_ne hxe] at hx
      exact Or.inr hx
  constructor
  · intro x ev hx
    rcases hcases x ev hx with ⟨-, hs⟩ | hold
    · omega
    · exact Nat.lt_succ_of_lt (h.serials x ev hold)
  · intro x y evx evy hx hy hs
    rcases hcases x evx hx with ⟨hxe, hsx⟩ | hx <;> rcases hcases y evy hy with ⟨hye, hsy⟩ | hy
    · rw [hxe, hye]
    · have hlt := h.serials y evy hy
      omega
    · have hlt := h.serials x evx hx
      omega
    · exact h.distinct x y evx evy hx hy hs

/-- **The registry**, read as the two lists `m`. -/
structure TimerOk (reg : Registry) (m : TimerList → List Addr) : Prop where
  rings : Rings reg.links TimerNode.head TimerNode.event (fun _ => True) m
  live : ∀ e, reg.heap e ≠ none ↔ ∃ l, e ∈ m l
  sorted : (m .active).Pairwise fun a b => dueOf reg.heap a ≤ dueOf reg.heap b
  numbered : Numbered reg.heap reg.created
  few : (m .active).length + (m .stale).length ≤ reg.created

theorem TimerOk.liveEvent {reg : Registry} {m : TimerList → List Addr} (h : TimerOk reg m) {l : TimerList}
    {e : Addr} (he : e ∈ m l) : ∃ ev, reg.heap e = some ev :=
  Option.ne_none_iff_exists'.mp ((h.live e).mpr ⟨l, he⟩)

theorem TimerOk.fresh {reg : Registry} {m : TimerList → List Addr} (h : TimerOk reg m) {e : Addr}
    (he : reg.heap e = none) (l : TimerList) : e ∉ m l := fun hmem => (h.live e).mpr ⟨l, hmem⟩ he

/-- An event that is on no list does not disturb the order. -/
theorem sorted_congr {heap heap' : Heap TimerEvent} {xs : List Addr}
    (h : xs.Pairwise fun a b => dueOf heap a ≤ dueOf heap b) (same : ∀ e ∈ xs, heap' e = heap e) :
    xs.Pairwise fun a b => dueOf heap' a ≤ dueOf heap' b := by
  refine h.imp_of_mem ?_
  intro a b ha hb hab
  unfold dueOf at hab ⊢
  rw [same a ha, same b hb]
  exact hab

/-! ## §2. The pointer writes of `timer.c` are those of `list.h`. -/

theorem timerUnlink_eq (L : Links TimerNode) (e : Addr) : timerUnlink L e = listUnhook L (.event e) := by
  funext x
  simp only [timerUnlink, listUnhook, setNext_apply, setPrev_apply]
  grind

/-- The last two writes come in the other order than in `list_add_tail`. -/
theorem timerCallStale_eq {L : Links TimerNode} {e : Addr}
    (hlast : (listUnhook L (.event e) (.head .stale)).prev ≠ .event e) :
    timerCallStale L e = listAddTail (listUnhook L (.event e)) (.event e) (.head .stale) := by
  have hne : TimerNode.head .stale ≠ .event e := nofun
  funext x
  simp only [timerCallStale, timerUnlink_eq, listAddTail, setNext_apply, setPrev_apply, if_neg hne, if_true,
    if_neg hlast]
  grind

theorem lock_of_unlocked {reg : Registry} (hunlocked : reg.locked = false) :
    reg.lock = .ok { reg with locked := true } := by
  rw [Registry.lock, hunlocked]
  rfl

/-! ## §3. Inserting. -/

/-- **The backward search** stops behind the last event with an earlier
deadline. -/
theorem searchBack_spec (reg : Registry) {m : TimerList → List Addr}
    (R : Rings reg.links TimerNode.head TimerNode.event (fun _ => True) m)
    (hlive : ∀ e ∈ m .active, ∃ ev, reg.heap e = some ev) (due : Nat) :
    ∀ (n : Nat) (l r : List Addr), m .active = l ++ r → l.length < n →
      ∃ pre post, l = pre ++ post ∧
        searchBack reg due n ((l.getLast?.map TimerNode.event).getD (.head .active))
          = .ok ((pre.getLast?.map TimerNode.event).getD (.head .active)) ∧
        (∀ e ∈ post, due ≤ dueOf reg.heap e) ∧ (∀ e, pre.getLast? = some e → dueOf reg.heap e < due) := by
  intro n
  induction n with
  | zero =>
      intro l r _ hn
      exact absurd hn (Nat.not_lt_zero _)
  | succ n ih =>
      intro l r hm hn
      -- the search is at the head, or at the last event of `l`
      rcases List.eq_nil_or_concat l with rfl | ⟨l', e, rfl⟩
      · exact ⟨[], [], rfl, rfl, by simp, by simp⟩
      · rw [List.concat_eq_append] at hm hn ⊢
        obtain ⟨ev, hev⟩ := hlive e (by rw [hm]; simp)
        have hdue : dueOf reg.heap e = ts ev.due := by rw [dueOf, hev]
        rw [List.getLast?_concat, Option.map_some, Option.getD_some, searchBack, hev]
        by_cases hearlier : ts ev.due < due
        · refine ⟨l' ++ [e], [], by simp, ?_, by simp, ?_⟩
          · rw [List.getLast?_concat]
            exact if_pos hearlier
          · intro e' he'
            rw [List.getLast?_concat, Option.some.injEq] at he'
            rw [← he', hdue]
            exact hearlier
        · -- on to the event before
          have hm' : m .active = l' ++ e :: r := by rw [hm, List.append_assoc, List.singleton_append]
          obtain ⟨pre, post, hl', hrun, hpost, hpre⟩ := ih l' (e :: r) hm' (by simpa using hn)
          refine ⟨pre, post ++ [e], by rw [hl', List.append_assoc], ?_, ?_, hpre⟩
          · rw [R.prev trivial hm', ← hrun]
            exact if_neg hearlier
          · intro e' he'
            rcases List.mem_append.mp he' with he' | he'
            · exact hpost e' he'
            · rw [List.mem_singleton.mp he', hdue]
              omega

section After

variable {reg : Registry} {m : TimerList → List Addr}

/-- The order with the new event in its place. -/
theorem sorted_insert (heap : Heap TimerEvent) {pre post : List Addr} {e : Addr}
    (h : (pre ++ post).Pairwise fun a b => dueOf heap a ≤ dueOf heap b)
    (hpost : ∀ x ∈ post, dueOf heap e ≤ dueOf heap x)
    (hpre : ∀ x, pre.getLast? = some x → dueOf heap x < dueOf heap e) :
    (pre ++ e :: post).Pairwise fun a b => dueOf heap a ≤ dueOf heap b := by
  rw [List.pairwise_append] at h ⊢
  refine ⟨h.1, List.pairwise_cons.mpr ⟨hpost, h.2.1⟩, ?_⟩
  -- what is not after the last of `pre` is before the new event
  have hall : ∀ x ∈ pre, dueOf heap x ≤ dueOf heap e := by
    intro x hx
    rcases List.eq_nil_or_concat pre with rfl | ⟨l, y, rfl⟩
    · cases hx
    · rw [List.concat_eq_append] at hx hpre h
      have hy := hpre y List.getLast?_concat
      rcases List.mem_append.mp hx with hx | hx
      · have hxy := (List.pairwise_append.mp h.1).2.2 x hx y (by simp)
        omega
      · rw [List.mem_singleton.mp hx]
        omega
  intro x hx y hy
  rcases List.mem_cons.mp hy with rfl | hy
  · exact hall x hx
  · exact h.2.2 x hx y hy

/-- The links with the new event between `pre` and `post`. -/
theorem TimerOk.linked (h : TimerOk reg m) {e : Addr} (hnew : reg.heap e = none) {pre post : List Addr}
    (hsplit : m .active = pre ++ post) :
    Rings (listAdd reg.links (.event e) ((pre.getLast?.map TimerNode.event).getD (.head .active)))
      TimerNode.head TimerNode.event (fun _ => True) (Function.update m .active (pre ++ e :: post)) := by
  have hfresh := h.fresh hnew
  rcases List.eq_nil_or_concat pre with rfl | ⟨l, a, rfl⟩
  · have hadd := h.rings.add (i := .active) trivial fun l _ => hfresh l
    rw [hsplit] at hadd
    exact hadd
  · rw [List.concat_eq_append, List.append_assoc, List.singleton_append] at hsplit
    have hadd := h.rings.addAfter (i := .active) trivial hsplit fun l _ => hfresh l
    rw [List.concat_eq_append, List.getLast?_concat, List.append_assoc, List.singleton_append]
    exact hadd

/-- **An event joins** `active`, in its place: the registry stays fine. -/
theorem TimerOk.insert (h : TimerOk reg m) {e : Addr} (hnew : reg.heap e = none) {ev : TimerEvent}
    (hserial : ev.serial = reg.created) {pre post : List Addr} (hsplit : m .active = pre ++ post)
    {reg' : Registry} (hheap : reg'.heap = Function.update reg.heap e (some ev))
    (hlinks : reg'.links
      = listAdd reg.links (.event e) ((pre.getLast?.map TimerNode.event).getD (.head .active)))
    (hcreated : reg'.created = reg.created + 1)
    (hpost : ∀ x ∈ post, ts ev.due ≤ dueOf reg'.heap x)
    (hpre : ∀ x, pre.getLast? = some x → dueOf reg'.heap x < ts ev.due) :
    TimerOk reg' (Function.update m .active (pre ++ e :: post)) := by
  -- the new event is in memory, the others are as they were
  have hself : reg'.heap e = some ev := by rw [hheap, Function.update_self]
  have hold : ∀ x, x ≠ e → reg'.heap x = reg.heap x := by
    intro x hx
    rw [hheap, Function.update_of_ne hx]
  have hdue : dueOf reg'.heap e = ts ev.due := by rw [dueOf, hself]
  refine ⟨?_, ?_, ?_, ?_, ?_⟩
  · rw [hlinks]
    exact h.linked hnew hsplit
  · intro x
    by_cases hx : x = e
    · subst hx
      rw [hself]
      exact iff_of_true (Option.some_ne_none _) ⟨.active, by rw [Function.update_self]; simp⟩
    · rw [hold x hx, h.live x]
      exact exists_congr fun l => (mem_update_insert hsplit hx l).symm
  · rw [Function.update_self]
    refine sorted_insert reg'.heap ?_ ?_ ?_
    · rw [← hsplit]
      refine sorted_congr h.sorted ?_
      intro x hx
      refine hold x ?_
      rintro rfl
      exact h.fresh hnew .active hx
    · rw [hdue]
      exact hpost
    · rw [hdue]
      exact hpre
  · rw [hheap, hcreated]
    exact h.numbered.insert e hserial
  · have hfew := h.few
    rw [hsplit, List.length_append] at hfew
    rw [hcreated]
    simp only [Function.update_self, ne_eq, reduceCtorEq, not_false_eq_true, Function.update_of_ne,
      List.length_append, List.length_cons]
    omega

/-- **`lz_timer_call_after`** puts the new event on `active`, in order. -/
theorem timerCallAfter_spec (h : TimerOk reg m) (hunlocked : reg.locked = false) (now delta : Timeval)
    (cbk data : Addr) {e : Addr} (hnew : reg.heap e = none) :
    ∃ reg' pre post, timerCallAfter reg now delta cbk data (some e) = .ok (reg', some e) ∧
      m .active = pre ++ post ∧ TimerOk reg' (Function.update m .active (pre ++ e :: post)) ∧
      reg'.locked = false ∧ reg'.created = reg.created + 1 ∧
      reg'.heap = Function.update reg.heap e (some ⟨deadline now delta, cbk, data, reg.created⟩) := by
  have hfew := h.few
  obtain ⟨heap, hheap⟩ : ∃ heap, heap
    = Function.update reg.heap e (some ⟨deadline now delta, cbk, data, reg.created⟩) := ⟨_, rfl⟩
  -- the events on `active` are those of before
  have hlive : ∀ x ∈ m .active, ∃ ev, heap x = some ev := by
    intro x hx
    have hxe : x ≠ e := by
      rintro rfl
      exact h.fresh hnew .active hx
    rw [hheap, Function.update_of_ne hxe]
    exact h.liveEvent hx
  -- the search, in the registry with the new event in memory
  obtain ⟨pre, post, hsplit, hsearch, hpost, hpre⟩ := searchBack_spec
    { reg with heap := heap, created := reg.created + 1, locked := true } h.rings hlive
    (ts (deadline now delta)) (reg.created + 1 + 1) (m .active) [] (List.append_nil _).symm (by omega)
  have hlast := h.rings.last (i := .active) trivial
  have hlock : ({ reg with heap := heap, created := reg.created + 1 } : Registry).lock
      = .ok { reg with heap := heap, created := reg.created + 1, locked := true } :=
    lock_of_unlocked hunlocked
  refine ⟨{ reg with
      heap := heap, created := reg.created + 1, locked := false
      links := listAdd reg.links (.event e) ((pre.getLast?.map TimerNode.event).getD (.head .active)) },
    pre, post, ?_, hsplit, h.insert hnew rfl hsplit hheap rfl rfl hpost hpre, rfl, rfl, hheap⟩
  simp only [timerCallAfter, ← hheap, hlock, hlast, hsearch]
  rfl

end After

/-! ## §4. Cancelling. -/

section Cancel

variable {reg : Registry} {m : TimerList → List Addr}

/-- **An event leaves** its list and the memory: the registry stays fine. -/
theorem TimerOk.remove (h : TimerOk reg m) {e : Addr} {l : TimerList} (he : e ∈ m l) {reg' : Registry}
    (hheap : reg'.heap = Function.update reg.heap e none) (hlinks : reg'.links = timerUnlink reg.links e)
    (hcreated : reg'.created = reg.created) : TimerOk reg' (Function.update m l ((m l).erase e)) := by
  have herased := h.rings.erased trivial he
  have hold : ∀ x, x ≠ e → reg'.heap x = reg.heap x := by
    intro x hx
    rw [hheap, Function.update_of_ne hx]
  refine ⟨?_, ?_, ?_, ?_, ?_⟩
  · rw [hlinks, timerUnlink_eq]
    exact h.rings.unhook trivial he
  · intro x
    by_cases hxe : x = e
    · subst hxe
      rw [hheap, Function.update_self]
      refine iff_of_false (not_not_intro rfl) ?_
      rintro ⟨l', hl'⟩
      exact herased l' trivial hl'
    · rw [hold x hxe, h.live x]
      exact exists_congr fun l' => (mem_update_erase hxe l').symm
  · -- `active` keeps its order when an event goes
    refine sorted_congr (h.sorted.sublist (update_erase_sublist l e .active)) ?_
    intro x hx
    refine hold x ?_
    rintro rfl
    exact herased .active trivial hx
  · rw [hheap, hcreated]
    exact h.numbered.smaller (holds_erase reg.heap e)
  · have hlen : ∀ l', (Function.update m l ((m l).erase e) l').length ≤ (m l').length :=
      fun l' => (update_erase_sublist l e l').length_le
    rw [hcreated]
    exact Nat.le_trans (Nat.add_le_add (hlen .active) (hlen .stale)) h.few

/-- **`lz_timer_call_cancel`** of an event in memory, from whichever list. -/
theorem timerCallCancel_spec (h : TimerOk reg m) (hunlocked : reg.locked = false) {e : Addr}
    {l : TimerList} (he : e ∈ m l) :
    ∃ reg', timerCallCancel reg e = .ok reg' ∧
      TimerOk reg' (Function.update m l ((m l).erase e)) ∧ reg'.locked = false ∧
      reg'.heap = Function.update reg.heap e none ∧ reg'.created = reg.created ∧
      reg'.links = timerUnlink reg.links e := by
  have hlive : reg.heap e ≠ none := (h.live e).mpr ⟨l, he⟩
  have hlock := lock_of_unlocked hunlocked
  refine ⟨{ reg with
    links := timerUnlink reg.links e, locked := false, heap := Function.update reg.heap e none },
    ?_, h.remove he rfl rfl rfl, rfl, rfl, rfl, rfl⟩
  simp only [timerCallCancel, hlock]
  exact if_neg hlive

end Cancel

/-! ## §5. Expiring. -/

/-- The lists after the first active event has gone stale. -/
def expired (m : TimerList → List Addr) (e : Addr) (rest : List Addr) : TimerList → List Addr
  | .active => rest
  | .stale => m .stale ++ [e]

section Expire

variable {reg : Registry} {m : TimerList → List Addr}

theorem lock_unlock (hunlocked : reg.locked = false) : ({ reg with locked := true } : Registry).unlock = reg := by
  show ({ reg with locked := false } : Registry) = reg
  rw [← hunlocked]

/-- A section without a due event changes nothing. -/
theorem timerSection_none (h : TimerOk reg m) (hunlocked : reg.locked = false) {now : Nat}
    (hdue : ∀ e, (m .active).head? = some e → now < dueOf reg.heap e) :
    timerSection reg now = .ok (reg, none) := by
  have hlock := lock_of_unlocked hunlocked
  have hfirst := h.rings.first (i := .active) trivial
  simp only [timerSection, hlock, hfirst]
  cases hm : m .active with
  | nil =>
      simp only [List.head?_nil, Option.map_none, Option.getD_none]
      rw [lock_unlock hunlocked]
  | cons e rest =>
      obtain ⟨ev, hev⟩ := h.liveEvent (l := .active) (e := e) (by rw [hm]; simp)
      have hlate := hdue e (by rw [hm]; rfl)
      have hts : ¬ ts ev.due ≤ now := by
        rw [dueOf, hev] at hlate
        exact Nat.not_le.mpr hlate
      simp only [List.head?_cons, Option.map_some, Option.getD_some, hev]
      rw [if_neg hts, lock_unlock hunlocked]

/-- No event is lost on the way from `active` to `stale`. -/
theorem mem_expired {e : Addr} {rest : List Addr} (hm : m .active = e :: rest) (x : Addr) :
    (∃ l, x ∈ expired m e rest l) ↔ ∃ l, x ∈ m l := by
  constructor
  · rintro ⟨l, hl⟩
    cases l with
    | active => exact ⟨.active, by rw [hm]; exact List.mem_cons_of_mem _ hl⟩
    | stale =>
        rcases List.mem_append.mp hl with hl | hl
        · exact ⟨.stale, hl⟩
        · exact ⟨.active, by rw [hm, List.mem_singleton.mp hl]; exact List.mem_cons_self⟩
  · rintro ⟨l, hl⟩
    cases l with
    | active =>
        rw [hm] at hl
        rcases List.mem_cons.mp hl with rfl | hl
        · exact ⟨.stale, List.mem_append_right _ (List.mem_singleton_self _)⟩
        · exact ⟨.active, hl⟩
    | stale => exact ⟨.stale, List.mem_append_left _ hl⟩

/-- The links once the first active event has gone stale. -/
theorem TimerOk.expiredRings (h : TimerOk reg m) {e : Addr} {rest : List Addr}
    (hm : m .active = e :: rest) :
    Rings (timerCallStale reg.links e) TimerNode.head TimerNode.event (fun _ => True)
      (expired m e rest) := by
  have he : e ∈ m .active := by rw [hm]; simp
  have hunhooked := h.rings.unhook (i := .active) trivial he
  have herased := h.rings.erased (i := .active) trivial he
  -- from the front of `active` to the end of `stale`
  have hlists : Function.update (Function.update m .active ((m .active).erase e)) .stale
      (Function.update m .active ((m .active).erase e) .stale ++ [e]) = expired m e rest := by
    funext l
    cases l with
    | active => simp [expired, hm]
    | stale => simp [expired]
  -- the event is not on `stale` yet, so it is not the last one there
  have hlast : (listUnhook reg.links (.event e) (.head .stale)).prev ≠ .event e := by
    rw [hunhooked.last (i := .stale) trivial]
    intro hev
    cases hs : (Function.update m .active ((m .active).erase e) .stale).getLast? with
    | none =>
        rw [hs] at hev
        cases hev
    | some x =>
        rw [hs] at hev
        cases hev
        exact herased .stale trivial (List.mem_of_getLast? hs)
  rw [← hlists, timerCallStale_eq hlast]
  exact hunhooked.addTail (i := .stale) trivial herased

/-- **A section with a due event** makes the first active event stale. -/
theorem timerSection_due (h : TimerOk reg m) (hunlocked : reg.locked = false) {now : Nat} {e : Addr}
    {rest : List Addr} (hm : m .active = e :: rest) (hdue : dueOf reg.heap e ≤ now) :
    ∃ reg', timerSection reg now = .ok (reg', some e) ∧ TimerOk reg' (expired m e rest) ∧
      reg'.locked = false ∧ reg'.heap = reg.heap ∧ reg'.created = reg.created := by
  have hlock := lock_of_unlocked hunlocked
  have hfirst := h.rings.first (i := .active) trivial
  obtain ⟨ev, hev⟩ := h.liveEvent (l := .active) (e := e) (by rw [hm]; simp)
  have hts : ts ev.due ≤ now := by
    rw [dueOf, hev] at hdue
    exact hdue
  refine ⟨{ reg with links := timerCallStale reg.links e, locked := false }, ?_, ?_, rfl, rfl, rfl⟩
  · simp only [timerSection, hlock, hfirst, hm, List.head?_cons, Option.map_some, Option.getD_some, hev,
      if_pos hts]
    rfl
  · refine ⟨h.expiredRings hm, fun x => (h.live x).trans (mem_expired hm x).symm, ?_, h.numbered, ?_⟩
    · have hsorted := h.sorted
      rw [hm] at hsorted
      exact (List.pairwise_cons.mp hsorted).2
    · have hfew := h.few
      rw [hm, List.length_cons] at hfew
      simp only [expired, List.length_append, List.length_singleton]
      omega

/-- The due events are a front of a sorted list. -/
theorem takeWhile_due {heap : Heap TimerEvent} {xs : List Addr} (now : Nat)
    (h : xs.Pairwise fun a b => dueOf heap a ≤ dueOf heap b) :
    xs.takeWhile (isDue heap now) = xs.filter (isDue heap now) := by
  induction xs with
  | nil => rfl
  | cons e xs ih =>
      rw [List.pairwise_cons] at h
      by_cases hdue : isDue heap now e = true
      · rw [List.takeWhile_cons_of_pos hdue, List.filter_cons_of_pos hdue, ih h.2]
      · have hnone : xs.filter (isDue heap now) = [] := by
          rw [List.filter_eq_nil_iff]
          intro x hx
          have hle := h.1 x hx
          simp only [isDue, decide_eq_true_eq] at hdue ⊢
          omega
        rw [List.takeWhile_cons_of_neg hdue, List.filter_cons_of_neg hdue, hnone]

/-- **A pass** fires the due events, front to back, and leaves the others. -/
theorem passLoop_spec (now : Nat) :
    ∀ (n : Nat) (xs : List Addr) (reg : Registry) (m : TimerList → List Addr), TimerOk reg m →
      reg.locked = false → m .active = xs → xs.length < n →
      ∃ reg' fired, passLoop now n reg = .ok (reg', fired) ∧ reg'.locked = false ∧
        reg'.heap = reg.heap ∧ reg'.created = reg.created ∧
        (xs.takeWhile (isDue reg.heap now)).map reg.heap = fired.map some ∧
        TimerOk reg' fun
          | .active => xs.dropWhile (isDue reg.heap now)
          | .stale => m .stale ++ xs.takeWhile (isDue reg.heap now) := by
  intro n
  induction n with
  | zero =>
      intro xs reg m _ _ _ hn
      exact absurd hn (Nat.not_lt_zero _)
  | succ n ih =>
      intro xs reg m h hunlocked hm hn
      by_cases hfirst : ∀ e, (m .active).head? = some e → now < dueOf reg.heap e
      · -- the first event, if any, is not due: the pass ends
        have hnone := timerSection_none h hunlocked hfirst
        have htake : xs.takeWhile (isDue reg.heap now) = [] := by
          cases xs with
          | nil => rfl
          | cons e rest =>
              have hlate := hfirst e (by rw [hm]; rfl)
              exact List.takeWhile_cons_of_neg (by simpa [isDue] using hlate)
        have hdrop : xs.dropWhile (isDue reg.heap now) = xs := by
          cases xs with
          | nil => rfl
          | cons e rest =>
              have hlate := hfirst e (by rw [hm]; rfl)
              exact List.dropWhile_cons_of_neg (by simpa [isDue] using hlate)
        refine ⟨reg, [], by simp only [passLoop, hnone], hunlocked, rfl, rfl, by rw [htake]; rfl, ?_⟩
        rw [htake, hdrop, List.append_nil]
        have hlists : (fun | TimerList.active => xs | .stale => m .stale) = m := by
          funext l
          cases l with
          | active => exact hm.symm
          | stale => rfl
        rw [hlists]
        exact h
      · simp only [not_forall, Nat.not_lt] at hfirst
        obtain ⟨e, he, hdue⟩ := hfirst
        cases xs with
        | nil =>
            rw [hm] at he
            cases he
        | cons x rest =>
            rw [hm, List.head?_cons, Option.some.injEq] at he
            subst he
            -- one section fires the first event, and the pass goes on
            obtain ⟨reg₁, hrun₁, h₁, hunlocked₁, hheap₁, hcreated₁⟩ := timerSection_due h hunlocked hm hdue
            obtain ⟨ev, hev⟩ := h.liveEvent (l := .active) (e := x) (by rw [hm]; simp)
            obtain ⟨reg', fired, hrun, hunlocked', hheap', hcreated', hfired, h'⟩ :=
              ih rest reg₁ _ h₁ hunlocked₁ rfl (by simpa using hn)
            rw [hheap₁] at hfired h'
            have hpos : isDue reg.heap now x = true := by simpa [isDue] using hdue
            refine ⟨reg', ev :: fired, ?_, hunlocked', hheap'.trans hheap₁,
              hcreated'.trans hcreated₁, ?_, ?_⟩
            · simp only [passLoop, hrun₁, hheap₁, hev, hrun]
              rfl
            · rw [List.takeWhile_cons_of_pos hpos, List.map_cons, List.map_cons, hev, hfired]
            · rw [List.takeWhile_cons_of_pos hpos, List.dropWhile_cons_of_pos hpos]
              have happend : m .stale ++ x :: rest.takeWhile (isDue reg.heap now)
                  = expired m x rest .stale ++ rest.takeWhile (isDue reg.heap now) := by
                simp [expired]
              rw [happend]
              exact h'

end Expire

end LzLib.Timer
