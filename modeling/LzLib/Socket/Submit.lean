/-
  LzLib.Socket.Submit
  ───────────────────
  **WHAT A SUCCESSFUL SUBMIT MEANS.**

  Returning 0 should mean that the frame is on its way: the kernel has all of
  it, or the rest waits at the end of the queue and POLLOUT will resume it.
  `Tended` is the invariant behind that, kept by every operation on a
  connected transport: while entries wait, the kernel watches the descriptor
  for POLLOUT.

  A direct write that fails breaks it.  `socket_submit` overwrites the error
  by 0 after it has queued the entry with its pending count of -1, and
  nothing enables POLLOUT; `submit_meaning` says that this is the only way.
-/
import LzLib.Socket.Outgoing
import LzLib.Socket.ProtoDef

namespace LzLib.Socket

open LzLib.Foundation
open LzLib.Event

/-! ## §1. The meaning of a submit. -/

/-- The kernel has the whole frame. -/
def Delivered (t : Transport) (m : Message) (t' : Transport) : Prop :=
  t'.sent = t.sent ++ m.frame ∧ t'.ioq = t.ioq

/-- The rest of the frame is the last entry of the queue, unfailed, and
POLLOUT is enabled for the descriptor. -/
def Waiting (t : Transport) (m : Message) (t' : Transport) : Prop :=
  (∃ e k, t'.ioq = t.ioq ++ [e] ∧ e.Open ∧ e.unsent = m.frame.drop k ∧
    t'.sent = t.sent ++ m.frame.take k) ∧
  pollOutEnabled t'.pool t'.sock = true

/-- What returning 0 means. -/
def Meaning (t : Transport) (m : Message) (r : Transport × Int) : Prop :=
  r.2 = 0 → Delivered t m r.1 ∨ Waiting t m r.1

/-- The submission writes directly, and a system call of that write fails. -/
def FailsDirect (t : Transport) (m : Message) (script : List WriteEvent) (room : Bool) : Prop :=
  t.connected = 1 ∧ room = true ∧ t.ioq = [] ∧ hitsFail script m.frame.length = true

/-! ## §2. A transport that is tended to. -/

/-- The descriptor is watched, for POLLOUT too while entries wait, and no
entry has failed. -/
structure Wired (t : Transport) : Prop where
  sock : t.sock ≠ -1
  watched : ∃ out, Watched t.pool t.sock out ∧ (t.ioq ≠ [] → out = true)
  entries : ∀ e ∈ t.ioq, e.Sound ∧ e.Open

/-- The invariant: wired, or given up. -/
def Tended (t : Transport) : Prop := t.connected ≠ notConnected → Wired t

/-- The part of a transport that `Wired` reads. -/
theorem Wired.congr {t t' : Transport} (h : Wired t) (hsock : t'.sock = t.sock)
    (hpool : t'.pool = t.pool) (hioq : t'.ioq = t.ioq) : Wired t' where
  sock := by
    rw [hsock]
    exact h.sock
  watched := by
    rw [hsock, hpool, hioq]
    exact h.watched
  entries := by
    rw [hioq]
    exact h.entries

/-- Selecting on the transport's own descriptor. -/
theorem selectOut_watched {t : Transport} {out : Bool} (h : Watched t.pool t.sock out) (on : Int) :
    ∃ t', t.selectOut on false = some t' ∧ t' = { t with pool := t'.pool, idx := t'.idx } ∧
      Watched t'.pool t.sock (switchBit on out) := by
  obtain ⟨pool', hpool, hw⟩ := eventSelectOn_watched h t.idx on
  exact ⟨_, by rw [Transport.selectOut, hpool, Option.map_some], rfl, hw⟩

/-! ## §3. Submitting. -/

/-- What is left of a message that is written in part waits for POLLOUT, which
is switched on. -/
theorem Wired.waits {t t' : Transport} (h : Wired t) {m : Message} {script : List WriteEvent}
    {room : Bool} {c : Churned} {e : Ioq} (D : Direct t m script room c) (hentry : c.entry = some e)
    (hret : c.ret ≠ -1)
    (hsel : ({ c.transport with ioq := [e] } : Transport).selectOut 1 false = some t') :
    Wired t' ∧ Waiting t m t' := by
  obtain ⟨out, hwatched, -⟩ := h.watched
  obtain ⟨hsame, houtcome⟩ := ioqChurnEntry_churns (ioqNew_sound m) D.churned
  rw [hentry, ioqNew_unsent] at houtcome
  obtain ⟨hsound, ⟨k, hsent, hrest⟩, -, hcase⟩ := houtcome
  have hopen := (hcase.resolve_left hret).2
  have hwatched' : Watched { c.transport with ioq := [e] }.pool
      { c.transport with ioq := [e] }.sock out := by
    show Watched c.transport.pool c.transport.sock out
    rw [hsame]
    exact hwatched
  obtain ⟨t₁, ht₁, hsame', hon⟩ := selectOut_watched hwatched' 1
  rw [hsel, Option.some.injEq] at ht₁
  subst ht₁
  have hsock' : c.transport.sock = t.sock := by rw [hsame]
  have hsock : t'.sock = t.sock := by
    rw [hsame']
    exact hsock'
  have hioq : t'.ioq = [e] := by rw [hsame']
  have hon : Watched t'.pool t'.sock true := by
    rw [hsock, ← hsock']
    exact hon
  refine ⟨⟨?_, ⟨true, hon, fun _ => rfl⟩, ?_⟩, ⟨e, k, ?_, hopen, hrest, ?_⟩, hon.pollOut_eq⟩
  · rw [hsock]
    exact h.sock
  · intro x hx
    rw [hioq] at hx
    rw [List.mem_singleton.mp hx]
    exact ⟨hsound, hopen⟩
  · rw [hioq, D.empty]
    rfl
  · rw [hsame']
    exact hsent

/-- **A submission that does not fail directly** keeps the transport tended
and means what it should. -/
theorem socketSubmit_tended {t : Transport} (h : Tended t) {m : Message}
    (hcount : m.vector.length ≤ maxIovec - 2) {script : List WriteEvent} {room : Bool}
    (hok : ¬ FailsDirect t m script room) :
    ∃ r, socketSubmit t m script room false = some r ∧ Tended r.1 ∧ Meaning t m r := by
  have hlive : t.connected = 1 → t.pool.regNull = false := by
    intro hconn
    obtain ⟨out, hwatched, -⟩ := (h (by rw [hconn]; decide)).watched
    exact hwatched.live
  obtain ⟨r, hr⟩ := socketSubmit_returns hlive hcount script room false
  refine ⟨r, hr, ?_⟩
  -- a write that is made does not fail
  have hret : ∀ c, Direct t m script room c → c.ret ≠ -1 := by
    intro c D hfail
    have hhits := (ioqChurnEntry_failed_iff (ioqNew_sound m) (ioqNew_open m) D.churned).mp hfail
    rw [ioqNew_unsent] at hhits
    exact hok ⟨D.connected, D.room, D.empty, hhits⟩
  cases socketSubmit_cases hr with
  | refuses hwhy => exact ⟨h, fun h0 => absurd h0 (show (-1 : Int) ≠ 0 by decide)⟩
  | behind hconn hq =>
      -- POLLOUT is on already
      have hw : Wired t := h (by rw [hconn]; decide)
      obtain ⟨out, hwatched, hwakes⟩ := hw.watched
      have hout : out = true := hwakes hq
      subst hout
      refine ⟨fun _ => ⟨hw.sock, ⟨true, hwatched, fun _ => rfl⟩, ?_⟩,
        fun _ => Or.inr ⟨⟨ioqNew m, 0, rfl, ioqNew_open m, ?_, ?_⟩, hwatched.pollOut_eq⟩⟩
      · intro e he
        rcases List.mem_append.mp he with he | he
        · exact hw.entries e he
        · rw [List.mem_singleton.mp he]
          exact ⟨ioqNew_sound m, ioqNew_open m⟩
      · rw [ioqNew_unsent, List.drop_zero]
      · rw [List.take_zero, List.append_nil]
  | @written c D hentry =>
      have hw : Wired t := h (by rw [D.connected]; decide)
      obtain ⟨hsame, houtcome⟩ := ioqChurnEntry_churns (ioqNew_sound m) D.churned
      rw [hentry, ioqNew_unsent] at houtcome
      have hioq : c.transport.ioq = t.ioq := by rw [hsame]
      refine ⟨fun _ => hw.congr ?_ ?_ hioq, fun _ => Or.inl ⟨houtcome.2, hioq⟩⟩
      · show c.transport.sock = _
        rw [hsame]
      · show c.transport.pool = _
        rw [hsame]
  | @stuck c e D hentry hfail =>
      have houtcome := (ioqChurnEntry_churns (ioqNew_sound m) D.churned).outcome
      rw [hentry] at houtcome
      exact absurd (houtcome.2.2.2.resolve_left (hret c D)).1 hfail
  | @waits c e t' D hentry hpos hsel =>
      have hw : Wired t := h (by rw [D.connected]; decide)
      obtain ⟨hw', hqueued⟩ := hw.waits D hentry (hret c D) hsel
      exact ⟨fun _ => hw', fun _ => Or.inr hqueued⟩

/-- **A direct write that fails** is reported as 0, and the entry it leaves
behind has failed. -/
theorem socketSubmit_failsDirect {t : Transport} {m : Message}
    (hcount : m.vector.length ≤ maxIovec - 2) {script : List WriteEvent} {room : Bool}
    (hfail : FailsDirect t m script room) :
    ∃ r, socketSubmit t m script room false = some r ∧ r.2 = 0 ∧ r.1.connected = 1 ∧
      r.1.pool = t.pool ∧ ∃ e, r.1.ioq = [e] ∧ e.pendingCount = -1 := by
  obtain ⟨hconn, hroom, hq, hhits⟩ := hfail
  obtain ⟨c, hc, hsame, houtcome⟩ := ioqChurnEntry_spec (ioqNew_sound m)
    { t with log := t.log ++ m.iobref.toList.map .refIobref } script
  -- the direct write fails, and the caller is told 0 all the same
  have hret : c.ret = -1 := by
    rw [ioqChurnEntry_failed_iff (ioqNew_sound m) (ioqNew_open m) hc, ioqNew_unsent]
    exact hhits
  rw [socketSubmit, if_neg (not_not.mpr hconn), if_neg (by rw [hroom]; decide), if_neg (by omega)]
  simp only
  rw [if_pos hq, hc, Option.bind_some]
  cases hentry : c.entry with
  | none =>
      rw [hentry, hret] at houtcome
      exact absurd houtcome.1 (by decide)
  | some e =>
      rw [hentry] at houtcome
      have hneg : ¬ (c.ret > 0) := by rw [hret]; decide
      simp only
      rw [if_neg hneg]
      refine ⟨_, rfl, rfl, ?_, ?_, e, rfl, ?_⟩
      · show c.transport.connected = 1
        rw [hsame]
        exact hconn
      · show c.transport.pool = t.pool
        rw [hsame]
      · rw [← houtcome.2.2.1]
        exact hret

/-- Then the submission does not mean what it should. -/
theorem not_meaning_of_failsDirect {t : Transport} {m : Message}
    (hcount : m.vector.length ≤ maxIovec - 2) {script : List WriteEvent} {room : Bool}
    (hfail : FailsDirect t m script room) {r : Transport × Int}
    (hr : socketSubmit t m script room false = some r) : ¬ Meaning t m r := by
  obtain ⟨r', hr', h0, -, -, e, hioq, hcount'⟩ := socketSubmit_failsDirect hcount hfail
  obtain rfl : r = r' := Option.some.inj (hr.symm.trans hr')
  intro hmeaning
  rcases hmeaning h0 with hdone | ⟨⟨e', k, hioq', hopen, -, -⟩, -⟩
  · -- the queue is not as before
    have hnil := hdone.2
    rw [hioq, hfail.2.2.1] at hnil
    cases hnil
  · -- the entry has failed
    rw [hioq, hfail.2.2.1] at hioq'
    cases hioq'
    have hopen : e.pendingCount = e.pendingVector.length := hopen
    omega

/-! ## §4. The other operations. -/

theorem tended_of_notConnected {t : Transport} (h : t.connected = notConnected) : Tended t :=
  fun hne => absurd h hne

theorem disconnect_tended {t : Transport} (h : Tended t) : Tended (disconnect t) := by
  unfold disconnect
  split
  · exact tended_of_notConnected rfl
  · exact h

theorem connectFinish_tended {t : Transport} (h : Tended t) (h0 : t.connected = 0)
    (o : ConnectOutcome) : Tended (connectFinish t o) := by
  cases o with
  | done => exact fun _ => (h (by rw [h0]; decide)).congr rfl rfl rfl
  | inProgress => exact h
  | failed => exact disconnect_tended h
  | noName => exact disconnect_tended h

/-- Churning the queue of a tended transport, an error aside. -/
theorem ioqChurn_wired {t : Transport} (h : Wired t) (scripts : List (List WriteEvent)) :
    ∃ r, ioqChurn t scripts false = some r ∧ r.1.sock = t.sock ∧ (r.2 ≠ -1 → Wired r.1) := by
  obtain ⟨out, hwatched, hwakes⟩ := h.watched
  obtain ⟨r, hr, hspec⟩ := churnLoop_spec (fun e he => (h.entries e he).1) t scripts 0
  have hsock : r.1.sock = t.sock := by rw [hspec.same]
  have hpool : r.1.pool = t.pool := by rw [hspec.same]
  rw [ioqChurn, hr, Option.bind_some]
  by_cases hempty : r.1.ioq = []
  · -- nothing waits: POLLOUT is switched off
    rw [if_pos hempty]
    have hwatched' : Watched r.1.pool r.1.sock out := by
      rw [hpool, hsock]
      exact hwatched
    obtain ⟨t', ht', hsame', hoff⟩ := selectOut_watched hwatched' 0
    have hsock' : t'.sock = r.1.sock := by rw [hsame']
    have hioq : t'.ioq = [] := by
      rw [hsame']
      exact hempty
    rw [ht', Option.map_some]
    refine ⟨_, rfl, hsock'.trans hsock, fun _ => ⟨?_, ⟨false, ?_, fun hne => absurd hioq hne⟩, ?_⟩⟩
    · show t'.sock ≠ -1
      rw [hsock', hsock]
      exact h.sock
    · show Watched t'.pool t'.sock false
      rw [hsock']
      exact hoff
    · intro e he
      have he : e ∈ t'.ioq := he
      rw [hioq] at he
      exact (List.not_mem_nil he).elim
  · rw [if_neg hempty]
    -- something still waits, and so it did before: POLLOUT is on
    have hq : t.ioq ≠ [] := fun e => hempty (hspec.empty e)
    refine ⟨r, rfl, hsock, fun hne => ⟨?_, ⟨out, ?_, fun _ => hwakes hq⟩, fun e he => ?_⟩⟩
    · rw [hsock]
      exact h.sock
    · rw [hpool, hsock]
      exact hwatched
    · exact ⟨hspec.sound e he, hspec.unfailed (fun e' he' => (h.entries e' he').2) hne e he⟩

theorem eventPollOut_tended {t : Transport} (h : Tended t) {scripts : List (List WriteEvent)}
    {r : Transport × Int} (hr : eventPollOut t scripts false = some r) : Tended r.1 := by
  rw [eventPollOut] at hr
  split at hr
  next hconn =>
    have hw : Wired t := h (by rw [hconn]; decide)
    obtain ⟨r', hr', hsock, hwired⟩ := ioqChurn_wired hw scripts
    rw [hr', Option.map_some] at hr
    by_cases hfail : r'.2 = -1
    · -- the connection is shut down
      rw [if_pos hfail] at hr
      cases hr
      have hvalid : r'.1.sock ≠ -1 := by
        rw [hsock]
        exact hw.sock
      show Tended (disconnect r'.1)
      rw [disconnect, if_pos hvalid]
      exact tended_of_notConnected rfl
    · rw [if_neg hfail] at hr
      cases hr
      exact fun _ => hwired hfail
  next =>
    cases hr
    exact h

theorem eventPollIn_tended {t : Transport} (h : Tended t) {env : PollIn} {r : Transport × Int}
    (hr : eventPollIn t env = some r) : Tended r.1 := by
  obtain ⟨p, -, rfl⟩ := Option.map_eq_some_iff.mp hr
  exact fun hne => (h hne).congr rfl rfl rfl

theorem eventPollErr_tended {t t' : Transport} {refused refusedMod : Bool}
    (ht : eventPollErr t refused refusedMod = some t') : Tended t' := by
  obtain ⟨p, -, rfl⟩ := Option.map_eq_some_iff.mp ht
  exact tended_of_notConnected rfl

theorem socketEventHandler_tended {t t' : Transport} (h : Tended t) {idx : Int}
    {pollIn pollOut pollErr : Bool} {env : EventEnv} (henv : env.selectRefused = false)
    (ht : socketEventHandler t idx pollIn pollOut pollErr env = some t') : Tended t' := by
  unfold socketEventHandler at ht
  simp only at ht
  have hidx : Tended { t with idx } := fun hne => (h hne).congr rfl rfl rfl
  have hconnect : Tended (if t.connected = 0 then connectFinish { t with idx } env.connect
      else { t with idx }) := by
    split
    next h0 => exact connectFinish_tended hidx h0 env.connect
    next => exact hidx
  generalize (if t.connected = 0 then connectFinish { t with idx } env.connect
    else { t with idx }) = t₁ at ht hconnect
  obtain ⟨r, hr, ht⟩ := Option.bind_eq_some_iff.mp ht
  have hout : Tended r.1 := by
    split at hr
    · rw [henv] at hr
      exact eventPollOut_tended hconnect hr
    · cases hr
      exact hconnect
  obtain ⟨r', hr', ht⟩ := Option.bind_eq_some_iff.mp ht
  have hin : Tended r'.1 := by
    split at hr'
    · exact eventPollIn_tended hout hr'
    · cases hr'
      exact hout
  unfold handlerEnd at ht
  split at ht
  · exact eventPollErr_tended ht
  · cases ht
    exact hin

theorem socketReceive_tended {t : Transport} (h : Tended t) (given : Bool) :
    Tended (socketReceive t given).1 := by
  unfold socketReceive
  split
  · exact fun hne => (h hne).congr rfl rfl rfl
  · exact h

/-- A change of the pool on behalf of another descriptor. -/
theorem tended_pool {t : Transport} (h : Tended t) {pool : EventPool}
    (hpool : t.sock ≠ -1 → ∀ out, Watched t.pool t.sock out → Watched pool t.sock out) :
    Tended { t with pool } := by
  intro hne
  have hw := h hne
  obtain ⟨out, hwatched, hwakes⟩ := hw.watched
  exact ⟨hw.sock, ⟨out, hpool hw.sock out hwatched, hwakes⟩, hw.entries⟩

/-! ## §5. Runs. -/

/-- What happens to a transport and to the pool it is registered in. -/
inductive TransportOp where
  | submit (m : Message) (script : List WriteEvent) (room : Bool)
  | event (idx : Int) (pollIn pollOut pollErr : Bool) (env : EventEnv)
  | receive (given : Bool)
  | disconnect
  | registerOther (fd : Int) (handler data : Addr) (pollIn pollOut : Int) (refused : Bool)
  | selectOther (fd hint pollIn pollOut : Int) (refused : Bool)
  | unregisterOther (fd hint : Int) (refused refusedMod : Bool)

def transportStep (t : Transport) : TransportOp → Option Transport
  | .submit m script room => (socketSubmit t m script room false).map Prod.fst
  | .event idx pollIn pollOut pollErr env => socketEventHandler t idx pollIn pollOut pollErr env
  | .receive given => some (socketReceive t given).1
  | .disconnect => some (LzLib.Socket.disconnect t)
  | .registerOther fd handler data pollIn pollOut refused =>
      (eventRegister t.pool fd handler data pollIn pollOut true refused).map fun r =>
        { t with pool := r.1 }
  | .selectOther fd hint pollIn pollOut refused =>
      (eventSelectOn t.pool fd hint pollIn pollOut refused).map fun r => { t with pool := r.1 }
  | .unregisterOther fd hint refused refusedMod =>
      (eventUnregister t.pool fd hint refused refusedMod).map fun r => { t with pool := r.1 }

/-- A transport among the operations of its callers, the event loop and the
other users of the pool.  `epoll_ctl` does not refuse the transport's own
selections, and no submission fails in its direct write. -/
def transport : Component Transport TransportOp where
  step := transportStep
  allowed t op := match op with
    | .submit m script room => m.vector.length ≤ maxIovec - 2 ∧ ¬ FailsDirect t m script room
    | .event _ _ _ _ env => env.selectRefused = false
    | .registerOther fd _ _ _ _ _ => fd ≠ t.sock
    | .selectOther fd _ _ _ _ => fd ≠ t.sock
    | .unregisterOther fd _ _ _ => fd ≠ t.sock
    | _ => True

theorem transportStep_tended {t t' : Transport} {op : TransportOp} (h : Tended t)
    (hop : transport.allowed t op) (ht : transportStep t op = some t') : Tended t' := by
  cases op with
  | submit m script room =>
      obtain ⟨r, hr, htended, -⟩ := socketSubmit_tended h hop.1 hop.2
      rw [transportStep, hr, Option.map_some] at ht
      cases ht
      exact htended
  | event idx pollIn pollOut pollErr env => exact socketEventHandler_tended h hop ht
  | receive given =>
      cases ht
      exact socketReceive_tended h given
  | disconnect =>
      cases ht
      exact disconnect_tended h
  | registerOther fd handler data pollIn pollOut refused =>
      obtain ⟨r, hr, rfl⟩ := Option.map_eq_some_iff.mp ht
      refine tended_pool h fun _ out hw => ?_
      obtain ⟨r', hr', hw'⟩ := eventRegister_other hw hop handler data pollIn pollOut refused
      obtain rfl : r = r' := Option.some.inj (hr.symm.trans hr')
      exact hw'
  | selectOther fd hint pollIn pollOut refused =>
      obtain ⟨r, hr, rfl⟩ := Option.map_eq_some_iff.mp ht
      refine tended_pool h fun _ out hw => ?_
      obtain ⟨r', hr', hw'⟩ := eventSelectOn_other hw hop hint pollIn pollOut refused
      obtain rfl : r = r' := Option.some.inj (hr.symm.trans hr')
      exact hw'
  | unregisterOther fd hint refused refusedMod =>
      obtain ⟨r, hr, rfl⟩ := Option.map_eq_some_iff.mp ht
      refine tended_pool h fun hsock out hw => ?_
      obtain ⟨r', hr', hw'⟩ := eventUnregister_other hw hsock hop hint refused refusedMod
      obtain rfl : r = r' := Option.some.inj (hr.symm.trans hr')
      exact hw'

/-- A transport at its start: accepted or connecting, on a descriptor that is
new to the pool and to the kernel. -/
inductive Start : Transport → Prop where
  | accepted {pool : EventPool} {fd : Int} {handler data : Addr} {t : Transport}
      (live : pool.regNull = false) (valid : fd ≠ -1) (unregistered : slotsOf pool.reg fd = [])
      (unwatched : assocGet pool.interest fd = none)
      (made : LzLib.Socket.accepted pool fd handler data true false = some t) : Start t
  | connecting {pool : EventPool} {fd : Int} {handler data : Addr} {t : Transport}
      (live : pool.regNull = false) (valid : fd ≠ -1) (unregistered : slotsOf pool.reg fd = [])
      (unwatched : assocGet pool.interest fd = none)
      (made : LzLib.Socket.connecting pool fd handler data true false = some t) : Start t

theorem start_tended {t : Transport} (h : Start t) : Tended t := by
  cases h with
  | accepted live valid unregistered unwatched made =>
      obtain ⟨r, hr, rfl⟩ := Option.map_eq_some_iff.mp made
      obtain ⟨r', hr', hw⟩ := eventRegister_watched live unregistered unwatched _ _ 1 0
      obtain rfl : r = r' := Option.some.inj (hr.symm.trans hr')
      exact fun _ => ⟨valid, ⟨_, hw, fun hne => absurd rfl hne⟩, fun e he => (List.not_mem_nil he).elim⟩
  | connecting live valid unregistered unwatched made =>
      obtain ⟨r, hr, rfl⟩ := Option.map_eq_some_iff.mp made
      obtain ⟨r', hr', hw⟩ := eventRegister_watched live unregistered unwatched _ _ 1 1
      obtain rfl : r = r' := Option.some.inj (hr.symm.trans hr')
      exact fun _ => ⟨valid, ⟨_, hw, fun hne => absurd rfl hne⟩, fun e he => (List.not_mem_nil he).elim⟩

theorem transport_run_tended {t₀ t : Transport} (hs : Start t₀) {ops : List TransportOp}
    (hl : transport.Legal t₀ ops) (hrun : transport.run t₀ ops = some t) : Tended t :=
  transport.run_safe (fun _ _ _ h hop ht => transportStep_tended h hop ht) (start_tended hs) hl hrun

/-- **The meaning of a successful submit, and exactly when it holds**: in every
state that a run without a failed direct write reaches, a submission does
what returning 0 should mean if and only if its own direct write does not
fail. -/
theorem submit_meaning {t₀ t : Transport} (hs : Start t₀) {ops : List TransportOp}
    (hl : transport.Legal t₀ ops) (hrun : transport.run t₀ ops = some t) (m : Message)
    (hcount : m.vector.length ≤ maxIovec - 2) (script : List WriteEvent) (room : Bool) :
    ∃ r, socketSubmit t m script room false = some r ∧
      (Meaning t m r ↔ ¬ FailsDirect t m script room) := by
  have htended := transport_run_tended hs hl hrun
  by_cases hfail : FailsDirect t m script room
  · obtain ⟨r, hr, -⟩ := socketSubmit_failsDirect hcount hfail
    exact ⟨r, hr, fun hm => absurd hm (not_meaning_of_failsDirect hcount hfail hr),
      fun hn => absurd hfail hn⟩
  · obtain ⟨r, hr, -, hm⟩ := socketSubmit_tended htended hcount hfail
    exact ⟨r, hr, fun _ => hfail, fun _ => hm⟩

theorem acceptedFive_start : Start acceptedFive := by
  have made : accepted (eventPoolNew 16) 5 1 2 true false = some acceptedFive := by decide
  refine .accepted ?_ ?_ ?_ ?_ made
  · rfl
  · decide
  · rfl
  · rfl

/-- A message without payload. -/
def onlyHeader : Message := ⟨20, [7], [], some 21⟩

/-- One message half written, one queued behind it. -/
def queuedSubmits : List TransportOp :=
  [.submit threePieces [.take 5, .again] true, .submit onlyHeader [] true]

theorem submit_meaning_queuedSubmits :
    ∃ t, transport.run acceptedFive queuedSubmits = some t ∧
      ∃ r, socketSubmit t onlyHeader [.take 3] true false = some r ∧
        (Meaning t onlyHeader r ↔ ¬ FailsDirect t onlyHeader [.take 3] true) := by
  have hruns : (transport.run acceptedFive queuedSubmits).isSome = true := by decide +kernel
  obtain ⟨t, ht⟩ := Option.isSome_iff_exists.mp hruns
  have hfirst : ∀ s, ¬ FailsDirect s threePieces [.take 5, .again] true :=
    fun _ hf => absurd hf.2.2.2 (by decide)
  have hsecond : ∀ s, ¬ FailsDirect s onlyHeader [] true :=
    fun _ hf => absurd hf.2.2.2 (by decide)
  have hcount : threePieces.vector.length ≤ maxIovec - 2 := by decide
  have hl : transport.Legal acceptedFive queuedSubmits :=
    ⟨⟨hcount, hfirst _⟩, fun s _ => ⟨⟨Nat.zero_le _, hsecond s⟩, fun _ _ => trivial⟩⟩
  exact ⟨t, ht, submit_meaning acceptedFive_start hl ht onlyHeader (Nat.zero_le _) [.take 3] true⟩

/-- What a failed direct write leaves: 0 returned, the connection still up,
nothing sent, one failed entry, and POLLOUT off. -/
theorem failedWrite_reported :
    Start acceptedFive ∧ ∃ r, socketSubmit acceptedFive onlyHeader [.fail] true false = some r ∧
      r.2 = 0 ∧ r.1.connected = 1 ∧ r.1.sent = [] ∧ r.1.ioq.map Ioq.pendingCount = [-1] ∧
      pollOutEnabled r.1.pool r.1.sock = false ∧ ¬ Meaning acceptedFive onlyHeader r := by
  have hfail : FailsDirect acceptedFive onlyHeader [.fail] true := by
    refine ⟨rfl, rfl, rfl, ?_⟩
    decide
  have hruns : (socketSubmit acceptedFive onlyHeader [.fail] true false).isSome = true := by
    decide +kernel
  obtain ⟨r, hr⟩ := Option.isSome_iff_exists.mp hruns
  have hnot := not_meaning_of_failsDirect (Nat.zero_le _) hfail hr
  refine ⟨acceptedFive_start, r, hr, ?_⟩
  cases hr
  exact ⟨rfl, rfl, rfl, rfl, rfl, hnot⟩

end LzLib.Socket
