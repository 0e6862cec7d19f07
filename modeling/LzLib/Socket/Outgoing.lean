/-
  LzLib.Socket.Outgoing
  ─────────────────────
  **THE OUTGOING STREAM KEEPS ITS BYTES.**

  Whatever `writev` answers, the bytes the kernel has accepted, followed by
  what the queue still has to send, are the frames of the successful
  submissions in their order.  One entry conserves its bytes
  (`ioqChurnEntry_spec`), so does the loop over the queue
  (`churnLoop_spec`), and `outgoing_stream` is the statement over all runs.

  An entry whose write failed keeps its pieces but has a pending count of
  -1: its next write is refused, so it stays at the head of the queue.
-/
import LzLib.Event.Registry
import LzLib.Foundation.Runs
import LzLib.Socket.OutgoingDef
import LzLib.Socket.Rwv

namespace LzLib.Socket

open LzLib.Foundation
open LzLib.Event

/-! ## §1. Frames and the bytes still to send. -/

/-- `header || buf || payload`. -/
def Message.frame (m : Message) : Bytes :=
  socketHeader m.buf.length (iovLength m.vector) ++ m.buf ++ m.vector.flatten

/-- What an entry still has to send. -/
def Ioq.unsent (e : Ioq) : Bytes := gather e.pendingVector

/-- What the queue still has to send. -/
def unsent (ioq : List Ioq) : Bytes := ioq.flatMap Ioq.unsent

/-- The count of the entry is the number of its pieces: nothing has failed. -/
def Ioq.Open (e : Ioq) : Prop := e.pendingCount = e.pendingVector.length

/-- The pieces of an entry are in their buffers, and the count is theirs
unless a write has failed. -/
structure Ioq.Sound (e : Ioq) : Prop where
  readable : Readable e.pendingVector
  trim : Trim e.pendingVector
  count : e.Open ∨ e.pendingCount = -1

@[simp] theorem unsent_nil : unsent [] = [] := rfl

@[simp] theorem unsent_cons (e : Ioq) (q : List Ioq) : unsent (e :: q) = e.unsent ++ unsent q := rfl

theorem unsent_append (q q' : List Ioq) : unsent (q ++ q') = unsent q ++ unsent q' :=
  List.flatMap_append

theorem readable_whole (vector : List Bytes) : Readable (vector.map IoVec.whole) := by
  intro iov hiov
  obtain ⟨bs, -, rfl⟩ := List.mem_map.mp hiov
  show 0 + bs.length ≤ bs.length
  omega

theorem gather_whole (vector : List Bytes) : gather (vector.map IoVec.whole) = vector.flatten := by
  induction vector with
  | nil => rfl
  | cons bs vector ih => rw [List.map_cons, gather_cons, IoVec.bytes_whole, ih, List.flatten_cons]

/-- A new entry has its frame to send. -/
theorem ioqNew_unsent (m : Message) : (ioqNew m).unsent = m.frame := by
  show gather (_ :: _ :: m.vector.map IoVec.whole) = _
  rw [gather_cons, gather_cons, gather_whole, IoVec.bytes_whole, IoVec.bytes_whole, Message.frame,
    List.append_assoc]

theorem ioqNew_open (m : Message) : (ioqNew m).Open := rfl

theorem ioqNew_sound (m : Message) : (ioqNew m).Sound where
  readable := readable_whole (socketHeader m.buf.length (iovLength m.vector) :: m.buf :: m.vector)
  trim := by
    show 0 < (socketHeader m.buf.length (iovLength m.vector)).length
    rw [socketHeader_length]
    omega
  count := Or.inl rfl

/-! ## §2. One entry. -/

/-- What churning an entry does: only the bytes accepted and the log change,
the kernel has taken a front of the entry, and an entry that stays says how
its write ended. -/
structure Churns (t : Transport) (e : Ioq) (c : Churned) : Prop where
  same : c.transport = { t with sent := c.transport.sent, log := c.transport.log }
  outcome : match c.entry with
    | none => c.ret = 0 ∧ c.transport.sent = t.sent ++ e.unsent
    | some e' => e'.Sound ∧ Taken t.sent e.unsent c.transport.sent e'.unsent ∧
        c.ret = e'.pendingCount ∧ (c.ret = -1 ∨ 0 < c.ret ∧ e'.Open)

theorem ioqChurnEntry_spec {e : Ioq} (he : e.Sound) (t : Transport) (script : List WriteEvent) :
    ∃ c, ioqChurnEntry t e script = some c ∧ Churns t e c := by
  rcases he.count with hopen | hfailed
  · have hopen : e.pendingCount = e.pendingVector.length := hopen
    obtain ⟨out, hout, ⟨htaken, hread, htrim⟩, hret⟩ :=
      socketWritev_takes he.readable he.trim script t.sent
    rw [ioqChurnEntry, hopen, hout, Option.map_some]
    refine ⟨_, rfl, ?_⟩
    by_cases h0 : out.pendingCount = 0
    · -- written in full
      simp only [if_pos h0]
      refine ⟨rfl, rfl, ?_⟩
      have hnil : out.pendingVector = [] := by
        rcases hret with h | h
        · exact List.length_eq_zero_iff.mp (by omega)
        · omega
      -- nothing is left, so the whole frame is in the stream
      have hall := htaken.conserved
      rw [hnil, gather_nil, List.append_nil] at hall
      exact hall
    · simp only [if_neg h0]
      refine ⟨rfl, ⟨hread, htrim, ?_⟩, htaken, rfl, ?_⟩
      · exact hret
      · -- the entry stays: some vectors are pending, or the call has failed
        rcases hret with h | h
        · exact Or.inr ⟨by show 0 < out.pendingCount; omega, h⟩
        · exact Or.inl h
  · -- a count of -1 is refused
    have hneg : e.pendingCount < 0 := by omega
    rw [ioqChurnEntry, socketWritev, socketRwv_neg _ _ _ _ _ hneg, Option.map_some]
    have hnone : Taken t.sent e.unsent t.sent e.unsent :=
      ⟨0, by rw [List.take_zero, List.append_nil], by rw [List.drop_zero]⟩
    exact ⟨_, rfl, rfl, ⟨he.readable, he.trim, Or.inr rfl⟩, hnone, rfl, Or.inl rfl⟩

/-- An unfailed entry fails exactly when a system call of its write does. -/
theorem ioqChurnEntry_failed_iff {e : Ioq} (he : e.Sound) (hopen : e.Open) {t : Transport}
    {script : List WriteEvent} {c : Churned} (h : ioqChurnEntry t e script = some c) :
    c.ret = -1 ↔ hitsFail script e.unsent.length = true := by
  have hopen : e.pendingCount = e.pendingVector.length := hopen
  obtain ⟨out, hout, rfl⟩ := Option.map_eq_some_iff.mp h
  rw [hopen] at hout
  rw [Ioq.unsent, gather_length he.readable, ← socketWritev_failed_iff he.trim hout]
  by_cases h0 : out.pendingCount = 0
  · simp [h0]
  · simp [h0]

theorem ioqChurnEntry_churns {e : Ioq} (he : e.Sound) {t : Transport} {script : List WriteEvent}
    {c : Churned} (hc : ioqChurnEntry t e script = some c) : Churns t e c := by
  obtain ⟨c', hc', hchurns⟩ := ioqChurnEntry_spec he t script
  rw [hc, Option.some.injEq] at hc'
  exact hc' ▸ hchurns

/-! ## §3. The queue. -/

/-- What churning a queue `q` does. -/
structure ChurnsQueue (t : Transport) (q : List Ioq) (r : Transport × Int) : Prop where
  same : r.1 = { t with sent := r.1.sent, log := r.1.log, ioq := r.1.ioq }
  sound : ∀ e ∈ r.1.ioq, e.Sound
  conserved : r.1.sent ++ unsent r.1.ioq = t.sent ++ unsent q
  unfailed : (∀ e ∈ q, e.Open) → r.2 ≠ -1 → ∀ e ∈ r.1.ioq, e.Open
  empty : q = [] → r.1.ioq = []

theorem churnLoop_spec {q : List Ioq} (hq : ∀ e ∈ q, e.Sound) (t : Transport)
    (scripts : List (List WriteEvent)) (ret : Int) :
    ∃ r, churnLoop t q scripts ret = some r ∧ ChurnsQueue t q r := by
  induction q generalizing t scripts ret with
  | nil => exact ⟨_, rfl, rfl, fun e he => (List.not_mem_nil he).elim, rfl, fun _ _ e he =>
      (List.not_mem_nil he).elim, fun _ => rfl⟩
  | cons e rest ih =>
      have hrest : ∀ e' ∈ rest, e'.Sound := fun e' he' => hq e' (List.mem_cons_of_mem _ he')
      obtain ⟨c, hc, hsame, houtcome⟩ :=
        ioqChurnEntry_spec (hq e List.mem_cons_self) t (scripts.headD [])
      rw [churnLoop, hc, Option.bind_some]
      cases hentry : c.entry with
      | none =>
          -- the head is gone, the loop goes on behind it
          rw [hentry] at houtcome
          obtain ⟨r, hr, hspec⟩ := ih hrest c.transport scripts.tail c.ret
          refine ⟨r, hr, ?_, hspec.sound, ?_, ?_, fun hnil => by cases hnil⟩
          · rw [hspec.same, hsame]
          · rw [hspec.conserved, houtcome.2, unsent_cons, List.append_assoc]
          · exact fun hopen => hspec.unfailed fun e' he' => hopen e' (List.mem_cons_of_mem _ he')
      | some e' =>
          rw [hentry] at houtcome
          obtain ⟨hsound, htaken, -, hret⟩ := houtcome
          have hsent := htaken.conserved
          refine ⟨_, rfl, by show _ = _; rw [hsame], ?_, ?_, ?_, fun hnil => by cases hnil⟩
          · intro x hx
            rcases List.mem_cons.mp hx with rfl | hx
            · exact hsound
            · exact hrest x hx
          · show c.transport.sent ++ (e'.unsent ++ unsent rest) = t.sent ++ (e.unsent ++ unsent rest)
            rw [← List.append_assoc, hsent, List.append_assoc]
          · intro hopen hne x hx
            rcases List.mem_cons.mp hx with rfl | hx
            · exact (hret.resolve_left hne).2
            · exact hopen x (List.mem_cons_of_mem _ hx)

/-! ## §4. Submissions and events. -/

/-- Selecting changes the pool and `idx` only. -/
theorem selectOut_total {t : Transport} (h : t.pool.regNull = false) (pollOut : Int)
    (refused : Bool) : ∃ t', t.selectOut pollOut refused = some t' ∧
      t' = { t with pool := t'.pool, idx := t'.idx } ∧ t'.pool.regNull = false := by
  obtain ⟨r, hr, hlive⟩ := eventSelectOn_total h t.sock t.idx (-1) pollOut refused
  exact ⟨_, by rw [Transport.selectOut, hr, Option.map_some], rfl, hlive⟩

/-- Between two calls: a sound queue, and the event registry still there. -/
structure Queued (t : Transport) : Prop where
  sound : ∀ e ∈ t.ioq, e.Sound
  live : t.pool.regNull = false

/-- The message is written directly: connected, with no entry waiting. -/
structure Direct (t : Transport) (m : Message) (script : List WriteEvent) (room : Bool) (c : Churned) :
    Prop where
  connected : t.connected = 1
  room : room = true
  empty : t.ioq = []
  churned : ioqChurnEntry { t with log := t.log ++ m.iobref.toList.map .refIobref } (ioqNew m) script
    = some c

/-- **What `socket_submit` does**, case by case. -/
inductive Submits (t : Transport) (m : Message) (script : List WriteEvent) (room refused : Bool) :
    Transport × Int → Prop where
  /-- Refused, before anything has happened. -/
  | refuses (hwhy : t.connected ≠ 1 ∨ room = false) : Submits t m script room refused (t, -1)
  /-- Behind the entries that wait. -/
  | behind (hconn : t.connected = 1) (hq : t.ioq ≠ []) : Submits t m script room refused
      ({ t with log := t.log ++ m.iobref.toList.map .refIobref, ioq := t.ioq ++ [ioqNew m] }, 0)
  /-- Written in full. -/
  | written {c : Churned} (D : Direct t m script room c) (hentry : c.entry = none) :
      Submits t m script room refused (c.transport, c.ret)
  /-- Written in part: the rest waits for POLLOUT. -/
  | waits {c : Churned} {e : Ioq} {t' : Transport} (D : Direct t m script room c)
      (hentry : c.entry = some e) (hret : c.ret > 0)
      (hsel : ({ c.transport with ioq := [e] } : Transport).selectOut 1 refused = some t') :
      Submits t m script room refused (t', 0)
  /-- The write has failed: what is left waits, and nothing wakes it. -/
  | stuck {c : Churned} {e : Ioq} (D : Direct t m script room c) (hentry : c.entry = some e)
      (hret : ¬ c.ret > 0) : Submits t m script room refused ({ c.transport with ioq := [e] }, 0)

theorem socketSubmit_cases {t : Transport} {m : Message} {script : List WriteEvent}
    {room refused : Bool} {r : Transport × Int} (h : socketSubmit t m script room refused = some r) :
    Submits t m script room refused r := by
  unfold socketSubmit at h
  -- not connected, or no room for the entry
  split at h
  next hconn =>
    cases h
    exact .refuses (Or.inl hconn)
  next hconn =>
  split at h
  next hroom =>
    cases h
    exact .refuses (Or.inr hroom)
  next hroom =>
  split at h
  · cases h
  have hconn : t.connected = 1 := not_not.mp hconn
  simp only at h
  split at h
  next hq =>
    -- the queue is empty: the message is written at once
    obtain ⟨c, hc, h⟩ := Option.bind_eq_some_iff.mp h
    have D : Direct t m script room c := ⟨hconn, Bool.eq_true_of_not_eq_false hroom, hq, hc⟩
    cases hentry : c.entry with
    | none =>
        rw [hentry] at h
        cases h
        exact .written D hentry
    | some e =>
        rw [hentry] at h
        simp only at h
        split at h
        next hret =>
          obtain ⟨t', hsel, rfl⟩ := Option.map_eq_some_iff.mp h
          exact .waits D hentry hret hsel
        next hret =>
          cases h
          exact .stuck D hentry hret
  next hq =>
    cases h
    exact .behind hconn hq

/-- Within the bound that is asserted, `socket_submit` returns. -/
theorem socketSubmit_returns {t : Transport} (hlive : t.connected = 1 → t.pool.regNull = false)
    {m : Message} (hcount : m.vector.length ≤ maxIovec - 2) (script : List WriteEvent)
    (room refused : Bool) : ∃ r, socketSubmit t m script room refused = some r := by
  unfold socketSubmit
  by_cases hconn : t.connected ≠ 1
  · rw [if_pos hconn]
    exact ⟨_, rfl⟩
  rw [if_neg hconn]
  by_cases hroom : room = false
  · rw [if_pos hroom]
    exact ⟨_, rfl⟩
  rw [if_neg hroom, if_neg (by omega)]
  simp only
  by_cases hq : t.ioq = []
  · rw [if_pos hq]
    obtain ⟨c, hc, hsame, -⟩ := ioqChurnEntry_spec (ioqNew_sound m)
      { t with log := t.log ++ m.iobref.toList.map .refIobref } script
    rw [hc, Option.bind_some]
    cases hentry : c.entry with
    | none => exact ⟨_, rfl⟩
    | some e =>
        have hlive' : ({ c.transport with ioq := [e] } : Transport).pool.regNull = false := by
          show c.transport.pool.regNull = false
          rw [hsame]
          exact hlive (not_not.mp hconn)
        simp only
        split
        · obtain ⟨t', ht', -⟩ := selectOut_total hlive' 1 refused
          exact ⟨(t', 0), by rw [ht', Option.map_some]⟩
        · exact ⟨_, rfl⟩
  · rw [if_neg hq]
    exact ⟨_, rfl⟩

section

variable {t : Transport} {m : Message} {script : List WriteEvent} {room refused : Bool}
  {r : Transport × Int}

/-- The stream has the frame at its end, unless the message was refused. -/
theorem Submits.stream (h : Submits t m script room refused r) :
    r.1.sent ++ unsent r.1.ioq = t.sent ++ unsent t.ioq ++ if r.2 = 0 then m.frame else [] := by
  -- an entry that stays has the rest of the frame
  have hrest : ∀ (c : Churned) (e : Ioq), Direct t m script room c → c.entry = some e →
      c.transport.sent ++ unsent [e] = t.sent ++ unsent t.ioq ++ m.frame := by
    intro c e D hentry
    have houtcome := (ioqChurnEntry_churns (ioqNew_sound m) D.churned).outcome
    rw [hentry, ioqNew_unsent] at houtcome
    rw [D.empty, unsent_cons, unsent_nil, List.append_nil, List.append_nil]
    exact houtcome.2.1.conserved
  cases h with
  | refuses hwhy =>
      show _ = _ ++ if (-1 : Int) = 0 then _ else _
      rw [if_neg (by decide), List.append_nil]
  | behind hconn hq =>
      show t.sent ++ unsent (t.ioq ++ [ioqNew m]) = t.sent ++ unsent t.ioq ++ m.frame
      rw [unsent_append, unsent_cons, unsent_nil, ioqNew_unsent, List.append_nil, List.append_assoc]
  | @written c D hentry =>
      obtain ⟨hsame, houtcome⟩ := ioqChurnEntry_churns (ioqNew_sound m) D.churned
      rw [hentry, ioqNew_unsent] at houtcome
      have hempty : c.transport.ioq = [] := by
        rw [hsame]
        exact D.empty
      show c.transport.sent ++ unsent c.transport.ioq = _ ++ if c.ret = 0 then _ else _
      rw [hempty, D.empty, unsent_nil, List.append_nil, List.append_nil, houtcome.1, if_pos rfl]
      exact houtcome.2
  | @waits c e t' D hentry hret hsel =>
      -- selecting leaves the stream alone
      obtain ⟨p, -, rfl⟩ := Option.map_eq_some_iff.mp hsel
      exact hrest c e D hentry
  | @stuck c e D hentry hret => exact hrest c e D hentry

theorem Submits.connected (h : Submits t m script room refused r) (h0 : r.2 = 0) : t.connected = 1 := by
  cases h with
  | refuses hwhy => cases h0
  | behind hconn hq => exact hconn
  | written D hentry => exact D.connected
  | waits D hentry hret hsel => exact D.connected
  | stuck D hentry hret => exact D.connected

/-- The queue stays sound, and the registry there. -/
theorem Submits.queued (h : Submits t m script room refused r) (hq : Queued t) : Queued r.1 := by
  -- what is left of a message is a sound entry
  have hrest : ∀ (c : Churned) (e : Ioq), Direct t m script room c → c.entry = some e →
      Queued { c.transport with ioq := [e] } := by
    intro c e D hentry
    obtain ⟨hsame, houtcome⟩ := ioqChurnEntry_churns (ioqNew_sound m) D.churned
    rw [hentry] at houtcome
    refine ⟨?_, ?_⟩
    · intro x hx
      rw [List.mem_singleton.mp hx]
      exact houtcome.1
    · show c.transport.pool.regNull = false
      rw [hsame]
      exact hq.live
  cases h with
  | refuses hwhy => exact hq
  | behind hconn hne =>
      refine ⟨?_, hq.live⟩
      intro e he
      rcases List.mem_append.mp he with he | he
      · exact hq.sound e he
      · rw [List.mem_singleton.mp he]
        exact ioqNew_sound m
  | @written c D hentry =>
      have hsame := (ioqChurnEntry_churns (ioqNew_sound m) D.churned).same
      refine ⟨?_, ?_⟩
      · rw [hsame]
        exact hq.sound
      · rw [hsame]
        exact hq.live
  | @waits c e t' D hentry hret hsel =>
      have hqueued := hrest c e D hentry
      obtain ⟨t₁, ht₁, hsame, hlive⟩ := selectOut_total hqueued.live 1 refused
      rw [hsel, Option.some.injEq] at ht₁
      subst ht₁
      refine ⟨?_, hlive⟩
      rw [hsame]
      exact hqueued.sound
  | @stuck c e D hentry hret => exact hrest c e D hentry

end

/-- **Submitting** appends the frame to the stream exactly when it returns 0. -/
theorem socketSubmit_stream {t : Transport} (h : Queued t) {m : Message}
    (hcount : m.vector.length ≤ maxIovec - 2) (script : List WriteEvent) (room refused : Bool) :
    ∃ r, socketSubmit t m script room refused = some r ∧ Queued r.1 ∧
      r.1.sent ++ unsent r.1.ioq
        = t.sent ++ unsent t.ioq ++ if r.2 = 0 then m.frame else [] := by
  obtain ⟨r, hr⟩ := socketSubmit_returns (fun _ => h.live) hcount script room refused
  have hcases := socketSubmit_cases hr
  exact ⟨r, hr, hcases.queued h, hcases.stream⟩

theorem disconnect_same (t : Transport) :
    disconnect t = { t with connected := (disconnect t).connected } := by
  unfold disconnect
  split <;> rfl

/-- What `__socket_ioq_churn` does to the stream. -/
theorem ioqChurn_stream {t : Transport} (h : Queued t) (scripts : List (List WriteEvent))
    (refused : Bool) : ∃ r, ioqChurn t scripts refused = some r ∧ Queued r.1 ∧
      r.1.sent ++ unsent r.1.ioq = t.sent ++ unsent t.ioq := by
  obtain ⟨r, hr, hspec⟩ := churnLoop_spec h.sound t scripts 0
  have hlive : r.1.pool.regNull = false := by
    rw [hspec.same]
    exact h.live
  rw [ioqChurn, hr, Option.bind_some]
  split
  · obtain ⟨t', ht', hsame', hlive'⟩ := selectOut_total hlive 0 refused
    rw [ht', Option.map_some]
    refine ⟨_, rfl, ⟨?_, hlive'⟩, ?_⟩
    · show ∀ e ∈ t'.ioq, _
      rw [hsame']
      exact hspec.sound
    · show t'.sent ++ unsent t'.ioq = _
      rw [hsame']
      exact hspec.conserved
  · exact ⟨r, rfl, ⟨hspec.sound, hlive⟩, hspec.conserved⟩

/-- **A POLLOUT event** moves bytes from the queue to the kernel, in order. -/
theorem eventPollOut_stream {t : Transport} (h : Queued t) (scripts : List (List WriteEvent))
    (refused : Bool) : ∃ r, eventPollOut t scripts refused = some r ∧ Queued r.1 ∧
      r.1.sent ++ unsent r.1.ioq = t.sent ++ unsent t.ioq := by
  rw [eventPollOut]
  split
  · obtain ⟨r, hr, hqueued, hstream⟩ := ioqChurn_stream h scripts refused
    rw [hr, Option.map_some]
    split
    · refine ⟨_, rfl, ?_, ?_⟩
      · show Queued (disconnect r.1)
        rw [disconnect_same]
        exact ⟨hqueued.sound, hqueued.live⟩
      · show (disconnect r.1).sent ++ unsent (disconnect r.1).ioq = _
        rw [disconnect_same]
        exact hstream
    · exact ⟨r, rfl, hqueued, hstream⟩
  · exact ⟨_, rfl, h, rfl⟩

/-! ## §5. Runs. -/

/-- What a caller or the event loop asks of the outgoing side. -/
inductive OutOp where
  | submit (m : Message) (script : List WriteEvent) (room refused : Bool)
  | pollOut (scripts : List (List WriteEvent)) (refused : Bool)

/-- A transport, with the frames of the submissions that returned 0. -/
structure Outgoing where
  transport : Transport
  frames : List Bytes

def outStep (s : Outgoing) : OutOp → Option Outgoing
  | .submit m script room refused =>
      (socketSubmit s.transport m script room refused).map fun r =>
        ⟨r.1, if r.2 = 0 then s.frames ++ [m.frame] else s.frames⟩
  | .pollOut scripts refused =>
      (eventPollOut s.transport scripts refused).map fun r => ⟨r.1, s.frames⟩

/-- The outgoing side; callers keep to `MAX_IOVEC - 2` payload pieces. -/
def outgoing : Component Outgoing OutOp where
  step := outStep
  allowed _ op := match op with
    | .submit m _ _ _ => m.vector.length ≤ maxIovec - 2
    | .pollOut _ _ => True

/-- The stream so far is the frames so far. -/
structure StreamInv (start : Bytes) (s : Outgoing) : Prop where
  queued : Queued s.transport
  stream : start ++ s.frames.flatten = s.transport.sent ++ unsent s.transport.ioq

theorem outStep_inv (start : Bytes) (s : Outgoing) (op : OutOp) (h : StreamInv start s)
    (hop : outgoing.allowed s op) : ∃ s', outgoing.step s op = some s' ∧ StreamInv start s' := by
  cases op with
  | submit m script room refused =>
      obtain ⟨r, hr, hqueued, hstream⟩ := socketSubmit_stream h.queued hop script room refused
      refine ⟨_, by show Option.map _ (socketSubmit _ _ _ _ _) = _; rw [hr, Option.map_some],
        hqueued, ?_⟩
      show start ++ (if r.2 = 0 then s.frames ++ [m.frame] else s.frames).flatten = _
      rw [hstream, ← h.stream]
      split
      · rw [List.flatten_append, List.flatten_singleton, List.append_assoc]
      · rw [List.append_nil]
  | pollOut scripts refused =>
      obtain ⟨r, hr, hqueued, hstream⟩ := eventPollOut_stream h.queued scripts refused
      refine ⟨_, by show Option.map _ (eventPollOut _ _ _) = _; rw [hr, Option.map_some],
        hqueued, ?_⟩
      rw [hstream]
      exact h.stream

theorem outgoing_run_inv {t : Transport} (hq : t.ioq = []) (hpool : t.pool.regNull = false)
    {ops : List OutOp} (hl : outgoing.Legal ⟨t, []⟩ ops) :
    ∃ s, outgoing.run ⟨t, []⟩ ops = some s ∧ StreamInv t.sent s := by
  have hstart : StreamInv t.sent ⟨t, []⟩ :=
    ⟨⟨fun e he => by rw [hq] at he; exact (List.not_mem_nil he).elim, hpool⟩,
      by rw [hq, unsent_nil]; rfl⟩
  exact outgoing.run_inv (outStep_inv t.sent) ops _ hstart hl

/-- **Outgoing stream integrity**: after any run of submissions and POLLOUT
events, whatever the writes answered, the bytes accepted by the kernel
followed by the bytes still queued are the frames of the submissions that
returned 0, in submit order; an empty queue means that every frame was
written in full.  A script may end after any system call, so this is the
stream at every moment. -/
theorem outgoing_stream (t : Transport) (hq : t.ioq = []) (hpool : t.pool.regNull = false)
    (ops : List OutOp) (hl : outgoing.Legal ⟨t, []⟩ ops) :
    ∃ s, outgoing.run ⟨t, []⟩ ops = some s ∧
      t.sent ++ s.frames.flatten = s.transport.sent ++ unsent s.transport.ioq ∧
      s.transport.sent <+: t.sent ++ s.frames.flatten ∧
      (s.transport.ioq = [] → s.transport.sent = t.sent ++ s.frames.flatten) := by
  obtain ⟨s, hs, hinv⟩ := outgoing_run_inv hq hpool hl
  refine ⟨s, hs, hinv.stream, ⟨_, hinv.stream.symm⟩, fun hempty => ?_⟩
  rw [hinv.stream, hempty, unsent_nil, List.append_nil]

/-- A message of three payload pieces, one of them empty. -/
def threePieces : Message := ⟨10, [1, 2], [[3], [], [4, 5]], none⟩

/-- The message above written in parts, a second one queued behind it, then
the queue drained. -/
def partialWrites : List OutOp :=
  [.submit threePieces [.take 5, .intr, .take 8, .again] true false,
    .submit ⟨20, [7], [], some 21⟩ [] true false,
    .pollOut [[.take 1, .take 0]] false,
    .pollOut [[.take 100], [.take 6, .take 100]] false]

theorem outgoing_stream_partialWrites :
    ∃ s, outgoing.run ⟨acceptedFive, []⟩ partialWrites = some s ∧
      acceptedFive.sent ++ s.frames.flatten = s.transport.sent ++ unsent s.transport.ioq ∧
      s.transport.sent <+: acceptedFive.sent ++ s.frames.flatten ∧
      (s.transport.ioq = [] → s.transport.sent = acceptedFive.sent ++ s.frames.flatten) := by
  have hcount : threePieces.vector.length ≤ maxIovec - 2 := by decide
  exact outgoing_stream acceptedFive rfl rfl partialWrites
    ⟨hcount, fun _ _ => ⟨Nat.zero_le _, fun _ _ => ⟨trivial, fun _ _ => ⟨trivial, fun _ _ => trivial⟩⟩⟩⟩

end LzLib.Socket
