/-
  LzLib.Socket.Ownership
  ──────────────────────
  **WHO RELEASES A BUFFER, AND HOW OFTEN.**

  Every locked section of a connection keeps both accounts (`Tracked`),
  whatever the other threads do in between; the event pool's reference is
  given back only after the reset.  So when the last reference goes nothing
  is left in the transport, and every buffer has been released as often as
  it came: `buffer_ownership`.
-/
import LzLib.Socket.Accounts
import LzLib.Socket.Framing

namespace LzLib.Socket

open LzLib.Foundation
open LzLib.Event

/-! ## §1. The invariant of a connection. -/

/-- **Both accounts, the reset and the references.** -/
structure Tracked (c : Connection) : Prop where
  outgo : Outgo (c.accepted.map Message.goods) c.transport
  income : Income c.allocated c.received c.transport
  /-- Nothing incoming is released before the reset. -/
  kept : c.transport.sock ≠ -1 → freedHdrs c.transport.log = [] ∧ droppedIobufs c.transport.log = []
  /-- The next event can go on, or this one ends the connection. -/
  between : c.transport.reader.Between ∨ ∃ ready ret, c.phase = .pollErr ready ret ∧ ret < 0
  reset : c.transport.sock = -1 → c.transport.ioq = [] ∧ c.transport.incoming = .zero ∧
    c.transport.connected = notConnected ∧ (c.phase = .idle ∨ c.phase = .unref)
  unref : c.phase = .unref → c.transport.sock = -1
  /-- The event pool has a reference until it is given back after the reset. -/
  count : c.refcount = c.held + if c.phase = .unref ∨ c.transport.sock ≠ -1 then 1 else 0
  destroyed : c.destroyed = true ↔ c.refcount = 0

section Steps

variable {c : Connection}

/-- A connection that is up is not reset. -/
theorem Tracked.open_of_connected (h : Tracked c) (hconn : c.transport.connected = 1) :
    c.transport.sock ≠ -1 := by
  intro hsock
  have hnot := (h.reset hsock).2.2.1
  rw [hconn] at hnot
  exact absurd hnot (by decide)

/-- A step of the outgoing half. -/
theorem Tracked.sends (h : Tracked c) {t' : Transport} {brought left : List Goods}
    (hs : Sends c.transport t' brought left) {accepted' : List Message}
    (haccepted : accepted'.map Message.goods = c.accepted.map Message.goods ++ brought)
    (hclosed : c.transport.sock = -1 → t'.ioq = c.transport.ioq ∧ t'.connected = c.transport.connected)
    (rejected' : List Message) :
    Tracked { c with transport := t', accepted := accepted', rejected := rejected' } where
  outgo := by
    rw [haccepted]
    exact hs.outgo h.outgo
  income := by
    -- the incoming half is the old one
    have hincoming : t'.incoming = c.transport.incoming := congrArg Reader.incoming hs.reader
    constructor
    · show _ ++ freedHdrs t'.log ++ t'.incoming.mem.hdrs = _
      rw [hs.income.1, hincoming]
      exact h.income.hdrs
    · show _ ++ droppedIobufs t'.log ++ t'.incoming.mem.iobufs = _
      rw [hs.income.2, hincoming]
      exact h.income.iobufs
  kept := by
    show t'.sock ≠ -1 → freedHdrs t'.log = [] ∧ droppedIobufs t'.log = []
    rw [hs.sock, hs.income.1, hs.income.2]
    exact h.kept
  between := by
    show t'.reader.Between ∨ _
    rw [hs.reader]
    exact h.between
  reset := by
    intro hsock
    -- after the reset nothing is sent
    have hsock : c.transport.sock = -1 := hs.sock ▸ hsock
    obtain ⟨hioq, hconn⟩ := hclosed hsock
    obtain ⟨hempty, hzero, hnot, hphase⟩ := h.reset hsock
    have hincoming : t'.incoming = c.transport.incoming := congrArg Reader.incoming hs.reader
    exact ⟨hioq.trans hempty, hincoming.trans hzero, hconn.trans hnot, hphase⟩
  unref hphase := hs.sock.trans (h.unref hphase)
  count := by
    show c.refcount = c.held + if c.phase = .unref ∨ t'.sock ≠ -1 then 1 else 0
    rw [hs.sock]
    exact h.count
  destroyed := h.destroyed

/-- The event thread goes on without an error, on a connection that is not
reset. -/
theorem Tracked.goOn (h : Tracked c) (hopen : c.transport.sock ≠ -1) (hbetween : c.transport.reader.Between)
    {phase' : Phase} (hphase : phase' ≠ .unref) : Tracked { c with phase := phase' } where
  outgo := h.outgo
  income := h.income
  kept := h.kept
  between := Or.inl hbetween
  reset hsock := absurd hsock hopen
  unref hunref := absurd hunref hphase
  count := by
    have hcount := h.count
    rw [if_pos (Or.inr hopen)] at hcount
    show c.refcount = c.held + if phase' = .unref ∨ c.transport.sock ≠ -1 then 1 else 0
    rw [if_pos (Or.inr hopen)]
    exact hcount
  destroyed := h.destroyed

theorem submit_tracked (h : Tracked c) {m : Message} {script : List WriteEvent} {room refused : Bool}
    {r : Transport × Int} (hr : socketSubmit c.transport m script room refused = some r) :
    Tracked (c.submitted m r.1 r.2) := by
  rcases socketSubmit_sends hr with rfl | ⟨hconn, h0, left, hsends⟩
  · -- refused: only written down
    exact h.sends (Sends.refl c.transport) (List.append_nil _).symm (fun _ => ⟨rfl, rfl⟩) _
  · -- accepted: its buffer and its iobref are the transport's from here
    have haccepted : (c.accepted ++ [m]).map Message.goods = c.accepted.map Message.goods ++ [m.goods] :=
      List.map_append
    unfold Connection.submitted
    rw [if_pos h0]
    exact h.sends hsends haccepted (fun hsock => absurd hsock (h.open_of_connected hconn)) _

theorem zero_between (inbound : Bytes) : Reader.Between ⟨inbound, .zero⟩ where
  early _ := ⟨rfl, rfl⟩
  state := Or.inl rfl

/-- **Receiving** hands over what is in `priv->incoming`. -/
theorem receive_tracked (h : Tracked c) (given : Bool) :
    Tracked { c with
      transport := (socketReceive c.transport given).1
      received := c.received ++ (socketReceive c.transport given).2.toList } := by
  unfold socketReceive
  split
  next hready =>
    have hopen := h.open_of_connected hready.1
    -- before the reset nothing has been released, so what is there was all allocated
    obtain ⟨hhdrs, hiobufs⟩ := h.kept hopen
    exact {
      outgo := ⟨h.outgo.gone, h.outgo.taken⟩
      income := by
        have hincome := h.income
        constructor
        · show receivedHdrs (c.received ++ [_]) ++ freedHdrs c.transport.log ++ [] = _
          rw [← hincome.hdrs, hhdrs, List.append_nil, List.append_nil, List.append_nil, receivedHdrs,
            List.flatMap_append, List.flatMap_singleton]
          rfl
        · show receivedIobufs (c.received ++ [_]) ++ droppedIobufs c.transport.log ++ [] = _
          rw [← hincome.iobufs, hiobufs, List.append_nil, List.append_nil, List.append_nil, receivedIobufs,
            List.flatMap_append, List.flatMap_singleton]
          rfl
      kept := h.kept
      between := Or.inl (zero_between _)
      reset := fun hsock => absurd hsock hopen
      unref := h.unref
      count := h.count
      destroyed := h.destroyed }
  next =>
    dsimp only
    rw [Option.toList_none, List.append_nil]
    exact h

theorem disconnect_tracked (h : Tracked c) : Tracked { c with transport := disconnect c.transport } := by
  refine h.sends (disconnect_sends c.transport) (List.append_nil _).symm ?_ c.rejected
  intro hsock
  unfold disconnect
  rw [if_neg (not_not_intro hsock)]
  exact ⟨rfl, rfl⟩

theorem event_tracked (h : Tracked c) (hidle : c.phase = .idle) (hopen : c.transport.sock ≠ -1) (idx : Int)
    (ready : Ready) :
    Tracked { c with transport := { c.transport with idx }, phase := .connectFinish ready } := by
  have hbetween : c.transport.reader.Between := by
    rcases h.between with hbetween | ⟨ready', ret, hphase, -⟩
    · exact hbetween
    · rw [hidle] at hphase
      cases hphase
  have hsends : Sends c.transport { c.transport with idx } [] [] := (Sends.refl _).congr rfl rfl rfl rfl
  have hidx := h.sends hsends (List.append_nil _).symm (fun _ => ⟨rfl, rfl⟩) c.rejected
  exact hidx.goOn hopen hbetween (by intro e; cases e)

/-- Before the machine is run the place is good to go on from. -/
theorem Tracked.between_of_phase (h : Tracked c) (hphase : ∀ ready ret, c.phase ≠ .pollErr ready ret) :
    c.transport.reader.Between := by
  rcases h.between with hbetween | ⟨ready, ret, herr, -⟩
  · exact hbetween
  · exact absurd herr (hphase ready ret)

/-- While the handler has not come to its end, the connection is not reset. -/
theorem Tracked.open_of_phase (h : Tracked c) (hidle : c.phase ≠ .idle) (hunref : c.phase ≠ .unref) :
    c.transport.sock ≠ -1 := by
  intro hsock
  rcases (h.reset hsock).2.2.2 with hphase | hphase
  · exact hidle hphase
  · exact hunref hphase

/-- The section that reads. -/
theorem pollIn_tracked (h : Tracked c) (hopen : c.transport.sock ≠ -1) (hbetween : c.transport.reader.Between)
    {env : PollIn} {r : Transport × Int} (hr : eventPollIn c.transport env = some r) (ready : Ready) :
    Tracked { c with
      transport := r.1
      phase := .pollErr ready r.2
      allocated := c.allocated ++ machineAllocs env c.transport.reader } := by
  obtain ⟨p, hp, rfl⟩ := Option.map_eq_some_iff.mp hr
  obtain ⟨halloc, hend⟩ := protoStateMachine_allocates hbetween hp
  obtain ⟨hhdrs, hiobufs⟩ := h.kept hopen
  have hincome := h.income
  exact {
    outgo := ⟨h.outgo.gone, h.outgo.taken⟩
    income := by
      constructor
      · show receivedHdrs c.received ++ freedHdrs c.transport.log ++ p.reader.incoming.mem.hdrs = _
        rw [halloc.hdrs, ← List.append_assoc]
        show receivedHdrs c.received ++ freedHdrs c.transport.log ++ c.transport.incoming.mem.hdrs ++ _ = _
        rw [hincome.hdrs, allocHdrs, allocHdrs, allocHdrs, List.filterMap_append]
      · show receivedIobufs c.received ++ droppedIobufs c.transport.log ++ p.reader.incoming.mem.iobufs = _
        rw [halloc.iobufs, ← List.append_assoc]
        show receivedIobufs c.received ++ droppedIobufs c.transport.log ++ c.transport.incoming.mem.iobufs ++ _ = _
        rw [hincome.iobufs, allocIobufs, allocIobufs, allocIobufs, List.filterMap_append]
    kept := h.kept
    between := by
      -- an error goes to the section that ends the connection
      rcases hend with hneg | hbetween'
      · exact Or.inr ⟨ready, p.ret, rfl, hneg⟩
      · exact Or.inl hbetween'
    reset := fun hsock => absurd hsock hopen
    unref := by
      intro e
      cases e
    count := by
      have hcount := h.count
      rw [if_pos (Or.inr hopen)] at hcount
      show c.refcount = c.held + if _ ∨ c.transport.sock ≠ -1 then 1 else 0
      rw [if_pos (Or.inr hopen)]
      exact hcount
    destroyed := h.destroyed }

/-- What `socket_event_poll_err` leaves, and what it releases. -/
theorem eventPollErr_log {t t' : Transport} {refused refusedMod : Bool}
    (h : eventPollErr t refused refusedMod = some t') :
    t'.log = t.log ++ goneLog (t.ioq.map Ioq.goods) ++ releaseLog t.incoming.mem ∧ t'.ioq = [] ∧
      t'.reader = ⟨t.inbound, .zero⟩ ∧ t'.sock = -1 ∧ t'.connected = notConnected := by
  obtain ⟨p, -, rfl⟩ := Option.map_eq_some_iff.mp h
  refine ⟨?_, rfl, rfl, rfl, rfl⟩
  rw [← flatMap_ioqEntryFree]
  exact List.append_assoc _ _ _

/-- **The section that ends the connection** frees the queue and what is in
`priv->incoming`. -/
theorem pollErr_tracked (h : Tracked c) (hopen : c.transport.sock ≠ -1) {refused refusedMod : Bool}
    {t : Transport} (ht : eventPollErr c.transport refused refusedMod = some t) :
    Tracked { c with transport := t, phase := .unref } := by
  obtain ⟨hlog, hioq, hreader, hsock, hconn⟩ := eventPollErr_log ht
  have hincoming : t.incoming = .zero := congrArg Reader.incoming hreader
  obtain ⟨hbufs₁, htaken₁, hdropped₁, hhdrs₁, hiobufs₁⟩ := goneLog_accounts (c.transport.ioq.map Ioq.goods)
  obtain ⟨hbufs₂, htaken₂, hdropped₂, hhdrs₂, hiobufs₂⟩ := releaseLog_accounts c.transport.incoming.mem
  exact {
    outgo := by
      -- what was in the queue is gone now, in its order
      obtain ⟨gone, hgone, hbufs, hdropped⟩ := h.outgo.gone
      refine ⟨⟨gone ++ c.transport.ioq.map Ioq.goods, ?_, ?_, ?_⟩, ?_⟩
      · show _ ++ t.ioq.map Ioq.goods = _
        rw [hgone, hioq, List.map_nil, List.append_nil]
      · show freedBufs t.log = _
        rw [hlog, freedBufs_append, freedBufs_append, hbufs, hbufs₁, hbufs₂, List.append_nil, List.map_append]
      · show droppedRefs t.log = _
        rw [hlog, droppedRefs_append, droppedRefs_append, hdropped, hdropped₁, hdropped₂, List.append_nil,
          iobrefsOf_append]
      · show takenRefs t.log = _
        rw [hlog, takenRefs_append, takenRefs_append, h.outgo.taken, htaken₁, htaken₂, List.append_nil,
          List.append_nil]
    income := by
      have hincome := h.income
      constructor
      · show _ ++ freedHdrs t.log ++ t.incoming.mem.hdrs = _
        rw [hlog, freedHdrs_append, freedHdrs_append, hhdrs₁, hhdrs₂, hincoming, List.append_nil,
          ← List.append_assoc]
        exact (List.append_nil _).trans hincome.hdrs
      · show _ ++ droppedIobufs t.log ++ t.incoming.mem.iobufs = _
        rw [hlog, droppedIobufs_append, droppedIobufs_append, hiobufs₁, hiobufs₂, hincoming, List.append_nil,
          ← List.append_assoc]
        exact (List.append_nil _).trans hincome.iobufs
    kept := fun hne => absurd hsock hne
    between := by
      show t.reader.Between ∨ _
      rw [hreader]
      exact Or.inl (zero_between _)
    reset := fun _ => ⟨hioq, hincoming, hconn, Or.inr rfl⟩
    unref := fun _ => hsock
    count := by
      have hcount := h.count
      rw [if_pos (Or.inr hopen)] at hcount
      show c.refcount = c.held + if Phase.unref = .unref ∨ _ then 1 else 0
      rw [if_pos (Or.inl rfl)]
      exact hcount
    destroyed := h.destroyed }

/-- A reference is given back. -/
theorem transportUnref_tracked (h : Tracked c) (hlive : c.destroyed = false) {phase' : Phase} {held' : Nat}
    (hidle : c.phase = phase' ∨ c.phase = .unref ∧ phase' = .idle)
    (hcount : c.refcount - 1 = held' + if phase' = .unref ∨ c.transport.sock ≠ -1 then 1 else 0) :
    Tracked (transportUnref { c with phase := phase', held := held' }) where
  outgo := h.outgo
  income := h.income
  kept := h.kept
  between := by
    rcases hidle with rfl | ⟨hunref, -⟩
    · exact h.between
    · exact Or.inl (h.between_of_phase (by rw [hunref]; intro _ _ e; cases e))
  reset hsock := by
    obtain ⟨hempty, hzero, hnot, hphase⟩ := h.reset hsock
    refine ⟨hempty, hzero, hnot, ?_⟩
    rcases hidle with rfl | ⟨-, rfl⟩
    · exact hphase
    · exact Or.inl rfl
  unref hphase := by
    rcases hidle with rfl | ⟨-, rfl⟩
    · exact h.unref hphase
    · cases hphase
  count := hcount
  destroyed := by
    show (c.destroyed || decide (c.refcount - 1 = 0)) = true ↔ c.refcount - 1 = 0
    rw [hlive, Bool.false_or, decide_eq_true_iff]

/-- **The event thread**, whichever its next section. -/
theorem resume_tracked (h : Tracked c) (hlive : c.destroyed = false) {env : EventEnv} {c' : Connection}
    (hc' : resume c env = some c') : Tracked c' := by
  unfold resume at hc'
  cases hphase : c.phase with
  | idle =>
      rw [hphase] at hc'
      cases hc'
  | connectFinish ready =>
      rw [hphase] at hc'
      cases hc'
      have hopen := h.open_of_phase (by rw [hphase]; intro e; cases e) (by rw [hphase]; intro e; cases e)
      have hbetween := h.between_of_phase (by rw [hphase]; intro _ _ e; cases e)
      split
      · have hsends := connectFinish_sends c.transport env.connect
        have hdone := h.sends hsends (List.append_nil _).symm (fun hsock => absurd hsock hopen) c.rejected
        exact hdone.goOn (hsends.sock.symm ▸ hopen) (hsends.reader.symm ▸ hbetween) (by intro e; cases e)
      · exact h.goOn hopen hbetween (by intro e; cases e)
  | pollOut ready =>
      rw [hphase] at hc'
      dsimp only at hc'
      have hopen := h.open_of_phase (by rw [hphase]; intro e; cases e) (by rw [hphase]; intro e; cases e)
      have hbetween := h.between_of_phase (by rw [hphase]; intro _ _ e; cases e)
      split at hc'
      · obtain ⟨r, hr, rfl⟩ := Option.map_eq_some_iff.mp hc'
        obtain ⟨left, hsends⟩ := eventPollOut_sends hr
        have hout := h.sends hsends (List.append_nil _).symm (fun hsock => absurd hsock hopen) c.rejected
        exact hout.goOn (hsends.sock.symm ▸ hopen) (hsends.reader.symm ▸ hbetween) (by intro e; cases e)
      · cases hc'
        exact h.goOn hopen hbetween (by intro e; cases e)
  | pollIn ready ret =>
      rw [hphase] at hc'
      dsimp only at hc'
      have hopen := h.open_of_phase (by rw [hphase]; intro e; cases e) (by rw [hphase]; intro e; cases e)
      have hbetween := h.between_of_phase (by rw [hphase]; intro _ _ e; cases e)
      split at hc'
      · obtain ⟨r, hr, rfl⟩ := Option.map_eq_some_iff.mp hc'
        exact pollIn_tracked h hopen hbetween hr ready
      · cases hc'
        exact h.goOn hopen hbetween (by intro e; cases e)
  | pollErr ready ret =>
      rw [hphase] at hc'
      dsimp only at hc'
      have hopen := h.open_of_phase (by rw [hphase]; intro e; cases e) (by rw [hphase]; intro e; cases e)
      split at hc'
      · obtain ⟨t, ht, rfl⟩ := Option.map_eq_some_iff.mp hc'
        exact pollErr_tracked h hopen ht
      next hok =>
        cases hc'
        -- no error: the machine has stopped at a good place
        refine h.goOn hopen ?_ (by intro e; cases e)
        rcases h.between with hbetween | ⟨ready', ret', herr, hneg⟩
        · exact hbetween
        · rw [hphase] at herr
          cases herr
          exact absurd (Or.inl hneg) hok
  | unref =>
      rw [hphase] at hc'
      cases hc'
      -- the reference of the event pool goes
      refine transportUnref_tracked h hlive (Or.inr ⟨hphase, rfl⟩) ?_
      have hcount := h.count
      rw [if_pos (Or.inl hphase)] at hcount
      rw [if_neg (by
        rintro (e | e)
        · cases e
        · exact e (h.unref hphase))]
      omega

/-- **Every step keeps the accounts.** -/
theorem step_tracked (h : Tracked c) {op : ConnectionOp} {c' : Connection} (hop : c.allowed op)
    (hc' : c.step op = some c') : Tracked c' := by
  obtain ⟨hlive, hop⟩ := hop
  cases op with
  | submit m script room refused =>
      obtain ⟨r, hr, rfl⟩ := Option.map_eq_some_iff.mp hc'
      exact submit_tracked h hr
  | receive given =>
      cases hc'
      exact receive_tracked h given
  | disconnect =>
      cases hc'
      exact disconnect_tracked h
  | event idx ready =>
      cases hc'
      exact event_tracked h hop.1 hop.2 idx ready
  | resume env => exact resume_tracked h hlive hc'
  | unref =>
      cases hc'
      have hheld : 0 < c.held := hop
      have hcount := h.count
      refine transportUnref_tracked h hlive (Or.inl rfl) ?_
      rw [hcount]
      omega
  | others pool =>
      cases hc'
      have hsends : Sends c.transport { c.transport with pool } [] [] := (Sends.refl _).congr rfl rfl rfl rfl
      exact h.sends hsends (List.append_nil _).symm (fun _ => ⟨rfl, rfl⟩) c.rejected

end Steps

/-! ## §2. No step gets stuck. -/

/-- The memory for incoming messages is there: `MALLOC` succeeds, and a page
has room for the largest payload. -/
def PollIn.Roomy (env : PollIn) : Prop :=
  (∃ a, env.malloc = some a) ∧ ∀ page, env.iobuf = some page → maxSize2 ≤ page.mem.length

def ConnectionOp.Roomy : ConnectionOp → Prop
  | .resume env => env.input.Roomy
  | _ => True

theorem pageOk_of_roomy {env : PollIn} (h : env.Roomy) (stream : Bytes) : PageOk stream env := by
  intro size1 size2 page hvalid hpage
  have hsize := (validateHeader_eq hvalid).2.2.2
  have hroom := h.2 page hpage
  omega

/-- What the machine needs to go on: a whole message, or a part of one. -/
def Reader.Going (s : Reader) : Prop := s.incoming.state = .complete ∨ ∃ stream, Resting stream s

/-- The invariant of runs with room. -/
structure Going (c : Connection) : Prop where
  tracked : Tracked c
  queued : Queued c.transport
  reader : c.transport.reader.Going ∨ ∃ ready ret, c.phase = .pollErr ready ret ∧ ret < 0

theorem zero_going (inbound : Bytes) : Reader.Going ⟨inbound, .zero⟩ := Or.inr ⟨inbound, fresh_resting inbound⟩

/-- The part of a transport that `Queued` reads. -/
theorem Queued.congr {t t' : Transport} (h : Queued t) (hioq : t'.ioq = t.ioq)
    (hpool : t'.pool = t.pool) : Queued t' where
  sound := by
    rw [hioq]
    exact h.sound
  live := by
    rw [hpool]
    exact h.live

theorem disconnect_queued {t : Transport} (h : Queued t) : Queued (disconnect t) := by
  rw [disconnect_same]
  exact h.congr rfl rfl

theorem connectFinish_queued {t : Transport} (h : Queued t) (o : ConnectOutcome) : Queued (connectFinish t o) := by
  cases o with
  | done => exact h.congr rfl rfl
  | inProgress => exact h
  | failed => exact disconnect_queued h
  | noName => exact disconnect_queued h

/-- Reading with room. -/
theorem protoStateMachine_going {env : PollIn} {s : Reader} (h : s.Going) (hroomy : env.Roomy) :
    ∃ r, protoStateMachine env s = some r ∧ (r.ret < 0 ∨ r.reader.Going) := by
  rcases h with hcomplete | ⟨stream, hresting⟩
  · refine ⟨⟨-1, false, s⟩, ?_, Or.inl (show (-1 : Int) < 0 by decide)⟩
    exact protoLoop_complete hcomplete 5 none (-1)
  · obtain ⟨a, ha⟩ := hroomy.1
    obtain ⟨r, hr, hend⟩ := protoStateMachine_spec hresting ha (pageOk_of_roomy hroomy stream)
    refine ⟨r, hr, ?_⟩
    cases hend with
    | complete _ _ hat => exact Or.inr (Or.inl hat.state)
    | waiting _ _ hat =>
        rcases hat with hat | hat
        · exact Or.inr (Or.inr ⟨stream, .header hat⟩)
        · exact Or.inr (Or.inr ⟨stream, .data hat⟩)
    | failed hret _ _ _ => exact Or.inl hret

theorem eventPollErr_going {t : Transport} (h : Queued t) (refused refusedMod : Bool) :
    ∃ t', eventPollErr t refused refusedMod = some t' ∧ Queued t' := by
  obtain ⟨r, hr⟩ := eventUnregister_total h.live t.sock t.idx refused refusedMod
  refine ⟨_, congrArg (Option.map _) hr, ?_, ?_⟩
  · intro e he
    exact absurd he List.not_mem_nil
  · exact (eventUnregister_regNull hr).trans h.live

section Progress

variable {c : Connection}

theorem Going.reader_of_phase (h : Going c) (hphase : ∀ ready ret, c.phase ≠ .pollErr ready ret) :
    c.transport.reader.Going := by
  rcases h.reader with hreader | ⟨ready, ret, herr, -⟩
  · exact hreader
  · exact absurd herr (hphase ready ret)

/-- The event thread. -/
theorem resume_going (h : Going c) (hlive : c.destroyed = false) (hphase : c.phase ≠ .idle) {env : EventEnv}
    (hroomy : env.input.Roomy) : ∃ c', resume c env = some c' ∧ Going c' := by
  -- the accounts are kept by every step that runs; only the outcome is new
  have hrun : ∃ c', resume c env = some c' ∧ Queued c'.transport ∧
      (c'.transport.reader.Going ∨ ∃ ready ret, c'.phase = .pollErr ready ret ∧ ret < 0) := by
    unfold resume
    cases hcase : c.phase with
    | idle => exact absurd hcase hphase
    | connectFinish ready =>
        have hreader := h.reader_of_phase (by rw [hcase]; intro _ _ e; cases e)
        refine ⟨_, rfl, ?_, Or.inl ?_⟩
        · dsimp only
          split
          · exact connectFinish_queued h.queued env.connect
          · exact h.queued
        · dsimp only
          split
          · exact (connectFinish_sends c.transport env.connect).reader.symm ▸ hreader
          · exact hreader
    | pollOut ready =>
        have hreader := h.reader_of_phase (by rw [hcase]; intro _ _ e; cases e)
        dsimp only
        split
        · obtain ⟨r, hr, hqueued, -⟩ := eventPollOut_stream h.queued env.scripts env.selectRefused
          obtain ⟨left, hsends⟩ := eventPollOut_sends hr
          rw [hr, Option.map_some]
          exact ⟨_, rfl, hqueued, Or.inl (hsends.reader.symm ▸ hreader)⟩
        · exact ⟨_, rfl, h.queued, Or.inl hreader⟩
    | pollIn ready ret =>
        have hreader := h.reader_of_phase (by rw [hcase]; intro _ _ e; cases e)
        dsimp only
        split
        · obtain ⟨p, hp, hend⟩ := protoStateMachine_going hreader hroomy
          rw [eventPollIn, hp, Option.map_some, Option.map_some]
          refine ⟨_, rfl, h.queued.congr rfl rfl, ?_⟩
          rcases hend with hneg | hgoing
          · exact Or.inr ⟨ready, p.ret, rfl, hneg⟩
          · exact Or.inl hgoing
        · exact ⟨_, rfl, h.queued, Or.inl hreader⟩
    | pollErr ready ret =>
        dsimp only
        split
        · obtain ⟨t, ht, hqueued⟩ := eventPollErr_going h.queued env.delRefused env.modRefused
          obtain ⟨-, -, hreader, -, -⟩ := eventPollErr_log ht
          rw [ht, Option.map_some]
          exact ⟨_, rfl, hqueued, Or.inl (hreader.symm ▸ zero_going _)⟩
        next hok =>
          refine ⟨_, rfl, h.queued, Or.inl ?_⟩
          rcases h.reader with hreader | ⟨ready', ret', herr, hneg⟩
          · exact hreader
          · rw [hcase] at herr
            cases herr
            exact absurd (Or.inl hneg) hok
    | unref =>
        have hreader := h.reader_of_phase (by rw [hcase]; intro _ _ e; cases e)
        exact ⟨_, rfl, h.queued, Or.inl hreader⟩
  obtain ⟨c', hc', hqueued, hreader⟩ := hrun
  exact ⟨c', hc', resume_tracked h.tracked hlive hc', hqueued, hreader⟩

/-- **Every allowed step with room** has an outcome. -/
theorem step_going (h : Going c) {op : ConnectionOp} (hop : c.allowed op) (hroomy : op.Roomy) :
    ∃ c', c.step op = some c' ∧ Going c' := by
  have hrun : ∃ c', c.step op = some c' ∧ Queued c'.transport ∧
      (c'.transport.reader.Going ∨ ∃ ready ret, c'.phase = .pollErr ready ret ∧ ret < 0) := by
    cases op with
    | submit m script room refused =>
        obtain ⟨r, hr, hqueued, -⟩ := socketSubmit_stream h.queued hop.2 script room refused
        -- submitting does not touch the reader
        have hreader : r.1.reader = c.transport.reader := by
          rcases socketSubmit_sends hr with rfl | ⟨-, -, left, hsends⟩
          · rfl
          · exact hsends.reader
        refine ⟨c.submitted m r.1 r.2, congrArg (Option.map _) hr, ?_⟩
        unfold Connection.submitted
        split
        · exact ⟨hqueued, hreader.symm ▸ h.reader⟩
        · exact ⟨hqueued, hreader.symm ▸ h.reader⟩
    | receive given =>
        refine ⟨_, rfl, ?_⟩
        unfold socketReceive
        split
        · exact ⟨h.queued.congr rfl rfl, Or.inl (zero_going _)⟩
        · exact ⟨h.queued, h.reader⟩
    | disconnect =>
        refine ⟨_, rfl, disconnect_queued h.queued, ?_⟩
        exact (disconnect_sends c.transport).reader.symm ▸ h.reader
    | event idx ready =>
        have hreader := h.reader_of_phase (by rw [hop.2.1]; intro _ _ e; cases e)
        exact ⟨_, rfl, h.queued.congr rfl rfl, Or.inl hreader⟩
    | resume env =>
        obtain ⟨c', hc', hgoing⟩ := resume_going h hop.1 hop.2 hroomy
        exact ⟨c', hc', hgoing.queued, hgoing.reader⟩
    | unref => exact ⟨_, rfl, h.queued, h.reader⟩
    | others pool => exact ⟨_, rfl, ⟨h.queued.sound, hop.2⟩, h.reader⟩
  obtain ⟨c', hc', hqueued, hreader⟩ := hrun
  exact ⟨c', hc', step_tracked h.tracked hop hc', hqueued, hreader⟩

end Progress

/-! ## §3. Runs. -/

/-- **Every buffer has one owner**, and when the transport is destroyed they
have all been released. -/
structure Owned (c : Connection) : Prop where
  /-- A buffer that was taken has been freed, or it is in the queue. -/
  bufs : freedBufs c.transport.log ++ c.transport.ioq.map Ioq.buf = c.accepted.map Message.addr
  /-- So has its iobref, which was referenced once, been dropped. -/
  iobrefs : droppedRefs c.transport.log ++ iobrefsOf (c.transport.ioq.map Ioq.goods)
    = takenRefs c.transport.log
  taken : takenRefs c.transport.log = iobrefsOf (c.accepted.map Message.goods)
  /-- A buffer that was refused is not freed. -/
  rejected : ∀ m ∈ c.rejected, m.addr ∉ c.accepted.map Message.addr → .freeBuf m.addr ∉ c.transport.log
  refused : ∀ m script room refused r, socketSubmit c.transport m script room refused = some r →
    r.2 = 0 ∨ r = (c.transport, -1)
  /-- Incoming memory: received, released by the reset, or still there. -/
  incoming : Income c.allocated c.received c.transport
  /-- Destroyed: the connection was reset, and nothing is left. -/
  settled : c.destroyed = true → c.transport.sock = -1 ∧
    freedBufs c.transport.log = c.accepted.map Message.addr ∧
    droppedRefs c.transport.log = iobrefsOf (c.accepted.map Message.goods) ∧
    receivedHdrs c.received ++ freedHdrs c.transport.log = allocHdrs c.allocated ∧
    receivedIobufs c.received ++ droppedIobufs c.transport.log = allocIobufs c.allocated

theorem map_fst_goods (q : List Ioq) : (q.map Ioq.goods).map Prod.fst = q.map Ioq.buf := by
  rw [List.map_map]
  rfl

theorem map_fst_messages (l : List Message) : (l.map Message.goods).map Prod.fst = l.map Message.addr := by
  rw [List.map_map]
  rfl

theorem mem_freedBufs {a : Addr} {log : List MemEvent} (h : .freeBuf a ∈ log) : a ∈ freedBufs log :=
  List.mem_filterMap.mpr ⟨.freeBuf a, h, rfl⟩

/-- Destroyed only after the reset: the event pool has a reference before. -/
theorem Tracked.reset_of_destroyed {c : Connection} (h : Tracked c) (hd : c.destroyed = true) :
    c.transport.sock = -1 := by
  by_contra hopen
  have hzero := h.destroyed.mp hd
  have hcount := h.count
  rw [if_pos (Or.inr hopen)] at hcount
  omega

theorem Tracked.owned {c : Connection} (h : Tracked c) : Owned c := by
  obtain ⟨gone, hgone, hbufs, hdropped⟩ := h.outgo.gone
  have hall : freedBufs c.transport.log ++ c.transport.ioq.map Ioq.buf = c.accepted.map Message.addr := by
    rw [hbufs, ← map_fst_goods, ← List.map_append, hgone, map_fst_messages]
  have hrefs : droppedRefs c.transport.log ++ iobrefsOf (c.transport.ioq.map Ioq.goods)
      = takenRefs c.transport.log := by
    rw [hdropped, ← iobrefsOf_append, hgone, h.outgo.taken]
  refine ⟨hall, hrefs, h.outgo.taken, ?_, ?_, h.income, ?_⟩
  · intro m _ hnot hfree
    apply hnot
    rw [← hall]
    exact List.mem_append_left _ (mem_freedBufs hfree)
  · intro m script room refused r hr
    rcases socketSubmit_sends hr with hsame | ⟨-, h0, -⟩
    · exact Or.inr hsame
    · exact Or.inl h0
  · -- after the reset the queue and `priv->incoming` are empty
    intro hd
    have hsock := h.reset_of_destroyed hd
    obtain ⟨hempty, hzero, -, -⟩ := h.reset hsock
    obtain ⟨hhdrs, hiobufs⟩ := h.income
    rw [hempty] at hall hrefs
    rw [hzero] at hhdrs hiobufs
    refine ⟨hsock, (List.append_nil _).symm.trans hall, ?_, ?_, ?_⟩
    · rw [← h.outgo.taken, ← hrefs]
      exact (List.append_nil _).symm
    · rw [← hhdrs]
      exact (List.append_nil _).symm
    · rw [← hiobufs]
      exact (List.append_nil _).symm

section Start

variable (pool : EventPool) (sock idx : Int) (connected : UInt8) (stream : Bytes) (held : Nat)

theorem start_tracked (hsock : sock ≠ -1) : Tracked (.start pool sock idx connected stream held) where
  outgo := ⟨⟨[], rfl, rfl, rfl⟩, rfl⟩
  income := ⟨rfl, rfl⟩
  kept _ := ⟨rfl, rfl⟩
  between := Or.inl (zero_between stream)
  reset h := absurd h hsock
  unref h := by cases h
  count := by
    show (held : Int) + 1 = held + if Phase.idle = .unref ∨ sock ≠ -1 then 1 else 0
    rw [if_pos (Or.inr hsock)]
  destroyed := by
    show false = true ↔ (held : Int) + 1 = 0
    constructor
    · intro h
      cases h
    · intro h
      omega

theorem start_going (hpool : pool.regNull = false) (hsock : sock ≠ -1) :
    Going (.start pool sock idx connected stream held) where
  tracked := start_tracked pool sock idx connected stream held hsock
  queued := ⟨fun _ he => absurd he List.not_mem_nil, hpool⟩
  reader := Or.inl (zero_going stream)

end Start

/-- **Buffer ownership**, over every run of a connection from its start to its
destruction, whatever falls between the locked sections; and a run with room
for incoming messages never gets stuck. -/
theorem buffer_ownership (pool : EventPool) (sock idx : Int) (connected : UInt8) (stream : Bytes) (held : Nat)
    (hpool : pool.regNull = false) (hsock : sock ≠ -1) (ops : List ConnectionOp)
    (hlegal : connections.Legal (.start pool sock idx connected stream held) ops) :
    (∀ c, connections.run (.start pool sock idx connected stream held) ops = some c → Owned c) ∧
      ((∀ op ∈ ops, op.Roomy) →
        ∃ c, connections.run (.start pool sock idx connected stream held) ops = some c) := by
  constructor
  · intro c hrun
    have htracked : Tracked c := connections.run_safe (fun _ _ _ h hop hc' => step_tracked h hop hc')
      (start_tracked pool sock idx connected stream held hsock) hlegal hrun
    exact htracked.owned
  · intro hroomy
    have hgoing := start_going pool sock idx connected stream held hpool hsock
    generalize Connection.start pool sock idx connected stream held = c at hlegal hgoing
    -- by induction on the run: each step has an outcome
    induction ops generalizing c with
    | nil => exact ⟨c, rfl⟩
    | cons op ops ih =>
        obtain ⟨c₁, hc₁, hgoing₁⟩ := step_going hgoing hlegal.1 (hroomy op List.mem_cons_self)
        obtain ⟨c₂, hc₂⟩ := ih (fun op' hop' => hroomy op' (List.mem_cons_of_mem _ hop')) c₁
          (hlegal.2 c₁ hc₁) hgoing₁
        refine ⟨c₂, ?_⟩
        show (c.step op).bind _ = _
        rw [hc₁]
        exact hc₂

/-- What the system answers during an event in which the peer's bytes come. -/
def reads (headerScript dataScript : List ReadEvent) (hdr page : Addr) : EventEnv :=
  ⟨.done, [], false, ⟨headerScript, dataScript, some hdr, some ⟨page, List.replicate 4 none⟩⟩, false, false⟩

/-- A message is written in part and another queued; one is received; the
next one has begun to come when the connection ends. -/
def tornDown : List ConnectionOp :=
  [.submit threePieces [.take 5, .again] true false, .event 0 ⟨true, false, false⟩] ++
    List.replicate 4 (.resume (reads [.data 12] [.data 2] 7 8)) ++
    [.receive true, .submit ⟨20, [7], [], some 21⟩ [] true false, .event 0 ⟨true, false, true⟩] ++
    List.replicate 5 (.resume (reads [.data 12] [.data 2, .again] 17 18))

/-- What the peer sends: a message of two header bytes, and one with a payload
of three bytes. -/
def tornDownStream : Bytes := socketHeader 2 0 ++ [1, 2] ++ socketHeader 1 3 ++ [9, 4, 5, 6]

theorem buffer_ownership_tornDown :
    ∃ c, connections.run (.start acceptedFive.pool 5 0 1 tornDownStream 0) tornDown = some c ∧ Owned c ∧
      c.destroyed = true := by
  have hlegal : connections.Legal (.start acceptedFive.pool 5 0 1 tornDownStream 0) tornDown := by
    apply Component.legal_of_check
    decide +kernel
  have hruns : (connections.run (.start acceptedFive.pool 5 0 1 tornDownStream 0) tornDown).map
      Connection.destroyed = some true := by decide +kernel
  obtain ⟨c, hc, hd⟩ := Option.map_eq_some_iff.mp hruns
  have howned := (buffer_ownership acceptedFive.pool 5 0 1 tornDownStream 0 rfl (by decide) tornDown hlegal).1 c hc
  exact ⟨c, hc, howned, hd⟩

/-- The first buffer is freed once; so are the header block and the page of
the message that was coming. -/
example : (connections.run (.start acceptedFive.pool 5 0 1 tornDownStream 0) tornDown).map
    (fun c => c.transport.log)
      = some [.refIobref 21, .freeBuf 10, .unrefIobref 21, .freeBuf 20, .freeHdr 17, .unrefIobuf 18] := by
  decide +kernel

end LzLib.Socket
