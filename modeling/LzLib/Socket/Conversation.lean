/-
  LzLib.Socket.Conversation
  ─────────────────────────
  **TWO ENDS OF A CONNECTION.**

  Each end submits, receives, gets events and may disconnect; the network
  passes on what the kernel of the other end has accepted, in parts of any
  size.  Reads and writes are cut as the system likes, calls fail, connections
  are torn down at any moment with messages in them.

  Whatever happens, in whatever order, what one end has received is a front of
  what the other end has submitted: `conversation_fifo`.
-/
import LzLib.Socket.Arrival

namespace LzLib.Socket

open LzLib.Foundation
open LzLib.Event

/-! ## §1. The two ends. -/

inductive Side where
  | left
  | right
  deriving DecidableEq

def Side.other : Side → Side
  | left => right
  | right => left

/-- A transport, the messages whose submission returned 0, how many bytes of
the other end have arrived, and the messages received. -/
structure End where
  transport : Transport
  accepted : List Message
  arrived : Nat
  received : List Received
  deriving DecidableEq

/-- What happens at one end. -/
inductive EndOp where
  | submit (m : Message) (script : List WriteEvent) (room refused : Bool)
  | event (idx : Int) (pollIn pollOut pollErr : Bool) (env : EventEnv)
  | receive (given : Bool)
  | disconnect
  /-- The network passes on up to `n` bytes. -/
  | arrive (n : Nat)

/-- One operation at an end; `peerSent` is what the kernel of the other end has accepted. -/
def endStep (e : End) (peerSent : Bytes) : EndOp → Option End
  | .submit m script room refused =>
      (socketSubmit e.transport m script room refused).map fun r =>
        ⟨r.1, if r.2 = 0 then e.accepted ++ [m] else e.accepted, e.arrived, e.received⟩
  | .event idx pollIn pollOut pollErr env =>
      (socketEventHandler e.transport idx pollIn pollOut pollErr env).map fun t => { e with transport := t }
  | .receive given =>
      let r := socketReceive e.transport given
      some { e with transport := r.1, received := e.received ++ r.2.toList }
  | .disconnect => some { e with transport := LzLib.Socket.disconnect e.transport }
  | .arrive n =>
      let more := (peerSent.drop e.arrived).take n
      some { e with
        transport := { e.transport with inbound := e.transport.inbound ++ more }
        arrived := e.arrived + more.length }

/-- What the caller of an operation promises.  A transport that was torn down
is registered no more, so it gets no events. -/
def endAllowed (e : End) : EndOp → Prop
  | .submit m _ _ _ => m.vector.length ≤ maxIovec - 2 ∧ m.Fits
  | .event _ _ _ _ env => e.transport.sock ≠ -1 ∧ Served env.input
  | _ => True

/-- Operations at both ends, interleaved. -/
def conversation : Component (Side → End) (Side × EndOp) where
  step s op := (endStep (s op.1) (s op.1.other).transport.sent op.2).map fun e =>
    fun side => if side = op.1 then e else s side
  allowed s op := endAllowed (s op.1) op.2

/-- A connection that was accepted, or one in progress. -/
def End.start (pool : EventPool) (sock idx : Int) (connected : UInt8) : End :=
  ⟨.initial pool sock idx connected, [], 0, []⟩

/-! ## §2. What the outgoing side leaves alone. -/

/-- The outgoing side only adds to what the kernel has accepted. -/
structure Outward (t t' : Transport) : Prop where
  sock : t'.sock = t.sock
  reader : t'.reader = t.reader
  grows : t.sent <+: t'.sent

theorem Outward.refl (t : Transport) : Outward t t := ⟨rfl, rfl, List.prefix_rfl⟩

theorem Outward.trans {t t' t'' : Transport} (h : Outward t t') (h' : Outward t' t'') : Outward t t'' :=
  ⟨h'.sock.trans h.sock, h'.reader.trans h.reader, h.grows.trans h'.grows⟩

theorem Churns.outward {t : Transport} {e : Ioq} {c : Churned} (h : Churns t e c) : Outward t c.transport := by
  refine ⟨by rw [h.same], by rw [h.same]; rfl, ?_⟩
  have houtcome := h.outcome
  cases hentry : c.entry with
  | none =>
      rw [hentry] at houtcome
      exact ⟨_, houtcome.2.symm⟩
  | some e' =>
      rw [hentry] at houtcome
      obtain ⟨k, hk, -⟩ := houtcome.2.1
      exact ⟨_, hk.symm⟩

theorem churnLoop_outward {q : List Ioq} (hq : ∀ e ∈ q, e.Sound) {t : Transport} {scripts : List (List WriteEvent)}
    {ret : Int} {r : Transport × Int} (h : churnLoop t q scripts ret = some r) : Outward t r.1 := by
  induction q generalizing t scripts ret with
  | nil =>
      cases h
      exact ⟨rfl, rfl, List.prefix_rfl⟩
  | cons e rest ih =>
      rw [churnLoop] at h
      obtain ⟨c, hc, h⟩ := Option.bind_eq_some_iff.mp h
      have hout := (ioqChurnEntry_churns (hq e List.mem_cons_self) hc).outward
      cases hentry : c.entry with
      | none =>
          rw [hentry] at h
          exact hout.trans (ih (fun e' he' => hq e' (List.mem_cons_of_mem _ he')) h)
      | some e' =>
          rw [hentry] at h
          cases h
          exact hout.trans ⟨rfl, rfl, List.prefix_rfl⟩

theorem selectOut_outward {t t' : Transport} {pollOut : Int} {refused : Bool}
    (h : t.selectOut pollOut refused = some t') : Outward t t' := by
  obtain ⟨r, -, rfl⟩ := Option.map_eq_some_iff.mp h
  exact ⟨rfl, rfl, List.prefix_rfl⟩

theorem eventPollOut_outward {t : Transport} (hq : Queued t) {scripts : List (List WriteEvent)} {refused : Bool}
    {r : Transport × Int} (h : eventPollOut t scripts refused = some r) : Outward t r.1 := by
  rw [eventPollOut] at h
  split at h
  next hconn =>
    obtain ⟨r₁, hchurn, rfl⟩ := Option.map_eq_some_iff.mp h
    obtain ⟨r₂, hloop, hsel⟩ := Option.bind_eq_some_iff.mp hchurn
    have hloop := churnLoop_outward hq.sound hloop
    have hout : Outward t r₁.1 := by
      split at hsel
      · obtain ⟨t', ht', rfl⟩ := Option.map_eq_some_iff.mp hsel
        exact hloop.trans (selectOut_outward ht')
      · cases hsel
        exact hloop
    split
    · refine hout.trans ?_
      rw [disconnect_same]
      exact ⟨rfl, rfl, List.prefix_rfl⟩
    · exact hout
  next =>
    cases h
    exact Outward.refl t

theorem Submits.outward {t : Transport} {m : Message} {script : List WriteEvent} {room refused : Bool}
    {r : Transport × Int} (h : Submits t m script room refused r) : Outward t r.1 := by
  have hdirect : ∀ c : Churned, Direct t m script room c → Outward t c.transport := by
    intro c D
    have hout := (ioqChurnEntry_churns (ioqNew_sound m) D.churned).outward
    exact ⟨hout.sock, hout.reader, hout.grows⟩
  cases h with
  | refuses hwhy => exact Outward.refl t
  | behind hconn hq => exact ⟨rfl, rfl, List.prefix_rfl⟩
  | @written c D hentry => exact hdirect c D
  | @waits c e t' D hentry hret hsel =>
      have hout := hdirect c D
      have hsel := selectOut_outward hsel
      exact hout.trans ⟨hsel.sock, hsel.reader, hsel.grows⟩
  | @stuck c e D hentry hret => exact (hdirect c D).trans ⟨rfl, rfl, List.prefix_rfl⟩

/-- A submission leaves the connection as it is. -/
theorem Submits.sameConnected {t : Transport} {m : Message} {script : List WriteEvent} {room refused : Bool}
    {r : Transport × Int} (h : Submits t m script room refused r) : r.1.connected = t.connected := by
  have hdirect : ∀ c : Churned, Direct t m script room c → c.transport.connected = t.connected := by
    intro c D
    rw [(ioqChurnEntry_churns (ioqNew_sound m) D.churned).same]
  cases h with
  | refuses hwhy => rfl
  | behind hconn hq => rfl
  | @written c D hentry => exact hdirect c D
  | @waits c e t' D hentry hret hsel =>
      obtain ⟨p, -, rfl⟩ := Option.map_eq_some_iff.mp hsel
      exact hdirect c D
  | @stuck c e D hentry hret => exact hdirect c D

/-! ## §3. Events. -/

/-- A transport that was torn down. -/
structure Down (t : Transport) : Prop where
  sock : t.sock = -1
  connected : t.connected = notConnected

/-- A transport that is still there, with the stream it had. -/
structure Kept (t t' : Transport) : Prop where
  sock : t'.sock = t.sock
  queued : Queued t'
  stream : t'.sent ++ unsent t'.ioq = t.sent ++ unsent t.ioq
  grows : t.sent <+: t'.sent
  connected : t'.connected ≠ notConnected → t.connected ≠ notConnected

theorem Kept.trans {t t' t'' : Transport} (h : Kept t t') (h' : Kept t' t'') : Kept t t'' :=
  ⟨h'.sock.trans h.sock, h'.queued, h'.stream.trans h.stream, h.grows.trans h'.grows,
    fun hne => h.connected (h'.connected hne)⟩

/-- A change of `idx`, `connected` or the reader is none of the stream. -/
theorem Kept.ofFields {t : Transport} (hq : Queued t) (idx : Int) (connected : UInt8) (s : Reader)
    (hconn : connected ≠ notConnected → t.connected ≠ notConnected) :
    Kept t { t with idx := idx, connected := connected, inbound := s.inbound, incoming := s.incoming } :=
  ⟨rfl, ⟨hq.sound, hq.live⟩, rfl, List.prefix_rfl, hconn⟩

theorem connectFinish_kept {t : Transport} (hq : Queued t) (h0 : t.connected = 0) (outcome : ConnectOutcome) :
    Kept t (connectFinish t outcome) ∧ (connectFinish t outcome).reader = t.reader := by
  have hne : t.connected ≠ notConnected := by
    rw [h0]
    decide
  have hdisconnect : Kept t (disconnect t) ∧ (disconnect t).reader = t.reader := by
    rw [disconnect_same]
    exact ⟨Kept.ofFields hq t.idx _ t.reader fun _ => hne, rfl⟩
  cases outcome with
  | done => exact ⟨Kept.ofFields hq t.idx 1 t.reader fun _ => hne, rfl⟩
  | inProgress => exact ⟨Kept.ofFields hq t.idx t.connected t.reader fun _ => hne, rfl⟩
  | failed => exact hdisconnect
  | noName => exact hdisconnect

theorem eventPollOut_kept {t : Transport} (hq : Queued t) (scripts : List (List WriteEvent)) (refused : Bool) :
    ∃ r, eventPollOut t scripts refused = some r ∧ Kept t r.1 ∧ r.1.reader = t.reader := by
  obtain ⟨r, hr, hqueued, hstream⟩ := eventPollOut_stream hq scripts refused
  have hout := eventPollOut_outward hq hr
  refine ⟨r, hr, ⟨hout.sock, hqueued, hstream, hout.grows, fun hne hc => hne ?_⟩, hout.reader⟩
  -- on a transport that is not connected nothing is written
  have hnot : ¬ t.connected = 1 := by
    rw [hc]
    decide
  rw [eventPollOut, if_neg hnot] at hr
  cases hr
  exact hc

theorem eventPollErr_down {t : Transport} (hlive : t.pool.regNull = false) (refused refusedMod : Bool) :
    ∃ t', eventPollErr t refused refusedMod = some t' ∧ Down t' ∧ t'.sent = t.sent ∧ t'.ioq = [] := by
  obtain ⟨p, hp⟩ := eventUnregister_total hlive t.sock t.idx refused refusedMod
  exact ⟨_, congrArg (Option.map _) hp, ⟨rfl, rfl⟩, rfl, rfl⟩

section Event

variable {done rest : List Message} {arrived : Bytes}

/-- How an event ends: the transport is torn down, having sent no more than it
had to, or it is still there and its machine stands in the stream. -/
inductive EventEnd (done rest : List Message) (arrived : Bytes) (t t' : Transport) : Prop where
  | down (at' : Down t') (stream : t'.sent <+: t.sent ++ unsent t.ioq) (grows : t.sent <+: t'.sent)
      (empty : t'.ioq = [])
  | kept (at' : Kept t t') (taking : Taking done rest arrived t'.reader)

/-- The end of the handler. -/
theorem handlerEnd_spec {t t₁ : Transport} (h : Kept t t₁) {pollErr : Bool} {env : EventEnv} {ret : Int}
    (htaking : 0 ≤ ret → Taking done rest arrived t₁.reader) :
    ∃ t', handlerEnd pollErr env (t₁, ret) = some t' ∧ EventEnd done rest arrived t t' := by
  unfold handlerEnd
  by_cases hfail : ret < 0 ∨ pollErr = true
  · obtain ⟨t', ht', hdown, hsent, hempty⟩ := eventPollErr_down h.queued.live env.delRefused env.modRefused
    rw [if_pos hfail]
    refine ⟨t', ht', .down hdown ⟨unsent t₁.ioq, ?_⟩ ?_ hempty⟩
    · rw [hsent]
      exact h.stream
    · rw [hsent]
      exact h.grows
  · rw [if_neg hfail]
    exact ⟨t₁, rfl, .kept h (htaking (by omega))⟩

/-- **One event at an end**, whatever is polled and however it ends. -/
theorem socketEventHandler_spec {t : Transport} (hq : Queued t) (htaking : Taking done rest arrived t.reader)
    (hfits : ∀ m ∈ rest, m.Fits) (hpre : arrived <+: framesOf (done ++ rest)) (idx : Int)
    (pollIn pollOut pollErr : Bool) {env : EventEnv} (henv : Served env.input) :
    ∃ t', socketEventHandler t idx pollIn pollOut pollErr env = some t' ∧ EventEnd done rest arrived t t' := by
  -- `socket_connect_finish`
  have hidx : Kept t { t with idx := idx } := Kept.ofFields hq idx t.connected t.reader fun hne => hne
  obtain ⟨t₁, ht₁, hkept₁, hreader₁⟩ : ∃ t₁, (if t.connected = 0 then connectFinish { t with idx := idx } env.connect
      else { t with idx := idx }) = t₁ ∧ Kept t t₁ ∧ t₁.reader = t.reader := by
    by_cases h0 : t.connected = 0
    · obtain ⟨hkept, hreader⟩ := connectFinish_kept hidx.queued h0 env.connect
      exact ⟨_, if_pos h0, hidx.trans hkept, hreader⟩
    · exact ⟨_, if_neg h0, hidx, rfl⟩
  -- `socket_event_poll_out`
  obtain ⟨r, hr, hkept₂, hreader₂⟩ : ∃ r, (if pollOut then eventPollOut t₁ env.scripts env.selectRefused
      else some (t₁, 0)) = some r ∧ Kept t r.1 ∧ r.1.reader = t.reader := by
    by_cases hout : pollOut = true
    · obtain ⟨r, hr, hkept, hreader⟩ := eventPollOut_kept hkept₁.queued env.scripts env.selectRefused
      exact ⟨r, by rw [if_pos hout, hr], hkept₁.trans hkept, hreader.trans hreader₁⟩
    · exact ⟨(t₁, 0), by rw [if_neg hout], hkept₁, hreader₁⟩
  have hout : Taking done rest arrived r.1.reader := by
    rw [hreader₂]
    exact htaking
  have hhandler : socketEventHandler t idx pollIn pollOut pollErr env
      = (if r.2 = 0 ∧ pollIn then eventPollIn r.1 env.input else some r).bind (handlerEnd pollErr env) := by
    show Option.bind (if pollOut then eventPollOut (if t.connected = 0 then _ else _) _ _ else some (_, 0)) _ = _
    rw [ht₁, hr]
    rfl
  rw [hhandler]
  by_cases hin : r.2 = 0 ∧ pollIn = true
  · -- `socket_event_poll_in`
    obtain ⟨p, hp, hend⟩ := hout.event hfits hpre henv
    have hpoll : eventPollIn r.1 env.input
        = some ({ r.1 with inbound := p.reader.inbound, incoming := p.reader.incoming }, p.ret) :=
      congrArg (Option.map _) hp
    rw [if_pos hin, hpoll]
    refine handlerEnd_spec (hkept₂.trans (Kept.ofFields hkept₂.queued r.1.idx r.1.connected p.reader fun hne => hne))
      fun hret => ?_
    rcases hend with hneg | htaking'
    · omega
    · exact htaking'
  · rw [if_neg hin]
    exact handlerEnd_spec hkept₂ fun _ => hout

/-- **A POLLIN event while a frame is being read** consumes what its reads deliver,
or the transport is torn down. -/
theorem Taking.reads {t : Transport} (h : Taking done rest arrived t.reader) (hconn : t.connected = 1)
    (hlive : t.pool.regNull = false) (hstate : t.incoming.state ≠ .complete) (idx : Int) {env : EventEnv}
    (henv : Served env.input) :
    ∃ t', socketEventHandler t idx true false false env = some t' ∧
      (t'.sock = -1 ∨ Reads (arrived.drop (framesOf done).length) t t' env.input) := by
  cases h with
  | waiting m behind eq state brings bytes => exact absurd state hstate
  | reading now at' bytes =>
      have hnow : arrived.drop (framesOf done).length = now := by rw [← bytes, List.drop_left]
      obtain ⟨a, ha⟩ := henv.malloc
      obtain ⟨hk, hle⟩ := at'.taken
      obtain ⟨r, hr, hout, htook⟩ := protoStateMachine_takes at' hk hle ha (henv.pageOk now)
      rw [hnow, socketEventHandler_pollIn hconn idx env hr]
      by_cases hneg : r.ret < 0
      · rw [if_pos hneg]
        obtain ⟨t', ht', hdown, -⟩ := eventPollErr_down
          (t := { t with idx, inbound := r.reader.inbound, incoming := r.reader.incoming }) hlive
          env.delRefused env.modRefused
        exact ⟨t', ht', Or.inl hdown.sock⟩
      · rw [if_neg hneg]
        exact ⟨_, rfl, Or.inr (at'.reads (frameStep_of_outcome hout hle htook) idx)⟩

end Event

/-! ## §4. The invariant of an end. -/

/-- The outgoing side of an end. -/
structure Sending (accepted : List Message) (t : Transport) : Prop where
  fits : ∀ m ∈ accepted, m.Fits
  front : t.sent ++ unsent t.ioq <+: framesOf accepted
  whole : t.connected ≠ notConnected → t.sent ++ unsent t.ioq = framesOf accepted
  state : t.sock ≠ -1 ∧ Queued t ∨ Down t

/-- The incoming side of an end whose peer has had `accepted` accepted. -/
def Receiving (accepted : List Message) (arrived : Bytes) (received : List Received) (t : Transport) : Prop :=
  ∃ done rest, accepted = done ++ rest ∧ List.Forall₂ Received.Brings received done ∧
    (t.sock ≠ -1 → Taking done rest arrived t.reader)

theorem Receiving.accept {accepted : List Message} {arrived : Bytes} {received : List Received} {t : Transport}
    (h : Receiving accepted arrived received t) (m : Message) : Receiving (accepted ++ [m]) arrived received t := by
  obtain ⟨done, rest, hsplit, hbrings, htaking⟩ := h
  exact ⟨done, rest ++ [m], by rw [hsplit, List.append_assoc], hbrings, fun hsock => (htaking hsock).accept m⟩

/-- The reading of a transport does not depend on anything else of it. -/
theorem Receiving.congr {accepted : List Message} {arrived : Bytes} {received : List Received} {t t' : Transport}
    (h : Receiving accepted arrived received t) (hsock : t'.sock = t.sock) (hreader : t'.reader = t.reader) :
    Receiving accepted arrived received t' := by
  obtain ⟨done, rest, hsplit, hbrings, htaking⟩ := h
  refine ⟨done, rest, hsplit, hbrings, fun hne => ?_⟩
  rw [hsock] at hne
  rw [hreader]
  exact htaking hne

theorem Sending.start (pool : EventPool) (sock idx : Int) (connected : UInt8) (hsock : sock ≠ -1)
    (hlive : pool.regNull = false) : Sending [] (.initial pool sock idx connected) where
  fits _ hm := (List.not_mem_nil hm).elim
  front := List.prefix_rfl
  whole _ := rfl
  state := Or.inl ⟨hsock, fun _ he => (List.not_mem_nil he).elim, hlive⟩

theorem Receiving.start (pool : EventPool) (sock idx : Int) (connected : UInt8) :
    Receiving [] [] [] (.initial pool sock idx connected) :=
  ⟨[], [], rfl, .nil, fun _ => .reading [] (.start rfl rfl rfl rfl) rfl⟩

/-- An end, against the messages and the bytes that the other end has sent. -/
structure EndOk (peer : List Message) (peerSent : Bytes) (e : End) : Prop where
  sending : Sending e.accepted e.transport
  arrived : e.arrived ≤ peerSent.length
  receiving : Receiving peer (peerSent.take e.arrived) e.received e.transport

/-- What an operation at an end means for the other end: at most one more
message, and no byte taken back. -/
structure Onward (e e' : End) : Prop where
  accepted : e'.accepted = e.accepted ∨ ∃ m, e'.accepted = e.accepted ++ [m]
  grows : e.transport.sent <+: e'.transport.sent

/-- The other end, behind an operation at this one. -/
theorem EndOk.onward {e e' f : End} (h : EndOk e.accepted e.transport.sent f) (ho : Onward e e') :
    EndOk e'.accepted e'.transport.sent f := by
  obtain ⟨more, hmore⟩ := ho.grows
  have hsame : e'.transport.sent.take f.arrived = e.transport.sent.take f.arrived := by
    rw [← hmore, List.take_append_of_le_length h.arrived]
  refine ⟨h.sending, Nat.le_trans h.arrived ho.grows.length_le, ?_⟩
  rw [hsame]
  rcases ho.accepted with heq | ⟨m, heq⟩
  · rw [heq]
    exact h.receiving
  · rw [heq]
    exact h.receiving.accept m

/-! ## §5. Operations at an end. -/

section Operation

variable {peer : List Message} {peerSent : Bytes} {e : End}

theorem submit_endOk (h : EndOk peer peerSent e) {m : Message} (hcount : m.vector.length ≤ maxIovec - 2)
    (hfits : m.Fits) (script : List WriteEvent) (room refused : Bool) :
    ∃ r, socketSubmit e.transport m script room refused = some r ∧
      EndOk peer peerSent ⟨r.1, if r.2 = 0 then e.accepted ++ [m] else e.accepted, e.arrived, e.received⟩ ∧
      e.transport.sent <+: r.1.sent := by
  have hlive : e.transport.connected = 1 → e.transport.pool.regNull = false := by
    intro hconn
    rcases h.sending.state with ⟨-, hq⟩ | hdown
    · exact hq.live
    · rw [hdown.connected] at hconn
      exact absurd hconn (by decide)
  obtain ⟨r, hr⟩ := socketSubmit_returns hlive hcount script room refused
  have hsubmits := socketSubmit_cases hr
  have hout := hsubmits.outward
  have hstream := hsubmits.stream
  refine ⟨r, hr, ⟨⟨?_, ?_, ?_, ?_⟩, h.arrived, h.receiving.congr hout.sock hout.reader⟩, hout.grows⟩
  · -- every message fits
    intro x hx
    have hx : x ∈ if r.2 = 0 then e.accepted ++ [m] else e.accepted := hx
    split at hx
    · rcases List.mem_append.mp hx with hx | hx
      · exact h.sending.fits x hx
      · rw [List.mem_singleton.mp hx]
        exact hfits
    · exact h.sending.fits x hx
  · show r.1.sent ++ unsent r.1.ioq <+: framesOf (if r.2 = 0 then e.accepted ++ [m] else e.accepted)
    rw [hstream]
    by_cases h0 : r.2 = 0
    · have hne : e.transport.connected ≠ notConnected := by
        rw [hsubmits.connected h0]
        decide
      rw [if_pos h0, if_pos h0, h.sending.whole hne, framesOf_append]
      show _ ++ m.frame <+: _ ++ (m.frame ++ [])
      exact ⟨[], by rw [List.append_nil, List.append_nil]⟩
    · rw [if_neg h0, if_neg h0, List.append_nil]
      exact h.sending.front
  · show r.1.connected ≠ notConnected → _ = framesOf (if r.2 = 0 then e.accepted ++ [m] else e.accepted)
    intro hne
    rw [hsubmits.sameConnected] at hne
    rw [hstream, h.sending.whole hne]
    by_cases h0 : r.2 = 0
    · rw [if_pos h0, if_pos h0, framesOf_append]
      show _ ++ m.frame = _ ++ (m.frame ++ [])
      rw [List.append_nil]
    · rw [if_neg h0, if_neg h0, List.append_nil]
  · rcases h.sending.state with ⟨hsock, hq⟩ | hdown
    · refine Or.inl ⟨?_, hsubmits.queued hq⟩
      show r.1.sock ≠ -1
      rw [hout.sock]
      exact hsock
    · exact Or.inr ⟨hout.sock.trans hdown.sock, hsubmits.sameConnected.trans hdown.connected⟩

theorem event_endOk (h : EndOk peer peerSent e) (hpeer : ∀ m ∈ peer, m.Fits)
    (hfront : peerSent <+: framesOf peer) (hsock : e.transport.sock ≠ -1) (idx : Int)
    (pollIn pollOut pollErr : Bool) {env : EventEnv} (henv : Served env.input) :
    ∃ t, socketEventHandler e.transport idx pollIn pollOut pollErr env = some t ∧
      EndOk peer peerSent { e with transport := t } ∧ e.transport.sent <+: t.sent := by
  have hq : Queued e.transport := by
    rcases h.sending.state with ⟨-, hq⟩ | hdown
    · exact hq
    · exact absurd hdown.sock hsock
  obtain ⟨done, rest, hsplit, hbrings, htaking⟩ := h.receiving
  have hpre : peerSent.take e.arrived <+: framesOf (done ++ rest) := by
    rw [← hsplit]
    exact (List.take_prefix _ _).trans hfront
  obtain ⟨t, ht, hend⟩ := socketEventHandler_spec hq (htaking hsock)
    (fun m hm => hpeer m (by rw [hsplit]; exact List.mem_append_right _ hm)) hpre idx pollIn pollOut pollErr henv
  refine ⟨t, ht, ?_⟩
  cases hend with
  | down hdown hstream hgrows hempty =>
      refine ⟨⟨⟨h.sending.fits, ?_, fun hne => absurd hdown.connected hne, Or.inr hdown⟩, h.arrived, done, rest,
        hsplit, hbrings, fun hne => absurd hdown.sock hne⟩, hgrows⟩
      show t.sent ++ unsent t.ioq <+: _
      rw [hempty, unsent_nil, List.append_nil]
      exact hstream.trans h.sending.front
  | kept hkept htaking' =>
      refine ⟨⟨⟨h.sending.fits, ?_, ?_, Or.inl ⟨?_, hkept.queued⟩⟩, h.arrived, done, rest, hsplit, hbrings,
        fun _ => htaking'⟩, hkept.grows⟩
      · show t.sent ++ unsent t.ioq <+: _
        rw [hkept.stream]
        exact h.sending.front
      · intro hne
        exact hkept.stream.trans (h.sending.whole (hkept.connected hne))
      · show t.sock ≠ -1
        rw [hkept.sock]
        exact hsock

theorem receive_endOk (h : EndOk peer peerSent e) (given : Bool) :
    EndOk peer peerSent { e with
      transport := (socketReceive e.transport given).1
      received := e.received ++ (socketReceive e.transport given).2.toList } := by
  obtain ⟨done, rest, hsplit, hbrings, htaking⟩ := h.receiving
  unfold socketReceive
  by_cases hc : e.transport.connected = 1 ∧ given ∧ e.transport.incoming.state = .complete
  · rw [if_pos hc]
    have hup : e.transport.sock ≠ -1 := by
      rcases h.sending.state with ⟨hsock, -⟩ | hdown
      · exact hsock
      · have hconn := hc.1
        rw [hdown.connected] at hconn
        exact absurd hconn (by decide)
    have hstate : e.transport.sock ≠ -1 ∧ Queued { e.transport with incoming := .zero } := by
      rcases h.sending.state with ⟨-, hq⟩ | hdown
      · exact ⟨hup, hq.sound, hq.live⟩
      · exact absurd hdown.sock hup
    refine ⟨⟨h.sending.fits, h.sending.front, h.sending.whole, Or.inl hstate⟩, h.arrived, ?_⟩
    cases htaking hup with
    | reading now at' bytes => exact absurd hc.2.2 (resting_ne_complete at')
    | waiting m behind eq state brings bytes =>
        -- the message is handed out, and the next frame begins
        refine ⟨done ++ [m], behind, ?_, List.rel_append hbrings (.cons brings .nil), fun _ => ?_⟩
        · rw [hsplit, eq, List.append_cons]
        · exact .reading e.transport.inbound (.start rfl rfl rfl rfl) bytes
  · rw [if_neg hc]
    show EndOk peer peerSent { e with transport := e.transport, received := e.received ++ [] }
    rw [List.append_nil]
    exact h

theorem disconnect_endOk (h : EndOk peer peerSent e) :
    EndOk peer peerSent { e with transport := disconnect e.transport } ∧
      e.transport.sent <+: (disconnect e.transport).sent := by
  rw [disconnect_same]
  refine ⟨⟨⟨h.sending.fits, h.sending.front, fun hne => h.sending.whole ?_, ?_⟩, h.arrived,
    h.receiving.congr rfl rfl⟩, List.prefix_rfl⟩
  · -- a transport that is connected now was connected before
    intro hc
    refine hne ?_
    show (disconnect e.transport).connected = notConnected
    unfold disconnect
    split
    · rfl
    · exact hc
  · rcases h.sending.state with ⟨hsock, hq⟩ | hdown
    · exact Or.inl ⟨hsock, hq.sound, hq.live⟩
    · refine Or.inr ⟨hdown.sock, ?_⟩
      show (disconnect e.transport).connected = notConnected
      rw [disconnect, if_neg (by rw [hdown.sock]; decide)]
      exact hdown.connected

theorem arrive_endOk (h : EndOk peer peerSent e) (n : Nat) :
    EndOk peer peerSent { e with
      transport := { e.transport with inbound := e.transport.inbound ++ (peerSent.drop e.arrived).take n }
      arrived := e.arrived + ((peerSent.drop e.arrived).take n).length } := by
  obtain ⟨done, rest, hsplit, hbrings, htaking⟩ := h.receiving
  have hlen : ((peerSent.drop e.arrived).take n).length ≤ peerSent.length - e.arrived := by
    rw [List.length_take, List.length_drop]
    omega
  have hwithin : e.arrived + ((peerSent.drop e.arrived).take n).length ≤ peerSent.length := by
    have := h.arrived
    omega
  have htake : peerSent.take (e.arrived + ((peerSent.drop e.arrived).take n).length)
      = peerSent.take e.arrived ++ (peerSent.drop e.arrived).take n := by
    rw [List.take_add]
    congr 1
    rw [List.length_take, List.take_eq_take_min (i := n) (l := peerSent.drop e.arrived)]
  refine ⟨⟨h.sending.fits, h.sending.front, h.sending.whole, ?_⟩, hwithin, done, rest, hsplit, hbrings,
    fun hsock => ?_⟩
  · rcases h.sending.state with ⟨hsock, hq⟩ | hdown
    · exact Or.inl ⟨hsock, hq.sound, hq.live⟩
    · exact Or.inr ⟨hdown.sock, hdown.connected⟩
  · rw [htake]
    exact (htaking hsock).arrive _

/-- **One operation at an end** keeps the end in order, and is at most one more
message for the other end. -/
theorem endStep_endOk (h : EndOk peer peerSent e) (hpeer : ∀ m ∈ peer, m.Fits)
    (hfront : peerSent <+: framesOf peer) (op : EndOp) (hop : endAllowed e op) :
    ∃ e', endStep e peerSent op = some e' ∧ EndOk peer peerSent e' ∧ Onward e e' := by
  cases op with
  | submit m script room refused =>
      obtain ⟨r, hr, hok, hgrows⟩ := submit_endOk h hop.1 hop.2 script room refused
      refine ⟨_, congrArg (Option.map _) hr, hok, ?_, hgrows⟩
      show (if r.2 = 0 then e.accepted ++ [m] else e.accepted) = _ ∨ ∃ m', (if r.2 = 0 then _ else _) = _
      by_cases h0 : r.2 = 0
      · exact Or.inr ⟨m, if_pos h0⟩
      · exact Or.inl (if_neg h0)
  | event idx pollIn pollOut pollErr env =>
      obtain ⟨t, ht, hok, hgrows⟩ := event_endOk h hpeer hfront hop.1 idx pollIn pollOut pollErr hop.2
      exact ⟨_, congrArg (Option.map _) ht, hok, Or.inl rfl, hgrows⟩
  | receive given =>
      refine ⟨_, rfl, receive_endOk h given, Or.inl rfl, ?_⟩
      show _ <+: (socketReceive e.transport given).1.sent
      unfold socketReceive
      split <;> exact List.prefix_rfl
  | disconnect =>
      obtain ⟨hok, hgrows⟩ := disconnect_endOk h
      exact ⟨_, rfl, hok, Or.inl rfl, hgrows⟩
  | arrive n => exact ⟨_, rfl, arrive_endOk h n, Or.inl rfl, List.prefix_rfl⟩

end Operation

/-! ## §6. Runs. -/

/-- The invariant of a conversation. -/
def Talking (s : Side → End) : Prop := ∀ i : Side, EndOk (s i.other).accepted (s i.other).transport.sent (s i)

theorem other_ne (i : Side) : i.other ≠ i := by cases i <;> decide

theorem conversation_step (s : Side → End) (op : Side × EndOp) (h : Talking s) (hop : conversation.allowed s op) :
    ∃ s', conversation.step s op = some s' ∧ Talking s' := by
  obtain ⟨i, op⟩ := op
  have hpeer := (h i.other).sending
  obtain ⟨e', he', hok, honward⟩ := endStep_endOk (h i) hpeer.fits
    (List.IsPrefix.trans ⟨_, rfl⟩ hpeer.front) op hop
  refine ⟨fun side => if side = i then e' else s side, congrArg (Option.map _) he', fun j => ?_⟩
  by_cases hj : j = i
  · -- the end itself
    subst hj
    show EndOk (if j.other = j then e' else s j.other).accepted (if j.other = j then e' else s j.other).transport.sent
      (if j = j then e' else s j)
    rw [if_neg (other_ne j), if_pos rfl]
    exact hok
  · -- the other end: it is the only one
    have hother : j.other = i := by
      cases i <;> cases j <;> first | rfl | exact absurd rfl hj
    show EndOk (if j.other = i then e' else s j.other).accepted (if j.other = i then e' else s j.other).transport.sent
      (if j = i then e' else s j)
    rw [if_neg hj, if_pos hother]
    have hj := h j
    rw [hother] at hj
    exact hj.onward honward

/-- Everything that one end has accepted has left its queue, has arrived at the
other end and has been read there, and no message waits to be received. -/
structure Settled (sender receiver : End) : Prop where
  up : sender.transport.connected ≠ notConnected
  queue : sender.transport.ioq = []
  flight : receiver.arrived = sender.transport.sent.length
  there : receiver.transport.sock ≠ -1
  read : receiver.transport.inbound = []
  received : receiver.transport.incoming.state ≠ .complete

/-- With all bytes read, less than a frame cannot be a message. -/
theorem Taking.drained {done rest : List Message} {s : Reader} (h : Taking done rest (framesOf (done ++ rest)) s)
    (hfits : ∀ m ∈ rest, m.Fits) (hread : s.inbound = []) (hstate : s.incoming.state ≠ .complete) : rest = [] := by
  cases h with
  | waiting m behind eq state brings bytes => exact absurd state hstate
  | reading now at' bytes =>
      rw [framesOf_append] at bytes
      have hnow : now = framesOf rest := List.append_cancel_left bytes
      cases rest with
      | nil => rfl
      | cons m behind =>
          exfalso
          have hfront : now = m.frame ++ framesOf behind := hnow
          have htwelve := twelve_le_frame m
          have hlen : m.frame.length ≤ now.length := by
            rw [hfront, List.length_append]
            omega
          cases at' with
          | start state inbound header iobuf =>
              rw [hread] at inbound
              rw [← inbound, List.length_nil] at hlen
              omega
          | header at' =>
              obtain ⟨mem₀, got, -, -, hlt, hreading⟩ := at'.reading
              have hgot : now = got ++ s.inbound := hreading.stream_eq
              rw [hread, List.append_nil] at hgot
              rw [hgot] at hlen
              omega
          | data at' =>
              obtain ⟨size1, size2, a, page, got, hvalid, -, -, -, hlt, hreading⟩ := at'.reading
              have hgot : now.drop 12 = got ++ s.inbound := hreading.stream_eq
              rw [hread, List.append_nil] at hgot
              have hm := hfits m List.mem_cons_self
              have hheader : now.take 12 = socketHeader m.buf.length (iovLength m.vector) := by
                rw [hfront, List.take_append_of_le_length htwelve, Message.frame, List.append_assoc]
                exact List.take_left' (socketHeader_length _ _)
              rw [hheader] at hvalid
              obtain ⟨hsizes, -⟩ := validateHeader_lengths (by have := hm.len; omega) hm.total hvalid
              cases hsizes
              have hframe : m.frame.length = 12 + m.buf.length + iovLength m.vector := by
                show (socketHeader _ _ ++ m.buf ++ m.vector.flatten).length = _
                rw [List.length_append, List.length_append, socketHeader_length, iovLength_eq]
              have hdrop : (now.drop 12).length = got.length := congrArg List.length hgot
              rw [List.length_drop] at hdrop
              omega

/-- **First in, first out, whatever happens.**  After any interleaving of
submissions, events, receives, disconnects and arrivals at the two ends of a
connection, with reads and writes cut and failing as they like: nothing has
gone wrong in memory, and the messages received at an end carry the header
block and the payload of a front of the messages accepted at the other end, in
order; none is lost in between, doubled or invented.  While no message waits, a
POLLIN event goes on with the bytes that its reads deliver, unless it tears the
transport down.  When nothing is under way any more, the messages received are
all of them. -/
theorem conversation_fifo (pool : Side → EventPool) (sock idx : Side → Int) (connected : Side → UInt8)
    (hsock : ∀ i, sock i ≠ -1) (hlive : ∀ i, (pool i).regNull = false) (ops : List (Side × EndOp))
    (hl : conversation.Legal (fun i => .start (pool i) (sock i) (idx i) (connected i)) ops) :
    ∃ s, conversation.run (fun i => .start (pool i) (sock i) (idx i) (connected i)) ops = some s ∧
      ∀ i : Side,
        (∃ done rest, (s i.other).accepted = done ++ rest ∧ List.Forall₂ Received.Brings (s i).received done ∧
          ((s i).transport.sock ≠ -1 → (s i).transport.connected = 1 →
            (s i).transport.incoming.state ≠ .complete → ∀ idx env, Served env.input →
              ∃ t', socketEventHandler (s i).transport idx true false false env = some t' ∧
                (t'.sock = -1 ∨ Reads (((s i.other).transport.sent.take (s i).arrived).drop
                  (framesOf done).length) (s i).transport t' env.input))) ∧
        (Settled (s i.other) (s i) → List.Forall₂ Received.Brings (s i).received (s i.other).accepted) := by
  have hstart : Talking fun i => .start (pool i) (sock i) (idx i) (connected i) := fun i =>
    ⟨Sending.start _ _ _ _ (hsock i) (hlive i), Nat.le_refl 0, Receiving.start _ _ _ _⟩
  obtain ⟨s, hs, htalking⟩ := conversation.run_inv conversation_step ops _ hstart hl
  refine ⟨s, hs, fun i => ?_⟩
  obtain ⟨done, rest, hsplit, hbrings, htaking⟩ := (htalking i).receiving
  refine ⟨⟨done, rest, hsplit, hbrings, fun hsock hconn hstate idx env henv => ?_⟩, fun hsettled => ?_⟩
  · have hlive : (s i).transport.pool.regNull = false := by
      rcases (htalking i).sending.state with ⟨-, hq⟩ | hdown
      · exact hq.live
      · exact absurd hdown.sock hsock
    exact (htaking hsock).reads hconn hlive hstate idx henv
  have hsending := (htalking i.other).sending
  have hall : (s i.other).transport.sent = framesOf (done ++ rest) := by
    have hwhole := hsending.whole hsettled.up
    rw [hsettled.queue, unsent_nil, List.append_nil, hsplit] at hwhole
    exact hwhole
  have htaking := htaking hsettled.there
  rw [hsettled.flight, List.take_length, hall] at htaking
  have hrest : rest = [] := htaking.drained
    (fun m hm => hsending.fits m (by rw [hsplit]; exact List.mem_append_right _ hm)) hsettled.read hsettled.received
  rw [hsplit, hrest, List.append_nil]
  exact hbrings

instance (env : PollIn) : Decidable (Served env) :=
  decidable_of_iff (env.malloc.isSome = true ∧ env.iobuf.all (fun page => decide (maxSize2 ≤ page.mem.length)) = true) <| by
    rw [Option.isSome_iff_exists, Option.all_eq_true]
    simp only [decide_eq_true_eq]
    exact ⟨fun h => ⟨h.1, h.2⟩, fun h => ⟨h.malloc, h.page⟩⟩

instance (m : Message) : Decidable m.Fits :=
  decidable_of_iff (m.buf.length < 2 ^ 31 ∧ iovLength m.vector < 2 ^ 32) ⟨fun h => ⟨h.1, h.2⟩, fun h => ⟨h.len, h.total⟩⟩

instance (e : End) : ∀ op : EndOp, Decidable (endAllowed e op)
  | .submit m _ _ _ => inferInstanceAs (Decidable (m.vector.length ≤ maxIovec - 2 ∧ m.Fits))
  | .event _ _ _ _ env => inferInstanceAs (Decidable (e.transport.sock ≠ -1 ∧ Served env.input))
  | .receive _ => isTrue trivial
  | .disconnect => isTrue trivial
  | .arrive _ => isTrue trivial

instance (s : Side → End) (op : Side × EndOp) : Decidable (conversation.allowed s op) :=
  inferInstanceAs (Decidable (endAllowed (s op.1) op.2))

/-- An event of the left end that writes, and one of the right end that reads. -/
def writeEvent (take : Nat) : EventEnv := ⟨.done, [[.take take]], false, ⟨[], [], some 7, none⟩, false, false⟩
def readEvent (header data : Nat) : EventEnv :=
  ⟨.done, [], false, ⟨[.data header], [.data data], some 7, none⟩, false, false⟩

/-- A message of two bytes, written in two parts, read in three, and received;
a second one is lost when the left end disconnects. -/
def greeting : List (Side × EndOp) :=
  [(.left, .submit ⟨20, [1, 2], [], none⟩ [.take 5] true false),
    (.right, .arrive 4), (.right, .event 0 true false false (readEvent 3 0)),
    (.left, .event 0 false true false (writeEvent 9)),
    (.right, .arrive 100), (.right, .event 0 true false false (readEvent 12 1)),
    (.right, .event 0 true false false (readEvent 0 9)), (.right, .receive true),
    (.left, .submit ⟨30, [3], [], none⟩ [] true false), (.left, .disconnect),
    (.left, .event 0 true true false (writeEvent 9))]

theorem conversation_fifo_greeting :
    ∃ s, conversation.run (fun _ => .start acceptedFive.pool 5 0 1) greeting = some s ∧
      ∀ i : Side,
        (∃ done rest, (s i.other).accepted = done ++ rest ∧ List.Forall₂ Received.Brings (s i).received done ∧
          ((s i).transport.sock ≠ -1 → (s i).transport.connected = 1 →
            (s i).transport.incoming.state ≠ .complete → ∀ idx env, Served env.input →
              ∃ t', socketEventHandler (s i).transport idx true false false env = some t' ∧
                (t'.sock = -1 ∨ Reads (((s i.other).transport.sent.take (s i).arrived).drop
                  (framesOf done).length) (s i).transport t' env.input))) ∧
        (Settled (s i.other) (s i) → List.Forall₂ Received.Brings (s i).received (s i.other).accepted) :=
  conversation_fifo (fun _ => acceptedFive.pool) (fun _ => 5) (fun _ => 0) (fun _ => 1) (fun _ => by decide)
    (fun _ => rfl) greeting (conversation.legal_of_check (by decide +kernel))

-- one message received, two accepted; the left end is down
example : (conversation.run (fun _ => .start acceptedFive.pool 5 0 1) greeting).map (fun s =>
      ((s .right).received, (s .left).accepted.length, (s .left).transport.sock))
    = some ([⟨some ⟨7, [some 1, some 2]⟩, 2, none⟩], 2, -1) := by decide +kernel

end LzLib.Socket
