/-
  LzLib.Socket.Delivery
  ─────────────────────
  **EVERY FRAME IS DELIVERED ONCE, WHILE MESSAGES ARE COLLECTED IN TIME.**

  A stream of valid frames is read by POLLIN events and collected by
  `socket_receive`.  `Delivering` is the invariant: what was collected is a
  front of the frames, a completed message is the next one, and the rest of
  the stream is still to come.

  The machine returns its initial -1 when an event finds it complete, and the
  handler then closes the connection with the message in it; `delivery_exact`
  says that the invariant holds along every run without such an event, and
  that such an event does tear the connection down.
-/
import LzLib.Event.Registry
import LzLib.Foundation.Runs
import LzLib.Socket.Framing

namespace LzLib.Socket

open LzLib.Foundation
open LzLib.Event

/-! ## §1. Valid frames on the wire. -/

/-- What a peer sends: a header block and a payload of the sizes that
validation accepts. -/
structure Frame where
  hdr : Bytes
  payload : Bytes
  hdr_pos : 0 < hdr.length
  hdr_le : hdr.length ≤ maxSize1
  payload_le : payload.length ≤ maxSize2

/-- The bytes of a frame. -/
def Frame.encode (f : Frame) : Bytes :=
  socketHeader f.hdr.length f.payload.length ++ f.hdr ++ f.payload

/-- The bytes of a sequence of frames. -/
def encodeAll (frames : List Frame) : Bytes := frames.flatMap Frame.encode

theorem encodeAll_cons (f : Frame) (frames : List Frame) :
    encodeAll (f :: frames)
      = socketHeader f.hdr.length f.payload.length ++ (f.hdr ++ (f.payload ++ encodeAll frames)) := by
  show f.encode ++ encodeAll frames = _
  rw [Frame.encode, List.append_assoc, List.append_assoc]

theorem take_encodeAll (f : Frame) (frames : List Frame) :
    (encodeAll (f :: frames)).take 12 = socketHeader f.hdr.length f.payload.length := by
  rw [encodeAll_cons]
  exact List.take_left' (socketHeader_length _ _)

theorem drop_encodeAll (f : Frame) (frames : List Frame) :
    (encodeAll (f :: frames)).drop 12 = f.hdr ++ (f.payload ++ encodeAll frames) := by
  rw [encodeAll_cons]
  exact List.drop_left' (socketHeader_length _ _)

/-- The header of a frame passes validation and announces its sizes. -/
theorem validateHeader_socketHeader {size1 size2 : Nat} (hpos : 0 < size1) (h1 : size1 ≤ maxSize1)
    (h2 : size2 ≤ maxSize2) :
    validateHeader (socketHeader size1 size2) = some (size1, size2) := by
  have hm1 : maxSize1 < 2 ^ 32 := by decide
  have hm2 : maxSize2 < 2 ^ 32 := by decide
  have hw1 : getWordU ((socketHeader size1 size2).drop 3) = some size1 := by
    show getWordU (putWord size1 ++ (putWord size2 ++ [42])) = _
    exact getWordU_putWord (by omega) _
  have hw2 : getWordU ((socketHeader size1 size2).drop 7) = some size2 := by
    show getWordU (putWord size2 ++ [42]) = _
    exact getWordU_putWord (by omega) _
  have hsign : ¬ ((socketHeader size1 size2).take 3 ≠ [0x3a, 0x4f, 0]) := not_not.mpr rfl
  have hversion : ¬ ((socketHeader size1 size2)[11]? ≠ some 42) := not_not.mpr rfl
  rw [validateHeader, if_neg hsign, if_neg hversion, hw1, hw2, Option.bind_some, Option.bind_some,
    if_neg (by omega), if_neg (by omega)]

theorem validateHeader_encodeAll (f : Frame) (frames : List Frame) :
    validateHeader ((encodeAll (f :: frames)).take 12) = some (f.hdr.length, f.payload.length) := by
  rw [take_encodeAll]
  exact validateHeader_socketHeader f.hdr_pos f.hdr_le f.payload_le

theorem validateHeader_nil : validateHeader (([] : Bytes).take 12) = none := by decide

/-! ## §2. Messages. -/

/-- The message handed out is the frame: the block `hdr_p` is its header, and
the page of the iobuf starts with its payload. -/
structure Received.Carries (m : Received) (f : Frame) : Prop where
  hdrlen : m.hdrlen = f.hdr.length
  hdr : ∃ a, m.hdrP = some ⟨a, f.hdr.map some⟩
  payload : if f.payload.length = 0 then m.iobuf = none
    else ∃ page, m.iobuf = some page ∧ page.mem.take f.payload.length = f.payload.map some

/-- The message that waits in `priv->incoming`. -/
def Incoming.message (inc : Incoming) : Received := ⟨inc.mem.hdrP, inc.hdrlen, inc.mem.iobuf⟩

/-- A completed frame carries the first frame of the stream. -/
theorem Complete.carries {f : Frame} {frames : List Frame} {s : Reader}
    (h : Complete (encodeAll (f :: frames)) s) :
    s.incoming.message.Carries f ∧ s.inbound = encodeAll frames := by
  obtain ⟨size1, size2, hvalid, -, hin, hhdrlen, -, ⟨a, hhdr⟩, hpayload⟩ := h.frame
  rw [validateHeader_encodeAll] at hvalid
  cases hvalid
  have hback : (encodeAll (f :: frames)).drop (12 + f.hdr.length) = f.payload ++ encodeAll frames := by
    rw [← List.drop_drop, drop_encodeAll, List.drop_left]
  rw [drop_encodeAll, List.take_left] at hhdr
  rw [hback, List.take_left] at hpayload
  refine ⟨⟨hhdrlen, ⟨a, hhdr⟩, hpayload⟩, ?_⟩
  rw [hin, ← List.drop_drop, hback, List.drop_left]

/-! ## §3. The invariant. -/

/-- A transport, and the messages collected from it. -/
structure Delivery where
  transport : Transport
  received : List Received

/-- Where the stream of the frames `rest` stands. -/
inductive Standing (rest : List Frame) (s : Reader) : Prop where
  /-- The next frame is not complete. -/
  | reading (at' : Resting (encodeAll rest) s) (state : s.incoming.state ≠ .complete)
  /-- The next frame waits to be collected. -/
  | waiting (f : Frame) (rest' : List Frame) (eq : rest = f :: rest')
      (state : s.incoming.state = .complete) (carries : s.incoming.message.Carries f)
      (inbound : s.inbound = encodeAll rest')

/-- Nothing but the reading has changed since `t₀`. -/
def SameBut (t₀ t : Transport) : Prop :=
  t = { t₀ with idx := t.idx, inbound := t.inbound, incoming := t.incoming }

/-- The invariant of delivery: the frames are those collected and those to come. -/
structure Delivering (frames : List Frame) (t₀ : Transport) (s : Delivery) : Prop where
  same : SameBut t₀ s.transport
  split : ∃ done rest, frames = done ++ rest ∧ List.Forall₂ Received.Carries s.received done ∧
    Standing rest s.transport.reader

/-- The system serves an event: both allocations succeed, the page holds every
payload, and the reads deliver data or have none yet. -/
structure Fed (frames : List Frame) (env : EventEnv) : Prop where
  malloc : ∃ a, env.input.malloc = some a
  iobuf : ∃ page, env.input.iobuf = some page ∧ ∀ f ∈ frames, f.payload.length ≤ page.mem.length
  clean : ∀ ev ∈ env.input.headerScript ++ env.input.dataScript, ¬ ev.Broken

/-- The bytes of the stream that have been read. -/
def Reader.taken (stream : Bytes) (s : Reader) : Nat := stream.length - s.inbound.length

/-- **An event reads**: it consumes what its calls deliver of the first frame of
the stream, which is complete with its last byte. -/
structure Reads (stream : Bytes) (t t' : Transport) (env : PollIn) : Prop where
  inbound : t'.inbound = t.inbound.drop (frameDelivered stream env (t.reader.taken stream))
  complete : t'.incoming.state = .complete ↔
    frameLength stream = some (t.reader.taken stream + frameDelivered stream env (t.reader.taken stream))

/-! ## §4. One event. -/

theorem resting_ne_complete {stream : Bytes} {s : Reader} (h : Resting stream s) :
    s.incoming.state ≠ .complete := by
  cases h with
  | start state _ _ _ =>
      rw [state]
      decide
  | header at' =>
      rw [at'.state]
      decide
  | data at' =>
      rw [at'.state]
      decide

/-- The bytes read so far. -/
theorem Resting.taken {stream : Bytes} {s : Reader} (h : Resting stream s) :
    s.inbound = stream.drop (s.taken stream) ∧ s.taken stream ≤ stream.length := by
  obtain ⟨k, hk, hle⟩ := h.read
  have htaken : s.taken stream = k := by
    rw [Reader.taken, hk, List.length_drop]
    omega
  rw [htaken]
  exact ⟨hk, hle⟩

/-- **An event while a frame is being read** does not fail, and leaves the
stream where it stands or the next frame complete. -/
theorem protoStateMachine_reading {frames done rest : List Frame} (hframes : frames = done ++ rest)
    {env : EventEnv} (hfed : Fed frames env) {s : Reader} (h : Resting (encodeAll rest) s) :
    ∃ r, protoStateMachine env.input s = some r ∧ 0 ≤ r.ret ∧ Standing rest r.reader ∧
      FrameStep (encodeAll rest) env.input (s.taken (encodeAll rest)) r := by
  obtain ⟨a, ha⟩ := hfed.malloc
  obtain ⟨page, hpage, hholds⟩ := hfed.iobuf
  have hok : PageOk (encodeAll rest) env.input := by
    intro size1 size2 page' hvalid hpage'
    rw [hpage] at hpage'
    cases hpage'
    cases rest with
    | nil =>
        rw [show encodeAll [] = [] from rfl, validateHeader_nil] at hvalid
        cases hvalid
    | cons f rest =>
        rw [validateHeader_encodeAll] at hvalid
        cases hvalid
        exact hholds f (by rw [hframes]; simp)
  obtain ⟨hk, hle⟩ := h.taken
  obtain ⟨r, hr, hout, htook⟩ := protoStateMachine_takes h hk hle ha hok
  have hstep := frameStep_of_outcome hout hle htook
  refine ⟨r, hr, ?_⟩
  cases hout with
  | complete hret hstuck hat =>
      refine ⟨by omega, ?_, hstep⟩
      cases rest with
      | nil =>
          obtain ⟨size1, size2, hvalid, -⟩ := hat.frame
          rw [show encodeAll [] = [] from rfl, validateHeader_nil] at hvalid
          cases hvalid
      | cons f rest =>
          obtain ⟨hcarries, hin⟩ := hat.carries
          exact .waiting f rest rfl hat.state hcarries hin
  | waiting hret hstuck hat =>
      have hrest : Resting (encodeAll rest) r.reader := hat.elim .header .data
      exact ⟨by omega, .reading hrest (resting_ne_complete hrest), hstep⟩
  | failed hret hstuck hat hcause =>
      -- a stream of valid frames, served by the system, gives no cause
      exfalso
      rcases hcause with ⟨hlen, hnone⟩ | ⟨hnone, -⟩ | ⟨ev, hev, hbroken⟩
      · cases rest with
        | nil =>
            have hlen : 12 ≤ ([] : Bytes).length := hlen
            rw [List.length_nil] at hlen
            omega
        | cons f rest =>
            rw [validateHeader_encodeAll] at hnone
            cases hnone
      · rw [hpage] at hnone
        cases hnone
      · exact hfed.clean ev hev hbroken

/-- A POLLIN event on a connected transport is one call of the machine. -/
theorem socketEventHandler_pollIn {t : Transport} (hconn : t.connected = 1) (idx : Int)
    (env : EventEnv) {r : ProtoResult} (hr : protoStateMachine env.input t.reader = some r) :
    socketEventHandler t idx true false false env
      = if r.ret < 0 then
          eventPollErr { t with idx, inbound := r.reader.inbound, incoming := r.reader.incoming }
            env.delRefused env.modRefused
        else
          some { t with idx, inbound := r.reader.inbound, incoming := r.reader.incoming } := by
  have hne : ¬ (t.connected = 0) := by
    rw [hconn]
    decide
  have hin : eventPollIn { t with idx } env.input
      = some ({ t with idx, inbound := r.reader.inbound, incoming := r.reader.incoming }, r.ret) := by
    show Option.map _ (protoStateMachine env.input t.reader) = _
    rw [hr]
    rfl
  unfold socketEventHandler
  simp only [if_neg hne]
  rw [if_neg Bool.false_ne_true, Option.bind_some, if_pos ⟨rfl, trivial⟩, hin, Option.bind_some,
    handlerEnd]
  by_cases hneg : r.ret < 0
  · rw [if_pos (Or.inl hneg), if_pos hneg]
  · rw [if_neg hneg, if_neg]
    rintro (h | h)
    · exact hneg h
    · cases h

/-- The machine, found complete, returns what it started with. -/
theorem protoStateMachine_complete {env : PollIn} {s : Reader} (h : s.incoming.state = .complete) :
    protoStateMachine env s = some ⟨-1, false, s⟩ :=
  protoLoop_complete h 5 none (-1)

/-- **An event that finds a message waiting** tears the connection down. -/
theorem socketEventHandler_complete {t : Transport} (hconn : t.connected = 1)
    (hpool : t.pool.regNull = false) (h : t.incoming.state = .complete) (idx : Int)
    (env : EventEnv) :
    ∃ t', socketEventHandler t idx true false false env = some t' ∧
      t'.connected = notConnected ∧ t'.sock = -1 ∧ t'.incoming = .zero := by
  have hr : protoStateMachine env.input t.reader = some ⟨-1, false, t.reader⟩ :=
    protoStateMachine_complete h
  rw [socketEventHandler_pollIn hconn idx env hr, if_pos (show (-1 : Int) < 0 by decide)]
  obtain ⟨p, hp⟩ := eventUnregister_total hpool t.sock idx env.delRefused env.modRefused
  have hdown : ∀ t₁ : Transport, t₁.pool = t.pool → t₁.sock = t.sock → t₁.idx = idx →
      ∃ t', eventPollErr t₁ env.delRefused env.modRefused = some t' ∧
        t'.connected = notConnected ∧ t'.sock = -1 ∧ t'.incoming = .zero := by
    intro t₁ hp₁ hs₁ hi₁
    rw [← hp₁, ← hs₁, ← hi₁] at hp
    exact ⟨_, congrArg (Option.map _) hp, rfl, rfl, rfl⟩
  exact hdown _ rfl rfl rfl

/-! ## §5. Runs. -/

/-- POLLIN events and calls of `socket_receive`. -/
inductive InOp where
  | pollIn (idx : Int) (env : EventEnv)
  | receive (given : Bool)

def inStep (s : Delivery) : InOp → Option Delivery
  | .pollIn idx env =>
      (socketEventHandler s.transport idx true false false env).map fun t => ⟨t, s.received⟩
  | .receive given =>
      let r := socketReceive s.transport given
      some ⟨r.1, s.received ++ r.2.toList⟩

/-- The incoming side of a transport whose peer sends `frames`; no event comes
while a message waits. -/
def delivery (frames : List Frame) : Component Delivery InOp where
  step := inStep
  allowed s op := match op with
    | .pollIn _ env => Fed frames env ∧ s.transport.incoming.state ≠ .complete
    | .receive _ => True

theorem sameBut_connected {t₀ t : Transport} (h : SameBut t₀ t) : t.connected = t₀.connected := by
  rw [h]

/-- What an event leaves of the stream, if the transport stays. -/
theorem Resting.reads {stream : Bytes} {t : Transport} (h : Resting stream t.reader) {env : PollIn}
    {r : ProtoResult} (hstep : FrameStep stream env (t.reader.taken stream) r) (idx : Int) :
    Reads stream t { t with idx, inbound := r.reader.inbound, incoming := r.reader.incoming } env := by
  refine ⟨?_, hstep.complete⟩
  have hin : t.inbound = stream.drop (t.reader.taken stream) := h.taken.1
  show r.reader.inbound = _
  rw [hstep.consumed, hin, List.drop_drop]

/-- **A POLLIN event**, with the frames `rest` still to come. -/
theorem pollIn_delivering {frames done rest : List Frame} {t₀ : Transport} (hconn : t₀.connected = 1)
    {s : Delivery} (hsame : SameBut t₀ s.transport) (hframes : frames = done ++ rest)
    (hcarried : List.Forall₂ Received.Carries s.received done) (hstanding : Standing rest s.transport.reader)
    (idx : Int) {env : EventEnv} (hfed : Fed frames env) (hstate : s.transport.incoming.state ≠ .complete) :
    ∃ t', socketEventHandler s.transport idx true false false env = some t' ∧
      Delivering frames t₀ ⟨t', s.received⟩ ∧ Reads (encodeAll rest) s.transport t' env.input := by
  have hc : s.transport.connected = 1 := (sameBut_connected hsame).trans hconn
  cases hstanding with
  | waiting f rest' heq hcomplete _ _ => exact absurd hcomplete hstate
  | reading hat _ =>
      obtain ⟨r, hr, hret, hstanding, hstep⟩ := protoStateMachine_reading hframes hfed hat
      rw [socketEventHandler_pollIn hc idx env hr, if_neg (by omega)]
      refine ⟨_, rfl, ⟨?_, done, rest, hframes, hcarried, hstanding⟩, hat.reads hstep idx⟩
      show SameBut t₀ _
      rw [SameBut, hsame]

theorem receive_delivering {frames : List Frame} {t₀ : Transport} {s : Delivery}
    (h : Delivering frames t₀ s) (given : Bool) :
    Delivering frames t₀ ⟨(socketReceive s.transport given).1,
      s.received ++ (socketReceive s.transport given).2.toList⟩ := by
  obtain ⟨done, rest, hframes, hcarried, hstanding⟩ := h.split
  unfold socketReceive
  split
  next hc =>
    cases hstanding with
    | reading _ hne => exact absurd hc.2.2 hne
    | waiting f rest' heq hcomplete hcarries hin =>
        -- the waiting message is handed out, and the next frame begins
        refine ⟨?_, done ++ [f], rest', ?_, ?_, ?_⟩
        · show SameBut t₀ _
          rw [SameBut, h.same]
        · rw [hframes, heq, List.append_cons]
        · exact List.rel_append hcarried (.cons hcarries .nil)
        · have hstart : Resting (encodeAll rest')
              (Transport.reader { s.transport with incoming := .zero }) :=
            .start rfl hin rfl rfl
          exact .reading hstart (resting_ne_complete hstart)
  next =>
    refine ⟨h.same, done, rest, hframes, ?_, hstanding⟩
    show List.Forall₂ _ (s.received ++ []) done
    rw [List.append_nil]
    exact hcarried

theorem inStep_delivering {frames : List Frame} {t₀ : Transport} (hconn : t₀.connected = 1)
    (s : Delivery) (op : InOp) (h : Delivering frames t₀ s) (hop : (delivery frames).allowed s op) :
    ∃ s', (delivery frames).step s op = some s' ∧ Delivering frames t₀ s' := by
  cases op with
  | pollIn idx env =>
      obtain ⟨done, rest, hframes, hcarried, hstanding⟩ := h.split
      obtain ⟨t', ht', hd, -⟩ := pollIn_delivering hconn h.same hframes hcarried hstanding idx hop.1 hop.2
      exact ⟨_, by show Option.map _ (socketEventHandler _ _ _ _ _ _) = _; rw [ht', Option.map_some], hd⟩
  | receive given => exact ⟨_, rfl, receive_delivering h given⟩

theorem delivery_run_inv {frames : List Frame} {t : Transport} (hconn : t.connected = 1)
    (hincoming : t.incoming = .zero) (hstream : t.inbound = encodeAll frames) {ops : List InOp}
    (hl : (delivery frames).Legal ⟨t, []⟩ ops) :
    ∃ s, (delivery frames).run ⟨t, []⟩ ops = some s ∧ Delivering frames t s := by
  have hstart : Resting (encodeAll frames) t.reader := by
    refine .start ?_ hstream ?_ ?_
    · show t.incoming.state = .nada
      rw [hincoming]
      rfl
    · show t.incoming.mem.header.length = 12
      rw [hincoming]
      rfl
    · show t.incoming.mem.iobuf = none
      rw [hincoming]
      rfl
  have hinit : Delivering frames t ⟨t, []⟩ :=
    ⟨rfl, [], frames, rfl, .nil, .reading hstart (resting_ne_complete hstart)⟩
  exact (delivery frames).run_inv (inStep_delivering hconn) ops _ hinit hl

/-- **Delivery is exact while messages are collected in time.**  After any run
of POLLIN events, none of which finds a message waiting, and receives: the
connection is up and nothing was released; the messages received carry a
front of the frames, in order; a message that waits carries the next one, and
what is to be read are the frames behind it.  The next event keeps the
connection up if and only if no message waits; then it consumes what its reads
deliver, and completes the next frame with its last byte. -/
theorem delivery_exact (frames : List Frame) (t : Transport) (hconn : t.connected = 1)
    (hpool : t.pool.regNull = false) (hincoming : t.incoming = .zero)
    (hstream : t.inbound = encodeAll frames) (ops : List InOp)
    (hl : (delivery frames).Legal ⟨t, []⟩ ops) :
    ∃ s, (delivery frames).run ⟨t, []⟩ ops = some s ∧
      s.transport.sock = t.sock ∧ s.transport.connected = 1 ∧ s.transport.log = t.log ∧
      ∃ done rest, frames = done ++ rest ∧ List.Forall₂ Received.Carries s.received done ∧
        Standing rest s.transport.reader ∧
        ∀ idx env, Fed frames env →
          ∃ t', socketEventHandler s.transport idx true false false env = some t' ∧
            (t'.connected = 1 ↔ s.transport.incoming.state ≠ .complete) ∧
            (s.transport.incoming.state ≠ .complete → Reads (encodeAll rest) s.transport t' env.input) := by
  obtain ⟨s, hs, hd⟩ := delivery_run_inv hconn hincoming hstream hl
  have hsock : s.transport.sock = t.sock := by rw [hd.same]
  have hlog : s.transport.log = t.log := by rw [hd.same]
  have hpool' : s.transport.pool.regNull = false := by
    rw [hd.same]
    exact hpool
  have hc : s.transport.connected = 1 := (sameBut_connected hd.same).trans hconn
  obtain ⟨done, rest, hframes, hcarried, hstanding⟩ := hd.split
  refine ⟨s, hs, hsock, hc, hlog, done, rest, hframes, hcarried, hstanding, fun idx env hfed => ?_⟩
  by_cases hstate : s.transport.incoming.state = .complete
  · obtain ⟨t', ht', hdown, -, -⟩ := socketEventHandler_complete hc hpool' hstate idx env
    refine ⟨t', ht', ⟨fun hup => ?_, fun hne => absurd hstate hne⟩, fun hne => absurd hstate hne⟩
    rw [hdown] at hup
    exact absurd hup (by decide)
  · obtain ⟨t', ht', hd', hreads⟩ := pollIn_delivering hconn hd.same hframes hcarried hstanding idx hfed hstate
    exact ⟨t', ht', ⟨fun _ => hstate, fun _ => (sameBut_connected hd'.same).trans hconn⟩, fun _ => hreads⟩

/-- A frame of two header bytes. -/
def twoBytes : Frame where
  hdr := [1, 2]
  payload := []
  hdr_pos := by decide
  hdr_le := by decide
  payload_le := by decide

/-- An accepted connection whose peer sends it. -/
def twoBytesComing : Transport := { acceptedFive with inbound := encodeAll [twoBytes] }

/-- A POLLIN event with the given reads, served by the system. -/
def served (headerScript dataScript : List ReadEvent) : EventEnv :=
  ⟨.done, [], false, ⟨headerScript, dataScript, some 7, some ⟨8, []⟩⟩, false, false⟩

theorem served_fed {headerScript dataScript : List ReadEvent}
    (hclean : ∀ ev ∈ headerScript ++ dataScript, ¬ ev.Broken) :
    Fed [twoBytes] (served headerScript dataScript) := by
  refine ⟨⟨7, rfl⟩, ⟨⟨8, []⟩, rfl, fun f hf => ?_⟩, hclean⟩
  rw [List.mem_singleton.mp hf]
  exact Nat.le_refl _

theorem served_whole_fed : Fed [twoBytes] (served [.data 12] [.data 2]) := by
  refine served_fed fun ev hev => ?_
  have hcases : ev = .data 12 ∨ ev = .data 2 := by simpa using hev
  rcases hcases with rfl | rfl <;> simp [ReadEvent.Broken]

theorem served_none_fed : Fed [twoBytes] (served [] []) :=
  served_fed fun _ hev => (List.not_mem_nil hev).elim

/-- The frame read in one event and collected. -/
theorem delivery_exact_collected :
    ∃ s, (delivery [twoBytes]).run ⟨twoBytesComing, []⟩
        [.pollIn 0 (served [.data 12] [.data 2]), .receive true] = some s ∧
      s.transport.sock = twoBytesComing.sock ∧ s.transport.connected = 1 ∧
      s.transport.log = twoBytesComing.log ∧
      ∃ done rest, [twoBytes] = done ++ rest ∧ List.Forall₂ Received.Carries s.received done ∧
        Standing rest s.transport.reader ∧
        ∀ idx env, Fed [twoBytes] env →
          ∃ t', socketEventHandler s.transport idx true false false env = some t' ∧
            (t'.connected = 1 ↔ s.transport.incoming.state ≠ .complete) ∧
            (s.transport.incoming.state ≠ .complete → Reads (encodeAll rest) s.transport t' env.input) := by
  refine delivery_exact [twoBytes] twoBytesComing rfl rfl rfl rfl _ ?_
  exact ⟨⟨served_whole_fed, by decide⟩, fun _ _ => ⟨trivial, fun _ _ => trivial⟩⟩

/-- A second event before the message is collected: the stream is valid, the
system serves both events, the first one completes the message, and the
second one closes the connection and frees it. -/
theorem waitingMessage_tornDown :
    Fed [twoBytes] (served [.data 12] [.data 2]) ∧ Fed [twoBytes] (served [] []) ∧
      ((delivery [twoBytes]).run ⟨twoBytesComing, []⟩
        [.pollIn 0 (served [.data 12] [.data 2])]).map
          (fun s => (s.transport.incoming.state, s.transport.connected)) = some (.complete, 1) ∧
      ((delivery [twoBytes]).run ⟨twoBytesComing, []⟩
        [.pollIn 0 (served [.data 12] [.data 2]), .pollIn 0 (served [] []), .receive true]).map
          (fun s => (s.received, s.transport.sock, s.transport.connected, s.transport.log))
        = some ([], -1, notConnected, [.freeHdr 7]) :=
  ⟨served_whole_fed, served_none_fed, by decide +kernel, by decide +kernel⟩

end LzLib.Socket
