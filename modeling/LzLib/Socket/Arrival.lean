/-
  LzLib.Socket.Arrival
  ────────────────────
  **A STREAM OF FRAMES THAT ARRIVES IN PARTS.**

  What the machine has of the stream may end anywhere, and grows while a frame
  is being read.  `Taking` says where the machine stands in the messages that a
  peer has submitted, by the bytes that have arrived; more bytes, an event and
  a receive each keep it.
-/
import LzLib.Socket.Delivery
import LzLib.Socket.Outgoing

namespace LzLib.Socket

open LzLib.Foundation
open LzLib.Event

/-! ## §1. More of the stream. -/

/-- More bytes behind those not read yet. -/
def Reader.arrive (s : Reader) (more : Bytes) : Reader := ⟨s.inbound ++ more, s.incoming⟩

theorem reading_arrive {stream : Bytes} {mem₀ : Landing} {v₀ v : List (IoVec Dest)} {s : Reader} {got : Bytes}
    (h : Reading landingStore stream mem₀ v₀ s.side v got) (more : Bytes) :
    Reading landingStore (stream ++ more) mem₀ v₀ (s.arrive more).side v got where
  stream_eq := by
    show stream ++ more = got ++ (s.inbound ++ more)
    rw [h.stream_eq, List.append_assoc]
    rfl
  mem_eq := h.mem_eq
  vector_eq := h.vector_eq
  got_le := h.got_le

/-- The machine stands where it stood when the stream grows. -/
theorem Resting.arrive {stream : Bytes} {s : Reader} (h : Resting stream s) (more : Bytes) :
    Resting (stream ++ more) (s.arrive more) := by
  cases h with
  | start state inbound header iobuf =>
      refine .start state ?_ header iobuf
      show s.inbound ++ more = stream ++ more
      rw [inbound]
  | header at' =>
      obtain ⟨mem₀, got, hmem₀, hiobuf, hlt, hread⟩ := at'.reading
      exact .header ⟨at'.state, mem₀, got, hmem₀, hiobuf, hlt, reading_arrive hread more⟩
  | data at' =>
      obtain ⟨size1, size2, a, page, got, hvalid, hsize1, hsize2, hpage, hlt, hread⟩ := at'.reading
      -- the header is all there, so more bytes do not change it
      have htwelve := twelve_le_of_validateHeader hvalid
      have htake : (stream ++ more).take 12 = stream.take 12 := List.take_append_of_le_length htwelve
      have hdrop : (stream ++ more).drop 12 = stream.drop 12 ++ more := List.drop_append_of_le_length htwelve
      refine .data ⟨at'.state, at'.count, size1, size2, a, page, got, ?_, hsize1, hsize2, hpage, hlt, ?_⟩
      · rw [htake]
        exact hvalid
      · rw [htake, hdrop]
        exact reading_arrive hread more

/-! ## §2. Messages of any lengths. -/

/-- What the types of the source promise about a message: `len` is an `int`,
and the length of the payload fits the field of the header. -/
structure Message.Fits (m : Message) : Prop where
  len : m.buf.length < 2 ^ 31
  total : iovLength m.vector < 2 ^ 32

theorem iovLength_eq (vector : List Bytes) : iovLength vector = vector.flatten.length :=
  (List.length_flatten (L := vector)).symm

/-- A header that passes announces the lengths it was built from. -/
theorem validateHeader_lengths {n1 n2 : Nat} {sizes : Nat × Nat} (h1 : n1 < 2 ^ 32) (h2 : n2 < 2 ^ 32)
    (h : validateHeader (socketHeader n1 n2) = some sizes) :
    sizes = (n1, n2) ∧ 0 < n1 ∧ n1 ≤ maxSize1 ∧ n2 ≤ maxSize2 := by
  have hw1 : getWordU ((socketHeader n1 n2).drop 3) = some n1 := by
    show getWordU (putWord n1 ++ (putWord n2 ++ [42])) = _
    exact getWordU_putWord h1 _
  have hw2 : getWordU ((socketHeader n1 n2).drop 7) = some n2 := by
    show getWordU (putWord n2 ++ [42]) = _
    exact getWordU_putWord h2 _
  obtain ⟨-, hpos, hle1, hle2⟩ := @validateHeader_eq _ sizes.1 sizes.2 h
  have hsizes : sizes = (n1, n2) := by
    have hsign : ¬ ((socketHeader n1 n2).take 3 ≠ [0x3a, 0x4f, 0]) := not_not.mpr rfl
    have hversion : ¬ ((socketHeader n1 n2)[11]? ≠ some 42) := not_not.mpr rfl
    rw [validateHeader, if_neg hsign, if_neg hversion, hw1, hw2, Option.bind_some, Option.bind_some] at h
    split at h
    · cases h
    · split at h
      · cases h
      · exact (Option.some.inj h).symm
  rw [hsizes] at hpos hle1 hle2
  exact ⟨hsizes, hpos, hle1, hle2⟩

/-- The frame of a message that a peer can accept. -/
def Message.asFrame (m : Message) (hpos : 0 < m.buf.length) (h1 : m.buf.length ≤ maxSize1)
    (h2 : iovLength m.vector ≤ maxSize2) : Frame :=
  ⟨m.buf, m.vector.flatten, hpos, h1, by rw [← iovLength_eq]; exact h2⟩

/-- What was received is the message. -/
def Received.Brings (r : Received) (m : Message) : Prop :=
  ∃ f : Frame, f.hdr = m.buf ∧ f.payload = m.vector.flatten ∧ r.Carries f

/-- The bytes of messages on the wire. -/
def framesOf (ms : List Message) : Bytes := ms.flatMap Message.frame

theorem framesOf_append (ms ms' : List Message) : framesOf (ms ++ ms') = framesOf ms ++ framesOf ms' :=
  List.flatMap_append

theorem framesOf_cons (m : Message) (ms : List Message) : framesOf (m :: ms) = m.frame ++ framesOf ms := rfl

theorem twelve_le_frame (m : Message) : 12 ≤ m.frame.length := by
  show 12 ≤ (socketHeader _ _ ++ m.buf ++ m.vector.flatten).length
  rw [List.append_assoc, List.length_append, socketHeader_length]
  omega

/-- A completed frame carries the frame at the front of the stream. -/
theorem Complete.front {f : Frame} {more : Bytes} {s : Reader} (h : Complete (f.encode ++ more) s) :
    s.incoming.message.Carries f ∧ s.inbound = more := by
  obtain ⟨size1, size2, hvalid, -, hin, hhdrlen, -, ⟨a, hhdr⟩, hpayload⟩ := h.frame
  have hsplit : f.encode ++ more = socketHeader f.hdr.length f.payload.length ++ (f.hdr ++ (f.payload ++ more)) := by
    rw [Frame.encode, List.append_assoc, List.append_assoc]
  have htake : (f.encode ++ more).take 12 = socketHeader f.hdr.length f.payload.length := by
    rw [hsplit]
    exact List.take_left' (socketHeader_length _ _)
  have hdrop : (f.encode ++ more).drop 12 = f.hdr ++ (f.payload ++ more) := by
    rw [hsplit]
    exact List.drop_left' (socketHeader_length _ _)
  rw [htake, validateHeader_socketHeader f.hdr_pos f.hdr_le f.payload_le] at hvalid
  cases hvalid
  have hback : (f.encode ++ more).drop (12 + f.hdr.length) = f.payload ++ more := by
    rw [← List.drop_drop, hdrop, List.drop_left]
  rw [hdrop, List.take_left] at hhdr
  rw [hback, List.take_left] at hpayload
  refine ⟨⟨hhdrlen, ⟨a, hhdr⟩, hpayload⟩, ?_⟩
  rw [hin, ← List.drop_drop, hback, List.drop_left]

/-- **A completed frame is the next message**, for a stream that is a front of
the frames of messages. -/
theorem Complete.next {ms : List Message} (hfits : ∀ m ∈ ms, m.Fits) {stream : Bytes} {s : Reader}
    (hpre : stream <+: framesOf ms) (h : Complete stream s) :
    ∃ m rest, ms = m :: rest ∧ s.incoming.message.Brings m ∧ stream = m.frame ++ s.inbound := by
  obtain ⟨size1, size2, hvalid, hle, -⟩ := h.frame
  cases ms with
  | nil =>
      -- no frame is shorter than its header
      have hnil : stream.length ≤ 0 := hpre.length_le
      omega
  | cons m rest =>
      have hm := hfits m List.mem_cons_self
      have hheader : stream.take 12 = socketHeader m.buf.length (iovLength m.vector) := by
        have hframe : m.frame.take 12 = socketHeader m.buf.length (iovLength m.vector) := by
          rw [Message.frame, List.append_assoc]
          exact List.take_left' (socketHeader_length _ _)
        obtain ⟨behind, hbehind⟩ := hpre
        have htake : (stream ++ behind).take 12 = stream.take 12 := List.take_append_of_le_length (by omega)
        rw [← hframe, ← htake, hbehind, framesOf_cons, List.take_append_of_le_length (twelve_le_frame m)]
      rw [hheader] at hvalid
      obtain ⟨hsizes, hpos, h1, h2⟩ := validateHeader_lengths (by have := hm.len; omega) hm.total hvalid
      cases hsizes
      have hencode : (m.asFrame hpos h1 h2).encode = m.frame := by
        show socketHeader _ m.vector.flatten.length ++ _ ++ _ = socketHeader _ (iovLength m.vector) ++ _ ++ _
        rw [iovLength_eq]
        rfl
      have hlen : m.frame.length = 12 + m.buf.length + iovLength m.vector := by
        show (socketHeader _ _ ++ m.buf ++ m.vector.flatten).length = _
        rw [List.length_append, List.length_append, socketHeader_length, iovLength_eq]
      -- the whole frame is in the stream, so it is what the stream starts with
      obtain ⟨more, rfl⟩ : m.frame <+: stream :=
        List.prefix_of_prefix_length_le ⟨framesOf rest, rfl⟩ hpre (by rw [hlen]; exact hle)
      rw [← hencode] at h
      obtain ⟨hcarries, hmore⟩ := h.front
      exact ⟨m, rest, rfl, ⟨m.asFrame hpos h1 h2, rfl, rfl, hcarries⟩, by rw [hmore]⟩

/-! ## §3. Where the machine stands. -/

/-- The machine after `arrived` bytes of the frames of `done ++ rest`, when the
messages `done` have been received. -/
inductive Taking (done rest : List Message) (arrived : Bytes) (s : Reader) : Prop where
  /-- A frame is being read. -/
  | reading (now : Bytes) (at' : Resting now s) (bytes : framesOf done ++ now = arrived)
  /-- The next message waits to be received. -/
  | waiting (m : Message) (behind : List Message) (eq : rest = m :: behind)
      (state : s.incoming.state = .complete) (brings : s.incoming.message.Brings m)
      (bytes : framesOf (done ++ [m]) ++ s.inbound = arrived)

variable {done rest : List Message} {arrived : Bytes} {s : Reader}

theorem Taking.arrive (h : Taking done rest arrived s) (more : Bytes) :
    Taking done rest (arrived ++ more) (s.arrive more) := by
  cases h with
  | reading now at' bytes =>
      refine .reading (now ++ more) (at'.arrive more) ?_
      rw [← List.append_assoc, bytes]
  | waiting m behind eq state brings bytes =>
      refine .waiting m behind eq state brings ?_
      show framesOf (done ++ [m]) ++ (s.inbound ++ more) = _
      rw [← List.append_assoc, bytes]

/-- More messages behind those submitted. -/
theorem Taking.accept (h : Taking done rest arrived s) (m : Message) : Taking done (rest ++ [m]) arrived s := by
  cases h with
  | reading now at' bytes => exact .reading now at' bytes
  | waiting m' behind eq state brings bytes =>
      exact .waiting m' (behind ++ [m]) (by rw [eq]; rfl) state brings bytes

/-- What the system must do in an event for the machine to have an outcome:
`MALLOC` succeeds, and a page holds the largest payload that passes. -/
structure Served (env : PollIn) : Prop where
  malloc : ∃ a, env.malloc = some a
  page : ∀ page, env.iobuf = some page → maxSize2 ≤ page.mem.length

theorem Served.pageOk {env : PollIn} (h : Served env) (stream : Bytes) : PageOk stream env := by
  intro size1 size2 page hvalid hgot
  obtain ⟨-, -, -, hle⟩ := validateHeader_eq hvalid
  have := h.page page hgot
  omega

/-- **One event**: the machine fails, or stands in the stream. -/
theorem Taking.event (h : Taking done rest arrived s) (hfits : ∀ m ∈ rest, m.Fits)
    (hpre : arrived <+: framesOf (done ++ rest)) {env : PollIn} (henv : Served env) :
    ∃ r, protoStateMachine env s = some r ∧ (r.ret < 0 ∨ Taking done rest arrived r.reader) := by
  obtain ⟨a, ha⟩ := henv.malloc
  cases h with
  | waiting m behind eq state brings bytes =>
      exact ⟨_, protoStateMachine_complete state, Or.inl (by show (-1 : Int) < 0; decide)⟩
  | reading now at' bytes =>
      obtain ⟨r, hr, hout⟩ := protoStateMachine_spec at' ha (henv.pageOk now)
      refine ⟨r, hr, ?_⟩
      cases hout with
      | failed hret _ _ _ => exact Or.inl hret
      | waiting _ _ hat => exact Or.inr (.reading now (hat.elim .header .data) bytes)
      | complete _ _ hat =>
          have hnow : now <+: framesOf rest := by
            rw [← bytes, framesOf_append] at hpre
            exact (List.prefix_append_right_inj _).mp hpre
          obtain ⟨m, behind, heq, hbrings, hframe⟩ := hat.next hfits hnow
          refine Or.inr (.waiting m behind heq hat.state hbrings ?_)
          rw [framesOf_append, List.append_assoc, ← bytes, hframe]
          show framesOf done ++ ((m.frame ++ framesOf []) ++ _) = _
          rw [show framesOf [] = [] from rfl, List.append_nil]

end LzLib.Socket
