/-
  LzLib.Socket.Framing
  ────────────────────
  **ONE FRAME, HOWEVER THE STREAM IS CUT.**

  A frame is a 12-byte header that passes validation, the `size1` header
  bytes and the `size2` payload bytes it announces.  Between two events the
  machine is at one of two places: inside the header (`AtHeader`) or inside
  the data (`AtData`), and in both the bytes read so far are laid out over
  the vector it started with.  `frameDelivered` is what an event's reads bring
  of the frame, by the scripts alone; `protoStateMachine_takes` is what one event
  does, and `framing_independent` follows the events up to the completed frame.
-/
import LzLib.Socket.ProtoDef
import LzLib.Socket.Rwv

namespace LzLib.Socket

open LzLib.Foundation

/-! ## §1. Validated headers. -/

theorem validateHeader_eq {header : Bytes} {size1 size2 : Nat}
    (h : validateHeader header = some (size1, size2)) :
    header[11]? = some 42 ∧ 0 < size1 ∧ size1 ≤ maxSize1 ∧ size2 ≤ maxSize2 := by
  unfold validateHeader at h
  split at h
  · cases h
  · split at h
    · cases h
    next hversion =>
      obtain ⟨n1, -, h⟩ := Option.bind_eq_some_iff.mp h
      obtain ⟨n2, -, h⟩ := Option.bind_eq_some_iff.mp h
      split at h
      · cases h
      · split at h
        · cases h
        · cases h
          exact ⟨not_not.mp hversion, by omega⟩

/-- A header passes only when it is all there. -/
theorem twelve_le_of_validateHeader {stream : Bytes} {size1 size2 : Nat}
    (h : validateHeader (stream.take 12) = some (size1, size2)) : 12 ≤ stream.length := by
  have hversion := (validateHeader_eq h).1
  obtain ⟨hlt, -⟩ := List.getElem?_eq_some_iff.mp hversion
  rw [List.length_take] at hlt
  omega

/-- The length of the first frame of a stream, when its header is valid. -/
def frameLength (stream : Bytes) : Option Nat :=
  (validateHeader (stream.take 12)).map fun p => 12 + p.1 + p.2

/-! ## §2. The two vectors and the memory behind them. -/

/-- The vector of the header read. -/
def headerVector : List (IoVec Dest) := [⟨.header, 0, 12⟩]

/-- The vector of the data read. -/
def dataVector (size1 size2 : Nat) : List (IoVec Dest) :=
  ⟨.hdr, 0, size1⟩ :: if size2 ≠ 0 then [⟨.buf, 0, size2⟩] else []

theorem total_dataVector (size1 size2 : Nat) : total (dataVector size1 size2) = size1 + size2 := by
  unfold dataVector
  split
  · rw [total_cons, total_cons, total_nil]
    show size1 + (size2 + 0) = _
    omega
  · rw [total_cons, total_nil]
    show size1 + 0 = _
    omega

/-- A page for a payload of `size2` bytes, or no page for none. -/
def PageFor (size2 : Nat) (page : Option Block) : Prop :=
  if size2 = 0 then page = none else ∃ b, page = some b ∧ size2 ≤ b.mem.length

/-- A block with `bs` at its front. -/
def Block.front (b : Block) (bs : Bytes) : Block := ⟨b.addr, bs.map some ++ b.mem.drop bs.length⟩

theorem put_header {mem : Landing} {bs : Bytes} (h : bs.length ≤ mem.header.length) :
    mem.put .header 0 bs = some { mem with header := bs ++ mem.header.drop bs.length } := by
  rw [Landing.put, overwrite_front h]
  rfl

theorem put_hdr {mem : Landing} {b : Block} {bs : Bytes} (hb : mem.hdrP = some b)
    (h : bs.length ≤ b.mem.length) : mem.put .hdr 0 bs = some { mem with hdrP := some (b.front bs) } := by
  rw [Landing.put]
  by_cases hbs : bs = []
  · subst hbs
    rw [if_pos rfl, Block.front, List.map_nil, List.nil_append, List.length_nil, List.drop_zero, ← hb]
  · rw [if_neg hbs, hb, Option.bind_some, overwrite_front (by rw [List.length_map]; exact h),
      List.length_map]
    rfl

theorem put_buf {mem : Landing} {b : Block} {bs : Bytes} (hb : mem.iobuf = some b)
    (h : bs.length ≤ b.mem.length) : mem.put .buf 0 bs = some { mem with iobuf := some (b.front bs) } := by
  rw [Landing.put]
  by_cases hbs : bs = []
  · subst hbs
    rw [if_pos rfl, Block.front, List.map_nil, List.nil_append, List.length_nil, List.drop_zero, ← hb]
  · rw [if_neg hbs, hb, Option.bind_some, overwrite_front (by rw [List.length_map]; exact h),
      List.length_map]
    rfl

theorem scatter_header {mem : Landing} (hmem : mem.header.length = 12) {bs : Bytes}
    (h : bs.length ≤ 12) : scatter landingStore headerVector bs mem
      = some { mem with header := bs ++ mem.header.drop bs.length } := by
  show (mem.put .header 0 (bs.take 12)).bind some = _
  rw [List.take_of_length_le h, put_header (by omega)]
  rfl

theorem writable_header {mem : Landing} (hmem : mem.header.length = 12) :
    Writable landingStore mem headerVector :=
  fun _ hbs => ⟨_, scatter_header hmem hbs⟩

/-- The memory the data is read into. -/
def dataMem (header : Bytes) (a : Addr) (size1 : Nat) (page : Option Block) : Landing :=
  ⟨header, some ⟨a, List.replicate size1 none⟩, page⟩

theorem scatter_data (header : Bytes) (a : Addr) {size1 size2 : Nat} {page : Option Block}
    (hpage : PageFor size2 page) {bs : Bytes} (h : bs.length ≤ size1 + size2) :
    scatter landingStore (dataVector size1 size2) bs (dataMem header a size1 page)
      = some ⟨header, some (Block.front ⟨a, List.replicate size1 none⟩ (bs.take size1)),
          page.map fun b => b.front (bs.drop size1)⟩ := by
  have hhdr : (dataMem header a size1 page).put .hdr 0 (bs.take size1)
      = some ⟨header, some (Block.front ⟨a, List.replicate size1 none⟩ (bs.take size1)), page⟩ :=
    put_hdr rfl (by
      rw [List.length_replicate, List.length_take]
      omega)
  show ((dataMem header a size1 page).put .hdr 0 (bs.take size1)).bind (scatter landingStore
    (if size2 ≠ 0 then [⟨.buf, 0, size2⟩] else []) (bs.drop size1)) = _
  rw [hhdr, Option.bind_some]
  unfold PageFor at hpage
  by_cases h2 : size2 = 0
  · rw [if_pos h2] at hpage
    rw [if_neg (by rw [h2]; decide), hpage]
    rfl
  · rw [if_neg h2] at hpage
    obtain ⟨b, rfl, hle⟩ := hpage
    have hdrop : (bs.drop size1).length ≤ size2 := by
      rw [List.length_drop]
      omega
    rw [if_pos h2]
    show (Landing.put _ .buf 0 ((bs.drop size1).take size2)).bind some = _
    rw [List.take_of_length_le hdrop, put_buf rfl (by omega)]
    rfl

theorem writable_data (header : Bytes) (a : Addr) {size1 size2 : Nat} {page : Option Block}
    (hpage : PageFor size2 page) :
    Writable landingStore (dataMem header a size1 page) (dataVector size1 size2) := by
  intro bs hbs
  rw [total_dataVector] at hbs
  exact ⟨_, scatter_data header a hpage hbs⟩

/-! ## §3. Where the machine can be. -/

/-- Inside the header of the stream's first frame. -/
structure AtHeader (stream : Bytes) (s : Reader) : Prop where
  state : s.incoming.state = .headerComing
  reading : ∃ mem₀ got, mem₀.header.length = 12 ∧ mem₀.iobuf = none ∧ got.length < 12 ∧
    Reading landingStore stream mem₀ headerVector s.side s.incoming.pendingVector got

/-- Inside its data. -/
structure AtData (stream : Bytes) (s : Reader) : Prop where
  state : s.incoming.state = .dataComing
  count : s.incoming.pendingCount = s.incoming.pendingVector.length
  reading : ∃ size1 size2 a page got, validateHeader (stream.take 12) = some (size1, size2) ∧
    s.incoming.hdrlen = size1 ∧ s.incoming.buflen = size2 ∧ PageFor size2 page ∧
    got.length < size1 + size2 ∧
    Reading landingStore (stream.drop 12) (dataMem (stream.take 12) a size1 page)
      (dataVector size1 size2) s.side s.incoming.pendingVector got

/-- The first frame has been read: nothing behind it is consumed, and the two
blocks hold its bytes. -/
structure Complete (stream : Bytes) (s : Reader) : Prop where
  state : s.incoming.state = .complete
  frame : ∃ size1 size2, validateHeader (stream.take 12) = some (size1, size2) ∧
    12 + size1 + size2 ≤ stream.length ∧ s.inbound = stream.drop (12 + size1 + size2) ∧
    s.incoming.hdrlen = size1 ∧ s.incoming.buflen = size2 ∧
    (∃ a, s.incoming.mem.hdrP = some ⟨a, ((stream.drop 12).take size1).map some⟩) ∧
    if size2 = 0 then s.incoming.mem.iobuf = none
    else ∃ page, s.incoming.mem.iobuf = some page ∧
      page.mem.take size2 = ((stream.drop (12 + size1)).take size2).map some

/-- Some of the frame, but not all of it, has been consumed. -/
structure Short (stream : Bytes) (s : Reader) : Prop where
  state : s.incoming.state ≠ .complete
  consumed : ∃ k, k ≤ stream.length ∧ s.inbound = stream.drop k ∧
    (k ≤ 12 ∨ ∃ n, frameLength stream = some n ∧ k < n)

/-- Why an event may fail: the header is invalid, no iobuf is available for
the payload, or the peer has closed or failed. -/
def Cause (stream : Bytes) (env : PollIn) : Prop :=
  (12 ≤ stream.length ∧ validateHeader (stream.take 12) = none) ∨
    (env.iobuf = none ∧
      ∃ size1 size2, validateHeader (stream.take 12) = some (size1, size2) ∧ size2 ≠ 0) ∨
    ∃ ev ∈ env.headerScript ++ env.dataScript, ev.Broken

/-- How an event ends. -/
inductive Outcome (stream : Bytes) (env : PollIn) (r : ProtoResult) : Prop where
  | complete (ret : r.ret = 0) (stuck : r.stuck = false) (at' : Complete stream r.reader)
  | waiting (ret : 0 < r.ret) (stuck : r.stuck = false)
      (at' : AtHeader stream r.reader ∨ AtData stream r.reader)
  | failed (ret : r.ret < 0) (stuck : r.stuck = false) (at' : Short stream r.reader)
      (cause : Cause stream env)

/-- The pages an event may get hold the payload of the frame. -/
def PageOk (stream : Bytes) (env : PollIn) : Prop :=
  ∀ size1 size2 page, validateHeader (stream.take 12) = some (size1, size2) →
    env.iobuf = some page → size2 ≤ page.mem.length

/-- The payload needs a page, and none is to be had. -/
def lacksPage (stream : Bytes) (env : PollIn) : Bool :=
  (validateHeader (stream.take 12)).any (fun sizes => sizes.2 ≠ 0) && env.iobuf.isNone

theorem lacksPage_eq {stream : Bytes} {env : PollIn} {size1 size2 : Nat}
    (h : validateHeader (stream.take 12) = some (size1, size2)) :
    lacksPage stream env = (decide (size2 ≠ 0) && env.iobuf.isNone) := by
  rw [lacksPage, h]
  rfl

/-- What the second read of an event delivers of the data, with `k` bytes of the
stream read before. -/
def dataDelivered (stream : Bytes) (env : PollIn) (k : Nat) : Nat :=
  (validateHeader (stream.take 12)).elim 0 fun sizes =>
    delivered env.dataScript (12 + sizes.1 + sizes.2 - k) (stream.length - k)

/-- **What the reads of an event deliver of the first frame**, with `k` bytes of it
read before: the rest of the header, and, once that is there and the payload has
a page, the data. -/
def frameDelivered (stream : Bytes) (env : PollIn) (k : Nat) : Nat :=
  if k < 12 then
    let m := delivered env.headerScript (12 - k) (stream.length - k)
    if k + m < 12 ∨ lacksPage stream env then m else m + dataDelivered stream env 12
  else dataDelivered stream env k

/-- The bytes consumed, from what was got of the rest of the stream. -/
theorem inbound_of_reading {μ β : Type} {M : Store μ β} {stream rest : Bytes} {k : Nat} {mem₀ : μ}
    {v₀ v : List (IoVec β)} {s : ReadSide μ} {got : Bytes} (hrest : rest = stream.drop k)
    (h : Reading M rest mem₀ v₀ s v got) :
    s.inbound = stream.drop (k + got.length) ∧ got.length ≤ (stream.drop k).length := by
  have hstream : stream.drop k = got ++ s.inbound := by rw [← hrest, h.stream_eq]
  constructor
  · rw [← List.drop_drop, hstream, List.drop_left]
  · rw [hstream, List.length_append]
    omega

/-- What was got, from the bytes consumed. -/
theorem got_of_inbound {μ β : Type} {M : Store μ β} {stream rest : Bytes} {j k : Nat} {mem₀ : μ}
    {v₀ v : List (IoVec β)} {s : ReadSide μ} {got : Bytes} (hrest : rest = stream.drop j)
    (h : Reading M rest mem₀ v₀ s v got) (hj : j ≤ stream.length) (hin : s.inbound = stream.drop k)
    (hk : k ≤ stream.length) : k = j + got.length := by
  obtain ⟨hin', hle⟩ := inbound_of_reading hrest h
  have hlen := congrArg List.length (hin.symm.trans hin')
  rw [List.length_drop, List.length_drop] at hlen
  rw [List.length_drop] at hle
  omega

/-- **A read goes on** from what was consumed before it with what its script delivers
of the rest of the vector. -/
theorem inbound_delivered {μ β : Type} {M : Store μ β} {stream rest : Bytes} {j k : Nat} {mem₀ : μ}
    {v₀ v : List (IoVec β)} {s : ReadSide μ} {got : Bytes} (hrest : rest = stream.drop j)
    (h : Reading M rest mem₀ v₀ s v got) (hj : j ≤ stream.length) (hin : s.inbound = stream.drop k)
    (hk : k ≤ stream.length) {script : List ReadEvent} {out : Rwv (ReadSide μ) β}
    (hout : socketReadv M script s v v.length = some out) :
    out.state.inbound = stream.drop (k + delivered script (j + total v₀ - k) (stream.length - k)) := by
  have hgot := got_of_inbound hrest h hj hin hk
  have htotal : total v = j + total v₀ - k := by
    rw [h.vector_eq, total_skip]
    omega
  have htrim : Trim v := h.vector_eq ▸ trim_skip _ _
  rw [socketReadv_delivered htrim hout, hin, htotal, List.length_drop, List.drop_drop]

theorem AtHeader.short {stream : Bytes} {s : Reader} (h : AtHeader stream s) : Short stream s := by
  obtain ⟨mem₀, got, -, -, hlt, hread⟩ := h.reading
  obtain ⟨hin, hle⟩ := inbound_of_reading (k := 0) rfl hread
  rw [List.drop_zero] at hle
  exact ⟨by rw [h.state]; decide, got.length, hle, by rw [Nat.zero_add] at hin; exact hin,
    Or.inl (by omega)⟩

/-- What a data read that is not at its end has consumed. -/
theorem short_of_reading {stream : Bytes} {size1 size2 : Nat} {a : Addr} {page : Option Block}
    {got : Bytes} {s : Reader} {v : List (IoVec Dest)} (hstate : s.incoming.state ≠ .complete)
    (hvalid : validateHeader (stream.take 12) = some (size1, size2)) (hlt : got.length < size1 + size2)
    (hread : Reading landingStore (stream.drop 12) (dataMem (stream.take 12) a size1 page)
      (dataVector size1 size2) s.side v got) : Short stream s := by
  obtain ⟨hin, hle⟩ := inbound_of_reading rfl hread
  have htwelve := twelve_le_of_validateHeader hvalid
  rw [List.length_drop] at hle
  exact ⟨hstate, 12 + got.length, by omega, hin,
    Or.inr ⟨12 + size1 + size2, by rw [frameLength, hvalid]; rfl, by omega⟩⟩

theorem AtData.short {stream : Bytes} {s : Reader} (h : AtData stream s) : Short stream s := by
  obtain ⟨size1, size2, a, page, got, hvalid, -, -, -, hlt, hread⟩ := h.reading
  exact short_of_reading (by rw [h.state]; decide) hvalid hlt hread

/-- The vector for the data is in place: nothing of the data has been read. -/
theorem atData_installed {stream inbound : Bytes} {inc : Incoming} {size1 size2 : Nat} {a : Addr}
    {page : Option Block} (hvalid : validateHeader (stream.take 12) = some (size1, size2))
    (hin : inbound = stream.drop 12) (hhdrlen : inc.hdrlen = size1) (hbuflen : inc.buflen = size2)
    (hmem : inc.mem = dataMem (stream.take 12) a size1 page) (hpage : PageFor size2 page) :
    AtData stream ⟨inbound, installVector inc size1 size2⟩ := by
  obtain ⟨-, hpos, -, -⟩ := validateHeader_eq hvalid
  refine ⟨rfl, rfl, size1, size2, a, page, [], hvalid, hhdrlen, hbuflen, hpage, ?_, ?_⟩
  · rw [List.length_nil]
    omega
  · have hside : (Reader.mk inbound (installVector inc size1 size2)).side
        = ⟨inbound, dataMem (stream.take 12) a size1 page⟩ := by
      show (⟨inbound, inc.mem⟩ : ReadSide Landing) = _
      rw [hmem]
    rw [hside]
    exact ⟨hin.symm, scatter_nil _ _ _, (skip_zero (show Trim (dataVector size1 size2) from hpos)).symm,
      Nat.zero_le _⟩

section Received

variable {stream : Bytes} {size1 size2 : Nat} {a : Addr} {page : Option Block} {r : ReadSide Landing}
  {v : List (IoVec Dest)} {got : Bytes} (hpage : PageFor size2 page) (hall : got.length = size1 + size2)
  (hread : Reading landingStore (stream.drop 12) (dataMem (stream.take 12) a size1 page)
    (dataVector size1 size2) r v got)
include hpage hall hread

/-- The header block, once all bytes of the data have come. -/
theorem received_hdr : r.mem.hdrP = some ⟨a, ((stream.drop 12).take size1).map some⟩ := by
  have hmem := hread.mem_eq
  rw [scatter_data _ a hpage (by omega)] at hmem
  have hfront : (stream.drop 12).take size1 = got.take size1 := by
    rw [hread.stream_eq, List.take_append_of_le_length (by omega)]
  have hlen : (got.take size1).length = size1 := by
    rw [List.length_take]
    omega
  rw [← Option.some.inj hmem, hfront, Block.front, hlen, List.drop_replicate, Nat.sub_self,
    List.replicate_zero, List.append_nil]

/-- And the page. -/
theorem received_iobuf : if size2 = 0 then r.mem.iobuf = none
    else ∃ page, r.mem.iobuf = some page ∧
      page.mem.take size2 = ((stream.drop (12 + size1)).take size2).map some := by
  have hmem := hread.mem_eq
  rw [scatter_data _ a hpage (by omega)] at hmem
  have hiobuf : r.mem.iobuf = page.map fun b => b.front (got.drop size1) := by
    rw [← Option.some.inj hmem]
  unfold PageFor at hpage
  by_cases h2 : size2 = 0
  · rw [if_pos h2] at hpage ⊢
    rw [hiobuf, hpage]
    rfl
  · rw [if_neg h2] at hpage ⊢
    obtain ⟨b, rfl, hle⟩ := hpage
    refine ⟨b.front (got.drop size1), hiobuf, ?_⟩
    have hlen : ((got.drop size1).map some : List (Option UInt8)).length = size2 := by
      rw [List.length_map, List.length_drop]
      omega
    have hback : (stream.drop (12 + size1)).take size2 = got.drop size1 := by
      rw [← List.drop_drop, hread.stream_eq, List.drop_append_of_le_length (by omega),
        List.take_left' (by rw [List.length_drop]; omega)]
    rw [hback]
    exact List.take_left' hlen

end Received

/-! ## §4. The loop, from its last state backwards. -/

section Loop

variable {stream : Bytes} {env : PollIn} {s : Reader}

theorem protoLoop_complete (h : s.incoming.state = .complete) (fuel : Nat)
    (previous : Option ProtoState) (ret : Int) :
    protoLoop env (fuel + 1) previous ret s = some ⟨ret, false, s⟩ := by
  rw [protoLoop, if_pos h]

/-- A round in which the state is new. -/
theorem protoLoop_round {state : ProtoState} (h : s.incoming.state = state) (hne : state ≠ .complete)
    {previous : Option ProtoState} (hprev : previous ≠ some state) (fuel : Nat) (ret : Int) :
    protoLoop env (fuel + 1) previous ret s = (protoRound env ret s).bind fun r =>
      match r with
      | .unlock ret' s' => some ⟨ret', false, s'⟩
      | .next ret' s' => protoLoop env fuel (some state) ret' s' := by
  subst h
  exact (if_neg hne).trans (if_neg hprev)

/-- The data has come: the frame is complete. -/
theorem protoLoop_dataCame (h : s.incoming.state = .dataCame) {previous : Option ProtoState}
    (hprev : previous ≠ some .dataCame) (fuel : Nat) (ret : Int) :
    protoLoop env (fuel + 2) previous ret s = some ⟨ret, false, ⟨s.inbound, { s.incoming with
      pendingVector := []
      pendingCount := 0
      state := .complete }⟩⟩ := by
  rw [protoLoop_round h (by decide) hprev, protoRound, h]
  exact protoLoop_complete rfl fuel _ ret

/-- **Reading the data.** -/
theorem protoLoop_data (h : AtData stream s) {k : Nat} (hk : s.inbound = stream.drop k)
    (hle : k ≤ stream.length) {previous : Option ProtoState} (hprev : previous ≠ some .dataComing)
    (fuel : Nat) (ret : Int) :
    ∃ r, protoLoop env (fuel + 3) previous ret s = some r ∧ Outcome stream env r ∧
      r.reader.inbound = stream.drop (k + dataDelivered stream env k) := by
  obtain ⟨size1, size2, a, page, got₀, hvalid, hsize1, hsize2, hpage, -, hread₀⟩ := h.reading
  obtain ⟨out, got, hout, hread, hend⟩ :=
    socketReadv_takes (writable_data _ a hpage) ⟨got₀, hread₀⟩ env.dataScript
  have htook : out.state.inbound = stream.drop (k + dataDelivered stream env k) := by
    rw [inbound_delivered rfl hread₀ (twelve_le_of_validateHeader hvalid) hk hle hout, total_dataVector,
      dataDelivered, hvalid, ← Nat.add_assoc]
    rfl
  rw [protoLoop_round h.state (by decide) hprev, protoRound, h.state]
  show ∃ r, Option.bind (caseDataComing env s) _ = some r ∧ _
  rw [caseDataComing, h.count, hout, Option.map_some, Option.bind_some]
  have htotal := total_dataVector size1 size2
  cases hend with
  -- all bytes have come: the next round finds the message complete
  | filled hcount hall =>
      rw [htotal] at hall
      rw [if_pos hcount]
      obtain ⟨hin, hle⟩ := inbound_of_reading rfl hread
      have htwelve := twelve_le_of_validateHeader hvalid
      rw [List.length_drop] at hle
      rw [hall, ← Nat.add_assoc] at hin
      exact ⟨_, protoLoop_dataCame rfl (by decide) fuel 0, .complete rfl rfl ⟨rfl, size1, size2, hvalid,
        by omega, hin, hsize1, hsize2, ⟨a, received_hdr hpage hall hread⟩,
        received_iobuf hpage hall hread⟩, htook⟩
  -- EAGAIN: the vector says how much is still to come
  | pending hcount hpos hlt =>
      rw [htotal] at hlt
      rw [if_neg (by omega)]
      exact ⟨_, rfl, .waiting hpos rfl (Or.inr ⟨h.state, hcount, size1, size2, a, page, got, hvalid,
        hsize1, hsize2, hpage, hlt, hread⟩), htook⟩
  -- the call failed, in the middle of the message
  | broken hcount hlt hcause =>
      rw [htotal] at hlt
      rw [if_neg (by omega)]
      have hstate : ((s.after out).setCount out.pendingCount).incoming.state ≠ .complete := by
        show s.incoming.state ≠ .complete
        rw [h.state]
        decide
      obtain ⟨ev, hev, hbroken⟩ := hcause
      exact ⟨_, rfl, .failed (show out.pendingCount < 0 by omega) rfl
        (short_of_reading hstate hvalid hlt hread)
        (Or.inr (Or.inr ⟨ev, List.mem_append_right _ hev, hbroken⟩)), htook⟩

/-- **The header has come.** -/
theorem protoLoop_headerCame (h : s.incoming.state = .headerCame) (hlen : 12 ≤ stream.length)
    (hin : s.inbound = stream.drop 12) (hheader : s.incoming.mem.header = stream.take 12)
    (hiobuf : s.incoming.mem.iobuf = none) {a : Addr} (hmalloc : env.malloc = some a)
    (hpage : PageOk stream env) {previous : Option ProtoState}
    (hprev : previous ≠ some .headerCame) (fuel : Nat) (ret : Int) :
    ∃ r, protoLoop env (fuel + 4) previous ret s = some r ∧ Outcome stream env r ∧
      r.reader.inbound
        = stream.drop (12 + if lacksPage stream env then 0 else dataDelivered stream env 12) := by
  have hshort : ∀ s' : Reader, s'.inbound = s.inbound → s'.incoming.state = .headerCame →
      Short stream s' := fun s' hin' hstate =>
    ⟨by rw [hstate]; decide, 12, hlen, hin'.trans hin, Or.inl (Nat.le_refl _)⟩
  rw [protoLoop_round h (by decide) hprev, protoRound, h]
  show ∃ r, Option.bind (some (caseHeaderCame env s)) _ = some r ∧ _
  rw [Option.bind_some, caseHeaderCame, hheader]
  cases hvalid : validateHeader (stream.take 12) with
  | none =>
      refine ⟨_, rfl, .failed (show (-1 : Int) < 0 by decide) rfl (hshort s rfl h) (Or.inl ⟨hlen, hvalid⟩), ?_⟩
      rw [dataDelivered, hvalid]
      show s.inbound = stream.drop (12 + if lacksPage stream env then 0 else 0)
      rw [ite_self, hin]
  | some sizes =>
      obtain ⟨size1, size2⟩ := sizes
      have hhdr : (allocHdr env s.incoming size1 size2).mem
          = ⟨s.incoming.mem.header, some ⟨a, List.replicate size1 none⟩, s.incoming.mem.iobuf⟩ := by
        rw [allocHdr, hmalloc]
        rfl
      simp only
      -- a page is asked for only if there is a payload
      by_cases h2 : size2 = 0
      · -- no payload
        rw [if_neg (not_not.mpr h2)]
        have hmem : (allocHdr env s.incoming size1 size2).mem = dataMem (stream.take 12) a size1 none := by
          rw [hhdr, hheader, hiobuf]
          rfl
        have hat := atData_installed hvalid hin rfl rfl hmem (by rw [PageFor, if_pos h2])
        have hnone : lacksPage stream env = false := by
          rw [lacksPage_eq hvalid, h2]
          rfl
        rw [hnone]
        exact protoLoop_data hat hin hlen (by decide) fuel 0
      · rw [if_pos h2]
        cases hgot : env.iobuf with
        | none =>
            have hlacks : lacksPage stream env = true := by
              rw [lacksPage_eq hvalid, hgot, decide_eq_true h2]
              rfl
            rw [hlacks]
            exact ⟨_, rfl, .failed (show enomem < 0 by decide) rfl (hshort _ rfl h)
              (Or.inr (Or.inl ⟨hgot, size1, size2, hvalid, h2⟩)), hin⟩
        | some page =>
            have hfor : PageFor size2 (some page) := by
              rw [PageFor, if_neg h2]
              exact ⟨page, rfl, hpage size1 size2 page hvalid hgot⟩
            have hmem : { (allocHdr env s.incoming size1 size2).mem with iobuf := some page }
                = dataMem (stream.take 12) a size1 (some page) := by
              rw [hhdr, hheader]
              rfl
            have hat : AtData stream ⟨s.inbound, installVector
                { allocHdr env s.incoming size1 size2 with
                  mem := { (allocHdr env s.incoming size1 size2).mem with iobuf := some page } }
                size1 size2⟩ := atData_installed hvalid hin rfl rfl hmem hfor
            have hpaged : lacksPage stream env = false := by
              rw [lacksPage_eq hvalid, hgot]
              exact Bool.and_false _
            rw [hpaged]
            exact protoLoop_data hat hin hlen (by decide) fuel 0

/-- **Reading the header.** -/
theorem protoLoop_header (h : AtHeader stream s) {k : Nat} (hk : s.inbound = stream.drop k)
    (hle : k ≤ stream.length) {a : Addr} (hmalloc : env.malloc = some a)
    (hpage : PageOk stream env) {previous : Option ProtoState}
    (hprev : previous ≠ some .headerComing) (fuel : Nat) (ret : Int) :
    ∃ r, protoLoop env (fuel + 5) previous ret s = some r ∧ Outcome stream env r ∧
      r.reader.inbound = stream.drop (k + frameDelivered stream env k) := by
  obtain ⟨mem₀, got₀, hmem₀, hiobuf, hlt₀, hread₀⟩ := h.reading
  -- one vector is pending, whatever part of it has been read
  have hvector : s.incoming.pendingVector.length = 1 := by
    have hle := length_skip_le got₀.length headerVector
    have hne : skip got₀.length headerVector ≠ [] := skip_ne_nil hlt₀
    have hpos := List.length_pos_iff.mpr hne
    rw [← hread₀.vector_eq] at hle hpos
    have hone : headerVector.length = 1 := rfl
    omega
  obtain ⟨out, got, hout, hread, hend⟩ :=
    socketReadv_takes (writable_header hmem₀) ⟨got₀, hread₀⟩ env.headerScript
  have htook : out.state.inbound
      = stream.drop (k + delivered env.headerScript (12 - k) (stream.length - k)) := by
    rw [inbound_delivered (j := 0) rfl hread₀ (Nat.zero_le _) hk hle hout]
    show stream.drop (k + delivered _ (0 + 12 - k) _) = _
    rw [Nat.zero_add]
  -- `got` is what had been read and what the script delivers
  have hgot₀ := got_of_inbound (j := 0) rfl hread₀ (Nat.zero_le _) hk hle
  have hgot : k + delivered env.headerScript (12 - k) (stream.length - k) = got.length := by
    have hsum := got_of_inbound (j := 0) rfl hread (Nat.zero_le _) htook (by
      have := delivered_le env.headerScript (12 - k) (stream.length - k)
      omega)
    omega
  rw [frameDelivered, if_pos (by omega)]
  simp only
  generalize delivered env.headerScript (12 - k) (stream.length - k) = m at htook hgot ⊢
  rw [protoLoop_round h.state (by decide) hprev, protoRound, h.state]
  show ∃ r, Option.bind (caseHeaderComing env s) _ = some r ∧ _
  rw [caseHeaderComing, show (1 : Int) = s.incoming.pendingVector.length by omega, hout,
    Option.map_some, Option.bind_some]
  cases hend with
  | filled hcount hall =>
      rw [if_pos hcount]
      have hall : got.length = 12 := hall
      have hmem := hread.mem_eq
      rw [scatter_header hmem₀ (by omega), hall] at hmem
      obtain ⟨hin, hlen⟩ := inbound_of_reading (k := 0) rfl hread
      rw [Nat.zero_add, hall] at hin
      rw [List.drop_zero, hall] at hlen
      have hdone : stream.drop (k + if k + m < 12 ∨ lacksPage stream env then m else m + dataDelivered stream env 12)
          = stream.drop (12 + if lacksPage stream env then 0 else dataDelivered stream env 12) := by
        have hnot : ¬ k + m < 12 := by omega
        by_cases hlacks : lacksPage stream env
        · rw [if_pos (Or.inr hlacks), if_pos hlacks, hgot, hall]
        · rw [if_neg (not_or.mpr ⟨hnot, hlacks⟩), if_neg hlacks, ← Nat.add_assoc, hgot, hall]
      rw [hdone]
      refine protoLoop_headerCame rfl hlen hin ?_ ?_ hmalloc hpage (by decide) fuel 0
      · show out.state.mem.header = _
        rw [← Option.some.inj hmem, hread.stream_eq, List.take_left' hall,
          List.drop_eq_nil_of_le (by omega), List.append_nil]
      · show out.state.mem.iobuf = none
        rw [← Option.some.inj hmem]
        exact hiobuf
  | pending hcount hpos hlt =>
      have hlt : got.length < 12 := hlt
      rw [if_neg (by omega), if_pos (Or.inl (by omega))]
      exact ⟨_, rfl, .waiting hpos rfl (Or.inl ⟨h.state, mem₀, got, hmem₀, hiobuf, hlt, hread⟩), htook⟩
  | broken hcount hlt hcause =>
      have hlt : got.length < 12 := hlt
      rw [if_neg (by omega), if_pos (Or.inl (by omega))]
      have hat : AtHeader stream (s.after out) := ⟨h.state, mem₀, got, hmem₀, hiobuf, hlt, hread⟩
      obtain ⟨ev, hev, hbroken⟩ := hcause
      exact ⟨_, rfl, .failed (show out.pendingCount < 0 by omega) rfl hat.short
        (Or.inr (Or.inr ⟨ev, List.mem_append_left _ hev, hbroken⟩)), htook⟩

/-- **From the start of a frame.** -/
theorem protoLoop_nada (h : s.incoming.state = .nada) (hin : s.inbound = stream)
    (hheader : s.incoming.mem.header.length = 12) (hiobuf : s.incoming.mem.iobuf = none)
    {a : Addr} (hmalloc : env.malloc = some a) (hpage : PageOk stream env) (fuel : Nat) (ret : Int) :
    ∃ r, protoLoop env (fuel + 6) none ret s = some r ∧ Outcome stream env r ∧
      r.reader.inbound = stream.drop (0 + frameDelivered stream env 0) := by
  have hat : AtHeader stream ⟨s.inbound, { s.incoming with
      pendingVector := [⟨.header, 0, 12⟩]
      state := .headerComing }⟩ := by
    refine ⟨rfl, s.incoming.mem, [], hheader, hiobuf, by rw [List.length_nil]; decide,
      hin.symm, scatter_nil _ _ _, ?_, Nat.zero_le _⟩
    exact (skip_zero (show Trim headerVector by show 0 < 12; decide)).symm
  rw [protoLoop_round h (by decide) (fun e => by cases e), protoRound, h]
  exact protoLoop_header hat (by rw [List.drop_zero]; exact hin) (Nat.zero_le _) hmalloc hpage (by decide)
    fuel ret

end Loop

/-! ## §5. Events. -/

/-- Where the machine can be between two events. -/
inductive Resting (stream : Bytes) (s : Reader) : Prop where
  | start (state : s.incoming.state = .nada) (inbound : s.inbound = stream)
      (header : s.incoming.mem.header.length = 12) (iobuf : s.incoming.mem.iobuf = none)
  | header (at' : AtHeader stream s)
  | data (at' : AtData stream s)

/-- Some of the frame has been read. -/
theorem Resting.read {stream : Bytes} {s : Reader} (h : Resting stream s) :
    ∃ k, s.inbound = stream.drop k ∧ k ≤ stream.length := by
  cases h with
  | start state inbound header iobuf => exact ⟨0, inbound, Nat.zero_le _⟩
  | header hat =>
      obtain ⟨k, hk, hin, -⟩ := hat.short.consumed
      exact ⟨k, hin, hk⟩
  | data hat =>
      obtain ⟨k, hk, hin, -⟩ := hat.short.consumed
      exact ⟨k, hin, hk⟩

/-- **One event**, wherever in the frame it arrives: it consumes what its reads
deliver. -/
theorem protoStateMachine_takes {stream : Bytes} {env : PollIn} {s : Reader} (h : Resting stream s)
    {k : Nat} (hk : s.inbound = stream.drop k) (hle : k ≤ stream.length) {a : Addr}
    (hmalloc : env.malloc = some a) (hpage : PageOk stream env) :
    ∃ r, protoStateMachine env s = some r ∧ Outcome stream env r ∧
      r.reader.inbound = stream.drop (k + frameDelivered stream env k) := by
  cases h with
  | start state inbound header iobuf =>
      obtain rfl : k = 0 := by
        have hlen := congrArg List.length (hk.symm.trans inbound)
        rw [List.length_drop] at hlen
        omega
      exact protoLoop_nada state inbound header iobuf hmalloc hpage 0 (-1)
  | header hat => exact protoLoop_header hat hk hle hmalloc hpage (fun e => by cases e) 1 (-1)
  | data hat =>
      -- the header has been read
      have hge : ¬ k < 12 := by
        obtain ⟨size1, size2, a, page, got, hvalid, -, -, -, -, hread⟩ := hat.reading
        have hgot := got_of_inbound rfl hread (twelve_le_of_validateHeader hvalid) hk hle
        omega
      rw [frameDelivered, if_neg hge]
      exact protoLoop_data hat hk hle (fun e => by cases e) 3 (-1)

/-- The same, where what it consumes is of no interest. -/
theorem protoStateMachine_spec {stream : Bytes} {env : PollIn} {s : Reader} (h : Resting stream s)
    {a : Addr} (hmalloc : env.malloc = some a) (hpage : PageOk stream env) :
    ∃ r, protoStateMachine env s = some r ∧ Outcome stream env r := by
  obtain ⟨k, hk, hle⟩ := h.read
  obtain ⟨r, hr, hout, -⟩ := protoStateMachine_takes h hk hle hmalloc hpage
  exact ⟨r, hr, hout⟩

/-- The reader of a connection before its first frame. -/
def Reader.fresh (stream : Bytes) : Reader := ⟨stream, .zero⟩

theorem fresh_resting (stream : Bytes) : Resting stream (.fresh stream) := .start rfl rfl rfl rfl

/-- POLLIN events one after the other, as long as the frame is partial: each
with what the machine returned. -/
def pollRun : List PollIn → Reader → Option (List (PollIn × ProtoResult))
  | [], _ => some []
  | env :: envs, s =>
      (protoStateMachine env s).bind fun r =>
        if r.ret > 0 then (pollRun envs r.reader).map ((env, r) :: ·) else some [(env, r)]

/-- What is right about the result of an event, with `k` bytes of the frame read
before: the machine did not get stuck; what its reads deliver has been consumed,
and that is nothing behind the first frame; the machine is complete exactly when
the frame's last byte has been read, which is when it returns 0, and then it
holds the frame; a negative result has a cause. -/
structure FrameStep (stream : Bytes) (env : PollIn) (k : Nat) (r : ProtoResult) : Prop where
  stuck : r.stuck = false
  consumed : r.reader.inbound = stream.drop (k + frameDelivered stream env k)
  within : k + frameDelivered stream env k ≤ stream.length ∧ (k + frameDelivered stream env k ≤ 12 ∨
    ∃ n, frameLength stream = some n ∧ k + frameDelivered stream env k ≤ n)
  complete : r.reader.incoming.state = .complete ↔ frameLength stream = some (k + frameDelivered stream env k)
  ret : r.reader.incoming.state = .complete ↔ r.ret = 0
  content : r.reader.incoming.state = .complete → Complete stream r.reader
  negative : r.ret < 0 → Cause stream env

/-- The results of events one after the other, the first of them with `k` bytes of
the frame read before. -/
def FrameSteps (stream : Bytes) : Nat → List (PollIn × ProtoResult) → Prop
  | _, [] => True
  | k, r :: rs => FrameStep stream r.1 k r.2 ∧ FrameSteps stream (k + frameDelivered stream r.1 k) rs

theorem dataDelivered_le (stream : Bytes) (env : PollIn) (k : Nat) :
    dataDelivered stream env k ≤ stream.length - k := by
  unfold dataDelivered
  cases validateHeader (stream.take 12) with
  | none => exact Nat.zero_le _
  | some sizes => exact (delivered_le _ _ _).2

theorem frameDelivered_le (stream : Bytes) (env : PollIn) (k : Nat) :
    frameDelivered stream env k ≤ stream.length - k := by
  have hheader := delivered_le env.headerScript (12 - k) (stream.length - k)
  have hdata := dataDelivered_le stream env
  unfold frameDelivered
  split
  · simp only
    split
    · exact hheader.2
    · have h12 := hdata 12
      omega
  · exact hdata k

theorem frameStep_of_short {stream : Bytes} {env : PollIn} {k : Nat} {r : ProtoResult}
    (hstuck : r.stuck = false) (hret : r.ret ≠ 0) (hshort : Short stream r.reader)
    (hle : k ≤ stream.length) (htook : r.reader.inbound = stream.drop (k + frameDelivered stream env k))
    (hcause : r.ret < 0 → Cause stream env) : FrameStep stream env k r := by
  have hbound := frameDelivered_le stream env k
  obtain ⟨hstate, m, hm, hin, hwithin⟩ := hshort
  obtain rfl : m = k + frameDelivered stream env k := by
    have hlen := congrArg List.length (hin.symm.trans htook)
    rw [List.length_drop, List.length_drop] at hlen
    omega
  have hnot : frameLength stream ≠ some (k + frameDelivered stream env k) := by
    intro hlen
    rcases hwithin with h12 | ⟨n, hn, hlt⟩
    · -- a frame is longer than its header
      obtain ⟨⟨size1, size2⟩, hvalid, hsum⟩ := Option.map_eq_some_iff.mp hlen
      obtain ⟨-, hpos, -, -⟩ := validateHeader_eq hvalid
      have hsum : 12 + size1 + size2 = k + frameDelivered stream env k := hsum
      omega
    · rw [hlen] at hn
      cases hn
      omega
  exact ⟨hstuck, htook, ⟨hm, hwithin.imp_right fun ⟨n, hn, hlt⟩ => ⟨n, hn, by omega⟩⟩,
    ⟨fun hc => absurd hc hstate, fun hl => absurd hl hnot⟩,
    ⟨fun hc => absurd hc hstate, fun h0 => absurd h0 hret⟩, fun hc => absurd hc hstate, hcause⟩

theorem frameStep_of_outcome {stream : Bytes} {env : PollIn} {k : Nat} {r : ProtoResult}
    (h : Outcome stream env r) (hle : k ≤ stream.length)
    (htook : r.reader.inbound = stream.drop (k + frameDelivered stream env k)) : FrameStep stream env k r := by
  cases h with
  | complete hret hstuck hat =>
      have hcomplete := hat
      obtain ⟨hstate, size1, size2, hvalid, hframe, hin, -⟩ := hat
      have hlen : frameLength stream = some (12 + size1 + size2) := by
        rw [frameLength, hvalid]
        rfl
      have hall : 12 + size1 + size2 = k + frameDelivered stream env k := by
        have hbound := frameDelivered_le stream env k
        have hboth := congrArg List.length (hin.symm.trans htook)
        rw [List.length_drop, List.length_drop] at hboth
        omega
      rw [hall] at hlen hframe
      exact ⟨hstuck, htook, ⟨hframe, Or.inr ⟨_, hlen, Nat.le_refl _⟩⟩, ⟨fun _ => hlen, fun _ => hstate⟩,
        ⟨fun _ => hret, fun _ => hstate⟩, fun _ => hcomplete, fun hneg => by omega⟩
  | waiting hret hstuck hat =>
      exact frameStep_of_short hstuck (by omega) (hat.elim AtHeader.short AtData.short) hle htook
        (fun hneg => by omega)
  | failed hret hstuck hat hcause =>
      exact frameStep_of_short hstuck (by omega) hat hle htook (fun _ => hcause)

theorem pollRun_spec {stream : Bytes} {events : List PollIn}
    (hmalloc : ∀ env ∈ events, ∃ a, env.malloc = some a) (hpage : ∀ env ∈ events, PageOk stream env)
    {s : Reader} (h : Resting stream s) {k : Nat} (hk : s.inbound = stream.drop k)
    (hle : k ≤ stream.length) :
    ∃ rs, pollRun events s = some rs ∧ FrameSteps stream k rs := by
  induction events generalizing s k with
  | nil => exact ⟨[], rfl, trivial⟩
  | cons env envs ih =>
      obtain ⟨a, ha⟩ := hmalloc env List.mem_cons_self
      obtain ⟨r, hr, hout, htook⟩ := protoStateMachine_takes h hk hle ha (hpage env List.mem_cons_self)
      have hstep : FrameStep stream env k r := frameStep_of_outcome hout hle htook
      rw [pollRun, hr, Option.bind_some]
      by_cases hpos : r.ret > 0
      · -- the frame is partial: the next event finds the machine where it stopped
        have hrest : Resting stream r.reader := by
          cases hout with
          | complete hret _ _ => omega
          | failed hret _ _ _ => omega
          | waiting _ _ hat => exact hat.elim .header .data
        obtain ⟨rs, hrs, hall⟩ := ih (fun e he => hmalloc e (List.mem_cons_of_mem _ he))
          (fun e he => hpage e (List.mem_cons_of_mem _ he)) hrest htook hstep.within.1
        rw [if_pos hpos, hrs, Option.map_some]
        exact ⟨_, rfl, hstep, hall⟩
      · rw [if_neg hpos]
        exact ⟨_, rfl, hstep, trivial⟩

/-- **Incoming framing is independent of fragmentation**: whatever the byte
stream and however the reads cut it, over any number of POLLIN events, the
machine never gives up on itself, consumes what the reads deliver and nothing
behind the first frame, is complete exactly when the frame's last byte has been
read and then holds the frame; it fails only on an invalid header, without an
iobuf, or when the peer has closed or failed. -/
theorem framing_independent (stream : Bytes) (events : List PollIn)
    (hmalloc : ∀ env ∈ events, ∃ a, env.malloc = some a)
    (hpage : ∀ env ∈ events, PageOk stream env) :
    ∃ rs, pollRun events (.fresh stream) = some rs ∧ FrameSteps stream 0 rs :=
  pollRun_spec hmalloc hpage (fresh_resting stream) rfl (Nat.zero_le _)

/-- A frame of two header bytes and one payload byte, and one byte behind it. -/
def shortStream : Bytes := socketHeader 2 1 ++ [1, 2] ++ [3] ++ [9]

/-- The frame above in five pieces over three events. -/
def fivePieces : List PollIn :=
  [⟨[.data 5, .intr, .data 3, .again], [], some 7, some ⟨8, [none, none]⟩⟩,
    ⟨[.data 4], [.data 1], some 7, some ⟨8, [none, none]⟩⟩,
    ⟨[], [.data 100], some 7, some ⟨8, [none, none]⟩⟩]

theorem framing_independent_fivePieces :
    ∃ rs, pollRun fivePieces (.fresh shortStream) = some rs ∧ FrameSteps shortStream 0 rs ∧
      rs.map (fun r => r.2.reader.incoming.state) = [.headerComing, .dataComing, .complete] := by
  have hvalid : validateHeader (shortStream.take 12) = some (2, 1) := by decide +kernel
  have hends : (pollRun fivePieces (.fresh shortStream)).map
      (List.map fun r => r.2.reader.incoming.state) = some [.headerComing, .dataComing, .complete] := by
    decide +kernel
  suffices hall : ∃ rs, pollRun fivePieces (.fresh shortStream) = some rs ∧ FrameSteps shortStream 0 rs by
    obtain ⟨rs, hrs, hsteps⟩ := hall
    rw [hrs, Option.map_some, Option.some.injEq] at hends
    exact ⟨rs, hrs, hsteps, hends⟩
  refine framing_independent shortStream fivePieces ?_ ?_
  · intro env henv
    exact ⟨7, by rcases henv with _ | ⟨_, _ | ⟨_, _ | ⟨_, h⟩⟩⟩ <;> first | rfl | cases h⟩
  · intro env henv size1 size2 page hv hp
    rw [hvalid] at hv
    cases hv
    have hpage : env.iobuf = some ⟨8, [none, none]⟩ := by
      rcases henv with _ | ⟨_, _ | ⟨_, _ | ⟨_, h⟩⟩⟩ <;> first | rfl | cases h
    rw [hpage] at hp
    cases hp
    decide

end LzLib.Socket
