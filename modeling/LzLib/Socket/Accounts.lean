/-
  LzLib.Socket.Accounts
  ─────────────────────
  **WHAT THE FUNCTIONS OF A TRANSPORT RELEASE.**

  A submitted buffer belongs to the transport from the moment
  `socket_submit` returns 0: it is in the queue or it has been freed, its
  iobref reference with it (`Outgo`).  A header block or page allocated for
  an incoming message is in `priv->incoming`, has been received, or has been
  released by `__socket_reset` (`Income`).  Both are equations between lists,
  so that every buffer is counted as often as it came.

  The outgoing functions bring goods to the back of the queue and take some
  from its front (`Sends`); the machine puts what it allocates into
  `priv->incoming` (`Allocates`).
-/
import LzLib.Socket.Outgoing
import LzLib.Socket.OwnershipDef

namespace LzLib.Socket

open LzLib.Foundation
open LzLib.Event

/-! ## §1. The log. -/

section Log

def freedBufs (log : List MemEvent) : List Addr :=
  log.filterMap fun e => match e with
    | .freeBuf a => some a
    | _ => none

def takenRefs (log : List MemEvent) : List Addr :=
  log.filterMap fun e => match e with
    | .refIobref a => some a
    | _ => none

def droppedRefs (log : List MemEvent) : List Addr :=
  log.filterMap fun e => match e with
    | .unrefIobref a => some a
    | _ => none

def freedHdrs (log : List MemEvent) : List Addr :=
  log.filterMap fun e => match e with
    | .freeHdr a => some a
    | _ => none

def droppedIobufs (log : List MemEvent) : List Addr :=
  log.filterMap fun e => match e with
    | .unrefIobuf a => some a
    | _ => none

/-- What an entry or a message brings: its buffer and its iobref. -/
abbrev Goods := Addr × Option Addr

def Ioq.goods (e : Ioq) : Goods := (e.buf, e.iobref)

def Message.goods (m : Message) : Goods := (m.addr, m.iobref)

/-- The iobrefs of some goods. -/
def iobrefsOf (l : List Goods) : List Addr := l.flatMap fun g => g.2.toList

/-- `l` has gone: freed, its iobrefs dropped. -/
def goneLog (l : List Goods) : List MemEvent :=
  l.flatMap fun g => g.2.toList.map .unrefIobref ++ [.freeBuf g.1]

/-- `l` has come: a reference to each iobref. -/
def refLog (l : List Goods) : List MemEvent :=
  l.flatMap fun g => g.2.toList.map .refIobref

theorem ioqEntryFree_eq (e : Ioq) : ioqEntryFree e = goneLog [e.goods] :=
  (List.append_nil _).symm

theorem flatMap_ioqEntryFree (q : List Ioq) : q.flatMap ioqEntryFree = goneLog (q.map Ioq.goods) := by
  induction q with
  | nil => rfl
  | cons e q ih =>
      rw [List.flatMap_cons, ih]
      rfl

/-- What a released entry adds to each of the accounts. -/
theorem goneLog_accounts (l : List Goods) :
    freedBufs (goneLog l) = l.map Prod.fst ∧ takenRefs (goneLog l) = [] ∧
      droppedRefs (goneLog l) = iobrefsOf l ∧ freedHdrs (goneLog l) = [] ∧ droppedIobufs (goneLog l) = [] := by
  induction l with
  | nil => exact ⟨rfl, rfl, rfl, rfl, rfl⟩
  | cons g l ih =>
      obtain ⟨hbufs, htaken, hdropped, hhdrs, hiobufs⟩ := ih
      obtain ⟨a, iobref⟩ := g
      cases iobref with
      | none =>
          exact ⟨congrArg (a :: ·) hbufs, htaken, hdropped, hhdrs, hiobufs⟩
      | some r =>
          exact ⟨congrArg (a :: ·) hbufs, htaken, congrArg (r :: ·) hdropped, hhdrs, hiobufs⟩

theorem refLog_accounts (l : List Goods) :
    freedBufs (refLog l) = [] ∧ takenRefs (refLog l) = iobrefsOf l ∧
      droppedRefs (refLog l) = [] ∧ freedHdrs (refLog l) = [] ∧ droppedIobufs (refLog l) = [] := by
  induction l with
  | nil => exact ⟨rfl, rfl, rfl, rfl, rfl⟩
  | cons g l ih =>
      obtain ⟨hbufs, htaken, hdropped, hhdrs, hiobufs⟩ := ih
      obtain ⟨a, iobref⟩ := g
      cases iobref with
      | none => exact ⟨hbufs, htaken, hdropped, hhdrs, hiobufs⟩
      | some r => exact ⟨hbufs, congrArg (r :: ·) htaken, hdropped, hhdrs, hiobufs⟩

theorem freedBufs_append (l l' : List MemEvent) : freedBufs (l ++ l') = freedBufs l ++ freedBufs l' :=
  List.filterMap_append

theorem takenRefs_append (l l' : List MemEvent) : takenRefs (l ++ l') = takenRefs l ++ takenRefs l' :=
  List.filterMap_append

theorem droppedRefs_append (l l' : List MemEvent) :
    droppedRefs (l ++ l') = droppedRefs l ++ droppedRefs l' :=
  List.filterMap_append

theorem freedHdrs_append (l l' : List MemEvent) : freedHdrs (l ++ l') = freedHdrs l ++ freedHdrs l' :=
  List.filterMap_append

theorem droppedIobufs_append (l l' : List MemEvent) :
    droppedIobufs (l ++ l') = droppedIobufs l ++ droppedIobufs l' :=
  List.filterMap_append

theorem iobrefsOf_append (l l' : List Goods) : iobrefsOf (l ++ l') = iobrefsOf l ++ iobrefsOf l' :=
  List.flatMap_append

end Log

/-! ## §2. Outgoing messages. -/

/-- What was taken is gone or queued, in the order in which it came. -/
structure Outgo (accepted : List Goods) (t : Transport) : Prop where
  gone : ∃ gone, gone ++ t.ioq.map Ioq.goods = accepted ∧
    freedBufs t.log = gone.map Prod.fst ∧ droppedRefs t.log = iobrefsOf gone
  taken : takenRefs t.log = iobrefsOf accepted

/-- A step of the outgoing half: `brought` comes to the back of the queue,
`left` leaves at its front, and nothing else changes but the bytes sent and
how the connection stands. -/
structure Sends (t t' : Transport) (brought left : List Goods) : Prop where
  queue : t.ioq.map Ioq.goods ++ brought = left ++ t'.ioq.map Ioq.goods
  log : t'.log = t.log ++ refLog brought ++ goneLog left
  sock : t'.sock = t.sock
  reader : t'.reader = t.reader

section Sends

variable {t t' t'' : Transport} {brought left left' : List Goods}

theorem Sends.refl (t : Transport) : Sends t t [] [] where
  queue := List.append_nil _
  log := by
    show t.log = (t.log ++ []) ++ []
    rw [List.append_nil, List.append_nil]
  sock := rfl
  reader := rfl

/-- The part of a transport that `Sends` reads. -/
theorem Sends.congr (h : Sends t t' brought left) (hioq : t''.ioq = t'.ioq) (hlog : t''.log = t'.log)
    (hsock : t''.sock = t'.sock) (hreader : t''.reader = t'.reader) : Sends t t'' brought left where
  queue := by rw [hioq, h.queue]
  log := by rw [hlog, h.log]
  sock := by rw [hsock, h.sock]
  reader := by rw [hreader, h.reader]

theorem Sends.trans (h : Sends t t' brought left) (h' : Sends t' t'' [] left') :
    Sends t t'' brought (left ++ left') where
  queue := by
    have hqueue := h'.queue
    rw [List.append_nil] at hqueue
    rw [h.queue, hqueue, List.append_assoc]
  log := by
    have hlog := h'.log
    rw [show refLog [] = [] from rfl, List.append_nil] at hlog
    rw [hlog, h.log, List.append_assoc, goneLog, goneLog, goneLog, List.flatMap_append]
  sock := by rw [h'.sock, h.sock]
  reader := by rw [h'.reader, h.reader]

/-- **The outgoing account** over such a step. -/
theorem Sends.outgo {accepted : List Goods} (h : Sends t t' brought left) (ho : Outgo accepted t) :
    Outgo (accepted ++ brought) t' := by
  obtain ⟨gone, hgone, hbufs, hdropped⟩ := ho.gone
  obtain ⟨hbufs₁, htaken₁, hdropped₁, -, -⟩ := refLog_accounts brought
  obtain ⟨hbufs₂, htaken₂, hdropped₂, -, -⟩ := goneLog_accounts left
  constructor
  · refine ⟨gone ++ left, ?_, ?_, ?_⟩
    · rw [List.append_assoc, ← h.queue, ← List.append_assoc, hgone]
    · rw [h.log, freedBufs_append, freedBufs_append, hbufs, hbufs₁, hbufs₂, List.append_nil,
        List.map_append]
    · rw [h.log, droppedRefs_append, droppedRefs_append, hdropped, hdropped₁, hdropped₂,
        List.append_nil, iobrefsOf_append]
  · rw [h.log, takenRefs_append, takenRefs_append, ho.taken, htaken₁, htaken₂, List.append_nil,
      iobrefsOf_append]

/-- It says nothing of incoming memory. -/
theorem Sends.income (h : Sends t t' brought left) :
    freedHdrs t'.log = freedHdrs t.log ∧ droppedIobufs t'.log = droppedIobufs t.log := by
  obtain ⟨-, -, -, hhdrs₁, hiobufs₁⟩ := refLog_accounts brought
  obtain ⟨-, -, -, hhdrs₂, hiobufs₂⟩ := goneLog_accounts left
  constructor
  · rw [h.log, freedHdrs_append, freedHdrs_append, hhdrs₁, hhdrs₂, List.append_nil, List.append_nil]
  · rw [h.log, droppedIobufs_append, droppedIobufs_append, hiobufs₁, hiobufs₂, List.append_nil,
      List.append_nil]

end Sends

/-- One entry: it leaves, or it stays with its goods. -/
theorem ioqChurnEntry_sends {t : Transport} {e : Ioq} {script : List WriteEvent} {c : Churned}
    (h : ioqChurnEntry t e script = some c) :
    c.transport.ioq = t.ioq ∧ c.transport.sock = t.sock ∧ c.transport.reader = t.reader ∧
      match c.entry with
      | none => c.ret = 0 ∧ c.transport.log = t.log ++ goneLog [e.goods]
      | some e' => c.transport.log = t.log ∧ e'.goods = e.goods := by
  obtain ⟨r, -, rfl⟩ := Option.map_eq_some_iff.mp h
  by_cases h0 : r.pendingCount = 0
  · rw [if_pos h0]
    exact ⟨rfl, rfl, rfl, rfl, by rw [← ioqEntryFree_eq]⟩
  · rw [if_neg h0]
    exact ⟨rfl, rfl, rfl, rfl, rfl⟩

/-- The loop over the queue: a front of it leaves. -/
theorem churnLoop_sends {q : List Ioq} {t : Transport} {scripts : List (List WriteEvent)} {ret : Int}
    {r : Transport × Int} (h : churnLoop t q scripts ret = some r) :
    ∃ left, Sends { t with ioq := q } r.1 [] left := by
  induction q generalizing t scripts ret with
  | nil =>
      cases h
      exact ⟨[], Sends.refl _⟩
  | cons e rest ih =>
      obtain ⟨c, hc, h⟩ := Option.bind_eq_some_iff.mp h
      obtain ⟨hioq, hsock, hreader, hentry⟩ := ioqChurnEntry_sends hc
      cases hcase : c.entry with
      | none =>
          -- the head is gone, the loop goes on behind it
          rw [hcase] at h hentry
          obtain ⟨left, hsends⟩ := ih h
          have hhead : Sends { t with ioq := e :: rest } { c.transport with ioq := rest } [] [e.goods] :=
            ⟨by rw [List.append_nil]; rfl, by show c.transport.log = (t.log ++ []) ++ _; rw [List.append_nil, hentry.2],
              hsock, hreader⟩
          exact ⟨_, hhead.trans hsends⟩
      | some e' =>
          rw [hcase] at h hentry
          cases h
          refine ⟨[], ?_, ?_, hsock, hreader⟩
          · show (e.goods :: rest.map Ioq.goods) ++ [] = e'.goods :: rest.map Ioq.goods
            rw [List.append_nil, hentry.2]
          · show c.transport.log = (t.log ++ []) ++ []
            rw [List.append_nil, List.append_nil, hentry.1]

theorem selectOut_sends {t t' t₀ : Transport} {brought left : List Goods} {on : Int} {refused : Bool}
    (h : Sends t₀ t brought left) (ht : t.selectOut on refused = some t') : Sends t₀ t' brought left := by
  obtain ⟨r, -, rfl⟩ := Option.map_eq_some_iff.mp ht
  exact h.congr rfl rfl rfl rfl

theorem ioqChurn_sends {t : Transport} {scripts : List (List WriteEvent)} {refused : Bool}
    {r : Transport × Int} (h : ioqChurn t scripts refused = some r) : ∃ left, Sends t r.1 [] left := by
  obtain ⟨r', hr', h⟩ := Option.bind_eq_some_iff.mp h
  obtain ⟨left, hsends⟩ := churnLoop_sends hr'
  refine ⟨left, ?_⟩
  split at h
  · obtain ⟨t', ht', rfl⟩ := Option.map_eq_some_iff.mp h
    exact selectOut_sends hsends ht'
  · cases h
    exact hsends

theorem disconnect_sends (t : Transport) : Sends t (disconnect t) [] [] := by
  unfold disconnect
  split
  · exact (Sends.refl t).congr rfl rfl rfl rfl
  · exact Sends.refl t

theorem connectFinish_sends (t : Transport) (o : ConnectOutcome) : Sends t (connectFinish t o) [] [] := by
  cases o with
  | done => exact (Sends.refl t).congr rfl rfl rfl rfl
  | inProgress => exact Sends.refl t
  | failed => exact disconnect_sends t
  | noName => exact disconnect_sends t

theorem eventPollOut_sends {t : Transport} {scripts : List (List WriteEvent)} {refused : Bool}
    {r : Transport × Int} (h : eventPollOut t scripts refused = some r) :
    ∃ left, Sends t r.1 [] left := by
  unfold eventPollOut at h
  split at h
  · obtain ⟨r', hr', rfl⟩ := Option.map_eq_some_iff.mp h
    obtain ⟨left, hsends⟩ := ioqChurn_sends hr'
    split
    · exact ⟨_, hsends.trans (disconnect_sends r'.1)⟩
    · exact ⟨left, hsends⟩
  · cases h
    exact ⟨[], Sends.refl t⟩

/-- **A submission** takes the message, or returns -1 and leaves everything as
it was. -/
theorem socketSubmit_sends {t : Transport} {m : Message} {script : List WriteEvent} {room refused : Bool}
    {r : Transport × Int} (h : socketSubmit t m script room refused = some r) :
    (r = (t, -1)) ∨ (t.connected = 1 ∧ r.2 = 0 ∧ ∃ left, Sends t r.1 [m.goods] left) := by
  -- the reference is taken before anything is written
  have href : refLog [m.goods] = m.iobref.toList.map .refIobref := List.append_nil _
  have hrest : ∀ (c : Churned) (e : Ioq), Direct t m script room c → c.entry = some e →
      Sends t { c.transport with ioq := [e] } [m.goods] [] := by
    intro c e D hentry
    obtain ⟨-, hsock, hreader, houtcome⟩ := ioqChurnEntry_sends D.churned
    rw [hentry] at houtcome
    refine ⟨?_, ?_, hsock, hreader⟩
    · show t.ioq.map Ioq.goods ++ [m.goods] = [e.goods]
      rw [D.empty, houtcome.2]
      rfl
    · show c.transport.log = (t.log ++ refLog [m.goods]) ++ []
      rw [houtcome.1, href, List.append_nil]
  cases socketSubmit_cases h with
  | refuses hwhy => exact Or.inl rfl
  | behind hconn hq =>
      refine Or.inr ⟨hconn, rfl, [], ?_, ?_, rfl, rfl⟩
      · show t.ioq.map Ioq.goods ++ [m.goods] = (t.ioq ++ [ioqNew m]).map Ioq.goods
        rw [List.map_append]
        rfl
      · show t.log ++ _ = (t.log ++ refLog [m.goods]) ++ []
        rw [href, List.append_nil]
  | @written c D hentry =>
      obtain ⟨hioq, hsock, hreader, houtcome⟩ := ioqChurnEntry_sends D.churned
      rw [hentry] at houtcome
      refine Or.inr ⟨D.connected, houtcome.1, [m.goods], ?_, ?_, hsock, hreader⟩
      · show t.ioq.map Ioq.goods ++ [m.goods] = [m.goods] ++ c.transport.ioq.map Ioq.goods
        rw [hioq, D.empty]
        rfl
      · show c.transport.log = _
        rw [houtcome.2, href]
        rfl
  | @waits c e t' D hentry hret hsel =>
      exact Or.inr ⟨D.connected, rfl, [], selectOut_sends (hrest c e D hentry) hsel⟩
  | @stuck c e D hentry hret => exact Or.inr ⟨D.connected, rfl, [], hrest c e D hentry⟩

/-! ## §3. Incoming messages. -/

/-- The header block and the page in `priv->incoming`. -/
def Landing.hdrs (mem : Landing) : List Addr := mem.hdrP.toList.map Block.addr

def Landing.iobufs (mem : Landing) : List Addr := mem.iobuf.toList.map Block.addr

/-- The header blocks and the pages that were allocated. -/
def allocHdrs (l : List Alloc) : List Addr :=
  l.filterMap fun e => match e with
    | .hdr a => some a
    | .iobuf _ => none

def allocIobufs (l : List Alloc) : List Addr :=
  l.filterMap fun e => match e with
    | .hdr _ => none
    | .iobuf a => some a

/-- The header blocks and the pages that were received. -/
def receivedHdrs (l : List Received) : List Addr := l.flatMap fun r => r.hdrP.toList.map Block.addr

def receivedIobufs (l : List Received) : List Addr := l.flatMap fun r => r.iobuf.toList.map Block.addr

/-- What `__socket_reset` releases. -/
def releaseLog (mem : Landing) : List MemEvent :=
  (mem.hdrP.toList.map fun b => .freeHdr b.addr) ++ (mem.iobuf.toList.map fun b => .unrefIobuf b.addr)

theorem releaseLog_accounts (mem : Landing) :
    freedBufs (releaseLog mem) = [] ∧ takenRefs (releaseLog mem) = [] ∧ droppedRefs (releaseLog mem) = [] ∧
      freedHdrs (releaseLog mem) = mem.hdrs ∧ droppedIobufs (releaseLog mem) = mem.iobufs := by
  obtain ⟨header, hdrP, iobuf⟩ := mem
  cases hdrP <;> cases iobuf <;> exact ⟨rfl, rfl, rfl, rfl, rfl⟩

/-- What was allocated has been received, has been released, or is in
`priv->incoming`. -/
structure Income (allocated : List Alloc) (received : List Received) (t : Transport) : Prop where
  hdrs : receivedHdrs received ++ freedHdrs t.log ++ t.incoming.mem.hdrs = allocHdrs allocated
  iobufs : receivedIobufs received ++ droppedIobufs t.log ++ t.incoming.mem.iobufs = allocIobufs allocated

/-- Reading bytes in moves no block. -/
theorem socketReadv_slots {script : List ReadEvent} {s : ReadSide Landing} {v : List (IoVec Dest)} {count : Int}
    {out : Rwv (ReadSide Landing) Dest} (h : socketReadv landingStore script s v count = some out) :
    out.state.mem.hdrs = s.mem.hdrs ∧ out.state.mem.iobufs = s.mem.iobufs := by
  have hput : ∀ (mem : Landing) d off bs mem', (mem.hdrs = s.mem.hdrs ∧ mem.iobufs = s.mem.iobufs) →
      landingStore.put mem d off bs = some mem' → mem'.hdrs = s.mem.hdrs ∧ mem'.iobufs = s.mem.iobufs := by
    intro mem d off bs mem' hmem hrun
    have hrun : mem.put d off bs = some mem' := hrun
    cases d with
    | header =>
        obtain ⟨header, -, rfl⟩ := Option.map_eq_some_iff.mp hrun
        exact hmem
    | hdr =>
        rw [Landing.put] at hrun
        split at hrun
        · cases hrun
          exact hmem
        · obtain ⟨b, hb, hrun⟩ := Option.bind_eq_some_iff.mp hrun
          obtain ⟨cells, -, rfl⟩ := Option.map_eq_some_iff.mp hrun
          refine ⟨?_, hmem.2⟩
          rw [← hmem.1, Landing.hdrs, Landing.hdrs, hb]
          rfl
    | buf =>
        rw [Landing.put] at hrun
        split at hrun
        · cases hrun
          exact hmem
        · obtain ⟨b, hb, hrun⟩ := Option.bind_eq_some_iff.mp hrun
          obtain ⟨cells, -, rfl⟩ := Option.map_eq_some_iff.mp hrun
          refine ⟨hmem.1, ?_⟩
          rw [← hmem.2, Landing.iobufs, Landing.iobufs, hb]
          rfl
  exact socketReadv_keeps hput ⟨rfl, rfl⟩ h

/-- Before its data has begun, a message has no memory. -/
def Reader.Early (s : Reader) : Prop :=
  s.incoming.state = .nada ∨ s.incoming.state = .headerComing ∨ s.incoming.state = .headerCame →
    s.incoming.mem.hdrs = [] ∧ s.incoming.mem.iobufs = []

/-- Where the machine may be left for the next event. -/
structure Reader.Between (s : Reader) : Prop where
  early : s.Early
  state : s.incoming.state = .nada ∨ s.incoming.state = .headerComing ∨
    s.incoming.state = .dataComing ∨ s.incoming.state = .complete

/-- `l` is what has been allocated from `s` to `s'`, and it is in
`priv->incoming`. -/
structure Allocates (s s' : Reader) (l : List Alloc) : Prop where
  hdrs : s'.incoming.mem.hdrs = s.incoming.mem.hdrs ++ allocHdrs l
  iobufs : s'.incoming.mem.iobufs = s.incoming.mem.iobufs ++ allocIobufs l

theorem Allocates.none {s s' : Reader} (hhdrs : s'.incoming.mem.hdrs = s.incoming.mem.hdrs)
    (hiobufs : s'.incoming.mem.iobufs = s.incoming.mem.iobufs) : Allocates s s' [] where
  hdrs := by
    rw [hhdrs]
    exact (List.append_nil _).symm
  iobufs := by
    rw [hiobufs]
    exact (List.append_nil _).symm

theorem Allocates.trans {s s' s'' : Reader} {l l' : List Alloc} (h : Allocates s s' l)
    (h' : Allocates s' s'' l') : Allocates s s'' (l ++ l') where
  hdrs := by rw [h'.hdrs, h.hdrs, List.append_assoc, allocHdrs, allocHdrs, allocHdrs, List.filterMap_append]
  iobufs := by
    rw [h'.iobufs, h.iobufs, List.append_assoc, allocIobufs, allocIobufs, allocIobufs, List.filterMap_append]

/-- How a round ends: on to the next, or out of the machine with an error or
at a place to go on from. -/
def Round.Allocates (s : Reader) (l : List Alloc) : Round → Prop
  | .next _ s' => LzLib.Socket.Allocates s s' l ∧ s'.Early
  | .unlock ret s' => LzLib.Socket.Allocates s s' l ∧ (ret < 0 ∨ s'.Between)

section Machine

variable {env : PollIn} {s : Reader}

theorem roundAllocs_of_ne (h : s.incoming.state ≠ .headerCame) : roundAllocs env s = [] := by
  unfold roundAllocs
  split
  next hstate _ => exact absurd hstate h
  next => rfl

/-- The round that allocates. -/
theorem caseHeaderCame_allocates (hstate : s.incoming.state = .headerCame) (h : s.Early) :
    (caseHeaderCame env s).Allocates s (roundAllocs env s) := by
  obtain ⟨hhdrs, hiobufs⟩ := h (Or.inr (Or.inr hstate))
  unfold caseHeaderCame roundAllocs
  rw [hstate]
  cases hvalid : validateHeader s.incoming.mem.header with
  | none => exact ⟨Allocates.none rfl rfl, Or.inl (by decide)⟩
  | some sizes =>
      obtain ⟨size1, size2⟩ := sizes
      have hblock : (env.malloc.map fun a => (⟨a, List.replicate size1 none⟩ : Block)).toList.map Block.addr
          = allocHdrs (env.malloc.toList.map .hdr) := by
        cases env.malloc <;> rfl
      have hnone : allocIobufs (env.malloc.toList.map .hdr) = [] := by
        cases env.malloc <;> rfl
      have hdata : ∀ (mem : Landing) (r : Reader), r.incoming = installVector
          { allocHdr env s.incoming size1 size2 with mem := mem } size1 size2 → r.Early := by
        intro mem r hr hearly
        rw [hr] at hearly
        rcases hearly with h | h | h <;> cases h
      dsimp only
      split
      next hpos =>
        cases hpage : env.iobuf with
        | none =>
            -- no page: the block stays behind, and the error ends the connection
            refine ⟨⟨?_, ?_⟩, Or.inl (by decide)⟩
            · show (env.malloc.map fun a => (⟨a, List.replicate size1 none⟩ : Block)).toList.map Block.addr = _
              rw [hhdrs, hblock, Option.toList_none, List.map_nil, List.append_nil, List.nil_append]
            · show s.incoming.mem.iobufs = _
              rw [hiobufs, Option.toList_none, List.map_nil, List.append_nil, hnone, List.append_nil]
        | some page =>
            refine ⟨⟨?_, ?_⟩, hdata _ _ rfl⟩
            · show (env.malloc.map fun a => (⟨a, List.replicate size1 none⟩ : Block)).toList.map Block.addr = _
              rw [hhdrs, hblock, allocHdrs, allocHdrs, List.filterMap_append, List.nil_append]
              exact (List.append_nil _).symm
            · show [page.addr] = _
              rw [hiobufs, allocIobufs, List.filterMap_append, ← allocIobufs, hnone]
              rfl
      next hzero =>
        rw [List.append_nil]
        refine ⟨⟨?_, ?_⟩, hdata _ _ rfl⟩
        · show (env.malloc.map fun a => (⟨a, List.replicate size1 none⟩ : Block)).toList.map Block.addr = _
          rw [hhdrs, hblock, List.nil_append]
        · show s.incoming.mem.iobufs = _
          rw [hiobufs, hnone, List.append_nil]

/-- **One round**: what it allocates is in `priv->incoming` afterwards. -/
theorem protoRound_allocates {ret : Int} {r : Round} (h : s.Early) (hr : protoRound env ret s = some r) :
    r.Allocates s (roundAllocs env s) := by
  unfold protoRound at hr
  cases hstate : s.incoming.state with
  | nada =>
      rw [hstate] at hr
      cases hr
      rw [roundAllocs_of_ne (by rw [hstate]; decide)]
      exact ⟨Allocates.none rfl rfl, fun _ => h (Or.inl hstate)⟩
  | headerComing =>
      rw [hstate] at hr
      rw [roundAllocs_of_ne (by rw [hstate]; decide)]
      obtain ⟨hhdrs, hiobufs⟩ := h (Or.inr (Or.inl hstate))
      obtain ⟨out, hout, rfl⟩ := Option.map_eq_some_iff.mp hr
      obtain ⟨hhdrs', hiobufs'⟩ := socketReadv_slots hout
      -- reading into the header array allocates nothing
      have hempty : out.state.mem.hdrs = [] ∧ out.state.mem.iobufs = [] := ⟨hhdrs'.trans hhdrs, hiobufs'.trans hiobufs⟩
      split
      · exact ⟨Allocates.none hhdrs' hiobufs', fun _ => hempty⟩
      · exact ⟨Allocates.none hhdrs' hiobufs', Or.inr ⟨fun _ => hempty, Or.inr (Or.inl hstate)⟩⟩
  | headerCame =>
      rw [hstate] at hr
      cases hr
      exact caseHeaderCame_allocates hstate h
  | dataComing =>
      rw [hstate] at hr
      rw [roundAllocs_of_ne (by rw [hstate]; decide)]
      obtain ⟨out, hout, rfl⟩ := Option.map_eq_some_iff.mp hr
      obtain ⟨hhdrs', hiobufs'⟩ := socketReadv_slots hout
      split
      · refine ⟨Allocates.none hhdrs' hiobufs', ?_⟩
        rintro (h | h | h) <;> cases h
      · -- the state stays, and the next event reads on
        have hdata : ((s.after out).setCount out.pendingCount).incoming.state = .dataComing := hstate
        refine ⟨Allocates.none hhdrs' hiobufs', Or.inr ⟨?_, Or.inr (Or.inr (Or.inl hdata))⟩⟩
        intro hearly
        rw [hdata] at hearly
        rcases hearly with h | h | h <;> cases h
  | dataCame =>
      rw [hstate] at hr
      cases hr
      rw [roundAllocs_of_ne (by rw [hstate]; decide)]
      refine ⟨Allocates.none rfl rfl, ?_⟩
      rintro (h | h | h) <;> cases h
  | complete =>
      rw [hstate] at hr
      cases hr
      rw [roundAllocs_of_ne (by rw [hstate]; decide)]
      exact ⟨Allocates.none rfl rfl, h⟩

/-- The loop, by induction on the rounds left. -/
theorem protoLoop_allocates {fuel : Nat} {previous : Option ProtoState} {ret : Int} {r : ProtoResult}
    (h : s.Early) (hr : protoLoop env fuel previous ret s = some r) :
    Allocates s r.reader (loopAllocs env fuel previous ret s) ∧ (r.ret < 0 ∨ r.reader.Between) := by
  induction fuel generalizing previous ret s with
  | zero => cases hr
  | succ fuel ih =>
      unfold protoLoop at hr
      unfold loopAllocs
      split at hr
      next hcomplete =>
        cases hr
        rw [if_pos hcomplete]
        exact ⟨Allocates.none rfl rfl, Or.inr ⟨h, Or.inr (Or.inr (Or.inr hcomplete))⟩⟩
      next hne =>
      rw [if_neg hne]
      split at hr
      next hsame =>
        cases hr
        rw [if_pos hsame]
        exact ⟨Allocates.none rfl rfl, Or.inl (show (-1 : Int) < 0 by decide)⟩
      next hnew =>
      rw [if_neg hnew]
      -- one round, then the rest
      obtain ⟨round, hround, hr⟩ := Option.bind_eq_some_iff.mp hr
      have hone := protoRound_allocates h hround
      rw [hround]
      cases round with
      | unlock ret' s' =>
          cases hr
          dsimp only
          rw [List.append_nil]
          exact hone
      | next ret' s' =>
          obtain ⟨hrest, hend⟩ := ih hone.2 hr
          exact ⟨hone.1.trans hrest, hend⟩

/-- **The machine**: what it allocates stays in `priv->incoming`, and without
an error it stops where the next event can go on. -/
theorem protoStateMachine_allocates {r : ProtoResult} (h : s.Between) (hr : protoStateMachine env s = some r) :
    Allocates s r.reader (machineAllocs env s) ∧ (r.ret < 0 ∨ r.reader.Between) :=
  protoLoop_allocates h.early hr

end Machine

end LzLib.Socket
