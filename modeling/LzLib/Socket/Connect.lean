/-
  LzLib.Socket.Connect
  ────────────────────
  **WHAT A FAILED CONNECT OR LISTEN LEAVES BEHIND.**

  `LeavesNoTrace w r`: a call that returns -1 has put everything back, a call
  that returns 0 has an open and registered socket and one reference more.
  The way from the socket to the registration is rolled back at every step;
  what is not is a `socket` that fails (the `ret` of the address lookup, 0, is
  returned), a connection in progress (`ret` stays -1 although everything
  went well), and a registration that fails (the reference stays, on the
  connecting side the socket too).
-/
import LzLib.Socket.ConnectDef
import LzLib.Event.Atomicity

namespace LzLib.Socket

open LzLib.Foundation
open LzLib.Event

/-! ## §1. Registering a new descriptor. -/

/-- `event_register` has room, and the kernel does not refuse. -/
def Registers (pool : EventPool) (room refused : Bool) : Prop :=
  refused = false ∧ (pool.count = pool.used → room = true)

/-- A slot and the kernel know the descriptor. -/
def Registered (pool : EventPool) (fd : Int) : Prop :=
  fd ∈ pool.reg.map RegSlot.fd ∧ assocGet pool.interest fd ≠ none

/-- A descriptor that the kernel does not watch yet. -/
theorem eventRegister_fresh {pool : EventPool} {fd : Int} (hlive : pool.regNull = false)
    (hnew : assocGet pool.interest fd = none) (handler data : Addr) (pollIn pollOut : Int)
    (room refused : Bool) :
    ∃ r, eventRegister pool fd handler data pollIn pollOut room refused = some r ∧
      (Registers pool room refused ∧ r.2 = 0 ∧ Registered r.1 fd ∨
        ¬ Registers pool room refused ∧ r.2 = -1) := by
  by_cases hroom : pool.count = pool.used → room = true
  · rw [eventRegister_room hlive hroom]
    refine ⟨_, rfl, ?_⟩
    generalize (if pool.count = pool.used then pool.count * 2 else pool.count) = count
    cases refused with
    | true =>
        -- `ADD` was refused
        refine Or.inr ⟨?_, rfl⟩
        intro hok
        exact absurd hok.1 (by decide)
    | false =>
        -- `ADD` installs the event, since the kernel has none for `fd`
        have hadd := ctl_add ⟨count, pool.reg ++ [newSlot fd handler data pollIn pollOut], pool.regNull,
          pool.interest⟩ fd ⟨(newSlot fd handler data pollIn pollOut).events, fd, pool.used⟩ hnew
        have hrun : eventAppend { pool with count } (newSlot fd handler data pollIn pollOut) false
            = _ := hadd
        rw [hrun]
        refine Or.inl ⟨⟨rfl, hroom⟩, rfl, ?_, ?_⟩
        · show fd ∈ (pool.reg ++ [newSlot fd handler data pollIn pollOut]).map RegSlot.fd
          rw [List.map_append, List.mem_append]
          exact Or.inr (List.mem_singleton.mpr rfl)
        · show assocGet (assocSet pool.interest fd _) fd ≠ none
          rw [assocGet_set, if_pos rfl]
          exact Option.some_ne_none _
  · -- the table is full and stays so
    have hfull : pool.count = pool.used := by
      by_contra hnot
      exact hroom fun hc => absurd hc hnot
    cases room with
    | true => exact absurd (fun _ => rfl) hroom
    | false =>
        rw [eventRegister_lost hlive hfull]
        exact ⟨_, rfl, Or.inr ⟨fun hok => hroom hok.2, rfl⟩⟩

/-! ## §2. The law. -/

/-- `priv->sock`. -/
def Endpoint.sock (w : Endpoint) : Option Int := w.this.priv.map SocketPrivate.sock

/-- Nothing is left of the call. -/
structure Restored (w w' : Endpoint) : Prop where
  sock : w'.sock = some (-1)
  slots : w'.pool.reg = w.pool.reg
  watched : ∀ fd, assocGet w'.pool.interest fd = assocGet w.pool.interest fd
  closed : w'.fds = w.fds
  refs : w'.this.refcount = w.this.refcount

/-- The socket is open and registered, and the pool holds one reference. -/
structure Opened (w w' : Endpoint) : Prop where
  sock : ∃ fd, w'.sock = some fd ∧ fd ≠ -1 ∧ w'.fds = fd :: w.fds ∧ Registered w'.pool fd
  refs : w'.this.refcount = w.this.refcount + 1

/-- **A failure leaves no trace, and success leaves what it should.** -/
def LeavesNoTrace (w : Endpoint) (r : Endpoint × Int) : Prop :=
  (r.2 = -1 → Restored w r.1) ∧ (r.2 = 0 → Opened w r.1)

/-- What `socket` may return: -1, or a descriptor that is not open, so that
the kernel watches nothing of that number. -/
def NewSocket (w : Endpoint) (fd : Int) : Prop :=
  fd = -1 ∨ 0 ≤ fd ∧ fd ∉ w.fds ∧ assocGet w.pool.interest fd = none

/-- `socket_connect` meets none of the failures that it does not roll back. -/
def ConnectClean (w : Endpoint) (priv : SocketPrivate) (calls : ConnectCalls) : Prop :=
  (socketClientGetRemoteSockaddr calls.options calls.resolve).1 ≠ -1 →
    calls.socket ≠ -1 ∧
      ((priv.bio = true ∨ socketNonblock calls.getfl calls.setfl ≠ -1) →
        clientBind calls.options (socketClientGetRemoteSockaddr calls.options calls.resolve).2
          calls.bindPort calls.bindPath ≠ -1 →
        calls.connect ≠ .failed →
          calls.connect = .done ∧ Registers w.pool calls.room calls.refused)

/-- So for `socket_listen`. -/
def ListenClean (w : Endpoint) (priv : SocketPrivate) (calls : ListenCalls) : Prop :=
  (socketServerGetLocalSockaddr calls.options calls.lookup).1 ≠ -1 →
    calls.socket ≠ -1 ∧
      ((priv.bio = true ∨ socketNonblock calls.getfl calls.setfl ≠ -1) →
        calls.bind = true → calls.listen = true → Registers w.pool calls.room calls.refused)

/-! ## §3. The addresses. -/

theorem afInetClientGetRemoteSockaddr_ret (options : Options) (family : SaFamily)
    (resolve : String → Nat → SaFamily → Option SaFamily) :
    (afInetClientGetRemoteSockaddr options family resolve).1 = 0 ∨
      (afInetClientGetRemoteSockaddr options family resolve).1 = -1 := by
  unfold afInetClientGetRemoteSockaddr
  split
  · exact Or.inr rfl
  · dsimp only
    split
    · exact Or.inr rfl
    · split
      · exact Or.inr rfl
      · exact Or.inl rfl

theorem afInetServerGetLocalSockaddr_ret (options : Options) (family : SaFamily)
    (lookup : Option String → SaFamily → Option SaFamily) :
    (afInetServerGetLocalSockaddr options family lookup).1 = 0 ∨
      (afInetServerGetLocalSockaddr options family lookup).1 = -1 := by
  unfold afInetServerGetLocalSockaddr
  dsimp only
  split
  · exact Or.inl rfl
  · split
    · exact Or.inr rfl
    · exact Or.inl rfl

/-- An address lookup that does not fail returns 0. -/
theorem socketClientGetRemoteSockaddr_ret {options : Options}
    {resolve : String → Nat → SaFamily → Option SaFamily}
    (h : (socketClientGetRemoteSockaddr options resolve).1 ≠ -1) :
    (socketClientGetRemoteSockaddr options resolve).1 = 0 := by
  refine Or.resolve_right ?_ h
  unfold socketClientGetRemoteSockaddr
  split
  · exact Or.inr rfl
  · unfold afUnixClientGetRemoteSockaddr
    split
    · exact Or.inr rfl
    · split
      · exact Or.inr rfl
      · exact Or.inl rfl
  · exact afInetClientGetRemoteSockaddr_ret _ _ _
  · exact afInetClientGetRemoteSockaddr_ret _ _ _

theorem socketServerGetLocalSockaddr_ret {options : Options}
    {lookup : Option String → SaFamily → Option SaFamily}
    (h : (socketServerGetLocalSockaddr options lookup).1 ≠ -1) :
    (socketServerGetLocalSockaddr options lookup).1 = 0 := by
  refine Or.resolve_right ?_ h
  unfold socketServerGetLocalSockaddr
  split
  · exact Or.inr rfl
  · unfold afUnixServerGetLocalSockaddr
    split
    · exact Or.inr rfl
    · split
      · exact Or.inr rfl
      · exact Or.inl rfl
  · exact afInetServerGetLocalSockaddr_ret _ _ _
  · exact afInetServerGetLocalSockaddr_ret _ _ _

/-! ## §4. Outcomes. -/

section Outcomes

variable {w : Endpoint}

/-- A call that changes nothing. -/
theorem Restored.refl (hsock : w.sock = some (-1)) : Restored w w := ⟨hsock, rfl, fun _ => rfl, rfl, rfl⟩

theorem leavesNoTrace_failed {w' : Endpoint} (h : Restored w w') : LeavesNoTrace w (w', -1) := by
  constructor
  · intro _
    exact h
  · intro hzero
    exact absurd hzero (show ¬ (-1 : Int) = 0 by decide)

theorem leavesNoTrace_done {w' : Endpoint} (h : Opened w w') : LeavesNoTrace w (w', 0) := by
  constructor
  · intro hminus
    exact absurd hminus (show ¬ (0 : Int) = -1 by decide)
  · intro _
    exact h

/-- **Closing the new socket** undoes its opening. -/
theorem closeSocket_openSocket (priv : SocketPrivate) {fd : Int} (hnew : assocGet w.pool.interest fd = none) :
    Restored w ((w.openSocket priv fd).closeSocket { priv with sock := fd }) := by
  constructor
  · rfl
  · rfl
  · intro fd'
    show assocGet (assocDel w.pool.interest fd) fd' = _
    rw [assocGet_del]
    by_cases heq : fd' = fd
    · rw [if_pos heq, heq, hnew]
    · rw [if_neg heq]
  · show (fd :: w.fds).erase fd = w.fds
    exact List.erase_cons_head fd w.fds
  · rfl

/-- A reference that was taken is a trace. -/
theorem not_leavesNoTrace_of_ref {w' : Endpoint} (h : w'.this.refcount = w.this.refcount + 1) :
    ¬ LeavesNoTrace w (w', -1) := by
  intro hclean
  have hrefs : w'.this.refcount = w.this.refcount := (hclean.1 rfl).refs
  omega

/-- A socket that could not be opened is not open. -/
theorem not_leavesNoTrace_of_closed (hsock : w.sock = some (-1)) : ¬ LeavesNoTrace w (w, 0) := by
  intro hclean
  obtain ⟨fd, hfd, hne, -⟩ := (hclean.2 rfl).sock
  rw [hsock, Option.some.injEq] at hfd
  exact hne hfd.symm

end Outcomes

/-! ## §5. The two functions. -/

section Functions

variable {w : Endpoint} {priv : SocketPrivate}

theorem nonblock_cases (priv : SocketPrivate) (getfl : Int) (setfl : Bool) :
    ¬ (priv.bio = false ∧ socketNonblock getfl setfl = -1) ↔
      (priv.bio = true ∨ socketNonblock getfl setfl ≠ -1) := by
  rw [Decidable.not_and_iff_or_not, Bool.not_eq_false]

/-- **The registration of `socket_connect`**: it leaves no trace only if
`connect` is done and the event pool takes the socket. -/
theorem connectRegister_trace (priv : SocketPrivate) {fd : Int} (hlive : w.pool.regNull = false) (hne : fd ≠ -1)
    (hnew : assocGet w.pool.interest fd = none) (ret : Int) (calls : ConnectCalls)
    (hret : ret = 0 ∨ ret = -1) :
    ∃ r, connectRegister (w.openSocket priv fd) { priv with sock := fd } ret calls = some r ∧
      (LeavesNoTrace w r ↔ ret = 0 ∧ Registers w.pool calls.room calls.refused) := by
  obtain ⟨e, he, hcases⟩ := eventRegister_fresh hlive hnew calls.handler calls.data 1 1 calls.room
    calls.refused
  unfold connectRegister
  show ∃ r, (eventRegister w.pool fd calls.handler calls.data 1 1 calls.room calls.refused).map _
    = some r ∧ _
  rw [he, Option.map_some]
  refine ⟨_, rfl, ?_⟩
  have hzero : ¬ (0 : Int) = -1 := by decide
  rcases hcases with ⟨hreg, hdone, hslot⟩ | ⟨hreg, hfail⟩
  · simp only [hdone, if_neg hzero]
    rcases hret with rfl | rfl
    · exact iff_of_true (leavesNoTrace_done ⟨⟨fd, rfl, hne, rfl, hslot⟩, rfl⟩) ⟨rfl, hreg⟩
    · refine iff_of_false (not_leavesNoTrace_of_ref rfl) ?_
      intro hc
      exact hzero hc.1.symm
  · simp only [hfail, if_pos]
    exact iff_of_false (not_leavesNoTrace_of_ref rfl) fun hc => hreg hc.2

/-- **`socket_connect`**. -/
theorem socketConnect_trace (hlive : w.pool.regNull = false) (hpriv : w.this.priv = some priv)
    (hclosed : priv.sock = -1) (calls : ConnectCalls) (hsocket : NewSocket w calls.socket) :
    ∃ r, socketConnect w calls = some r ∧ (LeavesNoTrace w r ↔ ConnectClean w priv calls) := by
  have hsock : w.sock = some (-1) := by rw [Endpoint.sock, hpriv, ← hclosed]; rfl
  have hopen : ¬ priv.sock ≠ -1 := not_not_intro hclosed
  unfold socketConnect ConnectClean
  simp only [hpriv, if_neg hopen]
  by_cases hfound : (socketClientGetRemoteSockaddr calls.options calls.resolve).1 = -1
  · -- no address
    rw [if_pos hfound]
    exact ⟨_, rfl, iff_of_true (leavesNoTrace_failed (Restored.refl hsock)) fun hne => absurd hfound hne⟩
  rw [if_neg hfound]
  by_cases hfd : calls.socket = -1
  · -- no socket, and 0 is returned
    rw [if_pos hfd, socketClientGetRemoteSockaddr_ret hfound]
    refine ⟨_, rfl, iff_of_false (not_leavesNoTrace_of_closed hsock) ?_⟩
    intro hclean
    exact (hclean (by decide)).1 hfd
  rw [if_neg hfd]
  have hnew : assocGet w.pool.interest calls.socket = none := (hsocket.resolve_left hfd).2.2
  have hundone := leavesNoTrace_failed (closeSocket_openSocket priv hnew)
  unfold connectSocket
  dsimp only
  by_cases hblock : priv.bio = false ∧ socketNonblock calls.getfl calls.setfl = -1
  · rw [if_pos hblock]
    refine ⟨_, rfl, iff_of_true hundone fun _ => ⟨hfd, ?_⟩⟩
    intro hready
    exact absurd hblock ((nonblock_cases _ _ _).mpr hready)
  rw [if_neg hblock]
  have hready := (nonblock_cases _ _ _).mp hblock
  by_cases hbind : clientBind calls.options (socketClientGetRemoteSockaddr calls.options calls.resolve).2
      calls.bindPort calls.bindPath = -1
  · rw [if_pos hbind]
    exact ⟨_, rfl, iff_of_true hundone fun _ => ⟨hfd, fun _ hno => absurd hbind hno⟩⟩
  rw [if_neg hbind]
  cases hconnect : calls.connect with
  | failed => exact ⟨_, rfl, iff_of_true hundone fun _ => ⟨hfd, fun _ _ hno => absurd rfl hno⟩⟩
  | inProgress =>
      -- registered all the same, and -1 is returned
      obtain ⟨r, hr, hiff⟩ := connectRegister_trace priv hlive hfd hnew (-1) calls (Or.inr rfl)
      refine ⟨r, hr, hiff.trans (iff_of_false ?_ ?_)⟩
      · intro hc
        exact absurd hc.1 (by decide)
      · intro hclean
        have hdone := ((hclean hfound).2 hready hbind ConnectAnswer.noConfusion).1
        cases hdone
  | done =>
      obtain ⟨r, hr, hiff⟩ := connectRegister_trace priv hlive hfd hnew 0 calls (Or.inl rfl)
      refine ⟨r, hr, hiff.trans ?_⟩
      constructor
      · intro hc _
        exact ⟨hfd, fun _ _ _ => ⟨rfl, hc.2⟩⟩
      · intro hclean
        exact ⟨rfl, ((hclean hfound).2 hready hbind ConnectAnswer.noConfusion).2⟩

theorem sysRet_eq (done : Bool) : sysRet done = -1 ↔ done = false := by
  cases done <;> decide

/-- **The registration of `socket_listen`**: the reference stays. -/
theorem listenRegister_trace (priv : SocketPrivate) {fd : Int} (hlive : w.pool.regNull = false) (hne : fd ≠ -1)
    (hnew : assocGet w.pool.interest fd = none) (calls : ListenCalls) :
    ∃ r, listenRegister (w.openSocket priv fd) { priv with sock := fd } 0 calls = some r ∧
      (LeavesNoTrace w r ↔ Registers w.pool calls.room calls.refused) := by
  obtain ⟨e, he, hcases⟩ := eventRegister_fresh hlive hnew calls.handler calls.data 1 0 calls.room
    calls.refused
  unfold listenRegister
  show ∃ r, (eventRegister w.pool fd calls.handler calls.data 1 0 calls.room calls.refused).map _
    = some r ∧ _
  rw [he, Option.map_some]
  refine ⟨_, rfl, ?_⟩
  have hzero : ¬ (0 : Int) = -1 := by decide
  rcases hcases with ⟨hreg, hdone, hslot⟩ | ⟨hreg, hfail⟩
  · simp only [hdone, if_neg hzero]
    exact iff_of_true (leavesNoTrace_done ⟨⟨fd, rfl, hne, rfl, hslot⟩, rfl⟩) hreg
  · simp only [hfail, if_pos]
    exact iff_of_false (not_leavesNoTrace_of_ref rfl) hreg

/-- **`socket_listen`**. -/
theorem socketListen_trace (hlive : w.pool.regNull = false) (hpriv : w.this.priv = some priv)
    (hclosed : priv.sock = -1) (calls : ListenCalls) (hsocket : NewSocket w calls.socket) :
    ∃ r, socketListen w calls = some r ∧ (LeavesNoTrace w r ↔ ListenClean w priv calls) := by
  have hsock : w.sock = some (-1) := by rw [Endpoint.sock, hpriv, ← hclosed]; rfl
  have hopen : ¬ priv.sock ≠ -1 := not_not_intro hclosed
  unfold socketListen ListenClean
  simp only [hpriv, if_neg hopen]
  by_cases hfound : (socketServerGetLocalSockaddr calls.options calls.lookup).1 = -1
  · rw [if_pos hfound, hfound]
    exact ⟨_, rfl, iff_of_true (leavesNoTrace_failed (Restored.refl hsock)) fun hne => absurd rfl hne⟩
  rw [if_neg hfound]
  by_cases hfd : calls.socket = -1
  · rw [if_pos hfd, socketServerGetLocalSockaddr_ret hfound]
    refine ⟨_, rfl, iff_of_false (not_leavesNoTrace_of_closed hsock) ?_⟩
    intro hclean
    exact (hclean (by decide)).1 hfd
  rw [if_neg hfd]
  -- from here on the socket is open, and closing it undoes all
  have hnew : assocGet w.pool.interest calls.socket = none := (hsocket.resolve_left hfd).2.2
  have hundone := leavesNoTrace_failed (closeSocket_openSocket priv hnew)
  unfold listenSocket
  dsimp only
  by_cases hblock : priv.bio = false ∧ socketNonblock calls.getfl calls.setfl = -1
  · rw [if_pos hblock]
    refine ⟨_, rfl, iff_of_true hundone fun _ => ⟨hfd, ?_⟩⟩
    intro hready
    exact absurd hblock ((nonblock_cases _ _ _).mpr hready)
  rw [if_neg hblock]
  have hready := (nonblock_cases _ _ _).mp hblock
  cases hbind : calls.bind with
  | false =>
      rw [if_pos ((sysRet_eq false).mpr rfl)]
      exact ⟨_, rfl, iff_of_true hundone fun _ => ⟨hfd, fun _ hno => absurd hno (by decide)⟩⟩
  | true =>
      rw [if_neg fun hc => absurd ((sysRet_eq true).mp hc) (by decide)]
      cases hlisten : calls.listen with
      | false =>
          rw [if_pos ((sysRet_eq false).mpr rfl)]
          exact ⟨_, rfl, iff_of_true hundone fun _ => ⟨hfd, fun _ _ hno => absurd hno (by decide)⟩⟩
      | true =>
          rw [if_neg fun hc => absurd ((sysRet_eq true).mp hc) (by decide)]
          obtain ⟨r, hr, hiff⟩ := listenRegister_trace priv hlive hfd hnew calls
          refine ⟨r, hr, hiff.trans ?_⟩
          constructor
          · intro hreg _
            exact ⟨hfd, fun _ _ _ => hreg⟩
          · intro hclean
            exact (hclean hfound).2 hready rfl rfl

end Functions

/-- **CONNECT AND LISTEN, EXACTLY.**  On a transport without a socket both
functions return, whatever each call answers, and leave no trace of a failure
(and what they should of a success) if and only if the way through meets no
failing `socket`, no connection in progress and no failing registration. -/
theorem no_trace_iff (w : Endpoint) (priv : SocketPrivate) (hlive : w.pool.regNull = false)
    (hpriv : w.this.priv = some priv) (hclosed : priv.sock = -1) :
    (∀ calls : ConnectCalls, NewSocket w calls.socket →
      ∃ r, socketConnect w calls = some r ∧ (LeavesNoTrace w r ↔ ConnectClean w priv calls)) ∧
    (∀ calls : ListenCalls, NewSocket w calls.socket →
      ∃ r, socketListen w calls = some r ∧ (LeavesNoTrace w r ↔ ListenClean w priv calls)) :=
  ⟨socketConnect_trace hlive hpriv hclosed, socketListen_trace hlive hpriv hclosed⟩

/-- A transport that is initialised and not connected. -/
def idlePrivate : SocketPrivate := ⟨-1, -1, notConnected, false, true, false, 524288⟩

def idleEndpoint : Endpoint := ⟨⟨some idlePrivate, 0, some 1, none⟩, eventPoolNew 16, []⟩

/-- A connect to a host whose name resolves; every call but `connect` succeeds. -/
def connectFive (socket : Int) (connect : ConnectAnswer) : ConnectCalls where
  options := [("remote-host", "peer")]
  resolve _ _ _ := some .inet
  socket := socket
  getfl := 2
  setfl := true
  bindPort _ := .done
  bindPath _ := true
  connect := connect
  handler := 1
  data := 2
  room := true
  refused := false

/-- A listener on any address; `event_register` fails. -/
def listenFive : ListenCalls where
  options := []
  lookup _ _ := some .inet
  socket := 5
  getfl := 2
  setfl := true
  bind := true
  listen := true
  handler := 1
  data := 2
  room := true
  refused := true

theorem no_trace_iff_idle : ∃ r, socketConnect idleEndpoint (connectFive 5 .done) = some r ∧
    (LeavesNoTrace idleEndpoint r ↔ ConnectClean idleEndpoint idlePrivate (connectFive 5 .done)) :=
  (no_trace_iff idleEndpoint idlePrivate rfl rfl rfl).1 (connectFive 5 .done)
    (Or.inr ⟨by decide, by decide, rfl⟩)

/-- A connection in progress returns -1 with socket 5 open, registered and
referenced; a `socket` that fails returns 0 without one; a listener that could
not be registered returns -1 and keeps the reference. -/
theorem failures_leave_traces :
    (∃ w, socketConnect idleEndpoint (connectFive 5 .inProgress) = some (w, -1) ∧ w.sock = some 5 ∧
      w.fds = [5] ∧ w.this.refcount = 1 ∧ ¬ LeavesNoTrace idleEndpoint (w, -1)) ∧
    (socketConnect idleEndpoint (connectFive (-1) .done) = some (idleEndpoint, 0) ∧
      ¬ LeavesNoTrace idleEndpoint (idleEndpoint, 0)) ∧
    ∃ w, socketListen idleEndpoint listenFive = some (w, -1) ∧ w.sock = some (-1) ∧
      w.this.refcount = 1 ∧ ¬ LeavesNoTrace idleEndpoint (w, -1) := by
  refine ⟨⟨_, rfl, rfl, rfl, rfl, ?_⟩, ⟨rfl, ?_⟩, ⟨_, rfl, rfl, rfl, ?_⟩⟩
  · exact not_leavesNoTrace_of_ref rfl
  · exact not_leavesNoTrace_of_closed rfl
  · exact not_leavesNoTrace_of_ref rfl

end LzLib.Socket
