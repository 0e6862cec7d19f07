/-
  LzLib.Socket.Creation
  ─────────────────────
  **WHICH TRANSPORTS ARE INITIALISED BEFORE THEY ARE USED.**

  A transport whose two fields are set keeps them, and every dereference in
  `socket_init` and in all later uses finds them (`set_finds`).  But
  neither way of creating one sets them: `socket_init` is run on a structure
  that `CALLOC` has just cleared, and its first look at the options goes
  through `NULL`.  So a creation that gets there ends the program
  (`life_eq`), and `transports_initialised` says that these are exactly the
  ones at which an uninitialised field is dereferenced.
-/
import LzLib.Socket.CreationDef

namespace LzLib.Socket

open LzLib.Foundation
open LzLib.Event

/-! ## §1. A transport with its fields set. -/

section Found

variable {this : TransportT} {found : Field → Option Addr}

/-- Every dereference finds the pointer it should find. -/
def Found (found : Field → Option Addr) (d : Deref) : Prop := d.found = found d.field

/-- Both fields are set. -/
structure TransportT.Set (this : TransportT) (found : Field → Option Addr) : Prop where
  globalsCtx : this.globalsCtx = found .globalsCtx
  iobufPool : this.iobufPool = found .iobufPool

/-- A computation in which every dereference finds its pointer. -/
abbrev Finds (found : Field → Option Addr) {α : Type} (Q : α → Prop) (x : Traced Deref α) : Prop :=
  x.Spec (Found found) Q

theorem ctx_finds (h : this.Set found) : Finds found (fun _ => True) this.ctx :=
  Traced.spec_event h.globalsCtx fun _ _ => trivial

theorem pool_finds (h : this.Set found) : Finds found (fun _ => True) this.pool :=
  Traced.spec_event h.iobufPool fun _ _ => trivial

theorem ctxIf_finds (h : this.Set found) (cond : Bool) : Finds found (fun _ => True) (this.ctxIf cond) := by
  unfold TransportT.ctxIf
  split
  · exact Traced.spec_bind (ctx_finds h) fun _ _ => Traced.spec_pure trivial
  · exact Traced.spec_pure trivial

theorem poolIf_finds (h : this.Set found) (cond : Bool) : Finds found (fun _ => True) (this.poolIf cond) := by
  unfold TransportT.poolIf
  split
  · exact Traced.spec_bind (pool_finds h) fun _ _ => Traced.spec_pure trivial
  · exact Traced.spec_pure trivial

theorem option_finds (h : this.Set found) (env : InitEnv) (key : String) :
    Finds found (fun _ => True) (this.option env key) :=
  Traced.spec_bind (ctx_finds h) fun _ _ => Traced.spec_pure trivial

theorem boolOption_finds (h : this.Set found) (env : InitEnv) (key : String) :
    Finds found (fun _ => True) (this.boolOption env key) := by
  apply Traced.spec_bind (option_finds h env key)
  intro present _
  split
  · exact Traced.spec_bind (option_finds h env key) fun _ _ => Traced.spec_pure trivial
  · exact Traced.spec_pure trivial

/-- **`socket_init`** on such a transport, whose fields it keeps. -/
theorem socketInit_finds (h : this.Set found) (env : InitEnv) :
    Finds found (fun r => r.1.Set found) (socketInit this env) := by
  have hfinish : ∀ nonblocking nodelay windowsize, Finds found (fun r => r.1.Set found)
      (socketInit.finish this env nonblocking nodelay windowsize) := by
    intro nonblocking nodelay windowsize
    apply Traced.spec_bind (option_finds h env _)
    intro lowlat _
    exact Traced.spec_pure ⟨h.globalsCtx, h.iobufPool⟩
  unfold socketInit
  split
  · exact Traced.spec_pure h
  split
  · exact Traced.spec_pure h
  apply Traced.spec_bind (boolOption_finds h env _)
  intro nonblocking _
  apply Traced.spec_bind (boolOption_finds h env _)
  intro nodelay _
  apply Traced.spec_bind (option_finds h env _)
  intro windowsize _
  split
  · split
    · exact Traced.spec_pure h
    · exact hfinish _ _ _
  · exact hfinish _ _ _

theorem useConnect_finds (h : this.Set found) (bio : Bool) (t : Transport) (env : ConnectEnv) :
    Finds found (fun _ => True) (useConnect this bio t env) := by
  unfold useConnect
  split
  · exact Traced.spec_pure trivial
  apply Traced.spec_bind (ctx_finds h)
  intro _ _
  split
  · exact Traced.spec_pure trivial
  apply Traced.spec_bind (ctx_finds h)
  intro _ _
  split
  · exact Traced.spec_pure trivial
  apply Traced.spec_bind (ctxIf_finds h env.unix)
  intro _ _
  split
  · exact Traced.spec_pure trivial
  apply Traced.spec_bind (ctx_finds h)
  intro _ _
  exact Traced.spec_bind (Traced.spec_ofOption fun _ _ => trivial) fun _ _ => Traced.spec_pure trivial

/-- Any use. -/
theorem useTransport_finds (h : this.Set found) (bio : Bool) (t : Transport) (use : Use) :
    Finds found (fun _ => True) (useTransport this bio t use) := by
  have hrest : ∀ o : Option Transport, Finds found (fun _ => True) (.ofOption o) :=
    fun o => Traced.spec_ofOption fun _ _ => trivial
  cases use with
  | connect env => exact useConnect_finds h bio t env
  | submit m script room refused => exact Traced.spec_bind (ctxIf_finds h _) fun _ _ => hrest _
  | pollOut scripts refused => exact Traced.spec_bind (ctxIf_finds h _) fun _ _ => hrest _
  | pollIn env => exact Traced.spec_bind (poolIf_finds h _) fun _ _ => hrest _
  | pollErr refused refusedMod => exact Traced.spec_bind (ctx_finds h) fun _ _ => hrest _

theorem useAll_finds (h : this.Set found) (bio : Bool) (t : Transport) (uses : List Use) :
    Finds found (fun _ => True) (useAll this bio t uses) := by
  induction uses generalizing t with
  | nil => exact Traced.spec_pure trivial
  | cons use uses ih => exact Traced.spec_bind (useTransport_finds h bio t use) fun t' _ => ih t'

/-- **With both fields set before `socket_init`** they are found there and in
every later use. -/
theorem set_finds (h : this.Set found) (env : InitEnv) (bio : Bool) (t : Transport) (uses : List Use) :
    Finds found (fun _ => True) (socketInit this env >>= fun r => useAll r.1 bio t uses) :=
  Traced.spec_bind (socketInit_finds h env) fun _ hr => useAll_finds hr bio t uses

end Found

/-! ## §2. The two creation paths. -/

/-- `socket_init` on a cleared structure: with its `CALLOC` it comes to the
options, and the program ends there. -/
theorem socketInit_zero (env : InitEnv) :
    socketInit .zero env
      = if env.calloc then .event ⟨.globalsCtx, none⟩ none else pure (.zero, -1) := by
  unfold socketInit
  rw [if_neg (show ¬ TransportT.zero.priv.isSome = true by decide)]
  cases env.calloc <;> rfl

/-- Loading never returns a transport. -/
theorem made_load (options : Option Options) (ctx : Option Addr) (env : LoadEnv) :
    (Creation.load options ctx env).made
      = if (Creation.load options ctx env).readsOptions then .event ⟨.globalsCtx, none⟩ none else pure none := by
  obtain ⟨calloc, setType, setFamily, ctxs, callocPriv, boolean, bytesize⟩ := env
  cases options with
  | none => rfl
  | some options =>
      cases calloc with
      | false => rfl
      | true =>
          unfold Creation.made Creation.readsOptions transportLoad
          dsimp only
          rw [socketInit_zero]
          cases callocPriv <;> rfl

/-- Accepting neither: without the memory for its `private` the lock of the
new transport is taken through `NULL`. -/
theorem made_accept (l : Listener) (env : AcceptEnv) :
    if (Creation.accept l env).readsOptions then (Creation.accept l env).made = .event ⟨.globalsCtx, none⟩ none
    else (Creation.accept l env).made = pure none ∨ (Creation.accept l env).made = .ofOption none := by
  obtain ⟨this, ⟨sock, idx, connected, bio, nodelay, lowlat, windowsize⟩, ctx, hpriv, hctx⟩ := l
  obtain ⟨pollIn, newSock, nonblock, getsockname, calloc, ⟨ctxs, callocPriv, boolean, bytesize⟩, idx'⟩ := env
  unfold Creation.made Creation.readsOptions acceptConnection
  dsimp only
  rw [socketInit_zero]
  by_cases hsock : newSock = -1
  · subst hsock
    cases pollIn <;> exact Or.inl rfl
  · have hbne : (newSock != -1) = true := bne_iff_ne.mpr hsock
    simp only [hbne, if_neg hsock]
    -- one way for each place where the handler gives up
    cases pollIn with
    | false => exact Or.inl rfl
    | true =>
        cases bio <;> cases nonblock <;> cases calloc <;> cases getsockname <;> cases callocPriv <;>
          first | exact rfl | exact Or.inl rfl | exact Or.inr rfl

/-- Both ways of creating a transport. -/
theorem made_eq (c : Creation) :
    (c.readsOptions = true ∧ c.made = .event ⟨.globalsCtx, none⟩ none) ∨
      (c.readsOptions = false ∧ (c.made = pure none ∨ c.made = .ofOption none)) := by
  cases c with
  | load options ctx env =>
      have hmade := made_load options ctx env
      cases hreads : (Creation.load options ctx env).readsOptions with
      | true =>
          rw [hreads] at hmade
          exact Or.inl ⟨rfl, hmade⟩
      | false =>
          rw [hreads] at hmade
          exact Or.inr ⟨rfl, Or.inl hmade⟩
  | accept l env =>
      have hmade := made_accept l env
      cases hreads : (Creation.accept l env).readsOptions with
      | true =>
          rw [hreads] at hmade
          exact Or.inl ⟨rfl, hmade⟩
      | false =>
          rw [hreads] at hmade
          exact Or.inr ⟨rfl, hmade⟩

/-! ## §3. Lives. -/

/-- **What a life dereferences**: nothing, or `globals_ctx` once, where the
program ends.  There is never a transport to be used. -/
theorem life_eq (c : Creation) (pool : EventPool) (stream : Bytes) (uses : List Use) :
    (c.life pool stream uses).trace = (if c.readsOptions then [⟨.globalsCtx, none⟩] else []) ∧
      ∀ t, (c.life pool stream uses).result ≠ some (some t) := by
  unfold Creation.life
  rcases made_eq c with ⟨hreads, hmade⟩ | ⟨hreads, hmade | hmade⟩
  · rw [hreads, hmade]
    exact ⟨rfl, fun _ h => by cases h⟩
  · rw [hreads, hmade]
    exact ⟨rfl, fun _ h => by cases h⟩
  · rw [hreads, hmade]
    exact ⟨rfl, fun _ h => by cases h⟩

/-- **Transports are initialised before use, and exactly when**: every
dereference of a life finds the context that the transport is made for, or
its iobuf pool, if and only if the creation does not get to the options of
`socket_init` (or was itself given no context). -/
theorem transports_initialised (c : Creation) (pool : EventPool) (stream : Bytes) (uses : List Use) :
    (∀ d ∈ (c.life pool stream uses).trace, Found c.wanted d) ↔ c.readsOptions = false ∨ c.ctx = none := by
  rw [(life_eq c pool stream uses).1]
  cases hreads : c.readsOptions with
  | false =>
      constructor
      · intro _
        exact Or.inl rfl
      · intro _ d hd
        cases hd
  | true =>
      constructor
      · intro h
        have hfound : none = c.ctx := h ⟨.globalsCtx, none⟩ (List.mem_singleton_self _)
        exact Or.inr hfound.symm
      · intro h d hd
        have hctx : c.ctx = none := h.resolve_left (by intro e; cases e)
        rw [List.mem_singleton.mp hd]
        exact hctx.symm

/-- A context with an iobuf pool, and memory for everything. -/
def plainInit : InitEnv where
  ctxs _ := ⟨[], some 2⟩
  calloc := true
  string2boolean _ := some true
  string2bytesize _ := none

/-- `transport_load` with the option of a TCP transport, for the context 1. -/
def plainLoad : Creation :=
  .load (some [("transport-type", "tcp")]) (some 1) ⟨true, true, true, plainInit⟩

/-- A connection accepted on a transport that is set up for the context 1. -/
def plainAccept : Creation :=
  .accept ⟨⟨some ⟨3, 0, notConnected, false, true, false, 524288⟩, 1, some 1, some 2⟩,
    ⟨3, 0, notConnected, false, true, false, 524288⟩, 1, rfl, rfl⟩
    ⟨true, 5, true, true, true, plainInit, 1⟩

/-- Both look for their options through `NULL`. -/
theorem created_uninitialised :
    (plainLoad.life (eventPoolNew 16) [] []).trace = [⟨.globalsCtx, none⟩] ∧
      plainLoad.wanted .globalsCtx = some 1 ∧
      (plainAccept.life (eventPoolNew 16) [] []).trace = [⟨.globalsCtx, none⟩] ∧
      plainAccept.wanted .globalsCtx = some 1 ∧
      ¬ (∀ d ∈ (plainLoad.life (eventPoolNew 16) [] []).trace, Found plainLoad.wanted d) ∧
      ¬ (∀ d ∈ (plainAccept.life (eventPoolNew 16) [] []).trace, Found plainAccept.wanted d) := by
  have hload : (plainLoad.life (eventPoolNew 16) [] []).trace = [⟨.globalsCtx, none⟩] := by rfl
  have haccept : (plainAccept.life (eventPoolNew 16) [] []).trace = [⟨.globalsCtx, none⟩] := by rfl
  refine ⟨hload, rfl, haccept, rfl, ?_, ?_⟩
  · intro h
    have hfound : none = some 1 := h ⟨.globalsCtx, none⟩ (by rw [hload]; exact List.mem_singleton_self _)
    cases hfound
  · intro h
    have hfound : none = some 1 := h ⟨.globalsCtx, none⟩ (by rw [haccept]; exact List.mem_singleton_self _)
    cases hfound

end LzLib.Socket
