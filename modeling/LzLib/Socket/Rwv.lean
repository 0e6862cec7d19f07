/-
  LzLib.Socket.Rwv
  ────────────────
  **WHAT `__socket_rwv` LEAVES.**

  Moving on by `n` bytes is `skip n` on the vector and its length on the
  count (`moveOn_eq`), so one rule carries every use of the loop: a relation
  between the connection's state and the pieces left that one system call
  keeps is kept by the whole call, and the count returned is the number of
  pieces left unless a call ended in an error (`socketRwv_inv`).
-/
import LzLib.Socket.RwvDef

namespace LzLib.Socket

open LzLib.Foundation

/-! ## §1. Moving on in the vector. -/

section Loop

variable {β : Type}

theorem dropEmpty_eq (v : List (IoVec β)) :
    dropEmpty v v.length = some (skip 0 v, ((skip 0 v).length : Int)) := by
  induction v with
  | nil => rfl
  | cons iov rest ih =>
      have hcount : ((iov :: rest).length : Int) ≠ 0 := by
        rw [List.length_cons]
        omega
      by_cases h : iov.iovLen = 0
      · have hrest : ((iov :: rest).length : Int) - 1 = rest.length := by
          rw [List.length_cons]
          omega
        rw [dropEmpty, if_pos ⟨hcount, h⟩, hrest, ih, skip, if_pos (by omega), h]
      · rw [dropEmpty, if_neg fun hc => h hc.2, skip, if_neg (by omega)]
        rfl

/-- **Moving on by `ret` bytes is skipping them.** -/
theorem moveOn_eq {fuel ret moved : Nat} {v : List (IoVec β)} (hfuel : v.length < fuel)
    (hlt : moved < ret) (hle : ret - moved ≤ total v) :
    moveOn fuel ret moved v v.length
      = some (skip (ret - moved) v, ((skip (ret - moved) v).length : Int)) := by
  induction fuel generalizing moved v with
  | zero => omega
  | succ fuel ih =>
      -- a round with nothing left to move only looks at the counter
      have hdone : ∀ (w : List (IoVec β)) (c : Int) (k : Nat), ret ≤ k → 0 < fuel →
          moveOn fuel ret k w c = some (w, c) := by
        intro w c k hk hpos
        obtain ⟨f, rfl⟩ : ∃ f, fuel = f + 1 := ⟨fuel - 1, by omega⟩
        cases w with
        | nil => rw [moveOn, if_neg (by omega)]
        | cons iov rest => rw [moveOn, if_neg (by omega)]
      cases v with
      | nil =>
          rw [total_nil] at hle
          omega
      | cons iov rest =>
          rw [List.length_cons] at hfuel
          rw [total_cons] at hle
          rw [moveOn, if_pos hlt, skip]
          by_cases h : iov.iovLen ≤ ret - moved
          · have hrest : ((iov :: rest).length : Int) - 1 = rest.length := by
              rw [List.length_cons]
              omega
            have hlen := length_skip_le 0 rest
            simp only [if_pos h]
            rw [hrest, dropEmpty_eq, Option.bind_some]
            by_cases hmore : moved + iov.iovLen < ret
            · show moveOn fuel ret _ (skip 0 rest) _ = _
              rw [ih (by omega) hmore (by rw [total_skip]; omega), skip_skip,
                show 0 + (ret - (moved + iov.iovLen)) = ret - moved - iov.iovLen by omega]
            · rw [hdone _ _ _ (by omega) (by omega),
                show ret - moved - iov.iovLen = 0 by omega]
          · have htrim : Trim (iov.advance (ret - moved) :: rest) := by
              show 0 < iov.iovLen - (ret - moved)
              omega
            have hcount : ((iov :: rest).length : Int)
                = (iov.advance (ret - moved) :: rest).length := rfl
            simp only [if_neg h]
            rw [hcount, dropEmpty_eq, skip_zero htrim, Option.bind_some, hdone _ _ _ (by omega)
              (by omega)]

end Loop

/-! ## §2. The rule for a whole call. -/

section Rule

variable {β ε σ : Type}

/-- One system call keeps `Inv`; it ends the transfer for good only at an
event that is `Bad`. -/
def SysKeeps (write : Bool) (Inv : σ → List (IoVec β) → Prop) (Bad : Prop)
    (v : List (IoVec β)) (r : SysRet × σ) : Prop :=
  match r.1 with
  | .moved n => n ≤ total v ∧
      if n = 0 then Inv r.2 v ∧ (write = false → Bad) else Inv r.2 (skip n v)
  | .error => Inv r.2 v ∧ Bad
  | _ => Inv r.2 v

/-- **The rule of `__socket_rwv`.** -/
theorem socketRwv_inv {write : Bool} {sys : ε → σ → List (IoVec β) → Option (SysRet × σ)}
    {Inv : σ → List (IoVec β) → Prop} {Bad : ε → Prop}
    (hsys : ∀ ev s v, v ≠ [] → Inv s v → ∃ r, sys ev s v = some r ∧ SysKeeps write Inv (Bad ev) v r)
    (evs : List ε) (s : σ) (v : List (IoVec β)) (h : Inv s v) :
    ∃ out, socketRwv write sys evs s v v.length = some out ∧ Inv out.state out.pendingVector ∧
      (out.pendingCount = out.pendingVector.length ∨
        out.pendingCount = -1 ∧ out.pendingVector ≠ [] ∧ ∃ ev ∈ evs, Bad ev) := by
  induction evs generalizing s v with
  | nil =>
      have hneg : ¬ ((v.length : Int) < 0) := by omega
      exact ⟨_, by rw [socketRwv, if_neg hneg], h, Or.inl rfl⟩
  | cons ev evs ih =>
      have hneg : ¬ ((v.length : Int) < 0) := by omega
      by_cases hv : v = []
      · subst hv
        exact ⟨_, rfl, h, Or.inl rfl⟩
      · have hcount : ((v.length : Int) ≠ 0) := by
          have := List.length_pos_iff.mpr hv
          omega
        obtain ⟨⟨ret, s'⟩, hcall, hkeeps⟩ := hsys ev s v hv h
        rw [socketRwv, if_neg hcount, if_neg hneg, hcall, Option.bind_some]
        have hmem : ∀ {P : ε → Prop}, P ev → ∃ e ∈ ev :: evs, P e :=
          fun hp => ⟨ev, List.mem_cons_self, hp⟩
        cases ret with
        -- EAGAIN leaves the loop with what is pending
        | again => exact ⟨_, rfl, hkeeps, Or.inl rfl⟩
        | error => exact ⟨_, rfl, hkeeps.1, Or.inr ⟨rfl, hv, hmem hkeeps.2⟩⟩
        -- EINTR: the same call again
        | intr =>
            obtain ⟨out, hout, hinv, hret⟩ := ih s' v hkeeps
            refine ⟨out, hout, hinv, hret.imp_right fun hr => ⟨hr.1, hr.2.1, ?_⟩⟩
            obtain ⟨e, he, hb⟩ := hr.2.2
            exact ⟨e, List.mem_cons_of_mem _ he, hb⟩
        | moved n =>
            obtain ⟨hle, hmoved⟩ := hkeeps
            -- 0 bytes end a read for good, and a write for now
            by_cases hn : n = 0
            · rw [if_pos hn] at hmoved
              simp only [if_pos hn]
              refine ⟨_, rfl, hmoved.1, ?_⟩
              cases write with
              | true => exact Or.inl rfl
              | false => exact Or.inr ⟨rfl, hv, hmem (hmoved.2 rfl)⟩
            · rw [if_neg hn] at hmoved
              simp only [if_neg hn]
              rw [moveOn_eq (by omega) (by omega) hle, Option.bind_some]
              obtain ⟨out, hout, hinv, hret⟩ := ih s' (skip n v) hmoved
              refine ⟨out, hout, hinv, hret.imp_right fun hr => ⟨hr.1, hr.2.1, ?_⟩⟩
              obtain ⟨e, he, hb⟩ := hr.2.2
              exact ⟨e, List.mem_cons_of_mem _ he, hb⟩

/-- A negative count is refused and nothing changes. -/
theorem socketRwv_neg (write : Bool) (sys : ε → σ → List (IoVec β) → Option (SysRet × σ))
    (evs : List ε) (s : σ) (v : List (IoVec β)) {count : Int} (h : count < 0) :
    socketRwv write sys evs s v count = some ⟨s, v, -1⟩ := by
  cases evs with
  | nil => rw [socketRwv, if_pos h]
  | cons ev evs => rw [socketRwv, if_neg (by omega), if_pos h]

/-- What every single system call keeps, a call of `__socket_rwv` keeps,
whatever it is given. -/
theorem socketRwv_keeps {write : Bool} {sys : ε → σ → List (IoVec β) → Option (SysRet × σ)} {P : σ → Prop}
    (hsys : ∀ ev s v r, P s → sys ev s v = some r → P r.2) {evs : List ε} {s : σ} {v : List (IoVec β)}
    {count : Int} {out : Rwv σ β} (hs : P s) (h : socketRwv write sys evs s v count = some out) :
    P out.state := by
  induction evs generalizing s v count with
  | nil =>
      cases h
      exact hs
  | cons ev evs ih =>
      rw [socketRwv] at h
      split at h
      · cases h
        exact hs
      split at h
      · cases h
        exact hs
      obtain ⟨⟨ret, s'⟩, hcall, h⟩ := Option.bind_eq_some_iff.mp h
      have hs' : P s' := hsys ev s v _ hs hcall
      cases ret with
      | again =>
          cases h
          exact hs'
      | intr => exact ih hs' h
      | error =>
          cases h
          exact hs'
      | moved n =>
          simp only at h
          split at h
          · cases h
            exact hs'
          · obtain ⟨p, -, h⟩ := Option.bind_eq_some_iff.mp h
            exact ih hs' h

end Rule

/-! ## §3. Writing. -/

/-- Of `bytes`, offered after `start` had been accepted: the kernel has taken a
front, and `v` denotes the rest. -/
def Taken (start bytes sent rest : Bytes) : Prop :=
  ∃ k, sent = start ++ bytes.take k ∧ rest = bytes.drop k

theorem Taken.conserved {start bytes sent rest : Bytes} (h : Taken start bytes sent rest) :
    sent ++ rest = start ++ bytes := by
  obtain ⟨k, rfl, rfl⟩ := h
  rw [List.append_assoc, List.take_append_drop]

/-- A write under way. -/
def Writing (start bytes sent : Bytes) (v : List (IoVec Bytes)) : Prop :=
  Taken start bytes sent (gather v) ∧ Readable v ∧ Trim v

theorem writev_keeps (start bytes : Bytes) (ev : WriteEvent) (sent : Bytes) (v : List (IoVec Bytes))
    (h : Writing start bytes sent v) : ∃ r, writev ev sent v = some r ∧
      SysKeeps true (Writing start bytes) (ev = .fail) v r := by
  cases ev with
  | again => exact ⟨_, rfl, h⟩
  | intr => exact ⟨_, rfl, h⟩
  | fail => exact ⟨_, rfl, h, rfl⟩
  | take n =>
      refine ⟨_, rfl, by show min n (min (total v) maxRwCount) ≤ total v; omega, ?_⟩
      show if min n (min (total v) maxRwCount) = 0 then _ else _
      generalize min n (min (total v) maxRwCount) = m
      split
      next h0 =>
        refine ⟨?_, fun e => absurd e (by decide)⟩
        rw [h0, List.take_zero, List.append_nil]
        exact h
      next =>
        obtain ⟨⟨k, hsent, hrest⟩, hread, -⟩ := h
        refine ⟨⟨k + m, ?_, ?_⟩, readable_skip hread _, trim_skip _ _⟩
        · rw [hsent, hrest, List.take_add, List.append_assoc]
        · rw [gather_skip hread, hrest, List.drop_drop]

/-- **A write** lets the kernel take a front of what it was given, and leaves
the rest pending. -/
theorem socketWritev_takes {v : List (IoVec Bytes)} (hr : Readable v) (ht : Trim v)
    (script : List WriteEvent) (sent : Bytes) :
    ∃ out, socketWritev script sent v v.length = some out ∧
      Writing sent (gather v) out.state out.pendingVector ∧
      (out.pendingCount = out.pendingVector.length ∨ out.pendingCount = -1) := by
  have h : Writing sent (gather v) sent v :=
    ⟨⟨0, by rw [List.take_zero, List.append_nil], by rw [List.drop_zero]⟩, hr, ht⟩
  obtain ⟨out, hout, hinv, hret⟩ :=
    socketRwv_inv (fun ev s w _ hw => writev_keeps sent (gather v) ev s w hw) script sent v h
  exact ⟨out, hout, hinv, hret.imp_right And.left⟩

/-- The system calls of a write of `n` bytes come to one that fails. -/
def hitsFail : List WriteEvent → Nat → Bool
  | [], _ => false
  | ev :: evs, n =>
      if n = 0 then false
      else
        match ev with
        | .again => false
        | .intr => hitsFail evs n
        | .fail => true
        | .take k =>
            let m := min k (min n maxRwCount)
            if m = 0 then false else hitsFail evs (n - m)

theorem eq_nil_iff_total {β : Type} {v : List (IoVec β)} (ht : Trim v) : v = [] ↔ total v = 0 := by
  cases v with
  | nil => simp
  | cons iov v =>
      have ht : 0 < iov.iovLen := ht
      rw [total_cons]
      constructor
      · intro h
        cases h
      · intro h
        omega

/-- **A write fails exactly when one of its system calls does.** -/
theorem socketWritev_failed_iff {v : List (IoVec Bytes)} (ht : Trim v) {script : List WriteEvent}
    {sent : Bytes} {out : Rwv Bytes Bytes}
    (h : socketWritev script sent v v.length = some out) :
    out.pendingCount = -1 ↔ hitsFail script (total v) = true := by
  induction script generalizing sent v with
  | nil =>
      cases h
      have hneg : ¬ ((v.length : Int) < 0) := by omega
      have hcount : ¬ ((v.length : Int) = -1) := by omega
      simp [hitsFail, hneg, hcount]
  | cons ev evs ih =>
      unfold socketWritev at h ih
      unfold hitsFail
      by_cases hv : v = []
      · subst hv
        cases h
        simp
      · have hlen : 0 < v.length := List.length_pos_iff.mpr hv
        have htotal : ¬ (total v = 0) := fun e => hv ((eq_nil_iff_total ht).mpr e)
        rw [socketRwv, if_neg (by omega), if_neg (by omega)] at h
        rw [if_neg htotal]
        cases ev with
        | again =>
            cases h
            have hcount : ¬ ((v.length : Int) = -1) := by omega
            simp [hcount]
        | intr => exact ih ht h
        | fail =>
            cases h
            simp
        | take k =>
            rw [writev, Option.bind_some] at h
            simp only at h ⊢
            -- the bytes that the call takes
            generalize hm : min k (min (total v) maxRwCount) = m at h ⊢
            by_cases h0 : m = 0
            · rw [if_pos h0] at h ⊢
              cases h
              have hcount : ¬ ((v.length : Int) = -1) := by omega
              simp [hcount]
            · rw [if_neg h0] at h ⊢
              rw [moveOn_eq (by omega) (by omega) (by omega), Option.bind_some] at h
              rw [← total_skip]
              exact ih (trim_skip m v) h

/-! ## §4. Reading. -/

section Reading

variable {μ β : Type}

/-- Of the vector `v₀` and the memory `mem₀` at the start: the bytes taken
from the stream so far are laid out over `v₀`, and `v` is what is left. -/
structure Reading (M : Store μ β) (stream : Bytes) (mem₀ : μ) (v₀ : List (IoVec β))
    (s : ReadSide μ) (v : List (IoVec β)) (got : Bytes) : Prop where
  stream_eq : stream = got ++ s.inbound
  mem_eq : scatter M v₀ got mem₀ = some s.mem
  vector_eq : v = skip got.length v₀
  got_le : got.length ≤ total v₀

/-- The memory takes every byte string that fits the vector. -/
def Writable (M : Store μ β) (mem₀ : μ) (v₀ : List (IoVec β)) : Prop :=
  ∀ bs : Bytes, bs.length ≤ total v₀ → ∃ mem, scatter M v₀ bs mem₀ = some mem

/-- A read ends the transfer at the end of the stream or at an error. -/
def ReadEvent.Broken (ev : ReadEvent) : Prop := ev = .eof ∨ ev = .fail

theorem readv_keeps {M : Store μ β} {stream : Bytes} {mem₀ : μ} {v₀ : List (IoVec β)}
    (hw : Writable M mem₀ v₀) (ev : ReadEvent) (s : ReadSide μ) (v : List (IoVec β))
    (hv : v ≠ []) (h : ∃ got, Reading M stream mem₀ v₀ s v got) :
    ∃ r, readv M ev s v = some r ∧
      SysKeeps false (fun s v => ∃ got, Reading M stream mem₀ v₀ s v got) ev.Broken v r := by
  cases ev with
  | again => exact ⟨_, rfl, h⟩
  | intr => exact ⟨_, rfl, h⟩
  | eof => exact ⟨_, rfl, Nat.zero_le _, by rw [if_pos rfl]; exact ⟨h, fun _ => Or.inl rfl⟩⟩
  | fail => exact ⟨_, rfl, h, Or.inr rfl⟩
  | data n =>
      obtain ⟨got, hgot⟩ := h
      have htotal : total v = total v₀ - got.length := by rw [hgot.vector_eq, total_skip]
      have hpos : 0 < total v := by
        have htrim : Trim v := hgot.vector_eq ▸ trim_skip _ _
        cases v with
        | nil => exact absurd rfl hv
        | cons iov rest =>
            have htrim : 0 < iov.iovLen := htrim
            rw [total_cons]
            omega
      rw [readv]
      show ∃ r, (if min n (min (total v) (min maxRwCount s.inbound.length)) = 0 ∧ 0 < total v
        then _ else _) = some r ∧ _
      generalize hm : min n (min (total v) (min maxRwCount s.inbound.length)) = m
      by_cases h0 : m = 0
      · rw [if_pos ⟨h0, hpos⟩]
        exact ⟨_, rfl, got, hgot⟩
      · rw [if_neg fun hc => h0 hc.1]
        have hlen : (s.inbound.take m).length = m := by
          rw [List.length_take]
          omega
        -- what was got and what comes now, laid out at once
        obtain ⟨mem, hmem⟩ := hw (got ++ s.inbound.take m) (by
          rw [List.length_append, hlen]
          have := hgot.got_le
          omega)
        have hnext : scatter M v (s.inbound.take m) s.mem = some mem := by
          rw [scatter_append, hgot.mem_eq, Option.bind_some, ← hgot.vector_eq] at hmem
          exact hmem
        rw [hnext]
        refine ⟨_, rfl, by show m ≤ total v; omega, ?_⟩
        rw [if_neg h0]
        refine ⟨got ++ s.inbound.take m, ?_, hmem, ?_, ?_⟩
        · rw [List.append_assoc, List.take_append_drop]
          exact hgot.stream_eq
        · rw [List.length_append, hlen, hgot.vector_eq, skip_skip]
        · have := hgot.got_le
          rw [List.length_append, hlen]
          omega

/-- What a read leaves: all of the vector is filled, or some of it is pending,
or the stream has ended or failed before that. -/
inductive ReadEnd (script : List ReadEvent) (v₀ : List (IoVec β)) (got : Bytes)
    (out : Rwv (ReadSide μ) β) : Prop where
  | filled (count : out.pendingCount = 0) (all : got.length = total v₀)
  | pending (count : out.pendingCount = out.pendingVector.length) (pos : 0 < out.pendingCount)
      (some : got.length < total v₀)
  | broken (count : out.pendingCount = -1) (some : got.length < total v₀)
      (cause : ∃ ev ∈ script, ev.Broken)

/-- **A read** takes a further piece of the stream into memory; it fails only
at the end of the stream or at an error. -/
theorem socketReadv_takes {M : Store μ β} {stream : Bytes} {mem₀ : μ} {v₀ v : List (IoVec β)}
    (hw : Writable M mem₀ v₀) {s : ReadSide μ} (h : ∃ got, Reading M stream mem₀ v₀ s v got)
    (script : List ReadEvent) :
    ∃ out got, socketReadv M script s v v.length = some out ∧
      Reading M stream mem₀ v₀ out.state out.pendingVector got ∧ ReadEnd script v₀ got out := by
  obtain ⟨out, hout, ⟨got, hgot⟩, hret⟩ :=
    socketRwv_inv (fun ev s v hv hr => readv_keeps hw ev s v hv hr) script s v h
  -- pieces are left exactly when bytes are missing
  have hmissing : out.pendingVector ≠ [] → got.length < total v₀ := by
    intro hne
    by_contra hge
    exact hne (hgot.vector_eq.trans (skip_eq_nil (by omega)))
  refine ⟨out, got, hout, hgot, ?_⟩
  rcases hret with hcount | ⟨hcount, hne, hcause⟩
  · by_cases hnil : out.pendingVector = []
    · have hle := total_skip got.length v₀
      rw [← hgot.vector_eq, hnil, total_nil] at hle
      have := hgot.got_le
      exact .filled (by rw [hcount, hnil]; rfl) (by omega)
    · have := List.length_pos_iff.mpr hnil
      exact .pending hcount (by omega) (hmissing hnil)
  · exact .broken hcount (hmissing hne) hcause

/-- What the calls of a script deliver of `avail` bytes while `n` are wanted. -/
def delivered : List ReadEvent → Nat → Nat → Nat
  | [], _, _ => 0
  | ev :: evs, n, avail =>
      if n = 0 then 0
      else
        match ev with
        | .data k =>
            let m := min k (min n (min maxRwCount avail))
            if m = 0 then 0 else m + delivered evs (n - m) (avail - m)
        | .intr => delivered evs n avail
        | .again | .eof | .fail => 0

theorem delivered_le (script : List ReadEvent) (n avail : Nat) :
    delivered script n avail ≤ n ∧ delivered script n avail ≤ avail := by
  induction script generalizing n avail with
  | nil => exact ⟨Nat.zero_le _, Nat.zero_le _⟩
  | cons ev evs ih =>
      unfold delivered
      split
      · exact ⟨Nat.zero_le _, Nat.zero_le _⟩
      · cases ev with
        | data k =>
            simp only
            split
            · exact ⟨Nat.zero_le _, Nat.zero_le _⟩
            · have hrest := ih (n - min k (min n (min maxRwCount avail)))
                (avail - min k (min n (min maxRwCount avail)))
              omega
        | intr => exact ih n avail
        | _ => exact ⟨Nat.zero_le _, Nat.zero_le _⟩

/-- **A read consumes what its calls deliver.** -/
theorem socketReadv_delivered {M : Store μ β} {v : List (IoVec β)} (ht : Trim v) {script : List ReadEvent}
    {s : ReadSide μ} {out : Rwv (ReadSide μ) β} (h : socketReadv M script s v v.length = some out) :
    out.state.inbound = s.inbound.drop (delivered script (total v) s.inbound.length) := by
  induction script generalizing s v with
  | nil =>
      cases h
      rw [delivered, List.drop_zero]
  | cons ev evs ih =>
      unfold socketReadv at h ih
      unfold delivered
      by_cases hv : v = []
      · subst hv
        cases h
        rw [total_nil, if_pos rfl, List.drop_zero]
      · have hlen : 0 < v.length := List.length_pos_iff.mpr hv
        have htotal : ¬ (total v = 0) := fun e => hv ((eq_nil_iff_total ht).mpr e)
        rw [socketRwv, if_neg (by omega), if_neg (by omega)] at h
        rw [if_neg htotal]
        cases ev with
        | again =>
            cases h
            rfl
        | intr => exact ih ht h
        | eof =>
            cases h
            rfl
        | fail =>
            cases h
            rfl
        | data k =>
            simp only [readv] at h ⊢
            -- the bytes that the call delivers
            generalize hm : min k (min (total v) (min maxRwCount s.inbound.length)) = m at h ⊢
            by_cases h0 : m = 0
            · rw [if_pos ⟨h0, by omega⟩] at h
              rw [if_pos h0]
              cases h
              rfl
            · rw [if_neg fun hc => h0 hc.1] at h
              rw [if_neg h0]
              obtain ⟨r, hr, h⟩ := Option.bind_eq_some_iff.mp h
              obtain ⟨mem, -, rfl⟩ := Option.map_eq_some_iff.mp hr
              simp only [if_neg h0] at h
              rw [moveOn_eq (by omega) (by omega) (by omega), Option.bind_some] at h
              have hrest := ih (trim_skip m v) h
              rw [total_skip, List.length_drop, List.drop_drop] at hrest
              exact hrest

/-- What every single write to memory keeps, a read keeps. -/
theorem socketReadv_keeps {M : Store μ β} {P : μ → Prop}
    (hput : ∀ mem b off bs mem', P mem → M.put mem b off bs = some mem' → P mem') {script : List ReadEvent}
    {s : ReadSide μ} {v : List (IoVec β)} {count : Int} {out : Rwv (ReadSide μ) β} (hs : P s.mem)
    (h : socketReadv M script s v count = some out) : P out.state.mem := by
  have hsys : ∀ ev (s : ReadSide μ) v r, P s.mem → readv M ev s v = some r → P r.2.mem := by
    intro ev s v r hs hr
    cases ev with
    | data n =>
        simp only [readv] at hr
        split at hr
        · cases hr
          exact hs
        · obtain ⟨mem, hmem, rfl⟩ := Option.map_eq_some_iff.mp hr
          exact scatter_keeps M hput hs hmem
    | again =>
        cases hr
        exact hs
    | intr =>
        cases hr
        exact hs
    | eof =>
        cases hr
        exact hs
    | fail =>
        cases hr
        exact hs
  exact socketRwv_keeps (P := fun s => P s.mem) hsys hs h

end Reading

end LzLib.Socket
