/-
  LzLib.Socket.Progress
  ─────────────────────
  **A TRANSFER GOES ON WHERE IT STOPPED.**

  The bytes that a vector stands for are its `cells`, buffer and offset of each
  byte in order.  What `readv` and `writev` move is a front of the cells of the
  vector they are given, whatever the direction, so the log of a call of
  `__socket_rwv` and the vector it leaves pending make up the cells of the
  vector it was given.

  Main result: `rwv_progress`, for every vector with a byte in it, every
  sequence of results, and every later call on what is pending.
-/
import LzLib.Socket.Rwv
import Mathlib.Data.List.TakeWhile

namespace LzLib.Socket

open LzLib.Foundation

/-! ## §1. The bytes of a vector. -/

section Cells

variable {β : Type}

/-- The bytes of one piece: their buffer and their offsets. -/
def pieceCells (iov : IoVec β) : List (β × Nat) := (List.range' iov.off iov.iovLen).map fun o => (iov.base, o)

/-- The bytes of a vector, in the order of the transfer. -/
def cells (v : List (IoVec β)) : List (β × Nat) := v.flatMap pieceCells

theorem cells_cons (iov : IoVec β) (v : List (IoVec β)) : cells (iov :: v) = pieceCells iov ++ cells v := rfl

theorem pieceCells_length (iov : IoVec β) : (pieceCells iov).length = iov.iovLen := by
  unfold pieceCells
  rw [List.length_map, List.length_range']

theorem cells_length (v : List (IoVec β)) : (cells v).length = total v := by
  induction v with
  | nil => rfl
  | cons iov v ih => rw [cells_cons, List.length_append, pieceCells_length, ih, total_cons]

theorem pieceCells_advance (iov : IoVec β) (n : Nat) : pieceCells (iov.advance n) = (pieceCells iov).drop n := by
  unfold pieceCells
  rw [← List.map_drop, List.drop_range', Nat.mul_one]
  rfl

/-- **Skipping bytes drops their cells.** -/
theorem cells_skip (n : Nat) (v : List (IoVec β)) : cells (skip n v) = (cells v).drop n := by
  induction v generalizing n with
  | nil => rw [skip, cells, List.flatMap_nil, List.drop_nil]
  | cons iov v ih =>
      have hlen := pieceCells_length iov
      rw [skip, cells_cons, List.drop_append, hlen]
      split
      next h =>
        have hnil : (pieceCells iov).drop n = [] := List.drop_eq_nil_of_le (by omega)
        rw [ih, hnil, List.nil_append]
      next h =>
        have hzero : n - iov.iovLen = 0 := by omega
        rw [cells_cons, pieceCells_advance, hzero, List.drop_zero]

/-- Without an empty piece in front, a vector without a byte has no piece. -/
theorem nil_of_trim {v : List (IoVec β)} (h : Trim v) (hzero : total v = 0) : v = [] := by
  cases v with
  | nil => rfl
  | cons iov v =>
      have hpos : 0 < iov.iovLen := h
      rw [total_cons] at hzero
      omega

end Cells

/-! ## §2. The results of the system calls. -/

/-- What one `readv` or `writev` comes to. -/
inductive RwResult where
  /-- A positive count, `n + 1` or as many bytes as are offered. -/
  | moved (n : Nat)
  | again
  | intr
  /-- The count 0: the end of the stream for a read. -/
  | eof
  | error
  deriving DecidableEq

section Transfer

variable {β : Type}

/-- The count that the call returns, with `m` bytes offered. -/
def moveCount (n m : Nat) : Nat := min (n + 1) (min m maxRwCount)

/-- `readv` or `writev`: the bytes moved, in order, go to the log. -/
def transfer : RwResult → List (β × Nat) → List (IoVec β) → Option (SysRet × List (β × Nat))
  | .moved n, log, v => some (.moved (moveCount n (total v)), log ++ (cells v).take (moveCount n (total v)))
  | .again, log, _ => some (.again, log)
  | .intr, log, _ => some (.intr, log)
  | .eof, log, _ => some (.moved 0, log)
  | .error, log, _ => some (.error, log)

/-- The result ends the loop with the transfer to be gone on with: `EAGAIN`, or
a write of nothing. -/
def interrupts (write : Bool) : RwResult → Bool
  | .again => true
  | .eof => write
  | _ => false

/-- The results, with `n` bytes offered at first, come to the end of the stream
of a read or to an error. -/
def hitsEnd (write : Bool) : List RwResult → Nat → Bool
  | [], _ => false
  | ev :: evs, n =>
      if n = 0 then false
      else
        match ev with
        | .again => false
        | .intr => hitsEnd write evs n
        | .eof => !write
        | .error => true
        | .moved k => hitsEnd write evs (n - moveCount k n)

theorem moveCount_pos {n m : Nat} (h : 0 < m) : 0 < moveCount n m := by
  unfold moveCount maxRwCount
  omega

theorem moveCount_le (n m : Nat) : moveCount n m ≤ m := by
  unfold moveCount
  omega

/-! ## §3. Order. -/

/-- A transfer under way: the log and what is left make up the vector, and
pieces are left only with bytes in them. -/
def UnderWay (v₀ : List (IoVec β)) (log : List (β × Nat)) (v : List (IoVec β)) : Prop :=
  log ++ cells v = cells v₀ ∧ (total v = 0 → v = [])

/-- One system call. -/
theorem transfer_keeps (write : Bool) (v₀ : List (IoVec β)) (ev : RwResult) (log : List (β × Nat))
    (v : List (IoVec β)) (hv : v ≠ []) (h : UnderWay v₀ log v) :
    ∃ r, transfer ev log v = some r ∧
      SysKeeps write (UnderWay v₀) (ev = .eof ∨ ev = .error) v r := by
  cases ev with
  | again => exact ⟨_, rfl, h⟩
  | intr => exact ⟨_, rfl, h⟩
  | error => exact ⟨_, rfl, h, Or.inr rfl⟩
  | eof =>
      refine ⟨_, rfl, Nat.zero_le _, ?_⟩
      rw [if_pos rfl]
      exact ⟨h, fun _ => Or.inl rfl⟩
  | moved n =>
      have hpos : 0 < total v := by
        by_contra hzero
        exact hv (h.2 (by omega))
      have hcount := moveCount_pos (n := n) hpos
      refine ⟨_, rfl, moveCount_le n (total v), ?_⟩
      rw [if_neg (by omega)]
      constructor
      · rw [cells_skip, List.append_assoc, List.take_append_drop]
        exact h.1
      · exact nil_of_trim (trim_skip _ _)

/-! ## §4. The end of a transfer. -/

/-- **The call fails exactly when one of its system calls ends the transfer.** -/
theorem rwv_failed_iff (write : Bool) {script : List RwResult} {log : List (β × Nat)} {v : List (IoVec β)}
    {out : Rwv (List (β × Nat)) β} (htrim : total v = 0 → v = [])
    (h : socketRwv write transfer script log v v.length = some out) :
    out.pendingCount = -1 ↔ hitsEnd write script (total v) = true := by
  induction script generalizing log v with
  | nil =>
      cases h
      have hneg : ¬ ((v.length : Int) < 0) := by omega
      have hcount : ¬ ((v.length : Int) = -1) := by omega
      simp [hitsEnd, hneg, hcount]
  | cons ev evs ih =>
      unfold hitsEnd
      by_cases hzero : total v = 0
      · cases htrim hzero
        cases h
        simp
      · have hne : v ≠ [] := by
          rintro rfl
          exact hzero rfl
        have hlen : 0 < v.length := List.length_pos_iff.mpr hne
        have hcount : ¬ ((v.length : Int) = -1) := by omega
        rw [socketRwv, if_neg (by omega), if_neg (by omega)] at h
        rw [if_neg hzero]
        -- one case for each result of the system call
        cases ev with
        | again =>
            cases h
            simp [hcount]
        | intr => exact ih htrim h
        | error =>
            cases h
            simp
        | eof =>
            cases write with
            | true =>
                cases h
                simp [hcount]
            | false =>
                cases h
                simp
        | moved k =>
            have hpos := moveCount_pos (n := k) (Nat.pos_of_ne_zero hzero)
            have hle := moveCount_le k (total v)
            rw [transfer, Option.bind_some] at h
            simp only [if_neg (Nat.ne_of_gt hpos)] at h
            rw [moveOn_eq (by omega) hpos (by omega), Option.bind_some] at h
            have hrest := ih (nil_of_trim (trim_skip _ _)) h
            rw [Nat.sub_zero, total_skip] at hrest
            exact hrest

/-! ## §5. Going on. -/

/-- A call on no piece, or a refused one, does nothing. -/
theorem rwv_done (write : Bool) (script : List RwResult) (log : List (β × Nat)) (v : List (IoVec β))
    {count : Int} (h : count ≤ 0) :
    socketRwv write transfer script log v count = some ⟨log, v, if count < 0 then -1 else count⟩ := by
  by_cases hneg : count < 0
  · rw [socketRwv_neg write transfer script log v hneg, if_pos hneg]
  · have hzero : count = 0 := by omega
    rw [hzero]
    cases script with
    | nil => rfl
    | cons ev evs => rfl

/-- A call on some piece makes a system call. -/
theorem rwv_cons (write : Bool) (ev : RwResult) (evs : List RwResult) (log : List (β × Nat))
    (v : List (IoVec β)) {count : Int} (h : 0 < count) :
    socketRwv write transfer (ev :: evs) log v count = (transfer ev log v).bind fun r =>
      match r.1 with
      | .again => some ⟨r.2, v, count⟩
      | .intr => socketRwv write transfer evs r.2 v count
      | .error => some ⟨r.2, v, -1⟩
      | .moved n =>
          if n = 0 then some ⟨r.2, v, if write then count else -1⟩
          else (moveOn (v.length + 1) n 0 v count).bind fun p => socketRwv write transfer evs r.2 p.1 p.2 := by
  rw [socketRwv, if_neg (by omega)]
  exact if_neg (by omega)

/-- What a call sees of the results: those in front of the first interruption. -/
def seen (write : Bool) (script : List RwResult) : List RwResult :=
  script.takeWhile fun ev => !interrupts write ev

/-- The rest does not matter: out of results is `EAGAIN`. -/
theorem rwv_seen (write : Bool) (script : List RwResult) (log : List (β × Nat)) (v : List (IoVec β))
    (count : Int) :
    socketRwv write transfer (seen write script) log v count = socketRwv write transfer script log v count := by
  unfold seen
  induction script generalizing log v count with
  | nil => rfl
  | cons ev evs ih =>
      by_cases hdone : count ≤ 0
      · rw [rwv_done _ _ _ _ hdone, rwv_done _ _ _ _ hdone]
      · have hpos : 0 < count := by omega
        have hneg : ¬ count < 0 := by omega
        rw [List.takeWhile_cons]
        -- what interrupts the call also ends what is seen
        cases ev with
        | again =>
            rw [rwv_cons _ _ _ _ _ hpos]
            show some (Rwv.mk log v (if count < 0 then -1 else count)) = _
            rw [if_neg hneg]
            rfl
        | intr =>
            show socketRwv write transfer (.intr :: _) log v count = _
            rw [rwv_cons _ _ _ _ _ hpos, rwv_cons _ _ _ _ _ hpos]
            exact ih log v count
        | error =>
            show socketRwv write transfer (.error :: _) log v count = _
            rw [rwv_cons _ _ _ _ _ hpos, rwv_cons _ _ _ _ _ hpos]
            rfl
        | eof =>
            cases write with
            | true =>
                rw [rwv_cons _ _ _ _ _ hpos]
                show some (Rwv.mk log v (if count < 0 then -1 else count)) = _
                rw [if_neg hneg]
                rfl
            | false =>
                show socketRwv false transfer (.eof :: _) log v count = _
                rw [rwv_cons _ _ _ _ _ hpos, rwv_cons _ _ _ _ _ hpos]
                rfl
        | moved n =>
            show socketRwv write transfer (.moved n :: _) log v count = _
            rw [rwv_cons _ _ _ _ _ hpos, rwv_cons _ _ _ _ _ hpos, transfer, Option.bind_some, Option.bind_some]
            simp only [ih]

/-- **Going on**: a call whose results are not interrupted is the call with the
first of them, and, unless that is at its end, a call on what it leaves. -/
theorem rwv_append (write : Bool) (front later : List RwResult)
    (hfront : ∀ ev ∈ front, interrupts write ev = false) (log : List (β × Nat)) (v : List (IoVec β))
    (htrim : total v = 0 → v = []) :
    socketRwv write transfer (front ++ later) log v v.length
      = (socketRwv write transfer front log v v.length).bind fun out =>
          if out.pendingCount ≤ 0 then some out
          else socketRwv write transfer later out.state out.pendingVector out.pendingCount := by
  induction front generalizing log v with
  | nil =>
      have hneg : ¬ ((v.length : Int) < 0) := by omega
      rw [List.nil_append, socketRwv, Option.bind_some, if_neg hneg]
      by_cases hdone : (v.length : Int) ≤ 0
      · rw [if_pos hdone, rwv_done write later log v hdone, if_neg hneg]
      · rw [if_neg hdone]
  | cons ev evs ih =>
      have hrest : ∀ ev ∈ evs, interrupts write ev = false := fun e he => hfront e (List.mem_cons_of_mem _ he)
      have hev := hfront ev List.mem_cons_self
      by_cases hnil : v = []
      · rw [hnil]
        rfl
      · have hpos : (0 : Int) < v.length := by
          have hlen := List.length_pos_iff.mpr hnil
          omega
        rw [List.cons_append, rwv_cons _ _ _ _ _ hpos, rwv_cons _ _ _ _ _ hpos]
        -- `again`, and `eof` of a write, are excluded
        cases ev with
        | again => cases hev
        | intr => exact ih hrest log v htrim
        | error => rfl
        | eof =>
            cases write with
            | true => cases hev
            | false => rfl
        | moved n =>
            have htotal : 0 < total v := Nat.pos_of_ne_zero fun e => hnil (htrim e)
            have hcount := moveCount_pos (n := n) htotal
            have hle := moveCount_le n (total v)
            rw [transfer, Option.bind_some, Option.bind_some]
            simp only [if_neg (Nat.ne_of_gt hcount)]
            rw [moveOn_eq (by omega) hcount (by omega), Option.bind_some, Option.bind_some]
            exact ih hrest _ _ (nil_of_trim (trim_skip _ _))

end Transfer

/-! ## §6. Progress. -/

/-- **What a call leaves.**  `out` is its outcome on the vector `v₀`. -/
structure Progress {β : Type} (write : Bool) (script : List RwResult) (v₀ : List (IoVec β))
    (out : Rwv (List (β × Nat)) β) : Prop where
  /-- No gap, no repetition; and what is pending is the rest. -/
  ordered : out.state ++ cells out.pendingVector = cells v₀
  complete : out.pendingCount = 0 ↔ out.state = cells v₀
  failed : out.pendingCount = -1 ↔ hitsEnd write script (total v₀) = true
  pending : out.pendingCount ≠ -1 → out.pendingCount = out.pendingVector.length
  /-- A later call goes on as if the results had come in one call. -/
  resumed : ∀ later, 0 < out.pendingCount →
    socketRwv write transfer (seen write script ++ later) [] v₀ v₀.length
      = socketRwv write transfer later out.state out.pendingVector out.pendingCount

/-- **SCATTER/GATHER PROGRESS.**  For every vector with a byte in it and every
sequence of results, the call finishes without reading past the vector, moves
bytes in order, and leaves exactly the rest to a later call. -/
theorem rwv_progress {β : Type} (write : Bool) (v : List (IoVec β)) (hv : 0 < total v)
    (script : List RwResult) :
    ∃ out, socketRwv write transfer script [] v v.length = some out ∧ Progress write script v out := by
  have htrim : total v = 0 → v = [] := fun hzero => by omega
  obtain ⟨out, hout, ⟨hordered, hrest⟩, hcount⟩ :=
    socketRwv_inv (fun ev log w hw h => transfer_keeps write v ev log w hw h) script [] v ⟨rfl, htrim⟩
  have hfailed := rwv_failed_iff write htrim hout
  -- all is moved exactly when nothing is left
  have hall : out.state = cells v ↔ out.pendingVector = [] := by
    constructor
    · intro hstate
      rw [hstate, List.append_right_eq_self] at hordered
      apply hrest
      rw [← cells_length, hordered]
      rfl
    · intro hnil
      rw [hnil] at hordered
      simpa [cells] using hordered
  refine ⟨out, hout, hordered, ?_, hfailed, ?_, ?_⟩
  · rw [hall]
    rcases hcount with hlen | ⟨hminus, hne, -⟩
    · rw [hlen, ← List.length_eq_zero_iff]
      omega
    · rw [hminus]
      exact iff_of_false (by decide) hne
  · intro hminus
    rcases hcount with hlen | ⟨hend, -⟩
    · exact hlen
    · exact absurd hend hminus
  · intro later hpos
    have hfront : ∀ ev ∈ seen write script, interrupts write ev = false := by
      intro ev hev
      have hgoes := List.mem_takeWhile_imp hev
      simpa using hgoes
    rw [rwv_append write _ later hfront [] v htrim, rwv_seen, hout, Option.bind_some, if_neg (by omega)]

/-- Two bytes, an empty piece and a byte; a write of one byte, then of nothing. -/
theorem rwv_progress_three : ∃ out,
    socketRwv true transfer [.moved 0, .eof] [] [⟨"a", 0, 0⟩, ⟨"b", 3, 2⟩, ⟨"c", 0, 0⟩, ⟨"d", 0, 1⟩] 4 = some out ∧
      Progress true [.moved 0, .eof] [⟨"a", 0, 0⟩, ⟨"b", 3, 2⟩, ⟨"c", 0, 0⟩, ⟨"d", 0, 1⟩] out :=
  rwv_progress true [⟨"a", 0, 0⟩, ⟨"b", 3, 2⟩, ⟨"c", 0, 0⟩, ⟨"d", 0, 1⟩] (by decide) [.moved 0, .eof]

end LzLib.Socket
