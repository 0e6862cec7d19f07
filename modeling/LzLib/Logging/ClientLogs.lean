/-
  LzLib.Logging.ClientLogs
  ────────────────────────
  **WHERE THE MESSAGES OF CLIENTS GO** (`logging.c`).

  The search over the entries ends at the head of the list with `client` on the
  entry that holds the head: the pointer is never NULL behind the loop, so the
  branch that makes an entry for another client is dead (`OneClient.logfile`).
  The list stays empty and the first client's file takes every message:
  `clientLogging_files`.
-/
import LzLib.Logging.ClientLogDef

namespace LzLib.Logging

open LzLib.Foundation

/-! ## §1. The purpose. -/

/-- The lines of the messages. -/
def logLines (ms : List ClientMessage) : Bytes := ms.flatMap ClientMessage.line

/-- The messages of one client. -/
def messagesOf (identifier : CStr) (ms : List ClientMessage) : List ClientMessage :=
  ms.filter fun m => m.identifier = identifier

/-- **Every message is appended to the file of its client**, in order. -/
def RoutedByClient (filename : CStr) (files files' : Bytes → Bytes) (ms : List ClientMessage) : Prop :=
  ∀ identifier, files' (clientLogPath filename identifier)
    = files (clientLogPath filename identifier) ++ logLines (messagesOf identifier ms)

/-- Different clients have different files. -/
theorem clientLogPath_inj (filename : CStr) {i j : CStr} :
    clientLogPath filename i = clientLogPath filename j ↔ i = j := by
  constructor
  · intro h
    cases i
    cases j
    unfold clientLogPath at h
    simpa using h
  · exact congrArg (clientLogPath filename)

theorem ClientMessage.line_ne_nil (m : ClientMessage) : m.line ≠ [] := by
  unfold ClientMessage.line
  simp

/-- A client has a line when it has a message. -/
theorem logLines_messagesOf_eq_nil {identifier : CStr} {ms : List ClientMessage} :
    logLines (messagesOf identifier ms) = [] ↔ ∀ m ∈ ms, m.identifier ≠ identifier := by
  unfold logLines messagesOf
  simp [List.flatMap_eq_nil_iff, ClientMessage.line_ne_nil]

theorem messagesOf_all {identifier : CStr} {ms : List ClientMessage} (h : ∀ m ∈ ms, m.identifier = identifier) :
    messagesOf identifier ms = ms := by
  unfold messagesOf
  simpa using h

/-! ## §2. One message. -/

/-- **There is one entry**, that of the first client, and its list is empty. -/
structure OneClient (filename first : CStr) (s : ClientLogs) : Prop where
  set : s.clientLogs ≠ 0
  entry : s.entries s.clientLogs = some ⟨first, clientLogPath filename first⟩
  empty : Ring s.links s.clientLogs []
  opened : s.opened = [clientLogPath filename first]

/-- The line at the end of the first client's file. -/
def appendLines (filename first : CStr) (files : Bytes → Bytes) (lines : Bytes) : Bytes → Bytes :=
  Function.update files (clientLogPath filename first) (files (clientLogPath filename first) ++ lines)

theorem appendLines_apply (filename first identifier : CStr) (files : Bytes → Bytes) (lines : Bytes) :
    appendLines filename first files lines (clientLogPath filename identifier)
      = if identifier = first then files (clientLogPath filename first) ++ lines
        else files (clientLogPath filename identifier) := by
  unfold appendLines
  rw [Function.update_apply]
  simp only [clientLogPath_inj]

theorem appendLines_append (filename first : CStr) (files : Bytes → Bytes) (l l' : Bytes) :
    appendLines filename first (appendLines filename first files l) l' = appendLines filename first files (l ++ l') := by
  unfold appendLines
  rw [Function.update_self, Function.update_idem, List.append_assoc]

/-- The files play no part in the search. -/
theorem OneClient.withFiles {filename first : CStr} {s : ClientLogs} (O : OneClient filename first s)
    (files : Bytes → Bytes) : OneClient filename first { s with files := files } :=
  ⟨O.set, O.entry, O.empty, O.opened⟩

/-- **A message with an entry in place** goes to the first client's file. -/
theorem OneClient.logfile {filename first : CStr} {s : ClientLogs} (O : OneClient filename first s)
    (identifier : CStr) : logfileForClient filename s identifier = some (clientLogPath filename first, s) := by
  have hnext : (s.links s.clientLogs).next = s.clientLogs := O.empty.next_head
  have hsearch : searchClient s identifier (s.allocated + 1) s.clientLogs = some s.clientLogs := by
    unfold searchClient
    exact if_pos rfl
  unfold logfileForClient
  simp only [if_neg O.set]
  rw [hnext, hsearch]
  simp only [Option.bind_some, if_neg O.set, O.entry, Option.map_some]

/-- `client_logs` after the first entry was made. -/
def firstClientLog (filename identifier : CStr) (files : Bytes → Bytes) : ClientLogs :=
  { clientLogInit filename (noClientLogs files).calloc.2 1 identifier with clientLogs := 1 }

theorem oneClient_first (filename identifier : CStr) (files : Bytes → Bytes) :
    OneClient filename identifier (firstClientLog filename identifier files) where
  set := Nat.one_ne_zero
  entry := rfl
  empty := ring_initListHead _ _
  opened := rfl

/-- **The first message** makes the entry of its client. -/
theorem logfileForClient_first (filename identifier : CStr) (files : Bytes → Bytes) :
    logfileForClient filename (noClientLogs files) identifier
      = some (clientLogPath filename identifier, firstClientLog filename identifier files) := by
  rw [← (oneClient_first filename identifier files).logfile identifier]
  unfold logfileForClient
  simp only [if_neg (oneClient_first filename identifier files).set]
  rfl

/-! ## §3. Runs. -/

/-- One message, with the entry in place. -/
theorem OneClient.step {filename first : CStr} {s : ClientLogs} (O : OneClient filename first s) (m : ClientMessage) :
    lzLogFromClient filename s m = some { s with files := appendLines filename first s.files m.line } := by
  unfold lzLogFromClient
  rw [O.logfile m.identifier]
  rfl

/-- One message after the other, with the entry in place. -/
theorem OneClient.run {filename first : CStr} (ms : List ClientMessage) :
    ∀ {s : ClientLogs}, OneClient filename first s →
      (clientLogging filename).run s ms = some { s with files := appendLines filename first s.files (logLines ms) } := by
  induction ms with
  | nil =>
      intro s O
      have hsame : appendLines filename first s.files (logLines []) = s.files := by
        unfold appendLines logLines
        simp
      rw [hsame]
      rfl
  | cons m ms ih =>
      intro s O
      show (lzLogFromClient filename s m).bind _ = _
      rw [O.step m, Option.bind_some, ih (O.withFiles _)]
      show some _ = some _
      rw [appendLines_append]
      rfl

/-- **All messages are in the file of the client who came first.** -/
theorem clientLogging_files (filename : CStr) (files : Bytes → Bytes) (m : ClientMessage) (ms : List ClientMessage) :
    ∃ s, (clientLogging filename).run (noClientLogs files) (m :: ms) = some s
      ∧ OneClient filename m.identifier s
      ∧ s.files = appendLines filename m.identifier files (logLines (m :: ms)) := by
  have O := oneClient_first filename m.identifier files
  have hfirst : lzLogFromClient filename (noClientLogs files) m
      = some { firstClientLog filename m.identifier files with
          files := appendLines filename m.identifier files m.line } := by
    unfold lzLogFromClient
    rw [logfileForClient_first]
    rfl
  refine ⟨_, ?_, O.withFiles _, rfl⟩
  show (lzLogFromClient filename (noClientLogs files) m).bind _ = _
  rw [hfirst, Option.bind_some, (O.withFiles _).run ms]
  show some _ = some _
  rw [appendLines_append]
  rfl

/-- With one file for all, every message is in the file of its client when there is one client. -/
theorem routedByClient_iff (filename first : CStr) (files : Bytes → Bytes) (ms : List ClientMessage) :
    RoutedByClient filename files (appendLines filename first files (logLines ms)) ms
      ↔ ∀ m ∈ ms, m.identifier = first := by
  constructor
  · intro hrouted m hm
    by_contra hother
    have h := hrouted m.identifier
    rw [appendLines_apply, if_neg hother] at h
    -- the other client's file is as it was, and should have got a line
    have hnil : logLines (messagesOf m.identifier ms) = [] := by simpa using h
    exact logLines_messagesOf_eq_nil.mp hnil m hm rfl
  · intro hall identifier
    rw [appendLines_apply]
    by_cases hid : identifier = first
    · subst hid
      rw [if_pos rfl, messagesOf_all hall]
    · rw [if_neg hid]
      have hnone : logLines (messagesOf identifier ms) = [] :=
        logLines_messagesOf_eq_nil.mpr fun m hm heq => hid (heq.symm.trans (hall m hm))
      rw [hnone, List.append_nil]

/-- **The logs of clients.**  No file is opened twice.  Every message is appended to the file
of its client exactly when all messages are of one client. -/
theorem clientLogging_routed_iff (filename : CStr) (files : Bytes → Bytes) (ms : List ClientMessage) :
    ∃ s, (clientLogging filename).run (noClientLogs files) ms = some s
      ∧ s.opened.Nodup
      ∧ (RoutedByClient filename files s.files ms ↔ ∀ m ∈ ms, ∀ m' ∈ ms, m.identifier = m'.identifier) := by
  cases ms with
  | nil =>
      refine ⟨noClientLogs files, rfl, List.nodup_nil, ?_⟩
      constructor
      · intro _ m hm
        cases hm
      · intro _ identifier
        exact (List.append_nil _).symm
  | cons m ms =>
      obtain ⟨s, hrun, O, hfiles⟩ := clientLogging_files filename files m ms
      refine ⟨s, hrun, ?_, ?_⟩
      · rw [O.opened]
        exact List.nodup_singleton _
      · rw [hfiles, routedByClient_iff]
        constructor
        · intro hall m₁ h₁ m₂ h₂
          rw [hall m₁ h₁, hall m₂ h₂]
        · intro hall m₁ h₁
          exact hall m₁ h₁ m List.mem_cons_self

/-- The string of one character. -/
def oneChar (c : UInt8) (h : c ≠ 0) : CStr where
  chars := [c]
  nulFree := by
    intro hmem
    exact h (List.mem_singleton.mp hmem).symm

/-- The message `"x"` of the client `"a"`, then `"y"` of the client `"b"`. -/
def twoClients : List ClientMessage :=
  [⟨oneChar 120 (by decide), oneChar 97 (by decide)⟩, ⟨oneChar 121 (by decide), oneChar 98 (by decide)⟩]

/-- Both lines are in the file of `"a"`; the file name is `"l"`. -/
theorem clientLogging_not_routed :
    ∃ s, (clientLogging (oneChar 108 (by decide))).run (noClientLogs fun _ => []) twoClients = some s
      ∧ s.files (clientLogPath (oneChar 108 (by decide)) (oneChar 97 (by decide))) = [120, 10, 121, 10]
      ∧ s.files (clientLogPath (oneChar 108 (by decide)) (oneChar 98 (by decide))) = []
      ∧ ¬ RoutedByClient (oneChar 108 (by decide)) (fun _ => []) s.files twoClients := by
  refine ⟨_, rfl, by decide, by decide, ?_⟩
  intro hrouted
  have h := hrouted (oneChar 98 (by decide))
  revert h
  decide

end LzLib.Logging
