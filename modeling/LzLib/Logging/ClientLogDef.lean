/-
  LzLib.Logging.ClientLogDef
  ──────────────────────────
  **THE LOGS OF CLIENTS** (`logging.c`).

  `lz_log_from_client` writes a message to the file of the client.  The entries
  `struct _client_log` are linked by their `list`; the list hangs on the `list`
  of the entry `client_logs`, which is the head and no member.

  Entries are pointers, 0 is NULL.  A stream is known by the path with which
  `fopen` has opened it for appending.  `none` is a program that has read
  through a pointer to no entry, or a search that has not ended.
-/
import LzLib.Foundation.Rings
import LzLib.Foundation.Runs
import LzLib.Foundation.Words

namespace LzLib.Logging

open LzLib.Foundation

/-! ## §1. Entries. -/

/-- `struct _client_log`, without its links. -/
structure ClientLog where
  identifier : CStr
  file : Bytes

/-- `client_logs`, the entries and their links, how many entries were allocated,
the paths that `fopen` was given, and what the files hold. -/
structure ClientLogs where
  clientLogs : Nat
  entries : Nat → Option ClientLog
  links : Links Nat
  allocated : Nat
  opened : List Bytes
  files : Bytes → Bytes

/-- Before the first message. -/
def noClientLogs (files : Bytes → Bytes) : ClientLogs where
  clientLogs := 0
  entries := fun _ => none
  links := fun _ => ⟨0, 0⟩
  allocated := 0
  opened := []
  files := files

/-- `"%s.client-%s"`. -/
def clientLogPath (filename identifier : CStr) : Bytes :=
  filename.chars ++ [46, 99, 108, 105, 101, 110, 116, 45] ++ identifier.chars

/-- `CALLOC (1, sizeof (*client))`: the entry has the next free address. -/
def ClientLogs.calloc (s : ClientLogs) : Nat × ClientLogs :=
  (s.allocated + 1, { s with allocated := s.allocated + 1 })

/-- `client_log_init`, when `asprintf` and `fopen` succeed. -/
def clientLogInit (filename : CStr) (s : ClientLogs) (cl : Nat) (identifier : CStr) : ClientLogs :=
  let path := clientLogPath filename identifier
  { s with
    entries := Function.update s.entries cl (some ⟨identifier, path⟩)
    opened := s.opened ++ [path]
    links := initListHead s.links cl }

/-! ## §2. The search. -/

/-- `list_for_each_entry (client, &client_logs->list, list)`, up to the `break`: the
value of `client` behind the loop. -/
def searchClient (s : ClientLogs) (identifier : CStr) : Nat → Nat → Option Nat
  | 0, _ => none
  | fuel + 1, client =>
      -- back at the head, the cursor is the head's own entry
      if client = s.clientLogs then some client
      else
        (s.entries client).bind fun entry =>
          if entry.identifier = identifier then some client
          else searchClient s identifier fuel (s.links client).next

/-- `__logfile_for_client`. -/
def logfileForClient (filename : CStr) (s : ClientLogs) (identifier : CStr) : Option (Bytes × ClientLogs) :=
  -- the entry of the first identifier becomes the head
  let s :=
    if s.clientLogs = 0 then
      let (client, s) := s.calloc
      { clientLogInit filename s client identifier with clientLogs := client }
    else s
  (searchClient s identifier (s.allocated + 1) (s.links s.clientLogs).next).bind fun client =>
    -- `if (!client)`: an identifier that was not found
    let (client, s) :=
      if client = 0 then
        let (client, s) := s.calloc
        let s := clientLogInit filename s client identifier
        (client, { s with links := listAddTail s.links client s.clientLogs })
      else (client, s)
    (s.entries client).map fun entry => (entry.file, s)

/-! ## §3. Messages. -/

/-- The arguments of `lz_log_from_client`. -/
structure ClientMessage where
  msg : CStr
  identifier : CStr

/-- `"%s\n"`. -/
def ClientMessage.line (m : ClientMessage) : Bytes := m.msg.chars ++ [10]

/-- `lz_log_from_client`. -/
def lzLogFromClient (filename : CStr) (s : ClientLogs) (m : ClientMessage) : Option ClientLogs :=
  (logfileForClient filename s m.identifier).map fun (clientLog, s) =>
    { s with files := Function.update s.files clientLog (s.files clientLog ++ m.line) }

/-- The logs of clients, message after message. -/
def clientLogging (filename : CStr) : Component ClientLogs ClientMessage where
  step := lzLogFromClient filename
  allowed := fun _ _ => True

end LzLib.Logging
