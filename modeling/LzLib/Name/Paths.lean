/-
  LzLib.Name.Paths
  ────────────────
  **THE PATHS OF UNIX SOCKETS.**

  All three functions refuse a path of more than `UNIX_PATH_MAX` characters, and
  `sun_path` has `UNIX_PATH_MAX` bytes: a path of exactly 108 characters is copied,
  and its NUL is written behind `sun_path`.  `identifier` has `UNIX_PATH_MAX`
  bytes as well and comes last in its record, so the second copy leaves the record.
-/
import LzLib.Name.UnixDef

namespace LzLib.Name

open LzLib.Foundation
open LzLib.Dict (Data BytePtr)
open LzLib.Socket (unixPathMax)

/-! ## §1. What is asked of a path. -/

/-- The option has the string `path`. -/
def HasPath (options : Options) (key : String) (path : CStr) : Prop :=
  ∃ data, options key = some data ∧ dataToStr data = some (some path)

/-- The path is reported and not copied. -/
def PathCall.Reported (r : PathCall) : Prop := r.report.isSome ∧ r.addr.written = []

/-- The path and its NUL are in `sun_path`, and no byte behind `sun_path` was written. -/
def PathCall.Copied (r : PathCall) (path : CStr) : Prop :=
  r.addr.bytes.bytesAt sunPath (path.strlen + 1) = path.chars ++ [0]
    ∧ ∀ a ∈ r.addr.written, a < sunPath + unixPathMax

/-- The identifier that is built from the address of the record is inside `identifier`. -/
def IdentifierFits (info : Memory) : Prop :=
  ∃ info', fillUnixIdentifier ⟨info, []⟩ = some info'
    ∧ ∀ a ∈ info'.written, identifierAt ≤ a ∧ a < identifierAt + unixPathMax

/-- **The path fits**: it is reported, or it is copied inside `sun_path`, and its identifier fits. -/
def PathCall.Fits (r : PathCall) (path : CStr) (info : Memory) : Prop :=
  r.Reported ∨ (r.Copied path ∧ IdentifierFits info)

/-- The record that takes the address over. -/
def PathCall.record (r : PathCall) (info : Memory) : Memory :=
  (takeSockaddr ⟨info, []⟩ r.addr.bytes (r.sockaddrLen.getD 0)).bytes

/-! ## §2. Identifiers. -/

/-- **`get_transport_identifiers` on two unix addresses** stays inside both identifiers
exactly when each address fits its own record. -/
theorem unix_identifiers_fit_iff (fill : Written → Int × Written) {myinfo : Memory} (peerinfo : Memory)
    (h : saFamily myinfo = afUnix) :
    (∃ mine peers, getTransportIdentifiers fill ⟨myinfo, []⟩ ⟨peerinfo, []⟩ = some (0, mine, peers)
        ∧ (∀ a ∈ mine.written, identifierAt ≤ a ∧ a < identifierAt + unixPathMax)
        ∧ ∀ a ∈ peers.written, identifierAt ≤ a ∧ a < identifierAt + unixPathMax)
      ↔ IdentifierFits myinfo ∧ IdentifierFits peerinfo := by
  have hcall : getTransportIdentifiers fill ⟨myinfo, []⟩ ⟨peerinfo, []⟩
      = (fillUnixIdentifier ⟨myinfo, []⟩).bind fun mine =>
          (fillUnixIdentifier ⟨peerinfo, []⟩).map fun peers => (0, mine, peers) := by
    unfold getTransportIdentifiers
    rw [h]
    rfl
  rw [hcall]
  unfold IdentifierFits
  constructor
  · rintro ⟨mine, peers, hfill, hmine, hpeers⟩
    obtain ⟨_, hfill₁, hrest⟩ := Option.bind_eq_some_iff.mp hfill
    obtain ⟨_, hfill₂, heq⟩ := Option.map_eq_some_iff.mp hrest
    cases heq
    exact ⟨⟨mine, hfill₁, hmine⟩, peers, hfill₂, hpeers⟩
  · rintro ⟨⟨mine, hfill₁, hmine⟩, peers, hfill₂, hpeers⟩
    refine ⟨mine, peers, ?_, hmine, hpeers⟩
    rw [hfill₁, hfill₂]
    rfl

/-- A path with room for its NUL is an identifier with room for its NUL. -/
theorem identifier_fits {info : Memory} {path : CStr} (hlt : path.strlen < unixPathMax)
    (h : info.bytesAt sunPath (path.strlen + 1) = path.chars ++ [0]) : IdentifierFits info := by
  have hroom : path.strlen < sizeofStorage - sunPath := by
    unfold unixPathMax at hlt
    unfold sizeofStorage sunPath
    omega
  refine ⟨(Written.mk info []).strcpy identifierAt path, ?_, ?_⟩
  · unfold fillUnixIdentifier
    rw [Memory.strAt_eq hroom h]
    rfl
  · exact (Written.strcpy_inside_iff ⟨info, []⟩ identifierAt path unixPathMax).mpr hlt

/-- A `sun_path` without NUL makes an identifier that leaves its record. -/
theorem identifier_overruns {info : Memory} {path : CStr} (hlen : path.strlen = unixPathMax)
    (h : info.bytesAt sunPath path.strlen = path.chars) : ¬ IdentifierFits info := by
  rintro ⟨info', hfill, hinside⟩
  unfold fillUnixIdentifier at hfill
  obtain ⟨t, ht, rfl⟩ := Option.map_eq_some_iff.mp hfill
  have hroom : path.strlen ≤ sizeofStorage - sunPath := by
    rw [hlen]
    decide
  -- whatever ends the string, it is not in the first 108 bytes
  have hlong := Memory.length_le_of_strAt hroom h ht
  have hshort := (Written.strcpy_inside_iff ⟨info, []⟩ identifierAt t unixPathMax).mp hinside
  omega

/-! ## §3. Copies. -/

section Copies

variable {r : PathCall} {path : CStr} {s : Written} {info : Memory} (haddr : r.addr = s.strcpy sunPath path)
include haddr

theorem mem_written_of_copy {a : Nat} :
    a ∈ r.addr.written ↔ a ∈ s.written ∨ (sunPath ≤ a ∧ a ≤ sunPath + path.strlen) := by
  rw [haddr, Written.mem_strcpy]

/-- A path of `UNIX_PATH_MAX` characters is neither reported nor copied inside `sun_path`. -/
theorem not_copied_of_copy (hlen : path.strlen = unixPathMax) : ¬ r.Reported ∧ ¬ r.Copied path := by
  constructor
  · intro hreported
    have hfirst := (mem_written_of_copy haddr (a := sunPath)).mpr (Or.inr ⟨Nat.le_refl _, Nat.le_add_right _ _⟩)
    rw [hreported.2] at hfirst
    cases hfirst
  · intro hcopied
    have hlast := (mem_written_of_copy haddr).mpr (Or.inr ⟨Nat.le_add_right sunPath path.strlen, Nat.le_refl _⟩)
    have hbound := hcopied.2 _ hlast
    omega

/-- **One copy of a path.**  Before it no byte from `sun_path` on was written. -/
theorem fits_iff_of_copy (hfresh : ∀ a ∈ s.written, a < sunPath) (hle : path.strlen ≤ unixPathMax)
    (hinfo : path.strlen < unixPathMax → info.bytesAt sunPath (path.strlen + 1) = path.chars ++ [0]) :
    r.Fits path info ↔ path.strlen ≠ unixPathMax := by
  constructor
  · intro hfits hlen
    have hnot := not_copied_of_copy haddr hlen
    rcases hfits with hreported | hcopied
    · exact hnot.1 hreported
    · exact hnot.2 hcopied.1
  · intro hne
    have hlt : path.strlen < unixPathMax := by omega
    refine Or.inr ⟨⟨?_, ?_⟩, identifier_fits hlt (hinfo hlt)⟩
    · rw [haddr]
      exact Written.bytesAt_strcpy s sunPath path
    · intro a ha
      rcases (mem_written_of_copy haddr).mp ha with hold | hnew
      · have hbefore := hfresh a hold
        omega
      · omega

/-- The first `n` characters of the path, or its NUL too, are in the record that takes over the address. -/
theorem record_holds (hsize : r.sockaddrLen = some sizeofSockaddrUn) (info : Memory) {n : Nat}
    (hn : n ≤ path.strlen + 1) (hmax : n ≤ unixPathMax) :
    (r.record info).bytesAt sunPath n = (path.chars ++ [0]).take n := by
  have hroom : sunPath + n ≤ sizeofSockaddrUn := by
    unfold unixPathMax at hmax
    unfold sunPath sizeofSockaddrUn
    omega
  have hpart := Written.bytesAt_copy_part ⟨info, []⟩ 0 (r.addr.bytes.bytesAt 0 sizeofSockaddrUn)
    (show sunPath + n ≤ _ by rw [Memory.length_bytesAt]; exact hroom)
  have hpath : (r.addr.bytes.bytesAt sunPath (path.strlen + 1)).take n = r.addr.bytes.bytesAt sunPath n :=
    Memory.bytesAt_part r.addr.bytes sunPath (show 0 + n ≤ path.strlen + 1 by omega)
  rw [Nat.zero_add] at hpart
  unfold PathCall.record takeSockaddr
  rw [hsize, Option.getD_some, hpart, Memory.bytesAt_part _ 0 hroom, Nat.zero_add, ← hpath, haddr,
    Written.bytesAt_strcpy s sunPath path]

/-- The record takes over a path and its NUL. -/
theorem record_holds_path (hsize : r.sockaddrLen = some sizeofSockaddrUn) (info : Memory) (hlt : path.strlen < unixPathMax) :
    (r.record info).bytesAt sunPath (path.strlen + 1) = path.chars ++ [0] := by
  rw [record_holds haddr hsize info (Nat.le_refl _) hlt]
  apply List.take_of_length_le
  rw [List.length_append, List.length_singleton]
  exact Nat.le_refl _

/-- Of a path of `UNIX_PATH_MAX` characters the record takes over no NUL. -/
theorem record_overruns (hsize : r.sockaddrLen = some sizeofSockaddrUn) (info : Memory)
    (hlen : path.strlen = unixPathMax) : ¬ IdentifierFits (r.record info) := by
  apply identifier_overruns hlen
  rw [record_holds haddr hsize info (Nat.le_succ _) (Nat.le_of_eq hlen)]
  exact List.take_left' rfl

end Copies

/-- No byte was written yet. -/
theorem fresh_written (m : Memory) : ∀ a ∈ (Written.mk m []).written, a < sunPath := by
  intro a ha
  cases ha

/-- Only the family was written. -/
theorem fresh_setFamily (m : Memory) (family : Nat) : ∀ a ∈ (setFamily ⟨m, []⟩ family).written, a < sunPath := by
  intro a ha
  unfold setFamily at ha
  rcases (Written.mem_copy _ _ _ _).mp ha with hold | hnew
  · cases hold
  · have hlt : a < 0 + 2 := hnew.2
    show a < 2
    omega

/-! ## §4. The three functions. -/

section Functions

variable {options : Options} {path : CStr} (m info : Memory)

theorem afUnixClientBind_spec (bind : Memory → Bool) (h : HasPath options "transport.socket.bind-path" path) :
    ∃ r, afUnixClientBind bind options ⟨m, []⟩ = some r ∧ (path.strlen > unixPathMax → r.Reported)
      ∧ (path.strlen ≤ unixPathMax → r.addr = (Written.mk m []).strcpy sunPath path) := by
  obtain ⟨data, hdata, hstr⟩ := h
  unfold afUnixClientBind
  simp only [hdata, hstr, Option.map_some]
  refine ⟨_, rfl, ?_, ?_⟩
  · intro hlong
    rw [if_pos hlong]
    exact ⟨rfl, rfl⟩
  · intro hle
    rw [if_neg (by omega)]
    -- the answer of `bind` decides the status and the message, not the address
    split <;> rfl

theorem afUnixClientGetRemoteSockaddr_spec (h : HasPath options "transport.socket.connect-path" path) :
    ∃ r, afUnixClientGetRemoteSockaddr options ⟨m, []⟩ = some r ∧ (path.strlen > unixPathMax → r.Reported)
      ∧ (path.strlen ≤ unixPathMax →
          r.addr = (Written.mk m []).strcpy sunPath path ∧ r.sockaddrLen = some sizeofSockaddrUn) := by
  obtain ⟨data, hdata, hstr⟩ := h
  unfold afUnixClientGetRemoteSockaddr
  simp only [hdata, hstr, Option.map_some]
  refine ⟨_, rfl, ?_, ?_⟩
  · intro hlong
    rw [if_pos hlong]
    exact ⟨rfl, rfl⟩
  · intro hle
    rw [if_neg (by omega)]
    exact ⟨rfl, rfl⟩

theorem afUnixServerGetLocalSockaddr_spec (h : HasPath options "transport.socket.listen-path" path) :
    ∃ r, afUnixServerGetLocalSockaddr options ⟨m, []⟩ = some r ∧ (path.strlen > unixPathMax → r.Reported)
      ∧ (path.strlen ≤ unixPathMax →
          r.addr = (setFamily ⟨m, []⟩ afUnix).strcpy sunPath path ∧ r.sockaddrLen = some sizeofSockaddrUn) := by
  obtain ⟨data, hdata, hstr⟩ := h
  unfold afUnixServerGetLocalSockaddr
  simp only [hdata, hstr, Option.bind_some, Option.map_some]
  refine ⟨_, rfl, ?_, ?_⟩
  · intro hlong
    rw [if_pos hlong]
    exact ⟨rfl, rfl⟩
  · intro hle
    rw [if_neg (by omega)]
    exact ⟨rfl, rfl⟩

theorem bind_path_fits_iff (bind : Memory → Bool) (h : HasPath options "transport.socket.bind-path" path) :
    ∃ r, afUnixClientBind bind options ⟨m, []⟩ = some r ∧ (r.Fits path r.addr.bytes ↔ path.strlen ≠ unixPathMax) := by
  obtain ⟨r, hr, hreported, hcopied⟩ := afUnixClientBind_spec m bind h
  refine ⟨r, hr, ?_⟩
  by_cases hlong : path.strlen > unixPathMax
  · exact iff_of_true (Or.inl (hreported hlong)) (by omega)
  · have haddr := hcopied (by omega)
    apply fits_iff_of_copy haddr (fresh_written m) (by omega)
    intro _
    rw [haddr]
    exact Written.bytesAt_strcpy _ sunPath path

theorem connect_path_fits_iff (h : HasPath options "transport.socket.connect-path" path) :
    ∃ r, afUnixClientGetRemoteSockaddr options ⟨m, []⟩ = some r
      ∧ (r.Fits path (r.record info) ↔ path.strlen ≠ unixPathMax) := by
  obtain ⟨r, hr, hreported, hcopied⟩ := afUnixClientGetRemoteSockaddr_spec m h
  refine ⟨r, hr, ?_⟩
  by_cases hlong : path.strlen > unixPathMax
  · exact iff_of_true (Or.inl (hreported hlong)) (by omega)
  · have haddr := hcopied (by omega)
    exact fits_iff_of_copy haddr.1 (fresh_written m) (by omega) (record_holds_path haddr.1 haddr.2 info)

theorem listen_path_fits_iff (h : HasPath options "transport.socket.listen-path" path) :
    ∃ r, afUnixServerGetLocalSockaddr options ⟨m, []⟩ = some r
      ∧ (r.Fits path (r.record info) ↔ path.strlen ≠ unixPathMax) := by
  obtain ⟨r, hr, hreported, hcopied⟩ := afUnixServerGetLocalSockaddr_spec m h
  refine ⟨r, hr, ?_⟩
  by_cases hlong : path.strlen > unixPathMax
  · exact iff_of_true (Or.inl (hreported hlong)) (by omega)
  · have haddr := hcopied (by omega)
    exact fits_iff_of_copy haddr.1 (fresh_setFamily m afUnix) (by omega) (record_holds_path haddr.1 haddr.2 info)

end Functions

/-- **The paths of Unix sockets.**  Let an option be the string `path`, and the memory hold anything.  Each function
reports the path or copies it with its NUL inside `sun_path`, and its identifier fits, exactly where the path has not
`UNIX_PATH_MAX` characters. -/
theorem unix_paths_fit_iff (bind : Memory → Bool) (options : Options) (path : CStr) (m info : Memory) :
    (HasPath options "transport.socket.bind-path" path →
      ∃ r, afUnixClientBind bind options ⟨m, []⟩ = some r ∧ (r.Fits path r.addr.bytes ↔ path.strlen ≠ unixPathMax))
    ∧ (HasPath options "transport.socket.connect-path" path →
      ∃ r, afUnixClientGetRemoteSockaddr options ⟨m, []⟩ = some r
        ∧ (r.Fits path (r.record info) ↔ path.strlen ≠ unixPathMax))
    ∧ (HasPath options "transport.socket.listen-path" path →
      ∃ r, afUnixServerGetLocalSockaddr options ⟨m, []⟩ = some r
        ∧ (r.Fits path (r.record info) ↔ path.strlen ≠ unixPathMax)) :=
  ⟨bind_path_fits_iff m bind, connect_path_fits_iff m info, listen_path_fits_iff m info⟩

/-- The path of `n` characters `"a"`. -/
def pathOf (n : Nat) : CStr where
  chars := List.replicate n 97
  nulFree := by
    intro hmem
    exact absurd (List.eq_of_mem_replicate hmem) (by decide)

/-- Every option is the path of `n` characters. -/
def pathOptions (n : Nat) : Options := fun _ => Dict.strToData (some (pathOf n))

theorem hasPath_pathOptions (n : Nat) (key : String) : HasPath (pathOptions n) key (pathOf n) := by
  refine ⟨_, rfl, ?_⟩
  show (CStr.scan ((pathOf n).chars ++ [0])).map some = _
  rw [CStr.scan_chars]
  rfl

theorem strlen_pathOf (n : Nat) : (pathOf n).strlen = n := List.length_replicate

/-- A path of one character fits. -/
theorem unix_paths_fit_short :
    (∃ r, afUnixClientBind (fun _ => true) (pathOptions 1) ⟨fun _ => 0, []⟩ = some r ∧ r.Fits (pathOf 1) r.addr.bytes)
      ∧ (∃ r, afUnixClientGetRemoteSockaddr (pathOptions 1) ⟨fun _ => 0, []⟩ = some r
          ∧ r.Fits (pathOf 1) (r.record fun _ => 0))
      ∧ ∃ r, afUnixServerGetLocalSockaddr (pathOptions 1) ⟨fun _ => 0, []⟩ = some r
          ∧ r.Fits (pathOf 1) (r.record fun _ => 0) := by
  have hpaths := unix_paths_fit_iff (fun _ => true) (pathOptions 1) (pathOf 1) (fun _ => 0) (fun _ => 0)
  have hne : (pathOf 1).strlen ≠ unixPathMax := by decide
  obtain ⟨r₁, h₁, hbind⟩ := hpaths.1 (hasPath_pathOptions 1 _)
  obtain ⟨r₂, h₂, hconnect⟩ := hpaths.2.1 (hasPath_pathOptions 1 _)
  obtain ⟨r₃, h₃, hlisten⟩ := hpaths.2.2 (hasPath_pathOptions 1 _)
  exact ⟨⟨r₁, h₁, hbind.mpr hne⟩, ⟨r₂, h₂, hconnect.mpr hne⟩, ⟨r₃, h₃, hlisten.mpr hne⟩⟩

/-- The path of 108 characters: no function reports it, none copies it inside `sun_path`, and the identifier that
is built from it leaves `identifier`. -/
theorem unix_paths_overrun :
    (∃ r, afUnixClientBind (fun _ => true) (pathOptions 108) ⟨fun _ => 0, []⟩ = some r
        ∧ ¬ r.Reported ∧ ¬ r.Copied (pathOf 108) ∧ ¬ IdentifierFits r.addr.bytes)
      ∧ (∃ r, afUnixClientGetRemoteSockaddr (pathOptions 108) ⟨fun _ => 0, []⟩ = some r
          ∧ ¬ r.Reported ∧ ¬ r.Copied (pathOf 108) ∧ ¬ IdentifierFits (r.record fun _ => 0))
      ∧ ∃ r, afUnixServerGetLocalSockaddr (pathOptions 108) ⟨fun _ => 0, []⟩ = some r
          ∧ ¬ r.Reported ∧ ¬ r.Copied (pathOf 108) ∧ ¬ IdentifierFits (r.record fun _ => 0) := by
  have hlen : (pathOf 108).strlen = unixPathMax := strlen_pathOf 108
  refine ⟨?_, ?_, ?_⟩
  · obtain ⟨r, hr, -, hcopied⟩ := afUnixClientBind_spec (fun _ => 0) (fun _ => true) (hasPath_pathOptions 108 _)
    have haddr := hcopied (Nat.le_of_eq hlen)
    have hnot := not_copied_of_copy haddr hlen
    refine ⟨r, hr, hnot.1, hnot.2, identifier_overruns hlen ?_⟩
    have hpath := Memory.bytesAt_part r.addr.bytes sunPath (show 0 + 108 ≤ (pathOf 108).strlen + 1 by rw [hlen]; decide)
    rw [haddr, Written.bytesAt_strcpy] at hpath
    rw [haddr]
    exact hpath.symm
  · obtain ⟨r, hr, -, hcopied⟩ := afUnixClientGetRemoteSockaddr_spec (fun _ => 0) (hasPath_pathOptions 108 _)
    have haddr := hcopied (Nat.le_of_eq hlen)
    have hnot := not_copied_of_copy haddr.1 hlen
    exact ⟨r, hr, hnot.1, hnot.2, record_overruns haddr.1 haddr.2 _ hlen⟩
  · obtain ⟨r, hr, -, hcopied⟩ := afUnixServerGetLocalSockaddr_spec (fun _ => 0) (hasPath_pathOptions 108 _)
    have haddr := hcopied (Nat.le_of_eq hlen)
    have hnot := not_copied_of_copy haddr.1 hlen
    exact ⟨r, hr, hnot.1, hnot.2, record_overruns haddr.1 haddr.2 _ hlen⟩

/-! ## §5. The way through. -/

/-- The option is absent, or it is a path of the length of the string. -/
def SameOption (options : Options) (strings : Socket.Options) (key : String) : Prop :=
  (options key = none ∧ assocGet strings key = none) ∨
    ∃ path str, HasPath options key path ∧ assocGet strings key = some str ∧ str.utf8ByteSize = path.strlen

/-- **The statuses** are those of the functions that know the options as strings. -/
theorem unix_path_statuses {options : Options} {strings : Socket.Options} (m : Memory) (answer : Bool)
    (h : ∀ key, SameOption options strings key) :
    (afUnixClientGetRemoteSockaddr options ⟨m, []⟩).map PathCall.ret
        = some (Socket.afUnixClientGetRemoteSockaddr strings).1 ∧
      (afUnixServerGetLocalSockaddr options ⟨m, []⟩).map PathCall.ret
        = some (Socket.afUnixServerGetLocalSockaddr strings).1 ∧
      (afUnixClientBind (fun _ => answer) options ⟨m, []⟩).map PathCall.ret
        = some (Socket.afUnixClientBind strings fun _ => answer) := by
  refine ⟨?connect, ?listen, ?bind⟩
  case connect =>
    unfold afUnixClientGetRemoteSockaddr Socket.afUnixClientGetRemoteSockaddr
    rcases h "transport.socket.connect-path" with ⟨hnone, hnone'⟩ | ⟨path, str, ⟨data, hdata, hpath⟩, hstr, hsize⟩
    · simp only [hnone, hnone', Option.map_some]
    · simp only [hdata, hpath, hstr, hsize, Option.map_some]
      split <;> rfl
  case listen =>
    unfold afUnixServerGetLocalSockaddr Socket.afUnixServerGetLocalSockaddr
    rcases h "transport.socket.listen-path" with ⟨hnone, hnone'⟩ | ⟨path, str, ⟨data, hdata, hpath⟩, hstr, hsize⟩
    · simp only [hnone, hnone', Option.map_some]
    · simp only [hdata, hpath, hstr, hsize, Option.bind_some, Option.map_some]
      split <;> rfl
  case bind =>
    unfold afUnixClientBind Socket.afUnixClientBind
    rcases h "transport.socket.bind-path" with ⟨hnone, hnone'⟩ | ⟨path, str, ⟨data, hdata, hpath⟩, hstr, hsize⟩
    · simp only [hnone, hnone', Option.map_some]
    · simp only [hdata, hpath, hstr, hsize, Option.map_some]
      split
      · rfl
      · cases answer <;> rfl

end LzLib.Name
