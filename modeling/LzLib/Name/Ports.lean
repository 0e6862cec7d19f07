/-
  LzLib.Name.Ports
  ────────────────
  **CONFIGURED PORTS.**

  `data_to_uint16` narrows what `strtol` returns, so a port is used modulo
  `2 ^ 16`: 65616 is 80.  Only what becomes 65535 stands out, for it is the mark
  of a port that is not there; the client refuses it, the server listens on the
  default port instead, and the port 65535 itself is lost to both.
-/
import LzLib.Dict.Integers
import LzLib.Name.InetDef

namespace LzLib.Name

open LzLib.Foundation
open LzLib.Dict (Data BytePtr dataFromText decimalText)
open LzLib.Socket (SaFamily defaultSocketListenPort)

variable {α : Type}

/-! ## §1. What is asked of a port. -/

/-- The numbers that are ports. -/
def IsPort (z : Int) : Prop := 1 ≤ z ∧ z ≤ 65535

instance (z : Int) : Decidable (IsPort z) := inferInstanceAs (Decidable (_ ∧ _))

/-- **The client honours `z`**: it asks for the port `z`, or refuses a number that is no port and asks for none. -/
def RemoteAddr.Honours (r : RemoteAddr α) (z : Int) : Prop :=
  if IsPort z then r.port = some z else r.ret = -1 ∧ r.port = none

/-- The server listens on the port `z`, as a number or by its decimal text. -/
def LocalAddr.UsesPort (r : LocalAddr α) (z : Int) : Prop :=
  r.addr = some (.inet6 z) ∨ r.addr = some (.inet z) ∨ r.service = some (intText z)

/-- **The server honours `z`**: it listens on the port `z`, or does not reduce a number that is no port to another one. -/
def LocalAddr.Honours (r : LocalAddr α) (z : Int) : Prop :=
  if IsPort z then r.UsesPort z else ¬ (z % 65536 ≠ z ∧ r.UsesPort (z % 65536))

/-! ## §2. The text. -/

/-- The text tells the integer. -/
theorem intText_inj {y z : Int} : intText y = intText z ↔ y = z := by
  constructor
  · intro h
    have hy : scanInt 10 (intText y ++ []) = _ := scanInt_intText (Or.inl rfl) y Dict.ended_nil
    have hz : scanInt 10 (intText z ++ []) = _ := scanInt_intText (Or.inl rfl) z Dict.ended_nil
    rw [h, hz, Option.some.injEq] at hy
    rw [← scanned_value y [], ← scanned_value z [], hy]
  · exact congrArg intText

/-- The `long` that `strtol` makes of an integer. -/
def clampLong (z : Int) : Int := if z < -2 ^ 63 then -2 ^ 63 else if 2 ^ 63 ≤ z then 2 ^ 63 - 1 else z

/-- **`data_to_uint16`** keeps the `long` modulo `2 ^ 16`. -/
theorem dataToUint16_spells {data : Data} {z : Int} (h : data.Spells z) :
    Dict.dataToUint16 (some data) = some (clampLong z % 65536) := by
  have hvalue : (strtoll 0 (intText z)).value = clampLong z := by
    rw [Dict.strtoll_text]
    unfold clampLong
    split_ifs <;> rfl
  unfold Dict.dataToUint16 Dict.readLegacy
  simp only [h.str, Option.map_some]
  show some (Dict.IntType.uint16.narrow (strtoll 0 (intText z)).value) = _
  rw [hvalue]
  rfl

/-- The integers that become the mark. -/
theorem clampLong_mark_iff {z : Int} :
    clampLong z % 65536 = 65535 ↔ 2 ^ 63 ≤ z ∨ (-2 ^ 63 ≤ z ∧ z < 2 ^ 63 ∧ z % 65536 = 65535) := by
  unfold clampLong
  by_cases hlow : z < -2 ^ 63
  · rw [if_pos hlow]
    omega
  · rw [if_neg hlow]
    by_cases hhigh : 2 ^ 63 ≤ z
    · rw [if_pos hhigh]
      omega
    · rw [if_neg hhigh]
      omega

/-- A number that is a `long` is kept. -/
theorem clampLong_eq {z : Int} (hlow : -2 ^ 63 ≤ z) (hhigh : z < 2 ^ 63) : clampLong z = z := by
  unfold clampLong
  rw [if_neg (by omega), if_neg (by omega)]

theorem clampLong_low {z : Int} (h : z < -2 ^ 63) : clampLong z % 65536 = 0 := by
  unfold clampLong
  rw [if_pos h]
  rfl

/-! ## §3. The client. -/

/-- The option `remote-host` has data. -/
def HasHost (options : Options) : Prop := ∃ data host, options "remote-host" = some data ∧ data.data = some host

/-- **Where the client honours `z`**, with a host. -/
def ClientPort (z : Int) : Prop :=
  (1 ≤ z ∧ z ≤ 65534) ∨ (z ≠ 65535 ∧ -2 ^ 63 ≤ z ∧ z < 2 ^ 63 ∧ z % 65536 = 65535) ∨ 2 ^ 63 ≤ z

section Client

variable (resolve : BytePtr → Int → SaFamily → Option α) (family : SaFamily) {options : Options}

theorem RemoteAddr.honours_refused {r : RemoteAddr α} {z : Int} (h : r.ret = -1 ∧ r.port = none) :
    r.Honours z ↔ ¬ IsPort z := by
  unfold RemoteAddr.Honours
  by_cases hz : IsPort z
  · simp [hz, h.2]
  · simp [hz, h]

theorem RemoteAddr.honours_asked {r : RemoteAddr α} {p z : Int} (h : r.port = some p) :
    r.Honours z ↔ IsPort z ∧ p = z := by
  unfold RemoteAddr.Honours
  by_cases hz : IsPort z
  · simp [hz, h]
  · simp [hz, h]

/-- Without a host nothing is asked for. -/
theorem client_noHost (h : ¬ HasHost options) :
    afInetClientGetRemoteSockaddr resolve family options = some ⟨-1, none, none⟩ := by
  unfold afInetClientGetRemoteSockaddr
  cases hdata : options "remote-host" with
  | none => rfl
  | some data =>
      cases hhost : data.data with
      | none => simp only [hhost]
      | some host => exact absurd ⟨data, host, hdata, hhost⟩ h

/-- With a host the port is refused, or asked for. -/
theorem client_host (h : HasHost options) {data : Data} {z : Int} (hport : options "remote-port" = some data)
    (hspells : data.Spells z) :
    ∃ r, afInetClientGetRemoteSockaddr resolve family options = some r
      ∧ (clampLong z % 65536 = 65535 → r.ret = -1 ∧ r.port = none)
      ∧ (clampLong z % 65536 ≠ 65535 → r.port = some (clampLong z % 65536)) := by
  obtain ⟨hostData, host, hdata, hhost⟩ := h
  unfold afInetClientGetRemoteSockaddr
  simp only [hdata, hhost, hport, dataToUint16_spells hspells, Option.map_some]
  refine ⟨_, rfl, ?_, ?_⟩
  · intro hmark
    rw [if_pos hmark]
    exact ⟨rfl, rfl⟩
  · intro hmark
    rw [if_neg hmark]
    cases resolve host (clampLong z % 65536) family with
    | none => rfl
    | some addr => rfl

/-- **The client's port.** -/
theorem client_honours_iff {data : Data} {z : Int} (hport : options "remote-port" = some data) (hspells : data.Spells z) :
    ∃ r, afInetClientGetRemoteSockaddr resolve family options = some r
      ∧ (r.Honours z ↔ (HasHost options ∧ ClientPort z) ∨ (¬ HasHost options ∧ ¬ IsPort z)) := by
  by_cases hhost : HasHost options
  · obtain ⟨r, hr, hrefused, hasked⟩ := client_host resolve family hhost hport hspells
    refine ⟨r, hr, ?_⟩
    have hsimp : ((HasHost options ∧ ClientPort z) ∨ (¬ HasHost options ∧ ¬ IsPort z)) ↔ ClientPort z := by
      simp [hhost]
    rw [hsimp]
    unfold ClientPort
    by_cases hmark : clampLong z % 65536 = 65535
    · rw [RemoteAddr.honours_refused (hrefused hmark)]
      rw [clampLong_mark_iff] at hmark
      unfold IsPort
      omega
    · rw [RemoteAddr.honours_asked (hasked hmark)]
      rw [clampLong_mark_iff] at hmark
      unfold IsPort
      constructor
      · intro h
        omega
      · intro h
        have hlong : clampLong z = z := clampLong_eq (by omega) (by omega)
        rw [hlong]
        omega
  · refine ⟨_, client_noHost resolve family hhost, ?_⟩
    rw [RemoteAddr.honours_refused ⟨rfl, rfl⟩]
    simp [hhost]

end Client

/-! ## §4. The server. -/

/-- **Where the server honours `z`.** -/
def ServerPort (z : Int) : Prop :=
  (0 ≤ z ∧ z ≤ 65534) ∨ (z ≠ 65535 ∧ -2 ^ 63 ≤ z ∧ z < 2 ^ 63 ∧ z % 65536 = 65535)
    ∨ (2 ^ 63 ≤ z ∧ z % 65536 ≠ 6996) ∨ (z < -2 ^ 63 ∧ z % 65536 ≠ 0)

/-- The port that the server listens on. -/
def listenedPort (z : Int) : Int :=
  if clampLong z % 65536 = 65535 then (defaultSocketListenPort : Int) else clampLong z % 65536

theorem listenedPort_mark {z : Int} (h : clampLong z % 65536 = 65535) : listenedPort z = 6996 := if_pos h

theorem listenedPort_low {z : Int} (h : z < -2 ^ 63) : listenedPort z = 0 := by
  unfold listenedPort
  rw [clampLong_low h]
  rfl

theorem listenedPort_long {z : Int} (hlow : -2 ^ 63 ≤ z) (hhigh : z < 2 ^ 63) (hmark : z % 65536 ≠ 65535) :
    listenedPort z = z % 65536 := by
  unfold listenedPort
  rw [clampLong_eq hlow hhigh, if_neg hmark]

theorem usesPort_inet6 (ret : Int) (p w : Int) :
    (⟨ret, none, some (.inet6 p)⟩ : LocalAddr α).UsesPort w ↔ w = p := by
  unfold LocalAddr.UsesPort
  simp [eq_comm]

theorem usesPort_inet (ret : Int) (p w : Int) :
    (⟨ret, none, some (.inet p)⟩ : LocalAddr α).UsesPort w ↔ w = p := by
  unfold LocalAddr.UsesPort
  simp [eq_comm]

/-- By the text that `getaddrinfo` is given. -/
theorem usesPort_service {r : LocalAddr α} {p : Int} (hservice : r.service = some (intText p))
    (haddr : ∀ q, r.addr ≠ some (.inet6 q) ∧ r.addr ≠ some (.inet q)) (w : Int) : r.UsesPort w ↔ w = p := by
  unfold LocalAddr.UsesPort
  rw [hservice, Option.some.injEq, intText_inj]
  simp [haddr w, eq_comm]

section Server

variable (getaddrinfo : Option BytePtr → Bytes → SaFamily → Option α) (family : SaFamily) {options : Options}

/-- The server listens on one port. -/
theorem server_usesPort {data : Data} {z : Int} (hport : options "transport.socket.listen-port" = some data)
    (hspells : data.Spells z) :
    ∃ r, afInetServerGetLocalSockaddr getaddrinfo family options = some r
      ∧ ∀ w, r.UsesPort w ↔ w = listenedPort z := by
  unfold afInetServerGetLocalSockaddr
  simp only [hport, dataToUint16_spells hspells, Option.map_some]
  refine ⟨_, rfl, ?_⟩
  intro w
  split
  · exact usesPort_inet6 0 _ w
  · exact usesPort_inet 0 _ w
  · split
    · exact usesPort_service rfl (fun q => ⟨by simp, by simp⟩) w
    · exact usesPort_service rfl (fun q => ⟨by simp, by simp⟩) w

/-- What is asked of a server with one port `q`. -/
theorem LocalAddr.honours_iff {r : LocalAddr α} {q z : Int} (huses : ∀ w, r.UsesPort w ↔ w = q) :
    r.Honours z ↔ (IsPort z ∧ z = q) ∨ (¬ IsPort z ∧ (z % 65536 = z ∨ z % 65536 ≠ q)) := by
  unfold LocalAddr.Honours
  rw [huses, huses]
  by_cases hz : IsPort z
  · simp [hz]
  · simp only [hz, if_false, false_and, not_false_eq_true, true_and, false_or]
    rw [not_and_or, not_not]

/-- **The server's port.** -/
theorem server_honours_iff {data : Data} {z : Int} (hport : options "transport.socket.listen-port" = some data)
    (hspells : data.Spells z) :
    ∃ r, afInetServerGetLocalSockaddr getaddrinfo family options = some r ∧ (r.Honours z ↔ ServerPort z) := by
  obtain ⟨r, hr, huses⟩ := server_usesPort getaddrinfo family hport hspells
  refine ⟨r, hr, ?_⟩
  rw [LocalAddr.honours_iff huses]
  unfold ServerPort IsPort
  -- below the `long`s the number becomes 0, above them the mark, between them it stays
  by_cases hlow : z < -2 ^ 63
  · rw [listenedPort_low hlow]
    omega
  · by_cases hhigh : 2 ^ 63 ≤ z
    · rw [listenedPort_mark (clampLong_mark_iff.mpr (Or.inl hhigh))]
      omega
    · by_cases hmark : z % 65536 = 65535
      · rw [listenedPort_mark (clampLong_mark_iff.mpr (Or.inr ⟨by omega, by omega, hmark⟩))]
        omega
      · rw [listenedPort_long (by omega) (by omega) hmark]
        omega

end Server

/-! ## §5. Both. -/

/-- **Configured ports.**  Let an option be the decimal text of `z`.  The client with a host honours it exactly
where `ClientPort z`, without a host where `z` is no port; the server exactly where `ServerPort z`. -/
theorem configured_ports_iff (resolve : BytePtr → Int → SaFamily → Option α)
    (getaddrinfo : Option BytePtr → Bytes → SaFamily → Option α) (family : SaFamily) (options : Options) {data : Data}
    {z : Int} (hspells : data.Spells z) :
    (options "remote-port" = some data →
      ∃ r, afInetClientGetRemoteSockaddr resolve family options = some r
        ∧ (r.Honours z ↔ (HasHost options ∧ ClientPort z) ∨ (¬ HasHost options ∧ ¬ IsPort z)))
    ∧ (options "transport.socket.listen-port" = some data →
      ∃ r, afInetServerGetLocalSockaddr getaddrinfo family options = some r ∧ (r.Honours z ↔ ServerPort z)) :=
  ⟨fun hport => client_honours_iff resolve family hport hspells,
    fun hport => server_honours_iff getaddrinfo family hport hspells⟩

/-- The options of the host `"h"` with both ports `z`. -/
def portOptions (z : Int) : Options := fun key =>
  if key = "remote-host" then Dict.strToData (some ⟨[104], by decide⟩)
  else if key = "remote-port" ∨ key = "transport.socket.listen-port" then some (dataFromText (decimalText z))
  else none

/-- The port 80 is used. -/
theorem configured_ports_eighty :
    (∃ r, afInetClientGetRemoteSockaddr (fun _ _ _ => some ()) .inet (portOptions 80) = some r ∧ r.Honours 80)
      ∧ ∃ r, afInetServerGetLocalSockaddr (fun _ _ _ => some ()) .inet (portOptions 80) = some r ∧ r.Honours 80 := by
  have hspells : (dataFromText (decimalText 80)).Spells 80 := Dict.dataFromText_spells (by decide)
  have hports := configured_ports_iff (fun _ _ _ => some ()) (fun _ _ _ => some ()) .inet (portOptions 80) hspells
  obtain ⟨r, hr, hclient⟩ := hports.1 rfl
  obtain ⟨r', hr', hserver⟩ := hports.2 rfl
  have hhost : HasHost (portOptions 80) := ⟨_, _, rfl, rfl⟩
  exact ⟨⟨r, hr, hclient.mpr (Or.inl ⟨hhost, Or.inl (by decide)⟩)⟩, ⟨r', hr', hserver.mpr (Or.inl (by decide))⟩⟩

/-- The port 65535 is refused by the client and replaced by the server; 65616 is 80 to both. -/
theorem configured_ports_lost :
    (dataFromText (decimalText 65535)).Spells 65535 ∧ (dataFromText (decimalText 65616)).Spells 65616
      ∧ (∃ r, afInetClientGetRemoteSockaddr (fun _ _ _ => some ()) .inet (portOptions 65535) = some r
        ∧ r.ret = -1 ∧ ¬ r.Honours 65535)
      ∧ (∃ r, afInetServerGetLocalSockaddr (fun _ _ _ => some ()) .inet (portOptions 65535) = some r
        ∧ r.addr = some (.inet 6996) ∧ ¬ r.Honours 65535)
      ∧ (∃ r, afInetClientGetRemoteSockaddr (fun _ _ _ => some ()) .inet (portOptions 65616) = some r
        ∧ r.port = some 80 ∧ ¬ r.Honours 65616)
      ∧ ∃ r, afInetServerGetLocalSockaddr (fun _ _ _ => some ()) .inet (portOptions 65616) = some r
        ∧ r.addr = some (.inet 80) ∧ ¬ r.Honours 65616 := by
  refine ⟨Dict.dataFromText_spells (by decide), Dict.dataFromText_spells (by decide), ?_⟩
  refine ⟨⟨⟨-1, none, none⟩, by decide +kernel, rfl, ?_⟩, ⟨⟨0, none, some (.inet 6996)⟩, by decide +kernel, rfl, ?_⟩,
    ⟨⟨0, some 80, some ()⟩, by decide +kernel, rfl, ?_⟩, ⟨⟨0, none, some (.inet 80)⟩, by decide +kernel, rfl, ?_⟩⟩
  · unfold RemoteAddr.Honours
    rw [if_pos (by decide)]
    decide
  · unfold LocalAddr.Honours LocalAddr.UsesPort
    rw [if_pos (by decide)]
    decide
  · unfold RemoteAddr.Honours
    rw [if_neg (by decide)]
    decide
  · unfold LocalAddr.Honours LocalAddr.UsesPort
    rw [if_neg (by decide)]
    decide

end LzLib.Name
