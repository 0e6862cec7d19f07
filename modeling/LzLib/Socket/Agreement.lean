/-
  LzLib.Socket.Agreement
  ──────────────────────
  **SENDER AND RECEIVER ON THE SAME HEADER.**

  `__socket_ioq_new` announces the lengths it is given, whatever they are;
  `__socket_proto_validate_header` accepts some lengths only.  The header of
  a submitted message passes, and announces what was submitted, exactly when
  the message keeps to the receiver's bounds.
-/
import LzLib.Socket.Delivery
import LzLib.Socket.Submit

namespace LzLib.Socket

open LzLib.Foundation
open LzLib.Event

/-! ## §1. Headers with any lengths. -/

/-- The bounds of the receiver. -/
def WithinBounds (len : Int) (total : Nat) : Prop := 0 < len ∧ len ≤ maxSize1 ∧ total ≤ maxSize2

/-- The header that passes validation as what it announces keeps to the
bounds. -/
theorem validateHeader_bounds {len : Int} {size1 total : Nat} (hlen : (size1 : Int) = len)
    (h : validateHeader (socketHeader len total) = some (size1, total)) : WithinBounds len total := by
  obtain ⟨-, hpos, h1, h2⟩ := validateHeader_eq h
  unfold WithinBounds
  omega

/-- **A header agrees with the lengths it was built from exactly within the
bounds**, for every `int` length and every payload. -/
theorem header_agrees_iff (len : Int) (total : Nat) :
    (∃ size1 : Nat, (size1 : Int) = len ∧
      validateHeader (socketHeader len total) = some (size1, total)) ↔ WithinBounds len total := by
  constructor
  · rintro ⟨size1, hlen, h⟩
    exact validateHeader_bounds hlen h
  · rintro ⟨hpos, h1, h2⟩
    obtain ⟨size1, rfl⟩ := Int.eq_ofNat_of_zero_le (Int.le_of_lt hpos)
    exact ⟨size1, rfl, validateHeader_socketHeader (by omega) (by omega) h2⟩

/-! ## §2. Accepted submissions. -/

/-- The first twelve bytes of a frame. -/
theorem take_frame (m : Message) :
    m.frame.take 12 = socketHeader m.buf.length (iovLength m.vector) := by
  rw [Message.frame, List.append_assoc]
  exact List.take_left' (socketHeader_length _ _)

/-- A submission that returns 0 has put its frame on the stream. -/
theorem socketSubmit_accepted {t t' : Transport} {m : Message} {script : List WriteEvent}
    {room refused : Bool} (h : socketSubmit t m script room refused = some (t', 0)) :
    t.connected = 1 ∧ t'.sent ++ unsent t'.ioq = t.sent ++ unsent t.ioq ++ m.frame := by
  have hcases := socketSubmit_cases h
  exact ⟨hcases.connected rfl, hcases.stream⟩

/-- On a connected transport a submission returns 0, whatever its lengths. -/
theorem socketSubmit_accepts {t : Transport} (hconn : t.connected = 1)
    (hlive : t.pool.regNull = false) {m : Message} (hcount : m.vector.length ≤ maxIovec - 2) :
    ∃ t', socketSubmit t m [] true false = some (t', 0) := by
  obtain ⟨r, hr⟩ := socketSubmit_returns (fun _ => hlive) hcount [] true false
  refine ⟨r.1, ?_⟩
  rw [hr]
  cases socketSubmit_cases hr with
  | refuses hwhy =>
      rcases hwhy with hnot | hroom
      · exact absurd hconn hnot
      · cases hroom
  | behind hconn hq => rfl
  | written D hentry =>
      have houtcome := (ioqChurnEntry_churns (ioqNew_sound m) D.churned).outcome
      rw [hentry] at houtcome
      rw [houtcome.1]
  | waits D hentry hret hsel => rfl
  | stuck D hentry hret => rfl

/-- **Agreement on accepted messages**: what a submission that returns 0 puts
on the stream starts with a header, and the peer accepts this header as the
lengths submitted if and only if these are within its bounds.  A negative
`len` is never announced as itself. -/
theorem submit_agreement {t t' : Transport} {m : Message} {script : List WriteEvent}
    {room refused : Bool} (h : socketSubmit t m script room refused = some (t', 0)) :
    t'.sent ++ unsent t'.ioq = t.sent ++ unsent t.ioq ++ m.frame ∧
      (validateHeader (m.frame.take 12) = some (m.buf.length, iovLength m.vector) ↔
        WithinBounds m.buf.length (iovLength m.vector)) ∧
      ∀ len : Int, (∃ size1 : Nat, (size1 : Int) = len ∧
        validateHeader (socketHeader len (iovLength m.vector)) = some (size1, iovLength m.vector)) ↔
          WithinBounds len (iovLength m.vector) := by
  refine ⟨(socketSubmit_accepted h).2, ?_, fun len => header_agrees_iff len _⟩
  rw [take_frame]
  constructor
  · exact validateHeader_bounds rfl
  · rintro ⟨hpos, h1, h2⟩
    exact validateHeader_socketHeader (by omega) (by omega) h2

/-- A message whose payload is one byte too long. -/
def oversized : Message := ⟨20, [7], [List.replicate 131073 0], none⟩

theorem oversized_total : iovLength oversized.vector = 131073 := by
  simp only [oversized, iovLength, List.map_cons, List.map_nil, List.length_replicate, List.sum_cons,
    List.sum_nil, Nat.add_zero]

theorem submit_agreement_onlyHeader :
    ∃ t', socketSubmit acceptedFive onlyHeader [.take 100] true false = some (t', 0) ∧
      validateHeader (onlyHeader.frame.take 12)
        = some (onlyHeader.buf.length, iovLength onlyHeader.vector) := by
  have hruns : (socketSubmit acceptedFive onlyHeader [.take 100] true false).map Prod.snd = some 0 := by
    decide +kernel
  obtain ⟨⟨t', ret⟩, ht', rfl⟩ := Option.map_eq_some_iff.mp hruns
  exact ⟨t', ht', (submit_agreement ht').2.1.mpr (by unfold WithinBounds; decide)⟩

/-- The accepted message that makes the peer drop the connection. -/
theorem oversized_rejected :
    ∃ t', socketSubmit acceptedFive oversized [] true false = some (t', 0) ∧
      t'.sent ++ unsent t'.ioq = oversized.frame ∧
      validateHeader (oversized.frame.take 12) = none := by
  have hcount : oversized.vector.length ≤ maxIovec - 2 := by decide
  obtain ⟨t', ht'⟩ := socketSubmit_accepts (t := acceptedFive) rfl rfl hcount
  refine ⟨t', ht', (socketSubmit_accepted ht').2, ?_⟩
  rw [take_frame, oversized_total]
  decide

end LzLib.Socket
