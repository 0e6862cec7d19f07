/-
  LzLib.Dict.VectorForm
  ─────────────────────
  **THE OLD FORMAT IN A VECTOR AND IN A BUFFER.**

  The four loops of the old format see the same thing: the list of a dict's
  pairs with what their values point to (`Threads`).  Of this list the two
  lengths are sums, `dict_to_iovec` fills one block of entries for each pair,
  and `dict_serialize_old` writes the bytes that the entries denote.

  The entries are counted by an `int32_t`, and a value may have any number of
  empty pieces: `vector_form_iff`.
-/
import LzLib.Dict.OldFormatDef
import LzLib.Dict.RoundTrip
import Mathlib.Algebra.Order.BigOperators.Group.List

namespace LzLib.Dict

open LzLib.Foundation

/-! ## §1. The pairs of a dict. -/

/-- The members from `pair` on, with what their values point to. -/
def walkCells (pairs : Heap Pair) (h : DataHeap) : Nat → Addr → Option (List (CStr × Data))
  | 0, pair => if pair = 0 then some [] else none
  | fuel + 1, pair =>
      if pair = 0 then some []
      else do
        let p ← pairs pair
        let value ← derefData h p.value
        let cs ← walkCells pairs h fuel p.next
        return (p.key, value) :: cs

/-- **The pairs of a dict.** -/
def cells (this : Dict) (h : DataHeap) : Option (List (CStr × Data)) :=
  walkCells this.pairs h this.brk this.membersList

/-- The members from `pair` on are `cs`. -/
inductive Threads (pairs : Heap Pair) (h : DataHeap) : Addr → List (CStr × Data) → Prop
  | nil : Threads pairs h 0 []
  | cons {pair : Addr} {p : Pair} {value : Data} {cs : List (CStr × Data)} (hpair : pair ≠ 0)
      (hp : pairs pair = some p) (hvalue : derefData h p.value = some value) (rest : Threads pairs h p.next cs) :
      Threads pairs h pair ((p.key, value) :: cs)

theorem walkCells_threads {pairs : Heap Pair} {h : DataHeap} : ∀ {fuel : Nat} {pair : Addr}
    {cs : List (CStr × Data)}, walkCells pairs h fuel pair = some cs → Threads pairs h pair cs ∧ cs.length ≤ fuel := by
  intro fuel
  induction fuel with
  | zero =>
      intro pair cs hw
      unfold walkCells at hw
      split at hw
      next hpair =>
        cases hw
        exact ⟨hpair ▸ Threads.nil, Nat.le_refl 0⟩
      next => cases hw
  | succ fuel ih =>
      intro pair cs hw
      unfold walkCells at hw
      split at hw
      next hpair =>
        cases hw
        exact ⟨hpair ▸ Threads.nil, Nat.zero_le _⟩
      next hpair =>
        obtain ⟨p, hp, hw⟩ := Option.bind_eq_some_iff.mp hw
        obtain ⟨value, hvalue, hw⟩ := Option.bind_eq_some_iff.mp hw
        obtain ⟨rest, hrest, hw⟩ := Option.bind_eq_some_iff.mp hw
        cases hw
        obtain ⟨T, hlen⟩ := ih hrest
        exact ⟨Threads.cons hpair hp hvalue T, Nat.succ_le_succ hlen⟩

/-- A member whose value is live is a pair. -/
theorem walkMembers_cells {pairs : Heap Pair} {h : DataHeap} : ∀ {fuel : Nat} {pair : Addr}
    {es : List (CStr × Addr)}, walkMembers pairs fuel pair = some es → (∀ e ∈ es, derefData h e.2 ≠ none) →
    ∃ cs, walkCells pairs h fuel pair = some cs ∧
      cs.map (fun e => (e.1, some e.2)) = es.map fun e => (e.1, derefData h e.2) := by
  intro fuel
  induction fuel with
  | zero =>
      intro pair es hw _
      unfold walkMembers at hw
      split at hw
      next hpair =>
        cases hw
        exact ⟨[], if_pos hpair, rfl⟩
      next => cases hw
  | succ fuel ih =>
      intro pair es hw hlive
      unfold walkMembers at hw
      split at hw
      next hpair =>
        cases hw
        exact ⟨[], if_pos hpair, rfl⟩
      next hpair =>
        split at hw
        next => cases hw
        next p hp =>
          -- the walk goes on with the value behind the pair
          obtain ⟨es', hes', rfl⟩ := Option.map_eq_some_iff.mp hw
          obtain ⟨value, hvalue⟩ := Option.ne_none_iff_exists'.mp (hlive _ List.mem_cons_self)
          obtain ⟨cs, hcs, hmap⟩ := ih hes' fun e he => hlive e (List.mem_cons_of_mem _ he)
          refine ⟨(p.key, value) :: cs, ?_, ?_⟩
          · unfold walkCells
            rw [if_neg hpair, hp]
            show (derefData h p.value >>= fun value => walkCells pairs h fuel p.next >>= fun cs =>
              some ((p.key, value) :: cs)) = _
            rw [hvalue, hcs]
            rfl
          · rw [List.map_cons, List.map_cons, hmap, hvalue]

/-- **A dict that holds entries has their pairs**, up to the reference counts. -/
theorem Holds.cells {d : Dict} {h : DataHeap} {es : List Entry} (H : Holds d h es) :
    ∃ cs, d.cells h = some cs ∧ cs.map (fun e => (e.1, some { e.2 with refcount := 0 })) = es.map fun e => (e.1, e.2.2) := by
  obtain ⟨as, R, rfl⟩ := H
  obtain ⟨ms, ch, S, rfl⟩ := R.shape
  have hderef : ∀ e ∈ d.entries ms, derefData h e.2 = h.cells e.2 ∧ h.cells e.2 ≠ none := by
    intro e he
    have hlive := R.counted.live e.2 (List.mem_map_of_mem he)
    obtain ⟨c, hc⟩ := Option.ne_none_iff_exists'.mp hlive
    exact ⟨if_neg (R.counted.below e.2 c hc).1, hlive⟩
  obtain ⟨cs, hcs, hmap⟩ := walkMembers_cells (h := h) S.walk fun e he => by
    rw [(hderef e he).1]
    exact (hderef e he).2
  refine ⟨cs, hcs, ?_⟩
  have hview := congrArg (List.map fun e : CStr × Option Data => (e.1, e.2.map fun c => { c with refcount := 0 })) hmap
  simp only [List.map_map] at hview ⊢
  refine hview.trans (List.map_congr_left fun e he => ?_)
  show (e.1, (derefData h e.2).map _) = (e.1, h.view e.2)
  rw [(hderef e he).1]
  rfl

/-- The value is plain data, or a vector of `len` pieces. -/
def Data.Given (value : Data) : Prop :=
  match value.vec with
  | some src => (src.length : Int) = value.len
  | none => value.copied.isSome = true

/-- The entries of a vector that stand for a value. -/
def Data.iovs (value : Data) : List IovEntry :=
  match value.vec with
  | some src => src.map iovEntry
  | none => [⟨value.data, value.len.toNat⟩]

/-- The sum of `iov_len`. -/
def iovSum (vec : List IovEntry) : Nat := (vec.map IovEntry.iovLen).sum

/-- The bytes of a pair. -/
def pairSize (e : CStr × Data) : Nat := 18 + (e.1.strlen + 1) + iovSum e.2.iovs

/-- The bytes of the old format. -/
def oldSize (cs : List (CStr × Data)) : Nat := 9 + (cs.map pairSize).sum

/-- The entries of a pair. -/
def pairCount (e : CStr × Data) : Nat := 2 + e.2.iovs.length

/-- The entries of the old format. -/
def vecCount (cs : List (CStr × Data)) : Nat := 1 + (cs.map pairCount).sum

/-! ## §2. The two lengths. -/

section Lengths

variable {pairs : Heap Pair} {h : DataHeap} {pair : Addr} {cs : List (CStr × Data)}

theorem derefPair_eq {p : Pair} (hpair : pair ≠ 0) (hp : pairs pair = some p) : derefPair pairs pair = some p := by
  unfold derefPair
  rw [if_neg hpair, hp]

theorem Data.copied_length {value : Data} {bs : Bytes} (hbs : value.copied = some bs) : (bs.length : Int) = value.len := by
  unfold Data.copied at hbs
  split at hbs
  next p _ => exact BytePtr.read_length hbs
  next =>
    split at hbs
    next hlen =>
      cases hbs
      exact hlen.symm
    next => cases hbs

/-- Plain data: one entry. -/
theorem Data.iovs_plain {value : Data} (hvec : value.vec = none) : value.iovs = [⟨value.data, value.len.toNat⟩] := by
  unfold Data.iovs
  rw [hvec]

theorem Data.iovs_vec {value : Data} {src : List (IoVec Bytes)} (hvec : value.vec = some src) :
    value.iovs = src.map iovEntry := by
  unfold Data.iovs
  rw [hvec]

theorem Data.Given.plain {value : Data} (G : value.Given) (hvec : value.vec = none) :
    ∃ bs, value.copied = some bs ∧ (bs.length : Int) = value.len := by
  unfold Data.Given at G
  rw [hvec] at G
  obtain ⟨bs, hbs⟩ := Option.isSome_iff_exists.mp G
  exact ⟨bs, hbs, Data.copied_length hbs⟩

theorem Data.Given.len {value : Data} {src : List (IoVec Bytes)} (G : value.Given) (hvec : value.vec = some src) :
    (src.length : Int) = value.len := by
  unfold Data.Given at G
  rw [hvec] at G
  exact G

theorem iovSum_vec (src : List (IoVec Bytes)) :
    iovSum (src.map iovEntry) = total src := by
  unfold iovSum total
  rw [List.map_map]
  rfl

/-- The length of a vector that an `int` can count. -/
theorem addVecLen_eq : ∀ (src : List (IoVec Bytes)) {len : Int}, 0 ≤ len → len + total src < 2 ^ 31 →
    addVecLen src.length src len = some (len + total src) := by
  intro src
  induction src with
  | nil =>
      intro len _ _
      rw [total_nil]
      simp [addVecLen]
  | cons iov src ih =>
      intro len hlen hsum
      rw [total_cons] at hsum ⊢
      push_cast at hsum
      have hwrap : wrap32 (len + iov.iovLen) = len + iov.iovLen := wrap32_eq (by omega) (by omega)
      show addVecLen src.length src (wrap32 (len + iov.iovLen)) = _
      rw [hwrap, ih (by omega) (by omega)]
      push_cast
      rw [Int.add_assoc]

/-- What a value adds to the length. -/
theorem Data.Given.addLen {value : Data} (G : value.Given) {len : Int} (hlen : 0 ≤ len)
    (hsum : len + iovSum value.iovs < 2 ^ 31) :
    addValueLen value len = some (len + iovSum value.iovs) := by
  unfold addValueLen
  cases hvec : value.vec with
  | none =>
      obtain ⟨bs, -, hbs⟩ := G.plain hvec
      rw [Data.iovs_plain hvec] at hsum ⊢
      have hone : (iovSum [⟨value.data, value.len.toNat⟩] : Int) = value.len := by
        simp only [iovSum, List.map_cons, List.map_nil, List.sum_cons, List.sum_nil]
        omega
      rw [hone] at hsum ⊢
      show some (wrap32 (len + value.len)) = _
      rw [wrap32_eq (by omega) (by omega)]
  | some src =>
      have hn := G.len hvec
      rw [Data.iovs_vec hvec, iovSum_vec] at hsum ⊢
      show addVecLen value.len.toNat src len = _
      rw [← hn, Int.toNat_natCast]
      exact addVecLen_eq src hlen hsum

/-- **`dict_serialized_length_old`**, from the members on. -/
theorem lengthOldPairs_spec (T : Threads pairs h pair cs) (hgiven : ∀ e ∈ cs, e.2.Given) : ∀ {len : Int},
    0 ≤ len → len + (cs.map pairSize).sum < 2 ^ 31 →
    lengthOldPairs pairs h cs.length pair len = some (len + (cs.map pairSize).sum) := by
  induction T with
  | nil =>
      intro len _ _
      simp [lengthOldPairs]
  | @cons pair p value cs hpair hp hvalue rest ih =>
      intro len hlen hsum
      have hsize : pairSize (p.key, value) = 18 + (p.key.strlen + 1) + iovSum value.iovs := rfl
      rw [List.map_cons, List.sum_cons, hsize] at hsum ⊢
      have h₁ : wrap32 (len + 18) = len + 18 := wrap32_eq (by omega) (by omega)
      have h₂ : wrap32 (len + 18 + (p.key.strlen + 1)) = len + 18 + (p.key.strlen + 1) :=
        wrap32_eq (by omega) (by omega)
      have G : value.Given := hgiven _ List.mem_cons_self
      have hadd : addValueLen value (len + 18 + (p.key.strlen + 1)) = _ := G.addLen (by omega) (by omega)
      have hrest : lengthOldPairs pairs h cs.length p.next (len + 18 + (p.key.strlen + 1) + iovSum value.iovs) = _ :=
        ih (fun e he => hgiven e (List.mem_cons_of_mem _ he)) (by omega) (by omega)
      show lengthOldPairs pairs h (cs.length + 1) pair len = _
      unfold lengthOldPairs
      simp only [derefPair_eq hpair hp, Option.bind_eq_bind, Option.bind_some, h₁, h₂, hvalue, hadd, hrest]
      congr 1
      omega

/-- **`dict_iovec_len`**, from the members on: what an `int` keeps of the number. -/
theorem iovecLenPairs_spec (T : Threads pairs h pair cs) (hgiven : ∀ e ∈ cs, e.2.Given) : ∀ {fuel : Nat} (len : Int),
    cs.length ≤ fuel → iovecLenPairs pairs h fuel pair (wrap32 len) = some (wrap32 (len + (cs.map pairCount).sum)) := by
  induction T with
  | nil =>
      intro fuel len _
      cases fuel <;> simp [iovecLenPairs]
  | @cons pair p value cs hpair hp hvalue rest ih =>
      intro fuel len hfuel
      obtain ⟨fuel, rfl⟩ : ∃ f, fuel = f + 1 := ⟨fuel - 1, by rw [List.length_cons] at hfuel; omega⟩
      have hlen : (if value.vec.isSome then wrap32 (wrap32 (wrap32 (wrap32 len + 1) + 1) + value.len)
          else wrap32 (wrap32 (wrap32 (wrap32 len + 1) + 1) + 1)) = wrap32 (len + pairCount (p.key, value)) := by
        have hcount : pairCount (p.key, value) = 2 + value.iovs.length := rfl
        have G : value.Given := hgiven _ List.mem_cons_self
        rw [hcount]
        simp only [wrap32_add]
        -- a plain value is one entry, a vector brings its own
        cases hvec : value.vec with
        | none =>
            rw [Data.iovs_plain hvec]
            rw [Option.isSome_none, if_neg Bool.false_ne_true]
            push_cast
            congr 1
            simp only [List.length_cons, List.length_nil]
            omega
        | some src =>
            have hn := G.len hvec
            rw [Data.iovs_vec hvec, List.length_map, Option.isSome_some, if_pos rfl, ← hn]
            push_cast
            congr 1
            omega
      have hrest := ih (fun e he => hgiven e (List.mem_cons_of_mem _ he)) (len + pairCount (p.key, value))
        (Nat.le_of_succ_le_succ hfuel)
      unfold iovecLenPairs
      simp only [if_neg hpair, hp, hvalue, Option.bind_eq_bind, Option.bind_some, hlen, hrest]
      rw [List.map_cons, List.sum_cons]
      rw [Int.natCast_add, Int.add_assoc]

/-- **`dict_iovec_len`** of a dict. -/
theorem dictIovecLen_spec {d : Dict} (hcells : d.cells h = some cs) (hgiven : ∀ e ∈ cs, e.2.Given) :
    dictIovecLen d h = some (wrap32 (vecCount cs : Nat)) := by
  obtain ⟨T, hbrk⟩ := walkCells_threads hcells
  have hlen := iovecLenPairs_spec T hgiven 1 hbrk
  unfold dictIovecLen
  rw [show (1 : Int) = wrap32 1 from rfl, hlen]
  rfl

end Lengths

/-! ## §3. Header texts. -/

theorem hexField_eq {n : Nat} (h : n < 2 ^ 31) : hexField n = hex8 n := by
  unfold hexField
  congr 1
  omega

theorem hexField_length {n : Nat} (h : n < 2 ^ 31) : (hexField n).length = 8 := by
  rw [hexField_eq h]
  exact hex8_length (by omega)

theorem countText_length {n : Nat} (h : n < 2 ^ 31) : (countText n).length = 9 := by
  unfold countText
  rw [List.length_append, hexField_length h]
  rfl

theorem pairText_length {k v : Nat} (hk : k < 2 ^ 31) (hv : v < 2 ^ 31) : (pairText k v).length = 18 := by
  unfold pairText
  rw [List.length_append, List.length_cons, List.length_append, hexField_length hk, hexField_length hv]
  rfl

/-! ## §4. Filling the vector. -/

/-- The entry has a buffer with room for `n` bytes. -/
def IovEntry.Room (e : IovEntry) (n : Nat) : Prop :=
  ∃ p, e.iovBase = some p ∧ 0 ≤ p.off ∧ p.off + n ≤ p.block.length

/-- The bytes that an entry denotes. -/
def IovEntry.bytes (e : IovEntry) : Option Bytes :=
  match e.iovBase with
  | some p => p.read e.iovLen
  | none => if e.iovLen = 0 then some [] else none

/-- Enough entries for the pairs, with a buffer for the header of each. -/
def Ready : List (CStr × Data) → List IovEntry → Prop
  | [], _ => True
  | e :: cs, vec => ∃ hdr mine rest, vec = hdr :: (mine ++ rest) ∧ hdr.Room 19 ∧
      mine.length = 1 + e.2.iovs.length ∧ Ready cs rest

/-- **The bases of the header entries are allocated**, with room for the NULs. -/
def HeadersReady (cs : List (CStr × Data)) (vec : List IovEntry) : Prop :=
  ∃ first rest, vec = first :: rest ∧ first.Room 10 ∧ Ready cs rest

/-- The entry of a key. -/
def keyEntry (key : CStr) : IovEntry := ⟨some ⟨CStr.block key, 0⟩, key.strlen + 1⟩

/-- **The entries of the pairs**: a header, which announces the bytes of the key
and of the entries behind it, the key, and the entries of the value. -/
inductive EncodesPairs : List (CStr × Data) → List IovEntry → Prop
  | nil : EncodesPairs [] []
  | cons {e : CStr × Data} {cs : List (CStr × Data)} {hdr : IovEntry} {vec : List IovEntry} (hlen : hdr.iovLen = 18)
      (htext : hdr.bytes = some (pairText (e.1.strlen + 1 : Nat) (iovSum e.2.iovs))) (rest : EncodesPairs cs vec) :
      EncodesPairs (e :: cs) (hdr :: keyEntry e.1 :: (e.2.iovs ++ vec))

/-- **The entries of a dict**: the header of the number of pairs comes first. -/
def Encodes (cs : List (CStr × Data)) (out : List IovEntry) : Prop :=
  ∃ first body, out = first :: body ∧ first.iovLen = 9 ∧ first.bytes = some (countText cs.length) ∧
    EncodesPairs cs body

theorem iovSum_append (a b : List IovEntry) : iovSum (a ++ b) = iovSum a + iovSum b := by
  unfold iovSum
  rw [List.map_append, List.sum_append]

theorem EncodesPairs.length {cs : List (CStr × Data)} {body : List IovEntry} (E : EncodesPairs cs body) :
    body.length = (cs.map pairCount).sum := by
  induction E with
  | nil => rfl
  | @cons e cs hdr vec _ _ _ ih =>
      have hcount : pairCount e = 2 + e.2.iovs.length := rfl
      simp only [List.length_cons, List.length_append, List.map_cons, List.sum_cons, ih, hcount]
      omega

theorem EncodesPairs.sum {cs : List (CStr × Data)} {body : List IovEntry} (E : EncodesPairs cs body) :
    iovSum body = (cs.map pairSize).sum := by
  induction E with
  | nil => rfl
  | @cons e cs hdr vec hlen _ _ ih =>
      have hsize : pairSize e = 18 + (e.1.strlen + 1) + iovSum e.2.iovs := rfl
      have hsum : iovSum (hdr :: keyEntry e.1 :: (e.2.iovs ++ vec))
          = hdr.iovLen + ((e.1.strlen + 1) + iovSum (e.2.iovs ++ vec)) := rfl
      rw [hsum, hlen, iovSum_append, ih, List.map_cons, List.sum_cons, hsize]
      omega

/-- `sprintf` into a buffer with room for the text and its NUL. -/
theorem BytePtr.write_text {p : BytePtr} {text : Bytes} (hoff : 0 ≤ p.off)
    (hroom : p.off + (text.length + 1 : Nat) ≤ p.block.length) :
    ∃ p', p.write (text ++ [0]) = some p' ∧ p'.read text.length = some text := by
  have hlen : (text ++ [0]).length = text.length + 1 := List.length_append
  have hfits : p.off.toNat + (text ++ [0]).length ≤ p.block.length := by omega
  have hhead : (p.block.take p.off.toNat).length = p.off.toNat := by
    rw [List.length_take]
    omega
  have hwrite : overwrite p.block p.off.toNat (text ++ [0])
      = some (p.block.take p.off.toNat ++ (text ++ [0]) ++ p.block.drop (p.off.toNat + (text ++ [0]).length)) :=
    if_pos (Or.inr hfits)
  refine ⟨⟨p.block.take p.off.toNat ++ (text ++ [0]) ++ p.block.drop (p.off.toNat + (text ++ [0]).length), p.off⟩,
    ?_, ?_⟩
  · unfold BytePtr.write
    rw [if_pos hoff, hwrite]
    rfl
  · unfold BytePtr.read
    dsimp only
    rw [if_pos, Int.toNat_natCast, List.append_assoc, List.drop_left' hhead, List.append_assoc, List.take_left]
    refine ⟨Int.natCast_nonneg _, hoff, ?_⟩
    simp only [List.length_append, List.length_take, List.length_drop, List.length_singleton]
    omega

section Fill

variable {pairs : Heap Pair} {h : DataHeap} {pair : Addr} {cs : List (CStr × Data)}

/-- The entry behind those that are filled is set. -/
theorem setEntry_behind (filled : List IovEntry) (e x : IovEntry) (rest : List IovEntry) :
    setEntry (filled ++ e :: rest) filled.length x = some (filled ++ x :: rest) := by
  unfold setEntry
  rw [if_pos, Int.toNat_natCast]
  · simp
  · rw [List.length_append, List.length_cons]
    omega

theorem setHeader_behind (filled : List IovEntry) {e : IovEntry} (rest : List IovEntry) {len : Nat} {text : Bytes}
    (hlen : text.length = len) (hroom : e.Room (len + 1)) :
    ∃ x : IovEntry, x.iovLen = len ∧ x.bytes = some text ∧
      setHeader (filled ++ e :: rest) filled.length len text = some (filled ++ x :: rest) := by
  obtain ⟨p, hp, hoff, hfits⟩ := hroom
  have hfits' : p.off + (text.length + 1 : Nat) ≤ p.block.length := by
    rw [hlen]
    exact hfits
  obtain ⟨p', hwrite, hread⟩ := BytePtr.write_text hoff hfits'
  refine ⟨⟨some p', len⟩, rfl, ?_, ?_⟩
  · show p'.read len = _
    rw [← hlen]
    exact hread
  · unfold setHeader
    rw [if_pos (Int.natCast_nonneg _), Int.toNat_natCast, List.getElem?_append_right (Nat.le_refl _), Nat.sub_self]
    simp only [List.getElem?_cons_zero, Option.bind_eq_bind, Option.bind_some, hp, hwrite]
    exact setEntry_behind filled e _ rest

/-- An index that an `int` can count to. -/
theorem wrap32_succ {n : Nat} (h : n + 1 < 2 ^ 31) : wrap32 ((n : Int) + 1) = ((n + 1 : Nat) : Int) := by
  rw [wrap32_eq (by omega) (by omega)]
  rfl

/-- The pieces of a vector are copied behind the entries that are filled. -/
theorem copyVec_spec : ∀ {src : List (IoVec Bytes)} {filled mine : List IovEntry} (rest : List IovEntry),
    mine.length = src.length → filled.length + src.length < 2 ^ 31 →
    copyVec src.length src filled.length (filled ++ (mine ++ rest))
      = some (((filled.length + src.length : Nat) : Int), filled ++ (src.map iovEntry ++ rest)) := by
  intro src
  induction src with
  | nil =>
      intro filled mine rest hmine _
      rw [List.length_nil, List.length_eq_zero_iff] at hmine
      subst hmine
      rfl
  | cons iov src ih =>
      intro filled mine rest hmine hsmall
      obtain ⟨e, mine, rfl⟩ := List.exists_cons_of_length_eq_add_one hmine
      rw [List.length_cons] at hsmall
      have hcut : filled ++ iovEntry iov :: (mine ++ rest) = filled ++ [iovEntry iov] ++ (mine ++ rest) := by simp
      have hlen : (filled ++ [iovEntry iov]).length = filled.length + 1 := List.length_append
      have hwrap : wrap32 ((filled.length : Int) + 1) = ((filled ++ [iovEntry iov]).length : Nat) := by
        rw [hlen]
        exact wrap32_succ (by omega)
      have hstep : copyVec src.length src (filled ++ [iovEntry iov]).length
          (filled ++ [iovEntry iov] ++ (mine ++ rest)) = _ := ih rest (Nat.succ.inj hmine) (by omega)
      rw [List.length_cons, copyVec, List.cons_append, setEntry_behind]
      simp only [Option.bind_eq_bind, Option.bind_some]
      rw [hwrap, hcut, hstep, hlen]
      simp only [List.map_cons, List.append_assoc, List.cons_append, List.nil_append]
      rw [Nat.add_assoc, Nat.add_comm 1]

/-- The lengths of the pieces add up. -/
theorem addVallen_eq : ∀ (src : List (IoVec Bytes)) {vallen : Int}, 0 ≤ vallen → vallen + total src < 2 ^ 31 →
    addVallen src.length src vallen = some (vallen + total src) := by
  intro src
  induction src with
  | nil =>
      intro vallen _ _
      rw [total_nil]
      simp [addVallen]
  | cons iov src ih =>
      intro vallen hpos hsum
      rw [total_cons] at hsum ⊢
      push_cast at hsum
      have hwrap : Int.bmod (vallen + iov.iovLen) (2 ^ 64) = vallen + iov.iovLen := by
        rw [Int.bmod_eq_of_le] <;> omega
      show addVallen src.length src (Int.bmod (vallen + iov.iovLen) (2 ^ 64)) = _
      rw [hwrap, ih (by omega) (by omega)]
      push_cast
      rw [Int.add_assoc]

theorem iovSum_plain {value : Data} (hvec : value.vec = none) : iovSum value.iovs = value.len.toNat := by
  rw [Data.iovs_plain hvec]
  exact Nat.add_zero _

/-- The length that a header announces. -/
theorem Data.Given.vallen {value : Data} (G : value.Given) (hsum : iovSum value.iovs < 2 ^ 31) :
    vallenOf value = some (iovSum value.iovs : Int) := by
  unfold vallenOf
  cases hvec : value.vec with
  | none =>
      obtain ⟨bs, -, hbs⟩ := G.plain hvec
      rw [iovSum_plain hvec]
      show some value.len = _
      congr 1
      omega
  | some src =>
      have hn := G.len hvec
      rw [Data.iovs_vec hvec, iovSum_vec] at hsum ⊢
      show addVallen value.len.toNat src 0 = _
      rw [← hn, Int.toNat_natCast, addVallen_eq src (Int.le_refl 0) (by omega), Int.zero_add]

/-- **The entries of a value** are set behind those that are filled. -/
theorem Data.Given.setValue {value : Data} (G : value.Given) (hsum : iovSum value.iovs < 2 ^ 31)
    {filled mine : List IovEntry} (rest : List IovEntry) (hmine : mine.length = value.iovs.length)
    (hsmall : filled.length + value.iovs.length < 2 ^ 31) :
    LzLib.Dict.setValue value filled.length (filled ++ (mine ++ rest))
      = some (((filled.length + value.iovs.length : Nat) : Int), filled ++ (value.iovs ++ rest)) := by
  unfold LzLib.Dict.setValue
  cases hvec : value.vec with
  | none =>
      obtain ⟨bs, -, hbs⟩ := G.plain hvec
      rw [iovSum_plain hvec] at hsum
      rw [Data.iovs_plain hvec] at hmine hsmall ⊢
      obtain ⟨e, rfl⟩ := List.length_eq_one_iff.mp hmine
      have hlen : value.len % 2 ^ 64 = value.len := Int.emod_eq_of_lt (by omega) (by omega)
      have hone : [(⟨value.data, value.len.toNat⟩ : IovEntry)].length = 1 := rfl
      rw [hone] at hsmall
      have hwrap := wrap32_succ hsmall
      show (setEntry (filled ++ e :: rest) filled.length _ >>= _) = _
      rw [setEntry_behind, hlen]
      show some (wrap32 ((filled.length : Int) + 1), _) = _
      rw [hwrap, hone]
      rfl
  | some src =>
      have hn := G.len hvec
      rw [Data.iovs_vec hvec, List.length_map] at hmine hsmall ⊢
      show copyVec value.len.toNat src filled.length _ = _
      rw [← hn, Int.toNat_natCast]
      exact copyVec_spec rest hmine hsmall

/-- **The loop of `dict_to_iovec`** fills the entries of the pairs, and no others. -/
theorem toIovecPairs_spec (T : Threads pairs h pair cs) (hgiven : ∀ e ∈ cs, e.2.Given) :
    ∀ {fuel : Nat} {filled todo : List IovEntry}, cs.length ≤ fuel → Ready cs todo →
      filled.length + (cs.map pairCount).sum < 2 ^ 31 → (cs.map pairSize).sum < 2 ^ 31 →
      ∃ body, EncodesPairs cs body ∧ toIovecPairs pairs h fuel pair filled.length (filled ++ todo)
        = some (filled ++ (body ++ todo.drop (cs.map pairCount).sum)) := by
  induction T with
  | nil =>
      intro fuel filled todo _ _ _ _
      refine ⟨[], EncodesPairs.nil, ?_⟩
      cases fuel <;> simp [toIovecPairs]
  | @cons pair p value cs hpair hp hvalue rest ih =>
      intro fuel filled todo hfuel hready hcount hsize
      obtain ⟨fuel, rfl⟩ : ∃ f, fuel = f + 1 := ⟨fuel - 1, by rw [List.length_cons] at hfuel; omega⟩
      obtain ⟨hdr, mine, todo, rfl, hroom, hmine, hready⟩ := hready
      obtain ⟨keySlot, mine, rfl⟩ := List.exists_cons_of_length_eq_add_one (hmine.trans (Nat.add_comm 1 _))
      have G : value.Given := hgiven _ List.mem_cons_self
      have hc : pairCount (p.key, value) = 2 + value.iovs.length := rfl
      have hs : pairSize (p.key, value) = 18 + (p.key.strlen + 1) + iovSum value.iovs := rfl
      rw [List.map_cons, List.sum_cons, hc] at hcount
      rw [List.map_cons, List.sum_cons, hs] at hsize
      have hmine' : mine.length = value.iovs.length := by
        rw [List.length_cons] at hmine
        have hiovs : mine.length + 1 = 1 + value.iovs.length := hmine
        omega
      have hkeylen : p.key.strlen + 1 < 2 ^ 31 := Nat.lt_of_le_of_lt (by omega) hsize
      have hvallen : iovSum value.iovs < 2 ^ 31 := Nat.lt_of_le_of_lt (by omega) hsize
      -- the header, then the key, then the value, each at the end of what is filled
      have htext : (pairText (p.key.strlen + 1 : Nat) (iovSum value.iovs)).length = 18 :=
        pairText_length hkeylen hvallen
      obtain ⟨x, hx, hbytes, hset⟩ := setHeader_behind filled (keySlot :: mine ++ todo) htext hroom
      have hone : (filled ++ [x]).length = filled.length + 1 := List.length_append
      have htwo : (filled ++ [x, keyEntry p.key]).length = filled.length + 2 := List.length_append
      have hi₁ : wrap32 ((filled.length : Int) + 1) = ((filled ++ [x]).length : Nat) := by
        rw [hone]
        exact wrap32_succ (Nat.lt_of_le_of_lt (by omega) hcount)
      have hi₂ : wrap32 (((filled ++ [x]).length : Nat) + 1) = ((filled ++ [x, keyEntry p.key]).length : Nat) := by
        rw [hone, htwo]
        exact wrap32_succ (Nat.lt_of_le_of_lt (by omega) hcount)
      have hcut₁ : filled ++ x :: (keySlot :: mine ++ todo) = filled ++ [x] ++ keySlot :: (mine ++ todo) := by simp
      have hcut₂ : filled ++ [x] ++ keyEntry p.key :: (mine ++ todo)
          = filled ++ [x, keyEntry p.key] ++ (mine ++ todo) := by simp
      have hkey : setEntry (filled ++ [x] ++ keySlot :: (mine ++ todo)) (filled ++ [x]).length
          ⟨some ⟨CStr.block p.key, 0⟩, p.key.strlen + 1⟩ = _ :=
        setEntry_behind (filled ++ [x]) keySlot (keyEntry p.key) (mine ++ todo)
      have hthree : (filled ++ [x, keyEntry p.key] ++ value.iovs).length = filled.length + 2 + value.iovs.length := by
        rw [List.length_append, htwo]
      have hroom₃ : (filled ++ [x, keyEntry p.key]).length + value.iovs.length < 2 ^ 31 :=
        Nat.lt_of_le_of_lt (by omega) hcount
      have hroom₄ : (filled ++ [x, keyEntry p.key] ++ value.iovs).length + (cs.map pairCount).sum < 2 ^ 31 := by
        rw [hthree, Nat.add_assoc filled.length, Nat.add_assoc filled.length]
        exact hcount
      have hval := G.setValue hvallen todo hmine' hroom₃
      obtain ⟨body, E, hloop⟩ := ih (fun e he => hgiven e (List.mem_cons_of_mem _ he))
        (Nat.le_of_succ_le_succ hfuel) hready hroom₄ (Nat.lt_of_le_of_lt (by omega) hsize)
      have hend : (filled ++ [x, keyEntry p.key]).length + value.iovs.length
          = (filled ++ [x, keyEntry p.key] ++ value.iovs).length := List.length_append.symm
      have hdrop : (hdr :: (keySlot :: mine ++ todo)).drop (((p.key, value) :: cs).map pairCount).sum
          = todo.drop (cs.map pairCount).sum := by
        have hahead : (hdr :: keySlot :: mine).length = 2 + value.iovs.length := by
          rw [List.length_cons, List.length_cons, hmine', Nat.add_comm 2]
        rw [List.map_cons, List.sum_cons, hc, ← hahead, ← List.drop_drop]
        exact congrArg (List.drop _) List.drop_left
      refine ⟨x :: keyEntry p.key :: (value.iovs ++ body), EncodesPairs.cons hx hbytes E, ?_⟩
      unfold toIovecPairs
      simp only [if_neg hpair, hp, hvalue, G.vallen hvallen, Option.bind_eq_bind, Option.bind_some, hset, hi₁, hcut₁,
        hkey, hi₂, hcut₂, hval, hend]
      rw [← List.append_assoc, hloop, hdrop]
      simp

end Fill

/-! ## §5. Writing into a buffer. -/

/-- One entry of the old format. -/
def encodeOldEntry (e : Content) : Bytes :=
  pairText (e.1.strlen + 1 : Nat) e.2.length ++ (CStr.block e.1 ++ e.2)

/-- The entries, one after the other. -/
def encodeOldEntries (bs : List Content) : Bytes := bs.flatMap encodeOldEntry

/-- **The old format.** -/
def encodeOld (bs : List Content) : Bytes := countText bs.length ++ encodeOldEntries bs

/-- The bytes that an entry takes up. -/
def oldEntrySize (e : Content) : Nat := 18 + (e.1.strlen + 1) + e.2.length

/-- `9 + sum (18 + strlen (key) + 1 + value length)`. -/
def encodedOldSize (bs : List Content) : Nat := 9 + (bs.map oldEntrySize).sum

/-- The two numbers of an entry fit their fields. -/
structure OldFits (e : Content) : Prop where
  key : e.1.strlen + 1 < 2 ^ 31
  value : e.2.length < 2 ^ 31

/-- The values of `cs` are plain, with the bytes of `bs`. -/
def Copied (cs : List (CStr × Data)) (bs : List Content) : Prop :=
  cs.map (fun e => (e.1, e.2.copied)) = bs.map fun e => (e.1, some e.2)

theorem Copied.nil {bs : List Content} (h : Copied [] bs) : bs = [] := List.map_eq_nil_iff.mp h.symm

theorem Copied.cons {e : CStr × Data} {cs : List (CStr × Data)} {bs : List Content} (h : Copied (e :: cs) bs) :
    ∃ v bs', bs = (e.1, v) :: bs' ∧ e.2.copied = some v ∧ Copied cs bs' := by
  unfold Copied at h
  cases bs with
  | nil => cases h
  | cons b bs =>
      obtain ⟨k, v⟩ := b
      injection h with hhead hrest
      injection hhead with hk hv
      replace hk : e.1 = k := hk
      subst hk
      exact ⟨v, bs, rfl, hv, hrest⟩

theorem Copied.length {cs : List (CStr × Data)} {bs : List Content} (h : Copied cs bs) : cs.length = bs.length := by
  have hlen := congrArg List.length h
  rwa [List.length_map, List.length_map] at hlen

theorem CStr.block_length (k : CStr) : (CStr.block k).length = k.strlen + 1 := List.length_append

theorem encodeOldEntry_length {e : Content} (hfits : OldFits e) : (encodeOldEntry e).length = oldEntrySize e := by
  unfold encodeOldEntry oldEntrySize
  rw [List.length_append, List.length_append, pairText_length hfits.key hfits.value, CStr.block_length]
  omega

theorem encodeOldEntries_cons (e : Content) (bs : List Content) :
    encodeOldEntries (e :: bs) = encodeOldEntry e ++ encodeOldEntries bs := List.flatMap_cons

theorem encodeOldEntries_length {bs : List Content} (hfits : ∀ e ∈ bs, OldFits e) :
    (encodeOldEntries bs).length = (bs.map oldEntrySize).sum := by
  induction bs with
  | nil => rfl
  | cons e bs ih =>
      rw [encodeOldEntries_cons, List.length_append, encodeOldEntry_length (hfits e List.mem_cons_self),
        ih (fun e he => hfits e (List.mem_cons_of_mem _ he)), List.map_cons, List.sum_cons]

/-- Entries of less than `2 ^ 31` bytes fit, one by one. -/
theorem oldFits_of_size {bs : List Content} (hsize : (bs.map oldEntrySize).sum < 2 ^ 31) : ∀ e ∈ bs, OldFits e := by
  intro e he
  have hle := List.le_sum_of_mem (List.mem_map_of_mem (f := oldEntrySize) he)
  have hone : oldEntrySize e = 18 + (e.1.strlen + 1) + e.2.length := rfl
  have hlt : oldEntrySize e < 2 ^ 31 := Nat.lt_of_le_of_lt hle hsize
  rw [hone] at hlt
  constructor
  · exact Nat.lt_of_le_of_lt (by omega) hlt
  · exact Nat.lt_of_le_of_lt (by omega) hlt

/-- They are fewer than their bytes. -/
theorem length_le_oldSizes (bs : List Content) : bs.length ≤ (bs.map oldEntrySize).sum := by
  rw [← List.length_map oldEntrySize]
  apply List.length_le_sum_of_one_le
  intro n hn
  obtain ⟨e, -, rfl⟩ := List.mem_map.mp hn
  unfold oldEntrySize
  omega

theorem encodeOld_length {bs : List Content} (hsize : encodedOldSize bs < 2 ^ 31) :
    (encodeOld bs).length = encodedOldSize bs := by
  have hpairs : (bs.map oldEntrySize).sum < 2 ^ 31 := Nat.lt_of_le_of_lt (Nat.le_add_left _ 9) hsize
  have hmany := Nat.lt_of_le_of_lt (length_le_oldSizes bs) hpairs
  unfold encodeOld encodedOldSize
  rw [List.length_append, countText_length hmany, encodeOldEntries_length (oldFits_of_size hpairs)]

section Write

variable {pairs : Heap Pair} {h : DataHeap} {pair : Addr} {cs : List (CStr × Data)}

/-- The writes for one entry: the NUL behind the header is overwritten by the key. -/
theorem write_entry (done : Bytes) {rest text block value : Bytes} (hblock : 0 < block.length)
    (hroom : text.length + (block.length + value.length) ≤ rest.length) :
    ∃ buf₁ buf₂, overwrite (done ++ rest) done.length (text ++ [0]) = some buf₁ ∧
      overwrite buf₁ (done.length + text.length) block = some buf₂ ∧
      overwrite buf₂ (done.length + text.length + block.length) value = some
        (done ++ (text ++ (block ++ value)) ++ rest.drop (text ++ (block ++ value)).length) := by
  have hlen₁ : (text ++ [0]).length = text.length + 1 := List.length_append
  have hlen₂ : (done ++ text).length = done.length + text.length := List.length_append
  have hlen₃ : (done ++ text ++ block).length = done.length + text.length + block.length := by
    rw [List.length_append, hlen₂]
  have hlen₄ : (text ++ (block ++ value)).length = text.length + block.length + value.length := by
    rw [List.length_append, List.length_append, Nat.add_assoc]
  -- what is behind the key once it is written
  have htail : (0 :: rest.drop (text.length + 1)).drop block.length = rest.drop (text.length + block.length) := by
    obtain ⟨n, hn⟩ : ∃ n, block.length = n + 1 := ⟨block.length - 1, by omega⟩
    rw [hn, List.drop_succ_cons, List.drop_drop]
    congr 1
    omega
  have hw₁ := overwrite_behind done (show (text ++ [0]).length ≤ rest.length by omega)
  have hw₂ := overwrite_behind (done ++ text) (show block.length ≤ (0 :: rest.drop (text.length + 1)).length by
    rw [List.length_cons, List.length_drop]; omega)
  have hw₃ := overwrite_behind (done ++ text ++ block)
    (show value.length ≤ (rest.drop (text.length + block.length)).length by rw [List.length_drop]; omega)
  rw [hlen₁] at hw₁
  rw [hlen₂, htail] at hw₂
  rw [hlen₃, List.drop_drop] at hw₃
  refine ⟨done ++ (text ++ [0]) ++ rest.drop (text.length + 1),
    done ++ text ++ block ++ rest.drop (text.length + block.length), hw₁, ?_, ?_⟩
  · have hcut : done ++ (text ++ [0]) ++ rest.drop (text.length + 1)
        = done ++ text ++ 0 :: rest.drop (text.length + 1) := by simp
    rw [hcut]
    exact hw₂
  · rw [hw₃, hlen₄]
    simp only [List.append_assoc]

/-- **The loop of `dict_serialize_old`** writes the entries. -/
theorem serializeOldPairs_spec (T : Threads pairs h pair cs) : ∀ {bs : List Content} (done : Bytes) {rest : Bytes},
    Copied cs bs → (∀ e ∈ bs, OldFits e) →
    (encodeOldEntries bs).length ≤ rest.length →
    serializeOldPairs pairs h cs.length pair done.length (done ++ rest)
      = some (done ++ encodeOldEntries bs ++ rest.drop (encodeOldEntries bs).length) := by
  induction T with
  | nil =>
      intro bs done rest hbs _ _
      obtain rfl := hbs.nil
      simp [serializeOldPairs, encodeOldEntries]
  | @cons pair p value cs hpair hp hvalue T ih =>
      intro bs done rest hbs hfits hroom
      obtain ⟨v, bs, rfl, hv, hrest⟩ : ∃ v bs', bs = (p.key, v) :: bs' ∧ value.copied = some v ∧ Copied cs bs' :=
        hbs.cons
      have F : OldFits (p.key, v) := hfits _ List.mem_cons_self
      have htext : (pairText (p.key.strlen + 1 : Nat) v.length).length = 18 := pairText_length F.key F.value
      have hblock := CStr.block_length p.key
      have hsize : (encodeOldEntry (p.key, v)).length = 18 + (p.key.strlen + 1) + v.length := encodeOldEntry_length F
      rw [encodeOldEntries_cons, List.length_append] at hroom
      -- the text, the key and the value, each behind the other
      obtain ⟨buf₁, buf₂, hw₁, hw₂, hw₃⟩ := write_entry done (show 0 < (CStr.block p.key).length by omega)
        (show (pairText (p.key.strlen + 1 : Nat) v.length).length + ((CStr.block p.key).length + v.length)
          ≤ rest.length by omega)
      have hentry : pairText (p.key.strlen + 1 : Nat) v.length ++ (CStr.block p.key ++ v)
          = encodeOldEntry (p.key, v) := rfl
      rw [htext] at hw₂
      rw [htext, hblock, hentry] at hw₃
      have hloop := ih (done ++ encodeOldEntry (p.key, v)) hrest
        (fun e he => hfits e (List.mem_cons_of_mem _ he))
        (show (encodeOldEntries bs).length ≤ (rest.drop (encodeOldEntry (p.key, v)).length).length by
          rw [List.length_drop]; omega)
      have hend : done.length + 18 + (p.key.strlen + 1) + v.length = (done ++ encodeOldEntry (p.key, v)).length := by
        rw [List.length_append]
        omega
      have hvallen := Data.copied_length hv
      have hkeylen : ((p.key.strlen + 1 : Nat) : Int) = (p.key.strlen : Int) + 1 := rfl
      rw [hvallen, hkeylen] at hw₁
      show serializeOldPairs pairs h (cs.length + 1) pair done.length (done ++ rest) = _
      unfold serializeOldPairs
      simp only [derefPair_eq hpair hp, hvalue, Option.bind_eq_bind, Option.bind_some, Nat.cast_add, Nat.cast_one,
        hw₁, hw₂, hv, hw₃, hend]
      rw [hloop, encodeOldEntries_cons, List.drop_drop, List.length_append]
      simp only [List.append_assoc]

end Write

/-! ## §6. The two forms. -/

/-- The bytes that entries denote, one after the other. -/
def gatherEntries : List IovEntry → Option Bytes
  | [] => some []
  | e :: vec => do
      let bs ← e.bytes
      let rest ← gatherEntries vec
      return bs ++ rest

/-- **Vector form and flat form agree.**  `dict_iovec_len` is the number of
entries; whatever the buffers of the headers, `dict_to_iovec` fills so many,
leaves the others alone, and what it fills is as long as
`dict_serialized_length_old` says; and of plain data it denotes the bytes that
`dict_serialize_old` writes. -/
structure VectorForm (d : Dict) (h : DataHeap) (cs : List (CStr × Data)) : Prop where
  count : dictIovecLen d h = some (vecCount cs : Int)
  length : dictSerializedLengthOld d h = some (oldSize cs : Int)
  fills : ∀ vec, HeadersReady cs vec → ∃ out, dictToIovec d h vec = some (0, out ++ vec.drop (vecCount cs)) ∧
    out.length = vecCount cs ∧ iovSum out = oldSize cs ∧ Encodes cs out ∧
    ((∀ e ∈ cs, e.2.vec = none) → ∀ buf : Bytes, oldSize cs < buf.length →
      ∃ buf', dictSerializeOld d h buf = some (0, buf') ∧ gatherEntries out = some (buf'.take (oldSize cs)))

section Forms

variable {pairs : Heap Pair} {h : DataHeap} {pair : Addr} {cs : List (CStr × Data)}

theorem gatherEntries_append : ∀ {a b : List IovEntry} {bs bs' : Bytes}, gatherEntries a = some bs →
    gatherEntries b = some bs' → gatherEntries (a ++ b) = some (bs ++ bs') := by
  intro a
  induction a with
  | nil =>
      intro b bs bs' ha hb
      cases ha
      exact hb
  | cons e a ih =>
      intro b bs bs' ha hb
      obtain ⟨x, hx, ha⟩ := Option.bind_eq_some_iff.mp ha
      obtain ⟨y, hy, ha⟩ := Option.bind_eq_some_iff.mp ha
      cases ha
      show (e.bytes >>= fun x => gatherEntries (a ++ b) >>= fun y => some (x ++ y)) = _
      rw [hx, ih hy hb, List.append_assoc]
      rfl

/-- The entry of a key denotes its block. -/
theorem keyEntry_bytes (key : CStr) : (keyEntry key).bytes = some (CStr.block key) := by
  show (BytePtr.mk (CStr.block key) 0).read ((key.strlen + 1 : Nat) : Int) = _
  have hlen := CStr.block_length key
  have hin : (0 : Int) ≤ ((key.strlen + 1 : Nat) : Int) ∧ (0 : Int) ≤ 0 ∧
      (0 : Int) + ((key.strlen + 1 : Nat) : Int) ≤ ((CStr.block key).length : Int) := by omega
  unfold BytePtr.read
  rw [if_pos hin, Int.toNat_natCast, ← hlen]
  show some (((CStr.block key).drop 0).take _) = _
  rw [List.drop_zero, List.take_length]

/-- The entry of plain data denotes the bytes that are copied. -/
theorem plainEntry_bytes {value : Data} {bs : Bytes} (hbs : value.copied = some bs) :
    (IovEntry.mk value.data value.len.toNat).bytes = some bs := by
  have hlen := Data.copied_length hbs
  have hcast : ((value.len.toNat : Nat) : Int) = value.len := by omega
  unfold Data.copied at hbs
  unfold IovEntry.bytes
  cases hdata : value.data with
  | none =>
      rw [hdata] at hbs
      replace hbs : (if value.len = 0 then some [] else none) = some bs := hbs
      split at hbs
      next hzero =>
        rw [hzero]
        exact hbs
      next => cases hbs
  | some p =>
      rw [hdata] at hbs
      show p.read (value.len.toNat : Nat) = _
      rw [hcast]
      exact hbs

/-- **What the entries of plain pairs denote.** -/
theorem EncodesPairs.gather {body : List IovEntry} (E : EncodesPairs cs body) : ∀ {bs : List Content},
    (∀ e ∈ cs, e.2.vec = none) → Copied cs bs →
    gatherEntries body = some (encodeOldEntries bs) := by
  induction E with
  | nil =>
      intro bs _ hbs
      obtain rfl := hbs.nil
      rfl
  | @cons e cs hdr vec _ htext _ ih =>
      intro bs hplain hbs
      obtain ⟨v, bs, rfl, hv, hrest⟩ := hbs.cons
      have hvec := hplain e List.mem_cons_self
      have hlen := Data.copied_length hv
      have hsum : iovSum e.2.iovs = v.length := by
        rw [iovSum_plain hvec]
        omega
      have hiovs := plainEntry_bytes hv
      rw [hsum] at htext
      -- the bytes of the value, from its one entry
      have hvalue : gatherEntries e.2.iovs = some v := by
        rw [Data.iovs_plain hvec]
        show (IovEntry.bytes _ >>= fun x => some (x ++ [])) = _
        rw [hiovs]
        show some (v ++ []) = _
        rw [List.append_nil]
      have htail := gatherEntries_append hvalue (ih (fun e he => hplain e (List.mem_cons_of_mem _ he)) hrest)
      show (hdr.bytes >>= fun x => ((keyEntry e.1).bytes >>= fun y => gatherEntries (e.2.iovs ++ vec) >>= fun z =>
        some (y ++ z)) >>= fun y => some (x ++ y)) = _
      rw [htext, keyEntry_bytes, htail, encodeOldEntries_cons]
      show some (_ ++ (_ ++ (_ ++ _))) = some (encodeOldEntry (e.1, v) ++ encodeOldEntries bs)
      unfold encodeOldEntry
      simp only [List.append_assoc]

/-- Every pair takes a byte at least. -/
theorem length_le_pairSizes (cs : List (CStr × Data)) : cs.length ≤ (cs.map pairSize).sum := by
  rw [← List.length_map pairSize]
  apply List.length_le_sum_of_one_le
  intro n hn
  obtain ⟨e, -, rfl⟩ := List.mem_map.mp hn
  unfold pairSize
  omega

/-- Plain pairs as keys and bytes. -/
theorem plain_contents (hgiven : ∀ e ∈ cs, e.2.Given) (hplain : ∀ e ∈ cs, e.2.vec = none) :
    ∃ bs : List Content, Copied cs bs := by
  refine ⟨cs.map fun e => (e.1, e.2.copied.getD []), ?_⟩
  unfold Copied
  rw [List.map_map]
  apply List.map_congr_left
  intro e he
  obtain ⟨bs, hbs, -⟩ := (hgiven e he).plain (hplain e he)
  show (e.1, e.2.copied) = (e.1, some (e.2.copied.getD []))
  rw [hbs]
  rfl

/-- Their sizes are the sizes of the entries. -/
theorem plain_sizes : ∀ {cs : List (CStr × Data)} {bs : List Content}, (∀ e ∈ cs, e.2.vec = none) →
    Copied cs bs →
    cs.map pairSize = bs.map oldEntrySize := by
  intro cs
  induction cs with
  | nil =>
      intro bs _ hbs
      obtain rfl := hbs.nil
      rfl
  | cons e cs ih =>
      intro bs hplain hbs
      obtain ⟨v, bs, rfl, hv, hrest⟩ := hbs.cons
      have hlen := Data.copied_length hv
      have hsize : pairSize e = oldEntrySize (e.1, v) := by
        unfold pairSize oldEntrySize
        rw [iovSum_plain (hplain e List.mem_cons_self), ← hlen, Int.toNat_natCast]
      rw [List.map_cons, List.map_cons, hsize, ih (fun e he => hplain e (List.mem_cons_of_mem _ he)) hrest]

/-- **`dict_serialized_length_old`** of a dict. -/
theorem dictSerializedLengthOld_spec {d : Dict} (hcells : d.cells h = some cs) (hcount : d.count = cs.length)
    (hgiven : ∀ e ∈ cs, e.2.Given) (hsize : oldSize cs < 2 ^ 31) :
    dictSerializedLengthOld d h = some (oldSize cs : Int) := by
  obtain ⟨T, -⟩ := walkCells_threads hcells
  have hnat : d.count.toNat = cs.length := by omega
  have hneg : ¬ d.count < 0 := by omega
  have hpairs : (9 : Int) + (cs.map pairSize).sum < 2 ^ 31 := by
    unfold oldSize at hsize
    omega
  have hlen := lengthOldPairs_spec T hgiven (show (0 : Int) ≤ 9 by omega) hpairs
  unfold dictSerializedLengthOld
  rw [if_neg hneg, hnat, hlen]
  rfl

/-- The length of plain pairs is the length of the old format. -/
theorem oldSize_plain {bs : List Content} (hplain : ∀ e ∈ cs, e.2.vec = none)
    (hbs : Copied cs bs) : oldSize cs = encodedOldSize bs := by
  unfold oldSize encodedOldSize
  rw [plain_sizes hplain hbs]

/-- **`dict_serialize_old`** writes the old format, and behind the number of pairs
the NUL that the first pair overwrites. -/
theorem dictSerializeOld_spec {d : Dict} {bs : List Content} (hcells : d.cells h = some cs)
    (hcount : d.count = cs.length)
    (hbs : Copied cs bs) (hsize : encodedOldSize bs < 2 ^ 31)
    {buf : Bytes} (hten : 9 < buf.length) (hbuf : encodedOldSize bs ≤ buf.length) :
    dictSerializeOld d h buf
      = some (0, encodeOld bs ++ (0 :: buf.drop 10).drop (encodeOldEntries bs).length) := by
  obtain ⟨T, -⟩ := walkCells_threads hcells
  have hnat : d.count.toNat = cs.length := by omega
  have hneg : ¬ d.count < 0 := by omega
  have hlen := hbs.length
  have hpairs : (bs.map oldEntrySize).sum < 2 ^ 31 := Nat.lt_of_le_of_lt (Nat.le_add_left _ 9) hsize
  have hfits := oldFits_of_size hpairs
  have hmany : bs.length < 2 ^ 31 := Nat.lt_of_le_of_lt (length_le_oldSizes bs) hpairs
  have hcountText : countText d.count = countText bs.length := by rw [hcount, hlen]
  have htext : (countText bs.length).length = 9 := countText_length hmany
  have hold : encodedOldSize bs = 9 + (encodeOldEntries bs).length := by
    rw [encodeOldEntries_length hfits]
    rfl
  have hstart : (countText bs.length ++ [0]).length = 10 := by
    rw [List.length_append, htext]
    rfl
  have hrest : (0 :: buf.drop 10).length = buf.length - 9 := by
    rw [List.length_cons, List.length_drop]
    omega
  -- the NUL behind the count is overwritten by the first pair
  have hhead := overwrite_behind [] (show (countText bs.length ++ [0]).length ≤ buf.length by omega)
  have hloop := serializeOldPairs_spec T (countText bs.length) hbs hfits
    (show (encodeOldEntries bs).length ≤ (0 :: buf.drop 10).length by omega)
  have hcut : [] ++ (countText bs.length ++ [0]) ++ buf.drop (countText bs.length ++ [0]).length
      = countText bs.length ++ 0 :: buf.drop 10 := by
    rw [hstart]
    simp
  rw [hcut] at hhead
  rw [htext] at hloop
  have hwrite : overwrite buf 0 (countText bs.length ++ [0]) = _ := hhead
  unfold dictSerializeOld
  rw [hcountText, hwrite]
  simp only [Option.bind_eq_bind, Option.bind_some, if_neg hneg, hnat, hloop]
  rfl

end Forms

/-- **When the two forms agree**: when the vector has fewer than `2 ^ 31` entries. -/
theorem vector_form_iff {d : Dict} {h : DataHeap} {cs : List (CStr × Data)} (hcells : d.cells h = some cs)
    (hcount : d.count = cs.length) (hgiven : ∀ e ∈ cs, e.2.Given) (hsize : oldSize cs < 2 ^ 31) :
    VectorForm d h cs ↔ vecCount cs < 2 ^ 31 := by
  obtain ⟨T, hbrk⟩ := walkCells_threads hcells
  constructor
  · intro V
    have hwrap : wrap32 (vecCount cs : Nat) = (vecCount cs : Nat) :=
      Option.some.inj ((dictIovecLen_spec hcells hgiven).symm.trans V.count)
    have hlt := wrap32_lt (vecCount cs : Nat)
    omega
  · intro hsmall
    have hpairs : (cs.map pairSize).sum < 2 ^ 31 := Nat.lt_of_le_of_lt (Nat.le_add_left _ 9) hsize
    -- every pair takes bytes, so that the number of pairs fits its field
    have hmany : cs.length < 2 ^ 31 := Nat.lt_of_le_of_lt (length_le_pairSizes cs) hpairs
    have htext : (countText d.count).length = 9 := by
      rw [hcount]
      exact countText_length hmany
    refine ⟨?_, dictSerializedLengthOld_spec hcells hcount hgiven hsize, ?_⟩
    · rw [dictIovecLen_spec hcells hgiven, wrap32_eq (by omega) (by omega)]
    · intro vec hready
      obtain ⟨first, rest, rfl, hroom, hready⟩ := hready
      obtain ⟨x, hx, hbytes, hset⟩ := setHeader_behind [] rest htext hroom
      obtain ⟨body, E, hloop⟩ := toIovecPairs_spec T hgiven hbrk hready
        (show [x].length + (cs.map pairCount).sum < 2 ^ 31 from hsmall) hpairs
      have hencodes : Encodes cs (x :: body) := ⟨x, body, rfl, hx, hcount ▸ hbytes, E⟩
      have hlength : (x :: body).length = vecCount cs := by
        rw [List.length_cons, E.length, Nat.add_comm]
        rfl
      refine ⟨x :: body, ?_, hlength, ?_, hencodes, ?_⟩
      · have hfill : toIovecPairs d.pairs h d.brk d.membersList 1 (x :: rest) = _ := hloop
        have hdrop : (first :: rest).drop (vecCount cs) = rest.drop (cs.map pairCount).sum := by
          unfold vecCount
          rw [Nat.add_comm]
          rfl
        replace hset : setHeader (first :: rest) 0 9 (countText d.count) = some (x :: rest) := hset
        unfold dictToIovec
        rw [hset, hdrop]
        simp only [Option.bind_eq_bind, Option.bind_some, hfill]
        rfl
      · have hsum : iovSum (x :: body) = x.iovLen + iovSum body := rfl
        rw [hsum, hx, E.sum]
        rfl
      · intro hplain buf hbuf
        obtain ⟨bs, hbs⟩ := plain_contents hgiven hplain
        have hgather := E.gather hplain hbs
        have hold := oldSize_plain hplain hbs
        rw [hold] at hsize hbuf ⊢
        have hwrite := dictSerializeOld_spec hcells hcount hbs hsize
          (show 9 < buf.length from Nat.lt_of_le_of_lt (Nat.le_add_right 9 _) hbuf) (Nat.le_of_lt hbuf)
        have hflat := encodeOld_length hsize
        have hhead : countText d.count = countText bs.length := by rw [hcount, hbs.length]
        refine ⟨_, hwrite, ?_⟩
        show (x.bytes >>= fun b => gatherEntries body >>= fun r => some (b ++ r)) = _
        rw [hbytes, hgather, hhead, ← hflat, List.take_left]
        rfl

/-- A value of two pieces. -/
def twoPieces : Data := { Data.zero with len := 2, vec := some [⟨[120, 121], 0, 2⟩, ⟨[122], 0, 1⟩] }

/-- The pairs of a dict with a string and a value of two pieces, the newer one first. -/
def bothForms : List (CStr × Data) :=
  [(textA, { twoPieces with refcount := 1 }),
    (default, { Data.zero with isStatic := true, len := 2, data := some ⟨CStr.block textA, 0⟩, refcount := 1 })]

theorem vector_form_bothForms :
    ∃ d₁ h₁ d₂ h₂,
      dictSetData dictNew oneValueHeap (some default) (strToData (some textA)) = some (d₁, h₁, 0) ∧
      dictSetData d₁ h₁ (some textA) (some twoPieces) = some (d₂, h₂, 0) ∧
      d₂.cells h₂ = some bothForms ∧ vecCount bothForms = 8 ∧ VectorForm d₂ h₂ bothForms := by
  obtain ⟨⟨d₁, h₁, ret₁⟩, heq₁, hrest⟩ := Option.bind_eq_some_iff.mp (by decide +kernel :
    ((dictSetData dictNew oneValueHeap (some default) (strToData (some textA))).bind fun r₁ =>
      (dictSetData r₁.1 r₁.2.1 (some textA) (some twoPieces)).map fun r₂ =>
        (r₁.2.2, r₂.2.2, r₂.1.count)) = some (0, 0, 2))
  obtain ⟨⟨d₂, h₂, ret₂⟩, heq₂, hrest⟩ := Option.map_eq_some_iff.mp hrest
  obtain ⟨rfl, rfl, hcount⟩ : ret₁ = 0 ∧ ret₂ = 0 ∧ d₂.count = 2 := by simpa using hrest
  have hcells : ((dictSetData dictNew oneValueHeap (some default) (strToData (some textA))).bind fun r₁ =>
      (dictSetData r₁.1 r₁.2.1 (some textA) (some twoPieces)).bind fun r₂ => r₂.1.cells r₂.2.1) = some bothForms := by
    decide +kernel
  rw [heq₁, Option.bind_some, heq₂, Option.bind_some] at hcells
  have hgiven : ∀ e ∈ bothForms, e.2.Given := by
    intro e he
    rcases List.mem_cons.mp he with rfl | he
    · show ((2 : Nat) : Int) = 2
      rfl
    · rw [List.mem_singleton.mp he]
      rfl
  exact ⟨d₁, h₁, d₂, h₂, heq₁, heq₂, hcells, by decide,
    (vector_form_iff hcells hcount hgiven (by decide)).mpr (by decide)⟩

/-- A dict with one pair. -/
theorem onePair_cells {c : Data} (hc : c.refcount = 0) :
    ∃ d h value, dictSet dictNew (oneValueHeap.alloc c).1 (some default) 2 = some (d, h, 0) ∧
      d.cells h = some [(default, value)] ∧ d.count = 1 ∧ { value with refcount := 0 } = c := by
  obtain ⟨d, h, hset, H, -, hcount⟩ := (Holds.new (Or.inl rfl) counted_oneValueHeap).setNew default hc (by decide)
  obtain ⟨cs, hcells, hmap⟩ := H.cells
  have hone : assocSet ([] : List Entry) default (2, some c) = [(default, 2, some c)] := rfl
  have hbrk : oneValueHeap.brk = 2 := rfl
  rw [hbrk, hone] at hmap
  cases cs with
  | nil => cases hmap
  | cons e cs =>
      obtain ⟨k, value⟩ := e
      rw [List.map_cons, List.map_cons] at hmap
      injection hmap with hhead hrest
      obtain rfl : cs = [] := List.map_eq_nil_iff.mp hrest
      injection hhead with hk hvalue
      replace hk : k = default := hk
      subst hk
      exact ⟨d, h, value, hset, hcells, hcount, Option.some.inj hvalue⟩

/-- The longest vector that `len` can count, of pieces without bytes. -/
def manyPieces : Data := { Data.zero with len := int32Max, vec := some (List.replicate (2 ^ 31 - 1) ⟨[], 0, 0⟩) }

/-- A dict with this value has entries that an `int32_t` cannot count. -/
theorem vector_form_overflow :
    ∃ d h cs, dictSet dictNew (oneValueHeap.alloc manyPieces).1 (some default) 2 = some (d, h, 0) ∧
      d.cells h = some cs ∧ d.count = cs.length ∧ (∀ e ∈ cs, e.2.Given) ∧ oldSize cs = 28 ∧
      vecCount cs = 2 ^ 31 + 2 ∧ dictIovecLen d h = some (2 - 2 ^ 31) ∧ ¬ VectorForm d h cs := by
  obtain ⟨d, h, value, hset, hcells, hcount, hvalue⟩ := onePair_cells (c := manyPieces) rfl
  have hlen : value.len = 2 ^ 31 - 1 := congrArg Data.len hvalue
  have hvec : value.vec = some (List.replicate (2 ^ 31 - 1) ⟨[], 0, 0⟩) := congrArg Data.vec hvalue
  have hiovs : value.iovs.length = 2 ^ 31 - 1 := by
    rw [Data.iovs_vec hvec, List.length_map, List.length_replicate]
  have hsum : iovSum value.iovs = 0 := by
    rw [Data.iovs_vec hvec, iovSum_vec]
    unfold total
    simp only [List.map_replicate, List.sum_replicate_nat, Nat.mul_zero]
  have hgiven : ∀ e ∈ [((default : CStr), value)], e.2.Given := by
    intro e he
    rw [List.mem_singleton.mp he]
    unfold Data.Given
    rw [hvec]
    show ((List.replicate (2 ^ 31 - 1) _).length : Int) = value.len
    rw [List.length_replicate, hlen]
    omega
  have hmany : vecCount [((default : CStr), value)] = 2 ^ 31 + 2 := by
    have hcounted : vecCount [((default : CStr), value)] = 1 + (2 + value.iovs.length + 0) := rfl
    omega
  have hwrap : dictIovecLen d h = some (2 - 2 ^ 31) := by
    rw [dictIovecLen_spec hcells hgiven, hmany]
    rfl
  refine ⟨d, h, _, hset, hcells, hcount, hgiven, ?_, hmany, hwrap, ?_⟩
  · have hsize : oldSize [((default : CStr), value)] = 9 + (18 + 1 + iovSum value.iovs + 0) := rfl
    rw [hsize, hsum]
  · intro V
    have hfit := V.count
    rw [hwrap, hmany] at hfit
    injection hfit with hfit
    omega

end LzLib.Dict
