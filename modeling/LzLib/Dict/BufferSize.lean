/-
  LzLib.Dict.BufferSize
  ─────────────────────
  **THE BUFFER OF `dict_allocate_and_serialize`.**

  The length loop and the encoder follow the same pointers, but the first
  adds up an `int` and the second writes bytes.  `exactSize` is the number of
  those bytes: the length returned is what an `int` keeps of it, so that the
  buffer is large enough exactly when nothing is lost, or so much that the
  length is negative and nothing is allocated (`buffer_suffices_iff`).

  Nothing is asked of the dict here: any state, any number of buckets.
-/
import LzLib.Dict.RoundTrip

namespace LzLib.Dict

open LzLib.Foundation

/-! ## §1. The exact size. -/

/-- The bytes of a pair's key and value, as many as the encoder writes; none
when it cannot write them. -/
def entryBytes (h : DataHeap) (p : Pair) : Option Nat :=
  if p.value = 0 then none
  else match h.cells p.value, (BytePtr.mk (CStr.block p.key) 0).read (wrap32 p.key.strlen) with
    | some value, some key =>
        match value.data with
        | none => none
        | some data => (data.read value.len).map fun bytes => key.length + bytes.length
    | _, _ => none

/-- The bytes of the first `count` members from `pair` on; none when one of
them cannot be written. -/
def membersSize (pairs : Heap Pair) (h : DataHeap) : Nat → Addr → Option Nat
  | 0, _ => some 0
  | count + 1, pair =>
      if pair = 0 then none
      else match pairs pair with
        | none => none
        | some p =>
            match entryBytes h p with
            | none => none
            | some n => (membersSize pairs h count p.next).map fun rest => 9 + n + rest

/-- The bytes of a serialized dict, its count word included. -/
def exactSize (this : Dict) (h : DataHeap) : Option Nat :=
  if this.count < 0 then none
  else (membersSize this.pairs h this.count.toNat this.membersList).map fun n => 4 + n

/-- A value is an iovec or a block of bytes, never both. -/
def OneForm (h : DataHeap) : Prop := ∀ a value, h.cells a = some value → value.vec = none ∨ value.data = none

/-- **The buffer suffices**: whenever a length is returned and the encoder
succeeds, it has written no more than that. -/
def BufferSuffices (d : Dict) (h : DataHeap) : Prop :=
  ∀ len out, dictSerializedLengthLocked d h = some len → 0 ≤ len →
    dictSerializeLocked d h = some (0, out) → (out.length : Int) ≤ len

/-! ## §2. One entry. -/

section

variable {h : DataHeap} {p : Pair} {n : Nat}

/-- What there is to know of an entry that can be written. -/
theorem entryBytes_some (hn : entryBytes h p = some n) :
    p.value ≠ 0 ∧ ∃ value key data bytes, h.cells p.value = some value ∧
      (BytePtr.mk (CStr.block p.key) 0).read (wrap32 p.key.strlen) = some key ∧
      value.data = some data ∧ data.read value.len = some bytes ∧ n = key.length + bytes.length := by
  unfold entryBytes at hn
  split at hn
  · cases hn
  next hvalue =>
    split at hn
    next value key hcell hkey =>
      split at hn
      · cases hn
      next data hdata =>
        obtain ⟨bytes, hbytes, rfl⟩ := Option.map_eq_some_iff.mp hn
        exact ⟨hvalue, value, key, data, bytes, hcell, hkey, hdata, hbytes, rfl⟩
    · cases hn

/-- The encoder writes the two words, the key, its NUL and the value. -/
theorem serializePair_some (hn : entryBytes h p = some n) (out : Bytes) :
    ∃ out', serializePair h p out = some (0, out') ∧ out'.length = out.length + (9 + n) := by
  obtain ⟨hvalue, value, key, data, bytes, hcell, hkey, hdata, hbytes, rfl⟩ := entryBytes_some hn
  unfold serializePair
  rw [if_neg hvalue, hcell, hkey]
  simp only [hdata, hbytes]
  refine ⟨_, rfl, ?_⟩
  simp only [List.length_append, putWord_length, List.length_singleton]
  omega

theorem serializePair_none (hn : entryBytes h p = none) (out out' : Bytes) :
    serializePair h p out ≠ some (0, out') := by
  intro hsome
  unfold serializePair at hsome
  unfold entryBytes at hn
  split at hsome
  · cases hsome
  next hvalue =>
    rw [if_neg hvalue] at hn
    split at hsome
    next value key hcell hkey =>
      simp only [hcell, hkey] at hn
      split at hsome
      · cases hsome
      next data hdata =>
        simp only [hdata] at hn
        split at hsome
        · cases hsome
        next bytes hbytes =>
          rw [hbytes] at hn
          cases hn
    · cases hsome

/-- One turn of the length loop, on what an `int` keeps of `len`. -/
theorem pairsLength_turn (hform : OneForm h) (hn : entryBytes h p = some n) {pairs : Heap Pair} {pair : Addr}
    (hpair : pair ≠ 0) (hp : pairs pair = some p) (count : Nat) (len : Int) :
    pairsLength pairs h (count + 1) pair (wrap32 len)
      = pairsLength pairs h count p.next (wrap32 (len + (9 + n))) := by
  obtain ⟨hvalue, value, key, data, bytes, hcell, hkey, hdata, hbytes, rfl⟩ := entryBytes_some hn
  have hvec : value.vec = none := by
    rcases hform p.value value hcell with hvec | hnone
    · exact hvec
    · rw [hdata] at hnone
      cases hnone
  have hkeylen := BytePtr.read_length hkey
  have hvallen := BytePtr.read_length hbytes
  have hneg : ¬ value.len < 0 := by omega
  -- the key counts as its length, the word written is what an `int` keeps of it
  have hwrap : wrap32 (wrap32 (wrap32 (wrap32 len + (dictDataHdrKeyLen + dictDataHdrValLen))
      + (p.key.strlen + 1)) + value.len) = wrap32 (len + (9 + (key.length + bytes.length : Nat))) := by
    have hkeywrap := wrap32_add p.key.strlen (len + 9 + value.len)
    rw [← hkeylen] at hkeywrap
    simp only [wrap32_add, Int.add_assoc]
    calc wrap32 (len + (dictDataHdrKeyLen + (dictDataHdrValLen + (p.key.strlen + (1 + value.len)))))
        = wrap32 (p.key.strlen + (len + 9 + value.len)) := by
          unfold dictDataHdrKeyLen dictDataHdrValLen
          exact congrArg wrap32 (by omega)
      _ = wrap32 (key.length + (len + 9 + value.len)) := hkeywrap.symm
      _ = wrap32 (len + (9 + (key.length + bytes.length : Nat))) := by
          exact congrArg wrap32 (by push_cast; omega)
  rw [pairsLength, if_neg hpair, hp]
  simp only [if_neg hvalue, hcell, hvec, if_neg hneg]
  rw [hwrap]

end

/-! ## §3. The two loops. -/

section

variable {pairs : Heap Pair} {h : DataHeap}

/-- A member that can be written is followed by members that can. -/
theorem membersSize_succ {count n : Nat} {pair : Addr} (hn : membersSize pairs h (count + 1) pair = some n) :
    pair ≠ 0 ∧ ∃ p m rest, pairs pair = some p ∧ entryBytes h p = some m ∧
      membersSize pairs h count p.next = some rest ∧ n = 9 + m + rest := by
  unfold membersSize at hn
  split at hn
  · cases hn
  next hpair =>
    split at hn
    · cases hn
    next p hp =>
      split at hn
      · cases hn
      next m hm =>
        obtain ⟨rest, hrest, rfl⟩ := Option.map_eq_some_iff.mp hn
        exact ⟨hpair, p, m, rest, hp, hm, hrest, rfl⟩

/-- **The encoder** writes the exact number of bytes. -/
theorem serializePairs_exact {count n : Nat} {pair : Addr} (hn : membersSize pairs h count pair = some n)
    (out : Bytes) :
    ∃ out', serializePairs pairs h count pair out = some (0, out') ∧ out'.length = out.length + n := by
  induction count generalizing pair n out with
  | zero =>
      cases hn
      exact ⟨out, rfl, rfl⟩
  | succ count ih =>
      obtain ⟨hpair, p, m, rest, hp, hm, hrest, rfl⟩ := membersSize_succ hn
      obtain ⟨out₁, hone, hlen₁⟩ := serializePair_some hm out
      obtain ⟨out', hall, hlen'⟩ := ih hrest out₁
      refine ⟨out', ?_, by omega⟩
      rw [serializePairs, if_neg hpair, hp]
      simp only [hone]
      rw [if_neg (not_not.mpr rfl)]
      exact hall

/-- It succeeds on nothing else. -/
theorem serializePairs_inexact {count : Nat} {pair : Addr} (hn : membersSize pairs h count pair = none)
    (out out' : Bytes) : serializePairs pairs h count pair out ≠ some (0, out') := by
  induction count generalizing pair out with
  | zero => cases hn
  | succ count ih =>
      intro hsome
      unfold serializePairs at hsome
      unfold membersSize at hn
      split at hsome
      · cases hsome
      next hpair =>
        rw [if_neg hpair] at hn
        split at hsome
        · cases hsome
        next p hp =>
          simp only [hp] at hn
          split at hsome
          · cases hsome
          next ret out₁ hone =>
            split at hsome
            next hret =>
              cases hsome
              exact hret rfl
            next hret =>
              obtain rfl : ret = 0 := not_not.mp hret
              -- this member was written, so a later one is missing
              cases hm : entryBytes h p with
              | none => exact serializePair_none hm out out₁ hone
              | some m =>
                  simp only [hm, Option.map_eq_none_iff] at hn
                  exact ih hn out₁ hsome

/-- **The length loop** keeps what an `int` keeps of it. -/
theorem pairsLength_exact (hform : OneForm h) {count n : Nat} {pair : Addr}
    (hn : membersSize pairs h count pair = some n) (len : Int) :
    pairsLength pairs h count pair (wrap32 len) = some (wrap32 (len + n)) := by
  induction count generalizing pair n len with
  | zero =>
      cases hn
      show some (wrap32 len) = some (wrap32 (len + 0))
      rw [Int.add_zero]
  | succ count ih =>
      obtain ⟨hpair, p, m, rest, hp, hm, hrest, rfl⟩ := membersSize_succ hn
      rw [pairsLength_turn hform hm hpair hp, ih hrest]
      congr 2
      push_cast
      omega

end

/-! ## §4. Values keep their form. -/

section

variable {h h' : DataHeap} {a b : Addr} {c : Data}

theorem OneForm.set (H : OneForm h) (a : Addr) (hc : c.vec = none ∨ c.data = none) : OneForm (h.set a c) := by
  intro b value hb
  rw [DataHeap.set_cells] at hb
  split at hb
  · cases hb
    exact hc
  · exact H b value hb

theorem OneForm.free (H : OneForm h) (a : Addr) : OneForm (h.free a) := by
  intro b value hb
  rw [DataHeap.free_cells] at hb
  split at hb
  · cases hb
  · exact H b value hb

theorem OneForm.alloc (H : OneForm h) (hc : c.vec = none ∨ c.data = none) : OneForm (h.alloc c).1 := by
  intro b value hb
  rw [DataHeap.alloc_cells] at hb
  split at hb
  · cases hb
    exact hc
  · exact H b value hb

theorem OneForm.dataRef (H : OneForm h) (heq : dataRef h a = some (h', b)) : OneForm h' := by
  obtain ⟨-, ⟨-, rfl⟩ | ⟨value, -, hvalue, rfl⟩⟩ := dataRef_cases heq
  · exact H
  · exact H.set a (H a value hvalue)

theorem OneForm.dataUnref (H : OneForm h) (heq : dataUnref h a = some h') : OneForm h' := by
  cases dataUnref_cases heq with
  | null ha => exact H
  | @fewer value hvalue hmore => exact H.set a (H a value hvalue)
  | freed hvalue hlast => exact H.free a
  | @scrapped value hvalue hlast =>
      have hone := H a value hvalue
      refine H.set a ?_
      unfold Data.scrapped
      split
      · exact hone
      · simpa using hone

end

theorem OneForm.dictSet {d d' : Dict} {h h' : DataHeap} {key : Option CStr} {value : Addr} {ret : Int}
    (H : OneForm h) (heq : dictSet d h key value = some (d', h', ret)) : OneForm h' := by
  unfold LzLib.Dict.dictSet at heq
  split at heq
  · cases heq
    exact H
  · unfold dictSetLocked at heq
    obtain ⟨pair, -, heq⟩ := Option.bind_eq_some_iff.mp heq
    split at heq
    · obtain ⟨old, -, heq⟩ := Option.bind_eq_some_iff.mp heq
      obtain ⟨⟨h₁, v⟩, href, heq⟩ := Option.bind_eq_some_iff.mp heq
      obtain ⟨d₁, -, heq⟩ := Option.bind_eq_some_iff.mp heq
      obtain ⟨h₂, hunref, heq⟩ := Option.bind_eq_some_iff.mp heq
      cases heq
      exact (H.dataRef href).dataUnref hunref
    · obtain ⟨⟨h₁, v⟩, href, heq⟩ := Option.bind_eq_some_iff.mp heq
      obtain ⟨d₁, -, heq⟩ := Option.bind_eq_some_iff.mp heq
      cases heq
      exact H.dataRef href

/-! ## §5. The buffer. -/

section

variable {d : Dict} {h : DataHeap} {n : Nat}

theorem exactSize_some (hn : d.exactSize h = some n) :
    ¬ d.count < 0 ∧ ∃ m, membersSize d.pairs h d.count.toNat d.membersList = some m ∧ n = 4 + m := by
  unfold Dict.exactSize at hn
  split at hn
  · cases hn
  next hcount =>
    obtain ⟨m, hm, rfl⟩ := Option.map_eq_some_iff.mp hn
    exact ⟨hcount, m, hm, rfl⟩

/-- The length that is returned: the exact size, as an `int`. -/
theorem dictSerializedLength_exact (hform : OneForm h) (hn : d.exactSize h = some n) :
    dictSerializedLengthLocked d h = some (wrap32 n) := by
  obtain ⟨hcount, m, hm, rfl⟩ := Dict.exactSize_some hn
  unfold dictSerializedLengthLocked
  rw [if_neg hcount]
  have hloop := pairsLength_exact hform hm dictHdrLen
  have hhdr : wrap32 dictHdrLen = dictHdrLen := wrap32_eq (by decide) (by decide)
  rw [hhdr] at hloop
  rw [hloop]
  congr 2

/-- The bytes that are written: the exact size. -/
theorem dictSerialize_exact (hn : d.exactSize h = some n) :
    ∃ out, dictSerializeLocked d h = some (0, out) ∧ out.length = n := by
  obtain ⟨hcount, m, hm, rfl⟩ := Dict.exactSize_some hn
  obtain ⟨out, hout, hlen⟩ := serializePairs_exact hm (putWord d.count)
  refine ⟨out, ?_, by rw [hlen, putWord_length]⟩
  unfold dictSerializeLocked
  rw [if_neg hcount]
  exact hout

theorem dictSerialize_inexact (hn : d.exactSize h = none) (out : Bytes) :
    dictSerializeLocked d h ≠ some (0, out) := by
  intro hsome
  unfold dictSerializeLocked at hsome
  unfold Dict.exactSize at hn
  split at hsome
  · cases hsome
  next hcount =>
    rw [if_neg hcount, Option.map_eq_none_iff] at hn
    exact serializePairs_inexact hn _ out hsome

/-- What an `int` keeps of a number is no less only if it is the number. -/
theorem le_wrap32_iff (n : Nat) :
    (0 ≤ wrap32 n → (n : Int) ≤ wrap32 n) ↔ n < 2 ^ 31 ∨ 2 ^ 31 ≤ n % 2 ^ 32 := by
  unfold wrap32
  rw [Int.bmod_def]
  split <;> omega

end

/-- **THE BUFFER SUFFICES** in exactly these cases: the bytes of the serialized
dict are fewer than `2 ^ 31`, or the low 32 bits of their number make a negative
`int`. -/
theorem buffer_suffices_iff (d : Dict) {h : DataHeap} (hform : OneForm h) :
    BufferSuffices d h ↔ ∀ n, d.exactSize h = some n → n < 2 ^ 31 ∨ 2 ^ 31 ≤ n % 2 ^ 32 := by
  constructor
  · intro hsuffices n hn
    obtain ⟨out, hout, rfl⟩ := dictSerialize_exact hn
    rw [← le_wrap32_iff]
    intro hpos
    exact hsuffices _ out (dictSerializedLength_exact hform hn) hpos hout
  · intro hsize len out hlen hpos hout
    cases hn : d.exactSize h with
    | none => exact absurd hout (dictSerialize_inexact hn out)
    | some n =>
        obtain ⟨out', hout', rfl⟩ := dictSerialize_exact hn
        rw [hout, Option.some.injEq, Prod.mk.injEq] at hout'
        rw [dictSerializedLength_exact hform hn, Option.some.injEq] at hlen
        obtain rfl : out = out' := hout'.2
        rw [← hlen] at hpos ⊢
        exact (le_wrap32_iff out.length).mpr (hsize _ hn) hpos

/-- A dict that holds the entries `bs`, all of them counted. -/
theorem Serializable.exactSize {d : Dict} {h : DataHeap} {bs : List Content} (s : Serializable d h bs)
    (hfits : ∀ e ∈ bs, Fits e) : d.exactSize h = some (encodedSize bs) := by
  have hwritten := s.serialize hfits
  cases hn : d.exactSize h with
  | none => exact absurd hwritten (dictSerialize_inexact hn (encode bs))
  | some n =>
      obtain ⟨out, hout, rfl⟩ := dictSerialize_exact hn
      rw [hwritten, Option.some.injEq, Prod.mk.injEq] at hout
      rw [← hout.2, encode_length]

theorem oneForm_oneValueHeap : OneForm oneValueHeap := by
  intro a value hvalue
  replace hvalue : (if a = 1 then _ else none) = some value := hvalue
  split at hvalue
  · cases hvalue
    exact Or.inl rfl
  · cases hvalue

/-- A string of two bytes and a block of four. -/
theorem buffer_suffices_iff_sized :
    ∃ d₁ h₁ d₂ h₂,
      dictSetData dictNew oneValueHeap (some default) (strToData (some textA)) = some (d₁, h₁, 0) ∧
      dictSetDynptr d₁ h₁ (some textA) (some ⟨[0, 1, 2, 3], 0⟩) 4 = some (d₂, h₂, 0) ∧
      d₂.exactSize h₂ = some 29 ∧ BufferSuffices d₂ h₂ := by
  obtain ⟨⟨d₁, h₁, ret₁⟩, heq₁, hrest⟩ := Option.bind_eq_some_iff.mp (by decide +kernel :
    ((dictSetData dictNew oneValueHeap (some default) (strToData (some textA))).bind fun r₁ =>
      (dictSetDynptr r₁.1 r₁.2.1 (some textA) (some ⟨[0, 1, 2, 3], 0⟩) 4).map fun r₂ =>
        (r₁.2.2, r₂.2.2, r₂.1.exactSize r₂.2.1)) = some (0, 0, some 29))
  obtain ⟨⟨d₂, h₂, ret₂⟩, heq₂, hrest⟩ := Option.map_eq_some_iff.mp hrest
  obtain ⟨rfl, rfl, hsize⟩ : ret₁ = 0 ∧ ret₂ = 0 ∧ d₂.exactSize h₂ = some 29 := by simpa using hrest
  -- the constructors make values of one form
  have hform : OneForm h₂ :=
    (((oneForm_oneValueHeap.alloc (Or.inl rfl)).dictSet heq₁).alloc (Or.inl rfl)).dictSet heq₂
  refine ⟨d₁, h₁, d₂, h₂, heq₁, heq₂, hsize, (buffer_suffices_iff d₂ hform).mpr fun n hn => ?_⟩
  rw [hsize, Option.some.injEq] at hn
  exact Or.inl (by omega)

/-- The bytes of a value from `data_from_dynptr`: the whole block. -/
theorem dataBytes_dynptr (bs : Bytes) : dataBytes (dataFromDynptr (some ⟨bs, 0⟩) bs.length) = some bs := by
  show (BytePtr.mk bs 0).read bs.length = some bs
  have hin : (0 : Int) ≤ bs.length ∧ (0 : Int) ≤ 0 ∧ 0 + (bs.length : Int) ≤ bs.length := by omega
  unfold BytePtr.read
  rw [if_pos hin]
  show some ((bs.drop 0).take bs.length) = some bs
  rw [List.drop_zero, List.take_length]

/-- Two values of `INT32_MAX` bytes: 4294967317 bytes are written to a buffer of 21. -/
theorem twoLarge_overrun {bs : Bytes} (hbs : bs.length = 2 ^ 31 - 1) :
    ∃ d₁ h₁ d₂ h₂,
      dictSetDynptr dictNew oneValueHeap (some default) (some ⟨bs, 0⟩) bs.length = some (d₁, h₁, 0) ∧
      dictSetDynptr d₁ h₁ (some textA) (some ⟨bs, 0⟩) bs.length = some (d₂, h₂, 0) ∧
      dictSerializedLength d₂ h₂ = some 21 ∧ ¬ BufferSuffices d₂ h₂ := by
  have hlen : wrap32 bs.length = bs.length := wrap32_eq (by omega) (by omega)
  have H₀ : Holds dictNew oneValueHeap [] := Holds.new (Or.inl rfl) counted_oneValueHeap
  obtain ⟨d₁, h₁, heq₁, H₁, -, hcount₁⟩ :=
    H₀.setNew default (show (dataFromDynptr (some ⟨bs, 0⟩) bs.length).refcount = 0 from rfl) (by decide)
  obtain ⟨d₂, h₂, heq₂, H₂, -, hcount₂⟩ :=
    H₁.setNew textA (show (dataFromDynptr (some ⟨bs, 0⟩) bs.length).refcount = 0 from rfl)
      (by rw [hcount₁]; decide)
  have hone : (dataFromDynptr (some ⟨bs, 0⟩) bs.length).vec = none
      ∨ (dataFromDynptr (some ⟨bs, 0⟩) bs.length).data = none := Or.inl rfl
  have hform : OneForm h₂ :=
    (((oneForm_oneValueHeap.alloc hone).dictSet heq₁).alloc hone).dictSet heq₂
  -- both entries, the newer one first
  have hkeys : textA ∉ ([(default, oneValueHeap.brk, some (dataFromDynptr (some ⟨bs, 0⟩) bs.length))] :
      List Entry).map Prod.fst := by
    show textA ∉ [default]
    decide
  have hserial : Serializable d₂ h₂ [(textA, bs), (default, bs)] := by
    refine ⟨⟨_, H₂, ?_⟩, ?_⟩
    · show bytesOf (assocSet [(default, _)] textA _) = _
      rw [assocSet_of_not_mem hkeys]
      simp only [bytesOf, List.map_cons, List.map_nil, Option.bind_some, dataBytes_dynptr]
    · rw [hcount₂, hcount₁]
      show (0 : Int) + (if default ∈ [] then 0 else 1) + (if textA ∈ [default] then 0 else 1) = 2
      decide
  have hfits : ∀ e ∈ [(textA, bs), (default, bs)], Fits e := by
    intro e he
    have hvalue : bs.length < 2 ^ 31 := by omega
    rcases List.mem_cons.mp he with rfl | he
    · exact ⟨show 1 < 2 ^ 31 by omega, hvalue⟩
    · rw [List.mem_singleton.mp he]
      exact ⟨show 0 < 2 ^ 31 by omega, hvalue⟩
  have hsize : d₂.exactSize h₂ = some (2 ^ 32 + 21) := by
    rw [hserial.exactSize hfits]
    show some (4 + (9 + 1 + bs.length + (9 + 0 + bs.length + 0))) = _
    exact congrArg some (by omega)
  have hreturned : dictSerializedLengthLocked d₂ h₂ = some 21 := by
    rw [dictSerializedLength_exact hform hsize]
    decide
  refine ⟨d₁, h₁, d₂, h₂, ?_, ?_, ?_, ?_⟩
  · unfold dictSetDynptr
    rw [hlen]
    exact heq₁
  · unfold dictSetDynptr
    rw [hlen]
    exact heq₂
  · exact hreturned
  · intro hsuffices
    obtain ⟨out, hout, hwritten⟩ := dictSerialize_exact hsize
    have hle := hsuffices 21 out hreturned (by decide) hout
    omega

/-- Not every buffer suffices. -/
theorem largeBlock_overrun :
    ∃ d₁ h₁ d₂ h₂,
      dictSetDynptr dictNew oneValueHeap (some default) (some ⟨List.replicate (2 ^ 31 - 1) 0, 0⟩)
        (2 ^ 31 - 1) = some (d₁, h₁, 0) ∧
      dictSetDynptr d₁ h₁ (some textA) (some ⟨List.replicate (2 ^ 31 - 1) 0, 0⟩) (2 ^ 31 - 1)
        = some (d₂, h₂, 0) ∧
      ¬ BufferSuffices d₂ h₂ := by
  have hlen : (List.replicate (2 ^ 31 - 1) (0 : UInt8)).length = 2 ^ 31 - 1 := List.length_replicate
  obtain ⟨d₁, h₁, d₂, h₂, heq₁, heq₂, -, hnot⟩ := twoLarge_overrun hlen
  rw [hlen] at heq₁ heq₂
  exact ⟨d₁, h₁, d₂, h₂, heq₁, heq₂, hnot⟩

end LzLib.Dict
