/-
  LzLib.Dict.RoundTrip
  ────────────────────
  **THE SERIALIZED FORM OF A DICT.**

  `encode bs` is the byte string of the entries `bs` (key and bytes of the
  value, in the order of the members list).  The length loop computes its
  length, the encoder writes it, and the decoder reads it back, whatever
  follows it in the buffer.
-/
import LzLib.Dict.UnserializeMerge

namespace LzLib.Dict

open LzLib.Foundation

/-! ## §1. The byte string. -/

/-- A key and the bytes of its value. -/
abbrev Content := CStr × Bytes

/-- The bytes an entry takes up. -/
def entrySize (e : Content) : Nat := 9 + e.1.strlen + e.2.length

/-- The bytes of one entry. -/
def encodeEntry (e : Content) : Bytes :=
  putWord e.1.strlen ++ (putWord e.2.length ++ (e.1.chars ++ 0 :: e.2))

/-- The bytes of the entries, one after the other. -/
def encodeEntries (bs : List Content) : Bytes := bs.flatMap encodeEntry

/-- **The serialized form.** -/
def encode (bs : List Content) : Bytes := putWord bs.length ++ encodeEntries bs

/-- `4 + sum (9 + strlen (key) + value length)`. -/
def encodedSize (bs : List Content) : Nat := 4 + (bs.map entrySize).sum

/-- An entry whose two length words do not overflow an `int32_t`. -/
structure Fits (e : Content) : Prop where
  key : e.1.strlen < 2 ^ 31
  value : e.2.length < 2 ^ 31

theorem encodeEntry_length (e : Content) : (encodeEntry e).length = entrySize e := by
  simp only [encodeEntry, entrySize, List.length_append, putWord_length, List.length_cons, CStr.strlen]
  omega

theorem encodeEntries_length : ∀ bs : List Content, (encodeEntries bs).length = (bs.map entrySize).sum
  | [] => rfl
  | e :: bs => by
      show (encodeEntry e ++ encodeEntries bs).length = _
      rw [List.length_append, encodeEntry_length, encodeEntries_length bs, List.map_cons, List.sum_cons]

theorem encode_length (bs : List Content) : (encode bs).length = encodedSize bs := by
  rw [encode, List.length_append, encodeEntries_length, putWord_length, encodedSize]

theorem nine_mul_length_le : ∀ bs : List Content, 9 * bs.length ≤ (bs.map entrySize).sum
  | [] => Nat.le_refl 0
  | e :: bs => by
      have ih := nine_mul_length_le bs
      have he : entrySize e = 9 + e.1.strlen + e.2.length := rfl
      rw [List.map_cons, List.sum_cons, List.length_cons]
      omega

theorem entrySize_le_sum {e : Content} : ∀ {bs : List Content}, e ∈ bs →
    entrySize e ≤ (bs.map entrySize).sum
  | b :: bs, h => by
      rw [List.map_cons, List.sum_cons]
      rcases List.mem_cons.mp h with rfl | h
      · omega
      · have := entrySize_le_sum h
        omega

/-- What fits an `int32_t` in total fits entry by entry. -/
theorem fits_of_size {bs : List Content} (h : (encodedSize bs : Int) ≤ int32Max) : ∀ e ∈ bs, Fits e := by
  intro e he
  have hle := entrySize_le_sum he
  have hsize : entrySize e = 9 + e.1.strlen + e.2.length := rfl
  unfold encodedSize int32Max at h
  constructor
  · omega
  · omega

theorem length_lt_of_size {bs : List Content} (h : (encodedSize bs : Int) ≤ int32Max) :
    bs.length < 2 ^ 31 := by
  have := nine_mul_length_le bs
  unfold encodedSize int32Max at h
  omega

/-! ## §2. What a dict holds, as bytes. -/

/-- The bytes of a value that can be serialized: no iovec, a data pointer, and
`len` (not negative) readable bytes at it. -/
def dataBytes (c : Data) : Option Bytes :=
  match c.vec, c.data with
  | none, some data => data.read c.len
  | _, _ => none

/-- The bytes of the value at `a`. -/
def payload (h : DataHeap) (a : Addr) : Option Bytes := (h.cells a).bind dataBytes

/-- The members from `pair` on, at most `fuel`. -/
def walkMembers (pairs : Heap Pair) : Nat → Addr → Option (List (CStr × Addr))
  | 0, pair => if pair = 0 then some [] else none
  | fuel + 1, pair =>
      if pair = 0 then some []
      else match pairs pair with
        | none => none
        | some p => (walkMembers pairs fuel p.next).map fun es => (p.key, p.value) :: es

/-- All entries whose value has bytes; none when one has not. -/
def collect : List (CStr × Option Bytes) → Option (List Content)
  | [] => some []
  | (_, none) :: _ => none
  | (k, some v) :: l => (collect l).map fun bs => (k, v) :: bs

/-- **The contents of a dict**: the keys and bytes of its members, none when the
value of one cannot be serialized. -/
def contents (this : Dict) (h : DataHeap) : Option (List Content) :=
  (walkMembers this.pairs this.brk this.membersList).bind fun es =>
    collect (es.map fun e => (e.1, payload h e.2))

/-- The bytes of the value of `k`. -/
def content (this : Dict) (h : DataHeap) (k : CStr) : Option Bytes :=
  (dictGet this k).bind (payload h)

/-- The entries' bytes. -/
def bytesOf (cs : List Entry) : List (CStr × Option Bytes) :=
  cs.map fun e => (e.1, e.2.2.bind dataBytes)

theorem payload_eq_view (h : DataHeap) (a : Addr) : payload h a = (h.view a).bind dataBytes := by
  unfold payload DataHeap.view
  cases h.cells a <;> rfl

theorem bytesOf_withView (h : DataHeap) (es : List (CStr × Addr)) :
    bytesOf (es.map fun e => (e.1, e.2, h.view e.2)) = es.map fun e => (e.1, payload h e.2) := by
  unfold bytesOf
  rw [List.map_map]
  apply List.map_congr_left
  intro e _
  rw [payload_eq_view]
  rfl

theorem collect_eq_some : ∀ {l : List (CStr × Option Bytes)} {bs : List Content},
    collect l = some bs ↔ l = bs.map fun e => (e.1, some e.2)
  | [], bs => by
      constructor
      · intro h; cases h; rfl
      · intro h
        cases bs with
        | nil => rfl
        | cons b bs => cases h
  | (k, none) :: l, bs => by
      constructor
      · intro h; cases h
      · intro h
        cases bs with
        | nil => cases h
        | cons b bs => cases h
  | (k, some v) :: l, bs => by
      rw [collect, Option.map_eq_some_iff]
      constructor
      · rintro ⟨bs', h, rfl⟩
        rw [List.map_cons, collect_eq_some.mp h]
      · intro h
        cases bs with
        | nil => cases h
        | cons b bs =>
            rw [List.map_cons] at h
            injection h with hb hl
            cases hb
            exact ⟨bs, collect_eq_some.mpr hl, rfl⟩

theorem walkMembers_spec {d : Dict} : ∀ {fuel : Nat} {p : Addr} {ms : List Addr},
    Chain (readOf Pair.next d.pairs) p ms → ms.length ≤ fuel → (∀ q ∈ ms, (d.pairs q).isSome = true) →
    walkMembers d.pairs fuel p = some (d.entries ms)
  | 0, p, [], h, _, _ => by
      have hp : p = 0 := h
      subst hp
      rfl
  | fuel + 1, p, [], h, _, _ => by
      have hp : p = 0 := h
      subst hp
      rfl
  | fuel + 1, p, q :: ms, h, hlen, hlive => by
      obtain ⟨rfl, hp, n, hn, h⟩ := h
      obtain ⟨c, hc, rfl⟩ := Option.map_eq_some_iff.mp hn
      have hlen' : ms.length ≤ fuel := Nat.le_of_succ_le_succ hlen
      have ih : walkMembers d.pairs fuel c.next = some (d.entries ms) :=
        walkMembers_spec h hlen' (fun q hq => hlive q (by simp [hq]))
      unfold walkMembers
      rw [if_neg hp, hc]
      show (walkMembers d.pairs fuel c.next).map _ = _
      rw [ih]
      have hkey : d.keyAt p = c.key := by rw [Dict.keyAt, readOf_some _ _ hc]; rfl
      have hval : d.valueAt p = c.value := by rw [Dict.valueAt, readOf_some _ _ hc]; rfl
      show some ((c.key, c.value) :: d.entries ms) = some ((d.keyAt p, d.valueAt p) :: d.entries ms)
      rw [hkey, hval]

theorem Shape.walk {d : Dict} {ms : List Addr} {ch : Int → List Addr} (S : Shape d ms ch) :
    walkMembers d.pairs d.brk d.membersList = some (d.entries ms) := by
  have hsub : ms ⊆ List.range d.brk := fun p hp => List.mem_range.mpr (S.below p hp)
  have hlen := (List.subperm_of_subset S.nodup hsub).length_le
  rw [List.length_range] at hlen
  exact walkMembers_spec S.list.chain hlen (fun q hq => (S.live q).mpr hq)

/-- The contents are the bytes of the entries held. -/
theorem Holds.contents_iff {d : Dict} {h : DataHeap} {cs : List Entry} (H : Holds d h cs)
    {bs : List Content} :
    d.contents h = some bs ↔ bytesOf cs = bs.map fun e => (e.1, some e.2) := by
  obtain ⟨es, R, rfl⟩ := H
  obtain ⟨ms, ch, S, rfl⟩ := R.shape
  rw [Dict.contents, S.walk, bytesOf_withView]
  exact collect_eq_some

/-- The content of a key. -/
theorem Holds.content {d : Dict} {h : DataHeap} {cs : List Entry} (H : Holds d h cs) (k : CStr) :
    d.content h k = (assocGet (bytesOf cs) k).bind id := by
  have hnull : payload h 0 = none := by
    obtain ⟨es, R, _⟩ := H
    unfold payload
    cases hc : h.cells 0 with
    | none => rfl
    | some c => exact absurd rfl (R.counted.below 0 c hc).1
  have hbytes : assocGet (bytesOf cs) k = (assocGet cs k).map fun e => e.2.bind dataBytes :=
    assocGet_map (fun e : Addr × Option Data => e.2.bind dataBytes) cs k
  rw [Dict.content, hbytes]
  cases hget : assocGet cs k with
  | none =>
      rw [H.get, hget]
      exact hnull
  | some e =>
      obtain ⟨_, hd, hview⟩ := H.found (a := e.1) (c := e.2) hget
      rw [hd]
      show payload h e.1 = e.2.bind dataBytes
      rw [payload_eq_view, hview]

/-! ## §3. The length loop and the encoder. -/

theorem BytePtr.read_length {p : BytePtr} {n : Int} {bs : Bytes} (h : p.read n = some bs) :
    (bs.length : Int) = n := by
  unfold BytePtr.read at h
  split at h
  next hin =>
    cases h
    rw [List.length_take, List.length_drop]
    omega
  next => cases h

theorem dataBytes_some {c : Data} {bs : Bytes} (h : dataBytes c = some bs) :
    c.vec = none ∧ (bs.length : Int) = c.len ∧ ∃ p, c.data = some p ∧ p.read c.len = some bs := by
  unfold dataBytes at h
  split at h
  next p hv hd => exact ⟨hv, BytePtr.read_length h, p, hd, h⟩
  next => cases h

/-- The key is read up to its NUL. -/
theorem read_key (k : CStr) : (BytePtr.mk (CStr.block k) 0).read k.strlen = some k.chars := by
  unfold BytePtr.read CStr.block
  rw [if_pos]
  · simp [CStr.strlen]
  · simp only [CStr.strlen, List.length_append, List.length_singleton]
    omega

theorem wrap32_strlen {k : CStr} (h : k.strlen < 2 ^ 31) : wrap32 k.strlen = k.strlen :=
  wrap32_eq (by omega) (by omega)

/-- The first member of a list of members with bytes, as both loops see it. -/
structure FirstMember (d : Dict) (h : DataHeap) (p q : Addr) (ms : List Addr) (k : CStr) (v : Bytes)
    (c : Pair) (value : Data) (data : BytePtr) : Prop where
  here : p = q
  nonNull : p ≠ 0
  pair : d.pairs p = some c
  key : c.key = k
  valueNonNull : c.value ≠ 0
  cell : h.cells c.value = some value
  vec : value.vec = none
  len : (v.length : Int) = value.len
  ptr : value.data = some data
  read : data.read value.len = some v
  next : Chain (readOf Pair.next d.pairs) c.next ms

theorem firstMember {d : Dict} {h : DataHeap} (h0 : h.cells 0 = none) {p q : Addr} {ms : List Addr}
    {k : CStr} {v : Bytes} {bs : List Content} (hch : Chain (readOf Pair.next d.pairs) p (q :: ms))
    (hbs : (d.entries (q :: ms)).map (fun e => (e.1, payload h e.2))
      = ((k, v) :: bs).map fun e => (e.1, some e.2)) :
    (∃ c value data, FirstMember d h p q ms k v c value data) ∧
      (d.entries ms).map (fun e => (e.1, payload h e.2)) = bs.map fun e => (e.1, some e.2) := by
  obtain ⟨rfl, hp, n, hn, hch⟩ := hch
  obtain ⟨c, hc, rfl⟩ := Option.map_eq_some_iff.mp hn
  have hkey : d.keyAt p = c.key := by rw [Dict.keyAt, readOf_some _ _ hc]; rfl
  have hval : d.valueAt p = c.value := by rw [Dict.valueAt, readOf_some _ _ hc]; rfl
  injection hbs with hhead htail
  injection hhead with hk hv
  replace hk : d.keyAt p = k := hk
  replace hv : payload h (d.valueAt p) = some v := hv
  rw [hval] at hv
  obtain ⟨value, hvalue, hbytes⟩ := Option.bind_eq_some_iff.mp hv
  obtain ⟨hvec, hlen, data, hdata, hread⟩ := dataBytes_some hbytes
  have hv0 : c.value ≠ 0 := fun h' => by rw [h', h0] at hvalue; cases hvalue
  exact ⟨⟨c, value, data, rfl, hp, hc, hkey ▸ hk, hv0, hvalue, hvec, hlen, hdata, hread, hch⟩, htail⟩

/-- One turn of the encoder writes one encoded entry. -/
theorem FirstMember.serialize {d : Dict} {h : DataHeap} {p q : Addr} {ms : List Addr} {k : CStr}
    {v : Bytes} {c : Pair} {value : Data} {data : BytePtr} (F : FirstMember d h p q ms k v c value data)
    (hfk : k.strlen < 2 ^ 31) (out : Bytes) :
    serializePair h c out = some (0, out ++ encodeEntry (k, v)) := by
  have hout : out ++ putWord k.strlen ++ putWord value.len ++ k.chars ++ [0] ++ v
      = out ++ encodeEntry (k, v) := by
    rw [← F.len]
    simp [encodeEntry]
  unfold serializePair
  rw [if_neg F.valueNonNull, F.key, wrap32_strlen hfk, F.cell, read_key]
  simp only [F.ptr, F.read]
  rw [hout]

/-- **The encoder** writes the encoded entries. -/
theorem serializePairs_spec {d : Dict} {h : DataHeap} (h0 : h.cells 0 = none) :
    ∀ {p : Addr} {ms : List Addr} {bs : List Content} (out : Bytes),
    Chain (readOf Pair.next d.pairs) p ms →
    (d.entries ms).map (fun e => (e.1, payload h e.2)) = bs.map (fun e => (e.1, some e.2)) →
    (∀ e ∈ bs, Fits e) →
    serializePairs d.pairs h ms.length p out = some (0, out ++ encodeEntries bs)
  | _, [], bs, out, _, hbs, _ => by
      obtain rfl : bs = [] := List.map_eq_nil_iff.mp hbs.symm
      show some ((0 : Int), out) = some (0, out ++ [])
      rw [List.append_nil]
  | p, q :: ms, [], out, _, hbs, _ => by simp [Dict.entries] at hbs
  | p, q :: ms, (k, v) :: bs, out, hch, hbs, hfits => by
      obtain ⟨⟨c, value, data, F⟩, htail⟩ := firstMember h0 hch hbs
      have hrest := serializePairs_spec h0 (out ++ encodeEntry (k, v)) F.next htail
        (fun e he => hfits e (List.mem_cons_of_mem _ he))
      have hone := F.serialize (hfits (k, v) List.mem_cons_self).key out
      rw [List.length_cons, serializePairs, if_neg F.nonNull, F.pair]
      simp only [hone]
      rw [if_neg (not_not.mpr rfl), hrest, encodeEntries, encodeEntries, List.flatMap_cons,
        List.append_assoc]

/-- **The length loop** computes the encoded size. -/
theorem pairsLength_spec {d : Dict} {h : DataHeap} (h0 : h.cells 0 = none) :
    ∀ {p : Addr} {ms : List Addr} {bs : List Content} {len : Nat},
    Chain (readOf Pair.next d.pairs) p ms →
    (d.entries ms).map (fun e => (e.1, payload h e.2)) = bs.map (fun e => (e.1, some e.2)) →
    ((len + (bs.map entrySize).sum : Nat) : Int) ≤ int32Max →
    pairsLength d.pairs h ms.length p len = some ((len + (bs.map entrySize).sum : Nat) : Int)
  | _, [], bs, len, _, hbs, _ => by
      obtain rfl : bs = [] := List.map_eq_nil_iff.mp hbs.symm
      rfl
  | p, q :: ms, [], len, _, hbs, _ => by simp [Dict.entries] at hbs
  | p, q :: ms, (k, v) :: bs, len, hch, hbs, htotal => by
      obtain ⟨⟨c, value, data, F⟩, htail⟩ := firstMember h0 hch hbs
      have hsize : entrySize (k, v) = 9 + c.key.strlen + v.length := by rw [F.key]; rfl
      rw [List.map_cons, List.sum_cons, hsize] at htotal ⊢
      have hcast : ((len + (9 + c.key.strlen + v.length) + (bs.map entrySize).sum : Nat) : Int)
          ≤ int32Max := by omega
      have ih := pairsLength_spec h0 F.next htail hcast
      have hlen := F.len
      unfold int32Max at htotal
      -- no addition overflows: every partial sum is at most the total
      have h₁ : wrap32 ((len : Int) + (dictDataHdrKeyLen + dictDataHdrValLen)) = len + 8 :=
        wrap32_eq (by unfold dictDataHdrKeyLen dictDataHdrValLen; omega)
          (by unfold dictDataHdrKeyLen dictDataHdrValLen; omega)
      have h₂ : wrap32 ((len : Int) + 8 + (c.key.strlen + 1)) = len + 9 + c.key.strlen := by
        rw [wrap32_eq (by omega) (by omega)]
        omega
      have h₃ : wrap32 ((len : Int) + 9 + c.key.strlen + value.len)
          = (len + (9 + c.key.strlen + v.length) : Nat) := by
        rw [← hlen, wrap32_eq (by omega) (by omega)]
        push_cast
        omega
      have hneg : ¬ value.len < 0 := by omega
      rw [List.length_cons, pairsLength, if_neg F.nonNull, F.pair]
      simp only [h₁, h₂, if_neg F.valueNonNull, F.cell, F.vec, if_neg hneg, h₃, ih]
      rw [Nat.add_assoc]

/-- What both loops need of a dict: members with bytes, as many as it counts. -/
structure Serializable (d : Dict) (h : DataHeap) (bs : List Content) : Prop where
  holds : ∃ cs, Holds d h cs ∧ bytesOf cs = bs.map fun e => (e.1, some e.2)
  count : d.count = bs.length

section

variable {d : Dict} {h : DataHeap} {bs : List Content}

theorem Serializable.members (s : Serializable d h bs) :
    ∃ ms ch, Shape d ms ch ∧ h.cells 0 = none ∧ d.count.toNat = ms.length ∧
      (d.entries ms).map (fun e => (e.1, payload h e.2)) = bs.map fun e => (e.1, some e.2) := by
  obtain ⟨cs, ⟨es, R, rfl⟩, hbs⟩ := s.holds
  obtain ⟨ms, ch, S, rfl⟩ := R.shape
  rw [bytesOf_withView] at hbs
  refine ⟨ms, ch, S, ?_, ?_, hbs⟩
  · cases hc : h.cells 0 with
    | none => rfl
    | some c => exact absurd rfl (R.counted.below 0 c hc).1
  · have hlen := congrArg List.length hbs
    simp only [Dict.entries, List.length_map] at hlen
    rw [s.count, hlen]
    rfl

/-- **`_dict_serialize`** writes the encoding. -/
theorem Serializable.serialize (s : Serializable d h bs) (hfits : ∀ e ∈ bs, Fits e) :
    dictSerializeLocked d h = some (0, encode bs) := by
  obtain ⟨ms, ch, S, h0, hcount, hbs⟩ := s.members
  have hneg : ¬ d.count < 0 := by rw [s.count]; omega
  unfold dictSerializeLocked
  rw [if_neg hneg, hcount, serializePairs_spec h0 _ S.list.chain hbs hfits, s.count]
  rfl

/-- **`_dict_serialized_length`** is its length. -/
theorem Serializable.serializedLength (s : Serializable d h bs)
    (hsize : (encodedSize bs : Int) ≤ int32Max) :
    dictSerializedLengthLocked d h = some ((encode bs).length : Int) := by
  obtain ⟨ms, ch, S, h0, hcount, hbs⟩ := s.members
  have hneg : ¬ d.count < 0 := by rw [s.count]; omega
  unfold dictSerializedLengthLocked
  rw [if_neg hneg, hcount, encode_length]
  exact pairsLength_spec h0 S.list.chain hbs hsize

/-- **`dict_allocate_and_serialize`** returns 0, the encoding and its length. -/
theorem Serializable.allocate (s : Serializable d h bs) (hsize : (encodedSize bs : Int) ≤ int32Max) :
    dictAllocateAndSerialize d h true = some (0, some (encode bs), some ((encode bs).length : Int)) := by
  unfold dictAllocateAndSerialize
  rw [s.serializedLength hsize, s.serialize (fits_of_size hsize)]
  simp

end

/-! ## §4. The decoder on an encoding. -/

theorem wordAt_append (pre rest : Bytes) {n : Int} (h₁ : -2 ^ 31 ≤ n) (h₂ : n < 2 ^ 31) :
    wordAt (pre ++ (putWord n ++ rest)) pre.length = some n := by
  unfold wordAt
  rw [if_pos (Int.natCast_nonneg _), Int.toNat_natCast, List.drop_left]
  exact getWord_putWord h₁ h₂ rest

theorem stringAt_append (pre rest : Bytes) (k : CStr) :
    stringAt (pre ++ (k.chars ++ 0 :: rest)) pre.length = some k := by
  unfold stringAt
  rw [if_pos (Int.natCast_nonneg _), Int.toNat_natCast, List.drop_left]
  exact CStr.scan_chars k rest

theorem read_append (pre v rest : Bytes) :
    (BytePtr.mk (pre ++ (v ++ rest)) pre.length).read v.length = some v := by
  unfold BytePtr.read
  rw [if_pos]
  · rw [Int.toNat_natCast, Int.toNat_natCast, List.drop_left, List.take_left]
  · simp only [List.length_append]
    omega

/-- **An encoded entry is admitted** wherever it stands, and decodes to its key
and its bytes. -/
theorem encodeEntry_admitted (pre post : Bytes) {k : CStr} {v : Bytes} (hfits : Fits (k, v)) :
    Admitted (pre ++ (encodeEntry (k, v) ++ post)) pre.length k.strlen v.length ∧
      stringAt (pre ++ (encodeEntry (k, v) ++ post)) (pre.length + 8) = some k ∧
      dataBytes (entryValue (pre ++ (encodeEntry (k, v) ++ post)) pre.length k.strlen v.length) = some v := by
  have hk := hfits.key
  have hv := hfits.value
  dsimp only at hk hv
  -- the buffer, cut in front of each field
  have hkeylen : pre ++ (encodeEntry (k, v) ++ post)
      = pre ++ (putWord k.strlen ++ (putWord v.length ++ (k.chars ++ 0 :: v) ++ post)) := by
    simp [encodeEntry]
  have hvallen : pre ++ (encodeEntry (k, v) ++ post)
      = (pre ++ putWord k.strlen) ++ (putWord v.length ++ ((k.chars ++ 0 :: v) ++ post)) := by
    simp [encodeEntry]
  have hkey : pre ++ (encodeEntry (k, v) ++ post)
      = (pre ++ putWord k.strlen ++ putWord v.length) ++ (k.chars ++ 0 :: (v ++ post)) := by
    simp [encodeEntry]
  have hval : pre ++ (encodeEntry (k, v) ++ post)
      = (pre ++ putWord k.strlen ++ putWord v.length ++ k.chars ++ [0]) ++ (v ++ post) := by
    simp [encodeEntry]
  have hsize : (pre ++ (encodeEntry (k, v) ++ post)).length
      = pre.length + (9 + k.strlen + v.length) + post.length := by
    rw [List.length_append, List.length_append, encodeEntry_length, entrySize]
    dsimp only
    omega
  refine ⟨⟨?_, ?_, by rw [hsize]; omega, by rw [hsize]; omega⟩, ?_, ?_⟩
  · rw [hkeylen]
    exact wordAt_append pre _ (by omega) (by omega)
  · have hoff : (pre.length : Int) + 4 = ((pre ++ putWord k.strlen).length : Int) := by
      rw [List.length_append, putWord_length]
      rfl
    rw [hvallen, hoff]
    exact wordAt_append _ _ (by omega) (by omega)
  · have hoff : (pre.length : Int) + 8
        = ((pre ++ putWord k.strlen ++ putWord v.length).length : Int) := by
      simp only [List.length_append, putWord_length]
      omega
    rw [hkey, hoff]
    exact stringAt_append _ _ k
  · have hoff : (pre.length : Int) + 9 + k.strlen
        = ((pre ++ putWord k.strlen ++ putWord v.length ++ k.chars ++ [0]).length : Int) := by
      simp only [List.length_append, putWord_length, List.length_singleton, CStr.strlen]
      omega
    show (BytePtr.mk _ _).read _ = _
    rw [hval, hoff]
    exact read_append _ v post

/-- **The loop on encoded entries** gets through all of them and returns 0. -/
theorem unserializePairs_encode {buf : Bytes} (post : Bytes) : ∀ {bs : List Content} (pre : Bytes)
    {cs : List Entry} (r : UnserializeRun), buf = pre ++ (encodeEntries bs ++ post) →
    (∀ e ∈ bs, Fits e) → Holds r.this r.heap cs → r.this.count + bs.length ≤ int32Max →
    (unserializePairs buf buf.length bs.length pre.length r).ret = some 0 ∧
      (decodedFrom buf bs.length pre.length).map (fun e => (e.1, dataBytes e.2))
        = bs.map fun e => (e.1, some e.2)
  | [], _, _, _, _, _, _, _ => ⟨rfl, rfl⟩
  | (k, v) :: bs, pre, cs, r, hbuf, hfits, H, hfew => by
      have hcut : buf = pre ++ (encodeEntry (k, v) ++ (encodeEntries bs ++ post)) := by
        rw [hbuf, encodeEntries, List.flatMap_cons, List.append_assoc]
        rfl
      obtain ⟨A, hkey, hbytes⟩ := encodeEntry_admitted pre (encodeEntries bs ++ post)
        (hfits (k, v) List.mem_cons_self)
      rw [← hcut] at A hkey hbytes
      have hoff : (pre.length : Int) + 9 + k.strlen + v.length
          = ((pre ++ encodeEntry (k, v)).length : Int) := by
        rw [List.length_append, encodeEntry_length, entrySize]
        push_cast
        omega
      rw [List.length_cons] at hfew
      obtain ⟨d', h', hset, H', -, hcount⟩ :=
        H.setNew k (c := entryValue buf pre.length k.strlen v.length) rfl (by omega)
      have hfew' : d'.count + bs.length ≤ int32Max := by
        split at hcount <;> omega
      have hrest : buf = pre ++ encodeEntry (k, v) ++ (encodeEntries bs ++ post) := by
        rw [hcut, List.append_assoc]
      have ih := unserializePairs_encode post (pre ++ encodeEntry (k, v))
        (r.store pre.length k.strlen v.length k d' h') hrest
        (fun e he => hfits e (List.mem_cons_of_mem _ he)) H' hfew'
      rw [List.length_cons, unserializePairs_admitted bs.length A, decodedFrom, admittedAt_iff.mpr A]
      simp only [hkey, hset, hoff, List.map_cons, hbytes]
      exact ⟨ih.1, by rw [ih.2]⟩

theorem bytesOf_mergeAll : ∀ (brk : Addr) (cs : List Entry) (ds : List (CStr × Data)),
    bytesOf (mergeAll brk cs ds)
      = (ds.map fun e => (e.1, dataBytes e.2)).foldl (fun l e => assocSet l e.1 e.2) (bytesOf cs)
  | _, _, [] => rfl
  | brk, cs, (k, c) :: ds => by
      have hset : bytesOf (assocSet cs k (brk, some c)) = assocSet (bytesOf cs) k (dataBytes c) :=
        (assocSet_map (fun e : Addr × Option Data => e.2.bind dataBytes) cs k (brk, some c)).symm
      rw [mergeAll, bytesOf_mergeAll (brk + 1), hset, List.map_cons, List.foldl_cons]

/-- **`dict_unserialize` of an encoding** returns 0 and merges the entries; `count`
becomes the number of new keys. -/
theorem dictUnserialize_encode {d : Dict} {h : DataHeap} {cs : List Entry} (H : Holds d h cs)
    {bs : List Content} (trailing : Bytes) (hsize : ((encode bs ++ trailing).length : Int) ≤ int32Max) :
    (dictUnserialize (encode bs ++ trailing) d h).ret = some 0 ∧
      ∃ cs', Holds (dictUnserialize (encode bs ++ trailing) d h).this
          (dictUnserialize (encode bs ++ trailing) d h).heap cs' ∧
        bytesOf cs' = (bs.map fun e => (e.1, some e.2)).foldl (fun l e => assocSet l e.1 e.2) (bytesOf cs) ∧
        (dictUnserialize (encode bs ++ trailing) d h).this.count = cs'.length - cs.length ∧
        cs.length ≤ cs'.length := by
  have hle : (encodedSize bs : Int) ≤ int32Max := by
    rw [List.length_append, encode_length] at hsize
    omega
  have hcount := length_lt_of_size hle
  have hbuf : encode bs ++ trailing = putWord bs.length ++ (encodeEntries bs ++ trailing) := by
    rw [encode, List.append_assoc]
  have hword : wordAt (encode bs ++ trailing) 0 = some bs.length := by
    have := wordAt_append [] (encodeEntries bs ++ trailing) (n := bs.length) (by omega) (by omega)
    rwa [List.nil_append, ← hbuf] at this
  rw [dictUnserialize_loop d h hword (Int.natCast_nonneg _), Int.toNat_natCast]
  have H₀ := H.withCount 0
  have hfew : (0 : Int) + bs.length ≤ int32Max := announced_fit hword (Int.natCast_nonneg _)
  obtain ⟨hret, hdec⟩ := unserializePairs_encode trailing (putWord bs.length)
    ⟨none, { d with count := 0 }, h, [(0, 4)], []⟩ hbuf (fits_of_size hle) H₀ hfew
  rw [putWord_length] at hret hdec
  obtain ⟨H', hcnt⟩ := unserializePairs_merge bs.length 4
    ⟨none, { d with count := 0 }, h, [(0, 4)], []⟩ H₀ hfew (by
      show (unserializePairs _ _ _ ((4 : Nat) : Int) _).ret ≠ none
      rw [hret]; exact Option.some_ne_none 0)
  refine ⟨hret, _, H', ?_, ?_, length_le_mergeAll _ _ _⟩
  · rw [bytesOf_mergeAll]
    exact congrArg (fun l => l.foldl (fun l e => assocSet l e.1 e.2) (bytesOf cs)) hdec
  · rw [hcnt]
    exact Int.zero_add _

/-! ## §5. `count` after decoding into a dict that may hold entries. -/

/-- A series of `dict_del`. -/
def dictDelAll (this : Dict) (h : DataHeap) : List CStr → Option (Dict × DataHeap)
  | [] => some (this, h)
  | key :: keys =>
      match dictDel this h key with
      | none => none
      | some (this, h) => dictDelAll this h keys

/-- **What `count` is good for**: it is the number of pairs on the members list
and on the chains, serializing emits every entry, and deleting never drives it
below zero. -/
def CountsAll (d : Dict) (h : DataHeap) : Prop :=
  WellRepresented d ∧
    (∃ bs, d.contents h = some bs ∧ dictSerialize d h = some (0, encode bs)) ∧
    ∀ keys, ∃ d' h', dictDelAll d h keys = some (d', h') ∧ 0 ≤ d'.count

theorem dictDelAll_count : ∀ (keys : List CStr) {d : Dict} {h : DataHeap} {es : List (CStr × Addr)},
    Rep d h es → d.count = es.length → ∃ d' h', dictDelAll d h keys = some (d', h') ∧ 0 ≤ d'.count
  | [], d, h, es, _, hc => ⟨d, h, rfl, by rw [hc]; exact Int.natCast_nonneg _⟩
  | key :: keys, d, h, es, R, hc => by
      have hlow : -int32Max ≤ d.count := by
        rw [hc]
        unfold int32Max
        omega
      obtain ⟨d₁, h₁, heq, R₁, _, hc₁⟩ := dictDel_rep R key fun _ => hlow
      have hlen : d₁.count = (assocDel es key).length := by
        rw [length_assocDel R.distinct, hc₁, hc]
      obtain ⟨d', h', hrest, hpos⟩ := dictDelAll_count keys R₁ hlen
      refine ⟨d', h', ?_, hpos⟩
      rw [dictDelAll, heq]
      exact hrest

/-- The pairs of a dict are as many as its entries. -/
theorem WellRepresented.count {d : Dict} {h : DataHeap} {cs : List Entry} (W : WellRepresented d)
    (H : Holds d h cs) : d.count = cs.length := by
  obtain ⟨ms, ch, hlist, _, _, hcount⟩ := W
  obtain ⟨es, R, rfl⟩ := H
  obtain ⟨ms', ch', S, rfl⟩ := R.shape
  rw [hcount, hlist.chain.unique S.list.chain]
  simp [Dict.entries]

/-- A dict whose entries can be serialized and are all counted. -/
theorem Serializable.countsAll {d : Dict} {h : DataHeap} {bs : List Content} (s : Serializable d h bs)
    (hfits : ∀ e ∈ bs, Fits e) : CountsAll d h := by
  have hser := s.serialize hfits
  obtain ⟨cs, H, hbs⟩ := s.holds
  have hcontents := H.contents_iff.mpr hbs
  obtain ⟨es, R, hcs⟩ := H
  have hlen : d.count = es.length := by
    have := congrArg List.length hbs
    rw [hcs, bytesOf, List.length_map, List.length_map, List.length_map] at this
    rw [s.count, this]
  refine ⟨?_, ⟨bs, hcontents, hser⟩, fun keys => dictDelAll_count keys R hlen⟩
  obtain ⟨ms, ch, S, rfl⟩ := R.shape
  refine ⟨ms, ch, S.list, keys_entries ms ▸ R.distinct, fun i => ⟨S.chain i, (S.chain i).nodup, ?_⟩, ?_⟩
  · intro p
    rw [S.mem_chain, setBucket_one R.hashSize, getBucket_one R.hashSize]
  · rw [hlen, Dict.entries, List.length_map]

/-- **`dict_unserialize` leaves a good `count` exactly in a dict that was empty.** -/
theorem dictUnserialize_countsAll_iff {α : Type} {h₀ : DataHeap} (hh : Counted h₀ [])
    (ops : List (DictOp α)) (hl : (dictComponent α).Legal ⟨dictNew, h₀, []⟩ ops) {s : DictState}
    (hs : (dictComponent α).run ⟨dictNew, h₀, []⟩ ops = some s) (bs : List Content) (trailing : Bytes)
    (hsize : ((encode bs ++ trailing).length : Int) ≤ int32Max) :
    (dictUnserialize (encode bs ++ trailing) s.dict s.heap).ret = some 0 ∧
      (CountsAll (dictUnserialize (encode bs ++ trailing) s.dict s.heap).this
          (dictUnserialize (encode bs ++ trailing) s.dict s.heap).heap
        ↔ s.dict.count = 0) := by
  obtain ⟨es, I⟩ := dict_run_inv (Or.inl rfl) hh hl hs
  have H : Holds s.dict s.heap (es.map fun e => (e.1, e.2, s.heap.view e.2)) := ⟨es, I.rep, rfl⟩
  obtain ⟨hret, cs', H', hbytes, hcount, hle⟩ := dictUnserialize_encode H trailing hsize
  rw [List.length_map] at hcount hle
  refine ⟨hret, ?_⟩
  constructor
  · intro C
    -- every pair is counted, but only the new keys were
    have hall := C.1.count H'
    have hsame : (es.length : Int) = 0 := by omega
    rw [I.count, hsame]
  · intro h0
    have hes : es = [] := List.eq_nil_of_length_eq_zero (by have := I.count; omega)
    subst hes
    have hfold := foldl_assocSet_map (fun v : Bytes => some v) bs []
    have hsome : bytesOf cs' = (bs.foldl (fun l e => assocSet l e.1 e.2) []).map fun e => (e.1, some e.2) :=
      hbytes.trans hfold
    have hlen := congrArg List.length hsome
    rw [bytesOf, List.length_map, List.length_map] at hlen
    have hfits : ∀ e ∈ bs, Fits e := by
      apply fits_of_size
      rw [List.length_append, encode_length] at hsize
      omega
    have S : Serializable (dictUnserialize (encode bs ++ trailing) s.dict s.heap).this
        (dictUnserialize (encode bs ++ trailing) s.dict s.heap).heap
        (bs.foldl (fun l e => assocSet l e.1 e.2) []) :=
      ⟨⟨cs', H', hsome⟩, by rw [hcount, ← hlen]; exact Int.sub_zero _⟩
    exact S.countsAll fun e he => hfits e ((mem_foldl_assocSet he).resolve_left List.not_mem_nil)

/-- A string and a number under two keys; the number is overwritten with four bytes. -/
def sizedValues : List (DictOp Unit) :=
  [.setData (some default) (strToData (some textA)), .setData (some textA) (some (dataFromInt 5)),
    .setData (some textA) (binToData (some ⟨[0, 1, 2, 3], 0⟩) 4)]

/-- Two entries under one key and one under another. -/
def threeEntries : List Content := [(default, [1]), (textA, [2, 3]), (default, [])]

/-- The same buffer in two dicts: the one has been emptied, the other has not. -/
theorem dictUnserialize_countsAll_iff_threeEntries :
    (∃ s, (dictComponent Unit).run ⟨dictNew, oneValueHeap, []⟩ (sizedValues ++ [.del default, .del textA]) = some s ∧
      CountsAll (dictUnserialize (encode threeEntries ++ [7]) s.dict s.heap).this
        (dictUnserialize (encode threeEntries ++ [7]) s.dict s.heap).heap) ∧
    ∃ s, (dictComponent Unit).run ⟨dictNew, oneValueHeap, []⟩ (sizedValues ++ [.del default]) = some s ∧
      ¬ CountsAll (dictUnserialize (encode threeEntries ++ [7]) s.dict s.heap).this
        (dictUnserialize (encode threeEntries ++ [7]) s.dict s.heap).heap := by
  obtain ⟨s, hs, hzero⟩ := Option.map_eq_some_iff.mp (by decide +kernel :
    ((dictComponent Unit).run ⟨dictNew, oneValueHeap, []⟩ (sizedValues ++ [.del default, .del textA])).map
      (fun s => s.dict.count) = some 0)
  obtain ⟨s', hs', hone⟩ := Option.map_eq_some_iff.mp (by decide +kernel :
    ((dictComponent Unit).run ⟨dictNew, oneValueHeap, []⟩ (sizedValues ++ [.del default])).map
      (fun s => s.dict.count) = some 1)
  have hl : (dictComponent Unit).Legal ⟨dictNew, oneValueHeap, []⟩ (sizedValues ++ [.del default, .del textA]) :=
    (dictComponent Unit).legal_of_check (by decide +kernel)
  have hl' : (dictComponent Unit).Legal ⟨dictNew, oneValueHeap, []⟩ (sizedValues ++ [.del default]) :=
    (dictComponent Unit).legal_of_check (by decide +kernel)
  have hemptied := dictUnserialize_countsAll_iff counted_oneValueHeap _ hl hs threeEntries [7] (by decide +kernel)
  have hleft := dictUnserialize_countsAll_iff counted_oneValueHeap _ hl' hs' threeEntries [7] (by decide +kernel)
  refine ⟨⟨s, hs, hemptied.2.mpr hzero⟩, s', hs', fun C => ?_⟩
  rw [hleft.2.mp C] at hone
  cases hone

/-- Decoding no entries into a dict that holds one leaves it uncounted. -/
theorem dictUnserialize_uncounted :
    ∃ s, (dictComponent Unit).run ⟨dictNew, oneValueHeap, []⟩ [.set (some default) 1] = some s ∧
      (dictUnserialize (encode []) s.dict s.heap).ret = some 0 ∧
      ¬ CountsAll (dictUnserialize (encode []) s.dict s.heap).this
          (dictUnserialize (encode []) s.dict s.heap).heap := by
  have hl : (dictComponent Unit).Legal ⟨dictNew, oneValueHeap, []⟩ [.set (some default) 1] :=
    ⟨by simp [dictComponent, dictAllowed, oneValueHeap], fun _ _ => trivial⟩
  obtain ⟨s, hs, hone⟩ := Option.map_eq_some_iff.mp (by decide +kernel :
    ((dictComponent Unit).run ⟨dictNew, oneValueHeap, []⟩ [.set (some default) 1]).map (fun s => s.dict.count) = some 1)
  obtain ⟨es, I⟩ := dict_run_inv (Or.inl rfl) counted_oneValueHeap hl hs
  have H : Holds s.dict s.heap (es.map fun e => (e.1, e.2, s.heap.view e.2)) := ⟨es, I.rep, rfl⟩
  have hsize : ((encode [] ++ []).length : Int) ≤ int32Max := by decide
  obtain ⟨hret, cs', H', _, hcount, _⟩ := dictUnserialize_encode H [] hsize
  refine ⟨s, hs, hret, fun C => ?_⟩
  have hall := C.1.count H'
  rw [List.append_nil, List.length_map] at hcount
  have hes := I.count
  omega

/-! ## §6. The round trip. -/

theorem Holds.new {d : Dict} (hd : d = dictNew ∨ d = getNewDict) {h : DataHeap} {vals : List Addr}
    (C : Counted h vals) : Holds d h [] := ⟨[], rep_new hd C.nobody, rfl⟩

theorem Holds.nobody {d : Dict} {h : DataHeap} {cs : List Entry} (H : Holds d h cs) : Counted h [] := by
  obtain ⟨es, R, _⟩ := H
  exact R.counted.nobody

theorem Serializable.nobody {d : Dict} {h : DataHeap} {bs : List Content} (s : Serializable d h bs) : Counted h [] := by
  obtain ⟨_, H, _⟩ := s.holds
  exact H.nobody

/-- Entries with distinct keys, merged into nothing, are held in reverse order. -/
theorem Holds.merged {d : Dict} {h : DataHeap} {cs : List Entry} (H : Holds d h cs) {bs : List Content}
    (hmerged : bytesOf cs = (bs.map fun e => (e.1, some e.2)).foldl (fun l e => assocSet l e.1 e.2) (bytesOf []))
    (hcount : d.count = cs.length) (hnd : (bs.map Prod.fst).Nodup) : Serializable d h bs.reverse := by
  have hnew : bs.foldl (fun l e => assocSet l e.1 e.2) [] = bs.reverse := by
    have hfold := foldl_assocSet_new bs [] (by rw [List.append_nil]; exact hnd)
    rwa [List.append_nil] at hfold
  have hrev : bytesOf cs = bs.reverse.map fun e => (e.1, some e.2) := by
    rw [← hnew]
    exact hmerged.trans (foldl_assocSet_map (fun v : Bytes => some v) bs [])
  have hlen := congrArg List.length hrev
  rw [bytesOf, List.length_map, List.length_map] at hlen
  exact ⟨⟨cs, H, hrev⟩, by rw [hcount, hlen]⟩

/-- **Decoding into a fresh dict** gives the entries in reverse order. -/
theorem dictUnserialize_fresh {d : Dict} (hd : d = dictNew ∨ d = getNewDict) {h : DataHeap}
    (C : Counted h []) {bs : List Content} (hnd : (bs.map Prod.fst).Nodup) (trailing : Bytes)
    (hsize : ((encode bs ++ trailing).length : Int) ≤ int32Max) :
    (dictUnserialize (encode bs ++ trailing) d h).ret = some 0 ∧
      Serializable (dictUnserialize (encode bs ++ trailing) d h).this
        (dictUnserialize (encode bs ++ trailing) d h).heap bs.reverse := by
  obtain ⟨hret, cs', H', hbytes, hcount, _⟩ := dictUnserialize_encode (Holds.new hd C) trailing hsize
  exact ⟨hret, H'.merged hbytes (by rw [hcount]; exact Int.sub_zero _) hnd⟩

/-- The content of a key of a serializable dict. -/
theorem Serializable.content {d : Dict} {h : DataHeap} {bs : List Content} (s : Serializable d h bs)
    (k : CStr) : d.content h k = assocGet bs k := by
  obtain ⟨cs, H, hbs⟩ := s.holds
  rw [H.content, hbs, assocGet_map (fun v : Bytes => some v)]
  cases assocGet bs k <;> rfl

theorem Serializable.distinct {d : Dict} {h : DataHeap} {bs : List Content} (s : Serializable d h bs) :
    (bs.map Prod.fst).Nodup := by
  obtain ⟨cs, H, hbs⟩ := s.holds
  have hkeys := congrArg (List.map Prod.fst) hbs
  rw [bytesOf, keys_map (fun e : Addr × Option Data => e.2.bind dataBytes),
    keys_map (fun v : Bytes => some v)] at hkeys
  rw [← hkeys]
  exact H.distinct

/-- A dict that is reached counts its pairs. -/
theorem run_serializable {α : Type} {h₀ : DataHeap} (hh : Counted h₀ []) {ops : List (DictOp α)}
    (hl : (dictComponent α).Legal ⟨dictNew, h₀, []⟩ ops) {s : DictState}
    (hs : (dictComponent α).run ⟨dictNew, h₀, []⟩ ops = some s) {bs : List Content}
    (hbs : s.dict.contents s.heap = some bs) : Serializable s.dict s.heap bs := by
  obtain ⟨es, I⟩ := dict_run_inv (Or.inl rfl) hh hl hs
  have H : Holds s.dict s.heap (es.map fun e => (e.1, e.2, s.heap.view e.2)) := ⟨es, I.rep, rfl⟩
  have hbytes := H.contents_iff.mp hbs
  have hlen := congrArg List.length hbytes
  rw [bytesOf, List.length_map, List.length_map, List.length_map] at hlen
  exact ⟨⟨_, H, hbytes⟩, by rw [I.count, hlen]⟩

/-- **The serialization round trip.** -/
theorem dict_round_trip {α : Type} {h₀ : DataHeap} (hh : Counted h₀ []) (ops : List (DictOp α))
    (hl : (dictComponent α).Legal ⟨dictNew, h₀, []⟩ ops) {s : DictState}
    (hs : (dictComponent α).run ⟨dictNew, h₀, []⟩ ops = some s) {bs : List Content}
    (hbs : s.dict.contents s.heap = some bs) (hsize : (encodedSize bs : Int) ≤ int32Max)
    {d : Dict} (hd : d = dictNew ∨ d = getNewDict) :
    dictAllocateAndSerialize s.dict s.heap true
        = some (0, some (encode bs), some ((encode bs).length : Int)) ∧
      dictSerialize s.dict s.heap = some (0, encode bs) ∧
      dictSerializedLength s.dict s.heap = some ((encode bs).length : Int) ∧
      (encode bs).length = encodedSize bs ∧
      ∀ trailing, ((encode bs ++ trailing).length : Int) ≤ int32Max →
        (dictUnserialize (encode bs ++ trailing) d s.heap).ret = some 0 ∧
        (dictUnserialize (encode bs ++ trailing) d s.heap).this.count = s.dict.count ∧
        (∀ k, (dictUnserialize (encode bs ++ trailing) d s.heap).this.content
            (dictUnserialize (encode bs ++ trailing) d s.heap).heap k = s.dict.content s.heap k) ∧
        ∃ out, dictSerialize (dictUnserialize (encode bs ++ trailing) d s.heap).this
            (dictUnserialize (encode bs ++ trailing) d s.heap).heap = some (0, out) ∧
          ∀ trailing', ((out ++ trailing').length : Int) ≤ int32Max →
            (dictUnserialize (out ++ trailing') d
                (dictUnserialize (encode bs ++ trailing) d s.heap).heap).ret = some 0 ∧
            dictSerialize
              (dictUnserialize (out ++ trailing') d
                (dictUnserialize (encode bs ++ trailing) d s.heap).heap).this
              (dictUnserialize (out ++ trailing') d
                (dictUnserialize (encode bs ++ trailing) d s.heap).heap).heap = some (0, encode bs) := by
  have S := run_serializable hh hl hs hbs
  have hfits := fits_of_size hsize
  refine ⟨S.allocate hsize, S.serialize hfits, S.serializedLength hsize, encode_length bs, ?_⟩
  intro trailing htr
  obtain ⟨hret, S₁⟩ := dictUnserialize_fresh hd S.nobody S.distinct trailing htr
  refine ⟨hret, ?_, ?_, encode bs.reverse, S₁.serialize (fun e he => hfits e (List.mem_reverse.mp he)), ?_⟩
  · rw [S₁.count, S.count, List.length_reverse]
  · intro k
    rw [S₁.content, S.content, assocGet_reverse S.distinct]
  · intro trailing' htr'
    -- the second trip starts from the reversed dict, and reverses it again
    obtain ⟨hret₂, S₂⟩ := dictUnserialize_fresh hd S₁.nobody S₁.distinct trailing' htr'
    rw [List.reverse_reverse] at S₂
    exact ⟨hret₂, S₂.serialize hfits⟩

theorem sizedValues_run :
    (dictComponent Unit).Legal ⟨dictNew, oneValueHeap, []⟩ sizedValues ∧
      ∃ s, (dictComponent Unit).run ⟨dictNew, oneValueHeap, []⟩ sizedValues = some s ∧
        s.dict.contents s.heap = some [(textA, [0, 1, 2, 3]), (default, [97, 0])] := by
  have hl : (dictComponent Unit).Legal ⟨dictNew, oneValueHeap, []⟩ sizedValues :=
    (dictComponent Unit).legal_of_check (by decide +kernel)
  obtain ⟨s, hs, hcontents⟩ := Option.map_eq_some_iff.mp (by decide +kernel :
    ((dictComponent Unit).run ⟨dictNew, oneValueHeap, []⟩ sizedValues).map (fun s => s.dict.contents s.heap)
      = some (some [(textA, [0, 1, 2, 3]), (default, [97, 0])]))
  exact ⟨hl, s, hs, hcontents⟩

/-- The serialized form of the dict, decoded with a byte behind it. -/
theorem dict_round_trip_sizedValues :
    ∃ s buf, (dictComponent Unit).run ⟨dictNew, oneValueHeap, []⟩ sizedValues = some s ∧
      dictAllocateAndSerialize s.dict s.heap true = some (0, some buf, some 29) ∧
      (dictUnserialize (buf ++ [7]) dictNew s.heap).ret = some 0 ∧
      (dictUnserialize (buf ++ [7]) dictNew s.heap).this.count = s.dict.count ∧
      ∀ k, (dictUnserialize (buf ++ [7]) dictNew s.heap).this.content
        (dictUnserialize (buf ++ [7]) dictNew s.heap).heap k = s.dict.content s.heap k := by
  obtain ⟨hl, s, hs, hbs⟩ := sizedValues_run
  obtain ⟨halloc, -, -, -, htrip⟩ :=
    dict_round_trip counted_oneValueHeap _ hl hs hbs (by decide +kernel) (Or.inl rfl)
  obtain ⟨hret, hcount, hcontent, -⟩ := htrip [7] (by decide +kernel)
  exact ⟨s, _, hs, halloc, hret, hcount, hcontent⟩

end LzLib.Dict
