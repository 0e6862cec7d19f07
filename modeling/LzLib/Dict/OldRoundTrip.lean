/-
  LzLib.Dict.OldRoundTrip
  ───────────────────────
  **READING BACK THE OLD FORMAT.**

  The fields have eight digits, since their numbers are below `2 ^ 31`, so that
  the skips of 9 and 18 bytes end where the scans end.  What a scan sees of the
  buffer goes up to the first NUL, which is the one behind the next key.

  A dict without pairs is written as a count of zero, and a count of zero is an
  error for the reader: `old_round_trip`.
-/
import LzLib.Dict.VectorForm

namespace LzLib.Dict

open LzLib.Foundation

/-! ## §1. The headers. -/

/-- Hexadecimal text has no NUL. -/
theorem hexField_nulFree {n : Nat} (h : n < 2 ^ 31) : (0 : UInt8) ∉ hexField n := by
  rw [hexField_eq h]
  intro hmem
  have hdigit := hex8_digits n 0 hmem
  exact absurd hdigit (by decide)

theorem countText_nulFree {n : Nat} (h : n < 2 ^ 31) : (0 : UInt8) ∉ countText n := by
  have hfield := hexField_nulFree h
  simp [countText, hfield]

theorem pairText_nulFree {k v : Nat} (hk : k < 2 ^ 31) (hv : v < 2 ^ 31) : (0 : UInt8) ∉ pairText k v := by
  have hkey := hexField_nulFree hk
  have hvalue := hexField_nulFree hv
  simp [pairText, hkey, hvalue]

/-- A scan of text in front of a key sees both. -/
theorem stringAt_text (pre : Bytes) {text : Bytes} (htext : (0 : UInt8) ∉ text) (k : CStr) (rest : Bytes) :
    ∃ s : CStr, s.chars = text ++ k.chars ∧ stringAt (pre ++ (text ++ (CStr.block k ++ rest))) pre.length = some s := by
  have hnul : (0 : UInt8) ∉ text ++ k.chars := by
    rw [List.mem_append, not_or]
    exact ⟨htext, k.nulFree⟩
  have hcut : text ++ (CStr.block k ++ rest) = (CStr.mk (text ++ k.chars) hnul).chars ++ 0 :: rest := by
    simp [CStr.block]
  refine ⟨⟨text ++ k.chars, hnul⟩, rfl, ?_⟩
  rw [hcut]
  exact stringAt_append pre rest _

theorem noDigit_of_byte {c : UInt8} (hc : 16 ≤ digitVal c) (rest : Bytes) : NoDigit 16 (c :: rest) := by
  intro b hb
  cases hb
  exact hc

/-- **The number of pairs is read back.** -/
theorem sscanfCount_text {n : Nat} (h : n < 2 ^ 31) {s : CStr} {rest : Bytes} (hs : s.chars = countText n ++ rest) :
    sscanfCount s = (1, some n) := by
  have hscan : scanfHex (hex8 n ++ 10 :: rest) = .number n (10 :: rest) :=
    scanfHex_hex8 (by omega) (noDigit_of_byte (by decide) rest)
  have htext : countText n ++ rest = hex8 n ++ 10 :: rest := by
    unfold countText
    rw [hexField_eq h, List.append_assoc]
    rfl
  unfold sscanfCount
  rw [hs, htext, hscan]

/-- **The lengths of a pair are read back.** -/
theorem sscanfLens_text {k v : Nat} (hk : k < 2 ^ 31) (hv : v < 2 ^ 31) {s : CStr} {rest : Bytes}
    (hs : s.chars = pairText k v ++ rest) : sscanfLens s = some (k, v) := by
  have hkey : scanfHex (hex8 k ++ 58 :: (hex8 v ++ 10 :: rest)) = .number k (58 :: (hex8 v ++ 10 :: rest)) :=
    scanfHex_hex8 (by omega) (noDigit_of_byte (by decide) _)
  have hvalue : scanfHex (hex8 v ++ 10 :: rest) = .number v (10 :: rest) :=
    scanfHex_hex8 (by omega) (noDigit_of_byte (by decide) rest)
  have htext : pairText k v ++ rest = hex8 k ++ 58 :: (hex8 v ++ 10 :: rest) := by
    unfold pairText
    rw [hexField_eq hk, hexField_eq hv]
    simp
  unfold sscanfLens
  rw [hs, htext, hkey]
  dsimp only
  rw [if_pos rfl, hvalue]

/-! ## §2. The loop. -/

/-- The value that is read from an entry at `off`. -/
def oldValue (buf : Bytes) (off : Int) (e : Content) : Data :=
  staticValue buf (off + 18 + (e.1.strlen + 1 : Nat)) e.2.length

/-- **An encoded entry is read back** wherever it stands. -/
theorem readOldEntry (pre post : Bytes) {k : CStr} {v : Bytes} (F : OldFits (k, v)) {buf : Bytes}
    (hbuf : buf = pre ++ (encodeOldEntry (k, v) ++ post)) :
    (∃ s, stringAt buf pre.length = some s ∧ sscanfLens s = some (k.strlen + 1, v.length)) ∧
      stringAt buf (pre.length + 18) = some k ∧
      dataBytes (oldValue buf pre.length (k, v)) = some v := by
  have hk : k.strlen + 1 < 2 ^ 31 := F.key
  have hv : v.length < 2 ^ 31 := F.value
  have htext : (pairText (k.strlen + 1 : Nat) v.length).length = 18 := pairText_length hk hv
  -- the buffer, cut before the text, before the key and before the value
  refine ⟨?_, ?_, ?_⟩
  · obtain ⟨s, hs, hkey⟩ := stringAt_text pre (pairText_nulFree hk hv) k (v ++ post)
    have hcut : buf = pre ++ (pairText (k.strlen + 1 : Nat) v.length ++ (CStr.block k ++ (v ++ post))) := by
      rw [hbuf]
      simp [encodeOldEntry]
    rw [← hcut] at hkey
    exact ⟨s, hkey, sscanfLens_text hk hv hs⟩
  · have hcut : buf = pre ++ pairText (k.strlen + 1 : Nat) v.length ++ (k.chars ++ 0 :: (v ++ post)) := by
      rw [hbuf]
      simp [encodeOldEntry, CStr.block]
    have hoff : (pre.length : Int) + 18 = (pre ++ pairText (k.strlen + 1 : Nat) v.length).length := by
      rw [List.length_append, htext]
      rfl
    rw [hcut, hoff]
    exact stringAt_append _ _ k
  · have hcut : buf = pre ++ pairText (k.strlen + 1 : Nat) v.length ++ CStr.block k ++ (v ++ post) := by
      rw [hbuf]
      simp [encodeOldEntry]
    have hoff : (pre.length : Int) + 18 + (k.strlen + 1 : Nat)
        = (pre ++ pairText (k.strlen + 1 : Nat) v.length ++ CStr.block k).length := by
      rw [List.length_append, List.length_append, htext, CStr.block_length]
      rfl
    show (BytePtr.mk buf (pre.length + 18 + (k.strlen + 1 : Nat))).read v.length = _
    rw [hoff, hcut]
    exact read_append _ v post

/-- **The loop on encoded entries** gets through all of them, and merges them. -/
theorem unserializeOldPairs_encode {buf : Bytes} (post : Bytes) : ∀ {bs : List Content} (pre : Bytes) {fill : Dict}
    {h : DataHeap} {cs : List Entry}, buf = pre ++ (encodeOldEntries bs ++ post) → (∀ e ∈ bs, OldFits e) →
    Holds fill h cs → fill.count = cs.length → fill.count + bs.length ≤ int32Max →
    ∃ d' h' cs', unserializeOldPairs buf bs.length pre.length fill h = some (some d', h') ∧ Holds d' h' cs' ∧
      bytesOf cs' = (bs.map fun e => (e.1, some e.2)).foldl (fun l e => assocSet l e.1 e.2) (bytesOf cs) ∧
      d'.count = cs'.length := by
  intro bs
  induction bs with
  | nil =>
      intro pre fill h cs _ _ H hcount _
      exact ⟨fill, h, cs, rfl, H, rfl, hcount⟩
  | cons e bs ih =>
      intro pre fill h cs hbuf hfits H hcount hfew
      rw [List.length_cons] at hfew
      obtain ⟨k, v⟩ := e
      have F : OldFits (k, v) := hfits _ List.mem_cons_self
      rw [encodeOldEntries_cons, List.append_assoc] at hbuf
      obtain ⟨⟨s, hscan, hlens⟩, hkey, hbytes⟩ := readOldEntry pre (encodeOldEntries bs ++ post) F hbuf
      have hv : v.length < 2 ^ 31 := F.value
      have hwrap : wrap32 v.length = v.length := wrap32_eq (by omega) (by omega)
      -- the first entry is set, and the cursor is behind it
      obtain ⟨d₁, h₁, hset, H₁, -, hone⟩ :=
        H.setNew k (show (oldValue buf pre.length (k, v)).refcount = 0 from rfl) (by omega)
      have hfew₁ : d₁.count + bs.length ≤ int32Max := by
        split at hone <;> omega
      have hcount₁ : d₁.count = (assocSet cs k (h.brk, some (oldValue buf pre.length (k, v)))).length := by
        rw [hone, hcount, length_assocSet]
      have hoff : (pre.length : Int) + 18 + (k.strlen + 1 : Nat) + v.length = (pre ++ encodeOldEntry (k, v)).length := by
        rw [List.length_append, encodeOldEntry_length F, oldEntrySize]
        push_cast
        omega
      have hrest : buf = pre ++ encodeOldEntry (k, v) ++ (encodeOldEntries bs ++ post) := by
        rw [hbuf, List.append_assoc]
      obtain ⟨d', h', cs', hloop, H', hmerged, hcount'⟩ := ih (pre ++ encodeOldEntry (k, v)) hrest
        (fun e he => hfits e (List.mem_cons_of_mem _ he)) H₁ hcount₁ hfew₁
      refine ⟨d', h', cs', ?_, H', ?_, hcount'⟩
      · have hvalue : h.alloc (staticValue buf (pre.length + 18 + (k.strlen + 1 : Nat)) v.length)
            = ((h.alloc (oldValue buf pre.length (k, v))).1, h.brk) := rfl
        rw [List.length_cons, unserializeOldPairs, hscan]
        simp only [Option.bind_eq_bind, Option.bind_some, hlens, hwrap, hvalue, hkey, hset, hoff, hloop]
      · have hpair : bytesOf (assocSet cs k (h.brk, some (oldValue buf pre.length (k, v))))
            = assocSet (bytesOf cs) k (some v) := by
          rw [← hbytes]
          exact (assocSet_map (fun e : Addr × Option Data => e.2.bind dataBytes) cs k _).symm
        rw [hmerged, hpair]
        rfl

/-! ## §3. The dicts that can be written. -/

theorem Data.copied_of_bytes {c : Data} {bs : Bytes} (hbs : dataBytes c = some bs) : c.copied = some bs := by
  obtain ⟨-, -, p, hp, hread⟩ := dataBytes_some hbs
  unfold Data.copied
  rw [hp]
  exact hread

/-- The pairs of a dict whose values have bytes. -/
theorem Serializable.cells {d : Dict} {h : DataHeap} {bs : List Content} (S : Serializable d h bs) :
    ∃ cs, d.cells h = some cs ∧ d.count = cs.length ∧ (∀ e ∈ cs, e.2.Given) ∧ (∀ e ∈ cs, e.2.vec = none) ∧
      Copied cs bs := by
  obtain ⟨es, H, hbytes⟩ := S.holds
  obtain ⟨cs, hcells, hviews⟩ := H.cells
  have hmap : cs.map (fun e => (e.1, dataBytes e.2)) = bs.map fun e => (e.1, some e.2) := by
    have hsame := congrArg (List.map fun x : CStr × Option Data => (x.1, x.2.bind dataBytes)) hviews
    rw [List.map_map, List.map_map] at hsame
    exact hsame.trans hbytes
  -- every value has bytes, so none is a vector
  have hall : ∀ e ∈ cs, ∃ v, dataBytes e.2 = some v := by
    intro e he
    have hmem : (e.1, dataBytes e.2) ∈ bs.map fun e => (e.1, some e.2) := by
      rw [← hmap]
      exact List.mem_map_of_mem he
    obtain ⟨b, -, hb⟩ := List.mem_map.mp hmem
    exact ⟨b.2, (Prod.mk.inj hb).2.symm⟩
  refine ⟨cs, hcells, ?_, ?_, ?_, ?_⟩
  · have hlen := congrArg List.length hmap
    rw [List.length_map, List.length_map] at hlen
    rw [S.count, hlen]
  · intro e he
    obtain ⟨v, hv⟩ := hall e he
    unfold Data.Given
    rw [(dataBytes_some hv).1, Data.copied_of_bytes hv]
    rfl
  · intro e he
    obtain ⟨v, hv⟩ := hall e he
    exact (dataBytes_some hv).1
  · refine Eq.trans ?_ hmap
    apply List.map_congr_left
    intro e he
    obtain ⟨v, hv⟩ := hall e he
    rw [hv, Data.copied_of_bytes hv]

/-! ## §4. The round trip. -/

/-- **The old format of the dict of `s` can be written and read back into `d`**: its
length is the number of bytes that are written, the buffer behind them stays as
it is, and the dict that is read has the same count and the same bytes under
each key. -/
structure OldTrip (s : DictState) (d : Dict) (bs : List Content) : Prop where
  length : dictSerializedLengthOld s.dict s.heap = some (encodedOldSize bs : Int)
  trip : ∀ buf : Bytes, encodedOldSize bs ≤ buf.length →
    ∃ out d' h', dictSerializeOld s.dict s.heap buf = some (0, out ++ buf.drop (encodedOldSize bs)) ∧
      out.length = encodedOldSize bs ∧
      dictUnserializeOld (out ++ buf.drop (encodedOldSize bs)) d s.heap = some (some d', h') ∧
      d'.count = s.dict.count ∧ ∀ k, d'.content h' k = s.dict.content s.heap k

/-- **Reading the old format** into a fresh dict. -/
theorem dictUnserializeOld_encode {d : Dict} (hd : d = dictNew ∨ d = getNewDict) {h : DataHeap} (C : Counted h [])
    {bs : List Content} (hne : bs ≠ []) (hnd : (bs.map Prod.fst).Nodup) (hsize : encodedOldSize bs < 2 ^ 31)
    (rest : Bytes) :
    ∃ d' h', dictUnserializeOld (encodeOld bs ++ rest) d h = some (some d', h') ∧ Serializable d' h' bs.reverse := by
  have hpairs : (bs.map oldEntrySize).sum < 2 ^ 31 := Nat.lt_of_le_of_lt (Nat.le_add_left _ 9) hsize
  have hmany : bs.length < 2 ^ 31 := Nat.lt_of_le_of_lt (length_le_oldSizes bs) hpairs
  have hfits := oldFits_of_size hpairs
  have htext : (countText bs.length).length = 9 := countText_length hmany
  have hbuf : encodeOld bs ++ rest = countText bs.length ++ (encodeOldEntries bs ++ rest) := by
    unfold encodeOld
    rw [List.append_assoc]
  -- what the first scan sees goes up to the NUL behind the first key
  obtain ⟨s, hscan, hcount⟩ : ∃ s, stringAt (encodeOld bs ++ rest) 0 = some s ∧ sscanfCount s = (1, some bs.length) := by
    cases hcs : bs with
    | nil => exact absurd hcs hne
    | cons e bs' =>
        obtain ⟨k, v⟩ := e
        have F : OldFits (k, v) := hfits _ (hcs ▸ List.mem_cons_self)
        have hnul : (0 : UInt8) ∉ countText bs.length ++ pairText (k.strlen + 1 : Nat) v.length := by
          rw [List.mem_append, not_or]
          exact ⟨countText_nulFree hmany, pairText_nulFree F.key F.value⟩
        obtain ⟨s, hs, hkey⟩ := stringAt_text [] hnul k (v ++ (encodeOldEntries bs' ++ rest))
        rw [List.append_assoc] at hs
        have hcut : encodeOld bs ++ rest = [] ++ (countText bs.length ++ pairText (k.strlen + 1 : Nat) v.length
            ++ (CStr.block k ++ (v ++ (encodeOldEntries bs' ++ rest)))) := by
          rw [hbuf, hcs, encodeOldEntries_cons]
          simp [encodeOldEntry]
        rw [← hcs, hcut]
        exact ⟨s, hkey, sscanfCount_text hmany hs⟩
  have hsome : bs.length ≠ 0 := fun h0 => hne (List.length_eq_zero_iff.mp h0)
  obtain ⟨d', h', cs', hloop, H', hmerged, hcount'⟩ := unserializeOldPairs_encode rest (countText bs.length) hbuf hfits
    ((Holds.new hd C).withCount 0) rfl (show (0 : Int) + bs.length ≤ 2 ^ 31 - 1 by omega)
  refine ⟨d', h', ?_, H'.merged hmerged hcount' hnd⟩
  rw [htext] at hloop
  have hone : (1 : Int) ≠ 0 := by decide
  unfold dictUnserializeOld
  rw [hscan]
  simp only [Option.bind_eq_bind, Option.bind_some, hcount, if_neg hone, if_neg hsome]
  exact hloop

/-- **The old text format is read back**, where it has a pair. -/
theorem old_round_trip {α : Type} {h₀ : DataHeap} (hh : Counted h₀ []) (ops : List (DictOp α))
    (hl : (dictComponent α).Legal ⟨dictNew, h₀, []⟩ ops) {s : DictState}
    (hs : (dictComponent α).run ⟨dictNew, h₀, []⟩ ops = some s) {bs : List Content}
    (hbs : s.dict.contents s.heap = some bs) (hsize : encodedOldSize bs < 2 ^ 31) {d : Dict}
    (hd : d = dictNew ∨ d = getNewDict) :
    (bs ≠ [] → OldTrip s d bs) ∧
      (bs = [] → ∀ buf : Bytes, 9 < buf.length → ∃ out, dictSerializeOld s.dict s.heap buf = some (0, out) ∧
        dictUnserializeOld out d s.heap = some (none, s.heap)) := by
  have S := run_serializable hh hl hs hbs
  obtain ⟨cs, hcells, hcount, hgiven, hplain, hcopied⟩ := S.cells
  have hold := oldSize_plain hplain hcopied
  constructor
  · intro hne
    have hlength := dictSerializedLengthOld_spec hcells hcount hgiven (hold ▸ hsize)
    rw [hold] at hlength
    have hpairs : (bs.map oldEntrySize).sum < 2 ^ 31 := Nat.lt_of_le_of_lt (Nat.le_add_left _ 9) hsize
    have hentries := encodeOldEntries_length (oldFits_of_size hpairs)
    have hsome : 0 < bs.length := List.length_pos_iff.mpr hne
    have hmany := length_le_oldSizes bs
    have htotal : encodedOldSize bs = 9 + (encodeOldEntries bs).length := by
      rw [hentries]
      rfl
    refine ⟨hlength, ?_⟩
    intro buf hbuf
    have hwrite := dictSerializeOld_spec hcells hcount hcopied hsize (show 9 < buf.length by omega) hbuf
    obtain ⟨d', h', hread, S'⟩ := dictUnserializeOld_encode hd S.nobody hne S.distinct hsize
      (buf.drop (encodedOldSize bs))
    -- the NUL behind the number of pairs is overwritten
    have hrest : (0 :: buf.drop 10).drop (encodeOldEntries bs).length = buf.drop (encodedOldSize bs) := by
      obtain ⟨n, hn⟩ : ∃ n, (encodeOldEntries bs).length = n + 1 := ⟨(encodeOldEntries bs).length - 1, by omega⟩
      rw [htotal, hn, List.drop_succ_cons, List.drop_drop]
      congr 1
      omega
    rw [hrest] at hwrite
    refine ⟨encodeOld bs, d', h', hwrite, encodeOld_length hsize, hread, ?_, ?_⟩
    · rw [S'.count, S.count, List.length_reverse]
    · intro k
      rw [S'.content, S.content, assocGet_reverse S.distinct]
  · intro hnil buf hten
    subst hnil
    have hwrite := dictSerializeOld_spec hcells hcount hcopied hsize hten (Nat.le_of_lt hten)
    have hzero : (0 : Nat) < 2 ^ 31 := by decide
    obtain ⟨s', hs', hkey⟩ := stringAt_text [] (countText_nulFree hzero) default (buf.drop 10)
    have hscan : stringAt (encodeOld [] ++ (0 :: buf.drop 10).drop (encodeOldEntries []).length) 0 = some s' := hkey
    have hread : sscanfCount s' = (1, some 0) := sscanfCount_text hzero hs'
    refine ⟨_, hwrite, ?_⟩
    unfold dictUnserializeOld
    rw [hscan]
    simp only [Option.bind_eq_bind, Option.bind_some, hread]
    rfl

/-- A string and a block of bytes. -/
theorem old_round_trip_sizedValues :
    ∃ s, (dictComponent Unit).run ⟨dictNew, oneValueHeap, []⟩ sizedValues = some s ∧
      OldTrip s getNewDict [(textA, [0, 1, 2, 3]), (default, [97, 0])] := by
  obtain ⟨hl, s, hs, hbs⟩ := sizedValues_run
  exact ⟨s, hs, (old_round_trip counted_oneValueHeap _ hl hs hbs (by decide) (Or.inr rfl)).1 (List.cons_ne_nil _ _)⟩

/-- The length of the empty dict leaves no room for the NUL behind its number of
pairs; in a longer buffer it is written, and refused by the reader. -/
theorem old_round_trip_empty :
    dictNew.contents oneValueHeap = some [] ∧ dictSerializedLengthOld dictNew oneValueHeap = some 9 ∧
      dictSerializeOld dictNew oneValueHeap (List.replicate 9 0) = none ∧
      dictSerializeOld dictNew oneValueHeap (List.replicate 10 1) = some (0, countText 0 ++ [0]) ∧
      dictUnserializeOld (countText 0 ++ [0]) getNewDict oneValueHeap = some (none, oneValueHeap) ∧
      ¬ OldTrip ⟨dictNew, oneValueHeap, []⟩ getNewDict [] := by
  have hnone : dictSerializeOld dictNew oneValueHeap (List.replicate 9 0) = none := by decide +kernel
  refine ⟨by decide +kernel, by decide +kernel, hnone, by decide +kernel, rfl, ?_⟩
  intro T
  obtain ⟨out, d', h', hwrite, -⟩ := T.trip (List.replicate 9 0) (by decide)
  have hsome : dictSerializeOld dictNew oneValueHeap (List.replicate 9 0) = _ := hwrite
  rw [hnone] at hsome
  cases hsome

end LzLib.Dict
