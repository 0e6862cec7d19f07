/-
  LzLib.Dict.Integers
  ───────────────────
  **INTEGERS IN A DICT.**

  A stored integer is its decimal text, so what a reader makes of it is what
  its parser makes of the text of an integer, converted to its type.  The
  checked readers see an error exactly outside their parser's range
  (`checked_spells`); inside it they return the conversion, whatever it keeps
  of the integer.  Of the legacy readers `data_to_uint64` has a parser that is
  too small (`legacy_dataFrom`).

  Main results: `integers_survive_iff`, for a value that is set and got, and
  `getters_exact_iff`, for any decimal text.
-/
import LzLib.Dict.IntegersDef
import LzLib.Dict.Buckets

namespace LzLib.Dict

open LzLib.Foundation

/-! ## §1. Conversions. -/

section Narrow

variable {T : IntType} {z : Int}

theorem IntType.narrow_eq (h : T.InRange z) : T.narrow z = z := by
  cases T <;>
    simp only [IntType.InRange, IntType.narrow, IntType.signed, IntType.size, if_true, if_false, Bool.false_eq_true] at h ⊢
  case int8 | int16 | int32 | int64 =>
    rw [Int.bmod_def]
    split <;> omega
  case uint16 | uint32 | uint64 => omega

/-- A conversion ends in the type. -/
theorem IntType.narrow_inRange (T : IntType) (z : Int) : T.InRange (T.narrow z) := by
  cases T <;>
    simp only [IntType.InRange, IntType.narrow, IntType.signed, IntType.size, if_true, if_false, Bool.false_eq_true]
  case int8 | int16 | int32 | int64 =>
    rw [Int.bmod_def]
    split <;> omega
  case uint16 | uint32 | uint64 => omega

theorem IntType.narrow_eq_iff : T.narrow z = z ↔ T.InRange z := by
  constructor
  · intro h
    rw [← h]
    exact T.narrow_inRange z
  · exact IntType.narrow_eq

/-- No type has more than 64 bits. -/
theorem IntType.narrow_mod (T : IntType) (z : Int) : T.narrow (z % 2 ^ 64) = T.narrow z := by
  cases T <;> simp only [IntType.narrow, IntType.signed, IntType.size, if_true, if_false, Bool.false_eq_true]
  case int8 | int16 | int32 | int64 =>
    rw [Int.bmod_def, Int.bmod_def]
    split <;> split <;> omega
  case uint16 | uint32 | uint64 => omega

end Narrow

/-! ## §2. Values that spell an integer. -/

/-- **The bytes of a value are the decimal text of an integer**, alone or with
a NUL behind it. -/
def Data.Spells (data : Data) (z : Int) : Prop :=
  ∃ p rest, data.data = some p ∧ p.read data.len = some (decimalText z ++ rest) ∧ Ended rest

theorem decimalText_eq (z : Int) : decimalText z = intText z := toString_bytes z

/-- A digit is no NUL. -/
theorem intText_nulFree (z : Int) : ∀ c ∈ intText z, c ≠ 0 := by
  have hdigits : ∀ c ∈ numeral 10 z.natAbs, c ≠ 0 := by
    intro c hc hzero
    have hdigit := numeral_digits (b := 10) (by decide) (by decide) z.natAbs c hc
    rw [hzero] at hdigit
    exact absurd hdigit (by decide)
  intro c hc
  unfold intText at hc
  split at hc
  · rcases List.mem_cons.mp hc with rfl | hc
    · decide
    · exact hdigits c hc
  · exact hdigits c hc

/-- References are no part of the text. -/
theorem Data.Spells.with_refcount {data : Data} {z : Int} (h : data.Spells z) (r : Int) :
    ({ data with refcount := r } : Data).Spells z := h

/-- As a C string the value is the text. -/
theorem Data.Spells.str {data : Data} {z : Int} (h : data.Spells z) : data.str = some (intText z) := by
  obtain ⟨p, rest, hdata, hread, hended⟩ := h
  have hall : ∀ c ∈ intText z, decide (c ≠ 0) = true := fun c hc => decide_eq_true (intText_nulFree z c hc)
  have hrest : rest.takeWhile (fun c => c ≠ 0) = [] := by
    cases rest with
    | nil => rfl
    | cons c cs =>
        have hc : c = 0 := hended c rfl
        rw [hc]
        rfl
  unfold Data.str
  rw [hdata]
  show (p.read data.len).map _ = _
  rw [hread, Option.map_some, decimalText_eq, List.takeWhile_append_of_pos hall, hrest, List.append_nil]

/-- The text of a 64-bit integer is short. -/
theorem intText_length {z : Int} (h : z.natAbs < 10 ^ 20) : (intText z).length ≤ 21 := by
  have hlen := numeral_length_le (b := 10) (by decide) z.natAbs 20 (by decide) h
  unfold intText
  split
  · rw [List.length_cons]
    omega
  · omega

/-- The text and the NUL behind it are read back. -/
theorem dataFromText_read (text : Bytes) (h : text.length ≤ 21) :
    (⟨text ++ [0], 0⟩ : BytePtr).read (dataFromText text).len = some (text ++ [0]) := by
  have hlen : (dataFromText text).len = ((text ++ [0]).length : Nat) := by
    unfold dataFromText
    dsimp only
    rw [wrap32_eq (by omega) (by omega), List.length_append, List.length_singleton]
    push_cast
    rfl
  have hinside : 0 ≤ ((text ++ [0]).length : Int) ∧ (0 : Int) ≤ 0 ∧
      0 + ((text ++ [0]).length : Int) ≤ (text ++ [0]).length := by omega
  rw [hlen, BytePtr.read, if_pos hinside, Int.toNat_natCast]
  show some ((text ++ [0]).take _) = _
  rw [List.take_length]

theorem dataFromText_spells {z : Int} (h : z.natAbs < 10 ^ 20) : (dataFromText (decimalText z)).Spells z := by
  have hlen := intText_length h
  rw [← decimalText_eq] at hlen
  refine ⟨⟨decimalText z ++ [0], 0⟩, [0], rfl, dataFromText_read _ hlen, ?_⟩
  intro c hc
  cases hc
  rfl

/-- **`data_from_T`** spells its argument. -/
theorem IntType.dataFrom_spells {T : IntType} {v : Int} (h : T.InRange v) : (T.dataFrom v).Spells v := by
  have hsmall : v.natAbs < 10 ^ 20 := by
    cases T <;> simp [IntType.InRange, IntType.signed, IntType.size] at h <;> omega
  cases T
  case int8 | int16 | int32 | int64 => exact dataFromText_spells hsmall
  case uint16 | uint32 | uint64 =>
    have hcast : ((v.toNat : Nat) : Int) = v := by
      simp [IntType.InRange, IntType.signed, IntType.size] at h
      omega
    have hspells := dataFromText_spells hsmall
    show (dataFromText (decimalText (v.toNat : Nat))).Spells v
    rw [hcast]
    exact hspells

/-! ## §3. The readers. -/

/-- The integers that the parser of `_data_to_T` takes without an error. -/
def IntType.Accepts (T : IntType) (z : Int) : Prop :=
  if T.signed then -2 ^ 63 ≤ z ∧ z < 2 ^ 63 else z.natAbs < 2 ^ 64

instance (T : IntType) (z : Int) : Decidable (T.Accepts z) := inferInstanceAs (Decidable (ite _ _ _))

theorem IntType.accepts_of_inRange {T : IntType} {z : Int} (h : T.InRange z) : T.Accepts z := by
  cases T <;> simp [IntType.InRange, IntType.Accepts, IntType.signed, IntType.size] at h ⊢ <;> omega

section Readers

variable {T : IntType} {data : Data} {z : Int}

theorem ended_nil : Ended [] := by
  intro c hc
  cases hc

theorem strtoll_text (z : Int) : strtoll 0 (intText z)
    = if z < -2 ^ 63 then ⟨-2 ^ 63, [], true⟩ else if 2 ^ 63 ≤ z then ⟨2 ^ 63 - 1, [], true⟩ else ⟨z, [], false⟩ := by
  have htext := strtoll_intText (Or.inr rfl) z ended_nil
  rw [List.append_nil] at htext
  exact htext

theorem strtoull_text (z : Int) : strtoull 0 (intText z)
    = if 2 ^ 64 ≤ z.natAbs then ⟨2 ^ 64 - 1, [], true⟩ else ⟨z % 2 ^ 64, [], false⟩ := by
  have htext := strtoull_intText (Or.inr rfl) z ended_nil
  rw [List.append_nil] at htext
  exact htext

/-- A reader with a signed parser. -/
theorem readChecked_signed (hdata : data.Spells z) : ∃ val, readChecked strtoll T (some data)
    = some (if -2 ^ 63 ≤ z ∧ z < 2 ^ 63 then 0 else eRange, some val) ∧
      (-2 ^ 63 ≤ z ∧ z < 2 ^ 63 → val = T.narrow z) := by
  unfold readChecked
  simp only [hdata.str, Option.map_some, strtoll_text]
  by_cases hlow : z < -2 ^ 63
  · have hout : ¬ (-2 ^ 63 ≤ z ∧ z < 2 ^ 63) := by omega
    simp only [if_pos hlow, if_neg hout]
    exact ⟨_, rfl, fun h => absurd h hout⟩
  · by_cases hhigh : 2 ^ 63 ≤ z
    · have hout : ¬ (-2 ^ 63 ≤ z ∧ z < 2 ^ 63) := by omega
      simp only [if_neg hlow, if_pos hhigh, if_neg hout]
      exact ⟨_, rfl, fun h => absurd h hout⟩
    · have hin : -2 ^ 63 ≤ z ∧ z < 2 ^ 63 := by omega
      simp only [if_neg hlow, if_neg hhigh, if_pos hin]
      exact ⟨_, rfl, fun _ => rfl⟩

/-- A reader with an unsigned one. -/
theorem readChecked_unsigned (hdata : data.Spells z) : ∃ val, readChecked strtoull T (some data)
    = some (if z.natAbs < 2 ^ 64 then 0 else eRange, some val) ∧ (z.natAbs < 2 ^ 64 → val = T.narrow z) := by
  unfold readChecked
  simp only [hdata.str, Option.map_some, strtoull_text]
  by_cases hin : z.natAbs < 2 ^ 64
  · have hsmall : ¬ (2 ^ 64 ≤ z.natAbs) := by omega
    simp only [if_neg hsmall, if_pos hin]
    exact ⟨_, rfl, fun _ => T.narrow_mod z⟩
  · have hlarge : 2 ^ 64 ≤ z.natAbs := by omega
    simp only [if_pos hlarge, if_neg hin]
    exact ⟨_, rfl, fun h => absurd h hin⟩

/-- **`_data_to_T`** of the text of an integer: an error outside its parser's
range, and inside it the conversion of the integer. -/
theorem checked_spells (T : IntType) (hdata : data.Spells z) :
    ∃ val, T.dataToChecked (some data) = some (if T.Accepts z then 0 else eRange, some val) ∧
      (T.Accepts z → val = T.narrow z) := by
  cases T
  case int8 | int16 | int32 | int64 => exact readChecked_signed hdata
  case uint16 | uint32 | uint64 => exact readChecked_unsigned hdata

/-- A legacy reader whose parser takes the integer, as it is or modulo `2 ^ 64`. -/
theorem readLegacy_eq {strto : Nat → Bytes → Parsed} (hdata : data.Spells z)
    (hstrto : (strto 0 (intText z)).value = z ∨ (strto 0 (intText z)).value = z % 2 ^ 64) :
    readLegacy strto T (some data) = some (T.narrow z) := by
  unfold readLegacy
  simp only [hdata.str, Option.map_some]
  rcases hstrto with h | h
  · rw [h]
  · rw [h, T.narrow_mod]

theorem strtoll_value {z : Int} (hlow : -2 ^ 63 ≤ z) (hhigh : z < 2 ^ 63) : (strtoll 0 (intText z)).value = z := by
  rw [strtoll_text, if_neg (by omega), if_neg (by omega)]

theorem strtoull_value {z : Int} (h : z.natAbs < 2 ^ 64) : (strtoull 0 (intText z)).value = z % 2 ^ 64 := by
  rw [strtoull_text, if_neg (by omega)]

/-- `data_to_uint64` of a large value: its parser clamps. -/
theorem dataToUint64_large (hdata : data.Spells z) (h : 2 ^ 63 ≤ z) : dataToUint64 (some data) = some (2 ^ 63 - 1) := by
  unfold dataToUint64 readLegacy
  simp only [hdata.str, Option.map_some, strtoll_text]
  rw [if_neg (by omega), if_pos h]
  rfl

/-- **`data_to_T`** returns the value that a stored text spells, but for large
unsigned ones. -/
theorem legacy_spells (hv : T.InRange z) (hdata : data.Spells z) :
    T.dataTo (some data) = some z ↔ (T = .uint64 → z < 2 ^ 63) := by
  by_cases hsmall : T = .uint64 → z < 2 ^ 63
  · refine iff_of_true ?_ hsmall
    have hread : T.dataTo (some data) = some (T.narrow z) := by
      cases T <;> simp [IntType.InRange, IntType.signed, IntType.size] at hv hsmall
      case int64 => exact readLegacy_eq hdata (Or.inr (strtoull_value (by omega)))
      case int32 => exact readLegacy_eq hdata (Or.inr (strtoull_value (by omega)))
      case int8 | int16 | uint16 | uint32 | uint64 =>
        exact readLegacy_eq hdata (Or.inl (strtoll_value (by omega) (by omega)))
    rw [hread, IntType.narrow_eq hv]
  · have hlarge : T = .uint64 ∧ 2 ^ 63 ≤ z := by
      constructor
      · by_contra hne
        exact hsmall fun heq => absurd heq hne
      · by_contra hlt
        exact hsmall fun _ => by omega
    refine iff_of_false ?_ hsmall
    rw [hlarge.1]
    show dataToUint64 (some data) ≠ some z
    rw [dataToUint64_large hdata hlarge.2]
    intro heq
    have hz := Option.some.inj heq
    omega

end Readers

/-! ## §4. Getting what a dict holds. -/

/-- The value at `a` spells an integer. -/
def DataHeap.Spells (h : DataHeap) (a : Addr) (z : Int) : Prop := ∃ data, h.cells a = some data ∧ data.Spells z

section Heap

variable {h h' : DataHeap} {a : Addr} {z : Int}

/-- The reference count does not matter to the text. -/
theorem DataHeap.Spells.congr (hs : h.Spells a z) (hview : h'.view a = h.view a) : h'.Spells a z := by
  obtain ⟨data, hdata, hspells⟩ := hs
  unfold DataHeap.view at hview
  rw [hdata, Option.map_some] at hview
  obtain ⟨data', hdata', heq⟩ := Option.map_eq_some_iff.mp hview
  have hfields : data'.data = data.data ∧ data'.len = data.len := by
    have hd : ({ data' with refcount := 0 } : Data).data = ({ data with refcount := 0 } : Data).data := by rw [heq]
    have hl : ({ data' with refcount := 0 } : Data).len = ({ data with refcount := 0 } : Data).len := by rw [heq]
    exact ⟨hd, hl⟩
  refine ⟨data', hdata', ?_⟩
  unfold Data.Spells
  rw [hfields.1, hfields.2]
  exact hspells

end Heap

section Get

variable {n : Int} {d : Dict} {h : DataHeap} {key : CStr}

/-- What `dict_get` finds hangs on a pair that the lookup finds. -/
theorem Kept.found (K : Kept n d h) (hn : 1 ≤ n) {a : Addr} (hget : dictGet d key = some a) (ha : a ≠ 0) :
    ∃ vals p c, Counted h vals ∧ dictLookup d key = some p ∧ p ≠ 0 ∧ d.pairs p = some c ∧ c.value = a ∧
      a ∈ vals := by
  obtain ⟨ms, ch, S, C, -⟩ := K.shape
  have hin := getBucket_inTable hn K.hashSize key
  have hlook := dictLookup_spec S key hin
  rw [dictGet_spec S hin] at hget
  rcases S.find_cases (d.getBucket key) key with ⟨hfind, -⟩ | ⟨p, -, -, hfind, -, -, -, hp⟩
  · rw [hfind] at hget
    exact absurd (Option.some.inj hget).symm ha
  · rw [hfind] at hlook hget
    obtain ⟨c, hc, -, hvalue⟩ := S.pair hp
    have hca : c.value = a := by
      rw [hvalue]
      exact Option.some.inj hget
    refine ⟨d.values ms, p, c, C, hlook, S.ne_zero hp, hc, hca, ?_⟩
    rw [← hca, hvalue]
    exact List.mem_map_of_mem (List.mem_map_of_mem hp)

theorem dictGetInteger_absent (convert : Option Data → Option (Int × Option Int))
    (hlook : dictLookup d key = some 0) : dictGetInteger convert d h key = some (eNoent, none, h) := by
  unfold dictGetInteger
  rw [dictGetWithRef_absent hlook]
  rfl

/-- **`dict_get_T`** of a key whose value spells an integer. -/
theorem get_spells (K : Kept n d h) (hn : 1 ≤ n) {a : Addr} (hget : dictGet d key = some a) (ha : a ≠ 0)
    (hroom : h.Room a) {z : Int} (hs : h.Spells a z) (T : IntType) :
    ∃ val h', T.dictGet d h key = some (if T.Accepts z then 0 else eRange, some val, h') ∧
      (T.Accepts z → val = T.narrow z) := by
  obtain ⟨vals, p, c, C, hlook, hp, hc, hca, hmem⟩ := K.found hn hget ha
  -- the reference that is taken here is given back below
  obtain ⟨h₁, href, C₁, view₁, -⟩ := dataRef_spec C (C.live a hmem) hroom
  obtain ⟨data, hdata, hspells⟩ := hs.congr (view₁ a)
  obtain ⟨h₂, hunref, -, -, -⟩ := dataUnref_spec C₁
  obtain ⟨val, hread, hval⟩ := checked_spells T hspells
  refine ⟨val, h₂, ?_, hval⟩
  have hbody : T.dictGet d h key = dictGetInteger T.dataToChecked d h key := by cases T <;> rfl
  rw [hbody]
  unfold dictGetInteger
  rw [dictGetWithRef_present hlook hp hc (by rw [hca]; exact href), hca]
  show (T.dataToChecked (h₁.cells a) >>= fun r => dataUnref h₁ a >>= fun h' => some (r.1, r.2, h')) = _
  rw [hdata, hread]
  show (dataUnref h₁ a >>= _) = _
  rw [hunref]
  rfl

/-- **`dict_get_T`** of a key whose value cannot take another reference. -/
theorem get_full (K : Kept n d h) (hn : 1 ≤ n) {a : Addr} (hget : dictGet d key = some a) (ha : a ≠ 0)
    (hfull : ¬ h.Room a) (T : IntType) : T.dictGet d h key = none := by
  obtain ⟨vals, p, c, C, hlook, hp, hc, rfl, hmem⟩ := K.found hn hget ha
  have hbody : T.dictGet d h key = dictGetInteger T.dataToChecked d h key := by cases T <;> rfl
  rw [hbody]
  unfold dictGetInteger dictGetWithRef
  simp only [hlook, hc, Option.bind_eq_bind, Option.bind_some, Option.pure_def, dataRef_full ha hfull, Option.bind_none]
  rw [if_neg hp]
  rfl

/-- A value that is set and found keeps its text. -/
theorem Kept.set_view (K : Kept n d h) (hn : 1 ≤ n) (hfits : HashFits n key) {value : Addr}
    (hlive : h.cells value ≠ none) {d' : Dict} {h' : DataHeap} {ret : Int}
    (heq : dictSet d h (some key) value = some (d', h', ret)) : h'.view value = h.view value := by
  obtain ⟨ms, ch, S, C, -⟩ := K.shape
  obtain ⟨hset, -⟩ := (sameBucket_iff hn K.hashSize key).mpr hfits
  have hin := getBucket_inTable hn K.hashSize key
  have hkey : (some key).getD (refKey value) = key := rfl
  obtain ⟨c, hc⟩ := Option.ne_none_iff_exists'.mp hlive
  obtain ⟨hroom, hfew⟩ := dictSet_canCount S C hkey hin (C.below value c hc).1 heq
  obtain ⟨d₁, h₁, heq₁, -, hcase⟩ := dictSet_cases S C hkey hset hin hlive hroom
    fun hmiss => hfew ((dictGet_null_iff S C hin).mpr hmiss)
  rw [heq, Option.some.injEq, Prod.mk.injEq, Prod.mk.injEq] at heq₁
  obtain ⟨-, rfl, -⟩ := heq₁
  rcases hcase with ⟨-, -, -, hview⟩ | ⟨p, l, r, -, -, -, -, hview⟩
  · exact hview value
  · refine hview value ?_
    rw [List.mem_append, List.mem_cons]
    exact Or.inr (Or.inl rfl)

/-- `dict_set_T` allocates the cell and sets it. -/
theorem IntType.dictSet_eq (T : IntType) (v : Int) : T.dictSet d h (some key) v
    = LzLib.Dict.dictSet d (h.alloc (T.dataFrom v)).1 (some key) h.brk := by
  cases T <;> rfl

/-- A cell that a constructor makes has no reference yet. -/
theorem IntType.dataFrom_refcount (T : IntType) (v : Int) : (T.dataFrom v).refcount = 0 := by
  cases T <;> rfl

/-- **`dict_get_T` after `dict_set_T`** on a key whose buckets agree. -/
theorem set_get (K : Kept n d h) (hn : 1 ≤ n) (hfits : HashFits n key)
    (hfew : LzLib.Dict.dictGet d key = some 0 → d.count < int32Max) {T : IntType} {v : Int} (hv : T.InRange v) :
    ∃ d' h' h'', T.dictSet d h (some key) v = some (d', h', 0) ∧
      T.dictGet d' h' key = some (0, some v, h'') := by
  obtain ⟨K₁, hlive⟩ := K.alloc (Int.le_of_eq (T.dataFrom_refcount v).symm)
  obtain ⟨d', h', hset, hfound⟩ :=
    K₁.set_found hn hfits hlive ⟨DataHeap.alloc_room (T.dataFrom_refcount v), hfew⟩
  have K' := K₁.set_through hlive hset
  obtain ⟨ms, ch, -, C, -⟩ := K₁.shape
  obtain ⟨cell, hcell⟩ := Option.ne_none_iff_exists'.mp hlive
  -- the cell that is found is the new one, with its text
  have hnew : (h.alloc (T.dataFrom v)).1.Spells h.brk v := by
    refine ⟨T.dataFrom v, ?_, T.dataFrom_spells hv⟩
    rw [DataHeap.alloc_cells, if_pos rfl]
  have hspells := hnew.congr (K₁.set_view hn hfits hlive hset)
  have hroom : h'.Room h.brk := by
    intro c' hc'
    obtain ⟨c, hc, hle⟩ := dictSet_refcount hset hc'
    rw [DataHeap.alloc_cells, if_pos rfl, Option.some.injEq] at hc
    rw [← hc, T.dataFrom_refcount v] at hle
    exact Int.lt_of_le_of_lt hle (by decide)
  obtain ⟨val, h'', hget, hval⟩ := get_spells K' hn hfound (C.below _ _ hcell).1 hroom hspells T
  have haccepts := IntType.accepts_of_inRange hv
  rw [if_pos haccepts, hval haccepts, IntType.narrow_eq hv] at hget
  exact ⟨d', h', h'', (T.dictSet_eq v).trans hset, hget⟩

/-- On another key it finds nothing. -/
theorem set_get_lost (K : Kept n d h) (hn : 1 ≤ n) (hfits : ¬ HashFits n key) (T : IntType) (v : Int) :
    ¬ ∃ d' h' h'', T.dictSet d h (some key) v = some (d', h', 0) ∧
      T.dictGet d' h' key = some (0, some v, h'') := by
  rintro ⟨d', h', h'', hset, hget⟩
  obtain ⟨K₁, hlive⟩ := K.alloc (Int.le_of_eq (T.dataFrom_refcount v).symm)
  rw [T.dictSet_eq v] at hset
  have hlook := K₁.set_unfound hn hfits hlive hset
  have hbody : T.dictGet d' h' key = dictGetInteger T.dataToChecked d' h' key := by cases T <;> rfl
  rw [hbody, dictGetInteger_absent _ hlook] at hget
  cases hget

end Get

/-! ## §5. Integers survive. -/

/-- **An integer survives**: the legacy reader, a set and a get on the key, and
the two readers against each other. -/
structure Survives (T : IntType) (d : Dict) (h : DataHeap) (key : CStr) (v : Int) : Prop where
  legacy : T.dataTo (some (T.dataFrom v)) = some v
  got : ∃ d' h' h'', T.dictSet d h (some key) v = some (d', h', 0) ∧ T.dictGet d' h' key = some (0, some v, h'')
  agree : ∃ val, T.dataTo (some (T.dataFrom v)) = some val ∧
    T.dataToChecked (some (T.dataFrom v)) = some (0, some val)

/-- A dict as it is made: of `n` buckets, or by `dict_new`. -/
def MadeWith (n : Int) (d : Dict) : Prop := d = getNewDictFull n ∨ (n = 1 ∧ d = dictNew)

theorem MadeWith.kept {n : Int} {d : Dict} (hd : MadeWith n d) {h : DataHeap} (hh : Counted h []) : Kept n d h := by
  rcases hd with rfl | ⟨rfl, rfl⟩
  · exact ⟨rfl, [], _, shape_new n, hh, rfl⟩
  · exact kept_new 1 hh 1

section Runs

variable {α : Type} {n : Int} {d₀ : Dict} {h₀ : DataHeap} {ops : List (DictOp α)} {s : DictState}

/-- **INTEGERS SURVIVE THE DICT, EXACTLY.**  In every state of a dict, a value
of a type survives under a key if and only if it is no `uint64` from `2 ^ 63`
on, the key's buckets agree, and a new key can still be counted. -/
theorem integers_survive_iff (hn : 1 ≤ n) (hd : MadeWith n d₀) (hh : Counted h₀ [])
    (hl : (dictComponent α).Legal ⟨d₀, h₀, []⟩ ops) (hrun : (dictComponent α).run ⟨d₀, h₀, []⟩ ops = some s)
    (key : CStr) (T : IntType) (v : Int) (hv : T.InRange v) :
    Survives T s.dict s.heap key v ↔ (T = .uint64 → v < 2 ^ 63) ∧ HashFits n key ∧
      (LzLib.Dict.dictGet s.dict key = some 0 → s.dict.count < int32Max) := by
  have K : Kept n s.dict s.heap := (dictComponent α).run_safe (kept_step hn) (hd.kept hh) hl hrun
  have hlegacy := legacy_spells hv (T.dataFrom_spells hv)
  constructor
  · intro hsurvives
    refine ⟨hlegacy.mp hsurvives.legacy, ?_, ?_⟩
    · by_contra hfits
      exact set_get_lost K hn hfits T v hsurvives.got
    · obtain ⟨d', h', -, hset, -⟩ := hsurvives.got
      obtain ⟨K₁, hlive⟩ := K.alloc (Int.le_of_eq (T.dataFrom_refcount v).symm)
      obtain ⟨ms, ch, S, C, -⟩ := K₁.shape
      obtain ⟨c, hc⟩ := Option.ne_none_iff_exists'.mp hlive
      rw [T.dictSet_eq v] at hset
      have hkey : (some key).getD (refKey s.heap.brk) = key := rfl
      have hcan := dictSet_canCount S C hkey (getBucket_inTable hn K.hashSize key) (C.below _ c hc).1 hset
      exact hcan.2
  · rintro ⟨hsmall, hfits, hfew⟩
    have hread := hlegacy.mpr hsmall
    refine ⟨hread, set_get K hn hfits hfew hv, v, hread, ?_⟩
    obtain ⟨val, hchecked, hval⟩ := checked_spells T (T.dataFrom_spells hv)
    have haccepts := IntType.accepts_of_inRange hv
    rw [if_pos haccepts, hval haccepts, IntType.narrow_eq hv] at hchecked
    exact hchecked

/-- Two keys of a dict of three buckets that holds a third: a signed byte survives
under the one, and no value under the other. -/
theorem integers_survive_iff_int8 :
    ∃ s, (dictComponent Unit).run ⟨getNewDictFull 3, oneValueHeap, []⟩
        [.set (some textA) 1, .setData (some textBrick) (some (dataFromInt 7))] = some s ∧
      Survives .int8 s.dict s.heap textBrick (-5) ∧ ¬ Survives .int8 s.dict s.heap textKey (-5) := by
  obtain ⟨s, hrun, hcount⟩ := Option.map_eq_some_iff.mp (by decide +kernel :
    ((dictComponent Unit).run ⟨getNewDictFull 3, oneValueHeap, []⟩
      [.set (some textA) 1, .setData (some textBrick) (some (dataFromInt 7))]).map (fun s => s.dict.count) = some 2)
  have hlegal : (dictComponent Unit).Legal ⟨getNewDictFull 3, oneValueHeap, []⟩
      [.set (some textA) 1, .setData (some textBrick) (some (dataFromInt 7))] :=
    (dictComponent Unit).legal_of_check (by decide +kernel)
  have hbrick := integers_survive_iff (by decide) (Or.inl rfl) counted_oneValueHeap hlegal hrun textBrick .int8 (-5)
    (by decide)
  have hkey := integers_survive_iff (by decide) (Or.inl rfl) counted_oneValueHeap hlegal hrun textKey .int8 (-5)
    (by decide)
  refine ⟨s, hrun, hbrick.mpr ⟨by decide, Or.inl (by decide +kernel), fun _ => ?_⟩, fun hsurvives => ?_⟩
  · rw [hcount]
    decide
  · rcases (hkey.mp hsurvives).2.1 with hsmall | hdiv
    · exact absurd hsmall (by decide +kernel)
    · exact absurd hdiv.2 (by decide +kernel)

/-- **`data_to_uint64` clamps**: `2 ^ 63` comes back one less. -/
theorem uint64_clamped : IntType.uint64.InRange (2 ^ 63) ∧
    dataToUint64 (some (dataFromUint (2 ^ 63))) = some (2 ^ 63 - 1) ∧
    dataToUint64Checked (some (dataFromUint (2 ^ 63))) = some (0, some (2 ^ 63)) := by
  decide +kernel

/-- **TYPED GETTERS, EXACTLY.**  In every state of a dict, of a key whose value
is the decimal text of an integer, `dict_get_T` returns the integer or an error,
and an error where the type does not have it, if and only if the type has it or
its parser refuses it.  A value whose references are `INT_MAX` cannot be read. -/
theorem getters_exact_iff (hn : 1 ≤ n) (hd : MadeWith n d₀) (hh : Counted h₀ [])
    (hl : (dictComponent α).Legal ⟨d₀, h₀, []⟩ ops) (hrun : (dictComponent α).run ⟨d₀, h₀, []⟩ ops = some s)
    (key : CStr) (a : Addr) (hget : dictGet s.dict key = some a) (ha : a ≠ 0) (z : Int)
    (hs : s.heap.Spells a z) (T : IntType) :
    (∃ ret val h', T.dictGet s.dict s.heap key = some (ret, val, h') ∧
      (((ret = 0 → val = some z) ∧ (¬ T.InRange z → ret < 0)) ↔ T.InRange z ∨ ¬ T.Accepts z)) ∨
      (¬ s.heap.Room a ∧ T.dictGet s.dict s.heap key = none) := by
  have K : Kept n s.dict s.heap := (dictComponent α).run_safe (kept_step hn) (hd.kept hh) hl hrun
  by_cases hroom : s.heap.Room a
  case neg => exact Or.inr ⟨hroom, get_full K hn hget ha hroom T⟩
  obtain ⟨val, h', heq, hval⟩ := get_spells K hn hget ha hroom hs T
  refine Or.inl ⟨_, _, _, heq, ?_⟩
  by_cases haccepts : T.Accepts z
  · rw [if_pos haccepts, hval haccepts]
    constructor
    · rintro ⟨hexact, -⟩
      exact Or.inl (IntType.narrow_eq_iff.mp (Option.some.inj (hexact rfl)))
    · rintro (hin | hnot)
      · exact ⟨fun _ => congrArg some (IntType.narrow_eq hin), fun hout => absurd hin hout⟩
      · exact absurd haccepts hnot
  · rw [if_neg haccepts]
    refine iff_of_true ⟨?_, ?_⟩ (Or.inr haccepts)
    · intro hzero
      exact absurd hzero (by decide)
    · intro _
      decide

/-- The dict of one key after `dict_set_int32` of 300. -/
theorem threeHundred_run :
    ∃ s, (dictComponent Unit).run ⟨dictNew, oneValueHeap, []⟩
        [.setData (some default) (some (dataFromInt 300))] = some s ∧
      dictGet s.dict default = some 2 ∧
      s.heap.cells 2 = some { dataFromInt 300 with refcount := 1 } ∧
      (dictGetInt8 s.dict s.heap default).map (fun r => (r.1, r.2.1)) = some (0, some 44) := by
  have hrun : (((dictComponent Unit).run ⟨dictNew, oneValueHeap, []⟩
      [.setData (some default) (some (dataFromInt 300))]).map fun s =>
        decide (dictGet s.dict default = some 2 ∧
          s.heap.cells 2 = some { dataFromInt 300 with refcount := 1 } ∧
          (dictGetInt8 s.dict s.heap default).map (fun r => (r.1, r.2.1)) = some (0, some 44)))
      = some true := by decide +kernel
  obtain ⟨s, hs, hfacts⟩ := Option.map_eq_some_iff.mp hrun
  exact ⟨s, hs, of_decide_eq_true hfacts⟩

/-- As an `int16` it is read. -/
theorem getters_exact_iff_int16 :
    ∃ s ret val h', (dictComponent Unit).run ⟨dictNew, oneValueHeap, []⟩
        [.setData (some default) (some (dataFromInt 300))] = some s ∧
      IntType.int16.dictGet s.dict s.heap default = some (ret, val, h') ∧
      (ret = 0 → val = some 300) ∧ (¬ IntType.int16.InRange 300 → ret < 0) := by
  obtain ⟨s, hrun, hget, hcell, -⟩ := threeHundred_run
  have hlegal : (dictComponent Unit).Legal ⟨dictNew, oneValueHeap, []⟩
      [.setData (some default) (some (dataFromInt 300))] := by
    refine ⟨?_, fun _ _ => trivial⟩
    intro c hc
    cases hc
    rfl
  have hin : IntType.int16.InRange 300 := by decide
  have hspells : s.heap.Spells 2 300 :=
    ⟨_, hcell, (IntType.dataFrom_spells hin).with_refcount 1⟩
  rcases getters_exact_iff (Int.le_refl 1) (Or.inr ⟨rfl, rfl⟩) counted_oneValueHeap hlegal hrun default 2 hget
      (by decide) 300 hspells .int16 with ⟨ret, val, h', heq, hiff⟩ | ⟨hfull, -⟩
  · exact ⟨s, ret, val, h', hrun, heq, hiff.mpr (Or.inl hin)⟩
  · refine absurd (fun c hc => ?_) hfull
    rw [hcell, Option.some.injEq] at hc
    rw [← hc]
    decide

/-- **`dict_get_int8` of 300 returns 0 and 44.** -/
theorem int8_narrows : ¬ IntType.int8.InRange 300 ∧
    ∃ s, (dictComponent Unit).run ⟨dictNew, oneValueHeap, []⟩
        [.setData (some default) (some (dataFromInt 300))] = some s ∧
      (dictGetInt8 s.dict s.heap default).map (fun r => (r.1, r.2.1)) = some (0, some 44) := by
  obtain ⟨s, hrun, -, -, hget⟩ := threeHundred_run
  exact ⟨by decide, s, hrun, hget⟩

end Runs

end LzLib.Dict
