/-
  LzLib.Dict.UnserializeSafety
  ────────────────────────────
  **WHEN DECODING STAYS INSIDE THE BUFFER.**

  `dict_unserialize` checks its cursor against the end of the buffer only.
  `SoundBuffer` is the exact condition on the buffer under which a run is
  `Safe`: entry by entry on the words and the bytes it admits, and on the sum
  of the lengths they announce, which bounds the number of entries.
-/
import LzLib.Dict.SerializeDef
import LzLib.Dict.FiniteMap

namespace LzLib.Dict

open LzLib.Foundation

/-! ## §1. The statements. -/

/-- **A safe run** of `dict_unserialize` on a buffer of `size` bytes: it has an
outcome, everything it examines and every value it stores lies inside the buffer,
its cursor moves forward and it stores at most `size / 9` values. -/
structure Safe (size : Int) (r : UnserializeRun) : Prop where
  returns : r.ret ≠ none
  examined : ∀ e ∈ r.examined, 0 ≤ e.1 ∧ e.1 + e.2 ≤ size
  stored : ∀ s ∈ r.stored, 0 ≤ s.len ∧ 0 ≤ s.data ∧ s.data + s.len ≤ size
  forward : ∀ s ∈ r.stored, s.before < s.after
  bounded : (r.stored.length : Int) ≤ size / 9

/-- The key's hash selects a bucket of a table of `n`: always so for `n = 1`. -/
def HasBucket (n : Int) (key : CStr) : Prop :=
  (getNewDictFull n).InTable ((getNewDictFull n).setBucket key) ∧
    (getNewDictFull n).InTable ((getNewDictFull n).getBucket key)

/-- The length words of an entry at `off`: the value length is not negative, and the
key length is not so negative that the value would start before the buffer or
the next entry would not come after this one. -/
def LengthsSound (off keylen vallen : Int) : Prop :=
  0 ≤ vallen ∧ -(off + 9) ≤ keylen ∧ -(9 + vallen) < keylen

/-- **The condition on the entries from `off` on**, `count` of them announced.  It
asks nothing of an entry that fails one of the decoder's four length checks; an
entry that passes them must have sound lengths, and a key that is ended by a
NUL inside the buffer and has a bucket. -/
def SoundFrom (n : Int) (buf : Bytes) : Nat → Int → Prop
  | 0, _ => True
  | count + 1, off =>
      ∀ keylen ∈ wordAt buf off, ∀ vallen ∈ wordAt buf (off + 4),
        off + 8 + keylen ≤ buf.length → off + 9 + keylen + vallen ≤ buf.length →
        LengthsSound off keylen vallen ∧
          ∃ key ∈ stringAt buf (off + 8), HasBucket n key ∧ SoundFrom n buf count (off + 9 + keylen + vallen)

/-- What the entries from `off` on announce: the key and value lengths of those that
pass the length checks, and the bytes left where the decoder stops. -/
def announcedFrom (buf : Bytes) : Nat → Int → Int
  | 0, off => buf.length - off
  | count + 1, off =>
      match wordAt buf off, wordAt buf (off + 4) with
      | some keylen, some vallen =>
          if off + 8 + keylen ≤ buf.length ∧ off + 9 + keylen + vallen ≤ buf.length then
            keylen + vallen + announcedFrom buf count (off + 9 + keylen + vallen)
          else buf.length - off
      | _, _ => buf.length - off

/-- The condition on a whole buffer.  The lengths announced can only be negative in
sum where key lengths are negative: entries then overlap. -/
def SoundBuffer (n : Int) (buf : Bytes) : Prop :=
  ∀ count ∈ wordAt buf 0, SoundFrom n buf count.toNat 4 ∧ -4 ≤ announcedFrom buf count.toNat 4

instance (off keylen vallen : Int) : Decidable (LengthsSound off keylen vallen) :=
  inferInstanceAs (Decidable (_ ∧ _))

instance (d : Dict) (i : Int) : Decidable (d.InTable i) := inferInstanceAs (Decidable (_ ∧ _))

instance (n : Int) (key : CStr) : Decidable (HasBucket n key) := inferInstanceAs (Decidable (_ ∧ _))

instance decidableSoundFrom (n : Int) (buf : Bytes) : ∀ count off, Decidable (SoundFrom n buf count off)
  | 0, _ => isTrue trivial
  | count + 1, off =>
      have := decidableSoundFrom n buf count
      inferInstanceAs (Decidable (∀ keylen ∈ wordAt buf off, ∀ vallen ∈ wordAt buf (off + 4), _ → _ → _))

instance (n : Int) (buf : Bytes) : Decidable (SoundBuffer n buf) :=
  inferInstanceAs (Decidable (∀ count ∈ wordAt buf 0, _))

/-! ## §2. Reads. -/

theorem wordAt_isSome {buf : Bytes} {off : Int} (h0 : 0 ≤ off) (h : off + 4 ≤ buf.length) :
    ∃ w, wordAt buf off = some w := by
  unfold wordAt
  rw [if_pos h0]
  apply getWord_isSome
  rw [List.length_drop]
  omega

theorem wordAt_bounds {buf : Bytes} {off w : Int} (h : wordAt buf off = some w) :
    0 ≤ off ∧ off + 4 ≤ buf.length := by
  unfold wordAt at h
  split at h
  next h0 =>
    refine ⟨h0, ?_⟩
    by_contra hlt
    have hlen : (buf.drop off.toNat).length < 4 := by
      rw [List.length_drop]
      omega
    match hd : buf.drop off.toNat with
    | [] => rw [hd] at h; cases h
    | [_] => rw [hd] at h; cases h
    | [_, _] => rw [hd] at h; cases h
    | [_, _, _] => rw [hd] at h; cases h
    | _ :: _ :: _ :: _ :: _ =>
        rw [hd] at hlen
        simp only [List.length_cons] at hlen
        omega
  next => cases h

theorem wordAt_le {buf : Bytes} {off w : Int} (h : wordAt buf off = some w) : w ≤ int32Max := by
  unfold wordAt at h
  split at h
  next => exact getWord_le h
  next => cases h

theorem stringAt_bounds {buf : Bytes} {off : Int} {key : CStr} (h : stringAt buf off = some key) :
    0 ≤ off ∧ off + key.strlen < buf.length := by
  unfold stringAt at h
  split at h
  next h0 =>
    have := CStr.scan_length_lt h
    rw [List.length_drop] at this
    exact ⟨h0, by omega⟩
  next => cases h

/-! ## §3. A run only adds to its records. -/

/-- `r'` has at least the records of `r`. -/
structure Extends (r r' : UnserializeRun) : Prop where
  examined : ∀ e ∈ r.examined, e ∈ r'.examined
  stored : ∀ s ∈ r.stored, s ∈ r'.stored
  length : r.stored.length ≤ r'.stored.length

theorem Extends.refl (r : UnserializeRun) : Extends r r := ⟨fun _ he => he, fun _ hs => hs, Nat.le_refl _⟩

theorem Extends.trans {r₁ r₂ r₃ : UnserializeRun} (h₁ : Extends r₁ r₂) (h₂ : Extends r₂ r₃) :
    Extends r₁ r₃ :=
  ⟨fun e he => h₂.examined e (h₁.examined e he), fun s hs => h₂.stored s (h₁.stored s hs),
    Nat.le_trans h₁.length h₂.length⟩

theorem Extends.examine (r : UnserializeRun) (off n : Int) : Extends r (r.examine off n) :=
  ⟨fun _ he => List.mem_append_left _ he, fun _ hs => hs, Nat.le_refl _⟩

theorem Extends.ret {r r' : UnserializeRun} (h : Extends r r') (v : Option Int) :
    Extends r { r' with ret := v } := ⟨h.examined, h.stored, h.length⟩

/-! ## §4. One iteration of the decoder. -/

/-- The decoder's four length checks let the entry at `off` pass, with these
length words. -/
structure Admitted (buf : Bytes) (off keylen vallen : Int) : Prop where
  keyWord : wordAt buf off = some keylen
  valWord : wordAt buf (off + 4) = some vallen
  keyFits : off + 8 + keylen ≤ buf.length
  valFits : off + 9 + keylen + vallen ≤ buf.length

/-- The run after the entry at `off` has been put into the dict. -/
def UnserializeRun.store (r : UnserializeRun) (off keylen vallen : Int) (key : CStr) (this : Dict)
    (heap : DataHeap) : UnserializeRun where
  ret := r.ret
  this := this
  heap := heap
  examined := r.examined ++ [(off, 4), (off + 4, 4), (off + 8, (key.strlen : Int) + 1)]
  stored := r.stored ++
    [{ before := off, data := off + 9 + keylen, len := vallen, after := off + 9 + keylen + vallen }]

/-- The value the decoder makes for the entry. -/
def entryValue (buf : Bytes) (off keylen vallen : Int) : Data :=
  staticValue buf (off + 9 + keylen) vallen

/-- The ranges examined in an entry whose key is scanned for `n` bytes. -/
def entryRanges (off n : Int) : List (Int × Int) := [(off, 4), (off + 4, 4), (off + 8, n)]

/-- An entry that is admitted is set into the dict. -/
theorem unserializePairs_admitted {buf : Bytes} {off keylen vallen : Int} (count : Nat)
    (A : Admitted buf off keylen vallen) (r : UnserializeRun) :
    unserializePairs buf buf.length (count + 1) off r
      = match stringAt buf (off + 8) with
        | none => { r with
            ret := none, examined := r.examined ++ entryRanges off (buf.length - (off + 8) + 1) }
        | some key =>
            match dictSet r.this (r.heap.alloc (entryValue buf off keylen vallen)).1 (some key)
                r.heap.brk with
            | none => { r with ret := none, examined := r.examined ++ entryRanges off (key.strlen + 1) }
            | some (this, heap, _) =>
                unserializePairs buf buf.length count (off + 9 + keylen + vallen)
                  (r.store off keylen vallen key this heap) := by
  -- the decoder's own expression for the value's offset
  have hdata : off + 8 + (keylen + 1) = off + 9 + keylen := by omega
  have hk := (wordAt_bounds A.keyWord).2
  have hv := (wordAt_bounds A.valWord).2
  rw [unserializePairs]
  simp only [dictDataHdrKeyLen, dictDataHdrValLen, A.keyWord, A.valWord, hdata, gt_iff_lt,
    Int.not_lt.mpr hk, Int.not_lt.mpr hv, Int.not_lt.mpr A.keyFits, Int.not_lt.mpr A.valFits, if_false]
  cases stringAt buf (off + 8) with
  | none => simp [UnserializeRun.examine, entryRanges]
  | some key =>
      simp only [UnserializeRun.examine, entryValue, DataHeap.alloc]
      cases dictSet r.this _ (some key) r.heap.brk with
      | none => simp [entryRanges]
      | some _ => simp [UnserializeRun.store]

/-- An entry that is not admitted ends the run with -1. -/
theorem unserializePairs_reject {buf : Bytes} {off : Int} (count : Nat) (h0 : 0 ≤ off)
    (hno : ∀ keylen vallen, ¬ Admitted buf off keylen vallen) (r : UnserializeRun) :
    ∃ ex : List (Int × Int), (∀ e ∈ ex, 0 ≤ e.1 ∧ e.1 + e.2 ≤ buf.length) ∧
      unserializePairs buf buf.length (count + 1) off r
        = { r with ret := some (-1), examined := r.examined ++ ex } := by
  rw [unserializePairs]
  by_cases h4 : off + dictDataHdrKeyLen > buf.length
  · exact ⟨[], by simp, by rw [if_pos h4, List.append_nil]⟩
  · rw [if_neg h4]
    have h4' : off + 4 ≤ buf.length := Int.not_lt.mp h4
    obtain ⟨keylen, hk⟩ := wordAt_isSome h0 h4'
    simp only [hk]
    by_cases h8 : off + 4 + dictDataHdrValLen > buf.length
    · refine ⟨[(off, 4)], ?_, by rw [if_pos h8]; rfl⟩
      intro e he
      rw [List.mem_singleton] at he
      subst he
      exact ⟨h0, h4'⟩
    · rw [if_neg h8]
      have h8' : off + 4 + 4 ≤ buf.length := Int.not_lt.mp h8
      have h04 : 0 ≤ off + 4 := by omega
      obtain ⟨vallen, hv⟩ := wordAt_isSome h04 h8'
      simp only [hv]
      -- both length words have been read, and one length is too large
      refine ⟨[(off, 4), (off + 4, 4)], ?_, ?_⟩
      · intro e he
        rcases List.mem_cons.mp he with rfl | he
        · exact ⟨h0, h4'⟩
        · rw [List.mem_singleton] at he
          subst he
          exact ⟨Int.add_nonneg h0 (by decide), h8'⟩
      · have hex : ∀ v, { (r.examine off 4).examine (off + 4) 4 with ret := v }
            = { r with ret := v, examined := r.examined ++ [(off, 4), (off + 4, 4)] } := by
          intro v
          simp [UnserializeRun.examine]
        by_cases hkey : off + 8 + keylen > buf.length
        · rw [if_pos hkey]
          exact hex _
        · rw [if_neg hkey]
          by_cases hval : off + 8 + (keylen + 1) + vallen > buf.length
          · rw [if_pos hval]
            exact hex _
          · exact absurd ⟨hk, hv, Int.not_lt.mp hkey, by omega⟩ (hno keylen vallen)

/-! ## §5. What the decoder's `dict_set` does to a dict with any number of buckets. -/

/-- A well-formed dict of `n` buckets, its pairs and its values counted. -/
structure Kept (n : Int) (d : Dict) (h : DataHeap) : Prop where
  hashSize : d.hashSize = n
  shape : ∃ ms ch, Shape d ms ch ∧ Counted h (d.values ms) ∧ d.count = ms.length

theorem HasBucket.inTable {n : Int} {d : Dict} {key : CStr} (hn : d.hashSize = n) :
    HasBucket n key ↔ d.InTable (d.setBucket key) ∧ d.InTable (d.getBucket key) := by
  have hset : (getNewDictFull n).setBucket key = d.setBucket key := Dict.setBucket_congr hn.symm key
  have hget : (getNewDictFull n).getBucket key = d.getBucket key := by
    unfold Dict.getBucket
    rw [hn]
    rfl
  unfold HasBucket Dict.InTable
  rw [hset, hget, hn]
  rfl

/-- What linking in a pair keeps. -/
theorem Kept.linked {n : Int} {d d' : Dict} {h' : DataHeap} {ms : List Addr} {ch : Int → List Addr} {k : CStr}
    {value : Addr} (hn : d.hashSize = n) (S : Shape d ms ch) (hcount : d.count = ms.length)
    (L : Linked d (d.setBucket k) k value d') (C : Counted h' (value :: d.values ms)) : Kept n d' h' where
  hashSize := L.hashSize.trans hn
  shape := by
    refine ⟨_, _, L.shape S rfl, ?_, ?_⟩
    · show Counted h' ((d'.entries (d.brk :: ms)).map Prod.snd)
      rw [L.entries S]
      exact C
    · rw [L.count, hcount]
      simp

/-- What overwriting a value keeps. -/
theorem Kept.overwritten {n : Int} {d d' : Dict} {h' : DataHeap} {ms l r : List Addr} {ch : Int → List Addr}
    {p value : Addr} (hn : d.hashSize = n) (S : Shape d ms ch) (hcount : d.count = ms.length)
    (O : Overwritten d p value d') (hms : ms = l ++ p :: r)
    (C : Counted h' (d.values l ++ value :: d.values r)) : Kept n d' h' where
  hashSize := O.hashSize.trans hn
  shape := by
    refine ⟨ms, ch, O.shape S, ?_, O.count.trans hcount⟩
    have hnd := S.nodup
    rw [hms] at hnd ⊢
    show Counted h' ((d'.entries (l ++ p :: r)).map Prod.snd)
    rw [O.entries_append hnd, List.map_append, List.map_cons]
    exact C

/-- A live value is set when its key has a bucket. -/
theorem Kept.setLive {n : Int} {d : Dict} {h : DataHeap} (K : Kept n d h) {key : Option CStr}
    {k : CStr} {value : Addr} (hk : key.getD (refKey value) = k) (hb : HasBucket n k)
    (hlive : h.cells value ≠ none) (hcan : CanCount d h k value) :
    ∃ d' h', dictSet d h key value = some (d', h', 0) ∧ Kept n d' h' ∧ d'.count ≤ d.count + 1 := by
  obtain ⟨ms, ch, S, C, hcount⟩ := K.shape
  obtain ⟨hset, hget⟩ := (HasBucket.inTable K.hashSize).mp hb
  obtain ⟨d', h', heq, _, hcase⟩ := dictSet_cases S C hk hset hget hlive hcan.1
    fun hmiss => hcan.2 ((dictGet_null_iff S C hget).mpr hmiss)
  refine ⟨d', h', heq, ?_⟩
  rcases hcase with ⟨L, _, C₂, _⟩ | ⟨p, l, r, O, hms, _, C₂, _⟩
  · exact ⟨Kept.linked K.hashSize S hcount L C₂, Int.le_of_eq L.count⟩
  · refine ⟨Kept.overwritten K.hashSize S hcount O hms C₂, ?_⟩
    rw [O.count]
    omega

/-- A cell that nobody holds yet. -/
theorem Kept.alloc {n : Int} {d : Dict} {h : DataHeap} (K : Kept n d h) {c : Data} (hc : 0 ≤ c.refcount) :
    Kept n d (h.alloc c).1 ∧ (h.alloc c).1.cells h.brk ≠ none := by
  obtain ⟨ms, ch, S, C, hcount⟩ := K.shape
  obtain ⟨C', hnew, _⟩ := C.alloc hc
  exact ⟨⟨K.hashSize, ms, ch, S, C', hcount⟩, by rw [hnew]; exact Option.some_ne_none c⟩

/-- A new value is set when its key has a bucket. -/
theorem Kept.set {n : Int} {d : Dict} {h : DataHeap} (K : Kept n d h) {key : CStr}
    (hb : HasBucket n key) {c : Data} (hc : c.refcount = 0) (hfew : d.count < int32Max) :
    ∃ d' h', dictSet d (h.alloc c).1 (some key) h.brk = some (d', h', 0) ∧ Kept n d' h' ∧
      d'.count ≤ d.count + 1 := by
  obtain ⟨K', hlive⟩ := K.alloc (Int.le_of_eq hc.symm)
  exact K'.setLive rfl hb hlive ⟨DataHeap.alloc_room hc, fun _ => hfew⟩

theorem bucket_none {d : Dict} {i : Int} (h : ¬ d.InTable i) : d.bucket i = none := if_neg h

/-- Without a bucket, setting indexes `members` outside the table. -/
theorem Kept.set_none {n : Int} {d : Dict} {h : DataHeap} (K : Kept n d h) {key : CStr}
    (hb : ¬ HasBucket n key) (h' : DataHeap) {value : Addr} (hv : value ≠ 0) :
    dictSet d h' (some key) value = none := by
  obtain ⟨ms, ch, S, -⟩ := K.shape
  rw [HasBucket.inTable K.hashSize] at hb
  have hdef : dictSet d h' (some key) value = dictSetLocked d h' (some key) value := if_neg hv
  rw [hdef]
  unfold dictSetLocked
  by_cases hget : d.InTable (d.getBucket key)
  · -- the key is not found: the pairs of a chain are set and searched in the same bucket
    have hset : ¬ d.InTable (d.setBucket key) := fun hset => hb ⟨hset, hget⟩
    have hmiss : ∀ q ∈ ch (d.getBucket key), d.keyAt q ≠ key := by
      intro q hq hqk
      have hbucket := ((S.mem_chain _ q).mp hq).2
      rw [hqk] at hbucket
      exact hset (hbucket ▸ hget)
    have hlook : dictLookup d key = some 0 := by
      rw [dictLookup_spec S key hget, find_miss hmiss]
      rfl
    have hlink : ∀ v, d.linkPair (d.setBucket key) key v = none := by
      intro v
      unfold Dict.linkPair
      rw [Dict.bucket_none hset]
      rfl
    simp only [Option.getD_some, hlook, Option.bind_eq_bind, Option.bind_some, Option.pure_def, hlink,
      Option.bind_none]
    rw [if_neg (fun h0 => h0 rfl)]
    cases dataRef h' value with
    | none => rfl
    | some _ => rfl
  · have hlook : dictLookup d key = none := by
      unfold dictLookup
      rw [Dict.bucket_none hget]
      rfl
    simp only [Option.getD_some, hlook, Option.bind_eq_bind, Option.bind_none]

/-! ## §6. The condition is exact. -/

/-- The records of a run stay inside the buffer and move forward. -/
structure Inside (buf : Bytes) (r : UnserializeRun) : Prop where
  examined : ∀ e ∈ r.examined, 0 ≤ e.1 ∧ e.1 + e.2 ≤ buf.length
  stored : ∀ s ∈ r.stored, 0 ≤ s.len ∧ 0 ≤ s.data ∧ s.data + s.len ≤ buf.length
  forward : ∀ s ∈ r.stored, s.before < s.after

theorem Inside.ret {buf : Bytes} {r : UnserializeRun} (I : Inside buf r) (v : Option Int) :
    Inside buf { r with ret := v } := ⟨I.examined, I.stored, I.forward⟩

theorem Inside.examine {buf : Bytes} {r : UnserializeRun} (I : Inside buf r) {ex : List (Int × Int)}
    (hex : ∀ e ∈ ex, 0 ≤ e.1 ∧ e.1 + e.2 ≤ buf.length) :
    Inside buf { r with examined := r.examined ++ ex } where
  examined e he := (List.mem_append.mp he).elim (I.examined e) (hex e)
  stored := I.stored
  forward := I.forward

theorem safe_iff_inside {buf : Bytes} {r : UnserializeRun} :
    Safe buf.length r ↔ (r.ret ≠ none ∧ Inside buf r) ∧ 9 * (r.stored.length : Int) ≤ buf.length := by
  constructor
  · intro s
    have := s.bounded
    exact ⟨⟨s.returns, s.examined, s.stored, s.forward⟩, by omega⟩
  · rintro ⟨⟨hret, I⟩, hb⟩
    exact ⟨hret, I.examined, I.stored, I.forward, by omega⟩

/-- The decoder only adds to the records. -/
theorem unserializePairs_extends (size : Int) (buf : Bytes) : ∀ (count : Nat) (off : Int)
    (r : UnserializeRun), Extends r (unserializePairs buf size count off r)
  | 0, _, r => (Extends.refl r).ret (some 0)
  | count + 1, off, r => by
      -- every exit has only examined more
      rw [unserializePairs]
      split
      next => exact (Extends.refl r).ret _
      next =>
        have h₁ := Extends.examine r off 4
        dsimp only
        split
        next => exact h₁.ret _
        next keylen _ =>
          split
          next => exact h₁.ret _
          next =>
            have h₂ := h₁.trans (Extends.examine _ (off + 4) 4)
            split
            next => exact h₂.ret _
            next vallen _ =>
              split
              next => exact h₂.ret _
              next =>
                split
                next => exact h₂.ret _
                next =>
                  split
                  next => exact (h₂.trans (Extends.examine _ _ _)).ret _
                  next key _ =>
                    have h₃ := h₂.trans (Extends.examine _ (off + 8) (key.strlen + 1))
                    split
                    next => exact h₃.ret _
                    next this heap _ _ =>
                      refine Extends.trans ?_ (unserializePairs_extends size buf count _ _)
                      refine ⟨h₃.examined, fun s hs => List.mem_append_left _ (h₃.stored s hs), ?_⟩
                      have := h₃.length
                      simp only [List.length_append]
                      omega

theorem soundFrom_admitted {n : Int} {buf : Bytes} {count : Nat} {off keylen vallen : Int}
    (A : Admitted buf off keylen vallen) :
    SoundFrom n buf (count + 1) off ↔
      LengthsSound off keylen vallen ∧
        ∃ key ∈ stringAt buf (off + 8), HasBucket n key ∧ SoundFrom n buf count (off + 9 + keylen + vallen) := by
  constructor
  · intro h
    exact h keylen A.keyWord vallen A.valWord A.keyFits A.valFits
  · intro h k hk v hv _ _
    rw [A.keyWord, Option.mem_some_iff] at hk
    rw [A.valWord, Option.mem_some_iff] at hv
    subst hk hv
    exact h

theorem soundFrom_rejected {n : Int} {buf : Bytes} {count : Nat} {off : Int}
    (hno : ∀ keylen vallen, ¬ Admitted buf off keylen vallen) : SoundFrom n buf (count + 1) off :=
  fun keylen hk vallen hv hkf hvf => absurd ⟨hk, hv, hkf, hvf⟩ (hno keylen vallen)

theorem announcedFrom_admitted {buf : Bytes} {count : Nat} {off keylen vallen : Int}
    (A : Admitted buf off keylen vallen) :
    announcedFrom buf (count + 1) off = keylen + vallen + announcedFrom buf count (off + 9 + keylen + vallen) := by
  rw [announcedFrom, A.keyWord, A.valWord]
  exact if_pos ⟨A.keyFits, A.valFits⟩

theorem announcedFrom_rejected {buf : Bytes} {count : Nat} {off : Int}
    (hno : ∀ keylen vallen, ¬ Admitted buf off keylen vallen) :
    announcedFrom buf (count + 1) off = buf.length - off := by
  rw [announcedFrom]
  split
  next keylen vallen hk hv => exact if_neg fun hfits => hno keylen vallen ⟨hk, hv, hfits.1, hfits.2⟩
  next => rfl

/-- Storing a sound entry stays inside. -/
theorem Inside.store {buf : Bytes} {r : UnserializeRun} {off keylen vallen : Int} {key : CStr}
    (I : Inside buf r) (A : Admitted buf off keylen vallen) (hkey : stringAt buf (off + 8) = some key)
    (hl : LengthsSound off keylen vallen) (this : Dict) (heap : DataHeap) :
    Inside buf (r.store off keylen vallen key this heap) where
  examined e he := by
    rcases List.mem_append.mp he with he | he
    · exact I.examined e he
    · have hkw := wordAt_bounds A.keyWord
      have hvw := wordAt_bounds A.valWord
      have hks := stringAt_bounds hkey
      simp only [List.mem_cons, List.not_mem_nil, or_false] at he
      -- the two length words and the key
      rcases he with rfl | rfl | rfl
      · exact hkw
      · exact hvw
      · exact ⟨hks.1, by show off + 8 + ((key.strlen : Int) + 1) ≤ _; omega⟩
  stored s hs := by
    obtain ⟨hv, hd, -⟩ := hl
    rcases List.mem_append.mp hs with hs | hs
    · exact I.stored s hs
    · rw [List.mem_singleton] at hs
      subst hs
      exact ⟨hv, by show 0 ≤ off + 9 + keylen; omega, A.valFits⟩
  forward s hs := by
    obtain ⟨-, -, hf⟩ := hl
    rcases List.mem_append.mp hs with hs | hs
    · exact I.forward s hs
    · rw [List.mem_singleton] at hs
      subst hs
      show off < off + 9 + keylen + vallen
      omega

/-- What a run that stays inside says about an entry it has stored. -/
theorem Inside.lengthsSound {buf : Bytes} {r r' : UnserializeRun} {off keylen vallen : Int} {key : CStr}
    {this : Dict} {heap : DataHeap} (hext : Extends (r.store off keylen vallen key this heap) r')
    (I : Inside buf r') : LengthsSound off keylen vallen := by
  have hmem := hext.stored
    { before := off, data := off + 9 + keylen, len := vallen, after := off + 9 + keylen + vallen }
    (by simp [UnserializeRun.store])
  obtain ⟨hv, hd, -⟩ := I.stored _ hmem
  have hf : off < off + 9 + keylen + vallen := I.forward _ hmem
  replace hd : 0 ≤ off + 9 + keylen := hd
  exact ⟨hv, by omega, by omega⟩

/-- **Sound entries are decoded inside the buffer**, and the fixed nine bytes of the
entries are what the announced lengths leave of it. -/
theorem inside_of_sound {n : Int} {buf : Bytes} : ∀ (count : Nat) {off : Int} {r r' : UnserializeRun},
    0 ≤ off → Kept n r.this r.heap → r.this.count + count ≤ int32Max → Inside buf r →
    unserializePairs buf buf.length count off r = r' → SoundFrom n buf count off →
    (r'.ret ≠ none ∧ Inside buf r') ∧
      9 * (r'.stored.length : Int) = 9 * r.stored.length + (buf.length - off) - announcedFrom buf count off
  | 0, off, r, _, _, _, _, I, rfl, _ => by
      refine ⟨⟨Option.some_ne_none 0, I.ret _⟩, ?_⟩
      show 9 * (r.stored.length : Int) = _ - (_ - _)
      omega
  | count + 1, off, r, r', h0, K, hfew, I, hrun, hs => by
      by_cases hA : ∃ keylen vallen, Admitted buf off keylen vallen
      · obtain ⟨keylen, vallen, A⟩ := hA
        rw [unserializePairs_admitted count A] at hrun
        obtain ⟨hl, key, hkey, hb, hs⟩ := (soundFrom_admitted A).mp hs
        obtain ⟨d', h', hset, K', hcount⟩ := K.set hb (c := entryValue buf off keylen vallen) rfl (by omega)
        simp only [Option.mem_def.mp hkey, hset] at hrun
        have h0' : 0 ≤ off + 9 + keylen + vallen := by
          have := hl.2.2
          omega
        have ih := inside_of_sound count h0' K' (by show d'.count + count ≤ int32Max; omega)
          (I.store A hkey hl d' h') hrun hs
        refine ⟨ih.1, ?_⟩
        have hlen := ih.2
        rw [announcedFrom_admitted A]
        simp only [UnserializeRun.store, List.length_append, List.length_singleton] at hlen
        omega
      · -- the entry is rejected, and the run ends
        have hno : ∀ keylen vallen, ¬ Admitted buf off keylen vallen := fun k v h => hA ⟨k, v, h⟩
        obtain ⟨ex, hex, heq⟩ := unserializePairs_reject count h0 hno r
        rw [heq] at hrun
        subst hrun
        refine ⟨⟨Option.some_ne_none _, (I.examine hex).ret _⟩, ?_⟩
        rw [announcedFrom_rejected hno]
        show 9 * (r.stored.length : Int) = _
        omega

/-- **Entries decoded inside the buffer are sound.** -/
theorem sound_of_inside {n : Int} {buf : Bytes} : ∀ (count : Nat) {off : Int} {r r' : UnserializeRun},
    0 ≤ off → Kept n r.this r.heap → r.this.count + count ≤ int32Max →
    unserializePairs buf buf.length count off r = r' → r'.ret ≠ none → Inside buf r' → SoundFrom n buf count off
  | 0, _, _, _, _, _, _, _, _, _ => trivial
  | count + 1, off, r, r', h0, K, hfew, hrun, hret, I => by
      by_cases hA : ∃ keylen vallen, Admitted buf off keylen vallen
      · obtain ⟨keylen, vallen, A⟩ := hA
        rw [unserializePairs_admitted count A] at hrun
        rw [soundFrom_admitted A]
        -- the key must end in the buffer, and have a bucket
        cases hkey : stringAt buf (off + 8) with
        | none =>
            rw [hkey] at hrun
            subst hrun
            exact absurd rfl hret
        | some key =>
            simp only [hkey] at hrun
            by_cases hb : HasBucket n key
            · obtain ⟨d', h', hset, K', hcount⟩ := K.set hb (c := entryValue buf off keylen vallen) rfl (by omega)
              simp only [hset] at hrun
              have hext := unserializePairs_extends (buf.length : Int) buf count
                (off + 9 + keylen + vallen) (r.store off keylen vallen key d' h')
              rw [hrun] at hext
              have hl := I.lengthsSound hext
              have h0' : 0 ≤ off + 9 + keylen + vallen := by
                have := hl.2.2
                omega
              exact ⟨hl, key, rfl, hb,
                sound_of_inside count h0' K' (by show d'.count + count ≤ int32Max; omega) hrun hret I⟩
            · have hpos : r.heap.brk ≠ 0 := by
                obtain ⟨_, _, _, C, _⟩ := K.shape
                exact Nat.ne_of_gt C.pos
              rw [K.set_none hb (r.heap.alloc (entryValue buf off keylen vallen)).1 hpos] at hrun
              subst hrun
              exact absurd rfl hret
      · exact soundFrom_rejected fun k v h => hA ⟨k, v, h⟩

/-! ## §7. `dict_unserialize`. -/

theorem kept_new {h : DataHeap} (n : Int) (C : Counted h []) (refcount : Int) :
    Kept n { getNewDictFull n with refcount := refcount } h where
  hashSize := rfl
  shape := ⟨[], fun _ => [], ⟨rfl, fun _ => rfl, fun _ _ => by simp, fun _ => by simp [getNewDictFull],
    fun _ hp => absurd hp List.not_mem_nil, Nat.one_pos⟩, C, rfl⟩

/-- **`dict_unserialize` into a fresh dict is safe exactly on the sound buffers.** -/
theorem dictUnserialize_safe_iff {h : DataHeap} (C : Counted h []) (n refcount : Int) (buf : Bytes)
    (hsize : 1 ≤ buf.length) :
    Safe buf.length (dictUnserialize buf { getNewDictFull n with refcount := refcount } h)
      ↔ SoundBuffer n buf := by
  unfold dictUnserialize
  have hne : ¬ ((buf.length : Int) = 0) := by omega
  simp only [hne, if_false]
  by_cases h4 : dictHdrLen > buf.length
  · rw [if_pos h4]
    have h4' : (4 : Int) > buf.length := h4
    refine iff_of_true ⟨Option.some_ne_none _, by simp, by simp, by simp, ?_⟩ ?_
    · show ((0 : Nat) : Int) ≤ _
      omega
    intro count hc
    have := (wordAt_bounds hc).2
    omega
  · rw [if_neg h4]
    have h4' : (4 : Int) ≤ buf.length := Int.not_lt.mp h4
    obtain ⟨count, hc⟩ := wordAt_isSome (Int.le_refl 0) (by omega : 0 + 4 ≤ (buf.length : Int))
    -- the count word is the first range that is read
    have hr : ∀ this heap, Inside buf ⟨none, this, heap, [(0, 4)], []⟩ := by
      intro this heap
      refine ⟨?_, by simp, by simp⟩
      intro e he
      rw [List.mem_singleton] at he
      subst he
      exact ⟨Int.le_refl 0, by omega⟩
    have hbuf : SoundBuffer n buf ↔ SoundFrom n buf count.toNat 4 ∧ -4 ≤ announcedFrom buf count.toNat 4 := by
      constructor
      · intro h
        exact h count hc
      · intro h c hc'
        rw [hc, Option.mem_some_iff] at hc'
        exact hc' ▸ h
    simp only [hc, UnserializeRun.examine, List.nil_append]
    rw [hbuf, safe_iff_inside]
    by_cases hneg : count < 0
    · rw [if_pos hneg, Int.toNat_of_nonpos (by omega)]
      refine iff_of_true ⟨⟨Option.some_ne_none _, (hr _ h).ret _⟩, by simp⟩ ⟨trivial, ?_⟩
      show -4 ≤ (buf.length : Int) - 4
      omega
    · rw [if_neg hneg]
      have hword := wordAt_le hc
      have hfew : (0 : Int) + count.toNat ≤ int32Max := by omega
      generalize hrun : unserializePairs buf buf.length count.toNat dictHdrLen _ = r'
      have hin := inside_of_sound count.toNat (by decide) (kept_new n C refcount) hfew (hr _ h) hrun
      constructor
      · rintro ⟨⟨hret, I⟩, hb⟩
        have hs := sound_of_inside count.toNat (by decide) (kept_new n C refcount) hfew hrun hret I
        have hlen : 9 * (r'.stored.length : Int) = 9 * 0 + (buf.length - 4) - announcedFrom buf count.toNat 4 :=
          (hin hs).2
        exact ⟨hs, by omega⟩
      · rintro ⟨hs, hann⟩
        have hlen : 9 * (r'.stored.length : Int) = 9 * 0 + (buf.length - 4) - announcedFrom buf count.toNat 4 :=
          (hin hs).2
        exact ⟨(hin hs).1, by omega⟩

/-- Two entries: "a" with a value of two bytes, and "" with one of one byte. -/
def twoEntries : Bytes :=
  [0, 0, 0, 2, 0, 0, 0, 1, 0, 0, 0, 2, 97, 0, 120, 121, 0, 0, 0, 0, 0, 0, 0, 1, 0, 122]

theorem dictUnserialize_safe_iff_twoEntries :
    Safe 26 (dictUnserialize twoEntries dictNew oneValueHeap) ∧
      (dictUnserialize twoEntries dictNew oneValueHeap).stored.length = 2 :=
  ⟨(dictUnserialize_safe_iff counted_oneValueHeap 1 1 twoEntries (by decide)).mpr (by decide +kernel),
    by decide +kernel⟩

/-- One entry with an empty value, whose empty key has no NUL: the byte where it
should be is another character, and the buffer ends there. -/
def unterminatedKey : Bytes := [0, 0, 0, 1, 0, 0, 0, 0, 0, 0, 0, 0, 97]

/-- The scan for the key's NUL leaves the buffer. -/
theorem unterminatedKey_unsafe : ¬ Safe 13 (dictUnserialize unterminatedKey dictNew oneValueHeap) := by
  intro hs
  have hex := hs.examined (12, 2) (by decide)
  have hlt : ¬ ((12 : Int) + 2 ≤ 13) := by decide
  exact hlt hex.2

end LzLib.Dict
