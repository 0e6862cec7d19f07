/-
  LzLib.Dict.Buckets
  ──────────────────
  **ONE KEY, ONE BUCKET?**

  `_dict_set` reduces the hash of a key as an `int`, `_dict_lookup` and
  `dict_del` reduce it as an `unsigned int`.  The two remainders agree for
  exactly the hashes of `HashFits`; for the others the set goes to another
  bucket than the search, or to none at all (`buckets_agree_iff`).

  The invariant here is that of a dict with any number of buckets: its chains
  are those of the set.
-/
import LzLib.Dict.UnserializeSafety

namespace LzLib.Dict

open LzLib.Foundation LzLib.Hash

/-! ## §1. The two remainders. -/

/-- An `int` keeps a small hash and makes a large one negative. -/
theorem wrap32_word (h : Nat) (hh : h < 2 ^ 32) :
    wrap32 h = if h < 2 ^ 31 then (h : Int) else h - 2 ^ 32 := by
  unfold wrap32
  rw [Int.bmod_def]
  split <;> split <;> omega

/-- **The signed and the unsigned remainder of a 32-bit word agree** when its
top bit is clear, and otherwise only if both are zero. -/
theorem tmod_eq_mod_iff {h : Nat} (hh : h < 2 ^ 32) (n : Nat) :
    (wrap32 h).tmod n = ((h % n : Nat) : Int) ↔ h < 2 ^ 31 ∨ (h % n = 0 ∧ 2 ^ 32 % n = 0) := by
  rw [wrap32_word h hh]
  by_cases hsmall : h < 2 ^ 31
  · rw [if_pos hsmall]
    exact iff_of_true (Int.ofNat_tmod h n).symm (Or.inl hsmall)
  · rw [if_neg hsmall]
    -- the remainder of a negative number is the negated remainder of its absolute value
    have hneg : ((h : Int) - 2 ^ 32).tmod n = -(((2 ^ 32 - h) % n : Nat) : Int) := by
      have habs : (h : Int) - 2 ^ 32 = -((2 ^ 32 - h : Nat) : Int) := by omega
      rw [habs, Int.neg_tmod, ← Int.ofNat_tmod]
    have hsum : 2 ^ 32 % n = ((2 ^ 32 - h) % n + h % n) % n := by
      rw [← Nat.add_mod, Nat.sub_add_cancel (Nat.le_of_lt hh)]
    rw [hneg]
    constructor
    · intro heq
      have hzero : (2 ^ 32 - h) % n = 0 ∧ h % n = 0 := by omega
      rw [hzero.1, hzero.2, Nat.add_zero, Nat.zero_mod] at hsum
      exact Or.inr ⟨hzero.2, hsum⟩
    · rintro (hlt | ⟨hzero, hpow⟩)
      · exact absurd hlt hsmall
      · rw [hzero, Nat.add_zero, Nat.mod_mod, hpow] at hsum
        omega

/-! ## §2. Keys whose buckets agree. -/

/-- Set and search use one bucket, and it is one of the table. -/
def SameBucket (this : Dict) (key : CStr) : Prop :=
  this.InTable (this.setBucket key) ∧ this.setBucket key = this.getBucket key

/-- The hash is a non-negative `int`, or `n` divides it and `2 ^ 32`. -/
def HashFits (n : Int) (key : CStr) : Prop :=
  (superFastHash key.chars).toNat < 2 ^ 31 ∨
    ((superFastHash key.chars).toNat % n.toNat = 0 ∧ 2 ^ 32 % n.toNat = 0)

section

variable {d : Dict} {n : Int}

/-- The search never leaves the table. -/
theorem getBucket_inTable (hn : 1 ≤ n) (hd : d.hashSize = n) (key : CStr) :
    d.InTable (d.getBucket key) := by
  have hpos : 0 < n.toNat := by omega
  have hlt := Nat.mod_lt (superFastHash key.chars).toNat hpos
  unfold Dict.InTable Dict.getBucket
  rw [hd]
  omega

theorem sameBucket_iff (hn : 1 ≤ n) (hd : d.hashSize = n) (key : CStr) :
    d.SameBucket key ↔ HashFits n key := by
  have hsize : n = (n.toNat : Int) := by omega
  have hiff := tmod_eq_mod_iff (superFastHash key.chars).toNat_lt n.toNat
  unfold HashFits
  rw [← hiff]
  have hset : d.setBucket key = (wrap32 (superFastHash key.chars).toNat).tmod n.toNat := by
    unfold Dict.setBucket
    rw [hd, ← hsize]
  have hget : d.getBucket key = (((superFastHash key.chars).toNat % n.toNat : Nat) : Int) := by
    unfold Dict.getBucket
    rw [hd]
  constructor
  · intro h
    rw [← hset, ← hget]
    exact h.2
  · intro h
    have heq : d.setBucket key = d.getBucket key := by rw [hset, hget, h]
    exact ⟨heq ▸ getBucket_inTable hn hd key, heq⟩

theorem getBucket_congr {d' : Dict} (hd : d'.hashSize = d.hashSize) (key : CStr) :
    d'.getBucket key = d.getBucket key := by
  unfold Dict.getBucket
  rw [hd]

/-- Where set and search differ, the search finds nothing. -/
theorem Shape.miss_of_ne {ms : List Addr} {ch : Int → List Addr} (S : Shape d ms ch) {key : CStr}
    (hne : d.setBucket key ≠ d.getBucket key) : ∀ q ∈ ch (d.getBucket key), d.keyAt q ≠ key := by
  intro q hq hqk
  have hbucket := ((S.mem_chain _ q).mp hq).2
  rw [hqk] at hbucket
  exact hne hbucket

end

/-! ## §3. A key that is set, and then looked up. -/

section

variable {n : Int} {d : Dict} {h : DataHeap} {key : CStr} {value : Addr}

/-- Where the buckets agree, `dict_get` finds what `dict_set` has set. -/
theorem Kept.set_found (K : Kept n d h) (hn : 1 ≤ n) (hfits : HashFits n key)
    (hlive : h.cells value ≠ none) (hcan : CanCount d h key value) :
    ∃ d' h', dictSet d h (some key) value = some (d', h', 0) ∧ dictGet d' key = some value := by
  obtain ⟨ms, ch, S, C, -⟩ := K.shape
  obtain ⟨hset, hsame⟩ := (sameBucket_iff hn K.hashSize key).mpr hfits
  have hget := getBucket_inTable hn K.hashSize key
  have hkey : (some key).getD (refKey value) = key := rfl
  obtain ⟨d', h', heq, -, hcase⟩ := dictSet_cases S C hkey hset hget hlive hcan.1
    fun hmiss => hcan.2 ((dictGet_null_iff S C hget).mpr hmiss)
  refine ⟨d', h', heq, ?_⟩
  rcases hcase with ⟨L, -, -, -⟩ | ⟨p, l, r, O, -, hfind, -, -⟩
  · -- the new pair is the first of its chain
    have hget' := getBucket_inTable hn (L.hashSize.trans K.hashSize) key
    have hnew : d'.keyAt d.brk = key := by
      rw [Dict.keyAt, L.key, if_pos rfl]
      rfl
    rw [dictGet_spec (L.shape S rfl) hget', getBucket_congr L.hashSize, ← hsame]
    rw [Function.update_self, List.find?_cons_of_pos (by simpa using hnew)]
    show some (d'.valueAt d.brk) = some value
    rw [Dict.valueAt, L.value, if_pos rfl]
    rfl
  · -- the pair that is found has got the new value
    have hget' := getBucket_inTable hn (O.hashSize.trans K.hashSize) key
    have hkeys : ∀ q, d'.keyAt q = d.keyAt q := by
      intro q
      rw [Dict.keyAt, O.key]
      rfl
    rw [dictGet_spec (O.shape S) hget', getBucket_congr O.hashSize]
    simp only [hkeys]
    rw [hfind]
    show some (d'.valueAt p) = some value
    rw [Dict.valueAt, O.value, if_pos rfl]
    rfl

/-- Where they do not, a set that comes through links a pair that is not found. -/
theorem Kept.set_unfound (K : Kept n d h) (hn : 1 ≤ n) (hfits : ¬ HashFits n key)
    (hlive : h.cells value ≠ none) {d' : Dict} {h' : DataHeap} {ret : Int}
    (heq : dictSet d h (some key) value = some (d', h', ret)) : dictLookup d' key = some 0 := by
  obtain ⟨ms, ch, S, C, -⟩ := K.shape
  obtain ⟨c, hc⟩ := Option.ne_none_iff_exists'.mp hlive
  have hvalue : value ≠ 0 := (C.below value c hc).1
  have hget := getBucket_inTable hn K.hashSize key
  by_cases hset : d.InTable (d.setBucket key)
  · have hne : d.setBucket key ≠ d.getBucket key := fun hsame =>
      hfits ((sameBucket_iff hn K.hashSize key).mp ⟨hset, hsame⟩)
    have hkey : (some key).getD (refKey value) = key := rfl
    obtain ⟨hroom, hfew⟩ := dictSet_canCount S C hkey hget hvalue heq
    obtain ⟨d₁, h₁, heq₁, -, hcase⟩ := dictSet_cases S C hkey hset hget hlive hroom
      fun hmiss => hfew ((dictGet_null_iff S C hget).mpr hmiss)
    rw [heq, Option.some.injEq, Prod.mk.injEq, Prod.mk.injEq] at heq₁
    obtain ⟨rfl, rfl, -⟩ := heq₁
    rcases hcase with ⟨L, -, -, -⟩ | ⟨p, l, r, O, -, hfind, -, -⟩
    · -- the chain that is searched is the old one, without the key
      have hget' := getBucket_inTable hn (L.hashSize.trans K.hashSize) key
      have hmiss : ∀ q ∈ ch (d.getBucket key), d'.keyAt q ≠ key := by
        intro q hq
        have hold : q ≠ d.brk := Nat.ne_of_lt (S.below q (S.mem_of_chain hq))
        have hother : d'.keyAt q = d.keyAt q := by
          rw [Dict.keyAt, L.key, if_neg hold]
          rfl
        rw [hother]
        exact S.miss_of_ne hne q hq
      rw [dictLookup_spec (L.shape S rfl) key hget', getBucket_congr L.hashSize,
        Function.update_of_ne (Ne.symm hne), find_miss hmiss]
      rfl
    · have hfoundKey : d.keyAt p = key := by simpa using List.find?_some hfind
      exact absurd hfoundKey (S.miss_of_ne hne p (List.mem_of_find?_eq_some hfind))
  · have hbucket : ¬ HasBucket n key := fun hb => hset ((HasBucket.inTable K.hashSize).mp hb).1
    -- the new pair would be linked outside the table
    rw [K.set_none hbucket h hvalue] at heq
    cases heq

/-- So what is set is not what is got. -/
theorem Kept.set_lost (K : Kept n d h) (hn : 1 ≤ n) (hfits : ¬ HashFits n key)
    (hlive : h.cells value ≠ none) :
    ¬ ∃ d' h', dictSet d h (some key) value = some (d', h', 0) ∧ dictGet d' key = some value := by
  rintro ⟨d', h', heq, hfound⟩
  obtain ⟨ms, ch, S, C, -⟩ := K.shape
  obtain ⟨c, hc⟩ := Option.ne_none_iff_exists'.mp hlive
  have hnull : dictGet d' key = some 0 := by
    unfold dictGet
    rw [K.set_unfound hn hfits hlive heq]
    rfl
  rw [hnull] at hfound
  exact (C.below value c hc).1 (Option.some.inj hfound).symm

end

/-! ## §4. Any number of buckets, over runs. -/

section

variable {n : Int} {d : Dict} {h : DataHeap} {value : Addr}

/-- `dict_del` keeps a dict of any size in order. -/
theorem Kept.del (K : Kept n d h) (hn : 1 ≤ n) (key : CStr) :
    ∃ d' h', dictDel d h key = some (d', h') ∧ Kept n d' h' := by
  obtain ⟨ms, ch, S, C, hcount⟩ := K.shape
  have hget := getBucket_inTable hn K.hashSize key
  rcases S.find_cases (d.getBucket key) key with ⟨-, hmiss⟩ | ⟨p, l, r, -, hch, hkp, hl, hp⟩
  · exact ⟨d, h, dictDel_miss S hget hmiss, K⟩
  · obtain ⟨l', r', rfl⟩ := List.append_of_mem hp
    have hperm : (d.valueAt p :: (d.values l' ++ d.values r')).Perm (d.values (l' ++ p :: r')) := by
      rw [Dict.values_append]
      exact List.perm_middle.symm
    obtain ⟨h', hunref, C', -, -⟩ := dataUnref_spec (C.perm hperm)
    have hlow : -int32Max ≤ d.count := by
      rw [hcount]
      unfold int32Max
      omega
    obtain ⟨c, d', hc, heq, U⟩ := dictDel_hit S hget hch hkp hl hlow hunref
    have hnot : p ∉ l' ++ r' := (List.nodup_cons.mp (List.nodup_middle.mp S.nodup)).1
    refine ⟨d', h', heq, U.hashSize.trans K.hashSize, _, _, U.shape S hch hc, ?_, ?_⟩
    · unfold Dict.values
      rw [U.entries hnot, Dict.entries, List.map_append, List.map_append]
      exact C'
    · rw [U.count, hcount]
      simp only [List.length_append, List.length_cons]
      omega

/-- The `dict_get_*` wrappers keep it in order too. -/
theorem Kept.getVia {α : Type} (convert : Data → Int × α) (K : Kept n d h) (hn : 1 ≤ n) (key : CStr)
    {r : Int × Option α × DataHeap} (heq : dictGetVia convert d h key = some r) : Kept n d r.2.2 := by
  obtain ⟨ms, ch, S, C, hcount⟩ := K.shape
  have hlook := dictLookup_spec S key (getBucket_inTable hn K.hashSize key)
  rcases S.find_cases (d.getBucket key) key with ⟨hfind, -⟩ | ⟨p, -, -, hfind, -, -, -, hp⟩
  · rw [hfind] at hlook
    rw [dictGetVia_absent convert hlook, Option.some.injEq] at heq
    exact heq ▸ K
  · rw [hfind] at hlook
    obtain ⟨c, hc, -, hvalue⟩ := S.pair hp
    have hmem : c.value ∈ d.values ms := by
      rw [hvalue]
      exact List.mem_map_of_mem (List.mem_map_of_mem hp)
    by_cases hroom : h.Room c.value
    · obtain ⟨ret, val, h', heq', C', -⟩ := dictGetVia_present convert C hlook (S.ne_zero hp) hc hmem hroom
      rw [heq', Option.some.injEq] at heq
      exact heq ▸ ⟨K.hashSize, ms, ch, S, C', hcount⟩
    · rw [dictGetVia_full convert hlook (S.ne_zero hp) hc (C.ne_zero hmem) hroom] at heq
      cases heq

/-- A set that comes through keeps it in order. -/
theorem Kept.set_through {key : Option CStr} {d' : Dict} {h' : DataHeap} {ret : Int} (K : Kept n d h)
    (hlive : h.cells value ≠ none) (heq : dictSet d h key value = some (d', h', ret)) : Kept n d' h' := by
  obtain ⟨ms, ch, S, C, -⟩ := K.shape
  have hvalue : value ≠ 0 := by
    obtain ⟨c, hc⟩ := Option.ne_none_iff_exists'.mp hlive
    exact (C.below value c hc).1
  have hkey : dictSet d h key value = dictSet d h (some (key.getD (refKey value))) value := by
    cases key <;> rfl
  by_cases hb : HasBucket n (key.getD (refKey value))
  · have hget := ((HasBucket.inTable K.hashSize).mp hb).2
    obtain ⟨d₁, h₁, heq₁, K', -⟩ := K.setLive rfl hb hlive (dictSet_canCount S C rfl hget hvalue heq)
    rw [heq, Option.some.injEq, Prod.mk.injEq, Prod.mk.injEq] at heq₁
    obtain ⟨rfl, rfl, -⟩ := heq₁
    exact K'
  · rw [hkey, K.set_none hb h hvalue] at heq
    cases heq

end

/-- One operation that comes through. -/
theorem kept_step {α : Type} {n : Int} (hn : 1 ≤ n) (s : DictState) (o : DictOp α) (s' : DictState)
    (K : Kept n s.dict s.heap) (ha : dictAllowed s o) (hstep : dictStep s o = some s') :
    Kept n s'.dict s'.heap := by
  cases o with
  | set key value =>
      obtain ⟨⟨d', h', ret⟩, heq, hs'⟩ := Option.bind_eq_some_iff.mp hstep
      cases hs'
      exact K.set_through ha heq
  | setData key data =>
      obtain ⟨⟨d', h', ret⟩, heq, hs'⟩ := Option.bind_eq_some_iff.mp hstep
      cases hs'
      cases data with
      | none =>
          cases heq
          exact K
      | some c =>
          -- a fresh value, with no reference yet
          obtain ⟨K', hlive⟩ := K.alloc (Int.le_of_eq (ha c rfl).symm)
          exact K'.set_through hlive heq
  | del key =>
      obtain ⟨d₁, h₁, heq₁, K'⟩ := K.del hn key
      obtain ⟨⟨d', h'⟩, heq, hs'⟩ := Option.bind_eq_some_iff.mp hstep
      cases hs'
      rw [heq₁] at heq
      cases heq
      exact K'
  | get key =>
      obtain ⟨-, -, hs'⟩ := Option.bind_eq_some_iff.mp hstep
      cases hs'
      exact K
  | getVia convert key =>
      obtain ⟨⟨ret, val, h'⟩, heq, hs'⟩ := Option.bind_eq_some_iff.mp hstep
      cases hs'
      exact K.getVia convert hn key heq

/-- **ONE KEY, ONE BUCKET.**  In every state of a dict with `n` buckets, set and
search use one bucket of the table for a key if and only if the key's hash is
below `2 ^ 31` or `n` divides both the hash and `2 ^ 32`; a live value that is set
is found again if and only if that is so and neither its references nor the
pairs are `INT_MAX` already. -/
theorem buckets_agree_iff {α : Type} {n : Int} (hn : 1 ≤ n) {h₀ : DataHeap} (hh : Counted h₀ [])
    {ops : List (DictOp α)} (hl : (dictComponent α).Legal ⟨getNewDictFull n, h₀, []⟩ ops) {s : DictState}
    (hrun : (dictComponent α).run ⟨getNewDictFull n, h₀, []⟩ ops = some s) (key : CStr) :
    (s.dict.SameBucket key ↔ HashFits n key) ∧
      ∀ value, s.heap.cells value ≠ none →
        ((∃ d' h', dictSet s.dict s.heap (some key) value = some (d', h', 0) ∧
            dictGet d' key = some value) ↔ HashFits n key ∧ CanCount s.dict s.heap key value) := by
  have K₀ : Kept n (getNewDictFull n) h₀ := ⟨rfl, [], _, shape_new n, hh, rfl⟩
  have K : Kept n s.dict s.heap := (dictComponent α).run_safe (kept_step hn) K₀ hl hrun
  refine ⟨sameBucket_iff hn K.hashSize key, ?_⟩
  intro value hlive
  constructor
  · intro hfound
    refine ⟨?_, ?_⟩
    · by_contra hfits
      exact K.set_lost hn hfits hlive hfound
    · obtain ⟨d', h', heq, -⟩ := hfound
      obtain ⟨ms, ch, S, C, -⟩ := K.shape
      obtain ⟨c, hc⟩ := Option.ne_none_iff_exists'.mp hlive
      exact dictSet_canCount S C rfl (getBucket_inTable hn K.hashSize key) (C.below value c hc).1 heq
  · rintro ⟨hfits, hcan⟩
    exact K.set_found hn hfits hlive hcan

/-- The text `key`. -/
def textKey : CStr := ⟨[107, 101, 121], by decide⟩

/-- The text `brick`. -/
def textBrick : CStr := ⟨[98, 114, 105, 99, 107], by decide⟩

/-- Three buckets, and one of two keys left: `brick` has one bucket, `key` has two. -/
theorem buckets_agree_iff_three :
    ∃ s, (dictComponent Unit).run ⟨getNewDictFull 3, oneValueHeap, []⟩
        [.set (some textBrick) 1, .setData (some textA) (some (dataFromInt 5)), .del textA] = some s ∧
      s.dict.SameBucket textBrick ∧
      (∃ d' h', dictSet s.dict s.heap (some textBrick) 1 = some (d', h', 0) ∧ dictGet d' textBrick = some 1) ∧
      ¬ s.dict.SameBucket textKey := by
  obtain ⟨s, hrun, hstate⟩ := Option.map_eq_some_iff.mp (by decide +kernel :
    ((dictComponent Unit).run ⟨getNewDictFull 3, oneValueHeap, []⟩
      [.set (some textBrick) 1, .setData (some textA) (some (dataFromInt 5)), .del textA]).map
        (fun s => (s.dict.count, (s.heap.cells 1).map Data.refcount)) = some (1, some 2))
  rw [Prod.mk.injEq] at hstate
  obtain ⟨c, hcell, hrefs⟩ := Option.map_eq_some_iff.mp hstate.2
  have hlegal : (dictComponent Unit).Legal ⟨getNewDictFull 3, oneValueHeap, []⟩
      [.set (some textBrick) 1, .setData (some textA) (some (dataFromInt 5)), .del textA] :=
    (dictComponent Unit).legal_of_check (by decide +kernel)
  have hbrick := buckets_agree_iff (by decide) counted_oneValueHeap hlegal hrun textBrick
  have hkey := buckets_agree_iff (by decide) counted_oneValueHeap hlegal hrun textKey
  have hlive : s.heap.cells 1 ≠ none := by
    rw [hcell]
    exact Option.some_ne_none c
  have hcan : CanCount s.dict s.heap textBrick 1 := by
    refine ⟨fun c' hc' => ?_, fun _ => ?_⟩
    · rw [hcell, Option.some.injEq] at hc'
      rw [← hc', hrefs]
      decide
    · rw [hstate.1]
      decide
  refine ⟨s, hrun, hbrick.1.mpr (Or.inl (by decide +kernel)),
    (hbrick.2 1 hlive).mpr ⟨Or.inl (by decide +kernel), hcan⟩, fun hsame => ?_⟩
  rcases hkey.1.mp hsame with hsmall | hdiv
  · exact absurd hsmall (by decide +kernel)
  · exact absurd hdiv.2 (by decide +kernel)

/-- In a table of two, `key` is searched in bucket 1 and set in bucket -1. -/
theorem textKey_leaves_table :
    ¬ ∀ (n : Int) (key : CStr), 1 ≤ n → (getNewDictFull n).SameBucket key := by
  intro hall
  have hin : 0 ≤ (getNewDictFull 2).setBucket textKey := (hall 2 textKey (by decide)).1.1
  have hout : (getNewDictFull 2).setBucket textKey = -1 := by decide +kernel
  omega

example : dictSet (getNewDictFull 2) oneValueHeap (some textKey) 1 = none := by
  have hnone : (dictSet (getNewDictFull 2) oneValueHeap (some textKey) 1).isNone = true := by
    decide +kernel
  exact Option.isNone_iff_eq_none.mp hnone

end LzLib.Dict
