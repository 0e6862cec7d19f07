/-
  LzLib.Dict.Keyed
  ────────────────
  **A DICT WHOSE KEYS FIT**, with any number of buckets.

  `Keyed d es`: the dict `d` holds exactly the entries `es`, its keys are
  distinct, and each of them fits the number of buckets, so that set and
  search agree on it.  One lemma for each operation says what becomes of the
  entries and which calls of `data_ref` and `data_unref` are made; if the
  calls come through, so does the operation.
-/
import LzLib.Dict.FamilyDef
import LzLib.Dict.Buckets

namespace LzLib.Dict

open LzLib.Foundation LzLib.Hash

/-! ## §1. The representation. -/

/-- **The dict `d` holds exactly the entries `es`**, all of them counted, and its
keys fit. -/
structure Keyed (d : Dict) (es : List (CStr × Addr)) : Prop where
  size : 1 ≤ d.hashSize
  count : d.count = es.length
  shape : ∃ ms ch, Shape d ms ch ∧ d.entries ms = es
  distinct : (es.map Prod.fst).Nodup
  fits : ∀ k ∈ es.map Prod.fst, HashFits d.hashSize k
  valued : ∀ v ∈ es.map Prod.snd, v ≠ 0

/-- A new dict holds nothing. -/
theorem keyed_new {n refcount : Int} (hn : 1 ≤ n) :
    Keyed { getNewDictFull n with refcount := refcount } [] where
  size := hn
  count := rfl
  shape := ⟨[], fun _ => [],
    ⟨rfl, fun _ => rfl, fun _ _ => by simp, fun _ => by simp [getNewDictFull],
      fun _ hp => absurd hp List.not_mem_nil, Nat.one_pos⟩, rfl⟩
  distinct := List.nodup_nil
  fits _ hk := absurd hk List.not_mem_nil
  valued _ hv := absurd hv List.not_mem_nil

/-- With one bucket every key fits. -/
theorem hashFits_one (k : CStr) : HashFits 1 k := Or.inr ⟨Nat.mod_one _, Nat.mod_one _⟩

section

variable {d : Dict} {es : List (CStr × Addr)} {ms : List Addr} {ch : Int → List Addr}

/-- **What a search finds**: the one pair with the key, or no such pair. -/
theorem Shape.search (S : Shape d ms ch) (hn : 1 ≤ d.hashSize)
    (hfits : ∀ k ∈ (d.entries ms).map Prod.fst, HashFits d.hashSize k) (k : CStr) :
    (((ch (d.getBucket k)).find? (fun q => d.keyAt q = k) = none ∧
          ∀ q ∈ ch (d.getBucket k), d.keyAt q ≠ k) ∧ k ∉ (d.entries ms).map Prod.fst) ∨
      ∃ p l r, (ch (d.getBucket k)).find? (fun q => d.keyAt q = k) = some p ∧
        ch (d.getBucket k) = l ++ p :: r ∧ d.keyAt p = k ∧ (∀ q ∈ l, d.keyAt q ≠ k) ∧ p ∈ ms := by
  rcases S.find_cases (d.getBucket k) k with hmiss | hfound
  · refine Or.inl ⟨hmiss, ?_⟩
    intro hk
    -- a member with the key is in the bucket of its set, which is the one that is searched
    have hsame := ((sameBucket_iff hn rfl k).mpr (hfits k hk)).2
    rw [keys_entries] at hk
    obtain ⟨q, hq, hqk⟩ := List.mem_map.mp hk
    have hqch : q ∈ ch (d.getBucket k) := (S.mem_chain _ q).mpr ⟨hq, by rw [hqk, hsame]⟩
    exact hmiss.2 q hqch hqk
  · exact Or.inr hfound

theorem Shape.assocGet (S : Shape d ms ch) (hnd : ((d.entries ms).map Prod.fst).Nodup) {p : Addr}
    (hp : p ∈ ms) : assocGet (d.entries ms) (d.keyAt p) = some (d.valueAt p) := by
  obtain ⟨l, r, rfl⟩ := List.append_of_mem hp
  rw [Dict.entries_append]
  exact assocGet_split (split_keys hnd rfl).1

/-- `_dict_lookup`. -/
theorem Keyed.lookup (K : Keyed d es) (k : CStr) :
    (dictLookup d k = some 0 ∧ assocGet es k = none) ∨
      ∃ p c, p ≠ 0 ∧ dictLookup d k = some p ∧ d.pairs p = some c ∧ c.key = k ∧
        assocGet es k = some c.value := by
  obtain ⟨ms, ch, S, rfl⟩ := K.shape
  rw [dictLookup_spec S k (getBucket_inTable K.size rfl k)]
  rcases S.search K.size K.fits k with ⟨⟨hmiss, -⟩, hk⟩ | ⟨p, l, r, hfind, -, hkp, -, hp⟩
  · rw [hmiss]
    exact Or.inl ⟨rfl, (assocGet_eq_none_iff _ k).mpr hk⟩
  · obtain ⟨c, hc, hkey, hvalue⟩ := S.pair hp
    have hget := S.assocGet K.distinct hp
    rw [hkp, ← hvalue] at hget
    rw [hfind]
    exact Or.inr ⟨p, c, S.ne_zero hp, rfl, hc, hkey.trans hkp, hget⟩

/-- A live pair is an entry. -/
theorem Keyed.mem_entries (K : Keyed d es) {p : Addr} {c : Pair} (hc : d.pairs p = some c) :
    (c.key, c.value) ∈ es := by
  obtain ⟨ms, ch, S, rfl⟩ := K.shape
  have hp : p ∈ ms := (S.live p).mp (by rw [hc]; rfl)
  obtain ⟨c', hc', hkey, hvalue⟩ := S.pair hp
  rw [hc, Option.some.injEq] at hc'
  subst hc'
  rw [hkey, hvalue]
  exact List.mem_map_of_mem hp

theorem Keyed.value_ne_zero (K : Keyed d es) {k : CStr} {v : Addr} (h : assocGet es k = some v) :
    v ≠ 0 := K.valued v (List.mem_map.mpr ⟨(k, v), assocGet_mem h, rfl⟩)

/-- `dict_get` of a key. -/
theorem Keyed.get (K : Keyed d es) (k : CStr) : dictGet d k = some ((assocGet es k).getD 0) := by
  unfold dictGet
  rcases K.lookup k with ⟨hlook, hget⟩ | ⟨p, c, hp, hlook, hc, -, hget⟩
  · rw [hlook, hget]
    rfl
  · rw [hlook, hget]
    show (if p ≠ 0 then (d.pairs p).map Pair.value else some 0) = _
    rw [if_pos hp, hc]
    rfl

/-- It is not NULL exactly when the dict has the key. -/
theorem Keyed.get_ne_null_iff (K : Keyed d es) (k : CStr) : dictGet d k ≠ some 0 ↔ k ∈ es.map Prod.fst := by
  rw [K.get k, ← not_iff_not, ← assocGet_eq_none_iff, not_not]
  cases hget : assocGet es k with
  | none => simp
  | some v =>
      have hv := K.value_ne_zero hget
      simp [hv]

/-! ## §2. Replaying calls. -/

theorem replay_ref {h h' : DataHeap} {a : Addr} {calls : List RefCall} {dead : List Addr}
    (hr : replay h (.ref a :: calls) = some (h', dead)) :
    ∃ h₁ b, dataRef h a = some (h₁, b) ∧ replay h₁ calls = some (h', dead) := by
  unfold replay at hr
  obtain ⟨⟨h₁, b⟩, href, hrest⟩ := Option.bind_eq_some_iff.mp hr
  exact ⟨h₁, b, href, hrest⟩

theorem replay_unref {h h' : DataHeap} {a : Addr} {calls : List RefCall} {dead : List Addr}
    (hr : replay h (.unref a :: calls) = some (h', dead)) :
    ∃ h₁ dead₁, dataUnref h a = some h₁ ∧ replay h₁ calls = some (h', dead₁) := by
  unfold replay at hr
  obtain ⟨h₁, hunref, hrest⟩ := Option.bind_eq_some_iff.mp hr
  obtain ⟨⟨h₂, dead₁⟩, hcalls, heq⟩ := Option.bind_eq_some_iff.mp hrest
  cases heq
  exact ⟨h₁, dead₁, hunref, hcalls⟩

theorem replay_nil {h h' : DataHeap} {dead : List Addr} (hr : replay h [] = some (h', dead)) :
    h' = h := by
  cases hr
  rfl

/-- `data_ref` returns its argument. -/
theorem dataRef_addr {h h' : DataHeap} {a b : Addr} (hr : dataRef h a = some (h', b)) : b = a := (dataRef_cases hr).1

/-- After `data_ref` the value is live. -/
theorem dataRef_live {h h' : DataHeap} {a : Addr} (ha : a ≠ 0) (hr : dataRef h a = some (h', a)) :
    ∃ c, h'.cells a = some c := by
  obtain ⟨-, ⟨hzero, -⟩ | ⟨c, -, hc, rfl⟩⟩ := dataRef_cases hr
  · exact absurd hzero ha
  · exact ⟨_, by rw [DataHeap.set_cells, if_pos rfl]⟩

/-! ## §3. Set, delete and get. -/

/-- Overwriting a value with itself changes no pair. -/
theorem Overwritten.pairs_eq {d' : Dict} {p value : Addr} (O : Overwritten d p value d')
    (hv : readOf Pair.value d.pairs p = some value) : d'.pairs = d.pairs := by
  have hvalue : readOf Pair.value d'.pairs = readOf Pair.value d.pairs := by
    funext y
    rw [O.value]
    split
    next hy => rw [hy, hv]
    next => rfl
  funext y
  -- the pairs agree field by field
  have hfield : ∀ {α : Type} (g : Pair → α), readOf g d'.pairs = readOf g d.pairs →
      (d'.pairs y).map g = (d.pairs y).map g := fun g hg => congrFun hg y
  have hkey := hfield _ O.key
  have hnext := hfield _ O.next
  have hprev := hfield _ O.prev
  have hhash := hfield _ O.hashNext
  have hval := hfield _ hvalue
  cases hd : d.pairs y with
  | none =>
      rw [hd] at hkey
      exact Option.map_eq_none_iff.mp hkey
  | some c =>
      rw [hd] at hkey hnext hprev hhash hval
      cases hd' : d'.pairs y with
      | none =>
          rw [hd'] at hkey
          cases hkey
      | some c' =>
          rw [hd'] at hkey hnext hprev hhash hval
          simp only [Option.map_some, Option.some.injEq] at hkey hnext hprev hhash hval
          cases c
          cases c'
          simp only at hkey hnext hprev hhash hval
          rw [hkey, hnext, hprev, hhash, hval]

/-- The calls of `dict_set`. -/
theorem Keyed.setCalls (K : Keyed d es) (key : Option CStr) {value : Addr} (hv : value ≠ 0) :
    dictSetCalls d key value
      = some (.ref value :: ((assocGet es (key.getD (refKey value))).map RefCall.unref).toList) := by
  unfold dictSetCalls
  rw [if_neg hv]
  rcases K.lookup (key.getD (refKey value)) with ⟨hlook, hget⟩ | ⟨p, c, hp, hlook, hc, -, hget⟩
  · rw [hlook, hget]
    rfl
  · rw [hlook, hget]
    show (if p = 0 then _ else d.pairs p >>= _) = _
    rw [if_neg hp, hc]
    rfl

/-- The keys of the new entries fit as well, and their values are not NULL. -/
theorem Keyed.set_entries (K : Keyed d es) {k : CStr} {value : Addr} (hv : value ≠ 0)
    (hfits : HashFits d.hashSize k) :
    (∀ k' ∈ (assocSet es k value).map Prod.fst, HashFits d.hashSize k') ∧
      ∀ v ∈ (assocSet es k value).map Prod.snd, v ≠ 0 := by
  constructor
  · intro k' hk'
    obtain ⟨e, he, rfl⟩ := List.mem_map.mp hk'
    rcases mem_assocSet he with he | rfl
    · exact K.fits e.1 (List.mem_map_of_mem he)
    · exact hfits
  · intro v hv'
    obtain ⟨e, he, rfl⟩ := List.mem_map.mp hv'
    rcases mem_assocSet he with he | rfl
    · exact K.valued e.2 (List.mem_map_of_mem he)
    · exact hv

/-- **`dict_set`** of a key that fits. -/
theorem Keyed.set (K : Keyed d es) (key : Option CStr) {value : Addr} (hv : value ≠ 0)
    (hfits : HashFits d.hashSize (key.getD (refKey value)))
    (hfew : dictGet d (key.getD (refKey value)) = some 0 → d.count < int32Max) {h h' : DataHeap} {dead : List Addr}
    (hr : replay h (.ref value :: ((assocGet es (key.getD (refKey value))).map RefCall.unref).toList)
      = some (h', dead)) :
    ∃ d', dictSet d h key value = some (d', h', 0) ∧
      Keyed d' (assocSet es (key.getD (refKey value)) value) ∧ d'.hashSize = d.hashSize ∧
      (assocGet es (key.getD (refKey value)) = some value → d'.pairs = d.pairs) ∧
      (∀ q, d.pairs q ≠ none → d'.pairs q ≠ none) := by
  generalize hk : key.getD (refKey value) = k at hfits hfew hr ⊢
  have hdef : dictSet d h key value = dictSetLocked d h key value := if_neg hv
  have hgetIn := getBucket_inTable K.size rfl k
  obtain ⟨hsetIn, -⟩ := (sameBucket_iff K.size rfl k).mpr hfits
  obtain ⟨hfits', hvalued'⟩ := K.set_entries hv hfits
  have hnull := K.get k
  have hcount := K.count
  obtain ⟨ms, ch, S, rfl⟩ := K.shape
  obtain ⟨h₁, b, href, hrest⟩ := replay_ref hr
  obtain rfl := dataRef_addr href
  rw [hdef]
  rcases S.search K.size K.fits k with ⟨⟨-, hmiss⟩, hknew⟩ | ⟨p, l, r, hfind, -, hkp, -, hp⟩
  · -- a new pair at the front
    have hget : assocGet (d.entries ms) k = none := (assocGet_eq_none_iff _ k).mpr hknew
    rw [hget] at hrest
    obtain rfl := replay_nil hrest
    rw [hget] at hnull
    obtain ⟨d', heq, L⟩ := dictSetLocked_miss S hk hsetIn hgetIn hmiss (hfew hnull) href
    refine ⟨d', heq, ?_, L.hashSize, ?_, ?_⟩
    · refine ⟨L.hashSize ▸ K.size, ?_, ?_, nodup_keys_assocSet K.distinct, L.hashSize ▸ hfits', hvalued'⟩
      · rw [L.count, assocSet_of_not_mem hknew, List.length_cons]
        omega
      · exact ⟨_, _, L.shape S rfl, by rw [L.entries S, assocSet_of_not_mem hknew]⟩
    · intro hsome
      rw [hget] at hsome
      cases hsome
    · intro q hq
      rw [← Option.isSome_iff_ne_none, S.live] at hq
      rw [← Option.isSome_iff_ne_none, (L.shape S rfl).live]
      exact List.mem_cons_of_mem _ hq
  · -- the pair that has the key gets the value
    have hget : assocGet (d.entries ms) k = some (d.valueAt p) := hkp ▸ S.assocGet K.distinct hp
    rw [hget] at hrest
    obtain ⟨h₂, dead₁, hunref, hnil⟩ := replay_unref hrest
    obtain rfl := replay_nil hnil
    obtain ⟨d', heq, O⟩ := dictSetLocked_hit S hk hgetIn hfind href hunref
    have hkmem : k ∈ (d.entries ms).map Prod.fst := List.mem_map_of_mem (assocGet_mem hget)
    refine ⟨d', heq, ?_, O.hashSize, ?_, ?_⟩
    · refine ⟨O.hashSize ▸ K.size, by rw [O.count, assocSet, if_pos hkmem, List.length_map, hcount],
        ⟨ms, ch, O.shape S, ?_⟩, nodup_keys_assocSet K.distinct, O.hashSize ▸ hfits', hvalued'⟩
      obtain ⟨l', r', hms⟩ := List.append_of_mem hp
      obtain ⟨hl', hr'⟩ := split_keys K.distinct hms
      have hnd := S.nodup
      rw [hkp] at hl' hr'
      rw [hms] at hnd ⊢
      rw [O.entries_append hnd, Dict.entries_append, hkp, assocSet_split hl' hr']
    · intro hsame
      rw [hget, Option.some.injEq] at hsame
      obtain ⟨c, hc, -, hcv⟩ := S.pair hp
      apply O.pairs_eq
      rw [readOf_some _ _ hc, hcv, hsame]
    · intro q hq
      rw [← Option.isSome_iff_ne_none, S.live] at hq
      rw [← Option.isSome_iff_ne_none, (O.shape S).live]
      exact hq

/-- **`dict_set` without an outcome**: a counter is at its end. -/
theorem Keyed.set_full (K : Keyed d es) (key : Option CStr) {value : Addr} (hv : value ≠ 0) {h : DataHeap}
    (hfull : ¬ CanCount d h (key.getD (refKey value)) value) : dictSet d h key value = none := by
  have hgetIn := getBucket_inTable K.size rfl (key.getD (refKey value))
  have hfound := K.get (key.getD (refKey value))
  have hvalued := K.valued
  obtain ⟨ms, ch, S, rfl⟩ := K.shape
  by_cases hroom : h.Room value
  · have hmax : dictGet d (key.getD (refKey value)) = some 0 ∧ int32Max ≤ d.count := by
      by_contra hnot
      exact hfull ⟨hroom, fun hnull => Int.not_le.mp fun hle => hnot ⟨hnull, hle⟩⟩
    rcases S.search K.size K.fits (key.getD (refKey value)) with ⟨⟨-, hmiss⟩, -⟩ | ⟨p, -, -, -, -, hkp, -, hp⟩
    · exact dictSet_fullDict S rfl hgetIn hmiss hv hmax.2
    · -- a key that is found has a value, which is not NULL
      rw [← hkp, S.assocGet K.distinct hp] at hfound
      rw [hkp, hmax.1, Option.some.injEq] at hfound
      exact absurd hfound.symm (hvalued _ (List.mem_map_of_mem (List.mem_map_of_mem hp)))
  · exact dictSet_fullValue S rfl hgetIn hv hroom

/-- The calls of `dict_del`. -/
theorem Keyed.delCalls (K : Keyed d es) (k : CStr) :
    dictDelCalls d k = some ((assocGet es k).map RefCall.unref).toList := by
  have hgetIn := getBucket_inTable K.size rfl k
  obtain ⟨ms, ch, S, rfl⟩ := K.shape
  unfold dictDelCalls
  rcases S.search K.size K.fits k with ⟨⟨-, hmiss⟩, hknew⟩ | ⟨p, l, r, -, hch, hkp, hl, hp⟩
  · obtain ⟨a, hfound⟩ : ∃ a, findPrevPair d.pairs k d.brk 0 (d.members (d.getBucket k)) = some (a, 0) :=
      findPrevPair_none k (S.chain _) (S.chain_length _) hmiss
    simp only [Dict.bucket_inTable hgetIn, hfound, Option.bind_eq_bind, Option.bind_some,
      Option.pure_def]
    rw [(assocGet_eq_none_iff _ k).mpr hknew]
    rfl
  · have hchain := S.chain (d.getBucket k)
    have hlen := S.chain_length (d.getBucket k)
    rw [hch] at hchain hlen
    have hfound : findPrevPair d.pairs k d.brk 0 (d.members (d.getBucket k)) = some (l.getLastD 0, p) :=
      findPrevPair_found k hkp hchain hlen hl
    obtain ⟨c, hc, -, hcv⟩ := S.pair hp
    simp only [Dict.bucket_inTable hgetIn, hfound, Option.bind_eq_bind, Option.bind_some,
      Option.pure_def]
    rw [if_neg (S.ne_zero hp), hc, ← hkp, S.assocGet K.distinct hp, ← hcv]
    rfl

/-- **`dict_del`**, whether or not the key fits. -/
theorem Keyed.del (K : Keyed d es) (k : CStr) {h h' : DataHeap} {dead : List Addr}
    (hr : replay h ((assocGet es k).map RefCall.unref).toList = some (h', dead)) :
    ∃ d', dictDel d h k = some (d', h') ∧ Keyed d' (assocDel es k) ∧
      (∀ q, d'.pairs q ≠ none ↔ d.pairs q ≠ none ∧ dictLookup d k ≠ some q) ∧
      d'.hashSize = d.hashSize := by
  have hgetIn := getBucket_inTable K.size rfl k
  have hcount := K.count
  have hdistinct := nodup_keys_assocDel (k := k) K.distinct
  have hsub : ∀ e ∈ assocDel es k, e ∈ es := fun e he => List.mem_of_mem_filter he
  have hfits' : ∀ k' ∈ (assocDel es k).map Prod.fst, HashFits d.hashSize k' := by
    intro k' hk'
    obtain ⟨e, he, rfl⟩ := List.mem_map.mp hk'
    exact K.fits e.1 (List.mem_map_of_mem (hsub e he))
  have hvalued' : ∀ v ∈ (assocDel es k).map Prod.snd, v ≠ 0 := by
    intro v hv
    obtain ⟨e, he, rfl⟩ := List.mem_map.mp hv
    exact K.valued e.2 (List.mem_map_of_mem (hsub e he))
  obtain ⟨ms, ch, S, rfl⟩ := K.shape
  rcases S.search K.size K.fits k with ⟨⟨hfind, hmiss⟩, hknew⟩ | ⟨p, l, r, hfind, hch, hkp, hl, hp⟩
  · rw [(assocGet_eq_none_iff _ k).mpr hknew] at hr
    obtain rfl := replay_nil hr
    have hsame := assocDel_of_not_mem hknew
    refine ⟨d, dictDel_miss S hgetIn hmiss, hsame.symm ▸ K, ?_, rfl⟩
    intro q
    -- the lookup finds NULL, where there is no pair
    rw [dictLookup_spec S k hgetIn, hfind, ← Option.isSome_iff_ne_none, S.live]
    refine (and_iff_left_of_imp ?_).symm
    intro hq h0
    exact S.ne_zero hq (Option.some.inj h0).symm
  · rw [← hkp, S.assocGet K.distinct hp] at hr
    obtain ⟨h₁, dead₁, hunref, hnil⟩ := replay_unref hr
    obtain rfl := replay_nil hnil
    have hlow : -int32Max ≤ d.count := by
      rw [hcount]
      unfold int32Max
      omega
    obtain ⟨c, d', hc, heq, U⟩ := dictDel_hit S hgetIn hch hkp hl hlow hunref
    obtain ⟨l', r', rfl⟩ := List.append_of_mem hp
    obtain ⟨hl', hr'⟩ := split_keys K.distinct rfl
    rw [hkp] at hl' hr'
    have hnot : p ∉ l' ++ r' := (List.nodup_cons.mp (List.nodup_middle.mp S.nodup)).1
    refine ⟨d', heq, ⟨U.hashSize ▸ K.size, ?_, ⟨_, _, U.shape S hch hc, ?_⟩, hdistinct,
      U.hashSize ▸ hfits', hvalued'⟩, ?_, U.hashSize⟩
    · rw [Dict.entries_append, hkp] at hcount ⊢
      rw [U.count, assocDel_split hl' hr', hcount]
      simp only [List.length_append, List.length_cons]
      omega
    · rw [U.entries hnot, Dict.entries_append, hkp, assocDel_split hl' hr']
      exact List.map_append
    · intro q
      rw [dictLookup_spec S k hgetIn, hfind, ← Option.isSome_iff_ne_none,
        ← Option.isSome_iff_ne_none, (U.shape S hch hc).live, S.live]
      show q ∈ l' ++ r' ↔ q ∈ l' ++ p :: r' ∧ some p ≠ some q
      constructor
      · intro hq
        have hne : q ≠ p := fun e => hnot (e ▸ hq)
        refine ⟨?_, fun e => hne (Option.some.inj e).symm⟩
        rcases List.mem_append.mp hq with hq | hq
        · exact List.mem_append_left _ hq
        · exact List.mem_append_right _ (List.mem_cons_of_mem _ hq)
      · intro hq
        have hne : q ≠ p := fun e => hq.2 (congrArg some e.symm)
        rcases List.mem_append.mp hq.1 with hq | hq
        · exact List.mem_append_left _ hq
        · exact List.mem_append_right _ ((List.mem_cons.mp hq).resolve_left hne)

/-- The calls of a `dict_get_*` wrapper. -/
theorem Keyed.getCalls (K : Keyed d es) (k : CStr) :
    dictGetCalls d k = some ((assocGet es k).elim [] fun v => [.ref v, .unref v]) := by
  unfold dictGetCalls
  rcases K.lookup k with ⟨hlook, hget⟩ | ⟨p, c, hp, hlook, hc, -, hget⟩
  · rw [hlook, hget]
    rfl
  · rw [hlook, hget]
    show (if p = 0 then _ else d.pairs p >>= _) = _
    rw [if_neg hp, hc]
    rfl

/-- **The `dict_get_*` wrappers**: the value is live while it is converted. -/
theorem Keyed.getVia {α : Type} (convert : Data → Int × α) (K : Keyed d es) (k : CStr)
    {h h' : DataHeap} {dead : List Addr}
    (hr : replay h ((assocGet es k).elim [] fun v => [.ref v, .unref v]) = some (h', dead)) :
    ∃ ret val, dictGetVia convert d h k = some (ret, val, h') := by
  rcases K.lookup k with ⟨hlook, hget⟩ | ⟨p, c, hp, hlook, hc, -, hget⟩
  · rw [hget] at hr
    obtain rfl := replay_nil hr
    exact ⟨eNoent, none, dictGetVia_absent convert hlook⟩
  · rw [hget] at hr
    obtain ⟨h₁, b, href, hrest⟩ := replay_ref hr
    obtain rfl := dataRef_addr href
    obtain ⟨h₂, dead₁, hunref, hnil⟩ := replay_unref hrest
    obtain rfl := replay_nil hnil
    obtain ⟨v, hv⟩ := dataRef_live (K.value_ne_zero hget) href
    refine ⟨(convert v).1, some (convert v).2, ?_⟩
    unfold dictGetVia
    rw [dictGetWithRef_present hlook hp hc href]
    show (h₁.cells c.value >>= fun d => dataUnref h₁ c.value >>= fun h' =>
      some ((convert d).1, some (convert d).2, h')) = _
    rw [hv]
    show (dataUnref h₁ c.value >>= _) = _
    rw [hunref]
    rfl

/-- A wrapper without an outcome: the value cannot take another reference. -/
theorem Keyed.getVia_full {α : Type} (convert : Data → Int × α) (K : Keyed d es) {k : CStr} {a : Addr}
    {h : DataHeap} (hget : assocGet es k = some a) (hfull : ¬ h.Room a) : dictGetVia convert d h k = none := by
  have ha := K.value_ne_zero hget
  rcases K.lookup k with ⟨-, hnone⟩ | ⟨p, c, hp, hlook, hc, -, hsome⟩
  · rw [hget] at hnone
    cases hnone
  · obtain rfl : a = c.value := Option.some.inj (hget.symm.trans hsome)
    exact dictGetVia_full convert hlook hp hc ha hfull

/-! ## §4. Walking the members. -/

/-- A walk visits fewer pairs than addresses have been handed out. -/
theorem Shape.length_le (S : Shape d ms ch) : ms.length ≤ d.brk := by
  have hsub : ms ⊆ List.range d.brk := fun p hp => List.mem_range.mpr (S.below p hp)
  have hle := (List.subperm_of_subset S.nodup hsub).length_le
  rwa [List.length_range] at hle

/-- One pair of a chain. -/
theorem Chain.pair {pairs : Heap Pair} {p x : Addr} {xs : List Addr}
    (h : Chain (readOf Pair.next pairs) p (x :: xs)) :
    p ≠ 0 ∧ p = x ∧ ∃ c, pairs x = some c ∧ Chain (readOf Pair.next pairs) c.next xs := by
  obtain ⟨rfl, hp, q, hq, h⟩ := h
  obtain ⟨c, hc, rfl⟩ := Option.map_eq_some_iff.mp hq
  exact ⟨hp, rfl, c, hc, h⟩

/-- **Rule for `dict_foreach`**: a callback that leaves the pairs of the walked
dict alone, and takes `Inv` along the pairs that are left or has no outcome
because of `Stuck`. -/
theorem dictForeach_walk {σ : Type} {pairsOf : σ → Option (Heap Pair)} (fn : σ → CStr → Addr → Option σ)
    {pairs : Heap Pair} (Inv : List Addr → σ → Prop) {Stuck : Prop}
    (hpairs : ∀ ys s, Inv ys s → pairsOf s = some pairs)
    (hfn : ∀ x ys s, Inv (x :: ys) s → ∀ c, pairs x = some c →
      (∃ s', fn s c.key c.value = some s' ∧ Inv ys s') ∨ (Stuck ∧ fn s c.key c.value = none)) {xs : List Addr} :
    ∀ {fuel : Nat} {p : Addr} {s : σ}, Chain (readOf Pair.next pairs) p xs → xs.length ≤ fuel → Inv xs s →
      (∃ s', dictForeach pairsOf fn fuel p s = some s' ∧ Inv [] s') ∨
        (Stuck ∧ dictForeach pairsOf fn fuel p s = none) := by
  -- on the members left; the callback leaves the pair for the read of `pairs->next`
  induction xs with
  | nil =>
      intro fuel p s hchain _ hs
      have hp : p = 0 := hchain
      subst hp
      refine Or.inl ⟨s, ?_, hs⟩
      cases fuel with
      | zero => rfl
      | succ fuel => rfl
  | cons x xs ih =>
      intro fuel p s hchain hlen hs
      cases fuel with
      | zero => exact absurd hlen (by simp)
      | succ fuel =>
          obtain ⟨hp, rfl, c, hc, hrest⟩ := Chain.pair hchain
          unfold dictForeach
          rw [if_neg hp]
          simp only [hpairs _ s hs, hc, Option.bind_eq_bind, Option.bind_some]
          rcases hfn p xs s hs c hc with ⟨s₁, h₁, hs₁⟩ | ⟨hstuck, h₁⟩
          · simp only [h₁, hpairs _ s₁ hs₁, hc, Option.bind_some]
            exact ih hrest (Nat.le_of_succ_le_succ hlen) hs₁
          · rw [h₁]
            exact Or.inr ⟨hstuck, rfl⟩

theorem destroyCalls_spec : ∀ {fuel : Nat} {p : Addr} {xs : List Addr},
    Chain (readOf Pair.next d.pairs) p xs → xs.length ≤ fuel →
    destroyCalls d.pairs fuel p = some ((d.values xs).map RefCall.unref)
  | fuel, p, [], hchain, _ => by
      have hp : p = 0 := hchain
      subst hp
      cases fuel with
      | zero => rfl
      | succ fuel => rfl
  | 0, _, _ :: _, _, hlen => absurd hlen (by simp)
  | fuel + 1, p, x :: xs, hchain, hlen => by
      obtain ⟨hp, rfl, c, hc, hrest⟩ := Chain.pair hchain
      have ih := destroyCalls_spec hrest (Nat.le_of_succ_le_succ hlen)
      have hvalue : d.valueAt p = c.value := by
        rw [Dict.valueAt, readOf_some _ _ hc]
        rfl
      unfold destroyCalls
      rw [if_neg hp]
      simp only [hc, ih, Option.bind_eq_bind, Option.bind_some, Option.pure_def]
      show _ = some (RefCall.unref (d.valueAt p) :: (d.values xs).map RefCall.unref)
      rw [hvalue]

/-- The pairs freed so far are not visited again. -/
theorem destroyPairs_spec : ∀ {fuel : Nat} {p : Addr} {xs : List Addr} {pairs : Heap Pair}
    {h h' : DataHeap} {dead : List Addr}, Chain (readOf Pair.next d.pairs) p xs → xs.length ≤ fuel →
    (∀ x ∈ xs, pairs x = d.pairs x) → replay h ((d.values xs).map RefCall.unref) = some (h', dead) →
    destroyPairs fuel p pairs h = some h'
  | fuel, p, [], pairs, h, h', dead, hchain, _, _, hr => by
      have hp : p = 0 := hchain
      subst hp
      obtain rfl := replay_nil hr
      cases fuel with
      | zero => rfl
      | succ fuel => rfl
  | 0, _, _ :: _, _, _, _, _, _, hlen, _, _ => absurd hlen (by simp)
  | fuel + 1, p, x :: xs, pairs, h, h', dead, hchain, hlen, hsame, hr => by
      -- the pair is freed once its value is let go; the chain never comes back to it
      have hnd := hchain.nodup
      obtain ⟨hp, rfl, c, hc, hrest⟩ := Chain.pair hchain
      have hvalue : d.valueAt p = c.value := by
        rw [Dict.valueAt, readOf_some _ _ hc]
        rfl
      have hr' : replay h (.unref (d.valueAt p) :: (d.values xs).map RefCall.unref) = some (h', dead) := hr
      rw [hvalue] at hr'
      obtain ⟨h₁, dead₁, hunref, hcalls⟩ := replay_unref hr'
      have hsame' : ∀ x ∈ xs, Function.update pairs p none x = d.pairs x := by
        intro x hx
        have hne : x ≠ p := fun e => (List.nodup_cons.mp hnd).1 (e ▸ hx)
        rw [Function.update_of_ne hne]
        exact hsame x (List.mem_cons_of_mem _ hx)
      have ih := destroyPairs_spec hrest (Nat.le_of_succ_le_succ hlen) hsame' hcalls
      unfold destroyPairs
      rw [if_neg hp, hsame p List.mem_cons_self, hc]
      show (dataUnref h c.value >>= _) = _
      rw [hunref]
      exact ih

/-- **`dict_destroy`** lets go of every value. -/
theorem Keyed.destroy (K : Keyed d es) :
    dictDestroyCalls d = some ((es.map Prod.snd).map RefCall.unref) ∧
      ∀ h h' dead, replay h ((es.map Prod.snd).map RefCall.unref) = some (h', dead) →
        dictDestroy d h = some h' := by
  obtain ⟨ms, ch, S, rfl⟩ := K.shape
  refine ⟨destroyCalls_spec S.list.chain S.length_le, ?_⟩
  intro h h' dead hr
  exact destroyPairs_spec S.list.chain S.length_le (fun _ _ => rfl) hr

/-! ## §5. The slots of a dict. -/

/-- **A dict stores a value under as many keys as entries have it.** -/
theorem Keyed.keysOf_length (K : Keyed d es) (a : Addr) :
    (d.keysOf a).length = (es.map Prod.snd).count a := by
  obtain ⟨ms, ch, S, rfl⟩ := K.shape
  -- at a live pair, the key if the value is `a`
  have hread : ∀ p ∈ ms, ((d.pairs p).bind fun c => if c.value = a then some c.key else none)
      = if d.valueAt p = a then some (d.keyAt p) else none := by
    intro p hp
    obtain ⟨c, hc, hkey, hvalue⟩ := S.pair hp
    rw [hc, Option.bind_some, hkey, hvalue]
  have hdead : ∀ p, p ∉ ms → ((d.pairs p).bind fun c => if c.value = a then some c.key else none)
      = none := by
    intro p hp
    have hnone : d.pairs p = none := by
      rw [← Option.not_isSome_iff_eq_none, S.live]
      exact hp
    rw [hnone]
    rfl
  have hperm : (((List.range d.brk).filterMap fun p =>
      (d.pairs p).bind fun c => if c.value = a then some c.key else none)).Perm
        ((ms.filter fun p => d.valueAt p = a).map d.keyAt) := by
    have hlive : ((List.range d.brk).filter fun p => decide (p ∈ ms)).Perm ms := by
      rw [List.perm_ext_iff_of_nodup (List.nodup_range.filter _) S.nodup]
      intro p
      rw [List.mem_filter, List.mem_range, decide_eq_true_iff]
      exact and_iff_right_of_imp (S.below p)
    have hskip : (List.range d.brk).filterMap (fun p =>
        (d.pairs p).bind fun c => if c.value = a then some c.key else none)
          = ((List.range d.brk).filter fun p => decide (p ∈ ms)).filterMap fun p =>
              (d.pairs p).bind fun c => if c.value = a then some c.key else none := by
      rw [List.filterMap_filter]
      apply List.filterMap_congr
      intro p _
      by_cases hp : p ∈ ms
      · rw [if_pos (decide_eq_true hp)]
      · rw [if_neg (by simpa using hp), hdead p hp]
    rw [hskip]
    refine (hlive.filterMap _).trans (List.Perm.of_eq ?_)
    rw [List.filterMap_congr hread, ← List.filterMap_eq_map, List.filterMap_filter]
    apply List.filterMap_congr
    intro p _
    simp
  have hnd : ((ms.filter fun p => d.valueAt p = a).map d.keyAt).Nodup := by
    have hkeys := K.distinct
    rw [keys_entries] at hkeys
    exact hkeys.sublist (List.Sublist.map _ List.filter_sublist)
  unfold Dict.keysOf
  rw [List.dedup_eq_self.mpr (hperm.nodup_iff.mpr hnd), hperm.length_eq, List.length_map,
    ← List.countP_eq_length_filter]
  show _ = ((d.entries ms).map Prod.snd).count a
  rw [Dict.entries, List.map_map, List.count, List.countP_map]
  rfl

end

end LzLib.Dict
