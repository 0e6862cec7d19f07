/-
  LzLib.Dict.FiniteMap
  ────────────────────
  **A DICT IS A FINITE MAP.**

  `Rep d h es`: the dict `d` (one bucket, as `dict_new` and `get_new_dict`
  make it) holds exactly the entries `es`, newest key first, its keys are
  distinct and its values are counted in the heap `h`.  Each operation of
  the source is one operation of association lists on `es`.
-/
import LzLib.Dict.Representation
import LzLib.Dict.Values
import LzLib.Foundation.Runs

namespace LzLib.Dict

open LzLib.Foundation LzLib.Hash

/-! ## §1. The operations on the representation, any number of buckets. -/

section

variable {d : Dict} {h h' : DataHeap} {ms : List Addr} {ch : Int → List Addr} {key : Option CStr}
  {k : CStr} {value : Addr}

/-- `_dict_set` of a key its bucket does not have. -/
theorem dictSetLocked_miss (S : Shape d ms ch) (hk : key.getD (refKey value) = k)
    (hset : d.InTable (d.setBucket k)) (hget : d.InTable (d.getBucket k))
    (hmiss : ∀ q ∈ ch (d.getBucket k), d.keyAt q ≠ k) (hroom : d.count < int32Max)
    (href : dataRef h value = some (h', value)) :
    ∃ d', dictSetLocked d h key value = some (d', h', 0) ∧ Linked d (d.setBucket k) k value d' := by
  obtain ⟨d', hlink, L⟩ := linkPair_linked S hset hroom k value
  refine ⟨d', ?_, L⟩
  have hlook : dictLookup d k = some 0 := by rw [dictLookup_spec S k hget, find_miss hmiss]; rfl
  unfold dictSetLocked
  simp only [hk, hlook, Option.bind_eq_bind, Option.bind_some, Option.pure_def]
  rw [if_neg (fun h0 => h0 rfl), href, Option.bind_some, hlink]
  rfl

/-- `_dict_set` of a key its bucket has. -/
theorem dictSetLocked_hit {p : Addr} {h'' : DataHeap} (S : Shape d ms ch)
    (hk : key.getD (refKey value) = k) (hget : d.InTable (d.getBucket k))
    (hhit : (ch (d.getBucket k)).find? (fun q => d.keyAt q = k) = some p)
    (href : dataRef h value = some (h', value)) (hunref : dataUnref h' (d.valueAt p) = some h'') :
    ∃ d', dictSetLocked d h key value = some (d', h'', 0) ∧ Overwritten d p value d' := by
  have hp : p ∈ ms := S.mem_of_chain (List.mem_of_find?_eq_some hhit)
  obtain ⟨c, hc, _, hcv⟩ := S.pair hp
  obtain ⟨d', hmod, O⟩ := modifyPair_overwritten S hp value
  refine ⟨d', ?_, O⟩
  unfold dictSetLocked
  simp only [hk, dictLookup_spec S k hget, hhit, Option.getD_some, Option.bind_eq_bind,
    Option.bind_some, Option.pure_def]
  rw [if_pos (S.ne_zero hp)]
  simp only [hc, href, hmod, hcv, hunref, Option.bind_some]

/-- `dict_del` of a key its bucket does not have. -/
theorem dictDel_miss (S : Shape d ms ch) (hget : d.InTable (d.getBucket k))
    (hmiss : ∀ q ∈ ch (d.getBucket k), d.keyAt q ≠ k) : dictDel d h k = some (d, h) := by
  obtain ⟨a, ha⟩ : ∃ a, findPrevPair d.pairs k d.brk 0 (d.members (d.getBucket k)) = some (a, 0) :=
    findPrevPair_none k (S.chain _) (S.chain_length _) hmiss
  unfold dictDel
  simp only [Dict.bucket_inTable hget, ha, Option.bind_eq_bind, Option.bind_some, Option.pure_def]
  exact if_pos trivial

/-- `dict_del` of a key its bucket has. -/
theorem dictDel_hit {p : Addr} {l r : List Addr} (S : Shape d ms ch)
    (hget : d.InTable (d.getBucket k)) (hch : ch (d.getBucket k) = l ++ p :: r)
    (hkp : d.keyAt p = k) (hl : ∀ q ∈ l, d.keyAt q ≠ k) (hlow : -int32Max ≤ d.count)
    (hunref : dataUnref h (d.valueAt p) = some h') :
    ∃ c d', d.pairs p = some c ∧ dictDel d h k = some (d', h') ∧
      Unlinked d (d.getBucket k) (l.getLastD 0) p c d' := by
  have hpm : p ∈ ms := S.mem_of_chain (i := d.getBucket k) (by rw [hch]; simp)
  obtain ⟨c, hc, _, hcv⟩ := S.pair hpm
  have hchain := S.chain (d.getBucket k)
  have hlen := S.chain_length (d.getBucket k)
  rw [hch] at hchain hlen
  have hlive : ∀ q ∈ ms, (d.pairs q).isSome = true := fun q hq => (S.live q).mpr hq
  obtain ⟨l', r', rfl⟩ := List.append_of_mem hpm
  obtain ⟨hcp, hcn⟩ := S.list.links
  rw [readOf_some _ _ hc, Option.some.injEq] at hcp hcn
  -- the three pairs that are written through are there
  have hprev : l.getLastD 0 ≠ 0 → (d.pairs (l.getLastD 0)).isSome = true := fun h0 =>
    hlive _ (S.mem_of_chain (i := d.getBucket k)
      (by rw [hch]; exact List.mem_append_left _ (getLastD_mem h0)))
  have hcprev : c.prev ≠ 0 → (d.pairs c.prev).isSome = true := fun h0 => by
    rw [hcp] at h0 ⊢
    exact hlive _ (List.mem_append_left _ (getLastD_mem h0))
  have hcnext : c.next ≠ 0 → (d.pairs c.next).isSome = true := fun h0 => by
    rw [hcn] at h0 ⊢
    exact hlive _ (List.mem_append_right _ (List.mem_cons_of_mem _ (headD_mem h0)))
  obtain ⟨d₁, d₂, d₃, h₁, h₂, h₃, hcount, U⟩ := unlink_unlinked (x := p) (d.getBucket k) hprev hcprev hcnext
  refine ⟨c, _, hc, ?_, U⟩
  have hfound : findPrevPair d.pairs k d.brk 0 (d.members (d.getBucket k)) = some (l.getLastD 0, p) :=
    findPrevPair_found k hkp hchain hlen hl
  unfold dictDel
  simp only [Dict.bucket_inTable hget, hfound, Option.bind_eq_bind, Option.bind_some, Option.pure_def]
  rw [if_neg (S.ne_zero hpm)]
  simp only [hc, h₁, hcv, hunref, h₂, h₃, Option.bind_some, decInt_eq (hcount ▸ hlow)]

/-! ## §2. `dict_set` with its values counted. -/

/-- The values held by the members `ms`. -/
def values (this : Dict) (ms : List Addr) : List Addr := (this.entries ms).map Prod.snd

theorem values_append (d : Dict) (l r : List Addr) (p : Addr) :
    d.values (l ++ p :: r) = d.values l ++ d.valueAt p :: d.values r := by
  simp [Dict.values, Dict.entries]

theorem values_cons (d : Dict) {p : Addr} {c : Pair} (hc : d.pairs p = some c) (ms : List Addr) :
    d.values (p :: ms) = c.value :: d.values ms := by
  show d.valueAt p :: d.values ms = _
  rw [Dict.valueAt, readOf_some _ _ hc]
  rfl

theorem entries_append (d : Dict) (l r : List Addr) (p : Addr) :
    d.entries (l ++ p :: r) = d.entries l ++ (d.keyAt p, d.valueAt p) :: d.entries r := by
  simp [Dict.entries]

theorem Overwritten.entries_append {d' : Dict} {p : Addr} {l r : List Addr}
    (hnd : (l ++ p :: r).Nodup) (O : Overwritten d p value d') :
    d'.entries (l ++ p :: r) = d.entries l ++ (d.keyAt p, value) :: d.entries r := by
  obtain ⟨_, hpr, hdis⟩ := List.nodup_append.mp hnd
  have hrest : ∀ xs : List Addr, p ∉ xs →
      (xs.map fun q => (d.keyAt q, if q = p then value else d.valueAt q)) = d.entries xs := by
    intro xs hxs
    apply List.map_congr_left
    intro q hq
    have hne : q ≠ p := fun e => hxs (e ▸ hq)
    rw [if_neg hne]
  rw [O.entries, List.map_append, List.map_cons, if_pos rfl,
    hrest l (fun hl => hdis p hl p (by simp) rfl), hrest r (List.nodup_cons.mp hpr).1]

/-- **`dict_set` of a live value**: either a new pair is linked in, or the value
of the pair found is overwritten and its old value released. -/
theorem dictSet_cases (S : Shape d ms ch) (C : Counted h (d.values ms))
    (hk : key.getD (refKey value) = k) (hset : d.InTable (d.setBucket k))
    (hget : d.InTable (d.getBucket k)) (hv : h.cells value ≠ none) (hroom : h.Room value)
    (hcount : (∀ q ∈ ch (d.getBucket k), d.keyAt q ≠ k) → d.count < int32Max) :
    ∃ d' h', dictSet d h key value = some (d', h', 0) ∧ h'.brk = h.brk ∧
      ((Linked d (d.setBucket k) k value d' ∧ (∀ q ∈ ch (d.getBucket k), d.keyAt q ≠ k) ∧
          Counted h' (value :: d.values ms) ∧ ∀ a, h'.view a = h.view a) ∨
        ∃ p l r, Overwritten d p value d' ∧ ms = l ++ p :: r ∧
          (ch (d.getBucket k)).find? (fun q => d.keyAt q = k) = some p ∧
          Counted h' (d.values l ++ value :: d.values r) ∧
          ∀ a ∈ d.values l ++ value :: d.values r, h'.view a = h.view a) := by
  obtain ⟨c, hc⟩ := Option.ne_none_iff_exists'.mp hv
  have hv0 : value ≠ 0 := (C.below value c hc).1
  obtain ⟨h₁, href, C₁, view₁, brk₁⟩ := dataRef_spec C hv hroom
  have hdef : dictSet d h key value = dictSetLocked d h key value := if_neg hv0
  rw [hdef]
  rcases S.find_cases (d.getBucket k) k with ⟨-, hmiss⟩ | ⟨p, -, -, hfind, -, -, -, hp⟩
  · obtain ⟨d', heq, L⟩ := dictSetLocked_miss S hk hset hget hmiss (hcount hmiss) href
    exact ⟨d', h₁, heq, brk₁, Or.inl ⟨L, hmiss, C₁, view₁⟩⟩
  · obtain ⟨l, r, hms⟩ := List.append_of_mem hp
    -- the new value is held before the old one is let go
    have hperm : (d.valueAt p :: (d.values l ++ value :: d.values r)).Perm (value :: d.values ms) := by
      rw [hms, Dict.values_append]
      have h₁ : (d.values l ++ value :: d.values r).Perm (value :: (d.values l ++ d.values r)) :=
        List.perm_middle
      have h₂ : (d.values l ++ d.valueAt p :: d.values r).Perm
          (d.valueAt p :: (d.values l ++ d.values r)) := List.perm_middle
      exact (h₁.cons _).trans ((List.Perm.swap _ _ _).trans (h₂.symm.cons _))
    obtain ⟨h₂, hunref, C₂, view₂, brk₂⟩ := dataUnref_spec (C₁.perm hperm)
    obtain ⟨d', heq, O⟩ := dictSetLocked_hit S hk hget hfind href hunref
    exact ⟨d', h₂, heq, brk₂.trans brk₁,
      Or.inr ⟨p, l, r, O, hms, hfind, C₂, fun a ha => (view₂ a ha).trans (view₁ a)⟩⟩

/-- Where the value cannot take another reference, `dict_set` has no outcome. -/
theorem dictSet_fullValue (S : Shape d ms ch) (hk : key.getD (refKey value) = k) (hget : d.InTable (d.getBucket k))
    (hv0 : value ≠ 0) (hfull : ¬ h.Room value) : dictSet d h key value = none := by
  have hdef : dictSet d h key value = dictSetLocked d h key value := if_neg hv0
  rw [hdef]
  unfold dictSetLocked
  simp only [hk, dictLookup_spec S k hget, Option.bind_eq_bind, Option.bind_some, Option.pure_def, dataRef_full hv0 hfull,
    Option.bind_none]
  rcases S.find_cases (d.getBucket k) k with ⟨hfind, -⟩ | ⟨p, -, -, hfind, -, -, -, hp⟩
  · rw [hfind]
    exact if_neg fun h0 => h0 rfl
  · obtain ⟨c, hc, -, -⟩ := S.pair hp
    rw [hfind, Option.getD_some, if_pos (S.ne_zero hp), hc]
    rfl

/-- Where the dict cannot count another pair, a new key has no outcome. -/
theorem dictSet_fullDict (S : Shape d ms ch) (hk : key.getD (refKey value) = k) (hget : d.InTable (d.getBucket k))
    (hmiss : ∀ q ∈ ch (d.getBucket k), d.keyAt q ≠ k) (hv0 : value ≠ 0) (hfull : int32Max ≤ d.count) :
    dictSet d h key value = none := by
  have hdef : dictSet d h key value = dictSetLocked d h key value := if_neg hv0
  have hlook : dictLookup d k = some 0 := by
    rw [dictLookup_spec S k hget, find_miss hmiss]
    rfl
  have hlink : ∀ v, d.linkPair (d.setBucket k) k v = none := by
    intro v
    unfold Dict.linkPair
    rw [incInt_full hfull]
    cases d.bucket (d.setBucket k) <;> rfl
  rw [hdef]
  unfold dictSetLocked
  simp only [hk, hlook, hlink, Option.bind_eq_bind, Option.bind_some, Option.pure_def, Option.bind_none]
  rw [if_neg (fun h0 => h0 rfl)]
  cases dataRef h value <;> rfl

/-- `dict_get` by the chain of its bucket. -/
theorem dictGet_spec (S : Shape d ms ch) (hget : d.InTable (d.getBucket k)) :
    dictGet d k = some (((ch (d.getBucket k)).find? fun q => d.keyAt q = k).elim 0 d.valueAt) := by
  unfold dictGet
  rw [dictLookup_spec S k hget]
  rcases S.find_cases (d.getBucket k) k with ⟨hfind, -⟩ | ⟨p, -, -, hfind, -, -, -, hp⟩
  · rw [hfind]
    rfl
  · obtain ⟨c, hc, -, hvalue⟩ := S.pair hp
    rw [hfind]
    show (if p ≠ 0 then (d.pairs p).map Pair.value else some 0) = some (d.valueAt p)
    rw [if_pos (S.ne_zero hp), hc, ← hvalue]
    rfl

/-- No value is NULL: `dict_get` finds NULL where the bucket has no such key. -/
theorem dictGet_null_iff (S : Shape d ms ch) (C : Counted h (d.values ms)) (hget : d.InTable (d.getBucket k)) :
    dictGet d k = some 0 ↔ ∀ q ∈ ch (d.getBucket k), d.keyAt q ≠ k := by
  rw [dictGet_spec S hget]
  rcases S.find_cases (d.getBucket k) k with ⟨hfind, hmiss⟩ | ⟨p, l, r, hfind, hch, hkp, -, hp⟩
  · rw [hfind]
    exact iff_of_true rfl hmiss
  · have hvalue : d.valueAt p ≠ 0 := C.ne_zero (List.mem_map_of_mem (f := Prod.snd) (List.mem_map_of_mem hp))
    rw [hfind, hch]
    refine iff_of_false ?_ fun hmiss => hmiss p (by simp) hkp
    intro hnull
    exact hvalue (Option.some.inj hnull)

/-- The counters that a `dict_set` of `value` under `k` raises are below `INT_MAX`. -/
def CanCount (d : Dict) (h : DataHeap) (k : CStr) (value : Addr) : Prop :=
  h.Room value ∧ (dictGet d k = some 0 → d.count < int32Max)

/-- A `dict_set` that has an outcome could count. -/
theorem dictSet_canCount {r : Dict × DataHeap × Int} (S : Shape d ms ch) (C : Counted h (d.values ms))
    (hk : key.getD (refKey value) = k) (hget : d.InTable (d.getBucket k)) (hv0 : value ≠ 0)
    (heq : dictSet d h key value = some r) : CanCount d h k value := by
  constructor
  · by_contra hfull
    rw [dictSet_fullValue S hk hget hv0 hfull] at heq
    cases heq
  · intro hnull
    by_contra hfull
    have hmiss := (dictGet_null_iff S C hget).mp hnull
    rw [dictSet_fullDict S hk hget hmiss hv0 (Int.not_lt.mp hfull)] at heq
    cases heq

/-- A `dict_set` adds at most one reference to its value. -/
theorem dictSet_refcount {d' : Dict} {ret : Int} {c' : Data} (heq : dictSet d h key value = some (d', h', ret))
    (hc' : h'.cells value = some c') : ∃ c, h.cells value = some c ∧ c'.refcount ≤ c.refcount + 1 := by
  unfold dictSet at heq
  split at heq
  · cases heq
    exact ⟨c', hc', by omega⟩
  · unfold dictSetLocked at heq
    obtain ⟨pair, -, heq⟩ := Option.bind_eq_some_iff.mp heq
    split at heq
    · obtain ⟨old, -, heq⟩ := Option.bind_eq_some_iff.mp heq
      obtain ⟨⟨h₁, v⟩, href, heq⟩ := Option.bind_eq_some_iff.mp heq
      obtain ⟨d₁, -, heq⟩ := Option.bind_eq_some_iff.mp heq
      obtain ⟨h₂, hunref, heq⟩ := Option.bind_eq_some_iff.mp heq
      cases heq
      obtain ⟨c₁, hc₁, hle₁⟩ := dataUnref_refcount hunref hc'
      obtain ⟨c, hc, hle⟩ := dataRef_refcount href hc₁
      exact ⟨c, hc, Int.le_trans hle₁ hle⟩
    · obtain ⟨⟨h₁, v⟩, href, heq⟩ := Option.bind_eq_some_iff.mp heq
      obtain ⟨d₁, -, heq⟩ := Option.bind_eq_some_iff.mp heq
      cases heq
      exact dataRef_refcount href hc'

/-! ## §3. The wrappers, by what the lookup finds. -/

/-- `dict_get_with_ref` of a key that is not found. -/
theorem dictGetWithRef_absent (hlook : dictLookup d k = some 0) :
    dictGetWithRef d h k = some (eNoent, 0, h) := by
  unfold dictGetWithRef
  rw [hlook]
  rfl

/-- `dict_get_with_ref` of a key that is found. -/
theorem dictGetWithRef_present {p : Addr} {c : Pair} (hlook : dictLookup d k = some p) (hp : p ≠ 0)
    (hc : d.pairs p = some c) (href : dataRef h c.value = some (h', c.value)) :
    dictGetWithRef d h k = some (0, c.value, h') := by
  unfold dictGetWithRef
  rw [hlook]
  show (if p = 0 then _ else d.pairs p >>= _) = _
  rw [if_neg hp, hc]
  show (dataRef h c.value >>= _) = _
  rw [href]
  rfl

/-- A `dict_get_*` wrapper of a key that is not found. -/
theorem dictGetVia_absent {α : Type} (convert : Data → Int × α) (hlook : dictLookup d k = some 0) :
    dictGetVia convert d h k = some (eNoent, none, h) := by
  unfold dictGetVia
  rw [dictGetWithRef_absent hlook]
  rfl

/-- A `dict_get_*` wrapper of a key that is found: the counts are as before. -/
theorem dictGetVia_present {α : Type} (convert : Data → Int × α) {vals : List Addr} {p : Addr} {c : Pair}
    (C : Counted h vals) (hlook : dictLookup d k = some p) (hp : p ≠ 0) (hc : d.pairs p = some c)
    (hmem : c.value ∈ vals) (hroom : h.Room c.value) :
    ∃ ret val h', dictGetVia convert d h k = some (ret, val, h') ∧ Counted h' vals ∧
      ∀ a ∈ vals, h'.view a = h.view a := by
  -- the reference that is taken here is given back below
  obtain ⟨h₁, href, C₁, view₁, _⟩ := dataRef_spec C (C.live _ hmem) hroom
  obtain ⟨v, hv⟩ := Option.ne_none_iff_exists'.mp (C₁.live _ List.mem_cons_self)
  obtain ⟨h₂, hunref, C₂, view₂, _⟩ := dataUnref_spec C₁
  refine ⟨(convert v).1, some (convert v).2, h₂, ?_, C₂, fun a ha => (view₂ a ha).trans (view₁ a)⟩
  unfold dictGetVia
  rw [dictGetWithRef_present hlook hp hc href]
  show (h₁.cells c.value >>= fun d => dataUnref h₁ c.value >>= fun h' =>
    some ((convert d).1, some (convert d).2, h')) = _
  rw [hv]
  show (dataUnref h₁ c.value >>= _) = _
  rw [hunref]
  rfl

/-- A `dict_get_*` wrapper of a value that cannot take another reference. -/
theorem dictGetVia_full {α : Type} (convert : Data → Int × α) {p : Addr} {c : Pair} (hlook : dictLookup d k = some p)
    (hp : p ≠ 0) (hc : d.pairs p = some c) (hv0 : c.value ≠ 0) (hfull : ¬ h.Room c.value) :
    dictGetVia convert d h k = none := by
  unfold dictGetVia dictGetWithRef
  simp only [hlook, hc, Option.bind_eq_bind, Option.bind_some, Option.pure_def, dataRef_full hv0 hfull, Option.bind_none]
  rw [if_neg hp]
  rfl

end

/-! ## §4. One bucket: a finite map. -/

/-- **The dict `d` holds exactly the entries `es`.** -/
structure Rep (d : Dict) (h : DataHeap) (es : List (CStr × Addr)) : Prop where
  hashSize : d.hashSize = 1
  shape : ∃ ms ch, Shape d ms ch ∧ d.entries ms = es
  distinct : (es.map Prod.fst).Nodup
  counted : Counted h (es.map Prod.snd)

theorem Rep.heap {d : Dict} {h h' : DataHeap} {es : List (CStr × Addr)} (R : Rep d h es)
    (C : Counted h' (es.map Prod.snd)) : Rep d h' es :=
  ⟨R.hashSize, R.shape, R.distinct, C⟩

section

variable {d : Dict} {h : DataHeap} {es : List (CStr × Addr)}

theorem setBucket_one (h1 : d.hashSize = 1) (k : CStr) : d.setBucket k = 0 := by
  unfold Dict.setBucket
  rw [h1, Int.tmod_one]

theorem getBucket_one (h1 : d.hashSize = 1) (k : CStr) : d.getBucket k = 0 := by
  unfold Dict.getBucket
  rw [h1]
  show ((_ % 1 : Nat) : Int) = 0
  rw [Nat.mod_one]
  rfl

theorem inTable_one (h1 : d.hashSize = 1) : d.InTable 0 := ⟨Int.le_refl 0, by rw [h1]; exact Int.one_pos⟩

/-- With one bucket the chain holds every member. -/
theorem Shape.mem_chain_one {ms : List Addr} {ch : Int → List Addr} (S : Shape d ms ch)
    (h1 : d.hashSize = 1) (p : Addr) : p ∈ ch 0 ↔ p ∈ ms := by
  rw [S.mem_chain, setBucket_one h1]
  exact and_iff_left rfl

theorem keys_entries (ms : List Addr) : (d.entries ms).map Prod.fst = ms.map d.keyAt := by
  simp [Dict.entries]

/-- Where the only entry with a key sits. -/
theorem split_keys {ms l r : List Addr} {p : Addr} (hnd : ((d.entries ms).map Prod.fst).Nodup)
    (hms : ms = l ++ p :: r) :
    d.keyAt p ∉ (d.entries l).map Prod.fst ∧ d.keyAt p ∉ (d.entries r).map Prod.fst := by
  rw [hms, Dict.entries_append, List.map_append, List.map_cons] at hnd
  have := (List.nodup_cons.mp (List.nodup_middle.mp hnd)).1
  rw [List.mem_append, not_or] at this
  exact this

/-- A pair is found exactly when its key is among the entries' keys. -/
theorem Rep.find_none {ms : List Addr} {ch : Int → List Addr} {k : CStr} (S : Shape d ms ch)
    (h1 : d.hashSize = 1) (hk : k ∉ (d.entries ms).map Prod.fst) : ∀ q ∈ ch 0, d.keyAt q ≠ k := by
  intro q hq hqk
  rw [keys_entries] at hk
  exact hk (List.mem_map.mpr ⟨q, (S.mem_chain_one h1 q).mp hq, hqk⟩)

/-- **`dict_set` is update** of the map; `count` grows with a new key. -/
theorem dictSet_rep (R : Rep d h es) (key : Option CStr) {value : Addr} (hv : h.cells value ≠ none)
    (hroom : h.Room value) (hcount : key.getD (refKey value) ∉ es.map Prod.fst → d.count < int32Max) :
    ∃ d' h', dictSet d h key value = some (d', h', 0) ∧
      Rep d' h' (assocSet es (key.getD (refKey value)) value) ∧
      (∀ a ∈ (assocSet es (key.getD (refKey value)) value).map Prod.snd, h'.view a = h.view a) ∧
      h'.brk = h.brk ∧
      d'.count = d.count + (if key.getD (refKey value) ∈ es.map Prod.fst then 0 else 1) := by
  obtain ⟨ms, ch, S, rfl⟩ := R.shape
  have hb : ∀ k, d.InTable (d.setBucket k) := fun k => by
    rw [setBucket_one R.hashSize]; exact inTable_one R.hashSize
  have hg : ∀ k, d.InTable (d.getBucket k) := fun k => by
    rw [getBucket_one R.hashSize]; exact inTable_one R.hashSize
  generalize hk : key.getD (refKey value) = k at hcount ⊢
  have hmissing : (∀ q ∈ ch (d.getBucket k), d.keyAt q ≠ k) → k ∉ (d.entries ms).map Prod.fst := by
    intro hmiss
    rw [keys_entries]
    intro hin
    obtain ⟨q, hq, hqk⟩ := List.mem_map.mp hin
    exact hmiss q ((getBucket_one R.hashSize k).symm ▸ (S.mem_chain_one R.hashSize q).mpr hq) hqk
  obtain ⟨d', h', heq, hbrk, hcase⟩ := dictSet_cases S R.counted hk (hb k) (hg k) hv hroom
    fun hmiss => hcount (hmissing hmiss)
  refine ⟨d', h', heq, ?_⟩
  -- a new pair is linked, or the value of an old one replaced
  rcases hcase with ⟨L, hmiss, C, hview⟩ | ⟨p, l, r, O, hms, hfind, C, hview⟩
  · have hnew : k ∉ (d.entries ms).map Prod.fst := hmissing hmiss
    rw [assocSet_of_not_mem hnew, if_neg hnew]
    refine ⟨⟨L.hashSize.trans R.hashSize, ⟨_, _, L.shape S rfl, L.entries S⟩, ?_, C⟩, fun a _ => hview a,
      hbrk, L.count⟩
    exact List.nodup_cons.mpr ⟨hnew, R.distinct⟩
  · have hp : p ∈ ch (d.getBucket k) := List.mem_of_find?_eq_some hfind
    have hkp : d.keyAt p = k := by simpa using List.find?_some hfind
    obtain ⟨hl, hr⟩ := split_keys R.distinct hms
    rw [hkp] at hl hr
    have hset : assocSet (d.entries ms) k value = d.entries l ++ (k, value) :: d.entries r := by
      rw [hms, Dict.entries_append, hkp, assocSet_split hl hr]
    have hvals : (assocSet (d.entries ms) k value).map Prod.snd = d.values l ++ value :: d.values r := by
      rw [hset, List.map_append, List.map_cons]
      rfl
    have hin : k ∈ (d.entries ms).map Prod.fst := by
      rw [keys_entries]
      exact List.mem_map.mpr ⟨p, S.mem_of_chain hp, hkp⟩
    rw [hvals, if_pos hin, Int.add_zero]
    refine ⟨⟨O.hashSize.trans R.hashSize, ⟨ms, ch, O.shape S, ?_⟩, nodup_keys_assocSet R.distinct, ?_⟩,
      hview, hbrk, O.count⟩
    · have hnd := S.nodup
      rw [hms] at hnd ⊢
      rw [O.entries_append hnd, hkp, ← hset, hms]
    · rw [hvals]
      exact C

/-- **`dict_set` without an outcome**: a counter is at its end. -/
theorem dictSet_rep_full (R : Rep d h es) (key : Option CStr) {value : Addr} (hv : h.cells value ≠ none)
    (hfull : ¬ h.Room value ∨ (key.getD (refKey value) ∉ es.map Prod.fst ∧ int32Max ≤ d.count)) :
    dictSet d h key value = none := by
  obtain ⟨ms, ch, S, rfl⟩ := R.shape
  obtain ⟨c, hc⟩ := Option.ne_none_iff_exists'.mp hv
  have hv0 : value ≠ 0 := (R.counted.below value c hc).1
  have hbucket := getBucket_one R.hashSize (key.getD (refKey value))
  have hg : d.InTable (d.getBucket (key.getD (refKey value))) := by rw [hbucket]; exact inTable_one R.hashSize
  rcases hfull with hroom | ⟨hnew, hcount⟩
  · exact dictSet_fullValue S rfl hg hv0 hroom
  · exact dictSet_fullDict S rfl hg (hbucket ▸ Rep.find_none S R.hashSize hnew) hv0 hcount

/-- What `_dict_lookup` finds. -/
theorem dictLookup_rep (R : Rep d h es) (k : CStr) :
    (dictLookup d k = some 0 ∧ assocGet es k = none) ∨
      ∃ p c, p ≠ 0 ∧ dictLookup d k = some p ∧ d.pairs p = some c ∧ assocGet es k = some c.value := by
  obtain ⟨ms, ch, S, rfl⟩ := R.shape
  have hg : d.InTable (d.getBucket k) := by rw [getBucket_one R.hashSize]; exact inTable_one R.hashSize
  rw [dictLookup_spec S k hg]
  rcases S.find_cases (d.getBucket k) k with ⟨hfind, hmiss⟩ | ⟨p, -, -, hfind, -, hkp, -, hp⟩
  · have hnone : k ∉ (d.entries ms).map Prod.fst := by
      rw [keys_entries]
      intro hin
      obtain ⟨q, hq, hqk⟩ := List.mem_map.mp hin
      have hq' : q ∈ ch (d.getBucket k) :=
        (getBucket_one R.hashSize k).symm ▸ (S.mem_chain_one R.hashSize q).mpr hq
      exact hmiss q hq' hqk
    rw [hfind]
    exact Or.inl ⟨rfl, (assocGet_eq_none_iff _ k).mpr hnone⟩
  · obtain ⟨l, r, hms⟩ := List.append_of_mem hp
    have hl := (split_keys R.distinct hms).1
    rw [hkp] at hl
    obtain ⟨c, hc, _, hcv⟩ := S.pair hp
    rw [hfind]
    refine Or.inr ⟨p, c, S.ne_zero hp, rfl, hc, ?_⟩
    rw [hms, Dict.entries_append, hkp, assocGet_split hl, hcv]

/-- **`dict_get` is lookup** in the map. -/
theorem dictGet_rep (R : Rep d h es) (k : CStr) : dictGet d k = some ((assocGet es k).getD 0) := by
  unfold dictGet
  rcases dictLookup_rep R k with ⟨hlook, hget⟩ | ⟨p, c, hp, hlook, hc, hget⟩
  · rw [hlook, hget]
    rfl
  · rw [hlook, hget]
    show (if p ≠ 0 then (d.pairs p).map Pair.value else some 0) = _
    rw [if_pos hp, hc]
    rfl

theorem dictGet_absent (R : Rep d h es) {k : CStr} (hk : k ∉ es.map Prod.fst) : dictGet d k = some 0 := by
  rw [dictGet_rep R, (assocGet_eq_none_iff _ k).mpr hk]
  rfl

/-- **`dict_del` is removal** from the map; `count` shrinks with a key it had. -/
theorem dictDel_rep (R : Rep d h es) (k : CStr) (hlow : k ∈ es.map Prod.fst → -int32Max ≤ d.count) :
    ∃ d' h', dictDel d h k = some (d', h') ∧ Rep d' h' (assocDel es k) ∧
      (∀ a ∈ (assocDel es k).map Prod.snd, h'.view a = h.view a) ∧
      d'.count = d.count - (if k ∈ es.map Prod.fst then 1 else 0) := by
  obtain ⟨ms, ch, S, rfl⟩ := R.shape
  have hbucket := getBucket_one R.hashSize k
  have hg : d.InTable (d.getBucket k) := by rw [hbucket]; exact inTable_one R.hashSize
  by_cases hin : k ∈ (d.entries ms).map Prod.fst
  · -- the first pair of the chain with the key
    obtain ⟨q, hq, hqk⟩ := List.mem_map.mp (keys_entries ms ▸ hin)
    have hqch : q ∈ ch (d.getBucket k) := hbucket.symm ▸ (S.mem_chain_one R.hashSize q).mpr hq
    obtain ⟨p, l, r, -, hch, hkp, hl, hp⟩ := (S.find_cases (d.getBucket k) k).resolve_left
      fun hnone => hnone.2 q hqch hqk
    obtain ⟨l', r', hms⟩ := List.append_of_mem hp
    have C : Counted h (d.valueAt p :: (d.values l' ++ d.values r')) := by
      refine R.counted.perm ?_
      show List.Perm _ (d.values ms)
      rw [hms, Dict.values_append]
      exact List.perm_middle.symm
    obtain ⟨h', hunref, C', hview, _⟩ := dataUnref_spec C
    obtain ⟨c, d', hc, heq, U⟩ := dictDel_hit S hg hch hkp hl (hlow hin) hunref
    obtain ⟨hkl, hkr⟩ := split_keys R.distinct hms
    rw [hkp] at hkl hkr
    have hdel : assocDel (d.entries ms) k = d.entries l' ++ d.entries r' := by
      rw [hms, Dict.entries_append, hkp, assocDel_split hkl hkr]
    have hvals : (assocDel (d.entries ms) k).map Prod.snd = d.values l' ++ d.values r' := by
      rw [hdel, List.map_append]
      rfl
    subst hms
    have hnd := (List.nodup_cons.mp (List.nodup_middle.mp S.nodup)).1
    refine ⟨d', h', heq, ⟨U.hashSize.trans R.hashSize, ⟨_, _, U.shape S hch hc, ?_⟩,
      nodup_keys_assocDel R.distinct, hvals ▸ C'⟩, hvals ▸ hview, ?_⟩
    · rw [U.entries hnd, hdel]
      simp [Dict.entries]
    · rw [if_pos hin]
      exact U.count
  · -- no pair of the chain has the key
    have hmiss : ∀ q ∈ ch (d.getBucket k), d.keyAt q ≠ k := by
      rw [hbucket]
      exact Rep.find_none S R.hashSize hin
    refine ⟨d, h, dictDel_miss S hg hmiss, ?_, fun _ _ => rfl, ?_⟩
    · rw [assocDel_of_not_mem hin]
      exact R
    · rw [if_neg hin, Int.sub_zero]

/-- `dict_get_*` leave the dict alone and give back the reference they took. -/
theorem dictGetVia_rep {α : Type} (convert : Data → Int × α) (R : Rep d h es) (k : CStr)
    (hroom : ∀ a, assocGet es k = some a → h.Room a) :
    ∃ ret val h', dictGetVia convert d h k = some (ret, val, h') ∧ Rep d h' es ∧
      ∀ a ∈ es.map Prod.snd, h'.view a = h.view a := by
  rcases dictLookup_rep R k with ⟨hlook, _⟩ | ⟨p, c, hp, hlook, hc, hget⟩
  · exact ⟨eNoent, none, h, dictGetVia_absent convert hlook, R, fun _ _ => rfl⟩
  · have hmem : c.value ∈ es.map Prod.snd := List.mem_map.mpr ⟨_, assocGet_mem hget, rfl⟩
    obtain ⟨ret, val, h', heq, C, hview⟩ := dictGetVia_present convert R.counted hlook hp hc hmem
      (hroom _ hget)
    exact ⟨ret, val, h', heq, R.heap C, hview⟩

/-- A new cell, as the constructors make it, can be referenced. -/
theorem DataHeap.alloc_room {h : DataHeap} {c : Data} (hc : c.refcount = 0) : (h.alloc c).1.Room h.brk := by
  intro c' hc'
  rw [DataHeap.alloc_cells, if_pos rfl, Option.some.injEq] at hc'
  subst hc'
  rw [hc]
  decide

/-- **The `dict_set_*` wrappers** set the new cell their constructor makes; when
it makes none they return `-EINVAL` and change nothing. -/
theorem dictSetData_rep (R : Rep d h es) (key : Option CStr) {data : Option Data}
    (hdata : ∀ c, data = some c → c.refcount = 0)
    (hcount : key.getD (refKey h.brk) ∉ es.map Prod.fst → d.count < int32Max) :
    (data = none ∧ dictSetData d h key data = some (d, h, eInval)) ∨
      ∃ c d' h', data = some c ∧ dictSetData d h key data = some (d', h', 0) ∧
        Rep d' h' (assocSet es (key.getD (refKey h.brk)) h.brk) ∧
        d'.count = d.count + (if key.getD (refKey h.brk) ∈ es.map Prod.fst then 0 else 1) := by
  cases data with
  | none => exact Or.inl ⟨rfl, rfl⟩
  | some c =>
      have hzero := hdata c rfl
      obtain ⟨C, hnew, _⟩ := R.counted.alloc (Int.le_of_eq hzero.symm)
      have hlive : (h.alloc c).1.cells h.brk ≠ none := by rw [hnew]; exact Option.some_ne_none c
      obtain ⟨d', h', heq, R', _, _, hc⟩ := dictSet_rep (R.heap C) key hlive (DataHeap.alloc_room hzero) hcount
      exact Or.inr ⟨c, d', h', rfl, heq, R', hc⟩

/-- A wrapper without an outcome: the dict cannot count another pair. -/
theorem dictSetData_rep_full (R : Rep d h es) (key : Option CStr) {c : Data} (hc : c.refcount = 0)
    (hnew : key.getD (refKey h.brk) ∉ es.map Prod.fst) (hfull : int32Max ≤ d.count) :
    dictSetData d h key (some c) = none := by
  obtain ⟨C, hcell, _⟩ := R.counted.alloc (Int.le_of_eq hc.symm)
  have hlive : (h.alloc c).1.cells h.brk ≠ none := by rw [hcell]; exact Option.some_ne_none c
  exact dictSet_rep_full (R.heap C) key hlive (Or.inr ⟨hnew, hfull⟩)

/-- A `dict_get_*` wrapper without an outcome: the value cannot take a reference. -/
theorem dictGetVia_rep_full {α : Type} (convert : Data → Int × α) (R : Rep d h es) (k : CStr) {a : Addr}
    (hget : assocGet es k = some a) (hfull : ¬ h.Room a) : dictGetVia convert d h k = none := by
  rcases dictLookup_rep R k with ⟨_, hnone⟩ | ⟨p, c, hp, hlook, hc, hsome⟩
  · rw [hget] at hnone
    cases hnone
  · rw [hget, Option.some.injEq] at hsome
    have hmem : a ∈ es.map Prod.snd := List.mem_map.mpr ⟨_, assocGet_mem hget, rfl⟩
    exact dictGetVia_full convert hlook hp hc (hsome ▸ R.counted.ne_zero hmem) (hsome ▸ hfull)

end

/-! ## §5. Runs. -/

/-- The operations on a dict. -/
inductive DictOp (α : Type)
  /-- `dict_set`. -/
  | set (key : Option CStr) (value : Addr)
  /-- A `dict_set_*` wrapper and the cell its constructor makes (none for NULL). -/
  | setData (key : Option CStr) (data : Option Data)
  /-- `dict_del`. -/
  | del (key : CStr)
  /-- `dict_get`. -/
  | get (key : CStr)
  /-- A `dict_get_*` wrapper with its conversion. -/
  | getVia (convert : Data → Int × α) (key : CStr)

/-- A call of `dict_set` with a value, or of `dict_del`. -/
inductive DictCall
  | set (key : CStr) (value : Addr)
  | del (key : CStr)

/-- A dict with the heap of values, and the calls that have been made, newest first. -/
structure DictState where
  dict : Dict
  heap : DataHeap
  history : List DictCall

/-- One operation. -/
def dictStep {α : Type} (s : DictState) : DictOp α → Option DictState
  | .set key value => do
      let (dict, heap, _) ← dictSet s.dict s.heap key value
      return ⟨dict, heap, .set (key.getD (refKey value)) value :: s.history⟩
  | .setData key data => do
      let (dict, heap, _) ← dictSetData s.dict s.heap key data
      return ⟨dict, heap, data.elim s.history fun _ => .set (key.getD (refKey s.heap.brk)) s.heap.brk :: s.history⟩
  | .del key => do
      let (dict, heap) ← dictDel s.dict s.heap key
      return ⟨dict, heap, .del key :: s.history⟩
  | .get key => do
      let _ ← dictGet s.dict key
      return s
  | .getVia convert key => do
      let (_, _, heap) ← dictGetVia convert s.dict s.heap key
      return { s with heap := heap }

/-- The callers set live values; constructors make cells nobody holds yet. -/
def dictAllowed {α : Type} (s : DictState) : DictOp α → Prop
  | .set _ value => s.heap.cells value ≠ none
  | .setData _ data => ∀ c, data = some c → c.refcount = 0
  | _ => True

/-- A counter that the operation would raise is at `INT_MAX`. -/
def DictState.AtIntMax {α : Type} (s : DictState) : DictOp α → Prop
  | .set key value => ¬ CanCount s.dict s.heap (key.getD (refKey value)) value
  | .setData key _ => dictGet s.dict (key.getD (refKey s.heap.brk)) = some 0 ∧ int32Max ≤ s.dict.count
  | .getVia _ key => ∃ a, dictGet s.dict key = some a ∧ ¬ s.heap.Room a
  | _ => False

/-- A dict under its operations. -/
def dictComponent (α : Type) : Component DictState (DictOp α) where
  step := dictStep
  allowed := dictAllowed

/-- The value of the last `dict_set` of `k` not followed by a `dict_del` of `k`. -/
def lastSet (k : CStr) : List DictCall → Option Addr
  | [] => none
  | .set k' v :: calls => if k' = k then some v else lastSet k calls
  | .del k' :: calls => if k' = k then none else lastSet k calls

/-- **The representation invariant of the source**: `members_list` is doubly
linked with distinct keys, the hash chains hold the same pairs, each once and in
the bucket its key hashes to, and `count` is their number. -/
def WellRepresented (d : Dict) : Prop :=
  ∃ (ms : List Addr) (ch : Int → List Addr), Doubly (readOf Pair.next d.pairs) (readOf Pair.prev d.pairs) 0 d.membersList ms ∧
    (ms.map d.keyAt).Nodup ∧
    (∀ i, Chain (readOf Pair.hashNext d.pairs) (d.members i) (ch i) ∧ (ch i).Nodup ∧
      ∀ p, p ∈ ch i ↔ p ∈ ms ∧ d.getBucket (d.keyAt p) = i) ∧
    d.count = ms.length

/-- What every run keeps: the dict holds what its history says. -/
structure DictInv (s : DictState) (es : List (CStr × Addr)) : Prop where
  rep : Rep s.dict s.heap es
  agree : ∀ k, assocGet es k = lastSet k s.history
  count : s.dict.count = es.length

/-- A set keeps the map in step with the history. -/
theorem DictInv.set {s : DictState} {es : List (CStr × Addr)} {d' : Dict} {h' : DataHeap} {k : CStr}
    {v : Addr} (I : DictInv s es) (R : Rep d' h' (assocSet es k v))
    (hc : d'.count = s.dict.count + (if k ∈ es.map Prod.fst then 0 else 1)) :
    DictInv ⟨d', h', .set k v :: s.history⟩ (assocSet es k v) where
  rep := R
  agree k' := by
    rw [assocGet_set, I.agree]
    by_cases hk : k' = k
    · rw [if_pos hk, hk]
      exact (if_pos rfl).symm
    · rw [if_neg hk]
      exact (if_neg (Ne.symm hk)).symm
  count := by rw [length_assocSet, ← I.count]; exact hc

/-- `dict_set` keeps the map in step with the history, unless a counter is at its end. -/
theorem dictStep_set {α : Type} {s : DictState} {es : List (CStr × Addr)} (I : DictInv s es) (key : Option CStr)
    {value : Addr} (hlive : s.heap.cells value ≠ none) :
    (∃ s', dictStep s (.set key value : DictOp α) = some s' ∧ ∃ es, DictInv s' es) ∨
      (s.AtIntMax (.set key value : DictOp α) ∧ dictStep s (.set key value : DictOp α) = none) := by
  by_cases hfull : ¬ s.heap.Room value ∨ (key.getD (refKey value) ∉ es.map Prod.fst ∧ int32Max ≤ s.dict.count)
  · refine Or.inr ⟨fun hcan => ?_, ?_⟩
    · rcases hfull with hroom | ⟨hnew, hmax⟩
      · exact hroom hcan.1
      · exact Int.not_lt.mpr hmax (hcan.2 (dictGet_absent I.rep hnew))
    · show (dictSet s.dict s.heap key value >>= _) = _
      rw [dictSet_rep_full I.rep key hlive hfull]
      rfl
  · rw [not_or, not_not, not_and, Int.not_le] at hfull
    obtain ⟨d', h', heq, R, _, _, hc⟩ := dictSet_rep I.rep key hlive hfull.1 hfull.2
    refine Or.inl ⟨_, ?_, _, I.set R hc⟩
    show (dictSet s.dict s.heap key value >>= _) = _
    rw [heq]
    rfl

/-- So do the `dict_set_*` wrappers. -/
theorem dictStep_setData {α : Type} {s : DictState} {es : List (CStr × Addr)} (I : DictInv s es) (key : Option CStr)
    {data : Option Data} (hdata : ∀ c, data = some c → c.refcount = 0) :
    (∃ s', dictStep s (.setData key data : DictOp α) = some s' ∧ ∃ es, DictInv s' es) ∨
      (s.AtIntMax (.setData key data : DictOp α) ∧ dictStep s (.setData key data : DictOp α) = none) := by
  by_cases hroom : key.getD (refKey s.heap.brk) ∉ es.map Prod.fst → s.dict.count < int32Max
  · refine Or.inl ?_
    rcases dictSetData_rep I.rep key hdata hroom with ⟨rfl, heq⟩ | ⟨c, d', h', rfl, heq, R, hc⟩
    · refine ⟨s, ?_, es, I⟩
      show (dictSetData s.dict s.heap key none >>= _) = _
      rw [heq]
      rfl
    · refine ⟨_, ?_, _, I.set R hc⟩
      show (dictSetData s.dict s.heap key (some c) >>= _) = _
      rw [heq]
      rfl
  · rw [not_forall, exists_prop, Int.not_lt] at hroom
    obtain ⟨hnew, hfull⟩ := hroom
    cases data with
    | none => exact Or.inl ⟨s, rfl, es, I⟩
    | some c =>
        refine Or.inr ⟨⟨dictGet_absent I.rep hnew, hfull⟩, ?_⟩
        show (dictSetData s.dict s.heap key (some c) >>= _) = _
        rw [dictSetData_rep_full I.rep key (hdata c rfl) hnew hfull]
        rfl

/-- So does `dict_del`. -/
theorem dictStep_del {α : Type} {s : DictState} {es : List (CStr × Addr)} (I : DictInv s es) (key : CStr) :
    ∃ s', dictStep s (.del key : DictOp α) = some s' ∧ ∃ es, DictInv s' es := by
  have hlow : -int32Max ≤ s.dict.count := by
    rw [I.count]
    unfold int32Max
    omega
  obtain ⟨d', h', heq, R, _, hc⟩ := dictDel_rep I.rep key fun _ => hlow
  refine ⟨⟨d', h', .del key :: s.history⟩, ?_, assocDel es key, R, ?_, ?_⟩
  · show (dictDel s.dict s.heap key >>= _) = _
    rw [heq]
    rfl
  · intro k
    rw [assocGet_del, I.agree]
    by_cases hk : k = key
    · rw [if_pos hk, hk]
      exact (if_pos rfl).symm
    · rw [if_neg hk]
      exact (if_neg (Ne.symm hk)).symm
  · rw [length_assocDel I.rep.distinct, ← I.count]
    exact hc

/-- The `dict_get_*` wrappers move the reference counts up and down. -/
theorem dictStep_getVia {α : Type} {s : DictState} {es : List (CStr × Addr)} (I : DictInv s es)
    (convert : Data → Int × α) (key : CStr) :
    (∃ s', dictStep s (.getVia convert key) = some s' ∧ ∃ es, DictInv s' es) ∨
      (s.AtIntMax (.getVia convert key) ∧ dictStep s (.getVia convert key) = none) := by
  by_cases hroom : ∀ a, assocGet es key = some a → s.heap.Room a
  · obtain ⟨ret, val, h', heq, R, _⟩ := dictGetVia_rep convert I.rep key hroom
    refine Or.inl ⟨{ s with heap := h' }, ?_, es, R, I.agree, I.count⟩
    show (dictGetVia convert s.dict s.heap key >>= _) = _
    rw [heq]
    rfl
  · simp only [not_forall, exists_prop] at hroom
    obtain ⟨a, hget, hfull⟩ := hroom
    refine Or.inr ⟨⟨a, ?_, hfull⟩, ?_⟩
    · rw [dictGet_rep I.rep, hget]
      rfl
    · show (dictGetVia convert s.dict s.heap key >>= _) = _
      rw [dictGetVia_rep_full convert I.rep key hget hfull]
      rfl

/-- **One operation** keeps the map in step with the history, unless a counter is
at its end. -/
theorem dictStep_inv {α : Type} (s : DictState) (o : DictOp α) (hs : ∃ es, DictInv s es)
    (ha : dictAllowed s o) :
    (∃ s', dictStep s o = some s' ∧ ∃ es, DictInv s' es) ∨ (s.AtIntMax o ∧ dictStep s o = none) := by
  obtain ⟨es, I⟩ := hs
  cases o with
  | set key value => exact dictStep_set I key ha
  | setData key data => exact dictStep_setData I key ha
  | del key => exact Or.inl (dictStep_del I key)
  | get key =>
      refine Or.inl ⟨s, ?_, es, I⟩
      show (dictGet s.dict key >>= _) = _
      rw [dictGet_rep I.rep key]
      rfl
  | getVia convert key => exact dictStep_getVia I convert key

theorem DictInv.wellRepresented {s : DictState} {es : List (CStr × Addr)} (I : DictInv s es) :
    WellRepresented s.dict := by
  obtain ⟨ms, ch, S, rfl⟩ := I.rep.shape
  refine ⟨ms, ch, S.list, keys_entries ms ▸ I.rep.distinct, fun i => ⟨S.chain i, (S.chain i).nodup, ?_⟩, ?_⟩
  · intro p
    rw [S.mem_chain, setBucket_one I.rep.hashSize, getBucket_one I.rep.hashSize]
  · rw [I.count, Dict.entries, List.length_map]

/-- A new dict holds nothing. -/
theorem rep_new {d : Dict} (hd : d = dictNew ∨ d = getNewDict) {h : DataHeap} (C : Counted h []) :
    Rep d h [] := by
  rcases hd with rfl | rfl
  · exact ⟨rfl, ⟨[], fun _ => [], ⟨rfl, fun _ => rfl, fun _ _ => by simp, fun _ => by
      simp [dictNew, getNewDictFull], fun _ hp => absurd hp List.not_mem_nil, Nat.one_pos⟩, rfl⟩,
      List.nodup_nil, C⟩
  · exact ⟨rfl, ⟨[], fun _ => [], shape_new 1, rfl⟩, List.nodup_nil, C⟩

theorem dictInv_new {d₀ : Dict} (hd : d₀ = dictNew ∨ d₀ = getNewDict) {h₀ : DataHeap} (hh : Counted h₀ []) :
    DictInv ⟨d₀, h₀, []⟩ [] := by
  refine ⟨rep_new hd hh, fun _ => rfl, ?_⟩
  rcases hd with rfl | rfl
  · rfl
  · rfl

/-- The invariant holds at the end of every run of allowed operations. -/
theorem dict_run_inv {α : Type} {d₀ : Dict} (hd : d₀ = dictNew ∨ d₀ = getNewDict)
    {h₀ : DataHeap} (hh : Counted h₀ []) {ops : List (DictOp α)}
    (hl : (dictComponent α).Legal ⟨d₀, h₀, []⟩ ops) {s : DictState}
    (hs : (dictComponent α).run ⟨d₀, h₀, []⟩ ops = some s) : ∃ es, DictInv s es := by
  have hstep : ∀ (s : DictState) (o : DictOp α) s', (∃ es, DictInv s es) → (dictComponent α).allowed s o →
      (dictComponent α).step s o = some s' → ∃ es, DictInv s' es := by
    intro s o s' hs ha hstep
    rcases dictStep_inv s o hs ha with ⟨s₁, hs₁, I⟩ | ⟨-, hnone⟩
    · obtain rfl : s₁ = s' := Option.some.inj (hs₁.symm.trans hstep)
      exact I
    · have hstep : dictStep s o = some s' := hstep
      rw [hnone] at hstep
      cases hstep
  exact (dictComponent α).run_safe hstep ⟨[], dictInv_new hd hh⟩ hl hs

/-- What is said of a dict and the calls that have been made on it. -/
structure DictState.Refines (s : DictState) : Prop where
  /-- `dict_get` returns the value of the last `dict_set` of the key not followed by
  a `dict_del` of it, and NULL when there is none. -/
  get : ∀ k, dictGet s.dict k = some ((lastSet k s.history).getD 0)
  represented : WellRepresented s.dict

theorem DictInv.refines {s : DictState} {es : List (CStr × Addr)} (I : DictInv s es) : s.Refines where
  get k := by rw [dictGet_rep I.rep, I.agree]
  represented := I.wellRepresented

/-- **A dict refines a finite map** after every operation of a run, and its
representation is consistent.  A run ends early only at a counter that is `INT_MAX`. -/
theorem dict_refines_finite_map {α : Type} {d₀ : Dict} (hd : d₀ = dictNew ∨ d₀ = getNewDict)
    {h₀ : DataHeap} (hh : Counted h₀ []) (ops : List (DictOp α))
    (hl : (dictComponent α).Legal ⟨d₀, h₀, []⟩ ops) :
    (∃ s, (dictComponent α).run ⟨d₀, h₀, []⟩ ops = some s ∧ s.Refines) ∨
      ∃ pre o post s, ops = pre ++ o :: post ∧ (dictComponent α).run ⟨d₀, h₀, []⟩ pre = some s ∧ s.Refines ∧
        s.AtIntMax o ∧ (dictComponent α).step s o = none := by
  rcases (dictComponent α).run_inv_or dictStep_inv ops _ ⟨[], dictInv_new hd hh⟩ hl with
    ⟨s, hrun, es, I⟩ | ⟨pre, o, post, s, hops, hrun, ⟨es, I⟩, hstuck⟩
  · exact Or.inl ⟨s, hrun, I.refines⟩
  · exact Or.inr ⟨pre, o, post, s, hops, hrun, I.refines, hstuck⟩

/-- One live value, held by its caller. -/
def oneValueHeap : DataHeap where
  cells a := if a = 1 then some { Data.zero with refcount := 1 } else none
  brk := 2

theorem counted_oneValueHeap : Counted oneValueHeap [] where
  live _ ha := absurd ha List.not_mem_nil
  counted a c hc := by
    replace hc : (if a = 1 then _ else none) = some c := hc
    split at hc
    next => cases hc; exact Int.one_nonneg
    next => cases hc
  below a c hc := by
    replace hc : (if a = 1 then _ else none) = some c := hc
    split at hc
    next ha => subst ha; decide
    next => cases hc
  pos := by decide

/-- A one-character key. -/
def textA : CStr := ⟨[97], by decide⟩

instance {α : Type} (s : DictState) (o : DictOp α) : Decidable ((dictComponent α).allowed s o) :=
  match o with
  | .set _ value => inferInstanceAs (Decidable (s.heap.cells value ≠ none))
  | .setData _ data => inferInstanceAs (Decidable (∀ c, data = some c → c.refcount = 0))
  | .del _ => inferInstanceAs (Decidable True)
  | .get _ => inferInstanceAs (Decidable True)
  | .getVia _ _ => inferInstanceAs (Decidable True)

/-- Two keys; the one is overwritten and read, and the other deleted. -/
def twoKeys : List (DictOp Unit) :=
  [.set (some default) 1, .setData (some textA) (some (dataFromInt 5)), .set (some textA) 1, .getVia (fun _ => (0, ())) textA,
    .del default, .get default]

theorem dict_refines_finite_map_twoKeys :
    ∃ s, (dictComponent Unit).run ⟨dictNew, oneValueHeap, []⟩ twoKeys = some s ∧ s.Refines ∧
      dictGet s.dict textA = some 1 ∧ dictGet s.dict default = some 0 ∧ s.dict.count = 1 := by
  have hend : ((dictComponent Unit).run ⟨dictNew, oneValueHeap, []⟩ twoKeys).map
      (fun s => (dictGet s.dict textA, dictGet s.dict default, s.dict.count)) = some (some 1, some 0, 1) := by
    decide +kernel
  rcases dict_refines_finite_map (Or.inl rfl) counted_oneValueHeap twoKeys
      ((dictComponent Unit).legal_of_check (by decide +kernel)) with
    ⟨s, hrun, R⟩ | ⟨pre, o, post, s, hops, hpre, -, -, hstuck⟩
  · rw [hrun, Option.map_some, Option.some.injEq, Prod.mk.injEq, Prod.mk.injEq] at hend
    exact ⟨s, hrun, R, hend⟩
  · rw [hops, (dictComponent Unit).run_stuck hpre hstuck] at hend
    cases hend

end LzLib.Dict
