/-
  LzLib.Dict.UnserializeMerge
  ───────────────────────────
  **WHAT DECODING DOES TO THE DICT IT FILLS.**

  The decoder sets its entries one by one into a dict that may hold others
  already, and stops at the first entry it rejects.  `decodedFrom` is the
  list of entries it gets through, read off the buffer alone; a run that has
  an outcome leaves the dict with exactly these merged into what it held.
-/
import LzLib.Dict.UnserializeSafety

namespace LzLib.Dict

open LzLib.Foundation

/-! ## §1. Entries with their values. -/

/-- A key, the address of its value, and the value's payload. -/
abbrev Entry := CStr × Addr × Option Data

/-- **The dict `d` holds the entries `cs`**, newest key first. -/
def Holds (d : Dict) (h : DataHeap) (cs : List Entry) : Prop :=
  ∃ es, Rep d h es ∧ cs = es.map fun e => (e.1, e.2, h.view e.2)

theorem keys_withView (h : DataHeap) (es : List (CStr × Addr)) :
    (es.map fun e => (e.1, e.2, h.view e.2)).map Prod.fst = es.map Prod.fst :=
  keys_map (fun a => (a, h.view a)) es

theorem assocGet_withView (h : DataHeap) (es : List (CStr × Addr)) (k : CStr) :
    assocGet (es.map fun e => (e.1, e.2, h.view e.2)) k
      = (assocGet es k).map fun a => (a, h.view a) :=
  assocGet_map (fun a => (a, h.view a)) es k

theorem assocSet_withView (h : DataHeap) (es : List (CStr × Addr)) (k : CStr) (v : Addr) :
    assocSet (es.map fun e => (e.1, e.2, h.view e.2)) k (v, h.view v)
      = (assocSet es k v).map fun e => (e.1, e.2, h.view e.2) :=
  assocSet_map (fun a => (a, h.view a)) es k v

/-- `dict_get` finds the entry's address. -/
theorem Holds.get {d : Dict} {h : DataHeap} {cs : List Entry} (H : Holds d h cs) (k : CStr) :
    dictGet d k = some (((assocGet cs k).map Prod.fst).getD 0) := by
  obtain ⟨es, R, rfl⟩ := H
  rw [dictGet_rep R, assocGet_withView, Option.map_map]
  cases assocGet es k <;> rfl

/-- An entry's value is what `dict_get` finds, with the payload of the entry. -/
theorem Holds.found {d : Dict} {h : DataHeap} {cs : List Entry} (H : Holds d h cs) {k : CStr} {a : Addr}
    {c : Option Data} (hget : assocGet cs k = some (a, c)) :
    a ≠ 0 ∧ dictGet d k = some a ∧ h.view a = c := by
  have hd := H.get k
  rw [hget] at hd
  obtain ⟨es, R, rfl⟩ := H
  rw [assocGet_withView] at hget
  obtain ⟨b, hb, heq⟩ := Option.map_eq_some_iff.mp hget
  cases heq
  exact ⟨R.counted.ne_zero (List.mem_map.mpr ⟨_, assocGet_mem hb, rfl⟩), hd, rfl⟩

/-- A key with the same entry has the same value, with the same payload. -/
theorem Holds.kept {d d' : Dict} {h h' : DataHeap} {cs cs' : List Entry} (H : Holds d h cs)
    (H' : Holds d' h' cs') {k : CStr} (heq : assocGet cs' k = assocGet cs k) :
    dictGet d' k = dictGet d k ∧ ∀ a, dictGet d k = some a → a ≠ 0 → h'.view a = h.view a := by
  refine ⟨by rw [H'.get, H.get, heq], fun a ha ha0 => ?_⟩
  cases hget : assocGet cs k with
  | none =>
      rw [H.get, hget] at ha
      cases ha
      exact absurd rfl ha0
  | some e =>
      obtain ⟨_, hd, hview⟩ := H.found hget
      obtain ⟨_, _, hview'⟩ := H'.found (heq.trans hget)
      rw [hd, Option.some.injEq] at ha
      rw [← ha, hview, hview']

theorem Holds.distinct {d : Dict} {h : DataHeap} {cs : List Entry} (H : Holds d h cs) :
    (cs.map Prod.fst).Nodup := by
  obtain ⟨es, R, rfl⟩ := H
  rw [keys_withView]
  exact R.distinct

/-- **Setting a new value** merges it into the entries. -/
theorem Holds.setNew {d : Dict} {h : DataHeap} {cs : List Entry} (H : Holds d h cs) (k : CStr)
    {c : Data} (hc : c.refcount = 0) (hfew : d.count < int32Max) :
    ∃ d' h', dictSet d (h.alloc c).1 (some k) h.brk = some (d', h', 0) ∧
      Holds d' h' (assocSet cs k (h.brk, some c)) ∧ h'.brk = h.brk + 1 ∧
      d'.count = d.count + (if k ∈ cs.map Prod.fst then 0 else 1) := by
  obtain ⟨es, R, rfl⟩ := H
  obtain ⟨C, hnew, hold⟩ := R.counted.alloc (Int.le_of_eq hc.symm)
  have hlive : (h.alloc c).1.cells h.brk ≠ none := by rw [hnew]; exact Option.some_ne_none c
  obtain ⟨d', h', heq, R', hview, hbrk, hcount⟩ := dictSet_rep (R.heap C) (some k) hlive
    (DataHeap.alloc_room hc) fun _ => hfew
  refine ⟨d', h', heq, ⟨_, R', ?_⟩, hbrk, ?_⟩
  · have hnewview : (h.alloc c).1.view h.brk = some c := by
      unfold DataHeap.view
      rw [hnew, Option.map_some, ← hc]
    have hes : es.map (fun e => (e.1, e.2, h.view e.2))
        = es.map fun e => (e.1, e.2, (h.alloc c).1.view e.2) := by
      apply List.map_congr_left
      intro e he
      rw [hold e.2 (List.mem_map.mpr ⟨e, he, rfl⟩)]
    rw [← hnewview, hes, assocSet_withView]
    apply List.map_congr_left
    intro e he
    rw [hview e.2 (List.mem_map.mpr ⟨e, he, rfl⟩)]
  · rw [keys_withView]
    exact hcount

/-- Dropping the count does not change what is held. -/
theorem Holds.withCount {d : Dict} {h : DataHeap} {cs : List Entry} (H : Holds d h cs) (n : Int) :
    Holds { d with count := n } h cs := by
  obtain ⟨es, ⟨h1, ⟨ms, ch, S, hes⟩, hnd, C⟩, rfl⟩ := H
  exact ⟨es, ⟨h1, ⟨ms, ch, ⟨S.list, S.chain, S.mem_chain, S.live, S.below, S.pos⟩, hes⟩, hnd, C⟩, rfl⟩

/-! ## §2. The entries of a buffer. -/

/-- The length words of an entry the decoder admits at `off`. -/
def admittedAt (buf : Bytes) (off : Int) : Option (Int × Int) :=
  match wordAt buf off, wordAt buf (off + 4) with
  | some keylen, some vallen =>
      if off + 8 + keylen ≤ buf.length ∧ off + 9 + keylen + vallen ≤ buf.length then
        some (keylen, vallen)
      else none
  | _, _ => none

theorem admittedAt_iff {buf : Bytes} {off keylen vallen : Int} :
    admittedAt buf off = some (keylen, vallen) ↔ Admitted buf off keylen vallen := by
  unfold admittedAt
  constructor
  · intro h
    split at h
    next hk hv =>
      split at h
      next hfit => cases h; exact ⟨hk, hv, hfit.1, hfit.2⟩
      next => cases h
    next => cases h
  · intro A
    rw [A.keyWord, A.valWord]
    exact if_pos ⟨A.keyFits, A.valFits⟩

/-- The keys and values the decoder gets through, `count` announced from `off` on. -/
def decodedFrom (buf : Bytes) : Nat → Int → List (CStr × Data)
  | 0, _ => []
  | count + 1, off =>
      match admittedAt buf off with
      | none => []
      | some (keylen, vallen) =>
          match stringAt buf (off + 8) with
          | none => []
          | some key =>
              (key, entryValue buf off keylen vallen)
                :: decodedFrom buf count (off + 9 + keylen + vallen)

/-- Merge decoded entries into `cs`, their values allocated from `brk` on. -/
def mergeAll : Addr → List Entry → List (CStr × Data) → List Entry
  | _, cs, [] => cs
  | brk, cs, (key, c) :: ds => mergeAll (brk + 1) (assocSet cs key (brk, some c)) ds

/-- A key that is not decoded keeps its entry. -/
theorem assocGet_mergeAll_other {k : CStr} : ∀ {brk : Addr} {cs : List Entry} {ds : List (CStr × Data)},
    k ∉ ds.map Prod.fst → assocGet (mergeAll brk cs ds) k = assocGet cs k
  | _, _, [], _ => rfl
  | brk, cs, (key, c) :: ds, hk => by
      rw [List.map_cons, List.mem_cons, not_or] at hk
      rw [mergeAll, assocGet_mergeAll_other hk.2, assocGet_set, if_neg hk.1]

/-- A decoded key has the value of its last entry. -/
theorem assocGet_mergeAll_last {k : CStr} {c : Data} :
    ∀ {brk : Addr} {cs : List Entry} {ds ds' : List (CStr × Data)}, k ∉ ds'.map Prod.fst →
    assocGet (mergeAll brk cs (ds ++ (k, c) :: ds')) k = some (brk + ds.length, some c)
  | brk, cs, [], ds', hk => by
      rw [List.nil_append, mergeAll, assocGet_mergeAll_other hk, assocGet_set, if_pos rfl]
      rfl
  | brk, cs, (key, c') :: ds, ds', hk => by
      rw [List.cons_append, mergeAll, assocGet_mergeAll_last hk, List.length_cons]
      rw [Nat.add_assoc, Nat.add_comm 1]

theorem length_le_mergeAll : ∀ (brk : Addr) (cs : List Entry) (ds : List (CStr × Data)),
    cs.length ≤ (mergeAll brk cs ds).length
  | _, _, [] => Nat.le_refl _
  | brk, cs, (key, c) :: ds => by
      refine Nat.le_trans ?_ (length_le_mergeAll (brk + 1) (assocSet cs key (brk, some c)) ds)
      unfold assocSet
      split
      next => rw [List.length_map]
      next => exact Nat.le_succ _

/-! ## §3. The loop. -/

/-- An entry that is not admitted leaves the dict alone. -/
theorem unserializePairs_stop {buf : Bytes} {off : Int} (count : Nat)
    (hno : ∀ keylen vallen, ¬ Admitted buf off keylen vallen) (r : UnserializeRun) :
    (unserializePairs buf buf.length (count + 1) off r).this = r.this ∧
      (unserializePairs buf buf.length (count + 1) off r).heap = r.heap ∧
      (unserializePairs buf buf.length (count + 1) off r).ret ≠ some 0 := by
  have hrej : (some (-1) : Option Int) ≠ some 0 := by decide
  have hub : (none : Option Int) ≠ some 0 := by decide
  rw [unserializePairs]
  split
  next => exact ⟨rfl, rfl, hrej⟩
  next =>
    dsimp only
    split
    next => exact ⟨rfl, rfl, hub⟩
    next keylen hk =>
      split
      next => exact ⟨rfl, rfl, hrej⟩
      next =>
        split
        next => exact ⟨rfl, rfl, hub⟩
        next vallen hv =>
          split
          next => exact ⟨rfl, rfl, hrej⟩
          next hkf =>
            split
            next => exact ⟨rfl, rfl, hrej⟩
            next hvf =>
              exact absurd ⟨hk, hv, Int.not_lt.mp hkf, by omega⟩ (hno keylen vallen)

/-- **A run that has an outcome merges the decoded entries** into what the dict
held; `count` grows by the number of new keys. -/
theorem unserializePairs_merge {buf : Bytes} : ∀ (count : Nat) (off : Int) {cs : List Entry}
    (r : UnserializeRun), Holds r.this r.heap cs → r.this.count + count ≤ int32Max →
    (unserializePairs buf buf.length count off r).ret ≠ none →
    Holds (unserializePairs buf buf.length count off r).this
        (unserializePairs buf buf.length count off r).heap
        (mergeAll r.heap.brk cs (decodedFrom buf count off)) ∧
      (unserializePairs buf buf.length count off r).this.count
        = r.this.count + ((mergeAll r.heap.brk cs (decodedFrom buf count off)).length - cs.length)
  | 0, off, cs, r, H, _, _ => by
      refine ⟨H, ?_⟩
      show r.this.count = r.this.count + ((cs.length : Int) - cs.length)
      omega
  | count + 1, off, cs, r, H, hfew, hret => by
      rw [decodedFrom]
      cases hA : admittedAt buf off with
      | none =>
          -- nothing more is decoded
          have hno : ∀ keylen vallen, ¬ Admitted buf off keylen vallen := by
            intro keylen vallen A
            rw [admittedAt_iff.mpr A] at hA
            cases hA
          obtain ⟨hthis, hheap, _⟩ := unserializePairs_stop count hno r
          rw [hthis, hheap]
          refine ⟨H, ?_⟩
          show r.this.count = r.this.count + ((cs.length : Int) - cs.length)
          omega
      | some words =>
          obtain ⟨keylen, vallen⟩ := words
          rw [unserializePairs_admitted count (admittedAt_iff.mp hA)] at hret ⊢
          cases hkey : stringAt buf (off + 8) with
          | none =>
              rw [hkey] at hret
              exact absurd rfl hret
          | some key =>
              obtain ⟨d', h', hset, H', hbrk, hcount⟩ :=
                H.setNew key (c := entryValue buf off keylen vallen) rfl (by omega)
              simp only [hkey, hset] at hret ⊢
              have hfew' : d'.count + count ≤ int32Max := by
                split at hcount <;> omega
              -- the new value has the next address, and the rest is merged behind it
              have ih := unserializePairs_merge count (off + 9 + keylen + vallen)
                (r.store off keylen vallen key d' h') H' hfew' hret
              have hbrk' : (r.store off keylen vallen key d' h').heap.brk = r.heap.brk + 1 := hbrk
              have hcount' : (r.store off keylen vallen key d' h').this.count
                  = r.this.count + (if key ∈ cs.map Prod.fst then 0 else 1) := hcount
              rw [hbrk', hcount', length_assocSet] at ih
              refine ⟨ih.1, ih.2.trans ?_⟩
              rw [mergeAll]
              omega

/-! ## §4. `dict_unserialize`. -/

/-- The decoder stops short of the announced count when it does not return 0. -/
theorem unserializePairs_ret {buf : Bytes} : ∀ (count : Nat) (off : Int) {cs : List Entry}
    (r : UnserializeRun) {ret : Int}, Holds r.this r.heap cs → r.this.count + count ≤ int32Max →
    (unserializePairs buf buf.length count off r).ret = some ret → ret ≠ 0 →
    ret = -1 ∧ (decodedFrom buf count off).length < count
  | 0, _, _, _, _, _, _, hret, hne => by
      cases hret
      exact absurd rfl hne
  | count + 1, off, cs, r, ret, H, hfew, hret, hne => by
      rw [decodedFrom]
      cases hA : admittedAt buf off with
      | none =>
          have hno : ∀ keylen vallen, ¬ Admitted buf off keylen vallen := by
            intro keylen vallen A
            rw [admittedAt_iff.mpr A] at hA
            cases hA
          refine ⟨?_, Nat.succ_pos _⟩
          by_cases h0 : 0 ≤ off
          · obtain ⟨ex, _, heq⟩ := unserializePairs_reject count h0 hno r
            rw [heq] at hret
            cases hret
            rfl
          · -- the cursor is before the buffer: the length word cannot be read
            have hword : wordAt buf off = none := if_neg h0
            rw [unserializePairs] at hret
            split at hret
            next => cases hret; rfl
            next =>
              dsimp only at hret
              rw [hword] at hret
              cases hret
      | some words =>
          obtain ⟨keylen, vallen⟩ := words
          rw [unserializePairs_admitted count (admittedAt_iff.mp hA)] at hret
          cases hkey : stringAt buf (off + 8) with
          | none =>
              rw [hkey] at hret
              cases hret
          | some key =>
              -- an admitted entry is stored, and the loop goes on
              obtain ⟨d', h', hset, H', -, hcount⟩ :=
                H.setNew key (c := entryValue buf off keylen vallen) rfl (by omega)
              simp only [hkey, hset] at hret
              have hfew' : d'.count + count ≤ int32Max := by
                split at hcount <;> omega
              obtain ⟨h1, hlen⟩ := unserializePairs_ret count (off + 9 + keylen + vallen)
                (r.store off keylen vallen key d' h') H' hfew' hret hne
              exact ⟨h1, Nat.succ_lt_succ hlen⟩

/-- A buffer rejected before its first entry leaves the dict alone. -/
theorem dictUnserialize_reject {buf : Bytes} (d : Dict) (h : DataHeap)
    (hcount : ∀ count, wordAt buf 0 = some count → count < 0) :
    (dictUnserialize buf d h).this = d ∧ (dictUnserialize buf d h).heap = h ∧
      ∀ ret, (dictUnserialize buf d h).ret = some ret → ret = -1 := by
  have hrej : ∀ ret, some (-1) = some ret → ret = -1 := fun ret hr => by cases hr; rfl
  unfold dictUnserialize
  dsimp only
  split
  next => exact ⟨rfl, rfl, hrej⟩
  next =>
    split
    next => exact ⟨rfl, rfl, hrej⟩
    next =>
      split
      next => exact ⟨rfl, rfl, fun ret hr => by cases hr⟩
      next count hc =>
        rw [if_pos (hcount count hc)]
        exact ⟨rfl, rfl, hrej⟩

/-- Any other buffer reaches the loop. -/
theorem dictUnserialize_loop {buf : Bytes} {count : Int} (d : Dict) (h : DataHeap)
    (hc : wordAt buf 0 = some count) (hpos : 0 ≤ count) :
    dictUnserialize buf d h
      = unserializePairs buf buf.length count.toNat 4
          ⟨none, { d with count := 0 }, h, [(0, 4)], []⟩ := by
  have h4 := (wordAt_bounds hc).2
  have hne : ¬ ((buf.length : Int) = 0) := by omega
  have hlen : ¬ (dictHdrLen > (buf.length : Int)) := by
    show ¬ ((4 : Int) > buf.length)
    omega
  unfold dictUnserialize
  dsimp only
  rw [if_neg hne, if_neg hlen, hc]
  exact if_neg (Int.not_lt.mpr hpos)

/-- The entries a buffer announces can all be counted. -/
theorem announced_fit {buf : Bytes} {count : Int} (hc : wordAt buf 0 = some count) (hpos : 0 ≤ count) :
    (0 : Int) + count.toNat ≤ int32Max := by
  have := wordAt_le hc
  omega

/-- **A failed decoding**: a buffer rejected before its first entry changes
nothing; otherwise the entries before the rejected one are merged into the dict:
their keys have the last value decoded for them, all other keys keep theirs. -/
theorem dictUnserialize_failed {α : Type} {h₀ : DataHeap} (hh : Counted h₀ []) (ops : List (DictOp α))
    (hl : (dictComponent α).Legal ⟨dictNew, h₀, []⟩ ops) {s : DictState}
    (hs : (dictComponent α).run ⟨dictNew, h₀, []⟩ ops = some s) (buf : Bytes) {ret : Int}
    (hret : (dictUnserialize buf s.dict s.heap).ret = some ret) (hne : ret ≠ 0) :
    ret = -1 ∧
    ((∀ count, wordAt buf 0 = some count → count < 0) →
      (dictUnserialize buf s.dict s.heap).this = s.dict ∧
        (dictUnserialize buf s.dict s.heap).heap = s.heap) ∧
    ∀ count, wordAt buf 0 = some count → 0 ≤ count →
      (decodedFrom buf count.toNat 4).length < count ∧
      ∀ k,
        (k ∉ (decodedFrom buf count.toNat 4).map Prod.fst →
          dictGet (dictUnserialize buf s.dict s.heap).this k = dictGet s.dict k ∧
            ∀ a, dictGet s.dict k = some a → a ≠ 0 →
              (dictUnserialize buf s.dict s.heap).heap.view a = s.heap.view a) ∧
        ∀ c ds ds', decodedFrom buf count.toNat 4 = ds ++ (k, c) :: ds' → k ∉ ds'.map Prod.fst →
          ∃ a, a ≠ 0 ∧ dictGet (dictUnserialize buf s.dict s.heap).this k = some a ∧
            (dictUnserialize buf s.dict s.heap).heap.view a = some c := by
  obtain ⟨es, I⟩ := dict_run_inv (Or.inl rfl) hh hl hs
  have H : Holds s.dict s.heap (es.map fun e => (e.1, e.2, s.heap.view e.2)) := ⟨es, I.rep, rfl⟩
  -- rejected before the first entry, or in the loop
  by_cases hcount : ∀ count, wordAt buf 0 = some count → count < 0
  · obtain ⟨hthis, hheap, hret'⟩ := dictUnserialize_reject s.dict s.heap hcount
    refine ⟨hret' ret hret, fun _ => ⟨hthis, hheap⟩, fun count hc hpos => ?_⟩
    have := hcount count hc
    omega
  · obtain ⟨count, hc, hpos⟩ : ∃ count, wordAt buf 0 = some count ∧ 0 ≤ count := by
      by_contra hno
      exact hcount fun count hc => Int.not_le.mp fun hpos => hno ⟨count, hc, hpos⟩
    rw [dictUnserialize_loop s.dict s.heap hc hpos] at hret ⊢
    have H₀ := H.withCount 0
    have hfew := announced_fit hc hpos
    obtain ⟨hret1, hlen⟩ := unserializePairs_ret count.toNat 4
      ⟨none, { s.dict with count := 0 }, s.heap, [(0, 4)], []⟩ H₀ hfew hret hne
    obtain ⟨H', _⟩ := unserializePairs_merge count.toNat 4
      ⟨none, { s.dict with count := 0 }, s.heap, [(0, 4)], []⟩ H₀ hfew
      (by rw [hret]; exact Option.some_ne_none ret)
    refine ⟨hret1, fun h => absurd h hcount, fun count' hc' _ => ?_⟩
    rw [hc, Option.some.injEq] at hc'
    subst hc'
    refine ⟨by omega, fun k => ⟨fun hk => ?_, fun c ds ds' hds hk => ?_⟩⟩
    · exact H.kept H' (assocGet_mergeAll_other hk)
    · rw [hds] at H'
      obtain ⟨ha, hget, hview⟩ := H'.found (assocGet_mergeAll_last hk)
      exact ⟨_, ha, hget, hview⟩

/-- Two entries announced, the first with an empty key and an empty value, the
second missing. -/
def oneOfTwo : Bytes := [0, 0, 0, 2, 0, 0, 0, 0, 0, 0, 0, 0, 0]

theorem oneOfTwo_ret : (dictUnserialize oneOfTwo dictNew oneValueHeap).ret = some (-1) := by decide

theorem dictUnserialize_failed_oneOfTwo :
    wordAt oneOfTwo 0 = some 2 ∧ (decodedFrom oneOfTwo (Int.toNat 2) 4).length < (2 : Int) := by
  have h := dictUnserialize_failed counted_oneValueHeap ([] : List (DictOp Unit)) trivial
    (Eq.refl (some (DictState.mk dictNew oneValueHeap []))) oneOfTwo oneOfTwo_ret (by decide)
  have hword : wordAt oneOfTwo 0 = some 2 := by decide
  exact ⟨hword, (h.2.2 2 hword (by decide)).1⟩

/-- A decoding that fails has set the key of its first entry. -/
theorem oneOfTwo_merged :
    (dictComponent Unit).run ⟨dictNew, oneValueHeap, []⟩ [] = some ⟨dictNew, oneValueHeap, []⟩ ∧
      (dictUnserialize oneOfTwo dictNew oneValueHeap).ret = some (-1) ∧
      dictGet dictNew default = some 0 ∧
      dictGet (dictUnserialize oneOfTwo dictNew oneValueHeap).this default = some 2 :=
  ⟨rfl, oneOfTwo_ret, by decide, by decide +kernel⟩

end LzLib.Dict
