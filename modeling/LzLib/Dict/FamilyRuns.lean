/-
  LzLib.Dict.FamilyRuns
  ─────────────────────
  **RUNS OVER MANY DICTS KEEP EVERY COUNT EXACT.**

  `Sound w ents`: dict `i` of the family holds exactly the entries `ents i`,
  and the values count their holders, the entries of all dicts and the callers.
  Every operation keeps this while its keys fit the dict they are set in
  (`keysFit`): `dict_set` searches a key with a top-bit hash in another bucket
  than the one it inserts into, and then stores it twice, or outside the table.
  A run ends early only where a counter cannot go on (`Family.AtIntMax`).

  Main results:
    • `references_exact`      — counts and destructions over any such run;
    • `doubled_key_miscounts` — a key that does not fit breaks the count.
-/
import LzLib.Dict.References

namespace LzLib.Dict

open LzLib.Foundation LzLib.Hash

/-! ## §1. The statements. -/

/-- **The references of a family are exact**: a live value counts its slots and
the references callers hold; one that is referred to is live; none has been
destroyed twice; and a value goes only by being destroyed. -/
structure RefsExact (w : Family) : Prop where
  counts : ∀ a c, w.heap.cells a = some c → a ∉ w.destroyed → c.refcount = w.slots a + w.held.count a
  live : ∀ a, 0 < w.refs a → w.live a = true
  once : w.destroyed.Nodup
  kept : ∀ a, 0 < a → a < w.heap.brk → a ∉ w.destroyed → w.live a = true

/-- The keys of `dict` fit the buckets of `new`. -/
def KeysFit (dict new : Dict) : Prop :=
  ∀ p < dict.brk, ∀ pair ∈ dict.pairs p, HashFits new.hashSize pair.key

/-- The keys an operation stores fit the dict they are set in, and a new dict has
a bucket. -/
def keysFit {α : Type} (w : Family) : FamilyOp α → Prop
  | .getNewDictFull sizeHint => 1 ≤ sizeHint
  | .set i key value => ∀ d ∈ w.dicts i, HashFits d.hashSize (key.getD (refKey value))
  | .copy i new | .copyWithRef i new =>
      ∀ j ∈ new, ∀ dict ∈ w.dicts i, ∀ new ∈ w.dicts j, dict.KeysFit new
  | _ => True

/-- Runs in which callers keep their promises and keys fit. -/
def fittingComponent (α : Type) : Component Family (FamilyOp α) where
  step := familyStep
  allowed w o := promised w o = true ∧ keysFit w o

/-- Copying `dict` may count a value, or the pairs of a dict that has `count`, beyond
`INT_MAX`. -/
def Family.CopyOver (w : Family) (dict : Dict) (count : Int) : Prop :=
  (∃ a c, w.heap.cells a = some c ∧ int32Max < c.refcount + (dict.keysOf a).length) ∨
    int32Max < count + dict.count

/-- A counter that an operation raises is at `INT_MAX`, or can get there while a
dict is copied. -/
def Family.AtIntMax {α : Type} (w : Family) : FamilyOp α → Prop
  | .set i key value => ∃ d, w.dicts i = some d ∧ ¬ CanCount d w.heap (key.getD (refKey value)) value
  | .getVia _ i key => ∃ d a, w.dicts i = some d ∧ dictGet d key = some a ∧ ¬ w.heap.Room a
  | .copy i new | .copyWithRef i new =>
      ∃ dict, w.dicts i = some dict ∧ w.CopyOver dict ((new.bind w.dicts).elim 0 Dict.count)
  | .ref this => ¬ w.heap.Room this
  | _ => False

instance (n : Int) (key : CStr) : Decidable (HashFits n key) :=
  inferInstanceAs (Decidable (_ ∨ _))

instance (dict new : Dict) : Decidable (dict.KeysFit new) :=
  inferInstanceAs (Decidable (∀ p < dict.brk, ∀ pair ∈ dict.pairs p, HashFits new.hashSize pair.key))

instance {α : Type} (w : Family) (o : FamilyOp α) : Decidable (keysFit w o) :=
  match o with
  | .getNewDictFull sizeHint => inferInstanceAs (Decidable (1 ≤ sizeHint))
  | .set i key value =>
      inferInstanceAs (Decidable (∀ d ∈ w.dicts i, HashFits d.hashSize (key.getD (refKey value))))
  | .copy i new | .copyWithRef i new =>
      inferInstanceAs (Decidable (∀ j ∈ new, ∀ dict ∈ w.dicts i, ∀ new ∈ w.dicts j, dict.KeysFit new))
  | .dictNew | .newData _ | .del _ _ | .getVia _ _ _ | .ref _ | .unref _ | .destroy _ => .isTrue trivial

instance (α : Type) (w : Family) (o : FamilyOp α) : Decidable ((fittingComponent α).allowed w o) :=
  inferInstanceAs (Decidable (promised w o = true ∧ keysFit w o))

instance (α : Type) (w : Family) (o : FamilyOp α) : Decidable ((familyComponent α).allowed w o) :=
  inferInstanceAs (Decidable (promised w o = true))

/-! ## §2. The holders of a family. -/

/-- Everyone who holds a value: the entries of the dicts, and the callers. -/
def holders (made : Nat) (ents : Nat → List (CStr × Addr)) (held : List Addr) : List Addr :=
  (List.range made).flatMap (fun i => (ents i).map Prod.snd) ++ held

/-- The entries of dict `i`, and the other holders. -/
theorem holders_split {made i : Nat} (hi : i < made) (ents : Nat → List (CStr × Addr))
    (held : List Addr) :
    ∃ rest, ∀ es, (holders made (Function.update ents i es) held).Perm (es.map Prod.snd ++ rest) := by
  obtain ⟨l, r, hrange⟩ := List.append_of_mem (List.mem_range.mpr hi)
  have hnd : (l ++ i :: r).Nodup := hrange ▸ List.nodup_range
  obtain ⟨-, hr, hdis⟩ := List.nodup_append.mp hnd
  have hskip : ∀ es, ∀ xs : List Nat, (∀ j ∈ xs, j ≠ i) →
      xs.flatMap (fun j => (Function.update ents i es j).map Prod.snd)
        = xs.flatMap fun j => (ents j).map Prod.snd := by
    intro es xs hxs
    apply List.flatMap_congr
    intro j hj
    rw [Function.update_of_ne (hxs j hj)]
  refine ⟨l.flatMap (fun j => (ents j).map Prod.snd) ++ (r.flatMap (fun j => (ents j).map Prod.snd) ++ held),
    ?_⟩
  intro es
  have hl : ∀ j ∈ l, j ≠ i := fun j hj => hdis j hj i List.mem_cons_self
  have hr : ∀ j ∈ r, j ≠ i := fun j hj e => (List.nodup_cons.mp hr).1 (e ▸ hj)
  unfold holders
  rw [hrange, List.flatMap_append, List.flatMap_cons, hskip es l hl, hskip es r hr,
    Function.update_self]
  simp only [List.append_assoc]
  exact List.perm_append_comm_assoc _ _ _

/-- The holders when dict `i` has other entries. -/
theorem holders_count {made i : Nat} (hi : i < made) (ents : Nat → List (CStr × Addr))
    (held : List Addr) (es : List (CStr × Addr)) (a : Addr) :
    (holders made (Function.update ents i es) held).count a + ((ents i).map Prod.snd).count a
      = (holders made ents held).count a + (es.map Prod.snd).count a := by
  obtain ⟨rest, hrest⟩ := holders_split hi ents held
  have hbefore := (hrest (ents i)).count_eq a
  have hafter := (hrest es).count_eq a
  rw [Function.update_eq_self, List.count_append] at hbefore
  rw [List.count_append] at hafter
  omega

/-- Setting a key: its new value gains a slot, its old value loses one. -/
theorem assocSet_count {es : List (CStr × Addr)} (hnd : (es.map Prod.fst).Nodup) (k : CStr) (v a : Addr) :
    ((assocSet es k v).map Prod.snd).count a + (if assocGet es k = some a then 1 else 0)
      = (es.map Prod.snd).count a + (if v = a then 1 else 0) := by
  cases hget : assocGet es k with
  | none =>
      rw [assocSet_of_not_mem ((assocGet_eq_none_iff es k).mp hget), List.map_cons, List.count_cons]
      simp
  | some o =>
      obtain ⟨rest, hold, hset, -⟩ := assoc_values hnd hget
      rw [(hset v).count_eq, hold.count_eq, List.count_cons, List.count_cons]
      simp only [Option.some.injEq, beq_iff_eq]
      omega

theorem mem_holders {made : Nat} {ents : Nat → List (CStr × Addr)} {held : List Addr} {a : Addr} :
    a ∈ holders made ents held ↔ (∃ i < made, a ∈ (ents i).map Prod.snd) ∨ a ∈ held := by
  unfold holders
  rw [List.mem_append, List.mem_flatMap]
  simp only [List.mem_range]

/-- A set makes no holder but the value that is set. -/
theorem mem_holders_assocSet {made j : Nat} {ents : Nat → List (CStr × Addr)} {held : List Addr} {key : CStr}
    {value a : Addr} (h : a ∈ holders made (Function.update ents j (assocSet (ents j) key value)) held) :
    a ∈ holders made ents held ∨ a = value := by
  rcases mem_holders.mp h with ⟨m, hm, ham⟩ | hcaller
  · by_cases hmj : m = j
    · subst hmj
      rw [Function.update_self] at ham
      obtain ⟨e, he, rfl⟩ := List.mem_map.mp ham
      rcases mem_assocSet he with he | rfl
      · exact Or.inl (mem_holders.mpr (Or.inl ⟨m, hm, List.mem_map_of_mem he⟩))
      · exact Or.inr rfl
    · rw [Function.update_of_ne hmj] at ham
      exact Or.inl (mem_holders.mpr (Or.inl ⟨m, hm, ham⟩))
  · exact Or.inl (mem_holders.mpr (Or.inr hcaller))

/-- **The invariant of a family.** -/
structure Sound (w : Family) (ents : Nat → List (CStr × Addr)) : Prop where
  keyed : ∀ i d, w.dicts i = some d → i < w.made ∧ Keyed d (ents i)
  gone : ∀ i, w.dicts i = none → ents i = []
  exact : Exact w.heap w.destroyed (holders w.made ents w.held)

section

variable {w : Family} {ents : Nat → List (CStr × Addr)}

/-- Slots and references of callers are the holders. -/
theorem Sound.refs (S : Sound w ents) (a : Addr) : w.refs a = (holders w.made ents w.held).count a := by
  unfold Family.refs Family.slots holders
  rw [List.count_append, List.count_flatMap]
  congr 2
  apply List.map_congr_left
  intro i _
  show _ = ((ents i).map Prod.snd).count a
  cases hd : w.dicts i with
  | none =>
      rw [S.gone i hd]
      rfl
  | some d => exact (S.keyed i d hd).2.keysOf_length a

theorem Sound.refs_pos (S : Sound w ents) (a : Addr) :
    0 < w.refs a ↔ a ∈ holders w.made ents w.held := by
  rw [S.refs, List.count_pos_iff]

theorem Family.live_iff {w : Family} {a : Addr} :
    w.live a = true ↔ w.heap.cells a ≠ none ∧ a ∉ w.destroyed := by
  unfold Family.live
  simp [Option.isSome_iff_ne_none]

theorem Sound.refsExact (S : Sound w ents) : RefsExact w where
  counts a c hc ha := by
    rw [S.exact.exact a c hc ha, ← S.refs a]
    rfl
  live a ha := by
    have hin := (S.refs_pos a).mp ha
    exact Family.live_iff.mpr ⟨S.exact.live a hin, S.exact.not_dead hin⟩
  once := S.exact.once
  kept a hpos hlt ha := Family.live_iff.mpr ⟨S.exact.kept a hpos hlt ha, ha⟩

/-- Nothing has been made yet. -/
theorem sound_start : Sound Family.start fun _ => [] where
  keyed _ _ hd := by cases hd
  gone _ _ := rfl
  exact :=
    { exact := fun _ _ hc => by cases hc
      live := fun _ ha => absurd ha (by simp [holders, Family.start])
      unheld := fun _ ha => absurd ha List.not_mem_nil
      once := List.nodup_nil
      kept := fun a hpos hlt => absurd hlt (Nat.not_lt.mpr hpos)
      below := fun _ _ hc => by cases hc
      deadBelow := fun _ ha => absurd ha List.not_mem_nil
      pos := Nat.one_pos }

/-! ## §3. One operation. -/

/-- What an operation makes of a family: it is sound again, and the values
destroyed are exactly those that have lost their last holder. -/
structure Turned (w : Family) (ents : Nat → List (CStr × Addr)) (w' : Family)
    (ents' : Nat → List (CStr × Addr)) : Prop where
  sound : Sound w' ents'
  settled : Settled w.destroyed w'.destroyed (holders w.made ents w.held)
    (holders w'.made ents' w'.held)

/-- Nothing happens. -/
theorem Sound.same (S : Sound w ents) : Turned w ents w ents := ⟨S, Settled.nobody fun _ ha => ha⟩

theorem Turned.trans {w₁ w₂ w₃ : Family} {ents₁ ents₂ ents₃ : Nat → List (CStr × Addr)}
    (T₁ : Turned w₁ ents₁ w₂ ents₂) (T₂ : Turned w₂ ents₂ w₃ ents₃)
    (hold : ∀ a ∈ holders w₂.made ents₂ w₂.held, a ∈ holders w₁.made ents₁ w₁.held) :
    Turned w₁ ents₁ w₃ ents₃ where
  sound := T₂.sound
  settled := T₁.settled.trans T₂.settled T₂.sound.exact.unheld hold

/-- **One operation on dict `i`**: its calls come through for the holders `vs` of
the dict's entries, whoever else there is, and it leaves the entries `es`. -/
theorem Sound.put (S : Sound w ents) {i : Nat} (hi : i < w.made) (es : List (CStr × Addr))
    {vs vs' : List Addr} {calls : List RefCall} (hvs : ((ents i).map Prod.snd).Perm vs)
    (hvs' : (es.map Prod.snd).Perm vs')
    (hcalls : ∀ rest, Exact w.heap w.destroyed (vs ++ rest) →
      ∃ h' fresh, Replayed w.heap w.destroyed (vs ++ rest) calls (vs' ++ rest) h' fresh)
    {P : DataHeap → Option Dict → Prop}
    (hop : ∀ h' fresh, replay w.heap calls = some (h', fresh) →
      ∃ od, P h' od ∧ (∀ d, od = some d → Keyed d es) ∧ (od = none → es = [])) :
    ∃ h' od w', P h' od ∧ (w.putDict i od).charge calls h' = some w' ∧
      Turned w ents w' (Function.update ents i es) ∧
      w'.dicts = Function.update w.dicts i od ∧ w'.made = w.made ∧ w'.held = w.held := by
  obtain ⟨rest, hrest⟩ := holders_split hi ents w.held
  -- `rest` are the other holders: the calls leave them alone
  have hbefore : (holders w.made ents w.held).Perm (vs ++ rest) := by
    have hsame := hrest (ents i)
    rw [Function.update_eq_self] at hsame
    exact hsame.trans (hvs.append_right rest)
  have hafter : (holders w.made (Function.update ents i es) w.held).Perm (vs' ++ rest) :=
    (hrest es).trans (hvs'.append_right rest)
  obtain ⟨h', fresh, R⟩ := hcalls rest (S.exact.perm hbefore.symm)
  obtain ⟨od, hP, hsome, hnone⟩ := hop h' fresh R.calls
  have R' := R.perm hbefore hafter
  have hcharge : (w.putDict i od).charge calls h'
      = some { w.putDict i od with heap := h', destroyed := w.destroyed ++ fresh } := by
    unfold Family.charge
    show (replay w.heap calls >>= _) = _
    rw [R.calls]
    rfl
  refine ⟨h', od, _, hP, hcharge, ⟨⟨?_, ?_, R'.exact⟩, R'.settled⟩, rfl, rfl, rfl⟩
  · intro j d hd
    replace hd : Function.update w.dicts i od j = some d := hd
    by_cases hj : j = i
    · subst hj
      rw [Function.update_self] at hd ⊢
      exact ⟨hi, hsome d hd⟩
    · rw [Function.update_of_ne hj] at hd ⊢
      exact S.keyed j d hd
  · intro j hd
    replace hd : Function.update w.dicts i od j = none := hd
    by_cases hj : j = i
    · subst hj
      rw [Function.update_self] at hd ⊢
      exact hnone hd
    · rw [Function.update_of_ne hj] at hd ⊢
      exact S.gone j hd

/-- The calls of `dict_set` come through: on overwriting, the new value takes the
place of the old one. -/
theorem Exact.set_calls {h : DataHeap} {dead : List Addr} {es : List (CStr × Addr)}
    (hnd : (es.map Prod.fst).Nodup) {k : CStr} {value : Addr} (hcell : h.cells value ≠ none)
    (hdead : value ∉ dead) (hroom : h.Room value) :
    ∃ vs vs' : List Addr, (es.map Prod.snd).Perm vs ∧ ((assocSet es k value).map Prod.snd).Perm vs' ∧
      ∀ rest, Exact h dead (vs ++ rest) →
        ∃ h' fresh, Replayed h dead (vs ++ rest)
          (.ref value :: ((assocGet es k).map RefCall.unref).toList) (vs' ++ rest) h' fresh := by
  cases hget : assocGet es k with
  | none =>
      have hnew := (assocGet_eq_none_iff es k).mp hget
      refine ⟨es.map Prod.snd, value :: es.map Prod.snd, List.Perm.refl _, ?_, ?_⟩
      · rw [assocSet_of_not_mem hnew]
        exact List.Perm.refl _
      · intro rest E
        obtain ⟨h', R⟩ := E.replay_ref hcell hdead hroom
        exact ⟨h', [], R⟩
  | some old =>
      obtain ⟨others, hold, hset, -⟩ := assoc_values hnd hget
      refine ⟨old :: others, value :: others, hold, hset value, ?_⟩
      intro rest E
      exact E.replay_swap hcell hdead hroom

/-- A live value is not NULL. -/
theorem Sound.live_ne_zero (S : Sound w ents) {a : Addr} (ha : w.live a = true) : a ≠ 0 := by
  obtain ⟨c, hc⟩ := Option.ne_none_iff_exists'.mp (Family.live_iff.mp ha).1
  exact (S.exact.below a c hc).1

/-- **`dict_set`** of a live value under a key that fits. -/
theorem Sound.set (S : Sound w ents) {i : Nat} {d : Dict} (hd : w.dicts i = some d)
    (key : Option CStr) {value : Addr} (hlive : w.live value = true)
    (hfits : HashFits d.hashSize (key.getD (refKey value)))
    (hcan : CanCount d w.heap (key.getD (refKey value)) value) :
    ∃ w' d', w.set i key value = some w' ∧
      Turned w ents w' (Function.update ents i (assocSet (ents i) (key.getD (refKey value)) value)) ∧
      w'.dicts = Function.update w.dicts i (some d') ∧ w'.made = w.made ∧ w'.held = w.held ∧
      d'.hashSize = d.hashSize ∧
      (assocGet (ents i) (key.getD (refKey value)) = some value → d'.pairs = d.pairs) ∧
      (∀ q, d.pairs q ≠ none → d'.pairs q ≠ none) := by
  obtain ⟨hcell, hdead⟩ := Family.live_iff.mp hlive
  obtain ⟨hi, K⟩ := S.keyed i d hd
  have hv := S.live_ne_zero hlive
  -- the calls that `dict_set` makes move one reference
  obtain ⟨vs, vs', hvs, hvs', hcalls⟩ :=
    Exact.set_calls (k := key.getD (refKey value)) K.distinct hcell hdead hcan.1
  obtain ⟨h', od, w', ⟨d', rfl, heq, hrest⟩, hcharge, T, hdicts, hmade, hheld⟩ :=
    S.put hi _ hvs hvs' hcalls (P := fun h' od => ∃ d', od = some d' ∧
      dictSet d w.heap key value = some (d', h', 0) ∧ d'.hashSize = d.hashSize ∧
      (assocGet (ents i) (key.getD (refKey value)) = some value → d'.pairs = d.pairs) ∧
      (∀ q, d.pairs q ≠ none → d'.pairs q ≠ none)) (by
        intro h' fresh hr
        obtain ⟨d', heq, K', hrest⟩ := K.set key hv hfits hcan.2 hr
        refine ⟨some d', ⟨d', rfl, heq, hrest⟩, ?_, fun hnone => by cases hnone⟩
        intro d₁ hd₁
        cases hd₁
        exact K')
  refine ⟨w', d', ?_, T, hdicts, hmade, hheld, hrest⟩
  unfold Family.set
  rw [hd]
  show (dictSetCalls d key value >>= _) = _
  rw [K.setCalls key hv]
  show (dictSet d w.heap key value >>= _) = _
  rw [heq]
  exact hcharge

/-- **`dict_set`** where a counter is at its end. -/
theorem Sound.set_full (S : Sound w ents) {i : Nat} {d : Dict} (hd : w.dicts i = some d) (key : Option CStr)
    {value : Addr} (hv : value ≠ 0) (hfull : ¬ CanCount d w.heap (key.getD (refKey value)) value) :
    w.set i key value = none := by
  have K := (S.keyed i d hd).2
  unfold Family.set
  rw [hd]
  show (dictSetCalls d key value >>= _) = _
  rw [K.setCalls key hv]
  show (dictSet d w.heap key value >>= _) = _
  rw [K.set_full key hv hfull]
  rfl

/-- **`dict_del`** lets go of the value of the key. -/
theorem Sound.del (S : Sound w ents) {i : Nat} {d : Dict} (hd : w.dicts i = some d) (k : CStr) :
    ∃ w' d', w.del i k = some w' ∧ Turned w ents w' (Function.update ents i (assocDel (ents i) k)) ∧
      w'.dicts = Function.update w.dicts i (some d') ∧ w'.made = w.made ∧ w'.held = w.held ∧
      (∀ q, d'.pairs q ≠ none ↔ d.pairs q ≠ none ∧ dictLookup d k ≠ some q) ∧ d'.hashSize = d.hashSize := by
  obtain ⟨hi, K⟩ := S.keyed i d hd
  -- the value of the key, if there is one, and the others
  obtain ⟨others, hvs, hvs'⟩ : ∃ others, ((ents i).map Prod.snd).Perm
      ((assocGet (ents i) k).toList ++ others) ∧ ((assocDel (ents i) k).map Prod.snd).Perm others := by
    cases hget : assocGet (ents i) k with
    | none =>
        refine ⟨(ents i).map Prod.snd, List.Perm.refl _, ?_⟩
        rw [assocDel_of_not_mem ((assocGet_eq_none_iff _ k).mp hget)]
    | some old =>
        obtain ⟨others, hold, -, hdel⟩ := assoc_values K.distinct hget
        exact ⟨others, hold, hdel⟩
  have hcalls : ∀ rest, Exact w.heap w.destroyed (((assocGet (ents i) k).toList ++ others) ++ rest) →
      ∃ h' fresh, Replayed w.heap w.destroyed (((assocGet (ents i) k).toList ++ others) ++ rest)
        ((assocGet (ents i) k).map RefCall.unref).toList (others ++ rest) h' fresh := by
    intro rest E
    rw [Option.toList_map]
    rw [List.append_assoc] at E ⊢
    exact E.replay_unrefs
  obtain ⟨h', od, w', ⟨d', rfl, heq, hpairs⟩, hcharge, T, hdicts, hmade, hheld⟩ :=
    S.put hi _ hvs hvs' hcalls (P := fun h' od => ∃ d', od = some d' ∧
      dictDel d w.heap k = some (d', h') ∧
      (∀ q, d'.pairs q ≠ none ↔ d.pairs q ≠ none ∧ dictLookup d k ≠ some q) ∧ d'.hashSize = d.hashSize) (by
        intro h' fresh hr
        obtain ⟨d', heq, K', hpairs⟩ := K.del k hr
        refine ⟨some d', ⟨d', rfl, heq, hpairs⟩, ?_, fun hnone => by cases hnone⟩
        intro d₁ hd₁
        cases hd₁
        exact K')
  refine ⟨w', d', ?_, T, hdicts, hmade, hheld, hpairs⟩
  unfold Family.del
  rw [hd]
  show (dictDelCalls d k >>= _) = _
  rw [K.delCalls k]
  show (dictDel d w.heap k >>= _) = _
  rw [heq]
  exact hcharge

/-- **The `dict_get_*` wrappers** give back the reference they take. -/
theorem Sound.getVia {α : Type} (convert : Data → Int × α) (S : Sound w ents) {i : Nat} {d : Dict}
    (hd : w.dicts i = some d) (k : CStr) (hroom : ∀ a, dictGet d k = some a → a ≠ 0 → w.heap.Room a) :
    ∃ w', w.getVia convert i k = some w' ∧ Turned w ents w' ents ∧ w'.dicts = w.dicts := by
  obtain ⟨hi, K⟩ := S.keyed i d hd
  obtain ⟨vs, hvs, hcalls⟩ : ∃ vs : List Addr, ((ents i).map Prod.snd).Perm vs ∧
      ∀ rest, Exact w.heap w.destroyed (vs ++ rest) → ∃ h' fresh, Replayed w.heap w.destroyed (vs ++ rest)
        ((assocGet (ents i) k).elim [] fun v => [.ref v, .unref v]) (vs ++ rest) h' fresh := by
    cases hget : assocGet (ents i) k with
    | none =>
        refine ⟨(ents i).map Prod.snd, List.Perm.refl _, ?_⟩
        intro rest E
        exact ⟨w.heap, [], E.replay_none⟩
    | some v =>
        obtain ⟨others, hvs, -, -⟩ := assoc_values K.distinct hget
        refine ⟨v :: others, hvs, ?_⟩
        intro rest E
        have hin : v ∈ v :: (others ++ rest) := List.mem_cons_self
        have hfound : dictGet d k = some v := by
          rw [K.get, hget]
          rfl
        exact E.replay_swap (E.live v hin) (E.not_dead hin) (hroom v hfound (K.value_ne_zero hget))
  obtain ⟨h', od, w', ⟨rfl, ret, val, heq⟩, hcharge, T, hdicts, -, -⟩ := S.put hi _ hvs hvs hcalls
    (P := fun h' od => od = some d ∧ ∃ ret val, dictGetVia convert d w.heap k = some (ret, val, h')) (by
      intro h' fresh hr
      refine ⟨some d, ⟨rfl, K.getVia convert k hr⟩, ?_, fun hnone => by cases hnone⟩
      intro d₁ hd₁
      cases hd₁
      exact K)
  -- the dict is put back as it was
  have hput : w.putDict i (some d) = w := by
    unfold Family.putDict
    rw [← hd, Function.update_eq_self]
  rw [hput] at hcharge
  rw [Function.update_eq_self] at T
  rw [← hd, Function.update_eq_self] at hdicts
  refine ⟨w', ?_, T, hdicts⟩
  unfold Family.getVia
  rw [hd]
  show (dictGetCalls d k >>= _) = _
  rw [K.getCalls k]
  show (dictGetVia convert d w.heap k >>= _) = _
  rw [heq]
  exact hcharge

/-- A wrapper whose value cannot take another reference. -/
theorem Sound.getVia_full {α : Type} (convert : Data → Int × α) (S : Sound w ents) {i : Nat} {d : Dict}
    (hd : w.dicts i = some d) {k : CStr} {a : Addr} (hfound : dictGet d k = some a) (ha : a ≠ 0)
    (hfull : ¬ w.heap.Room a) : w.getVia convert i k = none := by
  have K := (S.keyed i d hd).2
  have hget : assocGet (ents i) k = some a := by
    rw [K.get, Option.some.injEq] at hfound
    cases hentry : assocGet (ents i) k with
    | none =>
        rw [hentry] at hfound
        exact absurd hfound.symm ha
    | some v =>
        rw [hentry] at hfound
        exact congrArg some hfound
  unfold Family.getVia
  rw [hd]
  show (dictGetCalls d k >>= _) = _
  rw [K.getCalls k]
  show (dictGetVia convert d w.heap k >>= _) = _
  rw [K.getVia_full convert hget hfull]
  rfl

/-- **`dict_destroy`** lets go of every value of the dict. -/
theorem Sound.destroy (S : Sound w ents) {i : Nat} {d : Dict} (hd : w.dicts i = some d) :
    ∃ w', w.destroy i = some w' ∧ Turned w ents w' (Function.update ents i []) ∧
      w'.dicts = Function.update w.dicts i none := by
  obtain ⟨hi, K⟩ := S.keyed i d hd
  obtain ⟨hcallsEq, hdestroy⟩ := K.destroy
  have hcalls : ∀ rest, Exact w.heap w.destroyed ((ents i).map Prod.snd ++ rest) →
      ∃ h' fresh, Replayed w.heap w.destroyed ((ents i).map Prod.snd ++ rest)
        (((ents i).map Prod.snd).map RefCall.unref) ([] ++ rest) h' fresh :=
    fun rest E => E.replay_unrefs
  obtain ⟨h', od, w', ⟨rfl, heq⟩, hcharge, T, hdicts, -, -⟩ := S.put hi [] (List.Perm.refl _)
    (List.Perm.refl _) hcalls (P := fun h' od => od = none ∧ dictDestroy d w.heap = some h') (by
      intro h' fresh hr
      refine ⟨none, ⟨rfl, hdestroy w.heap h' fresh hr⟩, ?_, fun _ => rfl⟩
      intro d₁ hd₁
      cases hd₁)
  refine ⟨w', ?_, T, hdicts⟩
  unfold Family.destroy
  rw [hd]
  show (dictDestroyCalls d >>= _) = _
  rw [hcallsEq]
  show (dictDestroy d w.heap >>= _) = _
  rw [heq]
  exact hcharge

/-! ## §4. Copying. -/

/-- A new dict has no entries. -/
theorem Sound.addDict (S : Sound w ents) {d : Dict} (K : Keyed d []) :
    Turned w ents (w.addDict d) ents ∧
      holders (w.addDict d).made ents (w.addDict d).held = holders w.made ents w.held := by
  have hfree : w.dicts w.made = none := by
    cases hm : w.dicts w.made with
    | none => rfl
    | some d₀ => exact absurd (S.keyed _ d₀ hm).1 (Nat.lt_irrefl _)
  -- its number is new, and a dict that is gone has no entries
  have hempty := S.gone _ hfree
  have hsame : holders (w.made + 1) ents w.held = holders w.made ents w.held := by
    unfold holders
    rw [List.range_succ, List.flatMap_append, List.flatMap_singleton, hempty]
    simp
  refine ⟨⟨⟨?_, ?_, ?_⟩, ?_⟩, hsame⟩
  · intro i d₁ hd
    replace hd : Function.update w.dicts w.made (some d) i = some d₁ := hd
    by_cases hi : i = w.made
    · subst hi
      rw [Function.update_self, Option.some.injEq] at hd
      rw [hempty, ← hd]
      exact ⟨Nat.lt_succ_self _, K⟩
    · rw [Function.update_of_ne hi] at hd
      obtain ⟨hlt, K₁⟩ := S.keyed i d₁ hd
      exact ⟨Nat.lt_succ_of_lt hlt, K₁⟩
  · intro i hd
    replace hd : Function.update w.dicts w.made (some d) i = none := hd
    by_cases hi : i = w.made
    · exact hi ▸ hempty
    · rw [Function.update_of_ne hi] at hd
      exact S.gone i hd
  · show Exact w.heap w.destroyed (holders (w.made + 1) ents w.held)
    rw [hsame]
    exact S.exact
  · show Settled w.destroyed w.destroyed _ (holders (w.made + 1) ents w.held)
    rw [hsame]
    exact Settled.nobody fun _ ha => ha

/-- What stays the same while the pairs of `src`, dict `i`, are copied into dict `j`,
from the family `w` on, with the pairs `ys` still to come. -/
structure Copying (w : Family) (ents : Nat → List (CStr × Addr)) (i j : Nat) (src dst : Dict)
    (ys : List Addr) (s : Family) (now : Nat → List (CStr × Addr)) : Prop where
  turned : Turned w ents s now
  hold : ∀ a ∈ holders s.made now s.held, a ∈ holders w.made ents w.held
  source : ∃ dict, s.dicts i = some dict ∧ dict.pairs = src.pairs
  target : ∃ new, s.dicts j = some new ∧ new.hashSize = dst.hashSize
  refs : ∀ a, (holders s.made now s.held).count a + (src.values ys).count a
    ≤ (holders w.made ents w.held).count a + ((ents i).map Prod.snd).count a
  pairs : (now j).length + ys.length ≤ (ents j).length + (ents i).length

/-- A counter that stops a copy on its way was bound to be reached. -/
theorem Copying.over {i j : Nat} {src dst : Dict} {x : Addr} {ys : List Addr} {s : Family}
    {now : Nat → List (CStr × Addr)} (C : Copying w ents i j src dst (x :: ys) s now) (S : Sound w ents)
    (hi : w.dicts i = some src) (hj : w.dicts j = some dst) {c : Pair} (hc : src.pairs x = some c)
    (hheld : c.value ∈ holders s.made now s.held) {new : Dict} (hnew : s.dicts j = some new)
    (hfull : ¬ CanCount new s.heap c.key c.value) : w.CopyOver src dst.count := by
  have S' := C.turned.sound
  have Ki := (S.keyed i src hi).2
  by_cases hroom : s.heap.Room c.value
  · -- the pairs: each copied pair adds one at most
    have hmax : int32Max ≤ new.count := Int.not_lt.mp fun hlt => hfull ⟨hroom, fun _ => hlt⟩
    have hcount := (S'.keyed j new hnew).2.count
    have hdst := (S.keyed j dst hj).2.count
    have hsrc := Ki.count
    have hpairs := C.pairs
    rw [List.length_cons] at hpairs
    exact Or.inr (by omega)
  · -- the references: each copied pair adds one at most
    obtain ⟨cell, hcell, hmax⟩ : ∃ cell, s.heap.cells c.value = some cell ∧ int32Max ≤ cell.refcount := by
      by_contra hno
      exact hroom fun cell hcell => Int.not_le.mp fun hle => hno ⟨cell, hcell, hle⟩
    have hin := C.hold _ hheld
    obtain ⟨cell₀, hcell₀⟩ := Option.ne_none_iff_exists'.mp (S.exact.live _ hin)
    have hrefs := S'.exact.exact _ cell hcell (S'.exact.not_dead hheld)
    have hrefs₀ := S.exact.exact _ cell₀ hcell₀ (S.exact.not_dead hin)
    have hbound := C.refs c.value
    rw [src.values_cons hc, List.count_cons_self] at hbound
    refine Or.inl ⟨c.value, cell₀, hcell₀, ?_⟩
    rw [Ki.keysOf_length]
    omega

/-- One pair is copied: its value is held by dict `i` all along. -/
theorem Copying.copy {i j : Nat} {src dst : Dict} {x : Addr} {ys : List Addr} {s : Family}
    {now : Nat → List (CStr × Addr)} (C : Copying w ents i j src dst (x :: ys) s now) (S₀ : Sound w ents)
    (hi : w.dicts i = some src) (hj : w.dicts j = some dst) {c : Pair} (hc : src.pairs x = some c)
    (hfits : HashFits dst.hashSize c.key) :
    (∃ s', s.set j (some c.key) c.value = some s' ∧ ∃ now', Copying w ents i j src dst ys s' now') ∨
      (w.CopyOver src dst.count ∧ s.set j (some c.key) c.value = none) := by
  obtain ⟨dict, hdict, hpairs₀⟩ := C.source
  obtain ⟨new, hnew, hsize₀⟩ := C.target
  have S := C.turned.sound
  obtain ⟨hilt, Ki⟩ := S.keyed i dict hdict
  obtain ⟨hjlt, Kj⟩ := S.keyed j new hnew
  have hentry := Ki.mem_entries (hpairs₀ ▸ hc)
  have hheld : c.value ∈ holders s.made now s.held :=
    mem_holders.mpr (Or.inl ⟨i, hilt, List.mem_map_of_mem hentry⟩)
  -- the value has a slot in dict `i`, so it is live
  have hlive := Family.live_iff.mpr ⟨S.exact.live _ hheld, S.exact.not_dead hheld⟩
  by_cases hcan : CanCount new s.heap c.key c.value
  case neg =>
    exact Or.inr ⟨C.over S₀ hi hj hc hheld hnew hcan, S.set_full hnew (some c.key) (S.live_ne_zero hlive) hcan⟩
  obtain ⟨s', new', hset, T, hdicts, hmade, hheld', hsize, hpairs, -⟩ :=
    S.set hnew (some c.key) hlive (hsize₀ ▸ hfits) hcan
  have hkey : (some c.key).getD (refKey c.value) = c.key := rfl
  rw [hkey] at T hpairs
  refine Or.inl ⟨s', hset, _, C.turned.trans T C.hold, ?_, ?_, ?_, ?_, ?_⟩
  · intro a ha
    apply C.hold
    rw [hmade, hheld'] at ha
    rcases mem_holders_assocSet ha with hold | rfl
    · exact hold
    · exact hheld
  · rw [hdicts]
    by_cases hij : i = j
    · -- a dict copied into itself: the key gets the value it has
      subst hij
      rw [hdict, Option.some.injEq] at hnew
      subst hnew
      exact ⟨new', Function.update_self _ _ _, (hpairs (assocGet_of_mem Ki.distinct hentry)).trans hpairs₀⟩
    · exact ⟨dict, by rw [Function.update_of_ne hij, hdict], hpairs₀⟩
  · exact ⟨new', by rw [hdicts, Function.update_self], hsize.trans hsize₀⟩
  · intro a
    have hbound := C.refs a
    have hholders := holders_count hjlt now s.held (assocSet (now j) c.key c.value) a
    have hslots := assocSet_count Kj.distinct c.key c.value a
    rw [src.values_cons hc, List.count_cons] at hbound
    simp only [beq_iff_eq] at hbound
    rw [hmade, hheld']
    omega
  · have hbound := C.pairs
    have hlength := length_assocSet (now j) c.key c.value
    rw [Function.update_self]
    rw [List.length_cons] at hbound
    split at hlength <;> omega

/-- **`dict_foreach (dict, _copy, new)`**. -/
theorem Sound.copyInto (S : Sound w ents) {i j : Nat} {dict new : Dict} (hi : w.dicts i = some dict)
    (hj : w.dicts j = some new) (hfits : dict.KeysFit new) :
    (∃ w' ents', w.copyInto i j = some w' ∧ Turned w ents w' ents') ∨
      (w.CopyOver dict new.count ∧ w.copyInto i j = none) := by
  obtain ⟨ms, ch, Sh, hms⟩ := (S.keyed i dict hi).2.shape
  have hstart : ∃ now, Copying w ents i j dict new ms w now := by
    refine ⟨ents, S.same, fun _ ha => ha, ⟨dict, hi, rfl⟩, ⟨new, hj, rfl⟩, fun a => ?_, ?_⟩
    · rw [← hms]
      exact Nat.le_refl _
    · rw [← hms, Dict.entries, List.length_map]
  -- along the walk the pairs of `dict` stay as they are
  have hpairs : ∀ ys s, (∃ now, Copying w ents i j dict new ys s now) →
      (s.dicts i).map Dict.pairs = some dict.pairs := by
    intro ys s hs
    obtain ⟨now, C⟩ := hs
    obtain ⟨d, hd, hpairs⟩ := C.source
    rw [hd, ← hpairs]
    rfl
  have hcopy : ∀ x ys s, (∃ now, Copying w ents i j dict new (x :: ys) s now) → ∀ c, dict.pairs x = some c →
      (∃ s', s.set j (some c.key) c.value = some s' ∧ ∃ now, Copying w ents i j dict new ys s' now) ∨
        (w.CopyOver dict new.count ∧ s.set j (some c.key) c.value = none) := by
    intro x ys s hs c hc
    obtain ⟨now, C⟩ := hs
    have hx : x ∈ ms := (Sh.live x).mp (by rw [hc]; rfl)
    exact C.copy S hi hj hc (hfits x (Sh.below x hx) c hc)
  have hdef : w.copyInto i j = dictForeach (fun w => (w.dicts i).map Dict.pairs)
      (fun w key value => w.set j (some key) value) dict.brk dict.membersList w := by
    unfold Family.copyInto
    rw [hi]
    rfl
  rw [hdef]
  rcases dictForeach_walk (fun w key value => w.set j (some key) value)
      (fun ys s => ∃ now, Copying w ents i j dict new ys s now) hpairs hcopy Sh.list.chain Sh.length_le hstart with
    ⟨w', hrun, now, C⟩ | hstuck
  · exact Or.inl ⟨w', now, hrun, C.turned⟩
  · exact Or.inr hstuck

/-- **`dict_copy` and `dict_copy_with_ref` into a new dict.** -/
theorem Sound.copyNew (S : Sound w ents) {i : Nat} {dict new : Dict} (hi : w.dicts i = some dict)
    (K : Keyed new []) (hfits : dict.KeysFit new) :
    (∃ w' ents', (w.addDict new).copyInto i w.made = some w' ∧ Turned w ents w' ents') ∨
      (w.CopyOver dict 0 ∧ (w.addDict new).copyInto i w.made = none) := by
  obtain ⟨T, hsame⟩ := S.addDict K
  have hne : i ≠ w.made := Nat.ne_of_lt (S.keyed i dict hi).1
  have hi' : (w.addDict new).dicts i = some dict := by
    show Function.update w.dicts w.made (some new) i = _
    rw [Function.update_of_ne hne, hi]
  have hj' : (w.addDict new).dicts w.made = some new := Function.update_self _ _ _
  rcases T.sound.copyInto hi' hj' hfits with ⟨w', ents', hcopy, T'⟩ | ⟨hover, hnone⟩
  · exact Or.inl ⟨w', ents', hcopy, T.trans T' fun a ha => hsame ▸ ha⟩
  · have hzero : new.count = 0 := K.count
    rw [hzero] at hover
    exact Or.inr ⟨hover, hnone⟩

/-! ## §5. Callers. -/

/-- A caller takes a reference. -/
theorem Sound.ref (S : Sound w ents) {a : Addr} (ha : w.live a = true) (hroom : w.heap.Room a) :
    ∃ w', w.ref a = some w' ∧ Turned w ents w' ents ∧ w'.dicts = w.dicts ∧ w'.made = w.made ∧
      w'.held = a :: w.held := by
  obtain ⟨hcell, hdead⟩ := Family.live_iff.mp ha
  have ha0 := S.live_ne_zero ha
  obtain ⟨h', href, -⟩ := S.exact.ref hcell hdead hroom
  obtain ⟨h₁, R⟩ := S.exact.replay_ref hcell hdead hroom
  obtain rfl : h₁ = h' := by
    have hcalls := R.calls
    simp only [replay, href, Option.bind_eq_bind, Option.bind_some, Option.some.injEq,
      Prod.mk.injEq] at hcalls
    exact hcalls.1.symm
  have hperm : (holders w.made ents (a :: w.held)).Perm (a :: holders w.made ents w.held) :=
    List.perm_middle
  have R' := R.perm (List.Perm.refl _) hperm
  refine ⟨{ w with heap := h₁, held := a :: w.held, destroyed := w.destroyed ++ [] }, ?_,
    ⟨⟨S.keyed, S.gone, R'.exact⟩, R'.settled⟩, rfl, rfl, rfl⟩
  unfold Family.ref
  rw [href]
  show Family.charge { w with held := if a = 0 then w.held else a :: w.held } [.ref a] h₁ = _
  rw [if_neg ha0]
  unfold Family.charge
  show (replay w.heap [.ref a] >>= _) = _
  rw [R.calls]
  rfl

/-- A reference that cannot be counted. -/
theorem Sound.ref_full (S : Sound w ents) {a : Addr} (ha : w.live a = true) (hfull : ¬ w.heap.Room a) :
    w.ref a = none := by
  unfold Family.ref
  rw [dataRef_full (S.live_ne_zero ha) hfull]
  rfl

/-- A caller gives back a reference it holds. -/
theorem Sound.unref (S : Sound w ents) {a : Addr} (ha : a ∈ w.held) :
    ∃ w', w.unref a = some w' ∧ Turned w ents w' ents ∧ w'.dicts = w.dicts ∧ w'.made = w.made ∧
      w'.held = w.held.erase a := by
  have hperm : (holders w.made ents w.held).Perm ([a] ++ holders w.made ents (w.held.erase a)) :=
    ((List.perm_cons_erase ha).append_left _).trans List.perm_middle
  have E := S.exact.perm hperm.symm
  obtain ⟨h', hunref, -⟩ := Exact.unref E
  obtain ⟨h₁, fresh, R⟩ := E.replay_unrefs
  obtain rfl : h₁ = h' := by
    obtain ⟨h₂, dead₁, hunref₂, hnil⟩ := replay_unref R.calls
    obtain rfl := replay_nil hnil
    rw [hunref, Option.some.injEq] at hunref₂
    exact hunref₂.symm
  have R' := R.perm hperm (List.Perm.refl _)
  refine ⟨{ w with heap := h₁, held := w.held.erase a, destroyed := w.destroyed ++ fresh }, ?_,
    ⟨⟨S.keyed, S.gone, R'.exact⟩, R'.settled⟩, rfl, rfl, rfl⟩
  unfold Family.unref
  rw [hunref]
  show Family.charge { w with held := w.held.erase a } [.unref a] h₁ = _
  unfold Family.charge
  show (replay w.heap [.unref a] >>= _) = _
  rw [show replay w.heap [.unref a] = some (h₁, fresh) from R.calls]
  rfl

/-- `dict_set` of NULL. -/
theorem Family.set_null {i : Nat} {d : Dict} (hd : w.dicts i = some d) (key : Option CStr) :
    w.set i key 0 = some w := by
  unfold Family.set
  rw [hd]
  show (w.putDict i (some d)).charge [] w.heap = some w
  have hput : w.putDict i (some d) = w := by
    unfold Family.putDict
    rw [← hd, Function.update_eq_self]
  rw [hput]
  unfold Family.charge
  show some { w with heap := w.heap, destroyed := w.destroyed ++ [] } = some w
  rw [List.append_nil]

/-- A new value is held by nobody. -/
theorem Sound.newData (S : Sound w ents) (c : Data) :
    Turned w ents { w with heap := (w.heap.alloc { c with refcount := 0 }).1 } ents where
  sound := ⟨S.keyed, S.gone, S.exact.alloc rfl⟩
  settled := Settled.nobody fun _ ha => ha

/-- The caller of `dict_set` has a dict, and a value that is live or `NULL`. -/
theorem promised_set {α : Type} {i : Nat} {key : Option CStr} {value : Addr}
    (h : promised w (.set i key value : FamilyOp α) = true) :
    ∃ d, w.dicts i = some d ∧ (value = 0 ∨ w.live value = true) := by
  replace h : ((w.dicts i).isSome && (decide (value = 0) || w.live value)) = true := h
  rw [Bool.and_eq_true, Bool.or_eq_true, decide_eq_true_iff] at h
  obtain ⟨d, hd⟩ := Option.isSome_iff_exists.mp h.1
  exact ⟨d, hd, h.2⟩

/-- A caller that copies has the dict, and the one it copies to if it names one. -/
theorem promised_copies {i : Nat} {new : Option Nat}
    (h : ((w.dicts i).isSome && new.all fun j => (w.dicts j).isSome) = true) :
    ∃ d, w.dicts i = some d ∧ ∀ j, new = some j → ∃ e, w.dicts j = some e := by
  rw [Bool.and_eq_true] at h
  obtain ⟨d, hd⟩ := Option.isSome_iff_exists.mp h.1
  refine ⟨d, hd, ?_⟩
  intro j hj
  subst hj
  exact Option.isSome_iff_exists.mp h.2

end

/-! ## §6. Runs. -/

/-- **One operation**: it comes through, the family is sound after it, and it
destroys exactly the values whose references have gone; or a counter is at its
end, and the operation has no outcome. -/
theorem family_step {α : Type} (w : Family) (o : FamilyOp α) (hw : ∃ ents, Sound w ents)
    (ha : (fittingComponent α).allowed w o) :
    (∃ w', familyStep w o = some w' ∧ (∃ ents', Sound w' ents') ∧
      ∀ a, a ∈ w'.destroyed ↔ a ∈ w.destroyed ∨ (0 < w.refs a ∧ ¬ 0 < w'.refs a)) ∨
      (w.AtIntMax o ∧ familyStep w o = none) := by
  obtain ⟨ents, S⟩ := hw
  obtain ⟨hpromise, hfit⟩ := ha
  suffices hturn : (∃ w' ents', familyStep w o = some w' ∧ Turned w ents w' ents') ∨
      (w.AtIntMax o ∧ familyStep w o = none) by
    refine hturn.imp_left ?_
    rintro ⟨w', ents', hstep, T⟩
    refine ⟨w', hstep, ⟨ents', T.sound⟩, ?_⟩
    intro a
    rw [S.refs_pos, T.sound.refs_pos]
    exact T.settled a
  cases o with
  | getNewDictFull sizeHint =>
      exact Or.inl ⟨_, ents, rfl, (S.addDict (keyed_new hfit)).1⟩
  | dictNew =>
      exact Or.inl ⟨_, ents, rfl, (S.addDict (keyed_new (Int.le_refl 1))).1⟩
  | newData c => exact Or.inl ⟨_, ents, rfl, S.newData c⟩
  | set i key value =>
      obtain ⟨d, hd, hvalue⟩ := promised_set hpromise
      rcases hvalue with rfl | hv
      · exact Or.inl ⟨w, ents, Family.set_null hd key, S.same⟩
      · by_cases hcan : CanCount d w.heap (key.getD (refKey value)) value
        · obtain ⟨w', d', hset, T, -⟩ := S.set hd key hv (hfit d hd) hcan
          exact Or.inl ⟨w', _, hset, T⟩
        · exact Or.inr ⟨⟨d, hd, hcan⟩, S.set_full hd key (S.live_ne_zero hv) hcan⟩
  | del i key =>
      obtain ⟨d, hd⟩ := Option.isSome_iff_exists.mp hpromise
      obtain ⟨w', d', hdel, T, -⟩ := S.del hd key
      exact Or.inl ⟨w', _, hdel, T⟩
  | getVia convert i key =>
      obtain ⟨d, hd⟩ := Option.isSome_iff_exists.mp hpromise
      by_cases hroom : ∀ a, dictGet d key = some a → a ≠ 0 → w.heap.Room a
      · obtain ⟨w', hget, T, -⟩ := S.getVia convert hd key hroom
        exact Or.inl ⟨w', ents, hget, T⟩
      · simp only [not_forall, exists_prop] at hroom
        obtain ⟨a, hfound, ha, hfull⟩ := hroom
        exact Or.inr ⟨⟨d, a, hd, hfound, hfull⟩, S.getVia_full convert hd hfound ha hfull⟩
  | copy i new =>
      obtain ⟨d, hd, hnew⟩ := promised_copies hpromise
      show (∃ w' ents', (w.dicts i >>= _) = some w' ∧ _) ∨ (_ ∧ (w.dicts i >>= _) = none)
      rw [hd]
      cases new with
      | none =>
          have K := (S.keyed i d hd).2
          -- the new dict has as many buckets, so the keys fit it as well
          have hfits : d.KeysFit (getNewDictFull d.hashSize) := fun p _ pair hp =>
            K.fits _ (List.mem_map_of_mem (K.mem_entries hp))
          exact (S.copyNew hd (keyed_new K.size) hfits).imp_right fun h => ⟨⟨d, hd, h.1⟩, h.2⟩
      | some j =>
          obtain ⟨e, he⟩ := hnew j rfl
          have hcount : ((some j).bind w.dicts).elim 0 Dict.count = e.count := by
            rw [Option.bind_some, he]
            rfl
          exact (S.copyInto hd he (hfit j rfl d hd e he)).imp_right fun h => ⟨⟨d, hd, hcount ▸ h.1⟩, h.2⟩
  | copyWithRef i new =>
      obtain ⟨d, hd, hnew⟩ := promised_copies hpromise
      cases new with
      | none =>
          exact (S.copyNew hd (keyed_new (Int.le_refl 1)) fun _ _ pair _ => hashFits_one pair.key).imp_right
            fun h => ⟨⟨d, hd, h.1⟩, h.2⟩
      | some j =>
          obtain ⟨e, he⟩ := hnew j rfl
          have hcount : ((some j).bind w.dicts).elim 0 Dict.count = e.count := by
            rw [Option.bind_some, he]
            rfl
          exact (S.copyInto hd he (hfit j rfl d hd e he)).imp_right fun h => ⟨⟨d, hd, hcount ▸ h.1⟩, h.2⟩
  | ref a =>
      by_cases hroom : w.heap.Room a
      · obtain ⟨w', href, T, -⟩ := S.ref hpromise hroom
        exact Or.inl ⟨w', ents, href, T⟩
      · exact Or.inr ⟨hroom, S.ref_full hpromise hroom⟩
  | unref a =>
      obtain ⟨w', hunref, T, -⟩ := S.unref (List.contains_iff_mem.mp hpromise)
      exact Or.inl ⟨w', ents, hunref, T⟩
  | destroy i =>
      obtain ⟨d, hd⟩ := Option.isSome_iff_exists.mp hpromise
      obtain ⟨w', hdestroy, T, -⟩ := S.destroy hd
      exact Or.inl ⟨w', _, hdestroy, T⟩

/-- **The references are exact after a run**: and the values destroyed so far, each
of them once, are exactly those that were referred to at some point and are not
any more. -/
structure Accounted {α : Type} (ops : List (FamilyOp α)) (w : Family) : Prop where
  exact : RefsExact w
  destroyed : ∀ a, a ∈ w.destroyed ↔ ¬ 0 < w.refs a ∧ ∃ pre post u, ops = pre ++ post ∧
    (fittingComponent α).run Family.start pre = some u ∧ 0 < u.refs a

theorem sound_step {α : Type} (w : Family) (o : FamilyOp α) (w' : Family) (hw : ∃ ents, Sound w ents)
    (ha : (fittingComponent α).allowed w o) (hstep : (fittingComponent α).step w o = some w') :
    (∃ ents', Sound w' ents') ∧
      ∀ a, a ∈ w'.destroyed ↔ a ∈ w.destroyed ∨ (0 < w.refs a ∧ ¬ 0 < w'.refs a) := by
  replace hstep : familyStep w o = some w' := hstep
  rcases family_step w o hw ha with ⟨w₁, h, hw', hdead⟩ | ⟨-, hnone⟩
  · obtain rfl : w₁ = w' := Option.some.inj (h.symm.trans hstep)
    exact ⟨hw', hdead⟩
  · rw [hnone] at hstep
    cases hstep

/-- At the end of a run that has one. -/
theorem accounted_of_run {α : Type} {ops : List (FamilyOp α)} (hl : (fittingComponent α).Legal Family.start ops)
    {w : Family} (hrun : (fittingComponent α).run Family.start ops = some w) : Accounted ops w := by
  have hstart : ∃ ents, Sound Family.start ents := ⟨_, sound_start⟩
  have hend : ∃ ents, Sound w ents :=
    (fittingComponent α).run_safe (fun w o w' hw ha h => (sound_step w o w' hw ha h).1) hstart hl hrun
  obtain ⟨ents, S⟩ := hend
  refine ⟨S.refsExact, fun a => ?_⟩
  -- a destroyed value is referred to by nobody, and stays destroyed
  have hover : ∀ w, (∃ ents, Sound w ents) → a ∈ w.destroyed → ¬ 0 < w.refs a := by
    intro w hw ha
    obtain ⟨ents, S⟩ := hw
    rw [S.refs_pos]
    exact S.exact.unheld a ha
  -- by induction on the run: destroyed at the step that dropped the last reference
  have hdropped := (fittingComponent α).run_dropped hover
    (fun w o w' hw ha h => ⟨(sound_step w o w' hw ha h).1, (sound_step w o w' hw ha h).2 a⟩) hstart hl hrun
  have hnone : a ∉ Family.start.destroyed := List.not_mem_nil
  rw [hdropped, or_iff_right hnone]

/-- **EXACT REFERENCES.**  In every run in which callers keep their promises and
the keys that are set fit their dicts, every live value counts exactly its
(dict, key) slots and the references callers hold, and is destroyed exactly when
they are gone.  A run ends early only at a counter that is `INT_MAX`. -/
theorem references_exact {α : Type} {ops : List (FamilyOp α)}
    (hl : (fittingComponent α).Legal Family.start ops) :
    (∃ w, (fittingComponent α).run Family.start ops = some w ∧ Accounted ops w) ∨
      ∃ pre o post w, ops = pre ++ o :: post ∧ (fittingComponent α).run Family.start pre = some w ∧
        Accounted pre w ∧ w.AtIntMax o ∧ (fittingComponent α).step w o = none := by
  have hstep : ∀ w o, (∃ ents, Sound w ents) → (fittingComponent α).allowed w o →
      (∃ w', (fittingComponent α).step w o = some w' ∧ ∃ ents', Sound w' ents') ∨
        (w.AtIntMax o ∧ (fittingComponent α).step w o = none) := by
    intro w o hw ha
    refine (family_step w o hw ha).imp_left ?_
    rintro ⟨w', h, hw', -⟩
    exact ⟨w', h, hw'⟩
  rcases (fittingComponent α).run_inv_or hstep ops Family.start ⟨_, sound_start⟩ hl with
    ⟨w, hrun, -⟩ | ⟨pre, o, post, w, rfl, hrun, -, hstuck⟩
  · exact Or.inl ⟨w, hrun, accounted_of_run hl hrun⟩
  · exact Or.inr ⟨pre, o, post, w, rfl, hrun, accounted_of_run hl.split.1 hrun, hstuck⟩

/-- A value is set twice under one key, copied with its dict, and let go. -/
def setTwiceRun : List (FamilyOp Unit) :=
  [.dictNew, .newData Data.zero, .ref 1, .set 0 (some textKey) 1, .set 0 (some textKey) 1,
    .copy 0 none, .unref 1, .del 0 textKey, .destroy 1]

theorem references_exact_set_twice :
    ∃ w, (fittingComponent Unit).run Family.start setTwiceRun = some w ∧ Accounted setTwiceRun w ∧
      w.destroyed = [1] := by
  have hend : ((fittingComponent Unit).run Family.start setTwiceRun).map Family.destroyed = some [1] := by
    decide +kernel
  have hlegal : (fittingComponent Unit).Legal Family.start setTwiceRun :=
    (fittingComponent Unit).legal_of_check (by decide +kernel)
  rcases references_exact hlegal with ⟨w, hrun, A⟩ | ⟨pre, o, post, w, hops, hpre, -, -, hstuck⟩
  · rw [hrun, Option.map_some, Option.some.injEq] at hend
    exact ⟨w, hrun, A, hend⟩
  · rw [hops, (fittingComponent Unit).run_stuck hpre hstuck] at hend
    cases hend

/-- The text `be`: its hash has the top bit set. -/
def beKey : CStr := ⟨[98, 101], by decide⟩

/-- One value, set twice under one key of a dict with three buckets. -/
def doubledRun : List (FamilyOp Unit) :=
  [.getNewDictFull 3, .newData Data.zero, .set 0 (some beKey) 1, .set 0 (some beKey) 1]

/-- **A key that does not fit**: the second set does not find the first pair and
links another, so one slot is counted twice. -/
theorem doubled_key_miscounts :
    ¬ ∀ ops : List (FamilyOp Unit), (familyComponent Unit).Legal Family.start ops →
      ∃ w, (familyComponent Unit).run Family.start ops = some w ∧ RefsExact w := by
  intro hall
  obtain ⟨w, hrun, R⟩ := hall doubledRun ((familyComponent Unit).legal_of_check (by decide +kernel))
  have hend : ((familyComponent Unit).run Family.start doubledRun).all (fun w =>
      decide ((w.heap.cells 1).map Data.refcount = some 2 ∧ 1 ∉ w.destroyed ∧
        w.slots 1 + w.held.count 1 = 1)) = true := by decide +kernel
  rw [hrun, Option.all_some, decide_eq_true_iff] at hend
  obtain ⟨hcell, hlive, hslots⟩ := hend
  obtain ⟨c, hc, hcount⟩ := Option.map_eq_some_iff.mp hcell
  have hexact := R.counts 1 c hc hlive
  omega

end LzLib.Dict
