/-
  LzLib.Dict.Merging
  ──────────────────
  **COPYING ONE DICT INTO ANOTHER.**

  `dict_copy` and `dict_copy_with_ref` into a dict that exists walk the pairs
  of the first dict and set each in the second, which shares the values from
  then on.  The walk keeps one equation (`Merging`): the entries the second
  dict has by now, with the pairs that are left set on top of them, are the
  merged entries.  Afterwards each dict holds its values by references of its
  own, so nothing done to one shows in the other.  Copies, and all that follows,
  go on as long as no counter is at its end (`Family.AtIntMax`).

  Main result: `merging_copy`.
-/
import LzLib.Dict.FamilyRuns

namespace LzLib.Dict

open LzLib.Foundation LzLib.Hash

/-! ## §1. The statements. -/

/-- The operations on dicts of `dict_new`: every one but the copies. -/
def FamilyOp.plain {α : Type} : FamilyOp α → Bool
  | .dictNew | .newData _ | .set _ _ _ | .del _ _ | .getVia _ _ _ | .ref _ | .unref _ | .destroy _ => true
  | .getNewDictFull _ | .copy _ _ | .copyWithRef _ _ => false

/-- The dict that an operation writes to. -/
def FamilyOp.target {α : Type} : FamilyOp α → Option Nat
  | .set i _ _ | .del i _ | .destroy i => some i
  | .copy _ new | .copyWithRef _ new => new
  | _ => none

/-- **Dict `m` is what it was**, and the values it has are live before and
after. -/
def Undisturbed (w w' : Family) (m : Nat) : Prop :=
  ∀ d, w.dicts m = some d → w'.dicts m = some d ∧
    ∀ key a, dictGet d key = some a → a ≠ 0 → w.live a = true ∧ w'.live a = true

/-- **No operation on one dict disturbs another**, wherever the calls go on from
`w`; and none goes wrong, unless a counter is at its end. -/
def Independent (α : Type) (w : Family) : Prop :=
  ∀ (more : List (FamilyOp α)) (w₁ : Family), (∀ o ∈ more, o.plain = true) → (familyComponent α).Legal w more →
    (familyComponent α).run w more = some w₁ →
      ∀ o : FamilyOp α, o.plain = true → promised w₁ o = true →
        (∃ w₂, familyStep w₁ o = some w₂ ∧ ∀ m, o.target ≠ some m → Undisturbed w₁ w₂ m) ∨
          (w₁.AtIntMax o ∧ familyStep w₁ o = none)

/-- **`new` is `dst` with the pairs of `src` on top.** -/
structure Merged (src dst new : Dict) : Prop where
  defined : ∀ key, dictGet new key ≠ none
  get : ∀ key, dictGet new key = if dictGet src key = some 0 then dictGet dst key else dictGet src key
  count : ∃ keys : List CStr, keys.Nodup ∧
    (∀ key, key ∈ keys ↔ dictGet src key ≠ some 0 ∨ dictGet dst key ≠ some 0) ∧ new.count = keys.length

/-! ## §2. A family of one-bucket dicts. -/

/-- **The invariant**: the family is sound, and its dicts have one bucket. -/
structure Whole (w : Family) (ents : Nat → List (CStr × Addr)) : Prop where
  sound : Sound w ents
  oneBucket : ∀ i d, w.dicts i = some d → d.hashSize = 1

section

variable {w w' : Family} {ents : Nat → List (CStr × Addr)}

/-- The value that a dict has for a key is held, so it is live. -/
theorem Sound.get_live (S : Sound w ents) {m : Nat} {d : Dict} (hd : w.dicts m = some d) {key : CStr}
    {a : Addr} (hget : dictGet d key = some a) (ha : a ≠ 0) : w.live a = true := by
  obtain ⟨hm, K⟩ := S.keyed m d hd
  rw [K.get key, Option.some.injEq] at hget
  cases hentry : assocGet (ents m) key with
  | none =>
      rw [hentry] at hget
      exact absurd hget.symm ha
  | some v =>
      rw [hentry] at hget
      have hva : v = a := hget
      have hheld : a ∈ holders w.made ents w.held := by
        apply mem_holders.mpr
        refine Or.inl ⟨m, hm, ?_⟩
        rw [← hva]
        exact List.mem_map_of_mem (assocGet_mem hentry)
      exact Family.live_iff.mpr ⟨S.exact.live a hheld, S.exact.not_dead hheld⟩

/-- A dict that stays in a sound family is undisturbed. -/
theorem Sound.undisturbed (S : Sound w ents) {ents' : Nat → List (CStr × Addr)} (S' : Sound w' ents')
    {m : Nat} (hsame : ∀ d, w.dicts m = some d → w'.dicts m = some d) : Undisturbed w w' m := by
  intro d hd
  refine ⟨hsame d hd, ?_⟩
  intro key a hget ha
  exact ⟨S.get_live hd hget ha, S'.get_live (hsame d hd) hget ha⟩

theorem Whole.same (W : Whole w ents) (S : Sound w' ents) (hdicts : w'.dicts = w.dicts) : Whole w' ents where
  sound := S
  oneBucket i d hd := W.oneBucket i d (hdicts ▸ hd)

/-- One dict has changed. -/
theorem Whole.put (W : Whole w ents) {i : Nat} {es : List (CStr × Addr)} {od : Option Dict}
    (S : Sound w' (Function.update ents i es)) (hdicts : w'.dicts = Function.update w.dicts i od)
    (hod : ∀ d, od = some d → d.hashSize = 1) : Whole w' (Function.update ents i es) where
  sound := S
  oneBucket m d hd := by
    rw [hdicts] at hd
    by_cases hm : m = i
    · subst hm
      rw [Function.update_self] at hd
      exact hod d hd
    · rw [Function.update_of_ne hm] at hd
      exact W.oneBucket m d hd

/-- A dict of `dict_new`. -/
theorem Whole.addNew (W : Whole w ents) : Whole (w.addDict dictNew) ents := by
  have hfree : w.dicts w.made = none := by
    cases hm : w.dicts w.made with
    | none => rfl
    | some d => exact absurd (W.sound.keyed _ d hm).1 (Nat.lt_irrefl _)
  have hempty := W.sound.gone _ hfree
  have K : Keyed dictNew [] := keyed_new (Int.le_refl 1)
  have hents : Function.update ents w.made [] = ents := by rw [← hempty, Function.update_eq_self]
  have S : Sound (w.addDict dictNew) (Function.update ents w.made []) := by
    rw [hents]
    exact (W.sound.addDict K).1.sound
  have W' := W.put S rfl (by
    intro d hd
    cases hd
    rfl)
  rwa [hents] at W'

theorem whole_start : Whole Family.start fun _ => [] where
  sound := sound_start
  oneBucket _ _ hd := by cases hd

/-- **One operation** keeps the invariant, and leaves every dict alone that it is
not for; or a counter is at its end. -/
theorem Whole.step {α : Type} (W : Whole w ents) {o : FamilyOp α} (hplain : o.plain = true)
    (ha : promised w o = true) :
    (∃ w' ents', familyStep w o = some w' ∧ Whole w' ents' ∧ ∀ m, o.target ≠ some m → Undisturbed w w' m) ∨
      (w.AtIntMax o ∧ familyStep w o = none) := by
  -- it is enough to see what becomes of the dicts
  suffices hturn : (∃ w' ents', familyStep w o = some w' ∧ Whole w' ents' ∧
      ∀ m, o.target ≠ some m → ∀ d, w.dicts m = some d → w'.dicts m = some d) ∨
      (w.AtIntMax o ∧ familyStep w o = none) by
    refine hturn.imp_left ?_
    intro h
    obtain ⟨w', ents', hstep, W', hsame⟩ := h
    exact ⟨w', ents', hstep, W', fun m hm => W.sound.undisturbed W'.sound (hsame m hm)⟩
  -- an operation on dict `i` leaves the others alone
  have hother : ∀ {i m : Nat} {d : Dict} {od : Option Dict}, some i ≠ some m → w.dicts m = some d →
      Function.update w.dicts i od m = some d := by
    intro i m d od hne hd
    have hmi : m ≠ i := fun e => hne (congrArg some e.symm)
    rw [Function.update_of_ne hmi, hd]
  cases o with
  | getNewDictFull sizeHint => cases hplain
  | copy i new => cases hplain
  | copyWithRef i new => cases hplain
  | dictNew =>
      refine Or.inl ⟨_, ents, rfl, W.addNew, ?_⟩
      intro m _ d hd
      have hm : m ≠ w.made := Nat.ne_of_lt (W.sound.keyed m d hd).1
      show Function.update w.dicts w.made (some dictNew) m = _
      rw [Function.update_of_ne hm, hd]
  | newData c =>
      exact Or.inl ⟨_, ents, rfl, W.same (W.sound.newData c).sound rfl, fun _ _ _ hd => hd⟩
  | set i key value =>
      obtain ⟨d, hd, hvalue⟩ := promised_set ha
      rcases hvalue with rfl | hv
      · exact Or.inl ⟨w, ents, Family.set_null hd key, W, fun _ _ _ hd => hd⟩
      · by_cases hcan : CanCount d w.heap (key.getD (refKey value)) value
        · have hsize := W.oneBucket i d hd
          obtain ⟨w', d', hset, T, hdicts, -, -, hsize', -⟩ :=
            W.sound.set hd key hv (by rw [hsize]; exact hashFits_one _) hcan
          refine Or.inl ⟨w', _, hset, W.put T.sound hdicts ?_, ?_⟩
          · intro d₁ hd₁
            cases hd₁
            exact hsize'.trans hsize
          · intro m hm d₁ hd₁
            rw [hdicts]
            exact hother hm hd₁
        · exact Or.inr ⟨⟨d, hd, hcan⟩, W.sound.set_full hd key (W.sound.live_ne_zero hv) hcan⟩
  | del i key =>
      obtain ⟨d, hd⟩ := Option.isSome_iff_exists.mp ha
      obtain ⟨w', d', hdel, T, hdicts, -, -, -, hsize'⟩ := W.sound.del hd key
      refine Or.inl ⟨w', _, hdel, W.put T.sound hdicts ?_, ?_⟩
      · intro d₁ hd₁
        cases hd₁
        exact hsize'.trans (W.oneBucket i d hd)
      · intro m hm d₁ hd₁
        rw [hdicts]
        exact hother hm hd₁
  | getVia convert i key =>
      obtain ⟨d, hd⟩ := Option.isSome_iff_exists.mp ha
      by_cases hroom : ∀ a, dictGet d key = some a → a ≠ 0 → w.heap.Room a
      · obtain ⟨w', hget, T, hdicts⟩ := W.sound.getVia convert hd key hroom
        exact Or.inl ⟨w', ents, hget, W.same T.sound hdicts, fun _ _ _ hd => hdicts ▸ hd⟩
      · simp only [not_forall, exists_prop] at hroom
        obtain ⟨a, hfound, hne, hfull⟩ := hroom
        exact Or.inr ⟨⟨d, a, hd, hfound, hfull⟩, W.sound.getVia_full convert hd hfound hne hfull⟩
  | ref a =>
      by_cases hroom : w.heap.Room a
      · obtain ⟨w', href, T, hdicts, -⟩ := W.sound.ref ha hroom
        exact Or.inl ⟨w', ents, href, W.same T.sound hdicts, fun _ _ _ hd => hdicts ▸ hd⟩
      · exact Or.inr ⟨hroom, W.sound.ref_full ha hroom⟩
  | unref a =>
      obtain ⟨w', hunref, T, hdicts, -⟩ := W.sound.unref (List.contains_iff_mem.mp ha)
      exact Or.inl ⟨w', ents, hunref, W.same T.sound hdicts, fun _ _ _ hd => hdicts ▸ hd⟩
  | destroy i =>
      obtain ⟨d, hd⟩ := Option.isSome_iff_exists.mp ha
      obtain ⟨w', hdestroy, T, hdicts⟩ := W.sound.destroy hd
      refine Or.inl ⟨w', _, hdestroy, W.put T.sound hdicts (fun _ hnone => by cases hnone), ?_⟩
      intro m hm d₁ hd₁
      rw [hdicts]
      exact hother hm hd₁

/-- **A run** of such operations. -/
theorem Whole.run {α : Type} {ops : List (FamilyOp α)} : ∀ {w : Family} {ents : Nat → List (CStr × Addr)},
    Whole w ents → (∀ o ∈ ops, o.plain = true) → (familyComponent α).Legal w ops →
    ∀ {w'}, (familyComponent α).run w ops = some w' → ∃ ents', Whole w' ents' := by
  induction ops with
  | nil =>
      intro w ents W _ _ w' hrun
      cases hrun
      exact ⟨ents, W⟩
  | cons o ops ih =>
      intro w ents W hplain hl w' hrun
      obtain ⟨w₁, h₁, hrest⟩ := Option.bind_eq_some_iff.mp hrun
      replace h₁ : familyStep w o = some w₁ := h₁
      rcases W.step (hplain o List.mem_cons_self) hl.1 with ⟨w₂, ents₂, hstep, W₂, -⟩ | ⟨-, hnone⟩
      · obtain rfl : w₂ = w₁ := Option.some.inj (hstep.symm.trans h₁)
        exact ih W₂ (fun o ho => hplain o (List.mem_cons_of_mem _ ho)) (hl.2 w₂ hstep) hrest
      · rw [hnone] at h₁
        cases h₁

/-- What goes on from such a family is undisturbed. -/
theorem Whole.independent (α : Type) (W : Whole w ents) : Independent α w := by
  intro more w₁ hplain hl hrun o ho ha
  obtain ⟨ents₁, W₁⟩ := W.run hplain hl hrun
  refine (W₁.step ho ha).imp_left ?_
  intro h
  obtain ⟨w₂, -, hstep, -, hsame⟩ := h
  exact ⟨w₂, hstep, hsame⟩

/-! ## §3. The walk. -/

/-- Where the walk of a copy stands, with the pairs `ys` still to come: dict `j`
has the entries `es`, and will have the entries `goal`. -/
structure Merging (w : Family) (ents : Nat → List (CStr × Addr)) (j : Nat) (src : Dict)
    (goal : List (CStr × Addr)) (ys : List Addr) (s : Family) (es : List (CStr × Addr)) (new : Dict) :
    Prop where
  sound : Sound s (Function.update ents j es)
  dicts : s.dicts = Function.update w.dicts j (some new)
  oneBucket : new.hashSize = 1
  goal : (src.entries ys).foldl (fun l e => assocSet l e.1 e.2) es = goal

/-- One pair is copied, if it can be counted. -/
theorem Merging.copy {i j : Nat} (hne : i ≠ j) {src : Dict} (hi : w.dicts i = some src)
    {goal : List (CStr × Addr)} {x : Addr} {ys : List Addr} {s : Family} {es : List (CStr × Addr)}
    {new : Dict} (M : Merging w ents j src goal (x :: ys) s es new) {c : Pair} (hc : src.pairs x = some c) :
    (∃ s', s.set j (some c.key) c.value = some s' ∧ ∃ es' new', Merging w ents j src goal ys s' es' new') ∨
      (True ∧ s.set j (some c.key) c.value = none) := by
  have S := M.sound
  have hsrc : s.dicts i = some src := by rw [M.dicts, Function.update_of_ne hne, hi]
  have hnew : s.dicts j = some new := by rw [M.dicts, Function.update_self]
  obtain ⟨hilt, K⟩ := S.keyed i src hsrc
  -- dict `i` holds the value
  have hheld : c.value ∈ holders s.made (Function.update ents j es) s.held :=
    mem_holders.mpr (Or.inl ⟨i, hilt, List.mem_map_of_mem (K.mem_entries hc)⟩)
  have hlive := Family.live_iff.mpr ⟨S.exact.live _ hheld, S.exact.not_dead hheld⟩
  by_cases hcan : CanCount new s.heap c.key c.value
  case neg => exact Or.inr ⟨trivial, S.set_full hnew (some c.key) (S.live_ne_zero hlive) hcan⟩
  obtain ⟨s', new', hset, T, hdicts, -, -, hsize, -⟩ :=
    S.set hnew (some c.key) hlive (by rw [M.oneBucket]; exact hashFits_one _) hcan
  have S' := T.sound
  rw [Function.update_self, Function.update_idem] at S'
  refine Or.inl ⟨s', hset, assocSet es c.key c.value, new', S', ?_, hsize.trans M.oneBucket, ?_⟩
  · rw [hdicts, M.dicts, Function.update_idem]
  · have hentry : src.entries (x :: ys) = (c.key, c.value) :: src.entries ys := by
      unfold Dict.entries
      rw [List.map_cons, Dict.keyAt, Dict.valueAt, readOf_some _ _ hc, readOf_some _ _ hc]
      rfl
    have hgoal := M.goal
    rw [hentry, List.foldl_cons] at hgoal
    exact hgoal

/-- **`dict_foreach (dict, _copy, new)`** for two dicts. -/
theorem Whole.copyInto (W : Whole w ents) {i j : Nat} (hne : i ≠ j) {src dst : Dict} (hi : w.dicts i = some src)
    (hj : w.dicts j = some dst) (hcopied : w.copyInto i j = some w') :
    ∃ new es, w'.dicts = Function.update w.dicts j (some new) ∧
      Whole w' (Function.update ents j es) ∧ es = (ents i).foldl (fun l e => assocSet l e.1 e.2) (ents j) := by
  obtain ⟨-, K⟩ := W.sound.keyed i src hi
  obtain ⟨ms, ch, Sh, hms⟩ := K.shape
  have hstart : ∃ es new, Merging w ents j src ((ents i).foldl (fun l e => assocSet l e.1 e.2) (ents j)) ms w
      es new := by
    refine ⟨ents j, dst, ?_, ?_, W.oneBucket j dst hj, by rw [hms]⟩
    · rw [Function.update_eq_self]
      exact W.sound
    · rw [← hj, Function.update_eq_self]
  -- the walk only writes to dict `j`
  have hpairs : ∀ ys s, (∃ es new, Merging w ents j src
      ((ents i).foldl (fun l e => assocSet l e.1 e.2) (ents j)) ys s es new) →
      (s.dicts i).map Dict.pairs = some src.pairs := by
    intro ys s hs
    obtain ⟨es, new, M⟩ := hs
    rw [M.dicts, Function.update_of_ne hne, hi]
    rfl
  have hcopy : ∀ x ys s, (∃ es new, Merging w ents j src
      ((ents i).foldl (fun l e => assocSet l e.1 e.2) (ents j)) (x :: ys) s es new) → ∀ c,
      src.pairs x = some c → (∃ s', s.set j (some c.key) c.value = some s' ∧ ∃ es new, Merging w ents j src
        ((ents i).foldl (fun l e => assocSet l e.1 e.2) (ents j)) ys s' es new) ∨
        (True ∧ s.set j (some c.key) c.value = none) := by
    intro x ys s hs c hc
    obtain ⟨es, new, M⟩ := hs
    exact M.copy hne hi hc
  replace hcopied : dictForeach (fun w => (w.dicts i).map Dict.pairs)
      (fun w key value => w.set j (some key) value) src.brk src.membersList w = some w' := by
    rw [← hcopied]
    unfold Family.copyInto
    rw [hi]
    rfl
  rcases dictForeach_walk (fun w key value => w.set j (some key) value)
      (fun ys s => ∃ es new, Merging w ents j src
        ((ents i).foldl (fun l e => assocSet l e.1 e.2) (ents j)) ys s es new)
      hpairs hcopy Sh.list.chain Sh.length_le hstart with ⟨w₁, hrun, es, new, M⟩ | ⟨-, hnone⟩
  · obtain rfl : w₁ = w' := Option.some.inj (hrun.symm.trans hcopied)
    refine ⟨new, es, M.dicts, ?_, M.goal⟩
    apply W.put M.sound M.dicts
    intro d hd
    cases hd
    exact M.oneBucket
  · rw [hnone] at hcopied
    cases hcopied

/-- Entries set on top of entries, as a dict. -/
theorem merged_of_entries {src dst new : Dict} {es fs : List (CStr × Addr)} (Ks : Keyed src es)
    (Kd : Keyed dst fs) (Kn : Keyed new (es.foldl (fun l e => assocSet l e.1 e.2) fs)) :
    Merged src dst new where
  defined key := by
    rw [Kn.get key]
    exact Option.some_ne_none _
  get key := by
    rw [Kn.get, Ks.get, Kd.get, assocGet_foldl_set key fs Ks.distinct]
    cases hget : assocGet es key with
    | none => rfl
    | some v =>
        have hv : some v ≠ some 0 := fun h => Ks.value_ne_zero hget (Option.some.inj h)
        show some v = if some v = some 0 then _ else _
        rw [if_neg hv]
        rfl
  count := by
    refine ⟨(es.foldl (fun l e => assocSet l e.1 e.2) fs).map Prod.fst, nodup_keys_foldl_set Kd.distinct, ?_, ?_⟩
    · intro key
      rw [mem_keys_foldl_set, Ks.get_ne_null_iff, Kd.get_ne_null_iff]
    · rw [List.length_map]
      exact Kn.count

end

/-! ## §4. The copy. -/

/-- **MERGING COPY.**  Of two dicts that were made by `dict_new`, set and deleted
from, copying one into the other merges them, disturbs no dict but that one,
and leaves all dicts independent in everything that follows; the copy has no
outcome only where it can take a counter beyond `INT_MAX`. -/
theorem merging_copy {α : Type} {ops : List (FamilyOp α)} (hplain : ∀ o ∈ ops, o.plain = true)
    (hl : (familyComponent α).Legal Family.start ops) {w : Family}
    (hrun : (familyComponent α).run Family.start ops = some w) {i j : Nat} (hne : i ≠ j) {src dst : Dict}
    (hi : w.dicts i = some src) (hj : w.dicts j = some dst) {o : FamilyOp α}
    (ho : o = .copy i (some j) ∨ o = .copyWithRef i (some j)) :
    (∃ w' new, familyStep w o = some w' ∧ w'.dicts j = some new ∧ Merged src dst new ∧
      (∀ m, m ≠ j → Undisturbed w w' m) ∧ Independent α w') ∨
      (w.CopyOver src dst.count ∧ familyStep w o = none) := by
  obtain ⟨ents, W⟩ := whole_start.run hplain hl hrun
  have hstep : familyStep w o = w.copyInto i j := by
    rcases ho with rfl | rfl
    · show w.copy i (some j) = _
      unfold Family.copy
      rw [hi]
      rfl
    · rfl
  have hfits : src.KeysFit dst := by
    intro p _ pair _
    rw [W.oneBucket j dst hj]
    exact hashFits_one pair.key
  rw [hstep]
  refine (W.sound.copyInto hi hj hfits).imp_left ?_
  intro h
  obtain ⟨w', -, hcopy, -⟩ := h
  obtain ⟨new, es, hdicts, W', rfl⟩ := W.copyInto hne hi hj hcopy
  have hnew : w'.dicts j = some new := by rw [hdicts, Function.update_self]
  have K := (W'.sound.keyed j new hnew).2
  rw [Function.update_self] at K
  refine ⟨w', new, hcopy, hnew, ?_, ?_, W'.independent α⟩
  · exact merged_of_entries (W.sound.keyed i src hi).2 (W.sound.keyed j dst hj).2 K
  · intro m hm
    apply W.sound.undisturbed W'.sound
    intro d hd
    rw [hdicts, Function.update_of_ne hm, hd]

/-- Two dicts with one key in common. -/
def overlapRun : List (FamilyOp Unit) :=
  [.dictNew, .dictNew, .newData Data.zero, .newData Data.zero, .set 0 (some textKey) 1,
    .set 1 (some textKey) 2, .set 1 (some beKey) 2]

theorem merging_copy_overlap :
    ∃ w src dst w' new, (familyComponent Unit).run Family.start overlapRun = some w ∧
      w.dicts 0 = some src ∧ w.dicts 1 = some dst ∧ familyStep w (.copy 0 (some 1) : FamilyOp Unit) = some w' ∧
      w'.dicts 1 = some new ∧ Merged src dst new ∧ (∀ m, m ≠ 1 → Undisturbed w w' m) ∧ Independent Unit w' := by
  have hlegal : (familyComponent Unit).Legal Family.start overlapRun :=
    (familyComponent Unit).legal_of_check (by decide +kernel)
  have hruns : (((familyComponent Unit).run Family.start overlapRun).map fun w =>
      decide ((w.dicts 0).isSome = true ∧ (w.dicts 1).isSome = true ∧
        (familyStep w (.copy 0 (some 1) : FamilyOp Unit)).isSome = true)) = some true := by decide +kernel
  obtain ⟨w, hrun, hall⟩ := Option.map_eq_some_iff.mp hruns
  obtain ⟨hfirst, hsecond, hcopied⟩ := of_decide_eq_true hall
  obtain ⟨src, hsrc⟩ := Option.isSome_iff_exists.mp hfirst
  obtain ⟨dst, hdst⟩ := Option.isSome_iff_exists.mp hsecond
  rcases merging_copy (by decide) hlegal hrun (by decide) hsrc hdst (Or.inl rfl) with
    ⟨w', new, hcopy⟩ | ⟨-, hnone⟩
  · exact ⟨w, src, dst, w', new, hrun, hsrc, hdst, hcopy⟩
  · rw [hnone] at hcopied
    cases hcopied

end LzLib.Dict
