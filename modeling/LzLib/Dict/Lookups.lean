/-
  LzLib.Dict.Lookups
  ──────────────────
  **WHEN A LOOKUP IS SAFE.**

  `dict_get_with_ref` looks a key up under the dict's lock, gives up the lock,
  and only then reads `pair->value` and takes a reference.  A `dict_del` or a
  `dict_set` of another thread may come in between, free the pair or let go of
  the value.  The steps here are the protected sections of both, and what the
  getter does between its own, in any order and for any number of threads.

  Main results:
    • `get_with_ref_safe`     — the lookup is safe exactly while no other
      section frees the pair or gives up the last reference to the value;
    • `deleted_between_reads` — it is not safe in general.
-/
import LzLib.Dict.FamilyRuns

namespace LzLib.Dict

open LzLib.Foundation LzLib.Hash

/-! ## §1. The steps. -/

/-- Where a thread inside `dict_get_with_ref` is. -/
inductive Getter where
  /-- Behind the lookup: it is going to read `pair->value`. -/
  | found (i : Nat) (pair : Addr)
  /-- Behind that read: it is going to call `data_ref`. -/
  | loaded (value : Addr)
  deriving DecidableEq

def Getter.isFound : Getter → Bool
  | .found _ _ => true
  | .loaded _ => false

/-- The dicts and their values, the threads inside `dict_get_with_ref`, and the
references it has returned to threads that have not given them back. -/
structure Lookups where
  family : Family
  getters : List (Nat × Getter)
  got : List (Nat × Addr)

def Lookups.start : Lookups := ⟨Family.start, [], []⟩

/-- The steps; threads go by their number. -/
inductive LookupOp where
  /-- A section of another function. -/
  | other (o : FamilyOp Unit)
  /-- The locked `_dict_lookup` of `dict_get_with_ref`. -/
  | lookup (t i : Nat) (key : CStr)
  /-- The read of `pair->value`. -/
  | load (t : Nat)
  /-- The `data_ref` of the value, which is returned. -/
  | ref (t : Nat)
  /-- The `data_unref` of what was returned. -/
  | giveBack (t : Nat) (value : Addr)

/-- The operations that are one protected section: a walk over a dict is not. -/
def oneSection : FamilyOp Unit → Bool
  | .getNewDictFull _ | .dictNew | .newData _ | .set _ _ _ | .del _ _ | .ref _ | .unref _ => true
  | _ => false

def lookupStep (s : Lookups) : LookupOp → Option Lookups
  | .other o => (familyStep s.family o).map fun w => { s with family := w }
  | .lookup t i key => do
      let d ← s.family.dicts i
      let pair ← dictLookup d key
      if pair = 0 then return s
      else return { s with getters := assocSet s.getters t (.found i pair) }
  | .load t =>
      match assocGet s.getters t with
      | some (.found i pair) => do
          let d ← s.family.dicts i
          let p ← d.pairs pair
          return { s with getters := assocSet s.getters t (.loaded p.value) }
      | _ => none
  | .ref t =>
      match assocGet s.getters t with
      | some (.loaded value) => do
          let w ← s.family.ref value
          return { family := w, getters := assocDel s.getters t, got := (t, value) :: s.got }
      | _ => none
  | .giveBack t value => do
      let w ← s.family.unref value
      return { s with family := w, got := s.got.erase (t, value) }

/-- A reference that was returned to a thread is given back by that thread. -/
def notReturned (s : Lookups) : FamilyOp Unit → Bool
  | .unref a => (s.got.map Prod.snd).count a < s.family.held.count a
  | _ => true

/-- Every thread takes its steps in order, and callers keep their promises. -/
def lookupAllowed (s : Lookups) : LookupOp → Bool
  | .other o => promised s.family o && oneSection o && notReturned s o
  | .lookup t i _ => (assocGet s.getters t).isNone && (s.family.dicts i).isSome
  | .load t => (assocGet s.getters t).any Getter.isFound
  | .ref t => (assocGet s.getters t).any fun g => !g.isFound
  | .giveBack t value => s.got.contains (t, value)

/-- All interleavings. -/
def lookups : Component Lookups LookupOp where
  step := lookupStep
  allowed s o := lookupAllowed s o = true

/-- **Every getter is safe**: the pair and the value it is going to follow have
not been freed, and what it has returned is live and counts the reference. -/
structure SafeGets (s : Lookups) : Prop where
  pairs : ∀ t i p, (t, .found i p) ∈ s.getters → ∃ d, s.family.dicts i = some d ∧ d.pairs p ≠ none
  values : ∀ t v, (t, .loaded v) ∈ s.getters → s.family.live v = true
  returned : ∀ t v, (t, v) ∈ s.got → s.family.live v = true
  counted : ∀ v c, s.family.heap.cells v = some c → v ∉ s.family.destroyed →
    c.refcount = s.family.slots v + s.family.held.count v
  included : ∀ v, (s.got.map Prod.snd).count v ≤ s.family.held.count v

/-- The value counts no second reference. -/
def Family.only (w : Family) (v : Addr) : Bool := (w.heap.cells v).any fun c => c.refcount < 2

/-- The pair a section frees: `dict_del` the pair of its key. -/
def frees (w : Family) : FamilyOp Unit → Nat → Addr → Bool
  | .del i key, j, p => j = i && (w.dicts i).bind (fun d => dictLookup d key) = some p
  | _, _, _ => false

/-- The value whose last reference a section gives up: the one that its key has,
unless it is set again, or the one the caller releases. -/
def givesUp (w : Family) : FamilyOp Unit → Addr → Bool
  | .set i key value, v =>
      value ≠ 0 && v ≠ value && w.only v &&
        (w.dicts i).bind (fun d => dictGet d (key.getD (refKey value))) = some v
  | .del i key, v => w.only v && (w.dicts i).bind (fun d => dictGet d key) = some v
  | .unref a, v => w.only v && v = a
  | _, _ => false

/-- A section that meets a thread inside `dict_get_with_ref`. -/
def meets (w : Family) (o : FamilyOp Unit) : Getter → Bool
  | .found i p => frees w o i p
  | .loaded v => givesUp w o v

/-- The step meets no thread inside `dict_get_with_ref`. -/
def clearOf (s : Lookups) : LookupOp → Prop
  | .other o => ∀ e ∈ s.getters, meets s.family o e.2 = false
  | .giveBack _ value => ∀ e ∈ s.getters, meets s.family (.unref value) e.2 = false
  | _ => True

/-- Its keys fit their dicts. -/
def lookupFits (s : Lookups) : LookupOp → Prop
  | .other o => keysFit s.family o
  | _ => True

/-- A counter that a step raises is at `INT_MAX`. -/
def Lookups.AtIntMax (s : Lookups) : LookupOp → Prop
  | .other o => s.family.AtIntMax o
  | .ref t => ∃ v, assocGet s.getters t = some (.loaded v) ∧ ¬ s.family.heap.Room v
  | _ => False

/-- The interleavings in which no section meets a getter. -/
def clearLookups : Component Lookups LookupOp where
  step := lookupStep
  allowed s o := lookupAllowed s o = true ∧ lookupFits s o ∧ clearOf s o

instance (s : Lookups) (o : LookupOp) : Decidable (clearOf s o) :=
  match o with
  | .other o => inferInstanceAs (Decidable (∀ e ∈ s.getters, meets s.family o e.2 = false))
  | .giveBack _ value =>
      inferInstanceAs (Decidable (∀ e ∈ s.getters, meets s.family (.unref value) e.2 = false))
  | .lookup _ _ _ | .load _ | .ref _ => .isTrue trivial

instance (s : Lookups) (o : LookupOp) : Decidable (lookupFits s o) :=
  match o with
  | .other o => inferInstanceAs (Decidable (keysFit s.family o))
  | .lookup _ _ _ | .load _ | .ref _ | .giveBack _ _ => .isTrue trivial

instance (s : Lookups) (o : LookupOp) : Decidable (clearLookups.allowed s o) :=
  inferInstanceAs (Decidable (lookupAllowed s o = true ∧ lookupFits s o ∧ clearOf s o))

instance (s : Lookups) (o : LookupOp) : Decidable (lookups.allowed s o) :=
  inferInstanceAs (Decidable (lookupAllowed s o = true))

/-- Alone, the three steps are `dict_get_with_ref`. -/
theorem alone_get_with_ref {s : Lookups} {t i : Nat} {key : CStr} {d : Dict} {v : Addr} {h' : DataHeap}
    (hd : s.family.dicts i = some d) (hv : v ≠ 0)
    (hget : dictGetWithRef d s.family.heap key = some (0, v, h')) :
    ∃ s', lookups.run s [.lookup t i key, .load t, .ref t] = some s' ∧ s'.family.heap = h' ∧
      s'.got = (t, v) :: s.got := by
  unfold dictGetWithRef at hget
  obtain ⟨pair, hlook, hrest⟩ := Option.bind_eq_some_iff.mp hget
  by_cases hp : pair = 0
  · rw [if_pos hp] at hrest
    cases hrest
  · rw [if_neg hp] at hrest
    obtain ⟨p, hpair, hrest⟩ := Option.bind_eq_some_iff.mp hrest
    obtain ⟨⟨h₁, data⟩, href, heq⟩ := Option.bind_eq_some_iff.mp hrest
    cases heq
    obtain rfl := dataRef_addr href
    have hcalls : replay s.family.heap [.ref p.value] = some (h', []) := by
      simp only [replay, href, Option.bind_eq_bind, Option.bind_some]
    obtain ⟨w', hfamily, hheap⟩ : ∃ w', s.family.ref p.value = some w' ∧ w'.heap = h' := by
      refine ⟨{ s.family with
        heap := h', held := p.value :: s.family.held, destroyed := s.family.destroyed ++ [] }, ?_, rfl⟩
      unfold Family.ref
      rw [href]
      show Family.charge { s.family with
        held := if p.value = 0 then s.family.held else p.value :: s.family.held } [.ref p.value] h' = _
      rw [if_neg hv]
      unfold Family.charge
      show (replay s.family.heap [.ref p.value] >>= _) = _
      rw [hcalls]
      rfl
    refine ⟨⟨w', assocDel (assocSet (assocSet s.getters t (.found i pair)) t (.loaded p.value)) t,
      (t, p.value) :: s.got⟩, ?_, hheap, rfl⟩
    simp only [Component.run, lookups, lookupStep, hd, hlook, Option.bind_eq_bind, Option.bind_some,
      if_neg hp, Option.pure_def, assocGet_set, if_true, hpair, hfamily]

/-! ## §2. What one section does to the others. -/

/-- What an operation frees and gives up: the pairs `gone`, the last references
to the values `lost`. -/
structure Disturbs (w w' : Family) (gone : Nat → Addr → Bool) (lost : Addr → Bool) : Prop where
  pairs : ∀ i d p, w.dicts i = some d → d.pairs p ≠ none →
    ((∃ d', w'.dicts i = some d' ∧ d'.pairs p ≠ none) ↔ gone i p = false)
  refs : ∀ v, 0 < w.refs v → (0 < w'.refs v ↔ lost v = false)

section

variable {w : Family} {ents : Nat → List (CStr × Addr)}

/-- Deleting a key: its value loses a slot. -/
theorem assocDel_count {es : List (CStr × Addr)} (hnd : (es.map Prod.fst).Nodup) (k : CStr) (a : Addr) :
    ((assocDel es k).map Prod.snd).count a + (if assocGet es k = some a then 1 else 0)
      = (es.map Prod.snd).count a := by
  cases hget : assocGet es k with
  | none =>
      rw [assocDel_of_not_mem ((assocGet_eq_none_iff es k).mp hget)]
      simp
  | some o =>
      obtain ⟨rest, hold, -, hdel⟩ := assoc_values hnd hget
      rw [hdel.count_eq, hold.count_eq, List.count_cons]
      simp only [Option.some.injEq, beq_iff_eq]

/-- A value that is referred to counts no second reference exactly when it is
referred to once. -/
theorem Sound.only_iff (S : Sound w ents) {v : Addr} (hv : 0 < w.refs v) :
    w.only v = true ↔ w.refs v = 1 := by
  have hin := (S.refs_pos v).mp hv
  obtain ⟨c, hc⟩ := Option.ne_none_iff_exists'.mp (S.exact.live v hin)
  have hcount := S.exact.exact v c hc (S.exact.not_dead hin)
  rw [← S.refs] at hcount
  unfold Family.only
  rw [hc, Option.any_some, decide_eq_true_iff]
  omega

/-- The value a key has, for a value that is referred to. -/
theorem Sound.slot_iff (S : Sound w ents) {i : Nat} {d : Dict} (hd : w.dicts i = some d) (k : CStr)
    {v : Addr} (hv : 0 < w.refs v) :
    (w.dicts i).bind (fun d => dictGet d k) = some v ↔ assocGet (ents i) k = some v := by
  have hv0 : v ≠ 0 := S.exact.ne_zero ((S.refs_pos v).mp hv)
  rw [hd, Option.bind_some, (S.keyed i d hd).2.get, Option.some.injEq]
  cases assocGet (ents i) k with
  | none => exact iff_of_false (fun h => hv0 h.symm) (by simp)
  | some o => exact (Option.some.injEq o v).symm ▸ Iff.rfl

/-- The references to a value after dict `i` has got other entries. -/
theorem Sound.refs_update (S : Sound w ents) {i : Nat} (hi : i < w.made) {es : List (CStr × Addr)}
    {w' : Family} (S' : Sound w' (Function.update ents i es)) (hmade : w'.made = w.made)
    (hheld : w'.held = w.held) (a : Addr) :
    w'.refs a + ((ents i).map Prod.snd).count a = w.refs a + (es.map Prod.snd).count a := by
  rw [S.refs, S'.refs, hmade, hheld]
  exact holders_count hi ents w.held es a

/-- An operation that leaves the dicts alone, and takes no reference away. -/
theorem disturbs_none {w' : Family} (hdicts : ∀ i d, w.dicts i = some d → w'.dicts i = some d)
    (hrefs : ∀ v, w.refs v ≤ w'.refs v) : Disturbs w w' (fun _ _ => false) fun _ => false where
  pairs i d _ hd hp := iff_of_true ⟨d, hdicts i d hd, hp⟩ rfl
  refs v hv := iff_of_true (Nat.lt_of_lt_of_le hv (hrefs v)) rfl

/-- `dict_set`, as the other threads see it. -/
theorem Sound.set_disturbs (S : Sound w ents) {i : Nat} {d : Dict} (hd : w.dicts i = some d)
    (key : Option CStr) {value : Addr} (hlive : w.live value = true)
    (hfits : HashFits d.hashSize (key.getD (refKey value)))
    (hcan : CanCount d w.heap (key.getD (refKey value)) value) :
    ∃ w' ents', w.set i key value = some w' ∧ Sound w' ents' ∧ w'.held = w.held ∧
      Disturbs w w' (fun _ _ => false) (givesUp w (.set i key value)) := by
  obtain ⟨w', d', hset, T, hdicts, hmade, hheld, -, -, hpairs⟩ := S.set hd key hlive hfits hcan
  obtain ⟨hi, K⟩ := S.keyed i d hd
  refine ⟨w', _, hset, T.sound, hheld, ?_, ?_⟩
  · intro j e p he hp
    refine iff_of_true ?_ rfl
    rw [hdicts]
    by_cases hji : j = i
    · subst hji
      rw [hd, Option.some.injEq] at he
      subst he
      exact ⟨d', Function.update_self _ _ _, hpairs p hp⟩
    · exact ⟨e, by rw [Function.update_of_ne hji, he], hp⟩
  · intro v hv
    -- a value loses a slot only if the key had it
    have hsum := S.refs_update hi T.sound hmade hheld v
    have hcount := assocSet_count K.distinct (key.getD (refKey value)) value v
    have hslot := S.slot_iff hd (key.getD (refKey value)) hv
    have honly := S.only_iff hv
    have hvalue : value ≠ 0 := by
      obtain ⟨c, hc⟩ := Option.ne_none_iff_exists'.mp (Family.live_iff.mp hlive).1
      exact (S.exact.below value c hc).1
    show _ ↔ (decide (value ≠ 0) && decide (v ≠ value) && w.only v &&
      decide ((w.dicts i).bind (fun d => dictGet d (key.getD (refKey value))) = some v)) = false
    by_cases hold : assocGet (ents i) (key.getD (refKey value)) = some v
    · by_cases hsame : value = v
      · -- the key has the value that is set: it keeps its slot
        rw [if_pos hold, if_pos hsame] at hcount
        refine iff_of_true (by omega) ?_
        simp [hsame]
      · rw [if_pos hold, if_neg hsame] at hcount
        have hone : 0 < w'.refs v ↔ ¬ w.refs v = 1 := by omega
        rw [hone, ← honly, decide_eq_true hvalue, decide_eq_true (Ne.symm hsame),
          decide_eq_true (hslot.mpr hold)]
        simp
    · rw [if_neg hold] at hcount
      refine iff_of_true (by omega) ?_
      rw [decide_eq_false (fun h => hold (hslot.mp h)), Bool.and_false]

/-- `dict_del`, as the other threads see it. -/
theorem Sound.del_disturbs (S : Sound w ents) {i : Nat} {d : Dict} (hd : w.dicts i = some d) (k : CStr) :
    ∃ w' ents', w.del i k = some w' ∧ Sound w' ents' ∧ w'.held = w.held ∧
      Disturbs w w' (frees w (.del i k)) (givesUp w (.del i k)) := by
  obtain ⟨w', d', hdel, T, hdicts, hmade, hheld, hpairs, -⟩ := S.del hd k
  obtain ⟨hi, K⟩ := S.keyed i d hd
  refine ⟨w', _, hdel, T.sound, hheld, ?_, ?_⟩
  · intro j e p he hp
    show _ ↔ (decide (j = i) && decide ((w.dicts i).bind (fun d => dictLookup d k) = some p)) = false
    rw [hdicts]
    by_cases hji : j = i
    · subst hji
      rw [hd, Option.some.injEq] at he
      subst he
      -- the pair of the key is the one that goes
      have hlive : (∃ e, Function.update w.dicts j (some d') j = some e ∧ e.pairs p ≠ none) ↔
          dictLookup d k ≠ some p := by
        rw [Function.update_self]
        constructor
        · intro h
          obtain ⟨e, he, hpe⟩ := h
          cases he
          exact ((hpairs p).mp hpe).2
        · intro hne
          exact ⟨d', rfl, (hpairs p).mpr ⟨hp, hne⟩⟩
      rw [hlive, hd, Option.bind_some]
      simp
    · refine iff_of_true ⟨e, by rw [Function.update_of_ne hji, he], hp⟩ ?_
      rw [decide_eq_false hji, Bool.false_and]
  · intro v hv
    have hsum := S.refs_update hi T.sound hmade hheld v
    have hcount := assocDel_count K.distinct k v
    have hslot := S.slot_iff hd k hv
    have honly := S.only_iff hv
    show _ ↔ (w.only v && decide ((w.dicts i).bind (fun d => dictGet d k) = some v)) = false
    by_cases hold : assocGet (ents i) k = some v
    · rw [if_pos hold] at hcount
      have hone : 0 < w'.refs v ↔ ¬ w.refs v = 1 := by omega
      rw [hone, ← honly, decide_eq_true (hslot.mpr hold)]
      simp
    · rw [if_neg hold] at hcount
      refine iff_of_true (by omega) ?_
      rw [decide_eq_false (fun h => hold (hslot.mp h)), Bool.and_false]

/-- `data_unref` by a caller, as the other threads see it. -/
theorem Sound.unref_disturbs (S : Sound w ents) {a : Addr} (ha : a ∈ w.held) :
    ∃ w', w.unref a = some w' ∧ Sound w' ents ∧ w'.held = w.held.erase a ∧
      Disturbs w w' (fun _ _ => false) (givesUp w (.unref a)) := by
  obtain ⟨w', hunref, T, hdicts, hmade, hheld⟩ := S.unref ha
  refine ⟨w', hunref, T.sound, hheld, ?_, ?_⟩
  · intro j e p he hp
    exact iff_of_true ⟨e, by rw [hdicts, he], hp⟩ rfl
  · intro v hv
    have honly := S.only_iff hv
    have hslots : w'.slots v = w.slots v := by
      unfold Family.slots
      rw [hdicts, hmade]
    have hrefs : w'.refs v = w.slots v + (w.held.erase a).count v := by
      unfold Family.refs
      rw [hslots, hheld]
    have hrefs₀ : w.refs v = w.slots v + w.held.count v := rfl
    show _ ↔ (w.only v && decide (v = a)) = false
    by_cases hva : v = a
    · subst hva
      have hpos : 0 < w.held.count v := List.count_pos_iff.mpr ha
      rw [List.count_erase_self] at hrefs
      have hone : 0 < w'.refs v ↔ ¬ w.refs v = 1 := by omega
      rw [hone, ← honly]
      simp
    · rw [List.count_erase_of_ne hva] at hrefs
      refine iff_of_true (by omega) ?_
      rw [decide_eq_false hva, Bool.and_false]

/-- The references an operation takes from the callers. -/
def takes : FamilyOp Unit → Addr → Nat
  | .unref a, v => if v = a then 1 else 0
  | _, _ => 0

/-- **One section of another function**, as the threads inside
`dict_get_with_ref` see it, unless a counter is at its end. -/
theorem Sound.section_disturbs (S : Sound w ents) (o : FamilyOp Unit) (hp : promised w o = true)
    (hone : oneSection o = true) (hfit : keysFit w o) :
    (∃ w' ents', familyStep w o = some w' ∧ Sound w' ents' ∧ Disturbs w w' (frees w o) (givesUp w o) ∧
      ∀ v, w.held.count v ≤ w'.held.count v + takes o v) ∨ (w.AtIntMax o ∧ familyStep w o = none) := by
  -- a new dict: the others are where they were, and the holders too
  have hadd : ∀ d, Keyed d [] → ∃ ents', Sound (w.addDict d) ents' ∧
      Disturbs w (w.addDict d) (fun _ _ => false) fun _ => false := by
    intro d K
    obtain ⟨T, hsame⟩ := S.addDict K
    refine ⟨ents, T.sound, disturbs_none ?_ ?_⟩
    · intro i e he
      show Function.update w.dicts w.made (some d) i = some e
      rw [Function.update_of_ne (Nat.ne_of_lt (S.keyed i e he).1), he]
    · intro v
      rw [S.refs, T.sound.refs, hsame]
  cases o with
  | getNewDictFull sizeHint =>
      obtain ⟨ents', S', D⟩ := hadd _ (keyed_new hfit)
      exact Or.inl ⟨_, ents', rfl, S', D, fun v => Nat.le_refl _⟩
  | dictNew =>
      obtain ⟨ents', S', D⟩ := hadd _ (keyed_new (Int.le_refl 1))
      exact Or.inl ⟨_, ents', rfl, S', D, fun v => Nat.le_refl _⟩
  | newData c =>
      exact Or.inl ⟨_, ents, rfl, (S.newData c).sound,
        disturbs_none (fun _ _ hd => hd) fun v => Nat.le_refl _, fun v => Nat.le_refl _⟩
  | set i key value =>
      obtain ⟨d, hd, hvalue⟩ := promised_set hp
      rcases hvalue with rfl | hv
      · exact Or.inl ⟨w, ents, Family.set_null hd key, S,
          disturbs_none (fun _ _ hd => hd) fun v => Nat.le_refl _, fun v => Nat.le_refl _⟩
      · by_cases hcan : CanCount d w.heap (key.getD (refKey value)) value
        · obtain ⟨w', ents', hset, S', hheld, D⟩ := S.set_disturbs hd key hv (hfit d hd) hcan
          exact Or.inl ⟨w', ents', hset, S', D, fun v => hheld ▸ Nat.le_refl _⟩
        · exact Or.inr ⟨⟨d, hd, hcan⟩, S.set_full hd key (S.live_ne_zero hv) hcan⟩
  | del i key =>
      obtain ⟨d, hd⟩ := Option.isSome_iff_exists.mp hp
      obtain ⟨w', ents', hdel, S', hheld, D⟩ := S.del_disturbs hd key
      exact Or.inl ⟨w', ents', hdel, S', D, fun v => hheld ▸ Nat.le_refl _⟩
  | ref a =>
      by_cases hroom : w.heap.Room a
      · obtain ⟨w', href, T, hdicts, hmade, hheld⟩ := S.ref hp hroom
        have hcount : ∀ v, w.held.count v ≤ w'.held.count v := by
          intro v
          rw [hheld]
          exact List.count_le_count_cons
        refine Or.inl ⟨w', ents, href, T.sound, disturbs_none (fun i d hd => by rw [hdicts, hd]) ?_, hcount⟩
        intro v
        unfold Family.refs Family.slots
        rw [hdicts, hmade]
        exact Nat.add_le_add_left (hcount v) _
      · exact Or.inr ⟨hroom, S.ref_full hp hroom⟩
  | unref a =>
      obtain ⟨w', hunref, S', hheld, D⟩ := S.unref_disturbs (List.contains_iff_mem.mp hp)
      refine Or.inl ⟨w', ents, hunref, S', D, ?_⟩
      intro v
      rw [hheld]
      show _ ≤ _ + (if v = a then 1 else 0)
      by_cases hva : v = a
      · subst hva
        rw [List.count_erase_self, if_pos rfl]
        omega
      · rw [List.count_erase_of_ne hva, if_neg hva]
        exact Nat.le_refl _
  | getVia convert i key => cases hone
  | copy i new => cases hone
  | copyWithRef i new => cases hone
  | destroy i => cases hone

end

/-! ## §3. The invariant. -/

/-- What holds between two steps while no section meets a getter: the pairs and
values that are going to be followed are there, and what was returned is among
the references callers hold. -/
structure LookupsOk (s : Lookups) (ents : Nat → List (CStr × Addr)) : Prop where
  sound : Sound s.family ents
  pairs : ∀ t i p, (t, .found i p) ∈ s.getters → ∃ d, s.family.dicts i = some d ∧ d.pairs p ≠ none
  loaded : ∀ t v, (t, .loaded v) ∈ s.getters → 0 < s.family.refs v
  included : ∀ v, (s.got.map Prod.snd).count v ≤ s.family.held.count v

theorem LookupsOk.safe {s : Lookups} {ents : Nat → List (CStr × Addr)} (L : LookupsOk s ents) :
    SafeGets s := by
  have E := L.sound.refsExact
  refine ⟨L.pairs, fun t v hv => E.live v (L.loaded t v hv), ?_, E.counts, L.included⟩
  intro t v hv
  apply E.live
  have hgot : 0 < (s.got.map Prod.snd).count v := by
    rw [List.count_pos_iff]
    exact List.mem_map.mpr ⟨(t, v), hv, rfl⟩
  have hincl := L.included v
  unfold Family.refs
  omega

/-- **A section of another function**: the getters stay safe exactly if it meets
none of them, unless a counter is at its end. -/
theorem LookupsOk.other {s : Lookups} {ents : Nat → List (CStr × Addr)} (L : LookupsOk s ents)
    {o : FamilyOp Unit} {got : List (Nat × Addr)} (hp : promised s.family o = true)
    (hone : oneSection o = true) (hfit : keysFit s.family o)
    (hgot : ∀ v, (got.map Prod.snd).count v + takes o v ≤ s.family.held.count v) :
    (∃ w', familyStep s.family o = some w' ∧
      (SafeGets ⟨w', s.getters, got⟩ ↔ ∀ e ∈ s.getters, meets s.family o e.2 = false) ∧
      ((∀ e ∈ s.getters, meets s.family o e.2 = false) →
        ∃ ents', LookupsOk ⟨w', s.getters, got⟩ ents')) ∨
      (s.family.AtIntMax o ∧ familyStep s.family o = none) := by
  rcases L.sound.section_disturbs o hp hone hfit with ⟨w', ents', hstep, S', D, hheld⟩ | hstuck
  case inr => exact Or.inr hstuck
  have hdead := (sound_step s.family o w' ⟨ents, L.sound⟩ ⟨hp, hfit⟩ hstep).2
  left
  have hkeep : (∀ e ∈ s.getters, meets s.family o e.2 = false) →
      LookupsOk ⟨w', s.getters, got⟩ ents' := by
    intro hmeet
    refine ⟨S', ?_, ?_, ?_⟩
    · intro t i p hin
      obtain ⟨d, hd, hpair⟩ := L.pairs t i p hin
      exact (D.pairs i d p hd hpair).mpr (hmeet _ hin)
    · intro t v hin
      exact (D.refs v (L.loaded t v hin)).mpr (hmeet _ hin)
    · intro v
      have hle := hgot v
      have hle' := hheld v
      show (got.map Prod.snd).count v ≤ w'.held.count v
      omega
  refine ⟨w', hstep, ⟨?_, fun hmeet => (hkeep hmeet).safe⟩, fun hmeet => ⟨ents', hkeep hmeet⟩⟩
  intro hsafe e he
  obtain ⟨t, g⟩ := e
  cases g with
  | found i p =>
      obtain ⟨d, hd, hpair⟩ := L.pairs t i p he
      exact (D.pairs i d p hd hpair).mp (hsafe.pairs t i p he)
  | loaded v =>
      have hrefs := L.loaded t v he
      apply (D.refs v hrefs).mp
      -- a value that has lost its last reference has been destroyed
      by_contra hlost
      have hgone := (hdead v).mpr (Or.inr ⟨hrefs, hlost⟩)
      exact (Family.live_iff.mp (hsafe.values t v he)).2 hgone

/-! ## §4. One step, and runs. -/

section

variable {s : Lookups} {ents : Nat → List (CStr × Addr)}

/-- A thread goes on to `g`, whose pair or value is there. -/
theorem LookupsOk.move (L : LookupsOk s ents) (t : Nat) {g : Getter}
    (hfound : ∀ i p, g = .found i p → ∃ d, s.family.dicts i = some d ∧ d.pairs p ≠ none)
    (hloaded : ∀ v, g = .loaded v → 0 < s.family.refs v) :
    LookupsOk { s with getters := assocSet s.getters t g } ents := by
  refine ⟨L.sound, ?_, ?_, L.included⟩
  · intro t' i p hin
    rcases mem_assocSet hin with hin | heq
    · exact L.pairs t' i p hin
    · exact hfound i p (congrArg Prod.snd heq).symm
  · intro t' v hin
    rcases mem_assocSet hin with hin | heq
    · exact L.loaded t' v hin
    · exact hloaded v (congrArg Prod.snd heq).symm

/-- The locked lookup finds a live pair, or none. -/
theorem LookupsOk.lookup (L : LookupsOk s ents) (t : Nat) {i : Nat} {d : Dict}
    (hd : s.family.dicts i = some d) (key : CStr) :
    ∃ s', lookupStep s (.lookup t i key) = some s' ∧ LookupsOk s' ents := by
  have hdef : lookupStep s (.lookup t i key) = dictLookup d key >>= fun pair =>
      if pair = 0 then some s else some { s with getters := assocSet s.getters t (.found i pair) } := by
    show (s.family.dicts i >>= _) = _
    rw [hd]
    rfl
  rcases (L.sound.keyed i d hd).2.lookup key with ⟨hlook, -⟩ | ⟨p, c, hp, hlook, hc, -, -⟩
  · refine ⟨s, ?_, L⟩
    rw [hdef, hlook]
    rfl
  · refine ⟨{ s with getters := assocSet s.getters t (.found i p) }, ?_, ?_⟩
    · rw [hdef, hlook]
      exact if_neg hp
    · apply L.move t
      · intro j q heq
        cases heq
        exact ⟨d, hd, by rw [hc]; exact Option.some_ne_none c⟩
      · intro v heq
        cases heq

/-- The read of `pair->value`: the pair is an entry of its dict, so its value
has a slot. -/
theorem LookupsOk.load (L : LookupsOk s ents) {t i : Nat} {p : Addr}
    (hg : assocGet s.getters t = some (.found i p)) :
    ∃ s', lookupStep s (.load t) = some s' ∧ LookupsOk s' ents := by
  obtain ⟨d, hd, hpair⟩ := L.pairs t i p (assocGet_mem hg)
  obtain ⟨c, hc⟩ := Option.ne_none_iff_exists'.mp hpair
  obtain ⟨hi, K⟩ := L.sound.keyed i d hd
  have hrefs : 0 < s.family.refs c.value := (L.sound.refs_pos c.value).mpr
    (mem_holders.mpr (Or.inl ⟨i, hi, List.mem_map_of_mem (K.mem_entries hc)⟩))
  refine ⟨{ s with getters := assocSet s.getters t (.loaded c.value) }, ?_, ?_⟩
  · unfold lookupStep
    simp only [hg, hd, hc, Option.bind_eq_bind, Option.bind_some, Option.pure_def]
  · apply L.move t
    · intro j q heq
      cases heq
    · intro v heq
      cases heq
      exact hrefs

/-- The value that a getter is going to refer to. -/
theorem LookupsOk.live (L : LookupsOk s ents) {t : Nat} {v : Addr}
    (hg : assocGet s.getters t = some (.loaded v)) : s.family.live v = true :=
  L.sound.refsExact.live v (L.loaded t v (assocGet_mem hg))

/-- The `data_ref` of the value: no other getter loses anything. -/
theorem LookupsOk.ref (L : LookupsOk s ents) {t : Nat} {v : Addr}
    (hg : assocGet s.getters t = some (.loaded v)) (hroom : s.family.heap.Room v) :
    ∃ s', lookupStep s (.ref t) = some s' ∧ LookupsOk s' ents := by
  obtain ⟨w', href, T, hdicts, hmade, hheld⟩ := L.sound.ref (L.live hg) hroom
  -- one getter less, one reference more
  have hsub : ∀ e, e ∈ assocDel s.getters t → e ∈ s.getters := fun e he => List.mem_of_mem_filter he
  refine ⟨{ family := w', getters := assocDel s.getters t, got := (t, v) :: s.got }, ?_, T.sound, ?_, ?_, ?_⟩
  · unfold lookupStep
    simp only [hg, href, Option.bind_eq_bind, Option.bind_some, Option.pure_def]
  · intro t' i p hin
    show ∃ d, w'.dicts i = some d ∧ _
    rw [hdicts]
    exact L.pairs t' i p (hsub _ hin)
  · intro t' u hin
    have hmem := (L.sound.refs_pos u).mp (L.loaded t' u (hsub _ hin))
    apply (T.sound.refs_pos u).mpr
    rw [hmade, hheld]
    rcases mem_holders.mp hmem with hslot | hcaller
    · exact mem_holders.mpr (Or.inl hslot)
    · exact mem_holders.mpr (Or.inr (List.mem_cons_of_mem v hcaller))
  · intro u
    have hincl := L.included u
    show ((v :: s.got.map Prod.snd)).count u ≤ w'.held.count u
    rw [hheld, List.count_cons, List.count_cons]
    omega

/-- A `data_ref` that cannot be counted. -/
theorem LookupsOk.ref_full (L : LookupsOk s ents) {t : Nat} {v : Addr}
    (hg : assocGet s.getters t = some (.loaded v)) (hfull : ¬ s.family.heap.Room v) :
    lookupStep s (.ref t) = none := by
  unfold lookupStep
  simp only [hg, L.sound.ref_full (L.live hg) hfull, Option.bind_eq_bind, Option.bind_none]

/-- A caller that releases a reference releases none that was returned. -/
theorem LookupsOk.not_taken (L : LookupsOk s ents) {o : FamilyOp Unit} (ho : notReturned s o = true)
    (v : Addr) : (s.got.map Prod.snd).count v + takes o v ≤ s.family.held.count v := by
  have hincl := L.included v
  cases o with
  | unref a =>
      have hmore : (s.got.map Prod.snd).count a < s.family.held.count a := of_decide_eq_true ho
      show _ + (if v = a then 1 else 0) ≤ _
      by_cases hva : v = a
      · subst hva
        rw [if_pos rfl]
        exact hmore
      · rw [if_neg hva]
        exact hincl
  | _ => exact hincl

/-- What was returned is given back as a reference of the caller. -/
theorem LookupsOk.given_back (L : LookupsOk s ents) {t : Nat} {v : Addr} (hin : (t, v) ∈ s.got) :
    v ∈ s.family.held ∧
      ∀ u, ((s.got.erase (t, v)).map Prod.snd).count u + takes (.unref v) u
        ≤ s.family.held.count u := by
  have hgot : ∀ u, ((s.got.erase (t, v)).map Prod.snd).count u + takes (.unref v) u
      ≤ s.family.held.count u := by
    intro u
    have hincl := L.included u
    have hperm := (List.perm_cons_erase hin).map Prod.snd
    rw [hperm.count_eq, List.map_cons, List.count_cons] at hincl
    show _ + (if u = v then 1 else 0) ≤ _
    by_cases huv : u = v
    · subst huv
      rw [if_pos rfl]
      simpa using hincl
    · rw [if_neg huv]
      omega
  refine ⟨?_, hgot⟩
  rw [← List.count_pos_iff]
  have hle := hgot v
  have hone : takes (.unref v) v = 1 := if_pos rfl
  omega

/-- **One step** comes through, and leaves every getter safe exactly if it meets
none; or a counter is at its end. -/
theorem lookup_step (L : LookupsOk s ents) (o : LookupOp) (ha : lookupAllowed s o = true)
    (hfit : lookupFits s o) :
    (∃ s', lookupStep s o = some s' ∧ (SafeGets s' ↔ clearOf s o) ∧
      (clearOf s o → ∃ ents', LookupsOk s' ents')) ∨ (s.AtIntMax o ∧ lookupStep s o = none) := by
  -- the getter's own steps meet nobody
  have hown : clearOf s o → (∃ s', lookupStep s o = some s' ∧ LookupsOk s' ents) →
      ∃ s', lookupStep s o = some s' ∧ (SafeGets s' ↔ clearOf s o) ∧
        (clearOf s o → ∃ ents', LookupsOk s' ents') := by
    intro hclear hstep
    obtain ⟨s', hstep, L'⟩ := hstep
    exact ⟨s', hstep, iff_of_true L'.safe hclear, fun _ => ⟨ents, L'⟩⟩
  cases o with
  | other o =>
      replace ha : (promised s.family o && oneSection o && notReturned s o) = true := ha
      rw [Bool.and_eq_true, Bool.and_eq_true] at ha
      show (∃ s', (familyStep s.family o).map _ = some s' ∧ _) ∨ (_ ∧ (familyStep s.family o).map _ = none)
      rcases L.other ha.1.1 ha.1.2 hfit (L.not_taken ha.2) with ⟨w', hstep, hsafe, hok⟩ | ⟨hmax, hnone⟩
      · refine Or.inl ⟨⟨w', s.getters, s.got⟩, ?_, hsafe, hok⟩
        rw [hstep]
        rfl
      · refine Or.inr ⟨hmax, ?_⟩
        rw [hnone]
        rfl
  | lookup t i key =>
      replace ha : ((assocGet s.getters t).isNone && (s.family.dicts i).isSome) = true := ha
      rw [Bool.and_eq_true] at ha
      obtain ⟨d, hd⟩ := Option.isSome_iff_exists.mp ha.2
      exact Or.inl (hown trivial (L.lookup t hd key))
  | load t =>
      obtain ⟨g, hg, hfound⟩ := (Option.any_eq_true _ _).mp ha
      cases g with
      | loaded v => cases hfound
      | found i p => exact Or.inl (hown trivial (L.load hg))
  | ref t =>
      obtain ⟨g, hg, hloaded⟩ := (Option.any_eq_true _ _).mp ha
      cases g with
      | found i p => cases hloaded
      | loaded v =>
          by_cases hroom : s.family.heap.Room v
          · exact Or.inl (hown trivial (L.ref hg hroom))
          · exact Or.inr ⟨⟨v, hg, hroom⟩, L.ref_full hg hroom⟩
  | giveBack t v =>
      obtain ⟨hheld, hgot⟩ := L.given_back (List.contains_iff_mem.mp ha)
      rcases L.other (o := .unref v) (List.contains_iff_mem.mpr hheld) rfl trivial hgot with
        ⟨w', hstep, hsafe, hok⟩ | ⟨hmax, -⟩
      · refine Or.inl ⟨⟨w', s.getters, s.got.erase (t, v)⟩, ?_, hsafe, hok⟩
        show (s.family.unref v >>= _) = _
        replace hstep : s.family.unref v = some w' := hstep
        rw [hstep]
        rfl
      · exact hmax.elim

end

theorem lookupsOk_start : LookupsOk Lookups.start fun _ => [] where
  sound := sound_start
  pairs _ _ _ hin := absurd hin List.not_mem_nil
  loaded _ _ hin := absurd hin List.not_mem_nil
  included _ := Nat.zero_le _

/-- **SAFE LOOKUPS.**  In every interleaving in which no section meets a thread
inside `dict_get_with_ref`, no getter follows a pointer to freed memory, and what
it returns is live and counts the reference.  From any state so reached, a step
leaves the getters safe if and only if it meets none of them.  A step has no outcome
only where a counter it raises is `INT_MAX`, and there the interleaving ends. -/
theorem get_with_ref_safe {ops : List LookupOp} (hl : clearLookups.Legal Lookups.start ops) :
    (∃ s, clearLookups.run Lookups.start ops = some s ∧ SafeGets s ∧
      ∀ o, lookups.allowed s o → lookupFits s o →
        (∃ s', lookups.step s o = some s' ∧ (SafeGets s' ↔ clearOf s o)) ∨
          (s.AtIntMax o ∧ lookups.step s o = none)) ∨
      ∃ pre o post s, ops = pre ++ o :: post ∧ clearLookups.run Lookups.start pre = some s ∧ SafeGets s ∧
        s.AtIntMax o ∧ clearLookups.step s o = none := by
  have hstep : ∀ s o, (∃ ents, LookupsOk s ents) → clearLookups.allowed s o →
      (∃ s', clearLookups.step s o = some s' ∧ ∃ ents', LookupsOk s' ents') ∨
        (s.AtIntMax o ∧ clearLookups.step s o = none) := by
    intro s o hs ha
    obtain ⟨ents, L⟩ := hs
    obtain ⟨hallowed, hfit, hclear⟩ := ha
    refine (lookup_step L o hallowed hfit).imp_left ?_
    intro h
    obtain ⟨s', h, -, hok⟩ := h
    exact ⟨s', h, hok hclear⟩
  rcases clearLookups.run_inv_or hstep ops Lookups.start ⟨_, lookupsOk_start⟩ hl with
    ⟨s, hrun, ents, L⟩ | ⟨pre, o, post, s, hops, hpre, ⟨ents, L⟩, hstuck⟩
  · refine Or.inl ⟨s, hrun, L.safe, ?_⟩
    intro o ha hfit
    refine (lookup_step L o ha hfit).imp_left ?_
    intro h
    obtain ⟨s', h, hsafe, -⟩ := h
    exact ⟨s', h, hsafe⟩
  · exact Or.inr ⟨pre, o, post, s, hops, hpre, L.safe, hstuck⟩

/-- A value is set again, by another thread, between the lookup and the read. -/
def setBetween : List LookupOp :=
  [.other .dictNew, .other (.newData Data.zero), .other (.newData Data.zero),
    .other (.set 0 (some textKey) 1), .lookup 7 0 textKey, .other (.set 0 (some textKey) 2), .load 7,
    .ref 7]

theorem get_with_ref_safe_set_between :
    ∃ s, clearLookups.run Lookups.start setBetween = some s ∧ SafeGets s ∧ s.got = [(7, 2)] ∧
      ∀ o, lookups.allowed s o → lookupFits s o →
        (∃ s', lookups.step s o = some s' ∧ (SafeGets s' ↔ clearOf s o)) ∨
          (s.AtIntMax o ∧ lookups.step s o = none) := by
  have hlegal : clearLookups.Legal Lookups.start setBetween := clearLookups.legal_of_check (by decide +kernel)
  have hend : (clearLookups.run Lookups.start setBetween).map Lookups.got = some [(7, 2)] := by decide +kernel
  rcases get_with_ref_safe hlegal with ⟨s, hrun, hsafe, hnext⟩ | ⟨pre, o, post, s, hops, hpre, -, -, hstuck⟩
  · rw [hrun, Option.map_some, Option.some.injEq] at hend
    exact ⟨s, hrun, hsafe, hend, hnext⟩
  · rw [hops, clearLookups.run_stuck hpre hstuck] at hend
    cases hend

/-- The key is deleted between the lookup and the read. -/
def deletedBetween : List LookupOp :=
  [.other .dictNew, .other (.newData Data.zero), .other (.set 0 (some textKey) 1), .lookup 7 0 textKey,
    .other (.del 0 textKey), .load 7]

/-- **Not every lookup is safe**: the pair that was found has been freed. -/
theorem deleted_between_reads :
    ¬ ∀ ops, lookups.Legal Lookups.start ops →
      ∃ s, lookups.run Lookups.start ops = some s ∧ SafeGets s := by
  intro hall
  obtain ⟨s, hrun, -⟩ := hall deletedBetween (lookups.legal_of_check (by decide +kernel))
  have hnone : (lookups.run Lookups.start deletedBetween).isNone = true := by decide +kernel
  rw [hrun] at hnone
  cases hnone

end LzLib.Dict
