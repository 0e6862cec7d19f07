/-
  LzLib.Rbthash.TreesMap
  ──────────────────────
  **THE HASH TABLE OVER THE TREES IN MEMORY IS A MAP.**

  Three levels: the calls of `rbthash.c` on the trees of `rb.c` in memory, the same
  calls on buckets that are sets in order, and a map from keys to data in which the
  first data of a key stays.  Each level answers as the one above.

  Main result: `rbthash_trees_map`.
-/
import LzLib.Rbthash.TreesDef
import LzLib.Rbthash.RbthashMap
import LzLib.Rb.Destroy

namespace LzLib.Rbthash.Trees

open LzLib.Foundation LzLib.Rb

variable {δ : Type}

/-! ## §1. Buckets that are sets in order. -/

theorem rbthashComparator_compares : Compares (rbthashComparator (δ := δ)) :=
  rbthashComparator_decides.compares fun h h' => shortlex_trans (r := (· < ·)) (fun hx hy => UInt8.lt_trans hx hy) h h'

/-- The sets in order of entries. -/
abbrev entrySets (δ : Type) : ItemSets (RbthashEntry δ) rbthashComparator := orderedSets rbthashComparator_compares

/-- The table `raw` in memory is the table `tbl` of sets. -/
structure Simulates (raw : RbthashTable δ) (tbl : Rbthash.RbthashTable (entrySets δ)) : Prop where
  numbuckets : raw.numbuckets = tbl.numbuckets
  hashfunc : raw.hashfunc = tbl.hashfunc
  dfunc : raw.dfunc = tbl.dfunc
  outstanding : raw.outstanding = tbl.outstanding
  destroyed : raw.destroyed = tbl.destroyed
  buckets : ∀ x, ∃ T, RbOk rbthashComparator (raw.buckets x) T ∧ items T = (entrySets δ).items (tbl.buckets x)

section Simulation

variable {raw : RbthashTable δ} {tbl : Rbthash.RbthashTable (entrySets δ)}

theorem simulates_init (buckets : Nat) (hfunc : Bytes → UInt32) (dfunc : Bool) :
    Simulates (rbthashTableInit buckets hfunc dfunc : RbthashTable δ) (Rbthash.rbthashTableInit _ buckets hfunc dfunc) :=
  ⟨rfl, rfl, rfl, rfl, rfl, fun _ => ⟨.nil, rbCreate_ok, rfl⟩⟩

theorem Simulates.keyBucket (h : Simulates raw tbl) (key : Bytes) :
    rbthashKeyBucket raw key = rbthashKeyBucket tbl key := by
  rw [rbthashKeyBucket, rbthashKeyBucket, h.hashfunc, h.numbuckets]

theorem Simulates.setBucket (h : Simulates raw tbl) {n : Nat} {t : RbTable (RbthashEntry δ)} {b : (entrySets δ).Table}
    (hb : ∃ T, RbOk rbthashComparator t T ∧ items T = (entrySets δ).items b) :
    Simulates (raw.setBucket n t) { tbl with buckets := Function.update tbl.buckets n b } := by
  refine ⟨h.numbuckets, h.hashfunc, h.dfunc, h.outstanding, h.destroyed, ?_⟩
  intro x
  show ∃ T, RbOk _ (Function.update raw.buckets n t x) T ∧ items T = (entrySets δ).items (Function.update tbl.buckets n b x)
  by_cases hx : x = n
  · rw [hx, Function.update_self, Function.update_self]
    exact hb
  · rw [Function.update_of_ne hx, Function.update_of_ne hx]
    exact h.buckets x

theorem Simulates.memPut (h : Simulates raw tbl) : Simulates raw.memPut tbl.memPut :=
  ⟨h.numbuckets, h.hashfunc, h.dfunc, congrArg (· - 1) h.outstanding, h.destroyed, h.buckets⟩

theorem Simulates.deinitEntry (h : Simulates raw tbl) (entry : RbthashEntry δ) :
    Simulates (rbthashDeinitEntry raw entry) (rbthashDeinitEntry tbl entry) := by
  unfold rbthashDeinitEntry
  cases entry.data with
  | none => exact h.memPut
  | some data =>
      dsimp only
      by_cases hd : tbl.dfunc = true
      · rw [if_pos hd, if_pos (h.dfunc.trans hd)]
        exact Simulates.memPut ⟨h.numbuckets, h.hashfunc, h.dfunc, h.outstanding, congrArg (· ++ [data]) h.destroyed,
          h.buckets⟩
      · rw [if_neg hd, if_neg (h.dfunc.symm ▸ hd)]
        exact h.memPut

/-- What the entry of an insertion is, or that there is none. -/
theorem Simulates.initEntry (h : Simulates raw tbl) (data : Option δ) (key : Option Bytes) (alloc : InsertAlloc) :
    (rbthashInitEntry raw data key alloc).2
        = (rbthashInitEntry tbl data key ⟨alloc.entry, alloc.keyCopy, alloc.node.isSome⟩).2 ∧
      Simulates (rbthashInitEntry raw data key alloc).1
        (rbthashInitEntry tbl data key ⟨alloc.entry, alloc.keyCopy, alloc.node.isSome⟩).1 := by
  unfold rbthashInitEntry
  have hmore : Simulates { raw with outstanding := raw.outstanding + 1 } { tbl with outstanding := tbl.outstanding + 1 } :=
    ⟨h.numbuckets, h.hashfunc, h.dfunc, congrArg (· + 1) h.outstanding, h.destroyed, h.buckets⟩
  cases data with
  | none => exact ⟨rfl, h⟩
  | some data =>
      cases key with
      | none => exact ⟨rfl, h⟩
      | some key =>
          dsimp only
          split_ifs
          · exact ⟨by rw [h.hashfunc], hmore⟩
          · exact ⟨rfl, hmore.memPut⟩
          · exact ⟨rfl, h⟩

/-- The calls on one bucket are allowed. -/
def Roomy (raw : RbthashTable δ) (node : Option Addr) : Prop :=
  ∀ x < raw.numbuckets, (raw.buckets x).count + 2 < 2 ^ 25 ∧
    match node with
    | some n => n ≠ 0 ∧ (raw.buckets x).nodes n = none
    | none => True

theorem Simulates.insertEntry (h : Simulates raw tbl) (hpos : 1 ≤ tbl.numbuckets) (entry : RbthashEntry δ) {node : Option Addr}
    (hroomy : Roomy raw node) :
    ∃ raw', rbthashInsertEntry raw entry node = some (raw', (Rbthash.rbthashInsertEntry tbl entry node.isSome).2) ∧
      Simulates raw' (Rbthash.rbthashInsertEntry tbl entry node.isSome).1 := by
  have hn : rbthashEntryBucket raw entry = rbthashEntryBucket tbl entry := by
    rw [rbthashEntryBucket, rbthashEntryBucket, h.numbuckets]
  have hlt : rbthashEntryBucket tbl entry < raw.numbuckets := by
    rw [h.numbuckets]
    exact Nat.mod_lt _ hpos
  obtain ⟨T, hok, hitems⟩ := h.buckets (rbthashEntryBucket tbl entry)
  have hallowed : rbAllowed rbMaxHeight (raw.buckets (rbthashEntryBucket tbl entry)) (.probe entry node) := by
    refine ⟨(hroomy _ hlt).1, ?_⟩
    cases node with
    | none => trivial
    | some n => exact (hroomy _ hlt).2
  obtain ⟨t', p, T', hprobe, hp, hok', hitems'⟩ := rbProbe_refines rbthashComparator_compares hok hallowed
  have hsets := Prod.ext_iff.mp (orderedSets_probe rbthashComparator_compares
    (tbl.buckets (rbthashEntryBucket tbl entry)) entry node)
  rw [← hitems] at hsets
  rw [rbthashInsertEntry_probe tbl rfl]
  refine ⟨raw.setBucket (rbthashEntryBucket tbl entry) t', ?_, h.setBucket ⟨T', hok', hitems'.trans hsets.1.symm⟩⟩
  rw [rbthashInsertEntry, hn, hprobe]
  simp only [Option.bind_eq_bind, Option.bind_some, hp, ← hsets.2]
  rfl

theorem initEntry_buckets (raw : RbthashTable δ) (data : Option δ) (key : Option Bytes) (alloc : InsertAlloc) :
    (rbthashInitEntry raw data key alloc).1.numbuckets = raw.numbuckets ∧
      (rbthashInitEntry raw data key alloc).1.buckets = raw.buckets := by
  unfold rbthashInitEntry
  cases data with
  | none => exact ⟨rfl, rfl⟩
  | some data =>
      cases key with
      | none => exact ⟨rfl, rfl⟩
      | some key =>
          dsimp only
          split_ifs <;> exact ⟨rfl, rfl⟩

theorem Simulates.insert (h : Simulates raw tbl) (hpos : 1 ≤ tbl.numbuckets) (data : Option δ) (key : Option Bytes)
    {alloc : InsertAlloc} (hroomy : Roomy raw alloc.node) :
    ∃ raw', rbthashInsert raw data key alloc
        = some (raw', (Rbthash.rbthashInsert tbl data key ⟨alloc.entry, alloc.keyCopy, alloc.node.isSome⟩).2) ∧
      Simulates raw' (Rbthash.rbthashInsert tbl data key ⟨alloc.entry, alloc.keyCopy, alloc.node.isSome⟩).1 := by
  obtain ⟨hentry, hinit⟩ := h.initEntry data key alloc
  have hroomy' : Roomy (rbthashInitEntry raw data key alloc).1 alloc.node := by
    have hsame := initEntry_buckets raw data key alloc
    intro x hx
    rw [hsame.1] at hx
    rw [hsame.2]
    exact hroomy x hx
  have hpos' := hinit.numbuckets.symm.trans ((initEntry_buckets raw data key alloc).1.trans h.numbuckets)
  unfold rbthashInsert Rbthash.rbthashInsert
  generalize rbthashInitEntry raw data key alloc = r₁ at hentry hinit hroomy' ⊢
  generalize rbthashInitEntry tbl data key ⟨alloc.entry, alloc.keyCopy, alloc.node.isSome⟩ = r₂
    at hentry hinit hpos' ⊢
  obtain ⟨raw₁, e₁⟩ := r₁
  obtain ⟨tbl₁, e₂⟩ := r₂
  dsimp only at hentry hinit hroomy' hpos'
  subst hentry
  cases e₁ with
  | none => exact ⟨raw₁, rfl, hinit⟩
  | some entry =>
      obtain ⟨raw₂, hinsert, hsim⟩ := hinit.insertEntry (hpos' ▸ hpos) entry hroomy'
      dsimp only
      rw [hinsert]
      by_cases hret : (Rbthash.rbthashInsertEntry tbl₁ entry alloc.node.isSome).2 = -1
      · exact ⟨rbthashDeinitEntry raw₂ entry, by simp [hret], by simpa [hret] using hsim.deinitEntry entry⟩
      · exact ⟨raw₂, by simp [hret], by simpa [hret] using hsim⟩

theorem Simulates.get (h : Simulates raw tbl) (key : Option Bytes) :
    rbthashGet raw key = some (Rbthash.rbthashGet tbl key) := by
  cases key with
  | none => rfl
  | some key =>
      obtain ⟨T, hok, hitems⟩ := h.buckets (rbthashKeyBucket tbl key)
      rw [rbthashGet, h.keyBucket, rbFind_spec rbthashComparator_compares hok, hitems, rbthashGet_eq]
      rfl

theorem Simulates.remove (h : Simulates raw tbl) (hpos : 1 ≤ tbl.numbuckets) (key : Option Bytes) (hroomy : Roomy raw none) :
    ∃ raw', rbthashRemove raw key = some (raw', (Rbthash.rbthashRemove tbl key).2) ∧
      Simulates raw' (Rbthash.rbthashRemove tbl key).1 := by
  cases key with
  | none => exact ⟨raw, rfl, h⟩
  | some key =>
      have hlt : rbthashKeyBucket tbl key < raw.numbuckets := by
        rw [h.numbuckets]
        exact Nat.mod_lt _ hpos
      obtain ⟨T, hok, hitems⟩ := h.buckets (rbthashKeyBucket tbl key)
      have hallowed : rbAllowed rbMaxHeight (raw.buckets (rbthashKeyBucket tbl key)) (.delete (searchEntry key)) :=
        ⟨(hroomy _ hlt).1, trivial⟩
      obtain ⟨t', T', hcall, hok', hitems'⟩ := rbCall_refines rbthashComparator_compares hok hallowed
      rw [hitems] at hcall hitems'
      rw [rbthashRemove, h.keyBucket, Rbthash.rbthashRemove]
      have hset := h.setBucket (n := rbthashKeyBucket tbl key) (t := t')
        (b := ((entrySets δ).delete (tbl.buckets (rbthashKeyBucket tbl key)) (searchEntry key)).1) ⟨T', hok', hitems'⟩
      have hdelete : rbDelete rbthashComparator rbMaxHeight (raw.buckets (rbthashKeyBucket tbl key)) (searchEntry key)
          = some (t', ((entrySets δ).delete (tbl.buckets (rbthashKeyBucket tbl key)) (searchEntry key)).2) := hcall
      dsimp only
      rw [hdelete]
      cases ((entrySets δ).delete (tbl.buckets (rbthashKeyBucket tbl key)) (searchEntry key)).2 with
      | none => exact ⟨_, rfl, hset⟩
      | some entry => exact ⟨_, rfl, hset.memPut⟩

end Simulation

/-! ## §2. The map. -/

/-- The data of the keys, and what the destructor was called on. -/
structure MapState (δ : Type) where
  map : Bytes → Option δ
  destroyed : List δ

/-- **What the calls mean**: the first data of a key stays until it is removed, and
data that could not be stored is destroyed. -/
def mapStep (dfunc : Bool) (s : MapState δ) : RbthashOp δ → MapState δ × Answer δ
  | .insert (some data) (some key) alloc =>
      if alloc.entry && alloc.keyCopy then
        match s.map key with
        | some _ => (s, .inl 0)
        | none =>
            if alloc.node.isSome then ({ s with map := Function.update s.map key (some data) }, .inl 0)
            else ({ s with destroyed := if dfunc then s.destroyed ++ [data] else s.destroyed }, .inl (-1))
      else (s, .inl (-1))
  | .insert _ _ _ => (s, .inl (-1))
  | .get key => (s, .inr (key.bind s.map))
  | .remove none => (s, .inr none)
  | .remove (some key) => ({ s with map := Function.update s.map key none }, .inr (s.map key))

/-- The table of sets is the map. -/
structure Maps (dfunc : Bool) (tbl : Rbthash.RbthashTable (entrySets δ)) (s : MapState δ) : Prop where
  ok : RbthashOk tbl
  dfunc_eq : tbl.dfunc = dfunc
  stored : ∀ key, s.map key = (tbl.stored key).bind RbthashEntry.data
  destroyed : s.destroyed = tbl.destroyed

section Map

variable {dfunc : Bool} {tbl : Rbthash.RbthashTable (entrySets δ)} {s : MapState δ}

/-- No entry is without data. -/
theorem Maps.map_eq_none_iff (h : Maps dfunc tbl s) (key : Bytes) : s.map key = none ↔ tbl.stored key = none := by
  rw [h.stored]
  cases hstored : tbl.stored key with
  | none => exact ⟨fun _ => rfl, fun _ => rfl⟩
  | some e =>
      have he := (stored_eq_some_iff h.ok).mp hstored
      obtain ⟨n, -, hmem⟩ := List.mem_flatMap.mp he.1
      exact ⟨fun hdata => absurd hdata (h.ok.filled n e hmem), nofun⟩

theorem mapStep_refused {data : Option δ} {key : Option Bytes} {alloc : InsertAlloc}
    (early : ¬ ReachesTree data key ⟨alloc.entry, alloc.keyCopy, alloc.node.isSome⟩) :
    mapStep dfunc s (.insert data key alloc) = (s, .inl (-1)) := by
  cases data with
  | none => rfl
  | some data =>
      cases key with
      | none => rfl
      | some key =>
          have hboth : (alloc.entry && alloc.keyCopy) = false := by
            simpa [ReachesTree] using early
          simp [mapStep, hboth]

/-- **An insertion** does to the map what it means. -/
theorem Maps.insert (h : Maps dfunc tbl s) (data : Option δ) (key : Option Bytes) (alloc : InsertAlloc) :
    (mapStep dfunc s (.insert data key alloc)).2
        = .inl (Rbthash.rbthashInsert tbl data key ⟨alloc.entry, alloc.keyCopy, alloc.node.isSome⟩).2 ∧
      Maps dfunc (Rbthash.rbthashInsert tbl data key ⟨alloc.entry, alloc.keyCopy, alloc.node.isSome⟩).1
        (mapStep dfunc s (.insert data key alloc)).1 := by
  have hok := rbthashInsert_ok h.ok data key ⟨alloc.entry, alloc.keyCopy, alloc.node.isSome⟩
  have hframe : ∀ key', key ≠ some key' →
      (Rbthash.rbthashInsert tbl data key ⟨alloc.entry, alloc.keyCopy, alloc.node.isSome⟩).1.stored key' = tbl.stored key' :=
    fun key' hne => rbthashInsert_frame data _ hne
  have hstored : ∀ key', key = some key' → tbl.stored key' = none →
      (Rbthash.rbthashInsert tbl data key ⟨alloc.entry, alloc.keyCopy, alloc.node.isSome⟩).2 = 0 →
      ((Rbthash.rbthashInsert tbl data key ⟨alloc.entry, alloc.keyCopy, alloc.node.isSome⟩).1.stored key').bind
          RbthashEntry.data = data := by
    rintro key' rfl hnone hret
    rw [rbthashInsert_stored hret, hnone]
  have hcase := rbthashInsert_case tbl data key ⟨alloc.entry, alloc.keyCopy, alloc.node.isSome⟩
  generalize Rbthash.rbthashInsert tbl data key ⟨alloc.entry, alloc.keyCopy, alloc.node.isSome⟩ = r
    at hcase hok hframe hstored ⊢
  obtain ⟨entry, keyCopy, node⟩ := alloc
  generalize hnode : node.isSome = b at hcase
  cases hcase with
  | refused early =>
      rw [mapStep_refused (by rwa [← hnode] at early)]
      exact ⟨rfl, h⟩
  | @found data key _ e present =>
      obtain ⟨d, hd⟩ := Option.ne_none_iff_exists'.mp fun hnone =>
        Option.some_ne_none e (present.symm.trans ((h.map_eq_none_iff key).mp hnone))
      have hstep : mapStep dfunc s (.insert (some data) (some key) ⟨true, true, node⟩) = (s, .inl 0) := by
        simp [mapStep, hd]
      rw [hstep]
      exact ⟨rfl, hok, h.dfunc_eq, h.stored, h.destroyed⟩
  | @noNode data key absent =>
      have hmap := (h.map_eq_none_iff key).mpr absent
      have hstep : mapStep dfunc s (.insert (some data) (some key) ⟨true, true, node⟩)
          = ({ s with destroyed := if dfunc then s.destroyed ++ [data] else s.destroyed }, .inl (-1)) := by
        simp [mapStep, hmap, hnode]
      rw [hstep]
      refine ⟨rfl, hok, h.dfunc_eq, h.stored, ?_⟩
      dsimp only
      rw [h.destroyed, h.dfunc_eq]
  | @added data key absent =>
      have hmap := (h.map_eq_none_iff key).mpr absent
      have hstep : mapStep dfunc s (.insert (some data) (some key) ⟨true, true, node⟩)
          = ({ s with map := Function.update s.map key (some data) }, .inl 0) := by
        simp [mapStep, hmap, hnode]
      rw [hstep]
      refine ⟨rfl, hok, h.dfunc_eq, ?_, h.destroyed⟩
      intro key'
      by_cases hkey : key' = key
      · rw [hkey]
        exact (Function.update_self _ _ _).trans (hstored key rfl absent rfl).symm
      · rw [hframe key' fun hsame => hkey (Option.some.inj hsame).symm, ← h.stored key']
        exact Function.update_of_ne hkey _ _

/-- **A removal** does to the map what it means. -/
theorem Maps.remove (h : Maps dfunc tbl s) (key : Option Bytes) :
    (mapStep dfunc s (.remove key)).2 = .inr (Rbthash.rbthashRemove tbl key).2 ∧
      Maps dfunc (Rbthash.rbthashRemove tbl key).1 (mapStep dfunc s (.remove key)).1 := by
  cases key with
  | none => exact ⟨rfl, h⟩
  | some key =>
      have hremove : (Rbthash.rbthashRemove tbl (some key)).2 = (tbl.stored key).bind RbthashEntry.data ∧
          (Rbthash.rbthashRemove tbl (some key)).1.stored key = none := rbthashRemove_stored
      have hcase : (Rbthash.rbthashRemove tbl (some key)).1.dfunc = tbl.dfunc ∧
          (Rbthash.rbthashRemove tbl (some key)).1.destroyed = tbl.destroyed := by
        have hcase := rbthashRemove_case tbl (some key)
        generalize Rbthash.rbthashRemove tbl (some key) = r at hcase ⊢
        cases hcase <;> exact ⟨rfl, rfl⟩
      refine ⟨?_, rbthashRemove_ok h.ok _, hcase.1.trans h.dfunc_eq, ?_, h.destroyed.trans hcase.2.symm⟩
      · rw [hremove.1, ← h.stored]
        rfl
      · intro key'
        by_cases hkey : key' = key
        · rw [hkey, hremove.2]
          exact Function.update_self _ _ _
        · rw [rbthashRemove_frame fun hsame => hkey (Option.some.inj hsame).symm, ← h.stored]
          exact Function.update_of_ne hkey _ _

theorem Maps.get (h : Maps dfunc tbl s) (key : Option Bytes) : key.bind s.map = Rbthash.rbthashGet tbl key := by
  cases key with
  | none => rfl
  | some key => exact (h.stored key).trans (rbthashGet_eq tbl key).symm

end Map

/-! ## §3. Runs. -/

/-- The table in memory is the map. -/
def Represents (dfunc : Bool) (raw : RbthashTable δ) (s : MapState δ) : Prop :=
  ∃ tbl : Rbthash.RbthashTable (entrySets δ), Simulates raw tbl ∧ Maps dfunc tbl s

theorem rbthashStep_refines {dfunc : Bool} {raw : RbthashTable δ} {s : MapState δ} {op : RbthashOp δ}
    (h : Represents dfunc raw s) (hallowed : rbthashAllowed raw op) :
    ∃ raw', rbthashStep raw op = some (raw', (mapStep dfunc s op).2) ∧ Represents dfunc raw' (mapStep dfunc s op).1 := by
  obtain ⟨tbl, hsim, hmaps⟩ := h
  have hpos := hmaps.ok.nonempty
  cases op with
  | insert data key alloc =>
      have hroomy : Roomy raw alloc.node := by
        intro x hx
        refine ⟨hallowed.1 x hx, ?_⟩
        have hnode := hallowed.2
        dsimp only at hnode
        cases hn : alloc.node with
        | none => trivial
        | some n =>
            rw [hn] at hnode
            exact ⟨hnode.1, hnode.2 x hx⟩
      obtain ⟨raw', hinsert, hsim'⟩ := hsim.insert hpos data key hroomy
      obtain ⟨hanswer, hmaps'⟩ := hmaps.insert data key alloc
      exact ⟨raw', by rw [rbthashStep, hinsert, hanswer]; rfl, _, hsim', hmaps'⟩
  | get key => exact ⟨raw, by rw [rbthashStep, hsim.get, ← hmaps.get]; rfl, tbl, hsim, hmaps⟩
  | remove key =>
      obtain ⟨raw', hremove, hsim'⟩ := hsim.remove hpos key fun x hx => ⟨hallowed.1 x hx, trivial⟩
      obtain ⟨hanswer, hmaps'⟩ := hmaps.remove key
      exact ⟨raw', by rw [rbthashStep, hremove, hanswer]; rfl, _, hsim', hmaps'⟩

theorem represents_init {buckets : Nat} (hb : 1 ≤ buckets) (hfunc : Bytes → UInt32) (dfunc : Bool) :
    Represents dfunc (rbthashTableInit buckets hfunc dfunc : RbthashTable δ) ⟨fun _ => none, []⟩ :=
  ⟨_, simulates_init buckets hfunc dfunc, rbthashOk_init _ hb hfunc dfunc, rfl, fun _ => rfl, rfl⟩

/-! ## §4. The end. -/

/-- The data of the entries, where there is a destructor. -/
theorem foldl_deinitEntry (es : List (RbthashEntry δ)) (raw : RbthashTable δ) :
    (es.foldl rbthashDeinitEntry raw).buckets = raw.buckets ∧
      (es.foldl rbthashDeinitEntry raw).dfunc = raw.dfunc ∧
      (es.foldl rbthashDeinitEntry raw).destroyed
        = raw.destroyed ++ if raw.dfunc then es.filterMap RbthashEntry.data else [] := by
  induction es generalizing raw with
  | nil => exact ⟨rfl, rfl, by split_ifs <;> exact (List.append_nil _).symm⟩
  | cons e es ih =>
      have hone : (rbthashDeinitEntry raw e).buckets = raw.buckets ∧ (rbthashDeinitEntry raw e).dfunc = raw.dfunc ∧
          (rbthashDeinitEntry raw e).destroyed = raw.destroyed ++ if raw.dfunc then e.data.toList else [] := by
        unfold rbthashDeinitEntry
        cases e.data with
        | none => exact ⟨rfl, rfl, by simp [RbthashTableT.memPut]⟩
        | some x =>
            dsimp only
            split_ifs with hd
            · exact ⟨rfl, rfl, rfl⟩
            · exact ⟨rfl, rfl, (List.append_nil _).symm⟩
      obtain ⟨hbuckets, hdfunc, hdestroyed⟩ := ih (rbthashDeinitEntry raw e)
      rw [List.foldl_cons, hbuckets, hdfunc, hdestroyed, hone.1, hone.2.1, hone.2.2]
      refine ⟨rfl, rfl, ?_⟩
      split_ifs
      · cases hdata : e.data <;> simp [hdata]
      · simp

theorem destroyBuckets_spec {xs : List Nat} (hnodup : xs.Nodup) {raw : RbthashTable δ} {es : Nat → List (RbthashEntry δ)}
    (h : ∀ x ∈ xs, ∃ T, RbOk rbthashComparator (raw.buckets x) T ∧ items T = es x) :
    ∃ raw', rbthashTableDestroyBuckets raw xs = some raw' ∧ (∀ x ∈ xs, (raw'.buckets x).nodes = fun _ => none) ∧
      (∀ x ∉ xs, raw'.buckets x = raw.buckets x) ∧
      raw'.destroyed = raw.destroyed ++ if raw.dfunc then (xs.flatMap es).filterMap RbthashEntry.data else [] := by
  induction xs generalizing raw with
  | nil => exact ⟨raw, rfl, nofun, fun _ _ => rfl, by split_ifs <;> exact (List.append_nil _).symm⟩
  | cons x xs ih =>
      obtain ⟨hx, hrest⟩ := List.nodup_cons.mp hnodup
      obtain ⟨T, hok, hitems⟩ := h x (List.mem_cons_self ..)
      have hdestroy := rbDestroy_spec hok true
      rw [if_pos rfl, hitems] at hdestroy
      obtain ⟨hbuckets, hdfunc, hdestroyed⟩ :=
        foldl_deinitEntry (es x) (raw.setBucket x { raw.buckets x with nodes := fun _ => none })
      have hother : ∀ y, y ≠ x →
          (raw.setBucket x { raw.buckets x with nodes := fun _ => none }).buckets y = raw.buckets y := by
        intro y hy
        show Function.update raw.buckets x _ y = _
        rw [Function.update_of_ne hy]
      have hnext : ∀ y ∈ xs, ∃ T, RbOk rbthashComparator
          (((es x).foldl rbthashDeinitEntry (raw.setBucket x { raw.buckets x with nodes := fun _ => none })).buckets y) T ∧
            items T = es y := by
        intro y hy
        rw [hbuckets, hother y (ne_of_mem_of_not_mem hy hx)]
        exact h y (List.mem_cons_of_mem _ hy)
      obtain ⟨raw', hloop, hfreed, hkept, hall⟩ := ih hrest hnext
      refine ⟨raw', ?_, ?_, ?_, ?_⟩
      · rw [rbthashTableDestroyBuckets, hdestroy]
        exact hloop
      · intro y hy
        rcases List.mem_cons.mp hy with rfl | hy
        · rw [hkept _ hx, hbuckets]
          show (Function.update raw.buckets y _ y).nodes = _
          rw [Function.update_self]
        · exact hfreed y hy
      · intro y hy
        rw [List.mem_cons, not_or] at hy
        rw [hkept y hy.2, hbuckets, hother y hy.1]
      · rw [hall, hdestroyed, hdfunc]
        show raw.destroyed ++ (if raw.dfunc then _ else _) ++ (if raw.dfunc then _ else _) = _
        split_ifs
        · rw [List.append_assoc, List.flatMap_cons, List.filterMap_append]
        · simp

/-- The keys of the entries are the keys of the map, each once. -/
theorem Maps.keys {dfunc : Bool} {tbl : Rbthash.RbthashTable (entrySets δ)} {s : MapState δ} (h : Maps dfunc tbl s) :
    (tbl.entries.map RbthashEntry.key).Nodup ∧ (∀ key, key ∈ tbl.entries.map RbthashEntry.key ↔ (s.map key).isSome) ∧
      tbl.entries.filterMap RbthashEntry.data = (tbl.entries.map RbthashEntry.key).filterMap s.map := by
  have hdata : ∀ e ∈ tbl.entries, s.map e.key = e.data := by
    intro e he
    rw [h.stored, (stored_eq_some_iff h.ok).mpr ⟨he, rfl⟩]
    rfl
  refine ⟨?_, ?_, ?_⟩
  · rw [Rbthash.RbthashTable.entries, List.map_flatMap, List.nodup_flatMap]
    refine ⟨fun x _ => (entrySets δ).keys_nodup rbthashComparator_comparesKeys _, ?_⟩
    refine List.nodup_range.imp ?_
    intro x y hxy key hx hy
    obtain ⟨e, he, rfl⟩ := List.mem_map.mp hx
    obtain ⟨e', he', hkey⟩ := List.mem_map.mp hy
    have h₁ := h.ok.placed x e he
    have h₂ := h.ok.placed y e' he'
    rw [hkey] at h₂
    exact hxy (h₁.symm.trans h₂)
  · intro key
    rw [List.mem_map]
    constructor
    · rintro ⟨e, he, rfl⟩
      rw [hdata e he]
      obtain ⟨n, -, hmem⟩ := List.mem_flatMap.mp he
      exact Option.isSome_iff_ne_none.mpr (h.ok.filled n e hmem)
    · intro hkey
      cases hstored : tbl.stored key with
      | none =>
          rw [(h.map_eq_none_iff key).mpr hstored] at hkey
          cases hkey
      | some e => exact ⟨e, (stored_eq_some_iff h.ok).mp hstored⟩
  · rw [List.filterMap_map]
    exact List.filterMap_congr fun e he => (hdata e he).symm

/-- **THE HASH TABLE IN MEMORY IS A MAP**: every run of calls answers as the map
does, and none gets stuck.  At its end `rbthash_table_destroy` calls the destructor
on the data of each key that is there, once, and frees every node of every tree. -/
theorem rbthash_trees_map {buckets : Nat} (hb : 1 ≤ buckets) (hfunc : Bytes → UInt32) (dfunc : Bool)
    {calls : List (RbthashOp δ)} (hlegal : (rbthashServer δ).Legal (rbthashTableInit buckets hfunc dfunc) calls) :
    ∃ (raw : RbthashTable δ) (s : MapState δ), s = (Server.specRun (mapStep dfunc) ⟨fun _ => none, []⟩ calls).1 ∧
      (rbthashServer δ).run (rbthashTableInit buckets hfunc dfunc) calls
        = some (raw, (Server.specRun (mapStep dfunc) ⟨fun _ => none, []⟩ calls).2) ∧
      ∃ (raw' : RbthashTable δ) (keys : List Bytes), rbthashTableDestroy raw = some raw' ∧
        (∀ x < raw.numbuckets, (raw'.buckets x).nodes = fun _ => none) ∧
        keys.Nodup ∧ (∀ key, key ∈ keys ↔ (s.map key).isSome) ∧
        raw'.destroyed = s.destroyed ++ if dfunc then keys.filterMap s.map else [] := by
  obtain ⟨raw, hrun, tbl, hsim, hmaps⟩ := (rbthashServer δ).run_refines (R := Represents dfunc)
    (fun _ _ _ h hallowed => rbthashStep_refines h hallowed) (represents_init hb hfunc dfunc) hlegal
  obtain ⟨raw', hdestroy, hfreed, -, hdestroyed⟩ := destroyBuckets_spec
    (List.nodup_range : (List.range raw.numbuckets).Nodup) (fun x _ => hsim.buckets x)
  obtain ⟨hnodup, hkeys, hdata⟩ := hmaps.keys
  refine ⟨raw, _, rfl, hrun, raw', tbl.entries.map RbthashEntry.key, hdestroy, ?_, hnodup, hkeys, ?_⟩
  · exact fun x hx => hfreed x (List.mem_range.mpr hx)
  · rw [hdestroyed, hsim.destroyed, ← hmaps.destroyed, hsim.dfunc, hmaps.dfunc_eq, ← hdata, hsim.numbuckets]
    rfl

instance (tbl : RbthashTable δ) (op : RbthashOp δ) : Decidable ((rbthashServer δ).allowed tbl op) :=
  match op with
  | .insert _ _ ⟨_, _, some n⟩ =>
      decidable_of_iff ((∀ x < tbl.numbuckets, (tbl.buckets x).count + 2 < 2 ^ 25) ∧
        n ≠ 0 ∧ ∀ x < tbl.numbuckets, ((tbl.buckets x).nodes n).isNone) (by simp [rbthashServer, rbthashAllowed])
  | .insert _ _ ⟨_, _, none⟩ =>
      decidable_of_iff (∀ x < tbl.numbuckets, (tbl.buckets x).count + 2 < 2 ^ 25) (by simp [rbthashServer, rbthashAllowed])
  | .get _ =>
      decidable_of_iff (∀ x < tbl.numbuckets, (tbl.buckets x).count + 2 < 2 ^ 25) (by simp [rbthashServer, rbthashAllowed])
  | .remove _ =>
      decidable_of_iff (∀ x < tbl.numbuckets, (tbl.buckets x).count + 2 < 2 ^ 25) (by simp [rbthashServer, rbthashAllowed])

/-- Three keys in one bucket; no node for a fourth; the second data of a key; one key out. -/
def oneBucketCalls : List (RbthashOp Nat) :=
  [.insert (some 10) (some [1]) ⟨true, true, some 16⟩, .insert (some 20) (some [2]) ⟨true, true, some 32⟩,
    .insert (some 30) (some [3]) ⟨true, true, some 48⟩, .insert (some 40) (some [4]) ⟨true, true, none⟩,
    .insert (some 50) (some [2]) ⟨true, true, some 64⟩, .remove (some [1]), .get (some [2])]

theorem rbthash_trees_map_oneBucket :
    ∃ (raw : RbthashTable Nat) (s : MapState Nat),
      s = (Server.specRun (mapStep true) ⟨fun _ => none, []⟩ oneBucketCalls).1 ∧
      (rbthashServer Nat).run (rbthashTableInit 1 (fun _ => 7) true) oneBucketCalls
        = some (raw, [.inl 0, .inl 0, .inl 0, .inl (-1), .inl 0, .inr (some 10), .inr (some 20)]) ∧
      ∃ (raw' : RbthashTable Nat) (keys : List Bytes), rbthashTableDestroy raw = some raw' ∧
        (∀ x < raw.numbuckets, (raw'.buckets x).nodes = fun _ => none) ∧
        keys.Nodup ∧ (∀ key, key ∈ keys ↔ (s.map key).isSome) ∧ raw'.destroyed = s.destroyed ++ keys.filterMap s.map := by
  have hlegal : (rbthashServer Nat).Legal (rbthashTableInit 1 (fun _ => 7) true) oneBucketCalls := by
    refine Server.legal_of_check _ ?_
    decide +kernel
  exact rbthash_trees_map (Nat.le_refl 1) (fun _ => 7) true hlegal

end LzLib.Rbthash.Trees
