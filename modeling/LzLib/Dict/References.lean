/-
  LzLib.Dict.References
  ─────────────────────
  **THE REFERENCE COUNT OF A VALUE IS THE NUMBER OF ITS HOLDERS.**

  `Exact h dead vals`: every value that is not in `dead` counts exactly its
  occurrences in `vals`, the list of those who hold it.  A `data_ref` puts a
  holder on the list and a `data_unref` takes one off, and `data_destroy` is
  called when the last one goes.  A family of dicts keeps the list: the values
  of all entries of all dicts, and what callers hold.

  The list says what the code means; two dicts that disagree about the bucket
  of a key (`Buckets`) break the link between keys and entries, so the runs
  below set only keys that fit.
-/
import LzLib.Dict.Keyed

namespace LzLib.Dict

open LzLib.Foundation LzLib.Hash

/-! ## §1. Exact counts. -/

/-- **Every live value counts its holders**, and the destroyed ones have none. -/
structure Exact (h : DataHeap) (dead vals : List Addr) : Prop where
  exact : ∀ a c, h.cells a = some c → a ∉ dead → c.refcount = vals.count a
  live : ∀ a ∈ vals, h.cells a ≠ none
  unheld : ∀ a ∈ dead, a ∉ vals
  once : dead.Nodup
  kept : ∀ a, 0 < a → a < h.brk → a ∉ dead → h.cells a ≠ none
  below : ∀ a c, h.cells a = some c → a ≠ 0 ∧ a < h.brk
  deadBelow : ∀ a ∈ dead, a < h.brk
  pos : 0 < h.brk

/-- `dead'` has grown by exactly the values that were held and no longer are. -/
def Settled (dead dead' vals vals' : List Addr) : Prop :=
  ∀ a, a ∈ dead' ↔ a ∈ dead ∨ (a ∈ vals ∧ a ∉ vals')

theorem Settled.trans {dead₁ dead₂ dead₃ vals₁ vals₂ vals₃ : List Addr}
    (h₁ : Settled dead₁ dead₂ vals₁ vals₂) (h₂ : Settled dead₂ dead₃ vals₂ vals₃)
    (hover : ∀ a ∈ dead₃, a ∉ vals₃) (hold : ∀ a ∈ vals₂, a ∈ vals₁) :
    Settled dead₁ dead₃ vals₁ vals₃ := by
  intro a
  constructor
  · intro ha
    rcases (h₂ a).mp ha with ha₂ | ⟨ha₂, hnot⟩
    · rcases (h₁ a).mp ha₂ with ha₁ | ⟨ha₁, -⟩
      · exact Or.inl ha₁
      · exact Or.inr ⟨ha₁, hover a ha⟩
    · exact Or.inr ⟨hold a ha₂, hnot⟩
  · rintro (ha₁ | ⟨ha₁, hnot⟩)
    · exact (h₂ a).mpr (Or.inl ((h₁ a).mpr (Or.inl ha₁)))
    · by_cases ha₂ : a ∈ vals₂
      · exact (h₂ a).mpr (Or.inr ⟨ha₂, hnot⟩)
      · exact (h₂ a).mpr (Or.inl ((h₁ a).mpr (Or.inr ⟨ha₁, ha₂⟩)))

theorem Settled.perm {dead dead' vals vals' vals₂ vals₂' : List Addr}
    (h : Settled dead dead' vals vals') (hp : vals₂.Perm vals) (hp' : vals₂'.Perm vals') :
    Settled dead dead' vals₂ vals₂' := by
  intro a
  rw [hp.mem_iff, hp'.mem_iff]
  exact h a

/-- Nothing is destroyed while nobody lets go. -/
theorem Settled.nobody {dead vals vals' : List Addr} (h : ∀ a ∈ vals, a ∈ vals') :
    Settled dead dead vals vals' := by
  intro a
  constructor
  · exact Or.inl
  · rintro (ha | ⟨ha, hnot⟩)
    · exact ha
    · exact absurd (h a ha) hnot

section

variable {h h' : DataHeap} {dead vals vals' : List Addr} {a : Addr}

theorem Exact.perm (E : Exact h dead vals) (hp : vals'.Perm vals) : Exact h dead vals' where
  exact b c hc hb := by rw [hp.count_eq]; exact E.exact b c hc hb
  live b hb := E.live b (hp.mem_iff.mp hb)
  unheld b hb hin := E.unheld b hb (hp.mem_iff.mp hin)
  once := E.once
  kept := E.kept
  below := E.below
  deadBelow := E.deadBelow
  pos := E.pos

/-- A held value has not been destroyed. -/
theorem Exact.not_dead (E : Exact h dead vals) (ha : a ∈ vals) : a ∉ dead :=
  fun hd => E.unheld a hd ha

theorem Exact.ne_zero (E : Exact h dead vals) (ha : a ∈ vals) : a ≠ 0 := by
  obtain ⟨c, hc⟩ := Option.ne_none_iff_exists'.mp (E.live a ha)
  exact (E.below a c hc).1

/-- Only the cell at `a` is written, and counts its holders again. -/
theorem Exact.rewrite (E : Exact h dead vals) {c c' : Data} (hc : h.cells a = some c) (hd : a ∉ dead)
    (hcount : ∀ b, b ≠ a → vals'.count b = vals.count b) (hc' : c'.refcount = vals'.count a) :
    Exact (h.set a c') dead vals' := by
  -- the other cells have the holders they had
  have hmem : ∀ b, b ≠ a → (b ∈ vals' ↔ b ∈ vals) := by
    intro b hb
    rw [← List.count_pos_iff, hcount b hb, List.count_pos_iff]
  constructor
  case exact =>
    intro b cb hcb hb
    rw [DataHeap.set_cells] at hcb
    split at hcb
    next hba =>
      cases hcb
      rw [hba]
      exact hc'
    next hba =>
      rw [hcount b hba]
      exact E.exact b cb hcb hb
  case live =>
    intro b hb
    rw [DataHeap.set_cells]
    split
    next => exact Option.some_ne_none _
    next hba => exact E.live b ((hmem b hba).mp hb)
  case unheld =>
    intro b hb hin
    have hba : b ≠ a := fun e => hd (e ▸ hb)
    exact E.unheld b hb ((hmem b hba).mp hin)
  case once => exact E.once
  case kept =>
    intro b hpos hlt hb
    rw [DataHeap.set_cells]
    split
    next => exact Option.some_ne_none _
    next => exact E.kept b hpos hlt hb
  case below =>
    intro b cb hcb
    rw [DataHeap.set_cells] at hcb
    split at hcb
    next hba => exact hba ▸ E.below a c hc
    next => exact E.below b cb hcb
  case deadBelow => exact E.deadBelow
  case pos => exact E.pos

/-- The cell at `a`, which nobody holds any more, has been destroyed. -/
theorem Exact.bury (E : Exact h dead vals) (hc : h.cells a ≠ none) (hd : a ∉ dead)
    (hcount : ∀ b, b ≠ a → vals'.count b = vals.count b) (ha : a ∉ vals')
    (hoff : ∀ b, b ≠ a → h'.cells b = h.cells b) (hbrk : h'.brk = h.brk) :
    Exact h' (dead ++ [a]) vals' := by
  obtain ⟨c, hc⟩ := Option.ne_none_iff_exists'.mp hc
  have hbelow := E.below a c hc
  -- the holders that are left hold other cells
  have hmem : ∀ b, b ∈ vals' → b ≠ a ∧ b ∈ vals := by
    intro b hb
    have hba : b ≠ a := fun e => ha (e ▸ hb)
    rw [← List.count_pos_iff, hcount b hba, List.count_pos_iff] at hb
    exact ⟨hba, hb⟩
  constructor
  case exact =>
    intro b cb hcb hb
    rw [List.mem_append, not_or, List.mem_singleton] at hb
    rw [hoff b hb.2] at hcb
    rw [hcount b hb.2]
    exact E.exact b cb hcb hb.1
  case live =>
    intro b hb
    rw [hoff b (hmem b hb).1]
    exact E.live b (hmem b hb).2
  case unheld =>
    intro b hb hin
    rcases List.mem_append.mp hb with hb | hb
    · exact E.unheld b hb (hmem b hin).2
    · exact (hmem b hin).1 (List.mem_singleton.mp hb)
  case once =>
    refine List.nodup_append.mpr ⟨E.once, List.nodup_singleton a, ?_⟩
    intro b hb b' hb' e
    rw [List.mem_singleton] at hb'
    exact hd (hb' ▸ e ▸ hb)
  case kept =>
    intro b hpos hlt hb
    rw [List.mem_append, not_or, List.mem_singleton] at hb
    rw [hoff b hb.2]
    exact E.kept b hpos (hbrk ▸ hlt) hb.1
  case below =>
    intro b cb hcb
    rw [hbrk]
    by_cases hba : b = a
    · exact hba ▸ hbelow
    · rw [hoff b hba] at hcb
      exact E.below b cb hcb
  case deadBelow =>
    intro b hb
    rw [hbrk]
    rcases List.mem_append.mp hb with hb | hb
    · exact E.deadBelow b hb
    · exact List.mem_singleton.mp hb ▸ hbelow.2
  case pos => exact hbrk ▸ E.pos

/-- **`data_ref`** puts a holder on the list. -/
theorem Exact.ref (E : Exact h dead vals) (ha : h.cells a ≠ none) (hd : a ∉ dead) (hroom : h.Room a) :
    ∃ h', dataRef h a = some (h', a) ∧ Exact h' dead (a :: vals) := by
  obtain ⟨c, hc⟩ := Option.ne_none_iff_exists'.mp ha
  refine ⟨h.set a { c with refcount := c.refcount + 1 }, ?_, ?_⟩
  · unfold dataRef
    rw [if_neg (E.below a c hc).1, hc]
    show (incInt c.refcount).map _ = _
    rw [incInt_eq (hroom c hc)]
    rfl
  · apply E.rewrite hc hd
    · intro b hb
      exact List.count_cons_of_ne (Ne.symm hb)
    · show c.refcount + 1 = _
      rw [E.exact a c hc hd, List.count_cons_self]
      omega

/-- **`data_unref`** takes a holder off; `data_destroy` is called when nobody is
left. -/
theorem Exact.unref (E : Exact h dead (a :: vals)) :
    ∃ h', dataUnref h a = some h' ∧ lastRef h a = decide (a ∉ vals) ∧
      Exact h' (dead ++ if a ∈ vals then [] else [a]) vals := by
  have hlive := E.live a List.mem_cons_self
  have hd := E.not_dead (a := a) List.mem_cons_self
  obtain ⟨c, hc⟩ := Option.ne_none_iff_exists'.mp hlive
  have hcount := E.exact a c hc hd
  rw [List.count_cons_self] at hcount
  have hother : ∀ b, b ≠ a → vals.count b = (a :: vals).count b := by
    intro b hb
    exact (List.count_cons_of_ne (Ne.symm hb)).symm
  -- the count reaches 0 with the last holder
  have hzero : c.refcount - 1 = 0 ↔ a ∉ vals := by
    rw [← List.count_eq_zero]
    omega
  have hlast : lastRef h a = decide (a ∉ vals) := by
    unfold lastRef
    rw [hc, Option.any_some]
    exact decide_eq_decide.mpr hzero
  obtain ⟨h', hunref⟩ := dataUnref_isSome hc (by unfold int32Max; omega)
  refine ⟨h', hunref, hlast, ?_⟩
  -- with the last holder the cell is freed, or scrapped when it is const
  cases dataUnref_cases hunref with
  | null ha => exact absurd ha (E.ne_zero (a := a) List.mem_cons_self)
  | fewer hc₁ hmore =>
      obtain rfl := Option.some.inj (hc.symm.trans hc₁)
      have hin : a ∈ vals := by_contra fun hout => hmore (hzero.mpr hout)
      rw [if_pos hin, List.append_nil]
      apply E.rewrite hc hd hother
      show c.refcount - 1 = _
      omega
  | freed hc₁ hdone =>
      obtain rfl := Option.some.inj (hc.symm.trans hc₁)
      have hout := hzero.mp hdone
      rw [if_neg hout]
      exact E.bury hlive hd hother hout (fun b hb => by rw [DataHeap.free_cells, if_neg hb]) rfl
  | scrapped hc₁ hdone =>
      obtain rfl := Option.some.inj (hc.symm.trans hc₁)
      have hout := hzero.mp hdone
      rw [if_neg hout]
      exact E.bury hlive hd hother hout (fun b hb => by rw [DataHeap.set_cells, if_neg hb]) rfl

/-- A new cell is held by nobody. -/
theorem Exact.alloc (E : Exact h dead vals) {c : Data} (hc : c.refcount = 0) :
    Exact (h.alloc c).1 dead vals := by
  -- the new address was never used before
  have hold : ∀ b cb, h.cells b = some cb → b ≠ h.brk := fun b cb hcb => Nat.ne_of_lt (E.below b cb hcb).2
  have hvals : ∀ b ∈ vals, b ≠ h.brk := by
    intro b hb
    obtain ⟨cb, hcb⟩ := Option.ne_none_iff_exists'.mp (E.live b hb)
    exact hold b cb hcb
  constructor
  case exact =>
    intro b cb hcb hb
    rw [DataHeap.alloc_cells] at hcb
    split at hcb
    next hbrk =>
      cases hcb
      have hnot : b ∉ vals := fun hin => hvals b hin hbrk
      rw [hc, List.count_eq_zero.mpr hnot]
      rfl
    next => exact E.exact b cb hcb hb
  case live =>
    intro b hb
    rw [DataHeap.alloc_cells, if_neg (hvals b hb)]
    exact E.live b hb
  case unheld => exact E.unheld
  case once => exact E.once
  case kept =>
    intro b hpos hlt hb
    rw [DataHeap.alloc_cells]
    split
    next => exact Option.some_ne_none _
    next hne => exact E.kept b hpos (Nat.lt_of_le_of_ne (Nat.le_of_lt_succ hlt) hne) hb
  case below =>
    intro b cb hcb
    rw [DataHeap.alloc_cells] at hcb
    split at hcb
    next hbrk => exact hbrk ▸ ⟨Nat.ne_of_gt E.pos, Nat.lt_succ_self _⟩
    next => exact ⟨(E.below b cb hcb).1, Nat.lt_succ_of_lt (E.below b cb hcb).2⟩
  case deadBelow => exact fun b hb => Nat.lt_succ_of_lt (E.deadBelow b hb)
  case pos => exact Nat.succ_pos _

end

/-! ## §2. Sequences of calls. -/

/-- The calls come through, from the holders `vals` to the holders `vals'`. -/
structure Replayed (h : DataHeap) (dead vals : List Addr) (calls : List RefCall) (vals' : List Addr)
    (h' : DataHeap) (fresh : List Addr) : Prop where
  calls : replay h calls = some (h', fresh)
  exact : Exact h' (dead ++ fresh) vals'
  settled : Settled dead (dead ++ fresh) vals vals'

section

variable {h : DataHeap} {dead vals rest : List Addr} {a b : Addr}

theorem Replayed.perm {vals' vals₂ vals₂' fresh : List Addr} {h' : DataHeap} {calls : List RefCall}
    (R : Replayed h dead vals calls vals' h' fresh) (hp : vals₂.Perm vals) (hp' : vals₂'.Perm vals') :
    Replayed h dead vals₂ calls vals₂' h' fresh where
  calls := R.calls
  exact := R.exact.perm hp'
  settled := R.settled.perm hp hp'

/-- No calls. -/
theorem Exact.replay_none (E : Exact h dead vals) : Replayed h dead vals [] vals h [] where
  calls := rfl
  exact := by
    rw [List.append_nil]
    exact E
  settled := by
    rw [List.append_nil]
    exact Settled.nobody fun _ hb => hb

/-- One `data_ref`. -/
theorem Exact.replay_ref (E : Exact h dead vals) (ha : h.cells a ≠ none) (hd : a ∉ dead) (hroom : h.Room a) :
    ∃ h', Replayed h dead vals [.ref a] (a :: vals) h' [] := by
  obtain ⟨h', href, E'⟩ := E.ref ha hd hroom
  refine ⟨h', ?_, ?_, ?_⟩
  · simp only [replay, href, Option.bind_eq_bind, Option.bind_some]
  · rw [List.append_nil]
    exact E'
  · rw [List.append_nil]
    exact Settled.nobody fun b hb => List.mem_cons_of_mem a hb

/-- `data_unref` of some of the holders, one after the other. -/
theorem Exact.replay_unrefs {vs : List Addr} : ∀ {h : DataHeap} {dead : List Addr},
    Exact h dead (vs ++ rest) →
    ∃ h' fresh, Replayed h dead (vs ++ rest) (vs.map RefCall.unref) rest h' fresh := by
  induction vs with
  | nil =>
      intro h dead E
      exact ⟨h, [], E.replay_none⟩
  | cons v vs ih =>
      intro h dead E
      have E' : Exact h dead (v :: (vs ++ rest)) := E
      obtain ⟨h₁, hunref, hlast, E₁⟩ := E'.unref
      obtain ⟨h₂, fresh, R⟩ := ih E₁
      have hdead : (dead ++ if v ∈ vs ++ rest then [] else [v]) ++ fresh
          = dead ++ if lastRef h v then v :: fresh else fresh := by
        rw [hlast, List.append_assoc]
        by_cases hin : v ∈ vs ++ rest
        · rw [if_pos hin, if_neg (by rw [decide_eq_true_iff]; exact not_not.mpr hin)]
          rfl
        · rw [if_neg hin, if_pos (decide_eq_true hin)]
          rfl
      refine ⟨h₂, if lastRef h v then v :: fresh else fresh, ?_, ?_, ?_⟩
      · simp only [List.map_cons, replay, hunref, R.calls, Option.bind_eq_bind, Option.bind_some,
          Option.pure_def]
      · rw [← hdead]
        exact R.exact
      · rw [← hdead]
        -- the first call destroys `v` if nobody else holds it
        have hfirst : Settled dead (dead ++ if v ∈ vs ++ rest then [] else [v]) (v :: (vs ++ rest))
            (vs ++ rest) := by
          intro b
          rw [List.mem_append, List.mem_cons]
          by_cases hin : v ∈ vs ++ rest
          · rw [if_pos hin]
            constructor
            · rintro (hb | hb)
              · exact Or.inl hb
              · exact absurd hb List.not_mem_nil
            · rintro (hb | ⟨rfl | hb, hnot⟩)
              · exact Or.inl hb
              · exact absurd hin hnot
              · exact absurd hb hnot
          · rw [if_neg hin, List.mem_singleton]
            constructor
            · rintro (hb | rfl)
              · exact Or.inl hb
              · exact Or.inr ⟨Or.inl rfl, hin⟩
            · rintro (hb | ⟨rfl | hb, hnot⟩)
              · exact Or.inl hb
              · exact Or.inr rfl
              · exact absurd hb hnot
        exact hfirst.trans R.settled R.exact.unheld fun b hb => List.mem_cons_of_mem v hb

/-- `data_ref` of `a`, then `data_unref` of `b`: the holder of `b` now holds `a`. -/
theorem Exact.replay_swap (E : Exact h dead (b :: rest)) (ha : h.cells a ≠ none) (hd : a ∉ dead)
    (hroom : h.Room a) :
    ∃ h' fresh, Replayed h dead (b :: rest) [.ref a, .unref b] (a :: rest) h' fresh := by
  obtain ⟨h₁, href, E₁⟩ := E.ref ha hd hroom
  have E₁' : Exact h₁ dead ([b] ++ (a :: rest)) := E₁.perm (List.Perm.swap a b rest)
  obtain ⟨h₂, fresh, R⟩ := E₁'.replay_unrefs
  refine ⟨h₂, fresh, ?_, R.exact, ?_⟩
  · simp only [replay, href, Option.bind_eq_bind, Option.bind_some]
    exact R.calls
  · -- `a` is held at the end, so it is none of those that went
    intro v
    rw [R.settled v]
    have hmem : v ∈ [b] ++ (a :: rest) ∧ v ∉ a :: rest ↔ v ∈ b :: rest ∧ v ∉ a :: rest := by
      simp only [List.singleton_append, List.mem_cons]
      tauto
    rw [hmem]

end

end LzLib.Dict
