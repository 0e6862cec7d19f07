/-
  LzLib.Iobuf.Contraction
  ───────────────────────
  **THE POOL SHRINKS AGAIN.**

  `__iobuf_pool_prune` destroys the arenas on `purge`, unless there is no
  candidate on `arenas`: one free arena is to be kept for the next growth.
  `Contracted` reads this bound off the links of a pool.

  An arena reaches `purge` while `arenas` stays empty only if it goes there
  straight from `filled`, so if it has a single page.  Where arenas have more
  pages the bound holds after every put; where they have one, every put that
  finds an arena in reserve and no candidate breaks it.
-/
import LzLib.Iobuf.PoolRuns

namespace LzLib.Iobuf

open LzLib.Foundation

/-! ## §1. The bound, on the links. -/

/-- **At most one free arena is in reserve**: with `arenas` empty, `purge` ends
after its first node; otherwise it is empty. -/
def Contracted (p : Pool) : Prop :=
  if listEmpty p.alinks (.head .arenas) then
    (p.alinks (p.alinks (.head .purge)).next).next = .head .purge
  else listEmpty p.alinks (.head .purge) = true

instance (p : Pool) : Decidable (Contracted p) :=
  inferInstanceAs (Decidable (ite _ _ _))

/-- A put leaves room: arenas have two pages or more, nothing is in reserve, or
there is a candidate, so that the reserve is pruned. -/
def KeepsBound (p : Pool) : Prop :=
  2 * p.pageSize ≤ p.arenaSize ∨ listEmpty p.alinks (.head .purge) = true ∨
    listEmpty p.alinks (.head .arenas) = false

instance (p : Pool) : Decidable (KeepsBound p) := inferInstanceAs (Decidable (_ ∨ _))

section Links

variable {N : Nat} {p : Pool} {refs : IobufPtr → Nat} {al : PoolList → List Addr}
  {bl : Addr × Side → List IobufPtr}

/-- The second node of `purge` is its head again. -/
theorem purge_next_iff (h : PoolOk N p refs al bl) :
    (p.alinks (p.alinks (.head .purge)).next).next = .head .purge ↔ (al .purge).length ≤ 1 := by
  have hfirst := h.arenaRings.first (i := .purge) trivial
  cases hpurge : al .purge with
  | nil =>
      have hhead : (p.alinks (.head .purge)).next = .head .purge := by
        rw [hfirst, hpurge]
        rfl
      rw [hhead, hhead]
      exact iff_of_true rfl (Nat.zero_le 1)
  | cons a rest =>
      have hhead : (p.alinks (.head .purge)).next = .arena a := by
        rw [hfirst, hpurge]
        rfl
      have hnext := h.arenaRings.next (i := .purge) trivial (l := []) (by rw [hpurge]; rfl)
      rw [hhead, hnext, List.length_cons]
      cases rest with
      | nil => exact iff_of_true rfl (by simp)
      | cons a' rest =>
          refine iff_of_false ?_ (by rw [List.length_cons]; omega)
          intro heq
          cases heq

/-- **The links say what the lists do.** -/
theorem contracted_iff (h : PoolOk N p refs al bl) : Contracted p ↔ Spare al := by
  have harenas := h.arenaRings.listEmpty_iff (i := .arenas) trivial
  have hpurge := h.arenaRings.listEmpty_iff (i := .purge) trivial
  have hnext := purge_next_iff h
  unfold Contracted Spare
  by_cases hempty : listEmpty p.alinks (ArenaNode.head .arenas) = true
  · rw [if_pos hempty, hnext]
    constructor
    · intro hlen
      exact ⟨hlen, fun hne => absurd (harenas.mp hempty) hne⟩
    · intro hspare
      exact hspare.1
  · rw [if_neg hempty, hpurge]
    constructor
    · intro hnil
      rw [hnil]
      exact ⟨Nat.zero_le 1, fun _ => rfl⟩
    · intro hspare
      exact hspare.2 fun hnil => hempty (harenas.mpr hnil)

theorem keepsBound_iff (h : PoolOk N p refs al bl) :
    KeepsBound p ↔ 2 ≤ N ∨ al .purge = [] ∨ al .arenas ≠ [] := by
  have harenas := h.arenaRings.listEmpty_iff (i := .arenas) trivial
  have hpurge := h.arenaRings.listEmpty_iff (i := .purge) trivial
  have hpos : 0 < p.pageSize := Nat.pos_of_ne_zero h.pageSize
  have hpages : 2 ≤ N ↔ 2 * p.pageSize ≤ p.arenaSize := by
    rw [← h.pages, Nat.le_div_iff_mul_le hpos]
  have hcandidate : listEmpty p.alinks (ArenaNode.head .arenas) = false ↔ al .arenas ≠ [] := by
    rw [ne_eq, ← harenas, Bool.not_eq_true]
  unfold KeepsBound
  rw [hpages, hpurge, hcandidate]

/-- **One put**: with the bound before it, the bound holds after it exactly if
the put keeps it. -/
theorem iobufUnref_contracted (h : PoolOk N p refs al bl) (hspare : Spare al) {b : IobufPtr}
    (hone : refs b = 1) :
    ∃ p', iobufUnref p b = some p' ∧ (Contracted p' ↔ KeepsBound p) := by
  obtain ⟨p', al', bl', hrun, -, hok, hiff⟩ := iobufUnref_last h hone
  refine ⟨p', hrun, ?_⟩
  rw [contracted_iff hok, keepsBound_iff h]
  exact hiff hspare

end Links

/-! ## §2. Runs. -/

/-- The pool is fine, and its reserve is bounded. -/
def Client.Bounded (N : Nat) (c : Client) : Prop :=
  ∃ al bl, PoolOk N c.pool c.held al bl ∧ Spare al

/-- Callers as in `poolClient`; a put of an iobuf keeps the bound. -/
def boundedClient : Component Client PoolOp where
  step := Client.step
  allowed c o := c.allowed o ∧
    match o with
    | .unref b => c.held b = 1 → KeepsBound c.pool
    | _ => True

/-- One operation keeps the bound. -/
theorem Client.step_bounded {N : Nat} (c : Client) (o : PoolOp) (c' : Client) (hc : c.Bounded N)
    (ho : boundedClient.allowed c o) (hs : boundedClient.step c o = some c') : c'.Bounded N := by
  obtain ⟨al, bl, hok, hspare⟩ := hc
  have hstep : c.step o = some c' := hs
  cases o with
  | get env =>
      -- an overflow, no memory, or an iobuf
      rcases iobufGet_spec hok env ho.1 with
        ⟨_, hnone⟩ | ⟨p, hrun, _, al', bl', hok', hkeep⟩ | ⟨p, b, hrun, _, hzero, al', bl', hok', hkeep⟩
      · rw [Client.step, hnone] at hstep
        cases hstep
      · rw [Client.step, hrun] at hstep
        cases hstep
        exact ⟨al', bl', hok', hkeep hspare⟩
      · rw [Client.step, hrun] at hstep
        cases hstep
        refine ⟨al', bl', ?_, hkeep hspare⟩
        show PoolOk N p (Function.update c.held b (c.held b + 1)) al' bl'
        rw [hzero]
        exact hok'
  | ref b =>
      rcases iobufRef_spec hok ho.1 with ⟨_, hnone⟩ | ⟨p, hrun, _, hok'⟩
      · rw [Client.step, hnone] at hstep
        cases hstep
      · rw [Client.step, hrun] at hstep
        cases hstep
        exact ⟨al, bl, hok', hspare⟩
  | unref b =>
      have hheld : 0 < c.held b := ho.1
      by_cases hone : c.held b = 1
      · obtain ⟨p, al', bl', hrun, _, hok', hiff⟩ := iobufUnref_last hok hone
        rw [Client.step, hrun] at hstep
        cases hstep
        refine ⟨al', bl', ?_, (hiff hspare).mpr ((keepsBound_iff hok).mp (ho.2 hone))⟩
        show PoolOk N p (Function.update c.held b (c.held b - 1)) al' bl'
        rw [hone]
        exact hok'
      · obtain ⟨p, hrun, _, hok'⟩ := iobufUnref_more hok (by omega : 1 < c.held b)
        rw [Client.step, hrun] at hstep
        cases hstep
        exact ⟨al, bl, hok', hspare⟩

/-- With two pages or more in an arena every put keeps the bound. -/
theorem legal_of_twoPages {N : Nat} (htwo : 2 ≤ N) (ops : List PoolOp) :
    ∀ c : Client, c.Bounded N → poolClient.Legal c ops → boundedClient.Legal c ops := by
  induction ops with
  | nil =>
      intro c _ _
      trivial
  | cons o ops ih =>
      intro c hc hlegal
      have hallowed : boundedClient.allowed c o := by
        refine ⟨hlegal.1, ?_⟩
        cases o with
        | get env => trivial
        | ref b => trivial
        | unref b =>
            intro _
            obtain ⟨al, bl, hok, -⟩ := hc
            exact (keepsBound_iff hok).mpr (Or.inl htwo)
      refine ⟨hallowed, ?_⟩
      intro c' hc'
      exact ih c' (Client.step_bounded c o c' hc hallowed hc') (hlegal.2 c' hc')

/-- **THE POOL CONTRACTS, EXACTLY.**  In a run whose puts keep the bound, the
bound holds after each of them; and at its end, whatever iobuf is put back
next, the bound holds after that if and only if the put keeps it.  With two
pages or more in an arena every put does. -/
theorem pool_contracts (arenaSize pageSize : Nat) (hpage : 0 < pageSize) (hsize : pageSize ≤ arenaSize)
    (hfits : (arenaSize / pageSize : Nat) ≤ int32Max) (env : AllocEnv) :
    ∃ p, iobufPoolNew arenaSize pageSize true env = some (some p) ∧
      (2 * pageSize ≤ arenaSize → ∀ ops, poolClient.Legal ⟨p, fun _ => 0⟩ ops →
        boundedClient.Legal ⟨p, fun _ => 0⟩ ops) ∧
      ∀ ops, boundedClient.Legal ⟨p, fun _ => 0⟩ ops →
        (∀ pre b post c, ops = pre ++ .unref b :: post →
          boundedClient.run ⟨p, fun _ => 0⟩ pre = some c → c.held b = 1 →
            ∃ p', iobufUnref c.pool b = some p' ∧ Contracted p') ∧
        ∀ c, boundedClient.run ⟨p, fun _ => 0⟩ ops = some c → ∀ b, c.held b = 1 →
          ∃ p', iobufUnref c.pool b = some p' ∧ (Contracted p' ↔ KeepsBound c.pool) := by
  obtain ⟨p, al₀, bl₀, hnew, hok₀, hspare₀⟩ :=
    iobufPoolNew_spec arenaSize pageSize hpage hsize hfits env
  have hbounded : Client.Bounded (arenaSize / pageSize) ⟨p, fun _ => 0⟩ := ⟨al₀, bl₀, hok₀, hspare₀⟩
  refine ⟨p, hnew, ?_, ?_⟩
  · intro htwo ops hlegal
    -- with two pages an arena is never free straight from `filled`
    have hpages : 2 ≤ arenaSize / pageSize := (Nat.le_div_iff_mul_le hpage).mpr htwo
    exact legal_of_twoPages hpages ops _ hbounded hlegal
  intro ops hlegal
  constructor
  · intro pre b post c hsplit hrun hone
    rw [hsplit] at hlegal
    obtain ⟨hpre, hnext⟩ := Component.Legal.split hlegal
    obtain ⟨al, bl, hok, hspare⟩ := boundedClient.run_safe Client.step_bounded hbounded hpre hrun
    obtain ⟨p', hput, hiff⟩ := iobufUnref_contracted hok hspare hone
    exact ⟨p', hput, hiff.mpr ((hnext c hrun).2 hone)⟩
  · intro c hrun b hone
    obtain ⟨al, bl, hok, hspare⟩ := boundedClient.run_safe Client.step_bounded hbounded hlegal hrun
    exact iobufUnref_contracted hok hspare hone

/-- An arena at address `a`, with all of its memory. -/
def arenaAt (a : Addr) : AllocEnv := ⟨some a, 4096 * a, true⟩

/-- Arenas of two pages: both pages of two arenas are taken and put back. -/
def takeFour : List PoolOp :=
  [.get noArena, .get noArena, .get (arenaAt 2), .get noArena, .unref ⟨1, 0⟩, .unref ⟨2, 0⟩, .unref ⟨1, 1⟩,
    .unref ⟨2, 1⟩]

theorem pool_contracts_takeFour : ∃ p c, iobufPoolNew 8 4 true (arenaAt 1) = some (some p) ∧
    boundedClient.run ⟨p, fun _ => 0⟩ takeFour.dropLast = some c ∧ c.held ⟨2, 1⟩ = 1 ∧
    c.pool.unmapped = [4096] ∧
    ∃ p', iobufUnref c.pool ⟨2, 1⟩ = some p' ∧ Contracted p' := by
  obtain ⟨p, hnew, hlegal, hruns⟩ := pool_contracts 8 4 (by decide) (by decide) (by decide) (arenaAt 1)
  have hcheck : ((iobufPoolNew 8 4 true (arenaAt 1)).bind fun r => r.map fun p =>
      (poolClient.legalCheck ⟨p, fun _ => 0⟩ takeFour, (boundedClient.run ⟨p, fun _ => 0⟩ takeFour.dropLast).map fun c =>
        (c.held ⟨2, 1⟩, c.pool.unmapped))) = some (true, some (1, [4096])) := by decide +kernel
  rw [hnew] at hcheck
  simp only [Option.bind_some, Option.map_some, Option.some.injEq, Prod.mk.injEq] at hcheck
  obtain ⟨c, hrun, hend⟩ := Option.map_eq_some_iff.mp hcheck.2
  rw [Prod.mk.injEq] at hend
  have htake := hlegal (by decide) takeFour (poolClient.legal_of_check hcheck.1)
  exact ⟨p, c, hnew, hrun, hend.1, hend.2, (hruns takeFour htake).1 _ _ [] c rfl hrun hend.1⟩

/-- Arenas of one page: with both of two arenas put back, both stay on `purge`. -/
theorem onePage_keeps_two : ∃ p c, iobufPoolNew 4 4 true (arenaAt 1) = some (some p) ∧
    poolClient.run ⟨p, fun _ => 0⟩ [.get noArena, .get (arenaAt 2), .unref ⟨1, 0⟩, .unref ⟨2, 0⟩] = some c ∧
    ¬ Contracted c.pool := by
  have hrun : ((iobufPoolNew 4 4 true (arenaAt 1)).bind fun r => r.bind fun p =>
      (poolClient.run ⟨p, fun _ => 0⟩ [.get noArena, .get (arenaAt 2), .unref ⟨1, 0⟩, .unref ⟨2, 0⟩]).map
        fun c => decide (Contracted c.pool)) = some false := by decide +kernel
  obtain ⟨r, hnew, hr⟩ := Option.bind_eq_some_iff.mp hrun
  obtain ⟨p, rfl, hp⟩ := Option.bind_eq_some_iff.mp hr
  obtain ⟨c, hc, hbad⟩ := Option.map_eq_some_iff.mp hp
  exact ⟨p, c, hnew, hc, of_decide_eq_false hbad⟩

end LzLib.Iobuf
