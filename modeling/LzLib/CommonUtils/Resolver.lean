/-
  LzLib.CommonUtils.Resolver
  ──────────────────────────
  **THE ROTATION OF THE DNS CACHE** (`lz_resolve_ip6`).

  The two pointers of the cache tell where the rotation is.  Either there is
  no list, or the list is read up to an entry, which may be its last: the next
  call then frees it and looks the host up again.  `Phase` says so of a whole
  sequence of calls; what a call returns and what it leaves is
  `LookupOutcome`.
-/
import LzLib.CommonUtils.ResolverDef

namespace LzLib.CommonUtils

open LzLib.Foundation

variable {α : Type}

/-! ## §1. The purpose. -/

/-- The list in the cache. -/
def Session.cached (s : Session α) : Option Nat := s.resolver.dnscache.bind fun cache => cache.first.map Prod.fst

/-- Every address of every list was returned. -/
def Session.Exhausted (s : Session α) : Prop := s.returned = entries s.resolver.lists

/-- **A call that returns `entry`**: status 0, and `*addr_info` in the cached list, which is not freed. -/
structure Returns (s s' : Session α) (entry : Nat × Nat) : Prop where
  addrInfo : s'.addrInfo = some entry
  rets : s'.rets = s.rets ++ [0]
  returned : s'.returned = s.returned ++ [entry]
  cached : s'.cached = some entry.1
  valid : ∃ a, s'.resolver.aiAddr entry = some a

/-- **What a call does.**  The host is looked up when all addresses were returned, and only then. -/
inductive LookupOutcome (s : Session α) (c : Lookup α) (s' : Session α) : Prop
  | refused (hdue : s.Exhausted) (hfail : c.asprintf = false) (hlists : s'.resolver.lists = s.resolver.lists)
      (hinfo : s'.addrInfo = s.addrInfo) (hrets : s'.rets = s.rets ++ [-1]) (hsame : s'.returned = s.returned)
      (hnone : s'.cached = none)
  | resolved (hdue : s.Exhausted) (hok : c.asprintf = true) (hlists : s'.resolver.lists = s.resolver.lists ++ [c.list])
      (hret : Returns s s' (s.resolver.lists.length, 0))
  | next (hdue : ¬ s.Exhausted) (entry : Nat × Nat) (hlists : s'.resolver.lists = s.resolver.lists)
      (hfreed : s'.resolver.freed = s.resolver.freed) (hret : Returns s s' entry)

/-- **The rotation**: addresses once and in order; no list freed twice, all lists freed but the cached one;
one query for each list. -/
structure Rotation (q : Query) (s : Session α) : Prop where
  inOrder : ReadInOrder s.resolver.lists s.returned
  freedOnce : s.resolver.freed.Nodup
  freed : ∀ k, k ∈ s.resolver.freed ↔ k < s.resolver.lists.length ∧ s.cached ≠ some k
  asked : s.resolver.queries = List.replicate s.resolver.lists.length q

/-! ## §2. The phases. -/

/-- The entry number `i` of the list, or its end. -/
def nextEntry (k : Nat) (list : List α) (i : Nat) : Option (Nat × Nat) := if i < list.length then some (k, i) else none

/-- **Where the rotation is.** -/
inductive Phase (s : Session α) : Prop
  | fresh (hcache : s.resolver.dnscache = none ∨ s.resolver.dnscache = some ⟨none, none⟩)
      (hfreed : s.resolver.freed = List.range s.resolver.lists.length)
      (hread : s.returned = entries s.resolver.lists)
  | reading (before : List (List α)) (last : List α) (i : Nat) (hlists : s.resolver.lists = before ++ [last])
      (hpos : 1 ≤ i) (hle : i ≤ last.length)
      (hcache : s.resolver.dnscache = some ⟨some (before.length, 0), nextEntry before.length last i⟩)
      (hfreed : s.resolver.freed = List.range before.length)
      (hread : s.returned = entries before ++ batchRow before.length i)

theorem phase_start : Phase (Session.start : Session α) := Phase.fresh (Or.inl rfl) rfl rfl

theorem Phase.rotation {q : Query} {s : Session α} (P : Phase s)
    (hasked : s.resolver.queries = List.replicate s.resolver.lists.length q) : Rotation q s := by
  cases P with
  | fresh hcache hfreed hread =>
      have hnone : s.cached = none := by
        unfold Session.cached
        rcases hcache with h | h
        · rw [h]
          rfl
        · rw [h]
          rfl
      refine ⟨?_, ?_, ?_, hasked⟩
      · rw [hread]
        exact readInOrder_entries _
      · rw [hfreed]
        exact List.nodup_range
      · intro k
        rw [hfreed, hnone, List.mem_range]
        simp
  | reading before last i hlists hpos hle hcache hfreed hread =>
      have hcached : s.cached = some before.length := by
        unfold Session.cached
        rw [hcache]
        rfl
      refine ⟨?_, ?_, ?_, hasked⟩
      · rw [hread, hlists]
        exact readInOrder_row before hle
      · rw [hfreed]
        exact List.nodup_range
      · intro k
        rw [hfreed, hcached, hlists, List.mem_range, List.length_append, List.length_singleton, Ne, Option.some.injEq]
        omega

/-- The addresses that were returned are those of the lists, in order. -/
theorem Rotation.addresses {q : Query} {s : Session α} (R : Rotation q s) :
    s.returned.map (entryAt s.resolver.lists) <+: s.resolver.lists.flatten.map some := by
  rw [← map_entries]
  exact R.inOrder.inOrder.map _

/-! ## §3. The parts of a call. -/

section Parts

variable {s : Resolver α} {before : List (List α)} {last : List α}

/-- An entry of the last list, with the lists before it freed. -/
theorem aiAddr_last (hlists : s.lists = before ++ [last]) (hfreed : s.freed = List.range before.length) (i : Nat) :
    s.aiAddr (before.length, i) = last[i]? := by
  unfold Resolver.aiAddr entryAt
  rw [hlists, hfreed]
  simp

theorem aiNext_last (hlists : s.lists = before ++ [last]) (hfreed : s.freed = List.range before.length) {i : Nat}
    (hi : i < last.length) : s.aiNext (before.length, i) = some (nextEntry before.length last (i + 1)) := by
  unfold Resolver.aiNext nextEntry entryAt
  rw [aiAddr_last hlists hfreed, hlists, List.getElem?_eq_getElem hi]
  by_cases hnext : i + 1 < last.length
  · simp [hnext]
  · simp [hnext]

/-- **The entry number `i` is returned**, and the next one is next. -/
theorem returnNext_last (hlists : s.lists = before ++ [last]) (hfreed : s.freed = List.range before.length) {i : Nat}
    (hi : i < last.length) {env : Answers α} (hname : env.getnameinfo = (true, true)) (addrInfo : Option (Nat × Nat)) :
    returnNext env s ⟨some (before.length, 0), some (before.length, i)⟩ addrInfo
      = some ⟨0, some (before.length, i),
          { s with dnscache := some ⟨some (before.length, 0), nextEntry before.length last (i + 1)⟩ }⟩ := by
  unfold returnNext
  rw [Option.bind_some, aiAddr_last hlists hfreed, List.getElem?_eq_getElem hi, Option.bind_some, hname, if_pos rfl,
    aiNext_last hlists hfreed hi, Option.bind_some]
  by_cases hnext : i + 1 < last.length
  · have hafter : nextEntry before.length last (i + 1) = some (before.length, i + 1) := if_pos hnext
    rw [hafter]
    show (s.aiAddr (before.length, i + 1)).map _ = _
    rw [aiAddr_last hlists hfreed, List.getElem?_eq_getElem hnext]
    rfl
  · have hafter : nextEntry before.length last (i + 1) = none := if_neg hnext
    rw [hafter]

end Parts

/-- The host is looked up: the first entry of a new list. -/
theorem probeHost_lookup {s : Resolver α} (hfreed : s.freed = List.range s.lists.length) (hostname : CStr) (port : Nat)
    (family : Int) (c : Lookup α) (hok : c.asprintf = true) (cache : DnsCache) (addrInfo : Option (Nat × Nat)) :
    probeHost hostname port family c.answers s cache addrInfo
      = some ⟨0, some (s.lists.length, 0),
          { s with
            lists := s.lists ++ [c.list]
            queries := s.queries ++ [⟨hostname, intText port, family⟩]
            dnscache := some ⟨some (s.lists.length, 0), nextEntry s.lists.length c.list 1⟩ }⟩ := by
  obtain ⟨a, as, hlist⟩ := List.exists_cons_of_ne_nil c.nonempty
  have hpos : 0 < c.list.length := List.length_pos_of_ne_nil c.nonempty
  unfold probeHost
  rw [if_pos (show c.answers.asprintf = true from hok)]
  show returnNext c.answers _ ⟨c.list.head?.map _, c.list.head?.map _⟩ addrInfo = _
  have hhead : c.list.head?.map (fun _ => (s.lists.length, 0)) = some (s.lists.length, 0) := by
    rw [hlist]
    rfl
  rw [hhead]
  exact returnNext_last (s := { s with
    lists := s.lists ++ [c.list], queries := s.queries ++ [⟨hostname, intText port, family⟩] }) rfl hfreed hpos rfl _

/-! ## §4. One call. -/

section Call

variable (hostname : CStr) (port : Nat) (family : Int) (c : Lookup α)

/-- All addresses were returned: a list that is there is freed, and the host is looked up. -/
theorem Phase.resolve_due {s : Session α} (P : Phase s) (hdue : s.Exhausted) :
    lzResolveIp6 (some hostname) port family c.answers s.resolver s.addrInfo
      = probeHost hostname port family c.answers
          { s.resolver with freed := List.range s.resolver.lists.length } ⟨none, none⟩ s.addrInfo := by
  cases P with
  | fresh hcache hfreed hread =>
      have hmade : s.resolver.cache c.answers.calloc = some ⟨none, none⟩ := by
        unfold Resolver.cache
        rcases hcache with h | h
        · rw [h]
          rfl
        · rw [h]
      unfold lzResolveIp6
      rw [← hfreed]
      show (s.resolver.cache _).bind _ = _
      rw [hmade]
      rfl
  | reading before last i hlists hpos hle hcache hfreed hread =>
      have hend : i = last.length := by
        unfold Session.Exhausted at hdue
        rw [hread, hlists] at hdue
        exact (read_row_eq_entries_iff before last i).mp hdue
      have hnext : nextEntry before.length last i = none := if_neg (by omega)
      have hmade : s.resolver.cache c.answers.calloc = some ⟨some (before.length, 0), none⟩ := by
        unfold Resolver.cache
        rw [hcache, hnext]
      have hrange : List.range s.resolver.lists.length = s.resolver.freed ++ [before.length] := by
        rw [hfreed, hlists, List.length_append, List.length_singleton, List.range_succ]
      unfold lzResolveIp6
      rw [hrange]
      show (s.resolver.cache _).bind _ = _
      rw [hmade]
      rfl

/-- Some address was not returned: it is the next one. -/
theorem Phase.resolve_next {s : Session α} (P : Phase s) (hdue : ¬ s.Exhausted) :
    ∃ before last i, s.resolver.lists = before ++ [last] ∧ i < last.length
      ∧ s.resolver.freed = List.range before.length ∧ s.returned = entries before ++ batchRow before.length i
      ∧ lzResolveIp6 (some hostname) port family c.answers s.resolver s.addrInfo
          = some ⟨0, some (before.length, i),
              { s.resolver with dnscache := some ⟨some (before.length, 0), nextEntry before.length last (i + 1)⟩ }⟩ := by
  cases P with
  | fresh hcache hfreed hread => exact absurd hread hdue
  | reading before last i hlists hpos hle hcache hfreed hread =>
      have hlt : i < last.length := by
        have hne : i ≠ last.length := by
          intro heq
          apply hdue
          unfold Session.Exhausted
          rw [hread, hlists]
          exact (read_row_eq_entries_iff before last i).mpr heq
        omega
      have hnext : nextEntry before.length last i = some (before.length, i) := if_pos hlt
      have hmade : s.resolver.cache c.answers.calloc = some ⟨some (before.length, 0), some (before.length, i)⟩ := by
        unfold Resolver.cache
        rw [hcache, hnext]
      refine ⟨before, last, i, hlists, hlt, hfreed, hread, ?_⟩
      unfold lzResolveIp6
      show (s.resolver.cache _).bind _ = _
      rw [hmade]
      exact returnNext_last hlists hfreed hlt rfl s.addrInfo

/-- The statuses and the entries after a call with status 0. -/
theorem Returns.of_reading {s : Session α} {r : Resolver α} {before : List (List α)} {last : List α} {i : Nat}
    (hlists : r.lists = before ++ [last]) (hfreed : r.freed = List.range before.length) (hi : i < last.length)
    {next : Option (Nat × Nat)} (hcache : r.dnscache = some ⟨some (before.length, 0), next⟩) :
    Returns s (s.after ⟨0, some (before.length, i), r⟩) (before.length, i) where
  addrInfo := rfl
  rets := rfl
  returned := rfl
  cached := by
    unfold Session.cached
    show r.dnscache.bind _ = _
    rw [hcache]
    rfl
  valid := by
    refine ⟨last[i], ?_⟩
    show r.aiAddr (before.length, i) = _
    rw [aiAddr_last hlists hfreed, List.getElem?_eq_getElem hi]

/-- The query of every call. -/
def query : Query := ⟨hostname, intText port, family⟩

theorem lookups_step {s : Session α} {r : Resolved α}
    (hcall : lzResolveIp6 (some hostname) port family c.answers s.resolver s.addrInfo = some r) :
    (lookups hostname port family).step s c = some (s.after r) := congrArg (Option.map s.after) hcall

/-- **One call**: it does not get stuck, and the rotation goes on. -/
theorem Phase.step {s : Session α} (P : Phase s)
    (hasked : s.resolver.queries = List.replicate s.resolver.lists.length (query hostname port family)) :
    ∃ s', (lookups hostname port family).step s c = some s' ∧ LookupOutcome s c s' ∧ Phase s'
      ∧ s'.resolver.queries = List.replicate s'.resolver.lists.length (query hostname port family) := by
  by_cases hdue : s.Exhausted
  · have hcall := P.resolve_due hostname port family c hdue
    by_cases hok : c.asprintf = true
    · rw [probeHost_lookup rfl hostname port family c hok] at hcall
      have hpos : 0 < c.list.length := List.length_pos_of_ne_nil c.nonempty
      refine ⟨_, lookups_step hostname port family c hcall, ?_, ?_, ?_⟩
      · exact LookupOutcome.resolved hdue hok rfl (Returns.of_reading rfl rfl hpos rfl)
      · refine Phase.reading s.resolver.lists c.list 1 rfl (Nat.le_refl 1) hpos rfl rfl ?_
        show s.returned ++ [(s.resolver.lists.length, 0)] = _
        rw [hdue]
        rfl
      · show s.resolver.queries ++ [query hostname port family] = _
        rw [hasked, ← List.replicate_succ']
        show _ = List.replicate (s.resolver.lists ++ [c.list]).length _
        rw [List.length_append, List.length_singleton]
    · have hfail : c.asprintf = false := by simpa using hok
      unfold probeHost at hcall
      rw [if_neg (show ¬ c.answers.asprintf = true from hok)] at hcall
      refine ⟨_, lookups_step hostname port family c hcall, ?_, ?_, hasked⟩
      · exact LookupOutcome.refused hdue hfail rfl rfl rfl rfl rfl
      · exact Phase.fresh (Or.inr rfl) rfl hdue
  · obtain ⟨before, last, i, hlists, hi, hfreed, hread, hcall⟩ := P.resolve_next hostname port family c hdue
    refine ⟨_, lookups_step hostname port family c hcall, ?_, ?_, hasked⟩
    · exact LookupOutcome.next hdue (before.length, i) rfl rfl (Returns.of_reading hlists hfreed hi rfl)
    · refine Phase.reading before last (i + 1) hlists (Nat.le_add_left 1 i) hi rfl hfreed ?_
      show s.returned ++ [(before.length, i)] = _
      rw [hread, batchRow_succ, List.append_assoc]

end Call

/-! ## §5. Sequences of calls. -/

section Runs

variable (hostname : CStr) (port : Nat) (family : Int)

/-- The invariant of a sequence of calls. -/
structure Rotating (s : Session α) : Prop where
  phase : Phase s
  asked : s.resolver.queries = List.replicate s.resolver.lists.length (query hostname port family)

theorem rotating_run (cs : List (Lookup α)) {s : Session α} (R : Rotating hostname port family s) :
    ∃ t, (lookups hostname port family).run s cs = some t ∧ Rotating hostname port family t := by
  apply Component.run_inv
  · intro s c R _
    obtain ⟨s', hstep, -, hphase, hasked⟩ := R.phase.step hostname port family c R.asked
    exact ⟨s', hstep, hphase, hasked⟩
  · exact R
  · exact Component.legal_of_always _ (fun _ _ => trivial) cs s

variable {hostname port family}

/-- Where a list is still not freed, the call has returned one more of its addresses. -/
theorem LookupOutcome.of_unfreed {s s' : Session α} {c : Lookup α} {q : Query} (O : LookupOutcome s c s')
    (R : Rotation q s') {k : Nat} (hk : k < s.resolver.lists.length) (hunfreed : k ∉ s'.resolver.freed) :
    k ∉ s.resolver.freed ∧ s'.resolver.lists = s.resolver.lists ∧ s'.returned.length = s.returned.length + 1 := by
  have hcached : k < s'.resolver.lists.length → s'.cached = some k := by
    intro hlt
    by_contra hne
    exact hunfreed ((R.freed k).mpr ⟨hlt, hne⟩)
  cases O with
  | refused hdue hfail hlists hinfo hrets hsame hnone =>
      have h := hcached (by rw [hlists]; exact hk)
      rw [hnone] at h
      cases h
  | resolved hdue hok hlists hret =>
      have h := hcached (by rw [hlists, List.length_append]; omega)
      rw [hret.cached, Option.some.injEq] at h
      have hself : s.resolver.lists.length = k := h
      omega
  | next hdue entry hlists hfreed hret =>
      rw [hfreed] at hunfreed
      refine ⟨hunfreed, hlists, ?_⟩
      rw [hret.returned, List.length_append, List.length_singleton]

/-- A list that is not freed in the end has given an address to every call. -/
theorem returned_of_unfreed (ds : List (Lookup α)) :
    ∀ {s t : Session α} {k : Nat}, Rotating hostname port family s → k < s.resolver.lists.length →
      (lookups hostname port family).run s ds = some t → k ∉ t.resolver.freed →
      k ∉ s.resolver.freed ∧ t.resolver.lists = s.resolver.lists
        ∧ t.returned.length = s.returned.length + ds.length := by
  induction ds with
  | nil =>
      intro s t k _ _ hrun hunfreed
      cases hrun
      exact ⟨hunfreed, rfl, rfl⟩
  | cons c ds ih =>
      intro s t k R hk hrun hunfreed
      obtain ⟨s', hstep, O, hphase, hasked⟩ := R.phase.step hostname port family c R.asked
      obtain ⟨s₁, hs₁, hrest⟩ := Option.bind_eq_some_iff.mp hrun
      rw [hstep, Option.some.injEq] at hs₁
      subst hs₁
      have hgrow : k < s'.resolver.lists.length := by
        cases O with
        | refused _ _ hlists => rw [hlists]; exact hk
        | resolved _ _ hlists => rw [hlists, List.length_append]; omega
        | next _ _ hlists => rw [hlists]; exact hk
      obtain ⟨hunfreed', hlists', hlen'⟩ := ih ⟨hphase, hasked⟩ hgrow hrest hunfreed
      obtain ⟨hunfreed₀, hlists₀, hlen₀⟩ := O.of_unfreed (hphase.rotation hasked) hk hunfreed'
      refine ⟨hunfreed₀, hlists'.trans hlists₀, ?_⟩
      rw [hlen', hlen₀, List.length_cons]
      omega

/-- **Every list is freed once**, by a number of calls that its addresses bound. -/
theorem freed_once {s : Session α} (R : Rotating hostname port family s) {k : Nat} (hk : k < s.resolver.lists.length)
    (ds : List (Lookup α)) (hds : (entries s.resolver.lists).length < ds.length) :
    ∃ t, (lookups hostname port family).run s ds = some t ∧ t.resolver.freed.count k = 1 := by
  obtain ⟨t, hrun, Rt⟩ := rotating_run hostname port family ds R
  have hrot := Rt.phase.rotation Rt.asked
  refine ⟨t, hrun, List.count_eq_one_of_mem hrot.freedOnce ?_⟩
  by_contra hunfreed
  obtain ⟨-, hlists, hlen⟩ := returned_of_unfreed ds R hk hrun hunfreed
  have hread := hrot.inOrder.inOrder.length_le
  rw [hlists, hlen] at hread
  omega

theorem rotating_start : Rotating hostname port family (Session.start : Session α) := ⟨phase_start, rfl⟩

end Runs

/-- **The rotation of the DNS cache.**  For every sequence of calls with one hostname, port and family: no
call gets stuck.  The addresses of all lists are returned each once and in order.  A call returns -1 when
a look-up is due and its `asprintf` fails; every other call returns 0 with an entry of the cached list,
which is not freed.  The host is looked up when all addresses were returned and only then.  No list is
freed twice, all but the cached one are freed, and every list is freed once if the calls go on. -/
theorem lookups_rotate (hostname : CStr) (port : Nat) (family : Int) (cs : List (Lookup α)) :
    ∃ s, (lookups hostname port family).run Session.start cs = some s
      ∧ Rotation (query hostname port family) s
      ∧ (∀ c, ∃ s', (lookups hostname port family).step s c = some s' ∧ LookupOutcome s c s')
      ∧ ∀ k, k < s.resolver.lists.length → ∃ n, ∀ ds, n ≤ ds.length →
          ∃ t, (lookups hostname port family).run Session.start (cs ++ ds) = some t
            ∧ t.resolver.freed.count k = 1 := by
  obtain ⟨s, hrun, R⟩ := rotating_run hostname port family cs rotating_start
  refine ⟨s, hrun, R.phase.rotation R.asked, ?_, ?_⟩
  · intro c
    obtain ⟨s', hstep, O, -⟩ := R.phase.step hostname port family c R.asked
    exact ⟨s', hstep, O⟩
  · intro k hk
    refine ⟨(entries s.resolver.lists).length + 1, ?_⟩
    intro ds hds
    rw [Component.run_append, hrun, Option.bind_some]
    exact freed_once R hk ds (by omega)

/-- The first `asprintf` fails; the `CALLOC` of the cache fails; the host has no name; a list is not freed
by the call that makes it. -/
theorem lookups_refused :
    (∃ s, (lookups ⟨[104], by decide⟩ 80 0).run Session.start [(⟨false, [7], by decide⟩ : Lookup Nat)] = some s
      ∧ s.rets = [-1] ∧ s.addrInfo = none)
    ∧ (lzResolveIp6 (some ⟨[104], by decide⟩) 80 0 ⟨false, true, some [7], (true, true)⟩
        (Session.start : Session Nat).resolver none).isNone
    ∧ (∃ r, lzResolveIp6 none 80 0 ⟨true, true, some [7], (true, true)⟩
        (Session.start : Session Nat).resolver none = some r ∧ r.ret = -1)
    ∧ ∃ s, (lookups ⟨[104], by decide⟩ 80 0).run Session.start [(⟨true, [7], by decide⟩ : Lookup Nat)] = some s
      ∧ s.rets = [0] ∧ s.resolver.lists = [[7]] ∧ s.resolver.freed = [] :=
  ⟨⟨_, rfl, rfl, rfl⟩, rfl, ⟨_, rfl, rfl⟩, ⟨_, rfl, rfl, rfl, rfl⟩⟩

end LzLib.CommonUtils
