/-
  LzLib.Dict.Representation
  ─────────────────────────
  **THE REPRESENTATION OF A DICT.**

  `Shape d ms ch` says that the members list of `d` threads exactly the
  addresses `ms` and the chain of bucket `i` exactly `ch i`, where `ch i`
  are the members whose key hashes to `i`.  `count` is left out: decoding
  (`dict_unserialize`) overwrites it.

  Main results, for any number of buckets:
    • `dictLookup_spec`    — lookup is search along the bucket's chain;
    • `Shape.linkPair`     — a new pair goes in front of both lists;
    • `Shape.replaceValue` — overwriting a value moves nothing;
    • `Shape.removePair`   — `dict_del` unlinks a pair from both lists.
-/
import LzLib.Dict.DictDef
import LzLib.Foundation.Assoc
import Mathlib.Data.List.Perm.Subperm

namespace LzLib.Dict

open LzLib.Foundation

instance : Inhabited CStr := ⟨⟨[], List.not_mem_nil⟩⟩

/-! ## §1. Reading one field of the pairs. -/

section Readers

variable {α : Type} (g : Pair → α) (pairs : Heap Pair)

/-- Field `g` of the pair at `p`. -/
def readOf (p : Addr) : Option α := (pairs p).map g

theorem readOf_some {p : Addr} {c : Pair} (h : pairs p = some c) : readOf g pairs p = some (g c) := by
  rw [readOf, h]; rfl

theorem readOf_isSome (p : Addr) : (readOf g pairs p).isSome = (pairs p).isSome := by
  unfold readOf; cases pairs p <;> rfl

theorem readOf_update (p y : Addr) (c : Pair) :
    readOf g (Function.update pairs p (some c)) y = if y = p then some (g c) else readOf g pairs y := by
  unfold readOf
  by_cases h : y = p
  · subst h; simp
  · simp [h]

theorem readOf_erase {p y : Addr} (h : y ≠ p) :
    readOf g (Function.update pairs p none) y = readOf g pairs y := by
  unfold readOf
  rw [Function.update_of_ne h]

variable {g pairs}

/-- Writing other fields of a pair does not show in field `g`. -/
theorem readOf_modify {p : Addr} {c c' : Pair} (h : pairs p = some c) (hc : g c' = g c) :
    readOf g (Function.update pairs p (some c')) = readOf g pairs := by
  funext y
  rw [readOf_update]
  split
  next hy => rw [hy, readOf_some g pairs h, hc]
  next => rfl

end Readers

/-- The key of the pair at `p`. -/
def keyAt (this : Dict) (p : Addr) : CStr := (readOf Pair.key this.pairs p).getD default

/-- The value of the pair at `p`. -/
def valueAt (this : Dict) (p : Addr) : Addr := (readOf Pair.value this.pairs p).getD 0

/-- Keys and values of the pairs `ms`. -/
def entries (this : Dict) (ms : List Addr) : List (CStr × Addr) :=
  ms.map fun p => (this.keyAt p, this.valueAt p)

/-! ## §2. The shape. -/

/-- `members_list` threads `ms`, bucket `i` threads `ch i`. -/
structure Shape (d : Dict) (ms : List Addr) (ch : Int → List Addr) : Prop where
  list : Doubly (readOf Pair.next d.pairs) (readOf Pair.prev d.pairs) 0 d.membersList ms
  chain : ∀ i, Chain (readOf Pair.hashNext d.pairs) (d.members i) (ch i)
  mem_chain : ∀ i p, p ∈ ch i ↔ p ∈ ms ∧ d.setBucket (d.keyAt p) = i
  live : ∀ p, (d.pairs p).isSome = true ↔ p ∈ ms
  below : ∀ p ∈ ms, p < d.brk
  pos : 0 < d.brk

/-- `hashval` indexes `members`. -/
def InTable (this : Dict) (hashval : Int) : Prop := 0 ≤ hashval ∧ hashval < this.hashSize

theorem bucket_inTable {d : Dict} {i : Int} (h : d.InTable i) : d.bucket i = some (d.members i) :=
  if_pos h

/-- A new dict is empty. -/
theorem shape_new (n : Int) : Shape (getNewDictFull n) [] (fun _ => []) where
  list := rfl
  chain _ := rfl
  mem_chain _ _ := by simp
  live _ := by simp [getNewDictFull]
  below _ h := absurd h List.not_mem_nil
  pos := Nat.one_pos

section

variable {d : Dict} {ms : List Addr} {ch : Int → List Addr}

theorem Shape.ne_zero (S : Shape d ms ch) {p : Addr} (hp : p ∈ ms) : p ≠ 0 :=
  S.list.chain.ne_zero p hp

theorem Shape.nodup (S : Shape d ms ch) : ms.Nodup := S.list.chain.nodup

theorem Shape.pair (S : Shape d ms ch) {p : Addr} (hp : p ∈ ms) :
    ∃ c, d.pairs p = some c ∧ c.key = d.keyAt p ∧ c.value = d.valueAt p := by
  obtain ⟨c, hc⟩ := Option.isSome_iff_exists.mp ((S.live p).mpr hp)
  refine ⟨c, hc, ?_, ?_⟩
  · rw [Dict.keyAt, readOf_some _ _ hc]; rfl
  · rw [Dict.valueAt, readOf_some _ _ hc]; rfl

theorem Shape.mem_of_chain (S : Shape d ms ch) {i : Int} {p : Addr} (hp : p ∈ ch i) : p ∈ ms :=
  ((S.mem_chain i p).mp hp).1

/-- Distinct addresses below `brk`: the chain is within the lookup's fuel. -/
theorem Shape.chain_length (S : Shape d ms ch) (i : Int) : (ch i).length ≤ d.brk := by
  have hsub : ch i ⊆ List.range d.brk := fun p hp =>
    List.mem_range.mpr (S.below p (S.mem_of_chain hp))
  have := (List.subperm_of_subset (S.chain i).nodup hsub).length_le
  rwa [List.length_range] at this

/-! ## §3. Searching a chain. -/

theorem find_miss {key : CStr} {xs : List Addr} (hmiss : ∀ q ∈ xs, d.keyAt q ≠ key) :
    xs.find? (fun q => d.keyAt q = key) = none := by
  rw [List.find?_eq_none]
  intro q hq
  simpa using hmiss q hq

/-- **What the search of a chain finds**: nothing, or the first pair with the key. -/
theorem Shape.find_cases (S : Shape d ms ch) (i : Int) (key : CStr) :
    ((ch i).find? (fun q => d.keyAt q = key) = none ∧ ∀ q ∈ ch i, d.keyAt q ≠ key) ∨
      ∃ p l r, (ch i).find? (fun q => d.keyAt q = key) = some p ∧ ch i = l ++ p :: r ∧
        d.keyAt p = key ∧ (∀ q ∈ l, d.keyAt q ≠ key) ∧ p ∈ ms := by
  cases hfind : (ch i).find? (fun q => d.keyAt q = key) with
  | none =>
      refine Or.inl ⟨rfl, ?_⟩
      intro q hq
      simpa using List.find?_eq_none.mp hfind q hq
  | some p =>
      obtain ⟨hkp, l, r, hch, hl⟩ := List.find?_eq_some_iff_append.mp hfind
      refine Or.inr ⟨p, l, r, rfl, hch, by simpa using hkp, fun q hq => by simpa using hl q hq, ?_⟩
      exact S.mem_of_chain (List.mem_of_find?_eq_some hfind)

/-- The loop of `_dict_lookup` finds the first pair with the key. -/
theorem findPair_spec (key : CStr) : ∀ {fuel : Nat} {p : Addr} {xs : List Addr},
    Chain (readOf Pair.hashNext d.pairs) p xs → xs.length ≤ fuel →
    findPair d.pairs key fuel p = some ((xs.find? fun q => d.keyAt q = key).getD 0)
  | 0, p, [], h, _ => by
      have hp : p = 0 := h
      subst hp
      rfl
  | fuel + 1, p, [], h, _ => by
      have hp : p = 0 := h
      subst hp
      rfl
  | fuel + 1, p, x :: xs, h, hlen => by
      obtain ⟨rfl, hx, q, hq, h⟩ := h
      obtain ⟨c, hc, hcq⟩ := Option.map_eq_some_iff.mp hq
      have hkey : d.keyAt p = c.key := by rw [Dict.keyAt, readOf_some _ _ hc]; rfl
      subst hcq
      have ih := findPair_spec key h (Nat.le_of_succ_le_succ hlen)
      unfold findPair
      rw [if_neg hx, hc, List.find?_cons, hkey]
      by_cases hk : c.key = key
      · simp [hk]
      · simp [hk, ih]

/-- **Lookup** is search along the chain of the key's bucket. -/
theorem dictLookup_spec (S : Shape d ms ch) (key : CStr) (hg : d.InTable (d.getBucket key)) :
    dictLookup d key = some (((ch (d.getBucket key)).find? fun q => d.keyAt q = key).getD 0) := by
  unfold dictLookup
  rw [Dict.bucket_inTable hg]
  exact findPair_spec key (S.chain _) (S.chain_length _)

/-- The loop of `dict_del`, no pair having the key. -/
theorem findPrevPair_none (key : CStr) : ∀ {fuel : Nat} {prev p : Addr} {xs : List Addr},
    Chain (readOf Pair.hashNext d.pairs) p xs → xs.length ≤ fuel → (∀ q ∈ xs, d.keyAt q ≠ key) →
    ∃ a, findPrevPair d.pairs key fuel prev p = some (a, 0)
  | 0, prev, p, [], h, _, _ => by
      have hp : p = 0 := h
      subst hp
      exact ⟨prev, rfl⟩
  | fuel + 1, prev, p, [], h, _, _ => by
      have hp : p = 0 := h
      subst hp
      exact ⟨prev, rfl⟩
  | fuel + 1, prev, p, x :: xs, h, hlen, hne => by
      obtain ⟨rfl, hx, q, hq, h⟩ := h
      obtain ⟨c, hc, rfl⟩ := Option.map_eq_some_iff.mp hq
      have hkey : d.keyAt p = c.key := by rw [Dict.keyAt, readOf_some _ _ hc]; rfl
      have hk : c.key ≠ key := hkey ▸ hne p (by simp)
      have hlen' : xs.length ≤ fuel := Nat.le_of_succ_le_succ hlen
      obtain ⟨a, ih⟩ : ∃ a, findPrevPair d.pairs key fuel p c.hashNext = some (a, 0) :=
        findPrevPair_none key h hlen' (fun q hq => hne q (by simp [hq]))
      refine ⟨a, ?_⟩
      unfold findPrevPair
      rw [if_neg hx, hc]
      show (if c.key = key then _ else _) = _
      rw [if_neg hk, ih]

/-- The loop of `dict_del`, stopping at the first pair with the key. -/
theorem findPrevPair_found (key : CStr) {x : Addr} {r : List Addr} (hkx : d.keyAt x = key) :
    ∀ {fuel : Nat} {prev p : Addr} {l : List Addr},
    Chain (readOf Pair.hashNext d.pairs) p (l ++ x :: r) → (l ++ x :: r).length ≤ fuel →
    (∀ q ∈ l, d.keyAt q ≠ key) →
    findPrevPair d.pairs key fuel prev p = some (l.getLastD prev, x)
  | 0, _, _, [], _, hlen, _ => by simp at hlen
  | 0, _, _, _ :: _, _, hlen, _ => by simp at hlen
  | fuel + 1, prev, p, [], h, _, _ => by
      obtain ⟨rfl, hx, q, hq, _⟩ := h
      obtain ⟨c, hc, _⟩ := Option.map_eq_some_iff.mp hq
      have hkey : d.keyAt p = c.key := by rw [Dict.keyAt, readOf_some _ _ hc]; rfl
      unfold findPrevPair
      rw [if_neg hx, hc]
      show (if c.key = key then _ else _) = _
      rw [if_pos (hkey ▸ hkx)]
      rfl
  | fuel + 1, prev, p, y :: l, h, hlen, hne => by
      obtain ⟨rfl, hy, q, hq, h⟩ := h
      obtain ⟨c, hc, rfl⟩ := Option.map_eq_some_iff.mp hq
      have hkey : d.keyAt p = c.key := by rw [Dict.keyAt, readOf_some _ _ hc]; rfl
      have hk : c.key ≠ key := hkey ▸ hne p (by simp)
      have hlen' : (l ++ x :: r).length ≤ fuel := Nat.le_of_succ_le_succ hlen
      have ih : findPrevPair d.pairs key fuel p c.hashNext = some (l.getLastD p, x) :=
        findPrevPair_found key hkx h hlen' (fun q hq => hne q (by simp [hq]))
      unfold findPrevPair
      rw [if_neg hy, hc]
      show (if c.key = key then _ else _) = _
      rw [if_neg hk, ih]
      cases l <;> rfl

/-! ## §4. Writing one pair. -/

theorem modifyPair_eq {p : Addr} {c : Pair} (h : d.pairs p = some c) (f : Pair → Pair) :
    d.modifyPair p f = some { d with pairs := Function.update d.pairs p (some (f c)) } := by
  unfold Dict.modifyPair
  rw [h]

theorem setBucket_congr {d' : Dict} (h : d'.hashSize = d.hashSize) (key : CStr) :
    d'.setBucket key = d.setBucket key := by
  unfold Dict.setBucket
  rw [h]

theorem entries_congr {d' : Dict} {ms : List Addr}
    (hk : ∀ p ∈ ms, readOf Pair.key d'.pairs p = readOf Pair.key d.pairs p)
    (hv : ∀ p ∈ ms, readOf Pair.value d'.pairs p = readOf Pair.value d.pairs p) :
    d'.entries ms = d.entries ms := by
  apply List.map_congr_left
  intro p hp
  rw [Dict.keyAt, Dict.valueAt, hk p hp, hv p hp]
  rfl

/-! ## §5. Inserting. -/

/-- What a dict looks like once a new pair has been linked in front of bucket
`i` and of the members. -/
structure Linked (d : Dict) (i : Int) (key : CStr) (value : Addr) (d' : Dict) : Prop where
  hashSize : d'.hashSize = d.hashSize
  count : d'.count = d.count + 1
  members : d'.members = Function.update d.members i d.brk
  membersList : d'.membersList = d.brk
  brk : d'.brk = d.brk + 1
  hashNext : ∀ y, readOf Pair.hashNext d'.pairs y
    = if y = d.brk then some (d.members i) else readOf Pair.hashNext d.pairs y
  next : ∀ y, readOf Pair.next d'.pairs y
    = if y = d.brk then some d.membersList else readOf Pair.next d.pairs y
  prev : ∀ y, y ≠ 0 → readOf Pair.prev d'.pairs y
    = if y = d.brk then some 0 else if y = d.membersList then some d.brk else readOf Pair.prev d.pairs y
  key : ∀ y, readOf Pair.key d'.pairs y = if y = d.brk then some key else readOf Pair.key d.pairs y
  value : ∀ y, readOf Pair.value d'.pairs y
    = if y = d.brk then some value else readOf Pair.value d.pairs y

/-- `Dict.linkPair` does that. -/
theorem linkPair_linked (S : Shape d ms ch) {i : Int} (hi : d.InTable i) (hroom : d.count < int32Max) (key : CStr)
    (value : Addr) : ∃ d', d.linkPair i key value = some d' ∧ Linked d i key value d' := by
  unfold Dict.linkPair
  rw [Dict.bucket_inTable hi, incInt_eq hroom]
  by_cases hm : d.membersList = 0
  · refine ⟨_, if_pos hm, ?_⟩
    constructor
    case prev =>
      intro y hy
      rw [readOf_update, hm, if_neg hy]
    all_goals first | rfl | intro y; rw [readOf_update]
  · -- the old head is a member, and not the new pair
    obtain ⟨m, ms', rfl⟩ : ∃ m ms', ms = m :: ms' := by
      cases ms with
      | nil => exact absurd S.list hm
      | cons m ms' => exact ⟨m, ms', rfl⟩
    have hhead : d.membersList = m := S.list.1
    obtain ⟨c, hc, _⟩ := S.pair (List.mem_cons_self (a := m) (l := ms'))
    have hne : m ≠ d.brk := Nat.ne_of_lt (S.below m List.mem_cons_self)
    refine ⟨_, (if_neg hm).trans (Dict.modifyPair_eq (c := c) ?_ _), ?_⟩
    · show Function.update d.pairs d.brk _ d.membersList = some c
      rw [hhead, Function.update_of_ne hne, hc]
    · constructor
      case prev =>
        intro y _
        rw [readOf_update, readOf_update, hhead]
        by_cases hy : y = m
        · rw [if_pos hy, if_neg (hy ▸ hne), if_pos hy]
        · rw [if_neg hy, if_neg hy]
      all_goals first
        | rfl
        | intro y
          rw [readOf_update, hhead, readOf_update]
          by_cases hy : y = m
          · rw [if_pos hy, if_neg (hy ▸ hne), hy, readOf_some _ _ hc]
          · rw [if_neg hy]

/-- The new pair is the first member. -/
theorem Linked.list {d' : Dict} {i : Int} {key : CStr} {value : Addr} (S : Shape d ms ch) (L : Linked d i key value d') :
    Doubly (readOf Pair.next d'.pairs) (readOf Pair.prev d'.pairs) 0 d'.membersList (d.brk :: ms) := by
  have hbrk : d.brk ≠ 0 := Nat.ne_of_gt S.pos
  have hold : ∀ y ∈ ms, y ≠ d.brk := fun y hy => Nat.ne_of_lt (S.below y hy)
  rw [L.membersList]
  apply S.list.push hbrk
  · rw [L.next, if_pos rfl]
  · rw [L.prev _ hbrk, if_pos rfl]
  · intro y hy
    rw [L.next, if_neg (hold y hy)]
  · intro y hy
    have hy' : y ∈ ms := List.mem_of_mem_head? hy
    have hhead : y = d.membersList := by
      cases ms with
      | nil => simp at hy
      | cons z ms' => cases hy; exact S.list.1.symm
    rw [L.prev y (S.ne_zero hy'), if_neg (hold y hy'), if_pos hhead]
  · intro y hy
    have hy' : y ∈ ms := List.mem_of_mem_tail hy
    have hhead : y ≠ d.membersList := by
      cases ms with
      | nil => simp at hy
      | cons z ms' =>
          rw [S.list.1]
          exact fun h => (List.nodup_cons.mp S.nodup).1 (h ▸ hy)
    rw [L.prev y (S.ne_zero hy'), if_neg (hold y hy'), if_neg hhead]

/-- The new pair is a member in front of the others, and in front of its chain. -/
theorem Linked.shape {d' : Dict} {i : Int} {key : CStr} {value : Addr} (S : Shape d ms ch)
    (hi : d.setBucket key = i) (L : Linked d i key value d') :
    Shape d' (d.brk :: ms) (Function.update ch i (d.brk :: ch i)) := by
  have hbrk : d.brk ≠ 0 := Nat.ne_of_gt S.pos
  have hold : ∀ y ∈ ms, y ≠ d.brk := fun y hy => Nat.ne_of_lt (S.below y hy)
  -- the chains of old members are read as before
  have hchain : ∀ j, ∀ y ∈ ch j,
      readOf Pair.hashNext d'.pairs y = readOf Pair.hashNext d.pairs y :=
    fun j y hy => by rw [L.hashNext, if_neg (hold y (S.mem_of_chain hy))]
  constructor
  case list => exact L.list S
  case chain =>
    intro j
    rw [L.members]
    by_cases hb : j = i
    · subst hb
      rw [Function.update_self, Function.update_self]
      exact (S.chain j).push hbrk (by rw [L.hashNext, if_pos rfl]) (hchain j)
    · rw [Function.update_of_ne hb, Function.update_of_ne hb]
      exact (S.chain j).congr (hchain j)
  case mem_chain =>
    intro j p
    rw [Dict.setBucket_congr L.hashSize, Dict.keyAt, L.key]
    by_cases hp : p = d.brk
    · subst hp
      have hnot : d.brk ∉ ch j := fun h => hold d.brk (S.mem_of_chain h) rfl
      rw [if_pos rfl, Option.getD_some, hi]
      by_cases hb : j = i
      · subst hb; simp
      · rw [Function.update_of_ne hb]
        simp [hnot, Ne.symm hb]
    · rw [if_neg hp, List.mem_cons, or_iff_right hp]
      by_cases hb : j = i
      · subst hb
        rw [Function.update_self, List.mem_cons, or_iff_right hp]
        exact S.mem_chain j p
      · rw [Function.update_of_ne hb]
        exact S.mem_chain j p
  case live =>
    intro p
    rw [← readOf_isSome Pair.next, L.next]
    by_cases hp : p = d.brk
    · simp [hp]
    · rw [if_neg hp, readOf_isSome, List.mem_cons, or_iff_right hp, S.live]
  case below =>
    intro p hp
    rw [L.brk]
    rcases List.mem_cons.mp hp with h | h
    · exact h ▸ Nat.lt_succ_self _
    · exact Nat.lt_succ_of_lt (S.below p h)
  case pos => exact L.brk ▸ Nat.succ_pos _

theorem Linked.entries {d' : Dict} {i : Int} {key : CStr} {value : Addr} (S : Shape d ms ch)
    (L : Linked d i key value d') : d'.entries (d.brk :: ms) = (key, value) :: d.entries ms := by
  have hold : ∀ y ∈ ms, y ≠ d.brk := fun y hy => Nat.ne_of_lt (S.below y hy)
  have hrest : d'.entries ms = d.entries ms := Dict.entries_congr
    (fun p hp => by rw [L.key, if_neg (hold p hp)]) (fun p hp => by rw [L.value, if_neg (hold p hp)])
  show (d'.keyAt d.brk, d'.valueAt d.brk) :: d'.entries ms = _
  rw [hrest, Dict.keyAt, Dict.valueAt, L.key, L.value, if_pos rfl, if_pos rfl]
  rfl

/-! ## §6. Overwriting a value. -/

/-- What a dict looks like once the value of the pair at `p` has been written. -/
structure Overwritten (d : Dict) (p : Addr) (value : Addr) (d' : Dict) : Prop where
  hashSize : d'.hashSize = d.hashSize
  count : d'.count = d.count
  members : d'.members = d.members
  membersList : d'.membersList = d.membersList
  brk : d'.brk = d.brk
  hashNext : readOf Pair.hashNext d'.pairs = readOf Pair.hashNext d.pairs
  next : readOf Pair.next d'.pairs = readOf Pair.next d.pairs
  prev : readOf Pair.prev d'.pairs = readOf Pair.prev d.pairs
  key : readOf Pair.key d'.pairs = readOf Pair.key d.pairs
  value : ∀ y, readOf Pair.value d'.pairs y = if y = p then some value else readOf Pair.value d.pairs y

theorem modifyPair_overwritten (S : Shape d ms ch) {p : Addr} (hp : p ∈ ms) (value : Addr) :
    ∃ d', (d.modifyPair p fun c => { c with value := value }) = some d' ∧ Overwritten d p value d' := by
  obtain ⟨c, hc, _⟩ := S.pair hp
  refine ⟨_, Dict.modifyPair_eq hc _, ?_⟩
  constructor
  case value => intro y; rw [readOf_update]
  all_goals first | rfl | exact readOf_modify hc rfl

/-- Nothing moves. -/
theorem Overwritten.shape {d' : Dict} {p value : Addr} (S : Shape d ms ch)
    (O : Overwritten d p value d') : Shape d' ms ch where
  list := by rw [O.membersList, O.next, O.prev]; exact S.list
  chain i := by rw [O.members, O.hashNext]; exact S.chain i
  mem_chain i q := by
    rw [Dict.setBucket_congr O.hashSize, Dict.keyAt, O.key]
    exact S.mem_chain i q
  live q := by rw [← readOf_isSome Pair.key, O.key, readOf_isSome, S.live]
  below := by rw [O.brk]; exact S.below
  pos := by rw [O.brk]; exact S.pos

theorem Overwritten.entries {d' : Dict} {p value : Addr} (O : Overwritten d p value d') :
    d'.entries ms = ms.map fun q => (d.keyAt q, if q = p then value else d.valueAt q) := by
  apply List.map_congr_left
  intro q _
  rw [Dict.keyAt, Dict.valueAt, O.key, O.value]
  by_cases hq : q = p
  · rw [if_pos hq, if_pos hq]; rfl
  · rw [if_neg hq, if_neg hq]; rfl

/-! ## §7. Removing. -/

/-- Only links have been written. -/
structure Rewired (d d' : Dict) : Prop where
  hashSize : d'.hashSize = d.hashSize
  count : d'.count = d.count
  brk : d'.brk = d.brk
  key : readOf Pair.key d'.pairs = readOf Pair.key d.pairs
  value : readOf Pair.value d'.pairs = readOf Pair.value d.pairs

theorem Rewired.live {d' : Dict} (R : Rewired d d') (y : Addr) :
    (d'.pairs y).isSome = (d.pairs y).isSome := by
  rw [← readOf_isSome Pair.key, R.key, readOf_isSome]

theorem unchain_spec {prev : Addr} (hprev : prev ≠ 0 → (d.pairs prev).isSome = true) (i : Int) (c : Pair) :
    ∃ d', d.unchain i prev c = some d' ∧ Rewired d d' ∧ d'.membersList = d.membersList ∧
      readOf Pair.next d'.pairs = readOf Pair.next d.pairs ∧
      readOf Pair.prev d'.pairs = readOf Pair.prev d.pairs ∧
      d'.members = (if prev = 0 then Function.update d.members i c.hashNext else d.members) ∧
      ∀ y, y ≠ 0 → readOf Pair.hashNext d'.pairs y
        = if y = prev then some c.hashNext else readOf Pair.hashNext d.pairs y := by
  unfold Dict.unchain
  by_cases hp : prev = 0
  · rw [if_neg (not_not.mpr hp)]
    refine ⟨_, rfl, ⟨rfl, rfl, rfl, rfl, rfl⟩, rfl, rfl, rfl, (if_pos hp).symm, ?_⟩
    intro y hy
    rw [hp, if_neg hy]
  · rw [if_pos hp]
    obtain ⟨a, ha⟩ := Option.isSome_iff_exists.mp (hprev hp)
    refine ⟨_, Dict.modifyPair_eq ha _, ⟨rfl, rfl, rfl, readOf_modify ha rfl, readOf_modify ha rfl⟩, rfl,
      readOf_modify ha rfl, readOf_modify ha rfl, (if_neg hp).symm, ?_⟩
    intro y _
    rw [readOf_update]

theorem passNext_spec {c : Pair} (hprev : c.prev ≠ 0 → (d.pairs c.prev).isSome = true) :
    ∃ d', d.passNext c = some d' ∧ Rewired d d' ∧ d'.members = d.members ∧
      readOf Pair.hashNext d'.pairs = readOf Pair.hashNext d.pairs ∧
      readOf Pair.prev d'.pairs = readOf Pair.prev d.pairs ∧
      d'.membersList = (if c.prev = 0 then c.next else d.membersList) ∧
      ∀ y, y ≠ 0 → readOf Pair.next d'.pairs y
        = if y = c.prev then some c.next else readOf Pair.next d.pairs y := by
  unfold Dict.passNext
  by_cases hp : c.prev = 0
  · rw [if_neg (not_not.mpr hp)]
    refine ⟨_, rfl, ⟨rfl, rfl, rfl, rfl, rfl⟩, rfl, rfl, rfl, (if_pos hp).symm, ?_⟩
    intro y hy
    rw [hp, if_neg hy]
  · rw [if_pos hp]
    obtain ⟨a, ha⟩ := Option.isSome_iff_exists.mp (hprev hp)
    refine ⟨_, Dict.modifyPair_eq ha _, ⟨rfl, rfl, rfl, readOf_modify ha rfl, readOf_modify ha rfl⟩, rfl,
      readOf_modify ha rfl, readOf_modify ha rfl, (if_neg hp).symm, ?_⟩
    intro y _
    rw [readOf_update]

theorem passPrev_spec {c : Pair} (hnext : c.next ≠ 0 → (d.pairs c.next).isSome = true) :
    ∃ d', d.passPrev c = some d' ∧ Rewired d d' ∧ d'.members = d.members ∧
      d'.membersList = d.membersList ∧
      readOf Pair.hashNext d'.pairs = readOf Pair.hashNext d.pairs ∧
      readOf Pair.next d'.pairs = readOf Pair.next d.pairs ∧
      ∀ y, y ≠ 0 → readOf Pair.prev d'.pairs y
        = if y = c.next then some c.prev else readOf Pair.prev d.pairs y := by
  unfold Dict.passPrev
  by_cases hn : c.next = 0
  · rw [if_neg (not_not.mpr hn)]
    refine ⟨_, rfl, ⟨rfl, rfl, rfl, rfl, rfl⟩, rfl, rfl, rfl, rfl, ?_⟩
    intro y hy
    rw [hn, if_neg hy]
  · rw [if_pos hn]
    obtain ⟨a, ha⟩ := Option.isSome_iff_exists.mp (hnext hn)
    refine ⟨_, Dict.modifyPair_eq ha _, ⟨rfl, rfl, rfl, readOf_modify ha rfl, readOf_modify ha rfl⟩, rfl,
      rfl, readOf_modify ha rfl, readOf_modify ha rfl, ?_⟩
    intro y _
    rw [readOf_update]

/-- What a dict looks like once the pair at `x` has been taken off its chain
(behind `prev`, 0 at the chain's start) and off the members. -/
structure Unlinked (d : Dict) (i : Int) (prev x : Addr) (c : Pair) (d' : Dict) : Prop where
  hashSize : d'.hashSize = d.hashSize
  count : d'.count = d.count - 1
  brk : d'.brk = d.brk
  dead : d'.pairs x = none
  members : d'.members = if prev = 0 then Function.update d.members i c.hashNext else d.members
  membersList : d'.membersList = if c.prev = 0 then c.next else d.membersList
  hashNext : ∀ y, y ≠ x → y ≠ 0 → readOf Pair.hashNext d'.pairs y
    = if y = prev then some c.hashNext else readOf Pair.hashNext d.pairs y
  next : ∀ y, y ≠ x → y ≠ 0 → readOf Pair.next d'.pairs y
    = if y = c.prev then some c.next else readOf Pair.next d.pairs y
  prev : ∀ y, y ≠ x → y ≠ 0 → readOf Pair.prev d'.pairs y
    = if y = c.next then some c.prev else readOf Pair.prev d.pairs y
  key : ∀ y, y ≠ x → readOf Pair.key d'.pairs y = readOf Pair.key d.pairs y
  value : ∀ y, y ≠ x → readOf Pair.value d'.pairs y = readOf Pair.value d.pairs y

/-- The writes of `dict_del` to the pairs. -/
theorem unlink_unlinked {prev x : Addr} {c : Pair} (i : Int)
    (hc : prev ≠ 0 → (d.pairs prev).isSome = true) (hp : c.prev ≠ 0 → (d.pairs c.prev).isSome = true)
    (hn : c.next ≠ 0 → (d.pairs c.next).isSome = true) :
    ∃ d₁ d₂ d₃, d.unchain i prev c = some d₁ ∧ d₁.passNext c = some d₂ ∧ d₂.passPrev c = some d₃ ∧
      d₃.count = d.count ∧ Unlinked d i prev x c
        { d₃ with pairs := Function.update d₃.pairs x none, count := d₃.count - 1 } := by
  obtain ⟨d₁, h₁, R₁, hl₁, hn₁, hp₁, hm₁, hh₁⟩ := unchain_spec hc i c
  obtain ⟨d₂, h₂, R₂, hm₂, hh₂, hp₂, hl₂, hn₂⟩ := passNext_spec (d := d₁) (c := c)
    (fun h => (R₁.live _).trans (hp h))
  obtain ⟨d₃, h₃, R₃, hm₃, hl₃, hh₃, hn₃, hp₃⟩ := passPrev_spec (d := d₂) (c := c)
    (fun h => (R₂.live _).trans ((R₁.live _).trans (hn h)))
  refine ⟨d₁, d₂, d₃, h₁, h₂, h₃, by rw [← R₁.count, ← R₂.count, ← R₃.count], ?_⟩
  constructor
  case hashSize => rw [← R₁.hashSize, ← R₂.hashSize, ← R₃.hashSize]
  case count => rw [← R₁.count, ← R₂.count, ← R₃.count]
  case brk => rw [← R₁.brk, ← R₂.brk, ← R₃.brk]
  case dead => exact Function.update_self _ _ _
  case members => rw [← hm₁, ← hm₂, ← hm₃]
  case membersList => rw [← hl₁, ← hl₂, ← hl₃]
  case hashNext => intro y hy h0; rw [readOf_erase _ _ hy, hh₃, hh₂, hh₁ y h0]
  case next => intro y hy h0; rw [readOf_erase _ _ hy, hn₃, hn₂ y h0, hn₁]
  case prev => intro y hy h0; rw [readOf_erase _ _ hy, hp₃ y h0, hp₂, hp₁]
  case key => intro y hy; rw [readOf_erase _ _ hy, R₃.key, R₂.key, R₁.key]
  case value => intro y hy; rw [readOf_erase _ _ hy, R₃.value, R₂.value, R₁.value]

theorem getLastD_mem {l : List Addr} (h : l.getLastD 0 ≠ 0) : l.getLastD 0 ∈ l := by
  rcases List.mem_cons.mp (List.getLastD_mem_cons (l := l) (a := 0)) with h0 | hl
  · exact absurd h0 h
  · exact hl

theorem headD_mem {l : List Addr} (h : l.headD 0 ≠ 0) : l.headD 0 ∈ l := by
  cases l with
  | nil => exact absurd rfl h
  | cons y l => exact List.mem_cons_self

theorem getLastD_eq_zero_iff {l : List Addr} (hl : ∀ y ∈ l, y ≠ 0) : l.getLastD 0 = 0 ↔ l = [] := by
  constructor
  · intro h
    by_contra hne
    have hlast : l.getLastD 0 = l.getLast hne := by
      rw [List.getLastD_eq_getLast?, List.getLast?_eq_getLast_of_ne_nil hne]
      rfl
    exact hl _ (List.getLast_mem hne) (hlast ▸ h)
  · rintro rfl
    rfl

theorem ne_getLastD_of_dropLast {l : List Addr} (hnd : l.Nodup) {a : Addr} (ha : a ∈ l.dropLast) :
    a ≠ l.getLastD 0 := by
  rcases List.eq_nil_or_concat l with rfl | ⟨L, b, rfl⟩
  · simp at ha
  · rw [List.concat_eq_append] at ha hnd ⊢
    rw [List.dropLast_concat] at ha
    rw [List.getLastD_concat]
    exact (List.nodup_append.mp hnd).2.2 a ha b (by simp)

theorem ne_headD_of_tail {l : List Addr} (hnd : l.Nodup) {a : Addr} (ha : a ∈ l.tail) : a ≠ l.headD 0 := by
  cases l with
  | nil => simp at ha
  | cons y l =>
      rintro rfl
      exact (List.nodup_cons.mp hnd).1 ha

/-- The members list without `x`. -/
theorem Unlinked.list {d' : Dict} {i : Int} {prev x : Addr} {c : Pair} {l r : List Addr}
    (S : Shape d (l ++ x :: r) ch) (hc : d.pairs x = some c) (U : Unlinked d i prev x c d') :
    Doubly (readOf Pair.next d'.pairs) (readOf Pair.prev d'.pairs) 0 d'.membersList (l ++ r) := by
  obtain ⟨hcp, hcn⟩ := S.list.links
  rw [readOf_some _ _ hc, Option.some.injEq] at hcp hcn
  have hnz : ∀ y ∈ l ++ x :: r, y ≠ 0 := fun y hy => S.ne_zero hy
  obtain ⟨hndl, hndr, hdis⟩ := List.nodup_append.mp S.nodup
  obtain ⟨hxr, hndr⟩ := List.nodup_cons.mp hndr
  have hl : ∀ y ∈ l, y ≠ x ∧ y ≠ 0 := fun y hy => ⟨hdis y hy x (by simp), hnz y (by simp [hy])⟩
  have hr : ∀ y ∈ r, y ≠ x ∧ y ≠ 0 := fun y hy => ⟨fun h => hxr (h ▸ hy), hnz y (by simp [hy])⟩
  have hlr : ∀ y ∈ l, ∀ z ∈ r, y ≠ z := fun y hy z hz => hdis y hy z (by simp [hz])
  -- `x` is the head exactly when nothing comes before it
  have hfirst : c.prev = 0 ↔ l = [] := by
    rw [hcp]
    exact getLastD_eq_zero_iff fun y hy => (hl y hy).2
  have hmem : d'.membersList = if l = [] then r.headD 0 else d.membersList := by
    rw [U.membersList, hcn]
    by_cases h : l = []
    · rw [if_pos h, if_pos (hfirst.mpr h)]
    · rw [if_neg h, if_neg (fun h' => h (hfirst.mp h'))]
  rw [hmem]
  -- the four writes: around `x`, and nowhere else
  apply S.list.unlink
  · intro a ha
    have hal : a ∈ l := List.mem_of_getLast? ha
    have hac : a = c.prev := by rw [hcp, List.getLastD_eq_getLast?, ha]; rfl
    rw [U.next a (hl a hal).1 (hl a hal).2, if_pos hac, hcn]
  · intro a ha
    rcases List.mem_append.mp ha with ha | ha
    · have hal : a ∈ l := List.dropLast_subset l ha
      have hac : a ≠ c.prev := by
        rw [hcp]
        exact ne_getLastD_of_dropLast hndl ha
      rw [U.next a (hl a hal).1 (hl a hal).2, if_neg hac]
    · have hac : a ≠ c.prev := by
        intro h
        have hne : l.getLastD 0 ≠ 0 := by rw [← hcp, ← h]; exact (hr a ha).2
        exact hlr _ (getLastD_mem hne) a ha (by rw [h, hcp])
      rw [U.next a (hr a ha).1 (hr a ha).2, if_neg hac]
  · intro a ha
    have har : a ∈ r := List.mem_of_mem_head? ha
    have hac : a = c.next := by rw [hcn, List.headD_eq_head?_getD, ha]; rfl
    rw [U.prev a (hr a har).1 (hr a har).2, if_pos hac, hcp]
  · intro a ha
    rcases List.mem_append.mp ha with ha | ha
    · have hac : a ≠ c.next := by
        intro h
        have hne : r.headD 0 ≠ 0 := by rw [← hcn, ← h]; exact (hl a ha).2
        exact hlr a ha _ (headD_mem hne) (by rw [h, hcn])
      rw [U.prev a (hl a ha).1 (hl a ha).2, if_neg hac]
    · have har : a ∈ r := List.mem_of_mem_tail ha
      have hac : a ≠ c.next := by
        rw [hcn]
        exact ne_headD_of_tail hndr ha
      rw [U.prev a (hr a har).1 (hr a har).2, if_neg hac]

/-- The chain without `x`. -/
theorem Unlinked.chain {d' : Dict} {i : Int} {x : Addr} {c : Pair} {l r : List Addr}
    (S : Shape d ms ch) (hch : ch i = l ++ x :: r) (hc : d.pairs x = some c)
    (U : Unlinked d i (l.getLastD 0) x c d') :
    Chain (readOf Pair.hashNext d'.pairs) (d'.members i) (l ++ r) := by
  have C := S.chain i
  rw [hch] at C
  have hnz : ∀ y ∈ l ++ x :: r, y ≠ 0 := C.ne_zero
  obtain ⟨hndl, hndr, hdis⟩ := List.nodup_append.mp C.nodup
  have hxr : ∀ y ∈ r, y ≠ x := fun y hy h => (List.nodup_cons.mp hndr).1 (h ▸ hy)
  -- only the pair before `x` in its chain is written
  have hother : ∀ y ∈ l ++ r, y ≠ l.getLastD 0 →
      readOf Pair.hashNext d'.pairs y = readOf Pair.hashNext d.pairs y := by
    intro y hy hne
    rcases List.mem_append.mp hy with hy | hy
    · rw [U.hashNext y (hdis y hy x (by simp)) (hnz y (by simp [hy])), if_neg hne]
    · rw [U.hashNext y (hxr y hy) (hnz y (by simp [hy])), if_neg hne]
  rcases List.eq_nil_or_concat l with rfl | ⟨L, a, rfl⟩
  · -- `x` starts the chain
    obtain ⟨q, hq, Cr⟩ := C.tail
    rw [readOf_some _ _ hc, Option.some.injEq] at hq
    subst hq
    rw [U.members, List.getLastD_nil, if_pos rfl, Function.update_self]
    exact Cr.congr fun y hy => hother y hy (hnz y (List.mem_cons_of_mem _ hy))
  · rw [List.concat_eq_append] at *
    have hax : a ≠ x := hdis a (by simp) x (by simp)
    have ha0 : a ≠ 0 := hnz a (by simp)
    rw [List.getLastD_concat] at U hother
    rw [U.members, if_neg ha0]
    rw [List.append_assoc, List.singleton_append] at C ⊢
    apply C.unlink
    · rw [U.hashNext a hax ha0, if_pos rfl, readOf_some _ _ hc]
    · intro y hy
      refine hother y (by simp only [List.mem_append] at hy ⊢; tauto) ?_
      rcases List.mem_append.mp hy with hy | hy
      · exact (List.nodup_append.mp hndl).2.2 y hy a (by simp)
      · exact fun h => hdis a (by simp) y (by simp [hy]) h.symm

/-- The chains of the other buckets: the pair before `x` is on none of them. -/
theorem Unlinked.otherChain {d' : Dict} {i j : Int} {x : Addr} {c : Pair} {l r : List Addr}
    (S : Shape d ms ch) (hch : ch i = l ++ x :: r) (U : Unlinked d i (l.getLastD 0) x c d') (hj : j ≠ i) :
    Chain (readOf Pair.hashNext d'.pairs) (d'.members j) (ch j) := by
  have hbucket : ∀ y, y ∈ ch j → y ∉ ch i := fun y hy hyi =>
    hj (((S.mem_chain j y).mp hy).2.symm.trans ((S.mem_chain i y).mp hyi).2)
  have hm : d'.members j = d.members j := by
    rw [U.members]
    split
    next => exact Function.update_of_ne hj _ _
    next => rfl
  rw [hm]
  refine (S.chain j).congr ?_
  intro y hy
  have hy0 : y ≠ 0 := S.ne_zero (S.mem_of_chain hy)
  have hyx : y ≠ x := by
    rintro rfl
    exact hbucket y hy (by rw [hch]; simp)
  rw [U.hashNext y hyx hy0, if_neg]
  intro h
  have hyl : y ∈ l := by rw [h]; exact getLastD_mem (h ▸ hy0)
  exact hbucket y hy (by rw [hch]; simp [hyl])

/-- **Removing**: the other pairs keep their places. -/
theorem Unlinked.shape {d' : Dict} {i : Int} {x : Addr} {c : Pair} {l r l' r' : List Addr}
    (S : Shape d (l' ++ x :: r') ch) (hch : ch i = l ++ x :: r) (hc : d.pairs x = some c)
    (U : Unlinked d i (l.getLastD 0) x c d') :
    Shape d' (l' ++ r') (Function.update ch i (l ++ r)) := by
  have hxi : x ∈ ch i := by rw [hch]; simp
  have hxb : ∀ j, x ∈ ch j → j = i := fun j hj =>
    ((S.mem_chain j x).mp hj).2.symm.trans ((S.mem_chain i x).mp hxi).2
  have hnd : x ∉ l' ++ r' := by
    have := List.nodup_middle.mp S.nodup
    exact (List.nodup_cons.mp this).1
  have hms : ∀ p, p ≠ x → (p ∈ l' ++ r' ↔ p ∈ l' ++ x :: r') := fun p hp => by simp [hp]
  constructor
  case list => exact U.list S hc
  case chain =>
    intro j
    by_cases hj : j = i
    · subst hj
      rw [Function.update_self]
      exact U.chain S hch hc
    · rw [Function.update_of_ne hj]
      exact U.otherChain S hch hj
  case mem_chain =>
    intro j p
    rw [Dict.setBucket_congr U.hashSize]
    by_cases hp : p = x
    · subst hp
      -- the pair that was taken off is on no chain
      have hnc : p ∉ Function.update ch i (l ++ r) j := by
        by_cases hj : j = i
        · subst hj
          rw [Function.update_self]
          have := (S.chain j).nodup
          rw [hch] at this
          exact (List.nodup_cons.mp (List.nodup_middle.mp this)).1
        · rw [Function.update_of_ne hj]
          exact fun h => hj (hxb j h)
      exact iff_of_false hnc fun h => hnd h.1
    · rw [Dict.keyAt, U.key p hp, hms p hp]
      by_cases hj : j = i
      · subst hj
        rw [Function.update_self]
        have := S.mem_chain j p
        rw [hch] at this
        rw [← Dict.keyAt, ← this]
        simp [hp]
      · rw [Function.update_of_ne hj]
        exact S.mem_chain j p
  case live =>
    intro p
    by_cases hp : p = x
    · subst hp
      rw [U.dead]
      exact iff_of_false (by simp) hnd
    · rw [← readOf_isSome Pair.key, U.key p hp, readOf_isSome, S.live, hms p hp]
  case below =>
    intro p hp
    rw [U.brk]
    exact S.below p (by simp only [List.mem_append, List.mem_cons] at hp ⊢; tauto)
  case pos => rw [U.brk]; exact S.pos

theorem Unlinked.entries {d' : Dict} {i : Int} {prev x : Addr} {c : Pair} {xs : List Addr}
    (hx : x ∉ xs) (U : Unlinked d i prev x c d') : d'.entries xs = d.entries xs :=
  Dict.entries_congr (fun p hp => U.key p fun h => hx (h ▸ hp)) (fun p hp => U.value p fun h => hx (h ▸ hp))

end

end LzLib.Dict
