/-
  LzLib.Rb.TraverserRuns
  ──────────────────────
  **TRAVERSERS ON A TABLE THAT CHANGES.**

  Any number of traversers walk on one table while it is changed, through them or
  not.  The table is to them an ordered list of slots, each an address and an item,
  and a traverser is a mark on a slot, or between the last slot and the first.
  Every call answers as on the marked list, whatever rotations there were since a
  traverser has seen its stack; a traverser must not be used while its slot is gone.

  Main result: `rb_traversers`.
-/
import LzLib.Rb.Slots

namespace LzLib.Rb

open LzLib.Foundation LzLib.Foundation.ColorTree

variable {ε ι : Type}

/-! ## §1. The calls. -/

/-- A table, and the traversers on it. -/
structure Traversed (ε ι : Type) where
  table : RbTable ε
  travs : ι → RbTraverser

/-- The calls on a table and its traversers; `alloc` is what the allocator answers. -/
inductive TravCall (ε ι : Type)
  | table (call : RbCall ε)
  | insertItem (item : ε) (alloc : Option Addr)
  | replaceItem (item : ε) (alloc : Option Addr)
  | init (i : ι)
  | first (i : ι)
  | last (i : ι)
  | find (i : ι) (item : ε)
  | insert (i : ι) (item : ε) (alloc : Option Addr)
  | copy (i j : ι)
  | next (i : ι)
  | prev (i : ι)
  | cur (i : ι)
  | replace (i : ι) (new : ε)

section Calls

variable [DecidableEq ε] [DecidableEq ι] (cmp : ε → ε → Int) (maxHeight : Nat)

/-- The traverser `i` is written. -/
def Traversed.set (s : Traversed ε ι) (i : ι) (r : RbTraverser × Option ε) : Traversed ε ι × Option ε :=
  ({ s with travs := Function.update s.travs i r.1 }, r.2)

/-- The table is written. -/
def Traversed.write (s : Traversed ε ι) (r : RbTable ε × Option ε) : Traversed ε ι × Option ε :=
  ({ s with table := r.1 }, r.2)

/-- A call, and the item that it returns or returns a pointer to. -/
def travCall (s : Traversed ε ι) : TravCall ε ι → Option (Traversed ε ι × Option ε)
  | .table call => (rbCall cmp maxHeight s.table call).map s.write
  | .insertItem item alloc => (rbInsert cmp maxHeight s.table item alloc).map s.write
  | .replaceItem item alloc => (rbReplace cmp maxHeight s.table item alloc).map s.write
  | .init i => some (s.set i (rbTInit s.table, none))
  | .first i => (rbTFirst maxHeight s.table).map (s.set i)
  | .last i => (rbTLast maxHeight s.table).map (s.set i)
  | .find i item => (rbTFind cmp maxHeight s.table item).map (s.set i)
  | .insert i item alloc =>
      (rbTInsert cmp maxHeight s.table (s.travs i) item alloc).map fun r =>
        Traversed.set { s with table := r.1 } i r.2
  | .copy i j => (rbTCopy s.table (s.travs i) (s.travs j)).map (s.set i)
  | .next i => (rbTNext cmp maxHeight s.table (s.travs i)).map (s.set i)
  | .prev i => (rbTPrev cmp maxHeight s.table (s.travs i)).map (s.set i)
  | .cur i => (rbTCur s.table (s.travs i)).map fun y => (s, y)
  | .replace i new => (rbTReplace s.table (s.travs i) new).map fun r => s.write (r.1, some r.2)

/-- `new` may have the place of the item at `a`: whatever is before or behind that
item is so of `new`. -/
def KeepsOrder (t : RbTable ε) (a : Addr) (new : ε) : Prop :=
  ∀ b m n, t.nodes a = some m → t.nodes b = some n → b ≠ a →
    (cmp n.data m.data < 0 → cmp n.data new < 0) ∧ (cmp m.data n.data < 0 → cmp new n.data < 0)

/-- The traverser has no node, or one that is live. -/
def Usable (t : RbTable ε) (trav : RbTraverser) : Prop := trav.node = 0 ∨ (t.nodes trav.node).isSome

/-- What the callers promise: of the allocator and of the size of the table as
before, and to use a traverser only while its node is there.  An item is
replaced by one that keeps the order. -/
def travAllowed (s : Traversed ε ι) : TravCall ε ι → Prop
  | .table call => rbAllowed maxHeight s.table call
  | .insertItem item alloc => rbAllowed maxHeight s.table (.probe item alloc)
  | .replaceItem item alloc => rbAllowed maxHeight s.table (.probe item alloc)
  | .insert _ item alloc => rbAllowed maxHeight s.table (.probe item alloc)
  | .find _ item => rbAllowed maxHeight s.table (.find item)
  | .init _ => True
  | .first _ => s.table.count + 2 < 2 ^ (maxHeight / 2 + 1)
  | .last _ => s.table.count + 2 < 2 ^ (maxHeight / 2 + 1)
  | .copy _ j => Usable s.table (s.travs j)
  | .next i => s.table.count + 2 < 2 ^ (maxHeight / 2 + 1) ∧ Usable s.table (s.travs i)
  | .prev i => s.table.count + 2 < 2 ^ (maxHeight / 2 + 1) ∧ Usable s.table (s.travs i)
  | .cur i => Usable s.table (s.travs i)
  | .replace i new =>
      (s.travs i).node ≠ 0 ∧ Usable s.table (s.travs i) ∧ KeepsOrder cmp s.table (s.travs i).node new

/-- A table, its traversers, and those who call on them. -/
def travServer : Server (Traversed ε ι) (TravCall ε ι) (Option ε) where
  step := travCall cmp maxHeight
  allowed := travAllowed cmp maxHeight

/-- A new table, with its traversers behind `rb_t_init`. -/
def travStart : Traversed ε ι := ⟨rbCreate, fun _ => rbTInit (rbCreate : RbTable ε)⟩

/-! ## §2. The marked list. -/

/-- The slots in order, and the address of the one that each traverser is at. -/
structure Marked (ε ι : Type) where
  slots : List (Addr × ε)
  mark : ι → Addr

/-- The mark `i` is put on a slot; its item. -/
def Marked.stand (w : Marked ε ι) (i : ι) (slot : Option (Addr × ε)) : Marked ε ι × Option ε :=
  ({ w with mark := Function.update w.mark i (slotAddr slot) }, slot.map Prod.snd)

/-- The call on the marked list. -/
def markedCall (w : Marked ε ι) : TravCall ε ι → Marked ε ι × Option ε
  | .table (.probe item alloc) =>
      ({ w with slots := (slotProbe cmp w.slots item alloc).1 }, (slotProbe cmp w.slots item alloc).2.map Prod.snd)
  | .table (.find item) => (w, (slotOf cmp item w.slots).map Prod.snd)
  | .table (.delete item) => ({ w with slots := slotDelete cmp item w.slots }, (slotOf cmp item w.slots).map Prod.snd)
  | .insertItem item alloc =>
      ({ w with slots := (slotProbe cmp w.slots item alloc).1 },
        ((slotProbe cmp w.slots item alloc).2.map Prod.snd).filter fun y => y ≠ item)
  | .replaceItem item alloc =>
      ({ w with slots := (slotReplace cmp w.slots item alloc).1 }, (slotReplace cmp w.slots item alloc).2)
  | .init i => w.stand i none
  | .first i => w.stand i w.slots.head?
  | .last i => w.stand i w.slots.getLast?
  | .find i item => w.stand i (slotOf cmp item w.slots)
  | .insert i item alloc =>
      Marked.stand { w with slots := (slotProbe cmp w.slots item alloc).1 } i (slotProbe cmp w.slots item alloc).2
  | .copy i j => ({ w with mark := Function.update w.mark i (w.mark j) }, assocGet w.slots (w.mark j))
  | .next i => w.stand i (neighbour true (w.mark i) w.slots)
  | .prev i => w.stand i (neighbour false (w.mark i) w.slots)
  | .cur i => (w, assocGet w.slots (w.mark i))
  | .replace i new => ({ w with slots := assocSet w.slots (w.mark i) new }, assocGet w.slots (w.mark i))

/-- No slots, and no mark on one. -/
def markedStart : Marked ε ι := ⟨[], fun _ => 0⟩

end Calls

variable {cmp : ε → ε → Int} {maxHeight : Nat} {t t' : RbTable ε} {T T' : ColorTree (Addr × ε)} {trav : RbTraverser}
  {s : Traversed ε ι} {w : Marked ε ι}

/-! ## §3. One call. -/

/-- The table and its traversers, as the marked list. -/
structure Agrees (cmp : ε → ε → Int) (s : Traversed ε ι) (w : Marked ε ι) (T : ColorTree (Addr × ε)) : Prop where
  table : RbOk cmp s.table T
  slots : T.toList = w.slots
  travs : ∀ i, TravOk s.table T (s.travs i)
  marks : ∀ i, (s.travs i).node = w.mark i

/-- The table goes on, and the traversers stay. -/
theorem Agrees.write (h : Agrees cmp s w T) (h' : RbOk cmp t' T') (ho : Onwards s.table T t' T') {L : List (Addr × ε)}
    (hL : T'.toList = L) : Agrees cmp { s with table := t' } { w with slots := L } T' :=
  ⟨h', hL, fun i => (h.travs i).onwards ho, h.marks⟩

/-- An item is written. -/
theorem Agrees.replace (h : Agrees cmp s w T) {a : Addr} {y new : ε} (hy : (a, y) ∈ T.toList)
    (hkeeps : ∀ u ∈ T.toList, u.1 ≠ a → (cmp u.2 y < 0 → cmp u.2 new < 0) ∧ (cmp y u.2 < 0 → cmp new u.2 < 0)) :
    ∃ n, s.table.nodes a = some n ∧ n.data = y ∧
      Agrees cmp { s with table := s.table.put a { n with data := new } }
        { w with slots := assocSet w.slots a new } (T.map (retag a new)) := by
  obtain ⟨n, hn, hdata, hok, hlist⟩ := h.table.replace hy hkeeps
  rw [h.slots] at hlist
  exact ⟨n, hn, hdata, hok, hlist, fun i => (h.travs i).retagged new, h.marks⟩

/-- What the caller of `rb_probe` reads at the pointer. -/
theorem RbOk.slot_data (h : RbOk cmp t T) {v : Addr × ε} (hv : v ∈ T.toList) : ∃ n, t.nodes v.1 = some n ∧ n.data = v.2 :=
  h.zip.holds.data hv

theorem RbOk.usable (h : RbOk cmp t T) (hu : Usable t trav) : trav.node = 0 ∨ trav.node ∈ addrs T :=
  hu.imp_right fun hlive => (h.live _).mp hlive

/-- `rb_t_cur` reads the item of the slot. -/
theorem rbTCur_spec (h : RbOk cmp t T) (hu : Usable t trav) : rbTCur t trav = some (assocGet T.toList trav.node) := by
  rw [rbTCur]
  rcases h.usable hu with h0 | hmem
  · have hnone : assocGet T.toList trav.node = none := by
      rw [assocGet_eq_none_iff, h0]
      intro hmem
      rw [← Multiset.mem_coe, ← addrs_eq] at hmem
      exact h.zip.holds.ne_zero hmem rfl
    rw [if_pos h0, hnone]
  · obtain ⟨y, hy⟩ := mem_addrs_iff.mp hmem
    obtain ⟨n, hn, hdata⟩ := h.slot_data hy
    have hn : t.nodes trav.node = some n := hn
    rw [if_neg (h.zip.holds.ne_zero hmem), hn, assocGet_of_mem h.nodup_slots hy, Option.map_some, hdata]

variable [DecidableEq ι]

/-- A traverser is written. -/
theorem Agrees.set (h : Agrees cmp s w T) (i : ι) (hok : TravOk s.table T trav) {a : Addr} (ha : trav.node = a) :
    Agrees cmp { s with travs := Function.update s.travs i trav } { w with mark := Function.update w.mark i a } T := by
  refine ⟨h.table, h.slots, fun j => ?_, fun j => ?_⟩
  · show TravOk s.table T (Function.update s.travs i trav j)
    by_cases hj : j = i
    · rw [hj, Function.update_self]
      exact hok
    · rw [Function.update_of_ne hj]
      exact h.travs j
  · show (Function.update s.travs i trav j).node = Function.update w.mark i a j
    by_cases hj : j = i
    · rw [hj, Function.update_self, Function.update_self]
      exact ha
    · rw [Function.update_of_ne hj, Function.update_of_ne hj]
      exact h.marks j

/-- A traverser is put where it stands. -/
theorem Agrees.stand (h : Agrees cmp s w T) (i : ι) {slot : Option (Addr × ε)} (hat : StandsAt s.table T trav slot) :
    Agrees cmp (s.set i (trav, slot.map Prod.snd)).1 (w.stand i slot).1 T :=
  h.set i hat.ok hat.node

variable [DecidableEq ε]

/-- What a call has to do. -/
def Follows (cmp : ε → ε → Int) (maxHeight : Nat) (s : Traversed ε ι) (w : Marked ε ι) (call : TravCall ε ι) : Prop :=
  ∃ s' T', travCall cmp maxHeight s call = some (s', (markedCall cmp w call).2) ∧
    Agrees cmp s' (markedCall cmp w call).1 T'

/-- The calls on the table. -/
theorem table_follows (hcmp : Compares cmp) (h : Agrees cmp s w T) {call : RbCall ε}
    (hallowed : rbAllowed maxHeight s.table call) : Follows cmp maxHeight s w (.table call : TravCall ε ι) := by
  cases call with
  | probe item alloc =>
      obtain ⟨t', T', hprobe, h', hL, ho, hmem⟩ := rbProbe_slots hcmp h.table hallowed
      rw [h.slots] at hprobe hL hmem
      refine ⟨{ s with table := t' }, T', ?_, h.write h' ho hL⟩
      have hcall : rbCall cmp maxHeight s.table (.probe item alloc)
          = some (t', (slotProbe cmp w.slots item alloc).2.map Prod.snd) := by
        rw [rbCall, hprobe]
        cases hslot : (slotProbe cmp w.slots item alloc).2 with
        | none => rfl
        | some v =>
            obtain ⟨n, hn, hdata⟩ := h'.slot_data (hmem v hslot)
            show (t'.nodes v.1).bind _ = _
            rw [hn, Option.map_some, ← hdata]
            rfl
      rw [travCall, hcall]
      rfl
  | find item =>
      refine ⟨s, T, ?_, h⟩
      have hcall : rbCall cmp maxHeight s.table (.find item) = some (s.table, (slotOf cmp item w.slots).map Prod.snd) := by
        rw [rbCall, rbFind_slots hcmp h.table item, h.slots]
        rfl
      rw [travCall, hcall]
      rfl
  | delete item =>
      obtain ⟨t', T', hdelete, h', hL, ho⟩ := rbDelete_slots hcmp h.table hallowed
      rw [h.slots] at hdelete hL
      refine ⟨{ s with table := t' }, T', ?_, h.write h' ho hL⟩
      rw [travCall, rbCall, hdelete]
      rfl

/-- `rb_insert`. -/
theorem insertItem_follows (hcmp : Compares cmp) (h : Agrees cmp s w T) {item : ε} {alloc : Option Addr}
    (hallowed : rbAllowed maxHeight s.table (.probe item alloc)) :
    Follows cmp maxHeight s w (.insertItem item alloc : TravCall ε ι) := by
  obtain ⟨t', T', hprobe, h', hL, ho, hmem⟩ := rbProbe_slots hcmp h.table hallowed
  rw [h.slots] at hprobe hL hmem
  refine ⟨{ s with table := t' }, T', ?_, h.write h' ho hL⟩
  have hcall : rbInsert cmp maxHeight s.table item alloc
      = some (t', ((slotProbe cmp w.slots item alloc).2.map Prod.snd).filter fun y => y ≠ item) := by
    rw [rbInsert, hprobe]
    cases hslot : (slotProbe cmp w.slots item alloc).2 with
    | none => rfl
    | some v =>
        obtain ⟨n, hn, hdata⟩ := h'.slot_data (hmem v hslot)
        show (t'.nodes v.1).bind _ = _
        rw [hn, Option.bind_some, hdata, Option.map_some, Option.filter_some]
        by_cases heq : v.2 = item
        · simp [heq]
        · simp [heq]
  rw [travCall, hcall]
  rfl

/-- `rb_replace`. -/
theorem replaceItem_follows (hcmp : Compares cmp) (h : Agrees cmp s w T) {item : ε} {alloc : Option Addr}
    (hallowed : rbAllowed maxHeight s.table (.probe item alloc)) :
    Follows cmp maxHeight s w (.replaceItem item alloc : TravCall ε ι) := by
  obtain ⟨t', T', hprobe, h', hL, ho, hmem⟩ := rbProbe_slots hcmp h.table hallowed
  rw [h.slots] at hprobe hL hmem
  cases hslot : slotOf cmp item w.slots with
  | some v =>
      have hzero : cmp item v.2 = 0 := by simpa using List.find?_some hslot
      rw [slotProbe_found hslot] at hprobe hL hmem
      have hagrees : Agrees cmp { s with table := t' } w T' := h.write h' ho hL
      have hkeeps : ∀ u ∈ T'.toList, u.1 ≠ v.1 → (cmp u.2 v.2 < 0 → cmp u.2 item < 0) ∧ (cmp v.2 u.2 < 0 → cmp item u.2 < 0) :=
        fun u _ _ => hcmp.keeps hzero u.2
      obtain ⟨n, hn, hdata, hwritten⟩ := hagrees.replace (hmem v rfl) hkeeps
      have hcall : rbReplace cmp maxHeight s.table item alloc
          = some (t'.put v.1 { n with data := item }, if v.2 = item then none else some v.2) := by
        rw [rbReplace, hprobe]
        show (t'.nodes v.1).bind _ = _
        rw [hn, Option.bind_some, hdata]
        by_cases heq : v.2 = item
        · -- the same pointer: nothing is written
          have hsame : t'.put v.1 { n with data := item } = t' := by
            rw [← heq, ← hdata]
            show { t' with nodes := Function.update t'.nodes v.1 (some n) } = t'
            rw [← hn, Function.update_eq_self]
          rw [if_pos heq, if_pos heq, hsame]
          rfl
        · rw [if_neg heq, if_neg heq]
          rfl
      rw [Follows, markedCall, slotReplace_found hslot]
      refine ⟨_, _, ?_, hwritten⟩
      rw [travCall, hcall]
      rfl
  | none =>
      have hanswer : rbReplace cmp maxHeight s.table item alloc = some (t', none) := by
        rw [rbReplace, hprobe]
        cases alloc with
        | none =>
            rw [slotProbe_failed hslot]
            rfl
        | some n =>
            rw [slotProbe_new hslot] at hmem ⊢
            obtain ⟨m, hm, hdata⟩ := h'.slot_data (hmem _ rfl)
            show (t'.nodes n).bind _ = _
            rw [hm, Option.bind_some]
            exact if_pos hdata
      rw [Follows, markedCall, slotReplace_new hslot]
      refine ⟨{ s with table := t' }, T', ?_, h.write h' ho hL⟩
      rw [travCall, hanswer]
      rfl

omit [DecidableEq ε] in
/-- `rb_t_first` and `rb_t_last`. -/
theorem edge_follows (h : Agrees cmp s w T) (hcount : s.table.count + 2 < 2 ^ (maxHeight / 2 + 1)) (d : Bool) (i : ι) :
    ∃ r, travEdge maxHeight s.table d = some r ∧ (s.set i r).2 = (w.stand i (along (!d) w.slots).head?).2 ∧
      Agrees cmp (s.set i r).1 (w.stand i (along (!d) w.slots).head?).1 T := by
  obtain ⟨trav, hedge, hat⟩ := travEdge_spec h.table (h.table.height_lt hcount) d
  rw [h.slots] at hedge hat
  exact ⟨_, hedge, rfl, h.stand i hat⟩

omit [DecidableEq ε] in
/-- `rb_t_next` and `rb_t_prev`. -/
theorem step_follows (hcmp : Compares cmp) (h : Agrees cmp s w T) (hcount : s.table.count + 2 < 2 ^ (maxHeight / 2 + 1))
    (d : Bool) {i : ι} (hu : Usable s.table (s.travs i)) :
    ∃ r, travStep cmp maxHeight s.table d (s.travs i) = some r ∧
      (s.set i r).2 = (w.stand i (neighbour d (w.mark i) w.slots)).2 ∧
      Agrees cmp (s.set i r).1 (w.stand i (neighbour d (w.mark i) w.slots)).1 T := by
  obtain ⟨trav, hstep, hat⟩ :=
    travStep_spec hcmp h.table (h.table.height_lt hcount) d (h.travs i) (h.table.usable hu)
  rw [h.slots, h.marks i] at hstep hat
  exact ⟨_, hstep, rfl, h.stand i hat⟩

/-- `rb_t_find`. -/
theorem find_follows (hcmp : Compares cmp) (h : Agrees cmp s w T) {item : ε} (i : ι)
    (hallowed : rbAllowed maxHeight s.table (.find item)) : Follows cmp maxHeight s w (.find i item) := by
  rcases rbTFind_spec hcmp h.table (h.table.height_lt hallowed.1) item with
    ⟨trav, v, hfind, hv, hzero, hat⟩ | ⟨trav, hfind, hnone, hat⟩
  · have hslot : slotOf cmp item w.slots = some v := by
      obtain ⟨L, R, hT⟩ := List.append_of_mem hv
      have hordered : Ordered (onItem cmp) T.toList := h.table.sorted
      rw [← h.slots]
      rw [hT] at hordered ⊢
      exact slotOf_eq hcmp hordered hzero
    rw [Follows, markedCall, hslot]
    refine ⟨_, T, ?_, h.stand i hat⟩
    rw [travCall, hfind]
    rfl
  · rw [Follows, markedCall, slotOf_eq_none (h.slots ▸ hnone)]
    refine ⟨_, T, ?_, h.stand i hat⟩
    rw [travCall, hfind]
    rfl

/-- `rb_t_insert` leaves a generation for which no stack counts. -/
theorem insert_follows (hcmp : Compares cmp) (h : Agrees cmp s w T) {item : ε} {alloc : Option Addr} (i : ι)
    (hallowed : rbAllowed maxHeight s.table (.probe item alloc)) : Follows cmp maxHeight s w (.insert i item alloc) := by
  obtain ⟨t', T', hprobe, h', hL, ho, hmem⟩ := rbProbe_slots hcmp h.table hallowed
  rw [h.slots] at hprobe hL hmem
  have hagrees := h.write h' ho hL
  rw [Follows, markedCall]
  cases hslot : (slotProbe cmp w.slots item alloc).2 with
  | none =>
      rw [hslot] at hprobe
      refine ⟨_, T', ?_, hagrees.stand i (standsAt_none t' T' [])⟩
      rw [travCall, rbTInsert, hprobe]
      rfl
  | some v =>
      obtain ⟨n, hn, hdata⟩ := h'.slot_data (hmem v hslot)
      rw [hslot] at hprobe
      have hstale : TravOk t' T' ⟨v.1, (s.travs i).stack, t'.generation - 1⟩ := by
        refine ⟨?_, fun hgen => ?_⟩
        · show (t'.generation : Int) - 1 ≤ t'.generation
          omega
        · have hgen : (t'.generation : Int) - 1 = t'.generation := hgen
          omega
      refine ⟨_, T', ?_, hagrees.set i hstale rfl⟩
      have hcall : rbTInsert cmp maxHeight s.table (s.travs i) item alloc
          = some (t', ⟨v.1, (s.travs i).stack, t'.generation - 1⟩, some v.2) := by
        rw [rbTInsert, hprobe]
        show (t'.nodes v.1).bind _ = _
        rw [hn, ← hdata]
        rfl
      rw [travCall, hcall]
      rfl

/-- `rb_t_copy`. -/
theorem copy_follows (h : Agrees cmp s w T) (i : ι) {j : ι} (hu : Usable s.table (s.travs j)) :
    Follows cmp maxHeight s w (.copy i j) := by
  have hcur := rbTCur_spec h.table hu
  rw [h.slots, h.marks j] at hcur
  have hok := h.travs j
  have hcopy : TravOk s.table T
      ⟨(s.travs j).node,
        if (s.travs j).generation = s.table.generation then (s.travs j).stack else (s.travs i).stack,
        (s.travs j).generation⟩ := by
    refine ⟨hok.generation, fun hgen hne => ?_⟩
    have hgen : (s.travs j).generation = s.table.generation := hgen
    obtain ⟨fs, c, l, v, r, hplug, hv, hstack⟩ := hok.way hgen hne
    exact ⟨fs, c, l, v, r, hplug, hv, (if_pos hgen).trans hstack⟩
  refine ⟨_, T, ?_, h.set i hcopy (h.marks j)⟩
  rw [travCall, rbTCopy, hcur]
  rfl

/-- `rb_t_replace`. -/
theorem replace_follows (h : Agrees cmp s w T) {i : ι} {new : ε} (hne : (s.travs i).node ≠ 0)
    (hu : Usable s.table (s.travs i)) (hkeeps : KeepsOrder cmp s.table (s.travs i).node new) :
    Follows cmp maxHeight s w (.replace i new) := by
  obtain ⟨y, hy⟩ := mem_addrs_iff.mp ((h.table.usable hu).resolve_left hne)
  obtain ⟨m, hm, rfl⟩ := h.table.slot_data hy
  have horder : ∀ u ∈ T.toList, u.1 ≠ (s.travs i).node →
      (cmp u.2 m.data < 0 → cmp u.2 new < 0) ∧ (cmp m.data u.2 < 0 → cmp new u.2 < 0) := by
    intro u humem hune
    obtain ⟨n, hn, hdata⟩ := h.table.slot_data humem
    rw [← hdata]
    exact hkeeps u.1 m n hm hn hune
  obtain ⟨n, hn, hdata, hwritten⟩ := h.replace hy horder
  have hget : assocGet w.slots (w.mark i) = some m.data := by
    rw [← h.slots, ← h.marks i]
    exact assocGet_of_mem h.table.nodup_slots hy
  rw [Follows, markedCall, hget, ← h.marks i]
  refine ⟨_, _, ?_, hwritten⟩
  rw [travCall, rbTReplace, if_neg hne, hn, ← hdata]
  rfl

/-- **One call** does what it does on the marked list. -/
theorem travCall_follows (hcmp : Compares cmp) (h : Agrees cmp s w T) {call : TravCall ε ι}
    (hallowed : travAllowed cmp maxHeight s call) : Follows cmp maxHeight s w call := by
  cases call with
  | table call => exact table_follows hcmp h hallowed
  | insertItem item alloc => exact insertItem_follows hcmp h hallowed
  | replaceItem item alloc => exact replaceItem_follows hcmp h hallowed
  | init i => exact ⟨_, T, rfl, h.stand i (standsAt_none s.table T [])⟩
  | first i =>
      obtain ⟨r, hedge, hitem, hagrees⟩ := edge_follows h hallowed false i
      refine ⟨_, T, ?_, hagrees⟩
      rw [travCall, rbTFirst, hedge, Option.map_some]
      exact congrArg (fun y => some ((s.set i r).1, y)) hitem
  | last i =>
      obtain ⟨r, hedge, hitem, hagrees⟩ := edge_follows h hallowed true i
      rw [Bool.not_true, along_down, List.head?_reverse] at hitem hagrees
      refine ⟨_, T, ?_, hagrees⟩
      rw [travCall, rbTLast, hedge, Option.map_some]
      exact congrArg (fun y => some ((s.set i r).1, y)) hitem
  | find i item => exact find_follows hcmp h i hallowed
  | insert i item alloc => exact insert_follows hcmp h i hallowed
  | copy i j => exact copy_follows h i hallowed
  | next i =>
      obtain ⟨r, hstep, hitem, hagrees⟩ := step_follows hcmp h hallowed.1 true hallowed.2
      refine ⟨_, T, ?_, hagrees⟩
      rw [travCall, rbTNext, hstep, Option.map_some]
      exact congrArg (fun y => some ((s.set i r).1, y)) hitem
  | prev i =>
      obtain ⟨r, hstep, hitem, hagrees⟩ := step_follows hcmp h hallowed.1 false hallowed.2
      refine ⟨_, T, ?_, hagrees⟩
      rw [travCall, rbTPrev, hstep, Option.map_some]
      exact congrArg (fun y => some ((s.set i r).1, y)) hitem
  | cur i =>
      have hcur := rbTCur_spec h.table hallowed
      rw [h.slots, h.marks i] at hcur
      refine ⟨s, T, ?_, h⟩
      rw [travCall, hcur]
      rfl
  | replace i new => exact replace_follows h hallowed.1 hallowed.2.1 hallowed.2.2

/-! ## §4. Runs. -/

omit [DecidableEq ε] [DecidableEq ι] in
theorem agrees_start : Agrees cmp (travStart : Traversed ε ι) markedStart .nil where
  table := rbCreate_ok
  slots := rfl
  travs _ := ⟨Int.le_refl _, fun _ hne => absurd rfl hne⟩
  marks _ := rfl

theorem trav_run_agrees (hcmp : Compares cmp) {calls : List (TravCall ε ι)}
    (hlegal : (travServer cmp maxHeight).Legal travStart calls) :
    ∃ s, (travServer cmp maxHeight).run travStart calls
        = some (s, (Server.specRun (markedCall cmp) markedStart calls).2) ∧
      ∃ T, Agrees cmp s (Server.specRun (markedCall cmp) markedStart calls).1 T := by
  refine (travServer cmp maxHeight).run_refines (R := fun s w => ∃ T, Agrees cmp s w T) ?_ ⟨.nil, agrees_start⟩ hlegal
  rintro s w call ⟨T, h⟩ hallowed
  obtain ⟨s', T', hcall, h'⟩ := travCall_follows hcmp h hallowed
  exact ⟨s', hcall, T', h'⟩

/-- **EVERY RUN OF CALLS** on a new table and its traversers answers as on the marked
list: no call gets stuck, the table is a red-black tree of the slots, and each
traverser is at the slot that its mark is on. -/
theorem rb_traversers (hcmp : Compares cmp) (maxHeight : Nat) {calls : List (TravCall ε ι)}
    (hlegal : (travServer cmp maxHeight).Legal travStart calls) :
    ∃ s T, (travServer cmp maxHeight).run travStart calls
        = some (s, (Server.specRun (markedCall cmp) markedStart calls).2) ∧
      RbOk cmp s.table T ∧ T.toList = (Server.specRun (markedCall cmp) markedStart calls).1.slots ∧
      ∀ i, (s.travs i).node = (Server.specRun (markedCall cmp) markedStart calls).1.mark i := by
  obtain ⟨s, hrun, T, h⟩ := trav_run_agrees hcmp hlegal
  exact ⟨s, T, hrun, h.table, h.slots, h.marks⟩

instance (t : RbTable ε) (trav : RbTraverser) : Decidable (Usable t trav) :=
  inferInstanceAs (Decidable (trav.node = 0 ∨ (t.nodes trav.node).isSome = true))

/-- A promise is evaluated, but for that about an item which is written into a node. -/
noncomputable instance (s : Traversed ε ι) (call : TravCall ε ι) : Decidable ((travServer cmp maxHeight).allowed s call) :=
  match call with
  | .table call => inferInstanceAs (Decidable (rbAllowed maxHeight s.table call))
  | .insertItem item alloc => inferInstanceAs (Decidable (rbAllowed maxHeight s.table (.probe item alloc)))
  | .replaceItem item alloc => inferInstanceAs (Decidable (rbAllowed maxHeight s.table (.probe item alloc)))
  | .insert _ item alloc => inferInstanceAs (Decidable (rbAllowed maxHeight s.table (.probe item alloc)))
  | .find _ item => inferInstanceAs (Decidable (rbAllowed maxHeight s.table (.find item)))
  | .init _ => inferInstanceAs (Decidable True)
  | .first _ => inferInstanceAs (Decidable (s.table.count + 2 < 2 ^ (maxHeight / 2 + 1)))
  | .last _ => inferInstanceAs (Decidable (s.table.count + 2 < 2 ^ (maxHeight / 2 + 1)))
  | .copy _ j => inferInstanceAs (Decidable (Usable s.table (s.travs j)))
  | .next i => inferInstanceAs (Decidable (s.table.count + 2 < 2 ^ (maxHeight / 2 + 1) ∧ Usable s.table (s.travs i)))
  | .prev i => inferInstanceAs (Decidable (s.table.count + 2 < 2 ^ (maxHeight / 2 + 1) ∧ Usable s.table (s.travs i)))
  | .cur i => inferInstanceAs (Decidable (Usable s.table (s.travs i)))
  | .replace _ _ => Classical.propDecidable _

/-- Two traversers; the slot behind the first one is taken out, another is put in,
and rotations move the node that it is at. -/
def difference_travCalls : List (TravCall Int Bool) :=
  [.insert false 10 (some 16), .table (.probe 20 (some 32)), .insertItem 30 (some 48), .copy true false, .next true,
    .table (.delete 10), .table (.probe 25 (some 16)), .table (.probe 22 (some 64)), .next true, .next true,
    .replaceItem 30 (some 80), .prev true, .last false, .next false, .next false, .find true 30, .prev true, .cur false]

theorem difference_travLegal : (travServer difference rbMaxHeight).Legal travStart difference_travCalls := by
  refine Server.legal_of_check _ ?_
  decide +kernel

theorem rb_traversers_difference :
    ∃ s T, (travServer difference rbMaxHeight).run travStart difference_travCalls
        = some (s, [some 10, some 20, none, some 10, some 20, some 10, some 25, some 22, some 22, some 25, none, some 22,
            some 30, none, some 20, some 30, some 25, some 20]) ∧
      RbOk difference s.table T ∧ T.toList = [(32, 20), (64, 22), (16, 25), (48, 30)] ∧
      ∀ i, (s.travs i).node = (Server.specRun (markedCall difference) markedStart difference_travCalls).1.mark i :=
  rb_traversers difference_compares rbMaxHeight difference_travLegal

end LzLib.Rb
