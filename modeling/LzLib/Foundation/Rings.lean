/-
  LzLib.Foundation.Rings
  ──────────────────────
  **CIRCULAR DOUBLY LINKED LISTS** (the intrusive lists of `list.h`).

  A memory of links gives every node a `next` and a `prev`.  `Ring L h xs`
  says that the nodes `xs`, in this order, hang on the head `h`: walking
  `next` from `h` visits exactly `xs` and comes back, and `prev` is the
  inverse walk.  Every operation of `list.h` is a handful of pointer writes;
  here each gets ONE lemma that says what it does to the list of nodes, and
  one frame lemma for the rings it does not touch.

  Nodes are an arbitrary type, so a client's heads and members can be
  different constructors and never alias.
-/
import Mathlib.Data.List.Chain
import Mathlib.Data.List.Nodup
import Mathlib.Logic.Function.Basic

namespace LzLib.Foundation

/-! ## §1. Local edits of a chain of adjacent pairs. -/

/-- A chain keeps its shape under a relation that agrees on adjacent pairs. -/
theorem isChain_imp_adj {α : Type} {R S : α → α → Prop} :
    ∀ {l : List α}, (∀ a ∈ l.dropLast, ∀ b ∈ l.tail, R a b → S a b) →
      l.IsChain R → l.IsChain S
  | [], _, _ => .nil
  | [a], _, _ => .singleton a
  | a :: b :: l, H, h => by
      rw [List.isChain_cons_cons] at h ⊢
      refine ⟨H a (by simp) b (by simp) h.1, isChain_imp_adj ?_ h.2⟩
      intro y hy z hz
      exact H y (by simp [hy]) z (by
        simp only [List.tail_cons, List.mem_cons] at hz ⊢
        exact Or.inr hz)

/-- **Splicing**: putting `x` between `a` and `c` needs the two new pairs;
all other pairs are kept. -/
theorem isChain_splice {α : Type} {R S : α → α → Prop} {l₁ l₂ : List α} {a x c : α}
    (h : (l₁ ++ a :: c :: l₂).IsChain R)
    (hl : ∀ y ∈ l₁, ∀ z ∈ (l₁ ++ [a]).tail, R y z → S y z)
    (hr : ∀ y ∈ (c :: l₂).dropLast, ∀ z ∈ l₂, R y z → S y z)
    (hax : S a x) (hxc : S x c) : (l₁ ++ a :: x :: c :: l₂).IsChain S := by
  rw [List.isChain_append_cons_cons] at h ⊢
  obtain ⟨h₁, _, h₂⟩ := h
  rw [List.isChain_cons_cons]
  refine ⟨isChain_imp_adj ?_ h₁, hax, hxc, isChain_imp_adj hr h₂⟩
  intro y hy z hz
  rw [List.dropLast_concat] at hy
  exact hl y hy z hz

/-! ## §2. Links and the operations of `list.h`. -/

/-- `struct list_head`. -/
structure Link (ν : Type) where
  next : ν
  prev : ν

/-- The links of all nodes. -/
abbrev Links (ν : Type) := ν → Link ν

/-- `L` links `a` forward to `b` and `b` back to `a`. -/
def Adj {ν : Type} (L : Links ν) (a b : ν) : Prop := (L a).next = b ∧ (L b).prev = a

/-- **The nodes `xs` hang on the head `h`**, in `next` order. -/
structure Ring {ν : Type} (L : Links ν) (h : ν) (xs : List ν) : Prop where
  linked : (h :: (xs ++ [h])).IsChain (Adj L)
  nodup : (h :: xs).Nodup

/-- A ring depends on the links of its own nodes only. -/
theorem Ring.congr {ν : Type} {L L' : Links ν} {h : ν} {xs : List ν} (r : Ring L h xs)
    (same : ∀ a ∈ h :: xs, L' a = L a) : Ring L' h xs := by
  refine ⟨isChain_imp_adj ?_ r.linked, r.nodup⟩
  intro a ha b hb hab
  have ha' : a ∈ h :: xs := by simpa [List.dropLast_cons_of_ne_nil] using ha
  have hb' : b ∈ h :: xs := by
    simp only [List.tail_cons, List.mem_append, List.mem_singleton] at hb
    rw [List.mem_cons]
    exact hb.symm
  exact ⟨by rw [same a ha']; exact hab.1, by rw [same b hb']; exact hab.2⟩

theorem Ring.next_head {ν : Type} {L : Links ν} {h : ν} {xs : List ν} (r : Ring L h xs) :
    (L h).next = xs.headD h := by
  cases xs with
  | nil => exact (List.isChain_cons_cons.mp r.linked).1.1
  | cons x xs => exact (List.isChain_cons_cons.mp r.linked).1.1

/-- The node after a member: the next member, or the head. -/
theorem Ring.next_mem {ν : Type} {L : Links ν} {h x : ν} {l r : List ν}
    (hr : Ring L h (l ++ x :: r)) : (L x).next = r.headD h := by
  have hl := hr.linked
  cases r with
  | nil =>
      rw [List.append_assoc, List.singleton_append, ← List.cons_append,
          List.isChain_append_cons_cons] at hl
      exact hl.2.1.1
  | cons y r =>
      rw [List.append_assoc, List.cons_append, List.cons_append, ← List.cons_append,
          List.isChain_append_cons_cons] at hl
      exact hl.2.1.1

/-- The node before a member: the previous member, or the head. -/
theorem Ring.prev_getLast {ν : Type} {L : Links ν} {h x : ν} {l r : List ν}
    (hr : Ring L h (l ++ x :: r)) : (L x).prev = (h :: l).getLast (List.cons_ne_nil h l) := by
  rcases List.eq_nil_or_concat (h :: l) with e | ⟨l₁, a, e⟩
  · simp at e
  · have hlink := hr.linked
    rw [List.append_assoc, ← List.cons_append, e, List.concat_eq_append,
        List.append_assoc, List.singleton_append, List.cons_append,
        List.isChain_append_cons_cons] at hlink
    simp only [e, List.concat_eq_append, List.getLast_concat]
    exact hlink.2.1.2

theorem Ring.prev_mem {ν : Type} {L : Links ν} {h x : ν} {l r : List ν}
    (hr : Ring L h (l ++ x :: r)) : (L x).prev ∈ h :: l := by
  rw [hr.prev_getLast]
  exact List.getLast_mem _

/-- No member of a ring is its own predecessor. -/
theorem Ring.prev_ne {ν : Type} {L : Links ν} {h x : ν} {l r : List ν}
    (hr : Ring L h (l ++ x :: r)) : (L x).prev ≠ x := by
  intro e
  have hx : x ∈ h :: l := e ▸ hr.prev_mem
  have hnd : (h :: l ++ x :: r).Nodup := hr.nodup
  exact (List.nodup_append.mp hnd).2.2 x hx x (by simp) rfl

/-- The node before the head: the last member, or the head. -/
theorem Ring.prev_head {ν : Type} {L : Links ν} {h : ν} {xs : List ν} (r : Ring L h xs) :
    (L h).prev = (h :: xs).getLast (List.cons_ne_nil h xs) := by
  rcases List.eq_nil_or_concat (h :: xs) with e | ⟨l₁, a, e⟩
  · simp at e
  · have hlink := r.linked
    rw [← List.cons_append, e, List.concat_eq_append, List.append_assoc, List.singleton_append,
        List.isChain_append_cons_cons] at hlink
    simp only [e, List.concat_eq_append, List.getLast_concat]
    exact hlink.2.1.2

theorem Ring.prev_head_mem {ν : Type} {L : Links ν} {h : ν} {xs : List ν} (r : Ring L h xs) :
    (L h).prev ∈ h :: xs := by
  rw [r.prev_head]
  exact List.getLast_mem _

/-- **A ring may be read from any of its nodes**: the head is then one of the
members. -/
theorem Ring.rotate {ν : Type} {L : Links ν} {h x : ν} {l r : List ν}
    (hr : Ring L h (l ++ x :: r)) : Ring L x (r ++ h :: l) := by
  have hlink := hr.linked
  have hsplit : h :: (l ++ x :: r ++ [h]) = (h :: l) ++ x :: (r ++ [h]) := by simp
  rw [hsplit, List.isChain_split] at hlink
  refine ⟨?_, ?_⟩
  · have hjoin : x :: (r ++ h :: l ++ [x]) = (x :: r) ++ h :: (l ++ [x]) := by simp
    rw [hjoin, List.isChain_split]
    exact ⟨hlink.2, hlink.1⟩
  · have hperm : (x :: (r ++ h :: l)).Perm (h :: (l ++ x :: r)) := by
      have hswap : (x :: r ++ h :: l).Perm (h :: l ++ x :: r) := List.perm_append_comm
      exact hswap
    exact hperm.nodup_iff.mpr hr.nodup

section Operations

variable {ν : Type} [DecidableEq ν]

/-- `node->next = target`. -/
def setNext (L : Links ν) (node target : ν) : Links ν :=
  Function.update L node { L node with next := target }

/-- `node->prev = target`. -/
def setPrev (L : Links ν) (node target : ν) : Links ν :=
  Function.update L node { L node with prev := target }

/-- `INIT_LIST_HEAD`. -/
def initListHead (L : Links ν) (head : ν) : Links ν :=
  setNext (setPrev L head head) head head

/-- `list_add`. -/
def listAdd (L : Links ν) (new head : ν) : Links ν :=
  let L := setPrev L new head
  let L := setNext L new (L head).next
  let L := setNext L (L new).prev new
  setPrev L (L new).next new

/-- `list_add_tail`. -/
def listAddTail (L : Links ν) (new head : ν) : Links ν :=
  let L := setNext L new head
  let L := setPrev L new (L head).prev
  let L := setNext L (L new).prev new
  setPrev L (L new).next new

/-- The two writes that `list_del` and `list_del_init` share. -/
def listUnhook (L : Links ν) (old : ν) : Links ν :=
  let L := setNext L (L old).prev (L old).next
  setPrev L (L old).next (L old).prev

/-- `list_del`: the node leaves with both links pointing at `poison`. -/
def listDel (poison : ν) (L : Links ν) (old : ν) : Links ν :=
  setPrev (setNext (listUnhook L old) old poison) old poison

/-- `list_del_init`: the node leaves as a ring of its own. -/
def listDelInit (L : Links ν) (old : ν) : Links ν :=
  setPrev (setNext (listUnhook L old) old old) old old

/-- `list_empty`. -/
def listEmpty (L : Links ν) (head : ν) : Bool := (L head).next = head

theorem setNext_apply (L : Links ν) (n t x : ν) :
    setNext L n t x = if x = n then { L n with next := t } else L x := by
  simp only [setNext, Function.update_apply]

theorem setPrev_apply (L : Links ν) (n t x : ν) :
    setPrev L n t x = if x = n then { L n with prev := t } else L x := by
  simp only [setPrev, Function.update_apply]

/-! ## §3. What each operation does to a ring. -/

theorem ring_initListHead (L : Links ν) (h : ν) : Ring (initListHead L h) h [] := by
  refine ⟨?_, by simp⟩
  simp [Adj, initListHead, setNext_apply, setPrev_apply]

theorem Ring.listEmpty_iff {L : Links ν} {h : ν} {xs : List ν} (r : Ring L h xs) :
    listEmpty L h = true ↔ xs = [] := by
  have hn := r.nodup
  simp only [listEmpty, decide_eq_true_eq, r.next_head]
  cases xs with
  | nil => simp
  | cons x xs =>
      simp only [List.nodup_cons, List.mem_cons, not_or] at hn
      simp only [List.headD_cons, reduceCtorEq, iff_false]
      exact fun e => hn.1.1 e.symm

/-- **`list_add` puts the node first.** -/
theorem Ring.add {L : Links ν} {h n : ν} {xs : List ν} (r : Ring L h xs)
    (hn : n ∉ h :: xs) : Ring (listAdd L n h) h (n :: xs) := by
  have hnh : n ≠ h := fun e => hn (by simp [e])
  have hnx : n ∉ xs := fun e => hn (by simp [e])
  have hlink := r.linked
  have hnd := r.nodup
  refine ⟨?_, ?_⟩
  · obtain ⟨c, l₂, hc⟩ : ∃ c l₂, xs ++ [h] = c :: l₂ := by
      cases xs with
      | nil => exact ⟨h, [], rfl⟩
      | cons x xs => exact ⟨x, xs ++ [h], rfl⟩
    have hmem : ∀ z, z ∈ c :: l₂ → z ∈ h :: xs := by
      intro z hz
      rw [← hc] at hz
      simp only [List.mem_append, List.mem_singleton] at hz
      exact List.mem_cons.mpr hz.symm
    have hcx : (L h).next = c := by
      rw [hc] at hlink
      exact (List.isChain_cons_cons.mp hlink).1.1
    have hcn : c ≠ n := fun e => hn (e ▸ hmem c (by simp))
    -- the pointers after the four writes
    have hnext : ∀ y, (listAdd L n h y).next
        = if y = h then n else if y = n then c else (L y).next := by
      intro y
      simp only [listAdd, setNext_apply, setPrev_apply, if_neg (Ne.symm hnh), if_true, hcx]
      grind
    have hprev : ∀ z, (listAdd L n h z).prev
        = if z = c then n else if z = n then h else (L z).prev := by
      intro z
      simp only [listAdd, setNext_apply, setPrev_apply, if_neg (Ne.symm hnh), if_true, hcx]
      grind
    rw [List.cons_append, hc]
    rw [hc] at hlink
    show ([] ++ h :: n :: c :: l₂).IsChain (Adj (listAdd L n h))
    refine isChain_splice hlink (by simp) ?_ ?_ ?_
    · intro y hy z hz hyz
      have hyx : y ∈ xs := by
        rw [← hc, List.dropLast_concat] at hy
        exact hy
      have hyh : y ≠ h := by rintro rfl; simp [hyx] at hnd
      have hyn : y ≠ n := fun e => hnx (e ▸ hyx)
      have hzn : z ≠ n := fun e => hn (e ▸ hmem z (List.mem_cons_of_mem _ hz))
      have hzc : z ≠ c := by
        have hnd' : (xs ++ [h]).Nodup := by
          rw [List.nodup_append_comm]; simpa using hnd
        rw [hc, List.nodup_cons] at hnd'
        rintro rfl
        exact hnd'.1 hz
      exact ⟨by rw [hnext, if_neg hyh, if_neg hyn]; exact hyz.1,
             by rw [hprev, if_neg hzc, if_neg hzn]; exact hyz.2⟩
    · exact ⟨by rw [hnext, if_pos rfl],
             by rw [hprev, if_neg (Ne.symm hcn), if_pos rfl]⟩
    · exact ⟨by rw [hnext, if_neg hnh, if_pos rfl], by rw [hprev, if_pos rfl]⟩
  · simp only [List.nodup_cons, List.mem_cons, not_or] at hnd ⊢
    exact ⟨⟨Ne.symm hnh, hnd.1⟩, hnx, hnd.2⟩

/-- `list_add` behind a member puts the node right after it. -/
theorem Ring.addAfter {L : Links ν} {h x n : ν} {l r : List ν} (hr : Ring L h (l ++ x :: r))
    (hn : n ∉ h :: (l ++ x :: r)) : Ring (listAdd L n x) h (l ++ x :: n :: r) := by
  have hn' : n ∉ x :: (r ++ h :: l) := by
    simp only [List.mem_cons, List.mem_append, not_or] at hn ⊢
    tauto
  have hadd := hr.rotate.add hn'
  rw [← List.cons_append] at hadd
  exact hadd.rotate

/-- `list_add_tail` at `h` is `list_add` behind the node before `h`. -/
theorem listAddTail_eq {L : Links ν} {a h n : ν} (hprev : (L h).prev = a) (hnext : (L a).next = h)
    (hnh : n ≠ h) (hna : n ≠ a) : listAddTail L n h = listAdd L n a := by
  funext x
  simp only [listAddTail, listAdd, setNext_apply, setPrev_apply, if_neg (Ne.symm hnh), if_neg (Ne.symm hna),
    if_true, hprev, hnext]
  grind

/-- **`list_add_tail` puts the node last.** -/
theorem Ring.addTail {L : Links ν} {h n : ν} {xs : List ν} (r : Ring L h xs)
    (hn : n ∉ h :: xs) : Ring (listAddTail L n h) h (xs ++ [n]) := by
  have hnh : n ≠ h := fun e => hn (by simp [e])
  rcases List.eq_nil_or_concat xs with rfl | ⟨l, a, rfl⟩
  · rw [listAddTail_eq r.prev_head r.next_head hnh hnh]
    exact r.add hn
  · -- behind the last member
    rw [List.concat_eq_append] at r hn ⊢
    have hna : n ≠ a := fun e => hn (by simp [e])
    have hprev : (L h).prev = a := by
      rw [r.prev_head]
      simp
    rw [listAddTail_eq hprev r.next_mem hnh hna, List.append_assoc]
    exact r.addAfter hn

/-- The ring without its head `x`, for any links that close the gap and agree
with the old ones off `x`. -/
theorem Ring.dropHead {L L' : Links ν} {x c : ν} {ys : List ν} (hr : Ring L x (c :: ys))
    (hnext : ∀ y, y ≠ x → (L' y).next = if y = (L x).prev then (L x).next else (L y).next)
    (hprev : ∀ z, z ≠ x → (L' z).prev = if z = (L x).next then (L x).prev else (L z).prev) :
    Ring L' c ys := by
  obtain ⟨hx, hnd⟩ := List.nodup_cons.mp hr.nodup
  have hne : ∀ y ∈ c :: ys, y ≠ x := fun y hy e => hx (e ▸ hy)
  -- `c` comes behind `x`, and `a` before it
  obtain ⟨l, a, ha⟩ : ∃ l a, c :: ys = l ++ [a] :=
    ⟨_, _, (List.dropLast_append_getLast (List.cons_ne_nil c ys)).symm⟩
  have hcx : (L x).next = c := hr.next_head
  have hax : (L x).prev = a := by
    rw [hr.prev_head, List.getLast_cons (List.cons_ne_nil c ys)]
    simp only [ha, List.getLast_concat]
  have hchain : (c :: ys).IsChain (Adj L) := (List.isChain_cons_cons.mp hr.linked).2.left_of_append
  rw [hcx, hax] at hnext hprev
  refine ⟨?_, hnd⟩
  -- the links between the members, and the one that closes the gap
  rw [← List.cons_append, ha, List.append_assoc, List.singleton_append, List.isChain_append_cons_cons, ← ha]
  have ham : a ∈ c :: ys := by rw [ha]; simp
  refine ⟨isChain_imp_adj ?_ hchain, ⟨?_, ?_⟩, .singleton c⟩
  · intro y hy z hz hyz
    rw [ha, List.dropLast_concat] at hy
    have hym : y ∈ c :: ys := by rw [ha]; simp [hy]
    have hya : y ≠ a := by
      rintro rfl
      rw [ha] at hnd
      exact (List.nodup_append.mp hnd).2.2 y hy y (by simp) rfl
    have hzc : z ≠ c := by
      rintro rfl
      exact (List.nodup_cons.mp hnd).1 hz
    have hzm : z ∈ c :: ys := List.mem_cons_of_mem c hz
    exact ⟨by rw [hnext y (hne y hym), if_neg hya]; exact hyz.1,
           by rw [hprev z (hne z hzm), if_neg hzc]; exact hyz.2⟩
  · rw [hnext a (hne a ham), if_pos rfl]
  · rw [hprev c (hne c List.mem_cons_self), if_pos rfl]

/-- The ring without a member `x`: it is the head of the ring read from `x`. -/
theorem Ring.excise {L L' : Links ν} {h x : ν} {l r : List ν}
    (hr : Ring L h (l ++ x :: r))
    (hnext : ∀ y, y ≠ x → (L' y).next = if y = (L x).prev then (L x).next else (L y).next)
    (hprev : ∀ z, z ≠ x → (L' z).prev = if z = (L x).next then (L x).prev else (L z).prev) :
    Ring L' h (l ++ r) := by
  have hrot := hr.rotate
  cases r with
  | nil =>
      rw [List.append_nil]
      exact hrot.dropHead hnext hprev
  | cons c r =>
      have hdropped : Ring L' c (r ++ h :: l) := hrot.dropHead hnext hprev
      exact hdropped.rotate

theorem listUnhook_next (L : Links ν) (x y : ν) :
    (listUnhook L x y).next = if y = (L x).prev then (L x).next else (L y).next := by
  simp only [listUnhook, setNext_apply, setPrev_apply]
  grind

theorem listUnhook_prev (L : Links ν) (x z : ν) (hx : (L x).prev ≠ x) :
    (listUnhook L x z).prev = if z = (L x).next then (L x).prev else (L z).prev := by
  simp only [listUnhook, setNext_apply, setPrev_apply, if_neg (Ne.symm hx)]
  grind

/-- The two unlinking writes take the node out. -/
theorem Ring.unhook {L : Links ν} {h x : ν} {l r : List ν} (hr : Ring L h (l ++ x :: r)) :
    Ring (listUnhook L x) h (l ++ r) :=
  hr.excise (fun y _ => listUnhook_next L x y) fun z _ => listUnhook_prev L x z hr.prev_ne

/-- **`list_del` takes the node out.** -/
theorem Ring.del {L : Links ν} {h x : ν} {l r : List ν} (poison : ν)
    (hr : Ring L h (l ++ x :: r)) : Ring (listDel poison L x) h (l ++ r) := by
  refine hr.excise ?_ ?_
  · intro y hy
    rw [listDel, setPrev_apply, if_neg hy, setNext_apply, if_neg hy, listUnhook_next]
  · intro z hz
    rw [listDel, setPrev_apply, if_neg hz, setNext_apply, if_neg hz, listUnhook_prev _ _ _ hr.prev_ne]

/-- **`list_del_init` takes the node out.** -/
theorem Ring.delInit {L : Links ν} {h x : ν} {l r : List ν}
    (hr : Ring L h (l ++ x :: r)) : Ring (listDelInit L x) h (l ++ r) := by
  refine hr.excise ?_ ?_
  · intro y hy
    rw [listDelInit, setPrev_apply, if_neg hy, setNext_apply, if_neg hy, listUnhook_next]
  · intro z hz
    rw [listDelInit, setPrev_apply, if_neg hz, setNext_apply, if_neg hz,
        listUnhook_prev _ _ _ hr.prev_ne]

/-! ## §4. What no operation touches. -/

theorem initListHead_frame (L : Links ν) {h x : ν} (hx : x ≠ h) : initListHead L h x = L x := by
  rw [initListHead, setNext_apply, if_neg hx, setPrev_apply, if_neg hx]

theorem Ring.add_frame {L : Links ν} {h n x : ν} {xs : List ν} (r : Ring L h xs)
    (hn : n ∉ h :: xs) (hx : x ∉ h :: xs) (hxn : x ≠ n) : listAdd L n h x = L x := by
  have hnh : h ≠ n := by
    rintro rfl
    simp at hn
  have hnext : (L h).next ∈ h :: xs := by
    rw [r.next_head]
    cases xs <;> simp
  have hxh : x ≠ h := by
    rintro rfl
    simp at hx
  have hxc : x ≠ (L h).next := fun e => hx (e ▸ hnext)
  simp only [listAdd, setNext_apply, setPrev_apply, if_neg hnh, if_neg hxn, if_true]
  grind

theorem Ring.addAfter_frame {L : Links ν} {h x n y : ν} {l r : List ν} (hr : Ring L h (l ++ x :: r))
    (hn : n ∉ h :: (l ++ x :: r)) (hy : y ∉ h :: (l ++ x :: r)) (hyn : y ≠ n) :
    listAdd L n x y = L y := by
  have hmem : ∀ z, z ∈ x :: (r ++ h :: l) ↔ z ∈ h :: (l ++ x :: r) := by
    intro z
    simp only [List.mem_cons, List.mem_append]
    tauto
  exact hr.rotate.add_frame (fun h' => hn ((hmem n).mp h')) (fun h' => hy ((hmem y).mp h')) hyn

theorem Ring.addTail_frame {L : Links ν} {h n x : ν} {xs : List ν} (r : Ring L h xs)
    (hn : n ∉ h :: xs) (hx : x ∉ h :: xs) (hxn : x ≠ n) : listAddTail L n h x = L x := by
  have hnh : h ≠ n := by
    rintro rfl
    simp at hn
  have hxh : x ≠ h := by
    rintro rfl
    simp at hx
  have hxa : x ≠ (L h).prev := fun e => hx (e ▸ r.prev_head_mem)
  simp only [listAddTail, setNext_apply, setPrev_apply, if_neg hnh, if_neg hxn, if_true]
  grind

theorem Ring.unhook_frame {L : Links ν} {h x y : ν} {l r : List ν} (hr : Ring L h (l ++ x :: r))
    (hy : y ∉ h :: (l ++ x :: r)) : listUnhook L x y = L y := by
  have hprev : y ≠ (L x).prev := by
    have hmem := hr.prev_mem
    rintro rfl
    simp only [List.mem_cons, List.mem_append, not_or] at hmem hy
    tauto
  have hnext : y ≠ (L x).next := by
    rintro rfl
    rw [hr.next_mem] at hy
    cases r <;> simp at hy
  simp only [listUnhook, setNext_apply, setPrev_apply, if_neg (Ne.symm hr.prev_ne), if_neg hprev]
  exact if_neg hnext

theorem Ring.del_frame {L : Links ν} {h x y : ν} {l r : List ν} (poison : ν)
    (hr : Ring L h (l ++ x :: r)) (hy : y ∉ h :: (l ++ x :: r)) : listDel poison L x y = L y := by
  have hyx : y ≠ x := by
    rintro rfl
    simp at hy
  rw [listDel, setPrev_apply, if_neg hyx, setNext_apply, if_neg hyx, hr.unhook_frame hy]

theorem Ring.delInit_frame {L : Links ν} {h x y : ν} {l r : List ν}
    (hr : Ring L h (l ++ x :: r)) (hy : y ∉ h :: (l ++ x :: r)) : listDelInit L x y = L y := by
  have hyx : y ≠ x := by
    rintro rfl
    simp at hy
  rw [listDelInit, setPrev_apply, if_neg hyx, setNext_apply, if_neg hyx, hr.unhook_frame hy]

end Operations

/-! ## §5. Families of rings over one memory of links. -/

section Families

variable {ν ι β : Type}

/-- **The lists `m i`, for the heads `i` in use, hang apart on their heads.**
Heads and members are embedded in the nodes without overlap, and no member is
on two lists. -/
structure Rings (L : Links ν) (head : ι → ν) (node : β → ν) (used : ι → Prop) (m : ι → List β) :
    Prop where
  headInj : Function.Injective head
  nodeInj : Function.Injective node
  headNe : ∀ i b, head i ≠ node b
  ring : ∀ i, used i → Ring L (head i) ((m i).map node)
  apart : ∀ i j, used i → used j → i ≠ j → ∀ b ∈ m i, b ∉ m j

variable {L L' : Links ν} {head : ι → ν} {node : β → ν} {used : ι → Prop} {m : ι → List β}

theorem Rings.node_mem (R : Rings L head node used m) {i : ι} {b : β} :
    node b ∈ head i :: (m i).map node ↔ b ∈ m i := by
  rw [List.mem_cons, List.mem_map_of_injective R.nodeInj]
  exact or_iff_right (Ne.symm (R.headNe i b))

theorem Rings.nodup (R : Rings L head node used m) {i : ι} (hi : used i) : (m i).Nodup :=
  List.Nodup.of_map node (List.nodup_cons.mp (R.ring i hi).nodup).2

/-- The first node of a list: its first member, or its head. -/
theorem Rings.first (R : Rings L head node used m) {i : ι} (hi : used i) :
    (L (head i)).next = ((m i).head?.map node).getD (head i) := by
  rw [(R.ring i hi).next_head]
  cases m i <;> rfl

/-- The last node of a list: its last member, or its head. -/
theorem Rings.last (R : Rings L head node used m) {i : ι} (hi : used i) :
    (L (head i)).prev = ((m i).getLast?.map node).getD (head i) := by
  rw [(R.ring i hi).prev_head]
  rcases List.eq_nil_or_concat (m i) with e | ⟨l, b, e⟩
  · simp [e]
  · simp [e]

/-- The node before a member: the previous member, or the head. -/
theorem Rings.prev (R : Rings L head node used m) {i : ι} (hi : used i) {l r : List β} {b : β}
    (hm : m i = l ++ b :: r) : (L (node b)).prev = (l.getLast?.map node).getD (head i) := by
  have hring := R.ring i hi
  rw [hm, List.map_append, List.map_cons] at hring
  rw [hring.prev_getLast]
  rcases List.eq_nil_or_concat l with rfl | ⟨l₁, a, rfl⟩
  · rfl
  · simp

/-- The node after a member: the next member, or the head. -/
theorem Rings.next (R : Rings L head node used m) {i : ι} (hi : used i) {l r : List β} {b : β}
    (hm : m i = l ++ b :: r) : (L (node b)).next = (r.head?.map node).getD (head i) := by
  have hring := R.ring i hi
  rw [hm, List.map_append, List.map_cons] at hring
  rw [hring.next_mem]
  cases r <;> rfl

/-- Fewer heads, and other lists where no head is in use. -/
theorem Rings.restrict (R : Rings L head node used m) {used' : ι → Prop} {m' : ι → List β}
    (hsub : ∀ i, used' i → used i) (hm : ∀ i, used' i → m' i = m i) :
    Rings L head node used' m' where
  headInj := R.headInj
  nodeInj := R.nodeInj
  headNe := R.headNe
  ring i hi := by
    rw [hm i hi]
    exact R.ring i (hsub i hi)
  apart i j hi hj hne b hb := by
    rw [hm i hi] at hb
    rw [hm j hj]
    exact R.apart i j (hsub i hi) (hsub j hj) hne b hb

/-- **One list changes**: the new links agree with the old ones off the old
ring and the new members, and a new member was on no other list. -/
theorem Rings.update [DecidableEq ι] (R : Rings L head node used m) {i : ι} {xs : List β}
    (hi : used i) (hring : Ring L' (head i) (xs.map node))
    (frame : ∀ x, x ∉ head i :: (m i).map node → x ∉ xs.map node → L' x = L x)
    (fresh : ∀ b ∈ xs, ∀ j, used j → j ≠ i → b ∉ m j) :
    Rings L' head node used (Function.update m i xs) where
  headInj := R.headInj
  nodeInj := R.nodeInj
  headNe := R.headNe
  ring j hj := by
    by_cases hji : j = i
    · rw [hji, Function.update_self]
      exact hring
    · rw [Function.update_of_ne hji]
      -- another ring is off the nodes that were written
      refine (R.ring j hj).congr ?_
      intro x hx
      rcases List.mem_cons.mp hx with rfl | hx
      · refine frame _ ?_ ?_
        · rw [List.mem_cons, not_or]
          exact ⟨fun e => hji (R.headInj e), fun h => by
            obtain ⟨b, _, hb⟩ := List.mem_map.mp h
            exact R.headNe j b hb.symm⟩
        · intro h
          obtain ⟨b, _, hb⟩ := List.mem_map.mp h
          exact R.headNe j b hb.symm
      · obtain ⟨b, hb, rfl⟩ := List.mem_map.mp hx
        refine frame _ ?_ ?_
        · rw [R.node_mem]
          exact R.apart j i hj hi hji b hb
        · rw [List.mem_map_of_injective R.nodeInj]
          exact fun hbx => fresh b hbx j hj hji hb
  apart j k hj hk hne b hb := by
    by_cases hji : j = i
    · subst hji
      rw [Function.update_self] at hb
      rw [Function.update_of_ne (Ne.symm hne)]
      exact fresh b hb k hk (Ne.symm hne)
    · rw [Function.update_of_ne hji] at hb
      by_cases hki : k = i
      · subst hki
        rw [Function.update_self]
        exact fun hbx => fresh b hbx j hj hji hb
      · rw [Function.update_of_ne hki]
        exact R.apart j k hj hk hne b hb

variable [DecidableEq ν]

/-- `list_add` of a node that is on no list. -/
theorem Rings.add [DecidableEq ι] (R : Rings L head node used m) {i : ι} (hi : used i) {b : β}
    (fresh : ∀ j, used j → b ∉ m j) :
    Rings (listAdd L (node b) (head i)) head node used (Function.update m i (b :: m i)) := by
  have hb : node b ∉ head i :: (m i).map node := by
    rw [R.node_mem]
    exact fresh i hi
  refine R.update hi ((R.ring i hi).add hb) ?_ ?_
  · intro x hx hxs
    refine (R.ring i hi).add_frame hb hx ?_
    rintro rfl
    exact hxs (by simp)
  · intro c hc j hj hji
    rcases List.mem_cons.mp hc with rfl | hc
    · exact fresh j hj
    · exact R.apart i j hi hj (Ne.symm hji) c hc

/-- `list_add` of a node that is on no list, behind a member. -/
theorem Rings.addAfter [DecidableEq ι] (R : Rings L head node used m) {i : ι} (hi : used i) {a b : β}
    {l r : List β} (hm : m i = l ++ a :: r) (fresh : ∀ j, used j → b ∉ m j) :
    Rings (listAdd L (node b) (node a)) head node used (Function.update m i (l ++ a :: b :: r)) := by
  have hring := R.ring i hi
  have hb : node b ∉ head i :: (m i).map node := by
    rw [R.node_mem]
    exact fresh i hi
  rw [hm, List.map_append, List.map_cons] at hring hb
  refine R.update hi ?_ ?_ ?_
  · rw [List.map_append]
    exact hring.addAfter hb
  · intro x hx hxs
    rw [hm, List.map_append, List.map_cons] at hx
    refine hring.addAfter_frame hb hx ?_
    rintro rfl
    exact hxs (by simp)
  · intro c hc j hj hji
    have hc' : c = b ∨ c ∈ m i := by
      rw [hm]
      simp only [List.mem_append, List.mem_cons] at hc ⊢
      tauto
    rcases hc' with rfl | hc'
    · exact fresh j hj
    · exact R.apart i j hi hj (Ne.symm hji) c hc'

/-- `list_add_tail` of a node that is on no list. -/
theorem Rings.addTail [DecidableEq ι] (R : Rings L head node used m) {i : ι} (hi : used i) {b : β}
    (fresh : ∀ j, used j → b ∉ m j) :
    Rings (listAddTail L (node b) (head i)) head node used (Function.update m i (m i ++ [b])) := by
  have hb : node b ∉ head i :: (m i).map node := by
    rw [R.node_mem]
    exact fresh i hi
  refine R.update hi ?_ ?_ ?_
  · rw [List.map_append]
    exact (R.ring i hi).addTail hb
  · intro x hx hxs
    refine (R.ring i hi).addTail_frame hb hx ?_
    rintro rfl
    exact hxs (by simp)
  · intro c hc j hj hji
    rcases List.mem_append.mp hc with hc | hc
    · exact R.apart i j hi hj (Ne.symm hji) c hc
    · rw [List.mem_singleton.mp hc]
      exact fresh j hj

omit [DecidableEq ν] in
/-- A member leaves its list, for links that close the gap and are framed by
the ring. -/
theorem Rings.remove [DecidableEq ι] [DecidableEq β] (R : Rings L head node used m) {i : ι}
    (hi : used i) {b : β} (hb : b ∈ m i)
    (hring : ∀ l r, Ring L (head i) (l ++ node b :: r) → Ring L' (head i) (l ++ r))
    (frame : ∀ l r, Ring L (head i) (l ++ node b :: r) →
      ∀ x, x ∉ head i :: (l ++ node b :: r) → L' x = L x) :
    Rings L' head node used (Function.update m i ((m i).erase b)) := by
  obtain ⟨l, r, hm⟩ := List.append_of_mem hb
  have hbl : b ∉ l := by
    have hnd := R.nodup hi
    rw [hm, List.nodup_append] at hnd
    exact fun h => hnd.2.2 b h b (by simp) rfl
  have herase : (m i).erase b = l ++ r := by
    rw [hm, List.erase_append_right _ hbl, List.erase_cons_head]
  have hold := R.ring i hi
  rw [hm, List.map_append, List.map_cons] at hold
  rw [herase]
  refine R.update hi ?_ ?_ ?_
  · rw [List.map_append]
    exact hring _ _ hold
  · intro x hx _
    rw [hm, List.map_append, List.map_cons] at hx
    exact frame _ _ hold x hx
  · intro c hc j hj hji
    refine R.apart i j hi hj (Ne.symm hji) c ?_
    rw [hm]
    rcases List.mem_append.mp hc with hc | hc
    · exact List.mem_append_left _ hc
    · exact List.mem_append_right _ (List.mem_cons_of_mem _ hc)

/-- The two unlinking writes on a member. -/
theorem Rings.unhook [DecidableEq ι] [DecidableEq β] (R : Rings L head node used m) {i : ι}
    (hi : used i) {b : β} (hb : b ∈ m i) :
    Rings (listUnhook L (node b)) head node used (Function.update m i ((m i).erase b)) :=
  R.remove hi hb (fun _ _ h => h.unhook) fun _ _ h _ hx => h.unhook_frame hx

/-- `list_del` of a member. -/
theorem Rings.del [DecidableEq ι] [DecidableEq β] (R : Rings L head node used m) (poison : ν) {i : ι}
    (hi : used i) {b : β} (hb : b ∈ m i) :
    Rings (listDel poison L (node b)) head node used (Function.update m i ((m i).erase b)) :=
  R.remove hi hb (fun _ _ h => h.del poison) fun _ _ h _ hx => h.del_frame poison hx

/-- `list_del_init` of a member. -/
theorem Rings.delInit [DecidableEq ι] [DecidableEq β] (R : Rings L head node used m) {i : ι}
    (hi : used i) {b : β} (hb : b ∈ m i) :
    Rings (listDelInit L (node b)) head node used (Function.update m i ((m i).erase b)) :=
  R.remove hi hb (fun _ _ h => h.delInit) fun _ _ h _ hx => h.delInit_frame hx

omit [DecidableEq ν] in
/-- A member that has left its list is on none. -/
theorem Rings.erased [DecidableEq ι] [DecidableEq β] (R : Rings L head node used m) {i : ι}
    (hi : used i) {b : β} (hb : b ∈ m i) :
    ∀ j, used j → b ∉ Function.update m i ((m i).erase b) j := by
  intro j hj
  by_cases hji : j = i
  · rw [hji, Function.update_self]
    exact (R.nodup hi).not_mem_erase
  · rw [Function.update_of_ne hji]
    exact R.apart i j hi hj (Ne.symm hji) b hb

omit [DecidableEq ν] in
/-- The other members stay on their lists when one goes. -/
theorem mem_update_erase [DecidableEq ι] [DecidableEq β] {i : ι} {b x : β} (hx : x ≠ b) (j : ι) :
    x ∈ Function.update m i ((m i).erase b) j ↔ x ∈ m j := by
  by_cases hji : j = i
  · rw [hji, Function.update_self, List.mem_erase_of_ne hx]
  · rw [Function.update_of_ne hji]

omit [DecidableEq ν] in
theorem update_erase_sublist [DecidableEq ι] [DecidableEq β] (i : ι) (b : β) (j : ι) :
    (Function.update m i ((m i).erase b) j).Sublist (m j) := by
  by_cases hji : j = i
  · rw [hji, Function.update_self]
    exact List.erase_sublist
  · rw [Function.update_of_ne hji]

omit [DecidableEq ν] in
/-- They also stay when one comes. -/
theorem mem_update_insert [DecidableEq ι] {i : ι} {l r : List β} (hi : m i = l ++ r) {b x : β} (hx : x ≠ b)
    (j : ι) : x ∈ Function.update m i (l ++ b :: r) j ↔ x ∈ m j := by
  by_cases hji : j = i
  · rw [hji, Function.update_self, hi]
    simp [hx]
  · rw [Function.update_of_ne hji]

/-- `INIT_LIST_HEAD` of a node that is on no list. -/
theorem Rings.initNode (R : Rings L head node used m) {b : β} (fresh : ∀ j, used j → b ∉ m j) :
    Rings (initListHead L (node b)) head node used m where
  headInj := R.headInj
  nodeInj := R.nodeInj
  headNe := R.headNe
  ring i hi := by
    refine (R.ring i hi).congr ?_
    intro x hx
    refine initListHead_frame L ?_
    rintro rfl
    exact fresh i hi (R.node_mem.mp hx)
  apart := R.apart

/-- `INIT_LIST_HEAD` of a head: its list is empty, and the others stay. -/
theorem Rings.initHead [DecidableEq ι] (R : Rings L head node used m) (i : ι) :
    Rings (initListHead L (head i)) head node (fun j => j = i ∨ used j) (Function.update m i []) where
  headInj := R.headInj
  nodeInj := R.nodeInj
  headNe := R.headNe
  ring j hj := by
    by_cases hji : j = i
    · rw [hji, Function.update_self]
      exact ring_initListHead L (head i)
    · rw [Function.update_of_ne hji]
      refine (R.ring j (hj.resolve_left hji)).congr ?_
      intro x hx
      refine initListHead_frame L ?_
      rintro rfl
      rcases List.mem_cons.mp hx with e | hx
      · exact hji (R.headInj e).symm
      · obtain ⟨b, _, hb⟩ := List.mem_map.mp hx
        exact R.headNe i b hb.symm
  apart j k hj hk hne b hb := by
    by_cases hji : j = i
    · simp [hji] at hb
    · by_cases hki : k = i
      · simp [hki]
      · rw [Function.update_of_ne hji] at hb
        rw [Function.update_of_ne hki]
        exact R.apart j k (hj.resolve_left hji) (hk.resolve_left hki) hne b hb

/-- `list_empty`. -/
theorem Rings.listEmpty_iff (R : Rings L head node used m) {i : ι} (hi : used i) :
    listEmpty L (head i) = true ↔ m i = [] := by
  rw [(R.ring i hi).listEmpty_iff, List.map_eq_nil_iff]

omit [DecidableEq ν] in
/-- With no head in use there is nothing to say. -/
theorem rings_none (L : Links ν) (headInj : Function.Injective head)
    (nodeInj : Function.Injective node) (headNe : ∀ i b, head i ≠ node b) :
    Rings L head node (fun _ => False) m :=
  ⟨headInj, nodeInj, headNe, fun _ h => h.elim, fun _ _ h => h.elim⟩

end Families

end LzLib.Foundation
