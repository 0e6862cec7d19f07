/-
  LzLib.Foundation.NullLists
  ──────────────────────────
  **NULL-TERMINATED LINKED LISTS** in a heap of numbered cells.

  A pointer is a natural number and `0` is NULL.  The cells' link fields are
  read through partial functions (`none`: no live cell there), so the same
  lemmas serve a list threaded through any field of any heap.

    • `Chain nx p xs`        — following `nx` from `p` visits `xs`, then NULL;
    • `Doubly nx pv b p xs`  — as `Chain`, and every cell's `pv` names the
      cell before it (`b` before the first).

  The edits are the ones hash tables make: push a cell in front, take a cell
  out of the middle.
-/
import Mathlib.Data.List.Nodup
import Mathlib.Logic.Function.Basic

namespace LzLib.Foundation

/-- A pointer; `0` is NULL. -/
abbrev Addr := Nat

/-- A heap of `α` cells; `none` where no cell is live. -/
abbrev Heap (α : Type) := Addr → Option α

/-! ## §1. Singly linked chains. -/

/-- Following `nx` from `p` visits `xs` and ends at NULL. -/
def Chain (nx : Addr → Option Addr) : Addr → List Addr → Prop
  | p, [] => p = 0
  | p, x :: xs => p = x ∧ x ≠ 0 ∧ ∃ q, nx x = some q ∧ Chain nx q xs

theorem Chain.congr {nx nx' : Addr → Option Addr} :
    ∀ {p : Addr} {xs : List Addr}, (∀ x ∈ xs, nx' x = nx x) → Chain nx p xs → Chain nx' p xs
  | _, [], _, h => h
  | _, x :: _, hs, ⟨hp, hx, q, hq, h⟩ =>
      ⟨hp, hx, q, (hs x (by simp)).trans hq, Chain.congr (fun y hy => hs y (by simp [hy])) h⟩

theorem Chain.ne_zero {nx : Addr → Option Addr} :
    ∀ {p : Addr} {xs : List Addr}, Chain nx p xs → ∀ x ∈ xs, x ≠ 0
  | _, _ :: _, ⟨_, hx, _, _, h⟩, y, hy => by
      rcases List.mem_cons.mp hy with rfl | hy
      · exact hx
      · exact h.ne_zero y hy

/-- The cells of a chain are determined by its start. -/
theorem Chain.unique {nx : Addr → Option Addr} :
    ∀ {p : Addr} {xs ys : List Addr}, Chain nx p xs → Chain nx p ys → xs = ys
  | _, [], [], _, _ => rfl
  | _, [], _ :: _, h, h' => absurd (h'.1.symm.trans h) h'.2.1
  | _, _ :: _, [], h, h' => absurd (h.1.symm.trans h') h.2.1
  | _, x :: xs, y :: ys, ⟨hp, _, q, hq, h⟩, ⟨hp', _, q', hq', h'⟩ => by
      have hxy : x = y := hp.symm.trans hp'
      subst hxy
      rw [hq] at hq'
      cases hq'
      rw [h.unique h']

theorem Chain.suffix {nx : Addr → Option Addr} :
    ∀ {p : Addr} {l : List Addr} {x : Addr} {r : List Addr},
      Chain nx p (l ++ x :: r) → Chain nx x (x :: r)
  | _, [], _, _, h => by obtain ⟨rfl, h⟩ := h; exact ⟨rfl, h⟩
  | _, _ :: l, _, _, ⟨_, _, _, _, h⟩ => Chain.suffix (l := l) h

/-- A finite chain never visits a cell twice. -/
theorem Chain.nodup {nx : Addr → Option Addr} :
    ∀ {p : Addr} {xs : List Addr}, Chain nx p xs → xs.Nodup
  | _, [], _ => List.nodup_nil
  | _, x :: xs, h => by
      refine List.nodup_cons.mpr ⟨?_, (h.2.2.choose_spec.2).nodup⟩
      intro hx
      obtain ⟨l, r, rfl⟩ := List.append_of_mem hx
      -- the walk from the second visit would be as long as the walk from the first
      have h₁ : Chain nx x (x :: (l ++ x :: r)) := ⟨rfl, h.2⟩
      have h₂ : Chain nx x (x :: r) := Chain.suffix (l := x :: l) h₁
      have := congrArg List.length (h₁.unique h₂)
      simp only [List.length_cons, List.length_append] at this
      omega

theorem Chain.push {nx nx' : Addr → Option Addr} {p x : Addr} {xs : List Addr}
    (h : Chain nx p xs) (hx : x ≠ 0) (hnx : nx' x = some p) (hs : ∀ y ∈ xs, nx' y = nx y) :
    Chain nx' x (x :: xs) :=
  ⟨rfl, hx, p, hnx, h.congr hs⟩

/-- Unlinking a cell that has a predecessor: only the predecessor's link changes. -/
theorem Chain.unlink {nx nx' : Addr → Option Addr} {a x : Addr} {r : List Addr} :
    ∀ {p : Addr} {l : List Addr}, Chain nx p (l ++ a :: x :: r) →
      nx' a = nx x → (∀ y ∈ l ++ r, nx' y = nx y) → Chain nx' p (l ++ a :: r)
  | _, [], ⟨hp, ha, _, _, h⟩, hax, hs => by
      obtain ⟨_, _, q, hq, h⟩ := h
      exact ⟨hp, ha, q, hax.trans hq, h.congr hs⟩
  | _, y :: l, ⟨hp, hy, q, hq, h⟩, hax, hs =>
      ⟨hp, hy, q, (hs y (by simp)).trans hq,
        Chain.unlink (l := l) h hax (fun z hz => hs z (by simp_all))⟩

theorem Chain.tail {nx : Addr → Option Addr} {p x : Addr} {xs : List Addr}
    (h : Chain nx p (x :: xs)) : ∃ q, nx x = some q ∧ Chain nx q xs := h.2.2

/-! ## §2. Doubly linked lists. -/

/-- `nx` and `pv` thread `xs` from `p`, the cell before the first being `b`. -/
def Doubly (nx pv : Addr → Option Addr) : Addr → Addr → List Addr → Prop
  | _, p, [] => p = 0
  | b, p, x :: xs => p = x ∧ x ≠ 0 ∧ pv x = some b ∧ ∃ q, nx x = some q ∧ Doubly nx pv x q xs

theorem Doubly.chain {nx pv : Addr → Option Addr} :
    ∀ {b p : Addr} {xs : List Addr}, Doubly nx pv b p xs → Chain nx p xs
  | _, _, [], h => h
  | _, _, _ :: _, ⟨hp, hx, _, q, hq, h⟩ => ⟨hp, hx, q, hq, h.chain⟩

theorem Doubly.congr {nx pv nx' pv' : Addr → Option Addr} :
    ∀ {b p : Addr} {xs : List Addr}, (∀ x ∈ xs, nx' x = nx x) → (∀ x ∈ xs, pv' x = pv x) →
      Doubly nx pv b p xs → Doubly nx' pv' b p xs
  | _, _, [], _, _, h => h
  | _, _, x :: _, hn, hv, ⟨hp, hx, hb, q, hq, h⟩ =>
      ⟨hp, hx, (hv x (by simp)).trans hb, q, (hn x (by simp)).trans hq,
        Doubly.congr (fun y hy => hn y (by simp [hy])) (fun y hy => hv y (by simp [hy])) h⟩

/-- The same list behind another predecessor: only the first cell's back link
differs. -/
theorem Doubly.rebase {nx pv nx' pv' : Addr → Option Addr} {b b' p : Addr} {xs : List Addr}
    (h : Doubly nx pv b p xs) (hn : ∀ x ∈ xs, nx' x = nx x)
    (hhead : ∀ x, xs.head? = some x → pv' x = some b') (hv : ∀ x ∈ xs.tail, pv' x = pv x) :
    Doubly nx' pv' b' p xs := by
  cases xs with
  | nil => exact h
  | cons x xs =>
      obtain ⟨hp, hx, _, q, hq, h⟩ := h
      exact ⟨hp, hx, hhead x rfl, q, (hn x (by simp)).trans hq,
        h.congr (fun y hy => hn y (by simp [hy])) hv⟩

theorem Doubly.push {nx pv nx' pv' : Addr → Option Addr} {b p x : Addr} {xs : List Addr}
    (h : Doubly nx pv b p xs) (hx : x ≠ 0) (hnx : nx' x = some p) (hpv : pv' x = some b)
    (hn : ∀ y ∈ xs, nx' y = nx y) (hhead : ∀ y, xs.head? = some y → pv' y = some x)
    (hv : ∀ y ∈ xs.tail, pv' y = pv y) :
    Doubly nx' pv' b x (x :: xs) :=
  ⟨rfl, hx, hpv, p, hnx, h.rebase hn hhead hv⟩

/-- What a member's own links are: the cell before it and the cell after it. -/
theorem Doubly.links {nx pv : Addr → Option Addr} {x : Addr} {r : List Addr} :
    ∀ {b p : Addr} {l : List Addr}, Doubly nx pv b p (l ++ x :: r) →
      pv x = some (l.getLastD b) ∧ nx x = some (r.headD 0)
  | b, _, [], h => by
      obtain ⟨_, _, hb, q, hq, h⟩ := h
      refine ⟨hb, ?_⟩
      cases r with
      | nil => rw [hq]; exact congrArg some h
      | cons y r => rw [hq]; exact congrArg some h.1
  | b, _, y :: l, h => by
      obtain ⟨_, _, _, q, _, h⟩ := h
      have := Doubly.links (l := l) h
      cases l with
      | nil => exact this
      | cons z l => simpa [List.getLastD] using this

/-- **Unlinking `x`**: the cell before it takes over `x`'s forward link, the
cell after it takes over `x`'s back link. -/
theorem Doubly.unlink {nx pv nx' pv' : Addr → Option Addr} {x : Addr} {r : List Addr} :
    ∀ {b p : Addr} {l : List Addr}, Doubly nx pv b p (l ++ x :: r) →
      (∀ a, l.getLast? = some a → nx' a = some (r.headD 0)) →
      (∀ a ∈ l.dropLast ++ r, nx' a = nx a) →
      (∀ c, r.head? = some c → pv' c = some (l.getLastD b)) →
      (∀ c ∈ l ++ r.tail, pv' c = pv c) →
      Doubly nx' pv' b (if l = [] then r.headD 0 else p) (l ++ r)
  | b, _, [], h, _, hn, hc, hv => by
      obtain ⟨_, _, _, q, _, h⟩ := h
      have hq : q = r.headD 0 := by
        cases r with
        | nil => exact h
        | cons y r => exact h.1
      rw [if_pos rfl, ← hq]
      exact h.rebase (fun y hy => hn y (by simp [hy])) hc (fun y hy => hv y (by simp [hy]))
  | b, p, [y], h, ha, hn, hc, hv => by
      obtain ⟨hp, hy, hb, q, _, h⟩ := h
      have ih := Doubly.unlink (l := []) h (by simp) (fun a h' => hn a (by simp_all))
        (by simpa using hc) (fun c h' => hv c (by simp_all))
      rw [if_pos rfl] at ih
      rw [if_neg (by simp)]
      exact ⟨hp, hy, (hv y (by simp)).trans hb, _, ha y rfl, ih⟩
  | b, p, y :: z :: l, h, ha, hn, hc, hv => by
      obtain ⟨hp, hy, hb, q, hq, h⟩ := h
      have ih := Doubly.unlink (l := z :: l) h (by simpa using ha)
        (fun a h' => hn a (by simp_all)) (by simpa [List.getLastD] using hc)
        (fun c h' => hv c (by simp_all))
      rw [if_neg (by simp)] at ih ⊢
      exact ⟨hp, hy, (hv y (by simp)).trans hb, q, (hn y (by simp)).trans hq, ih⟩

end LzLib.Foundation
