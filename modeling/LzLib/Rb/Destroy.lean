/-
  LzLib.Rb.Destroy
  ────────────────
  **`rb_destroy` IN MEMORY.**

  The loop needs no stack: a node with a left child is turned to the right below
  it, and a node without one is freed.  A turn keeps the order, so the items come
  up in order; a node that is read is live, so none is freed twice.

  Main result: `rb_destroy_runs`.
-/
import LzLib.Rb.RbRuns

namespace LzLib.Rb

open LzLib.Foundation LzLib.Foundation.ColorTree

variable {ε : Type} {cmp : ε → ε → Int} {t : RbTable ε} {s T l ll lr r : ColorTree (Addr × ε)} {c cl : Color}
  {v w : Addr × ε}

/-- The rounds of the loop: a node to the left of the way down right is turned
once and freed once, one on it only freed. -/
def rounds : ColorTree (Addr × ε) → Nat
  | .nil => 0
  | .node _ l _ r => 2 * l.toList.length + 1 + rounds r

theorem rounds_le : rounds s ≤ 2 * s.toList.length := by
  induction s with
  | nil => exact Nat.le_refl _
  | node c l v r _ ihr =>
      rw [rounds, toList_node, List.length_append, List.length_cons]
      omega

/-- A turn: the left child comes up, and its parent goes below it. -/
theorem turn_holds (hs : Holds t.nodes (.node c (.node cl ll w lr) v r)) (hnodup : (addrs (.node c (.node cl ll w lr) v r)).Nodup) :
    ∃ t₁ t₂, t.setLink (some v.1) false (rootAddr lr) = some t₁ ∧ t₁.setLink (some w.1) true v.1 = some t₂ ∧
      Holds t₂.nodes (.node cl ll w (.node c lr v r)) ∧
      Edits (addrs (.node c (.node cl ll w lr) v r)) t t₂ := by
  obtain ⟨hv0, hv, ⟨hw0, hw, hll, hlr⟩, hr⟩ := hs
  simp only [addrs, Multiset.cons_add, Multiset.nodup_cons, Multiset.mem_cons, Multiset.mem_add, not_or] at hnodup
  obtain ⟨⟨hvw, ⟨hvll, hvlr⟩, hvr⟩, ⟨⟨hwll, hwlr⟩, hwr⟩, -⟩ := hnodup
  have hwv := Ne.symm hvw
  refine ⟨t.put v.1 ⟨links false (rootAddr lr) (rootAddr r), v.2, c⟩,
    (t.put v.1 ⟨links false (rootAddr lr) (rootAddr r), v.2, c⟩).put w.1 ⟨links false (rootAddr ll) v.1, w.2, cl⟩, ?_, ?_, ?_, ?_⟩
  · simp [RbTable.setLink_some, hv]
  · simp [RbTable.setLink_some, RbTable.nodes_put_of_ne, hwv, hw]
  · simp [Holds, holds_put, RbTable.nodes_put_of_ne, *]
  · simp [edits_put, Edits.refl, addrs]

/-- **The loop** destroys the items in order and frees the nodes. -/
theorem rbDestroyFrom_spec (destroy : Bool) (fuel : Nat) (hs : Holds t.nodes s) (hnodup : (addrs s).Nodup)
    (hfuel : rounds s < fuel) :
    ∃ t', rbDestroyFrom t destroy fuel (rootAddr s) = some (t', if destroy then items s else []) ∧
      (∀ x ∈ addrs s, t'.nodes x = none) ∧ ∀ x ∉ addrs s, t'.nodes x = t.nodes x := by
  induction fuel generalizing t s with
  | zero => omega
  | succ fuel ih =>
      cases s with
      | nil => exact ⟨t, by cases destroy <;> rfl, fun x hx => absurd hx (Multiset.notMem_zero x), fun _ _ => rfl⟩
      | node c l v r =>
          have hne := hs.1
          have hnode := hs.2.1
          rw [rounds] at hfuel
          cases l with
          | nil =>
              obtain ⟨-, -, -, hr⟩ := hs
              rw [addrs, addrs_nil, Multiset.zero_add, Multiset.nodup_cons] at hnodup
              have hr' : Holds (t.free v.1).nodes r :=
                hr.congr fun x hx => Function.update_of_ne (ne_of_mem_of_not_mem hx hnodup.1) _ _
              obtain ⟨t', hloop, hfreed, hkept⟩ := ih hr' hnodup.2 (by rw [toList_nil] at hfuel; omega)
              refine ⟨t', ?_, ?_, ?_⟩
              · rw [rootAddr_node, rbDestroyFrom, if_neg hne, hnode]
                simp only [Option.bind_eq_bind, Option.bind_some, links_near, rootAddr_nil, links_right, hloop, if_true]
                cases destroy <;> rfl
              · intro x hx
                rw [addrs, addrs_nil, Multiset.zero_add, Multiset.mem_cons] at hx
                rcases hx with rfl | hx
                · rw [hkept _ hnodup.1]
                  exact Function.update_self _ _ _
                · exact hfreed x hx
              · intro x hx
                rw [addrs, addrs_nil, Multiset.zero_add, Multiset.mem_cons, not_or] at hx
                exact (hkept x hx.2).trans (Function.update_of_ne hx.1 _ _)
          | node cl ll w lr =>
              obtain ⟨t₁, t₂, h₁, h₂, hturned, hedits⟩ := turn_holds hs hnodup
              have hlist : (ColorTree.node cl ll w (.node c lr v r)).toList
                  = (ColorTree.node c (.node cl ll w lr) v r).toList := by simp
              have haddrs := addrs_congr hlist
              obtain ⟨t', hloop, hfreed, hkept⟩ := ih hturned (haddrs ▸ hnodup) (by
                rw [toList_node, List.length_append, List.length_cons] at hfuel
                rw [rounds, rounds]
                omega)
              rw [haddrs] at hfreed hkept
              refine ⟨t', ?_, hfreed, ?_⟩
              · have hw0 : w.1 ≠ 0 := hs.2.2.1.1
                have hright : t.link (some w.1) true = some (rootAddr lr) := RbTable.link_node hs.2.2.1.2.1
                rw [rootAddr_node] at hloop
                rw [rootAddr_node, rbDestroyFrom, if_neg hne, hnode]
                simp only [Option.bind_eq_bind, Option.bind_some, links_near, rootAddr_node, if_neg hw0, hright, h₁, h₂, hloop]
                rw [items, items, hlist]
              · intro x hx
                exact (hkept x hx).trans (hedits.outside x hx)

theorem rbDestroy_spec (h : RbOk cmp t T) (destroy : Bool) :
    rbDestroy t destroy = some (fun _ => none, if destroy then items T else []) := by
  obtain ⟨t', hloop, hfreed, hkept⟩ := rbDestroyFrom_spec destroy (2 * t.count + 1) h.zip.holds
    (Multiset.nodup_add.mp h.zip.nodup).1 (by
      have := rounds_le (s := T)
      rw [← h.count] at this
      omega)
  have hnone : t'.nodes = fun _ => none := by
    funext x
    by_cases hx : x ∈ addrs T
    · exact hfreed x hx
    · rw [hkept x hx]
      exact Option.not_isSome_iff_eq_none.mp fun hsome => hx ((h.live x).mp hsome)
  rw [rbDestroy, h.zip.root, hloop, ← hnone]
  rfl

/-- **THE END OF EVERY RUN**: `rb_destroy` calls the destructor on the members, each
once and in order, and frees every node that the table has taken. -/
theorem rb_destroy_runs (hcmp : Compares cmp) (maxHeight : Nat) (destroy : Bool) {calls : List (RbCall ε)}
    (hlegal : (rbServer cmp maxHeight).Legal rbCreate calls) :
    ∃ t answers, (rbServer cmp maxHeight).run rbCreate calls = some (t, answers) ∧
      rbDestroy t destroy
        = some (fun _ => none, if destroy then (Server.specRun (memberCall cmp) [] calls).1 else []) := by
  obtain ⟨t, hrun, T, hok, hitems⟩ := rb_run_ok hcmp hlegal
  exact ⟨t, _, hrun, hitems ▸ rbDestroy_spec hok destroy⟩

theorem rb_destroy_runs_difference :
    ∃ t answers, (rbServer difference rbMaxHeight).run rbCreate difference_calls = some (t, answers) ∧
      rbDestroy t true = some (fun _ => none, [1, 3, 4]) :=
  rb_destroy_runs difference_compares rbMaxHeight true difference_legal

end LzLib.Rb
