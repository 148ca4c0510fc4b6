import Mathlib.Combinatorics.SimpleGraph.Connectivity.Subgraph

/-!
# Contracted graphs

The nodes of one graph fall into classes, and the classes are the nodes of another one.
Where each class is connected and the edges between classes come from edges between their
members, what is connected there is connected here.

## Main results

* `preconnected_of_classes` — a connected set of classes is a connected set of nodes.
* `preconnected_insert` — a node next to a connected set joins it.
-/

namespace Ontosyx.Lib.Contraction

variable {V U : Type*} {G : SimpleGraph V} {H : SimpleGraph U}

/-- What is reached inside a set is reached inside a larger one. -/
theorem reachable_mono {S T : Set V} (h : S ⊆ T) {x y : V} {hx : x ∈ S} {hy : y ∈ S}
    (hreach : (G.induce S).Reachable ⟨x, hx⟩ ⟨y, hy⟩) :
    (G.induce T).Reachable ⟨x, h hx⟩ ⟨y, h hy⟩ :=
  hreach.map (G.induceHomOfLE h).toHom

/-- A connected set of classes is a connected set of nodes. -/
theorem preconnected_of_classes (cls : V → U)
    (hclasses : ∀ A, (G.induce {v | cls v = A}).Preconnected)
    (hadj : ∀ A B, H.Adj A B → ∃ a b, cls a = A ∧ cls b = B ∧ G.Adj a b) {S : Set U}
    (hS : (H.induce S).Preconnected) : (G.induce {v | cls v ∈ S}).Preconnected := by
  have hclass {x y : V} (hx : cls x ∈ S) (hy : cls y ∈ S) (hxy : cls x = cls y) :
      (G.induce {v | cls v ∈ S}).Reachable ⟨x, hx⟩ ⟨y, hy⟩ := by
    have hsub : {v | cls v = cls x} ⊆ {v | cls v ∈ S} := by
      intro v hv
      show cls v ∈ S
      rw [show cls v = cls x from hv]
      exact hx
    exact reachable_mono hsub (hclasses (cls x) ⟨x, rfl⟩ ⟨y, hxy.symm⟩)
  have hwalk {A B : S} (p : (H.induce S).Walk A B) : ∀ {x y : V} (hx : cls x ∈ S) (hy : cls y ∈ S),
      cls x = A → cls y = B → (G.induce {v | cls v ∈ S}).Reachable ⟨x, hx⟩ ⟨y, hy⟩ := by
    induction p with
    | nil =>
      intro x y hx hy hxA hyA
      exact hclass hx hy (hxA.trans hyA.symm)
    | @cons A C B hedge p ih =>
      intro x y hx hy hxA hyB
      obtain ⟨a, c, ha, hc, hac⟩ := hadj _ _ hedge
      have haS : cls a ∈ S := by
        rw [ha]
        exact A.2
      have hcS : cls c ∈ S := by
        rw [hc]
        exact C.2
      have hstep : (G.induce {v | cls v ∈ S}).Adj ⟨a, haS⟩ ⟨c, hcS⟩ := hac
      exact (hclass hx haS (hxA.trans ha.symm)).trans (hstep.reachable.trans (ih hcS hy hc hyB))
  intro ⟨x, hx⟩ ⟨y, hy⟩
  obtain ⟨p⟩ := hS ⟨cls x, hx⟩ ⟨cls y, hy⟩
  exact hwalk p hx hy rfl rfl

/-- A node next to a connected set joins it. -/
theorem preconnected_insert {S : Set V} (hS : (G.induce S).Preconnected) {x y : V} (hy : y ∈ S)
    (hxy : G.Adj x y) : (G.induce (insert x S)).Preconnected := by
  have hx : (G.induce {x}).Preconnected := by
    intro ⟨a, ha⟩ ⟨b, hb⟩
    cases ha
    cases hb
    exact .refl _
  rw [Set.insert_eq]
  exact (SimpleGraph.connected_induce_union hx hS rfl hy hxy).preconnected

end Ontosyx.Lib.Contraction
