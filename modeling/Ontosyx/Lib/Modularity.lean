import Mathlib.Algebra.BigOperators.Field
import Mathlib.Data.Fintype.BigOperators
import Mathlib.Tactic.FieldSimp
import Mathlib.Tactic.Ring

/-!
# Modularity

The modularity of a labelling of weighted nodes compares the weight between nodes of one
label with what their degrees would make one expect.  It is a sum over pairs of nodes,
which is what the rules here are about: moving one node to another label changes the pairs
with that node, and a labelling of classes of nodes is one of the nodes themselves.

## Main results

* `modularity_update` — what the move of one node changes.
* `modularity_push` — labelling classes of nodes is labelling the nodes.
-/

namespace Ontosyx.Lib.Modularity

open Finset Function

variable {V U C K : Type*} [Fintype V] [Fintype U] [DecidableEq C] [Field K]

/-- What a sum over pairs of nodes gives to those of one label. -/
def within (W : V → V → K) (label : V → C) : K :=
  ∑ i, ∑ j, if label i = label j then W i j else 0

def degree (W : V → V → K) (i : V) : K := ∑ j, W i j

/-- The total weight: each edge stands in the sum twice. -/
def total (W : V → V → K) : K := (∑ i, degree W i) / 2

def modularity (resolution : K) (W : V → V → K) (label : V → C) : K :=
  within W label / (2 * total W) -
    resolution * within (fun i j => degree W i * degree W j) label / (2 * total W) ^ 2

section

variable [DecidableEq V]

/-- The weight between a node and the others of a label. -/
def weightTo (W : V → V → K) (label : V → C) (x : V) (c : C) : K :=
  ∑ v ∈ univ.erase x, if label v = c then W x v else 0

/-- The pairs with a node and those without it. -/
theorem within_eq (W : V → V → K) (hsymm : ∀ i j, W i j = W j i) (label : V → C) (x : V) :
    within W label = W x x + 2 * weightTo W label x (label x) +
      ∑ i ∈ univ.erase x, ∑ j ∈ univ.erase x, if label i = label j then W i j else 0 := by
  have hrow (i : V) : (∑ j, if label i = label j then W i j else 0) =
      (if label i = label x then W i x else 0) +
        ∑ j ∈ univ.erase x, if label i = label j then W i j else 0 :=
    (add_sum_erase univ _ (mem_univ x)).symm
  have hcolumn : (∑ i ∈ univ.erase x, if label i = label x then W i x else 0) =
      weightTo W label x (label x) := by
    apply sum_congr rfl
    intro i _
    rw [hsymm i x]
  have hself : (∑ j ∈ univ.erase x, if label x = label j then W x j else 0) =
      weightTo W label x (label x) := by
    apply sum_congr rfl
    intro j _
    exact if_congr eq_comm rfl rfl
  rw [within, ← add_sum_erase univ _ (mem_univ x), hrow x, if_pos rfl, hself]
  simp only [hrow]
  rw [sum_add_distrib, hcolumn]
  ring

/-- Moving a node trades its weight to the old label for that to the new one. -/
theorem within_update (W : V → V → K) (hsymm : ∀ i j, W i j = W j i) (label : V → C) (x : V)
    (c : C) : within W (update label x c) - within W label =
      2 * (weightTo W label x c - weightTo W label x (label x)) := by
  have hothers : ∀ i ∈ univ.erase x, update label x c i = label i := fun i hi =>
    update_of_ne (ne_of_mem_erase hi) c label
  have hto (d : C) : weightTo W (update label x c) x d = weightTo W label x d := by
    apply sum_congr rfl
    intro v hv
    rw [hothers v hv]
  have hrest : (∑ i ∈ univ.erase x, ∑ j ∈ univ.erase x,
        if update label x c i = update label x c j then W i j else 0) =
      ∑ i ∈ univ.erase x, ∑ j ∈ univ.erase x, if label i = label j then W i j else 0 := by
    apply sum_congr rfl
    intro i hi
    apply sum_congr rfl
    intro j hj
    rw [hothers i hi, hothers j hj]
  rw [within_eq W hsymm _ x, within_eq W hsymm label x, hrest, hto, update_self]
  ring

/-- What the move of one node changes. -/
theorem modularity_update (resolution : K) (W : V → V → K) (hsymm : ∀ i j, W i j = W j i)
    (label : V → C) (x : V) (c : C) :
    modularity resolution W (update label x c) - modularity resolution W label =
      2 * (weightTo W label x c - weightTo W label x (label x)) / (2 * total W) -
        resolution * (2 * (weightTo (fun i j => degree W i * degree W j) label x c -
          weightTo (fun i j => degree W i * degree W j) label x (label x))) /
            (2 * total W) ^ 2 := by
  have hdegrees : ∀ i j, degree W i * degree W j = degree W j * degree W i := fun i j =>
    mul_comm _ _
  rw [modularity, modularity, ← within_update W hsymm, ← within_update _ hdegrees]
  ring

end

section

variable [DecidableEq U]

/-- The weight between two classes. -/
def push (cls : V → U) (W : V → V → K) (A B : U) : K :=
  ∑ i with cls i = A, ∑ j with cls j = B, W i j

/-- A sum over pairs of classes is one over pairs of nodes. -/
theorem within_push (cls : V → U) (W : V → V → K) (label : U → C) :
    within (push cls W) label = within W (label ∘ cls) := by
  have hrow (A : U) : (∑ B, if label A = label B then push cls W A B else 0) =
      ∑ i with cls i = A, ∑ j, if label A = label (cls j) then W i j else 0 := by
    have hinside (i : V) : (∑ j, if label A = label (cls j) then W i j else 0) =
        ∑ B, ∑ j with cls j = B, if label A = label B then W i j else 0 := by
      rw [← sum_fiberwise univ cls]
      apply sum_congr rfl
      intro B _
      apply sum_congr rfl
      intro j hj
      rw [(mem_filter.1 hj).2]
    simp only [hinside]
    rw [sum_comm]
    apply sum_congr rfl
    intro B _
    split
    · rfl
    · simp
  unfold within
  simp only [hrow]
  rw [← sum_fiberwise univ cls]
  apply sum_congr rfl
  intro A _
  apply sum_congr rfl
  intro i hi
  rw [comp_apply, (mem_filter.1 hi).2]
  rfl

theorem degree_push (cls : V → U) (W : V → V → K) (A : U) :
    degree (push cls W) A = ∑ i with cls i = A, degree W i := by
  unfold degree push
  rw [sum_comm]
  apply sum_congr rfl
  intro i _
  exact sum_fiberwise univ cls _

theorem total_push (cls : V → U) (W : V → V → K) : total (push cls W) = total W := by
  unfold total
  simp only [degree_push]
  rw [sum_fiberwise univ cls]

theorem modularity_push (resolution : K) (cls : V → U) (W : V → V → K) (label : U → C) :
    modularity resolution (push cls W) label = modularity resolution W (label ∘ cls) := by
  have hdegrees : (fun A B => degree (push cls W) A * degree (push cls W) B) =
      push cls fun i j => degree W i * degree W j := by
    funext A B
    rw [degree_push, degree_push, push, sum_mul_sum]
  rw [modularity, modularity, hdegrees, within_push, within_push, total_push]

end

end Ontosyx.Lib.Modularity
