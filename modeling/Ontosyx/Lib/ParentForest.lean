import Mathlib.Data.Fintype.Pigeonhole

/-!
# Parent arrays

A parent array is a forest when every entry climbs to a root.  Climbing takes fewer turns than
there are entries; pointing an entry at its root changes no root, and pointing one root at
another one merges their trees.

## Main results

* `Forest.exists_iterate` — climbing comes to the root, in fewer turns than there are entries.
* `Forest.compress`, `Forest.link` — what the two updates do to the roots.
-/

namespace Ontosyx.Lib.ParentForest

def up (parent : List ℕ) (i : ℕ) : ℕ := parent.getD i i

theorem up_set_self {parent : List ℕ} {i : ℕ} (h : i < parent.length) (r : ℕ) :
    up (parent.set i r) i = r := by
  simp [up, h]

theorem up_set_of_ne {parent : List ℕ} {i j : ℕ} (h : i ≠ j) (r : ℕ) :
    up (parent.set i r) j = up parent j := by
  simp [up, h]

/-- The array is a forest, and these are the roots of its entries. -/
structure Forest (parent : List ℕ) (root : ℕ → ℕ) : Prop where
  up_lt : ∀ i < parent.length, up parent i < parent.length
  root_up : ∀ i, root (up parent i) = root i
  up_eq_iff : ∀ i, up parent i = i ↔ root i = i
  acyclic : ∃ depth : ℕ → ℕ, ∀ i, up parent i ≠ i → depth (up parent i) < depth i

/-- Every entry its own root. -/
theorem forest_range (n : ℕ) : Forest (List.range n) id := by
  have hup (i : ℕ) : up (List.range n) i = i := by
    by_cases h : i < n <;> simp [up, h]
  refine ⟨fun i hi => ?_, fun i => hup i, fun i => ?_, fun _ => 0, fun i h => absurd (hup i) h⟩
  · rwa [hup]
  · exact iff_of_true (hup i) rfl

namespace Forest

variable {parent : List ℕ} {root : ℕ → ℕ} (h : Forest parent root)
include h

theorem climb {motive : ℕ → Prop} (top : ∀ i, root i = i → motive i)
    (below : ∀ i, up parent i ≠ i → motive (up parent i) → motive i) (i : ℕ) : motive i := by
  obtain ⟨depth, hdepth⟩ := h.acyclic
  induction hd : depth i using Nat.strong_induction_on generalizing i with
  | _ d ih =>
    by_cases hfixed : up parent i = i
    · exact top i ((h.up_eq_iff i).1 hfixed)
    · exact below i hfixed (ih _ (hd ▸ hdepth i hfixed) _ rfl)

theorem root_root (i : ℕ) : root (root i) = root i := by
  induction i using h.climb with
  | top i hi => rw [hi, hi]
  | below i _ ih => rwa [h.root_up] at ih

theorem root_lt {i : ℕ} (hi : i < parent.length) : root i < parent.length := by
  induction i using h.climb with
  | top i hroot => rwa [hroot]
  | below i _ ih =>
    rw [← h.root_up]
    exact ih (h.up_lt i hi)

theorem root_iterate (k i : ℕ) : root ((up parent)^[k] i) = root i := by
  induction k generalizing i with
  | zero => rfl
  | succ k ih => rw [Function.iterate_succ_apply, ih, h.root_up]

/-- Climbing comes to the root, in fewer turns than there are entries. -/
theorem exists_iterate {i : ℕ} (hi : i < parent.length) :
    ∃ k < parent.length, (up parent)^[k] i = root i := by
  obtain ⟨depth, hdepth⟩ := h.acyclic
  have hlt (k : ℕ) : (up parent)^[k] i < parent.length := by
    induction k with
    | zero => exact hi
    | succ k ih =>
      rw [Function.iterate_succ_apply']
      exact h.up_lt _ ih
  have hfixed {k : ℕ} (hk : up parent ((up parent)^[k] i) = (up parent)^[k] i) :
      (up parent)^[k] i = root i := by
    rw [← h.root_iterate k i, (h.up_eq_iff _).1 hk]
  by_contra hnone
  push Not at hnone
  -- No entry is visited twice, since the depth falls.
  have hfall (a d : ℕ) (had : a + d < parent.length) :
      depth ((up parent)^[a + (d + 1)] i) < depth ((up parent)^[a] i) := by
    induction d with
    | zero =>
      rw [Nat.zero_add, Function.iterate_succ_apply']
      exact hdepth _ fun hup => hnone a had (hfixed hup)
    | succ d ih =>
      refine lt_trans ?_ (ih (by omega))
      rw [← Nat.add_assoc a, Function.iterate_succ_apply']
      exact hdepth _ fun hup => hnone (a + (d + 1)) had (hfixed hup)
  let visit (k : Fin (parent.length + 1)) : Fin parent.length := ⟨(up parent)^[k] i, hlt k⟩
  obtain ⟨a, b, hab, hsame⟩ := Fintype.exists_ne_map_eq_of_card_lt visit (by simp)
  have hne {a b : Fin (parent.length + 1)} (hab : a < b) : visit a ≠ visit b := by
    intro hsame
    have hdepths := hfall a (b - a - 1) (by omega)
    rw [show (a : ℕ) + (b - a - 1 + 1) = b by omega] at hdepths
    exact hdepths.ne (congrArg depth (Fin.val_eq_of_eq hsame).symm)
  rcases lt_or_gt_of_ne hab with hab | hab
  · exact hne hab hsame
  · exact hne hab hsame.symm

/-- An entry may point at its root. -/
theorem compress (i : ℕ) : Forest (parent.set i (root i)) root := by
  by_cases hi : i < parent.length
  · have hup (j : ℕ) :
        up (parent.set i (root i)) j = if i = j then root j else up parent j := by
      split_ifs with hij
      · rw [← hij, up_set_self hi]
      · exact up_set_of_ne hij _
    refine ⟨fun j hj => ?_, fun j => ?_, fun j => ?_, ?_⟩
    · rw [List.length_set] at hj ⊢
      rw [hup]
      split_ifs
      · exact h.root_lt hj
      · exact h.up_lt j hj
    · rw [hup]
      split_ifs
      · exact h.root_root j
      · exact h.root_up j
    · rw [hup]
      split_ifs
      · rfl
      · exact h.up_eq_iff j
    · obtain ⟨depth, hdepth⟩ := h.acyclic
      have hle (j : ℕ) : depth (root j) ≤ depth j := by
        induction j using h.climb with
        | top j hj => rw [hj]
        | below j hj ih =>
          rw [h.root_up] at ih
          exact ih.trans (hdepth j hj).le
      refine ⟨depth, fun j hj => ?_⟩
      rw [hup] at hj ⊢
      split_ifs at hj ⊢ with hij
      · have hnot : up parent j ≠ j := fun hfixed => hj ((h.up_eq_iff j).1 hfixed)
        rw [← h.root_up]
        exact (hle _).trans_lt (hdepth j hnot)
      · exact hdepth j hj
  · rwa [List.set_eq_of_length_le (not_lt.1 hi)]

theorem link {a b : ℕ} (ha : root a < parent.length) (hb : root b < parent.length)
    (hab : root a ≠ root b) :
    Forest (parent.set (root a) (root b)) fun j => if root j = root a then root b else root j := by
  have hup (j : ℕ) : up (parent.set (root a) (root b)) j =
      if root a = j then root b else up parent j := by
    split_ifs with hj
    · rw [← hj, up_set_self ha]
    · exact up_set_of_ne hj _
  refine ⟨fun j hj => ?_, fun j => ?_, fun j => ?_, ?_⟩
  · rw [List.length_set] at hj ⊢
    rw [hup]
    split_ifs
    · exact hb
    · exact h.up_lt j hj
  · rw [hup]
    by_cases hj : root a = j
    · rw [if_pos hj, ← hj, h.root_root, h.root_root, if_pos rfl, ite_self]
    · rw [if_neg hj, h.root_up]
  · rw [hup]
    by_cases hj : root a = j
    · rw [if_pos hj, ← hj, h.root_root, if_pos rfl]
    · rw [if_neg hj]
      split_ifs with hroot
      · rw [h.up_eq_iff]
        refine iff_of_false (fun hj' => hj (hroot.symm.trans hj')) fun hj' => ?_
        rw [← hj', h.root_root] at hroot
        exact hab hroot.symm
      · exact h.up_eq_iff j
  · obtain ⟨depth, hdepth⟩ := h.acyclic
    refine ⟨fun j => depth j + if root j = root a then depth (root b) + 1 else 0, fun j hj => ?_⟩
    rw [hup] at hj ⊢
    dsimp only
    by_cases hja : root a = j
    · rw [if_pos hja, ← hja, h.root_root, h.root_root, if_pos rfl, if_neg hab.symm]
      omega
    · rw [if_neg hja] at hj ⊢
      rw [h.root_up]
      exact Nat.add_lt_add_right (hdepth j hj) _

end Forest

end Ontosyx.Lib.ParentForest
