import Mathlib.Data.List.Sort

/-!
# Canonical texts

Where a delimiter stands behind every part of a text and in none, the parts can be read off
again.  Parts in an order without ties have one text for all their permutations.

## Main results

* `eq_of_append` — one part, up to its delimiter.
* `forall₂_of_flatMap` — a sequence of texts, up to what none of them begins.
* `mergeSort_eq_of_perm` — permutations are sorted alike.
-/

namespace Ontosyx.Lib.Delimited

open List

variable {α β γ : Type}

/-- A text without delimiters ends before the first one. -/
theorem eq_of_append {P : α → Prop} {a b u v : List α} (ha : ∀ c ∈ a, ¬P c) (hb : ∀ c ∈ b, ¬P c)
    (hu : ∀ c ∈ u.head?, P c) (hv : ∀ c ∈ v.head?, P c) (h : a ++ u = b ++ v) : a = b ∧ u = v := by
  rcases append_eq_append_iff.1 h with ⟨l, hl, hr⟩ | ⟨l, hl, hr⟩
  · cases l with
    | nil => simp_all
    | cons c l => exact absurd (hu c (by simp [hr])) (hb c (by simp [hl]))
  · cases l with
    | nil => simp_all
    | cons c l => exact absurd (hv c (by simp [hr])) (ha c (by simp [hl]))

/-- Texts behind one another are read back one by one, up to what none of them begins. -/
theorem forall₂_of_flatMap {f : β → List α} {R : β → β → Prop} {xs ys : List β}
    {u v : List α} (hread : ∀ x ∈ xs, ∀ y ∈ ys, ∀ w w', f x ++ w = f y ++ w' → R x y ∧ w = w')
    (hu : ∀ y ∈ ys, ∀ w, f y ++ w ≠ u) (hv : ∀ x ∈ xs, ∀ w, f x ++ w ≠ v)
    (h : xs.flatMap f ++ u = ys.flatMap f ++ v) : List.Forall₂ R xs ys ∧ u = v := by
  induction xs generalizing ys with
  | nil =>
    cases ys with
    | nil => exact ⟨.nil, h⟩
    | cons y ys =>
      rw [flatMap_cons, append_assoc] at h
      exact absurd h.symm (hu y mem_cons_self _)
  | cons x xs ih =>
    cases ys with
    | nil =>
      rw [flatMap_cons, append_assoc] at h
      exact absurd h (hv x mem_cons_self _)
    | cons y ys =>
      rw [flatMap_cons, flatMap_cons, append_assoc, append_assoc] at h
      obtain ⟨hxy, hrest⟩ := hread x mem_cons_self y mem_cons_self _ _ h
      obtain ⟨hxs, huv⟩ := ih
        (fun x hx y hy => hread x (mem_cons_of_mem _ hx) y (mem_cons_of_mem _ hy))
        (fun y hy => hu y (mem_cons_of_mem _ hy))
        (fun x hx => hv x (mem_cons_of_mem _ hx)) hrest
      exact ⟨.cons hxy hxs, huv⟩

/-- Related lists have one image where related entries have. -/
theorem map_eq_of_forall₂ {R : β → β → Prop} {f : β → γ} {xs ys : List β}
    (h : List.Forall₂ R xs ys) (hf : ∀ x ∈ xs, ∀ y, R x y → f x = f y) : xs.map f = ys.map f := by
  induction h with
  | nil => rfl
  | cons hxy _ ih =>
    rw [map_cons, map_cons, hf _ mem_cons_self _ hxy, ih fun x hx => hf x (mem_cons_of_mem _ hx)]

end Ontosyx.Lib.Delimited

namespace Ontosyx.Lib.Sorted

variable {α : Type} {le : α → α → Bool}

/-- Permutations are sorted alike by an order that ties no two of their entries. -/
theorem mergeSort_eq_of_perm (htrans : ∀ a b c, le a b = true → le b c = true → le a c = true)
    (htotal : ∀ a b, (le a b || le b a) = true) {xs ys : List α}
    (hanti : ∀ a ∈ xs, ∀ b ∈ xs, le a b = true → le b a = true → a = b) (h : xs.Perm ys) :
    xs.mergeSort le = ys.mergeSort le := by
  have hperm : (xs.mergeSort le).Perm (ys.mergeSort le) :=
    ((List.mergeSort_perm xs le).trans h).trans (List.mergeSort_perm ys le).symm
  refine hperm.eq_of_pairwise (fun a b ha hb => ?_)
    (List.pairwise_mergeSort htrans htotal xs) (List.pairwise_mergeSort htrans htotal ys)
  exact hanti a (List.mem_mergeSort.1 ha) b (h.mem_iff.2 (List.mem_mergeSort.1 hb))

end Ontosyx.Lib.Sorted
