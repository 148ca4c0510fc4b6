import Mathlib.Data.List.Forall2

/-!
# Checked computations

A computation that may fail succeeds exactly when each of its steps does.  The
rules here take a successful run of a sequence, of a loop of checks and of a
checked map apart into the successful runs of their steps.

## Main results

* `forM_eq_ok_iff` — a loop of checks passes when the check of every entry does.
* `forall₂_of_mapM` — a checked map relates its input to its output, entry
  by entry.
-/

namespace Ontosyx.Lib.Checked

open List

variable {ε α β : Type}

variable {f : α → Except ε β} {R : α → β → Prop}

/-- Two steps in a row succeed when each does. -/
theorem bind_eq_ok_iff {x : Except ε α} {b : β} :
    (x >>= f) = .ok b ↔ ∃ a, x = .ok a ∧ f a = .ok b := by
  cases x with
  | error e => simp [bind, Except.bind]
  | ok a => simp [bind, Except.bind]

/-- The same for a check that returns nothing. -/
theorem seq_eq_ok_iff {x : Except ε Unit} {f : Unit → Except ε β} {b : β} :
    (x >>= f) = .ok b ↔ x = .ok () ∧ f () = .ok b := by
  rw [bind_eq_ok_iff]
  constructor
  · intro h
    obtain ⟨u, hx, hf⟩ := h
    exact ⟨hx, hf⟩
  · intro h
    exact ⟨(), h⟩

theorem pure_eq_ok_iff {a b : α} : (pure a : Except ε α) = .ok b ↔ a = b := by
  simp [pure, Except.pure]

variable {xs : List α}

/-- A loop of checks passes when the check of every entry does. -/
theorem forM_eq_ok_iff {f : α → Except ε Unit} : xs.forM f = .ok () ↔ ∀ x ∈ xs, f x = .ok () := by
  induction xs with
  | nil => simp [pure, Except.pure]
  | cons x xs ih =>
    rw [forM_eq_forM] at ih
    rw [forM_eq_forM, forM_cons, seq_eq_ok_iff, forall_mem_cons, ← ih]

variable {ys : List β}

/-- A checked map relates its input to its output, entry by entry. -/
theorem forall₂_of_mapM (h : xs.mapM f = .ok ys) : List.Forall₂
    (fun x y => f x = .ok y) xs ys := by
  induction xs generalizing ys with
  | nil =>
    rw [mapM_nil, pure_eq_ok_iff] at h
    rw [← h]
    exact .nil
  | cons x xs ih =>
    rw [mapM_cons, bind_eq_ok_iff] at h
    obtain ⟨y, hy, h⟩ := h
    rw [bind_eq_ok_iff] at h
    obtain ⟨rest, hrest, h⟩ := h
    rw [pure_eq_ok_iff] at h
    rw [← h]
    exact .cons hy (ih hrest)

/-- A checked map succeeds with what its entries come to. -/
theorem mapM_eq_ok_iff : xs.mapM f = .ok ys ↔ List.Forall₂ (fun x y => f x = .ok y) xs ys := by
  refine ⟨forall₂_of_mapM, fun h => ?_⟩
  induction h with
  | nil => rfl
  | cons hy _ ih =>
    rw [mapM_cons, bind_eq_ok_iff]
    exact ⟨_, hy, bind_eq_ok_iff.2 ⟨_, ih, rfl⟩⟩

/-- Entries can be related to a list when each is related to something. -/
theorem exists_forall₂_iff : (∃ ys, List.Forall₂ R xs ys) ↔ ∀ x ∈ xs, ∃ y, R x y := by
  induction xs with
  | nil => simp
  | cons x xs ih =>
    rw [forall_mem_cons, ← ih]
    constructor
    · intro ⟨ys, h⟩
      cases h with
      | cons hy hys => exact ⟨⟨_, hy⟩, _, hys⟩
    · intro ⟨⟨y, hy⟩, ys, hys⟩
      exact ⟨y :: ys, .cons hy hys⟩

/-- Of related lists, an entry on the left has one on the right. -/
theorem exists_of_mem_left (h : List.Forall₂ R xs ys) {x : α} (hx : x ∈ xs) : ∃ y ∈ ys, R x y := by
  obtain ⟨i, rfl⟩ := mem_iff_get.1 hx
  exact ⟨_, get_mem ys _, h.get i.2 (h.length_eq ▸ i.2)⟩

theorem exists_of_mem_right (h : List.Forall₂ R xs ys) {y : β} (hy : y ∈ ys) : ∃ x ∈ xs, R x y :=
  exists_of_mem_left h.flip hy

end Ontosyx.Lib.Checked
