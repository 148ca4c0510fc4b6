import Mathlib.Data.Finset.Card

/-!
# Reference counts

A counter kept beside a shared object says how many holders the object has.  What it
says stays true when a holder comes and when one goes, and at zero there is none.
-/

namespace Ontosyx.Lib

variable {ι : Type*} {holds holds' : ι → Prop} {n : Nat}

/-- Exactly `n` hold. -/
def Counts (holds : ι → Prop) (n : Nat) : Prop :=
  ∃ holders : Finset ι, (∀ i, i ∈ holders ↔ holds i) ∧ holders.card = n

theorem Counts.congr (h : Counts holds n) (heq : ∀ i, holds' i ↔ holds i) : Counts holds' n := by
  obtain ⟨holders, hmem, hcard⟩ := h
  exact ⟨holders, fun i => (hmem i).trans (heq i).symm, hcard⟩

theorem counts_zero_iff : Counts holds 0 ↔ ∀ i, ¬holds i := by
  constructor
  · rintro ⟨holders, hmem, hcard⟩ i hi
    rw [Finset.card_eq_zero.1 hcard] at hmem
    exact absurd ((hmem i).2 hi) (Finset.notMem_empty i)
  · intro h
    exact ⟨∅, fun i => ⟨fun hi => absurd hi (Finset.notMem_empty i), fun hi => absurd hi (h i)⟩,
      Finset.card_empty⟩

theorem Counts.clone [DecidableEq ι] {i : ι} (h : Counts holds n) (hi : ¬holds i)
    (h' : ∀ j, holds' j ↔ j = i ∨ holds j) : Counts holds' (n + 1) := by
  obtain ⟨holders, hmem, hcard⟩ := h
  refine ⟨insert i holders, fun j => ?_, ?_⟩
  · rw [Finset.mem_insert, hmem, h']
  · rw [Finset.card_insert_of_notMem fun hin => hi ((hmem i).1 hin), hcard]

theorem Counts.drop [DecidableEq ι] {i : ι} (h : Counts holds n) (hi : holds i)
    (h' : ∀ j, holds' j ↔ j ≠ i ∧ holds j) : 0 < n ∧ Counts holds' (n - 1) := by
  obtain ⟨holders, hmem, hcard⟩ := h
  have hin : i ∈ holders := (hmem i).2 hi
  refine ⟨?_, holders.erase i, fun j => ?_, ?_⟩
  · rw [← hcard]
    exact Finset.card_pos.2 ⟨i, hin⟩
  · rw [Finset.mem_erase, hmem, h']
  · rw [Finset.card_erase_of_mem hin, hcard]

end Ontosyx.Lib
