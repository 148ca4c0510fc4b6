import Mathlib.Data.List.AList
import Mathlib.Data.List.Sort

/-!
# Stamped maps

Finite maps whose values carry a stamp from a linear order, as a cache that
remembers the moment each of its entries came in.  A sweep keeps the entries
past a threshold, so that whatever it drops carries a smaller stamp than
whatever it keeps; with a threshold among the stamps held it drops something.

## Main results

* `lookup_retain_eq_some` — what a sweep keeps.
* `stamp_lt_of_swept` — what it drops is older than what it keeps.
* `length_retain_lt` — a sweep makes room.
-/

namespace Ontosyx.Lib.Stamped

variable {κ σ τ : Type} [DecidableEq κ] [LinearOrder τ] (stamp : σ → τ)

/-- The stamps held, smallest first. -/
def stamps (m : AList fun _ : κ => σ) : List τ :=
  (m.entries.map fun e => stamp e.2).insertionSort (· ≤ ·)

/-- The entries whose stamp is past the threshold. -/
def retain (threshold : τ) (m : AList fun _ : κ => σ) : AList fun _ : κ => σ :=
  ⟨m.entries.filter fun e => threshold < stamp e.2, m.nodupKeys.sublist List.filter_sublist⟩

variable {stamp} {m : AList fun _ : κ => σ}

omit [DecidableEq κ] in
@[simp] theorem length_stamps : (stamps stamp m).length = m.entries.length := by
  simp [stamps]

omit [DecidableEq κ] in
theorem mem_stamps {t : τ} : t ∈ stamps stamp m ↔ ∃ e ∈ m.entries, stamp e.2 = t := by
  simp [stamps]

theorem lookup_retain_eq_some {t : τ} {k : κ} {v : σ} :
    (retain stamp t m).lookup k = some v ↔ m.lookup k = some v ∧ t < stamp v := by
  rw [← Option.mem_def, AList.mem_lookup_iff, ← Option.mem_def, AList.mem_lookup_iff]
  simp [retain]

/-- What a sweep drops carries a smaller stamp than what it keeps. -/
theorem stamp_lt_of_swept {t : τ} {k k' : κ} {v v' : σ} (hv : m.lookup k = some v)
    (hdrop : (retain stamp t m).lookup k = none) (hkeep : (retain stamp t m).lookup k' = some v') :
    stamp v < stamp v' := by
  have hlt := (lookup_retain_eq_some.1 hkeep).2
  by_contra hle
  have hpast : t < stamp v := lt_of_lt_of_le hlt (not_lt.1 hle)
  rw [lookup_retain_eq_some.2 ⟨hv, hpast⟩] at hdrop
  cases hdrop

omit [DecidableEq κ] in
/-- A sweep at a stamp the map holds drops that entry at least. -/
theorem length_retain_lt {t : τ} (ht : t ∈ stamps stamp m) :
    (retain stamp t m).entries.length < m.entries.length := by
  obtain ⟨e, he, heq⟩ := mem_stamps.1 ht
  apply List.length_filter_lt_length_iff_exists.2
  exact ⟨e, he, by simp [heq]⟩

end Ontosyx.Lib.Stamped
