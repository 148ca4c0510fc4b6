import Mathlib.Data.List.Perm.Subperm

/-!
# Saturation

A pass adds entries to a list, and passes are made until one adds nothing or the
passes run out.  Where all that can ever be added fits into a list shorter than the
number of passes, the passes do not run out.

## Main results

* `saturate_induct` — what a pass preserves holds in the end.
* `pass_saturate` — in the end a pass adds nothing.
-/

namespace Ontosyx.Lib.Saturate

variable {α : Type*} (pass : List α → List α)

/-- Passes until one adds nothing. -/
def saturate : Nat → List α → List α
  | 0, kept => kept
  | fuel + 1, kept =>
    if (pass kept).length = kept.length then pass kept else saturate fuel (pass kept)

variable {pass}

/-- What a pass preserves holds in the end. -/
theorem saturate_induct {P : List α → Prop} (hpass : ∀ kept, P kept → P (pass kept))
    (fuel : Nat) {kept : List α} (h : P kept) : P (saturate pass fuel kept) := by
  induction fuel generalizing kept with
  | zero => exact h
  | succ fuel ih =>
    unfold saturate
    split
    · exact hpass kept h
    · exact ih (hpass kept h)

/-- In the end a pass adds nothing: each pass but the last made the list longer, and a list
without repetitions stays within `bound`. -/
theorem pass_saturate {bound : List α} (hgrow : ∀ kept, kept <:+ pass kept)
    (hnodup : ∀ kept, kept.Nodup → (pass kept).Nodup)
    (hbound : ∀ kept, kept ⊆ bound → pass kept ⊆ bound) {fuel : Nat} {kept : List α}
    (hkept : kept.Nodup) (hsub : kept ⊆ bound) (hfuel : bound.length < fuel + kept.length) :
    pass (saturate pass fuel kept) = saturate pass fuel kept := by
  induction fuel generalizing kept with
  | zero =>
    have hle := (hkept.subperm hsub).length_le
    omega
  | succ fuel ih =>
    unfold saturate
    have hsuffix := hgrow kept
    split
    · rename_i hlen
      have heq : kept = pass kept := hsuffix.eq_of_length hlen.symm
      rw [← heq, ← heq]
    · rename_i hlen
      apply ih (hnodup kept hkept) (hbound kept hsub)
      have hle := hsuffix.length_le
      omega

end Ontosyx.Lib.Saturate
