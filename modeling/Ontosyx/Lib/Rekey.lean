import Ontosyx.Lib.Keyed

/-!
# Giving entries known keys

A list of entries is rekeyed against a set of known keys: an entry whose key is
known keeps it, any other takes the known key an alternative finds for it, and
keeps its own when there is none.  A key held before is held afterwards exactly
when its entry did not trade it in (`Trades`), whatever the other entries do.

## Main results

* `mem_map_rekey_iff` — which keys survive.
* `eq_of_rekey_eq_key` — when the new keys are distinct, the entry that holds a
  surviving key is the one that held it before.
-/

namespace Ontosyx.Lib.Rekey

variable {α κ : Type} [DecidableEq κ] (key : α → κ) (known : List κ) (alt : α → Option κ)

/-- The new key of an entry. -/
def rekey (x : α) : κ := if key x ∈ known then key x else (alt x).getD (key x)

/-- The entry gives its key up for a known one. -/
def Trades (x : α) : Prop := key x ∉ known ∧ ∃ k, alt x = some k

variable {x : α}

theorem rekey_eq_key (hx : ¬ Trades key known alt x) : rekey key known alt x = key x := by
  unfold rekey
  by_cases hk : key x ∈ known
  · rw [if_pos hk]
  · have hnone : alt x = none := by
      rw [Option.eq_none_iff_forall_ne_some]
      intro k hak
      exact hx ⟨hk, k, hak⟩
    rw [if_neg hk, hnone, Option.getD_none]

theorem rekey_mem_known (halt : ∀ x k, alt x = some k → k ∈ known) (hx : Trades key known alt x) :
    rekey key known alt x ∈ known := by
  obtain ⟨hk, k, hak⟩ := hx
  rw [rekey, if_neg hk, hak]
  exact halt x k hak

variable {key known alt}

/-- An entry takes a known key when it held it, or when it held no known key and is given it. -/
theorem rekey_eq_iff {k : κ} (hk : k ∈ known) :
    rekey key known alt x = k ↔ key x = k ∨ key x ∉ known ∧ alt x = some k := by
  by_cases hx : key x ∈ known
  · rw [rekey, if_pos hx]
    exact ⟨Or.inl, fun h => h.elim id fun h => absurd hx h.1⟩
  · have hne : key x ≠ k := fun h => hx (h ▸ hk)
    rw [rekey, if_neg hx]
    cases alt x with
    | none => simp [hne]
    | some y => simp [hne, hx]

/-- A key survives exactly when its entry does not trade it in: an entry that
does leaves a key that is not known, and takes one that is. -/
theorem mem_map_rekey_iff (halt : ∀ x k, alt x = some k → k ∈ known) {xs : List α}
    (hnd : (xs.map key).Nodup) (hx : x ∈ xs) :
    key x ∈ xs.map (rekey key known alt) ↔ ¬ Trades key known alt x := by
  constructor
  · intro hmem htr
    obtain ⟨y, hy, hyx⟩ := List.mem_map.1 hmem
    by_cases hty : Trades key known alt y
    · have hknown := rekey_mem_known key known alt halt hty
      rw [hyx] at hknown
      exact htr.1 hknown
    · rw [rekey_eq_key key known alt hty] at hyx
      have heq : y = x := Keyed.eq_of_key_eq key hnd hy hx hyx
      exact hty (heq ▸ htr)
  · intro hkeep
    exact List.mem_map.2 ⟨x, hx, rekey_eq_key key known alt hkeep⟩

/-- With distinct new keys, a surviving key is held by the entry that held it. -/
theorem eq_of_rekey_eq_key {xs : List α} (hnd : (xs.map (rekey key known alt)).Nodup) {y : α}
    (hx : x ∈ xs) (hy : y ∈ xs) (hkeep : ¬ Trades key known alt x)
    (h : rekey key known alt y = key x) : y = x := by
  have hyx : rekey key known alt y = rekey key known alt x := by
    rw [h, rekey_eq_key key known alt hkeep]
  exact Keyed.eq_of_key_eq (rekey key known alt) hnd hy hx hyx

end Ontosyx.Lib.Rekey
