import Ontosyx.Lib.Keyed

/-!
# Splices of keyed lists

A splice replaces one stretch of a list by another.  Entries are compared by
key, so on lists with distinct keys the entries a splice adds, drops or alters
are those of the two stretches: what stands around them is out of the picture.

## Main results

* `Splice.changes_eq` — the number of changed entries is that of the stretch.
* `Splice.exists_pair_iff` — a pair of differing entries under one key lies
  within the stretch.
-/

namespace Ontosyx.Lib.Splices

open List Lib.Keyed

variable {α κ : Type} [DecidableEq κ] [DecidableEq α] (key : α → κ)

/-- Entries of `ys` under a key of `xs` that are not entries of `xs`. -/
def altered (xs ys : List α) : List α := ys.filter fun y => key y ∈ xs.map key ∧ y ∉ xs

/-- Number of entries added to, dropped from or altered in `xs` by `ys`. -/
def changes (xs ys : List α) : Nat :=
  (unmatched key ys (xs.map key)).length + (unmatched key xs (ys.map key)).length +
    (altered key xs ys).length

/-- Nothing dropped: the changes are the entries of `ys` that `xs` does not have
as they are. -/
theorem changes_of_kept {xs ys : List α} (h : unmatched key xs (ys.map key) = []) :
    changes key xs ys = (ys.filter fun y => y ∉ xs).length := by
  have hsplit (zs : List α) :
      (unmatched key zs (xs.map key)).length +
        (zs.filter fun y => key y ∈ xs.map key ∧ y ∉ xs).length =
      (zs.filter fun y => y ∉ xs).length := by
    induction zs with
    | nil => rfl
    | cons z zs ih =>
      by_cases hkey : key z ∈ xs.map key
      · by_cases hz : z ∈ xs
        · simp only [unmatched, filter_cons, hkey, hz] at ih ⊢
          simpa only [not_true_eq_false, decide_false, Bool.false_eq_true, if_false,
            and_false] using ih
        · simp only [unmatched, filter_cons, hkey, hz] at ih ⊢
          simp only [not_true_eq_false, decide_false, not_false_eq_true, and_self, decide_true,
            if_true, length_cons]
          simp only [Bool.false_eq_true, if_false]
          omega
      · have hz : z ∉ xs := fun hz => hkey (mem_map_of_mem hz)
        simp only [unmatched, filter_cons, hkey, hz] at ih ⊢
        simp only [not_false_eq_true, decide_true, if_true, length_cons, false_and,
          decide_false, Bool.false_eq_true, if_false]
        omega
  rw [changes, h, altered]
  have := hsplit ys
  simp only [length_nil]
  omega

/-- `ys` is `xs` with the stretch `a` replaced by `b`, and the keys of both are
distinct. -/
structure Splice (xs ys a b : List α) : Prop where
  nodup : (xs.map key).Nodup
  nodup' : (ys.map key).Nodup
  around : ∃ pre post, xs = pre ++ a ++ post ∧ ys = pre ++ b ++ post

namespace Splice

variable {key} {xs ys a b : List α}

section

variable (h : Splice key xs ys a b)
include h

omit [DecidableEq κ] [DecidableEq α] in
theorem symm : Splice key ys xs b a := by
  obtain ⟨pre, post, hxs, hys⟩ := h.around
  exact ⟨h.nodup', h.nodup, pre, post, hys, hxs⟩

omit h in
omit [DecidableEq κ] [DecidableEq α] in
/-- Equal lists, and nothing in the stretch. -/
theorem refl (h : (xs.map key).Nodup) : Splice key xs xs [] [] :=
  ⟨h, h, xs, [], by simp, by simp⟩

omit [DecidableEq κ] [DecidableEq α] in
theorem within {a' b' : List α}
    (hin : ∃ pre post, a = pre ++ a' ++ post ∧ b = pre ++ b' ++ post) : Splice key xs ys a' b' := by
  obtain ⟨pre, post, rfl, rfl⟩ := h.around
  obtain ⟨pre', post', rfl, rfl⟩ := hin
  exact ⟨h.nodup, h.nodup', pre ++ pre', post' ++ post, by simp, by simp⟩

omit [DecidableEq κ] [DecidableEq α] in
/-- Entries of the two lists under one key are the same entry, or lie in the
stretches. -/
theorem eq_or_mem {x y : α} (hx : x ∈ xs) (hy : y ∈ ys)
    (hkey : key y = key x) : x = y ∨ (x ∈ a ∧ y ∈ b) := by
  have hnd := h.nodup
  have hnd' := h.nodup'
  obtain ⟨pre, post, rfl, rfl⟩ := h.around
  by_cases hya : y ∈ pre ++ a ++ post
  · exact .inl (inj_on_of_nodup_map hnd hx hya hkey.symm)
  · by_cases hxb : x ∈ pre ++ b ++ post
    · exact .inl (inj_on_of_nodup_map hnd' hxb hy hkey.symm)
    · right
      simp only [mem_append, not_or] at hx hy hya hxb
      tauto

omit [DecidableEq α] in
/-- A key the stretch drops is no key of the new list. -/
theorem unmatched_eq : unmatched key xs (ys.map key) = unmatched key a (b.map key) := by
  obtain ⟨pre, post, rfl, rfl⟩ := h.around
  have hmem (x : α) (hx : x ∈ a) :
      key x ∈ (pre ++ b ++ post).map key ↔ key x ∈ b.map key := by
    constructor
    · intro hk
      obtain ⟨y, hy, hkey⟩ := mem_map.1 hk
      rcases h.eq_or_mem (by simp [hx]) hy hkey with rfl | ⟨-, hyb⟩
      · by_contra hnot
        have hnd := h.nodup
        have hxb : x ∉ b := fun hxb => hnot (mem_map_of_mem hxb)
        simp only [mem_append] at hy
        simp only [map_append, nodup_append, mem_append, mem_map] at hnd
        rcases hy with (hy | hy) | hy
        · exact hnd.1.2.2 _ ⟨x, hy, rfl⟩ _ ⟨x, hx, rfl⟩ rfl
        · exact hxb hy
        · exact hnd.2.2 _ (.inr ⟨x, hx, rfl⟩) _ ⟨x, hy, rfl⟩ rfl
      · exact hkey ▸ mem_map_of_mem hyb
    · intro hk
      obtain ⟨y, hy, hkey⟩ := mem_map.1 hk
      exact mem_map.2 ⟨y, by simp [hy], hkey⟩
  have hkept (c : List α) (hc : c ⊆ pre ++ b ++ post) :
      c.filter (fun x => key x ∉ (pre ++ b ++ post).map key) = [] := by
    refine filter_eq_nil_iff.2 fun x hx => ?_
    rw [decide_eq_true_eq, not_not]
    exact mem_map_of_mem (hc hx)
  unfold unmatched
  rw [filter_append, filter_append, hkept pre (fun x hx => by simp [hx]),
    hkept post (fun x hx => by simp [hx]), nil_append, append_nil]
  exact filter_congr fun x hx => decide_eq_decide.2 (not_congr (hmem x hx))

theorem altered_eq : altered key xs ys = altered key a b := by
  have hsymm := h.symm
  obtain ⟨pre, post, rfl, rfl⟩ := h.around
  have hkept (c : List α) (hc : c ⊆ pre ++ a ++ post) :
      c.filter (fun y => key y ∈ (pre ++ a ++ post).map key ∧ y ∉ pre ++ a ++ post) = [] := by
    refine filter_eq_nil_iff.2 fun y hy => ?_
    simp only [decide_eq_true_eq, not_and, not_not]
    exact fun _ => hc hy
  unfold altered
  rw [filter_append, filter_append, hkept pre (fun x hx => by simp [hx]),
    hkept post (fun x hx => by simp [hx]), nil_append, append_nil]
  refine filter_congr fun y hy => ?_
  have hy' : y ∈ pre ++ b ++ post := by simp [hy]
  have hdrop : key y ∈ (pre ++ a ++ post).map key ↔ key y ∈ a.map key := by
    have := congrArg (y ∈ ·) hsymm.unmatched_eq
    simp only [mem_unmatched, hy, hy', true_and, eq_iff_iff] at this
    exact not_iff_not.1 this
  refine decide_eq_decide.2 ((and_congr_left' hdrop).trans (and_congr_right fun hk =>
    not_congr ⟨fun hmem => ?_, fun hmem => ?_⟩))
  · obtain ⟨x, hx, hkey⟩ := mem_map.1 hk
    have hxy : x = y := inj_on_of_nodup_map h.nodup (by simp [hx]) hmem hkey
    exact hxy ▸ hx
  · simp [hmem]

/-- The number of changed entries is that of the stretch. -/
theorem changes_eq : changes key xs ys = changes key a b := by
  rw [changes, changes, h.unmatched_eq, h.symm.unmatched_eq, h.altered_eq]

omit [DecidableEq κ] [DecidableEq α] in
/-- A pair of differing entries under one key lies within the stretch. -/
theorem exists_pair_iff {R : α → α → Prop} (hirrefl : ∀ x, ¬R x x) :
    (∃ x ∈ xs, ∃ y ∈ ys, key y = key x ∧ R x y) ↔ ∃ x ∈ a, ∃ y ∈ b, key y = key x ∧ R x y := by
  constructor
  · rintro ⟨x, hx, y, hy, hkey, hr⟩
    rcases h.eq_or_mem hx hy hkey with rfl | ⟨hxa, hyb⟩
    · exact absurd hr (hirrefl x)
    · exact ⟨x, hxa, y, hyb, hkey, hr⟩
  · rintro ⟨x, hx, y, hy, hkey, hr⟩
    obtain ⟨pre, post, rfl, rfl⟩ := h.around
    exact ⟨x, by simp [hx], y, by simp [hy], hkey, hr⟩

end

end Splice

end Ontosyx.Lib.Splices
