import Mathlib.Algebra.BigOperators.Group.List.Basic
import Mathlib.Data.List.Induction
import Mathlib.Data.List.Nodup

/-!
# Sums by key

A map from keys to sums, filled by adding amounts one after another.

## Main results

* `value_tally` — the sum of a key is that of its amounts.
* `tally_perm` — the order of the amounts does not matter.
-/

namespace Ontosyx.Lib.Tally

open List Prod

variable {κ M : Type*} [DecidableEq κ] [AddCommMonoid M]

/-- `*sums.entry(key).or_insert(0) += amount`. -/
def add (key : κ) (amount : M) : List (κ × M) → List (κ × M)
  | [] => [(key, 0 + amount)]
  | (k, v) :: rest => if k = key then (k, v + amount) :: rest else (k, v) :: add key amount rest

/-- All amounts added under their keys. -/
def tally (xs : List (κ × M)) : List (κ × M) := xs.foldl (fun sums x => add x.1 x.2 sums) []

/-- `*sums.get(&key).unwrap_or(&0)`. -/
def value (key : κ) (sums : List (κ × M)) : M := (sums.lookup key).getD 0

variable {sums : List (κ × M)}

theorem mem_keys_add {key k : κ} {amount : M} :
    k ∈ (add key amount sums).map fst ↔ k = key ∨ k ∈ sums.map fst := by
  induction sums with
  | nil => simp [add]
  | cons entry sums ih =>
    rw [add]
    split
    · next heq =>
        rw [map_cons, map_cons, mem_cons, heq]
        simp
    · rw [map_cons, map_cons, mem_cons, mem_cons, ih]
      exact or_left_comm

theorem nodup_keys_add (h : (sums.map fst).Nodup) (key : κ) (amount : M) :
    ((add key amount sums).map fst).Nodup := by
  induction sums with
  | nil => simp [add]
  | cons entry sums ih =>
    rw [map_cons, nodup_cons] at h
    rw [add]
    split
    · exact nodup_cons.2 h
    · next hne =>
        rw [map_cons, nodup_cons, mem_keys_add]
        refine ⟨?_, ih h.2⟩
        intro hmem
        exact hmem.elim hne h.1

theorem value_add (key k : κ) (amount : M) (sums : List (κ × M)) :
    value k (add key amount sums) = value k sums + if k = key then amount else 0 := by
  induction sums with
  | nil =>
    by_cases h : k = key
    · simp [add, value, h]
    · simp [add, value, lookup_cons, h, beq_false_of_ne h]
  | cons entry sums ih =>
    obtain ⟨e, v⟩ := entry
    unfold value at ih ⊢
    rw [add]
    by_cases hk : k = e
    · subst hk
      by_cases hkey : k = key
      · simp [hkey]
      · simp [hkey]
    · by_cases hkey : e = key
      · subst hkey
        simp [lookup_cons, beq_false_of_ne hk, hk]
      · rw [if_neg hkey, lookup_cons, lookup_cons, beq_false_of_ne hk]
        exact ih

theorem tally_append_singleton (xs : List (κ × M)) (x : κ × M) :
    tally (xs ++ [x]) = add x.1 x.2 (tally xs) := by
  rw [tally, foldl_append]
  rfl

theorem mem_keys_tally {k : κ} {xs : List (κ × M)} :
    k ∈ (tally xs).map fst ↔ k ∈ xs.map fst := by
  induction xs using reverseRecOn with
  | nil => rfl
  | append_singleton xs x ih =>
    rw [tally_append_singleton, mem_keys_add, ih, map_append, mem_append,
      map_singleton, mem_singleton, or_comm]

theorem nodup_keys_tally (xs : List (κ × M)) : ((tally xs).map fst).Nodup := by
  induction xs using reverseRecOn with
  | nil => exact nodup_nil
  | append_singleton xs x ih =>
    rw [tally_append_singleton]
    exact nodup_keys_add ih x.1 x.2

/-- The sum of a key is that of its amounts. -/
theorem value_tally (k : κ) (xs : List (κ × M)) :
    value k (tally xs) = ((xs.filter (·.1 = k)).map snd).sum := by
  induction xs using reverseRecOn with
  | nil => rfl
  | append_singleton xs x ih =>
    rw [tally_append_singleton, value_add, ih, filter_append, map_append, sum_append]
    by_cases h : k = x.1
    · simp [h]
    · simp [h, Ne.symm h]

/-- The sums of some keys are those of the amounts under them. -/
theorem sum_filter_tally (counts : κ → Prop) [DecidablePred counts] (xs : List (κ × M)) :
    (((tally xs).filter (counts ·.1)).map snd).sum =
      ((xs.filter (counts ·.1)).map snd).sum := by
  have hadd (key : κ) (amount : M) (sums : List (κ × M)) :
      (((add key amount sums).filter (counts ·.1)).map snd).sum =
        ((sums.filter (counts ·.1)).map snd).sum + if counts key then amount else 0 := by
    induction sums with
    | nil => by_cases h : counts key <;> simp [add, h]
    | cons entry sums ih =>
      rw [add]
      split
      · next heq =>
          by_cases h : counts key
          · simp [heq, h, add_right_comm]
          · simp [heq, h]
      · by_cases h : counts entry.1
        · simp [h, ih, add_assoc]
        · simp [h, ih]
  induction xs using reverseRecOn with
  | nil => rfl
  | append_singleton xs x ih =>
    rw [tally_append_singleton, hadd, ih, filter_append, map_append, sum_append]
    by_cases h : counts x.1
    · simp [h]
    · simp [h]

/-- An entry holds the sum of its key. -/
theorem mem_iff (h : (sums.map fst).Nodup) {k : κ} {v : M} :
    (k, v) ∈ sums ↔ k ∈ sums.map fst ∧ value k sums = v := by
  induction sums with
  | nil => simp
  | cons entry sums ih =>
    obtain ⟨e, u⟩ := entry
    rw [map_cons, nodup_cons] at h
    unfold value at ih ⊢
    rw [mem_cons, map_cons, mem_cons, lookup_cons, ih h.2]
    by_cases hk : k = e
    · subst hk
      simp only [beq_self_eq_true, mk.injEq, true_and, true_or, Option.getD_some]
      constructor
      · intro hv
        cases hv with
        | inl heq => exact heq.symm
        | inr hrest => exact absurd hrest.1 h.1
      · intro heq
        exact .inl heq.symm
    · rw [beq_false_of_ne hk]
      simp [hk]

/-- Two maps with the same keys and sums hold the same entries. -/
theorem perm_of_value_eq {others : List (κ × M)} (h : (sums.map fst).Nodup)
    (h' : (others.map fst).Nodup)
    (hkeys : ∀ k, k ∈ sums.map fst ↔ k ∈ others.map fst)
    (hvalues : ∀ k, value k sums = value k others) : sums.Perm others := by
  rw [perm_ext_iff_of_nodup h.of_map h'.of_map]
  intro entry
  rw [mem_iff h, mem_iff h', hkeys, hvalues]

/-- The order of the amounts does not matter. -/
theorem tally_perm {xs ys : List (κ × M)} (h : xs.Perm ys) : (tally xs).Perm (tally ys) := by
  apply perm_of_value_eq (nodup_keys_tally xs) (nodup_keys_tally ys)
  · intro k
    rw [mem_keys_tally, mem_keys_tally]
    exact (h.map fst).mem_iff
  · intro k
    rw [value_tally, value_tally]
    exact ((h.filter _).map snd).sum_eq

/-- Nor does the order of the entries for what a key holds. -/
theorem value_perm {others : List (κ × M)} (h : (sums.map fst).Nodup)
    (hperm : sums.Perm others) (k : κ) : value k sums = value k others := by
  have h' : (others.map fst).Nodup := (hperm.map fst).nodup_iff.1 h
  by_cases hk : k ∈ sums.map fst
  · have hmem : (k, value k sums) ∈ others := hperm.mem_iff.1 ((mem_iff h).2 ⟨hk, rfl⟩)
    exact ((mem_iff h').1 hmem).2.symm
  · have hk' : k ∉ others.map fst := fun hmem => hk ((hperm.map fst).mem_iff.2 hmem)
    have hnone {entries : List (κ × M)} (hno : k ∉ entries.map fst) :
        value k entries = 0 := by
      rw [value, lookup_eq_none_iff.2]
      · rfl
      · intro entry hentry
        rw [bne_iff_ne]
        rintro rfl
        exact hno (mem_map_of_mem hentry)
    rw [hnone hk, hnone hk']

end Ontosyx.Lib.Tally
