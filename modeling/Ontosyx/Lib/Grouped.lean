import Mathlib.Data.List.Induction
import Ontosyx.Lib.Keyed

/-!
# Grouping by key

A map from keys to lists, filled by pushing entries one after another.  The
groups stand in the order in which their keys first came.

## Main results

* `groupAt_gather` — a group holds the entries of its key, in their order.
* `nodup_keys_gather` — one group for each key.
-/

namespace Ontosyx.Lib.Grouped

open List Lib.Keyed Prod Or

variable {κ α β : Type} [DecidableEq κ]

/-- `map.entry(key).or_default().push(x)`. -/
def push (key : κ) (x : α) : List (κ × List α) → List (κ × List α)
  | [] => [(key, [x])]
  | (k, group) :: rest =>
    if k = key then (k, group ++ [x]) :: rest else (k, group) :: push key x rest

def gather (key : β → κ) (value : β → α) (xs : List β) : List (κ × List α) :=
  xs.foldl (fun groups x => push (key x) (value x) groups) []

/-- The group of a key, empty where there is none. -/
def groupAt (key : κ) (groups : List (κ × List α)) : List α :=
  ((first fst key groups).map (·.2)).getD []

variable {groups : List (κ × List α)} {entry : κ × List α}

theorem push_cons {key : κ} {x : α} : push key x (entry :: groups) =
    if entry.1 = key then (entry.1, entry.2 ++ [x]) :: groups
    else (entry.1, entry.2) :: push key x groups := rfl

theorem mem_keys_push {key k : κ} {x : α} :
    k ∈ (push key x groups).map fst ↔ k = key ∨ k ∈ groups.map fst := by
  induction groups with
  | nil => exact mem_singleton.trans (by simp)
  | cons entry groups ih =>
    rw [push_cons]
    split
    · next heq =>
        rw [map_cons, map_cons, mem_cons, heq]
        simp
    · rw [map_cons, map_cons, mem_cons, mem_cons, ih]
      exact or_left_comm

theorem nodup_keys_push (h : (groups.map fst).Nodup) (key : κ) (x : α) :
    ((push key x groups).map fst).Nodup := by
  induction groups with
  | nil => exact nodup_singleton _
  | cons entry groups ih =>
    rw [map_cons, nodup_cons] at h
    rw [push_cons]
    split
    · exact nodup_cons.2 h
    · next hne =>
        rw [map_cons, nodup_cons, mem_keys_push]
        exact ⟨fun hmem => hmem.elim hne h.1, ih h.2⟩

theorem push_perm (key : κ) (x : α) (groups : List (κ × List α)) :
    ((push key x groups).flatMap (·.2)).Perm (groups.flatMap (·.2) ++ [x]) := by
  induction groups with
  | nil => exact .refl _
  | cons entry groups ih =>
    rw [push_cons]
    split
    · simp only [flatMap_cons, append_assoc]
      exact (perm_append_comm).append_left _
    · simp only [flatMap_cons, append_assoc]
      exact ih.append_left _

/-- An entry of a group after a push was there before or is the one pushed. -/
theorem mem_of_mem_push {key : κ} {x : α} (hentry : entry ∈ push key x groups) {y : α}
    (hy : y ∈ entry.2) : y = x ∧ entry.1 = key ∨ ∃ old ∈ groups, old.1 = entry.1 ∧ y ∈ old.2 := by
  induction groups with
  | nil =>
    obtain rfl := mem_singleton.1 hentry
    exact inl ⟨mem_singleton.1 hy, rfl⟩
  | cons head groups ih =>
    rw [push_cons] at hentry
    split at hentry
    · next heq =>
        rcases mem_cons.1 hentry with rfl | hrest
        · rcases mem_append.1 hy with hold | hnew
          · exact inr ⟨head, .head _, rfl, hold⟩
          · exact inl ⟨mem_singleton.1 hnew, heq⟩
        · exact inr ⟨entry, .tail _ hrest, rfl, hy⟩
    · rcases mem_cons.1 hentry with rfl | hrest
      · exact inr ⟨head, .head _, rfl, hy⟩
      · rcases ih hrest with hnew | ⟨old, hold, hkey, hmem⟩
        · exact inl hnew
        · exact inr ⟨old, .tail _ hold, hkey, hmem⟩

theorem groupAt_push (key k : κ) (x : α) (groups : List (κ × List α)) :
    groupAt k (push key x groups) =
      if key = k then groupAt k groups ++ [x] else groupAt k groups := by
  induction groups with
  | nil =>
    by_cases hk : key = k
    · simp [push, groupAt, first, hk]
    · simp [push, groupAt, first, hk]
  | cons entry groups ih =>
    rw [push_cons]
    split
    · next heq =>
        by_cases hk : key = k
        · simp [groupAt, first, heq, hk]
        · simp [groupAt, first, heq, hk]
    · next hne =>
        by_cases hk : entry.1 = k
        · have hkey : ¬ key = k := fun h => hne (hk.trans h.symm)
          simp [groupAt, first, hk, hkey]
        · simp only [groupAt, first, find?_cons, hk, decide_false] at ih ⊢
          exact ih

section

variable (key : β → κ) (value : β → α)

theorem gather_append_singleton (xs : List β) (x : β) :
    gather key value (xs ++ [x]) = push (key x) (value x) (gather key value xs) := by
  rw [gather, foldl_append]
  rfl

/-- The groups hold what was pushed. -/
theorem gather_perm (xs : List β) : ((gather key value xs).flatMap (·.2)).Perm (xs.map value) := by
  induction xs using reverseRecOn with
  | nil => exact .refl _
  | append_singleton xs x ih =>
    rw [gather_append_singleton, map_append]
    exact (push_perm _ _ _).trans (ih.append_right _)

theorem nodup_keys_gather (xs : List β) : ((gather key value xs).map fst).Nodup := by
  induction xs using reverseRecOn with
  | nil => exact nodup_nil
  | append_singleton xs x ih =>
    rw [gather_append_singleton]
    exact nodup_keys_push ih _ _

/-- A group holds the entries of its key, in their order. -/
theorem groupAt_gather (k : κ) (xs : List β) :
    groupAt k (gather key value xs) = (xs.filter fun x => key x = k).map value := by
  induction xs using reverseRecOn with
  | nil => rfl
  | append_singleton xs x ih =>
    rw [gather_append_singleton, groupAt_push, ih, filter_append, map_append]
    split
    · next hk => simp [hk]
    · next hk => simp [hk]

/-- A group that was gathered holds the entries of its key, in their order. -/
theorem snd_of_mem_gather {xs : List β} (hentry : entry ∈ gather key value xs) :
    entry.2 = (xs.filter fun x => key x = entry.1).map value := by
  rw [← groupAt_gather, groupAt,
    (first_some_iff fst (nodup_keys_gather key value xs)).2 ⟨hentry, rfl⟩]
  rfl

theorem ne_nil_of_mem_gather {xs : List β} (hentry : entry ∈ gather key value xs) :
    entry.2 ≠ [] := by
  have hkey : ∀ ys : List β, ∀ k ∈ (gather key value ys).map fst, k ∈ ys.map key := by
    intro ys
    induction ys using reverseRecOn with
    | nil => simp [gather]
    | append_singleton ys y ih =>
      intro k hk
      rw [gather_append_singleton, mem_keys_push] at hk
      rw [map_append, mem_append]
      rcases hk with rfl | hk
      · exact inr (by simp)
      · exact inl (ih k hk)
  obtain ⟨x, hx, hxkey⟩ := mem_map.1 (hkey xs entry.1 (mem_map_of_mem hentry))
  rw [snd_of_mem_gather key value hentry]
  exact ne_nil_of_mem (mem_map_of_mem (mem_filter.2 ⟨hx, decide_eq_true hxkey⟩))

/-- Groups in another order give the same group for every key. -/
theorem groupAt_perm {groups' : List (κ × List α)} (h : groups.Perm groups')
    (hnd : (groups.map fst).Nodup) (k : κ) : groupAt k groups = groupAt k groups' := by
  have hnd' : (groups'.map fst).Nodup := (h.map fst).nodup_iff.1 hnd
  have hfirst : first fst k groups = first fst k groups' := by
    refine Option.ext fun entry => ?_
    rw [first_some_iff fst hnd, first_some_iff fst hnd', h.mem_iff]
  rw [groupAt, groupAt, hfirst]

end

end Ontosyx.Lib.Grouped
