import Mathlib.Data.List.Induction
import Ontosyx.Lib.Keyed

/-!
# The first entry of each key

A loop that keeps an entry unless it has seen the key before keeps the first
entry of each key, in the order of the list.

## Main results

* `mem_firsts_iff` — what is kept is what a search under its own key finds.
-/

namespace Ontosyx.Lib.Keyed

open List

variable {α κ : Type} [DecidableEq κ] (key : α → κ)

/-- One turn of the loop: the keys seen are those of the entries kept. -/
def keepNew (kept : List α) (x : α) : List α :=
  if key x ∈ kept.map key then kept else kept ++ [x]

def firsts (xs : List α) : List α := xs.foldl (keepNew key) []

theorem firsts_append_singleton (xs : List α) (x : α) :
    firsts key (xs ++ [x]) = keepNew key (firsts key xs) x := by
  rw [firsts, foldl_append]
  rfl

/-- The loop over several lists in turn is the loop over their concatenation. -/
theorem foldl_flatMap_keepNew {β : Type} (items : β → List α) (bs : List β) :
    bs.foldl (fun kept b => (items b).foldl (keepNew key) kept) [] =
      firsts key (bs.flatMap items) := by
  rw [firsts, foldl_flatMap]

/-- A search by a property of the key finds the same entry before and after the
loop. -/
theorem find?_firsts (q : κ → Bool) (xs : List α) :
    (firsts key xs).find? (fun x => q (key x)) = xs.find? fun x => q (key x) := by
  induction xs using reverseRecOn with
  | nil => rfl
  | append_singleton xs x ih =>
    rw [firsts_append_singleton, keepNew, find?_append, ← ih]
    split
    · next hseen =>
        cases hf : (firsts key xs).find? fun x => q (key x) with
        | some y => rfl
        | none =>
          -- The key was seen, so `x` is not what is searched for.
          obtain ⟨y, hy, hyx⟩ := mem_map.1 hseen
          have hno : ¬ q (key y) = true := find?_eq_none.1 hf y hy
          rw [hyx] at hno
          simp [hno]
    · rw [find?_append]

theorem first_firsts (k : κ) (xs : List α) : first key k (firsts key xs) = first key k xs :=
  find?_firsts key (fun k' => k' = k) xs

/-- A search under a key of which the test holds passes the filter by the test. -/
theorem first_filter {p : κ → Bool} {k : κ} (hk : p k = true) (xs : List α) :
    first key k (xs.filter fun x => p (key x)) = first key k xs := by
  rw [first, first, find?_filter]
  congr 1
  funext x
  by_cases hx : key x = k
  · simp [hx, hk]
  · simp [hx]

theorem nodup_firsts (xs : List α) : ((firsts key xs).map key).Nodup := by
  induction xs using reverseRecOn with
  | nil => exact nodup_nil
  | append_singleton xs x ih =>
    rw [firsts_append_singleton, keepNew]
    split
    · exact ih
    · next hnew =>
        rw [map_append]
        refine Nodup.append ih (nodup_singleton _) ?_
        simpa using hnew

/-- What is kept is what a search under its own key finds. -/
theorem mem_firsts_iff {xs : List α} {x : α} :
    x ∈ firsts key xs ↔ first key (key x) xs = some x := by
  rw [← first_firsts, first_some_iff key (nodup_firsts key xs)]
  exact ⟨fun h => ⟨h, rfl⟩, fun h => h.1⟩

theorem mem_of_mem_firsts {xs : List α} {x : α} (h : x ∈ firsts key xs) : x ∈ xs :=
  mem_of_find?_eq_some ((mem_firsts_iff key).1 h)

/-- Of every entry, one with its key is kept. -/
theorem exists_mem_firsts {xs : List α} {x : α} (h : x ∈ xs) :
    ∃ y ∈ firsts key xs, key y = key x := by
  have hkey : first key (key x) xs ≠ none := by
    rw [Ne, first_none_iff, not_not]
    exact mem_map_of_mem h
  obtain ⟨y, hy⟩ := Option.ne_none_iff_exists'.1 hkey
  have hyx : key y = key x := by simpa using find?_some hy
  refine ⟨y, ?_, hyx⟩
  rw [mem_firsts_iff, hyx]
  exact hy

end Ontosyx.Lib.Keyed
