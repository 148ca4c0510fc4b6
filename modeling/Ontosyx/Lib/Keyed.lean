import Mathlib.Data.List.Nodup

/-!
# Keyed lists

Lists whose entries carry a key, read as maps.  A map built by inserting the
entries in order keeps the last entry of each key (`last`); a search keeps the
first (`first`).  On a list with distinct keys the two readings agree, and
either finds an entry exactly when the entry is in the list.

Two keyed lists are compared entry by entry: `Agree` asks that they hold the
same keys and that every entry of the second is related to its counterpart in
the first.

## Main results

* `last_some_iff`, `first_some_iff` — lookups in a list with distinct
  keys.
* `agree_iff_of_and` — agreement in a relation that splits into two.
* `agree_iff_unmatched` — agreement is the absence of unmatched entries and of
  differences within matched pairs.
-/

namespace Ontosyx.Lib.Keyed

open List

variable {α κ : Type} [DecidableEq κ] (key : α → κ)

/-- The entry a map keeps for `k` when the list is inserted in order: the last
one. -/
def last (k : κ) (xs : List α) : Option α := xs.reverse.find? fun x => key x = k

/-- The entry a search finds under `k`: the first one. -/
def first (k : κ) (xs : List α) : Option α := xs.find? fun x => key x = k

/-! ## Lookups -/

variable {x : α} {xs : List α} {k : κ}

theorem key_of_last (h : last key k xs = some x) : key x = k := by
  simpa using find?_some h

theorem mem_of_last (h : last key k xs = some x) :
    x ∈ xs := mem_reverse.1 (mem_of_find?_eq_some h)

@[simp] theorem last_none_iff : last key k xs = none ↔ k ∉ xs.map key := by
  rw [last, find?_eq_none]
  simp

theorem last_isSome_iff : (∃ x, last key k xs = some x) ↔ k ∈ xs.map key := by
  rw [← not_iff_not, ← last_none_iff, Option.eq_none_iff_forall_not_mem]
  simp [Option.mem_def]

omit [DecidableEq κ] in
/-- Distinct keys: entries with one key are the same entry. -/
theorem eq_of_key_eq (hnd : (xs.map key).Nodup) {y : α} (hx : x ∈ xs) (hy : y ∈ xs)
    (h : key x = key y) : x = y := inj_on_of_nodup_map hnd hx hy h

@[simp] theorem first_none_iff : first key k xs = none ↔ k ∉ xs.map key := by
  rw [first, find?_eq_none]
  simp

theorem first_some_iff (hnd : (xs.map key).Nodup) :
    first key k xs = some x ↔ x ∈ xs ∧ key x = k := by
  rw [first]
  constructor
  · intro h
    exact ⟨mem_of_find?_eq_some h, by simpa using find?_some h⟩
  · rintro ⟨hx, rfl⟩
    cases hf : xs.find? fun y => key y = key x with
    | none =>
      rw [find?_eq_none] at hf
      exact absurd (decide_eq_true rfl) (hf x hx)
    | some y =>
      have hy : key y = key x := by simpa using find?_some hf
      rw [eq_of_key_eq key hnd (mem_of_find?_eq_some hf) hx hy]

theorem last_some_iff (hnd : (xs.map key).Nodup) :
    last key k xs = some x ↔ x ∈ xs ∧ key x = k := by
  have hrev : (xs.reverse.map key).Nodup := by
    rw [map_reverse]
    exact nodup_reverse.2 hnd
  rw [last, ← first, first_some_iff key hrev, mem_reverse]

/-- The last entry of a key is any entry of it that is the only one. -/
theorem last_some_of_unique (hx : x ∈ xs) (hk : key x = k)
    (huniq : ∀ y ∈ xs, key y = k → y = x) : last key k xs = some x := by
  obtain ⟨y, hy⟩ := (last_isSome_iff key).2 (mem_map.2 ⟨x, hx, hk⟩)
  rw [hy, huniq y (mem_of_last key hy) (key_of_last key hy)]

/-- A key-preserving map commutes with the lookup. -/
theorem last_map {β : Type} {key' : β → κ} {g : α → β} (hg : ∀ x, key' (g x) = key x) (k : κ)
    (xs : List α) : last key' k (xs.map g) = (last key k xs).map g := by
  rw [last, last, ← map_reverse, find?_map]
  simp only [Function.comp_def, hg]

variable (lookup : κ → List α → Option α)

/-- The two lists hold the same keys, and every entry of `ys` is related to its
counterpart, the entry of `xs` that `lookup` finds under its key. -/
structure Agree (R : α → α → Prop) (xs ys : List α) : Prop where
  keys : ∀ k, k ∈ xs.map key ↔ k ∈ ys.map key
  entries : ∀ y ∈ ys, ∀ x, lookup (key y) xs = some x → R x y

omit [DecidableEq κ] in
/-- Agreement in a relation that splits into two. -/
theorem agree_iff_of_and {R S T : α → α → Prop} (h : ∀ x y, R x y ↔ S x y ∧ T x y)
    (xs ys : List α) : Agree key lookup R xs ys ↔
      Agree key lookup S xs ys ∧ ∀ y ∈ ys, ∀ x, lookup (key y) xs = some x → T x y := by
  constructor
  · rintro ⟨hk, he⟩
    exact ⟨⟨hk, fun y hy x hx => ((h x y).1 (he y hy x hx)).1⟩,
      fun y hy x hx => ((h x y).1 (he y hy x hx)).2⟩
  · rintro ⟨⟨hk, he⟩, ht⟩
    exact ⟨hk, fun y hy x hx => (h x y).2 ⟨he y hy x hx, ht y hy x hx⟩⟩

/-! ## Matching two lists -/

/-- Entries of `xs` whose key is none of `ks`. -/
def unmatched (xs : List α) (ks : List κ) : List α := xs.filter fun x => key x ∉ ks

/-- Each entry of `new` that has a counterpart in `old`, after that counterpart. -/
def matchedPairs (old new : List α) : List (α × α) :=
  new.filterMap fun n => (last key (key n) old).map fun o => (o, n)

@[simp] theorem unmatched_nil_iff {ks : List κ} :
    unmatched key xs ks = [] ↔ ∀ k ∈ xs.map key, k ∈ ks := by
  simp [unmatched]

@[simp] theorem mem_unmatched {ks : List κ} : x ∈ unmatched key xs ks ↔ x ∈ xs ∧ key x ∉ ks := by
  simp [unmatched]

@[simp] theorem mem_matchedPairs {old new : List α} {p : α × α} :
    p ∈ matchedPairs key old new ↔ p.2 ∈ new ∧ last key (key p.2) old = some p.1 := by
  obtain ⟨o, n⟩ := p
  simp only [matchedPairs, mem_filterMap, Option.map_eq_some_iff, Prod.mk.injEq]
  constructor
  · rintro ⟨m, hm, x, hx, rfl, rfl⟩
    exact ⟨hm, hx⟩
  · rintro ⟨hn, ho⟩
    exact ⟨n, hn, o, ho, rfl, rfl⟩

/-- The matched entries of the new list, in their order. -/
theorem map_snd_matchedPairs_sublist (old new : List α) :
    ((matchedPairs key old new).map Prod.snd).Sublist new := by
  induction new with
  | nil => exact .slnil
  | cons n new ih =>
    rw [matchedPairs, filterMap_cons]
    cases last key (key n) old with
    | none => exact ih.cons _
    | some o => exact ih.cons_cons _

section

variable {xs ys : List α} {k : κ}

/-- The entries under a key that only the second list holds. -/
theorem mem_unmatched_first_iff (hys : (ys.map key).Nodup) {y : α} :
    y ∈ unmatched key ys (xs.map key) ∧ key y = k ↔
      first key k ys = some y ∧ first key k xs = none := by
  rw [mem_unmatched, first_some_iff key hys, first_none_iff]
  constructor
  · rintro ⟨⟨hy, hx⟩, rfl⟩
    exact ⟨⟨hy, rfl⟩, hx⟩
  · rintro ⟨⟨hy, rfl⟩, hx⟩
    exact ⟨⟨hy, hx⟩, rfl⟩

/-- The matched pairs under a key are the pair of the two lookups. -/
theorem mem_matchedPairs_first_iff (hxs : (xs.map key).Nodup) (hys : (ys.map key).Nodup)
    {p : α × α} : p ∈ matchedPairs key xs ys ∧ key p.2 = k ↔
      first key k xs = some p.1 ∧ first key k ys = some p.2 := by
  rw [mem_matchedPairs, first_some_iff key hxs, first_some_iff key hys,
    last_some_iff key hxs]
  constructor
  · rintro ⟨⟨hy, hx, hxy⟩, rfl⟩
    exact ⟨⟨hx, hxy⟩, hy, rfl⟩
  · rintro ⟨⟨hx, hxk⟩, hy, rfl⟩
    exact ⟨⟨hy, hx, hxk⟩, rfl⟩

/-- The last entry under a key, where the key singles out an entry. -/
theorem last_some_iff_of_unique (huniq : ∀ x ∈ xs, ∀ y ∈ xs, key x = key y → x = y) {x : α} :
    last key k xs = some x ↔ x ∈ xs ∧ key x = k := by
  constructor
  · intro hx
    exact ⟨mem_of_last key hx, key_of_last key hx⟩
  · rintro ⟨hx, hid⟩
    exact last_some_of_unique key hx hid fun y hy hyid => huniq y hy x hx (hyid.trans hid.symm)

end

/-- Nothing left over on either side and no difference within a matched pair:
the lists agree. -/
theorem agree_iff_unmatched {R : α → α → Prop} {ys : List α} : Agree key (last key) R xs ys ↔
      unmatched key ys (xs.map key) = [] ∧ unmatched key xs (ys.map key) = [] ∧
        ∀ p ∈ matchedPairs key xs ys, R p.1 p.2 := by
  simp only [unmatched_nil_iff, mem_matchedPairs, Prod.forall]
  constructor
  · rintro ⟨hk, he⟩
    exact ⟨fun k hk' => (hk k).2 hk', fun k hk' => (hk k).1 hk', fun x y h => he y h.1 x h.2⟩
  · rintro ⟨hyx, hxy, hp⟩
    exact ⟨fun k => ⟨hxy k, hyx k⟩, fun y hy x hx => hp x y ⟨hy, hx⟩⟩

end Ontosyx.Lib.Keyed
