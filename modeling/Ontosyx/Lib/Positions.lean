import Mathlib.Data.List.Infix
import Ontosyx.Lib.Keyed

/-!
# Position maps

A position map of a keyed list sends each key to the position of the entry that
carries it and holds nothing else (`IsPositionMap`).  Only a list with distinct
keys has one, and then exactly one: the map that inserting the entries in order
builds (`position`).  `location` is the same for entries that each carry a list
of keys.

## Main results

* `position_isMap` — on distinct keys, insertion builds the position map.
* `IsPositionMap.nodup` — a list with a position map has distinct keys.
* `IsPositionMap.eq_position` — there is no other position map.
-/

namespace Ontosyx.Lib.Positions

open List Lib.Keyed List

variable {α κ : Type} [DecidableEq κ]

/-- The map that inserting the entries of a list in order builds: each key with
the position of the last entry that carries it. -/
def position (key : α → κ) (xs : List α) (k : κ) : Option Nat :=
  (last (fun p : α × Nat => key p.1) k xs.zipIdx).map (·.2)

/-- Every key of every entry, with the position of the entry and of the key
within it. -/
def places (keys : α → List κ) (xs : List α) : List (κ × Nat × Nat) :=
  xs.zipIdx.flatMap fun p => (keys p.1).zipIdx.map fun q => (q.1, p.2, q.2)

/-- The two-level map that inserting the keys of all entries in order builds. -/
def location (keys : α → List κ) (xs : List α) (k : κ) : Option (Nat × Nat) :=
  (last (fun p : κ × Nat × Nat => p.1) k (places keys xs)).map (·.2)

/-- The map sends each key to the position of the entry that carries it and
holds no other key. -/
def IsPositionMap (key : α → κ) (xs : List α) (m : κ → Option Nat) : Prop :=
  ∀ k i, m k = some i ↔ ∃ x, xs[i]? = some x ∧ key x = k

/-- The same for entries that carry a list of keys. -/
def IsLocationMap (keys : α → List κ) (xs : List α) (m : κ → Option (Nat × Nat)) : Prop :=
  ∀ k i j, m k = some (i, j) ↔ ∃ x, xs[i]? = some x ∧ (keys x)[j]? = some k

/-! ## One level -/

omit [DecidableEq κ] in
theorem zipIdx_map_fst_comp (key : α → κ) (xs : List α) :
    (xs.zipIdx.map fun p : α × Nat => key p.1) = xs.map key := by
  have h : (fun p : α × Nat => key p.1) = key ∘ Prod.fst := rfl
  rw [h, ← map_map, zipIdx_map_fst]

variable {xs : List α} {key : α → κ} {keys : α → List κ} {k : κ} {i : Nat} {x : α}

omit [DecidableEq κ] in
theorem mem_zipIdx_iff_getElem? : (x, i) ∈ xs.zipIdx ↔ xs[i]? = some x := by
  rw [mk_mem_zipIdx_iff_getElem?]

/-- On distinct keys, insertion builds the position map. -/
theorem position_isMap (hnd : (xs.map key).Nodup) :
    IsPositionMap key xs (position key xs) := by
  intro k i
  have hzip : (xs.zipIdx.map fun p : α × Nat => key p.1).Nodup := by
    rw [zipIdx_map_fst_comp]
    exact hnd
  rw [position, Option.map_eq_some_iff]
  constructor
  · intro h
    obtain ⟨⟨x, j⟩, hlast, hj⟩ := h
    obtain ⟨hmem, hkey⟩ := (last_some_iff _ hzip).1 hlast
    have hji : j = i := hj
    exact ⟨x, hji ▸ mem_zipIdx_iff_getElem?.1 hmem, hkey⟩
  · intro h
    obtain ⟨x, hx, hkey⟩ := h
    exact ⟨(x, i), (last_some_iff _ hzip).2 ⟨mem_zipIdx_iff_getElem?.2 hx, hkey⟩, rfl⟩

omit [DecidableEq κ] in
/-- A list with a position map has distinct keys. -/
theorem IsPositionMap.nodup {m : κ → Option Nat} (h : IsPositionMap key xs m) :
    (xs.map key).Nodup := by
  rw [nodup_iff_injective_get]
  intro i j hij
  have hi : i.1 < xs.length := by simpa using i.2
  have hj : j.1 < xs.length := by simpa using j.2
  have hkey : key xs[i.1] = key xs[j.1] := by simpa using hij
  have h1 := (h (key xs[i.1]) i.1).2 ⟨_, getElem?_eq_getElem hi, rfl⟩
  have h2 := (h (key xs[i.1]) j.1).2 ⟨_, getElem?_eq_getElem hj, hkey.symm⟩
  rw [h1] at h2
  exact Fin.ext (Option.some.inj h2)

omit [DecidableEq κ] in
private theorem eq_of_forall_some_iff {β : Type} {f g : κ → Option β}
    (h : ∀ k b, f k = some b ↔ g k = some b) : f = g := by
  funext k
  exact Option.ext fun b => h k b

theorem IsPositionMap.eq_position {m : κ → Option Nat} (h : IsPositionMap key xs m) :
    m = position key xs :=
  eq_of_forall_some_iff fun k i => (h k i).trans (position_isMap h.nodup k i).symm

/-- The map holds exactly the keys of the list. -/
theorem position_isSome_iff : (position key xs k).isSome = true ↔ k ∈ xs.map key := by
  rw [position, Option.isSome_map, Option.isSome_iff_exists, last_isSome_iff, zipIdx_map_fst_comp]

/-- A position the map gives holds an entry with the key. -/
theorem getElem?_of_position (h : position key xs k = some i) :
    ∃ x, xs[i]? = some x ∧ key x = k := by
  rw [position, Option.map_eq_some_iff] at h
  obtain ⟨⟨x, j⟩, hlast, hj⟩ := h
  have hji : j = i := hj
  exact ⟨x, hji ▸ mem_zipIdx_iff_getElem?.1 (mem_of_last _ hlast),
    key_of_last (fun p : α × Nat => key p.1) hlast⟩

theorem mem_of_position_bind (h : ((position key xs k).bind fun i => xs[i]?) = some x) :
    x ∈ xs ∧ key x = k := by
  rw [Option.bind_eq_some_iff] at h
  obtain ⟨i, hi, hx⟩ := h
  obtain ⟨x', hx', hkey⟩ := getElem?_of_position hi
  rw [hx] at hx'
  exact ⟨mem_of_getElem? hx, Option.some.inj hx' ▸ hkey⟩

/-! ## Two levels -/

omit [DecidableEq κ] in
theorem mem_places_iff {j : Nat} :
    (k, i, j) ∈ places keys xs ↔ ∃ x, xs[i]? = some x ∧ (keys x)[j]? = some k := by
  rw [places, mem_flatMap]
  constructor
  · intro h
    obtain ⟨⟨x, i'⟩, hx, hq⟩ := h
    obtain ⟨⟨k', j'⟩, hk, heq⟩ := mem_map.1 hq
    obtain ⟨rfl, rfl, rfl⟩ : k' = k ∧ i' = i ∧ j' = j := by simpa using heq
    exact ⟨x, mem_zipIdx_iff_getElem?.1 hx, mem_zipIdx_iff_getElem?.1 hk⟩
  · intro h
    obtain ⟨x, hx, hk⟩ := h
    exact ⟨(x, i), mem_zipIdx_iff_getElem?.2 hx,
      mem_map.2 ⟨(k, j), mem_zipIdx_iff_getElem?.2 hk, rfl⟩⟩

omit [DecidableEq κ] in
theorem places_map_fst (keys : α → List κ) (xs : List α) :
    (places keys xs).map (·.1) = xs.flatMap keys := by
  have hinner : ∀ p : α × Nat,
      ((keys p.1).zipIdx.map fun q => (q.1, p.2, q.2)).map (·.1) = keys p.1 := by
    intro p
    rw [map_map]
    exact zipIdx_map_fst 0 (keys p.1)
  rw [places, map_flatMap]
  simp only [hinner]
  rw [← flatMap_map, zipIdx_map_fst]

theorem isLocationMap_location (hnd : (xs.flatMap keys).Nodup) :
    IsLocationMap keys xs (location keys xs) := by
  intro k i j
  have hplaces : ((places keys xs).map (·.1)).Nodup := by
    rw [places_map_fst]
    exact hnd
  rw [location, Option.map_eq_some_iff, ← mem_places_iff]
  constructor
  · intro h
    obtain ⟨⟨k', i', j'⟩, hlast, hij⟩ := h
    obtain ⟨hmem, hkey⟩ := (last_some_iff _ hplaces).1 hlast
    have hk : k' = k := hkey
    have hp : (i', j') = (i, j) := hij
    cases hp
    exact hk ▸ hmem
  · intro h
    exact ⟨(k, i, j), (last_some_iff _ hplaces).2 ⟨h, rfl⟩, rfl⟩

omit [DecidableEq κ] in
/-- A list with a location map has distinct keys across all entries. -/
theorem IsLocationMap.nodup {m : κ → Option (Nat × Nat)} (h : IsLocationMap keys xs m) :
    (xs.flatMap keys).Nodup := by
  rw [← places_map_fst]
  have hnd : (places keys xs).Nodup := by
    rw [places, nodup_flatMap]
    constructor
    · intro p _
      have hzip : (keys p.1).zipIdx.Nodup := by
        refine Nodup.of_map Prod.snd ?_
        rw [zipIdx_map_snd]
        exact nodup_range'
      refine Nodup.map_on ?_ hzip
      intro q hq r hr heq
      simp only [Prod.mk.injEq, true_and] at heq
      exact Prod.ext heq.1 heq.2
    · refine (pairwise_iff_forall_sublist.2 ?_)
      intro p q hsub
      have hne : p.2 ≠ q.2 := by
        have hmap := (hsub.map (fun r : α × Nat => r.2))
        have hnodup : ([p.2, q.2] : List Nat).Nodup := by
          refine Nodup.sublist hmap ?_
          rw [zipIdx_map_snd]
          exact nodup_range'
        intro heq
        rw [heq] at hnodup
        simp at hnodup
      refine disjoint_left.2 ?_
      intro t ht ht'
      obtain ⟨u, -, rfl⟩ := mem_map.1 ht
      obtain ⟨v, -, hv⟩ := mem_map.1 ht'
      simp only [Prod.mk.injEq] at hv
      exact hne hv.2.1.symm
  refine Nodup.map_on ?_ hnd
  intro p hp q hq hpq
  obtain ⟨k, i, j⟩ := p
  obtain ⟨k', i', j'⟩ := q
  have hk : k = k' := hpq
  subst hk
  have h1 := (h k i j).2 (mem_places_iff.1 hp)
  have h2 := (h k i' j').2 (mem_places_iff.1 hq)
  rw [h1] at h2
  rw [Option.some.inj h2]

theorem isLocationMap_iff {m : κ → Option (Nat × Nat)} :
    IsLocationMap keys xs m ↔ (xs.flatMap keys).Nodup ∧ m = location keys xs := by
  constructor
  · intro h
    refine ⟨h.nodup, eq_of_forall_some_iff fun k p => ?_⟩
    exact (h k p.1 p.2).trans (isLocationMap_location h.nodup k p.1 p.2).symm
  · intro h
    rw [h.2]
    exact isLocationMap_location h.1

/-- The position of a key on distinct keys is the only one with that key. -/
theorem eq_position_of_getElem? (hnd : (xs.map key).Nodup) {j : Nat}
    (hi : position key xs k = some i) (hj : xs[j]? = some x) (hx : key x = k) : j = i := by
  have hpos := position_isMap hnd k j
  have hk : position key xs k = some j := hpos.2 ⟨x, hj, hx⟩
  rw [hi] at hk
  exact (Option.some.inj hk).symm

/-- Erasing at the position of a key leaves the entries with the other keys. -/
theorem mem_eraseIdx_of_position (hnd : (xs.map key).Nodup) (hi : position key xs k = some i) :
    x ∈ xs.eraseIdx i ↔ x ∈ xs ∧ key x ≠ k := by
  rw [mem_eraseIdx_iff_getElem?]
  constructor
  · intro h
    obtain ⟨j, hj, hx⟩ := h
    refine ⟨mem_of_getElem? hx, fun hk => ?_⟩
    exact hj (eq_position_of_getElem? hnd hi hx hk)
  · intro h
    obtain ⟨j, hj⟩ := mem_iff_getElem?.1 h.1
    refine ⟨j, fun hji => ?_, hj⟩
    obtain ⟨y, hy, hk⟩ := getElem?_of_position hi
    rw [← hji, hj] at hy
    exact h.2 (Option.some.inj hy ▸ hk)

/-- Setting at the position of a key replaces the entry with that key. -/
theorem mem_set_of_position (hnd : (xs.map key).Nodup) (hi : position key xs k = some i) {d : α} :
    x ∈ xs.set i d ↔ x = d ∨ (x ∈ xs ∧ key x ≠ k) := by
  obtain ⟨y, hy, hkey⟩ := getElem?_of_position hi
  have hlt : i < xs.length := (List.getElem?_eq_some_iff.1 hy).1
  constructor
  · intro h
    obtain ⟨j, hj⟩ := List.mem_iff_getElem?.1 h
    rw [getElem?_set] at hj
    by_cases hij : i = j
    · rw [if_pos hij, if_pos hlt] at hj
      exact .inl (Option.some.inj hj).symm
    · rw [if_neg hij] at hj
      refine .inr ⟨mem_of_getElem? hj, fun hk => ?_⟩
      exact hij (eq_position_of_getElem? hnd hi hj hk).symm
  · intro h
    rcases h with rfl | ⟨hx, hk⟩
    · exact mem_iff_getElem?.2 ⟨i, by rw [getElem?_set, if_pos rfl, if_pos hlt]⟩
    · obtain ⟨j, hj⟩ := mem_iff_getElem?.1 hx
      refine mem_iff_getElem?.2 ⟨j, ?_⟩
      have hij : i ≠ j := by
        intro hij
        rw [← hij, hy] at hj
        exact hk (Option.some.inj hj ▸ hkey)
      rw [getElem?_set, if_neg hij, hj]

omit [DecidableEq κ] in
/-- On distinct nested keys, a nested key has one owner. -/
theorem eq_of_mem_nested (hnd : (xs.flatMap keys).Nodup) {y : α} (hx : x ∈ xs) (hy : y ∈ xs)
    (hkx : k ∈ keys x) (hky : k ∈ keys y) : x = y := by
  induction xs with
  | nil => cases hx
  | cons z zs ih =>
    rw [flatMap_cons, nodup_append] at hnd
    obtain ⟨-, htail, hdisj⟩ := hnd
    rcases mem_cons.1 hx with hxz | hxs
    · rcases mem_cons.1 hy with hyz | hys
      · exact hxz.trans hyz.symm
      · exact absurd rfl (hdisj k (hxz ▸ hkx) k (mem_flatMap.2 ⟨y, hys, hky⟩))
    · rcases mem_cons.1 hy with hyz | hys
      · exact absurd rfl (hdisj k (hyz ▸ hky) k (mem_flatMap.2 ⟨x, hxs, hkx⟩))
      · exact ih htail hxs hys

end Ontosyx.Lib.Positions
