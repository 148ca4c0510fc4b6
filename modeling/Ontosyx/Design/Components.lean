import Mathlib
import Ontosyx.Design.Split
import Ontosyx.Lib.Grouped

/-!
# Connected components

The tables of a schema, numbered below `n`, are united along the foreign keys
and gathered by their root.

## Main results

* `components_perm` — every table is in one group, once.
* `connected_of_mem_components` — the tables of a group are connected
  inside it.
-/

namespace Ontosyx.Design

open Batteries (UnionFind)
open List Lib.Grouped Or

/-! ## Union-find -/

/-- `UnionFind::new`. -/
def newUnionFind : Nat → UnionFind
  | 0 => .empty
  | n + 1 => (newUnionFind n).push

/-- `uf.union(a, b)`: of two roots of one rank that of `a` becomes the parent. -/
def unite (uf : UnionFind) (fk : Nat × Nat) : UnionFind :=
  if h : fk.1 < uf.size ∧ fk.2 < uf.size then uf.union ⟨fk.2, h.2⟩ ⟨fk.1, h.1⟩ else uf

/-- All foreign keys united. -/
def unionAll (n : Nat) (fks : List (Nat × Nat)) : UnionFind := fks.foldl unite (newUnionFind n)

@[simp] theorem newUnionFind_size (n : Nat) : (newUnionFind n).size = n := by
  induction n with
  | zero => rfl
  | succ n ih =>
    show ((newUnionFind n).arr.push _).size = n + 1
    rw [Array.size_push]
    exact congrArg (· + 1) ih

variable {n : Nat}

theorem equiv_newUnionFind {a b : Nat} : (newUnionFind n).Equiv a b ↔ a = b := by
  induction n with
  | zero => exact UnionFind.equiv_empty
  | succ n ih => exact UnionFind.equiv_push.trans ih

variable {fks : List (Nat × Nat)} (uf : UnionFind)

@[simp] theorem unite_size (fk : Nat × Nat) : (unite uf fk).size = uf.size := by
  rw [unite]
  split
  · simp [UnionFind.union, UnionFind.size, UnionFind.link]
  · rfl

theorem unionAll_append_singleton (n : Nat) (fks : List (Nat × Nat)) (fk : Nat × Nat) :
    unionAll n (fks ++ [fk]) = unite (unionAll n fks) fk := by
  rw [unionAll, foldl_append]
  rfl

@[simp] theorem unionAll_size (n : Nat) (fks : List (Nat × Nat)) : (unionAll n fks).size = n := by
  induction fks using reverseRecOn with
  | nil => exact newUnionFind_size n
  | append_singleton fks fk ih => rw [unionAll_append_singleton, unite_size, ih]

/-- What uniting the ends of a foreign key makes equivalent. -/
theorem equiv_unite {uf : UnionFind} {fk : Nat × Nat} (h : fk.1 < uf.size ∧ fk.2 < uf.size)
    {a b : Nat} : (unite uf fk).Equiv a b ↔ uf.Equiv a b ∨ uf.Equiv a fk.2 ∧ uf.Equiv fk.1 b ∨
      uf.Equiv a fk.1 ∧ uf.Equiv fk.2 b := by
  rw [unite, dif_pos h]
  exact UnionFind.equiv_union

theorem connected_of_equiv {a b : Nat} (h : (unionAll n fks).Equiv a b) :
    Relation.ReflTransGen (Adjacent fks) a b := by
  induction fks using reverseRecOn generalizing a b with
  | nil =>
    rw [equiv_newUnionFind.1 h]
  | append_singleton fks fk ih =>
    have hmono : ∀ {x y : Nat}, Relation.ReflTransGen (Adjacent fks) x y →
        Relation.ReflTransGen (Adjacent (fks ++ [fk])) x y := by
      intro x y hxy
      refine Relation.ReflTransGen.mono (fun u v huv => ?_) _ _ hxy
      exact huv.imp (mem_append_left _) (mem_append_left _)
    have hstep : Adjacent (fks ++ [fk]) fk.1 fk.2 := inl (by simp)
    rw [unionAll_append_singleton] at h
    by_cases hlt : fk.1 < (unionAll n fks).size ∧ fk.2 < (unionAll n fks).size
    · rcases (equiv_unite hlt).1 h with hab | ⟨ha, hb⟩ | ⟨ha, hb⟩
      · exact hmono (ih hab)
      · exact (hmono (ih ha)).trans (.head hstep.symm (hmono (ih hb)))
      · exact (hmono (ih ha)).trans (.head hstep (hmono (ih hb)))
    · rw [unite, dif_neg hlt] at h
      exact hmono (ih h)

/-- The ends of a foreign key have one root. -/
theorem equiv_of_mem (hlt : ∀ fk ∈ fks, fk.1 < n ∧ fk.2 < n) {fk : Nat × Nat} (hfk : fk ∈ fks) :
    (unionAll n fks).Equiv fk.1 fk.2 := by
  induction fks using reverseRecOn with
  | nil => exact absurd hfk (not_mem_nil)
  | append_singleton fks fk' ih =>
    have hbounds : fk'.1 < (unionAll n fks).size ∧ fk'.2 < (unionAll n fks).size := by
      rw [unionAll_size]
      exact hlt fk' (by simp)
    rw [unionAll_append_singleton, equiv_unite hbounds]
    rcases mem_append.1 hfk with hmem | hmem
    · exact inl (ih (fun x hx => hlt x (mem_append_left _ hx)) hmem)
    · rw [mem_singleton.1 hmem]
      exact inr (inr ⟨rfl, rfl⟩)

/-! ## Gathering by root -/

/-- One turn of the grouping loop; `find` compresses the path it follows. -/
def componentStep (acc : UnionFind × List (Nat × List Nat)) (i : Nat) :
    UnionFind × List (Nat × List Nat) :=
  let found := acc.1.findD i
  (found.1, push found.2 i acc.2)

/-- `component_groups`, sorted by their first tables. -/
def componentGroups (n : Nat) (uf : UnionFind) : List (List Nat) :=
  (((List.range n).foldl componentStep (uf, [])).2.map (·.2)).mergeSort
    fun g h => decide (g.headD 0 ≤ h.headD 0)

@[simp] theorem components_zero : componentGroups 0 uf = [] := by
  simp [componentGroups]

theorem findD_snd (i : Nat) : (uf.findD i).2 = uf.rootD i := by
  rw [UnionFind.findD]
  split
  · next h => exact UnionFind.find_root_2 uf ⟨i, h⟩
  · next h => rw [UnionFind.rootD, dif_neg h]

theorem rootD_findD (i j : Nat) : (uf.findD i).1.rootD j = uf.rootD j := by
  rw [UnionFind.findD]
  split
  · exact UnionFind.find_root_1 _ _ _
  · rfl

/-- The groups of the tables visited so far: one for each root, which holds the
tables with that root. -/
structure Gathered (uf : UnionFind) (visited : List Nat) (groups : List (Nat × List Nat)) :
    Prop where
  perm : (groups.flatMap (·.2)).Perm visited
  roots : (groups.map Prod.fst).Nodup
  members : ∀ entry ∈ groups, ∀ i ∈ entry.2, uf.rootD i = entry.1

theorem Gathered.record {uf : UnionFind} {visited : List Nat} {groups : List (Nat × List Nat)}
    (h : Gathered uf visited groups) (i : Nat) :
    Gathered uf (visited ++ [i]) (push (uf.rootD i) i groups) where
  perm := (push_perm _ _ _).trans (h.perm.append_right _)
  roots := nodup_keys_push h.roots _ _
  members := by
    intro entry hentry j hj
    rcases mem_of_mem_push hentry hj with ⟨rfl, hroot⟩ | ⟨old, hold, hkey, hmem⟩
    · exact hroot.symm
    · rw [← hkey]
      exact h.members old hold j hmem

theorem gathered_foldl (tables : List Nat) :
    (∀ i, (tables.foldl componentStep (uf, [])).1.rootD i = uf.rootD i) ∧
      Gathered uf tables (tables.foldl componentStep (uf, [])).2 := by
  induction tables using reverseRecOn with
  | nil =>
    exact ⟨fun _ => rfl, ⟨.refl _, nodup_nil, fun _ h => absurd h (not_mem_nil)⟩⟩
  | append_singleton tables i ih =>
    obtain ⟨hroot, hgathered⟩ := ih
    rw [foldl_append, foldl_cons, foldl_nil, componentStep]
    refine ⟨fun j => ?_, ?_⟩
    · rw [rootD_findD, hroot]
    · rw [findD_snd, hroot]
      exact hgathered.record i

theorem components_perm (n : Nat) (uf : UnionFind) :
    (componentGroups n uf).flatten.Perm (List.range n) := by
  have hsort := (mergeSort_perm (((List.range n).foldl componentStep (uf, [])).2.map (·.2))
    fun g h => decide (g.headD 0 ≤ h.headD 0)).flatten
  refine hsort.trans ?_
  rw [← flatMap_def]
  exact (gathered_foldl uf (List.range n)).2.perm

theorem exists_root_of_mem_components {uf : UnionFind} {group : List Nat}
    (h : group ∈ componentGroups n uf) : ∃ r, ∀ i, i ∈ group ↔ i < n ∧ uf.rootD i = r := by
  obtain ⟨-, hgathered⟩ := gathered_foldl uf (List.range n)
  rw [componentGroups, mem_mergeSort] at h
  obtain ⟨entry, hentry, rfl⟩ := mem_map.1 h
  refine ⟨entry.1, fun i => ⟨fun hi => ⟨?_, hgathered.members entry hentry i hi⟩, ?_⟩⟩
  · have hmem := hgathered.perm.mem_iff.1 (mem_flatMap.2 ⟨entry, hentry, hi⟩)
    exact mem_range.1 hmem
  · rintro ⟨hlt, hroot⟩
    have hmem := hgathered.perm.mem_iff.2 (mem_range.2 hlt)
    obtain ⟨entry', hentry', hi⟩ := mem_flatMap.1 hmem
    have hkey : entry'.1 = entry.1 := (hgathered.members entry' hentry' i hi).symm.trans hroot
    rw [← inj_on_of_nodup_map hgathered.roots hentry' hentry hkey]
    exact hi

/-- The tables of a group are connected inside it. -/
theorem connected_of_mem_components (hlt : ∀ fk ∈ fks, fk.1 < n ∧ fk.2 < n)
    {group : List Nat} (h : group ∈ componentGroups n (unionAll n fks)) :
    ConnectedGroup fks group := by
  obtain ⟨r, hgroup⟩ := exists_root_of_mem_components h
  intro a ha b hb
  have hpath : Relation.ReflTransGen (Adjacent fks) a b := by
    refine connected_of_equiv (n := n) ?_
    exact ((hgroup a).1 ha).2.trans ((hgroup b).1 hb).2.symm
  -- A path of foreign keys never leaves the tables of its root.
  have hstay : ∀ x y, Adjacent fks x y → x ∈ group → y ∈ group := by
    intro x y hxy hx
    rw [hgroup] at hx ⊢
    rcases hxy with hfk | hfk
    · have hroot : (unionAll n fks).rootD x = (unionAll n fks).rootD y := equiv_of_mem hlt hfk
      exact ⟨(hlt _ hfk).2, hroot.symm.trans hx.2⟩
    · have hroot : (unionAll n fks).rootD y = (unionAll n fks).rootD x := equiv_of_mem hlt hfk
      exact ⟨(hlt _ hfk).1, hroot.trans hx.2⟩
  clear hb
  induction hpath with
  | refl => exact .refl
  | tail hpath hstep ih =>
    have hmid := reflTransGen_mem hstay hpath ha
    exact ih.tail ⟨hstep, hmid, hstay _ _ hstep hmid⟩

end Ontosyx.Design
