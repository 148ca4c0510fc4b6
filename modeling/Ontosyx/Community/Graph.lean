import Mathlib.Algebra.BigOperators.Fin
import Mathlib.Combinatorics.SimpleGraph.Basic
import Ontosyx.Lib.Firsts
import Ontosyx.Lib.Modularity
import Ontosyx.Lib.Tally

/-!
# Weighted graphs and their partitions

`CommunityGraph` holds the neighbours of each node with the weights of the edges to them.
An edge stands with both of its ends, and no edge joins a node to itself; the builder sees
to it, and `ofEdges` pushes edges as it does.  Weights are rationals.

A partition numbers its communities from zero on and leaves none empty, which is what
`densify_partition` makes of any labelling.
-/

namespace Ontosyx.Community

open List Lib

/-! ## Graphs -/

/-- `CommunityGraph`, without the identities of its nodes. -/
structure CommunityGraph (n : ℕ) where
  neighbours : Fin n → List (Fin n × ℚ)
  loopless : ∀ i, ∀ e ∈ neighbours i, e.1 ≠ i
  symmetric : ∀ i j w, (neighbours i).count (j, w) = (neighbours j).count (i, w)

def pushed {n : ℕ} (node : Fin n) (edge : (Fin n × Fin n) × ℚ) : Option (Fin n × ℚ) :=
  let ((a, b), w) := edge
  if a = b then none
  else if a = node then some (b, w)
  else if b = node then some (a, w)
  else none

theorem pushed_eq_some_iff {n : ℕ} {i j : Fin n} {w : ℚ} {edge : (Fin n × Fin n) × ℚ} :
    pushed i edge = some (j, w) ↔ i ≠ j ∧ (edge = ((i, j), w) ∨ edge = ((j, i), w)) := by
  obtain ⟨⟨a, b⟩, v⟩ := edge
  simp only [pushed, Prod.mk.injEq]
  by_cases hab : a = b
  · rw [if_pos hab]
    constructor
    · intro h
      cases h
    · rintro ⟨hij, (⟨⟨rfl, rfl⟩, -⟩ | ⟨⟨rfl, rfl⟩, -⟩)⟩
      · exact absurd hab hij
      · exact absurd hab.symm hij
  · rw [if_neg hab]
    by_cases hai : a = i
    · rw [if_pos hai, Option.some.injEq, Prod.mk.injEq]
      constructor
      · rintro ⟨rfl, rfl⟩
        exact ⟨fun h => hab (hai.trans h), .inl ⟨⟨hai, rfl⟩, rfl⟩⟩
      · rintro ⟨hij, (⟨⟨-, rfl⟩, rfl⟩ | ⟨⟨rfl, -⟩, -⟩)⟩
        · exact ⟨rfl, rfl⟩
        · exact absurd hai.symm hij
    · rw [if_neg hai]
      by_cases hbi : b = i
      · rw [if_pos hbi, Option.some.injEq, Prod.mk.injEq]
        constructor
        · rintro ⟨rfl, rfl⟩
          exact ⟨fun h => hai h.symm, .inr ⟨⟨rfl, hbi⟩, rfl⟩⟩
        · rintro ⟨-, (⟨⟨rfl, -⟩, -⟩ | ⟨⟨rfl, -⟩, rfl⟩)⟩
          · exact absurd rfl hai
          · exact ⟨rfl, rfl⟩
      · rw [if_neg hbi]
        constructor
        · intro h
          cases h
        · rintro ⟨-, (⟨⟨h, -⟩, -⟩ | ⟨⟨-, h⟩, -⟩)⟩
          · exact absurd h hai
          · exact absurd h hbi

namespace CommunityGraph

variable {n : ℕ}

/-- The graph of a list of edges, each pushed to both of its ends. -/
def ofEdges (edges : List ((Fin n × Fin n) × ℚ)) : CommunityGraph n where
  neighbours i := edges.filterMap (pushed i)
  loopless i e he := by
    obtain ⟨edge, -, hedge⟩ := mem_filterMap.1 he
    exact (pushed_eq_some_iff.1 hedge).1.symm
  symmetric i j w := by
    have htest (o : Option (Fin n × ℚ)) (x : Fin n × ℚ) :
        (o.map (· == x)).getD false = true ↔ o = some x := by
      cases o <;> simp
    rw [count, count, countP_filterMap, countP_filterMap]
    apply countP_congr
    intro edge _
    rw [htest, htest, pushed_eq_some_iff, pushed_eq_some_iff, ne_comm, or_comm]

def weightedDegree (g : CommunityGraph n) (node : Fin n) : ℚ :=
  ((g.neighbours node).map Prod.snd).sum

def totalEdgeWeight (g : CommunityGraph n) : ℚ :=
  (((finRange n).flatMap fun node => (g.neighbours node).map Prod.snd).sum) / 2

/-- The weight between two nodes, all edges between them together. -/
def weight (g : CommunityGraph n) (i j : Fin n) : ℚ :=
  (((g.neighbours i).filter (·.1 = j)).map Prod.snd).sum

/-- Two nodes are joined by an edge. -/
def Adj (g : CommunityGraph n) (i j : Fin n) : Prop := ∃ w, (j, w) ∈ g.neighbours i

theorem Adj.symm {g : CommunityGraph n} {i j : Fin n} (h : g.Adj i j) : g.Adj j i := by
  obtain ⟨w, hw⟩ := h
  refine ⟨w, ?_⟩
  rw [← count_pos_iff, ← g.symmetric i j w, count_pos_iff]
  exact hw

variable (g : CommunityGraph n) (i : Fin n)

theorem not_adj_self : ¬ g.Adj i i := by
  intro ⟨w, hw⟩
  exact g.loopless i _ hw rfl

def toSimple (g : CommunityGraph n) : SimpleGraph (Fin n) where
  Adj := g.Adj
  symm := ⟨fun _ _ h => h.symm⟩
  loopless := ⟨g.not_adj_self⟩

theorem weight_symm (j : Fin n) : g.weight i j = g.weight j i := by
  have hcount (a b : Fin n) (w : ℚ) :
      (((g.neighbours a).filter (·.1 = b)).map Prod.snd).count w =
        (g.neighbours a).count (b, w) := by
    rw [count, countP_map, countP_filter, count]
    apply countP_congr
    intro e _
    simp [Prod.ext_iff, and_comm]
  apply Perm.sum_eq
  rw [perm_iff_count]
  intro w
  rw [hcount, hcount, g.symmetric]

theorem weight_self : g.weight i i = 0 := by
  have hnone : (g.neighbours i).filter (·.1 = i) = [] := by
    rw [filter_eq_nil_iff]
    intro e he
    rw [decide_eq_true_eq]
    exact g.loopless i e he
  rw [weight, hnone]
  rfl

theorem sum_neighbours (counts : Fin n → Prop) [DecidablePred counts] :
    (((g.neighbours i).filter (counts ·.1)).map Prod.snd).sum =
      ∑ j, if counts j then g.weight i j else 0 := by
  unfold weight
  induction g.neighbours i with
  | nil => simp
  | cons e es ih =>
    have hsplit (j : Fin n) : (((e :: es).filter (·.1 = j)).map Prod.snd).sum =
        (if e.1 = j then e.2 else 0) + ((es.filter (·.1 = j)).map Prod.snd).sum := by
      by_cases h : e.1 = j
      · simp [h]
      · simp [h]
    have hfirst : (∑ j, if counts j then (if e.1 = j then e.2 else 0) else 0) =
        if counts e.1 then e.2 else 0 := by
      rw [Finset.sum_eq_single e.1]
      · rw [if_pos rfl]
      · intro j _ hj
        rw [if_neg hj.symm, ite_self]
      · intro h
        exact absurd (Finset.mem_univ _) h
    have hsum : (∑ j, if counts j then (((e :: es).filter (·.1 = j)).map Prod.snd).sum else 0) =
        (if counts e.1 then e.2 else 0) +
          ∑ j, if counts j then ((es.filter (·.1 = j)).map Prod.snd).sum else 0 := by
      rw [← hfirst, ← Finset.sum_add_distrib]
      apply Finset.sum_congr rfl
      intro j _
      rw [hsplit]
      split
      · rfl
      · exact (add_zero 0).symm
    rw [hsum, ← ih]
    by_cases h : counts e.1
    · simp [h]
    · simp [h]

/-- The degree of a node is the sum of its weights to all nodes. -/
theorem weightedDegree_eq : g.weightedDegree i = Modularity.degree g.weight i := by
  have h := g.sum_neighbours i fun _ => True
  simp only [decide_true, filter_true, if_true] at h
  exact h

theorem totalEdgeWeight_eq : g.totalEdgeWeight = Modularity.total g.weight := by
  unfold totalEdgeWeight Modularity.total
  simp only [← weightedDegree_eq]
  rw [flatMap_def, sum_flatten, map_map, Fin.sum_univ_def]
  rfl

end CommunityGraph

/-- A partition in which every number stands for a community. -/
structure Partition (n : ℕ) where
  size : ℕ
  label : Fin n → Fin size
  tight : Function.Surjective label

namespace Partition

variable {n : ℕ}

section

variable {C : Type} [DecidableEq C] {community : Fin n → C}

theorem mem_seen (i : Fin n) : community i ∈ Keyed.firsts id ((finRange n).map community) := by
  obtain ⟨c, hc, heq⟩ := Keyed.exists_mem_firsts id
    (mem_map_of_mem (f := community) (mem_finRange i))
  rwa [← show c = community i from heq]

theorem nodup_seen : (Keyed.firsts id ((finRange n).map community)).Nodup := by
  have h := Keyed.nodup_firsts id ((finRange n).map community)
  rwa [map_id] at h

end

/-- `densify_partition`: the first label that comes is `0`, the next new one `1`, and so on. -/
def densify {C : Type} [DecidableEq C] (community : Fin n → C) : Partition n :=
  let seen := Keyed.firsts id ((finRange n).map community)
  { size := seen.length
    label := fun i => ⟨seen.idxOf (community i), idxOf_lt_length_iff.2 (mem_seen i)⟩
    tight := by
      intro ⟨k, hk⟩
      have hfirst := (Keyed.mem_firsts_iff id).1 (getElem_mem hk)
      obtain ⟨i, -, hi⟩ := mem_map.1 (mem_of_find?_eq_some hfirst)
      refine ⟨i, Fin.ext ?_⟩
      show seen.idxOf (community i) = k
      rw [hi]
      exact Nodup.idxOf_getElem nodup_seen k hk }

/-- Renumbering tells the same nodes apart. -/
theorem densify_eq_iff {C : Type} [DecidableEq C] {community : Fin n → C} {i j : Fin n} :
    (densify community).label i = (densify community).label j ↔ community i = community j := by
  rw [Fin.ext_iff]
  exact idxOf_inj (mem_seen i)

/-- `is_singleton_partition`. -/
def isSingleton (p : Partition n) : Bool := ((finRange n).map p.label).dedup.length = n

end Partition

end Ontosyx.Community
