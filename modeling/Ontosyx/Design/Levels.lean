import Mathlib.Algebra.GroupWithZero.Nat
import Ontosyx.Lib.Strata

/-!
# Parallel levels

`compute_parallel_levels` over the references between clusters: a pair `(i, j)`
says that cluster `i` references cluster `j`.  A level holds the clusters whose
references are all in levels before; what is left when no such cluster exists
forms the last level.

An entry of `in_degree` is `none` once it is set to the sentinel `usize::MAX`.

## Main results

* `parallelLevels_perm` — every cluster stands in exactly one level.
* `parallelLevels_earlier_iff` — a referenced cluster stands in an earlier level
  unless it is behind a cycle.
-/

namespace Ontosyx.Design

open List Lib.Strata List

variable {done level : List Nat}

section

variable (count : Nat) (refs : List (Nat × Nat))

/-! ## The algorithm -/

/-- `dag[i]`: the clusters that reference `i`. -/
def dag (i : Nat) : List Nat := (range count).filter fun j => (j, i) ∈ refs

/-- The clusters that `i` references. -/
def referenced (i : Nat) : List Nat := (range count).filter fun j => (i, j) ∈ refs

/-- `inbound_cross_count[i]`. -/
def inboundCrossCount (i : Nat) : Nat := refs.countP fun r => r.2 = i

/-- The order within a level: most-referenced first, then by index. -/
def sortLevel (level : List Nat) : List Nat :=
  level.mergeSort fun a b => decide (inboundCrossCount refs b < inboundCrossCount refs a ∨
    inboundCrossCount refs a = inboundCrossCount refs b ∧ a ≤ b)

/-- `in_degree` at the start. -/
def initialDegree (i : Nat) : Option Nat := some (referenced count refs i).length

/-- `in_degree[succ] -= 1`, unless it is the sentinel. -/
def decrement (inDegree : Nat → Option Nat) (succ : Nat) : Nat → Option Nat :=
  Function.update inDegree succ ((inDegree succ).map (· - 1))

/-- One node of a level is marked as processed. -/
def settle (inDegree : Nat → Option Nat) (node : Nat) : Nat → Option Nat :=
  (dag count refs node).foldl decrement (Function.update inDegree node none)

def readyNodes (inDegree : Nat → Option Nat) : List Nat :=
  (range count).filter fun i => inDegree i = some 0

def nextLevel (inDegree : Nat → Option Nat) : List Nat :=
  sortLevel refs (readyNodes count inDegree)

def remainingNodes (inDegree : Nat → Option Nat) : List Nat :=
  (range count).filter fun i => inDegree i ≠ none

theorem foldl_decrement {succs : List Nat} (hnd : succs.Nodup) (inDegree : Nat → Option Nat)
    (i : Nat) :
    succs.foldl decrement inDegree i =
      if i ∈ succs then (inDegree i).map (· - 1) else inDegree i := by
  induction succs generalizing inDegree with
  | nil => rfl
  | cons s succs ih =>
    rw [nodup_cons] at hnd
    rw [foldl_cons, ih hnd.2]
    by_cases his : i = s
    · subst his
      simp [hnd.1, decrement]
    · simp [his, decrement]

/-- Marking a node sets its own entry and lowers those of the clusters that
reference it. -/
theorem settle_apply (inDegree : Nat → Option Nat) (node i : Nat) :
    settle count refs inDegree node i =
      if i = node then none
      else if i ∈ dag count refs node then (inDegree i).map (· - 1) else inDegree i := by
  have hnd : (dag count refs node).Nodup := nodup_range.filter _
  rw [settle, foldl_decrement hnd]
  by_cases hi : i = node
  · subst hi
    simp
  · simp [hi]

variable {i : Nat} {inDegree : Nat → Option Nat}

theorem settle_eq_none_iff {node : Nat} :
    settle count refs inDegree node i = none ↔ i = node ∨ inDegree i = none := by
  rw [settle_apply]
  split
  · simp [*]
  · split <;> simp [*]

theorem foldl_settle_none_iff :
    level.foldl (settle count refs) inDegree i = none ↔ i ∈ level ∨ inDegree i = none := by
  induction level generalizing inDegree with
  | nil => simp
  | cons node level ih =>
    rw [foldl_cons, ih, settle_eq_none_iff, mem_cons]
    tauto

theorem mem_sortLevel : i ∈ sortLevel refs level ↔ i ∈ level :=
  (mergeSort_perm _ _).mem_iff

theorem remainingNodes_foldl_settle (level : List Nat) (inDegree : Nat → Option Nat) :
    remainingNodes count (level.foldl (settle count refs) inDegree) =
      (remainingNodes count inDegree).filter (· ∉ level) := by
  rw [remainingNodes, remainingNodes, filter_filter]
  refine filter_congr fun i _ => ?_
  rw [← Bool.coe_iff_coe]
  simp [foldl_settle_none_iff]

/-- A level that is not empty leaves fewer nodes. -/
theorem remainingNodes_lt (hlevel : nextLevel count refs inDegree ≠ []) :
    (remainingNodes count ((nextLevel count refs inDegree).foldl
        (settle count refs) inDegree)).length < (remainingNodes count inDegree).length := by
  obtain ⟨node, hnode⟩ := exists_mem_of_ne_nil _ hlevel
  have hready := mem_filter.1 ((mem_sortLevel refs).1 hnode)
  have hzero : inDegree node = some 0 := by simpa using hready.2
  rw [remainingNodes_foldl_settle, length_filter_lt_length_iff_exists]
  refine ⟨node, mem_filter.2 ⟨hready.1, by simp [hzero]⟩, ?_⟩
  simpa using hnode

/-- The level loop, and `in_degree` after it. -/
def levelLoop (inDegree : Nat → Option Nat) : List (List Nat) × (Nat → Option Nat) :=
  if h : nextLevel count refs inDegree = [] then ([], inDegree)
  else
    have := remainingNodes_lt count refs h
    let rest := levelLoop ((nextLevel count refs inDegree).foldl (settle count refs) inDegree)
    (nextLevel count refs inDegree :: rest.1, rest.2)
termination_by (remainingNodes count inDegree).length

/-- `compute_parallel_levels`; the remaining nodes form the final level. -/
def computeParallelLevels : List (List Nat) :=
  let loop := levelLoop count refs (initialDegree count refs)
  let processed := (loop.1.map (·.length)).sum
  if processed < count then loop.1 ++ [sortLevel refs (remainingNodes count loop.2)] else loop.1

/-! ## One turn of the level loop -/

/-- Cluster `i` references cluster `j`. -/
def Refers (i j : Nat) : Prop := i < count ∧ j < count ∧ (i, j) ∈ refs

theorem mem_referenced {j : Nat} : j ∈ referenced count refs i ↔ j < count ∧ (i, j) ∈ refs := by
  simp [referenced]

theorem mem_dag {j : Nat} : j ∈ dag count refs i ↔ j < count ∧ (j, i) ∈ refs := by
  simp [dag]

/-- The processed clusters carry the sentinel, and every other one the number of
unprocessed clusters that it references. -/
def Tracks (done : List Nat) (inDegree : Nat → Option Nat) : Prop :=
  ∀ i, i < count → inDegree i =
    if i ∈ done then none else some ((referenced count refs i).filter (· ∉ done)).length

theorem tracks_initialDegree : Tracks count refs [] (initialDegree count refs) := by
  intro i _
  simp [initialDegree]

/-- Without one node a list without repetitions is shorter by the node. -/
theorem length_filter_ne {l : List Nat} (hnd : l.Nodup) (a : Nat) :
    (l.filter (· ≠ a)).length = if a ∈ l then l.length - 1 else l.length := by
  have herase : l.filter (· ≠ a) = l.erase a := by
    rw [hnd.erase_eq_filter]
    refine filter_congr fun x _ => ?_
    rw [← Bool.coe_iff_coe]
    simp
  rw [herase]
  split
  · next h => exact length_erase_of_mem h
  · next h => rw [erase_of_not_mem h]

variable {count refs}

theorem Tracks.settle {inDegree : Nat → Option Nat} (h : Tracks count refs done inDegree)
    {node : Nat} (hnode : node < count) (hnew : node ∉ done) :
    Tracks count refs (done ++ [node]) (settle count refs inDegree node) := by
  intro i hi
  rw [settle_apply]
  by_cases hin : i = node
  · subst hin
    simp
  · have hmem : i ∈ done ++ [node] ↔ i ∈ done := by simp [hin]
    have hsplit : (referenced count refs i).filter (· ∉ done ++ [node]) =
        ((referenced count refs i).filter (· ∉ done)).filter (· ≠ node) := by
      rw [filter_filter]
      refine filter_congr fun x _ => ?_
      rw [← Bool.coe_iff_coe]
      simp
      tauto
    have hnd : ((referenced count refs i).filter (· ∉ done)).Nodup :=
      (nodup_range.filter _).filter _
    have hnodeRef : node ∈ (referenced count refs i).filter (· ∉ done) ↔
        i ∈ dag count refs node := by
      simp [mem_referenced, mem_dag, hnode, hi, hnew]
    rw [if_neg hin, h i hi, hsplit, length_filter_ne hnd]
    by_cases hidone : i ∈ done
    · simp [hidone]
    · simp only [hmem, hidone, if_false, hnodeRef]
      split <;> rfl

theorem Tracks.foldl_settle (h : Tracks count refs done inDegree) (hlt : ∀ x ∈ level, x < count)
    (hnew : (done ++ level).Nodup) :
    Tracks count refs (done ++ level) (level.foldl (Design.settle count refs) inDegree) := by
  induction level generalizing done inDegree with
  | nil => simpa using h
  | cons node level ih =>
    have hnot : node ∉ done := by
      intro hmem
      exact (nodup_append.1 hnew).2.2 node hmem node (.head _) rfl
    have hsnoc : done ++ node :: level = done ++ [node] ++ level := by simp
    rw [hsnoc] at hnew ⊢
    exact ih (h.settle (hlt node (.head _)) hnot) (fun x hx => hlt x (.tail _ hx)) hnew

variable {x : Nat}

/-- The next level holds the unprocessed clusters whose references are all
processed. -/
theorem Tracks.mem_readyNodes (h : Tracks count refs done inDegree) :
    x ∈ readyNodes count inDegree ↔
      x < count ∧ x ∉ done ∧ ∀ y, Refers count refs x y → y ∈ done := by
  rw [readyNodes, mem_filter, mem_range]
  refine and_congr_right fun hx => ?_
  rw [decide_eq_true_iff, h x hx]
  by_cases hdone : x ∈ done
  · simp [hdone]
  · simp only [hdone, if_false, not_false_eq_true, true_and, Option.some.injEq,
      length_eq_zero_iff, filter_eq_nil_iff, mem_referenced]
    constructor
    · intro hall y hy
      by_contra hyd
      exact hall y ⟨hy.2.1, hy.2.2⟩ (by simpa using hyd)
    · intro hall y hy hyd
      exact absurd (hall y ⟨hx, hy⟩) (by simpa using hyd)

theorem Tracks.mem_remainingNodes (h : Tracks count refs done inDegree) :
    x ∈ remainingNodes count inDegree ↔ x < count ∧ x ∉ done := by
  rw [remainingNodes, mem_filter, mem_range]
  refine and_congr_right fun hx => ?_
  rw [decide_eq_true_iff, h x hx]
  by_cases hdone : x ∈ done <;> simp [hdone]

/-- What the level loop has laid out: processed clusters once each, each after
the clusters it references. -/
structure Laid (count : Nat) (refs : List (Nat × Nat)) (levels : List (List Nat)) : Prop where
  nodup : levels.flatten.Nodup
  bounded : ∀ x ∈ levels.flatten, x < count
  layered : Layered (Refers count refs) levels

theorem laid_nil : Laid count refs [] where
  nodup := nodup_nil
  bounded := by simp
  layered := layered_nil

theorem Laid.concat {levels : List (List Nat)} {inDegree : Nat → Option Nat}
    (h : Laid count refs levels) (ht : Tracks count refs levels.flatten inDegree) :
    Laid count refs (levels ++ [nextLevel count refs inDegree]) := by
  have hready : ∀ x ∈ nextLevel count refs inDegree,
      x < count ∧ x ∉ levels.flatten ∧ ∀ y, Refers count refs x y → y ∈ levels.flatten := by
    intro x hx
    exact ht.mem_readyNodes.1 ((mem_sortLevel refs).1 hx)
  refine { nodup := ?_, bounded := ?_, layered := ?_ }
  · rw [flatten_append, flatten_singleton]
    refine Nodup.append h.nodup ?_ ?_
    · exact (mergeSort_perm _ _).nodup_iff.2 (nodup_range.filter _)
    · intro x hx hx'
      exact (hready x hx').2.1 hx
  · intro x hx
    rw [flatten_append, flatten_singleton, mem_append] at hx
    rcases hx with hx | hx
    · exact h.bounded x hx
    · exact (hready x hx).1
  · exact h.layered.concat fun x hx => (hready x hx).2.2

/-- The loop lays out levels until no cluster is ready. -/
theorem levelLoop_spec {levels : List (List Nat)} (h : Laid count refs levels)
    (ht : Tracks count refs levels.flatten inDegree) :
    Laid count refs (levels ++ (levelLoop count refs inDegree).1) ∧
      Tracks count refs (levels ++ (levelLoop count refs inDegree).1).flatten
        (levelLoop count refs inDegree).2 ∧
      readyNodes count (levelLoop count refs inDegree).2 = [] := by
  induction inDegree using levelLoop.induct count refs generalizing levels with
  | case1 inDegree hempty =>
    rw [levelLoop, dif_pos hempty]
    refine ⟨by simpa using h, by simpa using ht, ?_⟩
    have hlength := congrArg length hempty
    rw [nextLevel, sortLevel, length_mergeSort] at hlength
    exact length_eq_zero_iff.1 hlength
  | case2 inDegree hnonempty _ ih =>
    have hlaid := h.concat ht
    have htracks : Tracks count refs (levels ++ [nextLevel count refs inDegree]).flatten
        ((nextLevel count refs inDegree).foldl (Design.settle count refs) inDegree) := by
      rw [flatten_append, flatten_singleton]
      refine ht.foldl_settle ?_ ?_
      · intro x hx
        exact (ht.mem_readyNodes.1 ((mem_sortLevel refs).1 hx)).1
      · simpa using hlaid.nodup
    have hrest := ih hlaid htracks
    rw [levelLoop, dif_neg hnonempty]
    simpa using hrest

theorem computeParallelLevels_zero : computeParallelLevels 0 refs = [] := by
  have hempty : nextLevel 0 refs (initialDegree 0 refs) = [] := by
    simp [nextLevel, readyNodes, sortLevel]
  rw [computeParallelLevels, levelLoop, dif_pos hempty]
  rfl

/-! ## The levels of a plan -/

variable (count refs)

def loopLevels : List (List Nat) := (levelLoop count refs (initialDegree count refs)).1

theorem loopLevels_spec : Laid count refs (loopLevels count refs) ∧
      Tracks count refs (loopLevels count refs).flatten
        (levelLoop count refs (initialDegree count refs)).2 ∧
      readyNodes count (levelLoop count refs (initialDegree count refs)).2 = [] :=
  levelLoop_spec laid_nil (tracks_initialDegree count refs)

/-- The clusters that the loop leaves. -/
def leftOver : List Nat :=
  sortLevel refs (remainingNodes count (levelLoop count refs (initialDegree count refs)).2)

theorem mem_leftOver :
    x ∈ leftOver count refs ↔ x < count ∧ x ∉ (loopLevels count refs).flatten := by
  rw [leftOver, mem_sortLevel, (loopLevels_spec count refs).2.1.mem_remainingNodes]

/-- The levels of the loop and what it leaves are a permutation of the clusters. -/
theorem flatten_append_leftOver_perm :
    ((loopLevels count refs).flatten ++ leftOver count refs).Perm (range count) := by
  have hspec := (loopLevels_spec count refs).1
  rw [perm_ext_iff_of_nodup ?_ nodup_range]
  · intro x
    rw [mem_append, mem_leftOver, mem_range]
    constructor
    · rintro (hx | hx)
      · exact hspec.bounded x hx
      · exact hx.1
    · intro hx
      by_cases hmem : x ∈ (loopLevels count refs).flatten
      · exact Or.inl hmem
      · exact Or.inr ⟨hx, hmem⟩
  · refine Nodup.append hspec.nodup ?_ ?_
    · exact (mergeSort_perm _ _).nodup_iff.2 (nodup_range.filter _)
    · intro x hx hx'
      exact ((mem_leftOver count refs).1 hx').2 hx

theorem computeParallelLevels_eq :
    computeParallelLevels count refs =
      if leftOver count refs = [] then loopLevels count refs
      else loopLevels count refs ++ [leftOver count refs] := by
  have hlength := (flatten_append_leftOver_perm count refs).length_eq
  rw [length_append, length_range, length_flatten] at hlength
  change ((loopLevels count refs).map (·.length)).sum + _ = count at hlength
  have hsum : ((loopLevels count refs).map (·.length)).sum < count ↔
      ¬ leftOver count refs = [] := by
    rw [← length_eq_zero_iff]
    omega
  show (if ((loopLevels count refs).map (·.length)).sum < count then
    loopLevels count refs ++ [leftOver count refs] else loopLevels count refs) = _
  simp only [hsum, ite_not]

/-- Every cluster stands in exactly one level. -/
theorem parallelLevels_perm :
    (computeParallelLevels count refs).flatten.Perm (range count) := by
  have h := flatten_append_leftOver_perm count refs
  rw [computeParallelLevels_eq]
  split
  · next hempty =>
      rw [hempty, append_nil] at h
      exact h
  · rw [flatten_append, flatten_singleton]
    exact h

/-- What the loop leaves is what stands behind a cycle. -/
theorem mem_leftOver_iff_behind (hx : x < count) :
    x ∈ leftOver count refs ↔ Behind (Refers count refs) x := by
  obtain ⟨hlaid, htracks, hready⟩ := loopLevels_spec count refs
  constructor
  · intro hleft
    have hfin : {y | y ∈ leftOver count refs}.Finite := finite_toSet _
    refine behind_of_stuck hfin ?_ hleft
    intro y hy
    obtain ⟨hlt, hnot⟩ := (mem_leftOver count refs).1 hy
    -- Were every reference of `y` processed, `y` would be ready.
    have hstuck : ¬ ∀ z, Refers count refs y z → z ∈ (loopLevels count refs).flatten := by
      intro hall
      have hmem := htracks.mem_readyNodes.2 ⟨hlt, hnot, hall⟩
      rw [hready] at hmem
      exact absurd hmem (not_mem_nil)
    obtain ⟨z, hstuck⟩ := not_forall.1 hstuck
    obtain ⟨hyz, hz⟩ := Classical.not_imp.1 hstuck
    exact ⟨z, (mem_leftOver count refs).2 ⟨hyz.2.1, hz⟩, hyz⟩
  · intro hbehind
    rw [mem_leftOver]
    exact ⟨hx, fun hmem => hlaid.layered.not_behind x hmem hbehind⟩

/-- A referenced cluster stands in an earlier level exactly when it is not behind
a cycle. -/
theorem parallelLevels_earlier_iff {y : Nat} (hxy : Refers count refs x y) :
    Earlier (computeParallelLevels count refs) y x ↔ ¬ Behind (Refers count refs) y := by
  obtain ⟨hlaid, -, -⟩ := loopLevels_spec count refs
  have hy := mem_leftOver_iff_behind count refs hxy.2.1
  rw [← hy, mem_leftOver, computeParallelLevels_eq]
  constructor
  · intro hearlier hleft
    split at hearlier
    · next hempty =>
        have hmem := (mem_leftOver count refs).2 hleft
        rw [hempty] at hmem
        exact absurd hmem (not_mem_nil)
    · exact hleft.2 hearlier.mem_init
  · intro hnot
    have hmem : y ∈ (loopLevels count refs).flatten := by
      by_contra hno
      exact hnot ⟨hxy.2.1, hno⟩
    by_cases hx : x ∈ (loopLevels count refs).flatten
    · have hearlier := hlaid.layered.earlier hx hxy
      split
      · exact hearlier
      · exact hearlier.append _
    · have hleft : x ∈ leftOver count refs := (mem_leftOver count refs).2 ⟨hxy.1, hx⟩
      rw [if_neg (ne_nil_of_mem hleft)]
      exact ⟨loopLevels count refs, leftOver count refs, [], rfl, hleft, hmem⟩

end

end Ontosyx.Design
