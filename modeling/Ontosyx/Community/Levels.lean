import Ontosyx.Community.Moves

/-!
# Levels and what is emitted of them

Each node of the input is represented by one node of every graph that a level works on.
A level gives it the community of that node, and what is emitted are the classes of nodes
with one community.

## Main results

* `projectToOriginal_eq` — a node has the community of the one that stands for it.
* `mem_emit_iff`, `emitCommunities_level` — a level is emitted class by class.
-/

namespace Ontosyx.Community

open List Lib

variable {n : ℕ} {R : Type} {env : Environment R}

namespace Working

/-- The node that stands for one of the input. -/
noncomputable def home (w : Working n) (original : Fin n) : Fin w.size :=
  (w.covers original).choose

theorem mem_iff {w : Working n} {original : Fin n} {node : Fin w.size} :
    original ∈ w.currentToOriginal node ↔ w.home original = node := by
  rw [(w.covers original).choose_spec node, eq_comm]
  rfl

theorem home_start (g : CommunityGraph n) (original : Fin n) :
    (Working.start g).home original = original :=
  mem_iff.1 (mem_singleton.2 rfl)

/-- In the next graph the refined community of the node stands for it. -/
theorem home_aggregate (w : Working n) (refined : Partition w.size) (maps : ℕ) (original : Fin n) :
    (w.aggregate env refined maps).home original = refined.label (w.home original) := by
  apply mem_iff.1
  show original ∈ chainMembership refined w.currentToOriginal (refined.label (w.home original))
  rw [chainMembership, mem_flatMap]
  refine ⟨w.home original, mem_finRange _, ?_⟩
  rw [if_pos rfl, mem_iff]

end Working

theorem foldl_update_const {originals : List (Fin n)} {label : ℕ} (assignments : Fin n → ℕ)
    (o : Fin n) :
    originals.foldl (fun a original => Function.update a original label) assignments o =
      if o ∈ originals then label else assignments o := by
  induction originals generalizing assignments with
  | nil => simp
  | cons original originals ih =>
    rw [foldl_cons, ih]
    by_cases hmem : o ∈ originals
    · rw [if_pos hmem, if_pos (mem_cons_of_mem _ hmem)]
    · rw [if_neg hmem]
      by_cases heq : o = original
      · rw [heq, Function.update_self, if_pos mem_cons_self]
      · rw [Function.update_of_ne heq, if_neg]
        simp [heq, hmem]

/-- A node has the community of the one that stands for it. -/
theorem projectToOriginal_eq (w : Working n) (p : Partition w.size) (original : Fin n) :
    projectToOriginal p w.currentToOriginal original = (p.label (w.home original)).val := by
  have hfold (nodes : List (Fin w.size)) (assignments : Fin n → ℕ) :
      nodes.foldl (fun a node => (w.currentToOriginal node).foldl
        (fun a o => Function.update a o (p.label node).val) a) assignments original =
          if w.home original ∈ nodes then (p.label (w.home original)).val
          else assignments original := by
    induction nodes generalizing assignments with
    | nil => simp
    | cons node nodes ih =>
      rw [foldl_cons, ih, foldl_update_const]
      by_cases hmem : w.home original ∈ nodes
      · rw [if_pos hmem, if_pos (mem_cons_of_mem _ hmem)]
      · rw [if_neg hmem]
        by_cases heq : w.home original = node
        · rw [if_pos (Working.mem_iff.2 heq), heq, if_pos mem_cons_self]
        · rw [if_neg (mt Working.mem_iff.1 heq), if_neg]
          simp [heq, hmem]
  exact (hfold _ _).trans (if_pos (mem_finRange _))

/-! ## Emission -/

/-- The groups of a level hold every node once. -/
theorem groupsOf_flatten (env : Environment R) (assignments : Fin n → ℕ) (maps : ℕ) :
    (groupsOf env assignments maps).flatten.Perm (List.finRange n) := by
  have hsorted (groups : List (List (Fin n))) :
      (groups.map fun group => group.insertionSort (· ≤ ·)).flatten.Perm groups.flatten := by
    induction groups with
    | nil => exact .refl _
    | cons group groups ih =>
      rw [map_cons, flatten_cons, flatten_cons]
      exact (perm_insertionSort _ group).append ih
  have hgather : ((Grouped.gather assignments id (finRange n)).map Prod.snd).flatten.Perm
      (finRange n) := by
    rw [← flatMap_def]
    have h := Grouped.gather_perm assignments id (finRange n)
    rwa [map_id] at h
  have henumerated := (env.enumerate_perm maps
    ((Grouped.gather assignments id (finRange n)).map Prod.snd)).flatten
  exact (perm_insertionSort _ _).flatten.trans
    ((hsorted _).trans (henumerated.trans hgather))

variable {maps : ℕ}

/-- A group of a level is made of the nodes of one community, in order. -/
theorem exists_of_mem_groupsOf {assignments : Fin n → ℕ} {group : List (Fin n)}
    (h : group ∈ groupsOf env assignments maps) : group ≠ [] ∧ ∃ community, group =
      ((List.finRange n).filter fun o => assignments o = community).insertionSort (· ≤ ·) := by
  rw [groupsOf, (perm_insertionSort _ _).mem_iff, mem_map] at h
  obtain ⟨unsorted, hunsorted, rfl⟩ := h
  rw [(env.enumerate_perm maps _).mem_iff, mem_map] at hunsorted
  obtain ⟨entry, hentry, rfl⟩ := hunsorted
  constructor
  · intro hnil
    have hperm := perm_insertionSort (· ≤ ·) entry.2
    rw [hnil] at hperm
    exact Grouped.ne_nil_of_mem_gather assignments id hentry hperm.nil_eq.symm
  · refine ⟨entry.1, ?_⟩
    rw [Grouped.snd_of_mem_gather assignments id hentry, map_id]

/-- A group of a level is a class of nodes with one community. -/
theorem mem_groupsOf {assignments : Fin n → ℕ} {group : List (Fin n)}
    (h : group ∈ groupsOf env assignments maps) :
    ∃ original ∈ group, ∀ o, o ∈ group ↔ assignments o = assignments original := by
  obtain ⟨hne, community, hgroup⟩ := exists_of_mem_groupsOf h
  have hmem (o : Fin n) : o ∈ group ↔ assignments o = community := by
    rw [hgroup, (perm_insertionSort _ _).mem_iff]
    simp
  obtain ⟨original, horiginal⟩ := exists_mem_of_ne_nil _ hne
  refine ⟨original, horiginal, fun o => ?_⟩
  rw [hmem, (hmem original).1 horiginal]

theorem mem_emit_iff {levels : List (Fin n → ℕ)} {c : DetectedCommunity n} :
    c ∈ emitCommunities env levels maps ↔
      ∃ (l : ℕ) (hl : l < levels.length), c ∈ emitLevel env l levels[l] (maps + l) := by
  rw [emitCommunities, mem_flatten]
  simp only [mem_mapIdx]
  constructor
  · rintro ⟨_, ⟨l, hl, rfl⟩, hc⟩
    exact ⟨l, hl, hc⟩
  · rintro ⟨l, hl, hc⟩
    exact ⟨_, ⟨l, hl, rfl⟩, hc⟩

theorem mem_emitLevel {level : ℕ} {assignments : Fin n → ℕ} {c : DetectedCommunity n}
    (h : c ∈ emitLevel env level assignments maps) :
    c.level = level ∧ c.members ∈ groupsOf env assignments maps := by
  rw [emitLevel, mem_mapIdx] at h
  obtain ⟨seq, hseq, rfl⟩ := h
  exact ⟨rfl, getElem_mem hseq⟩

theorem emitLevel_members (level maps : ℕ) (assignments : Fin n → ℕ) :
    (emitLevel env level assignments maps).map (·.members) = groupsOf env assignments maps := by
  rw [emitLevel, mapIdx_eq_zipIdx_map, map_map]
  exact zipIdx_map_fst 0 _

/-- Every class of nodes with one community is emitted. -/
theorem exists_emitLevel (level maps : ℕ) (assignments : Fin n → ℕ) (original : Fin n) :
    ∃ c ∈ emitLevel env level assignments maps, original ∈ c.members ∧
      ∀ o, o ∈ c.members ↔ assignments o = assignments original := by
  have hmem := (groupsOf_flatten env assignments maps).mem_iff.2
    (mem_finRange original)
  obtain ⟨group, hgroup, horiginal⟩ := mem_flatten.1 hmem
  obtain ⟨first, -, hclass⟩ := mem_groupsOf hgroup
  rw [← emitLevel_members level, mem_map] at hgroup
  obtain ⟨c, hc, rfl⟩ := hgroup
  refine ⟨c, hc, horiginal, fun o => ?_⟩
  rw [hclass, (hclass original).1 horiginal]

theorem emitCommunities_level {levels : List (Fin n → ℕ)} {l : ℕ} (hl : l < levels.length) :
    (emitCommunities env levels maps).filter (·.level = l) =
      emitLevel env l levels[l] (maps + l) := by
  have hlevel (k : ℕ) (a : Fin n → ℕ) : (emitLevel env k a (maps + k)).filter (·.level = l) =
      if k = l then emitLevel env k a (maps + k) else [] := by
    split
    · rename_i heq
      rw [filter_eq_self]
      intro c hc
      rw [(mem_emitLevel hc).1, decide_eq_true_eq]
      exact heq
    · rename_i hne
      rw [filter_eq_nil_iff]
      intro c hc
      rw [(mem_emitLevel hc).1, decide_eq_true_eq]
      exact hne
  have hnone (ls : List (Fin n → ℕ)) (hls : ls.length ≤ l) :
      (emitCommunities env ls maps).filter (·.level = l) = [] := by
    rw [filter_eq_nil_iff]
    intro c hc
    obtain ⟨k, hk, hmem⟩ := mem_emit_iff.1 hc
    rw [(mem_emitLevel hmem).1, decide_eq_true_eq]
    omega
  induction levels using reverseRecOn with
  | nil => exact absurd hl (Nat.not_lt_zero l)
  | append_singleton levels last ih =>
    have hsplit : emitCommunities env (levels ++ [last]) maps =
        emitCommunities env levels maps ++ emitLevel env levels.length last
          (maps + levels.length) := by
      rw [emitCommunities, mapIdx_concat, flatten_append, flatten_singleton]
      rfl
    rw [hsplit, filter_append, hlevel]
    by_cases hlast : levels.length = l
    · subst hlast
      rw [if_pos rfl, hnone levels (Nat.le_refl _), nil_append, getElem_concat_length]
      rfl
    · rw [if_neg hlast, append_nil]
      rw [length_append, length_singleton] at hl
      rw [ih (by omega), getElem_append_left (by omega)]

/-- A run of `detect_communities` on a graph that has nodes. -/
theorem detect_ok_iff {g : CommunityGraph n} {policy : CommunityDetectionPolicy}
    {result : DetectionResult n} :
    detectCommunities env g policy = .ok result ↔
      n ≠ 0 ∧
        let resolution := max policy.resolution epsilon
        let run := detectLevels env resolution (max policy.levels 1) (.start g)
          ⟨env.seedFromU64 policy.seed, 0⟩
        { communities := emitCommunities env run.1 run.2.maps
          modularity := (run.1.head?.map fun level0 =>
            modularityOfPartition g level0 resolution).getD 0
          levelsProduced := run.1.length } = result := by
  unfold detectCommunities
  by_cases hn : n = 0
  · rw [if_pos hn]
    exact ⟨fun h => (nomatch h), fun h => absurd hn h.1⟩
  · rw [if_neg hn, Except.ok.injEq]
    exact ⟨fun h => ⟨hn, h⟩, fun h => h.2⟩

/-- Two nodes with an edge. -/
def pair : CommunityGraph 2 := .ofEdges [((0, 1), 1)]

/-- The two nodes are one community, on both levels. -/
theorem pair_run :
    detectCommunities .plain pair { resolution := 1, levels := 2, seed := 0 } =
      .ok { communities := [⟨0, "c-0-0", [0, 1]⟩, ⟨1, "c-1-0", [0, 1]⟩]
            modularity := 0
            levelsProduced := 2 } := by
  decide +kernel

end Ontosyx.Community
