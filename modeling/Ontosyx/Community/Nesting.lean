import Ontosyx.Community.Levels

/-!
# Whether the levels are nested

Every level is a partition of the input.  The next level is built from the refined
communities and starts from each of them alone, so what a refinement splits may part for
good; where it splits nothing, each level is coarser than the one before.

## Main results

* `detectLevels_pairwise` — where refinements split nothing, each level joins what the ones
  before it joined.
* `communities_nested` — the communities of a level are unions of those of the level below.
-/

namespace Ontosyx.Community

open List

variable {n : ℕ} {R : Type} {env : Environment R} {resolution : ℚ}

def Whole {k : ℕ} (p refined : Partition k) : Prop :=
  ∀ i j, p.label i = p.label j → refined.label i = refined.label j

instance {k : ℕ} (p refined : Partition k) : Decidable (Whole p refined) :=
  inferInstanceAs (Decidable (∀ i j, p.label i = p.label j → refined.label i = refined.label j))

/-- No refinement that a further level is built from splits a community. -/
def KeepsWhole (env : Environment R) (resolution : ℚ) : ℕ → Working n → Draws R → Prop
  | 0, _, _ => True
  | cap + 1, w, draws =>
    let (partition, draws) := localMovingPhase env w.graph resolution draws
    let (refined, draws) := refinementPhase env w.graph partition resolution draws
    partition.isSingleton = false → cap ≠ 0 →
      Whole partition refined ∧
        KeepsWhole env resolution cap (w.aggregate env refined draws.maps)
          { draws with maps := draws.maps + 1 }

/-- Nodes that one node stands for share their community on every level. -/
theorem eq_of_home_eq {cap : ℕ} {w : Working n} {draws : Draws R} {x y : Fin n}
    (h : w.home x = w.home y) : ∀ a ∈ (detectLevels env resolution cap w draws).1, a x = a y := by
  induction cap generalizing w draws with
  | zero => exact fun a ha => absurd ha not_mem_nil
  | succ cap ih =>
    have hfirst (p : Partition w.size) : projectToOriginal p w.currentToOriginal x =
        projectToOriginal p w.currentToOriginal y := by
      rw [projectToOriginal_eq, projectToOriginal_eq, h]
    rw [detectLevels]
    dsimp only
    split
    · rw [forall_mem_singleton]
      exact hfirst _
    · rw [forall_mem_cons]
      refine ⟨hfirst _, ih ?_⟩
      rw [Working.home_aggregate, Working.home_aggregate, h]

/-- Where refinements split nothing, each level joins what the ones before it joined. -/
theorem detectLevels_pairwise {cap : ℕ} {w : Working n} {draws : Draws R}
    (h : KeepsWhole env resolution cap w draws) :
    (detectLevels env resolution cap w draws).1.Pairwise fun a b =>
      ∀ x y, a x = a y → b x = b y := by
  induction cap generalizing w draws with
  | zero => exact Pairwise.nil
  | succ cap ih =>
    rw [KeepsWhole] at h
    dsimp only at h
    rw [detectLevels]
    dsimp only
    split
    · exact pairwise_singleton _ _
    · rename_i hsingleton
      rw [Bool.not_eq_true] at hsingleton
      rw [pairwise_cons]
      by_cases hcap : cap = 0
      · subst hcap
        exact ⟨fun a ha => absurd ha not_mem_nil, Pairwise.nil⟩
      · obtain ⟨hwhole, hrest⟩ := h hsingleton hcap
        refine ⟨fun a ha x y hxy => ?_, ih hrest⟩
        rw [projectToOriginal_eq, projectToOriginal_eq, ← Fin.ext_iff] at hxy
        apply eq_of_home_eq _ a ha
        rw [Working.home_aggregate, Working.home_aggregate, hwhole _ _ hxy]

/-- On every level each node stands in one community, once. -/
def LevelsPartition (result : DetectionResult n) : Prop :=
  ∀ l < result.levelsProduced,
    ((result.communities.filter (·.level = l)).flatMap (·.members)).Perm (List.finRange n)

/-- Each community of a level is a union of communities of the level below. -/
def LevelsNested (result : DetectionResult n) : Prop :=
  ∀ c' ∈ result.communities, ∀ l, c'.level = l + 1 → ∀ o ∈ c'.members,
    ∃ c ∈ result.communities, c.level = l ∧ o ∈ c.members ∧ c.members ⊆ c'.members

/-- The communities of a level hold each node once. -/
theorem communities_partition {g : CommunityGraph n} {policy : CommunityDetectionPolicy}
    {result : DetectionResult n} (h : detectCommunities env g policy = .ok result) :
    LevelsPartition result := by
  obtain ⟨-, rfl⟩ := detect_ok_iff.1 h
  intro l hl
  rw [emitCommunities_level hl, flatMap_def, emitLevel_members]
  exact groupsOf_flatten _ _ _

/-- The levels of a run are partitions, and nested where no refinement splits a community. -/
theorem communities_nested {g : CommunityGraph n} {policy : CommunityDetectionPolicy}
    {result : DetectionResult n} (h : detectCommunities env g policy = .ok result) :
    LevelsPartition result ∧
      (KeepsWhole env (max policy.resolution epsilon) (max policy.levels 1) (.start g)
        ⟨env.seedFromU64 policy.seed, 0⟩ → LevelsNested result) := by
  refine ⟨communities_partition h, fun hwhole => ?_⟩
  have hpairwise := detectLevels_pairwise hwhole
  obtain ⟨-, rfl⟩ := detect_ok_iff.1 h
  intro c' hc' l hlevel o ho
  obtain ⟨l', hl', hmem⟩ := mem_emit_iff.1 hc'
  obtain ⟨hl, hgroup⟩ := mem_emitLevel hmem
  obtain rfl : l' = l + 1 := hl.symm.trans hlevel
  obtain ⟨first, -, hclass'⟩ := mem_groupsOf hgroup
  obtain ⟨c, hc, hoc, hclass⟩ := exists_emitLevel l _ _ o
  refine ⟨c, mem_emit_iff.2 ⟨l, Nat.lt_of_succ_lt hl', hc⟩,
    (mem_emitLevel hc).1, hoc, ?_⟩
  intro x hx
  rw [hclass'] at ho ⊢
  rw [← ho]
  exact pairwise_iff_getElem.1 hpairwise l (l + 1) _ hl' (Nat.lt_succ_self l) x o
    ((hclass x).1 hx)

theorem pair_nested : ∃ result,
    detectCommunities .plain pair { resolution := 1, levels := 2, seed := 0 } = .ok result ∧
      LevelsPartition result ∧ LevelsNested result := by
  have hnested := communities_nested pair_run
  refine ⟨_, pair_run, hnested.1, hnested.2 fun _ _ => ⟨?_, fun _ hcap => absurd rfl hcap⟩⟩
  decide +kernel

local instance starNonempty : NeZero 4 := ⟨four_ne_zero⟩

/-- A node between three others, tied to each with its own weight. -/
def star : CommunityGraph 4 := .ofEdges [((2, 0), 3), ((2, 1), 1), ((3, 2), 6)]

/-- What the first level puts together the second one parts. -/
theorem star_not_nested : ¬ ∀ (env : Environment Unit) (g : CommunityGraph 4)
    (policy : CommunityDetectionPolicy) (result : DetectionResult 4),
    detectCommunities env g policy = .ok result → LevelsPartition result ∧ LevelsNested result := by
  intro h
  have hrun : detectCommunities .plain star { resolution := 3 / 2, levels := 2, seed := 0 } =
      .ok { communities := [⟨0, "c-0-0", [1, 2, 3]⟩, ⟨0, "c-0-1", [0]⟩, ⟨1, "c-1-0", [0, 2, 3]⟩,
              ⟨1, "c-1-1", [1]⟩]
            modularity := -167 / 400
            levelsProduced := 2 } := by
    decide +kernel
  have hnested := (h _ _ _ _ hrun).2 ⟨1, "c-1-1", [1]⟩ (by decide) 0 rfl 1 (by decide)
  revert hnested
  decide

end Ontosyx.Community
