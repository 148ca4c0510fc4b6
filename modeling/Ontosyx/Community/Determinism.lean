import Ontosyx.Community.Levels

/-!
# Whether two runs agree

Two runs with one seed shuffle alike, but their hash maps enumerate as they please.  The
order of the candidates of a turn matters only among those of the best gain; where there
is one at most, the turn is the same in both runs, and so is everything that follows.

## Main results

* `settle_eq` — a turn without a tie does not depend on the order of the candidates.
* `detectCommunities_deterministic` — nor does a run of such turns.
-/

namespace Ontosyx.Community

open List Lib Lib.Along Prod

variable {n : ℕ} {R : Type} {env env' : Environment R} {resolution : ℚ}

/-- The same generator behind the same shuffle. -/
structure SameSeed (env env' : Environment R) : Prop where
  seedFromU64 : env.seedFromU64 = env'.seedFromU64
  shuffle : ∀ {α : Type} (rng : R) (xs : List α), env.shuffle rng xs = env'.shuffle rng xs

/-- No two candidates share the best gain of a turn. -/
def NoTies (resolution : ℚ) : TurnCondition := fun g s node weightsTo =>
  ∀ e e', BestMove g (gainWeight g) resolution weightsTo s node e →
    BestMove g (gainWeight g) resolution weightsTo s node e' → e.1 = e'.1

/-- Each node has the same edges, in whatever order. -/
def SameEdges (g g' : CommunityGraph n) : Prop :=
  ∀ i, (g.neighbours i).Perm (g'.neighbours i)

/-! ## What does not depend on the order of edges -/

section

variable {g g' : CommunityGraph n} (h : SameEdges g g')

include h

theorem SameEdges.weightedDegree : g.weightedDegree = g'.weightedDegree :=
  funext fun i => ((h i).map snd).sum_eq

theorem SameEdges.weight : g.weight = g'.weight :=
  funext fun i => funext fun _ => (((h i).filter _).map snd).sum_eq

theorem SameEdges.gainWeight : gainWeight g = gainWeight g' := by
  rw [Community.gainWeight, Community.gainWeight, g.totalEdgeWeight_eq, g'.totalEdgeWeight_eq,
    h.weight]

theorem SameEdges.weightIntoCoarse (node : Fin n) (coarse : Partition n)
    (coarseId : Fin coarse.size) :
    weightIntoCoarse g node coarse coarseId = weightIntoCoarse g' node coarse coarseId :=
  (((h node).filter _).map snd).sum_eq

theorem SameEdges.neighbourWeights (counts : Fin n → Bool) (community : Fin n → Fin n)
    (node : Fin n) : (neighbourWeights g counts community node).Perm
      (neighbourWeights g' counts community node) := by
  apply Tally.perm_of_value_eq nodup_weights nodup_weights
  · intro c
    rw [Community.neighbourWeights, Community.neighbourWeights, Tally.mem_keys_add,
      Tally.mem_keys_add, Tally.mem_keys_tally, Tally.mem_keys_tally]
    exact or_congr_right ((((h node).filter _).map _).map fst).mem_iff
  · intro c
    rw [value_weights, value_weights, weightInto, weightInto, h.weight]

end

section

variable {g g' : CommunityGraph n} {weightsTo weightsTo' : List (Fin n × ℚ)} (m resolution : ℚ)
  (s : Moving n) (node : Fin n)

section

variable (hedges : SameEdges g g')
  (hnodup : (weightsTo.map fst).Nodup)
  (hperm : weightsTo.Perm weightsTo')
include hedges hnodup hperm

theorem gainOf_eq :
    gainOf g m resolution s node weightsTo = gainOf g' m resolution s node weightsTo' := by
  funext candidate
  rw [gainOf, gainOf, hedges.weightedDegree, Tally.value_perm hnodup hperm]

theorem bestMove_iff (e : Fin n × ℚ) :
    BestMove g' m resolution weightsTo' s node e ↔ BestMove g m resolution weightsTo s node e := by
  unfold BestMove
  rw [gainOf_eq m resolution s node hedges hnodup hperm]
  constructor
  · intro he
    exact ⟨hperm.mem_iff.2 he.mem, he.ne, he.pos, fun e' h => he.le e' (hperm.mem_iff.1 h)⟩
  · intro he
    exact ⟨hperm.mem_iff.1 he.mem, he.ne, he.pos, fun e' h => he.le e' (hperm.mem_iff.2 h)⟩

/-- A turn without a tie does not depend on the order of the candidates. -/
theorem settle_eq (hties : ∀ e e', BestMove g m resolution weightsTo s node e →
      BestMove g m resolution weightsTo s node e' → e.1 = e'.1) :
    settle env g m resolution weightsTo s node = settle env' g' m resolution weightsTo' s node := by
  have hbest := bestMove_iff m resolution s node hedges hnodup hperm
  cases settle_cases env g m resolution weightsTo s node with
  | inl hstay =>
    cases settle_cases env' g' m resolution weightsTo' s node with
    | inl hstay' => rw [hstay.1, hstay'.1]
    | inr hmove' =>
      obtain ⟨e, he, -⟩ := hmove'
      have hgains := (hbest e).1 he
      exact absurd (hstay.2 e hgains.mem hgains.ne) (not_le.2 hgains.pos)
  | inr hmove =>
    obtain ⟨e, he, heq⟩ := hmove
    cases settle_cases env' g' m resolution weightsTo' s node with
    | inl hstay' =>
      have hgains := (hbest e).2 he
      exact absurd (hstay'.2 e hgains.mem hgains.ne) (not_le.2 hgains.pos)
    | inr hmove' =>
      obtain ⟨e', he', heq'⟩ := hmove'
      rw [heq, heq', hties e e' he ((hbest e').1 he'), Moving.move, Moving.move,
        hedges.weightedDegree]

end

/-- So it is for the turns of both phases. -/
theorem settle_eq_of_noTies (hedges : SameEdges g g') (counts : Fin n → Bool)
    (hties : NoTies resolution g s node (neighbourWeights g counts s.community node)) :
    settle env g (gainWeight g) resolution (neighbourWeights g counts s.community node) s node =
      settle env' g' (gainWeight g') resolution (neighbourWeights g' counts s.community node) s
        node := by
  rw [← hedges.gainWeight]
  exact settle_eq _ _ _ _ hedges nodup_weights (hedges.neighbourWeights _ _ _) hties

end

section

variable {g g' : CommunityGraph n} (hseed : SameSeed env env') (hedges : SameEdges g g')

include hseed hedges

theorem movingPasses_eq {passes : ℕ} {order : List (Fin n)} {s : Moving n} {rng : R}
    (h : PassesMeet (NoTies resolution) env g resolution passes order s rng) :
    movingPasses env g resolution passes order s rng =
      movingPasses env' g' resolution passes order s rng := by
  induction passes generalizing order s rng with
  | zero => rfl
  | succ passes ih =>
    have hpass : movingPass env g resolution (env.shuffle rng order).1 s =
        movingPass env' g' resolution (env.shuffle rng order).1 s := by
      apply Along.foldl_rel _ h.1 rfl
      rintro s _ node rfl hties
      exact settle_eq_of_noTies resolution s node hedges _ hties
    rw [movingPasses, movingPasses, ← hseed.shuffle]
    dsimp only
    rw [← hpass]
    split
    · rename_i hmoved
      exact ih (h.2 hmoved)
    · rfl

theorem localMovingPhase_eq {draws : Draws R}
    (h : MovingMeets (NoTies resolution) env g resolution draws) :
    localMovingPhase env g resolution draws = localMovingPhase env' g' resolution draws := by
  have hstart : Moving.start g draws.maps = Moving.start g' draws.maps := by
    rw [Moving.start, Moving.start, hedges.weightedDegree]
  rw [localMovingPhase, localMovingPhase, movingPasses_eq hseed hedges h, hstart]

theorem refineCommunity_eq {coarse : Partition n} {s : Moving n × R} {coarseId : Fin coarse.size}
    (h : CommunityMeets (NoTies resolution) env g coarse resolution s coarseId) :
    refineCommunity env g coarse resolution s coarseId =
      refineCommunity env' g' coarse resolution s coarseId := by
  rw [refineCommunity, refineCommunity, ← hseed.shuffle]
  dsimp only
  congr 1
  apply Along.foldl_rel _ h rfl
  rintro s _ node rfl hties
  have htest (total : ℚ) :
      isWellConnected (weightIntoCoarse g node coarse coarseId) (g.weightedDegree node)
          (total - g.weightedDegree node) resolution (gainWeight g) =
        isWellConnected (weightIntoCoarse g' node coarse coarseId) (g'.weightedDegree node)
          (total - g'.weightedDegree node) resolution (gainWeight g') := by
    rw [hedges.weightIntoCoarse, hedges.weightedDegree, hedges.gainWeight]
  unfold refineVisit
  rw [← htest, ← hedges.weightedDegree]
  split
  · rename_i hconnected
    exact settle_eq_of_noTies resolution s node hedges _ (hties hconnected)
  · rfl

theorem refinementPhase_eq {coarse : Partition n} {draws : Draws R}
    (h : RefinementMeets (NoTies resolution) env g coarse resolution draws) :
    refinementPhase env g coarse resolution draws =
      refinementPhase env' g' coarse resolution draws := by
  have hstart : Moving.start g draws.maps = Moving.start g' draws.maps := by
    rw [Moving.start, Moving.start, hedges.weightedDegree]
  have hloop : (finRange coarse.size).foldl (refineCommunity env g coarse resolution)
        (.start g draws.maps, draws.rng) =
      (finRange coarse.size).foldl (refineCommunity env' g' coarse resolution)
        (.start g draws.maps, draws.rng) := by
    apply Along.foldl_rel _ h rfl
    rintro s _ coarseId rfl hties
    exact refineCommunity_eq hseed hedges hties
  rw [refinementPhase, refinementPhase, hloop, hstart]

end

theorem crossing_perm {g g' : CommunityGraph n} (hedges : SameEdges g g') (p : Partition n) :
    (crossing g p).Perm (crossing g' p) :=
  Perm.flatMap_left _ fun node _ => (hedges node).filterMap _

/-- The aggregate graph has the same edges, however they are enumerated. -/
theorem aggregateGraph_sameEdges (env env' : Environment R) {g g' : CommunityGraph n}
    (hedges : SameEdges g g') (p : Partition n) (maps : ℕ) :
    SameEdges (aggregateGraph env g p maps) (aggregateGraph env' g' p maps) := by
  intro i
  apply Perm.filterMap
  exact (env.enumerate_perm maps _).trans
    ((Tally.tally_perm (crossing_perm hedges p)).trans (env'.enumerate_perm maps _).symm)

/-- Two graphs with the same edges make the same levels. -/
theorem detectLevels_eq (hseed : SameSeed env env') {cap : ℕ} {w : Working n}
    {g' : CommunityGraph w.size} (hedges : SameEdges w.graph g') {draws : Draws R}
    (h : LevelsMeet (NoTies resolution) env resolution cap w draws) :
    detectLevels env resolution cap w draws =
      detectLevels env' resolution cap { w with graph := g' } draws := by
  induction cap generalizing w draws with
  | zero => rfl
  | succ cap ih =>
    rw [LevelsMeet] at h
    dsimp only at h
    obtain ⟨hmoving, hrest⟩ := h
    rw [detectLevels, detectLevels]
    dsimp only
    rw [← localMovingPhase_eq hseed hedges hmoving]
    split
    · rfl
    · rename_i hsingleton
      rw [Bool.not_eq_true] at hsingleton
      obtain ⟨hrefinement, hlevels⟩ := hrest hsingleton
      rw [← refinementPhase_eq hseed hedges hrefinement]
      have hnext := ih (aggregateGraph_sameEdges env env' hedges _ _) hlevels
      rw [hnext]
      rfl

/-! ## Emission -/

instance : Std.Total fun a b : List (Fin n) => groupBefore a b = true where
  total a b := by
    simp only [groupBefore, Bool.or_eq_true, Bool.and_eq_true, decide_eq_true_eq]
    omega

instance : IsTrans (List (Fin n)) fun a b => groupBefore a b = true where
  trans a b c := by
    simp only [groupBefore, Bool.or_eq_true, Bool.and_eq_true, decide_eq_true_eq]
    omega

/-- Two groups of a level with one lowest member are the same. -/
theorem eq_of_groupBefore {assignments : Fin n → ℕ} {maps : ℕ} {a b : List (Fin n)}
    (ha : a ∈ groupsOf env assignments maps) (hb : b ∈ groupsOf env' assignments maps)
    (hab : groupBefore a b = true) (hba : groupBefore b a = true) : a = b := by
  obtain ⟨hane, c, hac⟩ := exists_of_mem_groupsOf ha
  obtain ⟨hbne, d, hbd⟩ := exists_of_mem_groupsOf hb
  obtain ⟨x, xs, rfl⟩ := exists_cons_of_ne_nil hane
  obtain ⟨y, ys, rfl⟩ := exists_cons_of_ne_nil hbne
  have hfirst : firstMember (x :: xs) = firstMember (y :: ys) := by
    simp only [groupBefore, Bool.or_eq_true, Bool.and_eq_true, decide_eq_true_eq] at hab hba
    omega
  have hxy : x = y := Fin.ext hfirst
  have hcommunity {z : Fin n} {e : ℕ}
      (hz : z ∈ ((finRange n).filter fun o => assignments o = e).insertionSort (· ≤ ·)) :
      assignments z = e := by
    rw [(perm_insertionSort _ _).mem_iff] at hz
    simpa using hz
  have hx : assignments x = c := hcommunity (hac ▸ mem_cons_self)
  have hy : assignments y = d := hcommunity (hbd ▸ mem_cons_self)
  rw [hac, hbd, ← hx, ← hy, hxy]

variable (env env')

theorem groupsOf_eq (assignments : Fin n → ℕ) (maps : ℕ) :
    groupsOf env assignments maps = groupsOf env' assignments maps := by
  refine Perm.eq_of_pairwise (fun _ _ ha hb => eq_of_groupBefore ha hb)
    (pairwise_insertionSort _ _) (pairwise_insertionSort _ _) ?_
  have hentries := (env.enumerate_perm maps
    ((Grouped.gather assignments id (finRange n)).map snd)).trans
      (env'.enumerate_perm maps _).symm
  exact (perm_insertionSort _ _).trans
    ((hentries.map _).trans (perm_insertionSort _ _).symm)

theorem emitCommunities_eq (levels : List (Fin n → ℕ)) (maps : ℕ) :
    emitCommunities env levels maps = emitCommunities env' levels maps := by
  unfold emitCommunities emitLevel
  simp only [groupsOf_eq env env']

variable {env env'}

/-- A run without ties does not depend on the order of any hash map. -/
theorem detectCommunities_deterministic (hseed : SameSeed env env') (g : CommunityGraph n)
    (policy : CommunityDetectionPolicy)
    (h : LevelsMeet (NoTies (max policy.resolution epsilon)) env (max policy.resolution epsilon)
      (max policy.levels 1) (.start g) ⟨env.seedFromU64 policy.seed, 0⟩) :
    detectCommunities env g policy = detectCommunities env' g policy := by
  have hlevels := detectLevels_eq hseed (fun i => .refl _) h
  unfold detectCommunities
  dsimp only
  rw [← hseed.seedFromU64, hlevels]
  simp only [emitCommunities_eq env env']

/-- An environment whose maps enumerate the other way round. -/
def Environment.reversed : Environment Unit :=
  { Environment.plain with
    enumerate := fun _ xs => xs.reverse
    enumerate_perm := fun _ xs => xs.reverse_perm }

theorem sameSeed_reversed : SameSeed .plain .reversed where
  seedFromU64 := rfl
  shuffle := fun _ _ => rfl

/-- In a graph of two nodes there is one candidate at most. -/
theorem noTies_of_two (g : CommunityGraph 2) (cap : ℕ) (draws : Draws R) :
    LevelsMeet (NoTies resolution) env resolution cap (.start g) draws := by
  apply levelsMeet_of_size
  intro k hk g s node weightsTo e e' he he'
  have hsize : k ≤ 2 := hk
  have hne := Fin.val_ne_iff.2 he.ne
  have hne' := Fin.val_ne_iff.2 he'.ne
  apply Fin.ext
  omega

theorem pair_deterministic :
    detectCommunities .plain pair { resolution := 1, levels := 2, seed := 0 } =
      detectCommunities .reversed pair { resolution := 1, levels := 2, seed := 0 } := by
  have hdeterministic := detectCommunities_deterministic sameSeed_reversed pair
    { resolution := 1, levels := 2, seed := 0 }
  exact hdeterministic (noTies_of_two pair _ _)

local instance ringNonempty : NeZero 4 := ⟨four_ne_zero⟩

def ring : CommunityGraph 4 := .ofEdges [((0, 1), 1), ((1, 2), 1), ((2, 3), 1), ((3, 0), 1)]

/-- The first node of the ring has two neighbours of one gain. -/
theorem ring_not_deterministic : ¬ ∀ (env env' : Environment Unit), SameSeed env env' →
    ∀ (g : CommunityGraph 4) (policy : CommunityDetectionPolicy),
      detectCommunities env g policy = detectCommunities env' g policy := by
  intro h
  have heq := h .plain .reversed sameSeed_reversed ring { resolution := 1, levels := 1, seed := 0 }
  revert heq
  decide +kernel

end Ontosyx.Community
