import Ontosyx.Community.Leiden
import Ontosyx.Lib.Along

/-!
# What one turn of community detection does

A turn leaves a node where it is or moves it to a neighbouring community of the largest
gain, which is positive; both phases take such turns and no others.

## Main results

* `settle_cases` — what a turn does.
* `Kept.moving`, `Kept.refinement` — what each turn keeps a phase keeps.
-/

namespace Ontosyx.Community

open List Lib Lib.Along Function

variable {n : ℕ} {R : Type}

/-- A candidate of a positive gain that no other exceeds. -/
structure Best (current : Fin n) (gain : Fin n × ℚ → ℚ) (candidates : List (Fin n × ℚ))
    (e : Fin n × ℚ) : Prop where
  mem : e ∈ candidates
  ne : e.1 ≠ current
  pos : 0 < gain e
  le : ∀ e' ∈ candidates, e'.1 ≠ current → gain e' ≤ gain e

/-- The search ends with the current community where nothing gains, else with a best one. -/
theorem foldl_better_cases (current : Fin n) (gain : Fin n × ℚ → ℚ)
    (candidates : List (Fin n × ℚ)) :
    (candidates.foldl (better current gain) (current, 0) = (current, 0) ∧
        ∀ e ∈ candidates, e.1 ≠ current → gain e ≤ 0) ∨ ∃ e, Best current gain candidates e ∧
        candidates.foldl (better current gain) (current, 0) = (e.1, gain e) := by
  induction candidates using reverseRecOn with
  | nil => exact .inl ⟨rfl, fun e he => absurd he not_mem_nil⟩
  | append_singleton es e ih =>
    rw [foldl_append, foldl_cons, foldl_nil, better]
    have hmem {e' : Fin n × ℚ} (h : e' ∈ es ++ [e]) : e' ∈ es ∨ e' = e := by
      simpa using h
    by_cases hcurrent : e.1 = current
    · -- The entry of the current community is passed over.
      rw [if_pos hcurrent]
      have hskip {e' : Fin n × ℚ} (h : e' ∈ es ++ [e]) (hne : e'.1 ≠ current) : e' ∈ es :=
        (hmem h).resolve_right fun heq => hne (heq ▸ hcurrent)
      cases ih with
      | inl hnone => exact .inl ⟨hnone.1, fun e' he' hne => hnone.2 e' (hskip he' hne) hne⟩
      | inr hsome =>
        obtain ⟨b, hb, hfold⟩ := hsome
        refine .inr ⟨b, ⟨mem_append_left _ hb.mem, hb.ne, hb.pos, ?_⟩, hfold⟩
        exact fun e' he' hne => hb.le e' (hskip he' hne) hne
    · rw [if_neg hcurrent]
      cases ih with
      | inl hnone =>
        rw [hnone.1]
        by_cases hgain : 0 < gain e
        · rw [if_pos hgain]
          refine .inr ⟨e, ⟨by simp, hcurrent, hgain, fun e' he' hne => ?_⟩, rfl⟩
          cases hmem he' with
          | inl hes => exact (hnone.2 e' hes hne).trans hgain.le
          | inr heq => exact (congrArg gain heq).le
        · rw [if_neg hgain]
          refine .inl ⟨rfl, fun e' he' hne => ?_⟩
          cases hmem he' with
          | inl hes => exact hnone.2 e' hes hne
          | inr heq => exact heq ▸ not_lt.1 hgain
      | inr hsome =>
        obtain ⟨b, hb, hfold⟩ := hsome
        rw [hfold]
        by_cases hgain : gain b < gain e
        · rw [if_pos hgain]
          refine .inr ⟨e, ⟨by simp, hcurrent, hb.pos.trans hgain, fun e' he' hne => ?_⟩, rfl⟩
          cases hmem he' with
          | inl hes => exact (hb.le e' hes hne).trans hgain.le
          | inr heq => exact (congrArg gain heq).le
        · rw [if_neg hgain]
          refine .inr ⟨b, ⟨mem_append_left _ hb.mem, hb.ne, hb.pos, ?_⟩, rfl⟩
          intro e' he' hne
          cases hmem he' with
          | inl hes => exact hb.le e' hes hne
          | inr heq => exact heq ▸ not_lt.1 hgain

def Moving.move (g : CommunityGraph n) (s : Moving n) (node c : Fin n) : Moving n :=
  let left := update s.totalDegree (s.community node)
    (s.totalDegree (s.community node) - g.weightedDegree node)
  { community := update s.community node c
    totalDegree := update left c (left c + g.weightedDegree node)
    moved := true
    maps := s.maps + 1 }

variable {env : Environment R} {g : CommunityGraph n} {m resolution : ℚ}
  {weightsTo : List (Fin n × ℚ)} {s : Moving n} {node : Fin n}

def BestMove (g : CommunityGraph n) (m resolution : ℚ) (weightsTo : List (Fin n × ℚ))
    (s : Moving n) (node : Fin n) : Fin n × ℚ → Prop :=
  Best (s.community node) (gainOf g m resolution s node weightsTo) weightsTo

/-- A turn leaves the node where nothing gains, else moves it to a best candidate. -/
theorem settle_cases (env : Environment R) (g : CommunityGraph n) (m resolution : ℚ)
    (weightsTo : List (Fin n × ℚ)) (s : Moving n) (node : Fin n) :
    (settle env g m resolution weightsTo s node = { s with maps := s.maps + 1 } ∧
        ∀ e ∈ weightsTo, e.1 ≠ s.community node →
          gainOf g m resolution s node weightsTo e ≤ 0) ∨
      ∃ e, BestMove g m resolution weightsTo s node e ∧
        settle env g m resolution weightsTo s node = s.move g node e.1 := by
  have hperm := env.enumerate_perm s.maps weightsTo
  have hcases := foldl_better_cases (s.community node) (gainOf g m resolution s node weightsTo)
    (env.enumerate s.maps weightsTo)
  unfold settle
  dsimp only
  cases hcases with
  | inl hnone =>
    rw [hnone.1, if_pos rfl]
    exact .inl ⟨rfl, fun e he => hnone.2 e (hperm.mem_iff.2 he)⟩
  | inr hsome =>
    obtain ⟨e, he, hfold⟩ := hsome
    rw [hfold, if_neg he.ne]
    refine .inr ⟨e, ⟨hperm.mem_iff.1 he.mem, he.ne, he.pos, fun e' he' => ?_⟩, rfl⟩
    exact he.le e' (hperm.mem_iff.2 he')

variable {counts : Fin n → Bool} {community : Fin n → Fin n}

theorem nodup_weights : ((neighbourWeights g counts community node).map Prod.fst).Nodup :=
  Tally.nodup_keys_add (Tally.nodup_keys_tally _) _ _

/-- The weight from a node into a community, over the neighbours that count. -/
def weightInto (g : CommunityGraph n) (counts : Fin n → Bool) (community : Fin n → Fin n)
    (node c : Fin n) : ℚ :=
  ∑ j, if counts j = true ∧ community j = c then g.weight node j else 0

theorem value_weights (c : Fin n) :
    Tally.value c (neighbourWeights g counts community node) =
      weightInto g counts community node c := by
  have hfilter : (((g.neighbours node).filter fun e => counts e.1).map fun e =>
      (community e.1, e.2)).filter (·.1 = c) =
        ((g.neighbours node).filter fun e => counts e.1 = true ∧ community e.1 = c).map fun e =>
          (community e.1, e.2) := by
    rw [filter_map, filter_filter]
    congr 1
    apply filter_congr
    intro e _
    simp [Bool.and_comm]
  unfold neighbourWeights weightInto
  rw [Tally.value_add, ite_self, add_zero, Tally.value_tally, hfilter, map_map,
    ← g.sum_neighbours node fun j => counts j = true ∧ community j = c]
  rfl

/-- An entry is for the own community or for that of a neighbour, and holds the weight
into it. -/
theorem of_mem_weights {e : Fin n × ℚ} (h : e ∈ neighbourWeights g counts community node) :
    e.2 = weightInto g counts community node e.1 ∧
      (e.1 = community node ∨ ∃ j, g.Adj node j ∧ counts j = true ∧ community j = e.1) := by
  obtain ⟨hkey, hvalue⟩ := (Tally.mem_iff nodup_weights).1 h
  refine ⟨by rw [← hvalue, value_weights], ?_⟩
  rw [neighbourWeights, Tally.mem_keys_add, Tally.mem_keys_tally, map_map] at hkey
  apply hkey.imp_right
  intro hmem
  obtain ⟨⟨j, w⟩, hj, hcommunity⟩ := mem_map.1 hmem
  rw [mem_filter] at hj
  exact ⟨j, ⟨w, hj.1⟩, hj.2, hcommunity⟩

/-- The degrees kept for the communities are theirs. -/
def Totals (g : CommunityGraph n) (s : Moving n) : Prop :=
  ∀ c, s.totalDegree c = ∑ i, if s.community i = c then g.weightedDegree i else 0

theorem totals_start (g : CommunityGraph n) (maps : ℕ) : Totals g (.start g maps) := by
  intro c
  show g.weightedDegree c = ∑ i, if i = c then g.weightedDegree i else 0
  rw [Finset.sum_ite_eq' Finset.univ c, if_pos (Finset.mem_univ c)]

/-- A move takes the degree of the node from one community to the other. -/
theorem totals_move (h : Totals g s) {c : Fin n} (hc : c ≠ s.community node) :
    Totals g (s.move g node c) := by
  intro d
  have hsum : (∑ i, if update s.community node c i = d then g.weightedDegree i else 0) =
      s.totalDegree d + ((if c = d then g.weightedDegree node else 0) -
        if s.community node = d then g.weightedDegree node else 0) := by
    rw [h d, ← Finset.add_sum_erase _ _ (Finset.mem_univ node),
      ← Finset.add_sum_erase _ _ (Finset.mem_univ node), update_self]
    have hothers : (∑ i ∈ Finset.univ.erase node,
          if update s.community node c i = d then g.weightedDegree i else 0) =
        ∑ i ∈ Finset.univ.erase node, if s.community i = d then g.weightedDegree i else 0 := by
      apply Finset.sum_congr rfl
      intro i hi
      rw [update_of_ne (Finset.ne_of_mem_erase hi)]
    rw [hothers]
    ring
  show (s.move g node c).totalDegree d =
    ∑ i, if update s.community node c i = d then _ else _
  rw [hsum]
  unfold Moving.move
  dsimp only
  by_cases hd : d = c
  · subst hd
    rw [update_self, update_of_ne hc, if_pos rfl, if_neg hc.symm, sub_zero]
  · rw [update_of_ne hd, if_neg (Ne.symm hd)]
    by_cases hd' : d = s.community node
    · rw [hd', update_self, if_pos rfl]
      ring
    · rw [update_of_ne hd', if_neg (Ne.symm hd')]
      ring

theorem totals_settle (h : Totals g s) : Totals g (settle env g m resolution weightsTo s node) := by
  cases settle_cases env g m resolution weightsTo s node with
  | inl hstay =>
    rw [hstay.1]
    exact h
  | inr hmove =>
    obtain ⟨e, he, heq⟩ := hmove
    rw [heq]
    exact totals_move h he.ne

/-! ## Phases -/

/-- A condition on turns: the graph, the state before, the node and the weights it has into
communities. -/
abbrev TurnCondition : Type := ∀ {k : ℕ}, CommunityGraph k → Moving k → Fin k →
  List (Fin k × ℚ) → Prop

variable (ok : TurnCondition)

/-- The turns of a sweep meet a condition. -/
def PassMeets (env : Environment R) (g : CommunityGraph n) (resolution : ℚ)
    (order : List (Fin n)) (s : Moving n) : Prop :=
  Along (visit env g resolution)
    (fun s node => ok g s node (neighbourWeightsPerCommunity g s.community node))
    { s with moved := false } order

/-- The turns of the sweeps meet a condition. -/
def PassesMeet (env : Environment R) (g : CommunityGraph n) (resolution : ℚ) :
    ℕ → List (Fin n) → Moving n → R → Prop
  | 0, _, _, _ => True
  | passes + 1, order, s, rng =>
    let (order, rng) := env.shuffle rng order
    PassMeets ok env g resolution order s ∧
      ((movingPass env g resolution order s).moved = true →
        PassesMeet env g resolution passes order (movingPass env g resolution order s) rng)

/-- The turns of the local moving phase meet a condition. -/
def MovingMeets (env : Environment R) (g : CommunityGraph n) (resolution : ℚ)
    (draws : Draws R) : Prop :=
  PassesMeet ok env g resolution 32 (List.finRange n) (.start g draws.maps) draws.rng

/-- The turns for the nodes of one community meet a condition. -/
def CommunityMeets (env : Environment R) (g : CommunityGraph n) (coarse : Partition n)
    (resolution : ℚ) (s : Moving n × R) (coarseId : Fin coarse.size) : Prop :=
  let members := (env.shuffle s.2 (coarse.members coarseId)).1
  let coarseTotalDegree := (members.map g.weightedDegree).sum
  Along (refineVisit env g coarse resolution coarseId coarseTotalDegree)
    (fun s node =>
      isWellConnected (weightIntoCoarse g node coarse coarseId) (g.weightedDegree node)
          (coarseTotalDegree - g.weightedDegree node) resolution (gainWeight g) = true →
        ok g s node (neighbourWeightsPerCommunityWithin g s.community coarse coarseId node))
    s.1 members

def RefinementMeets (env : Environment R) (g : CommunityGraph n) (coarse : Partition n)
    (resolution : ℚ) (draws : Draws R) : Prop :=
  Along (refineCommunity env g coarse resolution) (CommunityMeets ok env g coarse resolution)
    (.start g draws.maps, draws.rng) (List.finRange coarse.size)

def LevelsMeet (env : Environment R) (resolution : ℚ) : ℕ → Working n → Draws R → Prop
  | 0, _, _ => True
  | cap + 1, w, draws =>
    let (partition, draws') := localMovingPhase env w.graph resolution draws
    let (refined, draws'') := refinementPhase env w.graph partition resolution draws'
    MovingMeets ok env w.graph resolution draws ∧
      (partition.isSingleton = false →
        RefinementMeets ok env w.graph partition resolution draws' ∧
          LevelsMeet env resolution cap (w.aggregate env refined draws''.maps)
            { draws'' with maps := draws''.maps + 1 })

variable {ok}

/-- What both phases keep when each turn does. -/
structure Kept (ok : TurnCondition) (env : Environment R) (g : CommunityGraph n)
    (resolution : ℚ) (P : Moving n → Prop) : Prop where
  turn : ∀ s node counts, P s → ok g s node (neighbourWeights g counts s.community node) →
    P (settle env g (gainWeight g) resolution (neighbourWeights g counts s.community node) s node)
  sweep : ∀ s, P s → P { s with moved := false }

section

variable {P : Moving n → Prop} (hkept : Kept ok env g resolution P)

include hkept

theorem Kept.pass {order : List (Fin n)} (h : PassMeets ok env g resolution order s)
    (hs : P s) : P (movingPass env g resolution order s) :=
  Along.foldl_induct (fun s node hs hok => hkept.turn s node _ hs hok) h (hkept.sweep s hs)

theorem Kept.passes {passes : ℕ} {order : List (Fin n)} {rng : R}
    (h : PassesMeet ok env g resolution passes order s rng) (hs : P s) :
    P (movingPasses env g resolution passes order s rng).1 := by
  induction passes generalizing order s rng with
  | zero => exact hs
  | succ passes ih =>
    have hpass := hkept.pass h.1 hs
    rw [movingPasses]
    dsimp only
    split
    · rename_i hmoved
      exact ih (h.2 hmoved) hpass
    · exact hpass

/-- What each turn keeps the local moving phase keeps. -/
theorem Kept.moving {draws : Draws R} (h : MovingMeets ok env g resolution draws)
    (hstart : ∀ maps, P (.start g maps)) :
    ∃ s, P s ∧ (localMovingPhase env g resolution draws).1 = .densify s.community :=
  ⟨_, hkept.passes h (hstart draws.maps), rfl⟩

theorem Kept.refinement {coarse : Partition n} {draws : Draws R}
    (h : RefinementMeets ok env g coarse resolution draws) (hstart : ∀ maps, P (.start g maps)) :
    ∃ s, P s ∧ (refinementPhase env g coarse resolution draws).1 = .densify s.community := by
  refine ⟨_, ?_, rfl⟩
  refine Along.foldl_induct (P := fun s : Moving n × R => P s.1) ?_ h (hstart draws.maps)
  intro s coarseId hs hmeets
  refine Along.foldl_induct (fun s node hs hok => ?_) hmeets hs
  unfold refineVisit
  split
  · rename_i hconnected
    exact hkept.turn s node _ hs (hok hconnected)
  · exact hs

end

theorem passesMeet_of_forall (h : ∀ s node weightsTo, ok g s node weightsTo) (passes : ℕ)
    (order : List (Fin n)) (s : Moving n) (rng : R) :
    PassesMeet ok env g resolution passes order s rng := by
  induction passes generalizing order s rng with
  | zero => trivial
  | succ passes ih => exact ⟨along_of_forall (fun s node => h s node _) _ _, fun _ => ih _ _ _⟩

theorem refinementMeets_of_forall (h : ∀ s node weightsTo, ok g s node weightsTo)
    (coarse : Partition n) (draws : Draws R) : RefinementMeets ok env g coarse resolution draws :=
  along_of_forall (fun _ _ => along_of_forall (fun s node _ => h s node _) _ _) _ _

theorem Partition.size_le (p : Partition n) : p.size ≤ n := by
  have h := Fintype.card_le_of_surjective p.label p.tight
  rwa [Fintype.card_fin, Fintype.card_fin] at h

/-- A condition that all turns on small graphs meet is met by a run on one. -/
theorem levelsMeet_of_size {cap : ℕ} {w : Working n} {draws : Draws R}
    (h : ∀ k ≤ w.size, ∀ (g : CommunityGraph k) s node weightsTo, ok g s node weightsTo) :
    LevelsMeet ok env resolution cap w draws := by
  induction cap generalizing w draws with
  | zero => trivial
  | succ cap ih =>
    have hturns := h w.size (Nat.le_refl _) w.graph
    rw [LevelsMeet]
    refine ⟨passesMeet_of_forall hturns _ _ _ _, fun _ => ?_⟩
    refine ⟨refinementMeets_of_forall hturns _ _, ih fun k hk => h k (hk.trans ?_)⟩
    exact Partition.size_le _

end Ontosyx.Community
