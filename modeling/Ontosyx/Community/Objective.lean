import Ontosyx.Community.Levels

/-!
# Modularity, moves and aggregation

The modularity that is computed community by community is the sum over pairs of nodes.
A turn raises it by the gain it was chosen for, since the degrees kept for the communities
are theirs and the gain is divided by the weight of the graph; below `f32::EPSILON` it is
divided by that.  Aggregation drops the edges inside communities, and keeps the modularity
of what is left.

## Main results

* `modularityOf_eq` — the computed modularity is the sum over pairs.
* `localMoving_climbs` — moves raise it by their gains, and the sweeps come to an end.
* `modularityOfPartition_aggregate` — partitions of the aggregate graph are those of the
  graph without the edges inside communities.
-/

namespace Ontosyx.Community

open Lib Lib.Along Finset Modularity Prod

variable {n : ℕ} {R : Type}

/-! ## Sums -/

theorem sum_filter_finRange (counts : Fin n → Prop) [DecidablePred counts] (f : Fin n → ℚ) :
    (((List.finRange n).filter fun i => counts i).map f).sum =
      ∑ i, if counts i then f i else 0 := by
  rw [Fin.sum_univ_def]
  induction List.finRange n with
  | nil => rfl
  | cons i is ih =>
    by_cases h : counts i
    · simp [h, ih]
    · simp [h, ih]

theorem sum_map_range (k : ℕ) (f : ℕ → ℚ) : ((List.range k).map f).sum = ∑ c ∈ range k, f c := by
  induction k with
  | zero => rfl
  | succ k ih => simp [List.range_succ, sum_range_succ, ih]

theorem sum_pairs (f : Fin n → Fin n → ℚ) (hself : ∀ i, f i i = 0) :
    ∑ i, ∑ j, f i j = ∑ i, ∑ j, if i < j then f i j + f j i else 0 := by
  have hsplit (i j : Fin n) :
      f i j = (if i < j then f i j else 0) + if j < i then f i j else 0 := by
    rcases lt_trichotomy i j with hlt | heq | hgt
    · rw [if_pos hlt, if_neg hlt.asymm, add_zero]
    · rw [heq, hself, if_neg (lt_irrefl j), add_zero]
    · rw [if_neg hgt.asymm, if_pos hgt, zero_add]
  calc
    ∑ i, ∑ j, f i j
      = ∑ i, ∑ j, ((if i < j then f i j else 0) + if j < i then f i j else 0) :=
        sum_congr rfl fun i _ => sum_congr rfl fun j _ => hsplit i j
    _ = (∑ i, ∑ j, if i < j then f i j else 0) + ∑ i, ∑ j, if j < i then f i j else 0 := by
        simp only [sum_add_distrib]
    _ = (∑ i, ∑ j, if i < j then f i j else 0) + ∑ i, ∑ j, if i < j then f j i else 0 := by
        rw [sum_comm (f := fun i j => if j < i then f i j else 0)]
    _ = ∑ i, ∑ j, if i < j then f i j + f j i else 0 := by
        simp only [← sum_add_distrib]
        apply sum_congr rfl
        intro i _
        apply sum_congr rfl
        intro j _
        split
        · rfl
        · exact add_zero 0

theorem lt_communityCount (partition : Fin n → ℕ) (i : Fin n) :
    partition i < communityCount partition := by
  unfold communityCount
  cases hmax : ((List.finRange n).map partition).max? with
  | none =>
    rw [List.max?_eq_none_iff, List.map_eq_nil_iff] at hmax
    have hmem := List.mem_finRange i
    rw [hmax] at hmem
    exact absurd hmem List.not_mem_nil
  | some top =>
    have hle := (List.max?_eq_some_iff.1 hmax).2 (partition i)
      (List.mem_map_of_mem (List.mem_finRange i))
    exact Nat.lt_succ_of_le hle

theorem sum_communities (partition : Fin n → ℕ) (f : Fin n → ℕ → ℚ) :
    ∑ c ∈ range (communityCount partition), ∑ i, (if partition i = c then f i c else 0) =
      ∑ i, f i (partition i) := by
  rw [sum_comm]
  apply sum_congr rfl
  intro i _
  rw [sum_ite_eq, if_pos (mem_range.2 (lt_communityCount partition i))]

section

variable (g : CommunityGraph n) (partition : Fin n → ℕ)

theorem sum_intraWeight : ∑ c ∈ range (communityCount partition), intraWeight g partition c =
      within g.weight partition / 2 := by
  have hintra (c : ℕ) : intraWeight g partition c =
      ∑ i, if partition i = c then
        ∑ j, (if partition j = c ∧ i < j then g.weight i j else 0) else 0 := by
    rw [intraWeight, sum_filter_finRange]
    apply sum_congr rfl
    intro i _
    rw [g.sum_neighbours i fun j => partition j = c ∧ i < j]
  simp only [hintra]
  rw [sum_communities partition fun i c =>
    ∑ j, if partition j = c ∧ i < j then g.weight i j else 0]
  have hself (i : Fin n) : (if partition i = partition i then g.weight i i else 0) = 0 := by
    rw [if_pos rfl, g.weight_self]
  rw [within, sum_pairs (fun i j => if partition i = partition j then _ else _) hself,
    sum_div]
  apply sum_congr rfl
  intro i _
  rw [sum_div]
  apply sum_congr rfl
  intro j _
  by_cases hij : i < j
  · by_cases hsame : partition j = partition i
    · rw [if_pos ⟨hsame, hij⟩, if_pos hij, if_pos hsame.symm, if_pos hsame, g.weight_symm j i]
      ring
    · rw [if_neg fun h => hsame h.1, if_pos hij, if_neg (Ne.symm hsame), if_neg hsame]
      ring
  · rw [if_neg fun h => hij h.2, if_neg hij, zero_div]

theorem sum_communityDegree :
    ∑ c ∈ range (communityCount partition), communityDegree g partition c ^ 2 =
      within (fun i j => degree g.weight i * degree g.weight j)
        partition := by
  have hdegree (c : ℕ) : communityDegree g partition c =
      ∑ i, if partition i = c then degree g.weight i else 0 := by
    rw [communityDegree, sum_filter_finRange]
    simp only [g.weightedDegree_eq]
  have hsquare (c : ℕ) : communityDegree g partition c ^ 2 =
      ∑ i, if partition i = c then degree g.weight i *
        ∑ j, (if partition j = c then degree g.weight j else 0) else 0 := by
    rw [sq, hdegree, sum_mul]
    apply sum_congr rfl
    intro i _
    rw [ite_mul, zero_mul]
  simp only [hsquare]
  rw [sum_communities partition fun i c => degree g.weight i *
    ∑ j, (if partition j = c then degree g.weight j else 0)]
  apply sum_congr rfl
  intro i _
  rw [mul_sum]
  apply sum_congr rfl
  intro j _
  rw [mul_ite, mul_zero, if_congr eq_comm rfl rfl]

/-- The computed modularity is the sum over pairs. -/
theorem modularityOf_eq (resolution : ℚ) :
    modularityOfPartition g partition resolution =
      if g.totalEdgeWeight ≤ 0 then 0
      else modularity resolution g.weight partition := by
  unfold modularityOfPartition
  dsimp only
  split
  · rfl
  · rename_i hpos
    rw [not_le] at hpos
    rw [sum_map_range, sum_sub_distrib, ← sum_div, sum_intraWeight, ← mul_sum]
    simp only [div_pow]
    rw [← sum_div, sum_communityDegree, g.totalEdgeWeight_eq, modularity]
    ring

end

/-! ## Moves -/

theorem epsilon_pos : 0 < epsilon := div_pos one_pos (pow_pos two_pos 23)

def Moving.modularity (g : CommunityGraph n) (resolution : ℚ) (community : Fin n → Fin n) : ℚ :=
  modularityOfPartition g (fun i => (community i).val) resolution

/-- A turn leaves all communities as they are, or moves the node for a positive gain that is
what modularity rises by. -/
def Climbs (env : Environment R) (g : CommunityGraph n) (resolution : ℚ) (s : Moving n)
    (node : Fin n) : Prop :=
  let weightsTo := neighbourWeightsPerCommunity g s.community node
  let gain := gainOf g (gainWeight g) resolution s node weightsTo
  let next := visit env g resolution s node
  (next.community = s.community ∧ next.moved = s.moved) ∨
    ∃ e, BestMove g (gainWeight g) resolution weightsTo s node e ∧
      next.community = Function.update s.community node e.1 ∧
      Moving.modularity g resolution next.community =
        Moving.modularity g resolution s.community + gain e

section

variable {env : Environment R} {g : CommunityGraph n} {resolution : ℚ} {s : Moving n}
  {node : Fin n}

theorem weightInto_eq_weightTo (community : Fin n → Fin n) (c : Fin n) :
    weightInto g (fun _ => true) community node c =
      weightTo g.weight (fun i => (community i).val) node c.val := by
  have hself : (if true = true ∧ community node = c then g.weight node node else 0) = 0 := by
    rw [g.weight_self, ite_self]
  rw [weightInto, ← add_sum_erase univ _ (mem_univ node), hself, zero_add]
  apply sum_congr rfl
  intro j _
  apply if_congr _ rfl rfl
  rw [Fin.val_inj]
  exact and_iff_right rfl

/-- The degrees of the others of a community, each times that of the node. -/
theorem weightTo_degree (h : Totals g s) (c : Fin n) :
    weightTo (fun i j => degree g.weight i * degree g.weight j)
        (fun i => (s.community i).val) node c.val =
      g.weightedDegree node *
        (s.totalDegree c - if s.community node = c then g.weightedDegree node else 0) := by
  rw [h c, ← add_sum_erase univ _ (mem_univ node), add_sub_cancel_left, mul_sum]
  apply sum_congr rfl
  intro j _
  simp only [Fin.val_inj, g.weightedDegree_eq, mul_ite, mul_zero]

/-- Where the degrees kept are those of the communities, and gains are divided by the weight
of the graph, a move raises modularity by its gain. -/
theorem modularity_move (hweight : epsilon ≤ g.totalEdgeWeight) (h : Totals g s)
    {e : Fin n × ℚ} (he : e ∈ neighbourWeightsPerCommunity g s.community node)
    (hne : e.1 ≠ s.community node) :
    Moving.modularity g resolution (Function.update s.community node e.1) =
      Moving.modularity g resolution s.community + gainOf g (gainWeight g) resolution s node
          (neighbourWeightsPerCommunity g s.community node) e := by
  have hpos : 0 < g.totalEdgeWeight := epsilon_pos.trans_le hweight
  have hlabel : (fun i => (Function.update s.community node e.1 i).val) =
      Function.update (fun i => (s.community i).val) node e.1.val :=
    Function.comp_update Fin.val s.community node e.1
  have hchange := modularity_update resolution g.weight g.weight_symm
    (fun i => (s.community i).val) node e.1.val
  rw [← weightInto_eq_weightTo, ← weightInto_eq_weightTo, weightTo_degree h, weightTo_degree h,
    if_neg hne.symm, if_pos rfl, ← g.totalEdgeWeight_eq, ← hlabel] at hchange
  rw [Moving.modularity, Moving.modularity, modularityOf_eq, modularityOf_eq,
    if_neg (not_le.2 hpos), if_neg (not_le.2 hpos), ← sub_eq_iff_eq_add', hchange, gainOf,
    moveGain, gainWeight, max_eq_left hweight, (of_mem_weights he).1,
    neighbourWeightsPerCommunity, value_weights]
  field_simp
  ring

/-- A turn climbs, or leaves the communities as they are. -/
theorem climbs_visit (hweight : epsilon ≤ g.totalEdgeWeight) (h : Totals g s) (node : Fin n) :
    Climbs env g resolution s node := by
  unfold Climbs
  cases settle_cases env g (gainWeight g) resolution
      (neighbourWeightsPerCommunity g s.community node) s node with
  | inl hstay =>
    rw [visit, hstay.1]
    exact .inl ⟨rfl, rfl⟩
  | inr hmove =>
    obtain ⟨e, he, heq⟩ := hmove
    rw [visit, heq]
    exact .inr ⟨e, he, rfl, modularity_move hweight h he.mem he.ne⟩

/-- Without edges there is nowhere to move to. -/
theorem climbs_of_edgeless (hedges : ∀ i, g.neighbours i = []) (s : Moving n) (node : Fin n) :
    Climbs env g resolution s node := by
  unfold Climbs
  cases settle_cases env g (gainWeight g) resolution
      (neighbourWeightsPerCommunity g s.community node) s node with
  | inl hstay =>
    rw [visit, hstay.1]
    exact .inl ⟨rfl, rfl⟩
  | inr hmove =>
    obtain ⟨e, he, -⟩ := hmove
    cases (of_mem_weights he.mem).2 with
    | inl hcurrent => exact absurd hcurrent he.ne
    | inr hneighbour =>
      obtain ⟨j, ⟨w, hw⟩, -⟩ := hneighbour
      rw [hedges] at hw
      exact absurd hw List.not_mem_nil

/-- Turns that climb make a sweep that does, where it moves a node. -/
theorem pass_climbs (hturn : ∀ s node, Totals g s → Climbs env g resolution s node) (h : Totals g s)
    (order : List (Fin n)) : Totals g (movingPass env g resolution order s) ∧
      ((movingPass env g resolution order s).moved = true →
        Moving.modularity g resolution s.community <
          Moving.modularity g resolution (movingPass env g resolution order s).community) := by
  let climbed (t : Moving n) : Prop := Totals g t ∧
    Moving.modularity g resolution s.community ≤ Moving.modularity g resolution t.community ∧
      (t.moved = true → Moving.modularity g resolution s.community <
        Moving.modularity g resolution t.community)
  have hstep (t : Moving n) (node : Fin n) (ht : climbed t) (_ : True) :
      climbed (visit env g resolution t node) := by
    obtain ⟨htotals, hle, hlt⟩ := ht
    have hnext : Totals g (visit env g resolution t node) := totals_settle htotals
    cases hturn t node htotals with
    | inl hstay =>
      show _ ∧ _ ∧ _
      rw [hstay.1, hstay.2]
      exact ⟨hnext, hle, hlt⟩
    | inr hmove =>
      obtain ⟨e, he, -, hmodularity⟩ := hmove
      have hlt := hle.trans_lt (lt_add_of_pos_right _ he.pos)
      rw [← hmodularity] at hlt
      exact ⟨hnext, hlt.le, fun _ => hlt⟩
  have hpass : climbed (movingPass env g resolution order s) :=
    Along.foldl_induct hstep (along_of_forall (fun _ _ => trivial) _ order)
      ⟨h, le_refl _, fun hmoved => nomatch hmoved⟩
  exact ⟨hpass.1, hpass.2.2⟩

end

/-- The sweeps come to one that moves nothing, at a number of them beyond which no cap
changes the result. -/
def SweepsEnd (env : Environment R) (g : CommunityGraph n) (resolution : ℚ)
    (order : List (Fin n)) (s : Moving n) (rng : R) : Prop :=
  ∃ sweeps, (movingPasses env g resolution sweeps order s rng).1.moved = false ∧
    ∀ cap, sweeps ≤ cap → movingPasses env g resolution cap order s rng =
      movingPasses env g resolution sweeps order s rng

/-- Local moving climbs: from any partition with its degrees, each turn raises modularity by
the gain of its move, and the sweeps end without the cap on their number. -/
structure LocalMovingClimbs (env : Environment R) (g : CommunityGraph n) (resolution : ℚ) :
    Prop where
  start : ∀ maps, Totals g (.start g maps)
  keep : ∀ s node, Totals g s → Totals g (visit env g resolution s node)
  turn : ∀ s node, Totals g s → Climbs env g resolution s node
  ends : ∀ order s rng, Totals g s → SweepsEnd env g resolution order s rng

/-- There are finitely many partitions to climb through. -/
theorem sweepsEnd_of_climbs {env : Environment R} {g : CommunityGraph n} {resolution : ℚ}
    (hturn : ∀ s node, Totals g s → Climbs env g resolution s node) {s : Moving n}
    (h : Totals g s) (order : List (Fin n)) (rng : R) : SweepsEnd env g resolution order s rng := by
  let higher (b a : Fin n → Fin n) : Prop :=
    Moving.modularity g resolution a < Moving.modularity g resolution b
  have : IsTrans (Fin n → Fin n) higher := ⟨fun _ _ _ hba hcb => lt_trans hcb hba⟩
  have : Std.Irrefl higher := ⟨fun _ => lt_irrefl _⟩
  have hwf : WellFounded higher := Finite.wellFounded_of_trans_of_irrefl higher
  -- The induction goes down the partitions of higher modularity.
  generalize hc : s.community = c
  induction c using hwf.induction generalizing s order rng with
  | _ c ih =>
    subst hc
    obtain ⟨htotals, hclimb⟩ := pass_climbs hturn h (env.shuffle rng order).1
    cases hmoved : (movingPass env g resolution (env.shuffle rng order).1 s).moved with
    | false =>
      have hlast (cap : ℕ) : movingPasses env g resolution (cap + 1) order s rng =
          (movingPass env g resolution (env.shuffle rng order).1 s,
            (env.shuffle rng order).2) := by
        rw [movingPasses]
        exact if_neg (Bool.eq_false_iff.1 hmoved)
      refine ⟨1, by rw [hlast]; exact hmoved, fun cap hcap => ?_⟩
      obtain ⟨more, rfl⟩ := Nat.exists_eq_add_of_le' hcap
      rw [hlast, hlast]
    | true =>
      have hnext (cap : ℕ) : movingPasses env g resolution (cap + 1) order s rng =
          movingPasses env g resolution cap (env.shuffle rng order).1
            (movingPass env g resolution (env.shuffle rng order).1 s)
            (env.shuffle rng order).2 := by
        rw [movingPasses]
        exact if_pos hmoved
      obtain ⟨sweeps, hstill, hcaps⟩ :=
        ih _ (hclimb hmoved) htotals (env.shuffle rng order).1 (env.shuffle rng order).2 rfl
      refine ⟨sweeps + 1, by rw [hnext]; exact hstill, fun cap hcap => ?_⟩
      obtain ⟨more, rfl⟩ := Nat.exists_eq_add_of_le' hcap
      rw [show more + (sweeps + 1) = (more + sweeps) + 1 by omega, hnext, hnext]
      exact hcaps _ (Nat.le_add_left sweeps more)

/-- Local moving climbs on graphs of at least that weight, and on those without edges. -/
theorem localMoving_climbs {env : Environment R} {g : CommunityGraph n} (resolution : ℚ)
    (h : epsilon ≤ g.totalEdgeWeight ∨ ∀ i, g.neighbours i = []) :
    LocalMovingClimbs env g resolution := by
  have hturn (s : Moving n) (node : Fin n) (hs : Totals g s) :
      Climbs env g resolution s node :=
    h.elim (fun hweight => climbs_visit hweight hs node)
      fun hedges => climbs_of_edgeless hedges s node
  exact
    { start := totals_start g
      keep := fun s node hs => totals_settle hs
      turn := hturn
      ends := fun order s rng hs => sweepsEnd_of_climbs hturn hs order rng }

theorem pair_climbs : LocalMovingClimbs .plain pair 1 :=
  localMoving_climbs 1 (.inl (by decide +kernel))

local instance faintNonempty : NeZero 2 := ⟨two_ne_zero⟩

/-- Two nodes with an edge that weighs less than gains are divided by. -/
def faint : CommunityGraph 2 := .ofEdges [((0, 1), 1 / 2 ^ 24)]

/-- The first node of the faint graph moves to the other one, and modularity falls. -/
theorem faint_falls :
    ¬ ∀ (n : ℕ) (g : CommunityGraph n) (resolution : ℚ), LocalMovingClimbs .plain g resolution := by
  intro h
  have hclimbs := (h 2 faint 3).turn (.start faint 0) 0 (totals_start faint 0)
  cases hclimbs with
  | inl hstay =>
    have hmoves : (visit .plain faint 3 (.start faint 0) 0).community 0 = 1 := by
      decide +kernel
    rw [hstay.1] at hmoves
    exact absurd hmoves (by decide)
  | inr hmove =>
    obtain ⟨e, he, -, hgain⟩ := hmove
    have hfalls : Moving.modularity faint 3 (visit .plain faint 3 (.start faint 0) 0).community <
        Moving.modularity faint 3 (Moving.start faint 0).community := by
      decide +kernel
    rw [hgain] at hfalls
    exact absurd hfalls (not_lt.2 (le_add_of_nonneg_right he.pos.le))

/-! ## Aggregation -/

/-- The graph without the edges inside the communities of a partition. -/
def CommunityGraph.crossings (g : CommunityGraph n) (p : Partition n) : CommunityGraph n where
  neighbours i := (g.neighbours i).filter fun e => p.label e.1 ≠ p.label i
  loopless i e he := g.loopless i e (List.mem_of_mem_filter he)
  symmetric i j w := by
    by_cases h : p.label j = p.label i
    · rw [List.count_eq_zero_of_not_mem, List.count_eq_zero_of_not_mem]
      · simp [h]
      · simp [h]
    · rw [List.count_filter, List.count_filter, g.symmetric]
      · simpa using Ne.symm h
      · simpa using h

section

variable {g : CommunityGraph n} {p : Partition n}

theorem weight_crossings (i j : Fin n) : (g.crossings p).weight i j =
    if p.label j = p.label i then 0 else g.weight i j := by
  unfold CommunityGraph.weight CommunityGraph.crossings
  rw [List.filter_filter]
  split
  · rename_i hsame
    rw [List.filter_eq_nil_iff.2]
    · rfl
    · intro e _
      simp only [ne_eq, decide_not, Bool.and_eq_true, decide_eq_true_eq, Bool.not_eq_true',
        decide_eq_false_iff_not, not_and, not_not]
      rintro rfl
      exact hsame
  · rename_i hcross
    congr 2
    apply List.filter_congr
    intro e _
    by_cases he : e.1 = j
    · simp [he, hcross]
    · simp [he]

theorem map_filter_filterMap {α β γ : Type} {f : α → Option β} {keep : β → Bool}
    {counts : α → Bool} {u : β → γ} {v : α → γ}
    (h : ∀ a, ((f a).filter keep).map u = if counts a then some (v a) else none) (as : List α) :
    ((as.filterMap f).filter keep).map u = (as.filter counts).map v := by
  rw [List.filter_filterMap, List.map_filterMap]
  simp only [h]
  induction as with
  | nil => rfl
  | cons a as ih =>
    by_cases ha : counts a = true
    · simp [ha, ih]
    · simp [ha, ih]

/-- The weight between two nodes is that of the edges pushed for them. -/
theorem weight_ofEdges (edges : List ((Fin n × Fin n) × ℚ)) {i j : Fin n} (hij : i ≠ j) :
    (CommunityGraph.ofEdges edges).weight i j =
      ((edges.filter fun edge => edge.1 = (i, j) ∨ edge.1 = (j, i)).map snd).sum := by
  have hpushed (edge : (Fin n × Fin n) × ℚ) (w : ℚ) : pushed i edge = some (j, w) ↔
      (edge.1 = (i, j) ∨ edge.1 = (j, i)) ∧ edge.2 = w := by
    rw [pushed_eq_some_iff, and_iff_right hij, or_and_right]
    exact or_congr Prod.ext_iff Prod.ext_iff
  refine congrArg List.sum (map_filter_filterMap (fun edge => ?_) edges)
  by_cases h : edge.1 = (i, j) ∨ edge.1 = (j, i)
  · rw [(hpushed edge edge.2).2 ⟨h, rfl⟩, if_pos (by simpa using h)]
    simp
  · rw [if_neg (by simpa using h), Option.map_eq_none_iff, Option.filter_eq_none_iff]
    intro e he
    rw [decide_eq_true_eq]
    rintro rfl
    exact h ((hpushed edge e.2).1 he).1

/-- The weight between two communities, of the edges that cross. -/
theorem sum_crossing {A B : Fin p.size} (hAB : A ≠ B) :
    (((crossing g p).filter fun edge => edge.1 = (A, B) ∨ edge.1 = (B, A)).map snd).sum =
      ∑ i, ∑ j, if i < j ∧ (p.label i = A ∧ p.label j = B ∨ p.label j = A ∧ p.label i = B) then
        g.weight i j else 0 := by
  have hrow (i : Fin n) (es : List (Fin n × ℚ)) :
      ((es.filterMap fun e =>
          if e.1 ≤ i then none
          else if p.label i = p.label e.1 then none
          else if p.label i < p.label e.1 then some ((p.label i, p.label e.1), e.2)
          else some ((p.label e.1, p.label i), e.2)).filter
        fun edge => edge.1 = (A, B) ∨ edge.1 = (B, A)).map snd =
      (es.filter fun e => i < e.1 ∧
        (p.label i = A ∧ p.label e.1 = B ∨ p.label e.1 = A ∧ p.label i = B)).map snd := by
    refine map_filter_filterMap (fun e => ?_) es
    obtain ⟨j, w⟩ := e
    dsimp only
    by_cases hle : j ≤ i
    · rw [if_pos hle, if_neg (by simp [hle])]
      rfl
    have hlt := not_le.1 hle
    rw [if_neg hle]
    by_cases hsame : p.label i = p.label j
    · have hnone : ¬ (p.label i = A ∧ p.label j = B ∨ p.label j = A ∧ p.label i = B) := by
        rw [hsame]
        rintro (⟨rfl, rfl⟩ | ⟨rfl, rfl⟩)
        · exact hAB rfl
        · exact hAB rfl
      rw [if_pos hsame, if_neg fun h => hnone (of_decide_eq_true h).2]
      rfl
    rw [if_neg hsame]
    have hkey : ((p.label i, p.label j) = (A, B) ∨ (p.label i, p.label j) = (B, A)) ↔
        i < j ∧ (p.label i = A ∧ p.label j = B ∨ p.label j = A ∧ p.label i = B) := by
      rw [and_iff_right hlt, Prod.mk.injEq, Prod.mk.injEq, and_comm (a := p.label i = B)]
    have hswap : ((p.label j, p.label i) = (A, B) ∨ (p.label j, p.label i) = (B, A)) ↔
        i < j ∧ (p.label i = A ∧ p.label j = B ∨ p.label j = A ∧ p.label i = B) := by
      rw [← hkey, or_comm, Prod.mk.injEq, Prod.mk.injEq, Prod.mk.injEq, Prod.mk.injEq,
        and_comm, and_comm (a := p.label j = A)]
    by_cases hless : p.label i < p.label j
    · rw [if_pos hless, Option.filter_some, apply_ite (Option.map Prod.snd)]
      exact if_congr (by rw [decide_eq_true_eq, decide_eq_true_eq]; exact hkey) rfl rfl
    · rw [if_neg hless, Option.filter_some, apply_ite (Option.map snd)]
      exact if_congr (by rw [decide_eq_true_eq, decide_eq_true_eq]; exact hswap) rfl rfl
  unfold crossing
  rw [List.filter_flatMap, List.map_flatMap, List.flatMap_def, List.sum_flatten, List.map_map,
    Fin.sum_univ_def]
  congr 1
  apply List.map_congr_left
  intro i _
  rw [Function.comp_apply, hrow i]
  exact g.sum_neighbours i fun j => i < j ∧
    (p.label i = A ∧ p.label j = B ∨ p.label j = A ∧ p.label i = B)

theorem weight_aggregateGraph (env : Environment R) (g : CommunityGraph n) (p : Partition n)
    (maps : ℕ) : (aggregateGraph env g p maps).weight =
      push p.label (g.crossings p).weight := by
  funext A B
  have hpush : push p.label (g.crossings p).weight A B =
      ∑ i, ∑ j, if p.label i = A ∧ p.label j = B then (g.crossings p).weight i j else 0 := by
    rw [push, sum_filter]
    apply sum_congr rfl
    intro i _
    split
    · rename_i hi
      rw [sum_filter]
      simp only [hi, true_and]
    · rename_i hi
      simp only [hi, false_and, if_false, sum_const_zero]
  rw [hpush]
  by_cases hAB : A = B
  · rw [hAB, (aggregateGraph env g p maps).weight_self]
    symm
    apply sum_eq_zero
    intro i _
    apply sum_eq_zero
    intro j _
    rw [weight_crossings]
    split
    · rename_i hij
      rw [if_pos (hij.2.trans hij.1.symm)]
    · rfl
  · have hself (i : Fin n) :
        (if p.label i = A ∧ p.label i = B then (g.crossings p).weight i i else 0) = 0 := by
      rw [CommunityGraph.weight_self, ite_self]
    rw [sum_pairs (fun i j => if p.label i = A ∧ p.label j = B then _ else _) hself,
      aggregateGraph, weight_ofEdges _ hAB,
      (((env.enumerate_perm maps _).filter _).map snd).sum_eq,
      Tally.sum_filter_tally fun key => key = (A, B) ∨ key = (B, A), sum_crossing hAB]
    apply sum_congr rfl
    intro i _
    apply sum_congr rfl
    intro j _
    by_cases hij : i < j
    · rw [if_pos hij, weight_crossings, weight_crossings]
      by_cases hforth : p.label i = A ∧ p.label j = B
      · have hne : p.label j ≠ p.label i := by
          rw [hforth.1, hforth.2]
          exact Ne.symm hAB
        rw [if_pos ⟨hij, .inl hforth⟩, if_pos hforth, if_neg hne,
          if_neg fun h => hAB (hforth.1.symm.trans h.2), add_zero]
      · by_cases hback : p.label j = A ∧ p.label i = B
        · have hne : p.label i ≠ p.label j := by
            rw [hback.1, hback.2]
            exact Ne.symm hAB
          rw [if_pos ⟨hij, .inr hback⟩, if_neg hforth, if_pos hback, if_neg hne, zero_add,
            g.weight_symm]
        · rw [if_neg fun h => h.2.elim hforth hback, if_neg hforth, if_neg hback, add_zero]
    · rw [if_neg fun h => hij h.1, if_neg hij]

/-- The modularity of a partition of the aggregate graph is that of the partition it makes of
the nodes, in the graph without the edges inside communities. -/
theorem modularityOfPartition_aggregate (env : Environment R) (g : CommunityGraph n)
    (p : Partition n) (maps : ℕ) (partition : Fin p.size → ℕ) (resolution : ℚ) :
    modularityOfPartition (aggregateGraph env g p maps) partition resolution =
      modularityOfPartition (g.crossings p) (fun i => partition (p.label i)) resolution := by
  rw [modularityOf_eq, modularityOf_eq, CommunityGraph.totalEdgeWeight_eq,
    CommunityGraph.totalEdgeWeight_eq, weight_aggregateGraph, total_push,
    modularity_push]
  rfl

end

def row : CommunityGraph 3 := .ofEdges [((0, 1), 1), ((1, 2), 1)]

/-- The first two nodes of the row as one community. -/
def rowCut : Partition 3 := .densify fun i : Fin 3 => decide (i = 2)

/-- The edge between the first two nodes is lost in the aggregate graph. -/
theorem row_loses : ¬ ∀ (n : ℕ) (g : CommunityGraph n) (p : Partition n) (maps : ℕ)
    (partition : Fin p.size → ℕ) (resolution : ℚ),
      modularityOfPartition (aggregateGraph .plain g p maps) partition resolution =
        modularityOfPartition g (fun i => partition (p.label i)) resolution := by
  intro h
  have heq := h 3 row rowCut 0 (fun c => c.val) 1
  revert heq
  decide +kernel

end Ontosyx.Community
