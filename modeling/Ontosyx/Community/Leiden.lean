import Ontosyx.Community.Graph
import Ontosyx.Lib.Grouped

/-!
# Community detection

`detect_communities` moves nodes between communities as long as modularity rises, emits
the partition, refines each of its communities from single nodes and goes on with the
graph of the refined communities, level by level.

The seeded shuffle and the orders in which hash maps enumerate their entries are
parameters.  `f32` is the rationals.
-/

namespace Ontosyx.Community

open Lib List

variable {n : ℕ} {R : Type}

/-- What a run draws from: a seeded generator, and an order for each hash map of the run. -/
structure Environment (R : Type) where
  seedFromU64 : UInt64 → R
  shuffle : {α : Type} → R → List α → List α × R
  shuffle_perm : ∀ {α : Type} (rng : R) (xs : List α), (shuffle rng xs).1.Perm xs
  enumerate : {α : Type} → ℕ → List α → List α
  enumerate_perm : ∀ {α : Type} (map : ℕ) (xs : List α), (enumerate map xs).Perm xs

def Environment.plain : Environment Unit where
  seedFromU64 := fun _ => ()
  shuffle := fun rng xs => (xs, rng)
  shuffle_perm := fun _ xs => .refl xs
  enumerate := fun _ xs => xs
  enumerate_perm := fun _ xs => .refl xs

/-- The generator, and how many maps were enumerated. -/
structure Draws (R : Type) where
  rng : R
  maps : ℕ

/-- `f32::EPSILON`. -/
def epsilon : ℚ := 1 / 2 ^ 23

/-! ## Moving a node -/

/-- The communities of the nodes while they move, with their degrees. -/
structure Moving (n : ℕ) where
  community : Fin n → Fin n
  totalDegree : Fin n → ℚ
  moved : Bool
  maps : ℕ

def Moving.start (g : CommunityGraph n) (maps : ℕ) : Moving n where
  community := id
  totalDegree := g.weightedDegree
  moved := false
  maps := maps

/-- The weights of a node into the communities of those neighbours that count. -/
def neighbourWeights (g : CommunityGraph n) (counts : Fin n → Bool) (community : Fin n → Fin n)
    (node : Fin n) : List (Fin n × ℚ) :=
  Tally.add (community node) 0
    (Tally.tally (((g.neighbours node).filter fun e => counts e.1).map fun e =>
      (community e.1, e.2)))

def neighbourWeightsPerCommunity (g : CommunityGraph n) (community : Fin n → Fin n)
    (node : Fin n) : List (Fin n × ℚ) :=
  neighbourWeights g (fun _ => true) community node

def neighbourWeightsPerCommunityWithin (g : CommunityGraph n) (refined : Fin n → Fin n)
    (coarse : Partition n) (coarseId : Fin coarse.size) (node : Fin n) : List (Fin n × ℚ) :=
  neighbourWeights g (fun other => coarse.label other = coarseId) refined node

/-- The gain of a move, at the weight `m` of the graph. -/
def moveGain (m resolution nodeDegree weightIn weightToCurrent totalIn totalCurrent : ℚ) : ℚ :=
  (weightIn - weightToCurrent) / m -
    resolution * nodeDegree * (totalIn - totalCurrent + nodeDegree) / (2 * m * m)

def gainOf (g : CommunityGraph n) (m resolution : ℚ) (s : Moving n) (node : Fin n)
    (weightsTo : List (Fin n × ℚ)) (candidate : Fin n × ℚ) : ℚ :=
  moveGain m resolution (g.weightedDegree node) candidate.2
    (Tally.value (s.community node) weightsTo) (s.totalDegree candidate.1)
    (s.totalDegree (s.community node))

/-- The better of the best candidate so far and the next one. -/
def better (current : Fin n) (gain : Fin n × ℚ → ℚ) (best : Fin n × ℚ) (candidate : Fin n × ℚ) :
    Fin n × ℚ :=
  if candidate.1 = current then best
  else if best.2 < gain candidate then (candidate.1, gain candidate)
  else best

/-- A node goes to the community of the largest gain, if one gains at all. -/
def settle (env : Environment R) (g : CommunityGraph n) (m resolution : ℚ)
    (weightsTo : List (Fin n × ℚ)) (s : Moving n) (node : Fin n) : Moving n :=
  let current := s.community node
  let best := ((env.enumerate s.maps weightsTo).foldl
    (better current (gainOf g m resolution s node weightsTo)) (current, 0)).1
  if best = current then { s with maps := s.maps + 1 }
  else
    let left := Function.update s.totalDegree current
      (s.totalDegree current - g.weightedDegree node)
    { community := Function.update s.community node best
      totalDegree := Function.update left best (left best + g.weightedDegree node)
      moved := true
      maps := s.maps + 1 }

def gainWeight (g : CommunityGraph n) : ℚ := max g.totalEdgeWeight epsilon

/-- One turn of the inner loop of `local_moving_phase`. -/
def visit (env : Environment R) (g : CommunityGraph n) (resolution : ℚ) (s : Moving n)
    (node : Fin n) : Moving n :=
  settle env g (gainWeight g) resolution (neighbourWeightsPerCommunity g s.community node) s node

def movingPass (env : Environment R) (g : CommunityGraph n) (resolution : ℚ)
    (order : List (Fin n)) (s : Moving n) : Moving n :=
  order.foldl (visit env g resolution) { s with moved := false }

/-- Sweeps until one moves nothing. -/
def movingPasses (env : Environment R) (g : CommunityGraph n) (resolution : ℚ) :
    ℕ → List (Fin n) → Moving n → R → Moving n × R
  | 0, _, s, rng => (s, rng)
  | passes + 1, order, s, rng =>
    let (order, rng) := env.shuffle rng order
    let s := movingPass env g resolution order s
    if s.moved then movingPasses env g resolution passes order s rng else (s, rng)

def localMovingPhase (env : Environment R) (g : CommunityGraph n) (resolution : ℚ)
    (draws : Draws R) : Partition n × Draws R :=
  let (s, rng) := movingPasses env g resolution 32 (finRange n) (.start g draws.maps) draws.rng
  (.densify s.community, ⟨rng, s.maps⟩)

/-! ## Refinement -/

def weightIntoCoarse (g : CommunityGraph n) (node : Fin n) (coarse : Partition n)
    (coarseId : Fin coarse.size) : ℚ :=
  (((g.neighbours node).filter fun e => coarse.label e.1 = coarseId ∧ e.1 ≠ node).map
    Prod.snd).sum

def isWellConnected (weightIn nodeDegree otherTotalDegree resolution m : ℚ) : Bool :=
  resolution * nodeDegree * otherTotalDegree / (2 * m) ≤ weightIn

/-- One turn of the inner loop of `refinement_phase`. -/
def refineVisit (env : Environment R) (g : CommunityGraph n) (coarse : Partition n)
    (resolution : ℚ) (coarseId : Fin coarse.size) (coarseTotalDegree : ℚ) (s : Moving n)
    (node : Fin n) : Moving n :=
  if isWellConnected (weightIntoCoarse g node coarse coarseId) (g.weightedDegree node)
      (coarseTotalDegree - g.weightedDegree node) resolution (gainWeight g) then
    settle env g (gainWeight g) resolution
      (neighbourWeightsPerCommunityWithin g s.community coarse coarseId node) s node
  else s

def Partition.members (p : Partition n) (c : Fin p.size) : List (Fin n) :=
  (finRange n).filter fun node => p.label node = c

/-- One turn of the outer loop of `refinement_phase`. -/
def refineCommunity (env : Environment R) (g : CommunityGraph n) (coarse : Partition n)
    (resolution : ℚ) (s : Moving n × R) (coarseId : Fin coarse.size) : Moving n × R :=
  let (members, rng) := env.shuffle s.2 (coarse.members coarseId)
  let coarseTotalDegree := (members.map g.weightedDegree).sum
  (members.foldl (refineVisit env g coarse resolution coarseId coarseTotalDegree) s.1, rng)

def refinementPhase (env : Environment R) (g : CommunityGraph n) (coarse : Partition n)
    (resolution : ℚ) (draws : Draws R) : Partition n × Draws R :=
  let (s, rng) := (finRange coarse.size).foldl (refineCommunity env g coarse resolution)
    (.start g draws.maps, draws.rng)
  (.densify s.community, ⟨rng, s.maps⟩)

/-- The edges between communities, with both ends in order. -/
def crossing (g : CommunityGraph n) (p : Partition n) : List ((Fin p.size × Fin p.size) × ℚ) :=
  (finRange n).flatMap fun node => (g.neighbours node).filterMap fun (other, w) =>
    if other ≤ node then none
    else if p.label node = p.label other then none
    else if p.label node < p.label other then some ((p.label node, p.label other), w)
    else some ((p.label other, p.label node), w)

def aggregateGraph (env : Environment R) (g : CommunityGraph n) (p : Partition n) (maps : ℕ) :
    CommunityGraph p.size :=
  .ofEdges (env.enumerate maps (Tally.tally (crossing g p)))

def chainMembership {k : ℕ} (refined : Partition k) (currentToOriginal : Fin k → List (Fin n))
    (aggId : Fin refined.size) : List (Fin n) :=
  (finRange k).flatMap fun node =>
    if refined.label node = aggId then currentToOriginal node else []

def projectToOriginal {k : ℕ} (p : Partition k) (currentToOriginal : Fin k → List (Fin n)) :
    Fin n → ℕ :=
  (finRange k).foldl (fun assignments node =>
    (currentToOriginal node).foldl (fun assignments original =>
      Function.update assignments original (p.label node).val) assignments) fun _ => 0

/-- The graph that a level works on, and the nodes of the input that each of its own stands
for. -/
structure Working (n : ℕ) where
  size : ℕ
  graph : CommunityGraph size
  currentToOriginal : Fin size → List (Fin n)
  covers : ∀ original, ∃ node, ∀ node', original ∈ currentToOriginal node' ↔ node' = node

/-- The input, as the first level works on it. -/
def Working.start (g : CommunityGraph n) : Working n where
  size := n
  graph := g
  currentToOriginal := fun i => [i]
  covers := fun original => ⟨original, fun node' => by rw [mem_singleton, eq_comm]⟩

/-- The graph of the refined communities, as the next level works on it. -/
def Working.aggregate (env : Environment R) (w : Working n) (refined : Partition w.size)
    (maps : ℕ) : Working n where
  size := refined.size
  graph := aggregateGraph env w.graph refined maps
  currentToOriginal := chainMembership refined w.currentToOriginal
  covers := by
    intro original
    obtain ⟨node, hnode⟩ := w.covers original
    refine ⟨refined.label node, fun aggId => ?_⟩
    rw [chainMembership, mem_flatMap]
    constructor
    · intro ⟨node', _, hmem⟩
      split at hmem
      · rename_i hlabel
        rw [← (hnode node').1 hmem, hlabel]
      · exact absurd hmem not_mem_nil
    · rintro rfl
      refine ⟨node, mem_finRange node, ?_⟩
      rw [if_pos rfl]
      exact (hnode node).2 rfl

/-- The loop of `detect_communities`. -/
def detectLevels (env : Environment R) (resolution : ℚ) :
    ℕ → Working n → Draws R → List (Fin n → ℕ) × Draws R
  | 0, _, draws => ([], draws)
  | cap + 1, w, draws =>
    let (partition, draws) := localMovingPhase env w.graph resolution draws
    let assignments := projectToOriginal partition w.currentToOriginal
    if partition.isSingleton then ([assignments], draws)
    else
      let (refined, draws) := refinementPhase env w.graph partition resolution draws
      let (levels, draws) := detectLevels env resolution cap
        (w.aggregate env refined draws.maps) { draws with maps := draws.maps + 1 }
      (assignments :: levels, draws)

/-! ## The result -/

structure DetectedCommunity (n : ℕ) where
  level : ℕ
  localId : String
  members : List (Fin n)
deriving DecidableEq

structure DetectionResult (n : ℕ) where
  communities : List (DetectedCommunity n)
  modularity : ℚ
  levelsProduced : ℕ
deriving DecidableEq

inductive DetectionError where
  | emptyGraph
deriving DecidableEq

structure CommunityDetectionPolicy where
  resolution : ℚ
  levels : ℕ
  seed : UInt64

/-- `partition.iter().copied().max().map(|x| x + 1).unwrap_or(0)`. -/
def communityCount (partition : Fin n → ℕ) : ℕ :=
  (((finRange n).map partition).max?.map (· + 1)).getD 0

def intraWeight (g : CommunityGraph n) (partition : Fin n → ℕ) (c : ℕ) : ℚ :=
  (((finRange n).filter fun node => partition node = c).map fun node =>
    (((g.neighbours node).filter fun e => partition e.1 = c ∧ node < e.1).map Prod.snd).sum).sum

def communityDegree (g : CommunityGraph n) (partition : Fin n → ℕ) (c : ℕ) : ℚ :=
  (((finRange n).filter fun node => partition node = c).map g.weightedDegree).sum

def modularityOfPartition (g : CommunityGraph n) (partition : Fin n → ℕ) (resolution : ℚ) : ℚ :=
  let m := g.totalEdgeWeight
  if m ≤ 0 then 0
  else ((range (communityCount partition)).map fun c =>
    intraWeight g partition c / m -
      resolution * (communityDegree g partition c / (2 * m)) ^ 2).sum

/-- The lowest member; `usize::MAX` for none. -/
def firstMember (group : List (Fin n)) : ℕ := (group.head?.map Fin.val).getD (2 ^ 64 - 1)

def groupBefore (a b : List (Fin n)) : Bool :=
  b.length < a.length || (b.length = a.length && firstMember a ≤ firstMember b)

def groupsOf (env : Environment R) (assignments : Fin n → ℕ) (maps : ℕ) : List (List (Fin n)) :=
  let byCommunity := Grouped.gather assignments id (finRange n)
  ((env.enumerate maps (byCommunity.map Prod.snd)).map fun group =>
    group.insertionSort (· ≤ ·)).insertionSort fun a b => groupBefore a b = true

def emitLevel (env : Environment R) (level : ℕ) (assignments : Fin n → ℕ) (maps : ℕ) :
    List (DetectedCommunity n) :=
  (groupsOf env assignments maps).mapIdx fun seq members =>
    { level := level, localId := s!"c-{level}-{seq}", members := members }

def emitCommunities (env : Environment R) (levels : List (Fin n → ℕ)) (maps : ℕ) :
    List (DetectedCommunity n) :=
  (levels.mapIdx fun level assignments =>
    emitLevel env level assignments (maps + level)).flatten

def detectCommunities (env : Environment R) (g : CommunityGraph n)
    (policy : CommunityDetectionPolicy) : Except DetectionError (DetectionResult n) :=
  if n = 0 then .error .emptyGraph
  else
    let resolution := max policy.resolution epsilon
    let (levels, draws) := detectLevels env resolution (max policy.levels 1) (.start g)
      ⟨env.seedFromU64 policy.seed, 0⟩
    .ok
      { communities := emitCommunities env levels draws.maps
        modularity := (levels.head?.map fun level0 =>
          modularityOfPartition g level0 resolution).getD 0
        levelsProduced := levels.length }

end Ontosyx.Community
