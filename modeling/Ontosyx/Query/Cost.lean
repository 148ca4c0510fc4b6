import Ontosyx.Ontology.Validity
import Ontosyx.Query.Ir

/-!
# Cost of a query

`estimate_cost`, the structural estimate that routing and compilation read: a
walk over the operations collects pattern counts, depths, labels and filters, and
the ontology supplies indexes, cardinalities and partition columns.  Sets are
lists here, and the warning texts are left out.
-/

namespace Ontosyx.Query

open Ontosyx.Core Ontology Lib.Keyed

def varLengthMediumThreshold : Nat := 3

def varLengthHighThreshold : Nat := 6

def optionalMatchMediumThreshold : Nat := 2

def patternCountMediumThreshold : Nat := 6

def unboundedVarLengthDepth : Nat := 100

def expansionCap : Nat := 1000000000

inductive RiskLevel where
  | low
  | medium
  | high
deriving DecidableEq

/-- What `estimate_cost` answers, but for its warnings. -/
structure QueryCost where
  patternCount : Nat
  hasCartesian : Bool
  maxVarLengthDepth : Nat
  optionalMatchCount : Nat
  usesIndexedFilter : Bool
  hasHighFanout : Bool
  riskLevel : RiskLevel
  estimatedPatternExpansions : Nat
  estimatedRows : Option Nat
  estimatedWallclockMs : Option Nat
deriving DecidableEq

structure CostCtx where
  patternCount : Nat := 0
  hasCartesian : Bool := false
  maxVarLengthDepth : Nat := 0
  optionalMatchCount : Nat := 0
  filterLabels : List (String × String) := []
  relationshipLabels : List String := []
  referencedLabels : List String := []

/-- `find` of the union-find: the root of `i`, with the path compressed.  A path
visits each index once at most, so fuel for every index is never used up. -/
def findRoot : Nat → List Nat → Nat → List Nat × Nat
  | 0, parent, i => (parent, i)
  | fuel + 1, parent, i =>
    let p := parent.getD i i
    if p ≠ i then
      let (parent, root) := findRoot fuel parent p
      (parent.set i root, root)
    else (parent, i)

/-- `get_or_insert`: the index of a variable, in order of first appearance. -/
def getOrInsert (vars : List VariableName) (v : VariableName) : List VariableName × Nat :=
  match vars.findIdx? fun w => w = v with
  | some i => (vars, i)
  | none => (vars ++ [v], vars.length)

/-- The indices of the nodes of a path pattern. -/
def pathIndices (vars : List VariableName) : List PathElement → List VariableName × List Nat
  | [] => (vars, [])
  | .node v _ :: elements =>
    let (vars, i) := getOrInsert vars v
    let (vars, is) := pathIndices vars elements
    (vars, i :: is)
  | .edge _ _ _ :: elements => pathIndices vars elements

def connectPattern (acc : List VariableName × List (Nat × Nat)) :
    GraphPattern → List VariableName × List (Nat × Nat)
  | .node v _ _ => ((getOrInsert acc.1 v).1, acc.2)
  | .relationship _ _ source target _ _ _ =>
    let (vars, si) := getOrInsert acc.1 source
    let (vars, ti) := getOrInsert vars target
    (vars, acc.2 ++ [(si, ti)])
  | .path elements =>
    let (vars, is) := pathIndices acc.1 elements
    (vars, acc.2 ++ is.zip (is.drop 1))

def connect (n : Nat) (parent : List Nat) (c : Nat × Nat) : List Nat :=
  let (parent, ra) := findRoot n parent c.1
  let (parent, rb) := findRoot n parent c.2
  if ra ≠ rb then parent.set ra rb else parent

def hasCartesianProduct (patterns : List GraphPattern) : Bool :=
  let (vars, connections) := patterns.foldl connectPattern ([], [])
  let n := vars.length
  if n ≤ 1 then false
  else
    let parent := connections.foldl (connect n) (List.range n)
    1 < ((List.range n).map fun i => (findRoot n parent i).2).dedup.length

/-- The depth of a variable-length specification; without an upper bound it is
the sentinel. -/
def VarLength.depth (vl : VarLength) : Nat :=
  match vl.min, vl.max with
  | _, some max => max
  | some min, none => Nat.max min unboundedVarLengthDepth
  | none, none => unboundedVarLengthDepth

def collectPatternSignals (ctx : CostCtx) : GraphPattern → CostCtx
  | .node _ (some label) filters =>
    { ctx with
      referencedLabels := ctx.referencedLabels ++ [label.val]
      filterLabels := ctx.filterLabels ++ filters.map fun pf => (label.val, pf.property.val) }
  | .node _ none _ => ctx
  | .relationship _ label _ _ _ filters varLength =>
    let ctx :=
      match label with
      | some label =>
        { ctx with
          relationshipLabels := ctx.relationshipLabels ++ [label.val]
          filterLabels := ctx.filterLabels ++ filters.map fun pf =>
            (label.val, pf.property.val) }
      | none => ctx
    match varLength with
    | some vl => { ctx with maxVarLengthDepth := Nat.max ctx.maxVarLengthDepth vl.depth }
    | none => ctx
  | .path elements =>
    { ctx with
      relationshipLabels := ctx.relationshipLabels ++ elements.filterMap fun
        | .edge _ label _ => label.map (·.val)
        | .node _ _ => none }

mutual
/-- `walk_op`. -/
def costWalk (ctx : CostCtx) : QueryOp → CostCtx
  | .match_ patterns _ _ optional _ =>
    patterns.foldl collectPatternSignals
      { ctx with
        patternCount := ctx.patternCount + patterns.length
        optionalMatchCount := ctx.optionalMatchCount + if optional then 1 else 0
        hasCartesian :=
          ctx.hasCartesian || (1 < patterns.length && hasCartesianProduct patterns) }
  | .pathFind _ _ _ _ maxDepth _ =>
    { ctx with
      patternCount := ctx.patternCount + 1
      maxVarLengthDepth := Nat.max ctx.maxVarLengthDepth (maxDepth.getD 0) }
  | .aggregate ⟨operation, _, _, _, _⟩ _ _ _ => costWalk ctx operation
  | .union queries _ => costWalkQueries ctx queries
  | .chain steps => costWalkSteps ctx steps
  | .callSubquery ⟨operation, _, _, _, _⟩ _ => costWalk ctx operation
  | .mutate (some context) _ _ => costWalk ctx context
  | .mutate none _ _ => ctx
  | .analytics _ (.subgraph filter) _ _ => costWalk ctx filter
  | .analytics _ _ _ _ => ctx
  | .hybridSearch request =>
    { ctx with
      patternCount := ctx.patternCount + 1
      referencedLabels := ctx.referencedLabels ++
        request.graphConstraints.toList.flatMap fun c =>
          c.nodes.filterMap fun n => n.label.map (·.val) }

/-- `walk_op` over the branches of a union. -/
def costWalkQueries (ctx : CostCtx) : List QueryIR → CostCtx
  | [] => ctx
  | ⟨operation, _, _, _, _⟩ :: qs => costWalkQueries (costWalk ctx operation) qs

/-- `walk_op` over the steps of a chain. -/
def costWalkSteps (ctx : CostCtx) : List ChainStep → CostCtx
  | [] => ctx
  | ⟨_, operation⟩ :: steps => costWalkSteps (costWalk ctx operation) steps
end

/-! ## Checks against the ontology -/

/-- The node label and property name of each of the given property ids. -/
def indexedNames (node : NodeTypeDef) (ids : List PropertyId) : List (String × String) :=
  ids.filterMap fun id =>
    (first (·.id) id node.properties).map fun p => (node.label.val, p.name.val)

/-- The label and property pairs that an index or a unique constraint covers. -/
def indexedPairs (o : OntologyIR) : List (String × String) :=
  (o.indexes.flatMap fun idx =>
    (first (·.id) idx.nodeId o.nodeTypes).toList.flatMap fun node =>
      indexedNames node idx.properties) ++
  o.nodeTypes.flatMap fun node =>
    node.constraints.flatMap fun c =>
      match c.constraint with
      | .unique propertyIds | .nodeKey propertyIds => indexedNames node propertyIds
      | .exists_ _ => []

local instance lawfulFilters : LawfulBEq (String × String) := inferInstance

def checkIndexedFilters (filters : List (String × String)) (o : OntologyIR) : Bool :=
  filters.any fun f => f ∈ indexedPairs o

def checkHighFanout (labels : List String) (o : OntologyIR) : Bool :=
  labels.any fun label =>
    o.edgeTypes.any fun e => e.label.val = label ∧ e.cardinality = .manyToMany

/-- `check_partition_filters`: the labels mapped to a partitioned relation, with
no filter on a partition column. -/
def checkPartitionFilters (ctx : CostCtx) (o : OntologyIR) : List (String × ObjectMappingDef) :=
  (ctx.referencedLabels ++ ctx.filterLabels.map (·.1)).dedup.flatMap fun label =>
    match o.nodeTypes.find? fun n => n.label.val = label with
    | none => []
    | some node =>
      (o.objectMappings.filter fun m =>
        m.nodeTypeId = node.id ∧ m.partitionColumns ≠ [] ∧
          ∀ c ∈ m.partitionColumns, (label, c.column) ∉ ctx.filterLabels).map fun m => (label, m)

def fanoutForCardinality : Cardinality → Nat
  | .oneToOne | .manyToOne => 1
  | .oneToMany | .manyToMany => 10

def fanout (o : OntologyIR) (label : String) : Nat :=
  ((o.edgeTypes.find? fun e => e.label.val = label).map fun e =>
    fanoutForCardinality e.cardinality).getD 10

/-- Multiply until the cap is reached.  A product stays below ten times the cap,
so the multiplication of the source never saturates. -/
def expand (total : Nat) : List Nat → Nat
  | [] => total
  | f :: fs => if expansionCap ≤ total * f then expansionCap else expand (total * f) fs

def estimatePatternExpansions (ctx : CostCtx) (o : OntologyIR) : Nat :=
  let fanouts := ctx.relationshipLabels.map (fanout o)
  if fanouts = [] then 0
  else
    let total := expand 1 fanouts
    if expansionCap ≤ total then expansionCap
    else expand total (List.replicate ctx.maxVarLengthDepth (fanouts.max?.getD 10))

def classifyRisk (ctx : CostCtx) (indexed highFanout missingPartitionFilter : Bool) : RiskLevel :=
  if ctx.hasCartesian ∨ varLengthHighThreshold < ctx.maxVarLengthDepth ∨ missingPartitionFilter then
    .high
  else if varLengthMediumThreshold < ctx.maxVarLengthDepth ∨
      optionalMatchMediumThreshold < ctx.optionalMatchCount ∨
      patternCountMediumThreshold < ctx.patternCount ∨
      (highFanout ∧ ¬indexed ∧ 1 < ctx.maxVarLengthDepth) then
    .medium
  else .low

/-- The wallclock estimate, a thousandth of a millisecond for each expansion
rounded up.  Below the cap the double product is within a thousandth of the exact
quotient, and exact on multiples of a thousand, so the ceiling is the same. -/
def wallclockMs (expansions : Nat) : Option Nat :=
  if expansions = 0 ∨ expansionCap ≤ expansions then none else some ((expansions + 999) / 1000)

def estimateCost (query : QueryIR) (o : OntologyIR) : QueryCost :=
  let ctx := costWalk {} query.operation
  let indexed := checkIndexedFilters ctx.filterLabels o
  let highFanout := checkHighFanout ctx.relationshipLabels o
  let expansions := estimatePatternExpansions ctx o
  { patternCount := ctx.patternCount
    hasCartesian := ctx.hasCartesian
    maxVarLengthDepth := ctx.maxVarLengthDepth
    optionalMatchCount := ctx.optionalMatchCount
    usesIndexedFilter := indexed
    hasHighFanout := highFanout
    riskLevel := classifyRisk ctx indexed highFanout (checkPartitionFilters ctx o ≠ [])
    estimatedPatternExpansions := expansions
    estimatedRows := none
    estimatedWallclockMs := wallclockMs expansions }

end Ontosyx.Query
