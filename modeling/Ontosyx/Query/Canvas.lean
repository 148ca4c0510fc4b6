import Ontosyx.Lib.Keyed
import Ontosyx.Query.Structured

/-!
# The canvas

The user-facing form of a query (`pattern/mod.rs`).  `compile` lowers the nodes,
edges, filter rows and projections of a canvas to a `MATCH`; `decompile` takes a
query back to a canvas, read-only unless the query is a `MATCH`.

An edge of a canvas names its ends by node id, a relationship of a query by
variable: the two translations each keep a map from the one to the other.
-/

namespace Ontosyx.Query

open Lib VariableName
open Ontology (DateTime)

/-- `combine_filters_and` from the second expression on. -/
def conjoin : Expr → List Expr → Expr
  | e, [] => e
  | e, f :: fs => conjoin (.logical e .and f) fs

def combineFiltersAnd : List Expr → Option Expr
  | [] => none
  | e :: es => some (conjoin e es)

def splitTopLevelAnd : Expr → List Expr
  | .logical left .and right => splitTopLevelAnd left ++ splitTopLevelAnd right
  | e => [e]

/-- The variable of the node an edge ends at, or the placeholder for an id that
names no node. -/
def variableAt (nodes : List PatternNode) (id : String) : String :=
  match Keyed.last PatternNode.id id nodes with
  | some n => n.var
  | none => "__missing_" ++ id ++ "__"

def PatternNode.compile (n : PatternNode) : Except String GraphPattern := do
  return .node (← new n.var) n.label n.propertyFilters

def PatternEdge.compile (nodes : List PatternNode) (e : PatternEdge) :
    Except String GraphPattern := do
  let source ← new (variableAt nodes e.sourceNodeId)
  let target ← new (variableAt nodes e.targetNodeId)
  let var ← e.var.mapM new
  return .relationship var e.label source target e.direction e.propertyFilters e.varLength

/-- `PatternIR::compile`. -/
def PatternIR.compile (p : PatternIR) : Except String QueryIR := do
  let nodes ← p.nodes.mapM PatternNode.compile
  let edges ← p.edges.mapM (PatternEdge.compile p.nodes)
  return {
    operation := .match_ (nodes ++ edges) (combineFiltersAnd (p.filters.map PatternFilter.expr))
      (p.projections.map PatternProjection.projection) false []
    limit := p.limit
    skip := p.skip
    orderBy := p.orderBy
    asOf := none }

/-- `ReadOnlyReason::name_query_op`. -/
def nameQueryOp : QueryOp → String
  | .match_ .. => "Match"
  | .pathFind .. => "PathFind"
  | .aggregate .. => "Aggregate"
  | .union .. => "Union"
  | .chain .. => "Chain"
  | .callSubquery .. => "CallSubquery"
  | .mutate .. => "Mutate"
  | .analytics .. => "Analytics"
  | .hybridSearch .. => "HybridSearch"

/-- A canvas with its marker for operations that have no canvas form. -/
structure Canvas where
  pattern : PatternIR
  readOnlyReason : Option String

def Canvas.isEditable (c : Canvas) : Bool := c.readOnlyReason.isNone

/-- The id `decompile` gives to the node at position `idx`. -/
def nodeId (idx : Nat) : String := "n" ++ toString idx

/-- The node id an end of a relationship gets: `varToId` holds the nodes seen so
far. -/
def endId (varToId : String → Option String) (v : VariableName) : String :=
  (varToId v.val).getD ("missing_" ++ v.val)

/-- The nodes and the edges of the patterns from position `idx` on.  A path
pattern leaves no trace. -/
def decompilePatterns : Nat → (String → Option String) → List GraphPattern →
    List PatternNode × List PatternEdge
  | _, _, [] => ([], [])
  | idx, varToId, .node v label propertyFilters :: ps =>
    let rest := decompilePatterns (idx + 1)
      (Function.update varToId v.val (some (nodeId idx))) ps
    (⟨nodeId idx, v.val, label, propertyFilters⟩ :: rest.1, rest.2)
  | idx, varToId,
    .relationship v label source target direction propertyFilters varLength :: ps =>
      let rest := decompilePatterns (idx + 1) varToId ps
      (rest.1, ⟨"e" ++ toString idx, v.map val, label, endId varToId source,
        endId varToId target, direction, propertyFilters, varLength⟩ :: rest.2)
  | idx, varToId, .path _ :: ps => decompilePatterns (idx + 1) varToId ps

/-- `PatternIR::decompile`. -/
def decompile (query : QueryIR) : Canvas :=
  match query.operation with
  | .match_ patterns filter projections _ _ =>
    let parts := decompilePatterns 0 (fun _ => none) patterns
    let filters := (filter.map splitTopLevelAnd).getD []
    { pattern :=
        { nodes := parts.1
          edges := parts.2
          filters := filters.mapIdx fun idx expr => ⟨"f" ++ toString idx, expr⟩
          projections := projections.mapIdx fun idx p => ⟨"p" ++ toString idx, p⟩
          limit := query.limit
          skip := query.skip
          orderBy := query.orderBy }
      readOnlyReason := none }
  | other => ⟨⟨[], [], [], [], none, none, []⟩, some (nameQueryOp other)⟩

end Ontosyx.Query
