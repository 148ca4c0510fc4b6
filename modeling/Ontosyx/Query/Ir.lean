import Ontosyx.Ontology.Schema

/-!
# QueryIR

The database-agnostic query algebra (`query.rs`): patterns, expressions,
projections, operations and mutations.  Every type that reaches an expression
is part of one mutual declaration, as in the source, where subqueries and
`EXISTS` patterns nest whole queries inside expressions.

Left out is the view state of a canvas pattern, which no pass reads.  The single
floats of a hybrid search are doubles here: the compiler widens them.
-/

namespace Ontosyx.Query

open Ontosyx.Core
open Ontology (DateTime)

/-- A variable name.  The rewriters only compare names, so the source's check
of a name's first character is not part of the type. -/
structure VariableName where
  val : String
deriving DecidableEq

/-! ## Operators and small records -/

inductive GraphFunction where
  | count | sum | avg | min | max | collect
  | toUpper | toLower | trim | replace | substring
  | abs | ceil | floor | round | sign | rand
  | size | head | last | range | keys
  | labels | type | id | nodes | relationships | length
  | toString | toInteger | toFloat | toBoolean
  | coalesce
  | date | dateTime | durationFn
deriving DecidableEq

inductive ComparisonOp where
  | eq | neq | lt | lte | gt | gte
deriving DecidableEq

inductive LogicalOp where
  | and | or | xor
deriving DecidableEq

inductive StringOp where
  | startsWith | endsWith | contains | regex
deriving DecidableEq

inductive AggFunction where
  | count | sum | avg | min | max | collect | stdDev | percentile | collectList
deriving DecidableEq

inductive SortDirection where
  | asc | desc
deriving DecidableEq

inductive PathAlgorithm where
  | shortestPath | allShortestPaths | allPaths
deriving DecidableEq

inductive GraphAlgorithm where
  | pageRank | communityDetection | betweennessCentrality | shortestPath | nodeSimilarity
deriving DecidableEq

inductive Direction where
  | outgoing | incoming | both
deriving DecidableEq

/-- A variable-length specification `*min..max`. -/
structure VarLength where
  min : Option Nat
  max : Option Nat
deriving DecidableEq

inductive PathElement where
  | node (var : VariableName) (label : Option GraphLabel)
  | edge (var : Option VariableName) (label : Option GraphLabel) (direction : Direction)
deriving DecidableEq

/-- A query vector with the dimension it declares. -/
structure Embedding where
  vector : List F64
  modelId : String
  dim : Nat
deriving DecidableEq

/-- How the two rankings of a hybrid search are merged. -/
inductive FusionStrategy where
  | reciprocalRankFusion (k : Nat)
  | weightedSum (vectorWeight fulltextWeight : F64)
deriving DecidableEq

structure FieldRef where
  var : VariableName
  field : Option PropertyKey
deriving DecidableEq

/-- One aggregation of an `Aggregate` operation. -/
structure AggregationExpr where
  function : AggFunction
  field : FieldRef
  alias_ : String
  distinct : Bool
deriving DecidableEq

/-! ## The query language -/

mutual
inductive Expr where
  | literal (value : PropertyValue)
  | param (name : String)
  | property (var : VariableName) (field : Option PropertyKey)
  | comparison (left : Expr) (op : ComparisonOp) (right : Expr)
  | logical (left : Expr) (op : LogicalOp) (right : Expr)
  | not (inner : Expr)
  | in_ (expr : Expr) (values : List PropertyValue)
  | isNull (expr : Expr) (negated : Bool)
  | stringOp (left : Expr) (op : StringOp) (right : Expr)
  | functionCall (function : GraphFunction) (args : List Expr)
  | exists_ (pattern : GraphPattern)
  | case_ (operand : Option Expr) (whenClauses : List WhenClause) (elseResult : Option Expr)
  | subquery (query : QueryIR) (importVariables : List String)

/-- One `WHEN … THEN …` of a `CASE`. -/
structure WhenClause where
  condition : Expr
  result : Expr

/-- An inline filter `{key: value}` of a pattern. -/
structure PropertyFilter where
  property : PropertyKey
  value : Expr

/-- A pattern of a `MATCH`. -/
inductive GraphPattern where
  | node (var : VariableName) (label : Option GraphLabel) (propertyFilters : List PropertyFilter)
  | relationship (var : Option VariableName) (label : Option GraphLabel)
      (source target : VariableName) (direction : Direction)
      (propertyFilters : List PropertyFilter) (varLength : Option VarLength)
  | path (elements : List PathElement)

/-- A column of a `RETURN` or `WITH`. -/
inductive Projection where
  | field (var : VariableName) (field : PropertyKey) (alias_ : Option String)
  | variable_ (var : VariableName) (alias_ : Option String)
  | expression (expr : Expr) (alias_ : String)
  | aggregation (function : AggFunction) (argument : Option Projection) (alias_ : String)
      (distinct : Bool)
  | allProperties (var : VariableName)

/-- An endpoint of a path search. -/
structure NodeRef where
  var : VariableName
  label : Option GraphLabel
  propertyFilters : List PropertyFilter

inductive AnalyticsSource where
  | wholeGraph
  | labels (labels : List GraphLabel)
  | subgraph (filter : QueryOp)

structure AnalyticsParam where
  name : String
  value : Expr

inductive QueryOp where
  | match_ (patterns : List GraphPattern) (filter : Option Expr) (projections : List Projection)
      (optional : Bool) (groupBy : List Projection)
  | pathFind (start end_ : NodeRef) (edgeTypes : List GraphLabel) (direction : Direction)
      (maxDepth : Option Nat) (algorithm : PathAlgorithm)
  | aggregate (source : QueryIR) (groupBy : List FieldRef) (aggregations : List AggregationExpr)
      (having : Option Expr)
  | union (queries : List QueryIR) (all : Bool)
  | chain (steps : List ChainStep)
  | callSubquery (inner : QueryIR) (importVariables : List String)
  | mutate (context : Option QueryOp) (operations : List MutateOp) (returning : List Projection)
  | analytics (algorithm : GraphAlgorithm) (source : AnalyticsSource)
      (params : List AnalyticsParam) (projections : List Projection)
  | hybridSearch (request : HybridSearchRequest)

/-- A query: an operation with its `LIMIT`, `SKIP`, `ORDER BY` and temporal pivot. -/
structure QueryIR where
  operation : QueryOp
  limit : Option Nat
  skip : Option Nat
  orderBy : List OrderClause
  asOf : Option DateTime

/-- One `ORDER BY` key. -/
structure OrderClause where
  projection : Projection
  direction : SortDirection

/-- One step of a `WITH` chain. -/
structure ChainStep where
  passThrough : List Projection
  operation : QueryOp

/-- One `{property: value}` of a mutation. -/
structure PropertyAssignment where
  property : PropertyKey
  value : Expr

inductive MutateOp where
  | createNode (var : VariableName) (label : GraphLabel) (properties : List PropertyAssignment)
  | createEdge (var : Option VariableName) (label : GraphLabel) (source target : VariableName)
      (properties : List PropertyAssignment)
  | mergeNode (var : VariableName) (label : GraphLabel)
      (matchProperties onCreate onMatch : List PropertyAssignment)
  | mergeEdge (var : Option VariableName) (label : GraphLabel) (source target : VariableName)
      (matchProperties onCreate onMatch : List PropertyAssignment)
  | setProperty (var : VariableName) (property : PropertyKey) (value : Expr)
  | delete (var : VariableName) (detach : Bool)
  | removeProperty (var : VariableName) (property : PropertyKey)
  | removeLabel (var : VariableName) (label : GraphLabel)

structure HybridSearchRequest where
  vectorQuery : Embedding
  fulltextQuery : Option String
  graphConstraints : Option PatternIR
  fuse : FusionStrategy
  topK : Nat

structure PatternIR where
  nodes : List PatternNode
  edges : List PatternEdge
  filters : List PatternFilter
  projections : List PatternProjection
  limit : Option Nat
  skip : Option Nat
  orderBy : List OrderClause

/-- A node of a canvas pattern; its variable is not validated. -/
structure PatternNode where
  id : String
  var : String
  label : Option GraphLabel
  propertyFilters : List PropertyFilter

/-- An edge of a canvas pattern; its ends are node ids of the canvas. -/
structure PatternEdge where
  id : String
  var : Option String
  label : Option GraphLabel
  sourceNodeId : String
  targetNodeId : String
  direction : Direction
  propertyFilters : List PropertyFilter
  varLength : Option VarLength

structure PatternFilter where
  id : String
  expr : Expr

structure PatternProjection where
  id : String
  projection : Projection
end

end Ontosyx.Query
