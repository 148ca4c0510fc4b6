import Ontosyx.Compile.Piece
import Ontosyx.Core.Names
import Ontosyx.Query.ConceptMap

/-!
# The Cypher compiler

`compile_query` and what it calls (`cypher/expr.rs`, `pattern.rs`, `mutate.rs`,
`query.rs`, `mod.rs`), as functions from the query to the pieces they write.  An
error is a piece as well, at the place where the source returns it.
-/

namespace Ontosyx.Compile

open Ontosyx.Core Ontosyx.Query
open Ontology (OntologyIR)

inductive CypherDialect where
  | neo4j | memgraph
deriving DecidableEq

/-- `GraphFunction::cypher_name`. -/
def cypherName : GraphFunction → String
  | .count => "count"
  | .sum => "sum"
  | .avg => "avg"
  | .min => "min"
  | .max => "max"
  | .collect => "collect"
  | .toUpper => "toUpper"
  | .toLower => "toLower"
  | .trim => "trim"
  | .replace => "replace"
  | .substring => "substring"
  | .abs => "abs"
  | .ceil => "ceil"
  | .floor => "floor"
  | .round => "round"
  | .sign => "sign"
  | .rand => "rand"
  | .size => "size"
  | .head => "head"
  | .last => "last"
  | .range => "range"
  | .keys => "keys"
  | .labels => "labels"
  | .type => "type"
  | .id => "id"
  | .nodes => "nodes"
  | .relationships => "relationships"
  | .length => "length"
  | .toString => "toString"
  | .toInteger => "toInteger"
  | .toFloat => "toFloat"
  | .toBoolean => "toBoolean"
  | .coalesce => "coalesce"
  | .date => "date"
  | .dateTime => "datetime"
  | .durationFn => "duration"

/-- `Display` of the comparison operators. -/
def comparisonText : ComparisonOp → String
  | .eq => "="
  | .neq => "<>"
  | .lt => "<"
  | .lte => "<="
  | .gt => ">"
  | .gte => ">="

/-- `Display` of the logical operators. -/
def logicalText : LogicalOp → String
  | .and => "AND"
  | .or => "OR"
  | .xor => "XOR"

/-- `Display` of the string operators. -/
def stringOpText : StringOp → String
  | .startsWith => "STARTS WITH"
  | .endsWith => "ENDS WITH"
  | .contains => "CONTAINS"
  | .regex => "=~"

def aggFunctionText : AggFunction → String
  | .count => "count"
  | .sum => "sum"
  | .avg => "avg"
  | .min => "min"
  | .max => "max"
  | .collect => "collect"
  | .stdDev => "stDev"
  | .percentile => "percentileCont"
  | .collectList => "collect"

/-! ## Values and names -/

def compileValue : PropertyValue → List Piece
  | .null => [.text "null"]
  | .date day => [.date day]
  | .dateTime nanos => [.dateTime nanos]
  | .duration v =>
    if v.toList.head? ≠ some 'P' || v.utf8ByteSize < 2 then [.text "null"] else [.duration v]
  | .bytes _ => [.text "null"]
  | v => [.literal v]

/-- `:label`, or nothing. -/
def compileLabel : Option GraphLabel → List Piece
  | none => []
  | some l => [.text ":", .escaped l.val]

/-- The variable of a relationship, cleared when it is a placeholder. -/
def compileEdgeVar (v : Option VariableName) : List Piece :=
  match v.bind fun v => sanitizeVariable v.val with
  | none => []
  | some v => [.name v]

def compileAggFunction (d : CypherDialect) (function : AggFunction) (target : List Piece)
    (distinct : Bool) : List Piece :=
  if function = .percentile ∧ d = .memgraph then target ++ [.fail .percentile]
  else
    .text (aggFunctionText function ++ "(" ++ if distinct then "DISTINCT " else "") :: target ++
      [.text ")"]

def formatDirectionPattern (rel : List Piece) : Direction → List Piece
  | .outgoing => .text "-" :: rel ++ [.text "->"]
  | .incoming => .text "<-" :: rel ++ [.text "-"]
  | .both => .text "-" :: rel ++ [.text "-"]

def compileVarLength : Option VarLength → List Piece
  | none => []
  | some ⟨some min, some max⟩ => [.text "*", .number min, .text "..", .number max]
  | some ⟨some min, none⟩ => [.text "*", .number min, .text ".."]
  | some ⟨none, some max⟩ => [.text "*..", .number max]
  | some ⟨none, none⟩ => [.text "*"]

def compilePathElement : PathElement → List Piece
  | .node v label => .text "(" :: .name v.val :: compileLabel label ++ [.text ")"]
  | .edge v label direction =>
    formatDirectionPattern (.text "[" :: compileEdgeVar v ++ compileLabel label ++ [.text "]"])
      direction

/-- `WITH` and the imported variables of a subquery. -/
def compileImports (importVariables : List String) : List Part :=
  if importVariables.isEmpty then []
  else pushPart [] (.text "WITH " :: joinWith ", " (importVariables.map fun v => [.name v]))

/-- `SKIP` and `LIMIT`. -/
def pushWindow (parts : List Part) (skip limit : Option Nat) : List Part :=
  let parts := match skip with
    | some n => pushPart parts [.text "SKIP ", .number n]
    | none => parts
  match limit with
  | some n => pushPart parts [.text "LIMIT ", .number n]
  | none => parts

/-- The variable and field of a group or aggregation. -/
def compileFieldRef (f : FieldRef) : List Piece :=
  match f.field with
  | some key => [.name f.var.val, .text ".", .escaped key.val]
  | none => [.name f.var.val]

/-- A group column, and the name it is projected under. -/
def compileGroup (g : FieldRef) : List Piece × List Piece :=
  match g.field with
  | some key => (compileFieldRef g ++ [.text " AS ", .escaped key.val], [.escaped key.val])
  | none => (compileFieldRef g, [.name g.var.val])

/-- An aggregation column, and the name it is projected under. -/
def compileAggregation (d : CypherDialect) (a : AggregationExpr) : List Piece × List Piece :=
  (compileAggFunction d a.function (compileFieldRef a.field) a.distinct ++
    [.text " AS ", .name a.alias_], [.name a.alias_])

def compilePathRel (edgeTypes : List GraphLabel) (direction : Direction) (maxDepth : Option Nat) :
    List Piece :=
  let relTypes :=
    if edgeTypes.isEmpty then []
    else .text ":" :: joinWith "|" (edgeTypes.map fun t => [.escaped t.val])
  let depth := match maxDepth with
    | some d => [.text "*..", .number d]
    | none => []
  formatDirectionPattern (.text "[" :: relTypes ++ depth ++ [.text "]"]) direction

def pathFunction : PathAlgorithm → Option String
  | .shortestPath => some "shortestPath"
  | .allShortestPaths => some "allShortestPaths"
  | .allPaths => none

def procedure : GraphAlgorithm → String
  | .pageRank => "gds.pageRank.stream"
  | .communityDetection => "gds.louvain.stream"
  | .betweennessCentrality => "gds.betweenness.stream"
  | .shortestPath => "gds.shortestPath.dijkstra.stream"
  | .nodeSimilarity => "gds.nodeSimilarity.stream"

def yieldClause : GraphAlgorithm → String
  | .pageRank => "nodeId, score"
  | .communityDetection => "nodeId, communityId"
  | .betweennessCentrality => "nodeId, score"
  | .shortestPath => "index, sourceNode, targetNode, totalCost, nodeIds, costs, path"
  | .nodeSimilarity => "node1, node2, similarity"

/-- One stream of the fusion: the collected nodes (or scored nodes) of a source,
kept to the constraint's label. -/
def compileStream (fuse : FusionStrategy) (label : Option GraphLabel)
    (carried rawNodes rawScored nodes scored : String) : List Piece :=
  match fuse, label with
  | .reciprocalRankFusion _, some l =>
    [.text ("WITH " ++ carried ++ "[n IN " ++ rawNodes ++ " WHERE n:"), .escaped l.val,
      .text (" | n] AS " ++ nodes)]
  | .reciprocalRankFusion _, none => [.text ("WITH " ++ carried ++ rawNodes ++ " AS " ++ nodes)]
  | .weightedSum _ _, some l =>
    [.text ("WITH " ++ carried ++ "[r IN " ++ rawScored ++ " WHERE r.node:"), .escaped l.val,
      .text (" | r] AS " ++ scored)]
  | .weightedSum _ _, none => [.text ("WITH " ++ carried ++ rawScored ++ " AS " ++ scored)]

/-- The ranks or weights of the two streams, and the sum of both. -/
def compileFusion : FusionStrategy → List (List Piece)
  | .reciprocalRankFusion k =>
    [[.text "WITH [i IN range(0, size(vec_nodes) - 1) | \x7bnode: vec_nodes[i], rrf: 1.0 / (",
        .literal (.int (Int64.ofNat k)),
        .text (" + i + 1)\x7d] AS vec_rrf, [j IN range(0, size(txt_nodes) - 1) | " ++
          "\x7bnode: txt_nodes[j], rrf: 1.0 / ("),
        .again 1 (.int (Int64.ofNat k)), .text " + j + 1)\x7d] AS txt_rrf"],
      [.text "UNWIND vec_rrf + txt_rrf AS r"],
      [.text "WITH r.node AS node, sum(r.rrf) AS score"]]
  | .weightedSum vectorWeight fulltextWeight =>
    [[.text "WITH [v IN vec_data | \x7bnode: v.node, weighted: v.score * ",
        .literal (.float vectorWeight),
        .text "\x7d] AS vec_w, [f IN txt_data | \x7bnode: f.node, weighted: f.score * ",
        .literal (.float fulltextWeight), .text "\x7d] AS txt_w"],
      [.text "UNWIND vec_w + txt_w AS r"],
      [.text "WITH r.node AS node, sum(r.weighted) AS score"]]

/-- How many literals `compileFusion` pushes. -/
def fusionPushes : FusionStrategy → Nat
  | .reciprocalRankFusion _ => 1
  | .weightedSum _ _ => 2

/-- The `HybridSearch` arm of `compile_op`. -/
def compileHybrid (vectorQuery : Embedding) (fulltextQuery : Option String)
    (label : Option GraphLabel) (fuse : FusionStrategy) (topK : Nat) : List (List Piece) :=
  let topKValue := PropertyValue.int (Int64.ofNat topK)
  let vectorCall := [.text "CALL db.index.vector.queryNodes(",
    .literal (.string "entity_embedding_index"), .text ", ", .literal topKValue, .text ", ",
    .literal (.list (vectorQuery.vector.map .float)), .text ")"]
  match fulltextQuery with
  | none =>
    [vectorCall, [.text "YIELD node, score"]] ++
      (match label with
      | some l => [[.text "WHERE node:", .escaped l.val]]
      | none => []) ++
      [[.text "RETURN node, score"], [.text "ORDER BY score DESC"]]
  | some query =>
    [vectorCall, [.text "YIELD node AS v_node, score AS v_score"],
      compileStream fuse label "" "collect(v_node)"
        "collect(\x7bnode: v_node, score: v_score\x7d)"
        "vec_nodes" "vec_data",
      [.text "CALL db.index.fulltext.queryNodes(", .literal (.string "entity_doc_index"),
        .text ", ", .literal (.string query), .text ")"],
      [.text "YIELD node AS f_node, score AS f_score"],
      compileStream fuse label
        (match fuse with
        | .reciprocalRankFusion _ => "vec_nodes, "
        | .weightedSum _ _ => "vec_data, ")
        "collect(f_node)" "collect(\x7bnode: f_node, score: f_score\x7d)" "txt_nodes"
        "txt_data"] ++
      compileFusion fuse ++
      [[.text "RETURN node, score"], [.text "ORDER BY score DESC"],
        [.text "LIMIT ", .again (4 + fusionPushes fuse) topKValue]]

/-! ## Expressions, patterns and operations -/

/-- `map_err` of a subquery. -/
def Piece.wrapError : Piece → Piece
  | .fail e => .fail (.subquery e)
  | p => p

def Part.wrapError (part : Part) : Part := { part with pieces := part.pieces.map Piece.wrapError }

/-- `RETURN` and its columns, when there are any. -/
def pushReturn (parts : List Part) (columns : List (List Piece)) : List Part :=
  if columns.isEmpty then parts else pushPart parts (.text "RETURN " :: joinWith ", " columns)

/-- The ` {…}` of inline properties, when there are any. -/
def braced (props : List (List Piece)) : List Piece :=
  if props.isEmpty then [] else .text " \x7b" :: joinWith ", " props ++ [.text "\x7d"]

/-- `ON CREATE SET` and `ON MATCH SET`, when they set anything. -/
def onSet (keyword : String) (sets : List (List Piece)) : List Piece :=
  if sets.isEmpty then [] else .text keyword :: joinWith ", " sets

/-- The `nodeLabels` entry of an analytics run. -/
def analyticsLabels : AnalyticsSource → List (List Piece)
  | .labels labels =>
    [.text "nodeLabels: [" :: joinWith ", " (labels.map fun l => [.quoted l.val]) ++ [.text "]"]]
  | .wholeGraph | .subgraph _ => []

/-- The configuration map of an analytics run, when it has entries. -/
def configMap (entries : List (List Piece)) : List Piece :=
  if entries.isEmpty then [] else .text ", \x7b" :: joinWith ", " entries ++ [.text "\x7d"]

mutual
def compileExpr (d : CypherDialect) : Expr → List Piece
  | .literal value => compileValue value
  | .param p => if isValidGraphIdentifier p then [.param p] else [.fail (.paramName p)]
  | .property v (some field) => [.name v.val, .text ".", .escaped field.val]
  | .property v none => [.name v.val]
  | .comparison left op right =>
    compileExpr d left ++ .text (" " ++ comparisonText op ++ " ") :: compileExpr d right
  | .logical left op right =>
    .text "(" :: compileExpr d left ++ .text (" " ++ logicalText op ++ " ") ::
      compileExpr d right ++ [.text ")"]
  | .not inner => .text "NOT (" :: compileExpr d inner ++ [.text ")"]
  | .in_ expr values =>
    -- the values are pushed before the literals of the expression that precedes them
    let vals := values.map compileValue
    let tested := compileExpr d expr
    vals.flatten.flatMap Piece.forget ++ tested ++ .text " IN [" ::
      joinWith ", " (recallAll (pushes tested) vals) ++ [.text "]"]
  | .isNull expr true => compileExpr d expr ++ [.text " IS NOT NULL"]
  | .isNull expr false => compileExpr d expr ++ [.text " IS NULL"]
  | .stringOp left op right =>
    compileExpr d left ++ .text (" " ++ stringOpText op ++ " ") :: compileExpr d right
  | .functionCall function args =>
    .text (cypherName function ++ "(") :: joinWith ", " (compileExprList d args) ++ [.text ")"]
  | .exists_ pattern => .text "EXISTS \x7b MATCH " :: compilePattern d pattern ++ [.text " \x7d"]
  | .case_ operand whenClauses elseResult =>
    .text "CASE" :: compileOperand d operand ++ compileWhenClauses d whenClauses ++
      compileElse d elseResult ++ [.text " END"]
  | .subquery query importVariables =>
    .text "COUNT \x7b " ::
      joinParts " " (compileSubquery d Part.wrapError (compileImports importVariables) query) ++
        [.text " \x7d"]

def compileExprList (d : CypherDialect) : List Expr → List (List Piece)
  | [] => []
  | e :: es => compileExpr d e :: compileExprList d es

def compileOperand (d : CypherDialect) : Option Expr → List Piece
  | none => []
  | some e => .text " " :: compileExpr d e

def compileElse (d : CypherDialect) : Option Expr → List Piece
  | none => []
  | some e => .text " ELSE " :: compileExpr d e

def compileWhenClauses (d : CypherDialect) : List WhenClause → List Piece
  | [] => []
  | ⟨condition, result⟩ :: clauses =>
    .text " WHEN " :: compileExpr d condition ++ .text " THEN " :: compileExpr d result ++
      compileWhenClauses d clauses

/-- A nested query with its `ORDER BY`, `SKIP` and `LIMIT`, after `parts`; `wrap`
is what happens to the errors of its operation. -/
def compileSubquery (d : CypherDialect) (wrap : Part → Part) (parts : List Part) :
    QueryIR → List Part
  | ⟨operation, limit, skip, orderBy, _⟩ =>
    let parts := (compileOp d parts operation).map wrap
    let parts :=
      if orderBy.isEmpty then parts
      else pushPart parts (.text "ORDER BY " :: joinWith ", " (compileOrderBy d orderBy))
    pushWindow parts skip limit

/-- `compile_inline_props`: the entries. -/
def compileFilters (d : CypherDialect) : List PropertyFilter → List (List Piece)
  | [] => []
  | ⟨property, value⟩ :: filters =>
    (.escaped property.val :: .text ": " :: compileExpr d value) :: compileFilters d filters

def compilePattern (d : CypherDialect) : GraphPattern → List Piece
  | .node v label propertyFilters =>
    .text "(" :: .name v.val :: compileLabel label ++ braced (compileFilters d propertyFilters) ++
      [.text ")"]
  | .relationship v label source target direction propertyFilters varLength =>
    .text "(" :: .name source.val :: .text ")" ::
      formatDirectionPattern
        (.text "[" :: compileEdgeVar v ++ compileLabel label ++ compileVarLength varLength ++
          braced (compileFilters d propertyFilters) ++ [.text "]"]) direction ++
      [.text "(", .name target.val, .text ")"]
  | .path elements => elements.flatMap compilePathElement

def compileProjection (d : CypherDialect) : Projection → List Piece
  | .field v field (some a) =>
    [.name v.val, .text ".", .escaped field.val, .text " AS ", .name a]
  | .field v field none => [.name v.val, .text ".", .escaped field.val]
  | .variable_ v (some a) => [.name v.val, .text " AS ", .name a]
  | .variable_ v none => [.name v.val]
  | .expression expr a => compileExpr d expr ++ [.text " AS ", .name a]
  | .aggregation function argument a distinct =>
    compileAggFunction d function (compileArgument d argument) distinct ++
      [.text " AS ", .name a]
  | .allProperties v => [.name v.val, .text " \x7b.*\x7d"]

def compileArgument (d : CypherDialect) : Option Projection → List Piece
  | none => [.text "*"]
  | some p => compileProjection d p

def compileProjections (d : CypherDialect) : List Projection → List (List Piece)
  | [] => []
  | p :: ps => compileProjection d p :: compileProjections d ps

/-- `compile_order_by`: the sort keys. -/
def compileOrderBy (d : CypherDialect) : List OrderClause → List (List Piece)
  | [] => []
  | ⟨projection, direction⟩ :: clauses =>
    let orderRef := match projection with
      | .aggregation _ _ a _ => [.name a]
      | .expression _ a => [.name a]
      | .field _ _ (some a) => [.name a]
      | .field v field none => [.name v.val, .text ".", .escaped field.val]
      | .variable_ _ (some a) => [.name a]
      | .variable_ v none => [.escaped v.val]
      | .allProperties v => [.name v.val, .text " \x7b.*\x7d"]
    (match direction with
      | .asc => orderRef
      | .desc => orderRef ++ [.text " DESC"]) :: compileOrderBy d clauses

/-- An endpoint of a path search. -/
def compileNodeRef (d : CypherDialect) : NodeRef → List Piece
  | ⟨v, label, propertyFilters⟩ =>
    .text "(" :: .name v.val :: compileLabel label ++ braced (compileFilters d propertyFilters) ++
      [.text ")"]

/-- `compile_op`: the parts after an operation. -/
def compileOp (d : CypherDialect) (parts : List Part) : QueryOp → List Part
  | .match_ patterns filter projections optional _ =>
    let keyword := if optional then "OPTIONAL MATCH" else "MATCH"
    let parts := compilePatterns d keyword parts patterns
    let parts := compileFilter d parts filter
    pushReturn parts (compileProjections d projections)
  | .pathFind start end_ edgeTypes direction maxDepth algorithm =>
    let path := compileNodeRef d start ++ compilePathRel edgeTypes direction maxDepth ++
      compileNodeRef d end_
    let pattern := match pathFunction algorithm with
      | some f => .text ("MATCH p = " ++ f ++ "(") :: path ++ [.text ")"]
      | none => .text "MATCH p = " :: path
    pushPart (pushPart parts pattern) [.text "RETURN p"]
  | .aggregate source groupBy aggregations having =>
    let parts := popReturn (compileSource d parts source)
    let columns := groupBy.map compileGroup ++ aggregations.map (compileAggregation d)
    match having with
    | some e =>
      let parts := pushPart parts (.text "WITH " :: joinWith ", " (columns.map (·.1)))
      let parts := pushPart parts (.text "WHERE " :: compileExpr d e)
      pushPart parts (.text "RETURN " :: joinWith ", " (columns.map (·.2)))
    | none => pushPart parts (.text "RETURN " :: joinWith ", " (columns.map (·.1)))
  | .union queries all =>
    let keyword := if all then "UNION ALL" else "UNION"
    pushPart parts (joinWith ("\n" ++ keyword ++ "\n") (compileBranches d queries))
  | .chain steps => compileChain d parts steps
  | .callSubquery inner importVariables =>
    pushPart parts (.text "CALL \x7b\n  " ::
      joinParts "\n  " (compileSubquery d id (compileImports importVariables) inner) ++
        [.text "\n\x7d"])
  | .mutate context operations returning =>
    let parts := compileContext d parts context
    let parts := compileMutateOps d parts operations
    pushReturn parts (compileProjections d returning)
  | .analytics algorithm source params projections =>
    if d = .memgraph then pushPart parts [.fail (.analytics algorithm)]
    else
      let parts := compileAnalyticsSource d parts source
      let config := configMap (analyticsLabels source ++ compileParams d params)
      let parts := pushPart parts
        (.text ("CALL " ++ procedure algorithm ++ "($graph") :: config ++
          [.text (")\nYIELD " ++ yieldClause algorithm)])
      pushReturn parts (compileProjections d projections)
  | .hybridSearch ⟨vectorQuery, fulltextQuery, graphConstraints, fuse, topK⟩ =>
    let label := do (← (← graphConstraints).nodes.head?).label
    (compileHybrid vectorQuery fulltextQuery label fuse topK).foldl pushPart parts

def compilePatterns (d : CypherDialect) (keyword : String) (parts : List Part) :
    List GraphPattern → List Part
  | [] => parts
  | p :: ps =>
    compilePatterns d keyword (pushPart parts (.text (keyword ++ " ") :: compilePattern d p)) ps

def compileFilter (d : CypherDialect) (parts : List Part) : Option Expr → List Part
  | none => parts
  | some e => pushPart parts (.text "WHERE " :: compileExpr d e)

/-- The source of an aggregation: only its operation is compiled. -/
def compileSource (d : CypherDialect) (parts : List Part) : QueryIR → List Part
  | ⟨operation, _, _, _, _⟩ => compileOp d parts operation

/-- The branches of a `UNION`, each with its `ORDER BY`. -/
def compileBranches (d : CypherDialect) : List QueryIR → List (List Piece)
  | [] => []
  | ⟨operation, _, _, orderBy, _⟩ :: queries =>
    let parts := compileOp d [] operation
    let parts :=
      if orderBy.isEmpty then parts
      else pushPart parts (.text "ORDER BY " :: joinWith ", " (compileOrderBy d orderBy))
    joinParts "\n" parts :: compileBranches d queries

/-- `compile_chain_step`, along the steps. -/
def compileChain (d : CypherDialect) (parts : List Part) : List ChainStep → List Part
  | [] => parts
  | ⟨passThrough, operation⟩ :: steps =>
    let parts :=
      if passThrough.isEmpty then parts
      else pushPart parts (.text "WITH " :: joinWith ", " (compileProjections d passThrough))
    compileChain d (compileOp d parts operation) steps

/-- The context of a mutation, without its `RETURN`. -/
def compileContext (d : CypherDialect) (parts : List Part) : Option QueryOp → List Part
  | none => parts
  | some op => popReturn (compileOp d parts op)

/-- The subgraph of an analytics run, without its `RETURN`. -/
def compileAnalyticsSource (d : CypherDialect) (parts : List Part) :
    AnalyticsSource → List Part
  | .subgraph filter => popReturn (compileOp d parts filter)
  | .labels _ | .wholeGraph => parts

/-- The configuration entries of an analytics run. -/
def compileParams (d : CypherDialect) : List AnalyticsParam → List (List Piece)
  | [] => []
  | ⟨key, value⟩ :: params =>
    (.name key :: .text ": " :: compileExpr d value) :: compileParams d params

/-- `compile_assignments`: the entries. -/
def compileAssignments (d : CypherDialect) : List PropertyAssignment → List (List Piece)
  | [] => []
  | ⟨property, value⟩ :: assignments =>
    (.escaped property.val :: .text ": " :: compileExpr d value) ::
      compileAssignments d assignments

/-- `compile_set_assignments`: the entries. -/
def compileSetAssignments (d : CypherDialect) (v : String) :
    List PropertyAssignment → List (List Piece)
  | [] => []
  | ⟨property, value⟩ :: assignments =>
    (.name v :: .text "." :: .escaped property.val :: .text " = " :: compileExpr d value) ::
      compileSetAssignments d v assignments

def compileMutateOp (d : CypherDialect) : MutateOp → List Piece
  | .createNode v label properties =>
    .text "CREATE (" :: .name v.val :: .text ":" :: .escaped label.val :: .text " \x7b" ::
      joinWith ", " (compileAssignments d properties) ++ [.text "\x7d)"]
  | .createEdge v label source target properties =>
    .text "CREATE (" :: .name source.val :: .text ")-[" :: (v.toList.map fun v => .name v.val) ++
      .text ":" :: .escaped label.val :: braced (compileAssignments d properties) ++
        [.text "]->(", .name target.val, .text ")"]
  | .mergeNode v label matchProperties onCreate onMatch =>
    .text "MERGE (" :: .name v.val :: .text ":" :: .escaped label.val :: .text " \x7b" ::
      joinWith ", " (compileAssignments d matchProperties) ++ .text "\x7d)" ::
        onSet "\n  ON CREATE SET " (compileSetAssignments d v.val onCreate) ++
        onSet "\n  ON MATCH SET " (compileSetAssignments d v.val onMatch)
  | .mergeEdge v label source target matchProperties onCreate onMatch =>
    let var := match v with
      | some v => v.val
      | none => "r"
    .text "MERGE (" :: .name source.val :: .text ")-[" :: .name var :: .text ":" ::
      .escaped label.val :: braced (compileAssignments d matchProperties) ++
        .text "]->(" :: .name target.val :: .text ")" ::
        onSet "\n  ON CREATE SET " (compileSetAssignments d var onCreate) ++
        onSet "\n  ON MATCH SET " (compileSetAssignments d var onMatch)
  | .setProperty v property value =>
    .text "SET " :: .name v.val :: .text "." :: .escaped property.val :: .text " = " ::
      compileExpr d value
  | .delete v true => [.text "DETACH DELETE ", .name v.val]
  | .delete v false => [.text "DELETE ", .name v.val]
  | .removeProperty v property => [.text "REMOVE ", .name v.val, .text ".", .escaped property.val]
  | .removeLabel v label => [.text "REMOVE ", .name v.val, .text ":", .escaped label.val]

def compileMutateOps (d : CypherDialect) (parts : List Part) : List MutateOp → List Part
  | [] => parts
  | op :: ops => compileMutateOps d (pushPart parts (compileMutateOp d op)) ops
end

structure CompiledQuery where
  statement : String
  params : List (String × PropertyValue)
  conceptMapReport : RewriteReport

/-- The pieces of a query whose codes are rewritten. -/
def queryPieces (d : CypherDialect) (q : QueryIR) : List Piece :=
  joinParts "\n" (compileSubquery d id [] q)

/-- The concept-map rewrite at the head of `compile_query`. -/
def rewriteCodes (query : QueryIR) (ontology : Option OntologyIR) : QueryIR × RewriteReport :=
  match ontology with
  | some o =>
    let table := buildTranslationTableForQuery query o
    if table.isEmpty then (query, {}) else rewriteConceptMapValues query table
  | none => (query, {})

/-- `compile_query` up to the joining of the text. -/
def compileStretches (d : CypherDialect) (query : QueryIR) (ontology : Option OntologyIR) :
    Except CompileError (List Stretch × ParamCollector) :=
  if query.asOf.isSome then .error .temporal
  else writeAll .new (queryPieces d (rewriteCodes query ontology).1)

/-- `CypherCompiler::compile_query`. -/
def compileQuery (d : CypherDialect) (query : QueryIR) (ontology : Option OntologyIR) :
    Except CompileError CompiledQuery := do
  let (stretches, pc) ← compileStretches d query ontology
  return ⟨text stretches, pc.params, (rewriteCodes query ontology).2⟩

end Ontosyx.Compile
