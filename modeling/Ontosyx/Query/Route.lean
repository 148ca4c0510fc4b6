import Ontosyx.Query.Cost

/-!
# Routing a query to a backend

`QueryExecutionRouter::route` refuses a query for its cost, sends it to the
federation when a relationship label it collects names an edge type that crosses
sources, and to the graph otherwise.  The hops of a query are all the places where
it moves along an edge; `plain` marks those the collector looks at.

The router builds no hybrid decision, and the federation plan it hands out is
null.

## Main results

* `collectLabels_eq` — the collector reads exactly the plain hops with
  a label.
* `offGraph_iff` — when no query that can cross sources is sent to the graph.
-/

namespace Ontosyx.Query

open List Ontosyx.Core Ontology QueryOp ChainStep

/-! ## The router -/

/-- A caller's cost ceiling. -/
structure CostBudget where
  maxRows : Option Nat := none
  maxWallclockMs : Option Nat := none
  allowHighCost : Bool := false

inductive BudgetRefusal where
  | highRisk
  | wallclock (estimated cap : Nat)
  | rows (estimated cap : Nat)
deriving DecidableEq

inductive RouteDecision where
  | graph (reason : String) (cost : QueryCost)
  | federation (reason : String) (cost : QueryCost)
deriving DecidableEq

def crossesSources (lm : LinkMappingDef) : Bool :=
  (match lm.kind with
    | .federated .. => true
    | _ => false) ||
  lm.sourceEndpoint.sourceId ≠ lm.targetEndpoint.sourceId

def relationshipLabels (patterns : List GraphPattern) : List GraphLabel :=
  patterns.filterMap fun
    | .relationship _ label _ _ _ _ _ => label
    | _ => none

mutual
def collectRelationshipLabels : QueryOp → List GraphLabel
  | .match_ patterns _ _ _ _ => relationshipLabels patterns
  | .pathFind _ _ edgeTypes _ _ _ => edgeTypes
  | .aggregate ⟨operation, _, _, _, _⟩ _ _ _ => collectRelationshipLabels operation
  | .chain steps => collectFromSteps steps
  | .union queries _ => collectFromQueries queries
  | .mutate (some context) _ _ => collectRelationshipLabels context
  | .mutate none _ _ => []
  | .callSubquery ⟨operation, _, _, _, _⟩ _ => collectRelationshipLabels operation
  | .analytics _ _ _ _ => []
  | .hybridSearch request =>
    request.graphConstraints.toList.flatMap fun c => c.edges.filterMap (·.label)

/-- `collect_relationship_labels` over the steps of a chain. -/
def collectFromSteps : List ChainStep → List GraphLabel
  | [] => []
  | ⟨_, operation⟩ :: steps => collectRelationshipLabels operation ++ collectFromSteps steps

/-- `collect_relationship_labels` over the branches of a union. -/
def collectFromQueries : List QueryIR → List GraphLabel
  | [] => []
  | ⟨operation, _, _, _, _⟩ :: qs => collectRelationshipLabels operation ++ collectFromQueries qs
end

/-- An edge type under the label has a link mapping that crosses sources. -/
def labelCrosses (o : OntologyIR) (label : GraphLabel) : Bool :=
  o.linkMappings.any fun lm =>
    o.edgeTypes.any (fun e => e.id = lm.edgeTypeId ∧ e.label = label) && crossesSources lm

def traversesCrossSourceEdge (ir : QueryIR) (o : OntologyIR) : Bool :=
  (collectRelationshipLabels ir.operation).any (labelCrosses o)

/-- The budget gates of `route`. -/
def refuse (cost : QueryCost) (budget : Option CostBudget) : Option BudgetRefusal :=
  if cost.riskLevel = .high ∧ ¬budget.any (·.allowHighCost) then some .highRisk
  else
    match budget with
    | none => none
    | some b =>
      if b.allowHighCost then none
      else
        match cost.estimatedWallclockMs, b.maxWallclockMs with
        | some estimated, some cap =>
          if cap < estimated then some (.wallclock estimated cap) else none
        | _, _ => none

/-- The row gate of `route`, after the others. -/
def refuseRows (cost : QueryCost) (budget : Option CostBudget) : Option BudgetRefusal :=
  match budget with
  | none => none
  | some b =>
    if b.allowHighCost then none
    else
      match cost.estimatedRows, b.maxRows with
      | some estimated, some cap => if cap < estimated then some (.rows estimated cap) else none
      | _, _ => none

/-- `QueryExecutionRouter::route`. -/
def route (ir : QueryIR) (o : OntologyIR) (budget : Option CostBudget) :
    Except BudgetRefusal RouteDecision :=
  let cost := estimateCost ir o
  match (refuse cost budget).or (refuseRows cost budget) with
  | some refusal => .error refusal
  | none =>
    if traversesCrossSourceEdge ir o then
      .ok (.federation "federation runtime — cross-source traversal detected" cost)
    else .ok (.graph "graph runtime — single-source pattern execution" cost)

/-! ## The hops of a query -/

/-- What a hop can move along: the edge types under a label, or any. -/
inductive Reach where
  | label (label : GraphLabel)
  | any
deriving DecidableEq

/-- A hop, and whether it is in plain view: a labelled one of an operation that no
expression encloses. -/
structure Hop where
  reach : Reach
  plain : Bool
deriving DecidableEq

/-- The hop of an optional label; only a labelled one can be in plain view. -/
def Hop.ofLabel : Option GraphLabel → Hop
  | some label => ⟨.label label, true⟩
  | none => ⟨.any, false⟩

/-- The hops of a path search: its edge types, or any edge without them. -/
def Hop.ofEdgeTypes : List GraphLabel → List Hop
  | [] => [⟨.any, false⟩]
  | labels => labels.map fun label => ⟨.label label, true⟩

def hidden (hops : List Hop) : List Hop := hops.map fun h => { h with plain := false }

def PathElement.hops : PathElement → List Hop
  | .node _ _ => []
  | .edge _ label _ => hidden [Hop.ofLabel label]

mutual
def Expr.hops : Expr → List Hop
  | .literal _ | .param _ | .property _ _ => []
  | .comparison left _ right | .logical left _ right | .stringOp left _ right =>
    left.hops ++ right.hops
  | .not inner => inner.hops
  | .in_ expr _ | .isNull expr _ => expr.hops
  | .functionCall _ args => Expr.hopsList args
  | .exists_ pattern => pattern.hops
  | .case_ operand whenClauses elseResult =>
    Expr.hopsOption operand ++ WhenClause.hopsList whenClauses ++ Expr.hopsOption elseResult
  | .subquery query _ => query.hops

def Expr.hopsList : List Expr → List Hop
  | [] => []
  | e :: es => e.hops ++ Expr.hopsList es

def Expr.hopsOption : Option Expr → List Hop
  | none => []
  | some e => e.hops

def WhenClause.hopsList : List WhenClause → List Hop
  | [] => []
  | ⟨condition, result⟩ :: clauses => condition.hops ++ result.hops ++ WhenClause.hopsList clauses

def PropertyFilter.hopsList : List PropertyFilter → List Hop
  | [] => []
  | ⟨_, value⟩ :: filters => value.hops ++ PropertyFilter.hopsList filters

def GraphPattern.hops : GraphPattern → List Hop
  | .node _ _ filters => hidden (PropertyFilter.hopsList filters)
  | .relationship _ label _ _ _ filters _ =>
    Hop.ofLabel label :: hidden (PropertyFilter.hopsList filters)
  | .path elements => elements.flatMap PathElement.hops

def GraphPattern.hopsList : List GraphPattern → List Hop
  | [] => []
  | p :: ps => p.hops ++ GraphPattern.hopsList ps

def Projection.hops : Projection → List Hop
  | .field _ _ _ | .variable_ _ _ | .allProperties _ => []
  | .expression expr _ => expr.hops
  | .aggregation _ argument _ _ => Projection.hopsOption argument

def Projection.hopsOption : Option Projection → List Hop
  | none => []
  | some p => p.hops

def Projection.hopsList : List Projection → List Hop
  | [] => []
  | p :: ps => p.hops ++ Projection.hopsList ps

def NodeRef.hops : NodeRef → List Hop
  | ⟨_, _, filters⟩ => hidden (PropertyFilter.hopsList filters)

def AnalyticsParam.hopsList : List AnalyticsParam → List Hop
  | [] => []
  | ⟨_, value⟩ :: params => value.hops ++ AnalyticsParam.hopsList params

def PropertyAssignment.hopsList : List PropertyAssignment → List Hop
  | [] => []
  | ⟨_, value⟩ :: assignments => value.hops ++ PropertyAssignment.hopsList assignments

def MutateOp.hops : MutateOp → List Hop
  | .createNode _ _ properties | .createEdge _ _ _ _ properties =>
    PropertyAssignment.hopsList properties
  | .mergeNode _ _ matchProperties onCreate onMatch
  | .mergeEdge _ _ _ _ matchProperties onCreate onMatch =>
    PropertyAssignment.hopsList matchProperties ++ PropertyAssignment.hopsList onCreate ++
      PropertyAssignment.hopsList onMatch
  | .setProperty _ _ value => value.hops
  | .delete _ _ | .removeProperty _ _ | .removeLabel _ _ => []

def MutateOp.hopsList : List MutateOp → List Hop
  | [] => []
  | m :: ms => m.hops ++ MutateOp.hopsList ms

def PatternIR.hops : PatternIR → List Hop
  | ⟨nodes, edges, filters, projections, _, _, orderBy⟩ =>
    PatternEdge.hopsList edges ++
      hidden (PatternNode.hopsList nodes ++ PatternFilter.hopsList filters ++
        PatternProjection.hopsList projections ++ OrderClause.hopsList orderBy)

def PatternNode.hopsList : List PatternNode → List Hop
  | [] => []
  | ⟨_, _, _, filters⟩ :: ns => PropertyFilter.hopsList filters ++ PatternNode.hopsList ns

def PatternEdge.hopsList : List PatternEdge → List Hop
  | [] => []
  | ⟨_, _, label, _, _, _, filters, _⟩ :: es =>
    Hop.ofLabel label ::
      (hidden (PropertyFilter.hopsList filters) ++ PatternEdge.hopsList es)

def PatternFilter.hopsList : List PatternFilter → List Hop
  | [] => []
  | ⟨_, expr⟩ :: fs => expr.hops ++ PatternFilter.hopsList fs

def PatternProjection.hopsList : List PatternProjection → List Hop
  | [] => []
  | ⟨_, projection⟩ :: ps => projection.hops ++ PatternProjection.hopsList ps

def OrderClause.hopsList : List OrderClause → List Hop
  | [] => []
  | ⟨projection, _⟩ :: os => projection.hops ++ OrderClause.hopsList os

/-- The hops of an operation and of everything within it. -/
def QueryOp.hops : QueryOp → List Hop
  | .match_ patterns filter projections _ groupBy =>
    GraphPattern.hopsList patterns ++
      hidden (Expr.hopsOption filter ++ Projection.hopsList projections ++
        Projection.hopsList groupBy)
  | .pathFind start end_ edgeTypes _ _ _ =>
    Hop.ofEdgeTypes edgeTypes ++ start.hops ++ end_.hops
  | .aggregate source _ _ having => source.hops ++ hidden (Expr.hopsOption having)
  | .union queries _ => QueryIR.hopsList queries
  | .chain steps => ChainStep.hopsList steps
  | .callSubquery inner _ => inner.hops
  | .mutate context operations returning =>
    QueryOp.hopsOption context ++
      hidden (MutateOp.hopsList operations ++ Projection.hopsList returning)
  | .analytics _ source params projections =>
    hidden (source.hops ++ AnalyticsParam.hopsList params ++ Projection.hopsList projections)
  | .hybridSearch ⟨_, _, none, _, _⟩ => []
  | .hybridSearch ⟨_, _, some constraints, _, _⟩ => constraints.hops

def QueryOp.hopsOption : Option QueryOp → List Hop
  | none => []
  | some op => op.hops

def AnalyticsSource.hops : AnalyticsSource → List Hop
  | .wholeGraph | .labels _ => []
  | .subgraph filter => filter.hops

def QueryIR.hops : QueryIR → List Hop
  | ⟨operation, _, _, orderBy, _⟩ => operation.hops ++ hidden (OrderClause.hopsList orderBy)

def QueryIR.hopsList : List QueryIR → List Hop
  | [] => []
  | q :: qs => q.hops ++ QueryIR.hopsList qs

def ChainStep.hopsList : List ChainStep → List Hop
  | [] => []
  | ⟨passThrough, operation⟩ :: steps =>
    operation.hops ++ hidden (Projection.hopsList passThrough) ++ ChainStep.hopsList steps
end

/-! ## What the collector reads -/

def Hop.plainLabel (h : Hop) : Option GraphLabel :=
  match h.reach, h.plain with
  | .label label, true => some label
  | _, _ => none

theorem plainLabels_hidden (hops : List Hop) : (hidden hops).filterMap Hop.plainLabel = [] := by
  rw [hidden, filterMap_map, filterMap_eq_nil_iff]
  intro h _
  cases h with
  | mk reach plain => cases reach <;> rfl

theorem plainLabel_ofLabel (label : Option GraphLabel) :
    (Hop.ofLabel label).plainLabel = label := by
  cases label <;> rfl

theorem plainLabels_ofEdgeTypes (labels : List GraphLabel) :
    (Hop.ofEdgeTypes labels).filterMap Hop.plainLabel = labels := by
  cases labels with
  | nil => rfl
  | cons label labels =>
    rw [Hop.ofEdgeTypes, filterMap_map]
    · exact filterMap_some ..
    · exact fun h => by cases h

theorem plainLabels_patterns (patterns : List GraphPattern) :
    (GraphPattern.hopsList patterns).filterMap Hop.plainLabel = relationshipLabels patterns := by
  induction patterns with
  | nil => rfl
  | cons p ps ih =>
    rw [GraphPattern.hopsList, filterMap_append, ih, relationshipLabels, relationshipLabels,
      filterMap_cons]
    cases p with
    | node var label filters => rw [GraphPattern.hops, plainLabels_hidden, nil_append]
    | relationship var label source target direction filters varLength =>
      rw [GraphPattern.hops, filterMap_cons, plainLabel_ofLabel, plainLabels_hidden]
      cases label <;> rfl
    | path elements =>
      have hpath : (elements.flatMap PathElement.hops).filterMap Hop.plainLabel = [] := by
        rw [filterMap_flatMap, flatMap_eq_nil_iff]
        intro e _
        cases e with
        | node var label => rfl
        | edge var label direction => exact plainLabels_hidden _
      rw [GraphPattern.hops, hpath, nil_append]

theorem plainLabels_edges (edges : List PatternEdge) :
    (PatternEdge.hopsList edges).filterMap Hop.plainLabel = edges.filterMap (·.label) := by
  induction edges with
  | nil => rfl
  | cons e es ih =>
    obtain ⟨id, var, label, source, target, direction, filters, varLength⟩ := e
    rw [PatternEdge.hopsList, filterMap_cons, plainLabel_ofLabel, filterMap_append,
      plainLabels_hidden, ih, filterMap_cons]
    rfl

mutual
/-- The collector reads exactly the labels of the hops in plain view. -/
theorem collectLabels_eq (op : QueryOp) :
    collectRelationshipLabels op = op.hops.filterMap Hop.plainLabel := by
  cases op with
  | match_ patterns filter projections optional groupBy =>
    rw [collectRelationshipLabels, hops, filterMap_append, plainLabels_hidden,
      plainLabels_patterns, append_nil]
  | pathFind start end_ edgeTypes direction maxDepth algorithm =>
    obtain ⟨var, label, filters⟩ := start
    obtain ⟨var', label', filters'⟩ := end_
    rw [collectRelationshipLabels, hops, filterMap_append, filterMap_append,
      plainLabels_ofEdgeTypes, NodeRef.hops, NodeRef.hops, plainLabels_hidden,
      plainLabels_hidden, append_nil, append_nil]
  | aggregate source groupBy aggregations having =>
    cases source with
    | mk operation limit skip orderBy asOf =>
      rw [hops, filterMap_append, plainLabels_hidden, append_nil,
        QueryIR.hops, filterMap_append, plainLabels_hidden, append_nil,
        ← collectLabels_eq operation, collectRelationshipLabels]
  | union queries all => rw [collectRelationshipLabels, hops, collectFromQueries_eq queries]
  | chain steps => rw [collectRelationshipLabels, hops, collectFromSteps_eq steps]
  | callSubquery inner imports =>
    cases inner with
    | mk operation limit skip orderBy asOf =>
      rw [hops, QueryIR.hops, filterMap_append, plainLabels_hidden,
        append_nil, ← collectLabels_eq operation, collectRelationshipLabels]
  | mutate context operations returning =>
    rw [QueryOp.hops, filterMap_append, plainLabels_hidden, append_nil]
    cases context with
    | none => rw [collectRelationshipLabels, QueryOp.hopsOption, filterMap_nil]
    | some op =>
      rw [collectRelationshipLabels, QueryOp.hopsOption, collectLabels_eq op]
  | analytics algorithm source params projections =>
    rw [collectRelationshipLabels, QueryOp.hops, plainLabels_hidden]
  | hybridSearch request =>
    obtain ⟨vectorQuery, fulltextQuery, constraints, fuse, topK⟩ := request
    cases constraints with
    | none => rfl
    | some c =>
      obtain ⟨nodes, edges, filters, projections, limit, skip, orderBy⟩ := c
      rw [hops, PatternIR.hops, filterMap_append, plainLabels_hidden,
        append_nil, plainLabels_edges, collectRelationshipLabels]
      exact append_nil _

theorem collectFromQueries_eq (qs : List QueryIR) :
    collectFromQueries qs = (QueryIR.hopsList qs).filterMap Hop.plainLabel := by
  cases qs with
  | nil => rfl
  | cons q qs =>
    cases q with
    | mk operation limit skip orderBy asOf =>
      rw [QueryIR.hopsList, filterMap_append, QueryIR.hops, filterMap_append,
        plainLabels_hidden, append_nil, ← collectLabels_eq operation,
        ← collectFromQueries_eq qs, collectFromQueries]

theorem collectFromSteps_eq (steps : List ChainStep) :
    collectFromSteps steps = (hopsList steps).filterMap Hop.plainLabel := by
  cases steps with
  | nil => rfl
  | cons step steps =>
    cases step with
    | mk passThrough operation =>
      rw [hopsList, filterMap_append, filterMap_append, plainLabels_hidden,
        append_nil, ← collectLabels_eq operation,
        ← collectFromSteps_eq steps, collectFromSteps]
end

theorem collectFromQuery_eq (q : QueryIR) :
    collectRelationshipLabels q.operation = q.hops.filterMap Hop.plainLabel := by
  cases q with
  | mk operation limit skip orderBy asOf =>
    rw [QueryIR.hops, filterMap_append, plainLabels_hidden, append_nil,
      collectLabels_eq operation]

/-! ## Queries that can cross sources -/

/-- An edge type that the hop can move along has a link mapping that crosses
sources. -/
def Hop.crosses (o : OntologyIR) (h : Hop) : Prop :=
  ∃ lm ∈ o.linkMappings, crossesSources lm = true ∧
    ∃ e ∈ o.edgeTypes, e.id = lm.edgeTypeId ∧
      match h.reach with
      | .label label => e.label = label
      | .any => True

/-- A query with a hop that can cross sources is not sent to the graph. -/
def OffGraph (ir : QueryIR) (o : OntologyIR) (budget : Option CostBudget) : Prop :=
  (∃ h ∈ ir.hops, h.crosses o) → ∀ reason cost, route ir o budget ≠ .ok (.graph reason cost)

theorem labelCrosses_iff (o : OntologyIR) (h : Hop) (label : GraphLabel)
    (hreach : h.reach = .label label) : labelCrosses o label = true ↔ h.crosses o := by
  unfold labelCrosses Hop.crosses
  rw [hreach]
  simp only [any_eq_true, Bool.and_eq_true, decide_eq_true_eq]
  constructor
  · rintro ⟨lm, hlm, ⟨e, he, hid, hlabel⟩, hcross⟩
    exact ⟨lm, hlm, hcross, e, he, hid, hlabel⟩
  · rintro ⟨lm, hlm, hcross, e, he, hid, hlabel⟩
    exact ⟨lm, hlm, ⟨e, he, hid, hlabel⟩, hcross⟩

/-- The detector fires exactly when a hop in plain view can cross sources. -/
theorem crossesSource_iff (ir : QueryIR) (o : OntologyIR) :
    traversesCrossSourceEdge ir o = true ↔
      ∃ h ∈ ir.hops, h.plain = true ∧ h.reach ≠ .any ∧ h.crosses o := by
  rw [traversesCrossSourceEdge, collectFromQuery_eq, any_eq_true]
  constructor
  · rintro ⟨label, hlabel, hcross⟩
    obtain ⟨h, hh, hl⟩ := mem_filterMap.1 hlabel
    unfold Hop.plainLabel at hl
    split at hl
    · rename_i l hreach hplain
      cases hl
      exact ⟨h, hh, hplain, by rw [hreach]; simp, (labelCrosses_iff o h label hreach).1 hcross⟩
    · cases hl
  · rintro ⟨h, hh, hplain, hany, hcross⟩
    cases hreach : h.reach with
    | any => exact absurd hreach hany
    | label label =>
      refine ⟨label, mem_filterMap.2 ⟨h, hh, ?_⟩, (labelCrosses_iff o h label hreach).2 hcross⟩
      rw [Hop.plainLabel, hreach, hplain]

/-- No query that can cross sources is sent to the graph exactly when the budget
refuses it, or a labelled hop in plain view crosses sources whenever any does. -/
theorem offGraph_iff (ir : QueryIR) (o : OntologyIR) (budget : Option CostBudget) :
    OffGraph ir o budget ↔
      ((refuse (estimateCost ir o) budget).or (refuseRows (estimateCost ir o) budget)).isSome ∨
        ((∃ h ∈ ir.hops, h.crosses o) →
          ∃ h ∈ ir.hops, h.plain = true ∧ h.reach ≠ .any ∧ h.crosses o) := by
  unfold OffGraph route
  rw [← crossesSource_iff]
  cases hrefused :
    (refuse (estimateCost ir o) budget).or (refuseRows (estimateCost ir o) budget) with
  | some refusal => exact iff_of_true (fun _ reason cost => by simp [hrefused]) (.inl rfl)
  | none =>
    rw [Option.isSome_none, or_iff_right Bool.false_ne_true]
    refine forall_congr' fun _ => ?_
    simp only [hrefused]
    cases traversesCrossSourceEdge ir o with
    | true => simp
    | false => simp

/-- Persons in one database own accounts in another. -/
def ownership : OntologyIR where
  id := "onto"
  name := "Bank"
  nodeTypes := [{ id := ⟨"person"⟩, label := ⟨"Person", .refl true⟩ },
    { id := ⟨"account"⟩, label := ⟨"Account", by decide⟩ }]
  edgeTypes := [{
    id := ⟨"owns"⟩, label := ⟨"OWNS", by decide⟩
    sourceNodeId := ⟨"person"⟩, targetNodeId := ⟨"account"⟩ }]
  linkMappings := [{
    id := ⟨"lm"⟩, edgeTypeId := ⟨"owns"⟩
    kind := .federated ⟨"users", "email"⟩ ⟨"accounts", "owner"⟩
    sourceEndpoint := { sourceId := ⟨"crm"⟩, relation := "users" }
    targetEndpoint := { sourceId := ⟨"ledger"⟩, relation := "accounts" } }]

/-- `MATCH (p:Person)-[:OWNS]->(a:Account) RETURN a`, as a path pattern. -/
def ownedAccounts : QueryIR where
  operation := .match_
    [.path [.node ⟨"p"⟩ (some ⟨"Person", .refl true⟩),
      .edge none (some ⟨"OWNS", by decide⟩) .outgoing,
      .node ⟨"a"⟩ (some ⟨"Account", by decide⟩)]]
    none [.variable_ ⟨"a"⟩ none] false []
  limit := none
  skip := none
  orderBy := []
  asOf := none

/-- The path runs along an edge type that crosses sources, and the query is sent
to the graph. -/
theorem ownedAccounts_on_graph : ¬OffGraph ownedAccounts ownership none := by
  intro h
  refine h ⟨⟨.label ⟨"OWNS", by decide⟩, false⟩, by decide, ?_⟩ _
    (estimateCost ownedAccounts ownership) rfl
  exact ⟨_, mem_cons_self .., rfl, _, mem_cons_self .., rfl, rfl⟩

end Ontosyx.Query
