import Ontosyx.Query.Ir

/-!
# The operations within a query

Operations nest in operations and, through subqueries, in expressions.  This module
lists every operation of a query in the order in which it is written, and every
subquery of an expression.
-/

namespace Ontosyx.Query

open Ontosyx.Core

/-- An operation of a query, or a subquery of an expression with its imports. -/
inductive Occurrence where
  | operation (op : QueryOp)
  | subquery (query : QueryIR) (importVariables : List String)

mutual
def Expr.occurrences : Expr → List Occurrence
  | .literal _ | .param _ | .property _ _ => []
  | .comparison left _ right | .logical left _ right | .stringOp left _ right =>
    left.occurrences ++ right.occurrences
  | .not inner => inner.occurrences
  | .in_ expr _ | .isNull expr _ => expr.occurrences
  | .functionCall _ args => Expr.occurrencesList args
  | .exists_ pattern => pattern.occurrences
  | .case_ operand whenClauses elseResult =>
    Expr.occurrencesOption operand ++ WhenClause.occurrencesList whenClauses ++
      Expr.occurrencesOption elseResult
  | .subquery query imports => .subquery query imports :: query.occurrences

def Expr.occurrencesList : List Expr → List Occurrence
  | [] => []
  | e :: es => e.occurrences ++ Expr.occurrencesList es

def Expr.occurrencesOption : Option Expr → List Occurrence
  | none => []
  | some e => e.occurrences

def WhenClause.occurrencesList : List WhenClause → List Occurrence
  | [] => []
  | ⟨condition, result⟩ :: clauses =>
    condition.occurrences ++ result.occurrences ++ WhenClause.occurrencesList clauses

def PropertyFilter.occurrencesList : List PropertyFilter → List Occurrence
  | [] => []
  | ⟨_, value⟩ :: filters => value.occurrences ++ PropertyFilter.occurrencesList filters

def GraphPattern.occurrences : GraphPattern → List Occurrence
  | .node _ _ filters | .relationship _ _ _ _ _ filters _ =>
    PropertyFilter.occurrencesList filters
  | .path _ => []

def GraphPattern.occurrencesList : List GraphPattern → List Occurrence
  | [] => []
  | p :: ps => p.occurrences ++ GraphPattern.occurrencesList ps

def Projection.occurrences : Projection → List Occurrence
  | .field _ _ _ | .variable_ _ _ | .allProperties _ => []
  | .expression expr _ => expr.occurrences
  | .aggregation _ argument _ _ => Projection.occurrencesOption argument

def Projection.occurrencesOption : Option Projection → List Occurrence
  | none => []
  | some p => p.occurrences

def Projection.occurrencesList : List Projection → List Occurrence
  | [] => []
  | p :: ps => p.occurrences ++ Projection.occurrencesList ps

def NodeRef.occurrences : NodeRef → List Occurrence
  | ⟨_, _, filters⟩ => PropertyFilter.occurrencesList filters

def AnalyticsParam.occurrencesList : List AnalyticsParam → List Occurrence
  | [] => []
  | ⟨_, value⟩ :: params => value.occurrences ++ AnalyticsParam.occurrencesList params

def PropertyAssignment.occurrencesList : List PropertyAssignment → List Occurrence
  | [] => []
  | ⟨_, value⟩ :: assignments =>
    value.occurrences ++ PropertyAssignment.occurrencesList assignments

def MutateOp.occurrences : MutateOp → List Occurrence
  | .createNode _ _ properties | .createEdge _ _ _ _ properties =>
    PropertyAssignment.occurrencesList properties
  | .mergeNode _ _ matchProperties onCreate onMatch
  | .mergeEdge _ _ _ _ matchProperties onCreate onMatch =>
    PropertyAssignment.occurrencesList matchProperties ++
      PropertyAssignment.occurrencesList onCreate ++
      PropertyAssignment.occurrencesList onMatch
  | .setProperty _ _ value => value.occurrences
  | .delete _ _ | .removeProperty _ _ | .removeLabel _ _ => []

def MutateOp.occurrencesList : List MutateOp → List Occurrence
  | [] => []
  | m :: ms => m.occurrences ++ MutateOp.occurrencesList ms

def PatternIR.occurrences : PatternIR → List Occurrence
  | ⟨nodes, edges, filters, projections, _, _, orderBy⟩ =>
    PatternNode.occurrencesList nodes ++ PatternEdge.occurrencesList edges ++
      PatternFilter.occurrencesList filters ++
      PatternProjection.occurrencesList projections ++ OrderClause.occurrencesList orderBy

def PatternNode.occurrencesList : List PatternNode → List Occurrence
  | [] => []
  | ⟨_, _, _, filters⟩ :: ns =>
    PropertyFilter.occurrencesList filters ++ PatternNode.occurrencesList ns

def PatternEdge.occurrencesList : List PatternEdge → List Occurrence
  | [] => []
  | ⟨_, _, _, _, _, _, filters, _⟩ :: es =>
    PropertyFilter.occurrencesList filters ++ PatternEdge.occurrencesList es

def PatternFilter.occurrencesList : List PatternFilter → List Occurrence
  | [] => []
  | ⟨_, expr⟩ :: fs => expr.occurrences ++ PatternFilter.occurrencesList fs

def PatternProjection.occurrencesList : List PatternProjection → List Occurrence
  | [] => []
  | ⟨_, projection⟩ :: ps => projection.occurrences ++ PatternProjection.occurrencesList ps

def OrderClause.occurrencesList : List OrderClause → List Occurrence
  | [] => []
  | ⟨projection, _⟩ :: os => projection.occurrences ++ OrderClause.occurrencesList os

/-- The operation itself and the operations within it. -/
def QueryOp.occurrences : QueryOp → List Occurrence
  | op@(.match_ patterns filter projections _ groupBy) =>
    .operation op ::
      (GraphPattern.occurrencesList patterns ++ Expr.occurrencesOption filter ++
        Projection.occurrencesList projections ++ Projection.occurrencesList groupBy)
  | op@(.pathFind start end_ _ _ _ _) =>
    .operation op :: (start.occurrences ++ end_.occurrences)
  | op@(.aggregate source _ _ having) =>
    .operation op :: (source.occurrences ++ Expr.occurrencesOption having)
  | op@(.union queries _) => .operation op :: QueryIR.occurrencesList queries
  | op@(.chain steps) => .operation op :: ChainStep.occurrencesList steps
  | op@(.callSubquery inner _) => .operation op :: inner.occurrences
  | op@(.mutate context operations returning) =>
    .operation op ::
      (QueryOp.occurrencesOption context ++ MutateOp.occurrencesList operations ++
        Projection.occurrencesList returning)
  | op@(.analytics _ source params projections) =>
    .operation op ::
      (source.occurrences ++ AnalyticsParam.occurrencesList params ++
        Projection.occurrencesList projections)
  | op@(.hybridSearch ⟨_, _, none, _, _⟩) => [.operation op]
  | op@(.hybridSearch ⟨_, _, some constraints, _, _⟩) =>
    .operation op :: constraints.occurrences

def QueryOp.occurrencesOption : Option QueryOp → List Occurrence
  | none => []
  | some op => op.occurrences

def AnalyticsSource.occurrences : AnalyticsSource → List Occurrence
  | .wholeGraph | .labels _ => []
  | .subgraph filter => filter.occurrences

def QueryIR.occurrences : QueryIR → List Occurrence
  | ⟨operation, _, _, orderBy, _⟩ =>
    operation.occurrences ++ OrderClause.occurrencesList orderBy

def QueryIR.occurrencesList : List QueryIR → List Occurrence
  | [] => []
  | q :: qs => q.occurrences ++ QueryIR.occurrencesList qs

def ChainStep.occurrencesList : List ChainStep → List Occurrence
  | [] => []
  | ⟨passThrough, operation⟩ :: steps =>
    Projection.occurrencesList passThrough ++ operation.occurrences ++
      ChainStep.occurrencesList steps
end

end Ontosyx.Query
