import Ontosyx.Query.Ir

/-!
# `QueryIR::validate`

The structural check of a query: every `MATCH` has a pattern, and a subquery
imports only variables that its surroundings declare.  An error is given by the
field it names.
-/

namespace Ontosyx.Query

open Ontosyx.Core

abbrev Declared := List String

def PathElement.declared : PathElement → Declared
  | .node v _ => [v.val]
  | .edge v _ _ => v.toList.map (·.val)

/-- `collect_pattern_vars`. -/
def GraphPattern.declared : GraphPattern → Declared
  | .node v _ _ => [v.val]
  | .relationship v _ source target _ _ _ => v.toList.map (·.val) ++ [source.val, target.val]
  | .path elements => elements.flatMap PathElement.declared

def MutateOp.declared : MutateOp → Declared
  | .createNode v _ _ | .mergeNode v _ _ _ _ => [v.val]
  | .createEdge v _ _ _ _ | .mergeEdge v _ _ _ _ _ _ => v.toList.map (·.val)
  | _ => []

/-- `dimension_consistent`, with `len() as u32`. -/
def Embedding.dimensionConsistent (e : Embedding) : Bool := e.vector.length % 2 ^ 32 == e.dim

def checkImports (scope : Declared) (imports : List String) : Except String Unit :=
  if imports.all (scope.contains ·) then .ok () else .error "import_variables"

mutual
/-- `validate_op`: the declared variables after an operation. -/
def QueryOp.validate (scope : Declared) : QueryOp → Except String Declared
  | .match_ patterns filter _ _ _ =>
    if patterns.isEmpty then .error "patterns"
    else do
      let scope := scope ++ patterns.flatMap GraphPattern.declared
      Expr.validateScopeOption scope filter
      return scope
  | .pathFind start end_ _ _ _ _ => return scope ++ [start.var.val, end_.var.val]
  | .aggregate source _ _ _ => source.validateIn scope
  | .union queries _ => do
    QueryIR.validateBranches scope queries
    return scope
  | .chain steps => ChainStep.validateAll scope steps
  | .callSubquery inner imports => do
    checkImports scope imports
    let _ ← inner.validateIn imports
    return scope
  | .mutate context operations _ => do
    let scope ← QueryOp.validateOption scope context
    return scope ++ operations.flatMap MutateOp.declared
  | .hybridSearch request =>
    if request.vectorQuery.dimensionConsistent then return scope else .error "vector_query"
  | .analytics _ _ _ _ => return scope

def QueryOp.validateOption (scope : Declared) : Option QueryOp → Except String Declared
  | none => return scope
  | some op => op.validate scope

def QueryIR.validateIn (scope : Declared) : QueryIR → Except String Declared
  | ⟨operation, _, _, _, _⟩ => operation.validate scope

/-- The branches of a `UNION` each start from the outer scope. -/
def QueryIR.validateBranches (scope : Declared) : List QueryIR → Except String Unit
  | [] => return ()
  | q :: queries => do
    let _ ← q.validateIn scope
    QueryIR.validateBranches scope queries

def ChainStep.validateAll (scope : Declared) : List ChainStep → Except String Declared
  | [] => return scope
  | ⟨_, operation⟩ :: steps => do
    let scope ← operation.validate scope
    ChainStep.validateAll scope steps

/-- `validate_expr_scope`. -/
def Expr.validateScope (scope : Declared) : Expr → Except String Unit
  | .subquery query imports => do
    checkImports scope imports
    let _ ← query.validateIn imports
  | .comparison left _ right | .stringOp left _ right | .logical left _ right => do
    left.validateScope scope
    right.validateScope scope
  | .not inner => inner.validateScope scope
  | .in_ expr _ => expr.validateScope scope
  | .isNull expr _ => expr.validateScope scope
  | .functionCall _ args => Expr.validateScopeList scope args
  | .case_ operand whenClauses elseResult => do
    Expr.validateScopeOption scope operand
    WhenClause.validateScopeList scope whenClauses
    Expr.validateScopeOption scope elseResult
  | .literal _ | .param _ | .property _ _ | .exists_ _ => return ()

def Expr.validateScopeOption (scope : Declared) : Option Expr → Except String Unit
  | none => return ()
  | some e => e.validateScope scope

def Expr.validateScopeList (scope : Declared) : List Expr → Except String Unit
  | [] => return ()
  | e :: es => do
    e.validateScope scope
    Expr.validateScopeList scope es

def WhenClause.validateScopeList (scope : Declared) : List WhenClause → Except String Unit
  | [] => return ()
  | ⟨condition, result⟩ :: clauses => do
    condition.validateScope scope
    result.validateScope scope
    WhenClause.validateScopeList scope clauses
end

/-- `QueryIR::validate`. -/
def QueryIR.validate (q : QueryIR) : Except String Unit := do
  let _ ← q.operation.validate []

end Ontosyx.Query
