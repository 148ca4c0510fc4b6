import Ontosyx.Compile.Compiler

/-!
# What a query mentions

The literals and the caller parameters of a query, in the order in which the
compiler meets them, read off the query itself.  A literal counts wherever it is
pushed; a caller parameter counts where its text stays, that is outside a `RETURN`
that an enclosing aggregation, mutation or analytics run replaces.

A statement is made of parts, and only the last part that is still there can be
popped, so the mentions are kept part by part as well.
-/

namespace Ontosyx.Compile

open Ontosyx.Core Ontosyx.Query

/-- A literal, or a parameter of the caller. -/
inductive Atom where
  | lit
  | param (s : String)
deriving DecidableEq

structure Mention where
  isReturn : Bool
  popped : Bool
  atoms : List Atom

/-- Whether the value is passed as a parameter. -/
def valueAtoms : PropertyValue → List Atom
  | .null | .date _ | .dateTime _ | .duration _ | .bytes _ => []
  | _ => [.lit]

def say (ms : List Mention) (isReturn : Bool) (atoms : List Atom) : List Mention :=
  ms ++ [⟨isReturn, false, atoms⟩]

/-- The mentions of all parts: a popped part keeps its literals only. -/
def joinAtoms (ms : List Mention) : List Atom :=
  ms.flatMap fun m => if m.popped then m.atoms.filter (· = .lit) else m.atoms

/-- Whether the first part that is still there is a `RETURN`. -/
def opensWithReturn : List Mention → Bool
  | [] => false
  | m :: ms => if m.popped then opensWithReturn ms else m.isReturn

def popMentionRev : List Mention → List Mention
  | [] => []
  | m :: ms =>
    if m.popped then m :: popMentionRev ms
    else if m.isReturn then { m with popped := true } :: ms
    else m :: ms

/-- The last part that is still there goes if it is a `RETURN`. -/
def popMention (ms : List Mention) : List Mention := (popMentionRev ms.reverse).reverse

/-- The parts of `SKIP` and `LIMIT`. -/
def windowMentions (ms : List Mention) (skip limit : Option Nat) : List Mention :=
  let ms := if skip.isSome then say ms false [] else ms
  if limit.isSome then say ms false [] else ms

def importMentions (importVariables : List String) : List Mention :=
  if importVariables.isEmpty then [] else say [] false []

def hybridMentions (fulltextQuery : Option String) (constrained : Bool) (fuse : FusionStrategy) :
    List Mention :=
  let other (n : Nat) : Mention := ⟨false, false, List.replicate n .lit⟩
  match fulltextQuery with
  | none =>
    [other 3, other 0] ++ (if constrained then [other 0] else []) ++
      [⟨true, false, []⟩, other 0]
  | some _ =>
    [other 3, other 0, other 0, other 2, other 0, other 0, other (fusionPushes fuse), other 0,
      other 0, ⟨true, false, []⟩, other 0, other 0]

mutual
def Expr.atoms (d : CypherDialect) : Expr → List Atom
  | .literal value => valueAtoms value
  | .param p => if isValidGraphIdentifier p then [.param p] else []
  | .property _ _ => []
  | .comparison left _ right | .logical left _ right | .stringOp left _ right =>
    Expr.atoms d left ++ Expr.atoms d right
  | .not inner => Expr.atoms d inner
  | .in_ expr values => values.flatMap valueAtoms ++ Expr.atoms d expr
  | .isNull expr _ => Expr.atoms d expr
  | .functionCall _ args => Expr.atomsList d args
  | .exists_ pattern => GraphPattern.atoms d pattern
  | .case_ operand whenClauses elseResult =>
    Expr.atomsOption d operand ++ WhenClause.atomsList d whenClauses ++
      Expr.atomsOption d elseResult
  | .subquery query importVariables =>
    joinAtoms (QueryIR.mentions d (importMentions importVariables) query)

def Expr.atomsList (d : CypherDialect) : List Expr → List Atom
  | [] => []
  | e :: es => Expr.atoms d e ++ Expr.atomsList d es

def Expr.atomsOption (d : CypherDialect) : Option Expr → List Atom
  | none => []
  | some e => Expr.atoms d e

def WhenClause.atomsList (d : CypherDialect) : List WhenClause → List Atom
  | [] => []
  | ⟨condition, result⟩ :: clauses =>
    Expr.atoms d condition ++ Expr.atoms d result ++ WhenClause.atomsList d clauses

def PropertyFilter.atomsList (d : CypherDialect) : List PropertyFilter → List Atom
  | [] => []
  | ⟨_, value⟩ :: filters => Expr.atoms d value ++ PropertyFilter.atomsList d filters

def GraphPattern.atoms (d : CypherDialect) : GraphPattern → List Atom
  | .node _ _ propertyFilters | .relationship _ _ _ _ _ propertyFilters _ =>
    PropertyFilter.atomsList d propertyFilters
  | .path _ => []

def Projection.atoms (d : CypherDialect) : Projection → List Atom
  | .field _ _ _ | .variable_ _ _ | .allProperties _ => []
  | .expression expr _ => Expr.atoms d expr
  | .aggregation _ argument _ _ => Projection.atomsOption d argument

def Projection.atomsOption (d : CypherDialect) : Option Projection → List Atom
  | none => []
  | some p => Projection.atoms d p

def Projection.atomsList (d : CypherDialect) : List Projection → List Atom
  | [] => []
  | p :: ps => Projection.atoms d p ++ Projection.atomsList d ps

def NodeRef.atoms (d : CypherDialect) : NodeRef → List Atom
  | ⟨_, _, propertyFilters⟩ => PropertyFilter.atomsList d propertyFilters

/-- The parts after an operation. -/
def QueryOp.mentions (d : CypherDialect) (ms : List Mention) : QueryOp → List Mention
  | .match_ patterns filter projections _ _ =>
    let ms := GraphPattern.mentions d ms patterns
    let ms := QueryOp.filterMentions d ms filter
    if projections.isEmpty then ms else say ms true (Projection.atomsList d projections)
  | .pathFind start end_ _ _ _ _ =>
    say (say ms false (NodeRef.atoms d start ++ NodeRef.atoms d end_)) true []
  | .aggregate source _ _ having =>
    let ms := popMention (QueryOp.sourceMentions d ms source)
    let ms := QueryOp.havingMentions d ms having
    say ms true []
  | .union queries _ =>
    say ms (QueryIR.opensWithReturn d queries) (QueryIR.branchAtoms d queries)
  | .chain steps => ChainStep.mentions d ms steps
  | .callSubquery inner importVariables =>
    say ms false (joinAtoms (QueryIR.mentions d (importMentions importVariables) inner))
  | .mutate context operations returning =>
    let ms := MutateOp.mentions d (QueryOp.contextMentions d ms context) operations
    if returning.isEmpty then ms else say ms true (Projection.atomsList d returning)
  | .analytics _ source params projections =>
    if d = .memgraph then say ms false []
    else
      let ms := say (AnalyticsSource.mentions d ms source) false
        (AnalyticsParam.atomsList d params)
      if projections.isEmpty then ms else say ms true (Projection.atomsList d projections)
  | .hybridSearch ⟨_, fulltextQuery, graphConstraints, fuse, _⟩ =>
    let label := do (← (← graphConstraints).nodes.head?).label
    ms ++ hybridMentions fulltextQuery label.isSome fuse

def GraphPattern.mentions (d : CypherDialect) (ms : List Mention) :
    List GraphPattern → List Mention
  | [] => ms
  | p :: ps => GraphPattern.mentions d (say ms false (GraphPattern.atoms d p)) ps

def QueryOp.filterMentions (d : CypherDialect) (ms : List Mention) : Option Expr → List Mention
  | none => ms
  | some e => say ms false (Expr.atoms d e)

def QueryOp.havingMentions (d : CypherDialect) (ms : List Mention) : Option Expr → List Mention
  | none => ms
  | some e => say (say ms false []) false (Expr.atoms d e)

def QueryOp.sourceMentions (d : CypherDialect) (ms : List Mention) : QueryIR → List Mention
  | ⟨operation, _, _, _, _⟩ => QueryOp.mentions d ms operation

/-- The parts of a nested query, after `ms`. -/
def QueryIR.mentions (d : CypherDialect) (ms : List Mention) : QueryIR → List Mention
  | ⟨operation, limit, skip, orderBy, _⟩ =>
    let ms := QueryOp.mentions d ms operation
    let ms := if orderBy.isEmpty then ms else say ms false []
    windowMentions ms skip limit

def QueryIR.branchAtoms (d : CypherDialect) : List QueryIR → List Atom
  | [] => []
  | ⟨operation, _, _, _, _⟩ :: queries =>
    joinAtoms (QueryOp.mentions d [] operation) ++ QueryIR.branchAtoms d queries

/-- Whether the text of a `UNION` starts with a `RETURN`. -/
def QueryIR.opensWithReturn (d : CypherDialect) : List QueryIR → Bool
  | [] => false
  | ⟨operation, _, _, _, _⟩ :: _ => Compile.opensWithReturn (QueryOp.mentions d [] operation)

def ChainStep.mentions (d : CypherDialect) (ms : List Mention) : List ChainStep → List Mention
  | [] => ms
  | ⟨passThrough, operation⟩ :: steps =>
    let ms :=
      if passThrough.isEmpty then ms else say ms false (Projection.atomsList d passThrough)
    ChainStep.mentions d (QueryOp.mentions d ms operation) steps

def QueryOp.contextMentions (d : CypherDialect) (ms : List Mention) :
    Option QueryOp → List Mention
  | none => ms
  | some op => popMention (QueryOp.mentions d ms op)

def AnalyticsSource.mentions (d : CypherDialect) (ms : List Mention) :
    AnalyticsSource → List Mention
  | .subgraph filter => popMention (QueryOp.mentions d ms filter)
  | .labels _ | .wholeGraph => ms

def AnalyticsParam.atomsList (d : CypherDialect) : List AnalyticsParam → List Atom
  | [] => []
  | ⟨_, value⟩ :: params => Expr.atoms d value ++ AnalyticsParam.atomsList d params

def PropertyAssignment.atomsList (d : CypherDialect) : List PropertyAssignment → List Atom
  | [] => []
  | ⟨_, value⟩ :: assignments => Expr.atoms d value ++ PropertyAssignment.atomsList d assignments

def MutateOp.atoms (d : CypherDialect) : MutateOp → List Atom
  | .createNode _ _ properties | .createEdge _ _ _ _ properties =>
    PropertyAssignment.atomsList d properties
  | .mergeNode _ _ matchProperties onCreate onMatch
  | .mergeEdge _ _ _ _ matchProperties onCreate onMatch =>
    PropertyAssignment.atomsList d matchProperties ++ PropertyAssignment.atomsList d onCreate ++
      PropertyAssignment.atomsList d onMatch
  | .setProperty _ _ value => Expr.atoms d value
  | .delete _ _ | .removeProperty _ _ | .removeLabel _ _ => []

def MutateOp.mentions (d : CypherDialect) (ms : List Mention) : List MutateOp → List Mention
  | [] => ms
  | op :: ops => MutateOp.mentions d (say ms false (MutateOp.atoms d op)) ops
end

end Ontosyx.Compile
