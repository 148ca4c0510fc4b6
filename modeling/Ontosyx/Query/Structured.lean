import Ontosyx.Core.Double
import Ontosyx.Core.Names
import Ontosyx.Query.Validate

/-!
# Structured match queries

`StructuredMatchQuery` is the flat form of a match query that the model fills in
through structured output (`structured_match.rs`): names are plain strings, the
conditions are an implicit conjunction, and each condition has one optional field
for every kind of value.  `intoQueryIr` checks the request and converts it.

An error is given by the field path the source attaches to it.  The texts of the
diagnostics are left out: some list a hash set in its iteration order.
-/

namespace Ontosyx.Query

open Ontosyx.Core VariableName

/-- `VariableName::new`. -/
def VariableName.new (s : String) : Except String VariableName :=
  match sanitizeVariable s with
  | some v => .ok ⟨v⟩
  | none => .error "variable_name"

/-- `GraphLabel::new` with its error's field. -/
def newLabel (s : String) : Except String GraphLabel :=
  match GraphLabel.new s with
  | some l => .ok l
  | none => .error "graph_label"

/-- `PropertyKey::new` with its error's field. -/
def newKey (s : String) : Except String PropertyKey :=
  match PropertyKey.new s with
  | some k => .ok k
  | none => .error "property_key"

/-! ## The request -/

/-- A node to match: `(variable:Label)`. -/
structure NodePattern where
  var : String
  label : String

/-- A relationship between two node variables. -/
structure RelationshipPattern where
  label : String
  source : String
  target : String
  var : Option String
  minHops : Option Nat
  maxHops : Option Nat

/-- A relationship that must not exist. -/
structure ExcludePattern where
  relationshipLabel : String
  source : String
  target : String

inductive ConditionOp where
  | eq | neq | lt | lte | gt | gte | contains | startsWith | endsWith | inList | isNull | isNotNull
deriving DecidableEq

/-- One filter predicate `variable.field op value`. -/
structure Condition where
  var : String
  field : String
  op : ConditionOp
  stringValue : Option String
  numberValue : Option F64
  boolValue : Option Bool
  listValues : List String

inductive MatchAggFunction where
  | count | sum | avg | min | max
deriving DecidableEq

def MatchAggFunction.toAggFunction : MatchAggFunction → AggFunction
  | .count => .count
  | .sum => .sum
  | .avg => .avg
  | .min => .min
  | .max => .max

/-- `format!("{func:?}").to_lowercase()`. -/
def MatchAggFunction.lowercase : MatchAggFunction → String
  | .count => "count"
  | .sum => "sum"
  | .avg => "avg"
  | .min => "min"
  | .max => "max"

/-- A `RETURN` entry. -/
structure ReturnClause where
  var : String
  field : Option String
  alias_ : Option String
  aggregate : Option MatchAggFunction
  distinct : Option Bool

structure GroupField where
  var : String
  field : String

/-- An `ORDER BY` entry: `variable.field`, or the name of a column. -/
structure SortClause where
  field : String
  descending : Bool

structure StructuredMatchQuery where
  nodes : List NodePattern
  relationships : List RelationshipPattern
  conditions : List Condition
  excludePatterns : List ExcludePattern
  returns : List ReturnClause
  groupBy : List GroupField
  orderBy : List SortClause
  limit : Option Nat
  skip : Option Nat

/-! ## Validation -/

/-- Fails with `field` unless `ok`. -/
def require (ok : Bool) (field : String) : Except String Unit :=
  if ok then .ok () else .error field

/-- Whether the operator compares with a value. -/
def ConditionOp.needsValue : ConditionOp → Bool
  | .isNull | .isNotNull => false
  | _ => true

/-- How many value fields are set. -/
def Condition.valueCount (c : Condition) : Nat :=
  c.stringValue.isSome.toNat + c.numberValue.isSome.toNat + c.boolValue.isSome.toNat +
    (!c.listValues.isEmpty).toNat

namespace StructuredMatchQuery

variable (q : StructuredMatchQuery)

/-- Whether a name is a declared node variable. -/
def declares (v : String) : Bool := (q.nodes.map (·.var)).contains v

/-- The check of the `i`-th relationship. -/
def validateRelationship (rel : RelationshipPattern) (i : Nat) : Except String Unit := do
  require (q.declares rel.source) s!"relationships[{i}].source"
  require (q.declares rel.target) s!"relationships[{i}].target"

/-- The check of the `i`-th exclude pattern. -/
def validateExclude (exclude : ExcludePattern) (i : Nat) : Except String Unit := do
  require (q.declares exclude.source) s!"exclude_patterns[{i}].source"
  require (q.declares exclude.target) s!"exclude_patterns[{i}].target"

/-- The check of the `i`-th condition: a declared variable, and exactly one value
where the operator needs one. -/
def validateCondition (cond : Condition) (i : Nat) : Except String Unit := do
  require (q.declares cond.var) s!"conditions[{i}].variable"
  require (!(cond.op.needsValue && cond.valueCount == 0)) s!"conditions[{i}]"
  require (!(cond.op.needsValue && cond.valueCount > 1)) s!"conditions[{i}]"

def validate : Except String Unit := do
  require (!q.nodes.isEmpty) "nodes"
  require (!q.returns.isEmpty) "returns"
  q.relationships.zipIdx.forM fun r => q.validateRelationship r.1 r.2
  q.excludePatterns.zipIdx.forM fun e => q.validateExclude e.1 e.2
  let hasAggregation := q.returns.any (·.aggregate.isSome)
  let hasNonAgg := q.returns.any (·.aggregate.isNone)
  require (!(hasAggregation && hasNonAgg && q.groupBy.isEmpty)) "group_by"
  q.conditions.zipIdx.forM fun c => q.validateCondition c.1 c.2

end StructuredMatchQuery

/-! ## Conversion -/

def NodePattern.toPattern (node : NodePattern) : Except String GraphPattern := do
  let var ← new node.var
  let label ← newLabel node.label
  return .node var (some label) []

/-- The deepest variable-length path taken over. -/
def MAX_HOPS : Nat := 10

/-- Single-hop, zero-hop and oversized bounds mean a direct edge; reversed bounds
are swapped. -/
def RelationshipPattern.varLength (rel : RelationshipPattern) : Option VarLength :=
  let minH := rel.minHops.filter (· ≤ MAX_HOPS)
  let maxH := rel.maxHops.filter (· ≤ MAX_HOPS)
  let bounds := match minH, maxH with
    | some mn, some mx => if mn > mx then (some mx, some mn) else (some mn, some mx)
    | minH, maxH => (minH, maxH)
  match bounds with
  | (none, none) | (some 0, some 0) | (some 1, some 1) => none
  | (some 0, none) => none
  | (min, max) => some ⟨min, max⟩

def RelationshipPattern.toPattern (rel : RelationshipPattern) : Except String GraphPattern := do
  -- a placeholder such as "null" is no variable
  let var := (rel.var.bind sanitizeVariable).bind fun s => (new s).toOption
  let label ← newLabel rel.label
  let source ← new rel.source
  let target ← new rel.target
  return .relationship var (some label) source target .outgoing [] rel.varLength

/-- The `NOT EXISTS` test of an exclude pattern. -/
def ExcludePattern.toExpr (exclude : ExcludePattern) : Except String Expr := do
  let label ← newLabel exclude.relationshipLabel
  let source ← new exclude.source
  let target ← new exclude.target
  return .not (.exists_ (.relationship none (some label) source target .both [] none))

/-- `condition_value`: the literal in the value fields, whole numbers as integers. -/
def conditionValue (c : Condition) : Option Expr :=
  match c.stringValue with
  | some s => some (.literal (.string s))
  | none =>
    match c.numberValue with
    | some n =>
      if n.isWhole && n.inInt64Bounds then some (.literal (.int n.toInt64))
      else some (.literal (.float n))
    | none => c.boolValue.map fun b => .literal (.bool b)

/-- `condition_to_expr`: `none` drops the condition. -/
def conditionToExpr (c : Condition) : Option Expr := do
  let var ← (new c.var).toOption
  let field ← PropertyKey.new c.field
  let prop := Expr.property var (some field)
  match c.op with
  | .isNull => return .isNull prop false
  | .isNotNull => return .isNull prop true
  | .inList => return .in_ prop (c.listValues.map .string)
  | .eq => return .comparison prop .eq (← conditionValue c)
  | .neq => return .comparison prop .neq (← conditionValue c)
  | .lt => return .comparison prop .lt (← conditionValue c)
  | .lte => return .comparison prop .lte (← conditionValue c)
  | .gt => return .comparison prop .gt (← conditionValue c)
  | .gte => return .comparison prop .gte (← conditionValue c)
  | .contains => return .stringOp prop .contains (← conditionValue c)
  | .startsWith => return .stringOp prop .startsWith (← conditionValue c)
  | .endsWith => return .stringOp prop .endsWith (← conditionValue c)

def andAlso (filter : Option Expr) (test : Expr) : Option Expr :=
  match filter with
  | some existing => some (.logical existing .and test)
  | none => some test

def conditionsToFilter (conditions : List Condition) : Option Expr :=
  match conditions.filterMap conditionToExpr with
  | [] => none
  | first :: rest => some (rest.foldl (fun acc expr => .logical acc .and expr) first)

/-- `return_to_projection`: an invalid name leaves a `null` column. -/
def returnToProjection (r : ReturnClause) : Projection :=
  let invalid := Projection.expression (.literal .null) (r.alias_.getD "invalid")
  match new r.var, r.field.mapM PropertyKey.new with
  | .error _, _ | _, none => invalid
  | .ok var, some field =>
    match r.aggregate, field with
    | some func, some f =>
      .aggregation func.toAggFunction (some (.field var f none))
        (r.alias_.getD func.lowercase) (r.distinct.getD false)
    | some func, none =>
      .aggregation func.toAggFunction (some (.variable_ var none))
        (r.alias_.getD func.lowercase) (r.distinct.getD false)
    | none, some f => .field var f r.alias_
    | none, none => .variable_ var r.alias_

def GroupField.toProjection (g : GroupField) : Except String Projection := do
  let var ← new g.var
  let field ← newKey g.field
  return .field var field none

/-- `sort_to_order`: a sort key that does not name a column sorts by its own text. -/
def sortToOrder (s : SortClause) : OrderClause :=
  let text := Projection.expression (.literal (.string s.field)) "sort_key"
  let chars := s.field.toList
  let projection :=
    if chars.contains '.' then
      -- `split_once('.')`
      let var := String.ofList (chars.takeWhile (· ≠ '.'))
      let field := String.ofList ((chars.dropWhile (· ≠ '.')).drop 1)
      match new var, PropertyKey.new field with
      | .ok var, some field => .field var field none
      | _, _ => text
    else
      match new s.field with
      | .ok var => .variable_ var none
      | .error _ => text
  ⟨projection, if s.descending then .desc else .asc⟩

def StructuredMatchQuery.intoQueryIr (q : StructuredMatchQuery) : Except String QueryIR := do
  q.validate
  let nodes ← q.nodes.mapM NodePattern.toPattern
  let relationships ← q.relationships.mapM RelationshipPattern.toPattern
  let excluded ← q.excludePatterns.mapM ExcludePattern.toExpr
  let filter := excluded.foldl andAlso (conditionsToFilter q.conditions)
  let projections := q.returns.map returnToProjection
  let groupBy ← q.groupBy.mapM GroupField.toProjection
  let orderBy := q.orderBy.map sortToOrder
  let qir : QueryIR :=
    ⟨.match_ (nodes ++ relationships) filter projections false groupBy, q.limit, q.skip, orderBy,
      none⟩
  qir.validate
  return qir

end Ontosyx.Query
