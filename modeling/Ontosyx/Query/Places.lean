import Ontosyx.Query.Ir

/-!
# The places of a query

A query mentions labels, property names and code literals in many places.  This
module lists them once, together with the variables in scope at each place, and
gives the general form of a rewriting pass: a set of places it walks and what it
does to a name or a literal there.

The scoping is that of `QueryIR::validate`: the patterns of a `MATCH` bind for
its filter and columns, a chain and a mutation hand their bindings on, the
branches of a `UNION` start from the outer scope, and a subquery sees its
imports only.
-/

namespace Ontosyx.Query

open Ontosyx.Core PatternNode

/-! ## Scopes -/

/-- The label a pattern gives to a variable. -/
inductive Binding where
  | node (label : GraphLabel)
  | edge (label : GraphLabel)
deriving DecidableEq

/-- A binding, and whether it was made at a place the pass walks. -/
structure Bound where
  binding : Binding
  walked : Bool
deriving DecidableEq

/-- The bound variables, the latest first. -/
abbrev Scope := List (VariableName × Bound)

def Scope.lookup (s : Scope) (v : VariableName) : Option Bound :=
  (s.find? fun e => e.1 = v).map (·.2)

/-- What a subquery sees: the imported variables. -/
def Scope.importing (s : Scope) (imports : List String) : Scope :=
  s.filter fun e => e.1.val ∈ imports

/-- A variable with a label enters the scope; an unlabelled one adds nothing. -/
def Scope.bindNode (w : Bool) (v : VariableName) (label : Option GraphLabel) (s : Scope) : Scope :=
  match label with
  | some l => (v, ⟨.node l, w⟩) :: s
  | none => s

/-- `bindNode` for a relationship, whose variable is optional. -/
def Scope.bindEdge (w : Bool) (v : Option VariableName) (label : Option GraphLabel) (s : Scope) :
    Scope :=
  match v, label with
  | some v, some l => (v, ⟨.edge l, w⟩) :: s
  | _, _ => s

def PathElement.bind (w : Bool) (s : Scope) : PathElement → Scope
  | .node v l => s.bindNode w v l
  | .edge v l _ => s.bindEdge w v l

def GraphPattern.bind (w : Bool) (s : Scope) : GraphPattern → Scope
  | .node v l _ => s.bindNode w v l
  | .relationship v l _ _ _ _ _ => s.bindEdge w v l
  | .path elements => elements.foldl (PathElement.bind w) s

def MutateOp.bind (w : Bool) (s : Scope) : MutateOp → Scope
  | .createNode v l _ | .mergeNode v l _ _ _ => s.bindNode w v (some l)
  | .createEdge v l _ _ _ | .mergeEdge v l _ _ _ _ _ => s.bindEdge w v (some l)
  | _ => s

def PatternNode.bind (w : Bool) (s : Scope) (n : PatternNode) : Scope :=
  s.bindNode w ⟨n.var⟩ n.label

def PatternEdge.bind (w : Bool) (s : Scope) (e : PatternEdge) : Scope :=
  s.bindEdge w (e.var.map VariableName.mk) e.label

mutual
/-- The scope that an operation leaves to what follows it. -/
def QueryOp.scopeAfter (w : Bool) (s : Scope) : QueryOp → Scope
  | .match_ patterns _ _ _ _ => patterns.foldl (GraphPattern.bind w) s
  | .pathFind start end_ _ _ _ _ =>
    (s.bindNode w start.var start.label).bindNode w end_.var end_.label
  | .aggregate source _ _ _ => source.scopeAfter w s
  | .chain steps => ChainStep.scopeAfterAll w s steps
  | .mutate context operations _ =>
    operations.foldl (MutateOp.bind w) (QueryOp.scopeAfterOption w s context)
  | .union _ _ | .callSubquery _ _ | .analytics _ _ _ _ | .hybridSearch _ => s

def QueryOp.scopeAfterOption (w : Bool) (s : Scope) : Option QueryOp → Scope
  | none => s
  | some op => op.scopeAfter w s

def QueryIR.scopeAfter (w : Bool) (s : Scope) : QueryIR → Scope
  | ⟨operation, _, _, _, _⟩ => operation.scopeAfter w s

def ChainStep.scopeAfterAll (w : Bool) (s : Scope) : List ChainStep → Scope
  | [] => s
  | ⟨_, operation⟩ :: steps => ChainStep.scopeAfterAll w (operation.scopeAfter w s) steps
end

/-! ## Places -/

/-- What decides the type a property name belongs to: a variable, or the pattern
or mutation that the name is written in. -/
inductive Owner where
  | var (v : VariableName)
  | inline (var : Option VariableName) (bound : Option Bound)
deriving DecidableEq

def Owner.bound (s : Scope) : Owner → Option Bound
  | .var v => s.lookup v
  | .inline _ (some b) => some b
  | .inline (some v) none => s.lookup v
  | .inline none none => none

/-- The type that the owner of a property is bound to at a place. -/
def Owner.binding (s : Scope) (o : Owner) : Option Binding :=
  (o.bound s).map (·.binding)

def Owner.varName : Owner → Option VariableName
  | .var v => some v
  | .inline v _ => v

def Owner.ofNode (w : Bool) (v : VariableName) (label : Option GraphLabel) : Owner :=
  .inline (some v) (label.map fun l => ⟨.node l, w⟩)

def Owner.ofEdge (w : Bool) (v : Option VariableName) (label : Option GraphLabel) : Owner :=
  .inline v (label.map fun l => ⟨.edge l, w⟩)

/-- What a place mentions.  `literal` is a string that `=`, `<>`, an inline filter
or an assignment sets against a property, `members` the list of an `IN`. -/
inductive Mention where
  | nodeLabel (label : GraphLabel)
  | edgeLabel (label : GraphLabel)
  | property (owner : Owner) (property : PropertyKey)
  | literal (owner : Owner) (property : PropertyKey) (code : String)
  | members (owner : Owner) (property : PropertyKey) (values : List PropertyValue)

/-- A place of a query: whether the pass walks it, the scope there, and what it
mentions. -/
structure Site where
  walked : Bool
  scope : Scope
  mention : Mention

/-- The steps from a part of a query to a part inside it that some pass does not
take. -/
inductive Step where
  /-- A column list: `RETURN`, `GROUP BY`, `ORDER BY`, `WITH`, aggregated fields. -/
  | output
  /-- The value of an inline filter. -/
  | filterValue
  /-- The value of an assignment to a node or edge with this label. -/
  | assignmentValue (binding : Binding)
  /-- The value of a `SET`. -/
  | setValue
  /-- An operand of a string operator, `IS NULL`, `IN`, a function or a `CASE`. -/
  | operand
  /-- The pattern of an `EXISTS`. -/
  | exists_
  /-- A subquery inside an expression. -/
  | subquery
  /-- A parameter of an analytics run. -/
  | parameter
  /-- The graph constraint of a hybrid search. -/
  | hybrid
  /-- The filters and columns of a graph constraint. -/
  | constraint
deriving DecidableEq

/-- `extract_property_ref`: the variable and the property of a reference. -/
def Expr.propertyRef : Expr → Option (VariableName × PropertyKey)
  | .property v (some p) => some (v, p)
  | _ => none

def Expr.code : Expr → Option String
  | .literal (.string code) => some code
  | _ => none

/-- The code literal that a comparison sets against a property. -/
def comparedSites (w : Bool) (s : Scope) (anchor literal : Expr) : List Site :=
  match anchor.propertyRef, literal.code with
  | some (v, p), some code => [⟨w, s, .literal (.var v) p code⟩]
  | _, _ => []

/-- `comparedSites` in both operand orders, for the operators `=` and `<>`. -/
def comparisonSites (w : Bool) (s : Scope) (left : Expr) (op : ComparisonOp) (right : Expr) :
    List Site :=
  match op with
  | .eq | .neq => comparedSites w s left right ++ comparedSites w s right left
  | _ => []

/-- The list that an `IN` sets against a property. -/
def memberSites (w : Bool) (s : Scope) (values : List PropertyValue) (expr : Expr) : List Site :=
  match expr.propertyRef with
  | some (v, p) => [⟨w, s, .members (.var v) p values⟩]
  | none => []

/-- The code literal that a filter or an assignment sets against a property. -/
def valueSites (w : Bool) (s : Scope) (owner : Owner) (p : PropertyKey) (value : Expr) :
    List Site :=
  match value.code with
  | some code => [⟨w, s, .literal owner p code⟩]
  | none => []

def nodeLabelSites (w : Bool) (s : Scope) (label : Option GraphLabel) : List Site :=
  label.toList.map fun l => ⟨w, s, .nodeLabel l⟩

def edgeLabelSites (w : Bool) (s : Scope) (label : Option GraphLabel) : List Site :=
  label.toList.map fun l => ⟨w, s, .edgeLabel l⟩

def PathElement.sites (w : Bool) (s : Scope) : PathElement → List Site
  | .node _ l => nodeLabelSites w s l
  | .edge _ l _ => edgeLabelSites w s l

def FieldRef.sites (w : Bool) (s : Scope) (f : FieldRef) : List Site :=
  f.field.toList.map fun p => ⟨w, s, .property (.var f.var) p⟩

section

variable (walks : Step → Bool)

mutual
def Expr.sites (w : Bool) (s : Scope) : Expr → List Site
  | .literal _ | .param _ | .property _ none => []
  | .property v (some p) => [⟨w, s, .property (.var v) p⟩]
  | .comparison left op right =>
    left.sites w s ++ right.sites w s ++ comparisonSites w s left op right
  | .logical left _ right => left.sites w s ++ right.sites w s
  | .not inner => inner.sites w s
  | .in_ expr values => expr.sites (w && walks .operand) s ++ memberSites w s values expr
  | .isNull expr _ => expr.sites (w && walks .operand) s
  | .stringOp left _ right =>
    left.sites (w && walks .operand) s ++ right.sites (w && walks .operand) s
  | .functionCall _ args => Expr.sitesList (w && walks .operand) s args
  | .exists_ pattern =>
    pattern.sites (w && walks .exists_) (pattern.bind (w && walks .exists_) s)
  | .case_ operand whenClauses elseResult =>
    Expr.sitesOption (w && walks .operand) s operand ++
      WhenClause.sitesList (w && walks .operand) s whenClauses ++
      Expr.sitesOption (w && walks .operand) s elseResult
  | .subquery query imports => query.sites (w && walks .subquery) (s.importing imports)

def Expr.sitesList (w : Bool) (s : Scope) : List Expr → List Site
  | [] => []
  | e :: es => e.sites w s ++ Expr.sitesList w s es

def Expr.sitesOption (w : Bool) (s : Scope) : Option Expr → List Site
  | none => []
  | some e => e.sites w s

def WhenClause.sitesList (w : Bool) (s : Scope) : List WhenClause → List Site
  | [] => []
  | ⟨condition, result⟩ :: cs =>
    condition.sites w s ++ result.sites w s ++ WhenClause.sitesList w s cs

def PropertyFilter.sitesList (w : Bool) (s : Scope) (owner : Owner) :
    List PropertyFilter → List Site
  | [] => []
  | ⟨p, value⟩ :: fs =>
    ⟨w, s, .property owner p⟩ :: (valueSites w s owner p value ++
      value.sites (w && walks .filterValue) s ++ PropertyFilter.sitesList w s owner fs)

def GraphPattern.sites (w : Bool) (s : Scope) : GraphPattern → List Site
  | .node v label filters =>
    nodeLabelSites w s label ++ PropertyFilter.sitesList w s (.ofNode w v label) filters
  | .relationship v label _ _ _ filters _ =>
    edgeLabelSites w s label ++ PropertyFilter.sitesList w s (.ofEdge w v label) filters
  | .path elements => elements.flatMap (PathElement.sites w s)

def GraphPattern.sitesList (w : Bool) (s : Scope) : List GraphPattern → List Site
  | [] => []
  | p :: ps => p.sites w s ++ GraphPattern.sitesList w s ps

def Projection.sites (w : Bool) (s : Scope) : Projection → List Site
  | .field v p _ => [⟨w, s, .property (.var v) p⟩]
  | .variable_ _ _ | .allProperties _ => []
  | .expression expr _ => expr.sites w s
  | .aggregation _ argument _ _ => Projection.sitesOption w s argument

def Projection.sitesOption (w : Bool) (s : Scope) : Option Projection → List Site
  | none => []
  | some p => p.sites w s

def Projection.sitesList (w : Bool) (s : Scope) : List Projection → List Site
  | [] => []
  | p :: ps => p.sites w s ++ Projection.sitesList w s ps

def NodeRef.sites (w : Bool) (s : Scope) : NodeRef → List Site
  | ⟨v, label, filters⟩ =>
    nodeLabelSites w s label ++ PropertyFilter.sitesList w s (.ofNode w v label) filters

def AnalyticsSource.sites (w : Bool) (s : Scope) : AnalyticsSource → List Site
  | .wholeGraph => []
  | .labels labels => labels.map fun l => ⟨w, s, .nodeLabel l⟩
  | .subgraph filter => filter.sites w s

def AnalyticsParam.sitesList (w : Bool) (s : Scope) : List AnalyticsParam → List Site
  | [] => []
  | ⟨_, value⟩ :: ps => value.sites w s ++ AnalyticsParam.sitesList w s ps

def QueryOp.sites (w : Bool) (s : Scope) : QueryOp → List Site
  | .match_ patterns filter projections _ groupBy =>
    GraphPattern.sitesList w (patterns.foldl (GraphPattern.bind w) s) patterns ++
      Expr.sitesOption w (patterns.foldl (GraphPattern.bind w) s) filter ++
      Projection.sitesList (w && walks .output) (patterns.foldl (GraphPattern.bind w) s)
        projections ++
      Projection.sitesList (w && walks .output) (patterns.foldl (GraphPattern.bind w) s) groupBy
  | .pathFind start end_ edgeTypes _ _ _ =>
    start.sites w ((s.bindNode w start.var start.label).bindNode w end_.var end_.label) ++
      end_.sites w ((s.bindNode w start.var start.label).bindNode w end_.var end_.label) ++
      edgeTypes.map fun l => ⟨w, s, .edgeLabel l⟩
  | .aggregate source groupBy aggregations having =>
    source.sites w s ++
      groupBy.flatMap (FieldRef.sites (w && walks .output) (source.scopeAfter w s)) ++
      aggregations.flatMap
        (fun a => a.field.sites (w && walks .output) (source.scopeAfter w s)) ++
      Expr.sitesOption w (source.scopeAfter w s) having
  | .union queries _ => QueryIR.sitesList w s queries
  | .chain steps => ChainStep.sitesList w s steps
  | .callSubquery inner imports => inner.sites w (s.importing imports)
  | .mutate context operations returning =>
    QueryOp.sitesOption w s context ++
      MutateOp.sitesList w (QueryOp.scopeAfterOption w s context) operations ++
      Projection.sitesList (w && walks .output)
        (operations.foldl (MutateOp.bind w) (QueryOp.scopeAfterOption w s context)) returning
  | .analytics _ source params projections =>
    source.sites w s ++ AnalyticsParam.sitesList (w && walks .parameter) s params ++
      Projection.sitesList (w && walks .output) s projections
  | .hybridSearch ⟨_, _, none, _, _⟩ => []
  | .hybridSearch ⟨_, _, some constraints, _, _⟩ => constraints.sites (w && walks .hybrid) s

def QueryOp.sitesOption (w : Bool) (s : Scope) : Option QueryOp → List Site
  | none => []
  | some op => op.sites w s

def QueryIR.sites (w : Bool) (s : Scope) : QueryIR → List Site
  | ⟨operation, _, _, orderBy, _⟩ =>
    operation.sites w s ++
      OrderClause.sitesList (w && walks .output) (operation.scopeAfter w s) orderBy

def QueryIR.sitesList (w : Bool) (s : Scope) : List QueryIR → List Site
  | [] => []
  | q :: qs => q.sites w s ++ QueryIR.sitesList w s qs

def OrderClause.sitesList (w : Bool) (s : Scope) : List OrderClause → List Site
  | [] => []
  | ⟨projection, _⟩ :: os => projection.sites w s ++ OrderClause.sitesList w s os

def ChainStep.sitesList (w : Bool) (s : Scope) : List ChainStep → List Site
  | [] => []
  | ⟨passThrough, operation⟩ :: steps =>
    Projection.sitesList (w && walks .output) s passThrough ++ operation.sites w s ++
      ChainStep.sitesList w (operation.scopeAfter w s) steps

/-- Assignments to the properties of one node or edge. -/
def PropertyAssignment.sitesList (w : Bool) (s : Scope) (v : Option VariableName) (b : Binding) :
    List PropertyAssignment → List Site
  | [] => []
  | ⟨p, value⟩ :: as =>
    ⟨w, s, .property (.inline v (some ⟨b, w⟩)) p⟩ ::
      (valueSites w s (.inline v (some ⟨b, w⟩)) p value ++
        value.sites (w && walks (.assignmentValue b)) s ++
        PropertyAssignment.sitesList w s v b as)

def MutateOp.sites (w : Bool) (s : Scope) : MutateOp → List Site
  | .createNode v label properties =>
    ⟨w, s, .nodeLabel label⟩ ::
      PropertyAssignment.sitesList w s (some v) (.node label) properties
  | .createEdge v label _ _ properties =>
    ⟨w, s, .edgeLabel label⟩ :: PropertyAssignment.sitesList w s v (.edge label) properties
  | .mergeNode v label matchProperties onCreate onMatch =>
    ⟨w, s, .nodeLabel label⟩ ::
      (PropertyAssignment.sitesList w s (some v) (.node label) matchProperties ++
        PropertyAssignment.sitesList w s (some v) (.node label) onCreate ++
        PropertyAssignment.sitesList w s (some v) (.node label) onMatch)
  | .mergeEdge v label _ _ matchProperties onCreate onMatch =>
    ⟨w, s, .edgeLabel label⟩ ::
      (PropertyAssignment.sitesList w s v (.edge label) matchProperties ++
        PropertyAssignment.sitesList w s v (.edge label) onCreate ++
        PropertyAssignment.sitesList w s v (.edge label) onMatch)
  | .setProperty v p value =>
    ⟨w, s, .property (.var v) p⟩ ::
      (valueSites w s (.var v) p value ++ value.sites (w && walks .setValue) s)
  | .delete _ _ => []
  | .removeProperty v p => [⟨w, s, .property (.var v) p⟩]
  | .removeLabel _ label => [⟨w, s, .nodeLabel label⟩]

def MutateOp.sitesList (w : Bool) (s : Scope) : List MutateOp → List Site
  | [] => []
  | m :: ms => m.sites w (m.bind w s) ++ MutateOp.sitesList w (m.bind w s) ms

def PatternIR.sites (w : Bool) (s : Scope) : PatternIR → List Site
  | ⟨nodes, edges, filters, projections, _, _, orderBy⟩ =>
    PatternNode.sitesList w
        (edges.foldl (PatternEdge.bind w) (nodes.foldl (PatternNode.bind w) s)) nodes ++
      PatternEdge.sitesList w
        (edges.foldl (PatternEdge.bind w) (nodes.foldl (PatternNode.bind w) s)) edges ++
      PatternFilter.sitesList (w && walks .constraint)
        (edges.foldl (PatternEdge.bind w) (nodes.foldl (bind w) s)) filters ++
      PatternProjection.sitesList (w && walks .constraint)
        (edges.foldl (PatternEdge.bind w) (nodes.foldl (bind w) s)) projections ++
      OrderClause.sitesList (w && walks .constraint)
        (edges.foldl (PatternEdge.bind w) (nodes.foldl (bind w) s)) orderBy

def PatternNode.sitesList (w : Bool) (s : Scope) : List PatternNode → List Site
  | [] => []
  | ⟨_, v, label, filters⟩ :: ns =>
    nodeLabelSites w s label ++
      PropertyFilter.sitesList (w && walks .constraint) s (.ofNode w ⟨v⟩ label) filters ++
      PatternNode.sitesList w s ns

def PatternEdge.sitesList (w : Bool) (s : Scope) : List PatternEdge → List Site
  | [] => []
  | ⟨_, v, label, _, _, _, filters, _⟩ :: es =>
    edgeLabelSites w s label ++
      PropertyFilter.sitesList (w && walks .constraint) s
        (.ofEdge w (v.map VariableName.mk) label) filters ++
      PatternEdge.sitesList w s es

def PatternFilter.sitesList (w : Bool) (s : Scope) : List PatternFilter → List Site
  | [] => []
  | ⟨_, expr⟩ :: fs => expr.sites w s ++ PatternFilter.sitesList w s fs

def PatternProjection.sitesList (w : Bool) (s : Scope) : List PatternProjection → List Site
  | [] => []
  | ⟨_, projection⟩ :: ps => projection.sites w s ++ PatternProjection.sitesList w s ps
end

end

end Ontosyx.Query
