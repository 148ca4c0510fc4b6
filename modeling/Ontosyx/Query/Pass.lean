import Ontosyx.Query.Places

/-!
# Rewriting passes

The general form of a rewriting pass over a query: the places it walks, and what
it does to a label, a property name or a code literal there.  A pass leaves the
shape of the query alone, so the places of the result are the places of the
query, each rewritten on its own.

## Main results

* `QueryIR.sites_rewrite` — the places of a rewritten query.
* `QueryIR.rewrite_inert` — nothing happens where the pass does not walk, and a
  pass that is the identity changes nothing.
-/

namespace Ontosyx.Query

open List Ontosyx.Core QueryOp PropertyAssignment Or

/-! ## What a pass does at one place -/

/-- The local actions of a pass. -/
structure Hooks where
  nodeLabel : GraphLabel → GraphLabel := id
  edgeLabel : GraphLabel → GraphLabel := id
  property : Owner → PropertyKey → PropertyKey := fun _ p => p
  literal : Owner → PropertyKey → String → String := fun _ _ code => code
  members : Owner → PropertyKey → List PropertyValue → List PropertyValue :=
    fun _ _ values => values

namespace Hooks

variable (h : Hooks)

/-- The action on a label at a place that is walked or not. -/
def label (w : Bool) (rename : GraphLabel → GraphLabel) (l : GraphLabel) : GraphLabel :=
  if w then rename l else l

/-- The action on a property name at a place that is walked or not. -/
def key (w : Bool) (owner : Owner) (p : PropertyKey) : PropertyKey :=
  if w then h.property owner p else p

/-- The binding that the rewritten query makes. -/
def bound : Bound → Bound
  | ⟨.node l, w⟩ => ⟨.node (label w h.nodeLabel l), true⟩
  | ⟨.edge l, w⟩ => ⟨.edge (label w h.edgeLabel l), true⟩

def scope (s : Scope) : Scope :=
  s.map fun e => (e.1, h.bound e.2)

def owner : Owner → Owner
  | .var v => .var v
  | .inline v b => .inline v (b.map h.bound)

/-- What the rewritten query mentions at a place.  The property of an `IN` list is
renamed only by a pass that walks the operand. -/
def mention (walks : Step → Bool) (w : Bool) : Mention → Mention
  | .nodeLabel l => .nodeLabel (label w h.nodeLabel l)
  | .edgeLabel l => .edgeLabel (label w h.edgeLabel l)
  | .property o p => .property (h.owner o) (h.key w o p)
  | .literal o p code =>
    .literal (h.owner o) (h.key w o p) (if w then h.literal o (h.key w o p) code else code)
  | .members o p values =>
    .members (h.owner o) (h.key (w && walks .operand) o p)
      (if w then h.members o (h.key (w && walks .operand) o p) values else values)

/-- The place of the rewritten query that stands for a place of the query. -/
def site (walks : Step → Bool) (x : Site) : Site :=
  ⟨true, h.scope x.scope, h.mention walks x.walked x.mention⟩

end Hooks

/-! ## The pass over a query -/

section

variable (walks : Step → Bool) (h : Hooks)

/-- Rewrite a literal that is set against a property. -/
def Hooks.compared (anchor literal : Expr) : Expr :=
  match anchor.propertyRef, literal.code with
  | some (v, p), some code => .literal (.string (h.literal (.var v) p code))
  | _, _ => literal

/-- Rewrite the literal of a comparison by `=` or `<>`, in either operand. -/
def Hooks.comparison (left : Expr) (op : ComparisonOp) (right : Expr) : Expr :=
  match op with
  | .eq | .neq => .comparison (h.compared (h.compared left right) left) op (h.compared left right)
  | _ => .comparison left op right

/-- Rewrite the list of an `IN` over a property. -/
def Hooks.in_ (expr : Expr) (values : List PropertyValue) : Expr :=
  match expr.propertyRef with
  | some (v, p) => .in_ expr (h.members (.var v) p values)
  | none => .in_ expr values

/-- Rewrite the literal of a filter or an assignment. -/
def Hooks.value (owner : Owner) (p : PropertyKey) (value : Expr) : Expr :=
  match value.code with
  | some code => .literal (.string (h.literal owner p code))
  | none => value

def PathElement.rewrite (w : Bool) : PathElement → PathElement
  | .node v l => .node v (l.map (Hooks.label w h.nodeLabel))
  | .edge v l d => .edge v (l.map (Hooks.label w h.edgeLabel)) d

def FieldRef.rewrite (w : Bool) (f : FieldRef) : FieldRef :=
  { f with field := f.field.map (h.key w (.var f.var)) }

def AggregationExpr.rewrite (w : Bool) (a : AggregationExpr) : AggregationExpr :=
  { a with field := a.field.rewrite h w }

mutual
def Expr.rewrite (w : Bool) : Expr → Expr
  | .literal v => .literal v
  | .param n => .param n
  | .property v p => .property v (p.map (h.key w (.var v)))
  | .comparison left op right =>
    if w then h.comparison (left.rewrite w) op (right.rewrite w)
    else .comparison (left.rewrite w) op (right.rewrite w)
  | .logical left op right => .logical (left.rewrite w) op (right.rewrite w)
  | .not inner => .not (inner.rewrite w)
  | .in_ expr values =>
    if w then h.in_ (expr.rewrite (w && walks .operand)) values
    else .in_ (expr.rewrite (w && walks .operand)) values
  | .isNull expr negated => .isNull (expr.rewrite (w && walks .operand)) negated
  | .stringOp left op right =>
    .stringOp (left.rewrite (w && walks .operand)) op (right.rewrite (w && walks .operand))
  | .functionCall f args => .functionCall f (Expr.rewriteList (w && walks .operand) args)
  | .exists_ pattern => .exists_ (pattern.rewrite (w && walks .exists_))
  | .case_ operand whenClauses elseResult =>
    .case_ (Expr.rewriteOption (w && walks .operand) operand)
      (WhenClause.rewriteList (w && walks .operand) whenClauses)
      (Expr.rewriteOption (w && walks .operand) elseResult)
  | .subquery query imports => .subquery (query.rewrite (w && walks .subquery)) imports

def Expr.rewriteList (w : Bool) : List Expr → List Expr
  | [] => []
  | e :: es => e.rewrite w :: Expr.rewriteList w es

def Expr.rewriteOption (w : Bool) : Option Expr → Option Expr
  | none => none
  | some e => some (e.rewrite w)

def WhenClause.rewriteList (w : Bool) : List WhenClause → List WhenClause
  | [] => []
  | ⟨condition, result⟩ :: cs =>
    ⟨condition.rewrite w, result.rewrite w⟩ :: WhenClause.rewriteList w cs

def PropertyFilter.rewriteList (w : Bool) (owner : Owner) :
    List PropertyFilter → List PropertyFilter
  | [] => []
  | ⟨p, value⟩ :: fs =>
    ⟨h.key w owner p,
      if w then h.value owner (h.key w owner p) (value.rewrite (w && walks .filterValue))
      else value.rewrite (w && walks .filterValue)⟩ :: PropertyFilter.rewriteList w owner fs

def GraphPattern.rewrite (w : Bool) : GraphPattern → GraphPattern
  | .node v label filters =>
    .node v (label.map (Hooks.label w h.nodeLabel))
      (PropertyFilter.rewriteList w (.ofNode w v label) filters)
  | .relationship v label source target direction filters varLength =>
    .relationship v (label.map (Hooks.label w h.edgeLabel)) source target direction
      (PropertyFilter.rewriteList w (.ofEdge w v label) filters) varLength
  | .path elements => .path (elements.map (PathElement.rewrite h w))

def GraphPattern.rewriteList (w : Bool) : List GraphPattern → List GraphPattern
  | [] => []
  | p :: ps => p.rewrite w :: GraphPattern.rewriteList w ps

def Projection.rewrite (w : Bool) : Projection → Projection
  | .field v p a => .field v (h.key w (.var v) p) a
  | .variable_ v a => .variable_ v a
  | .allProperties v => .allProperties v
  | .expression expr a => .expression (expr.rewrite w) a
  | .aggregation f argument a distinct =>
    .aggregation f (Projection.rewriteOption w argument) a distinct

def Projection.rewriteOption (w : Bool) : Option Projection → Option Projection
  | none => none
  | some p => some (p.rewrite w)

def Projection.rewriteList (w : Bool) : List Projection → List Projection
  | [] => []
  | p :: ps => p.rewrite w :: Projection.rewriteList w ps

def NodeRef.rewrite (w : Bool) : NodeRef → NodeRef
  | ⟨v, label, filters⟩ =>
    ⟨v, label.map (Hooks.label w h.nodeLabel),
      PropertyFilter.rewriteList w (.ofNode w v label) filters⟩

def AnalyticsSource.rewrite (w : Bool) : AnalyticsSource → AnalyticsSource
  | .wholeGraph => .wholeGraph
  | .labels labels => .labels (labels.map (Hooks.label w h.nodeLabel))
  | .subgraph filter => .subgraph (filter.rewrite w)

def AnalyticsParam.rewriteList (w : Bool) : List AnalyticsParam → List AnalyticsParam
  | [] => []
  | ⟨n, value⟩ :: ps => ⟨n, value.rewrite w⟩ :: AnalyticsParam.rewriteList w ps

def QueryOp.rewrite (w : Bool) : QueryOp → QueryOp
  | .match_ patterns filter projections optional groupBy =>
    .match_ (GraphPattern.rewriteList w patterns) (Expr.rewriteOption w filter)
      (Projection.rewriteList (w && walks .output) projections) optional
      (Projection.rewriteList (w && walks .output) groupBy)
  | .pathFind start end_ edgeTypes direction maxDepth algorithm =>
    .pathFind (start.rewrite w) (end_.rewrite w) (edgeTypes.map (Hooks.label w h.edgeLabel))
      direction maxDepth algorithm
  | .aggregate source groupBy aggregations having =>
    .aggregate (source.rewrite w) (groupBy.map (FieldRef.rewrite h (w && walks .output)))
      (aggregations.map (AggregationExpr.rewrite h (w && walks .output)))
      (Expr.rewriteOption w having)
  | .union queries all => .union (QueryIR.rewriteList w queries) all
  | .chain steps => .chain (ChainStep.rewriteList w steps)
  | .callSubquery inner imports => .callSubquery (inner.rewrite w) imports
  | .mutate context operations returning =>
    .mutate (QueryOp.rewriteOption w context) (MutateOp.rewriteList w operations)
      (Projection.rewriteList (w && walks .output) returning)
  | .analytics algorithm source params projections =>
    .analytics algorithm (source.rewrite w)
      (AnalyticsParam.rewriteList (w && walks .parameter) params)
      (Projection.rewriteList (w && walks .output) projections)
  | .hybridSearch ⟨v, f, none, u, k⟩ => .hybridSearch ⟨v, f, none, u, k⟩
  | .hybridSearch ⟨v, f, some constraints, u, k⟩ =>
    .hybridSearch ⟨v, f, some (constraints.rewrite (w && walks .hybrid)), u, k⟩

def QueryOp.rewriteOption (w : Bool) : Option QueryOp → Option QueryOp
  | none => none
  | some op => some (op.rewrite w)

def QueryIR.rewrite (w : Bool) : QueryIR → QueryIR
  | ⟨operation, limit, skip, orderBy, asOf⟩ =>
    ⟨operation.rewrite w, limit, skip, OrderClause.rewriteList (w && walks .output) orderBy, asOf⟩

def QueryIR.rewriteList (w : Bool) : List QueryIR → List QueryIR
  | [] => []
  | q :: qs => q.rewrite w :: QueryIR.rewriteList w qs

def OrderClause.rewriteList (w : Bool) : List OrderClause → List OrderClause
  | [] => []
  | ⟨projection, direction⟩ :: os =>
    ⟨projection.rewrite w, direction⟩ :: OrderClause.rewriteList w os

def ChainStep.rewriteList (w : Bool) : List ChainStep → List ChainStep
  | [] => []
  | ⟨passThrough, operation⟩ :: steps =>
    ⟨Projection.rewriteList (w && walks .output) passThrough, operation.rewrite w⟩ ::
      ChainStep.rewriteList w steps

def PropertyAssignment.rewriteList (w : Bool) (v : Option VariableName) (b : Binding) :
    List PropertyAssignment → List PropertyAssignment
  | [] => []
  | ⟨p, value⟩ :: as =>
    ⟨h.key w (.inline v (some ⟨b, w⟩)) p, if w then
        h.value (.inline v (some ⟨b, w⟩)) (h.key w (.inline v (some ⟨b, w⟩)) p)
          (value.rewrite (w && walks (.assignmentValue b)))
      else value.rewrite (w && walks (.assignmentValue b))⟩ ::
      PropertyAssignment.rewriteList w v b as

def MutateOp.rewrite (w : Bool) : MutateOp → MutateOp
  | .createNode v label properties =>
    .createNode v (Hooks.label w h.nodeLabel label)
      (PropertyAssignment.rewriteList w (some v) (.node label) properties)
  | .createEdge v label source target properties =>
    .createEdge v (Hooks.label w h.edgeLabel label) source target
      (PropertyAssignment.rewriteList w v (.edge label) properties)
  | .mergeNode v label matchProperties onCreate onMatch =>
    .mergeNode v (Hooks.label w h.nodeLabel label)
      (PropertyAssignment.rewriteList w (some v) (.node label) matchProperties)
      (PropertyAssignment.rewriteList w (some v) (.node label) onCreate)
      (PropertyAssignment.rewriteList w (some v) (.node label) onMatch)
  | .mergeEdge v label source target matchProperties onCreate onMatch =>
    .mergeEdge v (Hooks.label w h.edgeLabel label) source target
      (PropertyAssignment.rewriteList w v (.edge label) matchProperties)
      (PropertyAssignment.rewriteList w v (.edge label) onCreate)
      (PropertyAssignment.rewriteList w v (.edge label) onMatch)
  | .setProperty v p value =>
    .setProperty v (h.key w (.var v) p)
      (if w then h.value (.var v) (h.key w (.var v) p) (value.rewrite (w && walks .setValue))
      else value.rewrite (w && walks .setValue))
  | .delete v detach => .delete v detach
  | .removeProperty v p => .removeProperty v (h.key w (.var v) p)
  | .removeLabel v label => .removeLabel v (Hooks.label w h.nodeLabel label)

def MutateOp.rewriteList (w : Bool) : List MutateOp → List MutateOp
  | [] => []
  | m :: ms => m.rewrite w :: MutateOp.rewriteList w ms

def PatternIR.rewrite (w : Bool) : PatternIR → PatternIR
  | ⟨nodes, edges, filters, projections, limit, skip, orderBy⟩ =>
    ⟨PatternNode.rewriteList w nodes, PatternEdge.rewriteList w edges,
      PatternFilter.rewriteList (w && walks .constraint) filters,
      PatternProjection.rewriteList (w && walks .constraint) projections, limit, skip,
      OrderClause.rewriteList (w && walks .constraint) orderBy⟩

def PatternNode.rewriteList (w : Bool) : List PatternNode → List PatternNode
  | [] => []
  | ⟨id, v, label, filters⟩ :: ns =>
    ⟨id, v, label.map (Hooks.label w h.nodeLabel),
      PropertyFilter.rewriteList (w && walks .constraint) (.ofNode w ⟨v⟩ label) filters⟩ ::
      PatternNode.rewriteList w ns

def PatternEdge.rewriteList (w : Bool) : List PatternEdge → List PatternEdge
  | [] => []
  | ⟨id, v, label, source, target, direction, filters, varLength⟩ :: es =>
    ⟨id, v, label.map (Hooks.label w h.edgeLabel), source, target, direction,
      PropertyFilter.rewriteList (w && walks .constraint)
        (.ofEdge w (v.map VariableName.mk) label) filters, varLength⟩ ::
      PatternEdge.rewriteList w es

def PatternFilter.rewriteList (w : Bool) : List PatternFilter → List PatternFilter
  | [] => []
  | ⟨id, expr⟩ :: fs => ⟨id, expr.rewrite w⟩ :: PatternFilter.rewriteList w fs

def PatternProjection.rewriteList (w : Bool) : List PatternProjection → List PatternProjection
  | [] => []
  | ⟨id, projection⟩ :: ps =>
    ⟨id, projection.rewrite w⟩ :: PatternProjection.rewriteList w ps
end

end

/-- The walk that leaves nothing out. -/
def everywhere : Step → Bool := fun _ => true

/-! ## Scopes of a rewritten query -/

section

attribute [local simp] everywhere AnalyticsParam.rewriteList AnalyticsSource.rewrite
  ChainStep.rewriteList Expr.rewrite Expr.rewriteList Expr.rewriteOption GraphPattern.rewrite
  GraphPattern.rewriteList MutateOp.rewrite MutateOp.rewriteList NodeRef.rewrite
  OrderClause.rewriteList PatternEdge.rewriteList PatternFilter.rewriteList PatternIR.rewrite
  PatternNode.rewriteList PatternProjection.rewriteList Projection.rewrite Projection.rewriteList
  Projection.rewriteOption rewriteList PropertyFilter.rewriteList
  QueryIR.rewrite QueryIR.rewriteList rewrite rewriteOption WhenClause.rewriteList
  AnalyticsParam.sitesList AnalyticsSource.sites ChainStep.scopeAfterAll ChainStep.sitesList
  Expr.sites Expr.sitesList Expr.sitesOption GraphPattern.sites GraphPattern.sitesList
  MutateOp.sites MutateOp.sitesList NodeRef.sites OrderClause.sitesList PatternEdge.sitesList
  PatternFilter.sitesList PatternIR.sites PatternNode.sitesList PatternProjection.sitesList
  Projection.sites Projection.sitesList Projection.sitesOption sitesList
  PropertyFilter.sitesList QueryIR.scopeAfter QueryIR.sites QueryIR.sitesList scopeAfter
  scopeAfterOption sites sitesOption WhenClause.sitesList

variable {walks : Step → Bool} (h : Hooks)

theorem Hooks.scope_bindNode (w : Bool) (v : VariableName) (l : Option GraphLabel) (s : Scope) :
    (h.scope s).bindNode true v (l.map (Hooks.label w h.nodeLabel)) =
      h.scope (s.bindNode w v l) := by
  cases l <;> rfl

theorem Hooks.scope_bindEdge (w : Bool) (v : Option VariableName) (l : Option GraphLabel)
    (s : Scope) : (h.scope s).bindEdge true v (l.map (Hooks.label w h.edgeLabel)) =
      h.scope (s.bindEdge w v l) := by
  cases v <;> cases l <;> rfl

@[simp] theorem Hooks.scope_importing (s : Scope) (imports : List String) :
    (h.scope s).importing imports = h.scope (s.importing imports) := by
  simp [Hooks.scope, Scope.importing, filter_map]
  rfl

@[simp] theorem Hooks.owner_ofNode (w : Bool) (v : VariableName) (l : Option GraphLabel) :
    h.owner (.ofNode w v l) = .ofNode true v (l.map (Hooks.label w h.nodeLabel)) := by
  cases l <;> rfl

@[simp] theorem Hooks.owner_ofEdge (w : Bool) (v : Option VariableName) (l : Option GraphLabel) :
    h.owner (.ofEdge w v l) = .ofEdge true v (l.map (Hooks.label w h.edgeLabel)) := by
  cases l <;> rfl

theorem PathElement.bind_rewrite (w : Bool) (s : Scope) (x : PathElement) :
    (x.rewrite h w).bind true (h.scope s) = h.scope (x.bind w s) := by
  cases x with
  | node v l => exact h.scope_bindNode w v l s
  | edge v l d => exact h.scope_bindEdge w v l s

theorem PathElement.foldl_bind_rewrite (w : Bool) (xs : List PathElement) (s : Scope) :
    (xs.map (PathElement.rewrite h w)).foldl (PathElement.bind true) (h.scope s) =
      h.scope (xs.foldl (PathElement.bind w) s) := by
  induction xs generalizing s with
  | nil => rfl
  | cons x xs ih =>
    rw [map_cons, foldl_cons, PathElement.bind_rewrite, ih, foldl_cons]

@[simp] theorem GraphPattern.bind_rewrite (w : Bool) (s : Scope) (p : GraphPattern) :
    (p.rewrite walks h w).bind true (h.scope s) = h.scope (p.bind w s) := by
  cases p with
  | node v l fs =>
    rw [GraphPattern.rewrite]
    exact h.scope_bindNode w v l s
  | relationship v l a b d fs vl =>
    rw [GraphPattern.rewrite]
    exact h.scope_bindEdge w v l s
  | path xs =>
    rw [GraphPattern.rewrite]
    exact PathElement.foldl_bind_rewrite h w xs s

@[simp] theorem GraphPattern.foldl_bind_rewrite (w : Bool) (ps : List GraphPattern) (s : Scope) :
    (GraphPattern.rewriteList walks h w ps).foldl (GraphPattern.bind true) (h.scope s) =
      h.scope (ps.foldl (GraphPattern.bind w) s) := by
  induction ps generalizing s with
  | nil => rfl
  | cons p ps ih =>
    rw [GraphPattern.rewriteList, foldl_cons, GraphPattern.bind_rewrite, ih, foldl_cons]

@[simp] theorem MutateOp.bind_rewrite (w : Bool) (s : Scope) (m : MutateOp) :
    (m.rewrite walks h w).bind true (h.scope s) = h.scope (m.bind w s) := by
  cases m with
  | createNode v l as | mergeNode v l as bs cs =>
    rw [MutateOp.rewrite]
    exact h.scope_bindNode w v (some l) s
  | createEdge v l a b as | mergeEdge v l a b as bs cs =>
    rw [MutateOp.rewrite]
    exact h.scope_bindEdge w v (some l) s
  | _ => rfl

@[simp] theorem MutateOp.foldl_bind_rewrite (w : Bool) (ms : List MutateOp) (s : Scope) :
    (MutateOp.rewriteList walks h w ms).foldl (MutateOp.bind true) (h.scope s) =
      h.scope (ms.foldl (MutateOp.bind w) s) := by
  induction ms generalizing s with
  | nil => rfl
  | cons m ms ih =>
    rw [MutateOp.rewriteList, foldl_cons, MutateOp.bind_rewrite, ih, foldl_cons]

@[simp] theorem PatternNode.foldl_bind_rewrite (w : Bool) (ns : List PatternNode) (s : Scope) :
    (PatternNode.rewriteList walks h w ns).foldl (PatternNode.bind true) (h.scope s) =
      h.scope (ns.foldl (PatternNode.bind w) s) := by
  induction ns generalizing s with
  | nil => rfl
  | cons n ns ih =>
    obtain ⟨id, v, l, fs⟩ := n
    rw [PatternNode.rewriteList, foldl_cons, foldl_cons, ← ih]
    congr 1
    exact h.scope_bindNode w ⟨v⟩ l s

@[simp] theorem PatternEdge.foldl_bind_rewrite (w : Bool) (es : List PatternEdge) (s : Scope) :
    (PatternEdge.rewriteList walks h w es).foldl (PatternEdge.bind true) (h.scope s) =
      h.scope (es.foldl (PatternEdge.bind w) s) := by
  induction es generalizing s with
  | nil => rfl
  | cons e es ih =>
    obtain ⟨id, v, l, a, b, d, fs, vl⟩ := e
    rw [PatternEdge.rewriteList, foldl_cons, foldl_cons, ← ih]
    congr 1
    exact h.scope_bindEdge w (v.map VariableName.mk) l s

mutual
@[simp] theorem QueryOp.scopeAfter_rewrite (w : Bool) (s : Scope) :
    (op : QueryOp) →
      (op.rewrite walks h w).scopeAfter true (h.scope s) = h.scope (op.scopeAfter w s)
  | .match_ ps f pr o g => by
    simpa only [rewrite, scopeAfter] using
      GraphPattern.foldl_bind_rewrite h w ps s
  | .pathFind ⟨v, l, fs⟩ ⟨v', l', fs'⟩ ls d m a => by simp [h.scope_bindNode]
  | .aggregate q g a hv => by
    simpa only [rewrite, scopeAfter] using q.scopeAfter_rewrite w s
  | .chain steps => by
    simpa only [QueryOp.rewrite, QueryOp.scopeAfter] using
      ChainStep.scopeAfterAll_rewrite w s steps
  | .mutate c ms r => by simp [QueryOp.scopeAfterOption_rewrite w s c]
  | .union qs all => by simp
  | .callSubquery q imports => by simp
  | .analytics a src ps pr => by simp
  | .hybridSearch ⟨v, f, none, u, k⟩ => by simp
  | .hybridSearch ⟨v, f, some c, u, k⟩ => by simp

@[simp] theorem QueryOp.scopeAfterOption_rewrite (w : Bool) (s : Scope) :
    (op : Option QueryOp) →
      scopeAfterOption true (h.scope s) (rewriteOption walks h w op) =
        h.scope (scopeAfterOption w s op)
  | none => by simp
  | some op => by
    simpa only [rewriteOption, scopeAfterOption] using op.scopeAfter_rewrite w s

@[simp] theorem QueryIR.scopeAfter_rewrite (w : Bool) (s : Scope) :
    (q : QueryIR) → (q.rewrite walks h w).scopeAfter true (h.scope s) = h.scope (q.scopeAfter w s)
  | ⟨op, l, k, os, t⟩ => by
    simpa only [QueryIR.rewrite, QueryIR.scopeAfter] using op.scopeAfter_rewrite w s

theorem ChainStep.scopeAfterAll_rewrite (w : Bool) (s : Scope) :
    (steps : List ChainStep) →
      ChainStep.scopeAfterAll true (h.scope s) (ChainStep.rewriteList walks h w steps) =
        h.scope (ChainStep.scopeAfterAll w s steps)
  | [] => by simp
  | ⟨p, op⟩ :: steps => by
    simp [op.scopeAfter_rewrite w s, ChainStep.scopeAfterAll_rewrite w _ steps]
end

/-! ## Places of a rewritten query -/

theorem nodeLabelSites_rewrite (w : Bool) (s : Scope) (l : Option GraphLabel) :
    nodeLabelSites true (h.scope s) (l.map (Hooks.label w h.nodeLabel)) =
      (nodeLabelSites w s l).map (h.site walks) := by
  cases l <;> rfl

theorem edgeLabelSites_rewrite (w : Bool) (s : Scope) (l : Option GraphLabel) :
    edgeLabelSites true (h.scope s) (l.map (Hooks.label w h.edgeLabel)) =
      (edgeLabelSites w s l).map (h.site walks) := by
  cases l <;> rfl

theorem PathElement.sites_rewrite (w : Bool) (s : Scope) (x : PathElement) :
    (x.rewrite h w).sites true (h.scope s) = (x.sites w s).map (h.site walks) := by
  cases x with
  | node v l => exact nodeLabelSites_rewrite h w s l
  | edge v l d => exact edgeLabelSites_rewrite h w s l

theorem FieldRef.sites_rewrite (w : Bool) (s : Scope) (f : FieldRef) :
    (f.rewrite h w).sites true (h.scope s) = (f.sites w s).map (h.site walks) := by
  obtain ⟨v, p⟩ := f
  cases p <;> rfl

@[simp] theorem Hooks.compared_code (a b : Expr) :
    (h.compared a b).code =
      match a.propertyRef, b.code with
      | some (v, p), some code => some (h.literal (.var v) p code)
      | _, _ => b.code := by
  unfold Hooks.compared
  split
  · rfl
  · rfl

/-- Rewriting a literal leaves a property reference alone. -/
@[simp] theorem Hooks.compared_propertyRef (a b : Expr) :
    (h.compared a b).propertyRef = b.propertyRef := by
  unfold Hooks.compared
  split
  · rename_i hc
    cases b with
    | property v p => cases hc
    | _ => rfl
  · rfl

theorem Expr.propertyRef_rewrite (w : Bool) (e : Expr) : (e.rewrite walks h w).propertyRef =
      e.propertyRef.map fun x => (x.1, h.key w (.var x.1) x.2) := by
  cases e with
  | property v p => cases p <;> rfl
  | comparison a op b =>
    rw [Expr.rewrite]
    cases w
    · rfl
    · cases op <;> rfl
  | in_ a vs =>
    rw [Expr.rewrite]
    cases w
    · rfl
    · rw [if_pos rfl, Hooks.in_]
      split <;> rfl
  | _ =>
    rw [Expr.rewrite]
    rfl

theorem Expr.code_rewrite (w : Bool) (e : Expr) : (e.rewrite walks h w).code = e.code := by
  cases e with
  | comparison a op b =>
    rw [Expr.rewrite]
    cases w
    · rfl
    · cases op <;> rfl
  | in_ a vs =>
    rw [Expr.rewrite]
    cases w
    · rfl
    · rw [if_pos rfl, Hooks.in_]
      split <;> rfl
  | literal v => rw [Expr.rewrite]
  | _ => rw [Expr.rewrite] <;> rfl

/-- Rewriting a literal changes no place inside it. -/
theorem Hooks.compared_sites (ws : Step → Bool) (w : Bool) (s : Scope) (a b : Expr) :
    (h.compared a b).sites ws w s = b.sites ws w s := by
  unfold Hooks.compared
  split
  · rename_i hc
    cases b with
    | literal v => rw [Expr.sites, Expr.sites]
    | _ => cases hc
  · rfl

theorem Hooks.value_sites (ws : Step → Bool) (w : Bool) (s : Scope) (o : Owner) (p : PropertyKey)
    (b : Expr) : (h.value o p b).sites ws w s = b.sites ws w s := by
  unfold Hooks.value
  split
  · rename_i hc
    cases b with
    | literal v => rw [Expr.sites, Expr.sites]
    | _ => cases hc
  · rfl

/-- The code literal of a walked comparison, when it is rewritten against any
expression with the property reference of its anchor. -/
theorem comparedSites_compared (s : Scope) {a x z : Expr} (b : Expr)
    (hx : x.propertyRef = (a.rewrite walks h true).propertyRef)
    (hz : z.propertyRef = (a.rewrite walks h true).propertyRef) :
    comparedSites true (h.scope s) x (h.compared z (b.rewrite walks h true)) =
      (comparedSites true s a b).map (h.site walks) := by
  simp [comparedSites, hx, hz, Hooks.compared_code, Expr.propertyRef_rewrite, Expr.code_rewrite]
  cases a.propertyRef with
  | none => rfl
  | some r =>
    cases b.code with
    | none => rfl
    | some code => rfl

theorem comparedSites_unwalked (s : Scope) (a b : Expr) :
    comparedSites true (h.scope s) (a.rewrite walks h false) (b.rewrite walks h false) =
      (comparedSites false s a b).map (h.site walks) := by
  simp [comparedSites, Expr.propertyRef_rewrite, Expr.code_rewrite]
  cases a.propertyRef with
  | none => rfl
  | some r =>
    cases b.code with
    | none => rfl
    | some code => rfl

theorem comparison_sites_rewrite (w : Bool) (s : Scope) (a b : Expr) (op : ComparisonOp)
    (ha : (a.rewrite walks h w).sites everywhere true (h.scope s) =
      (a.sites walks w s).map (h.site walks))
    (hb : (b.rewrite walks h w).sites everywhere true (h.scope s) =
      (b.sites walks w s).map (h.site walks)) :
    ((Expr.comparison a op b).rewrite walks h w).sites everywhere true (h.scope s) =
      ((Expr.comparison a op b).sites walks w s).map (h.site walks) := by
  rw [Expr.rewrite, Expr.sites, map_append, map_append, ← ha, ← hb]
  cases w with
  | false =>
    rw [if_neg Bool.false_ne_true, Expr.sites]
    congr 1
    cases op with
    | eq | neq =>
      simp [comparisonSites, comparedSites_unwalked]
    | _ => rfl
  | true =>
    rw [if_pos rfl]
    cases op with
    | eq | neq =>
      simp [Hooks.comparison, Hooks.compared_sites, comparisonSites]
      congr 2
      · exact comparedSites_compared h s b (by simp) rfl
      · exact comparedSites_compared h s a (by simp) (by simp)
    | _ => simp [Hooks.comparison, comparisonSites]

/-- A membership test keeps its places, rewritten. -/
theorem in_sites_rewrite (w : Bool) (s : Scope) (e : Expr) (values : List PropertyValue)
    (he : (e.rewrite walks h (w && walks .operand)).sites everywhere true (h.scope s) =
      (e.sites walks (w && walks .operand) s).map (h.site walks)) :
    ((Expr.in_ e values).rewrite walks h w).sites everywhere true (h.scope s) =
      ((Expr.in_ e values).sites walks w s).map (h.site walks) := by
  rw [Expr.rewrite, Expr.sites, map_append, ← he]
  have hr := @Expr.propertyRef_rewrite walks h (w && walks .operand) e
  cases w with
  | false =>
    rw [if_neg Bool.false_ne_true, Expr.sites]
    congr 1
    simp only [memberSites, hr]
    cases e.propertyRef <;> rfl
  | true =>
    rw [if_pos rfl, Hooks.in_]
    cases hp : e.propertyRef with
    | none =>
      simp only [hr, hp, Option.map_none, Expr.sites, memberSites, map_nil]
      rfl
    | some r =>
      simp only [hr, hp, Option.map_some, Expr.sites, memberSites]
      rfl

theorem valueSites_rewrite (w : Bool) (s : Scope) (o : Owner) (p : PropertyKey) (w' : Bool)
    (e : Expr) :
    valueSites true (h.scope s) (h.owner o) (h.key w o p)
        (if w then h.value o (h.key w o p) (e.rewrite walks h w') else e.rewrite walks h w') =
      (valueSites w s o p e).map (h.site walks) := by
  have hc := @Expr.code_rewrite walks h w' e
  cases w with
  | false =>
    rw [if_neg Bool.false_ne_true]
    simp [valueSites, hc]
    cases e.code <;> rfl
  | true =>
    rw [if_pos rfl]
    simp [valueSites, Hooks.value, hc]
    cases hv : e.code with
    | none => simp [hc, hv]
    | some code => rfl

mutual
theorem Expr.sites_rewrite (w : Bool) (s : Scope) :
    (e : Expr) →
      (e.rewrite walks h w).sites everywhere true (h.scope s) =
        (e.sites walks w s).map (h.site walks)
  | .literal v => by simp
  | .param n => by simp
  | .property v none => by simp
  | .property v (some p) => by
    simp
    rfl
  | .comparison a op b =>
    comparison_sites_rewrite h w s a b op (a.sites_rewrite w s) (b.sites_rewrite w s)
  | .logical a op b => by simp [a.sites_rewrite w s, b.sites_rewrite w s]
  | .not e => by simp [e.sites_rewrite w s]
  | .in_ e values => in_sites_rewrite h w s e values (e.sites_rewrite (w && walks .operand) s)
  | .isNull e n => by simp [e.sites_rewrite _ s]
  | .stringOp a op b => by simp [a.sites_rewrite _ s, b.sites_rewrite _ s]
  | .functionCall f es => by simp [Expr.sites_list _ s es]
  | .exists_ p => by
    simp
    exact p.sites_rewrite _ _
  | .case_ o cs e => by
    simp [Expr.sites_option _ s o, WhenClause.sites_list _ s cs,
      Expr.sites_option _ s e]
  | .subquery q imports => by
    simp
    exact q.sites_rewrite _ _

theorem Expr.sites_list (w : Bool) (s : Scope) :
    (es : List Expr) →
      Expr.sitesList everywhere true (h.scope s) (Expr.rewriteList walks h w es) =
        (Expr.sitesList walks w s es).map (h.site walks)
  | [] => by simp
  | e :: es => by simp [e.sites_rewrite w s, Expr.sites_list w s es]

theorem Expr.sites_option (w : Bool) (s : Scope) :
    (e : Option Expr) →
      Expr.sitesOption everywhere true (h.scope s) (Expr.rewriteOption walks h w e) =
        (Expr.sitesOption walks w s e).map (h.site walks)
  | none => by simp
  | some e => by simp [e.sites_rewrite w s]

theorem WhenClause.sites_list (w : Bool) (s : Scope) :
    (cs : List WhenClause) →
      WhenClause.sitesList everywhere true (h.scope s) (WhenClause.rewriteList walks h w cs) =
        (WhenClause.sitesList walks w s cs).map (h.site walks)
  | [] => by simp
  | ⟨c, r⟩ :: cs => by
    simp [c.sites_rewrite w s, r.sites_rewrite w s, WhenClause.sites_list w s cs]

theorem PropertyFilter.sites_list (w : Bool) (s : Scope) (o : Owner) :
    (fs : List PropertyFilter) →
      PropertyFilter.sitesList everywhere true (h.scope s) (h.owner o)
          (PropertyFilter.rewriteList walks h w o fs) =
        (PropertyFilter.sitesList walks w s o fs).map (h.site walks)
  | [] => by simp
  | ⟨p, e⟩ :: fs => by
    simp only [PropertyFilter.rewriteList, PropertyFilter.sitesList, map_append,
      map_cons, valueSites_rewrite, PropertyFilter.sites_list w s o fs]
    have he := e.sites_rewrite (w && walks .filterValue) s
    cases w with
    | false => rw [if_neg Bool.false_ne_true, ← he]; rfl
    | true => rw [if_pos rfl, Hooks.value_sites, ← he]; rfl

theorem GraphPattern.sites_rewrite (w : Bool) (s : Scope) :
    (p : GraphPattern) →
      (p.rewrite walks h w).sites everywhere true (h.scope s) =
        (p.sites walks w s).map (h.site walks)
  | .node v l fs => by simp [← nodeLabelSites_rewrite, ← PropertyFilter.sites_list w s _ fs]
  | .relationship v l a b d fs vl => by
    simp [← edgeLabelSites_rewrite, ← PropertyFilter.sites_list w s _ fs]
  | .path xs => by simp [flatMap_map, map_flatMap, @PathElement.sites_rewrite walks]

theorem GraphPattern.sites_list (w : Bool) (s : Scope) :
    (ps : List GraphPattern) →
      GraphPattern.sitesList everywhere true (h.scope s) (GraphPattern.rewriteList walks h w ps) =
        (GraphPattern.sitesList walks w s ps).map (h.site walks)
  | [] => by simp
  | p :: ps => by simp [p.sites_rewrite w s, GraphPattern.sites_list w s ps]

theorem Projection.sites_rewrite (w : Bool) (s : Scope) :
    (p : Projection) →
      (p.rewrite walks h w).sites everywhere true (h.scope s) =
        (p.sites walks w s).map (h.site walks)
  | .field v p a => by
    simp
    rfl
  | .variable_ v a => by simp
  | .allProperties v => by simp
  | .expression e a => by simp [e.sites_rewrite w s]
  | .aggregation f p a d => by simp [Projection.sites_option w s p]

theorem Projection.sites_option (w : Bool) (s : Scope) :
    (p : Option Projection) →
      Projection.sitesOption everywhere true (h.scope s)
          (Projection.rewriteOption walks h w p) =
        (Projection.sitesOption walks w s p).map (h.site walks)
  | none => by simp
  | some p => by simp [p.sites_rewrite w s]

theorem Projection.sites_list (w : Bool) (s : Scope) :
    (ps : List Projection) →
      Projection.sitesList everywhere true (h.scope s) (Projection.rewriteList walks h w ps) =
        (Projection.sitesList walks w s ps).map (h.site walks)
  | [] => by simp
  | p :: ps => by simp [p.sites_rewrite w s, Projection.sites_list w s ps]

theorem NodeRef.sites_rewrite (w : Bool) (s : Scope) :
    (n : NodeRef) →
      (n.rewrite walks h w).sites everywhere true (h.scope s) =
        (n.sites walks w s).map (h.site walks)
  | ⟨v, l, fs⟩ => by simp [← nodeLabelSites_rewrite, ← PropertyFilter.sites_list w s _ fs]

theorem AnalyticsSource.sites_rewrite (w : Bool) (s : Scope) :
    (a : AnalyticsSource) →
      (a.rewrite walks h w).sites everywhere true (h.scope s) =
        (a.sites walks w s).map (h.site walks)
  | .wholeGraph => by simp
  | .labels ls => by
    simp only [AnalyticsSource.rewrite, AnalyticsSource.sites, map_map]
    rfl
  | .subgraph op => by
    simp only [AnalyticsSource.rewrite, AnalyticsSource.sites, op.sites_rewrite w s]

theorem AnalyticsParam.sites_list (w : Bool) (s : Scope) :
    (ps : List AnalyticsParam) →
      AnalyticsParam.sitesList everywhere true (h.scope s)
          (AnalyticsParam.rewriteList walks h w ps) =
        (AnalyticsParam.sitesList walks w s ps).map (h.site walks)
  | [] => by simp
  | ⟨n, e⟩ :: ps => by simp [e.sites_rewrite w s, AnalyticsParam.sites_list w s ps]

theorem QueryOp.sites_rewrite (w : Bool) (s : Scope) :
    (op : QueryOp) →
      (op.rewrite walks h w).sites everywhere true (h.scope s) =
        (op.sites walks w s).map (h.site walks)
  | .match_ ps f pr o g => by
    simp
    have hp := GraphPattern.sites_list w (ps.foldl (GraphPattern.bind w) s) ps
    have hf := Expr.sites_option w (ps.foldl (GraphPattern.bind w) s) f
    have hpr := Projection.sites_list (w && walks .output)
      (ps.foldl (GraphPattern.bind w) s) pr
    have hg := Projection.sites_list (w && walks .output)
      (ps.foldl (GraphPattern.bind w) s) g
    rw [← hp, ← hf, ← hpr, ← hg]
  | .pathFind ⟨v, l, fs⟩ ⟨v', l', fs'⟩ ls d m al => by
    have ha := NodeRef.sites_rewrite w ((s.bindNode w v l).bindNode w v' l') ⟨v, l, fs⟩
    have hb := NodeRef.sites_rewrite w ((s.bindNode w v l).bindNode w v' l') ⟨v', l', fs'⟩
    simp only [rewrite, sites, map_append, ← ha, ← hb, map_map,
      ← Hooks.scope_bindNode]
    rfl
  | .aggregate q g a hv => by
    simp only [rewrite, sites, map_append, q.sites_rewrite w s,
      QueryIR.scopeAfter_rewrite, ← Expr.sites_option w _ hv, flatMap_map,
      map_flatMap, ← FieldRef.sites_rewrite]
    rfl
  | .union qs all => by simp [QueryIR.sites_list w s qs]
  | .chain steps => by simp [ChainStep.sites_list w s steps]
  | .callSubquery q imports => by simp [q.sites_rewrite w _]
  | .mutate c ms r => by
    simp only [QueryOp.rewrite, QueryOp.sites, map_append, QueryOp.sites_option w s c,
      QueryOp.scopeAfterOption_rewrite, MutateOp.sites_list w _ ms,
      MutateOp.foldl_bind_rewrite, ← Projection.sites_list _ _ r]
    rfl
  | .analytics a src ps pr => by
    simp only [rewrite, sites, map_append, src.sites_rewrite w s,
      ← AnalyticsParam.sites_list _ s ps, ← Projection.sites_list _ s pr]
    rfl
  | .hybridSearch ⟨v, f, none, u, k⟩ => by simp only [rewrite, sites, map_nil]
  | .hybridSearch ⟨v, f, some c, u, k⟩ => by
    simp only [rewrite, sites, ← c.sites_rewrite _ s]
    rfl

theorem QueryOp.sites_option (w : Bool) (s : Scope) :
    (op : Option QueryOp) →
      sitesOption everywhere true (h.scope s) (rewriteOption walks h w op) =
        (sitesOption walks w s op).map (h.site walks)
  | none => by simp
  | some op => by simp [op.sites_rewrite w s]

/-- The places of a rewritten query are the places of the query, each rewritten
on its own. -/
theorem QueryIR.sites_rewrite (w : Bool) (s : Scope) :
    (q : QueryIR) →
      (q.rewrite walks h w).sites everywhere true (h.scope s) =
        (q.sites walks w s).map (h.site walks)
  | ⟨op, l, k, os, t⟩ => by
    simp only [QueryIR.rewrite, QueryIR.sites, map_append, op.sites_rewrite w s,
      scopeAfter_rewrite, ← OrderClause.sites_list _ _ os]
    rfl

theorem QueryIR.sites_list (w : Bool) (s : Scope) :
    (qs : List QueryIR) →
      QueryIR.sitesList everywhere true (h.scope s) (QueryIR.rewriteList walks h w qs) =
        (QueryIR.sitesList walks w s qs).map (h.site walks)
  | [] => by simp
  | q :: qs => by simp [q.sites_rewrite w s, QueryIR.sites_list w s qs]

theorem OrderClause.sites_list (w : Bool) (s : Scope) :
    (os : List OrderClause) →
      OrderClause.sitesList everywhere true (h.scope s) (OrderClause.rewriteList walks h w os) =
        (OrderClause.sitesList walks w s os).map (h.site walks)
  | [] => by simp
  | ⟨p, d⟩ :: os => by simp [p.sites_rewrite w s, OrderClause.sites_list w s os]

theorem ChainStep.sites_list (w : Bool) (s : Scope) :
    (steps : List ChainStep) →
      ChainStep.sitesList everywhere true (h.scope s) (ChainStep.rewriteList walks h w steps) =
        (ChainStep.sitesList walks w s steps).map (h.site walks)
  | [] => by simp
  | ⟨p, op⟩ :: steps => by
    simp only [ChainStep.rewriteList, ChainStep.sitesList, map_append,
      ← Projection.sites_list _ s p, op.sites_rewrite w s, scopeAfter_rewrite,
      ← ChainStep.sites_list w _ steps]
    rfl

theorem PropertyAssignment.sites_list (w : Bool) (s : Scope) (v : Option VariableName)
    (b : Binding) :
    (as : List PropertyAssignment) →
      sitesList everywhere true (h.scope s) v (h.bound ⟨b, w⟩).binding
          (rewriteList walks h w v b as) =
        (sitesList walks w s v b as).map (h.site walks)
  | [] => by simp
  | ⟨p, e⟩ :: as => by
    have ho : Owner.inline v (some ⟨(h.bound ⟨b, w⟩).binding, true⟩) =
        h.owner (.inline v (some ⟨b, w⟩)) := by
      cases b <;> rfl
    have he := e.sites_rewrite (w && walks (.assignmentValue b)) s
    simp only [PropertyAssignment.rewriteList, PropertyAssignment.sitesList, map_append, map_cons,
      ho, valueSites_rewrite, PropertyAssignment.sites_list w s v b as, ← he]
    cases w with
    | false => rw [if_neg Bool.false_ne_true]; rfl
    | true => rw [if_pos rfl, Hooks.value_sites]; rfl

theorem MutateOp.sites_rewrite (w : Bool) (s : Scope) :
    (m : MutateOp) →
      (m.rewrite walks h w).sites everywhere true (h.scope s) =
        (m.sites walks w s).map (h.site walks)
  | .createNode v l as | .createEdge v l a b as => by
    simp only [MutateOp.rewrite, MutateOp.sites, map_cons,
      ← PropertyAssignment.sites_list w s _ _ as]
    rfl
  | .mergeNode v l as bs cs | .mergeEdge v l a b as bs cs => by
    simp only [MutateOp.rewrite, MutateOp.sites, map_cons, map_append,
      ← PropertyAssignment.sites_list w s _ _ as,
      ← PropertyAssignment.sites_list w s _ _ bs,
      ← PropertyAssignment.sites_list w s _ _ cs]
    rfl
  | .setProperty v p e => by
    have hv := @valueSites_rewrite walks h w s (.var v) p (w && walks .setValue) e
    simp only [MutateOp.rewrite, MutateOp.sites, map_cons, map_append, ← hv,
      ← e.sites_rewrite (w && walks .setValue) s]
    cases w with
    | false => rw [if_neg Bool.false_ne_true]; rfl
    | true => rw [if_pos rfl, Hooks.value_sites]; rfl
  | .delete v d => by simp only [MutateOp.rewrite, MutateOp.sites, map_nil]
  | .removeProperty v p => by
    simp
    rfl
  | .removeLabel v l => by
    simp
    rfl

theorem MutateOp.sites_list (w : Bool) (s : Scope) :
    (ms : List MutateOp) →
      MutateOp.sitesList everywhere true (h.scope s) (MutateOp.rewriteList walks h w ms) =
        (MutateOp.sitesList walks w s ms).map (h.site walks)
  | [] => by simp
  | m :: ms => by simp [m.sites_rewrite w _, MutateOp.sites_list w _ ms]

theorem PatternIR.sites_rewrite (w : Bool) (s : Scope) :
    (c : PatternIR) →
      (c.rewrite walks h w).sites everywhere true (h.scope s) =
        (c.sites walks w s).map (h.site walks)
  | ⟨ns, es, fs, ps, l, k, os⟩ => by
    simp only [PatternIR.rewrite, PatternIR.sites, map_append, PatternNode.foldl_bind_rewrite,
      PatternEdge.foldl_bind_rewrite, PatternNode.sites_list w _ ns,
      PatternEdge.sites_list w _ es, ← PatternFilter.sites_list _ _ fs,
      ← PatternProjection.sites_list _ _ ps, ← OrderClause.sites_list _ _ os]
    rfl

theorem PatternNode.sites_list (w : Bool) (s : Scope) :
    (ns : List PatternNode) →
      PatternNode.sitesList everywhere true (h.scope s) (PatternNode.rewriteList walks h w ns) =
        (PatternNode.sitesList walks w s ns).map (h.site walks)
  | [] => by simp
  | ⟨id, v, l, fs⟩ :: ns => by
    simp only [PatternNode.rewriteList, PatternNode.sitesList, map_append,
      ← nodeLabelSites_rewrite, ← PropertyFilter.sites_list _ s _ fs,
      Hooks.owner_ofNode, PatternNode.sites_list w s ns]
    rfl

theorem PatternEdge.sites_list (w : Bool) (s : Scope) :
    (es : List PatternEdge) →
      PatternEdge.sitesList everywhere true (h.scope s) (PatternEdge.rewriteList walks h w es) =
        (PatternEdge.sitesList walks w s es).map (h.site walks)
  | [] => by simp
  | ⟨id, v, l, a, b, d, fs, vl⟩ :: es => by
    simp only [PatternEdge.rewriteList, PatternEdge.sitesList, map_append,
      ← edgeLabelSites_rewrite, ← PropertyFilter.sites_list _ s _ fs,
      Hooks.owner_ofEdge, PatternEdge.sites_list w s es]
    rfl

theorem PatternFilter.sites_list (w : Bool) (s : Scope) :
    (fs : List PatternFilter) →
      PatternFilter.sitesList everywhere true (h.scope s)
          (PatternFilter.rewriteList walks h w fs) =
        (PatternFilter.sitesList walks w s fs).map (h.site walks)
  | [] => by simp
  | ⟨id, e⟩ :: fs => by simp [e.sites_rewrite w s, PatternFilter.sites_list w s fs]

theorem PatternProjection.sites_list (w : Bool) (s : Scope) :
    (ps : List PatternProjection) →
      PatternProjection.sitesList everywhere true (h.scope s)
          (PatternProjection.rewriteList walks h w ps) =
        (PatternProjection.sitesList walks w s ps).map (h.site walks)
  | [] => by simp
  | ⟨id, p⟩ :: ps => by simp [p.sites_rewrite w s, PatternProjection.sites_list w s ps]
end

end

/-! ## Where a pass does nothing -/

/-- A pass that renames nothing and rewrites no literal. -/
structure Hooks.Identity (h : Hooks) : Prop where
  nodeLabel : h.nodeLabel = id
  edgeLabel : h.edgeLabel = id
  property : ∀ o, h.property o = id
  literal : ∀ o p, h.literal o p = id
  members : ∀ o p, h.members o p = id

/-- A pass does nothing at a place that it does not walk, and nowhere when it is
the identity. -/
def Hooks.Inert (h : Hooks) (w : Bool) : Prop := w = false ∨ h.Identity

section

variable {walks : Step → Bool} {h : Hooks}

@[simp] theorem Hooks.inert_false (h : Hooks) : h.Inert false := inl rfl

theorem Hooks.Inert.and (hi : h.Inert w) (b : Bool) : h.Inert (w && b) := by
  rcases hi with rfl | hi
  · exact inl (Bool.false_and b)
  · exact inr hi

theorem Hooks.Inert.nodeLabel (hi : h.Inert w) : Hooks.label w h.nodeLabel = id := by
  funext l
  rcases hi with rfl | hi
  · rfl
  · rw [Hooks.label, hi.nodeLabel]
    exact ite_self l

theorem Hooks.Inert.edgeLabel (hi : h.Inert w) : Hooks.label w h.edgeLabel = id := by
  funext l
  rcases hi with rfl | hi
  · rfl
  · rw [Hooks.label, hi.edgeLabel]
    exact ite_self l

theorem Hooks.Inert.key (hi : h.Inert w) (o : Owner) : h.key w o = id := by
  funext p
  rcases hi with rfl | hi
  · rfl
  · rw [Hooks.key, hi.property]
    exact ite_self p

theorem Expr.eq_literal_of_code {e : Expr} {code : String} (he : e.code = some code) :
    e = .literal (.string code) := by
  cases e with
  | literal v => cases v <;> cases he; rfl
  | _ => cases he

theorem Hooks.Identity.compared (hi : h.Identity) (a b : Expr) : h.compared a b = b := by
  unfold Hooks.compared
  split
  · rename_i hc
    rw [hi.literal, Expr.eq_literal_of_code hc]
    rfl
  · rfl

theorem Hooks.Inert.comparison (hi : h.Inert w) (a : Expr) (op : ComparisonOp) (b : Expr) :
    (if w then h.comparison a op b else .comparison a op b) = .comparison a op b := by
  rcases hi with rfl | hi
  · rfl
  · cases op <;> simp [Hooks.comparison, hi.compared]

theorem Hooks.Inert.in_ (hi : h.Inert w) (e : Expr) (values : List PropertyValue) :
    (if w then h.in_ e values else .in_ e values) = .in_ e values := by
  rcases hi with rfl | hi
  · rfl
  · have hm : h.in_ e values = .in_ e values := by
      unfold Hooks.in_
      split
      · rw [hi.members]
        rfl
      · rfl
    rw [hm]
    exact ite_self _

theorem Hooks.Inert.value (hi : h.Inert w) (o : Owner) (p : PropertyKey) (e : Expr) :
    (if w then h.value o p e else e) = e := by
  rcases hi with rfl | hi
  · rfl
  · have hv : h.value o p e = e := by
      unfold Hooks.value
      split
      · rename_i hc
        rw [hi.literal, Expr.eq_literal_of_code hc]
        rfl
      · rfl
    rw [hv]
    exact ite_self _

theorem PathElement.rewrite_inert (hi : h.Inert w) : PathElement.rewrite h w = id := by
  funext x
  cases x <;> simp [PathElement.rewrite, hi.nodeLabel, hi.edgeLabel]

theorem FieldRef.rewrite_inert (hi : h.Inert w) : FieldRef.rewrite h w = id := by
  funext f
  simp [FieldRef.rewrite, hi.key]

theorem AggregationExpr.rewrite_inert (hi : h.Inert w) : AggregationExpr.rewrite h w = id := by
  funext a
  simp [AggregationExpr.rewrite, FieldRef.rewrite_inert hi]

attribute [local simp] AnalyticsParam.rewriteList AnalyticsSource.rewrite ChainStep.rewriteList
  Expr.rewrite Expr.rewriteList Expr.rewriteOption GraphPattern.rewrite GraphPattern.rewriteList
  MutateOp.rewrite MutateOp.rewriteList NodeRef.rewrite OrderClause.rewriteList
  PatternEdge.rewriteList PatternFilter.rewriteList PatternIR.rewrite PatternNode.rewriteList
  PatternProjection.rewriteList Projection.rewrite Projection.rewriteList Projection.rewriteOption
  rewriteList PropertyFilter.rewriteList QueryIR.rewrite QueryIR.rewriteList
  rewrite rewriteOption WhenClause.rewriteList

mutual
theorem Expr.rewrite_inert {w : Bool} (hi : h.Inert w) : (e : Expr) → e.rewrite walks h w = e
  | .literal v | .param n => by simp
  | .property v p => by simp [hi.key]
  | .comparison a op b => by simp [hi.comparison, a.rewrite_inert hi, b.rewrite_inert hi]
  | .logical a op b => by simp [a.rewrite_inert hi, b.rewrite_inert hi]
  | .not e => by simp [e.rewrite_inert hi]
  | .in_ e vs => by simp [hi.in_, e.rewrite_inert (hi.and _)]
  | .isNull e n => by simp [e.rewrite_inert (hi.and _)]
  | .stringOp a op b => by simp [a.rewrite_inert (hi.and _), b.rewrite_inert (hi.and _)]
  | .functionCall f es => by simp [Expr.list_inert (hi.and _) es]
  | .exists_ p => by simp [p.rewrite_inert (hi.and _)]
  | .case_ o cs e => by
    simp [Expr.option_inert (hi.and _) o, WhenClause.list_inert (hi.and _) cs,
      Expr.option_inert (hi.and _) e]
  | .subquery q imports => by simp [q.rewrite_inert (hi.and _)]

theorem Expr.list_inert {w : Bool} (hi : h.Inert w) :
    (es : List Expr) → Expr.rewriteList walks h w es = es
  | [] => by simp
  | e :: es => by simp [e.rewrite_inert hi, Expr.list_inert hi es]

theorem Expr.option_inert {w : Bool} (hi : h.Inert w) :
    (e : Option Expr) → Expr.rewriteOption walks h w e = e
  | none => by simp
  | some e => by simp [e.rewrite_inert hi]

theorem WhenClause.list_inert {w : Bool} (hi : h.Inert w) :
    (cs : List WhenClause) → WhenClause.rewriteList walks h w cs = cs
  | [] => by simp
  | ⟨c, r⟩ :: cs => by
    simp [c.rewrite_inert hi, r.rewrite_inert hi, WhenClause.list_inert hi cs]

theorem PropertyFilter.list_inert {w : Bool} (hi : h.Inert w) (o : Owner) :
    (fs : List PropertyFilter) → PropertyFilter.rewriteList walks h w o fs = fs
  | [] => by simp
  | ⟨p, e⟩ :: fs => by
    simp [hi.key, hi.value, e.rewrite_inert (hi.and _), PropertyFilter.list_inert hi o fs]

theorem GraphPattern.rewrite_inert {w : Bool} (hi : h.Inert w) :
    (p : GraphPattern) → p.rewrite walks h w = p
  | .node v l fs => by simp [hi.nodeLabel, PropertyFilter.list_inert hi _ fs]
  | .relationship v l a b d fs vl => by
    simp [hi.edgeLabel, PropertyFilter.list_inert hi _ fs]
  | .path xs => by simp [PathElement.rewrite_inert hi]

theorem GraphPattern.list_inert {w : Bool} (hi : h.Inert w) :
    (ps : List GraphPattern) → GraphPattern.rewriteList walks h w ps = ps
  | [] => by simp
  | p :: ps => by simp [p.rewrite_inert hi, GraphPattern.list_inert hi ps]

theorem Projection.rewrite_inert {w : Bool} (hi : h.Inert w) :
    (p : Projection) → p.rewrite walks h w = p
  | .field v p a => by simp [hi.key]
  | .variable_ v a => by simp
  | .allProperties v => by simp
  | .expression e a => by simp [e.rewrite_inert hi]
  | .aggregation f p a d => by simp [Projection.option_inert hi p]

theorem Projection.option_inert {w : Bool} (hi : h.Inert w) :
    (p : Option Projection) → Projection.rewriteOption walks h w p = p
  | none => by simp
  | some p => by simp [p.rewrite_inert hi]

theorem Projection.list_inert {w : Bool} (hi : h.Inert w) :
    (ps : List Projection) → Projection.rewriteList walks h w ps = ps
  | [] => by simp
  | p :: ps => by simp [p.rewrite_inert hi, Projection.list_inert hi ps]

theorem NodeRef.rewrite_inert {w : Bool} (hi : h.Inert w) : (n : NodeRef) → n.rewrite walks h w = n
  | ⟨v, l, fs⟩ => by simp [hi.nodeLabel, PropertyFilter.list_inert hi _ fs]

theorem AnalyticsSource.rewrite_inert {w : Bool} (hi : h.Inert w) :
    (a : AnalyticsSource) → a.rewrite walks h w = a
  | .wholeGraph => by simp
  | .labels ls => by simp [hi.nodeLabel]
  | .subgraph op => by simp [op.rewrite_inert hi]

theorem AnalyticsParam.list_inert {w : Bool} (hi : h.Inert w) :
    (ps : List AnalyticsParam) → AnalyticsParam.rewriteList walks h w ps = ps
  | [] => by simp
  | ⟨n, e⟩ :: ps => by simp [e.rewrite_inert hi, AnalyticsParam.list_inert hi ps]

theorem QueryOp.rewrite_inert {w : Bool} (hi : h.Inert w) :
    (op : QueryOp) → op.rewrite walks h w = op
  | .match_ ps f pr o g => by
    simp [GraphPattern.list_inert hi ps, Expr.option_inert hi f,
      Projection.list_inert (hi.and _) pr, Projection.list_inert (hi.and _) g]
  | .pathFind a b ls d m al => by simp [a.rewrite_inert hi, b.rewrite_inert hi, hi.edgeLabel]
  | .aggregate q g a hv => by
    simp [q.rewrite_inert hi, FieldRef.rewrite_inert (hi.and _),
      AggregationExpr.rewrite_inert (hi.and _), Expr.option_inert hi hv]
  | .union qs all => by simp [QueryIR.list_inert hi qs]
  | .chain steps => by simp [ChainStep.list_inert hi steps]
  | .callSubquery q imports => by simp [q.rewrite_inert hi]
  | .mutate c ms r => by
    simp [QueryOp.option_inert hi c, MutateOp.list_inert hi ms,
      Projection.list_inert (hi.and _) r]
  | .analytics a src ps pr => by
    simp [src.rewrite_inert hi, AnalyticsParam.list_inert (hi.and _) ps,
      Projection.list_inert (hi.and _) pr]
  | .hybridSearch ⟨v, f, none, u, k⟩ => by simp
  | .hybridSearch ⟨v, f, some c, u, k⟩ => by simp [c.rewrite_inert (hi.and _)]

theorem QueryOp.option_inert {w : Bool} (hi : h.Inert w) :
    (op : Option QueryOp) → rewriteOption walks h w op = op
  | none => by simp
  | some op => by simp [op.rewrite_inert hi]

/-- A query that a pass does not walk is left as it is, and so is every query by
the identity. -/
theorem QueryIR.rewrite_inert {w : Bool} (hi : h.Inert w) : (q : QueryIR) → q.rewrite walks h w = q
  | ⟨op, l, k, os, t⟩ => by simp [op.rewrite_inert hi, OrderClause.list_inert (hi.and _) os]

theorem QueryIR.list_inert {w : Bool} (hi : h.Inert w) :
    (qs : List QueryIR) → QueryIR.rewriteList walks h w qs = qs
  | [] => by simp
  | q :: qs => by simp [q.rewrite_inert hi, QueryIR.list_inert hi qs]

theorem OrderClause.list_inert {w : Bool} (hi : h.Inert w) :
    (os : List OrderClause) → OrderClause.rewriteList walks h w os = os
  | [] => by simp
  | ⟨p, d⟩ :: os => by simp [p.rewrite_inert hi, OrderClause.list_inert hi os]

theorem ChainStep.list_inert {w : Bool} (hi : h.Inert w) :
    (steps : List ChainStep) → ChainStep.rewriteList walks h w steps = steps
  | [] => by simp
  | ⟨p, op⟩ :: steps => by
    simp [Projection.list_inert (hi.and _) p, op.rewrite_inert hi,
      ChainStep.list_inert hi steps]

theorem PropertyAssignment.list_inert {w : Bool} (hi : h.Inert w) (v : Option VariableName)
    (b : Binding) :
    (as : List PropertyAssignment) → PropertyAssignment.rewriteList walks h w v b as = as
  | [] => by simp
  | ⟨p, e⟩ :: as => by
    simp [hi.key, hi.value, e.rewrite_inert (hi.and _),
      PropertyAssignment.list_inert hi v b as]

theorem MutateOp.rewrite_inert {w : Bool} (hi : h.Inert w) :
    (m : MutateOp) → m.rewrite walks h w = m
  | .createNode v l as => by simp [hi.nodeLabel, PropertyAssignment.list_inert hi _ _ as]
  | .createEdge v l a b as => by simp [hi.edgeLabel, PropertyAssignment.list_inert hi _ _ as]
  | .mergeNode v l as bs cs => by
    simp [hi.nodeLabel, PropertyAssignment.list_inert hi _ _ as,
      PropertyAssignment.list_inert hi _ _ bs,
      PropertyAssignment.list_inert hi _ _ cs]
  | .mergeEdge v l a b as bs cs => by
    simp [hi.edgeLabel, PropertyAssignment.list_inert hi _ _ as,
      PropertyAssignment.list_inert hi _ _ bs,
      PropertyAssignment.list_inert hi _ _ cs]
  | .setProperty v p e => by simp [hi.key, hi.value, e.rewrite_inert (hi.and _)]
  | .delete v d => by simp
  | .removeProperty v p => by simp [hi.key]
  | .removeLabel v l => by simp [hi.nodeLabel]

theorem MutateOp.list_inert {w : Bool} (hi : h.Inert w) :
    (ms : List MutateOp) → MutateOp.rewriteList walks h w ms = ms
  | [] => by simp
  | m :: ms => by simp [m.rewrite_inert hi, MutateOp.list_inert hi ms]

theorem PatternIR.rewrite_inert {w : Bool} (hi : h.Inert w) :
    (c : PatternIR) → c.rewrite walks h w = c
  | ⟨ns, es, fs, ps, l, k, os⟩ => by
    simp [PatternNode.list_inert hi ns, PatternEdge.list_inert hi es,
      PatternFilter.list_inert (hi.and _) fs,
      PatternProjection.list_inert (hi.and _) ps, OrderClause.list_inert (hi.and _) os]

theorem PatternNode.list_inert {w : Bool} (hi : h.Inert w) :
    (ns : List PatternNode) → PatternNode.rewriteList walks h w ns = ns
  | [] => by simp
  | ⟨id, v, l, fs⟩ :: ns => by
    simp [hi.nodeLabel, PropertyFilter.list_inert (hi.and _) _ fs,
      PatternNode.list_inert hi ns]

theorem PatternEdge.list_inert {w : Bool} (hi : h.Inert w) :
    (es : List PatternEdge) → PatternEdge.rewriteList walks h w es = es
  | [] => by simp
  | ⟨id, v, l, a, b, d, fs, vl⟩ :: es => by
    simp [hi.edgeLabel, PropertyFilter.list_inert (hi.and _) _ fs,
      PatternEdge.list_inert hi es]

theorem PatternFilter.list_inert {w : Bool} (hi : h.Inert w) :
    (fs : List PatternFilter) → PatternFilter.rewriteList walks h w fs = fs
  | [] => by simp
  | ⟨id, e⟩ :: fs => by simp [e.rewrite_inert hi, PatternFilter.list_inert hi fs]

theorem PatternProjection.list_inert {w : Bool} (hi : h.Inert w) :
    (ps : List PatternProjection) → PatternProjection.rewriteList walks h w ps = ps
  | [] => by simp
  | ⟨id, p⟩ :: ps => by simp [p.rewrite_inert hi, PatternProjection.list_inert hi ps]
end

/-- The pass that does nothing. -/
theorem Hooks.identity_default : Hooks.Identity {} :=
  ⟨rfl, rfl, fun _ => rfl, fun _ _ => rfl, fun _ _ => rfl⟩

theorem Hooks.lookup_scope (h : Hooks) (s : Scope) (v : VariableName) :
    (h.scope s).lookup v = (s.lookup v).map h.bound := by
  rw [Hooks.scope, Scope.lookup, Scope.lookup, find?_map]
  simp only [Option.map_map, Function.comp_def]

theorem Hooks.bound_owner (h : Hooks) (s : Scope) (owner : Owner) :
    (h.owner owner).bound (h.scope s) = (owner.bound s).map h.bound := by
  cases owner with
  | var v => exact h.lookup_scope s v
  | inline v b =>
    cases b with
    | some b => rfl
    | none =>
      cases v with
      | some v => exact h.lookup_scope s v
      | none => rfl

/-- The pass that does nothing leaves the bindings. -/
theorem Owner.binding_default (s : Scope) (owner : Owner) :
    (Hooks.owner {} owner).binding (Hooks.scope {} s) = owner.binding s := by
  rw [Owner.binding, Owner.binding, Hooks.bound_owner, Option.map_map]
  congr 1
  funext b
  obtain ⟨b, w⟩ := b
  cases b <;> exact congrArg _ (ite_self _)

/-- The places of a query are the same for every walk, up to the marks. -/
theorem QueryIR.sites_everywhere (walks : Step → Bool) (q : QueryIR) :
    q.sites everywhere true [] = (q.sites walks true []).map (Hooks.site {} walks) := by
  have h := @QueryIR.sites_rewrite walks {} true [] q
  rw [QueryIR.rewrite_inert (inr Hooks.identity_default)] at h
  exact h

end

end Ontosyx.Query
