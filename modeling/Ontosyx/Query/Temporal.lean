import Ontosyx.Ontology.IR
import Ontosyx.Query.Pass

/-!
# Temporal rewriting

The rewriter that turns a query authored against the current ontology into one
that reads a past snapshot (`temporal.rs`): the rename tables, found by comparing
the two ontologies type id by type id, the table of the types that the query's
variables are bound to, and the walk that applies the renames.

A table of the source is a list of entries in the order in which they are
inserted; a lookup finds the last entry of its key.  The walk returns a `Result`
in the source, but no arm of it fails, so it is a plain function here.

## Main results

* `QueryOp.applyRenames_eq` — the walk is the pass that renames labels
  and property names at the places `temporalWalks`.
* `temporalRenames_ok_iff` — when the call succeeds, and with what.
-/

namespace Ontosyx.Query

open Ontosyx.Core Ontology Lib.Keyed Option QueryOp PropertyAssignment

/-! ## Tables -/

/-- Lookup in a table: the last entry inserted under the key. -/
def tableGet {κ β : Type} [DecidableEq κ] (table : List (κ × β)) (k : κ) : Option β :=
  (last Prod.fst k table).map Prod.snd

theorem get_eq_getLast? {κ ν : Type} [DecidableEq κ] (table : List (κ × ν)) (k : κ) :
    tableGet table k = ((table.filter (·.1 = k)).map Prod.snd).getLast? := by
  rw [tableGet, last, List.getLast?_map, ← List.head?_reverse, ← List.filter_reverse,
    List.head?_filter]

/-- The type that a variable is bound to. -/
inductive OwnerRef where
  | node (id : NodeTypeId)
  | edge (id : EdgeTypeId)
deriving DecidableEq

/-- `current_label → snapshot_label`. -/
abbrev LabelRenames := List (GraphLabel × GraphLabel)

abbrev NodePropRenames := List ((NodeTypeId × PropertyKey) × PropertyKey)

abbrev EdgePropRenames := List ((EdgeTypeId × PropertyKey) × PropertyKey)

/-- The types of the query's variables. -/
abbrev VarTypes := List (VariableName × OwnerRef)

/-- Why a temporal rewrite is refused. -/
inductive TemporalError where
  | predatesValidFrom (asOf from_ : DateTime)
  | pastValidTo (asOf to_ : DateTime)
  | ambiguousNodeRename (label first second : GraphLabel)
  | ambiguousEdgeRename (label first second : GraphLabel)
deriving DecidableEq

def TemporalError.field : TemporalError → String
  | .predatesValidFrom _ _ | .pastValidTo _ _ => "as_of"
  | .ambiguousNodeRename _ _ _ => "node_rename"
  | .ambiguousEdgeRename _ _ _ => "edge_rename"

/-! ## Rename tables -/

/-- The loop of `diff_node_labels` and `diff_edge_labels`: record the types whose
snapshot label differs, and refuse a label that was recorded with another one. -/
def diffLabels {ι ε : Type} (err : GraphLabel → GraphLabel → GraphLabel → ε)
    (snapshotById : ι → Option GraphLabel) (map : LabelRenames) :
    List (ι × GraphLabel) → Except ε LabelRenames
  | [] => .ok map
  | (id, label) :: types =>
    match snapshotById id with
    | none => diffLabels err snapshotById map types
    | some snap =>
      if snap = label then diffLabels err snapshotById map types
      else
        match tableGet map label with
        | some existing =>
          if existing = snap then
            diffLabels err snapshotById (map ++ [(label, snap)]) types
          else .error (err label existing snap)
        | none => diffLabels err snapshotById (map ++ [(label, snap)]) types

/-- The label of a node type in an ontology, as the map built from all its node
types has it. -/
def nodeLabelById (o : OntologyIR) (id : NodeTypeId) : Option GraphLabel :=
  (last NodeTypeDef.id id o.nodeTypes).map (·.label)

def edgeLabelById (o : OntologyIR) (id : EdgeTypeId) : Option GraphLabel :=
  (last EdgeTypeDef.id id o.edgeTypes).map (·.label)

def diffNodeLabels (current snapshot : OntologyIR) : Except TemporalError LabelRenames :=
  diffLabels .ambiguousNodeRename (nodeLabelById snapshot) []
    (current.nodeTypes.map fun n => (n.id, n.label))

def diffEdgeLabels (current snapshot : OntologyIR) : Except TemporalError LabelRenames :=
  diffLabels .ambiguousEdgeRename (edgeLabelById snapshot) []
    (current.edgeTypes.map fun e => (e.id, e.label))

/-- The properties of one type that carry another name in the snapshot. -/
def diffProperties (current snapshot : List PropertyDef) : List (PropertyKey × PropertyKey) :=
  current.filterMap fun p =>
    match snapshot.find? (·.id = p.id) with
    | some q => if q.name ≠ p.name then some (p.name, q.name) else none
    | none => none

def diffNodePropertyRenames (current snapshot : OntologyIR) : NodePropRenames :=
  current.nodeTypes.flatMap fun n =>
    match snapshot.nodeById n.id with
    | some m => (diffProperties n.properties m.properties).map fun r => ((n.id, r.1), r.2)
    | none => []

def diffEdgePropertyRenames (current snapshot : OntologyIR) : EdgePropRenames :=
  current.edgeTypes.flatMap fun e =>
    match snapshot.edgeById e.id with
    | some f => (diffProperties e.properties f.properties).map fun r => ((e.id, r.1), r.2)
    | none => []

/-! ## The types of the variables -/

/-- `edge_by_label`: the first edge type with the label. -/
def edgeByLabel (o : OntologyIR) (label : GraphLabel) : Option EdgeTypeDef :=
  o.edgeTypes.find? (·.label = label)

section

variable (current : OntologyIR)

def bindNodeVar (map : VarTypes) (v : VariableName) (label : Option GraphLabel) : VarTypes :=
  match label.bind current.nodeByLabel with
  | some n => map ++ [(v, .node n.id)]
  | none => map

def bindEdgeVar (map : VarTypes) (v : VariableName) (label : GraphLabel) : VarTypes :=
  match edgeByLabel current label with
  | some e => map ++ [(v, .edge e.id)]
  | none => map

def PathElement.collectVars (map : VarTypes) : PathElement → VarTypes
  | .node v label => bindNodeVar current map v label
  | .edge (some v) (some l) _ => bindEdgeVar current map v l
  | .edge _ _ _ => map

def GraphPattern.collectVars (map : VarTypes) : GraphPattern → VarTypes
  | .node v label _ => bindNodeVar current map v label
  | .relationship (some v) (some l) _ _ _ _ _ => bindEdgeVar current map v l
  | .relationship _ _ _ _ _ _ _ => map
  | .path elements => elements.foldl (PathElement.collectVars current) map

def MutateOp.collectVars (map : VarTypes) : MutateOp → VarTypes
  | .createNode v label _ | .mergeNode v label _ _ _ => bindNodeVar current map v (some label)
  | .createEdge (some v) label _ _ _ | .mergeEdge (some v) label _ _ _ _ _ =>
    bindEdgeVar current map v label
  | _ => map

mutual
def QueryOp.collectVariableOwners (map : VarTypes) : QueryOp → VarTypes
  | .match_ patterns filter _ _ _ =>
    Expr.collectVarsOption (patterns.foldl (GraphPattern.collectVars current) map) filter
  | .pathFind start end_ _ _ _ _ =>
    bindNodeVar current (bindNodeVar current map start.var start.label) end_.var end_.label
  | .aggregate source _ _ having =>
    Expr.collectVarsOption (source.collectVariableOwners map) having
  | .union queries _ => QueryIR.collectVariableOwnersList map queries
  | .chain steps => ChainStep.collectVariableOwnersList map steps
  | .callSubquery inner _ => inner.collectVariableOwners map
  | .mutate context operations _ =>
    operations.foldl (MutateOp.collectVars current)
      (QueryOp.collectVariableOwnersOption map context)
  | .analytics _ (.subgraph filter) _ _ => filter.collectVariableOwners map
  | .analytics _ _ _ _ | .hybridSearch _ => map

def QueryOp.collectVariableOwnersOption (map : VarTypes) : Option QueryOp → VarTypes
  | none => map
  | some op => op.collectVariableOwners map

def QueryIR.collectVariableOwners (map : VarTypes) : QueryIR → VarTypes
  | ⟨operation, _, _, _, _⟩ => operation.collectVariableOwners map

def QueryIR.collectVariableOwnersList (map : VarTypes) : List QueryIR → VarTypes
  | [] => map
  | q :: qs => QueryIR.collectVariableOwnersList (q.collectVariableOwners map) qs

def ChainStep.collectVariableOwnersList (map : VarTypes) : List ChainStep → VarTypes
  | [] => map
  | ⟨_, operation⟩ :: steps =>
    ChainStep.collectVariableOwnersList (operation.collectVariableOwners map) steps

/-- `collect_expr_vars`. -/
def Expr.collectVars (map : VarTypes) : Expr → VarTypes
  | .comparison left _ right | .logical left _ right | .stringOp left _ right =>
    right.collectVars (left.collectVars map)
  | .not inner => inner.collectVars map
  | .in_ expr _ | .isNull expr _ => expr.collectVars map
  | .functionCall _ args => Expr.collectVarsList map args
  | .exists_ pattern => pattern.collectVars current map
  | .case_ operand whenClauses elseResult =>
    Expr.collectVarsOption
      (WhenClause.collectVarsList (Expr.collectVarsOption map operand) whenClauses) elseResult
  | .subquery query _ => query.collectVariableOwners map
  | .literal _ | .param _ | .property _ _ => map

def Expr.collectVarsList (map : VarTypes) : List Expr → VarTypes
  | [] => map
  | e :: es => Expr.collectVarsList (e.collectVars map) es

def Expr.collectVarsOption (map : VarTypes) : Option Expr → VarTypes
  | none => map
  | some e => e.collectVars map

def WhenClause.collectVarsList (map : VarTypes) : List WhenClause → VarTypes
  | [] => map
  | ⟨condition, result⟩ :: cs =>
    WhenClause.collectVarsList (result.collectVars (condition.collectVars map)) cs
end

end

/-! ## Applying the renames -/

/-- The rename tables with the context they are read in. -/
structure RenameCtx where
  current : OntologyIR
  nodeLabels : LabelRenames
  edgeLabels : LabelRenames
  nodeProps : NodePropRenames
  edgeProps : EdgePropRenames
  varTypes : VarTypes

def swapIfRenamed (map : LabelRenames) (label : GraphLabel) : GraphLabel :=
  (tableGet map label).getD label

/-- A property name of a type, renamed if the table has it. -/
def renameProperty {ι : Type} [DecidableEq ι] (map : List ((ι × PropertyKey) × PropertyKey))
    (owner : ι) (p : PropertyKey) : PropertyKey :=
  (tableGet map (owner, p)).getD p

section

variable (ctx : RenameCtx)

/-- `rename_var_property`: an unbound variable leaves the name alone. -/
def RenameCtx.renameVarProperty (v : VariableName) (p : PropertyKey) : PropertyKey :=
  match tableGet ctx.varTypes v with
  | none => p
  | some (.node id) => renameProperty ctx.nodeProps id p
  | some (.edge id) => renameProperty ctx.edgeProps id p

/-- `rename_property_filters_node` and its mirror for edges; the values are not
looked into. -/
def renamePropertyFilters (rename : PropertyKey → PropertyKey) (filters : List PropertyFilter) :
    List PropertyFilter :=
  filters.map fun f => { f with property := rename f.property }

def renameNodeFilters (label : Option GraphLabel) (filters : List PropertyFilter) :
    List PropertyFilter :=
  match label.bind ctx.current.nodeByLabel with
  | some n => renamePropertyFilters (renameProperty ctx.nodeProps n.id) filters
  | none => filters

def renameEdgeFilters (label : Option GraphLabel) (filters : List PropertyFilter) :
    List PropertyFilter :=
  match label.bind (edgeByLabel ctx.current) with
  | some e => renamePropertyFilters (renameProperty ctx.edgeProps e.id) filters
  | none => filters

def PathElement.rename : PathElement → PathElement
  | .node v label => .node v (label.map (swapIfRenamed ctx.nodeLabels))
  | .edge v label d => .edge v (label.map (swapIfRenamed ctx.edgeLabels)) d

/-- `rename_pattern`. -/
def GraphPattern.rename : GraphPattern → GraphPattern
  | .node v label filters =>
    .node v (label.map (swapIfRenamed ctx.nodeLabels)) (renameNodeFilters ctx label filters)
  | .relationship v label source target direction filters varLength =>
    .relationship v (label.map (swapIfRenamed ctx.edgeLabels)) source target direction
      (renameEdgeFilters ctx label filters) varLength
  | .path elements => .path (elements.map (PathElement.rename ctx))

/-- `rename_node_ref`. -/
def NodeRef.rename (n : NodeRef) : NodeRef where
  var := n.var
  label := n.label.map (swapIfRenamed ctx.nodeLabels)
  propertyFilters := renameNodeFilters ctx n.label n.propertyFilters

/-- The labels of a graph constraint. -/
def PatternIR.rename (c : PatternIR) : PatternIR :=
  { c with
    nodes := c.nodes.map fun n => { n with label := n.label.map (swapIfRenamed ctx.nodeLabels) }
    edges := c.edges.map fun e => { e with label := e.label.map (swapIfRenamed ctx.edgeLabels) } }

mutual
def QueryOp.applyRenames : QueryOp → QueryOp
  | .match_ patterns filter projections optional groupBy =>
    .match_ (patterns.map (GraphPattern.rename ctx)) (Expr.renameOption filter) projections
      optional groupBy
  | .pathFind start end_ edgeTypes direction maxDepth algorithm =>
    .pathFind (start.rename ctx) (end_.rename ctx) (edgeTypes.map (swapIfRenamed ctx.edgeLabels))
      direction maxDepth algorithm
  | .aggregate source groupBy aggregations having =>
    .aggregate source.applyRenames groupBy aggregations (Expr.renameOption having)
  | .union queries all => .union (QueryIR.applyRenamesList queries) all
  | .chain steps => .chain (ChainStep.applyRenamesList steps)
  | .callSubquery inner imports => .callSubquery inner.applyRenames imports
  | .mutate context operations returning =>
    .mutate (QueryOp.applyRenamesOption context) (MutateOp.renameList operations) returning
  | .analytics algorithm .wholeGraph params projections =>
    .analytics algorithm .wholeGraph params projections
  | .analytics algorithm (.labels labels) params projections =>
    .analytics algorithm (.labels (labels.map (swapIfRenamed ctx.nodeLabels))) params projections
  | .analytics algorithm (.subgraph filter) params projections =>
    .analytics algorithm (.subgraph filter.applyRenames) params projections
  | .hybridSearch request =>
    .hybridSearch { request with
      graphConstraints := request.graphConstraints.map (PatternIR.rename ctx) }

def QueryOp.applyRenamesOption : Option QueryOp → Option QueryOp
  | none => none
  | some op => some op.applyRenames

def QueryIR.applyRenames : QueryIR → QueryIR
  | ⟨operation, limit, skip, orderBy, asOf⟩ =>
    ⟨operation.applyRenames, limit, skip, orderBy, asOf⟩

def QueryIR.applyRenamesList : List QueryIR → List QueryIR
  | [] => []
  | q :: qs => q.applyRenames :: QueryIR.applyRenamesList qs

def ChainStep.applyRenamesList : List ChainStep → List ChainStep
  | [] => []
  | ⟨passThrough, operation⟩ :: steps =>
    ⟨passThrough, operation.applyRenames⟩ :: ChainStep.applyRenamesList steps

/-- `rename_expr`. -/
def Expr.rename : Expr → Expr
  | .comparison left op right => .comparison left.rename op right.rename
  | .stringOp left op right => .stringOp left.rename op right.rename
  | .logical left op right => .logical left.rename op right.rename
  | .not inner => .not inner.rename
  | .in_ expr values => .in_ expr.rename values
  | .isNull expr negated => .isNull expr.rename negated
  | .functionCall f args => .functionCall f (Expr.renameList args)
  | .exists_ pattern => .exists_ (pattern.rename ctx)
  | .case_ operand whenClauses elseResult =>
    .case_ (Expr.renameOption operand) (WhenClause.renameList whenClauses)
      (Expr.renameOption elseResult)
  | .subquery query imports => .subquery query.applyRenames imports
  | .property v field => .property v (field.map (ctx.renameVarProperty v))
  | .literal value => .literal value
  | .param name => .param name

def Expr.renameList : List Expr → List Expr
  | [] => []
  | e :: es => e.rename :: Expr.renameList es

def Expr.renameOption : Option Expr → Option Expr
  | none => none
  | some e => some e.rename

def WhenClause.renameList : List WhenClause → List WhenClause
  | [] => []
  | ⟨condition, result⟩ :: cs =>
    ⟨condition.rename, result.rename⟩ :: WhenClause.renameList cs

/-- `rename_property_assignments_node` and its mirror for edges. -/
def PropertyAssignment.renameList (rename : PropertyKey → PropertyKey) :
    List PropertyAssignment → List PropertyAssignment
  | [] => []
  | ⟨p, value⟩ :: as => ⟨rename p, value.rename⟩ :: PropertyAssignment.renameList rename as

/-- `rename_mutate_op`.  The assignments of a create or merge whose label the
current ontology does not have are left alone. -/
def MutateOp.rename : MutateOp → MutateOp
  | .createNode v label properties =>
    .createNode v (swapIfRenamed ctx.nodeLabels label)
      (match ctx.current.nodeByLabel label with
      | some n => PropertyAssignment.renameList (renameProperty ctx.nodeProps n.id) properties
      | none => properties)
  | .mergeNode v label matchProperties onCreate onMatch =>
    match ctx.current.nodeByLabel label with
    | some n =>
      .mergeNode v (swapIfRenamed ctx.nodeLabels label)
        (PropertyAssignment.renameList (renameProperty ctx.nodeProps n.id) matchProperties)
        (PropertyAssignment.renameList (renameProperty ctx.nodeProps n.id) onCreate)
        (PropertyAssignment.renameList (renameProperty ctx.nodeProps n.id) onMatch)
    | none =>
      .mergeNode v (swapIfRenamed ctx.nodeLabels label) matchProperties onCreate onMatch
  | .createEdge v label source target properties =>
    .createEdge v (swapIfRenamed ctx.edgeLabels label) source target
      (match edgeByLabel ctx.current label with
      | some e => PropertyAssignment.renameList (renameProperty ctx.edgeProps e.id) properties
      | none => properties)
  | .mergeEdge v label source target matchProperties onCreate onMatch =>
    match edgeByLabel ctx.current label with
    | some e =>
      .mergeEdge v (swapIfRenamed ctx.edgeLabels label) source target
        (PropertyAssignment.renameList (renameProperty ctx.edgeProps e.id) matchProperties)
        (PropertyAssignment.renameList (renameProperty ctx.edgeProps e.id) onCreate)
        (PropertyAssignment.renameList (renameProperty ctx.edgeProps e.id) onMatch)
    | none =>
      .mergeEdge v (swapIfRenamed ctx.edgeLabels label) source target matchProperties onCreate
        onMatch
  | .removeLabel v label => .removeLabel v (swapIfRenamed ctx.nodeLabels label)
  | .setProperty v p value => .setProperty v (ctx.renameVarProperty v p) value.rename
  | .removeProperty v p => .removeProperty v (ctx.renameVarProperty v p)
  | .delete v detach => .delete v detach

def MutateOp.renameList : List MutateOp → List MutateOp
  | [] => []
  | m :: ms => m.rename :: MutateOp.renameList ms
end

end

/-! ## The walk as a pass -/

/-- The steps that the walk takes.  It stays out of column lists, of the values of
inline filters, of analytics parameters and of the filters of a graph constraint,
and out of assignments whose label the current ontology does not have. -/
def temporalWalks (current : OntologyIR) : Step → Bool
  | .output | .filterValue | .parameter | .constraint => false
  | .assignmentValue (.node l) => (current.nodeByLabel l).isSome
  | .assignmentValue (.edge l) => (edgeByLabel current l).isSome
  | .setValue | .operand | .exists_ | .subquery | .hybrid => true

namespace RenameCtx

/-- The rename of a property written inside a pattern or mutation with a label. -/
def renameInline (ctx : RenameCtx) : Option Bound → PropertyKey → PropertyKey
  | some ⟨.node l, _⟩, p =>
    match ctx.current.nodeByLabel l with
    | some n => renameProperty ctx.nodeProps n.id p
    | none => p
  | some ⟨.edge l, _⟩, p =>
    match edgeByLabel ctx.current l with
    | some e => renameProperty ctx.edgeProps e.id p
    | none => p
  | none, p => p

/-- What the walk does at one place. -/
def hooks (ctx : RenameCtx) : Hooks where
  nodeLabel := swapIfRenamed ctx.nodeLabels
  edgeLabel := swapIfRenamed ctx.edgeLabels
  property
    | .var v, p => ctx.renameVarProperty v p
    | .inline _ b, p => ctx.renameInline b p

variable (ctx : RenameCtx)

@[simp] theorem hooks_compared (a b : Expr) : ctx.hooks.compared a b = b := by
  unfold Hooks.compared
  split
  · rename_i hc
    exact (Expr.eq_literal_of_code hc).symm
  · rfl

@[simp] theorem hooks_comparison (a : Expr) (op : ComparisonOp) (b : Expr) :
    ctx.hooks.comparison a op b = .comparison a op b := by
  cases op <;> simp [Hooks.comparison]

@[simp] theorem hooks_in (e : Expr) (values : List PropertyValue) :
    ctx.hooks.in_ e values = .in_ e values := by
  unfold Hooks.in_
  split <;> rfl

@[simp] theorem hooks_value (o : Owner) (p : PropertyKey) (e : Expr) :
    ctx.hooks.value o p e = e := by
  unfold Hooks.value
  split
  · rename_i hc
    exact (Expr.eq_literal_of_code hc).symm
  · rfl

theorem label_hooks_node : Hooks.label true ctx.hooks.nodeLabel = swapIfRenamed ctx.nodeLabels :=
  rfl

theorem label_hooks_edge : Hooks.label true ctx.hooks.edgeLabel = swapIfRenamed ctx.edgeLabels :=
  rfl

theorem key_hooks_var (v : VariableName) :
    ctx.hooks.key true (.var v) = ctx.renameVarProperty v := rfl

variable {l : GraphLabel}

theorem renameInline_node {n : NodeTypeDef} (hn : ctx.current.nodeByLabel l = some n) (w : Bool) :
    ctx.renameInline (some ⟨.node l, w⟩) = renameProperty ctx.nodeProps n.id := by
  funext p
  simp only [renameInline, hn]

theorem renameInline_node_none (hn : ctx.current.nodeByLabel l = none) (w : Bool) : ctx.renameInline
    (some ⟨.node l, w⟩) = id := by
  funext p
  simp only [renameInline, hn, id]

theorem renameInline_edge {e : EdgeTypeDef} (he : edgeByLabel ctx.current l = some e) (w : Bool) :
    ctx.renameInline (some ⟨.edge l, w⟩) = renameProperty ctx.edgeProps e.id := by
  funext p
  simp only [renameInline, he]

theorem renameInline_edge_none (he : edgeByLabel ctx.current l = none) (w : Bool) : ctx.renameInline
    (some ⟨.edge l, w⟩) = id := by
  funext p
  simp only [renameInline, he, id]

theorem key_hooks_inline (v : Option VariableName) (b : Option Bound) :
    ctx.hooks.key true (.inline v b) = ctx.renameInline b := rfl

end RenameCtx

section

variable (ctx : RenameCtx)

/-- Inline filters: only the names are renamed, by the pattern's own label. -/
theorem PropertyFilter.rewriteList_hooks (v : Option VariableName) (b : Option Bound)
    (fs : List PropertyFilter) :
    PropertyFilter.rewriteList (temporalWalks ctx.current) ctx.hooks true (.inline v b) fs =
      renamePropertyFilters (ctx.renameInline b) fs := by
  induction fs with
  | nil => rfl
  | cons f fs ih =>
    obtain ⟨p, e⟩ := f
    rw [PropertyFilter.rewriteList, ih, if_pos rfl, RenameCtx.hooks_value]
    simp only [temporalWalks, Bool.true_and, Expr.rewrite_inert, Hooks.inert_false]
    rfl

theorem renameFilters_id (fs : List PropertyFilter) : renamePropertyFilters id fs = fs := by
  induction fs with
  | nil => rfl
  | cons f fs ih =>
    cases f
    exact congrArg (_ :: ·) ih

theorem renameNodeFilters_eq (v : VariableName) (l : Option GraphLabel) (fs : List PropertyFilter) :
    renameNodeFilters ctx l fs =
      PropertyFilter.rewriteList (temporalWalks ctx.current) ctx.hooks true (.ofNode true v l)
        fs := by
  rw [Owner.ofNode, PropertyFilter.rewriteList_hooks, renameNodeFilters]
  cases l with
  | none => exact (renameFilters_id fs).symm
  | some l =>
    simp only [bind_some, map_some]
    cases hn : ctx.current.nodeByLabel l with
    | none => rw [ctx.renameInline_node_none hn, renameFilters_id]
    | some n => rw [ctx.renameInline_node hn]

theorem renameEdgeFilters_eq (v : Option VariableName) (l : Option GraphLabel)
    (fs : List PropertyFilter) : renameEdgeFilters ctx l fs =
      PropertyFilter.rewriteList (temporalWalks ctx.current) ctx.hooks true (.ofEdge true v l)
        fs := by
  rw [Owner.ofEdge, PropertyFilter.rewriteList_hooks, renameEdgeFilters]
  cases l with
  | none => exact (renameFilters_id fs).symm
  | some l =>
    simp only [bind_some, map_some]
    cases he : edgeByLabel ctx.current l with
    | none => rw [ctx.renameInline_edge_none he, renameFilters_id]
    | some e => rw [ctx.renameInline_edge he]

theorem PathElement.rename_eq (x : PathElement) :
    x.rename ctx = x.rewrite ctx.hooks true := by
  cases x <;> rfl

theorem GraphPattern.rename_eq (p : GraphPattern) :
    p.rename ctx = p.rewrite (temporalWalks ctx.current) ctx.hooks true := by
  cases p with
  | node v l fs =>
    rw [GraphPattern.rename, GraphPattern.rewrite, renameNodeFilters_eq ctx v]
    rfl
  | relationship v l a b d fs vl =>
    rw [GraphPattern.rename, GraphPattern.rewrite, renameEdgeFilters_eq ctx v]
    rfl
  | path xs =>
    have hx : PathElement.rename ctx = PathElement.rewrite ctx.hooks true :=
      funext fun x => x.rename_eq ctx
    rw [GraphPattern.rename, GraphPattern.rewrite, hx]

theorem GraphPattern.map_rename_eq_rewrite (ps : List GraphPattern) :
    ps.map (GraphPattern.rename ctx) =
      GraphPattern.rewriteList (temporalWalks ctx.current) ctx.hooks true ps := by
  induction ps with
  | nil => rfl
  | cons p ps ih => rw [List.map_cons, GraphPattern.rewriteList, ih, p.rename_eq]

theorem NodeRef.rename_eq (n : NodeRef) :
    n.rename ctx = n.rewrite (temporalWalks ctx.current) ctx.hooks true := by
  obtain ⟨v, l, fs⟩ := n
  rw [NodeRef.rename, NodeRef.rewrite, renameNodeFilters_eq ctx v]
  rfl

theorem PatternIR.rename_eq (c : PatternIR) :
    c.rename ctx = c.rewrite (temporalWalks ctx.current) ctx.hooks true := by
  obtain ⟨ns, es, fs, ps, l, k, os⟩ := c
  have hn : PatternNode.rewriteList (temporalWalks ctx.current) ctx.hooks true ns =
      ns.map fun n => { n with label := n.label.map (swapIfRenamed ctx.nodeLabels) } := by
    induction ns with
    | nil => rfl
    | cons n ns ih =>
      obtain ⟨id, v, l, fs⟩ := n
      rw [PatternNode.rewriteList, ih]
      simp only [temporalWalks, Bool.true_and, PropertyFilter.list_inert,
        Hooks.inert_false]
      rfl
  have he : PatternEdge.rewriteList (temporalWalks ctx.current) ctx.hooks true es =
      es.map fun e => { e with label := e.label.map (swapIfRenamed ctx.edgeLabels) } := by
    induction es with
    | nil => rfl
    | cons e es ih =>
      obtain ⟨id, v, l, a, b, d, fs, vl⟩ := e
      rw [PatternEdge.rewriteList, ih]
      simp only [temporalWalks, Bool.true_and, PropertyFilter.list_inert,
        Hooks.inert_false]
      rfl
  rw [PatternIR.rewrite, hn, he]
  simp only [temporalWalks, Bool.true_and, PatternFilter.list_inert, Hooks.inert_false,
    PatternProjection.list_inert, OrderClause.list_inert]
  rfl

/-- Assignments to a type that the current ontology does not have. -/
theorem PropertyAssignment.rewriteList_unknown {v : Option VariableName} {b : Binding}
    (hw : temporalWalks ctx.current (.assignmentValue b) = false)
    (hb : ctx.renameInline (some ⟨b, true⟩) = id) (as : List PropertyAssignment) :
    rewriteList (temporalWalks ctx.current) ctx.hooks true v b as = as := by
  induction as with
  | nil => rfl
  | cons a as ih =>
    obtain ⟨p, e⟩ := a
    simp only [rewriteList, if_true, RenameCtx.hooks_value, hw, Bool.and_false,
      Expr.rewrite_inert, Hooks.inert_false, ih, RenameCtx.key_hooks_inline, hb, id]

/-- What holds of assignments that the walk reaches: only the names and the values
are renamed. -/
abbrev PropertyAssignment.Renamed (v : Option VariableName) (as : List PropertyAssignment) : Prop :=
  ∀ b, temporalWalks ctx.current (.assignmentValue b) = true →
    renameList ctx (ctx.renameInline (some ⟨b, true⟩)) as =
      rewriteList (temporalWalks ctx.current) ctx.hooks true v b as

theorem PropertyAssignment.Renamed.node {v : Option VariableName} {as : List PropertyAssignment}
    (h : Renamed ctx v as) (l : GraphLabel) :
    rewriteList (temporalWalks ctx.current) ctx.hooks true v (.node l) as =
      match ctx.current.nodeByLabel l with
      | some n => renameList ctx (renameProperty ctx.nodeProps n.id) as
      | none => as := by
  cases hn : ctx.current.nodeByLabel l with
  | none =>
    exact rewriteList_unknown ctx (by simp [temporalWalks, hn])
      (ctx.renameInline_node_none hn true) as
  | some n => rw [← h _ (by simp [temporalWalks, hn]), ctx.renameInline_node hn]

theorem PropertyAssignment.Renamed.edge {v : Option VariableName} {as : List PropertyAssignment}
    (h : Renamed ctx v as) (l : GraphLabel) :
    rewriteList (temporalWalks ctx.current) ctx.hooks true v (.edge l) as =
      match edgeByLabel ctx.current l with
      | some e => renameList ctx (renameProperty ctx.edgeProps e.id) as
      | none => as := by
  cases he : edgeByLabel ctx.current l with
  | none =>
    exact rewriteList_unknown ctx (by simp [temporalWalks, he])
      (ctx.renameInline_edge_none he true) as
  | some e => rw [← h _ (by simp [temporalWalks, he]), ctx.renameInline_edge he]

attribute [local simp] temporalWalks RenameCtx.label_hooks_node RenameCtx.label_hooks_edge
  RenameCtx.key_hooks_var RenameCtx.key_hooks_inline Projection.list_inert
  FieldRef.rewrite_inert AggregationExpr.rewrite_inert AnalyticsParam.list_inert
  OrderClause.list_inert GraphPattern.map_rename_eq_rewrite NodeRef.rename_eq
  GraphPattern.rename_eq PatternIR.rename_eq applyRenames rewrite
  AnalyticsSource.rewrite applyRenamesOption rewriteOption QueryIR.applyRenames
  QueryIR.rewrite QueryIR.applyRenamesList QueryIR.rewriteList ChainStep.applyRenamesList
  ChainStep.rewriteList Expr.rename Expr.rewrite Expr.renameList Expr.rewriteList
  Expr.renameOption Expr.rewriteOption WhenClause.renameList WhenClause.rewriteList
  renameList rewriteList MutateOp.rename MutateOp.rewrite
  MutateOp.renameList MutateOp.rewriteList

mutual
/-- The walk is the pass that renames labels and property names at the places it
walks. -/
theorem QueryOp.applyRenames_eq :
    (op : QueryOp) →
      op.applyRenames ctx = op.rewrite (temporalWalks ctx.current) ctx.hooks true
  | .match_ ps f pr o g => by simp [Expr.renameOption_eq_rewrite f]
  | .pathFind a b ls d m al => by simp
  | .aggregate q g a hv => by simp [q.applyRenames_eq, Expr.renameOption_eq_rewrite hv]
  | .union qs all => by simp [QueryIR.applyRenamesList_eq qs]
  | .chain steps => by
    simp only [QueryOp.applyRenames, QueryOp.rewrite, ChainStep.applyRenamesList_eq steps]
  | .callSubquery q imports => by simp [q.applyRenames_eq]
  | .mutate c ms r => by
    simp [QueryOp.applyRenamesOption_eq_rewrite c, MutateOp.renameList_eq ms]
  | .analytics al .wholeGraph ps pr => by simp
  | .analytics al (.labels ls) ps pr => by simp
  | .analytics al (.subgraph op) ps pr => by simp [op.applyRenames_eq]
  | .hybridSearch ⟨v, f, none, u, k⟩ => by simp
  | .hybridSearch ⟨v, f, some c, u, k⟩ => by simp

theorem QueryOp.applyRenamesOption_eq_rewrite :
    (op : Option QueryOp) →
      applyRenamesOption ctx op =
        rewriteOption (temporalWalks ctx.current) ctx.hooks true op
  | none => by simp
  | some op => by simp [op.applyRenames_eq]

theorem QueryIR.applyRenames_eq :
    (q : QueryIR) → q.applyRenames ctx = q.rewrite (temporalWalks ctx.current) ctx.hooks true
  | ⟨op, l, k, os, t⟩ => by simp [op.applyRenames_eq]

theorem QueryIR.applyRenamesList_eq :
    (qs : List QueryIR) →
      QueryIR.applyRenamesList ctx qs =
        QueryIR.rewriteList (temporalWalks ctx.current) ctx.hooks true qs
  | [] => by simp
  | q :: qs => by simp [q.applyRenames_eq, QueryIR.applyRenamesList_eq qs]

theorem ChainStep.applyRenamesList_eq :
    (steps : List ChainStep) →
      ChainStep.applyRenamesList ctx steps =
        ChainStep.rewriteList (temporalWalks ctx.current) ctx.hooks true steps
  | [] => by simp only [ChainStep.applyRenamesList, ChainStep.rewriteList]
  | ⟨p, op⟩ :: steps => by
    simp only [ChainStep.applyRenamesList, ChainStep.rewriteList, op.applyRenames_eq,
      ChainStep.applyRenamesList_eq steps, temporalWalks, Bool.true_and,
      Projection.list_inert, Hooks.inert_false]

theorem Expr.rename_eq :
    (e : Expr) → e.rename ctx = e.rewrite (temporalWalks ctx.current) ctx.hooks true
  | .comparison a op b | .stringOp a op b
  | .logical a op b => by simp [a.rename_eq, b.rename_eq]
  | .not e | .in_ e vs | .isNull e n => by simp [e.rename_eq]
  | .functionCall f es => by simp [Expr.renameList_eq es]
  | .exists_ p => by simp
  | .case_ o cs e => by
    simp [Expr.renameOption_eq_rewrite o, WhenClause.renameList_eq cs,
      Expr.renameOption_eq_rewrite e]
  | .subquery q imports => by simp [q.applyRenames_eq]
  | .property v p => by simp
  | .literal v => by simp
  | .param n => by simp

theorem Expr.renameList_eq :
    (es : List Expr) →
      Expr.renameList ctx es = Expr.rewriteList (temporalWalks ctx.current) ctx.hooks true es
  | [] => by simp
  | e :: es => by simp [e.rename_eq, Expr.renameList_eq es]

theorem Expr.renameOption_eq_rewrite :
    (e : Option Expr) →
      Expr.renameOption ctx e = Expr.rewriteOption (temporalWalks ctx.current) ctx.hooks true e
  | none => by simp
  | some e => by simp [e.rename_eq]

theorem WhenClause.renameList_eq :
    (cs : List WhenClause) →
      WhenClause.renameList ctx cs =
        WhenClause.rewriteList (temporalWalks ctx.current) ctx.hooks true cs
  | [] => by simp
  | ⟨c, r⟩ :: cs => by
    simp [c.rename_eq, r.rename_eq, WhenClause.renameList_eq cs]

/-- Assignments to a type that the current ontology has. -/
theorem PropertyAssignment.renameList_eq (v : Option VariableName) :
    (as : List PropertyAssignment) → PropertyAssignment.Renamed ctx v as
  | [], _, _ => rfl
  | ⟨p, e⟩ :: as, b, hb => by
    have ih := PropertyAssignment.renameList_eq v as b hb
    simp only [PropertyAssignment.renameList, PropertyAssignment.rewriteList, if_true,
      RenameCtx.hooks_value, hb, Bool.and_self, e.rename_eq, ih,
      RenameCtx.key_hooks_inline]

theorem MutateOp.rename_eq :
    (m : MutateOp) → m.rename ctx = m.rewrite (temporalWalks ctx.current) ctx.hooks true
  | .createNode v l as => by
    have ha := (PropertyAssignment.renameList_eq (some v) as).node ctx l
    simp only [MutateOp.rename, MutateOp.rewrite, RenameCtx.label_hooks_node, ha]
  | .mergeNode v l as bs cs => by
    have ha := (PropertyAssignment.renameList_eq (some v) as).node ctx l
    have hb := (PropertyAssignment.renameList_eq (some v) bs).node ctx l
    have hc := (PropertyAssignment.renameList_eq (some v) cs).node ctx l
    simp only [MutateOp.rename, MutateOp.rewrite, RenameCtx.label_hooks_node, ha, hb, hc]
    cases ctx.current.nodeByLabel l <;> rfl
  | .createEdge v l a b as => by
    have ha := (PropertyAssignment.renameList_eq v as).edge ctx l
    simp only [MutateOp.rename, MutateOp.rewrite, RenameCtx.label_hooks_edge, ha]
  | .mergeEdge v l a b as bs cs => by
    have ha := (PropertyAssignment.renameList_eq v as).edge ctx l
    have hb := (PropertyAssignment.renameList_eq v bs).edge ctx l
    have hc := (PropertyAssignment.renameList_eq v cs).edge ctx l
    simp only [MutateOp.rename, MutateOp.rewrite, RenameCtx.label_hooks_edge, ha, hb, hc]
    cases edgeByLabel ctx.current l <;> rfl
  | .removeLabel v l => by simp
  | .setProperty v p e => by simp [e.rename_eq]
  | .removeProperty v p => by simp
  | .delete v d => by simp

theorem MutateOp.renameList_eq :
    (ms : List MutateOp) →
      MutateOp.renameList ctx ms =
        MutateOp.rewriteList (temporalWalks ctx.current) ctx.hooks true ms
  | [] => by simp
  | m :: ms => by
    simp only [MutateOp.renameList, MutateOp.rewriteList, m.rename_eq,
      MutateOp.renameList_eq ms]
end

end

/-- `validate_window`: `valid_from` is included, `valid_to` is not. -/
def validateWindow (asOf : DateTime) (snapshot : OntologyIR) : Except TemporalError Unit :=
  match snapshot.version.validFrom, snapshot.version.validTo with
  | some from_, some to_ =>
    if asOf < from_ then .error (.predatesValidFrom asOf from_)
    else if asOf ≥ to_ then .error (.pastValidTo asOf to_) else .ok ()
  | some from_, none =>
    if asOf < from_ then .error (.predatesValidFrom asOf from_) else .ok ()
  | none, some to_ => if asOf ≥ to_ then .error (.pastValidTo asOf to_) else .ok ()
  | none, none => .ok ()

/-- `rewrite_temporal`: check the window and clear the pivot. -/
def rewriteTemporal (query : QueryIR) (snapshot : OntologyIR) : Except TemporalError QueryIR :=
  match query.asOf with
  | none => .ok query
  | some asOf => do
    validateWindow asOf snapshot
    .ok { query with asOf := none }

def rewriteTemporalWithRenames (query : QueryIR) (snapshot current : OntologyIR) :
    Except TemporalError QueryIR :=
  if query.asOf.isNone then .ok query
  else do
    let query ← rewriteTemporal query snapshot
    let nodeLabels ← diffNodeLabels current snapshot
    let edgeLabels ← diffEdgeLabels current snapshot
    let nodeProps := diffNodePropertyRenames current snapshot
    let edgeProps := diffEdgePropertyRenames current snapshot
    if nodeLabels.isEmpty && edgeLabels.isEmpty && nodeProps.isEmpty && edgeProps.isEmpty then
      .ok query
    else
      let varTypes := query.operation.collectVariableOwners current []
      let ctx : RenameCtx := ⟨current, nodeLabels, edgeLabels, nodeProps, edgeProps, varTypes⟩
      .ok { query with operation := query.operation.applyRenames ctx }

/-- The rename tables of two ontologies, when neither label table is refused. -/
def RenameCtx.between (current snapshot : OntologyIR) (nodeLabels edgeLabels : LabelRenames)
    (varTypes : VarTypes) : RenameCtx :=
  ⟨current, nodeLabels, edgeLabels, diffNodePropertyRenames current snapshot,
    diffEdgePropertyRenames current snapshot, varTypes⟩

@[simp] theorem tableGet_nil {κ β : Type} [DecidableEq κ] (k : κ) :
    tableGet ([] : List (κ × β)) k = none := rfl

theorem RenameCtx.identity_of_isEmpty {ctx : RenameCtx} (hn : ctx.nodeLabels.isEmpty = true)
    (he : ctx.edgeLabels.isEmpty = true) (hnp : ctx.nodeProps.isEmpty = true)
    (hep : ctx.edgeProps.isEmpty = true) : ctx.hooks.Identity := by
  rw [List.isEmpty_iff] at hn he hnp hep
  have hp : ∀ id p, renameProperty ctx.nodeProps id p = p := by
    intro id p
    rw [hnp, renameProperty, tableGet_nil, getD_none]
  have hq : ∀ id p, renameProperty ctx.edgeProps id p = p := by
    intro id p
    rw [hep, renameProperty, tableGet_nil, getD_none]
  constructor
  · funext l
    show swapIfRenamed ctx.nodeLabels l = l
    rw [hn, swapIfRenamed, tableGet_nil, getD_none]
  · funext l
    show swapIfRenamed ctx.edgeLabels l = l
    rw [he, swapIfRenamed, tableGet_nil, getD_none]
  · intro o
    funext p
    cases o with
    | var v =>
      show ctx.renameVarProperty v p = p
      unfold RenameCtx.renameVarProperty
      split
      · rfl
      · exact hp _ _
      · exact hq _ _
    | inline v b =>
      show ctx.renameInline b p = p
      unfold RenameCtx.renameInline
      split
      · split
        · exact hp _ _
        · rfl
      · split
        · exact hq _ _
        · rfl
      · rfl
  · intro o p
    rfl
  · intro o p
    rfl

/-- When a rewrite to a snapshot succeeds, and what it returns. -/
theorem temporalRenames_ok_iff {query q' : QueryIR} {snapshot current : OntologyIR}
    {asOf : DateTime} (ha : query.asOf = some asOf) :
    rewriteTemporalWithRenames query snapshot current = .ok q' ↔
      validateWindow asOf snapshot = .ok () ∧
        ∃ nodeLabels edgeLabels, diffNodeLabels current snapshot = .ok nodeLabels ∧
          diffEdgeLabels current snapshot = .ok edgeLabels ∧
          q' = { query with
            operation := query.operation.rewrite (temporalWalks current)
              (RenameCtx.between current snapshot nodeLabels edgeLabels
                (query.operation.collectVariableOwners current [])).hooks true
            asOf := none } := by
  have hr : rewriteTemporal query snapshot =
      (validateWindow asOf snapshot).bind fun _ => .ok { query with asOf := none } := by
    simp only [rewriteTemporal, ha]
    rfl
  rw [rewriteTemporalWithRenames, hr, ha]
  cases validateWindow asOf snapshot with
  | error e => simp [bind, Except.bind]
  | ok u =>
    cases diffNodeLabels current snapshot with
    | error e => simp [bind, Except.bind]
    | ok nodeLabels =>
      cases diffEdgeLabels current snapshot with
      | error e => simp [bind, Except.bind]
      | ok edgeLabels =>
        have hop : query.operation.applyRenames
              (RenameCtx.between current snapshot nodeLabels edgeLabels
                (query.operation.collectVariableOwners current [])) =
            query.operation.rewrite (temporalWalks current)
              (RenameCtx.between current snapshot nodeLabels edgeLabels
                (query.operation.collectVariableOwners current [])).hooks true :=
          applyRenames_eq _ _
        simp only [bind, Except.bind, isNone_some, Bool.false_eq_true, if_false,
          Except.ok.injEq, true_and, exists_and_left, exists_eq_left']
        split
        · rename_i hempty
          simp only [Bool.and_eq_true] at hempty
          obtain ⟨⟨⟨h1, h2⟩, h3⟩, h4⟩ := hempty
          have hid : (RenameCtx.between current snapshot nodeLabels edgeLabels
              (query.operation.collectVariableOwners current [])).hooks.Identity :=
            RenameCtx.identity_of_isEmpty h1 h2 h3 h4
          rw [rewrite_inert (Or.inr hid), Except.ok.injEq]
          exact eq_comm
        · rw [← hop]
          exact ⟨fun h => (Except.ok.inj h).symm, fun h => congrArg Except.ok h.symm⟩

end Ontosyx.Query
