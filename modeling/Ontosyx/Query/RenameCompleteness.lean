import Ontosyx.Query.RenameAmbiguity

/-!
# Completeness of temporal renames

What the labels and property names of a rewritten query denote in the snapshot.
The rewriter renames a property by the type that the last labelled pattern of the
whole query gives its variable, and it leaves some places out; this module says of
every place whether it still denotes in the snapshot what it denotes now.
-/

namespace Ontosyx.Query

open List Ontosyx.Core Ontology Lib.Keyed QueryOp Hooks RenameCtx Or

/-! ## The bindings that the variable table is built from -/

def PathElement.bindings : PathElement → List (VariableName × Binding)
  | .node v (some l) => [(v, .node l)]
  | .edge (some v) (some l) _ => [(v, .edge l)]
  | _ => []

def GraphPattern.bindings : GraphPattern → List (VariableName × Binding)
  | .node v (some l) _ => [(v, .node l)]
  | .relationship (some v) (some l) _ _ _ _ _ => [(v, .edge l)]
  | .path elements => elements.flatMap PathElement.bindings
  | _ => []

def MutateOp.bindings : MutateOp → List (VariableName × Binding)
  | .createNode v l _ | .mergeNode v l _ _ _ => [(v, .node l)]
  | .createEdge (some v) l _ _ _ | .mergeEdge (some v) l _ _ _ _ _ => [(v, .edge l)]
  | _ => []

def NodeRef.bindings (n : NodeRef) : List (VariableName × Binding) :=
  n.label.toList.map fun l => (n.var, .node l)

mutual
/-- The labelled bindings of an operation, wherever in the query they hold: those of
its patterns and filters, but not those in column lists, in the filters of patterns
or in the values of mutations. -/
def QueryOp.bindings : QueryOp → List (VariableName × Binding)
  | .match_ patterns filter _ _ _ =>
    patterns.flatMap GraphPattern.bindings ++ Expr.bindingsOption filter
  | .pathFind start end_ _ _ _ _ => start.bindings ++ end_.bindings
  | .aggregate source _ _ having => source.bindings ++ Expr.bindingsOption having
  | .union queries _ => QueryIR.bindingsList queries
  | .chain steps => ChainStep.bindingsList steps
  | .callSubquery inner _ => inner.bindings
  | .mutate context operations _ =>
    QueryOp.bindingsOption context ++ operations.flatMap MutateOp.bindings
  | .analytics _ (.subgraph filter) _ _ => filter.bindings
  | .analytics _ _ _ _ | .hybridSearch _ => []

def QueryOp.bindingsOption : Option QueryOp → List (VariableName × Binding)
  | none => []
  | some op => op.bindings

def QueryIR.bindings : QueryIR → List (VariableName × Binding)
  | ⟨operation, _, _, _, _⟩ => operation.bindings

def QueryIR.bindingsList : List QueryIR → List (VariableName × Binding)
  | [] => []
  | q :: qs => q.bindings ++ QueryIR.bindingsList qs

def ChainStep.bindingsList : List ChainStep → List (VariableName × Binding)
  | [] => []
  | ⟨_, operation⟩ :: steps => operation.bindings ++ ChainStep.bindingsList steps

def Expr.bindings : Expr → List (VariableName × Binding)
  | .comparison left _ right | .logical left _ right | .stringOp left _ right =>
    left.bindings ++ right.bindings
  | .not inner => inner.bindings
  | .in_ expr _ | .isNull expr _ => expr.bindings
  | .functionCall _ args => Expr.bindingsList args
  | .exists_ pattern => pattern.bindings
  | .case_ operand whenClauses elseResult =>
    Expr.bindingsOption operand ++ WhenClause.bindingsList whenClauses ++
      Expr.bindingsOption elseResult
  | .subquery query _ => query.bindings
  | .literal _ | .param _ | .property _ _ => []

def Expr.bindingsList : List Expr → List (VariableName × Binding)
  | [] => []
  | e :: es => e.bindings ++ Expr.bindingsList es

def Expr.bindingsOption : Option Expr → List (VariableName × Binding)
  | none => []
  | some e => e.bindings

def WhenClause.bindingsList : List WhenClause → List (VariableName × Binding)
  | [] => []
  | ⟨condition, result⟩ :: cs =>
    condition.bindings ++ result.bindings ++ WhenClause.bindingsList cs
end

def Binding.type? (current : OntologyIR) : Binding → Option OwnerRef
  | .node l => (current.nodeByLabel l).map fun n => .node n.id
  | .edge l => (edgeByLabel current l).map fun e => .edge e.id

def typed (current : OntologyIR) (bs : List (VariableName × Binding)) : VarTypes :=
  bs.filterMap fun b => (b.2.type? current).map fun t => (b.1, t)

section

variable (current : OntologyIR)

theorem typed_append (xs ys : List (VariableName × Binding)) :
    typed current (xs ++ ys) = typed current xs ++ typed current ys :=
  filterMap_append

theorem typed_singleton (v : VariableName) (b : Binding) :
    typed current [(v, b)] = ((b.type? current).map fun t => (v, t)).toList := by
  rw [typed, filterMap_cons]
  cases b.type? current <;> rfl

theorem bindNodeVar_eq (map : VarTypes) (v : VariableName) (l : Option GraphLabel) :
    bindNodeVar current map v l = map ++ typed current (l.toList.map fun l => (v, .node l)) := by
  cases l with
  | none => exact (append_nil map).symm
  | some l =>
    rw [Option.toList_some, map_singleton, typed_singleton, Binding.type?, bindNodeVar,
      Option.bind_some]
    cases current.nodeByLabel l with
    | none => exact (append_nil map).symm
    | some n => rfl

theorem bindEdgeVar_eq (map : VarTypes) (v : VariableName) (l : GraphLabel) :
    bindEdgeVar current map v l = map ++ typed current [(v, .edge l)] := by
  rw [typed_singleton, Binding.type?, bindEdgeVar]
  cases edgeByLabel current l with
  | none => exact (append_nil map).symm
  | some e => rfl

theorem foldl_collect {α : Type} {f : VarTypes → α → VarTypes}
    {g : α → List (VariableName × Binding)} (h : ∀ map x, f map x = map ++ typed current (g x))
    (map : VarTypes) (xs : List α) : xs.foldl f map = map ++ typed current (xs.flatMap g) := by
  induction xs generalizing map with
  | nil => exact (append_nil map).symm
  | cons x xs ih =>
    rw [foldl_cons, ih, h, flatMap_cons, typed_append, append_assoc]

theorem PathElement.collectVars_eq (map : VarTypes) (x : PathElement) :
    x.collectVars current map = map ++ typed current x.bindings := by
  cases x with
  | node v l =>
    rw [PathElement.collectVars, bindNodeVar_eq]
    cases l <;> rfl
  | edge v l d =>
    cases v with
    | none => exact (append_nil map).symm
    | some v =>
      cases l with
      | none => exact (append_nil map).symm
      | some l => exact bindEdgeVar_eq current map v l

theorem GraphPattern.collectVars_eq (map : VarTypes) (p : GraphPattern) :
    p.collectVars current map = map ++ typed current p.bindings := by
  cases p with
  | node v l fs =>
    rw [GraphPattern.collectVars, bindNodeVar_eq]
    cases l <;> rfl
  | relationship v l a b d fs vl =>
    cases v with
    | none => exact (append_nil map).symm
    | some v =>
      cases l with
      | none => exact (append_nil map).symm
      | some l => exact bindEdgeVar_eq current map v l
  | path xs => exact foldl_collect current (PathElement.collectVars_eq current) map xs

theorem MutateOp.collectVars_eq (map : VarTypes) (m : MutateOp) :
    m.collectVars current map = map ++ typed current m.bindings := by
  cases m with
  | createNode v l as | mergeNode v l as bs cs => exact bindNodeVar_eq current map v (some l)
  | createEdge v l a b as | mergeEdge v l a b as bs cs =>
    cases v with
    | none => exact (append_nil map).symm
    | some v => exact bindEdgeVar_eq current map v l
  | _ => exact (append_nil map).symm

mutual
/-- The variable table lists the typed bindings of the operation, in the order of the
walk. -/
theorem variableOwners_eq (map : VarTypes) :
    (op : QueryOp) → op.collectVariableOwners current map = map ++ typed current op.bindings
  | .match_ ps f pr o g => by
    rw [collectVariableOwners, collectVarsOption_eq _ f,
      foldl_collect current (GraphPattern.collectVars_eq current), bindings,
      typed_append, append_assoc]
  | .pathFind a b ls d m al => by
    rw [collectVariableOwners, bindNodeVar_eq, bindNodeVar_eq, bindings,
      typed_append, append_assoc]
    rfl
  | .aggregate q g a hv => by
    rw [collectVariableOwners, collectVarsOption_eq _ hv, queryOwners_eq map q,
      bindings, typed_append, append_assoc]
  | .union qs all => by
    rw [collectVariableOwners, queriesOwners_eq map qs, bindings]
  | .chain steps => by
    rw [QueryOp.collectVariableOwners, stepsOwners_eq map steps, QueryOp.bindings]
  | .callSubquery q imports => by
    rw [QueryOp.collectVariableOwners, queryOwners_eq map q, QueryOp.bindings]
  | .mutate c ms r => by
    rw [QueryOp.collectVariableOwners, opOptionOwners_eq map c,
      foldl_collect current (MutateOp.collectVars_eq current), QueryOp.bindings, typed_append,
      append_assoc]
  | .analytics al (.subgraph op) ps pr => by
    rw [collectVariableOwners, variableOwners_eq map op, bindings]
  | .analytics al .wholeGraph ps pr | .analytics al (.labels ls) ps pr
  | .hybridSearch r => (append_nil map).symm

theorem opOptionOwners_eq (map : VarTypes) :
    (op : Option QueryOp) →
      collectVariableOwnersOption current map op =
        map ++ typed current (bindingsOption op)
  | none => (append_nil map).symm
  | some op => by
    rw [collectVariableOwnersOption, variableOwners_eq map op,
      bindingsOption]

theorem queryOwners_eq (map : VarTypes) :
    (q : QueryIR) → q.collectVariableOwners current map = map ++ typed current q.bindings
  | ⟨op, l, k, os, t⟩ => by
    rw [QueryIR.collectVariableOwners, variableOwners_eq map op, QueryIR.bindings]

theorem queriesOwners_eq (map : VarTypes) :
    (qs : List QueryIR) →
      QueryIR.collectVariableOwnersList current map qs =
        map ++ typed current (QueryIR.bindingsList qs)
  | [] => (append_nil map).symm
  | q :: qs => by
    rw [QueryIR.collectVariableOwnersList, queriesOwners_eq _ qs, queryOwners_eq map q,
      QueryIR.bindingsList, typed_append, append_assoc]

theorem stepsOwners_eq (map : VarTypes) :
    (steps : List ChainStep) →
      ChainStep.collectVariableOwnersList current map steps =
        map ++ typed current (ChainStep.bindingsList steps)
  | [] => (append_nil map).symm
  | ⟨p, op⟩ :: steps => by
    rw [ChainStep.collectVariableOwnersList, stepsOwners_eq _ steps,
      variableOwners_eq map op, ChainStep.bindingsList, typed_append, append_assoc]

theorem collectVars_eq (map : VarTypes) :
    (e : Expr) → e.collectVars current map = map ++ typed current e.bindings
  | .comparison l _ r | .logical l _ r | .stringOp l _ r => by
    rw [Expr.collectVars, collectVars_eq _ r, collectVars_eq map l, Expr.bindings, typed_append,
      append_assoc]
  | .not e | .in_ e _ | .isNull e _ => by rw [Expr.collectVars, collectVars_eq map e, Expr.bindings]
  | .functionCall f es => by rw [Expr.collectVars, collectVarsList_eq map es, Expr.bindings]
  | .exists_ p => by rw [Expr.collectVars, GraphPattern.collectVars_eq, Expr.bindings]
  | .case_ o cs e => by
    rw [Expr.collectVars, collectVarsOption_eq _ e, collectWhenVars_eq _ cs,
      collectVarsOption_eq map o, Expr.bindings, typed_append, typed_append, append_assoc,
      append_assoc, append_assoc]
  | .subquery q imports => by rw [Expr.collectVars, queryOwners_eq map q, Expr.bindings]
  | .literal v | .param n | .property v p => (append_nil map).symm

theorem collectVarsList_eq (map : VarTypes) :
    (es : List Expr) →
      Expr.collectVarsList current map es = map ++ typed current (Expr.bindingsList es)
  | [] => (append_nil map).symm
  | e :: es => by
    rw [Expr.collectVarsList, collectVarsList_eq _ es, collectVars_eq map e, Expr.bindingsList,
      typed_append, append_assoc]

theorem collectVarsOption_eq (map : VarTypes) :
    (e : Option Expr) →
      Expr.collectVarsOption current map e = map ++ typed current (Expr.bindingsOption e)
  | none => (append_nil map).symm
  | some e => by rw [Expr.collectVarsOption, collectVars_eq map e, Expr.bindingsOption]

theorem collectWhenVars_eq (map : VarTypes) :
    (cs : List WhenClause) →
      WhenClause.collectVarsList current map cs =
        map ++ typed current (WhenClause.bindingsList cs)
  | [] => (append_nil map).symm
  | ⟨c, r⟩ :: cs => by
    rw [WhenClause.collectVarsList, collectWhenVars_eq _ cs, collectVars_eq _ r,
      collectVars_eq map c, WhenClause.bindingsList, typed_append, typed_append,
      append_assoc, append_assoc, append_assoc]
end

end

/-! ## Names in the snapshot -/

def propertiesOf (o : OntologyIR) : OwnerRef → Option (List PropertyDef)
  | .node id => (o.nodeById id).map (·.properties)
  | .edge id => (o.edgeById id).map (·.properties)

/-- The other names that the properties called `p` have in the snapshot. -/
def otherNames (now past : List PropertyDef) (p : PropertyKey) : List PropertyKey :=
  ((now.filter (·.name = p)).filterMap fun d =>
    (past.find? (·.id = d.id)).map (·.name)).filter (· ≠ p)

/-- The snapshot name of what a type calls `p`.  A name that does not change, or a
type that one of the ontologies does not have, leaves `p`. -/
def nameCarried (current snapshot : OntologyIR) (t : Option OwnerRef) (p : PropertyKey) :
    PropertyKey :=
  match t.bind (propertiesOf current), t.bind (propertiesOf snapshot) with
  | some now, some past => (otherNames now past p).getLast?.getD p
  | _, _ => p

theorem diffProperties_filter (now past : List PropertyDef) (p : PropertyKey) :
    ((diffProperties now past).filter (·.1 = p)).map Prod.snd = otherNames now past p := by
  rw [diffProperties, otherNames]
  induction now with
  | nil => rfl
  | cons d ds ih =>
    by_cases hp : d.name = p
    · rw [filter_cons_of_pos (by simpa using hp), filterMap_cons, filterMap_cons]
      cases hf : past.find? (·.id = d.id) with
      | none => exact ih
      | some e =>
        by_cases hne : e.name = d.name
        · have hep : e.name = p := hne.trans hp
          simpa [hne, hp] using ih
        · have hep : e.name ≠ p := hp ▸ hne
          simpa [hp, hep] using ih
    · rw [filter_cons_of_neg (by simpa using hp), filterMap_cons]
      cases hf : past.find? (·.id = d.id) with
      | none => exact ih
      | some e =>
        by_cases hne : e.name = d.name
        · simpa [hne] using ih
        · simpa [hne, hp] using ih

/-- The entries of one key in a table built per element. -/
theorem filter_flatMap_first {α β ι : Type} [DecidableEq ι] {key : α → ι} {f : α → List β}
    {keep : β → Bool} {id : ι} (hf : ∀ x, key x ≠ id → (f x).filter keep = []) {xs : List α}
    (hnd : (xs.map key).Nodup) :
    (xs.flatMap f).filter keep = (first key id xs).toList.flatMap fun x => (f x).filter keep := by
  induction xs with
  | nil => rfl
  | cons x xs ih =>
    rw [map_cons, nodup_cons] at hnd
    rw [flatMap_cons, filter_append, ih hnd.2]
    by_cases hx : key x = id
    · have hnone : first key id xs = none := by
        rw [first_none_iff, ← hx]
        exact hnd.1
      rw [hnone]
      simp [first, hx]
    · rw [hf x hx]
      simp [first, hx]

def typeRenames {ι : Type} (id : ι) (now : List PropertyDef) (past : Option (List PropertyDef)) :
    List ((ι × PropertyKey) × PropertyKey) :=
  ((past.map (diffProperties now)).getD []).map fun r => ((id, r.1), r.2)

theorem typeRenames_filter {ι : Type} [DecidableEq ι] (id : ι) (now : List PropertyDef)
    (past : Option (List PropertyDef)) (p : PropertyKey) :
    ((typeRenames id now past).filter fun e => e.1 = (id, p)).map Prod.snd =
      past.toList.flatMap fun past => otherNames now past p := by
  cases past with
  | none => rfl
  | some past =>
    simp only [typeRenames, Option.map_some, Option.getD_some, filter_map,
      Function.comp_def, Prod.mk.injEq, true_and, map_map, Option.toList_some,
      flatMap_cons, flatMap_nil, append_nil, ← diffProperties_filter]

theorem renameProperty_flatMap {α ι : Type} [DecidableEq ι] {key : α → ι}
    {now : α → List PropertyDef} {past : ι → Option (List PropertyDef)} {xs : List α}
    (hnd : (xs.map key).Nodup) (id : ι) (p : PropertyKey) :
    renameProperty (xs.flatMap fun x => typeRenames (key x) (now x) (past (key x))) id p =
      match (first key id xs).map now, past id with
      | some now, some past => (otherNames now past p).getLast?.getD p
      | _, _ => p := by
  have hf : ∀ x, key x ≠ id →
      (typeRenames (key x) (now x) (past (key x))).filter (fun e => e.1 = (id, p)) = [] := by
    intro x hx
    simp [typeRenames, filter_map, Function.comp_def, hx]
  rw [renameProperty, get_eq_getLast?, filter_flatMap_first hf hnd]
  cases hx : first key id xs with
  | none => rfl
  | some x =>
    have hid : key x = id := by
      have h := find?_some hx
      simpa using h
    rw [Option.toList_some, flatMap_cons, flatMap_nil, append_nil, hid, typeRenames_filter]
    cases past id with
    | none => rfl
    | some past => simp

theorem renameProperty_node {current snapshot : OntologyIR} (hc : current.Indexed)
    (id : NodeTypeId) (p : PropertyKey) :
    renameProperty (diffNodePropertyRenames current snapshot) id p =
      nameCarried current snapshot (some (.node id)) p := by
  have h : diffNodePropertyRenames current snapshot = current.nodeTypes.flatMap fun n =>
      typeRenames n.id n.properties ((snapshot.nodeById n.id).map (·.properties)) := by
    rw [diffNodePropertyRenames]
    congr 1
    funext n
    cases snapshot.nodeById n.id <;> rfl
  rw [h]
  exact @renameProperty_flatMap NodeTypeDef _ _ (·.id) (·.properties)
    (fun id => (snapshot.nodeById id).map (·.properties)) _ hc.nodeIds id p

theorem renameProperty_edge {current snapshot : OntologyIR} (hc : current.Indexed)
    (id : EdgeTypeId) (p : PropertyKey) :
    renameProperty (diffEdgePropertyRenames current snapshot) id p =
      nameCarried current snapshot (some (.edge id)) p := by
  have h : diffEdgePropertyRenames current snapshot = current.edgeTypes.flatMap fun e =>
      typeRenames e.id e.properties ((snapshot.edgeById e.id).map (·.properties)) := by
    rw [diffEdgePropertyRenames]
    congr 1
    funext e
    cases snapshot.edgeById e.id <;> rfl
  rw [h]
  exact @renameProperty_flatMap EdgeTypeDef _ _ (·.id) (·.properties)
    (fun id => (snapshot.edgeById id).map (·.properties)) _ hc.edgeIds id p

/-- The type that the last typed binding of a variable gives it, wherever in the
query that binding holds. -/
def QueryIR.lastType (current : OntologyIR) (q : QueryIR) (v : VariableName) : Option OwnerRef :=
  (((typed current q.bindings).filter (·.1 = v)).map Prod.snd).getLast?

/-- The type by which a property is renamed at a place, if the query has a pivot and
the walk comes there: a variable has its last type, and a pattern or mutation the
type of its own label. -/
def Site.renamedBy (current : OntologyIR) (q : QueryIR) (x : Site) (owner : Owner) :
    Option OwnerRef :=
  if q.asOf.isSome && x.walked then
    match owner with
    | .var v => q.lastType current v
    | .inline _ b => b.bind fun b => b.binding.type? current
  else none

/-- The name that a place of a query with a pivot gets. -/
theorem key_hooks_between {current snapshot : OntologyIR} (hc : current.Indexed)
    (nodeLabels edgeLabels : LabelRenames) {q : QueryIR} (hq : q.asOf.isSome) (x : Site)
    (owner : Owner) (p : PropertyKey) : (between current snapshot nodeLabels edgeLabels
        (q.operation.collectVariableOwners current [])).hooks.key x.walked owner p =
      nameCarried current snapshot (x.renamedBy current q owner) p := by
  obtain ⟨w, s, m⟩ := x
  simp only [Site.renamedBy, hq, Bool.true_and]
  cases w with
  | false => rfl
  | true =>
    rw [if_pos rfl]
    cases owner with
    | var v =>
      show renameVarProperty _ v p =
        nameCarried current snapshot (q.lastType current v) p
      have hb : q.operation.bindings = q.bindings := by cases q; rfl
      rw [renameVarProperty, between, variableOwners_eq,
        nil_append, get_eq_getLast?, hb, QueryIR.lastType]
      cases (List.map Prod.snd (List.filter (fun x => decide (x.1 = v))
          (typed current q.bindings))).getLast? with
      | none => rfl
      | some t =>
        cases t with
        | node id => exact renameProperty_node hc id p
        | edge id => exact renameProperty_edge hc id p
    | inline v b =>
      show renameInline _ b p =
        nameCarried current snapshot (b.bind fun b => b.binding.type? current) p
      cases b with
      | none => rfl
      | some b =>
        obtain ⟨b, w⟩ := b
        cases b with
        | node l =>
          simp only [renameInline, Option.bind_some, Binding.type?,
            between]
          cases current.nodeByLabel l with
          | none => rfl
          | some n => exact renameProperty_node hc n.id p
        | edge l =>
          simp only [renameInline, Option.bind_some, Binding.type?,
            between]
          cases edgeByLabel current l with
          | none => rfl
          | some e => exact renameProperty_edge hc e.id p

section

variable {ι ε : Type} {types : List (ι × GraphLabel)} {snap : ι → Option GraphLabel}

/-- The label that a place gets: that of its renamed types, where the walk comes. -/
def NewLabel (types : List (ι × GraphLabel)) (snap : ι → Option GraphLabel) (w : Bool)
    (l m : GraphLabel) : Prop :=
  if w then Renamed types snap l m ∨ m = l ∧ ∀ m', ¬Renamed types snap l m' else m = l

theorem newLabel_iff {err : GraphLabel → GraphLabel → GraphLabel → ε} {map : LabelRenames}
    (h : diffLabels err snap [] types = .ok map) (w : Bool) (l m : GraphLabel) :
    NewLabel types snap w l m ↔ m = label w (swapIfRenamed map) l := by
  cases w with
  | false => exact Iff.rfl
  | true =>
    show Renamed types snap l m ∨ m = l ∧ (∀ m', ¬Renamed types snap l m') ↔
      m = swapIfRenamed map l
    constructor
    · intro hn
      rcases hn with hr | ⟨rfl, hno⟩
      · rw [swapIfRenamed, (get_of_diffLabels h l m).2 (inr hr), Option.getD_some]
      · rcases swap_of_diffLabels h m with hr | ⟨hk, -⟩
        · exact absurd hr (hno _)
        · exact hk.symm
    · intro hm
      rw [hm]
      rcases swap_of_diffLabels h l with hr | ⟨hk, hno⟩
      · exact inl hr
      · exact inr ⟨hk, hno⟩

/-- When the types of a label are the snapshot types of another one, the label is
renamed to it. -/
theorem newLabel_of_same {types' : List (ι × GraphLabel)}
    (hsnap : ∀ id m, (id, m) ∈ types' → snap id = some m) {l m : GraphLabel}
    (hne : ∃ id, (id, l) ∈ types) (hsame : ∀ id, (id, m) ∈ types' ↔ (id, l) ∈ types) :
    NewLabel types snap true l m := by
  obtain ⟨id, hid⟩ := hne
  by_cases hm : m = l
  · right
    refine ⟨hm, fun m' hr => ?_⟩
    obtain ⟨j, hj, hs, hne⟩ := hr
    have h := hsnap j m ((hsame j).2 hj)
    rw [hs, Option.some.injEq] at h
    exact hne (h.trans hm)
  · exact inl ⟨id, hid, hsnap id m ((hsame id).2 hid), hm⟩

end

/-! ## What a place denotes -/

/-- A type, or a property of a type, by its ids. -/
inductive Ref where
  | nodeType (id : NodeTypeId)
  | edgeType (id : EdgeTypeId)
  | nodeProperty (type : NodeTypeId) (property : PropertyId)
  | edgeProperty (type : EdgeTypeId) (property : PropertyId)
deriving DecidableEq

def nodeLabelRefs (o : OntologyIR) (l : GraphLabel) : List Ref :=
  (o.nodeTypes.filter (·.label = l)).map fun n => .nodeType n.id

def edgeLabelRefs (o : OntologyIR) (l : GraphLabel) : List Ref :=
  (o.edgeTypes.filter (·.label = l)).map fun e => .edgeType e.id

/-- The properties of a name on the types of a label. -/
def propertyRefs (o : OntologyIR) (b : Binding) (p : PropertyKey) : List Ref :=
  match b with
  | .node l =>
    (o.nodeTypes.filter (·.label = l)).flatMap fun n =>
      (n.properties.filter (·.name = p)).map fun d => .nodeProperty n.id d.id
  | .edge l =>
    (o.edgeTypes.filter (·.label = l)).flatMap fun e =>
      (e.properties.filter (·.name = p)).map fun d => .edgeProperty e.id d.id

/-- What the name at a place resolves to in an ontology, for the type that the
owner of a property is bound to there. -/
def Site.refs (o : OntologyIR) (x : Site) : List Ref :=
  match x.mention with
  | .nodeLabel l => nodeLabelRefs o l
  | .edgeLabel l => edgeLabelRefs o l
  | .property owner p => (owner.binding x.scope).toList.flatMap fun b => propertyRefs o b p
  | .literal _ _ _ | .members _ _ _ => []

/-- The name at a place resolves: a label, and a property of a bound owner. -/
def Site.Resolves (o : OntologyIR) (x : Site) : Prop :=
  match x.mention with
  | .nodeLabel _ | .edgeLabel _ => x.refs o ≠ []
  | .property owner _ => owner.binding x.scope ≠ none → x.refs o ≠ []
  | .literal _ _ _ | .members _ _ _ => True

instance (o : OntologyIR) : (x : Site) → Decidable (x.Resolves o)
  | ⟨_, _, .nodeLabel l⟩ => inferInstanceAs (Decidable (nodeLabelRefs o l ≠ []))
  | ⟨_, _, .edgeLabel l⟩ => inferInstanceAs (Decidable (edgeLabelRefs o l ≠ []))
  | ⟨_, s, .property owner p⟩ =>
    inferInstanceAs (Decidable (owner.binding s ≠ none →
      ((owner.binding s).toList.flatMap fun b => propertyRefs o b p) ≠ []))
  | ⟨_, _, .literal _ _ _⟩ | ⟨_, _, .members _ _ _⟩ => inferInstanceAs (Decidable True)

def Authored (o : OntologyIR) (q : QueryIR) : Prop :=
  ∀ x ∈ q.sites everywhere true [], x.Resolves o

instance (o : OntologyIR) (q : QueryIR) : Decidable (Authored o q) :=
  inferInstanceAs (Decidable (∀ x ∈ q.sites everywhere true [], x.Resolves o))

/-- Every place of the rewritten query denotes in the snapshot what the place of the
query denotes now. -/
def RenamesComplete (q q' : QueryIR) (snapshot current : OntologyIR) : Prop :=
  List.Forall₂ (fun x x' => ∀ r, r ∈ x'.refs snapshot ↔ r ∈ x.refs current)
    (q.sites everywhere true []) (q'.sites everywhere true [])

/-! ## When a place is kept -/

def NewBinding (snapshot current : OntologyIR) (pivot : Bool) : Bound → Binding → Prop
  | ⟨.node l, w⟩, .node m =>
    NewLabel (nodeTypeLabels current) (nodeLabelById snapshot) (pivot && w) l m
  | ⟨.edge l, w⟩, .edge m =>
    NewLabel (edgeTypeLabels current) (edgeLabelById snapshot) (pivot && w) l m
  | _, _ => False

/-- The types of a label are the snapshot types of one label, the same one where the
walk does not come; the properties of a name on the types of a label are the
properties of the name that the place gets on the snapshot types of the label that
the binding gets. -/
def Site.Kept (snapshot current : OntologyIR) (q : QueryIR) (x : Site) : Prop :=
  match x.mention with
  | .nodeLabel l =>
    ∃ m, ((q.asOf.isSome && x.walked) = true ∨ m = l) ∧
      ∀ r, r ∈ nodeLabelRefs snapshot m ↔ r ∈ nodeLabelRefs current l
  | .edgeLabel l =>
    ∃ m, ((q.asOf.isSome && x.walked) = true ∨ m = l) ∧
      ∀ r, r ∈ edgeLabelRefs snapshot m ↔ r ∈ edgeLabelRefs current l
  | .property owner p =>
    ∀ b, owner.bound x.scope = some b → ∃ b', NewBinding snapshot current q.asOf.isSome b b' ∧
      ∀ r, r ∈ propertyRefs snapshot b'
          (nameCarried current snapshot (x.renamedBy current q owner) p) ↔
        r ∈ propertyRefs current b.binding p
  | .literal _ _ _ | .members _ _ _ => True

variable {o : OntologyIR}

theorem mem_nodeLabelRefs {l : GraphLabel} {r : Ref} :
    r ∈ nodeLabelRefs o l ↔ ∃ id, (id, l) ∈ nodeTypeLabels o ∧ r = .nodeType id := by
  simp only [nodeLabelRefs, nodeTypeLabels, mem_map, mem_filter, decide_eq_true_eq, Prod.mk.injEq]
  constructor
  · intro h
    obtain ⟨n, ⟨hn, hl⟩, hr⟩ := h
    exact ⟨n.id, ⟨n, hn, rfl, hl⟩, hr.symm⟩
  · intro h
    obtain ⟨id, ⟨n, hn, hi, hl⟩, hr⟩ := h
    exact ⟨n, ⟨hn, hl⟩, by rw [hr, hi]⟩

theorem mem_edgeLabelRefs {l : GraphLabel} {r : Ref} :
    r ∈ edgeLabelRefs o l ↔ ∃ id, (id, l) ∈ edgeTypeLabels o ∧ r = .edgeType id := by
  simp only [edgeLabelRefs, edgeTypeLabels, mem_map, mem_filter, decide_eq_true_eq, Prod.mk.injEq]
  constructor
  · intro h
    obtain ⟨e, ⟨he, hl⟩, hr⟩ := h
    exact ⟨e.id, ⟨e, he, rfl, hl⟩, hr.symm⟩
  · intro h
    obtain ⟨id, ⟨e, he, hi, hl⟩, hr⟩ := h
    exact ⟨e, ⟨he, hl⟩, by rw [hr, hi]⟩

theorem nodeLabelById_of_mem (ho : o.Indexed) {id : NodeTypeId} {m : GraphLabel}
    (h : (id, m) ∈ nodeTypeLabels o) : nodeLabelById o id = some m := by
  obtain ⟨n, hn, he⟩ := mem_map.1 h
  cases he
  rw [nodeLabelById, (last_some_iff NodeTypeDef.id ho.nodeIds).2 ⟨hn, rfl⟩]
  rfl

theorem edgeLabelById_of_mem (ho : o.Indexed) {id : EdgeTypeId} {m : GraphLabel}
    (h : (id, m) ∈ edgeTypeLabels o) : edgeLabelById o id = some m := by
  obtain ⟨e, he, hx⟩ := mem_map.1 h
  cases hx
  rw [edgeLabelById, (last_some_iff EdgeTypeDef.id ho.edgeIds).2 ⟨he, rfl⟩]
  rfl

/-- A label place, given what the pass does to labels. -/
theorem label_kept_iff {ι : Type} {types types' : List (ι × GraphLabel)}
    {snap : ι → Option GraphLabel} (hsnap : ∀ id m, (id, m) ∈ types' → snap id = some m)
    {w : Bool} {l l' : GraphLabel} (hl : ∀ m, NewLabel types snap w l m ↔ m = l')
    (hne : ∃ id, (id, l) ∈ types) : (∀ id, (id, l') ∈ types' ↔ (id, l) ∈ types) ↔
      ∃ m, (w = true ∨ m = l) ∧ ∀ id, (id, m) ∈ types' ↔ (id, l) ∈ types := by
  constructor
  · intro h
    refine ⟨l', ?_, h⟩
    cases w with
    | true => exact inl rfl
    | false => exact inr ((hl l').2 rfl)
  · intro h
    obtain ⟨m, hm, h⟩ := h
    have hml : m = l' := by
      rw [← hl]
      cases w with
      | true => exact newLabel_of_same hsnap hne h
      | false =>
        rcases hm with hm | hm
        · cases hm
        · exact hm
    rw [← hml]
    exact h

section

variable {snapshot current : OntologyIR} {q : QueryIR} {h : Hooks}

/-- The demand on one place, for a pass that gives it the labels and the name that
the rewriter does. -/
theorem site_kept_iff (hs : snapshot.Indexed)
    (hn : ∀ w l m, NewLabel (nodeTypeLabels current) (nodeLabelById snapshot)
      (q.asOf.isSome && w) l m ↔ m = label w h.nodeLabel l)
    (he : ∀ w l m, NewLabel (edgeTypeLabels current) (edgeLabelById snapshot)
      (q.asOf.isSome && w) l m ↔ m = label w h.edgeLabel l)
    {x : Site} (hp : ∀ owner p, h.key x.walked owner p =
      nameCarried current snapshot (x.renamedBy current q owner) p)
    (hx : (site {} (temporalWalks current) x).Resolves current) :
    (∀ r, r ∈ (h.site (temporalWalks current) x).refs snapshot ↔
        r ∈ (site {} (temporalWalks current) x).refs current) ↔
      x.Kept snapshot current q := by
  obtain ⟨w, s, m⟩ := x
  have hid : ∀ l, label w id l = l := fun l => ite_self _
  cases m with
  | nodeLabel l =>
    have hne : ∃ id, (id, l) ∈ nodeTypeLabels current := by
      obtain ⟨r, hr⟩ := exists_mem_of_ne_nil _ hx
      obtain ⟨id, hi, -⟩ := mem_nodeLabelRefs.1 hr
      exact ⟨id, (hid l) ▸ hi⟩
    have hrefs : ∀ m m', (∀ r, r ∈ nodeLabelRefs snapshot m ↔ r ∈ nodeLabelRefs current m') ↔
        ∀ id, (id, m) ∈ nodeTypeLabels snapshot ↔ (id, m') ∈ nodeTypeLabels current := by
      intro m m'
      constructor
      · intro h id
        have h := h (.nodeType id)
        rw [mem_nodeLabelRefs, mem_nodeLabelRefs] at h
        simpa using h
      · intro h r
        simp only [mem_nodeLabelRefs, h]
    show (∀ r, r ∈ nodeLabelRefs snapshot (label w h.nodeLabel l) ↔
      r ∈ nodeLabelRefs current (label w id l)) ↔ _
    rw [hid, hrefs]
    simp only [Site.Kept, hrefs]
    exact label_kept_iff (fun id m => nodeLabelById_of_mem hs) (hn w l) hne
  | edgeLabel l =>
    have hne : ∃ id, (id, l) ∈ edgeTypeLabels current := by
      obtain ⟨r, hr⟩ := exists_mem_of_ne_nil _ hx
      obtain ⟨id, hi, -⟩ := mem_edgeLabelRefs.1 hr
      exact ⟨id, (hid l) ▸ hi⟩
    have hrefs : ∀ m m', (∀ r, r ∈ edgeLabelRefs snapshot m ↔ r ∈ edgeLabelRefs current m') ↔
        ∀ id, (id, m) ∈ edgeTypeLabels snapshot ↔ (id, m') ∈ edgeTypeLabels current := by
      intro m m'
      constructor
      · intro h id
        have h := h (.edgeType id)
        rw [mem_edgeLabelRefs, mem_edgeLabelRefs] at h
        simpa using h
      · intro h r
        simp only [mem_edgeLabelRefs, h]
    show (∀ r, r ∈ edgeLabelRefs snapshot (label w h.edgeLabel l) ↔
      r ∈ edgeLabelRefs current (label w id l)) ↔ _
    rw [hid, hrefs]
    simp only [Site.Kept, hrefs]
    exact label_kept_iff (fun id m => edgeLabelById_of_mem hs) (he w l) hne
  | property owner p =>
    have hnew : ∀ b b', NewBinding snapshot current q.asOf.isSome b b' ↔
        b' = (h.bound b).binding := by
      intro b b'
      obtain ⟨b, w⟩ := b
      cases b with
      | node l =>
        cases b' with
        | node m => exact (hn w l m).trans ⟨congrArg _, fun hb => Binding.node.inj hb⟩
        | edge m => exact ⟨False.elim, fun hb => Binding.noConfusion hb⟩
      | edge l =>
        cases b' with
        | node m => exact ⟨False.elim, fun hb => Binding.noConfusion hb⟩
        | edge m => exact (he w l m).trans ⟨congrArg _, fun hb => Binding.edge.inj hb⟩
    have hkey : Hooks.key {} w owner p = p := ite_self _
    show (∀ r, r ∈ ((h.owner owner).binding (h.scope s)).toList.flatMap
          (fun b => propertyRefs snapshot b (h.key w owner p)) ↔
        r ∈ ((Hooks.owner {} owner).binding (Hooks.scope {} s)).toList.flatMap
          (fun b => propertyRefs current b (Hooks.key {} w owner p))) ↔ _
    rw [hp, hkey, Owner.binding_default, Owner.binding, Owner.binding, Hooks.bound_owner]
    simp only [Site.Kept, hnew]
    cases owner.bound s with
    | none => simp
    | some b => simp
  | literal owner p code | members owner p values => exact ⟨fun _ => trivial, fun _ _ => Iff.rfl⟩

end

/-- Every place of the rewritten query denotes in the snapshot what the query denotes
now exactly when every place is kept. -/
theorem renamesComplete_iff {q q' : QueryIR} {snapshot current : IndexedOntology}
    (ha : Authored current.ir q)
    (hok : rewriteTemporalWithRenames q snapshot.ir current.ir = .ok q') :
    RenamesComplete q q' snapshot.ir current.ir ↔
      ∀ x ∈ q.sites (temporalWalks current.ir) true [], x.Kept snapshot.ir current.ir q := by
  have hx : ∀ x ∈ q.sites (temporalWalks current.ir) true [],
      (site {} (temporalWalks current.ir) x).Resolves current.ir := by
    intro x hx
    apply ha
    rw [q.sites_everywhere (temporalWalks current.ir)]
    exact mem_map_of_mem hx
  cases hq : q.asOf with
  | none =>
    -- the query is handed back as it came
    have hq' : q' = q := by
      rw [rewriteTemporalWithRenames, hq, if_pos Option.isNone_none] at hok
      exact (Except.ok.inj hok).symm
    rw [RenamesComplete, hq', q.sites_everywhere (temporalWalks current.ir),
      forall₂_map_left_iff, forall₂_map_right_iff, forall₂_same]
    refine forall₂_congr fun x hmem => ?_
    have hlabel : ∀ w l, label w id l = l := fun w l => ite_self _
    refine site_kept_iff snapshot.indexed (fun w l m => ?_) (fun w l m => ?_)
      (fun owner p => ?_) (hx x hmem)
    · rw [hlabel, hq]
      exact Iff.rfl
    · rw [hlabel, hq]
      exact Iff.rfl
    · have hnone : x.renamedBy current.ir q owner = none := by
        simp [Site.renamedBy, hq]
      rw [hnone]
      exact ite_self _
  | some t =>
    obtain ⟨-, nl, el, hnl, hel, hq'⟩ := (temporalRenames_ok_iff hq).1 hok
    have hsome : q.asOf.isSome = true := by rw [hq]; rfl
    have hsites : q'.sites everywhere true [] =
        (q.sites (temporalWalks current.ir) true []).map
          ((between current.ir snapshot.ir nl el
            (q.operation.collectVariableOwners current.ir [])).hooks.site
              (temporalWalks current.ir)) := by
      rw [hq', ← @QueryIR.sites_rewrite (temporalWalks current.ir) _ true [] q]
      obtain ⟨op, l, k, os, a⟩ := q
      simp only [QueryIR.rewrite, temporalWalks, Bool.true_and, OrderClause.list_inert,
        inert_false, QueryIR.sites]
      rfl
    rw [RenamesComplete, hsites, q.sites_everywhere (temporalWalks current.ir),
      forall₂_map_left_iff, forall₂_map_right_iff, forall₂_same]
    refine forall₂_congr fun x hmem => ?_
    refine site_kept_iff snapshot.indexed (fun w l m => ?_) (fun w l m => ?_)
      (key_hooks_between current.indexed nl el hsome x) (hx x hmem)
    · rw [hsome, Bool.true_and]
      exact newLabel_iff hnl w l m
    · rw [hsome, Bool.true_and]
      exact newLabel_iff hel w l m

/-- An ontology with one node type that has one property. -/
def customers (name : PropertyKey) : OntologyIR where
  id := "o"
  name := "o"
  nodeTypes :=
    [{ id := ⟨"customer"⟩
       label := ⟨"Customer", .refl true⟩
       properties := [{ id := ⟨"p"⟩, name := name, propertyType := .string }] }]

/-- `customers` with distinct keys, as a caller holds it. -/
def indexedCustomers (name : PropertyKey) : IndexedOntology where
  ir := customers name
  indexed := ((customers name).rebuild_ok_iff).1 rfl

/-- `MATCH (c:Customer) RETURN c.name`. -/
def returnProperty (name : PropertyKey) (asOf : Option DateTime) : QueryIR where
  operation := .match_ [.node ⟨"c"⟩ (some ⟨"Customer", .refl true⟩) []] none
    [.field ⟨"c"⟩ name none] false []
  limit := none
  skip := none
  orderBy := []
  asOf := asOf

theorem renamesComplete_returnProperty :
    RenamesComplete (returnProperty ⟨"fullName", by decide⟩ (some 0))
        (returnProperty ⟨"fullName", by decide⟩ none)
        (indexedCustomers ⟨"name", by decide⟩).ir (indexedCustomers ⟨"fullName", by decide⟩).ir ↔
      ∀ x ∈ (returnProperty ⟨"fullName", by decide⟩ (some 0)).sites
          (temporalWalks (indexedCustomers ⟨"fullName", by decide⟩).ir) true [],
        x.Kept (indexedCustomers ⟨"name", by decide⟩).ir
          (indexedCustomers ⟨"fullName", by decide⟩).ir
          (returnProperty ⟨"fullName", by decide⟩ (some 0)) :=
  renamesComplete_iff (by decide) rfl

/-- A returned column keeps its current name, which the snapshot does not know. -/
theorem returned_property_not_renamed : ∃ q', Authored (customers ⟨"fullName", by decide⟩)
        (returnProperty ⟨"fullName", by decide⟩ (some 0)) ∧
      rewriteTemporalWithRenames (returnProperty ⟨"fullName", by decide⟩ (some 0))
        (customers ⟨"name", by decide⟩) (customers ⟨"fullName", by decide⟩) = .ok q' ∧
      ¬RenamesComplete (returnProperty ⟨"fullName", by decide⟩ (some 0)) q'
        (customers ⟨"name", by decide⟩) (customers ⟨"fullName", by decide⟩) := by
  refine ⟨returnProperty ⟨"fullName", by decide⟩ none, by decide, rfl, ?_⟩
  intro h
  have hfield := (forall₂_cons.1 (forall₂_cons.1 h).2).1
    (.nodeProperty ⟨"customer"⟩ ⟨"p"⟩)
  exact absurd hfield (by decide)

end Ontosyx.Query
