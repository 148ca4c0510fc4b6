import Ontosyx.Ontology.Exchange
import Ontosyx.Ontology.Mutators

/-!
# Normalizing an exchange document

`normalize`, the single ingress of exchange documents: names are resolved back
to ids, what cannot be resolved is dropped with a warning, and the result is
indexed and validated.  The source's `gen_id` draws a random id at each call;
here the draws are a function of the place that asks.  A warning keeps its kind
and, in place of its English text, the values the text is made of.
-/

namespace Ontosyx.Ontology

open Ontosyx.Core Lib.Keyed Prod

/-- The places of a document at which an id may have to be drawn. -/
inductive IdPlace where
  | ontology
  | node (i : Nat)
  | nodeProperty (i j : Nat)
  | constraint (i j : Nat)
  | edge (i : Nat)
  | edgeProperty (i j : Nat)
  | index (i : Nat)
deriving DecidableEq

/-- What a run of `normalize` is given beside the document: the ids `gen_id`
draws, the standard library's `to_lowercase`, and the source the mappings are
stamped with. -/
structure NormalizeContext where
  genId : IdPlace → String
  toLowercase : String → String
  sourceId : SourceId

def NormalizeContext.ensureId (ctx : NormalizeContext) (place : IdPlace) (id : Option String) :
    String :=
  id.getD (ctx.genId place)

structure NormalizeWarning where
  kind : String
  about : List String
deriving DecidableEq

/-- A `filter_map` whose closure may warn. -/
def collect {α β : Type} (f : α → Option β × List NormalizeWarning) (xs : List α) :
    List β × List NormalizeWarning :=
  (xs.filterMap fun x => (f x).1, xs.flatMap fun x => (f x).2)

/-- One row of the table after the row above it, for the byte `x`; `left` is
the cell to the left and `above` starts at the cell above that one. -/
def levenshteinRow (x : UInt8) (left : Nat) : List Nat → List UInt8 → List Nat
  | diagonal :: up :: above, y :: ys =>
    let cell := min (min (up + 1) (left + 1)) (diagonal + if x = y then 0 else 1)
    cell :: levenshteinRow x cell (up :: above) ys
  | _, _ => []

/-- The rows below `above`, the `i`-th row; the last one is returned. -/
def levenshteinRows (b : List UInt8) (i : Nat) (above : List Nat) : List UInt8 → List Nat
  | [] => above
  | x :: xs => levenshteinRows b (i + 1) ((i + 1) :: levenshteinRow x (i + 1) above b) xs

/-- `levenshtein`, on bytes. -/
def levenshtein (a b : String) : Nat :=
  let b := b.toUTF8.toList
  ((levenshteinRows b 0 (List.range (b.length + 1)) a.toUTF8.toList).getLast?).getD 0

/-- `resolve_prop`: by name, else by id. -/
def resolveProp (names : List (String × PropertyId)) (nameOrId : String) : Option PropertyId :=
  ((names.find? fun e => e.1 = nameOrId).or (names.find? fun e => e.2.val = nameOrId)).map (·.2)

/-- `fuzzy_resolve_prop`: the one name within two edits. -/
def fuzzyResolveProp (ctx : NormalizeContext) (names : List (String × PropertyId))
    (nameOrId : String) : Option (String × PropertyId) :=
  if nameOrId.utf8ByteSize < 4 then none
  else
    let lower := ctx.toLowercase nameOrId
    let candidates := names.filter fun e =>
      let dist := levenshtein lower (ctx.toLowercase e.1)
      0 < dist && dist ≤ 2
    match candidates with
    | [candidate] => some candidate
    | _ => none

/-- One property of a node or edge; `none` when its name is not a valid key. -/
def normalizeProperty (ctx : NormalizeContext) (place : IdPlace) (p : InputPropertyDef) :
    Option PropertyDef :=
  (PropertyKey.new p.name).map fun name =>
    { id := ⟨ctx.ensureId place p.id⟩
      name := name
      propertyType := p.propertyType
      nullable := p.nullable
      defaultValue := p.defaultValue
      description := p.description }

/-- The properties of one owner, each beside what it was made from. -/
def normalizeProperties (ctx : NormalizeContext) (place : Nat → IdPlace) (owner : String)
    (ps : List InputPropertyDef) :
    List (InputPropertyDef × PropertyDef) × List NormalizeWarning :=
  collect (fun (p, j) =>
    match normalizeProperty ctx (place j) p with
    | some d => (some (p, d), [])
    | none => (none, [⟨"dropped_property", [owner, p.name]⟩])) ps.zipIdx

/-- What the reference loop of a constraint has gathered. -/
structure ResolvedProperties where
  ids : List PropertyId := []
  unresolved : List String := []
  warnings : List NormalizeWarning := []

/-- The reference loop of a constraint. -/
def resolveProperties (ctx : NormalizeContext) (owner : String)
    (names : List (String × PropertyId)) : List String → ResolvedProperties
  | [] => {}
  | p :: ps =>
    let rest := resolveProperties ctx owner names ps
    match resolveProp names p with
    | some id => { rest with ids := id :: rest.ids }
    | none =>
      match fuzzyResolveProp ctx names p with
      | some (matched, id) =>
        { rest with
          ids := id :: rest.ids
          warnings := ⟨"auto_corrected", [owner, p, matched]⟩ :: rest.warnings }
      | none => { rest with unresolved := p :: rest.unresolved }

/-- A constraint on a list of properties: kept with what was resolved. -/
def normalizeConstraintProperties (ctx : NormalizeContext) (owner : String)
    (names : List (String × PropertyId)) (ps : List String) :
    Option (List PropertyId) × List NormalizeWarning :=
  let found := resolveProperties ctx owner names ps
  if found.ids = [] then
    (none, found.warnings ++ [⟨"dropped_constraint", owner :: found.unresolved⟩])
  else
    (some found.ids, found.warnings ++
      if found.unresolved = [] then []
      else [⟨"partial_constraint", owner :: toString found.ids.length :: found.unresolved⟩])

def normalizeConstraint (ctx : NormalizeContext) (place : IdPlace) (owner : String)
    (names : List (String × PropertyId)) :
    InputNodeConstraint → Option ConstraintDef × List NormalizeWarning
  | .unique id properties =>
    let found := normalizeConstraintProperties ctx owner names properties
    (found.1.map fun ids => ⟨⟨ctx.ensureId place id⟩, .unique ids⟩, found.2)
  | .exists_ id property =>
    match resolveProp names property with
    | some pid => (some ⟨⟨ctx.ensureId place id⟩, .exists_ pid⟩, [])
    | none =>
      match fuzzyResolveProp ctx names property with
      | some (matched, pid) =>
        (some ⟨⟨ctx.ensureId place id⟩, .exists_ pid⟩,
          [⟨"auto_corrected", [owner, property, matched]⟩])
      | none => (none, [⟨"dropped_constraint", [owner, property]⟩])
  | .nodeKey id properties =>
    let found := normalizeConstraintProperties ctx owner names properties
    (found.1.map fun ids => ⟨⟨ctx.ensureId place id⟩, .nodeKey ids⟩, found.2)

/-! ## Node types -/

/-- `ObjectMappingId::for_node_source`. -/
def ObjectMappingId.forNodeSource (nodeTypeId : NodeTypeId) (sourceId : SourceId) :
    ObjectMappingId :=
  ⟨"om-" ++ nodeTypeId.val ++ "@" ++ sourceId.val⟩

/-- The property mapping of a property with a column, under a node with a
table. -/
def columnMapping (table : Option String) (entry : InputPropertyDef × PropertyDef) :
    Option PropertyMappingDef :=
  table.bind fun t => entry.1.sourceColumn.map fun c =>
    { propertyId := entry.2.id, propertyKey := entry.2.name, location := .column ⟨t, c⟩ }

def pendingMapping (ctx : NormalizeContext) (nodeId : NodeTypeId) (sourceTable : Option String)
    (properties : List (InputPropertyDef × PropertyDef)) : Option ObjectMappingDef :=
  sourceTable.map fun table =>
    { id := .forNodeSource nodeId ctx.sourceId
      nodeTypeId := nodeId
      sourceId := ctx.sourceId
      relation := table
      propertyMappings := properties.filterMap (columnMapping sourceTable)
      precedence := 2 ^ 32 - 1 }

structure NormalizedNode where
  node : NodeTypeDef
  mapping : Option ObjectMappingDef
  names : List (String × PropertyId)
  warnings : List NormalizeWarning

def normalizeNode (ctx : NormalizeContext) (entry : InputNodeTypeDef × Nat) :
    Except (List DiagnosticMessage) NormalizedNode :=
  let (n, i) := entry
  let nodeId : NodeTypeId := ⟨ctx.ensureId (.node i) n.id⟩
  let properties := normalizeProperties ctx (.nodeProperty i) n.label n.properties
  let names := properties.1.map fun e => (e.1.name, e.2.id)
  let constraints := collect
    (fun (c, j) => normalizeConstraint ctx (.constraint i j) n.label names c) n.constraints.zipIdx
  match GraphLabel.new n.label with
  | none => .error [⟨"ontology.normalize.invalid_node_label", [("label", n.label)]⟩]
  | some label =>
    .ok
      { node :=
          { id := nodeId
            label := label
            description := n.description
            properties := properties.1.map (·.2)
            constraints := constraints.1 }
        mapping := pendingMapping ctx nodeId n.sourceTable properties.1
        names := names
        warnings := properties.2 ++ constraints.2 }

/-- `resolve_node`: by label, else by id among the ids a label leads to. -/
def resolveNode (labels : List (String × NodeTypeId)) (labelOrId : String) : Option NodeTypeId :=
  ((last fst labelOrId labels).or
    (labels.find? fun e => e.2.val = labelOrId ∧ last fst e.1 labels = some e)).map (·.2)

def normalizeEdge (ctx : NormalizeContext) (labels : List (String × NodeTypeId))
    (entry : InputEdgeTypeDef × Nat) : Option EdgeTypeDef × List NormalizeWarning :=
  let (e, i) := entry
  match resolveNode labels e.sourceType with
  | none => (none, [⟨"dropped_edge", [e.label, e.sourceType]⟩])
  | some sourceNodeId =>
    match resolveNode labels e.targetType with
    | none => (none, [⟨"dropped_edge", [e.label, e.targetType]⟩])
    | some targetNodeId =>
      match GraphLabel.new e.label with
      | none => (none, [⟨"dropped_edge", [e.label]⟩])
      | some label =>
        let properties := normalizeProperties ctx (.edgeProperty i) e.label e.properties
        (some
          { id := ⟨ctx.ensureId (.edge i) e.id⟩
            label := label
            description := e.description
            sourceNodeId := sourceNodeId
            targetNodeId := targetNodeId
            properties := properties.1.map (·.2)
            cardinality := e.cardinality
            kind := e.kind },
          properties.2)

/-- `label_to_node_id` and `node_prop_map` after the node loop. -/
structure NodeNames where
  labelToNodeId : List (String × NodeTypeId)
  nodePropMap : List (String × List (String × PropertyId))

/-- The property loop of `resolve_index`. -/
def resolveIndexProperties (names : NodeNames) (label : String) (propNames : List String)
    (indexDesc : String) : List PropertyId × List NormalizeWarning :=
  match last fst label names.nodePropMap with
  | some (_, props) =>
    collect (fun pn =>
      match props.find? fun e : String × PropertyId => e.1 = pn with
      | some (_, pid) => (some pid, [])
      | none => (none, [⟨"dropped_index_property", [indexDesc, label, pn]⟩])) propNames
  | none => ([], [])

def resolveIndex (names : NodeNames) (label : String) (propNames : List String)
    (indexDesc : String) : Option (NodeTypeId × List PropertyId) × List NormalizeWarning :=
  match last fst label names.labelToNodeId with
  | none => (none, [⟨"dropped_index", [indexDesc, label]⟩])
  | some (_, nodeId) =>
    let found := resolveIndexProperties names label propNames indexDesc
    if found.1 = [] then (none, found.2 ++ [⟨"dropped_index", [indexDesc]⟩])
    else (some (nodeId, found.1), found.2)

def normalizeIndex (ctx : NormalizeContext) (names : NodeNames) (entry : InputIndexDef × Nat) :
    Option IndexDef × List NormalizeWarning :=
  let (idx, i) := entry
  match idx with
  | .single id label property =>
    let found := resolveIndex names label [property] ("single on " ++ label ++ "." ++ property)
    (found.1.bind fun (nodeId, ids) =>
      ids.head?.map fun pid => .single (ctx.ensureId (.index i) id) nodeId pid, found.2)
  | .composite id label properties =>
    let found := resolveIndex names label properties ("composite on " ++ label)
    (found.1.map fun (nodeId, ids) => .composite (ctx.ensureId (.index i) id) nodeId ids,
      found.2)
  | .fullText id name label properties =>
    let found := resolveIndex names label properties ("fulltext '" ++ name ++ "'")
    match found.1 with
    | none => (none, found.2)
    | some (nodeId, ids) =>
      match GraphLabel.new name with
      | none => (none, found.2 ++ [⟨"dropped_index", [name]⟩])
      | some name =>
        (some (.fullText (ctx.ensureId (.index i) id) name nodeId ids), found.2)
  | .vector id label property dimensions similarity =>
    let found := resolveIndex names label [property] ("vector on " ++ label ++ "." ++ property)
    (found.1.bind fun (nodeId, ids) =>
      ids.head?.map fun pid =>
        .vector (ctx.ensureId (.index i) id) nodeId pid dimensions similarity, found.2)

/-- What a successful run returns. -/
structure NormalizeOutcome where
  ontology : OntologyIR
  warnings : List NormalizeWarning

def attachMappings : List ObjectMappingDef → OntologyState →
    Except OntologyInvariantError OntologyState
  | [], s => .ok s
  | om :: oms, s =>
    match OntologyState.addObjectMapping om s with
    | (.ok (), s) => attachMappings oms s
    | (.error e, _) => .error e

/-- The part of `normalize` after the node, edge and index loops.  `none` is the
panic of `OntologyIR::new` on duplicate ids or labels. -/
def finishNormalize (o : OntologyIR) (pending : List ObjectMappingDef)
    (warnings : List NormalizeWarning) :
    Option (Except (List DiagnosticMessage) NormalizeOutcome) :=
  match o.rebuildIndices with
  | .error _ => none
  | .ok () =>
    match attachMappings pending (.ofIR o) with
    | .error _ => some (.error [⟨"ontology.normalize.add_object_mapping_failed", []⟩])
    | .ok s =>
      if s.ir.validate ≠ [] then some (.error s.ir.validate)
      else some (.ok ⟨s.ir, warnings⟩)

def normalize (ctx : NormalizeContext) (input : InputOntologyDef) :
    Option (Except (List DiagnosticMessage) NormalizeOutcome) :=
  match input.nodeTypes.zipIdx.mapM (normalizeNode ctx) with
  | .error e => some (.error e)
  | .ok nodes =>
    let names : NodeNames :=
      { labelToNodeId := nodes.map fun n => (n.node.label.val, n.node.id)
        nodePropMap := nodes.map fun n => (n.node.label.val, n.names) }
    let edges := collect (normalizeEdge ctx names.labelToNodeId) input.edgeTypes.zipIdx
    let indexes := collect (normalizeIndex ctx names) input.indexes.zipIdx
    finishNormalize
      { id := ctx.ensureId .ontology input.id
        name := input.name
        description := input.description
        version := { number := input.version }
        nodeTypes := nodes.map (·.node)
        edgeTypes := edges.1
        indexes := indexes.1 }
      (nodes.filterMap (·.mapping))
      (nodes.flatMap (·.warnings) ++ edges.2 ++ indexes.2)

end Ontosyx.Ontology
