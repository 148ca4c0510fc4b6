import Ontosyx.Compile.Piece
import Ontosyx.Ontology.Diff

/-!
# Data migration

`compile_data_migration` (`cypher/migration.rs`): the statements that carry the
data of a graph over a diff, and what they do to a stored graph when they run
one after the other.

What lies outside the repository is collected in `Engine`: how the standard
library prints a double, how the database reads the text of a default, and what
its coercion functions return.  A coercion of a value it does not know gives
null.  The English descriptions of the steps are left out.
-/

namespace Ontosyx.Compile

open Ontosyx.Core Ontology

/-! ## Statements -/

inductive Coercion where
  | toInteger | toFloat | toString
deriving DecidableEq

def Coercion.cypherName : Coercion → String
  | .toInteger => "toInteger"
  | .toFloat => "toFloat"
  | .toString => "toString"

/-- The coercion between two types, as the diff report names them. -/
def coercionBetween (old new : String) : Option Coercion :=
  match old, new with
  | "string", "int" => some .toInteger
  | "string", "float" => some .toFloat
  | "int", "string" | "float", "string" | "bool", "string" => some .toString
  | "int", "float" => some .toFloat
  | _, _ => none

/-- What a statement does to one property of everything it matches. -/
inductive Edit where
  /-- `WHERE x.p IS NULL SET x.p = default`, with the text of the default. -/
  | backfill (property : PropertyKey) (default : String)
  | remove (property : PropertyKey)
  | coerce (property : PropertyKey) (coercion : Coercion)
  /-- A comment: there is no coercion between the two types. -/
  | warning (property : PropertyKey) (old new : String)

inductive DataStatement where
  | renameLabel (old new : GraphLabel)
  | onNodes (label : GraphLabel) (edit : Edit)
  /-- A comment: relationships have to be recreated by hand. -/
  | renameType (old new : GraphLabel)
  | onRelationships (type : GraphLabel) (edit : Edit)

/-- The text of an edit behind its `MATCH`, on the variable `v`; `owner` is what
a comment names. -/
def Edit.cypher (clause v owner : String) : Edit → String
  | .backfill p default =>
    let key := v ++ "." ++ escapeIdentifier p.val
    clause ++ " WHERE " ++ key ++ " IS NULL SET " ++ key ++ " = " ++ default
  | .remove p => clause ++ " REMOVE " ++ v ++ "." ++ escapeIdentifier p.val
  | .coerce p coercion =>
    let key := v ++ "." ++ escapeIdentifier p.val
    clause ++ " SET " ++ key ++ " = " ++ coercion.cypherName ++ "(" ++ key ++ ")"
  | .warning p old new =>
    "// WARNING: No automatic coercion for " ++ old ++ " -> " ++ new ++ " on " ++ owner ++ "." ++
      p.val

/-- The `cypher` of a step. -/
def DataStatement.cypher : DataStatement → String
  | .renameLabel old new =>
    "MATCH (n:" ++ escapeIdentifier old.val ++ ") SET n:" ++ escapeIdentifier new.val ++
      " REMOVE n:" ++ escapeIdentifier old.val
  | .onNodes label edit =>
    edit.cypher ("MATCH (n:" ++ escapeIdentifier label.val ++ ")") "n" label.val
  | .renameType old new =>
    "// Edge type rename [" ++ old.val ++ "] -> [" ++ new.val ++
      "] requires manual migration:\n// MATCH (a)-[r:" ++ escapeIdentifier old.val ++
      "]->(b)\n// CREATE (a)-[r2:" ++ escapeIdentifier new.val ++
      "]->(b) SET r2 = properties(r)\n// DELETE r"
  | .onRelationships type edit =>
    edit.cypher ("MATCH ()-[r:" ++ escapeIdentifier type.val ++ "]->()") "r"
      ("[" ++ type.val ++ "]")

/-- The `is_destructive` of an edit's step. -/
def Edit.isDestructive : Edit → Bool
  | .backfill .. => false
  | .remove _ | .coerce .. | .warning .. => true

structure DataMigrationStep where
  statement : DataStatement
  isDestructive : Bool

/-- `Display` of a property value. -/
def displayValue (showFloat : F64 → String) : PropertyValue → String
  | .null => "null"
  | .bool b => if b then "true" else "false"
  | .int n => toString n.toInt
  | .float x => showFloat x
  | .string s => "\"" ++ s ++ "\""
  | .date day => "date(\"" ++ dateText day ++ "\")"
  | .dateTime nanos => "datetime(\"" ++ dateTimeText nanos ++ "\")"
  | .duration s => "duration(\"" ++ s ++ "\")"
  | .bytes bs => "<" ++ toString bs.length ++ " bytes>"
  | .list vs => "[" ++ toString vs.length ++ " items]"
  | .map entries => "\x7b" ++ toString entries.length ++ " entries\x7d"

/-- A property that came in: it is filled when it is required and has a default. -/
def addedEdits (showFloat : F64 → String) (property : PropertyDef) : List Edit :=
  if property.nullable then []
  else
    match property.defaultValue with
    | some default => [.backfill property.name (displayValue showFloat default)]
    | none => []

/-- A property that changed: each change of its type is a coercion or a comment. -/
def modifiedEdits (name : PropertyKey) (changes : List PropertyChange) : List Edit :=
  changes.filterMap fun change =>
    match change with
    | .typeChanged old new =>
      match coercionBetween old new with
      | some coercion => some (.coerce name coercion)
      | none => some (.warning name old new)
    | _ => none

def editStep (statement : Edit → DataStatement) (edit : Edit) : DataMigrationStep :=
  ⟨statement edit, edit.isDestructive⟩

/-- The steps of one change of the node type that now has `label`. -/
def nodeSteps (showFloat : F64 → String) (label : GraphLabel) :
    NodeChange → List DataMigrationStep
  | .labelChanged old new => [⟨.renameLabel old new, false⟩]
  | .propertyAdded property => (addedEdits showFloat property).map (editStep (.onNodes label))
  | .propertyRemoved property => [editStep (.onNodes label) (.remove property.name)]
  | .propertyModified name changes =>
    (modifiedEdits name changes).map (editStep (.onNodes label))
  | _ => []

/-- The steps of one change of the edge type that now has `label`. -/
def edgeSteps (showFloat : F64 → String) (label : GraphLabel) :
    EdgeChange → List DataMigrationStep
  | .labelChanged old new => [⟨.renameType old new, true⟩]
  | .propertyAdded property =>
    (addedEdits showFloat property).map (editStep (.onRelationships label))
  | .propertyRemoved property => [editStep (.onRelationships label) (.remove property.name)]
  | .propertyModified name changes =>
    (modifiedEdits name changes).map (editStep (.onRelationships label))
  | _ => []

def compileDataMigration (showFloat : F64 → String) (diff : OntologyDiff) :
    List DataMigrationStep :=
  diff.modifiedNodes.flatMap (fun d => d.changes.flatMap (nodeSteps showFloat d.label)) ++
    diff.modifiedEdges.flatMap fun d => d.changes.flatMap (edgeSteps showFloat d.label)

/-! ## Running the statements -/

/-- What lies outside the repository. -/
structure Engine where
  /-- `Display` of a double. -/
  showFloat : F64 → String
  /-- The value of a literal, `some none` for null; nothing for text that is
  rejected. -/
  literal : String → Option (Option PropertyValue)
  coerce : Coercion → PropertyValue → Option PropertyValue

/-- The properties of a node or a relationship; an absent property is null. -/
abbrev Props := PropertyKey → Option PropertyValue

structure StoredNode where
  labels : Finset GraphLabel
  props : Props

/-- A relationship; no statement reads its ends. -/
structure StoredRelationship where
  type : GraphLabel
  props : Props

structure StoredGraph where
  nodes : List StoredNode
  relationships : List StoredRelationship

namespace Edit

def property : Edit → PropertyKey
  | .backfill p _ | .remove p | .coerce p _ | .warning p _ _ => p

def value (engine : Engine) : Edit → Option PropertyValue → Option PropertyValue
  | .backfill _ default, x => x.or (engine.literal default).join
  | .remove _, _ => none
  | .coerce _ coercion, x => x.bind (engine.coerce coercion)
  | .warning .., x => x

def apply (engine : Engine) (e : Edit) (props : Props) : Props :=
  Function.update props e.property (e.value engine (props e.property))

/-- The database accepts the text. -/
def readable (engine : Engine) : Edit → Bool
  | .backfill _ default => (engine.literal default).isSome
  | _ => true

end Edit

def applyEdits (engine : Engine) (edits : List Edit) (props : Props) : Props :=
  edits.foldl (fun props e => e.apply engine props) props

namespace DataStatement

def readable (engine : Engine) : DataStatement → Bool
  | .onNodes _ edit | .onRelationships _ edit => edit.readable engine
  | .renameLabel .. | .renameType .. => true

def onNode (engine : Engine) (n : StoredNode) : DataStatement → StoredNode
  | .renameLabel old new =>
    if old ∈ n.labels then { n with labels := (insert new n.labels).erase old } else n
  | .onNodes label edit =>
    if label ∈ n.labels then { n with props := edit.apply engine n.props } else n
  | .renameType .. | .onRelationships .. => n

def onRelationship (engine : Engine) (r : StoredRelationship) :
    DataStatement → StoredRelationship
  | .onRelationships type edit =>
    if type = r.type then { r with props := edit.apply engine r.props } else r
  | .renameLabel .. | .onNodes .. | .renameType .. => r

/-- One statement; a text the database rejects ends the migration. -/
def run (engine : Engine) (s : DataStatement) (g : StoredGraph) : Option StoredGraph :=
  if s.readable engine then
    some ⟨g.nodes.map fun n => s.onNode engine n,
      g.relationships.map fun r => s.onRelationship engine r⟩
  else none

end DataStatement

def runStatements (engine : Engine) : List DataStatement → StoredGraph → Option StoredGraph
  | [], g => some g
  | s :: ss, g => (s.run engine g).bind (runStatements engine ss)

/-! ## Conforming graphs -/

mutual
def hasType : PropertyValue → PropertyType → Bool
  | .bool _, .bool | .int _, .int | .float _, .float | .string _, .string | .date _, .date
  | .dateTime _, .dateTime | .duration _, .duration | .bytes _, .bytes | .map _, .map => true
  | .list vs, .list element => haveType vs element
  | _, _ => false

def haveType : List PropertyValue → PropertyType → Bool
  | [], _ => true
  | v :: vs, t => hasType v t && haveType vs t
end

/-- The properties of an instance: declared ones of their types, the required
ones among them. -/
structure Conforms (properties : List PropertyDef) (props : Props) : Prop where
  declared : ∀ k v, props k = some v →
    ∃ p ∈ properties, p.name = k ∧ hasType v p.propertyType = true
  required : ∀ p ∈ properties, p.nullable = false → ∃ v, props p.name = some v

/-- A node of a graph that conforms to an ontology. -/
structure NodeInstance (o : OntologyIR) where
  type : NodeTypeDef
  props : Props
  mem : type ∈ o.nodeTypes
  conforms : Conforms type.properties props

/-- A relationship of a graph that conforms to an ontology. -/
structure RelationshipInstance (o : OntologyIR) where
  type : EdgeTypeDef
  props : Props
  mem : type ∈ o.edgeTypes
  conforms : Conforms type.properties props

/-- A data graph that conforms to an ontology: every node carries the label of
its type and no other. -/
structure DataGraph (o : OntologyIR) where
  nodes : List (NodeInstance o)
  relationships : List (RelationshipInstance o)

def NodeInstance.store {o : OntologyIR} (n : NodeInstance o) : StoredNode :=
  ⟨{n.type.label}, n.props⟩

def RelationshipInstance.store {o : OntologyIR} (r : RelationshipInstance o) :
    StoredRelationship := ⟨r.type.label, r.props⟩

def DataGraph.store {o : OntologyIR} (g : DataGraph o) : StoredGraph :=
  ⟨g.nodes.map NodeInstance.store, g.relationships.map RelationshipInstance.store⟩

/-! ## What a migration is for -/

/-- A default as a stored value: null is the absent one. -/
def storedDefault : PropertyValue → Option PropertyValue
  | .null => none
  | v => some v

/-- The default a property that came in under `k` is filled with. -/
def backfillAt (old new : List PropertyDef) (k : PropertyKey) : Option PropertyValue :=
  ((Lib.Keyed.unmatched (·.id) new (old.map (·.id))).find? fun p => p.name = k).bind fun p =>
    if p.nullable then none else p.defaultValue

/-- A property that went had the name `k`. -/
def RemovedAt (old new : List PropertyDef) (k : PropertyKey) : Prop :=
  ∃ p ∈ Lib.Keyed.unmatched (·.id) old (new.map (·.id)), p.name = k

instance (old new : List PropertyDef) (k : PropertyKey) : Decidable (RemovedAt old new k) :=
  List.decidableBEx ..

/-- The coercion of the kept property that now has the name `k`. -/
def coercionAt (old new : List PropertyDef) (k : PropertyKey) : Option Coercion :=
  ((Lib.Keyed.matchedPairs (·.id) old new).find? fun p => p.2.name = k).bind fun p =>
    coercionBetween (formatPropertyType p.1.propertyType) (formatPropertyType p.2.propertyType)

/-- The properties of an instance of a kept type after the migration: those of
removed properties are gone, required properties that came in are filled, and
those whose type changed are coerced. -/
def migrateProps (engine : Engine) (old new : List PropertyDef) (props : Props) : Props :=
  fun k =>
    let x := if RemovedAt old new k then none else props k
    let x := match backfillAt old new k with
      | some default => x.or (storedDefault default)
      | none => x
    match coercionAt old new k with
    | some coercion => x.bind (engine.coerce coercion)
    | none => x

/-- A node after the migration: one of a kept type has exactly the new label of
its type, one of a removed type is as it was. -/
def NodeInstance.migrate {old : OntologyIR} (engine : Engine) (new : OntologyIR)
    (n : NodeInstance old) : StoredNode :=
  match new.nodeTypes.find? fun t => t.id = n.type.id with
  | some t => ⟨{t.label}, migrateProps engine n.type.properties t.properties n.props⟩
  | none => n.store

def migrateRelationship (engine : Engine) (new : OntologyIR) (type : EdgeTypeDef)
    (props : Props) : Props :=
  match new.edgeTypes.find? fun t => t.id = type.id with
  | some t => migrateProps engine type.properties t.properties props
  | none => props

/-- A relationship after the migration; types of relationships are changed by
hand. -/
def RelationshipInstance.migrate {old : OntologyIR} (engine : Engine) (new : OntologyIR)
    (r : RelationshipInstance old) : StoredRelationship :=
  ⟨r.type.label, migrateRelationship engine new r.type r.props⟩

def DataGraph.migrate {old : OntologyIR} (engine : Engine) (new : OntologyIR)
    (g : DataGraph old) : StoredGraph :=
  ⟨g.nodes.map (·.migrate engine new), g.relationships.map (·.migrate engine new)⟩

end Ontosyx.Compile
