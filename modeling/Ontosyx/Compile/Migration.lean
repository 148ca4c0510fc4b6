import Ontosyx.Compile.DataMigration
import Ontosyx.Compile.Schema
import Mathlib.Data.List.Destutter

/-!
# Compiling a migration

`compile_migration` (`migration.rs`): the statements that take a database from the
schema of one ontology to the schema of another, and those that take it back.
Both are gathered change by change, then sorted and deduplicated as texts.
-/

namespace Ontosyx.Compile

open Ontosyx.Core Ontology

structure MigrationPlan where
  up : List String
  down : List String
  warnings : List String
  breakingChanges : List String
  dataMigrations : List DataMigrationStep

def reverseIndexStmt (createStmt : String) : Option String :=
  if "CREATE INDEX".toList.isPrefixOf createStmt.toList then
    some (createStmt.replace "CREATE INDEX IF NOT EXISTS" "DROP INDEX IF EXISTS")
  else none

/-- `sort` and `dedup`. -/
def sortDedup (stmts : List String) : List String :=
  (stmts.mergeSort fun a b => decide (a ≤ b)).destutter (· ≠ ·)

/-- What one change pushes onto the vectors of the plan. -/
structure Pushed where
  up : List String := []
  down : List String := []
  warnings : List String := []
  breakingChanges : List String := []

/-- `index_{label}_{prop}`. -/
def guessedIndexName (settings : SchemaSettings) (label : GraphLabel) (p : PropertyKey) : String :=
  "index_" ++ settings.toLowercase label.val ++ "_" ++ settings.toLowercase p.val

/-- The properties that get a range index of their own. -/
def requiredNames (properties : List PropertyDef) : List PropertyKey :=
  (properties.filter fun p => !p.nullable).map (·.name)

def pushAddedNode (settings : SchemaSettings) (d : CypherDialect) (node : NodeTypeDef) :
    Pushed where
  up := compileNodeConstraints node d ++
    (requiredNames node.properties).map fun name => rangeText node.label [name]
  down := (compileNodeConstraints node d).filterMap reverseIndexStmt ++
    (requiredNames node.properties).map fun name =>
      dropIndexText (guessedIndexName settings node.label name)

def pushRemovedNode (d : CypherDialect) (node : NodeTypeDef) : Pushed where
  up := (compileNodeConstraints node d).filterMap reverseIndexStmt
  down := compileNodeConstraints node d
  breakingChanges :=
    ["Node type '" ++ node.label.val ++ "' will be removed — all existing nodes of this type " ++
      "should be migrated or deleted first"]

/-- The constraints of a node that may be missing. -/
def constraintsOf (d : CypherDialect) (node : Option NodeTypeDef) : List String :=
  node.elim [] fun n => compileNodeConstraints n d

def pushTypeChange (label : GraphLabel) (name : PropertyKey) : PropertyChange → List String
  | .typeChanged old new =>
    ["Property '" ++ name.val ++ "' on '" ++ label.val ++ "' type changed: " ++ old ++ " → " ++
      new ++ " — data migration required"]
  | _ => []

def pushNodeChange (d : CypherDialect) (newNode oldNode : Option NodeTypeDef)
    (label : GraphLabel) : NodeChange → Pushed
  | .labelChanged old new =>
    { up := constraintsOf d newNode ++ (constraintsOf d oldNode).filterMap reverseIndexStmt
      warnings :=
        ["Node label rename '" ++ old.val ++ "' → '" ++ new.val ++
          "' — requires data migration (MATCH (n:" ++ escapeIdentifier old.val ++ ") SET n:" ++
          escapeIdentifier new.val ++ " REMOVE n:" ++ escapeIdentifier old.val ++ ")"] }
  | .propertyAdded p =>
    if p.nullable then {}
    else
      { up := [rangeText label [p.name]]
        breakingChanges :=
          ["Required property '" ++ p.name.val ++ "' added to '" ++ label.val ++
            "' — existing nodes will need this value set"] }
  | .propertyRemoved p =>
    { warnings :=
        ["Property '" ++ p.name.val ++ "' removed from '" ++ label.val ++
          "' — existing data will be orphaned"] }
  | .propertyModified name changes =>
    { breakingChanges := changes.flatMap (pushTypeChange label name) }
  | .constraintAdded c =>
    match newNode with
    | some node => { up := compileNodeConstraints node d }
    | none =>
      { warnings :=
          ["Constraint added to '" ++ label.val ++ "': " ++ c ++ " (could not compile)"] }
  | .constraintRemoved c =>
    { up := (constraintsOf d oldNode).filterMap reverseIndexStmt
      warnings := ["Constraint removed from '" ++ label.val ++ "': " ++ c] }
  | .descriptionChanged .. => {}

def pushNodeDiff (d : CypherDialect) (old new : OntologyIR) (diff : NodeDiff) : List Pushed :=
  let newNode := new.nodeTypes.find? fun n => n.id = diff.nodeId
  let oldNode := old.nodeTypes.find? fun n => n.id = diff.nodeId
  diff.changes.map (pushNodeChange d newNode oldNode diff.label)

/-- `(src→tgt)`. -/
def edgeEnds (o : OntologyIR) (edge : EdgeTypeDef) : String :=
  let label (id : NodeTypeId) : String := ((o.nodeLabel id).map (·.val)).getD "UNKNOWN"
  "(" ++ label edge.sourceNodeId ++ "→" ++ label edge.targetNodeId ++ ")"

def pushAddedEdge (new : OntologyIR) (edge : EdgeTypeDef) : Pushed where
  warnings :=
    ["New edge type '" ++ edge.label.val ++ "' " ++ edgeEnds new edge ++
      " — no schema DDL needed for edges in Neo4j, but ensure endpoints exist"]

def pushRemovedEdge (old : OntologyIR) (edge : EdgeTypeDef) : Pushed where
  breakingChanges :=
    ["Edge type '" ++ edge.label.val ++ "' " ++ edgeEnds old edge ++
      " removed — existing relationships should be deleted"]

/-- What all changes push, in the order of the source. -/
def pushDiff (settings : SchemaSettings) (diff : OntologyDiff) (old new : OntologyIR)
    (d : CypherDialect) : List Pushed :=
  diff.addedNodes.map (pushAddedNode settings d) ++ diff.removedNodes.map (pushRemovedNode d) ++
    diff.modifiedNodes.flatMap (pushNodeDiff d old new) ++
    diff.addedEdges.map (pushAddedEdge new) ++ diff.removedEdges.map (pushRemovedEdge old)

def compileMigration (settings : SchemaSettings) (showFloat : F64 → String)
    (diff : OntologyDiff) (old new : OntologyIR) (d : CypherDialect) : MigrationPlan :=
  let pushed := pushDiff settings diff old new d
  { up := sortDedup (pushed.flatMap (·.up))
    down := sortDedup (pushed.flatMap (·.down))
    warnings := pushed.flatMap (·.warnings)
    breakingChanges := pushed.flatMap (·.breakingChanges)
    dataMigrations := compileDataMigration showFloat diff }

end Ontosyx.Compile
