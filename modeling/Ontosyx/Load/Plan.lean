import Mathlib.Data.List.Destutter
import Mathlib.Data.List.Sort
import Ontosyx.Compile.Piece
import Ontosyx.Ontology.IR

/-!
# Load plans

A load plan (`load_plan.rs`) lists the steps that fill the graph from a source.
`compile_load` writes the statements of the steps, sorted by their order number;
the helpers of the executor find the table and the columns a step reads.
-/

namespace Ontosyx.Load

open Ontosyx.Compile Ontology

/-! ## Plans -/

inductive Transform where
  | toString_
  | toInt
  | toFloat
  | toBool
  | toDate (format : String)
  | toDateTime (format : String)
  | trim
  | toLower
  | toUpper
  | split (delimiter : String) (index : Nat)
  | custom (expression : String)
deriving DecidableEq

/-- A source column and the graph property it fills. -/
structure PropertyMapping where
  sourceColumn : String
  graphProperty : String
  transform : Option Transform := none
deriving DecidableEq

/-- How an end of an edge is found. -/
structure NodeMatch where
  label : String
  matchProperty : String
  sourceField : String
deriving DecidableEq

inductive ConflictStrategy where
  | update
  | skip
  | error
  | mergeNonNull
deriving DecidableEq

inductive LoadOp where
  | upsertNode (targetLabel : String) (matchFields setFields : List PropertyMapping)
      (onConflict : ConflictStrategy)
  | upsertEdge (targetLabel : String) (sourceMatch targetMatch : NodeMatch)
      (setFields : List PropertyMapping) (onConflict : ConflictStrategy)
deriving DecidableEq

/-- A step.  `dependsOn` holds the order numbers of the steps that must complete
before it. -/
structure LoadStep where
  order : Nat
  dependsOn : List Nat
  operation : LoadOp
deriving DecidableEq

/-- Full or watermark-based loading. -/
inductive LoadMode where
  | full
  | incremental (watermarkColumn : String)
deriving DecidableEq

structure LoadPlan where
  steps : List LoadStep
  mode : LoadMode := .full
deriving DecidableEq

def loadParam (sourceColumn : String) : String := "$row_" ++ sourceColumn

/-- The assignments of the fields to the properties of a variable. -/
def assignments (variable_ : String) (fields : List PropertyMapping) : String :=
  ", ".intercalate (fields.map fun m =>
    variable_ ++ "." ++ escapeIdentifier m.graphProperty ++ " = " ++ loadParam m.sourceColumn)

def matchNode (variable_ : String) (m : NodeMatch) : String :=
  "MATCH (" ++ variable_ ++ ":" ++ escapeIdentifier m.label ++ " \x7b" ++
    escapeIdentifier m.matchProperty ++ ": " ++ loadParam m.sourceField ++ "\x7d)\n"

/-- `compile_load_op`, which never fails. -/
def compileLoadOp : LoadOp → String
  | .upsertNode targetLabel matchFields setFields onConflict =>
    let matchProps := ", ".intercalate (matchFields.map fun m =>
      escapeIdentifier m.graphProperty ++ ": " ++ loadParam m.sourceColumn)
    let setProps := assignments "n" setFields
    let onClause := match onConflict with
      | .update => "\n  ON CREATE SET " ++ setProps ++ "\n  ON MATCH SET " ++ setProps
      | .skip | .error => "\n  ON CREATE SET " ++ setProps
      | .mergeNonNull =>
        let coalesceProps := ", ".intercalate (setFields.map fun m =>
          let prop := escapeIdentifier m.graphProperty
          "n." ++ prop ++ " = COALESCE(" ++ loadParam m.sourceColumn ++ ", n." ++ prop ++ ")")
        "\n  ON CREATE SET " ++ setProps ++ "\n  ON MATCH SET " ++ coalesceProps
    "MERGE (n:" ++ escapeIdentifier targetLabel ++ " \x7b" ++ matchProps ++ "\x7d)" ++ onClause
  | .upsertEdge targetLabel sourceMatch targetMatch setFields onConflict =>
    let setProps :=
      if setFields.isEmpty then ""
      else
        let props := assignments "r" setFields
        match onConflict with
        | .update => "\n  ON CREATE SET " ++ props ++ "\n  ON MATCH SET " ++ props
        | _ => "\n  ON CREATE SET " ++ props
    matchNode "a" sourceMatch ++ matchNode "b" targetMatch ++
      "MERGE (a)-[r:" ++ escapeIdentifier targetLabel ++ "]->(b)" ++ setProps

/-- The steps in the stable order of their numbers. -/
def sortedSteps (plan : LoadPlan) : List LoadStep :=
  plan.steps.insertionSort fun a b => a.order ≤ b.order

def compileLoad (plan : LoadPlan) : List String :=
  (sortedSteps plan).map fun s => compileLoadOp s.operation

/-- `sort` and `dedup`. -/
def sortedDistinct (columns : List String) : List String :=
  (columns.insertionSort (· ≤ ·)).destutter (· ≠ ·)

def extractSourceColumns : LoadOp → List String
  | .upsertNode _ matchFields setFields _ =>
    sortedDistinct ((matchFields ++ setFields).map (·.sourceColumn))
  | .upsertEdge _ sourceMatch targetMatch setFields _ =>
    sortedDistinct (sourceMatch.sourceField :: targetMatch.sourceField ::
      setFields.map (·.sourceColumn))

def graphLabelForOp : LoadOp → String
  | .upsertNode targetLabel _ _ _ | .upsertEdge targetLabel _ _ _ _ => targetLabel

section

variable (toLowercase : String → String) (o : OntologyIR)

/-- `table_for_label`: the relation of the first mapping whose node has the
label, without regard to case. -/
def tableForLabel (label : String) : Option String :=
  o.objectMappings.findSome? fun om =>
    (o.nodeTypes.find? fun n => n.id = om.nodeTypeId).bind fun n =>
      if toLowercase n.label.val = toLowercase label then some om.relation else none

/-- The first relation that a test on its lower-case name accepts. -/
def relationLike (accept : String → Bool) : Option String :=
  (o.objectMappings.map (·.relation)).find? fun t => accept (toLowercase t)

/-- `resolve_source_table`: by label, else by the names of the relations. -/
def resolveSourceTable : LoadOp → Option String
  | .upsertNode targetLabel _ _ _ =>
    (tableForLabel toLowercase o targetLabel).or
      (let lower := toLowercase targetLabel
       relationLike toLowercase o fun t =>
         t == lower || t == lower ++ "s" || ("_" ++ lower).toList.isSuffixOf t.toList)
  | .upsertEdge _ sourceMatch _ _ _ =>
    (tableForLabel toLowercase o sourceMatch.label).or
      (let lower := toLowercase sourceMatch.label
       relationLike toLowercase o fun t => decide (lower.toList <:+: t.toList))

end

end Ontosyx.Load
