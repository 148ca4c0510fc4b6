import Ontosyx.Lib.Grouped
import Ontosyx.Source.Cells

/-!
# Analyzing an inline payload

`analyze_csv` and `analyze_json`.  A CSV payload is one table; a JSON payload is
a table for its items and one for each field that holds objects, or arrays with
objects among them, named after the path of fields that leads there.
-/

namespace Ontosyx.Source

open Ontosyx.Core Ontology Lib.Grouped Prod

/-- `OxError`, as far as inline sources raise it; what the readers say of a payload is left out of
the messages. -/
inductive OxError where
  | validation (field message : String)
  | notFound (entity : String)
  | unsupportedOperation (target operation : String)
  | runtime (message : String)
deriving DecidableEq

def inlineTableName : String := "records"

def maxInlineSourceBytes : Nat := 100 * 1024 * 1024

def guardPayloadSize (sourceType data : String) : Except OxError Unit :=
  if maxInlineSourceBytes < data.utf8ByteSize then
    .error (.validation "source.data" (sourceType ++ " payload is " ++ toString data.utf8ByteSize ++
        " bytes; the inline analyzer caps at " ++ toString maxInlineSourceBytes ++
        " bytes. Load large files through a DuckDB / PostgreSQL adapter instead of inline."))
  else .ok ()

/-- A record as a row: `headers` are trimmed, a missing field is empty. -/
def csvRow (headers record : List String) : Row :=
  headers.zipIdx.map fun (header, index) =>
    (header, cellFromStr (((record[index]?).map trim).getD ""))

def buildSchemaProfile (sourceType tableName : String) (columns : List String)
    (rows : List Row) : Except OxError (SourceSchema × SourceProfile) :=
  if columns = [] then
    .error (.validation "source.data" "Structured source must contain at least one column")
  else
    .ok
      ({ sourceType := sourceType
         tables := [tableDef tableName columns rows]
         foreignKeys := [] },
       { tableProfiles := [tableProfile tableName columns rows] })

def analyzeCsv (formats : Formats) (data : String) :
    Except OxError (SourceSchema × SourceProfile) := do
  guardPayloadSize "csv" data
  let text := formats.readCsv data
  match text.headers with
  | none => .error (.validation "source.data" "Invalid CSV headers")
  | some headers =>
    let headers := headers.map trim
    if headers = [] then
      .error (.validation "source.data" "CSV source must contain a header row")
    else
      match text.records.mapM id with
      | none => .error (.validation "source.data" "Invalid CSV record")
      | some records =>
        buildSchemaProfile "csv" inlineTableName headers (records.map (csvRow headers))

/-! ## JSON -/

section

variable (formats : Formats) (items : List Value)

/-- The row of an item: an object without what is nested in it, anything else as a `value`. -/
def rowOf : Value → Row
  | .obj fields =>
    (fields.filter fun field => !field.2.isNested).map fun field =>
      (field.1, cellFromJsonValue formats field.2)
  | v => [("value", cellFromJsonValue formats v)]

/-- `rows`. -/
def rowsOf : List Row := items.map (rowOf formats)

/-- `nested_objects`, by field name. -/
def nestedObjects : List (String × List Value) :=
  (gather fst snd
    (items.flatMap fun item => item.fields.filter fun field => field.2.isObject)).mergeSort
    fun a b => a.1 ≤ b.1

/-- `nested_arrays`, by field name. -/
def nestedArrays : List (String × List Value) :=
  ((gather fst snd (items.flatMap fun item => item.fields.filterMap fun field =>
      field.2.objectArray?.map fun children => (field.1, children))).mergeSort
    fun a b => a.1 ≤ b.1).map fun group => (group.1, group.2.flatten)

/-- `columns`, in the order in which they come up. -/
def columnsOf : List String :=
  let seen := ((rowsOf formats items).flatMap fun row => row.map fst).eraseDups
  if seen = [] ∧ nestedObjects items = [] ∧ nestedArrays items = [] then ["value"] else seen

/-- Whether the items are listed as a table: not when they hold only what is nested in them. -/
def isListed : Bool := !(columnsOf formats items).isEmpty || (rowsOf formats items).isEmpty

end

/-- `tables`, `profiles` and `foreign_keys`. -/
structure Extraction where
  tables : List SourceTableDef := []
  profiles : List TableProfile := []
  foreignKeys : List ForeignKeyDef := []

namespace Extraction

def addTable (formats : Formats) (name : String) (items : List Value) (e : Extraction) :
    Extraction :=
  if isListed formats items then
    { e with
      tables := e.tables ++ [tableDef name (columnsOf formats items) (rowsOf formats items)]
      profiles :=
        e.profiles ++ [tableProfile name (columnsOf formats items) (rowsOf formats items)] }
  else e

def parentPkColumn (e : Extraction) (name : String) : Option String :=
  (e.tables.find? fun t => t.name = name).bind (·.primaryKey.head?)

/-- The foreign key of a nested table, where its parent has a key to refer to. -/
def addForeignKey (parent : String) (pk : Option String) (child field : String)
    (e : Extraction) : Extraction :=
  match pk with
  | some column =>
    { e with
      foreignKeys := e.foreignKeys ++
        [⟨child, "(nested in " ++ field ++ ")", parent, column, true⟩] }
  | none => e

end Extraction

/-- The name of the table that is nested under a field. -/
def childTable (name field : String) : String := name ++ "_" ++ field

/-- `extract_json_tables`.  What is nested in items lies less deep than they do, so the depth of
the items bounds the recursion. -/
def extractJsonTables (formats : Formats) : Nat → String → List Value → Extraction → Extraction
  | 0, _, _, e => e
  | depth + 1, name, items, e =>
    let own := e.addTable formats name items
    let pk := own.parentPkColumn name
    let nest (e : Extraction) (group : String × List Value) : Extraction :=
      (extractJsonTables formats depth (childTable name group.1) group.2 e).addForeignKey
        name pk (childTable name group.1) group.1
    (nestedArrays items).foldl nest ((nestedObjects items).foldl nest own)

/-- The items of a payload: the elements of an array, an object, or a scalar as a field. -/
def topItems : Value → List Value
  | .arr items => items
  | .obj fields => [.obj fields]
  | scalar => [.obj [("value", scalar)]]

def analyzeJson (formats : Formats) (data : String) :
    Except OxError (SourceSchema × SourceProfile) := do
  guardPayloadSize "json" data
  match formats.fromStr data with
  | none => .error (.validation "source.data" "Invalid JSON source")
  | some payload =>
    let items := topItems payload.value
    let e := extractJsonTables formats (Value.depthItems items + 1) inlineTableName items {}
    if e.tables = [] then
      .error (.validation "source.data" "JSON source produced no analyzable structure")
    else
      .ok
        ({ sourceType := "json"
           tables := e.tables
           foreignKeys := e.foreignKeys },
         { tableProfiles := e.profiles })

end Ontosyx.Source
