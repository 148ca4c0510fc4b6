import Ontosyx.Source.Analyze

/-!
# Scanning an inline payload

`scan` of the CSV and JSON adapters: the payload is read again, and the columns
of a described table are built from it under the Arrow types of the description.
A record batch is what Arrow accepts of these columns.
-/

namespace Ontosyx.Source

open Ontosyx.Core Ontology
open Ontosyx.Cypher (Number)
open Lib.Keyed

/-! ## Arrow -/

/-- The Arrow types that a generic type name may stand for. -/
inductive DataType where
  | boolean
  | int64
  | float64
  | utf8
  | date32
  | timestamp
  | binary
deriving DecidableEq

def stripParenModifier (raw : String) : String :=
  if '(' ∈ raw.toList then trim (String.ofList (raw.toList.takeWhile (· ≠ '('))) else raw

def genericType (lower : String) : DataType :=
  let head := stripParenModifier lower
  if head ∈ ["bool", "boolean"] then .boolean
  else if head ∈ ["int", "integer", "int2", "int4", "int8", "int16", "int32", "int64", "bigint",
      "smallint", "mediumint", "tinyint", "long"] then .int64
  else if head ∈ ["float", "float4", "float8", "double", "real", "numeric", "decimal"] then .float64
  else if head = "date" then .date32
  else if head ∈ ["timestamp", "timestamptz", "datetime"] then .timestamp
  else if head ∈ ["uuid", "string", "text", "varchar", "char", "json", "jsonb"] then .utf8
  else if head ∈ ["bytes", "blob", "binary"] then .binary
  else .utf8

/-- `raw_type_to_arrow` of the CSV and JSON dialects. -/
def rawTypeToArrow (raw : String) : DataType := genericType (trim raw).toLower

structure Field where
  name : String
  dataType : DataType
  nullable : Bool
deriving DecidableEq

def columnToField (col : SourceColumnDef) : Field where
  name := col.name
  dataType := rawTypeToArrow col.dataType
  nullable := col.nullable

def describeToArrowSchema (table : SourceTableDef) : List Field := table.columns.map columnToField

inductive ArrowCell where
  | null
  | bool (b : Bool)
  | int (n : Int)
  | float (x : Number)
  | utf8 (s : String)
deriving DecidableEq

/-- The type of the array that the builder of a type finishes. -/
def builderType : DataType → DataType
  | .boolean => .boolean
  | .int64 => .int64
  | .float64 => .float64
  | _ => .utf8

structure RecordBatch where
  schema : List Field
  columns : List (List ArrowCell)
deriving DecidableEq

def RecordBatch.numRows (batch : RecordBatch) : Nat := (batch.columns.head?.map (·.length)).getD 0

def nullCount (column : List ArrowCell) : Nat := column.countP fun cell => cell = .null

/-- A column that Arrow takes under a field, in a batch of some rows. -/
def acceptsColumn (rows : Nat) (field : Field) (column : List ArrowCell) : Bool :=
  (field.nullable || nullCount column == 0) && column.length == rows &&
    builderType field.dataType == field.dataType

/-- `RecordBatch::try_new`: a batch has a column, and each column fits its field. -/
def RecordBatch.tryNew (adapter : String) (schema : List Field)
    (columns : List (List ArrowCell)) : Except OxError RecordBatch :=
  match columns with
  | first :: _ =>
    if schema.length = columns.length ∧
        (schema.zip columns).all fun pair => acceptsColumn first.length pair.1 pair.2 then
      .ok ⟨schema, columns⟩
    else .error (.runtime (adapter ++ " scan: RecordBatch::try_new failed"))
  | [] => .error (.runtime (adapter ++ " scan: RecordBatch::try_new failed"))

/-! ## Cells -/

/-- The tokens that are read as a truth value. -/
def boolToken (s : String) : ArrowCell :=
  if s.toLower ∈ ["t", "true", "1", "yes"] then .bool true
  else if s.toLower ∈ ["f", "false", "0", "no"] then .bool false
  else .null

def appendTextCell (type : DataType) : Option String → ArrowCell
  | none => .null
  | some v =>
    match type with
    | .boolean => boolToken v
    | .int64 => ((parseI64 v.toList).map .int).getD .null
    | .float64 => ((Cypher.parseF64 v.toList).map .float).getD .null
    | _ => .utf8 v

def appendBool : Option Value → ArrowCell
  | some (.bool b) => .bool b
  | some (.str s) => boolToken s
  | some (.num n) =>
    if n.asI64 = some 0 then .bool false else if n.asI64 = some 1 then .bool true else .null
  | _ => .null

/-- `f as i64` of a whole double within the bounds of `i64`, which saturates at the upper one. -/
def wholeToI64 : Number → Option Int
  | .finite q =>
    if q.isInt ∧ -2 ^ 63 ≤ q ∧ q ≤ 2 ^ 63 then some (min q.num (2 ^ 63 - 1)) else none
  | _ => none

def appendInt : Option Value → ArrowCell
  | some (.num n) =>
    match n.asI64 with
    | some v => .int v
    | none => ((wholeToI64 n.asF64).map .int).getD .null
  | some (.str s) => ((parseI64 s.toList).map .int).getD .null
  | _ => .null

def appendFloat : Option Value → ArrowCell
  | some (.num n) => .float n.asF64
  | some (.str s) => ((Cypher.parseF64 s.toList).map .float).getD .null
  | _ => .null

def appendString (formats : Formats) : Option Value → ArrowCell
  | none | some .null => .null
  | some (.str s) => .utf8 s
  | some (.bool b) => .utf8 (if b then "true" else "false")
  | some (.num n) => .utf8 (n.text formats)
  | some v => .utf8 (formats.compact v)

def appendJsonCell (formats : Formats) : DataType → Option Value → ArrowCell
  | .boolean => appendBool
  | .int64 => appendInt
  | .float64 => appendFloat
  | _ => appendString formats

def projectSchema (adapter : String) (schema : List Field) (indices : List Nat) :
    Except OxError (List Field) :=
  if indices.length = schema.length then .ok schema
  else match indices.mapM (schema[·]?) with
    | some fields => .ok fields
    | none => .error (.runtime (adapter ++ " scan: projection error"))

section

variable {α β : Type} (adapter : String) (columns : List SourceColumnDef)
  (read : α → Except OxError β) (cell : DataType → String → β → ArrowCell)

/-- One row appended to the builders, each under the column at its index. -/
def appendRow (row : β) : List Nat → List Field → List (List ArrowCell) →
    Except OxError (List (List ArrowCell))
  | index :: indices, field :: schema, builder :: builders =>
    match columns[index]? with
    | some col => do
      let rest ← appendRow row indices schema builders
      .ok ((builder ++ [cell field.dataType col.name row]) :: rest)
    | none =>
      .error (.runtime (adapter ++ " scan: column index " ++ toString index ++ " out of range"))
  | _, _, _ => .ok []

/-- The rows appended one by one; after each, the limit is looked at. -/
def appendRows (indices : List Nat) (schema : List Field) (limit : Option Nat) :
    List α → Nat → List (List ArrowCell) → Except OxError (List (List ArrowCell))
  | [], _, builders => .ok builders
  | item :: items, emitted, builders => do
    let row ← read item
    let builders ← appendRow adapter columns cell row indices schema builders
    if limit.any (· ≤ emitted + 1) then .ok builders
    else appendRows indices schema limit items (emitted + 1) builders

/-- `scan_csv_into_batch` and `scan_json_items_into_batch`. -/
def scanIntoBatch (projection : Option (List Nat)) (limit : Option Nat) (items : List α) :
    Except OxError RecordBatch := do
  let indices := projection.getD (List.range columns.length)
  let schema ← projectSchema adapter (columns.map columnToField) indices
  let builders ← appendRows adapter columns read cell indices schema limit items 0
    (schema.map fun _ => [])
  RecordBatch.tryNew adapter schema builders

end

/-! ## Adapters -/

def describeFromSchema (schema : SourceSchema) (table : String) : Except OxError SourceTableDef :=
  match schema.tables.find? fun t => t.name = table with
  | some t => .ok t
  | none => .error (.notFound ("table `" ++ table ++ "`"))

/-- `CsvAdapter`, `JsonAdapter`: the payload and what the analyzer made of it. -/
structure InlineAdapter where
  rawData : String
  schema : SourceSchema
  profile : SourceProfile
deriving DecidableEq

/-- `CsvAdapter::new`. -/
def csvAdapter (formats : Formats) (data : String) : Except OxError InlineAdapter :=
  (analyzeCsv formats data).map fun (schema, profile) => ⟨data, schema, profile⟩

/-- `JsonAdapter::new`. -/
def jsonAdapter (formats : Formats) (data : String) : Except OxError InlineAdapter :=
  (analyzeJson formats data).map fun (schema, profile) => ⟨data, schema, profile⟩

/-- What a record has for a column: the field at the last position with its name, trimmed. -/
def csvField (headers : List String) (column : String) (record : List String) : Option String :=
  match (last Prod.fst column (headers.map trim).zipIdx).bind fun pos => record[pos.2]? with
  | some v => if trim v = "" then none else some (trim v)
  | none => none

def readRecord : Option (List String) → Except OxError (List String)
  | some record => .ok record
  | none => .error (.validation "source.data" "Invalid CSV record")

/-- `CsvAdapter::scan`. -/
def scanCsv (formats : Formats) (adapter : InlineAdapter) (table : String)
    (projection : Option (List Nat)) (limit : Option Nat) : Except OxError RecordBatch := do
  let described ← describeFromSchema adapter.schema table
  let text := formats.readCsv adapter.rawData
  match text.headers with
  | none => .error (.validation "source.data" "Invalid CSV headers")
  | some headers =>
    scanIntoBatch "csv" described.columns readRecord
      (fun type name record => appendTextCell type (csvField headers name record))
      projection limit text.records

def isUnderscorePrefix (current pre : String) : Bool :=
  (pre.toList ++ ['_']).isPrefixOf current.toList

/-- `resolve_parent`: the longest listed table whose name the current one goes on from. -/
def resolveParent (tables : List String) (current : String) : Option String :=
  let candidates := tables.filter fun name => name ≠ current ∧ isUnderscorePrefix current name
  let schemaMatch := candidates.foldl (fun best name =>
    match best with
    | some b => if b.utf8ByteSize ≤ name.utf8ByteSize then some name else some b
    | none => some name) none
  let implicitRoot :=
    if isUnderscorePrefix current inlineTableName then some inlineTableName else none
  schemaMatch.or implicitRoot

/-- The fields from a table up to the root, in that order; a parent's name is shorter. -/
def parentFields (tables : List String) : Nat → String → List String
  | 0, _ => []
  | steps + 1, current =>
    if current = inlineTableName then []
    else match resolveParent tables current with
      | none => []
      | some parent =>
        String.ofList (current.toList.drop (parent.length + 1)) ::
          parentFields tables steps parent

def parentChainFields (tables : List String) (table : String) : List String :=
  (parentFields tables table.length table).reverse

/-- One step of `walk_json_path`. -/
def walkField (pool : List Value) (field : String) : List Value :=
  pool.flatMap fun item =>
    match item.get? field with
    | some (.arr items) => items.filter (·.isObject)
    | some (.obj fields) => [.obj fields]
    | _ => []

def walkJsonPath (top : Value) (path : List String) : List Value :=
  match top with
  | .obj fields => path.foldl walkField [.obj fields]
  | .arr items => path.foldl walkField items
  | _ => []

def resolveItemsForTable (formats : Formats) (adapter : InlineAdapter) (table : String) :
    Except OxError (List Value) :=
  match formats.fromStr adapter.rawData with
  | none => .error (.validation "source.data" "Invalid JSON source")
  | some payload =>
    if table = inlineTableName then .ok (topItems payload.value)
    else if !adapter.schema.tables.any (·.name = table) then
      .error (.notFound ("table `" ++ table ++ "`"))
    else
      let path := parentChainFields (adapter.schema.tables.map (·.name)) table
      if path = [] then
        .error (.unsupportedOperation "json" ("scan(table=" ++ table ++
          ") — the profiler did not link this relation to any parent, so there is no way " ++
          "to walk the JSON payload for its rows"))
      else .ok (walkJsonPath payload.value path)

/-- `JsonAdapter::scan`. -/
def scanJson (formats : Formats) (adapter : InlineAdapter) (table : String)
    (projection : Option (List Nat)) (limit : Option Nat) : Except OxError RecordBatch := do
  let described ← describeFromSchema adapter.schema table
  let items ← resolveItemsForTable formats adapter table
  scanIntoBatch "json" described.columns .ok
    (fun type name item => appendJsonCell formats type (item.get? name)) projection limit items

end Ontosyx.Source
