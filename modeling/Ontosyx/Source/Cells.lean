import Ontosyx.Core.Source
import Ontosyx.Cypher.Literal
import Ontosyx.Lib.Keyed
import Ontosyx.Ontology.Registry

/-!
# Inline payloads and their cells

A CSV or JSON payload that is held in memory.  The analyzer makes rows of typed
cells of it and tells each table's columns, types and statistics from them.

The readers of CSV and JSON are outside the program, as is the way JSON writes
a double, an array or an object.
-/

namespace Ontosyx.Source

open Ontosyx.Core Ontology
open Ontosyx.Cypher (Number nearestDouble)
open Lib.Keyed

/-! ## JSON values -/

/-- The number of a JSON value, as it is kept: an integer from zero on, one below zero, or a
double. -/
inductive JsonNumber where
  | posInt (n : UInt64)
  | negInt (n : Int64)
  | float (x : F64)
deriving DecidableEq

/-- A JSON value.  The fields of an object stand in the order of the text. -/
inductive Value where
  | null
  | bool (b : Bool)
  | num (n : JsonNumber)
  | str (s : String)
  | arr (items : List Value)
  | obj (fields : List (String × Value))

/-- No object has two fields of one name. -/
inductive Value.WellFormed : Value → Prop where
  | null : WellFormed .null
  | bool (b : Bool) : WellFormed (.bool b)
  | num (n : JsonNumber) : WellFormed (.num n)
  | str (s : String) : WellFormed (.str s)
  | arr {items : List Value} (hitems : ∀ v ∈ items, WellFormed v) : WellFormed (.arr items)
  | obj {fields : List (String × Value)} (hkeys : (fields.map Prod.fst).Nodup)
      (hfields : ∀ field ∈ fields, WellFormed field.2) : WellFormed (.obj fields)

/-- What the reader of JSON gives. -/
structure Payload where
  value : Value
  wellFormed : value.WellFormed

/-- What the reader of CSV gives: the header row, and the records until one is invalid. -/
structure CsvText where
  headers : Option (List String)
  records : List (Option (List String))

/-- The readers, and how JSON is written. -/
structure Formats where
  readCsv : String → CsvText
  fromStr : String → Option Payload
  floatText : F64 → String
  compact : Value → String

namespace Value

def isObject : Value → Bool
  | .obj _ => true
  | _ => false

/-- `Value::get` with a field name. -/
def get? : Value → String → Option Value
  | .obj fields, name => (first Prod.fst name fields).map (·.2)
  | _, _ => none

def fields : Value → List (String × Value)
  | .obj fields => fields
  | _ => []

/-- The elements of an array that has an object among them. -/
def objectArray? : Value → Option (List Value)
  | .arr items => if items.any isObject then some items else none
  | _ => none

/-- A value that becomes a table of its own. -/
def isNested (v : Value) : Bool := v.isObject || v.objectArray?.isSome

mutual

/-- How deep objects and arrays are nested. -/
def depth : Value → Nat
  | .arr items => depthItems items + 1
  | .obj fields => depthFields fields + 1
  | _ => 0

def depthItems : List Value → Nat
  | [] => 0
  | v :: items => max (depth v) (depthItems items)

def depthFields : List (String × Value) → Nat
  | [] => 0
  | (_, v) :: fields => max (depth v) (depthFields fields)

end

end Value

namespace JsonNumber

def asI64 : JsonNumber → Option Int
  | .posInt n => if n.toNat < 2 ^ 63 then some n.toNat else none
  | .negInt n => some n.toInt
  | .float _ => none

/-- `is_i64() || is_u64()`. -/
def isInteger : JsonNumber → Bool
  | .posInt _ | .negInt _ => true
  | .float _ => false

def integer? : JsonNumber → Option Int
  | .posInt n => some n.toNat
  | .negInt n => some n.toInt
  | .float _ => none

def asF64 : JsonNumber → Number
  | .posInt n => nearestDouble n.toNat
  | .negInt n => (nearestDouble n.toInt.natAbs).negate
  | .float x => .finite x.value

/-- `to_string`. -/
def text (formats : Formats) : JsonNumber → String
  | .posInt n => toString n.toNat
  | .negInt n => toString n.toInt
  | .float x => formats.floatText x

end JsonNumber

/-! ## Cells -/

/-- The types that the analyzer tells apart. -/
inductive CellType where
  | null
  | int
  | float
  | bool
  | json
  | string
deriving DecidableEq

def CellType.name : CellType → String
  | .null => "null"
  | .int => "int"
  | .float => "float"
  | .bool => "bool"
  | .json => "json"
  | .string => "string"

structure Cell where
  raw : Option String
  dataType : CellType
deriving DecidableEq

abbrev Row : Type := List (String × Cell)

/-- `row.get(column)`: the last insertion under a name is the one that is kept. -/
def Row.get? (row : Row) (column : String) : Option Cell :=
  (last Prod.fst column row).map (·.2)

/-- The cell of a column, null where the row has none. -/
def Row.cell (row : Row) (column : String) : Cell := (row.get? column).getD ⟨none, .null⟩

def inferScalarType (raw : String) : CellType :=
  let lower := raw.toLower
  if lower = "true" ∨ lower = "false" then .bool
  else if (parseI64 raw.toList).isSome then .int
  else if (Cypher.parseF64 raw.toList).isSome then .float
  else .string

def cellFromStr (raw : String) : Cell :=
  if raw = "" then ⟨none, .null⟩ else ⟨some raw, inferScalarType raw⟩

def cellFromJsonValue (formats : Formats) : Value → Cell
  | .null => ⟨none, .null⟩
  | .bool b => ⟨some (if b then "true" else "false"), .bool⟩
  | .num n => ⟨some (n.text formats), if n.isInteger then .int else .float⟩
  | .str s => ⟨some s, inferScalarType s⟩
  | .arr items => ⟨some (formats.compact (.arr items)), .json⟩
  | .obj fields => ⟨some (formats.compact (.obj fields)), .json⟩

def mergeTypes : CellType → CellType → CellType
  | .null, other => other
  | other, .null => other
  | .int, .int => .int
  | .int, .float | .float, .int | .float, .float => .float
  | .bool, .bool => .bool
  | .json, _ | _, .json => .json
  | _, _ => .string

def inferColumnType (values : List Cell) : CellType :=
  let detected := (values.filter (·.raw.isSome)).foldl (fun t cell => mergeTypes t cell.dataType)
    .null
  if detected = .null then .string else detected

/-! ## Statistics -/

/-- `str::contains`. -/
def contains (text pattern : String) : Bool :=
  text.toList.tails.any fun rest => pattern.toList.isPrefixOf rest

/-- `str::ends_with`. -/
def endsWith (text suffix : String) : Bool := suffix.toList.isSuffixOf text.toList

def isLookupTableFk (name : String) : Bool :=
  ["_template_id", "_config_id", "_lookup_id", "_enum_id", "_kind_id", "_type_id",
    "_category_id"].any (endsWith name)

def classifyPiiSuspectByName (columnName : String) : Option PiiSuspectKind :=
  let n := columnName.toLower
  if contains n "password" || contains n "passwd" || n == "pwd" then some .password
  else if contains n "token" || contains n "secret" || contains n "api_key" then some .token
  else if isLookupTableFk n then none
  else if contains n "email" || contains n "e_mail" then some .email
  else if ["phone", "mobile", "tel_no", "telephone"].any (contains n) then some .phone
  else if ["ssn", "national_id", "rrn", "passport", "drivers_license"].any (contains n) then
    some .nationalId
  else if ["credit_card", "card_number", "card_no", "iban", "bank_account"].any (contains n) then
    some .paymentCard
  else if n == "address" || endsWith n "_address" || contains n "street" ||
      contains n "postal_code" || n == "zip" || contains n "zipcode" then
    if contains n "mac_" || contains n "ip_" then none else some .address
  else if n ∈ ["first_name", "last_name", "middle_name", "given_name", "family_name", "full_name",
      "real_name", "patient_name", "customer_name"] then some .name
  else none

def maxDistinctValues : Nat := 30

def buildColumnStats (column : String) (values : List Cell) : ColumnStats :=
  let piiSuspect := classifyPiiSuspectByName column
  let present := values.filterMap (·.raw)
  -- neither samples nor bounds are kept of a column whose name suggests personal data
  let shown := if piiSuspect.isNone then present.eraseDups else []
  let ordered := shown.mergeSort fun a b => a ≤ b
  { columnName := column
    nullCount := values.countP (·.raw.isNone)
    distinctCount := present.eraseDups.length
    sampleValues := shown.take maxDistinctValues
    minValue := ordered.head?
    maxValue := ordered.getLast?
    piiRedacted := piiSuspect }

def isUniqueNonNull (rows : List Row) (column : String) : Bool :=
  let values := rows.map fun row => (row.cell column).raw
  !rows.isEmpty && values.all (·.isSome) && decide values.Nodup

section

variable (name : String) (columns : List String) (rows : List Row)

def columnCells (column : String) : List Cell := rows.map fun row => row.cell column

def columnDef (column : String) : SourceColumnDef where
  name := column
  dataType := (inferColumnType (columnCells rows column)).name
  nullable := (columnCells rows column).any (·.raw.isNone)

def tableDef : SourceTableDef where
  name := name
  columns := columns.map (columnDef rows)
  primaryKey :=
    ((columns.filter fun column => column.toLower = "id").find? (isUniqueNonNull rows)).toList

def tableProfile : TableProfile where
  tableName := name
  rowCount := rows.length
  columnStats := columns.map fun column => buildColumnStats column (columnCells rows column)

end

end Ontosyx.Source
