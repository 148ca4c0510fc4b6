import Ontosyx.Core.Source
import Ontosyx.Lib.Keyed
import Ontosyx.Ontology.Registry

/-!
# The text for the model

What the design call gets to read of a source: `build_llm_input` for the whole
of it and `build_batch_llm_input` for one cluster.  Excluded tables and columns
are dropped and annotated values redacted, a large schema is capped and its
profile compacted, and the rest is written as JSON.  The writer of JSON is a
parameter.
-/

namespace Ontosyx.Design

open Ontosyx.Core Ontology Lib.Keyed String

/-! ## Options and analysis -/

structure PiiAnnotation where
  table : String
  column : String
  kind : PiiKind
deriving DecidableEq

structure ExcludedColumn where
  table : String
  column : String
deriving DecidableEq

/-- `DesignOptions`: what withholds a part of the source. -/
structure DesignOptions where
  piiAnnotations : List PiiAnnotation := []
  excludedColumns : List ExcludedColumn := []
  excludedTables : List String := []
deriving DecidableEq

/-- `SystemConfig`: the limits that are read here. -/
structure SystemConfig where
  maxDesignTables : Nat := 40
  largeSchemaWarningThreshold : Nat := 50
  largeSchemaSampleValues : Nat := 5
  largeSchemaValueChars : Nat := 50
  batchSize : Nat := 15

inductive WarningLevel where
  | info
  | warning
  | error
deriving DecidableEq

inductive AnalysisPhase where
  | schemaIntrospection
  | dataProfiling
deriving DecidableEq

inductive WarningClass where
  | tableSkipped
  | columnSampleSkipped
  | foreignKeysUnavailable
  | sampleValuesOmitted
  | bigQueryPartitionFilterRequired
  | bigQueryClusteringFilterRequired
  | bigQueryJobsCreateDenied
  | postgresPermissionDenied
  | snowflakeWarehouseSuspended
  | valueSetDriftDetected
  | tableSchemaDrift
  | other
deriving DecidableEq

inductive WarningScope where
  | source
  | table (name : String)
  | column (table column : String)
deriving DecidableEq

structure AnalysisWarning where
  level : WarningLevel
  phase : AnalysisPhase
  «class» : WarningClass
  scope : WarningScope
  params : List (String × String) := []
  detail : Option String := none
  groupKey : String
deriving DecidableEq

structure SourceSnapshot where
  schema : SourceSchema
  profile : SourceProfile
  analysisWarnings : List AnalysisWarning := []
  impliedRelationships : List ImpliedRelationship := []
deriving DecidableEq

/-- `serde_json`, minified or pretty. -/
structure JsonWriter where
  schema : Bool → SourceSchema → String
  profile : Bool → SourceProfile → String
  warnings : Bool → List AnalysisWarning → String

/-! ## Redaction -/

def redactedPlaceholder : String := "<redacted>"

/-- Before and after the last occurrence of a character, as found by `rfind`. -/
def splitLast (c : Char) (s : List Char) : Option (List Char × List Char) :=
  if c ∈ s then
    let after := (s.reverse.takeWhile (· ≠ c)).reverse
    some (s.take (s.length - after.length - 1), after)
  else none

def redactEmail (s : String) : String :=
  match splitLast '@' s.toList with
  | none => redactedPlaceholder
  | some (user, domain) =>
    if user = [] ∨ domain = [] then redactedPlaceholder
    else
      match splitLast '.' domain with
      | none => redactedPlaceholder
      | some (_, label) =>
        ofList (user.take 3) ++ "***@***." ++ ofList label

def redactLast4 (s : String) : String :=
  let chars := s.toList
  if chars.length < 5 then redactedPlaceholder
  else "***" ++ ofList (chars.drop (chars.length - 4))

def redactValue (value : String) : PiiKind → String
  | .email => redactEmail value
  | .phone | .ssn | .nationalId _ | .paymentCardNumber | .creditCard | .bankAccountNumber | .iban
  | .passport | .driversLicense | .medicalRecordNumber | .insuranceId => redactLast4 value
  | .password | .token | .custom _ | .name | .dateOfBirth | .address | .ipAddress | .biometric
  | .geoLocation => redactedPlaceholder

def redactColumnStats (stats : ColumnStats) (kind : PiiKind) : ColumnStats :=
  { stats with
    sampleValues := stats.sampleValues.map fun v => redactValue v kind
    minValue := stats.minValue.map fun v => redactValue v kind
    maxValue := stats.maxValue.map fun v => redactValue v kind }

/-- The kind that the last annotation gives a column. -/
def annotatedKind (annotations : List PiiAnnotation) (table column : String) : Option PiiKind :=
  (last (fun a : PiiAnnotation => (a.table, a.column)) (table, column) annotations).map (·.kind)

/-- One column of `apply_pii_annotations_to_profile`. -/
def redactColumn (annotations : List PiiAnnotation) (table : String) (stats : ColumnStats) :
    ColumnStats :=
  match annotatedKind annotations table stats.columnName with
  | some kind => redactColumnStats stats kind
  | none => stats

def applyPiiAnnotationsToProfile (profile : SourceProfile) (annotations : List PiiAnnotation) :
    SourceProfile where
  tableProfiles := profile.tableProfiles.map fun tp =>
    { tp with columnStats := tp.columnStats.map (redactColumn annotations tp.tableName) }

def retainTables (excluded : List String) (schema : SourceSchema) : SourceSchema :=
  { schema with
    tables := schema.tables.filter fun t => t.name ∉ excluded
    foreignKeys := schema.foreignKeys.filter fun fk =>
      fk.fromTable ∉ excluded ∧ fk.toTable ∉ excluded }

def retainTableProfiles (excluded : List String) (profile : SourceProfile) : SourceProfile where
  tableProfiles := profile.tableProfiles.filter fun tp => tp.tableName ∉ excluded

/-- The schema without the excluded columns; the primary keys are left alone. -/
def retainColumns (excluded : List ExcludedColumn) (schema : SourceSchema) : SourceSchema :=
  { schema with
    tables := schema.tables.map fun t =>
      { t with columns := t.columns.filter fun c => ⟨t.name, c.name⟩ ∉ excluded }
    foreignKeys := schema.foreignKeys.filter fun fk =>
      ⟨fk.fromTable, fk.fromColumn⟩ ∉ excluded ∧ ⟨fk.toTable, fk.toColumn⟩ ∉ excluded }

def retainColumnStats (excluded : List ExcludedColumn) (profile : SourceProfile) :
    SourceProfile where
  tableProfiles := profile.tableProfiles.map fun tp =>
    { tp with
      columnStats := tp.columnStats.filter fun cs => ⟨tp.tableName, cs.columnName⟩ ∉ excluded }

/-- The schema after both exclusions. -/
def DesignOptions.retainSchema (opts : DesignOptions) (schema : SourceSchema) : SourceSchema :=
  retainColumns opts.excludedColumns (retainTables opts.excludedTables schema)

/-- The profile after both exclusions. -/
def DesignOptions.retainProfile (opts : DesignOptions) (profile : SourceProfile) : SourceProfile :=
  retainColumnStats opts.excludedColumns (retainTableProfiles opts.excludedTables profile)

/-! ## The cap on tables -/

/-- `c.name.ends_with("_id")`. -/
def isReferenceColumn (c : SourceColumnDef) : Bool := "_id".toList.isSuffixOf c.name.toList

/-- `fk_score`: how often foreign keys name the table, and its reference columns. -/
def fkScore (schema : SourceSchema) (name : String) : Nat :=
  schema.foreignKeys.countP (·.fromTable = name) + schema.foreignKeys.countP (·.toTable = name) +
    ((schema.tables.filter fun t => t.name = name).map fun t =>
      t.columns.countP isReferenceColumn).sum

/-- The order of `ranked`: best score first, then by name. -/
def rankedBefore (schema : SourceSchema) (a b : String) : Bool :=
  match compare (fkScore schema b) (fkScore schema a) with
  | .lt => true
  | .gt => false
  | .eq => a ≤ b

/-- `kept`: the names of the tables that are told in full. -/
def keptTables (schema : SourceSchema) (maxTables : Nat) : List String :=
  ((schema.tables.map (·.name)).mergeSort (rankedBefore schema)).take maxTables

/-- `dedup` of a sorted list. -/
def dedup : List String → List String
  | [] => []
  | [a] => [a]
  | a :: b :: rest => if a = b then dedup (b :: rest) else a :: dedup (b :: rest)

/-- One line of `build_dropped_table_summary`. -/
def droppedTableLine (foreignKeys : List ForeignKeyDef) (profile : SourceProfile)
    (t : SourceTableDef) : String :=
  let rows := ((last TableProfile.tableName t.name profile.tableProfiles).map (·.rowCount)).getD 0
  let refs := (t.columns.filter isReferenceColumn).map (·.name)
  let targets := dedup (((foreignKeys.filter fun fk => fk.fromTable = t.name).map
    (·.toTable)).mergeSort fun a b => a ≤ b)
  t.name ++ " (" ++ toString rows ++ " rows) columns: [" ++
    ", ".intercalate (t.columns.map (·.name)) ++ "]" ++
    (if refs = [] then "" else " refs: " ++ ", ".intercalate refs) ++
    (if targets = [] then "" else " fk_targets: " ++ ", ".intercalate targets)

def buildDroppedTableSummary (schema : SourceSchema) (profile : SourceProfile)
    (kept : List String) : String :=
  let lines := (schema.tables.filter fun t => t.name ∉ kept).map
    (droppedTableLine schema.foreignKeys profile)
  if lines = [] then ""
  else
    "\n\n--- Additional tables (summary — create nodes/edges for these if relevant) ---\n" ++
    "The following " ++ toString lines.length ++
    " tables have column names listed but no type/profile detail. " ++
    "Use column names to design properties. FK reference columns end with _id.\n\n" ++
    "\n".intercalate lines

structure ReducedSchema where
  schema : SourceSchema
  profile : SourceProfile
  droppedSummary : String

/-- The cap in `reduce_schema_for_llm`. -/
def capTables (schema : SourceSchema) (profile : SourceProfile) (maxTables : Nat) : ReducedSchema :=
  if schema.tables.length ≤ maxTables then ⟨schema, profile, ""⟩
  else
    let kept := keptTables schema maxTables
    { schema :=
        { schema with
          tables := schema.tables.filter fun t => t.name ∈ kept
          foreignKeys := schema.foreignKeys.filter fun fk =>
            fk.fromTable ∈ kept ∧ fk.toTable ∈ kept }
      profile := ⟨profile.tableProfiles.filter fun tp => tp.tableName ∈ kept⟩
      droppedSummary := buildDroppedTableSummary schema profile kept }

def reduceSchemaForLlm (schema : SourceSchema) (profile : SourceProfile) (opts : DesignOptions)
    (maxTables : Nat) : ReducedSchema :=
  capTables (opts.retainSchema schema) (opts.retainProfile profile) maxTables

def enumCardinalityThreshold : Nat := 100

def truncateStr (s : String) (maxChars : Nat) : String :=
  if maxChars < s.toList.length then ofList (s.toList.take maxChars) ++ "…" else s

/-- One column of `compact_profile_for_llm`. -/
def compactStats (maxSampleValues maxValueChars : Nat) (cs : ColumnStats) : ColumnStats :=
  let isEnum := decide (0 < cs.distinctCount ∧ cs.distinctCount ≤ enumCardinalityThreshold)
  let samples := if isEnum then cs.sampleValues else cs.sampleValues.take maxSampleValues
  { cs with
    sampleValues := samples.map fun v => truncateStr v maxValueChars
    minValue := cs.minValue.map fun v => truncateStr v maxValueChars
    maxValue := cs.maxValue.map fun v => truncateStr v maxValueChars }

def compactProfileForLlm (profile : SourceProfile) (maxSampleValues maxValueChars : Nat) :
    SourceProfile where
  tableProfiles := profile.tableProfiles.map fun tp =>
    { tp with columnStats := tp.columnStats.map (compactStats maxSampleValues maxValueChars) }

def formatSourceForLlm (json : JsonWriter) (schema : SourceSchema) (profile : SourceProfile)
    (analysisWarnings : List AnalysisWarning) (minified : Bool) : String :=
  let warningsSection :=
    if analysisWarnings = [] then ""
    else
      "\n\nAnalysis warnings (partial source analysis; omitted objects/stats):\n" ++
        json.warnings minified analysisWarnings
  let schemaLabel :=
    if schema.sourceType = "postgresql" ∨ schema.sourceType = "mysql" then
      "Source database schema (tables, columns, foreign keys)"
    else if schema.sourceType = "mongodb" then
      "Source database schema (collections, fields, inferred relationships)"
    else "Source structure (extracted tables, columns, inferred relationships)"
  schemaLabel ++ ":\n" ++ json.schema minified schema ++
    "\n\nData statistics (row counts, distinct values, ranges):\n" ++
    json.profile minified profile ++ warningsSection

/-- `build_llm_input` for a structured source. -/
def buildLlmInput (json : JsonWriter) (source : SourceSnapshot) (opts : DesignOptions)
    (config : SystemConfig) : String :=
  let reduced := reduceSchemaForLlm source.schema source.profile opts config.maxDesignTables
  let profile := applyPiiAnnotationsToProfile reduced.profile opts.piiAnnotations
  let isLarge := decide (config.largeSchemaWarningThreshold ≤ reduced.schema.tables.length)
  let effectiveProfile :=
    if isLarge then
      compactProfileForLlm profile config.largeSchemaSampleValues config.largeSchemaValueChars
    else profile
  formatSourceForLlm json reduced.schema effectiveProfile source.analysisWarnings isLarge ++
    reduced.droppedSummary

def buildBatchLlmInput (json : JsonWriter) (schema : SourceSchema) (profile : SourceProfile)
    (cluster : TableCluster) (config : SystemConfig) : String :=
  let batchSchema : SourceSchema :=
    { sourceType := schema.sourceType
      tables := schema.tables.filter fun t => t.name ∈ cluster.tables
      foreignKeys := cluster.internalFks ++ cluster.crossFks }
  let batchProfile : SourceProfile :=
    ⟨profile.tableProfiles.filter fun tp => tp.tableName ∈ cluster.tables⟩
  let effectiveProfile :=
    compactProfileForLlm batchProfile config.largeSchemaSampleValues config.largeSchemaValueChars
  formatSourceForLlm json batchSchema effectiveProfile [] true

example : redactEmail "a.b.c@mail.example.co.kr" = "a.b***@***.kr" := by decide

end Ontosyx.Design
