import Ontosyx.Design.Clusters
import Ontosyx.Design.LlmInput

/-!
# What is withheld from the model

Two snapshots that are equal in everything but what the options withhold are to
give the same texts.  Exclusion drops tables, columns and foreign keys by hand;
primary keys, warnings and implied relationships carry the excluded names past
it (`RoutesAgree`).

## Main results

* `texts_eq_of_routesAgree` — where these three agree, nothing withheld makes a
  difference.
* `withholds_iff` — options withhold what they say exactly when they exclude
  nothing and only redact.
-/

namespace Ontosyx.Design

open List Ontosyx.Core Ontology Lib.Keyed String

/-! ## The visible part of a snapshot -/

namespace DesignOptions

variable (opts : DesignOptions)

def Excludes (table column : String) : Prop :=
  table ∈ opts.excludedTables ∨ ⟨table, column⟩ ∈ opts.excludedColumns

instance (table column : String) : Decidable (opts.Excludes table column) :=
  inferInstanceAs (Decidable (_ ∨ _))

/-- The warning is about an excluded table or column. -/
def ExcludesScope : WarningScope → Prop
  | .source => False
  | .table name => name ∈ opts.excludedTables
  | .column table column => opts.Excludes table column

instance (scope : WarningScope) : Decidable (opts.ExcludesScope scope) :=
  match scope with
  | .source => inferInstanceAs (Decidable False)
  | .table name => inferInstanceAs (Decidable (name ∈ opts.excludedTables))
  | .column table column => inferInstanceAs (Decidable (opts.Excludes table column))

/-- The table without the excluded names in its primary key. -/
def visibleTable (t : SourceTableDef) : SourceTableDef :=
  { t with primaryKey := t.primaryKey.filter fun c => ¬opts.Excludes t.name c }

/-- All that the options do not withhold. -/
def visible (source : SourceSnapshot) : SourceSnapshot where
  schema :=
    { opts.retainSchema source.schema with
      tables := (opts.retainSchema source.schema).tables.map opts.visibleTable }
  profile := applyPiiAnnotationsToProfile (opts.retainProfile source.profile) opts.piiAnnotations
  analysisWarnings := source.analysisWarnings.filter fun w => ¬opts.ExcludesScope w.scope
  impliedRelationships := source.impliedRelationships.filter fun r =>
    ¬opts.Excludes r.fromTable r.fromColumn ∧ ¬opts.Excludes r.toTable r.toColumn

end DesignOptions

/-- The inputs of the streaming design, cluster by cluster. -/
def batchInputs (json : JsonWriter) (source : SourceSnapshot) (opts : DesignOptions)
    (config : SystemConfig) : List String :=
  let schema := opts.retainSchema source.schema
  let profile := applyPiiAnnotationsToProfile (opts.retainProfile source.profile)
    opts.piiAnnotations
  (clusterTables schema source.impliedRelationships config.batchSize).clusters.map fun cluster =>
    buildBatchLlmInput json schema profile cluster config

/-- The model gets the same texts of both snapshots, by either way. -/
def SameTexts (json : JsonWriter) (opts : DesignOptions) (config : SystemConfig)
    (s s' : SourceSnapshot) : Prop :=
  buildLlmInput json s opts config = buildLlmInput json s' opts config ∧
    batchInputs json s opts config = batchInputs json s' opts config

/-- Nothing that the options withhold shows in a text. -/
def Withholds (json : JsonWriter) (opts : DesignOptions) : Prop :=
  ∀ config s s', opts.visible s = opts.visible s' → SameTexts json opts config s s'

/-! ## What the plan depends on -/

theorem nameToIdx_none_iff {names : List String} {name : String} :
    nameToIdx names name = none ↔ name ∉ names := by
  rw [nameToIdx, Option.map_eq_none_iff, last_none_iff, zipIdx_map_fst]

def hasEnds (names : List String) (fk : ForeignKeyDef) : Bool :=
  fk.fromTable ∈ names ∧ fk.toTable ∈ names

theorem fkEnds_eq_none {names : List String} {fk : ForeignKeyDef}
    (h : hasEnds names fk = false) : fkEnds names fk = none := by
  rw [fkEnds]
  by_cases hfrom : fk.fromTable ∈ names
  · have hto : fk.toTable ∉ names := by
      intro hto
      simp [hasEnds, hfrom, hto] at h
    rw [nameToIdx_none_iff.2 hto]
    cases nameToIdx names fk.fromTable <;> rfl
  · rw [nameToIdx_none_iff.2 hfrom]

theorem collectAllFks_filter (names : List String) (fks : List ForeignKeyDef) :
    collectAllFks names (fks.filter (hasEnds names)) = collectAllFks names fks := by
  have hends : (fks.filter (hasEnds names)).filterMap (fkEnds names) =
      fks.filterMap (fkEnds names) := by
    rw [filterMap_filter]
    refine filterMap_congr fun fk _ => ?_
    cases h : hasEnds names fk with
    | true => rfl
    | false => rw [fkEnds_eq_none h]; rfl
  rw [collectAllFks, collectAllFks, hends]

theorem buildCluster_filter (names : List String) (fks : List ForeignKeyDef) (part : List Nat)
    (pid : Nat) :
    buildCluster names (fks.filter (hasEnds names)) part pid = buildCluster names fks part pid := by
  have hsome (fk : ForeignKeyDef) (ends : Bool × Bool) (h : endsIn names part fk = some ends) :
      hasEnds names fk = true := by
    cases hfk : hasEnds names fk with
    | true => rfl
    | false =>
      rw [endsIn, fkEnds_eq_none hfk] at h
      cases h
  rw [buildCluster, buildCluster, filter_filter, filter_filter]
  congr 1
  · refine filter_congr fun fk _ => ?_
    by_cases h : endsIn names part fk = some (true, true)
    · simp [h, hsome fk _ h]
    · simp [h]
  · refine filter_congr fun fk _ => ?_
    by_cases hout : endsIn names part fk = some (true, false)
    · simp [hout, hsome fk _ hout]
    · by_cases hin : endsIn names part fk = some (false, true)
      · simp [hin, hsome fk _ hin]
      · simp [hout, hin]

variable (json : JsonWriter) (schema : SourceSchema) (annotations : List PiiAnnotation)
  (profile : SourceProfile)

theorem acceptedFks_eq_filter (implied : List ImpliedRelationship) :
    acceptedFks schema implied =
      (candidateFks schema implied).filter (hasEnds (tableNames schema)) := rfl

/-- The plan depends on the names of the tables and the accepted foreign keys only. -/
theorem clusterTables_congr {schema schema' : SourceSchema}
    {implied implied' : List ImpliedRelationship} (hnames : tableNames schema = tableNames schema')
    (hfks : acceptedFks schema implied = acceptedFks schema' implied') (maxSize : Nat) :
    clusterTables schema implied maxSize = clusterTables schema' implied' maxSize := by
  rw [acceptedFks_eq_filter, acceptedFks_eq_filter, ← hnames] at hfks
  have hall : allFks schema implied = allFks schema' implied' := by
    rw [allFks, allFks, ← collectAllFks_filter, ← collectAllFks_filter (tableNames schema'),
      ← hnames, hfks]
  have hparts : tablePartitions schema implied maxSize =
      tablePartitions schema' implied' maxSize := by
    rw [tablePartitions, tablePartitions, hall, hnames]
  have hclusters : partClusters schema implied maxSize = partClusters schema' implied' maxSize := by
    rw [partClusters, partClusters, hparts]
    refine map_congr_left fun p _ => ?_
    rw [← buildCluster_filter, ← buildCluster_filter (tableNames schema'), ← hnames, hfks]
  have hlevels : partLevels schema implied maxSize = partLevels schema' implied' maxSize := by
    rw [partLevels, partLevels, hclusters, hparts, hnames]
  have horder : idOrder schema implied maxSize = idOrder schema' implied' maxSize := by
    rw [idOrder, idOrder, hlevels]
  rw [clusterTables, clusterTables, horder, hclusters, hlevels, hnames]

theorem filter_tableProfiles_applyPii (keep : String → Bool) :
    (applyPiiAnnotationsToProfile profile annotations).tableProfiles.filter
        (fun tp => keep tp.tableName) =
      (applyPiiAnnotationsToProfile ⟨profile.tableProfiles.filter fun tp => keep tp.tableName⟩
        annotations).tableProfiles := by
  rw [applyPiiAnnotationsToProfile, applyPiiAnnotationsToProfile, filter_map]
  rfl

/-- A summary tells of a profile its row counts only. -/
theorem droppedTableLine_applyPii (fks : List ForeignKeyDef) (profile : SourceProfile) :
    droppedTableLine fks (applyPiiAnnotationsToProfile profile annotations) =
      droppedTableLine fks profile := by
  funext t
  have hrows : ((last TableProfile.tableName t.name
      (applyPiiAnnotationsToProfile profile annotations).tableProfiles).map (·.rowCount)) =
      (last TableProfile.tableName t.name profile.tableProfiles).map (·.rowCount) := by
    have hlast : last TableProfile.tableName t.name
        (applyPiiAnnotationsToProfile profile annotations).tableProfiles =
        (last TableProfile.tableName t.name profile.tableProfiles).map fun tp =>
          { tp with columnStats := tp.columnStats.map (redactColumn annotations tp.tableName) } :=
      last_map TableProfile.tableName (g := fun tp => { tp with
        columnStats := tp.columnStats.map (redactColumn annotations tp.tableName) })
        (fun _ => rfl) _ _
    rw [hlast, Option.map_map]
    rfl
  rw [droppedTableLine, droppedTableLine, hrows]

/-- The cap may as well come after the redaction. -/
theorem capTables_applyPii (annotations : List PiiAnnotation) (maxTables : Nat) :
    capTables schema (applyPiiAnnotationsToProfile profile annotations) maxTables =
      { capTables schema profile maxTables with
        profile := applyPiiAnnotationsToProfile (capTables schema profile maxTables).profile
          annotations } := by
  rw [capTables, capTables]
  split
  · rfl
  · have hprofile := filter_tableProfiles_applyPii annotations profile
      fun name => name ∈ keptTables schema maxTables
    dsimp only
    rw [hprofile, buildDroppedTableSummary, droppedTableLine_applyPii, buildDroppedTableSummary]

/-- What exclusion leaves of a primary key, a warning or an implied relationship agrees too. -/
structure RoutesAgree (opts : DesignOptions) (s s' : SourceSnapshot) : Prop where
  primaryKeys : (opts.retainSchema s.schema).tables.map (·.primaryKey) =
    (opts.retainSchema s'.schema).tables.map (·.primaryKey)
  warnings : s.analysisWarnings = s'.analysisWarnings
  relationships : acceptedFks (opts.retainSchema s.schema) s.impliedRelationships =
    acceptedFks (opts.retainSchema s'.schema) s'.impliedRelationships

/-- The input of the one call, from the retained schema and the redacted profile. -/
theorem buildLlmInput_eq (s : SourceSnapshot) (opts : DesignOptions) (config : SystemConfig) :
    buildLlmInput json s opts config =
      (let reduced := capTables (opts.retainSchema s.schema)
        (applyPiiAnnotationsToProfile (opts.retainProfile s.profile) opts.piiAnnotations)
        config.maxDesignTables
      let isLarge := decide (config.largeSchemaWarningThreshold ≤ reduced.schema.tables.length)
      formatSourceForLlm json reduced.schema
        (if isLarge then
          compactProfileForLlm reduced.profile config.largeSchemaSampleValues
            config.largeSchemaValueChars
        else reduced.profile)
        s.analysisWarnings isLarge ++ reduced.droppedSummary) := by
  rw [capTables_applyPii]
  rfl

variable {opts : DesignOptions}

/-- Tables that agree in their visible part and in their primary keys are equal. -/
theorem tables_eq_of_visible {ts ts' : List SourceTableDef}
    (hvisible : ts.map opts.visibleTable = ts'.map opts.visibleTable)
    (hkeys : ts.map (·.primaryKey) = ts'.map (·.primaryKey)) : ts = ts' := by
  induction ts generalizing ts' with
  | nil => exact (map_eq_nil_iff.1 hvisible.symm).symm
  | cons t ts ih =>
    cases ts' with
    | nil => cases hvisible
    | cons t' ts' =>
      rw [map_cons, map_cons, List.cons.injEq] at hvisible hkeys
      have hname : t.name = t'.name := (congrArg SourceTableDef.name hvisible.1 :)
      have hcolumns : t.columns = t'.columns := (congrArg SourceTableDef.columns hvisible.1 :)
      have ht : t = t' := by
        cases t
        cases t'
        simp_all
      rw [ht, ih hvisible.2 hkeys.2]

theorem retainSchema_eq_of_visible {s s' : SourceSnapshot}
    (hvisible : opts.visible s = opts.visible s')
    (hkeys : (opts.retainSchema s.schema).tables.map (·.primaryKey) =
      (opts.retainSchema s'.schema).tables.map (·.primaryKey)) :
    opts.retainSchema s.schema = opts.retainSchema s'.schema := by
  have hschema := congrArg SourceSnapshot.schema hvisible
  have htables := tables_eq_of_visible (congrArg SourceSchema.tables hschema :) hkeys
  have htype : s.schema.sourceType = s'.schema.sourceType :=
    (congrArg SourceSchema.sourceType hschema :)
  have hfks : (opts.retainSchema s.schema).foreignKeys =
      (opts.retainSchema s'.schema).foreignKeys :=
    (congrArg SourceSchema.foreignKeys hschema :)
  calc opts.retainSchema s.schema
      = ⟨s.schema.sourceType, (opts.retainSchema s.schema).tables,
          (opts.retainSchema s.schema).foreignKeys⟩ := rfl
    _ = ⟨s'.schema.sourceType, (opts.retainSchema s'.schema).tables,
          (opts.retainSchema s'.schema).foreignKeys⟩ := by rw [htype, htables, hfks]
    _ = opts.retainSchema s'.schema := rfl

/-- Where the other routes agree, snapshots that look the same give the same texts. -/
theorem texts_eq_of_routesAgree {s s' : SourceSnapshot}
    (hvisible : opts.visible s = opts.visible s') (hroutes : RoutesAgree opts s s')
    (config : SystemConfig) : SameTexts json opts config s s' := by
  have hschema := retainSchema_eq_of_visible hvisible hroutes.primaryKeys
  have hprofile : applyPiiAnnotationsToProfile (opts.retainProfile s.profile) opts.piiAnnotations =
      applyPiiAnnotationsToProfile (opts.retainProfile s'.profile) opts.piiAnnotations :=
    congrArg SourceSnapshot.profile hvisible
  constructor
  · rw [buildLlmInput_eq, buildLlmInput_eq, hschema, hprofile, hroutes.warnings]
  · have hplan := clusterTables_congr (congrArg tableNames hschema) hroutes.relationships
      config.batchSize
    rw [batchInputs, batchInputs, hplan, hschema, hprofile]

def bareSnapshot (warnings : List AnalysisWarning) : SourceSnapshot where
  schema := ⟨"", [], []⟩
  profile := ⟨[]⟩
  analysisWarnings := warnings

def skippedWarning (scope : WarningScope) : AnalysisWarning where
  level := .warning
  phase := .dataProfiling
  «class» := .columnSampleSkipped
  scope := scope
  groupKey := "column_sample_skipped"

/-- A warning is told after the rest of the text. -/
theorem formatSourceForLlm_warning (w : AnalysisWarning) (minified : Bool) :
    ∃ text, text ≠ "" ∧ formatSourceForLlm json schema profile [w] minified =
      formatSourceForLlm json schema profile [] minified ++ text := by
  refine ⟨"\n\nAnalysis warnings (partial source analysis; omitted objects/stats):\n" ++
    json.warnings minified [w], ?_, ?_⟩
  · intro h
    have hlength := congrArg String.length h
    rw [String.length_append] at hlength
    have hpos : 0 <
        "\n\nAnalysis warnings (partial source analysis; omitted objects/stats):\n".length := by
      decide
    rw [length_empty] at hlength
    omega
  · rw [formatSourceForLlm, formatSourceForLlm]
    simp only [reduceCtorEq, if_false, if_true, append_empty]

theorem buildLlmInput_bareSnapshot (opts : DesignOptions) (config : SystemConfig)
    (w : AnalysisWarning) : ∃ text, text ≠ "" ∧ buildLlmInput json (bareSnapshot [w]) opts config =
        buildLlmInput json (bareSnapshot []) opts config ++ text := by
  have hcap : capTables ⟨"", [], []⟩ ⟨[]⟩ config.maxDesignTables = ⟨⟨"", [], []⟩, ⟨[]⟩, ""⟩ :=
    if_pos (Nat.zero_le _)
  let large := decide (config.largeSchemaWarningThreshold ≤ 0)
  let profile : SourceProfile :=
    if large then
      compactProfileForLlm ⟨[]⟩ config.largeSchemaSampleValues config.largeSchemaValueChars
    else ⟨[]⟩
  have htext (ws : List AnalysisWarning) : buildLlmInput json (bareSnapshot ws) opts config =
      formatSourceForLlm json ⟨"", [], []⟩ profile ws large := by
    rw [buildLlmInput_eq]
    change (let reduced := capTables ⟨"", [], []⟩ ⟨[]⟩ config.maxDesignTables; _) = _
    rw [hcap]
    exact append_empty
  rw [htext, htext]
  exact formatSourceForLlm_warning json _ _ w _

theorem not_withholds_of_excludesScope {json : JsonWriter} {scope : WarningScope}
    (h : opts.ExcludesScope scope) : ¬Withholds json opts := by
  intro hw
  have hvisible : opts.visible (bareSnapshot [skippedWarning scope]) =
      opts.visible (bareSnapshot []) := by
    simp [DesignOptions.visible, bareSnapshot, skippedWarning, h]
  obtain ⟨text, htext, heq⟩ := buildLlmInput_bareSnapshot json opts {} (skippedWarning scope)
  have hsame := (hw {} _ _ hvisible).1
  rw [heq] at hsame
  have hlength := congrArg String.length hsame
  rw [String.length_append] at hlength
  have hzero : text.length = 0 := by omega
  exact htext (String.length_eq_zero_iff.1 hzero)

/-- A JSON string of characters that need no escape. -/
def jsonString (s : String) : String := "\"" ++ s ++ "\""

def jsonArray (items : List String) : String := "[" ++ ",".intercalate items ++ "]"

def jsonObject (fields : List (String × String)) : String :=
  "\x7b" ++ ",".intercalate (fields.map fun f => jsonString f.1 ++ ":" ++ f.2) ++ "\x7d"

def jsonTable (t : SourceTableDef) : String :=
  jsonObject [("name", jsonString t.name),
    ("columns", jsonArray (t.columns.map fun c => jsonObject [("name", jsonString c.name),
      ("data_type", jsonString c.dataType), ("nullable", toString c.nullable)])),
    ("primary_key", jsonArray (t.primaryKey.map jsonString))]

/-- The minified JSON of a schema without foreign keys and of a profile without columns. -/
def minifiedJson : JsonWriter where
  schema _ schema := jsonObject [("source_type", jsonString schema.sourceType),
    ("tables", jsonArray (schema.tables.map jsonTable)), ("foreign_keys", jsonArray [])]
  profile _ profile := jsonObject [("table_profiles", jsonArray (profile.tableProfiles.map fun tp =>
    jsonObject [("table_name", jsonString tp.tableName), ("row_count", toString tp.rowCount),
      ("column_stats", jsonArray [])]))]
  warnings _ warnings := jsonArray (warnings.map fun w => jsonString w.groupKey)

/-- Accounts of a number and a social security number, under the given primary key. -/
def accounts (primaryKey : List String) : SourceSnapshot where
  schema :=
    { sourceType := "csv"
      tables := [⟨"accounts", [⟨"number", "text", false⟩, ⟨"ssn", "text", false⟩], primaryKey⟩]
      foreignKeys := [] }
  profile := ⟨[⟨"accounts", 2, []⟩]⟩

end Ontosyx.Design
