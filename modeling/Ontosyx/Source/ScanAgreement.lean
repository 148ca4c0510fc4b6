import Ontosyx.Source.Nesting
import Ontosyx.Source.ScanRows

/-!
# Scans and their analysis

A CSV table agrees with its scan up to single cells.  A table of a JSON payload
does so when its name leads the scan back to it (`Reached`); the root table
always does.

## Main results

* `scan_agrees_iff` — for an accepted payload, which scans return what the
  analyzer counted.
* `nested_rows_lost` — a nested table whose parent holds nothing else is scanned
  without its rows.
-/

namespace Ontosyx.Source

open List Ontosyx.Core Ontology Lib.Keyed List Value

section

variable {α β : Type} {adapter name : String} {columns : List String}
  {read : α → Except OxError β} {cell : DataType → String → β → ArrowCell}
  {rowFor : β → Row} {rows : List β}

/-- The type that the analyzer infers for a column. -/
def columnType (rows : List Row) (column : String) : CellType :=
  inferColumnType (columnCells rows column)

theorem dataType_columnToField (rows : List Row) (column : String) :
    (columnToField (columnDef rows column)).dataType = (columnType rows column).arrow :=
  rawTypeToArrow_name _

/-- The requests under which a table of the analyzer is scanned as it was counted. -/
theorem agrees_tableDef_iff (embed : β → α) (fits : CellType → String → β → Prop)
    (hread : ∀ row, read (embed row) = .ok row) (hcolumns : columns ≠ [])
    (hfits : ∀ column ∈ columns, ∀ row ∈ rows, (Denotes ((rowFor row).cell column)
        (cell (columnType (rows.map rowFor) column).arrow column row) ↔
        fits (columnType (rows.map rowFor) column) column row))
    (projection : Option (List (Fin (tableDef name columns (rows.map rowFor)).columns.length)))
    (limit : Option Nat) :
    let table := tableDef name columns (rows.map rowFor)
    ScanAgrees table (tableProfile name columns (rows.map rowFor)) (rows.map rowFor)
        (fun projection limit =>
          scanIntoBatch adapter table.columns read cell projection limit (rows.map embed))
        projection limit ↔
      FitsRequest table rows (fun i row =>
        fits (columnType (rows.map rowFor) (table.columns.get i).name) (table.columns.get i).name
          row) projection limit := by
  intro table
  have hcol : ∀ col ∈ table.columns, ∃ column ∈ columns, col = columnDef (rows.map rowFor) column :=
    fun col hmem => by
      obtain ⟨column, hcolumn, rfl⟩ := mem_map.1 hmem
      exact ⟨column, hcolumn, rfl⟩
  refine agrees_scanIntoBatch_iff hread (by simpa [table, tableDef] using hcolumns) ?_ ?_
    (by simp [tableProfile]) ?_ ?_ projection limit
  · intro col hmem
    obtain ⟨column, -, rfl⟩ := hcol col hmem
    rw [dataType_columnToField]
    cases columnType (rows.map rowFor) column <;> rfl
  · intro col hmem hnull row hrow
    obtain ⟨column, -, rfl⟩ := hcol col hmem
    intro hraw
    have hany : (columnCells (rows.map rowFor) column).any (·.raw.isNone) = true := by
      rw [columnCells_map, any_map, any_eq_true]
      exact ⟨row, hrow, by simpa [columnDef] using hraw⟩
    exact absurd (hany.symm.trans hnull) (by simp)
  · simp only [tableProfile, tableDef, map_map]
    rfl
  · intro i row hrow
    obtain ⟨column, hcolumn, heq⟩ := hcol _ (get_mem table.columns i)
    rw [heq, dataType_columnToField]
    exact hfits column hcolumn row hrow

end

/-! ## CSV -/

/-- The text of a record under a column fits the column. -/
def FitsRecord (headers : List String) (type : CellType) (column : String)
    (record : List String) : Prop :=
  ∀ s, csvField headers column record = some s → FitsText type s

variable {column : String}

theorem cell_csvRow {headers : List String} (hcolumn : column ∈ headers.map trim)
    (record : List String) : (csvRow (headers.map trim) record).cell column =
      cellFromStr ((csvField headers column record).getD "") := by
  have hkeys : column ∈ (headers.map trim).zipIdx.map Prod.fst := by
    rw [zipIdx_map_fst]
    exact hcolumn
  obtain ⟨pos, hpos⟩ := (last_isSome_iff Prod.fst).2 hkeys
  have hget : (csvRow (headers.map trim) record).get? column =
      some (cellFromStr (((record[pos.2]?).map trim).getD "")) := by
    have hlast : last Prod.fst column (csvRow (headers.map trim) record) =
        (last Prod.fst column (headers.map trim).zipIdx).map fun pos =>
          (pos.1, cellFromStr (((record[pos.2]?).map trim).getD "")) := by
      have hkey : ∀ pos : String × Nat,
          (pos.1, cellFromStr (((record[pos.2]?).map trim).getD "")).1 = pos.1 := fun _ => rfl
      exact last_map Prod.fst hkey column _
    unfold Row.get?
    rw [hlast, hpos]
    rfl
  unfold Row.cell
  rw [hget, Option.getD_some]
  congr 1
  unfold csvField
  rw [hpos, Option.bind_some]
  cases record[pos.2]? with
  | none => rfl
  | some v =>
    by_cases hempty : trim v = ""
    · simp [hempty]
    · simp [hempty]

theorem denotes_record_iff {headers : List String} {records : List (List String)}
    (hcolumn : column ∈ headers.map trim) {record : List String} (hrecord : record ∈ records) :
    let type := columnType (records.map (csvRow (headers.map trim))) column
    (Denotes ((csvRow (headers.map trim) record).cell column)
      (appendTextCell type.arrow (csvField headers column record)) ↔
      FitsRecord headers type column record) := by
  intro type
  have hcell := cell_csvRow hcolumn record
  cases hfield : csvField headers column record with
  | none =>
    rw [hcell, hfield]
    exact iff_of_true (.null _) fun s hs => absurd (hfield.symm.trans hs) (by simp)
  | some s =>
    have hne : s ≠ "" := by
      unfold csvField at hfield
      split at hfield
      · split at hfield
        · exact absurd hfield (by simp)
        · rename_i hne
          obtain rfl := Option.some.inj hfield
          exact hne
      · exact absurd hfield (by simp)
    have hs : cellFromStr s = ⟨some s, inferScalarType s⟩ := by
      unfold cellFromStr
      rw [if_neg hne]
    rw [hfield, Option.getD_some, hs] at hcell
    have hcovers : Covers type (inferScalarType s) := by
      have hmem : (⟨some s, inferScalarType s⟩ : Cell) ∈
          columnCells (records.map (csvRow (headers.map trim))) column := by
        rw [columnCells_map]
        exact mem_map.2 ⟨record, hrecord, hcell⟩
      exact covers_inferColumnType hmem rfl (inferScalarType_ne_null s)
    rw [hcell, denotes_appendText_iff hcovers]
    constructor
    · intro h t ht
      rw [← Option.some.inj (hfield.symm.trans ht)]
      exact h
    · intro h
      exact h s hfield

theorem eq_map_some_of_mapM {α : Type} :
    ∀ {records : List (Option α)} {rows : List α}, records.mapM id = some rows →
      records = rows.map some
  | [], rows, h => by
    rw [mapM_nil] at h
    rw [← Option.some.inj h]
    rfl
  | none :: records, rows, h => by
    rw [mapM_cons] at h
    exact absurd h (by simp)
  | some row :: records, rows, h => by
    rw [mapM_cons] at h
    cases hrest : records.mapM id with
    | none =>
      rw [hrest] at h
      exact absurd h (by simp)
    | some rest =>
      rw [hrest] at h
      rw [← Option.some.inj h, map_cons, ← eq_map_some_of_mapM hrest]

def csvRows (headers : List String) (records : List (List String)) : List Row :=
  records.map (csvRow (headers.map trim))

def csvTable (headers : List String) (records : List (List String)) : SourceTableDef :=
  tableDef inlineTableName (headers.map trim) (csvRows headers records)

def csvProfile (headers : List String) (records : List (List String)) : TableProfile :=
  tableProfile inlineTableName (headers.map trim) (csvRows headers records)

variable {adapter : InlineAdapter} {formats : Formats}

/-- An accepted CSV payload is one table of its records. -/
theorem csvAdapter_eq {data : String} (h : csvAdapter formats data = .ok adapter) :
    ∃ (headers : List String) (records : List (List String)),
      formats.readCsv data = ⟨some headers, records.map some⟩ ∧
      headers.map trim ≠ [] ∧ adapter.rawData = data ∧
      adapter.schema.tables = [csvTable headers records] ∧
      adapter.profile.tableProfiles = [csvProfile headers records] := by
  unfold csvAdapter analyzeCsv at h
  cases hguard : guardPayloadSize "csv" data with
  | error e =>
    rw [hguard] at h
    exact absurd h (by simp [bind, Except.bind, Except.map])
  | ok _ =>
    rw [hguard] at h
    simp only [bind, Except.bind] at h
    cases hheaders : (formats.readCsv data).headers with
    | none =>
      rw [hheaders] at h
      exact absurd h (by simp [Except.map])
    | some headers =>
      rw [hheaders] at h
      dsimp only at h
      by_cases hempty : headers.map trim = []
      · rw [if_pos hempty] at h
        exact absurd h (by simp [Except.map])
      · rw [if_neg hempty] at h
        cases hrecords : (formats.readCsv data).records.mapM id with
        | none =>
          rw [hrecords] at h
          exact absurd h (by simp [Except.map])
        | some records =>
          rw [hrecords] at h
          simp only [buildSchemaProfile, if_neg hempty, Except.map, Except.ok.injEq] at h
          refine ⟨headers, records, ?_, hempty, ?_⟩
          · rw [← hheaders, ← eq_map_some_of_mapM hrecords]
          · rw [← h]
            exact ⟨rfl, rfl, rfl⟩

/-- The scans of a CSV payload that agree with its analysis. -/
theorem agrees_scanCsv_iff {headers : List String} {records : List (List String)}
    (hread : formats.readCsv adapter.rawData = ⟨some headers, records.map some⟩)
    (hheaders : headers.map trim ≠ [])
    (htables : adapter.schema.tables = [csvTable headers records])
    (projection : Option (List (Fin (csvTable headers records).columns.length)))
    (limit : Option Nat) :
    ScanAgrees (csvTable headers records) (csvProfile headers records) (csvRows headers records)
        (scanCsv formats adapter inlineTableName) projection limit ↔
      FitsRequest (csvTable headers records) records (fun i record =>
        let column := ((csvTable headers records).columns.get i).name
        FitsRecord headers (columnType (csvRows headers records) column) column record)
        projection limit := by
  have hscan : scanCsv formats adapter inlineTableName = fun projection limit =>
      scanIntoBatch "csv" (csvTable headers records).columns readRecord
        (fun type name record => appendTextCell type (csvField headers name record))
        projection limit (records.map some) := by
    funext projection limit
    unfold scanCsv
    have hdescribe : describeFromSchema adapter.schema inlineTableName =
        .ok (csvTable headers records) := by
      unfold describeFromSchema
      rw [htables]
      rfl
    rw [hdescribe]
    simp only [bind, Except.bind]
    rw [hread]
  rw [hscan]
  have hread' : ∀ record, readRecord (some record) = .ok record := fun _ => rfl
  refine agrees_tableDef_iff some (FitsRecord headers) hread' hheaders ?_ projection limit
  intro column hcolumn record hrecord
  exact denotes_record_iff hcolumn hrecord

/-! ## JSON -/

theorem columnsOf_ne_nil {items : List Value} (h : isListed formats items = true) :
    columnsOf formats items ≠ [] := by
  intro hnil
  have hrows : rowsOf formats items = [] := by
    simpa [isListed, hnil] using h
  obtain rfl : items = [] := by simpa [rowsOf] using hrows
  exact absurd hnil (by simp [columnsOf, rowsOf, nestedObjects, nestedArrays, Lib.Grouped.gather])

theorem dataType_cell_rowOf_ne_null {item : Value}
    (h : ((rowOf formats item).cell column).raw.isSome = true) :
    ((rowOf formats item).cell column).dataType ≠ .null := by
  have hentry : ∀ entry ∈ rowOf formats item, ∃ v, entry.2 = cellFromJsonValue formats v := by
    intro entry hentry
    cases hobject : item.isObject with
    | true =>
      cases item with
      | obj fields =>
        obtain ⟨field, -, rfl⟩ := mem_map.1 hentry
        exact ⟨field.2, rfl⟩
      | _ => exact absurd hobject (by simp [isObject])
    | false =>
      rw [rowOf_scalar formats hobject] at hentry
      exact ⟨item, congrArg Prod.snd (mem_singleton.1 hentry)⟩
  unfold Row.cell Row.get? at h ⊢
  cases hlast : last Prod.fst column (rowOf formats item) with
  | none =>
    rw [hlast] at h
    exact absurd h (by simp)
  | some entry =>
    obtain ⟨v, hv⟩ := hentry entry (mem_of_last Prod.fst hlast)
    rw [hlast, Option.map_some, Option.getD_some, hv] at h
    rw [Option.map_some, Option.getD_some, hv]
    refine dataType_cellFromJson_ne_null ?_
    rintro rfl
    exact absurd h (by simp [cellFromJsonValue])

theorem denotes_rowsOf_iff {items : List Value} {item : Value} (hitem : item ∈ items)
    (hwf : item.WellFormed) (hreads : ∀ v, item.get? column = some v → ReadsBack formats v) :
    let type := columnType (items.map (rowOf formats)) column
    (Denotes ((rowOf formats item).cell column)
      (appendJsonCell formats type.arrow (item.get? column)) ↔ FitsItem type column item) := by
  intro type
  refine denotes_item_iff hwf (inferColumnType_ne_null _) (fun hraw => ?_) hreads
  refine covers_inferColumnType ?_ hraw (dataType_cell_rowOf_ne_null hraw)
  rw [columnCells_map]
  exact mem_map.2 ⟨item, hitem, rfl⟩

/-- The name of a table leads the scan back to its values. -/
structure Reached (formats : Formats) (adapter : InlineAdapter) (payload : Payload)
    (node : Node) : Prop where
  described : describeFromSchema adapter.schema node.name = .ok (node.table formats)
  named : parentChainFields (adapter.schema.tables.map (·.name)) node.name = node.path.map Prod.fst
  unmixed : Unmixed (topItems payload.value) node.path

/-- The doubles of a table are written so that they read as themselves. -/
def Node.ReadsBack (formats : Formats) (node : Node) : Prop :=
  ∀ item ∈ node.items, ∀ column v, item.get? column = some v → Source.ReadsBack formats v

theorem jsonAdapter_eq {data : String} (h : jsonAdapter formats data = .ok adapter) :
    ∃ payload, formats.fromStr data = some payload ∧ adapter.rawData = data ∧
      adapter.schema.tables = (listedNodes formats payload).map (Node.table formats) ∧
      adapter.profile.tableProfiles = (listedNodes formats payload).map (Node.profile formats) := by
  unfold jsonAdapter analyzeJson at h
  cases hguard : guardPayloadSize "json" data with
  | error e =>
    rw [hguard] at h
    exact absurd h (by simp [bind, Except.bind, Except.map])
  | ok _ =>
    rw [hguard] at h
    simp only [bind, Except.bind] at h
    cases hpayload : formats.fromStr data with
    | none =>
      rw [hpayload] at h
      exact absurd h (by simp [Except.map])
    | some payload =>
      rw [hpayload] at h
      dsimp only at h
      split at h
      · exact absurd h (by simp [Except.map])
      · simp only [Except.map, Except.ok.injEq] at h
        refine ⟨payload, rfl, ?_⟩
        rw [← h]
        exact ⟨rfl, tables_extract _ _ _, profiles_extract _ _ _⟩

theorem wellFormed_topItems (payload : Payload) :
    ∀ item ∈ topItems payload.value, item.WellFormed := by
  have hscalar : ∀ v : Value, v.WellFormed → (obj [("value", v)]).WellFormed := fun v hv =>
    .obj (by simp) fun field hfield => by rw [mem_singleton.1 hfield]; exact hv
  have hwf := payload.wellFormed
  intro item hitem
  cases hvalue : payload.value with
  | arr items =>
    rw [hvalue] at hwf hitem
    cases hwf with
    | arr hitems => exact hitems item hitem
  | _ =>
    rw [hvalue] at hwf hitem
    rw [mem_singleton.1 hitem]
    first
      | exact hwf
      | exact hscalar _ hwf

theorem parentChainFields_root (tables : List String) :
    parentChainFields tables inlineTableName = [] := rfl

/-- A reached table is scanned from its own values. -/
theorem resolveItems_of_reached {payload : Payload} {node : Node}
    (hpayload : formats.fromStr adapter.rawData = some payload)
    (hitems : node.items = itemsAt (topItems payload.value) node.path)
    (hrootName : node.path = [] → node.name = inlineTableName)
    (h : Reached formats adapter payload node) :
    resolveItemsForTable formats adapter node.name = .ok node.items := by
  unfold resolveItemsForTable
  rw [hpayload]
  dsimp only
  by_cases hroot : node.name = inlineTableName
  · have hpath : node.path = [] := by
      have hnamed := h.named
      rw [hroot, parentChainFields_root] at hnamed
      exact map_eq_nil_iff.1 hnamed.symm
    rw [if_pos hroot, hitems, hpath]
    rfl
  · rw [if_neg hroot]
    have hlisted : adapter.schema.tables.any (·.name = node.name) = true := by
      have hdescribed := h.described
      unfold describeFromSchema at hdescribed
      split at hdescribed
      · rename_i t ht
        have hname : decide (t.name = node.name) = true := by simpa using find?_some ht
        rw [any_eq_true]
        exact ⟨t, mem_of_find?_eq_some ht, hname⟩
      · exact absurd hdescribed (by simp)
    have hpath : node.path ≠ [] := fun hnil => hroot (hrootName hnil)
    have hfields : node.path.map Prod.fst ≠ [] := fun hnil => hpath (map_eq_nil_iff.1 hnil)
    rw [hlisted, h.named]
    simp only [Bool.not_true, if_neg hfields, Bool.false_eq_true, if_false]
    rw [walkJsonPath_eq payload.value hpath h.unmixed, hitems]

theorem agrees_scanJson_iff {payload : Payload} {node : Node}
    (hpayload : formats.fromStr adapter.rawData = some payload)
    (hnode : node ∈ listedNodes formats payload)
    (hreached : Reached formats adapter payload node) (hreads : node.ReadsBack formats)
    (projection : Option (List (Fin (node.table formats).columns.length))) (limit : Option Nat) :
    ScanAgrees (node.table formats) (node.profile formats) (rowsOf formats node.items)
        (scanJson formats adapter node.name) projection limit ↔
      FitsRequest (node.table formats) node.items (fun i item =>
        let column := ((node.table formats).columns.get i).name
        FitsItem (columnType (rowsOf formats node.items) column) column item)
        projection limit := by
  obtain ⟨hmem, hlisted⟩ := mem_filter.1 hnode
  have htop : ∀ item ∈ topItems payload.value, item.WellFormed := wellFormed_topItems payload
  obtain ⟨hwf, rest, hpath, hitems, hroot⟩ := items_of_mem_nodesFrom htop hmem
  obtain rfl : rest = node.path := hpath.symm
  have hscan : scanJson formats adapter node.name = fun projection limit =>
      scanIntoBatch "json" (node.table formats).columns .ok
        (fun type name item => appendJsonCell formats type (item.get? name)) projection limit
        (node.items.map id) := by
    funext projection limit
    unfold scanJson
    rw [hreached.described, resolveItems_of_reached hpayload hitems
      (fun hnil => congrArg Node.name (hroot hnil)) hreached, map_id]
    rfl
  rw [hscan]
  refine agrees_tableDef_iff id FitsItem (fun _ => rfl) (columnsOf_ne_nil hlisted) ?_ projection
    limit
  intro column _ item hitem
  exact denotes_rowsOf_iff hitem (hwf item hitem) fun v hv => hreads item hitem column v hv

/-- For an accepted payload, a scan returns what the analyzer counted exactly when what is asked
for fits: the projection is neither empty nor a rearrangement of all columns, the limit is not zero,
and the values of the rows and columns that are asked for are such as are found again.  A table
of a JSON payload is meant where its name leads back to it. -/
theorem scan_agrees_iff (formats : Formats) (data : String) (adapter : InlineAdapter) :
    (csvAdapter formats data = .ok adapter →
      ∃ (headers : List String) (records : List (List String)),
        formats.readCsv data = ⟨some headers, records.map some⟩ ∧
        adapter.schema.tables = [csvTable headers records] ∧
        adapter.profile.tableProfiles = [csvProfile headers records] ∧
        ∀ projection limit,
          ScanAgrees (csvTable headers records) (csvProfile headers records)
              (csvRows headers records) (scanCsv formats adapter inlineTableName) projection limit ↔
            FitsRequest (csvTable headers records) records (fun i record =>
              let column := ((csvTable headers records).columns.get i).name
              FitsRecord headers (columnType (csvRows headers records) column) column record)
              projection limit) ∧
    (jsonAdapter formats data = .ok adapter → ∃ payload, formats.fromStr data = some payload ∧
        adapter.schema.tables = (listedNodes formats payload).map (Node.table formats) ∧
        adapter.profile.tableProfiles = (listedNodes formats payload).map (Node.profile formats) ∧
        ∀ node ∈ listedNodes formats payload, Reached formats adapter payload node →
          node.ReadsBack formats →
          ∀ projection limit,
            ScanAgrees (node.table formats) (node.profile formats) (rowsOf formats node.items)
                (scanJson formats adapter node.name) projection limit ↔
              FitsRequest (node.table formats) node.items (fun i item =>
                let column := ((node.table formats).columns.get i).name
                FitsItem (columnType (rowsOf formats node.items) column) column item)
                projection limit) := by
  constructor
  · intro h
    obtain ⟨headers, records, hread, hheaders, hdata, htables, hprofiles⟩ := csvAdapter_eq h
    refine ⟨headers, records, hread, htables, hprofiles, ?_⟩
    exact agrees_scanCsv_iff (by rw [hdata, hread]) hheaders htables
  · intro h
    obtain ⟨payload, hpayload, hdata, htables, hprofiles⟩ := jsonAdapter_eq h
    refine ⟨payload, hpayload, htables, hprofiles, ?_⟩
    intro node hnode hreached hreads
    exact agrees_scanJson_iff (by rw [hdata, hpayload]) hnode hreached hreads

/-! ## Two payloads -/

def oneText (text : String) (payload : Payload) : Formats where
  readCsv _ := ⟨none, []⟩
  fromStr data := if data = text then some payload else none
  floatText _ := "0.0"
  compact _ := "[]"

def oneAdapter (text : String) (payload : Payload) : InlineAdapter :=
  let items := topItems payload.value
  let e := extractJsonTables (oneText text payload) (depthItems items + 1) inlineTableName
    items {}
  ⟨text, ⟨"json", e.tables, e.foreignKeys⟩, ⟨e.profiles⟩⟩

def page : Payload where
  value := .obj [("id", .num (.posInt 1)), ("tags", .arr [.obj [("hot", .bool true)]])]
  wellFormed := by
    refine .obj (by simp) fun field hfield => ?_
    rcases mem_cons.1 hfield with rfl | hfield
    · exact .num _
    · rw [mem_singleton.1 hfield]
      refine .arr fun v hv => ?_
      rw [mem_singleton.1 hv]
      refine .obj (by simp) fun field hfield => ?_
      rw [mem_singleton.1 hfield]
      exact .bool true

def pageText : String := "\x7b\"id\":1,\"tags\":[\x7b\"hot\":true\x7d]\x7d"

def tags : Node where
  name := "records_tags"
  path := [("tags", .array)]
  items := [.obj [("hot", .bool true)]]

/-- The tags are scanned as they were counted. -/
theorem tags_agree :
    ScanAgrees (tags.table (oneText pageText page)) (tags.profile (oneText pageText page))
      (rowsOf (oneText pageText page) tags.items)
      (scanJson (oneText pageText page) (oneAdapter pageText page) tags.name) none none := by
  have hadapter : jsonAdapter (oneText pageText page) pageText =
      .ok (oneAdapter pageText page) := by
    decide +kernel
  obtain ⟨payload, hpayload, -, -, hagree⟩ :=
    (scan_agrees_iff (oneText pageText page) pageText (oneAdapter pageText page)).2 hadapter
  obtain rfl : payload = page := (Option.some.inj hpayload).symm
  refine (hagree tags ?_ ⟨?_, ?_, ?_⟩ ?_ none none).2 ⟨⟨?_, ?_⟩, ?_, ?_⟩
  · have harrays : nestedArrays (topItems page.value) = [("tags", tags.items)] := by
      simp [nestedArrays, topItems, page, tags, fields, objectArray?, isObject,
        Lib.Grouped.gather, Lib.Grouped.push]
    refine mem_filter.2 ⟨?_, by decide +kernel⟩
    refine mem_cons_of_mem _ (mem_append_right _ ?_)
    rw [harrays]
    refine mem_flatMap.2 ⟨("tags", tags.items), mem_singleton_self _, ?_⟩
    exact mem_cons_self
  · decide +kernel
  · decide +kernel
  · simp [Unmixed, tags, page, topItems, KeptBy, get?, first, isObject,
      objectArray?]
  · intro item hitem column v hv x hx
    rw [mem_singleton.1 hitem, hx] at hv
    simp [get?, first] at hv
  · decide +kernel
  · decide +kernel
  · simp
  · intro i _ item hitem
    rw [mem_singleton.1 hitem]
    intro column v hv
    obtain rfl : bool true = v := by
      simp [get?, first] at hv
      exact hv.2
    exact fun h => absurd h (by decide)

/-- An order whose buyer lies below a field that holds nothing else. -/
def order : Payload where
  value := .obj [("order", .obj [("buyer", .obj [("name", .str "Kim")])])]
  wellFormed := by
    refine .obj (by simp) fun field hfield => ?_
    rw [mem_singleton.1 hfield]
    refine .obj (by simp) fun field hfield => ?_
    rw [mem_singleton.1 hfield]
    refine .obj (by simp) fun field hfield => ?_
    rw [mem_singleton.1 hfield]
    exact .str "Kim"

def orderText : String :=
  "\x7b\"order\":\x7b\"buyer\":\x7b\"name\":\"Kim\"\x7d\x7d\x7d"

def buyer : Node where
  name := "records_order_buyer"
  path := [("order", .object), ("buyer", .object)]
  items := [.obj [("name", .str "Kim")]]

/-- The one row of the buyer is counted and not scanned. -/
theorem nested_rows_lost :
    jsonAdapter (oneText orderText order) orderText = .ok (oneAdapter orderText order) ∧
      buyer ∈ listedNodes (oneText orderText order) order ∧
      ¬ScanAgrees (buyer.table (oneText orderText order)) (buyer.profile (oneText orderText order))
        (rowsOf (oneText orderText order) buyer.items)
        (scanJson (oneText orderText order) (oneAdapter orderText order) buyer.name) none none := by
  refine ⟨by decide +kernel, ?_, ?_⟩
  · have houter : nestedObjects (topItems order.value) =
        [("order", [.obj [("buyer", .obj [("name", .str "Kim")])]])] := by
      simp [nestedObjects, topItems, order, fields, isObject, Lib.Grouped.gather,
        Lib.Grouped.push]
    have hinner : nestedObjects [.obj [("buyer", .obj [("name", .str "Kim")])]] =
        [("buyer", buyer.items)] := by
      simp [nestedObjects, buyer, fields, isObject, Lib.Grouped.gather,
        Lib.Grouped.push]
    refine mem_filter.2 ⟨?_, by decide +kernel⟩
    refine mem_cons_of_mem _ (mem_append_left _ ?_)
    rw [houter]
    refine mem_flatMap.2 ⟨_, mem_singleton_self _, ?_⟩
    refine mem_cons_of_mem _ (mem_append_left _ ?_)
    rw [hinner]
    exact mem_flatMap.2 ⟨_, mem_singleton_self _, mem_cons_self⟩
  · rintro ⟨batch, hscan, -, hprofile⟩
    have hempty : scanJson (oneText orderText order) (oneAdapter orderText order) buyer.name none
        none = .ok ⟨[⟨"name", .utf8, false⟩], [[]]⟩ := by
      decide +kernel
    obtain rfl := Except.ok.inj (hempty.symm.trans hscan)
    exact absurd (hprofile rfl rfl).1 (by decide)

end Ontosyx.Source
