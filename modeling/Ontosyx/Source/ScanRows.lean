import Mathlib.Data.List.FinRange
import Ontosyx.Source.ScanCells

/-!
# What a scan returns

Both scans are one loop over rows (`scanIntoBatch`).  For indices within the
described columns it never fails for its own part, so what it returns is decided
by the schema it gives Arrow, by where the limit stops it and by the single
cells (`agrees_scanIntoBatch_iff`).
-/

namespace Ontosyx.Source

open List Ontosyx.Core Ontology List

def limitRows {α : Type} (limit : Option Nat) (rows : List α) : List α :=
  limit.elim rows fun cap => rows.take cap

/-- The batch has the selected columns of some rows of cells. -/
structure Shows (columns : List SourceColumnDef) (selected : List (Fin columns.length))
    (rows : List Row) (batch : RecordBatch) : Prop where
  schema : batch.schema = selected.map fun i => columnToField (columns.get i)
  columns : Forall₂ (fun i column =>
    Forall₂ Denotes (columnCells rows (columns.get i).name) column) selected batch.columns

/-- A scan of a table returns the rows that the analyzer counted: all of them when it is asked for
all, else the columns and the first rows it is asked for. -/
def ScanAgrees (table : SourceTableDef) (profile : TableProfile) (rows : List Row)
    (scan : Option (List Nat) → Option Nat → Except OxError RecordBatch)
    (projection : Option (List (Fin table.columns.length))) (limit : Option Nat) : Prop :=
  ∃ batch, scan (projection.map (map Fin.val)) limit = .ok batch ∧
    Shows table.columns (projection.getD (finRange table.columns.length))
      (limitRows limit rows) batch ∧
    (projection = none → limit = none → batch.numRows = profile.rowCount ∧
      batch.columns.map nullCount = profile.columnStats.map (·.nullCount))

/-- A projection that the scan takes as it is meant: it has a column, and one of as many columns
as the table has is of the table's fields in their order. -/
def Selects (columns : List SourceColumnDef) (selected : List (Fin columns.length)) : Prop :=
  selected ≠ [] ∧ (selected.length = columns.length →
    (selected.map fun i => columnToField (columns.get i)) = columns.map columnToField)

/-- A request for rows, each of which fits under the columns that are asked for: the projection is
taken as it is meant, and the limit leaves a row or there is none. -/
def FitsRequest {β : Type} (table : SourceTableDef) (rows : List β)
    (fits : Fin table.columns.length → β → Prop)
    (projection : Option (List (Fin table.columns.length))) (limit : Option Nat) : Prop :=
  Selects table.columns (projection.getD (finRange table.columns.length)) ∧
    (limit = some 0 → rows = []) ∧
    ∀ i ∈ projection.getD (finRange table.columns.length),
      ∀ row ∈ limitRows limit rows, fits i row

/-! ## The loop -/

section

variable {α β : Type} {adapter : String} {columns : List SourceColumnDef}
  {read : α → Except OxError β} {cell : DataType → String → β → ArrowCell} {embed : β → α}

/-- The rows that the loop takes after `emitted` others: the limit is looked at after a row. -/
def takenRows (limit : Option Nat) (emitted : Nat) (rows : List β) : List β :=
  limit.elim rows fun cap => rows.take (max (cap - emitted) 1)

def builtColumn (columns : List SourceColumnDef) (cell : DataType → String → β → ArrowCell)
    (rows : List β) (pair : Fin columns.length × Field) : List ArrowCell :=
  rows.map (cell pair.2.dataType (columns.get pair.1).name)

theorem appendRow_eq (done : List β) (row : β) :
    ∀ pairs : List (Fin columns.length × Field),
      appendRow adapter columns cell row (pairs.map fun pair => pair.1.val) (pairs.map Prod.snd)
        (pairs.map (builtColumn columns cell done)) =
      .ok (pairs.map (builtColumn columns cell (done ++ [row])))
  | [] => rfl
  | pair :: pairs => by
    have hget : columns[pair.1.val]? = some (columns.get pair.1) := by simp
    have hbuilt : builtColumn columns cell (done ++ [row]) pair =
        builtColumn columns cell done pair ++
          [cell pair.2.dataType (columns.get pair.1).name row] := by
      simp [builtColumn]
    simp only [map_cons, appendRow, hget, appendRow_eq done row pairs, hbuilt, bind, Except.bind]

theorem takenRows_cons (limit : Option Nat) (emitted : Nat) (row : β) (rows : List β) :
    takenRows limit emitted (row :: rows) =
      row :: if limit.any (· ≤ emitted + 1) then [] else takenRows limit (emitted + 1) rows := by
  cases limit with
  | none => rfl
  | some cap =>
    by_cases hcap : cap ≤ emitted + 1
    · have hone : max (cap - emitted) 1 = 1 := by omega
      simp [takenRows, hcap, hone]
    · have hsucc : max (cap - emitted) 1 = max (cap - (emitted + 1)) 1 + 1 := by omega
      simp [takenRows, hcap, hsucc]

/-- The loop appends to each builder the cells of its column in the rows it takes. -/
theorem appendRows_eq (hread : ∀ row, read (embed row) = .ok row)
    (pairs : List (Fin columns.length × Field)) (limit : Option Nat) :
    ∀ (rows done : List β) (emitted : Nat),
      appendRows adapter columns read cell (pairs.map fun pair => pair.1.val)
        (pairs.map Prod.snd) limit (rows.map embed) emitted
        (pairs.map (builtColumn columns cell done)) =
      .ok (pairs.map (builtColumn columns cell (done ++ takenRows limit emitted rows)))
  | [], done, emitted => by
    have htaken : takenRows limit emitted ([] : List β) = [] := by
      cases limit <;> simp [takenRows]
    rw [htaken, append_nil]
    rfl
  | row :: rows, done, emitted => by
    rw [takenRows_cons]
    simp only [map_cons, appendRows, hread, appendRow_eq, bind, Except.bind]
    split
    · rfl
    · rw [appendRows_eq hread pairs limit rows (done ++ [row]) (emitted + 1), append_assoc,
        singleton_append]

def scanSchema (columns : List SourceColumnDef) (selected : List (Fin columns.length)) :
    List Field :=
  if selected.length = columns.length then columns.map columnToField
  else selected.map fun i => columnToField (columns.get i)

theorem projectSchema_eq (selected : List (Fin columns.length)) :
    projectSchema adapter (columns.map columnToField) (selected.map Fin.val) =
      .ok (scanSchema columns selected) := by
  have hmap : (selected.map Fin.val).mapM ((columns.map columnToField)[·]?) =
      some (selected.map fun i => columnToField (columns.get i)) := by
    induction selected with
    | nil => rfl
    | cons i selected ih =>
      have hget : (columns.map columnToField)[i.val]? =
          some (columnToField (columns.get i)) := by simp
      rw [map_cons, mapM_cons, hget, ih]
      rfl
  unfold projectSchema scanSchema
  rw [length_map, length_map, hmap]
  split
  · rfl
  · rfl

theorem length_scanSchema (selected : List (Fin columns.length)) :
    (scanSchema columns selected).length = selected.length := by
  unfold scanSchema
  split
  · rename_i h
    rw [length_map, h]
  · rw [length_map]

theorem scanIntoBatch_eq (hread : ∀ row, read (embed row) = .ok row)
    (projection : Option (List (Fin columns.length))) (limit : Option Nat) (rows : List β) :
    let selected := projection.getD (finRange columns.length)
    scanIntoBatch adapter columns read cell (projection.map (map Fin.val)) limit
        (rows.map embed) =
      RecordBatch.tryNew adapter (scanSchema columns selected)
        ((selected.zip (scanSchema columns selected)).map
          (builtColumn columns cell (takenRows limit 0 rows))) := by
  intro selected
  have hindices : (projection.map (map Fin.val)).getD (range columns.length) =
      selected.map Fin.val := by
    cases projection with
    | none => exact (map_coe_finRange_eq_range).symm
    | some selected => rfl
  have hlength : selected.length = (scanSchema columns selected).length :=
    (length_scanSchema selected).symm
  have hsnd : (selected.zip (scanSchema columns selected)).map Prod.snd =
      scanSchema columns selected := map_snd_zip hlength.ge
  have hfst : (selected.zip (scanSchema columns selected)).map (fun pair => pair.1.val) =
      selected.map Fin.val := by
    have hcomp := map_fst_zip hlength.le
    have hval := congrArg (map Fin.val) hcomp
    rw [map_map] at hval
    exact hval
  have hstart : (scanSchema columns selected).map (fun _ => ([] : List ArrowCell)) =
      (selected.zip (scanSchema columns selected)).map (builtColumn columns cell []) := by
    have hnil : ∀ (l : List (Fin columns.length × Field)),
        (l.map Prod.snd).map (fun _ => ([] : List ArrowCell)) =
          l.map (builtColumn columns cell []) := fun l => by
      rw [map_map]
      rfl
    rw [← hnil, hsnd]
  have hrows : appendRows adapter columns read cell
      ((selected.zip (scanSchema columns selected)).map fun pair => pair.1.val)
      ((selected.zip (scanSchema columns selected)).map Prod.snd) limit (rows.map embed) 0
      ((selected.zip (scanSchema columns selected)).map (builtColumn columns cell [])) =
      .ok ((selected.zip (scanSchema columns selected)).map
        (builtColumn columns cell ([] ++ takenRows limit 0 rows))) :=
    appendRows_eq hread _ limit rows [] 0
  rw [hfst, hsnd, nil_append] at hrows
  unfold scanIntoBatch
  simp only [hindices, projectSchema_eq, bind, Except.bind, hstart]
  rw [hrows]

/-! ## When it agrees -/

theorem tryNew_eq_ok_iff {schema : List Field} {built : List (List ArrowCell)}
    {batch : RecordBatch} : RecordBatch.tryNew adapter schema built = .ok batch ↔
      batch = ⟨schema, built⟩ ∧ schema.length = built.length ∧ ∃ first rest, built = first :: rest ∧
          ∀ pair ∈ schema.zip built, acceptsColumn first.length pair.1 pair.2 = true := by
  cases built with
  | nil => simp [RecordBatch.tryNew]
  | cons first rest =>
    unfold RecordBatch.tryNew
    dsimp only
    split
    · rename_i h
      rw [all_eq_true] at h
      constructor
      · intro hbatch
        exact ⟨(Except.ok.inj hbatch).symm, h.1, first, rest, rfl, h.2⟩
      · rintro ⟨rfl, -⟩
        rfl
    · rename_i h
      refine iff_of_false (by simp) ?_
      rintro ⟨-, hlength, first', rest', hcons, hall⟩
      obtain ⟨rfl, rfl⟩ := cons.inj hcons
      exact h ⟨hlength, all_eq_true.2 hall⟩

theorem scanSchema_eq_iff {selected : List (Fin columns.length)} :
    (scanSchema columns selected = selected.map fun i => columnToField (columns.get i)) ↔
      (selected.length = columns.length →
        (selected.map fun i => columnToField (columns.get i)) = columns.map columnToField) := by
  unfold scanSchema
  split
  · rename_i h
    exact ⟨fun heq _ => heq.symm, fun heq => (heq h).symm⟩
  · rename_i h
    exact iff_of_true rfl fun hlength => absurd hlength h

theorem builtColumns_eq {selected : List (Fin columns.length)}
    (h : scanSchema columns selected = selected.map fun i => columnToField (columns.get i))
    (rows : List β) :
    (selected.zip (scanSchema columns selected)).map (builtColumn columns cell rows) =
      selected.map fun i => rows.map
        (cell (columnToField (columns.get i)).dataType (columns.get i).name) := by
  have hzip : ∀ l : List (Fin columns.length),
      l.zip (l.map fun i => columnToField (columns.get i)) =
        l.map fun i => (i, columnToField (columns.get i)) := fun l => by
    induction l with
    | nil => rfl
    | cons i l ih => rw [map_cons, zip_cons_cons, ih, map_cons]
  rw [h, hzip, map_map]
  rfl

theorem nullCount_eq_countP {cells : List Cell} {column : List ArrowCell}
    (h : Forall₂ Denotes cells column) : nullCount column = cells.countP (·.raw.isNone) := by
  induction h with
  | nil => rfl
  | cons hcell _ ih =>
    unfold nullCount at ih ⊢
    rw [countP_cons, countP_cons, ih]
    have hnull := hcell.raw_eq_none_iff
    simp [Option.isNone_iff_eq_none, hnull]

theorem limitRows_sublist (limit : Option Nat) (rows : List β) :
    (limitRows limit rows).Sublist rows := by
  cases limit with
  | none => exact .refl _
  | some cap => exact take_sublist cap rows

/-- The loop takes the rows that the limit leaves, except that it takes one under a limit of
none. -/
theorem length_takenRows_eq_iff {limit : Option Nat} {rows : List β} :
    (takenRows limit 0 rows).length = (limitRows limit rows).length ↔
      (limit = some 0 → rows = []) := by
  cases limit with
  | none => simp [takenRows, limitRows]
  | some cap =>
    cases cap with
    | zero =>
      cases rows with
      | nil | cons row rows => simp [takenRows, limitRows]
    | succ cap => simp [takenRows, limitRows]

theorem takenRows_eq {limit : Option Nat} {rows : List β} (h : limit = some 0 → rows = []) :
    takenRows limit 0 rows = limitRows limit rows := by
  cases limit with
  | none => rfl
  | some cap =>
    cases cap with
    | zero =>
      rw [h rfl]
      rfl
    | succ cap => simp [takenRows, limitRows]

end

section

variable {α β : Type} {adapter : String} {table : SourceTableDef} {profile : TableProfile}
  {read : α → Except OxError β} {cell : DataType → String → β → ArrowCell} {embed : β → α}
  {rowFor : β → Row} {rows : List β} {fits : Fin table.columns.length → β → Prop}

theorem columnCells_map (rows : List β) (column : String) :
    columnCells (rows.map rowFor) column = rows.map fun row => (rowFor row).cell column := by
  rw [columnCells, map_map]
  rfl

/-- The batch of selected columns shows the rows exactly when each of its cells fits. -/
theorem shows_iff {selected : List (Fin table.columns.length)} {shown : List β}
    (hfits : ∀ i, ∀ row ∈ shown, (Denotes ((rowFor row).cell (table.columns.get i).name)
        (cell (columnToField (table.columns.get i)).dataType (table.columns.get i).name row) ↔
        fits i row)) : Shows table.columns selected (shown.map rowFor)
        ⟨selected.map fun i => columnToField (table.columns.get i), selected.map fun i => shown.map
            (cell (columnToField (table.columns.get i)).dataType (table.columns.get i).name)⟩ ↔
      ∀ i ∈ selected, ∀ row ∈ shown, fits i row := by
  have hcolumns : Forall₂ (fun i column =>
      Forall₂ Denotes (columnCells (shown.map rowFor) (table.columns.get i).name) column)
      selected (selected.map fun i => shown.map
        (cell (columnToField (table.columns.get i)).dataType (table.columns.get i).name)) ↔
      ∀ i ∈ selected, ∀ row ∈ shown, fits i row := by
    rw [forall₂_map_right_iff, forall₂_same]
    refine forall₂_congr fun i hi => ?_
    rw [columnCells_map, forall₂_map_left_iff, forall₂_map_right_iff, forall₂_same]
    exact forall₂_congr fun row hrow => hfits i row hrow
  exact ⟨fun h => hcolumns.1 h.columns, fun h => ⟨rfl, hcolumns.2 h⟩⟩

/-- Arrow takes the batch when the cells fit: a column that is not nullable has no null in any
row. -/
theorem tryNew_of_fits {selected : List (Fin table.columns.length)} {shown : List β}
    (hne : selected ≠ [])
    (htypes : ∀ col ∈ table.columns,
      builderType (columnToField col).dataType = (columnToField col).dataType)
    (hnullable : ∀ col ∈ table.columns, col.nullable = false →
      ∀ row ∈ shown, ((rowFor row).cell col.name).raw ≠ none)
    (hdenotes : ∀ i ∈ selected, ∀ row ∈ shown,
      Denotes ((rowFor row).cell (table.columns.get i).name)
        (cell (columnToField (table.columns.get i)).dataType (table.columns.get i).name row)) :
    let batch : RecordBatch :=
      ⟨selected.map fun i => columnToField (table.columns.get i),
        selected.map fun i => shown.map
          (cell (columnToField (table.columns.get i)).dataType (table.columns.get i).name)⟩
    RecordBatch.tryNew adapter batch.schema batch.columns = .ok batch := by
  intro batch
  obtain ⟨i₀, rest, rfl⟩ := exists_cons_of_ne_nil hne
  refine tryNew_eq_ok_iff.2 ⟨rfl, by simp [batch], _, _, rfl, ?_⟩
  intro pair hpair
  rw [zip_map'] at hpair
  obtain ⟨i, hi, rfl⟩ := mem_map.1 hpair
  have hnull : (columnToField (table.columns.get i)).nullable = false →
      nullCount (shown.map
        (cell (columnToField (table.columns.get i)).dataType (table.columns.get i).name)) = 0 := by
    intro hnullable'
    have hraw := hnullable _ (get_mem table.columns i) hnullable'
    unfold nullCount
    rw [countP_eq_zero]
    intro value hvalue
    obtain ⟨row, hrow, rfl⟩ := mem_map.1 hvalue
    have hne := mt (hdenotes i hi row hrow).raw_eq_none_iff.2 (hraw row hrow)
    simpa using hne
  unfold acceptsColumn
  rw [htypes _ (get_mem table.columns i)]
  cases hnullable' : (columnToField (table.columns.get i)).nullable with
  | true => simp
  | false =>
    rw [hnull hnullable']
    simp

theorem profile_of_shows {batch : RecordBatch} (hcolumns : table.columns ≠ [])
    (hrows : profile.rowCount = rows.length)
    (hnulls : profile.columnStats.map (·.nullCount) = table.columns.map fun col =>
      (columnCells (rows.map rowFor) col.name).countP (·.raw.isNone))
    (h : Shows table.columns (finRange table.columns.length) (rows.map rowFor) batch) :
    batch.numRows = profile.rowCount ∧
      batch.columns.map nullCount = profile.columnStats.map (·.nullCount) := by
  constructor
  · have hlength : 0 < table.columns.length := length_pos_iff.2 hcolumns
    have hforall := h.columns
    obtain ⟨i, rest, hi⟩ := exists_cons_of_ne_nil
      (ne_nil_of_mem (mem_finRange (⟨0, hlength⟩ : Fin table.columns.length)))
    rw [hi] at hforall
    cases hbatch : batch.columns with
    | nil => exact absurd (hbatch ▸ hforall) (by simp)
    | cons column columns =>
      rw [hbatch, forall₂_cons] at hforall
      have hcells := hforall.1.length_eq
      rw [columnCells_map, length_map] at hcells
      rw [hrows, hcells, RecordBatch.numRows, hbatch]
      rfl
  · rw [hnulls]
    have hmap : table.columns.map (fun col =>
        (columnCells (rows.map rowFor) col.name).countP (·.raw.isNone)) =
        (finRange table.columns.length).map fun i =>
          (columnCells (rows.map rowFor) (table.columns.get i).name).countP (·.raw.isNone) := by
      conv_lhs => rw [← map_get_finRange table.columns]
      rw [map_map]
      rfl
    rw [hmap]
    have hforall := h.columns
    generalize finRange table.columns.length = selected at hforall
    generalize batch.columns = columns at hforall
    induction hforall with
    | nil => rfl
    | cons hcells _ ih => rw [map_cons, map_cons, nullCount_eq_countP hcells, ih]

/-- A scan agrees with the analyzer exactly when what is asked for fits. -/
theorem agrees_scanIntoBatch_iff (hread : ∀ row, read (embed row) = .ok row)
    (hcolumns : table.columns ≠ []) (htypes : ∀ col ∈ table.columns,
      builderType (columnToField col).dataType = (columnToField col).dataType)
    (hnullable : ∀ col ∈ table.columns, col.nullable = false →
      ∀ row ∈ rows, ((rowFor row).cell col.name).raw ≠ none)
    (hrows : profile.rowCount = rows.length)
    (hnulls : profile.columnStats.map (·.nullCount) = table.columns.map fun col =>
      (columnCells (rows.map rowFor) col.name).countP (·.raw.isNone)) (hfits : ∀ i, ∀ row ∈ rows,
      (Denotes ((rowFor row).cell (table.columns.get i).name)
        (cell (columnToField (table.columns.get i)).dataType (table.columns.get i).name row) ↔
        fits i row)) (projection : Option (List (Fin table.columns.length))) (limit : Option Nat) :
    ScanAgrees table profile (rows.map rowFor) (fun projection limit =>
          scanIntoBatch adapter table.columns read cell projection limit (rows.map embed))
        projection limit ↔ FitsRequest table rows fits projection limit := by
  have hlimit : limitRows limit (rows.map rowFor) = (limitRows limit rows).map rowFor := by
    cases limit with
    | none => rfl
    | some cap => exact (map_take).symm
  have hshown : ∀ row ∈ limitRows limit rows, row ∈ rows := fun row hrow =>
    (limitRows_sublist limit rows).subset hrow
  have hshows : ∀ selected : List (Fin table.columns.length),
      Shows table.columns selected ((limitRows limit rows).map rowFor) _ ↔
        ∀ i ∈ selected, ∀ row ∈ limitRows limit rows, fits i row := fun selected =>
    shows_iff fun i row hrow => hfits i row (hshown row hrow)
  have hscan : scanIntoBatch adapter table.columns read cell (projection.map (map Fin.val))
      limit (rows.map embed) = _ := scanIntoBatch_eq hread projection limit rows
  constructor
  · rintro ⟨batch, hbatch, hbatchShows, -⟩
    replace hbatch := hscan.symm.trans hbatch
    rw [tryNew_eq_ok_iff] at hbatch
    obtain ⟨rfl, -, first, rest, hcons, -⟩ := hbatch
    have hschema : scanSchema table.columns
        (projection.getD (finRange table.columns.length)) = _ := hbatchShows.schema
    have hne : projection.getD (finRange table.columns.length) ≠ [] := fun hnil => by
      rw [hnil] at hcons
      exact absurd hcons (by simp)
    rw [hlimit] at hbatchShows
    have hbuilt : map (builtColumn table.columns cell (takenRows limit 0 rows)) _ = _ :=
      builtColumns_eq hschema (takenRows limit 0 rows)
    have hzero : limit = some 0 → rows = [] := by
      rw [← length_takenRows_eq_iff]
      obtain ⟨i, indices, hi⟩ := exists_cons_of_ne_nil hne
      have hforall := hbatchShows.columns
      rw [hbuilt, hi, map_cons, forall₂_cons] at hforall
      have hlength := hforall.1.length_eq
      rw [columnCells_map, length_map, length_map] at hlength
      exact hlength.symm
    refine ⟨⟨hne, scanSchema_eq_iff.1 hschema⟩, hzero, ?_⟩
    rw [← hshows]
    rw [hbuilt, takenRows_eq hzero, hschema] at hbatchShows
    exact hbatchShows
  · rintro ⟨⟨hne, hfields⟩, hzero, hall⟩
    have hschema := scanSchema_eq_iff.2 hfields
    have hdenotes := fun i hi row hrow => (hfits i row (hshown row hrow)).2 (hall i hi row hrow)
    have hbatchShows := (hshows _).2 hall
    refine ⟨_, ?_, by rw [hlimit]; exact hbatchShows, ?_⟩
    · refine hscan.trans ?_
      rw [builtColumns_eq hschema, takenRows_eq hzero, hschema]
      exact tryNew_of_fits hne htypes
        (fun col hcol hnull row hrow => hnullable col hcol hnull row (hshown row hrow)) hdenotes
    · rintro rfl rfl
      exact profile_of_shows hcolumns hrows hnulls hbatchShows

end

end Ontosyx.Source
