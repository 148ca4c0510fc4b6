import Ontosyx.Ontology.IR
import Ontosyx.Lib.Delimited

/-!
# Scans over several mappings

A node type may be mapped to several relations.  The mappings that hold at the query time are
ordered by precedence, and the scan of a variable is the union of theirs, duplicates kept.

## Main results

* `scan_perm` — the order in which mappings were added does not matter.
* `scan_once_iff` — when the union returns each primary key once.
-/

namespace Ontosyx.Query.Federated

open List Ontosyx.Core Ontology

def isValidAt (m : ObjectMappingDef) (time : DateTime) : Bool :=
  m.validFrom.all (fun start => start ≤ time) &&
    m.validTo.all fun stop => time < stop

/-- The order of resolved mappings: highest precedence first, then by id. -/
def comesFirst (a b : ObjectMappingDef) : Bool :=
  b.precedence < a.precedence || (a.precedence = b.precedence && a.id.val ≤ b.id.val)

/-- The mappings of a node type that hold at the time, if one is given. -/
def applicable (o : OntologyIR) (time : Option DateTime) (nodeTypeId : NodeTypeId) :
    List ObjectMappingDef :=
  o.objectMappings.filter fun m => m.nodeTypeId = nodeTypeId ∧ time.all (isValidAt m)

/-- `resolve_node_type`; `none` for a type that is not declared. -/
def resolveNodeType (o : OntologyIR) (time : Option DateTime) (nodeTypeId : NodeTypeId) :
    Option (List ObjectMappingDef) :=
  if nodeTypeId ∈ o.nodeTypes.map (·.id) then
    some ((applicable o time nodeTypeId).mergeSort comesFirst)
  else none

/-- A row of a relation: its cells by column. -/
abbrev Row := String → Option String

section

variable (contents : SourceId → String → List Row) (workspaceId : Option String)

/-- `build_table_scan`: the whole relation, within the workspace where the mapping names a column
for it. -/
def buildTableScan (m : ObjectMappingDef) : List Row :=
  match workspaceId, m.workspaceScope with
  | some id, some scope => (contents m.sourceId m.relation).filter fun row => row scope.column = id
  | _, _ => contents m.sourceId m.relation

/-- `build_union_scan`, behind its first entry. -/
def buildUnionScan (first : ObjectMappingDef) (rest : List ObjectMappingDef) : List Row :=
  rest.foldl (fun combined entry => combined ++ buildTableScan contents workspaceId entry)
    (buildTableScan contents workspaceId first)

/-- `build_single_scan`; `none` without a mapping. -/
def buildSingleScan : List ObjectMappingDef → Option (List Row)
  | [] => none
  | [only] => some (buildTableScan contents workspaceId only)
  | first :: second :: rest => some (buildUnionScan contents workspaceId first (second :: rest))

def scan (o : OntologyIR) (time : Option DateTime) (nodeTypeId : NodeTypeId) : Option (List Row) :=
  (resolveNodeType o time nodeTypeId).bind (buildSingleScan contents workspaceId)

end

/-! ## The merge that the mappings stand for -/

def primaryKey (columns : List ColumnRef) (row : Row) : List (Option String) :=
  columns.map fun c => row c.column

/-- The rows merge the tables of the mappings: no key twice, the row of a key from the first
mapping that has it, and every key there. -/
structure Merges (columns : List ColumnRef) (table : ObjectMappingDef → List Row)
    (mappings : List ObjectMappingDef) (rows : List Row) : Prop where
  once : (rows.map (primaryKey columns)).Nodup
  first : ∀ row ∈ rows, ∃ m ∈ mappings, row ∈ table m ∧ ∀ m' ∈ mappings, ∀ row' ∈ table m',
    primaryKey columns row' = primaryKey columns row → comesFirst m m' = true
  all : ∀ m ∈ mappings, ∀ row ∈ table m, primaryKey columns row ∈ rows.map (primaryKey columns)

variable {contents : SourceId → String → List Row} {workspaceId : Option String}
  {o o' : OntologyIR} {time : Option DateTime} {nodeTypeId : NodeTypeId}

theorem comesFirst_iff {a b : ObjectMappingDef} : comesFirst a b = true ↔
    b.precedence < a.precedence ∨ a.precedence = b.precedence ∧ a.id.val ≤ b.id.val := by
  simp [comesFirst]

theorem comesFirst_trans (a b c : ObjectMappingDef) (hab : comesFirst a b = true)
    (hbc : comesFirst b c = true) : comesFirst a c = true := by
  rw [comesFirst_iff] at *
  rcases hab with hab | ⟨hab, hab'⟩
  · rcases hbc with hbc | ⟨hbc, -⟩
    · exact .inl (hbc.trans hab)
    · exact .inl (hbc ▸ hab)
  · rcases hbc with hbc | ⟨hbc, hbc'⟩
    · exact .inl (hab ▸ hbc)
    · exact .inr ⟨hab.trans hbc, String.le_trans hab' hbc'⟩

theorem comesFirst_total (a b : ObjectMappingDef) : (comesFirst a b || comesFirst b a) = true := by
  rw [Bool.or_eq_true, comesFirst_iff, comesFirst_iff]
  rcases Nat.lt_trichotomy a.precedence b.precedence with h | h | h
  · exact .inr (.inl h)
  · rcases String.le_total a.id.val b.id.val with hid | hid
    · exact .inl (.inr ⟨h, hid⟩)
    · exact .inr (.inr ⟨h.symm, hid⟩)
  · exact .inl (.inl h)

theorem id_eq_of_comesFirst {a b : ObjectMappingDef} (hab : comesFirst a b = true)
    (hba : comesFirst b a = true) : a.id = b.id := by
  rw [comesFirst_iff] at hab hba
  have hle : a.id.val ≤ b.id.val ∧ b.id.val ≤ a.id.val := by
    rcases hab with hab | ⟨heq, hab⟩
    · omega
    · exact ⟨hab, (hba.resolve_left (by omega)).2⟩
  have hval := String.le_antisymm hle.1 hle.2
  cases hid : a.id
  cases hid' : b.id
  simpa [hid, hid'] using hval

/-- The union is the rows of one table after the other. -/
theorem buildSingleScan_eq {mappings : List ObjectMappingDef} (hne : mappings ≠ []) :
    buildSingleScan contents workspaceId mappings =
      some (mappings.flatMap (buildTableScan contents workspaceId)) := by
  have hfold (rest : List ObjectMappingDef) (rows : List Row) :
      rest.foldl (fun combined entry =>
        combined ++ buildTableScan contents workspaceId entry) rows =
        rows ++ rest.flatMap (buildTableScan contents workspaceId) := by
    induction rest generalizing rows with
    | nil => simp
    | cons m rest ih => rw [foldl_cons, ih, flatMap_cons, append_assoc]
  match mappings with
  | [] => exact absurd rfl hne
  | [only] => rw [buildSingleScan, flatMap_singleton]
  | first :: second :: rest =>
    rw [buildSingleScan, buildUnionScan, hfold, ← flatMap_cons]

/-- The mappings are scanned in one order, however they were added. -/
theorem scan_perm (hids : (o.objectMappings.map (·.id)).Nodup)
    (hmappings : o'.objectMappings.Perm o.objectMappings) (hnodes : o'.nodeTypes = o.nodeTypes) :
    scan contents workspaceId o' time nodeTypeId = scan contents workspaceId o time nodeTypeId := by
  have hsort : (applicable o' time nodeTypeId).mergeSort comesFirst =
      (applicable o time nodeTypeId).mergeSort comesFirst := by
    refine Lib.Sorted.mergeSort_eq_of_perm comesFirst_trans comesFirst_total ?_ (hmappings.filter _)
    intro a ha b hb hab hba
    exact inj_on_of_nodup_map hids (mem_of_mem_filter (hmappings.filter _ |>.mem_iff.1 ha))
      (mem_of_mem_filter (hmappings.filter _ |>.mem_iff.1 hb)) (id_eq_of_comesFirst hab hba)
  unfold scan resolveNodeType
  rw [hsort, hnodes]

/-- The tables of the mappings have no primary key in common, and none twice. -/
def KeysApart (columns : List ColumnRef) (table : ObjectMappingDef → List Row)
    (mappings : List ObjectMappingDef) : Prop :=
  (∀ m ∈ mappings, ((table m).map (primaryKey columns)).Nodup) ∧
    mappings.Pairwise fun a b =>
      ∀ key ∈ (table a).map (primaryKey columns), key ∉ (table b).map (primaryKey columns)

theorem scan_eq (hdeclared : nodeTypeId ∈ o.nodeTypes.map (·.id))
    (hne : applicable o time nodeTypeId ≠ []) : scan contents workspaceId o time nodeTypeId =
      some (((applicable o time nodeTypeId).mergeSort comesFirst).flatMap
        (buildTableScan contents workspaceId)) := by
  unfold scan resolveNodeType
  rw [if_pos hdeclared, Option.bind_some, buildSingleScan_eq]
  exact fun h => hne ((mergeSort_perm _ comesFirst).symm.trans (h ▸ .refl _)).eq_nil

theorem nodup_keys_iff {columns : List ColumnRef} {table : ObjectMappingDef → List Row}
    {mappings : List ObjectMappingDef} :
    (((mappings.mergeSort comesFirst).flatMap table).map (primaryKey columns)).Nodup ↔
      KeysApart columns table mappings := by
  rw [map_flatMap, ((mergeSort_perm _ _).flatMap_right _).nodup_iff, nodup_flatMap]
  rfl

/-- Rows that merge the tables, and that do not depend on the order of the mappings, are what the
scan returns exactly when no primary key is provided twice. -/
theorem scan_once_iff (columns : List ColumnRef) (hids : (o.objectMappings.map (·.id)).Nodup)
    (hdeclared : nodeTypeId ∈ o.nodeTypes.map (·.id)) (hne : applicable o time nodeTypeId ≠ []) :
    ((∃ rows, scan contents workspaceId o time nodeTypeId = some rows ∧
        Merges columns (buildTableScan contents workspaceId) (applicable o time nodeTypeId) rows) ∧
      ∀ o' : OntologyIR, o'.objectMappings.Perm o.objectMappings → o'.nodeTypes = o.nodeTypes →
        scan contents workspaceId o' time nodeTypeId =
          scan contents workspaceId o time nodeTypeId) ↔
    KeysApart columns (buildTableScan contents workspaceId) (applicable o time nodeTypeId) := by
  have hperm := mergeSort_perm (applicable o time nodeTypeId) comesFirst
  constructor
  · rintro ⟨⟨rows, hrows, hmerges⟩, -⟩
    obtain rfl := Option.some.inj ((scan_eq hdeclared hne).symm.trans hrows)
    exact nodup_keys_iff.1 hmerges.once
  · intro hapart
    refine ⟨⟨_, scan_eq hdeclared hne, nodup_keys_iff.2 hapart, fun row hrow => ?_,
      fun m hm row hrow => ?_⟩, fun o' hmappings hnodes => scan_perm hids hmappings hnodes⟩
    · obtain ⟨m, hm, hin⟩ := mem_flatMap.1 hrow
      have hm := hperm.mem_iff.1 hm
      refine ⟨m, hm, hin, fun m' hm' row' hin' hkey => ?_⟩
      -- the key stands in one table only
      have hsame : m = m' := by
        by_contra hdiff
        have : Std.Symm fun a b : ObjectMappingDef =>
            ∀ key ∈ (buildTableScan contents workspaceId a).map (primaryKey columns),
              key ∉ (buildTableScan contents workspaceId b).map (primaryKey columns) :=
          ⟨fun _ _ h key hb ha => h key ha hb⟩
        refine hapart.2.forall hm hm' hdiff _ (mem_map_of_mem hin) ?_
        exact mem_map.2 ⟨row', hin', hkey⟩
      rw [← hsame]
      exact comesFirst_iff.2 (.inr ⟨rfl, String.le_refl _⟩)
    · exact mem_map_of_mem (mem_flatMap.2 ⟨m, hperm.mem_iff.2 hm, hrow⟩)

def idColumn : ColumnRef := ⟨"customers", "id"⟩

def customers : OntologyIR where
  id := "o"
  name := "customers"
  nodeTypes := [{ id := ⟨"customer"⟩, label := ⟨"Customer", .refl true⟩ }]
  objectMappings :=
    [{ id := ⟨"a"⟩, nodeTypeId := ⟨"customer"⟩, sourceId := ⟨"crm"⟩, relation := "customers",
       primaryKeyColumns := [idColumn], precedence := 2 },
     { id := ⟨"b"⟩, nodeTypeId := ⟨"customer"⟩, sourceId := ⟨"billing"⟩, relation := "customers",
       primaryKeyColumns := [idColumn], precedence := 1 }]

/-- A relation with one row, whose id is that of the source. -/
def ownRow (source : SourceId) (_ : String) : List Row := [fun _ => some source.val]

def sharedRow (_ : SourceId) (_ : String) : List Row := [fun _ => some "1"]

theorem scan_once_customers : ∃ rows, scan ownRow none customers none ⟨"customer"⟩ = some rows ∧
      Merges [idColumn] (buildTableScan ownRow none)
        (applicable customers none ⟨"customer"⟩) rows :=
  ((scan_once_iff [idColumn] (by decide) (by decide) (by decide)).2
    (by unfold KeysApart; decide)).1

/-- The customer of both systems comes twice. -/
theorem sharedRow_not_once : ¬ ∃ rows, scan sharedRow none customers none ⟨"customer"⟩ = some rows ∧
      Merges [idColumn] (buildTableScan sharedRow none)
        (applicable customers none ⟨"customer"⟩) rows := by
  rintro ⟨rows, hrows, hmerges⟩
  obtain rfl := Option.some.inj ((scan_eq (by decide) (by decide)).symm.trans hrows)
  have hapart := nodup_keys_iff.1 hmerges.once
  unfold KeysApart at hapart
  exact absurd hapart (by decide)

end Ontosyx.Query.Federated
