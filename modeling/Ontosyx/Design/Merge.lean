import Ontosyx.Lib.Firsts
import Ontosyx.Ontology.Exchange
import Ontosyx.Core.Source

/-!
# Merging the cluster designs

`merge_input_irs` and `find_uncovered_cross_fks`.  Nodes are one when their
labels are, edges when their label and ends are; a foreign key counts as covered
when an edge joins the labels of its tables, and of the uncovered ones between a
pair of tables the first is reported.

The designs come level by level; a cluster sees its own nodes and those of the
levels before.

## Main results

* `mergeIrs_nodeTypes` — a node is in the result when it is the first under its
  label.
* `merge_lossless_iff` — tables, edges and cross-cluster foreign keys survive
  exactly when no two nodes or foreign keys are taken for one.
-/

namespace Ontosyx.Design

open List Ontosyx.Core Ontology Lib.Keyed Prod Or

def edgeKey (e : InputEdgeTypeDef) : String × String × String :=
  (e.label, e.sourceType, e.targetType)

/-- `node_types`, `edge_types` and `indexes` of the result so far. -/
structure MergeState where
  nodeTypes : List InputNodeTypeDef
  edgeTypes : List InputEdgeTypeDef
  indexes : List InputIndexDef

/-- One turn of the batch loop.  Indexes are compared by their JSON text, which
stands for the index. -/
def MergeState.addBatch (m : MergeState) (batch : InputOntologyDef) : MergeState where
  nodeTypes := batch.nodeTypes.foldl (keepNew (·.label)) m.nodeTypes
  edgeTypes := batch.edgeTypes.foldl (keepNew edgeKey) m.edgeTypes
  indexes := batch.indexes.foldl (keepNew id) m.indexes

def mergeInputIrs (batches : List InputOntologyDef) (name : String)
    (description : Option String) : InputOntologyDef :=
  let merged := batches.foldl MergeState.addBatch ⟨[], [], []⟩
  { formatVersion := 1
    id := none
    name := name
    description := (description.map LocalizedText.new).getD LocalizedText.empty
    version := 1
    nodeTypes := merged.nodeTypes
    edgeTypes := merged.edgeTypes
    indexes := merged.indexes }

def allCrossFks (plan : ClusterPlan) : List ForeignKeyDef :=
  firsts (fun fk => (fk.fromTable, fk.fromColumn, fk.toTable)) plan.crossFks

/-- The insertions into `table_to_label`. -/
def tableToLabel (merged : InputOntologyDef) : List (String × String) :=
  merged.nodeTypes.filterMap fun n => n.sourceTable.map fun t => (t, n.label)

/-- `table_to_label.get`. -/
def labelOfTable (merged : InputOntologyDef) (table : String) : Option String :=
  (last fst table (tableToLabel merged)).map (·.2)

def existingEdges (merged : InputOntologyDef) : List (String × String) :=
  merged.edgeTypes.map fun e => (e.sourceType, e.targetType)

/-- The test of the loop: both tables have a label, and no edge joins them
either way. -/
def isUncovered (merged : InputOntologyDef) (tables : String × String) : Bool :=
  match labelOfTable merged tables.1, labelOfTable merged tables.2 with
  | some fl, some tl => (fl, tl) ∉ existingEdges merged ∧ (tl, fl) ∉ existingEdges merged
  | _, _ => false

def findUncoveredCrossFks (merged : InputOntologyDef) (allCrossFks : List ForeignKeyDef) :
    List ForeignKeyDef :=
  firsts ForeignKeyDef.pair (allCrossFks.filter fun fk => isUncovered merged fk.pair)

/-! ## What a merge should keep -/

def Designed (batches : List InputOntologyDef) (table : String) : Prop :=
  ∃ n ∈ batches.flatMap (·.nodeTypes), n.sourceTable = some table

/-- Every table with a node keeps one, with its properties. -/
def TablesKept (batches : List InputOntologyDef) (merged : InputOntologyDef) : Prop :=
  ∀ n ∈ batches.flatMap (·.nodeTypes), ∀ table, n.sourceTable = some table →
    ∃ m ∈ merged.nodeTypes, m.sourceTable = some table ∧ m.properties = n.properties

/-- The nodes that a label names in a cluster: its own, or else those of the
levels before. -/
def namedNodes (before : List InputOntologyDef) (batch : InputOntologyDef) (label : String) :
    List InputNodeTypeDef :=
  let own := batch.nodeTypes.filter (·.label = label)
  if own = [] then (before.flatMap (·.nodeTypes)).filter (·.label = label) else own

/-- A label names in the result a node of every source table for which it named
one in the cluster. -/
def EndKept (before : List InputOntologyDef) (batch merged : InputOntologyDef)
    (label : String) : Prop :=
  ∀ n ∈ namedNodes before batch label,
    ∃ m ∈ merged.nodeTypes, m.label = label ∧ m.sourceTable = n.sourceTable

/-- Every edge of every cluster is in the result between nodes of the same
source tables. -/
def EdgesKept (levels : List (List InputOntologyDef)) (merged : InputOntologyDef) : Prop :=
  ∀ before level after, levels = before ++ level :: after →
    ∀ batch ∈ level, ∀ e ∈ batch.edgeTypes, ∃ e' ∈ merged.edgeTypes, edgeKey e' = edgeKey e ∧
      EndKept before.flatten batch merged e'.sourceType ∧
        EndKept before.flatten batch merged e'.targetType

/-- Some edge ends at a node of the first table and at one of the second. -/
def JoinsTables (nodeTypes : List InputNodeTypeDef) (e : InputEdgeTypeDef)
    (source target : String) : Prop :=
  (∃ n ∈ nodeTypes, n.label = e.sourceType ∧ n.sourceTable = some source) ∧
    ∃ n ∈ nodeTypes, n.label = e.targetType ∧ n.sourceTable = some target

/-- An edge stands between the nodes of the two tables of a foreign key. -/
def Represented (nodeTypes : List InputNodeTypeDef) (edgeTypes : List InputEdgeTypeDef)
    (fk : ForeignKeyDef) : Prop :=
  ∃ e ∈ edgeTypes, JoinsTables nodeTypes e fk.fromTable fk.toTable ∨
    JoinsTables nodeTypes e fk.toTable fk.fromTable

/-- Every cross-cluster foreign key between designed tables is represented or
reported. -/
def CrossFksKept (plan : ClusterPlan) (batches : List InputOntologyDef)
    (merged : InputOntologyDef) : Prop :=
  ∀ fk ∈ plan.crossFks, Designed batches fk.fromTable → Designed batches fk.toTable →
    Represented merged.nodeTypes merged.edgeTypes fk ∨
      ∃ r ∈ findUncoveredCrossFks merged (allCrossFks plan), r.SameColumns fk

/-- The nodes that no earlier node of any cluster shares the label with. -/
def leading (batches : List InputOntologyDef) : List InputNodeTypeDef :=
  firsts (·.label) (batches.flatMap (·.nodeTypes))

/-- Nothing is lost where two nodes have one label or two foreign keys one pair
of tables: a node behind another of its label has its table and properties at a
leading node; where an edge ends at it, the leading node of that label has its
table; and behind the first foreign key between two tables there is none over
other columns, unless an edge joins leading nodes of these tables. -/
structure NothingConflated (plan : ClusterPlan) (levels : List (List InputOntologyDef)) :
    Prop where
  nodes : ∀ n ∈ levels.flatten.flatMap (·.nodeTypes), n ∉ leading levels.flatten →
    ∀ table, n.sourceTable = some table →
      ∃ m ∈ leading levels.flatten, m.sourceTable = some table ∧ m.properties = n.properties
  ends : ∀ before level after, levels = before ++ level :: after →
    ∀ batch ∈ level, ∀ e ∈ batch.edgeTypes, ∀ label, label = e.sourceType ∨ label = e.targetType →
      ∀ n ∈ namedNodes before.flatten batch label, n ∉ leading levels.flatten →
        ∀ m ∈ leading levels.flatten, m.label = label → m.sourceTable = n.sourceTable
  foreignKeys : ∀ fk ∈ plan.crossFks,
    Designed levels.flatten fk.fromTable → Designed levels.flatten fk.toTable →
      ∀ r, first ForeignKeyDef.pair fk.pair plan.crossFks = some r → ¬ r.SameColumns fk →
        Represented (leading levels.flatten) (levels.flatten.flatMap (·.edgeTypes)) fk

section

variable (batches : List InputOntologyDef) (name : String) (description : Option String)

theorem foldl_addBatch (m : MergeState) :
    batches.foldl MergeState.addBatch m =
      { nodeTypes :=
          batches.foldl (fun kept b => b.nodeTypes.foldl (keepNew (·.label)) kept) m.nodeTypes
        edgeTypes :=
          batches.foldl (fun kept b => b.edgeTypes.foldl (keepNew edgeKey) kept) m.edgeTypes
        indexes := batches.foldl (fun kept b => b.indexes.foldl (keepNew id) kept) m.indexes } := by
  induction batches generalizing m with
  | nil => rfl
  | cons b batches ih => exact ih (m.addBatch b)

/-- The nodes of the result: the first under each label. -/
theorem mergeIrs_nodeTypes :
    (mergeInputIrs batches name description).nodeTypes = leading batches := by
  rw [leading, ← foldl_flatMap_keepNew]
  simp only [mergeInputIrs, foldl_addBatch]

/-- The edges of the result: the first under each label and pair of ends. -/
theorem mergeIrs_edgeTypes :
    (mergeInputIrs batches name description).edgeTypes =
      firsts edgeKey (batches.flatMap (·.edgeTypes)) := by
  rw [← foldl_flatMap_keepNew]
  simp only [mergeInputIrs, foldl_addBatch]

end

theorem eq_of_mem_leading {batches : List InputOntologyDef} {n m : InputNodeTypeDef}
    (hn : n ∈ leading batches) (hm : m ∈ leading batches) (h : n.label = m.label) : n = m :=
  eq_of_key_eq _ (nodup_firsts _ _) hn hm h

theorem tablesKept_iff (batches : List InputOntologyDef) (name : String)
    (description : Option String) :
    TablesKept batches (mergeInputIrs batches name description) ↔
      ∀ n ∈ batches.flatMap (·.nodeTypes), n ∉ leading batches →
        ∀ table, n.sourceTable = some table →
          ∃ m ∈ leading batches, m.sourceTable = some table ∧ m.properties = n.properties := by
  simp only [TablesKept, mergeIrs_nodeTypes]
  constructor
  · intro h n hn _
    exact h n hn
  · intro h n hn table ht
    by_cases hlead : n ∈ leading batches
    · exact ⟨n, hlead, ht, rfl⟩
    · exact h n hn hlead table ht

theorem mem_of_mem_namedNodes {before : List InputOntologyDef} {batch : InputOntologyDef}
    {label : String} {n : InputNodeTypeDef} (h : n ∈ namedNodes before batch label) :
    n.label = label ∧ (n ∈ batch.nodeTypes ∨ n ∈ before.flatMap (·.nodeTypes)) := by
  dsimp only [namedNodes] at h
  split at h
  · obtain ⟨hn, hlabel⟩ := mem_filter.1 h
    exact ⟨by simpa using hlabel, inr hn⟩
  · obtain ⟨hn, hlabel⟩ := mem_filter.1 h
    exact ⟨by simpa using hlabel, inl hn⟩

/-- An end keeps its tables exactly when those behind a leading node agree with it. -/
theorem endKept_iff {levels before after : List (List InputOntologyDef)}
    {level : List InputOntologyDef} (hlevels : levels = before ++ level :: after)
    {batch : InputOntologyDef} (hbatch : batch ∈ level) (name : String)
    (description : Option String) (label : String) :
    EndKept before.flatten batch (mergeInputIrs levels.flatten name description) label ↔
      ∀ n ∈ namedNodes before.flatten batch label, n ∉ leading levels.flatten →
        ∀ m ∈ leading levels.flatten, m.label = label → m.sourceTable = n.sourceTable := by
  rw [EndKept, mergeIrs_nodeTypes]
  constructor
  · intro h n hn _ m hm hlabel
    obtain ⟨m', hm', hlabel', htable⟩ := h n hn
    rw [eq_of_mem_leading hm hm' (hlabel.trans hlabel'.symm)]
    exact htable
  · intro h n hn
    obtain ⟨hlabel, hmem⟩ := mem_of_mem_namedNodes hn
    have hall : n ∈ levels.flatten.flatMap (·.nodeTypes) := by
      rw [hlevels, flatten_append, flatten_cons, flatMap_append,
        flatMap_append, mem_append, mem_append]
      rcases hmem with hown | hbefore
      · exact inr (inl (mem_flatMap.2 ⟨batch, hbatch, hown⟩))
      · exact inl hbefore
    obtain ⟨m, hm, hml⟩ := exists_mem_firsts (·.label) hall
    refine ⟨m, hm, hml.trans hlabel, ?_⟩
    by_cases hlead : n ∈ leading levels.flatten
    · rw [eq_of_mem_leading hm hlead hml]
    · exact h n hn hlead m hm (hml.trans hlabel)

theorem edgesKept_iff (levels : List (List InputOntologyDef)) (name : String)
    (description : Option String) :
    EdgesKept levels (mergeInputIrs levels.flatten name description) ↔
      ∀ before level after, levels = before ++ level :: after →
        ∀ batch ∈ level, ∀ e ∈ batch.edgeTypes,
          ∀ label, label = e.sourceType ∨ label = e.targetType →
            ∀ n ∈ namedNodes before.flatten batch label, n ∉ leading levels.flatten →
              ∀ m ∈ leading levels.flatten, m.label = label →
                m.sourceTable = n.sourceTable := by
  constructor
  · intro h before level after hlevels batch hbatch e he label hlabel
    rw [← endKept_iff hlevels hbatch name description]
    obtain ⟨e', -, hkey, hsource, htarget⟩ := h before level after hlevels batch hbatch e he
    simp only [edgeKey, mk.injEq] at hkey
    rw [hkey.2.1] at hsource
    rw [hkey.2.2] at htarget
    rcases hlabel with rfl | rfl
    · exact hsource
    · exact htarget
  · intro h before level after hlevels batch hbatch e he
    have hall : e ∈ levels.flatten.flatMap (·.edgeTypes) := by
      refine mem_flatMap.2 ⟨batch, mem_flatten.2 ⟨level, ?_, hbatch⟩, he⟩
      simp [hlevels]
    rw [mergeIrs_edgeTypes]
    obtain ⟨e', he', hkey⟩ := exists_mem_firsts edgeKey hall
    have hends := hkey
    simp only [edgeKey, mk.injEq] at hends
    refine ⟨e', he', hkey, ?_, ?_⟩
    · rw [endKept_iff hlevels hbatch name description, hends.2.1]
      exact h before level after hlevels batch hbatch e he _ (inl rfl)
    · rw [endKept_iff hlevels hbatch name description, hends.2.2]
      exact h before level after hlevels batch hbatch e he _ (inr rfl)

section

variable {merged : InputOntologyDef}

theorem mem_tableToLabel {table label : String} :
    (table, label) ∈ tableToLabel merged ↔
      ∃ n ∈ merged.nodeTypes, n.sourceTable = some table ∧ n.label = label := by
  simp [tableToLabel]

theorem exists_of_labelOfTable {table label : String}
    (h : labelOfTable merged table = some label) :
    ∃ n ∈ merged.nodeTypes, n.label = label ∧ n.sourceTable = some table := by
  obtain ⟨entry, hentry, rfl⟩ := Option.map_eq_some_iff.1 h
  have htable : entry.1 = table := key_of_last fst hentry
  have hmem : (table, entry.2) ∈ tableToLabel merged := by
    rw [← htable]
    exact mem_of_last fst hentry
  obtain ⟨n, hn, ht, hl⟩ := mem_tableToLabel.1 hmem
  exact ⟨n, hn, hl, ht⟩

theorem exists_labelOfTable {table : String} {n : InputNodeTypeDef}
    (hn : n ∈ merged.nodeTypes) (ht : n.sourceTable = some table) :
    ∃ label, labelOfTable merged table = some label := by
  have hmem : (table, n.label) ∈ tableToLabel merged := mem_tableToLabel.2 ⟨n, hn, ht, rfl⟩
  obtain ⟨entry, hentry⟩ := (last_isSome_iff fst).2 (mem_map_of_mem (f := fst) hmem)
  exact ⟨entry.2, by rw [labelOfTable, hentry, Option.map_some]⟩

/-- Between two tables with nodes, a foreign key that no edge represents is
uncovered. -/
theorem isUncovered_of_not_represented {fk : ForeignKeyDef}
    (hfrom : ∃ n ∈ merged.nodeTypes, n.sourceTable = some fk.fromTable)
    (hto : ∃ n ∈ merged.nodeTypes, n.sourceTable = some fk.toTable)
    (hno : ¬ Represented merged.nodeTypes merged.edgeTypes fk) :
    isUncovered merged fk.pair = true := by
  obtain ⟨n, hn, hnt⟩ := hfrom
  obtain ⟨m, hm, hmt⟩ := hto
  obtain ⟨fl, hfl⟩ := exists_labelOfTable hn hnt
  obtain ⟨tl, htl⟩ := exists_labelOfTable hm hmt
  simp only [isUncovered, ForeignKeyDef.pair, hfl, htl, decide_eq_true_eq]
  have hsource := exists_of_labelOfTable hfl
  have htarget := exists_of_labelOfTable htl
  constructor
  · intro hedge
    obtain ⟨e, he, hends⟩ := mem_map.1 hedge
    rw [mk.injEq] at hends
    refine hno ⟨e, he, inl ⟨?_, ?_⟩⟩
    · rw [hends.1]
      exact hsource
    · rw [hends.2]
      exact htarget
  · intro hedge
    obtain ⟨e, he, hends⟩ := mem_map.1 hedge
    rw [mk.injEq] at hends
    refine hno ⟨e, he, inr ⟨?_, ?_⟩⟩
    · rw [hends.1]
      exact htarget
    · rw [hends.2]
      exact hsource

/-- Of the uncovered foreign keys between two tables the first cross-cluster one
is reported. -/
theorem mem_findUncovered_iff {plan : ClusterPlan} {r : ForeignKeyDef} :
    r ∈ findUncoveredCrossFks merged (allCrossFks plan) ↔
      isUncovered merged r.pair = true ∧
        first ForeignKeyDef.pair r.pair plan.crossFks = some r := by
  have hfirst : first ForeignKeyDef.pair r.pair (allCrossFks plan) =
      first ForeignKeyDef.pair r.pair plan.crossFks :=
    find?_firsts (fun fk : ForeignKeyDef => (fk.fromTable, fk.fromColumn, fk.toTable))
      (fun k => decide ((k.1, k.2.2) = r.pair)) plan.crossFks
  rw [findUncoveredCrossFks, mem_firsts_iff, ← hfirst]
  constructor
  · intro h
    have hun : isUncovered merged r.pair = true :=
      (mem_filter.1 (mem_of_find?_eq_some h)).2
    rw [first_filter ForeignKeyDef.pair hun] at h
    exact ⟨hun, h⟩
  · rintro ⟨hun, h⟩
    rw [first_filter ForeignKeyDef.pair hun]
    exact h

end

/-- The result represents a foreign key exactly when a designed edge joins
leading nodes of its tables. -/
theorem represented_mergeIrs_iff (batches : List InputOntologyDef) (name : String)
    (description : Option String) (fk : ForeignKeyDef) :
    Represented (mergeInputIrs batches name description).nodeTypes
        (mergeInputIrs batches name description).edgeTypes fk ↔
      Represented (leading batches) (batches.flatMap (·.edgeTypes)) fk := by
  rw [mergeIrs_nodeTypes, mergeIrs_edgeTypes]
  constructor
  · rintro ⟨e, he, h⟩
    exact ⟨e, mem_of_find?_eq_some ((mem_firsts_iff edgeKey).1 he), h⟩
  · rintro ⟨e, he, h⟩
    obtain ⟨e', he', hkey⟩ := exists_mem_firsts edgeKey he
    simp only [edgeKey, mk.injEq] at hkey
    refine ⟨e', he', ?_⟩
    rw [JoinsTables, JoinsTables, hkey.2.1, hkey.2.2]
    exact h

/-- Where every designed table has a node in the result, the cross-cluster
foreign keys are kept exactly when an edge represents each that is not the first
between its tables. -/
theorem crossFksKept_iff (plan : ClusterPlan) (batches : List InputOntologyDef) (name : String)
    (description : Option String)
    (hkept : TablesKept batches (mergeInputIrs batches name description)) :
    CrossFksKept plan batches (mergeInputIrs batches name description) ↔
      ∀ fk ∈ plan.crossFks, Designed batches fk.fromTable → Designed batches fk.toTable →
        ∀ r, first ForeignKeyDef.pair fk.pair plan.crossFks = some r → ¬ r.SameColumns fk →
          Represented (leading batches) (batches.flatMap (·.edgeTypes)) fk := by
  simp only [CrossFksKept, represented_mergeIrs_iff, mem_findUncovered_iff]
  constructor
  · intro h fk hfk hfrom hto r hr hdiff
    rcases h fk hfk hfrom hto with hrep | ⟨r', ⟨-, hr'⟩, hsame⟩
    · exact hrep
    · -- The reported one is the first between these tables, which is `r`.
      rw [hsame.1, hr] at hr'
      rw [Option.some.inj hr'] at hdiff
      exact absurd hsame hdiff
  · intro h fk hfk hfrom hto
    by_cases hrep : Represented (leading batches) (batches.flatMap (·.edgeTypes)) fk
    · exact inl hrep
    · right
      have hsome : first ForeignKeyDef.pair fk.pair plan.crossFks ≠ none := by
        rw [Ne, first_none_iff, not_not]
        exact mem_map_of_mem hfk
      obtain ⟨r, hr⟩ := Option.ne_none_iff_exists'.1 hsome
      have hpair : r.pair = fk.pair := by simpa using find?_some hr
      have hsame : r.SameColumns fk := by
        by_contra hdiff
        exact hrep (h fk hfk hfrom hto r hr hdiff)
      refine ⟨r, ⟨?_, ?_⟩, hsame⟩
      · rw [hpair]
        obtain ⟨n, hn, hnt⟩ := hfrom
        obtain ⟨m, hm, hmt⟩ := hto
        obtain ⟨n', hn', hnt', -⟩ := hkept n hn _ hnt
        obtain ⟨m', hm', hmt', -⟩ := hkept m hm _ hmt
        refine isUncovered_of_not_represented ⟨n', hn', hnt'⟩ ⟨m', hm', hmt'⟩ ?_
        rw [represented_mergeIrs_iff]
        exact hrep
      · rw [hpair]
        exact hr

/-- The merge loses no table, no edge and no cross-cluster foreign key exactly
when no two nodes and no two foreign keys that differ are taken for one. -/
theorem merge_lossless_iff (plan : ClusterPlan) (levels : List (List InputOntologyDef))
    (name : String) (description : Option String) :
    (TablesKept levels.flatten (mergeInputIrs levels.flatten name description) ∧
        EdgesKept levels (mergeInputIrs levels.flatten name description) ∧
          CrossFksKept plan levels.flatten (mergeInputIrs levels.flatten name description)) ↔
      NothingConflated plan levels := by
  constructor
  · rintro ⟨htables, hedges, hfks⟩
    exact
      { nodes := (tablesKept_iff _ name description).1 htables
        ends := (edgesKept_iff levels name description).1 hedges
        foreignKeys := (crossFksKept_iff plan _ name description htables).1 hfks }
  · intro h
    have htables := (tablesKept_iff levels.flatten name description).2 h.nodes
    refine ⟨htables, (edgesKept_iff levels name description).2 h.ends, ?_⟩
    exact (crossFksKept_iff plan _ name description htables).2 h.foreignKeys

/-! Two foreign keys lead from orders to customers, and no cluster designs an
edge for either. -/

def orderKey (column : String) : ForeignKeyDef := ⟨"orders", column, "customers", "id", false⟩

def orderPlan : ClusterPlan where
  clusters :=
    [⟨0, ["customers"], [], [orderKey "billing_id", orderKey "shipping_id"]⟩,
      ⟨1, ["orders"], [], [orderKey "billing_id", orderKey "shipping_id"]⟩]
  levels := [[0], [1]]

def nodeDesign (label table : String) : InputOntologyDef where
  formatVersion := 1
  id := none
  name := "Shop"
  description := LocalizedText.empty
  version := 1
  nodeTypes := [⟨none, label, LocalizedText.empty, some table, [], []⟩]
  edgeTypes := []
  indexes := []

def orderDesigns : List (List InputOntologyDef) :=
  [[nodeDesign "Customer" "customers"], [nodeDesign "Order" "orders"]]

/-- The key of the shipping address is neither represented nor reported. -/
theorem shippingKey_lost :
    ¬ (TablesKept orderDesigns.flatten (mergeInputIrs orderDesigns.flatten "Shop" none) ∧
      EdgesKept orderDesigns (mergeInputIrs orderDesigns.flatten "Shop" none) ∧
        CrossFksKept orderPlan orderDesigns.flatten
          (mergeInputIrs orderDesigns.flatten "Shop" none)) := by
  rintro ⟨-, -, h⟩
  have hfrom : Designed orderDesigns.flatten "orders" := ⟨_, .tail _ (.head _), rfl⟩
  have hto : Designed orderDesigns.flatten "customers" := ⟨_, .head _, rfl⟩
  have hkey : orderKey "shipping_id" ∈ orderPlan.crossFks := by decide
  rcases h _ hkey hfrom hto with ⟨e, he, -⟩ | ⟨r, hr, -, hcolumn, -⟩
  · exact absurd he (not_mem_nil)
  · have hreported : findUncoveredCrossFks (mergeInputIrs orderDesigns.flatten "Shop" none)
        (allCrossFks orderPlan) = [orderKey "billing_id"] := by decide
    rw [hreported, mem_singleton] at hr
    rw [hr] at hcolumn
    exact absurd hcolumn (by decide)

end Ontosyx.Design
