import Mathlib.Data.Finset.Sort
import Mathlib.Data.String.Basic
import Ontosyx.Source.Analyze

/-!
# Introspection by parts

The kernel analyzes the tables of a source that it is asked for, leaving out those that cannot be
described.  An analysis is extended by the tables it lacks, and reduced by dropping tables.

Warnings are left out, and so are the retries: an adapter that answers the same way each time
gives the same result.
-/

namespace Ontosyx.Source

open List Ontosyx.Core Ontology

/-- What the adapter of a source answers. -/
structure Adapter where
  sourceType : String
  listTables : List String
  listForeignKeys : List ForeignKeyDef
  describeTable : String → Option SourceTableDef
  countRows : String → Option Nat
  sampleColumn : String → SourceColumnDef → Option ColumnStats
  describeTable_name : ∀ name table, describeTable name = some table → table.name = name

inductive TableSelection where
  | all
  | subset (picks : Finset String)

structure AnalysisResult where
  schema : SourceSchema
  profile : SourceProfile

/-- Both ends of the foreign key are in the set. -/
def EndsIn (fk : ForeignKeyDef) (names : List String) : Prop :=
  fk.fromTable ∈ names ∧ fk.toTable ∈ names

instance (fk : ForeignKeyDef) (names : List String) : Decidable (EndsIn fk names) :=
  inferInstanceAs (Decidable (_ ∧ _))

namespace Adapter

variable (a : Adapter)

local instance picksTrans : IsTrans String (· ≤ ·) := inferInstance

local instance picksAntisymm : Std.Antisymm fun a b : String => a ≤ b := inferInstance

def selectedTables : TableSelection → Except OxError (List String)
  | .all => .ok a.listTables
  | .subset picks =>
    let missing := (picks.sort (· ≤ ·)).filter fun name => name ∉ a.listTables
    if missing ≠ [] then
      .error (.validation "selection.tables" ("table(s) not found in source: [" ++
        ", ".intercalate missing ++ "] (advertised: " ++ toString a.listTables.length ++
        " table(s))"))
    else .ok (a.listTables.filter fun name => name ∈ picks)

def introspectSchemaFor (selection : TableSelection) : Except OxError SourceSchema := do
  let tableNames ← a.selectedTables selection
  let tables := tableNames.filterMap a.describeTable
  if tables = [] ∧ tableNames ≠ [] then
    .error (.runtime ("No accessible tables were introspected from " ++ a.sourceType))
  else
    .ok { sourceType := a.sourceType, tables,
          foreignKeys := a.listForeignKeys.filter fun fk => EndsIn fk (tables.map (·.name)) }

def profileTable (table : SourceTableDef) : Option TableProfile :=
  (a.countRows table.name).map fun rowCount =>
    ⟨table.name, rowCount, table.columns.filterMap (a.sampleColumn table.name)⟩

def collectStats (schema : SourceSchema) : Except OxError SourceProfile :=
  let tableProfiles := schema.tables.filterMap a.profileTable
  if tableProfiles = [] ∧ schema.tables ≠ [] then
    .error (.runtime ("Failed to collect stats for any table in " ++ a.sourceType))
  else .ok ⟨tableProfiles⟩

def runFullAnalysis (selection : TableSelection) : Except OxError AnalysisResult := do
  let schema ← a.introspectSchemaFor selection
  let profile ← a.collectStats schema
  .ok ⟨schema, profile⟩

end Adapter

namespace AnalysisResult

/-- `merge_analysis_results`: what the base has already is not added. -/
def merge (base addition : AnalysisResult) : AnalysisResult where
  schema :=
    { sourceType := base.schema.sourceType
      tables := base.schema.tables ++
        addition.schema.tables.filter fun t => t.name ∉ base.schema.tables.map (·.name)
      foreignKeys := base.schema.foreignKeys ++
        addition.schema.foreignKeys.filter fun fk => fk ∉ base.schema.foreignKeys }
  profile := ⟨base.profile.tableProfiles ++ addition.profile.tableProfiles.filter fun p =>
    p.tableName ∉ base.profile.tableProfiles.map (·.tableName)⟩

/-- `reduce_baseline`. -/
def reduceBaseline (base : AnalysisResult) (dropTables : Finset String) : AnalysisResult where
  schema :=
    { base.schema with
      tables := base.schema.tables.filter fun t => t.name ∉ dropTables
      foreignKeys := base.schema.foreignKeys.filter fun fk =>
        fk.fromTable ∉ dropTables ∧ fk.toTable ∉ dropTables }
  profile := ⟨base.profile.tableProfiles.filter fun p => p.tableName ∉ dropTables⟩

end AnalysisResult

/-- The foreign keys from one set of tables to the other. -/
def Crosses (base new : Finset String) (fk : ForeignKeyDef) : Prop :=
  fk.fromTable ∈ base ∧ fk.toTable ∈ new ∨ fk.fromTable ∈ new ∧ fk.toTable ∈ base

instance (base new : Finset String) (fk : ForeignKeyDef) : Decidable (Crosses base new fk) :=
  inferInstanceAs (Decidable (_ ∨ _))

def Adapter.analyzeExtension (a : Adapter) (base : AnalysisResult) (additional : Finset String) :
    Except OxError AnalysisResult := do
  let baselineNames := (base.schema.tables.map (·.name)).toFinset
  let newTables := additional \ baselineNames
  if newTables = ∅ then .ok base
  else
    let newAnalysis ← a.runFullAnalysis (.subset newTables)
    let merged := base.merge newAnalysis
    let crossFks := (a.listForeignKeys.filter fun fk => Crosses baselineNames newTables fk).filter
      fun fk => fk ∉ merged.schema.foreignKeys
    .ok { merged with
      schema := { merged.schema with foreignKeys := merged.schema.foreignKeys ++ crossFks } }

/-! ## What the kernel lists -/

theorem filter_append_perm_filter {α : Type} {p q r : α → Bool} {xs : List α}
    (hr : ∀ x ∈ xs, r x = (p x || q x)) (hpq : ∀ x ∈ xs, p x = true → q x = false) :
    (xs.filter p ++ xs.filter q).Perm (xs.filter r) := by
  refine .trans ?_ (filter_append_perm p (xs.filter r))
  rw [filter_filter, filter_filter]
  refine .of_eq (congrArg₂ _ (filter_congr fun x hx => ?_) (filter_congr fun x hx => ?_))
  · rw [hr x hx]
    cases p x <;> rfl
  · rw [hr x hx]
    cases hp : p x with
    | true => exact hpq x hx hp
    | false => rfl

theorem filter_append_eq_left {α : Type} {p : α → Bool} (xs : List α) {ys : List α}
    (hxs : ∀ x ∈ xs, p x = true) (hys : ∀ y ∈ ys, ¬p y = true) : (xs ++ ys).filter p = xs := by
  rw [filter_append, filter_eq_self.2 hxs, filter_eq_nil_iff.2 hys, append_nil]

namespace Adapter

variable {a : Adapter} {S T : Finset String} {r : AnalysisResult}

/-- The tables of the set that can be described. -/
def describable (a : Adapter) (S : Finset String) : Finset String :=
  S.filter fun name => (a.describeTable name).isSome

def described (a : Adapter) (S : Finset String) : List SourceTableDef :=
  (a.listTables.filter fun name => name ∈ a.describable S).filterMap a.describeTable

def names (a : Adapter) (S : Finset String) : List String := (a.described S).map (·.name)

def profiles (a : Adapter) (S : Finset String) : List TableProfile :=
  (a.described S).filterMap a.profileTable

def within (a : Adapter) (S : Finset String) : List ForeignKeyDef :=
  a.listForeignKeys.filter fun fk => EndsIn fk (a.names S)

def crossing (a : Adapter) (S T : Finset String) : List ForeignKeyDef :=
  a.listForeignKeys.filter fun fk => Crosses (a.names S).toFinset T fk

theorem names_described :
    a.names S = a.listTables.filter fun name => name ∈ a.describable S := by
  unfold names described
  induction a.listTables with
  | nil => rfl
  | cons name names ih =>
    by_cases hS : name ∈ a.describable S
    · obtain ⟨table, ht⟩ := Option.isSome_iff_exists.1 (Finset.mem_filter.1 hS).2
      simpa [hS, ht, a.describeTable_name name table ht] using ih
    · simpa [hS] using ih

theorem filterMap_describeTable : (a.listTables.filter fun name => name ∈ S).filterMap
    a.describeTable = a.described S := by
  unfold described
  rw [filterMap_filter, filterMap_filter]
  refine filterMap_congr fun name _ => ?_
  by_cases hS : name ∈ S
  · cases ht : a.describeTable name with
    | none => simp
    | some table => simp [describable, hS, ht]
  · simp [describable, hS]

theorem mem_names_iff {name : String} :
    name ∈ a.names S ↔ name ∈ a.listTables ∧ name ∈ a.describable S := by
  rw [names_described, mem_filter, decide_eq_true_iff]

theorem described_append_perm {U : Finset String}
    (hU : a.describable U = a.describable S ∪ a.describable T)
    (hST : Disjoint (a.describable S) (a.describable T)) :
    (a.described S ++ a.described T).Perm (a.described U) := by
  unfold described
  rw [← filterMap_append]
  refine (filter_append_perm_filter (fun name _ => ?_) fun name _ hS => ?_).filterMap _
  · simp [hU]
  · exact decide_eq_false (Finset.disjoint_left.1 hST (of_decide_eq_true hS))

theorem name_mem_of_profile {p : TableProfile} (hp : p ∈ a.profiles S) :
    p.tableName ∈ a.names S := by
  obtain ⟨t, ht, hp⟩ := mem_filterMap.1 hp
  obtain ⟨rows, -, rfl⟩ := Option.map_eq_some_iff.1 hp
  exact mem_map_of_mem ht

theorem profileNames_sublist (ts : List SourceTableDef) :
    ((ts.filterMap a.profileTable).map (·.tableName)).Sublist (ts.map (·.name)) := by
  induction ts with
  | nil => exact .slnil
  | cons t ts ih =>
    cases hrows : a.countRows t.name with
    | none => simpa [profileTable, hrows] using ih.cons t.name
    | some rows => simpa [profileTable, hrows] using ih

/-- What an analysis of a set of tables is, where it succeeds. -/
def analysisOf (a : Adapter) (S : Finset String) : AnalysisResult where
  schema :=
    { sourceType := a.sourceType
      tables := a.described S
      foreignKeys := a.within S }
  profile := ⟨a.profiles S⟩

theorem runFullAnalysis_eq_ok (h : a.runFullAnalysis (.subset S) = .ok r) :
    (∀ name ∈ S, name ∈ a.listTables) ∧ r = a.analysisOf S := by
  unfold runFullAnalysis introspectSchemaFor selectedTables at h
  dsimp only at h
  split at h
  · cases h
  · next hmissing =>
    simp only [bind, Except.bind] at h
    split at h
    · cases h
    · next schema hschema =>
      split at hschema
      · cases hschema
      · cases hschema
        unfold collectStats at h
        dsimp only at h
        split at h
        · cases h
        · next profile hprofile =>
          split at hprofile
          · cases hprofile
          · cases hprofile
            cases h
            rw [filterMap_describeTable]
            refine ⟨fun name hname => ?_, rfl⟩
            by_contra hnot
            refine hmissing (ne_nil_of_mem (a := name) ?_)
            simpa using ⟨hname, hnot⟩

variable {base e whole : AnalysisResult} {A B : Finset String}

/-- What the analysis of `A` becomes when it is extended by the tables in `T`. -/
def extended (a : Adapter) (A T : Finset String) : AnalysisResult where
  schema :=
    { sourceType := a.sourceType
      tables := a.described A ++ a.described T
      foreignKeys := a.within A ++ a.within T ++ a.crossing A T }
  profile := ⟨a.profiles A ++ a.profiles T⟩

theorem analyzeExtension_eq_ok (hT : T = B \ (a.names A).toFinset)
    (h : a.analyzeExtension (a.analysisOf A) B = .ok e) : e = a.extended A T := by
  unfold analyzeExtension at h
  dsimp only at h
  have hout {name : String} (hname : name ∈ T) : name ∉ a.names A := by
    rw [hT, Finset.mem_sdiff, mem_toFinset] at hname
    exact hname.2
  have hin {name : String} (hname : name ∈ a.names T) : name ∈ T :=
    (Finset.mem_filter.1 (mem_names_iff.1 hname).2).1
  split at h
  · next hnil =>
    cases h
    have hempty : a.described ∅ = [] := by simp [described, describable]
    rw [hT, extended, show B \ (a.names A).toFinset = ∅ from hnil]
    simp [analysisOf, within, crossing, names, profiles, hempty, EndsIn, Crosses]
  · simp only [bind, Except.bind] at h
    split at h
    · cases h
    · next new hnew =>
      obtain ⟨-, rfl⟩ := runFullAnalysis_eq_ok hnew
      cases h
      -- Nothing that is new is in the base.
      have htables : (a.described T).filter (fun t => t.name ∉ a.names A) = a.described T :=
        filter_eq_self.2 fun t ht => decide_eq_true (hout (hin (mem_map_of_mem ht)))
      have hprofiles : (a.profiles T).filter
          (fun p => p.tableName ∉ (a.profiles A).map (·.tableName)) = a.profiles T := by
        refine filter_eq_self.2 fun p hp => decide_eq_true fun hmem => ?_
        obtain ⟨q, hq, hqp⟩ := mem_map.1 hmem
        exact hout (hin (name_mem_of_profile hp)) (hqp ▸ name_mem_of_profile hq)
      have hwithin : (a.within T).filter (fun fk => fk ∉ a.within A) = a.within T := by
        refine filter_eq_self.2 fun fk hfk => decide_eq_true fun hA => ?_
        simp only [within, mem_filter, decide_eq_true_iff] at hfk hA
        exact hout (hin hfk.2.1) hA.2.1
      have hcrossing : (a.crossing A T).filter (fun fk => fk ∉ a.within A ++ a.within T) =
          a.crossing A T := by
        refine filter_eq_self.2 fun fk hfk => decide_eq_true fun hmem => ?_
        simp only [within, crossing, mem_append, mem_filter, decide_eq_true_iff, Crosses,
          mem_toFinset] at hfk hmem
        rcases hmem with ⟨-, hA⟩ | ⟨-, hT⟩
        · rcases hfk.2 with ⟨-, hto⟩ | ⟨hfrom, -⟩
          exacts [hout hto hA.2, hout hfrom hA.1]
        · rcases hfk.2 with ⟨hfrom, -⟩ | ⟨-, hto⟩
          exacts [hout (hin hT.1) hfrom, hout (hin hT.2) hto]
      rw [extended, ← htables, ← hprofiles, ← hcrossing, ← hwithin, hT]
      rfl

/-! ## Extensions -/

/-- The extended analysis is that of all the tables, and reduces to the base again. -/
structure ExtensionExact (A B : Finset String) (base e whole : AnalysisResult) : Prop where
  tables : e.schema.tables.Perm whole.schema.tables
  profiles : e.profile.tableProfiles.Perm whole.profile.tableProfiles
  foreignKeys : e.schema.foreignKeys.Perm whole.schema.foreignKeys
  tablesOnce : (e.schema.tables.map (·.name)).Nodup
  profilesOnce : (e.profile.tableProfiles.map (·.tableName)).Nodup
  foreignKeysOnce : e.schema.foreignKeys.Nodup
  closed : ∀ fk ∈ e.schema.foreignKeys, EndsIn fk (e.schema.tables.map (·.name))
  reduced : e.reduceBaseline (B \ A) = base

/-- No foreign key joins a table of the base to an added one that cannot be described, and the
source lists nothing of the two sets twice. -/
structure Extensible (a : Adapter) (A B : Finset String) : Prop where
  noStray : ∀ fk ∈ a.listForeignKeys, ¬Crosses (a.describable A) (B \ a.describable B) fk
  tables : (a.listTables.filter fun name => name ∈ a.describable (A ∪ B)).Nodup
  foreignKeys : (a.listForeignKeys.filter fun fk =>
    fk.fromTable ∈ a.describable (A ∪ B) ∧ fk.toTable ∈ a.describable (A ∪ B)).Nodup

/-- The foreign keys that are found on the three ways are those of all the tables. -/
theorem within_append_crossing_perm (hA : ∀ name, name ∈ a.names A ↔ name ∈ a.describable A)
    (hT : ∀ name, name ∈ a.names T ↔ name ∈ a.describable (B \ A))
    (hW : ∀ name, name ∈ a.names (A ∪ B) ↔ name ∈ a.describable A ∨ name ∈ a.describable (B \ A))
    (hcross : ∀ fk ∈ a.listForeignKeys, Crosses (a.names A).toFinset T fk ↔
      Crosses (a.describable A) (a.describable (B \ A)) fk) :
    (a.within A ++ a.within T ++ a.crossing A T).Perm (a.within (A ∪ B)) := by
  have hout (name : String) (h : name ∈ a.describable A) : name ∉ a.describable (B \ A) :=
    fun h' => (Finset.mem_sdiff.1 (Finset.mem_filter.1 h').1).2 (Finset.mem_filter.1 h).1
  refine ((filter_append_perm_filter (r := fun fk => EndsIn fk (a.names A) ∨ EndsIn fk (a.names T))
    (fun fk _ => Bool.decide_or _ _) fun fk _ hends => ?_).append_right _).trans
    (filter_append_perm_filter (fun fk hfk => ?_) fun fk hfk hends => ?_)
  · rw [decide_eq_true_iff, EndsIn, hA, hA] at hends
    rw [decide_eq_false_iff_not, EndsIn, hT, hT]
    exact fun h => hout _ hends.1 h.1
  · rw [← Bool.decide_or, decide_eq_decide, hcross fk hfk]
    simp only [EndsIn, Crosses, hA, hT, hW]
    tauto
  · rw [decide_eq_true_iff] at hends
    rw [decide_eq_false_iff_not, hcross fk hfk]
    simp only [EndsIn, Crosses, hA, hT] at hends ⊢
    have hfrom := hout fk.fromTable
    have hto := hout fk.toTable
    tauto

/-- An analysis is extended to that of all the tables, and can be reduced again, exactly if no
foreign key leads astray and the source lists nothing twice. -/
theorem extension_exact_iff (hbase : a.runFullAnalysis (.subset A) = .ok base)
    (he : a.analyzeExtension base B = .ok e)
    (hwhole : a.runFullAnalysis (.subset (A ∪ B)) = .ok whole) :
    ExtensionExact A B base e whole ↔ a.Extensible A B := by
  obtain ⟨-, rfl⟩ := runFullAnalysis_eq_ok hbase
  obtain ⟨hadv, rfl⟩ := runFullAnalysis_eq_ok hwhole
  obtain ⟨T, hT⟩ : ∃ T, T = B \ (a.names A).toFinset := ⟨_, rfl⟩
  obtain rfl := analyzeExtension_eq_ok hT he
  have hsub {S : Finset String} (hS : S ⊆ A ∪ B) (name : String) :
      name ∈ a.names S ↔ name ∈ a.describable S := by
    rw [mem_names_iff, and_iff_right_iff_imp]
    exact fun h => hadv name (hS (Finset.mem_filter.1 h).1)
  have hA := hsub (S := A) Finset.subset_union_left
  have hmemT (name : String) : name ∈ T ↔ name ∈ B ∧ name ∉ a.describable A := by
    rw [hT, Finset.mem_sdiff, mem_toFinset, hA]
  have hnew : a.describable T = a.describable (B \ A) := by
    ext name
    simp only [hmemT, describable, Finset.mem_filter, Finset.mem_sdiff]
    tauto
  have hN (name : String) : name ∈ a.names T ↔ name ∈ a.describable (B \ A) := by
    rw [← hnew, hsub]
    exact fun name h => Finset.mem_union_right A ((hmemT name).1 h).1
  have hunion : a.describable (A ∪ B) = a.describable A ∪ a.describable (B \ A) := by
    rw [describable, describable, describable, ← Finset.filter_union,
      Finset.union_sdiff_self_eq_union]
  have htables : (a.described A ++ a.described T).Perm (a.described (A ∪ B)) :=
    described_append_perm (hnew ▸ hunion) (hnew ▸ Finset.disjoint_sdiff.mono
      (Finset.filter_subset _ _) (Finset.filter_subset _ _))
  have hnames : ((a.described A ++ a.described T).map (·.name)).Perm (a.names (A ∪ B)) :=
    htables.map _
  have honce : a.within (A ∪ B) = a.listForeignKeys.filter fun fk =>
      fk.fromTable ∈ a.describable (A ∪ B) ∧ fk.toTable ∈ a.describable (A ∪ B) := by
    simp only [within, EndsIn, hsub (Finset.Subset.refl _)]
  have hW (name : String) : name ∈ a.names (A ∪ B) ↔
      name ∈ a.describable A ∨ name ∈ a.describable (B \ A) := by
    rw [hsub (Finset.Subset.refl _), hunion, Finset.mem_union]
  have hstray (name : String) : name ∈ B \ a.describable B ↔
      name ∈ T ∧ name ∉ a.describable A ∧ name ∉ a.describable (B \ A) := by
    simp only [hmemT, describable, Finset.mem_filter, Finset.mem_sdiff]
    tauto
  constructor
  · intro h
    refine ⟨fun fk hfk hcross => ?_, names_described ▸ hnames.nodup_iff.1 h.tablesOnce,
      honce ▸ h.foreignKeys.nodup_iff.1 h.foreignKeysOnce⟩
    simp only [Crosses, hstray] at hcross
    have hends := h.closed fk (mem_append_right _ (mem_filter.2 ⟨hfk, decide_eq_true ?_⟩))
    · rw [EndsIn, extended, hnames.mem_iff, hnames.mem_iff, hW, hW] at hends
      tauto
    · simp only [Crosses, mem_toFinset, hA]
      tauto
  · intro h
    have hdrop {name : String} (hname : name ∈ a.names T) : name ∈ B \ A :=
      (Finset.mem_filter.1 ((hN name).1 hname)).1
    have hkeep {name : String} (hname : name ∈ a.names A) : name ∉ B \ A :=
      fun hout => (Finset.mem_sdiff.1 hout).2 (Finset.mem_filter.1 ((hA name).1 hname)).1
    have hcross (fk : ForeignKeyDef) (hfk : fk ∈ a.listForeignKeys) :
        Crosses (a.names A).toFinset T fk ↔
          Crosses (a.describable A) (a.describable (B \ A)) fk := by
      have hside {name : String} (hB : name ∉ B \ a.describable B) :
          name ∈ T ↔ name ∈ a.describable (B \ A) :=
        ⟨fun h => by_contra fun hnot => hB ((hstray name).2 ⟨h, ((hmemT name).1 h).2, hnot⟩),
          fun h => (Finset.mem_filter.1 (hnew ▸ h)).1⟩
      have hkey := h.noStray fk hfk
      simp only [Crosses, mem_toFinset, hA]
      exact or_congr (and_congr_right fun hfrom => hside fun hto => hkey (.inl ⟨hfrom, hto⟩))
        (and_congr_left fun hto => hside fun hfrom => hkey (.inr ⟨hfrom, hto⟩))
    have hforeignKeys := within_append_crossing_perm hA hN hW hcross
    have htablesOnce := hnames.nodup_iff.2 (names_described (S := A ∪ B) ▸ h.tables)
    have hprofiles : (a.extended A T).profile.tableProfiles =
        (a.described A ++ a.described T).filterMap a.profileTable := filterMap_append.symm
    refine ⟨htables, ?_, hforeignKeys, htablesOnce, ?_, ?_, ?_, ?_⟩
    · exact hprofiles ▸ htables.filterMap a.profileTable
    · exact hprofiles ▸ htablesOnce.sublist (profileNames_sublist _)
    · exact hforeignKeys.nodup_iff.2 (honce ▸ h.foreignKeys)
    · intro fk hfk
      have hends := of_decide_eq_true (mem_filter.1 (hforeignKeys.mem_iff.1 hfk)).2
      exact ⟨hnames.mem_iff.2 hends.1, hnames.mem_iff.2 hends.2⟩
    · simp only [AnalysisResult.reduceBaseline, extended, append_assoc]
      rw [filter_append_eq_left (a.described A), filter_append_eq_left,
        filter_append_eq_left (a.profiles A)]
      · rfl
      · exact fun p hp => decide_eq_true (hkeep (name_mem_of_profile hp))
      · simpa using fun p hp => hdrop (name_mem_of_profile hp)
      · intro fk hfk
        have hends := of_decide_eq_true (mem_filter.1 hfk).2
        exact decide_eq_true ⟨hkeep hends.1, hkeep hends.2⟩
      · intro fk hfk hkept
        obtain ⟨hfrom, hto⟩ := of_decide_eq_true hkept
        rcases mem_append.1 hfk with hfk | hfk
        · exact hfrom (hdrop (of_decide_eq_true (mem_filter.1 hfk).2).1)
        · obtain ⟨hmem, hc⟩ := mem_filter.1 hfk
          rcases (hcross fk hmem).1 (of_decide_eq_true hc) with ⟨-, hin⟩ | ⟨hin, -⟩
          exacts [hto (hdrop ((hN _).2 hin)), hfrom (hdrop ((hN _).2 hin))]
      · exact fun t ht => decide_eq_true (hkeep (mem_map_of_mem ht))
      · exact fun t ht h => of_decide_eq_true h (hdrop (mem_map_of_mem ht))

/-! ## A source with a table that cannot be described -/

/-- Orders refer to customers, which cannot be described; items stand alone. -/
def shop : Adapter where
  sourceType := "shop"
  listTables := ["orders", "customers", "items"]
  listForeignKeys := [⟨"orders", "customer_id", "customers", "id", false⟩]
  describeTable name := if name = "customers" then none else some ⟨name, [], []⟩
  countRows _ := some 1
  sampleColumn _ _ := none
  describeTable_name name table h := by
    split at h
    · cases h
    · cases h
      rfl

/-- The analysis of some tables of the shop. -/
def shopAnalysis (names : List String) (foreignKeys : List ForeignKeyDef) : AnalysisResult :=
  ⟨⟨"shop", names.map fun name => ⟨name, [], []⟩, foreignKeys⟩,
    ⟨names.map fun name => ⟨name, 1, []⟩⟩⟩

theorem selectedTables_subset (h : ∀ name ∈ S, name ∈ a.listTables) :
    a.selectedTables (.subset S) = .ok (a.listTables.filter fun name => name ∈ S) := by
  refine if_neg (not_not.2 (filter_eq_nil_iff.2 fun name hname => ?_))
  simpa using h name ((Finset.mem_sort _).1 hname)

theorem shop_orders :
    shop.runFullAnalysis (.subset {"orders"}) = .ok (shopAnalysis ["orders"] []) := by
  unfold runFullAnalysis introspectSchemaFor
  rw [selectedTables_subset (by decide)]
  rfl

theorem shop_extended : ExtensionExact {"orders"} {"items"} (shopAnalysis ["orders"] [])
    (shopAnalysis ["orders", "items"] []) (shopAnalysis ["orders", "items"] []) := by
  refine (extension_exact_iff shop_orders ?_ ?_).2 ⟨by decide, by decide, by decide⟩
  · unfold analyzeExtension runFullAnalysis introspectSchemaFor
    dsimp only
    rw [selectedTables_subset (by decide)]
    rfl
  · unfold runFullAnalysis introspectSchemaFor
    rw [selectedTables_subset (by decide)]
    rfl

theorem shop_dangling : ¬∀ (a : Adapter) (A B : Finset String) (base e whole : AnalysisResult),
    a.runFullAnalysis (.subset A) = .ok base → a.analyzeExtension base B = .ok e →
      a.runFullAnalysis (.subset (A ∪ B)) = .ok whole → ExtensionExact A B base e whole := by
  intro h
  have hexact := h shop {"orders"} {"customers", "items"} _
    (shopAnalysis ["orders", "items"] shop.listForeignKeys)
    (shopAnalysis ["orders", "items"] []) shop_orders ?_ ?_
  · exact absurd (hexact.closed _ (mem_singleton_self _)) (by decide)
  · unfold analyzeExtension runFullAnalysis introspectSchemaFor
    dsimp only
    rw [selectedTables_subset (by decide)]
    rfl
  · unfold runFullAnalysis introspectSchemaFor
    rw [selectedTables_subset (by decide)]
    rfl

end Adapter

end Ontosyx.Source
