import Ontosyx.Ontology.ExportedSources

/-!
# Round trip through the exchange format

Exporting an ontology and normalizing the document gives back its carried part
when the ontology has a node and every property that a constraint or an index
holds is written under a name that leads back to it.  Of the object mappings of
a node the export shows the last one, not the one of highest precedence.

## Main results

* `normalize_export` — what a run of `normalize` on an export computes.
* `exchangeKept_iff` — when the exchange format keeps an ontology.
-/

namespace Ontosyx.Ontology

open List Ontosyx.Core Lib.Checked Lib.Keyed OntologyIR
open OntologyIR (exportProperty)

/-! ## What a run computes -/

section

variable (ctx : NormalizeContext) (o : OntologyIR)

/-- The constraints that come back for the `i`-th node. -/
def returnedConstraints (i : Nat) (n : NodeTypeDef) : List ConstraintDef × List NormalizeWarning :=
  collect (fun (c, j) => normalizeConstraint ctx (.constraint i j) n.label.val n.propNames c)
    (n.constraints.map o.exportConstraint).zipIdx

/-- The properties of a written node beside what comes back for them. -/
def writtenProperties (n : NodeTypeDef) : List (InputPropertyDef × PropertyDef) :=
  n.properties.map fun p => (exportProperty (o.sourceColumnOf n.id p.id) p, p.carried)

/-- What comes back for the `i`-th node. -/
def returnedNode (entry : NodeTypeDef × Nat) : NormalizedNode where
  node := { entry.1.carried with constraints := (returnedConstraints ctx o entry.2 entry.1).1 }
  mapping := pendingMapping ctx entry.1.id (o.sourceTableOf entry.1.id)
    (writtenProperties o entry.1)
  names := entry.1.propNames
  warnings := (returnedConstraints ctx o entry.2 entry.1).2

theorem normalizeNode_export (n : NodeTypeDef) (i : Nat) :
    normalizeNode ctx (o.exportNode n, i) = .ok (returnedNode ctx o (n, i)) := by
  have hprops := normalizeProperties_export ctx (.nodeProperty i) n.label.val
    (fun p => o.sourceColumnOf n.id p.id) n.properties
  have hnames : (writtenProperties o n).map (fun e => (e.1.name, e.2.id)) = n.propNames := by
    unfold writtenProperties NodeTypeDef.propNames
    rw [map_map]
    rfl
  unfold normalizeNode
  simp only [exportNode, hprops, GraphLabel.new_val]
  rw [show (n.properties.map fun p =>
      (exportProperty (o.sourceColumnOf n.id p.id) p, p.carried)) = writtenProperties o n from rfl,
    hnames]
  have hcarried : (writtenProperties o n).map (·.2) = n.carried.properties := by
    unfold writtenProperties NodeTypeDef.carried
    rw [map_map]
    rfl
  rw [hcarried, nil_append]
  rfl

def returnedNodes : List NormalizedNode := o.nodeTypes.zipIdx.map (returnedNode ctx o)

theorem mapM_normalizeNode_export : (o.nodeTypes.map o.exportNode).zipIdx.mapM (normalizeNode ctx) =
      .ok (returnedNodes ctx o) := by
  have hrun (ns : List NodeTypeDef) : ∀ k, ((ns.map o.exportNode).zipIdx k).mapM
      (normalizeNode ctx) = .ok ((ns.zipIdx k).map (returnedNode ctx o)) := by
    induction ns with
    | nil => exact fun _ => rfl
    | cons n ns ih =>
      intro k
      rw [map_cons, zipIdx_cons, mapM_cons, normalizeNode_export, ih]
      rfl
  exact hrun o.nodeTypes 0

theorem nodeNames_returned : (⟨(returnedNodes ctx o).map fun n => (n.node.label.val, n.node.id),
      (returnedNodes ctx o).map fun n => (n.node.label.val, n.names)⟩ : NodeNames) =
      o.nodeNames := by
  unfold returnedNodes nodeNames
  rw [map_map, map_map]
  have hfst {β : Type} (f : NodeTypeDef → β) :
      o.nodeTypes.zipIdx.map (fun e => f e.1) = o.nodeTypes.map f := by
    rw [← zipIdx_map_fst 0 o.nodeTypes, map_map, zipIdx_map_fst]
    rfl
  exact congrArg₂ NodeNames.mk (hfst fun n => (n.label.val, n.id))
    (hfst fun n => (n.label.val, n.propNames))

def returnedIndexes : List IndexDef × List NormalizeWarning :=
  collect (normalizeIndex ctx o.nodeNames) (o.indexes.map o.exportIndex).zipIdx

variable {o}

theorem normalizeEdges_export (ho : o.Indexed) (hv : o.Clean) :
    collect (normalizeEdge ctx o.nodeNames.labelToNodeId) (o.edgeTypes.map o.exportEdge).zipIdx =
      (o.edgeTypes.map EdgeTypeDef.carried, []) := by
  refine collect_zipIdx_of_forall 0 fun e he j => ?_
  obtain ⟨hsource, htarget⟩ := hv.ends_mem he
  obtain ⟨s, hs, hsid⟩ := mem_map.1 hsource
  obtain ⟨t, ht, htid⟩ := mem_map.1 htarget
  have hprops := normalizeProperties_export ctx (.edgeProperty j) e.label.val
    (fun _ => none) e.properties
  unfold normalizeEdge exportEdge
  dsimp only
  rw [← hsid, ← htid, resolveNode_export ho hs, resolveNode_export ho ht, GraphLabel.new_val]
  rw [hprops, map_map]
  simp only [EdgeTypeDef.carried, hsid, htid]
  rfl

/-- The ontology a run builds before it attaches mappings. -/
def returnedOntology (o : OntologyIR) : OntologyIR :=
  { o.carried with
    nodeTypes := (returnedNodes ctx o).map (·.node)
    indexes := (returnedIndexes ctx o).1 }

def returnedMappings (o : OntologyIR) : List ObjectMappingDef :=
  (returnedNodes ctx o).filterMap (·.mapping)

/-- What a run of `normalize` on an export computes. -/
theorem normalize_export (ho : o.Indexed) (hv : o.Clean) : normalize ctx o.toExchangeFormat =
      finishNormalize (returnedOntology ctx o) (returnedMappings ctx o)
        ((returnedNodes ctx o).flatMap (·.warnings) ++ (returnedIndexes ctx o).2) := by
  unfold normalize toExchangeFormat
  rw [mapM_normalizeNode_export]
  dsimp only
  have hnames := nodeNames_returned ctx o
  have hlabels : (returnedNodes ctx o).map (fun n => (n.node.label.val, n.node.id)) =
      o.nodeNames.labelToNodeId := congrArg NodeNames.labelToNodeId hnames
  rw [hnames, hlabels, normalizeEdges_export ctx ho hv, append_nil]
  rfl

end

/-! ## Names -/

/-- Every property that a constraint or an index holds is written under a name
that leads back to it. -/
structure NamesReturn (o : OntologyIR) : Prop where
  constraints : ∀ n ∈ o.nodeTypes, ∀ c ∈ n.constraints, ∀ pid ∈ c.constraint.properties,
    o.WrittenBack n pid
  indexes : ∀ idx ∈ o.indexes, ∀ n ∈ o.nodeTypes, n.id = idx.nodeId →
    ∀ pid ∈ idx.properties, o.WrittenAs n pid

section

variable {ctx : NormalizeContext} {o : OntologyIR}

theorem nodup_names (hv : o.Clean) {n : NodeTypeDef} (hn : n ∈ o.nodeTypes) :
    (n.properties.map (·.name)).Nodup :=
  (nodup_of_validatePropertyDefs _ (validate_of_validateNodes _ hv.nodes n hn).1).1

/-- The constraints of a node come back as they were when their properties are
written back. -/
theorem returnedConstraints_eq_iff (ctx : NormalizeContext) (ho : o.Indexed) (hv : o.Clean)
    (i : Nat) {n : NodeTypeDef} (hn : n ∈ o.nodeTypes) :
    returnedConstraints ctx o i n = (n.constraints, []) ↔
      ∀ c ∈ n.constraints, ∀ pid ∈ c.constraint.properties, o.WrittenBack n pid := by
  have hchecked := (validate_of_validateNodes _ hv.nodes n hn).2
  have hstep (c : ConstraintDef) (hc : c ∈ n.constraints) (j : Nat) :
      normalizeConstraint ctx (.constraint i j) n.label.val n.propNames (o.exportConstraint c) =
          (some (id c), []) ↔
        ∀ pid ∈ c.constraint.properties, o.WrittenBack n pid := by
    refine Iff.trans (normalizeConstraint_export_iff
      (properties_ne_nil_of_validateConstraint (hchecked c hc))) ?_
    refine forall₂_congr fun pid _ => ?_
    exact resolveProp_propName_iff ho hn (nodup_names hv hn)
  have hall := collect_zipIdx_eq_iff
    (f := fun (c, j) => normalizeConstraint ctx (.constraint i j) n.label.val n.propNames c)
    (g := o.exportConstraint) (t := id) (fun x => normalizeConstraint_dropped) (k := 0) hstep
  rw [map_id] at hall
  exact hall

/-- The indexes come back as they were when their properties are written under
their own names. -/
theorem returnedIndexes_eq_iff (ctx : NormalizeContext) (ho : o.Indexed) (hv : o.Clean) :
    returnedIndexes ctx o = (o.indexes, []) ↔
      ∀ idx ∈ o.indexes, ∀ n ∈ o.nodeTypes, n.id = idx.nodeId →
        ∀ pid ∈ idx.properties, o.WrittenAs n pid := by
  have hstep (idx : IndexDef) (hidx : idx ∈ o.indexes) (j : Nat) :
      normalizeIndex ctx o.nodeNames (o.exportIndex idx, j) = (some (id idx), []) ↔
        ∀ n ∈ o.nodeTypes, n.id = idx.nodeId → ∀ pid ∈ idx.properties, o.WrittenAs n pid := by
    obtain ⟨hnode, hne⟩ := target_of_validateIndex (hv.indexes idx hidx)
    obtain ⟨m, hm, hmid⟩ := mem_map.1 hnode
    refine Iff.trans (normalizeIndex_export_iff ctx ho hm hmid hne j) ?_
    constructor
    · intro h n hn hnid pid hpid
      have hnm : n = m := eq_of_key_eq (·.id) ho.nodeIds hn hm (hnid.trans hmid.symm)
      rw [hnm]
      exact (find?_propName_iff ho hm (nodup_names hv hm)).1 (h pid hpid)
    · intro h pid hpid
      exact (find?_propName_iff ho hm (nodup_names hv hm)).2
        (h m hm hmid pid hpid)
  have hall := collect_zipIdx_eq_iff (f := normalizeIndex ctx o.nodeNames) (g := o.exportIndex)
    (t := id) (fun x => normalizeIndex_dropped ctx) (k := 0) hstep
  rw [map_id] at hall
  exact hall

theorem map_zipIdx_fst {α β : Type} (f : α → β) (xs : List α) :
    xs.zipIdx.map (fun e => f e.1) = xs.map f := by
  have hfst : xs.zipIdx.map Prod.fst = xs := zipIdx_map_fst 0 xs
  have hmap := congrArg (List.map f) hfst
  rw [map_map] at hmap
  exact hmap

theorem returnedNodes_of_names (ho : o.Indexed) (hv : o.Clean) (h : NamesReturn o) :
    returnedNodes ctx o = o.nodeTypes.map fun n =>
      { node := n.carried
        mapping := pendingMapping ctx n.id (o.sourceTableOf n.id) (writtenProperties o n)
        names := n.propNames
        warnings := [] } := by
  rw [← map_zipIdx_fst]
  refine map_congr_left fun e he => ?_
  have hn : e.1 ∈ o.nodeTypes := by
    have hmem := mem_map_of_mem (f := Prod.fst) he
    rwa [zipIdx_map_fst] at hmem
  have hback := (returnedConstraints_eq_iff ctx ho hv e.2 hn).2 (h.constraints e.1 hn)
  unfold returnedNode
  rw [hback]
  rfl

/-- When the names return, the carried part comes back. -/
theorem returnedOntology_of_names (ho : o.Indexed) (hv : o.Clean) (h : NamesReturn o) :
    returnedOntology ctx o = o.carried := by
  unfold returnedOntology
  rw [returnedNodes_of_names ho hv h, (returnedIndexes_eq_iff ctx ho hv).2 h.indexes, map_map]
  rfl

/-- Names that do not return show in what comes back. -/
theorem names_of_returned (ctx : NormalizeContext) (ho : o.Indexed) (hv : o.Clean)
    (hcarried : (returnedOntology ctx o).carried = o.carried)
    (hquiet : (returnedNodes ctx o).flatMap (·.warnings) ++ (returnedIndexes ctx o).2 = []) :
    NamesReturn o := by
  obtain ⟨hnodes, hindexes⟩ := append_eq_nil_iff.1 hquiet
  constructor
  · intro n hn
    obtain ⟨e, he, hen⟩ := mem_map.1
      (show n ∈ o.nodeTypes.zipIdx.map Prod.fst by rwa [zipIdx_map_fst])
    subst hen
    have hwarnings : (returnedConstraints ctx o e.2 e.1).2 = [] :=
      flatMap_eq_nil_iff.1 hnodes _ (mem_map_of_mem he)
    have hsame : (returnedNode ctx o e).node.carried = e.1.carried := by
      have hlists := congrArg nodeTypes hcarried
      have hmaps : o.nodeTypes.zipIdx.map (fun e => (returnedNode ctx o e).node.carried) =
          o.nodeTypes.zipIdx.map fun e => e.1.carried := by
        rw [map_zipIdx_fst]
        refine Eq.trans ?_ hlists
        show _ = ((o.nodeTypes.zipIdx.map (returnedNode ctx o)).map (·.node)).map
          NodeTypeDef.carried
        rw [map_map, map_map]
        rfl
      exact map_inj_left.1 hmaps e he
    have hconstraints : (returnedConstraints ctx o e.2 e.1).1 = e.1.constraints :=
      congrArg NodeTypeDef.constraints hsame
    exact (returnedConstraints_eq_iff ctx ho hv e.2 hn).1 (Prod.ext hconstraints hwarnings)
  · exact (returnedIndexes_eq_iff ctx ho hv).1
      (Prod.ext (congrArg indexes hcarried) hindexes)

end

/-! ## The mappings that come back -/

section

variable (ctx : NormalizeContext) (o : OntologyIR)

/-- The mapping that comes back for a node with a table. -/
def returnedMapping (n : NodeTypeDef) : Option ObjectMappingDef :=
  pendingMapping ctx n.id (o.sourceTableOf n.id) (writtenProperties o n)

variable {ctx o}

theorem returnedMappings_of_names (ho : o.Indexed) (hv : o.Clean) (h : NamesReturn o) :
    returnedMappings ctx o = o.nodeTypes.filterMap (returnedMapping ctx o) := by
  unfold returnedMappings
  rw [returnedNodes_of_names ho hv h, filterMap_map]
  rfl

variable {om : ObjectMappingDef} {n : NodeTypeDef}

/-- The parts of a mapping that comes back. -/
theorem returnedMapping_some (h : returnedMapping ctx o n = some om) :
    om.id = .forNodeSource n.id ctx.sourceId ∧ om.nodeTypeId = n.id ∧
      o.sourceTableOf n.id = some om.relation ∧
      om.propertyMappings = n.properties.filterMap fun p =>
        (o.sourceColumnOf n.id p.id).map fun c =>
          { propertyId := p.id, propertyKey := p.name, location := .column ⟨om.relation, c⟩ } := by
  unfold returnedMapping pendingMapping at h
  obtain ⟨table, htable, hom⟩ := Option.map_eq_some_iff.1 h
  subst hom
  refine ⟨rfl, rfl, htable, ?_⟩
  unfold writtenProperties
  rw [filterMap_map, htable]
  rfl

theorem forNodeSource_injective {a b : NodeTypeId} {s : SourceId}
    (h : ObjectMappingId.forNodeSource a s = .forNodeSource b s) : a = b := by
  have hval : "om-" ++ a.val ++ "@" ++ s.val = "om-" ++ b.val ++ "@" ++ s.val :=
    congrArg ObjectMappingId.val h
  have hcut : "om-" ++ a.val = "om-" ++ b.val :=
    (String.append_left_inj "@").1 ((String.append_left_inj s.val).1 hval)
  cases a
  cases b
  exact congrArg NodeTypeId.mk ((String.append_right_inj "om-").1 hcut)

theorem map_id_returnedMappings_sublist (ns : List NodeTypeDef) :
    ((ns.filterMap (returnedMapping ctx o)).map (·.id)).Sublist
      (ns.map fun n => .forNodeSource n.id ctx.sourceId) := by
  induction ns with
  | nil => exact .slnil
  | cons n ns ih =>
    rw [filterMap_cons]
    cases hom : returnedMapping ctx o n with
    | none => exact ih.cons _
    | some om =>
      rw [map_cons, map_cons, (returnedMapping_some hom).1]
      exact ih.cons_cons _

theorem nodup_returnedMappings (ho : o.Indexed) :
    ((o.nodeTypes.filterMap (returnedMapping ctx o)).map (·.id)).Nodup := by
  refine (map_id_returnedMappings_sublist o.nodeTypes).nodup ?_
  have hnd : o.nodeTypes.Nodup := Nodup.of_map _ ho.nodeIds
  refine (nodup_map_iff_inj_on hnd).2 fun m hm n hn h => ?_
  have hids : m.id = n.id := forNodeSource_injective h
  exact eq_of_key_eq (·.id) ho.nodeIds hm hn hids

/-! ### They are valid -/

theorem validatePropertyMappings_of_nodup {cms : List ConceptMapId} {node : NodeTypeDef}
    (pms : List PropertyMappingDef) : ∀ {mapped : List PropertyId}, (pms.map (·.propertyId)).Nodup →
      (∀ pm ∈ pms, pm.propertyId ∉ mapped ∧ pm.propertyId ∈ node.properties.map (·.id) ∧
        pm.conceptMapId = none) → validatePropertyMappings cms node om mapped pms = [] := by
  induction pms with
  | nil => exact fun _ _ => rfl
  | cons pm pms ih =>
    intro mapped hnd h
    obtain ⟨hnew, hmem, hcm⟩ := h pm mem_cons_self
    rw [map_cons, nodup_cons] at hnd
    unfold validatePropertyMappings
    simp only [append_eq_nil_iff, reportIf_nil_iff, hcm, Option.toList_none,
      flatMap_nil, not_not, and_true]
    refine ⟨⟨hnew, hmem⟩, ih hnd.2 fun q hq => ?_⟩
    obtain ⟨hqnew, hqmem, hqcm⟩ := h q (mem_cons_of_mem _ hq)
    refine ⟨?_, hqmem, hqcm⟩
    intro hbad
    rcases mem_cons.1 hbad with heq | hold
    · exact hnd.1 (heq ▸ mem_map_of_mem hq)
    · exact hqnew hold

theorem map_propertyId_sublist (column : PropertyDef → Option String) (relation : String)
    (ps : List PropertyDef) :
    ((ps.filterMap fun p => (column p).map fun c =>
        ({ propertyId := p.id, propertyKey := p.name, location := .column ⟨relation, c⟩ } :
          PropertyMappingDef)).map (·.propertyId)).Sublist (ps.map (·.id)) := by
  induction ps with
  | nil => exact .slnil
  | cons p ps ih =>
    rw [filterMap_cons]
    cases column p with
    | none => exact ih.cons _
    | some c => exact ih.cons_cons _

theorem validateObjectMapping_returned (ho : o.Indexed) (hn : n ∈ o.nodeTypes)
    (hom : returnedMapping ctx o n = some om) :
    validateObjectMapping [] (o.nodeTypes.map NodeTypeDef.carried) om = [] := by
  obtain ⟨-, hnode, -, hpms⟩ := returnedMapping_some hom
  have hfirst : first (·.id) om.nodeTypeId o.nodeTypes = some n :=
    (first_some_iff NodeTypeDef.id ho.nodeIds).2 ⟨hn, hnode.symm⟩
  unfold validateObjectMapping
  rw [first_carried, hfirst, Option.map_some]
  have hsub := map_propertyId_sublist (fun p => o.sourceColumnOf n.id p.id) om.relation
    n.properties
  rw [← hpms] at hsub
  refine validatePropertyMappings_of_nodup _ (hsub.nodup (ho.nodup_propertyIds hn)) fun pm hpm => ?_
  refine ⟨not_mem_nil, ?_, ?_⟩
  · rw [n.carried_propertyIds]
    exact hsub.subset (mem_map_of_mem hpm)
  · rw [hpms] at hpm
    obtain ⟨p, -, hp⟩ := mem_filterMap.1 hpm
    obtain ⟨c, -, hc⟩ := Option.map_eq_some_iff.1 hp
    rw [← hc]

/-! ### They are exported again -/

def returned (ctx : NormalizeContext) (o : OntologyIR) : OntologyIR :=
  { o.carried with objectMappings := o.nodeTypes.filterMap (returnedMapping ctx o) }

theorem eq_of_mem_returned (ho : o.Indexed) {a b : ObjectMappingDef}
    (ha : a ∈ (returned ctx o).objectMappings) (hb : b ∈ (returned ctx o).objectMappings)
    (h : a.nodeTypeId = b.nodeTypeId) : a = b := by
  obtain ⟨m, hm, hma⟩ := mem_filterMap.1 ha
  obtain ⟨n, hn, hnb⟩ := mem_filterMap.1 hb
  have hmn : m = n := by
    refine eq_of_key_eq (·.id) ho.nodeIds hm hn ?_
    rw [← (returnedMapping_some hma).2.1, ← (returnedMapping_some hnb).2.1, h]
  rw [hmn, hnb] at hma
  exact (Option.some.inj hma).symm

/-- Every mapping that comes back is the only one of its node. -/
theorem takesTable_returned (ho : o.Indexed) (hom : om ∈ (returned ctx o).objectMappings) :
    (returned ctx o).takesTable om = true := by
  unfold takesTable
  cases hfirst : (returned ctx o).firstOfRelation om with
  | none => rfl
  | some x =>
    have hx : x.nodeTypeId = om.nodeTypeId ∧ x.relation = om.relation := by
      simpa using find?_some hfirst
    have hsame := eq_of_mem_returned ho (mem_of_find?_eq_some hfirst) hom hx.1
    simp [hsame]

theorem lastTable_returned (ho : o.Indexed) (hn : n ∈ o.nodeTypes) :
    (returned ctx o).lastTable n.id = returnedMapping ctx o n := by
  have hall : (returned ctx o).objectMappings.filter (returned ctx o).takesTable =
      (returned ctx o).objectMappings :=
    filter_eq_self.2 fun _ hom => takesTable_returned ho hom
  unfold lastTable
  rw [hall]
  cases hom : returnedMapping ctx o n with
  | some om =>
    have hmem : om ∈ (returned ctx o).objectMappings := mem_filterMap.2 ⟨n, hn, hom⟩
    have hnode := (returnedMapping_some hom).2.1
    refine last_some_of_unique ObjectMappingDef.nodeTypeId hmem hnode fun x hx hxn => ?_
    exact eq_of_mem_returned ho hx hmem (hxn.trans hnode.symm)
  | none =>
    rw [last_none_iff]
    intro hbad
    obtain ⟨om, hmem, hnode⟩ := mem_map.1 hbad
    obtain ⟨m, hm, hmom⟩ := mem_filterMap.1 hmem
    have hmn : m = n := eq_of_key_eq (·.id) ho.nodeIds hm hn
      ((returnedMapping_some hmom).2.1.symm.trans hnode)
    rw [hmn, hom] at hmom
    cases hmom

theorem columnFor_returned (ho : o.Indexed) (hn : n ∈ o.nodeTypes)
    (hom : returnedMapping ctx o n = some om) {p : PropertyDef} (hp : p ∈ n.properties) :
    om.columnFor p.id = o.sourceColumnOf n.id p.id := by
  have hcolumns : om.columns = n.properties.filterMap fun p =>
      (o.sourceColumnOf n.id p.id).map fun c => (p.id, c) := by
    unfold ObjectMappingDef.columns
    rw [(returnedMapping_some hom).2.2.2, filterMap_filterMap]
    refine filterMap_congr fun q _ => ?_
    cases o.sourceColumnOf n.id q.id with
    | none => rfl
    | some c => rfl
  have honly (q : PropertyDef) (hq : q ∈ n.properties) (hid : q.id = p.id) : q = p :=
    eq_of_key_eq (·.id) (ho.nodup_propertyIds hn) hq hp hid
  unfold ObjectMappingDef.columnFor
  rw [hcolumns]
  cases hcol : o.sourceColumnOf n.id p.id with
  | some c =>
    have hlast : last Prod.fst p.id (n.properties.filterMap fun p =>
        (o.sourceColumnOf n.id p.id).map fun c => (p.id, c)) = some (p.id, c) := by
      refine last_some_of_unique Prod.fst
        (mem_filterMap.2 ⟨p, hp, by rw [hcol]; rfl⟩) rfl fun e he hid => ?_
      obtain ⟨q, hq, hqe⟩ := mem_filterMap.1 he
      obtain ⟨d, hd, rfl⟩ := Option.map_eq_some_iff.1 hqe
      have hqp := honly q hq hid
      rw [hqp, hcol] at hd
      rw [hqp, Option.some.inj hd]
    rw [hlast]
    rfl
  | none =>
    have hlast : last Prod.fst p.id (n.properties.filterMap fun p =>
        (o.sourceColumnOf n.id p.id).map fun c => (p.id, c)) = none := by
      rw [last_none_iff]
      intro hbad
      obtain ⟨e, he, hid⟩ := mem_map.1 hbad
      obtain ⟨q, hq, hqe⟩ := mem_filterMap.1 he
      obtain ⟨d, hd, rfl⟩ := Option.map_eq_some_iff.1 hqe
      rw [honly q hq hid, hcol] at hd
      cases hd
    rw [hlast]
    rfl

theorem sourceColumnOf_of_no_table {nid : NodeTypeId} (h : o.sourceTableOf nid = none)
    (pid : PropertyId) : o.sourceColumnOf nid pid = none := by
  rw [sourceTableOf_eq, Option.map_eq_none_iff] at h
  rw [sourceColumnOf_eq]
  unfold lastColumn
  rw [findSome?_eq_none_iff]
  intro om hom
  refine if_neg fun hnode => ?_
  obtain ⟨x, hx⟩ := lastTable_isSome_iff.2 ⟨om, mem_reverse.1 hom, hnode⟩
  rw [h] at hx
  cases hx

theorem sourceColumnOf_returned (ho : o.Indexed) (hn : n ∈ o.nodeTypes) {p : PropertyDef}
    (hp : p ∈ n.properties) :
    (returned ctx o).sourceColumnOf n.id p.id = o.sourceColumnOf n.id p.id := by
  cases hom : returnedMapping ctx o n with
  | none =>
    have htable : o.sourceTableOf n.id = none := Option.map_eq_none_iff.1 hom
    have hagain : (returned ctx o).sourceTableOf n.id = none := by
      rw [sourceTableOf_eq, lastTable_returned ho hn, hom]
      rfl
    rw [sourceColumnOf_of_no_table htable, sourceColumnOf_of_no_table hagain]
  | some om =>
    have hmem : om ∈ (returned ctx o).objectMappings := mem_filterMap.2 ⟨n, hn, hom⟩
    have hnode := (returnedMapping_some hom).2.1
    have hother (x : ObjectMappingDef) (hx : x ∈ (returned ctx o).objectMappings)
        (hxn : x.nodeTypeId = n.id) : x = om :=
      eq_of_mem_returned ho hx hmem (hxn.trans hnode.symm)
    rw [sourceColumnOf_eq, ← columnFor_returned ho hn hom hp]
    unfold lastColumn
    cases hfound : (returned ctx o).objectMappings.reverse.findSome? fun x =>
        if x.nodeTypeId = n.id then x.columnFor p.id else none with
    | none =>
      rw [findSome?_eq_none_iff] at hfound
      have hnone := hfound om (mem_reverse.2 hmem)
      rw [if_pos hnode] at hnone
      exact hnone.symm
    | some c =>
      obtain ⟨x, hx, hxc⟩ := exists_of_findSome?_eq_some hfound
      by_cases hxn : x.nodeTypeId = n.id
      · rw [if_pos hxn] at hxc
        rw [← hxc, hother x (mem_reverse.1 hx) hxn]
      · rw [if_neg hxn] at hxc
        cases hxc

/-- What comes back is exported as before. -/
theorem toExchangeFormat_returned (ho : o.Indexed) :
    (returned ctx o).toExchangeFormat = o.toExchangeFormat := by
  have hnames : (returned ctx o).resolvePropName = o.resolvePropName := by
    have hmap : (returned ctx o).propIdToName = o.propIdToName := by
      simp [propIdToName, returned, carried, NodeTypeDef.carried,
        EdgeTypeDef.carried, flatMap_map, Function.comp_def]
    funext pid
    unfold resolvePropName
    rw [hmap]
  have hlabels : (returned ctx o).resolveNodeLabel = o.resolveNodeLabel := by
    funext nid
    have hlast : last (·.id) nid (o.nodeTypes.map NodeTypeDef.carried) =
        (last (·.id) nid o.nodeTypes).map NodeTypeDef.carried :=
      @last_map NodeTypeDef NodeTypeId _ NodeTypeDef.id NodeTypeDef NodeTypeDef.id
        NodeTypeDef.carried (fun _ => rfl) nid o.nodeTypes
    unfold OntologyIR.resolveNodeLabel
    rw [show (returned ctx o).nodeTypes = o.nodeTypes.map NodeTypeDef.carried from rfl, hlast,
      Option.map_map]
    rfl
  have hconstraints : (returned ctx o).exportConstraint = o.exportConstraint := by
    funext c
    unfold exportConstraint
    rw [hnames]
  have hindexes : (returned ctx o).exportIndex = o.exportIndex := by
    funext idx
    unfold exportIndex
    rw [hnames, hlabels]
  have hnodes (n : NodeTypeDef) (hn : n ∈ o.nodeTypes) :
      (returned ctx o).exportNode n.carried = o.exportNode n := by
    unfold exportNode
    have htable : (returned ctx o).sourceTableOf n.id = o.sourceTableOf n.id := by
      rw [sourceTableOf_eq, lastTable_returned ho hn]
      unfold returnedMapping pendingMapping
      cases o.sourceTableOf n.id with
      | none => rfl
      | some table => rfl
    rw [hconstraints, NodeTypeDef.carried_id, htable]
    refine congrArg (fun ps => InputNodeTypeDef.mk _ _ _ _ ps _) ?_
    show (n.properties.map PropertyDef.carried).map _ = _
    rw [map_map]
    refine map_congr_left fun p hp => ?_
    show exportProperty ((returned ctx o).sourceColumnOf n.id p.id) p.carried = _
    rw [sourceColumnOf_returned ho hn hp]
    rfl
  have hedges (e : EdgeTypeDef) : (returned ctx o).exportEdge e.carried = o.exportEdge e := by
    unfold exportEdge
    rw [hlabels]
    refine congrArg (fun ps => InputEdgeTypeDef.mk _ _ _ _ _ ps _ _) ?_
    show (e.properties.map PropertyDef.carried).map _ = _
    rw [map_map]
    rfl
  unfold toExchangeFormat
  rw [hindexes]
  refine congrArg₂ (fun ns es => InputOntologyDef.mk _ _ _ _ _ ns es _) ?_ ?_
  · show (o.nodeTypes.map NodeTypeDef.carried).map _ = _
    rw [map_map]
    exact map_congr_left hnodes
  · show (o.edgeTypes.map EdgeTypeDef.carried).map _ = _
    rw [map_map]
    exact map_congr_left fun e _ => hedges e

end

/-- `normalize` reads the export back without a warning: the carried part is the
same, and so is what is exported of it again. -/
def ReadBack (ctx : NormalizeContext) (o : OntologyIR) : Prop :=
  ∃ out, normalize ctx o.toExchangeFormat = some (.ok out) ∧ out.warnings = [] ∧
    out.ontology.carried = o.carried ∧ out.ontology.toExchangeFormat = o.toExchangeFormat

section

variable (ctx : NormalizeContext) {o : OntologyIR}

theorem readBack_of_names (ho : o.Indexed) (hv : o.Clean) (hne : o.nodeTypes ≠ [])
    (h : NamesReturn o) : ReadBack ctx o := by
  have hindexed : (returned ctx o).Indexed := indexed_carried ho (nodup_returnedMappings ho)
  have hempty : o.carried.rebuildIndices = .ok () :=
    o.carried.rebuild_ok_iff.2 (@indexed_carried o ho [] nodup_nil)
  have hattach : attachMappings (o.nodeTypes.filterMap (returnedMapping ctx o))
      (.ofIR o.carried) = .ok (.ofIR (returned ctx o)) := attachMappings_of_indexed _ hindexed
  have hvalid : (returned ctx o).validate = [] := by
    rw [validate_nil_iff]
    refine clean_carried hv hne fun om hom => ?_
    obtain ⟨n, hn, hnom⟩ := mem_filterMap.1 hom
    exact validateObjectMapping_returned ho hn hnom
  have hquiet : (returnedNodes ctx o).flatMap (·.warnings) ++ (returnedIndexes ctx o).2 = [] := by
    rw [returnedNodes_of_names ho hv h, (returnedIndexes_eq_iff ctx ho hv).2 h.indexes]
    simp
  refine ⟨⟨returned ctx o, []⟩, ?_, rfl, o.carried_carried, toExchangeFormat_returned ho⟩
  rw [normalize_export ctx ho hv, returnedOntology_of_names ho hv h,
    returnedMappings_of_names ho hv h, hquiet]
  unfold finishNormalize
  rw [hempty]
  rw [hattach]
  dsimp only
  rw [show (OntologyState.ofIR (returned ctx o)).ir = returned ctx o from rfl, hvalid]
  rfl

/-- The parts of a successful run. -/
theorem finishNormalize_eq_ok {p : OntologyIR} {oms : List ObjectMappingDef}
    {ws : List NormalizeWarning} {out : NormalizeOutcome}
    (h : finishNormalize p oms ws = some (.ok out)) :
    out.ontology = { p with objectMappings := p.objectMappings ++ oms } ∧
      out.ontology.validate = [] ∧ out.warnings = ws := by
  unfold finishNormalize at h
  cases hp : p.rebuildIndices with
  | error e =>
    rw [hp] at h
    cases h
  | ok u =>
    rw [hp] at h
    cases hattach : attachMappings oms (.ofIR p) with
    | error e =>
      rw [hattach] at h
      cases h
    | ok s =>
      rw [hattach] at h
      dsimp only at h
      have hir := ir_of_attachMappings oms hattach
      by_cases hvalid : s.ir.validate = []
      · rw [if_neg (not_not_intro hvalid)] at h
        cases h
        exact ⟨hir, hvalid, rfl⟩
      · rw [if_pos hvalid] at h
        cases h

theorem names_of_readBack (ho : o.Indexed) (hv : o.Clean) (h : ReadBack ctx o) :
    o.nodeTypes ≠ [] ∧ NamesReturn o := by
  obtain ⟨out, hrun, hquiet, hcarried, -⟩ := h
  rw [normalize_export ctx ho hv] at hrun
  obtain ⟨hout, hvalid, hwarnings⟩ := finishNormalize_eq_ok hrun
  constructor
  · intro hnil
    have hcontent := (out.ontology.validate_nil_iff.1 hvalid).content
    have hedges : o.edgeTypes = [] := by
      refine eq_nil_iff_forall_not_mem.2 fun e he => ?_
      have hmem := (hv.ends_mem he).1
      rw [hnil] at hmem
      cases hmem
    rw [hout] at hcontent
    simp [hasContent, returnedOntology, returnedMappings, returnedNodes,
      carried, hnil, hedges] at hcontent
  · refine names_of_returned ctx ho hv ?_ (hwarnings.symm.trans hquiet)
    rw [hout] at hcarried
    exact hcarried

end

/-- The exported table and columns of a node are those of a mapping of highest
precedence. -/
def SourcesAgree (o : OntologyIR) : Prop :=
  ∀ n ∈ o.nodeTypes, (∃ x ∈ o.objectMappings, x.nodeTypeId = n.id) →
    ∃ om ∈ o.objectMappings, om.nodeTypeId = n.id ∧
      (∀ x ∈ o.objectMappings, x.nodeTypeId = n.id → x.precedence ≤ om.precedence) ∧
      ∀ written ∈ o.toExchangeFormat.nodeTypes, written.id = some n.id.val →
        written.sourceTable = some om.relation ∧
        ∀ p ∈ written.properties, ∀ pid : PropertyId, p.id = some pid.val →
          p.sourceColumn = om.columnFor pid

/-- In the order of the list, the last mapping of the node decides as a mapping
of highest precedence would. -/
def LastIsHighest (o : OntologyIR) (n : NodeTypeDef) : Prop :=
  ∃ om ∈ o.objectMappings, om.nodeTypeId = n.id ∧
    (∀ x ∈ o.objectMappings, x.nodeTypeId = n.id → x.precedence ≤ om.precedence) ∧
    (∀ x, o.lastTable n.id = some x → x.relation = om.relation) ∧
    ∀ p ∈ n.properties, o.lastColumn n.id p.id = om.columnFor p.id

theorem sourcesAgree_iff {o : OntologyIR} (ho : o.Indexed) :
    SourcesAgree o ↔ ∀ n ∈ o.nodeTypes, (∃ x ∈ o.objectMappings, x.nodeTypeId = n.id) →
      LastIsHighest o n := by
  refine forall₂_congr fun n hn => forall_congr' fun hmapped => ?_
  refine exists_congr fun om => and_congr_right fun _ => and_congr_right fun _ =>
    and_congr_right fun _ => ?_
  have honly (m : NodeTypeDef) (hm : m ∈ o.nodeTypes) (hid : (o.exportNode m).id = some n.id.val) :
      m = n := by
    refine eq_of_key_eq (·.id) ho.nodeIds hm hn ?_
    have hval : m.id.val = n.id.val := Option.some.inj hid
    cases hmid : m.id
    cases hnid : n.id
    rw [hmid, hnid] at hval
    exact congrArg NodeTypeId.mk hval
  have htable : o.sourceTableOf n.id = some om.relation ↔
      ∀ x, o.lastTable n.id = some x → x.relation = om.relation := by
    obtain ⟨x, hx⟩ := lastTable_isSome_iff.2 hmapped
    rw [sourceTableOf_eq, hx]
    simp
  constructor
  · intro h
    obtain ⟨hrelation, hcolumns⟩ := h (o.exportNode n) (mem_map_of_mem hn) rfl
    refine ⟨htable.1 hrelation, fun p hp => ?_⟩
    rw [← sourceColumnOf_eq]
    exact hcolumns _ (mem_map_of_mem hp) p.id rfl
  · intro h written hwritten hid
    obtain ⟨m, hm, rfl⟩ := mem_map.1 hwritten
    rw [honly m hm hid]
    refine ⟨htable.2 h.1, fun q hq pid hpid => ?_⟩
    obtain ⟨p, hp, rfl⟩ := mem_map.1 hq
    have hpp : p.id = pid := by
      have hval : p.id.val = pid.val := Option.some.inj hpid
      cases hp : p.id
      cases pid
      rw [hp] at hval
      exact congrArg PropertyId.mk hval
    rw [← hpp]
    exact (sourceColumnOf_eq _ _).trans (h.2 p hp)

/-- The exchange format keeps a valid ontology, and the sources it shows are
those of one mapping for each node, exactly when the ontology has a node, its
names lead back, and the last mapping of each node decides as the highest
would. -/
theorem exchangeKept_iff (ctx : NormalizeContext) (o : IndexedOntology) (hv : o.ir.validate = []) :
    ReadBack ctx o.ir ∧ SourcesAgree o.ir ↔ o.ir.nodeTypes ≠ [] ∧ NamesReturn o.ir ∧
        ∀ n ∈ o.ir.nodeTypes, (∃ x ∈ o.ir.objectMappings, x.nodeTypeId = n.id) →
          LastIsHighest o.ir n := by
  have hclean := o.ir.validate_nil_iff.1 hv
  rw [sourcesAgree_iff o.indexed, ← and_assoc]
  refine and_congr_left fun _ => ?_
  constructor
  · exact names_of_readBack ctx o.indexed hclean
  · intro h
    exact readBack_of_names ctx o.indexed hclean h.1 h.2

/-- A node of people with one property, read from the given mappings. -/
def people (mappings : List ObjectMappingDef) : OntologyIR where
  id := "o"
  name := "People"
  nodeTypes :=
    [{ id := ⟨"n"⟩
       label := ⟨"Person", .refl true⟩
       properties := [{ id := ⟨"p"⟩, name := ⟨"email", by decide⟩, propertyType := .string }]
       constraints := [⟨⟨"c"⟩, .unique [⟨"p"⟩]⟩] }]
  objectMappings := mappings

/-- A mapping of people to a relation that has their addresses. -/
def peopleMapping (id relation : String) (precedence : Nat) : ObjectMappingDef where
  id := ⟨id⟩
  nodeTypeId := ⟨"n"⟩
  sourceId := ⟨"crm"⟩
  relation := relation
  propertyMappings :=
    [{ propertyId := ⟨"p"⟩, propertyKey := ⟨"email", by decide⟩,
       location := .column ⟨relation, "mail"⟩ }]
  precedence := precedence

def indexedPeople : IndexedOntology where
  ir := people [peopleMapping "current" "people" 10]
  indexed := (people [peopleMapping "current" "people" 10]).rebuild_ok_iff.1 rfl

/-- A run for the mappings of one source. -/
def crmContext : NormalizeContext where
  genId _ := ""
  toLowercase s := s.map Char.toLower
  sourceId := ⟨"crm"⟩

/-- The exchange format keeps people that are read from one relation. -/
theorem exchangeKept_people :
    ReadBack crmContext indexedPeople.ir ∧ SourcesAgree indexedPeople.ir := by
  refine (exchangeKept_iff crmContext indexedPeople (by decide)).2
    ⟨cons_ne_nil _ _, ⟨?_, fun _ h => absurd h not_mem_nil⟩, ?_⟩
  · intro n hn c hc pid hpid
    rw [mem_singleton.1 hn] at hc ⊢
    rw [mem_singleton.1 hc] at hpid
    rw [mem_singleton.1 hpid]
    exact ⟨_, mem_singleton_self _, rfl, fun key hkey => by cases hkey⟩
  · intro n hn _
    rw [mem_singleton.1 hn]
    refine ⟨_, mem_singleton_self _, rfl, ?_, ?_, ?_⟩
    · intro x hx _
      rw [mem_singleton.1 hx]
    · intro x hx
      exact congrArg ObjectMappingDef.relation
        (mem_singleton.1 (mem_of_mem_filter (mem_of_last _ hx)))
    · intro p hp
      rw [mem_singleton.1 hp]
      decide

/-- Of two mappings the export shows the last one, though it has the lower
precedence. -/
theorem lowerMapping_shown : (people [peopleMapping "current" "people" 10,
      peopleMapping "legacy" "people_2019" 0]).validate = [] ∧
    ¬SourcesAgree (people [peopleMapping "current" "people" 10,
      peopleMapping "legacy" "people_2019" 0]) := by
  refine ⟨by decide, fun h => ?_⟩
  obtain ⟨om, hom, -, hmax, hshown⟩ := h _ (mem_singleton_self _)
    ⟨_, mem_cons_self, rfl⟩
  have htable := (hshown _ (mem_singleton_self _) rfl).1
  have hlast : om.relation = "people_2019" := by
    have hexported : (people [peopleMapping "current" "people" 10,
        peopleMapping "legacy" "people_2019" 0]).sourceTableOf ⟨"n"⟩ = some "people_2019" := by
      decide
    exact Option.some.inj (htable.symm.trans hexported)
  rcases mem_cons.1 hom with rfl | hom
  · exact absurd hlast (by decide)
  · rw [mem_singleton.1 hom] at hmax
    exact absurd (hmax _ mem_cons_self rfl) (by decide)

end Ontosyx.Ontology
