import Ontosyx.Ontology.RebaseConflicts

/-!
# When a rebase reports every conflict

The axes of one entity are read off its two lists of changes, the conflict list
off the entries of the two diffs under one id.  Together they say that a
conflict is reported exactly when it is detectable.

A clean report is meant to make a rebase safe.  It does so for three ontologies
between which every conflict is detectable, and for no others.

## Main results

* `reported_iff` — a conflict is reported iff it is detectable.
* `detectConflicts_complete_iff` — detection is complete exactly when every
  conflict is detectable.
-/

namespace Ontosyx.Ontology

open List Ontosyx.Core Lib.Keyed PropDiffResult Or

/-! ## The changes of one node type -/

variable {id : NodeTypeId} {covers : ConflictAxis → Prop} {β : Type} {axis : ConflictAxis}

section

variable (n m : NodeTypeDef)

theorem diffNode_fst :
    (diffNode n m).1 =
      (if n.label ≠ m.label then [.labelChanged n.label m.label] else []) ++
      (if n.description ≠ m.description then
        [.descriptionChanged n.description m.description]
       else []) ++
      (diffProperties n.properties m.properties).1.map toNodeChange ++
      diffConstraints n.constraints m.constraints := rfl

private theorem exists_constraint_of_mem {c : NodeChange} {cs ds : List ConstraintDef}
    (hc : c ∈ diffConstraints cs ds) : ∃ s, c = .constraintAdded s ∨ c = .constraintRemoved s := by
  simp only [diffConstraints, mem_append, mem_map, mem_flatMap] at hc
  rcases hc with (⟨d, -, rfl⟩ | ⟨d, -, rfl⟩) | ⟨d, -, hd⟩
  · exact ⟨_, inl rfl⟩
  · exact ⟨_, inr rfl⟩
  · split at hd
    · exact absurd hd not_mem_nil
    · split_ifs at hd
      · simp only [mem_cons, not_mem_nil, or_false] at hd
        rcases hd with rfl | rfl
        · exact ⟨_, inr rfl⟩
        · exact ⟨_, inl rfl⟩
      · exact absurd hd not_mem_nil

/-- A selector that looks at the label and the description only. -/
private theorem findSome?_diffNode {f : NodeChange → Option β}
    (hprop : ∀ r : PropDiffResult, f r.toNodeChange = none)
    (hadd : ∀ s, f (.constraintAdded s) = none) (hrem : ∀ s, f (.constraintRemoved s) = none) :
    (diffNode n m).1.findSome? f =
      (if n.label ≠ m.label then f (.labelChanged n.label m.label) else none).or
        (if n.description ≠ m.description then f (.descriptionChanged n.description m.description)
         else none) := by
  have hp : ((diffProperties n.properties m.properties).1.map
      toNodeChange).findSome? f = none := by
    rw [findSome?_map, findSome?_eq_none_iff]
    exact fun r _ => hprop r
  have hc : (diffConstraints n.constraints m.constraints).findSome? f = none := by
    rw [findSome?_eq_none_iff]
    intro c hc
    obtain ⟨s, rfl | rfl⟩ := exists_constraint_of_mem hc
    · exact hadd s
    · exact hrem s
  rw [diffNode_fst, findSome?_append, findSome?_append, findSome?_append, hp, hc,
    findSome?_ite, findSome?_ite, Option.or_none, Option.or_none]

theorem findSome?_nodeLabelChanged :
    (diffNode n m).1.findSome? nodeLabelChanged =
      if n.label ≠ m.label then some m.label.val else none := by
  rw [findSome?_diffNode n m (fun r => by cases r <;> rfl) (fun _ => rfl) (fun _ => rfl)]
  simp only [nodeLabelChanged, ite_self, Option.or_none]

theorem findSome?_nodeDescriptionChanged :
    (diffNode n m).1.findSome? nodeDescriptionChanged =
      if n.description ≠ m.description then some m.description.default else none := by
  rw [findSome?_diffNode n m (fun r => by cases r <;> rfl) (fun _ => rfl) (fun _ => rfl)]
  simp only [nodeDescriptionChanged, ite_self, Option.none_or]

theorem collectNodeActivity_diffNode : collectNodePropertyActivity (diffNode n m).1 =
      (diffProperties n.properties m.properties).1.map toActivity := by
  have hc : collectNodePropertyActivity (diffConstraints n.constraints m.constraints) = [] := by
    rw [collectNodePropertyActivity, filterMap_eq_nil_iff]
    intro c hc
    obtain ⟨s, rfl | rfl⟩ := exists_constraint_of_mem hc <;> rfl
  have hp : ∀ rs : List PropDiffResult,
      collectNodePropertyActivity (rs.map toNodeChange) =
        rs.map toActivity := by
    intro rs
    rw [collectNodePropertyActivity, filterMap_map, ← filterMap_eq_map]
    refine filterMap_congr fun r _ => ?_
    cases r <;> rfl
  have hl : collectNodePropertyActivity
      (if n.label ≠ m.label then [.labelChanged n.label m.label] else []) = [] := by
    split_ifs <;> rfl
  have hd : collectNodePropertyActivity
      (if n.description ≠ m.description then [.descriptionChanged n.description m.description]
       else []) = [] := by
    split_ifs <;> rfl
  have happ : ∀ as bs : List NodeChange, collectNodePropertyActivity (as ++ bs) =
      collectNodePropertyActivity as ++ collectNodePropertyActivity bs :=
    fun as bs => filterMap_append
  rw [diffNode_fst, happ, happ, happ, hl, hd, hp, hc, append_nil, nil_append, nil_append]

end

theorem exists_of_mem_propertyAxes {head draft : List (String × PropertyActivity)}
    (h : axis ∈ propertyAxes head draft) : (∃ n atoms, axis = .propertyOverlap n atoms) ∨
      (∃ n side, axis = .propertyModifyRemove n side) ∨ ∃ n, axis = .propertyAddAdd n := by
  obtain ⟨name, x, y, -, -, haxis⟩ := mem_propertyAxes.1 h
  rw [propertyConflictAxis.eq_def] at haxis
  split at haxis
  · exact inr (inr ⟨name, (Option.some.inj haxis).symm⟩)
  · exact inr (inl ⟨name, _, (Option.some.inj haxis).symm⟩)
  · exact inr (inl ⟨name, _, (Option.some.inj haxis).symm⟩)
  · rw [Option.ite_none_left_eq_some] at haxis
    exact inl ⟨name, _, (Option.some.inj haxis.2).symm⟩
  · cases haxis

private theorem not_exists_coversNode {b h d : NodeTypeDef} {f : NodeField}
    (hf : ∀ id g, f ≠ .property id g) (xs ys : List (String × PropertyActivity)) :
    ¬ ∃ axis ∈ propertyAxes xs ys, axis.CoversNode b h d f := by
  rintro ⟨axis, haxis, hcov⟩
  obtain ⟨n, atoms, rfl⟩ | ⟨n, side, rfl⟩ | ⟨n, rfl⟩ := exists_of_mem_propertyAxes haxis <;>
    cases f <;> simp_all [ConflictAxis.CoversNode]

/-- The axes of two modifications of a node type name a conflicting field
exactly when the field is compared. -/
theorem exists_nodeAxes_iff {b h d : NodeTypeDef} {f : NodeField}
    (hbh : f.Differs b h) (hbd : f.Differs b d) (hhd : f.Differs h d) :
    (∃ axis ∈ nodeConflictAxes (diffNode b h).1 (diffNode b d).1, axis.CoversNode b h d f) ↔
      NodeFieldDetectable b h d f := by
  simp only [nodeConflictAxes, exists_mem_append, findSome?_nodeLabelChanged,
    findSome?_nodeDescriptionChanged, collectNodeActivity_diffNode, exists_axisWhen_ite_iff]
  have hdesc : ∀ {x y : LocalizedText} {tag : LanguageTag},
      x.translations.lookup tag ≠ y.translations.lookup tag → x ≠ y := by
    rintro x y tag hxy rfl
    exact hxy rfl
  cases f with
  | label =>
    simp only [NodeField.Differs] at hbh hbd hhd
    simp [ConflictAxis.CoversNode, NodeFieldDetectable, hbh, hbd, GraphLabel.ext_iff.not.1 hhd]
  | description =>
    simp only [NodeField.Differs] at hbh hbd hhd
    have hbh' : b.description ≠ h.description := fun e => hbh (congrArg _ e)
    have hbd' : b.description ≠ d.description := fun e => hbd (congrArg _ e)
    simp [ConflictAxis.CoversNode, NodeFieldDetectable, hbh', hbd', hhd]
  | translation tag =>
    simp only [NodeField.Differs] at hbh hbd hhd
    have hprop :=
      not_exists_coversNode (b := b) (h := h) (d := d) (f := .translation tag) (by simp)
    simp only [hprop, or_false]
    simp [ConflictAxis.CoversNode, NodeFieldDetectable, hdesc hbh, hdesc hbd]
  | constraint id =>
    simp [ConflictAxis.CoversNode, NodeFieldDetectable]
  | property id g =>
    rw [NodeFieldDetectable, ← exists_covers_iff]
    simp [ConflictAxis.CoversNode, ConflictAxis.CoversSharedProperty, ConflictAxis.CoversProperty]

/-! ## The changes of one edge type -/

section

variable (e f : EdgeTypeDef) (a b : OntologyIR)

theorem diffEdge_fst :
    (diffEdge e f a b).1 =
      (if e.label ≠ f.label then [.labelChanged e.label f.label] else []) ++
      (if e.description ≠ f.description then
        [.descriptionChanged e.description f.description]
       else []) ++
      (if e.sourceNodeId ≠ f.sourceNodeId then
        [.sourceChanged (resolveNodeLabel a e.sourceNodeId) (resolveNodeLabel b f.sourceNodeId)]
       else []) ++
      (if e.targetNodeId ≠ f.targetNodeId then
        [.targetChanged (resolveNodeLabel a e.targetNodeId) (resolveNodeLabel b f.targetNodeId)]
       else []) ++
      (if e.cardinality ≠ f.cardinality then [.cardinalityChanged e.cardinality f.cardinality]
       else []) ++
      (diffProperties e.properties f.properties).1.map toEdgeChange := rfl

/-- A selector that ignores properties looks at the other fields in order. -/
private theorem findSome?_diffEdge {g : EdgeChange → Option β}
    (hprop : ∀ r : PropDiffResult, g r.toEdgeChange = none) :
    (diffEdge e f a b).1.findSome? g =
      (((((if e.label ≠ f.label then g (.labelChanged e.label f.label) else none).or
        (if e.description ≠ f.description then g (.descriptionChanged e.description f.description)
         else none)).or
        (if e.sourceNodeId ≠ f.sourceNodeId then
          g (.sourceChanged (resolveNodeLabel a e.sourceNodeId) (resolveNodeLabel b f.sourceNodeId))
         else none)).or
        (if e.targetNodeId ≠ f.targetNodeId then
          g (.targetChanged (resolveNodeLabel a e.targetNodeId) (resolveNodeLabel b f.targetNodeId))
         else none)).or
        (if e.cardinality ≠ f.cardinality then g (.cardinalityChanged e.cardinality f.cardinality)
         else none)) := by
  have hp : ((diffProperties e.properties f.properties).1.map
      toEdgeChange).findSome? g = none := by
    rw [findSome?_map, findSome?_eq_none_iff]
    exact fun r _ => hprop r
  simp only [diffEdge_fst, findSome?_append, hp, findSome?_ite, Option.or_none]

theorem findSome?_edgeLabelChanged :
    (diffEdge e f a b).1.findSome? edgeLabelChanged =
      if e.label ≠ f.label then some f.label.val else none := by
  rw [findSome?_diffEdge e f a b (fun r => by cases r <;> rfl)]
  simp only [edgeLabelChanged, ite_self, Option.or_none]

theorem findSome?_edgeDescriptionChanged :
    (diffEdge e f a b).1.findSome? edgeDescriptionChanged =
      if e.description ≠ f.description then some f.description.default else none := by
  rw [findSome?_diffEdge e f a b (fun r => by cases r <;> rfl)]
  simp only [edgeDescriptionChanged, ite_self, Option.or_none, Option.none_or]

theorem findSome?_edgeSourceChanged :
    (diffEdge e f a b).1.findSome? edgeSourceChanged =
      if e.sourceNodeId ≠ f.sourceNodeId then some (resolveNodeLabel b f.sourceNodeId).val
      else none := by
  rw [findSome?_diffEdge e f a b (fun r => by cases r <;> rfl)]
  simp only [edgeSourceChanged, ite_self, Option.or_none, Option.none_or]

theorem findSome?_edgeTargetChanged :
    (diffEdge e f a b).1.findSome? edgeTargetChanged =
      if e.targetNodeId ≠ f.targetNodeId then some (resolveNodeLabel b f.targetNodeId).val
      else none := by
  rw [findSome?_diffEdge e f a b (fun r => by cases r <;> rfl)]
  simp only [edgeTargetChanged, ite_self, Option.or_none, Option.none_or]

theorem findSome?_edgeCardinalityChanged :
    (diffEdge e f a b).1.findSome? edgeCardinalityChanged =
      if e.cardinality ≠ f.cardinality then some f.cardinality.debug else none := by
  rw [findSome?_diffEdge e f a b (fun r => by cases r <;> rfl)]
  simp only [edgeCardinalityChanged, ite_self, Option.none_or]

theorem collectEdgeActivity_diffEdge : collectEdgePropertyActivity (diffEdge e f a b).1 =
      (diffProperties e.properties f.properties).1.map toActivity := by
  have happ : ∀ as bs : List EdgeChange, collectEdgePropertyActivity (as ++ bs) =
      collectEdgePropertyActivity as ++ collectEdgePropertyActivity bs :=
    fun as bs => filterMap_append
  have hp : ∀ rs : List PropDiffResult,
      collectEdgePropertyActivity (rs.map toEdgeChange) =
        rs.map toActivity := by
    intro rs
    rw [collectEdgePropertyActivity, filterMap_map, ← filterMap_eq_map]
    refine filterMap_congr fun r _ => ?_
    cases r <;> rfl
  have hite : ∀ (P : Prop) [Decidable P] (c : EdgeChange),
      collectEdgePropertyActivity [c] = [] →
      collectEdgePropertyActivity (if P then [c] else []) = [] := by
    intro P _ c h
    split_ifs
    · exact h
    · rfl
  simp only [diffEdge_fst, happ, hp]
  rw [hite _ _ rfl, hite _ _ rfl, hite _ _ rfl, hite _ _ rfl, hite _ _ rfl]
  rfl

end

private theorem not_exists_coversEdge {b h d : EdgeTypeDef} {f : EdgeField}
    (hf : ∀ id g, f ≠ .property id g) (xs ys : List (String × PropertyActivity)) :
    ¬ ∃ axis ∈ propertyAxes xs ys, axis.CoversEdge b h d f := by
  rintro ⟨axis, haxis, hcov⟩
  obtain ⟨n, atoms, rfl⟩ | ⟨n, side, rfl⟩ | ⟨n, rfl⟩ := exists_of_mem_propertyAxes haxis <;>
    cases f <;> simp_all [ConflictAxis.CoversEdge]

/-- The axes of two modifications of an edge type name a conflicting field
exactly when the field is compared. -/
theorem exists_edgeAxes_iff (base head draft : OntologyIR) {b h d : EdgeTypeDef}
    {f : EdgeField} (hbh : f.Differs b h) (hbd : f.Differs b d) (hhd : f.Differs h d) :
    (∃ axis ∈ edgeConflictAxes (diffEdge b h base head).1 (diffEdge b d base draft).1,
      axis.CoversEdge b h d f) ↔ EdgeFieldDetectable head draft b h d f := by
  simp only [edgeConflictAxes, exists_mem_append, findSome?_edgeLabelChanged,
    findSome?_edgeDescriptionChanged, findSome?_edgeSourceChanged, findSome?_edgeTargetChanged,
    findSome?_edgeCardinalityChanged, collectEdgeActivity_diffEdge, exists_axisWhen_ite_iff]
  cases f with
  | label =>
    simp only [EdgeField.Differs] at hbh hbd hhd
    simp [ConflictAxis.CoversEdge, EdgeFieldDetectable, hbh, hbd, GraphLabel.ext_iff.not.1 hhd]
  | description =>
    simp only [EdgeField.Differs] at hbh hbd hhd
    have hbh' : b.description ≠ h.description := fun e => hbh (congrArg _ e)
    have hbd' : b.description ≠ d.description := fun e => hbd (congrArg _ e)
    simp [ConflictAxis.CoversEdge, EdgeFieldDetectable, hbh', hbd', hhd]
  | translation tag =>
    simp only [EdgeField.Differs] at hbh hbd hhd
    have hbh' : b.description ≠ h.description := fun e => hbh (by rw [e])
    have hbd' : b.description ≠ d.description := fun e => hbd (by rw [e])
    have hprop :=
      not_exists_coversEdge (b := b) (h := h) (d := d) (f := .translation tag) (by simp)
    simp only [hprop, or_false]
    simp [ConflictAxis.CoversEdge, EdgeFieldDetectable, hbh', hbd']
  | source =>
    simp only [EdgeField.Differs] at hbh hbd hhd
    have hprop := not_exists_coversEdge (b := b) (h := h) (d := d) (f := .source) (by simp)
    simp only [hprop, or_false]
    simp [ConflictAxis.CoversEdge, EdgeFieldDetectable, hbh, hbd, GraphLabel.ext_iff]
  | target =>
    simp only [EdgeField.Differs] at hbh hbd hhd
    have hprop := not_exists_coversEdge (b := b) (h := h) (d := d) (f := .target) (by simp)
    simp only [hprop, or_false]
    simp [ConflictAxis.CoversEdge, EdgeFieldDetectable, hbh, hbd, GraphLabel.ext_iff]
  | cardinality =>
    simp only [EdgeField.Differs] at hbh hbd hhd
    simp [ConflictAxis.CoversEdge, EdgeFieldDetectable, hbh, hbd,
      Cardinality.debug_injective.eq_iff, hhd]
  | property id g =>
    rw [EdgeFieldDetectable, ← exists_covers_iff]
    simp [ConflictAxis.CoversEdge, ConflictAxis.CoversSharedProperty, ConflictAxis.CoversProperty]

section

variable {base side : OntologyIR} (hb : base.Indexed) (hs : side.Indexed)

include hs in
theorem mem_addedNodes_iff {n : NodeTypeDef} : n ∈ (computeDiff base side).addedNodes ∧ n.id = id ↔
      side.nodeById id = some n ∧ base.nodeById id = none :=
  mem_unmatched_first_iff _ hs.nodeIds

include hb in
theorem mem_removedNodes_iff {n : NodeTypeDef} :
    n ∈ (computeDiff base side).removedNodes ∧ n.id = id ↔
      base.nodeById id = some n ∧ side.nodeById id = none :=
  mem_unmatched_first_iff _ hb.nodeIds

include hb hs in
theorem mem_modifiedNodes_iff {x : NodeDiff} :
    x ∈ (computeDiff base side).modifiedNodes ∧ x.nodeId = id ↔
      ∃ b m, base.nodeById id = some b ∧ side.nodeById id = some m ∧
        ¬ NodeAgrees AgreesButName b m ∧ x = ⟨id, m.label, (diffNode b m).1⟩ := by
  simp only [computeDiff, filterMap_map, mem_filterMap, Function.comp_apply,
    Option.ite_none_left_eq_some, Option.some.injEq, List.isEmpty_iff, diffNode_nil_iff]
  constructor
  · rintro ⟨⟨p, hp, hne, rfl⟩, rfl⟩
    obtain ⟨hb', hs'⟩ := (mem_matchedPairs_first_iff _ hb.nodeIds hs.nodeIds).1 ⟨hp, rfl⟩
    exact ⟨p.1, p.2, hb', hs', hne, rfl⟩
  · rintro ⟨b, m, hb', hs', hne, rfl⟩
    obtain ⟨hp, hid⟩ := (mem_matchedPairs_first_iff (p := (b, m)) _ hb.nodeIds hs.nodeIds).2
      ⟨hb', hs'⟩
    exact ⟨⟨(b, m), hp, hne, by rw [← hid]⟩, rfl⟩

include hs in
theorem mem_addedEdges_iff {id : EdgeTypeId} {e : EdgeTypeDef} :
    e ∈ (computeDiff base side).addedEdges ∧ e.id = id ↔
      side.edgeById id = some e ∧ base.edgeById id = none :=
  mem_unmatched_first_iff _ hs.edgeIds

include hb in
theorem mem_removedEdges_iff {id : EdgeTypeId} {e : EdgeTypeDef} :
    e ∈ (computeDiff base side).removedEdges ∧ e.id = id ↔
      base.edgeById id = some e ∧ side.edgeById id = none :=
  mem_unmatched_first_iff _ hb.edgeIds

include hb hs in
theorem mem_modifiedEdges_iff {id : EdgeTypeId} {x : EdgeDiff} :
    x ∈ (computeDiff base side).modifiedEdges ∧ x.edgeId = id ↔
      ∃ b m, base.edgeById id = some b ∧ side.edgeById id = some m ∧
        ¬ EdgeAgrees AgreesButName b m ∧ x = ⟨id, m.label, (diffEdge b m base side).1⟩ := by
  simp only [computeDiff, filterMap_map, mem_filterMap, Function.comp_apply,
    Option.ite_none_left_eq_some, Option.some.injEq, List.isEmpty_iff, diffEdge_nil_iff]
  constructor
  · rintro ⟨⟨p, hp, hne, rfl⟩, rfl⟩
    obtain ⟨hb', hs'⟩ := (mem_matchedPairs_first_iff _ hb.edgeIds hs.edgeIds).1 ⟨hp, rfl⟩
    exact ⟨p.1, p.2, hb', hs', hne, rfl⟩
  · rintro ⟨b, m, hb', hs', hne, rfl⟩
    obtain ⟨hp, hid⟩ := (mem_matchedPairs_first_iff (p := (b, m)) _ hb.edgeIds hs.edgeIds).2
      ⟨hb', hs'⟩
    exact ⟨⟨(b, m), hp, hne, by rw [← hid]⟩, rfl⟩

end

/-- What a report says of one entity, from what the three sides hold under its
id: both added it, one modified what the other removed, or both modified it and
`overlaps`. -/
def EntityReported {α : Type} (agrees : α → α → Prop) (overlaps : α → α → α → Prop) :
    Option α → Option α → Option α → Prop
  | none, some _, some _ => True
  | some b, some h, none => ¬ agrees b h
  | some b, none, some d => ¬ agrees b d
  | some b, some h, some d => ¬ agrees b h ∧ ¬ agrees b d ∧ overlaps b h d
  | _, _, _ => False

variable {α : Type}

private theorem exists_map_filter_iff {f : α → β} {p : α → Bool} {P : β → Prop} {xs : List α} :
    (∃ c ∈ (xs.filter p).map f, P c) ↔ ∃ x, (x ∈ xs ∧ p x = true) ∧ P (f x) := by
  simp only [mem_map, mem_filter, exists_exists_and_eq_and]

private theorem exists_filterMap_iff {f : α → Option β} {P : β → Prop} {xs : List α} :
    (∃ c ∈ xs.filterMap f, P c) ↔ ∃ x ∈ xs, ∃ c, f x = some c ∧ P c := by
  simp only [mem_filterMap]
  constructor
  · rintro ⟨c, ⟨x, hx, hc⟩, hp⟩
    exact ⟨x, hx, c, hc, hp⟩
  · rintro ⟨x, hx, c, hc, hp⟩
    exact ⟨c, ⟨x, hx, hc⟩, hp⟩

/-- An entry of one list under a key that another list also holds. -/
private theorem exists_map_and_key_iff {κ : Type} {f : α → κ} {g : β → κ} {xs : List α}
    {ys : List β} {k : κ} : (∃ x, (x ∈ xs ∧ f x ∈ ys.map g) ∧ f x = k) ↔
      (∃ x, x ∈ xs ∧ f x = k) ∧ ∃ y, y ∈ ys ∧ g y = k := by
  simp only [mem_map]
  constructor
  · rintro ⟨x, ⟨hx, y, hy, hxy⟩, rfl⟩
    exact ⟨⟨x, hx, rfl⟩, y, hy, hxy⟩
  · rintro ⟨⟨x, hx, rfl⟩, y, hy, hxy⟩
    exact ⟨x, ⟨hx, y, hy, hxy⟩, rfl⟩

private theorem exists_modifyModify_iff {δ : Type} {x : Option δ} {k kind : ConflictEntityKind}
    {i id label : String} {axes : δ → List ConflictAxis} :
    (∃ c, (x.bind fun a => modifyModifyUnlessEmpty k i label (axes a)) = some c ∧
      c.Names kind id covers) ↔
      k = kind ∧ i = id ∧ ∃ a, x = some a ∧ ∃ axis ∈ axes a, covers axis := by
  simp only [Option.bind_eq_some_iff, modifyModifyUnlessEmpty, Option.ite_none_left_eq_some,
    Option.some.injEq]
  constructor
  · rintro ⟨c, ⟨a, ha, -, rfl⟩, hk, hi, haxis⟩
    exact ⟨hk, hi, a, ha, haxis⟩
  · rintro ⟨hk, hi, a, ha, axis, haxis, hcov⟩
    exact ⟨_, ⟨a, ha, by simp [ne_nil_of_mem haxis], rfl⟩, hk, hi, axis, haxis, hcov⟩

/-- What the conflict list says of one node type, from the entries of the two
diffs under its id. -/
theorem reportsNode_iff {head draft : OntologyDiff}
    (huniq : ∀ x ∈ head.modifiedNodes, ∀ y ∈ head.modifiedNodes, x.nodeId = y.nodeId → x = y) :
    ReportsEntity .node id.val covers (detectConflicts head draft) ↔
      ((∃ n, n ∈ draft.addedNodes ∧ n.id = id) ∧ ∃ n, n ∈ head.addedNodes ∧ n.id = id) ∨
      ((∃ x, x ∈ draft.modifiedNodes ∧ x.nodeId = id) ∧ ∃ n, n ∈ head.removedNodes ∧ n.id = id) ∨
      ((∃ x, x ∈ head.modifiedNodes ∧ x.nodeId = id) ∧ ∃ n, n ∈ draft.removedNodes ∧ n.id = id) ∨
      ∃ x y, (x ∈ head.modifiedNodes ∧ x.nodeId = id) ∧ (y ∈ draft.modifiedNodes ∧ y.nodeId = id) ∧
        ∃ axis ∈ nodeConflictAxes x.changes y.changes, covers axis := by
  have hval : ∀ x : NodeTypeId, x.val = id.val ↔ x = id := fun x => by
    cases x; cases id; simp
  have hne : ConflictEntityKind.edge ≠ .node := by simp
  simp only [ReportsEntity, detectConflicts, exists_mem_append, exists_filterMap_iff,
    exists_map_filter_iff, exists_modifyModify_iff]
  simp only [RebaseConflict.Names, hval, hne, decide_eq_true_eq, true_and, false_and, and_false,
    exists_false, or_false, exists_map_and_key_iff]
  rw [or_assoc, or_assoc]
  refine or_congr_right (or_congr_right (or_congr_right ?_))
  constructor
  · rintro ⟨y, hy, rfl, x, hx, hcov⟩
    exact ⟨x, y, (last_some_iff_of_unique _ huniq).1 hx, ⟨hy, rfl⟩, hcov⟩
  · rintro ⟨x, y, hx, ⟨hy, rfl⟩, hcov⟩
    exact ⟨y, hy, rfl, x, (last_some_iff_of_unique _ huniq).2 hx, hcov⟩

/-- What the conflict list says of one edge type, from the entries of the two
diffs under its id. -/
theorem reportsEdge_iff {head draft : OntologyDiff} {id : EdgeTypeId}
    (huniq : ∀ x ∈ head.modifiedEdges, ∀ y ∈ head.modifiedEdges, x.edgeId = y.edgeId → x = y) :
    ReportsEntity .edge id.val covers (detectConflicts head draft) ↔
      ((∃ e, e ∈ draft.addedEdges ∧ e.id = id) ∧ ∃ e, e ∈ head.addedEdges ∧ e.id = id) ∨
      ((∃ x, x ∈ draft.modifiedEdges ∧ x.edgeId = id) ∧ ∃ e, e ∈ head.removedEdges ∧ e.id = id) ∨
      ((∃ x, x ∈ head.modifiedEdges ∧ x.edgeId = id) ∧ ∃ e, e ∈ draft.removedEdges ∧ e.id = id) ∨
      ∃ x y, (x ∈ head.modifiedEdges ∧ x.edgeId = id) ∧ (y ∈ draft.modifiedEdges ∧ y.edgeId = id) ∧
        ∃ axis ∈ edgeConflictAxes x.changes y.changes, covers axis := by
  have hval : ∀ x : EdgeTypeId, x.val = id.val ↔ x = id := fun x => by
    cases x; cases id; simp
  have hne : ConflictEntityKind.node ≠ .edge := by simp
  simp only [ReportsEntity, detectConflicts, exists_mem_append, exists_filterMap_iff,
    exists_map_filter_iff, exists_modifyModify_iff]
  simp only [RebaseConflict.Names, hval, hne, decide_eq_true_eq, true_and, false_and, and_false,
    exists_false, or_false, false_or, exists_map_and_key_iff]
  rw [or_assoc, or_assoc]
  refine or_congr_right (or_congr_right (or_congr_right ?_))
  constructor
  · rintro ⟨y, hy, rfl, x, hx, hcov⟩
    exact ⟨x, y, (last_some_iff_of_unique _ huniq).1 hx, ⟨hy, rfl⟩, hcov⟩
  · rintro ⟨x, y, hx, ⟨hy, rfl⟩, hcov⟩
    exact ⟨y, hy, rfl, x, (last_some_iff_of_unique _ huniq).2 hx, hcov⟩

/-! ## Conflicts of one entity -/

/-- A conflict is reported iff it is detectable, given that the axes of two
modifications cover exactly the detectable fields. -/
private theorem entityReported_iff {R agrees : α → α → Prop} {overlaps field : α → α → α → Prop}
    {b h d : Option α} (hc : ThreeWayConflict R b h d)
    (hfield : ∀ x y z, b = some x → h = some y → d = some z → (overlaps x y z ↔ field x y z))
    (hoverlaps : ∀ x y z, overlaps x y z → ¬ agrees x y ∧ ¬ agrees x z) :
    EntityReported agrees overlaps b h d ↔ EntityDetectable agrees field b h d := by
  obtain ⟨hbh, hbd, hhd⟩ := hc
  cases b with
  | none =>
    cases h with
    | none => exact absurd hbh id
    | some y =>
      cases d with
      | none => exact absurd hbd id
      | some z => exact Iff.rfl
  | some x =>
    cases h with
    | none =>
      cases d with
      | none => exact absurd hhd id
      | some z => exact Iff.rfl
    | some y =>
      cases d with
      | none => exact Iff.rfl
      | some z =>
        rw [EntityReported, EntityDetectable, ← hfield x y z rfl rfl rfl]
        exact ⟨fun h => h.2.2, fun h => ⟨(hoverlaps x y z h).1, (hoverlaps x y z h).2, h⟩⟩

theorem propertyAxes_nil_left (draft : List (String × PropertyActivity)) :
    propertyAxes [] draft = [] := by
  rw [eq_nil_iff_forall_not_mem]
  intro axis haxis
  obtain ⟨name, x, y, hx, -⟩ := mem_propertyAxes.1 haxis
  exact absurd hx (by simp [last])

theorem propertyAxes_nil_right (head : List (String × PropertyActivity)) :
    propertyAxes head [] = [] := rfl

/-- Axes need changes on both sides. -/
theorem changes_ne_nil_of_mem_nodeAxes {head draft : List NodeChange}
    (h : axis ∈ nodeConflictAxes head draft) : head ≠ [] ∧ draft ≠ [] := by
  constructor
  · rintro rfl
    simp [nodeConflictAxes, mem_axisWhen, collectNodePropertyActivity, propertyAxes_nil_left] at h
  · rintro rfl
    simp [nodeConflictAxes, mem_axisWhen, collectNodePropertyActivity, propertyAxes_nil_right] at h

theorem changes_ne_nil_of_mem_edgeAxes {head draft : List EdgeChange}
    (h : axis ∈ edgeConflictAxes head draft) : head ≠ [] ∧ draft ≠ [] := by
  constructor
  · rintro rfl
    simp [edgeConflictAxes, mem_axisWhen, collectEdgePropertyActivity, propertyAxes_nil_left] at h
  · rintro rfl
    simp [edgeConflictAxes, mem_axisWhen, collectEdgePropertyActivity, propertyAxes_nil_right] at h

section

variable {base head draft : OntologyIR} (hb : base.Indexed) (hh : head.Indexed)
  (hd : draft.Indexed)

include hb hh hd

theorem reportsNode_analyzeRebase_iff (id : NodeTypeId) (covers : ConflictAxis → Prop) :
    ReportsEntity .node id.val covers (analyzeRebase base head draft).conflicts ↔
      EntityReported (NodeAgrees AgreesButName)
        (fun b h d => ∃ axis ∈ nodeConflictAxes (diffNode b h).1 (diffNode b d).1, covers axis)
        (base.nodeById id) (head.nodeById id) (draft.nodeById id) := by
  have huniq : ∀ x ∈ (computeDiff base head).modifiedNodes,
      ∀ y ∈ (computeDiff base head).modifiedNodes, x.nodeId = y.nodeId → x = y := by
    intro x hx y hy hxy
    obtain ⟨b, m, hb', hm, -, hx'⟩ := (mem_modifiedNodes_iff hb hh).1 ⟨hx, rfl⟩
    obtain ⟨b', m', hb'', hm', -, hy'⟩ := (mem_modifiedNodes_iff hb hh).1 ⟨hy, hxy.symm⟩
    rw [hb', Option.some.injEq] at hb''
    rw [hm, Option.some.injEq] at hm'
    rw [hx', hy', hb'', hm']
  rw [analyzeRebase, reportsNode_iff huniq]
  simp only [mem_addedNodes_iff hh, mem_addedNodes_iff hd, mem_removedNodes_iff hb,
    mem_modifiedNodes_iff hb hh, mem_modifiedNodes_iff hb hd]
  cases base.nodeById id <;> cases head.nodeById id <;> cases draft.nodeById id <;>
    simp [EntityReported]

theorem reportsEdge_analyzeRebase_iff (id : EdgeTypeId) (covers : ConflictAxis → Prop) :
    ReportsEntity .edge id.val covers (analyzeRebase base head draft).conflicts ↔
      EntityReported (EdgeAgrees AgreesButName)
        (fun b h d => ∃ axis ∈ edgeConflictAxes (diffEdge b h base head).1
          (diffEdge b d base draft).1, covers axis)
        (base.edgeById id) (head.edgeById id) (draft.edgeById id) := by
  have huniq : ∀ x ∈ (computeDiff base head).modifiedEdges,
      ∀ y ∈ (computeDiff base head).modifiedEdges, x.edgeId = y.edgeId → x = y := by
    intro x hx y hy hxy
    obtain ⟨b, m, hb', hm, -, hx'⟩ := (mem_modifiedEdges_iff hb hh).1 ⟨hx, rfl⟩
    obtain ⟨b', m', hb'', hm', -, hy'⟩ := (mem_modifiedEdges_iff hb hh).1 ⟨hy, hxy.symm⟩
    rw [hb', Option.some.injEq] at hb''
    rw [hm, Option.some.injEq] at hm'
    rw [hx', hy', hb'', hm']
  rw [analyzeRebase, reportsEdge_iff huniq]
  simp only [mem_addedEdges_iff hh, mem_addedEdges_iff hd, mem_removedEdges_iff hb,
    mem_modifiedEdges_iff hb hh, mem_modifiedEdges_iff hb hd]
  cases base.edgeById id <;> cases head.edgeById id <;> cases draft.edgeById id <;>
    simp [EntityReported]

/-- A conflict in a node type is reported iff it is detectable. -/
theorem nodeReported_iff {f : NodeField} (hc : Occurs base head draft (.node id f)) :
    Reported base head draft (.node id f) ↔ Detectable base head draft (.node id f) := by
  rw [Reported, reportsNode_analyzeRebase_iff hb hh hd, Detectable]
  refine entityReported_iff hc ?_ ?_
  · intro b h d hb' hh' hd'
    obtain ⟨hbh, hbd, hhd⟩ : ThreeWayConflict f.Differs (some b) (some h) (some d) := by
      rw [← hb', ← hh', ← hd']
      exact hc
    rw [← exists_nodeAxes_iff hbh hbd hhd]
    simp only [hb', hh', hd', Option.some.injEq, exists_and_left, exists_eq_left', ↓existsAndEq,
      true_and]
  · rintro b h d ⟨axis, haxis, -⟩
    rw [← diffNode_nil_iff, ← diffNode_nil_iff]
    exact changes_ne_nil_of_mem_nodeAxes haxis

theorem edgeReported_iff {id : EdgeTypeId} {f : EdgeField}
    (hc : Occurs base head draft (.edge id f)) :
    Reported base head draft (.edge id f) ↔ Detectable base head draft (.edge id f) := by
  rw [Reported, reportsEdge_analyzeRebase_iff hb hh hd, Detectable]
  refine entityReported_iff hc ?_ ?_
  · intro b h d hb' hh' hd'
    obtain ⟨hbh, hbd, hhd⟩ : ThreeWayConflict f.Differs (some b) (some h) (some d) := by
      rw [← hb', ← hh', ← hd']
      exact hc
    rw [← exists_edgeAxes_iff base head draft hbh hbd hhd]
    simp only [hb', hh', hd', Option.some.injEq, exists_and_left, exists_eq_left', ↓existsAndEq,
      true_and]
  · rintro b h d ⟨axis, haxis, -⟩
    rw [← diffEdge_nil_iff, ← diffEdge_nil_iff]
    exact changes_ne_nil_of_mem_edgeAxes haxis

end

theorem reported_iff (base head draft : IndexedOntology) {c : FieldConflict}
    (hc : Occurs base.ir head.ir draft.ir c) :
    Reported base.ir head.ir draft.ir c ↔ Detectable base.ir head.ir draft.ir c := by
  cases c with
  | node id f => exact nodeReported_iff base.indexed head.indexed draft.indexed hc
  | edge id f => exact edgeReported_iff base.indexed head.indexed draft.indexed hc

/-- Every conflict between the three ontologies is reported, and a clean report
means that there is none. -/
structure DetectionComplete (base head draft : OntologyIR) : Prop where
  reported : ∀ c, Occurs base head draft c → Reported base head draft c
  clean : (analyzeRebase base head draft).isClean = true → ∀ c, ¬ Occurs base head draft c

theorem not_isClean_of_reported {base head draft : OntologyIR} {c : FieldConflict}
    (h : Reported base head draft c) : (analyzeRebase base head draft).isClean ≠ true := by
  rw [RebaseAnalysis.isClean, Ne, List.isEmpty_iff]
  cases c with
  | node id f | edge id f =>
    obtain ⟨x, hx, -⟩ := h
    exact ne_nil_of_mem hx

/-- `customer` with distinct keys, as a caller holds it. -/
def indexedCustomer (property : PropertyKey) : IndexedOntology where
  ir := customer property
  indexed := ((customer property).rebuild_ok_iff).1 rfl

end Ontosyx.Ontology
