import Ontosyx.Ontology.Rebase

/-!
# Which conflicts a rebase reports

A conflict is stated here without reference to the report: at one atomic field
of one node or edge type, base, head and draft hold three values of which the
last two differ from the first and from each other.  A missing entity or
property is a value of its own, so modify-against-remove and
add-against-different-add are conflicts of the same form.

`Detectable` is the exact condition under which `analyze_rebase` reports such a
conflict.  What it leaves out: a property's name, constraints, translations
under an unchanged default text, endpoints whose node types have the same label
on both sides, and properties that the two sides know under different names or
under a name that a later change of the same owner takes over.
-/

namespace Ontosyx.Ontology

open List Ontosyx.Core Lib.Keyed

/-- Two optional values differ: by `R` when both are there, and always when
exactly one is. -/
def Changed {α : Type} (R : α → α → Prop) : Option α → Option α → Prop
  | none, none => False
  | some a, some b => R a b
  | _, _ => True

/-- Head and draft both moved away from base, and to different values. -/
def ThreeWayConflict {α : Type} (R : α → α → Prop) (base head draft : Option α) : Prop :=
  Changed R base head ∧ Changed R base draft ∧ Changed R head draft

/-! ## Atomic fields -/

inductive PropertyField where
  | name
  | propertyType
  | nullability
  | defaultValue
  | description
  | translation (tag : LanguageTag)

/-- The field tells two properties apart. -/
def PropertyField.Differs : PropertyField → PropertyDef → PropertyDef → Prop
  | .name, p, q => p.name ≠ q.name
  | .propertyType, p, q => p.propertyType ≠ q.propertyType
  | .nullability, p, q => p.nullable ≠ q.nullable
  | .defaultValue, p, q => sameDefault p.defaultValue q.defaultValue = false
  | .description, p, q => p.description.default ≠ q.description.default
  | .translation tag, p, q =>
    p.description.translations.lookup tag ≠ q.description.translations.lookup tag

inductive NodeField where
  | label
  | description
  | translation (tag : LanguageTag)
  | constraint (id : ConstraintId)
  | property (id : PropertyId) (field : PropertyField)

/-- The field tells two node types apart. -/
def NodeField.Differs : NodeField → NodeTypeDef → NodeTypeDef → Prop
  | .label, n, m => n.label ≠ m.label
  | .description, n, m => n.description.default ≠ m.description.default
  | .translation tag, n, m =>
    n.description.translations.lookup tag ≠ m.description.translations.lookup tag
  | .constraint id, n, m =>
    (first (·.id) id n.constraints).map (·.constraint) ≠
      (first (·.id) id m.constraints).map (·.constraint)
  | .property id f, n, m =>
    Changed f.Differs (last (·.id) id n.properties) (last (·.id) id m.properties)

inductive EdgeField where
  | label
  | description
  | translation (tag : LanguageTag)
  | source
  | target
  | cardinality
  | property (id : PropertyId) (field : PropertyField)

/-- The field tells two edge types apart. -/
def EdgeField.Differs : EdgeField → EdgeTypeDef → EdgeTypeDef → Prop
  | .label, e, f => e.label ≠ f.label
  | .description, e, f => e.description.default ≠ f.description.default
  | .translation tag, e, f =>
    e.description.translations.lookup tag ≠ f.description.translations.lookup tag
  | .source, e, f => e.sourceNodeId ≠ f.sourceNodeId
  | .target, e, f => e.targetNodeId ≠ f.targetNodeId
  | .cardinality, e, f => e.cardinality ≠ f.cardinality
  | .property id g, e, f =>
    Changed g.Differs (last (·.id) id e.properties) (last (·.id) id f.properties)

inductive FieldConflict where
  | node (id : NodeTypeId) (field : NodeField)
  | edge (id : EdgeTypeId) (field : EdgeField)

/-- Head and draft change the field in incompatible ways. -/
def Occurs (base head draft : OntologyIR) : FieldConflict → Prop
  | .node id f =>
    ThreeWayConflict f.Differs (base.nodeById id) (head.nodeById id) (draft.nodeById id)
  | .edge id f =>
    ThreeWayConflict f.Differs (base.edgeById id) (head.edgeById id) (draft.edgeById id)

/-! ## What a report names -/

def PropertyConflictAxis.Covers : PropertyConflictAxis → PropertyField → Prop
  | .type .., .propertyType => True
  | .nullability .., .nullability => True
  | .description .., .description => True
  | .description .., .translation _ => True
  | .defaultValue .., .defaultValue => True
  | _, _ => False

/-- The axis reports on the field of the property called `name`. -/
def ConflictAxis.CoversProperty (name : String) (f : PropertyField) : ConflictAxis → Prop
  | .propertyOverlap n atoms => n = name ∧ ∃ a ∈ atoms, a.Covers f
  | .propertyModifyRemove n _ => n = name
  | .propertyAddAdd n => n = name
  | _ => False

/-- The name under which one side knows a property of an owner: its own name
for it, or the base's where the side has removed it. -/
def nameOn (base side : List PropertyDef) (id : PropertyId) : Option String :=
  ((last (·.id) id side).or (last (·.id) id base)).map (·.name.val)

/-- The axis reports on the field of a property that both sides know under one
name. -/
def ConflictAxis.CoversSharedProperty (base head draft : List PropertyDef) (id : PropertyId)
    (f : PropertyField) (axis : ConflictAxis) : Prop :=
  ∃ name, nameOn base head id = some name ∧ nameOn base draft id = some name ∧
    axis.CoversProperty name f

def ConflictAxis.CoversNode (base head draft : NodeTypeDef) : NodeField → ConflictAxis → Prop
  | .label, .label .. => True
  | .description, .description .. => True
  | .translation _, .description .. => True
  | .property id f, axis =>
    axis.CoversSharedProperty base.properties head.properties draft.properties id f
  | _, _ => False

def ConflictAxis.CoversEdge (base head draft : EdgeTypeDef) : EdgeField → ConflictAxis → Prop
  | .label, .label .. => True
  | .description, .description .. => True
  | .translation _, .description .. => True
  | .source, .source .. => True
  | .target, .target .. => True
  | .cardinality, .cardinality .. => True
  | .property id f, axis =>
    axis.CoversSharedProperty base.properties head.properties draft.properties id f
  | _, _ => False

/-- The conflict is about an entity: added on both sides, modified against
removed, or modified on both sides with an axis that `covers` the field. -/
def RebaseConflict.Names (kind : ConflictEntityKind) (id : String)
    (covers : ConflictAxis → Prop) : RebaseConflict → Prop
  | .addAdd k i _ => k = kind ∧ i = id
  | .modifyRemove k i _ _ => k = kind ∧ i = id
  | .modifyModify k i _ axes => k = kind ∧ i = id ∧ ∃ axis ∈ axes, covers axis

def ReportsEntity (kind : ConflictEntityKind) (id : String) (covers : ConflictAxis → Prop)
    (report : List RebaseConflict) : Prop := ∃ c ∈ report, c.Names kind id covers

def Reported (base head draft : OntologyIR) : FieldConflict → Prop
  | .node id f =>
    ReportsEntity .node id.val
      (fun axis => ∃ b h d, base.nodeById id = some b ∧ head.nodeById id = some h ∧
        draft.nodeById id = some d ∧ axis.CoversNode b h d f)
      (analyzeRebase base head draft).conflicts
  | .edge id f =>
    ReportsEntity .edge id.val
      (fun axis => ∃ b h d, base.edgeById id = some b ∧ head.edgeById id = some h ∧
        draft.edgeById id = some d ∧ axis.CoversEdge b h d f)
      (analyzeRebase base head draft).conflicts

/-! ## What can be detected -/

instance (p q : PropertyDef) : Decidable (AgreesButName p q) :=
  decidable_of_iff (p.propertyType = q.propertyType ∧ p.nullable = q.nullable ∧
      p.description = q.description ∧ sameDefault p.defaultValue q.defaultValue = true)
    ⟨fun ⟨ht, hn, hd, hv⟩ => ⟨ht, hn, hd, hv⟩, fun ⟨ht, hn, hd, hv⟩ => ⟨ht, hn, hd, hv⟩⟩

inductive PropertyEdit where
  | added
  | removed
  | modified (old new : PropertyDef)

/-- The edits of one side, under the names the side reports them by: additions,
then removals, then modifications of more than the name. -/
def propertyEdits (base side : List PropertyDef) : List (String × PropertyEdit) :=
  (unmatched (·.id) side (base.map (·.id))).map (fun p => (p.name.val, .added)) ++
  (unmatched (·.id) base (side.map (·.id))).map (fun p => (p.name.val, .removed)) ++
  ((matchedPairs (·.id) base side).filter fun p => ¬ AgreesButName p.1 p.2).map fun p =>
    (p.2.name.val, .modified p.1 p.2)

/-- Two modifications both change the field, visibly and to different values.
Names are never compared, and descriptions only by their default text. -/
def PropertyField.Overlaps (base head base' draft : PropertyDef) : PropertyField → Prop
  | .name => False
  | .propertyType => base.propertyType ≠ head.propertyType ∧
      base'.propertyType ≠ draft.propertyType ∧ head.propertyType ≠ draft.propertyType
  | .nullability => base.nullable ≠ head.nullable ∧ base'.nullable ≠ draft.nullable ∧
      head.nullable ≠ draft.nullable
  | .defaultValue => sameDefault base.defaultValue head.defaultValue = false ∧
      sameDefault base'.defaultValue draft.defaultValue = false ∧
      DebugText.same (head.defaultValue.map .mk) (draft.defaultValue.map .mk) = false
  | .description | .translation _ => base.description ≠ head.description ∧
      base'.description ≠ draft.description ∧
      head.description.default ≠ draft.description.default

/-- The edits of head and draft clash in the field. -/
def PropertyField.Clashes (f : PropertyField) : PropertyEdit → PropertyEdit → Prop
  | .added, .added => True
  | .removed, .modified .. => True
  | .modified .., .removed => True
  | .modified b h, .modified b' d => f.Overlaps b h b' d
  | _, _ => False

/-- Both sides know the property under one name, and the last edits they make
under that name clash in the field. -/
def PropertyDetectable (base head draft : List PropertyDef) (id : PropertyId)
    (f : PropertyField) : Prop :=
  ∃ name, nameOn base head id = some name ∧ nameOn base draft id = some name ∧
    ∃ x y, last (·.1) name (propertyEdits base head) = some x ∧
      last (·.1) name (propertyEdits base draft) = some y ∧ f.Clashes x.2 y.2

/-- The field of a node type present on all three sides is compared. -/
def NodeFieldDetectable (base head draft : NodeTypeDef) : NodeField → Prop
  | .label | .description => True
  | .translation _ => head.description.default ≠ draft.description.default
  | .constraint _ => False
  | .property id f => PropertyDetectable base.properties head.properties draft.properties id f

/-- The field of an edge type present on all three sides is compared. -/
def EdgeFieldDetectable (headOnt draftOnt : OntologyIR) (base head draft : EdgeTypeDef) :
    EdgeField → Prop
  | .label | .description | .cardinality => True
  | .translation _ => head.description.default ≠ draft.description.default
  | .source =>
    resolveNodeLabel headOnt head.sourceNodeId ≠ resolveNodeLabel draftOnt draft.sourceNodeId
  | .target =>
    resolveNodeLabel headOnt head.targetNodeId ≠ resolveNodeLabel draftOnt draft.targetNodeId
  | .property id f => PropertyDetectable base.properties head.properties draft.properties id f

/-- Add-against-add is always detected; modify-against-remove when the diff
sees the modification; and a field of an entity on all three sides when the
axes compare it. -/
def EntityDetectable {α : Type} (agrees : α → α → Prop) (field : α → α → α → Prop) :
    Option α → Option α → Option α → Prop
  | some b, some h, some d => field b h d
  | some b, some h, none => ¬ agrees b h
  | some b, none, some d => ¬ agrees b d
  | _, _, _ => True

/-- The condition for the report to name the conflict. -/
def Detectable (base head draft : OntologyIR) : FieldConflict → Prop
  | .node id f =>
    EntityDetectable (NodeAgrees AgreesButName) (fun b h d => NodeFieldDetectable b h d f)
      (base.nodeById id) (head.nodeById id) (draft.nodeById id)
  | .edge id f =>
    EntityDetectable (EdgeAgrees AgreesButName)
      (fun b h d => EdgeFieldDetectable head draft b h d f)
      (base.edgeById id) (head.edgeById id) (draft.edgeById id)

/-! ## Axes of single fields -/

variable {α : Type}

theorem mem_axisWhen {β : Type} {differ : α → α → Bool} {axis : α → α → β} {h d : Option α}
    {x : β} : x ∈ axisWhen differ axis h d ↔
      ∃ a b, h = some a ∧ d = some b ∧ differ a b = true ∧ x = axis a b := by
  cases h with
  | none => simp [axisWhen]
  | some a =>
    cases d with
    | none => simp [axisWhen]
    | some b =>
      cases hab : differ a b with
      | false => simp [axisWhen, hab]
      | true => simp [axisWhen, hab]

/-- An axis over two fields that are reported when they changed. -/
theorem exists_axisWhen_ite_iff {β : Type} {differ : α → α → Bool} {axis : α → α → β}
    {P Q : Prop} [Decidable P] [Decidable Q] {a b : α} {covers : β → Prop} :
    (∃ x ∈ axisWhen differ axis (if P then some a else none) (if Q then some b else none),
      covers x) ↔ P ∧ Q ∧ differ a b = true ∧ covers (axis a b) := by
  simp only [mem_axisWhen, Option.ite_none_right_eq_some, Option.some.injEq]
  constructor
  · rintro ⟨x, ⟨a', b', ⟨hp, rfl⟩, ⟨hq, rfl⟩, hdiff, rfl⟩, hx⟩
    exact ⟨hp, hq, hdiff, hx⟩
  · rintro ⟨hp, hq, hdiff, hx⟩
    exact ⟨_, ⟨a, b, ⟨hp, rfl⟩, ⟨hq, rfl⟩, hdiff, rfl⟩, hx⟩

theorem findSome?_ite {β : Type} {f : α → Option β} {P : Prop} [Decidable P] {x : α} :
    (if P then [x] else []).findSome? f = if P then f x else none := by
  split_ifs <;> simp

section

variable (p q : PropertyDef)

theorem findSome?_typeChanged :
    (diffSingleProperty p q).findSome? propertyTypeChanged =
      if p.propertyType ≠ q.propertyType then
        some (formatPropertyType p.propertyType, formatPropertyType q.propertyType)
      else none := by
  simp only [diffSingleProperty, findSome?_append, findSome?_ite, propertyTypeChanged,
    ite_self, Option.or_none]

theorem findSome?_nullabilityChanged :
    (diffSingleProperty p q).findSome? propertyNullabilityChanged =
      if p.nullable ≠ q.nullable then some (p.nullable, q.nullable) else none := by
  simp only [diffSingleProperty, findSome?_append, findSome?_ite, propertyNullabilityChanged,
    ite_self, Option.none_or, Option.or_none]

theorem findSome?_descriptionChanged :
    (diffSingleProperty p q).findSome? propertyDescriptionChanged =
      if p.description ≠ q.description then some q.description.default else none := by
  simp only [diffSingleProperty, findSome?_append, findSome?_ite, propertyDescriptionChanged,
    ite_self, Option.none_or, Option.or_none]

theorem findSome?_defaultChanged :
    (diffSingleProperty p q).findSome? propertyDefaultChanged =
      if sameDefault p.defaultValue q.defaultValue = false then
        some (q.defaultValue.map DebugText.mk)
      else none := by
  simp only [diffSingleProperty, findSome?_append, findSome?_ite, propertyDefaultChanged,
    ite_self, Option.none_or, Option.or_none, Bool.not_eq_true']

end

theorem exists_mem_append {P : α → Prop} {xs ys : List α} :
    (∃ x ∈ xs ++ ys, P x) ↔ (∃ x ∈ xs, P x) ∨ ∃ x ∈ ys, P x := by
  simp only [mem_append, or_and_right, exists_or]

/-- The atoms of two modifications of a property cover a field exactly when the
modifications overlap in it. -/
theorem exists_propertyModifyAtoms_iff (f : PropertyField) (b h b' d : PropertyDef) :
    (∃ a ∈ propertyModifyAtoms (diffSingleProperty b h) (diffSingleProperty b' d), a.Covers f) ↔
      f.Overlaps b h b' d := by
  simp only [propertyModifyAtoms, exists_mem_append, findSome?_typeChanged,
    findSome?_nullabilityChanged, findSome?_descriptionChanged,
    findSome?_defaultChanged, exists_axisWhen_ite_iff]
  cases f with
  | propertyType =>
    simp [PropertyConflictAxis.Covers, PropertyField.Overlaps,
      formatPropertyType_injective.eq_iff]
  | _ => simp [PropertyConflictAxis.Covers, PropertyField.Overlaps]

def PropertyEdit.toActivity : PropertyEdit → PropertyActivity
  | .added => .added
  | .removed => .removed
  | .modified old new => .modified (diffSingleProperty old new)

/-- The activity of a change of one property, under its name. -/
def PropDiffResult.toActivity : PropDiffResult → String × PropertyActivity
  | .added p => (p.name.val, .added)
  | .removed p => (p.name.val, .removed)
  | .modified name changes => (name.val, .modified changes)

theorem diffProperties_toActivity (ps qs : List PropertyDef) :
    (diffProperties ps qs).1.map PropDiffResult.toActivity =
      (propertyEdits ps qs).map fun e => (e.1, e.2.toActivity) := by
  simp only [diffProperties, propertyEdits, map_append, map_map, map_filterMap]
  congr 1
  rw [← filterMap_eq_map, filterMap_filter]
  refine filterMap_congr fun pq _ => ?_
  by_cases hpq : AgreesButName pq.1 pq.2
  · simp [hpq, diffSingle_nil_iff]
  · simp [hpq, diffSingle_nil_iff, PropDiffResult.toActivity, PropertyEdit.toActivity]

/-- The axes hold one for each name on which the two maps conflict. -/
theorem mem_propertyAxes {head draft : List (String × PropertyActivity)} {axis : ConflictAxis} :
    axis ∈ propertyAxes head draft ↔
      ∃ name h d, last (·.1) name head = some h ∧ last (·.1) name draft = some d ∧
        propertyConflictAxis name h.2 d.2 = some axis := by
  simp only [propertyAxes, mem_filterMap, mem_dedup]
  constructor
  · rintro ⟨name, -, haxis⟩
    split at haxis
    · rename_i h d hh hd
      exact ⟨name, h, d, hh, hd, haxis⟩
    · exact absurd haxis (by simp)
  · rintro ⟨name, h, d, hh, hd, haxis⟩
    refine ⟨name, (last_isSome_iff _).1 ⟨d, hd⟩, ?_⟩
    simpa only [hh, hd] using haxis

/-- The axis of two edits under a name covers exactly the fields in which they
clash, and only for that name. -/
theorem exists_propertyAxis_iff (f : PropertyField) (n name : String) (x y : PropertyEdit) :
    (∃ axis, propertyConflictAxis n x.toActivity y.toActivity = some axis ∧
      axis.CoversProperty name f) ↔ n = name ∧ f.Clashes x y := by
  cases x with
  | added | removed => cases y <;> simp [PropertyEdit.toActivity, propertyConflictAxis,
      ConflictAxis.CoversProperty, PropertyField.Clashes]
  | modified b h =>
    cases y with
    | added => simp [PropertyEdit.toActivity, propertyConflictAxis, PropertyField.Clashes]
    | removed => simp [PropertyEdit.toActivity, propertyConflictAxis,
        ConflictAxis.CoversProperty, PropertyField.Clashes]
    | modified b' d =>
      simp only [PropertyEdit.toActivity, propertyConflictAxis, PropertyField.Clashes,
        ← exists_propertyModifyAtoms_iff, Option.ite_none_left_eq_some, Option.some.injEq,
        List.isEmpty_iff]
      constructor
      · rintro ⟨axis, ⟨-, rfl⟩, hname, hatom⟩
        exact ⟨hname, hatom⟩
      · rintro ⟨hname, a, ha, hcov⟩
        exact ⟨_, ⟨ne_nil_of_mem ha, rfl⟩, hname, a, ha, hcov⟩

/-- The axes of an owner cover a field of the property called `name` exactly
when the last edits under that name clash in it. -/
theorem exists_propertyAxes_iff (f : PropertyField) (name : String)
    (base head draft : List PropertyDef) :
    (∃ axis ∈ propertyAxes ((diffProperties base head).1.map PropDiffResult.toActivity)
        ((diffProperties base draft).1.map PropDiffResult.toActivity), axis.CoversProperty name f) ↔
      ∃ x y, last (·.1) name (propertyEdits base head) = some x ∧
        last (·.1) name (propertyEdits base draft) = some y ∧ f.Clashes x.2 y.2 := by
  have hlast : ∀ (n : String) (es : List (String × PropertyEdit)),
      last (·.1) n (es.map fun e => (e.1, e.2.toActivity)) =
        (last (·.1) n es).map fun e => (e.1, e.2.toActivity) := by
    intro n es
    refine last_map _ ?_ n es
    exact fun _ => rfl
  simp only [diffProperties_toActivity, mem_propertyAxes, hlast, Option.map_eq_some_iff]
  constructor
  · rintro ⟨axis, ⟨n, -, -, ⟨x, hx, rfl⟩, ⟨y, hy, rfl⟩, haxis⟩, hcov⟩
    obtain ⟨rfl, hclash⟩ :=
      (exists_propertyAxis_iff f n name x.2 y.2).1 ⟨axis, haxis, hcov⟩
    exact ⟨x, y, hx, hy, hclash⟩
  · rintro ⟨x, y, hx, hy, hclash⟩
    obtain ⟨axis, haxis, hcov⟩ :=
      (exists_propertyAxis_iff f name name x.2 y.2).2 ⟨rfl, hclash⟩
    exact ⟨axis, ⟨name, _, _, ⟨x, hx, rfl⟩, ⟨y, hy, rfl⟩, haxis⟩, hcov⟩

/-- The axes of an owner report on a property field exactly when the property is
detectable in it. -/
theorem exists_covers_iff (f : PropertyField) (id : PropertyId)
    (base head draft : List PropertyDef) :
    (∃ axis ∈ propertyAxes ((diffProperties base head).1.map PropDiffResult.toActivity)
        ((diffProperties base draft).1.map PropDiffResult.toActivity),
      axis.CoversSharedProperty base head draft id f) ↔
      PropertyDetectable base head draft id f := by
  simp only [ConflictAxis.CoversSharedProperty, PropertyDetectable, ← exists_propertyAxes_iff]
  constructor
  · rintro ⟨axis, haxis, name, hh, hd, hcov⟩
    exact ⟨name, hh, hd, axis, haxis, hcov⟩
  · rintro ⟨name, hh, hd, axis, haxis, hcov⟩
    exact ⟨axis, haxis, name, hh, hd, hcov⟩

end Ontosyx.Ontology
