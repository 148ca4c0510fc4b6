import Ontosyx.Query.ConceptMap

/-!
# Scope and account of concept-map rewriting

The table of `build_translation_table_for_query` is keyed by variable and property
names for the whole query, and the walk leaves some expressions out.  This module
says of every place of a query when its literals are nevertheless accounted for.

## Main results

* `get_buildTable` — which concept map governs a name.
* `accountsForLiterals_iff` — when the literals of the mapped properties are translated
  or listed, and no others changed.
-/

namespace Ontosyx.Ontology

open Ontosyx.Core

/-- The concept maps of the properties of this name on the node type of a label. -/
def OntologyIR.mapsAt (o : OntologyIR) (label : GraphLabel) (p : PropertyKey) :
    List ConceptMapDef :=
  match o.nodeByLabel label with
  | none => []
  | some n => (n.properties.filter (·.name = p)).flatMap (o.conceptMapsOf n)

end Ontosyx.Ontology

namespace Ontosyx.Query

open Ontosyx.Core Ontology Lib.Keyed

/-- The concept maps that the labelled patterns of a query bring in for a variable
and a property name. -/
def QueryIR.mapsFor (o : OntologyIR) (q : QueryIR) (v : VariableName) (p : PropertyKey) :
    List ConceptMapDef :=
  (q.operation.matchPatterns.filter (·.1 = v)).flatMap fun x => o.mapsAt x.2 p

/-- The last of them governs the name, in every scope. -/
def QueryIR.governing (o : OntologyIR) (q : QueryIR) (v : VariableName) (p : PropertyKey) :
    Option ConceptMapDef :=
  (q.mapsFor o v p).getLast?

theorem propertyEntries_filter (maps : PropertyDef → List ConceptMapDef) (v w : VariableName)
    (p : PropertyKey) (ps : List PropertyDef) :
    ((ps.flatMap fun d => (maps d).map fun cm =>
      ((v, d.name), (cm, ({} : TranslationPolicy)))).filter
        fun e => e.1 = (w, p)).map Prod.snd =
      if v = w then ((ps.filter (·.name = p)).flatMap maps).map fun cm => (cm, {}) else [] := by
  induction ps with
  | nil => simp
  | cons x xs ih =>
    rw [List.flatMap_cons, List.filter_append, List.map_append, ih]
    by_cases hv : v = w
    · by_cases hx : x.name = p <;> simp [hv, hx, List.filter_map, Function.comp_def]
    · simp [hv, List.filter_map, Function.comp_def]

theorem patternEntries_filter (o : OntologyIR) (v w : VariableName) (label : GraphLabel)
    (p : PropertyKey) :
    ((patternEntries o v label).filter fun e => e.1 = (w, p)).map Prod.snd =
      if v = w then (o.mapsAt label p).map fun cm => (cm, {}) else [] := by
  simp only [patternEntries, OntologyIR.mapsAt]
  cases o.nodeByLabel label with
  | none => simp
  | some n => exact propertyEntries_filter (o.conceptMapsOf n) v w p n.properties

theorem conceptMapsOf_of_isEmpty {o : OntologyIR} (h : o.conceptMaps.isEmpty) (n : NodeTypeDef)
    (p : PropertyDef) : o.conceptMapsOf n p = [] := by
  have hnil : o.conceptMaps = [] := List.isEmpty_iff.1 h
  simp only [OntologyIR.conceptMapsOf, hnil]
  cases o.explicitConceptMapId n p with
  | some id => rfl
  | none =>
    cases p.valueSetId.bind fun id => first ValueSetDef.id id o.valueSets <;> rfl

theorem mapsFor_of_isEmpty {o : OntologyIR} (h : o.conceptMaps.isEmpty) (q : QueryIR)
    (v : VariableName) (p : PropertyKey) : q.mapsFor o v p = [] := by
  rw [QueryIR.mapsFor, List.flatMap_eq_nil_iff]
  intro x _
  rw [OntologyIR.mapsAt]
  cases o.nodeByLabel x.2 with
  | none => rfl
  | some n => exact List.flatMap_eq_nil_iff.2 fun d _ => conceptMapsOf_of_isEmpty h n d

theorem get_buildTable (o : OntologyIR) (q : QueryIR) (v : VariableName)
    (p : PropertyKey) : tableGet (buildTranslationTableForQuery q o) (v, p) =
      (q.governing o v p).map fun cm => (cm, {}) := by
  rw [buildTranslationTableForQuery, QueryIR.governing]
  by_cases h : o.conceptMaps.isEmpty
  · rw [if_pos h, mapsFor_of_isEmpty h]
    rfl
  · rw [if_neg h, get_eq_getLast?, ← List.getLast?_map]
    congr 1
    rw [QueryIR.mapsFor]
    induction q.operation.matchPatterns with
    | nil => rfl
    | cons x xs ih =>
      rw [List.flatMap_cons, List.filter_append, List.map_append, ih, patternEntries_filter]
      by_cases hx : x.1 = v <;> simp [hx]

/-! ## What is owed to a place -/

/-- The concept maps of a property of a type; only node types have any. -/
def ownMaps (o : OntologyIR) (b : Option Binding) (p : PropertyKey) : List ConceptMapDef :=
  match b with
  | some (.node label) => o.mapsAt label p
  | _ => []

def IsTyped (o : OntologyIR) : Option Binding → Prop
  | some (.node label) => ∃ n, o.nodeByLabel label = some n
  | some (.edge label) => ∃ e ∈ o.edgeTypes, e.label = label
  | none => False

/-- The values that a place sets against a property. -/
def Mention.values? : Mention → Option (Owner × PropertyKey × List PropertyValue)
  | .literal owner p code => some (owner, p, [.string code])
  | .members owner p values => some (owner, p, values)
  | _ => none

/-- An admitted translation of a code by one of the maps. -/
def IsTranslation (maps : List ConceptMapDef) (code code' : String) : Prop :=
  ∃ cm ∈ maps, ∃ t ∈ translate cm code {}, t.targetCode = code'

/-- What may become of one value: a code is translated, or stays and is listed. -/
def Accounted (maps : List ConceptMapDef) (listed : String → Prop) (value : PropertyValue)
    (part : List PropertyValue) : Prop :=
  match value with
  | .string code =>
    (part ≠ [] ∧ ∀ x ∈ part, ∃ code', IsTranslation maps code code' ∧ x = .string code') ∨
      part = [.string code] ∧ listed code
  | value => part = [value]

/-- The new values come from the old ones, each accounted for, in their order. -/
def AllAccounted (maps : List ConceptMapDef) (listed : String → Prop)
    (values values' : List PropertyValue) : Prop :=
  ∃ parts, values' = parts.flatten ∧ List.Forall₂ (Accounted maps listed) values parts

/-- The report lists a code as untranslated for a variable and a property. -/
def RewriteReport.Lists (r : RewriteReport) (owner : Owner) (p : PropertyKey) (code : String) :
    Prop :=
  ∃ u ∈ r.untranslated,
    (∃ v, owner.varName = some v ∧ u.var = v.val) ∧ u.property = p.val ∧ u.value = code

/-- The rewritten place accounts for the literals of the place: against a mapped
property each is translated or listed, and against a property that is not mapped
none changes. -/
def AccountsAt (o : OntologyIR) (r : RewriteReport) (x x' : Site) : Prop :=
  ∀ owner p values, x.mention.values? = some (owner, p, values) →
    ∃ owner' values', x'.mention.values? = some (owner', p, values') ∧
      (ownMaps o (owner.binding x.scope) p ≠ [] →
        AllAccounted (ownMaps o (owner.binding x.scope) p) (r.Lists owner p) values values') ∧
      (IsTyped o (owner.binding x.scope) → ownMaps o (owner.binding x.scope) p = [] →
        values' = values)

/-- Concept-map rewriting accounts for the literals of a query, place by place. -/
def AccountsForLiterals (o : OntologyIR) (q : QueryIR) : Prop :=
  List.Forall₂
    (AccountsAt o (rewriteConceptMapValues q (buildTranslationTableForQuery q o)).2)
    (q.sites everywhere true [])
    ((rewriteConceptMapValues q (buildTranslationTableForQuery q o)).1.sites everywhere true [])

/-- The map that the walk applies at a place, if it comes there at all. -/
def Site.governing (o : OntologyIR) (q : QueryIR) (x : Site) (owner : Owner) (p : PropertyKey) :
    Option ConceptMapDef :=
  if x.walked then owner.varName.bind fun v => q.governing o v p else none

/-- The values of a place by a map: the first translation of a single literal, all
translations of the codes of a list. -/
def Mention.translatedBy (cm : ConceptMapDef) : Mention → List PropertyValue
  | .literal _ _ code => [.string (translatedCode cm {} code)]
  | .members _ _ values => values.flatMap (translatedMember cm {})
  | _ => []

/-- Some walked place sets the code against the name, and the governing map has no
translation of it. -/
def QueryIR.Lists (o : OntologyIR) (q : QueryIR) (v : VariableName) (p : PropertyKey)
    (code : String) : Prop :=
  ∃ cm, q.governing o v p = some cm ∧ translate cm code {} = [] ∧
    ∃ y ∈ q.sites conceptMapWalks true [], y.walked ∧ ∃ owner values,
      y.mention.values? = some (owner, p, values) ∧ owner.varName = some v ∧
        .string code ∈ values

/-- The governing map treats a place as the type bound there asks.  Where no map
governs, the codes of a mapped property must translate to themselves or be listed
for another place; where one does, it must do for a mapped property what the maps of
the property may do, and nothing for one that is not mapped. -/
def Site.Settled (o : OntologyIR) (q : QueryIR) (x : Site) : Prop :=
  ∀ owner p values, x.mention.values? = some (owner, p, values) →
    match x.governing o q owner p with
    | none =>
      ownMaps o (owner.binding x.scope) p ≠ [] → ∀ code, .string code ∈ values →
        IsTranslation (ownMaps o (owner.binding x.scope) p) code code ∨
          ∃ v, owner.varName = some v ∧ q.Lists o v p code
    | some cm =>
      (ownMaps o (owner.binding x.scope) p ≠ [] →
        AllAccounted (ownMaps o (owner.binding x.scope) p) (fun code => translate cm code {} = [])
          values (x.mention.translatedBy cm)) ∧
      (IsTyped o (owner.binding x.scope) → ownMaps o (owner.binding x.scope) p = [] →
        x.mention.translatedBy cm = values)

variable {values : List PropertyValue} {maps : List ConceptMapDef} {listed : String → Prop}
  {p : PropertyKey} {owner : Owner} {code : String} {x : Site}

theorem Accounted.ne_nil {value : PropertyValue} {part : List PropertyValue}
    (h : Accounted maps listed value part) : part ≠ [] := by
  cases value with
  | string code =>
    rcases h with h | h
    · exact h.1
    · rw [h.1]
      exact List.cons_ne_nil _ _
  | _ =>
    rw [show part = [_] from h]
    exact List.cons_ne_nil _ _

theorem length_le_of_accounted {parts : List (List PropertyValue)}
    (h : List.Forall₂ (Accounted maps listed) values parts) :
    values.length ≤ parts.flatten.length := by
  induction h with
  | nil => exact Nat.le_refl _
  | @cons value part values parts hv _ ih =>
    have hpos : 0 < part.length := List.length_pos_iff.2 hv.ne_nil
    rw [List.length_cons, List.flatten_cons, List.length_append]
    omega

/-- When the values stay as they are, each of them is its own part. -/
theorem accounted_self {parts : List (List PropertyValue)}
    (h : List.Forall₂ (Accounted maps listed) values parts) (heq : values = parts.flatten) :
    ∀ value ∈ values, Accounted maps listed value [value] := by
  induction h with
  | nil =>
    intro value hv
    cases hv
  | @cons value part values parts hv hrest ih =>
    rw [List.flatten_cons] at heq
    cases part with
    | nil => exact absurd rfl hv.ne_nil
    | cons y ys =>
      rw [List.cons_append, List.cons.injEq] at heq
      have hlen := congrArg List.length heq.2
      have hle := length_le_of_accounted hrest
      rw [List.length_append] at hlen
      have hys : ys = [] := List.length_eq_zero_iff.1 (by omega)
      rw [hys, List.nil_append] at heq
      rw [hys, ← heq.1] at hv
      intro value' hv'
      rcases List.mem_cons.1 hv' with h | h
      · rw [h]
        exact hv
      · exact ih heq.2 value' h

theorem accounted_string_self : Accounted maps listed (.string code) [.string code] ↔
      IsTranslation maps code code ∨ listed code := by
  constructor
  · intro h
    rcases h with ⟨-, h⟩ | ⟨-, h⟩
    · obtain ⟨code', ht, hc⟩ := h _ (List.mem_singleton_self _)
      cases hc
      exact Or.inl ht
    · exact Or.inr h
  · intro h
    rcases h with h | h
    · left
      refine ⟨List.cons_ne_nil _ _, fun x hx => ⟨code, h, ?_⟩⟩
      exact List.mem_singleton.1 hx
    · exact Or.inr ⟨rfl, h⟩

theorem allAccounted_self_iff : AllAccounted maps listed values values ↔
      ∀ code, .string code ∈ values → IsTranslation maps code code ∨ listed code := by
  constructor
  · intro h code hc
    obtain ⟨parts, heq, h⟩ := h
    exact accounted_string_self.1 (accounted_self h heq _ hc)
  · intro h
    have hflat : values = (values.map fun value => [value]).flatten := by
      rw [← List.flatMap_def, List.flatMap_singleton']
    refine ⟨_, hflat, ?_⟩
    rw [List.forall₂_map_right_iff, List.forall₂_same]
    intro value hv
    cases value with
    | string code => exact accounted_string_self.2 (h code hv)
    | _ => rfl

theorem AllAccounted.mono {listed' : String → Prop} {values' : List PropertyValue}
    (h : AllAccounted maps listed values values')
    (hl : ∀ code, .string code ∈ values → listed code → listed' code) :
    AllAccounted maps listed' values values' := by
  obtain ⟨parts, heq, h⟩ := h
  refine ⟨parts, heq, ?_⟩
  clear heq
  induction h with
  | nil => exact .nil
  | @cons value part values parts hv _ ih =>
    apply List.Forall₂.cons
    · cases value with
      | string code =>
        exact hv.imp_right fun hc => ⟨hc.1, hl code List.mem_cons_self hc.2⟩
      | _ => exact hv
    · exact ih fun code hc => hl code (List.mem_cons_of_mem _ hc)

/-! ## Places of the rewritten query -/

section

variable {o : OntologyIR} {q : QueryIR}

theorem ownerEntry_buildTable (owner : Owner) (p : PropertyKey) :
    ownerEntry (buildTranslationTableForQuery q o) owner p =
      (owner.varName.bind fun v => q.governing o v p).map fun cm => (cm, {}) := by
  rw [ownerEntry]
  cases owner.varName with
  | none => rfl
  | some v => exact get_buildTable o q v p

theorem conceptMapHooks_literal (table : TranslationTable) (owner : Owner) (p : PropertyKey)
    (code : String) :
    (conceptMapHooks table).literal owner p code =
      match ownerEntry table owner p with
      | some (cm, policy) => translatedCode cm policy code
      | none => code := rfl

theorem conceptMapHooks_members (table : TranslationTable) (owner : Owner) (p : PropertyKey)
    (values : List PropertyValue) :
    (conceptMapHooks table).members owner p values =
      match ownerEntry table owner p with
      | some (cm, policy) => values.flatMap (translatedMember cm policy)
      | none => values := rfl

theorem values?_rewritten (hx : x.mention.values? = some (owner, p, values)) :
    ((conceptMapHooks (buildTranslationTableForQuery q o)).site conceptMapWalks x).mention.values? =
      some ((conceptMapHooks (buildTranslationTableForQuery q o)).owner owner, p,
        match x.governing o q owner p with
        | none => values
        | some cm => x.mention.translatedBy cm) := by
  obtain ⟨w, s, m⟩ := x
  cases m with
  | literal owner' p' code =>
    cases hx
    simp only [Hooks.site, Hooks.mention, conceptMapHooks_key, id_eq, Mention.values?,
      conceptMapHooks_literal, ownerEntry_buildTable, Site.governing]
    cases w with
    | false => rfl
    | true =>
      simp only [if_true]
      cases owner.varName.bind fun v => q.governing o v p <;> rfl
  | members owner' p' values' =>
    cases hx
    simp only [Hooks.site, Hooks.mention, conceptMapHooks_key, id_eq, Mention.values?,
      conceptMapHooks_members, ownerEntry_buildTable, Site.governing]
    cases w with
    | false => rfl
    | true =>
      simp only [if_true]
      cases owner.varName.bind fun v => q.governing o v p <;> rfl
  | _ => cases hx

theorem mem_stringCodes : code ∈ stringCodes values ↔ .string code ∈ values := by
  rw [stringCodes, List.mem_filterMap]
  constructor
  · intro h
    obtain ⟨value, hv, hc⟩ := h
    cases value with
    | string c =>
      cases hc
      exact hv
    | _ => cases hc
  · intro h
    exact ⟨_, h, rfl⟩

theorem mem_untranslatedCodes {codes : List String} {u : UntranslatedLiteral} :
    u ∈ untranslatedCodes (buildTranslationTableForQuery q o) owner p codes ↔
      ∃ v cm code, owner.varName = some v ∧ q.governing o v p = some cm ∧ code ∈ codes ∧
        translate cm code {} = [] ∧ u = ⟨v.val, p.val, code, cm.name⟩ := by
  rw [untranslatedCodes, ownerEntry_buildTable]
  cases owner.varName with
  | none => simp
  | some v =>
    rw [Option.bind_some]
    cases hg : q.governing o v p with
    | none =>
      simp only [Option.map_none, List.not_mem_nil, false_iff]
      intro h
      obtain ⟨v', cm, code, hv, hcm, -⟩ := h
      cases hv
      rw [hg] at hcm
      cases hcm
    | some cm =>
      simp only [Option.map_some, List.mem_map, List.mem_filter, decide_eq_true_eq]
      constructor
      · intro h
        obtain ⟨code, ⟨hc, ht⟩, hu⟩ := h
        exact ⟨v, cm, code, rfl, hg, hc, ht, hu.symm⟩
      · intro h
        obtain ⟨v', cm', code, hv, hcm, hc, ht, hu⟩ := h
        cases hv
        rw [hg] at hcm
        cases hcm
        exact ⟨code, ⟨hc, ht⟩, hu.symm⟩

/-- What a place contributes to the report. -/
theorem mem_site_untranslated {y : Site} {u : UntranslatedLiteral} :
    u ∈ y.untranslated (buildTranslationTableForQuery q o) ↔
      y.walked ∧ ∃ owner p values, y.mention.values? = some (owner, p, values) ∧
        u ∈ untranslatedCodes (buildTranslationTableForQuery q o) owner p (stringCodes values) := by
  obtain ⟨w, s, m⟩ := y
  cases w with
  | false => simp [Site.untranslated]
  | true =>
    cases m with
    | literal owner p code | members owner p values =>
      constructor
      · intro h
        exact ⟨rfl, owner, p, _, rfl, h⟩
      · intro h
        obtain ⟨-, owner', p', values, hv, h⟩ := h
        cases hv
        exact h
    | _ => simp [Site.untranslated, Mention.values?]

theorem lists_iff :
    (rewriteConceptMapValues q (buildTranslationTableForQuery q o)).2.Lists owner p code ↔
      ∃ v, owner.varName = some v ∧ q.Lists o v p code := by
  constructor
  · intro h
    obtain ⟨u, hu, ⟨v, hv, huv⟩, hup, huc⟩ := h
    rw [mem_untranslated_rewrite] at hu
    obtain ⟨y, hy, hu⟩ := hu
    obtain ⟨hw, owner', p', values, hvals, hu⟩ := mem_site_untranslated.1 hu
    obtain ⟨v', cm, code', hv', hcm, hc, ht, hu⟩ := mem_untranslatedCodes.1 hu
    subst hu
    have hvv : v = v' := congrArg VariableName.mk huv.symm
    have hpp : p = p' := PropertyKey.ext hup.symm
    have hcc : code = code' := huc.symm
    subst hvv hpp hcc
    exact ⟨v, hv, cm, hcm, ht, y, hy, hw, owner', values, hvals, hv', mem_stringCodes.1 hc⟩
  · intro h
    obtain ⟨v, hv, cm, hcm, ht, y, hy, hw, owner', values, hvals, hv', hc⟩ := h
    refine ⟨⟨v.val, p.val, code, cm.name⟩, ?_, ⟨v, hv, rfl⟩, rfl, rfl⟩
    rw [mem_untranslated_rewrite]
    refine ⟨y, hy, mem_site_untranslated.2 ⟨hw, owner', p, values, hvals, ?_⟩⟩
    exact mem_untranslatedCodes.2 ⟨v, cm, code, hv', hcm, mem_stringCodes.2 hc, ht, rfl⟩

theorem values?_default (hx : x.mention.values? = some (owner, p, values)) :
    (Hooks.site {} conceptMapWalks x).mention.values? = some (Hooks.owner {} owner, p, values) := by
  obtain ⟨w, s, m⟩ := x
  cases m with
  | literal owner' p' code | members owner' p' values' =>
    cases hx
    cases w <;> rfl
  | _ => cases hx

theorem values?_of_default
    (hx : (Hooks.site {} conceptMapWalks x).mention.values? = some (owner, p, values)) :
    ∃ owner₀, x.mention.values? = some (owner₀, p, values) ∧ owner = Hooks.owner {} owner₀ := by
  obtain ⟨w, s, m⟩ := x
  cases m with
  | literal owner' p' code =>
    rw [@values?_default _ p' owner' ⟨w, s, .literal owner' p' code⟩ rfl] at hx
    cases hx
    exact ⟨owner', rfl, rfl⟩
  | members owner' p' values' =>
    rw [@values?_default _ p' owner' ⟨w, s, .members owner' p' values'⟩ rfl] at hx
    cases hx
    exact ⟨owner', rfl, rfl⟩
  | _ => cases hx

theorem Owner.varName_owner (h : Hooks) (owner : Owner) :
    (h.owner owner).varName = owner.varName := by
  cases owner <;> rfl

/-- The report lists a code of a walked place when the governing map has no
translation of it. -/
theorem lists_governed (hx : x ∈ q.sites conceptMapWalks true [])
    (hv : x.mention.values? = some (owner, p, values)) {cm : ConceptMapDef}
    (hg : x.governing o q owner p = some cm) (hc : .string code ∈ values) :
    (rewriteConceptMapValues q (buildTranslationTableForQuery q o)).2.Lists owner p code ↔
      translate cm code {} = [] := by
  rw [lists_iff]
  rw [Site.governing] at hg
  by_cases hw : x.walked
  · rw [if_pos hw, Option.bind_eq_some_iff] at hg
    obtain ⟨v, hov, hg⟩ := hg
    constructor
    · intro h
      obtain ⟨v', hv', cm', hg', ht, -⟩ := h
      rw [hov] at hv'
      cases hv'
      rw [hg] at hg'
      cases hg'
      exact ht
    · intro ht
      exact ⟨v, hov, cm, hg, ht, x, hx, hw, owner, values, hv, hov, hc⟩
  · rw [if_neg hw] at hg
    cases hg

/-- The demand on a place and its rewritten place. -/
theorem accountsAt_iff (hx : x ∈ q.sites conceptMapWalks true []) :
    AccountsAt o (rewriteConceptMapValues q (buildTranslationTableForQuery q o)).2
        (Hooks.site {} conceptMapWalks x)
        ((conceptMapHooks (buildTranslationTableForQuery q o)).site conceptMapWalks x) ↔
      x.Settled o q := by
  have hscope : (Hooks.site {} conceptMapWalks x).scope = Hooks.scope {} x.scope := rfl
  -- the demand, for the values of the place and those of the rewritten place
  have hdemand : ∀ owner p values, x.mention.values? = some (owner, p, values) →
      ((ownMaps o (owner.binding x.scope) p ≠ [] →
          AllAccounted (ownMaps o (owner.binding x.scope) p)
            ((rewriteConceptMapValues q (buildTranslationTableForQuery q o)).2.Lists owner p)
            values (match x.governing o q owner p with
              | none => values
              | some cm => x.mention.translatedBy cm)) ∧
        (IsTyped o (owner.binding x.scope) → ownMaps o (owner.binding x.scope) p = [] →
          (match x.governing o q owner p with
            | none => values
            | some cm => x.mention.translatedBy cm) = values) ↔
      match x.governing o q owner p with
      | none =>
        ownMaps o (owner.binding x.scope) p ≠ [] → ∀ code, .string code ∈ values →
          IsTranslation (ownMaps o (owner.binding x.scope) p) code code ∨
            ∃ v, owner.varName = some v ∧ q.Lists o v p code
      | some cm =>
        (ownMaps o (owner.binding x.scope) p ≠ [] →
          AllAccounted (ownMaps o (owner.binding x.scope) p)
            (fun code => translate cm code {} = []) values (x.mention.translatedBy cm)) ∧
        (IsTyped o (owner.binding x.scope) → ownMaps o (owner.binding x.scope) p = [] →
          x.mention.translatedBy cm = values)) := by
    intro owner p values hv
    cases hg : x.governing o q owner p with
    | none =>
      simp only [allAccounted_self_iff, lists_iff, implies_true, and_true]
    | some cm =>
      have hl := fun code => @lists_governed values p owner code x o q hx hv cm hg
      apply and_congr_left
      intro _
      apply imp_congr_right
      intro _
      constructor
      · intro h
        exact h.mono fun code hc => (hl code hc).1
      · intro h
        exact h.mono fun code hc => (hl code hc).2
  constructor
  · intro h owner p values hv
    obtain ⟨owner', values', hv', hmapped, hfree⟩ := h _ p values (values?_default hv)
    rw [values?_rewritten hv, Option.some.injEq, Prod.mk.injEq, Prod.mk.injEq] at hv'
    obtain ⟨-, -, hval⟩ := hv'
    rw [hscope, Owner.binding_default] at hmapped hfree
    rw [← hval] at hmapped hfree
    refine (hdemand owner p values hv).1 ⟨fun hm => ?_, hfree⟩
    refine (hmapped hm).mono fun code _ hl => ?_
    rw [lists_iff] at hl ⊢
    rw [Owner.varName_owner] at hl
    exact hl
  · intro h owner p values hv
    obtain ⟨owner₀, hv₀, rfl⟩ := values?_of_default hv
    obtain ⟨hmapped, hfree⟩ := (hdemand owner₀ p values hv₀).2 (h owner₀ p values hv₀)
    refine ⟨_, _, values?_rewritten hv₀, ?_, ?_⟩
    · rw [hscope, Owner.binding_default]
      intro hm
      refine (hmapped hm).mono fun code _ hl => ?_
      rw [lists_iff] at hl ⊢
      rw [Owner.varName_owner]
      exact hl
    · rw [hscope, Owner.binding_default]
      exact hfree

theorem accountsForLiterals_iff_places : AccountsForLiterals o q ↔
      ∀ x ∈ q.sites conceptMapWalks true [],
        AccountsAt o (rewriteConceptMapValues q (buildTranslationTableForQuery q o)).2
          (Hooks.site {} conceptMapWalks x)
          ((conceptMapHooks (buildTranslationTableForQuery q o)).site conceptMapWalks x) := by
  have hsites : ((rewriteConceptMapValues q (buildTranslationTableForQuery q o)).1.sites
      everywhere true []) = (q.sites conceptMapWalks true []).map
        ((conceptMapHooks (buildTranslationTableForQuery q o)).site conceptMapWalks) := by
    rw [rewriteValues_eq_rewrite]
    exact QueryIR.sites_rewrite _ true [] q
  rw [AccountsForLiterals, hsites, q.sites_everywhere conceptMapWalks, List.forall₂_map_left_iff,
    List.forall₂_map_right_iff, List.forall₂_same]

end

/-- Every literal set against a mapped property is translated or listed, and no
literal set against a property that is not mapped changes, exactly when every place
of the query is settled. -/
theorem accountsForLiterals_iff (o : OntologyIR) (q : QueryIR) :
    AccountsForLiterals o q ↔ ∀ x ∈ q.sites conceptMapWalks true [], x.Settled o q := by
  rw [accountsForLiterals_iff_places]
  exact forall₂_congr fun x hx => accountsAt_iff hx

/-- Patients whose code is bound to a value set with a concept map. -/
def codedPatients : OntologyIR where
  id := "o"
  name := "o"
  nodeTypes :=
    [{ id := ⟨"patient"⟩
       label := ⟨"Patient", by decide⟩
       properties :=
        [{ id := ⟨"code"⟩
           name := ⟨"code", .refl true⟩
           propertyType := .string
           bindings := [.valueSet ⟨"vs"⟩ .required (some ⟨"cm"⟩) none none] }] }]
  conceptMaps :=
    [{ id := ⟨"cm"⟩
       name := "recode"
       sourceSystemId := ⟨"old"⟩
       targetSystemId := ⟨"new"⟩
       mappings := [⟨"A001", "NEWA001", .equivalent⟩] }]

/-- `MATCH (p:Patient) WHERE CASE WHEN p.code = 'A001' THEN true END`. -/
def caseOfCode : QueryIR where
  operation := .match_ [.node ⟨"p"⟩ (some ⟨"Patient", by decide⟩) []]
    (some (.case_ none
      [⟨.comparison (.property ⟨"p"⟩ (some ⟨"code", .refl true⟩)) .eq (.literal (.string "A001")),
        .literal (.bool true)⟩] none)) [] false []
  limit := none
  skip := none
  orderBy := []
  asOf := none

/-- The code inside the `CASE` is neither translated nor listed. -/
theorem case_code_not_accounted : ¬AccountsForLiterals codedPatients caseOfCode := by
  intro h
  rw [accountsForLiterals_iff_places] at h
  let x : Site := ⟨false, [(⟨"p"⟩, ⟨.node ⟨"Patient", by decide⟩, true⟩)],
    .literal (.var ⟨"p"⟩) ⟨"code", by decide⟩ "A001"⟩
  have hx : x ∈ caseOfCode.sites conceptMapWalks true [] :=
    List.mem_cons_of_mem _ (List.mem_cons_of_mem _ List.mem_cons_self)
  have hsettled := (accountsAt_iff hx).1 (h x hx) _ _ _ rfl
  have hmaps : ownMaps codedPatients (Owner.binding x.scope (.var ⟨"p"⟩))
      ⟨"code", by decide⟩ = codedPatients.conceptMaps := rfl
  have hcode := hsettled (by rw [hmaps]; exact List.cons_ne_nil _ _) "A001"
    (List.mem_singleton_self _)
  rw [hmaps] at hcode
  rcases hcode with ⟨cm, hcm, t, ht, heq⟩ | ⟨v, hv, cm, hcm, ht, -⟩
  · rw [List.mem_singleton.1 hcm] at ht
    rw [List.mem_singleton.1 ht] at heq
    exact absurd heq (by decide)
  · cases hv
    cases hcm
    cases ht

end Ontosyx.Query
