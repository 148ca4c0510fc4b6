import Ontosyx.Query.Temporal

/-!
# Concept-map rewriting

The pass that translates code literals from an old vocabulary to a new one
(`concept_map.rs`, `concept_map_rewrite.rs`): the translation table, assembled
from the node patterns of the query and the concept maps of the ontology, and the
walk that rewrites the literals set against a property of the table and reports
what it did.

## Main results

* `rewriteValues_eq_rewrite` — the walk is the pass that rewrites the
  literals at the places it walks.
* `mem_untranslated_rewrite` — what the report lists as
  untranslated.
-/

namespace Ontosyx.Ontology

open Ontosyx.Core Lib.Keyed

structure Translation where
  sourceCode : String
  targetCode : String
  equivalence : Equivalence
deriving DecidableEq

namespace ConceptMapDef

/-- `translate`: every entry of the code, in the order of the map. -/
def translate (cm : ConceptMapDef) (code : String) : List Translation :=
  (cm.mappings.filter (·.sourceCode = code)).map fun m =>
    ⟨m.sourceCode, m.targetCode, m.equivalence⟩

/-- `translate_reverse`: only equivalent entries can be read backwards. -/
def translateReverse (cm : ConceptMapDef) (code : String) : List Translation :=
  (cm.mappings.filter fun m => m.targetCode = code ∧ m.equivalence = .equivalent).map fun m =>
    ⟨m.targetCode, m.sourceCode, m.equivalence⟩

end ConceptMapDef

def BindingStrength.priority : BindingStrength → Nat
  | .required => 4
  | .preferred => 3
  | .extensible => 2
  | .example_ => 1

/-- `canonical_binding`: the strongest binding of a kind, the first one on a tie. -/
def PropertyDef.canonicalBinding (p : PropertyDef) (ofKind : PropertyBinding → Bool) :
    Option PropertyBinding :=
  match p.bindings.filter ofKind with
  | [] => none
  | b :: bs =>
    some (bs.foldl (fun best current =>
        if current.strength.priority > best.strength.priority then current else best) b)

def PropertyDef.valueSetBinding (p : PropertyDef) : Option PropertyBinding :=
  p.canonicalBinding fun b =>
    match b with
    | .valueSet _ _ _ _ _ => true
    | _ => false

def PropertyDef.valueSetId (p : PropertyDef) : Option ValueSetId :=
  p.valueSetBinding.bind fun b =>
    match b with
    | .valueSet id _ _ _ _ => some id
    | _ => none

/-- The concept map that the author of a property or of its mapping names. -/
def OntologyIR.explicitConceptMapId (o : OntologyIR) (n : NodeTypeDef) (p : PropertyDef) :
    Option ConceptMapId :=
  (p.valueSetBinding.bind (·.conceptMapId)).or
    (((o.objectMappings.filter (·.nodeTypeId = n.id)).flatMap (·.propertyMappings)).find?
      (·.propertyId = p.id) |>.bind (·.conceptMapId))

/-- The concept maps of a property, in the order in which the table takes them: the
named one, or else those whose source system is part of the property's value set. -/
def OntologyIR.conceptMapsOf (o : OntologyIR) (n : NodeTypeDef) (p : PropertyDef) :
    List ConceptMapDef :=
  match o.explicitConceptMapId n p with
  | some id => (o.conceptMaps.find? (·.id = id)).toList
  | none =>
    match p.valueSetId.bind fun id => first ValueSetDef.id id o.valueSets with
    | none => []
    | some vs => o.conceptMaps.filter fun cm =>
      cm.sourceSystemId ∈ vs.composition.map (·.systemId)

end Ontosyx.Ontology

namespace Ontosyx.Query

open Ontosyx.Core Ontology Lib.Keyed

/-! ## The translation table -/

inductive TranslationDirection where
  | forward
  | reverse
deriving DecidableEq

/-- How a property's literals are translated. -/
structure TranslationPolicy where
  direction : TranslationDirection := .forward
  equivalenceWhitelist : List Equivalence := [.equivalent]
deriving DecidableEq

/-- `(variable, property) → (concept map, policy)`. -/
abbrev TranslationTable :=
  List ((VariableName × PropertyKey) × (ConceptMapDef × TranslationPolicy))

/-- `translate`: the translations whose equivalence the policy admits. -/
def translate (cm : ConceptMapDef) (code : String) (policy : TranslationPolicy) :
    List Translation :=
  let raw := match policy.direction with
    | .forward => cm.translate code
    | .reverse => cm.translateReverse code
  raw.filter (·.equivalence ∈ policy.equivalenceWhitelist)

mutual
/-- `walk_match_patterns`: the labelled node patterns of a query, in the order in
which they are visited. -/
def QueryOp.matchPatterns : QueryOp → List (VariableName × GraphLabel)
  | .match_ patterns _ _ _ _ =>
    patterns.filterMap fun p =>
      match p with
      | .node v (some label) _ => some (v, label)
      | _ => none
  | .aggregate source _ _ _ => source.matchPatterns
  | .union queries _ => QueryIR.matchPatternsList queries
  | .chain steps => ChainStep.matchPatternsList steps
  | .callSubquery inner _ => inner.matchPatterns
  | .mutate context operations _ =>
    QueryOp.matchPatternsOption context ++ operations.filterMap fun m =>
      match m with
      | .createNode v label _ | .mergeNode v label _ _ _ => some (v, label)
      | _ => none
  | .analytics _ (.subgraph filter) _ _ => filter.matchPatterns
  | .analytics _ _ _ _ => []
  | .pathFind start end_ _ _ _ _ =>
    (start.label.toList.map fun l => (start.var, l)) ++
      end_.label.toList.map fun l => (end_.var, l)
  | .hybridSearch _ => []

def QueryOp.matchPatternsOption : Option QueryOp → List (VariableName × GraphLabel)
  | none => []
  | some op => op.matchPatterns

def QueryIR.matchPatterns : QueryIR → List (VariableName × GraphLabel)
  | ⟨operation, _, _, _, _⟩ => operation.matchPatterns

def QueryIR.matchPatternsList : List QueryIR → List (VariableName × GraphLabel)
  | [] => []
  | q :: qs => q.matchPatterns ++ QueryIR.matchPatternsList qs

def ChainStep.matchPatternsList : List ChainStep → List (VariableName × GraphLabel)
  | [] => []
  | ⟨_, operation⟩ :: steps => operation.matchPatterns ++ ChainStep.matchPatternsList steps
end

def patternEntries (o : OntologyIR) (v : VariableName) (label : GraphLabel) : TranslationTable :=
  match o.nodeByLabel label with
  | none => []
  | some n =>
    n.properties.flatMap fun p => (o.conceptMapsOf n p).map fun cm => ((v, p.name), (cm, {}))

def buildTranslationTableForQuery (query : QueryIR) (o : OntologyIR) : TranslationTable :=
  if o.conceptMaps.isEmpty then []
  else query.operation.matchPatterns.flatMap fun x => patternEntries o x.1 x.2

structure TranslationEvent where
  var : String
  property : String
  fromCode : String
  toCodes : List String
  conceptMap : String
  equivalence : Equivalence
deriving DecidableEq

structure UntranslatedLiteral where
  var : String
  property : String
  value : String
  conceptMap : String
deriving DecidableEq

structure RewriteReport where
  translations : List TranslationEvent := []
  untranslated : List UntranslatedLiteral := []
deriving DecidableEq

/-- What is reported after `r` comes behind it. -/
def RewriteReport.append (r s : RewriteReport) : RewriteReport :=
  ⟨r.translations ++ s.translations, r.untranslated ++ s.untranslated⟩

instance : Append RewriteReport := ⟨RewriteReport.append⟩

/-! ## Rewriting literals -/

/-- `rewrite_value_in_place`: the first translation replaces the literal. -/
def rewriteValueInPlace (v : VariableName) (p : PropertyKey) (value : Expr) (cm : ConceptMapDef)
    (policy : TranslationPolicy) : Expr × RewriteReport :=
  match value with
  | .literal (.string original) =>
    match translate cm original policy with
    | [] => (value, { untranslated := [⟨v.val, p.val, original, cm.name⟩] })
    | first :: rest =>
      (.literal (.string first.targetCode),
        { translations := [⟨v.val, p.val, original, (first :: rest).map (·.targetCode),
            cm.name, first.equivalence⟩] })
  | _ => (value, {})

/-- `rewrite_in_values`: every translation of a code enters the list in its place. -/
def rewriteInValues (v : VariableName) (p : PropertyKey) (cm : ConceptMapDef)
    (policy : TranslationPolicy) : List PropertyValue → List PropertyValue × RewriteReport
  | [] => ([], {})
  | .string original :: values =>
    let rest := rewriteInValues v p cm policy values
    match translate cm original policy with
    | [] =>
      (.string original :: rest.1,
        { untranslated := [⟨v.val, p.val, original, cm.name⟩] } ++ rest.2)
    | first :: more =>
      ((first :: more).map (fun t => .string t.targetCode) ++ rest.1,
        { translations := [⟨v.val, p.val, original, (first :: more).map (·.targetCode),
            cm.name, first.equivalence⟩] } ++ rest.2)
  | value :: values =>
    let rest := rewriteInValues v p cm policy values
    (value :: rest.1, rest.2)

section

variable (table : TranslationTable)

/-- The literal of a filter or an assignment, if the table has the property. -/
def rewriteAgainst (v : VariableName) (p : PropertyKey) (value : Expr) : Expr × RewriteReport :=
  match tableGet table (v, p) with
  | some (cm, policy) => rewriteValueInPlace v p value cm policy
  | none => (value, {})

def rewriteComparison (anchor literal : Expr) : Expr × RewriteReport :=
  match anchor.propertyRef with
  | some (v, p) => rewriteAgainst table v p literal
  | none => (literal, {})

/-- `rewrite_expr`: only comparisons, `AND`/`OR`/`XOR`, `NOT` and `IN` are looked
into. -/
def rewriteExpr : Expr → Expr × RewriteReport
  | .comparison left op right =>
    let l := rewriteExpr left
    let r := rewriteExpr right
    match op with
    | .eq | .neq =>
      let r' := rewriteComparison table l.1 r.1
      let l' := rewriteComparison table r'.1 l.1
      (.comparison l'.1 op r'.1, l.2 ++ r.2 ++ r'.2 ++ l'.2)
    | _ => (.comparison l.1 op r.1, l.2 ++ r.2)
  | .logical left op right =>
    let l := rewriteExpr left
    let r := rewriteExpr right
    (.logical l.1 op r.1, l.2 ++ r.2)
  | .not inner =>
    let i := rewriteExpr inner
    (.not i.1, i.2)
  | .in_ inner values =>
    match inner.propertyRef with
    | some (v, p) =>
      match tableGet table (v, p) with
      | some (cm, policy) =>
        let vs := rewriteInValues v p cm policy values
        (.in_ inner vs.1, vs.2)
      | none => (.in_ inner values, {})
    | none => (.in_ inner values, {})
  | e => (e, {})

def rewriteExprOption : Option Expr → Option Expr × RewriteReport
  | none => (none, {})
  | some e =>
    let e' := rewriteExpr table e
    (some e'.1, e'.2)

/-- The inline filters of a pattern with a variable. -/
def rewritePropertyFilters (v : VariableName) :
    List PropertyFilter → List PropertyFilter × RewriteReport
  | [] => ([], {})
  | ⟨p, value⟩ :: fs =>
    let e := rewriteAgainst table v p value
    let rest := rewritePropertyFilters v fs
    (⟨p, e.1⟩ :: rest.1, e.2 ++ rest.2)

def rewritePropertyAssignments (v : VariableName) :
    List PropertyAssignment → List PropertyAssignment × RewriteReport
  | [] => ([], {})
  | ⟨p, value⟩ :: as =>
    let e := rewriteAgainst table v p value
    let rest := rewritePropertyAssignments v as
    (⟨p, e.1⟩ :: rest.1, e.2 ++ rest.2)

/-- `rewrite_pattern`: a relationship without a variable and a path are left alone. -/
def rewritePattern : GraphPattern → GraphPattern × RewriteReport
  | .node v label filters =>
    let fs := rewritePropertyFilters table v filters
    (.node v label fs.1, fs.2)
  | .relationship (some v) label source target direction filters varLength =>
    let fs := rewritePropertyFilters table v filters
    (.relationship (some v) label source target direction fs.1 varLength, fs.2)
  | .relationship none label source target direction filters varLength =>
    (.relationship none label source target direction filters varLength, {})
  | .path elements => (.path elements, {})

def rewritePatterns : List GraphPattern → List GraphPattern × RewriteReport
  | [] => ([], {})
  | p :: ps =>
    let p' := rewritePattern table p
    let rest := rewritePatterns ps
    (p'.1 :: rest.1, p'.2 ++ rest.2)

/-- An endpoint of a path search. -/
def rewriteNodeRef (n : NodeRef) : NodeRef × RewriteReport :=
  let fs := rewritePropertyFilters table n.var n.propertyFilters
  (⟨n.var, n.label, fs.1⟩, fs.2)

/-- `rewrite_mutate_op`: the assignments of an edge without a variable are left
alone. -/
def rewriteMutateOp : MutateOp → MutateOp × RewriteReport
  | .createNode v label properties =>
    let ps := rewritePropertyAssignments table v properties
    (.createNode v label ps.1, ps.2)
  | .createEdge (some v) label source target properties =>
    let ps := rewritePropertyAssignments table v properties
    (.createEdge (some v) label source target ps.1, ps.2)
  | .createEdge none label source target properties =>
    (.createEdge none label source target properties, {})
  | .mergeNode v label matchProperties onCreate onMatch =>
    let ps := rewritePropertyAssignments table v matchProperties
    let cs := rewritePropertyAssignments table v onCreate
    let ms := rewritePropertyAssignments table v onMatch
    (.mergeNode v label ps.1 cs.1 ms.1, ps.2 ++ cs.2 ++ ms.2)
  | .mergeEdge (some v) label source target matchProperties onCreate onMatch =>
    let ps := rewritePropertyAssignments table v matchProperties
    let cs := rewritePropertyAssignments table v onCreate
    let ms := rewritePropertyAssignments table v onMatch
    (.mergeEdge (some v) label source target ps.1 cs.1 ms.1, ps.2 ++ cs.2 ++ ms.2)
  | .mergeEdge none label source target matchProperties onCreate onMatch =>
    (.mergeEdge none label source target matchProperties onCreate onMatch, {})
  | .setProperty v p value =>
    let e := rewriteAgainst table v p value
    (.setProperty v p e.1, e.2)
  | .delete v detach => (.delete v detach, {})
  | .removeProperty v p => (.removeProperty v p, {})
  | .removeLabel v label => (.removeLabel v label, {})

def rewriteMutateOps : List MutateOp → List MutateOp × RewriteReport
  | [] => ([], {})
  | m :: ms =>
    let m' := rewriteMutateOp table m
    let rest := rewriteMutateOps ms
    (m'.1 :: rest.1, m'.2 ++ rest.2)

mutual
def rewriteOp : QueryOp → QueryOp × RewriteReport
  | .match_ patterns filter projections optional groupBy =>
    let ps := rewritePatterns table patterns
    let f := rewriteExprOption table filter
    (.match_ ps.1 f.1 projections optional groupBy, ps.2 ++ f.2)
  | .aggregate source groupBy aggregations having =>
    let q := rewriteQuery source
    let f := rewriteExprOption table having
    (.aggregate q.1 groupBy aggregations f.1, q.2 ++ f.2)
  | .union queries all =>
    let qs := rewriteQueries queries
    (.union qs.1 all, qs.2)
  | .chain steps =>
    let ss := rewriteSteps steps
    (.chain ss.1, ss.2)
  | .callSubquery inner imports =>
    let q := rewriteQuery inner
    (.callSubquery q.1 imports, q.2)
  | .mutate context operations returning =>
    let c := rewriteOpOption context
    let ms := rewriteMutateOps table operations
    (.mutate c.1 ms.1 returning, c.2 ++ ms.2)
  | .analytics algorithm (.subgraph filter) params projections =>
    let f := rewriteOp filter
    (.analytics algorithm (.subgraph f.1) params projections, f.2)
  | .analytics algorithm source params projections =>
    (.analytics algorithm source params projections, {})
  | .pathFind start end_ edgeTypes direction maxDepth algorithm =>
    let s := rewriteNodeRef table start
    let e := rewriteNodeRef table end_
    (.pathFind s.1 e.1 edgeTypes direction maxDepth algorithm, s.2 ++ e.2)
  | .hybridSearch request => (.hybridSearch request, {})

def rewriteOpOption : Option QueryOp → Option QueryOp × RewriteReport
  | none => (none, {})
  | some op =>
    let op' := rewriteOp op
    (some op'.1, op'.2)

def rewriteQuery : QueryIR → QueryIR × RewriteReport
  | ⟨operation, limit, skip, orderBy, asOf⟩ =>
    let op := rewriteOp operation
    (⟨op.1, limit, skip, orderBy, asOf⟩, op.2)

def rewriteQueries : List QueryIR → List QueryIR × RewriteReport
  | [] => ([], {})
  | q :: qs =>
    let q' := rewriteQuery q
    let rest := rewriteQueries qs
    (q'.1 :: rest.1, q'.2 ++ rest.2)

def rewriteSteps : List ChainStep → List ChainStep × RewriteReport
  | [] => ([], {})
  | ⟨passThrough, operation⟩ :: steps =>
    let op := rewriteOp operation
    let rest := rewriteSteps steps
    (⟨passThrough, op.1⟩ :: rest.1, op.2 ++ rest.2)
end

end

def rewriteConceptMapValues (query : QueryIR) (translations : TranslationTable) :
    QueryIR × RewriteReport :=
  if translations.isEmpty then (query, {}) else rewriteQuery translations query

/-! ## The walk as a pass -/

/-- The walk takes none of the steps: it stays on the operations, their patterns,
filters and assignments. -/
def conceptMapWalks : Step → Bool := fun _ => false

/-- A code by its first admitted translation, if it has one. -/
def translatedCode (cm : ConceptMapDef) (policy : TranslationPolicy) (code : String) : String :=
  match translate cm code policy with
  | [] => code
  | first :: _ => first.targetCode

/-- A value of an `IN` list by all admitted translations of its code. -/
def translatedMember (cm : ConceptMapDef) (policy : TranslationPolicy) :
    PropertyValue → List PropertyValue
  | .string code =>
    match translate cm code policy with
    | [] => [.string code]
    | ts => ts.map fun t => .string t.targetCode
  | value => [value]

section

variable (table : TranslationTable)

/-- The entry of the table for a property of the owner. -/
def ownerEntry (o : Owner) (p : PropertyKey) : Option (ConceptMapDef × TranslationPolicy) :=
  o.varName.bind fun v => tableGet table (v, p)

/-- What the walk does at one place. -/
def conceptMapHooks : Hooks where
  literal o p code :=
    match ownerEntry table o p with
    | some (cm, policy) => translatedCode cm policy code
    | none => code
  members o p values :=
    match ownerEntry table o p with
    | some (cm, policy) => values.flatMap (translatedMember cm policy)
    | none => values

def stringCodes (values : List PropertyValue) : List String :=
  values.filterMap fun v =>
    match v with
    | .string code => some code
    | _ => none

/-- The codes of a list that the table has an entry for but no translation of. -/
def untranslatedCodes (o : Owner) (p : PropertyKey) (codes : List String) :
    List UntranslatedLiteral :=
  match o.varName, ownerEntry table o p with
  | some v, some (cm, policy) =>
    (codes.filter fun code => translate cm code policy = []).map fun code =>
      ⟨v.val, p.val, code, cm.name⟩
  | _, _ => []

/-- What the walk reports as untranslated at one place. -/
def Site.untranslated (x : Site) : List UntranslatedLiteral :=
  if x.walked then
    match x.mention with
    | .literal o p code => untranslatedCodes table o p [code]
    | .members o p values => untranslatedCodes table o p (stringCodes values)
    | _ => []
  else []

variable {table}

@[simp] theorem conceptMapHooks_label (w : Bool) :
    Hooks.label w (conceptMapHooks table).nodeLabel = id := by
  funext l
  exact ite_self l

@[simp] theorem conceptMapHooks_edgeLabel (w : Bool) :
    Hooks.label w (conceptMapHooks table).edgeLabel = id := by
  funext l
  exact ite_self l

@[simp] theorem conceptMapHooks_key (w : Bool) (o : Owner) :
    (conceptMapHooks table).key w o = id := by
  funext p
  exact ite_self p

/-! ## One value -/

theorem inPlace_fst (v : VariableName) (p : PropertyKey) (e : Expr)
    (cm : ConceptMapDef) (policy : TranslationPolicy) :
    (rewriteValueInPlace v p e cm policy).1 =
      match e.code with
      | some code => .literal (.string (translatedCode cm policy code))
      | none => e := by
  cases hc : e.code with
  | none =>
    cases e with
    | literal x => cases x <;> first | rfl | cases hc
    | _ => rfl
  | some code =>
    rw [Expr.eq_literal_of_code hc]
    simp only [rewriteValueInPlace, translatedCode]
    split <;> rfl

theorem rewriteValueInPlace_untranslated (v : VariableName) (p : PropertyKey) (e : Expr)
    (cm : ConceptMapDef) (policy : TranslationPolicy) :
    (rewriteValueInPlace v p e cm policy).2.untranslated =
      match e.code with
      | some code => if translate cm code policy = [] then [⟨v.val, p.val, code, cm.name⟩] else []
      | none => [] := by
  cases hc : e.code with
  | none =>
    cases e with
    | literal x => cases x <;> first | rfl | cases hc
    | _ => rfl
  | some code =>
    rw [Expr.eq_literal_of_code hc]
    simp only [rewriteValueInPlace]
    split
    · rename_i ht
      simp only [ht, if_true]
    · rename_i ht
      simp only [ht, reduceCtorEq, if_false]

theorem rewriteInValues_fst (v : VariableName) (p : PropertyKey) (cm : ConceptMapDef)
    (policy : TranslationPolicy) (values : List PropertyValue) :
    (rewriteInValues v p cm policy values).1 = values.flatMap (translatedMember cm policy) := by
  induction values with
  | nil => rfl
  | cons x xs ih =>
    rw [List.flatMap_cons, ← ih]
    cases x with
    | string code =>
      simp only [rewriteInValues, translatedMember]
      cases translate cm code policy <;> rfl
    | _ => rfl

theorem append_untranslated (r s : RewriteReport) :
    (r ++ s).untranslated = r.untranslated ++ s.untranslated := rfl

theorem rewriteInValues_untranslated (v : VariableName) (p : PropertyKey) (cm : ConceptMapDef)
    (policy : TranslationPolicy) (values : List PropertyValue) :
    (rewriteInValues v p cm policy values).2.untranslated =
      ((stringCodes values).filter fun code => translate cm code policy = []).map fun code =>
        ⟨v.val, p.val, code, cm.name⟩ := by
  induction values with
  | nil => rfl
  | cons x xs ih =>
    cases x with
    | string code =>
      have hcons : stringCodes (.string code :: xs) = code :: stringCodes xs := rfl
      rw [hcons]
      simp only [rewriteInValues]
      cases ht : translate cm code policy with
      | nil =>
        rw [append_untranslated, ih, List.filter_cons_of_pos (by simpa using ht)]
        rfl
      | cons first more =>
        rw [append_untranslated, ih, List.filter_cons_of_neg (by simp [ht])]
        rfl
    | _ => exact ih

/-- A walk gives what the pass gives and reports what the pass leaves untranslated at
the places. -/
abbrev Passes {α : Type} (table : TranslationTable) (r : α × RewriteReport) (out : α)
    (places : List Site) : Prop :=
  r.1 = out ∧ r.2.untranslated = places.flatMap (Site.untranslated table)

theorem rewriteAgainst_passes {v : VariableName} {o : Owner} (ho : o.varName = some v)
    (s : Scope) (p : PropertyKey) (e : Expr) :
    Passes table (rewriteAgainst table v p e) ((conceptMapHooks table).value o p e)
      (valueSites true s o p e) := by
  have hent : ownerEntry table o p = tableGet table (v, p) := by rw [ownerEntry, ho]; rfl
  simp only [Passes, rewriteAgainst, Hooks.value, valueSites, conceptMapHooks, hent]
  cases hc : e.code with
  | none =>
    cases tableGet table (v, p) with
    | none => exact ⟨rfl, rfl⟩
    | some x =>
      simp only [inPlace_fst, rewriteValueInPlace_untranslated, hc, true_and]
      rfl
  | some code =>
    simp only [List.flatMap_cons, List.flatMap_nil, List.append_nil, Site.untranslated, if_true,
      untranslatedCodes, ho, hent]
    cases tableGet table (v, p) with
    | none => exact ⟨Expr.eq_literal_of_code hc, rfl⟩
    | some x =>
      simp only [inPlace_fst, rewriteValueInPlace_untranslated, hc]
      by_cases ht : translate x.1 code x.2 = [] <;> simp [ht]

/-- An owner without a variable has no entry. -/
theorem value_passes_none {o : Owner} (ho : o.varName = none) (s : Scope) (p : PropertyKey)
    (e : Expr) :
    Passes table (e, {}) ((conceptMapHooks table).value o p e) (valueSites true s o p e) := by
  have hent : ownerEntry table o p = none := by rw [ownerEntry, ho]; rfl
  simp only [Passes, Hooks.value, valueSites, conceptMapHooks, hent]
  cases hc : e.code with
  | none => simp
  | some code =>
    exact ⟨Expr.eq_literal_of_code hc, by simp [Site.untranslated, untranslatedCodes, ho]⟩

/-- A pass that marks every literal of a walked place. -/
def markingHooks : Hooks where
  literal _ _ code := code ++ "!"
  members _ _ values := .null :: values

/-- Nothing is reported at places whose literals no pass reaches. -/
theorem untranslated_of_site (walks : Step → Bool) {xs : List Site}
    (h : xs.map (Hooks.site {} walks) = xs.map (markingHooks.site walks)) :
    xs.flatMap (Site.untranslated table) = [] := by
  rw [List.flatMap_eq_nil_iff]
  intro x hx
  have hx' : Hooks.site {} walks x = markingHooks.site walks x := List.map_eq_map_iff.1 h x hx
  obtain ⟨w, s, m⟩ := x
  cases w with
  | false => rfl
  | true =>
    cases m with
    | literal o p code =>
      have hm : code = code ++ "!" := by
        simp only [Hooks.site, Hooks.mention, markingHooks, Site.mk.injEq, if_true,
          Mention.literal.injEq] at hx'
        exact hx'.2.2.2.2
      have hl := congrArg String.length hm
      rw [String.length_append] at hl
      have : ("!" : String).length = 1 := rfl
      omega
    | members o p values =>
      have hm : values = .null :: values := by
        simp only [Hooks.site, Hooks.mention, markingHooks, Site.mk.injEq, if_true,
          Mention.members.injEq] at hx'
        exact hx'.2.2.2.2
      have hl := congrArg List.length hm
      rw [List.length_cons] at hl
      omega
    | _ => rfl

end

/-! ## Expressions -/

section

variable {table : TranslationTable}

theorem rewriteComparison_passes (s : Scope) (a b : Expr) :
    Passes table (rewriteComparison table a b) ((conceptMapHooks table).compared a b)
      (comparedSites true s a b) := by
  simp only [rewriteComparison, Hooks.compared, comparedSites]
  cases a.propertyRef with
  | none => exact ⟨rfl, rfl⟩
  | some r =>
    have h := @rewriteAgainst_passes table r.1 (.var r.1) rfl s r.2 b
    rw [Hooks.value, valueSites] at h
    cases hc : b.code with
    | none => simpa only [hc] using h
    | some code => simpa only [hc] using h

theorem comparedSites_congr {a a' b b' : Expr} (w : Bool) (s : Scope)
    (ha : a.propertyRef = a'.propertyRef) (hb : b.code = b'.code) :
    comparedSites w s a b = comparedSites w s a' b' := by
  simp only [comparedSites, ha, hb]

theorem Expr.propertyRef_rewrite_conceptMap (w : Bool) (e : Expr) :
    (e.rewrite conceptMapWalks (conceptMapHooks table) w).propertyRef = e.propertyRef := by
  rw [Expr.propertyRef_rewrite]
  cases e.propertyRef with
  | none => rfl
  | some r => simp

attribute [local simp] Passes conceptMapWalks Expr.rewrite_inert Expr.list_inert
  Expr.option_inert WhenClause.list_inert GraphPattern.rewrite_inert
  QueryIR.rewrite_inert FieldRef.rewrite_inert AggregationExpr.rewrite_inert
  Projection.list_inert AnalyticsParam.list_inert PatternIR.rewrite_inert
  OrderClause.list_inert append_untranslated

section

variable {walks : Step → Bool} (s : Scope)

/-- The parts of an operation that are not walked report nothing. -/
@[simp] theorem Expr.untranslated_false (e : Expr) :
    (e.sites walks false s).flatMap (Site.untranslated table) = [] := by
  apply untranslated_of_site walks
  rw [← e.sites_rewrite, ← e.sites_rewrite, Expr.rewrite_inert (Hooks.inert_false _),
    Expr.rewrite_inert (Hooks.inert_false _)]
  rfl

@[simp] theorem Expr.untranslated_list_false (es : List Expr) :
    (Expr.sitesList walks false s es).flatMap (Site.untranslated table) = [] := by
  apply untranslated_of_site walks
  rw [← Expr.sites_list, ← Expr.sites_list,
    Expr.list_inert (Hooks.inert_false _), Expr.list_inert (Hooks.inert_false _)]
  rfl

@[simp] theorem Expr.untranslated_option_false (e : Option Expr) :
    (Expr.sitesOption walks false s e).flatMap (Site.untranslated table) = [] := by
  cases e with
  | none => rfl
  | some e => exact e.untranslated_false s

@[simp] theorem WhenClause.untranslated_list_false (cs : List WhenClause) :
    (WhenClause.sitesList walks false s cs).flatMap (Site.untranslated table) = [] := by
  apply untranslated_of_site walks
  rw [← WhenClause.sites_list, ← WhenClause.sites_list,
    WhenClause.list_inert (Hooks.inert_false _),
    WhenClause.list_inert (Hooks.inert_false _)]
  rfl

@[simp] theorem GraphPattern.untranslated_false (p : GraphPattern) :
    (p.sites walks false s).flatMap (Site.untranslated table) = [] := by
  apply untranslated_of_site walks
  rw [← p.sites_rewrite, ← p.sites_rewrite, GraphPattern.rewrite_inert (Hooks.inert_false _),
    GraphPattern.rewrite_inert (Hooks.inert_false _)]
  rfl

@[simp] theorem QueryIR.untranslated_false (q : QueryIR) :
    (q.sites walks false s).flatMap (Site.untranslated table) = [] := by
  apply untranslated_of_site walks
  rw [← q.sites_rewrite, ← q.sites_rewrite, QueryIR.rewrite_inert (Hooks.inert_false _),
    QueryIR.rewrite_inert (Hooks.inert_false _)]
  rfl

@[simp] theorem Projection.untranslated_list_false (ps : List Projection) :
    (Projection.sitesList walks false s ps).flatMap (Site.untranslated table) = [] := by
  apply untranslated_of_site walks
  rw [← Projection.sites_list, ← Projection.sites_list,
    Projection.list_inert (Hooks.inert_false _),
    Projection.list_inert (Hooks.inert_false _)]
  rfl

@[simp] theorem OrderClause.untranslated_list_false (os : List OrderClause) :
    (OrderClause.sitesList walks false s os).flatMap (Site.untranslated table) = [] := by
  apply untranslated_of_site walks
  rw [← OrderClause.sites_list, ← OrderClause.sites_list,
    OrderClause.list_inert (Hooks.inert_false _),
    OrderClause.list_inert (Hooks.inert_false _)]
  rfl

@[simp] theorem AnalyticsParam.untranslated_list_false (ps : List AnalyticsParam) :
    (AnalyticsParam.sitesList walks false s ps).flatMap (Site.untranslated table) = [] := by
  apply untranslated_of_site walks
  rw [← AnalyticsParam.sites_list, ← AnalyticsParam.sites_list,
    AnalyticsParam.list_inert (Hooks.inert_false _),
    AnalyticsParam.list_inert (Hooks.inert_false _)]
  rfl

@[simp] theorem PatternIR.untranslated_false (c : PatternIR) :
    (c.sites walks false s).flatMap (Site.untranslated table) = [] := by
  apply untranslated_of_site walks
  rw [← c.sites_rewrite, ← c.sites_rewrite, PatternIR.rewrite_inert (Hooks.inert_false _),
    PatternIR.rewrite_inert (Hooks.inert_false _)]
  rfl

@[simp] theorem FieldRef.untranslated (w : Bool) (f : FieldRef) :
    (f.sites w s).flatMap (Site.untranslated table) = [] := by
  obtain ⟨v, p⟩ := f
  cases p <;> cases w <;> rfl

@[simp] theorem nodeLabel_untranslated (w : Bool) (l : Option GraphLabel) :
    (nodeLabelSites w s l).flatMap (Site.untranslated table) = [] := by
  cases l <;> cases w <;> rfl

@[simp] theorem edgeLabel_untranslated (w : Bool) (l : Option GraphLabel) :
    (edgeLabelSites w s l).flatMap (Site.untranslated table) = [] := by
  cases l <;> cases w <;> rfl

end

/-- `rewrite_expr` is the pass. -/
theorem rewriteExpr_passes (s : Scope) :
    (e : Expr) →
      Passes table (rewriteExpr table e) (e.rewrite conceptMapWalks (conceptMapHooks table) true)
        (e.sites conceptMapWalks true s)
  | .comparison l op r => by
    obtain ⟨hl, hls⟩ := rewriteExpr_passes s l
    obtain ⟨hr, hrs⟩ := rewriteExpr_passes s r
    have hpl := @Expr.propertyRef_rewrite_conceptMap table true l
    have hpr := @Expr.propertyRef_rewrite_conceptMap table true r
    have hcl := @Expr.code_rewrite conceptMapWalks (conceptMapHooks table) true l
    have hcr := @Expr.code_rewrite conceptMapWalks (conceptMapHooks table) true r
    rw [Passes, Expr.rewrite, if_pos rfl, Expr.sites, List.flatMap_append, List.flatMap_append,
      ← hls, ← hrs]
    cases op with
    | eq | neq =>
      simp [rewriteExpr, Hooks.comparison, rewriteComparison_passes s, comparisonSites, hl, hr]
      rw [comparedSites_congr true s hpl hcr,
        comparedSites_congr true s ((Hooks.compared_propertyRef _ _ _).trans hpr) hcl]
    | _ => simp [rewriteExpr, Hooks.comparison, comparisonSites, hl, hr]
  | .logical l op r => by
    simp [rewriteExpr, Expr.rewrite, Expr.sites, rewriteExpr_passes s l, rewriteExpr_passes s r]
  | .not e => by simp [rewriteExpr, Expr.rewrite, Expr.sites, rewriteExpr_passes s e]
  | .in_ e vs => by
    rw [Passes, Expr.rewrite, if_pos rfl, Expr.sites, List.flatMap_append]
    simp [rewriteExpr, Hooks.in_, memberSites]
    cases e.propertyRef with
    | none => exact ⟨rfl, rfl⟩
    | some r =>
      have hent : ownerEntry table (.var r.1) r.2 = tableGet table r := rfl
      simp [conceptMapHooks, Site.untranslated, untranslatedCodes, Owner.varName, hent]
      cases tableGet table r with
      | none => exact ⟨rfl, rfl⟩
      | some x => simp [rewriteInValues_fst, rewriteInValues_untranslated]
  | .literal v | .param n | .property v none | .isNull e n | .stringOp a op b
  | .functionCall f es | .exists_ p | .case_ o cs e
  | .subquery q imports => by simp [rewriteExpr, Expr.rewrite, Expr.sites]
  | .property v (some p) => by
    simp [rewriteExpr, Expr.rewrite, Expr.sites]
    rfl

/-! ## Patterns and mutations -/

theorem filters_passes {v : VariableName} {o : Owner} (ho : o.varName = some v)
    (s : Scope) :
    (fs : List PropertyFilter) →
      Passes table (rewritePropertyFilters table v fs)
        (PropertyFilter.rewriteList conceptMapWalks (conceptMapHooks table) true o fs)
        (PropertyFilter.sitesList conceptMapWalks true s o fs) := by
  intro fs
  induction fs with
  | nil => simp [rewritePropertyFilters, PropertyFilter.rewriteList, PropertyFilter.sitesList]
  | cons f fs ih =>
    obtain ⟨p, e⟩ := f
    have hp : Site.untranslated table ⟨true, s, .property o p⟩ = [] := rfl
    simp [rewritePropertyFilters, PropertyFilter.rewriteList, PropertyFilter.sitesList, hp,
      rewriteAgainst_passes ho s p e, ih]

/-- The filters of a pattern without a variable are left alone. -/
theorem propertyFilters_pass_none {o : Owner} (ho : o.varName = none) (s : Scope) :
    (fs : List PropertyFilter) →
      Passes table (fs, {})
        (PropertyFilter.rewriteList conceptMapWalks (conceptMapHooks table) true o fs)
        (PropertyFilter.sitesList conceptMapWalks true s o fs) := by
  intro fs
  induction fs with
  | nil => simp [PropertyFilter.rewriteList, PropertyFilter.sitesList]
  | cons f fs ih =>
    obtain ⟨p, e⟩ := f
    have hp : Site.untranslated table ⟨true, s, .property o p⟩ = [] := rfl
    simp [PropertyFilter.rewriteList, PropertyFilter.sitesList, hp,
      ← value_passes_none ho s p e, ← ih]

theorem PathElement.rewrite_conceptMap : PathElement.rewrite (conceptMapHooks table) true = id := by
  funext x
  cases x <;>
    simp [PathElement.rewrite]

@[simp] theorem PathElement.untranslated_sites (s : Scope) (xs : List PathElement) :
    (xs.flatMap (PathElement.sites true s)).flatMap (Site.untranslated table) = [] := by
  induction xs with
  | nil => rfl
  | cons x xs ih =>
    rw [List.flatMap_cons, List.flatMap_append, ih, List.append_nil]
    cases x with
    | node v l => exact nodeLabel_untranslated s true l
    | edge v l d => exact edgeLabel_untranslated s true l

theorem rewritePattern_passes (s : Scope) (p : GraphPattern) : Passes table (rewritePattern table p)
      (p.rewrite conceptMapWalks (conceptMapHooks table) true)
      (p.sites conceptMapWalks true s) := by
  cases p with
  | node v l fs =>
    have ho : (Owner.ofNode true v l).varName = some v := rfl
    simp [rewritePattern, GraphPattern.rewrite, GraphPattern.sites,
      filters_passes ho s]
  | relationship v l a b d fs vl =>
    cases v with
    | some v =>
      have ho : (Owner.ofEdge true (some v) l).varName = some v := rfl
      simp [rewritePattern, GraphPattern.rewrite, GraphPattern.sites,
        filters_passes ho s]
    | none =>
      have ho : (Owner.ofEdge true none l).varName = none := rfl
      simp [rewritePattern, GraphPattern.rewrite, GraphPattern.sites,
        ← propertyFilters_pass_none ho s]
  | path xs =>
    simp [rewritePattern, GraphPattern.rewrite, GraphPattern.sites,
      PathElement.rewrite_conceptMap]

theorem rewritePatterns_passes (s : Scope) :
    (ps : List GraphPattern) →
      Passes table (rewritePatterns table ps)
        (GraphPattern.rewriteList conceptMapWalks (conceptMapHooks table) true ps)
        (GraphPattern.sitesList conceptMapWalks true s ps) := by
  intro ps
  induction ps with
  | nil => simp [rewritePatterns, GraphPattern.rewriteList, GraphPattern.sitesList]
  | cons p ps ih =>
    simp [rewritePatterns, GraphPattern.rewriteList, GraphPattern.sitesList,
      rewritePattern_passes s p, ih]

theorem rewriteNodeRef_passes (s : Scope) (n : NodeRef) : Passes table (rewriteNodeRef table n)
      (n.rewrite conceptMapWalks (conceptMapHooks table) true)
      (n.sites conceptMapWalks true s) := by
  obtain ⟨v, l, fs⟩ := n
  have ho : (Owner.ofNode true v l).varName = some v := rfl
  simp [rewriteNodeRef, NodeRef.rewrite, NodeRef.sites, filters_passes ho s]

theorem rewriteExprOption_passes (s : Scope) (e : Option Expr) :
    Passes table (rewriteExprOption table e)
      (Expr.rewriteOption conceptMapWalks (conceptMapHooks table) true e)
      (Expr.sitesOption conceptMapWalks true s e) := by
  cases e with
  | none => simp [rewriteExprOption, Expr.rewriteOption, Expr.sitesOption]
  | some e =>
    simp [rewriteExprOption, Expr.rewriteOption, Expr.sitesOption, rewriteExpr_passes s]

theorem assignments_passes (v : VariableName) (b : Binding) (s : Scope) :
    (as : List PropertyAssignment) →
      Passes table (rewritePropertyAssignments table v as)
        (PropertyAssignment.rewriteList conceptMapWalks (conceptMapHooks table) true (some v) b as)
        (PropertyAssignment.sitesList conceptMapWalks true s (some v) b as) := by
  intro as
  induction as with
  | nil =>
    simp [rewritePropertyAssignments, PropertyAssignment.rewriteList,
      PropertyAssignment.sitesList]
  | cons a as ih =>
    obtain ⟨p, e⟩ := a
    have ho : (Owner.inline (some v) (some ⟨b, true⟩)).varName = some v := rfl
    have hp : Site.untranslated table
        ⟨true, s, .property (.inline (some v) (some ⟨b, true⟩)) p⟩ = [] := rfl
    simp [rewritePropertyAssignments, PropertyAssignment.rewriteList,
      PropertyAssignment.sitesList, hp, rewriteAgainst_passes ho s p e, ih]

/-- The assignments of an edge without a variable are left alone. -/
theorem propertyAssignments_pass_none (b : Binding) (s : Scope) :
    (as : List PropertyAssignment) →
      Passes table (as, {})
        (PropertyAssignment.rewriteList conceptMapWalks (conceptMapHooks table) true none b as)
        (PropertyAssignment.sitesList conceptMapWalks true s none b as) := by
  intro as
  induction as with
  | nil => simp [PropertyAssignment.rewriteList, PropertyAssignment.sitesList]
  | cons a as ih =>
    obtain ⟨p, e⟩ := a
    have ho : (Owner.inline none (some ⟨b, true⟩)).varName = none := rfl
    have hp : Site.untranslated table
        ⟨true, s, .property (.inline none (some ⟨b, true⟩)) p⟩ = [] := rfl
    simp [PropertyAssignment.rewriteList, PropertyAssignment.sitesList, hp,
      ← value_passes_none ho s p e, ← ih]

theorem rewriteMutateOp_passes (s : Scope) (m : MutateOp) : Passes table (rewriteMutateOp table m)
      (m.rewrite conceptMapWalks (conceptMapHooks table) true)
      (m.sites conceptMapWalks true s) := by
  have hn : ∀ l, Site.untranslated table ⟨true, s, .nodeLabel l⟩ = [] := fun _ => rfl
  have he : ∀ l, Site.untranslated table ⟨true, s, .edgeLabel l⟩ = [] := fun _ => rfl
  have hp : ∀ o p, Site.untranslated table ⟨true, s, .property o p⟩ = [] := fun _ _ => rfl
  cases m with
  | createNode v l as | mergeNode v l as bs cs =>
    simp [rewriteMutateOp, MutateOp.rewrite, MutateOp.sites, hn,
      assignments_passes v (.node l) s]
  | createEdge v l a b as | mergeEdge v l a b as bs cs =>
    cases v with
    | some v =>
      simp [rewriteMutateOp, MutateOp.rewrite, MutateOp.sites, he,
        assignments_passes v (.edge l) s]
    | none =>
      simp [rewriteMutateOp, MutateOp.rewrite, MutateOp.sites, he,
        ← propertyAssignments_pass_none (.edge l) s]
  | setProperty v p e =>
    have ho : (Owner.var v).varName = some v := rfl
    simp [rewriteMutateOp, MutateOp.rewrite, MutateOp.sites, hp, rewriteAgainst_passes ho s p e]
  | delete v d | removeProperty v p | removeLabel v l =>
    simp [rewriteMutateOp, MutateOp.rewrite, MutateOp.sites, hp, hn]

theorem rewriteMutateOps_passes (ms : List MutateOp) (s : Scope) :
    Passes table (rewriteMutateOps table ms)
      (MutateOp.rewriteList conceptMapWalks (conceptMapHooks table) true ms)
      (MutateOp.sitesList conceptMapWalks true s ms) := by
  induction ms generalizing s with
  | nil => simp [rewriteMutateOps, MutateOp.rewriteList, MutateOp.sitesList]
  | cons m ms ih =>
    simp [rewriteMutateOps, MutateOp.rewriteList, MutateOp.sitesList,
      rewriteMutateOp_passes (m.bind true s), ih (m.bind true s)]

@[simp] theorem FieldRef.untranslated_sites {α : Type} (w : Bool) (s : Scope) (f : α → FieldRef)
    (xs : List α) :
    (xs.flatMap fun x => (f x).sites w s).flatMap (Site.untranslated table) = [] := by
  induction xs with
  | nil => rfl
  | cons x xs ih =>
    rw [List.flatMap_cons, List.flatMap_append, ih, FieldRef.untranslated, List.append_nil]

theorem untranslated_labels (s : Scope) (m : GraphLabel → Mention)
    (hm : ∀ l, Site.untranslated table ⟨true, s, m l⟩ = []) (ls : List GraphLabel) :
    (ls.map fun l => (⟨true, s, m l⟩ : Site)).flatMap (Site.untranslated table) = [] := by
  induction ls with
  | nil => rfl
  | cons l ls ih => rw [List.map_cons, List.flatMap_cons, hm, ih, List.append_nil]

mutual
/-- `rewrite_op` is the pass. -/
theorem rewriteOp_passes (s : Scope) :
    (op : QueryOp) →
      Passes table (rewriteOp table op) (op.rewrite conceptMapWalks (conceptMapHooks table) true)
        (op.sites conceptMapWalks true s)
  | .match_ ps f pr o g => by
    simp [rewriteOp, QueryOp.rewrite, QueryOp.sites,
      rewritePatterns_passes (ps.foldl (GraphPattern.bind true) s),
      rewriteExprOption_passes (ps.foldl (GraphPattern.bind true) s)]
  | .pathFind a b ls d m al => by
    have hl := @untranslated_labels table s .edgeLabel (fun _ => rfl) ls
    simp [rewriteOp, QueryOp.rewrite, QueryOp.sites, hl,
      rewriteNodeRef_passes ((s.bindNode true a.var a.label).bindNode true b.var b.label)]
  | .aggregate q g a hv => by
    have hg : (g.flatMap (FieldRef.sites false (q.scopeAfter true s))).flatMap
        (Site.untranslated table) = [] := FieldRef.untranslated_sites false _ id g
    simp [rewriteOp, QueryOp.rewrite, QueryOp.sites, hg, rewriteQuery_passes s q,
      rewriteExprOption_passes (q.scopeAfter true s)]
  | .union qs all => by
    simp [rewriteOp, QueryOp.rewrite, QueryOp.sites, rewriteQueries_passes s qs]
  | .chain steps => by
    simp [rewriteOp, QueryOp.rewrite, QueryOp.sites, rewriteSteps_passes s steps]
  | .callSubquery q imports => by
    simp [rewriteOp, QueryOp.rewrite, QueryOp.sites, rewriteQuery_passes (s.importing imports) q]
  | .mutate c ms r => by
    simp [rewriteOp, QueryOp.rewrite, QueryOp.sites, rewriteOpOption_passes s c,
      rewriteMutateOps_passes ms (QueryOp.scopeAfterOption true s c)]
  | .analytics al .wholeGraph ps pr => by
    simp [rewriteOp, QueryOp.rewrite, QueryOp.sites, AnalyticsSource.rewrite,
      AnalyticsSource.sites]
  | .analytics al (.labels ls) ps pr => by
    have hl := @untranslated_labels table s .nodeLabel (fun _ => rfl) ls
    simp [rewriteOp, QueryOp.rewrite, QueryOp.sites, AnalyticsSource.rewrite,
      AnalyticsSource.sites, hl]
  | .analytics al (.subgraph op) ps pr => by
    simp [rewriteOp, QueryOp.rewrite, QueryOp.sites, AnalyticsSource.rewrite,
      AnalyticsSource.sites, rewriteOp_passes s op]
  | .hybridSearch ⟨v, f, none, u, k⟩
  | .hybridSearch ⟨v, f, some c, u, k⟩ => by simp [rewriteOp, QueryOp.rewrite, QueryOp.sites]

theorem rewriteOpOption_passes (s : Scope) :
    (op : Option QueryOp) →
      Passes table (rewriteOpOption table op)
        (QueryOp.rewriteOption conceptMapWalks (conceptMapHooks table) true op)
        (QueryOp.sitesOption conceptMapWalks true s op)
  | none => by simp [rewriteOpOption, QueryOp.rewriteOption, QueryOp.sitesOption]
  | some op => by
    simp [rewriteOpOption, QueryOp.rewriteOption, QueryOp.sitesOption, rewriteOp_passes s op]

theorem rewriteQuery_passes (s : Scope) :
    (q : QueryIR) →
      Passes table (rewriteQuery table q)
        (q.rewrite conceptMapWalks (conceptMapHooks table) true)
        (q.sites conceptMapWalks true s)
  | ⟨op, l, k, os, t⟩ => by
    simp [rewriteQuery, QueryIR.rewrite, QueryIR.sites, rewriteOp_passes s op]

theorem rewriteQueries_passes (s : Scope) :
    (qs : List QueryIR) →
      Passes table (rewriteQueries table qs)
        (QueryIR.rewriteList conceptMapWalks (conceptMapHooks table) true qs)
        (QueryIR.sitesList conceptMapWalks true s qs)
  | [] => by simp [rewriteQueries, QueryIR.rewriteList, QueryIR.sitesList]
  | q :: qs => by
    simp [rewriteQueries, QueryIR.rewriteList, QueryIR.sitesList, rewriteQuery_passes s q,
      rewriteQueries_passes s qs]

theorem rewriteSteps_passes (s : Scope) :
    (steps : List ChainStep) →
      Passes table (rewriteSteps table steps)
        (ChainStep.rewriteList conceptMapWalks (conceptMapHooks table) true steps)
        (ChainStep.sitesList conceptMapWalks true s steps)
  | [] => by simp [rewriteSteps, ChainStep.rewriteList, ChainStep.sitesList]
  | ⟨p, op⟩ :: steps => by
    have hrest := rewriteSteps_passes (op.scopeAfter true s) steps
    simp [rewriteSteps, ChainStep.rewriteList, ChainStep.sitesList, rewriteOp_passes s op, hrest]
end

end

theorem ownerEntry_nil (o : Owner) (p : PropertyKey) : ownerEntry [] o p = none := by
  rw [ownerEntry]
  cases o.varName <;> rfl

/-- An empty table translates nothing. -/
theorem conceptMapHooks_nil : (conceptMapHooks []).Identity := by
  refine ⟨rfl, rfl, fun _ => rfl, fun o p => ?_, fun o p => ?_⟩
  · funext code
    simp only [conceptMapHooks, ownerEntry_nil]
    rfl
  · funext values
    simp only [conceptMapHooks, ownerEntry_nil]
    rfl

theorem untranslatedCodes_nil (o : Owner) (p : PropertyKey) (codes : List String) :
    untranslatedCodes [] o p codes = [] := by
  rw [untranslatedCodes, ownerEntry_nil]
  cases o.varName <;> rfl

theorem Site.untranslated_nil (x : Site) : x.untranslated [] = [] := by
  obtain ⟨w, s, m⟩ := x
  cases w with
  | false => rfl
  | true => cases m <;> simp [Site.untranslated, untranslatedCodes_nil]

/-- The walk is the pass that rewrites the literals at the places it walks. -/
theorem rewriteValues_eq_rewrite (table : TranslationTable) (q : QueryIR) :
    (rewriteConceptMapValues q table).1 =
      q.rewrite conceptMapWalks (conceptMapHooks table) true := by
  cases table with
  | nil =>
    rw [QueryIR.rewrite_inert (Or.inr conceptMapHooks_nil)]
    rfl
  | cons x xs => exact (rewriteQuery_passes [] q).1

theorem mem_untranslated_rewrite (table : TranslationTable) (q : QueryIR)
    (u : UntranslatedLiteral) : u ∈ (rewriteConceptMapValues q table).2.untranslated ↔
      ∃ x ∈ q.sites conceptMapWalks true [], u ∈ x.untranslated table := by
  rw [← List.mem_flatMap]
  cases table with
  | nil =>
    have hnil : (q.sites conceptMapWalks true []).flatMap (Site.untranslated []) = [] :=
      List.flatMap_eq_nil_iff.2 fun x _ => x.untranslated_nil
    rw [hnil]
    rfl
  | cons x xs => rw [← (rewriteQuery_passes [] q).2]; rfl

end Ontosyx.Query
