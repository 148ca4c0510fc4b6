import Ontosyx.Ontology.IR
import Ontosyx.Query.Occurrences

/-!
# Distinct aggregation

`rewrite_auto_distinct` (`auto_distinct.rs`): an aggregation whose source crosses a
link that fans out counts a row once for every way to reach it, so the pass makes
it distinct.  It asks the ontology for the cardinality of the links behind each
edge label of the source.

## Main results

* `autoDistinct_idempotent` — a second run changes nothing.
* `reachesAggregates_iff` — every aggregation is as it should be after the pass
  exactly if the pass gets to each one that has to change and sees the edge.
-/

namespace Ontosyx.Query

open List Ontosyx.Core Ontology QueryOp

/-- `LinkCardinality::requires_distinct_on_aggregation`. -/
def requiresDistinctOnAggregation : LinkCardinality → Bool
  | .oneToMany | .manyToMany => true
  | .oneToOne | .manyToOne => false

/-! ## The pass -/

/-- `edge_label_requires_distinct`: the mappings of the first edge type with the label. -/
def edgeLabelRequiresDistinct (o : OntologyIR) (edgeLabel : GraphLabel) : Bool :=
  match o.edgeTypes.find? fun e => e.label = edgeLabel with
  | some edgeType =>
    o.linkMappings.any fun lm =>
      lm.edgeTypeId = edgeType.id && requiresDistinctOnAggregation lm.cardinality
  | none => false

def patternRequiresDistinct (o : OntologyIR) : GraphPattern → Bool
  | .relationship _ (some label) _ _ _ _ _ => edgeLabelRequiresDistinct o label
  | .path elements =>
    elements.any fun
      | .edge _ (some label) _ => edgeLabelRequiresDistinct o label
      | _ => false
  | _ => false

mutual
def patternCrossesManyLink (o : OntologyIR) : QueryOp → Bool
  | .match_ patterns _ _ _ _ => patterns.any (patternRequiresDistinct o)
  | .pathFind _ _ edgeTypes _ _ _ => edgeTypes.any (edgeLabelRequiresDistinct o)
  | .union queries _ => branchesCrossManyLink o queries
  | _ => false

/-- `pattern_crosses_many_link` of some branch. -/
def branchesCrossManyLink (o : OntologyIR) : List QueryIR → Bool
  | [] => false
  | ⟨operation, _, _, _, _⟩ :: queries =>
    patternCrossesManyLink o operation || branchesCrossManyLink o queries
end

/-- `agg.distinct = true`. -/
def AggregationExpr.makeDistinct (a : AggregationExpr) : AggregationExpr :=
  { a with distinct := true }

mutual
def rewriteAutoDistinct (o : OntologyIR) : QueryIR → QueryIR
  | ⟨operation, limit, skip, orderBy, asOf⟩ => ⟨walkOp o operation, limit, skip, orderBy, asOf⟩

def walkOp (o : OntologyIR) : QueryOp → QueryOp
  | .aggregate ⟨operation, limit, skip, orderBy, asOf⟩ groupBy aggregations having =>
    let inner := walkOp o operation
    let aggregations :=
      if patternCrossesManyLink o inner then aggregations.map AggregationExpr.makeDistinct
      else aggregations
    .aggregate ⟨inner, limit, skip, orderBy, asOf⟩ groupBy aggregations having
  | .union queries all => .union (rewriteBranches o queries) all
  | .callSubquery inner imports => .callSubquery (rewriteAutoDistinct o inner) imports
  | op => op

def rewriteBranches (o : OntologyIR) : List QueryIR → List QueryIR
  | [] => []
  | q :: queries => rewriteAutoDistinct o q :: rewriteBranches o queries
end

/-! ## What an aggregation counts over -/

/-- A label that fans out: some edge type with it has a link that does. -/
def FansOut (o : OntologyIR) (label : GraphLabel) : Prop :=
  ∃ e ∈ o.edgeTypes, e.label = label ∧ ∃ lm ∈ o.linkMappings,
    lm.edgeTypeId = e.id ∧ requiresDistinctOnAggregation lm.cardinality = true

def PathElement.traversed : PathElement → List GraphLabel
  | .edge _ label _ => label.toList
  | .node _ _ => []

def GraphPattern.traversed : GraphPattern → List GraphLabel
  | .node _ _ _ => []
  | .relationship _ label _ _ _ _ _ => label.toList
  | .path elements => elements.flatMap PathElement.traversed

mutual
/-- The edge labels an operation traverses, at any depth. -/
def QueryOp.traversed : QueryOp → List GraphLabel
  | .match_ patterns _ _ _ _ => patterns.flatMap GraphPattern.traversed
  | .pathFind _ _ edgeTypes _ _ _ => edgeTypes
  | .aggregate source _ _ _ => source.traversed
  | .union queries _ => QueryIR.traversedList queries
  | .chain steps => ChainStep.traversedList steps
  | .callSubquery inner _ => inner.traversed
  | .mutate context _ _ => QueryOp.traversedOption context
  | .analytics _ source _ _ => source.traversed
  | .hybridSearch ⟨_, _, none, _, _⟩ => []
  | .hybridSearch ⟨_, _, some ⟨_, edges, _, _, _, _, _⟩, _, _⟩ =>
    PatternEdge.traversedList edges

def QueryOp.traversedOption : Option QueryOp → List GraphLabel
  | none => []
  | some op => op.traversed

def AnalyticsSource.traversed : AnalyticsSource → List GraphLabel
  | .wholeGraph | .labels _ => []
  | .subgraph filter => filter.traversed

def QueryIR.traversed : QueryIR → List GraphLabel
  | ⟨operation, _, _, _, _⟩ => operation.traversed

def QueryIR.traversedList : List QueryIR → List GraphLabel
  | [] => []
  | q :: qs => q.traversed ++ QueryIR.traversedList qs

def ChainStep.traversedList : List ChainStep → List GraphLabel
  | [] => []
  | ⟨_, operation⟩ :: steps => operation.traversed ++ ChainStep.traversedList steps

def PatternEdge.traversedList : List PatternEdge → List GraphLabel
  | [] => []
  | ⟨_, _, label, _, _, _, _, _⟩ :: es => label.toList ++ PatternEdge.traversedList es
end

structure Aggregation where
  source : QueryIR
  groupBy : List FieldRef
  aggregations : List AggregationExpr
  having : Option Expr

def Occurrence.aggregation : Occurrence → Option Aggregation
  | .operation (.aggregate source groupBy aggregations having) =>
    some ⟨source, groupBy, aggregations, having⟩
  | _ => none

/-- All aggregations of a query, wherever they are nested. -/
def QueryIR.aggregations (q : QueryIR) : List Aggregation :=
  q.occurrences.filterMap Occurrence.aggregation

/-- The aggregation counts over a label that fans out. -/
def Aggregation.CountsTwice (o : OntologyIR) (a : Aggregation) : Prop :=
  ∃ label ∈ a.source.traversed, FansOut o label

/-- What the pass is for: an aggregation that would count twice is distinct
afterwards, any other is unchanged. -/
structure Aggregation.Served (o : OntologyIR) (before after : Aggregation) : Prop where
  distinct : before.CountsTwice o →
    after.aggregations = before.aggregations.map AggregationExpr.makeDistinct
  unchanged : ¬ before.CountsTwice o → after = before

/-- Every aggregation is served, and a second run changes nothing. -/
def ReachesAggregates (o : OntologyIR) (q : QueryIR) : Prop :=
  List.Forall₂ (Aggregation.Served o) q.aggregations (rewriteAutoDistinct o q).aggregations ∧
    rewriteAutoDistinct o (rewriteAutoDistinct o q) = rewriteAutoDistinct o q

/-- An aggregation, and whether `walk_op` gets to it. -/
structure Visit where
  reached : Bool
  at_ : Aggregation

/-- Aggregations that `walk_op` leaves alone. -/
def passed (os : List Occurrence) : List Visit :=
  (os.filterMap Occurrence.aggregation).map (⟨false, ·⟩)

mutual
/-- The aggregations of a query: `walk_op` goes down the sources of aggregations, the
branches of a `UNION` and `CALL` subqueries. -/
def QueryIR.visits : QueryIR → List Visit
  | ⟨operation, _, _, orderBy, _⟩ =>
    operation.visits ++ passed (OrderClause.occurrencesList orderBy)

def QueryOp.visits : QueryOp → List Visit
  | .aggregate source groupBy aggregations having =>
    ⟨true, source, groupBy, aggregations, having⟩ ::
      (source.visits ++ passed (Expr.occurrencesOption having))
  | .union queries _ => QueryIR.visitsList queries
  | .callSubquery inner _ => inner.visits
  | op => passed op.occurrences

def QueryIR.visitsList : List QueryIR → List Visit
  | [] => []
  | q :: qs => q.visits ++ QueryIR.visitsList qs
end

/-- `walk_op` gets to the aggregation and `pattern_crosses_many_link` sees the edge, or
there is nothing to set. -/
def Visit.Marks (o : OntologyIR) (v : Visit) : Prop :=
  (v.reached = true ∧ patternCrossesManyLink o v.at_.source.operation = true) ∨
    ∀ e ∈ v.at_.aggregations, e.distinct = true

/-- The aggregations that would count twice are marked. -/
def MarksAggregates (o : OntologyIR) (q : QueryIR) : Prop :=
  ∀ v ∈ q.visits, v.at_.CountsTwice o → v.Marks o

/-! ## What the pass sees -/

variable {o : OntologyIR}

/-- The links of the first edge type with a label are links of that label. -/
theorem fansOut_of_requires {label : GraphLabel} (h : edgeLabelRequiresDistinct o label = true) :
    FansOut o label := by
  unfold edgeLabelRequiresDistinct at h
  split at h
  · next e hfind =>
      have hlabel := find?_some hfind
      rcases any_eq_true.1 h with ⟨lm, hlm, hdistinct⟩
      rw [Bool.and_eq_true, decide_eq_true_eq] at hdistinct
      exact ⟨e, mem_of_find?_eq_some hfind, of_decide_eq_true hlabel, lm, hlm, hdistinct⟩
  · exact nomatch h

theorem traversed_of_requires {p : GraphPattern} (h : patternRequiresDistinct o p = true) :
    ∃ label ∈ p.traversed, FansOut o label := by
  cases p with
  | node v label filters => exact nomatch h
  | relationship v label source target dir filters varLength =>
    cases label with
    | none => exact nomatch h
    | some label => exact ⟨label, mem_singleton_self label, fansOut_of_requires h⟩
  | path elements =>
    rcases any_eq_true.1 h with ⟨element, helement, hlabel⟩
    rcases element with ⟨v, label⟩ | ⟨v, _ | label, dir⟩
    · exact nomatch hlabel
    · exact nomatch hlabel
    · exact ⟨label, mem_flatMap.2 ⟨_, helement, mem_singleton_self label⟩,
        fansOut_of_requires hlabel⟩

mutual
theorem traversed_of_crosses : (op : QueryOp) → patternCrossesManyLink o op = true →
    ∃ label ∈ op.traversed, FansOut o label
  | .match_ patterns _ _ _ _, h => by
    rw [patternCrossesManyLink] at h
    rcases any_eq_true.1 h with ⟨p, hp, hrequires⟩
    rcases traversed_of_requires hrequires with ⟨label, hlabel, hfans⟩
    rw [traversed]
    exact ⟨label, mem_flatMap.2 ⟨p, hp, hlabel⟩, hfans⟩
  | .pathFind _ _ edgeTypes _ _ _, h => by
    rw [patternCrossesManyLink] at h
    rcases any_eq_true.1 h with ⟨label, hlabel, hrequires⟩
    rw [traversed]
    exact ⟨label, hlabel, fansOut_of_requires hrequires⟩
  | .union queries _, h => by
    rw [patternCrossesManyLink] at h
    rw [traversed]
    exact traversed_of_branchesCross queries h
  | .aggregate _ _ _ _, h | .chain _, h | .callSubquery _ _, h | .mutate _ _ _, h
  | .analytics _ _ _ _, h | .hybridSearch _, h => by
    simp only [patternCrossesManyLink, Bool.false_eq_true] at h

theorem traversed_of_branchesCross : (queries : List QueryIR) →
    branchesCrossManyLink o queries = true →
      ∃ label ∈ QueryIR.traversedList queries, FansOut o label
  | [], h => by simp only [branchesCrossManyLink, Bool.false_eq_true] at h
  | ⟨operation, _, _, _, _⟩ :: queries, h => by
    rw [branchesCrossManyLink, Bool.or_eq_true] at h
    rw [QueryIR.traversedList, QueryIR.traversed]
    rcases h with h | h
    · rcases traversed_of_crosses operation h with ⟨label, hlabel, hfans⟩
      exact ⟨label, mem_append_left _ hlabel, hfans⟩
    · rcases traversed_of_branchesCross queries h with ⟨label, hlabel, hfans⟩
      exact ⟨label, mem_append_right _ hlabel, hfans⟩
end

mutual
/-- Making aggregations distinct does not change what is crossed. -/
theorem crosses_walkOp : (op : QueryOp) →
    patternCrossesManyLink o (walkOp o op) = patternCrossesManyLink o op
  | .match_ _ _ _ _ _ | .pathFind _ _ _ _ _ _ | .chain _ | .mutate _ _ _ | .analytics _ _ _ _
  | .hybridSearch _ => by simp only [walkOp]
  | .aggregate ⟨_, _, _, _, _⟩ _ _ _ | .callSubquery _ _ => by
    simp only [walkOp, patternCrossesManyLink]
  | .union queries _ => by
    rw [walkOp, patternCrossesManyLink, patternCrossesManyLink, branchesCross_rewrite queries]

theorem branchesCross_rewrite : (queries : List QueryIR) →
    branchesCrossManyLink o (rewriteBranches o queries) = branchesCrossManyLink o queries
  | [] => by rw [rewriteBranches]
  | ⟨operation, _, _, _, _⟩ :: queries => by
    rw [rewriteBranches, rewriteAutoDistinct, branchesCrossManyLink, branchesCrossManyLink,
      crosses_walkOp operation, branchesCross_rewrite queries]
end

theorem map_makeDistinct_eq_self {es : List AggregationExpr} :
    es.map AggregationExpr.makeDistinct = es ↔ ∀ e ∈ es, e.distinct = true := by
  constructor
  · intro h e he
    rw [← h] at he
    rcases mem_map.1 he with ⟨e', -, rfl⟩
    rfl
  · intro h
    have hself : ∀ e ∈ es, e.makeDistinct = e := by
      intro e he
      show { e with distinct := true } = e
      rw [← h e he]
    rw [map_congr_left hself]
    exact map_id es

mutual
theorem autoDistinct_idempotent (o : OntologyIR) : (q : QueryIR) →
    rewriteAutoDistinct o (rewriteAutoDistinct o q) = rewriteAutoDistinct o q
  | ⟨operation, _, _, _, _⟩ => by
    rw [rewriteAutoDistinct, rewriteAutoDistinct, walkOp_idempotent o operation]

theorem walkOp_idempotent (o : OntologyIR) : (op : QueryOp) →
    walkOp o (walkOp o op) = walkOp o op
  | .match_ _ _ _ _ _ | .pathFind _ _ _ _ _ _ | .chain _ | .mutate _ _ _ | .analytics _ _ _ _
  | .hybridSearch _ => by simp only [walkOp]
  | .aggregate ⟨operation, limit, skip, orderBy, asOf⟩ groupBy aggregations having => by
    have hinner := walkOp_idempotent o operation
    rw [walkOp, walkOp, hinner]
    congr 1
    split
    · rw [map_makeDistinct_eq_self]
      intro e he
      rcases mem_map.1 he with ⟨e', -, rfl⟩
      rfl
    · rfl
  | .union queries _ => by rw [walkOp, walkOp, rewriteBranches_idempotent o queries]
  | .callSubquery inner _ => by rw [walkOp, walkOp, autoDistinct_idempotent o inner]

theorem rewriteBranches_idempotent (o : OntologyIR) : (queries : List QueryIR) →
    rewriteBranches o (rewriteBranches o queries) = rewriteBranches o queries
  | [] => by rw [rewriteBranches, rewriteBranches]
  | q :: queries => by
    rw [rewriteBranches, rewriteBranches, autoDistinct_idempotent o q,
      rewriteBranches_idempotent o queries]
end

mutual
theorem autoDistinct_eq_self : (q : QueryIR) →
    (∀ label ∈ q.traversed, ¬ FansOut o label) → rewriteAutoDistinct o q = q
  | ⟨operation, _, _, _, _⟩, h => by
    rw [QueryIR.traversed] at h
    rw [rewriteAutoDistinct, walkOp_eq_self operation h]

theorem walkOp_eq_self : (op : QueryOp) →
    (∀ label ∈ op.traversed, ¬ FansOut o label) → walkOp o op = op
  | .match_ _ _ _ _ _, _ | .pathFind _ _ _ _ _ _, _ | .chain _, _ | .mutate _ _ _, _
  | .analytics _ _ _ _, _ | .hybridSearch _, _ => by simp only [walkOp]
  | .aggregate ⟨operation, _, _, _, _⟩ _ _ _, h => by
    rw [traversed, QueryIR.traversed] at h
    have hcrosses : patternCrossesManyLink o operation ≠ true := by
      intro hcrosses
      rcases traversed_of_crosses operation hcrosses with ⟨label, hlabel, hfans⟩
      exact h label hlabel hfans
    rw [walkOp, walkOp_eq_self operation h]
    rw [if_neg hcrosses]
  | .union queries _, h => by
    rw [traversed] at h
    rw [walkOp, rewriteBranches_eq_self queries h]
  | .callSubquery inner _, h => by
    rw [traversed] at h
    rw [walkOp, autoDistinct_eq_self inner h]

theorem rewriteBranches_eq_self : (queries : List QueryIR) →
    (∀ label ∈ QueryIR.traversedList queries, ¬ FansOut o label) →
      rewriteBranches o queries = queries
  | [], _ => by rw [rewriteBranches]
  | q :: queries, h => by
    rw [QueryIR.traversedList, forall_mem_append] at h
    rw [rewriteBranches, autoDistinct_eq_self q h.1, rewriteBranches_eq_self queries h.2]
end

/-! ## Every aggregation -/

theorem passed_at (os : List Occurrence) :
    (passed os).map (·.at_) = os.filterMap Occurrence.aggregation := by
  rw [passed, map_map]
  exact map_id _

mutual
theorem QueryIR.visits_at : (q : QueryIR) → q.visits.map (·.at_) = q.aggregations
  | ⟨operation, _, _, orderBy, _⟩ => by
    rw [QueryIR.visits, QueryIR.aggregations, QueryIR.occurrences, map_append,
      filterMap_append, operation.visits_at, passed_at]

theorem QueryOp.visits_at : (op : QueryOp) →
    op.visits.map (·.at_) = op.occurrences.filterMap Occurrence.aggregation
  | .match_ _ _ _ _ _ | .pathFind _ _ _ _ _ _ | .chain _ | .mutate _ _ _ | .analytics _ _ _ _
  | .hybridSearch _ => by simp only [visits, passed_at]
  | .aggregate source _ _ _ => by
    have hsource := source.visits_at
    rw [QueryIR.aggregations] at hsource
    rw [visits, occurrences, map_cons, map_append, hsource, passed_at,
      filterMap_cons, filterMap_append]
    rfl
  | .union queries _ => by
    rw [visits, occurrences, QueryIR.visitsList_at queries]
    rfl
  | .callSubquery inner _ => by
    rw [visits, occurrences, inner.visits_at]
    rfl

theorem QueryIR.visitsList_at : (queries : List QueryIR) →
    (QueryIR.visitsList queries).map (·.at_) =
      (QueryIR.occurrencesList queries).filterMap Occurrence.aggregation
  | [] => by
    rw [QueryIR.visitsList, QueryIR.occurrencesList]
    rfl
  | q :: queries => by
    rw [QueryIR.visitsList, QueryIR.occurrencesList, map_append, filterMap_append,
      q.visits_at, QueryIR.visitsList_at queries]
    rfl
end

structure Visit.Leaves (o : OntologyIR) (v : Visit) (after : Aggregation) : Prop where
  aggregations : after.aggregations =
    if v.reached = true ∧ patternCrossesManyLink o v.at_.source.operation = true then
      v.at_.aggregations.map AggregationExpr.makeDistinct
    else v.at_.aggregations
  unchanged : ¬ v.at_.CountsTwice o → after = v.at_

theorem passed_leaves (o : OntologyIR) (os : List Occurrence) :
    List.Forall₂ (Visit.Leaves o) (passed os) (os.filterMap Occurrence.aggregation) := by
  rw [passed, forall₂_map_left_iff, forall₂_same]
  intro a _
  exact ⟨(if_neg fun h => nomatch h.1).symm, fun _ => rfl⟩

theorem aggregate_leaves (o : OntologyIR) (source : QueryIR) (groupBy : List FieldRef)
    (aggregations : List AggregationExpr) (having : Option Expr) :
    Visit.Leaves o ⟨true, source, groupBy, aggregations, having⟩
      ⟨rewriteAutoDistinct o source, groupBy,
        if patternCrossesManyLink o (walkOp o source.operation) then
          aggregations.map AggregationExpr.makeDistinct
        else aggregations, having⟩ := by
  rw [crosses_walkOp]
  refine ⟨?_, ?_⟩
  · simp only [true_and]
  · intro hcounts
    have htraversed : ∀ label ∈ source.traversed, ¬ FansOut o label :=
      fun label hlabel hfans => hcounts ⟨label, hlabel, hfans⟩
    have hcrosses : patternCrossesManyLink o source.operation ≠ true := by
      intro hcrosses
      rcases traversed_of_crosses _ hcrosses with ⟨label, hlabel, hfans⟩
      rcases source with ⟨operation, limit, skip, orderBy, asOf⟩
      rw [QueryIR.traversed] at htraversed
      exact htraversed label hlabel hfans
    rw [autoDistinct_eq_self source htraversed, if_neg hcrosses]

mutual
theorem QueryIR.visits_leave (o : OntologyIR) : (q : QueryIR) →
    List.Forall₂ (Visit.Leaves o) q.visits (rewriteAutoDistinct o q).aggregations
  | ⟨operation, _, _, orderBy, _⟩ => by
    rw [QueryIR.visits, rewriteAutoDistinct, QueryIR.aggregations, QueryIR.occurrences,
      filterMap_append]
    exact rel_append (operation.visits_leave o) (passed_leaves o _)

theorem QueryOp.visits_leave (o : OntologyIR) : (op : QueryOp) →
    List.Forall₂ (Visit.Leaves o) op.visits
      ((walkOp o op).occurrences.filterMap Occurrence.aggregation)
  | .match_ _ _ _ _ _ | .pathFind _ _ _ _ _ _ | .chain _ | .mutate _ _ _ | .analytics _ _ _ _
  | .hybridSearch _ => by
    simp only [walkOp, visits]
    exact passed_leaves o _
  | .aggregate ⟨operation, limit, skip, orderBy, asOf⟩ groupBy aggregations having => by
    have hhead := aggregate_leaves o ⟨operation, limit, skip, orderBy, asOf⟩ groupBy aggregations
      having
    have hsource := QueryIR.visits_leave o ⟨operation, limit, skip, orderBy, asOf⟩
    rw [rewriteAutoDistinct] at hhead hsource
    rw [walkOp, visits, occurrences, filterMap_cons, filterMap_append]
    exact .cons hhead (rel_append hsource (passed_leaves o _))
  | .union queries _ => by
    rw [walkOp, visits, occurrences, filterMap_cons]
    exact QueryIR.visitsList_leave o queries
  | .callSubquery inner _ => by
    rw [walkOp, visits, occurrences, filterMap_cons]
    exact inner.visits_leave o

theorem QueryIR.visitsList_leave (o : OntologyIR) : (queries : List QueryIR) →
    List.Forall₂ (Visit.Leaves o) (QueryIR.visitsList queries)
      ((QueryIR.occurrencesList (rewriteBranches o queries)).filterMap Occurrence.aggregation)
  | [] => by
    rw [QueryIR.visitsList, rewriteBranches, QueryIR.occurrencesList]
    exact .nil
  | q :: queries => by
    rw [QueryIR.visitsList, rewriteBranches, QueryIR.occurrencesList, filterMap_append]
    exact rel_append (q.visits_leave o) (QueryIR.visitsList_leave o queries)
end

/-- One aggregation is served exactly if it is marked when it has to be. -/
theorem Visit.Leaves.served_iff {v : Visit} {after : Aggregation} (h : v.Leaves o after) :
    v.at_.Served o after ↔ (v.at_.CountsTwice o → v.Marks o) := by
  constructor
  · intro hserved hcounts
    have hset := hserved.distinct hcounts
    rw [h.aggregations] at hset
    by_cases hsees : v.reached = true ∧ patternCrossesManyLink o v.at_.source.operation = true
    · exact Or.inl hsees
    · rw [if_neg hsees] at hset
      exact Or.inr (map_makeDistinct_eq_self.1 hset.symm)
  · intro hmarks
    refine ⟨?_, h.unchanged⟩
    intro hcounts
    rw [h.aggregations]
    rcases hmarks hcounts with hsees | hall
    · rw [if_pos hsees]
    · rw [map_makeDistinct_eq_self.2 hall, ite_self]

/-- Customers and what they bought; one customer has many purchases. -/
def purchases : OntologyIR where
  id := "o"
  name := "shop"
  nodeTypes := []
  edgeTypes := [{
    id := ⟨"bought"⟩
    label := ⟨"BOUGHT", by decide⟩
    sourceNodeId := ⟨"customer"⟩
    targetNodeId := ⟨"product"⟩ }]
  linkMappings := [{
    id := ⟨"l"⟩
    edgeTypeId := ⟨"bought"⟩
    kind := .computed "true"
    sourceEndpoint := ⟨⟨"s"⟩, "customers", []⟩
    targetEndpoint := ⟨⟨"s"⟩, "products", []⟩
    cardinality := .oneToMany }]

def countCustomers : QueryOp :=
  .aggregate
    ⟨.match_ [.relationship none (some ⟨"BOUGHT", by decide⟩) ⟨"c"⟩ ⟨"p"⟩ .outgoing [] none] none []
      false [], none, none, [], none⟩
    [] [⟨.count, ⟨⟨"c"⟩, none⟩, "n", false⟩] none

def countInChain : QueryIR := ⟨.chain [⟨[], countCustomers⟩], none, none, [], none⟩

/-- `walk_op` returns the steps of a chain as they are. -/
theorem chain_not_reached : ¬ ReachesAggregates purchases countInChain := by
  intro h
  have hserved := (forall₂_cons.1 h.1).1
  have hcounts : Aggregation.CountsTwice purchases
      ⟨⟨.match_ [.relationship none (some ⟨"BOUGHT", by decide⟩) ⟨"c"⟩ ⟨"p"⟩ .outgoing [] none] none
        [] false [], none, none, [], none⟩, [], [⟨.count, ⟨⟨"c"⟩, none⟩, "n", false⟩], none⟩ :=
    ⟨⟨"BOUGHT", by decide⟩, mem_singleton_self _, fansOut_of_requires (by decide)⟩
  exact absurd (hserved.distinct hcounts) (by decide)

/-- The pass reaches every aggregation exactly if each one that would count twice is
distinct already, or lies on the way of the pass with the edge in plain sight. -/
theorem reachesAggregates_iff (o : OntologyIR) (q : QueryIR) :
    ReachesAggregates o q ↔ MarksAggregates o q := by
  have hleaves := q.visits_leave o
  rw [ReachesAggregates, and_iff_left (autoDistinct_idempotent o q), MarksAggregates,
    ← q.visits_at, forall₂_map_left_iff]
  generalize (rewriteAutoDistinct o q).aggregations = after at hleaves
  generalize q.visits = visits at hleaves
  induction hleaves with
  | nil => simp
  | cons hv _ ih =>
    rw [forall₂_cons, forall_mem_cons]
    exact and_congr hv.served_iff ih

end Ontosyx.Query
