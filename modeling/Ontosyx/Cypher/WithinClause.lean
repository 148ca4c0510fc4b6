import Ontosyx.Cypher.Parse
import Ontosyx.Lib.PathWalk

/-!
# Patterns without a common variable

The complexity check of a statement reports a clause whose comma-separated patterns fall
into groups that share no variable.  It looks at every clause that has patterns, a write
as well as a match.

## Main results

* `allConnected_iff` — the answer for a list of variable sets.
* `ComplexityValidator.exact_iff` — the reports are right exactly if the patterns of
  every creation and merge hang together.
-/

namespace Ontosyx.Cypher

open Relation Lib.Search List

/-! ## Components -/

def patternVariables (pattern : CypherPattern) : Finset Text :=
  (pattern.elements.filterMap fun
    | .node n => n.variableName
    | .relationship r => r.variableName).toFinset

/-- The components with a number share a variable. -/
def overlap (components : List (Finset Text)) (i j : Nat) : Bool :=
  components.getD i ∅ ∩ components.getD j ∅ ≠ ∅

/-- `adj[node]`: the pairs are tried in order, and each end is pushed to the other's list. -/
def neighbours (components : List (Finset Text)) (node : Nat) : List Nat :=
  (range components.length).flatMap fun i =>
    (range' (i + 1) (components.length - (i + 1))).flatMap fun j =>
      if overlap components i j then
        (if i = node then [j] else []) ++ (if j = node then [i] else [])
      else []

def componentsAllConnected (components : List (Finset Text)) : Bool :=
  if components.length < 2 then true
  else
    match search (neighbours components) components.length ⟨[0], [0]⟩ with
    | some visited => (range components.length).all (· ∈ visited)
    | none => false

/-- The components fall into two groups that share no variable. -/
def Splits (components : List (Finset Text)) : Prop :=
  ∃ group : Nat → Prop, (∃ i < components.length, group i) ∧ (∃ j < components.length, ¬group j) ∧
    ∀ i < components.length, group i → ∀ j < components.length, ¬group j →
      Disjoint (components.getD i ∅) (components.getD j ∅)

variable {components : List (Finset Text)}

theorem overlap_iff {i j : Nat} : overlap components i j = true ↔
    ¬Disjoint (components.getD i ∅) (components.getD j ∅) := by
  rw [overlap, decide_eq_true_iff, Finset.disjoint_iff_inter_eq_empty]

theorem overlap_comm (i j : Nat) : overlap components i j = overlap components j i := by
  rw [overlap, overlap, Finset.inter_comm]

theorem mem_neighbours_iff {node next : Nat} : next ∈ neighbours components node ↔
    node < components.length ∧ next < components.length ∧ node ≠ next ∧
      overlap components node next = true := by
  simp only [neighbours, mem_flatMap, mem_range, mem_range'_1]
  constructor
  · rintro ⟨i, hi, j, hj, hmem⟩
    split at hmem
    · rename_i hover
      rcases mem_append.1 hmem with hmem | hmem <;> split at hmem
      · rename_i heq
        obtain rfl := mem_singleton.1 hmem
        exact ⟨by omega, by omega, by omega, heq ▸ hover⟩
      · cases hmem
      · rename_i heq
        obtain rfl := mem_singleton.1 hmem
        exact ⟨by omega, by omega, by omega, by rwa [← heq, overlap_comm]⟩
      · cases hmem
    · cases hmem
  · rintro ⟨hnode, hnext, hne, hover⟩
    rcases Nat.lt_or_gt_of_ne hne with hlt | hlt
    · exact ⟨node, hnode, next, by omega, by simp [hover]⟩
    · exact ⟨next, hnext, node, by omega, by simp [overlap_comm next, hover]⟩

/-- The search from the first component visits those that are connected with it. -/
theorem search_neighbours (h : components ≠ []) :
    ∃ visited, search (neighbours components) components.length ⟨[0], [0]⟩ = some visited ∧
      ∀ j, j ∈ visited ↔ ReflTransGen (fun i j => j ∈ neighbours components i) 0 j := by
  have hinv : State.Inv (neighbours components) ⟨[0], [0]⟩ :=
    ⟨nodup_singleton 0, fun _ ha => ha, fun _ ha => .inl ha⟩
  have hzero : ∀ a ∈ [0], a ∈ Finset.range components.length := fun a ha => by
    rw [mem_singleton.1 ha, Finset.mem_range]
    exact length_pos_iff.2 h
  have hclosed : ∀ a ∈ Finset.range components.length, ∀ b ∈ neighbours components a,
      b ∈ Finset.range components.length :=
    fun a _ b hb => Finset.mem_range.2 (mem_neighbours_iff.1 hb).2.1
  obtain ⟨visited, hsearch, hmem⟩ := search_spec hclosed hinv hzero (by rw [Finset.card_range])
  exact ⟨visited, hsearch, fun j => (hmem j).trans (by simp)⟩

theorem allConnected_iff : componentsAllConnected components = true ↔
    ¬Splits components := by
  unfold componentsAllConnected
  split
  · rename_i hfew
    refine iff_of_true rfl ?_
    rintro ⟨group, ⟨i, hi, hgroup⟩, ⟨j, hj, hnot⟩, -⟩
    obtain rfl : i = j := by omega
    exact hnot hgroup
  · rename_i hmany
    have hne : components ≠ [] := fun h => hmany (by simp [h])
    obtain ⟨visited, hsearch, hmem⟩ := search_neighbours hne
    simp only [hsearch, all_eq_true, mem_range, decide_eq_true_iff]
    constructor
    · rintro hall ⟨group, ⟨i, hi, hgroup⟩, ⟨j, hj, hnot⟩, hdisjoint⟩
      -- a walk never leaves the group it starts in
      have hwalk : ∀ k, ReflTransGen (fun i j => j ∈ neighbours components i) 0 k →
          (group k ↔ group 0) := by
        intro k hk
        induction hk with
        | refl => rfl
        | @tail a b _ hstep ih =>
          obtain ⟨ha, hb, -, hover⟩ := mem_neighbours_iff.1 hstep
          rw [overlap_iff] at hover
          rw [← ih]
          by_contra hcross
          rcases (not_iff.1 hcross).symm with _
          by_cases hga : group a
          · exact hover (hdisjoint a ha hga b hb fun hgb => hcross (iff_of_true hgb hga))
          · by_cases hgb : group b
            · exact hover (hdisjoint b hb hgb a ha hga).symm
            · exact hcross (iff_of_false hgb hga)
      have hi := (hwalk i ((hmem i).1 (hall i hi))).1 hgroup
      exact hnot ((hwalk j ((hmem j).1 (hall j hj))).2 hi)
    · intro hsplits j hj
      by_contra hnot
      refine hsplits ⟨(· ∈ visited), ⟨0, by omega, (hmem 0).2 .refl⟩, ⟨j, hj, hnot⟩, ?_⟩
      intro a ha hin b hb hout
      by_contra hshare
      refine hout ((hmem b).2 (((hmem a).1 hin).tail (mem_neighbours_iff.2 ⟨ha, hb, ?_, ?_⟩)))
      · rintro rfl
        exact hout hin
      · exact overlap_iff.2 hshare

/-! ## The validator -/

namespace ComplexityValidator

inductive Severity where
  | error
  | warning
deriving DecidableEq

structure Issue where
  severity : Severity
  code : String
  span : Option Span
deriving DecidableEq

/-- A turn of the check of each clause. -/
def withinClause (clause : CypherClause) : List Issue :=
  if clause.patterns.length < 2 then []
  else if !clause.kind.hasPatterns then []
  else if componentsAllConnected (clause.patterns.map patternVariables) then []
  else [⟨.error, "runtime.cypher.complexity.cartesian_within_clause", some clause.span⟩]

/-- A WITH opens a segment, and a match adds its variables to the last one. -/
def addToSegments (segments : List (List (Finset Text))) (clause : CypherClause) :
    List (List (Finset Text)) :=
  match clause.kind with
  | .withClause => segments ++ [[]]
  | .matchClause | .optionalMatch =>
    let vars := (clause.patterns.map patternVariables).foldl (· ∪ ·) ∅
    if vars = ∅ then segments else segments.modifyLast (· ++ [vars])
  | _ => segments

def flagCrossClauseDisconnection (statement : CypherStatement) : List Issue :=
  if (statement.clauses.foldl addToSegments [[]]).any fun segment =>
      !(segment.length < 2) && !componentsAllConnected segment then
    [⟨.warning, "runtime.cypher.complexity.cross_clause_disconnection", none⟩]
  else []

def unboundedVarLength (rejectUnbounded : Bool) : CypherPatternElement → List Issue
  | .node _ => []
  | .relationship r =>
    match r.varLength with
    | some (_, none) =>
      [⟨if rejectUnbounded then .error else .warning,
        "runtime.cypher.complexity.unbounded_var_length", some r.span⟩]
    | _ => []

/-- A turn of the loop of `validate`. -/
def validateStatement (rejectUnbounded : Bool) (statement : CypherStatement) : List Issue :=
  statement.clauses.flatMap withinClause ++ flagCrossClauseDisconnection statement ++
    (statement.clauses.flatMap fun c => c.patterns.flatMap (·.elements)).flatMap
      (unboundedVarLength rejectUnbounded)

/-- The report of a cartesian product. -/
def Issue.IsCartesian (i : Issue) : Prop :=
  i.code = "runtime.cypher.complexity.cartesian_within_clause"

/-- The patterns of a clause fall into two groups that share no variable. -/
def FallsApart (clause : CypherClause) : Prop := Splits (clause.patterns.map patternVariables)

variable {rejectUnbounded : Bool} {statement : CypherStatement} {clause : CypherClause}

theorem mem_withinClause_iff {i : Issue} : i ∈ withinClause clause ↔
    clause.kind.hasPatterns = true ∧ FallsApart clause ∧
      i = ⟨.error, "runtime.cypher.complexity.cartesian_within_clause", some clause.span⟩ := by
  have hsplits := @allConnected_iff (clause.patterns.map patternVariables)
  unfold withinClause
  split
  · rename_i hfew
    refine iff_of_false not_mem_nil fun h => ?_
    obtain ⟨group, ⟨a, ha, hgroup⟩, ⟨b, hb, hnot⟩, -⟩ := h.2.1
    rw [length_map] at ha hb
    obtain rfl : a = b := by omega
    exact hnot hgroup
  · cases hkind : clause.kind.hasPatterns with
    | false => simp
    | true =>
      by_cases hconn : componentsAllConnected (clause.patterns.map patternVariables) = true
      · simp [hconn, FallsApart, hsplits.1 hconn]
      · simp [hconn, FallsApart, not_not.1 fun h => hconn (hsplits.2 h)]

/-- No other check reports a cartesian product. -/
theorem mem_of_isCartesian {i : Issue} (hi : i ∈ validateStatement rejectUnbounded statement)
    (hc : i.IsCartesian) : ∃ c ∈ statement.clauses, i ∈ withinClause c := by
  rcases mem_append.1 hi with hi | hi
  · rcases mem_append.1 hi with hi | hi
    · exact mem_flatMap.1 hi
    · unfold flagCrossClauseDisconnection at hi
      split at hi
      · obtain rfl := mem_singleton.1 hi
        exact absurd hc (by simp [Issue.IsCartesian])
      · cases hi
  · obtain ⟨e, -, hi⟩ := mem_flatMap.1 hi
    cases e with
    | node n => cases hi
    | relationship r =>
      simp only [unboundedVarLength] at hi
      split at hi
      · obtain rfl := mem_singleton.1 hi
        exact absurd hc (by simp [Issue.IsCartesian])
      · cases hi

/-- A cartesian product is reported for the clauses with patterns that fall apart. -/
theorem reports_iff : (∃ i ∈ validateStatement rejectUnbounded statement, i.IsCartesian) ↔
      ∃ c ∈ statement.clauses, c.kind.hasPatterns = true ∧ FallsApart c := by
  constructor
  · rintro ⟨i, hi, hc⟩
    obtain ⟨c, hmem, hwithin⟩ := mem_of_isCartesian hi hc
    obtain ⟨hkind, hapart, -⟩ := mem_withinClause_iff.1 hwithin
    exact ⟨c, hmem, hkind, hapart⟩
  · rintro ⟨c, hmem, hkind, hapart⟩
    refine ⟨_, mem_append_left _ (mem_append_left _ (mem_flatMap.2
      ⟨c, hmem, mem_withinClause_iff.2 ⟨hkind, hapart, rfl⟩⟩)), rfl⟩

/-- A cartesian product is reported exactly for matches whose patterns fall apart, and no
creation or merge is rejected for one. -/
def Exact (rejectUnbounded : Bool) (statement : CypherStatement) : Prop :=
  ((∃ i ∈ validateStatement rejectUnbounded statement, i.IsCartesian) ↔
    ∃ c ∈ statement.clauses, c.isMatch = true ∧ FallsApart c) ∧
  ∀ c ∈ statement.clauses, c.isCreate = true → withinClause c = []

theorem hasPatterns_iff : clause.kind.hasPatterns = true ↔
    clause.isMatch = true ∨ clause.isCreate = true := by
  cases h : clause.kind <;> simp [ClauseKind.hasPatterns, CypherClause.isMatch,
    CypherClause.isCreate, h]

theorem withinClause_nil_iff (h : clause.kind.hasPatterns = true) :
    withinClause clause = [] ↔ ¬FallsApart clause := by
  rw [eq_nil_iff_forall_not_mem]
  constructor
  · exact fun hnone hapart => hnone _ (mem_withinClause_iff.2 ⟨h, hapart, rfl⟩)
  · exact fun hwhole i hi => hwhole (mem_withinClause_iff.1 hi).2.1

theorem exact_iff (rejectUnbounded : Bool) (statement : CypherStatement) :
    Exact rejectUnbounded statement ↔
      ∀ c ∈ statement.clauses, c.isCreate = true → ¬FallsApart c := by
  have hnil : (∀ c ∈ statement.clauses, c.isCreate = true → withinClause c = []) ↔
      ∀ c ∈ statement.clauses, c.isCreate = true → ¬FallsApart c :=
    forall₃_congr fun c _ hc => withinClause_nil_iff (hasPatterns_iff.2 (.inr hc))
  rw [Exact, hnil, and_iff_right_iff_imp]
  intro hwhole
  rw [reports_iff]
  refine exists_congr fun c => and_congr_right fun hmem => ?_
  rw [hasPatterns_iff, or_and_right]
  exact or_iff_left fun hc => hwhole c hmem hc.1 hc.2

/-- `CREATE (a:A), (b:B)`. -/
def createTwo : CypherClause where
  kind := .create
  text := "CREATE (a:A), (b:B)".toList
  span := ⟨0, 19⟩
  patterns := [
    ⟨[.node { variableName := some ['a'], labels := [['A']], span := ⟨7, 12⟩ }], ⟨7, 12⟩⟩,
    ⟨[.node { variableName := some ['b'], labels := [['B']], span := ⟨14, 19⟩ }], ⟨14, 19⟩⟩]

theorem createTwo_rejected : ¬Exact true ⟨[createTwo]⟩ := by
  rintro ⟨-, hnone⟩
  exact absurd (hnone createTwo (mem_singleton_self _) rfl) (by decide)

end ComplexityValidator

end Ontosyx.Cypher
