import Ontosyx.Cypher.Levels
import Ontosyx.Cypher.Safety

/-!
# Which destruction the safety validators see

A statement that deletes or removes is bounded when one of its `WHERE`s is not a recognised
tautology.  The two safety validators see the clauses of the top level only, and take every
keyword token for a keyword: the bodies of `CALL` and of `FOREACH` are out of their sight,
and a property named `where` passes for a `WHERE`.

## Main results

* `not_drop_of_accepted` — an accepted query has no keyword `DROP`.
* `bounded_of_accepted` — a destructive clause of the top level is bounded.
* `destructionCaught_iff` — destruction is bounded where the blind spots are.
-/

namespace Ontosyx.Cypher

open List Bool

/-! ## Destruction -/

/-- `DELETE`, also after `DETACH`, or `REMOVE`. -/
def Lexeme.isDestructive (l : Lexeme) : Bool := l.isKeyword "DELETE" || l.isKeyword "REMOVE"

/-- The trees, read after `prev`, delete or remove, themselves or in a `FOREACH`. -/
def destroys : Option Lexeme → List Tree → Bool
  | _, [] => false
  | prev, .leaf l :: ts => (l.named prev).isDestructive || destroys (some (l.named prev)) ts
  | prev, .group _ children :: ts =>
    (prev.any (·.isKeyword "FOREACH") && destroys none children) || destroys none ts

/-- A statement deletes or removes. -/
def Destroys (s : List (ClauseKind × List Tree)) : Prop := destroys none (statementTrees s) = true

/-- The statement has a `WHERE` whose predicate is no recognised tautology. -/
def Bounded (s : List (ClauseKind × List Tree)) : Prop :=
  ∃ c ∈ s, c.1 = .whereClause ∧ isTautologicalWhere (flattenAll (ownTrees c.2)) = false

/-- On every level every statement that destroys is bounded. -/
def DestructionBounded (ts : List Tree) : Prop :=
  ∀ level ∈ levels ts, ∀ s ∈ levelStatements level, Destroys s → Bounded s

/-- Nothing is dropped and no destruction is unbounded. -/
def DestructionCaught (text : Text) : Prop :=
  (∀ ls, lex text = some ls → ∀ l ∈ ls, l.isKeyword "DROP" = false) ∧
    ∀ ts, Reads text ts → DestructionBounded ts

/-- What the validators do not see is bounded by itself: the bodies of subqueries, the
statements with a `FOREACH`, and those with a keyword for a name. -/
def BlindSpotsBounded (text : Text) (ts : List Tree) : Prop :=
  (∀ body ∈ callBodies ts, ∀ s ∈ levelStatements body, Destroys s → Bounded s) ∧
    ∀ s ∈ levelStatements ts, Destroys s →
      Bounded s ∨ Plain text ts ∧ ∀ t ∈ statementTrees s, t.isKeyword "FOREACH" = false

theorem mem_lexemesOf_of_lex {text : Text} {ls : List Lexeme} {tokens : List CypherToken}
    {l : Lexeme} (hlex : lex text = some ls) (htokens : tokenize text = some tokens)
    (hl : l ∈ ls) : l ∈ lexemesOf tokens := by
  rcases Option.map_eq_some_iff.1 htokens with ⟨all, hall, rfl⟩
  unfold lex at hlex
  rw [hall, Option.map_some, Option.some_inj] at hlex
  rw [← hlex, mem_filter] at hl
  rw [lexemesOf_withSpans, mem_filter]
  refine ⟨hl.1, ?_⟩
  by_cases htrivia : l.isTrivia = true
  · rw [isBlank_of_isTrivia htrivia] at hl
    exact absurd hl.2 false_ne_true
  · rw [eq_false_iff.2 htrivia]
    rfl

/-- The keyword `DROP` is found wherever it stands. -/
theorem not_drop_of_accepted {text : Text} {ls : List Lexeme} {l : Lexeme} (h : Accepted text)
    (hlex : lex text = some ls) (hl : l ∈ ls) : l.isKeyword "DROP" = false := by
  rcases h with ⟨ast, hparse, hsafe, -⟩
  by_contra hdrop
  rw [not_eq_false] at hdrop
  rcases Option.bind_eq_some_iff.1 hparse with ⟨tokens, htokens, hast⟩
  have hmem := mem_lexemesOf_of_lex hlex htokens hl
  rcases mem_of_parseAst (Nat.lt_succ_self _) hast hmem with hunion | ⟨s, hs, c, hc, hl⟩
  · unfold Lexeme.isUnionWord at hunion
    rcases or_eq_true_iff.1 hunion with hunion | hunion
    · exact absurd (isKeyword_unique hdrop hunion) (by decide)
    · exact absurd (isKeyword_unique hdrop hunion) (by decide)
  · unfold SafetyValidator.validate at hsafe
    have hclause := flatMap_eq_nil_iff.1 (flatMap_eq_nil_iff.1 hsafe s hs) c hc
    unfold SafetyValidator.validateClause at hclause
    rw [append_eq_nil_iff, append_eq_nil_iff, map_eq_nil_iff] at hclause
    unfold lexemesOf significant at hl
    rcases mem_map.1 hl with ⟨t, ht, rfl⟩
    exact filter_eq_nil_iff.1 hclause.1.2 t (mem_filter.1 ht).1 hdrop

/-- Without a `FOREACH` the destructive keyword is among the trees themselves. -/
theorem exists_of_destroys {ts : List Tree} : ∀ {prev : Option Lexeme},
    (∀ t ∈ ts, t.isKeyword "FOREACH" = false) → prev.any (·.isKeyword "FOREACH") = false →
    destroys prev ts = true → ∃ l, .leaf l ∈ ts ∧ l.isDestructive = true := by
  induction ts with
  | nil =>
    intro prev _ _ h
    simp only [destroys] at h
    cases h
  | cons t ts ih =>
    intro prev hts hprev h
    have htail : ∀ t ∈ ts, t.isKeyword "FOREACH" = false :=
      fun t ht => hts t (mem_cons_of_mem _ ht)
    have hlift : (∃ l, .leaf l ∈ ts ∧ l.isDestructive = true) →
        ∃ l, .leaf l ∈ t :: ts ∧ l.isDestructive = true :=
      fun ⟨l, hl, hdestroys⟩ => ⟨l, mem_cons_of_mem _ hl, hdestroys⟩
    cases t with
    | leaf l =>
      simp only [destroys] at h
      rcases or_eq_true_iff.1 h with h | h
      · refine ⟨l, mem_cons_self, ?_⟩
        unfold Lexeme.isDestructive at h ⊢
        rcases Bool.or_eq_true_iff.1 h with h | h
        · rw [isKeyword_named h, Bool.true_or]
        · rw [isKeyword_named h, Bool.or_true]
      · refine hlift (ih htail ?_ h)
        have hhead : l.isKeyword "FOREACH" = false := hts _ mem_cons_self
        rw [Option.any_some, Bool.eq_false_iff]
        intro hnamed
        rw [isKeyword_named hnamed] at hhead
        cases hhead
    | group opener children =>
      simp only [destroys] at h
      rw [hprev, Bool.false_and, Bool.false_or] at h
      exact hlift (ih htail rfl h)

theorem kind_of_isDestructive {ts : List Tree} {s : List (ClauseKind × List Tree)}
    {c : ClauseKind × List Tree} {l : Lexeme} (hs : s ∈ statementsOf ts) (hc : c ∈ s)
    (hl : .leaf l ∈ c.2) (h : l.isDestructive = true) :
    SemanticGuardValidator.isDestructive c.1 = true := by
  have hlong : ∀ long ∈ clauseHeads, (long.2.1 = some "DELETE" ∨ long.2.1 = some "REMOVE") →
      SemanticGuardValidator.isDestructive long.2.2 = true := by
    decide
  rcases Bool.or_eq_true_iff.1 h with h | h
  · have hhead : ("DELETE", none, ClauseKind.delete) ∈ clauseHeads := by decide
    rcases kind_of_mem_statement hs hc hl hhead h rfl with hkind | ⟨long, hmem, hword, hkind⟩
    · rw [hkind]
      rfl
    · rw [hkind]
      exact hlong long hmem (Or.inl hword)
  · have hhead : ("REMOVE", none, ClauseKind.remove) ∈ clauseHeads := by decide
    rcases kind_of_mem_statement hs hc hl hhead h rfl with hkind | ⟨long, hmem, hword, hkind⟩
    · rw [hkind]
      rfl
    · rw [hkind]
      exact hlong long hmem (Or.inr hword)

theorem destructive_of_isDestructive {kind : ClauseKind}
    (h : SemanticGuardValidator.isDestructive kind = true) :
    ∃ code, SafetyValidator.destructive kind = some code := by
  cases kind
  all_goals first
    | exact ⟨_, rfl⟩
    | cases h

/-- A statement with a destructive clause, of which neither validator reports anything, has
a `WHERE` that is no tautology. -/
theorem where_of_validate {ast : CypherAst} {s : CypherStatement} {c : CypherClause}
    (hsafe : SafetyValidator.validate ast = []) (hguard : SemanticGuardValidator.validate ast = [])
    (hs : s ∈ ast.statements) (hc : c ∈ s.clauses)
    (hkind : SemanticGuardValidator.isDestructive c.kind = true) :
    ∃ w ∈ s.clauses, w.kind = .whereClause ∧ isTautologicalWhere (lexemesOf w.tokens) = false := by
  have hwhere : SafetyValidator.hasWhere s = true := by
    by_contra hnone
    rw [Bool.not_eq_true] at hnone
    have hclause := flatMap_eq_nil_iff.1 (flatMap_eq_nil_iff.1 hsafe s hs) c hc
    unfold SafetyValidator.validateClause at hclause
    rcases destructive_of_isDestructive hkind with ⟨code, hcode⟩
    rw [hnone, hcode, if_neg Bool.false_ne_true] at hclause
    cases hclause
  have hstatement := flatMap_eq_nil_iff.1 hguard s hs
  unfold SemanticGuardValidator.validateStatement at hstatement
  have hany : (s.clauses.any fun c => SemanticGuardValidator.isDestructive c.kind) = true :=
    any_eq_true.2 ⟨c, hc, hkind⟩
  rw [hany, Bool.not_true, if_neg Bool.false_ne_true] at hstatement
  rcases any_eq_true.1 hwhere with ⟨w, hw, hwkind⟩
  have hmem : lexemesOf w.tokens ∈ SemanticGuardValidator.whereClauses s :=
    mem_map.2 ⟨w, mem_filter.2 ⟨hw, hwkind⟩, rfl⟩
  rw [isEmpty_eq_false_iff.2 (ne_nil_of_mem hmem), if_neg Bool.false_ne_true]
    at hstatement
  by_cases hall : (SemanticGuardValidator.whereClauses s).all isTautologicalWhere = true
  · rw [if_pos hall] at hstatement
    cases hstatement
  · rw [not_eq_true, all_eq_false] at hall
    rcases hall with ⟨ls, hls, hnot⟩
    rcases mem_map.1 hls with ⟨w, hw, rfl⟩
    rcases mem_filter.1 hw with ⟨hw, hwkind⟩
    exact ⟨w, hw, of_decide_eq_true hwkind, eq_false_iff.2 hnot⟩

/-- On a plain top level destruction outside of `FOREACH` is bounded. -/
theorem bounded_of_accepted {text : Text} {ts : List Tree} {s : List (ClauseKind × List Tree)}
    (h : Accepted text) (hreads : Reads text ts) (hplain : Plain text ts)
    (hs : s ∈ levelStatements ts) (hforeach : ∀ t ∈ statementTrees s, t.isKeyword "FOREACH" = false)
    (hdestroys : Destroys s) : Bounded s := by
  rcases h with ⟨ast, hparse, hsafe, hguard⟩
  rcases statement_of_plain hparse hreads hplain hs with ⟨hs, s', hs', hclauses⟩
  rcases exists_of_destroys hforeach rfl hdestroys with ⟨l, hl, hldestroys⟩
  rcases mem_flatMap.1 hl with ⟨c, hc, hl⟩
  have hkind := kind_of_isDestructive hs hc hl hldestroys
  have hne : flattenAll c.2 ≠ [] := by
    intro hnil
    rw [flattenAll_eq_nil hnil] at hl
    cases hl
  rcases (mem_outlines hclauses hne).2 ⟨c, hc, rfl, rfl⟩ with ⟨c', hc', hckind, -⟩
  rw [← hckind] at hkind
  rcases where_of_validate hsafe hguard hs' hc' hkind with ⟨w, hw, hwkind, htautology⟩
  have hwne : lexemesOf w.tokens ≠ [] := by
    intro hnil
    rw [hnil] at htautology
    cases htautology
  rcases (mem_outlines hclauses hwne).1 ⟨w, hw, hwkind, rfl⟩ with ⟨d, hd, hdkind, hdtrees⟩
  refine ⟨d, hd, hdkind, ?_⟩
  rw [ownTrees_eq fun t ht => hforeach t (mem_flatMap.2 ⟨d, hd, ht⟩), hdtrees]
  exact htautology

/-! ## All levels -/

/-- For an accepted query, destruction is caught exactly when the blind spots of the
validators are bounded by themselves. -/
theorem destructionCaught_iff {text : Text} (h : Accepted text) :
    DestructionCaught text ↔ ∀ ts, Reads text ts → BlindSpotsBounded text ts := by
  constructor
  · intro hcaught ts hreads
    have hall := hcaught.2 ts hreads
    refine ⟨?_, ?_⟩
    · intro body hbody
      exact hall body (mem_cons_of_mem _ hbody)
    · intro s hs hdestroys
      exact Or.inl (hall ts mem_cons_self s hs hdestroys)
  · intro hspots
    refine ⟨fun ls hlex l hl => not_drop_of_accepted h hlex hl, ?_⟩
    intro ts hreads level hlevel s hs hdestroys
    rcases hspots ts hreads with ⟨hbodies, htop⟩
    rcases mem_cons.1 hlevel with rfl | hlevel
    · rcases htop s hs hdestroys with hbounded | ⟨hplain, hforeach⟩
      · exact hbounded
      · exact bounded_of_accepted h hreads hplain hs hforeach hdestroys
    · exact hbodies level hlevel s hs hdestroys

/-- A deletion bounded by its `WHERE`. -/
def boundedDeletion : Text := "MATCH (n) WHERE n.x = 1 DELETE n".toList

theorem destructionCaught_boundedDeletion : DestructionCaught boundedDeletion ↔
      ∀ ts, Reads boundedDeletion ts → BlindSpotsBounded boundedDeletion ts :=
  destructionCaught_iff (by
    refine ⟨(parse boundedDeletion).get (by decide +kernel), ?_, ?_, ?_⟩
    · exact (Option.some_get _).symm
    · decide +kernel
    · decide +kernel)

def nestedDeletion : Text := "CALL \x7b MATCH (n) DETACH DELETE n \x7d RETURN 1".toList

def nestedDeletionStatement : List (ClauseKind × List Tree) :=
  [(.matchClause, [.leaf ⟨.keyword, "MATCH".toList⟩, .group ['('] [.leaf ⟨.identifier, ['n']⟩]]),
    (.detachDelete, [.leaf ⟨.keyword, "DETACH".toList⟩, .leaf ⟨.keyword, "DELETE".toList⟩,
      .leaf ⟨.identifier, ['n']⟩])]

def nestedDeletionBody : List Tree := statementTrees nestedDeletionStatement

def nestedDeletionTrees : List Tree :=
  [.leaf ⟨.keyword, "CALL".toList⟩, .group ['\x7b'] nestedDeletionBody,
    .leaf ⟨.keyword, "RETURN".toList⟩, .leaf ⟨.number, ['1']⟩]

theorem nestedDeletion_not_caught :
    ¬ (Accepted nestedDeletion → DestructionCaught nestedDeletion) := by
  intro h
  have haccepted : Accepted nestedDeletion := by
    refine ⟨(parse nestedDeletion).get (by decide +kernel), ?_, ?_, ?_⟩
    · exact (Option.some_get _).symm
    · decide +kernel
    · decide +kernel
  have hreads : Reads nestedDeletion nestedDeletionTrees := by
    refine ⟨?_, by decide +kernel⟩
    simp [nestedDeletionTrees, nestedDeletionBody, nestedDeletionStatement, statementTrees,
      BracketedAll, Tree.Bracketed]
  have hbody : nestedDeletionBody ∈ levels nestedDeletionTrees := by
    refine mem_cons_of_mem _ ?_
    simp only [nestedDeletionTrees, callBodies, bodies]
    rw [if_pos (by decide)]
    exact mem_cons_self
  have hs : nestedDeletionStatement ∈ levelStatements nestedDeletionBody := mem_cons_self
  have hdestroys : Destroys nestedDeletionStatement := by
    simp only [Destroys, statementTrees, nestedDeletionStatement, flatMap_cons,
      flatMap_nil, cons_append, nil_append, destroys]
    decide
  rcases (h haccepted).2 _ hreads _ hbody _ hs hdestroys with ⟨c, hc, hkind, -⟩
  rcases mem_pair.1 hc with rfl | rfl
  · cases hkind
  · cases hkind

end Ontosyx.Cypher
