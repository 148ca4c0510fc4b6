import Ontosyx.Cypher.Parse
import Ontosyx.Cypher.ReadScope

/-!
# The soft-delete rewriter

`SoftDeleteRewriter` makes every DELETE a SET of the tombstone property, and then injects
`v._deleted_at IS NULL` into the WHERE of the first MATCH that binds the node variable `v`, unless
some text of the statement has `v._deleted_at` in it.
-/

namespace Ontosyx.Cypher.SoftDelete

open Ontosyx.Core
open WorkspaceScopeRewriter (plan planVars)

def tombstoneProperty : Text := "_deleted_at".toList

/-! ## Deletes -/

def isIdentifierLike (s : Text) : Bool :=
  decide (s.head? = some backtick ∧ s.getLast? = some backtick ∧ 2 ≤ s.length) ||
    match s with
    | [] => false
    | c :: cs => isIdentStart c && cs.all isIdentRest

/-- What follows the keyword of a `DELETE` or `DETACH DELETE` clause. -/
def deleteBody (text : Text) : Option Text :=
  match stripLeadingKeyword (trimStart text) "DETACH".toList with
  | some rest => stripLeadingKeyword (trimStart rest) "DELETE".toList
  | none => stripLeadingKeyword (trimStart text) "DELETE".toList

/-- The comma-separated items of the clause. -/
def deleteItems (body : Text) : List Text := (body.splitOn ',').map trimChars

/-- `parse_delete_targets`; a list that is not understood has no targets. -/
def parseDeleteTargets (text : Text) : List Text :=
  match deleteBody text with
  | some body =>
    if (deleteItems body).all isIdentifierLike then (deleteItems body).map stripBackticks else []
  | none => []

def stamp (v : Text) : Text := v ++ '.' :: tombstoneProperty ++ " = timestamp()".toList

/-- The SET that takes the place of a DELETE with these targets. -/
def stampClause (text : Text) (vars : List Text) : CypherClause :=
  { kind := .set
    text := leadWhitespace text ++ "SET ".toList ++ ", ".toList.intercalate (vars.map stamp) }

/-- The clauses that take the relationships of a node apart; they are text only. -/
def detachClauses (v : Text) (i : Nat) : List CypherClause :=
  let relVar := "__sd_r_".toList ++ (toString i).toList
  [{ kind := .optionalMatch
     text := " OPTIONAL MATCH (".toList ++ v ++ ")-[".toList ++ relVar ++ "]-()".toList },
    { kind := .delete, text := " DELETE ".toList ++ relVar }]

def deletes (c : CypherClause) : Bool := c.kind == .delete || c.kind == .detachDelete

def rewriteDelete (c : CypherClause) : List CypherClause :=
  if deletes c then
    let vars := parseDeleteTargets c.text
    if vars.isEmpty then [c]
    else if c.kind = .detachDelete then
      (vars.zipIdx.flatMap fun v => detachClauses v.1 v.2) ++ [stampClause c.text vars]
    else [stampClause c.text vars]
  else [c]

/-- `rewrite_delete_clauses`, on the clauses of the statement. -/
def rewriteDeleteClauses (clauses : List CypherClause) : List CypherClause :=
  clauses.flatMap rewriteDelete

/-! ## Reads -/

/-- The predicate injected for a variable. -/
def nullCheck (v : Text) : Text := nullCheckText v tombstoneProperty

def statementAlreadyHasTombstoneCheck (clauses : List CypherClause) (v : Text) : Bool :=
  clauses.any fun c => decide (v ++ '.' :: tombstoneProperty <:+: c.text)

/-- The predicates of some variables, joined by `AND`. -/
def combined (vars : List Text) : Text := " AND ".toList.intercalate (vars.map nullCheck)

/-- The clause that is inserted where no WHERE follows. -/
def newWhere (vars : List Text) : CypherClause :=
  { kind := .whereClause, text := " WHERE ".toList ++ combined vars }

/-- Inject into the WHERE after the clause at an index, or into a new one. -/
def injectPredicate (entry : Nat × List Text) (clauses : List CypherClause) : List CypherClause :=
  match findFollowingWhereClause clauses entry.1 with
  | some whereIdx =>
    clauses.modify whereIdx fun c => { c with text := prependToWhere (combined entry.2) c.text }
  | none => clauses.insertIdx (entry.1 + 1) (newWhere entry.2)

/-- `inject_tombstone_predicate`, on the clauses of the statement, the last entry of the plan
first. -/
def injectTombstonePredicate (clauses : List CypherClause) : List CypherClause :=
  (plan (statementAlreadyHasTombstoneCheck clauses) 0 [] clauses).foldr injectPredicate clauses

def rewriteClauses (clauses : List CypherClause) : List CypherClause :=
  injectTombstonePredicate (rewriteDeleteClauses clauses)

/-- `SoftDeleteRewriter::rewrite`, with the bypass of the context. -/
def rewrite (skipSoftDelete : Bool) (ast : CypherAst) : CypherAst :=
  if skipSoftDelete then ast
  else { ast with statements := ast.statements.map fun s => ⟨rewriteClauses s.clauses⟩ }

/-- Inject into a WHERE at the front of the clauses, or put one there. -/
def withPredicate (vars : List Text) : List CypherClause → List CypherClause
  | [] => [newWhere vars]
  | w :: cs =>
    if w.kind = .whereClause then
      { w with text := prependToWhere (combined vars) w.text } :: cs
    else newWhere vars :: w :: cs

def filterPass (has : Text → Bool) : List Text → List CypherClause → List CypherClause
  | _, [] => []
  | queued, c :: cs =>
    if c.isMatch then
      let vars := (planVars has queued (boundNodeVariables c)).1
      let queued' := (planVars has queued (boundNodeVariables c)).2
      if vars.isEmpty then c :: filterPass has queued' cs
      else c :: withPredicate vars (filterPass has queued' cs)
    else c :: filterPass has queued cs

theorem injectPredicate_append (vars : List Text) (pre : List CypherClause) (c : CypherClause)
    (cs : List CypherClause) :
    injectPredicate (pre.length, vars) (pre ++ c :: cs) = pre ++ c :: withPredicate vars cs := by
  unfold injectPredicate findFollowingWhereClause
  rw [WorkspaceScopeRewriter.getElem?_after]
  cases cs with
  | nil => exact WorkspaceScopeRewriter.insertIdx_after pre c _ []
  | cons w cs =>
    by_cases hw : w.kind = .whereClause
    · rw [if_pos (by simp [hw]), withPredicate, if_pos hw]
      exact WorkspaceScopeRewriter.modify_after _ pre c w cs
    · rw [if_neg (by simp [hw]), withPredicate, if_neg hw]
      exact WorkspaceScopeRewriter.insertIdx_after pre c _ (w :: cs)

/-- The plan, applied from its end, is the pass. -/
theorem foldr_plan_eq (has : Text → Bool) (pre : List CypherClause) (queued : List Text)
    (cs : List CypherClause) : (plan has pre.length queued cs).foldr injectPredicate (pre ++ cs) =
      pre ++ filterPass has queued cs := by
  induction cs generalizing pre queued with
  | nil => rfl
  | cons c cs ih =>
    have hnext : ∀ queued', (plan has (pre.length + 1) queued' cs).foldr injectPredicate
        (pre ++ c :: cs) = pre ++ c :: filterPass has queued' cs := by
      intro queued'
      have h := ih (pre ++ [c]) queued'
      rw [List.length_append, List.length_singleton] at h
      simpa using h
    rw [plan, filterPass]
    by_cases hc : c.isMatch
    · rw [if_pos hc, if_pos hc]
      by_cases hvars : (planVars has queued (boundNodeVariables c)).1.isEmpty
      · simp only [hvars, if_true]
        exact hnext _
      · simp only [hvars, Bool.false_eq_true, if_false, List.foldr_cons]
        rw [hnext, injectPredicate_append]
    · rw [if_neg hc, if_neg hc]
      exact hnext queued

theorem injectTombstone_eq (cs : List CypherClause) :
    injectTombstonePredicate cs = filterPass (statementAlreadyHasTombstoneCheck cs) [] cs :=
  foldr_plan_eq _ [] [] cs

end Ontosyx.Cypher.SoftDelete
