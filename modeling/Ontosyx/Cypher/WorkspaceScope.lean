import Ontosyx.Cypher.Ast
import Ontosyx.Cypher.WhereRewrite

/-!
# The workspace-scope rewriter

`WorkspaceScopeRewriter` scopes every statement to one workspace.  On the read
path it injects `v.property = $param` into the WHERE of the first MATCH that binds
the node variable `v`; on the write path it injects the same text as a SET
assignment after each CREATE and MERGE, whose indices it collects before it
inserts the first clause.
-/

namespace Ontosyx.Cypher

open Ontosyx.Core List

def findFollowingWhereClause (clauses : List CypherClause) (idx : Nat) : Option Nat :=
  if (clauses[idx + 1]?).any (·.kind == .whereClause) then some (idx + 1) else none

def findImmediateFollowingSet (clauses : List CypherClause) (createIdx : Nat) : Option Nat :=
  if (clauses[createIdx + 1]?).any (·.kind == .set) then some (createIdx + 1) else none

def firstVariableInClauseAt (clauses : List CypherClause) (idx : Nat) : Option Text :=
  clauses[idx]?.bind fun c => (boundNodeVariables c).head?

def setKeyword : Text := "SET".toList

/-- `prepend_to_set`, on the text of the clause. -/
def prependToSet (assignment original : Text) : Text :=
  let (leadWs, afterWs) := splitLeadingWhitespace original
  match stripLeadingKeyword afterWs setKeyword with
  | some rest => leadWs ++ "SET ".toList ++ assignment ++ ", ".toList ++ trimStart rest
  | none => leadWs ++ "SET ".toList ++ assignment ++ ", ".toList ++ afterWs

structure WorkspaceScopeRewriter where
  property : Text
  paramName : Text

namespace WorkspaceScopeRewriter

variable (rw : WorkspaceScopeRewriter)

/-- The text injected for a variable, as a predicate and as an assignment. -/
def guard (v : Text) : Text := guardText v rw.property rw.paramName

/-- `statement_binds_system_param_for`: the guard is a part of some text. -/
def statementBindsSystemParamFor (clauses : List CypherClause) (v : Text) : Bool :=
  clauses.any fun c => decide (rw.guard v <:+: c.text)

local instance lawfulVars : LawfulBEq Text := inferInstance

/-- The variables of one clause to inject for, and the variables queued after it. -/
def planVars (binds : Text → Bool) : List Text → List Text → List Text × List Text
  | queued, [] => ([], queued)
  | queued, v :: vs =>
    if v ∈ queued then planVars binds queued vs
    else
      let (planned, queued') := planVars binds (v :: queued) vs
      (if binds v then planned else v :: planned, queued')

/-- The clauses to inject after, in order, with their variables; `idx` is the
index of the first clause. -/
def plan (binds : Text → Bool) : Nat → List Text → List CypherClause → List (Nat × List Text)
  | _, _, [] => []
  | idx, queued, c :: cs =>
    if c.isMatch then
      let (vars, queued') := planVars binds queued (boundNodeVariables c)
      if vars.isEmpty then plan binds (idx + 1) queued' cs
      else (idx, vars) :: plan binds (idx + 1) queued' cs
    else plan binds (idx + 1) queued cs

/-- The guards of some variables, joined by `AND`. -/
def combined (vars : List Text) : Text :=
  " AND ".toList.intercalate (vars.map rw.guard)

/-- The clause the rewriter inserts where no WHERE follows. -/
def newWhere (vars : List Text) : CypherClause :=
  { kind := .whereClause, text := " WHERE ".toList ++ rw.combined vars }

/-- Inject into the WHERE after the clause at an index, or into a new one. -/
def injectPredicate (entry : Nat × List Text) (clauses : List CypherClause) : List CypherClause :=
  match findFollowingWhereClause clauses entry.1 with
  | some whereIdx =>
    clauses.modify whereIdx fun c =>
      { c with text := WorkspaceScope.prependToWhere (rw.combined entry.2) c.text }
  | none => clauses.insertIdx (entry.1 + 1) (rw.newWhere entry.2)

/-- `inject_read_scope`, on the clauses of the statement.  The last entry of the
plan goes first, so that an inserted clause does not shift the others. -/
def injectReadScope (clauses : List CypherClause) : List CypherClause :=
  (plan (rw.statementBindsSystemParamFor clauses) 0 [] clauses).foldr rw.injectPredicate clauses

/-! ## Writes -/

/-- `clause_binds_workspace_for`: the property of the variable is a part of the
text. -/
def clauseBindsWorkspaceFor (c : CypherClause) (v : Text) : Bool :=
  decide (v ++ '.' :: rw.property <:+: c.text)

/-- The clause the rewriter inserts where no SET follows. -/
def newSet (v : Text) : CypherClause :=
  { kind := .set, text := " SET ".toList ++ rw.guard v }

/-- One round of the write path, for one collected index. -/
def injectAssignment (clauses : List CypherClause) (createIdx : Nat) : List CypherClause :=
  match firstVariableInClauseAt clauses createIdx with
  | none => clauses
  | some v =>
    if (clauses.drop createIdx).any fun c => rw.clauseBindsWorkspaceFor c v then clauses
    else
      match findImmediateFollowingSet clauses createIdx with
      | some setIdx =>
        clauses.modify setIdx fun c => { c with text := prependToSet (rw.guard v) c.text }
      | none => clauses.insertIdx (createIdx + 1) (rw.newSet v)

theorem getElem?_after (pre : List CypherClause) (c : CypherClause)
    (post : List CypherClause) : (pre ++ c :: post)[pre.length + 1]? = post.head? := by
  induction pre with
  | nil => rw [head?_eq_getElem?]; rfl
  | cons d pre ih => exact ih

theorem insertIdx_after (pre : List CypherClause) (c x : CypherClause) (post : List CypherClause) :
    (pre ++ c :: post).insertIdx (pre.length + 1) x = pre ++ c :: x :: post := by
  induction pre with
  | nil => rfl
  | cons d pre ih => exact congrArg (d :: ·) ih

theorem modify_after (f : CypherClause → CypherClause) (pre : List CypherClause)
    (c s : CypherClause) (post : List CypherClause) :
    (pre ++ c :: s :: post).modify (pre.length + 1) f = pre ++ c :: f s :: post := by
  induction pre with
  | nil => rfl
  | cons d pre ih => exact congrArg (d :: ·) ih

/-- What one round of the write path does: nothing, where no variable is bound or
its property is named from there on; or change the SET after the clause at the
index; or insert one there. -/
theorem inject_cases (cs : List CypherClause) (idx : Nat) :
    (rw.injectAssignment cs idx = cs ∧ ∀ v, firstVariableInClauseAt cs idx = some v →
      (cs.drop idx).any fun c => rw.clauseBindsWorkspaceFor c v) ∨
    ∃ pre c post v, cs = pre ++ c :: post ∧ pre.length = idx ∧
      (boundNodeVariables c).head? = some v ∧
      ¬((c :: post).any fun c => rw.clauseBindsWorkspaceFor c v) ∧
      ((∃ s post', post = s :: post' ∧ s.kind = .set ∧ rw.injectAssignment cs idx =
          pre ++ c :: { s with text := prependToSet (rw.guard v) s.text } :: post') ∨
      (¬post.head?.any (·.kind == .set) ∧
        rw.injectAssignment cs idx = pre ++ c :: rw.newSet v :: post)) := by
  cases hv : firstVariableInClauseAt cs idx with
  | none =>
    left
    rw [injectAssignment, hv]
    exact ⟨rfl, fun v h => by cases h⟩
  | some v =>
    obtain ⟨c, hc, hhead⟩ := Option.bind_eq_some_iff.1 hv
    obtain ⟨hlt, hget⟩ := List.getElem?_eq_some_iff.1 hc
    obtain ⟨pre, post, hcs, rfl⟩ : ∃ pre post, cs = pre ++ c :: post ∧ pre.length = idx := by
      refine ⟨cs.take idx, cs.drop (idx + 1), ?_, List.length_take_of_le hlt.le⟩
      rw [← hget, List.cons_getElem_drop_succ, List.take_append_drop]
    have hdrop : cs.drop pre.length = c :: post := by
      rw [hcs, drop_left]
    by_cases hbinds : (c :: post).any fun c => rw.clauseBindsWorkspaceFor c v
    · left
      rw [injectAssignment, hv, hdrop]
      refine ⟨if_pos hbinds, fun w hw => ?_⟩
      obtain rfl := Option.some.inj hw
      exact hbinds
    · right
      refine ⟨pre, c, post, v, hcs, rfl, hhead, hbinds, ?_⟩
      by_cases hset : post.head?.any (·.kind == .set)
      · left
        have hfind : findImmediateFollowingSet cs pre.length = some (pre.length + 1) := by
          rw [findImmediateFollowingSet, hcs, getElem?_after, if_pos hset]
        cases post with
        | nil => cases hset
        | cons s post =>
          have hkind : s.kind = .set := beq_iff_eq.1 hset
          refine ⟨s, post, rfl, hkind, ?_⟩
          simp only [injectAssignment, hv, hdrop, if_neg hbinds, hfind]
          rw [hcs]
          exact modify_after _ pre c s post
      · right
        have hfind : findImmediateFollowingSet cs pre.length = none := by
          rw [findImmediateFollowingSet, hcs, getElem?_after, if_neg hset]
        refine ⟨hset, ?_⟩
        simp only [injectAssignment, hv, hdrop, if_neg hbinds, hfind]
        rw [hcs]
        exact insertIdx_after pre c _ post

def createIndices (clauses : List CypherClause) : List Nat :=
  (range clauses.length).filter fun i => (clauses[i]?).any (·.isCreate)

/-- `inject_write_scope`, on the clauses of the statement. -/
def injectWriteScope (clauses : List CypherClause) : List CypherClause :=
  (createIndices clauses).foldl rw.injectAssignment clauses

def rewriteClauses (clauses : List CypherClause) : List CypherClause :=
  rw.injectWriteScope (rw.injectReadScope clauses)

/-- `WorkspaceScopeRewriter::rewrite`. -/
def rewrite (ast : CypherAst) : CypherAst :=
  { ast with statements := ast.statements.map fun s => ⟨rw.rewriteClauses s.clauses⟩ }

end WorkspaceScopeRewriter

end Ontosyx.Cypher
