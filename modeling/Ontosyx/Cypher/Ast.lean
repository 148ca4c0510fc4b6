import Ontosyx.Cypher.Token

/-!
# The partial Cypher AST

A query is a sequence of statements joined by `UNION`, a statement a linear
sequence of clauses.  A clause keeps its exact source text, which is what gets
rendered; the clauses the rewriters understand carry their patterns as well.
-/

namespace Ontosyx.Cypher

inductive UnionKind where
  | distinct
  | all
deriving DecidableEq

inductive ClauseKind where
  | matchClause
  | optionalMatch
  | create
  | merge
  | whereClause
  | set
  | delete
  | detachDelete
  | remove
  | returnClause
  | withClause
  | unwind
  | call
  | orderBy
  | skip
  | limit
  | unknown
deriving DecidableEq

inductive RelDirection where
  | outgoing
  | incoming
  | undirected
deriving DecidableEq

structure NodePattern where
  variableName : Option Text := none
  labels : List Text := []
  properties : List (Text × Text) := []
  span : Span := {}
deriving DecidableEq

structure RelationshipPattern where
  variableName : Option Text := none
  types : List Text := []
  direction : RelDirection := .outgoing
  varLength : Option (Option Nat × Option Nat) := none
  properties : List (Text × Text) := []
  span : Span := {}
deriving DecidableEq

inductive CypherPatternElement where
  | node (n : NodePattern)
  | relationship (r : RelationshipPattern)
deriving DecidableEq

structure CypherPattern where
  elements : List CypherPatternElement := []
  span : Span := {}
deriving DecidableEq

structure SetItem where
  variableName : Text
  property : Text
  valueText : Text
  span : Span := {}
deriving DecidableEq

structure RemoveItem where
  variableName : Text
  property : Text
  span : Span := {}
deriving DecidableEq

structure CypherClause where
  kind : ClauseKind
  tokens : List CypherToken := []
  text : Text
  span : Span := {}
  patterns : List CypherPattern := []
  setItems : List SetItem := []
  removeItems : List RemoveItem := []
deriving DecidableEq

structure CypherStatement where
  clauses : List CypherClause := []
deriving DecidableEq

structure CypherAst where
  statements : List CypherStatement := []
  unions : List UnionKind := []
deriving DecidableEq

/-- A clause that binds what it finds in the graph. -/
def CypherClause.isMatch (c : CypherClause) : Bool :=
  c.kind == .matchClause || c.kind == .optionalMatch

def CypherClause.isCreate (c : CypherClause) : Bool :=
  c.kind == .create || c.kind == .merge

/-- The node variables of the patterns of a clause, with repetitions. -/
def CypherClause.nodeVariables (c : CypherClause) : List Text :=
  (c.patterns.flatMap (·.elements)).filterMap fun
    | .node n => n.variableName
    | .relationship _ => none

/-- `bound_node_variables`: each variable at its first occurrence. -/
def boundNodeVariables (c : CypherClause) : List Text :=
  c.nodeVariables.foldl (fun out v => if v ∈ out then out else out ++ [v]) []

theorem mem_foldl_push_iff (xs out : List Text) (v : Text) :
    v ∈ xs.foldl (fun out v => if v ∈ out then out else out ++ [v]) out ↔ v ∈ out ∨ v ∈ xs := by
  induction xs generalizing out with
  | nil => simp
  | cons x xs ih =>
    rw [List.foldl_cons, ih, List.mem_cons]
    by_cases hx : x ∈ out
    · rw [if_pos hx]
      constructor
      · intro h
        exact h.imp_right .inr
      · intro h
        rcases h with h | rfl | h
        · exact .inl h
        · exact .inl hx
        · exact .inr h
    · rw [if_neg hx, List.mem_append, List.mem_singleton, or_assoc]

theorem mem_bound_iff (c : CypherClause) (v : Text) :
    v ∈ boundNodeVariables c ↔ v ∈ c.nodeVariables := by
  unfold boundNodeVariables
  rw [mem_foldl_push_iff]
  simp

end Ontosyx.Cypher
