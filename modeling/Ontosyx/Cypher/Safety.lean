import Ontosyx.Cypher.Parse

/-!
# The safety validators

`SafetyValidator` refuses destructive clauses in a statement without `WHERE`, the keyword
`DROP`, and writes of the properties that belong to the system; `SemanticGuardValidator`
refuses a destructive statement whose every `WHERE` is a recognised tautology
(`validate.rs`).  All their issues are errors; an issue is kept as its code.
-/

namespace Ontosyx.Cypher

def workspaceProperty : Text := "_workspace_id".toList

def tombstoneProperty : Text := "_deleted_at".toList

def systemProperties : List Text := [workspaceProperty, tombstoneProperty]

/-- `trim_matches`, on backticks. -/
def trimBackticks (t : Text) : Text :=
  (t.dropWhile (· = backtick)).rdropWhile (· = backtick)

local instance lawfulNames : LawfulBEq Text := inferInstance

/-- The name of a system property, in backticks or not. -/
def isSystemName (t : Text) : Bool := trimBackticks t ∈ systemProperties

/-! ## `SafetyValidator` -/

namespace SafetyValidator

/-- The code for a destructive clause without `WHERE`. -/
def destructive : ClauseKind → Option String
  | .delete => some "runtime.cypher.safety.delete_without_where"
  | .detachDelete => some "runtime.cypher.safety.detach_delete_without_where"
  | .remove => some "runtime.cypher.safety.remove_without_where"
  | _ => none

/-- The statement has a `WHERE`. -/
def hasWhere (s : CypherStatement) : Bool := s.clauses.any (·.kind = .whereClause)

/-- The accesses to a system property among the lexemes of a clause: the windows of three
with a point in the middle. -/
def systemAccesses : List Lexeme → List Lexeme
  | _ :: point :: p :: ls =>
    (if point.isOperator '.' && p.isName && isSystemName p.text then [p] else []) ++
      systemAccesses (point :: p :: ls)
  | _ => []

def inlineProperties : CypherPatternElement → List (Text × Text)
  | .node n => n.properties
  | .relationship r => r.properties

def inlineKeys (c : CypherClause) : List Text :=
  (c.patterns.flatMap (·.elements)).flatMap fun e => (inlineProperties e).map (·.1)

/-- The writes of system properties that a clause is refused for. -/
def systemWrites (c : CypherClause) : List Text :=
  if c.kind = .set ∨ c.kind = .create ∨ c.kind = .merge then
    (systemAccesses ((significant c.tokens).map (·.toLexeme))).map (·.text) ++
      (inlineKeys c).filter isSystemName
  else []

def validateClause (hasWhere : Bool) (c : CypherClause) : List String :=
  (if hasWhere then [] else (destructive c.kind).toList) ++
    (c.tokens.filter (·.isKeyword "DROP")).map (fun _ => "runtime.cypher.safety.drop_disallowed") ++
      (systemWrites c).map fun _ => "runtime.cypher.safety.system_property_write"

def validate (ast : CypherAst) : List String :=
  ast.statements.flatMap fun s => s.clauses.flatMap (validateClause (hasWhere s))

end SafetyValidator

/-! ## `SemanticGuardValidator` -/

def isSelfEqualityOperand (l : Lexeme) : Bool :=
  match l.kind with
  | .identifier | .quotedIdentifier | .number | .stringLiteral | .parameter => true
  | _ => false

def isPropertyAccess (v point p : Lexeme) : Bool := v.isName && point.isOperator '.' && p.isName

/-- `is_tautological_where`, on the lexemes without trivia. -/
def isTautologicalWhere (ls : List Lexeme) : Bool :=
  match ls.dropWhile (·.isKeyword "WHERE") with
  | [] => true
  | [a] => a.isKeyword "TRUE"
  | [a, b] => a.isKeyword "NOT" && b.isKeyword "FALSE"
  | [a, op, b] => op.isOperator '=' && isSelfEqualityOperand a && a = b
  | [v, point, p, op, v', point', p'] =>
    op.isOperator '=' && isPropertyAccess v point p && isPropertyAccess v' point' p' &&
      v = v' && p = p'
  | _ => false

namespace SemanticGuardValidator

/-- `DELETE`, `DETACH DELETE` or `REMOVE`. -/
def isDestructive (kind : ClauseKind) : Bool :=
  kind = .delete || kind = .detachDelete || kind = .remove

/-- The lexemes of the `WHERE` clauses. -/
def whereClauses (s : CypherStatement) : List (List Lexeme) :=
  (s.clauses.filter (·.kind = .whereClause)).map fun c => (significant c.tokens).map (·.toLexeme)

def validateStatement (s : CypherStatement) : List String :=
  if !s.clauses.any fun c => isDestructive c.kind then []
  else if (whereClauses s).isEmpty then []
  else if (whereClauses s).all isTautologicalWhere then
    ["runtime.cypher.semantic_guard.tautological_where"]
  else []

def validate (ast : CypherAst) : List String := ast.statements.flatMap validateStatement

end SemanticGuardValidator

/-- The text is parsed and neither validator reports anything. -/
def Accepted (text : Text) : Prop :=
  ∃ ast, parse text = some ast ∧ SafetyValidator.validate ast = [] ∧
    SemanticGuardValidator.validate ast = []

end Ontosyx.Cypher
