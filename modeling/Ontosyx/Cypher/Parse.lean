import Ontosyx.Core.Chars
import Ontosyx.Core.Numerals
import Ontosyx.Cypher.Ast

/-!
# The partial Cypher parser

`parse` cuts the tokens of a query into statements at `UNION` and into clauses at the
clause keywords, both outside of brackets only, and reads patterns, SET items and REMOVE
items from the tokens of a clause (`parse.rs`).  A position in the token list is the list
of tokens from there on.

The source never returns on a property map in which a comma follows an entry whose key
is not a name: the recovery stops in front of the comma, and so does the next round.
`none` stands for that, and for the panic of the tokenizer.
-/

namespace Ontosyx.Cypher

open List Ontosyx.Core

/-! ## Tokens -/

/-- The token is a bracket or a punctuation of one character. -/
def Lexeme.isSymbol (l : Lexeme) (kind : TokenKind) (c : Char) : Bool :=
  l.kind == kind && l.text == [c]

def Lexeme.isParen (l : Lexeme) (c : Char) : Bool := l.isSymbol .paren c

def Lexeme.isOperator (l : Lexeme) (c : Char) : Bool := l.isSymbol .operator c

/-- The comma between two items. -/
def Lexeme.isComma (l : Lexeme) : Bool := l.isSymbol .punctuation ','

def Lexeme.isName (l : Lexeme) : Bool := l.kind == .identifier || l.kind == .quotedIdentifier

def stripBackticks (t : Text) : Text :=
  if t.head? = some backtick ∧ t.getLast? = some backtick ∧ 2 ≤ t.length then
    (t.drop 1).dropLast
  else t

/-- The bracket counters of the parser. -/
structure Depth where
  paren : Int := 0
  bracket : Int := 0
  brace : Int := 0
deriving DecidableEq

namespace Depth

def atTop (d : Depth) : Bool := d.paren == 0 && d.bracket == 0 && d.brace == 0

def step (d : Depth) (l : Lexeme) : Depth :=
  if l.kind ≠ .paren then d
  else match l.text with
    | ['('] => { d with paren := d.paren + 1 }
    | [')'] => { d with paren := d.paren - 1 }
    | ['['] => { d with bracket := d.bracket + 1 }
    | [']'] => { d with bracket := d.bracket - 1 }
    | ['\x7b'] => { d with brace := d.brace + 1 }
    | ['\x7d'] => { d with brace := d.brace - 1 }
    | _ => d

end Depth

/-- The tokens from the first one on that is not trivia. -/
def skipTrivia (ts : List CypherToken) : List CypherToken := ts.dropWhile (·.isTrivia)

/-- Where the tokens between two positions end. -/
def endByte (start : Nat) (ts rest : List CypherToken) : Nat :=
  match (ts.take (ts.length - rest.length)).getLast? with
  | none => start
  | some t => t.span.stop

/-- The value of an entry: the tokens up to a comma or the closing brace of the map. -/
def propertyValue : Depth → List CypherToken → List CypherToken × List CypherToken
  | _, [] => ([], [])
  | d, t :: ts =>
    if (t.isParen '\x7d' && d.brace == 0) || (t.isComma && d.atTop) then ([], t :: ts)
    else
      let (value, rest) := propertyValue (d.step t.toLexeme) ts
      (t :: value, rest)

/-- The loop of `parse_property_map`. -/
def propertyEntries : Nat → List CypherToken → Option (List (Text × Text) × List CypherToken)
  | 0, _ => none
  | fuel + 1, ts =>
    match skipTrivia ts with
    | [] => some ([], [])
    | t :: ts =>
      if t.isParen '\x7d' then some ([], ts)
      else if t.isName then
        match skipTrivia ts with
        | [] => propertyEntries fuel []
        | c :: cs =>
          if c.isOperator ':' then do
            let (value, rest) := propertyValue {} cs
            let rest := match skipTrivia rest with
              | [] => []
              | r :: rs => if r.isComma then rs else r :: rs
            let (entries, rest) ← propertyEntries fuel rest
            return ((stripBackticks t.text, trimChars (value.flatMap (·.text))) :: entries,
              rest)
          else propertyEntries fuel (c :: cs)
      else
        match (t :: ts).dropWhile fun t => !t.isParen '\x7d' && !t.isComma with
        | [] => propertyEntries fuel []
        | r :: rs => if r.isComma then none else propertyEntries fuel (r :: rs)

/-- `parse_property_map`, from behind the opening brace. -/
def parsePropertyMap (ts : List CypherToken) : Option (List (Text × Text) × List CypherToken) :=
  propertyEntries (ts.length + 1) ts

def optionalMap (ts : List CypherToken) : Option (List (Text × Text) × List CypherToken) :=
  match ts with
  | t :: rest => if t.isParen '\x7b' then parsePropertyMap rest else some ([], ts)
  | [] => some ([], [])

/-! ## Patterns -/

/-- The tokens after the bracket that closes `depth` open ones. -/
def skipGroup (opener closer : Char) : Nat → List CypherToken → List CypherToken
  | _, [] => []
  | depth, t :: ts =>
    if t.isParen opener then skipGroup opener closer (depth + 1) ts
    else if t.isParen closer then
      if depth ≤ 1 then ts else skipGroup opener closer (depth - 1) ts
    else skipGroup opener closer depth ts

def optionalName (ts : List CypherToken) : Option Text × List CypherToken :=
  match skipTrivia ts with
  | t :: rest => if t.isName then (some (stripBackticks t.text), rest) else (none, t :: rest)
  | [] => (none, [])

/-- The labels of a node, each behind a colon. -/
def nodeLabels : Nat → List CypherToken → List Text × List CypherToken
  | 0, ts => ([], ts)
  | fuel + 1, ts =>
    match skipTrivia ts with
    | c :: cs =>
      if c.isOperator ':' then
        let (label, rest) := optionalName cs
        let (labels, rest) := nodeLabels fuel rest
        (label.toList ++ labels, rest)
      else ([], c :: cs)
    | [] => ([], [])

/-- `parse_node_pattern`, on tokens that start with `(`. -/
def parseNodePattern (ts : List CypherToken) : Option (NodePattern × List CypherToken) :=
  match ts with
  | [] => none
  | opener :: body => do
    let (variableName, rest) := optionalName body
    let (labels, rest) := nodeLabels (rest.length + 1) rest
    let (properties, rest) ← optionalMap (skipTrivia rest)
    let rest := skipGroup '(' ')' 1 rest
    return ({
      variableName := variableName
      labels := labels
      properties := properties
      span := ⟨opener.span.start, endByte opener.span.start ts rest⟩ }, rest)

/-- The types of a relationship, separated by `|`. -/
def relationshipTypes : Nat → List CypherToken → List Text × List CypherToken
  | 0, ts => ([], ts)
  | fuel + 1, ts =>
    let (type, rest) := optionalName ts
    match skipTrivia rest with
    | c :: cs =>
      if c.isOperator '|' then
        let (types, rest) := relationshipTypes fuel cs
        (type.toList ++ types, rest)
      else (type.toList, c :: cs)
    | [] => (type.toList, [])

/-- `parse::<u32>().ok()`, on the text of a number. -/
def parseU32 (t : Text) : Option Nat :=
  if t ≠ [] ∧ t.all Char.isDigit ∧ digitsValue t < 2 ^ 32 then some (digitsValue t) else none

def optionalNumber (ts : List CypherToken) : Option Nat × List CypherToken :=
  match skipTrivia ts with
  | t :: rest => if t.kind = .number then (parseU32 t.text, rest) else (none, t :: rest)
  | [] => (none, [])

/-- The bounds of a path of variable length, from behind the `*`. -/
def lengthBounds (ts : List CypherToken) : (Option Nat × Option Nat) × List CypherToken :=
  let (lower, rest) := optionalNumber ts
  match skipTrivia rest with
  | t :: rest =>
    if t.kind = .operator ∧ t.text = "..".toList then
      let (upper, rest) := optionalNumber rest
      ((lower, upper), rest)
    else ((lower, lower), t :: rest)
  | [] => ((lower, lower), [])

/-- What stands between the brackets of a relationship. -/
def relationshipSpec (r : RelationshipPattern) (ts : List CypherToken) :
    Option (RelationshipPattern × List CypherToken) := do
  let (variableName, rest) := optionalName ts
  let (types, rest) := match skipTrivia rest with
    | c :: cs => if c.isOperator ':' then relationshipTypes (cs.length + 1) cs else ([], c :: cs)
    | [] => ([], [])
  let (varLength, rest) := match skipTrivia rest with
    | c :: cs =>
      if c.isOperator '*' then
        let (bounds, rest) := lengthBounds cs
        (some bounds, rest)
      else (none, c :: cs)
    | [] => (none, [])
  let (properties, rest) ← optionalMap (skipTrivia rest)
  return ({ r with
    variableName := variableName
    types := types
    varLength := varLength
    properties := properties }, skipGroup '[' ']' 1 rest)

def Lexeme.isArrow (l : Lexeme) (arrow : String) : Bool :=
  l.kind == .arrow && l.text == arrow.toList

/-- `parse_relationship_pattern`, on tokens that start with `-` or `<-`. -/
def parseRelationshipPattern (ts : List CypherToken) :
    Option (RelationshipPattern × List CypherToken) :=
  match ts with
  | [] => none
  | left :: body => do
    let (r, rest) ← match skipTrivia body with
      | t :: rest =>
        if t.isParen '[' then relationshipSpec {} rest else some ({}, t :: rest)
      | [] => some ({}, [])
    let (rightOutgoing, rest) := match skipTrivia rest with
      | t :: rest =>
        if t.isArrow "->" then (true, rest)
        else if t.isOperator '-' then (false, rest)
        else (false, t :: rest)
      | [] => (false, [])
    return ({ r with
      direction := match left.isArrow "<-", rightOutgoing with
        | true, false => .incoming
        | false, true => .outgoing
        | _, _ => .undirected
      span := ⟨left.span.start, endByte left.span.start ts rest⟩ }, rest)

/-- The loop of `parse_single_pattern`; a pattern never starts with `->`. -/
def patternElements : Nat → List CypherToken →
    Option (List CypherPatternElement × List CypherToken)
  | 0, ts => some ([], ts)
  | fuel + 1, ts =>
    match skipTrivia ts with
    | [] => some ([], [])
    | t :: rest =>
      if t.isParen '(' then do
        let (node, rest) ← parseNodePattern (t :: rest)
        let (elements, rest) ← patternElements fuel rest
        return (.node node :: elements, rest)
      else if t.isOperator '-' || t.isArrow "<-" then do
        let (r, rest) ← parseRelationshipPattern (t :: rest)
        let (elements, rest) ← patternElements fuel rest
        return (.relationship r :: elements, rest)
      else some ([], t :: rest)

def CypherPatternElement.span : CypherPatternElement → Span
  | .node n => n.span
  | .relationship r => r.span

def parseSinglePattern (ts : List CypherToken) : Option (CypherPattern × List CypherToken) := do
  let (elements, rest) ← patternElements (ts.length + 1) ts
  return ({
    elements := elements
    span := match elements.head?, elements.getLast? with
      | some first, some last => ⟨first.span.start, last.span.stop⟩
      | _, _ => {} }, rest)

/-- The loop of `parse_patterns`: it stops at what is not a pattern. -/
def patternList : Nat → List CypherToken → Option (List CypherPattern)
  | 0, _ => some []
  | fuel + 1, ts =>
    match ts.dropWhile fun t => t.isTrivia || t.isComma with
    | [] => some []
    | t :: rest =>
      if t.isParen '(' then do
        let (pattern, rest) ← parseSinglePattern (t :: rest)
        let patterns ← patternList fuel rest
        return if pattern.elements.isEmpty then patterns else pattern :: patterns
      else some []

def parsePatterns (ts : List CypherToken) : Option (List CypherPattern) :=
  let body := match skipTrivia ts with
    | [] => []
    | t :: rest =>
      if t.kind ≠ .keyword then t :: rest
      else if upper t.text = "OPTIONAL".toList then
        match skipTrivia rest with
        | [] => []
        | u :: us => if u.isKeyword "MATCH" then us else u :: us
      else rest
  patternList (ts.length + 1) body

/-! ## SET and REMOVE items -/

/-- The tokens up to a comma outside of brackets. -/
def segmentTokens : Depth → List CypherToken → List CypherToken × List CypherToken
  | _, [] => ([], [])
  | d, t :: ts =>
    if (d.step t.toLexeme).atTop && t.isComma then ([], t :: ts)
    else
      let (segment, rest) := segmentTokens (d.step t.toLexeme) ts
      (t :: segment, rest)

def segmentList : Nat → List CypherToken → List (List CypherToken)
  | 0, _ => []
  | _, [] => []
  | fuel + 1, t :: ts =>
    let (segment, rest) := segmentTokens {} (t :: ts)
    segment :: segmentList fuel (rest.drop 1)

/-- The tokens of a segment without trivia. -/
def significant (ts : List CypherToken) : List CypherToken := ts.filter fun t => !t.isTrivia

/-- The tokens after the first `n` that are not trivia. -/
def dropSignificant : Nat → List CypherToken → List CypherToken
  | 0, ts => ts
  | _, [] => []
  | n + 1, t :: ts => dropSignificant (if t.isTrivia then n + 1 else n) ts

/-- `parse_set_segment`: a variable, a point, a property, `=` and a value.  The value is
the source text from behind the `=`. -/
def parseSetSegment (ts : List CypherToken) : Option SetItem :=
  match significant ts with
  | v :: point :: p :: eq :: value :: values =>
    if v.isName && point.isOperator '.' && p.isName && eq.isOperator '=' then
      some {
        variableName := stripBackticks v.text
        property := stripBackticks p.text
        valueText := trimChars
          (((dropSignificant 4 ts).rdropWhile fun t => t.isTrivia).flatMap (·.text))
        span := ⟨v.span.start, ((value :: values).getLastD value).span.stop⟩ }
    else none
  | _ => none

/-- The body of a clause: what comes after its keyword, which may be repeated. -/
def clauseBodyTokens (kw : String) (ts : List CypherToken) : List CypherToken :=
  ts.dropWhile fun t => t.isTrivia || t.isKeyword kw

def parseSetItems (ts : List CypherToken) : List SetItem :=
  (segmentList ts.length (clauseBodyTokens "SET" ts)).filterMap parseSetSegment

/-- `parse_remove_segment`: exactly a variable, a point and a property. -/
def parseRemoveSegment (ts : List CypherToken) : Option RemoveItem :=
  match significant ts with
  | [v, point, p] =>
    if v.isName && point.isOperator '.' && p.isName then
      some {
        variableName := stripBackticks v.text
        property := stripBackticks p.text
        span := ⟨v.span.start, p.span.stop⟩ }
    else none
  | _ => none

def parseRemoveItems (ts : List CypherToken) : List RemoveItem :=
  (segmentList ts.length (clauseBodyTokens "REMOVE" ts)).filterMap parseRemoveSegment

/-! ## Clauses -/

def peekNonTrivia (ts : List CypherToken) (offset : Nat) : Option CypherToken :=
  (significant ts)[offset]?

/-- The keywords of the clauses, some of them two words. -/
def clauseHeads : List (String × Option String × ClauseKind) :=
  [("MATCH", none, .matchClause), ("OPTIONAL", some "MATCH", .optionalMatch),
    ("CREATE", none, .create), ("MERGE", none, .merge), ("WHERE", none, .whereClause),
    ("SET", none, .set), ("DELETE", none, .delete), ("DETACH", some "DELETE", .detachDelete),
    ("REMOVE", none, .remove), ("RETURN", none, .returnClause), ("WITH", none, .withClause),
    ("UNWIND", none, .unwind), ("CALL", none, .call), ("ORDER", some "BY", .orderBy),
    ("SKIP", none, .skip), ("LIMIT", none, .limit)]

/-- `classify_clause_head`, on the first two tokens that are not trivia. -/
def classifyHead (first second : Option Lexeme) : ClauseKind :=
  match clauseHeads.find? fun head => first.any (·.isKeyword head.1) &&
      head.2.1.all fun word => second.any (·.isKeyword word) with
  | some head => head.2.2
  | none => .unknown

def classifyClauseHead (ts : List CypherToken) : ClauseKind :=
  classifyHead ((peekNonTrivia ts 0).map (·.toLexeme)) ((peekNonTrivia ts 1).map (·.toLexeme))

def peekUnion (ts : List CypherToken) : Option UnionKind :=
  if (peekNonTrivia ts 0).any (·.isKeyword "UNION") then
    some (if (peekNonTrivia ts 1).any (·.isKeyword "ALL") then .all else .distinct)
  else none

def atClauseHead (ts : List CypherToken) : Bool :=
  classifyClauseHead ts ≠ .unknown || (peekNonTrivia ts 0).any (·.isKeyword "UNION")

/-- `advance_non_trivia`: the tokens passed over and the rest. -/
def advanceNonTrivia : List CypherToken → List CypherToken × List CypherToken
  | [] => ([], [])
  | t :: ts =>
    if t.isTrivia then
      let (passed, rest) := advanceNonTrivia ts
      (t :: passed, rest)
    else ([t], ts)

def ClauseKind.hasTwoWords : ClauseKind → Bool
  | .optionalMatch | .detachDelete | .orderBy => true
  | _ => false

/-- The loop of `parse_clause`: up to the next clause keyword outside of brackets. -/
def clauseBody : Depth → List CypherToken → List CypherToken × List CypherToken
  | _, [] => ([], [])
  | d, t :: ts =>
    if d.atTop && ((peekUnion (t :: ts)).isSome || atClauseHead (t :: ts)) then ([], t :: ts)
    else
      let (body, rest) := clauseBody (d.step t.toLexeme) ts
      (t :: body, rest)

/-- The tokens of the clause that starts here, and the rest. -/
def clauseTokens (ts : List CypherToken) : List CypherToken × List CypherToken :=
  let (head, rest) := advanceNonTrivia ts
  let (second, rest) :=
    if (classifyClauseHead ts).hasTwoWords then advanceNonTrivia rest else ([], rest)
  let (body, rest) := clauseBody {} rest
  (head ++ second ++ body, rest)

def ClauseKind.hasPatterns : ClauseKind → Bool
  | .matchClause | .optionalMatch | .create | .merge => true
  | _ => false

def makeClause (kind : ClauseKind) (ts : List CypherToken) : Option CypherClause :=
  (if kind.hasPatterns then parsePatterns ts else some []).map fun patterns => {
    kind := kind
    tokens := ts
    text := ts.flatMap (·.text)
    span := ⟨(ts.head?.map (·.span.start)).getD 0, (ts.getLast?.map (·.span.stop)).getD 0⟩
    patterns := patterns
    setItems := if kind = .set then parseSetItems ts else []
    removeItems := if kind = .remove then parseRemoveItems ts else [] }

def parseClause (ts : List CypherToken) : Option (CypherClause × List CypherToken) :=
  (makeClause (classifyClauseHead ts) (clauseTokens ts).1).map fun c => (c, (clauseTokens ts).2)

structure ClauseSpec (kind : ClauseKind) (ts : List CypherToken) (c : CypherClause) : Prop where
  head : c.kind = kind
  tokens : c.tokens = ts
  patterns : (if kind.hasPatterns then parsePatterns ts else some []) = some c.patterns
  setItems : c.setItems = if kind = .set then parseSetItems ts else []
  removeItems : c.removeItems = if kind = .remove then parseRemoveItems ts else []

variable {ts : List CypherToken}

theorem clauseSpec_parseClause {rest : List CypherToken} {c : CypherClause}
    (h : parseClause ts = some (c, rest)) :
    ClauseSpec (classifyClauseHead ts) (clauseTokens ts).1 c ∧ rest = (clauseTokens ts).2 := by
  rcases Option.map_eq_some_iff.1 h with ⟨c', hmake, h⟩
  cases h
  rcases Option.map_eq_some_iff.1 hmake with ⟨patterns, hpatterns, hmake⟩
  cases hmake
  exact ⟨⟨rfl, rfl, hpatterns, rfl, rfl⟩, rfl⟩

def parseStatement : Nat → List CypherToken → Option (List CypherClause × List CypherToken)
  | 0, ts => some ([], ts)
  | _, [] => some ([], [])
  | fuel + 1, ts =>
    if (peekUnion ts).isSome then some ([], ts)
    else do
      let (clause, rest) ← parseClause ts
      let (clauses, rest) ← parseStatement fuel rest
      return (clause :: clauses, rest)

def consumeUnion (ts : List CypherToken) : List CypherToken :=
  let rest := (advanceNonTrivia ts).2
  if (peekNonTrivia rest 0).any (·.isKeyword "ALL") then (advanceNonTrivia rest).2 else rest

/-- The loop of `parse_ast`. -/
def parseAst : Nat → List CypherToken → Option CypherAst
  | 0, _ => some {}
  | fuel + 1, ts => do
    let (clauses, rest) ← parseStatement ts.length ts
    match peekUnion rest with
    | none => return { statements := [⟨clauses⟩] }
    | some kind =>
      let ast ← parseAst fuel (consumeUnion rest)
      return { statements := ⟨clauses⟩ :: ast.statements, unions := kind :: ast.unions }

/-! ## Nothing is lost -/

theorem advanceNonTrivia_append (ts : List CypherToken) :
    (advanceNonTrivia ts).1 ++ (advanceNonTrivia ts).2 = ts := by
  induction ts with
  | nil => rfl
  | cons t ts ih =>
    unfold advanceNonTrivia
    by_cases htrivia : t.isTrivia = true
    · rw [if_pos htrivia]
      exact congrArg (t :: ·) ih
    · rw [if_neg htrivia]
      rfl

theorem advanceNonTrivia_ne_nil (h : ts ≠ []) : (advanceNonTrivia ts).1 ≠ [] := by
  cases ts with
  | nil => exact absurd rfl h
  | cons t ts =>
    unfold advanceNonTrivia
    split
    · exact cons_ne_nil _ _
    · exact cons_ne_nil _ _

theorem clauseBody_append (d : Depth) (ts : List CypherToken) :
    (clauseBody d ts).1 ++ (clauseBody d ts).2 = ts := by
  induction ts generalizing d with
  | nil => rfl
  | cons t ts ih =>
    unfold clauseBody
    split
    · rfl
    · exact congrArg (t :: ·) (ih _)

theorem clauseTokens_append (ts : List CypherToken) :
    (clauseTokens ts).1 ++ (clauseTokens ts).2 = ts := by
  have hfirst := advanceNonTrivia_append ts
  unfold clauseTokens
  by_cases htwo : (classifyClauseHead ts).hasTwoWords = true
  · simp only [if_pos htwo, append_assoc]
    rw [clauseBody_append, advanceNonTrivia_append, hfirst]
  · simp only [if_neg htwo, append_assoc, nil_append]
    rw [clauseBody_append, hfirst]

theorem length_clauseTokens_lt (h : ts ≠ []) : (clauseTokens ts).2.length < ts.length := by
  have hlength := congrArg List.length (clauseTokens_append ts)
  have hfirst : 0 < (clauseTokens ts).1.length := by
    have hne := length_pos_of_ne_nil (advanceNonTrivia_ne_nil h)
    unfold clauseTokens
    simp only [length_append]
    omega
  rw [length_append] at hlength
  omega

variable {fuel : Nat} {tokens rest : List CypherToken} {clauses : List CypherClause}

/-- A statement that goes on with a clause: the rest of it is read behind the clause. -/
theorem parseStatement_clause (hne : tokens ≠ [])
    (h : (do
      let (clause, rest) ← parseClause tokens
      let (clauses, rest) ← parseStatement fuel rest
      return (clause :: clauses, rest)) = some (clauses, rest)) :
    (clauseTokens tokens).2.length < tokens.length ∧ ∃ c cs, clauses = c :: cs ∧
      ClauseSpec (classifyClauseHead tokens) (clauseTokens tokens).1 c ∧
      parseStatement fuel (clauseTokens tokens).2 = some (cs, rest) := by
  rcases Option.bind_eq_some_iff.1 h with ⟨⟨c, afterClause⟩, hclause, h⟩
  rcases Option.bind_eq_some_iff.1 h with ⟨⟨cs, afterAll⟩, hcs, h⟩
  cases h
  rcases clauseSpec_parseClause hclause with ⟨hspec, rfl⟩
  exact ⟨length_clauseTokens_lt hne, c, cs, rfl, hspec, hcs⟩

theorem length_parseStatement_le (h : parseStatement fuel tokens = some (clauses, rest)) :
    rest.length ≤ tokens.length := by
  fun_induction parseStatement fuel tokens generalizing clauses with
  | case1 | case2 | case3 =>
    cases h
    exact Nat.le_refl _
  | case4 fuel tokens hne hunion ih =>
    rcases parseStatement_clause hne h with ⟨hlt, c, cs, rfl, -, hcs⟩
    have hle := ih _ hcs
    omega

/-- A query is a statement, or a statement and the query behind a `UNION`. -/
theorem parseAst_cases {ast : CypherAst} (h : parseAst (fuel + 1) tokens = some ast) :
    ∃ clauses rest, parseStatement tokens.length tokens = some (clauses, rest) ∧
      (peekUnion rest = none ∧ ast = { statements := [⟨clauses⟩] } ∨
        ∃ kind others, peekUnion rest = some kind ∧
          parseAst fuel (consumeUnion rest) = some others ∧
          ast = ⟨⟨clauses⟩ :: others.statements, kind :: others.unions⟩) := by
  rcases Option.bind_eq_some_iff.1 h with ⟨⟨clauses, rest⟩, hclauses, h⟩
  refine ⟨clauses, rest, hclauses, ?_⟩
  dsimp only at h
  cases hpeek : peekUnion rest with
  | none =>
    rw [hpeek] at h
    cases h
    exact Or.inl ⟨rfl, rfl⟩
  | some kind =>
    rw [hpeek] at h
    rcases Option.bind_eq_some_iff.1 h with ⟨others, hothers, h⟩
    cases h
    exact Or.inr ⟨kind, others, rfl, hothers, rfl⟩

theorem length_advanceNonTrivia_lt (h : ts ≠ []) : (advanceNonTrivia ts).2.length < ts.length := by
  have hlength := congrArg List.length (advanceNonTrivia_append ts)
  have hfirst := length_pos_of_ne_nil (advanceNonTrivia_ne_nil h)
  rw [length_append] at hlength
  omega

theorem length_consumeUnion_lt (h : ts ≠ []) : (consumeUnion ts).length < ts.length := by
  have hfirst := length_advanceNonTrivia_lt h
  unfold consumeUnion
  dsimp only
  split
  · by_cases hnil : (advanceNonTrivia ts).2 = []
    · rw [hnil] at hfirst ⊢
      exact hfirst
    · have hsecond := length_advanceNonTrivia_lt hnil
      omega
  · exact hfirst

def parse (input : Text) : Option CypherAst := do
  let tokens ← tokenize input
  parseAst (tokens.length + 1) tokens

end Ontosyx.Cypher
