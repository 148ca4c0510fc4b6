import Ontosyx.Core.Chars
import Ontosyx.Cypher.Token
import Ontosyx.Lib.Precedence

/-!
# How Cypher reads the text of a WHERE clause

A text is read as its lexemes without blanks and comments, the lexemes are
grouped into trees by their brackets, and the trees are read as a boolean
expression by operator precedence.  A pair of parentheses around an expression
is an operand with the value of that expression; `true`, `false` and `null` are
constants; every other operand is an atom, which a valuation gives a value.

A WHERE clause ends where `ORDER BY`, `SKIP`, `LIMIT` or a hint starts.  A second
`WHERE` inside the expression makes it malformed.
-/

namespace Ontosyx.Cypher

open Ontosyx.Core Lib.Precedence

/-- A comment or white space, the Unicode blanks included that the tokenizer
does not know. -/
def Lexeme.isBlank (l : Lexeme) : Bool := l.isTrivia || l.text.all isWhitespace

/-- The lexemes of a text without blanks and comments. -/
def lex (s : Text) : Option (List Lexeme) := (scan s).map fun ls => ls.filter fun l => !l.isBlank

/-- Lexemes grouped by their brackets. -/
inductive Tree where
  | leaf (l : Lexeme)
  | group (opener : Text) (children : List Tree)

/-- What closes a bracket: parentheses, brackets, braces and `CASE`. -/
def closerOf (l : Lexeme) : Option Text :=
  if l.kind = .paren then
    match l.text with
    | ['('] => some [')']
    | ['['] => some [']']
    | ['{'] => some ['}']
    | _ => none
  else if l.isKeyword "CASE" then some "END".toList
  else none

def asCloser (l : Lexeme) : Option Text :=
  if l.kind = .paren then
    match l.text with
    | [')'] => some [')']
    | [']'] => some [']']
    | ['}'] => some ['}']
    | _ => none
  else if l.isKeyword "END" then some "END".toList
  else none

/-- Open brackets, innermost first, each with its opening lexeme and the trees
before it, latest first; and the trees since the innermost one. -/
structure TreeState where
  stack : List (Lexeme × List Tree) := []
  done : List Tree := []

/-- Read one lexeme.  A closing bracket has to match the innermost open one. -/
def TreeState.step (σ : TreeState) (l : Lexeme) : Option TreeState :=
  if (closerOf l).isSome then some ⟨(l, σ.done) :: σ.stack, []⟩
  else
    match asCloser l with
    | none => some { σ with done := .leaf l :: σ.done }
    | some closer =>
      match σ.stack with
      | [] => none
      | (opener, outer) :: stack =>
        if closerOf opener = some closer then
          some ⟨stack, .group opener.text σ.done.reverse :: outer⟩
        else none

/-- Group lexemes by their brackets, which have to be balanced. -/
def trees (ls : List Lexeme) : Option (List Tree) := do
  let σ ← ls.foldlM TreeState.step {}
  if σ.stack = [] then some σ.done.reverse else none

/-! ## Expressions -/

abbrev Valuation := List Tree → Truth

def Tree.isKeyword (kw : String) : Tree → Bool
  | .leaf l => l.isKeyword kw
  | .group _ _ => false

/-- A tree, with the value of the expression inside it when it is a pair of
parentheses around one. -/
abbrev Item := Tree × Option Truth

def operator (x : Item) : Option Op :=
  if x.1.isKeyword "OR" then some .or
  else if x.1.isKeyword "XOR" then some .xor
  else if x.1.isKeyword "AND" then some .and
  else if x.1.isKeyword "NOT" then some .not
  else none

/-- The value of an operand: of the expression in parentheses, of a constant,
or of an atom.  Nothing at all and a stray `WHERE` are no operands. -/
def operandValue (v : Valuation) : List Item → Option Truth
  | [] => none
  | [(.group _ _, some x)] => some x
  | xs =>
    if xs.any fun x => x.1.isKeyword "WHERE" then none
    else
      match xs with
      | [(.leaf l, none)] =>
        if l.isKeyword "TRUE" then some (some true)
        else if l.isKeyword "FALSE" then some (some false)
        else if l.isKeyword "NULL" then some none
        else some (v [.leaf l])
      | xs => some (v (xs.map Prod.fst))

mutual

/-- The value of the expression inside a pair of parentheses. -/
def Tree.groupValue (v : Valuation) : Tree → Option Truth
  | .leaf _ => none
  | .group opener children =>
    if opener = ['('] then value operator (operandValue v) (items v children) else none

/-- Trees with the values of the expressions inside them. -/
def items (v : Valuation) : List Tree → List Item
  | [] => []
  | t :: ts => (t, t.groupValue v) :: items v ts

end

def exprValue (v : Valuation) (ts : List Tree) : Option Truth :=
  value operator (operandValue v) (items v ts)

/-- Where the expression of a WHERE clause ends. -/
def Tree.startsTail (t : Tree) : Bool :=
  t.isKeyword "ORDER" || t.isKeyword "SKIP" || t.isKeyword "LIMIT" || t.isKeyword "USING"

/-- A WHERE clause: its expression and what follows it. -/
structure WhereReading where
  body : List Tree
  tail : List Tree

/-- Split off what follows the expression. -/
def splitTail (ts : List Tree) : WhereReading :=
  ⟨ts.takeWhile fun t => !t.startsTail, ts.dropWhile fun t => !t.startsTail⟩

/-- Read the text of a WHERE clause.  Blanks at its end do not matter. -/
def readWhere (text : Text) : Option WhereReading := do
  match ← lex (trimEnd text) with
  | [] => none
  | w :: ls => if w.isKeyword "WHERE" then (trees ls).map splitTail else none

end Ontosyx.Cypher
