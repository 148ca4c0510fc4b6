import Mathlib.Data.Char
import Mathlib.Data.List.Lex
import Ontosyx.Core.Double
import Ontosyx.Core.Numerals
import Ontosyx.Cypher.Token

/-!
# Reading written values

A clause keeps the values it writes as text.  The SHACL validator reads from such a
text what it can decide without running the query: string literals, numbers, truth
values and lists (`parse_string_literal`, `classify_literal_type`,
`parse_numeric_literal`, `parse_list_literal`, `compare_literals`).  Everything else
(parameters, calls, references) is opaque to it.

Numbers are read as `str::parse::<f64>` reads them: the exact decimal, rounded to the
nearest double.
-/

namespace Ontosyx.Cypher

open Ontosyx.Core

/-! ## Numbers -/

/-- What `str::parse::<f64>` may return; a finite double is kept as its value. -/
inductive Number where
  | nan
  | infinite (negative : Bool)
  | finite (value : Rat)
deriving DecidableEq

/-- The nearest integer, ties to even. -/
def roundHalfEven (q : Rat) : Int :=
  let down := q.floor
  let rest := q - down
  if rest < 1 / 2 then down
  else if 1 / 2 < rest then down + 1
  else if down % 2 = 0 then down else down + 1

/-- The exponent of the leading binary digit of a positive number. -/
def leadingExponent (q : Rat) : Int :=
  let e : Int := (Nat.log2 q.num.toNat : Int) - Nat.log2 q.den
  if q < (2 : Rat) ^ e then e - 1 else e

def nearestDouble (q : Rat) : Number :=
  if q = 0 then .finite 0
  else
    let unit : Rat := (2 : Rat) ^ max (leadingExponent q - 52) (-1074)
    let rounded := roundHalfEven (q / unit) * unit
    if (2 : Rat) ^ (1024 : Int) ≤ rounded then .infinite false else .finite rounded

def Number.negate : Number → Number
  | .nan => .nan
  | .infinite negative => .infinite !negative
  | .finite value => .finite (-value)

/-- The exponent of a decimal number: nothing, or `e` with a sign and digits. -/
def readExponent : Text → Option Int
  | [] => some 0
  | c :: cs =>
    if c = 'e' ∨ c = 'E' then
      let (negative, ds) := readSign cs
      if ds.isEmpty ∨ ¬ ds.all Char.isDigit then none
      else some (if negative then -(digitsValue ds : Int) else digitsValue ds)
    else none

def readDecimal (t : Text) : Option Number := do
  let whole := t.takeWhile Char.isDigit
  let rest := t.dropWhile Char.isDigit
  let (fraction, rest) := match rest with
    | '.' :: cs => (cs.takeWhile Char.isDigit, cs.dropWhile Char.isDigit)
    | cs => ([], cs)
  if whole.isEmpty ∧ fraction.isEmpty then none
  else
    let exponent ← readExponent rest
    return nearestDouble
      (digitsValue (whole ++ fraction) * (10 : Rat) ^ (exponent - fraction.length))

/-- `str::parse::<f64>`. -/
def parseF64 (t : Text) : Option Number :=
  let (negative, cs) := readSign t
  let magnitude :=
    if upper cs = "INF".toList ∨ upper cs = "INFINITY".toList then some (.infinite false)
    else if upper cs = "NAN".toList then some .nan
    else readDecimal cs
  magnitude.map fun n => if negative then n.negate else n

/-- `a.partial_cmp(b)`. -/
def Number.compare : Number → Number → Option Ordering
  | .nan, _ | _, .nan => none
  | .infinite true, .infinite true | .infinite false, .infinite false => some .eq
  | .infinite negative, _ => some (if negative then .lt else .gt)
  | _, .infinite negative => some (if negative then .gt else .lt)
  | .finite a, .finite b => some (if a < b then .lt else if a = b then .eq else .gt)

/-- What `parse_string_literal` makes of a value.  A lone quote is its own first and
last character, and slicing between them panics. -/
inductive StringRead where
  | panics
  | notLiteral
  | literal (t : Text)
deriving DecidableEq

/-- The quotes around a text, if it has the same one at both ends. -/
def isQuoted (t : Text) : Bool :=
  (t.head? == some doubleQuote && t.getLast? == some doubleQuote) ||
    (t.head? == some singleQuote && t.getLast? == some singleQuote)

/-- The text with its escapes resolved; `none` for a backslash at the end. -/
def unescape : Text → Option Text
  | [] => some []
  | [c] => if c = backslash then none else some [c]
  | c :: d :: cs =>
    if c = backslash then (unescape cs).map (d :: ·) else (unescape (d :: cs)).map (c :: ·)

def parseStringLiteral (raw : Text) : StringRead :=
  let s := trimChars raw
  if isQuoted s then
    if s.length = 1 then .panics
    else match unescape (s.drop 1).dropLast with
      | some t => .literal t
      | none => .notLiteral
  else .notLiteral

def classifyLiteralType (raw : Text) : Option PropertyType :=
  let t := trimChars raw
  if t.isEmpty then none
  else if isQuoted t then some .string
  else if upper t = "TRUE".toList ∨ upper t = "FALSE".toList then some .bool
  else if upper t = "NULL".toList then none
  else if t.head? = some '[' ∨ t.head? = some '\x7b' then none
  else if t.head? = some '$' ∨ '(' ∈ t then none
  else if (parseI64 t).isSome then some .int
  else if (parseF64 t).isSome then some .float
  else none

def parseNumericLiteral (raw : Text) : Option Number :=
  let t := trimChars raw
  if t.isEmpty ∨ isQuoted t ∨ t.head? = some '$' ∨ t.head? = some '[' ∨ t.head? = some '\x7b' ∨
      '(' ∈ t then none
  else if upper t = "NULL".toList ∨ upper t = "TRUE".toList ∨ upper t = "FALSE".toList then none
  else parseF64 t

/-! ## Lists -/

/-- The state of `parse_list_literal` along the text between the brackets; `current`
is the element that is read, its last character first. -/
structure ListReader where
  paren : Int := 0
  bracket : Int := 0
  brace : Int := 0
  inSquote : Bool := false
  inDquote : Bool := false
  escaped : Bool := false
  current : Text := []
  elements : List Text := []

namespace ListReader

def element (r : ListReader) : Text := trimChars r.current.reverse

/-- Outside of brackets and quotes. -/
def atTop (r : ListReader) : Bool :=
  r.paren == 0 && r.bracket == 0 && r.brace == 0 && !r.inSquote && !r.inDquote

/-- One character.  A quote after a backslash does not count, nor does a bracket in
quotes. -/
def step (r : ListReader) (c : Char) : ListReader :=
  let next := { r with current := c :: r.current, escaped := c == backslash }
  if c = singleQuote then
    if !r.inDquote && !r.escaped then { next with inSquote := !r.inSquote } else next
  else if c = doubleQuote then
    if !r.inSquote && !r.escaped then { next with inDquote := !r.inDquote } else next
  else if r.inSquote || r.inDquote then next
  else if c = '(' then { next with paren := r.paren + 1 }
  else if c = ')' then { next with paren := r.paren - 1 }
  else if c = '[' then { next with bracket := r.bracket + 1 }
  else if c = ']' then { next with bracket := r.bracket - 1 }
  else if c = '\x7b' then { next with brace := r.brace + 1 }
  else if c = '\x7d' then { next with brace := r.brace - 1 }
  else if c = ',' ∧ r.atTop then
    { next with current := [], elements := r.elements ++ [r.element] }
  else next

end ListReader

def parseListLiteral (raw : Text) : Option (List Text) :=
  let t := trimChars raw
  if t.head? ≠ some '[' ∨ t.getLast? ≠ some ']' then none
  else
    let inner := (t.drop 1).dropLast
    if (trimChars inner).isEmpty then some []
    else
      let r := inner.foldl ListReader.step {}
      if r.atTop then some (r.elements ++ [r.element]) else none

def typeAssignable (fromType toType : PropertyType) : Bool :=
  fromType = toType ||
    match fromType, toType with
    | .int, .float => true
    | .string, .date | .string, .dateTime | .string, .duration | .string, .bytes => true
    | _, _ => false

inductive PropertyPairOp where
  | lessThan
  | equals
deriving DecidableEq

/-- What `compare_literals` answers: whether the pair violates the operator, unless one
side is not decided. -/
inductive PairRead where
  | panics
  | undecided
  | compared (violated : Bool)
deriving DecidableEq

/-- `compare_literals`; strings are ordered by their characters. -/
def compareLiterals (a b : Text) (op : PropertyPairOp) : PairRead :=
  match parseF64 (trimChars a), parseF64 (trimChars b) with
  | some x, some y =>
    match x.compare y, op with
    | none, _ => .undecided
    | some ord, .lessThan => .compared (ord ≠ .lt)
    | some ord, .equals => .compared (ord ≠ .eq)
  | _, _ =>
    match parseStringLiteral a, parseStringLiteral b, op with
    | .panics, _, _ | _, .panics, _ => .panics
    | .literal s, .literal t, .lessThan => .compared (t ≤ s)
    | .literal s, .literal t, .equals => .compared (s ≠ t)
    | _, _, _ => .undecided

end Ontosyx.Cypher
