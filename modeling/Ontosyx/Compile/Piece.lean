import Ontosyx.Query.Ir

/-!
# Written pieces

The Cypher compiler writes a statement piece by piece: fixed text, names of the
query as they are or in backticks, literals through the parameter collector,
placeholders of the caller's own parameters.  A compiled part is the list of its
pieces in the order in which the compiler writes them; `writeAll` runs the
collector along that list, and an error stops it.  Keeping the pieces apart says
what each stretch of the text stands for, which the text alone does not.
-/

namespace Ontosyx.Compile

open Ontosyx.Core Ontosyx.Query

/-- Why a query does not compile. -/
inductive CompileError where
  | paramName (name : String)
  | percentile
  | analytics (algorithm : GraphAlgorithm)
  | temporal
  | subquery (inner : CompileError)
deriving DecidableEq

/-- One stretch of the compiled text. -/
inductive Piece where
  /-- Fixed syntax. -/
  | text (s : String)
  /-- A variable, an alias, an import or a configuration key, as it is. -/
  | name (s : String)
  /-- A label or a property name in backticks. -/
  | escaped (s : String)
  /-- A label in single quotes. -/
  | quoted (s : String)
  /-- A bound of a path, `SKIP` or `LIMIT`. -/
  | number (n : Nat)
  /-- `ParamCollector::push`. -/
  | literal (v : PropertyValue)
  /-- A placeholder of the literal `v`, pushed `back` pushes ago. -/
  | again (back : Nat) (v : PropertyValue)
  /-- A literal that is pushed while its placeholder is written elsewhere, or nowhere. -/
  | silent (v : PropertyValue)
  /-- The placeholder of a caller parameter. -/
  | param (name : String)
  | date (day : Int)
  | dateTime (nanos : Int)
  | duration (s : String)
  /-- An error the compiler returns here. -/
  | fail (e : CompileError)

/-- The decimal digits of a number, filled up with zeros to a width. -/
def padded (width n : Nat) : String :=
  let digits := Nat.toDigits 10 n
  String.ofList (List.replicate (width - digits.length) '0' ++ digits)

/-- The proleptic Gregorian date of a day counted from 1970-01-01. -/
def civil (day : Int) : Int × Nat × Nat :=
  let z := day + 719468
  let era := z / 146097
  let doe := (z % 146097).toNat
  let yoe := (doe - doe / 1460 + doe / 36524 - doe / 146096) / 365
  let doy := doe - (365 * yoe + yoe / 4 - yoe / 100)
  let mp := (5 * doy + 2) / 153
  let month := if mp < 10 then mp + 3 else mp - 9
  (yoe + era * 400 + (if month ≤ 2 then 1 else 0), month, doy - (153 * mp + 2) / 5 + 1)

/-- `Display` of a `NaiveDate`: years outside `0..=9999` carry a sign. -/
def dateText (day : Int) : String :=
  let (year, month, dayOfMonth) := civil day
  let yearText :=
    if 0 ≤ year && year ≤ 9999 then padded 4 year.toNat
    else (if year < 0 then "-" else "+") ++ padded 4 year.natAbs
  yearText ++ "-" ++ padded 2 month ++ "-" ++ padded 2 dayOfMonth

/-- `Display` of a `NaiveDateTime`, with as many decimals as the time needs. -/
def dateTimeText (nanos : Int) : String :=
  let seconds := nanos / 10 ^ 9
  let fraction := (nanos % 10 ^ 9).toNat
  let second := (seconds % 86400).toNat
  let fractionText :=
    if fraction == 0 then ""
    else if fraction % 10 ^ 6 == 0 then "." ++ padded 3 (fraction / 10 ^ 6)
    else if fraction % 10 ^ 3 == 0 then "." ++ padded 6 (fraction / 10 ^ 3)
    else "." ++ padded 9 fraction
  dateText (seconds / 86400) ++ " " ++ padded 2 (second / 3600) ++ ":" ++
    padded 2 (second / 60 % 60) ++ ":" ++ padded 2 (second % 60) ++ fractionText

/-! ## Writing -/

/-- `escape_cypher_identifier`: backticks around the name, those in it doubled. -/
def escapeIdentifier (name : String) : String :=
  "`" ++ String.ofList (name.toList.flatMap fun c => if c == '`' then ['`', '`'] else [c]) ++ "`"

/-- The parameters pushed so far.  The dialect the source keeps here is passed to
the functions that read it. -/
structure ParamCollector where
  params : List (String × PropertyValue)
  counter : Nat

namespace ParamCollector

def new : ParamCollector := ⟨[], 0⟩

def paramName (i : Nat) : String := "p" ++ toString i

/-- Pushes a value and returns the name of its placeholder. -/
def push (pc : ParamCollector) (v : PropertyValue) : String × ParamCollector :=
  let name := paramName pc.counter
  (name, ⟨pc.params ++ [(name, v)], pc.counter + 1⟩)

end ParamCollector

inductive Origin where
  | literal (v : PropertyValue)
  | caller

/-- A stretch of the compiled text; a placeholder is `$` and a name. -/
inductive Stretch where
  | plain (s : String)
  | placeholder (name : String) (origin : Origin)

def Stretch.text : Stretch → String
  | .plain s => s
  | .placeholder name _ => "$" ++ name

def text (stretches : List Stretch) : String := String.join (stretches.map Stretch.text)

def Piece.write (pc : ParamCollector) : Piece → Except CompileError (Stretch × ParamCollector)
  | .text s => .ok (.plain s, pc)
  | .name s => .ok (.plain s, pc)
  | .escaped s => .ok (.plain (escapeIdentifier s), pc)
  | .quoted s => .ok (.plain ("'" ++ s ++ "'"), pc)
  | .number n => .ok (.plain (toString n), pc)
  | .literal v => .ok (.placeholder (pc.push v).1 (.literal v), (pc.push v).2)
  | .again back v =>
    .ok (.placeholder (ParamCollector.paramName (pc.counter - back)) (.literal v), pc)
  | .silent v => .ok (.plain "", (pc.push v).2)
  | .param s => .ok (.placeholder s .caller, pc)
  | .date day => .ok (.plain ("date('" ++ dateText day ++ "')"), pc)
  | .dateTime nanos => .ok (.plain ("datetime('" ++ dateTimeText nanos ++ "')"), pc)
  | .duration s => .ok (.plain ("duration('" ++ s ++ "')"), pc)
  | .fail e => .error e

def writeAll (pc : ParamCollector) :
    List Piece → Except CompileError (List Stretch × ParamCollector)
  | [] => .ok ([], pc)
  | p :: ps => do
    let (s, pc) ← p.write pc
    let (t, pc) ← writeAll pc ps
    return (s :: t, pc)

/-! ## Parts -/

/-- A part of a statement: its pieces, and whether it was popped again. -/
structure Part where
  pieces : List Piece
  popped : Bool

/-- What removing the text of a piece leaves: the pushed literal, or the error. -/
def Piece.forget : Piece → List Piece
  | .literal v | .silent v => [.silent v]
  | .fail e => [.fail e]
  | _ => []

/-- How many literals some pieces push. -/
def pushes : List Piece → Nat
  | [] => 0
  | .literal _ :: pieces | .silent _ :: pieces => pushes pieces + 1
  | _ :: pieces => pushes pieces

/-- A literal that was pushed `back` pushes ago. -/
def Piece.recallAt (back : Nat) : Piece → Piece
  | .literal v => .again back v
  | p => p

/-- Compiled values whose literals were pushed ahead of `after` other pushes. -/
def recallAll (after : Nat) : List (List Piece) → List (List Piece)
  | [] => []
  | doc :: docs =>
    doc.map (Piece.recallAt (after + pushes docs.flatten + 1)) :: recallAll after docs

/-- `parts.push(…)`. -/
def pushPart (parts : List Part) (pieces : List Piece) : List Part := parts ++ [⟨pieces, false⟩]

/-- `docs.join(sep)`. -/
def joinWith (sep : String) : List (List Piece) → List Piece
  | [] => []
  | [doc] => doc
  | doc :: docs => doc ++ .text sep :: joinWith sep docs

@[simp] theorem joinWith_cons_cons (sep : String) (a b : List Piece) (docs : List (List Piece)) :
    joinWith sep (a :: b :: docs) = a ++ .text sep :: joinWith sep (b :: docs) := rfl

/-- `parts.join(sep)`: a popped part leaves its literals in the collector. -/
def joinParts (sep : String) : List Part → List Piece
  | [] => []
  | part :: parts =>
    if part.popped then part.pieces.flatMap Piece.forget ++ joinParts sep parts
    else if parts.all (·.popped) then part.pieces ++ joinParts sep parts
    else part.pieces ++ .text sep :: joinParts sep parts

/-- `s.starts_with("RETURN")`. -/
def startsWithReturn (s : String) : Bool := "RETURN".toList.isPrefixOf s.toList

/-- `startsWithReturn` of a part's text; every part opens with fixed text. -/
def isReturn : List Piece → Bool
  | .text s :: _ => startsWithReturn s
  | .silent _ :: pieces | .fail _ :: pieces => isReturn pieces
  | _ => false

/-- Pops the last part that is still there if it is a `RETURN`; the parts are
given from the last to the first. -/
def popReturnRev : List Part → List Part
  | [] => []
  | part :: parts =>
    if part.popped then part :: popReturnRev parts
    else if isReturn part.pieces then { part with popped := true } :: parts
    else part :: parts

/-- `if parts.last().is_some_and(|p| p.starts_with("RETURN")) { parts.pop(); }`. -/
def popReturn (parts : List Part) : List Part := (popReturnRev parts.reverse).reverse

end Ontosyx.Compile
