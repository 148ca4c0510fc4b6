import Ontosyx.Ontology.Terminology

/-!
# Notation patterns from samples

`propose_notation_pattern` looks at sample values of a column.  It cuts each into
runs of letters and digits, asks the samples to agree on the number of runs, on the
symbols between them and on the kind of every run, and proposes a pattern with one
component for each position, separated by the symbols of the first gap.

The hash that names a proposal is a parameter.
-/

namespace Ontosyx.Ontology

open Ontosyx.Core

structure NotationInferencePolicy where
  minSamples : Nat := 3

/-- The runs of letters and digits of a text, and the symbols between them. -/
structure Tokenisation where
  tokens : List (List Char) := []
  separators : List (List Char) := []

/-- The variables of the loop of `tokenise`. -/
structure Tokeniser extends Tokenisation where
  currentToken : List Char := []
  currentSep : List Char := []
  inToken : Bool := true

def Tokeniser.push (t : Tokeniser) (c : Char) : Tokeniser :=
  if isAlphanumeric c then
    if !t.inToken && !t.currentSep.isEmpty then
      { t with
        separators := t.separators ++ [t.currentSep], currentSep := [], inToken := true
        currentToken := t.currentToken ++ [c] }
    else { t with currentToken := t.currentToken ++ [c] }
  else
    if t.inToken && !t.currentToken.isEmpty then
      { t with
        tokens := t.tokens ++ [t.currentToken], currentToken := [], inToken := false
        currentSep := t.currentSep ++ [c] }
    else { t with currentSep := t.currentSep ++ [c] }

/-- The loop has ended; symbols behind the last token are dropped. -/
def Tokeniser.finish (t : Tokeniser) : Tokenisation :=
  if t.currentToken.isEmpty then t.toTokenisation
  else { t.toTokenisation with tokens := t.tokens ++ [t.currentToken] }

def tokenise (s : List Char) : Tokenisation := (s.foldl Tokeniser.push {}).finish

inductive TokenClass where
  | integer
  | alphaUpper
  | alphaLower
  | alphaMixed
  | alphanumeric
deriving DecidableEq

/-- The `Debug` form. -/
def TokenClass.debug : TokenClass → String
  | integer => "Integer"
  | alphaUpper => "AlphaUpper"
  | alphaLower => "AlphaLower"
  | alphaMixed => "AlphaMixed"
  | alphanumeric => "Alphanumeric"

def classify (token : List Char) : TokenClass :=
  match token.any Char.isDigit, token.any Char.isUpper, token.any Char.isLower with
  | true, false, false => .integer
  | false, true, false => .alphaUpper
  | false, false, true => .alphaLower
  | false, true, true => .alphaMixed
  | _, _, _ => .alphanumeric

def sameLength (samples : List (List Char)) : Bool :=
  samples.all fun s => s.length == (samples.headD []).length

def consensusKindFor (tokenClass : TokenClass) (samples : List (List Char)) :
    NotationComponentKind :=
  let first := (samples.headD []).length
  match tokenClass with
  | .integer =>
    let width := if sameLength samples then min first 255 else 0
    let parsed := samples.filterMap parseI64
    .integerRange (Int64.ofInt (parsed.min?.getD 0)) (Int64.ofInt (parsed.max?.getD 0)) width
  | _ =>
    if sameLength samples then
      .alphanumeric (min first (2 ^ 32 - 1)) (tokenClass == .alphaUpper)
    else .freeText (some ((samples.map List.length).max?.getD 0 % 2 ^ 32))

/-! ## Proposals -/

inductive NotationInferenceRejection where
  | insufficientSamples (available required : Nat)
  | tokenCountMismatch (observedCounts : List Nat)
  | classDisagreement (position : Nat) (observed : List String)
  | separatorDisagreement (observed : List String)
  | unstructured
deriving DecidableEq

/-- The proposed pattern, with the fields that validation does not read. -/
structure NotationPatternProposal where
  pattern : NotationPatternDef
  name : String
  template : String
  examples : List String
  confidence : Nat

def buildTemplate (kinds : List NotationComponentKind) (separator : String) : String :=
  separator.intercalate (kinds.zipIdx.map fun (kind, i) =>
    match kind with
    | .integerRange _ _ width =>
      if width > 0 then "\x7bc" ++ toString (i + 1) ++ ":%0" ++ toString width ++ "d\x7d"
      else "\x7bc" ++ toString (i + 1) ++ "\x7d"
    | _ => "\x7bc" ++ toString (i + 1) ++ "\x7d")

/-- The tokens that the samples have at a position. -/
def tokensAt (tokenisations : List Tokenisation) (pos : Nat) : List (List Char) :=
  tokenisations.map fun t => t.tokens.getD pos []

/-- Every sample has the same symbols in a gap. -/
def checkGap (tokenisations : List Tokenisation) (gap : Nat) :
    Except NotationInferenceRejection Unit :=
  let observed := tokenisations.map fun t => t.separators.getD gap []
  if observed.all (· == observed.headD []) then .ok ()
  else .error (.separatorDisagreement (observed.map String.ofList))

/-- Every sample has a token of the same class at a position. -/
def consensusAt (tokenisations : List Tokenisation) (pos : Nat) :
    Except NotationInferenceRejection NotationComponentKind :=
  let classes := (tokensAt tokenisations pos).map classify
  let head := classes.headD .alphanumeric
  if classes.all (· == head) then .ok (consensusKindFor head (tokensAt tokenisations pos))
  else .error (.classDisagreement pos (classes.map TokenClass.debug))

/-- The kinds on which tokenised samples agree, all of them with `n` tokens. -/
def consensus (tokenisations : List Tokenisation) :
    Except NotationInferenceRejection (List NotationComponentKind) := do
  let counts := tokenisations.map fun t => t.tokens.length
  let n := counts.headD 0
  if !counts.all (· == n) then throw (.tokenCountMismatch counts)
  if n < 2 then throw .unstructured
  (List.range (n - 1)).forM (checkGap tokenisations)
  (List.range n).mapM (consensusAt tokenisations)

def leadingGap (tokenisations : List Tokenisation) : List Char :=
  (tokenisations.headD {}).separators.headD []

/-- `propose_notation_pattern`; `none` if it panics, on no sample at all. -/
def proposeNotationPattern (shortHash : String → String) (sampleValues : List String)
    (policy : NotationInferencePolicy) :
    Option (Except NotationInferenceRejection NotationPatternProposal) :=
  let samples := sampleValues.filter (· ≠ "")
  if samples.length < policy.minSamples then
    some (.error (.insufficientSamples samples.length policy.minSamples))
  else
    match samples with
    | [] => none
    | first :: rest =>
      let tokenisations := (first :: rest).map fun s => tokenise s.toList
      let separator := String.ofList (leadingGap tokenisations)
      some (match consensus tokenisations with
      | .error rejection => .error rejection
      | .ok kinds =>
        .ok {
          pattern := {
            id := ⟨"np_auto_" ++ shortHash first⟩
            separator := separator
            components := kinds.zipIdx.map fun (kind, i) =>
              { name := "c" ++ toString (i + 1), kind := kind } }
          name := "AutoNotation_" ++ toString kinds.length
          template := buildTemplate kinds separator
          examples := (first :: rest).take 5
          confidence := 1 })

end Ontosyx.Ontology
