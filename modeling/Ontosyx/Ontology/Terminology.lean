import Ontosyx.Core.Numerals
import Ontosyx.Ontology.IR

/-!
# Value sets and notation patterns at work

`expand_value_set` turns the composition of a value set into the codes it holds, and
`NotationPatternDef::validate` splits an identifier and checks each of its components.
Both are what a binding of a property promises about its values.

The regular expressions of a composition are those of a library; here they are a
parameter, the compiled form of a pattern.  A fixed-width split cuts at byte offsets
and panics inside a character, which `none` stands for.
-/

namespace Ontosyx.Ontology

open Ontosyx.Core

/-- `Regex::new` and `is_match`. -/
abbrev Regex := String → Option (String → Bool)

/-! ## Value sets -/

/-- One pass of `descendants_inclusive`: the codes below a kept one are kept. -/
def keepChildren (codes : List CodedValue) (keep : List CodedValueId) : List CodedValueId :=
  codes.foldl (fun keep cv =>
    match cv.broaderId with
    | some parent => if parent ∈ keep ∧ cv.id ∉ keep then cv.id :: keep else keep
    | none => keep) keep

/-- The passes of `descendants_inclusive`, until one changes nothing. -/
def keepDescendants (codes : List CodedValue) : Nat → List CodedValueId → List CodedValueId
  | 0, keep => keep
  | guard + 1, keep =>
    let kept := keepChildren codes keep
    if kept.length = keep.length then kept else keepDescendants codes guard kept

def descendantsInclusive (system : CodeSystemDef) (rootId : CodedValueId) : List CodedValue :=
  let keep := keepDescendants system.codes (system.codes.length + 1) [rootId]
  system.codes.filter fun cv => cv.id ∈ keep

def selectFromSystem (regex : Regex) (system : CodeSystemDef) :
    ValueSetSelector → List CodedValue
  | .all => system.codes
  | .explicit codes => system.codes.filter fun cv => cv.code ∈ codes
  | .descendantsOf rootId =>
    if system.hierarchical && system.codes.any (·.id = rootId) then
      descendantsInclusive system rootId
    else []
  | .codePattern pattern =>
    match regex pattern with
    | some isMatch => system.codes.filter fun cv => isMatch cv.code
    | none => []

def applyIncludeRule (regex : Regex) (systems : List CodeSystemDef) (selected : List CodedValue)
    (rule : ValueSetIncludeRule) : List CodedValue :=
  match systems.reverse.find? (·.id = rule.systemId) with
  | none => selected
  | some system =>
    let byRule := selectFromSystem regex system rule.selector
    match rule.mode with
    | .include =>
      byRule.foldl (fun selected cv =>
        if selected.any (·.id = cv.id) then selected else selected ++ [cv]) selected
    | .exclude => selected.filter fun cv => !byRule.any (·.id = cv.id)

/-- The codes of `expand_value_set`. -/
def expandValueSet (regex : Regex) (valueSet : ValueSetDef) (systems : List CodeSystemDef) :
    List String :=
  (valueSet.composition.foldl (applyIncludeRule regex systems) []).map (·.code)

namespace OntologyIR

def valueSetById (o : OntologyIR) (id : ValueSetId) : Option ValueSetDef :=
  o.valueSets.find? (·.id = id)

def notationPatternById (o : OntologyIR) (id : NotationPatternId) : Option NotationPatternDef :=
  o.notationPatterns.find? (·.id = id)

end OntologyIR

def byteLength (t : List Char) : Nat := (t.map Char.utf8Size).sum

/-- The first `n` bytes of a text and the rest; `none` inside a character. -/
def takeBytes (n : Nat) : List Char → Option (List Char × List Char)
  | [] => some ([], [])
  | c :: cs =>
    if n = 0 then some ([], c :: cs)
    else if c.utf8Size ≤ n then
      (takeBytes (n - c.utf8Size) cs).map fun (taken, rest) => (c :: taken, rest)
    else none

/-- `value.split(separator)`, for a separator that is not empty; `skip` characters of
the last separator are still to be passed over. -/
def splitAt (separator : List Char) : Nat → List Char → List Char → List (List Char)
  | _, token, [] => [token.reverse]
  | skip + 1, token, _ :: cs => splitAt separator skip token cs
  | 0, token, c :: cs =>
    if separator.isPrefixOf (c :: cs) then
      token.reverse :: splitAt separator (separator.length - 1) [] cs
    else splitAt separator 0 (c :: token) cs

def componentFixedWidth (c : NotationComponent) : Nat :=
  match c.kind with
  | .integerRange _ _ width => width
  | .alphanumeric width _ => width
  | .codeFromSet _ | .freeText _ => 0

def splitFixedWidth (value : List Char) : List NotationComponent → Option (List (List Char))
  | [] => some (if value.isEmpty then [] else [value])
  | c :: components => do
    let (token, rest) ← takeBytes (componentFixedWidth c) value
    let tokens ← splitFixedWidth rest components
    return token :: tokens

/-- `parse_component` succeeds. -/
def NotationComponent.accepts (codeResolver : ValueSetId → String → Bool)
    (component : NotationComponent) (token : List Char) : Bool :=
  match component.kind with
  | .codeFromSet valueSetId => codeResolver valueSetId (String.ofList token)
  | .integerRange min max width =>
    (width = 0 || (byteLength token = width && token.all Char.isDigit)) &&
      (parseI64 token).any fun n => min.toInt ≤ n && n ≤ max.toInt
  | .alphanumeric width uppercase =>
    token.length = width && token.all Char.isAlphanum && !(uppercase && token.any Char.isLower)
  | .freeText maxLen => maxLen.all fun max => token.length ≤ max

/-- Whether `validate` succeeds; `none` if splitting panics. -/
def NotationPatternDef.validate (codeResolver : ValueSetId → String → Bool)
    (np : NotationPatternDef) (value : List Char) : Option Bool := do
  let tokens ←
    if np.separator.isEmpty then splitFixedWidth value np.components
    else some (splitAt np.separator.toList 0 [] value)
  return tokens.length = np.components.length &&
    (np.components.zip tokens).all fun (c, token) => c.accepts codeResolver token

end Ontosyx.Ontology
