import Ontosyx.Lib.Checked
import Ontosyx.Ontology.Cutting

/-!
# Parsing and rendering notations

`parse` splits an identifier and reads each of its components, `render` prints a value
for each component and joins what it gets.  Without a separator the components are cut off
by their widths, which count bytes; a cut inside a character panics, which `none` stands for.

## Main results

* `flatten_raw_of_parse` — without a separator the components tile the text.
* `parse_whole_iff` — and parsing does not panic when every cut falls on a character.
-/

namespace Ontosyx.Ontology

open List Ontosyx.Core Lib.Checked

inductive ParsedValue where
  | code (s : String)
  | integer (n : Int64)
  | alphanumeric (s : String)
  | text (s : String)
deriving DecidableEq

inductive RenderValue where
  | code (s : String)
  | integer (n : Int64)
  | alphanumeric (s : String)
  | text (s : String)
deriving DecidableEq

structure ParsedComponent where
  name : String
  raw : String
  typed : ParsedValue
deriving DecidableEq

/-- `NotationError`; `typeMismatch` stands for the `UnknownCode` whose text shows the value. -/
inductive NotationError where
  | componentCount (expected found : Nat) (separator : String)
  | unknownCode (component got : String)
  | integerOutOfRange (component : String) (min max : Int64) (got : String)
  | integerWidthMismatch (component : String) (width : Nat) (got : String)
  | alphanumericWidthMismatch (component : String) (width : Nat) (got : String)
  | alphanumericInvalid (component got : String)
  | freeTextTooLong (component : String) (max got : Nat)
  | integerNonDigit (component : String) (width : Nat) (got : String)
  | typeMismatch (component : String) (value : RenderValue)
deriving DecidableEq

section

variable (codeResolver : ValueSetId → String → Bool)

/-- The value of a component: what `parse_component` reads. -/
def parseTyped (component : NotationComponent) (token : String) :
    Except NotationError ParsedValue :=
  match component.kind with
  | .codeFromSet valueSetId =>
    if !codeResolver valueSetId token then .error (.unknownCode component.name token)
    else .ok (.code token)
  | .integerRange min max width =>
    if 0 < width ∧ byteLength token.toList ≠ width then
      .error (.integerWidthMismatch component.name width token)
    else if 0 < width ∧ !token.toList.all Char.isDigit then
      .error (.integerNonDigit component.name width token)
    else
      match parseI64 token.toList with
      | none => .error (.integerOutOfRange component.name min max token)
      | some n =>
        if n < min.toInt ∨ max.toInt < n then
          .error (.integerOutOfRange component.name min max token)
        else .ok (.integer (Int64.ofInt n))
  | .alphanumeric width uppercase =>
    if token.toList.length ≠ width then
      .error (.alphanumericWidthMismatch component.name width token)
    else if !token.toList.all Char.isAlphanum then
      .error (.alphanumericInvalid component.name token)
    else if uppercase && token.toList.any Char.isLower then
      .error (.alphanumericInvalid component.name token)
    else .ok (.alphanumeric token)
  | .freeText maxLen =>
    match maxLen with
    | some max =>
      if max < token.toList.length then
        .error (.freeTextTooLong component.name max token.toList.length)
      else .ok (.text token)
    | none => .ok (.text token)

def parseComponent (component : NotationComponent) (token : String) :
    Except NotationError ParsedComponent := do
  let typed ← parseTyped codeResolver component token
  return { name := component.name, raw := token, typed := typed }

namespace NotationPatternDef

/-- The tokens of a text; `none` if cutting panics. -/
def tokens (np : NotationPatternDef) (value : List Char) : Option (List (List Char)) :=
  if np.separator.isEmpty then splitFixedWidth value np.components
  else some (splitAt np.separator.toList 0 [] value)

/-- What `parse` makes of the tokens. -/
def parseTokens (np : NotationPatternDef) (tokens : List (List Char)) :
    Except NotationError (List ParsedComponent) :=
  if tokens.length ≠ np.components.length then
    .error (.componentCount np.components.length tokens.length np.separator)
  else (np.components.zip tokens).mapM fun (component, token) =>
    parseComponent codeResolver component (String.ofList token)

/-- `parse`; `none` if it panics. -/
def parse (np : NotationPatternDef) (value : List Char) :
    Option (Except NotationError (List ParsedComponent)) :=
  (np.tokens value).map (np.parseTokens codeResolver)

end NotationPatternDef

end

/-- The values that `render` is given, by the names of the components. -/
structure RenderValues where
  entries : List (String × RenderValue) := []
  nodup : (entries.map Prod.fst).Nodup := by decide

def RenderValues.get (values : RenderValues) (name : String) : Option RenderValue :=
  values.entries.lookup name

def decimal (n : Int) : List Char :=
  if n < 0 then '-' :: Nat.toDigits 10 n.natAbs else Nat.toDigits 10 n.natAbs

/-- `to_ascii_uppercase`. -/
def asciiUppercase (s : String) : String := String.ofList (s.toList.map Char.toUpper)

section

variable (codeResolver : ValueSetId → String → Bool)

def renderComponent (component : NotationComponent) (value : RenderValue) :
    Except NotationError String :=
  match component.kind, value with
  | .codeFromSet valueSetId, .code c =>
    if !codeResolver valueSetId c then .error (.unknownCode component.name c)
    else .ok c
  | .integerRange min max width, .integer n =>
    if n.toInt < min.toInt ∨ max.toInt < n.toInt then
      .error (.integerOutOfRange component.name min max (String.ofList (decimal n.toInt)))
    else
      .ok (String.ofList
        (if 0 < width then (decimal n.toInt).leftpad width '0' else decimal n.toInt))
  | .alphanumeric width uppercase, .alphanumeric s =>
    if s.toList.length ≠ width then
      .error (.alphanumericWidthMismatch component.name width s)
    else if !s.toList.all Char.isAlphanum then
      .error (.alphanumericInvalid component.name s)
    else .ok (if uppercase then asciiUppercase s else s)
  | .freeText maxLen, .text s =>
    match maxLen with
    | some max =>
      if max < s.toList.length then
        .error (.freeTextTooLong component.name max s.toList.length)
      else .ok s
    | none => .ok s
  | _, value => .error (.typeMismatch component.name value)

/-- The part of `render` for one component. -/
def renderPart (np : NotationPatternDef) (values : RenderValues) (component : NotationComponent) :
    Except NotationError String :=
  match values.get component.name with
  | none => .error (.componentCount np.components.length values.entries.length np.separator)
  | some value => renderComponent codeResolver component value

def NotationPatternDef.render (np : NotationPatternDef) (values : RenderValues) :
    Except NotationError (List Char) := do
  let parts ← np.components.mapM (renderPart codeResolver np values)
  return np.separator.toList.intercalate (parts.map String.toList)

end

/-! ## What a component reads -/

variable {parsed : List ParsedComponent}

section

variable {codeResolver : ValueSetId → String → Bool}

def Reads (codeResolver : ValueSetId → String → Bool) (kind : NotationComponentKind)
    (token : List Char) (v : ParsedValue) : Prop :=
  match kind with
  | .codeFromSet valueSetId =>
    codeResolver valueSetId (String.ofList token) = true ∧ v = .code (String.ofList token)
  | .integerRange min max width =>
    (0 < width → byteLength token = width ∧ ∀ c ∈ token, c.isDigit = true) ∧
      ∃ n, parseI64 token = some n ∧ (min.toInt ≤ n ∧ n ≤ max.toInt) ∧
        v = .integer (Int64.ofInt n)
  | .alphanumeric width uppercase =>
    (token.length = width ∧ ∀ c ∈ token, c.isAlphanum = true) ∧
      (uppercase = true → ∀ c ∈ token, c.isLower = false) ∧
        v = .alphanumeric (String.ofList token)
  | .freeText maxLen =>
    (∀ max, maxLen = some max → token.length ≤ max) ∧ v = .text (String.ofList token)

theorem ok_iff_of_guard {ε β : Type} {p : Prop} [Decidable p] {e : ε} {x : Except ε β} {v : β} :
    (if p then .error e else x) = .ok v ↔ ¬p ∧ x = .ok v := by
  by_cases h : p
  · simp [h]
  · simp [h]

theorem parseTyped_ok_iff {component : NotationComponent} {token : List Char} {v : ParsedValue} :
    parseTyped codeResolver component (String.ofList token) = .ok v ↔
      Reads codeResolver component.kind token v := by
  unfold parseTyped Reads
  cases component.kind with
  | codeFromSet valueSetId =>
    rw [ok_iff_of_guard, Bool.not_eq_true', Bool.not_eq_false, Except.ok.injEq, eq_comm (b := v)]
  | integerRange min max width =>
    rw [ok_iff_of_guard, ok_iff_of_guard, String.toList_ofList, not_and, not_and, not_not,
      Bool.not_eq_true', Bool.not_eq_false, all_eq_true, ← and_assoc, ← forall_and]
    apply and_congr
    · exact ⟨fun h hw => ⟨(h hw).1, (h hw).2⟩, fun h hw => h hw⟩
    · cases parseI64 token with
      | none => simp
      | some n =>
        rw [ok_iff_of_guard, not_or, not_lt, not_lt, Except.ok.injEq]
        constructor
        · intro h
          exact ⟨n, rfl, h.1, h.2.symm⟩
        · intro ⟨m, hm, hrange, hv⟩
          cases hm
          exact ⟨hrange, hv.symm⟩
  | alphanumeric width uppercase =>
    dsimp only
    rw [ok_iff_of_guard, ok_iff_of_guard, ok_iff_of_guard, String.toList_ofList, not_not,
      Bool.not_eq_true', Bool.not_eq_false, all_eq_true, Bool.and_eq_true, not_and,
      Bool.not_eq_true, any_eq_false, Except.ok.injEq, and_assoc, eq_comm (b := v)]
    simp only [Bool.not_eq_true]
  | freeText maxLen =>
    cases maxLen with
    | none => simp [eq_comm]
    | some max =>
      rw [ok_iff_of_guard, String.toList_ofList, not_lt, Except.ok.injEq, eq_comm (b := v)]
      simp

/-- What `parse_component` returns for a token. -/
structure ReadsAs (codeResolver : ValueSetId → String → Bool) (component : NotationComponent)
    (token : List Char) (p : ParsedComponent) : Prop where
  value : Reads codeResolver component.kind token p.typed
  name_eq : p.name = component.name
  raw_eq : p.raw = String.ofList token

theorem parseComponent_ok_iff {component : NotationComponent} {token : List Char}
    {p : ParsedComponent} : parseComponent codeResolver component (String.ofList token) = .ok p ↔
      ReadsAs codeResolver component token p := by
  unfold parseComponent
  rw [bind_eq_ok_iff]
  constructor
  · intro ⟨v, hv, hp⟩
    rw [pure_eq_ok_iff] at hp
    rw [← hp]
    exact ⟨parseTyped_ok_iff.1 hv, rfl, rfl⟩
  · intro h
    refine ⟨p.typed, parseTyped_ok_iff.2 h.value, ?_⟩
    rw [pure_eq_ok_iff, ← h.name_eq, ← h.raw_eq]

/-- What `parse` returns for tokens. -/
structure ReadsAll (codeResolver : ValueSetId → String → Bool) (components : List NotationComponent)
    (tokens : List (List Char)) (parsed : List ParsedComponent) : Prop where
  length_eq : tokens.length = components.length
  each : List.Forall₂ (fun x p => ReadsAs codeResolver x.1 x.2 p) (components.zip tokens) parsed

theorem parseTokens_ok_iff {np : NotationPatternDef} {tokens : List (List Char)} :
    np.parseTokens codeResolver tokens = .ok parsed ↔
      ReadsAll codeResolver np.components tokens parsed := by
  unfold NotationPatternDef.parseTokens
  rw [ok_iff_of_guard, not_not, mapM_eq_ok_iff]
  simp only [parseComponent_ok_iff]
  exact ⟨fun h => ⟨h.1, h.2⟩, fun h => ⟨h.length_eq, h.each⟩⟩

theorem parse_eq_ok_iff {np : NotationPatternDef} {value : List Char} :
    np.parse codeResolver value = some (.ok parsed) ↔ ∃ tokens, np.tokens value = some tokens ∧
        ReadsAll codeResolver np.components tokens parsed := by
  unfold NotationPatternDef.parse
  rw [Option.map_eq_some_iff]
  simp only [parseTokens_ok_iff]

theorem ReadsAll.raw_eq {components : List NotationComponent} {tokens : List (List Char)}
    (h : ReadsAll codeResolver components tokens parsed) : parsed.map (·.raw.toList) = tokens := by
  obtain ⟨hlen, heach⟩ := h
  induction components generalizing tokens parsed with
  | nil =>
    rw [length_nil, length_eq_zero_iff] at hlen
    rw [hlen] at heach ⊢
    cases heach
    rfl
  | cons c components ih =>
    cases tokens with
    | nil => simp at hlen
    | cons token tokens =>
      rw [length_cons, length_cons, Nat.succ.injEq] at hlen
      rw [zip_cons_cons] at heach
      cases heach with
      | cons hfirst hrest =>
        rw [map_cons, ih hlen hrest, hfirst.raw_eq, String.toList_ofList]

end

section

variable {codeResolver : ValueSetId → String → Bool} {np : NotationPatternDef}

theorem tokens_of_empty (hsep : np.separator = "") (value : List Char) :
    np.tokens value = splitFixedWidth value np.components := by
  rw [NotationPatternDef.tokens, hsep]
  exact if_pos (by decide)

/-- Without a separator the components tile the text. -/
theorem flatten_raw_of_parse (hsep : np.separator = "") {value : List Char}
    (h : np.parse codeResolver value = some (.ok parsed)) :
    (parsed.map (·.raw.toList)).flatten = value := by
  obtain ⟨tokens, htokens, hread⟩ := parse_eq_ok_iff.1 h
  rw [tokens_of_empty hsep] at htokens
  rw [hread.raw_eq]
  exact flatten_splitFixedWidth htokens

/-- Parsing ends with components that tile the text or with an error, and does not panic. -/
def ParsesWhole (codeResolver : ValueSetId → String → Bool) (np : NotationPatternDef)
    (value : List Char) : Prop :=
  ∃ result, np.parse codeResolver value = some result ∧
    ∀ parsed, result = .ok parsed → (parsed.map (·.raw.toList)).flatten = value

theorem parse_whole_iff (hsep : np.separator = "") (value : List Char) :
    ParsesWhole codeResolver np value ↔
      ∀ k ≤ np.components.length, cutsAt (widthOf np.components k) value = true := by
  rw [← splitFixedWidth_isSome_iff, Option.isSome_iff_exists]
  have htokens := tokens_of_empty hsep value
  constructor
  · intro ⟨result, hresult, _⟩
    rw [NotationPatternDef.parse, Option.map_eq_some_iff, htokens] at hresult
    exact hresult.imp fun _ h => h.1
  · intro ⟨tokens, h⟩
    refine ⟨np.parseTokens codeResolver tokens, ?_, ?_⟩
    · rw [NotationPatternDef.parse, htokens, h]
      rfl
    · intro parsed hparsed
      apply flatten_raw_of_parse hsep
      rw [NotationPatternDef.parse, htokens, h, Option.map_some, hparsed]

/-- Two letters and three digits. -/
def seatCode : NotationPatternDef where
  id := ⟨"np-seat"⟩
  components := [⟨"zone", .alphanumeric 2 true⟩, ⟨"seat", .integerRange 0 999 3⟩]

theorem seatCode_whole : ParsesWhole (fun _ _ => false) seatCode "AB042".toList :=
  (parse_whole_iff rfl _).2 (by decide +kernel)

/-- A letter of two bytes straddles a cut after one. -/
theorem accent_panics : ¬ ∀ (np : NotationPatternDef), np.separator = "" → ∀ value,
    ParsesWhole (fun _ _ => false) np value := by
  intro h
  have hseat := h { seatCode with components := [⟨"zone", .alphanumeric 1 false⟩] } rfl "é".toList
  obtain ⟨result, hresult, _⟩ := hseat
  have hpanic : NotationPatternDef.parse (fun _ _ => false)
      { seatCode with components := [⟨"zone", .alphanumeric 1 false⟩] } "é".toList = none := by
    decide +kernel
  rw [hpanic] at hresult
  cases hresult

end

end Ontosyx.Ontology
