import Mathlib.Algebra.GroupWithZero.Nat
import Mathlib.Data.List.TakeWhile

/-!
# The Cypher tokenizer

`tokenize` splits a query text into classified tokens, trivia included.  Texts
are lists of characters; the source walks over bytes, which differs only at the
end of a block comment that is never closed: the source stops one byte short of
the end of the text, and the slice it then takes panics if that byte lies inside
a character.  `none` stands for that panic.

The scanner proper produces lexemes, the tokens without their byte spans;
`withSpans` adds the spans, which tile the text.

## Main results

* `scanToken_append` — a lexeme and what is left of the text make up the text.
* `scan_cons` — scanning takes one lexeme after the other.
-/

namespace Ontosyx.Cypher

open List Option Prod

abbrev Text := List Char

inductive TokenKind where
  | keyword
  | identifier
  | quotedIdentifier
  | stringLiteral
  | parameter
  | number
  | paren
  | operator
  | punctuation
  | arrow
  | lineComment
  | blockComment
  | whitespace
  | unknown
deriving DecidableEq

/-- Whitespace or comment (`is_trivia`). -/
def TokenKind.isTrivia : TokenKind → Bool
  | .whitespace | .lineComment | .blockComment => true
  | _ => false

/-- A kind with the text it covers. -/
structure Lexeme where
  kind : TokenKind
  text : Text
deriving DecidableEq

/-- A byte range of the query text. -/
structure Span where
  start : Nat := 0
  stop : Nat := 0
deriving DecidableEq

structure CypherToken extends Lexeme where
  span : Span
deriving DecidableEq

/-! ## Character classes -/

def singleQuote : Char := Char.ofNat 0x27

def doubleQuote : Char := Char.ofNat 0x22

/-- The escape character of a string literal. -/
def backslash : Char := Char.ofNat 0x5C

def backtick : Char := Char.ofNat 0x60

/-- `is_ascii_whitespace`; the vertical tab is not one. -/
def isAsciiWhitespace (c : Char) : Bool :=
  c == ' ' || c == '\t' || c == '\n' || c == Char.ofNat 0x0C || c == '\r'

def isIdentStart (c : Char) : Bool := c.isAlpha || c == '_'

/-- A further character of an identifier or a parameter. -/
def isIdentRest (c : Char) : Bool := c.isAlphanum || c == '_'

def keywords : List String :=
  ["MATCH", "OPTIONAL", "CREATE", "MERGE", "WHERE", "SET", "DELETE", "DETACH", "REMOVE", "RETURN",
   "WITH", "UNWIND", "CALL", "YIELD", "UNION", "ALL", "ORDER", "BY", "SKIP", "LIMIT", "FOREACH",
   "AND", "OR", "NOT", "XOR", "IN", "IS", "NULL", "TRUE", "FALSE", "AS", "DISTINCT", "ASC",
   "ASCENDING", "DESC", "DESCENDING", "ON", "CASE", "WHEN", "THEN", "ELSE", "END", "DROP",
   "CONSTRAINT", "INDEX", "USING"]

/-- `to_ascii_uppercase`. -/
def upper (s : Text) : Text := s.map Char.toUpper

/-- `is_keyword` on a text. -/
def isKeywordText (s : Text) : Bool := keywords.any fun kw => upper s == kw.toList

/-- `CypherToken::is_keyword`; `kw` is written in capitals. -/
def Lexeme.isKeyword (l : Lexeme) (kw : String) : Bool :=
  l.kind == .keyword && upper l.text == kw.toList

/-- `CypherToken::is_trivia`. -/
def Lexeme.isTrivia (l : Lexeme) : Bool := l.kind.isTrivia

/-! ## Scanning one lexeme -/

/-- The rest of a string literal, up to and with its closing quote.  A backslash
takes the next character along. -/
def stringBody (quote : Char) : Text → Text × Text
  | [] => ([], [])
  | [c] => ([c], [])
  | c :: d :: cs =>
    if c = quote then ([c], d :: cs)
    else if c = backslash then
      let (body, rest) := stringBody quote cs
      (c :: d :: body, rest)
    else
      let (body, rest) := stringBody quote (d :: cs)
      (c :: body, rest)

/-- The rest of a block comment.  Without a closing `*/` the comment ends one
byte before the text does. -/
def blockBody : Text → Option (Text × Text)
  | [] => some ([], [])
  | [c] => if c.utf8Size = 1 then some ([], [c]) else none
  | c :: d :: cs =>
    if c = '*' ∧ d = '/' then some ([c, d], cs) else
      (blockBody (d :: cs)).map fun (body, rest) => (c :: body, rest)

/-- The rest of a backtick-quoted identifier, up to and with its closing
backtick. -/
def quotedBody : Text → Text × Text
  | [] => ([], [])
  | c :: cs =>
    if c = backtick then ([c], cs) else
      let (body, rest) := quotedBody cs
      (c :: body, rest)

/-- A fraction, when a point and a digit follow. -/
def scanFraction : Text → Text × Text
  | '.' :: d :: cs =>
    if d.isDigit then ('.' :: (d :: cs).takeWhile Char.isDigit, (d :: cs).dropWhile Char.isDigit)
    else ([], '.' :: d :: cs)
  | cs => ([], cs)

/-- An exponent, when an `e` follows; its sign and digits may be missing. -/
def scanExponent : Text → Text × Text
  | e :: cs =>
    if e = 'e' ∨ e = 'E' then
      match cs with
      | s :: ds =>
        if s = '+' ∨ s = '-' then
          (e :: s :: ds.takeWhile Char.isDigit, ds.dropWhile Char.isDigit)
        else (e :: cs.takeWhile Char.isDigit, cs.dropWhile Char.isDigit)
      | [] => ([e], [])
    else ([], e :: cs)
  | [] => ([], [])

/-- A number, with its optional fraction and exponent. -/
def scanNumber (cs : Text) : Text × Text :=
  let (fraction, rest) := scanFraction (cs.dropWhile Char.isDigit)
  let (exponent, rest) := scanExponent rest
  (cs.takeWhile Char.isDigit ++ fraction ++ exponent, rest)

/-- The operators of two characters (`scan_multi_char_operator`). -/
def multiCharOperators : List (Char × Char) :=
  [('<', '='), ('>', '='), ('<', '>'), ('=', '~'), ('.', '.'), (':', '=')]

def singleCharOperators : List Char :=
  ['=', '<', '>', '+', '-', '*', '/', '%', '!', ':', '.', '|', '^']

/-- Whether the next character is `d`. -/
def nextIs (d : Char) (cs : Text) : Bool := cs.head? == some d

/-- Whether the next character is a digit (`next_is_digit`). -/
def nextIsDigit (cs : Text) : Bool := cs.head?.any Char.isDigit

/-- The branches of the tokenizer's loop. -/
inductive ScanRule where
  | whitespace
  | lineComment
  | blockComment
  | stringLiteral
  | quotedIdentifier
  | parameter
  | number
  | arrow
  | paren
  | punctuation
  | multiCharOperator
  | singleCharOperator
  | word
  | unknown
deriving DecidableEq

/-- The test of a branch, on the first character and the text after it. -/
def ScanRule.applies (c : Char) (cs : Text) : ScanRule → Bool
  | .whitespace => isAsciiWhitespace c
  | .lineComment => c == '/' && nextIs '/' cs
  | .blockComment => c == '/' && nextIs '*' cs
  | .stringLiteral => c == singleQuote || c == doubleQuote
  | .quotedIdentifier => c == backtick
  | .parameter => c == '$'
  | .number => c.isDigit || c == '.' && nextIsDigit cs
  | .arrow => c == '-' && nextIs '>' cs || c == '<' && nextIs '-' cs
  | .paren => ['(', ')', '[', ']', '{', '}'].contains c
  | .punctuation => c == ',' || c == ';'
  | .multiCharOperator => multiCharOperators.any fun (a, b) => c == a && nextIs b cs
  | .singleCharOperator => singleCharOperators.contains c
  | .word => isIdentStart c
  | .unknown => true

/-- The branches in the order of the loop. -/
def scanRules : List ScanRule :=
  [.whitespace, .lineComment, .blockComment, .stringLiteral, .quotedIdentifier, .parameter,
   .number, .arrow, .paren, .punctuation, .multiCharOperator, .singleCharOperator, .word]

/-- The branch for a lexeme that starts with `c`: the first whose test
succeeds. -/
def scanRule (c : Char) (cs : Text) : ScanRule :=
  (scanRules.find? (·.applies c cs)).getD .unknown

/-- What a branch takes: the text of the lexeme, and the text after it. -/
def ScanRule.take (c : Char) (cs : Text) : ScanRule → Option (Text × Text)
  | .whitespace => some (c :: cs.takeWhile isAsciiWhitespace, cs.dropWhile isAsciiWhitespace)
  | .lineComment => some (c :: cs.takeWhile (· ≠ '\n'), cs.dropWhile (· ≠ '\n'))
  | .blockComment =>
    (blockBody cs.tail).map fun (body, rest) => (c :: cs.take 1 ++ body, rest)
  | .stringLiteral => some (c :: (stringBody c cs).1, (stringBody c cs).2)
  | .quotedIdentifier => some (c :: (quotedBody cs).1, (quotedBody cs).2)
  | .parameter | .word => some (c :: cs.takeWhile isIdentRest, cs.dropWhile isIdentRest)
  | .number => some (scanNumber (c :: cs))
  | .arrow | .multiCharOperator => some (c :: cs.take 1, cs.tail)
  | .paren | .punctuation | .singleCharOperator | .unknown => some ([c], cs)

/-- The kind of the lexeme a branch takes. -/
def ScanRule.kind (text : Text) : ScanRule → TokenKind
  | .whitespace => .whitespace
  | .lineComment => .lineComment
  | .blockComment => .blockComment
  | .stringLiteral => .stringLiteral
  | .quotedIdentifier => .quotedIdentifier
  | .parameter => .parameter
  | .number => .number
  | .arrow => .arrow
  | .paren => .paren
  | .punctuation => .punctuation
  | .multiCharOperator | .singleCharOperator => .operator
  | .word => if isKeywordText text then .keyword else .identifier
  | .unknown => .unknown

/-- One round of the tokenizer's loop: the lexeme that starts with `c`, and the
text after it. -/
def scanToken (c : Char) (cs : Text) : Option (Lexeme × Text) :=
  ((scanRule c cs).take c cs).map fun (text, rest) => (⟨(scanRule c cs).kind text, text⟩, rest)

/-- The tokenizer's loop, with as many rounds as `fuel` allows. -/
def scanFuel : Nat → Text → Option (List Lexeme)
  | _, [] => some []
  | 0, _ :: _ => none
  | fuel + 1, c :: cs => do
    let (l, rest) ← scanToken c cs
    let ls ← scanFuel fuel rest
    return l :: ls

/-- The lexemes of a text.  A text of `n` characters has at most `n` of them. -/
def scan (s : Text) : Option (List Lexeme) := scanFuel s.length s

def byteLength (s : Text) : Nat := (s.map Char.utf8Size).sum

/-- Lexemes with the spans they cover, from byte `start` on. -/
def withSpans : Nat → List Lexeme → List CypherToken
  | _, [] => []
  | start, l :: ls =>
    { l with span := ⟨start, start + byteLength l.text⟩ } ::
      withSpans (start + byteLength l.text) ls

def tokenize (s : Text) : Option (List CypherToken) := (scan s).map (withSpans 0)

/-! ## The scanner tiles its input -/

theorem stringBody_append (quote : Char) (cs : Text) :
    (stringBody quote cs).1 ++ (stringBody quote cs).2 = cs := by
  fun_induction stringBody quote cs <;> simp_all

theorem quotedBody_append (cs : Text) : (quotedBody cs).1 ++ (quotedBody cs).2 = cs := by
  fun_induction quotedBody cs <;> simp_all

variable {rest cs : Text}

theorem blockBody_append {body : Text} (h : blockBody cs = some (body, rest)) :
    body ++ rest = cs := by
  fun_induction blockBody cs generalizing body rest with
  | case1 | case2 c hc | case4 c d cs hcd =>
    cases h
    rfl
  | case3 c hc => cases h
  | case5 c d cs hcd ih =>
    obtain ⟨⟨body', rest'⟩, hx, hbr⟩ := map_eq_some_iff.1 h
    cases hbr
    rw [cons_append, ih hx]

theorem scanFraction_append (cs : Text) : (scanFraction cs).1 ++ (scanFraction cs).2 = cs := by
  unfold scanFraction
  split
  · split_ifs
    · simp only [cons_append, takeWhile_append_dropWhile]
    · rfl
  · rfl

theorem scanExponent_append (cs : Text) : (scanExponent cs).1 ++ (scanExponent cs).2 = cs := by
  unfold scanExponent
  split
  · split_ifs
    · split
      · split_ifs <;> simp only [cons_append, takeWhile_append_dropWhile]
      · rfl
    · rfl
  · rfl

theorem scanNumber_append (cs : Text) : (scanNumber cs).1 ++ (scanNumber cs).2 = cs := by
  have hf := scanFraction_append (cs.dropWhile Char.isDigit)
  have he := scanExponent_append (scanFraction (cs.dropWhile Char.isDigit)).2
  simp only [scanNumber, append_assoc]
  rw [he, hf, takeWhile_append_dropWhile]

variable {c : Char}

/-- What a branch takes and what it leaves make up the text. -/
theorem ScanRule.take_append {r : ScanRule} {text : Text} (h : r.take c cs = some (text, rest)) :
    text ++ rest = c :: cs := by
  have htake : ∀ p : Char → Bool, c :: cs.takeWhile p ++ cs.dropWhile p = c :: cs := by
    intro p
    rw [cons_append, takeWhile_append_dropWhile]
  have hpair : c :: cs.take 1 ++ cs.tail = c :: cs := by
    cases cs <;> rfl
  cases r with
  | blockComment =>
    obtain ⟨⟨body, rest'⟩, hx, hbr⟩ := map_eq_some_iff.1 h
    cases hbr
    rw [append_assoc, blockBody_append hx, hpair]
  | stringLiteral =>
    cases h
    rw [cons_append, stringBody_append]
  | quotedIdentifier =>
    cases h
    rw [cons_append, quotedBody_append]
  | number =>
    obtain ⟨rfl, rfl⟩ := mk.inj (Option.some.inj h)
    exact scanNumber_append _
  | whitespace | lineComment | parameter | word =>
    cases h
    exact htake _
  | arrow | multiCharOperator =>
    cases h
    exact hpair
  | paren | punctuation | singleCharOperator | unknown =>
    cases h
    rfl

variable {l : Lexeme}

theorem scanToken_some_iff : scanToken c cs = some (l, rest) ↔
      (scanRule c cs).take c cs = some (l.text, rest) ∧ l.kind = (scanRule c cs).kind l.text := by
  obtain ⟨kind, text⟩ := l
  simp only [scanToken, map_eq_some_iff, Prod.exists, Prod.mk.injEq, Lexeme.mk.injEq]
  constructor
  · rintro ⟨text', rest', hx, ⟨rfl, rfl⟩, rfl⟩
    exact ⟨hx, rfl⟩
  · rintro ⟨hx, rfl⟩
    exact ⟨text, rest, hx, ⟨rfl, rfl⟩, rfl⟩

/-- A lexeme and what is left of the text make up the text. -/
theorem scanToken_append (h : scanToken c cs = some (l, rest)) : l.text ++ rest = c :: cs :=
  ScanRule.take_append (scanToken_some_iff.1 h).1

theorem scanRule_applies (c : Char) (cs : Text) : (scanRule c cs).applies c cs = true := by
  unfold scanRule
  cases h : scanRules.find? (·.applies c cs) with
  | none => rfl
  | some r => exact find?_some h

theorem scanNumber_ne_nil (h : ScanRule.number.applies c cs = true) :
    (scanNumber (c :: cs)).1 ≠ [] := by
  unfold scanNumber
  simp only [ScanRule.applies, Bool.or_eq_true, Bool.and_eq_true, beq_iff_eq] at h
  by_cases hc : c.isDigit
  · simp only [takeWhile_cons, hc, if_true, cons_append, ne_eq, reduceCtorEq, not_false_iff]
  · obtain ⟨rfl, hd⟩ := h.resolve_left hc
    cases cs with
    | nil => cases hd
    | cons d ds =>
      have hd' : d.isDigit = true := hd
      simp only [dropWhile_cons, hc, scanFraction, hd', if_true, Bool.false_eq_true, if_false,
        append_eq_nil_iff, reduceCtorEq, and_false, false_and, ne_eq, not_false_iff]

/-- Every branch takes a character. -/
theorem scanToken_text_ne_nil (h : scanToken c cs = some (l, rest)) : l.text ≠ [] := by
  have htake := (scanToken_some_iff.1 h).1
  have hcons : ∀ (text : Text), l.text = c :: text → l.text ≠ [] := by
    intro text ht
    rw [ht]
    exact cons_ne_nil c text
  cases hr : scanRule c cs with
  | number =>
    rw [hr] at htake
    rw [← (mk.inj (Option.some.inj htake)).1]
    exact scanNumber_ne_nil (hr ▸ scanRule_applies c cs)
  | blockComment =>
    rw [hr] at htake
    obtain ⟨⟨body, rest'⟩, -, hbr⟩ := map_eq_some_iff.1 htake
    exact hcons _ (mk.inj hbr).1.symm
  | whitespace | lineComment | stringLiteral | quotedIdentifier | parameter | word | arrow |
    multiCharOperator | paren | punctuation | singleCharOperator | unknown =>
      rw [hr] at htake
      exact hcons _ (mk.inj (Option.some.inj htake)).1.symm

/-- Every round shortens the text. -/
theorem scanToken_length (h : scanToken c cs = some (l, rest)) : rest.length ≤ cs.length := by
  have hlen := congrArg List.length (scanToken_append h)
  have hpos := length_pos_iff.2 (scanToken_text_ne_nil h)
  rw [length_append, length_cons] at hlen
  omega

/-- With at least one round for each character, more rounds change nothing. -/
theorem scanFuel_eq_of_le {s : Text} {n m : Nat} (hn : s.length ≤ n) (hm : s.length ≤ m) :
    scanFuel n s = scanFuel m s := by
  induction n generalizing s m with
  | zero =>
    obtain rfl := length_eq_zero_iff.1 (Nat.le_zero.1 hn)
    cases m <;> rfl
  | succ n ih =>
    cases s with
    | nil => cases m <;> rfl
    | cons c cs =>
      cases m with
      | zero => cases hm
      | succ m =>
        rw [length_cons] at hn hm
        unfold scanFuel
        cases ht : scanToken c cs with
        | none => rfl
        | some lr =>
          obtain ⟨l, rest⟩ := lr
          have hrest := scanToken_length ht
          have hfuel : scanFuel n rest = scanFuel m rest := ih (by omega) (by omega)
          simp only [bind_eq_bind, bind_some, hfuel]

/-- Scanning takes one lexeme after the other. -/
theorem scan_cons (c : Char) (cs : Text) :
    scan (c :: cs) = (scanToken c cs).bind fun lr => (scan lr.2).map (lr.1 :: ·) := by
  show scanFuel (cs.length + 1) (c :: cs) = _
  rw [scanFuel]
  cases ht : scanToken c cs with
  | none => rfl
  | some lr =>
    obtain ⟨l, rest⟩ := lr
    have hfuel : scanFuel cs.length rest = scan rest :=
      scanFuel_eq_of_le (scanToken_length ht) (Nat.le_refl _)
    simp only [bind_eq_bind, bind_some, hfuel]
    cases scan rest <;> rfl

@[simp] theorem scan_nil : scan [] = some [] := rfl

theorem scan_text {s : Text} {ls : List Lexeme} (h : scan s = some ls) :
    ls.flatMap (·.text) = s := by
  induction hn : s.length using Nat.strong_induction_on generalizing s ls with
  | _ n ih =>
    cases s with
    | nil =>
      cases h
      rfl
    | cons c cs =>
      rw [scan_cons, bind_eq_some_iff] at h
      obtain ⟨⟨l, rest⟩, ht, hmap⟩ := h
      obtain ⟨ls', hrest, rfl⟩ := map_eq_some_iff.1 hmap
      have hlen : rest.length < n := by
        have := scanToken_length ht
        rw [length_cons] at hn
        omega
      rw [flatMap_cons, ih rest.length hlen hrest rfl]
      exact scanToken_append ht

end Ontosyx.Cypher
