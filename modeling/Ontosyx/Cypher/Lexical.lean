import Ontosyx.Cypher.Formula

/-!
# Scanning composed texts

The rewriters paste predicates into query texts.  A pasted text `LexesTo` a
list of lexemes when it contributes exactly these in front of any text that
starts with a blank: nothing in it reaches over its end.

## Main results

* `lex_append_blanks` — blanks contribute nothing.
* `lexesTo_guard` — `v.p = $q` lexes to its five lexemes.
* `LexesTo.append_blank` — pasted texts compose.
* `isName_of_mem_lex` — what lexes as a name is one.
-/

namespace Ontosyx.Cypher

open List Ontosyx.Core Option

/-! ## Which branch scans a character -/

/-- The characters that some branch other than those of words and numbers tests
for. -/
def specialChars : List Char :=
  [' ', '\t', '\n', Char.ofNat 0x0C, '\r', '/', singleQuote, doubleQuote, backtick, '$', '.', '-',
   '<', '(', ')', '[', ']', '{', '}', ',', ';', '>', '=', ':', '+', '*', '%', '!', '|', '^']

variable {c : Char}

theorem scanRule_whitespace (hc : isAsciiWhitespace c = true) (cs : Text) :
    scanRule c cs = .whitespace := by
  simp only [scanRule, scanRules, find?_cons, ScanRule.applies, hc, getD_some]

/-- Word characters lie between the digits and the small letters. -/
theorem toNat_of_isIdentRest (hc : isIdentRest c = true) : 0x30 ≤ c.toNat ∧ c.toNat ≤ 0x7A := by
  unfold isIdentRest Char.isAlphanum Char.isAlpha Char.isUpper Char.isLower Char.isDigit at hc
  simp only [Bool.or_eq_true, Bool.and_eq_true, decide_eq_true_eq, beq_iff_eq,
    UInt32.le_iff_toNat_le, ge_iff_le] at hc
  have hn : c.toNat = c.val.toNat := rfl
  rcases hc with ((hc | hc) | hc) | rfl
  · have h1 : 65 ≤ c.val.toNat := hc.1
    have h2 : c.val.toNat ≤ 90 := hc.2
    omega
  · have h1 : 97 ≤ c.val.toNat := hc.1
    have h2 : c.val.toNat ≤ 122 := hc.2
    omega
  · have h1 : 48 ≤ c.val.toNat := hc.1
    have h2 : c.val.toNat ≤ 57 := hc.2
    omega
  · decide

theorem isIdentRest_of_start (hc : isIdentStart c = true) : isIdentRest c = true := by
  unfold isIdentStart at hc
  unfold isIdentRest Char.isAlphanum
  rw [Bool.or_eq_true] at hc ⊢
  rcases hc with hc | hc
  · exact .inl (by rw [hc, Bool.true_or])
  · exact .inr hc

theorem isIdentRest_of_isDigit (hc : c.isDigit = true) : isIdentRest c = true := by
  unfold isIdentRest Char.isAlphanum
  rw [hc, Bool.or_true, Bool.true_or]

/-- No word character is a blank. -/
theorem not_isIdentRest_of_blank (hc : isWhitespace c = true) :
    isIdentRest c = false := by
  by_contra hr
  rw [Bool.not_eq_false] at hr
  have h := toNat_of_isIdentRest hr
  simp only [isWhitespace, Bool.or_eq_true, Bool.and_eq_true, decide_eq_true_eq, beq_iff_eq] at hc
  omega

theorem isDigit_false_of_identStart (hc : isIdentStart c = true) : c.isDigit = false := by
  by_contra hd
  rw [Bool.not_eq_false] at hd
  unfold isIdentStart Char.isAlpha Char.isUpper Char.isLower at hc
  unfold Char.isDigit at hd
  simp only [Bool.or_eq_true, Bool.and_eq_true, decide_eq_true_eq, beq_iff_eq,
    UInt32.le_iff_toNat_le, ge_iff_le] at hc hd
  have h1 : c.val.toNat ≤ 57 := hd.2
  rcases hc with (hc | hc) | rfl
  · have h2 : 65 ≤ c.val.toNat := hc.1
    omega
  · have h2 : 97 ≤ c.val.toNat := hc.1
    omega
  · revert hd
    decide

/-- A character without a branch of its own starts a word or is unknown. -/
theorem scanRule_of_not_special (hc : c ∉ specialChars) (hd : c.isDigit = false) (cs : Text) :
    scanRule c cs = if isIdentStart c then .word else .unknown := by
  simp only [specialChars, mem_cons, not_mem_nil, or_false, not_or] at hc
  obtain ⟨h1, h2, h3, h4, h5, h6, h7, h8, h9, h10, h11, h12, h13, h14, h15, h16, h17, h18, h19,
    h20, h21, h22, h23, h24, h25, h26, h27, h28, h29, h30⟩ := hc
  cases hi : isIdentStart c <;>
    simp [scanRule, scanRules, ScanRule.applies, isAsciiWhitespace, multiCharOperators,
      singleCharOperators, *]

theorem scanRule_word (hc : isIdentStart c = true) (cs : Text) : scanRule c cs = .word := by
  have hspecial : c ∉ specialChars := by
    intro hmem
    have hall : ∀ d ∈ specialChars, isIdentStart d = false := by decide
    rw [hall c hmem] at hc
    cases hc
  rw [scanRule_of_not_special hspecial (isDigit_false_of_identStart hc), if_pos hc]

/-- A blank that is no ASCII white space is unknown to the tokenizer. -/
theorem scanRule_wide_blank (hc : isWhitespace c = true) (ha : isAsciiWhitespace c = false)
    (cs : Text) : scanRule c cs = .unknown := by
  have hspecial : c ∉ specialChars := by
    intro hmem
    have hall : ∀ d ∈ specialChars, isWhitespace d = true → isAsciiWhitespace d = true := by
      decide
    rw [hall c hmem hc] at ha
    cases ha
  have hrest := not_isIdentRest_of_blank hc
  have hword : isIdentStart c = false := by
    by_contra h
    rw [isIdentRest_of_start (Bool.not_eq_false _ ▸ h)] at hrest
    cases hrest
  have hdigit : c.isDigit = false := by
    by_contra h
    rw [isIdentRest_of_isDigit (Bool.not_eq_false _ ▸ h)] at hrest
    cases hrest
  rw [scanRule_of_not_special hspecial hdigit, hword]
  rfl

variable {l : Lexeme} {rest s : Text}

/-- A lexeme in front of a text. -/
theorem lex_of_scan (h : scan s = (scan rest).map (l :: ·)) :
    lex s = if l.isBlank then lex rest else (lex rest).map (l :: ·) := by
  unfold lex
  rw [h]
  cases scan rest with
  | none =>
    split_ifs
    · rfl
    · rfl
  | some ls =>
    cases hl : l.isBlank with
    | true => simp [hl]
    | false => simp [hl]

theorem lex_of_scan_blank (h : scan s = (scan rest).map (l :: ·)) (hl : l.isBlank = true) :
    lex s = lex rest := by
  rw [lex_of_scan h, if_pos hl]

theorem lex_of_scan_not_blank (h : scan s = (scan rest).map (l :: ·)) (hl : l.isBlank = false) :
    lex s = (lex rest).map (l :: ·) := by
  rw [lex_of_scan h, hl, if_neg Bool.false_ne_true]

private theorem lex_dropWhile_ascii (s : Text) : lex (s.dropWhile isAsciiWhitespace) = lex s := by
  cases s with
  | nil => rfl
  | cons c cs =>
    cases hc : isAsciiWhitespace c with
    | false => rw [dropWhile_cons, hc, if_neg Bool.false_ne_true]
    | true =>
      have hscan : scan (c :: cs) = (scan (cs.dropWhile isAsciiWhitespace)).map
          (⟨.whitespace, c :: cs.takeWhile isAsciiWhitespace⟩ :: ·) := by
        rw [scan_cons, scanToken, scanRule_whitespace hc]
        rfl
      rw [dropWhile_cons, hc, if_pos rfl, lex_of_scan_blank hscan rfl]

theorem lex_cons_blank (hc : isWhitespace c = true) (s : Text) : lex (c :: s) = lex s := by
  cases ha : isAsciiWhitespace c with
  | true =>
    rw [← lex_dropWhile_ascii (c :: s), dropWhile_cons, ha, if_pos rfl, lex_dropWhile_ascii]
  | false =>
    have hscan : scan (c :: s) = (scan s).map (⟨.unknown, [c]⟩ :: ·) := by
      rw [scan_cons, scanToken, scanRule_wide_blank hc ha]
      rfl
    refine lex_of_scan_blank hscan ?_
    show (false || (isWhitespace c && true)) = true
    rw [hc]
    rfl

theorem lex_append_blanks {ws : Text} (hws : ∀ c ∈ ws, isWhitespace c = true) (s : Text) :
    lex (ws ++ s) = lex s := by
  induction ws with
  | nil => rfl
  | cons c ws ih =>
    rw [cons_append, lex_cons_blank (hws c mem_cons_self)]
    exact ih fun d hd => hws d (mem_cons_of_mem c hd)

/-! ## Words, parameters and operators -/

/-- A text that scans as one word: a variable or property name, or a keyword. -/
def IsWord (w : Text) : Prop :=
  ∃ c cs, w = c :: cs ∧ isIdentStart c = true ∧ ∀ x ∈ cs, isIdentRest x = true

/-- The text does not go on with a word character. -/
def NotIdentNext (s : Text) : Prop := ∀ c ∈ s.head?, isIdentRest c = false

def BlankNext (s : Text) : Prop := ∀ c ∈ s.head?, isWhitespace c = true

def wordKind (w : Text) : TokenKind := if isKeywordText w then .keyword else .identifier

private theorem takeWhile_append_of_all {p : Char → Bool} {xs : Text}
    (hxs : ∀ x ∈ xs, p x = true) (hs : ∀ c ∈ s.head?, p c = false) :
    (xs ++ s).takeWhile p = xs ∧ (xs ++ s).dropWhile p = s := by
  induction xs with
  | nil =>
    cases s with
    | nil => exact ⟨rfl, rfl⟩
    | cons c cs =>
      have hc : p c = false := hs c rfl
      rw [nil_append, takeWhile_cons, dropWhile_cons, hc]
      exact ⟨rfl, rfl⟩
  | cons x xs ih =>
    have hx := hxs x mem_cons_self
    obtain ⟨ht, hd⟩ := ih fun y hy => hxs y (mem_cons_of_mem x hy)
    simp only [cons_append, takeWhile_cons, dropWhile_cons, hx, if_true, ht, hd, and_self]

variable {w : Text}

theorem scan_word (hw : IsWord w) (hs : NotIdentNext s) :
    scan (w ++ s) = (scan s).map (⟨wordKind w, w⟩ :: ·) := by
  obtain ⟨c, cs, rfl, hc, hcs⟩ := hw
  obtain ⟨ht, hd⟩ := takeWhile_append_of_all hcs hs
  rw [cons_append, scan_cons, scanToken, scanRule_word hc]
  simp only [ScanRule.take, ScanRule.kind, ht, hd, map_some, bind_some, wordKind]

theorem isBlank_word (hw : IsWord w) : (⟨wordKind w, w⟩ : Lexeme).isBlank = false := by
  obtain ⟨c, cs, rfl, hc, -⟩ := hw
  have hblank : isWhitespace c = false := by
    by_contra h
    have hrest := not_isIdentRest_of_blank (Bool.not_eq_false _ ▸ h)
    rw [isIdentRest_of_start hc] at hrest
    cases hrest
  have htrivia : (wordKind (c :: cs)).isTrivia = false := by
    unfold wordKind
    split_ifs
    · rfl
    · rfl
  show ((wordKind (c :: cs)).isTrivia || (isWhitespace c && _)) = false
  rw [htrivia, hblank]
  rfl

theorem notIdentNext_of_blankNext (hs : BlankNext s) : NotIdentNext s :=
  fun c hc => not_isIdentRest_of_blank (hs c hc)

theorem lex_word (hw : IsWord w) (hs : NotIdentNext s) :
    lex (w ++ s) = (lex s).map (⟨wordKind w, w⟩ :: ·) :=
  lex_of_scan_not_blank (scan_word hw hs) (isBlank_word hw)

/-- The point of a property access. -/
def dot : Lexeme := ⟨.operator, ['.']⟩

theorem lex_dot (hw : IsWord w) (s : Text) :
    lex ('.' :: (w ++ s)) = (lex (w ++ s)).map (dot :: ·) := by
  obtain ⟨c, cs, rfl, hc, -⟩ := hw
  have hdigit := isDigit_false_of_identStart hc
  have hdot : c ≠ '.' := by
    rintro rfl
    cases hc
  have hrule : scanRule '.' (c :: cs ++ s) = .singleCharOperator := by
    have hbeq : (c == '.') = false := beq_eq_false_iff_ne.2 hdot
    simp [scanRule, scanRules, ScanRule.applies, isAsciiWhitespace, multiCharOperators,
      singleCharOperators, nextIs, nextIsDigit, hdigit, hbeq, isIdentStart, singleQuote,
      doubleQuote, backtick]
  refine lex_of_scan_not_blank ?_ rfl
  rw [scan_cons, scanToken, hrule]
  rfl

/-! ## Composing texts -/

/-- In front of any text that starts with a blank, `t` contributes the lexemes
`ls`. -/
def LexesTo (t : Text) (ls : List Lexeme) : Prop :=
  ∀ s, BlankNext s → lex (t ++ s) = (lex s).map (ls ++ ·)

variable {ls : List Lexeme}

theorem LexesTo.lex_eq {t : Text} (h : LexesTo t ls) : lex t = some ls := by
  have hnil := h [] fun c hc => by cases hc
  rw [append_nil] at hnil
  rw [hnil]
  show some (ls ++ []) = _
  rw [append_nil]

theorem lexesTo_word (hw : IsWord w) : LexesTo w [⟨wordKind w, w⟩] :=
  fun _ hs => lex_word hw (notIdentNext_of_blankNext hs)

theorem LexesTo.append_blank {t u : Text} {ms : List Lexeme} (ht : LexesTo t ls)
    (hu : LexesTo u ms) : LexesTo (t ++ ' ' :: u) (ls ++ ms) := by
  intro s hs
  have hblank : BlankNext (' ' :: (u ++ s)) := by
    intro c hc
    obtain rfl : ' ' = c := Option.some.inj hc
    rfl
  rw [append_assoc, cons_append, ht _ hblank, lex_cons_blank (by rfl), hu s hs]
  cases lex s with
  | none => rfl
  | some xs => simp only [map_some, append_assoc]

theorem lexesTo_equals : LexesTo ['='] [⟨.operator, ['=']⟩] := by
  intro s hs
  refine lex_of_scan_not_blank ?_ rfl
  have hrule : scanRule '=' s = .singleCharOperator := by
    cases s with
    | nil => rfl
    | cons c cs =>
      have hc : isWhitespace c = true := hs c rfl
      have hne : (c == '~') = false := by
        rw [beq_eq_false_iff_ne]
        rintro rfl
        cases hc
      simp [scanRule, scanRules, ScanRule.applies, isAsciiWhitespace, multiCharOperators,
        singleCharOperators, nextIs, hne, singleQuote, doubleQuote, backtick]
  rw [singleton_append, scan_cons, scanToken, hrule]
  rfl

theorem lex_parameter {q : Text} (hq : ∀ c ∈ q, isIdentRest c = true) (hs : NotIdentNext s) :
    lex ('$' :: (q ++ s)) = (lex s).map (⟨.parameter, '$' :: q⟩ :: ·) := by
  obtain ⟨ht, hd⟩ := takeWhile_append_of_all hq hs
  refine lex_of_scan_not_blank ?_ rfl
  rw [scan_cons, scanToken]
  simp only [ScanRule.take, ht, hd]
  rfl

variable {p v : Text}

theorem lexesTo_access (hv : IsWord v) (hp : IsWord p) :
    LexesTo (v ++ '.' :: p) [⟨wordKind v, v⟩, dot, ⟨wordKind p, p⟩] := by
  intro s hs
  have hnext : NotIdentNext ('.' :: (p ++ s)) := by
    intro c hc
    obtain rfl : '.' = c := Option.some.inj hc
    rfl
  rw [append_assoc, cons_append, lex_word hv hnext, lex_dot hp,
    lex_word hp (notIdentNext_of_blankNext hs), Option.map_map, Option.map_map]
  rfl

/-- A variable or property name: a word that is no keyword. -/
structure IsName (w : Text) : Prop where
  word : IsWord w
  notKeyword : isKeywordText w = false

def nameLexeme (w : Text) : Lexeme := ⟨.identifier, w⟩

theorem IsName.lexeme_eq (hw : IsName w) : (⟨wordKind w, w⟩ : Lexeme) = nameLexeme w := by
  unfold wordKind nameLexeme
  rw [hw.notKeyword]
  rfl

/-- The guard `v.p = $q`. -/
def guardText (v p q : Text) : Text := v ++ '.' :: p ++ " = $".toList ++ q

/-- The lexemes of `v.p = $q`. -/
def guardLexemes (v p q : Text) : List Lexeme :=
  [nameLexeme v, dot, nameLexeme p, ⟨.operator, ['=']⟩, ⟨.parameter, '$' :: q⟩]

/-- A guard in front of a text that does not go on with a word character. -/
theorem lex_guard_append {q : Text} (hv : IsName v) (hp : IsName p)
    (hq : ∀ c ∈ q, isIdentRest c = true) (hs : NotIdentNext s) :
    lex (guardText v p q ++ s) = (lex s).map (guardLexemes v p q ++ ·) := by
  have hfront := (lexesTo_access hv.word hp.word).append_blank lexesTo_equals
  rw [hv.lexeme_eq, hp.lexeme_eq] at hfront
  have htext : guardText v p q ++ s =
      (v ++ '.' :: p ++ ' ' :: ['=']) ++ ' ' :: '$' :: (q ++ s) := by
    simp [guardText]
  have hblank : BlankNext (' ' :: '$' :: (q ++ s)) := by
    intro c hc
    obtain rfl : ' ' = c := Option.some.inj hc
    rfl
  rw [htext, hfront _ hblank, lex_cons_blank (by rfl), lex_parameter hq hs, Option.map_map]
  rfl

theorem lexesTo_guard {q : Text} (hv : IsName v) (hp : IsName p)
    (hq : ∀ c ∈ q, isIdentRest c = true) : LexesTo (guardText v p q) (guardLexemes v p q) :=
  fun _ hs => lex_guard_append hv hp hq (notIdentNext_of_blankNext hs)

/-- The predicate `v.p IS NULL`. -/
def nullCheckText (v p : Text) : Text := v ++ '.' :: p ++ " IS NULL".toList

/-- The lexemes of `v.p IS NULL`. -/
def nullCheckLexemes (v p : Text) : List Lexeme :=
  [nameLexeme v, dot, nameLexeme p, ⟨.keyword, "IS".toList⟩, ⟨.keyword, "NULL".toList⟩]

theorem lexesTo_nullCheck (hv : IsName v) (hp : IsName p) :
    LexesTo (nullCheckText v p) (nullCheckLexemes v p) := by
  have his : LexesTo "IS".toList [⟨.keyword, "IS".toList⟩] :=
    lexesTo_word ⟨'I', "S".toList, rfl, by decide, by decide⟩
  have hnull : LexesTo "NULL".toList [⟨.keyword, "NULL".toList⟩] :=
    lexesTo_word ⟨'N', "ULL".toList, rfl, by decide, by decide⟩
  have h := ((lexesTo_access hv.word hp.word).append_blank his).append_blank hnull
  rw [hv.lexeme_eq, hp.lexeme_eq] at h
  have htext : nullCheckText v p =
      (v ++ '.' :: p) ++ ' ' :: "IS".toList ++ ' ' :: "NULL".toList := by
    simp [nullCheckText]
  rw [htext]
  exact h

theorem isWord_of_scanRule {cs : Text} (h : isIdentStart c = true) :
    IsWord (c :: cs.takeWhile isIdentRest) :=
  ⟨c, _, rfl, h, fun _ hx => mem_takeWhile_imp hx⟩

theorem isName_of_scanToken {cs : Text} (h : scanToken c cs = some (l, rest))
    (hl : l.kind = .identifier) : IsName l.text := by
  obtain ⟨htake, hkind⟩ := scanToken_some_iff.1 h
  rw [hl] at hkind
  have hrule : scanRule c cs = .word := by
    cases hr : scanRule c cs <;> rw [hr] at hkind <;> first | rfl | cases hkind
  rw [hrule] at htake hkind
  have htext : l.text = c :: cs.takeWhile isIdentRest :=
    (Prod.mk.inj (Option.some.inj htake)).1.symm
  have happlies := scanRule_applies c cs
  rw [hrule] at happlies
  refine ⟨htext ▸ isWord_of_scanRule happlies, ?_⟩
  by_contra hkey
  rw [Bool.not_eq_false] at hkey
  simp only [ScanRule.kind, hkey, if_true, reduceCtorEq] at hkind

theorem isName_of_mem_scan (h : scan s = some ls) (hl : l ∈ ls) (hkind : l.kind = .identifier) :
    IsName l.text := by
  induction hn : s.length using Nat.strong_induction_on generalizing s ls with
  | _ n ih =>
    cases s with
    | nil =>
      cases h
      cases hl
    | cons c cs =>
      rw [scan_cons, bind_eq_some_iff] at h
      obtain ⟨⟨m, rest⟩, ht, hmap⟩ := h
      obtain ⟨ms, hrest, rfl⟩ := map_eq_some_iff.1 hmap
      rcases mem_cons.1 hl with rfl | hl
      · exact isName_of_scanToken ht hkind
      · have hlen : rest.length < n := by
          have := scanToken_length ht
          rw [length_cons] at hn
          omega
        exact ih rest.length hlen hrest hl rfl

theorem isName_of_mem_lex (h : lex s = some ls) (hw : nameLexeme w ∈ ls) : IsName w := by
  obtain ⟨ms, hms, rfl⟩ := map_eq_some_iff.1 h
  exact isName_of_mem_scan hms (mem_filter.1 hw).1 rfl

end Ontosyx.Cypher
