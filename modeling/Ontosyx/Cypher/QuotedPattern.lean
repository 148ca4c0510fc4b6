import Ontosyx.Cypher.Literal

/-!
# Mask patterns as string literals

A mask pattern comes from a policy as free text and is spliced into a query as a quoted literal
(`quote_pattern_literal`).  The tokenizer reads the literal back as one token, whose content is
the pattern.
-/

namespace Ontosyx.Cypher

open Ontosyx.Core

/-- `str::replace` of a character. -/
def replaceChar (c : Char) (by_ : Text) (t : Text) : Text :=
  t.flatMap fun d => if d = c then by_ else [d]

/-- The escaping of `quote_pattern_literal`, backslashes first. -/
def escapePattern (raw : Text) : Text :=
  replaceChar singleQuote [backslash, singleQuote]
    (replaceChar backslash [backslash, backslash] raw)

def quotePatternLiteral (raw : Text) : Text := singleQuote :: (escapePattern raw ++ [singleQuote])

/-- A character of the pattern: a quote or a backslash behind a backslash, any other by itself. -/
theorem escapePattern_cons (c : Char) (raw : Text) :
    escapePattern (c :: raw) =
      if c = singleQuote ∨ c = backslash then backslash :: c :: escapePattern raw
      else c :: escapePattern raw := by
  have hne : backslash ≠ singleQuote := by decide
  by_cases hslash : c = backslash
  · subst hslash
    simp [escapePattern, replaceChar, hne]
  · by_cases hquote : c = singleQuote
    · subst hquote
      simp [escapePattern, replaceChar, hne.symm]
    · simp [escapePattern, replaceChar, hslash, hquote]

theorem stringBody_cons {quote c : Char} (hquote : c ≠ quote) (hslash : c ≠ backslash) (cs : Text) :
    stringBody quote (c :: cs) = (c :: (stringBody quote cs).1, (stringBody quote cs).2) := by
  cases cs with
  | nil => rfl
  | cons d cs => rw [stringBody, if_neg hquote, if_neg hslash]

theorem unescape_cons {c : Char} (hslash : c ≠ backslash) (cs : Text) :
    unescape (c :: cs) = (unescape cs).map (c :: ·) := by
  cases cs with
  | nil => simp [unescape, hslash]
  | cons d cs => rw [unescape, if_neg hslash]

/-- The quote that closes the literal is the first one that no backslash precedes. -/
theorem stringBody_escapePattern (raw : Text) :
    stringBody singleQuote (escapePattern raw ++ [singleQuote]) =
      (escapePattern raw ++ [singleQuote], []) := by
  have hne : backslash ≠ singleQuote := by decide
  induction raw with
  | nil => rfl
  | cons c raw ih =>
    rw [escapePattern_cons]
    split
    · rw [List.cons_append, List.cons_append, stringBody, if_neg hne, if_pos rfl, ih]
    · rename_i hc
      rw [not_or] at hc
      rw [List.cons_append, stringBody_cons hc.1 hc.2, ih]

theorem unescape_escapePattern (raw : Text) : unescape (escapePattern raw) = some raw := by
  induction raw with
  | nil => rfl
  | cons c raw ih =>
    rw [escapePattern_cons]
    split
    · rw [unescape, if_pos rfl, ih]
      rfl
    · rename_i hc
      rw [not_or] at hc
      rw [unescape_cons hc.2, ih]
      rfl

theorem trimChars_quotePatternLiteral (raw : Text) :
    trimChars (quotePatternLiteral raw) = quotePatternLiteral raw := by
  have hstart : trimStart (quotePatternLiteral raw) = quotePatternLiteral raw := rfl
  rw [trimChars, hstart, quotePatternLiteral, ← List.cons_append]
  exact trimEnd_append (by decide)

/-- A quoted pattern is one string literal over the whole text, and its content is the pattern. -/
theorem tokenize_quotePatternLiteral (raw : Text) : tokenize (quotePatternLiteral raw) =
      some [⟨⟨.stringLiteral, quotePatternLiteral raw⟩,
        ⟨0, byteLength (quotePatternLiteral raw)⟩⟩] ∧
    parseStringLiteral (quotePatternLiteral raw) = .literal raw := by
  constructor
  · have htoken : scanToken singleQuote (escapePattern raw ++ [singleQuote]) =
        some (⟨.stringLiteral, quotePatternLiteral raw⟩, []) := by
      have hrule (cs : Text) : scanRule singleQuote cs = .stringLiteral := rfl
      simp only [scanToken, hrule, ScanRule.take, stringBody_escapePattern, Option.map_some]
      rfl
    have hscan : scan (quotePatternLiteral raw) =
        some [⟨.stringLiteral, quotePatternLiteral raw⟩] := by
      rw [quotePatternLiteral, scan_cons, htoken]
      rfl
    rw [tokenize, hscan, Option.map_some, withSpans, withSpans, Nat.zero_add]
  · have hlast : (quotePatternLiteral raw).getLast? = some singleQuote := by
      rw [quotePatternLiteral, ← List.cons_append, List.getLast?_append]
      rfl
    have hhead : (quotePatternLiteral raw).head? = some singleQuote := rfl
    have hquoted : isQuoted (quotePatternLiteral raw) = true := by simp [isQuoted, hhead, hlast]
    have hlength : (quotePatternLiteral raw).length ≠ 1 := by simp [quotePatternLiteral]
    have hinner : ((quotePatternLiteral raw).drop 1).dropLast = escapePattern raw := by
      simp [quotePatternLiteral]
    unfold parseStringLiteral
    rw [trimChars_quotePatternLiteral]
    simp only [hquoted, if_true, if_neg hlength, hinner, unescape_escapePattern]

end Ontosyx.Cypher
