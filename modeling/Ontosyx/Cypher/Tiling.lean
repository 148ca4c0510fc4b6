import Ontosyx.Cypher.Token

/-!
# The tokens tile the text

The tokenizer returns tokens that tile its input, with spans on character boundaries, unless a
block comment that is never closed ends in a character of more than one byte.

## Main results

* `blockBody_none_iff` — what a block comment panics on.
* `tokenize_tiles_iff` — when the tokens tile the text.
-/

namespace Ontosyx.Cypher

open List Option

/-- The spans follow one another from byte `start` to byte `stop`. -/
def Contiguous : Nat → List CypherToken → Nat → Prop
  | start, [], stop => start = stop
  | start, t :: ts, stop => t.span.start = start ∧ Contiguous t.span.stop ts stop

/-- The tokens tile the text: their texts make it up, and their spans are contiguous, from its
first byte to its last, and fall on boundaries between characters. -/
structure Tiles (s : Text) (ts : List CypherToken) : Prop where
  text : ts.flatMap (·.text) = s
  spans : Contiguous 0 ts (byteLength s)
  boundaries : ∀ t ∈ ts, ∃ before after, s = before ++ t.text ++ after ∧
    t.span = ⟨byteLength before, byteLength (before ++ t.text)⟩

/-- The scanner comes to the second text on its way through the first. -/
inductive Reaches : Text → Text → Prop
  | refl {s : Text} : Reaches s s
  | step {c : Char} {cs rest s : Text} {l : Lexeme} (h : scanToken c cs = some (l, rest))
      (hrest : Reaches rest s) : Reaches (c :: cs) s

/-- The text after `/*` closes the comment, or ends in a character of one byte. -/
def ClosesComment (s : Text) : Prop :=
  ['*', '/'] <:+: s ∨ ∀ c ∈ s.getLast?, c.utf8Size = 1

theorem blockBody_none_iff {s : Text} : blockBody s = none ↔ ¬ ClosesComment s := by
  unfold ClosesComment
  fun_induction blockBody s with
  | case1 => simp
  | case2 c hc => simp [hc]
  | case3 c hc =>
    have hshort : ¬ ['*', '/'] <:+: [c] := fun h => absurd h.length_le (by simp)
    simp [hc, hshort]
  | case4 c d cs hcd =>
    obtain ⟨rfl, rfl⟩ := hcd
    have hclosed : ['*', '/'] <:+: '*' :: '/' :: cs := ⟨[], cs, rfl⟩
    exact iff_of_false (by simp) fun h => h (.inl hclosed)
  | case5 c d cs hcd ih =>
    have hinfix : ['*', '/'] <:+: c :: d :: cs ↔ ['*', '/'] <:+: d :: cs := by
      rw [infix_cons_iff]
      refine or_iff_right fun hprefix => hcd ?_
      obtain ⟨hc, hprefix⟩ := cons_prefix_cons.1 hprefix
      exact ⟨hc.symm, (cons_prefix_cons.1 hprefix).1.symm⟩
    rw [map_eq_none_iff, ih, hinfix, getLast?_cons_cons]

/-- A round of the tokenizer panics on a block comment only. -/
theorem scanToken_none_iff {c : Char} {cs : Text} :
    scanToken c cs = none ↔ c = '/' ∧ ∃ rest, cs = '*' :: rest ∧ ¬ ClosesComment rest := by
  have hcomment {rest : Text} : scanToken '/' ('*' :: rest) = none ↔ ¬ ClosesComment rest := by
    rw [← blockBody_none_iff]
    have hrule : scanRule '/' ('*' :: rest) = .blockComment := rfl
    unfold scanToken
    rw [hrule]
    simp only [ScanRule.take, tail_cons, map_eq_none_iff]
  constructor
  · intro h
    have hrule : scanRule c cs = .blockComment := by
      unfold scanToken at h
      cases hrule : scanRule c cs <;> rw [hrule] at h <;> first | rfl | cases h
    have happlies := scanRule_applies c cs
    rw [hrule] at happlies
    simp only [ScanRule.applies, Bool.and_eq_true, beq_iff_eq, nextIs] at happlies
    obtain ⟨rfl, hnext⟩ := happlies
    cases cs with
    | nil => cases hnext
    | cons d rest =>
      obtain rfl : d = '*' := some.inj hnext
      exact ⟨rfl, rest, rfl, hcomment.1 h⟩
  · rintro ⟨rfl, rest, rfl, hrest⟩
    exact hcomment.2 hrest

/-- The scanner comes to the end of a text unless it comes to such a comment. -/
theorem scan_eq_none_iff {s : Text} :
    scan s = none ↔ ∃ rest, Reaches s ('/' :: '*' :: rest) ∧ ¬ ClosesComment rest := by
  induction hn : s.length using Nat.strong_induction_on generalizing s with
  | _ n ih =>
    cases s with
    | nil =>
      refine iff_of_false nofun ?_
      rintro ⟨rest, hreach, -⟩
      cases hreach
    | cons c cs =>
      rw [scan_cons, bind_eq_none_iff]
      constructor
      · intro h
        cases htoken : scanToken c cs with
        | none =>
          obtain ⟨rfl, rest, rfl, hrest⟩ := scanToken_none_iff.1 htoken
          exact ⟨rest, .refl, hrest⟩
        | some lr =>
          obtain ⟨l, tail⟩ := lr
          have htail := map_eq_none_iff.1 (h _ htoken)
          have hlt : tail.length < n := by
            rw [← hn, length_cons]
            exact Nat.lt_succ_of_le (scanToken_length htoken)
          obtain ⟨rest, hreach, hrest⟩ := (ih _ hlt rfl).1 htail
          exact ⟨rest, .step htoken hreach, hrest⟩
      · intro ⟨rest, hreach, hrest⟩ lr htoken
        cases hreach with
        | refl =>
          rw [scanToken_none_iff.2 ⟨rfl, rest, rfl, hrest⟩] at htoken
          cases htoken
        | step htoken' hreach =>
          obtain rfl := some.inj (htoken'.symm.trans htoken)
          refine map_eq_none_iff.2 ((ih _ ?_ rfl).2 ⟨rest, hreach, hrest⟩)
          rw [← hn, length_cons]
          exact Nat.lt_succ_of_le (scanToken_length htoken')

/-! ## Spans -/

theorem byteLength_append (s t : Text) : byteLength (s ++ t) = byteLength s + byteLength t := by
  unfold byteLength
  rw [map_append, sum_append]

variable (start : Nat) (ls : List Lexeme)

theorem contiguous_withSpans :
    Contiguous start (withSpans start ls) (start + byteLength (ls.flatMap (·.text))) := by
  induction ls generalizing start with
  | nil => rfl
  | cons l ls ih =>
    refine ⟨rfl, ?_⟩
    rw [flatMap_cons, byteLength_append, ← Nat.add_assoc]
    exact ih _

theorem text_withSpans : (withSpans start ls).flatMap (·.text) = ls.flatMap (·.text) := by
  induction ls generalizing start with
  | nil => rfl
  | cons l ls ih => exact congrArg (l.text ++ ·) (ih _)

theorem map_withSpans : (withSpans start ls).map (·.toLexeme) = ls := by
  induction ls generalizing start with
  | nil => rfl
  | cons l ls ih => exact congrArg (l :: ·) (ih _)

theorem span_of_mem_withSpans : ∀ t ∈ withSpans start ls, ∃ before after,
      ls.flatMap (·.text) = before ++ t.text ++ after ∧
        t.span = ⟨start + byteLength before, start + byteLength (before ++ t.text)⟩ := by
  induction ls generalizing start with
  | nil => nofun
  | cons l ls ih =>
    unfold withSpans
    rw [forall_mem_cons]
    refine ⟨⟨[], ls.flatMap (·.text), rfl, rfl⟩, fun t ht => ?_⟩
    obtain ⟨before, after, htext, hspan⟩ := ih _ t ht
    refine ⟨l.text ++ before, after, ?_, ?_⟩
    · rw [flatMap_cons, htext]
      simp only [append_assoc]
    · rw [hspan]
      simp only [byteLength_append, Nat.add_assoc]

theorem tiles_of_tokenize {s : Text} {ts : List CypherToken} (h : tokenize s = some ts) :
    Tiles s ts := by
  obtain ⟨ls, hls, rfl⟩ := map_eq_some_iff.1 h
  have htext := scan_text hls
  refine ⟨(text_withSpans 0 ls).trans htext, ?_, ?_⟩
  · have hspans := contiguous_withSpans 0 ls
    rwa [Nat.zero_add, htext] at hspans
  · have hboundaries := span_of_mem_withSpans 0 ls
    simpa only [Nat.zero_add, htext] using hboundaries

/-- The tokenizer returns tokens that tile the text exactly when every block comment that it
comes to is closed, or ends in a character of one byte. -/
theorem tokenize_tiles_iff (s : Text) : (∃ ts, tokenize s = some ts ∧ Tiles s ts) ↔
      ∀ rest, Reaches s ('/' :: '*' :: rest) → ClosesComment rest := by
  have hreturns : (∃ ts, tokenize s = some ts ∧ Tiles s ts) ↔ ¬ scan s = none := by
    constructor
    · rintro ⟨ts, hts, -⟩ hnone
      rw [tokenize, hnone] at hts
      cases hts
    · intro hne
      obtain ⟨ls, hls⟩ := ne_none_iff_exists'.1 hne
      have htokens : tokenize s = some (withSpans 0 ls) := by rw [tokenize, hls, map_some]
      exact ⟨_, htokens, tiles_of_tokenize htokens⟩
  rw [hreturns, scan_eq_none_iff]
  simp only [not_exists, not_and, Classical.not_not]

/-- A comment that is left open behind a word with an accent. -/
theorem open_comment_panics : ¬ ∃ ts, tokenize "RETURN 1 /* café".toList = some ts ∧
      Tiles "RETURN 1 /* café".toList ts := by
  rintro ⟨ts, hts, -⟩
  have hnone : tokenize "RETURN 1 /* café".toList = none := by decide +kernel
  rw [hnone] at hts
  cases hts

end Ontosyx.Cypher
