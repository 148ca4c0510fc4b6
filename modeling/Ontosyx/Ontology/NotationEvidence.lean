import Ontosyx.Lib.Checked
import Ontosyx.Ontology.Cutting
import Ontosyx.Ontology.NotationInference

/-!
# Whether a proposed pattern accepts its samples

The proposal keeps the symbols of the first gap only, and drops what stands before the
first token or behind the last.  It accepts a sample that is its tokens joined by that
gap when its tokens are within what a component can hold: digits that fit `i64`, and
letters and digits of ASCII where the component has a fixed width.  Any other sample
has symbols that no component is for, and is accepted only if, cut at the first gap, it
still falls into pieces that the components happen to let through.

## Main results

* `accepts_samples_iff` — exactly when a proposal accepts all its samples.
* `mixedInvoices_rejected` — a dash and then an underscore: no sample is accepted.
-/

namespace Ontosyx.Ontology

open List Ontosyx.Core Lib.Checked List

/-- Within the values, or zero if there are none. -/
def Spanned (values : List Int) (n : Int) : Prop :=
  (values = [] ∧ n = 0) ∨ ∃ lo ∈ values, ∃ hi ∈ values, lo ≤ n ∧ n ≤ hi

def longest (column : List (List Char)) : Nat := (column.map length).max?.getD 0

/-- What the tokens at a position make of any piece of text. -/
def Admits (column : List (List Char)) (piece : List Char) : Prop :=
  if classify (column.headD []) = .integer then
    (∃ n, parseI64 piece = some n ∧ Spanned (column.filterMap parseI64) n) ∧
      (sameLength column → piece.length = min (column.headD []).length 255 ∧ ∀ c ∈ piece, c.isDigit)
  else if sameLength column then
    piece.length = min (column.headD []).length (2 ^ 32 - 1) ∧ (∀ c ∈ piece, c.isAlphanum) ∧
      (classify (column.headD []) = .alphaUpper → ∀ c ∈ piece, c.isLower = false)
  else piece.length ≤ longest column % 2 ^ 32

/-- What they make of a token that is among them. -/
def Readable (column : List (List Char)) (token : List Char) : Prop :=
  if classify (column.headD []) = .integer then
    (∀ c ∈ token, c.isDigit) ∧ digitsValue token < 2 ^ 63 ∧
      (sameLength column → token.length ≤ 255)
  else if sameLength column then (∀ c ∈ token, c.isAlphanum) ∧ token.length < 2 ^ 32
  else token.length ≤ longest column % 2 ^ 32

/-- Whether a sample suits the evidence it is part of. -/
def Fits (samples : List String) (s : String) : Prop :=
  let tokenisations := samples.map fun s => tokenise s.toList
  let gap := leadingGap tokenisations
  let tokens := (tokenise s.toList).tokens
  let pieces := splitAt gap 0 [] s.toList
  s ≠ "" ∧
    if gap.intercalate tokens = s.toList then
      ∀ pos < tokens.length, Readable (tokensAt tokenisations pos) (tokens.getD pos [])
    else
      pieces.length = tokens.length ∧
        ∀ pos < tokens.length, Admits (tokensAt tokenisations pos) (pieces.getD pos [])

/-! ## Tokens -/

/-- What the loop of `tokenise` keeps. -/
structure Tokeniser.Sound (t : Tokeniser) : Prop where
  tokens : ∀ x ∈ t.tokens, x ≠ [] ∧ ∀ c ∈ x, isAlphanumeric c = true
  separators : ∀ x ∈ t.separators, x ≠ [] ∧ ∀ c ∈ x, isAlphanumeric c = false
  currentToken : ∀ c ∈ t.currentToken, isAlphanumeric c = true
  currentSep : ∀ c ∈ t.currentSep, isAlphanumeric c = false
  inside : t.inToken = true → t.separators.length = t.tokens.length ∧
    (t.currentToken = [] → t.tokens = [])
  outside : t.inToken = false → t.currentToken = [] ∧ t.currentSep ≠ [] ∧
    t.tokens.length = t.separators.length + 1

theorem Tokeniser.Sound.push {t : Tokeniser} (h : t.Sound) (c : Char) : (t.push c).Sound := by
  unfold Tokeniser.push
  split
  · rename_i hc
    have htoken : ∀ d ∈ t.currentToken ++ [c], isAlphanumeric d = true := by
      intro d hd
      rcases mem_append.1 hd with hd | hd
      · exact h.currentToken d hd
      · rw [mem_singleton.1 hd, hc]
    split
    · rename_i hout
      rw [Bool.and_eq_true, Bool.not_eq_true', Bool.not_eq_true', isEmpty_eq_false_iff] at hout
      obtain ⟨hout, hne⟩ := hout
      obtain ⟨hempty, _, hlen⟩ := h.outside hout
      refine ⟨h.tokens, ?_, htoken, ?_, ?_, ?_⟩
      · intro x hx
        rcases mem_append.1 hx with hx | hx
        · exact h.separators x hx
        · rw [mem_singleton.1 hx]
          exact ⟨hne, h.currentSep⟩
      · intro d hd
        cases hd
      · intro _
        refine ⟨?_, fun hnil => ?_⟩
        · simp [hlen]
        · simp at hnil
      · rintro ⟨⟩
    · rename_i hin
      have hinside : t.inToken = true := by
        by_contra hout
        rw [Bool.not_eq_true] at hout
        obtain ⟨_, hne, _⟩ := h.outside hout
        simp [hout, hne] at hin
      refine ⟨h.tokens, h.separators, htoken, h.currentSep, ?_, ?_⟩
      · intro _
        refine ⟨(h.inside hinside).1, fun hnil => ?_⟩
        simp at hnil
      · intro hout
        simp [hinside] at hout
  · rename_i hc
    have hsep : ∀ d ∈ t.currentSep ++ [c], isAlphanumeric d = false := by
      intro d hd
      rcases mem_append.1 hd with hd | hd
      · exact h.currentSep d hd
      · rw [mem_singleton.1 hd, Bool.not_eq_true] at *
        exact hc
    split
    · rename_i hin
      rw [Bool.and_eq_true, Bool.not_eq_true', isEmpty_eq_false_iff] at hin
      obtain ⟨hin, hne⟩ := hin
      refine ⟨?_, h.separators, ?_, hsep, ?_, ?_⟩
      · intro x hx
        rcases mem_append.1 hx with hx | hx
        · exact h.tokens x hx
        · rw [mem_singleton.1 hx]
          exact ⟨hne, h.currentToken⟩
      · intro d hd
        cases hd
      · rintro ⟨⟩
      · intro _
        refine ⟨rfl, by simp, ?_⟩
        simp [(h.inside hin).1]
    · rename_i hout
      refine ⟨h.tokens, h.separators, h.currentToken, hsep, h.inside, ?_⟩
      intro hfalse
      obtain ⟨hempty, _, hlen⟩ := h.outside hfalse
      exact ⟨hempty, by simp, hlen⟩

variable {s : List Char}

theorem sound_foldl {t : Tokeniser} (h : t.Sound) : (s.foldl Tokeniser.push t).Sound := by
  induction s generalizing t with
  | nil => exact h
  | cons c s ih => exact ih (h.push c)

theorem sound_start : ({} : Tokeniser).Sound := by
  refine ⟨?_, ?_, ?_, ?_, fun _ => ⟨rfl, fun _ => rfl⟩, ?_⟩
  · intro x hx
    cases hx
  · intro x hx
    cases hx
  · intro c hc
    cases hc
  · intro c hc
    cases hc
  · rintro ⟨⟩

/-- Tokens are runs of letters and digits. -/
theorem mem_tokens {x : List Char} (h : x ∈ (tokenise s).tokens) :
    x ≠ [] ∧ ∀ c ∈ x, isAlphanumeric c = true := by
  have hsound : (s.foldl Tokeniser.push {}).Sound := sound_foldl sound_start
  unfold tokenise Tokeniser.finish at h
  split at h
  · exact hsound.tokens x h
  · rename_i hne
    rcases mem_append.1 h with hx | hx
    · exact hsound.tokens x hx
    · rw [mem_singleton.1 hx]
      exact ⟨fun hnil => hne (by rw [hnil]; rfl), hsound.currentToken⟩

/-- Gaps are runs of other symbols. -/
theorem mem_separators {x : List Char} (h : x ∈ (tokenise s).separators) :
    x ≠ [] ∧ ∀ c ∈ x, isAlphanumeric c = false := by
  have hsound : (s.foldl Tokeniser.push {}).Sound := sound_foldl sound_start
  unfold tokenise Tokeniser.finish at h
  split at h
  · exact hsound.separators x h
  · exact hsound.separators x h

/-- There is a gap between every two tokens. -/
theorem length_separators : (tokenise s).separators.length = (tokenise s).tokens.length - 1 := by
  have hsound : (s.foldl Tokeniser.push {}).Sound := sound_foldl sound_start
  unfold tokenise Tokeniser.finish
  cases hin : (s.foldl Tokeniser.push {}).inToken with
  | false =>
    obtain ⟨hempty, _, hlen⟩ := hsound.outside hin
    rw [if_pos (by rw [hempty]; rfl), hlen]
    rfl
  | true =>
    obtain ⟨hlen, hfirst⟩ := hsound.inside hin
    split
    · rename_i hempty
      rw [hlen, hfirst (isEmpty_iff.1 hempty)]
      rfl
    · simp [hlen]

/-- No symbol begins at a letter or digit, so tokens can be told apart. -/
theorem separable_of_tokens {separator : List Char} {tokens : List (List Char)}
    (hsep : separator ≠ [] ∧ ∀ c ∈ separator, isAlphanumeric c = false)
    (htokens : ∀ x ∈ tokens, ∀ c ∈ x, isAlphanumeric c = true) (hne : tokens ≠ []) :
    Separable separator tokens := by
  have hkeeps {x rest : List Char} (hx : ∀ c ∈ x, isAlphanumeric c = true) :
      KeepsOff separator x rest := by
    intro before behind heq hbehind hprefix
    obtain ⟨c, cs, rfl⟩ := exists_cons_of_ne_nil hbehind
    obtain ⟨y, ys, rfl⟩ := exists_cons_of_ne_nil hsep.1
    have hletter := hx c (by rw [heq]; simp)
    have hsymbol := hsep.2 y mem_cons_self
    rw [(cons_prefix_cons.1 hprefix).1, hletter] at hsymbol
    cases hsymbol
  induction tokens with
  | nil => exact absurd rfl hne
  | cons x xs ih =>
    rw [forall_mem_cons] at htokens
    cases xs with
    | nil => exact hkeeps htokens.1
    | cons y ys => exact ⟨hkeeps htokens.1, ih htokens.2 (cons_ne_nil y ys)⟩

/-- A text without a sign is read when it is digits below `2⁶³`. -/
theorem parseI64_unsigned {t : List Char} (hne : t ≠ [])
    (hletters : ∀ c ∈ t, isAlphanumeric c = true) :
    (∃ n, parseI64 t = some n) ↔ (∀ c ∈ t, c.isDigit = true) ∧ digitsValue t < 2 ^ 63 := by
  have hsign : readSign t = (false, t) := by
    cases t with
    | nil => exact absurd rfl hne
    | cons c cs =>
      have hc := hletters c mem_cons_self
      unfold readSign
      split
      · rename_i heq
        cases heq
        exact absurd hc (by decide)
      · rename_i heq
        cases heq
        exact absurd hc (by decide)
      · rfl
  have hvalue : parseI64 t =
      if (!t.all Char.isDigit) = true then none
      else if -2 ^ 63 ≤ (digitsValue t : Int) ∧ (digitsValue t : Int) < 2 ^ 63 then
        some (digitsValue t : Int)
      else none := by
    unfold parseI64
    rw [hsign]
    dsimp only
    rw [isEmpty_eq_false_iff.2 hne, Bool.false_or, if_neg Bool.false_ne_true]
  rw [hvalue]
  constructor
  · rintro ⟨n, hn⟩
    by_cases hdigits : (!t.all Char.isDigit) = true
    · rw [if_pos hdigits] at hn
      cases hn
    · rw [if_neg hdigits] at hn
      rw [Bool.not_eq_true', Bool.not_eq_false, all_eq_true] at hdigits
      refine ⟨hdigits, ?_⟩
      by_contra hlarge
      rw [if_neg (by omega)] at hn
      cases hn
  · rintro ⟨hdigits, hlt⟩
    rw [if_neg (by rw [all_eq_true.2 hdigits]; exact Bool.false_ne_true), if_pos (by omega)]
    exact ⟨_, rfl⟩

theorem spanned_iff {values : List Int} {n : Int} :
    Spanned values n ↔ values.min?.getD 0 ≤ n ∧ n ≤ values.max?.getD 0 := by
  cases values with
  | nil =>
    simp only [Spanned, min?_nil, max?_nil, Option.getD_none]
    constructor
    · rintro (⟨_, rfl⟩ | ⟨_, hmem, _⟩)
      · exact ⟨Int.le_refl _, Int.le_refl _⟩
      · cases hmem
    · intro h
      exact .inl ⟨trivial, by omega⟩
  | cons v vs =>
    have hne : v :: vs ≠ [] := cons_ne_nil v vs
    obtain ⟨lo, hlo⟩ := Option.isSome_iff_exists.1 (isSome_min?_of_ne_nil hne)
    obtain ⟨hi, hhi⟩ := Option.isSome_iff_exists.1 (isSome_max?_of_ne_nil hne)
    have hleast := min?_eq_some_iff.1 hlo
    have hgreatest := max?_eq_some_iff.1 hhi
    rw [hlo, hhi, Option.getD_some, Option.getD_some]
    constructor
    · rintro (⟨hnil, _⟩ | ⟨a, ha, b, hb, hle, hge⟩)
      · exact absurd hnil hne
      · exact ⟨Int.le_trans (hleast.2 a ha) hle, Int.le_trans hge (hgreatest.2 b hb)⟩
    · rintro ⟨hle, hge⟩
      exact .inr ⟨lo, hleast.1, hi, hgreatest.1, hle, hge⟩

/-- The least and the greatest of values within `i64`, or zero. -/
theorem toInt_ofInt_getD {o : Option Int} (h : ∀ n, o = some n → -2 ^ 63 ≤ n ∧ n < 2 ^ 63) :
    (Int64.ofInt (o.getD 0)).toInt = o.getD 0 := by
  cases o with
  | none => rfl
  | some n => exact Int64.toInt_ofInt_of_le (h n rfl).1 (h n rfl).2

theorem ne_nil_of_integer {token : List Char} (h : classify token = .integer) : token ≠ [] := by
  rintro rfl
  cases h

variable {codeResolver : ValueSetId → String → Bool}

/-- A proposed component lets through what the evidence at its position admits. -/
theorem accepts_consensus_iff {name : String} {column : List (List Char)} {piece : List Char} :
    NotationComponent.accepts codeResolver
        ⟨name, consensusKindFor (classify (column.headD [])) column⟩ piece = true ↔
      Admits column piece := by
  unfold Admits
  split
  · rename_i hclass
    have hmin : ∀ n, (column.filterMap parseI64).min? = some n → -2 ^ 63 ≤ n ∧ n < 2 ^ 63 := by
      intro n hn
      obtain ⟨t, _, ht⟩ := mem_filterMap.1 (min?_mem hn)
      exact parseI64_bounds ht
    have hmax : ∀ n, (column.filterMap parseI64).max? = some n → -2 ^ 63 ≤ n ∧ n < 2 ^ 63 := by
      intro n hn
      obtain ⟨t, _, ht⟩ := mem_filterMap.1 (max?_mem hn)
      exact parseI64_bounds ht
    have hpos : 0 < (column.headD []).length := length_pos_iff.2 (ne_nil_of_integer hclass)
    rw [hclass]
    simp only [consensusKindFor, NotationComponent.accepts, Bool.and_eq_true, Option.any_eq_true,
      decide_eq_true_eq, toInt_ofInt_getD hmin, toInt_ofInt_getD hmax, ← spanned_iff]
    rw [and_comm]
    refine and_congr_right fun _ => ?_
    cases hsame : sameLength column with
    | false => simp
    | true =>
      have hwidth : min (column.headD []).length 255 ≠ 0 := by
        have := Nat.le_min.2 ⟨hpos, (by decide : 1 ≤ 255)⟩
        exact Nat.pos_iff_ne_zero.1 this
      simp only [if_true, forall_const, Bool.or_eq_true, decide_eq_true_eq, hwidth, false_or,
        Bool.and_eq_true, all_eq_true]
      constructor
      · rintro ⟨hlen, hdigits⟩
        exact ⟨(byteLength_of_digits hdigits).symm.trans hlen, hdigits⟩
      · rintro ⟨hlen, hdigits⟩
        exact ⟨(byteLength_of_digits hdigits).trans hlen, hdigits⟩
  · rename_i hclass
    have hkind : consensusKindFor (classify (column.headD [])) column =
        if sameLength column then
          .alphanumeric (min (column.headD []).length (2 ^ 32 - 1))
            (classify (column.headD []) == .alphaUpper)
        else .freeText (some (longest column % 2 ^ 32)) := by
      unfold consensusKindFor
      split
      · exact absurd ‹_› hclass
      · rfl
    rw [hkind]
    split
    · simp only [NotationComponent.accepts, Bool.and_eq_true, decide_eq_true_eq, all_eq_true,
        Bool.not_eq_true', Bool.and_eq_false_iff, any_eq_false, beq_eq_false_iff_ne, ne_eq,
        Bool.not_eq_true, and_assoc]
      refine and_congr_right fun _ => and_congr_right fun _ => ?_
      exact imp_iff_not_or.symm
    · simp [NotationComponent.accepts]

/-- A token is let through at its own position when it is within what a component can
hold. -/
theorem admits_token_iff {column : List (List Char)} {token : List Char} (hmem : token ∈ column)
    (hclass : classify token = classify (column.headD []))
    (htoken : token ≠ [] ∧ ∀ c ∈ token, isAlphanumeric c = true) :
    Admits column token ↔ Readable column token := by
  have hlength : sameLength column = true → token.length = (column.headD []).length := by
    intro hsame
    exact beq_iff_eq.1 (all_eq_true.1 hsame token hmem)
  unfold Admits Readable
  split
  · have hspan : ∀ n, parseI64 token = some n → Spanned (column.filterMap parseI64) n := by
      intro n hn
      have hin : n ∈ column.filterMap parseI64 := mem_filterMap.2 ⟨token, hmem, hn⟩
      exact .inr ⟨n, hin, n, hin, Int.le_refl n, Int.le_refl n⟩
    have hread : (∃ n, parseI64 token = some n ∧ Spanned (column.filterMap parseI64) n) ↔
        (∀ c ∈ token, c.isDigit = true) ∧ digitsValue token < 2 ^ 63 := by
      rw [← parseI64_unsigned htoken.1 htoken.2]
      constructor
      · rintro ⟨n, hn, _⟩
        exact ⟨n, hn⟩
      · rintro ⟨n, hn⟩
        exact ⟨n, hn, hspan n hn⟩
    rw [hread, and_assoc]
    refine and_congr_right fun hdigits => and_congr_right fun _ => ?_
    refine forall_congr' fun hsame => ?_
    rw [hlength hsame]
    constructor
    · rintro ⟨hmin, _⟩
      omega
    · intro hle
      exact ⟨(Nat.min_eq_left hle).symm, hdigits⟩
  · split
    · rename_i hsame
      rw [hlength hsame]
      constructor
      · rintro ⟨hmin, hletters, _⟩
        refine ⟨hletters, ?_⟩
        omega
      · rintro ⟨hletters, hlt⟩
        refine ⟨(Nat.min_eq_left (by omega)).symm, hletters, fun hupper => ?_⟩
        rw [← hclass] at hupper
        intro c hc
        by_contra hlower
        rw [Bool.not_eq_false] at hlower
        have hany : token.any Char.isLower = true := any_eq_true.2 ⟨c, hc, hlower⟩
        unfold classify at hupper
        rw [hany] at hupper
        split at hupper <;> simp_all
    · rfl

/-! ## The proposal -/

/-- What the samples have agreed on when a pattern is proposed. -/
theorem consensus_ok {first : Tokenisation} {rest : List Tokenisation}
    {kinds : List NotationComponentKind} (h : consensus (first :: rest) = .ok kinds) :
    2 ≤ first.tokens.length ∧ (∀ t ∈ first :: rest, t.tokens.length = first.tokens.length) ∧
      kinds.length = first.tokens.length ∧
      ∀ pos < first.tokens.length, ∀ column, column = tokensAt (first :: rest) pos →
        kinds[pos]? = some (consensusKindFor (classify (column.headD [])) column) ∧
          ∀ token ∈ column, classify token = classify (column.headD []) := by
  unfold consensus at h
  dsimp only at h
  split at h
  · cases h
  rename_i hcounts
  split at h
  · cases h
  rename_i htwo
  rw [seq_eq_ok_iff] at h
  obtain ⟨_, h⟩ := h
  have hrel := forall₂_of_mapM h
  have hlen : kinds.length = first.tokens.length := by
    rw [← hrel.length_eq, length_range]
    rfl
  refine ⟨?_, ?_, hlen, ?_⟩
  · exact Nat.not_lt.1 htwo
  · intro t ht
    rw [Bool.not_eq_true', Bool.not_eq_false, all_eq_true] at hcounts
    exact beq_iff_eq.1 (hcounts _ (mem_map_of_mem ht))
  · rintro pos hpos column rfl
    have hpos' : pos < (range first.tokens.length).length := by rwa [length_range]
    have hget := hrel.get hpos' (by rwa [hlen])
    rw [get_eq_getElem, getElem_range] at hget
    unfold consensusAt at hget
    dsimp only at hget
    split at hget
    · rename_i hall
      have hhead : ((tokensAt (first :: rest) pos).map classify).headD .alphanumeric =
          classify ((tokensAt (first :: rest) pos).headD []) := rfl
      rw [hhead] at hall hget
      refine ⟨?_, fun token htoken => ?_⟩
      · rw [getElem?_eq_getElem (by rwa [hlen])]
        exact congrArg some (Except.ok.inj hget).symm
      · exact beq_iff_eq.1 (all_eq_true.1 hall _ (mem_map_of_mem htoken))
    · cases hget

theorem all_zip_iff {α β : Type} {p : α × β → Bool} {xs : List α} {ys : List β} :
    (xs.zip ys).all p = true ↔
      ∀ (pos : Nat) x y, xs[pos]? = some x → ys[pos]? = some y → p (x, y) = true := by
  rw [all_eq_true]
  constructor
  · intro h pos x y hx hy
    exact h (x, y) (mem_iff_getElem?.2 ⟨pos, getElem?_zip_eq_some.2 ⟨hx, hy⟩⟩)
  · rintro h ⟨x, y⟩ hmem
    obtain ⟨pos, hpos⟩ := mem_iff_getElem?.1 hmem
    obtain ⟨hx, hy⟩ := getElem?_zip_eq_some.1 hpos
    exact h pos x y hx hy

theorem validate_iff {np : NotationPatternDef} {gap value : List Char}
    (hsep : np.separator = String.ofList gap) (hne : gap ≠ []) :
    np.validate codeResolver value = some true ↔
      (splitAt gap 0 [] value).length = np.components.length ∧
        ∀ (pos : Nat) c piece, np.components[pos]? = some c →
          (splitAt gap 0 [] value)[pos]? = some piece → c.accepts codeResolver piece = true := by
  have hempty : (String.ofList gap).isEmpty = false := by
    simp [hne]
  unfold NotationPatternDef.validate
  simp only [hempty, Bool.false_eq_true, if_false, hsep, String.toList_ofList, Option.bind_eq_bind,
    Option.bind_some, Option.pure_def, Option.some.injEq, Bool.and_eq_true, decide_eq_true_eq,
    all_zip_iff]

/-- The first gap is there and has no letter or digit. -/
theorem leadingGap_symbols {rest : List Tokenisation} (h : 2 ≤ (tokenise s).tokens.length) :
    leadingGap (tokenise s :: rest) ≠ [] ∧
      ∀ c ∈ leadingGap (tokenise s :: rest), isAlphanumeric c = false := by
  have hmem : leadingGap (tokenise s :: rest) ∈ (tokenise s).separators := by
    change (tokenise s).separators.headD [] ∈ (tokenise s).separators
    have hlen : (tokenise s).separators.length = (tokenise s).tokens.length - 1 :=
      length_separators
    cases hseps : (tokenise s).separators with
    | nil =>
      rw [hseps, length_nil] at hlen
      omega
    | cons gap gaps => exact mem_cons_self
  exact mem_separators hmem

/-- The pieces of a value against the components of a proposal, position by position. -/
theorem forall_accepts_iff {components : List NotationComponent} {pieces : List (List Char)}
    {columns : Nat → List (List Char)} (hlen : pieces.length = components.length)
    (hkinds : ∀ pos < components.length, ∃ name, components[pos]? = some
      ⟨name, consensusKindFor (classify ((columns pos).headD [])) (columns pos)⟩) :
    (∀ (pos : Nat) c piece, components[pos]? = some c → pieces[pos]? = some piece →
      c.accepts codeResolver piece = true) ↔
      ∀ pos < components.length, Admits (columns pos) (pieces.getD pos []) := by
  constructor
  · intro h pos hpos
    obtain ⟨name, hc⟩ := hkinds pos hpos
    have hpiece : pieces[pos]? = some (pieces.getD pos []) := by
      rw [List.getD_eq_getElem?_getD, List.getElem?_eq_getElem (by omega), Option.getD_some]
    exact accepts_consensus_iff.1 (h pos _ _ hc hpiece)
  · intro h pos c piece hc hpiece
    have hpos : pos < components.length := (List.getElem?_eq_some_iff.1 hc).1
    obtain ⟨name, hkind⟩ := hkinds pos hpos
    cases hkind.symm.trans hc
    have hadmits := h pos hpos
    rw [getD_eq_getElem?_getD, hpiece, Option.getD_some] at hadmits
    exact accepts_consensus_iff.2 hadmits

/-- A value of the evidence against components that are what the evidence makes of each
position. -/
theorem forall_accepts_evidence_iff {tokenisations : List Tokenisation} {gap value : List Char}
    {components : List NotationComponent} (hgap : gap ≠ [] ∧ ∀ c ∈ gap, isAlphanumeric c = false)
    (hmem : tokenise value ∈ tokenisations)
    (hlen : components.length = (tokenise value).tokens.length) (hpos : 0 < components.length)
    (hkinds : ∀ pos < components.length, ∃ name, components[pos]? = some
      ⟨name, consensusKindFor (classify ((tokensAt tokenisations pos).headD []))
        (tokensAt tokenisations pos)⟩)
    (hclasses : ∀ pos < components.length, ∀ token ∈ tokensAt tokenisations pos,
      classify token = classify ((tokensAt tokenisations pos).headD [])) :
    ((splitAt gap 0 [] value).length = components.length ∧
      ∀ (pos : Nat) c piece, components[pos]? = some c →
        (splitAt gap 0 [] value)[pos]? = some piece → c.accepts codeResolver piece = true) ↔
      if gap.intercalate (tokenise value).tokens = value then
        ∀ pos < (tokenise value).tokens.length,
          Readable (tokensAt tokenisations pos) ((tokenise value).tokens.getD pos [])
      else
        (splitAt gap 0 [] value).length = (tokenise value).tokens.length ∧
          ∀ pos < (tokenise value).tokens.length,
            Admits (tokensAt tokenisations pos) ((splitAt gap 0 [] value).getD pos []) := by
  have hadmits : ((splitAt gap 0 [] value).length = components.length ∧
      ∀ (pos : Nat) c piece, components[pos]? = some c →
        (splitAt gap 0 [] value)[pos]? = some piece → c.accepts codeResolver piece = true) ↔
      (splitAt gap 0 [] value).length = components.length ∧ ∀ pos < components.length,
        Admits (tokensAt tokenisations pos) ((splitAt gap 0 [] value).getD pos []) :=
    and_congr_right fun hpieces => forall_accepts_iff hpieces hkinds
  rw [hadmits, hlen]
  split
  · rename_i hplain
    have hpieces : splitAt gap 0 [] value = (tokenise value).tokens := by
      conv_lhs => rw [← hplain]
      refine splitAt_intercalate hgap.1
        (separable_of_tokens hgap (fun x hx => (mem_tokens hx).2) ?_)
      exact length_pos_iff.1 (hlen ▸ hpos)
    rw [hpieces, and_iff_right rfl]
    -- at its own position a token is one of the evidence there
    refine forall₂_congr fun pos hin => ?_
    have hcolumn : (tokenise value).tokens.getD pos [] ∈ tokensAt tokenisations pos :=
      mem_map_of_mem (f := fun t : Tokenisation => t.tokens.getD pos []) hmem
    have htoken : (tokenise value).tokens.getD pos [] ∈ (tokenise value).tokens := by
      rw [getD_eq_getElem?_getD, getElem?_eq_getElem hin, Option.getD_some]
      exact getElem_mem hin
    exact admits_token_iff hcolumn (hclasses pos (hlen ▸ hin) _ hcolumn) (mem_tokens htoken)
  · rfl

theorem accepts_sample_iff {shortHash : String → String} {sampleValues : List String}
    {policy : NotationInferencePolicy} {proposal : NotationPatternProposal}
    (h : proposeNotationPattern shortHash sampleValues policy = some (.ok proposal)) {s : String}
    (hs : s ∈ sampleValues) : proposal.pattern.validate codeResolver s.toList = some true ↔
      Fits (sampleValues.filter (· ≠ "")) s := by
  have hin : s ≠ "" → s ∈ sampleValues.filter (· ≠ "") := by
    intro hne
    exact mem_filter.2 ⟨hs, by simpa using hne⟩
  unfold proposeNotationPattern at h
  dsimp only at h
  split at h
  · cases h
  generalize sampleValues.filter (· ≠ "") = samples at h hin ⊢
  split at h
  · cases h
  rename_i first rest
  split at h
  · cases h
  rename_i kinds hkinds
  cases h
  obtain ⟨htwo, hcounts, hlen, hpositions⟩ := consensus_ok hkinds
  have hgap := @leadingGap_symbols first.toList (rest.map fun s => tokenise s.toList) htwo
  rw [validate_iff rfl hgap.1]
  generalize hcomponents : kinds.zipIdx.map _ = components
  have hcount : components.length = kinds.length := by
    rw [← hcomponents, length_map, length_zipIdx]
  have hpos : 0 < components.length := by
    rw [hcount, hlen]
    exact Nat.lt_of_lt_of_le Nat.two_pos htwo
  by_cases hempty : s = ""
  · subst hempty
    refine iff_of_false ?_ fun hfits => hfits.1 rfl
    rintro ⟨hone, _⟩
    rw [hcount, hlen] at hone
    exact absurd (hone ▸ htwo) (by decide : ¬2 ≤ [([] : List Char)].length)
  · have hvalue : tokenise s.toList ∈ (first :: rest).map fun s => tokenise s.toList :=
      mem_map_of_mem (f := fun s : String => tokenise s.toList) (hin hempty)
    refine (forall_accepts_evidence_iff hgap hvalue ?_ hpos ?_ ?_).trans
      (and_iff_right hempty).symm
    · rw [hcount, hlen, hcounts _ hvalue]
    · intro pos hlt
      obtain ⟨hkind, _⟩ := hpositions pos (by rwa [← hlen, ← hcount]) _ rfl
      refine ⟨"c" ++ toString (pos + 1), ?_⟩
      rw [← hcomponents, getElem?_map, getElem?_zipIdx, hkind]
      simp
    · intro pos hlt
      exact (hpositions pos (by rwa [← hlen, ← hcount]) _ rfl).2

/-- Exactly when a proposed pattern accepts all the samples it was proposed for. -/
theorem accepts_samples_iff {shortHash : String → String} {sampleValues : List String}
    {policy : NotationInferencePolicy} {proposal : NotationPatternProposal}
    (h : proposeNotationPattern shortHash sampleValues policy = some (.ok proposal))
    (codeResolver : ValueSetId → String → Bool) :
    (∀ s ∈ sampleValues, proposal.pattern.validate codeResolver s.toList = some true) ↔
      ∀ s ∈ sampleValues, Fits (sampleValues.filter (· ≠ "")) s :=
  forall₂_congr fun _ hs => accepts_sample_iff h hs

def invoices : List String := ["INV-2025-001", "INV-2025-002", "INV-2024-099"]

theorem accepts_samples_iff_invoices : ∃ proposal,
    proposeNotationPattern (fun _ => "8ae0d641") invoices {} = some (.ok proposal) ∧
      ((∀ s ∈ invoices, proposal.pattern.validate (fun _ _ => false) s.toList = some true) ↔
        ∀ s ∈ invoices, Fits (invoices.filter (· ≠ "")) s) := by
  have h : proposeNotationPattern (fun _ => "8ae0d641") invoices {} = some (.ok _) := rfl
  exact ⟨_, h, accepts_samples_iff h _⟩

/-- The same with an underscore before the sequence number. -/
def mixedInvoices : List String := ["INV-2024_001", "INV-2024_002", "INV-2025_003"]

/-- The pattern asks for three components between dashes, and each sample has two. -/
theorem mixedInvoices_rejected : ∃ proposal,
    proposeNotationPattern (fun _ => "ef558508") mixedInvoices {} = some (.ok proposal) ∧
      ∀ s ∈ mixedInvoices, proposal.pattern.validate (fun _ _ => false) s.toList = some false := by
  refine ⟨_, rfl, ?_⟩
  decide

end Ontosyx.Ontology
