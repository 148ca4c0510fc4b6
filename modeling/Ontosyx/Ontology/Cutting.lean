import Ontosyx.Ontology.Terminology

/-!
# Cutting an identifier into tokens

A text is cut at byte offsets, where a cut must fall between two characters, or at a
separator, whose occurrences are passed over from the left.

## Main results

* `splitFixedWidth_isSome_iff` — a fixed-width split succeeds when every cut falls on a
  character.
* `splitAt_spec` — what the split finds can be told apart, and joins to the text.
-/

namespace Ontosyx.Ontology

open List Ontosyx.Core Option Nat

/-! ## Cuts -/

/-- `is_char_boundary`, of an offset within the text. -/
def isCharBoundary : Nat → List Char → Bool
  | 0, _ => true
  | _ + 1, [] => false
  | n + 1, c :: cs => c.utf8Size ≤ n + 1 && isCharBoundary (n + 1 - c.utf8Size) cs

/-- A text can be cut there: behind its end, or between two characters. -/
def cutsAt (n : Nat) (value : List Char) : Bool :=
  byteLength value ≤ n || isCharBoundary n value

/-- Where the first `k` components end, by their widths. -/
def widthOf (components : List NotationComponent) (k : Nat) : Nat :=
  ((components.take k).map componentFixedWidth).sum

@[simp] theorem byteLength_cons (c : Char) (cs : List Char) :
    byteLength (c :: cs) = c.utf8Size + byteLength cs := by
  rw [byteLength, map_cons, sum_cons, byteLength]

variable {c : Char}

theorem utf8Size_of_isAlphanum (h : c.isAlphanum = true) : c.utf8Size = 1 := by
  have hle : c.val ≤ 122 := by
    unfold Char.isAlphanum Char.isAlpha Char.isUpper Char.isLower Char.isDigit at h
    rw [Bool.or_eq_true, Bool.or_eq_true, decide_eq_true_eq, Bool.and_eq_true, decide_eq_true_eq,
      decide_eq_true_eq, Bool.and_eq_true, decide_eq_true_eq, decide_eq_true_eq] at h
    rcases h with (h | h) | h
    · exact UInt32.le_trans h.2 (by decide)
    · exact h.2
    · exact UInt32.le_trans h.2 (by decide)
  unfold Char.utf8Size
  rw [if_pos]
  exact UInt32.le_trans hle (by decide)

/-- Letters and digits take a byte each. -/
theorem byteLength_of_isAlphanum {t : List Char} (h : ∀ c ∈ t, c.isAlphanum = true) :
    byteLength t = t.length := by
  induction t with
  | nil => rfl
  | cons c t ih =>
    rw [forall_mem_cons] at h
    rw [byteLength_cons, utf8Size_of_isAlphanum h.1, ih h.2, length_cons, add_comm]

theorem byteLength_of_digits {t : List Char} (h : ∀ c ∈ t, c.isDigit = true) :
    byteLength t = t.length := by
  apply byteLength_of_isAlphanum
  intro c hc
  rw [Char.isAlphanum, h c hc, Bool.or_true]

/-- Cutting succeeds where the text can be cut. -/
theorem takeBytes_isSome (n : Nat) (value : List Char) :
    (takeBytes n value).isSome = cutsAt n value := by
  induction value generalizing n with
  | nil =>
    show true = (decide (0 ≤ n) || _)
    rw [decide_eq_true (zero_le n), Bool.true_or]
  | cons c cs ih =>
    have hpos : 0 < c.utf8Size := Char.utf8Size_pos c
    unfold takeBytes
    cases n with
    | zero => simp [cutsAt, isCharBoundary]
    | succ n =>
      rw [if_neg (succ_ne_zero n), cutsAt, isCharBoundary, byteLength_cons]
      by_cases hfits : c.utf8Size ≤ n + 1
      · rw [if_pos hfits, isSome_map, ih, cutsAt, decide_eq_true hfits, Bool.true_and,
          show decide (c.utf8Size + byteLength cs ≤ n + 1) =
            decide (byteLength cs ≤ n + 1 - c.utf8Size) from by
              rw [decide_eq_decide]
              omega]
      · rw [if_neg hfits, decide_eq_false hfits, Bool.false_and, Bool.or_false,
          decide_eq_false (by omega)]
        rfl

variable {rest value : List Char}

/-- What is cut off and what is left make up the text, and the cut is where it should be. -/
theorem takeBytes_spec {n : Nat} {taken : List Char} (h : takeBytes n value = some (taken, rest)) :
    value = taken ++ rest ∧ (byteLength taken = n ∨ rest = [] ∧ byteLength taken ≤ n) := by
  induction value generalizing n taken with
  | nil =>
    cases h
    exact ⟨rfl, .inr ⟨rfl, zero_le n⟩⟩
  | cons c cs ih =>
    unfold takeBytes at h
    split at h
    · rename_i hzero
      cases h
      exact ⟨rfl, .inl hzero.symm⟩
    · split at h
      · rename_i hfits
        rw [map_eq_some_iff] at h
        obtain ⟨⟨taken', rest'⟩, hrec, h⟩ := h
        cases h
        have hspec := ih hrec
        refine ⟨congrArg (c :: ·) hspec.1, ?_⟩
        rw [byteLength_cons]
        apply hspec.2.imp
        · intro hlen
          omega
        · intro hlen
          exact ⟨hlen.1, by omega⟩
      · cases h

theorem isCharBoundary_append (taken rest : List Char) (n : Nat) :
    isCharBoundary (byteLength taken + n) (taken ++ rest) = isCharBoundary n rest := by
  induction taken with
  | nil =>
    show isCharBoundary (0 + n) rest = _
    rw [zero_add]
  | cons c cs ih =>
    have hpos : 0 < c.utf8Size := Char.utf8Size_pos c
    obtain ⟨k, hk⟩ : ∃ k, byteLength (c :: cs) + n = k + 1 :=
      ⟨byteLength (c :: cs) + n - 1, by rw [byteLength_cons]; omega⟩
    rw [hk, cons_append, isCharBoundary, ← hk, byteLength_cons,
      decide_eq_true (by omega), Bool.true_and, ← ih]
    congr 1
    omega

theorem byteLength_append (xs ys : List Char) :
    byteLength (xs ++ ys) = byteLength xs + byteLength ys := by
  simp [byteLength]

/-- Behind a cut the offsets count from there. -/
theorem cutsAt_of_takeBytes {w : Nat} {taken : List Char}
    (h : takeBytes w value = some (taken, rest)) (n : Nat) :
    cutsAt (w + n) value = cutsAt n rest := by
  obtain ⟨rfl, hlen⟩ := takeBytes_spec h
  cases hlen with
  | inl hlen =>
    rw [cutsAt, cutsAt, ← hlen, isCharBoundary_append, byteLength_append,
      show decide (byteLength taken + byteLength rest ≤ byteLength taken + n) =
        decide (byteLength rest ≤ n) from by
          rw [decide_eq_decide]
          omega]
  | inr hlen =>
    obtain ⟨rfl, hle⟩ := hlen
    have hnil : byteLength [] = 0 := rfl
    rw [cutsAt, cutsAt, byteLength_append, hnil, decide_eq_true (by omega),
      decide_eq_true (by omega), Bool.true_or, Bool.true_or]

variable {components : List NotationComponent} {piece : List Char}

/-- A fixed-width split succeeds when every cut falls on a character. -/
theorem splitFixedWidth_isSome_iff : (splitFixedWidth value components).isSome = true ↔
      ∀ k ≤ components.length, cutsAt (widthOf components k) value = true := by
  induction components generalizing value with
  | nil =>
    have hstart : cutsAt 0 value = true := by
      simp [cutsAt, isCharBoundary]
    constructor
    · intro _ k _
      rw [widthOf, take_nil]
      exact hstart
    · intro _
      rfl
  | cons c components ih =>
    have hwidth (k : Nat) : widthOf (c :: components) (k + 1) =
        componentFixedWidth c + widthOf components k := by
      rw [widthOf, take_succ_cons, map_cons, sum_cons, widthOf]
    have hfirst : widthOf (c :: components) 1 = componentFixedWidth c := hwidth 0
    unfold splitFixedWidth
    cases htake : takeBytes (componentFixedWidth c) value with
    | none =>
      have hcut : cutsAt (componentFixedWidth c) value = false := by
        rw [← takeBytes_isSome, htake]
        rfl
      constructor
      · intro h
        exact absurd h (by simp)
      · intro h
        have hbad := h 1 (by simp)
        rw [hfirst, hcut] at hbad
        exact absurd hbad (by decide)
    | some cut =>
      obtain ⟨taken, rest⟩ := cut
      have hrest : ((some (taken, rest)).bind fun x =>
          (splitFixedWidth x.2 components).bind fun tokens => some (x.1 :: tokens)).isSome =
            (splitFixedWidth rest components).isSome := by
        rw [bind_some]
        cases splitFixedWidth rest components <;> rfl
      refine Eq.congr_left hrest |>.trans ?_
      rw [ih]
      constructor
      · intro h k hk
        cases k with
        | zero => simp [widthOf, cutsAt, isCharBoundary]
        | succ k =>
          rw [hwidth, cutsAt_of_takeBytes htake]
          exact h k (by simpa using hk)
      · intro h k hk
        have hcut := h (k + 1) (by simpa using hk)
        rwa [hwidth, cutsAt_of_takeBytes htake] at hcut

theorem takeBytes_append (taken rest : List Char) :
    takeBytes (byteLength taken) (taken ++ rest) = some (taken, rest) := by
  induction taken with
  | nil =>
    cases rest with
    | nil => rfl
    | cons c cs => exact if_pos rfl
  | cons c cs ih =>
    have hpos : 0 < c.utf8Size := Char.utf8Size_pos c
    rw [cons_append, byteLength_cons, takeBytes, if_neg (by omega), if_pos (by omega),
      Nat.add_sub_cancel_left, ih]
    rfl

theorem splitFixedWidth_le {tokens : List (List Char)}
    (h : splitFixedWidth value components = some tokens) :
    ∀ x ∈ components.zip tokens, byteLength x.2 ≤ componentFixedWidth x.1 := by
  induction components generalizing value tokens with
  | nil =>
    rw [zip_nil_left]
    exact fun x hx => absurd hx not_mem_nil
  | cons c components ih =>
    obtain ⟨⟨taken, rest⟩, htake, h⟩ := bind_eq_some_iff.1 h
    obtain ⟨tokens', hrest, h⟩ := bind_eq_some_iff.1 h
    cases h
    rw [zip_cons_cons, forall_mem_cons]
    refine ⟨?_, ih hrest⟩
    cases (takeBytes_spec htake).2 with
    | inl hlen => exact le_of_eq hlen
    | inr hlen => exact hlen.2

/-- The tokens of a fixed-width split make up the text. -/
theorem flatten_splitFixedWidth {tokens : List (List Char)}
    (h : splitFixedWidth value components = some tokens) : tokens.flatten = value := by
  induction components generalizing value tokens with
  | nil =>
    cases h
    cases value <;> simp
  | cons c components ih =>
    obtain ⟨⟨taken, rest⟩, htake, h⟩ := bind_eq_some_iff.1 h
    obtain ⟨tokens', hrest, h⟩ := bind_eq_some_iff.1 h
    cases h
    rw [flatten_cons, ih hrest, (takeBytes_spec htake).1]

/-! ## Splitting at a separator -/

/-- No separator begins inside the piece, read on into what follows. -/
def KeepsOff (separator piece rest : List Char) : Prop :=
  ∀ before behind, piece = before ++ behind → behind ≠ [] → ¬ separator <+: behind ++ rest

/-- The pieces can be told apart when they are joined. -/
def Separable (separator : List Char) : List (List Char) → Prop
  | [] => False
  | [piece] => KeepsOff separator piece []
  | piece :: next :: pieces =>
    KeepsOff separator piece separator ∧ Separable separator (next :: pieces)

variable {separator token : List Char}

theorem splitAt_skip {xs : List Char} :
    splitAt separator xs.length token (xs ++ rest) = splitAt separator 0 token rest := by
  induction xs with
  | nil => rfl
  | cons x xs ih => exact ih

theorem splitAt_separator (hne : separator ≠ []) : splitAt separator 0 token (separator ++ rest) =
      token.reverse :: splitAt separator 0 [] rest := by
  cases hsep : separator with
  | nil => exact absurd hsep hne
  | cons y ys =>
    have hprefix : (y :: ys).isPrefixOf (y :: (ys ++ rest)) = true :=
      isPrefixOf_iff_prefix.2 ⟨rest, rfl⟩
    rw [cons_append, splitAt, if_pos hprefix]
    exact congrArg _ splitAt_skip

theorem splitAt_of_mismatch {cs : List Char} (h : ¬ separator <+: c :: cs) :
    splitAt separator 0 token (c :: cs) = splitAt separator 0 (c :: token) cs := by
  rw [← isPrefixOf_iff_prefix] at h
  rw [splitAt, if_neg h]

theorem KeepsOff.tail {cs : List Char} (h : KeepsOff separator (c :: cs) rest) :
    KeepsOff separator cs rest := by
  intro before behind heq hne
  apply h (c :: before) behind _ hne
  rw [cons_append, ← heq]

/-- A piece grows by a character that no separator begins at. -/
theorem KeepsOff.snoc {cs : List Char} (h : KeepsOff separator token.reverse (c :: cs))
    (hc : ¬ separator <+: c :: cs) : KeepsOff separator (c :: token).reverse cs := by
  intro before behind heq hne hprefix
  have hbehind := (dropLast_append_getLast hne).symm
  rw [hbehind, reverse_cons, ← append_assoc] at heq
  obtain ⟨htoken, hlast⟩ := append_inj' heq rfl
  rw [hbehind, ← hlast, append_assoc, singleton_append] at hprefix
  by_cases hinside : behind.dropLast = []
  · rw [hinside] at hprefix
    exact hc hprefix
  · exact h before behind.dropLast htoken hinside hprefix

/-- Whether a separator begins inside the piece is seen within one separator behind it. -/
theorem KeepsOff.append (h : KeepsOff separator piece separator) (rest : List Char) :
    KeepsOff separator piece (separator ++ rest) := by
  intro before behind heq hne hprefix
  apply h before behind heq hne
  apply prefix_of_prefix_length_le hprefix
  · rw [← append_assoc]
    exact prefix_append _ rest
  · rw [length_append]
    omega

theorem KeepsOff.of_append (h : KeepsOff separator piece (separator ++ rest)) :
    KeepsOff separator piece separator := by
  intro before behind heq hne hprefix
  apply h before behind heq hne
  rw [← append_assoc]
  exact hprefix.trans (prefix_append _ rest)

/-- A piece that no separator begins in is passed over as one. -/
theorem splitAt_piece (h : KeepsOff separator piece rest) :
    splitAt separator 0 token (piece ++ rest) =
      splitAt separator 0 (piece.reverse ++ token) rest := by
  induction piece generalizing token with
  | nil => rfl
  | cons c cs ih =>
    have hnot : ¬ separator <+: c :: (cs ++ rest) := h [] (c :: cs) rfl (cons_ne_nil c cs)
    rw [cons_append, splitAt_of_mismatch hnot, ih h.tail, reverse_cons,
      append_assoc, singleton_append]

/-- Pieces that can be told apart are what the split of their join finds. -/
theorem splitAt_intercalate {pieces : List (List Char)} (hne : separator ≠ [])
    (h : Separable separator pieces) :
    splitAt separator 0 [] (separator.intercalate pieces) = pieces := by
  induction pieces with
  | nil => exact h.elim
  | cons piece pieces ih =>
    cases pieces with
    | nil =>
      have hlast : splitAt separator 0 [] (piece ++ []) = _ := splitAt_piece h
      rw [append_nil, append_nil, splitAt, reverse_reverse] at hlast
      rw [intercalate_singleton]
      exact hlast
    | cons next pieces =>
      rw [intercalate_cons_cons, append_assoc, splitAt_piece (h.1.append _),
        splitAt_separator hne, ih h.2, append_nil, reverse_reverse]

theorem splitAt_ne_nil (separator : List Char) (skip : Nat) (token text : List Char) :
    splitAt separator skip token text ≠ [] := by
  induction text generalizing skip token with
  | nil => simp [splitAt]
  | cons c cs ih =>
    cases skip with
    | succ skip => exact ih skip token
    | zero =>
      rw [splitAt]
      split
      · exact cons_ne_nil _ _
      · exact ih 0 (c :: token)

/-- What the split finds can be told apart, and joins to the text. -/
theorem splitAt_spec (hne : separator ≠ []) (token text : List Char)
    (h : KeepsOff separator token.reverse text) :
    separator.intercalate (splitAt separator 0 token text) = token.reverse ++ text ∧
      Separable separator (splitAt separator 0 token text) := by
  induction hn : text.length using Nat.strongRecOn generalizing token text with
  | ind n ih =>
    cases htext : text with
    | nil =>
      rw [htext] at h
      rw [splitAt, intercalate_singleton, append_nil]
      exact ⟨rfl, h⟩
    | cons c cs =>
      by_cases hprefix : separator <+: c :: cs
      · obtain ⟨rest, hrest⟩ := hprefix
        have hlen : rest.length < n := by
          have hpos := length_pos_iff.2 hne
          rw [← hn, htext, ← hrest, length_append]
          omega
        obtain ⟨hjoin, hrestSep⟩ := ih rest.length hlen [] rest
          (fun before behind heq hbehind => by
            rw [reverse_nil, nil_eq, append_eq_nil_iff] at heq
            exact absurd heq.2 hbehind) rfl
        obtain ⟨next, pieces, hpieces⟩ :=
          exists_cons_of_ne_nil (splitAt_ne_nil separator 0 [] rest)
        rw [htext, ← hrest] at h
        rw [← hrest, splitAt_separator hne, hpieces, intercalate_cons_cons, ← hpieces, hjoin]
        refine ⟨by simp, ?_⟩
        rw [hpieces] at hrestSep ⊢
        exact ⟨h.of_append, hrestSep⟩
      · rw [splitAt_of_mismatch hprefix]
        have hlen : cs.length < n := by
          rw [← hn, htext, length_cons]
          omega
        rw [htext] at h
        obtain ⟨hjoin, hsep⟩ := ih cs.length hlen (c :: token) cs (h.snoc hprefix) rfl
        refine ⟨?_, hsep⟩
        rw [hjoin]
        simp

end Ontosyx.Ontology
