import Ontosyx.Cypher.Levels
import Ontosyx.Cypher.Safety
import Ontosyx.Cypher.SetClause

/-!
# Reading patterns by their brackets

The patterns of a `CREATE` or a `MERGE` are nodes and relationships, each a bracket with a
name, labels or a type, and an inline map.  The parser finds the keys of the inline maps
when there is nothing else in the brackets.

## Main results

* `untilStop_flatten` — a scan that stops at top-level lexemes passes over whole brackets.
* `propertyEntries_spec` — the keys of a map.
* `parsePatterns_spec` — the inline keys of the patterns of a clause.
-/

namespace Ontosyx.Cypher

open List Ontosyx.Core List Option Tree Nat Or

/-! ## Scans that stop outside of brackets -/

/-- The lexemes up to the first one at which `stop` says so. -/
def untilStop (stop : Depth → Lexeme → Bool) :
    Depth → List Lexeme → List Lexeme × List Lexeme
  | _, [] => ([], [])
  | d, l :: ls =>
    if stop d l then ([], l :: ls)
    else (l :: (untilStop stop (d.step l) ls).1, (untilStop stop (d.step l) ls).2)

/-- A scan does not stop at or within brackets. -/
structure PassesGroups (stop : Depth → Lexeme → Bool) : Prop where
  leaf : ∀ {d : Depth} {l : Lexeme}, d.Inside → l.kind ≠ .paren → stop d l = false
  opener : ∀ {d : Depth} {opener : Text}, (opener = ['('] ∨ opener = ['['] ∨ opener = ['\x7b']) →
    stop d ⟨.paren, opener⟩ = false
  closer : ∀ {d : Depth} {opener : Text}, d.Counts →
    (opener = ['('] ∨ opener = ['['] ∨ opener = ['\x7b']) →
    stop (d.step ⟨.paren, opener⟩) ⟨.paren, closingText opener⟩ = false

section

variable {stop : Depth → Lexeme → Bool}

theorem untilStop_stop {d : Depth} {l : Lexeme} (h : stop d l = true) (ls : List Lexeme) :
    untilStop stop d (l :: ls) = ([], l :: ls) := by
  exact if_pos h

theorem untilStop_pass {d : Depth} {l : Lexeme} (h : stop d l = false) (ls : List Lexeme) :
    untilStop stop d (l :: ls) =
      (l :: (untilStop stop (d.step l) ls).1, (untilStop stop (d.step l) ls).2) := by
  rw [untilStop, if_neg (by rw [h]; nofun)]

mutual
theorem untilStop_flatten (hstop : PassesGroups stop) {d : Depth} (hd : d.Inside) : (t : Tree) →
    t.Bracketed → (ls : List Lexeme) → untilStop stop d (t.flatten ++ ls) =
      (t.flatten ++ (untilStop stop d ls).1, (untilStop stop d ls).2)
  | .leaf l, ht, ls => by
    simp only [Tree.Bracketed] at ht
    simp only [Tree.flatten, singleton_append]
    rw [untilStop_pass (hstop.leaf hd ht), Depth.step_of_not_paren ht]
  | .group opener children, ht, ls => by
    simp only [Tree.Bracketed] at ht
    simp only [Tree.flatten, cons_append, append_assoc, nil_append]
    rw [untilStop_group hstop ⟨hd.1, hd.2.1, hd.2.2.1⟩ opener children ht.1 ht.2 ls]

theorem untilStop_group (hstop : PassesGroups stop) {d : Depth} (hd : d.Counts) (opener : Text)
    (children : List Tree) (hopener : opener = ['('] ∨ opener = ['['] ∨ opener = ['\x7b'])
    (hchildren : BracketedAll children) (ls : List Lexeme) : untilStop stop d
        (⟨.paren, opener⟩ :: (flattenAll children ++ ⟨.paren, closingText opener⟩ :: ls)) =
      (⟨.paren, opener⟩ :: (flattenAll children ++ ⟨.paren, closingText opener⟩ ::
        (untilStop stop d ls).1), (untilStop stop d ls).2) := by
  have hstep := Depth.inside_step hd hopener
  rw [untilStop_pass (hstop.opener hopener), untilStop_flattenAll hstop hstep.1 children hchildren,
    untilStop_pass (hstop.closer hd hopener), hstep.2]

theorem untilStop_flattenAll (hstop : PassesGroups stop) {d : Depth} (hd : d.Inside) :
    (ts : List Tree) → BracketedAll ts → (ls : List Lexeme) →
    untilStop stop d (flattenAll ts ++ ls) =
      (flattenAll ts ++ (untilStop stop d ls).1, (untilStop stop d ls).2)
  | [], _, ls => by simp only [flattenAll, nil_append]
  | t :: ts, hts, ls => by
    simp only [BracketedAll] at hts
    simp only [flattenAll, append_assoc]
    rw [untilStop_flatten hstop hd t hts.1, untilStop_flattenAll hstop hd ts hts.2]
end

end

theorem isComma_leaf (l : Lexeme) : (leaf l).isComma = l.isComma := by
  rcases l with ⟨kind, text⟩
  show decide ((⟨kind, text⟩ : Lexeme) = ⟨.punctuation, [',']⟩) =
    (kind == .punctuation && text == [','])
  by_cases hkind : kind = .punctuation
  · by_cases htext : text = [',']
    · rw [hkind, htext]
      rfl
    · rw [beq_false_of_ne htext, Bool.and_false, decide_eq_false]
      intro h
      cases h
      exact htext rfl
  · rw [beq_false_of_ne hkind, Bool.false_and, decide_eq_false]
    intro h
    cases h
    exact hkind rfl

/-- Outside of brackets the scan stops at commas, and at what follows the trees. -/
theorem untilStop_top {stop : Depth → Lexeme → Bool} (hstop : PassesGroups stop)
    (hcomma : ∀ l : Lexeme, l.kind ≠ .paren → stop {} l = l.isComma) {ls : List Lexeme}
    (hls : untilStop stop {} ls = ([], ls)) : (ts : List Tree) → BracketedAll ts →
    untilStop stop {} (flattenAll ts ++ ls) =
      (flattenAll (ts.takeWhile fun t => !t.isComma),
        flattenAll (ts.dropWhile fun t => !t.isComma) ++ ls)
  | [], _ => by
    simp only [flattenAll, nil_append, takeWhile_nil, dropWhile_nil]
    exact hls
  | .leaf l :: ts, hts => by
    simp only [BracketedAll, Bracketed] at hts
    rw [flattenAll_leaf, cons_append]
    by_cases hstops : l.isComma = true
    · have hkeep : (!(leaf l).isComma) = false := by
        rw [isComma_leaf, hstops]
        rfl
      rw [untilStop_stop ((hcomma l hts.1).trans hstops), takeWhile_cons, dropWhile_cons, hkeep,
        if_neg Bool.false_ne_true, if_neg Bool.false_ne_true, flattenAll_leaf]
      simp only [flattenAll, cons_append]
    · rw [Bool.not_eq_true] at hstops
      have hkeep : (!(leaf l).isComma) = true := by
        rw [isComma_leaf, hstops]
        rfl
      rw [untilStop_pass ((hcomma l hts.1).trans hstops), Depth.step_of_not_paren hts.1,
        untilStop_top hstop hcomma hls ts hts.2, takeWhile_cons, dropWhile_cons, hkeep,
        if_pos rfl, if_pos rfl, flattenAll_leaf]
  | .group opener children :: ts, hts => by
    simp only [BracketedAll, Bracketed] at hts
    have hkeep : (!(group opener children).isComma) = true := rfl
    rw [flattenAll_group, cons_append, append_assoc, cons_append,
      untilStop_group hstop depth_counts opener children hts.1.1 hts.1.2,
      untilStop_top hstop hcomma hls ts hts.2, takeWhile_cons, dropWhile_cons, hkeep,
      if_pos rfl, if_pos rfl, flattenAll_group]

/-! ## The next token -/

theorem skipTrivia_pass {t : CypherToken} (h : t.isTrivia = true) (ts : List CypherToken) :
    skipTrivia (t :: ts) = skipTrivia ts := by
  unfold skipTrivia
  rw [dropWhile_cons, if_pos h]

theorem skipTrivia_stop {t : CypherToken} (h : ¬ t.isTrivia = true) (ts : List CypherToken) :
    skipTrivia (t :: ts) = t :: ts := by
  unfold skipTrivia
  rw [dropWhile_cons, if_neg h]

theorem lexemesOf_skipTrivia (ts : List CypherToken) :
    lexemesOf (skipTrivia ts) = lexemesOf ts := by
  induction ts with
  | nil => rfl
  | cons t ts ih =>
    by_cases htrivia : t.isTrivia = true
    · rw [skipTrivia_pass htrivia, ih, lexemesOf_cons, if_pos htrivia]
    · rw [skipTrivia_stop htrivia]

theorem skipTrivia_nil {ts : List CypherToken} (h : lexemesOf ts = []) : skipTrivia ts = [] := by
  induction ts with
  | nil => rfl
  | cons t ts ih =>
    rw [lexemesOf_cons] at h
    by_cases htrivia : t.isTrivia = true
    · rw [if_pos htrivia] at h
      rw [skipTrivia_pass htrivia]
      exact ih h
    · rw [if_neg htrivia] at h
      cases h

variable {ls : List Lexeme} {l : Lexeme}

/-- The next token that is not trivia carries the next lexeme. -/
theorem skipTrivia_cons {ts : List CypherToken} (h : lexemesOf ts = l :: ls) :
    ∃ t rest, skipTrivia ts = t :: rest ∧ t.toLexeme = l ∧ lexemesOf rest = ls := by
  induction ts with
  | nil => cases h
  | cons t ts ih =>
    rw [lexemesOf_cons] at h
    by_cases htrivia : t.isTrivia = true
    · rw [if_pos htrivia] at h
      rw [skipTrivia_pass htrivia]
      exact ih h
    · rw [if_neg htrivia] at h
      exact ⟨t, ts, skipTrivia_stop htrivia ts, (cons.inj h).1, (cons.inj h).2⟩

theorem length_lexemesOf_le (ts : List CypherToken) : (lexemesOf ts).length ≤ ts.length := by
  unfold lexemesOf significant
  rw [length_map]
  exact length_filter_le _ _

theorem length_le_lexemes (ts : List Tree) : ts.length ≤ (flattenAll ts).length := by
  induction ts with
  | nil => exact zero_le _
  | cons t ts ih =>
    have hone : 1 ≤ t.flatten.length := by
      cases t with
      | leaf l => simp only [Tree.flatten, length_singleton, le_refl]
      | group opener children =>
        simp only [Tree.flatten, length_cons]
        omega
    simp only [flattenAll, length_append, length_cons]
    omega

/-- Trees whose lexemes are among those of the tokens are no more than the tokens. -/
theorem length_lt_of_infix (h : flattenAll ts <:+: lexemesOf tokens) :
    ts.length < tokens.length + 1 := by
  have hle := length_le_lexemes ts
  have hle' := length_lexemesOf_le tokens
  have hinfix := h.length_le
  omega

theorem not_punctuation_of_isTrivia (h : l.isTrivia = true) : l.kind ≠ .punctuation := by
  intro hkind
  unfold Lexeme.isTrivia at h
  rw [hkind] at h
  cases h

/-- A scan of tokens that never stops at trivia is the scan of their lexemes. -/
theorem lexemesOf_scan (scan : Depth → List CypherToken → List CypherToken × List CypherToken)
    (stop : Depth → Lexeme → Bool) (hnil : ∀ d, scan d [] = ([], []))
    (hcons : ∀ d t ts, scan d (t :: ts) = if stop d t.toLexeme then ([], t :: ts)
      else (t :: (scan (d.step t.toLexeme) ts).1, (scan (d.step t.toLexeme) ts).2))
    (htrivia : ∀ d l, l.isTrivia = true → stop d l = false) (d : Depth) (ts : List CypherToken) :
    untilStop stop d (lexemesOf ts) = (lexemesOf (scan d ts).1, lexemesOf (scan d ts).2) := by
  induction ts generalizing d with
  | nil =>
    rw [hnil]
    rfl
  | cons t ts ih =>
    rw [hcons]
    by_cases ht : t.isTrivia = true
    · rw [htrivia d _ ht, if_neg Bool.false_ne_true, lexemesOf_cons, if_pos ht, ih d,
        Depth.step_of_not_paren (kind_of_isTrivia ht)]
      rw [lexemesOf_cons, if_pos ht]
    · have hlexemes : lexemesOf (t :: ts) = t.toLexeme :: lexemesOf ts := by
        rw [lexemesOf_cons, if_neg ht]
      rw [hlexemes]
      by_cases hstop : stop d t.toLexeme = true
      · rw [untilStop_stop hstop, if_pos hstop, hlexemes, lexemesOf_nil]
      · rw [untilStop_pass (Bool.not_eq_true _ ▸ hstop), if_neg hstop, ih, lexemesOf_cons,
          if_neg ht]

/-! ## Inline maps -/

def endsValue (d : Depth) (l : Lexeme) : Bool :=
  (l.isParen '\x7d' && d.brace == 0) || (l.isComma && d.atTop)

theorem isSymbol_of_kind {kind : TokenKind} (h : l.kind ≠ kind) (c : Char) :
    l.isSymbol kind c = false := by
  unfold Lexeme.isSymbol
  rw [beq_false_of_ne h, Bool.false_and]

theorem isComma_of_kind (h : l.kind ≠ .punctuation) : l.isComma = false :=
  isSymbol_of_kind h ','

theorem isParen_of_kind (h : l.kind ≠ .paren) (c : Char) : l.isParen c = false :=
  isSymbol_of_kind h c

theorem isOperator_of_kind (h : l.kind ≠ .operator) (c : Char) : l.isOperator c = false :=
  isSymbol_of_kind h c

theorem isOperator_of_paren (h : l.kind = .paren) (c : Char) : l.isOperator c = false :=
  isOperator_of_kind (fun hkind => TokenKind.noConfusion (h.symm.trans hkind)) c

theorem passesGroups_endsValue : PassesGroups endsValue where
  leaf := by
    intro d l hd hl
    unfold endsValue
    rw [isParen_of_kind hl, hd.2.2.2, Bool.false_and, Bool.and_false, Bool.or_false]
  opener := by
    intro d opener hopener
    unfold endsValue
    rw [isComma_of_kind TokenKind.noConfusion]
    rcases hopener with rfl | rfl | rfl
    · rfl
    · rfl
    · rfl
  closer := by
    intro d opener hd hopener
    unfold endsValue
    rw [isComma_of_kind TokenKind.noConfusion]
    rcases hopener with rfl | rfl | rfl
    · rfl
    · rfl
    · have hbrace : ((d.step ⟨.paren, ['\x7b']⟩).brace == 0) = false := by
        show (d.brace + 1 == 0) = false
        rw [beq_eq_false_iff_ne]
        have hcount := hd.2.2
        omega
      rw [hbrace, Bool.and_false, Bool.false_and, Bool.or_false]

theorem lexemesOf_propertyValue (d : Depth) (ts : List CypherToken) :
    untilStop endsValue d (lexemesOf ts) =
      (lexemesOf (propertyValue d ts).1, lexemesOf (propertyValue d ts).2) := by
  refine lexemesOf_scan propertyValue endsValue (fun _ => rfl) (fun _ _ _ => rfl) ?_ d ts
  intro d l hl
  unfold endsValue
  rw [isParen_of_kind (kind_of_isTrivia hl), isComma_of_kind (not_punctuation_of_isTrivia hl)]
  rfl

/-- The keys of a map, within the value of an entry or not. -/
def mapKeys : Bool → List Tree → Option (List Text)
  | _, [] => some []
  | true, t :: ts => mapKeys (!t.isComma) ts
  | false, .leaf k :: .leaf c :: ts =>
    if k.isName && c.isOperator ':' then (mapKeys true ts).map (k.text :: ·) else none
  | false, _ => none

theorem mapKeys_value (ts : List Tree) :
    mapKeys true ts = mapKeys false ((ts.dropWhile fun t => !t.isComma).drop 1) := by
  induction ts with
  | nil => rfl
  | cons t ts ih =>
    have hstep : mapKeys true (t :: ts) = mapKeys (!t.isComma) ts := by
      simp only [mapKeys]
    rw [hstep, dropWhile_cons]
    by_cases hcomma : t.isComma = true
    · rw [hcomma, Bool.not_true, if_neg Bool.false_ne_true, drop_one, tail_cons]
    · rw [Bool.not_eq_true] at hcomma
      rw [hcomma, Bool.not_false, if_pos rfl]
      exact ih

variable {ts : List Tree}

theorem bracketedAll_dropWhile {p : Tree → Bool} (h : BracketedAll ts) :
    BracketedAll (ts.dropWhile p) := by
  rw [← takeWhile_append_dropWhile (p := p) (l := ts), bracketedAll_append] at h
  exact h.2

theorem bracketedAll_drop_one (h : BracketedAll ts) : BracketedAll (ts.drop 1) := by
  cases ts with
  | nil => exact h
  | cons t ts =>
    simp only [BracketedAll] at h
    exact h.2

theorem isName_not_paren (h : l.isName = true) : l.kind ≠ .paren := by
  intro hparen
  unfold Lexeme.isName at h
  rw [hparen] at h
  cases h

theorem isComma_of_dropWhile {t : Tree} {us : List Tree}
    (h : (ts.dropWhile fun t => !t.isComma) = t :: us) : ∃ l, t = .leaf l ∧ l.isComma = true := by
  have hhead := head?_dropWhile_not (fun t : Tree => !t.isComma) ts
  rw [h, head?_cons] at hhead
  have hcomma : t.isComma = true := by simpa using hhead
  cases t with
  | leaf l => exact ⟨l, rfl, (isComma_leaf l).symm.trans hcomma⟩
  | group opener children => cases hcomma

/-- What comes after the value of an entry, without a comma. -/
theorem afterValue_spec {cs : List CypherToken} {ts : List Tree} {ls : List Lexeme}
    (hts : BracketedAll ts) (hcs : lexemesOf cs = flattenAll ts ++ ⟨.paren, ['\x7d']⟩ :: ls) :
    lexemesOf (match skipTrivia (propertyValue {} cs).2 with
      | [] => []
      | r :: rs => if r.isComma then rs else r :: rs) =
      flattenAll ((ts.dropWhile fun t => !t.isComma).drop 1) ++ ⟨.paren, ['\x7d']⟩ :: ls := by
  have hstop : untilStop endsValue {} ((⟨.paren, ['\x7d']⟩ : Lexeme) :: ls) =
      ([], ⟨.paren, ['\x7d']⟩ :: ls) := untilStop_stop rfl ls
  have hcomma : ∀ l : Lexeme, l.kind ≠ .paren → endsValue {} l = l.isComma := by
    intro l hl
    unfold endsValue
    rw [isParen_of_kind hl, Bool.false_and, Bool.false_or]
    exact Bool.and_true _
  have hvalue := lexemesOf_propertyValue {} cs
  rw [hcs, untilStop_top passesGroups_endsValue hcomma hstop ts hts] at hvalue
  have hrest := (Prod.mk.inj hvalue).2.symm
  cases hdrop : ts.dropWhile fun t => !t.isComma with
  | nil =>
    rw [hdrop] at hrest
    simp only [flattenAll, nil_append] at hrest
    rcases skipTrivia_cons hrest with ⟨r, rs, hskip, hr, hrs⟩
    have hnot : r.isComma = false := by
      rw [hr]
      rfl
    rw [hskip]
    dsimp only
    rw [hnot, if_neg Bool.false_ne_true, ← hskip, lexemesOf_skipTrivia, hrest]
    rfl
  | cons t us =>
    rcases isComma_of_dropWhile hdrop with ⟨l, rfl, hl⟩
    rw [hdrop, flattenAll_leaf, cons_append] at hrest
    rcases skipTrivia_cons hrest with ⟨r, rs, hskip, hr, hrs⟩
    rw [hskip]
    dsimp only
    rw [hr, hl, if_pos rfl, hrs]
    rfl

variable {fuel : Nat}

theorem propertyEntries_spec : ∀ {tokens : List CypherToken} {ts : List Tree}
    {ls : List Lexeme} {keys : List Text}, ts.length < fuel → BracketedAll ts →
    lexemesOf tokens = flattenAll ts ++ ⟨.paren, ['\x7d']⟩ :: ls → mapKeys false ts = some keys →
    ∃ entries rest, propertyEntries fuel tokens = some (entries, rest) ∧
      entries.map (·.1) = keys.map stripBackticks ∧ lexemesOf rest = ls := by
  induction fuel with
  | zero =>
    intro tokens ts ls keys hlength
    exact absurd hlength (not_lt_zero _)
  | succ fuel ih =>
    intro tokens ts ls keys hlength hts hlexemes hkeys
    rcases ts with _ | ⟨t, ts⟩
    · simp only [flattenAll, nil_append] at hlexemes
      cases hkeys
      rcases skipTrivia_cons hlexemes with ⟨close, rest, hskip, hclose, hrest⟩
      have hparen : close.isParen '\x7d' = true := by
        rw [hclose]
        rfl
      refine ⟨[], rest, ?_, rfl, hrest⟩
      unfold propertyEntries
      rw [hskip]
      dsimp only
      rw [hparen, if_pos rfl]
    · rcases t with k | ⟨opener, children⟩
      · rcases ts with _ | ⟨u, ts⟩
        · simp only [mapKeys] at hkeys
          cases hkeys
        · rcases u with c | ⟨opener, children⟩
          · simp only [mapKeys] at hkeys
            by_cases hentry : (k.isName && c.isOperator ':') = true
            · rw [if_pos hentry] at hkeys
              rcases map_eq_some_iff.1 hkeys with ⟨others, hothers, rfl⟩
              rw [Bool.and_eq_true] at hentry
              rw [mapKeys_value] at hothers
              simp only [BracketedAll] at hts
              rw [flattenAll_leaf, flattenAll_leaf, cons_append, cons_append] at hlexemes
              rcases skipTrivia_cons hlexemes with ⟨key, afterKey, hskip, hkey, hafterKey⟩
              rcases skipTrivia_cons hafterKey with ⟨colon, cs, hskip', hcolon, hcs⟩
              have hshort : ((ts.dropWhile fun t => !t.isComma).drop 1).length < fuel := by
                have hsuffix : (ts.dropWhile fun t => !t.isComma) <:+ ts :=
                  dropWhile_suffix _
                have hle := hsuffix.length_le
                rw [length_cons, length_cons] at hlength
                rw [length_drop]
                omega
              rcases ih hshort (bracketedAll_drop_one (bracketedAll_dropWhile hts.2.2))
                (afterValue_spec hts.2.2 hcs) hothers with ⟨entries, rest, hentries, hmap, hrest⟩
              refine ⟨(stripBackticks k.text,
                trimChars ((propertyValue {} cs).1.flatMap (·.text))) :: entries, rest, ?_, ?_,
                hrest⟩
              · have hnot : key.isParen '\x7d' = false := by
                  rw [hkey]
                  exact isParen_of_kind (isName_not_paren hentry.1) _
                unfold propertyEntries
                rw [hskip]
                dsimp only
                rw [hnot, if_neg Bool.false_ne_true, hkey, hentry.1, if_pos rfl, hskip']
                dsimp only
                rw [hcolon, hentry.2, if_pos rfl]
                exact bind_eq_some_iff.2 ⟨(entries, rest), hentries, rfl⟩
              · rw [map_cons, map_cons, hmap]
            · rw [if_neg hentry] at hkeys
              cases hkeys
          · simp only [mapKeys] at hkeys
            cases hkeys
      · simp only [mapKeys] at hkeys
        cases hkeys

/-! ## Nodes and relationships -/

def dropName : List Lexeme → List Lexeme
  | l :: ls => if l.isName then ls else l :: ls
  | [] => []

theorem lexemesOf_optionalName (ts : List CypherToken) :
    lexemesOf (optionalName ts).2 = dropName (lexemesOf ts) := by
  unfold optionalName
  cases hlexemes : lexemesOf ts with
  | nil =>
    rw [skipTrivia_nil hlexemes]
    rfl
  | cons l ls =>
    rcases skipTrivia_cons hlexemes with ⟨t, rest, hskip, ht, hrest⟩
    rw [hskip]
    dsimp only
    rw [ht]
    show _ = if l.isName then ls else l :: ls
    by_cases hname : l.isName = true
    · rw [if_pos hname, if_pos hname, hrest]
    · rw [if_neg hname, if_neg hname, ← hskip, lexemesOf_skipTrivia, hlexemes]

def afterName : List Tree → List Tree
  | .leaf l :: ts => if l.isName then ts else .leaf l :: ts
  | ts => ts

def frontName : List Tree → Option Text
  | .leaf l :: _ => if l.isName then some (stripBackticks l.text) else none
  | _ => none

variable {tokens : List CypherToken}

theorem optionalName_fst (ts : List Tree) (hl : l.kind = .paren)
    (h : lexemesOf tokens = flattenAll ts ++ l :: ls) : (optionalName tokens).1 = frontName ts := by
  have hparen : ∀ {m : Lexeme} {ms : List Lexeme}, m.kind = .paren → lexemesOf tokens = m :: ms →
      (optionalName tokens).1 = none := by
    intro m ms hm hms
    rcases skipTrivia_cons hms with ⟨t, rest, hskip, ht, -⟩
    unfold optionalName
    rw [hskip]
    dsimp only
    rw [ht, if_neg fun hname => isName_not_paren hname hm]
  rcases ts with _ | ⟨m | ⟨opener, children⟩, ts⟩
  · exact hparen hl h
  · rw [flattenAll_leaf, cons_append] at h
    rcases skipTrivia_cons h with ⟨t, rest, hskip, ht, -⟩
    unfold optionalName frontName
    rw [hskip]
    dsimp only
    rw [ht]
    by_cases hname : m.isName = true
    · rw [if_pos hname, if_pos hname]
    · rw [if_neg hname, if_neg hname]
  · rw [flattenAll_group, cons_append] at h
    exact hparen rfl h

theorem dropName_flattenAll (ts : List Tree) (hl : l.kind = .paren) (ls : List Lexeme) :
    dropName (flattenAll ts ++ l :: ls) = flattenAll (afterName ts) ++ l :: ls := by
  have hparen : ∀ (m : Lexeme) (ms : List Lexeme), m.kind = .paren →
      dropName (m :: ms) = m :: ms := by
    intro m ms hm
    refine if_neg ?_
    intro hname
    exact isName_not_paren hname hm
  rcases ts with _ | ⟨m | ⟨opener, children⟩, ts⟩
  · exact hparen l ls hl
  · rw [flattenAll_leaf, cons_append]
    unfold afterName dropName
    dsimp only
    by_cases hname : m.isName = true
    · rw [if_pos hname, if_pos hname]
    · rw [if_neg hname, if_neg hname, flattenAll_leaf, cons_append]
  · rw [flattenAll_group, cons_append]
    exact (hparen _ _ rfl).trans (by unfold afterName; rw [flattenAll_group, cons_append])

/-- The keys of the inline map, if the trees are one or nothing. -/
def inlineMap : List Tree → Option (List Text)
  | [] => some []
  | [.group opener children] => if opener = ['\x7b'] then mapKeys false children else none
  | _ => none

def labelKeys : List Tree → Option (List Text)
  | .leaf c :: .leaf l :: ts => if c.isOperator ':' && l.isName then labelKeys ts else none
  | ts => inlineMap ts

def labelNames : List Tree → List Text
  | .leaf c :: .leaf l :: ts =>
    if c.isOperator ':' && l.isName then stripBackticks l.text :: labelNames ts else []
  | _ => []

/-- What a node binds: its variable, with its labels. -/
def nodeBinding (ts : List Tree) : Option Text × List Text :=
  (frontName ts, labelNames (afterName ts))

/-- The keys of the inline map of a node. -/
def nodeKeys (ts : List Tree) : Option (List Text) := labelKeys (afterName ts)

def typeKeys : List Tree → Option (List Text)
  | .leaf c :: .leaf l :: ts => if c.isOperator ':' && l.isName then inlineMap ts else none
  | ts => inlineMap ts

/-- The keys of the inline map of a relationship. -/
def relationshipKeys (ts : List Tree) : Option (List Text) := typeKeys (afterName ts)

variable {keys : List Text}

/-- An inline map, and the closing bracket behind it. -/
theorem optionalMap_spec (hts : BracketedAll ts) (hl : l.isParen '\x7b' = false)
    (htokens : lexemesOf tokens = flattenAll ts ++ l :: ls) (hkeys : inlineMap ts = some keys) :
    ∃ entries rest, optionalMap (skipTrivia tokens) = some (entries, rest) ∧
      entries.map (·.1) = keys.map stripBackticks ∧ lexemesOf rest = l :: ls := by
  rcases ts with _ | ⟨t, _ | ⟨u, ts⟩⟩
  · cases hkeys
    simp only [flattenAll, nil_append] at htokens
    rcases skipTrivia_cons htokens with ⟨t, rest, hskip, ht, hrest⟩
    refine ⟨[], skipTrivia tokens, ?_, rfl, ?_⟩
    · rw [hskip]
      unfold optionalMap
      dsimp only
      rw [ht, hl, if_neg Bool.false_ne_true]
    · rw [lexemesOf_skipTrivia, htokens]
  · rcases t with m | ⟨opener, children⟩
    · cases hkeys
    · simp only [inlineMap] at hkeys
      by_cases hopener : opener = ['\x7b']
      · subst hopener
        simp only [BracketedAll, Bracketed] at hts
        rw [if_pos rfl] at hkeys
        rw [flattenAll_group, cons_append, append_assoc, cons_append] at htokens
        simp only [flattenAll, nil_append] at htokens
        rcases skipTrivia_cons htokens with ⟨t, rest, hskip, ht, hrest⟩
        have hlength := length_lt_of_infix ⟨[], _, hrest.symm⟩
        rcases propertyEntries_spec hlength hts.1.2 hrest hkeys with
          ⟨entries, after, hentries, hmap, hafter⟩
        refine ⟨entries, after, ?_, hmap, hafter⟩
        rw [hskip]
        unfold optionalMap
        dsimp only
        have hparen : t.isParen '\x7b' = true := by
          rw [ht]
          rfl
        rw [hparen, if_pos rfl]
        exact hentries
      · rw [if_neg hopener] at hkeys
        cases hkeys
  · cases t <;> cases hkeys

/-- An inline map, or the bracket behind it, starts with a bracket. -/
theorem paren_of_inlineMap (h : inlineMap ts = some keys) (hl : l.kind = .paren)
    (ls : List Lexeme) : ∃ m ms, flattenAll ts ++ l :: ls = m :: ms ∧ m.kind = .paren := by
  rcases ts with _ | ⟨m | ⟨opener, children⟩, _ | ⟨u, ts⟩⟩
  · exact ⟨l, ls, by simp only [flattenAll, nil_append], hl⟩
  · cases h
  · cases h
  · exact ⟨⟨.paren, opener⟩, _, by rw [flattenAll_group, cons_append], rfl⟩
  · cases h

theorem skipGroup_spec {opener closer : Char} (hne : opener ≠ closer)
    (h : lexemesOf tokens = ⟨.paren, [closer]⟩ :: ls) :
    lexemesOf (skipGroup opener closer 1 tokens) = ls := by
  induction tokens with
  | nil => cases h
  | cons t ts ih =>
    rw [lexemesOf_cons] at h
    unfold skipGroup
    by_cases htrivia : t.isTrivia = true
    · rw [if_pos htrivia] at h
      have hparen := isParen_of_kind (kind_of_isTrivia htrivia)
      rw [hparen, hparen, if_neg Bool.false_ne_true, if_neg Bool.false_ne_true]
      exact ih h
    · rw [if_neg htrivia] at h
      have ht := (cons.inj h).1
      have hopen : t.isParen opener = false := by
        rw [ht]
        show (true && ([closer] == [opener])) = false
        rw [Bool.true_and, beq_eq_false_iff_ne]
        intro heq
        exact hne (cons.inj heq).1.symm
      have hclose : t.isParen closer = true := by
        rw [ht]
        show (true && ([closer] == [closer])) = true
        rw [Bool.true_and, beq_self_eq_true]
      rw [hopen, hclose, if_neg Bool.false_ne_true, if_pos rfl, if_pos (le_refl 1)]
      exact (cons.inj h).2

/-- The labels end where no colon follows. -/
theorem nodeLabels_stop {m : Lexeme} {ms : List Lexeme} (h : lexemesOf tokens = m :: ms)
    (hm : m.isOperator ':' = false) (fuel : Nat) : (nodeLabels (fuel + 1) tokens).1 = [] ∧
      lexemesOf (nodeLabels (fuel + 1) tokens).2 = m :: ms := by
  rcases skipTrivia_cons h with ⟨t, rest, hskip, ht, hrest⟩
  unfold nodeLabels
  rw [hskip]
  dsimp only
  rw [ht, hm, if_neg Bool.false_ne_true, ← hskip, lexemesOf_skipTrivia, h]
  exact ⟨rfl, rfl⟩

theorem labelNames_of_inlineMap (h : inlineMap ts = some keys) : labelNames ts = [] := by
  rcases ts with _ | ⟨t, _ | ⟨u, ts⟩⟩
  · rfl
  · cases t <;> rfl
  · cases t <;> cases h

theorem nodeLabels_spec : ∀ {tokens : List CypherToken} {ts : List Tree} {l : Lexeme}
    {ls : List Lexeme} {keys : List Text}, ts.length < fuel → BracketedAll ts →
    l.kind = .paren → lexemesOf tokens = flattenAll ts ++ l :: ls → labelKeys ts = some keys →
    (nodeLabels fuel tokens).1 = labelNames ts ∧
      ∃ us, lexemesOf (nodeLabels fuel tokens).2 = flattenAll us ++ l :: ls ∧ BracketedAll us ∧
        inlineMap us = some keys := by
  induction fuel with
  | zero =>
    intro tokens ts l ls keys hlength
    exact absurd hlength (not_lt_zero _)
  | succ fuel ih =>
    intro tokens ts l ls keys hlength hts hl htokens hkeys
    have hend : inlineMap ts = some keys →
        (nodeLabels (fuel + 1) tokens).1 = labelNames ts ∧ ∃ us,
          lexemesOf (nodeLabels (fuel + 1) tokens).2 = flattenAll us ++ l :: ls ∧
            BracketedAll us ∧ inlineMap us = some keys := by
      intro hmap
      rcases paren_of_inlineMap hmap hl ls with ⟨m, ms, hms, hm⟩
      rw [hms] at htokens
      rcases nodeLabels_stop htokens (isOperator_of_paren hm _) fuel with ⟨hlabels, hrest⟩
      rw [hlabels, labelNames_of_inlineMap hmap]
      refine ⟨rfl, ts, ?_, hts, hmap⟩
      rw [hrest, hms]
    rcases ts with _ | ⟨c | ⟨opener, children⟩, _ | ⟨m | ⟨opener', children'⟩, ts⟩⟩
    · exact hend hkeys
    · exact hend hkeys
    · simp only [labelKeys] at hkeys
      by_cases hlabel : (c.isOperator ':' && m.isName) = true
      · rw [if_pos hlabel] at hkeys
        rw [Bool.and_eq_true] at hlabel
        simp only [BracketedAll] at hts
        rw [flattenAll_leaf, flattenAll_leaf, cons_append, cons_append] at htokens
        rcases skipTrivia_cons htokens with ⟨colon, cs, hskip, hcolon, hcs⟩
        have hname := lexemesOf_optionalName cs
        rw [hcs] at hname
        have hdrop : dropName (m :: (flattenAll ts ++ l :: ls)) = flattenAll ts ++ l :: ls :=
          if_pos hlabel.2
        rw [hdrop] at hname
        have hlabelName : (optionalName cs).1 = some (stripBackticks m.text) := by
          rw [← cons_append, ← flattenAll_leaf] at hcs
          rw [optionalName_fst _ hl hcs]
          exact if_pos hlabel.2
        have hshort : ts.length < fuel := by
          rw [length_cons, length_cons] at hlength
          omega
        rcases ih hshort hts.2.2 hl hname hkeys with ⟨hlabels, us, hus, hbracketed, hmap⟩
        have hrun : nodeLabels (fuel + 1) tokens =
            ((optionalName cs).1.toList ++ (nodeLabels fuel (optionalName cs).2).1,
              (nodeLabels fuel (optionalName cs).2).2) := by
          conv => lhs; unfold nodeLabels
          rw [hskip]
          dsimp only
          rw [hcolon, hlabel.1, if_pos rfl]
        rw [hrun]
        refine ⟨?_, us, hus, hbracketed, hmap⟩
        have hlabelNames : labelNames (.leaf c :: .leaf m :: ts) =
            stripBackticks m.text :: labelNames ts :=
          if_pos (by rw [hlabel.1, hlabel.2]; rfl)
        rw [hlabels, hlabelName, hlabelNames]
        rfl
      · rw [if_neg hlabel] at hkeys
        cases hkeys
    · exact hend hkeys
    · exact hend hkeys
    · exact hend hkeys
    · exact hend hkeys

theorem bracketedAll_afterName (h : BracketedAll ts) : BracketedAll (afterName ts) := by
  rcases ts with _ | ⟨m | ⟨opener, children⟩, ts⟩
  · exact h
  · unfold afterName
    dsimp only
    split
    · simp only [BracketedAll] at h
      exact h.2
    · exact h
  · exact h

/-- A node whose brackets hold a name, labels and an inline map at most. -/
theorem parseNodePattern_spec (opener : CypherToken) {body : List CypherToken}
    (hts : BracketedAll ts) (hbody : lexemesOf body = flattenAll ts ++ ⟨.paren, [')']⟩  :: ls)
    (hkeys : nodeKeys ts = some keys) :
    ∃ node rest, parseNodePattern (opener :: body) = some (node, rest) ∧
      node.properties.map (·.1) = keys.map stripBackticks ∧
      (node.variableName, node.labels) = nodeBinding ts ∧ lexemesOf rest = ls := by
  have hname := lexemesOf_optionalName body
  rw [hbody, dropName_flattenAll ts rfl] at hname
  have hlength := length_lt_of_infix ⟨[], _, hname.symm⟩
  rcases nodeLabels_spec hlength (bracketedAll_afterName hts) rfl hname hkeys with
    ⟨hlabels, us, hus, hbracketed, hmap⟩
  rcases optionalMap_spec hbracketed rfl hus hmap with ⟨entries, rest, hentries, hproperties, hrest⟩
  refine ⟨_, skipGroup '(' ')' 1 rest, bind_eq_some_iff.2 ⟨(entries, rest), hentries, rfl⟩,
    hproperties, ?_, ?_⟩
  · unfold nodeBinding
    rw [← optionalName_fst ts rfl hbody, ← hlabels]
    rfl
  · exact skipGroup_spec (by decide) hrest

/-- A single type, and what comes after it. -/
theorem relationshipTypes_spec {name m : Lexeme} {ms : List Lexeme} (hname : name.isName = true)
    (hm : m.kind = .paren) (h : lexemesOf tokens = name :: m :: ms) (fuel : Nat) :
    lexemesOf (relationshipTypes (fuel + 1) tokens).2 = m :: ms := by
  have hrest := lexemesOf_optionalName tokens
  rw [h] at hrest
  have hdrop : dropName (name :: m :: ms) = m :: ms := if_pos hname
  rw [hdrop] at hrest
  rcases skipTrivia_cons hrest with ⟨t, rest, hskip, ht, -⟩
  unfold relationshipTypes
  dsimp only
  rw [hskip]
  dsimp only
  rw [ht, isOperator_of_paren hm, if_neg Bool.false_ne_true, ← hskip, lexemesOf_skipTrivia, hrest]

/-- The types of a relationship, behind its name. -/
def typesBehind (ts : List CypherToken) : List Text × List CypherToken :=
  match skipTrivia ts with
  | c :: cs => if c.isOperator ':' then relationshipTypes (cs.length + 1) cs else ([], c :: cs)
  | [] => ([], [])

def boundsBehind (ts : List CypherToken) :
    Option (Option Nat × Option Nat) × List CypherToken :=
  match skipTrivia ts with
  | c :: cs =>
    if c.isOperator '*' then (some (lengthBounds cs).1, (lengthBounds cs).2) else (none, c :: cs)
  | [] => (none, [])

/-- What stands between the brackets of a relationship: a name, a type and an inline map at
most. -/
theorem relationshipSpec_spec {r : RelationshipPattern} (hts : BracketedAll ts)
    (htokens : lexemesOf tokens = flattenAll ts ++ ⟨.paren, [']']⟩  :: ls)
    (hkeys : relationshipKeys ts = some keys) :
    ∃ r' rest, relationshipSpec r tokens = some (r', rest) ∧
      r'.properties.map (·.1) = keys.map stripBackticks ∧ lexemesOf rest = ls := by
  have hname := lexemesOf_optionalName tokens
  rw [htokens, dropName_flattenAll ts rfl] at hname
  have hbracketed := bracketedAll_afterName hts
  unfold relationshipKeys at hkeys
  generalize afterName ts = us at hname hbracketed hkeys
  generalize htypes : typesBehind (optionalName tokens).2 = types
  unfold typesBehind at htypes
  -- behind the type comes an inline map or the closing bracket
  have hafter : ∃ vs, lexemesOf types.2 = flattenAll vs ++ ⟨.paren, [']']⟩ :: ls ∧
      BracketedAll vs ∧ inlineMap vs = some keys := by
    have hend : inlineMap us = some keys → ∃ vs,
        lexemesOf types.2 = flattenAll vs ++ ⟨.paren, [']']⟩ :: ls ∧ BracketedAll vs ∧
          inlineMap vs = some keys := by
      intro hmap
      rcases paren_of_inlineMap hmap (l := ⟨.paren, [']']⟩) rfl ls with ⟨m, ms, hms, hm⟩
      refine ⟨us, ?_, hbracketed, hmap⟩
      rw [hms] at hname ⊢
      rcases skipTrivia_cons hname with ⟨t, rest, hskip, ht, -⟩
      rw [hskip] at htypes
      dsimp only at htypes
      rw [ht, isOperator_of_paren hm, if_neg Bool.false_ne_true] at htypes
      rw [← htypes, ← hskip]
      exact (lexemesOf_skipTrivia _).trans hname
    rcases us with _ | ⟨c | ⟨opener, children⟩, _ | ⟨m | ⟨opener', children'⟩, us⟩⟩
    · exact hend hkeys
    · exact hend hkeys
    · simp only [typeKeys] at hkeys
      by_cases htype : (c.isOperator ':' && m.isName) = true
      · rw [if_pos htype] at hkeys
        rw [Bool.and_eq_true] at htype
        simp only [BracketedAll] at hbracketed
        refine ⟨us, ?_, hbracketed.2.2, hkeys⟩
        rcases paren_of_inlineMap hkeys (l := ⟨.paren, [']']⟩) rfl ls with ⟨n, ns, hns, hn⟩
        rw [flattenAll_leaf, flattenAll_leaf, cons_append, cons_append, hns] at hname
        rcases skipTrivia_cons hname with ⟨colon, cs, hskip, hcolon, hcs⟩
        rw [hskip] at htypes
        dsimp only at htypes
        rw [hcolon, htype.1, if_pos rfl] at htypes
        rw [← htypes, hns]
        exact relationshipTypes_spec htype.2 hn hcs _
      · rw [if_neg htype] at hkeys
        cases hkeys
    · exact hend hkeys
    · exact hend hkeys
    · exact hend hkeys
    · exact hend hkeys
  rcases hafter with ⟨vs, hvs, hvbracketed, hmap⟩
  rcases paren_of_inlineMap hmap (l := ⟨.paren, [']']⟩) rfl ls with ⟨m, ms, hms, hm⟩
  generalize hlength : boundsBehind types.2 = varLength
  unfold boundsBehind at hlength
  have hvar : lexemesOf varLength.2 = flattenAll vs ++ ⟨.paren, [']']⟩ :: ls := by
    rw [hms] at hvs ⊢
    rcases skipTrivia_cons hvs with ⟨t, rest, hskip, ht, -⟩
    rw [hskip] at hlength
    dsimp only at hlength
    rw [ht, isOperator_of_paren hm, if_neg Bool.false_ne_true] at hlength
    rw [← hlength, ← hskip]
    exact (lexemesOf_skipTrivia _).trans hvs
  rcases optionalMap_spec hvbracketed rfl hvar hmap with
    ⟨entries, rest, hentries, hproperties, hrest⟩
  refine ⟨{ r with
    variableName := (optionalName tokens).1
    types := types.1
    varLength := varLength.1
    properties := entries }, skipGroup '[' ']' 1 rest, ?_, hproperties,
    skipGroup_spec (by decide) hrest⟩
  rw [← hlength, ← htypes] at hentries ⊢
  exact bind_eq_some_iff.2 ⟨(entries, rest), hentries, rfl⟩

/-- The dash or arrow on the left of a relationship. -/
def Lexeme.isLeftEnd (l : Lexeme) : Bool := l.isOperator '-' || l.isArrow "<-"

def Lexeme.isRightEnd (l : Lexeme) : Bool := l.isOperator '-' || l.isArrow "->"

theorem parseRelationship_spec (left : CypherToken) {body : List CypherToken}
    {right : Lexeme} (hts : BracketedAll ts) (hright : right.isRightEnd = true)
    (hbody : lexemesOf body = ⟨.paren, ['[']⟩ :: (flattenAll ts ++ ⟨.paren, [']']⟩ :: right :: ls))
    (hkeys : relationshipKeys ts = some keys) :
    ∃ r rest, parseRelationshipPattern (left :: body) = some (r, rest) ∧
      r.properties.map (·.1) = keys.map stripBackticks ∧ lexemesOf rest = ls := by
  rcases skipTrivia_cons hbody with ⟨t, inner, hskip, ht, hinner⟩
  have hparen : t.isParen '[' = true := by
    rw [ht]
    rfl
  rcases relationshipSpec_spec (r := {}) hts hinner hkeys with
    ⟨r, after, hspec, hproperties, hafter⟩
  rcases skipTrivia_cons hafter with ⟨u, rest, hskip', hu, hrest⟩
  have hend : (u.isArrow "->" || u.isOperator '-') = true := by
    rw [hu, Bool.or_comm]
    exact hright
  unfold parseRelationshipPattern
  dsimp only
  rw [hskip]
  dsimp only
  rw [hparen, if_pos rfl, hspec]
  refine ⟨_, _, rfl, hproperties, ?_⟩
  rw [hskip']
  dsimp only
  rw [Bool.or_eq_true] at hend
  by_cases harrow : u.isArrow "->" = true
  · rw [if_pos harrow, hrest]
  · rw [if_neg harrow, if_pos (hend.resolve_left harrow), hrest]

/-! ## Patterns -/

/-- The keys of the inline maps of the patterns, if there is nothing else in them.  After
the patterns of a `MERGE` may stand an `ON`. -/
def patternKeys : List Tree → Option (List Text)
  | [] => some []
  | .group opener children :: ts =>
    if opener = ['('] then do
      let keys ← nodeKeys children
      let others ← patternKeys ts
      return keys ++ others
    else none
  | [.leaf l] => if l.isKeyword "ON" then some [] else none
  | .leaf comma :: .group ['('] children :: ts =>
    if comma.isComma then do
      let keys ← nodeKeys children
      let others ← patternKeys ts
      return keys ++ others
    else none
  | .leaf left :: .group ['['] children :: .leaf right :: ts =>
    if left.isLeftEnd && right.isRightEnd then do
      let keys ← relationshipKeys children
      let others ← patternKeys ts
      return keys ++ others
    else none
  | _ => none

/-- The keys of the inline maps of pattern elements. -/
def elementKeys (es : List CypherPatternElement) : List Text :=
  es.flatMap fun e => (SafetyValidator.inlineProperties e).map (·.1)

/-- The trees at which a pattern ends: nothing, a comma with the next pattern, or `ON`. -/
def EndsPattern (ts : List Tree) : Prop :=
  ts = [] ∨ ∃ l us, ts = .leaf l :: us ∧ (l.isComma = true ∨ l.isKeyword "ON" = true)

def elementBindings (es : List CypherPatternElement) : List (Option Text × List Text) :=
  es.filterMap fun
    | .node n => some (n.variableName, n.labels)
    | .relationship _ => none

def treeBindings (ts : List Tree) : List (Option Text × List Text) :=
  ts.filterMap fun
    | .group opener children => if opener = ['('] then some (nodeBinding children) else none
    | .leaf _ => none

/-- What the parser has read of the patterns: some elements, and other patterns to come. -/
structure PatternRun (ts : List Tree) (keys : List Text) (elements : List CypherPatternElement)
    (rest : List CypherToken) (us : List Tree) (others : List Text) : Prop where
  rest : lexemesOf rest = flattenAll us
  bracketed : BracketedAll us
  shorter : us.length < ts.length ∨ us = ts
  readable : patternKeys us = some others
  ends : EndsPattern us
  keys : elementKeys elements ++ others.map stripBackticks = keys.map stripBackticks
  bindings : elementBindings elements ++ treeBindings us = treeBindings ts

theorem elementKeys_cons (e : CypherPatternElement) (es : List CypherPatternElement) :
    elementKeys (e :: es) = (SafetyValidator.inlineProperties e).map (·.1) ++ elementKeys es := by
  unfold elementKeys
  rw [flatMap_cons]

theorem elementBindings_cons (e : CypherPatternElement) (es : List CypherPatternElement) :
    elementBindings (e :: es) = elementBindings [e] ++ elementBindings es := by
  unfold elementBindings
  rw [← filterMap_append, singleton_append]

theorem patternKeys_append {keys? others? : Option (List Text)} (h : (do
      let keys ← keys?
      let others ← others?
      return keys ++ others) = some keys) :
    ∃ first others, keys? = some first ∧ others? = some others ∧ keys = first ++ others := by
  rcases bind_eq_some_iff.1 h with ⟨first, hfirst, h⟩
  rcases bind_eq_some_iff.1 h with ⟨others, hothers, h⟩
  cases h
  exact ⟨first, others, hfirst, hothers, rfl⟩

/-- A comma and `ON` are neither a bracket nor a dash nor an arrow. -/
theorem kind_of_ends (hl : l.isComma = true ∨ l.isKeyword "ON" = true) :
    l.kind ≠ .paren ∧ l.isLeftEnd = false := by
  have hkinds : l.kind ≠ .paren ∧ l.kind ≠ .operator ∧ l.kind ≠ .arrow := by
    rcases hl with hl | hl
    · have hkind : l.kind = .punctuation := beq_iff_eq.1 (Bool.and_eq_true_iff.1 hl).1
      rw [hkind]
      exact ⟨TokenKind.noConfusion, TokenKind.noConfusion, TokenKind.noConfusion⟩
    · rw [kind_of_isKeyword hl]
      exact ⟨TokenKind.noConfusion, TokenKind.noConfusion, TokenKind.noConfusion⟩
  refine ⟨hkinds.1, ?_⟩
  unfold Lexeme.isLeftEnd Lexeme.isArrow
  rw [isOperator_of_kind hkinds.2.1, beq_false_of_ne hkinds.2.2]
  rfl

theorem patternElements_end (hends : EndsPattern ts)
    (hlexemes : lexemesOf tokens = flattenAll ts) (fuel : Nat) :
    patternElements (fuel + 1) tokens = some ([], skipTrivia tokens) := by
  rcases hends with rfl | ⟨l, us, rfl, hl⟩
  · unfold patternElements
    rw [skipTrivia_nil (by rw [hlexemes]; simp only [flattenAll])]
  · rw [flattenAll_leaf] at hlexemes
    rcases skipTrivia_cons hlexemes with ⟨t, rest, hskip, ht, -⟩
    have hends := kind_of_ends hl
    unfold Lexeme.isLeftEnd at hends
    unfold patternElements
    rw [hskip]
    dsimp only
    rw [ht, isParen_of_kind hends.1, if_neg Bool.false_ne_true, hends.2, if_neg Bool.false_ne_true]

theorem patternElements_spec : ∀ {tokens : List CypherToken} {ts : List Tree}
    {keys : List Text}, ts.length < fuel → BracketedAll ts → lexemesOf tokens = flattenAll ts →
    patternKeys ts = some keys →
    ∃ elements rest us others, patternElements fuel tokens = some (elements, rest) ∧
      PatternRun ts keys elements rest us others := by
  induction fuel with
  | zero =>
    intro tokens ts keys hlength
    exact absurd hlength (not_lt_zero _)
  | succ fuel ih =>
    intro tokens ts keys hlength hts hlexemes hkeys
    have hend : EndsPattern ts →
        ∃ elements rest us others, patternElements (fuel + 1) tokens = some (elements, rest) ∧
          PatternRun ts keys elements rest us others := by
      intro hends
      exact ⟨[], skipTrivia tokens, ts, keys, patternElements_end hends hlexemes fuel,
        (lexemesOf_skipTrivia tokens).trans hlexemes, hts, inr rfl, hkeys, hends, rfl, rfl⟩
    have hnext : ∀ {e : CypherPatternElement} {after : List CypherToken} {vs : List Tree}
        {first others : List Text},
        patternElements (fuel + 1) tokens =
          (patternElements fuel after).map (fun r => (e :: r.1, r.2)) →
        vs.length < ts.length → BracketedAll vs → lexemesOf after = flattenAll vs →
        patternKeys vs = some others → keys = first ++ others →
        (SafetyValidator.inlineProperties e).map (·.1) = first.map stripBackticks →
        elementBindings [e] ++ treeBindings vs = treeBindings ts →
        ∃ elements rest us others, patternElements (fuel + 1) tokens = some (elements, rest) ∧
          PatternRun ts keys elements rest us others := by
      intro e after vs first others helements hshort hvs hafter hothers hsum he hbindings
      rcases ih (by omega) hvs hafter hothers with ⟨elements, rest, us, last, hrun, hspec⟩
      have hlt : us.length < ts.length := by
        rcases hspec.shorter with hlt | rfl
        · omega
        · exact hshort
      refine ⟨e :: elements, rest, us, last, ?_, hspec.rest, hspec.bracketed, inl hlt,
        hspec.readable, hspec.ends, ?_, ?_⟩
      · rw [helements, hrun]
        rfl
      · rw [elementKeys_cons, append_assoc, hspec.keys, he, hsum, map_append]
      · rw [elementBindings_cons, append_assoc, hspec.bindings, hbindings]
    unfold patternKeys at hkeys
    split at hkeys
    · exact hend (inl rfl)
    · next opener children us =>
        by_cases hopener : opener = ['(']
        · subst hopener
          rw [if_pos rfl] at hkeys
          rcases patternKeys_append hkeys with ⟨first, others, hfirst, hothers, hsum⟩
          simp only [BracketedAll, Bracketed] at hts
          rw [flattenAll_group] at hlexemes
          rcases skipTrivia_cons hlexemes with ⟨t, body, hskip, ht, hbody⟩
          rcases parseNodePattern_spec t hts.1.2 hbody hfirst with
            ⟨node, after, hnode, hproperties, hbinding, hafter⟩
          have hparen : t.isParen '(' = true := by
            rw [ht]
            rfl
          refine hnext (e := .node node) ?_ (lt_succ_self _) hts.2 hafter hothers hsum
            hproperties ?_
          rotate_left
          · show (node.variableName, node.labels) :: treeBindings us = _
            rw [hbinding]
            rfl
          conv => lhs; unfold patternElements
          rw [hskip]
          dsimp only
          rw [hparen, if_pos rfl, hnode]
          show (patternElements fuel after).bind _ = _
          cases patternElements fuel after <;> rfl
        · rw [if_neg hopener] at hkeys
          cases hkeys
    · next l =>
        by_cases hon : l.isKeyword "ON" = true
        · exact hend (inr ⟨l, [], rfl, inr hon⟩)
        · rw [if_neg hon] at hkeys
          cases hkeys
    · next comma children us =>
        by_cases hcomma : comma.isComma = true
        · exact hend (inr ⟨comma, _, rfl, inl hcomma⟩)
        · rw [if_neg hcomma] at hkeys
          cases hkeys
    · next left children right us =>
        by_cases hdashes : (left.isLeftEnd && right.isRightEnd) = true
        · rw [if_pos hdashes] at hkeys
          rw [Bool.and_eq_true] at hdashes
          rcases patternKeys_append hkeys with ⟨first, others, hfirst, hothers, hsum⟩
          simp only [BracketedAll, Bracketed] at hts
          rw [flattenAll_leaf, flattenAll_group, flattenAll_leaf] at hlexemes
          rcases skipTrivia_cons hlexemes with ⟨t, body, hskip, ht, hbody⟩
          rcases parseRelationship_spec t hts.2.1.2 hdashes.2 hbody hfirst with
            ⟨r, after, hr, hproperties, hafter⟩
          have hparen : t.isParen '(' = false := by
            rw [ht]
            exact isParen_of_kind hts.1 _
          have hleft : (t.isOperator '-' || t.isArrow "<-") = true := by
            rw [ht]
            exact hdashes.1
          refine hnext (e := .relationship r) ?_ ?_ hts.2.2.2 hafter hothers hsum hproperties rfl
          · conv => lhs; unfold patternElements
            rw [hskip]
            dsimp only
            rw [hparen, if_neg Bool.false_ne_true, hleft, if_pos rfl, hr]
            show (patternElements fuel after).bind _ = _
            cases patternElements fuel after <;> rfl
          · simp only [length_cons]
            omega
        · rw [if_neg hdashes] at hkeys
          cases hkeys
    · cases hkeys

/-- The next token that is neither trivia nor a comma. -/
theorem dropSeparators_cons {ts : List CypherToken}
    (h : (lexemesOf ts).dropWhile (·.isComma) = l :: ls) :
    ∃ t rest, (ts.dropWhile fun t => t.isTrivia || t.isComma) = t :: rest ∧ t.toLexeme = l ∧
      lexemesOf (t :: rest) = l :: ls := by
  induction ts with
  | nil => cases h
  | cons t ts ih =>
    rw [lexemesOf_cons] at h
    rw [dropWhile_cons]
    by_cases htrivia : t.isTrivia = true
    · rw [if_pos htrivia] at h
      rw [htrivia, Bool.true_or, if_pos rfl]
      exact ih h
    · rw [if_neg htrivia, dropWhile_cons] at h
      rw [Bool.not_eq_true] at htrivia
      by_cases hcomma : t.isComma = true
      · rw [if_pos hcomma] at h
        rw [hcomma, Bool.or_true, if_pos rfl]
        exact ih h
      · rw [if_neg hcomma] at h
        rw [Bool.not_eq_true] at hcomma
        rw [htrivia, hcomma, Bool.or_false, if_neg Bool.false_ne_true]
        refine ⟨t, ts, rfl, (cons.inj h).1, ?_⟩
        rw [lexemesOf_cons, htrivia, if_neg Bool.false_ne_true]
        exact h

theorem dropSeparators_nil {ts : List CypherToken} (h : lexemesOf ts = []) :
    (ts.dropWhile fun t => t.isTrivia || t.isComma) = [] := by
  induction ts with
  | nil => rfl
  | cons t ts ih =>
    rw [lexemesOf_cons] at h
    by_cases htrivia : t.isTrivia = true
    · rw [if_pos htrivia] at h
      rw [dropWhile_cons, htrivia, Bool.true_or, if_pos rfl]
      exact ih h
    · rw [if_neg htrivia] at h
      cases h

def StartsNode (ts : List Tree) : Prop := ∃ children us, ts = .group ['('] children :: us

/-- The patterns of a clause, one after the other. -/
theorem patternList_spec : ∀ {tokens : List CypherToken} {ts : List Tree}
    {keys : List Text}, ts.length < fuel → BracketedAll ts → lexemesOf tokens = flattenAll ts →
    (EndsPattern ts ∨ StartsNode ts) → patternKeys ts = some keys →
    ∃ patterns, patternList fuel tokens = some patterns ∧
      elementKeys (patterns.flatMap (·.elements)) = keys.map stripBackticks ∧
      elementBindings (patterns.flatMap (·.elements)) = treeBindings ts := by
  induction fuel with
  | zero =>
    intro tokens ts keys hlength
    exact absurd hlength (not_lt_zero _)
  | succ fuel ih =>
    intro tokens ts keys hlength hts hlexemes hstart hkeys
    have hpattern : ∀ {vs : List Tree}, StartsNode vs → vs.length ≤ fuel → BracketedAll vs →
        (lexemesOf tokens).dropWhile (·.isComma) = flattenAll vs → patternKeys vs = some keys →
        ∃ patterns, patternList (fuel + 1) tokens = some patterns ∧
          elementKeys (patterns.flatMap (·.elements)) = keys.map stripBackticks ∧
          elementBindings (patterns.flatMap (·.elements)) = treeBindings vs := by
      intro vs hnode hle hvs hdrop hkeys
      rcases hnode with ⟨children, us, rfl⟩
      have hdrop' := hdrop
      rw [flattenAll_group] at hdrop'
      rcases dropSeparators_cons hdrop' with ⟨t, rest, hskip, ht, hrest⟩
      rw [← flattenAll_group] at hrest
      have hinfix : flattenAll (.group ['('] children :: us) <:+: lexemesOf (t :: rest) :=
        hrest ▸ infix_rfl
      have hlength' := length_lt_of_infix hinfix
      rcases patternElements_spec hlength' hvs hrest hkeys with
        ⟨elements, after, ws, others, hrun, hspec⟩
      have hlt : ws.length < fuel := by
        rcases hspec.shorter with hshort | rfl
        · omega
        · rcases hspec.ends with hends | ⟨l, us, hends, -⟩
          · cases hends
          · cases hends
      rcases ih hlt hspec.bracketed hspec.rest (inl hspec.ends) hspec.readable with
        ⟨patterns, hpatterns, hkeysRest, hbindingsRest⟩
      have hparen : t.isParen '(' = true := by
        rw [ht]
        rfl
      have hsingle : ∃ pattern, parseSinglePattern (t :: rest) = some (pattern, after) ∧
          pattern.elements = elements := by
        unfold parseSinglePattern
        rw [hrun]
        exact ⟨_, rfl, rfl⟩
      rcases hsingle with ⟨pattern, hsingle, rfl⟩
      refine ⟨if pattern.elements.isEmpty then patterns else pattern :: patterns, ?_, ?_⟩
      · unfold patternList
        rw [hskip]
        dsimp only
        rw [hparen, if_pos rfl, hsingle]
        show (patternList fuel after).bind _ = _
        rw [hpatterns]
        rfl
      · have hall : (if pattern.elements.isEmpty then patterns else pattern :: patterns).flatMap
            (·.elements) = pattern.elements ++ patterns.flatMap (·.elements) := by
          by_cases hempty : pattern.elements.isEmpty = true
          · rw [if_pos hempty, isEmpty_iff.1 hempty, nil_append]
          · rw [if_neg hempty, flatMap_cons]
        rw [hall, ← hspec.keys, ← hspec.bindings, ← hkeysRest, ← hbindingsRest]
        unfold elementKeys elementBindings
        exact ⟨flatMap_append, filterMap_append⟩
    rcases hstart with (rfl | ⟨l, us, rfl, hl⟩) | hnode
    · cases hkeys
      refine ⟨[], ?_, rfl, rfl⟩
      unfold patternList
      rw [dropSeparators_nil (by rw [hlexemes]; simp only [flattenAll])]
    · have hdash := (kind_of_ends hl).2
      unfold patternKeys at hkeys
      split at hkeys
      · next h => cases h
      · next h => cases h
      · next on h =>
          cases h
          by_cases hon : l.isKeyword "ON" = true
          · rw [if_pos hon] at hkeys
            cases hkeys
            have hcomma : l.isComma = false :=
              isComma_of_kind (by rw [kind_of_isKeyword hon]; exact TokenKind.noConfusion)
            have hdrop : (lexemesOf tokens).dropWhile (·.isComma) = l :: [] := by
              rw [hlexemes, flattenAll_leaf, dropWhile_cons, hcomma, if_neg Bool.false_ne_true]
              simp only [flattenAll]
            rcases dropSeparators_cons hdrop with ⟨t, rest, hskip, ht, -⟩
            refine ⟨[], ?_, rfl, rfl⟩
            unfold patternList
            rw [hskip]
            dsimp only
            have hparen : t.isParen '(' = false := by
              rw [ht]
              exact isParen_of_kind (by rw [kind_of_isKeyword hon]; exact TokenKind.noConfusion) _
            rw [hparen, if_neg Bool.false_ne_true]
          · rw [if_neg hon] at hkeys
            cases hkeys
      · next comma children vs h =>
          cases h
          by_cases hcomma : l.isComma = true
          · rw [if_pos hcomma] at hkeys
            simp only [BracketedAll] at hts
            have hnode : StartsNode (.group ['('] children :: vs) := ⟨children, vs, rfl⟩
            have hbindings : treeBindings (.leaf l :: .group ['('] children :: vs) =
                treeBindings (.group ['('] children :: vs) := rfl
            rw [hbindings]
            refine hpattern hnode
              (le_of_succ_le (le_of_lt_succ hlength)) ?_ ?_ ?_
            · simp only [BracketedAll]
              exact hts.2
            · rw [hlexemes, flattenAll_leaf, dropWhile_cons, if_pos hcomma, flattenAll_group]
              exact dropWhile_cons_of_neg Bool.false_ne_true
            · unfold patternKeys
              rw [if_pos rfl]
              exact hkeys
          · rw [if_neg hcomma] at hkeys
            cases hkeys
      · next left children right vs h =>
          cases h
          rw [hdash, Bool.false_and, if_neg Bool.false_ne_true] at hkeys
          cases hkeys
      · cases hkeys
    · refine hpattern hnode (le_of_lt_succ hlength) hts ?_ hkeys
      rcases hnode with ⟨children, us, rfl⟩
      rw [hlexemes, flattenAll_group]
      exact dropWhile_cons_of_neg Bool.false_ne_true

/-- The inline keys of the patterns of a clause. -/
theorem parsePatterns_spec {kw : Lexeme} (hkw : kw.kind = .keyword)
    (hoptional : kw.isKeyword "OPTIONAL" = false) (hts : BracketedAll ts)
    (hlexemes : lexemesOf tokens = kw :: flattenAll ts) (hnode : StartsNode ts)
    (hkeys : patternKeys ts = some keys) : ∃ patterns, parsePatterns tokens = some patterns ∧
      elementKeys (patterns.flatMap (·.elements)) = keys.map stripBackticks ∧
      elementBindings (patterns.flatMap (·.elements)) = treeBindings ts := by
  rcases skipTrivia_cons hlexemes with ⟨t, rest, hskip, ht, hrest⟩
  have hlength : ts.length < tokens.length + 1 :=
    length_lt_of_infix (hlexemes ▸ (suffix_cons kw _).isInfix)
  rcases patternList_spec hlength hts hrest (inr hnode) hkeys with ⟨patterns, hrun, hall⟩
  refine ⟨patterns, ?_, hall⟩
  have hupper : ¬ upper t.text = "OPTIONAL".toList := by
    intro hupper
    unfold Lexeme.isKeyword at hoptional
    rw [← ht, hupper, ht, hkw] at hoptional
    cases hoptional
  unfold parsePatterns
  rw [hskip]
  dsimp only
  rw [if_neg (by rw [ht, hkw]; exact fun h => h rfl), if_neg hupper]
  exact hrun

/-- The patterns of a clause hold names, labels, types and inline maps only. -/
def ReadablePatterns (c : ClauseKind × List Tree) : Prop :=
  StartsNode (c.2.drop 1) ∧ (patternKeys (c.2.drop 1)).isSome = true

theorem patterns_of_readable {text : Text} {ast : CypherAst} {s : CypherStatement}
    {c : ClauseKind × List Tree} {c' : CypherClause} {head : String × Option String × ClauseKind}
    {us : List Tree} (hparse : parse text = some ast) (hs : s ∈ ast.statements)
    (hc : ClauseReading s c c' head l us) (hpatterns : c.1.hasPatterns = true)
    (honeWord : c.1 ≠ .optionalMatch) (hreadable : ReadablePatterns c) :
    ∃ keys, patternKeys us = some keys ∧
      elementKeys (c'.patterns.flatMap (·.elements)) = keys.map stripBackticks ∧
      elementBindings (c'.patterns.flatMap (·.elements)) = treeBindings us := by
  rcases bind_eq_some_iff.1 hparse with ⟨tokens, -, hast⟩
  rcases hreadable with ⟨hnode, hsome⟩
  rcases isSome_iff_exists.1 hsome with ⟨keys, hkeys⟩
  rw [hc.trees, drop_one, tail_cons] at hnode hkeys
  have hoptional : l.isKeyword "OPTIONAL" = false := by
    by_contra hoptional
    rw [Bool.not_eq_false] at hoptional
    have hheads : ∀ head ∈ clauseHeads, head.1 = "OPTIONAL" → head.2.2 = .optionalMatch := by
      decide
    exact honeWord
      (hc.head_kind.trans (hheads head hc.head_mem (isKeyword_unique hc.word hoptional)))
  rcases parsePatterns_spec (kind_of_isKeyword hc.word) hoptional hc.bracketed hc.lexemes hnode
    hkeys with ⟨patterns, hrun, hall⟩
  have hclause := (clauseSpec_of_mem_parseAst hast hs hc.mem).patterns
  rw [hc.clause_kind, hpatterns, if_pos rfl, hrun, some_inj] at hclause
  rw [← hclause]
  exact ⟨keys, hkeys, hall⟩

end Ontosyx.Cypher
