import Ontosyx.Cypher.Destruction
import Ontosyx.Cypher.PatternTrees

/-!
# Which writes of system properties the safety validator sees

A query writes properties in the items of `SET` and `REMOVE` and in the inline maps of
`CREATE` and `MERGE`, also within `CALL` and `FOREACH`.  The validator looks for
`.name` in the `SET` clauses of the top level and at the keys of the inline maps it has read.

## Main results

* `not_system_of_seen` — a write that the validator sees is of no system property.
* `systemPropertiesUntouched_iff` — no system property is written where no hidden write does.
-/

namespace Ontosyx.Cypher

open List Ontosyx.Core Lib.Precedence SafetyValidator Bool Nat Or

/-! ## Writes -/

/-- What a write names: the property behind a point, a key of a map, or nothing, when the
properties that it assigns or removes depend on a value. -/
inductive Write where
  | property (name : Lexeme)
  | key (name : Lexeme)
  | anything
deriving DecidableEq

/-- The name of a system property, in backticks or not. -/
def Lexeme.isSystemProperty (l : Lexeme) : Bool :=
  systemProperties.any fun p => l.kind == .identifier && l.text == p ||
    l.kind == .quotedIdentifier && l.text == backtick :: (p ++ [backtick])

/-- The write assigns or removes a system property, or may do so. -/
def Write.isSystem : Write → Bool
  | .property name | .key name => name.isSystemProperty
  | .anything => true

def Tree.isOperator (c : Char) : Tree → Bool
  | .leaf l => l.isOperator c
  | .group _ _ => false

/-- The keys of a map, at the start of an entry or not. -/
def entryKeys : Bool → List Tree → List Lexeme
  | _, [] => []
  | start, t :: ts =>
    (match t, ts with
      | .leaf k, .leaf c :: _ => if start && c.isOperator ':' then [k] else []
      | _, _ => []) ++ entryKeys t.isComma ts

/-- The writes of `v += value`. -/
def mergedWrites : List Tree → List Write
  | [.group ['\x7b'] entries] => (entryKeys true entries).map .key
  | _ => [.anything]

/-- The write of an assignment to a target, given from its end on. -/
def targetWrites : List Tree → List Write
  | .leaf p :: .leaf point :: _ => if point.isOperator '.' then [.property p] else [.anything]
  | _ => [.anything]

/-- The writes of an item of `SET`: an assignment, or labels. -/
def setWrites (item : List Tree) : List Write :=
  match item.dropWhile fun t => !t.isOperator '=' with
  | [] => []
  | _ :: value =>
    match (item.takeWhile fun t => !t.isOperator '=').reverse with
    | [] => []
    | t :: ts => if t.isOperator '+' then mergedWrites value else targetWrites (t :: ts)

/-- The writes of an item of `REMOVE`, given from its end on. -/
def removeWrites : List Tree → List Write
  | .leaf p :: .leaf point :: _ => if point.isOperator '.' then [.property p] else []
  | .group ['['] _ :: _ => [.anything]
  | _ => []

/-- The writes of the brackets of a pattern: its inline maps, or a parameter in place of one. -/
def inlineWrites : List Tree → List Write
  | [] => []
  | .leaf l :: ts => (if l.kind = .parameter then [.anything] else []) ++ inlineWrites ts
  | .group opener entries :: ts =>
    (if opener = ['\x7b'] then (entryKeys true entries).map .key else []) ++ inlineWrites ts

def patternWrites : List Tree → List Write
  | [] => []
  | .leaf _ :: ts => patternWrites ts
  | .group opener children :: ts =>
    (if opener = ['\x7b'] then [] else inlineWrites children) ++ patternWrites ts

def clauseWrites (c : ClauseKind × List Tree) : List Write :=
  match c.1 with
  | .set => (commaParts ((ownTrees c.2).drop 1)).flatMap setWrites
  | .remove => (commaParts ((ownTrees c.2).drop 1)).flatMap fun item => removeWrites item.reverse
  | .create | .merge => patternWrites ((ownTrees c.2).drop 1)
  | _ => []

/-- No write of the level is of a system property. -/
def LevelUntouched (level : List Tree) : Prop :=
  ∀ s ∈ levelStatements level, ∀ c ∈ s, ∀ w ∈ clauseWrites c, w.isSystem = false

/-- No write of the query is of a system property: on the top level, in the bodies of
subqueries, in those of `FOREACH`. -/
def SystemPropertiesUntouched (ts : List Tree) : Prop :=
  ∀ level ∈ ts :: (callBodies ts ++ foreachBodies ts), LevelUntouched level

/-- The validator looks at a write of this form: a property behind a point in a `SET`, or a
key of an inline map. -/
def Seen (c : ClauseKind × List Tree) : Write → Prop
  | .property _ => c.1 = .set
  | .key _ => (c.1 = .create ∨ c.1 = .merge) ∧ ReadablePatterns c
  | .anything => False

/-- The writes that the validator does not see are of no system property. -/
def HiddenWritesHarmless (text : Text) (ts : List Tree) : Prop :=
  (∀ level ∈ callBodies ts ++ foreachBodies ts, LevelUntouched level) ∧
    ∀ s ∈ levelStatements ts, ∀ c ∈ s, ∀ w ∈ clauseWrites c,
      w.isSystem = false ∨ Plain text ts ∧ Seen c w

/-- `SafetyValidator` parses the text and reports nothing. -/
def SafetyAccepted (text : Text) : Prop :=
  ∃ ast, parse text = some ast ∧ validate ast = []

theorem commaParts_spec (ts : List Tree) : (segments Tree.isComma ts).1 <+: ts ∧
    ∀ item ∈ (segments Tree.isComma ts).2, item <:+: ts := by
  induction ts with
  | nil => exact ⟨prefix_refl [], fun item h => by cases h⟩
  | cons t ts ih =>
    have hlater : ∀ item, item <:+: ts → item <:+: t :: ts :=
      fun item h => h.trans (infix_cons (infix_refl ts))
    unfold segments
    dsimp only
    by_cases hcomma : t.isComma = true
    · rw [if_pos hcomma]
      refine ⟨ nil_prefix, ?_⟩
      intro item hitem
      rcases mem_cons.1 hitem with rfl | hitem
      · exact hlater _ ih.1.isInfix
      · exact hlater _ (ih.2 item hitem)
    · rw [if_neg hcomma]
      exact ⟨cons_prefix_cons.2 ⟨rfl, ih.1⟩, fun item hitem => hlater _ (ih.2 item hitem)⟩

variable {ts : List Tree}

theorem infix_of_mem_commaParts {item : List Tree} (h : item ∈ commaParts ts) : item <:+: ts := by
  rcases mem_cons.1 h with rfl | h
  · exact (commaParts_spec ts).1.isInfix
  · exact (commaParts_spec ts).2 item h

/-- An assignment to a property has its name behind a point. -/
theorem infix_of_mem_setWrites {item : List Tree} {p : Lexeme}
    (h : Write.property p ∈ setWrites item) :
    ∃ point, point.isOperator '.' = true ∧ [.leaf point, .leaf p] <:+: item := by
  unfold setWrites at h
  split at h
  · cases h
  · next value _ =>
      split at h
      · cases h
      · next t ts hreverse =>
          by_cases hplus : t.isOperator '+' = true
          · rw [if_pos hplus] at h
            unfold mergedWrites at h
            split at h
            · rcases mem_map.1 h with ⟨k, -, hk⟩
              cases hk
            · cases mem_singleton.1 h
          · rw [if_neg hplus] at h
            unfold targetWrites at h
            split at h
            · next q point rest heq =>
                by_cases hpoint : point.isOperator '.' = true
                · rw [if_pos hpoint] at h
                  cases mem_singleton.1 h
                  refine ⟨point, hpoint, ?_⟩
                  rw [heq, reverse_eq_iff, reverse_cons, reverse_cons, append_assoc] at hreverse
                  have hprefix := takeWhile_prefix (l := item) fun t : Tree =>
                    !t.isOperator '='
                  rw [hreverse] at hprefix
                  exact (suffix_append _ _).isInfix.trans hprefix.isInfix
                · rw [if_neg hpoint] at h
                  cases mem_singleton.1 h
            · cases mem_singleton.1 h

theorem flattenAll_infix {us : List Tree} (h : ts <:+: us) : flattenAll ts <:+: flattenAll us := by
  rcases h with ⟨before, after, rfl⟩
  rw [flattenAll_append, flattenAll_append]
  exact ⟨_, _, rfl⟩

/-- The window scan finds a name behind a point, unless the point comes first. -/
theorem mem_systemAccesses {point p : Lexeme} (hpoint : point.isOperator '.' = true)
    (hname : p.isName = true) (hsystem : isSystemName p.text = true) :
    ∀ {ls : List Lexeme}, [point, p] <:+: ls → (l : Lexeme) →
      p ∈ systemAccesses (l :: ls) := by
  intro ls
  induction ls with
  | nil =>
    intro h
    rcases h with ⟨before, after, h⟩
    simp at h
  | cons m ls ih =>
    intro h l
    rcases infix_cons_iff.1 h with h | h
    · rcases h with ⟨after, h⟩
      cases h
      have hwindow : systemAccesses (l :: point :: p :: after) =
          (if point.isOperator '.' && p.isName && isSystemName p.text then [p] else []) ++
            systemAccesses (point :: p :: after) := rfl
      show p ∈ systemAccesses (l :: point :: p :: after)
      rw [hwindow, hpoint, hname, hsystem, Bool.and_true, Bool.and_true, if_pos rfl]
      exact mem_append_left _ (mem_singleton_self p)
    · rcases ls with _ | ⟨n, ls⟩
      · rcases h with ⟨before, after, h⟩
        simp at h
      · unfold systemAccesses
        exact mem_append_right _ (ih h m)

variable {l : Lexeme}

theorem isName_of_isSystemProperty (h : l.isSystemProperty = true) :
    l.isName = true ∧ isSystemName l.text = true ∧ isSystemName (stripBackticks l.text) = true := by
  rcases l with ⟨kind, text⟩
  have hnames : ∀ p ∈ systemProperties, isSystemName p = true ∧
      isSystemName (stripBackticks p) = true ∧
      isSystemName (backtick :: (p ++ [backtick])) = true ∧
      isSystemName (stripBackticks (backtick :: (p ++ [backtick]))) = true := by
    decide
  rcases any_eq_true.1 h with ⟨p, hp, h⟩
  rcases hnames p hp with ⟨hplain, hstripped, hquoted, hquotedStripped⟩
  unfold Lexeme.isName
  rcases or_eq_true_iff.1 h with h | h
  · rw [and_eq_true, beq_iff_eq, beq_iff_eq] at h
    rw [h.1, h.2]
    exact ⟨rfl, hplain, hstripped⟩
  · rw [and_eq_true, beq_iff_eq, beq_iff_eq] at h
    rw [h.1, h.2]
    exact ⟨rfl, hquoted, hquotedStripped⟩

/-! ## Inline keys -/

theorem isComma_of_isName (h : l.isName = true) : l.isComma = false := by
  refine isComma_of_kind ?_
  intro hkind
  unfold Lexeme.isName at h
  rw [hkind] at h
  cases h

theorem isComma_of_isOperator {c : Char} (h : l.isOperator c = true) : l.isComma = false := by
  refine isComma_of_kind ?_
  intro hkind
  rw [isOperator_of_kind (by rw [hkind]; exact TokenKind.noConfusion)] at h
  cases h

theorem entryKeys_value (t : Tree) (ts : List Tree) :
    entryKeys false (t :: ts) = entryKeys t.isComma ts := by
  conv => lhs; unfold entryKeys
  split <;> rfl

variable {k : Lexeme}

theorem entryKeys_entry {c : Lexeme} (hc : c.isOperator ':' = true) (ts : List Tree) :
    entryKeys true (.leaf k :: .leaf c :: ts) = k :: entryKeys k.isComma (.leaf c :: ts) := by
  conv => lhs; unfold entryKeys
  dsimp only
  rw [hc, Bool.and_true, if_pos rfl, isComma_leaf]
  rfl

/-- The keys of a map that the parser reads are among those it finds. -/
theorem mem_of_mapKeys {n : Nat} : ∀ {ts : List Tree} {start : Bool} {keys : List Text}
    {k : Lexeme}, ts.length ≤ n → mapKeys (!start) ts = some keys → k ∈ entryKeys start ts →
    k.text ∈ keys := by
  induction n with
  | zero =>
    intro ts start keys k hlength _ hk
    rw [length_eq_zero_iff.1 (le_zero.1 hlength)] at hk
    simp only [entryKeys] at hk
    cases hk
  | succ n ih =>
    intro ts start keys k hlength hkeys hk
    rcases ts with _ | ⟨t, ts⟩
    · simp only [entryKeys] at hk
      cases hk
    · cases start with
      | false =>
        rw [Bool.not_false] at hkeys
        simp only [mapKeys] at hkeys
        rw [entryKeys_value] at hk
        exact ih (le_of_succ_le_succ hlength) hkeys hk
      | true =>
        rw [Bool.not_true] at hkeys
        unfold mapKeys at hkeys
        split at hkeys
        · next h => cases h
        · next hfalse _ => cases hfalse
        · next key c us _ h =>
            cases h
            by_cases hentry : (key.isName && c.isOperator ':') = true
            · rw [if_pos hentry] at hkeys
              rcases Option.map_eq_some_iff.1 hkeys with ⟨others, hothers, rfl⟩
              rw [and_eq_true] at hentry
              have hcolon : (Tree.leaf c).isComma = false :=
                (isComma_leaf c).trans (isComma_of_isOperator hentry.2)
              rw [entryKeys_entry hentry.2, isComma_of_isName hentry.1, entryKeys_value, hcolon]
                at hk
              rcases mem_cons.1 hk with rfl | hk
              · exact mem_cons_self
              · have hvalue : mapKeys (!false) us = some others := hothers
                refine mem_cons_of_mem _ (ih ?_ hvalue hk)
                rw [length_cons, length_cons] at hlength
                omega
            · rw [if_neg hentry] at hkeys
              cases hkeys
        · cases hkeys

theorem mem_of_inlineWrites (h : Write.key k ∈ inlineWrites ts) :
    ∃ entries, .group ['\x7b'] entries ∈ ts ∧ k ∈ entryKeys true entries := by
  induction ts with
  | nil =>
    simp only [inlineWrites] at h
    cases h
  | cons t ts ih =>
    have hlift : Write.key k ∈ inlineWrites ts →
        ∃ entries, .group ['\x7b'] entries ∈ t :: ts ∧ k ∈ entryKeys true entries := by
      intro htail
      rcases ih htail with ⟨entries, hmem, hk⟩
      exact ⟨entries, mem_cons_of_mem _ hmem, hk⟩
    cases t with
    | leaf l =>
      simp only [inlineWrites] at h
      rcases mem_append.1 h with h | h
      · by_cases hparameter : l.kind = .parameter
        · rw [if_pos hparameter] at h
          cases mem_singleton.1 h
        · rw [if_neg hparameter] at h
          cases h
      · exact hlift h
    | group opener entries =>
      simp only [inlineWrites] at h
      rcases mem_append.1 h with h | h
      · by_cases hopener : opener = ['\x7b']
        · rw [if_pos hopener] at h
          rcases mem_map.1 h with ⟨key, hkey, heq⟩
          cases heq
          exact ⟨entries, by rw [hopener]; exact mem_cons_self, hkey⟩
        · rw [if_neg hopener] at h
          cases h
      · exact hlift h

theorem mem_of_patternWrites (h : Write.key k ∈ patternWrites ts) :
    ∃ opener children, .group opener children ∈ ts ∧ Write.key k ∈ inlineWrites children := by
  induction ts with
  | nil =>
    simp only [patternWrites] at h
    cases h
  | cons t ts ih =>
    have hlift : Write.key k ∈ patternWrites ts →
        ∃ opener children, .group opener children ∈ t :: ts ∧
          Write.key k ∈ inlineWrites children := by
      intro htail
      rcases ih htail with ⟨opener, children, hmem, hk⟩
      exact ⟨opener, children, mem_cons_of_mem _ hmem, hk⟩
    cases t with
    | leaf l =>
      simp only [patternWrites] at h
      exact hlift h
    | group opener children =>
      simp only [patternWrites] at h
      rcases mem_append.1 h with h | h
      · by_cases hopener : opener = ['\x7b']
        · rw [if_pos hopener] at h
          cases h
        · rw [if_neg hopener] at h
          exact ⟨opener, children, mem_cons_self, h⟩
      · exact hlift h

variable {entries : List Tree} {keys : List Text}

/-- The only bracket in a readable node or relationship is its inline map. -/
theorem mapKeys_of_inlineMap {opener : Text} (h : inlineMap ts = some keys)
    (hmem : .group opener entries ∈ ts) : mapKeys false entries = some keys := by
  unfold inlineMap at h
  split at h
  · cases hmem
  · next opener' entries' =>
      cases mem_singleton.1 hmem
      by_cases hopener : opener = ['\x7b']
      · rw [if_pos hopener] at h
        exact h
      · rw [if_neg hopener] at h
        cases h
  · cases h

theorem mem_afterName {opener : Text} (h : .group opener entries ∈ ts) :
    .group opener entries ∈ afterName ts := by
  rcases ts with _ | ⟨l | ⟨opener', entries'⟩, ts⟩
  · exact h
  · rcases mem_cons.1 h with h | h
    · cases h
    · unfold afterName
      dsimp only
      split
      · exact h
      · exact mem_cons_of_mem _ h
  · exact h

theorem mapKeys_of_labelKeys {n : Nat} : ∀ {ts : List Tree} {keys : List Text} {opener : Text}
    {entries : List Tree}, ts.length ≤ n → labelKeys ts = some keys →
    .group opener entries ∈ ts → mapKeys false entries = some keys := by
  induction n with
  | zero =>
    intro ts keys opener entries hlength _ hmem
    rw [length_eq_zero_iff.1 (le_zero.1 hlength)] at hmem
    cases hmem
  | succ n ih =>
    intro ts keys opener entries hlength h hmem
    unfold labelKeys at h
    split at h
    · next c l us =>
        by_cases hlabel : (c.isOperator ':' && l.isName) = true
        · rw [if_pos hlabel] at h
          rcases mem_cons.1 hmem with hmem | hmem
          · cases hmem
          · rcases mem_cons.1 hmem with hmem | hmem
            · cases hmem
            · refine ih ?_ h hmem
              rw [length_cons, length_cons] at hlength
              omega
        · rw [if_neg hlabel] at h
          cases h
    · exact mapKeys_of_inlineMap h hmem

theorem mapKeys_of_typeKeys {opener : Text} (h : typeKeys ts = some keys)
    (hmem : .group opener entries ∈ ts) : mapKeys false entries = some keys := by
  unfold typeKeys at h
  split at h
  · next c l us =>
      by_cases htype : (c.isOperator ':' && l.isName) = true
      · rw [if_pos htype] at h
        rcases mem_cons.1 hmem with hmem | hmem
        · cases hmem
        · rcases mem_cons.1 hmem with hmem | hmem
          · cases hmem
          · exact mapKeys_of_inlineMap h hmem
      · rw [if_neg htype] at h
        cases h
  · exact mapKeys_of_inlineMap h hmem

/-- The keys in the brackets of a readable pattern. -/
theorem keys_of_mem_pattern {n : Nat} : ∀ {ts : List Tree} {keys : List Text} {opener : Text}
    {children : List Tree}, ts.length ≤ n → patternKeys ts = some keys →
    .group opener children ∈ ts →
    ∃ inner, (nodeKeys children = some inner ∨ relationshipKeys children = some inner) ∧
      ∀ key ∈ inner, key ∈ keys := by
  induction n with
  | zero =>
    intro ts keys opener children hlength _ hmem
    rw [length_eq_zero_iff.1 (le_zero.1 hlength)] at hmem
    cases hmem
  | succ n ih =>
    intro ts keys opener children hlength h hmem
    have hlater : ∀ {us : List Tree} {first others : List Text}, us.length ≤ n →
        patternKeys us = some others → keys = first ++ others → .group opener children ∈ us →
        ∃ inner, (nodeKeys children = some inner ∨ relationshipKeys children = some inner) ∧
          ∀ key ∈ inner, key ∈ keys := by
      intro us first others hshort hothers hsum hus
      rcases ih hshort hothers hus with ⟨inner, hinner, hsubset⟩
      refine ⟨inner, hinner, ?_⟩
      intro key hkey
      rw [hsum]
      exact mem_append_right _ (hsubset key hkey)
    unfold patternKeys at h
    split at h
    · cases hmem
    · next opener' children' us =>
        by_cases hopener : opener' = ['(']
        · rw [if_pos hopener] at h
          rcases patternKeys_append h with ⟨first, others, hfirst, hothers, hsum⟩
          rcases mem_cons.1 hmem with hmem | hmem
          · cases hmem
            exact ⟨first, inl hfirst, fun key hkey => by
              rw [hsum]; exact mem_append_left _ hkey⟩
          · exact hlater (le_of_succ_le_succ hlength) hothers hsum hmem
        · rw [if_neg hopener] at h
          cases h
    · cases mem_singleton.1 hmem
    · next comma children' us =>
        by_cases hcomma : comma.isComma = true
        · rw [if_pos hcomma] at h
          rcases patternKeys_append h with ⟨first, others, hfirst, hothers, hsum⟩
          rcases mem_cons.1 hmem with hmem | hmem
          · cases hmem
          · rcases mem_cons.1 hmem with hmem | hmem
            · cases hmem
              exact ⟨first, inl hfirst, fun key hkey => by
                rw [hsum]; exact mem_append_left _ hkey⟩
            · refine hlater ?_ hothers hsum hmem
              rw [length_cons, length_cons] at hlength
              omega
        · rw [if_neg hcomma] at h
          cases h
    · next left children' right us =>
        by_cases hdashes : (left.isLeftEnd && right.isRightEnd) = true
        · rw [if_pos hdashes] at h
          rcases patternKeys_append h with ⟨first, others, hfirst, hothers, hsum⟩
          rcases mem_cons.1 hmem with hmem | hmem
          · cases hmem
          · rcases mem_cons.1 hmem with hmem | hmem
            · cases hmem
              exact ⟨first, inr hfirst, fun key hkey => by
                rw [hsum]; exact mem_append_left _ hkey⟩
            · rcases mem_cons.1 hmem with hmem | hmem
              · cases hmem
              · refine hlater ?_ hothers hsum hmem
                rw [length_cons, length_cons, length_cons] at hlength
                omega
        · rw [if_neg hdashes] at h
          cases h
    · cases h

/-- The keys that readable patterns write are those that the parser finds. -/
theorem mem_of_patternKeys {us : List Tree} (h : patternKeys ts = some keys)
    (hus : ∀ t ∈ us, t ∈ ts) (hk : Write.key k ∈ patternWrites us) : k.text ∈ keys := by
  rcases mem_of_patternWrites hk with ⟨opener, children, hchildren, hk⟩
  rcases mem_of_inlineWrites hk with ⟨entries, hentries, hk⟩
  rcases keys_of_mem_pattern (le_refl _) h (hus _ hchildren) with ⟨inner, hinner, hsubset⟩
  have hmap : mapKeys (!true) entries = some inner := by
    rcases hinner with hinner | hinner
    · exact mapKeys_of_labelKeys (le_refl _) hinner (mem_afterName hentries)
    · exact mapKeys_of_typeKeys hinner (mem_afterName hentries)
  exact hsubset _ (mem_of_mapKeys (le_refl _) hmap hk)

theorem systemWrites_of_validate {ast : CypherAst} {s : CypherStatement} {c : CypherClause}
    (h : validate ast = []) (hs : s ∈ ast.statements) (hc : c ∈ s.clauses) :
    systemWrites c = [] := by
  have hclause := flatMap_eq_nil_iff.1 (flatMap_eq_nil_iff.1 h s hs) c hc
  unfold validateClause at hclause
  rw [append_eq_nil_iff, map_eq_nil_iff] at hclause
  exact hclause.2

theorem mem_ownTrees_tail {t : Tree} (h : t ∈ (ownTrees ts).drop 1) : t ∈ ts.drop 1 := by
  rcases ts with _ | ⟨u, ts⟩
  · exact h
  · unfold ownTrees at h
    rw [takeWhile_cons] at h
    split at h
    · rw [drop_one, tail_cons] at h ⊢
      exact ( takeWhile_prefix _).subset h
    · cases h

/-- An assignment in a `SET` clause is found by the window scan. -/
theorem mem_systemAccesses_of_set {c : ClauseKind × List Tree} {p : Lexeme} {us : List Tree}
    (hkind : c.1 = .set) (hhead : c.2 = .leaf l :: us) (hp : Write.property p ∈ clauseWrites c)
    (hname : p.isName = true) (hsystem : isSystemName p.text = true) :
    p ∈ systemAccesses (flattenAll c.2) := by
  unfold clauseWrites at hp
  rw [hkind] at hp
  rcases mem_flatMap.1 hp with ⟨item, hitem, hp⟩
  rcases infix_of_mem_setWrites hp with ⟨point, hpoint, hadjacent⟩
  have howned : (ownTrees c.2).drop 1 <:+: us := by
    unfold ownTrees
    rw [hhead, takeWhile_cons]
    split
    · exact ( takeWhile_prefix _).isInfix
    · exact nil_infix
  have hlexemes := flattenAll_infix ((hadjacent.trans (infix_of_mem_commaParts hitem)).trans howned)
  have hpair : flattenAll [.leaf point, .leaf p] = [point, p] := by
    simp only [flattenAll, Tree.flatten, singleton_append]
  rw [hpair] at hlexemes
  rw [hhead, flattenAll_leaf]
  exact mem_systemAccesses hpoint hname hsystem hlexemes l

/-- A write that the validator sees is of no system property. -/
theorem not_system_of_seen {text : Text} {s : List (ClauseKind × List Tree)}
    {c : ClauseKind × List Tree} {w : Write} (h : SafetyAccepted text) (hreads : Reads text ts)
    (hplain : Plain text ts) (hs : s ∈ levelStatements ts) (hc : c ∈ s) (hw : w ∈ clauseWrites c)
    (hseen : Seen c w) : w.isSystem = false := by
  rcases h with ⟨ast, hparse, hsafe⟩
  by_contra hsystem
  rw [not_eq_false] at hsystem
  rcases statement_of_plain hparse hreads hplain hs with ⟨hs, s', hs', hclauses⟩
  have hknown : c.1 ≠ .unknown := by
    intro hunknown
    unfold clauseWrites at hw
    rw [hunknown] at hw
    cases hw
  rcases exists_clauseReading hreads.bracketed hs hclauses hc hknown with
    ⟨c', head, l, us, hread⟩
  have hwrites := systemWrites_of_validate hsafe hs' hread.mem
  unfold systemWrites at hwrites
  rw [hread.clause_kind] at hwrites
  cases w with
  | anything => exact hseen
  | property p =>
    have hset : c.1 = .set := hseen
    rcases isName_of_isSystemProperty hsystem with ⟨hname, hnamed, -⟩
    rw [if_pos (inl hset), append_eq_nil_iff, map_eq_nil_iff] at hwrites
    have hmem := mem_systemAccesses_of_set hset hread.trees hw hname hnamed
    rw [hread.trees, flattenAll_leaf, ← hread.lexemes] at hmem
    exact ne_nil_of_mem hmem hwrites.1
  | key k =>
    rcases hseen with ⟨hpattern, hreadable⟩
    rw [if_pos (inr hpattern), append_eq_nil_iff] at hwrites
    have hmem : Write.key k ∈ patternWrites ((ownTrees c.2).drop 1) := by
      unfold clauseWrites at hw
      rcases hpattern with hpattern | hpattern
      · rw [hpattern] at hw
        exact hw
      · rw [hpattern] at hw
        exact hw
    have hsubset : ∀ t ∈ (ownTrees c.2).drop 1, t ∈ us := by
      intro t ht
      have htail := mem_ownTrees_tail ht
      rw [hread.trees, drop_one, tail_cons] at htail
      exact htail
    have hhas : c.1.hasPatterns = true ∧ c.1 ≠ .optionalMatch := by
      rcases hpattern with hpattern | hpattern
      · rw [hpattern]
        exact ⟨rfl, ClauseKind.noConfusion⟩
      · rw [hpattern]
        exact ⟨rfl, ClauseKind.noConfusion⟩
    rcases patterns_of_readable hparse hs' hread hhas.1 hhas.2 hreadable with
      ⟨keys, hkeys, hinline, -⟩
    have hk := mem_of_patternKeys hkeys hsubset hmem
    rcases isName_of_isSystemProperty hsystem with ⟨-, -, hstripped⟩
    have hfound : stripBackticks k.text ∈ inlineKeys c' := by
      show stripBackticks k.text ∈ elementKeys (c'.patterns.flatMap (·.elements))
      rw [hinline]
      exact mem_map_of_mem hk
    exact filter_eq_nil_iff.1 hwrites.2 _ hfound hstripped

/-- A text without reported issues writes no system property exactly when the writes that the
validator does not see write none. -/
theorem systemPropertiesUntouched_iff {text : Text} (h : SafetyAccepted text) :
    (∀ ts, Reads text ts → SystemPropertiesUntouched ts) ↔
      ∀ ts, Reads text ts → HiddenWritesHarmless text ts := by
  constructor
  · intro huntouched ts hreads
    have hall := huntouched ts hreads
    refine ⟨?_, ?_⟩
    · intro level hlevel
      exact hall level (mem_cons_of_mem _ hlevel)
    · intro s hs c hc w hw
      exact inl (hall ts mem_cons_self s hs c hc w hw)
  · intro hhidden ts hreads level hlevel s hs c hc w hw
    rcases hhidden ts hreads with ⟨hbodies, htop⟩
    rcases mem_cons.1 hlevel with rfl | hlevel
    · rcases htop s hs c hc w hw with hw' | ⟨hplain, hseen⟩
      · exact hw'
      · exact not_system_of_seen h hreads hplain hs hc hw hseen
    · exact hbodies level hlevel s hs c hc w hw

/-- A property that belongs to the user is written. -/
def userWrite : Text := "MATCH (n) SET n.x = 1".toList

theorem systemPropertiesUntouched_userWrite :
    (∀ ts, Reads userWrite ts → SystemPropertiesUntouched ts) ↔
      ∀ ts, Reads userWrite ts → HiddenWritesHarmless userWrite ts :=
  systemPropertiesUntouched_iff (by
    refine ⟨(parse userWrite).get (by decide +kernel), ?_, ?_⟩
    · exact (Option.some_get _).symm
    · decide +kernel)

/-- A `WHERE` is all that a removal needs. -/
def workspaceRemoval : Text := "MATCH (n) WHERE n.x = 1 REMOVE n._workspace_id".toList

def workspaceRemovalStatement : List (ClauseKind × List Tree) :=
  [(.matchClause, [.leaf ⟨.keyword, "MATCH".toList⟩, .group ['('] [.leaf ⟨.identifier, ['n']⟩]]),
    (.whereClause, [.leaf ⟨.keyword, "WHERE".toList⟩, .leaf ⟨.identifier, ['n']⟩,
      .leaf ⟨.operator, ['.']⟩, .leaf ⟨.identifier, ['x']⟩, .leaf ⟨.operator, ['=']⟩,
      .leaf ⟨.number, ['1']⟩]),
    (.remove, [.leaf ⟨.keyword, "REMOVE".toList⟩, .leaf ⟨.identifier, ['n']⟩,
      .leaf ⟨.operator, ['.']⟩, .leaf ⟨.identifier, workspaceProperty⟩])]

theorem workspaceRemoval_not_untouched : ¬ (SafetyAccepted workspaceRemoval →
      ∀ ts, Reads workspaceRemoval ts → SystemPropertiesUntouched ts) := by
  intro h
  have haccepted : SafetyAccepted workspaceRemoval := by
    refine ⟨(parse workspaceRemoval).get (by decide +kernel), ?_, ?_⟩
    · exact (Option.some_get _).symm
    · decide +kernel
  have hreads : Reads workspaceRemoval (statementTrees workspaceRemovalStatement) := by
    refine ⟨?_, by decide +kernel⟩
    simp [workspaceRemovalStatement, statementTrees, BracketedAll, Tree.Bracketed]
  have hs : workspaceRemovalStatement ∈
      levelStatements (statementTrees workspaceRemovalStatement) := mem_cons_self
  have hsystem := h haccepted _ hreads _ mem_cons_self _ hs _
    (mem_of_getElem? (i := 2) rfl) (.property ⟨.identifier, workspaceProperty⟩) (by decide)
  exact absurd hsystem (by decide)

end Ontosyx.Cypher
