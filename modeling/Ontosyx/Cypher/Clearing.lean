import Ontosyx.Cypher.ShaclPromises
import Ontosyx.Cypher.SystemWrites

/-!
# Which clearing writes the SHACL validator sees

A required property is cleared by assigning `null` to it, by removing it, by creating a
node with it `null`, and by replacing or merging the whole map of a node.  The validator
looks for a minimum count at the items of `REMOVE` only, those that it has read of a
variable that it knows.

## Main results

* `mem_parseRemoveItems` — the items of `REMOVE` that the parser reads.
* `not_affects_of_seen` — no removal that the validator sees clears a required property.
* `requiredKept_iff` — required properties are kept where no unseen write clears them.
-/

namespace Ontosyx.Cypher

open List Ontology Lib.Precedence Bool

/-! ## Clearing writes -/

mutual
def Tree.variableName : Tree → Option Text
  | .leaf l => some (stripBackticks l.text)
  | .group opener inner => if opener = ['('] then variableOf inner else none

def variableOf : List Tree → Option Text
  | [t] => t.variableName
  | _ => none
end

/-- The value is `null`. -/
def isNull : List Tree → Bool
  | [.leaf l] => l.isKeyword "NULL"
  | _ => false

def mapEntries (ts : List Tree) : List (Text × List Tree) :=
  (commaParts ts).filterMap fun
    | .leaf k :: .leaf c :: value =>
      if c.isOperator ':' then some (stripBackticks k.text, value) else none
    | _ => none

/-- Merging the value into a map makes the property `null`, or may do so. -/
def mergesNull (name : Text) : List Tree → Bool
  | [.group ['\x7b'] entries] => (mapEntries entries).any fun e => e.1 = name && isNull e.2
  | _ => true

/-- The value as a whole map lacks the property, or may do so. -/
def lacks (name : Text) : List Tree → Bool
  | [.group ['\x7b'] entries] => !(mapEntries entries).any fun e => e.1 = name && !isNull e.2
  | _ => true

/-- The variable of a target, given from its end on, when the write clears the property. -/
def clearedTarget (name : Text) (value : List Tree) : List Tree → Option Text
  | .leaf last :: target =>
    if last.isOperator '+' then
      if mergesNull name value then variableOf target.reverse else none
    else match target with
      | .leaf point :: rest =>
        if point.isOperator '.' && stripBackticks last.text = name && isNull value then
          variableOf rest.reverse
        else none
      | _ => if lacks name value then variableOf (target.reverse ++ [.leaf last]) else none
  | .group ['['] _ :: target => if isNull value then variableOf target.reverse else none
  | target => if lacks name value then variableOf target.reverse else none

/-- The variable on which an item of `SET` clears the property, or may do so. -/
def setClears (name : Text) (item : List Tree) : Option Text :=
  match item.dropWhile fun t => !t.isOperator '=' with
  | [] => none
  | _ :: value => clearedTarget name value (item.takeWhile fun t => !t.isOperator '=').reverse

/-- The variable from which an item of `REMOVE`, given from its end on, removes the property,
or may do so. -/
def removeClears (name : Text) : List Tree → Option Text
  | .leaf p :: .leaf point :: target =>
    if point.isOperator '.' && stripBackticks p.text = name then variableOf target.reverse
    else none
  | .group ['['] _ :: target => variableOf target.reverse
  | _ => none

/-- The map writes the property with the value `null`. -/
def inlineNull (name : Text) : Tree → Bool
  | .group ['\x7b'] entries => (mapEntries entries).any fun e => e.1 = name && isNull e.2
  | _ => false

/-- The labels of a node that is created with the property `null`. -/
def createdNull (name : Text) : Tree → Option (List Text)
  | .group ['('] children =>
    if children.any (inlineNull name) then some (labelNames (afterName children)) else none
  | _ => none

/-- A write that clears a property: on a variable, or of a node with labels. -/
inductive Clear where
  | variable (v : Text)
  | node (labels : List Text)

/-- The writes of a clause that clear the property. -/
def clauseClears (name : Text) (c : ClauseKind × List Tree) : List Clear :=
  let body := (ownTrees c.2).drop 1
  match c.1 with
  | .set => ((commaParts body).filterMap (setClears name)).map .variable
  | .remove =>
    ((commaParts body).filterMap fun item => removeClears name item.reverse).map .variable
  | .create | .merge => (body.filterMap (createdNull name)).map .node
  | _ => []

/-- The bodies of the subqueries and `FOREACH`s among the trees, without those within them. -/
def innerBodies : Option Lexeme → List Tree → List (List Tree)
  | _, [] => []
  | prev, .leaf l :: ts => innerBodies (some (l.named prev)) ts
  | prev, .group opener children :: ts =>
    if prev.any (·.isKeyword "CALL") && opener = ['\x7b'] ||
        prev.any (·.isKeyword "FOREACH") && opener = ['('] then
      children :: innerBodies none ts
    else innerBodies none children ++ innerBodies (if opener = ['('] then prev else none) ts

def statementBindings (s : List (ClauseKind × List Tree)) : List (Option Text × List Text) :=
  s.flatMap fun c => if c.1.hasPatterns then treeBindings (ownTrees c.2) else []

/-- A statement of the query, and what the patterns bind that are in scope there. -/
inductive InScope (ts : List Tree) :
    List (Option Text × List Text) → List (ClauseKind × List Tree) → Prop
  | top {s : List (ClauseKind × List Tree)} (hs : s ∈ levelStatements ts) :
      InScope ts (statementBindings s) s
  | body {env : List (Option Text × List Text)} {s s' : List (ClauseKind × List Tree)}
      {body : List Tree} (hs : InScope ts env s)
      (hbody : body ∈ innerBodies none (statementTrees s)) (hs' : s' ∈ levelStatements body) :
      InScope ts (env ++ statementBindings s') s'

/-- The write clears the property of a node with the label. -/
def Clear.Affects (env : List (Option Text × List Text)) (label : Text) : Clear → Prop
  | .variable v => ∃ labels, (some v, labels) ∈ env ∧ label ∈ labels
  | .node labels => label ∈ labels

namespace ShaclValidator

def EnforcesMinCount (v : ShaclValidator) (label name : Text)
    (within : ShaclConstraint → List ShaclConstraint) : Prop :=
  ∃ nodeType prop, v.propertyOf label name = some (nodeType, prop) ∧
    ∃ rc ∈ shapeConstraints v.activeRules nodeType prop, rc.1.severity = .violation ∧
      ∃ target min, .minCount target min ∈ within rc.2 ∧ min ≠ 0 ∧
        targetMatchesProperty target prop = true

/-- The property is required: by a minimum count of a rule, or inside an `And`. -/
def Requires (v : ShaclValidator) (label name : Text) : Prop :=
  v.EnforcesMinCount label name conjuncts

/-- The property is required by a minimum count that is itself a constraint of a rule. -/
def RequiresDirectly (v : ShaclValidator) (label name : Text) : Prop :=
  v.EnforcesMinCount label name fun c => [c]

/-- The text is parsed and the validator reports no error. -/
def Accepts (regex : Regex) (v : ShaclValidator) (text : Text) : Prop :=
  ∃ ast issues, parse text = some ast ∧ v.validate regex ast = some issues ∧
    ∀ i ∈ issues, i.severity ≠ .error

def RequiredKept (v : ShaclValidator) (text : Text) : Prop :=
  ∀ label name, v.Requires label name → ∀ ts, Reads text ts → ∀ env s, InScope ts env s →
    ∀ c ∈ s, ∀ clear ∈ clauseClears name c, ¬ clear.Affects env label

/-- The validator checks the removal against a minimum count: an item `x.p` of a `REMOVE` on
the top level, with the label in a pattern that the parser reads. -/
structure SeesRemoval (v : ShaclValidator) (text : Text) (ts : List Tree) (label name : Text)
    (s : List (ClauseKind × List Tree)) (c : ClauseKind × List Tree) (x : Text) : Prop where
  plain : Plain text ts
  top : s ∈ levelStatements ts
  direct : v.RequiresDirectly label name
  remove : c.1 = .remove
  item : ∃ l point p, [.leaf l, .leaf point, .leaf p] ∈ commaParts (c.2.drop 1) ∧
    l.isName = true ∧ point.isOperator '.' = true ∧ p.isName = true ∧
    stripBackticks l.text = x ∧ stripBackticks p.text = name
  bound : ∃ d ∈ s, (d.1 = .matchClause ∨ d.1 = .create ∨ d.1 = .merge) ∧ ReadablePatterns d ∧
    ∃ labels, (some x, labels) ∈ treeBindings d.2 ∧ label ∈ labels

/-- No write that the validator does not see clears a required property. -/
def UnseenWritesHarmless (v : ShaclValidator) (text : Text) : Prop :=
  ∀ label name, v.Requires label name → ∀ ts, Reads text ts → ∀ env s, InScope ts env s →
    ∀ c ∈ s, ∀ clear ∈ clauseClears name c, clear.Affects env label →
      ∃ x, clear = .variable x ∧ v.SeesRemoval text ts label name s c x

end ShaclValidator

/-! ## The items of `REMOVE` -/

def endsSegment (d : Depth) (l : Lexeme) : Bool := (d.step l).atTop && l.isComma

theorem passesGroups_endsSegment : PassesGroups endsSegment where
  leaf := by
    intro d l hd hl
    unfold endsSegment
    rw [Depth.step_of_not_paren hl, hd.2.2.2, Bool.false_and]
  opener := by
    intro d opener _
    unfold endsSegment
    rw [isComma_of_kind TokenKind.noConfusion, Bool.and_false]
  closer := by
    intro d opener _ _
    unfold endsSegment
    rw [isComma_of_kind TokenKind.noConfusion, Bool.and_false]

theorem lexemesOf_segmentTokens (d : Depth) (ts : List CypherToken) :
    untilStop endsSegment d (lexemesOf ts) =
      (lexemesOf (segmentTokens d ts).1, lexemesOf (segmentTokens d ts).2) := by
  refine lexemesOf_scan segmentTokens endsSegment (fun _ => rfl) (fun _ _ _ => rfl) ?_ d ts
  intro d l hl
  unfold endsSegment
  rw [isComma_of_kind (not_punctuation_of_isTrivia hl), Bool.and_false]

/-- What is left after an item is nothing, or starts with the comma. -/
theorem segmentTokens_rest (d : Depth) (ts : List CypherToken) :
    (segmentTokens d ts).2.length ≤ ts.length ∧ ((segmentTokens d ts).2 = [] ∨
        ∃ t rest, (segmentTokens d ts).2 = t :: rest ∧ t.isComma = true) := by
  induction ts generalizing d with
  | nil => exact ⟨Nat.le_refl _, Or.inl rfl⟩
  | cons t ts ih =>
    unfold segmentTokens
    by_cases hstop : ((d.step t.toLexeme).atTop && t.isComma) = true
    · rw [if_pos hstop]
      exact ⟨Nat.le_refl _, Or.inr ⟨t, ts, rfl, (and_eq_true_iff.1 hstop).2⟩⟩
    · rw [if_neg hstop]
      rcases ih (d.step t.toLexeme) with ⟨hlength, hrest⟩
      exact ⟨Nat.le_succ_of_le hlength, hrest⟩

theorem commaParts_eq (ts : List Tree) :
    commaParts ts = (ts.takeWhile fun t => !t.isComma) ::
      match ts.dropWhile fun t => !t.isComma with
      | [] => []
      | _ :: us => commaParts us := by
  induction ts with
  | nil => rfl
  | cons t ts ih =>
    unfold commaParts at ih ⊢
    rw [segments, takeWhile_cons, dropWhile_cons]
    dsimp only
    by_cases hcomma : t.isComma = true
    · rw [if_pos hcomma, hcomma, Bool.not_true, if_neg Bool.false_ne_true,
        if_neg Bool.false_ne_true]
    · rw [if_neg hcomma, Bool.eq_false_iff.2 hcomma, Bool.not_false, if_pos rfl, if_pos rfl]
      rw [List.cons.injEq] at ih
      rw [ih.1, ih.2]

theorem segmentList_cons (fuel : Nat) (t : CypherToken) (ts : List CypherToken) :
    segmentList (fuel + 1) (t :: ts) = (segmentTokens {} (t :: ts)).1 ::
      segmentList fuel ((segmentTokens {} (t :: ts)).2.drop 1) := rfl

theorem mem_segmentList {fuel : Nat} : ∀ {tokens : List CypherToken} {ts item : List Tree},
    tokens.length ≤ fuel → BracketedAll ts → lexemesOf tokens = flattenAll ts →
    item ∈ commaParts ts → item ≠ [] →
    ∃ segment ∈ segmentList fuel tokens, lexemesOf segment = flattenAll item := by
  induction fuel with
  | zero =>
    intro tokens ts item hlength _ hlexemes hitem hne
    rw [length_eq_zero_iff.1 (Nat.le_zero.1 hlength), lexemesOf_nil] at hlexemes
    rw [flattenAll_eq_nil hlexemes.symm] at hitem
    exact absurd (mem_singleton.1 hitem) hne
  | succ fuel ih =>
    intro tokens ts item hlength hts hlexemes hitem hne
    rcases tokens with _ | ⟨t, tokens⟩
    · rw [lexemesOf_nil] at hlexemes
      rw [flattenAll_eq_nil hlexemes.symm] at hitem
      exact absurd (mem_singleton.1 hitem) hne
    · have hstop : untilStop endsSegment {} ([] : List Lexeme) = ([], []) := rfl
      have hcomma : ∀ l : Lexeme, l.kind ≠ .paren → endsSegment {} l = l.isComma := by
        intro l hl
        unfold endsSegment
        rw [Depth.step_of_not_paren hl]
        exact true_and _
      have hsplit := lexemesOf_segmentTokens {} (t :: tokens)
      rw [hlexemes] at hsplit
      have htop := untilStop_top passesGroups_endsSegment hcomma hstop ts hts
      rw [append_nil, append_nil] at htop
      rw [htop] at hsplit
      rcases Prod.mk.inj hsplit with ⟨hfirst, hrest⟩
      rw [commaParts_eq] at hitem
      rw [segmentList_cons]
      rcases mem_cons.1 hitem with rfl | hitem
      · exact ⟨_, mem_cons_self, hfirst.symm⟩
      · cases hdrop : ts.dropWhile fun t => !t.isComma with
        | nil =>
          rw [hdrop] at hitem
          cases hitem
        | cons u us =>
          rw [hdrop] at hitem hrest
          rcases isComma_of_dropWhile hdrop with ⟨l, rfl, -⟩
          rcases segmentTokens_rest {} (t :: tokens) with ⟨hle, hnil | ⟨v, rest, hv, hvcomma⟩⟩
          · rw [hnil, flattenAll_leaf] at hrest
            cases hrest
          · have hvtrivia : ¬ v.isTrivia = true := by
              intro htrivia
              rw [isComma_of_kind (not_punctuation_of_isTrivia htrivia)] at hvcomma
              cases hvcomma
            rw [hv, lexemesOf_cons, if_neg hvtrivia, flattenAll_leaf] at hrest
            rw [hv, length_cons] at hle
            have hus : BracketedAll us := by
              have hdropped := bracketedAll_dropWhile (p := fun t => !t.isComma) hts
              rw [hdrop] at hdropped
              simp only [BracketedAll] at hdropped
              exact hdropped.2
            have hshort : rest.length ≤ fuel := by
              rw [length_cons] at hlength hle
              omega
            rcases ih hshort hus (List.cons.inj hrest).2.symm hitem hne with
              ⟨segment, hsegment, hlex⟩
            refine ⟨segment, mem_cons_of_mem _ ?_, hlex⟩
            rw [hv, drop_one, tail_cons]
            exact hsegment

theorem lexemesOf_clauseBodyTokens (kw : String) (ts : List CypherToken) :
    lexemesOf (clauseBodyTokens kw ts) = (lexemesOf ts).dropWhile (·.isKeyword kw) := by
  induction ts with
  | nil => rfl
  | cons t ts ih =>
    unfold clauseBodyTokens at ih ⊢
    rw [dropWhile_cons]
    by_cases htrivia : t.isTrivia = true
    · rw [htrivia, Bool.true_or, if_pos rfl, lexemesOf_cons, if_pos htrivia]
      exact ih
    · have hlexemes : lexemesOf (t :: ts) = t.toLexeme :: lexemesOf ts := by
        rw [lexemesOf_cons, if_neg htrivia]
      rw [hlexemes, dropWhile_cons, Bool.eq_false_iff.2 htrivia, Bool.false_or]
      by_cases hkw : t.isKeyword kw = true
      · rw [if_pos hkw, if_pos hkw]
        exact ih
      · rw [if_neg hkw, if_neg hkw, hlexemes]

theorem dropWhile_flattenAll (kw : String) (ts : List Tree) :
    (flattenAll ts).dropWhile (·.isKeyword kw) = flattenAll (ts.dropWhile (·.isKeyword kw)) := by
  induction ts with
  | nil => simp only [flattenAll, dropWhile_nil]
  | cons t ts ih =>
    cases t with
    | leaf l =>
      have htree : (Tree.leaf l).isKeyword kw = l.isKeyword kw := rfl
      rw [flattenAll_leaf, dropWhile_cons, dropWhile_cons, htree]
      by_cases hkw : l.isKeyword kw = true
      · rw [if_pos hkw, if_pos hkw, ih]
      · rw [if_neg hkw, if_neg hkw, flattenAll_leaf]
    | group opener children =>
      rw [flattenAll_group, dropWhile_cons_of_neg, dropWhile_cons_of_neg, flattenAll_group]
      · exact false_ne_true
      · rw [isKeyword_of_kind TokenKind.noConfusion]
        exact false_ne_true

/-- Keywords in front do not change an item that starts with another lexeme. -/
theorem mem_commaParts_dropWhile {kw : String} {l : Lexeme} (hl : l.isKeyword kw = false)
    {rest : List Tree} : ∀ {ts : List Tree}, .leaf l :: rest ∈ commaParts ts →
    .leaf l :: rest ∈ commaParts (ts.dropWhile (·.isKeyword kw)) := by
  intro ts
  induction ts with
  | nil =>
    intro h
    cases mem_singleton.1 h
  | cons t ts ih =>
    intro h
    rw [dropWhile_cons]
    by_cases hkw : t.isKeyword kw = true
    · rw [if_pos hkw]
      cases t with
      | group opener children => cases hkw
      | leaf m =>
        have hcomma : (Tree.leaf m).isComma = false := by
          rw [isComma_leaf]
          exact isComma_of_kind (by rw [kind_of_isKeyword hkw]; exact TokenKind.noConfusion)
        refine ih ?_
        unfold commaParts at h ⊢
        rw [segments] at h
        dsimp only at h
        rw [hcomma, if_neg Bool.false_ne_true] at h
        rcases mem_cons.1 h with h | h
        · cases h
          rw [show (Tree.leaf l).isKeyword kw = l.isKeyword kw from rfl, hl] at hkw
          cases hkw
        · exact mem_cons_of_mem _ h
    · rw [if_neg hkw]
      exact h

/-- The items of `REMOVE` that the parser reads. -/
theorem mem_parseRemoveItems {tokens : List CypherToken} {us : List Tree} {kw l point p : Lexeme}
    (hus : BracketedAll us) (hkw : kw.isKeyword "REMOVE" = true)
    (hlexemes : lexemesOf tokens = kw :: flattenAll us)
    (hitem : [.leaf l, .leaf point, .leaf p] ∈ commaParts us) (hl : l.isName = true)
    (hpoint : point.isOperator '.' = true) (hp : p.isName = true) :
    ∃ item ∈ parseRemoveItems tokens, item.variableName = stripBackticks l.text ∧
      item.property = stripBackticks p.text := by
  have hlkw : l.isKeyword "REMOVE" = false := by
    by_contra hremove
    rw [not_eq_false] at hremove
    unfold Lexeme.isName at hl
    rw [kind_of_isKeyword hremove] at hl
    cases hl
  have hbody := lexemesOf_clauseBodyTokens "REMOVE" tokens
  rw [hlexemes, dropWhile_cons, if_pos hkw, dropWhile_flattenAll] at hbody
  have hlength : (clauseBodyTokens "REMOVE" tokens).length ≤ tokens.length :=
    (dropWhile_suffix _).length_le
  rcases mem_segmentList hlength (bracketedAll_dropWhile hus) hbody
    (mem_commaParts_dropWhile hlkw hitem) (cons_ne_nil _ _) with ⟨segment, hsegment, hlex⟩
  have hthree : flattenAll [.leaf l, .leaf point, .leaf p] = [l, point, p] := by
    simp only [flattenAll, Tree.flatten, singleton_append]
  rw [hthree] at hlex
  rcases map_eq_cons_iff.1 hlex with ⟨a, bs, hsignificant, rfl, hbs⟩
  rcases map_eq_cons_iff.1 hbs with ⟨b, cs, rfl, rfl, hcs⟩
  rcases map_eq_cons_iff.1 hcs with ⟨c, ds, rfl, rfl, hds⟩
  rw [map_eq_nil_iff.1 hds] at hsignificant
  have hparsed : parseRemoveSegment segment = some {
      variableName := stripBackticks a.text
      property := stripBackticks c.text
      span := ⟨a.span.start, c.span.stop⟩ } := by
    unfold parseRemoveSegment
    rw [hsignificant]
    dsimp only
    rw [hl, hpoint, hp]
    rfl
  exact ⟨_, mem_filterMap.2 ⟨segment, hsegment, hparsed⟩, rfl, rfl⟩

/-! ## What the validator sees -/

namespace ShaclValidator

/-- A pattern that the parser reads gives the variable its labels. -/
theorem variableLabels_of_mem {s : CypherStatement} {c : CypherClause} {x label : Text}
    {labels : List Text} (hc : c ∈ s.clauses) (hkind : (c.isMatch || c.isCreate) = true)
    (hbinding : (some x, labels) ∈ elementBindings (c.patterns.flatMap (·.elements)))
    (hlabel : label ∈ labels) : ∃ all, s.variableLabels x = some all ∧ label ∈ all := by
  rcases mem_filterMap.1 hbinding with ⟨e, he, heq⟩
  cases e with
  | relationship r => cases heq
  | node n =>
    rcases Prod.mk.inj (Option.some.inj heq) with ⟨hname, rfl⟩
    have hnode : n ∈ c.nodes := mem_filterMap.2 ⟨.node n, he, rfl⟩
    have hmem : n ∈ ((s.clauses.filter fun c => c.isMatch || c.isCreate).flatMap (·.nodes)).filter
        (·.variableName = some x) := by
      refine mem_filter.2 ⟨?_, decide_eq_true hname⟩
      exact mem_flatMap.2 ⟨c, mem_filter.2 ⟨hc, hkind⟩, hnode⟩
    unfold CypherStatement.variableLabels
    dsimp only
    rw [isEmpty_eq_false_iff.2 (ne_nil_of_mem hmem), if_neg Bool.false_ne_true]
    exact ⟨_, rfl, mem_eraseDups.2 (mem_flatMap.2 ⟨n, hmem, hlabel⟩)⟩

/-- A removal checked against a minimum count is reported as an error. -/
theorem error_of_validateRemoveItem {v : ShaclValidator} {labels : List Text} {label name : Text}
    {item : RemoveItem} (hrequires : v.RequiresDirectly label name) (hlabel : label ∈ labels)
    (hitem : item.property = name) :
    ∃ i ∈ v.validateRemoveItem v.activeRules labels item, i.severity = .error := by
  rcases hrequires with ⟨nodeType, prop, hprop, rc, hrc, hseverity, target, min, hmin, hne, htarget⟩
  refine ⟨buildIssue rc.1 "runtime.cypher.shacl.min_count_removed" prop.name.val, ?_, ?_⟩
  · unfold validateRemoveItem
    refine mem_flatMap.2 ⟨label, hlabel, ?_⟩
    rw [hitem, hprop]
    refine mem_flatMap.2 ⟨rc, hrc, ?_⟩
    rw [← mem_singleton.1 hmin]
    unfold checkRemoved
    dsimp only
    rw [htarget, if_neg]
    · exact mem_singleton_self _
    · intro h
      rcases h with h | h
      · exact hne h
      · cases h
  · unfold buildIssue
    rw [hseverity]

/-- No removal that the validator sees clears a required property. -/
theorem not_affects_of_seen {regex : Regex} {v : ShaclValidator} {text : Text} {ts : List Tree}
    {label name x : Text} {s : List (ClauseKind × List Tree)} {c : ClauseKind × List Tree}
    (h : v.Accepts regex text) (hreads : Reads text ts) (hc : c ∈ s) :
    ¬ v.SeesRemoval text ts label name s c x := by
  intro hsees
  rcases h with ⟨ast, issues, hparse, hissues, hclean⟩
  rcases statement_of_plain hparse hreads hsees.plain hsees.top with ⟨hs, s', hs', hclauses⟩
  have hknown : c.1 ≠ .unknown := by
    rw [hsees.remove]
    exact ClauseKind.noConfusion
  rcases exists_clauseReading hreads.bracketed hs hclauses hc hknown with ⟨c', head, l, us, hread⟩
  -- the item that the parser has of the removal
  have hitem : ∃ item ∈ c'.removeItems, item.variableName = x ∧ item.property = name := by
    rcases hsees.item with ⟨m, point, p, hitem, hm, hpoint, hp, rfl, rfl⟩
    have hword : l.isKeyword "REMOVE" = true := by
      have hheads : ∀ head ∈ clauseHeads, head.2.2 = .remove → head.1 = "REMOVE" := by
        decide
      have hword := hread.word
      rwa [hheads head hread.head_mem (hread.head_kind.symm.trans hsees.remove)] at hword
    rw [hread.trees, drop_one, tail_cons] at hitem
    rcases Option.bind_eq_some_iff.1 hparse with ⟨tokens, -, hast⟩
    have hitems := (clauseSpec_of_mem_parseAst hast hs' hread.mem).removeItems
    rw [if_pos (hread.clause_kind.trans hsees.remove)] at hitems
    rw [hitems]
    exact mem_parseRemoveItems hread.bracketed hword hread.lexemes hitem hm hpoint hp
  -- the label that it knows of the variable
  have hlabels : ∃ all, s'.variableLabels x = some all ∧ label ∈ all := by
    rcases hsees.bound with ⟨d, hd, hdkind, hreadable, labels, hbinding, hlabel⟩
    have hhas : d.1 ≠ .unknown ∧ d.1.hasPatterns = true ∧ d.1 ≠ .optionalMatch := by
      rcases hdkind with hdkind | hdkind | hdkind
      all_goals
        rw [hdkind]
        exact ⟨ClauseKind.noConfusion, rfl, ClauseKind.noConfusion⟩
    rcases exists_clauseReading hreads.bracketed hs hclauses hd hhas.1 with
      ⟨d', head', l', us', hread'⟩
    rcases patterns_of_readable hparse hs' hread' hhas.2.1 hhas.2.2 hreadable with
      ⟨keys, -, -, hbindings⟩
    have htail : treeBindings d.2 = treeBindings us' := by
      rw [hread'.trees]
      rfl
    rw [htail, ← hbindings] at hbinding
    refine variableLabels_of_mem hread'.mem ?_ hbinding hlabel
    unfold CypherClause.isMatch CypherClause.isCreate
    rw [hread'.clause_kind]
    rcases hdkind with hdkind | hdkind | hdkind
    all_goals
      rw [hdkind]
      rfl
  rcases hitem with ⟨item, hitem, hvariable, hproperty⟩
  rcases hlabels with ⟨all, hall, hlabel⟩
  rcases error_of_validateRemoveItem hsees.direct hlabel hproperty with ⟨i, hi, hseverity⟩
  refine hclean i ?_ hseverity
  rcases collect_mem hissues hs' with ⟨own, hown, hsub⟩
  rcases collect_mem hown hread.mem with ⟨own', hown', hsub'⟩
  refine hsub i (hsub' i ?_)
  unfold validateClause at hown'
  rw [hread.clause_kind, hsees.remove] at hown'
  rw [← Option.some_inj.1 hown']
  refine mem_flatMap.2 ⟨item, hitem, ?_⟩
  rw [hvariable, hall]
  exact hi

/-- In a text without reported errors the required properties are kept exactly when the
writes that the validator does not see keep them. -/
theorem requiredKept_iff {regex : Regex} {v : ShaclValidator} {text : Text}
    (h : v.Accepts regex text) : v.RequiredKept text ↔ v.UnseenWritesHarmless text := by
  constructor
  · intro hkept label name hrequires ts hreads env s hs c hc clear hclear haffects
    exact absurd haffects (hkept label name hrequires ts hreads env s hs c hc clear hclear)
  · intro hunseen label name hrequires ts hreads env s hs c hc clear hclear haffects
    rcases hunseen label name hrequires ts hreads env s hs c hc clear hclear haffects with
      ⟨x, -, hsees⟩
    exact not_affects_of_seen h hreads hc hsees

/-- The validator of an ontology whose customers need a name. -/
def nameValidator : ShaclValidator := new (fun _ => none) (requiredName [])

def naming : Text := "MATCH (n:Customer) SET n.name = 1".toList

theorem requiredKept_naming :
    nameValidator.RequiredKept naming ↔ nameValidator.UnseenWritesHarmless naming :=
  requiredKept_iff (show nameValidator.Accepts (fun _ => none) naming by
    refine ⟨(parse naming).get (by decide +kernel), [], ?_, by decide +kernel, ?_⟩
    · exact (Option.some_get _).symm
    · exact forall_mem_nil _)

def clearing : Text := "MATCH (n:Customer) SET n.name = null".toList

def clearingStatement : List (ClauseKind × List Tree) :=
  [(.matchClause, [.leaf ⟨.keyword, "MATCH".toList⟩, .group ['('] [.leaf ⟨.identifier, ['n']⟩,
      .leaf ⟨.operator, [':']⟩, .leaf ⟨.identifier, "Customer".toList⟩]]),
    (.set, [.leaf ⟨.keyword, "SET".toList⟩, .leaf ⟨.identifier, ['n']⟩, .leaf ⟨.operator, ['.']⟩,
      .leaf ⟨.identifier, "name".toList⟩, .leaf ⟨.operator, ['=']⟩,
      .leaf ⟨.keyword, "null".toList⟩])]

theorem nameValidator_requires : nameValidator.Requires "Customer".toList "name".toList := by
  refine ⟨_, _, rfl, _, mem_cons_self, rfl, _, _, mem_cons_self, ?_, rfl⟩
  decide

theorem clearing_not_kept :
    ¬ (nameValidator.Accepts (fun _ => none) clearing → nameValidator.RequiredKept clearing) := by
  intro h
  have haccepted : nameValidator.Accepts (fun _ => none) clearing := by
    refine ⟨(parse clearing).get (by decide +kernel), [], ?_, by decide +kernel, ?_⟩
    · exact (Option.some_get _).symm
    · exact forall_mem_nil _
  have hreads : Reads clearing (statementTrees clearingStatement) := by
    refine ⟨?_, by decide +kernel⟩
    simp [clearingStatement, statementTrees, BracketedAll, Tree.Bracketed]
  have hs : clearingStatement ∈ levelStatements (statementTrees clearingStatement) :=
    mem_cons_self
  refine h haccepted _ _ nameValidator_requires _ hreads _ _ (.top hs) _
    (mem_of_getElem? (i := 1) rfl) (.variable ['n']) mem_cons_self ?_
  exact ⟨["Customer".toList], mem_cons_self, mem_cons_self⟩

end ShaclValidator

end Ontosyx.Cypher
