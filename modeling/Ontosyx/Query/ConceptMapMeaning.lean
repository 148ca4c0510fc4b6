import Ontosyx.Query.ConceptMap

/-!
# What a rewritten filter means

A filter over one mapped property, read on a stored value of the new vocabulary.
The codes of the filter are read as sets of codes: as themselves once the filter is
rewritten, as the sets of their translations before.  Truth has three values, as in
the query language: a comparison with `null` is neither true nor false.

## Main results

* `rewriteExpr_truth` — the rewritten filter is the filter over translated codes.
* `truth_congr` — the two readings of a compared code agree when it has one
  translation.
-/

namespace Ontosyx.Query

open List Ontosyx.Core Ontology Expr

/-- True, false, or neither. -/
abbrev Truth := Option Bool

namespace Truth

def and : Truth → Truth → Truth
  | some false, _ | _, some false => some false
  | some true, some true => some true
  | _, _ => none

def or : Truth → Truth → Truth
  | some true, _ | _, some true => some true
  | some false, some false => some false
  | _, _ => none

def not : Truth → Truth := Option.map Bool.not

@[simp] theorem or_false (a : Truth) : or (some false) a = a := by
  rcases a with - | - | - <;> rfl

theorem or_assoc (a b c : Truth) : or (or a b) c = or a (or b c) := by
  rcases a with - | - | - <;> rcases b with - | - | - <;> rcases c with - | - | - <;> rfl

theorem or_some (a b : Bool) : or (some a) (some b) = some (a || b) := by
  cases a <;> cases b <;> rfl

end Truth

/-! ## Readings of a filter -/

/-- How the codes of a filter are read: a code of `=` or `<>`, and a code of `IN`. -/
structure Reading where
  compared : String → List String
  member : String → List String

/-- Every code stands for itself. -/
def Reading.plain : Reading := ⟨fun c => [c], fun c => [c]⟩

/-- The admitted translations of a code, or the code itself. -/
def translationSet (cm : ConceptMapDef) (policy : TranslationPolicy) (code : String) :
    List String :=
  match translate cm code policy with
  | [] => [code]
  | ts => ts.map (·.targetCode)

/-- Every code stands for its admitted translations. -/
def Reading.translations (cm : ConceptMapDef) (policy : TranslationPolicy) : Reading :=
  ⟨translationSet cm policy, translationSet cm policy⟩

/-- A code of `IN` stands for its admitted translations, a compared one for the first
of them. -/
def Reading.firstTranslation (cm : ConceptMapDef) (policy : TranslationPolicy) : Reading :=
  ⟨fun code => [translatedCode cm policy code], translationSet cm policy⟩

/-- Whether the stored code is the value, with codes read as sets. -/
def equalTruth (read : String → List String) (stored : String) : PropertyValue → Truth
  | .null => none
  | .string code => some (decide (stored ∈ read code))
  | _ => some false

/-- Whether the stored code is one of the values. -/
def memberTruth (read : String → List String) (stored : String) : List PropertyValue → Truth
  | [] => some false
  | value :: values => (equalTruth read stored value).or (memberTruth read stored values)

def Expr.literalValue : Expr → Option PropertyValue
  | .literal value => some value
  | _ => none

/-- A comparison of the property with a literal, in either order. -/
def comparisonTruth (read : String → List String) (x : VariableName × PropertyKey)
    (stored : String) (left right : Expr) : Truth :=
  if left.propertyRef = some x then
    right.literalValue.bind (equalTruth read stored)
  else if right.propertyRef = some x then
    left.literalValue.bind (equalTruth read stored)
  else none

/-- The truth of a filter over the property `x` where its stored value is `stored`. -/
def Expr.truth (r : Reading) (x : VariableName × PropertyKey) (stored : String) : Expr → Truth
  | .comparison left .eq right => comparisonTruth r.compared x stored left right
  | .comparison left .neq right => (comparisonTruth r.compared x stored left right).not
  | .in_ expr values =>
    if expr.propertyRef = some x then memberTruth r.member stored values else none
  | .logical left .and right => (left.truth r x stored).and (right.truth r x stored)
  | .logical left .or right => (left.truth r x stored).or (right.truth r x stored)
  | .not inner => (inner.truth r x stored).not
  | _ => none

/-- The filters over one property that are built from `=`, `<>`, `IN`, `NOT`, `AND`
and `OR`. -/
inductive CodeFilter (x : VariableName × PropertyKey) : Expr → Prop where
  | compare {op : ComparisonOp} (hop : op = .eq ∨ op = .neq) (value : PropertyValue) :
      CodeFilter x (.comparison (.property x.1 (some x.2)) op (.literal value))
  | compareFlipped {op : ComparisonOp} (hop : op = .eq ∨ op = .neq) (value : PropertyValue) :
      CodeFilter x (.comparison (.literal value) op (.property x.1 (some x.2)))
  | member (values : List PropertyValue) : CodeFilter x (.in_ (.property x.1 (some x.2)) values)
  | not {e : Expr} (he : CodeFilter x e) : CodeFilter x (.not e)
  | and {e f : Expr} (he : CodeFilter x e) (hf : CodeFilter x f) : CodeFilter x (.logical e .and f)
  | or {e f : Expr} (he : CodeFilter x e) (hf : CodeFilter x f) : CodeFilter x (.logical e .or f)

/-- The codes that a filter compares by `=` or `<>`. -/
def Expr.comparedCodes : Expr → List String
  | .comparison left _ right => left.code.toList ++ right.code.toList
  | .logical left _ right => left.comparedCodes ++ right.comparedCodes
  | .not inner => inner.comparedCodes
  | _ => []

/-! ## The rewritten filter -/

section

variable {cm : ConceptMapDef} {policy : TranslationPolicy} {stored : String}

theorem memberTruth_append (read : String → List String) (xs ys : List PropertyValue) :
    memberTruth read stored (xs ++ ys) =
      (memberTruth read stored xs).or (memberTruth read stored ys) := by
  induction xs with
  | nil => rw [nil_append, memberTruth, Truth.or_false]
  | cons x xs ih => rw [cons_append, memberTruth, ih, memberTruth, Truth.or_assoc]

theorem memberTruth_codes (codes : List String) :
    memberTruth Reading.plain.member stored (codes.map PropertyValue.string) =
      some (decide (stored ∈ codes)) := by
  induction codes with
  | nil => rfl
  | cons c cs ih =>
    rw [map_cons, memberTruth, ih, equalTruth, Truth.or_some]
    simp [Reading.plain]

/-- One value of a rewritten `IN` list. -/
theorem memberTruth_translatedMember (value : PropertyValue) :
    memberTruth Reading.plain.member stored (translatedMember cm policy value) =
      equalTruth (translationSet cm policy) stored value := by
  cases value with
  | string code =>
    rw [translatedMember, equalTruth, translationSet]
    cases translate cm code policy with
    | nil => exact memberTruth_codes [code]
    | cons t ts =>
      have h := @memberTruth_codes stored ((t :: ts).map (·.targetCode))
      rw [map_map] at h
      exact h
  | null => rfl
  | _ => rfl

theorem memberTruth_rewritten (values : List PropertyValue) :
    memberTruth Reading.plain.member stored (values.flatMap (translatedMember cm policy)) =
      memberTruth (translationSet cm policy) stored values := by
  induction values with
  | nil => rfl
  | cons value values ih =>
    rw [flatMap_cons, memberTruth_append, ih, memberTruth_translatedMember, memberTruth]

theorem equalTruth_rewritten {e : Expr} {value : PropertyValue} (v : VariableName)
    (p : PropertyKey) (he : e = .literal value) :
    ((rewriteValueInPlace v p e cm policy).1.literalValue.bind
        (equalTruth Reading.plain.compared stored)) =
      equalTruth (Reading.firstTranslation cm policy).compared stored value := by
  rw [inPlace_fst, he]
  cases value <;> rfl

variable {table : TranslationTable} {x : VariableName × PropertyKey}

theorem comparison_rewritten (ht : tableGet table x = some (cm, policy)) {op : ComparisonOp}
    (hop : op = .eq ∨ op = .neq) (value : PropertyValue) : ∃ literal : Expr,
      (rewriteExpr table (.comparison (.property x.1 (some x.2)) op (.literal value))).1 =
          .comparison (.property x.1 (some x.2)) op literal ∧
        (rewriteExpr table (.comparison (.literal value) op (.property x.1 (some x.2)))).1 =
          .comparison literal op (.property x.1 (some x.2)) ∧ literal.propertyRef = none ∧
        literal.literalValue.bind (equalTruth Reading.plain.compared stored) =
          equalTruth (Reading.firstTranslation cm policy).compared stored value := by
  have hprop : ∀ f : Expr, rewriteComparison table (.property x.1 (some x.2)) f =
      rewriteValueInPlace x.1 x.2 f cm policy := by
    intro f
    simp only [rewriteComparison, propertyRef, rewriteAgainst, ht]
  have hnone : ∀ f g : Expr, f.propertyRef = none → rewriteComparison table f g = (g, {}) := by
    intro f g hf
    simp only [rewriteComparison, hf]
  have hr : (rewriteValueInPlace x.1 x.2 (.literal value) cm policy).1.propertyRef = none := by
    rw [inPlace_fst]
    cases value <;> rfl
  refine ⟨(rewriteValueInPlace x.1 x.2 (.literal value) cm policy).1, ?_, ?_, hr,
    equalTruth_rewritten x.1 x.2 rfl⟩
  · rcases hop with rfl | rfl <;> simp only [rewriteExpr, hprop, hnone _ _ hr]
  · have hl : (literal value).propertyRef = none := rfl
    rcases hop with rfl | rfl <;> simp only [rewriteExpr, hprop, hnone _ _ hl]

/-- The rewritten filter, read as it stands, is the filter with its codes read by
their translations, a compared code by its first one. -/
theorem truth_rewriteExpr (ht : tableGet table x = some (cm, policy)) {e : Expr}
    (he : CodeFilter x e) : (rewriteExpr table e).1.truth Reading.plain x stored =
      e.truth (Reading.firstTranslation cm policy) x stored := by
  induction he with
  | compare hop value =>
    obtain ⟨literal, hl, -, -, hv⟩ :=
      @comparison_rewritten cm policy stored table x ht _ hop value
    rw [hl]
    have hx : (property x.1 (some x.2)).propertyRef = some x := rfl
    have hc : ∀ r : Reading, ∀ f : Expr, comparisonTruth r.compared x stored
        (.property x.1 (some x.2)) f = f.literalValue.bind (equalTruth r.compared stored) :=
      fun r f => if_pos hx
    rcases hop with rfl | rfl
    · rw [truth, truth, hc, hc, hv]
      rfl
    · rw [truth, truth, hc, hc, hv]
      rfl
  | compareFlipped hop value =>
    obtain ⟨literal, -, hl, hn, hv⟩ :=
      @comparison_rewritten cm policy stored table x ht _ hop value
    rw [hl]
    have hc : ∀ r : Reading, ∀ f : Expr, f.propertyRef = none →
        comparisonTruth r.compared x stored f (.property x.1 (some x.2)) =
          f.literalValue.bind (equalTruth r.compared stored) := by
      intro r f hf
      rw [comparisonTruth, hf, if_neg (by simp)]
      exact if_pos rfl
    rcases hop with rfl | rfl
    · rw [truth, truth, hc _ _ hn, hc _ _ rfl, hv]
      rfl
    · rw [truth, truth, hc _ _ hn, hc _ _ rfl, hv]
      rfl
  | member values =>
    have hin : (rewriteExpr table (.in_ (.property x.1 (some x.2)) values)).1 =
        .in_ (.property x.1 (some x.2)) (values.flatMap (translatedMember cm policy)) := by
      simp only [rewriteExpr, propertyRef, ht, rewriteInValues_fst]
    rw [hin, truth, truth, memberTruth_rewritten]
    rfl
  | not _ ih =>
    rw [truth, ← ih]
    rfl
  | and _ _ ihe ihf | or _ _ ihe ihf =>
    rw [truth, ← ihe, ← ihf]
    rfl

def OneTranslation (cm : ConceptMapDef) (policy : TranslationPolicy) (code : String) : Prop :=
  ∀ t ∈ translate cm code policy, ∀ u ∈ translate cm code policy, t.targetCode = u.targetCode

instance (code : String) : Decidable (OneTranslation cm policy code) :=
  inferInstanceAs (Decidable (∀ t ∈ translate cm code policy, ∀ u ∈ translate cm code policy,
    t.targetCode = u.targetCode))

/-- The two readings of a code that has one translation. -/
theorem mem_translationSet_iff {code : String} (h : OneTranslation cm policy code) :
    stored ∈ translationSet cm policy code ↔ stored ∈ [translatedCode cm policy code] := by
  rw [translationSet, translatedCode]
  cases ht : translate cm code policy with
  | nil => exact Iff.rfl
  | cons t ts =>
    rw [mem_singleton, mem_map]
    constructor
    · intro hs
      obtain ⟨u, hu, hus⟩ := hs
      rw [← hus]
      exact h u (ht ▸ hu) t (ht ▸ mem_cons_self ..)
    · intro hs
      exact ⟨t, mem_cons_self .., hs.symm⟩

theorem equalTruth_congr {value : PropertyValue}
    (h : ∀ code, value = .string code → OneTranslation cm policy code) :
    equalTruth (Reading.firstTranslation cm policy).compared stored value =
      equalTruth (Reading.translations cm policy).compared stored value := by
  cases value with
  | string code =>
    have hc := @mem_translationSet_iff cm policy stored code (h code rfl)
    exact congrArg some (decide_eq_decide.2 hc.symm)
  | _ => rfl

theorem comparisonTruth_congr {left right : Expr}
    (h : ∀ code ∈ left.code.toList ++ right.code.toList, OneTranslation cm policy code) :
    comparisonTruth (Reading.firstTranslation cm policy).compared x stored left right =
      comparisonTruth (Reading.translations cm policy).compared x stored left right := by
  have hone : ∀ f : Expr, (∀ code ∈ f.code.toList, OneTranslation cm policy code) →
      f.literalValue.bind (equalTruth (Reading.firstTranslation cm policy).compared stored) =
        f.literalValue.bind (equalTruth (Reading.translations cm policy).compared stored) := by
    intro f hf
    cases f with
    | literal value =>
      apply equalTruth_congr
      intro code hc
      rw [hc] at hf
      exact hf code (mem_singleton_self _)
    | _ => rfl
  simp only [comparisonTruth]
  rw [hone left fun code hc => h code (mem_append_left _ hc),
    hone right fun code hc => h code (mem_append_right _ hc)]

/-- The two readings of a filter agree when each compared code has one translation. -/
theorem truth_congr {e : Expr} (he : CodeFilter x e)
    (h : ∀ code ∈ e.comparedCodes, OneTranslation cm policy code) :
    e.truth (Reading.firstTranslation cm policy) x stored =
      e.truth (Reading.translations cm policy) x stored := by
  induction he with
  | compare hop value | compareFlipped hop value =>
    rcases hop with rfl | rfl <;> rw [truth, truth, comparisonTruth_congr h]
  | member values => rfl
  | not _ ih => rw [truth, truth, ih h]
  | and _ _ ihe ihf | or _ _ ihe ihf =>
    rw [truth, truth, ihe fun code hc => h code (mem_append_left _ hc),
      ihf fun code hc => h code (mem_append_right _ hc)]

end

/-- The rewritten filter holds of a stored code exactly when the filter does with its
codes read by their admitted translations, where a code that `=` or `<>` compares
counts by its first translation; and the first one may be read as all of them where
each compared code has only one. -/
theorem rewriteExpr_truth {table : TranslationTable} {x : VariableName × PropertyKey}
    {cm : ConceptMapDef} {policy : TranslationPolicy} (ht : tableGet table x = some (cm, policy))
    {e : Expr} (he : CodeFilter x e) (stored : String) :
    ((rewriteExpr table e).1.truth Reading.plain x stored =
        e.truth (Reading.firstTranslation cm policy) x stored) ∧
      ((∀ code ∈ e.comparedCodes, OneTranslation cm policy code) →
        (rewriteExpr table e).1.truth Reading.plain x stored =
          e.truth (Reading.translations cm policy) x stored) := by
  refine ⟨truth_rewriteExpr ht he, fun h => ?_⟩
  rw [truth_rewriteExpr ht he, truth_congr he h]

/-- A map that renames one code and splits another one in two. -/
def splitCode : ConceptMapDef where
  id := ⟨"cm"⟩
  name := "split"
  sourceSystemId := ⟨"old"⟩
  targetSystemId := ⟨"new"⟩
  mappings :=
    [⟨"A001", "NEWA001", .equivalent⟩, ⟨"C003", "NEWC003A", .equivalent⟩,
      ⟨"C003", "NEWC003B", .equivalent⟩]

/-- A comparison of `s.status` with a code. -/
def statusIs (op : ComparisonOp) (code : String) : Expr :=
  .comparison (.property ⟨"s"⟩ (some ⟨"status", by decide⟩)) op (.literal (.string code))

theorem rewriteExpr_truth_renamed :
    (rewriteExpr [((⟨"s"⟩, ⟨"status", by decide⟩), (splitCode, {}))] (statusIs .neq "A001")).1.truth
        Reading.plain (⟨"s"⟩, ⟨"status", by decide⟩) "NEWC003A" =
      (statusIs .neq "A001").truth (Reading.translations splitCode {})
        (⟨"s"⟩, ⟨"status", by decide⟩) "NEWC003A" :=
  (rewriteExpr_truth rfl (.compare (Or.inr rfl) _) "NEWC003A").2 (by decide)

/-- `s.status = 'C003'` stands for two new codes, and the rewritten filter finds the
first one only. -/
theorem split_code_not_preserved : CodeFilter (⟨"s"⟩, ⟨"status", by decide⟩) (statusIs .eq "C003") ∧
      (rewriteExpr [((⟨"s"⟩, ⟨"status", by decide⟩), (splitCode, {}))]
          (statusIs .eq "C003")).1.truth Reading.plain (⟨"s"⟩, ⟨"status", by decide⟩) "NEWC003B" ≠
        (statusIs .eq "C003").truth (Reading.translations splitCode {})
          (⟨"s"⟩, ⟨"status", by decide⟩) "NEWC003B" := by
  refine ⟨.compare (Or.inl rfl) _, ?_⟩
  decide

end Ontosyx.Query
