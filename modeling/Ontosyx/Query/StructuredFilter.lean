import Mathlib.Data.List.ReduceOption
import Ontosyx.Lib.Checked
import Ontosyx.Query.Structured

/-!
# The filter of a structured query

What the filter of an accepted request says about its conditions.  `Carries` is
the purpose of a condition, stated without the conversion: a predicate with the
condition's variable, field, operator and value.  The conversion keeps that for a
condition whose value sits in a field its operator reads (`Fits`); a condition on
an invalid property name is dropped, as the source documents.

Nothing is promised for the other conditions: a list is accepted as the value of
a comparison and dropped by the conversion, a scalar is accepted as the value of
`in_list` and gives the empty list, and `2⁶³` is cut to the largest `i64`.

## Main results

* `toExpr_carries_iff` — when a condition becomes a test that carries it.
* `intoQueryIr_filter` — the filter of an accepted request, condition by condition.
-/

namespace Ontosyx.Query

open List Ontosyx.Core Lib.Checked List VariableName

/-- The value is the number that a double stands for. -/
def IsNumber (v : PropertyValue) (x : F64) : Prop :=
  v = .float x ∨ ∃ k : Int64, v = .int k ∧ (k.toInt : Rat) = x.value

def Condition.Gives (c : Condition) (v : PropertyValue) : Prop :=
  (∃ s, c.stringValue = some s ∧ v = .string s) ∨
  (∃ x, c.numberValue = some x ∧ IsNumber v x) ∨
  (∃ b, c.boolValue = some b ∧ v = .bool b) ∨
  (c.listValues ≠ [] ∧ v = .list (c.listValues.map .string))

/-- The members are the values that the condition gives: its list, or its one scalar. -/
def Condition.GivesMembers (c : Condition) (vs : List PropertyValue) : Prop :=
  if c.listValues = [] then ∃ v, vs = [v] ∧ c.Gives v else vs = c.listValues.map .string

def ConditionOp.test (prop value : Expr) : ConditionOp → Option Expr
  | .eq => some (.comparison prop .eq value)
  | .neq => some (.comparison prop .neq value)
  | .lt => some (.comparison prop .lt value)
  | .lte => some (.comparison prop .lte value)
  | .gt => some (.comparison prop .gt value)
  | .gte => some (.comparison prop .gte value)
  | .contains => some (.stringOp prop .contains value)
  | .startsWith => some (.stringOp prop .startsWith value)
  | .endsWith => some (.stringOp prop .endsWith value)
  | .inList | .isNull | .isNotNull => none

/-- The predicate has the condition's variable, field, operator and value. -/
def Condition.Carries (c : Condition) (e : Expr) : Prop :=
  ∃ key : PropertyKey, key.val = c.field ∧
    match c.op with
    | .isNull => e = .isNull (.property ⟨c.var⟩ (some key)) false
    | .isNotNull => e = .isNull (.property ⟨c.var⟩ (some key)) true
    | .inList => ∃ vs, c.GivesMembers vs ∧ e = .in_ (.property ⟨c.var⟩ (some key)) vs
    | op => ∃ v, c.Gives v ∧ op.test (.property ⟨c.var⟩ (some key)) (.literal v) = some e

/-- The test is that no relationship of the pattern exists. -/
def ExcludePattern.Excludes (x : ExcludePattern) (e : Expr) : Prop :=
  ∃ label : GraphLabel, label.val = x.relationshipLabel ∧
    e = .not (.exists_ (.relationship none (some label) ⟨x.source⟩ ⟨x.target⟩ .both [] none))

def conjunction : List Expr → Option Expr
  | [] => none
  | first :: rest => some (rest.foldl (fun acc e => .logical acc .and e) first)

/-! ## What the conversion does with one condition -/

/-- The value sits in a field that the operator reads, and is no number that the
cast to `i64` changes. -/
def Condition.Fits (c : Condition) : Prop :=
  match c.op with
  | .isNull | .isNotNull => True
  | .inList => c.listValues ≠ []
  | _ => c.listValues = [] ∧ ∀ x, c.numberValue = some x → x.value ≠ 2 ^ 63

/-- Validation leaves one value to an operator that needs one. -/
def Condition.OneValue (c : Condition) : Prop := c.op.needsValue = true → c.valueCount = 1

variable {s : String}

theorem VariableName.eq_of_new {v : VariableName} (h : new s = .ok v) : v = ⟨s⟩ := by
  rw [new] at h
  split at h
  · next w hw =>
      cases h
      rw [eq_of_sanitizeVariable hw]
  · cases h

theorem newLabel_eq_ok {l : GraphLabel} (h : newLabel s = .ok l) : l.val = s := by
  rw [newLabel, GraphLabel.new] at h
  by_cases hv : isValidGraphIdentifier s = true
  · rw [dif_pos hv] at h
    cases h
    rfl
  · rw [dif_neg hv] at h
    cases h

theorem PropertyKey.new_eq_some_iff {k : PropertyKey} : PropertyKey.new s = some k ↔ k.val = s := by
  rw [PropertyKey.new]
  constructor
  · intro h
    by_cases hv : isValidGraphIdentifier s = true
    · rw [dif_pos hv] at h
      cases h
      rfl
    · rw [dif_neg hv] at h
      cases h
  · intro h
    subst h
    rw [dif_pos k.valid]

theorem PropertyKey.new_eq_none_iff :
    PropertyKey.new s = none ↔ isValidGraphIdentifier s = false := by
  by_cases hv : isValidGraphIdentifier s = true
  · simp [PropertyKey.new, hv]
  · simp [PropertyKey.new, hv]

/-- The literal of a number is that number, except at `2⁶³`. -/
theorem isNumber_literal_iff (x : F64) :
    (∃ v, (if x.isWhole && x.inInt64Bounds then some (Expr.literal (.int x.toInt64))
        else some (.literal (.float x))) = some (.literal v) ∧ IsNumber v x) ↔
      x.value ≠ 2 ^ 63 := by
  by_cases hx : (x.isWhole && x.inInt64Bounds) = true
  · have hb := Bool.and_eq_true_iff.1 hx
    rw [if_pos hx, ← F64.toInt64_exact_iff hb.1 hb.2]
    simp [IsNumber]
  · rw [if_neg hx]
    constructor
    · intro _ hv
      exact hx (F64.bounds_of_value_eq hv)
    · intro _
      exact ⟨.float x, rfl, .inl rfl⟩

variable {c : Condition}

/-- The literal of a condition is the value it gives, except for a list, which
gives none, and for `2⁶³`. -/
theorem conditionValue_gives_iff (hone : c.valueCount = 1) :
    (∃ v, conditionValue c = some (.literal v) ∧ c.Gives v) ↔
      c.listValues = [] ∧ ∀ x, c.numberValue = some x → x.value ≠ 2 ^ 63 := by
  rw [Condition.valueCount] at hone
  cases hs : c.stringValue with
  | some s =>
    have hn : c.numberValue = none := by
      cases hn : c.numberValue with
      | none => rfl
      | some x =>
        simp only [hs, hn, Option.isSome_some, Bool.toNat_true] at hone
        omega
    have hl : c.listValues = [] := by
      cases hl : c.listValues with
      | nil => rfl
      | cons l ls => simp [hs, hn, hl] at hone
    simp [conditionValue, Condition.Gives, hs, hn, hl]
  | none =>
    cases hn : c.numberValue with
    | some x =>
      have hb : c.boolValue = none := by
        cases hb : c.boolValue with
        | none => rfl
        | some b =>
          simp only [hs, hn, hb, Option.isSome_some, Bool.toNat_true] at hone
          omega
      have hl : c.listValues = [] := by
        cases hl : c.listValues with
        | nil => rfl
        | cons l ls => simp [hs, hn, hb, hl] at hone
      simpa [conditionValue, Condition.Gives, hs, hn, hb, hl] using isNumber_literal_iff x
    | none =>
      cases hb : c.boolValue with
      | some b =>
        have hl : c.listValues = [] := by
          cases hl : c.listValues with
          | nil => rfl
          | cons l ls => simp [hs, hn, hb, hl] at hone
        simp [conditionValue, Condition.Gives, hs, hn, hb, hl]
      | none =>
        have hl : c.listValues ≠ [] := by
          intro hl
          simp [hs, hn, hb, hl] at hone
        simp [conditionValue, hs, hn, hb, hl]

/-- The members are the values a condition gives exactly when it gives a list. -/
theorem givesMembers_iff : c.GivesMembers (c.listValues.map .string) ↔ c.listValues ≠ [] := by
  by_cases hl : c.listValues = []
  · simp [Condition.GivesMembers, hl]
  · simp [Condition.GivesMembers, hl]

/-- An operator that compares with one value. -/
def ConditionOp.isBinary : ConditionOp → Bool
  | .inList | .isNull | .isNotNull => false
  | _ => true

theorem ConditionOp.exists_test {op : ConditionOp} (h : op.isBinary = true) (prop value : Expr) :
    ∃ e, op.test prop value = some e := by
  cases op <;> first | exact absurd h (by decide) | exact ⟨_, rfl⟩

/-- A test determines the value it compares with. -/
theorem ConditionOp.test_injective {op : ConditionOp} {prop a b e : Expr}
    (ha : op.test prop a = some e) (hb : op.test prop b = some e) : a = b := by
  cases op <;> simp [ConditionOp.test] at ha hb <;> rw [← hb] at ha <;> simpa using ha

section

variable {c : Condition} {key : PropertyKey}

/-- A condition on valid names, as the conversion sees it. -/
theorem toExpr_binary (hvar : new c.var = .ok ⟨c.var⟩)
    (hkey : PropertyKey.new c.field = some key) (hop : c.op.isBinary = true) : conditionToExpr c =
      (conditionValue c).bind fun value => c.op.test (.property ⟨c.var⟩ (some key)) value := by
  rw [conditionToExpr, hvar, hkey]
  cases hc : c.op <;> first | rfl | exact absurd (hc ▸ hop) (by decide)

theorem carries_binary_iff (hkey : PropertyKey.new c.field = some key)
    (hop : c.op.isBinary = true) {e : Expr} : c.Carries e ↔
      ∃ v, c.Gives v ∧ c.op.test (.property ⟨c.var⟩ (some key)) (.literal v) = some e := by
  have hval := PropertyKey.new_eq_some_iff.1 hkey
  have hcarries : c.Carries e ↔ ∃ k : PropertyKey, k.val = c.field ∧
      ∃ v, c.Gives v ∧ c.op.test (.property ⟨c.var⟩ (some k)) (.literal v) = some e := by
    rw [Condition.Carries]
    cases hc : c.op <;> first | exact Iff.rfl | exact absurd (hc ▸ hop) (by decide)
  rw [hcarries]
  constructor
  · intro h
    obtain ⟨k, hk, h⟩ := h
    rw [PropertyKey.ext (hk.trans hval.symm)] at h
    exact h
  · exact fun h => ⟨key, hval, h⟩

/-- A binary test carries its condition exactly when its literal is the value given. -/
theorem toExpr_carries_binary_iff (hvar : new c.var = .ok ⟨c.var⟩)
    (hkey : PropertyKey.new c.field = some key) (hop : c.op.isBinary = true) :
    (∃ e, conditionToExpr c = some e ∧ c.Carries e) ↔
      ∃ v, conditionValue c = some (.literal v) ∧ c.Gives v := by
  simp only [toExpr_binary hvar hkey hop, carries_binary_iff hkey hop]
  constructor
  · intro h
    obtain ⟨e, he, v, hv, htest⟩ := h
    obtain ⟨value, hvalue, hval⟩ := Option.bind_eq_some_iff.1 he
    rw [ConditionOp.test_injective hval htest] at hvalue
    exact ⟨v, hvalue, hv⟩
  · intro h
    obtain ⟨v, hvalue, hv⟩ := h
    obtain ⟨e, he⟩ := ConditionOp.exists_test hop (.property ⟨c.var⟩ (some key)) (.literal v)
    exact ⟨e, by rw [hvalue]; exact he, v, hv, he⟩

end

/-- When the conversion turns a condition into a test that carries it. -/
theorem toExpr_carries_iff (hvar : new c.var = .ok ⟨c.var⟩)
    (hone : c.OneValue) : (∃ e, conditionToExpr c = some e ∧ c.Carries e) ↔
      isValidGraphIdentifier c.field = true ∧ c.Fits := by
  cases hkey : PropertyKey.new c.field with
  | none =>
    have hv := PropertyKey.new_eq_none_iff.1 hkey
    simp [conditionToExpr, hvar, hkey, hv]
  | some key =>
    have hval := PropertyKey.new_eq_some_iff.1 hkey
    have hv : isValidGraphIdentifier c.field = true := hval ▸ key.valid
    by_cases hop : c.op.isBinary = true
    · have hneeds : c.op.needsValue = true := by
        cases hc : c.op <;> first | rfl | exact absurd (hc ▸ hop) (by decide)
      have hfits : c.Fits ↔
          c.listValues = [] ∧ ∀ x, c.numberValue = some x → x.value ≠ 2 ^ 63 := by
        rw [Condition.Fits]
        cases hc : c.op <;> first | exact Iff.rfl | exact absurd (hc ▸ hop) (by decide)
      rw [toExpr_carries_binary_iff hvar hkey hop,
        conditionValue_gives_iff (hone hneeds), hfits]
      exact (and_iff_right hv).symm
    · -- the two null tests and the list test name their values themselves
      have hvar' : (new c.var).toOption = some ⟨c.var⟩ := by
        rw [hvar]
        rfl
      cases hc : c.op
      case inList =>
        simp [conditionToExpr, hvar', hkey, hc, Condition.Carries, Condition.Fits, hv,
          ← givesMembers_iff, hval]
      case isNull =>
        simp [conditionToExpr, hvar', hkey, hc, Condition.Carries, Condition.Fits, hv, hval]
      case isNotNull =>
        simp [conditionToExpr, hvar', hkey, hc, Condition.Carries, Condition.Fits, hv, hval]
      all_goals exact absurd (hc ▸ rfl) hop

/-- A condition on an invalid property name is dropped. -/
theorem toExpr_of_invalid (h : isValidGraphIdentifier c.field = false) :
    conditionToExpr c = none := by
  rw [conditionToExpr, PropertyKey.new_eq_none_iff.2 h]
  cases (new c.var).toOption <;> rfl

theorem require_eq_ok_iff {ok : Bool} {field : String} : require ok field = .ok () ↔ ok = true := by
  cases ok <;> simp [require]

section

variable {q : StructuredMatchQuery}

/-- An accepted condition is on a declared node variable and has its one value. -/
theorem validate_condition (h : q.validate = .ok ()) {c : Condition} (hc : c ∈ q.conditions) :
    (∃ node ∈ q.nodes, node.var = c.var) ∧ c.OneValue := by
  obtain ⟨i, hi⟩ := mem_iff_getElem?.1 hc
  simp only [StructuredMatchQuery.validate, seq_eq_ok_iff, forM_eq_ok_iff] at h
  have hcond := h.2.2.2.2.2 (c, i) (mem_zipIdx_iff_getElem?.2 hi)
  simp only [StructuredMatchQuery.validateCondition, seq_eq_ok_iff, require_eq_ok_iff,
    StructuredMatchQuery.declares] at hcond
  refine ⟨?_, ?_⟩
  · have hdeclared := contains_iff_mem.1 hcond.1
    exact mem_map.1 hdeclared
  · intro hneeds
    simp only [hneeds, Bool.true_and, Bool.not_eq_true', beq_eq_false_iff_ne,
      decide_eq_false_iff_not] at hcond
    omega

/-- A node pattern that is converted has a valid variable. -/
theorem new_of_toPattern {node : NodePattern} {pattern : GraphPattern}
    (h : node.toPattern = .ok pattern) : new node.var = .ok ⟨node.var⟩ := by
  rw [NodePattern.toPattern, bind_eq_ok_iff] at h
  obtain ⟨v, hv, -⟩ := h
  rw [hv, eq_of_new hv]

/-- An exclude pattern that is converted becomes the test that it excludes. -/
theorem excludes_of_toExpr {x : ExcludePattern} {e : Expr} (h : x.toExpr = .ok e) :
    x.Excludes e := by
  rw [ExcludePattern.toExpr, bind_eq_ok_iff] at h
  obtain ⟨label, hlabel, h⟩ := h
  rw [bind_eq_ok_iff] at h
  obtain ⟨source, hsource, h⟩ := h
  rw [bind_eq_ok_iff] at h
  obtain ⟨target, htarget, h⟩ := h
  rw [pure_eq_ok_iff] at h
  rw [← h, eq_of_new hsource, eq_of_new htarget]
  exact ⟨label, newLabel_eq_ok hlabel, rfl⟩

end

theorem foldl_andAlso (tests excluded : List Expr) :
    excluded.foldl andAlso (conjunction tests) = conjunction (tests ++ excluded) := by
  induction excluded generalizing tests with
  | nil => simp
  | cons e es ih =>
    have hstep : andAlso (conjunction tests) e = conjunction (tests ++ [e]) := by
      cases tests with
      | nil => rfl
      | cons t ts => simp [andAlso, conjunction]
    rw [foldl_cons, hstep, ih]
    simp

/-- What an accepted request says about one condition: on an invalid property name
it is dropped, and a condition that fits becomes one test that carries it. -/
def Condition.Outcome (c : Condition) (part : Option Expr) : Prop :=
  (isValidGraphIdentifier c.field = false → part = none) ∧
  (isValidGraphIdentifier c.field = true → c.Fits → ∃ e, part = some e ∧ c.Carries e)

/-- The filter of `ir` is the conjunction of one test per condition, in order,
and one test per exclude pattern. -/
def StructuredMatchQuery.LosesNoCondition (q : StructuredMatchQuery) (ir : QueryIR) : Prop :=
  ∃ tests excluded patterns projections groupBy,
    Forall₂ Condition.Carries q.conditions tests ∧
    Forall₂ ExcludePattern.Excludes q.excludePatterns excluded ∧
    ir.operation = .match_ patterns (conjunction (tests ++ excluded)) projections false groupBy

/-- `LosesNoCondition` up to the conditions that do not fit: `parts` lists what
became of each condition. -/
def StructuredMatchQuery.AccountsForConditions (q : StructuredMatchQuery) (ir : QueryIR) : Prop :=
  ∃ parts excluded patterns projections groupBy,
    Forall₂ Condition.Outcome q.conditions parts ∧
    Forall₂ ExcludePattern.Excludes q.excludePatterns excluded ∧
    ir.operation = .match_ patterns (conjunction (parts.reduceOption ++ excluded)) projections
      false groupBy

theorem parts_of_intoQueryIr {q : StructuredMatchQuery} {ir : QueryIR}
    (h : q.intoQueryIr = .ok ir) : ∃ nodes relationships excluded groupBy, q.validate = .ok () ∧
      Forall₂ (fun node p => node.toPattern = .ok p) q.nodes nodes ∧
      Forall₂ (fun rel p => rel.toPattern = .ok p) q.relationships relationships ∧
      Forall₂ (fun x e => x.toExpr = .ok e) q.excludePatterns excluded ∧
      ir.operation = .match_ (nodes ++ relationships)
        (conjunction ((q.conditions.map conditionToExpr).reduceOption ++ excluded))
        (q.returns.map returnToProjection) false groupBy := by
  rw [StructuredMatchQuery.intoQueryIr, seq_eq_ok_iff] at h
  obtain ⟨hvalid, h⟩ := h
  rw [bind_eq_ok_iff] at h
  obtain ⟨nodes, hnodes, h⟩ := h
  rw [bind_eq_ok_iff] at h
  obtain ⟨relationships, hrelationships, h⟩ := h
  rw [bind_eq_ok_iff] at h
  obtain ⟨excluded, hexcluded, h⟩ := h
  rw [bind_eq_ok_iff] at h
  obtain ⟨groupBy, hgroupBy, h⟩ := h
  rw [seq_eq_ok_iff, pure_eq_ok_iff] at h
  have hfilter : conditionsToFilter q.conditions =
      conjunction (q.conditions.map conditionToExpr).reduceOption := by
    rw [reduceOption, filterMap_map]
    rfl
  refine ⟨nodes, relationships, excluded, groupBy, hvalid, forall₂_of_mapM hnodes,
    forall₂_of_mapM hrelationships, forall₂_of_mapM hexcluded, ?_⟩
  rw [← h.2, hfilter, foldl_andAlso]

/-- Every accepted request accounts for its conditions. -/
theorem intoQueryIr_filter {q : StructuredMatchQuery} {ir : QueryIR}
    (h : q.intoQueryIr = .ok ir) : q.AccountsForConditions ir := by
  obtain ⟨nodes, relationships, excluded, groupBy, hvalid, hnodes, -, hexcluded, hir⟩ :=
    parts_of_intoQueryIr h
  have hdeclared : ∀ node ∈ q.nodes, new node.var = .ok ⟨node.var⟩ := by
    intro node hnode
    obtain ⟨pattern, hpattern⟩ := exists_forall₂_iff.1 ⟨_, hnodes⟩ node hnode
    exact new_of_toPattern hpattern
  have houtcome : ∀ c ∈ q.conditions, c.Outcome (conditionToExpr c) := by
    intro c hc
    obtain ⟨⟨node, hnode, hvar⟩, hone⟩ := validate_condition hvalid hc
    have hnew : new c.var = .ok ⟨c.var⟩ := hvar ▸ hdeclared node hnode
    refine ⟨toExpr_of_invalid, ?_⟩
    intro hfield hfits
    exact (toExpr_carries_iff hnew hone).2 ⟨hfield, hfits⟩
  refine ⟨q.conditions.map conditionToExpr, excluded, nodes ++ relationships,
    q.returns.map returnToProjection, groupBy, ?_, ?_, hir⟩
  · rw [forall₂_map_right_iff, forall₂_same]
    exact houtcome
  · exact hexcluded.imp fun _ _ => excludes_of_toExpr

def productRequest (conditions : List Condition) : StructuredMatchQuery :=
  ⟨[⟨"p", "Product"⟩], [], conditions, [⟨"CONFLICTS_WITH", "p", "p"⟩],
    [⟨"p", none, none, none, none⟩], [], [], some 25, none⟩

/-- A condition on a name, and one on a list of countries. -/
def namedRequest : StructuredMatchQuery :=
  productRequest [⟨"p", "name", .contains, some "retinol", none, none, []⟩,
    ⟨"p", "country", .inList, none, none, none, ["Korea", "Japan"]⟩]

theorem intoQueryIr_filter_named :
    ∃ ir, namedRequest.intoQueryIr = .ok ir ∧ namedRequest.AccountsForConditions ir :=
  ⟨_, rfl, intoQueryIr_filter (q := namedRequest) rfl⟩

/-- A condition on a property name with a hyphen. -/
def hyphenatedRequest : StructuredMatchQuery :=
  productRequest [⟨"p", "unit-price", .eq, some "high", none, none, []⟩]

/-- The request is accepted, and the condition is gone from its filter. -/
theorem hyphenated_condition_dropped :
    ∃ ir, hyphenatedRequest.intoQueryIr = .ok ir ∧ ¬ hyphenatedRequest.LosesNoCondition ir := by
  refine ⟨_, rfl, ?_⟩
  intro h
  obtain ⟨tests, excluded, patterns, projections, groupBy, htests, -⟩ := h
  cases htests with
  | cons hcarries _ =>
    obtain ⟨key, hkey, -⟩ := hcarries
    have hvalid := key.valid
    rw [hkey] at hvalid
    exact absurd hvalid (by decide)

end Ontosyx.Query
