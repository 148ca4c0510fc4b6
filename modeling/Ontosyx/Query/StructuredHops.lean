import Ontosyx.Query.StructuredFilter

/-!
# The hops of a structured query

The model gives the hop bounds of a relationship as two optional numbers.  The conversion reads
oversized bounds as missing ones, and a missing upper bound compiles to an unbounded traversal.

## Main results

* `hopsSound_iff` — which requests of a relationship are read well.
* `hopsKept_iff` — which queries are.
-/

namespace Ontosyx.Query

open List Ontosyx.Core Option Lib.Checked List

/-- The numbers of hops a pattern stands for; without an upper bound there is no end. -/
structure Hops where
  lower : Nat
  upper : Option Nat
deriving DecidableEq

/-- What `*min..max` means: a missing lower bound is one hop. -/
def VarLength.hops (vl : VarLength) : Hops := ⟨vl.min.getD 1, vl.max⟩

/-- The hops of a relationship pattern, which is a single one without a length. -/
def GraphPattern.hopCounts : GraphPattern → Option Hops
  | .relationship _ _ _ _ _ _ varLength => some ((varLength.map VarLength.hops).getD ⟨1, some 1⟩)
  | .node _ _ _ | .path _ => none

/-- A range that ends, below the limit. -/
def Hops.Bounded (h : Hops) : Prop :=
  ∃ upper, h.upper = some upper ∧ h.lower ≤ upper ∧ upper ≤ MAX_HOPS

/-- The requested range, reordered when it is reversed. -/
def RelationshipPattern.Requests (rel : RelationshipPattern) (h : Hops) : Prop :=
  ∀ mn mx, rel.minHops = some mn → rel.maxHops = some mx → mn ≤ MAX_HOPS → mx ≤ MAX_HOPS →
    h = ⟨Nat.min mn mx, some (Nat.max mn mx)⟩

def RelationshipPattern.hops (rel : RelationshipPattern) : Hops :=
  (rel.varLength.map VarLength.hops).getD ⟨1, some 1⟩

/-- A lower bound within the limit that is not zero has an upper bound within the limit, and
an upper bound of zero has such a lower bound. -/
structure RelationshipPattern.HopsSupported (rel : RelationshipPattern) : Prop where
  upper : ∀ mn, rel.minHops = some mn → mn ≤ MAX_HOPS → mn ≠ 0 →
    ∃ mx, rel.maxHops = some mx ∧ mx ≤ MAX_HOPS
  lower : rel.maxHops = some 0 → ∃ mn, rel.minHops = some mn ∧ mn ≤ MAX_HOPS ∧ mn ≠ 0

/-- The hops of two bounds within the limit. -/
def boundsHops : Option Nat → Option Nat → Hops
  | none, none => ⟨1, some 1⟩
  | some 0, none => ⟨1, some 1⟩
  | some mn, none => ⟨mn, none⟩
  | none, some mx => ⟨1, some mx⟩
  | some 0, some 0 => ⟨1, some 1⟩
  | some mn, some mx => ⟨Nat.min mn mx, some (Nat.max mn mx)⟩

theorem hops_eq (rel : RelationshipPattern) :
    rel.hops = boundsHops (rel.minHops.filter (· ≤ MAX_HOPS))
      (rel.maxHops.filter (· ≤ MAX_HOPS)) := by
  unfold RelationshipPattern.hops RelationshipPattern.varLength
  generalize rel.minHops.filter (· ≤ MAX_HOPS) = mn
  generalize rel.maxHops.filter (· ≤ MAX_HOPS) = mx
  rcases mn with _ | _ | _ | mn <;> rcases mx with _ | _ | _ | mx <;>
    simp [boundsHops, VarLength.hops]
  split_ifs with h
  · simp [Nat.min_eq_right h.le, Nat.max_eq_left h.le, VarLength.hops]
  · simp [Nat.min_eq_left (not_lt.1 h), Nat.max_eq_right (not_lt.1 h), VarLength.hops]

/-- The hops of a relationship are bounded and as requested exactly when its bounds are
supported. -/
theorem hopsSound_iff (rel : RelationshipPattern) :
    (rel.hops.Bounded ∧ rel.Requests rel.hops) ↔ rel.HopsSupported := by
  unfold RelationshipPattern.Requests
  rw [hops_eq]
  constructor
  · intro ⟨hbounded, hrequests⟩
    constructor
    · intro mn hmn hle hne
      by_contra hnone
      have hmax : rel.maxHops.filter (· ≤ MAX_HOPS) = none := by
        rw [filter_eq_none_iff]
        intro mx hmx
        simpa using fun hmax => hnone ⟨mx, hmx, hmax⟩
      obtain ⟨k, rfl⟩ := Nat.exists_eq_succ_of_ne_zero hne
      rw [hmax, hmn, filter_some_pos (by simpa using hle)] at hbounded
      obtain ⟨_, hupper, -⟩ := hbounded
      cases hupper
    · intro hmx
      by_contra hnone
      cases hmn : rel.minHops.filter (· ≤ MAX_HOPS) with
      | none =>
        rw [hmn, hmx] at hbounded
        obtain ⟨_, hupper, hle, -⟩ := hbounded
        cases hupper
        cases hle
      | some mn =>
        obtain ⟨hmin, hle⟩ := filter_eq_some_iff.1 hmn
        have hle : mn ≤ MAX_HOPS := by simpa using hle
        obtain rfl : mn = 0 := by
          by_contra hne
          exact hnone ⟨mn, hmin, hle, hne⟩
        rw [hmn, hmx] at hrequests
        cases hrequests 0 0 hmin rfl (Nat.zero_le _) (Nat.zero_le _)
  · intro h
    have hin {x : Option Nat} {m : Nat} (hm : x.filter (· ≤ MAX_HOPS) = some m) :
        x = some m ∧ m ≤ MAX_HOPS := by
      obtain ⟨hx, hle⟩ := filter_eq_some_iff.1 hm
      exact ⟨hx, by simpa using hle⟩
    have hout {x : Option Nat} (hx : x.filter (· ≤ MAX_HOPS) = none) {m : Nat} (hm : x = some m)
        (hle : m ≤ MAX_HOPS) : False := by
      rw [hm, filter_some_pos (by simpa using hle)] at hx
      cases hx
    cases hmn : rel.minHops.filter (· ≤ MAX_HOPS) with
    | none =>
      refine ⟨?_, fun mn mx hmin _ hle _ => (hout hmn hmin hle).elim⟩
      cases hmx : rel.maxHops.filter (· ≤ MAX_HOPS) with
      | none => exact ⟨1, rfl, le_rfl, by decide⟩
      | some mx =>
        obtain ⟨hmax, hle⟩ := hin hmx
        have hpos : 1 ≤ mx := by
          by_contra hzero
          obtain rfl : mx = 0 := by omega
          obtain ⟨mn, hmin, hle', -⟩ := h.lower hmax
          exact hout hmn hmin hle'
        exact ⟨mx, rfl, hpos, hle⟩
    | some mn =>
      obtain ⟨hmin, hle⟩ := hin hmn
      cases hmx : rel.maxHops.filter (· ≤ MAX_HOPS) with
      | none =>
        refine ⟨?_, fun mn mx _ hmax _ hle' => (hout hmx hmax hle').elim⟩
        cases mn with
        | zero => exact ⟨1, rfl, le_rfl, by decide⟩
        | succ mn =>
          obtain ⟨mx, hmax, hle'⟩ := h.upper _ hmin hle (Nat.succ_ne_zero mn)
          exact (hout hmx hmax hle').elim
      | some mx =>
        obtain ⟨hmax, hle'⟩ := hin hmx
        have hboth : boundsHops (some mn) (some mx) =
            ⟨Nat.min mn mx, some (Nat.max mn mx)⟩ := by
          cases mn with
          | succ mn => rfl
          | zero =>
            cases mx with
            | succ mx => rfl
            | zero =>
              obtain ⟨mn, hmin', -, hne⟩ := h.lower hmax
              exact (hne (Option.some.inj (hmin'.symm.trans hmin))).elim
        rw [hboth]
        refine ⟨⟨_, rfl, Nat.le_trans (Nat.min_le_left _ _) (Nat.le_max_left _ _),
          Nat.max_le.2 ⟨hle, hle'⟩⟩, fun mn' mx' hmin' hmax' _ _ => ?_⟩
        rw [Option.some.inj (hmin.symm.trans hmin'), Option.some.inj (hmax.symm.trans hmax')]

/-! ## The patterns of a query -/

/-- The pattern stands under an `EXISTS` of the expression, outside of subqueries. -/
inductive Expr.Tests (p : GraphPattern) : Expr → Prop
  | exists_ : Tests p (.exists_ p)
  | not {e : Expr} (h : Tests p e) : Tests p (.not e)
  | logicalLeft {e e' : Expr} {op : LogicalOp} (h : Tests p e) : Tests p (.logical e op e')
  | logicalRight {e e' : Expr} {op : LogicalOp} (h : Tests p e') : Tests p (.logical e op e')
  | comparisonLeft {e e' : Expr} {op : ComparisonOp} (h : Tests p e) : Tests p (.comparison e op e')
  | comparisonRight {e e' : Expr} {op : ComparisonOp} (h : Tests p e') :
      Tests p (.comparison e op e')
  | stringOpLeft {e e' : Expr} {op : StringOp} (h : Tests p e) : Tests p (.stringOp e op e')
  | stringOpRight {e e' : Expr} {op : StringOp} (h : Tests p e') : Tests p (.stringOp e op e')
  | in_ {e : Expr} {values : List PropertyValue} (h : Tests p e) : Tests p (.in_ e values)
  | isNull {e : Expr} {negated : Bool} (h : Tests p e) : Tests p (.isNull e negated)
  | argument {function : GraphFunction} {args : List Expr} {e : Expr} (he : e ∈ args)
      (h : Tests p e) : Tests p (.functionCall function args)
  | operand {e : Expr} {clauses : List WhenClause} {other : Option Expr} (h : Tests p e) :
      Tests p (.case_ (some e) clauses other)
  | condition {e : Option Expr} {clauses : List WhenClause} {other : Option Expr}
      {clause : WhenClause} (hmem : clause ∈ clauses) (h : Tests p clause.condition) :
      Tests p (.case_ e clauses other)
  | result {e : Option Expr} {clauses : List WhenClause} {other : Option Expr}
      {clause : WhenClause} (hmem : clause ∈ clauses) (h : Tests p clause.result) :
      Tests p (.case_ e clauses other)
  | elseResult {e : Option Expr} {clauses : List WhenClause} {other : Expr} (h : Tests p other) :
      Tests p (.case_ e clauses (some other))

/-- The patterns a match query asks for, and those it tests for. -/
def QueryIR.Matches (qir : QueryIR) (p : GraphPattern) : Prop :=
  match qir.operation with
  | .match_ patterns filter _ _ _ => p ∈ patterns ∨ ∃ e, filter = some e ∧ e.Tests p
  | _ => False

/-- The patterns of the relationships follow those of the nodes. -/
def QueryIR.pattern? (qir : QueryIR) (i : Nat) : Option GraphPattern :=
  match qir.operation with
  | .match_ patterns _ _ _ _ => patterns[i]?
  | _ => none

/-- Every relationship pattern has a range that ends below the limit, and a relationship with
two bounds within the limit the range it asks for. -/
structure StructuredMatchQuery.HopsKept (q : StructuredMatchQuery) (qir : QueryIR) : Prop where
  bounded : ∀ p, qir.Matches p → ∀ h, p.hopCounts = some h → h.Bounded
  requested : ∀ i rel, q.relationships[i]? = some rel → ∃ p h,
    qir.pattern? (q.nodes.length + i) = some p ∧ p.hopCounts = some h ∧ rel.Requests h

variable {p : GraphPattern}

theorem hops_of_toPattern {rel : RelationshipPattern} (h : rel.toPattern = .ok p) :
    p.hopCounts = some rel.hops := by
  rw [RelationshipPattern.toPattern, bind_eq_ok_iff] at h
  obtain ⟨label, -, h⟩ := h
  rw [bind_eq_ok_iff] at h
  obtain ⟨source, -, h⟩ := h
  rw [bind_eq_ok_iff] at h
  obtain ⟨target, -, h⟩ := h
  rw [← pure_eq_ok_iff.1 h]
  rfl

theorem hops_of_nodePattern {node : NodePattern} (h : node.toPattern = .ok p) :
    p.hopCounts = none := by
  rw [NodePattern.toPattern, bind_eq_ok_iff] at h
  obtain ⟨v, -, h⟩ := h
  rw [bind_eq_ok_iff] at h
  obtain ⟨label, -, h⟩ := h
  rw [← pure_eq_ok_iff.1 h]
  rfl

theorem not_tests_of_toExpr {c : Condition} {e : Expr} (h : conditionToExpr c = some e)
    (p : GraphPattern) : ¬ e.Tests p := by
  have hvalue {v : Expr} (hv : conditionValue c = some v) : ¬ v.Tests p := by
    unfold conditionValue at hv
    split at hv
    · cases hv
      intro htests
      cases htests
    · split at hv
      · split at hv
        · cases hv
          intro htests
          cases htests
        · cases hv
          intro htests
          cases htests
      · obtain ⟨b, -, rfl⟩ := map_eq_some_iff.1 hv
        intro htests
        cases htests
  obtain ⟨var, -, h⟩ := bind_eq_some_iff.1 h
  obtain ⟨field, -, h⟩ := bind_eq_some_iff.1 h
  have hprop : ¬ (Expr.property var (some field)).Tests p := by
    intro h
    cases h
  cases hop : c.op with
  | isNull | isNotNull =>
    rw [hop] at h
    cases h
    intro htests
    cases htests with
    | isNull h => exact hprop h
  | inList =>
    rw [hop] at h
    cases h
    intro htests
    cases htests with
    | in_ h => exact hprop h
  | eq | neq | lt | lte | gt | gte =>
    rw [hop] at h
    obtain ⟨v, hv, h⟩ := bind_eq_some_iff.1 h
    cases h
    intro htests
    cases htests with
    | comparisonLeft h => exact hprop h
    | comparisonRight h => exact hvalue hv h
  | contains | startsWith | endsWith =>
    rw [hop] at h
    obtain ⟨v, hv, h⟩ := bind_eq_some_iff.1 h
    cases h
    intro htests
    cases htests with
    | stringOpLeft h => exact hprop h
    | stringOpRight h => exact hvalue hv h

theorem exists_tests_of_conjunction {tests : List Expr} {e : Expr}
    (he : conjunction tests = some e) (h : e.Tests p) : ∃ test ∈ tests, test.Tests p := by
  cases tests with
  | nil => cases he
  | cons first rest =>
    cases he
    induction rest using reverseRecOn with
    | nil => exact ⟨first, mem_cons_self, h⟩
    | append_singleton rest last ih =>
      rw [foldl_append] at h
      cases h with
      | logicalLeft h =>
        obtain ⟨test, hmem, htest⟩ := ih h
        exact ⟨test, mem_append_left [last] hmem, htest⟩
      | logicalRight h => exact ⟨last, by simp, h⟩

/-- The filter of an accepted request tests for single hops. -/
theorem hops_of_filter {conditions : List Condition} {excludePatterns : List ExcludePattern}
    {excluded : List Expr}
    (hexcluded : Forall₂ (fun x e => x.toExpr = .ok e) excludePatterns excluded) {e : Expr}
    (he : conjunction ((conditions.map conditionToExpr).reduceOption ++ excluded) = some e)
    (h : e.Tests p) : p.hopCounts = some ⟨1, some 1⟩ := by
  obtain ⟨test, htest, hp⟩ := exists_tests_of_conjunction he h
  rcases mem_append.1 htest with htest | htest
  · rw [reduceOption_mem_iff] at htest
    obtain ⟨c, -, hc⟩ := mem_map.1 htest
    exact (not_tests_of_toExpr hc p hp).elim
  · obtain ⟨x, -, hx⟩ := exists_of_mem_right hexcluded htest
    obtain ⟨label, -, rfl⟩ := excludes_of_toExpr hx
    cases hp with
    | not hp =>
      cases hp
      rfl

/-- An accepted request keeps the hops exactly when the bounds of each relationship are
supported. -/
theorem hopsKept_iff {q : StructuredMatchQuery} {qir : QueryIR} (h : q.intoQueryIr = .ok qir) :
    q.HopsKept qir ↔ ∀ rel ∈ q.relationships, rel.HopsSupported := by
  obtain ⟨nodes, relationships, excluded, groupBy, -, hnodes, hrelationships, hexcluded, hir⟩ :=
    parts_of_intoQueryIr h
  have hlength : q.nodes.length = nodes.length := hnodes.length_eq
  have hmatches (p : GraphPattern) : qir.Matches p ↔ p ∈ nodes ++ relationships ∨ ∃ e,
      conjunction ((q.conditions.map conditionToExpr).reduceOption ++ excluded) = some e ∧
        e.Tests p := by
    unfold QueryIR.Matches
    rw [hir]
  have hpattern (i : Nat) : qir.pattern? (q.nodes.length + i) = relationships[i]? := by
    unfold QueryIR.pattern?
    rw [hir, hlength]
    dsimp only
    rw [List.getElem?_append_right (Nat.le_add_right _ _), Nat.add_sub_cancel_left]
  have hconverted {i : Nat} {rel : RelationshipPattern} (hi : q.relationships[i]? = some rel) :
      ∃ p, relationships[i]? = some p ∧ p.hopCounts = some rel.hops := by
    obtain ⟨hlt, rfl⟩ := List.getElem?_eq_some_iff.1 hi
    have hlt' : i < relationships.length := hrelationships.length_eq ▸ hlt
    exact ⟨relationships[i], List.getElem?_eq_getElem hlt',
      hops_of_toPattern (hrelationships.get hlt hlt')⟩
  constructor
  · intro hkept rel hrel
    obtain ⟨i, hi⟩ := getElem?_of_mem hrel
    obtain ⟨p, hp, hhops⟩ := hconverted hi
    obtain ⟨p', h', hp', hhops', hrequests⟩ := hkept.requested i rel hi
    rw [hpattern, hp] at hp'
    cases hp'
    rw [hhops] at hhops'
    cases hhops'
    refine (hopsSound_iff rel).1 ⟨hkept.bounded p ?_ _ hhops, hrequests⟩
    exact (hmatches p).2 (.inl (mem_append_right _ (mem_of_getElem? hp)))
  · intro hsupported
    refine ⟨fun p hp hops hhops => ?_, fun i rel hi => ?_⟩
    · rcases (hmatches p).1 hp with hp | ⟨e, he, htests⟩
      · rcases mem_append.1 hp with hp | hp
        · obtain ⟨node, -, hnode⟩ := exists_of_mem_right hnodes hp
          rw [hops_of_nodePattern hnode] at hhops
          cases hhops
        · obtain ⟨rel, hrel, hconvert⟩ := exists_of_mem_right hrelationships hp
          rw [hops_of_toPattern hconvert] at hhops
          cases hhops
          exact ((hopsSound_iff rel).2 (hsupported rel hrel)).1
      · rw [hops_of_filter hexcluded he htests] at hhops
        cases hhops
        exact ⟨1, rfl, le_rfl, by decide⟩
    · obtain ⟨p, hp, hhops⟩ := hconverted hi
      refine ⟨p, rel.hops, by rw [hpattern, hp], hhops, ?_⟩
      exact ((hopsSound_iff rel).2 (hsupported rel (mem_of_getElem? hi))).2

/-- Products at a number of steps from each other. -/
def stepsRequest (minHops maxHops : Option Nat) : StructuredMatchQuery :=
  ⟨[⟨"a", "Product"⟩, ⟨"b", "Product"⟩], [⟨"LEADS_TO", "a", "b", none, minHops, maxHops⟩], [], [],
    [⟨"b", none, none, none, none⟩], [], [], some 25, none⟩

/-- Five steps down to two are two to five. -/
theorem hopsKept_steps : ∃ qir, (stepsRequest (some 5) (some 2)).intoQueryIr = .ok qir ∧
      (stepsRequest (some 5) (some 2)).HopsKept qir := by
  refine ⟨_, rfl, (hopsKept_iff (q := stepsRequest (some 5) (some 2)) rfl).2 fun rel hrel => ?_⟩
  obtain rfl := mem_singleton.1 hrel
  refine ⟨fun mn _ _ _ => ⟨2, rfl, by decide⟩, fun hmax => ?_⟩
  cases hmax

/-- Two to a hundred steps become two steps or more. -/
theorem steps_unbounded :
    ∃ qir p, (stepsRequest (some 2) (some 100)).intoQueryIr = .ok qir ∧ qir.Matches p ∧
      p.hopCounts = some ⟨2, none⟩ ∧ ¬ (stepsRequest (some 2) (some 100)).HopsKept qir := by
  refine ⟨_, _, rfl, .inl (mem_cons_of_mem _ (mem_cons_of_mem _ mem_cons_self)),
    rfl, fun hkept => ?_⟩
  obtain ⟨_, hupper, -⟩ := hkept.bounded _ (.inl (mem_cons_of_mem _
    (mem_cons_of_mem _ mem_cons_self))) _ rfl
  cases hupper

end Ontosyx.Query
