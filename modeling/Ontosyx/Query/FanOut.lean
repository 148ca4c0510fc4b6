import Mathlib.Algebra.Order.Field.Rat
import Ontosyx.Query.AutoDistinct

/-!
# What distinct aggregation computes

Where a link fans out, a logical row of the source comes back once for every way to reach
it.  The compiled aggregation of a field skips rows without a value; with `DISTINCT` it
takes each value once, not each row.

## Main results

* `tally_dedup_iff` — when taking each value once tallies a list of values.
* `corrected_iff` — when the rewritten aggregations are right.
-/

namespace Ontosyx.Query

open Ontosyx.Core Ontology Prod

/-! ## Tallies -/

/-- The functions whose result depends on how often a row is seen. -/
inductive Tally where
  | count
  | sum
  | avg
deriving DecidableEq

def Tally.function : Tally → AggFunction
  | .count => .count
  | .sum => .sum
  | .avg => .avg

section

variable {V : Type} (number : V → ℚ)

/-- `count`, `sum` and `avg` over values; the average of none is null. -/
def Tally.over : Tally → Multiset V → Option ℚ
  | .count, values => some (values.card : ℚ)
  | .sum, values => some (values.map number).sum
  | .avg, values =>
    if values.card = 0 then none else some ((values.map number).sum / values.card)

/-- The fields of a row; a field without a value is null. -/
abbrev Row (V : Type) := FieldRef → Option V

def AggregationExpr.evaluate [DecidableEq V] (t : Tally) (a : AggregationExpr)
    (rows : Multiset (Row V)) : Option ℚ :=
  let values := rows.filterMap (· a.field)
  t.over number (if a.distinct then values.dedup else values)

/-- The physical rows: each logical row as often as it is reached. -/
def fanOut (rows : Multiset (Row V × ℕ)) : Multiset (Row V) :=
  rows.bind fun x => Multiset.replicate x.2 x.1

def QueryOp.aggregationExprs : QueryOp → List AggregationExpr
  | .aggregate _ _ aggregations _ => aggregations
  | _ => []

/-- Every tally of the field, once rewritten, computes over the physical rows what it comes to
when each logical row is counted once. -/
def Corrected [DecidableEq V] (o : OntologyIR) (source : QueryIR) (groupBy : List FieldRef)
    (having : Option Expr) (field : FieldRef) (rows : Multiset (Row V × ℕ)) : Prop :=
  ∀ (t : Tally) (name : String) (distinct : Bool),
    (walkOp o (.aggregate source groupBy [⟨t.function, field, name, distinct⟩]
      having)).aggregationExprs.map (fun a => a.evaluate number t (fanOut rows)) =
        [t.over number ((rows.map fst).filterMap (· field))]

/-- No two logical rows have the same value, and every row with a value is reached. -/
structure Apart (field : FieldRef) (rows : Multiset (Row V × ℕ)) : Prop where
  nodup : ((rows.map fst).filterMap (· field)).Nodup
  reached : ∀ x ∈ rows, (x.1 field).isSome = true → 0 < x.2

variable {number}

/-- Taking each value seen once tallies the values when these are distinct and all seen: already
the count tells. -/
theorem tally_dedup_iff [DecidableEq V] {seen values : Multiset V} (hsub : seen ⊆ values) :
    (∀ t : Tally, t.over number seen.dedup = t.over number values) ↔
      values.Nodup ∧ values ⊆ seen := by
  constructor
  · intro h
    have hcard : seen.dedup.card = values.card := by
      have hcount := h .count
      simp only [Tally.over, Option.some.injEq, Nat.cast_inj] at hcount
      exact hcount
    have hle : seen.dedup ≤ values := by
      rw [Multiset.le_iff_subset seen.nodup_dedup]
      intro v hv
      exact hsub (Multiset.mem_dedup.1 hv)
    have heq := Multiset.eq_of_le_of_card_le hle hcard.ge
    rw [← heq]
    exact ⟨seen.nodup_dedup, fun v hv => Multiset.mem_dedup.1 hv⟩
  · intro ⟨hnodup, hseen⟩ t
    have heq : seen.dedup = values := by
      rw [← hnodup.dedup, Multiset.dedup_ext]
      intro v
      exact ⟨fun h => hsub h, fun h => hseen h⟩
    rw [heq]

/-- A value is seen when a row that has it is reached. -/
theorem mem_fanOut_values_iff {rows : Multiset (Row V × ℕ)} {field : FieldRef} {v : V} :
    v ∈ (fanOut rows).filterMap (· field) ↔ ∃ x ∈ rows, x.1 field = some v ∧ 0 < x.2 := by
  rw [Multiset.mem_filterMap]
  simp only [fanOut, Multiset.mem_bind, Multiset.mem_replicate]
  constructor
  · intro ⟨row, ⟨x, hx, htimes, hrow⟩, hv⟩
    rw [hrow] at hv
    exact ⟨x, hx, hv, by omega⟩
  · intro ⟨x, hx, hv, htimes⟩
    exact ⟨x.1, ⟨x, hx, by omega, rfl⟩, hv⟩

theorem mem_values_iff {rows : Multiset (Row V × ℕ)} {field : FieldRef} {v : V} :
    v ∈ (rows.map fst).filterMap (· field) ↔ ∃ x ∈ rows, x.1 field = some v := by
  rw [Multiset.mem_filterMap]
  simp only [Multiset.mem_map]
  constructor
  · intro ⟨row, ⟨x, hx, hrow⟩, hv⟩
    exact ⟨x, hx, by rw [hrow]; exact hv⟩
  · intro ⟨x, hx, hv⟩
    exact ⟨x.1, ⟨x, hx, rfl⟩, hv⟩

/-- Distinct values are all seen when every row that has one is reached. -/
theorem apart_iff {rows : Multiset (Row V × ℕ)} {field : FieldRef} :
    Apart field rows ↔ ((rows.map fst).filterMap (· field)).Nodup ∧
      (rows.map fst).filterMap (· field) ⊆ (fanOut rows).filterMap (· field) := by
  constructor
  · intro h
    refine ⟨h.nodup, fun v hv => ?_⟩
    obtain ⟨x, hx, hfield⟩ := mem_values_iff.1 hv
    exact mem_fanOut_values_iff.2 ⟨x, hx, hfield, h.reached x hx (by rw [hfield]; rfl)⟩
  · intro ⟨hnodup, hseen⟩
    refine ⟨hnodup, fun x hx hsome => ?_⟩
    obtain ⟨v, hv⟩ := Option.isSome_iff_exists.1 hsome
    obtain ⟨y, hy, hvy, hpos⟩ := mem_fanOut_values_iff.1 (hseen (mem_values_iff.2 ⟨x, hx, hv⟩))
    -- the row that is reached is the row itself, or two rows had the value
    obtain ⟨rest, hrest⟩ := Multiset.exists_cons_of_mem hx
    rw [hrest, Multiset.mem_cons] at hy
    cases hy with
    | inl hyx => rwa [hyx] at hpos
    | inr hy =>
      have hvalues : ((x.1 ::ₘ rest.map fst).filterMap fun row : Row V => row field) =
          v ::ₘ (rest.map fst).filterMap fun row : Row V => row field :=
        Multiset.filterMap_cons_some _ _ _ hv
      rw [hrest, Multiset.map_cons, hvalues, Multiset.nodup_cons] at hnodup
      exact absurd (mem_values_iff.2 ⟨y, hy, hvy⟩) hnodup.1

/-- Where the pass sees the link, the aggregation becomes distinct. -/
theorem aggregationExprs_walkOp {o : OntologyIR} {source : QueryIR} {groupBy : List FieldRef}
    {a : AggregationExpr} {having : Option Expr}
    (hcross : patternCrossesManyLink o (walkOp o source.operation) = true) :
    (walkOp o (.aggregate source groupBy [a] having)).aggregationExprs = [a.makeDistinct] := by
  obtain ⟨operation, limit, skip, orderBy, asOf⟩ := source
  show (if patternCrossesManyLink o (walkOp o operation) = true then _ else _) = _
  rw [if_pos hcross]
  rfl

/-- The rewritten aggregations are right when no two logical rows have the same value. -/
theorem corrected_iff [DecidableEq V] {o : OntologyIR} {source : QueryIR} {groupBy : List FieldRef}
    {having : Option Expr} (hcross : patternCrossesManyLink o (walkOp o source.operation) = true)
    (field : FieldRef) (rows : Multiset (Row V × ℕ)) :
    Corrected number o source groupBy having field rows ↔ Apart field rows := by
  have hsub : (fanOut rows).filterMap (· field) ⊆ (rows.map fst).filterMap (· field) := by
    intro v hv
    obtain ⟨x, hx, hfield, _⟩ := mem_fanOut_values_iff.1 hv
    exact mem_values_iff.2 ⟨x, hx, hfield⟩
  have htally : (∀ t : Tally, t.over number _ = t.over number _) ↔ _ := tally_dedup_iff hsub
  rw [apart_iff, ← htally]
  unfold Corrected
  simp only [aggregationExprs_walkOp hcross, List.map_singleton, List.cons.injEq, and_true]
  constructor
  · intro h t
    exact h t "" false
  · intro h t _ _
    exact h t

end

def boughtProducts : QueryIR :=
  ⟨.match_ [.relationship none (some ⟨"BOUGHT", .refl true⟩) ⟨"c"⟩ ⟨"p"⟩ .outgoing [] none] none []
    false [], none, none, [], none⟩

def price : FieldRef := ⟨⟨"p"⟩, some ⟨"price", by decide⟩⟩

/-- A product with a price, and how often it was bought. -/
def product (amount : ℚ) (times : ℕ) : Row ℚ × ℕ :=
  (fun f => if f = price then some amount else none, times)

theorem corrected_prices :
    Corrected id purchases boughtProducts [] none price {product 10 2, product 25 3} :=
  (corrected_iff (by decide) price _).2 ⟨by decide +kernel, by decide +kernel⟩

/-- Two products of one price count as one. -/
theorem equal_prices_collapse : ¬ ∀ rows : Multiset (Row ℚ × ℕ), (∀ x ∈ rows, 0 < x.2) →
    Corrected id purchases boughtProducts [] none price rows := by
  intro h
  have hcount := h {product 10 2, product 10 1} (by simp [product]) .count "n" false
  revert hcount
  decide +kernel

end Ontosyx.Query
