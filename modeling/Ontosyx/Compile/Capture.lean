import Ontosyx.Compile.MentionLaws
import Ontosyx.Lib.Checked

/-!
# Parameter capture

Every literal of a query is passed under a name of the collector, `p0`, `p1`, …,
and every caller parameter keeps the name the caller gave it.  A literal is always
bound to its own value (`writeAll_bound`); a caller parameter is captured exactly
when its name is one of those the collector hands out.
-/

namespace Ontosyx.Compile

open Ontosyx.Core Ontosyx.Query
open Ontology (OntologyIR)
open Lib.Checked List ParamCollector

/-! ## Writing -/

/-- The collector that was handed `vs`, in order. -/
def ParamCollector.ofValues (vs : List PropertyValue) : ParamCollector :=
  ⟨vs.zipIdx.map fun e => (paramName e.2, e.1), vs.length⟩

theorem ParamCollector.push_ofValues (vs : List PropertyValue) (v : PropertyValue) :
    (ofValues vs).push v =
      (paramName vs.length, ofValues (vs ++ [v])) := by
  simp [push, ofValues, zipIdx_append]

theorem ParamCollector.paramName_injective : Function.Injective paramName := by
  intro i j h
  have hdigits : Nat.toDigits 10 i = Nat.toDigits 10 j := by
    have h' : toString i = toString j := (String.append_right_inj "p").1 h
    rw [Nat.toString_eq_ofList_toDigits, Nat.toString_eq_ofList_toDigits] at h'
    exact String.ofList_injective h'
  rw [← Nat.ofDigitChars_ten_toDigits (n := i), hdigits, Nat.ofDigitChars_ten_toDigits]

/-- The names handed out are `p0`, `p1`, …, in order. -/
theorem ParamCollector.names_ofValues (vs : List PropertyValue) :
    (ofValues vs).params.map (·.1) =
      (range vs.length).map paramName := by
  rw [ofValues, map_map, range_eq_range', ← zipIdx_map_snd 0 vs, map_map]
  rfl

variable {vs : List PropertyValue} {pieces : List Piece}

theorem ParamCollector.mem_ofValues {i : Nat} {v : PropertyValue} (h : vs[i]? = some v) :
    (paramName i, v) ∈ (ofValues vs).params :=
  mem_map.2 ⟨(v, i), mem_zipIdx_iff_getElem?.2 h, rfl⟩

/-- A written placeholder is bound to the literal it stands for, or is a caller
parameter of the pieces. -/
def Stretch.Bound (params : List (String × PropertyValue)) (pieces : List Piece) :
    Stretch → Prop
  | .plain _ => True
  | .placeholder name (.literal v) => (name, v) ∈ params
  | .placeholder name .caller => .param name ∈ pieces

theorem Stretch.Bound.mono {params : List (String × PropertyValue)} {p : Piece} {s : Stretch}
    (h : s.Bound params pieces) : s.Bound params (p :: pieces) := by
  rcases s with _ | ⟨name, _ | _⟩
  · trivial
  · exact h
  · exact mem_cons_of_mem p h

theorem write_bound {p : Piece} {s : Stretch} {pc : ParamCollector}
    (h : p.write (.ofValues vs) = .ok (s, pc)) (hr : Recalls vs.reverse (p :: pieces)) :
    pc = .ofValues (vs ++ pushed [p]) ∧ Recalls (vs ++ pushed [p]).reverse pieces ∧
      (∀ rest, s.Bound (ofValues (vs ++ pushed [p] ++ rest)).params (p :: pieces)) ∧
      ∀ name, p = .param name → s = .placeholder name .caller := by
  cases p
  case literal v =>
    rw [Piece.write, push_ofValues] at h
    cases h
    refine ⟨rfl, by simpa [pushed, Recalls] using hr, ?_, by simp⟩
    intro rest
    exact mem_ofValues (by simp [pushed])
  case silent v =>
    rw [Piece.write, push_ofValues] at h
    cases h
    exact ⟨rfl, by simpa [pushed, Recalls] using hr, fun _ => trivial, by simp⟩
  case again back v =>
    cases h
    refine ⟨by simp [pushed], by simpa [pushed] using hr.2, ?_, by simp⟩
    intro rest
    obtain ⟨⟨hback, hv⟩, -⟩ := hr
    have hlt : back - 1 < vs.length := by
      have := (List.getElem?_eq_some_iff.1 hv).1
      rwa [List.length_reverse] at this
    rw [List.getElem?_reverse hlt] at hv
    refine mem_ofValues ?_
    have hindex : vs.length - 1 - (back - 1) = (ofValues vs).counter - back := by
      show _ = vs.length - back
      omega
    rw [hindex] at hv
    rw [append_assoc, getElem?_append_left]
    · exact hv
    · show vs.length - back < vs.length
      omega
  case param name =>
    cases h
    exact ⟨by simp [pushed], by simpa [pushed, Recalls] using hr, fun _ => mem_cons_self ..,
      by simp⟩
  case fail e => cases h
  all_goals
    cases h
    exact ⟨by simp [pushed], by simpa [pushed, Recalls] using hr, fun _ => trivial, by simp⟩

/-- Writing hands the collector the pushed values, and binds every placeholder. -/
theorem writeAll_bound {stretches : List Stretch} {pc : ParamCollector}
    (h : writeAll (.ofValues vs) pieces = .ok (stretches, pc)) (hr : Recalls vs.reverse pieces) :
    pc = .ofValues (vs ++ pushed pieces) ∧ (∀ s ∈ stretches, s.Bound pc.params pieces) ∧
      ∀ name, .param name ∈ pieces → .placeholder name .caller ∈ stretches := by
  induction pieces generalizing vs stretches with
  | nil =>
    cases h
    exact ⟨by simp [pushed], by simp, by simp⟩
  | cons p pieces ih =>
    rw [writeAll, bind_eq_ok_iff] at h
    obtain ⟨⟨s, pc'⟩, hp, h⟩ := h
    rw [bind_eq_ok_iff] at h
    obtain ⟨⟨t, pc''⟩, ht, h⟩ := h
    cases h
    obtain ⟨hpc, hrest, hbound, hparam⟩ := write_bound hp hr
    rw [hpc] at ht
    obtain ⟨hpc', hbounds, hparams⟩ := ih ht hrest
    have hpushed : pushed (p :: pieces) = pushed [p] ++ pushed pieces := pushed_append [p] pieces
    rw [hpushed, ← append_assoc]
    refine ⟨hpc', ?_, ?_⟩
    · rw [forall_mem_cons]
      refine ⟨?_, fun s' hs' => (hbounds s' hs').mono⟩
      rw [hpc']
      exact hbound _
    · intro name hname
      rcases mem_cons.1 hname with hname | hname
      · rw [hparam name hname.symm]
        exact mem_cons_self ..
      · exact mem_cons_of_mem _ (hparams name hname)

/-! ## Capture -/

/-- The word Cypher reads as the name of a caller parameter: it ends at a blank. -/
def callerWord (name : String) : String :=
  String.ofList ((name.toList.dropWhile (· == ' ')).takeWhile (· ≠ ' '))

/-- Literals and caller parameters are kept apart: every placeholder of a literal is
bound to that literal, the literals have distinct names, and no placeholder of a
caller parameter has the name of a literal. -/
structure NoCapture (stretches : List Stretch) (params : List (String × PropertyValue)) :
    Prop where
  bound : ∀ name v, .placeholder name (.literal v) ∈ stretches → (name, v) ∈ params
  distinct : (params.map (·.1)).Nodup
  free : ∀ name, .placeholder name .caller ∈ stretches → callerWord name ∉ params.map (·.1)

/-- The caller parameters of a query whose text stays. -/
def callerParams (d : CypherDialect) (q : QueryIR) : List String :=
  (joinAtoms (QueryIR.mentions d [] q)).filterMap fun
    | .param s => some s
    | .lit => none

/-- How many literals of a query are passed as parameters. -/
def literalCount (d : CypherDialect) (q : QueryIR) : Nat :=
  (joinAtoms (QueryIR.mentions d [] q)).count .lit

theorem queryPieces_tells (d : CypherDialect) (q : QueryIR) :
    Tells (queryPieces d q) (joinAtoms (QueryIR.mentions d [] q)) :=
  PartsTell.joinParts (by decide)
    (compileSubquery_tells d id (fun h => by rwa [map_id]) PartsTell.nil q)

theorem length_pushed (a : List Piece) :
    (pushed a).length = (a.flatMap Piece.atoms).count .lit := by
  induction a with
  | nil => rfl
  | cons p a ih => cases p <;> simp [pushed, Piece.atoms, ih]

theorem param_mem_iff (a : List Piece) (name : String) :
    .param name ∈ a ↔ .param name ∈ a.flatMap Piece.atoms := by
  rw [mem_flatMap]
  constructor
  · exact fun h => ⟨_, h, mem_singleton.2 rfl⟩
  · intro h
    obtain ⟨p, hp, hname⟩ := h
    cases p <;> simp [Piece.atoms] at hname
    rw [hname]
    exact hp

/-- A compiled statement keeps literals and caller parameters apart exactly when no
caller parameter of the query is read as the name of one of its literals. -/
theorem noCapture_iff {d : CypherDialect} {q : QueryIR} {ontology : Option OntologyIR}
    {stretches : List Stretch} {pc : ParamCollector}
    (h : compileStretches d q ontology = .ok (stretches, pc)) : NoCapture stretches pc.params ↔
      ∀ name ∈ callerParams d (rewriteCodes q ontology).1,
        ∀ i < literalCount d (rewriteCodes q ontology).1,
          callerWord name ≠ paramName i := by
  rw [compileStretches] at h
  split at h
  · cases h
  · have htells := queryPieces_tells d (rewriteCodes q ontology).1
    have hstart : writeAll (.ofValues []) (queryPieces d (rewriteCodes q ontology).1) =
        .ok (stretches, pc) := h
    obtain ⟨hpc, hbounds, hparams⟩ := writeAll_bound hstart (htells.recalls _)
    have hnames : pc.params.map (·.1) =
        (range (literalCount d (rewriteCodes q ontology).1)).map
        paramName := by
      rw [hpc, names_ofValues, nil_append, length_pushed, htells.atoms_eq]
      rfl
    have hcaller : ∀ name, .placeholder name .caller ∈ stretches ↔
        name ∈ callerParams d (rewriteCodes q ontology).1 := by
      intro name
      have hpiece : .placeholder name .caller ∈ stretches ↔
          .param name ∈ queryPieces d (rewriteCodes q ontology).1 :=
        ⟨fun hs => hbounds _ hs, hparams name⟩
      rw [hpiece, param_mem_iff, htells.atoms_eq, callerParams, mem_filterMap]
      constructor
      · exact fun hatom => ⟨_, hatom, rfl⟩
      · intro hatom
        obtain ⟨a, ha, hname⟩ := hatom
        cases a with
        | lit => cases hname
        | param s =>
          cases hname
          exact ha
    constructor
    · intro hfree name hname i hi heq
      refine hfree.free name ((hcaller name).2 hname) ?_
      rw [hnames, heq]
      exact mem_map_of_mem (mem_range.2 hi)
    · intro hcond
      refine ⟨fun name v hs => hbounds _ hs, ?_, ?_⟩
      · rw [hnames]
        exact nodup_range.map paramName_injective
      · intro name hs hmem
        rw [hnames] at hmem
        obtain ⟨i, hi, heq⟩ := mem_map.1 hmem
        exact hcond name ((hcaller name).1 hs) i (mem_range.1 hi) heq.symm

/-- `MATCH (n) WHERE n = <literal> RETURN n`, where the literal is compared with a
caller parameter of the given name. -/
def comparing (name : String) : QueryIR :=
  ⟨.match_ [.node ⟨"n"⟩ none []] (some (.comparison (.literal (.string "Kim")) .eq (.param name)))
    [.variable_ ⟨"n"⟩ none] false [], none, none, [], none⟩

theorem noCapture_comparing : ∃ stretches pc,
    compileStretches .neo4j (comparing "who") none = .ok (stretches, pc) ∧
      NoCapture stretches pc.params :=
  ⟨_, _, rfl, (@noCapture_iff .neo4j (comparing "who") none _ _ rfl).2 (by decide)⟩

/-- The caller parameter `p0` is bound to the literal `'Kim'`. -/
theorem p0_captured : ∃ stretches pc,
    compileStretches .neo4j (comparing "p0") none = .ok (stretches, pc) ∧
      ¬ NoCapture stretches pc.params := by
  refine ⟨_, _, rfl, ?_⟩
  intro h
  exact h.free "p0" (by simp) (by decide)

end Ontosyx.Compile
