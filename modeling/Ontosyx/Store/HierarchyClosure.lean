import Ontosyx.Lib.Firsts
import Ontosyx.Ontology.Hierarchies
import Ontosyx.Store.Entities

/-!
# The stored hierarchies

`insert_hierarchy_closure` walks up from every coded value, concept and glossary term, one parent
at a time, and stores a row for each entity it meets with the number of steps.

## Main results

* `mem_closureRows_iff` — the walks along a parent map without cycles meet every ancestor.
* `closure_exact_iff` — when the rows are the ancestors with their distances.
* `stored_forest` — the rows are those of a forest, whatever the links.
-/

namespace Ontosyx.Store

open List Ontology Lib.Checked Lib.Keyed Lib.PathWalk OntologyState Option Nat Prod
open Relation (TransGen)

variable {α κ : Type} {a b : κ} {n : ℕ}

/-! ## Walks along a parent map -/

/-- Ancestor, descendant and depth as in a forest: the ancestors of an entity lie on one way up. -/
structure Forest (Row : κ → κ → ℕ → Prop) : Prop where
  comp : ∀ a b c n m, Row b a n → Row c b m → Row c a (n + m)
  antisymm : ∀ a b n m, Row b a n → Row a b m → a = b ∧ n = 0
  level : ∀ a b c n, Row b a n → Row c a n → b = c
  chain : ∀ a b c n m, Row b a n → Row c a (n + m + 1) → Row c b (m + 1)

section

variable [DecidableEq κ]

/-- The parents met on the way up and their depths, until the guard ends the walk. -/
def ancestors (parentOf : κ → Option κ) : ℕ → ℕ → κ → List (κ × ℕ)
  | 0, _, _ => []
  | limit + 1, depth, current =>
    match parentOf current with
    | none => []
    | some parent => (parent, depth) :: ancestors parentOf limit (depth + 1) parent

/-- The map of the entries to their parents, collected in the order of the entries. -/
def parentMap (key : α → κ) (parent : α → Option κ) (xs : List α) (id : κ) : Option κ :=
  (last fst id (xs.filterMap fun x => (parent x).map fun p => (key x, p))).map (·.2)

/-- Ancestor, descendant and depth, for the entries in turn. -/
def closureRows (key : α → κ) (parent : α → Option κ) (xs : List α) : List (κ × κ × ℕ) :=
  xs.flatMap fun x => (key x, key x, 0) ::
    (ancestors (parentMap key parent xs) (xs.length + 1) 1 (key x)).map fun p =>
      (p.1, key x, p.2)

omit [DecidableEq κ] in
theorem length_ancestors_le (parentOf : κ → Option κ) (limit depth : ℕ) (id : κ) :
    (ancestors parentOf limit depth id).length ≤ limit := by
  induction limit generalizing depth id with
  | zero => exact le_refl 0
  | succ limit ih =>
    rw [ancestors]
    split
    · exact zero_le _
    · exact succ_le_succ (ih _ _)

omit [DecidableEq κ] in
theorem mem_ancestors_iff {parentOf : κ → Option κ} {limit depth k : ℕ} :
    (b, k) ∈ ancestors parentOf limit depth a ↔
      ∃ n < limit, k = depth + n ∧ Path (fun a b => parentOf a = some b) (n + 1) a b := by
  induction limit generalizing depth a with
  | zero => simp [ancestors]
  | succ limit ih =>
    rw [ancestors]
    cases ha : parentOf a with
    | none => simp [Lib.PathWalk.Path, ha]
    | some p =>
      rw [mem_cons, ih]
      constructor
      · rintro (hp | ⟨n, hn, rfl, hpath⟩)
        · obtain ⟨rfl, rfl⟩ := mk.inj hp
          exact ⟨0, succ_pos _, rfl, b, ha, rfl⟩
        · exact ⟨n + 1, succ_lt_succ hn, by omega, p, ha, hpath⟩
      · rintro ⟨n, hn, rfl, c, hc, hpath⟩
        obtain rfl := some.inj (ha.symm.trans hc)
        cases n with
        | zero =>
          obtain rfl : p = b := hpath
          exact .inl rfl
        | succ n => exact .inr ⟨n, lt_of_succ_lt_succ hn, by omega, hpath⟩

variable {key : α → κ} {parent : α → Option κ} {xs : List α}

theorem parentMap_some_iff (hnd : (xs.map key).Nodup) :
    parentMap key parent xs a = some b ↔ ∃ x ∈ xs, key x = a ∧ parent x = some b := by
  have hsub : ((xs.filterMap fun x => (parent x).map fun p => (key x, p)).map fst).Sublist
      (xs.map key) := by
    clear hnd
    induction xs with
    | nil => exact Sublist.slnil
    | cons x xs ih =>
      cases hx : parent x with
      | none => simpa [hx] using ih.cons (key x)
      | some p => simpa [hx] using ih
  rw [parentMap, map_eq_some_iff]
  simp only [last_some_iff _ (hnd.sublist hsub), mem_filterMap, map_eq_some_iff]
  constructor
  · rintro ⟨-, ⟨⟨x, hx, p, hp, rfl⟩, rfl⟩, rfl⟩
    exact ⟨x, hx, rfl, hp⟩
  · rintro ⟨x, hx, rfl, hp⟩
    exact ⟨(key x, b), ⟨⟨x, hx, b, hp, rfl⟩, rfl⟩, rfl⟩

variable (hnd : (xs.map key).Nodup)
include hnd

/-- The walks meet every ancestor: the guard ends none that has not come to its end. -/
theorem mem_closureRows_iff (hac : Acyclic fun a b => parentMap key parent xs a = some b) :
    (b, a, n) ∈ closureRows key parent xs ↔
      a ∈ xs.map key ∧ Path (fun a b => parentMap key parent xs a = some b) n a b := by
  have hbound {n : ℕ} {a b : κ} (h : Path (fun a b => parentMap key parent xs a = some b) n a b) :
      n ≤ xs.length := by
    obtain ⟨ys, rfl, hys, hmem⟩ := h.exists_nodup hac
    rw [← show (xs.map key).length = xs.length from length_map key]
    refine (hys.subperm fun y hy => ?_).length_le
    obtain ⟨z, hz⟩ := (hmem y hy).1
    obtain ⟨x, hx, rfl, -⟩ := (parentMap_some_iff hnd).1 hz
    exact mem_map_of_mem hx
  rw [closureRows, mem_flatMap]
  constructor
  · rintro ⟨x, hx, hrow⟩
    rcases mem_cons.1 hrow with hself | hrow
    · obtain ⟨rfl, rfl, rfl⟩ : b = key x ∧ a = key x ∧ n = 0 := by simpa using hself
      exact ⟨mem_map_of_mem hx, rfl⟩
    · obtain ⟨p, hp, hrow⟩ := mem_map.1 hrow
      obtain ⟨rfl, rfl, rfl⟩ : p.1 = b ∧ key x = a ∧ p.2 = n := by simpa using hrow
      obtain ⟨m, -, hm, hpath⟩ := mem_ancestors_iff.1 hp
      rw [hm, add_comm]
      exact ⟨mem_map_of_mem hx, hpath⟩
  · rintro ⟨ha, hpath⟩
    obtain ⟨x, hx, rfl⟩ := mem_map.1 ha
    refine ⟨x, hx, ?_⟩
    cases n with
    | zero =>
      obtain rfl : key x = b := hpath
      exact mem_cons_self
    | succ n =>
      refine mem_cons_of_mem _ (mem_map.2 ⟨(b, n + 1), mem_ancestors_iff.2 ?_, rfl⟩)
      exact ⟨n, lt_succ_of_lt (hbound hpath), add_comm n 1, hpath⟩

variable {targets : α → List κ} (hac : Acyclic (Links key targets xs))
  (hhead : ∀ x, (targets x).head? = parent x)
include hac hhead

omit hac in
theorem links_of_parentMap (h : parentMap key parent xs a = some b) :
    Links key targets xs a b := by
  obtain ⟨x, hx, rfl, hb⟩ := (parentMap_some_iff hnd).1 h
  exact ⟨x, hx, rfl, mem_of_mem_head? (hhead x ▸ hb)⟩

theorem acyclic_parentMap : Acyclic fun a b => parentMap key parent xs a = some b :=
  fun a ha => hac a (TransGen.mono (fun _ _ => links_of_parentMap hnd hhead) a a ha)

theorem closureRows_unique {m : ℕ} (hn : (b, a, n) ∈ closureRows key parent xs)
    (hm : (b, a, m) ∈ closureRows key parent xs) : n = m := by
  have hup := acyclic_parentMap hnd hac hhead
  exact Path.unique hup (fun a b c hb hc => some.inj (hb.symm.trans hc))
    ((mem_closureRows_iff hnd hup).1 hn).2 ((mem_closureRows_iff hnd hup).1 hm).2

/-- The rows are the ancestors along all links when the parent is the only one linked to. -/
theorem closureRows_exact_iff :
    (∀ a b n, (b, a, n) ∈ closureRows key parent xs ↔
        a ∈ xs.map key ∧ Distance (Links key targets xs) a b n) ↔
      ∀ x ∈ xs, ∀ t ∈ targets x, parent x = some t := by
  have hup := acyclic_parentMap hnd hac hhead
  simp only [mem_closureRows_iff hnd hup]
  constructor
  · intro h x hx t ht
    have hdist : Distance (Links key targets xs) (key x) t 1 := by
      refine ⟨⟨t, ⟨x, hx, rfl, ht⟩, rfl⟩, fun m hm => ?_⟩
      cases m with
      | zero =>
        obtain rfl : key x = t := hm
        exact absurd (.single ⟨x, hx, rfl, ht⟩) (hac (key x))
      | succ m => exact succ_pos m
    obtain ⟨c, hc, rfl⟩ := ((h (key x) t 1).2 ⟨mem_map_of_mem hx, hdist⟩).2
    obtain ⟨y, hy, hyx, hpar⟩ := (parentMap_some_iff hnd).1 hc
    rw [← inj_on_of_nodup_map hnd hy hx hyx]
    exact hpar
  · intro h a b n
    have hsame : Links key targets xs = fun a b => parentMap key parent xs a = some b := by
      funext a b
      refine propext ⟨?_, links_of_parentMap hnd hhead⟩
      rintro ⟨x, hx, rfl, hb⟩
      exact (parentMap_some_iff hnd).2 ⟨x, hx, rfl, h x hx b hb⟩
    rw [hsame]
    refine and_congr_right' ⟨fun hpath => ⟨hpath, fun m hm => ?_⟩, fun hdist => hdist.1⟩
    exact (hpath.unique hup (fun a b c hb hc => some.inj (hb.symm.trans hc)) hm).le

/-- The rows of entries with one parent at most are those of a forest. -/
theorem closureRows_forest : Forest fun b a n => (b, a, n) ∈ closureRows key parent xs := by
  have hup := acyclic_parentMap hnd hac hhead
  have hone : ∀ a b c, parentMap key parent xs a = some b → parentMap key parent xs a = some c →
      b = c := fun a b c hb hc => some.inj (hb.symm.trans hc)
  simp only [mem_closureRows_iff hnd hup]
  refine ⟨fun a b c n m hb hc => ⟨hb.1, hb.2.trans hc.2⟩, fun a b n m hb ha => ?_,
    fun a b c n hb hc => hb.2.drop (m := 0) hone hc.2, fun a b c n m hb hc => ?_⟩
  · cases n with
    | zero => exact ⟨hb.2, rfl⟩
    | succ n =>
      have hround := hb.2.trans ha.2
      rw [succ_add] at hround
      exact absurd hround (Path.not_succ hup)
  · have hpath := hb.2.drop (m := m + 1) hone hc.2
    obtain ⟨d, hlink, -⟩ := id hpath
    obtain ⟨x, hx, rfl, -⟩ := (parentMap_some_iff hnd).1 hlink
    exact ⟨mem_map_of_mem hx, hpath⟩

end

/-! ## Rows -/

/-- A row of `ontology_entity_hierarchy`. -/
structure HierarchyRow where
  relation : String
  ancestorKind : String
  ancestorId : String
  descendantKind : String
  descendantId : String
  depth : ℕ
deriving DecidableEq

/-- The primary key, which leaves the depth out. -/
def HierarchyRow.key (row : HierarchyRow) : String × String × String × String × String :=
  (row.relation, row.ancestorKind, row.ancestorId, row.descendantKind, row.descendantId)

/-- A row between two entities of one kind. -/
def HierarchyRow.within (relation : String) (kind : EntityKind) (val : κ → String)
    (r : κ × κ × ℕ) : HierarchyRow :=
  ⟨relation, kind.asStr, val r.1, kind.asStr, val r.2.1, r.2.2⟩

/-- The first broader relation of the term. -/
def broaderTerm (t : GlossaryTermDef) : Option GlossaryTermId :=
  (t.relatedTerms.find? fun r => r.kind = .broader).map (·.target)

def codeRows (o : OntologyIR) : List (CodedValueId × CodedValueId × ℕ) :=
  o.codeSystems.flatMap fun cs =>
    if cs.hierarchical then closureRows (·.id) (·.broaderId) cs.codes else []

def conceptRows (o : OntologyIR) : List (ConceptId × ConceptId × ℕ) :=
  closureRows (·.id) (·.broader) o.concepts

def termRows (o : OntologyIR) : List (GlossaryTermId × GlossaryTermId × ℕ) :=
  closureRows (·.id) broaderTerm o.glossary

def implementRows (o : OntologyIR) : List HierarchyRow :=
  o.nodeTypes.flatMap fun nt => nt.implements.map fun iface =>
    ⟨"interface_implements", EntityKind.nodeType.asStr, nt.id.val, EntityKind.interface.asStr,
      iface.val, 1⟩

def hierarchyRows (o : OntologyIR) : List HierarchyRow :=
  (codeRows o).map (.within "code_system_broader" .codedValue (·.val)) ++
    (conceptRows o).map (.within "concept_broader" .concept (·.val)) ++
    (termRows o).map (.within "glossary_term_broader" .glossaryTerm (·.val)) ++ implementRows o

/-- What the insert leaves in the table: a row in conflict with an earlier one does nothing. -/
def insertHierarchyClosure (o : OntologyIR) : List HierarchyRow :=
  firsts HierarchyRow.key (hierarchyRows o)

/-! ## Accepted ontologies -/

/-- Every entry of the registries passes its own validator. -/
structure Accepted (s : OntologyState) : Prop where
  agrees : s.Agrees
  concepts : ∀ d ∈ s.ir.concepts, s.validateConceptReferences d = .ok ()
  terms : ∀ d ∈ s.ir.glossary, s.validateGlossaryTermReferences d = .ok ()
  codeSystems : ∀ d ∈ s.ir.codeSystems, s.validateCodeSystemReferences d = .ok ()

/-- The stored rows are the pairs of an ancestor and a descendant, with their distance. -/
structure ClosureExact (o : OntologyIR) : Prop where
  codes : ∀ a b n, HierarchyRow.within "code_system_broader" .codedValue (·.val) (b, a, n) ∈
    insertHierarchyClosure o ↔ ∃ d ∈ o.codeSystems, a ∈ d.codes.map (·.id) ∧
      Distance (Links (·.id) (·.broaderId.toList) d.codes) a b n
  concepts : ∀ a b n, HierarchyRow.within "concept_broader" .concept (·.val) (b, a, n) ∈
    insertHierarchyClosure o ↔ a ∈ o.concepts.map (·.id) ∧
      Distance (Links (·.id) (·.broader.toList) o.concepts) a b n
  terms : ∀ a b n, HierarchyRow.within "glossary_term_broader" .glossaryTerm (·.val) (b, a, n) ∈
    insertHierarchyClosure o ↔ a ∈ o.glossary.map (·.id) ∧
      Distance (Links (·.id) broaderTerms o.glossary) a b n

/-- Systems with codes are hierarchical, and no term has two broader terms. -/
structure OneParent (o : OntologyIR) : Prop where
  hierarchical : ∀ d ∈ o.codeSystems, d.codes ≠ [] → d.hierarchical = true
  broader : ∀ t ∈ o.glossary, ∀ x ∈ broaderTerms t,
    ∀ y ∈ broaderTerms t, x = y

namespace Accepted

variable {s : OntologyState} (hs : Accepted s)
include hs

omit hs in
/-- An entry laid over the stored ones is found where it is stored already. -/
theorem overlay_self [DecidableEq κ] {key : α → κ} {xs : List α} {byId : κ → Option α} {x : α}
    (hbyId : ∀ id x, byId id = some x ↔ x ∈ xs ∧ key x = id) (hx : x ∈ xs) :
    (fun id => if id = key x then some x else byId id) = byId := by
  funext id
  split_ifs with hid
  · exact ((hbyId id x).2 ⟨hx, hid.symm⟩).symm
  · rfl

theorem acyclic_concepts : Acyclic (Links (·.id) (·.broader.toList) s.ir.concepts) := by
  have hbyId := conceptById_some_iff hs.agrees
  refine acyclic_of_walks hbyId (Nat.lt_add_of_pos_right Nat.two_pos) fun d hd => ?_
  have hcheck := hs.concepts d hd
  unfold validateConceptReferences at hcheck
  simp only [seq_eq_ok_iff, rejectCycle_ok_iff, map_eq_none_iff,
    repeatedId_eq_pathWalk] at hcheck
  rw [overlay_self hbyId hd] at hcheck
  exact hcheck.2.2.2.2.1

theorem nodup_concepts : (s.ir.concepts.map (·.id)).Nodup :=
  conceptSlot.nodup_of_indexed _ hs.agrees.indexed

theorem nodup_terms : (s.ir.glossary.map (·.id)).Nodup :=
  glossaryTermSlot.nodup_of_indexed _ hs.agrees.indexed

theorem acyclic_terms : Acyclic (Links (·.id) broaderTerms s.ir.glossary) := by
  have hbyId := glossaryTermById_some_iff hs.agrees
  have hreverse : Links (·.id) broaderTerms s.ir.glossary =
      Links (·.id) (fun t => (broaderTerms t).reverse) s.ir.glossary := by
    simp [funext_iff, Links]
  rw [hreverse]
  refine acyclic_of_walks hbyId (Nat.lt_add_of_pos_right Nat.two_pos) fun d hd => ?_
  have hcheck := hs.terms d hd
  unfold validateGlossaryTermReferences at hcheck
  simp only [seq_eq_ok_iff, rejectCycle_ok_iff, map_eq_none_iff,
    broaderCycle_eq_pathWalk, reverse_nil] at hcheck
  rw [overlay_self hbyId hd] at hcheck
  exact hcheck.2.2.2

theorem nodup_codes {d : CodeSystemDef} (hd : d ∈ s.ir.codeSystems) :
    (d.codes.map (·.id)).Nodup :=
  nodup_of_references (hs.codeSystems d hd)

theorem acyclic_codes {d : CodeSystemDef} (hd : d ∈ s.ir.codeSystems) :
    Acyclic (Links (·.id) (·.broaderId.toList) d.codes) :=
  (OntologyState.acyclic_codes (hs.codeSystems d hd)).1

theorem eq_of_mem_codes {d d' : CodeSystemDef} (hd : d ∈ s.ir.codeSystems)
    (hd' : d' ∈ s.ir.codeSystems) {a : CodedValueId} (ha : a ∈ d.codes.map (·.id))
    (ha' : a ∈ d'.codes.map (·.id)) : d = d' := by
  by_contra hne
  have hdisjoint := (nodup_flatMap.1
    hs.agrees.indexed.registries.codedValues).2
  have : Std.Symm (Function.onFun Disjoint fun d : CodeSystemDef => d.codes.map (·.id)) :=
    ⟨fun _ _ h => h.symm⟩
  exact hdisjoint.forall hd hd' hne ha ha'

end Accepted

/-- The rows of the relations are apart. -/
theorem mem_hierarchyRows_iff {o : OntologyIR} (row : HierarchyRow) :
    (row ∈ hierarchyRows o ∧ row.relation = "code_system_broader" ↔
      ∃ r ∈ codeRows o, .within "code_system_broader" .codedValue (·.val) r = row) ∧
    (row ∈ hierarchyRows o ∧ row.relation = "concept_broader" ↔
      ∃ r ∈ conceptRows o, .within "concept_broader" .concept (·.val) r = row) ∧
    (row ∈ hierarchyRows o ∧ row.relation = "glossary_term_broader" ↔
      ∃ r ∈ termRows o, .within "glossary_term_broader" .glossaryTerm (·.val) r = row) := by
  have himplement : row ∈ implementRows o → row.relation = "interface_implements" := by
    intro h
    obtain ⟨nt, -, h⟩ := mem_flatMap.1 h
    obtain ⟨iface, -, rfl⟩ := mem_map.1 h
    rfl
  have hmem : row ∈ hierarchyRows o ↔
      (∃ r ∈ codeRows o, .within "code_system_broader" .codedValue (·.val) r = row) ∨
      (∃ r ∈ conceptRows o, .within "concept_broader" .concept (·.val) r = row) ∨
      (∃ r ∈ termRows o, .within "glossary_term_broader" .glossaryTerm (·.val) r = row) ∨
      row ∈ implementRows o := by
    simp [hierarchyRows]
  have hrelation {ι : Type} {relation : String} {kind : EntityKind} {val : ι → String}
      {rows : List (ι × ι × ℕ)} (h : ∃ r ∈ rows, .within relation kind val r = row) :
      row.relation = relation := by
    obtain ⟨r, -, rfl⟩ := h
    rfl
  rw [hmem]
  refine ⟨⟨?_, fun h => ⟨.inl h, hrelation h⟩⟩, ⟨?_, fun h => ⟨.inr (.inl h), hrelation h⟩⟩,
    ⟨?_, fun h => ⟨.inr (.inr (.inl h)), hrelation h⟩⟩⟩
  all_goals
    rintro ⟨h | h | h | h, hrel⟩
    all_goals first
      | exact h
      | simp [hrelation h] at hrel
      | simp [himplement h] at hrel

/-- What is inserted under one relation is what was walked, where no pair is walked twice. -/
theorem mem_insert_within {o : OntologyIR} {relation : String} {kind : EntityKind}
    {val : κ → String} (hval : Function.Injective val) {rows : List (κ × κ × ℕ)}
    (huniq : ∀ a b n m, (b, a, n) ∈ rows → (b, a, m) ∈ rows → n = m)
    (hrows : ∀ row, row ∈ hierarchyRows o ∧ row.relation = relation ↔
      ∃ r ∈ rows, .within relation kind val r = row) (r : κ × κ × ℕ) :
    .within relation kind val r ∈ insertHierarchyClosure o ↔ r ∈ rows := by
  constructor
  · intro h
    obtain ⟨r', hr', heq⟩ := (hrows _).1 ⟨mem_of_mem_firsts _ h, rfl⟩
    obtain ⟨-, -, hb, -, ha, hn⟩ := HierarchyRow.mk.inj heq
    rwa [← Prod.ext (hval hb) (Prod.ext (hval ha) hn)]
  · intro hr
    obtain ⟨y, hy, hkey⟩ := exists_mem_firsts HierarchyRow.key ((hrows _).2 ⟨r, hr, rfl⟩).1
    obtain ⟨r', hr', rfl⟩ := (hrows y).1
      ⟨mem_of_mem_firsts _ hy, (Prod.mk.inj hkey).1⟩
    simp only [HierarchyRow.key, HierarchyRow.within, Prod.mk.injEq, true_and] at hkey
    obtain ⟨b, a, n⟩ := r
    obtain ⟨b', a', m⟩ := r'
    obtain rfl : b' = b := hval hkey.1
    obtain rfl : a' = a := hval hkey.2
    rwa [huniq a' b' n m hr hr']

section

variable {s : OntologyState} (hs : Accepted s)
include hs

theorem mem_codeRows_iff {a b : CodedValueId} : (b, a, n) ∈ codeRows s.ir ↔
    ∃ d ∈ s.ir.codeSystems, d.hierarchical = true ∧ a ∈ d.codes.map (·.id) ∧
      Distance (Links (·.id) (·.broaderId.toList) d.codes) a b n := by
  rw [codeRows, mem_flatMap]
  refine exists_congr fun d => and_congr_right fun hd => ?_
  split
  · next hh =>
      rw [hh]
      simpa using (closureRows_exact_iff (hs.nodup_codes hd) (hs.acyclic_codes hd)
        fun x => by simp).2 (fun x _ t ht => by simpa using ht) a b n
  · next hh => simp [hh]

theorem mem_insert_codes (r : CodedValueId × CodedValueId × ℕ) :
    .within "code_system_broader" .codedValue (·.val) r ∈ insertHierarchyClosure s.ir ↔
      r ∈ codeRows s.ir := by
  refine mem_insert_within (fun ⟨_⟩ ⟨_⟩ => congrArg CodedValueId.mk) (fun a b n m hn hm => ?_)
    (fun row => (mem_hierarchyRows_iff row).1) r
  obtain ⟨d, hd, -, ha, hn⟩ := (mem_codeRows_iff hs).1 hn
  obtain ⟨d', hd', -, ha', hm⟩ := (mem_codeRows_iff hs).1 hm
  obtain rfl := hs.eq_of_mem_codes hd hd' ha ha'
  exact le_antisymm (hn.2 m hm.1) (hm.2 n hn.1)

theorem mem_insert_concepts (r : ConceptId × ConceptId × ℕ) :
    .within "concept_broader" .concept (·.val) r ∈ insertHierarchyClosure s.ir ↔
      r ∈ conceptRows s.ir :=
  mem_insert_within (fun ⟨_⟩ ⟨_⟩ => congrArg ConceptId.mk)
    (fun _ _ _ _ => closureRows_unique hs.nodup_concepts hs.acyclic_concepts fun x => by simp)
    (fun row => (mem_hierarchyRows_iff row).2.1) r

omit hs in
theorem head?_broaderTerms (t : GlossaryTermDef) :
    (broaderTerms t).head? = broaderTerm t := by
  rw [broaderTerms, head?_map, head?_filter, broaderTerm]

theorem mem_insert_terms (r : GlossaryTermId × GlossaryTermId × ℕ) :
    .within "glossary_term_broader" .glossaryTerm (·.val) r ∈ insertHierarchyClosure s.ir ↔
      r ∈ termRows s.ir :=
  mem_insert_within (fun ⟨_⟩ ⟨_⟩ => congrArg GlossaryTermId.mk)
    (fun _ _ _ _ => closureRows_unique hs.nodup_terms hs.acyclic_terms head?_broaderTerms)
    (fun row => (mem_hierarchyRows_iff row).2.2) r

/-- The stored hierarchies are exact when no entity has two parents and no system is flat. -/
theorem closure_exact_iff : (∀ (parentOf : String → Option String) (limit : ℕ) (id : String),
    (ancestors parentOf limit 1 id).length ≤ limit) ∧ (ClosureExact s.ir ↔ OneParent s.ir) := by
  refine ⟨fun parentOf limit id => length_ancestors_le parentOf limit 1 id, ?_⟩
  have hterms := closureRows_exact_iff hs.nodup_terms hs.acyclic_terms head?_broaderTerms
  have hconcepts := closureRows_exact_iff hs.nodup_concepts hs.acyclic_concepts
    fun x => (head?_toList : x.broader.toList.head? = x.broader)
  constructor
  · intro h
    refine ⟨fun d hd hne => ?_, fun t ht x hx y hy => ?_⟩
    · obtain ⟨cv, hcv⟩ := exists_mem_of_ne_nil _ hne
      have hmem : cv.id ∈ d.codes.map (·.id) := mem_map_of_mem hcv
      have hself := (h.codes cv.id cv.id 0).2 ⟨d, hd, hmem, rfl, fun _ _ => zero_le _⟩
      obtain ⟨d', hd', hh, ha, -⟩ := (mem_codeRows_iff hs).1 ((mem_insert_codes hs _).1 hself)
      rwa [hs.eq_of_mem_codes hd hd' hmem ha]
    · have hparent := hterms.1 fun a b n => (mem_insert_terms hs _).symm.trans (h.terms a b n)
      exact some.inj ((hparent t ht x hx).symm.trans (hparent t ht y hy))
  · rintro ⟨hhier, hone⟩
    refine ⟨fun a b n => ?_, fun a b n => ?_, fun a b n => ?_⟩
    · rw [mem_insert_codes hs, mem_codeRows_iff hs]
      refine exists_congr fun d => and_congr_right fun hd => ?_
      rw [and_iff_right_iff_imp]
      rintro ⟨ha, -⟩
      refine hhier d hd ?_
      rintro hnil
      simp [hnil] at ha
    · rw [mem_insert_concepts hs]
      exact hconcepts.2 (fun x _ t ht => by simpa using ht) a b n
    · rw [mem_insert_terms hs]
      refine hterms.2 (fun t ht x hx => ?_) a b n
      rw [← head?_broaderTerms]
      cases hb : broaderTerms t with
      | nil => simp [hb] at hx
      | cons y ys => rw [hone t ht x hx y (hb ▸ mem_cons_self), head?_cons]

/-- The stored rows of concepts and of glossary terms are those of a forest. -/
theorem stored_forest :
    (Forest fun (b a : ConceptId) n =>
      .within "concept_broader" .concept (·.val) (b, a, n) ∈ insertHierarchyClosure s.ir) ∧
    Forest fun (b a : GlossaryTermId) n =>
      .within "glossary_term_broader" .glossaryTerm (·.val) (b, a, n) ∈
        insertHierarchyClosure s.ir := by
  simp only [mem_insert_concepts hs, mem_insert_terms hs]
  exact ⟨closureRows_forest hs.nodup_concepts hs.acyclic_concepts fun x => head?_toList,
    closureRows_forest hs.nodup_terms hs.acyclic_terms head?_broaderTerms⟩

end

/-- A glossary of revenue, a key figure and sales, which has some of them above. -/
def salesState (above : List TermRelation) : OntologyState :=
  .ofIR { id := "o", name := "Sales", nodeTypes := [], glossary :=
    [{ id := ⟨"revenue"⟩ }, { id := ⟨"figure"⟩ }, { id := ⟨"sales"⟩, relatedTerms := above }] }

theorem accepted_salesState (above : List TermRelation)
    (h : (salesState above).validateGlossaryTermReferences
      { id := ⟨"sales"⟩, relatedTerms := above } = .ok ()) : Accepted (salesState above) where
  agrees := agrees_ofIR.2 ((OntologyIR.rebuild_ok_iff _).1 rfl)
  concepts := nofun
  terms := forall_mem_cons.2 ⟨rfl, forall_mem_cons.2 ⟨rfl, forall_mem_singleton.2 h⟩⟩
  codeSystems := nofun

theorem closure_sales : ClosureExact (salesState [⟨.broader, ⟨"revenue"⟩⟩]).ir :=
  (closure_exact_iff (accepted_salesState _ rfl)).2.2 ⟨nofun, by decide⟩

theorem sales_forest : Forest fun (b a : GlossaryTermId) n =>
    .within "glossary_term_broader" .glossaryTerm (·.val) (b, a, n) ∈ insertHierarchyClosure
      (salesState [⟨.broader, ⟨"revenue"⟩⟩, ⟨.broader, ⟨"figure"⟩⟩]).ir :=
  (stored_forest (accepted_salesState _ rfl)).2

/-- The second broader term is no ancestor. -/
theorem sales_without_figure : ¬∀ s : OntologyState, Accepted s → ClosureExact s.ir := by
  intro h
  have hexact := h _
    (accepted_salesState [⟨.broader, ⟨"revenue"⟩⟩, ⟨.broader, ⟨"figure"⟩⟩] rfl)
  have hlink : Links (·.id) broaderTerms
      (salesState [⟨.broader, ⟨"revenue"⟩⟩, ⟨.broader, ⟨"figure"⟩⟩]).ir.glossary ⟨"sales"⟩
      ⟨"figure"⟩ := ⟨_, .tail _ (.tail _ (.head _)), rfl, by decide⟩
  refine absurd ((hexact.terms ⟨"sales"⟩ ⟨"figure"⟩ 1).2 ⟨by decide, ⟨_, hlink, rfl⟩, ?_⟩)
    (by decide)
  intro m hm
  cases m with
  | zero => exact absurd (congrArg GlossaryTermId.val hm) (by decide)
  | succ m => exact succ_pos m

end Ontosyx.Store
