import Ontosyx.Ontology.Carried

/-!
# Names that lead back to their ids

A document refers to the properties of a node by name, and `normalize` turns
each name back into an id.  One map holds the names of all properties of an
ontology, and the properties of edges come last in it, so the name an id is
written under is that of the last edge property with the id, if there is one.
-/

namespace Ontosyx.Ontology

open List Ontosyx.Core Lib.Keyed OntologyIR PropertyKey
open OntologyIR (exportProperty)

/-- A loop that warns of every entry it drops keeps everything without a warning
when each of its steps does. -/
theorem collect_zipIdx_eq_iff {α β γ : Type} {f : α × Nat → Option β × List NormalizeWarning}
    {g : γ → α} {t : γ → β} {P : γ → Prop} (hdrop : ∀ x, (f x).1 = none → (f x).2 ≠ []) :
    ∀ {xs : List γ} {k : Nat}, (∀ x ∈ xs, ∀ j, f (g x, j) = (some (t x), []) ↔ P x) →
      (collect f ((xs.map g).zipIdx k) = (xs.map t, []) ↔ ∀ x ∈ xs, P x) := by
  intro xs
  induction xs with
  | nil => intro k _; simp [collect]
  | cons x xs ih =>
    intro k hf
    have hx := hf x mem_cons_self k
    have hrest := ih (k := k + 1) fun y hy => hf y (mem_cons_of_mem _ hy)
    have hlen : ((collect f ((xs.map g).zipIdx (k + 1))).1).length ≤ xs.length := by
      refine (length_filterMap_le ..).trans ?_
      simp
    rw [forall_mem_cons, ← hx, ← hrest]
    simp only [collect, map_cons, zipIdx_cons, filterMap_cons,
      flatMap_cons, Prod.mk.injEq, append_eq_nil_iff] at hlen ⊢
    cases hfst : (f (g x, k)).1 with
    | none =>
      constructor
      · intro h
        exact absurd h.2.1 (hdrop _ hfst)
      · intro h
        rw [h.1] at hfst
        cases hfst
    | some b =>
      simp only [List.cons.injEq]
      constructor
      · intro h
        refine ⟨Prod.ext ?_ h.2.1, h.1.2, h.2.2⟩
        rw [hfst, h.1.1]
      · intro h
        rw [h.1] at hfst
        exact ⟨⟨(Option.some.inj hfst).symm, h.2.1⟩, by rw [h.1], h.2.2⟩

/-- A loop whose steps all keep their entry keeps everything. -/
theorem collect_zipIdx_of_forall {α β γ : Type} {f : α × Nat → Option β × List NormalizeWarning}
    {g : γ → α} {t : γ → β} {xs : List γ} (k : Nat)
    (hf : ∀ x ∈ xs, ∀ j, f (g x, j) = (some (t x), [])) :
    collect f ((xs.map g).zipIdx k) = (xs.map t, []) := by
  induction xs generalizing k with
  | nil => rfl
  | cons x xs ih =>
    have hx := hf x mem_cons_self k
    have hrest := ih (k + 1) fun y hy => hf y (mem_cons_of_mem _ hy)
    simp only [collect, Prod.mk.injEq] at hrest
    simp only [collect, map_cons, zipIdx_cons, filterMap_cons, flatMap_cons,
      hx, hrest.1, hrest.2, append_nil]

theorem normalizeProperty_export (ctx : NormalizeContext) (place : IdPlace)
    (sourceColumn : Option String) (p : PropertyDef) :
    normalizeProperty ctx place (exportProperty sourceColumn p) = some p.carried := by
  have hkey : new p.name.val = some p.name := by simp [new, p.name.valid]
  unfold normalizeProperty exportProperty
  simp only [hkey, Option.map_some, Option.some.injEq]
  rfl

/-- All written properties come back. -/
theorem normalizeProperties_export (ctx : NormalizeContext) (place : Nat → IdPlace)
    (owner : String) (column : PropertyDef → Option String) (ps : List PropertyDef) :
    normalizeProperties ctx place owner (ps.map fun p => exportProperty (column p) p) =
      (ps.map fun p => (exportProperty (column p) p, p.carried), []) := by
  refine collect_zipIdx_of_forall 0 fun p _ j => ?_
  simp only [normalizeProperty_export]

/-- `prop_name_to_id` of a written node. -/
def NodeTypeDef.propNames (n : NodeTypeDef) : List (String × PropertyId) :=
  n.properties.map fun p => (p.name.val, p.id)

section

variable {n : NodeTypeDef} {s : String} {pid : PropertyId}

theorem find?_name_iff (hnames : (n.properties.map (·.name)).Nodup) :
    (n.propNames.find? fun e => e.1 = s).map (·.2) = some pid ↔
      ∃ p ∈ n.properties, p.id = pid ∧ p.name.val = s := by
  unfold NodeTypeDef.propNames
  rw [find?_map, Option.map_map]
  constructor
  · intro h
    obtain ⟨p, hp, hid⟩ := Option.map_eq_some_iff.1 h
    exact ⟨p, mem_of_find?_eq_some hp, hid, by simpa using find?_some hp⟩
  · intro h
    obtain ⟨p, hp, hid, hname⟩ := h
    cases hfind : n.properties.find? ((fun e : String × PropertyId => decide (e.1 = s)) ∘
        fun p => (p.name.val, p.id)) with
    | none =>
      rw [find?_eq_none] at hfind
      exact absurd (by simpa using hname) (hfind p hp)
    | some q =>
      have hq : q.name.val = s := by simpa using find?_some hfind
      have hqp : q = p := eq_of_key_eq (·.name) hnames (mem_of_find?_eq_some hfind) hp
        (ext (hq.trans hname.symm))
      rw [hqp]
      exact congrArg some hid

theorem find?_name_none_iff :
    (n.propNames.find? fun e => e.1 = s) = none ↔ ∀ q ∈ n.properties, q.name.val ≠ s := by
  simp [NodeTypeDef.propNames]

/-- `resolve_prop` finds an id by its name, or by itself when no property has it
as name. -/
theorem resolveProp_iff (hnames : (n.properties.map (·.name)).Nodup) :
    resolveProp n.propNames s = some pid ↔ ∃ p ∈ n.properties, p.id = pid ∧
        (p.name.val = s ∨ pid.val = s ∧ ∀ q ∈ n.properties, q.name.val ≠ s) := by
  have hbyName : (n.propNames.find? fun e => e.1 = s).map (·.2) = some pid ↔
      ∃ p ∈ n.properties, p.id = pid ∧ p.name.val = s := find?_name_iff hnames
  unfold resolveProp
  cases hfind : n.propNames.find? fun e => e.1 = s with
  | some e =>
    rw [hfind] at hbyName
    rw [Option.some_or, hbyName]
    have htaken : ¬∀ q ∈ n.properties, q.name.val ≠ s := by
      intro hfree
      rw [find?_name_none_iff.2 hfree] at hfind
      cases hfind
    constructor
    · intro h
      obtain ⟨p, hp, hid, hname⟩ := h
      exact ⟨p, hp, hid, .inl hname⟩
    · intro h
      obtain ⟨p, hp, hid, hname | hself⟩ := h
      · exact ⟨p, hp, hid, hname⟩
      · exact absurd hself.2 htaken
  | none =>
    have hfree := find?_name_none_iff.1 hfind
    rw [Option.none_or]
    constructor
    · intro h
      obtain ⟨e, he, hid⟩ := Option.map_eq_some_iff.1 h
      obtain ⟨p, hp, rfl⟩ := mem_map.1 (mem_of_find?_eq_some he)
      have hval : p.id.val = s := by simpa using find?_some he
      exact ⟨p, hp, hid, .inr ⟨hid ▸ hval, hfree⟩⟩
    · intro h
      obtain ⟨p, hp, hid, hname | hself⟩ := h
      · exact absurd hname (hfree p hp)
      · cases hsome : n.propNames.find? fun e => e.2.val = s with
        | none =>
          rw [find?_eq_none] at hsome
          refine absurd ?_ (hsome _ (mem_map_of_mem hp))
          simpa [hid] using hself.1
        | some e =>
          have he : e.2.val = s := by simpa using find?_some hsome
          rw [Option.map_some, Option.some.injEq]
          cases hpid : e.2 with
          | mk v =>
            cases pid with
            | mk w =>
              rw [hpid] at he
              exact congrArg PropertyId.mk (he.trans hself.1.symm)

end

/-! ## Written names -/

namespace OntologyIR

def edgeNameOf (o : OntologyIR) (pid : PropertyId) : Option PropertyKey :=
  (last (·.id) pid (o.edgeTypes.flatMap (·.properties))).map (·.name)

/-- The property of the node is written under its own name: no edge property
with its id has another name. -/
def WrittenAs (o : OntologyIR) (n : NodeTypeDef) (pid : PropertyId) : Prop :=
  ∃ p ∈ n.properties, p.id = pid ∧ ∀ key, o.edgeNameOf pid = some key → key = p.name

/-- The same, or an edge property with the id has the id itself as its name,
and no property of the node has that name. -/
def WrittenBack (o : OntologyIR) (n : NodeTypeDef) (pid : PropertyId) : Prop :=
  ∃ p ∈ n.properties, p.id = pid ∧ ∀ key, o.edgeNameOf pid = some key →
    key = p.name ∨ key.val = pid.val ∧ ∀ q ∈ n.properties, q.name ≠ key

section

variable {o : OntologyIR} {n : NodeTypeDef} {pid : PropertyId}

theorem last_append_of_some {α κ : Type} [DecidableEq κ] (key : α → κ) (k : κ) (xs ys : List α) :
    last key k (xs ++ ys) = (last key k ys).or (last key k xs) := by
  unfold last
  rw [reverse_append, find?_append]

theorem propName_of_edge {key : PropertyKey} (h : o.edgeNameOf pid = some key) :
    o.resolvePropName pid = key.val := by
  have hedges : last Prod.fst pid
      (o.edgeTypes.flatMap fun e => e.properties.map fun p => (p.id, p.name)) =
        (last (·.id) pid (o.edgeTypes.flatMap (·.properties))).map fun p => (p.id, p.name) := by
    have hmap : last Prod.fst pid ((o.edgeTypes.flatMap (·.properties)).map
        fun p => (p.id, p.name)) =
          (last (·.id) pid (o.edgeTypes.flatMap (·.properties))).map fun p => (p.id, p.name) :=
      @last_map PropertyDef PropertyId _ PropertyDef.id (PropertyId × PropertyKey) Prod.fst
        (fun p => (p.id, p.name)) (fun _ => rfl) pid _
    rw [← hmap, map_flatMap]
  obtain ⟨p, hp, hname⟩ := Option.map_eq_some_iff.1 h
  unfold resolvePropName propIdToName
  rw [last_append_of_some, hedges, hp]
  simp [hname]

section

variable (ho : o.Indexed) (hn : n ∈ o.nodeTypes)
include ho hn

theorem propName_of_node {p : PropertyDef} (hp : p ∈ n.properties) (h : o.edgeNameOf p.id = none) :
    o.resolvePropName p.id = p.name.val := by
  have hedges : last Prod.fst p.id
      (o.edgeTypes.flatMap fun e => e.properties.map fun p => (p.id, p.name)) = none := by
    have hnone := Option.map_eq_none_iff.1 h
    rw [last_none_iff] at hnone ⊢
    simpa [Function.comp_def, map_flatMap] using hnone
  have hnodes : last Prod.fst p.id
      (o.nodeTypes.flatMap fun n => n.properties.map fun p => (p.id, p.name)) =
        some (p.id, p.name) := by
    have hnd : ((o.nodeTypes.flatMap fun n => n.properties.map fun p => (p.id, p.name)).map
        Prod.fst).Nodup := by
      simpa [map_flatMap, Function.comp_def] using ho.propertyIds
    rw [last_some_iff Prod.fst hnd]
    exact ⟨mem_flatMap.2 ⟨n, hn, mem_map_of_mem hp⟩, rfl⟩
  unfold resolvePropName propIdToName
  rw [last_append_of_some, hedges, hnodes]
  rfl

/-- A constraint's property comes back exactly when it is written back. -/
theorem resolveProp_propName_iff (hnames : (n.properties.map (·.name)).Nodup) :
    resolveProp n.propNames (o.resolvePropName pid) = some pid ↔ o.WrittenBack n pid := by
  rw [resolveProp_iff hnames]
  refine exists_congr fun p => and_congr_right fun hp => and_congr_right fun hid => ?_
  subst hid
  cases hedge : o.edgeNameOf p.id with
  | none =>
    rw [propName_of_node ho hn hp hedge]
    simp
  | some key =>
    rw [propName_of_edge hedge]
    simp only [Option.some.injEq, forall_eq']
    simp only [PropertyKey.ext_iff, ne_eq, eq_comm (a := key.val)]

/-- An index's property comes back exactly when it is written under its own
name. -/
theorem find?_propName_iff (hnames : (n.properties.map (·.name)).Nodup) :
    (n.propNames.find? fun e => e.1 = o.resolvePropName pid).map (·.2) = some pid ↔
      o.WrittenAs n pid := by
  rw [find?_name_iff hnames]
  refine exists_congr fun p => and_congr_right fun hp => and_congr_right fun hid => ?_
  subst hid
  cases hedge : o.edgeNameOf p.id with
  | none =>
    rw [propName_of_node ho hn hp hedge]
    simp
  | some key =>
    rw [propName_of_edge hedge]
    simp only [Option.some.injEq, forall_eq']
    rw [PropertyKey.ext_iff, eq_comm]

theorem resolveNodeLabel_of_mem : o.resolveNodeLabel n.id = n.label.val := by
  unfold OntologyIR.resolveNodeLabel
  rw [(last_some_iff NodeTypeDef.id ho.nodeIds).2 ⟨hn, rfl⟩]
  rfl

end

end

end OntologyIR

section

variable (ctx : NormalizeContext) (owner : String) (names : List (String × PropertyId))

/-- The reference loop finds the listed ids when each name leads back to its
id. -/
theorem resolveProperties_eq_iff (name : PropertyId → String) (pids : List PropertyId) :
    resolveProperties ctx owner names (pids.map name) = { ids := pids } ↔
      ∀ pid ∈ pids, resolveProp names (name pid) = some pid := by
  induction pids with
  | nil => simp [resolveProperties]
  | cons pid pids ih =>
    rw [forall_mem_cons, ← ih, map_cons, resolveProperties]
    cases hrest : resolveProperties ctx owner names (pids.map name) with
    | mk ids unresolved warnings =>
      cases hid : resolveProp names (name pid) with
      | some id => simp [and_assoc]
      | none =>
        cases fuzzyResolveProp ctx names (name pid) with
        | none => simp
        | some matched => simp

theorem constraintProperties_eq_iff (name : PropertyId → String)
    {pids : List PropertyId} (hne : pids ≠ []) :
    normalizeConstraintProperties ctx owner names (pids.map name) = (some pids, []) ↔
      ∀ pid ∈ pids, resolveProp names (name pid) = some pid := by
  rw [← resolveProperties_eq_iff ctx owner names name pids]
  unfold normalizeConstraintProperties
  cases resolveProperties ctx owner names (pids.map name) with
  | mk ids unresolved warnings =>
    by_cases hids : ids = []
    · simp [hids, Ne.symm hne]
    · by_cases hrest : unresolved = []
      · simp [hids, hrest]
      · simp [hids, hrest]

variable {ctx owner names}

theorem constraintProperties_dropped {ps : List String}
    (h : (normalizeConstraintProperties ctx owner names ps).1 = none) :
    (normalizeConstraintProperties ctx owner names ps).2 ≠ [] := by
  unfold normalizeConstraintProperties at h ⊢
  by_cases hids : (resolveProperties ctx owner names ps).ids = []
  · simp [hids]
  · simp [hids] at h

theorem normalizeConstraint_dropped {place : IdPlace} {c : InputNodeConstraint}
    (h : (normalizeConstraint ctx place owner names c).1 = none) :
    (normalizeConstraint ctx place owner names c).2 ≠ [] := by
  cases c with
  | unique id ps
  | nodeKey id ps => exact constraintProperties_dropped (Option.map_eq_none_iff.1 h)
  | exists_ id p =>
    unfold normalizeConstraint at h ⊢
    cases hp : resolveProp names p with
    | some pid => simp [hp] at h
    | none =>
      cases hf : fuzzyResolveProp ctx names p with
      | some matched => simp [hp, hf] at h
      | none => simp [hp, hf]

/-- A written constraint comes back as it was when each of its properties does. -/
theorem normalizeConstraint_export_iff {o : OntologyIR} {place : IdPlace} {cd : ConstraintDef}
    (hne : cd.constraint.properties ≠ []) :
    normalizeConstraint ctx place owner names (o.exportConstraint cd) = (some cd, []) ↔
      ∀ pid ∈ cd.constraint.properties, resolveProp names (o.resolvePropName pid) = some pid := by
  obtain ⟨id, c⟩ := cd
  cases c with
  | unique pids | nodeKey pids =>
    have hlist := constraintProperties_eq_iff ctx owner names o.resolvePropName hne
    refine Iff.trans ?_ hlist
    unfold exportConstraint normalizeConstraint
    simp [Prod.ext_iff, NormalizeContext.ensureId, NodeConstraint.properties]
  | exists_ pid =>
    unfold exportConstraint normalizeConstraint
    simp only [NodeConstraint.properties, mem_singleton, forall_eq]
    cases resolveProp names (o.resolvePropName pid) with
    | some found => simp [NormalizeContext.ensureId]
    | none =>
      cases fuzzyResolveProp ctx names (o.resolvePropName pid) with
      | some matched => simp
      | none => simp

end

/-! ## Indexes -/

section

variable (ctx : NormalizeContext) {o : OntologyIR} {n : NodeTypeDef}

/-- `label_to_node_id` and `node_prop_map` of a written ontology. -/
def OntologyIR.nodeNames (o : OntologyIR) : NodeNames where
  labelToNodeId := o.nodeTypes.map fun n => (n.label.val, n.id)
  nodePropMap := o.nodeTypes.map fun n => (n.label.val, n.propNames)

section

variable (ho : o.Indexed) (hn : n ∈ o.nodeTypes)
include ho hn

theorem last_label {β : Type} (f : NodeTypeDef → β) :
    last Prod.fst n.label.val (o.nodeTypes.map fun n => (n.label.val, f n)) =
      some (n.label.val, f n) := by
  have hnd : ((o.nodeTypes.map fun n => (n.label.val, f n)).map Prod.fst).Nodup := by
    rw [map_map]
    exact (nodup_map_iff_inj_on (Nodup.of_map _ ho.nodeLabels)).2 fun x hx y hy hxy =>
      eq_of_key_eq (·.label) ho.nodeLabels hx hy (GraphLabel.ext hxy)
  rw [last_some_iff Prod.fst hnd]
  exact ⟨mem_map_of_mem hn, rfl⟩

theorem resolveNode_export :
    resolveNode o.nodeNames.labelToNodeId (o.resolveNodeLabel n.id) = some n.id := by
  unfold resolveNode nodeNames
  rw [resolveNodeLabel_of_mem ho hn, last_label ho hn (·.id)]
  rfl

/-- The property loop of an index finds the listed ids when each is found by its
written name. -/
theorem resolveProperties_export_iff (desc : String) (pids : List PropertyId) :
    resolveIndexProperties o.nodeNames n.label.val (pids.map o.resolvePropName) desc = (pids, []) ↔
      ∀ pid ∈ pids,
        (n.propNames.find? fun e => e.1 = o.resolvePropName pid).map (·.2) = some pid := by
  unfold resolveIndexProperties nodeNames
  simp only [last_label ho hn]
  induction pids with
  | nil => simp [collect]
  | cons pid pids ih =>
    rw [forall_mem_cons, ← ih]
    simp only [collect, map_cons, filterMap_cons, flatMap_cons, Prod.mk.injEq, append_eq_nil_iff]
    cases n.propNames.find? fun e : String × PropertyId => e.1 = o.resolvePropName pid with
    | none => simp
    | some e => simp [and_assoc]

/-- `resolve_index` finds what an index holds when each property is found by its
written name. -/
theorem resolveIndex_export_iff (desc : String) {pids : List PropertyId} (hne : pids ≠ []) :
    resolveIndex o.nodeNames (o.resolveNodeLabel n.id) (pids.map o.resolvePropName) desc =
        (some (n.id, pids), []) ↔ ∀ pid ∈ pids,
        (n.propNames.find? fun e => e.1 = o.resolvePropName pid).map (·.2) = some pid := by
  rw [← resolveProperties_export_iff ho hn desc, resolveNodeLabel_of_mem ho hn]
  unfold resolveIndex
  rw [show last Prod.fst n.label.val o.nodeNames.labelToNodeId = some (n.label.val, n.id) from
    last_label ho hn (·.id)]
  dsimp only
  generalize resolveIndexProperties o.nodeNames n.label.val _ desc = found
  by_cases hids : found.1 = []
  · rw [if_pos hids]
    simp [Prod.ext_iff, hids, Ne.symm hne]
  · rw [if_neg hids]
    simp [Prod.ext_iff]

end

variable {names : NodeNames} {label desc : String} {pns : List String}

/-- An index that is not resolved leaves a warning. -/
theorem resolveIndex_dropped (h : (resolveIndex names label pns desc).1 = none) :
    (resolveIndex names label pns desc).2 ≠ [] := by
  unfold resolveIndex at h ⊢
  cases hlabel : last Prod.fst label names.labelToNodeId with
  | none => simp
  | some e =>
    rw [hlabel] at h
    by_cases hids : (resolveIndexProperties names label pns desc).1 = []
    · simp [hids]
    · simp [hids] at h

theorem resolveIndex_ne_nil {e : NodeTypeId × List PropertyId}
    (h : (resolveIndex names label pns desc).1 = some e) : e.2 ≠ [] := by
  unfold resolveIndex at h
  cases hlabel : last Prod.fst label names.labelToNodeId with
  | none =>
    rw [hlabel] at h
    cases h
  | some l =>
    rw [hlabel] at h
    by_cases hids : (resolveIndexProperties names label pns desc).1 = []
    · simp [hids] at h
    · simp only [if_neg hids, Option.some.injEq] at h
      rw [← h]
      exact hids

/-- The first of the resolved properties, which `single` and `vector` keep, is
there when the index is. -/
theorem resolveIndex_head_none_iff {β : Type} (f : NodeTypeId → PropertyId → β) :
    ((resolveIndex names label pns desc).1.bind fun (nodeId, ids) =>
        ids.head?.map fun pid => f nodeId pid) = none ↔
      (resolveIndex names label pns desc).1 = none := by
  cases h : (resolveIndex names label pns desc).1 with
  | none => simp
  | some e =>
    have hne := resolveIndex_ne_nil h
    obtain ⟨nodeId, ids⟩ := e
    cases ids with
    | nil => exact absurd rfl hne
    | cons pid ids => simp

theorem resolveIndex_singleton {p : String} {e : NodeTypeId × List PropertyId}
    (h : (resolveIndex names label [p] desc).1 = some e) : ∃ pid, e.2 = [pid] := by
  have hshort : (resolveIndexProperties names label [p] desc).1.length ≤ 1 := by
    unfold resolveIndexProperties
    cases last Prod.fst label names.nodePropMap with
    | none => simp
    | some props => exact length_filterMap_le ..
  have hne := resolveIndex_ne_nil h
  have hids : e.2 = (resolveIndexProperties names label [p] desc).1 := by
    unfold resolveIndex at h
    cases hlabel : last Prod.fst label names.labelToNodeId with
    | none =>
      rw [hlabel] at h
      cases h
    | some l =>
      rw [hlabel] at h
      by_cases hids : (resolveIndexProperties names label [p] desc).1 = []
      · simp [hids] at h
      · simp only [if_neg hids, Option.some.injEq] at h
        rw [← h]
  rw [← hids] at hshort
  exact length_eq_one_iff.1 (by
    have := length_pos_iff.2 hne
    omega)

/-- Keeping the first resolved property of one name loses nothing. -/
theorem resolveIndex_head_eq_iff {β : Type} {p : String} {f : NodeTypeId → PropertyId → β}
    (hf : ∀ {a b c d}, f a b = f c d → a = c ∧ b = d) {nodeId : NodeTypeId} {pid : PropertyId} :
    ((resolveIndex names label [p] desc).1.bind fun (nodeId, ids) =>
        ids.head?.map fun pid => f nodeId pid, (resolveIndex names label [p] desc).2) =
          (some (f nodeId pid), []) ↔
      resolveIndex names label [p] desc = (some (nodeId, [pid]), []) := by
  rw [Prod.ext_iff, Prod.ext_iff]
  refine and_congr_left fun _ => ?_
  cases h : (resolveIndex names label [p] desc).1 with
  | none => simp
  | some e =>
    obtain ⟨only, hids⟩ := resolveIndex_singleton h
    obtain ⟨a, ids⟩ := e
    have hids : ids = [only] := hids
    subst hids
    simp only [Option.bind_some, head?_cons, Option.map_some, Option.some.injEq,
      Prod.mk.injEq, List.cons.injEq, and_true]
    constructor
    · exact hf
    · intro heq
      rw [heq.1, heq.2]

theorem normalizeIndex_dropped {entry : InputIndexDef × Nat}
    (h : (normalizeIndex ctx names entry).1 = none) : (normalizeIndex ctx names entry).2 ≠ [] := by
  obtain ⟨idx, i⟩ := entry
  cases idx with
  | single id label p =>
    exact resolveIndex_dropped
      ((resolveIndex_head_none_iff (IndexDef.single (ctx.ensureId (.index i) id))).1 h)
  | composite id label ps => exact resolveIndex_dropped (Option.map_eq_none_iff.1 h)
  | fullText id name label ps =>
    unfold normalizeIndex at h ⊢
    dsimp only at h ⊢
    cases hfound : (resolveIndex names label ps ("fulltext '" ++ name ++ "'")).1 with
    | none => exact resolveIndex_dropped hfound
    | some e =>
      rw [hfound] at h
      cases hname : GraphLabel.new name with
      | none => simp
      | some l => simp [hname] at h
  | vector id label p dimensions similarity =>
    exact resolveIndex_dropped ((resolveIndex_head_none_iff fun nodeId pid =>
      IndexDef.vector (ctx.ensureId (.index i) id) nodeId pid dimensions similarity).1 h)

/-- A written index comes back as it was when each of its properties is found by
its written name. -/
theorem normalizeIndex_export_iff (ho : o.Indexed) {idx : IndexDef} (hn : n ∈ o.nodeTypes)
    (hnode : n.id = idx.nodeId) (hne : idx.properties ≠ []) (i : Nat) :
    normalizeIndex ctx o.nodeNames (o.exportIndex idx, i) = (some idx, []) ↔ ∀ pid ∈ idx.properties,
        (n.propNames.find? fun e => e.1 = o.resolvePropName pid).map (·.2) = some pid := by
  have hres (desc : String) := resolveIndex_export_iff ho hn desc hne
  rw [hnode] at hres
  cases idx with
  | single id nodeId pid =>
    refine Iff.trans ?_ (hres ("single on " ++ o.resolveNodeLabel nodeId ++ "." ++
      o.resolvePropName pid))
    unfold exportIndex normalizeIndex
    dsimp only [IndexDef.nodeId, IndexDef.properties, map_cons, map_nil]
    exact resolveIndex_head_eq_iff fun h => by
      injection h with _ hnode hpid
      exact ⟨hnode, hpid⟩
  | composite id nodeId pids =>
    refine Iff.trans ?_ (hres ("composite on " ++ o.resolveNodeLabel nodeId))
    unfold exportIndex normalizeIndex
    dsimp only [IndexDef.nodeId, IndexDef.properties]
    generalize resolveIndex _ _ _ _ = found
    simp [Prod.ext_iff, NormalizeContext.ensureId]
  | fullText id name nodeId pids =>
    refine Iff.trans ?_ (hres ("fulltext '" ++ name.val ++ "'"))
    unfold exportIndex normalizeIndex
    dsimp only [IndexDef.nodeId, IndexDef.properties]
    generalize resolveIndex _ _ _ _ = found
    obtain ⟨_ | e, ws⟩ := found
    · simp
    · simp [NormalizeContext.ensureId, Prod.ext_iff]
  | vector id nodeId pid dimensions similarity =>
    refine Iff.trans ?_ (hres ("vector on " ++ o.resolveNodeLabel nodeId ++ "." ++
      o.resolvePropName pid))
    unfold exportIndex normalizeIndex
    dsimp only [IndexDef.nodeId, IndexDef.properties, map_cons, map_nil]
    refine resolveIndex_head_eq_iff
      (f := fun nodeId pid => IndexDef.vector id nodeId pid dimensions similarity) fun h => ?_
    injection h with _ hnode hpid _ _
    exact ⟨hnode, hpid⟩

end

end Ontosyx.Ontology
