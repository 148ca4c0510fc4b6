import Ontosyx.Query.Temporal

/-!
# Ambiguous renames

Which ambiguous renames the label tables refuse.  A table is built from the types
whose label changed, so it sees two renamed types of one label that went apart,
and nothing else: not a type that kept a label which another type of that label
lost, not two labels that were one in the snapshot, and not a label that a new
type took over from a renamed one.

## Main results

* `diffLabels_isOk_iff` — when a label table is refused.
* `rejectsAmbiguity_iff` — the queries for which a rewrite refuses every
  ambiguous label and substitutes injectively.
-/

namespace Ontosyx.Query

open List Ontosyx.Core Ontology Lib.Keyed Option Prod Or

/-! ## Label tables -/

section

variable {ι ε : Type} (types : List (ι × GraphLabel)) (snap : ι → Option GraphLabel)

/-- Some type carries the label `l` now and another one, `m`, in the snapshot. -/
def Renamed (l m : GraphLabel) : Prop :=
  ∃ i, (i, l) ∈ types ∧ snap i = some m ∧ m ≠ l

/-- Two types of one label were both renamed, to different labels. -/
def Conflicting : Prop :=
  ∃ l m m', Renamed types snap l m ∧ Renamed types snap l m' ∧ m ≠ m'

variable {types snap}

theorem tableGet_append {κ β : Type} [DecidableEq κ] (table : List (κ × β)) (k k' : κ) (v : β) :
    tableGet (table ++ [(k, v)]) k' = if k = k' then some v else tableGet table k' := by
  by_cases hk : k = k'
  · simp [tableGet, last, hk]
  · simp [tableGet, last, hk]

variable {map : LabelRenames}

/-- One more renamed type, whose label is free or already has the same rename. -/
theorem get_append_rename {l m : GraphLabel} (hm : ∀ x, tableGet map l = some x → x = m)
    (l' m' : GraphLabel) : tableGet (map ++ [(l, m)]) l' = some m' ↔
      tableGet map l' = some m' ∨ (l' = l ∧ m' = m) := by
  rw [tableGet_append]
  by_cases hl : l = l'
  · subst hl
    rw [if_pos rfl]
    constructor
    · intro h
      exact inr ⟨rfl, (some.inj h).symm⟩
    · intro h
      rcases h with h | ⟨-, h⟩
      · rw [hm _ h]
      · rw [h]
  · rw [if_neg hl]
    constructor
    · exact inl
    · intro h
      rcases h with h | ⟨h, -⟩
      · exact h
      · exact absurd h.symm hl

theorem renamed_cons {i : ι} {l₀ : GraphLabel} {types : List (ι × GraphLabel)} {l m : GraphLabel} :
    Renamed ((i, l₀) :: types) snap l m ↔
      (l = l₀ ∧ snap i = some m ∧ m ≠ l) ∨ Renamed types snap l m := by
  constructor
  · intro h
    obtain ⟨j, hj, hs, hne⟩ := h
    rcases mem_cons.1 hj with hj | hj
    · obtain ⟨rfl, rfl⟩ := mk.inj hj
      exact inl ⟨rfl, hs, hne⟩
    · exact inr ⟨j, hj, hs, hne⟩
  · intro h
    rcases h with ⟨rfl, hs, hne⟩ | ⟨j, hj, hs, hne⟩
    · exact ⟨i, mem_cons_self, hs, hne⟩
    · exact ⟨j, mem_cons_of_mem _ hj, hs, hne⟩

variable {err : GraphLabel → GraphLabel → GraphLabel → ε}

/-- What a table holds once the types are recorded: the entries it had and the
renames of the types. -/
theorem get_of_diffLabels {out : LabelRenames} (h : diffLabels err snap map types = .ok out)
    (l m : GraphLabel) :
    tableGet out l = some m ↔ tableGet map l = some m ∨ Renamed types snap l m := by
  induction types generalizing map with
  | nil =>
    cases h
    simp [Renamed]
  | cons t types ih =>
    obtain ⟨i, l₀⟩ := t
    rw [renamed_cons]
    simp only [diffLabels] at h
    cases hs : snap i with
    | none =>
      rw [hs] at h
      simpa using ih h
    | some m₀ =>
      simp only [hs] at h
      by_cases hm : m₀ = l₀
      · rw [if_pos hm] at h
        rw [ih h]
        have hno : ¬(l = l₀ ∧ some m₀ = some m ∧ m ≠ l) := by
          intro hx
          exact hx.2.2 (by rw [← some.inj hx.2.1, hm, hx.1])
        rw [or_iff_right hno]
      · rw [if_neg hm] at h
        have hout : diffLabels err snap (map ++ [(l₀, m₀)]) types = .ok out ∧
            ∀ x, tableGet map l₀ = some x → x = m₀ := by
          cases hg : tableGet map l₀ with
          | none => simpa [hg] using h
          | some x =>
            simp only [hg] at h
            by_cases hx : x = m₀
            · rw [if_pos hx] at h
              exact ⟨h, fun y hy => (some.inj hy).symm.trans hx⟩
            · rw [if_neg hx] at h
              cases h
        rw [ih hout.1, get_append_rename hout.2]
        constructor
        · intro hx
          rcases hx with (hx | ⟨rfl, rfl⟩) | hx
          · exact inl hx
          · exact inr (inl ⟨rfl, rfl, hm⟩)
          · exact inr (inr hx)
        · intro hx
          rcases hx with hx | ⟨rfl, hx, -⟩ | hx
          · exact inl (inl hx)
          · exact inl (inr ⟨rfl, (some.inj hx).symm⟩)
          · exact inr hx

/-- Recording succeeds when no label gets two renames. -/
theorem diffLabels_isOk (h : ∀ l m m', (tableGet map l = some m ∨ Renamed types snap l m) →
      (tableGet map l = some m' ∨ Renamed types snap l m') → m = m') :
    ∃ out, diffLabels err snap map types = .ok out := by
  induction types generalizing map with
  | nil => exact ⟨map, rfl⟩
  | cons t types ih =>
    obtain ⟨i, l₀⟩ := t
    simp only [renamed_cons] at h
    simp only [diffLabels]
    have hrest : ∃ out, diffLabels err snap map types = .ok out := by
      apply ih
      intro l m m' hm hm'
      exact h l m m' (hm.imp_right inr) (hm'.imp_right inr)
    cases hs : snap i with
    | none => exact hrest
    | some m₀ =>
      by_cases hm : m₀ = l₀
      · simpa only [if_pos hm] using hrest
      · simp only [if_neg hm]
        have hx : ∀ x, tableGet map l₀ = some x → x = m₀ := by
          intro x hx
          exact h l₀ x m₀ (inl hx) (inr (inl ⟨rfl, hs, hm⟩))
        have hstep : ∃ out, diffLabels err snap (map ++ [(l₀, m₀)]) types = .ok out := by
          apply ih
          intro l m m' h1 h2
          rw [get_append_rename hx] at h1 h2
          apply h l m m'
          · rcases h1 with (h1 | ⟨rfl, rfl⟩) | h1
            · exact inl h1
            · exact inr (inl ⟨rfl, hs, hm⟩)
            · exact inr (inr h1)
          · rcases h2 with (h2 | ⟨rfl, rfl⟩) | h2
            · exact inl h2
            · exact inr (inl ⟨rfl, hs, hm⟩)
            · exact inr (inr h2)
        cases hg : tableGet map l₀ with
        | none => exact hstep
        | some x =>
          show ∃ out, (if x = m₀ then _ else _) = Except.ok out
          rw [if_pos (hx x hg)]
          exact hstep

/-- A label table is refused exactly when two types of one label were renamed to
different labels. -/
theorem diffLabels_isOk_iff :
    (∃ out, diffLabels err snap [] types = .ok out) ↔ ¬Conflicting types snap := by
  constructor
  · intro h hc
    obtain ⟨out, h⟩ := h
    obtain ⟨l, m, m', hm, hm', hne⟩ := hc
    have h1 := (get_of_diffLabels h l m).2 (inr hm)
    have h2 := (get_of_diffLabels h l m').2 (inr hm')
    exact hne (some.inj (h1.symm.trans h2))
  · intro hc
    apply diffLabels_isOk
    intro l m m' hm hm'
    by_contra hne
    simp only [tableGet_nil, reduceCtorEq, false_or] at hm hm'
    exact hc ⟨l, m, m', hm, hm', hne⟩

variable (types snap)

/-- A label is ambiguous when several types carry it that do not all carry one and
the same label in the snapshot, or when a type that carries it has there the label
of a type that carries another one. -/
def Ambiguous (l : GraphLabel) : Prop :=
  ((∃ i j, i ≠ j ∧ (i, l) ∈ types ∧ (j, l) ∈ types) ∧ ¬∃ m, ∀ i, (i, l) ∈ types → snap i = some m) ∨
    ∃ i j l' m, (i, l) ∈ types ∧ (j, l') ∈ types ∧ l' ≠ l ∧ snap i = some m ∧ snap j = some m

/-- Several types carry the label, and one of them is missing in the snapshot, or
one was renamed and another one was not. -/
def SplitLabel (l : GraphLabel) : Prop :=
  (∃ i j, i ≠ j ∧ (i, l) ∈ types ∧ (j, l) ∈ types) ∧
    ((∃ i, (i, l) ∈ types ∧ snap i = none) ∨
      (∃ i, (i, l) ∈ types ∧ snap i = some l) ∧ ∃ m, Renamed types snap l m)

/-- A type of this label shares its snapshot label with a type of another label. -/
def MergedLabel (l : GraphLabel) : Prop :=
  ∃ i j l' m, (i, l) ∈ types ∧ (j, l') ∈ types ∧ l' ≠ l ∧ snap i = some m ∧ snap j = some m

/-- Both labels are touched; the first was renamed from the second, which since
then only new types carry. -/
def Reclaimed (touched : List GraphLabel) : Prop :=
  ∃ a ∈ touched, ∃ b ∈ touched, Renamed types snap a b ∧ ∀ j, (j, b) ∈ types → snap j = none

variable {types snap}

theorem ambiguous_iff (hc : ¬Conflicting types snap) (l : GraphLabel) :
    Ambiguous types snap l ↔ SplitLabel types snap l ∨ MergedLabel types snap l := by
  apply or_congr_left
  apply and_congr_right
  intro hij
  obtain ⟨i, -, -, hi, -⟩ := hij
  constructor
  · intro h
    by_contra hno
    rw [not_or] at hno
    apply h
    -- the types are all in the snapshot, and all renamed or all kept
    have hsome : ∀ j, (j, l) ∈ types → ∃ m, snap j = some m := by
      intro j hj
      cases hs : snap j with
      | none => exact absurd ⟨j, hj, hs⟩ hno.1
      | some m => exact ⟨m, rfl⟩
    by_cases hkept : ∃ j, (j, l) ∈ types ∧ snap j = some l
    · refine ⟨l, fun j hj => ?_⟩
      obtain ⟨m, hm⟩ := hsome j hj
      by_cases hl : m = l
      · rw [hm, hl]
      · exact absurd ⟨hkept, m, j, hj, hm, hl⟩ hno.2
    · obtain ⟨m, hm⟩ := hsome i hi
      have hne : m ≠ l := by
        intro hl
        exact hkept ⟨i, hi, hl ▸ hm⟩
      refine ⟨m, fun j hj => ?_⟩
      obtain ⟨m', hm'⟩ := hsome j hj
      have hne' : m' ≠ l := by
        intro hl
        exact hkept ⟨j, hj, hl ▸ hm'⟩
      by_cases hmm : m' = m
      · rw [hm', hmm]
      · exact absurd ⟨l, m', m, ⟨j, hj, hm', hne'⟩, ⟨i, hi, hm, hne⟩, hmm⟩ hc
  · intro h hall
    obtain ⟨m, hm⟩ := hall
    rcases h with ⟨j, hj, hs⟩ | ⟨⟨j, hj, hs⟩, m', k, hk, hs', hne⟩
    · rw [hm j hj] at hs
      cases hs
    · have h1 := (hm j hj).symm.trans hs
      have h2 := (hm k hk).symm.trans hs'
      exact hne (some.inj (h2.symm.trans h1))

/-- The substitution of a table that was not refused. -/
theorem swap_of_diffLabels (h : diffLabels err snap [] types = .ok map) (a : GraphLabel) :
    Renamed types snap a (swapIfRenamed map a) ∨
      swapIfRenamed map a = a ∧ ∀ m, ¬Renamed types snap a m := by
  have hg := get_of_diffLabels h a
  simp only [tableGet_nil, reduceCtorEq, false_or] at hg
  cases hm : tableGet map a with
  | some m =>
    rw [swapIfRenamed, hm, getD_some]
    exact inl ((hg m).1 hm)
  | none =>
    rw [swapIfRenamed, hm, getD_none]
    refine inr ⟨rfl, fun m hr => ?_⟩
    rw [(hg m).2 hr] at hm
    cases hm

/-- When no touched label is merged with another one, the substitution is
injective on them unless one of them was reclaimed. -/
theorem swap_injective_iff (h : diffLabels err snap [] types = .ok map)
    (touched : List GraphLabel) (hm : ∀ l ∈ touched, ¬MergedLabel types snap l) :
    (∀ a ∈ touched, ∀ b ∈ touched, swapIfRenamed map a = swapIfRenamed map b → a = b) ↔
      ¬Reclaimed types snap touched := by
  have hs := swap_of_diffLabels h
  constructor
  · intro hinj hr
    obtain ⟨a, ha, b, hb, hab, hnew⟩ := hr
    have hne : b ≠ a := by
      obtain ⟨i, -, -, hne⟩ := hab
      exact hne
    have hb' : swapIfRenamed map b = b := by
      rcases hs b with ⟨j, hj, hjs, -⟩ | ⟨hb', -⟩
      · rw [hnew j hj] at hjs
        cases hjs
      · exact hb'
    have ha' : swapIfRenamed map a = b := by
      rcases hs a with hr | ⟨-, hno⟩
      · have h1 := (get_of_diffLabels h a b).2 (inr hab)
        rw [swapIfRenamed, h1, getD_some]
      · exact absurd hab (hno b)
    exact hne (hinj a ha b hb (ha'.trans hb'.symm)).symm
  · intro hr a ha b hb heq
    by_contra hne
    -- one renamed label and one that stays: the second is new or merged with the first
    have hone : ∀ a ∈ touched, ∀ b ∈ touched, a ≠ b → Renamed types snap a b →
        (∀ m, ¬Renamed types snap b m) → False := by
      intro a ha b hb hne hab hno
      apply hr
      refine ⟨a, ha, b, hb, hab, fun j hj => ?_⟩
      cases hsj : snap j with
      | none => rfl
      | some m =>
        by_cases hmb : m = b
        · obtain ⟨i, hi, his, -⟩ := hab
          exact absurd ⟨i, j, b, b, hi, hj, Ne.symm hne, his, hmb ▸ hsj⟩ (hm a ha)
        · exact absurd ⟨j, hj, hsj, hmb⟩ (hno m)
    rcases hs a with hra | ⟨hka, hna⟩
    · rcases hs b with hrb | ⟨hkb, hnb⟩
      · obtain ⟨i, hi, his, -⟩ := hra
        obtain ⟨j, hj, hjs, -⟩ := hrb
        exact hm a ha ⟨i, j, b, _, hi, hj, Ne.symm hne, his, heq ▸ hjs⟩
      · rw [heq, hkb] at hra
        exact hone a ha b hb hne hra hnb
    · rcases hs b with hrb | ⟨hkb, -⟩
      · rw [← heq, hka] at hrb
        exact hone b hb a ha (Ne.symm hne) hrb hna
      · exact hne (hka.symm.trans (heq.trans hkb))

end

def QueryIR.nodeLabelsUsed (q : QueryIR) : List GraphLabel :=
  (q.sites everywhere true []).filterMap fun x =>
    match x.mention with
    | .nodeLabel l => some l
    | _ => none

def QueryIR.edgeLabelsUsed (q : QueryIR) : List GraphLabel :=
  (q.sites everywhere true []).filterMap fun x =>
    match x.mention with
    | .edgeLabel l => some l
    | _ => none

def QueryIR.nodeLabelsTouched (current : OntologyIR) (q : QueryIR) : List GraphLabel :=
  (q.sites (temporalWalks current) true []).filterMap fun x =>
    match x.mention with
    | .nodeLabel l => if x.walked then some l else none
    | _ => none

def QueryIR.edgeLabelsTouched (current : OntologyIR) (q : QueryIR) : List GraphLabel :=
  (q.sites (temporalWalks current) true []).filterMap fun x =>
    match x.mention with
    | .edgeLabel l => if x.walked then some l else none
    | _ => none

variable {l : GraphLabel}

theorem QueryIR.mem_edgeLabelsUsed {current : OntologyIR} {q : QueryIR}
    (h : l ∈ q.edgeLabelsTouched current) : l ∈ q.edgeLabelsUsed := by
  rw [edgeLabelsTouched, mem_filterMap] at h
  obtain ⟨x, hx, hl⟩ := h
  rw [edgeLabelsUsed, mem_filterMap, q.sites_everywhere (temporalWalks current)]
  refine ⟨_, mem_map_of_mem hx, ?_⟩
  obtain ⟨w, s, m⟩ := x
  cases m with
  | edgeLabel l' =>
    cases w with
    | false => cases hl
    | true => exact hl
  | _ => cases hl

/-! ## Node and edge types -/

def nodeTypeLabels (o : OntologyIR) : List (NodeTypeId × GraphLabel) :=
  o.nodeTypes.map fun n => (n.id, n.label)

def edgeTypeLabels (o : OntologyIR) : List (EdgeTypeId × GraphLabel) :=
  o.edgeTypes.map fun e => (e.id, e.label)

theorem nodeTypeLabels_inj {o : OntologyIR} (ho : o.Indexed) {i j : NodeTypeId}
    (hi : (i, l) ∈ nodeTypeLabels o) (hj : (j, l) ∈ nodeTypeLabels o) : i = j := by
  obtain ⟨n, hn, hni⟩ := mem_map.1 hi
  obtain ⟨m, hm, hmj⟩ := mem_map.1 hj
  cases hni
  have hlab : n.label = m.label := (congrArg snd hmj).symm
  have h := eq_of_key_eq NodeTypeDef.label ho.nodeLabels hn hm hlab
  rw [h]
  exact congrArg fst hmj

theorem nodeTypeLabels_fun {o : OntologyIR} (ho : o.Indexed) {i : NodeTypeId} {l' : GraphLabel}
    (hi : (i, l) ∈ nodeTypeLabels o) (hj : (i, l') ∈ nodeTypeLabels o) : l = l' := by
  obtain ⟨n, hn, hni⟩ := mem_map.1 hi
  obtain ⟨m, hm, hmj⟩ := mem_map.1 hj
  cases hni
  have hid : n.id = m.id := (congrArg fst hmj).symm
  have h := eq_of_key_eq NodeTypeDef.id ho.nodeIds hn hm hid
  rw [h]
  exact congrArg snd hmj

theorem mem_of_nodeLabelById {o : OntologyIR} {i : NodeTypeId} (h : nodeLabelById o i = some l) :
    (i, l) ∈ nodeTypeLabels o := by
  obtain ⟨n, hn, rfl⟩ := map_eq_some_iff.1 h
  exact mem_map.2 ⟨n, mem_of_last _ hn, by rw [key_of_last _ hn]⟩

section

variable {snapshot current : OntologyIR} (hs : snapshot.Indexed) (hc : current.Indexed)

include hs hc

/-- Two node types never share a label, neither now nor in the snapshot. -/
theorem not_mergedLabel_node (l : GraphLabel) :
    ¬MergedLabel (nodeTypeLabels current) (nodeLabelById snapshot) l := by
  intro h
  obtain ⟨i, j, l', m, hi, hj, hne, hsi, hsj⟩ := h
  have hij := nodeTypeLabels_inj hs (mem_of_nodeLabelById hsi) (mem_of_nodeLabelById hsj)
  subst hij
  exact hne (nodeTypeLabels_fun hc hj hi)

omit hs in
theorem not_splitLabel_node (l : GraphLabel) :
    ¬SplitLabel (nodeTypeLabels current) (nodeLabelById snapshot) l := by
  intro h
  obtain ⟨⟨i, j, hne, hi, hj⟩, -⟩ := h
  exact hne (nodeTypeLabels_inj hc hi hj)

omit hs in
theorem not_conflicting_node : ¬Conflicting (nodeTypeLabels current) (nodeLabelById snapshot) := by
  intro h
  obtain ⟨l, m, m', ⟨i, hi, hsi, -⟩, ⟨j, hj, hsj, -⟩, hne⟩ := h
  rw [nodeTypeLabels_inj hc hi hj] at hsi
  exact hne (some.inj (hsi.symm.trans hsj))

end

/-- A rewrite to a snapshot refuses every query with an ambiguous label, and
substitutes injectively otherwise.  A query without a pivot is handed back as it
came; nothing is rewritten. -/
def RejectsAmbiguity (q : QueryIR) (snapshot current : OntologyIR) : Prop :=
  q.asOf.isSome = true →
    (((∃ l ∈ q.nodeLabelsUsed, Ambiguous (nodeTypeLabels current) (nodeLabelById snapshot) l) ∨
        ∃ l ∈ q.edgeLabelsUsed,
          Ambiguous (edgeTypeLabels current) (edgeLabelById snapshot) l) →
      ∃ e, rewriteTemporalWithRenames q snapshot current = .error e) ∧
    ∀ q', rewriteTemporalWithRenames q snapshot current = .ok q' →
      ∀ nodeLabels edgeLabels, diffNodeLabels current snapshot = .ok nodeLabels →
        diffEdgeLabels current snapshot = .ok edgeLabels →
        (∀ a ∈ q.nodeLabelsTouched current, ∀ b ∈ q.nodeLabelsTouched current,
          swapIfRenamed nodeLabels a = swapIfRenamed nodeLabels b → a = b) ∧
        ∀ a ∈ q.edgeLabelsTouched current, ∀ b ∈ q.edgeLabelsTouched current,
          swapIfRenamed edgeLabels a = swapIfRenamed edgeLabels b → a = b

/-- A rewrite succeeds or fails with its window and its edge label table. -/
theorem temporalRenames_isOk_iff {q : QueryIR} {snapshot current : OntologyIR}
    (hc : current.Indexed) {t : DateTime} (ht : q.asOf = some t) :
    (∃ q', rewriteTemporalWithRenames q snapshot current = .ok q') ↔
      validateWindow t snapshot = .ok () ∧
        ¬Conflicting (edgeTypeLabels current) (edgeLabelById snapshot) := by
  have hn : ∃ out, diffNodeLabels current snapshot = .ok out :=
    diffLabels_isOk_iff.2 (not_conflicting_node hc)
  have he : (∃ out, diffEdgeLabels current snapshot = .ok out) ↔
      ¬Conflicting (edgeTypeLabels current) (edgeLabelById snapshot) := diffLabels_isOk_iff
  rw [← he]
  constructor
  · intro h
    obtain ⟨q', h⟩ := h
    obtain ⟨hw, -, el, -, hel, -⟩ := (temporalRenames_ok_iff ht).1 h
    exact ⟨hw, el, hel⟩
  · intro h
    obtain ⟨hw, el, hel⟩ := h
    obtain ⟨nl, hnl⟩ := hn
    exact ⟨_, (temporalRenames_ok_iff ht).2 ⟨hw, nl, el, hnl, hel, rfl⟩⟩

/-- The queries for which a rewrite refuses every ambiguous label and substitutes
injectively: those it does not reach, those it refuses anyway, and those without a
split, merged or reclaimed label. -/
theorem rejectsAmbiguity_iff (q : QueryIR) (snapshot current : IndexedOntology) :
    RejectsAmbiguity q snapshot.ir current.ir ↔
      (∀ t, q.asOf = some t → validateWindow t snapshot.ir ≠ .ok ()) ∨
        Conflicting (edgeTypeLabels current.ir) (edgeLabelById snapshot.ir) ∨
        ((∀ l ∈ q.edgeLabelsUsed,
            ¬SplitLabel (edgeTypeLabels current.ir) (edgeLabelById snapshot.ir) l ∧
              ¬MergedLabel (edgeTypeLabels current.ir) (edgeLabelById snapshot.ir) l) ∧
          ¬Reclaimed (nodeTypeLabels current.ir) (nodeLabelById snapshot.ir)
            (q.nodeLabelsTouched current.ir) ∧
          ¬Reclaimed (edgeTypeLabels current.ir) (edgeLabelById snapshot.ir)
            (q.edgeLabelsTouched current.ir)) := by
  have hs := snapshot.indexed
  have hc := current.indexed
  have hnodes : ∀ l, ¬Ambiguous (nodeTypeLabels current.ir) (nodeLabelById snapshot.ir) l := by
    intro l h
    rcases (ambiguous_iff (not_conflicting_node hc) l).1 h with h | h
    · exact not_splitLabel_node hc l h
    · exact not_mergedLabel_node hs hc l h
  cases ht : q.asOf with
  | none =>
    have hp : RejectsAmbiguity q snapshot.ir current.ir := by
      intro h
      rw [ht] at h
      cases h
    exact iff_of_true hp (inl (by simp))
  | some t =>
    have hisOk := @temporalRenames_isOk_iff q snapshot.ir current.ir hc t ht
    by_cases hok : validateWindow t snapshot.ir = .ok () ∧
        ¬Conflicting (edgeTypeLabels current.ir) (edgeLabelById snapshot.ir)
    · obtain ⟨q₁, hq₁⟩ := hisOk.2 hok
      obtain ⟨hw, hconf⟩ := hok
      have hleft : ¬∀ t', some t = some t' → validateWindow t' snapshot.ir ≠ .ok () :=
        fun h => h t rfl hw
      rw [or_iff_right hleft, or_iff_right hconf]
      obtain ⟨-, nl, el, hnl, hel, -⟩ := (temporalRenames_ok_iff ht).1 hq₁
      have hnode := swap_injective_iff hnl (q.nodeLabelsTouched current.ir)
        fun l _ => not_mergedLabel_node hs hc l
      constructor
      · intro h
        obtain ⟨herr, hinj⟩ := h (by rw [ht]; rfl)
        have hamb : ∀ l ∈ q.edgeLabelsUsed,
            ¬Ambiguous (edgeTypeLabels current.ir) (edgeLabelById snapshot.ir) l := by
          intro l hl ha
          obtain ⟨e, he⟩ := herr (inr ⟨l, hl, ha⟩)
          rw [hq₁] at he
          cases he
        have hsm : ∀ l ∈ q.edgeLabelsUsed,
            ¬SplitLabel (edgeTypeLabels current.ir) (edgeLabelById snapshot.ir) l ∧
              ¬MergedLabel (edgeTypeLabels current.ir) (edgeLabelById snapshot.ir) l := by
          intro l hl
          have h := hamb l hl
          rw [ambiguous_iff hconf, not_or] at h
          exact h
        obtain ⟨hni, hei⟩ := hinj q₁ hq₁ nl el hnl hel
        have hedge := swap_injective_iff hel (q.edgeLabelsTouched current.ir)
          fun l hl => (hsm l (QueryIR.mem_edgeLabelsUsed hl)).2
        exact ⟨hsm, hnode.1 hni, hedge.1 hei⟩
      · intro h _
        obtain ⟨hsm, hrn, hre⟩ := h
        have hedge := swap_injective_iff hel (q.edgeLabelsTouched current.ir)
          fun l hl => (hsm l (QueryIR.mem_edgeLabelsUsed hl)).2
        constructor
        · intro ha
          rcases ha with ⟨l, -, ha⟩ | ⟨l, hl, ha⟩
          · exact absurd ha (hnodes l)
          · rcases (ambiguous_iff hconf l).1 ha with ha | ha
            · exact absurd ha (hsm l hl).1
            · exact absurd ha (hsm l hl).2
        · intro q' _ nl' el' hnl' hel'
          cases hnl.symm.trans hnl'
          cases hel.symm.trans hel'
          exact ⟨hnode.2 hrn, hedge.2 hre⟩
    · -- the rewrite is refused, and by one of the two causes
      have hno : ¬∃ q', rewriteTemporalWithRenames q snapshot.ir current.ir = .ok q' :=
        fun h => hok (hisOk.1 h)
      have hp : RejectsAmbiguity q snapshot.ir current.ir := by
        intro _
        constructor
        · intro _
          cases he : rewriteTemporalWithRenames q snapshot.ir current.ir with
          | error e => exact ⟨e, rfl⟩
          | ok q' => exact absurd ⟨q', he⟩ hno
        · intro q' hq'
          exact absurd ⟨q', hq'⟩ hno
      refine iff_of_true hp ?_
      by_cases hw : validateWindow t snapshot.ir = .ok ()
      · right
        left
        by_contra hconf
        exact hok ⟨hw, hconf⟩
      · left
        intro t' ht'
        cases ht'
        exact hw

/-- An ontology with a node type and two edge types from it to itself. -/
def customerLinks (first second : GraphLabel) : OntologyIR where
  id := "o"
  name := "o"
  nodeTypes := [{ id := ⟨"customer"⟩, label := ⟨"Customer", .refl true⟩ }]
  edgeTypes :=
    [{ id := ⟨"e1"⟩, label := first, sourceNodeId := ⟨"customer"⟩, targetNodeId := ⟨"customer"⟩ },
      { id := ⟨"e2"⟩, label := second, sourceNodeId := ⟨"customer"⟩,
        targetNodeId := ⟨"customer"⟩ }]

/-- `customerLinks` with distinct keys, as a caller holds it. -/
def indexedCustomerLinks (first second : GraphLabel) : IndexedOntology where
  ir := customerLinks first second
  indexed := ((customerLinks first second).rebuild_ok_iff).1 rfl

/-- `MATCH (a)-[:label]->(b)` at a past instant. -/
def matchEdge (label : GraphLabel) : QueryIR where
  operation := .match_ [.relationship none (some label) ⟨"a"⟩ ⟨"b"⟩ .outgoing [] none] none [] false
    []
  limit := none
  skip := none
  orderBy := []
  asOf := some 0

/-- `OWNS` is the label of two edge types, one of which was `HAS` in the snapshot:
the query is rewritten to `HAS` and loses the other. -/
theorem split_label_not_rejected : ¬RejectsAmbiguity (matchEdge ⟨"OWNS", by decide⟩)
      (indexedCustomerLinks ⟨"HAS", by decide⟩ ⟨"OWNS", by decide⟩).ir
      (indexedCustomerLinks ⟨"OWNS", by decide⟩ ⟨"OWNS", by decide⟩).ir := by
  intro h
  have hsplit : Ambiguous (edgeTypeLabels (customerLinks ⟨"OWNS", by decide⟩ ⟨"OWNS", by decide⟩))
      (edgeLabelById (customerLinks ⟨"HAS", by decide⟩ ⟨"OWNS", by decide⟩))
      ⟨"OWNS", by decide⟩ := by
    left
    refine ⟨⟨⟨"e1"⟩, ⟨"e2"⟩, by decide, by decide, by decide⟩, ?_⟩
    intro hall
    obtain ⟨m, hm⟩ := hall
    have h1 := hm ⟨"e1"⟩ (by decide)
    have h2 := hm ⟨"e2"⟩ (by decide)
    have h12 : edgeLabelById (customerLinks ⟨"HAS", by decide⟩ ⟨"OWNS", by decide⟩) ⟨"e1"⟩ ≠
        edgeLabelById (customerLinks ⟨"HAS", by decide⟩ ⟨"OWNS", by decide⟩) ⟨"e2"⟩ := by decide
    exact h12 (h1.trans h2.symm)
  obtain ⟨e, he⟩ := (h rfl).1 (inr ⟨⟨"OWNS", by decide⟩, by decide, hsplit⟩)
  cases he

end Ontosyx.Query
