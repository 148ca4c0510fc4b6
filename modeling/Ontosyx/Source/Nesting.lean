import Ontosyx.Source.Scan

/-!
# The tables of a JSON payload

The values that a table is made of lie under a path of fields, each of which
holds objects or arrays of objects (`Node`).  The analyzer goes down these paths
with the values at hand; the scan finds a path again from the name of the table
and goes down it by itself.  The two come to the same values where no field
holds both kinds on the way and no array holds anything but objects
(`walkJsonPath_eq`).
-/

namespace Ontosyx.Source

open List Ontosyx.Core Ontology Lib.Keyed Lib.Grouped Value Prod

inductive NestKind where
  | object
  | array
deriving DecidableEq

/-- A table in the making: its name, the path that leads to it, and what is found there. -/
structure Node where
  name : String
  path : List (String × NestKind)
  items : List Value

namespace Node

variable (formats : Formats) (node : Node)

def table : SourceTableDef :=
  tableDef node.name (columnsOf formats node.items) (rowsOf formats node.items)

def profile : TableProfile :=
  tableProfile node.name (columnsOf formats node.items) (rowsOf formats node.items)

end Node

/-- The tables of some items and of what is nested in them, in the order of the analyzer. -/
def nodesFrom : Nat → String → List (String × NestKind) → List Value → List Node
  | 0, _, _, _ => []
  | depth + 1, name, path, items =>
    ⟨name, path, items⟩ ::
      ((nestedObjects items).flatMap (fun group =>
          nodesFrom depth (childTable name group.1) (path ++ [(group.1, .object)]) group.2) ++
        (nestedArrays items).flatMap (fun group =>
          nodesFrom depth (childTable name group.1) (path ++ [(group.1, .array)]) group.2))

def listedNodes (formats : Formats) (payload : Payload) : List Node :=
  (nodesFrom (depthItems (topItems payload.value) + 1) inlineTableName []
    (topItems payload.value)).filter fun node => isListed formats node.items

section

variable {formats : Formats}

@[simp] theorem tables_addForeignKey (parent : String) (pk : Option String) (child field : String)
    (e : Extraction) : (e.addForeignKey parent pk child field).tables = e.tables := by
  cases pk <;> rfl

@[simp] theorem profiles_addForeignKey (parent : String) (pk : Option String)
    (child field : String) (e : Extraction) :
    (e.addForeignKey parent pk child field).profiles = e.profiles := by
  cases pk <;> rfl

/-- A fold that lists the tables of one group after the other lists those of all. -/
theorem foldl_lists {α β : Type} (listed : Extraction → List α) {nest : Extraction → β → Extraction}
    {tables : β → List α} (h : ∀ e group, listed (nest e group) = listed e ++ tables group) :
    ∀ (groups : List β) (e : Extraction),
      listed (groups.foldl nest e) = listed e ++ groups.flatMap tables
  | [], e => by simp
  | group :: groups, e => by
    rw [foldl_cons, foldl_lists listed h groups, h, flatMap_cons, append_assoc]

/-- What is told of each listed table, be it the definition or the profile. -/
theorem extract_lists (formats : Formats) {α : Type} (listed : Extraction → List α)
    (told : Node → α)
    (hadd : ∀ name path items e, listed (Extraction.addTable formats name items e) =
      listed e ++ if isListed formats items then [told ⟨name, path, items⟩] else [])
    (hkey : ∀ parent pk child field (e : Extraction),
      listed (e.addForeignKey parent pk child field) = listed e) :
    ∀ (depth : Nat) (name : String) (path : List (String × NestKind)) (items : List Value)
      (e : Extraction),
      listed (extractJsonTables formats depth name items e) = listed e ++
        ((nodesFrom depth name path items).filter fun node =>
          isListed formats node.items).map told
  | 0, name, path, items, e => by simp [extractJsonTables, nodesFrom]
  | depth + 1, name, path, items, e => by
    have hnest : ∀ (kind : NestKind) (pk : Option String) (e : Extraction)
        (group : String × List Value),
        listed ((extractJsonTables formats depth (childTable name group.1) group.2
          e).addForeignKey name pk (childTable name group.1) group.1) =
        listed e ++ ((nodesFrom depth (childTable name group.1) (path ++ [(group.1, kind)])
          group.2).filter fun node => isListed formats node.items).map told := by
      intro kind pk e group
      rw [hkey, extract_lists formats listed told hadd hkey depth _
        (path ++ [(group.1, kind)])]
    simp only [extractJsonTables]
    rw [foldl_lists listed (hnest .array _), foldl_lists listed (hnest .object _), hadd _ path]
    rw [nodesFrom, filter_cons, append_assoc, append_assoc]
    congr 1
    split
    · rw [map_cons, filter_append, map_append, filter_flatMap,
        filter_flatMap, map_flatMap, map_flatMap]
      rfl
    · rw [filter_append, map_append, filter_flatMap, filter_flatMap, map_flatMap, map_flatMap]
      rfl

theorem tables_extract (depth : Nat) (name : String) (items : List Value) :
    (extractJsonTables formats depth name items {}).tables =
      ((nodesFrom depth name [] items).filter fun node => isListed formats node.items).map
        (Node.table formats) := by
  have h := extract_lists formats (·.tables) (Node.table formats) ?_
    tables_addForeignKey depth name [] items {}
  · simpa using h
  · intro name path items e
    unfold Extraction.addTable
    split
    · rfl
    · simp

theorem profiles_extract (depth : Nat) (name : String) (items : List Value) :
    (extractJsonTables formats depth name items {}).profiles =
      ((nodesFrom depth name [] items).filter fun node => isListed formats node.items).map
        (Node.profile formats) := by
  have h := extract_lists formats (·.profiles) (Node.profile formats) ?_
    profiles_addForeignKey depth name [] items {}
  · simpa using h
  · intro name path items e
    unfold Extraction.addTable
    split
    · rfl
    · simp

end

/-! ## What lies under a path -/

/-- The values under a field that is nested in some items. -/
def nestedAt (items : List Value) (hop : String × NestKind) : List Value :=
  items.flatMap fun item =>
    match item.get? hop.1, hop.2 with
    | some v, .object => if v.isObject then [v] else []
    | some v, .array => v.objectArray?.getD []
    | none, _ => []

def itemsAt (items : List Value) (path : List (String × NestKind)) : List Value :=
  path.foldl nestedAt items

variable {v : Value}

theorem Value.WellFormed.fields_nodup (h : v.WellFormed) : (v.fields.map fst).Nodup := by
  cases h with
  | obj hkeys hfields => exact hkeys
  | _ => exact nodup_nil

theorem Value.WellFormed.field {v : Value} (h : v.WellFormed) {field : String × Value}
    (hfield : field ∈ v.fields) : field.2.WellFormed := by
  cases h with
  | obj hkeys hfields => exact hfields field hfield
  | _ => exact absurd hfield not_mem_nil

theorem Value.WellFormed.element {w : Value} (h : v.WellFormed) {elements : List Value}
    (harr : v.objectArray? = some elements) (hw : w ∈ elements) : w.WellFormed := by
  cases h with
  | arr hitems =>
    simp only [objectArray?] at harr
    split at harr
    · obtain rfl := Option.some.inj harr
      exact hitems w hw
    · exact absurd harr (by simp)
  | _ => exact absurd harr (by simp [objectArray?])

theorem Value.get?_eq (v : Value) (name : String) :
    v.get? name = (first fst name v.fields).map (·.2) := by
  cases v <;> rfl

theorem filter_fields_eq (h : v.WellFormed) (name : String) :
    (v.fields.filter fun field => field.1 = name) = (first fst name v.fields).toList := by
  have hnodup := h.fields_nodup
  generalize v.fields = fields at hnodup
  induction fields with
  | nil => rfl
  | cons field fields ih =>
    rw [map_cons, nodup_cons] at hnodup
    by_cases hname : field.1 = name
    · have hrest : (fields.filter fun field => field.1 = name) = [] := by
        rw [filter_eq_nil_iff]
        intro other hother hsame
        refine hnodup.1 (mem_map.2 ⟨other, hother, ?_⟩)
        rw [hname]
        exact of_decide_eq_true hsame
      simp [first, hname, hrest]
    · rw [filter_cons_of_neg (by simpa using hname), ih hnodup.2]
      simp [first, hname]

variable {items : List Value}

/-- The groups of the analyzer are what lies under their fields. -/
theorem nestedObjects_eq (hwf : ∀ item ∈ items, item.WellFormed) {group : String × List Value}
    (hgroup : group ∈ nestedObjects items) : group.2 = nestedAt items (group.1, .object) := by
  rw [snd_of_mem_gather _ _ (mem_mergeSort.1 hgroup), filter_flatMap, map_flatMap]
  refine flatMap_congr fun item hitem => ?_
  rw [filter_comm, filter_fields_eq (hwf item hitem), get?_eq]
  cases first fst group.1 item.fields with
  | none => rfl
  | some field => by_cases hobject : field.2.isObject = true <;> simp [hobject]

theorem nestedArrays_eq (hwf : ∀ item ∈ items, item.WellFormed) {group : String × List Value}
    (hgroup : group ∈ nestedArrays items) : group.2 = nestedAt items (group.1, .array) := by
  obtain ⟨gathered, hgathered, rfl⟩ := mem_map.1 hgroup
  rw [snd_of_mem_gather _ _ (mem_mergeSort.1 hgathered), filter_flatMap,
    map_flatMap, flatten_eq_flatMap, flatMap_assoc]
  refine flatMap_congr fun item hitem => ?_
  have hfilter : ((item.fields.filterMap fun field =>
      field.2.objectArray?.map fun children => (field.1, children)).filter fun entry =>
        entry.1 = gathered.1) =
      (item.fields.filter fun field => field.1 = gathered.1).filterMap fun field =>
        field.2.objectArray?.map fun children => (field.1, children) := by
    rw [filter_filterMap, filterMap_filter]
    refine filterMap_congr fun field _ => ?_
    cases field.2.objectArray? with
    | none => simp
    | some children => by_cases hname : field.1 = gathered.1 <;> simp [hname]
  rw [hfilter, filter_fields_eq (hwf item hitem), get?_eq]
  cases first fst gathered.1 item.fields with
  | none => rfl
  | some field => cases hchildren : field.2.objectArray? <;> simp [hchildren]

theorem wellFormed_nestedAt (hwf : ∀ item ∈ items, item.WellFormed) (hop : String × NestKind) :
    ∀ v ∈ nestedAt items hop, v.WellFormed := by
  intro w hw
  obtain ⟨item, hitem, hw⟩ := mem_flatMap.1 hw
  rw [get?_eq] at hw
  cases hfield : first fst hop.1 item.fields with
  | none => exact absurd (hfield ▸ hw) (by simp)
  | some field =>
    have hmem := ((first_some_iff fst (hwf item hitem).fields_nodup).1 hfield).1
    have hvalue := (hwf item hitem).field hmem
    rw [hfield, Option.map_some] at hw
    obtain ⟨name, kind⟩ := hop
    cases kind with
    | object =>
      dsimp only at hw
      split at hw
      · obtain rfl := mem_singleton.1 hw
        exact hvalue
      · exact absurd hw not_mem_nil
    | array =>
      dsimp only at hw
      cases helements : field.2.objectArray? with
      | none => exact absurd (helements ▸ hw) (by simp)
      | some elements =>
        rw [helements, Option.getD_some] at hw
        exact hvalue.element helements hw

/-- What is found at a table of the analyzer lies under its path. -/
theorem items_of_mem_nodesFrom :
    ∀ {depth : Nat} {name : String} {path : List (String × NestKind)} {items : List Value}
      {node : Node}, (∀ item ∈ items, item.WellFormed) → node ∈ nodesFrom depth name path items →
      (∀ item ∈ node.items, item.WellFormed) ∧
        ∃ rest, node.path = path ++ rest ∧ node.items = itemsAt items rest ∧
          (rest = [] → node = ⟨name, path, items⟩)
  | 0, _, _, _, _, _, hnode => absurd hnode not_mem_nil
  | depth + 1, name, path, items, node, hwf, hnode => by
    have hchild : ∀ (kind : NestKind) (group : String × List Value),
        group.2 = nestedAt items (group.1, kind) →
        node ∈ nodesFrom depth (childTable name group.1) (path ++ [(group.1, kind)]) group.2 →
        (∀ item ∈ node.items, item.WellFormed) ∧
          ∃ rest, node.path = path ++ rest ∧ node.items = itemsAt items rest ∧
            (rest = [] → node = ⟨name, path, items⟩) := by
      intro kind group hgroup hmem
      have hwfGroup : ∀ item ∈ group.2, item.WellFormed := by
        rw [hgroup]
        exact wellFormed_nestedAt hwf _
      obtain ⟨hitems, rest, hpath, hat, -⟩ := items_of_mem_nodesFrom hwfGroup hmem
      refine ⟨hitems, (group.1, kind) :: rest, by simpa using hpath, ?_, fun h => by simp at h⟩
      rw [hat, hgroup]
      rfl
    rw [nodesFrom] at hnode
    rcases mem_cons.1 hnode with rfl | hnode
    · exact ⟨hwf, [], by simp, rfl, fun _ => rfl⟩
    · rcases mem_append.1 hnode with hnode | hnode
      · obtain ⟨group, hgroup, hmem⟩ := mem_flatMap.1 hnode
        exact hchild .object group (nestedObjects_eq hwf hgroup) hmem
      · obtain ⟨group, hgroup, hmem⟩ := mem_flatMap.1 hnode
        exact hchild .array group (nestedArrays_eq hwf hgroup) hmem

/-- A value under a field that the scan takes as the analyzer does: no array with objects beside
nested objects, no object beside nested arrays, and nothing but objects in these. -/
def KeptBy : NestKind → Value → Prop
  | .object, v => v.objectArray? = none
  | .array, v => v.isObject = false ∧
      ∀ elements, v.objectArray? = some elements → ∀ e ∈ elements, e.isObject = true

/-- Along a path, the scan takes every value as the analyzer does. -/
def Unmixed : List Value → List (String × NestKind) → Prop
  | _, [] => True
  | items, hop :: path =>
    (∀ item ∈ items, ∀ v, item.get? hop.1 = some v → KeptBy hop.2 v) ∧
      Unmixed (nestedAt items hop) path

theorem walkField_eq {hop : String × NestKind}
    (h : ∀ item ∈ items, ∀ v, item.get? hop.1 = some v → KeptBy hop.2 v) :
    walkField items hop.1 = nestedAt items hop := by
  refine flatMap_congr fun item hitem => ?_
  obtain ⟨name, kind⟩ := hop
  cases hv : item.get? name with
  | none => rfl
  | some v =>
    have hkept := h item hitem v hv
    cases kind with
    | object =>
      cases v with
      | arr elements =>
        have hnone : elements.filter (·.isObject) = [] := by
          simpa [KeptBy, objectArray?, filter_eq_nil_iff] using hkept
        exact hnone
      | _ => rfl
    | array =>
      cases v with
      | arr elements =>
        by_cases hany : elements.any isObject = true
        · have hall : elements.filter (·.isObject) = elements :=
            filter_eq_self.2 (hkept.2 elements (by simp [objectArray?, hany]))
          simp [objectArray?, hany, hall]
        · have hnone : elements.filter (·.isObject) = [] := by
            simpa [filter_eq_nil_iff] using hany
          simp [objectArray?, hany, hnone]
      | obj fields => exact absurd hkept.1 (by simp [isObject])
      | _ => simp [objectArray?]

theorem foldl_walkField_eq :
    ∀ {path : List (String × NestKind)} {items : List Value}, Unmixed items path →
      (path.map fst).foldl walkField items = itemsAt items path
  | [], _, _ => rfl
  | hop :: path, items, h => by
    rw [map_cons, foldl_cons, walkField_eq h.1, foldl_walkField_eq h.2]
    rfl

theorem itemsAt_scalar (hobject : v.isObject = false) (harray : v.objectArray? = none)
    (hop : String × NestKind) (path : List (String × NestKind)) :
    itemsAt [.obj [("value", v)]] (hop :: path) = [] := by
  have hfirst : nestedAt [.obj [("value", v)]] hop = [] := by
    obtain ⟨name, kind⟩ := hop
    by_cases hname : "value" = name
    · cases kind <;> simp [nestedAt, get?, first, hname, hobject, harray]
    · cases kind <;> simp [nestedAt, get?, first, hname]
  have hrest : ∀ path : List (String × NestKind), itemsAt [] path = [] := fun path => by
    induction path with
    | nil => rfl
    | cons hop path ih => exact ih
  show itemsAt (nestedAt _ hop) path = []
  rw [hfirst, hrest]

/-- Under an unmixed path the scan finds what the analyzer found there. -/
theorem walkJsonPath_eq (top : Value) {path : List (String × NestKind)} (hne : path ≠ [])
    (h : Unmixed (topItems top) path) :
    walkJsonPath top (path.map fst) = itemsAt (topItems top) path := by
  obtain ⟨hop, path, rfl⟩ := exists_cons_of_ne_nil hne
  cases top with
  | arr items => exact foldl_walkField_eq h
  | obj fields => exact foldl_walkField_eq h
  | _ => exact (itemsAt_scalar rfl rfl hop path).symm

end Ontosyx.Source
