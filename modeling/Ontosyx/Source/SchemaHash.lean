import Mathlib.Data.Multiset.MapFold
import Mathlib.Data.String.Basic
import Ontosyx.Core.Source
import Ontosyx.Lib.Delimited

/-!
# The hash of a source schema

`canonical_hash` feeds the parts of a schema to the hash in the order of their names, a control
character behind each of them.  Nothing is escaped.

## Main results

* `unordered_eq_of_hashText` — what is fed is read back, if no name holds a control character.
* `hashBytes_identifies_iff` — over which characters the bytes tell schemas apart.
-/

namespace Ontosyx.Source

open List Ontosyx.Core Lib.Delimited List

/-! ## What is fed to the hash -/

def closed (text : String) (separator : Char) : List Char := text.toList ++ [separator]

def flag (b : Bool) : Char := if b then '\x01' else '\x00'

def columnText (c : SourceColumnDef) : List Char :=
  closed c.name '\x1d' ++ closed c.dataType '\x1d' ++ [flag c.nullable, '\x1d']

def tableText (t : SourceTableDef) : List Char :=
  closed t.name '\x1e' ++
  (t.columns.mergeSort fun a b => a.name ≤ b.name).flatMap columnText ++ ['\x1e'] ++
  (t.primaryKey.mergeSort fun a b => a ≤ b).flatMap (closed · '\x1d') ++ ['\x1f']

def tuple (fk : ForeignKeyDef) : List String :=
  [fk.fromTable, fk.fromColumn, fk.toTable, fk.toColumn]

def foreignKeyText (fk : ForeignKeyDef) : List Char :=
  closed fk.fromTable '\x1d' ++ closed fk.fromColumn '\x1d' ++ closed fk.toTable '\x1d' ++
  closed fk.toColumn '\x1d' ++ [flag fk.inferred, '\x1e']

/-- The text that `canonical_hash` feeds to the hash. -/
def hashText (s : SourceSchema) : List Char :=
  closed s.sourceType '\x1f' ++
  (s.tables.mergeSort fun a b => a.name ≤ b.name).flatMap tableText ++
  (s.foreignKeys.mergeSort fun a b => tuple a ≤ tuple b).flatMap foreignKeyText

def hashBytes (s : SourceSchema) : ByteArray := (String.ofList (hashText s)).toUTF8

theorem hashBytes_eq_iff {s t : SourceSchema} :
    hashBytes s = hashBytes t ↔ hashText s = hashText t := by
  unfold hashBytes
  rw [String.toUTF8_eq_toByteArray, String.toUTF8_eq_toByteArray, String.toByteArray_inj,
    String.ofList_inj]

/-- A table without the orders of its columns and of its primary key. -/
def unorderedTable (t : SourceTableDef) : String × Multiset SourceColumnDef × Multiset String :=
  (t.name, t.columns, t.primaryKey)

def unordered (s : SourceSchema) :
    String × Multiset (String × Multiset SourceColumnDef × Multiset String) ×
      Multiset ForeignKeyDef :=
  (s.sourceType, s.tables.map unorderedTable, s.foreignKeys)

/-- The names that tell the parts of a schema apart are distinct. -/
structure Distinct (s : SourceSchema) : Prop where
  tables : (s.tables.map (·.name)).Nodup
  columns : ∀ t ∈ s.tables, (t.columns.map (·.name)).Nodup
  foreignKeys : (s.foreignKeys.map tuple).Nodup

def tableTexts (t : SourceTableDef) : List String :=
  t.name :: (t.columns.flatMap fun c => [c.name, c.dataType]) ++ t.primaryKey

def schemaTexts (s : SourceSchema) : List String :=
  s.sourceType :: s.tables.flatMap tableTexts ++ s.foreignKeys.flatMap tuple

def WrittenIn (alphabet : Char → Prop) (s : SourceSchema) : Prop :=
  ∀ text ∈ schemaTexts s, ∀ c ∈ text.toList, alphabet c

/-! ## Reading it back -/

/-- The control characters behind the parts. -/
def Separator (c : Char) : Prop := c = '\x1d' ∨ c = '\x1e' ∨ c = '\x1f'

def Clean (text : String) : Prop := ∀ c ∈ text.toList, ¬Separator c

theorem eq_of_closed_append {a b : String} {c d : Char} {u v : List Char} (ha : Clean a)
    (hb : Clean b) (hc : Separator c) (hd : Separator d)
    (h : closed a c ++ u = closed b d ++ v) : a = b ∧ c = d ∧ u = v := by
  unfold closed at h
  rw [append_assoc, append_assoc] at h
  obtain ⟨hab, hrest⟩ := eq_of_append ha hb (by rintro _ ⟨⟩; exact hc) (by rintro _ ⟨⟩; exact hd) h
  obtain ⟨hcd, huv⟩ := cons.inj hrest
  exact ⟨String.toList_inj.1 hab, hcd, huv⟩

theorem flag_injective {a b : Bool} (h : flag a = flag b) : a = b := by
  revert a b
  decide

theorem column_of_append {c d : SourceColumnDef} {u v : List Char} (hc : Clean c.name)
    (hd : Clean d.name) (hc' : Clean c.dataType) (hd' : Clean d.dataType)
    (h : columnText c ++ u = columnText d ++ v) : c = d ∧ u = v := by
  obtain ⟨cn, ct, cb⟩ := c
  obtain ⟨dn, dt, db⟩ := d
  simp only [columnText, append_assoc] at h
  obtain ⟨rfl, -, h⟩ := eq_of_closed_append hc hd (.inl rfl) (.inl rfl) h
  obtain ⟨rfl, -, h⟩ := eq_of_closed_append hc' hd' (.inl rfl) (.inl rfl) h
  obtain ⟨hb, h⟩ := cons.inj h
  rw [flag_injective hb]
  exact ⟨rfl, (cons.inj h).2⟩

theorem keys_of_append {xs ys : List String} {c d : Char} {u v : List Char}
    (hxs : ∀ x ∈ xs, Clean x) (hys : ∀ y ∈ ys, Clean y) (hc : c ≠ '\x1d') (hd : d ≠ '\x1d')
    (hc' : Separator c) (hd' : Separator d)
    (h : xs.flatMap (closed · '\x1d') ++ c :: u = ys.flatMap (closed · '\x1d') ++ d :: v) :
    xs = ys ∧ c :: u = d :: v := by
  have hempty : Clean "" := nofun
  have hkeys := forall₂_of_flatMap (R := Eq)
    (fun x hx y hy w w' h => by
      obtain ⟨hxy, -, hw⟩ := eq_of_closed_append (hxs x hx) (hys y hy) (.inl rfl) (.inl rfl) h
      exact ⟨hxy, hw⟩)
    (fun y hy w h => hc (eq_of_closed_append (hys y hy) hempty (.inl rfl) hc' h).2.1.symm)
    (fun x hx w h => hd (eq_of_closed_append (hxs x hx) hempty (.inl rfl) hd' h).2.1.symm) h
  rwa [forall₂_eq_eq_eq] at hkeys

theorem table_of_append {s t : SourceTableDef} {u v : List Char}
    (hs : ∀ x ∈ tableTexts s, Clean x) (ht : ∀ x ∈ tableTexts t, Clean x)
    (h : tableText s ++ u = tableText t ++ v) : unorderedTable s = unorderedTable t ∧ u = v := by
  have hempty : Clean "" := nofun
  have hparts {t : SourceTableDef} (ht : ∀ x ∈ tableTexts t, Clean x) : Clean t.name ∧
      (∀ c ∈ t.columns.mergeSort fun a b => a.name ≤ b.name, Clean c.name ∧ Clean c.dataType) ∧
      ∀ k ∈ t.primaryKey.mergeSort fun a b => a ≤ b, Clean k := by
    refine ⟨ht _ (by simp [tableTexts]), fun c hc => ?_, fun k hk => ?_⟩
    · rw [mem_mergeSort] at hc
      constructor <;> refine ht _ ?_ <;> simp only [tableTexts, mem_cons, mem_append,
        cons_append, mem_flatMap] <;> exact .inr (.inl ⟨c, hc, by simp⟩)
    · rw [mem_mergeSort] at hk
      exact ht k (by simp [tableTexts, hk])
  obtain ⟨hsn, hsc, hsp⟩ := hparts hs
  obtain ⟨htn, htc, htp⟩ := hparts ht
  simp only [tableText, append_assoc] at h
  obtain ⟨hname, -, h⟩ := eq_of_closed_append hsn htn (.inr (.inl rfl)) (.inr (.inl rfl)) h
  obtain ⟨hcolumns, h⟩ := forall₂_of_flatMap (R := Eq)
    (fun c hc d hd w w' => column_of_append (hsc c hc).1 (htc d hd).1 (hsc c hc).2 (htc d hd).2)
    (fun d hd w h => by
      simp only [columnText, append_assoc] at h
      exact absurd (eq_of_closed_append (htc d hd).1 hempty (.inl rfl) (.inr (.inl rfl)) h).2.1
        (by decide))
    (fun c hc w h => by
      simp only [columnText, append_assoc] at h
      exact absurd (eq_of_closed_append (hsc c hc).1 hempty (.inl rfl) (.inr (.inl rfl)) h).2.1
        (by decide)) h
  obtain ⟨hkeys, h⟩ := keys_of_append hsp htp (by decide) (by decide) (.inr (.inr rfl))
    (.inr (.inr rfl)) (cons.inj h).2
  rw [forall₂_eq_eq_eq] at hcolumns
  have hcolumns' := (mergeSort_perm s.columns fun a b => a.name ≤ b.name).symm.trans
    (hcolumns ▸ mergeSort_perm t.columns _)
  have hkeys' := (mergeSort_perm s.primaryKey fun a b => a ≤ b).symm.trans
    (hkeys ▸ mergeSort_perm t.primaryKey _)
  refine ⟨?_, (cons.inj h).2⟩
  rw [unorderedTable, unorderedTable, hname, Multiset.coe_eq_coe.2 hcolumns',
    Multiset.coe_eq_coe.2 hkeys']

theorem foreignKey_of_append {a b : ForeignKeyDef} {u v : List Char} (ha : ∀ x ∈ tuple a, Clean x)
    (hb : ∀ x ∈ tuple b, Clean x) (h : foreignKeyText a ++ u = foreignKeyText b ++ v) :
    a = b ∧ u = v := by
  obtain ⟨a₁, a₂, a₃, a₄, i⟩ := a
  obtain ⟨b₁, b₂, b₃, b₄, j⟩ := b
  simp only [tuple, forall_mem_cons] at ha hb
  simp only [foreignKeyText, append_assoc] at h
  obtain ⟨rfl, -, h⟩ := eq_of_closed_append ha.1 hb.1 (.inl rfl) (.inl rfl) h
  obtain ⟨rfl, -, h⟩ := eq_of_closed_append ha.2.1 hb.2.1 (.inl rfl) (.inl rfl) h
  obtain ⟨rfl, -, h⟩ := eq_of_closed_append ha.2.2.1 hb.2.2.1 (.inl rfl) (.inl rfl) h
  obtain ⟨rfl, -, h⟩ := eq_of_closed_append ha.2.2.2.1 hb.2.2.2.1 (.inl rfl) (.inl rfl) h
  obtain ⟨hij, h⟩ := cons.inj h
  rw [flag_injective hij]
  exact ⟨rfl, (cons.inj h).2⟩

/-- A table does not begin like foreign keys do: the separator behind its name is another. -/
theorem tableText_ne_foreignKeys {t : SourceTableDef} {fks : List ForeignKeyDef} {w : List Char}
    (ht : Clean t.name) (hfks : ∀ fk ∈ fks, Clean fk.fromTable) :
    tableText t ++ w ≠ fks.flatMap foreignKeyText := by
  intro h
  simp only [tableText, append_assoc] at h
  cases fks with
  | nil => simp [closed] at h
  | cons fk fks =>
    simp only [flatMap_cons, foreignKeyText, append_assoc] at h
    exact absurd (eq_of_closed_append ht (hfks fk mem_cons_self) (.inr (.inl rfl)) (.inl rfl)
      h).2.1 (by decide)

/-- What is fed to the hash is read back, up to the orders. -/
theorem unordered_eq_of_hashText {s t : SourceSchema} (hs : ∀ x ∈ schemaTexts s, Clean x)
    (ht : ∀ x ∈ schemaTexts t, Clean x) (h : hashText s = hashText t) :
    unordered s = unordered t := by
  have hparts {s : SourceSchema} (hs : ∀ x ∈ schemaTexts s, Clean x) : Clean s.sourceType ∧
      (∀ t ∈ s.tables.mergeSort fun a b => a.name ≤ b.name, ∀ x ∈ tableTexts t, Clean x) ∧
      ∀ fk ∈ s.foreignKeys.mergeSort fun a b => tuple a ≤ tuple b, ∀ x ∈ tuple fk, Clean x := by
    refine ⟨hs _ (by simp [schemaTexts]), fun t ht x hx => ?_, fun fk hfk x hx => ?_⟩
    · rw [mem_mergeSort] at ht
      exact hs x (.tail _ (mem_append_left _ (mem_flatMap.2 ⟨t, ht, hx⟩)))
    · rw [mem_mergeSort] at hfk
      exact hs x (.tail _ (mem_append_right _ (mem_flatMap.2 ⟨fk, hfk, hx⟩)))
  obtain ⟨hss, hst, hsf⟩ := hparts hs
  obtain ⟨hts, htt, htf⟩ := hparts ht
  simp only [hashText, append_assoc] at h
  obtain ⟨hsource, -, h⟩ := eq_of_closed_append hss hts (.inr (.inr rfl)) (.inr (.inr rfl)) h
  obtain ⟨htables, h⟩ := forall₂_of_flatMap
    (fun a ha b hb w w' => table_of_append (hst a ha) (htt b hb))
    (fun b hb w => tableText_ne_foreignKeys (htt b hb _ mem_cons_self)
      fun fk hfk => hsf fk hfk _ mem_cons_self)
    (fun a ha w => tableText_ne_foreignKeys (hst a ha _ mem_cons_self)
      fun fk hfk => htf fk hfk _ mem_cons_self) h
  obtain ⟨hfks, -⟩ := forall₂_of_flatMap (R := Eq) (u := []) (v := [])
    (fun a ha b hb w w' => foreignKey_of_append (hsf a ha) (htf b hb))
    (fun b _ w h => by simp [foreignKeyText, closed] at h)
    (fun a _ w h => by simp [foreignKeyText, closed] at h) (by simpa using h)
  rw [forall₂_eq_eq_eq] at hfks
  have htables' := map_eq_of_forall₂ htables fun _ _ _ h => h
  have hperm :=
    ((mergeSort_perm s.tables fun a b => a.name ≤ b.name).map unorderedTable).symm.trans
      (htables' ▸ (mergeSort_perm t.tables _).map unorderedTable)
  have hfks' := (mergeSort_perm s.foreignKeys fun a b => tuple a ≤ tuple b).symm.trans
    (hfks ▸ mergeSort_perm t.foreignKeys _)
  rw [unordered, unordered, hsource, Multiset.coe_eq_coe.2 hfks', Multiset.coe_eq_coe.2 hperm]

theorem mergeSort_eq_of_keys {α κ : Type} [LinearOrder κ] (key : α → κ) {xs ys : List α}
    (hnd : (xs.map key).Nodup) (h : xs.Perm ys) :
    (xs.mergeSort fun a b => key a ≤ key b) = ys.mergeSort fun a b => key a ≤ key b := by
  refine Lib.Sorted.mergeSort_eq_of_perm (fun _ _ _ h₁ h₂ => ?_) (fun a b => ?_)
    (fun a ha b hb hab hba => ?_) h
  · exact decide_eq_true (le_trans (of_decide_eq_true h₁) (of_decide_eq_true h₂))
  · simpa using le_total (key a) (key b)
  · exact inj_on_of_nodup_map hnd ha hb
      (le_antisymm (of_decide_eq_true hab) (of_decide_eq_true hba))

theorem tableText_eq_of_unordered {s t : SourceTableDef} (hs : (s.columns.map (·.name)).Nodup)
    (h : unorderedTable s = unorderedTable t) : tableText s = tableText t := by
  simp only [unorderedTable, Prod.mk.injEq, Multiset.coe_eq_coe] at h
  obtain ⟨hname, hcolumns, hkeys⟩ := h
  have hsorted : s.primaryKey.mergeSort (· ≤ ·) = t.primaryKey.mergeSort (· ≤ ·) :=
    Lib.Sorted.mergeSort_eq_of_perm (by simpa using fun _ _ _ => le_trans)
      (by simpa using le_total) (by simpa using fun _ _ _ _ => le_antisymm) hkeys
  rw [tableText, tableText, hname, mergeSort_eq_of_keys _ hs hcolumns, hsorted]

theorem hashText_eq_of_unordered {s t : SourceSchema} (hs : Distinct s)
    (h : unordered s = unordered t) : hashText s = hashText t := by
  simp only [unordered, Prod.mk.injEq, Multiset.coe_eq_coe] at h
  obtain ⟨hsource, htables, hfks⟩ := h
  have hmap (s : SourceSchema) : (s.tables.mergeSort fun a b => a.name ≤ b.name).map
      unorderedTable = (s.tables.map unorderedTable).mergeSort fun a b => a.1 ≤ b.1 :=
    map_mergeSort fun _ _ _ _ => rfl
  have hsorted := mergeSort_eq_of_keys (·.1) (by simpa [Function.comp_def, unorderedTable] using
    hs.tables) htables
  rw [← hmap, ← hmap, ← forall₂_eq_eq_eq, forall₂_map_left_iff, forall₂_map_right_iff] at hsorted
  have htexts := map_eq_of_forall₂ hsorted fun t ht _ hab =>
    tableText_eq_of_unordered (hs.columns t (mem_mergeSort.1 ht)) hab
  rw [hashText, hashText, hsource, mergeSort_eq_of_keys tuple hs.foreignKeys hfks,
    flatMap_def, htexts, ← flatMap_def]

def oneColumn (source table column type : String) : SourceSchema :=
  ⟨source, [⟨table, [⟨column, type, false⟩], []⟩], []⟩

theorem Distinct.oneColumn (source table column type : String) :
    Distinct (oneColumn source table column type) := by
  constructor <;> simp [Source.oneColumn]

/-- Schemas of one character that the hash takes for one another. -/
structure Collide (c : Char) (s t : SourceSchema) : Prop where
  left : WrittenIn (· = c) s
  right : WrittenIn (· = c) t
  hashText_eq : hashText s = hashText t
  unordered_ne : unordered s ≠ unordered t

/-- A separator in one part, or in the next one. -/
theorem collide : Collide '\x1d' (oneColumn "" "" "\x1d" "") (oneColumn "" "" "" "\x1d") ∧
    Collide '\x1e' (oneColumn "" "\x1e" "" "") (oneColumn "" "" "\x1e" "") ∧
    Collide '\x1f' (oneColumn "\x1f" "" "" "") (oneColumn "" "\x1f" "" "") := by
  refine ⟨?_, ?_, ?_⟩ <;> constructor <;>
    simp [WrittenIn, schemaTexts, tableTexts, hashText, tableText, columnText, closed, unordered,
      unorderedTable, oneColumn]

theorem hashBytes_collide : ¬∀ s t, Distinct s → Distinct t →
    (hashBytes s = hashBytes t ↔ unordered s = unordered t) := fun h =>
  collide.1.unordered_ne <|
    (h _ _ (.oneColumn ..) (.oneColumn ..)).1 (hashBytes_eq_iff.2 collide.1.hashText_eq)

/-- The schemas in an alphabet are told apart where it has none of the separators. -/
theorem hashBytes_identifies_iff (alphabet : Char → Prop) :
    (∀ s t, WrittenIn alphabet s → WrittenIn alphabet t → Distinct s → Distinct t →
      (hashBytes s = hashBytes t ↔ unordered s = unordered t)) ↔
    ¬alphabet '\x1d' ∧ ¬alphabet '\x1e' ∧ ¬alphabet '\x1f' := by
  constructor
  · intro h
    have hno {c : Char} {a₁ a₂ a₃ a₄ b₁ b₂ b₃ b₄ : String}
        (hcollide : Collide c (oneColumn a₁ a₂ a₃ a₄) (oneColumn b₁ b₂ b₃ b₄)) : ¬alphabet c :=
      fun hc => hcollide.unordered_ne <| (h _ _
        (fun x hx d hd => hcollide.left x hx d hd ▸ hc)
        (fun x hx d hd => hcollide.right x hx d hd ▸ hc)
        (.oneColumn ..) (.oneColumn ..)).1 (hashBytes_eq_iff.2 hcollide.hashText_eq)
    exact ⟨hno collide.1, hno collide.2.1, hno collide.2.2⟩
  · rintro ⟨hd, he, hf⟩ s t hs ht hsd htd
    have hclean {s : SourceSchema} (hs : WrittenIn alphabet s) : ∀ x ∈ schemaTexts s, Clean x := by
      rintro x hx c hc (rfl | rfl | rfl)
      · exact hd (hs x hx _ hc)
      · exact he (hs x hx _ hc)
      · exact hf (hs x hx _ hc)
    rw [hashBytes_eq_iff]
    exact ⟨unordered_eq_of_hashText (hclean hs) (hclean ht), hashText_eq_of_unordered hsd⟩

end Ontosyx.Source
