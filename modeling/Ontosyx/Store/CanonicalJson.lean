import Mathlib.Data.List.Perm.Basic
import Ontosyx.Lib.Delimited

/-!
# Canonical JSON

Entities are stored under the hash of their canonical text (`canonical_json`): no white space,
and the fields of every object by their keys.  How strings and numbers are printed is the
library's, of which it is used that their texts differ and show where they end.

## Main results

* `same_of_append` — a canonical text is read back, up to the order of fields.
* `canonicalJson_eq_iff` — so two values have one text exactly when they are the same.
-/

namespace Ontosyx.Store

open List Lib.Delimited

/-- `serde_json::Value`, with numbers of some type. -/
inductive JsonValue (ν : Type) where
  | null
  | bool (b : Bool)
  | number (n : ν)
  | string (s : String)
  | array (items : List (JsonValue ν))
  | object (fields : List (String × JsonValue ν))

variable {ν : Type}

/-! ## Printing -/

/-- How the library prints a number and a string. -/
structure Printer (ν : Type) where
  number : ν → List Char
  string : String → List Char

/-- Texts with commas between them. -/
def joined : List (List Char) → List Char
  | [] => []
  | text :: texts => text ++ texts.flatMap (',' :: ·)

def fieldText (p : Printer ν) (field : String × List Char) : List Char :=
  p.string field.1 ++ ':' :: field.2

mutual
def canonicalJson (p : Printer ν) : JsonValue ν → List Char
  | .null => "null".toList
  | .bool b => if b then "true".toList else "false".toList
  | .number n => p.number n
  | .string s => p.string s
  | .array items => '[' :: (joined (canonicalItems p items) ++ [']'])
  | .object fields =>
    -- the map orders the fields by their keys
    let sorted := (canonicalFields p fields).mergeSort fun a b => a.1 ≤ b.1
    '\x7b' :: (joined (sorted.map (fieldText p)) ++ ['\x7d'])

def canonicalItems (p : Printer ν) : List (JsonValue ν) → List (List Char)
  | [] => []
  | v :: vs => canonicalJson p v :: canonicalItems p vs

def canonicalFields (p : Printer ν) : List (String × JsonValue ν) → List (String × List Char)
  | [] => []
  | (k, v) :: fields => (k, canonicalJson p v) :: canonicalFields p fields
end

theorem canonicalItems_eq (p : Printer ν) (items : List (JsonValue ν)) :
    canonicalItems p items = items.map (canonicalJson p) := by
  induction items with
  | nil => rfl
  | cons v vs ih => rw [canonicalItems, ih, map_cons]

theorem canonicalFields_eq (p : Printer ν) (fields : List (String × JsonValue ν)) :
    canonicalFields p fields = fields.map fun f => (f.1, canonicalJson p f.2) := by
  induction fields with
  | nil => rfl
  | cons f fields ih => rw [canonicalFields, ih, map_cons]

/-- No object has two fields of one name: a map holds a key once. -/
inductive WellFormed : JsonValue ν → Prop
  | null : WellFormed .null
  | bool (b : Bool) : WellFormed (.bool b)
  | number (n : ν) : WellFormed (.number n)
  | string (s : String) : WellFormed (.string s)
  | array {items : List (JsonValue ν)} : (∀ v ∈ items, WellFormed v) → WellFormed (.array items)
  | object {fields : List (String × JsonValue ν)} : (fields.map (·.1)).Nodup →
      (∀ f ∈ fields, WellFormed f.2) → WellFormed (.object fields)

/-- Two values are equal up to the order of the fields, at every depth. -/
inductive Same : JsonValue ν → JsonValue ν → Prop
  | null : Same .null .null
  | bool (b : Bool) : Same (.bool b) (.bool b)
  | number (n : ν) : Same (.number n) (.number n)
  | string (s : String) : Same (.string s) (.string s)
  | array {xs ys : List (JsonValue ν)} : List.Forall₂ Same xs ys → Same (.array xs) (.array ys)
  | object {fs gs : List (String × JsonValue ν)} (hs : List (String × JsonValue ν)) :
      fs.map (·.1) = hs.map (·.1) → List.Forall₂ Same (fs.map (·.2)) (hs.map (·.2)) →
      hs.Perm gs → Same (.object fs) (.object gs)

@[elab_as_elim]
theorem JsonValue.memberInduct {motive : JsonValue ν → Prop} (null : motive .null)
    (bool : ∀ b, motive (.bool b)) (number : ∀ n, motive (.number n))
    (string : ∀ s, motive (.string s))
    (array : ∀ items, (∀ v ∈ items, motive v) → motive (.array items))
    (object : ∀ fields, (∀ f ∈ fields, motive f.2) → motive (.object fields))
    (v : JsonValue ν) : motive v :=
  @JsonValue.rec ν motive (fun items => ∀ v ∈ items, motive v)
    (fun fields => ∀ f ∈ fields, motive f.2) (fun f => motive f.2) null bool number string
    array object (by simp) (fun _ _ hv hvs => forall_mem_cons.2 ⟨hv, hvs⟩) (by simp)
    (fun _ _ hf hfs => forall_mem_cons.2 ⟨hf, hfs⟩) (fun _ _ hv => hv) v

/-! ## Reading a text back -/

/-- What no number's text holds. -/
def Delimiter (c : Char) : Prop := c = ',' ∨ c = ']' ∨ c = '\x7d'

/-- What may stand behind a value in a longer text. -/
def Ends (rest : List Char) : Prop := ∀ c ∈ rest.head?, Delimiter c

/-- What is used of the library's printer. -/
structure Printer.Faithful (p : Printer ν) : Prop where
  /-- No number's text begins like another value's, and none holds a delimiter. -/
  number_head : ∀ n, ∃ c rest, p.number n = c :: rest ∧ (c = '-' ∨ c.isDigit)
  number_delimiter : ∀ n, ∀ c ∈ p.number n, ¬Delimiter c
  number_injective : Function.Injective p.number
  string_head : ∀ s, ∃ rest, p.string s = '"' :: rest
  /-- A string ends with its closing quote: no text of a string begins another's. -/
  string_prefix : ∀ s t, p.string s <+: p.string t → s = t

/-- The constructors, as the first characters of their texts. -/
inductive JsonKind where
  | null
  | bool
  | number
  | string
  | array
  | object
  deriving DecidableEq

def JsonValue.kind : JsonValue ν → JsonKind
  | .null => .null
  | .bool _ => .bool
  | .number _ => .number
  | .string _ => .string
  | .array _ => .array
  | .object _ => .object

def kindOf (c : Char) : JsonKind :=
  if c = 'n' then .null
  else if c = 't' ∨ c = 'f' then .bool
  else if c = '"' then .string
  else if c = '[' then .array
  else if c = '\x7b' then .object
  else .number

section
variable {p : Printer ν} (hp : p.Faithful)
include hp

theorem Printer.Faithful.eq_of_string_append {s t : String} {u u' : List Char}
    (h : p.string s ++ u = p.string t ++ u') : s = t := by
  rcases prefix_or_prefix_of_prefix ⟨u, h⟩ (prefix_append _ u') with hs | ht
  · exact hp.string_prefix s t hs
  · exact (hp.string_prefix t s ht).symm

theorem head_canonicalJson (v : JsonValue ν) :
    ∃ c rest, canonicalJson p v = c :: rest ∧ kindOf c = v.kind ∧ c ≠ ']' ∧ c ≠ '\x7d' := by
  cases v with
  | null => exact ⟨'n', _, rfl, rfl, by decide, by decide⟩
  | bool b => cases b <;> exact ⟨_, _, rfl, rfl, by decide, by decide⟩
  | number n =>
    obtain ⟨c, rest, hn, hc⟩ := hp.number_head n
    refine ⟨c, rest, hn, ?_⟩
    rcases hc with rfl | hc
    · exact ⟨rfl, by decide, by decide⟩
    · have hne : ∀ d : Char, d.isDigit = false → c ≠ d := fun d hd h => by simp [h, hd] at hc
      simp [kindOf, JsonValue.kind, hne 'n' rfl, hne 't' rfl, hne 'f' rfl, hne '"' rfl,
        hne '[' rfl, hne ']' rfl, hne '\x7b' rfl, hne '\x7d' rfl]
  | string s =>
    obtain ⟨rest, hs⟩ := hp.string_head s
    exact ⟨'"', rest, hs, rfl, by decide, by decide⟩
  | array items => exact ⟨'[', _, rfl, rfl, by decide, by decide⟩
  | object fields => exact ⟨'\x7b', _, by rw [canonicalJson], rfl, by decide, by decide⟩

end

section
variable {α : Type} {f : α → List Char} {R : α → α → Prop} {close : Char} {xs : List α}
  (hclose : close = ']' ∨ close = '\x7d')
  (hitem : ∀ x ∈ xs, ∀ y u u', Ends u → Ends u' → f x ++ u = f y ++ u' → R x y ∧ u = u')
include hclose

theorem ends_of_rest (ys : List α) (u : List Char) :
    Ends ((ys.map f).flatMap (',' :: ·) ++ close :: u) := by
  cases ys with
  | nil =>
    rintro c hc
    obtain rfl : close = c := by simpa using hc
    exact .inr hclose
  | cons y ys =>
    rintro c hc
    exact .inl (by simpa using hc.symm)

include hitem

theorem forall₂_of_rest {ys : List α} {u u' : List Char}
    (h : (xs.map f).flatMap (',' :: ·) ++ close :: u =
      (ys.map f).flatMap (',' :: ·) ++ close :: u') : List.Forall₂ R xs ys ∧ u = u' := by
  have hcomma : close ≠ ',' := by rcases hclose with rfl | rfl <;> decide
  induction xs generalizing ys with
  | nil =>
    cases ys with
    | nil => exact ⟨.nil, by simpa using h⟩
    | cons y ys => simp [hcomma] at h
  | cons x xs ih =>
    cases ys with
    | nil => simp [hcomma.symm] at h
    | cons y ys =>
      have hrest := hitem x (by simp) y _ _ (ends_of_rest hclose xs u) (ends_of_rest hclose ys u')
        (by simpa using h)
      obtain ⟨hxs, hu⟩ := ih (fun z hz => hitem z (by simp [hz])) hrest.2
      exact ⟨.cons hrest.1 hxs, hu⟩

/-- Texts between commas are read back one by one, up to the closing bracket. -/
theorem forall₂_of_joined (hhead : ∀ x, ∃ c rest, f x = c :: rest ∧ c ≠ close) {ys : List α}
    {u u' : List Char} (h : joined (xs.map f) ++ close :: u = joined (ys.map f) ++ close :: u') :
    List.Forall₂ R xs ys ∧ u = u' := by
  cases xs with
  | nil =>
    cases ys with
    | nil => exact ⟨.nil, by simpa [joined] using h⟩
    | cons y ys =>
      obtain ⟨c, rest, hc, hne⟩ := hhead y
      simp [joined, hc, hne.symm] at h
  | cons x xs =>
    cases ys with
    | nil =>
      obtain ⟨c, rest, hc, hne⟩ := hhead x
      simp [joined, hc, hne] at h
    | cons y ys =>
      have hrest := hitem x (by simp) y _ _ (ends_of_rest hclose xs u) (ends_of_rest hclose ys u')
        (by simpa [joined] using h)
      obtain ⟨hxs, hu⟩ := forall₂_of_rest hclose (fun z hz => hitem z (by simp [hz])) hrest.2
      exact ⟨.cons hrest.1 hxs, hu⟩

end

/-! ## The canonical form -/

def sortedFields (fields : List (String × JsonValue ν)) : List (String × JsonValue ν) :=
  fields.mergeSort fun a b => a.1 ≤ b.1

theorem mem_sortedFields {f : String × JsonValue ν} {fields : List (String × JsonValue ν)} :
    f ∈ sortedFields fields ↔ f ∈ fields :=
  mem_mergeSort

theorem canonicalJson_array (p : Printer ν) (items : List (JsonValue ν)) :
    canonicalJson p (.array items) = '[' :: (joined (items.map (canonicalJson p)) ++ [']']) := by
  rw [canonicalJson, canonicalItems_eq]

theorem canonicalJson_object (p : Printer ν) (fields : List (String × JsonValue ν)) :
    canonicalJson p (.object fields) = '\x7b' :: (joined ((sortedFields fields).map
      fun f => fieldText p (f.1, canonicalJson p f.2)) ++ ['\x7d']) := by
  have hsort : ((sortedFields fields).map fun f => (f.1, canonicalJson p f.2)) =
      (fields.map fun f => (f.1, canonicalJson p f.2)).mergeSort fun a b => a.1 ≤ b.1 :=
    map_mergeSort fun _ _ _ _ => rfl
  rw [canonicalJson, canonicalFields_eq, ← hsort, map_map]
  rfl

theorem sameFields_of_sorted {fs gs : List (String × JsonValue ν)}
    (h : List.Forall₂ (fun f g => f.1 = g.1 ∧ Same f.2 g.2) (sortedFields fs) (sortedFields gs)) :
    Same (.object fs) (.object gs) := by
  obtain ⟨hs, hfs, hperm⟩ := perm_comp_forall₂ (mergeSort_perm fs _).symm h
  refine .object hs ?_ ?_ (hperm.trans (mergeSort_perm gs _))
  · exact (forall₂_eq_eq_eq ▸ forall₂_map_left_iff.2
      (forall₂_map_right_iff.2 (hfs.imp fun _ _ h => h.1)))
  · exact forall₂_map_left_iff.2 (forall₂_map_right_iff.2 (hfs.imp fun _ _ h => h.2))

section
variable {p : Printer ν} (hp : p.Faithful)
include hp

theorem field_of_append {f g : String × JsonValue ν} {u u' : List Char}
    (hf : ∀ w u u', Ends u → Ends u' → canonicalJson p f.2 ++ u = canonicalJson p w ++ u' →
      Same f.2 w ∧ u = u') (hu : Ends u) (hu' : Ends u')
    (h : fieldText p (f.1, canonicalJson p f.2) ++ u =
      fieldText p (g.1, canonicalJson p g.2) ++ u') : (f.1 = g.1 ∧ Same f.2 g.2) ∧ u = u' := by
  have hkey : f.1 = g.1 := hp.eq_of_string_append (by simpa [fieldText] using h)
  have hrest := hf g.2 u u' hu hu' (by simpa [fieldText, hkey] using h)
  exact ⟨⟨hkey, hrest.1⟩, hrest.2⟩

theorem kind_eq_of_append {v w : JsonValue ν} {u u' : List Char}
    (h : canonicalJson p v ++ u = canonicalJson p w ++ u') : v.kind = w.kind := by
  obtain ⟨c, rest, hv, hc, -⟩ := head_canonicalJson hp v
  obtain ⟨d, rest', hw, hd, -⟩ := head_canonicalJson hp w
  rw [hv, hw] at h
  rw [← hc, ← hd, (List.cons.inj h).1]

/-- A canonical text is read back from the front of any longer text. -/
theorem same_of_append (v w : JsonValue ν) (u u' : List Char) (hu : Ends u) (hu' : Ends u')
    (h : canonicalJson p v ++ u = canonicalJson p w ++ u') : Same v w ∧ u = u' := by
  have hkind := kind_eq_of_append hp h
  induction v using JsonValue.memberInduct generalizing w u u' with
  | null =>
    cases w with
    | null => exact ⟨.null, append_cancel_left h⟩
    | _ => cases hkind
  | bool b =>
    cases w with
    | bool b' =>
      cases b <;> cases b' <;> simp [canonicalJson] at h
      exacts [⟨.bool _, h⟩, ⟨.bool _, h⟩]
    | _ => cases hkind
  | number n =>
    cases w with
    | number m =>
      obtain ⟨hnm, hu⟩ := eq_of_append (hp.number_delimiter n) (hp.number_delimiter m) hu hu' h
      exact ⟨hp.number_injective hnm ▸ .number n, hu⟩
    | _ => cases hkind
  | string s =>
    cases w with
    | string t =>
      obtain rfl : s = t := hp.eq_of_string_append h
      exact ⟨.string s, append_cancel_left h⟩
    | _ => cases hkind
  | array xs ih =>
    cases w with
    | array ys =>
      rw [canonicalJson_array, canonicalJson_array] at h
      have hitems := forall₂_of_joined (R := Same) (.inl (rfl : ']' = ']'))
        (fun x hx y u u' hu hu' h => ih x hx y u u' hu hu' h (kind_eq_of_append hp h))
        (fun x => by
          obtain ⟨c, rest, hx, -, hc, -⟩ := head_canonicalJson hp x
          exact ⟨c, rest, hx, hc⟩)
        (by simpa using h)
      exact ⟨.array hitems.1, hitems.2⟩
    | _ => cases hkind
  | object fs ih =>
    cases w with
    | object gs =>
      rw [canonicalJson_object, canonicalJson_object] at h
      have hfields := forall₂_of_joined (.inr (rfl : '\x7d' = '\x7d'))
        (fun f hf g u u' hu hu' h => field_of_append hp (fun w u u' hu hu' h =>
          ih f (mem_sortedFields.1 hf) w u u' hu hu' h (kind_eq_of_append hp h)) hu hu' h)
        (fun f => by
          obtain ⟨rest, hs⟩ := hp.string_head f.1
          exact ⟨'"', _, by rw [fieldText, hs]; rfl, by decide⟩)
        (by simpa using h)
      exact ⟨sameFields_of_sorted hfields.1, hfields.2⟩
    | _ => cases hkind

end

/-- The same values have one text: the fields are sorted by their keys, which differ. -/
theorem canonicalJson_eq_of_same (p : Printer ν) {v w : JsonValue ν} (hv : WellFormed v)
    (h : Same v w) : canonicalJson p v = canonicalJson p w := by
  induction v using JsonValue.memberInduct generalizing w with
  | array xs ih =>
    cases hv with | array hxs => ?_
    cases h with | array h => ?_
    rw [canonicalJson_array, canonicalJson_array,
      map_eq_of_forall₂ h fun x hx y hxy => ih x hx (hxs x hx) hxy]
  | object fs ih =>
    cases hv with | object hnd hfs => ?_
    cases h with | @object _ gs hs hkeys hvalues hperm => ?_
    let print := fun f : String × JsonValue ν => (f.1, canonicalJson p f.2)
    have hfst (l : List (String × JsonValue ν)) : (l.map print).map (·.1) = l.map (·.1) := by
      rw [map_map]
      rfl
    have hsnd (l : List (String × JsonValue ν)) :
        (l.map print).map (·.2) = (l.map (·.2)).map (canonicalJson p) := by
      rw [map_map, map_map]
      rfl
    have hprint : fs.map print = hs.map print := by
      have hvalues : (fs.map (·.2)).map (canonicalJson p) = (hs.map (·.2)).map (canonicalJson p) :=
        map_eq_of_forall₂ hvalues fun v hv w hvw => by
          obtain ⟨f, hf, rfl⟩ := mem_map.1 hv
          exact ih f hf (hfs f hf) hvw
      exact (zip_of_prod ((hfst fs).trans hkeys) ((hsnd fs).trans hvalues)).trans
        (zip_of_prod (hfst hs) (hsnd hs)).symm
    have hnd' : ((hs.map print).map (·.1)).Nodup := by rwa [hfst, ← hkeys]
    rw [canonicalJson, canonicalJson, canonicalFields_eq, canonicalFields_eq]
    change _ :: (joined (((fs.map print).mergeSort _).map _) ++ _) =
      _ :: (joined (((gs.map print).mergeSort _).map _) ++ _)
    rw [hprint, Lib.Sorted.mergeSort_eq_of_perm (fun _ _ _ h₁ h₂ => ?_) (fun a b => ?_)
      (fun a ha b hb hab hba => ?_) (hperm.map print)]
    · exact decide_eq_true (String.le_trans (of_decide_eq_true h₁) (of_decide_eq_true h₂))
    · simpa using String.le_total a.1 b.1
    · exact inj_on_of_nodup_map hnd' ha hb
        (String.le_antisymm (of_decide_eq_true hab) (of_decide_eq_true hba))
  | _ => cases h; rfl

/-- Two values have one canonical text, and one content hash of that text, exactly when they
are the same up to the order of fields. -/
theorem canonicalJson_eq_iff {p : Printer ν} (hp : p.Faithful) {v w : JsonValue ν}
    (hv : WellFormed v) : (canonicalJson p v = canonicalJson p w ↔ Same v w) ∧
    ∀ {δ : Type} {sha256 : List Char → δ}, Function.Injective sha256 →
      (sha256 (canonicalJson p v) = sha256 (canonicalJson p w) ↔ Same v w) := by
  have htext : canonicalJson p v = canonicalJson p w ↔ Same v w := by
    refine ⟨fun h => ?_, canonicalJson_eq_of_same p hv⟩
    exact (same_of_append hp v w [] [] (by simp [Ends]) (by simp [Ends]) (by rw [h])).1
  exact ⟨htext, fun hsha => hsha.eq_iff.trans htext⟩

/-- A string behind its opening quote, with its quotes and backslashes escaped. -/
def quoted : List Char → List Char
  | [] => ['"']
  | c :: cs => if c = '"' ∨ c = '\\' then '\\' :: c :: quoted cs else c :: quoted cs

theorem eq_of_quoted_prefix {s t : List Char} (h : quoted s <+: quoted t) : s = t := by
  induction s generalizing t with
  | nil =>
    cases t with
    | nil => rfl
    | cons d t =>
      simp only [quoted] at h
      split at h <;> simp only [cons_prefix_cons] at h
      · simp at h
      · exact absurd (.inl h.1.symm) ‹¬(d = '"' ∨ d = '\\')›
  | cons c s ih =>
    cases t with
    | nil =>
      simp only [quoted] at h
      split at h <;> simp only [cons_prefix_cons] at h
      · simp at h
      · exact absurd (.inl h.1) ‹¬(c = '"' ∨ c = '\\')›
    | cons d t =>
      simp only [quoted] at h
      split at h <;> split at h <;> simp only [cons_prefix_cons] at h
      · rw [h.2.1, ih h.2.2]
      · exact absurd (.inr h.1.symm) ‹¬(d = '"' ∨ d = '\\')›
      · exact absurd (.inr h.1) ‹¬(c = '"' ∨ c = '\\')›
      · rw [h.1, ih h.2]

/-- Decimal numbers and quoted strings. -/
def plainPrinter : Printer Nat where
  number := Nat.toDigits 10
  string s := '"' :: quoted s.toList

theorem plainPrinter_faithful : plainPrinter.Faithful where
  number_head n := by
    obtain ⟨c, rest, h⟩ := exists_cons_of_ne_nil (Nat.toDigits_ne_nil (n := n) (b := 10))
    have hc : c ∈ Nat.toDigits 10 n := by simp [h]
    exact ⟨c, rest, h, .inr (Nat.isDigit_of_mem_toDigits (by decide) (by decide) hc)⟩
  number_delimiter n c hc := by
    have := Nat.isDigit_of_mem_toDigits (by decide) (by decide) hc
    rintro (rfl | rfl | rfl) <;> revert this <;> decide
  number_injective := Function.LeftInverse.injective fun _ => Nat.ofDigitChars_ten_toDigits
  string_head s := ⟨_, rfl⟩
  string_prefix s t h := String.toList_inj.1 ( eq_of_quoted_prefix (cons_prefix_cons.1 h).2)

theorem canonicalJson_swapped :
    canonicalJson plainPrinter (.object [("b", .array [.number 1]), ("a", .null)]) =
      canonicalJson plainPrinter (.object [("a", .null), ("b", .array [.number 1])]) := by
  refine (canonicalJson_eq_iff plainPrinter_faithful (.object (by decide) ?_)).1.2
    (.object [("b", .array [.number 1]), ("a", .null)] rfl ?_ (.swap _ _ _))
  · simpa using ⟨.array (by simpa using .number 1), .null⟩
  · exact .cons (.array (.cons (.number 1) .nil)) (.cons .null .nil)

end Ontosyx.Store
