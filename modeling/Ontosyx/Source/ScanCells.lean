import Ontosyx.Source.Scan

/-!
# What a scanned cell stands for

A cell of the analyzer and a value of an Arrow array may denote the same
(`Denotes`).  Under the type that the analyzer inferred for a column, this is a
question about the single value of the payload (`FitsValue`, `FitsText`).
-/

namespace Ontosyx.Source

open List Ontosyx.Core Ontology
open Ontosyx.Cypher (Number)
open Lib.Keyed Value Nat

/-! ## Denotation -/

/-- The integer that a text of digits reads as, of any size. -/
def readInteger (t : List Char) : Option Int :=
  let (negative, ds) := readSign t
  if ds.isEmpty || !ds.all Char.isDigit then none
  else some (if negative then -(digitsValue ds : Int) else digitsValue ds)

/-- The array value has what the cell counts: null for null, the same truth value, the same
integer, the same double, the same text. -/
inductive Denotes : Cell → ArrowCell → Prop where
  | null (type : CellType) : Denotes ⟨none, type⟩ .null
  | bool {raw : String} {b : Bool} (hb : b = decide (raw.toLower = "true")) :
      Denotes ⟨some raw, .bool⟩ (.bool b)
  | int {raw : String} {n : Int} (hn : readInteger raw.toList = some n) :
      Denotes ⟨some raw, .int⟩ (.int n)
  | whole {raw : String} {n : Int} (hn : readInteger raw.toList = some n) :
      Denotes ⟨some raw, .int⟩ (.float (.finite n))
  | float {raw : String} {x : Number} (hx : Cypher.parseF64 raw.toList = some x) :
      Denotes ⟨some raw, .float⟩ (.float x)
  | text (raw : String) (type : CellType) : Denotes ⟨some raw, type⟩ (.utf8 raw)

theorem denotes_null_iff {cell : Cell} : Denotes cell .null ↔ cell.raw = none := by
  constructor
  · intro h
    cases h
    rfl
  · obtain ⟨raw, type⟩ := cell
    rintro rfl
    exact .null type

theorem Denotes.raw_eq_none_iff {cell : Cell} {value : ArrowCell} (h : Denotes cell value) :
    cell.raw = none ↔ value = .null := by
  cases h <;> simp

theorem denotes_int_iff {raw : String} {n : Int} :
    Denotes ⟨some raw, .int⟩ (.int n) ↔ readInteger raw.toList = some n := by
  constructor
  · intro h
    cases h with
    | int hn => exact hn
  · exact .int

theorem denotes_whole_iff {raw : String} {x : Number} {n : Int}
    (hraw : readInteger raw.toList = some n) :
    Denotes ⟨some raw, .int⟩ (.float x) ↔ x = .finite n := by
  constructor
  · intro h
    cases h with
    | whole hm =>
      rw [hraw] at hm
      rw [Option.some.inj hm]
  · rintro rfl
    exact .whole hraw

theorem readInteger_of_parseI64 {t : List Char} {n : Int} (h : parseI64 t = some n) :
    readInteger t = some n := by
  unfold parseI64 at h
  unfold readInteger
  dsimp only at h ⊢
  split at h
  · exact absurd h (by simp)
  · rename_i hdigits
    rw [if_neg hdigits]
    by_cases hbound : -2 ^ 63 ≤ (if (readSign t).1 then -(digitsValue (readSign t).2 : Int)
        else digitsValue (readSign t).2) ∧
        (if (readSign t).1 then -(digitsValue (readSign t).2 : Int)
          else digitsValue (readSign t).2) < 2 ^ 63
    · rw [if_pos hbound] at h
      exact h
    · rw [if_neg hbound] at h
      exact absurd h (by simp)

/-- The digits of a number read as the number, with either sign. -/
theorem readInteger_toDigits (n : Nat) : readInteger (toDigits 10 n) = some (n : Int) ∧
      readInteger ('-' :: toDigits 10 n) = some (-(n : Int)) := by
  have hdigits : ∀ c ∈ toDigits 10 n, c.isDigit = true := fun c hc =>
    isDigit_of_mem_toDigits (by decide) (by decide) hc
  have hguard : ((toDigits 10 n).isEmpty || !(toDigits 10 n).all Char.isDigit) = false := by
    have hne : toDigits 10 n ≠ [] := toDigits_ne_nil
    simpa [hne] using hdigits
  have hsign : readSign (toDigits 10 n) = (false, toDigits 10 n) := by
    obtain ⟨c, cs, hcs⟩ := exists_cons_of_ne_nil (toDigits_ne_nil (n := n) (b := 10))
    rw [hcs] at hdigits ⊢
    exact readSign_of_digit (hdigits c (by simp))
  constructor
  · unfold readInteger
    rw [hsign]
    simp only [hguard, value_toDigits]
    rfl
  · unfold readInteger
    have hneg : readSign ('-' :: toDigits 10 n) = (true, toDigits 10 n) := rfl
    rw [hneg]
    simp only [hguard, value_toDigits]
    rfl

variable {n : JsonNumber}

/-- The text of an integer number reads as the integer that is kept. -/
theorem readInteger_text (formats : Formats) {k : Int} (h : n.integer? = some k) : readInteger
    (n.text formats).toList = some k := by
  cases n with
  | posInt n =>
    obtain rfl := Option.some.inj h
    have htext : ((JsonNumber.posInt n).text formats).toList = toDigits 10 n.toNat := by
      exact toList_repr
    rw [htext]
    exact (readInteger_toDigits n.toNat).1
  | negInt n =>
    obtain rfl := Option.some.inj h
    rcases hn : n.toInt with m | m
    · have htext : ((JsonNumber.negInt n).text formats).toList = toDigits 10 m := by
        simp only [JsonNumber.text, hn]
        exact toList_repr
      rw [htext]
      exact (readInteger_toDigits m).1
    · have htext : ((JsonNumber.negInt n).text formats).toList =
          '-' :: Nat.toDigits 10 (m + 1) := by
        simp only [JsonNumber.text, hn]
        show ("-" ++ Nat.repr (m + 1)).toList = _
        rw [String.toList_append, Nat.toList_repr]
        rfl
      rw [htext]
      exact (readInteger_toDigits (m + 1)).2
  | float x => exact absurd h (by simp [JsonNumber.integer?])

/-! ## Column types -/

/-- A column of the first type may have cells of the second. -/
def Covers (column cell : CellType) : Prop :=
  column = cell ∨ column = .float ∧ cell = .int ∨ column = .string ∨ column = .json

theorem covers_mergeTypes_left (a b : CellType) (ha : a ≠ .null) : Covers (mergeTypes a b) a := by
  cases a <;> cases b <;> simp_all [Covers, mergeTypes]

theorem covers_mergeTypes_right (a b : CellType) (hb : b ≠ .null) : Covers (mergeTypes a b) b := by
  cases a <;> cases b <;> simp_all [Covers, mergeTypes]

theorem Covers.mergeTypes {a t : CellType} (h : Covers a t) (b : CellType) (ht : t ≠ .null) :
    Covers (mergeTypes a b) t := by
  rcases h with rfl | ⟨rfl, rfl⟩ | rfl | rfl
  · exact covers_mergeTypes_left a b ht
  · cases b <;> simp [Covers, Source.mergeTypes]
  · cases b <;> simp [Covers, Source.mergeTypes]
  · cases b <;> simp [Covers, Source.mergeTypes]

theorem covers_foldl {t : CellType} (ht : t ≠ .null) :
    ∀ (cells : List Cell) (start : CellType),
      Covers start t ∨ (∃ cell ∈ cells, cell.dataType = t) →
      Covers (cells.foldl (fun t cell => Source.mergeTypes t cell.dataType) start) t
  | [], _, h => by simpa using h
  | cell :: cells, start, h => by
    refine covers_foldl ht cells _ ?_
    rcases h with h | ⟨c, hc, hct⟩
    · exact .inl (h.mergeTypes _ ht)
    · rcases mem_cons.1 hc with rfl | hc
      · exact .inl (hct ▸ covers_mergeTypes_right start c.dataType (hct ▸ ht))
      · exact .inr ⟨c, hc, hct⟩

theorem covers_inferColumnType {cells : List Cell} {cell : Cell} (hmem : cell ∈ cells)
    (hraw : cell.raw.isSome = true) (htype : cell.dataType ≠ .null) :
    Covers (inferColumnType cells) cell.dataType := by
  have hcovers := covers_foldl htype (cells.filter (·.raw.isSome)) .null
    (.inr ⟨cell, mem_filter.2 ⟨hmem, hraw⟩, rfl⟩)
  unfold inferColumnType
  dsimp only
  split
  · exact .inr (.inr (.inl rfl))
  · exact hcovers

theorem inferColumnType_ne_null (cells : List Cell) : inferColumnType cells ≠ .null := by
  unfold inferColumnType
  dsimp only
  split
  · simp
  · assumption

/-- The Arrow type of a column of the analyzer. -/
def CellType.arrow : CellType → DataType
  | .bool => .boolean
  | .int => .int64
  | .float => .float64
  | .json | .string | .null => .utf8

theorem rawTypeToArrow_name (type : CellType) : rawTypeToArrow type.name = type.arrow := by
  cases type <;> decide +kernel

/-- A text that reads as an integer is read as that integer, where its column is one of doubles. -/
def FitsText (type : CellType) (s : String) : Prop :=
  type = .float → ∀ n, parseI64 s.toList = some n → Cypher.parseF64 s.toList = some (.finite n)

theorem inferScalarType_cases (s : String) :
    inferScalarType s = .bool ∧ (s.toLower = "true" ∨ s.toLower = "false") ∨
    inferScalarType s = .int ∧ (∃ n, parseI64 s.toList = some n) ∨
    inferScalarType s = .float ∧ parseI64 s.toList = none ∧
      (∃ x, Cypher.parseF64 s.toList = some x) ∨ inferScalarType s = .string := by
  unfold inferScalarType
  dsimp only
  split
  · rename_i h
    exact .inl ⟨rfl, h⟩
  · split
    · rename_i h
      exact .inr (.inl ⟨rfl, Option.isSome_iff_exists.1 h⟩)
    · rename_i hint
      split
      · rename_i h
        exact .inr (.inr (.inl ⟨rfl, by simpa using hint, Option.isSome_iff_exists.1 h⟩))
      · exact .inr (.inr (.inr rfl))

theorem inferScalarType_ne_null (s : String) : inferScalarType s ≠ .null := by
  rcases inferScalarType_cases s with ⟨h, -⟩ | ⟨h, -⟩ | ⟨h, -⟩ | h <;> simp [h]

theorem boolToken_of_lower {s : String} (h : s.toLower = "true" ∨ s.toLower = "false") :
    boolToken s = .bool (decide (s.toLower = "true")) := by
  unfold boolToken
  rcases h with h | h
  · rw [h]
    rfl
  · rw [h]
    rfl

variable {type : CellType}

/-- Under a type that covers it, a text stands for its cell exactly when it fits. -/
theorem denotes_appendText_iff {s : String} (hcovers : Covers type (inferScalarType s)) :
    Denotes ⟨some s, inferScalarType s⟩ (appendTextCell type.arrow (some s)) ↔ FitsText type s := by
  have hutf8 : type = .string ∨ type = .json → (Denotes ⟨some s, inferScalarType s⟩
      (appendTextCell type.arrow (some s)) ↔ FitsText type s) := by
    rintro (rfl | rfl)
    · exact iff_of_true (.text s _) (fun h => absurd h (by simp))
    · exact iff_of_true (.text s _) (fun h => absurd h (by simp))
  rcases hcovers with heq | ⟨rfl, hint⟩ | h | h
  · rcases inferScalarType_cases s with
      ⟨htype, hlower⟩ | ⟨htype, n, hn⟩ | ⟨htype, hint, x, hx⟩ | htype
    · rw [heq, htype]
      refine iff_of_true ?_ (fun h => absurd h (by simp))
      show Denotes _ (boolToken s)
      rw [boolToken_of_lower hlower]
      exact .bool rfl
    · rw [heq, htype]
      refine iff_of_true ?_ (fun h => absurd h (by simp))
      show Denotes _ (((parseI64 s.toList).map .int).getD .null)
      rw [hn]
      exact .int (readInteger_of_parseI64 hn)
    · rw [heq, htype]
      refine iff_of_true ?_ (fun _ n hn => absurd (hint.symm.trans hn) (by simp))
      show Denotes _ (((Cypher.parseF64 s.toList).map .float).getD .null)
      rw [hx]
      exact .float hx
    · exact hutf8 (.inl (heq.trans htype))
  · rcases inferScalarType_cases s with ⟨htype, -⟩ | ⟨-, n, hn⟩ | ⟨htype, -⟩ | htype
    · exact absurd (htype.symm.trans hint) (by simp)
    · rw [hint]
      show Denotes _ (((Cypher.parseF64 s.toList).map .float).getD .null) ↔ _
      have hfits : FitsText .float s ↔ Cypher.parseF64 s.toList = some (.finite n) := by
        constructor
        · intro h
          exact h rfl n hn
        · intro h _ m hm
          rw [hn] at hm
          rw [h, Option.some.inj hm]
      rw [hfits]
      cases hx : Cypher.parseF64 s.toList with
      | none => simp [denotes_null_iff]
      | some x =>
        rw [Option.map_some, Option.getD_some, denotes_whole_iff (readInteger_of_parseI64 hn)]
        simp
    · exact absurd (htype.symm.trans hint) (by simp)
    · exact absurd (htype.symm.trans hint) (by simp)
  · exact hutf8 (.inl h)
  · exact hutf8 (.inr h)

/-! ## JSON values -/

/-- A value is found again in a column of its table: a number within `i64` in a column of
integers, an integer that is a double in one of doubles, and nothing nested in one of texts. -/
def FitsValue (type : CellType) : Value → Prop
  | .num n =>
    (type = .int → n.asI64 = n.integer?) ∧
      (type = .float → ∀ k, n.integer? = some k → n.asF64 = .finite k)
  | .str s => FitsText type s
  | v => v.isNested = true → type ≠ .string ∧ type ≠ .json

/-- The doubles of a value are written so that they read as themselves. -/
def ReadsBack (formats : Formats) (v : Value) : Prop :=
  ∀ x, v = .num (.float x) →
    Cypher.parseF64 (formats.floatText x).toList = some (.finite x.value)

theorem appendJsonCell_str (formats : Formats) (type : CellType) (s : String) :
    appendJsonCell formats type.arrow (some (.str s)) = appendTextCell type.arrow (some s) := by
  cases type <;> rfl

theorem appendJsonCell_none (formats : Formats) (type : DataType) :
    appendJsonCell formats type none = .null := by
  cases type <;> rfl

variable {v : Value} {formats : Formats}

theorem cellFromJson_raw_none_iff :
    (cellFromJsonValue formats v).raw = none ↔ v = .null := by
  cases v <;> simp [cellFromJsonValue]

theorem dataType_cellFromJson_ne_null (h : v ≠ .null) :
    (cellFromJsonValue formats v).dataType ≠ .null := by
  cases v with
  | null => exact absurd rfl h
  | str s => exact inferScalarType_ne_null s
  | num n => cases n <;> simp [cellFromJsonValue, JsonNumber.isInteger]
  | _ => simp [cellFromJsonValue]

/-- Where a number is not an `i64`, the cast of its double is another number. -/
theorem not_denotes_wholeToI64 {k : Int} (hk : n.integer? = some k) (hnone : n.asI64 = none) :
    ¬Denotes ⟨some (n.text formats), .int⟩ (((wholeToI64 n.asF64).map .int).getD .null) := by
  have hlarge : 2 ^ 63 ≤ k := by
    cases n with
    | posInt n =>
      simp only [JsonNumber.asI64] at hnone
      split at hnone
      · exact absurd hnone (by simp)
      · obtain rfl := Option.some.inj hk
        omega
    | negInt n => exact absurd hnone (by simp [JsonNumber.asI64])
    | float x => exact absurd hk (by simp [JsonNumber.integer?])
  cases hwhole : wholeToI64 n.asF64 with
  | none => simp [denotes_null_iff]
  | some m =>
    rw [Option.map_some, Option.getD_some, denotes_int_iff, readInteger_text formats hk]
    intro h
    have hm : m ≤ 2 ^ 63 - 1 := by
      unfold wholeToI64 at hwhole
      split at hwhole
      · split at hwhole
        · obtain rfl := Option.some.inj hwhole
          exact min_le_right _ _
        · exact absurd hwhole (by simp)
      · exact absurd hwhole (by simp)
    have hkm : k = m := Option.some.inj h
    omega

theorem denotes_appendInteger_iff {k : Int} (hk : n.integer? = some k)
    (hcovers : Covers type .int) :
    Denotes ⟨some (n.text formats), .int⟩ (appendJsonCell formats type.arrow (some (.num n))) ↔
      FitsValue type (.num n) := by
  have hread := readInteger_text formats hk
  rcases hcovers with rfl | ⟨rfl, -⟩ | rfl | rfl
  · have hfits : FitsValue .int (.num n) ↔ n.asI64 = n.integer? := by
      simp [FitsValue]
    rw [hfits, hk]
    show Denotes _ (appendInt (some (.num n))) ↔ _
    cases hv : n.asI64 with
    | some v =>
      have happend : appendInt (some (.num n)) = .int v := by simp only [appendInt, hv]
      rw [happend, denotes_int_iff, hread]
      exact eq_comm
    | none =>
      have happend : appendInt (some (.num n)) =
          ((wholeToI64 n.asF64).map .int).getD .null := by simp only [appendInt, hv]
      rw [happend]
      exact iff_of_false (not_denotes_wholeToI64 hk hv) (by simp)
  · show Denotes _ (.float n.asF64) ↔ _
    rw [denotes_whole_iff hread]
    simp [FitsValue, hk]
  · exact iff_of_true (.text _ _) (by simp [FitsValue])
  · exact iff_of_true (.text _ _) (by simp [FitsValue])

theorem denotes_appendNumber_iff
    (hcovers : Covers type (cellFromJsonValue formats (.num n)).dataType)
    (hreads : ReadsBack formats (.num n)) : Denotes (cellFromJsonValue formats (.num n))
        (appendJsonCell formats type.arrow (some (.num n))) ↔ FitsValue type (.num n) := by
  cases n with
  | posInt n | negInt n => exact denotes_appendInteger_iff rfl hcovers
  | float x =>
    have hfits : type ≠ .int → FitsValue type (.num (.float x)) := fun hne =>
      ⟨fun h => absurd h hne, fun _ k hk => absurd hk (by simp [JsonNumber.integer?])⟩
    rcases hcovers with rfl | ⟨-, h⟩ | rfl | rfl
    · refine iff_of_true ?_ (hfits (by simp [cellFromJsonValue, JsonNumber.isInteger]))
      exact .float (hreads x rfl)
    · exact absurd h (by simp [cellFromJsonValue, JsonNumber.isInteger])
    · exact iff_of_true (.text _ _) (hfits (by simp))
    · exact iff_of_true (.text _ _) (hfits (by simp))

theorem denotes_appendValue_iff (hnested : v.isNested = false)
    (hcovers : v ≠ .null → Covers type (cellFromJsonValue formats v).dataType)
    (hreads : ReadsBack formats v) :
    Denotes (cellFromJsonValue formats v) (appendJsonCell formats type.arrow (some v)) ↔
      FitsValue type v := by
  cases v with
  | null =>
    refine iff_of_true ?_ (fun h => absurd h (by simp [hnested]))
    cases type <;> exact .null _
  | bool b =>
    refine iff_of_true ?_ (fun h => absurd h (by simp [hnested]))
    rcases hcovers (by simp) with rfl | ⟨-, h⟩ | rfl | rfl
    · cases b
      · exact .bool (by decide +kernel)
      · exact .bool (by decide +kernel)
    · exact absurd h (by simp [cellFromJsonValue])
    · exact .text _ _
    · exact .text _ _
  | num n => exact denotes_appendNumber_iff (hcovers (by simp)) hreads
  | str s =>
    rw [appendJsonCell_str]
    exact denotes_appendText_iff (hcovers (by simp))
  | arr items =>
    refine iff_of_true ?_ (fun h => absurd h (by simp [hnested]))
    rcases hcovers (by simp) with rfl | ⟨-, h⟩ | rfl | rfl
    · exact .text _ _
    · exact absurd h (by simp [cellFromJsonValue])
    · exact .text _ _
    · exact .text _ _
  | obj fields => exact absurd hnested (by simp [isNested, isObject])

/-- A value that is nested is null for the analyzer, and for the scan where it is not written as
a text. -/
theorem denotes_appendNested_iff (htype : type ≠ .null) (hnested : v.isNested = true) :
    Denotes ⟨none, .null⟩ (appendJsonCell formats type.arrow (some v)) ↔ FitsValue type v := by
  have hnull : Denotes ⟨none, .null⟩ (appendJsonCell formats type.arrow (some v)) ↔
      type ≠ .string ∧ type ≠ .json := by
    cases v with
    | arr items | obj fields =>
      cases type with
      | null => exact absurd rfl htype
      | string | json => exact iff_of_false (fun h => nomatch h) (by simp)
      | _ => exact iff_of_true (.null _) (by simp)
    | _ => exact absurd hnested (by simp [isNested, isObject, objectArray?])
  rw [hnull]
  cases v with
  | arr items | obj fields => exact ⟨fun h _ => h, fun h => h hnested⟩
  | _ => exact absurd hnested (by simp [isNested, isObject, objectArray?])

/-- What `FitsValue` says of an item under a column: other than an object, only null has nothing
to show there. -/
def FitsItem (type : CellType) (column : String) : Value → Prop
  | .obj fields => ∀ v, (obj fields).get? column = some v → FitsValue type v
  | item => column = "value" → item = .null

theorem get?_eq_some_iff {fields : List (String × Value)} (hkeys : (fields.map Prod.fst).Nodup)
    {column : String} : (obj fields).get? column = some v ↔ (column, v) ∈ fields := by
  show (first Prod.fst column fields).map (·.2) = some v ↔ _
  rw [Option.map_eq_some_iff]
  constructor
  · rintro ⟨field, hfield, rfl⟩
    obtain ⟨hmem, rfl⟩ := (first_some_iff Prod.fst hkeys).1 hfield
    exact hmem
  · intro hmem
    exact ⟨(column, v), (first_some_iff Prod.fst hkeys).2 ⟨hmem, rfl⟩, rfl⟩

/-- The cell of an object under a column: of the field with the name, if it is not nested. -/
theorem cell_rowOf_obj (formats : Formats) {fields : List (String × Value)}
    (hkeys : (fields.map Prod.fst).Nodup) (column : String) :
    (rowOf formats (.obj fields)).cell column =
      match (obj fields).get? column with
      | some v => if v.isNested then ⟨none, .null⟩ else cellFromJsonValue formats v
      | none => ⟨none, .null⟩ := by
  have hget : ∀ cell, (rowOf formats (.obj fields)).get? column = some cell ↔
      ∃ v, (column, v) ∈ fields ∧ v.isNested = false ∧ cellFromJsonValue formats v = cell := by
    intro cell
    have hnodup : ((rowOf formats (.obj fields)).map Prod.fst).Nodup := by
      unfold rowOf
      rw [map_map]
      exact (filter_sublist.map _).nodup hkeys
    unfold Row.get?
    rw [Option.map_eq_some_iff]
    constructor
    · rintro ⟨entry, hentry, rfl⟩
      obtain ⟨hmem, rfl⟩ := (last_some_iff Prod.fst hnodup).1 hentry
      obtain ⟨field, hfield, rfl⟩ := mem_map.1 hmem
      obtain ⟨hin, hflat⟩ := mem_filter.1 hfield
      exact ⟨field.2, hin, by simpa using hflat, rfl⟩
    · rintro ⟨v, hmem, hflat, rfl⟩
      refine ⟨(column, cellFromJsonValue formats v), ?_, rfl⟩
      refine (last_some_iff Prod.fst hnodup).2 ⟨mem_map.2 ⟨(column, v), ?_, rfl⟩, rfl⟩
      exact mem_filter.2 ⟨hmem, by simp [hflat]⟩
  have hnone : (∀ v, (column, v) ∈ fields → v.isNested = true) →
      (rowOf formats (.obj fields)).cell column = ⟨none, .null⟩ := by
    intro hall
    have hget' : (rowOf formats (.obj fields)).get? column = none := by
      rw [Option.eq_none_iff_forall_ne_some]
      intro cell hcell
      obtain ⟨v, hmem, hflat, -⟩ := (hget cell).1 hcell
      exact absurd (hall v hmem) (by simp [hflat])
    unfold Row.cell
    rw [hget']
    rfl
  cases hv : (obj fields).get? column with
  | none =>
    refine hnone fun v hmem => ?_
    exact absurd ((get?_eq_some_iff hkeys).2 hmem) (by simp [hv])
  | some v =>
    have hmem := (get?_eq_some_iff hkeys).1 hv
    dsimp only
    split
    · rename_i hnested
      refine hnone fun w hw => ?_
      have heq : w = v := Option.some.inj (((get?_eq_some_iff hkeys).2 hw).symm.trans hv)
      rw [heq]
      exact hnested
    · rename_i hflat
      unfold Row.cell
      rw [(hget _).2 ⟨v, hmem, by simpa using hflat, rfl⟩]
      rfl

theorem rowOf_scalar (formats : Formats) {item : Value} (hitem : item.isObject = false) :
    rowOf formats item = [("value", cellFromJsonValue formats item)] := by
  cases item with
  | obj fields => exact absurd hitem (by simp [isObject])
  | _ => rfl

theorem cell_rowOf_scalar (formats : Formats) {item : Value} (hitem : item.isObject = false)
    (column : String) :
    (rowOf formats item).cell column =
      if column = "value" then cellFromJsonValue formats item else ⟨none, .null⟩ := by
  unfold Row.cell Row.get?
  rw [rowOf_scalar formats hitem]
  by_cases hcolumn : column = "value"
  · simp [last, hcolumn]
  · have hne : ¬"value" = column := fun h => hcolumn h.symm
    simp [last, hcolumn, hne]

/-- A cell of an item is found again by the scan exactly when the item fits. -/
theorem denotes_item_iff {column : String} {item : Value} (hwf : item.WellFormed)
    (htype : type ≠ .null) (hcovers : ((rowOf formats item).cell column).raw.isSome = true →
      Covers type ((rowOf formats item).cell column).dataType)
    (hreads : ∀ v, item.get? column = some v → ReadsBack formats v) :
    Denotes ((rowOf formats item).cell column)
      (appendJsonCell formats type.arrow (item.get? column)) ↔ FitsItem type column item := by
  have hscalar : item.isObject = false → item.get? column = none →
      (Denotes ((rowOf formats item).cell column)
        (appendJsonCell formats type.arrow (item.get? column)) ↔
        (column = "value" → item = .null)) := by
    intro hitem hget
    rw [hget, appendJsonCell_none, denotes_null_iff, cell_rowOf_scalar formats hitem]
    by_cases hcolumn : column = "value"
    · rw [if_pos hcolumn, cellFromJson_raw_none_iff]
      exact ⟨fun h _ => h, fun h => h hcolumn⟩
    · rw [if_neg hcolumn]
      exact iff_of_true rfl fun h => absurd h hcolumn
  cases hwf with
  | obj hkeys hfields =>
    rename_i fields
    rw [cell_rowOf_obj formats hkeys] at hcovers ⊢
    cases hv : (obj fields).get? column with
    | none =>
      rw [appendJsonCell_none]
      exact iff_of_true (.null _) fun v h => absurd (hv.symm.trans h) (by simp)
    | some v =>
      rw [hv] at hcovers
      have hfits : FitsItem type column (.obj fields) ↔ FitsValue type v :=
        ⟨fun h => h v hv, fun h w hw => Option.some.inj (hv.symm.trans hw) ▸ h⟩
      rw [hfits]
      dsimp only at hcovers ⊢
      by_cases hnested : v.isNested = true
      · rw [if_pos hnested]
        exact denotes_appendNested_iff htype hnested
      · rw [if_neg hnested] at hcovers ⊢
        refine denotes_appendValue_iff (by simpa using hnested) ?_ (hreads v hv)
        intro hne
        refine hcovers ?_
        rw [Option.isSome_iff_ne_none, ne_eq, cellFromJson_raw_none_iff]
        exact hne
  | _ => exact hscalar rfl rfl

end Ontosyx.Source
