import Mathlib.Data.Finmap
import Ontosyx.Core.Chars

/-!
# Primitive values

The value types every part of the repository shares: validated graph
identifiers (`GraphLabel`, `PropertyKey`), language-tagged text, property types
and property values.  A `HashMap` of the source is a `Finmap` here, so two maps
are equal exactly when they hold the same entries, as the source's `PartialEq`
on maps has it.

## Main results

* `formatPropertyType_injective` — the display text of a property type
  determines the type.
-/

namespace Ontosyx.Core

/-! ## Validated identifiers -/

/-- `is_valid_graph_identifier`: non-empty, and every character is
alphanumeric, an underscore or a space. -/
def isValidGraphIdentifier (name : String) : Bool :=
  !name.isEmpty && name.toList.all fun c => isAlphanumeric c || c == '_' || c == ' '

/-- A validated node-type or edge-type label. -/
structure GraphLabel where
  val : String
  valid : isValidGraphIdentifier val = true
deriving DecidableEq

/-- `GraphLabel::new`; `none` is the source's validation error. -/
def GraphLabel.new (s : String) : Option GraphLabel :=
  if h : isValidGraphIdentifier s = true then some ⟨s, h⟩ else none

@[ext] theorem GraphLabel.ext {a b : GraphLabel} (h : a.val = b.val) : a = b := by
  cases a
  cases b
  cases h
  rfl

@[simp] theorem GraphLabel.new_val (l : GraphLabel) : GraphLabel.new l.val = some l := by
  simp [GraphLabel.new, l.valid]

structure PropertyKey where
  val : String
  valid : isValidGraphIdentifier val = true
deriving DecidableEq

/-- `PropertyKey::new`; `none` is the source's validation error. -/
def PropertyKey.new (s : String) : Option PropertyKey :=
  if h : isValidGraphIdentifier s = true then some ⟨s, h⟩ else none

@[ext] theorem PropertyKey.ext {a b : PropertyKey} (h : a.val = b.val) : a = b := by
  cases a
  cases b
  cases h
  rfl

/-! ## Localized text -/

/-- A BCP 47 language tag, stored in its canonical lower-case form. -/
structure LanguageTag where
  val : String
deriving DecidableEq

/-- Text with a canonical `default` and per-locale overrides. -/
structure LocalizedText where
  default : String
  translations : Finmap fun _ : LanguageTag => String
deriving DecidableEq

namespace LocalizedText

/-- `LocalizedText::new`: only a canonical default. -/
def new (default : String) : LocalizedText := ⟨default, ∅⟩

/-- `LocalizedText::empty`. -/
def empty : LocalizedText := new ""

/-- `LocalizedText::with_translation`. -/
def withTranslation (t : LocalizedText) (tag : LanguageTag) (text : String) : LocalizedText :=
  { t with translations := t.translations.insert tag text }

end LocalizedText

inductive PropertyType where
  | bool
  | int
  | float
  | string
  | date
  | dateTime
  | duration
  | bytes
  | list (element : PropertyType)
  | map
deriving DecidableEq

/-- The `format_property_type` of the diff report. -/
def formatPropertyType : PropertyType → String
  | .bool => "bool"
  | .int => "int"
  | .float => "float"
  | .string => "string"
  | .date => "date"
  | .dateTime => "datetime"
  | .duration => "duration"
  | .bytes => "bytes"
  | .map => "map"
  | .list element => "list<" ++ formatPropertyType element ++ ">"

/-- Only list types print a text that starts with `list`. -/
private theorem formatPropertyType_ne_list {t : PropertyType} (u : PropertyType)
    (ht : ∀ e, t ≠ .list e) : formatPropertyType t ≠ formatPropertyType (.list u) := by
  intro h
  have h4 := congrArg (fun s : String => s.toList.take 4) h
  simp only [formatPropertyType, String.toList_append] at h4
  cases t with
  | list e => exact ht e rfl
  | _ => simp [formatPropertyType] at h4

/-- The display text of a property type determines the type. -/
theorem formatPropertyType_injective : Function.Injective formatPropertyType := by
  intro t
  induction t with
  | list e ih =>
    intro u h
    cases u with
    | list f =>
      simp only [formatPropertyType, String.append_left_inj, String.append_right_inj] at h
      rw [ih h]
    | _ =>
      exact absurd h.symm (formatPropertyType_ne_list e (by simp))
  | _ =>
    intro u h
    cases u with
    | list f => exact absurd h (formatPropertyType_ne_list f (by simp))
    | _ => first | rfl | exact absurd h (by decide)

/-! ## Property values -/

/-- A finite IEEE 754 double, kept as its bit pattern.  Values enter through
JSON, which has neither infinities nor NaN. -/
structure F64 where
  bits : BitVec 64
  finite : bits.extractLsb' 52 11 ≠ BitVec.allOnes 11
deriving DecidableEq

/-- IEEE equality of finite doubles: equal bits, or both zeros. -/
def F64.eqv (a b : F64) : Bool :=
  a.bits == b.bits || (a.bits <<< 1 == 0#64 && b.bits <<< 1 == 0#64)

/-- A rank that orders finite doubles as IEEE comparison does: the low 63 bits,
negated under the sign bit. -/
def F64.rank (a : F64) : Int :=
  let magnitude : Int := (a.bits.toNat % 2 ^ 63 : Nat)
  if a.bits.msb then -magnitude else magnitude

/-- A property value.  The entries of a map are listed in key order. -/
inductive PropertyValue where
  | null
  | bool (b : Bool)
  | int (n : Int64)
  | float (x : F64)
  | string (s : String)
  | date (day : Int)
  | dateTime (nanos : Int)
  | duration (s : String)
  | bytes (bs : List UInt8)
  | list (vs : List PropertyValue)
  | map (entries : List (String × PropertyValue))

namespace PropertyValue

mutual
/-- Structural comparison of two values that compares doubles with `feq`. -/
def eqWith (feq : F64 → F64 → Bool) : PropertyValue → PropertyValue → Bool
  | .null, .null => true
  | .bool a, .bool b => a == b
  | .int a, .int b => a == b
  | .float a, .float b => feq a b
  | .string a, .string b => a == b
  | .date a, .date b => a == b
  | .dateTime a, .dateTime b => a == b
  | .duration a, .duration b => a == b
  | .bytes a, .bytes b => a == b
  | .list a, .list b => eqWithList feq a b
  | .map a, .map b => eqWithEntries feq a b
  | _, _ => false

/-- `eqWith` along two lists of values. -/
def eqWithList (feq : F64 → F64 → Bool) : List PropertyValue → List PropertyValue → Bool
  | [], [] => true
  | a :: as, b :: bs => eqWith feq a b && eqWithList feq as bs
  | _, _ => false

/-- `eqWith` along the entries of two maps. -/
def eqWithEntries (feq : F64 → F64 → Bool) :
    List (String × PropertyValue) → List (String × PropertyValue) → Bool
  | [], [] => true
  | (k, a) :: as, (l, b) :: bs => k == l && eqWith feq a b && eqWithEntries feq as bs
  | _, _ => false
end

/-- The source's derived `PartialEq`: doubles compare as IEEE numbers. -/
def eqv : PropertyValue → PropertyValue → Bool := eqWith F64.eqv

/-- Whether the derived `Debug` renderings of two values are the same text:
doubles then agree bit for bit, so `0.0` and `-0.0` render differently. -/
def sameRendering : PropertyValue → PropertyValue → Bool := eqWith fun a b => a.bits == b.bits

end PropertyValue

end Ontosyx.Core
