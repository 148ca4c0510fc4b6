import Ontosyx.Ontology.Notation

/-!
# When parsing and rendering undo each other

A rendered value that its component can read again is one that fits it: an integer of a
fixed width is not negative and has no more digits, and the separator does not begin
inside what is printed.  Nothing checks this when the value is rendered.  Components that
share a name are rendered from one value, whatever each of them reads.

## Main results

* `readsBack_iff` — a rendered text reads as its values exactly when they fit.
* `rendersBack` — what was read is rendered again when components of one name agree.
* `roundTrips_iff` — so a pattern round-trips when both always hold.
-/

namespace Ontosyx.Ontology

open List Ontosyx.Core Lib.Checked List Nat

def printed (kind : NotationComponentKind) (v : RenderValue) : List Char :=
  match kind, v with
  | .integerRange _ _ width, .integer n =>
    if 0 < width then (decimal n.toInt).leftpad width '0' else decimal n.toInt
  | .alphanumeric _ uppercase, .alphanumeric s =>
    (if uppercase then asciiUppercase s else s).toList
  | _, .integer n => decimal n.toInt
  | _, .code s | _, .alphanumeric s | _, .text s => s.toList

def Prints (codeResolver : ValueSetId → String → Bool) (kind : NotationComponentKind)
    (v : RenderValue) : Prop :=
  match kind, v with
  | .codeFromSet valueSetId, .code c => codeResolver valueSetId c = true
  | .integerRange min max _, .integer n => min.toInt ≤ n.toInt ∧ n.toInt ≤ max.toInt
  | .alphanumeric width _, .alphanumeric s =>
    s.toList.length = width ∧ ∀ c ∈ s.toList, c.isAlphanum = true
  | .freeText maxLen, .text s => ∀ max, maxLen = some max → s.toList.length ≤ max
  | _, _ => False

def RenderValue.readUnder (kind : NotationComponentKind) : RenderValue → ParsedValue
  | .code s => .code s
  | .integer n => .integer n
  | .alphanumeric s =>
    match kind with
    | .alphanumeric _ uppercase => .alphanumeric (if uppercase then asciiUppercase s else s)
    | _ => .alphanumeric s
  | .text s => .text s

def ParsedValue.toRender : ParsedValue → RenderValue
  | .code s => .code s
  | .integer n => .integer n
  | .alphanumeric s => .alphanumeric s
  | .text s => .text s

/-- An integer of a fixed width is not negative and not wider. -/
def FitsWidth (kind : NotationComponentKind) (v : RenderValue) : Prop :=
  match kind, v with
  | .integerRange _ _ width, .integer n => 0 < width → 0 ≤ n.toInt ∧ n.toInt < 10 ^ width
  | _, _ => True

section

variable {codeResolver : ValueSetId → String → Bool}

variable {v : RenderValue}

theorem renderComponent_ok_iff {component : NotationComponent} {s : String} :
    renderComponent codeResolver component v = .ok s ↔
      Prints codeResolver component.kind v ∧ String.ofList (printed component.kind v) = s := by
  unfold renderComponent Prints printed
  cases component.kind with
  | codeFromSet valueSetId =>
    cases v with
    | code c =>
      rw [ok_iff_of_guard, Bool.not_eq_true', Bool.not_eq_false, Except.ok.injEq,
        String.ofList_toList]
    | integer n => simp
    | alphanumeric a => simp
    | text t => simp
  | integerRange min max width =>
    cases v with
    | code c => simp
    | integer n =>
      rw [ok_iff_of_guard, not_or, not_lt, not_lt, Except.ok.injEq]
    | alphanumeric a => simp
    | text t => simp
  | alphanumeric width uppercase =>
    cases v with
    | code c => simp
    | integer n => simp
    | alphanumeric a =>
      rw [ok_iff_of_guard, ok_iff_of_guard, not_not, Bool.not_eq_true', Bool.not_eq_false,
        all_eq_true, Except.ok.injEq, String.ofList_toList, and_assoc]
    | text t => simp
  | freeText maxLen =>
    cases v with
    | code c => simp
    | integer n => simp
    | alphanumeric a => simp
    | text t =>
      cases maxLen with
      | none => simp
      | some max =>
        rw [ok_iff_of_guard, not_lt, Except.ok.injEq, String.ofList_toList]
        simp

/-! ## Characters and digits -/

theorem toUpper_of_isAlphanum {c : Char} (h : c.isAlphanum = true) :
    c.toUpper.isAlphanum = true ∧ c.toUpper.isLower = false := by
  have hlower : ∀ k < 123, 97 ≤ k → (Char.ofNat k).toUpper.isAlphanum = true ∧
      (Char.ofNat k).toUpper.isLower = false := by
    decide
  by_cases hc : 'a'.val ≤ c.val ∧ c.val ≤ 'z'.val
  · have hle : 97 ≤ c.toNat ∧ c.toNat ≤ 122 := hc
    have hofNat := hlower c.toNat (by omega) hle.1
    rwa [Char.ofNat_toNat] at hofNat
  · have hsame : c.toUpper = c := dif_neg hc
    rw [hsame]
    refine ⟨h, ?_⟩
    unfold Char.isLower
    rw [Bool.and_eq_false_iff, decide_eq_false_iff_not, decide_eq_false_iff_not]
    exact not_and_or.1 hc

theorem toUpper_of_not_isLower {c : Char} (h : c.isLower = false) : c.toUpper = c := by
  apply dif_neg
  intro hc
  unfold Char.isLower at h
  rw [Bool.and_eq_false_iff, decide_eq_false_iff_not, decide_eq_false_iff_not] at h
  exact not_and_or.2 h hc

/-- A text without lower-case letters is in upper case. -/
theorem asciiUppercase_of_upper {s : String} (h : ∀ c ∈ s.toList, c.isLower = false) :
    asciiUppercase s = s := by
  have hmap : s.toList.map Char.toUpper = s.toList := by
    rw [map_congr_left fun c hc => toUpper_of_not_isLower (h c hc), map_id']
  rw [asciiUppercase, hmap, String.ofList_toList]

theorem decimal_natCast (k : Nat) : decimal k = toDigits 10 k :=
  if_neg (by omega)

theorem decimal_neg {k : Nat} (h : 0 < k) : decimal (-(k : Int)) = '-' :: toDigits 10 k := by
  rw [decimal, if_pos (by omega), Int.natAbs_neg, Int.natAbs_natCast]

/-- An integer is read from what it is printed as. -/
theorem parseI64_decimal {n : Int} (h : -2 ^ 63 ≤ n ∧ n < 2 ^ 63) :
    parseI64 (decimal n) = some n := by
  by_cases hneg : n < 0
  · obtain ⟨k, rfl⟩ : ∃ k : Nat, n = -k := ⟨n.natAbs, by omega⟩
    rw [decimal_neg (by omega), parseI64_minus toDigits_ne_nil (isDigit_toDigits k),
      value_toDigits]
    rw [value_toDigits]
    omega
  · obtain ⟨k, rfl⟩ : ∃ k : Nat, n = k := ⟨n.natAbs, by omega⟩
    rw [decimal_natCast, parseI64_digits toDigits_ne_nil (isDigit_toDigits k),
      value_toDigits]
    rw [value_toDigits]
    omega

/-- So it is with zeros in front, if it is not negative and not too wide. -/
theorem padded_spec {k width : Nat} (hwidth : 0 < width) (h : k < 10 ^ width) (hk : k < 2 ^ 63) :
    ((toDigits 10 k).leftpad width '0').length = width ∧
      (∀ c ∈ (toDigits 10 k).leftpad width '0', c.isDigit = true) ∧
      parseI64 ((toDigits 10 k).leftpad width '0') = some (k : Int) := by
  have hlen : ((toDigits 10 k).leftpad width '0').length = width := by
    rw [length_leftpad, max_eq_left]
    exact (length_toDigits_le_iff (by decide) hwidth).2 h
  have hdigits : ∀ c ∈ (toDigits 10 k).leftpad width '0', c.isDigit = true := by
    intro c hc
    rw [leftpad, mem_append, mem_replicate] at hc
    cases hc with
    | inl hc =>
      rw [hc.2]
      decide
    | inr hc => exact isDigit_toDigits k c hc
  have hvalue : digitsValue ((toDigits 10 k).leftpad width '0') = k := by
    rw [leftpad, digitsValue_zeros, value_toDigits]
  refine ⟨hlen, hdigits, ?_⟩
  rw [parseI64_digits _ hdigits, hvalue]
  · rw [hvalue]
    exact hk
  · rw [← length_pos_iff, hlen]
    exact hwidth

theorem ofInt_toInt (n : Int64) : Int64.ofInt n.toInt = n :=
  Int64.toInt_inj.1 (Int64.toInt_ofInt_of_le n.minValue_le_toInt n.toInt_lt)

/-! ## Components -/

variable {kind : NotationComponentKind}

theorem reads_printed (hp : Prints codeResolver kind v) (hf : FitsWidth kind v) :
    Reads codeResolver kind (printed kind v) (v.readUnder kind) := by
  cases kind with
  | codeFromSet valueSetId =>
    cases v with
    | code c =>
      show _ ∧ _
      rw [printed, String.ofList_toList]
      exact ⟨hp, rfl⟩
    | _ => exact hp.elim
  | integerRange min max width =>
    cases v with
    | integer n =>
      have hbounds : -2 ^ 63 ≤ n.toInt ∧ n.toInt < 2 ^ 63 :=
        ⟨n.minValue_le_toInt, n.toInt_lt⟩
      by_cases hwidth : 0 < width
      · have hfit := hf hwidth
        obtain ⟨k, hk⟩ : ∃ k : Nat, n.toInt = k := ⟨n.toInt.natAbs, by omega⟩
        have hlt : k < 10 ^ width := by
          have hcast := hfit.2
          rw [hk] at hcast
          exact_mod_cast hcast
        obtain ⟨hlen, hdigits, hread⟩ := padded_spec hwidth hlt (by omega)
        rw [printed, if_pos hwidth, hk, decimal_natCast]
        refine ⟨fun _ => ⟨(byteLength_of_digits hdigits).trans hlen, hdigits⟩, k, hread, ?_, ?_⟩
        · rw [← hk]
          exact hp
        · rw [← hk, ofInt_toInt]
          rfl
      · rw [printed, if_neg hwidth]
        refine ⟨fun h => absurd h hwidth, n.toInt, parseI64_decimal hbounds, hp, ?_⟩
        rw [ofInt_toInt]
        rfl
    | _ => exact hp.elim
  | alphanumeric width uppercase =>
    cases v with
    | alphanumeric a =>
      show (_ ∧ _) ∧ _ ∧ _
      cases uppercase with
      | false =>
        rw [printed]
        exact ⟨hp, nofun, by rw [String.ofList_toList]; rfl⟩
      | true =>
        have hupper : (asciiUppercase a).toList = a.toList.map Char.toUpper :=
          String.toList_ofList
        rw [printed, if_pos rfl, hupper, length_map, forall_mem_map]
        refine ⟨⟨hp.1, fun c hc => (toUpper_of_isAlphanum (hp.2 c hc)).1⟩, fun _ => ?_, rfl⟩
        rw [forall_mem_map]
        exact fun c hc => (toUpper_of_isAlphanum (hp.2 c hc)).2
    | _ => exact hp.elim
  | freeText maxLen =>
    cases v with
    | text t =>
      show _ ∧ _
      rw [printed, String.ofList_toList]
      · exact ⟨hp, rfl⟩
    | _ => exact hp.elim

variable {t : List Char}

/-- Digits of a fixed width are what their value is printed as. -/
theorem padded_of_read {width : Nat} {n : Int}
    (ht : byteLength t = width ∧ ∀ c ∈ t, c.isDigit = true) (hread : parseI64 t = some n) :
    (0 ≤ n ∧ n < 10 ^ width) ∧ (decimal n).leftpad width '0' = t := by
  obtain ⟨hlen, hdigits⟩ := ht
  rw [byteLength_of_digits hdigits] at hlen
  obtain ⟨ds, hne, hds, hcases⟩ := parseI64_eq_some hread
  have hsigned {c : Char} (hc : c.isDigit = false) : t ≠ c :: ds := by
    rintro rfl
    rw [hdigits c mem_cons_self] at hc
    cases hc
  cases hcases with
  | inl hminus => exact absurd hminus.1 (hsigned (by decide))
  | inr hrest =>
    have ht : t = ds := hrest.1.resolve_left (hsigned (by decide))
    subst ht
    have hlt := digitsValue_lt hds
    rw [hlen] at hlt
    refine ⟨⟨by omega, ?_⟩, ?_⟩
    · rw [hrest.2]
      exact_mod_cast hlt
    · rw [hrest.2, decimal_natCast, ← hlen]
      exact leftpad_toDigits_digitsValue hne hds

/-- No text is longer than the tokens with its meaning, nor as long as another one. -/
structure Shortest (piece token : List Char) : Prop where
  length_le : piece.length ≤ token.length
  eq_of_length : piece.length = token.length → piece = token

theorem Shortest.refl (t : List Char) : Shortest t t := ⟨le_refl _, fun _ => rfl⟩

theorem shortest_toDigits {ds : List Char} (hne : ds ≠ []) (h : ∀ c ∈ ds, c.isDigit = true) :
    Shortest (toDigits 10 (digitsValue ds)) ds where
  length_le := length_toDigits_digitsValue_le hne h
  eq_of_length hlen :=
    digits_inj (isDigit_toDigits _) h hlen (value_toDigits _)

/-- An integer is printed as the shortest text that reads as it. -/
theorem shortest_decimal {n : Int} (h : parseI64 t = some n) : Shortest (decimal n) t := by
  obtain ⟨ds, hne, hds, hcases⟩ := parseI64_eq_some h
  have hshort := shortest_toDigits hne hds
  cases hcases with
  | inl hminus =>
    obtain ⟨rfl, rfl⟩ := hminus
    by_cases hzero : digitsValue ds = 0
    · have hlen := length_pos_iff.2 hne
      rw [hzero]
      constructor
      · show 1 ≤ ds.length + 1
        omega
      · show 1 = ds.length + 1 → _
        omega
    · rw [decimal_neg (by omega)]
      constructor
      · exact succ_le_succ hshort.length_le
      · intro hlen
        rw [hshort.eq_of_length (succ.inj hlen)]
  | inr hrest =>
    obtain ⟨ht, rfl⟩ := hrest
    rw [decimal_natCast]
    cases ht with
    | inl hplus =>
      have hle := hshort.length_le
      rw [hplus]
      constructor
      · rw [length_cons]
        omega
      · rw [length_cons]
        omega
    | inr ht =>
      rw [ht]
      exact hshort

/-- The text of a value that was read: the token, save for what leads an integer of no
fixed width. -/
def canonical (kind : NotationComponentKind) (v : ParsedValue) (token : List Char) : List Char :=
  match kind, v with
  | .integerRange _ _ 0, .integer n => decimal n.toInt
  | _, _ => token

/-- The value of a token is printed in the canonical form of the token. -/
structure Reprints (codeResolver : ValueSetId → String → Bool) (kind : NotationComponentKind)
    (v : RenderValue) (token : List Char) : Prop where
  prints : Prints codeResolver kind v
  fits : FitsWidth kind v
  printed_eq : printed kind v = canonical kind (v.readUnder kind) token

theorem isAlphanum_of_toUpper {c : Char} (h : c.toUpper.isAlphanum = true) :
    c.isAlphanum = true := by
  cases hlower : c.isLower with
  | true =>
    unfold Char.isAlphanum Char.isAlpha
    rw [hlower, Bool.or_true, Bool.true_or]
  | false => rwa [toUpper_of_not_isLower hlower] at h

/-- A value that a token is read as can be printed. -/
theorem reprints (h : Reads codeResolver kind t (v.readUnder kind)) :
    Reprints codeResolver kind v t := by
  cases kind with
  | codeFromSet valueSetId =>
    cases v with
    | code c =>
      have ht : c = String.ofList t := ParsedValue.code.inj h.2
      refine ⟨?_, trivial, ?_⟩
      · rw [ht]
        exact h.1
      · rw [printed, ht, String.toList_ofList]
        rfl
    | _ => cases h.2
  | integerRange min max width =>
    obtain ⟨hfixed, m, hread, hrange, hv⟩ := h
    cases v with
    | integer n =>
      have hm : n.toInt = m := by
        have hbounds := parseI64_bounds hread
        rw [ParsedValue.integer.inj hv, Int64.toInt_ofInt_of_le hbounds.1 hbounds.2]
      rw [← hm] at hread hrange
      cases width with
      | zero =>
        refine ⟨hrange, fun h => absurd h (lt_irrefl 0), ?_⟩
        rw [printed, if_neg (lt_irrefl 0)]
        rfl
      | succ width =>
        have hspec := padded_of_read (hfixed (succ_pos width)) hread
        refine ⟨hrange, fun _ => hspec.1, ?_⟩
        rw [printed, if_pos (succ_pos width), hspec.2]
        rfl
    | _ => cases hv
  | alphanumeric width uppercase =>
    obtain ⟨hletters, _, hv⟩ := h
    cases v with
    | alphanumeric a =>
      have ht : (if uppercase then asciiUppercase a else a).toList = t := by
        rw [ParsedValue.alphanumeric.inj hv, String.toList_ofList]
      refine ⟨?_, trivial, ht⟩
      rw [← ht] at hletters
      cases uppercase with
      | false => exact hletters
      | true =>
        rw [if_pos rfl, asciiUppercase, String.toList_ofList, length_map,
          forall_mem_map] at hletters
        exact ⟨hletters.1, fun c hc => isAlphanum_of_toUpper (hletters.2 c hc)⟩
    | _ => cases hv
  | freeText maxLen =>
    cases v with
    | text s =>
      have ht : s = String.ofList t := ParsedValue.text.inj h.2
      refine ⟨?_, trivial, ?_⟩
      · show ∀ max, _ → _
        rw [ht, String.toList_ofList]
        exact h.1
      · rw [printed, ht, String.toList_ofList]
        rfl
    | _ => cases h.2

/-- No token is shorter than its canonical form. -/
theorem shortest_canonical {v : ParsedValue} (h : Reads codeResolver kind t v) : Shortest
    (canonical kind v t) t := by
  unfold canonical
  split
  · obtain ⟨_, m, hread, _, hv⟩ := h
    have hbounds := parseI64_bounds hread
    rw [ParsedValue.integer.inj hv, Int64.toInt_ofInt_of_le hbounds.1 hbounds.2]
    exact shortest_decimal hread
  · exact Shortest.refl t

theorem readUnder_toRender {v : ParsedValue} (h : Reads codeResolver kind t v) :
    v.toRender.readUnder kind = v := by
  cases kind with
  | alphanumeric width uppercase =>
    obtain ⟨-, hupper, rfl⟩ := h
    cases uppercase with
    | false => rfl
    | true =>
      have hsame : asciiUppercase (String.ofList t) = String.ofList t := by
        apply asciiUppercase_of_upper
        rw [String.toList_ofList]
        exact hupper rfl
      exact congrArg ParsedValue.alphanumeric hsame
  | codeFromSet valueSetId | freeText maxLen =>
    obtain ⟨-, rfl⟩ := h
    rfl
  | integerRange min max width =>
    obtain ⟨-, n, -, -, rfl⟩ := h
    rfl

/-! ## Tokens and pieces -/

def pieces (values : RenderValues) (components : List NotationComponent) : List (List Char) :=
  components.filterMap fun c => (values.get c.name).map (printed c.kind)

def Returns (values : RenderValues) (components : List NotationComponent)
    (parsed : List ParsedComponent) : Prop :=
  Forall₂ (fun c p => p.name = c.name ∧
    (values.get c.name).map (·.readUnder c.kind) = some p.typed) components parsed

/-- Each component has a value that its kind has a text for. -/
def Printable (codeResolver : ValueSetId → String → Bool) (values : RenderValues)
    (components : List NotationComponent) : Prop :=
  ∀ c ∈ components, ∃ v, values.get c.name = some v ∧ Prints codeResolver c.kind v

def FitWidths (values : RenderValues) (components : List NotationComponent) : Prop :=
  ∀ c ∈ components, ∀ v, values.get c.name = some v → FitsWidth c.kind v

variable {c : NotationComponent} {values : RenderValues}

theorem pieces_cons (h : values.get c.name = some v) (components : List NotationComponent) :
    pieces values (c :: components) = printed c.kind v :: pieces values components := by
  rw [pieces, filterMap_cons_some (by rw [h]; rfl), pieces]

variable {tokens : List (List Char)} {components : List NotationComponent}
  {parsed : List ParsedComponent}

theorem readsAll_cons_iff {token : List Char} {p : ParsedComponent} :
    ReadsAll codeResolver (c :: components) (token :: tokens) (p :: parsed) ↔
      ReadsAs codeResolver c token p ∧ ReadsAll codeResolver components tokens parsed := by
  constructor
  · intro ⟨hlen, heach⟩
    rw [zip_cons_cons, forall₂_cons] at heach
    exact ⟨heach.1, succ.inj hlen, heach.2⟩
  · intro ⟨hfirst, hlen, heach⟩
    refine ⟨congrArg succ hlen, ?_⟩
    rw [zip_cons_cons, forall₂_cons]
    exact ⟨hfirst, heach⟩

/-- A list of tokens that is read begins with one for the first component. -/
theorem ReadsAll.cons_inv (h : ReadsAll codeResolver (c :: components) tokens parsed) :
    ∃ token tokens' p parsed', tokens = token :: tokens' ∧ parsed = p :: parsed' ∧
      ReadsAs codeResolver c token p ∧ ReadsAll codeResolver components tokens' parsed' := by
  cases tokens with
  | nil => exact absurd h.length_eq (by simp)
  | cons token tokens' =>
    have heach := h.each
    rw [zip_cons_cons] at heach
    cases heach with
    | cons hfirst hrest =>
      exact ⟨token, tokens', _, _, rfl, rfl, hfirst, succ.inj h.length_eq, hrest⟩

theorem ReadsAll.nil_inv (h : ReadsAll codeResolver [] tokens parsed) : tokens = [] ∧ parsed =
    [] := by
  refine ⟨length_eq_zero_iff.1 h.length_eq, ?_⟩
  have heach := h.each
  rw [zip_nil_left] at heach
  cases heach
  rfl

theorem readsAll_pieces (hp : Printable codeResolver values components)
    (hf : FitWidths values components) :
    ∃ parsed, ReadsAll codeResolver components (pieces values components) parsed ∧
      Returns values components parsed := by
  induction components with
  | nil => exact ⟨[], ⟨rfl, .nil⟩, .nil⟩
  | cons c components ih =>
    obtain ⟨v, hv, hprints⟩ := hp c mem_cons_self
    obtain ⟨parsed, hread, hreturns⟩ := ih (fun d hd => hp d (mem_cons_of_mem c hd))
      (fun d hd => hf d (mem_cons_of_mem c hd))
    have hfirst := reads_printed hprints (hf c mem_cons_self v hv)
    refine ⟨⟨c.name, String.ofList (printed c.kind v), v.readUnder c.kind⟩ :: parsed, ?_, ?_⟩
    · rw [pieces_cons hv, readsAll_cons_iff]
      exact ⟨⟨hfirst, rfl, rfl⟩, hread⟩
    · refine .cons ⟨rfl, ?_⟩ hreturns
      rw [hv]
      rfl

theorem fitWidths_of_readsAll (hp : Printable codeResolver values components)
    (hread : ReadsAll codeResolver components tokens parsed)
    (hreturns : Returns values components parsed) :
    FitWidths values components ∧ Forall₂ Shortest (pieces values components) tokens := by
  induction components generalizing tokens parsed with
  | nil =>
    rw [hread.nil_inv.1]
    exact ⟨fun c hc => absurd hc not_mem_nil, .nil⟩
  | cons c components ih =>
    obtain ⟨token, tokens', p, parsed', rfl, rfl, hfirst, hrest⟩ := hread.cons_inv
    rw [Returns, forall₂_cons] at hreturns
    obtain ⟨v, hv, hprints⟩ := hp c mem_cons_self
    obtain ⟨hwidths, hshort⟩ :=
      ih (fun d hd => hp d (mem_cons_of_mem c hd)) hrest hreturns.2
    have htyped := hreturns.1.2
    rw [hv, Option.map_some, Option.some.injEq] at htyped
    have hvalue := hfirst.value
    rw [← htyped] at hvalue
    have hpiece := shortest_canonical hvalue
    obtain ⟨-, hfits, hprinted⟩ := reprints hvalue
    rw [← hprinted] at hpiece
    constructor
    · intro d hd w hw
      cases mem_cons.1 hd with
      | inl heq =>
        subst heq
        rw [hv, Option.some.injEq] at hw
        rw [← hw]
        exact hfits
      | inr hmem => exact hwidths d hmem w hw
    · rw [pieces_cons hv]
      exact .cons hpiece hshort

/-- What is no longer piece by piece and as long when joined is the same. -/
theorem eq_of_intercalate {separator : List Char} {xs ys : List (List Char)}
    (h : Forall₂ Shortest xs ys)
    (heq : separator.intercalate xs = separator.intercalate ys) : xs = ys := by
  have hlen : (separator.intercalate xs).length ≤ (separator.intercalate ys).length ∧
      ((separator.intercalate xs).length = (separator.intercalate ys).length → xs = ys) := by
    clear heq
    induction h with
    | nil => exact ⟨le_refl _, fun _ => rfl⟩
    | cons hx hrest ih =>
      cases hrest with
      | nil =>
        rw [intercalate_singleton, intercalate_singleton]
        exact ⟨hx.length_le, fun h => by rw [hx.eq_of_length h]⟩
      | cons hy hrest =>
        have hle := hx.length_le
        rw [intercalate_cons_cons, intercalate_cons_cons, length_append,
          length_append, length_append, length_append]
        refine ⟨by omega, fun h => ?_⟩
        rw [hx.eq_of_length (by omega), ih.2 (by omega)]
  exact hlen.2 (congrArg length heq)

/-- What is printed takes the bytes that the component is cut at. -/
def Tiled (values : RenderValues) (components : List NotationComponent) : Prop :=
  ∀ c ∈ components, ∀ v, values.get c.name = some v →
    byteLength (printed c.kind v) = componentFixedWidth c

/-- A printed value that fits and is no wider than the component is as wide. -/
theorem byteLength_printed (hp : Prints codeResolver c.kind v) (hf : FitsWidth c.kind v)
    (hle : byteLength (printed c.kind v) ≤ componentFixedWidth c) :
    byteLength (printed c.kind v) = componentFixedWidth c := by
  obtain ⟨name, kind⟩ := c
  cases kind with
  | codeFromSet valueSetId => exact le_zero.1 hle
  | freeText maxLen => exact le_zero.1 hle
  | integerRange min max width =>
    cases v with
    | integer n =>
      cases width with
      | zero => exact le_zero.1 hle
      | succ width =>
        have hread : Reads codeResolver _ _ _ := reads_printed hp hf
        exact (hread.1 (succ_pos width)).1
    | _ => exact hp.elim
  | alphanumeric width uppercase =>
    cases v with
    | alphanumeric a =>
      have hread : Reads codeResolver _ _ _ := reads_printed hp hf
      exact (byteLength_of_isAlphanum hread.1.2).trans hread.1.1
    | _ => exact hp.elim

theorem tiled_of_le (hp : Printable codeResolver values components)
    (hf : FitWidths values components) (hle : ∀ x ∈ components.zip (pieces values components),
      byteLength x.2 ≤ componentFixedWidth x.1) : Tiled values components := by
  induction components with
  | nil => exact fun c hc => absurd hc not_mem_nil
  | cons c components ih =>
    obtain ⟨v, hv, hprints⟩ := hp c mem_cons_self
    rw [pieces_cons hv, zip_cons_cons, forall_mem_cons] at hle
    have hrest := ih (fun d hd => hp d (mem_cons_of_mem c hd))
      (fun d hd => hf d (mem_cons_of_mem c hd)) hle.2
    intro d hd w hw
    cases mem_cons.1 hd with
    | inl heq =>
      subst heq
      rw [hv, Option.some.injEq] at hw
      rw [← hw]
      exact byteLength_printed hprints (hf d mem_cons_self v hv) hle.1
    | inr hmem => exact hrest d hmem w hw

/-- Pieces as wide as their components are what the split of their join finds. -/
theorem splitFixedWidth_pieces (hp : Printable codeResolver values components)
    (htiled : Tiled values components) :
    splitFixedWidth (pieces values components).flatten components =
      some (pieces values components) := by
  induction components with
  | nil => rfl
  | cons c components ih =>
    obtain ⟨v, hv, -⟩ := hp c mem_cons_self
    have hrest := ih (fun d hd => hp d (mem_cons_of_mem c hd))
      (fun d hd => htiled d (mem_cons_of_mem c hd))
    rw [pieces_cons hv, flatten_cons, splitFixedWidth,
      ← htiled c mem_cons_self v hv, takeBytes_append]
    show (splitFixedWidth _ components).bind _ = _
    rw [hrest]
    rfl

theorem intercalate_empty (xs : List (List Char)) : [].intercalate xs = xs.flatten := by
  induction xs with
  | nil => rfl
  | cons x xs ih =>
    cases xs with
    | nil => simp
    | cons y ys =>
      rw [intercalate_cons_cons, ih, append_nil, flatten_cons (L := y :: ys)]

/-! ## Patterns -/

variable {np : NotationPatternDef}

variable {text : List Char}

theorem render_eq_ok_iff : np.render codeResolver values = .ok text ↔
      Printable codeResolver values np.components ∧
        np.separator.toList.intercalate (pieces values np.components) = text := by
  have hpart {c : NotationComponent} {s : String} :
      renderPart codeResolver np values c = .ok s ↔ ∃ v, values.get c.name = some v ∧
        Prints codeResolver c.kind v ∧ String.ofList (printed c.kind v) = s := by
    unfold renderPart
    cases values.get c.name with
    | none => simp
    | some v => simp [renderComponent_ok_iff]
  have hparts {components : List NotationComponent} {parts : List String} :
      Forall₂ (fun c s => renderPart codeResolver np values c = .ok s) components parts ↔
        Printable codeResolver values components ∧
          (pieces values components).map String.ofList = parts := by
    induction components generalizing parts with
    | nil =>
      rw [forall₂_nil_left_iff]
      exact ⟨fun h => ⟨fun c hc => absurd hc not_mem_nil, h.symm⟩, fun h => h.2.symm⟩
    | cons c components ih =>
      rw [forall₂_cons_left_iff, Printable, forall_mem_cons, ← Printable]
      constructor
      · rintro ⟨s, rest, hs, hrest, rfl⟩
        obtain ⟨v, hv, hprints, rfl⟩ := hpart.1 hs
        obtain ⟨hprintable, rfl⟩ := ih.1 hrest
        refine ⟨⟨⟨v, hv, hprints⟩, hprintable⟩, ?_⟩
        rw [pieces_cons hv, map_cons]
      · rintro ⟨⟨⟨v, hv, hprints⟩, hprintable⟩, rfl⟩
        rw [pieces_cons hv, map_cons]
        exact ⟨_, _, hpart.2 ⟨v, hv, hprints, rfl⟩, ih.2 ⟨hprintable, rfl⟩, rfl⟩
  have hlists : (((pieces values np.components).map String.ofList).map String.toList) =
      pieces values np.components := by
    simp [Function.comp_def]
  unfold NotationPatternDef.render
  rw [bind_eq_ok_iff]
  simp only [mapM_eq_ok_iff, hparts, pure_eq_ok_iff]
  constructor
  · rintro ⟨parts, ⟨hprintable, rfl⟩, rfl⟩
    exact ⟨hprintable, by rw [hlists]⟩
  · rintro ⟨hprintable, rfl⟩
    exact ⟨_, ⟨hprintable, rfl⟩, by rw [hlists]⟩

/-- The values can be told from what they are printed as. -/
structure FitsPattern (np : NotationPatternDef) (values : RenderValues) : Prop where
  widths : FitWidths values np.components
  tiled : np.separator = "" → Tiled values np.components
  separable : np.separator ≠ "" →
    Separable np.separator.toList (pieces values np.components)

def ReadsBack (codeResolver : ValueSetId → String → Bool) (np : NotationPatternDef)
    (values : RenderValues) (text : List Char) : Prop :=
  ∃ parsed, np.parse codeResolver text = some (.ok parsed) ∧
    Returns values np.components parsed

theorem tokens_of_separator (hsep : np.separator ≠ "") (text : List Char) :
    np.tokens text = some (splitAt np.separator.toList 0 [] text) := by
  rw [NotationPatternDef.tokens, if_neg]
  rwa [String.isEmpty_iff]

theorem toList_ne_nil (hsep : np.separator ≠ "") : np.separator.toList ≠ [] := by
  rwa [ne_eq, String.toList_eq_nil_iff]

theorem keepsOff_nil (separator rest : List Char) : KeepsOff separator [] rest := by
  intro before behind heq hne
  rw [nil_eq, append_eq_nil_iff] at heq
  exact absurd heq.2 hne

theorem intercalate_tokens (h : np.tokens text = some tokens) :
    np.separator.toList.intercalate tokens = text := by
  by_cases hsep : np.separator = ""
  · rw [tokens_of_empty hsep] at h
    rw [hsep, ← flatten_splitFixedWidth h]
    exact intercalate_empty tokens
  · rw [tokens_of_separator hsep, Option.some.injEq] at h
    rw [← h]
    exact (splitAt_spec (toList_ne_nil hsep) [] text (keepsOff_nil _ _)).1

/-- A rendered text reads as its values exactly when they fit. -/
theorem readsBack_iff (h : np.render codeResolver values = .ok text) :
    ReadsBack codeResolver np values text ↔ FitsPattern np values := by
  obtain ⟨hp, htext⟩ := render_eq_ok_iff.1 h
  constructor
  · intro ⟨parsed, hparse, hreturns⟩
    obtain ⟨tokens, htokens, hread⟩ := parse_eq_ok_iff.1 hparse
    obtain ⟨hwidths, hshort⟩ := fitWidths_of_readsAll hp hread hreturns
    have hpieces : pieces values np.components = tokens :=
      eq_of_intercalate hshort (htext.trans (intercalate_tokens htokens).symm)
    refine ⟨hwidths, fun hsep => ?_, fun hsep => ?_⟩
    · rw [tokens_of_empty hsep, ← hpieces] at htokens
      exact tiled_of_le hp hwidths (splitFixedWidth_le htokens)
    · rw [tokens_of_separator hsep, Option.some.injEq] at htokens
      rw [hpieces, ← htokens]
      exact (splitAt_spec (toList_ne_nil hsep) [] text (keepsOff_nil _ _)).2
  · intro hfits
    obtain ⟨parsed, hread, hreturns⟩ := readsAll_pieces hp hfits.widths
    refine ⟨parsed, parse_eq_ok_iff.2 ⟨_, ?_, hread⟩, hreturns⟩
    by_cases hsep : np.separator = ""
    · rw [tokens_of_empty hsep, ← htext, hsep, show "".toList = [] from rfl, intercalate_empty]
      exact splitFixedWidth_pieces hp (hfits.tiled hsep)
    · rw [tokens_of_separator hsep, ← htext,
        splitAt_intercalate (toList_ne_nil hsep) (hfits.separable hsep)]

/-! ## Rendering what was read -/

/-- `insert` of a map. -/
def RenderValues.insert (values : RenderValues) (name : String) (v : RenderValue) :
    RenderValues where
  entries := (name, v) :: values.entries.filter (·.1 ≠ name)
  nodup := by
    rw [map_cons, nodup_cons]
    refine ⟨by simp, ?_⟩
    exact values.nodup.sublist (filter_sublist.map Prod.fst)

/-- The values that were read, by the names of their components; the last of a name stays. -/
def RenderValues.collect (parsed : List ParsedComponent) : RenderValues :=
  parsed.foldl (fun values p => values.insert p.name p.typed.toRender) {}

theorem RenderValues.get_insert (values : RenderValues) (name other : String) (v : RenderValue) :
    (values.insert name v).get other = if other = name then some v else values.get other := by
  unfold RenderValues.get RenderValues.insert
  rw [lookup_cons]
  by_cases h : other = name
  · rw [if_pos h, h, beq_self_eq_true]
  · rw [if_neg h, beq_false_of_ne h]
    dsimp only
    induction values.entries with
    | nil => rfl
    | cons e es ih =>
      by_cases he : e.1 = name
      · rw [filter_cons_of_neg (by simp [he]), ih, lookup_cons,
          beq_false_of_ne (by rw [he]; exact h)]
      · rw [filter_cons_of_pos (by simp [he]), lookup_cons, lookup_cons, ih]

def lastOf (parsed : List ParsedComponent) (name : String) : Option ParsedComponent :=
  parsed.reverse.find? (·.name = name)

theorem get_collect (parsed : List ParsedComponent) (name : String) :
    (RenderValues.collect parsed).get name = (lastOf parsed name).map (·.typed.toRender) := by
  unfold RenderValues.collect lastOf
  induction parsed using reverseRecOn with
  | nil => rfl
  | append_singleton parsed last ih =>
    rw [foldl_append, foldl_cons, foldl_nil, RenderValues.get_insert,
      reverse_append, reverse_singleton, singleton_append, find?_cons]
    by_cases hname : name = last.name
    · rw [if_pos hname, decide_eq_true hname.symm]
      rfl
    · rw [if_neg hname, decide_eq_false (Ne.symm hname)]
      exact ih

/-- Each component reads what the last one of its name does, up to its own case rule. -/
def NamesAgree (np : NotationPatternDef) (parsed : List ParsedComponent) : Prop :=
  ∀ x ∈ np.components.zip parsed, ∀ q, lastOf parsed x.1.name = some q →
    q.typed.toRender.readUnder x.1.kind = x.2.typed

/-- The text of what was read, in its canonical form. -/
def canonicalText (np : NotationPatternDef) (parsed : List ParsedComponent) : List Char :=
  np.separator.toList.intercalate
    ((np.components.zip parsed).map fun (c, p) => canonical c.kind p.typed p.raw.toList)

def SameValues (xs ys : List ParsedComponent) : Prop :=
  Forall₂ (fun p q => p.name = q.name ∧ p.typed = q.typed) xs ys

/-- What was read is rendered in its canonical form, which reads the same. -/
def RendersBack (codeResolver : ValueSetId → String → Bool) (np : NotationPatternDef)
    (parsed : List ParsedComponent) : Prop :=
  np.render codeResolver (.collect parsed) = .ok (canonicalText np parsed) ∧
    ∃ again, np.parse codeResolver (canonicalText np parsed) = some (.ok again) ∧
      SameValues parsed again

theorem pieces_of_readsAll (h : ReadsAll codeResolver components tokens parsed)
    (hreturns : Returns values components parsed) :
    Printable codeResolver values components ∧ pieces values components =
      (components.zip parsed).map fun (c, p) => canonical c.kind p.typed p.raw.toList := by
  induction components generalizing tokens parsed with
  | nil => exact ⟨fun c hc => absurd hc not_mem_nil, rfl⟩
  | cons c components ih =>
    obtain ⟨token, tokens', p, parsed', rfl, rfl, hfirst, hrest⟩ := h.cons_inv
    rw [Returns, forall₂_cons] at hreturns
    obtain ⟨v, hv, htyped⟩ := Option.map_eq_some_iff.1 hreturns.1.2
    have hvalue := hfirst.value
    rw [← htyped] at hvalue
    obtain ⟨hprints, -, hprinted⟩ := reprints hvalue
    obtain ⟨hprintable, hpieces⟩ := ih hrest hreturns.2
    have htoken : p.raw.toList = token := by
      rw [hfirst.raw_eq, String.toList_ofList]
    rw [htyped, ← htoken] at hprinted
    constructor
    · rw [Printable, forall_mem_cons]
      exact ⟨⟨v, hv, hprints⟩, hprintable⟩
    · rw [pieces_cons hv, hprinted, hpieces, zip_cons_cons, map_cons]

theorem sameValues_of_returns {xs ys : List ParsedComponent} (hxs : Returns values components xs)
    (hys : Returns values components ys) : SameValues xs ys := by
  induction hxs generalizing ys with
  | nil =>
    cases hys
    exact .nil
  | cons hx _ ih =>
    cases hys with
    | cons hy hys =>
      refine .cons ⟨hx.1.trans hy.1.symm, ?_⟩ (ih hys)
      exact Option.some.inj (hx.2.symm.trans hy.2)

theorem ReadsAll.named (h : ReadsAll codeResolver components tokens parsed) :
    Forall₂ (fun c p => p.name = c.name ∧ p.typed.toRender.readUnder c.kind = p.typed)
      components parsed := by
  induction components generalizing tokens parsed with
  | nil =>
    rw [h.nil_inv.2]
    exact .nil
  | cons c components ih =>
    obtain ⟨token, tokens', p, parsed', rfl, rfl, hfirst, hrest⟩ := h.cons_inv
    exact .cons ⟨hfirst.name_eq, readUnder_toRender hfirst.value⟩ (ih hrest)

theorem returns_of_sameValues {xs ys : List ParsedComponent} (hys : Returns values components ys)
    (h : SameValues xs ys) : Returns values components xs := by
  induction h generalizing components with
  | nil => exact hys
  | cons hx _ ih =>
    cases hys with
    | cons hy hys =>
      rw [← hx.1, ← hx.2] at hy
      exact .cons hy (ih hys)

theorem eq_of_returns {others : RenderValues} (h : Returns values components parsed)
    (h' : Returns others components parsed) : ∀ c ∈ components,
      (values.get c.name).map (·.readUnder c.kind) =
        (others.get c.name).map (·.readUnder c.kind) := by
  induction h with
  | nil => exact fun c hc => absurd hc not_mem_nil
  | cons hx _ ih =>
    cases h' with
    | cons hy hys =>
      rw [forall_mem_cons]
      exact ⟨hx.2.trans hy.2.symm, ih hys⟩

/-- Components of one name agree when the collected values are what was read. -/
theorem namesAgree_iff (h : ReadsAll codeResolver np.components tokens parsed) :
    NamesAgree np parsed ↔ Returns (.collect parsed) np.components parsed := by
  obtain ⟨hlen, hnamed⟩ := forall₂_iff_zip.1 h.named
  unfold NamesAgree Returns
  rw [forall₂_iff_zip]
  simp only [get_collect, Option.map_map]
  constructor
  · intro hagree
    refine ⟨hlen, fun {c p} hx => ⟨(hnamed hx).1, ?_⟩⟩
    cases hlast : lastOf parsed c.name with
    | none =>
      have hnone := find?_eq_none.1 hlast p (by simpa using (of_mem_zip hx).2)
      rw [decide_eq_true_eq] at hnone
      exact absurd (hnamed hx).1 hnone
    | some q => exact congrArg some (hagree (c, p) hx q hlast)
  · intro ⟨_, hreturns⟩ x hx q hq
    have htyped := (hreturns hx).2
    rw [hq] at htyped
    exact Option.some.inj htyped

/-- What was read is rendered again when components of one name agree. -/
theorem rendersBack (hparse : np.parse codeResolver text = some (.ok parsed))
    (hagree : NamesAgree np parsed)
    (hfits : ∀ values text, np.render codeResolver values = .ok text → FitsPattern np values) :
    RendersBack codeResolver np parsed := by
  obtain ⟨tokens, htokens, hread⟩ := parse_eq_ok_iff.1 hparse
  have hreturns := (namesAgree_iff hread).1 hagree
  obtain ⟨hprintable, hpieces⟩ := pieces_of_readsAll hread hreturns
  have hrender : np.render codeResolver (.collect parsed) = .ok (canonicalText np parsed) := by
    rw [render_eq_ok_iff, hpieces]
    exact ⟨hprintable, rfl⟩
  obtain ⟨again, hagain, hreturns'⟩ := (readsBack_iff hrender).2 (hfits _ _ hrender)
  exact ⟨hrender, again, hagain, sameValues_of_returns hreturns hreturns'⟩

/-- Parsing and rendering undo each other, up to case and the canonical form. -/
structure RoundTrips (codeResolver : ValueSetId → String → Bool) (np : NotationPatternDef) :
    Prop where
  parse_render : ∀ values text, np.render codeResolver values = .ok text →
    ReadsBack codeResolver np values text
  render_parse : ∀ text parsed, np.parse codeResolver text = some (.ok parsed) →
    np.separator.toList.intercalate (parsed.map (·.raw.toList)) = text ∧
      RendersBack codeResolver np parsed
  render_inj : ∀ values others text, np.render codeResolver values = .ok text →
    np.render codeResolver others = .ok text → ∀ c ∈ np.components,
      (values.get c.name).map (·.readUnder c.kind) = (others.get c.name).map (·.readUnder c.kind)

/-- A pattern round-trips when its values always fit and its names always agree. -/
theorem roundTrips_iff (codeResolver : ValueSetId → String → Bool) (np : NotationPatternDef) :
    RoundTrips codeResolver np ↔
      (∀ values text, np.render codeResolver values = .ok text → FitsPattern np values) ∧
        ∀ text parsed, np.parse codeResolver text = some (.ok parsed) → NamesAgree np parsed := by
  constructor
  · intro h
    refine ⟨fun values text hrender => (readsBack_iff hrender).1 (h.parse_render _ _ hrender), ?_⟩
    intro text parsed hparse
    obtain ⟨hrender, again, hagain, hsame⟩ := (h.render_parse text parsed hparse).2
    obtain ⟨again', hagain', hreturns⟩ := h.parse_render _ _ hrender
    rw [hagain, Option.some.injEq, Except.ok.injEq] at hagain'
    rw [← hagain'] at hreturns
    obtain ⟨tokens, -, hread⟩ := parse_eq_ok_iff.1 hparse
    rw [namesAgree_iff hread]
    exact returns_of_sameValues hreturns hsame
  · intro ⟨hfits, hagree⟩
    refine ⟨?_, ?_, ?_⟩
    · intro values text hrender
      exact (readsBack_iff hrender).2 (hfits values text hrender)
    · intro text parsed hparse
      obtain ⟨tokens, htokens, hread⟩ := parse_eq_ok_iff.1 hparse
      rw [hread.raw_eq]
      exact ⟨intercalate_tokens htokens, rendersBack hparse (hagree text parsed hparse) hfits⟩
    · intro values others text hrender hrender'
      obtain ⟨parsed, hparse, hreturns⟩ := (readsBack_iff hrender).2 (hfits _ _ hrender)
      obtain ⟨parsed', hparse', hreturns'⟩ := (readsBack_iff hrender').2 (hfits _ _ hrender')
      rw [hparse, Option.some.injEq, Except.ok.injEq] at hparse'
      rw [← hparse'] at hreturns'
      exact eq_of_returns hreturns hreturns'

/-- Two texts with an underscore between them. -/
def pairCode : NotationPatternDef where
  id := ⟨"np-pair"⟩
  separator := "_"
  components := [⟨"left", .freeText none⟩, ⟨"right", .freeText none⟩]

/-- The underscore inside a text splits it when it is parsed. -/
theorem pairCode_broken : ¬ ∀ codeResolver np, RoundTrips codeResolver np := by
  intro h
  have hrender : pairCode.render (fun _ _ => false)
      ⟨[("left", .text "A_B"), ("right", .text "C")], by decide⟩ = .ok "A_B_C".toList := by
    decide +kernel
  obtain ⟨parsed, hparse, -⟩ := (h (fun _ _ => false) pairCode).parse_render _ _ hrender
  have hcount : pairCode.parse (fun _ _ => false) "A_B_C".toList =
      some (.error (.componentCount 2 3 "_")) := by
    decide +kernel
  rw [hcount] at hparse
  cases hparse

end

end Ontosyx.Ontology
