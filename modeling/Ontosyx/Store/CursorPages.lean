import Mathlib.Data.List.Nodup
import Mathlib.Data.Prod.Lex
import Mathlib.Order.Fin.Basic
import Ontosyx.Core.Numerals

/-!
# Pages of drafts

The drafts are listed a page at a time, the one changed last first.  A page that is not
the last one names the place of its last draft in a cursor, a text that the next request
brings back.

## Main results

* `cursorParts_cursorText` — a cursor is read back as the place it was written for.
* `walk_eq_listed` — the pages of a table that stays as it is list every draft once.
* `walkThrough_keeps` — the pages of a table that is edited meanwhile.
-/

namespace Ontosyx.Store

open List Ontosyx.Core

/-! ## Times in texts -/

/-- The calendar fields of a time in UTC. -/
structure Civil where
  year : Int
  month : Nat
  day : Nat
  hour : Nat
  minute : Nat
  second : Nat
  nanosecond : Nat
  month_le : month ≤ 12
  day_le : day ≤ 31
  hour_lt : hour < 24
  minute_lt : minute < 60
  second_lt : second < 60
  nanosecond_lt : nanosecond < 10 ^ 9

def padded (width n : Nat) : List Char := (Nat.toDigits 10 n).leftpad width '0'

/-- `%Y`: four digits, with a sign outside of the years that four digits can name. -/
def formatYear (year : Int) : List Char :=
  if 0 ≤ year ∧ year ≤ 9999 then padded 4 year.natAbs
  else (if year < 0 then '-' else '+') :: padded 4 year.natAbs

/-- `%.f`: nothing for a whole second, else as many of 3, 6 and 9 digits as it takes. -/
def formatFraction (nanosecond : Nat) : List Char :=
  if nanosecond = 0 then []
  else if nanosecond % 10 ^ 6 = 0 then '.' :: padded 3 (nanosecond / 10 ^ 6)
  else if nanosecond % 10 ^ 3 = 0 then '.' :: padded 6 (nanosecond / 10 ^ 3)
  else '.' :: padded 9 nanosecond

/-- `%Y-%m-%dT%H:%M:%S%.fZ`. -/
def formatTime (c : Civil) : List Char :=
  formatYear c.year ++ '-' :: (padded 2 c.month ++ '-' :: (padded 2 c.day ++ 'T' ::
    (padded 2 c.hour ++ ':' :: (padded 2 c.minute ++ ':' :: (padded 2 c.second ++
      (formatFraction c.nanosecond ++ ['Z']))))))

/-- Digits of a number, and how many. -/
structure IsNumber (width : Nat) (s : List Char) (n : Nat) : Prop where
  length : s.length = width
  digits : ∀ c ∈ s, c.isDigit = true
  value : digitsValue s = n

/-- A year of four digits, or of four or more after a sign. -/
def IsYear (s : List Char) (year : Int) : Prop :=
  (∃ n : Nat, IsNumber 4 s n ∧ year = n) ∨ ∃ ds, ∃ n : Nat, 4 ≤ ds.length ∧
    IsNumber ds.length ds n ∧ (s = '-' :: ds ∧ year = -n ∨ s = '+' :: ds ∧ year = n)

/-- The fraction of a second, in up to nine digits. -/
def IsFraction (s : List Char) (nanosecond : Nat) : Prop :=
  s = [] ∧ nanosecond = 0 ∨ ∃ ds, ∃ n : Nat, s = '.' :: ds ∧ ds ≠ [] ∧ ds.length ≤ 9 ∧
    IsNumber ds.length ds n ∧ nanosecond = n * 10 ^ (9 - ds.length)

/-- The texts of a time in UTC by RFC 3339, with years beyond its range after a sign. -/
def IsTimeText (text : List Char) (c : Civil) : Prop :=
  ∃ year month day hour minute second fraction : List Char,
    IsYear year c.year ∧ IsNumber 2 month c.month ∧ IsNumber 2 day c.day ∧
      IsNumber 2 hour c.hour ∧ IsNumber 2 minute c.minute ∧ IsNumber 2 second c.second ∧
      IsFraction fraction c.nanosecond ∧
      text = year ++ '-' :: (month ++ '-' :: (day ++ 'T' :: (hour ++ ':' :: (minute ++ ':' ::
        (second ++ (fraction ++ ['Z']))))))

theorem isNumber_padded {width n : Nat} (hwidth : 0 < width) (h : n < 10 ^ width) :
    IsNumber width (padded width n) n where
  length := by
    rw [padded, length_leftpad]
    exact Nat.max_eq_left ((Nat.length_toDigits_le_iff (by decide) hwidth).2 h)
  digits c hc := by
    rw [padded, leftpad, mem_append, mem_replicate] at hc
    rcases hc with ⟨-, rfl⟩ | hc
    exacts [rfl, isDigit_toDigits n c hc]
  value := by rw [padded, leftpad, digitsValue_zeros, value_toDigits]

theorem isYear_formatYear (year : Int) : IsYear (formatYear year) year := by
  unfold formatYear
  split
  · exact .inl ⟨year.natAbs, isNumber_padded (by decide) (by omega), by omega⟩
  · refine .inr ⟨padded 4 year.natAbs, year.natAbs, ?_, ⟨rfl, ?_, ?_⟩, ?_⟩
    · rw [padded, length_leftpad]
      exact le_max_left _ _
    · intro c hc
      rw [padded, leftpad, mem_append, mem_replicate] at hc
      rcases hc with ⟨-, rfl⟩ | hc
      exacts [rfl, isDigit_toDigits _ c hc]
    · rw [padded, leftpad, digitsValue_zeros, value_toDigits]
    · split
      · exact .inl ⟨rfl, by omega⟩
      · exact .inr ⟨rfl, by omega⟩

theorem isFraction_formatFraction {n : Nat} (h : n < 10 ^ 9) : IsFraction (formatFraction n) n := by
  have hpart : ∀ {width m : Nat}, 0 < width → width ≤ 9 → m < 10 ^ width →
      n = m * 10 ^ (9 - width) → IsFraction ('.' :: padded width m) n := by
    intro width m hpos hle hm hn
    have hnum := isNumber_padded hpos hm
    refine .inr ⟨padded width m, m, rfl, ?_, by rwa [hnum.length], ?_, by rwa [hnum.length]⟩
    · exact length_pos_iff.1 (by rwa [hnum.length])
    · rwa [hnum.length]
  unfold formatFraction
  split
  · exact .inl ⟨rfl, by assumption⟩
  · split
    · exact hpart (by decide) (by decide) (by omega) (by omega)
    · split
      · exact hpart (by decide) (by decide) (by omega) (by omega)
      · exact hpart (by decide) (by decide) (by omega) (by omega)

theorem isTimeText_formatTime (c : Civil) : IsTimeText (formatTime c) c :=
  have two {n : Nat} (h : n < 10 ^ 2) := @isNumber_padded 2 n (by decide) h
  ⟨_, _, _, _, _, _, _, isYear_formatYear c.year, two (by have := c.month_le; omega),
    two (by have := c.day_le; omega), two (by have := c.hour_lt; omega),
    two (by have := c.minute_lt; omega), two (by have := c.second_lt; omega),
    isFraction_formatFraction c.nanosecond_lt, rfl⟩

theorem IsNumber.bar_notMem {width n : Nat} {s : List Char} (h : IsNumber width s n) :
    '|' ∉ s := fun hmem => absurd (h.digits _ hmem) (by decide)

/-- No text of a time has a bar in it. -/
theorem IsTimeText.bar_notMem {text : List Char} {c : Civil} (h : IsTimeText text c) :
    '|' ∉ text := by
  obtain ⟨year, month, day, hour, minute, second, fraction, hyear, hmonth, hday, hhour, hminute,
    hsecond, hfraction, rfl⟩ := h
  have hyear : '|' ∉ year := by
    rcases hyear with ⟨n, hn, -⟩ | ⟨ds, n, -, hn, ⟨rfl, -⟩ | ⟨rfl, -⟩⟩
    · exact hn.bar_notMem
    all_goals simpa using hn.bar_notMem
  have hfraction : '|' ∉ fraction := by
    rcases hfraction with ⟨rfl, -⟩ | ⟨ds, n, rfl, -, -, hn, -⟩
    · exact not_mem_nil
    · simpa using hn.bar_notMem
  simp [hyear, hmonth.bar_notMem, hday.bar_notMem, hhour.bar_notMem, hminute.bar_notMem,
    hsecond.bar_notMem, hfraction]

/-! ## Cursors -/

/-- What the libraries of times and ids offer. -/
structure Codec (τ υ : Type) where
  civil : τ → Civil
  parseTime : List Char → Option τ
  showId : υ → List Char
  parseId : List Char → Option υ

/-- Times are read from their texts, and ids from the text that shows them. -/
structure Codec.Lawful {τ υ : Type} (codec : Codec τ υ) : Prop where
  parseTime : ∀ t text, IsTimeText text (codec.civil t) → codec.parseTime text = some t
  parseId : ∀ id, codec.parseId (codec.showId id) = some id

/-- `str::split_once`. -/
def splitOnce (sep : Char) : List Char → Option (List Char × List Char)
  | [] => none
  | c :: cs => if c = sep then some ([], cs) else (splitOnce sep cs).map fun p => (c :: p.1, p.2)

theorem splitOnce_append {sep : Char} {s : List Char} (h : sep ∉ s) (t : List Char) :
    splitOnce sep (s ++ sep :: t) = some (s, t) := by
  induction s with
  | nil => exact if_pos rfl
  | cons c s ih =>
    rw [mem_cons, not_or] at h
    rw [cons_append, splitOnce, if_neg (Ne.symm h.1), ih h.2]
    rfl

structure CursorParams where
  limit : Nat
  cursor : Option (List Char)

def CursorParams.effectiveLimit (p : CursorParams) : Nat := min (max p.limit 1) 100

variable {τ υ σ : Type} (codec : Codec τ υ)

def CursorParams.cursorParts (p : CursorParams) : Option (τ × υ) := do
  let (tsStr, idStr) ← splitOnce '|' (← p.cursor)
  let ts ← codec.parseTime tsStr
  let id ← codec.parseId idStr
  return (ts, id)

def cursorText (place : τ × υ) : List Char :=
  formatTime (codec.civil place.1) ++ '|' :: codec.showId place.2

theorem cursorParts_cursorText (hc : codec.Lawful) (limit : Nat) (place : τ × υ) :
    CursorParams.cursorParts codec ⟨limit, some (cursorText codec place)⟩ = some place := by
  have htime := isTimeText_formatTime (codec.civil place.1)
  simp [CursorParams.cursorParts, cursorText, splitOnce_append htime.bar_notMem,
    hc.parseTime place.1 _ htime, hc.parseId]

/-! ## Pages -/

structure CursorPage (ρ : Type) where
  items : List ρ
  nextCursor : Option (List Char)

/-- A page of the rows that were fetched, at most one more than the limit. -/
def buildCursorPage {ρ : Type} (rows : List ρ) (limit : Nat) (cursorExtractor : ρ → τ × υ) :
    CursorPage ρ :=
  let hasMore := rows.length > limit
  let rows' := if hasMore then rows.take limit else rows
  ⟨rows', if hasMore then rows'.getLast?.map fun last => cursorText codec (cursorExtractor last)
    else none⟩

/-- A row of the table, with what else a summary shows of it. -/
structure DraftRow (τ υ σ : Type) where
  id : υ
  updatedAt : τ
  archivedAt : Option τ
  summary : σ

def DraftRow.place (r : DraftRow τ υ σ) : τ × υ := (r.updatedAt, r.id)

/-- The table of drafts; the id is its primary key. -/
structure DraftTable (τ υ σ : Type) where
  rows : List (DraftRow τ υ σ)
  nodup_id : (rows.map DraftRow.id).Nodup

variable [LinearOrder τ] [LinearOrder υ]

/-- `ORDER BY updated_at DESC, id DESC`. -/
def newestFirst (rows : List (DraftRow τ υ σ)) : List (DraftRow τ υ σ) :=
  rows.mergeSort fun a b => decide (toLex b.place ≤ toLex a.place)

def listOntologyDrafts (table : DraftTable τ υ σ) (pagination : CursorParams) :
    CursorPage (DraftRow τ υ σ) :=
  let limit := pagination.effectiveLimit
  let fetched := match pagination.cursorParts codec with
    | some cursor => (newestFirst (table.rows.filter fun r =>
      r.archivedAt.isNone && decide (toLex r.place < toLex cursor))).take (limit + 1)
    | none => (newestFirst (table.rows.filter fun r => r.archivedAt.isNone)).take (limit + 1)
  buildCursorPage codec fetched limit DraftRow.place

/-- The pages of a walk, each with the next limit, put together; `none` if the walk does not
end within so many pages. -/
def walk (table : DraftTable τ υ σ) (limits : Nat → Nat) :
    Nat → Nat → Option (List Char) → Option (List (DraftRow τ υ σ))
  | 0, _, _ => none
  | fuel + 1, k, cursor =>
    let page := listOntologyDrafts codec table ⟨limits k, cursor⟩
    match page.nextCursor with
    | none => some page.items
    | some next => (walk table limits fuel (k + 1) (some next)).map (page.items ++ ·)

variable {table : DraftTable τ υ σ}

/-- The rows that are listed, the newest first. -/
def DraftTable.listed (table : DraftTable τ υ σ) : List (DraftRow τ υ σ) :=
  newestFirst (table.rows.filter fun r => r.archivedAt.isNone)

theorem pairwise_newestFirst (rows : List (DraftRow τ υ σ)) :
    (newestFirst rows).Pairwise fun a b => toLex b.place ≤ toLex a.place := by
  have h := @pairwise_mergeSort _ (fun a b : DraftRow τ υ σ => toLex b.place ≤ toLex a.place)
    (fun _ _ _ hab hbc => decide_eq_true (le_trans (of_decide_eq_true hbc) (of_decide_eq_true hab)))
    (fun a b => by simpa using le_total _ _) rows
  exact h.imp of_decide_eq_true

/-- No two listed rows have the same place. -/
theorem pairwise_listed (table : DraftTable τ υ σ) :
    table.listed.Pairwise fun a b => toLex b.place < toLex a.place := by
  have hnodup : (table.listed.map DraftRow.id).Nodup :=
    ((mergeSort_perm _ _).map _).nodup_iff.2 (table.nodup_id.sublist (filter_sublist.map _))
  refine ((pairwise_newestFirst _).and (pairwise_map.1 hnodup)).imp ?_
  rintro a b ⟨hle, hne⟩
  refine lt_of_le_of_ne hle fun heq => hne ?_
  exact (congrArg (fun p => (ofLex p).2) heq).symm

theorem newestFirst_filter {p : DraftRow τ υ σ → Bool} :
    newestFirst ((table.rows.filter fun r => r.archivedAt.isNone).filter p) =
      table.listed.filter p := by
  have hperm : (newestFirst ((table.rows.filter fun r => r.archivedAt.isNone).filter p)).Perm
      (table.listed.filter p) := (mergeSort_perm _ _).trans ((mergeSort_perm _ _).filter p).symm
  refine hperm.eq_of_pairwise (fun a b ha hb hab hba => ?_) (pairwise_newestFirst _)
    (((pairwise_listed table).filter p).imp le_of_lt)
  have hrow : ∀ {r}, r ∈ table.listed.filter p → r ∈ table.rows := fun hr =>
    (mem_filter.1 ((mergeSort_perm _ _).mem_iff.1 (mem_filter.1 hr).1)).1
  have hplace : b.place = a.place := congrArg ofLex (le_antisymm hab hba)
  exact inj_on_of_nodup_map table.nodup_id (hrow (hperm.mem_iff.1 ha)) (hrow hb)
    (congrArg Prod.snd hplace).symm

/-- The rows behind a row of a list in order are those that come after its place. -/
theorem filter_lt_place {l front back : List (DraftRow τ υ σ)} {last : DraftRow τ υ σ}
    (hl : l.Pairwise fun a b => toLex b.place < toLex a.place) (h : l = front ++ last :: back) :
    (l.filter fun r => decide (toLex r.place < toLex last.place)) = back := by
  subst h
  obtain ⟨-, hback, hcross⟩ := pairwise_append.1 hl
  have hfront : (front.filter fun r => decide (toLex r.place < toLex last.place)) = [] :=
    filter_eq_nil_iff.2 fun a ha => by
      simpa using (hcross a ha last mem_cons_self).le
  have hkept : (back.filter fun r => decide (toLex r.place < toLex last.place)) = back :=
    filter_eq_self.2 fun a ha => decide_eq_true ((pairwise_cons.1 hback).1 a ha)
  simp [filter_append, hfront, hkept]

/-- With a cursor a page picks from the rows that come after its place. -/
theorem listOntologyDrafts_some (hc : codec.Lawful) (limit : Nat) (last : DraftRow τ υ σ) :
    listOntologyDrafts codec table ⟨limit, some (cursorText codec last.place)⟩ =
      buildCursorPage codec ((table.listed.filter fun r =>
          decide (toLex r.place < toLex last.place)).take
          (CursorParams.effectiveLimit ⟨limit, none⟩ + 1))
        (CursorParams.effectiveLimit ⟨limit, none⟩) DraftRow.place := by
  rw [listOntologyDrafts, cursorParts_cursorText codec hc, ← newestFirst_filter, filter_filter]
  simp only [Bool.and_comm]
  rfl

omit [LinearOrder τ] [LinearOrder υ] in
/-- A page holds all the rows that were left, or ends with the row that its cursor names. -/
theorem buildCursorPage_cases (rows : List (DraftRow τ υ σ)) (limit : Nat) :
    let fetched := rows.take (CursorParams.effectiveLimit ⟨limit, none⟩ + 1)
    let page := buildCursorPage codec fetched (CursorParams.effectiveLimit ⟨limit, none⟩)
      DraftRow.place
    page = ⟨rows, none⟩ ∨ ∃ front last back, rows = front ++ last :: back ∧
      page = ⟨front ++ [last], some (cursorText codec last.place)⟩ := by
  dsimp only
  generalize hlimit : CursorParams.effectiveLimit ⟨limit, none⟩ = limit
  have hpos : 0 < limit := by
    rw [← hlimit, CursorParams.effectiveLimit]
    omega
  by_cases hmore : limit < rows.length
  · obtain ⟨front, last, hlast⟩ : ∃ front last, rows.take limit = front ++ [last] := by
      have hne : rows.take limit ≠ [] := by
        rw [← length_pos_iff, length_take]
        omega
      exact ⟨_, _, (dropLast_concat_getLast hne).symm⟩
    have hlength : (rows.take (limit + 1)).length > limit := by
      rw [length_take]
      omega
    have htake : (rows.take (limit + 1)).take limit = front ++ [last] := by
      rw [take_take, Nat.min_eq_left (Nat.le_succ _), hlast]
    refine .inr ⟨front, last, rows.drop limit, ?_, ?_⟩
    · rw [append_cons, ← hlast, take_append_drop]
    · simp only [buildCursorPage, if_pos hlength, htake, getLast?_concat]
      rfl
  · have hwhole : rows.take (limit + 1) = rows := take_of_length_le (by omega)
    exact .inl (by simp [buildCursorPage, hwhole, hmore])

/-- A walk that goes on with the last part of the rows lists that part. -/
theorem walk_back (hc : codec.Lawful) (limits : Nat → Nat) {fuel k : Nat}
    {cursor : Option (List Char)} {front back : List (DraftRow τ υ σ)}
    (hlisted : table.listed = front ++ back) (hfuel : back.length < fuel)
    (hpage : ∀ limit, listOntologyDrafts codec table ⟨limit, cursor⟩ = buildCursorPage codec
      (back.take (CursorParams.effectiveLimit ⟨limit, none⟩ + 1))
      (CursorParams.effectiveLimit ⟨limit, none⟩) DraftRow.place) :
    walk codec table limits fuel k cursor = some back := by
  induction fuel generalizing k cursor front back with
  | zero => cases hfuel
  | succ fuel ih =>
    rw [walk, hpage]
    obtain hlast | ⟨page, last, rest, rfl, hmore⟩ := buildCursorPage_cases codec back (limits k)
    · rw [hlast]
    · -- the page is full, and the walk goes on behind its last row
      have hsplit : table.listed = (front ++ page) ++ last :: rest := by
        rw [append_assoc, hlisted]
      have hfront : table.listed = (front ++ (page ++ [last])) ++ rest := by
        simpa using hsplit
      have hrest : walk codec table limits fuel (k + 1) (some (cursorText codec last.place)) =
          some rest := by
        refine ih hfront ?_ fun l => ?_
        · rw [length_append, length_cons] at hfuel
          omega
        · rw [listOntologyDrafts_some codec hc, filter_lt_place (pairwise_listed table) hsplit]
      rw [hmore]
      simp [hrest]

/-- Every walk over a table that stays as it is ends, whatever the limits of its pages, and
its pages list each row that is not archived once, the newest first. -/
theorem walk_eq_listed (hc : codec.Lawful) (table : DraftTable τ υ σ) (limits : Nat → Nat) :
    walk codec table limits (table.listed.length + 1) 0 none = some table.listed ∧
      table.listed.Perm (table.rows.filter fun r => r.archivedAt.isNone) ∧
      (table.listed.Pairwise fun a b => toLex b.place < toLex a.place) ∧
      ∀ (limit : Nat) (place : τ × υ),
        CursorParams.cursorParts codec ⟨limit, some (cursorText codec place)⟩ = some place :=
  ⟨walk_back codec hc limits (nil_append _).symm (Nat.lt_succ_self _) fun _ => rfl,
    mergeSort_perm _ _, pairwise_listed table, cursorParts_cursorText codec hc⟩

/-- The pages of a walk while the table is edited between the requests. -/
def walkThrough (tables : Nat → DraftTable τ υ σ) (limits : Nat → Nat) :
    Nat → Nat → Option (List Char) → Option (List (DraftRow τ υ σ))
  | 0, _, _ => none
  | fuel + 1, k, cursor =>
    let page := listOntologyDrafts codec (tables k) ⟨limits k, cursor⟩
    match page.nextCursor with
    | none => some page.items
    | some next => (walkThrough tables limits fuel (k + 1) (some next)).map (page.items ++ ·)

theorem walkThrough_still (table : DraftTable τ υ σ) (limits : Nat → Nat) (fuel k : Nat)
    (cursor : Option (List Char)) :
    walkThrough codec (fun _ => table) limits fuel k cursor =
      walk codec table limits fuel k cursor := by
  induction fuel generalizing k cursor with
  | zero => rfl
  | succ fuel ih => simp only [walkThrough, walk, ih]

theorem walkThrough_spec (hc : codec.Lawful) {tables : Nat → DraftTable τ υ σ}
    {limits : Nat → Nat} {fuel k : Nat} {cursor : Option (List Char)}
    (below : DraftRow τ υ σ → Bool) {rows : List (DraftRow τ υ σ)}
    (hpage : ∀ table limit, listOntologyDrafts codec table ⟨limit, cursor⟩ =
      buildCursorPage codec ((table.listed.filter below).take
        (CursorParams.effectiveLimit ⟨limit, none⟩ + 1))
        (CursorParams.effectiveLimit ⟨limit, none⟩) DraftRow.place)
    (hdown : ∀ a b, below a = true → toLex b.place < toLex a.place → below b = true)
    (h : walkThrough codec tables limits fuel k cursor = some rows) :
    (rows.Pairwise fun a b => toLex b.place < toLex a.place) ∧ (∀ r ∈ rows, below r = true) ∧
      ∀ r, (∀ j, r ∈ (tables j).listed) → below r = true → r ∈ rows := by
  induction fuel generalizing k cursor below rows with
  | zero => cases h
  | succ fuel ih =>
    have hsorted := (pairwise_listed (tables k)).filter below
    have hbelow : ∀ r ∈ (tables k).listed.filter below, below r = true :=
      fun r hr => (mem_filter.1 hr).2
    have hkept (r) (hr : ∀ j, r ∈ (tables j).listed) (hb : below r = true) :
        r ∈ (tables k).listed.filter below := mem_filter.2 ⟨hr k, hb⟩
    rw [walkThrough, hpage] at h
    obtain hlast | ⟨front, last, back, hsplit, hmore⟩ :=
      buildCursorPage_cases codec ((tables k).listed.filter below) (limits k)
    · rw [hlast] at h
      obtain rfl := Option.some.inj h
      exact ⟨hsorted, hbelow, hkept⟩
    · rw [hmore] at h
      obtain ⟨rest, hrest, rfl⟩ := Option.map_eq_some_iff.1 h
      obtain ⟨hdesc, hunder, hall⟩ := ih _
        (fun table limit => listOntologyDrafts_some codec hc limit last)
        (fun a b ha hab => decide_eq_true (hab.trans (of_decide_eq_true ha))) hrest
      rw [hsplit, append_cons] at hsorted hbelow hkept
      obtain ⟨hpage, -, hcross⟩ := pairwise_append.1 hsorted
      have hover : ∀ a ∈ front ++ [last], toLex last.place ≤ toLex a.place := by
        refine forall_mem_append.2 ⟨fun a ha => ?_, forall_mem_singleton.2 le_rfl⟩
        exact ((pairwise_append.1 hpage).2.2 a ha last (mem_singleton_self _)).le
      refine ⟨pairwise_append.2 ⟨hpage, hdesc, fun a ha b hb => ?_⟩,
        forall_mem_append.2 ⟨fun r hr => hbelow r (mem_append_left _ hr), fun r hr => ?_⟩,
        fun r hr hb => ?_⟩
      · exact (of_decide_eq_true (hunder b hb)).trans_le (hover a ha)
      · exact hdown last r (hbelow last (by simp)) (of_decide_eq_true (hunder r hr))
      · rcases mem_append.1 (hkept r hr hb) with hr' | hr'
        · exact mem_append_left _ hr'
        · refine mem_append_right _ (hall r hr (decide_eq_true ?_))
          exact hcross last (by simp) r hr'

/-- Edits between the pages of a walk make it neither repeat a row nor pass over one that stays
as it is. -/
theorem walkThrough_keeps (hc : codec.Lawful) {tables : Nat → DraftTable τ υ σ}
    {limits : Nat → Nat} {fuel : Nat} {rows : List (DraftRow τ υ σ)}
    (h : walkThrough codec tables limits fuel 0 none = some rows) :
    (rows.Pairwise fun a b => toLex b.place < toLex a.place) ∧
      ∀ r, (∀ k, r ∈ (tables k).rows ∧ r.archivedAt = none) → r ∈ rows := by
  obtain ⟨hdesc, -, hall⟩ := walkThrough_spec codec hc (fun _ => true)
    (fun table limit => by rw [filter_eq_self.2 fun _ _ => rfl]; rfl) (fun _ _ _ _ => rfl) h
  refine ⟨hdesc, fun r hr => hall r (fun k => ?_) rfl⟩
  obtain ⟨hmem, harchived⟩ := hr k
  exact (mergeSort_perm _ _).mem_iff.2 (mem_filter.2 ⟨hmem, by rw [harchived]; rfl⟩)

local instance morningNonempty : NeZero 2 := ⟨by decide⟩

/-- One time and two ids. -/
def morning : Codec (Fin 1) (Fin 2) where
  civil _ := ⟨2024, 5, 1, 10, 30, 0, 250000000, by decide, by decide, by decide, by decide,
    by decide, by decide⟩
  parseTime text := if text.getLast? = some 'Z' then some 0 else none
  showId id := ("00000000-0000-4000-8000-00000000000" ++ toString id).toList
  parseId text := if text.getLast? = some '0' then some 0 else some 1

theorem morning_lawful : morning.Lawful where
  parseTime t text h := by
    obtain ⟨_, _, _, _, _, _, _, _, _, _, _, _, _, _, rfl⟩ := h
    rw [Subsingleton.elim t 0]
    exact if_pos (by simp [getLast?_cons, getLast?_append])
  parseId := by decide

/-- Two drafts that were changed at one time, a page each. -/
theorem walk_morning :
    let table : DraftTable (Fin 1) (Fin 2) String :=
      ⟨[⟨0, 0, none, "sales"⟩, ⟨1, 0, none, "stock"⟩], by decide⟩
    walk morning table (fun _ => 1) (table.listed.length + 1) 0 none = some table.listed :=
  (walk_eq_listed morning morning_lawful _ _).1

theorem walkThrough_morning :
    let table : DraftTable (Fin 1) (Fin 2) String :=
      ⟨[⟨0, 0, none, "sales"⟩, ⟨1, 0, none, "stock"⟩], by decide⟩
    (table.listed.Pairwise fun a b => toLex b.place < toLex a.place) ∧
      ∀ r, (∀ _ : Nat, r ∈ table.rows ∧ r.archivedAt = none) → r ∈ table.listed :=
  walkThrough_keeps morning morning_lawful ((walkThrough_still morning _ _ _ _ _).trans
    (walk_back morning morning_lawful (fun _ => 1) (k := 0) (nil_append _).symm
      (Nat.lt_succ_self _) fun _ => rfl))

end Ontosyx.Store
