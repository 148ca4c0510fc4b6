import Mathlib.Data.String.Basic
import Ontosyx.Lib.Keyset
import Ontosyx.Load.Execute

/-!
# Incremental loads of one table

An incremental step reads the rows whose watermark lies beyond the checkpoint,
page by page, and moves the checkpoint to the largest watermark it has seen.  The
source orders the watermarks by their type; the program keeps them as texts and
takes the largest text.  Here a table grows by appended rows and is loaded again
and again, and nothing is missed as long as, for every page, the text of its
last watermark is the largest text and is read back as that watermark, no page
ends between equal watermarks, no batch fails, and no row is appended at or below
the checkpoint.

## Main results

* `incrementalLoop_spec` — one load submits what lies beyond its start.
* `incremental_run` — no row is missed in a run of such loads.
-/

namespace Ontosyx.Load

open List Lib.Keyset Prod

/-! ## The source -/

/-- A row of the table: its watermark, null or a value, and its other cells. -/
structure TableRow (V : Type) where
  mark : Option V
  cells : String → Json

/-- The watermark column between the source and the program: how a value is
shown, and which values a test with a bound text lets pass; `none` when the
source refuses the text. -/
structure Watermarks (V : Type) where
  json : V → Json
  above : String → Option (V → Bool)

def Watermarks.text {V : Type} (w : Watermarks V) (v : V) : String := (w.json v).text

section

variable {V : Type}

def pending (accept : V → Bool) (rows : List (TableRow V)) : List (V × (String → Json)) :=
  rows.filterMap fun r => (r.mark.filter accept).map fun v => (v, r.cells)

def marked (rows : List (TableRow V)) : List (V × (String → Json)) :=
  pending (fun _ => true) rows

def shown (w : Watermarks V) (watermarkColumn : String) (columns : List String)
    (r : V × (String → Json)) : SourceRow :=
  columns.map fun c => (c, if c = watermarkColumn then w.json r.1 else r.2 c)

/-- The rows of the batches for which the runtime reported an accepted result. -/
def rowsRun (accept : LoadResult → Bool) (log : List LoadEvent) : List SourceRow :=
  log.flatMap fun
    | .fetched _ _ _ rows _ (some result) => if accept result then rows else []
    | .fetched _ _ _ _ _ none | .counted .. | .missed .. => []

def submitted (log : List LoadEvent) : List SourceRow := rowsRun (fun _ => true) log

/-- The rows of batches that were not reported as failed. -/
def loaded (log : List LoadEvent) : List SourceRow :=
  rowsRun (fun result => result.batchesFailed = 0) log

theorem pending_eq_filter (accept : V → Bool) (rows : List (TableRow V)) :
    pending accept rows = (marked rows).filter fun r => accept r.1 := by
  unfold marked pending
  rw [filter_filterMap]
  congr 1
  funext r
  cases r.mark with
  | none => rfl
  | some v => cases haccept : accept v <;> simp [Option.filter, haccept]

theorem mem_pending {accept : V → Bool} {rows : List (TableRow V)} {r : V × (String → Json)} :
    r ∈ pending accept rows ↔ r ∈ marked rows ∧ accept r.1 = true := by
  rw [pending_eq_filter, mem_filter]

theorem pending_append (accept : V → Bool) (rows more : List (TableRow V)) :
    pending accept (rows ++ more) = pending accept rows ++ pending accept more :=
  filterMap_append

theorem rowsRun_append (accept : LoadResult → Bool) (log more : List LoadEvent) :
    rowsRun accept (log ++ more) = rowsRun accept log ++ rowsRun accept more :=
  flatMap_append

/-- The rows of batches that did not fail have been submitted. -/
theorem loaded_sublist_submitted (log : List LoadEvent) : (loaded log).Sublist (submitted log) := by
  induction log with
  | nil => exact Sublist.refl _
  | cons e log ih =>
    have hcons (accept : LoadResult → Bool) : rowsRun accept (e :: log) =
        rowsRun accept [e] ++ rowsRun accept log := rowsRun_append accept [e] log
    unfold loaded submitted at ih ⊢
    rw [hcons, hcons]
    refine Sublist.append ?_ ih
    cases e with
    | fetched step table columns rows statement result =>
      cases result with
      | none => exact Sublist.refl _
      | some result =>
        show Sublist ((if _ then rows else []) ++ []) (rows ++ [])
        rw [append_nil, append_nil]
        split
        · exact Sublist.refl _
        · exact nil_sublist _
    | counted => exact Sublist.refl _
    | missed => exact Sublist.refl _

theorem loaded_append (log more : List LoadEvent) :
    loaded (log ++ more) = loaded log ++ loaded more :=
  rowsRun_append _ log more

theorem loaded_fetched {step : Nat} {table statement : String} {columns : List String}
    {batch : List SourceRow} {result : LoadResult} (h : result.batchesFailed = 0) :
    loaded [.fetched step table columns batch statement (some result)] = batch := by
  show (if decide (result.batchesFailed = 0) = true then batch else []) ++ [] = batch
  rw [if_pos (decide_eq_true h), append_nil]

section

variable (w : Watermarks V) {watermarkColumn : String} {columns : List String}

theorem lookup_shown (h : watermarkColumn ∈ columns) (r : V × (String → Json)) :
    (shown w watermarkColumn columns r).lookup watermarkColumn = some (w.json r.1) := by
  unfold shown
  induction columns with
  | nil => cases h
  | cons c columns ih =>
    rw [map_cons]
    by_cases hc : c = watermarkColumn
    · rw [hc, lookup_cons_self, if_pos rfl]
    · have hne : (watermarkColumn == c) = false := beq_false_of_ne (Ne.symm hc)
      rw [lookup_cons, hne]
      exact ih ((mem_cons.1 h).resolve_left (Ne.symm hc))

theorem advance_shown (h : watermarkColumn ∈ columns) (m : String) (r : V × (String → Json)) :
    advance watermarkColumn m (shown w watermarkColumn columns r) =
      if m < w.text r.1 then w.text r.1 else m := by
  unfold advance
  rw [lookup_shown w h]
  rfl

end

end

/-! ## Loads -/

section

variable {V : Type} [LinearOrder V] (w : Watermarks V) (watermarkColumn : String)
  (site : StepSite) (graphLabel : String)

/-- The table and what the program has kept and done. -/
structure SourceState (V : Type) where
  rows : List (TableRow V)
  checkpoints : List LoadCheckpoint := []
  log : List LoadEvent := []

namespace SourceState

variable (s : SourceState V)

def checkpoint : Option LoadCheckpoint := getCheckpoint site.table graphLabel s.checkpoints

def start : String := ((s.checkpoint site graphLabel).map (·.watermarkValue)).getD ""

def load (outside : Outside) (batchSize fuel : Nat) : Outcome Unit :=
  incrementalStep outside site batchSize watermarkColumn graphLabel fuel
    { checkpoints := s.checkpoints }

def after (run : LoadRun) : SourceState V :=
  { s with checkpoints := run.checkpoints, log := s.log ++ run.log }

/-- Every row whose watermark is not null has been submitted. -/
def AllSubmitted : Prop :=
  ((marked s.rows).map (shown w watermarkColumn site.columns)).Subperm (submitted s.log)

/-- Every row that the checkpoint has moved past was in a batch that did not
fail. -/
def Safe : Prop :=
  ∀ c, s.checkpoint site graphLabel = some c → ∃ accept, w.above c.watermarkValue = some accept ∧
    ((pending (fun v => !accept v) s.rows).map (shown w watermarkColumn site.columns)).Subperm
      (loaded s.log)

end SourceState

/-- The source answers `fetch_incremental` as its SQL says: the rows that pass
the test, in the order of their watermarks (of equal ones in any order), up to
the limit.  A null watermark passes no test. -/
def AnswersSql (rows : List (TableRow V)) (outside : Outside) : Prop :=
  ∀ log bound limit,
    match w.above bound with
    | none =>
      outside.fetchIncremental log site.table site.columns watermarkColumn bound limit = none
    | some accept => ∃ sorted : List (V × (String → Json)), sorted.Perm (pending accept rows) ∧
        (sorted.map fst).Pairwise (· ≤ ·) ∧
        outside.fetchIncremental log site.table site.columns watermarkColumn bound limit =
          some ((sorted.take limit).map (shown w watermarkColumn site.columns))

/-- The runtime gave no result for a batch. -/
def LoadEvent.RuntimeFailed : LoadEvent → Prop
  | .fetched _ _ _ rows _ result => rows ≠ [] ∧ result = none
  | .counted .. | .missed .. => False

/-- What is asked of a load: it ends; when it completes, every row has been
submitted; it breaks off only when the checkpoints cannot be read or the runtime
fails; and the checkpoint it leaves is safe. -/
structure LoadsAll (s : SourceState V) (outside : Outside) (batchSize : Nat) : Prop where
  ends : ∃ fuel, ∀ run, s.load watermarkColumn site graphLabel outside batchSize fuel ≠
    .unfinished run
  complete : ∀ fuel run, s.load watermarkColumn site graphLabel outside batchSize fuel =
    .done () run → (s.after run).AllSubmitted w watermarkColumn site
  breaksOff : ∀ fuel run, s.load watermarkColumn site graphLabel outside batchSize fuel =
    .failed run → outside.readsCheckpoint [] = false ∨ ∃ e ∈ run.log, e.RuntimeFailed
  safe : ∀ fuel run, s.load watermarkColumn site graphLabel outside batchSize fuel = .done () run ∨
    s.load watermarkColumn site graphLabel outside batchSize fuel = .failed run →
      (s.after run).Safe w watermarkColumn site graphLabel

/-- The pages of a load from a text do not end between equal watermarks, and the
text of the last watermark of each is the largest so far and is read back as
that watermark. -/
structure PagesInOrder (start : String) (batchSize : Nat) (marks : List V) : Prop where
  noTies : NoTies batchSize marks
  largest : ∀ e, IsEnd batchSize marks e →
    start ≤ w.text e ∧ ∀ v ∈ marks, v ≤ e → w.text v ≤ w.text e
  readBack : ∀ e, IsEnd batchSize marks e → w.above (w.text e) = some fun v => decide (e < v)

/-- The watermarks beyond a test, sorted. -/
def sortedMarks (accept : V → Bool) (rows : List (TableRow V)) : List V :=
  ((pending accept rows).map fst).insertionSort (· ≤ ·)

/-- The condition of a load: a first load starts below every watermark, the
pages are in order, and no batch is reported as failed. -/
structure LoadInOrder (s : SourceState V) (outside : Outside) (batchSize : Nat) : Prop where
  first : s.checkpoint site graphLabel = none →
    ∃ accept, w.above "" = some accept ∧ pending accept s.rows = marked s.rows
  pages : ∀ accept, w.above (s.start site graphLabel) = some accept →
    PagesInOrder w (s.start site graphLabel) batchSize (sortedMarks accept s.rows)
  batches : ∀ log rows result, outside.executeLoad log site.cypher rows = some result →
    result.batchesFailed = 0

inductive Happening (V : Type) where
  | append (rows : List (TableRow V))
  | load (outside : Outside) (batchSize : Nat)

inductive Happens : SourceState V → Happening V → SourceState V → Prop
  | append (s : SourceState V) (rows : List (TableRow V)) :
      Happens s (.append rows) { s with rows := s.rows ++ rows }
  | load {s : SourceState V} {outside : Outside} {batchSize fuel : Nat} {run : LoadRun} :
      0 < batchSize → AnswersSql w watermarkColumn site s.rows outside →
      s.load watermarkColumn site graphLabel outside batchSize fuel = .done () run ∨
        s.load watermarkColumn site graphLabel outside batchSize fuel = .failed run →
      Happens s (.load outside batchSize) (s.after run)

/-- The condition of a step: appended rows lie beyond the checkpoint, and loads
are in order. -/
def InOrderAt (s : SourceState V) : Happening V → Prop
  | .append rows => ∀ c, s.checkpoint site graphLabel = some c → ∀ accept,
      w.above c.watermarkValue = some accept → pending accept rows = marked rows
  | .load outside batchSize => LoadInOrder w site graphLabel s outside batchSize

/-- A run whose steps all meet the condition. -/
inductive RunInOrder : SourceState V → SourceState V → Prop
  | start (s : SourceState V) : RunInOrder s s
  | step {s t u : SourceState V} {h : Happening V} : RunInOrder s t →
      InOrderAt w site graphLabel t h → Happens w watermarkColumn site graphLabel t h u →
      RunInOrder s u

end

section

variable {V : Type} [LinearOrder V] {w : Watermarks V} {watermarkColumn : String}
  {site : StepSite} {outside : Outside} {batchSize : Nat} {rows : List (TableRow V)}

/-- The runtime takes a batch or fails on it. -/
theorem submit_spec (outside : Outside) (site : StepSite) (batch : List SourceRow) (run : LoadRun) :
    (∃ result next, outside.executeLoad run.log site.cypher batch = some result ∧
      submit outside site batch run = .done () next ∧ next.checkpoints = run.checkpoints ∧
      next.log = run.log ++
        [.fetched site.step site.table site.columns batch site.cypher (some result)]) ∨
    (∃ next, submit outside site batch run = .failed next ∧ next.checkpoints = run.checkpoints ∧
      next.log = run.log ++
        [.fetched site.step site.table site.columns batch site.cypher none]) := by
  unfold submit
  cases outside.executeLoad run.log site.cypher batch with
  | none => exact .inr ⟨_, rfl, rfl, rfl⟩
  | some result => exact .inl ⟨result, _, rfl, rfl, rfl, rfl⟩

/-- The answer to a query has the watermarks beyond the test, sorted. -/
theorem map_fst_eq_sortedMarks {accept : V → Bool} {sorted : List (V × (String → Json))}
    (hperm : sorted.Perm (pending accept rows)) (hsorted : (sorted.map fst).Pairwise (· ≤ ·)) :
    sorted.map fst = sortedMarks accept rows := by
  refine Perm.eq_of_pairwise' hsorted (pairwise_insertionSort _ _) ?_
  exact (hperm.map fst).trans (perm_insertionSort _ _).symm

/-- Beyond the last row of a page lie the rows of the later pages. -/
theorem pending_beyond {accept : V → Bool} {sorted : List (V × (String → Json))}
    (hperm : sorted.Perm (pending accept rows)) (hsorted : (sorted.map fst).Pairwise (· ≤ ·))
    (hties : NoTies batchSize (sorted.map fst)) {last : V × (String → Json)}
    (hlast : (sorted.take batchSize).getLast? = some last)
    (hup : ∀ r ∈ marked rows, last.1 < r.1 → accept r.1 = true) :
    (sorted.drop batchSize).Perm (pending (fun v => last.1 < v) rows) := by
  have hsame : (pending accept rows).filter (fun r => last.1 < r.1) =
      pending (fun v => last.1 < v) rows := by
    rw [pending_eq_filter accept, pending_eq_filter, filter_filter]
    refine filter_congr fun r hr => ?_
    by_cases hlt : last.1 < r.1
    · simp [hlt, hup r hr hlt]
    · simp [hlt]
  rw [← filter_beyond hsorted hties hlast, ← hsame]
  exact hperm.filter _

/-- The later pages start from the text of the last watermark on the page. -/
theorem PagesInOrder.drop {start : String} {marks : List V}
    (h : PagesInOrder w start batchSize marks) {e : V} (hmem : e ∈ marks)
    (hbehind : ∀ v ∈ marks.drop batchSize, e ≤ v) :
    PagesInOrder w (w.text e) batchSize (marks.drop batchSize) where
  noTies := h.noTies.drop
  largest x hx := by
    have hlargest := (h.largest x hx.of_drop).2
    refine ⟨hlargest e hmem (hbehind x hx.mem), fun v hv hle => ?_⟩
    exact hlargest v (mem_of_mem_drop hv) hle
  readBack x hx := h.readBack x hx.of_drop

/-- What a loop from a bound does: when it ends it has loaded the rows beyond the
bound, and its last watermark is the bound itself or reads as the largest of
them; it breaks off only when the runtime fails; and it has ended when there were
more fetches than rows. -/
def LoopSpec (w : Watermarks V) (watermarkColumn : String) (site : StepSite)
    (rows : List (TableRow V)) (accept : V → Bool) (bound : String) (stepRows : Nat)
    (run : LoadRun) (fuel : Nat) : Outcome (String × Nat) → Prop
  | .done (mark, total) next =>
    next.checkpoints = run.checkpoints ∧ ∃ new, next.log = run.log ++ new ∧
      (loaded new).Perm
        ((pending accept rows).map (shown w watermarkColumn site.columns)) ∧
      ((pending accept rows = [] ∧ mark = bound ∧ total = stepRows) ∨
        ∃ e ∈ pending accept rows, w.above mark = some (fun v => decide (e.1 < v)) ∧
          (∀ r ∈ pending accept rows, r.1 ≤ e.1) ∧ stepRows < total)
  | .failed next =>
    next.checkpoints = run.checkpoints ∧ ∃ new, next.log = run.log ++ new ∧
      ∃ e ∈ new, e.RuntimeFailed
  | .unfinished _ => fuel ≤ (pending accept rows).length

theorem LoopSpec.of_rest {accept beyond : V → Bool} {bound mark : String} {stepRows fuel : Nat}
    {run next : LoadRun} {event : LoadEvent} {page : List (V × (String → Json))}
    {last : V × (String → Json)} {out : Outcome (String × Nat)}
    (hcheckpoints : next.checkpoints = run.checkpoints) (hlog : next.log = run.log ++ [event])
    (hloaded : loaded [event] = page.map (shown w watermarkColumn site.columns))
    (hperm : (pending accept rows).Perm (page ++ pending beyond rows)) (hlast : last ∈ page)
    (hle : ∀ r ∈ page, r.1 ≤ last.1) (hbeyond : ∀ r ∈ pending beyond rows, last.1 < r.1)
    (habove : w.above mark = some fun v => decide (last.1 < v))
    (h : LoopSpec w watermarkColumn site rows beyond mark (stepRows + page.length) next fuel out) :
    LoopSpec w watermarkColumn site rows accept bound stepRows run (fuel + 1) out := by
  have hpos : 0 < page.length := length_pos_of_mem hlast
  cases out with
  | done value after =>
    obtain ⟨reached, total⟩ := value
    obtain ⟨hkept, new, hnew, hrest, hmark⟩ := h
    refine ⟨hkept.trans hcheckpoints, event :: new, ?_, ?_, ?_⟩
    · rw [hnew, hlog, append_assoc]
      rfl
    · rw [← singleton_append, loaded_append, hloaded]
      refine (Perm.append_left _ hrest).trans ?_
      rw [← map_append]
      exact (hperm.map _).symm
    · right
      rcases hmark with ⟨hnone, hmark, htotal⟩ | ⟨e, he, hreads, hlargest, htotal⟩
      · refine ⟨last, hperm.mem_iff.2 (mem_append_left _ hlast), ?_, fun r hr => ?_,
          by omega⟩
        · rw [hmark]
          exact habove
        · rw [hnone, append_nil] at hperm
          exact hle r (hperm.mem_iff.1 hr)
      · refine ⟨e, hperm.mem_iff.2 (mem_append_right _ he), hreads, fun r hr => ?_, by omega⟩
        rcases mem_append.1 (hperm.mem_iff.1 hr) with hr | hr
        · exact (hle r hr).trans (hbeyond e he).le
        · exact hlargest r hr
  | failed after =>
    obtain ⟨hkept, new, hnew, e, he, hfailed⟩ := h
    refine ⟨hkept.trans hcheckpoints, event :: new, ?_, e, mem_cons_of_mem _ he, hfailed⟩
    rw [hnew, hlog, append_assoc]
    rfl
  | unfinished after =>
    have hlength := hperm.length_eq
    rw [length_append] at hlength
    have hfuel : fuel ≤ (pending beyond rows).length := h
    show fuel + 1 ≤ (pending accept rows).length
    omega

theorem incrementalLoop_spec (hcolumn : watermarkColumn ∈ site.columns) (hpos : 0 < batchSize)
    (hsql : AnswersSql w watermarkColumn site rows outside)
    (hbatches : ∀ log batch result, outside.executeLoad log site.cypher batch = some result →
      result.batchesFailed = 0) (fuel : Nat) :
    ∀ {accept : V → Bool} {bound : String} (stepRows : Nat) (run : LoadRun),
      w.above bound = some accept → PagesInOrder w bound batchSize (sortedMarks accept rows) →
      (∀ e ∈ pending accept rows, ∀ r ∈ marked rows, e.1 < r.1 → accept r.1 = true) →
      LoopSpec w watermarkColumn site rows accept bound stepRows run fuel
        (incrementalLoop outside site batchSize watermarkColumn fuel bound stepRows run) := by
  induction fuel with
  | zero => exact fun _ _ _ _ _ => Nat.zero_le _
  | succ fuel ih =>
    intro accept bound stepRows run habove hpages hup
    have hanswer := hsql run.log bound batchSize
    rw [habove] at hanswer
    obtain ⟨sorted, hperm, hsorted, hfetch⟩ := hanswer
    rw [← map_fst_eq_sortedMarks hperm hsorted] at hpages
    unfold incrementalLoop
    rw [hfetch]
    cases hpage : sorted.take batchSize with
    | nil =>
      have hnone : sorted = [] := by
        rcases take_eq_nil_iff.1 hpage with h | h
        · omega
        · exact h
      rw [hnone] at hperm
      have hpending : pending accept rows = [] := hperm.nil_eq.symm
      refine ⟨rfl, _, rfl, ?_, .inl ⟨hpending, rfl, rfl⟩⟩
      rw [hpending]
      exact List.Perm.refl _
    | cons head page =>
      have hfront : ((sorted.take batchSize).map fst).Pairwise (· ≤ ·) := by
        rw [map_take]
        exact hsorted.sublist (take_sublist _ _)
      obtain ⟨last, hlast⟩ : ∃ last, (sorted.take batchSize).getLast? = some last := by
        rw [hpage]
        exact ⟨_, getLast?_eq_some_getLast (cons_ne_nil _ _)⟩
      have hle := le_last_of_pairwise hfront hlast
      have hmemPage : last ∈ sorted.take batchSize := mem_of_getLast? hlast
      have hmem : last ∈ sorted := mem_of_mem_take hmemPage
      have hend : IsEnd batchSize (sorted.map fst) last.1 := by
        refine isEnd_of_last_take ?_
        rw [← map_take, getLast?_map, hlast]
        rfl
      -- the running maximum of the texts ends with that of the last row
      have hnext : (shown w watermarkColumn site.columns head ::
          page.map (shown w watermarkColumn site.columns)).foldl (advance watermarkColumn)
            bound = w.text last.1 := by
        rw [← map_cons, ← hpage, foldl_map]
        refine foldl_eq_largest (fun m r _ => advance_shown w hcolumn m r) hmemPage ?_
          (hpages.largest last.1 hend).1
        intro r hr
        refine (hpages.largest last.1 hend).2 r.1 ?_ (hle r hr)
        exact mem_map_of_mem (mem_of_mem_take hr)
      have hlength : (shown w watermarkColumn site.columns head ::
          page.map (shown w watermarkColumn site.columns)).length =
            (sorted.take batchSize).length := by
        rw [← map_cons, ← hpage, length_map]
      rw [map_cons]
      dsimp only
      rw [hnext, hlength]
      rcases submit_spec outside site (shown w watermarkColumn site.columns head ::
          page.map (shown w watermarkColumn site.columns)) run with
        ⟨result, next, hresult, hsubmit, hcheckpoints, hlog⟩ |
          ⟨next, hsubmit, hcheckpoints, hlog⟩
      · have hloaded : loaded [.fetched site.step site.table site.columns
            (shown w watermarkColumn site.columns head ::
              page.map (shown w watermarkColumn site.columns)) site.cypher (some result)] =
            (sorted.take batchSize).map (shown w watermarkColumn site.columns) := by
          rw [loaded_fetched (hbatches _ _ _ hresult), hpage, map_cons]
        rw [hsubmit]
        dsimp only
        by_cases hshort : (sorted.take batchSize).length < batchSize
        · have hall : sorted.take batchSize = sorted := by
            rw [length_take] at hshort
            exact take_of_length_le (by omega)
          rw [if_pos hshort]
          refine ⟨hcheckpoints, _, hlog, ?_, .inr ⟨last, hperm.mem_iff.1 hmem,
            hpages.readBack _ hend, fun r hr => ?_, ?_⟩⟩
          · rw [hloaded, hall]
            exact hperm.map _
          · rw [hall] at hle
            exact hle r (hperm.mem_iff.2 hr)
          · rw [hpage, length_cons]
            omega
        · have hrest := pending_beyond hperm hsorted hpages.noTies hlast fun r hr hlt =>
            hup last (hperm.mem_iff.1 hmem) r hr hlt
          have hbeyond : ∀ r ∈ pending (fun v => last.1 < v) rows, last.1 < r.1 :=
            fun r hr => of_decide_eq_true (mem_pending.1 hr).2
          have hlater : PagesInOrder w (w.text last.1) batchSize
              (sortedMarks (fun v => last.1 < v) rows) := by
            rw [← map_fst_eq_sortedMarks hrest
              (by rw [map_drop]; exact hsorted.sublist (drop_sublist _ _)),
              map_drop]
            refine hpages.drop (mem_map_of_mem hmem) fun v hv => ?_
            rw [← map_drop, mem_map] at hv
            obtain ⟨r, hr, rfl⟩ := hv
            exact (hbeyond r (hrest.mem_iff.1 hr)).le
          rw [if_neg hshort]
          refine LoopSpec.of_rest hcheckpoints hlog hloaded ?_ hmemPage hle hbeyond
            (hpages.readBack _ hend) (ih _ next (hpages.readBack _ hend) hlater ?_)
          · have hsplit : (pending accept rows).Perm
                (sorted.take batchSize ++ sorted.drop batchSize) := by
              rw [take_append_drop]
              exact hperm.symm
            exact hsplit.trans (Perm.append_left _ hrest)
          · intro e he r _ hlt
            exact decide_eq_true ((hbeyond e he).trans hlt)
      · rw [hsubmit]
        exact ⟨hcheckpoints, _, hlog, _, mem_singleton_self _, cons_ne_nil _ _, rfl⟩

end

/-! ## Checkpoints -/

/-- The checkpoint that was written last is found. -/
theorem exists_getCheckpoint_upsert (c : LoadCheckpoint) (cs : List LoadCheckpoint) :
    ∃ d, getCheckpoint c.sourceTable c.graphLabel (upsertCheckpoint c cs) = some d ∧
      d.watermarkValue = c.watermarkValue := by
  unfold getCheckpoint upsertCheckpoint
  dsimp only
  cases cs.find? fun d => decide (d.sourceTable = c.sourceTable) &&
      decide (d.graphLabel = c.graphLabel) with
  | none => exact ⟨c, by simp, rfl⟩
  | some d => exact ⟨{ c with recordCount := d.recordCount + c.recordCount }, by simp, rfl⟩

section

variable {V : Type} [LinearOrder V] {w : Watermarks V} {watermarkColumn : String}
  {site : StepSite} {graphLabel : String} {outside : Outside} {batchSize : Nat}
  {s : SourceState V}

/-- The checkpoint reads as a watermark, and every row up to it is loaded. -/
def Kept (w : Watermarks V) (watermarkColumn : String) (site : StepSite) (graphLabel : String)
    (s : SourceState V) : Prop :=
  ∀ c, s.checkpoint site graphLabel = some c → ∃ mark : V,
    w.above c.watermarkValue = some (fun v => decide (mark < v)) ∧
    ((pending (fun v => !decide (mark < v)) s.rows).map
      (shown w watermarkColumn site.columns)).Subperm (loaded s.log)

theorem Kept.safe (h : Kept w watermarkColumn site graphLabel s) :
    s.Safe w watermarkColumn site graphLabel := by
  intro c hc
  obtain ⟨mark, hreads, hloaded⟩ := h c hc
  exact ⟨_, hreads, hloaded⟩

/-- A load starts from a text that the source reads, and everything it does not
ask for is loaded. -/
theorem exists_start (hkept : Kept w watermarkColumn site graphLabel s)
    (h : LoadInOrder w site graphLabel s outside batchSize) :
    ∃ accept, w.above (s.start site graphLabel) = some accept ∧
      (∀ e ∈ pending accept s.rows, ∀ r ∈ marked s.rows, e.1 < r.1 → accept r.1 = true) ∧
      ((pending (fun v => !accept v) s.rows).map
        (shown w watermarkColumn site.columns)).Subperm (loaded s.log) := by
  unfold SourceState.start
  cases hc : s.checkpoint site graphLabel with
  | none =>
    obtain ⟨accept, habove, hall⟩ := h.first hc
    have haccept : ∀ r ∈ marked s.rows, accept r.1 = true := by
      intro r hr
      rw [← hall] at hr
      exact (mem_pending.1 hr).2
    refine ⟨accept, habove, fun _ _ r hr _ => haccept r hr, ?_⟩
    have hnone : pending (fun v => !accept v) s.rows = [] := by
      rw [eq_nil_iff_forall_not_mem]
      intro r hr
      obtain ⟨hr, hnot⟩ := mem_pending.1 hr
      rw [haccept r hr] at hnot
      cases hnot
    rw [hnone]
    exact nil_subperm
  | some c =>
    obtain ⟨mark, hreads, hloaded⟩ := hkept c hc
    refine ⟨_, hreads, fun e he r _ hlt => ?_, hloaded⟩
    exact decide_eq_true ((of_decide_eq_true (mem_pending.1 he).2).trans hlt)

omit [LinearOrder V] in
theorem subperm_of_parts {accept : V → Bool} {rows : List (TableRow V)} {log new : List LoadEvent}
    {f : V × (String → Json) → SourceRow}
    (hbefore : ((pending (fun v => !accept v) rows).map f).Subperm (loaded log))
    (hnew : (loaded new).Perm ((pending accept rows).map f)) :
    ((marked rows).map f).Subperm (loaded (log ++ new)) := by
  have hparts : (marked rows).Perm
      (pending (fun v => !accept v) rows ++ pending accept rows) := by
    rw [pending_eq_filter, pending_eq_filter accept]
    exact (filter_append_perm _ _).symm.trans perm_append_comm
  rw [loaded_append]
  refine (hparts.map f).subperm.trans ?_
  rw [map_append]
  exact hbefore.append hnew.symm.subperm

/-- Later events take nothing away. -/
theorem Kept.of_log {t : SourceState V} (h : Kept w watermarkColumn site graphLabel s)
    (hrows : t.rows = s.rows) (hcheckpoints : t.checkpoints = s.checkpoints)
    (hlog : ∃ new, t.log = s.log ++ new) : Kept w watermarkColumn site graphLabel t := by
  intro c hc
  unfold SourceState.checkpoint at hc
  rw [hcheckpoints] at hc
  obtain ⟨mark, hreads, hloaded⟩ := h c hc
  obtain ⟨new, hnew⟩ := hlog
  refine ⟨mark, hreads, ?_⟩
  rw [hrows, hnew, loaded_append]
  exact hloaded.trans (sublist_append_left _ _).subperm

/-- A checkpoint at the largest watermark keeps what has been loaded. -/
theorem kept_of_all {c : LoadCheckpoint} {cs : List LoadCheckpoint} {mark : V}
    (hkey : c.sourceTable = site.table ∧ c.graphLabel = graphLabel)
    (hcheckpoints : s.checkpoints = upsertCheckpoint c cs)
    (hreads : w.above c.watermarkValue = some fun v => decide (mark < v))
    (hall : ((marked s.rows).map (shown w watermarkColumn site.columns)).Subperm (loaded s.log)) :
    Kept w watermarkColumn site graphLabel s := by
  intro d hd
  obtain ⟨found, hfound, hvalue⟩ := exists_getCheckpoint_upsert c cs
  unfold SourceState.checkpoint at hd
  rw [hcheckpoints, ← hkey.1, ← hkey.2] at hd
  have hsame : found = d := Option.some.inj (hfound.symm.trans hd)
  refine ⟨mark, by rw [← hsame, hvalue, hreads], ?_⟩
  rw [pending_eq_filter]
  exact ((filter_sublist).map _).subperm.trans hall

def LoadSpec (w : Watermarks V) (watermarkColumn : String) (site : StepSite)
    (graphLabel : String) (s : SourceState V) (outside : Outside) (fuel : Nat) :
    Outcome Unit → Prop
  | .done () run =>
    ((marked s.rows).map (shown w watermarkColumn site.columns)).Subperm
      (loaded (s.log ++ run.log)) ∧ Kept w watermarkColumn site graphLabel (s.after run)
  | .failed run =>
    Kept w watermarkColumn site graphLabel (s.after run) ∧
      (outside.readsCheckpoint [] = false ∨ ∃ e ∈ run.log, e.RuntimeFailed)
  | .unfinished _ => fuel ≤ (marked s.rows).length

theorem load_spec (hcolumn : watermarkColumn ∈ site.columns) (hpos : 0 < batchSize)
    (hsql : AnswersSql w watermarkColumn site s.rows outside)
    (hkept : Kept w watermarkColumn site graphLabel s)
    (h : LoadInOrder w site graphLabel s outside batchSize) (fuel : Nat) :
    LoadSpec w watermarkColumn site graphLabel s outside fuel
      (s.load watermarkColumn site graphLabel outside batchSize fuel) := by
  obtain ⟨accept, habove, hup, hbefore⟩ := exists_start hkept h
  have hloop := incrementalLoop_spec hcolumn hpos hsql h.batches fuel 0
    { checkpoints := s.checkpoints } habove (h.pages accept habove) hup
  unfold SourceState.load incrementalStep
  by_cases hread : outside.readsCheckpoint [] = true
  · rw [if_pos hread]
    have hstart : s.start site graphLabel = ((getCheckpoint site.table graphLabel s.checkpoints).map
      (·.watermarkValue)).getD "" := rfl
    rw [hstart] at hloop
    dsimp only
    generalize ((getCheckpoint site.table graphLabel s.checkpoints).map
      (·.watermarkValue)).getD "" = start at hloop ⊢
    cases hout : incrementalLoop outside site batchSize watermarkColumn fuel start 0
        { checkpoints := s.checkpoints } with
    | done value next =>
      obtain ⟨mark, total⟩ := value
      rw [hout] at hloop
      obtain ⟨hcheckpoints, new, hlog, hloaded, hmark⟩ := hloop
      have hlog : next.log = new := hlog
      have hall := subperm_of_parts hbefore hloaded
      rw [← hlog] at hall
      have hsame : Kept w watermarkColumn site graphLabel (s.after next) :=
        hkept.of_log rfl hcheckpoints ⟨next.log, rfl⟩
      dsimp only
      by_cases hmoved : mark ≠ start ∨ 0 < total
      · rw [if_pos hmoved]
        by_cases hwrites : outside.writesCheckpoint next.log = true
        · rw [if_pos hwrites]
          refine ⟨hall, ?_⟩
          rcases hmark with ⟨-, hmark, htotal⟩ | ⟨e, -, hreads, -, -⟩
          · rcases hmoved with hmoved | hmoved
            · exact absurd hmark hmoved
            · omega
          · exact kept_of_all ⟨rfl, rfl⟩ rfl hreads hall
        · rw [if_neg hwrites]
          exact ⟨hall, hsame⟩
      · rw [if_neg hmoved]
        exact ⟨hall, hsame⟩
    | failed next =>
      rw [hout] at hloop
      obtain ⟨hcheckpoints, new, hlog, e, he, hfailed⟩ := hloop
      have hlog : next.log = new := hlog
      refine ⟨hkept.of_log rfl hcheckpoints ⟨next.log, rfl⟩, .inr ⟨e, ?_, hfailed⟩⟩
      rw [hlog]
      exact he
    | unfinished next =>
      rw [hout] at hloop
      have hfuel : fuel ≤ (pending accept s.rows).length := hloop
      have hle : (pending accept s.rows).length ≤ (marked s.rows).length := by
        rw [pending_eq_filter]
        exact length_filter_le _ _
      exact hfuel.trans hle
  · rw [if_neg hread]
    exact ⟨hkept.of_log rfl rfl ⟨[], rfl⟩, .inl (Bool.eq_false_iff.2 hread)⟩

end

section

variable {V : Type} [LinearOrder V] {w : Watermarks V} {watermarkColumn : String}
  {site : StepSite} {graphLabel : String} {s t : SourceState V}

/-- Appended rows beyond the checkpoint leave the loaded rows as they are. -/
theorem kept_of_append {rows : List (TableRow V)} (h : InOrderAt w site graphLabel s (.append rows))
    (hkept : Kept w watermarkColumn site graphLabel s) :
    Kept w watermarkColumn site graphLabel { s with rows := s.rows ++ rows } := by
  intro c hc
  obtain ⟨mark, hreads, hloaded⟩ := hkept c hc
  have hbeyond := h c hc _ hreads
  have hnone : pending (fun v => !decide (mark < v)) rows = [] := by
    rw [eq_nil_iff_forall_not_mem]
    intro r hr
    obtain ⟨hr, hnot⟩ := mem_pending.1 hr
    rw [← hbeyond] at hr
    rw [(mem_pending.1 hr).2] at hnot
    cases hnot
  refine ⟨mark, hreads, ?_⟩
  rw [pending_append, hnone, append_nil]
  exact hloaded

/-- One step keeps what has been loaded. -/
theorem Kept.step (hcolumn : watermarkColumn ∈ site.columns) {happening : Happening V}
    (hkept : Kept w watermarkColumn site graphLabel s) (h : InOrderAt w site graphLabel s happening)
    (hstep : Happens w watermarkColumn site graphLabel s happening t) :
    Kept w watermarkColumn site graphLabel t := by
  cases hstep with
  | append rows => exact kept_of_append h hkept
  | @load outside batchSize fuel run hpos hsql hout =>
    have hspec := load_spec hcolumn hpos hsql hkept h fuel
    rcases hout with hout | hout
    · rw [hout] at hspec
      exact hspec.2
    · rw [hout] at hspec
      exact hspec.1

/-- A run keeps what has been loaded. -/
theorem kept_of_run (hcolumn : watermarkColumn ∈ site.columns)
    (hfirst : s.checkpoint site graphLabel = none)
    (hrun : RunInOrder w watermarkColumn site graphLabel s t) :
    Kept w watermarkColumn site graphLabel t := by
  induction hrun with
  | start =>
    intro c hc
    rw [hfirst] at hc
    cases hc
  | step _ hin hstep ih => exact ih.step hcolumn hin hstep

/-- The site of a step that loads a table under a statement. -/
def incrementalSite (position : Nat) (table watermarkColumn cypher : String) (op : LoadOp) :
    StepSite :=
  ⟨position, table, fetchedColumns (.incremental watermarkColumn) op, cypher⟩

theorem mem_fetchedColumns (watermarkColumn : String) (op : LoadOp) :
    watermarkColumn ∈ fetchedColumns (.incremental watermarkColumn) op := by
  unfold fetchedColumns
  dsimp only
  split
  · assumption
  · exact mem_append_right _ (mem_singleton_self _)

/-- A run in order misses no row: its last state is safe, and the next load in
order does what is asked of it. -/
theorem incremental_run (position : Nat) (table cypher : String) (op : LoadOp)
    (hfirst : s.checkpoint (incrementalSite position table watermarkColumn cypher op)
      (graphLabelForOp op) = none) (hrun : RunInOrder w watermarkColumn
      (incrementalSite position table watermarkColumn cypher op) (graphLabelForOp op) s t) :
    t.Safe w watermarkColumn (incrementalSite position table watermarkColumn cypher op)
        (graphLabelForOp op) ∧ ∀ (outside : Outside) (batchSize : Nat), 0 < batchSize →
        AnswersSql w watermarkColumn
          (incrementalSite position table watermarkColumn cypher op) t.rows outside →
        LoadInOrder w (incrementalSite position table watermarkColumn cypher op)
          (graphLabelForOp op) t outside batchSize →
        LoadsAll w watermarkColumn (incrementalSite position table watermarkColumn cypher op)
          (graphLabelForOp op) t outside batchSize := by
  have hcolumn :
      watermarkColumn ∈ (incrementalSite position table watermarkColumn cypher op).columns :=
    mem_fetchedColumns watermarkColumn op
  have hkept := kept_of_run hcolumn hfirst hrun
  refine ⟨hkept.safe, fun outside batchSize hpos hsql hload => ?_⟩
  have hspec := load_spec hcolumn hpos hsql hkept hload
  constructor
  · refine ⟨(marked t.rows).length + 1, fun run hout => ?_⟩
    have hends := hspec ((marked t.rows).length + 1)
    rw [hout] at hends
    have hfuel : (marked t.rows).length + 1 ≤ (marked t.rows).length := hends
    omega
  · intro fuel run hout
    have hdone := hspec fuel
    rw [hout] at hdone
    exact hdone.1.trans (loaded_sublist_submitted _).subperm
  · intro fuel run hout
    have hfailed := hspec fuel
    rw [hout] at hfailed
    exact hfailed.2
  · intro fuel run hout
    have hleft := hspec fuel
    rcases hout with hout | hout
    · rw [hout] at hleft
      exact hleft.2.safe
    · rw [hout] at hleft
      exact hleft.1.safe

end

/-! ## A text column -/

def textMarks : Watermarks String where
  json := .string
  above bound := some fun v => bound < v

/-- A source with one table, whose rows keep their order within a watermark, and
a runtime that takes every batch. -/
def textSource (watermarkColumn : String) (columns : List String)
    (rows : List (TableRow String)) : Outside where
  countRows _ _ := none
  fetchBatch _ _ _ _ _ := none
  fetchIncremental _ _ _ _ bound limit :=
    some ((((pending (fun v => bound < v) rows).insertionSort fun a b => a.1 ≤ b.1).take limit).map
      (shown textMarks watermarkColumn columns))
  executeLoad _ _ _ := some {}
  readsCheckpoint _ := true
  writesCheckpoint _ := true

theorem answersSql_textSource (watermarkColumn : String) (site : StepSite)
    (rows : List (TableRow String)) : AnswersSql textMarks watermarkColumn site rows
      (textSource watermarkColumn site.columns rows) := by
  intro log bound limit
  refine ⟨_, perm_insertionSort _ _, ?_, rfl⟩
  rw [pairwise_map]
  have htotal : Std.Total fun a b : String × (String → Json) => a.1 ≤ b.1 :=
    ⟨fun a b => le_total a.1 b.1⟩
  have htrans : IsTrans (String × (String → Json)) fun a b => a.1 ≤ b.1 :=
    ⟨fun a b c => le_trans⟩
  exact pairwise_insertionSort _ _

def visit (day id : String) : TableRow String := ⟨some day, fun _ => .string id⟩

def upsertVisit : LoadOp :=
  .upsertNode "Visit" [⟨"id", "id", none⟩] [] .update

def twoDays : List (TableRow String) := [visit "2024-01-02" "b", visit "2024-01-01" "a"]

def oneDay : List (TableRow String) := [visit "2024-01-01" "a", visit "2024-01-01" "b"]

def visitSite : StepSite :=
  incrementalSite 0 "visits" "day" (compileLoadOp upsertVisit) upsertVisit

/-- How many rows a load that completes submits. -/
def Outcome.rowsSubmitted : Outcome Unit → Option Nat
  | .done () run => some (submitted run.log).length
  | .failed _ | .unfinished _ => none

/-- A page that ends between the two visits of a day loses the second one. -/
theorem oneDay_missed :
    AnswersSql textMarks "day" visitSite oneDay (textSource "day" visitSite.columns oneDay) ∧
      ¬LoadsAll textMarks "day" visitSite "Visit" { rows := oneDay }
        (textSource "day" visitSite.columns oneDay) 1 := by
  refine ⟨answersSql_textSource _ _ _, fun h => ?_⟩
  have hone : (SourceState.load "day" visitSite "Visit" { rows := oneDay }
      (textSource "day" visitSite.columns oneDay) 1 2).rowsSubmitted = some 1 := by decide
  cases hout : SourceState.load "day" visitSite "Visit" { rows := oneDay }
      (textSource "day" visitSite.columns oneDay) 1 2 with
  | done value run =>
    rw [hout] at hone
    have hsubmitted : (submitted run.log).length = 1 := Option.some.inj hone
    have hall : 2 ≤ (submitted run.log).length := (h.complete 2 run hout).length_le
    omega
  | failed run | unfinished run =>
    rw [hout] at hone
    cases hone

theorem loadInOrder_twoDays :
    LoadInOrder textMarks visitSite "Visit" { rows := [] ++ twoDays }
      (textSource "day" visitSite.columns twoDays) 2 where
  first _ := ⟨_, rfl, rfl⟩
  pages accept haccept := by
    have htest : accept = fun v => decide ("" < v) := (Option.some.inj haccept).symm
    have hmarks : sortedMarks accept ([] ++ twoDays) = ["2024-01-01", "2024-01-02"] := by
      rw [htest]
      decide
    rw [hmarks]
    have hleast : ∀ v ∈ ["2024-01-01", "2024-01-02"], "" ≤ v := by decide
    refine ⟨?_, fun e he => ⟨hleast e he.mem, fun v _ hle => hle⟩, fun e _ => rfl⟩
    intro i x y hi hx hy hxy
    match i with
    | 0 => omega
    | i + 1 => cases hy
  batches _ _ result hresult := by
    rw [← Option.some.inj hresult]

/-- Visits on two days, appended to an empty table, are all loaded. -/
theorem incremental_run_twoDays :
    LoadsAll textMarks "day" visitSite "Visit" { rows := [] ++ twoDays }
      (textSource "day" visitSite.columns twoDays) 2 := by
  have happend : InOrderAt textMarks visitSite "Visit" { rows := [] } (.append twoDays) := by
    intro c hc
    cases hc
  exact (incremental_run 0 "visits" (compileLoadOp upsertVisit) upsertVisit rfl
    (.step (.start { rows := [] }) happend (.append _ twoDays))).2 _ 2
    (by decide) (answersSql_textSource _ _ _) loadInOrder_twoDays

end Ontosyx.Load
