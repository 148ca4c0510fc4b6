import Ontosyx.Load.Execute

/-!
# Plans that are executed as written

The executor pairs the steps of a plan with the compiled statements by position,
but the compiler has sorted the steps; and it walks the plan in the order of its
list, whatever the steps depend on.  So a plan is executed as written when the
step at each position compiles to the statement of the step that the sort puts
there, and every step comes after those it depends on.

## Main results

* `log_executeSteps` — the events of a walk over steps.
* `executedAsWritten_iff` — which plans are executed as written.
-/

namespace Ontosyx.Load

open List Ontology

/-! ## What a plan asks for -/

/-- The rows of an exchange are run under its statement. -/
def LoadEvent.Runs : LoadEvent → Prop
  | .fetched _ _ _ rows _ _ => rows ≠ []
  | .counted .. | .missed .. => False

/-- An exchange for a step: its table, its columns and, when rows are run, its
statement. -/
def LoadEvent.Of (site : StepSite) : LoadEvent → Prop
  | .counted step table _ => step = site.step ∧ table = site.table
  | .missed step table columns =>
    step = site.step ∧ table = site.table ∧ columns = site.columns
  | .fetched step table columns rows statement _ =>
    step = site.step ∧ table = site.table ∧ columns = site.columns ∧
      (rows ≠ [] → statement = site.cypher)

theorem LoadEvent.Of.step_eq {site : StepSite} {e : LoadEvent} (h : e.Of site) :
    e.step = site.step := by
  cases e with
  | counted => exact h.1
  | missed => exact h.1
  | fetched => exact h.1

/-- The step at a position depends on the step at another one. -/
def LoadPlan.DependsOn (plan : LoadPlan) (i j : Nat) : Prop :=
  i ≠ j ∧ ∃ a b, plan.steps[i]? = some a ∧ plan.steps[j]? = some b ∧ b.order ∈ a.dependsOn

section

variable (toLowercase : String → String) (o : OntologyIR) (plan : LoadPlan)

/-- What the step at a position should run, when its table resolves. -/
def OwnSite (i : Nat) (site : StepSite) : Prop :=
  ∃ step, plan.steps[i]? = some step ∧
    resolveSourceTable toLowercase o step.operation = some site.table ∧
    site.step = i ∧ site.columns = fetchedColumns plan.mode step.operation ∧
    site.cypher = compileLoadOp step.operation

/-- A run does what the plan says: every exchange is that of its own step, no
rows are run before those of a step they depend on, and a finished run has asked
for the rows of every step whose table resolves. -/
structure AsWritten (out : Outcome Unit) : Prop where
  own : ∀ e ∈ out.run.log, ∃ site, OwnSite toLowercase o plan e.step site ∧ e.Of site
  ordered : out.run.log.Pairwise fun a b => a.Runs → b.Runs → ¬plan.DependsOn a.step b.step
  asked : ∀ run, out = .done () run → ∀ (i : Nat) (step : LoadStep), plan.steps[i]? = some step →
    resolveSourceTable toLowercase o step.operation ≠ none → ∃ e ∈ run.log, e.step = i

/-- Whatever the source, the runtime and the checkpoint store answer, and however
far a run is followed, it does what the plan says. -/
def ExecutedAsWritten : Prop :=
  ∀ (outside : Outside) (batchSize fuel : Nat) (checkpoints : List LoadCheckpoint),
    AsWritten toLowercase o plan
      (executeLoadFromSource outside toLowercase o ⟨plan, batchSize⟩ fuel checkpoints)

/-- The steps whose table resolves stand at positions at which the sort by order
number has a step with the same statement, and after those they depend on. -/
structure InOrder : Prop where
  paired : ∀ (i : Nat) (step : LoadStep), plan.steps[i]? = some step →
    resolveSourceTable toLowercase o step.operation ≠ none →
      ∃ sorted : LoadStep, (sortedSteps plan)[i]? = some sorted ∧
        compileLoadOp sorted.operation = compileLoadOp step.operation
  dependencies : ∀ (i j : Nat) (a b : LoadStep), plan.steps[i]? = some a → plan.steps[j]? = some b →
    resolveSourceTable toLowercase o a.operation ≠ none →
    resolveSourceTable toLowercase o b.operation ≠ none → plan.DependsOn i j → j < i

end

/-! ## The events of a loop -/

def Grows (p : LoadEvent → Prop) (before after : LoadRun) : Prop :=
  ∃ new, after.log = before.log ++ new ∧ ∀ e ∈ new, p e

section

variable {p q : LoadEvent → Prop} {a b c : LoadRun}

theorem Grows.refl : Grows p a a := ⟨[], by simp, fun _ h => absurd h not_mem_nil⟩

theorem Grows.trans (hab : Grows p a b) (hbc : Grows p b c) : Grows p a c := by
  obtain ⟨new, hlog, hnew⟩ := hab
  obtain ⟨new', hlog', hnew'⟩ := hbc
  refine ⟨new ++ new', by rw [hlog', hlog, append_assoc], fun e he => ?_⟩
  rcases mem_append.1 he with he | he
  · exact hnew e he
  · exact hnew' e he

theorem Grows.one {e : LoadEvent} (hlog : b.log = a.log ++ [e]) (he : p e) : Grows p a b := by
  refine ⟨[e], hlog, fun x hx => ?_⟩
  rw [mem_singleton.1 hx]
  exact he

theorem Grows.length_le (h : Grows p a b) : a.log.length ≤ b.log.length := by
  obtain ⟨new, hlog, -⟩ := h
  rw [hlog, length_append]
  omega

end

section

variable (outside : Outside) (site : StepSite) (batchSize : Nat)

theorem grows_submit (rows : List SourceRow) (run : LoadRun) :
    Grows (·.Of site) run (submit outside site rows run).run := by
  have hevent (result : Option LoadResult) : (LoadEvent.fetched site.step site.table site.columns
      rows site.cypher result).Of site := ⟨rfl, rfl, rfl, fun _ => rfl⟩
  unfold submit
  cases outside.executeLoad run.log site.cypher rows with
  | none => exact .one rfl (hevent none)
  | some result => exact .one rfl (hevent (some result))

theorem grows_incrementalLoop (watermarkColumn : String) (fuel : Nat) :
    ∀ (maxWatermark : String) (stepRows : Nat) (run : LoadRun),
      Grows (·.Of site) run (incrementalLoop outside site batchSize watermarkColumn fuel
        maxWatermark stepRows run).run := by
  induction fuel with
  | zero => exact fun _ _ _ => .refl
  | succ fuel ih =>
    intro maxWatermark stepRows run
    unfold incrementalLoop
    cases outside.fetchIncremental run.log site.table site.columns watermarkColumn maxWatermark
        batchSize with
    | none => exact .one rfl ⟨rfl, rfl, rfl⟩
    | some batch =>
      cases batch with
      | nil => exact .one rfl ⟨rfl, rfl, rfl, fun h => absurd rfl h⟩
      | cons row rows =>
        have hsubmit := grows_submit outside site (row :: rows) run
        dsimp only
        cases hout : submit outside site (row :: rows) run with
        | done value next =>
          rw [hout] at hsubmit
          dsimp only
          split
          · exact hsubmit
          · exact hsubmit.trans (ih _ _ _)
        | failed next | unfinished next =>
          rw [hout] at hsubmit
          exact hsubmit

theorem grows_fullLoop (rowCount fuel : Nat) : ∀ (offset : Nat) (run : LoadRun),
      Grows (·.Of site) run (fullLoop outside site batchSize rowCount fuel offset run).run := by
  induction fuel with
  | zero => exact fun _ _ => .refl
  | succ fuel ih =>
    intro offset run
    unfold fullLoop
    by_cases hoffset : offset < rowCount
    · rw [if_pos hoffset]
      cases outside.fetchBatch run.log site.table site.columns offset batchSize with
      | none => exact .one rfl ⟨rfl, rfl, rfl⟩
      | some batch =>
        cases batch with
        | nil => exact .one rfl ⟨rfl, rfl, rfl, fun h => absurd rfl h⟩
        | cons row rows =>
          have hsubmit := grows_submit outside site (row :: rows) run
          dsimp only
          cases hout : submit outside site (row :: rows) run with
          | done value next =>
            rw [hout] at hsubmit
            exact hsubmit.trans (ih _ _)
          | failed next | unfinished next =>
            rw [hout] at hsubmit
            exact hsubmit
    · rw [if_neg hoffset]
      exact .refl

theorem grows_fullStep (fuel : Nat) (run : LoadRun) :
    Grows (·.Of site) run (fullStep outside site batchSize fuel run).run := by
  unfold fullStep
  cases outside.countRows run.log site.table with
  | none => exact .one rfl ⟨rfl, rfl⟩
  | some rowCount =>
    have hcount : Grows (·.Of site) run { run with
        log := run.log ++ [.counted site.step site.table (some rowCount)] } :=
      .one rfl ⟨rfl, rfl⟩
    exact hcount.trans (grows_fullLoop outside site batchSize rowCount fuel 0 _)

theorem grows_incrementalStep (watermarkColumn graphLabel : String) (fuel : Nat) (run : LoadRun) :
    Grows (·.Of site) run
      (incrementalStep outside site batchSize watermarkColumn graphLabel fuel run).run := by
  unfold incrementalStep
  dsimp only
  split
  · generalize ((getCheckpoint site.table graphLabel run.checkpoints).map
      (·.watermarkValue)).getD "" = start
    have hloop := grows_incrementalLoop outside site batchSize watermarkColumn fuel start 0 run
    cases hout : incrementalLoop outside site batchSize watermarkColumn fuel start 0 run with
    | done value next =>
      rw [hout] at hloop
      dsimp only
      split
      · split
        · exact hloop
        · exact hloop
      · exact hloop
    | failed next | unfinished next =>
      rw [hout] at hloop
      exact hloop
  · exact .refl

variable {next run : LoadRun}

theorem length_submit {rows : List SourceRow} (h : submit outside site rows run = .done () next) :
    next.log.length = run.log.length + 1 := by
  unfold submit at h
  cases hresult : outside.executeLoad run.log site.cypher rows with
  | none =>
    rw [hresult] at h
    cases h
  | some result =>
    rw [hresult] at h
    cases h
    simp

variable {fuel : Nat}

theorem asked_incrementalLoop {watermarkColumn : String} {maxWatermark : String} {stepRows : Nat}
    {value : String × Nat}
    (h : incrementalLoop outside site batchSize watermarkColumn fuel maxWatermark stepRows run =
      .done value next) : run.log.length < next.log.length := by
  cases fuel with
  | zero => cases h
  | succ fuel =>
    unfold incrementalLoop at h
    cases hfetch : outside.fetchIncremental run.log site.table site.columns watermarkColumn
        maxWatermark batchSize with
    | none =>
      rw [hfetch] at h
      cases h
    | some batch =>
      rw [hfetch] at h
      cases batch with
      | nil =>
        cases h
        simp
      | cons row rows =>
        dsimp only at h
        cases hout : submit outside site (row :: rows) run with
        | done u mid =>
          have hmid := length_submit outside site hout
          rw [hout] at h
          dsimp only at h
          split at h
          · cases h
            omega
          · have hrest := grows_incrementalLoop outside site batchSize watermarkColumn fuel
              ((row :: rows).foldl (advance watermarkColumn) maxWatermark)
              (stepRows + (row :: rows).length) mid
            rw [h] at hrest
            have hle : mid.log.length ≤ next.log.length := hrest.length_le
            omega
        | failed mid | unfinished mid =>
          rw [hout] at h
          cases h

theorem asked_fullStep (h : fullStep outside site batchSize fuel run = .done () next) :
    run.log.length < next.log.length := by
  unfold fullStep at h
  cases hcount : outside.countRows run.log site.table with
  | none =>
    rw [hcount] at h
    cases h
  | some rowCount =>
    rw [hcount] at h
    dsimp only at h
    have hrest := grows_fullLoop outside site batchSize rowCount fuel 0
      { run with log := run.log ++ [.counted site.step site.table (some rowCount)] }
    rw [h] at hrest
    have hle := hrest.length_le
    simp only [length_append, length_singleton, Outcome.run] at hle
    omega

theorem asked_incrementalStep {watermarkColumn graphLabel : String}
    (h : incrementalStep outside site batchSize watermarkColumn graphLabel fuel run =
      .done () next) : run.log.length < next.log.length := by
  unfold incrementalStep at h
  dsimp only at h
  split at h
  · generalize ((getCheckpoint site.table graphLabel run.checkpoints).map
      (·.watermarkValue)).getD "" = start at h
    cases hout : incrementalLoop outside site batchSize watermarkColumn fuel start 0 run with
    | done value mid =>
      have hmid := asked_incrementalLoop outside site batchSize hout
      rw [hout] at h
      dsimp only at h
      split at h
      · split at h
        · cases h
          exact hmid
        · cases h
          exact hmid
      · cases h
        exact hmid
    | failed mid | unfinished mid =>
      rw [hout] at h
      cases h
  · cases h

theorem grows_loadSite (mode : LoadMode) (graphLabel : String) (fuel : Nat) (run : LoadRun) :
    Grows (·.Of site) run (loadSite outside site batchSize mode graphLabel fuel run).run := by
  cases mode with
  | full => exact grows_fullStep outside site batchSize fuel run
  | incremental watermarkColumn =>
    exact grows_incrementalStep outside site batchSize watermarkColumn graphLabel fuel run

theorem asked_loadSite {mode : LoadMode} {graphLabel : String}
    (h : loadSite outside site batchSize mode graphLabel fuel run = .done () next) :
    run.log.length < next.log.length := by
  cases mode with
  | full => exact asked_fullStep outside site batchSize h
  | incremental watermarkColumn => exact asked_incrementalStep outside site batchSize h

end

/-! ## The events of the walk -/

section

variable (outside : Outside) (toLowercase : String → String) (o : OntologyIR)
  (request : LoadRequest) (fuel : Nat)

/-- What the step loop runs for a step and the statement beside it. -/
def PairedSite (position : Nat) (step : LoadStep) (cypher : String) (site : StepSite) : Prop :=
  resolveSourceTable toLowercase o step.operation = some site.table ∧
    site.step = position ∧ site.columns = fetchedColumns request.plan.mode step.operation ∧
    site.cypher = cypher

/-- One turn of the step loop adds exchanges of its own site only. -/
theorem grows_executeStep (position : Nat) (step : LoadStep) (cypher : String) (run : LoadRun) :
    Grows (fun e => ∃ site, PairedSite toLowercase o request position step cypher site ∧ e.Of site)
      run (executeStep outside toLowercase o request fuel position step cypher run).run := by
  unfold executeStep
  cases htable : resolveSourceTable toLowercase o step.operation with
  | none => exact .refl
  | some table =>
    obtain ⟨new, hlog, hnew⟩ := grows_loadSite outside
      ⟨position, table, fetchedColumns request.plan.mode step.operation, cypher⟩
      request.batchSize request.plan.mode (graphLabelForOp step.operation) fuel run
    exact ⟨new, hlog, fun e he => ⟨_, ⟨htable, rfl, rfl, rfl⟩, hnew e he⟩⟩

/-- A finished turn for a step with a table has asked the source. -/
theorem asked_executeStep {position : Nat} {step : LoadStep} {cypher : String} {run next : LoadRun}
    (h : executeStep outside toLowercase o request fuel position step cypher run = .done () next)
    (htable : resolveSourceTable toLowercase o step.operation ≠ none) :
    ∃ e ∈ next.log, e.step = position := by
  have hgrows := grows_executeStep outside toLowercase o request fuel position step cypher run
  rw [h] at hgrows
  obtain ⟨new, hlog, hnew⟩ := hgrows
  have hlog : next.log = run.log ++ new := hlog
  have hlonger : run.log.length < next.log.length := by
    unfold executeStep at h
    cases hsome : resolveSourceTable toLowercase o step.operation with
    | none => exact absurd hsome htable
    | some table =>
      rw [hsome] at h
      exact asked_loadSite _ _ _ h
  cases new with
  | nil =>
    rw [hlog, append_nil] at hlonger
    omega
  | cons e new =>
    obtain ⟨site, hsite, he⟩ := hnew e mem_cons_self
    refine ⟨e, ?_, he.step_eq.trans hsite.2.1⟩
    rw [hlog]
    exact mem_append_right _ mem_cons_self

/-- The events of a walk over steps: each belongs to a pair of the list, and
they come in the order of the positions. -/
theorem log_executeSteps (pairs : List (LoadStep × String)) :
    ∀ (position : Nat) (run : LoadRun), ∃ new,
      (executeSteps outside toLowercase o request fuel position pairs run).run.log =
          run.log ++ new ∧ (∀ e ∈ new, ∃ i pair site, pairs[i]? = some pair ∧
          PairedSite toLowercase o request (position + i) pair.1 pair.2 site ∧ e.Of site) ∧
        new.Pairwise fun a b => a.step ≤ b.step := by
  induction pairs with
  | nil =>
    intro position run
    exact ⟨[], by simp [executeSteps, Outcome.run], fun _ h => absurd h not_mem_nil,
      Pairwise.nil⟩
  | cons pair pairs ih =>
    intro position run
    obtain ⟨step, cypher⟩ := pair
    obtain ⟨new, hlog, hnew⟩ :=
      grows_executeStep outside toLowercase o request fuel position step cypher run
    have hhere : ∀ e ∈ new, ∃ i pair site, ((step, cypher) :: pairs)[i]? = some pair ∧
        PairedSite toLowercase o request (position + i) pair.1 pair.2 site ∧ e.Of site := by
      intro e he
      obtain ⟨site, hsite, hof⟩ := hnew e he
      exact ⟨0, (step, cypher), site, rfl, hsite, hof⟩
    have hsame : ∀ e ∈ new, e.step = position := by
      intro e he
      obtain ⟨site, hsite, hof⟩ := hnew e he
      exact hof.step_eq.trans hsite.2.1
    have hordered : new.Pairwise fun a b => a.step ≤ b.step := by
      refine pairwise_of_forall_mem_list fun a ha b hb => ?_
      rw [hsame a ha, hsame b hb]
    unfold executeSteps
    cases hout : executeStep outside toLowercase o request fuel position step cypher run with
    | failed next | unfinished next =>
      rw [hout] at hlog
      exact ⟨new, hlog, hhere, hordered⟩
    | done value next =>
      rw [hout] at hlog
      have hlog : next.log = run.log ++ new := hlog
      obtain ⟨later, hlater, hthere, hlaterOrdered⟩ := ih (position + 1) next
      refine ⟨new ++ later, ?_, ?_, ?_⟩
      · dsimp only
        rw [hlater, hlog, append_assoc]
      · intro e he
        rcases mem_append.1 he with he | he
        · exact hhere e he
        · obtain ⟨i, pair, site, hpair, hsite, hof⟩ := hthere e he
          refine ⟨i + 1, pair, site, hpair, ?_, hof⟩
          rwa [show position + (i + 1) = position + 1 + i by omega]
      · refine pairwise_append.2 ⟨hordered, hlaterOrdered, fun a ha b hb => ?_⟩
        obtain ⟨i, pair, site, -, hsite, hof⟩ := hthere b hb
        have hb : b.step = position + 1 + i := hof.step_eq.trans hsite.2.1
        rw [hsame a ha, hb]
        omega

/-- A finished walk has asked for the rows of every step with a table. -/
theorem asked_executeSteps (pairs : List (LoadStep × String)) :
    ∀ {position : Nat} {run next : LoadRun},
      executeSteps outside toLowercase o request fuel position pairs run = .done () next →
      ∀ i pair, pairs[i]? = some pair → resolveSourceTable toLowercase o pair.1.operation ≠ none →
          ∃ e ∈ next.log, e.step = position + i := by
  induction pairs with
  | nil =>
    intro position run next _ i pair hpair
    cases hpair
  | cons head pairs ih =>
    intro position run next h i pair hpair htable
    obtain ⟨step, cypher⟩ := head
    unfold executeSteps at h
    cases hout : executeStep outside toLowercase o request fuel position step cypher run with
    | failed mid | unfinished mid =>
      rw [hout] at h
      cases h
    | done value mid =>
      rw [hout] at h
      dsimp only at h
      cases i with
      | zero =>
        cases hpair
        obtain ⟨e, he, hstep⟩ :=
          asked_executeStep outside toLowercase o request fuel hout htable
        obtain ⟨new, hlog, -, -⟩ :=
          log_executeSteps outside toLowercase o request fuel pairs (position + 1) mid
        rw [h] at hlog
        have hlog : next.log = mid.log ++ new := hlog
        refine ⟨e, ?_, hstep⟩
        rw [hlog]
        exact mem_append_left _ he
      | succ i =>
        obtain ⟨e, he, hstep⟩ := ih h i pair hpair htable
        exact ⟨e, he, by omega⟩

end

/-- Every query answers one row, and nothing fails. -/
def answering : Outside where
  countRows _ _ := some 1
  fetchBatch _ _ _ _ _ := some [[]]
  fetchIncremental _ _ _ _ _ _ := some [[]]
  executeLoad _ _ _ := some {}
  readsCheckpoint _ := true
  writesCheckpoint _ := true

section

variable (toLowercase : String → String) (o : OntologyIR) (plan : LoadPlan)

/-- One batch comes for a site, and is run. -/
theorem loadSite_answering (site : StepSite) (mode : LoadMode) (graphLabel : String)
    (run : LoadRun) : ∃ next, loadSite answering site 2 mode graphLabel 2 run = .done () next ∧
      .fetched site.step site.table site.columns [[]] site.cypher (some {}) ∈ next.log := by
  cases mode with
  | full => exact ⟨_, rfl, mem_append_right _ (mem_singleton.2 rfl)⟩
  | incremental watermarkColumn =>
    unfold loadSite incrementalStep
    dsimp only
    rw [if_pos (show answering.readsCheckpoint run.log = true from rfl)]
    generalize ((getCheckpoint site.table graphLabel run.checkpoints).map
      (·.watermarkValue)).getD "" = start
    have hloop : incrementalLoop answering site 2 watermarkColumn 2 start 0 run =
        .done (start, 1) { run with
          log := run.log ++
            [.fetched site.step site.table site.columns [[]] site.cypher (some {})]
          rowsFetched := run.rowsFetched + 1
          combined := run.combined.add {} } := rfl
    rw [hloop]
    dsimp only
    rw [if_pos (Or.inr Nat.one_pos)]
    exact ⟨_, rfl, mem_append_right _ (mem_singleton.2 rfl)⟩

theorem executeSteps_answering (pairs : List (LoadStep × String)) :
    ∀ (position : Nat) (run : LoadRun), ∃ next,
      executeSteps answering toLowercase o ⟨plan, 2⟩ 2 position pairs run = .done () next ∧
        ∀ i pair table, pairs[i]? = some pair →
          resolveSourceTable toLowercase o pair.1.operation = some table →
            .fetched (position + i) table (fetchedColumns plan.mode pair.1.operation) [[]] pair.2
              (some {}) ∈ next.log := by
  induction pairs with
  | nil =>
    intro position run
    refine ⟨run, rfl, fun i pair table hpair => ?_⟩
    cases hpair
  | cons head pairs ih =>
    intro position run
    obtain ⟨step, cypher⟩ := head
    have hturn : ∃ mid, executeStep answering toLowercase o ⟨plan, 2⟩ 2 position step cypher run =
        .done () mid ∧ ∀ table, resolveSourceTable toLowercase o step.operation = some table →
          .fetched position table (fetchedColumns plan.mode step.operation) [[]] cypher
            (some {}) ∈ mid.log := by
      unfold executeStep
      cases resolveSourceTable toLowercase o step.operation with
      | none => exact ⟨run, rfl, fun table h => by cases h⟩
      | some table =>
        obtain ⟨mid, hmid, hmem⟩ := loadSite_answering
          ⟨position, table, fetchedColumns plan.mode step.operation, cypher⟩ plan.mode
          (graphLabelForOp step.operation) run
        refine ⟨mid, hmid, fun table' h => ?_⟩
        cases h
        exact hmem
    obtain ⟨mid, hmid, hmem⟩ := hturn
    obtain ⟨next, hnext, hall⟩ := ih (position + 1) mid
    refine ⟨next, ?_, fun i pair table hpair htable => ?_⟩
    · unfold executeSteps
      rw [hmid]
      exact hnext
    · cases i with
      | zero =>
        cases hpair
        obtain ⟨new, hlog, -, -⟩ :=
          log_executeSteps answering toLowercase o ⟨plan, 2⟩ 2 pairs (position + 1) mid
        rw [hnext] at hlog
        have hlog : next.log = mid.log ++ new := hlog
        rw [hlog]
        exact mem_append_left _ (hmem table htable)
      | succ i =>
        have hlater := hall i pair table hpair htable
        rwa [show position + 1 + i = position + (i + 1) by omega] at hlater

end

/-! ## Which plans are executed as written -/

/-- In a log that goes through the steps in the order of their positions, the
events of a later step come after those of an earlier one. -/
theorem of_pairwise_steps {r : LoadEvent → LoadEvent → Prop} {log : List LoadEvent}
    (h : log.Pairwise fun a b => r a b ∧ a.step ≤ b.step) {x y : LoadEvent} (hx : x ∈ log)
    (hy : y ∈ log) (hxy : x.step < y.step) : r x y := by
  induction h with
  | nil => cases hx
  | @cons z zs hz _ ih =>
    rcases mem_cons.1 hx with rfl | hx
    · rcases mem_cons.1 hy with rfl | hy
      · omega
      · exact (hz y hy).1
    · rcases mem_cons.1 hy with hy | hy
      · have hle := (hz x hx).2
        rw [hy] at hxy
        omega
      · exact ih hx hy

section

variable (toLowercase : String → String) (o : OntologyIR) (plan : LoadPlan)

/-- The statement beside the step at a position. -/
theorem getElem?_zip_compileLoad {i : Nat} {pair : LoadStep × String}
    (h : (plan.steps.zip (compileLoad plan))[i]? = some pair) : plan.steps[i]? = some pair.1 ∧
      ∃ sorted, (sortedSteps plan)[i]? = some sorted ∧ compileLoadOp sorted.operation = pair.2 := by
  rw [getElem?_zip_eq_some] at h
  refine ⟨h.1, ?_⟩
  have hstatement := h.2
  unfold compileLoad at hstatement
  rw [getElem?_map, Option.map_eq_some_iff] at hstatement
  exact hstatement

/-- Every step stands beside a statement. -/
theorem exists_pair {i : Nat} {step : LoadStep} (h : plan.steps[i]? = some step) :
    ∃ cypher, (plan.steps.zip (compileLoad plan))[i]? = some (step, cypher) := by
  have hlength : (compileLoad plan).length = plan.steps.length := by
    unfold compileLoad sortedSteps
    rw [List.length_map, List.length_insertionSort]
  have hi : i < (compileLoad plan).length := by
    rw [hlength]
    exact (List.getElem?_eq_some_iff.1 h).1
  refine ⟨(compileLoad plan)[i], ?_⟩
  rw [List.getElem?_zip_eq_some]
  exact ⟨h, List.getElem?_eq_getElem hi⟩

theorem asWritten_of_inOrder (h : InOrder toLowercase o plan) (outside : Outside)
    (batchSize fuel : Nat) (checkpoints : List LoadCheckpoint) : AsWritten toLowercase o plan
      (executeLoadFromSource outside toLowercase o ⟨plan, batchSize⟩ fuel checkpoints) := by
  obtain ⟨new, hlog, hnew, hordered⟩ := log_executeSteps outside toLowercase o ⟨plan, batchSize⟩
    fuel (plan.steps.zip (compileLoad plan)) 0 { checkpoints := checkpoints }
  have hlog : (executeLoadFromSource outside toLowercase o ⟨plan, batchSize⟩ fuel
      checkpoints).run.log = new := hlog
  have hown : ∀ e ∈ new, ∃ site, OwnSite toLowercase o plan e.step site ∧ e.Of site := by
    intro e he
    obtain ⟨i, pair, site, hpair, ⟨htable, hstep, hcolumns, hcypher⟩, hof⟩ := hnew e he
    obtain ⟨hi, sorted, hsorted, hstatement⟩ := getElem?_zip_compileLoad plan hpair
    obtain ⟨own, hownAt, hownStatement⟩ := h.paired i pair.1 hi (by simp [htable])
    have hsame : own = sorted := Option.some.inj (hownAt.symm.trans hsorted)
    have hei : e.step = i := by
      rw [hof.step_eq, hstep, Nat.zero_add]
    refine ⟨site, ⟨pair.1, by rw [hei]; exact hi, htable, ?_, hcolumns, ?_⟩, hof⟩
    · rw [← hof.step_eq]
    · rw [hcypher, ← hstatement, ← hsame, hownStatement]
  refine ⟨?_, ?_, ?_⟩
  · rw [hlog]
    exact hown
  · rw [hlog]
    refine hordered.imp_of_mem fun {a b} ha hb hab _ _ hdep => ?_
    obtain ⟨sa, ⟨a', ha', hta, -⟩, -⟩ := hown a ha
    obtain ⟨sb, ⟨b', hb', htb, -⟩, -⟩ := hown b hb
    have hlater := h.dependencies _ _ a' b' ha' hb' (by simp [hta]) (by simp [htb]) hdep
    omega
  · intro run hdone i step hi htable
    obtain ⟨cypher, hpair⟩ := exists_pair plan hi
    obtain ⟨e, he, hstep⟩ := asked_executeSteps outside toLowercase o ⟨plan, batchSize⟩ fuel _
      hdone i _ hpair htable
    exact ⟨e, he, by omega⟩

theorem inOrder_of_executedAsWritten (h : ExecutedAsWritten toLowercase o plan) :
    InOrder toLowercase o plan := by
  obtain ⟨next, hnext, hall⟩ := executeSteps_answering toLowercase o plan
    (plan.steps.zip (compileLoad plan)) 0 { checkpoints := [] }
  have hwritten := h answering 2 2 []
  have hrun : (executeLoadFromSource answering toLowercase o ⟨plan, 2⟩ 2 []).run.log =
      next.log := by
    unfold executeLoadFromSource
    rw [hnext]
    rfl
  have hbatch (i : Nat) (step : LoadStep) (hi : plan.steps[i]? = some step)
      (htable : resolveSourceTable toLowercase o step.operation ≠ none) :
      ∃ cypher table columns, (plan.steps.zip (compileLoad plan))[i]? = some (step, cypher) ∧
        .fetched i table columns [[]] cypher (some {}) ∈ next.log := by
    obtain ⟨cypher, hpair⟩ := exists_pair plan hi
    obtain ⟨table, hsome⟩ := Option.ne_none_iff_exists'.1 htable
    have hmem := hall i _ table hpair hsome
    rw [Nat.zero_add] at hmem
    exact ⟨cypher, table, _, hpair, hmem⟩
  constructor
  · intro i step hi htable
    obtain ⟨cypher, table, columns, hpair, hmem⟩ := hbatch i step hi htable
    obtain ⟨-, sorted, hsorted, hstatement⟩ := getElem?_zip_compileLoad plan hpair
    obtain ⟨site, ⟨own, hown, -, -, -, hcypher⟩, hof⟩ := hwritten.own _ (hrun ▸ hmem)
    have hsame : own = step := Option.some.inj (hown.symm.trans hi)
    refine ⟨sorted, hsorted, ?_⟩
    have hran : cypher = site.cypher := hof.2.2.2 (cons_ne_nil _ _)
    rw [hstatement, hran, hcypher, hsame]
  · intro i j a b hi hj hta htb hdep
    obtain ⟨ca, ta, colsa, -, ha⟩ := hbatch i a hi hta
    obtain ⟨cb, tb, colsb, -, hb⟩ := hbatch j b hj htb
    by_contra hnot
    have hlt : i < j := by
      have hne := hdep.1
      omega
    have hlog := (log_executeSteps answering toLowercase o ⟨plan, 2⟩ 2
      (plan.steps.zip (compileLoad plan)) 0 { checkpoints := [] })
    obtain ⟨new, hnew, -, hordered⟩ := hlog
    rw [hnext] at hnew
    have hnew : next.log = new := hnew
    rw [hnew] at ha hb hrun
    have hboth := hwritten.ordered
    rw [hrun] at hboth
    have hpair := hboth.and hordered
    exact of_pairwise_steps hpair ha hb hlt (cons_ne_nil _ _) (cons_ne_nil _ _) hdep

/-- A plan is executed as written exactly when its steps are in order. -/
theorem executedAsWritten_iff : ExecutedAsWritten toLowercase o plan ↔ InOrder toLowercase o plan :=
  ⟨inOrder_of_executedAsWritten toLowercase o plan, asWritten_of_inOrder toLowercase o plan⟩

end

/-- Two node types, each with a table of its own. -/
def companiesAndPeople : OntologyIR where
  id := "o"
  name := "Staff"
  nodeTypes :=
    [{ id := ⟨"c"⟩, label := ⟨"Company", .refl true⟩ },
     { id := ⟨"p"⟩, label := ⟨"Person", .refl true⟩ }]
  objectMappings :=
    [{ id := ⟨"mc"⟩, nodeTypeId := ⟨"c"⟩, sourceId := ⟨"crm"⟩, relation := "companies" },
     { id := ⟨"mp"⟩, nodeTypeId := ⟨"p"⟩, sourceId := ⟨"crm"⟩, relation := "people" }]

/-- A step that writes nodes with a label by their keys. -/
def upsertByKey (order : Nat) (label : String) : LoadStep where
  order := order
  dependsOn := []
  operation := .upsertNode label [⟨"id", "id", none⟩] [⟨"name", "name", none⟩] .update

/-- People come first by number, and second in the list. -/
def companiesListedFirst : LoadPlan where
  steps := [upsertByKey 1 "Company", upsertByKey 0 "Person"]

/-- The companies are written with the statement for people. -/
theorem companiesListedFirst_mispaired :
    ¬ExecutedAsWritten (fun s => String.ofList (s.toList.map Char.toLower)) companiesAndPeople
      companiesListedFirst := by
  intro h
  obtain ⟨sorted, hsorted, hstatement⟩ :=
    (inOrder_of_executedAsWritten _ _ _ h).paired 0 (upsertByKey 1 "Company") rfl (by decide)
  have hperson : sorted = upsertByKey 0 "Person" := by
    have hfirst : (sortedSteps companiesListedFirst)[0]? = some (upsertByKey 0 "Person") := by
      decide
    exact Option.some.inj (hsorted.symm.trans hfirst)
  rw [hperson] at hstatement
  exact absurd hstatement (by decide)

end Ontosyx.Load
