import Ontosyx.Load.Plan

/-!
# Executing a load plan

`execute_load_from_source`: the steps are walked in the order of the plan, each
beside the compiled statement at its position, and a step fetches from its
source table batch by batch and runs its statement on each batch.

The source database, the graph runtime and the checkpoint store are outside the
program; what they answer may depend on everything that happened before.  The
loops have no bound in the source, so a run is followed for a number of fetches
for each step.
-/

namespace Ontosyx.Load

open Ontology

/-! ## What is exchanged with the outside -/

/-- A value of a fetched row; numbers, arrays and objects by their text. -/
inductive Json where
  | null
  | bool (b : Bool)
  | string (s : String)
  | other (text : String)
deriving DecidableEq

/-- The text of a value: a string as it is, anything else rendered. -/
def Json.text : Json → String
  | .null => "null"
  | .bool b => if b then "true" else "false"
  | .string s => s
  | .other text => text

abbrev SourceRow : Type := List (String × Json)

structure LoadError where
  batchIndex : Nat
  message : String
deriving DecidableEq

/-- What the graph runtime reports of a batch, and the sum of these. -/
structure LoadResult where
  nodesCreated : Nat := 0
  nodesUpdated : Nat := 0
  edgesCreated : Nat := 0
  edgesUpdated : Nat := 0
  batchesProcessed : Nat := 0
  batchesFailed : Nat := 0
  errors : List LoadError := []
deriving DecidableEq

/-- The `+=` lines after each batch. -/
def LoadResult.add (a b : LoadResult) : LoadResult where
  nodesCreated := a.nodesCreated + b.nodesCreated
  nodesUpdated := a.nodesUpdated + b.nodesUpdated
  edgesCreated := a.edgesCreated + b.edgesCreated
  edgesUpdated := a.edgesUpdated + b.edgesUpdated
  batchesProcessed := a.batchesProcessed + b.batchesProcessed
  batchesFailed := a.batchesFailed + b.batchesFailed
  errors := a.errors ++ b.errors

structure LoadCheckpoint where
  sourceTable : String
  graphLabel : String
  watermarkColumn : String
  watermarkValue : String
  recordCount : Nat
deriving DecidableEq

/-- One exchange with the source on behalf of a step.  The rows of a fetch, when
there are any, are run under `statement`; `result` is what the runtime
reported, `none` when it failed. -/
inductive LoadEvent where
  | counted (step : Nat) (table : String) (rows : Option Nat)
  | missed (step : Nat) (table : String) (columns : List String)
  | fetched (step : Nat) (table : String) (columns : List String) (rows : List SourceRow)
      (statement : String) (result : Option LoadResult)
deriving DecidableEq

def LoadEvent.step : LoadEvent → Nat
  | .counted step _ _ | .missed step _ _ | .fetched step _ _ _ _ _ => step

/-- What lies outside: the queries of the fetcher, the runtime and the
checkpoint store.  `none` and `false` are failures. -/
structure Outside where
  countRows : List LoadEvent → String → Option Nat
  fetchBatch : List LoadEvent → String → List String → Nat → Nat → Option (List SourceRow)
  fetchIncremental : List LoadEvent → String → List String → String → String → Nat →
    Option (List SourceRow)
  executeLoad : List LoadEvent → String → List SourceRow → Option LoadResult
  readsCheckpoint : List LoadEvent → Bool
  writesCheckpoint : List LoadEvent → Bool

/-! ## The state of a run -/

structure LoadRun where
  log : List LoadEvent := []
  combined : LoadResult := {}
  rowsFetched : Nat := 0
  checkpoints : List LoadCheckpoint := []

/-- How a part of a run ends.  `unfinished` is a loop that is still going after
the fetches that are followed. -/
inductive Outcome (α : Type) where
  | done (value : α) (run : LoadRun)
  | failed (run : LoadRun)
  | unfinished (run : LoadRun)

def Outcome.run {α : Type} : Outcome α → LoadRun
  | .done _ run | .failed run | .unfinished run => run

/-- The part of a request the loops read. -/
structure LoadRequest where
  plan : LoadPlan
  batchSize : Nat

/-- A step as the loop body sees it: its position, its table, the columns it
fetches and the statement it runs. -/
structure StepSite where
  step : Nat
  table : String
  columns : List String
  cypher : String

section

variable (outside : Outside) (site : StepSite) (batchSize : Nat)

/-- A batch that has come is handed to the runtime. -/
def submit (rows : List SourceRow) (run : LoadRun) : Outcome Unit :=
  let result := outside.executeLoad run.log site.cypher rows
  let log := run.log ++
    [.fetched site.step site.table site.columns rows site.cypher result]
  let run := { run with log := log, rowsFetched := run.rowsFetched + rows.length }
  match result with
  | none => .failed run
  | some result => .done () { run with combined := run.combined.add result }

/-- The watermark after a row: the larger text. -/
def advance (watermarkColumn maxWatermark : String) (row : SourceRow) : String :=
  match row.lookup watermarkColumn with
  | some value => if maxWatermark < value.text then value.text else maxWatermark
  | none => maxWatermark

/-- The incremental loop, with the watermark and the number of rows so far. -/
def incrementalLoop (watermarkColumn : String) :
    Nat → String → Nat → LoadRun → Outcome (String × Nat)
  | 0, _, _, run => .unfinished run
  | fuel + 1, maxWatermark, stepRows, run =>
    match outside.fetchIncremental run.log site.table site.columns watermarkColumn maxWatermark
        batchSize with
    | none =>
      .failed { run with log := run.log ++ [.missed site.step site.table site.columns] }
    | some [] =>
      .done (maxWatermark, stepRows)
        { run with log := run.log ++
            [.fetched site.step site.table site.columns [] site.cypher none] }
    | some (row :: rows) =>
      let batch := row :: rows
      let next := batch.foldl (advance watermarkColumn) maxWatermark
      match submit outside site batch run with
      | .done () run =>
        if batch.length < batchSize then .done (next, stepRows + batch.length) run
        else
          incrementalLoop watermarkColumn fuel next (stepRows + batch.length) run
      | .failed run | .unfinished run => .failed run

/-- The loop of a full load, with the offset so far. -/
def fullLoop (rowCount : Nat) : Nat → Nat → LoadRun → Outcome Unit
  | 0, _, run => .unfinished run
  | fuel + 1, offset, run =>
    if offset < rowCount then
      match outside.fetchBatch run.log site.table site.columns offset batchSize with
      | none =>
        .failed { run with log := run.log ++ [.missed site.step site.table site.columns] }
      | some [] =>
        .done () { run with log := run.log ++
          [.fetched site.step site.table site.columns [] site.cypher none] }
      | some (row :: rows) =>
        match submit outside site (row :: rows) run with
        | .done () run => fullLoop rowCount fuel (offset + (row :: rows).length) run
        | .failed run | .unfinished run => .failed run
    else .done () run

def fullStep (fuel : Nat) (run : LoadRun) : Outcome Unit :=
  let rowCount := outside.countRows run.log site.table
  let run := { run with log := run.log ++ [.counted site.step site.table rowCount] }
  match rowCount with
  | none => .failed run
  | some rowCount => fullLoop outside site batchSize rowCount fuel 0 run

/-- `upsert_load_checkpoint`, keyed by table and label. -/
def upsertCheckpoint (c : LoadCheckpoint) (cs : List LoadCheckpoint) : List LoadCheckpoint :=
  let same (d : LoadCheckpoint) : Bool :=
    d.sourceTable = c.sourceTable && d.graphLabel = c.graphLabel
  match cs.find? same with
  | some d => { c with recordCount := d.recordCount + c.recordCount } :: cs.filter (!same ·)
  | none => c :: cs

/-- `get_load_checkpoint`. -/
def getCheckpoint (table graphLabel : String) (cs : List LoadCheckpoint) : Option LoadCheckpoint :=
  cs.find? fun d => d.sourceTable = table && d.graphLabel = graphLabel

/-- A step of an incremental load.  `site` already fetches the watermark column.
A checkpoint that cannot be written is only logged. -/
def incrementalStep (watermarkColumn graphLabel : String) (fuel : Nat) (run : LoadRun) :
    Outcome Unit :=
  if outside.readsCheckpoint run.log then
    let start := ((getCheckpoint site.table graphLabel run.checkpoints).map
      (·.watermarkValue)).getD ""
    match incrementalLoop outside site batchSize watermarkColumn fuel start 0 run with
    | .done (maxWatermark, stepRows) run =>
      if maxWatermark ≠ start ∨ 0 < stepRows then
        if outside.writesCheckpoint run.log then
          .done () { run with
            checkpoints := upsertCheckpoint
              ⟨site.table, graphLabel, watermarkColumn, maxWatermark, stepRows⟩
              run.checkpoints }
        else .done () run
      else .done () run
    | .failed run => .failed run
    | .unfinished run => .unfinished run
  else .failed run

def loadSite (mode : LoadMode) (graphLabel : String) (fuel : Nat) (run : LoadRun) : Outcome Unit :=
  match mode with
  | .full => fullStep outside site batchSize fuel run
  | .incremental watermarkColumn =>
    incrementalStep outside site batchSize watermarkColumn graphLabel fuel run

end

section

variable (outside : Outside) (toLowercase : String → String) (o : OntologyIR)
  (request : LoadRequest)

/-- The columns a step fetches: those of its operation, and the watermark column
of an incremental load. -/
def fetchedColumns (mode : LoadMode) (op : LoadOp) : List String :=
  match mode with
  | .full => extractSourceColumns op
  | .incremental watermarkColumn =>
    if watermarkColumn ∈ extractSourceColumns op then extractSourceColumns op
    else extractSourceColumns op ++ [watermarkColumn]

/-- One turn of the step loop: the step at a position, beside a statement. -/
def executeStep (fuel : Nat) (position : Nat) (step : LoadStep) (cypher : String)
    (run : LoadRun) : Outcome Unit :=
  match resolveSourceTable toLowercase o step.operation with
  | none => .done () run
  | some table =>
    loadSite outside
      ⟨position, table, fetchedColumns request.plan.mode step.operation, cypher⟩
      request.batchSize request.plan.mode (graphLabelForOp step.operation) fuel run

def executeSteps (fuel : Nat) : Nat → List (LoadStep × String) → LoadRun → Outcome Unit
  | _, [], run => .done () run
  | position, (step, cypher) :: rest, run =>
    match executeStep outside toLowercase o request fuel position step cypher run with
    | .done () run => executeSteps fuel (position + 1) rest run
    | .failed run => .failed run
    | .unfinished run => .unfinished run

/-- `execute_load_from_source`, from the checkpoints there are. -/
def executeLoadFromSource (fuel : Nat) (checkpoints : List LoadCheckpoint) : Outcome Unit :=
  executeSteps outside toLowercase o request fuel 0
    (request.plan.steps.zip (compileLoad request.plan)) { checkpoints := checkpoints }

end

end Ontosyx.Load
