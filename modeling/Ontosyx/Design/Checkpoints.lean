import Ontosyx.Design.Withholding
import Ontosyx.Ontology.Exchange

/-!
# Designing with checkpoints

The level loop of `design_ontology_draft_stream`.  The output of a cluster is
kept under the draft, its source and the signature of the cluster; a later
attempt that finds it there does not call the model.  A cluster may fail at any
place, and a lookup or a write of a checkpoint may fail without failing the
attempt.

The model call is a function of the prompt, given by its hash, and of the four
texts it is called with.
-/

namespace Ontosyx.Design

open Ontosyx.Core Ontology Lib.Keyed

/-- `prompt_template_hash`, 64 hexadecimal digits. -/
structure PromptHash where
  hex : String
  length_hex : hex.length = 64

def canonicaliseFks (fks : List ForeignKeyDef) (tag : String) : List String :=
  (fks.map fun fk => tag ++ "|" ++ fk.fromTable ++ "." ++ fk.fromColumn ++ "->" ++ fk.toTable ++
    "." ++ fk.toColumn ++ "\n").mergeSort fun a b => a ≤ b

/-- What `from_cluster` digests. -/
def signatureText (cluster : TableCluster) (promptRenderHash : PromptHash) : String :=
  String.join ((cluster.tables.mergeSort fun a b => a ≤ b).map fun t => "t|" ++ t ++ "\n") ++
  String.join (canonicaliseFks cluster.internalFks "ifk") ++
  String.join (canonicaliseFks cluster.crossFks "xfk") ++ "prh|" ++ promptRenderHash.hex

/-- `DraftClusterCheckpoint`, without the time after which it may be swept. -/
structure DraftClusterCheckpoint where
  ontologyDraftId : String
  sourceId : String
  signature : String
  clusterId : Nat
  output : InputOntologyDef

def DraftClusterCheckpoint.key (c : DraftClusterCheckpoint) : String × String × String :=
  (c.ontologyDraftId, c.sourceId, c.signature)

/-- `upsert_draft_cluster_checkpoint`. -/
def upsertCheckpoint (c : DraftClusterCheckpoint) :
    List DraftClusterCheckpoint → List DraftClusterCheckpoint
  | [] => [c]
  | d :: ds => if d.key = c.key then c :: ds else d :: upsertCheckpoint c ds

/-- `find_draft_cluster_checkpoint_by_signature`. -/
def findCheckpoint (table : List DraftClusterCheckpoint) (key : String × String × String) :
    Option DraftClusterCheckpoint :=
  table.find? fun c => c.key = key

def formatExistingNodes (previousBatches : List InputOntologyDef) : String :=
  if previousBatches = [] then "(none — this is the first batch)"
  else
    ", ".intercalate (previousBatches.flatMap fun batch => batch.nodeTypes.map fun node =>
      node.label ++ match node.sourceTable with
        | some table => "(" ++ table ++ ")"
        | none => "")

/-- `table_to_label`, the last node of a table. -/
def existingTableToLabel (previousBatches : List InputOntologyDef) (table : String) : String :=
  let nodes := previousBatches.flatMap (·.nodeTypes)
  ((last (·.sourceTable) (some table) nodes).map (·.label)).getD "(unknown)"

/-- One line of `format_cross_fks`. -/
def crossFkLine (cluster : TableCluster) (previousBatches : List InputOntologyDef)
    (fk : ForeignKeyDef) : Option String :=
  if fk.fromTable ∈ cluster.tables ∧ fk.toTable ∉ cluster.tables then
    some ("→ outbound: " ++ fk.fromTable ++ "." ++ fk.fromColumn ++ " → " ++ fk.toTable ++
      " [existing: " ++ existingTableToLabel previousBatches fk.toTable ++ "]")
  else if fk.fromTable ∉ cluster.tables ∧ fk.toTable ∈ cluster.tables then
    some ("← inbound: [existing: " ++ existingTableToLabel previousBatches fk.fromTable ++ "]." ++
      fk.fromColumn ++ " → " ++ fk.toTable ++ "." ++ fk.toColumn)
  else none

def formatCrossFks (crossFks : List ForeignKeyDef) (cluster : TableCluster)
    (previousBatches : List InputOntologyDef) : String :=
  let lines := crossFks.filterMap (crossFkLine cluster previousBatches)
  if lines = [] then "(none)" else "\n".intercalate lines

/-! ## Attempts -/

/-- One request for the streaming design: what it reads, what fails in it, and what becomes of its
batch results (they are merged, resolved, normalised, validated and saved, or not). -/
structure DesignAttempt where
  ontologyDraftId : String
  sourceId : String
  promptHash : PromptHash
  source : SourceSnapshot
  options : DesignOptions
  config : SystemConfig
  context : String
  lookupFails : Nat → Bool := fun _ => false
  callFails : Nat → Bool := fun _ => false
  persistFails : Nat → Bool := fun _ => false
  conclude : List InputOntologyDef → Option OntologyIR := fun _ => none
  dropFails : Bool := false

namespace DesignAttempt

variable (a : DesignAttempt)

def schema : SourceSchema := a.options.retainSchema a.source.schema

/-- The profile after the exclusions, redacted. -/
def profile : SourceProfile :=
  applyPiiAnnotationsToProfile (a.options.retainProfile a.source.profile) a.options.piiAnnotations

def plan : ClusterPlan := clusterTables a.schema a.source.impliedRelationships a.config.batchSize

/-- `plan.clusters[cluster_id]`. -/
def cluster (i : Nat) : TableCluster := a.plan.clusters.getD i ⟨i, [], [], []⟩

def signatureText (i : Nat) : String := Design.signatureText (a.cluster i) a.promptHash

end DesignAttempt

/-- An output that was taken from a checkpoint, and what the model would have been asked. -/
structure Replayed where
  cluster : TableCluster
  existing : String
  cross : String
  output : InputOntologyDef

/-- An attempt in the midst of its levels. -/
structure DesignPass where
  checkpoints : List DraftClusterCheckpoint
  batchResults : List InputOntologyDef := []
  replayed : List Replayed := []
  failed : Bool := false

section

variable (json : JsonWriter) (sha256 : String → String)
  (designOntologyBatch : PromptHash → String → String → String → String → InputOntologyDef)
  (a : DesignAttempt)

/-- `ClusterSignature::from_cluster`, in the key of the attempt. -/
def checkpointKey (i : Nat) : String × String × String :=
  (a.ontologyDraftId, a.sourceId, sha256 (a.signatureText i))

def batchInput (cluster : TableCluster) : String :=
  buildBatchLlmInput json a.schema a.profile cluster a.config

/-- The model call for a cluster, after the given batches. -/
def callModel (results : List InputOntologyDef) (i : Nat) : InputOntologyDef :=
  designOntologyBatch a.promptHash (batchInput json a (a.cluster i)) a.context
    (formatExistingNodes results) (formatCrossFks (a.cluster i).crossFks (a.cluster i) results)

def cached (checkpoints : List DraftClusterCheckpoint) (i : Nat) : Option InputOntologyDef :=
  if a.lookupFails i then none
  else (findCheckpoint checkpoints (checkpointKey sha256 a i)).map (·.output)

/-- `persist_cluster_checkpoint`. -/
def persistCheckpoint (i : Nat) (output : InputOntologyDef)
    (checkpoints : List DraftClusterCheckpoint) : List DraftClusterCheckpoint :=
  if a.persistFails i then checkpoints
  else
    upsertCheckpoint
      { ontologyDraftId := a.ontologyDraftId
        sourceId := a.sourceId
        signature := sha256 (a.signatureText i)
        clusterId := i
        output := output } checkpoints

def replay (results : List InputOntologyDef) (i : Nat) (output : InputOntologyDef) : Replayed where
  cluster := a.cluster i
  existing := formatExistingNodes results
  cross := formatCrossFks (a.cluster i).crossFks (a.cluster i) results
  output := output

def designOne (i : Nat) (p : DesignPass) : DesignPass :=
  match cached sha256 a p.checkpoints i with
  | some ir =>
    { p with
      batchResults := p.batchResults ++ [ir]
      replayed := p.replayed ++ [replay a p.batchResults i ir] }
  | none =>
    if a.callFails i then { p with failed := true }
    else
      let ir := callModel json designOntologyBatch a p.batchResults i
      { p with
        checkpoints := persistCheckpoint sha256 a i ir p.checkpoints
        batchResults := p.batchResults ++ [ir] }

/-- What becomes of the calls of a level: the outputs up to the first failure, the table with
their checkpoints, and whether one failed. -/
def runMisses (results : List InputOntologyDef) : List Nat → List DraftClusterCheckpoint →
    List (Nat × InputOntologyDef) × List DraftClusterCheckpoint × Bool
  | [], checkpoints => ([], checkpoints, false)
  | i :: misses, checkpoints =>
    if a.callFails i then ([], checkpoints, true)
    else
      let ir := callModel json designOntologyBatch a results i
      let rest := runMisses results misses (persistCheckpoint sha256 a i ir checkpoints)
      ((i, ir) :: rest.1, rest.2)

/-- A level of several clusters: all are looked up before the missing ones are run. -/
def designMany (level : List Nat) (p : DesignPass) : DesignPass :=
  let hits := level.filterMap fun i => (cached sha256 a p.checkpoints i).map fun ir => (i, ir)
  let misses := level.filter fun i => (cached sha256 a p.checkpoints i).isNone
  let ran := runMisses json sha256 designOntologyBatch a p.batchResults misses p.checkpoints
  let levelResults := (hits ++ ran.1).mergeSort fun x y => x.1 ≤ y.1
  { checkpoints := ran.2.1
    batchResults :=
      if ran.2.2 then p.batchResults else p.batchResults ++ levelResults.map (·.2)
    replayed := p.replayed ++ hits.map fun hit => replay a p.batchResults hit.1 hit.2
    failed := ran.2.2 }

def designLevel (level : List Nat) (p : DesignPass) : DesignPass :=
  match level with
  | [i] => designOne json sha256 designOntologyBatch a i p
  | level => designMany json sha256 designOntologyBatch a level p

def designLevels : List (List Nat) → DesignPass → DesignPass
  | [], p => p
  | level :: levels, p =>
    let p := designLevel json sha256 designOntologyBatch a level p
    if p.failed then p else designLevels levels p

/-- The whole loop, on a table of checkpoints. -/
def designPass (checkpoints : List DraftClusterCheckpoint) : DesignPass :=
  designLevels json sha256 designOntologyBatch a a.plan.levels { checkpoints := checkpoints }

/-- The ontology that an attempt stores, where it comes so far. -/
def storedOntology (checkpoints : List DraftClusterCheckpoint) : Option OntologyIR :=
  let p := designPass json sha256 designOntologyBatch a checkpoints
  if p.failed then none else a.conclude p.batchResults

/-- Whether an attempt drops the checkpoints of its draft. -/
def drops (checkpoints : List DraftClusterCheckpoint) : Prop :=
  (storedOntology json sha256 designOntologyBatch a checkpoints).isSome ∧ a.dropFails = false

instance (checkpoints : List DraftClusterCheckpoint) :
    Decidable (drops json sha256 designOntologyBatch a checkpoints) :=
  inferInstanceAs (Decidable (_ ∧ _))

/-- The table that an attempt leaves: once the ontology is stored, the checkpoints of the draft
are dropped. -/
def checkpointsAfter (checkpoints : List DraftClusterCheckpoint) : List DraftClusterCheckpoint :=
  let p := designPass json sha256 designOntologyBatch a checkpoints
  if drops json sha256 designOntologyBatch a checkpoints then
    p.checkpoints.filter fun c => c.ontologyDraftId ≠ a.ontologyDraftId
  else p.checkpoints

end

end Ontosyx.Design
