import Mathlib.Algebra.Group.Nat.Defs
import Mathlib.Data.List.Basic

/-!
# Versions, drafts and the requests that change them

The version lifecycle of a workspace: drafts branch off the committed ontology,
are edited and rebased, and become its next version when they are completed;
administrators commit batches of edits.  Each handler makes its store calls one
after the other and keeps what it has read in between, so a handler is a machine
that advances by one call.

The ontology itself is a parameter: the lifecycle reads of it only whether a
rebase has conflicts.
-/

namespace Ontosyx.Api

/-! ## The store -/

/-- A version tag, by how it reads: a counter, or any other text. -/
inductive VersionTag where
  | number (n : Nat)
  | other (text : String)
deriving DecidableEq

def nextOntologyVersionTag (epoch : Nat) : VersionTag → VersionTag
  | .number n => .number (n + 1)
  | .other text => .other (text ++ "+" ++ toString epoch)

/-- `version.parse::<u32>().unwrap_or(0)`. -/
def VersionTag.parseU32 : VersionTag → Nat
  | .number n => if n < 2 ^ 32 then n else 0
  | .other _ => 0

structure Version (C : Type) where
  id : Nat
  tag : VersionTag
  parentVersionId : Option Nat
  content : C
deriving DecidableEq

inductive OntologyDraftStatus where
  | analyzed
  | designed
  | completed
deriving DecidableEq

inductive QualityConfidence where
  | low
  | medium
  | high
deriving DecidableEq

/-- A draft.  `confidence` is that of its quality report, when there is one that
reads. -/
structure OntologyDraft (C : Type) where
  status : OntologyDraftStatus
  revision : Nat
  ontology : Option C
  confidence : Option QualityConfidence
  parentVersionId : Option Nat
  committedVersionId : Option Nat
deriving DecidableEq

/-- The workspace: whether its ontology has an identity, its versions from the
oldest on, and its drafts. -/
structure VersionStore (C : Type) where
  identity : Bool := false
  versions : List (Version C) := []
  drafts : Nat → Option (OntologyDraft C) := fun _ => none

namespace VersionStore

variable {C : Type} (s : VersionStore C)

/-- `find_current_version`. -/
def currentVersion : Option (Version C) := s.versions.getLast?

/-- `get_ontology_ir`. -/
def contentOf (id : Nat) : Option C := (s.versions.find? fun v => v.id = id).map (·.content)

/-- `commit_version`; the tag is unique. -/
def commitVersion (content : C) (tag : VersionTag) (parent : Option Nat) :
    Option (VersionStore C × Version C) :=
  if s.versions.any (·.tag = tag) then none
  else
    let v := ⟨s.versions.length, tag, parent, content⟩
    some ({ s with versions := s.versions ++ [v] }, v)

def putDraft (id : Nat) (d : OntologyDraft C) : VersionStore C :=
  { s with drafts := Function.update s.drafts id (some d) }

/-- A compare-and-swap on a draft: an update of the row with the expected
revision, which counts the revision up. -/
def updateDraft (id revision : Nat) (f : OntologyDraft C → OntologyDraft C) :
    Option (VersionStore C) :=
  match s.drafts id with
  | some d =>
    if d.revision = revision then some (s.putDraft id { f d with revision := d.revision + 1 })
  else none
  | none => none

/-- `complete_ontology_draft`, the store call. -/
def completeDraft (id versionId revision : Nat) : Option (VersionStore C) :=
  match s.drafts id with
  | some d =>
    if d.status = .designed then
      s.updateDraft id revision fun d =>
        { d with status := .completed, committedVersionId := some versionId }
    else none
  | none => none

end VersionStore

/-! ## The handlers -/

section

variable {C : Type}

structure CompleteRequest where
  draft : Nat
  revision : Nat
  acknowledgeQualityRisks : Bool := false

/-- How far the completion of a draft has come: what it has read, and which call
is next. -/
inductive CompletePhase (C : Type) where
  | start
  | loaded (project : OntologyDraft C) (ontology : C)
  | gated (project : OntologyDraft C) (ontology : C)
  | identified (project : OntologyDraft C) (ontology : C)
  | unclaimed (ontology : C)
  | stale
  | placed (ontology : C) (head : Version C)
  | ready (ontology : C) (parent : Option Nat) (tag : VersionTag)
  | committed (version : Version C)
  | marked (version : Version C)
  | published (version : Version C)
  | done (ok : Bool)

/-- `complete_ontology_draft`, the handler, by one store call.  A call may fail,
and the gate on source contracts counts as one. -/
def CompleteRequest.advance (q : CompleteRequest) (epoch : Nat) (ok : Bool)
    (s : VersionStore C) : CompletePhase C → VersionStore C × CompletePhase C
  | .start =>
    match if ok then s.drafts q.draft else none with
    | some project =>
      if project.status ≠ .designed then (s, .done false)
      else if !q.acknowledgeQualityRisks && project.confidence.any (· ≠ .high) then
        (s, .done false)
      else
        match project.ontology with
        | some ontology => (s, .loaded project ontology)
        | none => (s, .done false)
    | none => (s, .done false)
  | .loaded project ontology => (s, if ok then .gated project ontology else .done false)
  | .gated project ontology =>
    if ok then (s, if s.identity then .identified project ontology else .unclaimed ontology)
    else (s, .done false)
  | .unclaimed ontology =>
    if ok && !s.identity then ({ s with identity := true }, .ready ontology none (.number 1))
    else (s, .done false)
  | .identified project ontology =>
    if ok then
      match project.parentVersionId, s.currentVersion with
      | some parent, some head =>
        (s, if parent ≠ head.id then .stale else .placed ontology head)
      | some _, none => (s, .done false)
      | none, some head => (s, .placed ontology head)
      | none, none => (s, .ready ontology none (.number 1))
    else (s, .done false)
  | .stale => (s, .done false)
  | .placed ontology head =>
    (s, if ok then .ready ontology (some head.id) (nextOntologyVersionTag epoch head.tag)
      else .done false)
  | .ready ontology parent tag =>
    match if ok then s.commitVersion ontology tag parent else none with
    | some (s, version) => (s, .committed version)
    | none => (s, .done false)
  | .committed version =>
    match if ok then s.completeDraft q.draft version.id q.revision else none with
    | some s => (s, .marked version)
    | none => (s, .done false)
  | .marked version =>
    -- the first version has no predecessor to look up
    (s, if ok || version.parentVersionId.isNone then .published version else .done false)
  | .published _ => (s, .done (ok && (s.drafts q.draft).isSome))
  | .done result => (s, .done result)

structure RebaseRequest where
  draft : Nat
  acknowledgeConflicts : Bool := false

/-- How far a rebase has come. -/
inductive RebasePhase (C : Type) where
  | start
  | loaded (project : OntologyDraft C)
  | identified (project : OntologyDraft C)
  | headed (project : OntologyDraft C) (head : Version C)
  | compared (project : OntologyDraft C) (head : Version C) (headContent : C)
  | cleared (project : OntologyDraft C) (head : Version C)
  | pinned
  | done (ok : Bool)

/-- `rebase_draft`, by one store call.  `isClean` is the analysis of the base,
the head and the draft, and `empty` stands for a missing version. -/
def RebaseRequest.advance (q : RebaseRequest) (isClean : C → C → C → Bool) (empty : C) (ok : Bool)
    (s : VersionStore C) : RebasePhase C → VersionStore C × RebasePhase C
  | .start =>
    match if ok then s.drafts q.draft else none with
    | some project => (s, .loaded project)
    | none => (s, .done false)
  | .loaded project => (s, if ok && s.identity then .identified project else .done false)
  | .identified project =>
    match if ok then s.currentVersion else none with
    | some head =>
      (s, if !q.acknowledgeConflicts && project.ontology.isSome then .headed project head
        else .cleared project head)
    | none => (s, .done false)
  | .headed project head =>
    (s, if ok then .compared project head ((s.contentOf head.id).getD empty) else .done false)
  | .compared project head headContent =>
    if ok then
      let parent := (project.parentVersionId.bind s.contentOf).getD empty
      if isClean parent headContent (project.ontology.getD empty) then
        (s, .cleared project head)
      else (s, .done false)
    else (s, .done false)
  | .cleared project head =>
    match if ok then
        s.updateDraft q.draft project.revision fun d => { d with parentVersionId := some head.id }
      else none with
    | some s => (s, .pinned)
    | none => (s, .done false)
  | .pinned => (s, .done (ok && (s.drafts q.draft).isSome))
  | .done result => (s, .done result)

/-- A batch of edits by an administrator.  `apply` is what the operations make of
an ontology; `none` when one is rejected or the result is invalid. -/
structure EditRequest (C : Type) where
  expectedVersion : Nat
  dryRun : Bool := false
  apply : C → Option C

/-- How far a batch of edits has come. -/
inductive EditPhase (C : Type) where
  | start
  | identified
  | current (head : Version C)
  | routed (head : Version C)
  | edited (head : Version C) (content : C)
  | sourced (head : Version C) (content : C)
  | gated (head : Version C) (content : C)
  | committed (version : Version C)
  | done (ok : Bool)

/-- `apply_ontology_edits`, by one store call.  Routing, the registered sources
and the source contracts are calls that may turn the batch away. -/
def EditRequest.advance (q : EditRequest C) (ok : Bool) (s : VersionStore C) :
    EditPhase C → VersionStore C × EditPhase C
  | .start => (s, if ok && s.identity then .identified else .done false)
  | .identified =>
    match if ok then s.currentVersion else none with
    | some head =>
      if head.tag.parseU32 ≠ q.expectedVersion then (s, .done false)
      else (s, if q.dryRun then .done ok else .current head)
    | none => (s, .done false)
  | .current head => (s, if ok then .routed head else .done false)
  | .routed head =>
    match if ok then (s.contentOf head.id).bind q.apply else none with
    | some content => (s, .edited head content)
    | none => (s, .done false)
  | .edited head content => (s, if ok then .sourced head content else .done false)
  | .sourced head content => (s, if ok then .gated head content else .done false)
  | .gated head content =>
    match if ok then
        s.commitVersion content (.number (head.tag.parseU32 + 1)) (some head.id)
      else none with
    | some (s, version) => (s, .committed version)
    | none => (s, .done false)
  | .committed _ => (s, .done ok)
  | .done result => (s, .done result)

/-- A request to create a draft: from the committed ontology, or from a source,
whose draft has no ontology yet. -/
inductive CreateRequest where
  | baseOntology (draft : Nat)
  | source (draft : Nat)

/-- How far the creation of a draft has come. -/
inductive CreatePhase (C : Type) where
  | start
  | identified (canonical : Bool)
  | headed (head : Option (Version C))
  | hydrated (head : Version C) (content : C)
  | done (ok : Bool)

def CreateRequest.draft : CreateRequest → Nat
  | .baseOntology draft | .source draft => draft

/-- `create_ontology_draft`, the handler, by one store call.  A draft from a
source takes no parent when the committed version cannot be read. -/
def CreateRequest.advance (q : CreateRequest) (ok : Bool) (s : VersionStore C) :
    CreatePhase C → VersionStore C × CreatePhase C
  | .start =>
    match q with
    | .baseOntology _ => (s, if ok && s.identity then .identified true else .done false)
    | .source _ => (s, .identified (ok && s.identity))
  | .identified canonical =>
    let head := if ok && canonical then s.currentVersion else none
    match q, head with
    | .baseOntology _, none => (s, .done false)
    | _, _ => (s, .headed head)
  | .headed head =>
    match q, head with
    | .baseOntology _, some head =>
      match if ok then s.contentOf head.id else none with
      | some content => (s, .hydrated head content)
      | none => (s, .done false)
    | .baseOntology _, none => (s, .done false)
    | .source draft, head =>
      if ok && (s.drafts draft).isNone then
        (s.putDraft draft ⟨.analyzed, 1, none, none, head.map (·.id), none⟩, .done true)
      else (s, .done false)
  | .hydrated head content =>
    if ok && (s.drafts q.draft).isNone then
      (s.putDraft q.draft ⟨.designed, 1, some content, none, some head.id, none⟩, .done true)
    else (s, .done false)
  | .done result => (s, .done result)

/-- The calls of the requests that edit a draft: `update_design_result` and
`update_extend_result`, `replace_analysis_snapshot`, and the updates of options
and scope. -/
inductive DraftCall (C : Type) where
  | design (ontology : C) (confidence : Option QualityConfidence)
  | reanalyze
  | options

def DraftCall.write (d : OntologyDraft C) : DraftCall C → OntologyDraft C
  | .design ontology confidence =>
    { d with ontology := some ontology, confidence := confidence, status := .designed }
  | .reanalyze => { d with ontology := none, confidence := none, status := .analyzed }
  | .options => d

end

end Ontosyx.Api
