import Ontosyx.Ontology.Mutators

/-!
# Edits and their routing

The admin edit log and the rules that decide whether an edit is applied or
queued for review.  `classify_change_type` and `scopes` read only the shape of an
operation; `apply_to` changes an ontology through the mutators.  The router is a
pure function of a rule, the author's role and the declared scopes.

The instant `apply_to` stamps on a deprecated type is a parameter, and the texts
of its errors are replaced by constructors with the ids the texts name.
-/

namespace Ontosyx.Ontology

open Ontosyx.Core OntologyState

/-! ## Routing rules (`change_routing.rs`) -/

/-- The edit classes of the routing matrix. -/
inductive ChangeType where
  | codedValueCreate
  | codedValueDeprecate
  | terminologyRegistryUpdate
  | semanticBindingUpdate
  | notationPatternCreate
  | customerSegmentCreate
  | columnRename
  | tableMerge
  | dataSourceRegister
  | staleConceptDeprecate
  | ontologyVersionRollback
  | ruleCreate
  | ruleModify
  | ruleDelete
deriving DecidableEq

inductive ScopeKind where
  | codeCount
deriving DecidableEq

structure ScopeValue where
  kind : ScopeKind
  value : Nat
deriving DecidableEq

inductive RoleRef where
  | admin
  | dataSteward
  | analyst
deriving DecidableEq

/-- What lets an edit skip the queue. -/
inductive ApprovalSkipPredicate where
  | authorHasRole (role : RoleRef)
  | changeScopeBelow (scope : ScopeKind) (threshold : Nat)
deriving DecidableEq

/-- Where a classified change goes. -/
inductive ApprovalRouting where
  | autoApprove
  | autoApproveWithNotification (notifyRoles : List RoleRef)
  | approvalRequiredUnless (skipPredicates : List ApprovalSkipPredicate)
  | approvalRequired
deriving DecidableEq

/-- A routing row; `workspaceId` is absent on a global default. -/
structure ChangeRoutingRule where
  workspaceId : Option String := none
  changeType : ChangeType
  routing : ApprovalRouting
  priority : Int := 0

/-- Apply now, or queue for approval. -/
inductive EditRoutingDecision where
  | apply (notifyRoles : List RoleRef)
  | queue
deriving DecidableEq

structure EditContext where
  authorRole : Option RoleRef := none
  scopes : List ScopeValue := []

/-- The rank inside `role_outranks`. -/
def RoleRef.rank : RoleRef → Nat
  | admin => 3
  | dataSteward => 2
  | analyst => 1

def roleOutranks (actor required : RoleRef) : Bool := required.rank ≤ actor.rank

/-- `pred_passes`: a scope nobody declared is not a scope of size zero. -/
def predPasses (ctx : EditContext) : ApprovalSkipPredicate → Bool
  | .authorHasRole role => ctx.authorRole.any fun r => roleOutranks r role
  | .changeScopeBelow scope threshold =>
    (ctx.scopes.find? fun s => s.kind = scope).any fun s => s.value < threshold

def decideEditRouting (routing : ApprovalRouting) (ctx : EditContext) : EditRoutingDecision :=
  match routing with
  | .autoApprove => .apply []
  | .autoApproveWithNotification notifyRoles => .apply notifyRoles
  | .approvalRequiredUnless skipPredicates =>
    match skipPredicates.find? (predPasses ctx) with
    | some _ => .apply []
    | none => .queue
  | .approvalRequired => .queue

/-! ## Edit operations (`edit.rs`) -/

inductive PropertyOwnerPath where
  | node (typeId : NodeTypeId)
  | edge (typeId : EdgeTypeId)
deriving DecidableEq

/-- The target of a binding, without its other fields. -/
inductive PropertyBindingHandle where
  | valueSet (id : ValueSetId)
  | codeSystem (id : CodeSystemId)
  | notationPattern (id : NotationPatternId)
  | valueRange (id : ValueRangeSetId)
  | concept (id : ConceptId)
deriving DecidableEq

def PropertyBinding.handle : PropertyBinding → PropertyBindingHandle
  | valueSet id .. => .valueSet id
  | codeSystem id .. => .codeSystem id
  | notationPattern id .. => .notationPattern id
  | valueRange id .. => .valueRange id
  | concept id .. => .concept id

inductive OntologyEditOp where
  | createCodeSystem (d : CodeSystemDef)
  | updateCodeSystem (id : CodeSystemId) (d : CodeSystemDef)
  | deleteCodeSystem (id : CodeSystemId)
  | createCodedValue (codeSystemId : CodeSystemId) (value : CodedValue)
  | updateCodedValue (codeSystemId : CodeSystemId) (id : CodedValueId) (value : CodedValue)
  | deleteCodedValue (codeSystemId : CodeSystemId) (id : CodedValueId)
  | createConcept (d : ConceptDef)
  | updateConcept (id : ConceptId) (d : ConceptDef)
  | deleteConcept (id : ConceptId)
  | createGlossaryTerm (d : GlossaryTermDef)
  | updateGlossaryTerm (id : GlossaryTermId) (d : GlossaryTermDef)
  | deleteGlossaryTerm (id : GlossaryTermId)
  | createObjectMapping (mapping : ObjectMappingDef)
  | updateObjectMapping (id : ObjectMappingId) (mapping : ObjectMappingDef)
  | deleteObjectMapping (id : ObjectMappingId)
  | createLinkMapping (mapping : LinkMappingDef)
  | updateLinkMapping (id : LinkMappingId) (mapping : LinkMappingDef)
  | deleteLinkMapping (id : LinkMappingId)
  | createNotationPattern (d : NotationPatternDef)
  | updateNotationPattern (id : NotationPatternId) (d : NotationPatternDef)
  | deleteNotationPattern (id : NotationPatternId)
  | createConceptMap (d : ConceptMapDef)
  | updateConceptMap (id : ConceptMapId) (d : ConceptMapDef)
  | deleteConceptMap (id : ConceptMapId)
  | createValueSet (d : ValueSetDef)
  | updateValueSet (id : ValueSetId) (d : ValueSetDef)
  | deleteValueSet (id : ValueSetId)
  | createRule (d : RuleDef)
  | updateRule (id : RuleId) (d : RuleDef)
  | deleteRule (id : RuleId)
  | deprecateNodeType (id : NodeTypeId) (replacedById : Option NodeTypeId)
  | deprecateEdgeType (id : EdgeTypeId) (replacedById : Option EdgeTypeId)
  | bindProperty (owner : PropertyOwnerPath) (propertyId : PropertyId) (binding : PropertyBinding)
  | unbindProperty (owner : PropertyOwnerPath) (propertyId : PropertyId)
      (target : PropertyBindingHandle)

/-- Why `apply_to` refuses an operation. -/
inductive EditError where
  | idMismatch (operation defId id : String)
  | notFound (kind id : String)
  | alreadyExists (kind id : String)
  | propertyNotFound (propertyId location : String)
  | invariant (e : OntologyInvariantError)
deriving DecidableEq

namespace OntologyEditOp

def classifyChangeType : OntologyEditOp → ChangeType
  | createCodeSystem .. | updateCodeSystem .. => .codedValueCreate
  | deleteCodeSystem .. => .codedValueDeprecate
  | createCodedValue .. | updateCodedValue .. => .codedValueCreate
  | deleteCodedValue .. => .codedValueDeprecate
  | createConcept .. | updateConcept .. | deleteConcept .. | createGlossaryTerm ..
  | updateGlossaryTerm .. | deleteGlossaryTerm .. => .terminologyRegistryUpdate
  | createObjectMapping .. | updateObjectMapping .. | deleteObjectMapping ..
  | createLinkMapping .. | updateLinkMapping .. | deleteLinkMapping .. => .tableMerge
  | createNotationPattern .. | updateNotationPattern .. | deleteNotationPattern .. =>
    .notationPatternCreate
  | createConceptMap .. | updateConceptMap .. | deleteConceptMap .. | createValueSet ..
  | updateValueSet .. | deleteValueSet .. => .terminologyRegistryUpdate
  | bindProperty .. | unbindProperty .. => .semanticBindingUpdate
  | deprecateNodeType .. | deprecateEdgeType .. => .staleConceptDeprecate
  | createRule .. => .ruleCreate
  | updateRule .. => .ruleModify
  | deleteRule .. => .ruleDelete

/-- `scopes`.  A count of codes is cast to 32 bits. -/
def scopes : OntologyEditOp → List ScopeValue
  | createCodedValue .. | updateCodedValue .. | deleteCodedValue .. => [⟨.codeCount, 1⟩]
  | createCodeSystem d | updateCodeSystem _ d => [⟨.codeCount, d.codes.length % 2 ^ 32⟩]
  | deleteCodeSystem .. => [⟨.codeCount, 2 ^ 32 - 1⟩]
  | _ => []

/-- A mutator's outcome, as `apply_to` hands it on. -/
def viaMutator (r : Outcome Unit) : Except EditError OntologyState :=
  match r.1 with
  | .ok () => .ok r.2
  | .error e => .error (.invariant e)

/-- The check that the definition carries the id of the path. -/
def withSameId (operation defId id : String) (r : Except EditError OntologyState) :
    Except EditError OntologyState :=
  if defId = id then r else .error (.idMismatch operation defId id)

/-- Replace the codes of a system by what `f` makes of them. -/
def editCodes (s : OntologyState) (codeSystemId : CodeSystemId)
    (f : List CodedValue → Except EditError (List CodedValue)) : Except EditError OntologyState :=
  match s.codeSystemById codeSystemId with
  | none => .error (.notFound "code_system" codeSystemId.val)
  | some cs =>
    match f cs.codes with
    | .error e => .error e
    | .ok codes => viaMutator (replaceCodeSystem codeSystemId { cs with codes := codes } s)

/-- The first entry with a property changed by `f`; nothing when there is none. -/
def modifyFirst {α : Type} (p : α → Bool) (f : α → α) (xs : List α) : Option (List α) :=
  (xs.findIdx? p).map fun idx => xs.modify idx f

/-- `mutate_property` on the properties of the owner that was found. -/
def mutateProperties (location : String) (propertyId : PropertyId) (f : PropertyDef → PropertyDef)
    (properties : List PropertyDef) : Except EditError (List PropertyDef) :=
  match modifyFirst (fun p => p.id = propertyId) f properties with
  | some changed => .ok changed
  | none => .error (.propertyNotFound propertyId.val location)

def mutateProperty (s : OntologyState) (owner : PropertyOwnerPath) (propertyId : PropertyId)
    (f : PropertyDef → PropertyDef) : Except EditError OntologyState :=
  match owner with
  | .node typeId =>
    match s.ir.nodeTypes.find? fun n => n.id = typeId with
    | none => .error (.notFound "node_type" typeId.val)
    | some node =>
      match mutateProperties ("node:" ++ typeId.val) propertyId f node.properties with
      | .error e => .error e
      | .ok changed =>
        .ok (s.withIR { s.ir with
          nodeTypes := (modifyFirst (fun n => n.id = typeId)
            (fun n => { n with properties := changed }) s.ir.nodeTypes).getD
            s.ir.nodeTypes })
  | .edge typeId =>
    match s.ir.edgeTypes.find? fun e => e.id = typeId with
    | none => .error (.notFound "edge_type" typeId.val)
    | some edge =>
      match mutateProperties ("edge:" ++ typeId.val) propertyId f edge.properties with
      | .error e => .error e
      | .ok changed =>
        .ok (s.withIR { s.ir with
          edgeTypes := (modifyFirst (fun e => e.id = typeId)
            (fun e => { e with properties := changed }) s.ir.edgeTypes).getD
            s.ir.edgeTypes })

/-- The closure of `BindProperty`: a binding with the same handle is replaced. -/
def bind (binding : PropertyBinding) (p : PropertyDef) : PropertyDef :=
  { p with
    bindings := (modifyFirst (fun b => b.handle = binding.handle) (fun _ => binding)
      p.bindings).getD (p.bindings ++ [binding]) }

/-- The closure of `UnbindProperty`. -/
def unbind (target : PropertyBindingHandle) (p : PropertyDef) : PropertyDef :=
  { p with bindings := p.bindings.filter fun b => b.handle ≠ target }

/-- `DeprecateNodeType`. -/
def markNodeType (now : DateTime) (id : NodeTypeId) (replacedById : Option NodeTypeId)
    (s : OntologyState) : Except EditError OntologyState :=
  match modifyFirst (fun n => n.id = id)
      (fun n => { n with deprecatedAt := some now, replacedById := replacedById })
      s.ir.nodeTypes with
  | none => .error (.notFound "node_type" id.val)
  | some nodeTypes => .ok (s.withIR { s.ir with nodeTypes := nodeTypes })

/-- `DeprecateEdgeType`. -/
def markEdgeType (now : DateTime) (id : EdgeTypeId) (replacedById : Option EdgeTypeId)
    (s : OntologyState) : Except EditError OntologyState :=
  match modifyFirst (fun e => e.id = id)
      (fun e => { e with deprecatedAt := some now, replacedById := replacedById })
      s.ir.edgeTypes with
  | none => .error (.notFound "edge_type" id.val)
  | some edgeTypes => .ok (s.withIR { s.ir with edgeTypes := edgeTypes })

/-- `CreateCodedValue`, on the codes of the system. -/
def insertCode (value : CodedValue) (codes : List CodedValue) :
    Except EditError (List CodedValue) :=
  if codes.any fun c => c.id = value.id then .error (.alreadyExists "coded_value" value.id.val)
  else .ok (codes ++ [value])

/-- `UpdateCodedValue`, on the codes of the system. -/
def updateCode (id : CodedValueId) (value : CodedValue) (codes : List CodedValue) :
    Except EditError (List CodedValue) :=
  match codes.findIdx? fun c => c.id = id with
  | none => .error (.notFound "coded_value" id.val)
  | some pos => .ok (codes.set pos value)

/-- `DeleteCodedValue`, on the codes of the system. -/
def deleteCode (id : CodedValueId) (codes : List CodedValue) : Except EditError (List CodedValue) :=
  let kept := codes.filter fun c => c.id ≠ id
  if kept.length = codes.length then .error (.notFound "coded_value" id.val) else .ok kept

def applyTo (now : DateTime) (s : OntologyState) : OntologyEditOp → Except EditError OntologyState
  | createCodeSystem d => viaMutator (addCodeSystem d s)
  | updateCodeSystem id d =>
    withSameId "update_code_system" d.id.val id.val (viaMutator (replaceCodeSystem id d s))
  | deleteCodeSystem id => viaMutator (removeCodeSystem id s)
  | createCodedValue codeSystemId value => editCodes s codeSystemId (insertCode value)
  | updateCodedValue codeSystemId id value =>
    withSameId "update_coded_value" value.id.val id.val
      (editCodes s codeSystemId (updateCode id value))
  | deleteCodedValue codeSystemId id => editCodes s codeSystemId (deleteCode id)
  | createConcept d => viaMutator (addConcept d s)
  | updateConcept id d =>
    withSameId "update_concept" d.id.val id.val (viaMutator (replaceConcept id d s))
  | deleteConcept id => viaMutator (removeConcept id s)
  | createGlossaryTerm d => viaMutator (addGlossaryTerm d s)
  | updateGlossaryTerm id d =>
    withSameId "update_glossary_term" d.id.val id.val (viaMutator (replaceGlossaryTerm id d s))
  | deleteGlossaryTerm id => viaMutator (removeGlossaryTerm id s)
  | createObjectMapping mapping => viaMutator (addObjectMapping mapping s)
  | updateObjectMapping id mapping =>
    withSameId "update_object_mapping" mapping.id.val id.val
      (viaMutator (replaceObjectMapping id mapping s))
  | deleteObjectMapping id => viaMutator (removeObjectMapping id s)
  | createLinkMapping mapping => viaMutator (addLinkMapping mapping s)
  | updateLinkMapping id mapping =>
    withSameId "update_link_mapping" mapping.id.val id.val
      (viaMutator (replaceLinkMapping id mapping s))
  | deleteLinkMapping id => viaMutator (removeLinkMapping id s)
  | createNotationPattern d => viaMutator (addNotationPattern d s)
  | updateNotationPattern id d =>
    withSameId "update_notation_pattern" d.id.val id.val
      (viaMutator (replaceNotationPattern id d s))
  | deleteNotationPattern id => viaMutator (removeNotationPattern id s)
  | createConceptMap d => viaMutator (addConceptMap d s)
  | updateConceptMap id d =>
    withSameId "update_concept_map" d.id.val id.val (viaMutator (replaceConceptMap id d s))
  | deleteConceptMap id => viaMutator (removeConceptMap id s)
  | createValueSet d => viaMutator (addValueSet d s)
  | updateValueSet id d =>
    withSameId "update_value_set" d.id.val id.val (viaMutator (replaceValueSet id d s))
  | deleteValueSet id => viaMutator (removeValueSet id s)
  | createRule d => viaMutator (addRule d s)
  | updateRule id d =>
    withSameId "update_rule" d.id.val id.val (viaMutator (replaceRule id d s))
  | deleteRule id => viaMutator (removeRule id s)
  | bindProperty owner propertyId binding => mutateProperty s owner propertyId (bind binding)
  | unbindProperty owner propertyId target => mutateProperty s owner propertyId (unbind target)
  | deprecateNodeType id replacedById => markNodeType now id replacedById s
  | deprecateEdgeType id replacedById => markEdgeType now id replacedById s

end OntologyEditOp

end Ontosyx.Ontology
