import Ontosyx.Ontology.Edit

/-!
# Routing a batch of edits

`verify_ops_apply` lets a batch through when the rule of each operation's change
type applies it.  The scopes the rules compare with a threshold are collected
over the whole batch before any operation is judged: the largest count of each
kind, whoever declared it.
-/

namespace Ontosyx.Api

open List Ontology

inductive PlatformRole where
  | admin
  | designer
  | viewer
deriving DecidableEq

def roleRefOf : PlatformRole → RoleRef
  | .admin => .admin
  | .designer => .dataSteward
  | .viewer => .analyst

/-- Why a batch is not let through. -/
inductive RoutingError where
  | missingRule
  | editQueuedForApproval
deriving DecidableEq

/-- The row order of `resolve_change_routing`: the higher priority first, a
workspace row before a global one. -/
def ChangeRoutingRule.precedes (a b : ChangeRoutingRule) : Bool :=
  b.priority < a.priority ||
    (a.priority = b.priority && a.workspaceId.isSome && b.workspaceId.isNone)

/-- `resolve_change_routing` on the rows a workspace can read. -/
def resolveChangeRouting (rules : List ChangeRoutingRule) (changeType : ChangeType) :
    Option ChangeRoutingRule :=
  (rules.filter fun r => r.changeType = changeType).foldl
    (fun best r =>
      match best with
      | none => some r
      | some b => if ChangeRoutingRule.precedes r b then some r else best)
    none

/-- One step of `aggregate_scopes`: the entry of the kind keeps the maximum. -/
def mergeScope (acc : List ScopeValue) (sv : ScopeValue) : List ScopeValue :=
  if acc.any fun s => s.kind = sv.kind then
    acc.map fun s => if s.kind = sv.kind then { s with value := max s.value sv.value } else s
  else acc ++ [sv]

def aggregateScopes (ops : List OntologyEditOp) : List ScopeValue :=
  (ops.flatMap (·.scopes)).foldl mergeScope []

/-- The context every operation of the batch is judged in. -/
def batchContext (role : PlatformRole) (ops : List OntologyEditOp) : EditContext where
  authorRole := some (roleRefOf role)
  scopes := aggregateScopes ops

def verifyOp (rules : List ChangeRoutingRule) (ctx : EditContext) (op : OntologyEditOp) :
    Except RoutingError Unit :=
  match resolveChangeRouting rules op.classifyChangeType with
  | none => .error .missingRule
  | some rule =>
    match decideEditRouting rule.routing ctx with
    | .queue => .error .editQueuedForApproval
    | .apply _ => .ok ()

def verifyOpsApply (rules : List ChangeRoutingRule) (role : PlatformRole)
    (ops : List OntologyEditOp) : Except RoutingError Unit :=
  ops.forM (verifyOp rules (batchContext role ops))

/-- The counts of a kind that the operations of a batch declare. -/
def counts (ops : List OntologyEditOp) (k : ScopeKind) : List Nat :=
  ((ops.flatMap (·.scopes)).filter fun s => s.kind = k).map (·.value)

/-- The context's count of the kind exists and is below the threshold. -/
def clears (ops : List OntologyEditOp) (gate : ScopeKind × Nat) : Bool :=
  !(counts ops gate.1).isEmpty && (counts ops gate.1).all fun c => c < gate.2

section

variable {acc : List ScopeValue} {sv : ScopeValue} {k : ScopeKind} {t : Nat}

theorem nodup_mergeScope (h : (acc.map (·.kind)).Nodup) :
    ((mergeScope acc sv).map (·.kind)).Nodup := by
  unfold mergeScope
  by_cases hmem : acc.any fun s => s.kind = sv.kind
  · have hkinds :
        (acc.map fun s => if s.kind = sv.kind then { s with value := max s.value sv.value }
        else s).map (·.kind) = acc.map (·.kind) := by
      refine map_map.trans (map_congr_left fun s _ => ?_)
      show (if s.kind = sv.kind then { s with value := max s.value sv.value } else s).kind = s.kind
      split <;> rfl
    rw [if_pos hmem, hkinds]
    exact h
  · rw [if_neg hmem, map_append, nodup_append]
    refine ⟨h, nodup_singleton _, ?_⟩
    intro a ha b hb hab
    obtain ⟨s, hs, rfl⟩ := mem_map.1 ha
    refine hmem (any_eq_true.2 ⟨s, hs, ?_⟩)
    rw [hab, mem_singleton.1 hb]
    exact decide_eq_true rfl

/-- A merged list holds a kind when one of its parts does, and its counts are
below a threshold when those of both parts are. -/
theorem below_mergeScope_iff :
    ((∃ s ∈ mergeScope acc sv, s.kind = k) ↔ (∃ s ∈ acc, s.kind = k) ∨ sv.kind = k) ∧
      ((∀ s ∈ mergeScope acc sv, s.kind = k → s.value < t) ↔
        (∀ s ∈ acc, s.kind = k → s.value < t) ∧ (sv.kind = k → sv.value < t)) := by
  unfold mergeScope
  by_cases hmem : acc.any fun s => s.kind = sv.kind
  · rw [if_pos hmem]
    obtain ⟨s₀, hs₀, hkind⟩ := any_eq_true.1 hmem
    have hkind : s₀.kind = sv.kind := of_decide_eq_true hkind
    constructor
    · constructor
      · rintro ⟨s, hs, hk⟩
        obtain ⟨r, hr, rfl⟩ := mem_map.1 hs
        by_cases hrk : r.kind = sv.kind
        · rw [if_pos hrk] at hk
          exact .inl ⟨r, hr, hk⟩
        · rw [if_neg hrk] at hk
          exact .inl ⟨r, hr, hk⟩
      · intro h
        obtain ⟨r, hr, hk⟩ : ∃ s ∈ acc, s.kind = k := h.elim id fun hk => ⟨s₀, hs₀, hkind.trans hk⟩
        refine ⟨_, mem_map_of_mem hr, ?_⟩
        split <;> exact hk
    · rw [forall_mem_map]
      constructor
      · intro h
        constructor
        · intro s hs hk
          have := h s hs
          by_cases hsk : s.kind = sv.kind
          · rw [if_pos hsk] at this
            exact Nat.lt_of_le_of_lt (Nat.le_max_left ..) (this hk)
          · rw [if_neg hsk] at this
            exact this hk
        · intro hk
          have := h s₀ hs₀
          rw [if_pos hkind] at this
          exact Nat.lt_of_le_of_lt (Nat.le_max_right ..) (this (hkind.trans hk))
      · intro h s hs
        by_cases hsk : s.kind = sv.kind
        · rw [if_pos hsk]
          exact fun hk => Nat.max_lt.2 ⟨h.1 s hs hk, h.2 (hsk.symm.trans hk)⟩
        · rw [if_neg hsk]
          exact h.1 s hs
  · rw [if_neg hmem]
    simp only [mem_append, mem_singleton, or_and_right, exists_or, exists_eq_left, or_imp,
      forall_and, forall_eq, and_self]

theorem below_foldl_iff (svs : List ScopeValue) (h : (acc.map (·.kind)).Nodup) :
    ((svs.foldl mergeScope acc).map (·.kind)).Nodup ∧
      ((∃ s ∈ svs.foldl mergeScope acc, s.kind = k) ↔
        (∃ s ∈ acc, s.kind = k) ∨ ∃ s ∈ svs, s.kind = k) ∧
      ((∀ s ∈ svs.foldl mergeScope acc, s.kind = k → s.value < t) ↔
        (∀ s ∈ acc, s.kind = k → s.value < t) ∧ ∀ s ∈ svs, s.kind = k → s.value < t) := by
  induction svs generalizing acc with
  | nil => simp [h]
  | cons sv svs ih =>
    obtain ⟨hnd, hhas, hall⟩ := ih (nodup_mergeScope h)
    obtain ⟨hhas', hall'⟩ := @below_mergeScope_iff acc sv k t
    refine ⟨hnd, hhas.trans ?_, hall.trans ?_⟩
    · rw [hhas', exists_mem_cons_iff, or_assoc]
    · rw [hall', forall_mem_cons, and_assoc]

/-- On distinct kinds, the entry that is found is the only one of its kind. -/
theorem any_find?_iff (h : (acc.map (·.kind)).Nodup) :
    ((acc.find? fun s => s.kind = k).any fun s => s.value < t) = true ↔
      (∃ s ∈ acc, s.kind = k) ∧ ∀ s ∈ acc, s.kind = k → s.value < t := by
  cases hfind : acc.find? fun s => s.kind = k with
  | none =>
    have hnone := find?_eq_none.1 hfind
    refine iff_of_false (by simp) ?_
    rintro ⟨⟨s, hs, hk⟩, -⟩
    exact hnone s hs (decide_eq_true hk)
  | some r =>
    have hr := mem_of_find?_eq_some hfind
    have hfound := find?_some hfind
    have hrk : r.kind = k := of_decide_eq_true hfound
    rw [Option.any_some, decide_eq_true_eq]
    constructor
    · intro hlt
      refine ⟨⟨r, hr, hrk⟩, fun s hs hk => ?_⟩
      have hsr : s = r := inj_on_of_nodup_map h hs hr (hk.trans hrk.symm)
      rw [hsr]
      exact hlt
    · exact fun hall => hall.2 r hr hrk

end

/-- A threshold lets an operation through exactly when the batch declares a
count of the kind and all of them are below it. -/
theorem predPasses_changeScopeBelow (role : PlatformRole) (ops : List OntologyEditOp)
    (k : ScopeKind) (t : Nat) :
    predPasses (batchContext role ops) (.changeScopeBelow k t) = clears ops (k, t) := by
  obtain ⟨hnd, hhas, hall⟩ := @below_foldl_iff [] k t (ops.flatMap (·.scopes)) nodup_nil
  rw [Bool.eq_iff_iff]
  refine (any_find?_iff hnd).trans ?_
  rw [hhas, hall, clears, counts]
  simp only [not_mem_nil, false_and, exists_false, false_or, false_imp_iff, implies_true,
    true_and, Bool.and_eq_true, Bool.not_eq_true', isEmpty_eq_false_iff, ne_eq,
    map_eq_nil_iff, filter_eq_nil_iff, decide_eq_true_eq, not_forall, not_not,
    exists_prop, all_eq_true, forall_mem_map, mem_filter, and_imp]

/-! ## What lets an operation through -/

/-- The author's role satisfies the predicate. -/
def grants (role : PlatformRole) : ApprovalSkipPredicate → Bool
  | .authorHasRole required => roleOutranks (roleRefOf role) required
  | .changeScopeBelow .. => false

/-- The routing of the rule that judges an operation. -/
def routingOf (rules : List ChangeRoutingRule) (op : OntologyEditOp) : Option ApprovalRouting :=
  (resolveChangeRouting rules op.classifyChangeType).map (·.routing)

/-- The thresholds in front of the first role predicate that the author's role
satisfies. -/
def gates (role : PlatformRole) : List ApprovalSkipPredicate → List (ScopeKind × Nat)
  | [] => []
  | .authorHasRole required :: ps =>
    if roleOutranks (roleRefOf role) required then [] else gates role ps
  | .changeScopeBelow scope threshold :: ps => (scope, threshold) :: gates role ps

/-- The predicate that lets an operation of the batch through, if one has to. -/
def fired (rules : List ChangeRoutingRule) (ctx : EditContext) (op : OntologyEditOp) :
    Option ApprovalSkipPredicate :=
  match routingOf rules op with
  | some (.approvalRequiredUnless skipPredicates) => skipPredicates.find? (predPasses ctx)
  | _ => none

/-- The skip predicates of the rule that judges an operation. -/
def skipPredicates (rules : List ChangeRoutingRule) (op : OntologyEditOp) :
    List ApprovalSkipPredicate :=
  match routingOf rules op with
  | some (.approvalRequiredUnless ps) => ps
  | _ => []

/-- No rule, no role and no count of the batch lets the operation through. -/
def Held (rules : List ChangeRoutingRule) (role : PlatformRole) (ops : List OntologyEditOp)
    (op : OntologyEditOp) : Prop :=
  match routingOf rules op with
  | none | some .approvalRequired => True
  | some (.approvalRequiredUnless ps) =>
    ps.any (grants role) = false ∧ (gates role ps).find? (clears ops) = none
  | some .autoApprove | some (.autoApproveWithNotification _) => False

section

variable {rules : List ChangeRoutingRule} {role : PlatformRole} {ops : List OntologyEditOp}

theorem find?_predPasses_none_iff (ps : List ApprovalSkipPredicate) :
    ps.find? (predPasses (batchContext role ops)) = none ↔
      ps.any (grants role) = false ∧ (gates role ps).find? (clears ops) = none := by
  induction ps with
  | nil => exact iff_of_true rfl ⟨rfl, rfl⟩
  | cons p ps ih =>
    cases p with
    | authorHasRole required =>
      have hpass : predPasses (batchContext role ops) (.authorHasRole required) =
          roleOutranks (roleRefOf role) required := rfl
      rw [find?_cons, hpass, any_cons, gates, grants]
      cases roleOutranks (roleRefOf role) required with
      | true => simp
      | false => simpa only [Bool.false_or, Bool.false_eq_true, if_false] using ih
    | changeScopeBelow scope threshold =>
      rw [find?_cons, predPasses_changeScopeBelow, any_cons, gates, find?_cons, grants]
      cases clears ops (scope, threshold) with
      | true => simp
      | false => simpa only [Bool.false_or] using ih

/-- The predicate that fires is a threshold exactly when the first threshold that
the counts of the batch are below stands in front of the role predicates. -/
theorem find?_predPasses_eq_scope_iff (ps : List ApprovalSkipPredicate) {k : ScopeKind} {t : Nat} :
    ps.find? (predPasses (batchContext role ops)) = some (.changeScopeBelow k t) ↔
      (gates role ps).find? (clears ops) = some (k, t) := by
  induction ps with
  | nil => exact iff_of_false (by simp) (by simp [gates])
  | cons p ps ih =>
    cases p with
    | authorHasRole required =>
      have hpass : predPasses (batchContext role ops) (.authorHasRole required) =
          roleOutranks (roleRefOf role) required := rfl
      rw [find?_cons, hpass, gates]
      cases roleOutranks (roleRefOf role) required with
      | true => simp
      | false => simpa using ih
    | changeScopeBelow scope threshold =>
      rw [find?_cons, predPasses_changeScopeBelow, gates, find?_cons]
      cases clears ops (scope, threshold) with
      | true => simp
      | false => simpa using ih

/-- An operation is applied exactly when it is not held. -/
theorem verifyOp_eq_ok_iff (op : OntologyEditOp) :
    verifyOp rules (batchContext role ops) op = .ok () ↔ ¬Held rules role ops op := by
  unfold verifyOp Held routingOf
  cases hrule : resolveChangeRouting rules op.classifyChangeType with
  | none => simp
  | some rule =>
    rw [Option.map_some]
    cases hrouting : rule.routing with
    | autoApprove | autoApproveWithNotification notifyRoles
    | approvalRequired => simp [hrouting, decideEditRouting]
    | approvalRequiredUnless ps =>
      dsimp only
      rw [← find?_predPasses_none_iff, hrouting, decideEditRouting]
      cases ps.find? (predPasses (batchContext role ops)) with
      | none => simp
      | some p => simp

theorem fired_eq_scope_iff (op : OntologyEditOp) {k : ScopeKind} {t : Nat} :
    fired rules (batchContext role ops) op = some (.changeScopeBelow k t) ↔
      (gates role (skipPredicates rules op)).find? (clears ops) = some (k, t) := by
  unfold fired skipPredicates
  cases hrule : routingOf rules op with
  | none => simp [gates]
  | some routing =>
    cases routing with
    | approvalRequiredUnless ps => exact find?_predPasses_eq_scope_iff ps
    | autoApprove | autoApproveWithNotification notifyRoles | approvalRequired => simp [gates]

end

def Declares (op : OntologyEditOp) (k : ScopeKind) : Prop := ∃ sv ∈ op.scopes, sv.kind = k

/-- In a batch that is let through, every operation that a threshold lets through
declares its own count, and the counts of the batch add up to less than the
threshold. -/
def Reviewed (rules : List ChangeRoutingRule) (role : PlatformRole) (ops : List OntologyEditOp) :
    Prop :=
  verifyOpsApply rules role ops = .ok () →
    ∀ op ∈ ops, ∀ k t, fired rules (batchContext role ops) op = some (.changeScopeBelow k t) →
      Declares op k ∧ (counts ops k).sum < t

/-- Approval holds exactly when some operation is held anyway, or when each
operation declares a count of the kind that its first threshold above every
count of the batch asks for, and that threshold is above their sum as well. -/
theorem reviewed_iff (rules : List ChangeRoutingRule) (role : PlatformRole)
    (ops : List OntologyEditOp) : Reviewed rules role ops ↔ (∃ op ∈ ops, Held rules role ops op) ∨
        ∀ op ∈ ops, ∀ k t, (gates role (skipPredicates rules op)).find? (clears ops) = some (k, t) →
            Declares op k ∧ (counts ops k).sum < t := by
  have hok : verifyOpsApply rules role ops = .ok () ↔ ¬∃ op ∈ ops, Held rules role ops op := by
    rw [verifyOpsApply, Ontosyx.Lib.Checked.forM_eq_ok_iff]
    simp only [verifyOp_eq_ok_iff, not_exists, not_and]
  unfold Reviewed
  rw [hok]
  simp only [fired_eq_scope_iff]
  rw [← or_iff_not_imp_left]

/-- A rule of a workspace: terminology edits and new codes skip the queue below
five codes. -/
def belowFive (changeType : ChangeType) : ChangeRoutingRule where
  workspaceId := some "acme"
  changeType := changeType
  routing := .approvalRequiredUnless [.changeScopeBelow .codeCount 5]
  priority := 100

def acmeRules : List ChangeRoutingRule :=
  [belowFive .codedValueCreate, belowFive .terminologyRegistryUpdate]

def newCode (id code : String) : OntologyEditOp :=
  .createCodedValue ⟨"status"⟩ { id := ⟨id⟩, code := code }

/-- A glossary term is removed: an edit that declares no count. -/
def dropTerm : OntologyEditOp := .deleteGlossaryTerm ⟨"order"⟩

/-- On its own, the removal of a term waits for review; next to one new code it is
applied, on the count the other operation declares. -/
theorem dropTerm_rides_along :
    verifyOpsApply acmeRules .viewer [dropTerm] = .error .editQueuedForApproval ∧
      ¬Reviewed acmeRules .viewer [dropTerm, newCode "o" "OPEN"] := by
  refine ⟨by decide +kernel, fun h => ?_⟩
  obtain ⟨⟨sv, hsv, -⟩, -⟩ := h (by decide +kernel) dropTerm mem_cons_self .codeCount 5
    (by decide +kernel)
  exact absurd hsv not_mem_nil

end Ontosyx.Api
