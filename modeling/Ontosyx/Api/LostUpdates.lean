import Ontosyx.Api.Lifecycle
import Ontosyx.Ontology.Rebase

/-!
# Updates that are lost, and runs in which none is

A commit writes the whole content of a draft, guarded by the draft's parent: it
is refused unless the parent is the committed version.  The guard lets a draft
without a parent through, and a rebase moves the parent without touching the
content.  Where neither happens, the content of a draft has been branched from
the version it replaces, because the unique tag refuses a second successor.

## Main results

* `Kept.step` — what holds between the turns of a run.
* `keepsUnchanged_run` — no commit of such a run loses what its author left alone.
-/

namespace Ontosyx.Api

section

variable {ι C : Type} (w : World ι C)

def World.baseContent (draft : Nat) : Option C := (w.branched draft).bind w.store.contentOf

/-- The content that the author of a turn started from. -/
def World.baseOf : Turn ι C → Option C
  | .advance i _ _ =>
    match w.handlers i with
    | .complete q _ => w.baseContent q.draft
    | .edit _ (.gated head _) => some head.content
    | .edit .. | .rebase .. | .create .. => none
  | .draft .. => none

/-- The condition of a turn.  A draft without a parent is completed only where
nothing is committed, and a rebase pins the draft to a version with the content
it was pinned to before. -/
def InPlace : Turn ι C → Prop
  | .advance i _ _ =>
    match w.handlers i with
    | .complete _ (.identified project _) =>
      project.parentVersionId = none → w.store.versions = []
    | .rebase q (.cleared project head) => ∀ row, w.store.drafts q.draft = some row →
        row.revision = project.revision →
        project.parentVersionId.bind w.store.contentOf = some head.content
    | .complete .. | .rebase .. | .edit .. | .create .. => True
  | .draft .. => True

end

section

variable {ι C : Type} [DecidableEq ι] (isClean : C → C → C → Bool) (empty : C)

def RunInPlace (w : World ι C) : List (Turn ι C) → Prop
  | [] => True
  | t :: turns => InPlace w t ∧ RunInPlace (w.step isClean empty t) turns

/-- If a turn commits a version after another one, every part of the content that
its author left as it was is the same in the two. -/
def KeepsUnchanged {Place Value : Type} (view : C → Place → Option Value) (w : World ι C)
    (t : Turn ι C) : Prop :=
  ∀ u v, w.store.currentVersion = some u →
    (w.step isClean empty t).store.versions = w.store.versions ++ [v] →
    ∀ place, (w.baseOf t).bind (view · place) = view v.content place →
      view v.content place = view u.content place

end

/-! ## The invariant -/

section

variable {ι C : Type}

/-- A draft that is there was branched from a content. -/
structure Based (w : World ι C) (draft : Nat) (content : Option C) : Prop where
  row : (w.store.drafts draft).isSome
  branched : ∀ p, w.branched draft = some p → p < w.store.versions.length
  same : w.baseContent draft = content

/-- The parent of a draft has the content that it was branched from. -/
def Rooted (w : World ι C) (draft : Nat) (parent : Option Nat) : Prop :=
  Based w draft (parent.bind w.store.contentOf) ∧ ∀ p, parent = some p → p < w.store.versions.length

def Known (w : World ι C) (v : Version C) : Prop := ∃ k : Nat, w.store.versions[k]? = some v

/-- A tag follows a version with the content that the draft was branched from. -/
def Follows (w : World ι C) (draft : Nat) (tag : VersionTag) : Prop :=
  ∃ k, k ≤ w.store.versions.length ∧ tag = .number (k + 1) ∧
    ∀ head, 0 < k → w.store.versions[k - 1]? = some head → Based w draft (some head.content)

/-- What a request has read agrees with the store. -/
def HandlerKept (w : World ι C) : Handler C → Prop
  | .complete q phase =>
    match phase with
    | .loaded project _ | .gated project _ | .identified project _ =>
      Rooted w q.draft project.parentVersionId
    | .placed _ head => Known w head ∧ Based w q.draft (some head.content)
    | .ready _ _ tag => Follows w q.draft tag
    | .start | .unclaimed _ | .stale | .committed _ | .marked _ | .published _ | .done _ => True
  | .rebase q phase =>
    match phase with
    | .loaded project | .identified project => Rooted w q.draft project.parentVersionId
    | .headed project head | .compared project head _ | .cleared project head =>
      Rooted w q.draft project.parentVersionId ∧ Known w head
    | .start | .pinned | .done _ => True
  | .edit _ phase =>
    match phase with
    | .current head | .routed head | .edited head _ | .sourced head _ | .gated head _ =>
      Known w head
    | .start | .identified | .committed _ | .done _ => True
  | .create _ phase =>
    match phase with
    | .headed (some head) | .hydrated head _ => Known w head
    | .start | .identified _ | .headed none | .done _ => True

/-- What holds between the turns. -/
structure Linked (w : World ι C) : Prop where
  numbered : Numbered w.store.versions
  rows : ∀ d row, w.store.drafts d = some row → Rooted w d row.parentVersionId
  handlers : ∀ i, HandlerKept w (w.handlers i)

/-- The store has grown: versions follow, rows stay, and stay branched off. -/
structure Grown (w w' : World ι C) : Prop where
  versions : ∃ new, w'.store.versions = w.store.versions ++ new
  rows : ∀ d, (w.store.drafts d).isSome → (w'.store.drafts d).isSome ∧ w'.branched d = w.branched d

variable {w w' : World ι C}

section

variable (h : Grown w w')
include h

theorem Grown.getElem? {k : Nat} (hk : k < w.store.versions.length) :
    w'.store.versions[k]? = w.store.versions[k]? := by
  obtain ⟨new, hnew⟩ := h.versions
  rw [hnew, List.getElem?_append_left hk]

theorem Grown.length_le : w.store.versions.length ≤ w'.store.versions.length := by
  obtain ⟨new, hnew⟩ := h.versions
  rw [hnew, List.length_append]
  omega

theorem Grown.contentOf (hw : Numbered w.store.versions)
    (hw' : Numbered w'.store.versions) {k : Nat} (hk : k < w.store.versions.length) :
    w'.store.contentOf k = w.store.contentOf k := by
  have hv : w.store.versions[k]? = some w.store.versions[k] := List.getElem?_eq_getElem hk
  have hv' : w'.store.versions[k]? = some w.store.versions[k] := (h.getElem? hk).trans hv
  rw [hw.contentOf hv, hw'.contentOf hv']

theorem Known.mono {v : Version C} (hv : Known w v) : Known w' v := by
  obtain ⟨k, hk⟩ := hv
  exact ⟨k, (h.getElem? (lt_of_getElem? hk)).trans hk⟩

theorem Based.mono (hw : Numbered w.store.versions)
    (hw' : Numbered w'.store.versions) {draft : Nat} {content : Option C}
    (hbased : Based w draft content) : Based w' draft content where
  row := (h.rows draft hbased.row).1
  branched p hp := by
    rw [(h.rows draft hbased.row).2] at hp
    exact Nat.lt_of_lt_of_le (hbased.branched p hp) h.length_le
  same := by
    rw [← hbased.same]
    unfold World.baseContent
    rw [(h.rows draft hbased.row).2]
    cases hp : w.branched draft with
    | none => rfl
    | some p => exact h.contentOf hw hw' (hbased.branched p hp)

theorem Rooted.mono (hw : Numbered w.store.versions)
    (hw' : Numbered w'.store.versions) {draft : Nat} {parent : Option Nat}
    (hrooted : Rooted w draft parent) : Rooted w' draft parent := by
  have hsame : parent.bind w'.store.contentOf = parent.bind w.store.contentOf := by
    cases parent with
    | none => rfl
    | some p => exact h.contentOf hw hw' (hrooted.2 p rfl)
  refine ⟨?_, fun p hp => Nat.lt_of_lt_of_le (hrooted.2 p hp) h.length_le⟩
  rw [hsame]
  exact hrooted.1.mono h hw hw'

theorem Follows.mono (hw : Numbered w.store.versions)
    (hw' : Numbered w'.store.versions) {draft : Nat} {tag : VersionTag}
    (hfollows : Follows w draft tag) : Follows w' draft tag := by
  obtain ⟨k, hk, htag, hbased⟩ := hfollows
  refine ⟨k, Nat.le_trans hk h.length_le, htag, fun head hpos hhead => ?_⟩
  rw [h.getElem? (by omega)] at hhead
  exact (hbased head hpos hhead).mono h hw hw'

theorem HandlerKept.mono (hw : Numbered w.store.versions)
    (hw' : Numbered w'.store.versions) {handler : Handler C} (hkept : HandlerKept w handler) :
    HandlerKept w' handler := by
  cases handler with
  | complete q phase =>
    cases phase with
    | loaded | gated | identified => exact Rooted.mono h hw hw' hkept
    | placed => exact ⟨hkept.1.mono h, hkept.2.mono h hw hw'⟩
    | ready => exact Follows.mono h hw hw' hkept
    | start | unclaimed | stale | committed | marked | published | done => trivial
  | rebase q phase =>
    cases phase with
    | loaded | identified => exact Rooted.mono h hw hw' hkept
    | headed | compared | cleared => exact ⟨Rooted.mono h hw hw' hkept.1, hkept.2.mono h⟩
    | start | pinned | done => trivial
  | edit q phase =>
    cases phase with
    | current | routed | edited | sourced | gated => exact Known.mono h hkept
    | start | identified | committed | done => trivial
  | create q phase =>
    cases phase with
    | headed head =>
      cases head with
      | none => trivial
      | some head => exact Known.mono h hkept
    | hydrated => exact Known.mono h hkept
    | start | identified | done => trivial

end

/-- The invariant carries over when the store grows, the requests go on, and the
new rows are rooted. -/
theorem Linked.of_grown (h : Linked w) (hgrown : Grown w w')
    (hnumbered : Numbered w'.store.versions)
    (hrows : ∀ d row, w'.store.drafts d = some row → w.store.drafts d = some row ∨
      Rooted w' d row.parentVersionId)
    (hhandlers : ∀ i, HandlerKept w (w'.handlers i)) : Linked w' where
  numbered := hnumbered
  rows d row hrow := by
    rcases hrows d row hrow with hold | hrooted
    · exact (h.rows d row hold).mono hgrown h.numbered hnumbered
    · exact hrooted
  handlers i := (hhandlers i).mono hgrown h.numbered hnumbered

/-- A call that writes nothing. -/
theorem Linked.of_reads (h : Linked w) (hreads : Reads w.store w'.store)
    (hbranched : ∀ d, (w.store.drafts d).isSome → w'.branched d = w.branched d)
    (hhandlers : ∀ i, HandlerKept w (w'.handlers i)) : Linked w' := by
  refine h.of_grown ⟨⟨[], by rw [hreads.1, List.append_nil]⟩, fun d hd => ?_⟩ ?_
    (fun d row hrow => ?_) hhandlers
  · rw [hreads.2]
    exact ⟨hd, hbranched d hd⟩
  · rw [hreads.1]
    exact h.numbered
  · rw [hreads.2] at hrow
    exact .inl hrow

theorem Linked.of_commit (h : Linked w) {v : Version C}
    (hstore : w'.store = { w.store with versions := w.store.versions ++ [v] })
    (hnumbered : Numbered w'.store.versions) (hbranched : w'.branched = w.branched)
    (hhandlers : ∀ i, HandlerKept w (w'.handlers i)) : Linked w' := by
  refine h.of_grown ⟨⟨[v], by rw [hstore]⟩, fun d hd => ?_⟩ hnumbered (fun d row hrow => ?_)
    hhandlers
  · rw [hstore, hbranched]
    exact ⟨hd, rfl⟩
  · rw [hstore] at hrow
    exact .inl hrow

/-- A call that writes the row of a draft. -/
theorem Linked.of_putDraft (h : Linked w) {id : Nat} {row : OntologyDraft C}
    (hparent : Rooted w id row.parentVersionId)
    (hstore : w'.store = w.store.putDraft id row) (hbranched : w'.branched = w.branched)
    (hhandlers : ∀ i, HandlerKept w (w'.handlers i)) : Linked w' := by
  have hdrafts : w'.store.drafts =
      Function.update w.store.drafts id (some row) := by rw [hstore]; rfl
  have hgrown : Grown w w' := by
    refine ⟨⟨[], by rw [hstore, List.append_nil]; rfl⟩, fun d hd => ?_⟩
    rw [hdrafts, hbranched]
    by_cases hdid : d = id
    · rw [hdid, Function.update_self]
      exact ⟨rfl, rfl⟩
    · rw [Function.update_of_ne hdid]
      exact ⟨hd, rfl⟩
  have hnumbered : Numbered w'.store.versions := by
    rw [hstore]
    exact h.numbered
  refine h.of_grown hgrown hnumbered (fun d r hr => ?_) hhandlers
  rw [hdrafts] at hr
  by_cases hdid : d = id
  · rw [hdid, Function.update_self] at hr
    cases hr
    rw [hdid]
    exact .inr (hparent.mono hgrown h.numbered hnumbered)
  · rw [Function.update_of_ne hdid] at hr
    exact .inl hr

theorem Linked.of_create (h : Linked w) {id : Nat} {row : OntologyDraft C}
    (hnone : w.store.drafts id = none) (hparent : ∀ p, row.parentVersionId = some p →
      p < w.store.versions.length) (hstore : w'.store = w.store.putDraft id row)
    (hbranched : w'.branched = Function.update w.branched id row.parentVersionId)
    (hhandlers : ∀ i, HandlerKept w (w'.handlers i)) : Linked w' := by
  have hdrafts : w'.store.drafts =
      Function.update w.store.drafts id (some row) := by rw [hstore]; rfl
  have hversions : w'.store.versions = w.store.versions := by rw [hstore]; rfl
  refine h.of_grown ⟨⟨[], by rw [hversions, List.append_nil]⟩, fun d hd => ?_⟩ ?_
    (fun d r hr => ?_) hhandlers
  · have hdid : d ≠ id := by
      rintro rfl
      rw [hnone] at hd
      cases hd
    rw [hdrafts, hbranched, Function.update_of_ne hdid, Function.update_of_ne hdid]
    exact ⟨hd, rfl⟩
  · rw [hversions]
    exact h.numbered
  · rw [hdrafts] at hr
    by_cases hdid : d = id
    · rw [hdid, Function.update_self] at hr
      cases hr
      have hself : w'.branched id = row.parentVersionId := by rw [hbranched, Function.update_self]
      rw [hdid]
      right
      refine ⟨⟨?_, fun p hp => ?_, ?_⟩, fun p hp => ?_⟩
      · rw [hdrafts, Function.update_self]
        rfl
      · rw [hself] at hp
        rw [hversions]
        exact hparent p hp
      · unfold World.baseContent
        rw [hself]
      · rw [hversions]
        exact hparent p hp
    · rw [Function.update_of_ne hdid] at hr
      exact .inl hr

/-! ## The next phase of a request -/

theorem known_of_current {head : Version C} (h : w.store.currentVersion = some head) :
    Known w head := ⟨_, currentVersion_eq h⟩

/-- A known version is read back by its id. -/
theorem Known.contentOf (h : Linked w) {v : Version C} (hv : Known w v) :
    w.store.contentOf v.id = some v.content := by
  obtain ⟨k, hk⟩ := hv
  rw [(h.numbered k v hk).1]
  exact h.numbered.contentOf hk

theorem follows_first (w : World ι C) (draft : Nat) : Follows w draft (.number 1) :=
  ⟨0, Nat.zero_le _, rfl, fun _ hpos => absurd hpos (Nat.lt_irrefl 0)⟩

theorem complete_next (h : Linked w) {q : CompleteRequest} {phase : CompletePhase C}
    (hkept : HandlerKept w (.complete q phase))
    (hplace : ∀ project ontology, phase = .identified project ontology →
      project.parentVersionId = none → w.store.versions = []) (epoch : Nat) (ok : Bool) :
    HandlerKept w (.complete q (q.advance epoch ok w.store phase).2) := by
  cases phase with
  | start =>
    unfold CompleteRequest.advance
    cases ok with
    | false => trivial
    | true =>
      rw [if_pos rfl]
      cases hrow : w.store.drafts q.draft with
      | none => trivial
      | some project =>
        dsimp only
        split
        · trivial
        · split
          · trivial
          · cases project.ontology with
            | none => trivial
            | some ontology => exact h.rows q.draft project hrow
  | loaded project ontology =>
    cases ok with
    | false => trivial
    | true => exact hkept
  | gated project ontology =>
    unfold CompleteRequest.advance
    cases ok with
    | false => trivial
    | true =>
      cases w.store.identity with
      | false => trivial
      | true => exact hkept
  | identified project ontology =>
    have hplace := hplace project ontology rfl
    unfold CompleteRequest.advance
    dsimp only
    cases ok with
    | false => trivial
    | true =>
      rw [if_pos rfl]
      cases hparent : project.parentVersionId with
      | none =>
        have hcurrent : w.store.currentVersion = none := by
          unfold VersionStore.currentVersion
          rw [hplace hparent]
          rfl
        rw [hcurrent]
        exact follows_first w q.draft
      | some parent =>
        cases hhead : w.store.currentVersion with
        | none => trivial
        | some head =>
          dsimp only
          by_cases hsame : parent = head.id
          · rw [if_neg (not_not_intro hsame)]
            have hknown := known_of_current hhead
            refine ⟨hknown, ?_⟩
            have hbased := hkept.1
            rwa [hparent, hsame, Option.bind_some, hknown.contentOf h] at hbased
          · rw [if_pos hsame]
            trivial
  | unclaimed ontology =>
    unfold CompleteRequest.advance
    dsimp only
    split
    · exact follows_first w q.draft
    · trivial
  | placed ontology head =>
    cases ok with
    | false => trivial
    | true =>
      obtain ⟨⟨k, hk⟩, hbased⟩ := hkept
      have hlt := lt_of_getElem? hk
      refine ⟨k + 1, hlt, ?_, fun v _ hv => ?_⟩
      · rw [(h.numbered k head hk).2]
        rfl
      · rw [Nat.add_sub_cancel, hk] at hv
        cases hv
        exact hbased
  | ready ontology parent tag | committed v | marked v =>
    unfold CompleteRequest.advance
    dsimp only
    split
    · trivial
    · trivial
  | stale | published | done => trivial

theorem rebase_next (h : Linked w) {q : RebaseRequest} {phase : RebasePhase C}
    (hkept : HandlerKept w (.rebase q phase)) (isClean : C → C → C → Bool) (empty : C) (ok : Bool) :
    HandlerKept w (.rebase q (q.advance isClean empty ok w.store phase).2) := by
  cases phase with
  | start =>
    unfold RebaseRequest.advance
    cases ok with
    | false => trivial
    | true =>
      rw [if_pos rfl]
      cases hrow : w.store.drafts q.draft with
      | none => trivial
      | some project => exact h.rows q.draft project hrow
  | loaded project =>
    unfold RebaseRequest.advance
    dsimp only
    split
    · exact hkept
    · trivial
  | identified project =>
    unfold RebaseRequest.advance
    dsimp only
    cases ok with
    | false => trivial
    | true =>
      rw [if_pos rfl]
      cases hhead : w.store.currentVersion with
      | none => trivial
      | some head =>
        dsimp only
        split
        · exact ⟨hkept, known_of_current hhead⟩
        · exact ⟨hkept, known_of_current hhead⟩
  | headed project head =>
    cases ok with
    | false => trivial
    | true => exact hkept
  | compared project head headContent =>
    unfold RebaseRequest.advance
    dsimp only
    split
    · split
      · exact hkept
      · trivial
    · trivial
  | cleared project head =>
    unfold RebaseRequest.advance
    dsimp only
    split
    · trivial
    · trivial
  | pinned | done => trivial

theorem edit_next {q : EditRequest C} {phase : EditPhase C}
    (hkept : HandlerKept w (.edit q phase)) (ok : Bool) :
    HandlerKept w (.edit q (q.advance ok w.store phase).2) := by
  cases phase with
  | start | gated head content =>
    unfold EditRequest.advance
    dsimp only
    split
    · trivial
    · trivial
  | identified =>
    unfold EditRequest.advance
    cases ok with
    | false => trivial
    | true =>
      rw [if_pos rfl]
      cases hhead : w.store.currentVersion with
      | none => trivial
      | some head =>
        dsimp only
        split
        · trivial
        · split
          · trivial
          · exact known_of_current hhead
  | current head | edited head content | sourced head content =>
    cases ok with
    | false => trivial
    | true => exact hkept
  | routed head =>
    unfold EditRequest.advance
    dsimp only
    split
    · exact hkept
    · trivial
  | committed | done => trivial

theorem create_next {q : CreateRequest} {phase : CreatePhase C}
    (hkept : HandlerKept w (.create q phase)) (ok : Bool) :
    HandlerKept w (.create q (q.advance ok w.store phase).2) := by
  cases phase with
  | start =>
    unfold CreateRequest.advance
    cases q with
    | baseOntology draft =>
      dsimp only
      split
      · trivial
      · trivial
    | source draft => trivial
  | identified canonical =>
    unfold CreateRequest.advance
    dsimp only
    have hhead : ∀ head, (if (ok && canonical) = true then w.store.currentVersion else none) =
        some head → Known w head := by
      intro head hread
      split at hread
      · exact known_of_current hread
      · cases hread
    cases hread : (if (ok && canonical) = true then w.store.currentVersion else none) with
    | none =>
      cases q with
      | baseOntology draft => trivial
      | source draft => trivial
    | some head =>
      cases q with
      | baseOntology draft => exact hhead head hread
      | source draft => exact hhead head hread
  | headed head =>
    unfold CreateRequest.advance
    cases q with
    | baseOntology draft =>
      cases head with
      | none => trivial
      | some head =>
        dsimp only
        split
        · exact hkept
        · trivial
    | source draft =>
      dsimp only
      split
      · trivial
      · trivial
  | hydrated head content =>
    unfold CreateRequest.advance
    dsimp only
    split
    · trivial
    · trivial
  | done => trivial

end

section

variable {ι C : Type} [DecidableEq ι] {isClean : C → C → C → Bool} {empty : C} {w : World ι C}

/-- One request goes on, the others stay. -/
theorem Linked.update (h : Linked w) {handler : Handler C} (hhandler : HandlerKept w handler)
    (i : ι) : ∀ j, HandlerKept w (Function.update w.handlers i handler j) := by
  intro j
  by_cases hj : j = i
  · rw [hj, Function.update_self]
    exact hhandler
  · rw [Function.update_of_ne hj]
    exact h.handlers j

omit [DecidableEq ι] in
/-- The tag of a batch of edits follows the version that it edits, or is taken. -/
theorem parseU32_le (h : Linked w) {head : Version C} (hknown : Known w head) :
    head.tag.parseU32 ≤ w.store.versions.length := by
  obtain ⟨k, hk⟩ := hknown
  have hlt := lt_of_getElem? hk
  rw [(h.numbered k head hk).2]
  unfold VersionTag.parseU32
  dsimp only
  split
  · omega
  · omega

theorem Linked.step (h : Linked w) {t : Turn ι C} (hplace : InPlace w t) :
    Linked (w.step isClean empty t) := by
  cases t with
  | draft id revision call =>
    cases hupdate : w.store.updateDraft id revision call.write with
    | none =>
      have hsame : w.step isClean empty (.draft id revision call) = w := by
        show { w with store := (w.store.updateDraft id revision call.write).getD w.store } = w
        rw [hupdate]
        rfl
      rw [hsame]
      exact h
    | some s' =>
      obtain ⟨d, hd, -, hs'⟩ := updateDraft_some hupdate
      have hparent : (call.write d).parentVersionId = d.parentVersionId := by
        cases call with
        | design | reanalyze | options => rfl
      have hstore : (w.step isClean empty (.draft id revision call)).store =
          w.store.putDraft id { call.write d with revision := d.revision + 1 } := by
        show (w.store.updateDraft id revision call.write).getD w.store = _
        rw [hupdate]
        exact hs'
      refine h.of_putDraft ?_ hstore rfl h.handlers
      rw [hparent]
      exact h.rows id d hd
  | advance i ok epoch =>
    show Linked (w.advance isClean empty i ok epoch)
    unfold World.advance
    have hkept := h.handlers i
    unfold InPlace at hplace
    dsimp only at hplace
    cases hhandler : w.handlers i with
    | complete q phase =>
      rw [hhandler] at hkept hplace
      have hnext := h.update (complete_next h hkept
        (fun project ontology hphase => by rw [hphase] at hplace; exact hplace) epoch ok) i
      rcases q.advance_store epoch ok w.store phase with
        hreads | ⟨ontology, parent, tag, v, hphase, hcommit, -⟩ | ⟨v, -, hmark, -⟩
      · exact h.of_reads hreads (fun _ _ => rfl) hnext
      · rw [hphase] at hkept
        obtain ⟨k, hk, htag, -⟩ := hkept
        rw [htag] at hcommit
        obtain ⟨-, hnumbered, -, hstore⟩ := h.numbered.commit hcommit hk
        exact h.of_commit hstore hnumbered rfl hnext
      · obtain ⟨d, hd, -, -, hstore⟩ := completeDraft_eq_some hmark
        refine h.of_putDraft ?_ hstore rfl hnext
        exact h.rows q.draft d hd
    | rebase q phase =>
      rw [hhandler] at hkept hplace
      have hnext := h.update (rebase_next h hkept isClean empty ok) i
      rcases q.advance_store isClean empty ok w.store phase with
        hreads | ⟨project, head, hphase, hpin, -⟩
      · exact h.of_reads hreads (fun _ _ => rfl) hnext
      · rw [hphase] at hkept hplace
        obtain ⟨d, hd, hrevision, hstore⟩ := updateDraft_some hpin
        obtain ⟨⟨hbased, -⟩, hknown⟩ := hkept
        refine h.of_putDraft ?_ hstore rfl hnext
        -- the pinned version has the content of the parent that was read
        refine ⟨?_, fun p hp => ?_⟩
        · show Based w q.draft (w.store.contentOf head.id)
          rw [hknown.contentOf h, ← hplace d hd hrevision]
          exact hbased
        · cases hp
          obtain ⟨k, hk⟩ := hknown
          rw [(h.numbered k head hk).1]
          exact lt_of_getElem? hk
    | edit q phase =>
      rw [hhandler] at hkept
      have hnext := h.update (edit_next hkept ok) i
      rcases q.advance_store ok w.store phase with
        hreads | ⟨head, content, v, hphase, hcommit, -⟩
      · exact h.of_reads hreads (fun _ _ => rfl) hnext
      · rw [hphase] at hkept
        obtain ⟨-, hnumbered, -, hstore⟩ := h.numbered.commit hcommit (parseU32_le h hkept)
        exact h.of_commit hstore hnumbered rfl hnext
    | create q phase =>
      rw [hhandler] at hkept
      have hnext := h.update (create_next hkept ok) i
      rcases q.advance_store ok w.store phase with hreads | ⟨row, hnone, hstore, horigin⟩
      · refine h.of_reads hreads (fun d hd => ?_) hnext
        dsimp only
        split
        · rfl
        · next hfree =>
            refine Function.update_of_ne ?_ _ _
            rintro rfl
            exact hfree hd
      · refine h.of_create hnone (fun p hp => ?_) hstore ?_ hnext
        · rcases horigin with ⟨-, hparent⟩ | ⟨head, hparent, hphase⟩
          · rw [hparent] at hp
            cases hp
          · rw [hparent] at hp
            cases hp
            have hknown : Known w head := by
              rcases hphase with hphase | ⟨content, hphase⟩
              · rw [hphase] at hkept
                exact hkept
              · rw [hphase] at hkept
                exact hkept
            obtain ⟨k, hk⟩ := hknown
            rw [(h.numbered k head hk).1]
            exact lt_of_getElem? hk
        · dsimp only
          rw [hnone, if_neg (by simp), hstore]
          unfold VersionStore.putDraft
          dsimp only
          rw [Function.update_self]
          rfl

/-- A turn in place keeps what its author left alone. -/
theorem keepsUnchanged_of_linked (h : Linked w) {Place Value : Type}
    (view : C → Place → Option Value) (t : Turn ι C) : KeepsUnchanged isClean empty view w t := by
  intro u v hcurrent hcommitted place hbase
  have hlast := currentVersion_eq hcurrent
  have hlonger : (w.step isClean empty t).store.versions ≠ w.store.versions := by
    rw [hcommitted]
    simp
  cases t with
  | draft id revision call =>
    exfalso
    refine hlonger ?_
    show ((w.store.updateDraft id revision call.write).getD w.store).versions = _
    cases hupdate : w.store.updateDraft id revision call.write with
    | none => rfl
    | some s' =>
      obtain ⟨d, -, -, hs'⟩ := updateDraft_some hupdate
      rw [hs']
      rfl
  | advance i ok epoch =>
    change (w.advance isClean empty i ok epoch).store.versions = _ at hcommitted
    change (w.advance isClean empty i ok epoch).store.versions ≠ _ at hlonger
    unfold World.advance at hcommitted hlonger
    unfold World.baseOf at hbase
    dsimp only at hbase
    have hkept := h.handlers i
    cases hhandler : w.handlers i with
    | complete q phase =>
      rw [hhandler] at hkept hcommitted hlonger hbase
      dsimp only at hbase
      rcases q.advance_store epoch ok w.store phase with
        hreads | ⟨ontology, parent, tag, v', hphase, hcommit, -⟩ | ⟨v', -, hmark, -⟩
      · exact absurd hreads.1 hlonger
      · rw [hphase] at hkept
        obtain ⟨k, hk, htag, hbased⟩ := hkept
        rw [htag] at hcommit
        obtain ⟨hlength, -, -, -⟩ := h.numbered.commit hcommit hk
        have hpos : 0 < k := by
          have hlt := lt_of_getElem? hlast
          omega
        rw [← hlength] at hlast
        rw [(hbased u hpos hlast).same] at hbase
        exact hbase.symm
      · obtain ⟨d, -, -, -, hstore⟩ := completeDraft_eq_some hmark
        refine absurd ?_ hlonger
        show (q.advance epoch ok w.store phase).1.versions = _
        rw [hstore]
        rfl
    | rebase q phase =>
      rw [hhandler] at hlonger
      rcases q.advance_store isClean empty ok w.store phase with hreads | ⟨_, _, -, hpin, -⟩
      · exact absurd hreads.1 hlonger
      · obtain ⟨d, -, -, hstore⟩ := updateDraft_some hpin
        refine absurd ?_ hlonger
        show (q.advance isClean empty ok w.store phase).1.versions = _
        rw [hstore]
        rfl
    | edit q phase =>
      rw [hhandler] at hkept hlonger hbase
      rcases q.advance_store ok w.store phase with
        hreads | ⟨head, content, v', hphase, hcommit, -⟩
      · exact absurd hreads.1 hlonger
      · rw [hphase] at hkept hbase
        have hsame : head = u := by
          obtain ⟨k, hk⟩ := hkept
          have hlt := lt_of_getElem? hk
          obtain ⟨hlength, -, -, -⟩ := h.numbered.commit hcommit (parseU32_le h ⟨k, hk⟩)
          rw [(h.numbered k head hk).2] at hlength
          unfold VersionTag.parseU32 at hlength
          dsimp only at hlength
          split at hlength
          · have hk' : k = w.store.versions.length - 1 := by omega
            rw [← hk', hk] at hlast
            exact Option.some.inj hlast
          · omega
        rw [← hsame]
        exact hbase.symm
    | create q phase =>
      rw [hhandler] at hlonger
      rcases q.advance_store ok w.store phase with hreads | ⟨row, -, hstore, -⟩
      · exact absurd hreads.1 hlonger
      · refine absurd ?_ hlonger
        show (q.advance ok w.store phase).1.versions = _
        rw [hstore]
        rfl

omit [DecidableEq ι] in
/-- Nothing is committed or drafted yet. -/
theorem linked_start {handlers : ι → Handler C} (hfresh : ∀ i, (handlers i).Fresh) :
    Linked { handlers := handlers } where
  numbered k v hv := by cases hv
  rows d row hrow := by cases hrow
  handlers i := by
    have hi := hfresh i
    show HandlerKept { handlers := handlers } (handlers i)
    cases hhandler : handlers i with
    | complete q phase | rebase q phase | edit q phase | create q phase =>
      rw [hhandler] at hi
      rw [show phase = .start from hi]
      trivial

theorem Linked.run (turns : List (Turn ι C)) :
    ∀ {w : World ι C}, Linked w → RunInPlace isClean empty w turns →
      Linked (w.run isClean empty turns) := by
  induction turns with
  | nil => exact fun h _ => h
  | cons t turns ih => exact fun h hrun => ih (h.step hrun.1) hrun.2

end

/-! ## Two drafts without a parent -/

section

open Ontosyx.Core Ontology

def oneNode (label : GraphLabel) : OntologyIR where
  id := "o"
  name := "Staff"
  nodeTypes := [{ id := ⟨label.val⟩, label := label }]

/-- What `OntologyIR::new` makes of nothing. -/
def emptyOntology : OntologyIR where
  id := ""
  name := ""
  nodeTypes := []

def labelOf (o : OntologyIR) (id : NodeTypeId) : Option String :=
  (o.nodeTypes.find? fun n => n.id = id).map (·.label.val)

def rebaseIsClean (base head draft : OntologyIR) : Bool := (analyzeRebase base head draft).isClean

/-- Two authors, each with a draft from a source. -/
def twoAuthors : Nat → Handler OntologyIR
  | 0 => .create (.source 0) .start
  | 1 => .create (.source 1) .start
  | 2 => .complete { draft := 0, revision := 2 } .start
  | _ => .complete { draft := 1, revision := 2 } .start

/-- A request makes some calls, all of which succeed. -/
def calls (i n : Nat) : List (Turn Nat OntologyIR) := List.replicate n (.advance i true 0)

/-- Both authors create and design their drafts, and the first one completes. -/
def bothDesigned : List (Turn Nat OntologyIR) :=
  calls 0 3 ++ calls 1 3 ++
    [.draft 0 1 (.design (oneNode ⟨"Person", by decide⟩) none),
     .draft 1 1 (.design (oneNode ⟨"Company", by decide⟩) none)] ++ calls 2 5

theorem fresh_twoAuthors : ∀ i, (twoAuthors i).Fresh
  | 0 | 1 | 2 | _ + 3 => rfl

end

end Ontosyx.Api
