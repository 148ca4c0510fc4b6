import Ontosyx.Design.Checkpoints

/-!
# Faithful replays

An attempt without checkpoints gives each cluster an output that is a function
of the attempt and of the levels before it (`freshOutput`).  The invariant of
the table is that each checkpoint holds such an output of an attempt that was
made since the draft's checkpoints were last dropped (`Authored`); a replay is
faithful when that output is the one of the attempt at hand, and `SameCalls`
says when.
-/

namespace Ontosyx.Design

open List Ontosyx.Core Ontology Lib.Keyed Function

/-- An attempt, or a sweep of expired checkpoints. -/
inductive DesignEvent where
  | attempt (a : DesignAttempt)
  | sweep (expired : DraftClusterCheckpoint → Bool)

/-- The checkpoint table, and the attempts whose checkpoints it may hold. -/
structure DesignHistory where
  checkpoints : List DraftClusterCheckpoint := []
  attempts : List DesignAttempt := []

section

variable (json : JsonWriter) (sha256 : String → String)
  (designOntologyBatch : PromptHash → String → String → String → String → InputOntologyDef)

def DesignHistory.step (h : DesignHistory) : DesignEvent → DesignHistory
  | .attempt a =>
    { checkpoints := checkpointsAfter json sha256 designOntologyBatch a h.checkpoints
      attempts :=
        if drops json sha256 designOntologyBatch a h.checkpoints then
          (a :: h.attempts).filter fun b => b.ontologyDraftId ≠ a.ontologyDraftId
        else a :: h.attempts }
  | .sweep expired => { h with checkpoints := h.checkpoints.filter fun c => !expired c }

def runDesigns (events : List DesignEvent) : DesignHistory :=
  events.foldl (DesignHistory.step json sha256 designOntologyBatch) {}

/-- The attempt with every lookup failing and no call: each cluster is designed. -/
def DesignAttempt.withoutCheckpoints (a : DesignAttempt) : DesignAttempt :=
  { a with
    lookupFails := fun _ => true
    callFails := fun _ => false }

structure Faithful (a : DesignAttempt) (checkpoints : List DraftClusterCheckpoint) : Prop where
  output_eq : ∀ r ∈ (designPass json sha256 designOntologyBatch a checkpoints).replayed,
    r.output = designOntologyBatch a.promptHash (batchInput json a r.cluster) a.context
      r.existing r.cross
  stored_eq : ∀ o, storedOntology json sha256 designOntologyBatch a checkpoints = some o →
    storedOntology json sha256 designOntologyBatch a.withoutCheckpoints [] = some o

def Replays (events : List DesignEvent) : Prop :=
  ∀ before a after, events = before ++ .attempt a :: after →
    Faithful json sha256 designOntologyBatch a
      (runDesigns json sha256 designOntologyBatch before).checkpoints

/-! ## Places -/

/-- The cluster `i` is designed after the levels `prior`. -/
def DesignAttempt.At (a : DesignAttempt) (prior : List (List Nat)) (i : Nat) : Prop :=
  ∃ level rest, a.plan.levels = prior ++ level :: rest ∧ i ∈ level

/-- A level in the order in which its outputs are appended. -/
def sortedLevel (level : List Nat) : List Nat := level.mergeSort fun i j => i ≤ j

/-- The places of some levels that follow others, in the order of their outputs. -/
def placesFrom (prior : List (List Nat)) : List (List Nat) → List (List (List Nat) × Nat)
  | [] => []
  | level :: levels =>
    (sortedLevel level).map (fun i => (prior, i)) ++ placesFrom (prior ++ [level]) levels

theorem exists_of_mem_placesFrom {levels : List (List Nat)} {q : List (List Nat) × Nat} :
    ∀ {prior : List (List Nat)}, q ∈ placesFrom prior levels →
      ∃ pre level post, levels = pre ++ level :: post ∧ q.1 = prior ++ pre ∧ q.2 ∈ level := by
  induction levels with
  | nil => simp [placesFrom]
  | cons level levels ih =>
    intro prior hq
    rcases mem_append.1 hq with hq | hq
    · obtain ⟨i, hi, rfl⟩ := mem_map.1 hq
      exact ⟨[], level, levels, rfl, by simp, by simpa [sortedLevel] using hi⟩
    · obtain ⟨pre, l, post, rfl, hpre, hmem⟩ := ih hq
      exact ⟨level :: pre, l, post, rfl, by simpa using hpre, hmem⟩

/-- What is digested for the clusters of the levels before a place. -/
def DesignAttempt.priorTexts (a : DesignAttempt) (prior : List (List Nat)) : List String :=
  (placesFrom [] prior).map fun q => a.signatureText q.2

/-- Two places at which the model is called alike, by what can be said before any call. -/
structure SameCall (a b : DesignAttempt) (pa : List (List Nat)) (i : Nat)
    (pb : List (List Nat)) (j : Nat) : Prop where
  tables : ∀ t, t ∈ (a.cluster i).tables ↔ t ∈ (b.cluster j).tables
  crossFks : (a.cluster i).crossFks = (b.cluster j).crossFks
  input : batchInput json a (a.cluster i) = batchInput json b (b.cluster j)
  context : a.context = b.context
  prior : a.priorTexts pa = b.priorTexts pb

/-- Wherever the same text is digested in two attempts, the model is called alike. -/
def SameCalls (a b : DesignAttempt) : Prop :=
  ∀ pa i pb j, a.At pa i → b.At pb j → a.signatureText i = b.signatureText j →
    SameCall json a b pa i pb j

/-- Each attempt of the run agrees with itself, and with those before it on its draft and source
whose checkpoints have not been dropped. -/
def Stable (events : List DesignEvent) : Prop :=
  ∀ before a after, events = before ++ .attempt a :: after →
    ∀ b ∈ a :: (runDesigns json sha256 designOntologyBatch before).attempts,
      b.ontologyDraftId = a.ontologyDraftId → b.sourceId = a.sourceId → SameCalls json a b

/-! ## Outputs without checkpoints -/

/-- The batch results of the levels `prior`, when each cluster is designed. -/
def freshResults (a : DesignAttempt) (prior : List (List Nat)) : List InputOntologyDef :=
  prior.foldl (fun results level =>
    results ++ (sortedLevel level).map (callModel json designOntologyBatch a results)) []

/-- The output of the cluster `i` after the levels `prior`. -/
def freshOutput (a : DesignAttempt) (prior : List (List Nat)) (i : Nat) : InputOntologyDef :=
  callModel json designOntologyBatch a (freshResults json designOntologyBatch a prior) i

theorem freshResults_concat (a : DesignAttempt) (prior : List (List Nat)) (level : List Nat) :
    freshResults json designOntologyBatch a (prior ++ [level]) =
      freshResults json designOntologyBatch a prior ++
        (sortedLevel level).map (freshOutput json designOntologyBatch a prior) := by
  unfold freshResults
  rw [foldl_append]
  rfl

theorem freshResults_append (a : DesignAttempt) (levels : List (List Nat)) :
    ∀ prior, freshResults json designOntologyBatch a (prior ++ levels) =
      freshResults json designOntologyBatch a prior ++
        (placesFrom prior levels).map fun q => freshOutput json designOntologyBatch a q.1 q.2 := by
  induction levels with
  | nil => simp [placesFrom]
  | cons level levels ih =>
    intro prior
    have h := ih (prior ++ [level])
    rw [append_assoc, singleton_append] at h
    rw [h, freshResults_concat, append_assoc]
    simp only [placesFrom, map_append, map_map]
    rfl

theorem freshResults_eq (a : DesignAttempt) (prior : List (List Nat)) :
    freshResults json designOntologyBatch a prior =
      (placesFrom [] prior).map fun q => freshOutput json designOntologyBatch a q.1 q.2 :=
  freshResults_append json designOntologyBatch a prior []

end

/-- Lists that one pair of functions maps alike are mapped alike by every pair of functions that
follows it. -/
theorem map_eq_map_of_follows {α β γ δ : Type*} {f : α → γ} {g : β → γ} {f' : α → δ}
    {g' : β → δ} :
    ∀ {xs : List α} {ys : List β}, xs.map f = ys.map g →
      (∀ x ∈ xs, ∀ y ∈ ys, f x = g y → f' x = g' y) → xs.map f' = ys.map g'
  | [], [], _, _ => rfl
  | [], _ :: _, h, _ => by simp at h
  | _ :: _, [], h, _ => by simp at h
  | x :: xs, y :: ys, h, hfollows => by
    simp only [map_cons, List.cons.injEq] at h ⊢
    refine ⟨hfollows x (by simp) y (by simp) h.1, map_eq_map_of_follows h.2 ?_⟩
    intro x' hx y' hy
    exact hfollows x' (by simp [hx]) y' (by simp [hy])

theorem PromptHash.ext_hex {p q : PromptHash} (h : p.hex = q.hex) : p = q := by
  cases p
  cases q
  simpa using h

/-- The prompt is told by the last digits of the digested text. -/
theorem promptHash_eq_of_signatureText {c d : TableCluster} {p q : PromptHash}
    (h : signatureText c p = signatureText d q) : p = q := by
  have hlists := congrArg String.toList h
  simp only [signatureText, String.toList_append] at hlists
  have hlen : p.hex.toList.length = q.hex.toList.length := by
    rw [String.length_toList, String.length_toList, p.length_hex, q.length_hex]
  exact PromptHash.ext_hex (String.toList_injective (append_inj_right' hlists hlen))

/-- The cross relationships are told by the keys and by which tables are the cluster's. -/
theorem formatCrossFks_congr {c d : TableCluster} (hfks : c.crossFks = d.crossFks)
    (htables : ∀ t, t ∈ c.tables ↔ t ∈ d.tables) (results : List InputOntologyDef) :
    formatCrossFks c.crossFks c results = formatCrossFks d.crossFks d results := by
  have hline : crossFkLine c results = crossFkLine d results := by
    funext fk
    simp only [crossFkLine, htables]
  unfold formatCrossFks
  rw [hline, hfks]

variable {checkpoints : List DraftClusterCheckpoint} {prior : List (List Nat)}
  {attempts : List DesignAttempt} {a b : DesignAttempt} {i : Nat} {level : List Nat}
  {json : JsonWriter} {sha256 : String → String}
  {designOntologyBatch : PromptHash → String → String → String → String → InputOntologyDef}

section

theorem SameCall.callModel_eq {pa pb : List (List Nat)} {j : Nat}
    (h : SameCall json a b pa i pb j) (htext : a.signatureText i = b.signatureText j)
    (results : List InputOntologyDef) : callModel json designOntologyBatch a results i =
      callModel json designOntologyBatch b results j := by
  have hhash : a.promptHash = b.promptHash := promptHash_eq_of_signatureText htext
  unfold callModel
  rw [hhash, h.input, h.context, formatCrossFks_congr h.crossFks h.tables]

/-- Under `SameCalls`, the digested text tells the output. -/
theorem freshOutput_congr (h : SameCalls json a b) :
    ∀ {pa pb : List (List Nat)} {i j : Nat}, a.At pa i → b.At pb j →
      a.signatureText i = b.signatureText j → freshOutput json designOntologyBatch a pa i =
        freshOutput json designOntologyBatch b pb j := by
  -- by induction on the number of levels before: the results so far are outputs at earlier places
  suffices ∀ n, ∀ {pa pb : List (List Nat)} {i j : Nat}, pa.length = n → a.At pa i → b.At pb j →
      a.signatureText i = b.signatureText j →
      freshOutput json designOntologyBatch a pa i = freshOutput json designOntologyBatch b pb j by
    intro pa pb i j
    exact this pa.length rfl
  intro n
  induction n using Nat.strong_induction_on with
  | _ n ih =>
    intro pa pb i j hlen hi hj htext
    have hcall := h pa i pb j hi hj htext
    have hresults : freshResults json designOntologyBatch a pa =
        freshResults json designOntologyBatch b pb := by
      rw [freshResults_eq, freshResults_eq]
      refine map_eq_map_of_follows hcall.prior ?_
      intro q hq r hr hqr
      obtain ⟨pre, level, post, hpa, hpre, hmem⟩ := exists_of_mem_placesFrom hq
      obtain ⟨pre', level', post', hpb, hpre', hmem'⟩ := exists_of_mem_placesFrom hr
      rw [nil_append] at hpre hpre'
      obtain ⟨la, ra, hla, -⟩ := hi
      obtain ⟨lb, rb, hlb, -⟩ := hj
      refine ih q.1.length ?_ rfl ?_ ?_ hqr
      · rw [← hlen, hpa, hpre]
        simp
      · exact ⟨level, post ++ la :: ra, by rw [hla, hpa, hpre]; simp, hmem⟩
      · exact ⟨level', post' ++ lb :: rb, by rw [hlb, hpb, hpre']; simp, hmem'⟩
    unfold freshOutput
    rw [hresults]
    exact hcall.callModel_eq htext _

variable (json sha256 designOntologyBatch) in
/-- A checkpoint holds the output of a cluster of one of the attempts. -/
structure AuthoredBy (b : DesignAttempt) (prior : List (List Nat)) (j : Nat)
    (c : DraftClusterCheckpoint) : Prop where
  place : b.At prior j
  key : c.key = checkpointKey sha256 b j
  output : c.output = freshOutput json designOntologyBatch b prior j

variable (json sha256 designOntologyBatch) in
def Authored (attempts : List DesignAttempt) (checkpoints : List DraftClusterCheckpoint) : Prop :=
  ∀ c ∈ checkpoints, ∃ b ∈ attempts, ∃ prior j,
    AuthoredBy json sha256 designOntologyBatch b prior j c

theorem Authored.cons (h : Authored json sha256 designOntologyBatch attempts checkpoints)
    (a : DesignAttempt) : Authored json sha256 designOntologyBatch (a :: attempts) checkpoints := by
  intro c hc
  obtain ⟨b, hb, hauthored⟩ := h c hc
  exact ⟨b, mem_cons_of_mem a hb, hauthored⟩

theorem mem_upsertCheckpoint {c d : DraftClusterCheckpoint} :
    ∀ {table : List DraftClusterCheckpoint}, d ∈ upsertCheckpoint c table → d = c ∨ d ∈ table
  | [], h => .inl (by simpa [upsertCheckpoint] using h)
  | e :: table, h => by
    unfold upsertCheckpoint at h
    split at h
    · rcases mem_cons.1 h with h | h
      · exact .inl h
      · exact .inr (mem_cons_of_mem e h)
    · rcases mem_cons.1 h with rfl | h
      · exact .inr mem_cons_self
      · exact (mem_upsertCheckpoint h).imp_right (mem_cons_of_mem e)

theorem Authored.persist (h : Authored json sha256 designOntologyBatch attempts checkpoints)
    (ha : a ∈ attempts) (hi : a.At prior i) : Authored json sha256 designOntologyBatch attempts
      (persistCheckpoint sha256 a i (freshOutput json designOntologyBatch a prior i)
        checkpoints) := by
  intro c hc
  unfold persistCheckpoint at hc
  split at hc
  · exact h c hc
  · rcases mem_upsertCheckpoint hc with rfl | hc
    · exact ⟨a, ha, prior, i, hi, rfl, rfl⟩
    · exact h c hc

/-- What is found for a cluster is what the cluster is given without checkpoints. -/
theorem cached_eq_some {ir : InputOntologyDef} (hsha : Injective sha256)
    (h : Authored json sha256 designOntologyBatch attempts checkpoints)
    (hsame : ∀ b ∈ attempts, b.ontologyDraftId = a.ontologyDraftId → b.sourceId = a.sourceId →
      SameCalls json a b) (hi : a.At prior i) (hir : cached sha256 a checkpoints i = some ir) :
    ir = freshOutput json designOntologyBatch a prior i := by
  unfold cached at hir
  split at hir
  · exact absurd hir (by simp)
  · obtain ⟨c, hc, rfl⟩ := Option.map_eq_some_iff.1 hir
    have hkey : c.key = checkpointKey sha256 a i := by simpa using find?_some hc
    obtain ⟨b, hb, pb, j, hauthored⟩ := h c (mem_of_find?_eq_some hc)
    have hkeys : checkpointKey sha256 b j = checkpointKey sha256 a i :=
      hauthored.key.symm.trans hkey
    simp only [checkpointKey, Prod.mk.injEq] at hkeys
    rw [hauthored.output]
    have htext : a.signatureText i = b.signatureText j := (hsha hkeys.2.2).symm
    exact (freshOutput_congr (hsame b hb hkeys.1 hkeys.2.1) hi hauthored.place htext).symm

end

/-! ## One attempt -/

/-- Whatever the order of hits and misses, the results of a level are sorted by cluster. -/
theorem sorted_outputs {α : Type*} (g : Nat → α) {found : List Nat} (h : found.Perm level) :
    (((found.map fun i => (i, g i)).mergeSort fun x y => x.1 ≤ y.1).map (·.2)) =
      (sortedLevel level).map g := by
  have hmap : ((found.map fun i => (i, g i)).mergeSort fun x y => x.1 ≤ y.1) =
      (sortedLevel found).map fun i => (i, g i) := by
    unfold sortedLevel
    rw [map_mergeSort]
    simp
  have hsorted : sortedLevel found = sortedLevel level := by
    have hle : ∀ l : List Nat, (sortedLevel l).Pairwise (· ≤ ·) := fun l => by
      simpa [sortedLevel] using pairwise_mergeSort' (· ≤ ·) l
    refine Perm.eq_of_pairwise' (hle found) (hle level) ?_
    exact ((mergeSort_perm found _).trans h).trans (mergeSort_perm level _).symm
  rw [hmap, hsorted, map_map]
  rfl

variable (json sha256 designOntologyBatch) in
/-- The pass of an attempt before a level: its table is the attempts', its results are those
without checkpoints, and its replays are faithful. -/
structure Sound (attempts : List DesignAttempt) (a : DesignAttempt) (prior : List (List Nat))
    (p : DesignPass) : Prop where
  authored : Authored json sha256 designOntologyBatch attempts p.checkpoints
  results : p.failed = false → p.batchResults = freshResults json designOntologyBatch a prior
  faithful : ∀ r ∈ p.replayed,
    r.output = designOntologyBatch a.promptHash (batchInput json a r.cluster) a.context
      r.existing r.cross

section

/-- The calls of a level give what they give without checkpoints, and leave the table the
attempts'. -/
theorem runMisses_spec {prior : List (List Nat)} (ha : a ∈ attempts) :
    ∀ {misses : List Nat} {checkpoints : List DraftClusterCheckpoint},
      (∀ i ∈ misses, a.At prior i) →
      Authored json sha256 designOntologyBatch attempts checkpoints →
      let ran := runMisses json sha256 designOntologyBatch a
        (freshResults json designOntologyBatch a prior) misses checkpoints
      Authored json sha256 designOntologyBatch attempts ran.2.1 ∧
        (ran.2.2 = false →
          ran.1 = misses.map fun i => (i, freshOutput json designOntologyBatch a prior i))
  | [], _, _, h => ⟨h, fun _ => rfl⟩
  | i :: misses, checkpoints, hmem, h => by
    intro ran
    by_cases hfail : a.callFails i
    · have hran : ran = ([], checkpoints, true) := by
        simp [ran, runMisses, hfail]
      rw [hran]
      exact ⟨h, by simp⟩
    · have hi : a.At prior i := hmem i (by simp)
      have hrest := runMisses_spec ha (fun j hj => hmem j (mem_cons_of_mem i hj))
        (h.persist ha hi)
      have hran : ran =
          ((i, freshOutput json designOntologyBatch a prior i) ::
            (runMisses json sha256 designOntologyBatch a
              (freshResults json designOntologyBatch a prior) misses
              (persistCheckpoint sha256 a i (freshOutput json designOntologyBatch a prior i)
                checkpoints)).1,
            (runMisses json sha256 designOntologyBatch a
              (freshResults json designOntologyBatch a prior) misses
              (persistCheckpoint sha256 a i (freshOutput json designOntologyBatch a prior i)
                checkpoints)).2) := by
        simp only [ran, runMisses, hfail, if_false, Bool.false_eq_true]
        rfl
      rw [hran]
      refine ⟨hrest.1, fun hok => ?_⟩
      rw [map_cons, ← hrest.2 hok]

theorem replay_faithful {ir : InputOntologyDef}
    (hir : ir = freshOutput json designOntologyBatch a prior i) :
    let r := replay a (freshResults json designOntologyBatch a prior) i ir
    r.output = designOntologyBatch a.promptHash (batchInput json a r.cluster) a.context
      r.existing r.cross := by
  intro r
  exact hir

section

variable (hsha : Injective sha256) (ha : a ∈ attempts)
  (hsame : ∀ b ∈ attempts, b.ontologyDraftId = a.ontologyDraftId → b.sourceId = a.sourceId →
    SameCalls json a b)
include hsha ha hsame

section

variable {p : DesignPass} (hp : Sound json sha256 designOntologyBatch attempts a prior p)
  (hok : p.failed = false)
include hp hok

theorem Sound.designOne (hi : a.At prior i) : Sound json sha256 designOntologyBatch attempts a
    (prior ++ [[i]]) (designOne json sha256 designOntologyBatch a i p) := by
  have hresults := hp.results hok
  have hconcat : freshResults json designOntologyBatch a (prior ++ [[i]]) =
      p.batchResults ++ [freshOutput json designOntologyBatch a prior i] := by
    rw [freshResults_concat, hresults]
    simp [sortedLevel]
  unfold Design.designOne
  split
  · rename_i ir hir
    have hfresh := cached_eq_some hsha hp.authored hsame hi hir
    constructor
    · exact hp.authored
    · intro _
      rw [hconcat, ← hfresh]
    · intro r hr
      rcases mem_append.1 hr with hr | hr
      · exact hp.faithful r hr
      · rw [mem_singleton.1 hr, hresults]
        exact replay_faithful hfresh
  · split
    · exact ⟨hp.authored, fun h => absurd h (by simp), hp.faithful⟩
    · constructor
      · rw [hresults]
        exact hp.authored.persist ha hi
      · intro _
        rw [hconcat, hresults]
        rfl
      · exact hp.faithful

theorem Sound.designMany (hlevel : ∀ i ∈ level, a.At prior i) :
    Sound json sha256 designOntologyBatch attempts a (prior ++ [level])
      (designMany json sha256 designOntologyBatch a level p) := by
  have hresults := hp.results hok
  have hfresh : ∀ i ∈ level, ∀ ir, cached sha256 a p.checkpoints i = some ir →
      ir = freshOutput json designOntologyBatch a prior i := fun i hi ir hir =>
    cached_eq_some hsha hp.authored hsame (hlevel i hi) hir
  -- the hits are the clusters found, with their outputs
  have hhits : (level.filterMap fun i =>
      (cached sha256 a p.checkpoints i).map fun ir => (i, ir)) =
      (level.filter fun i => (cached sha256 a p.checkpoints i).isSome).map fun i =>
        (i, freshOutput json designOntologyBatch a prior i) := by
    clear hlevel
    induction level with
    | nil => rfl
    | cons i level ih =>
      have hrest := ih fun j hj => hfresh j (mem_cons_of_mem i hj)
      cases hir : cached sha256 a p.checkpoints i with
      | none => simp [hir, hrest]
      | some ir => simp [hir, hrest, ← hfresh i (by simp) ir hir]
  have hmisses : ∀ i ∈ level.filter fun i => (cached sha256 a p.checkpoints i).isNone,
      a.At prior i := fun i hi => hlevel i (mem_of_mem_filter hi)
  have hran : Authored json sha256 designOntologyBatch attempts _ ∧ _ :=
    runMisses_spec ha hmisses hp.authored
  unfold Design.designMany
  rw [hresults, hhits]
  constructor
  · exact hran.1
  · intro hok'
    dsimp only at hok' ⊢
    rw [if_neg (by simp [hok']), hran.2 hok', ← map_append, freshResults_concat]
    congr 1
    refine sorted_outputs _ ?_
    simpa using filter_append_perm
      (fun i => (cached sha256 a p.checkpoints i).isSome) level
  · intro r hr
    rcases mem_append.1 hr with hr | hr
    · exact hp.faithful r hr
    · obtain ⟨hit, hhit, rfl⟩ := mem_map.1 hr
      obtain ⟨i, hi, rfl⟩ := mem_map.1 hhit
      exact replay_faithful rfl

theorem Sound.designLevel (hlevel : ∀ i ∈ level, a.At prior i) :
    Sound json sha256 designOntologyBatch attempts a (prior ++ [level])
      (designLevel json sha256 designOntologyBatch a level p) := by
  unfold Design.designLevel
  split
  · exact hp.designOne hsha ha hsame hok (hlevel _ (by simp))
  · exact hp.designMany hsha ha hsame hok hlevel

end

theorem Sound.designLevels {levels : List (List Nat)} :
    ∀ {prior : List (List Nat)} {p : DesignPass},
      Sound json sha256 designOntologyBatch attempts a prior p → p.failed = false →
      a.plan.levels = prior ++ levels →
      Sound json sha256 designOntologyBatch attempts a a.plan.levels
        (designLevels json sha256 designOntologyBatch a levels p) := by
  induction levels with
  | nil =>
    intro prior p hp _ hlevels
    rw [hlevels, append_nil]
    exact hp
  | cons level levels ih =>
    intro prior p hp hok hlevels
    have hlevel := hp.designLevel hsha ha hsame hok fun i hi => ⟨level, levels, hlevels, hi⟩
    unfold Design.designLevels
    dsimp only
    split
    · rename_i hfail
      exact ⟨hlevel.authored, fun h => absurd h (by simp [hfail]), hlevel.faithful⟩
    · rename_i hfail
      exact ih hlevel (by simpa using hfail) (by simpa using hlevels)

theorem designPass_sound (h : Authored json sha256 designOntologyBatch attempts checkpoints) :
    Sound json sha256 designOntologyBatch attempts a a.plan.levels
      (designPass json sha256 designOntologyBatch a checkpoints) :=
  have hstart : Sound json sha256 designOntologyBatch attempts a []
      { checkpoints := checkpoints } := ⟨h, fun _ => rfl, fun r hr => absurd hr (by simp)⟩
  Sound.designLevels hsha ha hsame hstart rfl rfl

end

theorem runMisses_ok (hcalls : ∀ i, a.callFails i = false) (results : List InputOntologyDef) :
    ∀ (misses : List Nat) (checkpoints : List DraftClusterCheckpoint),
      (runMisses json sha256 designOntologyBatch a results misses checkpoints).2.2 = false
  | [], _ => rfl
  | i :: misses, checkpoints => by
    rw [runMisses, if_neg (by simp [hcalls i])]
    exact runMisses_ok hcalls results misses _

/-- An attempt in which no call fails reaches its last level. -/
theorem designLevels_ok (hcalls : ∀ i, a.callFails i = false) :
    ∀ (levels : List (List Nat)) {p : DesignPass}, p.failed = false →
      (designLevels json sha256 designOntologyBatch a levels p).failed = false
  | [], _, hok => hok
  | level :: levels, p, hok => by
    have hlevel :
        (Design.designLevel json sha256 designOntologyBatch a level p).failed = false := by
      unfold Design.designLevel
      split
      · unfold Design.designOne
        split
        · exact hok
        · rw [if_neg (by simp [hcalls])]
          exact hok
      · exact runMisses_ok hcalls _ _ _
    rw [Design.designLevels, if_neg (by simp [hlevel])]
    exact designLevels_ok hcalls levels hlevel

theorem SameCalls.withoutCheckpoints (h : SameCalls json a a) :
    SameCalls json a.withoutCheckpoints a.withoutCheckpoints := by
  intro pa i pb j hi hj htext
  have hcall := h pa i pb j hi hj htext
  exact ⟨hcall.tables, hcall.crossFks, hcall.input, hcall.context, hcall.prior⟩

theorem storedOntology_withoutCheckpoints (hsha : Injective sha256)
    (hself : SameCalls json a a) :
    storedOntology json sha256 designOntologyBatch a.withoutCheckpoints [] =
      a.conclude (freshResults json designOntologyBatch a a.plan.levels) := by
  have hsound : Sound json sha256 designOntologyBatch [a.withoutCheckpoints] a.withoutCheckpoints
      a.withoutCheckpoints.plan.levels
      (designPass json sha256 designOntologyBatch a.withoutCheckpoints []) :=
    designPass_sound hsha (by simp)
      (fun b hb _ _ => by rw [mem_singleton.1 hb]; exact hself.withoutCheckpoints)
      (fun c hc => absurd hc (by simp))
  have hok : (designPass json sha256 designOntologyBatch a.withoutCheckpoints []).failed = false :=
    designLevels_ok (fun _ => rfl) _ rfl
  unfold storedOntology
  rw [if_neg (by simp [hok]), hsound.results hok]
  rfl

theorem faithful_of_authored (hsha : Injective sha256)
    (hsame : ∀ b ∈ a :: attempts, b.ontologyDraftId = a.ontologyDraftId →
      b.sourceId = a.sourceId → SameCalls json a b)
    (h : Authored json sha256 designOntologyBatch attempts checkpoints) :
    Faithful json sha256 designOntologyBatch a checkpoints := by
  have hsound := designPass_sound hsha mem_cons_self hsame (h.cons a)
  constructor
  · exact hsound.faithful
  · intro o ho
    rw [storedOntology_withoutCheckpoints hsha (hsame a (by simp) rfl rfl)]
    unfold storedOntology at ho
    dsimp only at ho
    split at ho
    · exact absurd ho (by simp)
    · rename_i hfail
      rw [← hsound.results (by simpa using hfail)]
      exact ho

end

/-- A place in some levels is told by its cluster, when no cluster comes twice. -/
theorem prior_unique {i : Nat} :
    ∀ {pa pb : List (List Nat)} {la lb : List Nat} {ra rb : List (List Nat)},
      (pa ++ la :: ra).flatten.Nodup → pa ++ la :: ra = pb ++ lb :: rb → i ∈ la → i ∈ lb → pa = pb
  | [], [], _, _, _, _, _, _, _, _ => rfl
  | [], _ :: pb, la, lb, _, rb, hnd, heq, hia, hib => by
    rw [nil_append, cons_append, List.cons.injEq] at heq
    obtain ⟨rfl, rfl⟩ := heq
    have hrest : i ∈ (pb ++ lb :: rb).flatten := mem_flatten.2 ⟨lb, by simp, hib⟩
    simp only [nil_append, flatten_cons] at hnd
    exact absurd hrest (disjoint_of_nodup_append hnd hia)
  | l :: pa, [], la, lb, ra, _, hnd, heq, hia, hib => by
    rw [nil_append, cons_append, List.cons.injEq] at heq
    obtain ⟨rfl, rfl⟩ := heq
    have hrest : i ∈ (pa ++ la :: ra).flatten := mem_flatten.2 ⟨la, by simp, hia⟩
    simp only [cons_append, flatten_cons] at hnd
    exact absurd hrest (disjoint_of_nodup_append hnd hib)
  | l :: pa, l' :: pb, la, lb, ra, rb, hnd, heq, hia, hib => by
    rw [cons_append, cons_append, List.cons.injEq] at heq
    rw [heq.1]
    simp only [cons_append, flatten_cons] at hnd
    rw [prior_unique hnd.of_append_right heq.2 hia hib]

/-- An unchanged request calls the model as before, when its clusters are digested apart. -/
theorem sameCalls_of_repeated (json : JsonWriter) {a : DesignAttempt}
    (hsource : a.source = b.source) (hoptions : a.options = b.options)
    (hconfig : a.config = b.config) (hcontext : a.context = b.context)
    (hhash : a.promptHash = b.promptHash)
    (hapart : ∀ i j, i ∈ a.plan.levels.flatten → j ∈ a.plan.levels.flatten →
      a.signatureText i = a.signatureText j → i = j) : SameCalls json a b := by
  intro pa i pb j hi hj htext
  have hschema : a.schema = b.schema := by
    unfold DesignAttempt.schema
    rw [hsource, hoptions]
  have hprofile : a.profile = b.profile := by
    unfold DesignAttempt.profile
    rw [hsource, hoptions]
  have hplan : a.plan = b.plan := by
    unfold DesignAttempt.plan
    rw [hschema, hsource, hconfig]
  have hcluster : a.cluster = b.cluster := by
    funext k
    unfold DesignAttempt.cluster
    rw [hplan]
  have htexts : a.signatureText = b.signatureText := by
    funext k
    unfold DesignAttempt.signatureText
    rw [hcluster, hhash]
  obtain ⟨la, ra, hla, hila⟩ := hi
  obtain ⟨lb, rb, hlb, hjlb⟩ := hj
  rw [← hplan] at hlb
  have hij : i = j := by
    refine hapart i j ?_ ?_ (by rw [htext, htexts])
    · exact mem_flatten.2 ⟨la, by rw [hla]; simp, hila⟩
    · exact mem_flatten.2 ⟨lb, by rw [hlb]; simp, hjlb⟩
  subst hij
  have hnd : a.plan.levels.flatten.Nodup := by
    exact clusterTables_levels.nodup_iff.2 nodup_range
  have hprior : pa = pb := by
    rw [hla] at hnd
    exact prior_unique hnd (hla.symm.trans hlb) hila hjlb
  constructor
  · intro t
    rw [hcluster]
  · rw [hcluster]
  · unfold batchInput
    rw [hschema, hprofile, hcluster, hconfig]
  · exact hcontext
  · unfold DesignAttempt.priorTexts
    rw [hprior, htexts]

section

variable {json : JsonWriter} {sha256 : String → String}
  {designOntologyBatch : PromptHash → String → String → String → String → InputOntologyDef}

theorem runDesigns_concat (events : List DesignEvent) (e : DesignEvent) :
    runDesigns json sha256 designOntologyBatch (events ++ [e]) =
      (runDesigns json sha256 designOntologyBatch events).step
        json sha256 designOntologyBatch e := by
  unfold runDesigns
  rw [foldl_append]
  rfl

theorem mem_attempts_runDesigns (events : List DesignEvent) :
    b ∈ (runDesigns json sha256 designOntologyBatch events).attempts → .attempt b ∈ events := by
  induction events using reverseRecOn with
  | nil => simp [runDesigns]
  | append_singleton events e ih =>
    intro hb
    rw [runDesigns_concat] at hb
    cases e with
    | sweep expired => simpa using ih hb
    | attempt a =>
      have hmem : b ∈ a :: (runDesigns json sha256 designOntologyBatch events).attempts := by
        simp only [DesignHistory.step] at hb
        split at hb
        · exact mem_of_mem_filter hb
        · exact hb
      rcases mem_cons.1 hmem with rfl | hmem
      · simp
      · simpa using Or.inl (ih hmem)

/-- A run is stable when the attempts on one draft and source call the model alike. -/
theorem stable_of_sameCalls {events : List DesignEvent}
    (h : ∀ a b, .attempt a ∈ events → .attempt b ∈ events →
      b.ontologyDraftId = a.ontologyDraftId → b.sourceId = a.sourceId → SameCalls json a b) :
    Stable json sha256 designOntologyBatch events := by
  intro before a after heq b hb
  refine h a b (by rw [heq]; simp) ?_
  rcases mem_cons.1 hb with rfl | hb
  · rw [heq]
    simp
  · rw [heq]
    exact mem_append_left _ (mem_attempts_runDesigns before hb)

theorem Authored.drop (h : Authored json sha256 designOntologyBatch attempts checkpoints)
    (id : String) :
    Authored json sha256 designOntologyBatch (attempts.filter fun b => b.ontologyDraftId ≠ id)
      (checkpoints.filter fun c => c.ontologyDraftId ≠ id) := by
  intro c hc
  obtain ⟨hmem, hid⟩ := mem_filter.1 hc
  obtain ⟨b, hb, prior, j, hauthored⟩ := h c hmem
  refine ⟨b, mem_filter.2 ⟨hb, ?_⟩, prior, j, hauthored⟩
  have hdraft : c.ontologyDraftId = b.ontologyDraftId := congrArg Prod.fst hauthored.key
  rw [← hdraft]
  exact hid

theorem Authored.step {h : DesignHistory} {e : DesignEvent} (hsha : Injective sha256)
    (hauthored : Authored json sha256 designOntologyBatch h.attempts h.checkpoints)
    (hsame : ∀ a, e = .attempt a → ∀ b ∈ a :: h.attempts,
      b.ontologyDraftId = a.ontologyDraftId → b.sourceId = a.sourceId → SameCalls json a b) :
    Authored json sha256 designOntologyBatch (h.step json sha256 designOntologyBatch e).attempts
      (h.step json sha256 designOntologyBatch e).checkpoints := by
  cases e with
  | sweep expired =>
    intro c hc
    exact hauthored c (mem_of_mem_filter hc)
  | attempt a =>
    have hpass := (designPass_sound hsha mem_cons_self (hsame a rfl) (hauthored.cons a)).authored
    simp only [DesignHistory.step, checkpointsAfter]
    by_cases hdrops : drops json sha256 designOntologyBatch a h.checkpoints
    · rw [if_pos hdrops, if_pos hdrops]
      exact hpass.drop a.ontologyDraftId
    · rw [if_neg hdrops, if_neg hdrops]
      exact hpass

/-- Whatever fails and is swept, the table of a stable run is its attempts'. -/
theorem runDesigns_authored (hsha : Injective sha256) (events : List DesignEvent) :
    Stable json sha256 designOntologyBatch events → Authored json sha256 designOntologyBatch
        (runDesigns json sha256 designOntologyBatch events).attempts
        (runDesigns json sha256 designOntologyBatch events).checkpoints := by
  induction events using reverseRecOn with
  | nil =>
    intro _ c hc
    exact absurd hc (by simp [runDesigns])
  | append_singleton events e ih =>
    intro hstable
    have hbefore : Stable json sha256 designOntologyBatch events := fun before a after heq =>
      hstable before a (after ++ [e]) (by simp [heq])
    rw [runDesigns_concat]
    refine (ih hbefore).step hsha ?_
    intro a he
    exact hstable events a [] (by rw [he])

/-- In a stable run, each attempt replays faithfully. -/
theorem replays_of_stable (json : JsonWriter) (sha256 : String → String)
    (hsha : Injective sha256)
    (designOntologyBatch : PromptHash → String → String → String → String → InputOntologyDef)
    (events : List DesignEvent) (hstable : Stable json sha256 designOntologyBatch events) :
    Replays json sha256 designOntologyBatch events := by
  intro before a after heq
  have hbefore : Stable json sha256 designOntologyBatch before := fun pre b post hpre =>
    hstable pre b (post ++ .attempt a :: after) (by simp [heq, hpre])
  exact faithful_of_authored hsha (hstable before a after heq)
    (runDesigns_authored hsha before hbefore)

end

/-- A model that answers with one node, named as the batch it was given. -/
def echo (_ : PromptHash) (batch _ _ _ : String) : InputOntologyDef where
  formatVersion := 1
  id := none
  name := ""
  description := .new ""
  version := 1
  nodeTypes := [⟨none, batch, .new "", none, [], []⟩]
  edgeTypes := []
  indexes := []

/-- A design of the accounts whose ontology is not stored. -/
def accountsAttempt : DesignAttempt where
  ontologyDraftId := "draft"
  sourceId := "accounts.csv"
  promptHash := ⟨String.ofList (List.replicate 64 '0'), by decide⟩
  source := accounts ["number"]
  options := {}
  config := { largeSchemaWarningThreshold := 1 }
  context := ""

theorem accountsAttempt_levels : accountsAttempt.plan.levels = [[0]] := by decide +kernel

/-- A design that comes to nothing is taken up again as it was. -/
theorem accounts_retried :
    Replays minifiedJson id echo [.attempt accountsAttempt, .attempt accountsAttempt] := by
  have hsame : SameCalls minifiedJson accountsAttempt accountsAttempt := by
    refine sameCalls_of_repeated minifiedJson rfl rfl rfl rfl rfl fun i j hi hj _ => ?_
    rw [accountsAttempt_levels] at hi hj
    simp only [flatten_cons, flatten_nil, append_nil, mem_singleton] at hi hj
    rw [hi, hj]
  refine replays_of_stable minifiedJson id injective_id echo _ (stable_of_sameCalls ?_)
  intro a b ha hb _ _
  simp only [mem_cons, DesignEvent.attempt.injEq, not_mem_nil, or_false, or_self] at ha hb
  rw [ha, hb]
  exact hsame

/-- The design is taken up again with the social security number withheld. -/
def withheldAttempt : DesignAttempt :=
  { accountsAttempt with options := { excludedColumns := [⟨"accounts", "ssn"⟩] } }

/-- What is replayed names the column that has been excluded. -/
theorem withheld_replayed :
    ¬Replays minifiedJson id echo [.attempt accountsAttempt, .attempt withheldAttempt] := by
  intro h
  have hfaithful := (h [.attempt accountsAttempt] withheldAttempt [] rfl).output_eq
  have hlabels : ∀ r ∈ (designPass minifiedJson id echo withheldAttempt
      (runDesigns minifiedJson id echo [.attempt accountsAttempt]).checkpoints).replayed,
      r.output.nodeTypes.map (·.label) =
        [batchInput minifiedJson withheldAttempt r.cluster] := by
    intro r hr
    rw [hfaithful r hr]
    rfl
  revert hlabels
  decide +kernel

end Ontosyx.Design
