import Ontosyx.Api.Idempotency

/-!
# Idempotency keys and their gaps

The record is looked up before the handler runs and written after it, under a key
that leaves the query string out.  A key gives at-most-once execution in every
run in which no request is looked up while another one with its key is between
the two, every completed response can be recorded and is, and no expired row is
in the way.

## Main results

* `Kept.step` — one step in order keeps the invariant.
* `atMostOnce_run` — a run in order completes the handler once a window, answers
  alike, and replays to a request only what was recorded for its body and query.
-/

namespace Ontosyx.Api

open List

section

variable {ι H : Type} (layer : Layer H) (request : ι → Request)

/-- Two requests carry the same key from the same caller, with the same method,
path and body. -/
def SameCall (a b : Request) : Prop :=
  a.key ≠ none ∧ a = { b with query := a.query }

/-- The handler completed with a success. -/
def ApiEvent.Succeeded (e : ApiEvent ι H) (i : ι) (r : Response) (time : Nat) : Prop :=
  e = .handled i r time ∧ r.isError = false

/-- A request was answered with a response that is not an error. -/
def ApiEvent.Answered (e : ApiEvent ι H) (i : ι) (r : Response) (time : Nat) : Prop :=
  (e = .answered i r time ∨ ∃ record, e = .replayed i record time ∧ replay record = r) ∧
    r.isError = false

/-- The promise of a key: between two completions of the same call lies a replay
window; an answer in the window of a completion has its status and body; and a
record is replayed only to a call with the body and the query it was made for. -/
structure Promised (log : List (ApiEvent ι H)) : Prop where
  once : log.Pairwise fun a b => ∀ i j r r' t t', a.Succeeded i r t → b.Succeeded j r' t' →
    SameCall (request i) (request j) → t + replayTtl ≤ t'
  alike : log.Pairwise fun a b => ∀ i j r r' t t', a.Succeeded i r t → b.Answered j r' t' →
    SameCall (request i) (request j) → t' < t + replayTtl → r'.status = r.status ∧ r'.body = r.body
  own : ∀ i record time, .replayed i record time ∈ log → ∃ j r t scope hash,
    .handled j r t ∈ log ∧ record = recordOf scope hash r t ∧
      (request i).body = (request j).body ∧ (request i).query = (request j).query

/-- A request is past its lookup and not yet answered. -/
def Phase.Holds (scope : Scope) : Phase H → Prop
  | .running held _ => held = scope
  | .recording record _ => record.scope = scope
  | .arrived | .passing | .answered => False

/-- The condition of a step.  A request with a key is not waved through; no
request with its key is between lookup and answer when it is looked up, and no
expired row is there; a success of its handler can be recorded; and the write
succeeds. -/
def InOrderAt (s : ApiState ι H) : Move ι → Prop
  | .lookup i stored => s.phase i = .arrived →
      (admission layer (request i) = .through → (request i).key = none) ∧
      ∀ scope hash, admission layer (request i) = .guarded scope hash → stored = true →
        (∀ j, ¬(s.phase j).Holds scope) ∧
          ∀ record ∈ s.records, record.scope = scope → s.now < record.expiresAt
  | .handle i response => (∃ scope hash, s.phase i = .running scope hash) →
      response.isError = false → response.isStreaming = false ∧
        response.body.length ≤ maxBufferedResponseBytes
  | .record _ stored => stored = true
  | .sweep | .tick _ => True

/-- A run whose steps all meet the condition. -/
def RunInOrder [DecidableEq ι] [DecidableEq H] (s : ApiState ι H) : List (Move ι) → Prop
  | [] => True
  | m :: moves => InOrderAt layer request s m ∧ RunInOrder (s.step layer request m) moves

/-- The condition on the requests: no two of them are stored under one key with
one hash and differ in body or query. -/
def HashesApart : Prop :=
  ∀ i j scope hash, admission layer (request i) = .guarded scope hash →
    admission layer (request j) = .guarded scope hash →
    (request i).body = (request j).body ∧ (request i).query = (request j).query

/-- A completion and the row it is recorded in. -/
def Recorded (s : ApiState ι H) (i : ι) (r : Response) (t : Nat)
    (record : IdempotencyRecord H) : Prop :=
  .handled i r t ∈ s.log ∧ r.isError = false ∧ ∃ scope hash,
    admission layer (request i) = .guarded scope hash ∧ record = recordOf scope hash r t

/-- What holds between the steps. -/
structure Kept (s : ApiState ι H) : Prop where
  promised : Promised request s.log
  /-- A completion is past its window, in a row, or about to be written. -/
  completed : ∀ i r t scope hash, .handled i r t ∈ s.log → r.isError = false →
    admission layer (request i) = .guarded scope hash →
    t + replayTtl ≤ s.now ∨ recordOf scope hash r t ∈ s.records ∨
      s.phase i = .recording (recordOf scope hash r t) r
  rows : ∀ record ∈ s.records, ∃ i r t, Recorded layer request s i r t record
  oneRow : ∀ a ∈ s.records, ∀ b ∈ s.records, a.scope = b.scope → a = b
  passing : ∀ i, s.phase i = .passing → (request i).key = none
  running : ∀ i scope hash, s.phase i = .running scope hash →
    admission layer (request i) = .guarded scope hash
  recording : ∀ i record r, s.phase i = .recording record r →
    ∃ t, Recorded layer request s i r t record
  single : ∀ i j scope, (s.phase i).Holds scope → (s.phase j).Holds scope → i = j
  noRow : ∀ i scope, (s.phase i).Holds scope → ∀ record ∈ s.records, record.scope ≠ scope

variable {layer request} {s : ApiState ι H} {log : List (ApiEvent ι H)}

/-- The layer does not read the query string. -/
theorem SameCall.admission_eq {a b : Request} (h : SameCall a b) :
    admission layer a = admission layer b := by
  rw [h.2]
  rfl

theorem SameCall.key_ne {a b : Request} (h : SameCall a b) : b.key ≠ none := by
  have hkey : a.key = b.key := by rw [h.2]
  rw [← hkey]
  exact h.1

theorem Promised.append_one (h : Promised request log) {e : ApiEvent ι H}
    (honce : ∀ a ∈ log, ∀ i j r r' t t', a.Succeeded i r t → e.Succeeded j r' t' →
      SameCall (request i) (request j) → t + replayTtl ≤ t')
    (halike : ∀ a ∈ log, ∀ i j r r' t t', a.Succeeded i r t → e.Answered j r' t' →
      SameCall (request i) (request j) → t' < t + replayTtl →
        r'.status = r.status ∧ r'.body = r.body)
    (hown : ∀ i record time, e = .replayed i record time → ∃ j r t scope hash,
      .handled j r t ∈ log ∧ record = recordOf scope hash r t ∧
        (request i).body = (request j).body ∧ (request i).query = (request j).query) :
    Promised request (log ++ [e]) where
  once := pairwise_append.2 ⟨h.once, pairwise_singleton _ _, fun a ha b hb => by
    rw [mem_singleton.1 hb]
    exact honce a ha⟩
  alike := pairwise_append.2 ⟨h.alike, pairwise_singleton _ _, fun a ha b hb => by
    rw [mem_singleton.1 hb]
    exact halike a ha⟩
  own i record time hmem := by
    have hlast : ∃ j r t scope hash, .handled j r t ∈ log ∧ record = recordOf scope hash r t ∧
        (request i).body = (request j).body ∧ (request i).query = (request j).query := by
      rcases mem_append.1 hmem with hmem | hmem
      · exact h.own i record time hmem
      · exact hown i record time (mem_singleton.1 hmem).symm
    obtain ⟨j, r, t, scope, hash, hj, hrest⟩ := hlast
    exact ⟨j, r, t, scope, hash, mem_append_left _ hj, hrest⟩

/-- An error, of the layer or of the handler, promises nothing. -/
theorem Promised.append_quiet (h : Promised request log) {e : ApiEvent ι H}
    (hsucceeded : ∀ i r t, e.Succeeded i r t → (request i).key = none)
    (hanswered : ∀ i r t, e.Answered i r t → (request i).key = none)
    (hreplayed : ∀ i record t, e ≠ .replayed i record t) : Promised request (log ++ [e]) := by
  refine h.append_one ?_ ?_ ?_
  · intro a _ i j r r' t t' _ hj hsame
    exact absurd (hsucceeded j r' t' hj) hsame.key_ne
  · intro a _ i j r r' t t' _ hj hsame
    exact absurd (hanswered j r' t' hj) hsame.key_ne
  · intro i record time he
    exact absurd he (hreplayed i record time)

end

/-! ## One step -/

section

variable {ι H : Type} [DecidableEq ι] {layer : Layer H} {request : ι → Request}
  {s t : ApiState ι H}

variable {i : ι}

variable (h : Kept layer request s)
include h

/-- A request moves on: what it says is promised, the row it was about to write is written,
and where it goes is in order. -/
theorem Kept.move {phase : Phase H} {events : List (ApiEvent ι H)}
    {rows : List (IdempotencyRecord H)}
    (hphase : t.phase = Function.update s.phase i phase) (hlog : t.log = s.log ++ events)
    (hnow : t.now = s.now) (hrecords : t.records = s.records ++ rows)
    (hpromised : Promised request (s.log ++ events))
    (hcompleted : ∀ j r time scope hash, .handled j r time ∈ events → r.isError = false →
      admission layer (request j) = .guarded scope hash →
        j = i ∧ phase = .recording (recordOf scope hash r time) r)
    (hwritten : ∀ record r, s.phase i = .recording record r → record ∈ rows)
    (hrows : ∀ record ∈ rows, ∃ r, s.phase i = .recording record r)
    (hpassing : phase = .passing → (request i).key = none)
    (hrunning : ∀ scope hash, phase = .running scope hash →
      admission layer (request i) = .guarded scope hash)
    (hrecording : ∀ record r, phase = .recording record r →
      ∃ time, Recorded layer request t i r time record) (hfree : ∀ scope, phase.Holds scope →
      (∀ j ≠ i, ¬(s.phase j).Holds scope) ∧ ∀ record ∈ s.records ++ rows, record.scope ≠ scope) :
    Kept layer request t := by
  have hother : ∀ j, j ≠ i → t.phase j = s.phase j := fun j hj => by
    rw [hphase, Function.update_of_ne hj]
  have hself : t.phase i = phase := by rw [hphase, Function.update_self]
  have hholds : ∀ record ∈ rows, (s.phase i).Holds record.scope := by
    intro record hrecord
    obtain ⟨r, hr⟩ := hrows record hrecord
    rw [hr]
    rfl
  have hgrown : ∀ {j r time record}, Recorded layer request s j r time record →
      Recorded layer request t j r time record := by
    intro j r time record hrecorded
    refine ⟨?_, hrecorded.2⟩
    rw [hlog]
    exact mem_append_left _ hrecorded.1
  constructor
  · rw [hlog]
    exact hpromised
  · intro j r time scope hash hmem hok hguarded
    rw [hlog] at hmem
    rcases mem_append.1 hmem with hmem | hmem
    · rw [hnow, hrecords]
      rcases h.completed j r time scope hash hmem hok hguarded with hpast | hrow | hwriting
      · exact .inl hpast
      · exact .inr (.inl (mem_append_left _ hrow))
      · by_cases hj : j = i
        · rw [hj] at hwriting
          exact .inr (.inl (mem_append_right _ (hwritten _ _ hwriting)))
        · exact .inr (.inr ((hother j hj).trans hwriting))
    · obtain ⟨hj, hto⟩ := hcompleted j r time scope hash hmem hok hguarded
      exact .inr (.inr (by rw [hj, hself, hto]))
  · intro record hrecord
    rw [hrecords] at hrecord
    rcases mem_append.1 hrecord with hrecord | hrecord
    · obtain ⟨j, r, time, hrecorded⟩ := h.rows record hrecord
      exact ⟨j, r, time, hgrown hrecorded⟩
    · obtain ⟨r, hr⟩ := hrows record hrecord
      obtain ⟨time, hrecorded⟩ := h.recording i record r hr
      exact ⟨i, r, time, hgrown hrecorded⟩
  · rw [hrecords]
    intro a ha b hb hab
    rcases mem_append.1 ha with ha | ha
    · rcases mem_append.1 hb with hb | hb
      · exact h.oneRow a ha b hb hab
      · exact absurd hab (h.noRow i _ (hholds b hb) a ha)
    · rcases mem_append.1 hb with hb | hb
      · exact absurd hab.symm (h.noRow i _ (hholds a ha) b hb)
      · obtain ⟨r, hr⟩ := hrows a ha
        obtain ⟨r', hr'⟩ := hrows b hb
        cases hr.symm.trans hr'
        rfl
  · intro j hj
    by_cases hji : j = i
    · rw [hji, hself] at hj
      rw [hji]
      exact hpassing hj
    · rw [hother j hji] at hj
      exact h.passing j hj
  · intro j scope hash hj
    by_cases hji : j = i
    · rw [hji, hself] at hj
      rw [hji]
      exact hrunning scope hash hj
    · rw [hother j hji] at hj
      exact h.running j scope hash hj
  · intro j record r hj
    by_cases hji : j = i
    · rw [hji, hself] at hj
      rw [hji]
      exact hrecording record r hj
    · rw [hother j hji] at hj
      obtain ⟨time, hrecorded⟩ := h.recording j record r hj
      exact ⟨time, hgrown hrecorded⟩
  · intro j k scope hj hk
    by_cases hji : j = i
    · rw [hji, hself] at hj
      by_cases hki : k = i
      · rw [hji, hki]
      · rw [hother k hki] at hk
        exact absurd hk ((hfree scope hj).1 k hki)
    · rw [hother j hji] at hj
      by_cases hki : k = i
      · rw [hki, hself] at hk
        exact absurd hj ((hfree scope hk).1 j hji)
      · rw [hother k hki] at hk
        exact h.single j k scope hj hk
  · intro j scope hj record hrecord
    rw [hrecords] at hrecord
    by_cases hji : j = i
    · rw [hji, hself] at hj
      exact (hfree scope hj).2 record hrecord
    · rw [hother j hji] at hj
      rcases mem_append.1 hrecord with hrecord | hrecord
      · exact h.noRow j scope hj record hrecord
      · rintro rfl
        exact hji (h.single j i _ hj (hholds record hrecord))

/-- A request leaves a phase in which it holds no row, without a completion. -/
theorem Kept.leave {phase : Phase H} {events : List (ApiEvent ι H)}
    (hnow : t.now = s.now) (hrecords : t.records = s.records)
    (hphase : t.phase = Function.update s.phase i phase) (hlog : t.log = s.log ++ events)
    (hfrom : ∀ record r, s.phase i ≠ .recording record r)
    (hto : phase = .answered ∨ phase = .passing ∧ (request i).key = none)
    (hevents : ∀ j r time scope hash, .handled j r time ∈ events → r.isError = false →
      admission layer (request j) ≠ .guarded scope hash)
    (hpromised : Promised request (s.log ++ events)) : Kept layer request t := by
  refine h.move hphase hlog hnow (hrecords.trans (append_nil _).symm) hpromised ?_ ?_ nofun
    ?_ ?_ ?_ ?_
  · intro j r time scope hash hmem hok hguarded
    exact absurd hguarded (hevents j r time scope hash hmem hok)
  · intro record r hwriting
    exact absurd hwriting (hfrom record r)
  · rintro rfl
    rcases hto with hto | ⟨-, hkey⟩
    · cases hto
    · exact hkey
  · rintro scope hash rfl
    rcases hto with hto | ⟨hto, -⟩ <;> cases hto
  · rintro record r rfl
    rcases hto with hto | ⟨hto, -⟩ <;> cases hto
  · intro scope hscope
    rcases hto with rfl | ⟨rfl, -⟩
    · exact hscope.elim
    · exact hscope.elim

/-- A request goes on to its handler, when nobody else is there and no row is. -/
theorem Kept.enter_running {scope : Scope} {hash : H}
    (hguarded : admission layer (request i) = .guarded scope hash) (hfrom : s.phase i = .arrived)
    (hfree : ∀ j, ¬(s.phase j).Holds scope) (hrows : ∀ record ∈ s.records, record.scope ≠ scope) :
    Kept layer request (s.enter i (.running scope hash)) := by
  refine h.move rfl (append_nil _).symm rfl (append_nil _).symm ?_ nofun ?_ nofun nofun
    ?_ nofun ?_
  · rw [append_nil]
    exact h.promised
  · intro record r hwriting
    rw [hfrom] at hwriting
    cases hwriting
  · rintro scope' hash' ⟨⟩
    exact hguarded
  · rintro held rfl
    rw [append_nil]
    exact ⟨fun j _ => hfree j, hrows⟩

/-- The handler completes with a success that can be recorded. -/
theorem Kept.complete {scope : Scope} {hash : H} {r : Response}
    (hfrom : s.phase i = .running scope hash) (hok : r.isError = false)
    (hphase : t.phase = Function.update s.phase i (.recording (recordOf scope hash r s.now) r))
    (hlog : t.log = s.log ++ [.handled i r s.now]) (hnow : t.now = s.now)
    (hrecords : t.records = s.records) : Kept layer request t := by
  have hguarded := h.running i scope hash hfrom
  have hheld : (s.phase i).Holds scope := by
    rw [hfrom]
    rfl
  refine h.move hphase hlog hnow (hrecords.trans (append_nil _).symm) ?_ ?_ ?_ nofun nofun
    nofun ?_ ?_
  · refine h.promised.append_one ?_ ?_ ?_
    · -- an earlier completion is past its window: its row or its writer would be in the way
      intro a ha j k q q' time time' ⟨hj, hjok⟩ ⟨hk, _⟩ hsame
      cases hk
      rw [hj] at ha
      rcases h.completed j q time scope hash ha hjok (hsame.admission_eq.trans hguarded) with
        hpast | hrow | hwriting
      · exact hpast
      · exact absurd rfl (h.noRow i scope hheld _ hrow)
      · have hji : j = i := by
          refine h.single j i scope ?_ hheld
          rw [hwriting]
          rfl
        rw [hji, hfrom] at hwriting
        cases hwriting
    · intro a _ j k q q' time time' _ ⟨hk, _⟩
      rcases hk with hk | ⟨record, hk, -⟩
      · cases hk
      · cases hk
    · intro j record time hj
      cases hj
  · intro j q time scope' hash' hmem _ hj
    cases mem_singleton.1 hmem
    rw [hguarded] at hj
    cases hj
    exact ⟨rfl, rfl⟩
  · intro record q hwriting
    rw [hfrom] at hwriting
    cases hwriting
  · rintro record q ⟨⟩
    refine ⟨s.now, ?_, hok, scope, hash, hguarded, rfl⟩
    rw [hlog]
    exact mem_append_right _ (mem_singleton_self _)
  · rintro held rfl
    rw [append_nil]
    exact ⟨fun j hji hj => hji (h.single j i _ hj hheld), h.noRow i _ hheld⟩

theorem Kept.write {record : IdempotencyRecord H} {r : Response}
    (hfrom : s.phase i = .recording record r)
    (hphase : t.phase = Function.update s.phase i .answered)
    (hlog : t.log = s.log ++ [.answered i r s.now]) (hnow : t.now = s.now)
    (hrecords : t.records = s.records ++ [record]) : Kept layer request t := by
  obtain ⟨made, hmade, hok, scope, hash, hguarded, hrecord⟩ := h.recording i record r hfrom
  have hheld : (s.phase i).Holds scope := by
    rw [hfrom, hrecord]
    rfl
  refine h.move hphase hlog hnow hrecords ?_ ?_ ?_ ?_ nofun nofun nofun fun _ => False.elim
  · refine h.promised.append_one ?_ ?_ ?_
    · intro a _ j k q q' time time' _ ⟨hk, _⟩
      cases hk
    · intro a ha j k q q' time time' ⟨hj, hjok⟩ ⟨hk, _⟩ hsame hwindow
      rcases hk with hk | ⟨rec, hk, -⟩
      · cases hk
        rw [hj] at ha
        rcases h.completed j q time scope hash ha hjok (hsame.admission_eq.trans hguarded) with
          hpast | hrow | hwriting
        · omega
        · exact absurd rfl (h.noRow i scope hheld _ hrow)
        · have hji : j = i := by
            refine h.single j i scope ?_ hheld
            rw [hwriting]
            rfl
          rw [hji, hfrom] at hwriting
          cases hwriting
          exact ⟨rfl, rfl⟩
      · cases hk
    · intro j rec time hj
      cases hj
  · intro j q time scope' hash' hmem
    cases mem_singleton.1 hmem
  · intro rec q hwriting
    rw [hfrom] at hwriting
    cases hwriting
    exact mem_singleton_self _
  · intro rec hrec
    rw [mem_singleton.1 hrec]
    exact ⟨r, hfrom⟩

theorem Kept.refuse (hfrom : s.phase i = .arrived) (e : LayerError) :
    Kept layer request (s.finish i [.refused i e]) := by
  refine h.leave rfl rfl rfl rfl (fun record r hwriting => ?_) (.inl rfl) ?_ ?_
  · rw [hfrom] at hwriting
    cases hwriting
  · intro j r time scope hash hmem
    cases mem_singleton.1 hmem
  · refine h.promised.append_quiet ?_ ?_ ?_
    · intro j r time hj
      cases hj.1
    · intro j r time hj
      rcases hj.1 with hj | ⟨record, hj, -⟩
      · cases hj
      · cases hj
    · intro j record time hj
      cases hj

/-- The handler of a request answers, and what it completed promises nothing: it
is an error, or the request carries no key. -/
theorem Kept.answer_quiet {r : Response} (hfrom : ∀ record q, s.phase i ≠ .recording record q)
    (hquiet : r.isError = true ∨ (request i).key = none) :
    Kept layer request (s.finish i [.handled i r s.now, .answered i r s.now]) := by
  have hsilent : r.isError = false → (request i).key = none := by
    intro hok
    rcases hquiet with herror | hkey
    · rw [hok] at herror
      cases herror
    · exact hkey
  refine h.leave rfl rfl rfl rfl hfrom (.inl rfl) ?_ ?_
  · intro j q time scope hash hmem hok hguarded
    rcases mem_cons.1 hmem with hmem | hmem
    · cases hmem
      have hthrough : admission layer (request i) = .through := by
        unfold admission extractKey
        rw [hsilent hok]
        rfl
      rw [hthrough] at hguarded
      cases hguarded
    · cases mem_singleton.1 hmem
  · have hhandled : Promised request (s.log ++ [.handled i r s.now]) := by
      refine h.promised.append_quiet ?_ ?_ ?_
      · intro j q time ⟨hj, hok⟩
        cases hj
        exact hsilent hok
      · intro j q time hj
        rcases hj.1 with hj | ⟨record, hj, -⟩
        · cases hj
        · cases hj
      · intro j record time hj
        cases hj
    have hanswered : Promised request
        ((s.log ++ [.handled i r s.now]) ++ [.answered i r s.now]) := by
      refine hhandled.append_quiet ?_ ?_ ?_
      · intro j q time hj
        cases hj.1
      · intro j q time ⟨hj, hok⟩
        rcases hj with hj | ⟨record, hj, -⟩
        · cases hj
          exact hsilent hok
        · cases hj
      · intro j record time hj
        cases hj
    rwa [append_assoc] at hanswered

theorem Kept.replay (hapart : HashesApart layer request)
    {scope : Scope} {hash : H} {existing : IdempotencyRecord H}
    (hguarded : admission layer (request i) = .guarded scope hash) (hfrom : s.phase i = .arrived)
    (hfind : findRecord s.records s.now scope = some existing)
    (hhash : existing.requestHash = hash) :
    Kept layer request (s.finish i [.replayed i existing s.now]) := by
  have hmem : existing ∈ s.records := mem_of_find?_eq_some hfind
  have hscope : existing.scope = scope := by
    have hfound := find?_some hfind
    exact of_decide_eq_true (Bool.and_eq_true_iff.1 hfound).1
  refine h.leave rfl rfl rfl rfl (fun record r hwriting => ?_) (.inl rfl) ?_ ?_
  · rw [hfrom] at hwriting
    cases hwriting
  · intro j r time scope' hash' hj
    cases mem_singleton.1 hj
  · refine h.promised.append_one ?_ ?_ ?_
    · intro a _ j k q q' time time' _ ⟨hk, _⟩
      cases hk
    · intro a ha j k q q' time time' ⟨hj, hjok⟩ ⟨hk, _⟩ hsame hwindow
      rcases hk with hk | ⟨record, hk, hreply⟩
      · cases hk
      · cases hk
        rw [hj] at ha
        rcases h.completed j q time scope hash ha hjok (hsame.admission_eq.trans hguarded) with
          hpast | hrow | hwriting
        · omega
        · have hone : recordOf scope hash q time = existing :=
            h.oneRow _ hrow _ hmem hscope.symm
          rw [← hreply, ← hone]
          exact ⟨rfl, rfl⟩
        · have hheld : (s.phase j).Holds scope := by
            rw [hwriting]
            rfl
          exact absurd hscope (h.noRow j scope hheld existing hmem)
    · intro j record time hj
      cases hj
      obtain ⟨k, r, made, hmade, hok, scope', hash', hk, hexisting⟩ := h.rows existing hmem
      refine ⟨k, r, made, scope', hash', hmade, hexisting, ?_⟩
      have hsame : admission layer (request k) = .guarded scope hash := by
        rw [hk, ← hscope, ← hhash, hexisting]
        rfl
      exact hapart i k scope hash hguarded hsame

omit [DecidableEq ι] in
/-- Expired rows are swept. -/
theorem Kept.sweep : Kept layer request { s with records := deleteExpired s.records s.now } where
  promised := h.promised
  completed j r time scope hash hmem hok hguarded := by
    rcases h.completed j r time scope hash hmem hok hguarded with hpast | hrow | hwriting
    · exact .inl hpast
    · rcases Nat.lt_or_ge (time + replayTtl) s.now with hlt | hge
      · exact .inl hlt.le
      · exact .inr (.inl (mem_filter.2 ⟨hrow, decide_eq_true hge⟩))
    · exact .inr (.inr hwriting)
  rows record hrecord := h.rows record (mem_of_mem_filter hrecord)
  oneRow a ha b hb := h.oneRow a (mem_of_mem_filter ha) b (mem_of_mem_filter hb)
  passing := h.passing
  running := h.running
  recording := h.recording
  single := h.single
  noRow i scope hi record hrecord := h.noRow i scope hi record (mem_of_mem_filter hrecord)

omit [DecidableEq ι] in
theorem Kept.tick (seconds : Nat) : Kept layer request { s with now := s.now + seconds } where
  promised := h.promised
  completed j r time scope hash hmem hok hguarded := by
    rcases h.completed j r time scope hash hmem hok hguarded with hpast | hrow | hwriting
    · exact .inl (Nat.le_add_right_of_le hpast)
    · exact .inr (.inl hrow)
    · exact .inr (.inr hwriting)
  rows := h.rows
  oneRow := h.oneRow
  passing := h.passing
  running := h.running
  recording := h.recording
  single := h.single
  noRow := h.noRow

variable [DecidableEq H]

theorem Kept.step (hapart : HashesApart layer request) {m : Move ι}
    (hin : InOrderAt layer request s m) : Kept layer request (s.step layer request m) := by
  cases m with
  | lookup i stored =>
    show Kept layer request (s.lookup layer request i stored)
    unfold ApiState.lookup
    cases hfrom : s.phase i with
    | arrived =>
      obtain ⟨hkey, hfree⟩ := hin hfrom
      cases hguarded : admission layer (request i) with
      | through =>
        refine h.leave rfl rfl rfl (append_nil _).symm (fun record r hwriting => ?_)
          (.inr ⟨rfl, hkey hguarded⟩) (fun _ _ _ _ _ hmem => absurd hmem not_mem_nil) ?_
        · rw [hfrom] at hwriting
          cases hwriting
        · rw [append_nil]
          exact h.promised
      | refused e => exact h.refuse hfrom e
      | guarded scope hash =>
        dsimp only
        cases stored with
        | false => exact h.refuse hfrom .store
        | true =>
          rw [if_pos rfl]
          cases hfind : findRecord s.records s.now scope with
          | none =>
            obtain ⟨hnobody, hfresh⟩ := hfree scope hash hguarded rfl
            refine h.enter_running hguarded hfrom hnobody fun record hrecord hscope => ?_
            have hnot := find?_eq_none.1 hfind record hrecord
            simp [hscope, hfresh record hrecord hscope] at hnot
          | some existing =>
            dsimp only
            by_cases hhash : existing.requestHash = hash
            · rw [if_pos hhash]
              exact h.replay hapart hguarded hfrom hfind hhash
            · rw [if_neg hhash]
              exact h.refuse hfrom .keyReused
    | passing => exact h
    | running => exact h
    | recording => exact h
    | answered => exact h
  | handle i response =>
    show Kept layer request (s.handle i response)
    unfold ApiState.handle
    cases hfrom : s.phase i with
    | passing =>
      refine h.answer_quiet (fun record q hwriting => ?_) (.inr (h.passing i hfrom))
      rw [hfrom] at hwriting
      cases hwriting
    | running scope hash =>
      dsimp only
      cases herror : response.isError with
      | true =>
        rw [if_pos (Bool.true_or _)]
        refine h.answer_quiet (fun record q hwriting => ?_) (.inl herror)
        rw [hfrom] at hwriting
        cases hwriting
      | false =>
        obtain ⟨hstream, hsize⟩ := hin ⟨scope, hash, hfrom⟩ herror
        rw [hstream, if_neg (by decide), if_neg (Nat.not_lt.2 hsize)]
        exact h.complete hfrom herror rfl rfl rfl rfl
    | arrived => exact h
    | recording => exact h
    | answered => exact h
  | record i stored =>
    show Kept layer request (s.record i stored)
    unfold ApiState.record
    cases hfrom : s.phase i with
    | recording rec response =>
      have hheld : (s.phase i).Holds rec.scope := by
        rw [hfrom]
        rfl
      have hnone : s.records.any (fun r => r.scope = rec.scope) = false := by
        rw [any_eq_false]
        intro row hrow
        simpa using h.noRow i rec.scope hheld row hrow
      refine h.write hfrom rfl rfl rfl ?_
      dsimp only
      rw [show stored = true from hin, if_pos rfl]
      unfold createRecord
      rw [hnone, if_neg Bool.false_ne_true]
    | arrived => exact h
    | passing => exact h
    | running => exact h
    | answered => exact h
  | sweep => exact h.sweep
  | tick seconds => exact h.tick seconds

omit h

omit [DecidableEq ι] [DecidableEq H] in
/-- The server starts with no record and no answer. -/
theorem kept_start (now : Nat) : Kept layer request { now := now } where
  promised := ⟨Pairwise.nil, Pairwise.nil, fun _ _ _ h => absurd h not_mem_nil⟩
  completed _ _ _ _ _ h := absurd h not_mem_nil
  rows _ h := absurd h not_mem_nil
  oneRow _ h := absurd h not_mem_nil
  passing _ h := by cases h
  running _ _ _ h := by cases h
  recording _ _ _ h := by cases h
  single _ _ _ h := h.elim
  noRow _ _ h := h.elim

theorem Kept.run (hapart : HashesApart layer request) (moves : List (Move ι)) :
    ∀ {s : ApiState ι H}, Kept layer request s → RunInOrder layer request s moves →
      Kept layer request (s.run layer request moves) := by
  induction moves with
  | nil => exact fun h _ => h
  | cons m moves ih => exact fun h hrun => ih (h.step hapart hrun.1) hrun.2

/-- A run in order keeps the promise of the key. -/
theorem atMostOnce_run (hapart : HashesApart layer request) {now : Nat} {moves : List (Move ι)}
    (hrun : RunInOrder layer request { now := now } moves) :
    Promised request (ApiState.run layer request { now := now } moves).log :=
  (Kept.run hapart moves (kept_start now) hrun).promised

end

/-- A layer that takes the body for its hash and every subject for a UUID. -/
def plainLayer : Layer (List UInt8) := ⟨id, some⟩

/-- A call that is sent twice. -/
def design : Bool → Request := fun _ =>
  { key := some "k1"
    principal := some ⟨"u"⟩
    workspaceId := some "w"
    method := "POST"
    path := "/api/ontology-drafts/abc/design"
    query := ""
    body := [1] }

def designed : Response := ⟨200, some "application/json", [7]⟩

theorem hashesApart_design : HashesApart plainLayer design := fun _ _ _ _ _ _ => ⟨rfl, rfl⟩

/-- Two overlapping lookups both miss, and the handler completes twice. -/
theorem overlapping_twice : ¬Promised design (ApiState.run plainLayer design {}
      [.lookup false true, .lookup true true, .handle false designed,
        .handle true designed]).log := by
  intro h
  have honce : ([.handled false designed 0, .handled true designed 0] :
      List (ApiEvent Bool (List UInt8))).Pairwise _ := h.once
  have hwindow := (pairwise_cons.1 honce).1 _ (mem_singleton_self _) false true designed
    designed 0 0 ⟨rfl, rfl⟩ ⟨rfl, rfl⟩ ⟨Option.some_ne_none _, rfl⟩
  exact absurd hwindow (by decide)

/-- A retry after the answer gets the recorded response. -/
theorem atMostOnce_retry :
    Promised design (ApiState.run plainLayer design { now := 0 }
      [.lookup false true, .handle false designed, .record false true, .lookup true true]).log := by
  have hguarded : ∀ i, admission plainLayer (design i) =
      .guarded ⟨"w", "u", "POST", "/api/ontology-drafts/abc/design", "k1"⟩ [1] := by decide
  refine atMostOnce_run hashesApart_design ⟨fun _ => ⟨fun h => ?_, fun _ _ _ _ => ⟨?_, ?_⟩⟩,
    fun _ _ => ⟨by decide, by decide⟩, rfl, fun _ =>
      ⟨fun h => ?_, fun _ _ _ _ => ⟨?_, ?_⟩⟩, trivial⟩
  · rw [hguarded] at h
    cases h
  · exact fun _ h => h
  · exact fun _ h => absurd h not_mem_nil
  · rw [hguarded] at h
    cases h
  · intro j h
    cases j with
    | false => exact h
    | true => exact h
  · intro record hrecord _
    rw [mem_singleton.1 hrecord]
    decide

end Ontosyx.Api
