import Ontosyx.Ontology.Atomicity

/-!
# Terms that have been replaced

A phrase is looked up in the glossary, active terms before the others, and the term found is
followed to its replacement, a bounded number of times.

## Main results

* `followHops_eq_iff` — a walk reaches the end of a chain that is no longer than the bound.
* `resolves_iff` — and so does a phrase lookup.
-/

namespace Ontosyx.Ontology.OntologyState

open Ontosyx.Core Lib.Positions

def maxReplacementHops : Nat := 8

/-- The loop of `follow_replacement_chain`. -/
def followHops (s : OntologyState) : Nat → GlossaryTermDef → GlossaryTermDef
  | 0, current => current
  | hops + 1, current =>
    match replacement current with
    | none => current
    | some nextId =>
      match s.glossaryTermById nextId with
      | none => current
      | some next => if next.id = current.id then current else s.followHops hops next

def followReplacementChain (s : OntologyState) (start : GlossaryTermDef) : GlossaryTermDef :=
  s.followHops maxReplacementHops start

inductive GlossarySlot where
  | term
  | displayName
  | alias_

def isActive (t : GlossaryTermDef) : Bool := t.lifecycle = .active

section

variable (toLowercase : String → String)

def localizedTextContainsCi (text : LocalizedText) (needleLower : String) : Bool :=
  toLowercase text.default = needleLower ∨
    ∃ tag ∈ text.translations.keys, (text.translations.lookup tag).map toLowercase = needleLower

def slotMatches (term : GlossaryTermDef) (slot : GlossarySlot) (needleLower : String) : Bool :=
  match slot with
  | .term => localizedTextContainsCi toLowercase term.term needleLower
  | .displayName => localizedTextContainsCi toLowercase term.displayName needleLower
  | .alias_ => term.aliases.any fun alias_ => localizedTextContainsCi toLowercase alias_ needleLower

/-- The first match of the cascade: active terms first, then by slot. -/
def firstMatch (s : OntologyState) (needle : String) : Option GlossaryTermDef :=
  [true, false].findSome? fun preferActive =>
    [GlossarySlot.term, .displayName, .alias_].findSome? fun slot =>
      s.ir.glossary.find? fun t =>
        isActive t = preferActive ∧ slotMatches toLowercase t slot needle

def glossaryTermByPhrase (s : OntologyState) (phrase : String) : Option GlossaryTermDef :=
  let needle := toLowercase (String.ofList (trimChars phrase.toList))
  if needle = "" then none
  else (s.firstMatch toLowercase needle).map s.followReplacementChain

end

/-- A chain of so many replacements from one term to another. -/
inductive Chain (s : OntologyState) : Nat → GlossaryTermDef → GlossaryTermDef → Prop where
  | refl (t : GlossaryTermDef) : Chain s 0 t t
  | step {n : Nat} {t next last : GlossaryTermDef} {id : GlossaryTermId}
      (hid : replacement t = some id) (hnext : s.glossaryTermById id = some next)
      (hrest : Chain s n next last) : Chain s (n + 1) t last

variable {s : OntologyState} {t last : GlossaryTermDef} {n m : Nat}

theorem mem_of_glossaryTermById (hs : s.Agrees) {id : GlossaryTermId}
    (h : s.glossaryTermById id = some t) : t ∈ s.ir.glossary ∧ t.id = id := by
  unfold glossaryTermById at h
  rw [hs.lookup_eq] at h
  exact mem_of_position_bind h

/-- All chains from a term to a term without replacement are of one length. -/
theorem Chain.length_eq (h : Chain s n t last) (hm : Chain s m t last)
    (hend : replacement last = none) : n = m := by
  induction h generalizing m with
  | refl t =>
    cases hm with
    | refl => rfl
    | step hid => exact absurd (hid.symm.trans hend) (by simp)
  | step hid hnext hrest ih =>
    cases hm with
    | refl => exact absurd (hid.symm.trans hend) (by simp)
    | step hid' hnext' hrest' =>
      obtain rfl := Option.some.inj (hid.symm.trans hid')
      obtain rfl := Option.some.inj (hnext.symm.trans hnext')
      rw [ih hrest' hend]

/-- A chain that ends does not come back to the term it starts from. -/
theorem Chain.id_ne (hs : s.Agrees) {next : GlossaryTermDef} {id : GlossaryTermId}
    (ht : t ∈ s.ir.glossary) (hid : replacement t = some id)
    (hnext : s.glossaryTermById id = some next) (hrest : Chain s n next last)
    (hend : replacement last = none) : next.id ≠ t.id := by
  intro heq
  obtain ⟨hmem, -⟩ := mem_of_glossaryTermById hs hnext
  have hnd := hs.indexed.registries.glossary
  obtain rfl := List.inj_on_of_nodup_map hnd hmem ht (congrArg (·.val) heq)
  exact absurd ((Chain.step hid hnext hrest).length_eq hrest hend) (Nat.succ_ne_self n)

/-- A walk of so many hops reaches the end of a chain exactly when it is long enough. -/
theorem followHops_eq_iff (hs : s.Agrees) (ht : t ∈ s.ir.glossary) (h : Chain s n t last)
    (hend : replacement last = none) (hops : Nat) : s.followHops hops t = last ↔ n ≤ hops := by
  induction h generalizing hops with
  | refl t =>
    refine iff_of_true ?_ (Nat.zero_le _)
    cases hops with
    | zero => rfl
    | succ hops => simp [followHops, hend]
  | @step n t next last id hid hnext hrest ih =>
    cases hops with
    | zero =>
      refine iff_of_false (fun heq => ?_) (by simp)
      have heq : t = last := heq
      rw [← heq, hid] at hend
      cases hend
    | succ hops =>
      have hne := Chain.id_ne hs ht hid hnext hrest hend
      have hstep : s.followHops (hops + 1) t = s.followHops hops next := by
        simp [followHops, hid, hnext, hne]
      rw [hstep, ih (mem_of_glossaryTermById hs hnext).1 hend, Nat.add_le_add_iff_right]

/-- A retired term resolves to its successor, by itself and by every phrase that finds it, exactly
when its chain is no longer than the bound. -/
theorem resolves_iff (toLowercase : String → String) (hs : s.Agrees) (ht : t ∈ s.ir.glossary)
    (h : Chain s n t last) (hend : replacement last = none) :
    (s.followReplacementChain t = last ∧ ∀ phrase,
      toLowercase (String.ofList (trimChars phrase.toList)) ≠ "" →
      s.firstMatch toLowercase (toLowercase (String.ofList (trimChars phrase.toList))) = some t →
      s.glossaryTermByPhrase toLowercase phrase = some last) ↔ n ≤ maxReplacementHops := by
  have hfollow : s.followReplacementChain t = last ↔ n ≤ maxReplacementHops :=
    followHops_eq_iff hs ht h hend _
  refine ⟨fun hall => hfollow.1 hall.1, fun hle => ⟨hfollow.2 hle, fun phrase hne hfirst => ?_⟩⟩
  unfold glossaryTermByPhrase
  simp only [if_neg hne, hfirst, Option.map_some, hfollow.2 hle]

def renamed (id next : String) : GlossaryTermDef :=
  { id := ⟨id⟩, term := .new id, lifecycle := .deprecated (some ⟨next⟩) 0 }

def currentName : GlossaryTermDef := { id := ⟨"j"⟩, term := .new "j" }

/-- A name that was given up nine times. -/
def renamedTerms : OntologyState :=
  ofIR {
    id := "onto", name := "Shop", nodeTypes := []
    glossary := [renamed "a" "b", renamed "b" "c", renamed "c" "d", renamed "d" "e",
      renamed "e" "f", renamed "f" "g", renamed "g" "h", renamed "h" "i", renamed "i" "j",
      currentName] }

theorem renamedTerms_agrees : renamedTerms.Agrees :=
  agrees_ofIR.2 ((OntologyIR.rebuild_ok_iff _).1 rfl)

theorem chain_renamedTerms : Chain renamedTerms 8 (renamed "b" "c") currentName :=
  .step rfl rfl (.step rfl rfl (.step rfl rfl (.step rfl rfl (.step rfl rfl (.step rfl rfl
    (.step rfl rfl (.step rfl rfl (.refl _))))))))

/-- Eight hops reach the name that is left. -/
theorem renamedTerms_resolves :
    renamedTerms.followReplacementChain (renamed "b" "c") = currentName :=
  ((resolves_iff id renamedTerms_agrees (.tail _ (.head _)) chain_renamedTerms rfl).2 (by decide)).1

/-- Nine do not. -/
theorem renamedTerms_cut : renamedTerms.Agrees ∧ renamed "a" "b" ∈ renamedTerms.ir.glossary ∧
      Chain renamedTerms 9 (renamed "a" "b") currentName ∧ replacement currentName = none ∧
      renamedTerms.followReplacementChain (renamed "a" "b") ≠ currentName := by
  have hchain : Chain renamedTerms 9 (renamed "a" "b") currentName :=
    .step rfl rfl chain_renamedTerms
  refine ⟨renamedTerms_agrees, .head _, hchain, rfl, fun h => ?_⟩
  have := (followHops_eq_iff renamedTerms_agrees (.head _) hchain rfl _).1 h
  exact absurd this (by decide)

end Ontosyx.Ontology.OntologyState
