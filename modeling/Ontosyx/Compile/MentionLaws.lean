import Ontosyx.Compile.Mentions

/-!
# The pieces mention what the query does

A compiled part pushes the literals and names the caller parameters that
`Mentions` reads off the query, in the same order; a placeholder that is written
apart from its literal recalls that literal.  The proof follows the compiler, one
case per construct of the query language.
-/

namespace Ontosyx.Compile

open List Ontosyx.Core Ontosyx.Query QueryOp Piece

/-! ## Placeholders of earlier literals -/

def pushed : List Piece → List PropertyValue
  | [] => []
  | .literal v :: pieces => v :: pushed pieces
  | .silent v :: pieces => v :: pushed pieces
  | _ :: pieces => pushed pieces

/-- Every placeholder of an earlier literal is one of its own value; `vs` are the
values pushed before, the latest first. -/
def Recalls (vs : List PropertyValue) : List Piece → Prop
  | [] => True
  | .literal v :: pieces => Recalls (v :: vs) pieces
  | .silent v :: pieces => Recalls (v :: vs) pieces
  | .again back v :: pieces => (0 < back ∧ vs[back - 1]? = some v) ∧ Recalls vs pieces
  | _ :: pieces => Recalls vs pieces

def Piece.atoms : Piece → List Atom
  | .literal _ | .silent _ => [.lit]
  | .param s => [.param s]
  | _ => []

theorem pushed_append (a b : List Piece) : pushed (a ++ b) = pushed a ++ pushed b := by
  induction a with
  | nil => rfl
  | cons p a ih => cases p <;> simp [pushed, ih]

theorem pushes_eq_length (a : List Piece) : pushes a = (pushed a).length := by
  induction a with
  | nil => rfl
  | cons p a ih => cases p <;> simp [pushes, pushed, ih]

theorem recalls_append (vs : List PropertyValue) (a b : List Piece) :
    Recalls vs (a ++ b) ↔ Recalls vs a ∧ Recalls ((pushed a).reverse ++ vs) b := by
  induction a generalizing vs with
  | nil => simp [Recalls, pushed]
  | cons p a ih => cases p <;> simp [Recalls, pushed, ih, and_assoc]

/-- The pieces mention `atoms`, and recall literals of their own only. -/
structure Tells (pieces : List Piece) (atoms : List Atom) : Prop where
  recalls : ∀ vs, Recalls vs pieces
  atoms_eq : pieces.flatMap Piece.atoms = atoms

namespace Tells

variable {a b : List Piece} {x y : List Atom}

theorem nil : Tells [] [] := ⟨fun _ => trivial, rfl⟩

theorem append (ha : Tells a x) (hb : Tells b y) : Tells (a ++ b) (x ++ y) := by
  refine ⟨?_, ?_⟩
  · intro vs
    exact (recalls_append vs a b).2 ⟨ha.recalls vs, hb.recalls _⟩
  · rw [flatMap_append, ha.atoms_eq, hb.atoms_eq]

end Tells

/-- A piece that neither pushes, recalls nor names a parameter. -/
@[simp] def Piece.isPlain : Piece → Bool
  | .literal _ | .silent _ | .again _ _ | .param _ => false
  | _ => true

/-- Pieces that neither push, recall nor name a parameter. -/
def Plain (a : List Piece) : Prop := ∀ p ∈ a, p.isPlain = true

@[simp] theorem plain_nil : Plain [] := forall_mem_nil _

variable {b a : List Piece}

@[simp] theorem plain_append : Plain (a ++ b) ↔ Plain a ∧ Plain b :=
  forall_mem_append

@[simp] theorem plain_cons {p : Piece} : Plain (p :: a) ↔ p.isPlain = true ∧ Plain a :=
  forall_mem_cons

variable {x : List Atom}

theorem tells_cons {p : Piece} (hp : p.isPlain = true) : Tells (p :: a) x ↔ Tells a x := by
  cases p <;> first
    | exact absurd hp Bool.false_ne_true
    | exact ⟨fun h => ⟨h.recalls, h.atoms_eq⟩, fun h => ⟨h.recalls, h.atoms_eq⟩⟩

section

variable {s : String} {a : List Piece} {x : List Atom}

@[simp] theorem tells_text : Tells (.text s :: a) x ↔ Tells a x := tells_cons rfl
@[simp] theorem tells_name : Tells (.name s :: a) x ↔ Tells a x := tells_cons rfl
@[simp] theorem tells_escaped : Tells (.escaped s :: a) x ↔ Tells a x := tells_cons rfl
@[simp] theorem tells_fail {e : CompileError} : Tells (.fail e :: a) x ↔ Tells a x := tells_cons rfl

end

/-- Plain pieces mention nothing. -/
theorem Tells.of_plain (h : Plain a) : Tells a [] := by
  induction a with
  | nil => exact .nil
  | cons p a ih =>
    rw [plain_cons] at h
    exact (tells_cons h.1).2 (ih h.2)

theorem Tells.plain_append (ha : Plain a) (hb : Tells b x) :
    Tells (a ++ b) x := (Tells.of_plain ha).append hb

theorem Tells.append_plain (ha : Tells a x) (hb : Plain b) : Tells (a ++ b) x := by
  have h := ha.append (Tells.of_plain hb)
  rwa [append_nil] at h

/-- The documents mention `x`, one after the other. -/
inductive TellsAll : List (List Piece) → List Atom → Prop where
  | nil : TellsAll [] []
  | cons {doc : List Piece} {docs : List (List Piece)} {x y : List Atom} :
      Tells doc x → TellsAll docs y → TellsAll (doc :: docs) (x ++ y)

variable {docs : List (List Piece)}

theorem TellsAll.append {docs' : List (List Piece)} {y : List Atom} (h : TellsAll docs x)
    (h' : TellsAll docs' y) : TellsAll (docs ++ docs') (x ++ y) := by
  induction h with
  | nil => exact h'
  | cons hdoc hdocs ih =>
    rw [append_assoc]
    exact .cons hdoc ih

variable {sep : String}

theorem TellsAll.joined (h : TellsAll docs x) : Tells (joinWith sep docs) x := by
  induction h with
  | nil => exact .nil
  | @cons doc docs x y hdoc hdocs ih =>
    cases docs with
    | nil =>
      cases hdocs
      simpa [joinWith] using hdoc
    | cons doc' docs => exact hdoc.append (tells_text.2 ih)

/-- Popped pieces recall nothing, and their literals stay. -/
theorem recalls_forget (vs : List PropertyValue) (a : List Piece) :
    Recalls vs (a.flatMap forget) := by
  induction a generalizing vs with
  | nil => trivial
  | cons p a ih => cases p <;> simp [forget, Recalls, ih]

theorem pushed_forget (a : List Piece) : pushed (a.flatMap forget) = pushed a := by
  induction a with
  | nil => rfl
  | cons p a ih => cases p <;> simp [forget, pushed, ih]

theorem atoms_forget (a : List Piece) : (a.flatMap forget).flatMap atoms =
      (a.flatMap atoms).filter (· = .lit) := by
  induction a with
  | nil => rfl
  | cons p a ih => cases p <;> simp [forget, atoms, ih]

theorem recalls_wrapError {vs : List PropertyValue} (h : Recalls vs a) :
    Recalls vs (a.map wrapError) := by
  induction a generalizing vs with
  | nil => trivial
  | cons p a ih =>
    cases p
    case again => exact ⟨h.1, ih h.2⟩
    all_goals exact ih h

theorem atoms_wrapError (a : List Piece) :
    (a.map wrapError).flatMap atoms = a.flatMap atoms := by
  induction a with
  | nil => rfl
  | cons p a ih => cases p <;> simp [wrapError, atoms, ih]

theorem compileValue_cases (v : PropertyValue) :
    (compileValue v = [.literal v] ∧ valueAtoms v = [.lit]) ∨
      ∃ p : Piece, p.isPlain = true ∧ compileValue v = [p] ∧ valueAtoms v = [] := by
  cases v
  case duration s =>
    right
    rw [compileValue]
    split
    · exact ⟨_, rfl, rfl, rfl⟩
    · exact ⟨_, rfl, rfl, rfl⟩
  case null => exact .inr ⟨_, rfl, rfl, rfl⟩
  case date => exact .inr ⟨_, rfl, rfl, rfl⟩
  case dateTime => exact .inr ⟨_, rfl, rfl, rfl⟩
  case bytes => exact .inr ⟨_, rfl, rfl, rfl⟩
  all_goals exact .inl ⟨rfl, rfl⟩

theorem compileValue_tells (v : PropertyValue) : Tells (compileValue v) (valueAtoms v) := by
  rcases compileValue_cases v with ⟨hv, ha⟩ | ⟨p, hp, hv, ha⟩
  · rw [hv, ha]
    exact ⟨fun _ => trivial, rfl⟩
  · rw [hv, ha]
    exact (tells_cons hp).2 .nil

/-- The placeholders of pushed values recall those values, when only `earlier` was
pushed after them. -/
theorem recalls_recall (sep : String) (earlier vs : List PropertyValue)
    (values : List PropertyValue) :
    Recalls (earlier ++ ((pushed (values.map compileValue).flatten).reverse ++ vs))
      (joinWith sep (recallAll earlier.length (values.map compileValue))) ∧
    (joinWith sep (recallAll earlier.length (values.map compileValue))).flatMap
      atoms = [] := by
  induction values generalizing vs with
  | nil => exact ⟨trivial, rfl⟩
  | cons v values ih =>
    have hrest := ih ((pushed (compileValue v)).reverse ++ vs)
    rw [map_cons, flatten_cons, pushed_append, reverse_append, append_assoc, recallAll]
    have hhead : ∃ p : Piece, (compileValue v).map (recallAt
          (earlier.length + pushes (values.map compileValue).flatten + 1)) = [p] ∧
        p.atoms = [] ∧ pushed [p] = [] ∧
        Recalls (earlier ++ ((pushed (values.map compileValue).flatten).reverse ++
          ((pushed (compileValue v)).reverse ++ vs))) [p] := by
      rcases compileValue_cases v with ⟨hv, -⟩ | ⟨p, hp, hv, -⟩
      · rw [hv]
        refine ⟨_, rfl, rfl, rfl, ⟨⟨by omega, ?_⟩, trivial⟩⟩
        rw [pushes_eq_length, Nat.add_sub_cancel, getElem?_append_right (by omega),
          getElem?_append_right (by simp)]
        simp [pushed]
      · rw [hv]
        cases p <;> first
          | exact absurd hp Bool.false_ne_true
          | exact ⟨_, rfl, rfl, rfl, trivial⟩
    obtain ⟨p, hp, hatoms, hpushed, hrecalls⟩ := hhead
    rw [hp]
    cases hdocs : recallAll earlier.length (values.map compileValue) with
    | nil =>
      rw [hdocs] at hrest
      exact ⟨hrecalls, by simp [joinWith, hatoms]⟩
    | cons doc docs =>
      rw [hdocs] at hrest
      refine ⟨?_, ?_⟩
      · rw [joinWith_cons_cons, recalls_append, hpushed]
        exact ⟨hrecalls, hrest.1⟩
      · rw [joinWith_cons_cons, flatMap_append]
        simp [hatoms, hrest.2, show (Piece.text sep).atoms = [] from rfl]

/-- The pieces of an `IN`, whose values are pushed first. -/
theorem Tells.in_ {tested : List Piece} (h : Tells tested x) (values : List PropertyValue) :
    Tells ((values.map compileValue).flatten.flatMap forget ++ tested ++ .text " IN [" ::
        joinWith ", " (recallAll (pushes tested) (values.map compileValue)) ++ [.text "]"])
      (values.flatMap valueAtoms ++ x) := by
  have hvals : Tells (values.map compileValue).flatten (values.flatMap valueAtoms) := by
    rw [← flatMap_def]
    induction values with
    | nil => exact .nil
    | cons v values ih => exact (compileValue_tells v).append ih
  have hforgot : (values.flatMap valueAtoms).filter (· = .lit) = values.flatMap valueAtoms := by
    refine filter_eq_self.2 ?_
    intro a ha
    obtain ⟨v, -, ha⟩ := mem_flatMap.1 ha
    rcases compileValue_cases v with ⟨-, hv⟩ | ⟨p, -, -, hv⟩
    · rw [hv, mem_singleton] at ha
      simp [ha]
    · rw [hv] at ha
      cases ha
  have hhead : Tells ((values.map compileValue).flatten.flatMap forget ++ tested)
      (values.flatMap valueAtoms ++ x) := by
    refine Tells.append ⟨fun vs => recalls_forget vs _, ?_⟩ h
    rw [atoms_forget, hvals.atoms_eq, hforgot]
  refine Tells.append_plain ?_ (by simp)
  refine ⟨?_, ?_⟩
  · intro vs
    rw [recalls_append]
    refine ⟨hhead.recalls vs, ?_⟩
    rw [pushed_append, pushed_forget, reverse_append, append_assoc, pushes_eq_length,
      ← length_reverse]
    exact (recalls_recall _ _ _ _).1
  · rw [flatMap_append, hhead.atoms_eq, flatMap_cons, pushes_eq_length,
      ← length_reverse, (recalls_recall _ _ [] values).2]
    simp [atoms]

/-! ## Parts -/

/-- A piece that writes no text of its own. -/
def Piece.isSilent : Piece → Bool
  | .silent _ | .fail _ => true
  | _ => false

/-- Up to pieces without text, the pieces open with fixed text, or there are none. -/
def Opens : List Piece → Prop
  | [] => True
  | .text _ :: _ => True
  | p :: pieces => p.isSilent = true ∧ Opens pieces

/-- What comes behind pieces that open with fixed text does not make them a `RETURN`. -/
theorem isReturn_append (ha : Opens a) (hb : isReturn b = false) :
    isReturn (a ++ b) = isReturn a := by
  induction a with
  | nil => exact hb
  | cons p a ih =>
    cases p
    case text => rfl
    case silent => exact ih ha.2
    case fail => exact ih ha.2
    all_goals exact nomatch ha.1

theorem isReturn_text {s : String} {r : Bool} (h : startsWithReturn s = r) :
    isReturn (.text s :: a) = r := h

theorem isReturn_append_silent (ha : ∀ p ∈ a, p.isSilent = true) :
    isReturn (a ++ b) = isReturn b := by
  induction a with
  | nil => rfl
  | cons p a ih =>
    rw [forall_mem_cons] at ha
    cases p
    case silent => exact ih ha.2
    case fail => exact ih ha.2
    all_goals exact nomatch ha.1

theorem opens_append (ha : Opens a) (hb : Opens b) : Opens (a ++ b) := by
  induction a with
  | nil => exact hb
  | cons p a ih =>
    cases p
    case text => trivial
    all_goals exact ⟨ha.1, ih ha.2⟩

theorem opens_of_silent (ha : ∀ p ∈ a, p.isSilent = true) : Opens a := by
  induction a with
  | nil => trivial
  | cons p a ih =>
    rw [forall_mem_cons] at ha
    cases p
    case text => trivial
    all_goals exact ⟨ha.1, ih ha.2⟩

theorem silent_forget (a : List Piece) : ∀ p ∈ a.flatMap forget, p.isSilent = true := by
  intro p hp
  obtain ⟨q, -, hq⟩ := mem_flatMap.1 hp
  cases q <;> simp only [forget, mem_singleton, not_mem_nil] at hq <;>
    rw [hq] <;> rfl

theorem opens_wrapError (ha : Opens a) : Opens (a.map wrapError) := by
  induction a with
  | nil => trivial
  | cons p a ih =>
    cases p
    case text => trivial
    all_goals exact ⟨ha.1, ih ha.2⟩

theorem isReturn_wrapError (a : List Piece) : isReturn (a.map wrapError) = isReturn a := by
  induction a with
  | nil => rfl
  | cons p a ih => cases p <;> first | rfl | exact ih

structure PartTells (part : Part) (m : Mention) : Prop where
  popped : part.popped = m.popped
  isReturn : isReturn part.pieces = m.isReturn
  opens : Opens part.pieces
  atoms_eq : part.pieces.flatMap atoms = m.atoms

/-- All parts and their mentions; a part may recall a literal of an earlier one. -/
structure PartsTell (parts : List Part) (ms : List Mention) : Prop where
  aligned : Forall₂ PartTells parts ms
  recalls : ∀ vs, Recalls vs (parts.flatMap (·.pieces))

theorem PartsTell.nil : PartsTell [] [] := ⟨.nil, fun _ => trivial⟩

section

variable {parts : List Part} {ms : List Mention}

theorem PartsTell.push (h : PartsTell parts ms) {pieces : List Piece} {atoms : List Atom}
    {r : Bool} (hr : Compile.isReturn pieces = r) (ho : Opens pieces) (ht : Tells pieces atoms) :
    PartsTell (pushPart parts pieces) (say ms r atoms) := by
  refine ⟨rel_append h.aligned (.cons ⟨rfl, hr, ho, ht.atoms_eq⟩ .nil), ?_⟩
  intro vs
  rw [pushPart, flatMap_append, recalls_append]
  refine ⟨h.recalls vs, ?_⟩
  rw [flatMap_singleton]
  exact ht.recalls _

theorem popReturnRev_aligned (h : Forall₂ PartTells parts ms) :
    Forall₂ PartTells (popReturnRev parts) (popMentionRev ms) := by
  induction h with
  | nil => exact .nil
  | @cons part m parts ms hpart hparts ih =>
    rw [popReturnRev, popMentionRev, hpart.popped, hpart.isReturn]
    split
    · exact .cons hpart ih
    · split
      · exact .cons ⟨rfl, hpart.isReturn, hpart.opens, hpart.atoms_eq⟩ hparts
      · exact .cons hpart hparts

theorem popReturnRev_pieces (parts : List Part) :
    (popReturnRev parts).map (·.pieces) = parts.map (·.pieces) := by
  induction parts with
  | nil => rfl
  | cons part parts ih =>
    rw [popReturnRev]
    split
    · rw [map_cons, map_cons, ih]
    · split <;> rfl

theorem PartsTell.popReturn (h : PartsTell parts ms) :
    PartsTell (Compile.popReturn parts) (popMention ms) := by
  refine ⟨rel_reverse (popReturnRev_aligned (rel_reverse h.aligned)), ?_⟩
  have hpieces : (Compile.popReturn parts).map (·.pieces) = parts.map (·.pieces) := by
    rw [Compile.popReturn, map_reverse, popReturnRev_pieces, map_reverse, reverse_reverse]
  intro vs
  rw [flatMap_def, hpieces, ← flatMap_def]
  exact h.recalls vs

theorem PartsTell.wrapError (h : PartsTell parts ms) : PartsTell (parts.map Part.wrapError) ms := by
  refine ⟨forall₂_map_left_iff.2 ?_, ?_⟩
  · exact h.aligned.imp fun part m hpart => ⟨hpart.popped,
      (isReturn_wrapError _).trans hpart.isReturn, opens_wrapError hpart.opens,
      (atoms_wrapError _).trans hpart.atoms_eq⟩
  · intro vs
    have hflat : (parts.map Part.wrapError).flatMap (·.pieces) =
        (parts.flatMap (·.pieces)).map Piece.wrapError := by
      rw [flatMap_map, map_flatMap]
      rfl
    rw [hflat]
    exact recalls_wrapError (h.recalls vs)

theorem joinParts_silent (sep : String) (h : parts.all (·.popped) = true) :
    ∀ p ∈ joinParts sep parts, p.isSilent = true := by
  induction parts with
  | nil => simp [joinParts]
  | cons part parts ih =>
    rw [all_cons, Bool.and_eq_true] at h
    rw [joinParts, if_pos h.1]
    intro p hp
    rcases mem_append.1 hp with hp | hp
    · exact silent_forget _ p hp
    · exact ih h.2 p hp

theorem isReturn_of_silent {a : List Piece} (ha : ∀ p ∈ a, p.isSilent = true) :
    Compile.isReturn a = false := by
  have h := isReturn_append_silent (b := []) ha
  rwa [append_nil] at h

theorem recalls_joinParts (sep : String) (parts : List Part) {vs : List PropertyValue}
    (h : Recalls vs (parts.flatMap (·.pieces))) : Recalls vs (joinParts sep parts) := by
  induction parts generalizing vs with
  | nil => trivial
  | cons part parts ih =>
    rw [flatMap_cons, recalls_append] at h
    rw [joinParts]
    split
    · rw [recalls_append, pushed_forget]
      exact ⟨recalls_forget vs _, ih h.2⟩
    · split
      · exact (recalls_append _ _ _).2 ⟨h.1, ih h.2⟩
      · exact (recalls_append _ _ _).2 ⟨h.1, ih h.2⟩

theorem joinParts_aligned {sep : String} (hsep : startsWithReturn sep = false)
    (h : Forall₂ PartTells parts ms) :
    (joinParts sep parts).flatMap atoms = joinAtoms ms ∧ Opens (joinParts sep parts) ∧
      Compile.isReturn (joinParts sep parts) = opensWithReturn ms := by
  induction h with
  | nil => exact ⟨rfl, trivial, rfl⟩
  | @cons part m parts ms hpart hparts ih =>
    rw [joinParts, opensWithReturn, joinAtoms, flatMap_cons, hpart.popped]
    by_cases hpop : m.popped = true
    · rw [if_pos hpop, if_pos hpop, if_pos hpop, flatMap_append, atoms_forget,
        hpart.atoms_eq, ih.1]
      exact ⟨rfl, opens_append (opens_of_silent (silent_forget _)) ih.2.1,
        (isReturn_append_silent (silent_forget _)).trans ih.2.2⟩
    · rw [if_neg hpop, if_neg hpop, if_neg hpop]
      split
      · next hall =>
          have hsilent := joinParts_silent sep hall
          rw [flatMap_append, hpart.atoms_eq, ih.1]
          exact ⟨rfl, opens_append hpart.opens ih.2.1,
            (isReturn_append hpart.opens (isReturn_of_silent hsilent)).trans hpart.isReturn⟩
      · rw [flatMap_append, flatMap_cons, hpart.atoms_eq, ih.1]
        exact ⟨rfl, opens_append hpart.opens trivial,
          (isReturn_append hpart.opens (isReturn_text hsep)).trans hpart.isReturn⟩

theorem PartsTell.joinParts {sep : String} (hsep : startsWithReturn sep = false)
    (h : PartsTell parts ms) : Tells (Compile.joinParts sep parts) (joinAtoms ms) :=
  ⟨fun vs => recalls_joinParts sep parts (h.recalls vs), (joinParts_aligned hsep h.aligned).1⟩

end

/-! ## Small emitters -/

theorem plain_joinWith (h : ∀ doc ∈ docs, Plain doc) : Plain (joinWith sep docs) := by
  induction docs with
  | nil => exact plain_nil
  | cons doc docs ih =>
    rw [forall_mem_cons] at h
    cases docs with
    | nil => exact h.1
    | cons doc' docs =>
      rw [joinWith_cons_cons, plain_append, plain_cons]
      exact ⟨h.1, rfl, ih h.2⟩

theorem plain_compileLabel (label : Option GraphLabel) : Plain (compileLabel label) := by
  cases label <;> simp [compileLabel]

theorem plain_compileEdgeVar (v : Option VariableName) : Plain (compileEdgeVar v) := by
  rw [compileEdgeVar]
  split <;> simp

theorem plain_compileVarLength (v : Option VarLength) : Plain (compileVarLength v) := by
  rcases v with _ | ⟨_ | min, _ | max⟩ <;> simp [compileVarLength]

theorem plain_direction {rel : List Piece} (h : Plain rel) (dir : Direction) :
    Plain (formatDirectionPattern rel dir) := by
  cases dir <;> simp only [formatDirectionPattern, plain_append, plain_cons] <;>
    exact ⟨⟨rfl, h⟩, rfl, by simp⟩

theorem plain_compilePathElement (e : PathElement) : Plain (compilePathElement e) := by
  cases e with
  | node v label =>
    simp only [compilePathElement, plain_append, plain_cons]
    exact ⟨⟨rfl, rfl, plain_compileLabel label⟩, rfl, by simp⟩
  | edge v label dir =>
    refine plain_direction ?_ dir
    simp only [plain_append, plain_cons]
    exact ⟨⟨⟨rfl, plain_compileEdgeVar v⟩, plain_compileLabel label⟩, rfl, by simp⟩

theorem plain_compilePathRel (edgeTypes : List GraphLabel) (dir : Direction)
    (maxDepth : Option Nat) : Plain (compilePathRel edgeTypes dir maxDepth) := by
  refine plain_direction ?_ dir
  have htypes : Plain (if edgeTypes.isEmpty then [] else
      .text ":" :: joinWith "|" (edgeTypes.map fun t => [.escaped t.val])) := by
    split
    · simp
    · exact plain_cons.2 ⟨rfl, plain_joinWith (by simp)⟩
  simp only [plain_append, plain_cons]
  refine ⟨⟨⟨rfl, htypes⟩, ?_⟩, rfl, by simp⟩
  cases maxDepth <;> simp

theorem plain_compileOrderBy (d : CypherDialect) (clauses : List OrderClause) :
    ∀ doc ∈ compileOrderBy d clauses, Plain doc := by
  induction clauses with
  | nil => simp [compileOrderBy]
  | cons c clauses ih =>
    obtain ⟨projection, dir⟩ := c
    rcases projection with ⟨v, f, _ | a⟩ | ⟨v, _ | a⟩ | _ | _ | _ <;> cases dir <;>
      simpa [compileOrderBy] using ih

theorem plain_compileFieldRef (f : FieldRef) : Plain (compileFieldRef f) := by
  rw [compileFieldRef]
  split <;> simp

theorem plain_compileGroup (g : FieldRef) :
    Plain (compileGroup g).1 ∧ Plain (compileGroup g).2 := by
  rw [compileGroup]
  split
  · simp only [plain_append, plain_cons]
    exact ⟨⟨plain_compileFieldRef g, rfl, rfl, by simp⟩, rfl, by simp⟩
  · exact ⟨plain_compileFieldRef g, by simp⟩

theorem Tells.aggFunction {target : List Piece} (h : Tells target x) (d : CypherDialect)
    (f : AggFunction) (distinct : Bool) : Tells (compileAggFunction d f target distinct) x := by
  rw [compileAggFunction]
  split
  · exact h.append_plain (by simp)
  · exact tells_text.2 (h.append_plain (by simp))

theorem plain_compileAggregation (d : CypherDialect) (a : AggregationExpr) :
    Plain (compileAggregation d a).1 ∧ Plain (compileAggregation d a).2 := by
  refine ⟨?_, by simp [compileAggregation]⟩
  rw [compileAggregation, plain_append, compileAggFunction]
  refine ⟨?_, by simp⟩
  split
  · simp only [plain_append, plain_cons]
    exact ⟨plain_compileFieldRef _, rfl, by simp⟩
  · simp only [plain_append, plain_cons]
    exact ⟨⟨rfl, plain_compileFieldRef _⟩, rfl, by simp⟩

theorem Tells.direction {rel : List Piece} (h : Tells rel x) (dir : Direction) :
    Tells (formatDirectionPattern rel dir) x := by
  cases dir <;> exact tells_text.2 (h.append_plain (by simp))

theorem TellsAll.braced {props : List (List Piece)} {x : List Atom} (h : TellsAll props x) :
    Tells (Compile.braced props) x := by
  rw [Compile.braced]
  split
  · next hempty =>
      rw [isEmpty_iff.1 hempty] at h
      cases h
      exact .nil
  · exact tells_text.2 (h.joined.append_plain (by simp))

theorem TellsAll.onSet {sets : List (List Piece)} {x : List Atom} (keyword : String)
    (h : TellsAll sets x) : Tells (Compile.onSet keyword sets) x := by
  rw [Compile.onSet]
  split
  · next hempty =>
      rw [isEmpty_iff.1 hempty] at h
      cases h
      exact .nil
  · exact tells_text.2 h.joined

theorem tells_joinWith_plain (h : ∀ doc ∈ docs, Plain doc) : Tells (joinWith sep docs)
    [] := .of_plain (plain_joinWith h)

section

variable {parts : List Part} {ms : List Mention}

theorem PartsTell.pushReturn (h : PartsTell parts ms) {columns : List (List Piece)}
    {x : List Atom} (hc : TellsAll columns x) {empty : Bool} (he : columns.isEmpty = empty) :
    PartsTell (Compile.pushReturn parts columns) (if empty then ms else say ms true x) := by
  rw [Compile.pushReturn, he]
  split
  · exact h
  · exact h.push (isReturn_text (by decide)) trivial (tells_text.2 hc.joined)

theorem PartsTell.pushWindow (h : PartsTell parts ms) (skip limit : Option Nat) :
    PartsTell (Compile.pushWindow parts skip limit) (windowMentions ms skip limit) := by
  have hskip : PartsTell (Compile.pushWindow parts skip none)
      (if skip.isSome then say ms false [] else ms) := by
    cases skip with
    | none => exact h
    | some n => exact h.push (isReturn_text (by decide)) trivial (.of_plain (by simp))
  cases limit with
  | none => exact hskip
  | some n => exact hskip.push (isReturn_text (by decide)) trivial (.of_plain (by simp))

end

theorem compileImports_tells (importVariables : List String) :
    PartsTell (compileImports importVariables) (importMentions importVariables) := by
  rw [compileImports, importMentions]
  split
  · exact .nil
  · refine PartsTell.push .nil (isReturn_text (by decide)) trivial
      (tells_text.2 (tells_joinWith_plain ?_))
    simp

theorem isReturn_joinWith (hsep : startsWithReturn sep = false) {doc : List Piece}
    (ho : Opens doc) : isReturn (joinWith sep (doc :: docs)) = isReturn doc := by
  cases docs with
  | nil => rfl
  | cons doc' docs => exact isReturn_append ho (isReturn_text hsep)

theorem joinAtoms_say_nil (ms : List Mention) : joinAtoms (say ms false []) = joinAtoms ms := by
  simp [joinAtoms, say]

theorem opensWithReturn_say_false (ms : List Mention) (atoms : List Atom) :
    opensWithReturn (say ms false atoms) = opensWithReturn ms := by
  induction ms with
  | nil => rfl
  | cons m ms ih =>
    show opensWithReturn (m :: say ms false atoms) = _
    rw [opensWithReturn, opensWithReturn, ih]

theorem opens_joinWith (h : ∀ doc ∈ docs, Opens doc) : Opens (joinWith sep docs) := by
  cases docs with
  | nil => trivial
  | cons doc docs =>
    rw [forall_mem_cons] at h
    cases docs with
    | nil => exact h.1
    | cons doc' docs => exact opens_append h.1 trivial

theorem PartsTell.pushAll {parts : List Part} {ms ms' : List Mention} (h : PartsTell parts ms)
    (hr : ∀ vs, Recalls vs docs.flatten)
    (hm : Forall₂ (fun doc m => PartTells ⟨doc, false⟩ m) docs ms') :
    PartsTell (docs.foldl pushPart parts) (ms ++ ms') := by
  have hfold : docs.foldl pushPart parts = parts ++ docs.map fun doc => ⟨doc, false⟩ := by
    clear hr hm h
    induction docs generalizing parts with
    | nil => simp
    | cons doc docs ih => simp [ih, pushPart]
  rw [hfold]
  refine ⟨rel_append h.aligned (forall₂_map_left_iff.2 hm), ?_⟩
  intro vs
  rw [flatMap_append, recalls_append]
  refine ⟨h.recalls vs, ?_⟩
  rw [flatMap_map, flatMap_id']
  exact hr _

/-! ## The pieces and the query -/

variable (d : CypherDialect)

theorem plain_columns (groupBy : List FieldRef) (aggregations : List AggregationExpr) :
    (∀ doc ∈ (groupBy.map compileGroup ++ aggregations.map (compileAggregation d)).map (·.1),
      Plain doc) ∧
    ∀ doc ∈ (groupBy.map compileGroup ++ aggregations.map (compileAggregation d)).map (·.2),
      Plain doc := by
  simp only [forall_mem_map, forall_mem_append]
  exact ⟨⟨fun g _ => (plain_compileGroup g).1, fun a _ => (plain_compileAggregation d a).1⟩,
    fun g _ => (plain_compileGroup g).2, fun a _ => (plain_compileAggregation d a).2⟩

section

variable (vectorQuery : Embedding) (fulltextQuery : Option String) (label : Option GraphLabel)
  (fuse : FusionStrategy) (topK : Nat)

theorem recalls_compileHybrid (vs : List PropertyValue) :
    Recalls vs (compileHybrid vectorQuery fulltextQuery label fuse topK).flatten := by
  cases fulltextQuery <;> cases label <;> cases fuse <;>
    simp [-String.reduceAppend, compileHybrid, compileStream, compileFusion, fusionPushes, Recalls]

theorem partTells_text {s : String} {c : Char} (hs : s.toList.head? = some c) (hc : c ≠ 'R')
    {doc : List Piece} {atoms : List Atom} (hdoc : doc.flatMap Piece.atoms = atoms) :
    PartTells ⟨.text s :: doc, false⟩ ⟨false, false, atoms⟩ := by
  obtain ⟨cs, hs⟩ := head?_eq_some_iff.1 hs
  exact ⟨rfl, by simp [isReturn, startsWithReturn, hs, isPrefixOf, hc.symm], trivial, hdoc⟩

theorem compileStream_tells (carried rawNodes rawScored nodes scored : String) :
    PartTells ⟨compileStream fuse label carried rawNodes rawScored nodes scored, false⟩
      ⟨false, false, []⟩ := by
  have h : ∀ a b c d : String, ("WITH " ++ a ++ b ++ c ++ d).toList.head? = some 'W' := by simp
  cases fuse <;> cases label <;> exact partTells_text (h ..) (by decide) rfl

theorem compileHybrid_aligned : Forall₂ (fun doc m => PartTells ⟨doc, false⟩ m)
    (compileHybrid vectorQuery fulltextQuery label fuse topK)
    (hybridMentions fulltextQuery label.isSome fuse) := by
  have hreturn : startsWithReturn "RETURN node, score" = true := by decide
  cases fulltextQuery <;> cases label <;> cases fuse <;>
    simp only [compileHybrid, compileFusion, hybridMentions, fusionPushes, cons_append,
      nil_append] <;>
    repeat first
      | exact .nil
      | refine .cons (compileStream_tells ..) ?_
      | refine .cons (partTells_text (congrArg head? String.toList_ofList) (by decide) rfl) ?_
      | refine .cons ⟨rfl, hreturn, trivial, rfl⟩ ?_

end

theorem analyticsLabels_tells (source : AnalyticsSource) :
    TellsAll (analyticsLabels source) [] := by
  cases source with
  | labels labels =>
    refine .cons (x := []) ?_ .nil
    exact (tells_text.2 (tells_joinWith_plain (by simp))).append_plain (by simp)
  | wholeGraph => exact .nil
  | subgraph filter => exact .nil

theorem TellsAll.configMap {entries : List (List Piece)} {x : List Atom} (h : TellsAll entries x) :
    Tells (Compile.configMap entries) x := by
  rw [Compile.configMap]
  split
  · next hempty =>
      rw [isEmpty_iff.1 hempty] at h
      cases h
      exact .nil
  · exact (tells_text.2 h.joined).append_plain (by simp)

theorem compileMutateOp_opens (op : MutateOp) :
    Opens (compileMutateOp d op) ∧ isReturn (compileMutateOp d op) = false := by
  rcases op with _ | ⟨_ | v, _⟩ | _ | ⟨_ | v, _⟩ | _ | ⟨_, _ | _⟩ | _ | _ <;>
    simp only [compileMutateOp] <;> exact ⟨trivial, isReturn_text (by decide)⟩

theorem compileProjections_isEmpty (ps : List Projection) :
    (compileProjections d ps).isEmpty = ps.isEmpty := by
  cases ps <;> simp [compileProjections]

mutual
/-- The pieces of an expression mention what the expression does. -/
theorem compileExpr_tells : (e : Expr) → Tells (compileExpr d e) (Expr.atoms d e)
  | .literal value => by
    simp only [compileExpr, Expr.atoms]
    exact compileValue_tells value
  | .param s => by
    simp only [compileExpr, Expr.atoms]
    split
    · exact ⟨fun _ => trivial, rfl⟩
    · exact tells_fail.2 .nil
  | .property v (some field) | .property v none => by
    simp only [compileExpr, Expr.atoms]
    exact .of_plain (by simp)
  | .comparison left op right | .stringOp left op right => by
    simp only [compileExpr, Expr.atoms]
    exact (compileExpr_tells left).append (tells_text.2 (compileExpr_tells right))
  | .logical left op right => by
    simp only [compileExpr, Expr.atoms]
    exact ((tells_text.2 (compileExpr_tells left)).append
      (tells_text.2 (compileExpr_tells right))).append_plain (by simp)
  | .not inner => by
    simp only [compileExpr, Expr.atoms]
    exact (tells_text.2 (compileExpr_tells inner)).append_plain (by simp)
  | .in_ expr values => by
    simp only [compileExpr, Expr.atoms]
    exact (compileExpr_tells expr).in_ values
  | .isNull expr true | .isNull expr false => by
    simp only [compileExpr, Expr.atoms]
    exact (compileExpr_tells expr).append_plain (by simp)
  | .functionCall function args => by
    simp only [compileExpr, Expr.atoms]
    exact (tells_text.2 (compileExprList_tells args).joined).append_plain (by simp)
  | .exists_ pattern => by
    simp only [compileExpr, Expr.atoms]
    exact (tells_text.2 (compilePattern_tells pattern)).append_plain (by simp)
  | .case_ operand whenClauses elseResult => by
    simp only [compileExpr, Expr.atoms]
    exact (((tells_text.2 (compileOperand_tells operand)).append
      (compileWhenClauses_tells whenClauses)).append
        (compileElse_tells elseResult)).append_plain (by simp)
  | .subquery query importVariables => by
    simp only [compileExpr, Expr.atoms]
    have h := compileSubquery_tells Part.wrapError (fun h => PartsTell.wrapError h)
      (compileImports_tells importVariables) query
    exact (tells_text.2 (PartsTell.joinParts (by decide) h)).append_plain (by simp)

theorem compileExprList_tells :
    (es : List Expr) → TellsAll (compileExprList d es) (Expr.atomsList d es)
  | [] => by
    simp only [compileExprList, Expr.atomsList]
    exact .nil
  | e :: es => by
    simp only [compileExprList, Expr.atomsList]
    exact .cons (compileExpr_tells e) (compileExprList_tells es)

theorem compileOperand_tells :
    (e : Option Expr) → Tells (compileOperand d e) (Expr.atomsOption d e)
  | none => by
    simp only [compileOperand, Expr.atomsOption]
    exact .nil
  | some e => by
    simp only [compileOperand, Expr.atomsOption]
    exact tells_text.2 (compileExpr_tells e)

theorem compileElse_tells :
    (e : Option Expr) → Tells (compileElse d e) (Expr.atomsOption d e)
  | none => by
    simp only [compileElse, Expr.atomsOption]
    exact .nil
  | some e => by
    simp only [compileElse, Expr.atomsOption]
    exact tells_text.2 (compileExpr_tells e)

theorem compileWhenClauses_tells :
    (ws : List WhenClause) → Tells (compileWhenClauses d ws) (WhenClause.atomsList d ws)
  | [] => by
    simp only [compileWhenClauses, WhenClause.atomsList]
    exact .nil
  | ⟨condition, result⟩ :: ws => by
    simp only [compileWhenClauses, WhenClause.atomsList]
    exact ((tells_text.2 (compileExpr_tells condition)).append
      (tells_text.2 (compileExpr_tells result))).append (compileWhenClauses_tells ws)

theorem compileSubquery_tells (wrap : Part → Part)
    (hwrap : ∀ {parts : List Part} {ms : List Mention}, PartsTell parts ms →
      PartsTell (parts.map wrap) ms)
    {parts : List Part} {ms : List Mention} (h : PartsTell parts ms) :
    (q : QueryIR) → PartsTell (compileSubquery d wrap parts q) (QueryIR.mentions d ms q)
  | ⟨operation, limit, skip, orderBy, asOf⟩ => by
    simp only [compileSubquery, QueryIR.mentions]
    refine PartsTell.pushWindow ?_ skip limit
    split
    · exact hwrap (compileOp_tells h operation)
    · exact (hwrap (compileOp_tells h operation)).push (isReturn_text (by decide)) trivial
        (tells_text.2 (tells_joinWith_plain (plain_compileOrderBy d orderBy)))

theorem compileFilters_tells : (fs : List PropertyFilter) →
    TellsAll (compileFilters d fs) (PropertyFilter.atomsList d fs)
  | [] => by
    simp only [compileFilters, PropertyFilter.atomsList]
    exact .nil
  | ⟨property, value⟩ :: fs => by
    simp only [compileFilters, PropertyFilter.atomsList]
    exact .cons (tells_escaped.2 (tells_text.2 (compileExpr_tells value)))
      (compileFilters_tells fs)

theorem compilePattern_tells : (p : GraphPattern) →
    Tells (compilePattern d p) (GraphPattern.atoms d p)
  | .node v label filters => by
    simp only [compilePattern, GraphPattern.atoms]
    exact (Tells.plain_append (by simp [plain_compileLabel])
      (compileFilters_tells filters).braced).append_plain (by simp)
  | .relationship v label source target dir filters varLength => by
    simp only [compilePattern, GraphPattern.atoms]
    have hrel := (Tells.plain_append (a := .text "[" :: compileEdgeVar v ++ compileLabel label ++
      compileVarLength varLength) (by simp [plain_compileLabel, plain_compileEdgeVar,
        plain_compileVarLength]) (compileFilters_tells filters).braced).append_plain
      (b := [.text "]"]) (by simp)
    exact (tells_text.2 (tells_name.2 (tells_text.2 (hrel.direction dir)))).append_plain (by simp)
  | .path elements => by
    simp only [compilePattern, GraphPattern.atoms]
    refine .of_plain ?_
    intro p hp
    obtain ⟨e, -, he⟩ := mem_flatMap.1 hp
    exact plain_compilePathElement e p he

theorem compileProjection_tells : (p : Projection) →
    Tells (compileProjection d p) (Projection.atoms d p)
  | .field v field (some a) | .field v field none | .variable_ v (some a) | .variable_ v none
  | .allProperties v => by
    simp only [compileProjection, Projection.atoms]
    exact .of_plain (by simp)
  | .expression expr a => by
    simp only [compileProjection, Projection.atoms]
    exact (compileExpr_tells expr).append_plain (by simp)
  | .aggregation function argument a distinct => by
    simp only [compileProjection, Projection.atoms]
    exact ((compileArgument_tells argument).aggFunction d function distinct).append_plain
      (by simp)

theorem compileArgument_tells : (p : Option Projection) →
    Tells (compileArgument d p) (Projection.atomsOption d p)
  | none => by
    simp only [compileArgument, Projection.atomsOption]
    exact .of_plain (by simp)
  | some p => by
    simp only [compileArgument, Projection.atomsOption]
    exact compileProjection_tells p

theorem projections_tells : (ps : List Projection) →
    TellsAll (compileProjections d ps) (Projection.atomsList d ps)
  | [] => by
    simp only [compileProjections, Projection.atomsList]
    exact .nil
  | p :: ps => by
    simp only [compileProjections, Projection.atomsList]
    exact .cons (compileProjection_tells p) (projections_tells ps)

theorem compileNodeRef_tells : (n : NodeRef) → Tells (compileNodeRef d n) (NodeRef.atoms d n)
  | ⟨v, label, filters⟩ => by
    simp only [compileNodeRef, NodeRef.atoms]
    exact (Tells.plain_append (by simp [plain_compileLabel])
      (compileFilters_tells filters).braced).append_plain (by simp)

theorem compileOp_tells {parts : List Part} {ms : List Mention} (h : PartsTell parts ms) :
    (op : QueryOp) → PartsTell (compileOp d parts op) (mentions d ms op)
  | .match_ patterns filter projections optional groupBy => by
    simp only [compileOp, mentions]
    have hkeyword : startsWithReturn ((if optional then "OPTIONAL MATCH" else "MATCH") ++ " ") =
        false := by
      cases optional <;> decide
    exact (compileFilter_tells (compilePatterns_tells hkeyword h patterns) filter).pushReturn
      (projections_tells projections) (compileProjections_isEmpty d projections)
  | .pathFind start end_ edgeTypes dir maxDepth algorithm => by
    have hpath := ((compileNodeRef_tells start).append_plain
      (plain_compilePathRel edgeTypes dir maxDepth)).append (compileNodeRef_tells end_)
    have hreturn : Tells [.text "RETURN p"] [] := .of_plain (by simp)
    simp only [compileOp, mentions]
    cases algorithm with
    | allPaths =>
      exact (h.push (isReturn_text (by decide)) trivial (tells_text.2 hpath)).push
        (isReturn_text (by decide)) trivial hreturn
    | shortestPath | allShortestPaths =>
      exact (h.push (isReturn_text (by decide)) trivial
        ((tells_text.2 hpath).append_plain (by simp))).push
          (isReturn_text (by decide)) trivial hreturn
  | .aggregate source groupBy aggregations none => by
    simp only [compileOp, mentions, havingMentions]
    exact (compileSource_tells h source).popReturn.push (isReturn_text (by decide)) trivial
      (tells_text.2 (tells_joinWith_plain (plain_columns d groupBy aggregations).1))
  | .aggregate source groupBy aggregations (some e) => by
    simp only [compileOp, mentions, havingMentions]
    have hcolumns := plain_columns d groupBy aggregations
    exact (((compileSource_tells h source).popReturn.push (isReturn_text (by decide)) trivial
      (tells_text.2 (tells_joinWith_plain hcolumns.1))).push (isReturn_text (by decide)) trivial
        (tells_text.2 (compileExpr_tells e))).push (isReturn_text (by decide)) trivial
          (tells_text.2 (tells_joinWith_plain hcolumns.2))
  | .union queries all => by
    simp only [compileOp, mentions]
    have hsep : startsWithReturn ("\n" ++ (if all then "UNION ALL" else "UNION") ++ "\n") =
        false := by
      cases all <;> decide
    have hbranches := compileBranches_tells queries
    exact h.push (hbranches.2.2 hsep) (opens_joinWith hbranches.2.1) hbranches.1.joined
  | .chain steps => by
    simp only [compileOp, mentions]
    exact compileChain_tells h steps
  | .callSubquery inner imports => by
    simp only [compileOp, mentions]
    have hinner := compileSubquery_tells id (fun h => by rwa [map_id])
      (compileImports_tells imports) inner
    exact h.push (isReturn_text (by decide)) trivial
      ((tells_text.2 (PartsTell.joinParts (by decide) hinner)).append_plain (by simp))
  | .mutate context operations returning => by
    simp only [compileOp, mentions]
    exact (compileMutateOps_tells (compileContext_tells h context) operations).pushReturn
      (projections_tells returning) (compileProjections_isEmpty d returning)
  | .analytics algorithm source params projections => by
    simp only [compileOp, mentions]
    split
    · exact h.push rfl ⟨rfl, trivial⟩ (tells_fail.2 .nil)
    · next hd =>
        refine PartsTell.pushReturn (PartsTell.push (analyticsSource_tells h source) ?_ ?_
          ?_) (projections_tells projections) (compileProjections_isEmpty d projections)
        · cases algorithm <;> exact isReturn_text (by decide)
        · trivial
        · exact (tells_text.2 ((analyticsLabels_tells source).append
            (compileParams_tells params)).configMap).append_plain (by simp)
  | .hybridSearch ⟨vectorQuery, fulltextQuery, graphConstraints, fuse, topK⟩ => by
    simp only [compileOp, mentions]
    exact h.pushAll (recalls_compileHybrid _ _ _ _ _) (compileHybrid_aligned _ _ _ _ _)

theorem compileBranches_tells : (queries : List QueryIR) →
    TellsAll (compileBranches d queries) (QueryIR.branchAtoms d queries) ∧
      (∀ doc ∈ compileBranches d queries, Opens doc) ∧
      ∀ {sep : String}, startsWithReturn sep = false →
        isReturn (joinWith sep (compileBranches d queries)) = QueryIR.opensWithReturn d queries
  | [] => by
    simp only [compileBranches, QueryIR.branchAtoms, QueryIR.opensWithReturn]
    exact ⟨.nil, by simp, fun _ => rfl⟩
  | ⟨operation, limit, skip, orderBy, asOf⟩ :: queries => by
    have hop := compileOp_tells PartsTell.nil operation
    have hrest := compileBranches_tells queries
    have hparts : ∃ ms, PartsTell (if orderBy.isEmpty then compileOp d [] operation
          else pushPart (compileOp d [] operation)
            (.text "ORDER BY " :: joinWith ", " (compileOrderBy d orderBy))) ms ∧
        joinAtoms ms = joinAtoms (mentions d [] operation) ∧
        opensWithReturn ms = opensWithReturn (mentions d [] operation) := by
      split
      · exact ⟨_, hop, rfl, rfl⟩
      · exact ⟨_, hop.push (isReturn_text (by decide)) trivial
          (tells_text.2 (tells_joinWith_plain (plain_compileOrderBy d orderBy))),
          joinAtoms_say_nil _, opensWithReturn_say_false _ _⟩
    obtain ⟨ms, hparts, hatoms, hopens⟩ := hparts
    have haligned :=
      joinParts_aligned (show startsWithReturn "\n" = false by decide) hparts.aligned
    simp only [compileBranches, QueryIR.branchAtoms, QueryIR.opensWithReturn]
    rw [← hatoms, ← hopens, ← haligned.2.2]
    refine ⟨.cons (hparts.joinParts (by decide)) hrest.1, ?_, ?_⟩
    · rw [forall_mem_cons]
      exact ⟨haligned.2.1, hrest.2.1⟩
    · exact fun hsep => isReturn_joinWith hsep haligned.2.1

theorem compilePatterns_tells {keyword : String}
    (hkeyword : startsWithReturn (keyword ++ " ") = false) {parts : List Part}
    {ms : List Mention} (h : PartsTell parts ms) : (ps : List GraphPattern) →
      PartsTell (compilePatterns d keyword parts ps) (GraphPattern.mentions d ms ps)
  | [] => by
    simp only [compilePatterns, GraphPattern.mentions]
    exact h
  | p :: ps => by
    simp only [compilePatterns, GraphPattern.mentions]
    exact compilePatterns_tells hkeyword (h.push (isReturn_text hkeyword) trivial
      (tells_text.2 (compilePattern_tells p))) ps

theorem compileFilter_tells {parts : List Part} {ms : List Mention} (h : PartsTell parts ms) :
    (e : Option Expr) → PartsTell (compileFilter d parts e) (filterMentions d ms e)
  | none => by
    simp only [compileFilter, filterMentions]
    exact h
  | some e => by
    simp only [compileFilter, filterMentions]
    exact h.push (isReturn_text (by decide)) trivial (tells_text.2 (compileExpr_tells e))

theorem compileSource_tells {parts : List Part} {ms : List Mention} (h : PartsTell parts ms) :
    (q : QueryIR) → PartsTell (compileSource d parts q) (sourceMentions d ms q)
  | ⟨operation, limit, skip, orderBy, asOf⟩ => by
    simp only [compileSource, sourceMentions]
    exact compileOp_tells h operation

theorem compileChain_tells {parts : List Part} {ms : List Mention} (h : PartsTell parts ms) :
    (steps : List ChainStep) →
      PartsTell (compileChain d parts steps) (ChainStep.mentions d ms steps)
  | [] => by
    simp only [compileChain, ChainStep.mentions]
    exact h
  | ⟨passThrough, operation⟩ :: steps => by
    simp only [compileChain, ChainStep.mentions]
    refine compileChain_tells (compileOp_tells ?_ operation) steps
    split
    · exact h
    · exact h.push (isReturn_text (by decide)) trivial
        (tells_text.2 (projections_tells passThrough).joined)

theorem compileContext_tells {parts : List Part} {ms : List Mention} (h : PartsTell parts ms) :
    (op : Option QueryOp) → PartsTell (compileContext d parts op) (contextMentions d ms op)
  | none => by
    simp only [compileContext, contextMentions]
    exact h
  | some op => by
    simp only [compileContext, contextMentions]
    exact (compileOp_tells h op).popReturn

theorem analyticsSource_tells {parts : List Part} {ms : List Mention}
    (h : PartsTell parts ms) : (source : AnalyticsSource) →
      PartsTell (compileAnalyticsSource d parts source) (AnalyticsSource.mentions d ms source)
  | .wholeGraph | .labels labels => by
    simp only [compileAnalyticsSource, AnalyticsSource.mentions]
    exact h
  | .subgraph filter => by
    simp only [compileAnalyticsSource, AnalyticsSource.mentions]
    exact (compileOp_tells h filter).popReturn

theorem compileParams_tells : (params : List AnalyticsParam) →
    TellsAll (compileParams d params) (AnalyticsParam.atomsList d params)
  | [] => by
    simp only [compileParams, AnalyticsParam.atomsList]
    exact .nil
  | ⟨key, value⟩ :: params => by
    simp only [compileParams, AnalyticsParam.atomsList]
    exact .cons (tells_name.2 (tells_text.2 (compileExpr_tells value)))
      (compileParams_tells params)

theorem assignments_tells : (assignments : List PropertyAssignment) →
    TellsAll (compileAssignments d assignments) (PropertyAssignment.atomsList d assignments)
  | [] => by
    simp only [compileAssignments, PropertyAssignment.atomsList]
    exact .nil
  | ⟨property, value⟩ :: assignments => by
    simp only [compileAssignments, PropertyAssignment.atomsList]
    exact .cons (tells_escaped.2 (tells_text.2 (compileExpr_tells value)))
      (assignments_tells assignments)

theorem setAssignments_tells (v : String) : (assignments : List PropertyAssignment) →
    TellsAll (compileSetAssignments d v assignments) (PropertyAssignment.atomsList d assignments)
  | [] => by
    simp only [compileSetAssignments, PropertyAssignment.atomsList]
    exact .nil
  | ⟨property, value⟩ :: assignments => by
    simp only [compileSetAssignments, PropertyAssignment.atomsList]
    exact .cons (tells_name.2 (tells_text.2 (tells_escaped.2 (tells_text.2
      (compileExpr_tells value))))) (setAssignments_tells v assignments)

theorem compileMutateOp_tells : (op : MutateOp) →
    Tells (compileMutateOp d op) (MutateOp.atoms d op)
  | .createNode v label properties => by
    have h : Tells (joinWith ", " (compileAssignments d properties)) _ :=
      (assignments_tells properties).joined
    simp only [compileMutateOp, MutateOp.atoms]
    exact Tells.append_plain (by simpa using h) (by simp)
  | .createEdge v label source target properties => by
    have h := (assignments_tells properties).braced
    have hvar : Plain (v.toList.map fun v => name v.val) := by
      cases v <;> simp
    simp only [compileMutateOp, MutateOp.atoms]
    refine Tells.append_plain ?_ (by simp)
    simpa using Tells.plain_append hvar (tells_text.2 (tells_escaped.2 h))
  | .mergeNode v label matchProperties onCreate onMatch => by
    have h : Tells (joinWith ", " (compileAssignments d matchProperties)) _ :=
      (assignments_tells matchProperties).joined
    have hcreate := (setAssignments_tells v.val onCreate).onSet "\n  ON CREATE SET "
    have hmatch := (setAssignments_tells v.val onMatch).onSet "\n  ON MATCH SET "
    simp only [compileMutateOp, MutateOp.atoms]
    refine Tells.append (Tells.append ?_ (tells_text.2 hcreate)) hmatch
    simpa using h
  | .mergeEdge v label source target matchProperties onCreate onMatch => by
    have h := (assignments_tells matchProperties).braced
    simp only [compileMutateOp, MutateOp.atoms]
    refine Tells.append (Tells.append ?_ ?_) ?_
    · simpa using h
    · simpa using (setAssignments_tells _ onCreate).onSet "\n  ON CREATE SET "
    · exact (setAssignments_tells _ onMatch).onSet "\n  ON MATCH SET "
  | .setProperty v property value => by
    simp only [compileMutateOp, MutateOp.atoms]
    simpa using compileExpr_tells value
  | .delete v true | .delete v false | .removeProperty v property | .removeLabel v label => by
    simp only [compileMutateOp, MutateOp.atoms]
    exact .of_plain (by simp)

theorem compileMutateOps_tells {parts : List Part} {ms : List Mention} (h : PartsTell parts ms) :
    (ops : List MutateOp) → PartsTell (compileMutateOps d parts ops) (MutateOp.mentions d ms ops)
  | [] => by
    simp only [compileMutateOps, MutateOp.mentions]
    exact h
  | op :: ops => by
    simp only [compileMutateOps, MutateOp.mentions]
    have hopens := compileMutateOp_opens d op
    exact compileMutateOps_tells (h.push hopens.2 hopens.1 (compileMutateOp_tells op)) ops
end

end Ontosyx.Compile
