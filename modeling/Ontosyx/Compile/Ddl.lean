import Ontosyx.Compile.Compiler
import Ontosyx.Lib.Script

/-!
# Schema statements

The constraints and indexes the compiler declares, the texts it declares them by
in each dialect, and how a database reads these texts back.  Identifiers stand in
backticks and hold none, so that a text falls apart at its backticks.
-/

namespace Ontosyx.Compile

open List Ontosyx.Core Lib.Script Ontology String PropertyKey

/-! ## Texts -/

/-- A constraint or an index of a database. -/
inductive SchemaObject where
  | unique (label : GraphLabel) (properties : List PropertyKey)
  | notNull (label : GraphLabel) (property : PropertyKey)
  | nodeKey (label : GraphLabel) (properties : List PropertyKey)
  | range (label : GraphLabel) (properties : List PropertyKey)
  | fullText (name label : GraphLabel) (properties : List PropertyKey)
  | vector (label : GraphLabel) (property : PropertyKey) (dimensions : Nat)
      (similarity : VectorSimilarity)
deriving DecidableEq

def SchemaObject.isIndex : SchemaObject → Bool
  | .range .. | .fullText .. | .vector .. => true
  | _ => false

/-- `n.{prop}`, joined by commas. -/
def propertyPaths (properties : List PropertyKey) : String :=
  ", ".intercalate (properties.map fun p => "n." ++ escapeIdentifier p.val)

/-- The range index form of Neo4j. -/
def rangeText (label : GraphLabel) (properties : List PropertyKey) : String :=
  "CREATE INDEX IF NOT EXISTS FOR (n:" ++ escapeIdentifier label.val ++
    (") ON (" ++ propertyPaths properties ++ ")")

def similarityName : VectorSimilarity → String
  | .cosine => "cosine"
  | .euclidean => "euclidean"

def neo4jText : SchemaObject → String
  | .unique label properties =>
    "CREATE CONSTRAINT IF NOT EXISTS FOR (n:" ++ escapeIdentifier label.val ++
      (") REQUIRE (" ++ propertyPaths properties ++ ") IS UNIQUE")
  | .notNull label property =>
    "CREATE CONSTRAINT IF NOT EXISTS FOR (n:" ++ escapeIdentifier label.val ++
      (") REQUIRE " ++ propertyPaths [property] ++ " IS NOT NULL")
  | .nodeKey label properties =>
    "CREATE CONSTRAINT IF NOT EXISTS FOR (n:" ++ escapeIdentifier label.val ++
      (") REQUIRE (" ++ propertyPaths properties ++ ") IS NODE KEY")
  | .range label properties => rangeText label properties
  | .fullText name label properties =>
    "CREATE FULLTEXT INDEX " ++ escapeIdentifier name.val ++
      (" IF NOT EXISTS FOR (n:" ++ escapeIdentifier label.val ++
        (") ON EACH [" ++ propertyPaths properties ++ "]"))
  | .vector label property dimensions similarity =>
    "CREATE VECTOR INDEX IF NOT EXISTS FOR (n:" ++ escapeIdentifier label.val ++
      (") ON (" ++ propertyPaths [property] ++
        (") OPTIONS \x7bindexConfig: \x7b" ++ escapeIdentifier "vector.dimensions" ++
          (": " ++ toString dimensions ++ ", " ++ escapeIdentifier "vector.similarity_function" ++
            (": '" ++ similarityName similarity ++ "'\x7d\x7d"))))

/-- Memgraph has no node keys, composite, full-text and vector indexes, and
declares uniqueness property by property. -/
def memgraphText : SchemaObject → Option String
  | .unique label [property] => some
      ("CREATE CONSTRAINT ON (n:" ++ escapeIdentifier label.val ++
        (") ASSERT n." ++ escapeIdentifier property.val ++ " IS UNIQUE"))
  | .notNull label property => some
      ("CREATE CONSTRAINT ON (n:" ++ escapeIdentifier label.val ++
        (") ASSERT EXISTS (n." ++ escapeIdentifier property.val ++ ")"))
  | .range label [property] => some
      ("CREATE INDEX ON :" ++ escapeIdentifier label.val ++
        ("(" ++ escapeIdentifier property.val ++ ")"))
  | _ => none

def createText : CypherDialect → SchemaObject → Option String
  | .neo4j, x => some (neo4jText x)
  | .memgraph, x => memgraphText x

/-! ## How a database reads them -/

/-- The stretches of a text between its backticks. -/
def cuts (text : String) : List String := (text.toList.splitOn '`').map ofList

/-- The properties of a list of paths, and the stretches after them. -/
def readPaths : List String → Option (List PropertyKey × List String)
  | name :: after :: rest =>
    (new name).bind fun p =>
      if after = ", n." then (readPaths rest).map fun r => (p :: r.1, r.2)
      else some ([p], after :: rest)
  | _ => none

/-- What stands before, in and after the property list of a statement. -/
def readShape : List String → Option (String × List PropertyKey × List String)
  | [] => none
  | [c] => some (c, [], [])
  | c :: rest => (readPaths rest).map fun r => (c, r.1, r.2)

def constraintOfShape (label : GraphLabel) :
    String × List PropertyKey × List String → Option SchemaObject
  | (before, properties, after) =>
    if (before, after) = (") REQUIRE () IS UNIQUE", []) ∨
        (before, after) = (") REQUIRE (n.", [") IS UNIQUE"]) then
      some (.unique label properties)
    else if (before, after) = (") REQUIRE () IS NODE KEY", []) ∨
        (before, after) = (") REQUIRE (n.", [") IS NODE KEY"]) then
      some (.nodeKey label properties)
    else if (before, after) = (") REQUIRE n.", [" IS NOT NULL"]) then
      match properties with
      | [property] => some (.notNull label property)
      | _ => none
    else none

def rangeOfShape (label : GraphLabel) :
    String × List PropertyKey × List String → Option SchemaObject
  | (before, properties, after) =>
    if (before, after) = (") ON ()", []) ∨ (before, after) = (") ON (n.", [")"]) then
      some (.range label properties)
    else none

def fullTextOfShape (name label : GraphLabel) :
    String × List PropertyKey × List String → Option SchemaObject
  | (before, properties, after) =>
    if (before, after) = (") ON EACH []", []) ∨ (before, after) = (") ON EACH [n.", ["]"]) then
      some (.fullText name label properties)
    else none

/-- `: 384, `. -/
def readDimensions (text : String) : Option Nat :=
  let n := Nat.ofDigitChars 10 (text.toList.drop 2).dropLast.dropLast 0
  if text = ": " ++ toString n ++ ", " then some n else none

def readSimilarity (text : String) : Option VectorSimilarity :=
  if text = ": 'cosine'\x7d\x7d" then some .cosine
  else if text = ": 'euclidean'\x7d\x7d" then some .euclidean
  else none

def vectorOfShape (label : GraphLabel) :
    String × List PropertyKey × List String → Option SchemaObject
  | (before, [property], [options, key, dimensions, key', similarity]) =>
    if before = ") ON (n." ∧ options = ") OPTIONS \x7bindexConfig: \x7b" ∧
        key = "vector.dimensions" ∧ key' = "vector.similarity_function" then
      (readDimensions dimensions).bind fun n =>
        (readSimilarity similarity).map fun s => .vector label property n s
    else none
  | _ => none

def readFullText (name : GraphLabel) : List String → Option SchemaObject
  | first :: label :: tail =>
    if first = " IF NOT EXISTS FOR (n:" then
      (GraphLabel.new label).bind fun label =>
        (readShape tail).bind (fullTextOfShape name label)
    else none
  | _ => none

def readNeo4jCuts (first : String) (name : GraphLabel) (tail : List String) : Option SchemaObject :=
  if first = "CREATE CONSTRAINT IF NOT EXISTS FOR (n:" then
    (readShape tail).bind (constraintOfShape name)
  else if first = "CREATE INDEX IF NOT EXISTS FOR (n:" then
    (readShape tail).bind (rangeOfShape name)
  else if first = "CREATE VECTOR INDEX IF NOT EXISTS FOR (n:" then
    (readShape tail).bind (vectorOfShape name)
  else if first = "CREATE FULLTEXT INDEX " then readFullText name tail
  else none

def readNeo4j (text : String) : Option SchemaObject :=
  match cuts text with
  | first :: name :: tail => (GraphLabel.new name).bind fun label => readNeo4jCuts first label tail
  | _ => none

def readMemgraph (text : String) : Option SchemaObject :=
  match cuts text with
  | [first, name, before, key, after] =>
    (GraphLabel.new name).bind fun label =>
      (new key).bind fun property =>
        if (first, before, after) =
            ("CREATE CONSTRAINT ON (n:", ") ASSERT n.", " IS UNIQUE") then
          some (.unique label [property])
        else if (first, before, after) =
            ("CREATE CONSTRAINT ON (n:", ") ASSERT EXISTS (n.", ")") then
          some (.notNull label property)
        else if (first, before, after) = ("CREATE INDEX ON :", "(", ")") then
          some (.range label [property])
        else none
  | _ => none

def readCreate : CypherDialect → String → Option SchemaObject
  | .neo4j => readNeo4j
  | .memgraph => readMemgraph

/-- `DROP INDEX IF EXISTS {name}`. -/
def dropIndexText (name : String) : String := "DROP INDEX IF EXISTS " ++ name

def droppedName (text : String) : Option String :=
  (text.toList.dropPrefix? "DROP INDEX IF EXISTS ".toList).map ofList

/-- A database, as far as schema statements see it: which texts it takes for a
bare name, and how it names what a statement leaves unnamed. -/
structure Database where
  dialect : CypherDialect
  symbolic : String → Bool
  generatedName : SchemaObject → String

def Database.nameOf (db : Database) : SchemaObject → String
  | .fullText name _ _ => name.val
  | x => db.generatedName x

def Database.isIndexNamed (db : Database) (name : String) (x : SchemaObject) : Bool :=
  x.isIndex && db.nameOf x == name

/-- What a schema statement does; `none` is a syntax error.  Memgraph drops
indexes in another form than the one emitted here. -/
def readDdl (db : Database) (text : String) : Option (SetEdit SchemaObject) :=
  match readCreate db.dialect text, db.dialect with
  | some x, _ => some (.insert x)
  | none, .neo4j =>
    (droppedName text).bind fun name =>
      if db.symbolic name then some (.remove (db.isIndexNamed name)) else none
  | none, .memgraph => none

/-! ## Reading back -/

variable {s : String}

theorem not_mem_of_isValid (h : isValidGraphIdentifier s = true) : '`' ∉ s.toList := by
  intro hmem
  rw [isValidGraphIdentifier, Bool.and_eq_true, all_eq_true] at h
  exact absurd (h.2 _ hmem) (by decide)

theorem escapeIdentifier_eq {name : String} (h : '`' ∉ name.toList) :
    escapeIdentifier name = "`" ++ name ++ "`" := by
  have hflat : (name.toList.flatMap fun c => if c == '`' then ['`', '`'] else [c]) =
      name.toList := by
    calc (name.toList.flatMap fun c => if c == '`' then ['`', '`'] else [c])
        = name.toList.flatMap fun c => [c] := by
          apply flatMap_congr
          intro c hc
          have hne : c ≠ '`' := fun heq => h (heq ▸ hc)
          simp [hne]
      _ = name.toList := flatMap_singleton' _
  rw [escapeIdentifier, hflat, ofList_toList]

theorem cuts_ne_nil (s : String) : cuts s ≠ [] := by
  simp [cuts, splitOn_ne_nil]

theorem cuts_eq_singleton (h : '`' ∉ s.toList) : cuts s = [s] := by
  rw [cuts, splitOn_eq_singleton h, map_singleton, ofList_toList]

/-- A text falls apart at an identifier. -/
theorem cuts_escaped {name : String} (hs : '`' ∉ s.toList) (hname : '`' ∉ name.toList)
    (t : String) : cuts (s ++ escapeIdentifier name ++ t) = s :: name :: cuts t := by
  have hlist : (s ++ escapeIdentifier name ++ t).toList =
      s.toList ++ '`' :: (name.toList ++ '`' :: t.toList) := by
    rw [escapeIdentifier_eq hname]
    simp
  rw [cuts, hlist, splitOn_append_cons_self_of_not_mem hs,
    splitOn_append_cons_self_of_not_mem hname]
  simp [cuts]

theorem cuts_label (hs : '`' ∉ s.toList) (label : GraphLabel) (t : String) :
    cuts (s ++ escapeIdentifier label.val ++ t) = s :: label.val :: cuts t :=
  cuts_escaped hs (not_mem_of_isValid label.valid) t

theorem cuts_property (hs : '`' ∉ s.toList) (p : PropertyKey) (t : String) :
    cuts (s ++ escapeIdentifier p.val ++ t) = s :: p.val :: cuts t :=
  cuts_escaped hs (not_mem_of_isValid p.valid) t

@[simp] theorem propertyPaths_nil : propertyPaths [] = "" := rfl

theorem propertyPaths_cons (p : PropertyKey) (ps : List PropertyKey) :
    propertyPaths (p :: ps) = "n." ++ escapeIdentifier p.val ++
      (if ps = [] then "" else ", " ++ propertyPaths ps) := by
  cases ps with
  | nil => simp [propertyPaths]
  | cons q qs => simp [propertyPaths, String.append_assoc]

theorem PropertyKey.new_val (p : PropertyKey) : new p.val = some p := by
  simp [new, p.valid]

variable {x : SchemaObject} {before : String}

theorem readPaths_cuts {close : String} (hbefore : '`' ∉ before.toList)
    (hclose : (cuts close).head? ≠ some ", n.") (p : PropertyKey) (ps : List PropertyKey) :
    ∃ tail, cuts (before ++ propertyPaths (p :: ps) ++ close) = (before ++ "n.") :: tail ∧
      readPaths tail = some (p :: ps, cuts close) := by
  have hpath : '`' ∉ (before ++ "n.").toList := by
    simp [hbefore]
  induction ps generalizing before p with
  | nil =>
    refine ⟨p.val :: cuts close, ?_, ?_⟩
    · have htext : before ++ propertyPaths [p] ++ close =
          before ++ "n." ++ escapeIdentifier p.val ++ close := by
        simp [propertyPaths_cons, String.append_assoc]
      rw [htext, cuts_property hpath]
    · cases hc : cuts close with
      | nil => exact absurd hc (cuts_ne_nil close)
      | cons after rest =>
        rw [hc, head?_cons, ne_eq, Option.some.injEq] at hclose
        simp [readPaths, PropertyKey.new_val, hclose]
  | cons q qs ih =>
    have hsep : '`' ∉ (", " : String).toList := by decide
    obtain ⟨tail, htail, hread⟩ := ih hsep q (by decide)
    refine ⟨p.val :: (", " ++ "n.") :: tail, ?_, ?_⟩
    · have htext : before ++ propertyPaths (p :: q :: qs) ++ close =
          before ++ "n." ++ escapeIdentifier p.val ++
            (", " ++ propertyPaths (q :: qs) ++ close) := by
        rw [propertyPaths_cons p, if_neg (cons_ne_nil q qs)]
        simp only [String.append_assoc]
      rw [htext, cuts_property hpath, htail]
    · have heq : (", " ++ "n." : String) = ", n." := by decide
      simp [readPaths, PropertyKey.new_val, heq, hread]

theorem readShape_cuts {close : String} (hbefore : '`' ∉ before.toList)
    (hclose : (cuts close).head? ≠ some ", n.") (p : PropertyKey) (ps : List PropertyKey) :
    readShape (cuts (before ++ propertyPaths (p :: ps) ++ close)) =
      some (before ++ "n.", p :: ps, cuts close) := by
  obtain ⟨tail, htail, hread⟩ := readPaths_cuts hbefore hclose p ps
  rw [htail]
  cases tail with
  | nil => cases hread
  | cons c cs => simp [readShape, hread]

theorem readDimensions_eq (n : Nat) : readDimensions (": " ++ toString n ++ ", ") = some n := by
  have hlist : (": " ++ toString n ++ ", ").toList =
      ':' :: ' ' :: (Nat.toDigits 10 n ++ [','] ++ [' ']) := by
    simp
  have hdigits :
      Nat.ofDigitChars 10 ((": " ++ toString n ++ ", ").toList.drop 2).dropLast.dropLast 0
      = n := by
    rw [hlist, drop_succ_cons, drop_succ_cons, drop_zero, dropLast_concat,
      dropLast_concat, Nat.ofDigitChars_toDigits (by decide) (by decide)]
  rw [readDimensions, hdigits]
  exact if_pos rfl

theorem readSimilarity_eq (s : VectorSimilarity) :
    readSimilarity (": '" ++ similarityName s ++ "'\x7d\x7d") = some s := by
  cases s <;> decide

theorem readNeo4j_label (hs : '`' ∉ s.toList) (label : GraphLabel) (t : String) :
    readNeo4j (s ++ escapeIdentifier label.val ++ t) = readNeo4jCuts s label (cuts t) := by
  rw [readNeo4j, cuts_label hs]
  simp

theorem readFullText_label (name label : GraphLabel) (t : String) :
    readFullText name (cuts (" IF NOT EXISTS FOR (n:" ++ escapeIdentifier label.val ++ t)) =
      (readShape (cuts t)).bind (fullTextOfShape name label) := by
  rw [cuts_label (by decide), readFullText, if_pos rfl, GraphLabel.new_val, Option.bind_some]

/-- The stretches of the options of a vector index. -/
theorem cuts_vectorOptions (dimensions : Nat) (similarity : VectorSimilarity) :
    cuts (") OPTIONS \x7bindexConfig: \x7b" ++ escapeIdentifier "vector.dimensions" ++
      (": " ++ toString dimensions ++ ", " ++ escapeIdentifier "vector.similarity_function" ++
        (": '" ++ similarityName similarity ++ "'\x7d\x7d"))) =
      [") OPTIONS \x7bindexConfig: \x7b", "vector.dimensions",
        ": " ++ toString dimensions ++ ", ", "vector.similarity_function",
        ": '" ++ similarityName similarity ++ "'\x7d\x7d"] := by
  have hdimensions : '`' ∉ (": " ++ toString dimensions ++ ", ").toList := by
    intro hmem
    simp only [toList_append, mem_append] at hmem
    rcases hmem with (hmem | hmem) | hmem
    · exact absurd hmem (by decide)
    · have hmem' : '`' ∈ Nat.toDigits 10 dimensions := by simpa using hmem
      have hdigit : ('`' : Char).isDigit = true :=
        Nat.isDigit_of_mem_toDigits (by decide) (by decide) hmem'
      exact absurd hdigit (by decide)
    · exact absurd hmem (by decide)
  have hsimilarity : '`' ∉ (": '" ++ similarityName similarity ++ "'\x7d\x7d").toList := by
    cases similarity <;> decide
  rw [cuts_escaped (by decide) (by decide), cuts_escaped hdimensions (by decide),
    cuts_eq_singleton hsimilarity]

theorem readNeo4j_neo4jText (x : SchemaObject) : readNeo4j (neo4jText x) = some x := by
  cases x with
  | unique label properties =>
    unfold neo4jText
    rw [readNeo4j_label (by decide), readNeo4jCuts, if_pos rfl]
    cases properties with
    | nil => rfl
    | cons p ps =>
      rw [readShape_cuts (by decide) (by decide)]
      rfl
  | notNull label property =>
    unfold neo4jText
    rw [readNeo4j_label (by decide), readNeo4jCuts, if_pos rfl,
      readShape_cuts (by decide) (by decide)]
    simp [constraintOfShape, cuts_eq_singleton]
  | nodeKey label properties =>
    unfold neo4jText
    rw [readNeo4j_label (by decide), readNeo4jCuts, if_pos rfl]
    cases properties with
    | nil =>
      rw [propertyPaths_nil, cuts_eq_singleton (by decide)]
      simp [readShape, constraintOfShape]
    | cons p ps =>
      rw [readShape_cuts (by decide) (by decide)]
      simp [constraintOfShape, cuts_eq_singleton]
  | range label properties =>
    unfold neo4jText rangeText
    rw [readNeo4j_label (by decide), readNeo4jCuts, if_neg (by decide), if_pos rfl]
    cases properties with
    | nil => rfl
    | cons p ps =>
      rw [readShape_cuts (by decide) (by decide)]
      rfl
  | fullText name label properties =>
    unfold neo4jText
    rw [readNeo4j_label (by decide), readNeo4jCuts, if_neg (by decide),
      if_neg (by decide), if_neg (by decide), if_pos rfl, readFullText_label]
    cases properties with
    | nil => rfl
    | cons p ps =>
      rw [readShape_cuts (by decide) (by decide)]
      rfl
  | vector label property dimensions similarity =>
    have hcuts := cuts_vectorOptions dimensions similarity
    unfold neo4jText
    rw [readNeo4j_label (by decide), readNeo4jCuts, if_neg (by decide), if_neg (by decide),
      if_pos rfl, readShape_cuts (by decide) (by rw [hcuts]; simp), hcuts, Option.bind_some,
      vectorOfShape, if_pos ⟨rfl, rfl, rfl, rfl⟩, readDimensions_eq, readSimilarity_eq]
    rfl

theorem cuts_memgraph {after : String} (hs : '`' ∉ s.toList) (hbefore : '`' ∉ before.toList)
    (hafter : '`' ∉ after.toList) (label : GraphLabel) (property : PropertyKey) :
    cuts (s ++ escapeIdentifier label.val ++ (before ++ escapeIdentifier property.val ++ after)) =
      [s, label.val, before, property.val, after] := by
  rw [cuts_label hs, cuts_property hbefore, cuts_eq_singleton hafter]

theorem readMemgraph_of_memgraphText {text : String} (h : memgraphText x = some text) :
    readMemgraph text = some x := by
  unfold memgraphText at h
  split at h <;> cases h
  · rw [readMemgraph, cuts_memgraph (by decide) (by decide) (by decide)]
    simp [PropertyKey.new_val]
  · rw [readMemgraph, cuts_memgraph (by decide) (by decide) (by decide)]
    simp [PropertyKey.new_val]
  · rw [readMemgraph, cuts_memgraph (by decide) (by decide) (by decide)]
    simp [PropertyKey.new_val]

/-- A database reads a text of its dialect as the object it was written for. -/
theorem readCreate_of_createText {d : CypherDialect} {text : String}
    (h : createText d x = some text) : readCreate d text = some x := by
  cases d with
  | neo4j =>
    cases h
    exact readNeo4j_neo4jText x
  | memgraph => exact readMemgraph_of_memgraphText h

theorem readDdl_createText {db : Database} {text : String}
    (h : createText db.dialect x = some text) : readDdl db text = some (.insert x) := by
  rw [readDdl, readCreate_of_createText h]

theorem readMemgraph_rangeText (label : GraphLabel) (p : PropertyKey) :
    readMemgraph (rangeText label [p]) = none := by
  have htext : rangeText label [p] = "CREATE INDEX IF NOT EXISTS FOR (n:" ++
      escapeIdentifier label.val ++ (") ON (n." ++ escapeIdentifier p.val ++ ")") := by
    have hjoin : (") ON (" ++ "n." : String) = ") ON (n." := by decide
    unfold rangeText
    rw [← hjoin]
    simp only [propertyPaths, map_singleton, String.intercalate_singleton, String.append_assoc]
  rw [htext, readMemgraph, cuts_memgraph (by decide) (by decide) (by decide)]
  simp [PropertyKey.new_val]

/-- Only Neo4j reads the form of an index that migrations emit. -/
theorem readDdl_rangeText (db : Database) (label : GraphLabel) (p : PropertyKey) :
    readDdl db (rangeText label [p]) =
      if db.dialect = .neo4j then some (.insert (.range label [p])) else none := by
  cases hd : db.dialect with
  | neo4j =>
    rw [if_pos rfl]
    apply readDdl_createText
    rw [hd]
    rfl
  | memgraph =>
    rw [readDdl, hd, readCreate, readMemgraph_rangeText]
    rfl

/-- A text starts as its first stretch does. -/
theorem head_splitOn {s : List Char} (hs : '`' ∉ s) (t : List Char) :
    ∃ c cs, (s ++ t).splitOn '`' = (s ++ c) :: cs := by
  induction s with
  | nil =>
    cases hsplit : t.splitOn '`' with
    | nil => exact absurd hsplit (splitOn_ne_nil _ _)
    | cons c cs => exact ⟨c, cs, hsplit⟩
  | cons x xs ih =>
    rw [mem_cons, not_or] at hs
    obtain ⟨c, cs, hsplit⟩ := ih hs.2
    have hx : (x == '`') = false := by
      simpa using fun heq : x = '`' => hs.1 heq.symm
    refine ⟨c, cs, ?_⟩
    rw [cons_append, splitOn_cons_eq_if_modifyHead, hx, hsplit]
    rfl

theorem readCreate_dropIndexText (d : CypherDialect) (name : String) :
    readCreate d (dropIndexText name) = none := by
  have hprefix : '`' ∉ ("DROP INDEX IF EXISTS " : String).toList := by decide
  obtain ⟨c, cs, hcs⟩ := head_splitOn hprefix name.toList
  have hcuts : cuts (dropIndexText name) =
      ofList ("DROP INDEX IF EXISTS ".toList ++ c) :: cs.map ofList := by
    unfold cuts dropIndexText
    rw [toList_append, hcs, map_cons]
  have hfirst (s : String) (hs : s.toList.head? ≠ some 'D') :
      ofList ("DROP INDEX IF EXISTS ".toList ++ c) ≠ s := by
    intro heq
    apply hs
    rw [← heq, toList_ofList]
    rfl
  cases d with
  | neo4j =>
    show readNeo4j _ = none
    rw [readNeo4j, hcuts]
    cases cs with
    | nil => rfl
    | cons name tail =>
      have hread (label : GraphLabel) (tail : List String) : readNeo4jCuts
          (ofList ("DROP INDEX IF EXISTS ".toList ++ c)) label tail = none := by
        rw [readNeo4jCuts, if_neg (hfirst _ (by decide)), if_neg (hfirst _ (by decide)),
          if_neg (hfirst _ (by decide)), if_neg (hfirst _ (by decide))]
      simp only [map_cons, hread, Option.bind_fun_none]
  | memgraph =>
    show readMemgraph _ = none
    rw [readMemgraph, hcuts]
    split
    · rename_i first name before key after heq
      have hne (s : String) (hs : s.toList.head? ≠ some 'D') : first ≠ s := by
        rw [← (List.cons.inj heq).1]
        exact hfirst s hs
      have hconstraint := hne "CREATE CONSTRAINT ON (n:" (by decide)
      have hindex := hne "CREATE INDEX ON :" (by decide)
      simp [hconstraint, hindex]
    · rfl

theorem readDdl_dropIndexText (db : Database) (name : String) :
    readDdl db (dropIndexText name) =
      if db.dialect = .neo4j ∧ db.symbolic name = true then
        some (.remove (db.isIndexNamed name))
      else none := by
  have hdropped : droppedName (dropIndexText name) = some name := by
    unfold droppedName dropIndexText
    rw [toList_append, dropPrefix?_append_of_beq _ (by decide), Option.map_some,
      ofList_toList]
  rw [readDdl, readCreate_dropIndexText]
  cases hd : db.dialect with
  | neo4j => simp [hdropped]
  | memgraph => simp

end Ontosyx.Compile
