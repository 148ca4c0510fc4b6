import Mathlib.Data.List.Basic
import Mathlib.Data.Rat.Defs

/-!
# Source schemas

What is introspected of a data source: its tables with their columns and
primary keys, and the foreign keys between them, declared or inferred; and the
batches in which a large schema is designed.
-/

namespace Ontosyx.Core

structure SourceColumnDef where
  name : String
  dataType : String
  nullable : Bool
deriving DecidableEq

structure SourceTableDef where
  name : String
  columns : List SourceColumnDef
  primaryKey : List String
deriving DecidableEq

/-- `ForeignKeyDef`; `inferred` where no constraint declares it. -/
structure ForeignKeyDef where
  fromTable : String
  fromColumn : String
  toTable : String
  toColumn : String
  inferred : Bool
deriving DecidableEq

structure SourceSchema where
  sourceType : String
  tables : List SourceTableDef
  foreignKeys : List ForeignKeyDef
deriving DecidableEq

/-- `ImpliedRelationship`; the confidence is a finite number. -/
structure ImpliedRelationship where
  fromTable : String
  fromColumn : String
  toTable : String
  toColumn : String
  confidence : Rat
  reason : String
  repoConfirmed : Bool
deriving DecidableEq

/-- Relationships below this confidence are skipped. -/
def ImpliedRelationship.isConfirmed (rel : ImpliedRelationship) : Bool :=
  !decide (rel.confidence < 4 / 5)

/-- `implied_fk`. -/
def ImpliedRelationship.foreignKey (rel : ImpliedRelationship) : ForeignKeyDef :=
  ⟨rel.fromTable, rel.fromColumn, rel.toTable, rel.toColumn, true⟩

/-- The pair of tables that a foreign key joins. -/
def ForeignKeyDef.pair (fk : ForeignKeyDef) : String × String := (fk.fromTable, fk.toTable)

/-- Two foreign keys over the same columns: one may be declared and the other inferred. -/
def ForeignKeyDef.SameColumns (a b : ForeignKeyDef) : Prop :=
  a.pair = b.pair ∧ a.fromColumn = b.fromColumn ∧ a.toColumn = b.toColumn

instance (a b : ForeignKeyDef) : Decidable (a.SameColumns b) :=
  inferInstanceAs (Decidable (_ ∧ _ ∧ _))

end Ontosyx.Core

namespace Ontosyx.Design

open Ontosyx.Core

structure TableCluster where
  id : Nat
  tables : List String
  internalFks : List ForeignKeyDef
  crossFks : List ForeignKeyDef
deriving DecidableEq

/-- `ClusterPlan`: the clusters, and the levels of their ids. -/
structure ClusterPlan where
  clusters : List TableCluster
  levels : List (List Nat)
deriving DecidableEq

/-- The foreign keys that some cluster lists as crossing its border. -/
def ClusterPlan.crossFks (plan : ClusterPlan) : List ForeignKeyDef :=
  plan.clusters.flatMap (·.crossFks)

end Ontosyx.Design
