import Mathlib.Data.List.Basic

/-!
# Entity identifiers

The string newtypes that `define_id_newtype!` introduces, one for each kind of
entity, so that an id of one kind is never taken for an id of another.  Ids are
opaque: the platform does not restrict their characters.
-/

namespace Ontosyx.Ontology

structure NodeTypeId where
  val : String
deriving DecidableEq

structure EdgeTypeId where
  val : String
deriving DecidableEq

structure PropertyId where
  val : String
deriving DecidableEq

structure ConstraintId where
  val : String
deriving DecidableEq

/-- Identifier of a registered data source. -/
structure SourceId where
  val : String
deriving DecidableEq

structure ObjectMappingId where
  val : String
deriving DecidableEq

structure LinkMappingId where
  val : String
deriving DecidableEq

structure InterfaceId where
  val : String
deriving DecidableEq

structure ActionId where
  val : String
deriving DecidableEq

structure RuleId where
  val : String
deriving DecidableEq

structure FunctionId where
  val : String
deriving DecidableEq

structure MetricId where
  val : String
deriving DecidableEq

structure EnrichmentId where
  val : String
deriving DecidableEq

structure ConceptId where
  val : String
deriving DecidableEq

structure GlossaryTermId where
  val : String
deriving DecidableEq

structure DataQualityId where
  val : String
deriving DecidableEq

structure CodeSystemId where
  val : String
deriving DecidableEq

structure CodedValueId where
  val : String
deriving DecidableEq

structure ValueSetId where
  val : String
deriving DecidableEq

structure NotationPatternId where
  val : String
deriving DecidableEq

structure ConceptMapId where
  val : String
deriving DecidableEq

structure ValueRangeSetId where
  val : String
deriving DecidableEq

structure ColumnProfileId where
  val : String
deriving DecidableEq

structure SegmentId where
  val : String
deriving DecidableEq

structure ProvenanceId where
  val : String
deriving DecidableEq

end Ontosyx.Ontology
