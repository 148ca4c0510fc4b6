import Ontosyx.Ontology.RebaseCompleteness
import Ontosyx.Ontology.MergeLaws
import Ontosyx.Ontology.ExchangeRoundTrip
import Ontosyx.Ontology.NotationEvidence
import Ontosyx.Ontology.NotationRoundTrip
import Ontosyx.Ontology.ValueRange
import Ontosyx.Ontology.ValueSetExpansion
import Ontosyx.Ontology.EditEffect
import Ontosyx.Load.PlanOrder
import Ontosyx.Load.Incremental
import Ontosyx.Api.AtMostOnce
import Ontosyx.Api.LostUpdates
import Ontosyx.Api.Completion
import Ontosyx.Api.EditRouting
import Ontosyx.Cypher.ShaclTruth
import Ontosyx.Cypher.Clearing
import Ontosyx.Query.RenameCompleteness
import Ontosyx.Query.ConceptMapMeaning
import Ontosyx.Query.CanvasRoundTrip
import Ontosyx.Query.Route
import Ontosyx.Query.FanOut
import Ontosyx.Compile.Capture
import Ontosyx.Compile.PlanCache
import Ontosyx.Compile.MigrationLaws
import Ontosyx.Collaboration.Presence
import Ontosyx.Ontology.DependencyCompleteness
import Ontosyx.Command.Extend
import Ontosyx.Design.Merge
import Ontosyx.Design.CheckpointReplay
import Ontosyx.Source.ScanAgreement
import Ontosyx.Community.Nesting
import Ontosyx.Community.Connectivity
import Ontosyx.Community.Determinism
import Ontosyx.Community.Objective
import Ontosyx.Command.Retract
import Ontosyx.Store.RoundTrip
import Ontosyx.Query.StructuredHops
import Ontosyx.Query.Cartesian
import Ontosyx.Query.ImportScope
import Ontosyx.Cypher.ScopeTwice
import Ontosyx.Cypher.Tombstones
import Ontosyx.Ontology.Successors
import Ontosyx.Ontology.CycleSearch
import Ontosyx.Cypher.QuotedPattern
import Ontosyx.Query.FederatedScan
import Ontosyx.Store.CanonicalJson
import Ontosyx.Source.SchemaHash
import Ontosyx.Source.AnalysisScope
import Ontosyx.Source.Introspection
import Ontosyx.Store.HierarchyClosure
import Ontosyx.Store.CursorPages
import Ontosyx.Cypher.WithinClause
