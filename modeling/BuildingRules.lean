import BuildingRules.Main
import BuildingRules.Shape.Enclosure
import BuildingRules.Graph.Indices
import BuildingRules.NameSupply.Uses
import BuildingRules.Rule.Changes
import BuildingRules.Rule.Form
import BuildingRules.Proofs.GraphListings
import BuildingRules.Proofs.IndexedGraphs
import BuildingRules.Proofs.Reachability
import BuildingRules.Proofs.EnclosingShapes
import BuildingRules.Proofs.Compilation
import BuildingRules.Proofs.PlainNames
import BuildingRules.Proofs.QueryText
import BuildingRules.Proofs.Rows
import BuildingRules.Proofs.AddedValues
import BuildingRules.Proofs.JoinOrder
import BuildingRules.Proofs.PatternQueries
import BuildingRules.Proofs.BuiltRules
import BuildingRules.Proofs.RowMerging
import BuildingRules.Proofs.AnyStore
import BuildingRules.Proofs.SatisfiedRules
import BuildingRules.Proofs.Resolution
import BuildingRules.Proofs.GroupingOrder
import BuildingRules.Proofs.TripleLines
import BuildingRules.Proofs.PatternDocuments
import BuildingRules.Proofs.CheckedRules
import BuildingRules.Proofs.RuleOrder
import BuildingRules.Proofs.SettledValues
import BuildingRules.Proofs.RuleDocuments
import BuildingRules.Proofs.LargerGraphs
import BuildingRules.Proofs.UnrelatedTriples
import BuildingRules.Proofs.LoadedTerms
import BuildingRules.Proofs.QueryScope
import BuildingRules.Proofs.SamePlaces
import BuildingRules.Proofs.QueryOutline
import BuildingRules.Proofs.JoinedModels
import BuildingRules.Proofs.DiagnosticBatches
import BuildingRules.Proofs.ReportRecords
import BuildingRules.Proofs.HandedOutNames
import BuildingRules.Proofs.RecognisedNames
import BuildingRules.Proofs.OrderedBooks
import BuildingRules.Graph.Search
import BuildingRules.Proofs.Searches
import BuildingRules.Proofs.PathSearches
import BuildingRules.Proofs.CellSearches
import BuildingRules.Proofs.BindingMerges
