import GraphQuery.Main
import GraphQuery.Trace.Step
import GraphQuery.Proofs.Query.RoundTrip
import GraphQuery.Proofs.Plan.Meaning
import GraphQuery.Proofs.Command.Where
import GraphQuery.Proofs.Plan.Transform
import GraphQuery.Proofs.Form.Grammar
import GraphQuery.Proofs.Command.Projection
import GraphQuery.Proofs.Command.Acceptance
import GraphQuery.Proofs.Plan.Conserved
import GraphQuery.Proofs.Plan.Elements
import GraphQuery.Proofs.Plan.Kept
import GraphQuery.Proofs.Command.Selected
import GraphQuery.Proofs.Command.Description
import GraphQuery.Proofs.Term.Mentioned
import GraphQuery.Proofs.Command.Mentioned
import GraphQuery.Proofs.Command.Placeholders
import GraphQuery.Proofs.Term.Value
import GraphQuery.Proofs.Catalog.Store
import GraphQuery.Proofs.Catalog.Changes
import GraphQuery.Proofs.Command.Phases
import GraphQuery.Proofs.Command.NamedGraphs
import GraphQuery.Proofs.Term.Typing
import GraphQuery.Proofs.Plan.GraphTree
import GraphQuery.Proofs.Command.Dataset
import GraphQuery.Proofs.Command.Selectors
import GraphQuery.Proofs.Plan.Widening
import GraphQuery.Proofs.Form.Concatenation
import GraphQuery.Proofs.Query.ClauseOrder
import GraphQuery.Proofs.Settings.GraphNames
import GraphQuery.Proofs.Form.Progress
import GraphQuery.Proofs.Form.AtomClasses
import GraphQuery.Proofs.Query.Integers
