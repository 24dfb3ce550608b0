import EventPattern.Main
import EventPattern.Model.Json
import EventPattern.Suggestion
import EventPattern.Proofs.Json.Quoting
import EventPattern.Proofs.Json.Records
import EventPattern.Proofs.Number.Rounding
import EventPattern.Proofs.Param.Reading
import EventPattern.Proofs.Sorting
import EventPattern.Proofs.Related
import EventPattern.Proofs.Document.Gathering
import EventPattern.Proofs.Document.Shape
import EventPattern.Proofs.Document.Acceptance
import EventPattern.Proofs.Document.Proper
import EventPattern.Proofs.Document.Written
import EventPattern.Proofs.Catalog.Loading
import EventPattern.Proofs.Catalog.WellFormed
import EventPattern.Proofs.Compilation.Outcome
import EventPattern.Proofs.Compilation.Acceptance
import EventPattern.Proofs.Json.IdOrder
import EventPattern.Proofs.Resolution.Layers
import EventPattern.Proofs.Resolution.Twice
import EventPattern.Proofs.Resolution.Rewrapping
import EventPattern.Proofs.Resolution.Trail
import EventPattern.Proofs.Compilation.Recompilation
import EventPattern.Proofs.Compilation.Admission
import EventPattern.Proofs.Iseql.Calls
import EventPattern.Proofs.Iseql.Layout
import EventPattern.Proofs.Compilation.Artifact
import EventPattern.Proofs.Compilation.Layering
import EventPattern.Proofs.Compilation.Trail
import EventPattern.Proofs.Document.Verdict
import EventPattern.Proofs.Compilation.Closure
import EventPattern.Proofs.Resolution.Aliases
import EventPattern.Proofs.Document.Rearranging
import EventPattern.Proofs.Resolution.Rearranging
import EventPattern.Proofs.Compilation.AuthoringOrder
import EventPattern.Proofs.Document.Findings
import EventPattern.Proofs.Document.Distinct
import EventPattern.Proofs.Compilation.IssuePlaces
import EventPattern.Proofs.Document.Recasting
import EventPattern.Proofs.Location
import EventPattern.Proofs.Suggestion
import EventPattern.Proofs.Timeline
import EventPattern.Proofs.Issue
import EventPattern.Proofs.Json.Keys
import EventPattern.Proofs.Text.ByteOrder
import EventPattern.Proofs.Review.Paths
import EventPattern.Proofs.Review.Relocation
import EventPattern.Proofs.Review.Repetition
import EventPattern.Proofs.Compilation.IssueOrder
import EventPattern.Proofs.Compilation.MissingParams
import EventPattern.Proofs.Compilation.Staging
import EventPattern.Proofs.Compilation.ShapesAgree
import EventPattern.Proofs.Catalog.Acceptance
import EventPattern.Proofs.Catalog.EntryOrder
import EventPattern.Proofs.Document.Respelling
import EventPattern.Proofs.Document.Ticks
import EventPattern.Proofs.Catalog.Spelling
import EventPattern.Proofs.Review.Respelling
import EventPattern.Proofs.Compilation.Selection
import EventPattern.Proofs.Compilation.Spelling
import EventPattern.Proofs.Number.Basin
import EventPattern.Proofs.Number.PlainText
import EventPattern.Proofs.Iseql.LineBreaks
import EventPattern.Proofs.Iseql.Omission
import EventPattern.Proofs.Review.Locality
import EventPattern.Proofs.Document.Scopes
import EventPattern.Proofs.Document.Independence
import EventPattern.Proofs.Json.CanonicalOrder
import EventPattern.Proofs.Json.Reordering
import EventPattern.Proofs.Resolution.Correspondence
import EventPattern.Proofs.Compilation.Goals
import EventPattern.Proofs.CommandLine.Emission
import EventPattern.Proofs.Param.RoundTrip
