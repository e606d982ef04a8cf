import ComponentGlue.Artifact
import ComponentGlue.Catalog
import ComponentGlue.Code.GeneratedType
import ComponentGlue.Code.TypeRef
import ComponentGlue.Command.Arguments
import ComponentGlue.Command.Run
import ComponentGlue.Disk.Tree
import ComponentGlue.Document
import ComponentGlue.Generation
import ComponentGlue.Host.Declaration
import ComponentGlue.Input
import ComponentGlue.Json.Layout
import ComponentGlue.Json.Reader
import ComponentGlue.Main
import ComponentGlue.Marker
import ComponentGlue.Memory.Fixture
import ComponentGlue.Memory.Script
import ComponentGlue.Pipeline
import ComponentGlue.Project
import ComponentGlue.Proofs.Artifact.Writing
import ComponentGlue.Proofs.Catalog
import ComponentGlue.Proofs.Code.Execution
import ComponentGlue.Proofs.Code.GeneratedType
import ComponentGlue.Proofs.Code.References
import ComponentGlue.Proofs.Code.Resources
import ComponentGlue.Proofs.Code.Scope
import ComponentGlue.Proofs.Code.TypeArguments
import ComponentGlue.Proofs.Code.TypeRef
import ComponentGlue.Proofs.Disk.Tree
import ComponentGlue.Proofs.Generation.BlockContent
import ComponentGlue.Proofs.Generation.Change
import ComponentGlue.Proofs.Generation.Clashes
import ComponentGlue.Proofs.Generation.Client
import ComponentGlue.Proofs.Generation.Completion
import ComponentGlue.Proofs.Generation.Contribution
import ComponentGlue.Proofs.Generation.Correspondence
import ComponentGlue.Proofs.Generation.Creation
import ComponentGlue.Proofs.Generation.Growth
import ComponentGlue.Proofs.Generation.HtmlText
import ComponentGlue.Proofs.Generation.Invariant
import ComponentGlue.Proofs.Generation.Isolation
import ComponentGlue.Proofs.Generation.ListenerBlock
import ComponentGlue.Proofs.Generation.LocalNames
import ComponentGlue.Proofs.Generation.Members
import ComponentGlue.Proofs.Generation.MenuDispatch
import ComponentGlue.Proofs.Generation.MethodScope
import ComponentGlue.Proofs.Generation.Naming
import ComponentGlue.Proofs.Generation.Overrides
import ComponentGlue.Proofs.Generation.ProcessorOrder
import ComponentGlue.Proofs.Generation.Resolution
import ComponentGlue.Proofs.Generation.Schedule
import ComponentGlue.Proofs.Generation.Signatures
import ComponentGlue.Proofs.Generation.StandardRun
import ComponentGlue.Proofs.Generation.Step
import ComponentGlue.Proofs.Input
import ComponentGlue.Proofs.Marker.UrlTemplate
import ComponentGlue.Proofs.Pipeline.Interruption
import ComponentGlue.Proofs.Pipeline.MarkerOrder
import ComponentGlue.Proofs.Pipeline.Outcome
import ComponentGlue.Proofs.Pipeline.Phases
import ComponentGlue.Proofs.Pipeline.Quiet
import ComponentGlue.Proofs.Pipeline.Sequence
import ComponentGlue.Proofs.Pipeline.Visits
import ComponentGlue.Proofs.Rule.Emission
import ComponentGlue.Proofs.Rule.Kind
import ComponentGlue.Proofs.Rule.ListenerCallback
import ComponentGlue.Proofs.Rule.RequestCall
import ComponentGlue.Proofs.Rule.Requirement
import ComponentGlue.Proofs.Run.Extraction
import ComponentGlue.Proofs.Run.Grouping
import ComponentGlue.Proofs.Services
import ComponentGlue.Proofs.Table
import ComponentGlue.Proofs.Text
import ComponentGlue.Proofs.Validation.Accepted
import ComponentGlue.Proofs.Validation.Cause
import ComponentGlue.Proofs.Validation.Fate
import ComponentGlue.Proofs.Validation.KindOrder
import ComponentGlue.Proofs.Validation.Monotonicity
import ComponentGlue.Proofs.Validation.Outcome
import ComponentGlue.Proofs.Validation.Pruning
import ComponentGlue.Proofs.Validation.Reordering
import ComponentGlue.Proofs.Validation.Repetition
import ComponentGlue.Proofs.Validation.Validated
import ComponentGlue.Proofs.Validation.Walk
import ComponentGlue.Proofs.Workspace.Extraction
import ComponentGlue.Proofs.Workspace.Operation
import ComponentGlue.Report.Encoding
import ComponentGlue.Rule.Basic
import ComponentGlue.Rule.Field
import ComponentGlue.Rule.Method
import ComponentGlue.Rule.Standard
import ComponentGlue.Rule.Type
import ComponentGlue.Run.Diagnostic
import ComponentGlue.Run.Encoding
import ComponentGlue.Table
import ComponentGlue.Text
import ComponentGlue.Toml.Reader
import ComponentGlue.Toml.Scalar
import ComponentGlue.Validation
import ComponentGlue.Workspace
