import Stencil.Catalog
import Stencil.Code.Conditional
import Stencil.Code.Definition
import Stencil.Code.Imports
import Stencil.Code.Module
import Stencil.Code.Name
import Stencil.Code.Parameters
import Stencil.Code.Statement
import Stencil.CommandLine.Arguments
import Stencil.CommandLine.Invocation
import Stencil.CommandLine.Run
import Stencil.Comparison
import Stencil.Decimal.Binary64
import Stencil.Display
import Stencil.Document.Quote
import Stencil.Document.Reading
import Stencil.Document.Scalar
import Stencil.Document.Table
import Stencil.Document.Token
import Stencil.Document.Value
import Stencil.Element
import Stencil.Emit
import Stencil.Files.Disk
import Stencil.Files.Path
import Stencil.Files.Tree
import Stencil.Main
import Stencil.Manifest.Basic
import Stencil.Manifest.Check
import Stencil.Manifest.Decode
import Stencil.Manifest.Diagnostic
import Stencil.Manifest.Generate
import Stencil.Proofs.Acceptance
import Stencil.Proofs.Accounting
import Stencil.Proofs.Agreement
import Stencil.Proofs.Alone
import Stencil.Proofs.Blanks
import Stencil.Proofs.Bodies
import Stencil.Proofs.BodyLines
import Stencil.Proofs.Branches
import Stencil.Proofs.Built
import Stencil.Proofs.Capacity
import Stencil.Proofs.Chains
import Stencil.Proofs.Commands
import Stencil.Proofs.Comments
import Stencil.Proofs.Composition
import Stencil.Proofs.Contents
import Stencil.Proofs.Creation
import Stencil.Proofs.Denotation
import Stencil.Proofs.Depth
import Stencil.Proofs.Docstring
import Stencil.Proofs.FromImports
import Stencil.Proofs.ImportLines
import Stencil.Proofs.Indentation
import Stencil.Proofs.Keywords
import Stencil.Proofs.Labels
import Stencil.Proofs.Layout
import Stencil.Proofs.Linked
import Stencil.Proofs.Members
import Stencil.Proofs.Mismatch
import Stencil.Proofs.Names
import Stencil.Proofs.Offered
import Stencil.Proofs.ParameterLists
import Stencil.Proofs.ParameterNames
import Stencil.Proofs.Placement
import Stencil.Proofs.Records
import Stencil.Proofs.Refused
import Stencil.Proofs.Registry
import Stencil.Proofs.Replay
import Stencil.Proofs.Retries
import Stencil.Proofs.Rules
import Stencil.Proofs.Scanning
import Stencil.Proofs.Segments
import Stencil.Proofs.Silence
import Stencil.Proofs.Spacing
import Stencil.Proofs.Starter
import Stencil.Proofs.Termination
import Stencil.Proofs.UnknownKeys
import Stencil.Sink
import Stencil.Sink.Bounded
import Stencil.Style
import Stencil.Text.Alphabetic
import Stencil.Text.Blank
import Stencil.Text.CodePoints
import Stencil.Text.Find
import Stencil.Text.Lines
import Stencil.Text.Numeric
import Stencil.Text.Quoted
import Stencil.Text.Split
import Stencil.Text.Unprintable
import Stencil.Transcript
import Stencil.WriteError
import Stencil.Writer
