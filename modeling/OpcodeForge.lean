import OpcodeForge.Main
import OpcodeForge.Program
import OpcodeForge.Sample.Lowering
import OpcodeForge.Workspace.Tree
import OpcodeForge.Proofs.Table
import OpcodeForge.Proofs.Wire
import OpcodeForge.Proofs.Encoding
import OpcodeForge.Proofs.RoundTrip
import OpcodeForge.Proofs.Decoding
import OpcodeForge.Proofs.Compatibility
import OpcodeForge.Proofs.History
import OpcodeForge.Proofs.Generated.Text
import OpcodeForge.Proofs.Generated.Writing
import OpcodeForge.Proofs.Generation
import OpcodeForge.Proofs.Acceptance
import OpcodeForge.Proofs.InPlace
import OpcodeForge.Proofs.Generated.Structure
import OpcodeForge.Proofs.Generated.Reading
import OpcodeForge.Proofs.Generated.ReaderRun
import OpcodeForge.Proofs.Generated.WireFormat
import OpcodeForge.Proofs.Generated.Grammar
import OpcodeForge.Proofs.Sample.Codec
import OpcodeForge.Proofs.Lines
import OpcodeForge.Proofs.Sample.Line
import OpcodeForge.Proofs.Sample.Assembly
import OpcodeForge.Proofs.Generated.Positions
import OpcodeForge.Proofs.Generated.Dispatch
import OpcodeForge.Proofs.Generated.Names
import OpcodeForge.Proofs.Generated.Nesting
import OpcodeForge.Proofs.Generated.Binding
import OpcodeForge.Proofs.Generated.Coverage
import OpcodeForge.Proofs.Sample.BackEnd
import OpcodeForge.Proofs.Loading
import OpcodeForge.Proofs.Appending
import OpcodeForge.Proofs.Json
import OpcodeForge.Proofs.ManifestText
import OpcodeForge.Proofs.Path
import OpcodeForge.Proofs.Workspace
import OpcodeForge.Proofs.Run
import OpcodeForge.Proofs.FixedPoint
import OpcodeForge.Proofs.Config
import OpcodeForge.Proofs.Resolution
import OpcodeForge.Proofs.Intact
import OpcodeForge.Proofs.Drift
import OpcodeForge.Proofs.Inputs
import OpcodeForge.Proofs.Truncation
import OpcodeForge.Proofs.Listing
import OpcodeForge.Proofs.Writer
import OpcodeForge.Proofs.Rendering
