import HaxeBackend.Binary.Format
import HaxeBackend.Command.Arguments
import HaxeBackend.Command.Run
import HaxeBackend.Decimal.Shortest
import HaxeBackend.Decimal.Text
import HaxeBackend.Diagnostic.Basic
import HaxeBackend.Diagnostic.Code
import HaxeBackend.Diagnostic.Explanation
import HaxeBackend.Diagnostic.Queue
import HaxeBackend.Diagnostic.Terminal
import HaxeBackend.Generation.Basic
import HaxeBackend.Generation.ClassInfo
import HaxeBackend.Generation.Companion
import HaxeBackend.Generation.Expansion
import HaxeBackend.Generation.Method
import HaxeBackend.Generation.Output
import HaxeBackend.Generation.SourceUnit
import HaxeBackend.Json.Basic
import HaxeBackend.Json.Number
import HaxeBackend.Json.Reader
import HaxeBackend.Json.Token
import HaxeBackend.Json.Writer
import HaxeBackend.Lowering.Body
import HaxeBackend.Lowering.Error
import HaxeBackend.Lowering.Expr
import HaxeBackend.Lowering.Operator
import HaxeBackend.Lowering.Scope
import HaxeBackend.Lowering.State
import HaxeBackend.Lowering.Stmt
import HaxeBackend.Main
import HaxeBackend.Model.Body.Arena
import HaxeBackend.Model.Body.Basic
import HaxeBackend.Model.Body.Builder
import HaxeBackend.Model.Body.Tree
import HaxeBackend.Model.ClassModel
import HaxeBackend.Model.Descriptor
import HaxeBackend.Model.Dispatch
import HaxeBackend.Model.Document.Body
import HaxeBackend.Model.Document.Constant
import HaxeBackend.Model.Document.Program
import HaxeBackend.Model.Document.Reading
import HaxeBackend.Model.Error
import HaxeBackend.Model.Interner
import HaxeBackend.Model.Literal
import HaxeBackend.Model.Modifiers
import HaxeBackend.Model.Operator
import HaxeBackend.Model.Program
import HaxeBackend.Model.Ty
import HaxeBackend.Naming.Basic
import HaxeBackend.Naming.Encoding
import HaxeBackend.Naming.Reserved
import HaxeBackend.Options
import HaxeBackend.Store.Basic
import HaxeBackend.Store.FilePath
import HaxeBackend.Store.FileTree
import HaxeBackend.Store.Memory
import HaxeBackend.Support.Computation
import HaxeBackend.Support.Dispatch
import HaxeBackend.Support.Num
import HaxeBackend.Support.StaticInit
import HaxeBackend.Support.Value
import HaxeBackend.Target.Body
import HaxeBackend.Target.ClassInfo
import HaxeBackend.Target.Code
import HaxeBackend.Target.Companion
import HaxeBackend.Target.Expr
import HaxeBackend.Target.Function
import HaxeBackend.Target.SourceMap
import HaxeBackend.Target.SourceUnit
import HaxeBackend.Target.Stmt
import HaxeBackend.Target.Support
import HaxeBackend.Target.Writer
import HaxeBackend.Text.Hex
import HaxeBackend.Text.Lines
import HaxeBackend.Text.Unprinted
import HaxeBackend.Proofs.Arithmetic.Evaluation
import HaxeBackend.Proofs.Arithmetic.Variables
import HaxeBackend.Proofs.Arithmetic.Preservation
import HaxeBackend.Proofs.Guards.Touches
import HaxeBackend.Proofs.Guards.Placement
import HaxeBackend.Proofs.Hierarchy.Ancestors
import HaxeBackend.Proofs.Hierarchy.Implementation
import HaxeBackend.Proofs.Hierarchy.Order
import HaxeBackend.Proofs.Lowering.Sharing
import HaxeBackend.Proofs.Generation.Functions
import HaxeBackend.Proofs.Naming.Codes
import HaxeBackend.Proofs.Naming.Methods
import HaxeBackend.Proofs.Generation.Override
import HaxeBackend.Proofs.Generation.Defaults
import HaxeBackend.Proofs.Document.Descriptors
import HaxeBackend.Proofs.Document.Types
import HaxeBackend.Proofs.Naming.Members
import HaxeBackend.Proofs.Naming.Units
import HaxeBackend.Proofs.Target.Contents
import HaxeBackend.Proofs.Target.Declarations
import HaxeBackend.Proofs.Dispatch.Coverage
import HaxeBackend.Proofs.Dispatch.RoundTrip
import HaxeBackend.Proofs.Target.Mappings
import HaxeBackend.Proofs.Target.Sheets
import HaxeBackend.Proofs.Generation.SourceMaps
import HaxeBackend.Proofs.Lowering.References
import HaxeBackend.Proofs.Lowering.Failure
import HaxeBackend.Proofs.Lowering.Uses
import HaxeBackend.Proofs.Generation.Literals
import HaxeBackend.Proofs.Generation.Outcome
import HaxeBackend.Proofs.Generation.Uses
import HaxeBackend.Proofs.Generation.Linking
import HaxeBackend.Proofs.Guards.Holders
import HaxeBackend.Proofs.Store.Memory
import HaxeBackend.Proofs.Generation.Files
import HaxeBackend.Proofs.Lowering.Pool
import HaxeBackend.Proofs.Generation.Pool
import HaxeBackend.Proofs.Naming.Variables
import HaxeBackend.Proofs.Target.Heads
import HaxeBackend.Proofs.Generation.Capture
import HaxeBackend.Proofs.Lowering.Caught
import HaxeBackend.Proofs.Target.Records
import HaxeBackend.Proofs.Guards.Initialization
import HaxeBackend.Proofs.Lowering.Closed
import HaxeBackend.Proofs.Model.Interner
import HaxeBackend.Proofs.Generation.Tables
import HaxeBackend.Proofs.Generation.Interning
import HaxeBackend.Proofs.Lowering.Parameters
import HaxeBackend.Proofs.Generation.Fields
import HaxeBackend.Proofs.Generation.Constants
import HaxeBackend.Proofs.Lowering.SelfAssignment
import HaxeBackend.Proofs.Target.Quoted
import HaxeBackend.Proofs.Lowering.Jumps
import HaxeBackend.Proofs.Target.Balance
import HaxeBackend.Proofs.Lowering.Writing
import HaxeBackend.Proofs.Generation.Writing
import HaxeBackend.Proofs.Arithmetic.Single
import HaxeBackend.Proofs.Diagnostic.Bookkeeping
import HaxeBackend.Proofs.Diagnostic.Guarantee
import HaxeBackend.Proofs.Diagnostic.Interleaving
import HaxeBackend.Proofs.Hierarchy.Discovery
import HaxeBackend.Proofs.Generation.Dependencies
import HaxeBackend.Proofs.Generation.Expansion
import HaxeBackend.Proofs.Target.Positions
import HaxeBackend.Proofs.Model.Numbering
import HaxeBackend.Proofs.Model.Building
import HaxeBackend.Proofs.Model.Listing
import HaxeBackend.Proofs.Document.Bodies
