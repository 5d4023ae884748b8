import ProtectedCall.Batch
import ProtectedCall.Decimal.Layout
import ProtectedCall.Decimal.Numeral
import ProtectedCall.Decimal.Shortest
import ProtectedCall.Decimal.Signed
import ProtectedCall.Declaration
import ProtectedCall.Declaration.Json
import ProtectedCall.Error
import ProtectedCall.Execution
import ProtectedCall.Invocation
import ProtectedCall.Json.Basic
import ProtectedCall.Json.Document
import ProtectedCall.Json.Fault
import ProtectedCall.Json.Number
import ProtectedCall.Json.Record
import ProtectedCall.Json.Scanner
import ProtectedCall.Json.Skip
import ProtectedCall.Method
import ProtectedCall.OptionMap
import ProtectedCall.Plan
import ProtectedCall.Policy
import ProtectedCall.PoolOverlay
import ProtectedCall.Proofs.AssignedKeys
import ProtectedCall.Proofs.ByteOrder
import ProtectedCall.Proofs.CapturedArguments
import ProtectedCall.Proofs.Cascade
import ProtectedCall.Proofs.Chain
import ProtectedCall.Proofs.Cycle
import ProtectedCall.Proofs.DeclarationText
import ProtectedCall.Proofs.Descent
import ProtectedCall.Proofs.Digits
import ProtectedCall.Proofs.Dispatch
import ProtectedCall.Proofs.Drafts
import ProtectedCall.Proofs.Except
import ProtectedCall.Proofs.Fit
import ProtectedCall.Proofs.Frozen
import ProtectedCall.Proofs.Inheritance
import ProtectedCall.Proofs.Interference
import ProtectedCall.Proofs.Layouts
import ProtectedCall.Proofs.LooserPolicy
import ProtectedCall.Proofs.NestedKeys
import ProtectedCall.Proofs.NumberRange
import ProtectedCall.Proofs.Observed
import ProtectedCall.Proofs.OptionEntries
import ProtectedCall.Proofs.OverlayTables
import ProtectedCall.Proofs.Overloads
import ProtectedCall.Proofs.PlanIdentity
import ProtectedCall.Proofs.PoolSettings
import ProtectedCall.Proofs.Precedence
import ProtectedCall.Proofs.Reading
import ProtectedCall.Proofs.Records
import ProtectedCall.Proofs.Registering
import ProtectedCall.Proofs.RegistrationOrder
import ProtectedCall.Proofs.Replacement
import ProtectedCall.Proofs.Resolution
import ProtectedCall.Proofs.Scanning
import ProtectedCall.Proofs.Separation
import ProtectedCall.Proofs.SignatureText
import ProtectedCall.Proofs.SignedDecimals
import ProtectedCall.Proofs.Skipping
import ProtectedCall.Proofs.Spelling
import ProtectedCall.Proofs.SubstituteArguments
import ProtectedCall.Proofs.TypeNames
import ProtectedCall.Proofs.ValueDocuments
import ProtectedCall.Proofs.ValueText
import ProtectedCall.Proofs.WalkBound
import ProtectedCall.Registry
import ProtectedCall.Registry.Builder
import ProtectedCall.Resolver
import ProtectedCall.Signature
import ProtectedCall.Signature.Json
import ProtectedCall.Target
import ProtectedCall.Text.Printable
import ProtectedCall.Text.Quoted
import ProtectedCall.Text.TypeName
import ProtectedCall.Value
import ProtectedCall.Value.Json
