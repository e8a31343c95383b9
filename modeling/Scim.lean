import Scim.Engine
import Scim.Error
import Scim.Filter.Basic
import Scim.Filter.Canonical
import Scim.Filter.Comparison
import Scim.Filter.Error
import Scim.Filter.Matching
import Scim.Filter.Parser
import Scim.Filter.Printer
import Scim.Filter.Token
import Scim.Instant
import Scim.Json.Basic
import Scim.Json.Decode
import Scim.Json.Document
import Scim.Json.NumberLiteral
import Scim.Json.Printer
import Scim.Json.StringLiteral
import Scim.Limits
import Scim.Main
import Scim.Number.Double
import Scim.Number.Power
import Scim.Number.Shortest
import Scim.Patch.Apply
import Scim.Patch.Error
import Scim.Patch.Path
import Scim.Patch.Request
import Scim.Patch.ValueCheck
import Scim.Patch.Verb
import Scim.Projection
import Scim.Proofs.Except
import Scim.Proofs.Filter.Grammar
import Scim.Proofs.Filter.Parsing
import Scim.Proofs.Filter.Tokens
import Scim.Proofs.Filter.Writing
import Scim.Proofs.Json.NumberLiteral
import Scim.Proofs.Json.ReadBack
import Scim.Proofs.Patch.Commits
import Scim.Proofs.Patch.Container
import Scim.Proofs.Patch.Mutability
import Scim.Proofs.Patch.Protected
import Scim.Proofs.Reference
import Scim.Proofs.Schema.Names
import Scim.Proofs.View
import Scim.Reference
import Scim.Registry
import Scim.Resource.Access
import Scim.Schema.Attribute
import Scim.Schema.Basic
import Scim.Schema.Codec
import Scim.Schema.Core
import Scim.Schema.Error
import Scim.Schema.Index
import Scim.Text.Ascii
import Scim.Text.Blank
import Scim.Text.Bytes
import Scim.Text.CaseData
import Scim.Text.LowerCase
import Scim.Text.Split
import Scim.Validator
import Scim.View
import Scim.Proofs.Projection.Hidden
import Scim.Proofs.Patch.Values
import Scim.Proofs.Patch.Typing
import Scim.Proofs.Patch.WellTyped
import Scim.Proofs.Filter.Equality
import Scim.Proofs.Resource.Distinct
import Scim.Proofs.Patch.Searchable
import Scim.Proofs.Patch.Faults
import Scim.Proofs.Patch.Selecting
import Scim.Proofs.Filter.Canonical
import Scim.Proofs.Registry
import Scim.Proofs.Patch.Listing
import Scim.Proofs.Patch.Declaring
import Scim.Proofs.Projection.Visible
import Scim.Proofs.Patch.Path
import Scim.Proofs.Resource.Lowered
import Scim.Proofs.Recasing
import Scim.Proofs.Resource.Edits
import Scim.Proofs.Patch.Frame
import Scim.Proofs.Patch.Fields
import Scim.Proofs.Number.Order
import Scim.Proofs.Filter.Integers
import Scim.Proofs.Filter.Folding
import Scim.Proofs.Patch.Replacing
import Scim.Proofs.Resource.Keyed
import Scim.Proofs.Patch.Keys
import Scim.Proofs.Filter.Rereading
import Scim.Proofs.Projection.Always
import Scim.Proofs.Resource.Regular
import Scim.Proofs.Patch.Rewriting
import Scim.Proofs.Patch.Repeating
import Scim.Proofs.Filter.Brackets
import Scim.Proofs.Patch.Appending
import Scim.Proofs.Patch.Undoing
import Scim.Proofs.Patch.Clearing
import Scim.Proofs.Projection.Repeated
import Scim.Proofs.Urn
import Scim.Proofs.Patch.Merging
import Scim.Proofs.Patch.Commuting
import Scim.Proofs.Addressing
import Scim.Proofs.Filter.Places
import Scim.Proofs.Patch.Places
import Scim.Proofs.Json.Written
import Scim.Proofs.Json.Values
import Scim.Proofs.Json.Records
import Scim.Proofs.Patch.Request
import Scim.Proofs.Schema.Validity
import Scim.Proofs.Schema.Index
import Scim.Proofs.Schema.Codec
import Scim.Proofs.Resource.Contract
import Scim.Proofs.Validator
