import FederatedMock.CommandLine.Help
import FederatedMock.CommandLine.LogFilter
import FederatedMock.CommandLine.Options
import FederatedMock.CommandLine.Run
import FederatedMock.Configuration.Basic
import FederatedMock.Configuration.Loading
import FederatedMock.Configuration.Reader
import FederatedMock.Coprocessor.Field
import FederatedMock.Coprocessor.Mocker
import FederatedMock.Coprocessor.Request
import FederatedMock.Decimal.Double
import FederatedMock.Decimal.Layout
import FederatedMock.Decimal.Shortest
import FederatedMock.Format.Duration
import FederatedMock.Format.DateTime
import FederatedMock.Generation.Basic
import FederatedMock.Generation.Correction
import FederatedMock.Generation.Service
import FederatedMock.Graphql.BlockString
import FederatedMock.Graphql.Parser
import FederatedMock.Graphql.Printer
import FederatedMock.Graphql.Syntax
import FederatedMock.Graphql.Token
import FederatedMock.Http.MediaType
import FederatedMock.Http.Route
import FederatedMock.Json.Basic
import FederatedMock.Json.NumberText
import FederatedMock.Json.Printer
import FederatedMock.Json.Reader
import FederatedMock.Json.Token
import FederatedMock.Main
import FederatedMock.Net.SocketAddress
import FederatedMock.Operation.Compile
import FederatedMock.Operation.Error
import FederatedMock.Operation.Level
import FederatedMock.Operation.Typename
import FederatedMock.Ordered.Basic
import FederatedMock.Registry
import FederatedMock.Schema.Extension
import FederatedMock.Schema.Problem
import FederatedMock.Schema.Subgraph
import FederatedMock.Schema.Supergraph
import FederatedMock.Schema.Supplement
import FederatedMock.Schema.TypeSystem
import FederatedMock.Schema.Validation
import FederatedMock.Shape.Basic
import FederatedMock.Shape.Coercion
import FederatedMock.Shape.Validate
import FederatedMock.Text.Basic
import FederatedMock.Text.Quoted
import FederatedMock.Text.Fence
import FederatedMock.Url.Basic
import FederatedMock.Url.Escape
import FederatedMock.Url.Host
import FederatedMock.Url.Parser
import FederatedMock.Url.Punycode
import FederatedMock.Yaml.Basic
import FederatedMock.Yaml.Reader
import FederatedMock.Yaml.Scalar
import FederatedMock.Yaml.Source
import FederatedMock.Proofs.Coprocessor.Delivery
import FederatedMock.Proofs.Coprocessor.Protocol
import FederatedMock.Proofs.Coprocessor.Request
import FederatedMock.Proofs.Decimal.Characters
import FederatedMock.Proofs.Generation.Correction
import FederatedMock.Proofs.Generation.Envelope
import FederatedMock.Proofs.Graphql.Front
import FederatedMock.Proofs.Graphql.Names
import FederatedMock.Proofs.Json.Strings
import FederatedMock.Proofs.Operation.Alike
import FederatedMock.Proofs.Operation.Alteration
import FederatedMock.Proofs.Operation.Collection
import FederatedMock.Proofs.Operation.Conservation
import FederatedMock.Proofs.Operation.Cost
import FederatedMock.Proofs.Operation.Coverage
import FederatedMock.Proofs.Operation.Cycles
import FederatedMock.Proofs.Operation.Discriminators
import FederatedMock.Proofs.Operation.ExtendedSets
import FederatedMock.Proofs.Operation.Failures
import FederatedMock.Proofs.Operation.Forcing
import FederatedMock.Proofs.Operation.Inlining
import FederatedMock.Proofs.Operation.Limits
import FederatedMock.Proofs.Operation.Occurrences
import FederatedMock.Proofs.Operation.Origin
import FederatedMock.Proofs.Operation.Reachability
import FederatedMock.Proofs.Operation.Rearrangement
import FederatedMock.Proofs.Operation.Repetition
import FederatedMock.Proofs.Operation.Reserved
import FederatedMock.Proofs.Operation.ResponseKeys
import FederatedMock.Proofs.Operation.Rules
import FederatedMock.Proofs.Operation.Size
import FederatedMock.Proofs.Operation.Spreads
import FederatedMock.Proofs.Operation.Typenames
import FederatedMock.Proofs.Operation.Variants
import FederatedMock.Proofs.Operation.Widening
import FederatedMock.Proofs.Ordered.FirstMention
import FederatedMock.Proofs.Ordered.Members
import FederatedMock.Proofs.Ordered.Names
import FederatedMock.Proofs.Ordered.Padding
import FederatedMock.Proofs.Response.Nullability
import FederatedMock.Proofs.Response.Ordering
import FederatedMock.Proofs.Response.Soundness
import FederatedMock.Proofs.Response.Typenames
import FederatedMock.Proofs.Response.Typing
import FederatedMock.Proofs.Schema.Completion
import FederatedMock.Proofs.Schema.Conservation
import FederatedMock.Proofs.Schema.Merging
import FederatedMock.Proofs.Schema.Restatement
import FederatedMock.Proofs.Schema.Statements
import FederatedMock.Proofs.Schema.Tables
import FederatedMock.Proofs.Schema.United
import FederatedMock.Proofs.Schema.Validity
import FederatedMock.Proofs.Shape.Coercion
import FederatedMock.Proofs.Shape.Idempotence
import FederatedMock.Proofs.Shape.Issues
import FederatedMock.Proofs.Shape.Outcome
import FederatedMock.Proofs.Shape.Overlooked
import FederatedMock.Proofs.Shape.Part
import FederatedMock.Proofs.Shape.Places
import FederatedMock.Proofs.Shape.Provenance
import FederatedMock.Proofs.Shape.Reordering
import FederatedMock.Proofs.Shape.Repair
import FederatedMock.Proofs.Shape.Scalar
import FederatedMock.Proofs.Shape.SortedNames
import FederatedMock.Proofs.Shape.Trimming
import FederatedMock.Proofs.Shape.Visits
import FederatedMock.Proofs.Text.Fence
import FederatedMock.Proofs.Decimal.Numerals
import FederatedMock.Proofs.Format.LocalTime
import FederatedMock.Proofs.Generation.Extraction
import FederatedMock.Proofs.Json.Numbers
import FederatedMock.Proofs.Json.Lexemes
import FederatedMock.Proofs.Json.Roundtrip
import FederatedMock.Proofs.Generation.CorrectionLines
