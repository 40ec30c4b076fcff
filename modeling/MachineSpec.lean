import MachineSpec.Codec
import MachineSpec.Decimal.Notation
import MachineSpec.Decimal.Shortest
import MachineSpec.Document.Basic
import MachineSpec.Document.Content
import MachineSpec.Document.Layout
import MachineSpec.Document.Mismatch
import MachineSpec.Document.Shape
import MachineSpec.Error
import MachineSpec.Format
import MachineSpec.Json.Fault
import MachineSpec.Json.Nulls
import MachineSpec.Json.Number
import MachineSpec.Json.Printer
import MachineSpec.Json.Quoted
import MachineSpec.Json.Reader
import MachineSpec.Json.Reading
import MachineSpec.Json.Schema
import MachineSpec.Json.Value
import MachineSpec.Keyword
import MachineSpec.Log
import MachineSpec.Markup.Arrangement
import MachineSpec.Markup.Assembly
import MachineSpec.Markup.Attribute
import MachineSpec.Markup.Cause
import MachineSpec.Markup.Content
import MachineSpec.Markup.Element
import MachineSpec.Markup.Error
import MachineSpec.Markup.Escape
import MachineSpec.Markup.Grammar
import MachineSpec.Markup.Inspection
import MachineSpec.Markup.Layout
import MachineSpec.Markup.Marker
import MachineSpec.Markup.Node
import MachineSpec.Markup.Spelling
import MachineSpec.Markup.Token
import MachineSpec.Reference.Basic
import MachineSpec.Reference.Kind
import MachineSpec.Reference.Steps
import MachineSpec.Spec.Basic
import MachineSpec.Spec.Canonical
import MachineSpec.Spec.Entities
import MachineSpec.Spec.Grant
import MachineSpec.Spec.Mentions
import MachineSpec.Stream
import MachineSpec.Text.Blank
import MachineSpec.Text.Digit
import MachineSpec.Text.Glyph
import MachineSpec.Text.Invisible
import MachineSpec.Text.Position
import MachineSpec.Text.Quoted
import MachineSpec.Text.Utf8
import MachineSpec.Yaml.BlockScalar
import MachineSpec.Yaml.Cursor
import MachineSpec.Yaml.Encoding
import MachineSpec.Yaml.Error
import MachineSpec.Yaml.Fault
import MachineSpec.Yaml.FlowScalar
import MachineSpec.Yaml.Node
import MachineSpec.Yaml.Nulls
import MachineSpec.Yaml.Outline
import MachineSpec.Yaml.Printer
import MachineSpec.Yaml.Quoting
import MachineSpec.Yaml.Reader
import MachineSpec.Yaml.Schema
import MachineSpec.Yaml.Sense
import MachineSpec.Yaml.Tag
import MachineSpec.Yaml.Token
import MachineSpec.Yaml.Tree
import MachineSpec.Zeros
import MachineSpec.Proofs.Reference.Inverse
import MachineSpec.Proofs.Reference.Selection
import MachineSpec.Proofs.Reference.Store
import MachineSpec.Proofs.Text.Coding
import MachineSpec.Proofs.Text.Numerals
import MachineSpec.Proofs.Text.Position
import MachineSpec.Proofs.Spec.Canonical
import MachineSpec.Proofs.Markup.Escaping
import MachineSpec.Proofs.Markup.Spelling
import MachineSpec.Proofs.Markup.Tokens
import MachineSpec.Proofs.Markup.Surface
import MachineSpec.Proofs.Markup.Tags
import MachineSpec.Proofs.Markup.Leaves
import MachineSpec.Proofs.Markup.Trees
import MachineSpec.Proofs.Markup.Contents
import MachineSpec.Proofs.Markup.Specs
import MachineSpec.Proofs.Outcome
import MachineSpec.Proofs.Markup.Distinct
import MachineSpec.Proofs.Markup.Acceptance
import MachineSpec.Proofs.Markup.Truncation
import MachineSpec.Proofs.Markup.Rules
import MachineSpec.Proofs.Document.Fits
import MachineSpec.Proofs.Document.Contents
import MachineSpec.Proofs.Json.Acceptance
import MachineSpec.Proofs.Json.Collections
import MachineSpec.Proofs.Json.Documents
import MachineSpec.Proofs.Json.Reading
import MachineSpec.Proofs.Yaml.Cursor
import MachineSpec.Proofs.Yaml.Encoding
import MachineSpec.Proofs.Yaml.PlainScalar
import MachineSpec.Proofs.Yaml.QuotedScalar
import MachineSpec.Proofs.Yaml.BlockScalar
import MachineSpec.Proofs.Yaml.Frontier
import MachineSpec.Proofs.Yaml.Scalars
import MachineSpec.Proofs.Yaml.Collections
import MachineSpec.Proofs.Yaml.Characters
import MachineSpec.Proofs.Yaml.Documents
import MachineSpec.Proofs.RoundTrip
import MachineSpec.Proofs.Translation
import MachineSpec.Proofs.Grants
import MachineSpec.Proofs.Stability
import MachineSpec.Proofs.Truncation
import MachineSpec.Proofs.Markup.Inspection
import MachineSpec.Proofs.Markup.Exclusive
import MachineSpec.Proofs.Markup.Surroundings
import MachineSpec.Proofs.Stream.Failing
import MachineSpec.Proofs.Stream.Reading
import MachineSpec.Proofs.Reports
import MachineSpec.Proofs.Markup.Markers
import MachineSpec.Proofs.Markup.Positions
import MachineSpec.Proofs.Markup.Assembly
import MachineSpec.Proofs.Markup.Arrangement
import MachineSpec.Proofs.Json.Uniqueness
import MachineSpec.Proofs.Json.Nulls
import MachineSpec.Proofs.Yaml.Acceptance
import MachineSpec.Proofs.Yaml.Nulls
import MachineSpec.Proofs.Nulls
import MachineSpec.Proofs.Document.Zeros
import MachineSpec.Proofs.Zeros
