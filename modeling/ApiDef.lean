import ApiDef.Cache.Reading
import ApiDef.Main
import ApiDef.Proofs.Check.Walk
import ApiDef.Proofs.Model.WellFormed
import ApiDef.Proofs.Reader.Ensures
import ApiDef.Proofs.Text.Literal
import ApiDef.Proofs.Reader.Content
import ApiDef.Proofs.Reader.DocumentContent
import ApiDef.Proofs.Reader.Quiet
import ApiDef.Proofs.Parser.Follows
import ApiDef.Proofs.Parser.Document
import ApiDef.Proofs.Document.Interleaving
import ApiDef.Proofs.Document.Findings
import ApiDef.Proofs.Reader.Words
import ApiDef.Proofs.Reader.TypeText
import ApiDef.Proofs.Reader.TagText
import ApiDef.Proofs.Reader.DescriptionText
import ApiDef.Proofs.Layout.Chars
import ApiDef.Proofs.Reader.PropertyText
import ApiDef.Proofs.Reader.DeclarationText
import ApiDef.Proofs.Reader.DocumentText
import ApiDef.Proofs.Layout.Trim
import ApiDef.Proofs.Document.RoundTrip
import ApiDef.Proofs.Cache.Faithful
import ApiDef.Proofs.Json.Written
import ApiDef.Proofs.Schema.BagEntries
import ApiDef.Proofs.Json.Fitting
import ApiDef.Proofs.Schema.Decoding
import ApiDef.Proofs.Schema.Depth
import ApiDef.Proofs.Schema.Regenerated
import ApiDef.Proofs.Schema.Revalidated
import ApiDef.Proofs.Schema.Spelling
import ApiDef.Proofs.Document.Regeneration
import ApiDef.Proofs.Schema.Shapes
import ApiDef.Proofs.Schema.Canonical
import ApiDef.Proofs.Schema.Settled
import ApiDef.Proofs.Text.Places
import ApiDef.Proofs.Text.Describing
import ApiDef.Proofs.Token.Comments
import ApiDef.Proofs.Reader.Gap
import ApiDef.Proofs.Reader.InStep
import ApiDef.Proofs.Reader.PendingLines
import ApiDef.Proofs.Document.Comments
import ApiDef.Proofs.Document.Descriptions
import ApiDef.Proofs.Cache.Accounting
import ApiDef.Proofs.Document.WellFormed
import ApiDef.Proofs.Reader.Located
import ApiDef.Proofs.Document.Located
import ApiDef.Proofs.Text.Locations
import ApiDef.Proofs.Reader.Wording
import ApiDef.Proofs.Reader.Replay
import ApiDef.Proofs.Reader.Replayed
import ApiDef.Proofs.Reader.ItemsInOrder
import ApiDef.Proofs.Document.Spans
import ApiDef.Proofs.Cache.Eviction
import ApiDef.Proofs.Text.Respelled
import ApiDef.Proofs.Text.RespelledLiteral
import ApiDef.Proofs.Reader.InParallel
import ApiDef.Proofs.Reader.WordsInParallel
import ApiDef.Proofs.Reader.DeclarationsInParallel
import ApiDef.Proofs.Reader.DocumentsInParallel
import ApiDef.Proofs.Document.LineEndings
import ApiDef.Proofs.Check.Growth
import ApiDef.Proofs.Reader.DocumentsInSequence
import ApiDef.Proofs.Document.Composition
import ApiDef.Proofs.Text.PlainLines
import ApiDef.Proofs.Layout.PlainLines
import ApiDef.Proofs.Document.Formatting
import ApiDef.Proofs.CommandLine.Folder
import ApiDef.Proofs.CommandLine.FormatCheck
import ApiDef.Proofs.Token.Names
import ApiDef.Proofs.Layout.Names
import ApiDef.Proofs.Rest.Route
import ApiDef.Proofs.Rest.Template
import ApiDef.Proofs.Reader.TypeSpelling
import ApiDef.Proofs.Schema.ShapeText
import ApiDef.Proofs.Reader.Loosened
import ApiDef.Proofs.Check.Loosened
import ApiDef.Proofs.Document.Loosened
import ApiDef.Proofs.Token.Partition
import ApiDef.Proofs.Json.StringLiteral
import ApiDef.Proofs.Token.Literals
import ApiDef.Proofs.Json.Accepted
import ApiDef.Proofs.Schema.BagHistory
