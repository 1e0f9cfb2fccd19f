import TableScribe.Main
import TableScribe.Proofs.Statement.Acceptance
import TableScribe.Proofs.Statement.Definitions
import TableScribe.Proofs.Statement.Leniency
import TableScribe.Proofs.Statement.Rendering
import TableScribe.Proofs.Lexical.Cuts
import TableScribe.Proofs.Lexical.Layout
import TableScribe.Proofs.Statement.RoundTrip
import TableScribe.Proofs.Statement.Faults
import TableScribe.Proofs.Statement.WellFormed
import TableScribe.Proofs.Code.Catalog
import TableScribe.Proofs.Code.ClassFiles
import TableScribe.Proofs.Code.Declarations
import TableScribe.Proofs.Code.References
import TableScribe.Proofs.Code.Imports
import TableScribe.Proofs.Code.Contents
import TableScribe.Proofs.Code.Constructors
import TableScribe.Proofs.Lexical.Semicolons
import TableScribe.Proofs.Script.Statements
import TableScribe.Proofs.Statement.Semicolon
import TableScribe.Proofs.Script.Blocks
import TableScribe.Proofs.Script.Comments
import TableScribe.Proofs.Storage.Places
import TableScribe.Proofs.Lookup
import TableScribe.Proofs.Storage.Changes
import TableScribe.Proofs.Run.Writing
import TableScribe.Proofs.Run.Reading
import TableScribe.Proofs.Code.Paths
import TableScribe.Proofs.Code.Containment
import TableScribe.Proofs.Statement.Names
import TableScribe.Proofs.Run.Containment
import TableScribe.Proofs.Metadata.Grammar
import TableScribe.Proofs.Metadata.Reader
import TableScribe.Proofs.Metadata.Decoding
import TableScribe.Proofs.Statement.Segments
import TableScribe.Proofs.Statement.Attributes
import TableScribe.Proofs.Statement.Nested
import TableScribe.Proofs.Statement.ColumnNames
import TableScribe.Proofs.Statement.Outcomes
import TableScribe.Proofs.Script.Endings
import TableScribe.Proofs.Statement.DefaultClause
import TableScribe.Proofs.Script.Splitting
import TableScribe.Proofs.Code.Sharing
import TableScribe.Proofs.Code.Selection
import TableScribe.Proofs.Code.Subclass
import TableScribe.Proofs.Text.Words
import TableScribe.Proofs.Code.Handlers
import TableScribe.Proofs.Text.CaseImages
import TableScribe.Proofs.Code.Elements
import TableScribe.Proofs.Code.ClassElements
import TableScribe.Proofs.Statement.Defaults
import TableScribe.Proofs.Code.PlainTexts
import TableScribe.Proofs.Code.Enclosure
import TableScribe.Proofs.Lexical.Words
import TableScribe.Proofs.Text.Separators
import TableScribe.Proofs.Script.Relations
import TableScribe.Proofs.Code.Bindings
import TableScribe.Proofs.Statement.Progress
import TableScribe.Proofs.Code.Literals
