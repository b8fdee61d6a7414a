import EntityCatalog.Catalog
import EntityCatalog.Decimal.Basic
import EntityCatalog.Decimal.Text
import EntityCatalog.Document
import EntityCatalog.Entity
import EntityCatalog.Formula
import EntityCatalog.Formula.Bytewise
import EntityCatalog.Graph
import EntityCatalog.Graph.Indexed
import EntityCatalog.Guarded
import EntityCatalog.Schema.Codec
import EntityCatalog.Schema.Entities
import EntityCatalog.Schema.Envelope
import EntityCatalog.SortedMap
import EntityCatalog.Store
import EntityCatalog.Text
import EntityCatalog.Timestamp
import EntityCatalog.Timestamp.Reading
import EntityCatalog.Wire.Compression
import EntityCatalog.Wire.Decoding
import EntityCatalog.Wire.Encoding
import EntityCatalog.Wire.Indexed
import EntityCatalog.Wire.Primitives
import EntityCatalog.Wire.Unpacking
import EntityCatalog.Proofs.Catalog.Contents
import EntityCatalog.Proofs.Catalog.Listing
import EntityCatalog.Proofs.Catalog.Runs
import EntityCatalog.Proofs.Decimal.Bytewise
import EntityCatalog.Proofs.Decimal.Cancellation
import EntityCatalog.Proofs.Decimal.Comparison
import EntityCatalog.Proofs.Decimal.Denotation
import EntityCatalog.Proofs.Decimal.Language
import EntityCatalog.Proofs.Decimal.Literal
import EntityCatalog.Proofs.Decimal.Numeral
import EntityCatalog.Proofs.Decimal.Overflow
import EntityCatalog.Proofs.Decimal.Reading
import EntityCatalog.Proofs.Decimal.Scan
import EntityCatalog.Proofs.Decimal.Sums
import EntityCatalog.Proofs.Decimal.Text
import EntityCatalog.Proofs.Decimal.Value
import EntityCatalog.Proofs.Edits
import EntityCatalog.Proofs.Elements
import EntityCatalog.Proofs.Fields
import EntityCatalog.Proofs.Formula.Bytewise
import EntityCatalog.Proofs.Formula.Evaluation
import EntityCatalog.Proofs.Formula.Grammar
import EntityCatalog.Proofs.Formula.Language
import EntityCatalog.Proofs.Formula.Questions
import EntityCatalog.Proofs.Formula.Tokens
import EntityCatalog.Proofs.Graph.Changes
import EntityCatalog.Proofs.Graph.Contents
import EntityCatalog.Proofs.Graph.Equality
import EntityCatalog.Proofs.Graph.Growth
import EntityCatalog.Proofs.Graph.History
import EntityCatalog.Proofs.Graph.Indexed
import EntityCatalog.Proofs.Graph.Reachability
import EntityCatalog.Proofs.Graph.Rebuild
import EntityCatalog.Proofs.Graph.Worklist
import EntityCatalog.Proofs.Requests
import EntityCatalog.Proofs.Results
import EntityCatalog.Proofs.Rows
import EntityCatalog.Proofs.Schema.Codec
import EntityCatalog.Proofs.Schema.Entities
import EntityCatalog.Proofs.Schema.Envelope
import EntityCatalog.Proofs.Schema.FieldsRead
import EntityCatalog.Proofs.Schema.GraphReading
import EntityCatalog.Proofs.Schema.Header
import EntityCatalog.Proofs.Schema.Names
import EntityCatalog.Proofs.Schema.Resave
import EntityCatalog.Proofs.Schema.Versions
import EntityCatalog.Proofs.SortedMap
import EntityCatalog.Proofs.Store.Contents
import EntityCatalog.Proofs.Store.Runs
import EntityCatalog.Proofs.Text.Ascii
import EntityCatalog.Proofs.Text.Positions
import EntityCatalog.Proofs.Timestamp.Calendar
import EntityCatalog.Proofs.Timestamp.Language
import EntityCatalog.Proofs.Timestamp.NextDay
import EntityCatalog.Proofs.Timestamp.Parts
import EntityCatalog.Proofs.Timestamp.Reading
import EntityCatalog.Proofs.Timestamp.RoundTrip
import EntityCatalog.Proofs.Timestamp.Text
import EntityCatalog.Proofs.Timestamp.Words
import EntityCatalog.Proofs.Timestamp.Zone
import EntityCatalog.Proofs.Wire.Accepted
import EntityCatalog.Proofs.Wire.Bounds
import EntityCatalog.Proofs.Wire.Form
import EntityCatalog.Proofs.Wire.Frames
import EntityCatalog.Proofs.Wire.Indexed
import EntityCatalog.Proofs.Wire.Locality
import EntityCatalog.Proofs.Wire.Loosening
import EntityCatalog.Proofs.Wire.Packed
import EntityCatalog.Proofs.Wire.Primitives
import EntityCatalog.Proofs.Wire.RoundTrip
import EntityCatalog.Proofs.Wire.Runs
import EntityCatalog.Proofs.Wire.Shortest
import EntityCatalog.Proofs.Wire.Streams
import EntityCatalog.Proofs.Wire.Writing
