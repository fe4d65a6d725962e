import SqlClause.Json.Reader
import SqlClause.Page
import SqlClause.Placeholder.Numbering
import SqlClause.Query.Operation
import SqlClause.Wire.Encoding
import SqlClause.Proofs.Placeholder.Scan
import SqlClause.Proofs.Placeholder.Slot
import SqlClause.Proofs.Placeholder.Finished
import SqlClause.Proofs.Placeholder.Gaps
import SqlClause.Proofs.Placeholder.Literal
import SqlClause.Proofs.Layout.Basic
import SqlClause.Proofs.Layout.Rendering
import SqlClause.Proofs.Layout.Clause
import SqlClause.Proofs.Predicate
import SqlClause.Proofs.Layout.Scan
import SqlClause.Proofs.Alignment
import SqlClause.Proofs.DirectNumbering
import SqlClause.Proofs.EmptyLists
import SqlClause.Proofs.Layout.Map
import SqlClause.Proofs.Operands
import SqlClause.Proofs.Streaming
import SqlClause.Proofs.Abandonment
import SqlClause.Proofs.Nesting
import SqlClause.Proofs.Condition.Token
import SqlClause.Proofs.Condition.Grammar
import SqlClause.Proofs.Layout.Symbols
import SqlClause.Proofs.Grouping
import SqlClause.Proofs.Placeholder.Seam
import SqlClause.Proofs.Shape
import SqlClause.Proofs.EventLog
import SqlClause.Proofs.Wire.Misplacement
import SqlClause.Proofs.Wire.ArrayReader
import SqlClause.Proofs.Wire.Integers
import SqlClause.Proofs.Paging
import SqlClause.Proofs.Concatenation
import SqlClause.Proofs.Value.Equality
import SqlClause.Proofs.Interleaving
import SqlClause.Proofs.Abbreviation
