import NestedRead.Catalog.Codec
import NestedRead.Config.Codec
import NestedRead.Main
import NestedRead.Statement.Codec
import NestedRead.Proofs.Sql.Condition
import NestedRead.Proofs.Filter.Compiled
import NestedRead.Proofs.Naming.Alias
import NestedRead.Proofs.Naming.Key
import NestedRead.Proofs.Catalog.Accepted
import NestedRead.Proofs.Selection.WellFormed
import NestedRead.Proofs.Query.Plan
import NestedRead.Proofs.Statement.Clauses
import NestedRead.Proofs.Query.Planned
import NestedRead.Proofs.Number.IntegerRounding
import NestedRead.Proofs.Rows.EntityIdOrder
import NestedRead.Proofs.Ascending
import NestedRead.Proofs.Rows.Indexed
import NestedRead.Proofs.Query.PlanNodes
import NestedRead.Proofs.Query.RowFormat
import NestedRead.Proofs.Query.Agreement
import NestedRead.Proofs.Query.Loops
import NestedRead.Proofs.Query.Rows
import NestedRead.Proofs.Query.Reconstruction
import NestedRead.Proofs.Forest.Basic
import NestedRead.Proofs.Forest.Flatten
import NestedRead.Proofs.Forest.Roundtrip
import NestedRead.Proofs.Sql.Answer
import NestedRead.Proofs.Reading.Basic
import NestedRead.Proofs.Reading.Joins
import NestedRead.Proofs.Reading.Answer
import NestedRead.Proofs.Query.Mirror
import NestedRead.Proofs.Query.Vocabulary
import NestedRead.Proofs.Query.Operands
import NestedRead.Proofs.Rows.Contents
import NestedRead.Proofs.Query.Indexed
import NestedRead.Proofs.Sql.Placeholder
import NestedRead.Proofs.Statement.Aligned
import NestedRead.Proofs.Sql.Legible
import NestedRead.Proofs.Statement.Unambiguous
import NestedRead.Proofs.Query.Kept
import NestedRead.Proofs.Rows.Acceptance
import NestedRead.Proofs.Json.Same
import NestedRead.Proofs.Rows.Erased
import NestedRead.Proofs.Query.Independent
import NestedRead.Proofs.Rows.Repeated
import NestedRead.Proofs.Query.RowSet
import NestedRead.Proofs.Selection.Merging
import NestedRead.Proofs.Selection.Merged
import NestedRead.Proofs.Number.ExactValue
import NestedRead.Proofs.Rows.NumericOrder
import NestedRead.Proofs.Number.NearestFloat
import NestedRead.Proofs.Rows.EntityIdKey
import NestedRead.Proofs.Naming.Column
import NestedRead.Proofs.Filter.Acceptance
import NestedRead.Proofs.Query.Bound
import NestedRead.Proofs.Naming.Search
import NestedRead.Proofs.Naming.Resolution
import NestedRead.Proofs.Selection.Edges
import NestedRead.Proofs.Query.Failures
import NestedRead.Proofs.Catalog.Defined
import NestedRead.Proofs.Request.Notation
