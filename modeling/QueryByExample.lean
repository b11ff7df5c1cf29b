import QueryByExample.Example.Inspect
import QueryByExample.Main
import QueryByExample.Proofs.Path.Continuations
import QueryByExample.Proofs.Path.Grammar
import QueryByExample.Proofs.Path.ReadBack
import QueryByExample.Proofs.Graph.Reach
import QueryByExample.Proofs.Graph.Branch
import QueryByExample.Proofs.Graph.Unfolding
import QueryByExample.Proofs.Enriched.Classical
import QueryByExample.Proofs.Graph.Failure
import QueryByExample.Proofs.Graph.Marks
import QueryByExample.Proofs.Graph.Wrapped
import QueryByExample.Proofs.Enriched.Calls
import QueryByExample.Proofs.Json.Keys
import QueryByExample.Proofs.Example.Description
import QueryByExample.Proofs.Example.Reading
import QueryByExample.Proofs.Json.Nesting
import QueryByExample.Proofs.Example.Stored
import QueryByExample.Proofs.Example.Flat
import QueryByExample.Proofs.Graph.Shown
import QueryByExample.Proofs.Json.Layout
import QueryByExample.Proofs.TextTree.Views
import QueryByExample.Proofs.TextTree.Position
import QueryByExample.Proofs.TextTree.Encoding
import QueryByExample.Proofs.TextTree.Printed
import QueryByExample.Proofs.TextTree.Shapes
import QueryByExample.Proofs.TextTree.Respelling
import QueryByExample.Proofs.TextTree.Documents
import QueryByExample.Proofs.Path.Brackets
import QueryByExample.Proofs.Path.Truth
import QueryByExample.Proofs.Path.RawText
import QueryByExample.Proofs.Path.Equality
import QueryByExample.Proofs.Graph.Remarked
import QueryByExample.Proofs.Enriched.Remarked
import QueryByExample.Proofs.Example.Tree
import QueryByExample.Proofs.Example.History
import QueryByExample.Proofs.Decimal.Shortest
import QueryByExample.Proofs.Decimal.Integers
import QueryByExample.Proofs.Path.Values
import QueryByExample.Proofs.Json.Integers
import QueryByExample.Proofs.Example.Gaps
import QueryByExample.Proofs.Example.Integers
import QueryByExample.Proofs.TextTree.Mismatch
import QueryByExample.Proofs.Path.Offsets
import QueryByExample.Proofs.Path.Bodies
import QueryByExample.Proofs.Graph.Alike
import QueryByExample.Proofs.Path.NaN
import QueryByExample.Proofs.Enriched.Unchanged
import QueryByExample.Proofs.Enriched.Difference
import QueryByExample.Proofs.Graph.Ancestors
import QueryByExample.Proofs.Path.DoubleMarks
import QueryByExample.Proofs.TextTree.DocumentOrder
import QueryByExample.Proofs.TextTree.Consulted
import QueryByExample.Proofs.TextTree.Transitivity
import QueryByExample.Proofs.TextTree.Survivors
import QueryByExample.Proofs.TextTree.SuccessiveFilters
import QueryByExample.Proofs.Example.Edited
