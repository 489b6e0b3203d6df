import GraphMapper.Calendar.Date
import GraphMapper.Calendar.DateTime
import GraphMapper.Calendar.Iso
import GraphMapper.Connector.Call
import GraphMapper.Connector.Execution
import GraphMapper.Connector.Operations
import GraphMapper.Connector.Server
import GraphMapper.Connector.State
import GraphMapper.Execution.Mode
import GraphMapper.Execution.Options
import GraphMapper.Execution.Settings
import GraphMapper.Execution.Submission
import GraphMapper.Failure
import GraphMapper.Failure.Report
import GraphMapper.Filter.Condition
import GraphMapper.Filter.Parser
import GraphMapper.Filter.Scope
import GraphMapper.Graph.Evaluator
import GraphMapper.Graph.Item
import GraphMapper.Graph.Store
import GraphMapper.Model.Basic
import GraphMapper.Model.Definition
import GraphMapper.Model.Registry
import GraphMapper.Model.Retry
import GraphMapper.Number.Binary64
import GraphMapper.Number.Ratio
import GraphMapper.Number.Reader
import GraphMapper.Number.Shortest
import GraphMapper.Proofs.Calendar.Ordinal
import GraphMapper.Proofs.Calendar.Written
import GraphMapper.Proofs.Connector.Answers
import GraphMapper.Proofs.Connector.Arranged
import GraphMapper.Proofs.Connector.ById
import GraphMapper.Proofs.Connector.Changes
import GraphMapper.Proofs.Connector.Commit
import GraphMapper.Proofs.Connector.Creation
import GraphMapper.Proofs.Connector.Destroying
import GraphMapper.Proofs.Connector.Destruction
import GraphMapper.Proofs.Connector.Ended
import GraphMapper.Proofs.Connector.Finding
import GraphMapper.Proofs.Connector.Frame
import GraphMapper.Proofs.Connector.Lookup
import GraphMapper.Proofs.Connector.Malformed
import GraphMapper.Proofs.Connector.Observing
import GraphMapper.Proofs.Connector.Ordering
import GraphMapper.Proofs.Connector.Outcomes
import GraphMapper.Proofs.Connector.Pending
import GraphMapper.Proofs.Connector.Projection
import GraphMapper.Proofs.Connector.Proper
import GraphMapper.Proofs.Connector.Reads
import GraphMapper.Proofs.Connector.Records
import GraphMapper.Proofs.Connector.References
import GraphMapper.Proofs.Connector.Rejection
import GraphMapper.Proofs.Connector.Replacing
import GraphMapper.Proofs.Connector.Resaving
import GraphMapper.Proofs.Connector.Runs
import GraphMapper.Proofs.Connector.Single
import GraphMapper.Proofs.Connector.Unmetered
import GraphMapper.Proofs.Connector.Updating
import GraphMapper.Proofs.Connector.Work
import GraphMapper.Proofs.Execution.Retry
import GraphMapper.Proofs.Execution.Script
import GraphMapper.Proofs.Execution.Settings
import GraphMapper.Proofs.Failure.Checked
import GraphMapper.Proofs.Failure.Rejection
import GraphMapper.Proofs.Filter.Dropping
import GraphMapper.Proofs.Filter.Grammar
import GraphMapper.Proofs.Filter.Keys
import GraphMapper.Proofs.Filter.Lookup
import GraphMapper.Proofs.Filter.Malformed
import GraphMapper.Proofs.Filter.Meaning
import GraphMapper.Proofs.Filter.Removal
import GraphMapper.Proofs.Filter.Selection
import GraphMapper.Proofs.Filter.Sought
import GraphMapper.Proofs.Graph.Chaining
import GraphMapper.Proofs.Graph.Coherence
import GraphMapper.Proofs.Graph.Columns
import GraphMapper.Proofs.Graph.Creating
import GraphMapper.Proofs.Graph.Index
import GraphMapper.Proofs.Graph.Overriding
import GraphMapper.Proofs.Graph.Properties
import GraphMapper.Proofs.Graph.Reachable
import GraphMapper.Proofs.Graph.Refusals
import GraphMapper.Proofs.Graph.Rows
import GraphMapper.Proofs.Graph.Running
import GraphMapper.Proofs.Graph.Safety
import GraphMapper.Proofs.Graph.Touching
import GraphMapper.Proofs.Graph.Writing
import GraphMapper.Proofs.Model.Definition
import GraphMapper.Proofs.Model.Keys
import GraphMapper.Proofs.Model.Registry
import GraphMapper.Proofs.Number.Rounding
import GraphMapper.Proofs.Query.Appending
import GraphMapper.Proofs.Query.Arranging
import GraphMapper.Proofs.Query.Assigning
import GraphMapper.Proofs.Query.ById
import GraphMapper.Proofs.Query.Creating
import GraphMapper.Proofs.Query.Identity
import GraphMapper.Proofs.Query.Joining
import GraphMapper.Proofs.Query.Leftover
import GraphMapper.Proofs.Query.Lookup
import GraphMapper.Proofs.Query.Paging
import GraphMapper.Proofs.Query.PrimaryKey
import GraphMapper.Proofs.Query.Proper
import GraphMapper.Proofs.Query.Reading
import GraphMapper.Proofs.Query.References
import GraphMapper.Proofs.Query.Replacing
import GraphMapper.Proofs.Query.Saving
import GraphMapper.Proofs.Query.Single
import GraphMapper.Proofs.Query.Sorting
import GraphMapper.Proofs.Query.Updating
import GraphMapper.Proofs.Query.Whole
import GraphMapper.Proofs.Record.Coercion
import GraphMapper.Proofs.Record.Dates
import GraphMapper.Proofs.Record.Ends
import GraphMapper.Proofs.Record.Identity
import GraphMapper.Proofs.Record.Milliseconds
import GraphMapper.Proofs.Record.Moving
import GraphMapper.Proofs.Record.Projection
import GraphMapper.Proofs.Record.Reading
import GraphMapper.Proofs.Record.Renaming
import GraphMapper.Proofs.Record.RoundTrip
import GraphMapper.Proofs.Record.Saving
import GraphMapper.Proofs.Record.Stored
import GraphMapper.Proofs.Record.Whole
import GraphMapper.Proofs.Record.Writing
import GraphMapper.Proofs.Remote.Lifecycle
import GraphMapper.Proofs.Result.Edges
import GraphMapper.Proofs.Result.Idempotence
import GraphMapper.Proofs.Result.Items
import GraphMapper.Proofs.Result.Records
import GraphMapper.Proofs.Result.Shapes
import GraphMapper.Proofs.Sorting.Failing
import GraphMapper.Proofs.Sorting.Lexicographic
import GraphMapper.Proofs.Sorting.Merging
import GraphMapper.Proofs.Sorting.Naturality
import GraphMapper.Proofs.Sorting.Permutation
import GraphMapper.Proofs.Sorting.Placing
import GraphMapper.Proofs.Sorting.Stability
import GraphMapper.Proofs.Transaction.Fate
import GraphMapper.Proofs.Transaction.Lifecycle
import GraphMapper.Proofs.Transaction.Narrowing
import GraphMapper.Proofs.Transaction.Usable
import GraphMapper.Proofs.Value.Entries
import GraphMapper.Proofs.Value.Printing
import GraphMapper.Proofs.Value.Proper
import GraphMapper.Proofs.Value.Sameness
import GraphMapper.Proofs.Value.Scalars
import GraphMapper.Query.Builder
import GraphMapper.Query.Order
import GraphMapper.Query.Request
import GraphMapper.Record.Coercion
import GraphMapper.Record.Storage
import GraphMapper.Record.Write
import GraphMapper.Remote.Connection
import GraphMapper.Result.Normal
import GraphMapper.Sorting.Merge
import GraphMapper.Sorting.Place
import GraphMapper.Sorting.Stable
import GraphMapper.Text.Blank
import GraphMapper.Text.Class
import GraphMapper.Text.Digit
import GraphMapper.Text.Printable
import GraphMapper.Text.Quoted
import GraphMapper.Text.Uppercase
import GraphMapper.Transaction.Registry
import GraphMapper.Transaction.Run
import GraphMapper.Value.Basic
import GraphMapper.Value.Conversion
import GraphMapper.Value.Equality
import GraphMapper.Value.Json
import GraphMapper.Value.Mapping
import GraphMapper.Value.Membership
import GraphMapper.Value.Order
import GraphMapper.Value.Printer
import GraphMapper.Value.Symbol
