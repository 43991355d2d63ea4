import GraphQuery.Handle
import GraphQuery.Number.Shortest
import GraphQuery.Unicode.Category
import GraphQuery.Unicode.Script
import GraphQuery.Unicode.Property
import GraphQuery.Unicode.Casing
import GraphQuery.Text.Quoted
import GraphQuery.Value.Printer
import GraphQuery.Store
import GraphQuery.Store.Memory
import GraphQuery.Store.Indexed
import GraphQuery.Store.Social
import GraphQuery.Tags.Combinations
import GraphQuery.Cursor.Outcome
import GraphQuery.Cursor.Basic
import GraphQuery.Cursor.Leaf
import GraphQuery.Cursor.Naming
import GraphQuery.Cursor.Sieve
import GraphQuery.Cursor.Mapped
import GraphQuery.Cursor.Paging
import GraphQuery.Cursor.Listing
import GraphQuery.Cursor.Join
import GraphQuery.Cursor.Union
import GraphQuery.Cursor.Step
import GraphQuery.Cursor.Closure
import GraphQuery.Pattern.Wildcard
import GraphQuery.Plan.Roles
import GraphQuery.Plan.Optimize
import GraphQuery.Plan.Outline
import GraphQuery.Path.Compile
import GraphQuery.Session
import GraphQuery.Provided.Rfc3339
import GraphQuery.Provided.Json.Reader
import GraphQuery.Provided.Json.Writer
import GraphQuery.Provided.Value
import GraphQuery.Provided.Config
import GraphQuery.Provided.Regex.Library
import GraphQuery.Proofs.Value.Order
import GraphQuery.Proofs.Value.Family
import GraphQuery.Proofs.Agreement
import GraphQuery.Proofs.Collect
import GraphQuery.Proofs.Failure
import GraphQuery.Proofs.Limited
import GraphQuery.Proofs.Optimize.Ordered
import GraphQuery.Proofs.Divergence
import GraphQuery.Proofs.Path.Compiled
import GraphQuery.Proofs.Interruption.Plan
import GraphQuery.Proofs.Closure.Bindings
import GraphQuery.Proofs.Closure.Finite
import GraphQuery.Proofs.Store.Indexed
import GraphQuery.Proofs.Reversal.Repeated
import GraphQuery.Proofs.Soundness.Session
import GraphQuery.Proofs.Lifecycle.Exhaustion
import GraphQuery.Proofs.Lifecycle.Closing
import GraphQuery.Proofs.Lifecycle.Alternates
import GraphQuery.Proofs.Lifecycle.Probing
import GraphQuery.Proofs.Turning.Query
import GraphQuery.Proofs.Narrowing.Query
import GraphQuery.Proofs.Paging.Query
import GraphQuery.Proofs.Delivery
import GraphQuery.Proofs.Estimate
import GraphQuery.Proofs.Path.Links
import GraphQuery.Proofs.Optimize.Screened
import GraphQuery.Proofs.Reversal.Scoped
import GraphQuery.Proofs.Value.Chain
import GraphQuery.Proofs.Pattern.Wildcard
import GraphQuery.Proofs.Combinations
