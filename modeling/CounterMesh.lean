import CounterMesh.Engine.Operation
import CounterMesh.Main
import CounterMesh.OrdMap.Lookup
import CounterMesh.Proofs.Bytes.Digits
import CounterMesh.Proofs.Bytes.Hex
import CounterMesh.Proofs.Bytes.Order
import CounterMesh.Proofs.Counter.Keys
import CounterMesh.Proofs.Counter.Place
import CounterMesh.Proofs.Engine.Archive
import CounterMesh.Proofs.Engine.Dense
import CounterMesh.Proofs.Engine.Loading
import CounterMesh.Proofs.Engine.Presents
import CounterMesh.Proofs.Engine.Serial
import CounterMesh.Proofs.Engine.Traffic
import CounterMesh.Proofs.Json.Escape
import CounterMesh.Proofs.Json.Tokens
import CounterMesh.Proofs.Json.Values
import CounterMesh.Proofs.Json.Written
import CounterMesh.Proofs.OrdMap.Relisted
import CounterMesh.Proofs.OrdMap.Scan
import CounterMesh.Proofs.Replication.Absorb
import CounterMesh.Proofs.Replication.Agreement
import CounterMesh.Proofs.Replication.Apply
import CounterMesh.Proofs.Replication.Channel
import CounterMesh.Proofs.Replication.Convergence
import CounterMesh.Proofs.Replication.Copy
import CounterMesh.Proofs.Replication.Deletion
import CounterMesh.Proofs.Replication.Echo
import CounterMesh.Proofs.Replication.Exchange
import CounterMesh.Proofs.Replication.Feed
import CounterMesh.Proofs.Replication.Mesh
import CounterMesh.Proofs.Replication.Message
import CounterMesh.Proofs.Replication.Network
import CounterMesh.Proofs.Replication.Pair
import CounterMesh.Proofs.Replication.Polling
import CounterMesh.Proofs.Store.Alike
import CounterMesh.Proofs.Store.Catalog
import CounterMesh.Proofs.Store.Client
import CounterMesh.Proofs.Store.Documents
import CounterMesh.Proofs.Store.Erasure
import CounterMesh.Proofs.Store.Evolution
import CounterMesh.Proofs.Store.Follows
import CounterMesh.Proofs.Store.Growth
import CounterMesh.Proofs.Store.Indexes
import CounterMesh.Proofs.Store.Isolation
import CounterMesh.Proofs.Store.Journal
import CounterMesh.Proofs.Store.Ledger
import CounterMesh.Proofs.Store.Merge
import CounterMesh.Proofs.Store.Opening
import CounterMesh.Proofs.Store.Operations
import CounterMesh.Proofs.Store.Preserved
import CounterMesh.Proofs.Store.Primitive
import CounterMesh.Proofs.Store.Purge
import CounterMesh.Proofs.Store.Reading
import CounterMesh.Proofs.Store.Renewal
import CounterMesh.Proofs.Store.Restart
import CounterMesh.Proofs.Store.Revival
import CounterMesh.Proofs.Store.Runs
import CounterMesh.Proofs.Store.Saved
import CounterMesh.Proofs.Store.Sequences
import CounterMesh.Proofs.Store.Slots
import CounterMesh.Proofs.Store.Sound
import CounterMesh.Proofs.Store.Stages
import CounterMesh.Proofs.Store.Steps
import CounterMesh.Proofs.Store.Totals
import CounterMesh.Replication.Exchange
import CounterMesh.Proofs.Store.Listing
import CounterMesh.Proofs.Store.Batches
import CounterMesh.Proofs.Replication.Document
import CounterMesh.Proofs.Store.Answers
import CounterMesh.Proofs.Store.Refusals
import CounterMesh.Proofs.Store.Deltas
import CounterMesh.Proofs.Replication.Batching
import CounterMesh.Proofs.Replication.Redelivery
import CounterMesh.Proofs.Replication.Skips
import CounterMesh.Proofs.Replication.Ownership
import CounterMesh.Proofs.Replication.Reordering
import CounterMesh.Proofs.Store.Paging
import CounterMesh.Proofs.Store.Initialization
import CounterMesh.Proofs.Store.Subscriber
import CounterMesh.Proofs.Store.Weights
import CounterMesh.Proofs.Store.Reserved
import CounterMesh.Counter.KeyBuffer
import CounterMesh.Proofs.Engine.Scans
import CounterMesh.Proofs.Engine.Hosts
import CounterMesh.Proofs.Store.Lookup
