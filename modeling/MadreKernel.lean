import MadreKernel.Client.Agreement
import MadreKernel.Client.Connection
import MadreKernel.Client.Decoders
import MadreKernel.Client.Engines
import MadreKernel.Client.Facts
import MadreKernel.Client.Identifiers
import MadreKernel.Client.Inventory
import MadreKernel.Client.JavaString
import MadreKernel.Client.Protocol
import MadreKernel.Client.Submission
import MadreKernel.Client.Texts
import MadreKernel.Host.Directory
import MadreKernel.Host.Endpoint
import MadreKernel.Kernel.Admission
import MadreKernel.Kernel.Answers
import MadreKernel.Kernel.Cancellation
import MadreKernel.Kernel.Choice
import MadreKernel.Kernel.Clock
import MadreKernel.Kernel.Composition
import MadreKernel.Kernel.Configuration
import MadreKernel.Kernel.Correlation
import MadreKernel.Kernel.Csv
import MadreKernel.Kernel.Delivered
import MadreKernel.Kernel.Eligibility
import MadreKernel.Kernel.EndToEnd
import MadreKernel.Kernel.Engines
import MadreKernel.Kernel.Grants
import MadreKernel.Kernel.Inputs
import MadreKernel.Kernel.Interruption
import MadreKernel.Kernel.LeasedTasks
import MadreKernel.Kernel.Moves
import MadreKernel.Kernel.Numbers
import MadreKernel.Kernel.Options
import MadreKernel.Kernel.Order
import MadreKernel.Kernel.Paths
import MadreKernel.Kernel.Records
import MadreKernel.Kernel.Recovery
import MadreKernel.Kernel.Refinement
import MadreKernel.Kernel.Replies
import MadreKernel.Kernel.Requests
import MadreKernel.Kernel.Reservations
import MadreKernel.Kernel.Resources
import MadreKernel.Kernel.Results
import MadreKernel.Kernel.Selection
import MadreKernel.Kernel.Serving
import MadreKernel.Kernel.Shutdown
import MadreKernel.Kernel.Spacing
import MadreKernel.Kernel.Submissions
import MadreKernel.Kernel.System
import MadreKernel.Kernel.TaskLeases
import MadreKernel.Kernel.Window
import MadreKernel.Kernel.WorkerResults
import MadreKernel.Lib.Bytes
import MadreKernel.Lib.Calls
import MadreKernel.Lib.Channel
import MadreKernel.Lib.CommandLine
import MadreKernel.Lib.Decimal
import MadreKernel.Lib.Handles
import MadreKernel.Lib.KeyValue
import MadreKernel.Lib.Machine
import MadreKernel.Lib.Segments
import MadreKernel.Lib.Session
import MadreKernel.Lib.Sieve
import MadreKernel.Lib.SortedMap
import MadreKernel.Lib.Unicode
import MadreKernel.Pool.Attribution
import MadreKernel.Pool.Capacity
import MadreKernel.Pool.CommandLine
import MadreKernel.Pool.Exchange
import MadreKernel.Pool.Exclusivity
import MadreKernel.Pool.Execute
import MadreKernel.Pool.Interruption
import MadreKernel.Pool.Invariants
import MadreKernel.Pool.Operations
import MadreKernel.Pool.Programs
import MadreKernel.Pool.Quiescence
import MadreKernel.Pool.Reading
import MadreKernel.Pool.Requests
import MadreKernel.Pool.Runtime
import MadreKernel.Pool.Supervision
import MadreKernel.Pool.Timeout
import MadreKernel.Pool.Worker
import MadreKernel.Pool.WorkerPool
import MadreKernel.Store.Accounting
import MadreKernel.Store.Course
import MadreKernel.Store.Ledger
import MadreKernel.Store.Lifecycle
import MadreKernel.Store.Operations
import MadreKernel.Store.Rows
import MadreKernel.Store.Safety
import MadreKernel.Store.Schema
import MadreKernel.Store.Timing
import MadreKernel.Wire.Encoding
import MadreKernel.Wire.Frame
import MadreKernel.Wire.Incremental
import MadreKernel.Wire.Metadata
import MadreKernel.Wire.Stream
import MadreKernel.Workers.FakeWorker
import MadreKernel.Workers.Llama
import MadreKernel.Workers.LlamaAnswers
import MadreKernel.Workers.LlamaWorker
import MadreKernel.Workers.Loop
