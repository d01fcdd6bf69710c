import KernelEngine.Lib.Runs
import KernelEngine.Lib.Lexical
import KernelEngine.Rust.Text
import KernelEngine.Rust.Path
import KernelEngine.Http.Httparse
import KernelEngine.Http.Request
import KernelEngine.Http.Response
import KernelEngine.File.Mmap
import KernelEngine.Net.Epoll
import KernelEngine.Config
import KernelEngine.Worker.Reactor
import KernelEngine.Containment
import KernelEngine.Worker.EventLoop
import KernelEngine.Resilience
import KernelEngine.Delivery
import KernelEngine.Isolation
import KernelEngine.Lib.Fifo
import KernelEngine.Worker.Queue
import KernelEngine.Worker.Pool
import KernelEngine.Conservation
import KernelEngine.Worker.WorkerThread
import KernelEngine.Shutdown
import KernelEngine.Blocking
import KernelEngine.Worker.Start
import KernelEngine.Descriptors
import KernelEngine.EdgeTriggering
import KernelEngine.Questions
import KernelEngine.Framing
import KernelEngine.Slicing
import KernelEngine.Net.Interest
import KernelEngine.Bookkeeping
import KernelEngine.Generations
import KernelEngine.File.Sendfile
import KernelEngine.Transfer
import KernelEngine.Net.IoUring
import KernelEngine.Submission
import KernelEngine.Attribution
import KernelEngine.Sys.CpuAffinity
import KernelEngine.Placement
import KernelEngine.Worker.Server
import KernelEngine.OrderlyStop
import KernelEngine.Lib.Percent
import KernelEngine.Completeness
import KernelEngine.Http.Builder
import KernelEngine.Lib.Codec
import KernelEngine.Http.Wire
import KernelEngine.RoundTrip
import KernelEngine.Stealing
import KernelEngine.Rust.Number
import KernelEngine.Http.Urlencoding
import KernelEngine.Decoding
import KernelEngine.Lib.Assoc
import KernelEngine.Http.Query
import KernelEngine.Parameters
import KernelEngine.Rust.Utf8
import KernelEngine.Http.Fields
import KernelEngine.Rendering
import KernelEngine.ContentLength
import KernelEngine.KeepAlive
import KernelEngine.Persistence
import KernelEngine.Http.Calls
import KernelEngine.Headers
import KernelEngine.Encoding
import KernelEngine.Affinity
import KernelEngine.Args
import KernelEngine.CommandLine
import KernelEngine.Lib.Ranks
import KernelEngine.Bench.RunBench
import KernelEngine.Percentiles
import KernelEngine.Accounting
import KernelEngine.Lib.Simulation
import KernelEngine.Lib.Service
import KernelEngine.Serving
import KernelEngine.Lifecycle
import KernelEngine.Statistics
import KernelEngine.Streams
import KernelEngine.Batches
import KernelEngine.Lib.Progress
import KernelEngine.Stopping
import KernelEngine.Website
import KernelEngine.Threads
import KernelEngine.Composition
import KernelEngine.Idle
import KernelEngine.Occupancy
import KernelEngine.Operations
import KernelEngine.Lib.Options
import KernelEngine.Invocation
import KernelEngine.Launch
import KernelEngine.Net.EventArray
import KernelEngine.Refilling
import KernelEngine.Lib.Shared
import KernelEngine.Bench.Benchmark
import KernelEngine.Tally
import KernelEngine.Rehearsal
import KernelEngine.Bench.Main
import KernelEngine.Campaign
import KernelEngine.Deployment
import KernelEngine.Deployment
import KernelEngine.Waiting
