import KernelEngine.File.Mmap
import KernelEngine.Rust.Number
import KernelEngine.Lib.Runs

namespace KernelEngine.Bench
open Rust File Runs

/-- `Duration`, in nanoseconds. -/
abbrev Duration := ℕ

structure BenchmarkConfig where
  targetHost : Str
  targetPort : ℕ
  requestsPerConnection : ℕ
  payloadSize : ℕ

structure BenchmarkStats where
  totalRequests : UInt64
  totalBytes : UInt64
  latencies : List Duration
  deriving DecidableEq

structure Percentiles where
  p50 : Duration
  p95 : Duration
  p99 : Duration
  deriving DecidableEq

namespace BenchmarkStats

def new : BenchmarkStats := ⟨0, 0, []⟩

/-- `BenchmarkStats::record_request`. -/
def recordRequest (s : BenchmarkStats) (bytes : UInt64) (latency : Duration) : BenchmarkStats where
  totalRequests := s.totalRequests + 1
  totalBytes := s.totalBytes + bytes
  latencies := s.latencies ++ [latency]

/-- `latencies[latencies.len() * q / 100]`, with overflow checks or without. -/
def percentile (checks : Bool) (latencies : List Duration) (q : ℕ) : Option Duration :=
  (usize checks (latencies.length * q)).bind fun product => latencies[product / 100]?

/-- `BenchmarkStats::print_results`: it sorts the latencies in place, and prints percentiles
where there are any. It panics on an index out of bounds. -/
def printResults (checks : Bool) (s : BenchmarkStats) :
    Option (BenchmarkStats × Option Percentiles) :=
  let latencies := s.latencies.mergeSort (· ≤ ·)
  let sorted := { s with latencies := latencies }
  if latencies = [] then some (sorted, none)
  else do
    let p50 ← percentile checks latencies 50
    let p95 ← percentile checks latencies 95
    let p99 ← percentile checks latencies 99
    return (sorted, some ⟨p50, p95, p99⟩)

end BenchmarkStats

/-- `create_http_request`. -/
def createHttpRequest (payloadSize : ℕ) : Str :=
  if payloadSize = 0 then
    "GET /api/health HTTP/1.1\r\nHost: localhost\r\nConnection: keep-alive\r\n\r\n".toList
  else
    "POST /api/data HTTP/1.1\r\nHost: localhost\r\nContent-Length: ".toList ++
      decimal payloadSize ++ "\r\nConnection: keep-alive\r\n\r\n".toList ++
      List.replicate payloadSize 'x'

/-- Where `run_connection_worker` stands: before one of its system calls, or at its end. -/
inductive Point where
  | connect
  | write
  | flush
  | read
  | finished (result : Except Anyhow Unit)
  deriving DecidableEq

/-- A call of `record_request`: the bytes it counts, and all that were received by then. -/
structure Recorded where
  bytes : ℕ
  received : ℕ
  deriving DecidableEq

/-- One `run_connection_worker`. `received` and `calls` keep the history of its reads. -/
structure ConnectionWorker where
  point : Point
  turns : ℕ
  stats : BenchmarkStats
  received : ℕ
  calls : List Recorded
  deriving DecidableEq

/-- A system call of the worker with its result. What is read is only counted. -/
inductive SocketIo where
  | connect (addr : Str) (result : Except OsError Unit)
  | writeAll (request : Bytes) (result : Except OsError Unit)
  | flush (result : Except OsError Unit)
  | read (result : Except OsError ℕ) (latency : Duration)

namespace ConnectionWorker

def start (stats : BenchmarkStats) : ConnectionWorker := ⟨.connect, 0, stats, 0, []⟩

/-- The head of the loop. -/
def next (config : BenchmarkConfig) (s : ConnectionWorker) : ConnectionWorker :=
  { s with point := if s.turns < config.requestsPerConnection then .write else .finished (.ok ()) }

/-- An error ends the worker. -/
def fail (s : ConnectionWorker) (err : OsError) : ConnectionWorker :=
  { s with point := .finished (.error err) }

/-- The end of a turn, behind the one `read`. -/
def record (s : ConnectionWorker) (bytesRead : ℕ) (latency : Duration) : ConnectionWorker :=
  { s with
    turns := s.turns + 1
    stats := s.stats.recordRequest (UInt64.ofNat bytesRead) latency
    received := s.received + bytesRead
    calls := s.calls ++ [⟨bytesRead, s.received + bytesRead⟩] }

def address (config : BenchmarkConfig) : Str :=
  config.targetHost ++ ":".toList ++ decimal config.targetPort

/-- One system call, while the server has `total` bytes to send. A read takes no more than the
buffer holds and than there is still to come. -/
def step (config : BenchmarkConfig) (total : ℕ) (s : ConnectionWorker) (io : SocketIo) :
    Option ConnectionWorker :=
  match s.point, io with
  | .connect, .connect addr result =>
    if addr = address config then
      match result with
      | .error err => some (s.fail err)
      | .ok _ => some (s.next config)
    else none
  | .write, .writeAll request result =>
    if request = (createHttpRequest config.payloadSize).bytes then
      match result with
      | .error err => some (s.fail err)
      | .ok _ => some { s with point := .flush }
    else none
  | .flush, .flush result =>
    match result with
    | .error err => some (s.fail err)
    | .ok _ => some { s with point := .read }
  | .read, .read result latency =>
    match result with
    | .error err => some (s.fail err)
    | .ok bytesRead =>
      if bytesRead ≤ 4096 ∧ s.received + bytesRead ≤ total then
        some ((s.record bytesRead latency).next config)
      else none
  | _, _ => none

/-- What one step does to the books: a read that returns is recorded, and nothing else is. -/
inductive Step (config : BenchmarkConfig) (total : ℕ) (s : ConnectionWorker) :
    SocketIo → ConnectionWorker → Prop
  | recorded (bytesRead : ℕ) (latency : Duration) (hbuffer : bytesRead ≤ 4096)
      (htotal : s.received + bytesRead ≤ total) :
      Step config total s (.read (.ok bytesRead) latency) ((s.record bytesRead latency).next config)
  | moved (io : SocketIo) (point : Point)
      (hio : ∀ bytesRead latency, io ≠ .read (.ok bytesRead) latency) :
      Step config total s io { s with point := point }

theorem step_cases {config : BenchmarkConfig} {total : ℕ} {s s' : ConnectionWorker} {io : SocketIo}
    (h : step config total s io = some s') : Step config total s io s' := by
  unfold step at h
  split at h
  · split_ifs at h
    split at h <;> cases h <;> exact .moved _ _ nofun
  · split_ifs at h
    split at h <;> cases h <;> exact .moved _ _ nofun
  · split at h <;> cases h <;> exact .moved _ _ nofun
  · split at h
    · cases h
      exact .moved _ _ nofun
    · split_ifs at h with hread
      cases h
      exact .recorded _ _ hread.1 hread.2
  · cases h

end ConnectionWorker

end KernelEngine.Bench
