import KernelEngine.Bench.RunBench

namespace KernelEngine.Bench
open Rust File Runs

/-- One of the three updates of `record_request`. Those of other threads may come between. -/
inductive Update where
  | request
  | bytes (n : UInt64)
  | latency (d : Duration)

namespace Update

def apply (s : BenchmarkStats) : Update → BenchmarkStats
  | .request => { s with totalRequests := s.totalRequests + 1 }
  | .bytes n => { s with totalBytes := s.totalBytes + n }
  | .latency d => { s with latencies := s.latencies ++ [d] }

/-- `BenchmarkStats::record_request`, one update after the other. -/
def all (n : UInt64) (d : Duration) : List Update := [.request, .bytes n, .latency d]

theorem foldl_all (s : BenchmarkStats) (n : UInt64) (d : Duration) :
    (all n d).foldl apply s = s.recordRequest n d := rfl

end Update

/-- A thread that `run_benchmark` spawned: its connection, with the books it would keep alone,
and the updates of the shared ones that it has still to make. -/
structure Thread where
  worker : ConnectionWorker
  owed : List Update

/-- What the threads do: a system call, or an update of what they share. -/
inductive BenchIo where
  | socket (thread : ℕ) (io : SocketIo)
  | update (thread : ℕ)

/-- `run_benchmark`, between the spawning of its threads and their joining. -/
structure Benchmark where
  threads : List Thread
  stats : BenchmarkStats

namespace Benchmark

def start (numConnections : ℕ) : Benchmark :=
  ⟨List.replicate numConnections ⟨.start .new, []⟩, .new⟩

/-- What is recorded behind a system call. -/
def recorded : SocketIo → List Update
  | .read (.ok bytesRead) latency => Update.all (UInt64.ofNat bytesRead) latency
  | _ => []

/-- One step, while the server has `total thread` bytes for each thread. -/
def step (config : BenchmarkConfig) (total : ℕ → ℕ) (s : Benchmark) : BenchIo → Option Benchmark
  | .socket thread io =>
    match s.threads[thread]? with
    | some ⟨worker, []⟩ => (worker.step config (total thread) io).map fun worker =>
      { s with threads := s.threads.set thread ⟨worker, recorded io⟩ }
    | _ => none
  | .update thread =>
    match s.threads[thread]? with
    | some ⟨worker, update :: rest⟩ =>
      some ⟨s.threads.set thread ⟨worker, rest⟩, update.apply s.stats⟩
    | _ => none

/-- All threads can be joined. -/
def Joined (s : Benchmark) : Prop :=
  ∀ thread ∈ s.threads, thread.owed = [] ∧ ∃ result, thread.worker.point = .finished result

/-- Everything one step can do. -/
inductive Step (config : BenchmarkConfig) (total : ℕ → ℕ) (s : Benchmark) :
    BenchIo → Benchmark → Prop
  | called {thread io worker worker'} (h : s.threads[thread]? = some ⟨worker, []⟩)
      (hs : worker.step config (total thread) io = some worker') :
      Step config total s (.socket thread io)
        { s with threads := s.threads.set thread ⟨worker', recorded io⟩ }
  | updated {thread worker update rest} (h : s.threads[thread]? = some ⟨worker, update :: rest⟩) :
      Step config total s (.update thread)
        ⟨s.threads.set thread ⟨worker, rest⟩, update.apply s.stats⟩

theorem step_cases {config : BenchmarkConfig} {total : ℕ → ℕ} {s s' : Benchmark} {io : BenchIo}
    (h : s.step config total io = some s') : Step config total s io s' := by
  cases io with
  | socket thread io =>
    simp only [step] at h
    split at h
    case h_1 worker hthread =>
      obtain ⟨worker', hs, rfl⟩ := Option.map_eq_some_iff.mp h
      exact .called hthread hs
    case h_2 => cases h
  | update thread =>
    simp only [step] at h
    split at h
    case h_1 worker update rest hthread =>
      obtain rfl := Option.some.inj h
      exact .updated hthread
    case h_2 => cases h

end Benchmark

end KernelEngine.Bench
