import KernelEngine.Args
import KernelEngine.Bench.Benchmark
import KernelEngine.Lib.Options

namespace KernelEngine.Bench
open Rust Args Options

/-- The variables that `main` of the benchmark reads its options into. -/
structure Settings where
  host : Str
  port : ℕ
  connections : ℕ
  requests : ℕ
  payloadSize : ℕ
  deriving DecidableEq

namespace Settings

def default : Settings := ⟨"127.0.0.1".toList, 8080, 10, 1000, 128⟩

/-- What `run_benchmark` gets, which takes the number of connections apart. -/
def config (s : Settings) : BenchmarkConfig := ⟨s.host, s.port, s.requests, s.payloadSize⟩

/-- The `match` on one entry. -/
def option (arg : Str) : Role Str Settings :=
  if arg = "--host".toList then
    .value fun value s => { s with host := value }
  else if arg = "--port".toList then
    .value fun value s => { s with port := (parseU16 value).getD 8080 }
  else if arg = "--connections".toList ∨ arg = "-c".toList then
    .value fun value s => { s with connections := (parseUsize value).getD 10 }
  else if arg = "--requests".toList ∨ arg = "-n".toList then
    .value fun value s => { s with requests := (parseUsize value).getD 1000 }
  else if arg = "--payload".toList ∨ arg = "-p".toList then
    .value fun value s => { s with payloadSize := (parseUsize value).getD 128 }
  else if arg = "--help".toList ∨ arg = "-h".toList then .stop
  else .flag id

end Settings

/-- The loop of `main`, which starts behind the name of the program. Without a result it prints
the help and returns. -/
def main (args : List Str) : Option Settings := scan Settings.option args 1 .default

end KernelEngine.Bench
