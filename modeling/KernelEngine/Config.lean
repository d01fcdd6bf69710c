import KernelEngine.Rust.Text

namespace KernelEngine
open Rust

inductive ServerMode where
  | fastPath
  | dynamicPath
  deriving DecidableEq, Repr

structure ServerConfig where
  host : Str
  port : ℕ
  numWorkers : ℕ
  mode : ServerMode
  staticDir : Str
  useIoUring : Bool
  deriving DecidableEq, Repr

/-- `ServerConfig::default`, given `num_cpus()` and whether the `io_uring` feature
is compiled in. -/
def ServerConfig.default (numCpus : ℕ) (ioUring : Bool) : ServerConfig where
  host := "0.0.0.0".toList
  port := 8080
  numWorkers := numCpus
  mode := .fastPath
  staticDir := "./static".toList
  useIoUring := ioUring

end KernelEngine
