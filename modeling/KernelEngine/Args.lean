import KernelEngine.Config
import KernelEngine.Rust.Number

namespace KernelEngine
open Rust

/-- What becomes of `parse_args`: it returns, it prints the help and exits, or it indexes past
the end. -/
inductive Parsed where
  | config (config : ServerConfig)
  | exited
  | panicked
  deriving DecidableEq

/-- One turn of its loop, with the positions it advances beyond the usual one. -/
inductive Turn where
  | next (config : ServerConfig) (extra : ℕ)
  | exit
  | panic

namespace Args

/-- `u16::from_str`. -/
def parseU16 (s : Str) : Option ℕ := fromStrRadix (2 ^ 16) 10 s

def parseMode (s : Str) : ServerMode :=
  if s = "fast-path".toList then .fastPath
  else if s = "dynamic-path".toList then .dynamicPath
  else .fastPath

/-- An option that takes the entry behind it as its value, where there is one. -/
def withValue (args : List Str) (i : ℕ) (config : ServerConfig) (set : Str → ServerConfig) : Turn :=
  if i + 1 < args.length then
    match args[i + 1]? with
    | some value => .next (set value) 1
    | none => .panic
  else .next config 0

section Loop

variable (numCpus : ℕ) (args : List Str)

/-- The `match` on one entry. -/
def turn (i : ℕ) (config : ServerConfig) : Turn :=
  match args[i]? with
  | none => .panic
  | some arg =>
    if arg = "--host".toList then
      withValue args i config fun value => { config with host := value }
    else if arg = "--port".toList then
      withValue args i config fun value => { config with port := (parseU16 value).getD 8080 }
    else if arg = "--workers".toList then
      withValue args i config fun value =>
        { config with numWorkers := (parseUsize value).getD numCpus }
    else if arg = "--mode".toList then
      withValue args i config fun value => { config with mode := parseMode value }
    else if arg = "--static-dir".toList then
      withValue args i config fun value => { config with staticDir := value }
    else if arg = "--no-io-uring".toList then
      .next { config with useIoUring := false } 0
    else if arg = "--help".toList ∨ arg = "-h".toList then .exit
    else .next config 0

/-- The loop, from position `i` on. -/
def parseFrom (i : ℕ) (config : ServerConfig) : Parsed :=
  if i < args.length then
    match turn numCpus args i config with
    | .next config extra => parseFrom (i + extra + 1) config
    | .exit => .exited
    | .panic => .panicked
  else .config config
termination_by args.length - i

/-- `parse_args`, given what `num_cpus()` counts and whether the `io_uring` feature is compiled
in. The first entry is the name of the program. -/
def parseArgs (ioUring : Bool) : Parsed :=
  parseFrom numCpus args 1 (.default numCpus ioUring)

end Loop

/-- `env::args().collect()`, which panics on an entry that is not Unicode. -/
def envArgs (raw : List Bytes) : Option (List Str) := raw.mapM fromUtf8

/-- `parse_args` on the entries the program is started with. -/
def parseEnvArgs (numCpus : ℕ) (raw : List Bytes) (ioUring : Bool) : Parsed :=
  match envArgs raw with
  | none => .panicked
  | some args => parseArgs numCpus args ioUring

section Collect

variable {raw : List Bytes} {args : List Str}

theorem envArgs_cons (entry : Bytes) (raw : List Bytes) : envArgs (entry :: raw) =
    (fromUtf8 entry).bind fun arg => (envArgs raw).map (arg :: ·) := by
  rw [envArgs, envArgs, List.mapM_cons]
  cases fromUtf8 entry with
  | none => rfl
  | some arg => cases raw.mapM fromUtf8 <;> rfl

theorem envArgs_eq_some_iff : envArgs raw = some args ↔ raw = args.map Str.bytes := by
  induction raw generalizing args with
  | nil => cases args <;> simp [envArgs]
  | cons entry raw ih =>
    simp only [envArgs_cons, Option.bind_eq_some_iff, Option.map_eq_some_iff, fromUtf8_eq_some_iff,
      ih]
    constructor
    · rintro ⟨arg, rfl, rest, rfl, rfl⟩
      rfl
    · intro h
      obtain ⟨arg, rest, rfl, harg, hrest⟩ := List.map_eq_cons_iff.mp h.symm
      exact ⟨arg, harg.symm, rest, hrest.symm, rfl⟩

theorem envArgs_eq_none_iff : envArgs raw = none ↔ ∃ entry ∈ raw, fromUtf8 entry = none := by
  induction raw with
  | nil => simp [envArgs]
  | cons entry raw ih =>
    rw [envArgs_cons, List.exists_mem_cons_iff, ← ih]
    cases fromUtf8 entry with
    | none => simp
    | some arg => simp

end Collect

section Turns

variable {numCpus : ℕ} {args : List Str} {i extra : ℕ} {config config' : ServerConfig}

theorem parseFrom_end (h : args.length ≤ i) : parseFrom numCpus args i config = .config config := by
  rw [parseFrom, if_neg (Nat.not_lt.mpr h)]

theorem parseFrom_next (h : i < args.length)
    (hturn : turn numCpus args i config = .next config' extra) :
    parseFrom numCpus args i config = parseFrom numCpus args (i + extra + 1) config' := by
  rw [parseFrom, if_pos h, hturn]

end Turns

end Args

end KernelEngine
