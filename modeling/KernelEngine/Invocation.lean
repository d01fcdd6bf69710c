import KernelEngine.Args
import KernelEngine.Lib.Options

namespace KernelEngine.Invocation
open Rust Args Options

/-- A request for help, which counts wherever an option may stand. -/
def asksHelp : Item Str → Bool
  | .pair _ _ => false
  | .lone name => oneOf ["--help".toList, "-h".toList] name

theorem asksHelp_lone_iff {name : Str} :
    asksHelp (.lone name) = true ↔ name = "--help".toList ∨ name = "-h".toList := by
  rw [asksHelp, oneOf_iff, List.mem_pair]

section Server

/-- The options of the server that take a value. -/
def serverTakes : Str → Bool :=
  oneOf ["--host".toList, "--port".toList, "--workers".toList, "--mode".toList,
    "--static-dir".toList]

def isNoIoUring : Item Str → Bool
  | .pair _ _ => false
  | .lone name => name = "--no-io-uring".toList

/-- The configuration that the items of an argument vector tell. A value that is no number
counts as the default, also where a number was told before. -/
def serverTold (numCpus : ℕ) (given : List (Item Str)) (default : ServerConfig) :
    ServerConfig where
  host := lastTold (valueOf ["--host".toList] id) given default.host
  port := lastTold (valueOf ["--port".toList] fun v => (parseU16 v).getD 8080) given default.port
  numWorkers := lastTold (valueOf ["--workers".toList] fun v => (parseUsize v).getD numCpus) given
    default.numWorkers
  mode := lastTold (valueOf ["--mode".toList] parseMode) given default.mode
  staticDir := lastTold (valueOf ["--static-dir".toList] id) given default.staticDir
  useIoUring := !given.any isNoIoUring && default.useIoUring

variable {numCpus : ℕ} {args : List Str} {i : ℕ} {config : ServerConfig}

/-- The arms of the `match` in `parse_args`, by what they do with the loop. -/
def serverOption (numCpus : ℕ) (arg : Str) : Role Str ServerConfig :=
  if arg = "--host".toList then
    .value fun value config => { config with host := value }
  else if arg = "--port".toList then
    .value fun value config => { config with port := (parseU16 value).getD 8080 }
  else if arg = "--workers".toList then
    .value fun value config => { config with numWorkers := (parseUsize value).getD numCpus }
  else if arg = "--mode".toList then
    .value fun value config => { config with mode := parseMode value }
  else if arg = "--static-dir".toList then
    .value fun value config => { config with staticDir := value }
  else if arg = "--no-io-uring".toList then
    .flag fun config => { config with useIoUring := false }
  else if arg = "--help".toList ∨ arg = "-h".toList then .stop
  else .flag id

theorem turn_eq (h : i < args.length) : turn numCpus args i config =
    match serverOption numCpus args[i] with
    | .value set =>
      if h' : i + 1 < args.length then .next (set args[i + 1] config) 1 else .next config 0
    | .flag set => .next (set config) 0
    | .stop => .exit := by
  have hvalue (set : Str → ServerConfig) : withValue args i config set =
      if h' : i + 1 < args.length then .next (set args[i + 1]) 1 else .next config 0 := by
    rw [withValue]
    split_ifs with h'
    · rw [List.getElem?_eq_getElem h']
    · rfl
  rw [turn, List.getElem?_eq_getElem h]
  simp only [hvalue, serverOption]
  split_ifs <;> rfl

/-- The loop of `parse_args` is the general one. -/
theorem parseFrom_eq_scan (args : List Str) (i : ℕ) (config : ServerConfig) :
    parseFrom numCpus args i config =
      (scan (serverOption numCpus) args i config).elim .exited .config := by
  fun_induction scan (serverOption numCpus) args i config with
  | case1 i config h set hrole h' ih =>
    rw [← ih]
    have hturn : turn numCpus args i config = .next (set args[i + 1] config) 1 := by
      rw [turn_eq h, hrole]
      exact dif_pos h'
    exact parseFrom_next h hturn
  | case2 i config h set hrole h' ih =>
    rw [← ih]
    have hturn : turn numCpus args i config = .next config 0 := by
      rw [turn_eq h, hrole]
      exact dif_neg h'
    exact parseFrom_next h hturn
  | case3 i config h set hrole ih =>
    rw [← ih]
    have hturn : turn numCpus args i config = .next (set config) 0 := by
      rw [turn_eq h, hrole]
    exact parseFrom_next h hturn
  | case4 i config h hrole =>
    rw [parseFrom, if_pos h, turn_eq h, hrole]
    rfl
  | case5 i config h =>
    exact parseFrom_end (Nat.not_lt.mp h)

theorem serverOption_takes (name : Str) :
    (serverOption numCpus name).takesValue = serverTakes name := by
  unfold serverOption serverTakes
  split_ifs <;> simp_all [Role.takesValue, oneOf]

theorem serverOption_pair (name value : Str) (config : ServerConfig)
    (h : serverTakes name = true) : (Item.pair name value).act (serverOption numCpus) config =
      some (serverTold numCpus [.pair name value] config) := by
  simp only [serverTakes, oneOf_iff, List.mem_cons, List.not_mem_nil, or_false] at h
  obtain rfl | rfl | rfl | rfl | rfl := h <;> rfl

theorem serverTold_lone (name : Str) (config : ServerConfig) :
    serverTold numCpus [.lone name] config =
      { config with
        useIoUring := !decide (name = "--no-io-uring".toList) && config.useIoUring } := by
  have hany : [Item.lone name].any isNoIoUring = decide (name = "--no-io-uring".toList) := by
    rw [List.any_cons, List.any_nil, Bool.or_false, isNoIoUring]
  rw [serverTold, hany]
  rfl

theorem serverOption_lone (name : Str) (config : ServerConfig) :
    (Item.lone name).act (serverOption numCpus) config =
      if asksHelp (.lone name) then none else some (serverTold numCpus [.lone name] config) := by
  rw [serverTold_lone, Item.act, serverOption]
  by_cases hhelp : asksHelp (.lone name) = true
  · rw [if_pos hhelp]
    obtain rfl | rfl := asksHelp_lone_iff.mp hhelp <;> rfl
  · have hname := mt asksHelp_lone_iff.mpr hhelp
    rw [if_neg hhelp]
    split_ifs with h1 h2 h3 h4 h5 h6
    -- the names of the options in their order, and one that is none of them
    · subst h1; rfl
    · subst h2; rfl
    · subst h3; rfl
    · subst h4; rfl
    · subst h5; rfl
    · subst h6; rfl
    · rw [decide_eq_false h6]
      rfl

theorem serverTold_cons (item : Item Str) (given : List (Item Str)) (config : ServerConfig) :
    serverTold numCpus (item :: given) config =
      serverTold numCpus given (serverTold numCpus [item] config) := by
  have hflag : (!(item :: given).any isNoIoUring && config.useIoUring) =
      (!given.any isNoIoUring && (!([item].any isNoIoUring) && config.useIoUring)) := by
    rw [List.any_cons, List.any_cons, List.any_nil]
    cases isNoIoUring item <;> simp
  simp only [serverTold, lastTold_cons, lastTold_nil, hflag]

theorem parseArgs_eq (ioUring : Bool) (args : List Str) : parseArgs numCpus args ioUring =
    if (items serverTakes (args.drop 1)).any asksHelp then .exited
    else .config
      (serverTold numCpus (items serverTakes (args.drop 1)) (.default numCpus ioUring)) := by
  rw [parseArgs, parseFrom_eq_scan, scan_told serverOption_takes asksHelp (serverTold numCpus)
    (fun _ => rfl) serverTold_cons (serverOption_pair · · · ·) serverOption_lone]
  split_ifs <;> rfl

theorem told_of_parseArgs {ioUring : Bool} (h : parseArgs numCpus args ioUring = .config config) :
    config = serverTold numCpus (items serverTakes (args.drop 1)) (.default numCpus ioUring) := by
  rw [parseArgs_eq] at h
  split_ifs at h
  exact (Parsed.config.inj h).symm

theorem parseArgs_ne_panicked (ioUring : Bool) (args : List Str) :
    parseArgs numCpus args ioUring ≠ .panicked := by
  rw [parseArgs_eq]
  split_ifs <;> exact Parsed.noConfusion

/-- The reading panics on entries that are no text, and for nothing that they tell. -/
theorem parseEnvArgs_panicked_iff (ioUring : Bool) (raw : List Bytes) :
    parseEnvArgs numCpus raw ioUring = .panicked ↔ ∃ entry ∈ raw, ∀ text : Str,
      entry ≠ text.bytes := by
  have hnone (entry : Bytes) : fromUtf8 entry = none ↔ ∀ text : Str, entry ≠ text.bytes := by
    rw [Option.eq_none_iff_forall_ne_some]
    exact forall_congr' fun text => fromUtf8_eq_some_iff.not
  simp only [← hnone]
  rw [← envArgs_eq_none_iff, parseEnvArgs]
  cases envArgs raw with
  | none => simp
  | some args => simp [parseArgs_ne_panicked]

/-- On whatever entries it is started with, `parse_args` panics exactly where one of them is no
text. Any vector of texts falls apart into options with their values and other entries, in one
way and without a rest; `parse_args` prints the help when one of the others asks for it, and
else its configuration has of each field what the last option with that name tells. -/
theorem every_vector_parsed (numCpus : ℕ) (ioUring : Bool) :
    (∀ raw : List Bytes, parseEnvArgs numCpus raw ioUring = .panicked ↔
      ∃ entry ∈ raw, ∀ text : Str, entry ≠ text.bytes) ∧
    ∀ args : List Str, let given := items serverTakes (args.drop 1)
      given.flatMap Item.entries = args.drop 1 ∧
        parseEnvArgs numCpus (args.map Str.bytes) ioUring =
          if given.any asksHelp then .exited
          else .config (serverTold numCpus given (.default numCpus ioUring)) := by
  refine ⟨parseEnvArgs_panicked_iff ioUring, fun args => ⟨flatMap_entries_items serverTakes _, ?_⟩⟩
  rw [parseEnvArgs, envArgs_eq_some_iff.mpr rfl]
  exact parseArgs_eq ioUring args

end Server

end KernelEngine.Invocation
