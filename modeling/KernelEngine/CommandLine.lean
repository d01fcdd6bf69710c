import KernelEngine.Invocation

namespace KernelEngine.CommandLine
open Rust Args Options Invocation

/-- A number in decimal, as it is written, that fits in a type with this many values. -/
structure Decimal (values : ℕ) where
  text : Str
  value : ℕ
  denotes : Denotes text value
  fits : value < values

/-- An option with its value. Hosts and directories are any text at all. -/
inductive Group where
  | host (value : Str)
  | port (value : Decimal (2 ^ 16))
  | workers (value : Decimal (2 ^ 64))
  | mode (value : ServerMode)
  | staticDir (value : Str)
  | noIoUring

def modeText : ServerMode → Str
  | .fastPath => "fast-path".toList
  | .dynamicPath => "dynamic-path".toList

namespace Group

/-- The option as the argument vector has it. -/
def item : Group → Item Str
  | .host value => .pair "--host".toList value
  | .port value => .pair "--port".toList value.text
  | .workers value => .pair "--workers".toList value.text
  | .mode value => .pair "--mode".toList (modeText value)
  | .staticDir value => .pair "--static-dir".toList value
  | .noIoUring => .lone "--no-io-uring".toList

/-- The entries of the argument vector. -/
def args : Group → List Str
  | .host value => ["--host".toList, value]
  | .port value => ["--port".toList, value.text]
  | .workers value => ["--workers".toList, value.text]
  | .mode value => ["--mode".toList, modeText value]
  | .staticDir value => ["--static-dir".toList, value]
  | .noIoUring => ["--no-io-uring".toList]

def host? : Group → Option Str
  | .host value => some value
  | _ => none

def port? : Group → Option ℕ
  | .port value => some value.value
  | _ => none

def workers? : Group → Option ℕ
  | .workers value => some value.value
  | _ => none

def mode? : Group → Option ServerMode
  | .mode value => some value
  | _ => none

def staticDir? : Group → Option Str
  | .staticDir value => some value
  | _ => none

def isNoIoUring : Group → Bool
  | .noIoUring => true
  | _ => false

end Group

/-- The configuration that groups of options ask for: of each option the value of its last
group, or the default. -/
def expected (groups : List Group) (default : ServerConfig) : ServerConfig where
  host := lastTold Group.host? groups default.host
  port := lastTold Group.port? groups default.port
  numWorkers := lastTold Group.workers? groups default.numWorkers
  mode := lastTold Group.mode? groups default.mode
  staticDir := lastTold Group.staticDir? groups default.staticDir
  useIoUring := !groups.any Group.isNoIoUring && default.useIoUring

section Groups

variable {numCpus : ℕ} {groups : List Group} {args : List Str}

theorem parseMode_modeText (mode : ServerMode) : parseMode (modeText mode) = mode := by
  cases mode <;> decide

theorem parseU16_text (value : Decimal (2 ^ 16)) : parseU16 value.text = some value.value :=
  fromStrRadix_of_denotes value.denotes value.fits

theorem parseUsize_text (value : Decimal (2 ^ 64)) : parseUsize value.text = some value.value :=
  fromStrRadix_of_denotes value.denotes value.fits

theorem Group.entries_item (g : Group) : g.item.entries = g.args := by
  cases g <;> rfl

/-- The groups are found again, whatever their values look like. -/
theorem items_groups (groups : List Group) :
    items serverTakes (groups.flatMap Group.args) = groups.map Group.item := by
  have hargs : Group.args = fun g => g.item.entries := funext fun g => g.entries_item.symm
  rw [hargs]
  refine items_flatMap Group.item ?_ ?_ groups
  · intro g name value h
    cases g <;> cases h <;> decide
  · intro g name h
    cases g <;> cases h
    decide

theorem serverTold_groups (groups : List Group) (default : ServerConfig) :
    serverTold numCpus (groups.map Group.item) default = expected groups default := by
  have hhost : valueOf ["--host".toList] id ∘ Group.item = Group.host? :=
    funext fun g => by cases g <;> rfl
  have hport : (valueOf ["--port".toList] fun v => (parseU16 v).getD 8080) ∘ Group.item =
      Group.port? := by
    funext g
    cases g with
    | port value => exact congrArg (fun v => some (v.getD 8080)) (parseU16_text value)
    | _ => rfl
  have hworkers : (valueOf ["--workers".toList] fun v => (parseUsize v).getD numCpus) ∘
      Group.item = Group.workers? := by
    funext g
    cases g with
    | workers value => exact congrArg (fun v => some (v.getD numCpus)) (parseUsize_text value)
    | _ => rfl
  have hmode : valueOf ["--mode".toList] parseMode ∘ Group.item = Group.mode? := by
    funext g
    cases g with
    | mode value => exact congrArg some (parseMode_modeText value)
    | _ => rfl
  have hdir : valueOf ["--static-dir".toList] id ∘ Group.item = Group.staticDir? :=
    funext fun g => by cases g <;> rfl
  have hflag : isNoIoUring ∘ Group.item = Group.isNoIoUring :=
    funext fun g => by cases g <;> rfl
  simp only [serverTold, lastTold_map, hhost, hport, hworkers, hmode, hdir, List.any_map, hflag,
    expected]

/-- No group asks for help, not even by its value. -/
theorem asksHelp_groups (groups : List Group) :
    (groups.map Group.item).any asksHelp = false := by
  rw [List.any_map, List.any_eq_false]
  intro g _
  cases g with
  | noIoUring => decide
  | _ => exact Bool.false_ne_true

theorem asksHelp_items (hhelp : "--help".toList ∉ args) (hh : "-h".toList ∉ args) :
    (items serverTakes (args.drop 1)).any asksHelp = false := by
  rw [List.any_eq_false]
  intro item hitem hasks
  cases item with
  | pair name value => cases hasks
  | lone name =>
    have hname := List.mem_of_mem_drop (mem_of_lone_mem_items hitem)
    obtain rfl | rfl := asksHelp_lone_iff.mp hasks
    · exact hhelp hname
    · exact hh hname

/-- Groups of options are read as they are meant, and any argument vector without a request for
help is read to its end. -/
theorem arguments_parsed (numCpus : ℕ) (ioUring : Bool) :
    (∀ (program : Str) (groups : List Group),
      parseArgs numCpus (program :: groups.flatMap Group.args) ioUring =
        .config (expected groups (.default numCpus ioUring))) ∧
    (∀ args : List Str, "--help".toList ∉ args → "-h".toList ∉ args →
      ∃ config, parseArgs numCpus args ioUring = .config config) := by
  constructor
  · intro program groups
    rw [parseArgs_eq, List.drop_one, List.tail_cons, items_groups, asksHelp_groups,
      serverTold_groups]
    rfl
  · intro args hhelp hh
    rw [parseArgs_eq, asksHelp_items hhelp hh]
    exact ⟨_, rfl⟩

/-- A host that looks like another option is a host, and an option without its value is passed
over. -/
theorem option_texts_parsed :
    parseArgs 8 ("server".toList :: [Group.host "--help".toList, .noIoUring,
        .host "--port".toList].flatMap Group.args) true =
      .config { ServerConfig.default 8 true with
        host := "--port".toList
        useIoUring := false } ∧
    ∃ config, parseArgs 8 ["server".toList, "--workers".toList] true = .config config :=
  ⟨(arguments_parsed 8 true).1 "server".toList [.host "--help".toList, .noIoUring,
    .host "--port".toList], (arguments_parsed 8 true).2 _ (by decide) (by decide)⟩

end Groups

end KernelEngine.CommandLine
