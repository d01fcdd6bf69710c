import KernelEngine.Bench.Main
import KernelEngine.Invocation
import KernelEngine.Tally

namespace KernelEngine.Campaign
open Rust Args Options Invocation Bench Runs

/-- The options of the benchmark that take a value. -/
def benchTakes : Str → Bool :=
  oneOf ["--host".toList, "--port".toList, "--connections".toList, "-c".toList,
    "--requests".toList, "-n".toList, "--payload".toList, "-p".toList]

/-- What the items of an argument vector tell the benchmark. -/
def benchTold (given : List (Item Str)) (default : Settings) : Settings where
  host := lastTold (valueOf ["--host".toList] id) given default.host
  port := lastTold (valueOf ["--port".toList] fun v => (parseU16 v).getD 8080) given default.port
  connections := lastTold (valueOf ["--connections".toList, "-c".toList]
    fun v => (parseUsize v).getD 10) given default.connections
  requests := lastTold (valueOf ["--requests".toList, "-n".toList]
    fun v => (parseUsize v).getD 1000) given default.requests
  payloadSize := lastTold (valueOf ["--payload".toList, "-p".toList]
    fun v => (parseUsize v).getD 128) given default.payloadSize

/-- A connection goes to the target, and what is written is the request of this size. -/
def Directed (target : Settings) : BenchIo → Prop
  | .socket _ (.connect addr _) => addr = target.host ++ ":".toList ++ decimal target.port
  | .socket _ (.writeAll request _) => request = (createHttpRequest target.payloadSize).bytes
  | .socket _ (.flush _) | .socket _ (.read _ _) | .update _ => True

variable {settings : Settings} {total : ℕ → ℕ} {s s' : Benchmark} {io : BenchIo}

theorem option_takes (name : Str) : (Settings.option name).takesValue = benchTakes name := by
  unfold Settings.option
  split_ifs with h1 h2 h3 h4 h5 h6
  · subst h1; rfl
  · subst h2; rfl
  · obtain rfl | rfl := h3 <;> rfl
  · obtain rfl | rfl := h4 <;> rfl
  · obtain rfl | rfl := h5 <;> rfl
  · obtain rfl | rfl := h6 <;> rfl
  · rw [not_or] at h3 h4 h5
    simp_all [Role.takesValue, benchTakes, oneOf]

theorem option_pair (name value : Str) (settings : Settings) (h : benchTakes name = true) :
    (Item.pair name value).act Settings.option settings =
      some (benchTold [.pair name value] settings) := by
  simp only [benchTakes, oneOf_iff, List.mem_cons, List.not_mem_nil, or_false] at h
  obtain rfl | rfl | rfl | rfl | rfl | rfl | rfl | rfl := h <;> rfl

theorem option_lone (name : Str) (settings : Settings) :
    (Item.lone name).act Settings.option settings =
      if asksHelp (.lone name) then none else some (benchTold [.lone name] settings) := by
  rw [Item.act, Settings.option]
  by_cases hhelp : asksHelp (.lone name) = true
  · rw [if_pos hhelp]
    obtain rfl | rfl := asksHelp_lone_iff.mp hhelp <;> rfl
  · have hname := mt asksHelp_lone_iff.mpr hhelp
    rw [if_neg hhelp]
    split_ifs with h1 h2 h3 h4 h5
    · subst h1; rfl
    · subst h2; rfl
    · obtain rfl | rfl := h3 <;> rfl
    · obtain rfl | rfl := h4 <;> rfl
    · obtain rfl | rfl := h5 <;> rfl
    · rfl

theorem benchTold_cons (item : Item Str) (given : List (Item Str)) (settings : Settings) :
    benchTold (item :: given) settings = benchTold given (benchTold [item] settings) := by
  simp only [benchTold, lastTold_cons, lastTold_nil]

theorem main_eq (args : List Str) : Bench.main args =
    if (items benchTakes (args.drop 1)).any asksHelp then none
    else some (benchTold (items benchTakes (args.drop 1)) .default) :=
  scan_told option_takes asksHelp benchTold (fun _ => rfl) benchTold_cons option_pair
    option_lone args 1 .default

theorem directed_call {worker worker' : ConnectionWorker} {n : ℕ} {io : SocketIo}
    (hs : worker.step settings.config n io = some worker') (thread : ℕ) :
    Directed settings (.socket thread io) := by
  unfold ConnectionWorker.step at hs
  split at hs
  case h_1 => exact (Option.ite_none_right_eq_some.mp hs).1
  case h_2 => exact (Option.ite_none_right_eq_some.mp hs).1
  case h_3 => trivial
  case h_4 => trivial
  case h_5 => cases hs

theorem directed_step (hs : Benchmark.step settings.config total s io = some s') :
    Directed settings io := by
  cases Benchmark.step_cases hs with
  | called hthread hcall => exact directed_call hcall _
  | updated => trivial

/-- The benchmark from its command line on: when it runs, nobody has asked for help and it runs
with what the last options tell. Every connection is to that host and port, every request has
that payload, and when all threads come to a good end it has counted so many requests for each
of so many connections. -/
theorem benchmark_as_asked (args : List Str) (settings : Settings)
    (hmain : Bench.main args = some settings) (total : ℕ → ℕ) (t : List BenchIo) (s : Benchmark)
    (hrun : run (Benchmark.step settings.config total) (.start settings.connections) t = some s) :
    let given := items benchTakes (args.drop 1)
    given.flatMap Item.entries = args.drop 1 ∧ given.any asksHelp = false ∧
      settings = benchTold given .default ∧ (∀ io ∈ t, Directed settings io) ∧
      (s.Joined → (∀ thread ∈ s.threads, thread.worker.point = .finished (.ok ())) →
        s.stats.latencies.length = settings.connections * settings.requests) := by
  rw [main_eq] at hmain
  obtain ⟨hhelp, hsettings⟩ := Option.ite_none_left_eq_some.mp hmain
  refine ⟨flatMap_entries_items benchTakes _, Bool.eq_false_of_not_eq_true hhelp,
    (Option.some.inj hsettings).symm, ?_, Tally.length_latencies hrun⟩
  exact (along_label_iff hrun).mp (along_of_forall_mem fun _ _ _ _ hs => directed_step hs)

/-- Two numbers of requests, of which the last counts, one connection and no payload. -/
def oneRequest : List Str :=
  ["bench".toList, "-n".toList, "7".toList, "-c".toList, "1".toList, "--requests".toList,
    "1".toList, "-p".toList, "0".toList]

def oneTurn : List BenchIo :=
  [.socket 0 (.connect (ConnectionWorker.address Settings.default.config) (.ok ())),
    .socket 0 (.writeAll (createHttpRequest 0).bytes (.ok ())), .socket 0 (.flush (.ok ())),
    .socket 0 (.read (.ok 170) 900), .update 0, .update 0, .update 0]

theorem one_request_as_asked : ∃ s,
    run (Benchmark.step (Settings.config ⟨"127.0.0.1".toList, 8080, 1, 1, 0⟩) fun _ => 170)
      (.start 1) oneTurn = some s ∧ ∀ io ∈ oneTurn,
        Directed ⟨"127.0.0.1".toList, 8080, 1, 1, 0⟩ io := by
  have hmain : Bench.main oneRequest = some ⟨"127.0.0.1".toList, 8080, 1, 1, 0⟩ :=
    (main_eq oneRequest).trans rfl
  exact ⟨_, rfl, (benchmark_as_asked oneRequest _ hmain (fun _ => 170) oneTurn _ rfl).2.2.2.1⟩

end KernelEngine.Campaign
