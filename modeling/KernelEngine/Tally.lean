import KernelEngine.Bench.Benchmark
import KernelEngine.Lib.Shared
import KernelEngine.Lib.Simulation
import Mathlib.Algebra.Group.Prod
import Mathlib.Algebra.Order.Group.Multiset
import Mathlib.Data.UInt

namespace KernelEngine.Tally
open Rust File Bench Runs

/-- What a benchmark counts, up to the order of the latencies. -/
abbrev Total := UInt64 × UInt64 × Multiset Duration

def summary (s : BenchmarkStats) : Total := (s.totalRequests, s.totalBytes, s.latencies)

def weight : Update → Total
  | .request => (1, 0, 0)
  | .bytes n => (0, n, 0)
  | .latency d => (0, 0, {d})

/-- The threads and what they share, as accounts and their total. -/
def books (s : Benchmark) : Shared.State Total where
  accounts := s.threads.map fun thread =>
    ⟨summary thread.worker.stats, thread.owed.map weight⟩
  total := summary s.stats

def events : BenchIo → List (Shared.Event Total)
  | .socket thread io => [.earn thread ((Benchmark.recorded io).map weight)]
  | .update thread => [.pay thread]

/-- The system calls of one thread. -/
def calls (thread : ℕ) : BenchIo → List SocketIo
  | .socket i io => if i = thread then [io] else []
  | .update _ => []

section Steps

variable {config : BenchmarkConfig} {total : ℕ → ℕ} {s s' : Benchmark} {io : BenchIo}
  {w w' : ConnectionWorker} {t : List BenchIo} {u : List SocketIo} {numConnections : ℕ}

theorem summary_apply (s : BenchmarkStats) (update : Update) :
    summary (update.apply s) = summary s + weight update := by
  cases update with
  | request | bytes => simp [summary, weight, Update.apply]
  | latency d => simp [summary, weight, Update.apply, ← Multiset.coe_add]

theorem summary_recordRequest (s : BenchmarkStats) (n : UInt64) (d : Duration) :
    summary (s.recordRequest n d) = summary s + ((Update.all n d).map weight).sum := by
  rw [← Update.foldl_all]
  simp only [Update.all, List.foldl_cons, List.foldl_nil, summary_apply, List.map_cons,
    List.map_nil, List.sum_cons, List.sum_nil, add_zero, add_assoc]

/-- What a thread records is what its own books gain. -/
theorem summary_recorded {n : ℕ} {io : SocketIo} (hs : w.step config n io = some w') :
    summary w'.stats = summary w.stats + ((Benchmark.recorded io).map weight).sum := by
  cases ConnectionWorker.step_cases hs with
  | recorded bytesRead latency => exact summary_recordRequest _ _ _
  | moved _ point hio =>
    have hnone : Benchmark.recorded io = [] := by
      unfold Benchmark.recorded
      split
      · exact (hio _ _ rfl).elim
      · rfl
    rw [hnone, List.map_nil, List.sum_nil, add_zero]

/-- The threads share what they count as accounts share a total. -/
theorem books_step : Simulates (Benchmark.step config total) Shared.step (fun _ => events)
    (fun s a => books s = a) := by
  rintro s io s' a rfl hs
  refine ⟨books s', ?_, rfl⟩
  cases Benchmark.step_cases hs with
  | @called thread io worker worker' hthread hcall =>
    have haccount : (books s).accounts[thread]? = some ⟨summary worker.stats, []⟩ := by
      simp [books, hthread]
    refine run_cons_iff.mpr ⟨_, ?_, rfl⟩
    simp only [Shared.step, haccount]
    rw [← summary_recorded hcall]
    simp [books, List.map_set]
  | @updated thread worker update rest hthread =>
    have haccount : (books s).accounts[thread]? =
        some ⟨summary worker.stats, weight update :: rest.map weight⟩ := by
      simp [books, hthread]
    refine run_cons_iff.mpr ⟨_, ?_, rfl⟩
    simp only [Shared.step, haccount]
    simp [books, List.map_set, summary_apply]

theorem books_start : books (.start numConnections) = Shared.start numConnections := by
  simp [books, Benchmark.start, Shared.start, ConnectionWorker.start, summary, BenchmarkStats.new]

/-- Each thread runs its connection as if it were alone. -/
theorem thread_step (thread : ℕ) : Simulates (Benchmark.step config total)
    (ConnectionWorker.step config (total thread)) (fun _ => calls thread)
    (fun s w => ∃ owed, s.threads[thread]? = some ⟨w, owed⟩) := by
  rintro s io s' w ⟨owed, hw⟩ hs
  have hlt := (List.getElem?_eq_some_iff.mp hw).1
  cases Benchmark.step_cases hs with
  | @called i io worker worker' hthread hcall =>
    by_cases heq : i = thread
    · subst heq
      obtain ⟨rfl, rfl⟩ := Thread.mk.inj (Option.some.inj (hw.symm.trans hthread))
      refine ⟨worker', ?_, Benchmark.recorded io, List.getElem?_set_self hlt⟩
      show run _ w (if i = i then [io] else []) = _
      rw [if_pos rfl]
      exact run_cons_iff.mpr ⟨worker', hcall, rfl⟩
    · refine ⟨w, ?_, owed, (List.getElem?_set_ne heq).trans hw⟩
      show run _ w (if i = thread then [io] else []) = _
      rw [if_neg heq]
      rfl
  | @updated i worker update rest hthread =>
    by_cases heq : i = thread
    · subst heq
      obtain ⟨rfl, rfl⟩ := Thread.mk.inj (Option.some.inj (hw.symm.trans hthread))
      exact ⟨w, rfl, rest, List.getElem?_set_self hlt⟩
    · exact ⟨w, rfl, owed, (List.getElem?_set_ne heq).trans hw⟩

theorem length_step (hs : Benchmark.step config total s io = some s') :
    s'.threads.length = s.threads.length := by
  cases Benchmark.step_cases hs with
  | called | updated => exact List.length_set

theorem length_run (hrun : run (Benchmark.step config total) (.start numConnections) t = some s) :
    s.threads.length = numConnections :=
  run_invariant_of_step (I := fun s => s.threads.length = numConnections)
    (fun _ _ _ h hs => (length_step hs).trans h) (List.length_replicate ..) hrun

theorem thread_run (hrun : run (Benchmark.step config total) (.start numConnections) t = some s)
    {i : ℕ} {thread : Thread} (hthread : s.threads[i]? = some thread) :
    run (ConnectionWorker.step config (total i)) (.start .new) (t.flatMap (calls i)) =
      some thread.worker := by
  have hi : i < numConnections := length_run hrun ▸ (List.getElem?_eq_some_iff.mp hthread).1
  have hstart : ∃ owed, (Benchmark.start numConnections).threads[i]? =
      some ⟨.start .new, owed⟩ := by
    refine ⟨[], ?_⟩
    rw [Benchmark.start, List.getElem?_replicate, if_pos hi]
  obtain ⟨w, hw, owed, hthread'⟩ := (thread_step i).run hstart hrun
  obtain rfl := Option.some.inj (hthread.symm.trans hthread')
  rwa [shown_label hrun] at hw

end Steps

section Worker

variable {config : BenchmarkConfig} {total : ℕ} {w w' : ConnectionWorker} {io : SocketIo}
  {u : List SocketIo}

/-- A worker counts its turns and its bytes, and makes as many turns as it should. -/
structure Counted (config : BenchmarkConfig) (w : ConnectionWorker) : Prop where
  latencies : w.stats.latencies.length = w.turns
  requests : w.stats.totalRequests = UInt64.ofNat w.turns
  bytes : w.stats.totalBytes = UInt64.ofNat w.received
  turns : match w.point with
    | .connect => w.turns = 0
    | .finished (.ok _) => w.turns = config.requestsPerConnection
    | .finished (.error _) => w.turns ≤ config.requestsPerConnection
    | _ => w.turns < config.requestsPerConnection

theorem counted_start (config : BenchmarkConfig) : Counted config (.start .new) :=
  ⟨rfl, rfl, rfl, rfl⟩

theorem Counted.next (hlatencies : w.stats.latencies.length = w.turns)
    (hrequests : w.stats.totalRequests = UInt64.ofNat w.turns)
    (hbytes : w.stats.totalBytes = UInt64.ofNat w.received)
    (hturns : w.turns ≤ config.requestsPerConnection) : Counted config (w.next config) := by
  refine ⟨hlatencies, hrequests, hbytes, ?_⟩
  rw [ConnectionWorker.next]
  split_ifs with h
  · exact h
  · exact le_antisymm hturns (not_lt.mp h)

/-- Where a call fails the worker ends, wherever it was. -/
theorem Counted.fail (h : Counted config w) (hp : ∀ result, w.point ≠ .finished result)
    (err : OsError) : Counted config (w.fail err) := by
  refine ⟨h.latencies, h.requests, h.bytes, ?_⟩
  have hturns := h.turns
  show w.turns ≤ config.requestsPerConnection
  split at hturns
  case h_1 => exact hturns.trans_le (Nat.zero_le _)
  case h_2 hfinished => exact (hp _ hfinished).elim
  case h_3 hfinished => exact (hp _ hfinished).elim
  case h_4 => exact hturns.le

theorem counted_step (h : Counted config w) (hs : w.step config total io = some w') :
    Counted config w' := by
  have hturns := h.turns
  unfold ConnectionWorker.step at hs
  split at hs
  case h_1 addr result hp =>
    obtain ⟨-, hs⟩ := Option.ite_none_right_eq_some.mp hs
    cases result with
    | error err =>
      obtain rfl := Option.some.inj hs
      exact h.fail (by simp [hp]) err
    | ok =>
      obtain rfl := Option.some.inj hs
      rw [hp] at hturns
      exact .next h.latencies h.requests h.bytes (hturns.trans_le (Nat.zero_le _))
  case h_2 request result hp =>
    obtain ⟨-, hs⟩ := Option.ite_none_right_eq_some.mp hs
    cases result with
    | error err =>
      obtain rfl := Option.some.inj hs
      exact h.fail (by simp [hp]) err
    | ok =>
      obtain rfl := Option.some.inj hs
      rw [hp] at hturns
      exact ⟨h.latencies, h.requests, h.bytes, hturns⟩
  case h_3 result hp =>
    cases result with
    | error err =>
      obtain rfl := Option.some.inj hs
      exact h.fail (by simp [hp]) err
    | ok =>
      obtain rfl := Option.some.inj hs
      rw [hp] at hturns
      exact ⟨h.latencies, h.requests, h.bytes, hturns⟩
  case h_4 result latency hp =>
    cases result with
    | error err =>
      obtain rfl := Option.some.inj hs
      exact h.fail (by simp [hp]) err
    | ok bytesRead =>
      obtain ⟨-, hs⟩ := Option.ite_none_right_eq_some.mp hs
      obtain rfl := Option.some.inj hs
      rw [hp] at hturns
      refine .next ?_ ?_ ?_ hturns
      · exact (List.length_append ..).trans (congrArg (· + 1) h.latencies)
      · show w.stats.totalRequests + 1 = UInt64.ofNat (w.turns + 1)
        rw [h.requests, UInt64.ofNat_add]
        rfl
      · show w.stats.totalBytes + UInt64.ofNat bytesRead = UInt64.ofNat (w.received + bytesRead)
        rw [h.bytes, UInt64.ofNat_add]
  case h_5 => cases hs

theorem counted_run (hrun : run (ConnectionWorker.step config total) (.start .new) u = some w) :
    Counted config w :=
  run_invariant_of_step (fun _ _ _ h hs => counted_step h hs) (counted_start config) hrun

end Worker

/-- The latencies that the threads have recorded, one thread after the other. -/
def allLatencies (threads : List Thread) : List Duration :=
  threads.flatMap fun thread => thread.worker.stats.latencies

section Joined

variable {config : BenchmarkConfig} {total : ℕ → ℕ} {s : Benchmark} {t : List BenchIo}
  {numConnections : ℕ} {threads : List Thread}

theorem sum_summary (h : ∀ thread ∈ threads, Counted config thread.worker) :
    (threads.map fun thread => summary thread.worker.stats).sum =
      (UInt64.ofNat (allLatencies threads).length,
        UInt64.ofNat (threads.map fun thread => thread.worker.received).sum,
        (allLatencies threads : Multiset Duration)) := by
  induction threads with
  | nil => rfl
  | cons thread threads ih =>
    obtain ⟨hthread, hthreads⟩ := List.forall_mem_cons.mp h
    have hall : allLatencies (thread :: threads) =
        thread.worker.stats.latencies ++ allLatencies threads := List.flatMap_cons
    rw [List.map_cons, List.sum_cons, ih hthreads, hall, List.length_append, hthread.latencies,
      UInt64.ofNat_add, List.map_cons, List.sum_cons, UInt64.ofNat_add, ← hthread.requests,
      ← hthread.bytes, ← Multiset.coe_add]
    rfl

theorem summary_joined (hrun : run (Benchmark.step config total) (.start numConnections) t = some s)
    (hjoined : s.Joined) :
    summary s.stats = (s.threads.map fun thread => summary thread.worker.stats).sum := by
  obtain ⟨a, ha, rfl⟩ := books_step.run rfl hrun
  rw [books_start] at ha
  have hsettled : ∀ a ∈ (books s).accounts, a.owed = [] := by
    intro a ha
    obtain ⟨thread, hthread, rfl⟩ := List.mem_map.mp ha
    exact List.map_eq_nil_iff.mpr (hjoined thread hthread).1
  have htotal := Shared.total_of_settled ha hsettled
  simpa [books, Function.comp_def] using htotal

theorem counted_threads
    (hrun : run (Benchmark.step config total) (.start numConnections) t = some s) :
    ∀ thread ∈ s.threads, Counted config thread.worker := by
  intro thread hthread
  obtain ⟨i, hi⟩ := List.mem_iff_getElem?.mp hthread
  exact counted_run (thread_run hrun hi)

/-- Threads that have all come to a good end have made the same number of turns. -/
theorem length_allLatencies (h : ∀ thread ∈ threads, Counted config thread.worker)
    (hok : ∀ thread ∈ threads, thread.worker.point = .finished (.ok ())) :
    (allLatencies threads).length = threads.length * config.requestsPerConnection := by
  rw [allLatencies, List.length_flatMap]
  have hsame : threads.map (fun thread => thread.worker.stats.latencies.length) =
      List.replicate threads.length config.requestsPerConnection := by
    refine List.eq_replicate_iff.mpr ⟨List.length_map _, fun n hn => ?_⟩
    obtain ⟨thread, hthread, rfl⟩ := List.mem_map.mp hn
    have hturns := (h thread hthread).turns
    rw [hok thread hthread] at hturns
    exact (h thread hthread).latencies.trans hturns
  rw [hsame, List.sum_replicate_nat]

/-- With all threads joined, what they share is what they have counted. -/
theorem totals_joined (hrun : run (Benchmark.step config total) (.start numConnections) t = some s)
    (hjoined : s.Joined) : s.stats.latencies.Perm (allLatencies s.threads) ∧
      s.stats.totalRequests = UInt64.ofNat s.stats.latencies.length ∧
      s.stats.totalBytes =
        UInt64.ofNat (s.threads.map fun thread => thread.worker.received).sum := by
  have hsummary := (summary_joined hrun hjoined).trans (sum_summary (counted_threads hrun))
  obtain ⟨hrequests, hrest⟩ := Prod.mk.inj hsummary
  obtain ⟨hbytes, hlatencies⟩ := Prod.mk.inj hrest
  have hperm : s.stats.latencies.Perm (allLatencies s.threads) := Multiset.coe_eq_coe.mp hlatencies
  refine ⟨hperm, ?_, hbytes⟩
  rw [hperm.length_eq, hrequests]

theorem length_latencies
    (hrun : run (Benchmark.step config total) (.start numConnections) t = some s)
    (hjoined : s.Joined) (hok : ∀ thread ∈ s.threads, thread.worker.point = .finished (.ok ())) :
    s.stats.latencies.length = numConnections * config.requestsPerConnection := by
  rw [(totals_joined hrun hjoined).1.length_eq, length_allLatencies (counted_threads hrun) hok,
    length_run hrun]

/-- What is printed does not depend on the order in which the latencies were recorded. -/
theorem printed_congr {stats stats' : BenchmarkStats} (h : stats.latencies.Perm stats'.latencies)
    (checks : Bool) : (stats.printResults checks).map Prod.snd =
      (stats'.printResults checks).map Prod.snd := by
  have hsorted : stats.latencies.mergeSort (· ≤ ·) = stats'.latencies.mergeSort (· ≤ ·) := by
    refine List.Perm.eq_of_sortedLE List.sortedLE_mergeSort List.sortedLE_mergeSort ?_
    exact (List.mergeSort_perm ..).trans (h.trans (List.mergeSort_perm ..).symm)
  simp only [BenchmarkStats.printResults, hsorted]
  split_ifs
  · rfl
  · -- the places are the same, found or not
    generalize BenchmarkStats.percentile checks _ 50 = p50
    generalize BenchmarkStats.percentile checks _ 95 = p95
    generalize BenchmarkStats.percentile checks _ 99 = p99
    cases p50 <;> cases p95 <;> cases p99 <;> rfl

end Joined

/-- When all threads can be joined, the shared books hold what each of them has counted,
however their updates came between each other: no request, no byte and no latency is lost or
counted twice, the percentiles printed are those of all latencies, each thread has worked as
if alone, and where none of them failed each has made all its requests. -/
theorem benchmark_counts_all (config : BenchmarkConfig) (numConnections : ℕ) (total : ℕ → ℕ)
    (t : List BenchIo) (s : Benchmark)
    (hrun : run (Benchmark.step config total) (.start numConnections) t = some s)
    (hjoined : s.Joined) :
    s.stats.latencies.Perm (allLatencies s.threads) ∧
      s.stats.totalRequests = UInt64.ofNat s.stats.latencies.length ∧
      s.stats.totalBytes = UInt64.ofNat (s.threads.map fun thread => thread.worker.received).sum ∧
      (∀ i thread, s.threads[i]? = some thread →
        run (ConnectionWorker.step config (total i)) (.start .new) (t.flatMap (calls i)) =
          some thread.worker) ∧
      (∀ checks, (s.stats.printResults checks).map Prod.snd =
        ({ s.stats with latencies := allLatencies s.threads }.printResults checks).map Prod.snd) ∧
      ((∀ thread ∈ s.threads, thread.worker.point = .finished (.ok ())) →
        s.stats.latencies.length = numConnections * config.requestsPerConnection) := by
  obtain ⟨hperm, hrequests, hbytes⟩ := totals_joined hrun hjoined
  exact ⟨hperm, hrequests, hbytes, fun i thread => thread_run hrun, printed_congr hperm,
    length_latencies hrun hjoined⟩

/-- Two connections of one request each; the second is counted between the updates of the
first. -/
def overtaking : List BenchIo :=
  let config : BenchmarkConfig := ⟨"127.0.0.1".toList, 8080, 1, 0⟩
  let opening (thread : ℕ) : List BenchIo :=
    [.socket thread (.connect (ConnectionWorker.address config) (.ok ())),
      .socket thread (.writeAll (createHttpRequest 0).bytes (.ok ())),
      .socket thread (.flush (.ok ()))]
  opening 0 ++ opening 1 ++ [.socket 0 (.read (.ok 170) 900), .update 0,
    .socket 1 (.read (.ok 170) 400), .update 1, .update 1, .update 1, .update 0, .update 0]

theorem overtaking_counted : ∃ s,
    run (Benchmark.step ⟨"127.0.0.1".toList, 8080, 1, 0⟩ fun _ => 170) (.start 2) overtaking =
      some s ∧ s.stats.latencies = [400, 900] ∧ s.stats.latencies.Perm [900, 400] := by
  refine ⟨_, rfl, rfl, ?_⟩
  have hjoined {s : Benchmark} {a b : Thread} (hs : s.threads = [a, b])
      (ha : a.owed = [] ∧ ∃ result, a.worker.point = .finished result)
      (hb : b.owed = [] ∧ ∃ result, b.worker.point = .finished result) : s.Joined := by
    simp [Benchmark.Joined, hs, ha, hb]
  exact (benchmark_counts_all ⟨"127.0.0.1".toList, 8080, 1, 0⟩ 2 (fun _ => 170) overtaking _ rfl
    (hjoined rfl ⟨rfl, _, rfl⟩ ⟨rfl, _, rfl⟩)).1

end KernelEngine.Tally
