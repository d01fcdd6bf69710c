import KernelEngine.Bench.RunBench
import Mathlib.Algebra.Ring.Nat

namespace KernelEngine.Accounting
open Rust File Bench Runs ConnectionWorker

/-- The bytes of the first `k` responses. -/
def firstBytes (sizes : List ℕ) (k : ℕ) : ℕ := (sizes.take k).sum

/-- The books are right: each call of `record_request` so far was made when as many responses
had come in completely, the bytes counted are those of these responses, and no read that
brought nothing was counted. `before` is the count when the worker started. -/
structure Accounted (sizes : List ℕ) (before : UInt64) (s : ConnectionWorker) : Prop where
  answered : s.calls.length ≤ sizes.length
  complete : ∀ k call, s.calls[k]? = some call → firstBytes sizes (k + 1) ≤ call.received
  bytes : s.stats.totalBytes =
    before + UInt64.ofNat (firstBytes sizes s.calls.length)
  counted : ∀ call ∈ s.calls, call.bytes ≠ 0

/-- A read that returns brings exactly the response to the request just made. -/
def Whole (sizes : List ℕ) (s : ConnectionWorker) : SocketIo → Prop
  | .read (.ok bytesRead) _ => sizes[s.calls.length]? = some bytesRead ∧ bytesRead ≠ 0
  | _ => True

/-- While every read is whole, all that was received is what was counted. -/
structure Invariant (sizes : List ℕ) (before : UInt64) (s : ConnectionWorker) : Prop where
  accounted : Accounted sizes before s
  received : s.received = firstBytes sizes s.calls.length

section Books

variable {config : BenchmarkConfig} {sizes : List ℕ} {before : UInt64} {s s' : ConnectionWorker}
  {io : SocketIo} {k bytesRead : ℕ} {latency : Duration}

theorem firstBytes_succ (h : sizes[k]? = some bytesRead) :
    firstBytes sizes (k + 1) = firstBytes sizes k + bytesRead := by
  rw [firstBytes, List.take_add_one, h, List.sum_append]
  simp [firstBytes]

@[simp] theorem length_calls_record (config : BenchmarkConfig) (s : ConnectionWorker)
    (bytesRead : ℕ) (latency : Duration) :
    ((s.record bytesRead latency).next config).calls.length = s.calls.length + 1 :=
  List.length_append

/-- Numbers that agree in 64 bits are the same if the larger fits in them. -/
theorem eq_of_ofNat_eq {m n : ℕ} (hle : m ≤ n) (hn : n < 2 ^ 64)
    (h : UInt64.ofNat n = UInt64.ofNat m) : m = n := by
  have hnat := congrArg UInt64.toNat h
  rw [UInt64.toNat_ofNat', UInt64.toNat_ofNat'] at hnat
  omega

theorem invariant_start (sizes : List ℕ) (stats : BenchmarkStats) :
    Invariant sizes stats.totalBytes (.start stats) := by
  refine ⟨⟨Nat.zero_le _, by simp [start], ?_, by simp [start]⟩, rfl⟩
  simp [start, firstBytes]

theorem Accounted.moved (h : Accounted sizes before s) (point : Point) :
    Accounted sizes before { s with point := point } :=
  ⟨h.answered, h.complete, h.bytes, h.counted⟩

theorem Invariant.moved (h : Invariant sizes before s) (point : Point) :
    Invariant sizes before { s with point := point } :=
  ⟨h.accounted.moved point, h.received⟩

/-- A turn that reads the whole response keeps the books right. -/
theorem Invariant.record (h : Invariant sizes before s)
    (hwhole : sizes[s.calls.length]? = some bytesRead) (hne : bytesRead ≠ 0) :
    Invariant sizes before ((s.record bytesRead latency).next config) := by
  have hsum := firstBytes_succ hwhole
  obtain ⟨hlt, -⟩ := List.getElem?_eq_some_iff.mp hwhole
  have hlength := length_calls_record config s bytesRead latency
  have hreceived : ((s.record bytesRead latency).next config).received =
      firstBytes sizes (s.calls.length + 1) := by
    rw [hsum, ← h.received]
    rfl
  refine ⟨⟨?_, ?_, ?_, ?_⟩, ?_⟩
  · rw [hlength]
    exact hlt
  · intro k call hcall
    change (s.calls ++ [⟨bytesRead, s.received + bytesRead⟩])[k]? = some call at hcall
    obtain hold | hnew := Nat.lt_or_ge k s.calls.length
    · rw [List.getElem?_append_left hold] at hcall
      exact h.accounted.complete k call hcall
    · rw [List.getElem?_append_right hnew, List.getElem?_singleton] at hcall
      obtain ⟨hk, hlast⟩ := Option.ite_none_right_eq_some.mp hcall
      have hkeq : k = s.calls.length := by omega
      rw [hkeq, ← Option.some.inj hlast]
      exact Nat.le_of_eq hreceived.symm
  · rw [hlength, hsum, UInt64.ofNat_add, ← UInt64.add_assoc, ← h.accounted.bytes]
    rfl
  · intro call hcall
    obtain hold | hnew := List.mem_append.mp hcall
    · exact h.accounted.counted call hold
    · rw [List.mem_singleton.mp hnew]
      exact hne
  · rw [hlength]
    exact hreceived

theorem invariant_step (total : ℕ) (h : Invariant sizes before s)
    (hs : step config total s io = some s') (hwhole : Whole sizes s io) :
    Invariant sizes before s' ∧ Accounted sizes before s' := by
  cases step_cases hs with
  | recorded bytesRead latency hbuffer htotal =>
    have hrecord : Invariant sizes before ((s.record bytesRead latency).next config) :=
      h.record hwhole.1 hwhole.2
    exact ⟨hrecord, hrecord.accounted⟩
  | moved _ point hio => exact ⟨h.moved point, h.accounted.moved point⟩

/-- Where the books are still right behind a read, it was whole: it has the length of the
response modulo 64 bits, has brought all of it, and is shorter than 64 bits can tell. -/
theorem whole_of_accounted (total : ℕ) (h : Invariant sizes before s)
    (hs : step config total s io = some s') (hbooks : Accounted sizes before s') :
    Whole sizes s io := by
  cases step_cases hs with
  | moved _ point hio =>
    unfold Whole
    split
    · exact (hio _ _ rfl).elim
    · trivial
  | recorded bytesRead latency hbuffer htotal =>
    have hlength := length_calls_record config s bytesRead latency
    have hlt : s.calls.length < sizes.length := by
      have hle := hbooks.answered
      rw [hlength] at hle
      exact hle
    have hsize := List.getElem?_eq_getElem hlt
    have hsum := firstBytes_succ hsize
    have hcomplete : sizes[s.calls.length] ≤ bytesRead := by
      have hle := hbooks.complete s.calls.length ⟨bytesRead, s.received + bytesRead⟩
        List.getElem?_concat_length
      rw [hsum, ← h.received] at hle
      exact Nat.le_of_add_le_add_left hle
    have hbytes : UInt64.ofNat bytesRead = UInt64.ofNat sizes[s.calls.length] := by
      have htotalBytes : s.stats.totalBytes + UInt64.ofNat bytesRead = _ := hbooks.bytes
      rw [hlength, hsum, UInt64.ofNat_add, ← UInt64.add_assoc, ← h.accounted.bytes] at htotalBytes
      exact (UInt64.add_right_inj _).mp htotalBytes
    have heq := eq_of_ofNat_eq hcomplete (by omega) hbytes
    refine ⟨hsize.trans (congrArg some heq), ?_⟩
    exact hbooks.counted ⟨bytesRead, s.received + bytesRead⟩ (List.mem_append_right _ (by simp))

/-- A benchmark connection keeps its books right through a whole run exactly when every one of
its reads takes exactly one response. -/
theorem books_right_iff (config : BenchmarkConfig) (sizes : List ℕ) (stats : BenchmarkStats)
    (t : List SocketIo) :
    Along (step config sizes.sum) (fun _ _ s' => Accounted sizes stats.totalBytes s')
        (.start stats) t ↔
      Along (step config sizes.sum) (fun s io _ => Whole sizes s io) (.start stats) t := by
  refine along_iff_of_exact (I := Invariant sizes stats.totalBytes) ?_ ?_
    (invariant_start sizes stats)
  · intro s io s' h hs hwhole
    exact invariant_step sizes.sum h hs hwhole
  · intro s io s' h hs hbooks
    exact whole_of_accounted sizes.sum h hs hbooks

/-- The system calls up to the first read. -/
def opening (config : BenchmarkConfig) : List SocketIo :=
  [.connect (address config) (.ok ()),
    .writeAll (createHttpRequest config.payloadSize).bytes (.ok ()), .flush (.ok ())]

theorem run_opening (total : ℕ) (stats : BenchmarkStats) (h : 0 < config.requestsPerConnection) :
    run (step config total) (.start stats) (opening config) =
      some { ConnectionWorker.start stats with point := .read } := by
  simp [opening, run, step, start, next, h]

/-- A first read that is not whole spoils the books. -/
theorem spoilt_by_read (stats : BenchmarkStats) (h : 0 < config.requestsPerConnection)
    (hbuffer : bytesRead ≤ 4096) (htotal : bytesRead ≤ sizes.sum)
    (hnot : ¬ (sizes[0]? = some bytesRead ∧ bytesRead ≠ 0)) :
    ¬ Along (step config sizes.sum) (fun _ _ s' => Accounted sizes stats.totalBytes s')
      (.start stats) (opening config ++ [.read (.ok bytesRead) latency]) := by
  intro hbooks
  have hread : step config sizes.sum { ConnectionWorker.start stats with point := .read }
      (.read (.ok bytesRead) latency) = some _ :=
    if_pos ⟨hbuffer, by simpa [start] using htotal⟩
  have hlast := ((along_append_iff (run_opening sizes.sum stats h)).mp hbooks).2
  have hopened := (invariant_start sizes stats).moved .read
  exact hnot (whole_of_accounted sizes.sum hopened hread ((along_cons_iff hread).mp hlast).1)

/-- A response larger than the buffer is counted when its first part is in, one that is cut as
well, and the end of the stream is counted as a request. -/
theorem cut_responses_miscounted :
    ¬ Along (step ⟨"127.0.0.1".toList, 8080, 1000, 0⟩ [5000].sum)
      (fun _ _ s' => Accounted [5000] BenchmarkStats.new.totalBytes s') (.start .new)
      (opening ⟨"127.0.0.1".toList, 8080, 1000, 0⟩ ++ [.read (.ok 4096) 250000]) ∧
    ¬ Along (step ⟨"127.0.0.1".toList, 8080, 1000, 0⟩ [170].sum)
      (fun _ _ s' => Accounted [170] BenchmarkStats.new.totalBytes s') (.start .new)
      (opening ⟨"127.0.0.1".toList, 8080, 1000, 0⟩ ++ [.read (.ok 60) 250000]) ∧
    ¬ Along (step ⟨"127.0.0.1".toList, 8080, 1000, 0⟩ [170].sum)
      (fun _ _ s' => Accounted [170] BenchmarkStats.new.totalBytes s') (.start .new)
      (opening ⟨"127.0.0.1".toList, 8080, 1000, 0⟩ ++ [.read (.ok 0) 250000]) := by
  refine ⟨?_, ?_, ?_⟩
  · exact spoilt_by_read .new (by decide) (by decide) (by decide) (by decide)
  · exact spoilt_by_read .new (by decide) (by decide) (by decide) (by decide)
  · exact spoilt_by_read .new (by decide) (by decide) (by decide) (by decide)

end Books

end KernelEngine.Accounting
