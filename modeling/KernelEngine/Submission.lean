import KernelEngine.Net.IoUring

namespace KernelEngine.Submission
open Rust File Net Runs

/-- The operations the submission queue holds, and those the kernel was ever given, by
the calls that made them. -/
def queued (s : Uring) : List ℕ := s.ring.queue.map Entry.call

def executed (s : Uring) : List ℕ := s.ring.handed.map Entry.call

/-- An operation whose call failed is neither queued nor was given to the kernel; one
whose call succeeded was given to it once, and is not queued again. -/
def AllOrNothing (s : Uring) : Prop :=
  ∀ c ∈ s.answers, c.1 ∉ queued s ∧ (executed s).count c.1 = if c.2.isOk then 1 else 0

/-- No `submit_*` call whose `push` succeeds and whose `submit` fails. -/
def Clean : UringIo → Prop
  | .submit _ (.ok _) (.error _) => False
  | _ => True

/-- While all calls are clean the queue is empty between them. -/
structure Invariant (s : Uring) : Prop where
  idle : s.ring.queue = []
  numbered : ∀ call ∈ executed s, call < s.calls
  answered : ∀ c ∈ s.answers, c.1 < s.calls
  settled : ∀ c ∈ s.answers, (executed s).count c.1 = if c.2.isOk then 1 else 0

section Steps

variable {s s' : Uring} {io : UringIo}

theorem Invariant.allOrNothing (h : Invariant s) : AllOrNothing s := by
  intro c hc
  refine ⟨?_, h.settled c hc⟩
  simp [queued, h.idle]

theorem invariant_start : Invariant .start :=
  ⟨rfl, by simp [executed, Uring.start, Ring.empty], by simp [Uring.start], by simp [Uring.start]⟩

/-- A call that is answered `Ok` has given its operation to the kernel, and any other
has left no trace in the ring. -/
theorem Invariant.answer (h : Invariant s) {ring : Ring} {answer : Except Anyhow Unit}
    (hidle : ring.queue = []) (hexecuted : ring.handed.map Entry.call =
      executed s ++ if answer.isOk then [s.calls] else []) :
    Invariant { s with
      ring := ring
      calls := s.calls + 1
      answers := s.answers ++ [(s.calls, answer)] } := by
  have hcount (call : ℕ) : (ring.handed.map Entry.call).count call =
      (executed s).count call + if answer.isOk ∧ s.calls = call then 1 else 0 := by
    rw [hexecuted, List.count_append]
    cases answer.isOk <;> simp [List.count_singleton]
  constructor
  · exact hidle
  · intro call hcall
    rw [executed, hexecuted, List.mem_append] at hcall
    obtain hold | hnew := hcall
    · exact Nat.lt_succ_of_lt (h.numbered call hold)
    · obtain ⟨-, rfl⟩ : answer.isOk = true ∧ call = s.calls := by simpa using hnew
      exact Nat.lt_succ_self _
  · intro c hc
    rw [List.mem_append, List.mem_singleton] at hc
    obtain hold | rfl := hc
    · exact Nat.lt_succ_of_lt (h.answered c hold)
    · exact Nat.lt_succ_self _
  · intro c hc
    rw [executed, hcount]
    rw [List.mem_append, List.mem_singleton] at hc
    obtain hold | rfl := hc
    · rw [if_neg fun hboth => Nat.ne_of_lt (h.answered c hold) hboth.2.symm]
      exact h.settled c hold
    · have hfresh : (executed s).count s.calls = 0 :=
        List.count_eq_zero.mpr fun hmem => Nat.ne_of_lt (h.numbered _ hmem) rfl
      simp [hfresh]

theorem invariant_step (h : Invariant s) (hs : s.step io = some s') (hclean : Clean io) :
    Invariant s' := by
  cases Uring.step_cases hs with
  | notPushed request err submitted msg =>
    refine h.answer h.idle ?_
    simp [executed, Except.isOk, Except.toBool]
  | notSubmitted => exact hclean.elim
  | submitted request =>
    rw [Ring.submit_push_of_idle h.idle]
    refine h.answer h.idle ?_
    simp [executed, Request.entry, Except.isOk, Except.toBool]
  | batch | waits =>
    rw [Ring.submit_of_idle h.idle]
    exact ⟨h.idle, h.numbered, h.answered, h.settled⟩
  | batchFailed | waitFailed => exact h
  | completed | reaped => exact ⟨h.idle, h.numbered, h.answered, h.settled⟩

theorem clean_of_allOrNothing (hs : s.step io = some s') (h : AllOrNothing s') : Clean io := by
  cases Uring.step_cases hs with
  | notSubmitted request err msg =>
    refine ((h (s.calls, .error msg) (by simp)).1 ?_).elim
    simp [queued, Ring.push, Request.entry]
  | _ => trivial

end Steps

/-- A session keeps every operation all or nothing exactly as long as no `submit` fails
behind a `push` that succeeded. -/
theorem allOrNothing_iff_clean (t : List UringIo) :
    Along Uring.step (fun _ _ s => AllOrNothing s) .start t ↔
      Along Uring.step (fun _ io _ => Clean io) .start t := by
  refine along_iff_of_exact (I := Invariant) ?_ ?_ invariant_start
  · intro s io s' h hs hclean
    have h' := invariant_step h hs hclean
    exact ⟨h', h'.allOrNothing⟩
  · intro s io s' _ hs hsound
    exact clean_of_allOrNothing hs hsound

/-- The `submit` behind the first read fails, and the one of an unrelated write hands
both operations over. -/
def failedSubmit : List UringIo :=
  [.submit (.read 5 4096 512 0) (.ok ()) (.error []),
    .submit (.write 6 8192 64 0) (.ok ()) (.ok ())]

theorem failed_read_executed : ∃ s, run Uring.step .start failedSubmit = some s ∧
    (∃ e, (0, Except.error e) ∈ s.answers) ∧ 0 ∈ executed s ∧
      ¬ Along Uring.step (fun _ _ s => AllOrNothing s) .start failedSubmit := by
  refine ⟨_, rfl, ⟨_, List.mem_cons_self⟩, by decide, fun hsound => ?_⟩
  exact ((allOrNothing_iff_clean failedSubmit).mp hsound _ rfl).1

end KernelEngine.Submission
