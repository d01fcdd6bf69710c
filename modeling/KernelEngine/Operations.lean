import KernelEngine.Lib.Simulation
import KernelEngine.Attribution
import Mathlib.Algebra.Order.Group.Multiset

namespace KernelEngine.Operations
open Rust File Net Runs Attribution

/-- The `submit_*` calls of a session, each with the answer to its `push`. -/
def requests (t : List UringIo) : List (Request × Except OsError Unit) :=
  t.filterMap fun io => match io with
    | .submit request pushed _ => some (request, pushed)
    | _ => none

/-- The entries that came into the submission queue, when `first` calls were made before. -/
def accepted (first : ℕ) : List (Request × Except OsError Unit) → List Entry
  | [] => []
  | (request, .ok _) :: rest => request.entry first :: accepted (first + 1) rest
  | (_, .error _) :: rest => accepted (first + 1) rest

/-- The ring behind a `submit_*` call with these answers. -/
def behind (ring : Ring) (e : Entry) : Except OsError Unit → Except OsError Unit → Ring
  | .error _, _ => ring
  | .ok _, .error _ => ring.push e
  | .ok _, .ok _ => (ring.push e).submit

/-- A step that hands the submission queue over. -/
def HandsOver : UringIo → Prop
  | .submit _ (.ok _) (.ok _) => True
  | .batch (.ok _) => True
  | .wait (.ok _) => True
  | _ => False

/-- The books of a session. -/
structure Books (t : List UringIo) (s : Uring) : Prop where
  calls : s.calls = (requests t).length
  accepted : s.ring.handed ++ s.ring.queue = accepted 0 (requests t)
  executed : (s.ring.handed : Multiset Entry) = s.ring.posted.map Prod.fst + s.ring.inFlight
  reported : s.ring.posted.map pair = t.flatMap returned ++ s.ring.unread.map pair

section Steps

variable {s s' : Uring} {io : UringIo} {t : List UringIo} {call first : ℕ}

theorem accepted_append (first : ℕ) (l m : List (Request × Except OsError Unit)) :
    accepted first (l ++ m) = accepted first l ++ accepted (first + l.length) m := by
  induction l generalizing first with
  | nil => rfl
  | cons e l ih =>
    obtain ⟨request, pushed⟩ := e
    have hfirst : first + (l.length + 1) = first + 1 + l.length := by omega
    cases pushed <;> simp [accepted, ih, hfirst]

/-- The calls are numbered in their order. -/
theorem lt_of_mem_accepted {e : Entry} {l : List (Request × Except OsError Unit)}
    (he : e ∈ accepted first l) : first ≤ e.call := by
  induction l generalizing first with
  | nil => cases he
  | cons head l ih =>
    obtain ⟨request, pushed⟩ := head
    cases pushed with
    | error => exact (Nat.le_succ first).trans (ih he)
    | ok =>
      obtain rfl | htail := List.mem_cons.mp he
      · exact Nat.le_refl _
      · exact (Nat.le_succ first).trans (ih htail)

theorem pairwise_accepted (l : List (Request × Except OsError Unit)) :
    (accepted first l).Pairwise fun e e' => e.call < e'.call := by
  induction l generalizing first with
  | nil => exact .nil
  | cons head l ih =>
    obtain ⟨request, pushed⟩ := head
    cases pushed with
    | error => exact ih
    | ok =>
      refine List.pairwise_cons.mpr ⟨fun e he => ?_, ih⟩
      exact lt_of_mem_accepted he

theorem step_submit {request : Request} {pushed submitted : Except OsError Unit}
    (hs : s.step (.submit request pushed submitted) = some s') :
    s'.calls = s.calls + 1 ∧
      s'.ring = behind s.ring (request.entry s.calls) pushed submitted := by
  obtain ⟨what, heq⟩ := request.submit_eq s.ring s.calls
  simp only [Uring.step, heq] at hs
  obtain ⟨-, hs⟩ := Option.ite_none_left_eq_some.mp hs
  obtain rfl := Option.some.inj hs
  cases pushed with
  | error => exact ⟨rfl, rfl⟩
  | ok => cases submitted <;> exact ⟨rfl, rfl⟩

theorem requests_concat (t : List UringIo) (io : UringIo) :
    requests (t ++ [io]) = requests t ++ requests [io] := List.filterMap_append

/-- What is in the queue or was handed over stays so, with what is pushed behind it. -/
theorem handed_behind (ring : Ring) (e : Entry) (pushed submitted : Except OsError Unit) :
    (behind ring e pushed submitted).handed ++ (behind ring e pushed submitted).queue =
      ring.handed ++ ring.queue ++ if pushed.isOk then [e] else [] := by
  cases pushed with
  | error => simp [behind, Except.isOk, Except.toBool]
  | ok => cases submitted <;> simp [behind, Ring.push, Ring.submit, Except.isOk, Except.toBool]

/-- Handing over puts in flight what it hands over, and nothing else changes. -/
theorem executed_submit {ring : Ring}
    (h : (ring.handed : Multiset Entry) = ring.posted.map Prod.fst + ring.inFlight) :
    (ring.submit.handed : Multiset Entry) =
      ring.submit.posted.map Prod.fst + ring.submit.inFlight := by
  simp only [Ring.submit, ← Multiset.coe_add, h, add_assoc]

theorem books_step (h : Books t s) (hs : s.step io = some s') : Books (t ++ [io]) s' := by
  have hreturned : (t ++ [io]).flatMap returned = t.flatMap returned ++ returned io := by
    rw [List.flatMap_append, List.flatMap_singleton]
  -- steps that are not calls of `submit_*` push nothing
  have quiet (hnone : requests [io] = []) (hcalls : s'.calls = s.calls)
      (hhanded : s'.ring.handed ++ s'.ring.queue = s.ring.handed ++ s.ring.queue)
      (hexecuted : (s'.ring.handed : Multiset Entry) =
        s'.ring.posted.map Prod.fst + s'.ring.inFlight)
      (hreported : s'.ring.posted.map pair =
        t.flatMap returned ++ returned io ++ s'.ring.unread.map pair) : Books (t ++ [io]) s' := by
    have hrequests : requests (t ++ [io]) = requests t := by
      rw [requests_concat, hnone, List.append_nil]
    exact ⟨hrequests ▸ hcalls.trans h.calls, hrequests ▸ hhanded.trans h.accepted, hexecuted,
      hreturned ▸ hreported⟩
  cases io with
  | submit request pushed submitted =>
    obtain ⟨hcalls, hring⟩ := step_submit hs
    have hrequests : requests (t ++ [.submit request pushed submitted]) =
        requests t ++ [(request, pushed)] := requests_concat _ _
    refine ⟨?_, ?_, ?_, ?_⟩
    · rw [hcalls, h.calls, hrequests, List.length_append, List.length_singleton]
    · rw [hring, handed_behind, h.accepted, hrequests, accepted_append, Nat.zero_add, ← h.calls]
      cases pushed <;> rfl
    · rw [hring]
      cases pushed with
      | error => exact h.executed
      | ok =>
        cases submitted with
        | error => exact h.executed
        | ok => exact @executed_submit (s.ring.push _) h.executed
    · rw [hring, hreturned, show returned (.submit request pushed submitted) = [] from rfl,
        List.append_nil]
      cases pushed with
      | error => exact h.reported
      | ok => cases submitted <;> exact h.reported
  | batch submitted =>
    have hreported := h.reported
    rw [← List.append_nil (t.flatMap returned)] at hreported
    cases Uring.step_cases hs with
    | batch =>
      exact quiet rfl rfl (by simp [Ring.submit]) (executed_submit h.executed) hreported
    | batchFailed => exact quiet rfl rfl rfl h.executed hreported
  | wait submitted =>
    have hreported := h.reported
    rw [← List.append_nil (t.flatMap returned)] at hreported
    cases Uring.step_cases hs with
    | waits =>
      exact quiet rfl rfl (by simp [Ring.submit]) (executed_submit h.executed) hreported
    | waitFailed => exact quiet rfl rfl rfl h.executed hreported
  | complete e result =>
    cases Uring.step_cases hs with
    | completed _ he =>
      refine quiet rfl rfl rfl ?_ ?_
      · simp only [Ring.complete, h.executed, List.map_append, List.map_singleton]
        rw [← Multiset.coe_add, add_assoc, ← Multiset.coe_erase, Multiset.coe_singleton,
          Multiset.singleton_add, Multiset.cons_erase (Multiset.mem_coe.mpr he)]
      · simp [Ring.complete, returned, h.reported, pair]
  | reap completions =>
    cases Uring.step_cases hs with
    | reaped =>
      refine quiet rfl rfl rfl h.executed ?_
      have hread : s.ring.completions = s.ring.unread.map pair := rfl
      simp [returned, hread, h.reported]

theorem books_run (hrun : run Uring.step .start t = some s) : Books t s :=
  run_history_of_step (fun _ _ _ _ h hs => books_step h hs) ⟨rfl, rfl, rfl, rfl⟩ hrun

/-- Behind a step that hands over the queue is empty. -/
theorem queue_of_handsOver (hs : s.step io = some s') (hio : HandsOver io) :
    s'.ring.queue = [] := by
  unfold HandsOver at hio
  split at hio
  · rw [(step_submit hs).2]
    rfl
  · cases Uring.step_cases hs
    rfl
  · cases Uring.step_cases hs
    rfl
  · exact hio.elim

end Steps

/-- Whatever fails in a session, the operations whose `push` succeeded are given to the kernel
in the order of the calls, each once at most and with its own arguments, and by the next
`submit` that succeeds; the kernel completes each of them once at most, and what was
completed has been returned in that order or can still be read. -/
theorem operations_conserved (t : List UringIo) (s : Uring)
    (hrun : run Uring.step .start t = some s) :
    let pushed := accepted 0 (requests t)
    (pushed.map Entry.call).Nodup ∧ pushed = s.ring.handed ++ s.ring.queue ∧
      (s.ring.handed : Multiset Entry) = s.ring.posted.map Prod.fst + s.ring.inFlight ∧
      s.ring.posted.map pair = t.flatMap returned ++ s.ring.completions ∧
      ∀ io s', s.step io = some s' → HandsOver io →
        s'.ring.handed = accepted 0 (requests (t ++ [io])) := by
  have h := books_run hrun
  refine ⟨?_, h.accepted.symm, h.executed, h.reported, fun io s' hs hio => ?_⟩
  · exact List.pairwise_map.mpr ((pairwise_accepted _).imp Nat.ne_of_lt)
  · have hnext := (books_step h hs).accepted
    rwa [queue_of_handsOver hs hio, List.append_nil] at hnext

/-- The read whose `submit` failed goes to the kernel with the write behind it. -/
theorem failed_read_conserved : ∃ s s',
    run Uring.step .start [.submit (.read 5 4096 512 0) (.ok ()) (.error [])] = some s ∧
      s.step (.submit (.write 6 8192 64 0) (.ok ()) (.ok ())) = some s' ∧
      s'.ring.handed =
        [Request.entry (.read 5 4096 512 0) 0, Request.entry (.write 6 8192 64 0) 1] :=
  ⟨_, _, rfl, rfl, (operations_conserved [.submit (.read 5 4096 512 0) (.ok ()) (.error [])] _
    rfl).2.2.2.2 (.submit (.write 6 8192 64 0) (.ok ()) (.ok ())) _ rfl trivial⟩

end KernelEngine.Operations
