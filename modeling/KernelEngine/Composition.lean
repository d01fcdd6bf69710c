import KernelEngine.Lib.Simulation
import KernelEngine.OrderlyStop

namespace KernelEngine.Composition
open Rust File Net Worker Fifo Runs

/-- The calls of the main thread, and what the workers do. -/
def calls : ServerIo → List StartIo
  | .main io => [io]
  | _ => []

def beats : ServerIo → List Beat
  | .worker b => [b]
  | _ => []

/-- The value of the flag that a step reads. -/
def reads : ServerIo → Option Bool
  | .main (.loop (.load running)) => some running
  | .worker (.load _ running) => some running
  | _ => none

/-- The server is the main thread and its workers side by side, and nothing passes between
them but the flag. -/
structure Composed (r : Reactor) (handles : List WorkStealingQueue) (heap : Heap Task)
    (t : List ServerIo) (s : Server) : Prop where
  main : run r.startStep .socket (t.flatMap calls) = some s.point
  loop : ∀ listenFd loop, s.point = .loop listenFd loop → ∃ u epollFd ios,
    t.flatMap calls = u ++ .epollCreate (.ok epollFd) :: ios.map .loop ∧
      run (r.step listenFd) (.enter epollFd) ios = some loop
  workers : run (Workers.step handles) (.start s.workers.phases.length heap) (t.flatMap beats) =
    some s.workers
  flag : ∀ u io, u ++ [io] <+: t → ∀ running ∈ reads io, (running = true ↔ .stop ∉ u)

section Main

variable {r : Reactor} {handles : List WorkStealingQueue} {s s' : Server} {heap : Heap Task}
  {t : List ServerIo} {u : List StartIo}

/-- The main thread does its part of every step. -/
theorem main_step : Simulates (Server.step r handles) r.startStep (fun _ => calls)
    (fun s p => s.point = p) := by
  rintro s io s' p rfl hs
  cases io with
  | main io =>
    obtain ⟨-, hs⟩ := Option.ite_none_right_eq_some.mp hs
    obtain ⟨p, hp, rfl⟩ := Option.map_eq_some_iff.mp hs
    exact ⟨p, run_cons_iff.mpr ⟨p, hp, rfl⟩, rfl⟩
  | spawn | worker | join | stop =>
    refine ⟨s.point, rfl, ?_⟩
    cases Server.step_cases hs
    rfl

/-- Once in it, `start` only goes on with the event loop. -/
theorem loop_of_start {listenFd : RawFd} {loop : LoopState}
    (hrun : run r.startStep .socket u = some (.loop listenFd loop)) : ∃ v epollFd ios,
      u = v ++ .epollCreate (.ok epollFd) :: ios.map .loop ∧
        run (r.step listenFd) (.enter epollFd) ios = some loop := by
  refine run_history_of_step (I := fun u p => ∀ listenFd loop, p = .loop listenFd loop →
    ∃ v epollFd ios, u = v ++ StartIo.epollCreate (.ok epollFd) :: ios.map .loop ∧
      run (r.step listenFd) (.enter epollFd) ios = some loop) ?_
    (by rintro _ _ ⟨⟩) hrun listenFd loop rfl
  rintro u p io p' h hs listenFd loop rfl
  cases Reactor.startStep_cases hs with
  | entered _ epollFd => exact ⟨u, epollFd, [], rfl, rfl⟩
  | @looped _ before _ io hloop =>
    obtain ⟨v, epollFd, ios, rfl, hios⟩ := h _ _ rfl
    exact ⟨v, epollFd, ios ++ [io], by simp, run_concat_iff.mpr ⟨before, hios, hloop⟩⟩

end Main

section Spawning

variable {handles : List WorkStealingQueue} {s s' : Workers} {b : Beat} {t : List Beat}
  {numWorkers : ℕ} {heap : Heap Task}

/-- One more worker, which has not begun. -/
def spawned (s : Workers) : Workers := { s with phases := s.phases ++ [.top] }

/-- Nobody is disturbed by it. -/
theorem spawned_step (hs : Workers.step handles s b = some s') :
    Workers.step handles (spawned s) b = some (spawned s') := by
  have hkept {worker : ℕ} {phase : Phase} (hp : s.phases[worker]? = some phase) :
      (spawned s).phases[worker]? = some phase ∧ ∀ phase' : Phase,
        (spawned s).phases.set worker phase' = s.phases.set worker phase' ++ [.top] := by
    have hlt := (List.getElem?_eq_some_iff.mp hp).1
    exact ⟨(List.getElem?_append_left hlt).trans hp, fun _ => List.set_append_left _ _ hlt⟩
  cases b with
  | push handle queue task result =>
    simp only [Workers.step, Option.bind_eq_bind, Option.bind_eq_some_iff] at hs ⊢
    obtain ⟨w, hw, ⟨answer, heap⟩, hpush, hs⟩ := hs
    obtain ⟨hcond, hs⟩ := Option.ite_none_right_eq_some.mp hs
    obtain rfl := Option.some.inj hs
    exact ⟨w, hw, (answer, heap), hpush, if_pos hcond⟩
  | load worker running =>
    simp only [Workers.step] at hs
    split at hs
    case h_1 w hp hw =>
      obtain rfl := Option.some.inj hs
      simp only [Workers.step, (hkept hp).1, hw, (hkept hp).2]
      rfl
    case h_2 => cases hs
  | probe worker queue got =>
    simp only [Workers.step] at hs
    split at hs
    case h_1 q rest hp =>
      simp only [Option.bind_eq_bind, Option.bind_eq_some_iff] at hs
      obtain ⟨⟨answer, heap⟩, hpop, hs⟩ := hs
      obtain ⟨hcond, hs⟩ := Option.ite_none_right_eq_some.mp hs
      obtain rfl := Option.some.inj hs
      have hpop' : q.pop (spawned s).heap = some (answer, heap) := hpop
      simp only [Workers.step, (hkept hp).1, hpop', (hkept hp).2, Option.bind_eq_bind,
        Option.bind_some, if_pos hcond]
      rfl
    case h_2 => cases hs
  | sleep worker =>
    simp only [Workers.step] at hs
    split at hs
    case h_1 hp =>
      obtain rfl := Option.some.inj hs
      simp only [Workers.step, (hkept hp).1, (hkept hp).2]
      rfl
    case h_2 => cases hs

theorem spawned_run (hrun : run (Workers.step handles) s t = some s') :
    run (Workers.step handles) (spawned s) t = some (spawned s') := by
  induction t generalizing s with
  | nil => exact congrArg (some ∘ spawned) (Option.some.inj hrun)
  | cons b t ih =>
    obtain ⟨m, hm, ht⟩ := run_cons_iff.mp hrun
    exact run_cons_iff.mpr ⟨spawned m, spawned_step hm, ih ht⟩

theorem spawned_start : spawned (.start numWorkers heap) = .start (numWorkers + 1) heap := by
  rw [spawned, Workers.start, Workers.start, List.replicate_succ']

end Spawning

section Whole

variable {r : Reactor} {handles : List WorkStealingQueue} {heap : Heap Task} {s s' : Server}
  {t : List ServerIo} {io : ServerIo}

/-- The workers do their part, as if all of them had been there from the start. -/
theorem workers_run (hrun : run (Server.step r handles) (.start heap) t = some s) :
    run (Workers.step handles) (.start s.workers.phases.length heap) (t.flatMap beats) =
      some s.workers := by
  refine run_history_of_step (I := fun t s => run (Workers.step handles)
    (.start s.workers.phases.length heap) (t.flatMap beats) = some s.workers) ?_ rfl hrun
  intro t s io s' h hs
  rw [List.flatMap_append, List.flatMap_singleton]
  cases io with
  | worker b =>
    obtain ⟨-, hs⟩ := Option.ite_none_right_eq_some.mp hs
    obtain ⟨workers, hw, rfl⟩ := Option.map_eq_some_iff.mp hs
    have hlen := Workers.phases_length_step (Workers.step_cases hw)
    exact run_concat_iff.mpr ⟨s.workers, hlen ▸ h, hw⟩
  | spawn =>
    cases Server.step_cases hs with
    | spawned hp =>
      have hrun := spawned_run h
      rw [spawned_start] at hrun
      simp only [beats, List.append_nil, List.length_append, List.length_singleton]
      exact hrun
  | main | join | stop =>
    cases Server.step_cases hs
    simpa only [beats, List.append_nil] using h

/-- The flag is up until somebody clears it. -/
theorem running_run (hrun : run (Server.step r handles) (.start heap) t = some s) :
    s.running = true ↔ .stop ∉ t := by
  rw [← Bool.not_eq_false, not_iff_not]
  exact (OrderlyStop.books_run hrun).stopped

theorem reads_step (hs : Server.step r handles s io = some s') {running : Bool}
    (hreads : running ∈ reads io) : running = s.running := by
  unfold reads at hreads
  split at hreads
  case h_1 =>
    obtain ⟨hready, -⟩ := Option.ite_none_right_eq_some.mp hs
    obtain rfl := Option.some.inj hreads
    exact eq_of_beq hready
  case h_2 =>
    obtain ⟨hready, -⟩ := Option.ite_none_right_eq_some.mp hs
    obtain rfl := Option.some.inj hreads
    exact eq_of_beq hready
  case h_3 => cases hreads

/-- In every run of the whole server, however the threads interleave, the main thread makes a
run of `start`, and from `event_loop` on a run of it, the workers make one of theirs, and
each read of the flag says whether somebody has cleared it before. This is the decomposition on
which the results about the whole server rest. -/
theorem server_composes (r : Reactor) (handles : List WorkStealingQueue) (heap : Heap Task)
    (t : List ServerIo) (s : Server)
    (hrun : run (Server.step r handles) (.start heap) t = some s) :
    Composed r handles heap t s := by
  have hmain : run r.startStep .socket (t.flatMap calls) = some s.point := by
    obtain ⟨p, hp, rfl⟩ := main_step.run rfl hrun
    exact shown_label hrun ▸ hp
  refine ⟨hmain, ?_, workers_run hrun, ?_⟩
  · intro listenFd loop hloop
    exact loop_of_start (hloop ▸ hmain)
  · rintro u io ⟨v, rfl⟩ running hreads
    obtain ⟨m, hm, -⟩ := run_append_iff.mp hrun
    obtain ⟨m, hm, hs⟩ := run_concat_iff.mp hm
    rw [reads_step hs hreads, running_run hm]

theorem cleared_composes : ∃ s,
    run (Server.step Reactor.stock OrderlyStop.handles) (.start [Queue.empty 1024])
      OrderlyStop.cleared = some s ∧
    Composed Reactor.stock OrderlyStop.handles [Queue.empty 1024] OrderlyStop.cleared s :=
  ⟨_, rfl, server_composes Reactor.stock OrderlyStop.handles _ OrderlyStop.cleared _ rfl⟩

end Whole

end KernelEngine.Composition
