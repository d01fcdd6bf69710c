import KernelEngine.Composition

namespace KernelEngine.Idle
open Rust File Net Worker Fifo Runs

/-- Steps that something in the repository makes: nobody pushes a task, and nobody clears the
flag. -/
def Made : ServerIo → Prop
  | .worker (.push _ _ _ _) => False
  | .stop => False
  | _ => True

/-- The task a step takes out of a queue. -/
def taken : ServerIo → Option Task
  | .worker (.probe _ _ got) => got
  | _ => none

/-- `start` is on its way out with `Ok`, or has returned it. -/
def EndedOk : StartPoint → Prop
  | .loop _ loop => OrderlyStop.Ended loop.point
  | .returned (.ok _) => True
  | _ => False

/-- There is nothing to do for the workers, and they do not stop. -/
structure Idling (s : Server) : Prop where
  running : s.running = true
  empty : ∀ q ∈ s.workers.heap, q.items = []
  serving : .left ∉ s.workers.phases
  joined : s.joined = 0
  goesOn : ¬ EndedOk s.point

section Steps

variable {r : Reactor} {handles : List WorkStealingQueue} {s s' : Server} {w w' : Workers}
  {b : Beat} {io : ServerIo}

theorem serving_set {phases : List Phase} {worker : ℕ} {phase : Phase} (h : .left ∉ phases)
    (hphase : phase ≠ .left) : .left ∉ phases.set worker phase := by
  intro hmem
  obtain hold | hnew := List.mem_or_eq_of_mem_set hmem
  · exact h hold
  · exact hphase hnew.symm

/-- A worker finds nothing in empty queues, and goes on. -/
theorem worker_step (hs : Workers.Step handles w b w') (hpush : Made (.worker b))
    (hrunning : b.Running) (hempty : ∀ q ∈ w.heap, q.items = []) (hserving : .left ∉ w.phases) :
    w'.heap = w.heap ∧ .left ∉ w'.phases ∧ taken (.worker b) = none := by
  cases hs with
  | pushed => exact hpush.elim
  | loaded => exact ⟨rfl, serving_set hserving (by simp), rfl⟩
  | stopped => cases hrunning
  | slept => exact ⟨rfl, serving_set hserving (by simp), rfl⟩
  | probed hp hpop =>
    cases hpop with
    | popped hq hpop =>
      have hitems := (Queue.pop_some hpop).2
      rw [hempty _ (List.mem_of_getElem? hq)] at hitems
      cases hitems
    | missed => exact ⟨rfl, serving_set hserving (by simp [Workers.dispatch]), rfl⟩

/-- `start` ends with `Ok` only when the event loop sees the flag down. -/
theorem endedOk_step {p p' : StartPoint} {io : StartIo} (hs : Reactor.StartStep r p io p')
    (hgoes : ¬ EndedOk p) (hio : io ≠ .loop (.load false)) : ¬ EndedOk p' := by
  cases hs with
  | looped listenFd hloop =>
    rw [EndedOk, OrderlyStop.ended_step hloop]
    exact not_or.mpr ⟨fun heq => hio (congrArg StartIo.loop heq), hgoes⟩
  | @finished listenFd loop result hret =>
    cases result with
    | ok => exact absurd (by rw [EndedOk, hret]; trivial) hgoes
    | error => exact id
  | entered => simp [EndedOk, LoopState.enter, OrderlyStop.Ended]
  | _ => exact id

theorem idling_step (h : Idling s) (hs : Server.step r handles s io = some s') (hio : Made io) :
    Idling s' ∧ taken io = none := by
  have hreads (running : Bool) (hr : running ∈ Composition.reads io) : running = true :=
    (Composition.reads_step hs hr).trans h.running
  cases Server.step_cases hs with
  | @main io p hmain hready =>
    refine ⟨⟨h.running, h.empty, h.serving, h.joined, ?_⟩, rfl⟩
    refine endedOk_step hmain h.goesOn ?_
    rintro rfl
    cases hreads false rfl
  | spawned hp =>
    refine ⟨⟨h.running, h.empty, ?_, h.joined, h.goesOn⟩, rfl⟩
    simpa using h.serving
  | @worker b workers hw =>
    have hrunning : b.Running := by
      cases b with
      | load worker running => exact hreads running rfl
      | push | probe | sleep => trivial
    obtain ⟨hheap, hserving, htaken⟩ := worker_step hw hio hrunning h.empty h.serving
    exact ⟨⟨h.running, hheap ▸ h.empty, hserving, h.joined, h.goesOn⟩, htaken⟩
  | joined hok =>
    refine (h.goesOn ?_).elim
    generalize s.point = place at hok
    cases place with
    | loop listenFd loop => exact OrderlyStop.ended_of_loopOk hok
    | socket | bind | listen | abandon | epollCreate | returned => cases hok
  | stopped => exact hio.elim

end Steps

/-- As long as nobody pushes a task or clears the flag, and nothing in the repository does, no
worker ever has a task or leaves, none is joined, and `start` does not return `Ok`. -/
theorem pool_stays_idle (r : Reactor) {numWorkers capacity : ℕ} {handles : List WorkStealingQueue}
    {heap : Heap Task}
    (hnew : WorkStealingQueue.new numWorkers capacity [] = some (handles, heap))
    (t : List ServerIo) (s : Server)
    (hrun : run (Server.step r handles) (.start heap) t = some s) (hmade : ∀ io ∈ t, Made io) :
    (∀ q ∈ s.workers.heap, q.items = []) ∧ (∀ io ∈ t, taken io = none) ∧
      .left ∉ s.workers.phases ∧ s.joined = 0 ∧ s.point ≠ .returned (.ok ()) := by
  obtain ⟨-, rfl⟩ := WorkStealingQueue.new_eq_some hnew
  have hstart : Idling (.start (List.replicate numWorkers (Queue.empty capacity))) := by
    refine ⟨rfl, fun q hq => ?_, by simp [Server.start], rfl, id⟩
    rw [List.eq_of_mem_replicate hq]
    rfl
  obtain ⟨hidle, htaken⟩ := run_history (P := fun _ io _ => Made io)
    (I := fun t s => Idling s ∧ ∀ io ∈ t, taken io = none)
    (fun t s io s' h hs hio => by
      obtain ⟨hidle, htaken⟩ := idling_step h.1 hs hio
      exact ⟨hidle, List.forall_mem_append.mpr ⟨h.2, List.forall_mem_singleton.mpr htaken⟩⟩)
    ⟨hstart, by simp⟩ ((along_label_iff hrun).mpr hmade) hrun
  refine ⟨hidle.empty, htaken, hidle.serving, hidle.joined, fun hret => ?_⟩
  exact hidle.goesOn (by rw [hret]; trivial)

/-- The one worker looks into its queue and sleeps while `epoll_create1` fails. -/
def lonely : List ServerIo :=
  OrderlyStop.listening ++ [.worker (.load 0 true), .worker (.probe 0 0 none),
    .main (.epollCreate (.error [])), .worker (.sleep 0)]

theorem lonely_stays_idle : ∃ handles heap s,
    WorkStealingQueue.new 1 1024 [] = some (handles, heap) ∧
      run (Server.step Reactor.stock handles) (.start heap) lonely = some s ∧
      (∀ q ∈ s.workers.heap, q.items = []) ∧ s.joined = 0 ∧ s.point ≠ .returned (.ok ()) := by
  have hnew := WorkStealingQueue.new_eq (show 1024 ≠ 0 by decide) 1
  have hmade : ∀ io ∈ lonely, Made io := by simp [lonely, OrderlyStop.listening, Made]
  obtain ⟨hempty, -, -, hjoined, hreturned⟩ := pool_stays_idle Reactor.stock hnew lonely _ rfl hmade
  exact ⟨_, _, _, hnew, rfl, hempty, hjoined, hreturned⟩

end KernelEngine.Idle
