import KernelEngine.Lib.Runs
import KernelEngine.Worker.Queue

namespace KernelEngine.Worker
open Fifo Runs

/-- What worker threads do: read `running`, probe a queue inside `pop`, sleep when
`pop` found none. Meanwhile tasks are pushed through their handles. -/
inductive Beat where
  | push (handle queue : ℕ) (task : Task) (result : Except Task Unit)
  | load (worker : ℕ) (running : Bool)
  | probe (worker queue : ℕ) (got : Option Task)
  | sleep (worker : ℕ)

/-- Where a `worker_thread` is: at the head of its loop, inside `pop` with queues still
to probe, or out of the loop. -/
inductive Phase where
  | top
  | popping (rest : List (LockFreeQueue Task))
  | left
  deriving DecidableEq

structure Workers where
  heap : Heap Task
  phases : List Phase

namespace Beat

def ops : Beat → List (Op Task)
  | .push _ queue task result => [.push queue task result]
  | .probe _ queue got => [.pop queue got]
  | _ => []

/-- The tasks taken, each with its queue and the worker that took it. -/
def takes : Beat → List (ℕ × (ℕ × Task))
  | .probe worker queue (some task) => [(queue, (worker, task))]
  | _ => []

/-- `running` is never seen false. -/
def Running : Beat → Prop
  | .load _ running => running = true
  | _ => True

end Beat

namespace Workers

def start (numWorkers : ℕ) (heap : Heap Task) : Workers := ⟨heap, List.replicate numWorkers .top⟩

/-- Where the `match` on the popped task leads. -/
def dispatch (rest : List (LockFreeQueue Task)) : Option Task → Phase
  | some (.processRequest _ _) => .top
  | some .shutdown => .left
  | some _ => .top
  | none => .popping rest

def step (handles : List WorkStealingQueue) (s : Workers) : Beat → Option Workers
  | .push handle queue task result => do
    let w ← handles[handle]?
    let (answer, heap) ← w.push task s.heap
    if w.localQueue.queue = queue ∧ answer = result then some { s with heap := heap } else none
  | .load worker running =>
    match s.phases[worker]?, handles[worker]? with
    | some .top, some w =>
      some { s with phases := s.phases.set worker (if running then .popping w.probes else .left) }
    | _, _ => none
  | .probe worker queue got =>
    match s.phases[worker]? with
    | some (.popping (q :: rest)) => do
      let (answer, heap) ← q.pop s.heap
      if q.queue = queue ∧ answer = got then
        some ⟨heap, s.phases.set worker (dispatch rest got)⟩
      else none
    | _ => none
  | .sleep worker =>
    match s.phases[worker]? with
    | some (.popping []) => some { s with phases := s.phases.set worker .top }
    | _ => none

/-- Everything one step can do. -/
inductive Step (handles : List WorkStealingQueue) (s : Workers) : Beat → Workers → Prop
  | pushed {handle queue task result heap}
      (hpush : Fifo.Step s.heap (.push queue task result) heap) :
      Step handles s (.push handle queue task result) { s with heap := heap }
  | loaded {worker w} (hp : s.phases[worker]? = some .top) (hw : handles[worker]? = some w) :
      Step handles s (.load worker true)
        { s with phases := s.phases.set worker (.popping w.probes) }
  | stopped {worker} (hp : s.phases[worker]? = some .top) :
      Step handles s (.load worker false) { s with phases := s.phases.set worker .left }
  | probed {worker q rest got heap} (hp : s.phases[worker]? = some (.popping (q :: rest)))
      (hpop : Fifo.Step s.heap (.pop q.queue got) heap) :
      Step handles s (.probe worker q.queue got)
        ⟨heap, s.phases.set worker (dispatch rest got)⟩
  | slept {worker} (hp : s.phases[worker]? = some (.popping [])) :
      Step handles s (.sleep worker) { s with phases := s.phases.set worker .top }

variable {handles : List WorkStealingQueue} {s s' : Workers} {b : Beat}

theorem step_cases (h : step handles s b = some s') : Step handles s b s' := by
  cases b with
  | push handle queue task result =>
    simp only [step, Option.bind_eq_bind, Option.bind_eq_some_iff] at h
    obtain ⟨w, -, ⟨answer, heap⟩, hpush, h⟩ := h
    obtain ⟨⟨rfl, rfl⟩, hs⟩ := Option.ite_none_right_eq_some.mp h
    obtain rfl := Option.some.inj hs
    exact .pushed (LockFreeQueue.push_step hpush)
  | load worker running =>
    simp only [step] at h
    split at h
    case h_1 w hp hw =>
      obtain rfl := Option.some.inj h
      cases running with
      | true => exact .loaded hp hw
      | false => exact .stopped hp
    case h_2 => cases h
  | probe worker queue got =>
    simp only [step] at h
    split at h
    case h_1 q rest hp =>
      simp only [Option.bind_eq_bind, Option.bind_eq_some_iff] at h
      obtain ⟨⟨answer, heap⟩, hpop, h⟩ := h
      obtain ⟨⟨rfl, rfl⟩, hs⟩ := Option.ite_none_right_eq_some.mp h
      obtain rfl := Option.some.inj hs
      exact .probed hp (LockFreeQueue.pop_step hpop)
    case h_2 => cases h
  | sleep worker =>
    simp only [step] at h
    split at h
    case h_1 hp =>
      obtain rfl := Option.some.inj h
      exact .slept hp
    case h_2 => cases h

theorem phases_length_step (h : Step handles s b s') : s'.phases.length = s.phases.length := by
  cases h with
  | pushed => rfl
  | loaded | stopped | probed | slept => exact List.length_set

theorem dispatch_eq_left {rest : List (LockFreeQueue Task)} {got : Option Task} :
    dispatch rest got = .left ↔ got = some .shutdown := by
  cases got with
  | none => simp [dispatch]
  | some task => cases task <;> simp [dispatch]

/-- The workers keep the books of every queue. -/
theorem ledger_run {t : List Beat} (hrun : run (step handles) s t = some s') :
    Ledger s.heap (t.flatMap Beat.ops) s'.heap := by
  refine run_history_of_step
    (I := fun t s' => Ledger s.heap (t.flatMap Beat.ops) s'.heap) ?_ (Ledger.refl _) hrun
  intro t m b s' hI hs
  rw [List.flatMap_append, List.flatMap_singleton]
  cases step_cases hs with
  | pushed hop | probed _ hop => exact hI.step hop
  | loaded | stopped | slept => simpa only [Beat.ops, List.append_nil] using hI

/-- The tasks taken are those that left the queues, each taken by one worker. -/
theorem takes_eq_left (t : List Beat) :
    (t.flatMap Beat.takes).map (fun e => (e.1, e.2.2)) = left (t.flatMap Beat.ops) := by
  induction t with
  | nil => rfl
  | cons b t ih =>
    rw [List.flatMap_cons, List.flatMap_cons, List.map_append, left_append, ih]
    congr 1
    cases b with
    | probe worker queue got => cases got <;> rfl
    | push | load | sleep => rfl

end Workers

end KernelEngine.Worker
