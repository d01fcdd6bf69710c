import KernelEngine.Worker.Start
import KernelEngine.Worker.WorkerThread

namespace KernelEngine.Worker
open Rust File Net

/-- What happens while `start` runs: its own calls and those of the workers it spawned,
the spawning and joining, and the flag being cleared, which nothing in the repository
does. -/
inductive ServerIo where
  | main (io : StartIo)
  | spawn
  | worker (b : Beat)
  | join
  | stop

/-- `start` on the main thread, the flag, the workers spawned so far and how many of
their handles are joined. -/
structure Server where
  point : StartPoint
  running : Bool
  workers : Workers
  joined : ℕ

namespace Server

/-- Behind the store to `running`, with the queues made. -/
def start (heap : Heap Task) : Server := ⟨.socket, true, ⟨heap, []⟩, 0⟩

/-- `event_loop` has returned `Ok`. -/
def loopOk : StartPoint → Bool
  | .loop _ s => match s.point with
    | .returned (.ok _) => true
    | _ => false
  | _ => false

/-- All workers are spawned before the event loop, the loop reads the flag there is, and
where it returned `Ok` every handle is joined before `start` returns. -/
def ready (handles : List WorkStealingQueue) (s : Server) : StartIo → Bool
  | .epollCreate _ => s.workers.phases.length == handles.length
  | .loop (.load running) => running == s.running
  | .finish => !loopOk s.point || s.joined == s.workers.phases.length
  | _ => true

/-- A worker reads the flag there is. -/
def readyWorker (s : Server) : Beat → Bool
  | .load _ running => running == s.running
  | _ => true

def step (r : Reactor) (handles : List WorkStealingQueue) (s : Server) : ServerIo → Option Server
  | .main io =>
    if s.ready handles io then (r.startStep s.point io).map fun p => { s with point := p }
    else none
  | .spawn => match s.point with
    | .epollCreate _ =>
      if s.workers.phases.length < handles.length then
        some { s with workers.phases := s.workers.phases ++ [.top] }
      else none
    | _ => none
  | .worker b =>
    if s.readyWorker b then
      (Workers.step handles s.workers b).map fun workers => { s with workers := workers }
    else none
  | .join =>
    if loopOk s.point ∧ s.workers.phases[s.joined]? = some .left then
      some { s with joined := s.joined + 1 }
    else none
  | .stop => some { s with running := false }

/-- Everything one step can do. -/
inductive Step (r : Reactor) (handles : List WorkStealingQueue) (s : Server) :
    ServerIo → Server → Prop
  | main {io : StartIo} {p : StartPoint} (h : Reactor.StartStep r s.point io p)
      (hready : s.ready handles io = true) : Step r handles s (.main io) { s with point := p }
  | spawned {listenFd : RawFd} (h : s.point = .epollCreate listenFd) :
      Step r handles s .spawn { s with workers.phases := s.workers.phases ++ [.top] }
  | worker {b : Beat} {workers : Workers} (h : Workers.Step handles s.workers b workers) :
      Step r handles s (.worker b) { s with workers := workers }
  | joined (h : loopOk s.point = true) (hleft : s.workers.phases[s.joined]? = some .left) :
      Step r handles s .join { s with joined := s.joined + 1 }
  | stopped : Step r handles s .stop { s with running := false }

theorem step_cases {r : Reactor} {handles : List WorkStealingQueue} {s s' : Server}
    {io : ServerIo} (h : step r handles s io = some s') : Step r handles s io s' := by
  cases io with
  | main io =>
    obtain ⟨hready, hs⟩ := Option.ite_none_right_eq_some.mp h
    obtain ⟨p, hp, rfl⟩ := Option.map_eq_some_iff.mp hs
    exact .main (Reactor.startStep_cases hp) hready
  | spawn =>
    simp only [step] at h
    split at h
    case h_1 listenFd hp =>
      obtain ⟨-, hs⟩ := Option.ite_none_right_eq_some.mp h
      obtain rfl := Option.some.inj hs
      exact .spawned hp
    case h_2 => cases h
  | worker b =>
    obtain ⟨-, hs⟩ := Option.ite_none_right_eq_some.mp h
    obtain ⟨workers, hw, rfl⟩ := Option.map_eq_some_iff.mp hs
    exact .worker (Workers.step_cases hw)
  | join =>
    obtain ⟨⟨hok, hleft⟩, hs⟩ := Option.ite_none_right_eq_some.mp h
    obtain rfl := Option.some.inj hs
    exact .joined hok hleft
  | stop =>
    obtain rfl := Option.some.inj h
    exact .stopped

end Server

end KernelEngine.Worker
