import KernelEngine.Composition
import KernelEngine.Invocation

namespace KernelEngine.Launch
open Rust File Http Net Worker Fifo Runs Args Options Invocation

/-- A `bind` is to this host and port. -/
def BindsAt (host : Str) (port : ℕ) : StartIo → Prop
  | .bind _ ip p _ => Ipv4Addr.parse host = some ip ∧ p = port
  | _ => True

/-- The calls of `start` that lead to `epoll_create1`. -/
def listening (fd : RawFd) (ip : Ipv4Addr) (port : ℕ) : List StartIo :=
  [.socket (.ok fd), .bind fd ip port (.ok ()), .listen fd 128 (.ok ())]

/-- What a server asked for does: it binds where it should and nowhere else, it comes into its
event loop listening there and with all its workers, and it fails on a host that is no
address. -/
structure Launched (host : Str) (port numWorkers : ℕ) (u : List StartIo) (s : Server) : Prop where
  binds : ∀ io ∈ u, BindsAt host port io
  loop : ∀ listenFd loop, s.point = .loop listenFd loop →
    s.workers.phases.length = numWorkers ∧ ∃ ip epollFd, ∃ ios : List Io,
      Ipv4Addr.parse host = some ip ∧
      u = listening listenFd ip port ++ .epollCreate (.ok epollFd) :: ios.map .loop
  refused : Ipv4Addr.parse host = none →
    s.point = .socket ∨ ∃ e, s.point = .returned (.error e)

/-- The calls that lead to a place of `start`. -/
def Came (host : Str) (port : ℕ) (u : List StartIo) : StartPoint → Prop
  | .socket => u = []
  | .bind fd ip => Ipv4Addr.parse host = some ip ∧ u = [.socket (.ok fd)]
  | .listen fd => ∃ ip, Ipv4Addr.parse host = some ip ∧
      u = [.socket (.ok fd), .bind fd ip port (.ok ())]
  | .abandon _ _ => Ipv4Addr.parse host ≠ none
  | .epollCreate fd => ∃ ip, Ipv4Addr.parse host = some ip ∧ u = listening fd ip port
  | .loop fd _ => ∃ ip epollFd, ∃ ios : List Io, Ipv4Addr.parse host = some ip ∧
      u = listening fd ip port ++ .epollCreate (.ok epollFd) :: ios.map .loop
  | .returned result => Ipv4Addr.parse host = none → ∃ e, result = .error e

section Start

variable {r : Reactor} {p p' : StartPoint} {io : StartIo} {u : List StartIo}

theorem bind_step {fd : RawFd} {ip : Ipv4Addr} {port : ℕ} {bound : Except OsError Unit}
    (hs : r.startStep p (.bind fd ip port bound) = some p') :
    p = .bind fd ip ∧ port = r.config.port := by
  cases p with
  | bind socketFd socketIp =>
    obtain ⟨⟨rfl, rfl, hport⟩, -⟩ := Option.ite_none_right_eq_some.mp hs
    exact ⟨rfl, hport⟩
  | socket | listen | abandon | epollCreate | loop | returned => cases hs

theorem listen_step {fd : RawFd} {backlog : ℕ} {heard : Except OsError Unit}
    (hs : r.startStep p (.listen fd backlog heard) = some p') : backlog = 128 := by
  cases p with
  | listen socketFd =>
    obtain ⟨⟨-, hbacklog⟩, -⟩ := Option.ite_none_right_eq_some.mp hs
    exact hbacklog
  | socket | bind | abandon | epollCreate | loop | returned => cases hs

theorem came_step (h : Came r.config.host r.config.port u p) (hs : r.startStep p io = some p') :
    Came r.config.host r.config.port (u ++ [io]) p' := by
  cases Reactor.startStep_cases hs with
  | noSocket e msg => exact fun _ => ⟨msg, rfl⟩
  | noAddress fd hhost msg => exact fun _ => ⟨msg, rfl⟩
  | created fd hip => exact ⟨hip, congrArg (· ++ [StartIo.socket (.ok fd)]) h⟩
  | bound fd ip port =>
    obtain ⟨-, rfl⟩ := bind_step hs
    obtain ⟨hip, rfl⟩ := h
    exact ⟨ip, hip, rfl⟩
  | notBound fd ip port e msg =>
    obtain ⟨hip, -⟩ := h
    simp [Came, hip]
  | listening fd backlog =>
    obtain rfl := listen_step hs
    obtain ⟨ip, hip, rfl⟩ := h
    exact ⟨ip, hip, rfl⟩
  | notListening fd backlog e msg =>
    obtain ⟨ip, hip, -⟩ := h
    simp [Came, hip]
  | abandoned fd e => exact fun _ => ⟨e, rfl⟩
  | entered listenFd epollFd =>
    obtain ⟨ip, hip, rfl⟩ := h
    exact ⟨ip, epollFd, [], hip, rfl⟩
  | noEpoll listenFd e msg => exact fun _ => ⟨msg, rfl⟩
  | @looped listenFd loop loop' io hloop =>
    obtain ⟨ip, epollFd, ios, hip, rfl⟩ := h
    exact ⟨ip, epollFd, ios ++ [io], hip, by simp⟩
  | finished listenFd hret =>
    obtain ⟨ip, epollFd, ios, hip, -⟩ := h
    intro hnone
    rw [hip] at hnone
    cases hnone

theorem bindsAt_step (h : Came r.config.host r.config.port u p) (hs : r.startStep p io = some p') :
    BindsAt r.config.host r.config.port io := by
  cases io with
  | bind fd ip port bound =>
    obtain ⟨rfl, rfl⟩ := bind_step hs
    exact ⟨h.1, rfl⟩
  | socket | listen | closeSocket | epollCreate | loop | finish => trivial

theorem came_run (hrun : run r.startStep .socket u = some p) :
    Came r.config.host r.config.port u p ∧ ∀ io ∈ u, BindsAt r.config.host r.config.port io := by
  refine run_history_of_step (I := fun u p => Came r.config.host r.config.port u p ∧
    ∀ io ∈ u, BindsAt r.config.host r.config.port io) ?_ ?_ hrun
  · intro u p io p' h hs
    refine ⟨came_step h.1 hs, List.forall_mem_append.mpr ⟨h.2, ?_⟩⟩
    exact List.forall_mem_singleton.mpr (bindsAt_step h.1 hs)
  · exact ⟨rfl, fun io hio => absurd hio List.not_mem_nil⟩

end Start

section Workers

variable {r : Reactor} {handles : List WorkStealingQueue} {heap : Heap Task} {s s' : Server}
  {t : List ServerIo} {io : ServerIo}

/-- In its event loop a server has all its workers. -/
def Manned (handles : List WorkStealingQueue) (s : Server) : Prop :=
  ∀ listenFd loop, s.point = .loop listenFd loop → s.workers.phases.length = handles.length

theorem manned_step (h : Manned handles s) (hs : Server.step r handles s io = some s') :
    Manned handles s' := by
  intro listenFd loop hloop
  cases Server.step_cases hs with
  | @main io p hmain hready =>
    obtain rfl : p = .loop listenFd loop := hloop
    generalize hp : s.point = place at hmain
    cases hmain with
    | entered => exact eq_of_beq hready
    | looped => exact h _ _ hp
  | spawned hp =>
    have hsame : s.point = .loop listenFd loop := hloop
    rw [hp] at hsame
    cases hsame
  | worker hw =>
    exact (Workers.phases_length_step hw).trans (h listenFd loop hloop)
  | joined | stopped => exact h listenFd loop hloop

theorem manned_run (hrun : run (Server.step r handles) (.start heap) t = some s) :
    Manned handles s :=
  run_invariant_of_step (I := Manned handles) (fun _ _ _ h hs => manned_step h hs)
    (by rintro _ _ ⟨⟩) hrun

end Workers

/-- Whatever its argument vector is, a server listens on the host and the port that the last
options tell, whatever the system calls answer and however its threads interleave, and has the
number of workers asked for when it serves. -/
theorem launched_as_asked (httparse : Httparse) (numCpus : ℕ) (ioUring : Bool) (args : List Str)
    (config : ServerConfig) (hconfig : parseArgs numCpus args ioUring = .config config)
    (handles : List WorkStealingQueue) (heap : Heap Task)
    (hnew : WorkStealingQueue.new config.numWorkers 1024 [] = some (handles, heap))
    (t : List ServerIo) (s : Server)
    (hrun : run (Server.step ⟨config, httparse⟩ handles) (.start heap) t = some s) :
    let target := serverTold numCpus (items serverTakes (args.drop 1)) (.default numCpus ioUring)
    Launched target.host target.port target.numWorkers (t.flatMap Composition.calls) s := by
  intro target
  obtain rfl : config = target := told_of_parseArgs hconfig
  obtain ⟨rfl, -⟩ := WorkStealingQueue.new_eq_some hnew
  obtain ⟨p, hp, hpoint⟩ := Composition.main_step.run rfl hrun
  rw [shown_label hrun] at hp
  obtain ⟨hcame, hbinds⟩ := came_run hp
  refine ⟨hbinds, fun listenFd loop hloop => ?_, fun hnone => ?_⟩
  · obtain rfl := hpoint.symm.trans hloop
    refine ⟨?_, hcame⟩
    rw [manned_run hrun listenFd loop hloop, List.length_map, List.length_range]
  · rw [hpoint]
    cases p with
    | socket => exact Or.inl rfl
    | returned result =>
      obtain ⟨e, rfl⟩ := hcame hnone
      exact Or.inr ⟨e, rfl⟩
    | bind => exact absurd hcame.1 (by simp [hnone])
    | listen | epollCreate =>
      obtain ⟨ip, hip, -⟩ := hcame
      exact absurd hip (by simp [hnone])
    | abandon => exact absurd hnone hcame
    | loop =>
      obtain ⟨ip, epollFd, ios, hip, -⟩ := hcame
      exact absurd hip (by simp [hnone])

/-- Two ports, of which the last counts, and an option that wants its value. -/
def twoPorts : List Str :=
  ["server".toList, "--port".toList, "80".toList, "--port".toList, "81".toList, "--host".toList]

def bound : List ServerIo := [.main (.socket (.ok 3)), .main (.bind 3 (0, 0, 0, 0) 81 (.ok ()))]

theorem second_port_bound : ∃ handles heap s,
    WorkStealingQueue.new 1 1024 [] = some (handles, heap) ∧
    run (Server.step ⟨{ ServerConfig.default 1 true with port := 81 }, referenceHttparse⟩ handles)
      (.start heap) bound = some s ∧
    Launched "0.0.0.0".toList 81 1 (bound.flatMap Composition.calls) s := by
  have hnew := WorkStealingQueue.new_eq (show 1024 ≠ 0 by decide) 1
  exact ⟨_, _, _, hnew, rfl, launched_as_asked referenceHttparse 1 true twoPorts _
    ((parseArgs_eq true twoPorts).trans rfl) _ _ hnew bound _ rfl⟩

end KernelEngine.Launch
