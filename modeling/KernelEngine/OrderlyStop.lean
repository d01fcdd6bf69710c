import KernelEngine.Worker.Server

namespace KernelEngine.OrderlyStop
open Rust File Net Worker Fifo Runs

/-- The flag is down, and every worker spawned has terminated and is joined. -/
structure Orderly (s : Server) : Prop where
  stopped : s.running = false
  joined : s.joined = s.workers.phases.length
  left : ∀ phase ∈ s.workers.phases, phase = .left

/-- The step at which the event loop sees the flag down. -/
def seen : ServerIo := .main (.loop (.load false))

/-- The event loop is on its way out with `Ok`, or has returned it. -/
def Ended : Point → Prop
  | .drop _ (.ok _) => True
  | .returned (.ok _) => True
  | _ => False

/-- Where the main thread is: it joins all workers behind an event loop that saw the
flag down, and none otherwise. -/
def Matches (t : List ServerIo) (s : Server) : StartPoint → Prop
  | .loop _ loop => (seen ∈ t ↔ Ended loop.point) ∧ (s.joined ≠ 0 → Ended loop.point)
  | .returned _ => (seen ∈ t ∧ s.joined = s.workers.phases.length) ∨ (seen ∉ t ∧ s.joined = 0)
  | _ => seen ∉ t ∧ s.joined = 0

structure Books (t : List ServerIo) (s : Server) : Prop where
  stopped : s.running = false ↔ .stop ∈ t
  spawned : s.workers.phases = [] ↔ .spawn ∉ t
  left : ∀ i < s.joined, s.workers.phases[i]? = some .left
  place : Matches t s s.point

section Steps

variable {r : Reactor} {handles : List WorkStealingQueue} {listenFd : RawFd} {io : Io}
  {loop loop' : LoopState} {t : List ServerIo} {s s' : Server}

theorem not_ended_nextEvent (events : List (RawFd × EventFlags)) :
    ¬ Ended (nextEvent listenFd events) :=
  nextEvent_of (P := fun p => ¬ Ended p) id (fun _ => id) (fun _ _ => id) _ _

/-- Only the flag ends the event loop with `Ok`. -/
theorem ended_step (hs : r.step listenFd loop io = some loop') :
    Ended loop'.point ↔ io = .load false ∨ Ended loop.point := by
  cases Reactor.step_cases hs with
  | stop hp => simp [hp, Ended]
  | waited hp | acceptFailed hp | wrote hp | closed hp =>
    exact iff_of_false (not_ended_nextEvent _) (by simp [hp, Ended])
  | @handled fd buf rest hp env =>
    obtain ⟨m, -, ⟨response, -, he⟩ | ⟨e, -, he⟩ | ⟨-, he⟩ | ⟨-, he⟩⟩ :=
      Reactor.handle_cases r loop env fd buf rest <;> simp [he, hp, Ended]
  | @dropClose fds result hp =>
    cases result <;> simp [hp, Ended]
  | @dropEpoll result hp =>
    cases result <;> simp [hp, Ended]
  | addListener hp | addListenerFailed hp | goOn hp | waitFailed hp | accepted hp
  | addClient hp | addClientFailed hp | readSome hp | readNone hp | writeFailed hp
  | closeFailed hp => simp [hp, Ended]

/-- A worker that has left stays so. -/
theorem left_step {s s' : Workers} {b : Beat} (hs : Workers.Step handles s b s') {i : ℕ}
    (hi : s.phases[i]? = some .left) : s'.phases[i]? = some .left := by
  have stays {worker : ℕ} {phase phase' : Phase} (hp : s.phases[worker]? = some phase)
      (hne : phase ≠ .left) : (s.phases.set worker phase')[i]? = some .left := by
    have hother : worker ≠ i := by
      rintro rfl
      exact hne (Option.some.inj (hp.symm.trans hi))
    rw [List.getElem?_set_ne hother, hi]
  cases hs with
  | pushed => exact hi
  | loaded hp | stopped hp | slept hp | probed hp => exact stays hp (by simp)

theorem ended_of_loopOk {listenFd : RawFd} (h : Server.loopOk (.loop listenFd loop) = true) :
    Ended loop.point := by
  unfold Server.loopOk at h
  dsimp only at h
  split at h
  case h_1 hp => simp [hp, Ended]
  case h_2 => cases h

theorem mem_concat_of_ne {io : ServerIo} (hio : seen ≠ io) : seen ∈ t ++ [io] ↔ seen ∈ t := by
  rw [List.mem_append, List.mem_singleton, or_iff_left hio]

/-- Steps that are not the main thread's leave it where it is. -/
theorem Matches.other {p : StartPoint} (h : Matches t s p) {io : ServerIo} (hio : seen ≠ io)
    (hjoined : s'.joined = s.joined)
    (hlen : s'.workers.phases.length = s.workers.phases.length) : Matches (t ++ [io]) s' p := by
  cases p with
  | loop | returned => simpa only [Matches, mem_concat_of_ne hio, hjoined, hlen] using h
  | socket | bind | listen | abandon | epollCreate =>
    simpa only [Matches, mem_concat_of_ne hio, hjoined] using h

theorem Matches.main {io : StartIo} {p : StartPoint} (h : Matches t s s.point)
    (hs : Reactor.StartStep r s.point io p) (hready : s.ready handles io = true) :
    Matches (t ++ [.main io]) { s with point := p } p := by
  generalize hp : s.point = place at h hs
  cases hs with
  | noSocket | noAddress | abandoned | noEpoll =>
    exact Or.inr (by simpa [Matches, seen] using h)
  | created | bound | notBound | listening | notListening => simpa [Matches, seen] using h
  | entered => simpa [Matches, seen, Ended, LoopState.enter] using h
  | @looped listenFd loop loop' io hloop =>
    rw [Matches] at h ⊢
    rw [ended_step hloop]
    constructor
    · rw [List.mem_append, List.mem_singleton, h.1, or_comm]
      simp [seen, eq_comm]
    · exact fun hjoined => Or.inr (h.2 hjoined)
  | @finished listenFd loop result hret =>
    rw [Matches, hret] at h
    have hne : seen ≠ .main .finish := by simp [seen]
    rw [Matches, mem_concat_of_ne hne, h.1]
    cases result with
    | ok =>
      have hjoin : s.joined = s.workers.phases.length := by
        simpa [Server.ready, hp, Server.loopOk, hret] using hready
      exact Or.inl ⟨trivial, hjoin⟩
    | error => exact Or.inr ⟨id, by_contra h.2⟩

theorem books_step (h : Books t s) {io : ServerIo} (hs : s.step r handles io = some s') :
    Books (t ++ [io]) s' := by
  have hplace := h.place
  cases Server.step_cases hs with
  | main hmain hready =>
    exact ⟨by simpa using h.stopped, by simpa using h.spawned, h.left, hplace.main hmain hready⟩
  | spawned hp =>
    rw [hp] at hplace
    refine ⟨by simpa using h.stopped, by simp, fun i hi => ?_, ?_⟩
    · exact absurd hi (by simp [hplace.2])
    · dsimp only
      rw [hp]
      exact ⟨by simpa [seen] using hplace.1, hplace.2⟩
  | @worker b workers hw =>
    have hlen := Workers.phases_length_step hw
    refine ⟨by simpa using h.stopped, ?_, fun i hi => left_step hw (h.left i hi),
      hplace.other (by simp [seen]) rfl hlen⟩
    rw [← List.length_eq_zero_iff, hlen, List.length_eq_zero_iff, h.spawned]
    simp
  | joined hok hleft =>
    refine ⟨by simpa using h.stopped, by simpa using h.spawned, fun i hi => ?_, ?_⟩
    · obtain hlt | rfl : i < s.joined ∨ i = s.joined := by
        dsimp only at hi
        omega
      · exact h.left i hlt
      · exact hleft
    · generalize hp : s.point = place at hplace hok
      cases place with
      | loop listenFd loop =>
        rw [Matches, mem_concat_of_ne (by simp [seen])]
        exact ⟨hplace.1, fun _ => ended_of_loopOk hok⟩
      | socket | bind | listen | abandon | epollCreate | returned => cases hok
  | stopped =>
    exact ⟨by simp, by simpa using h.spawned, h.left, hplace.other (by simp [seen]) rfl rfl⟩

theorem books_run {heap : Heap Task} (hrun : run (Server.step r handles) (.start heap) t = some s) :
    Books t s := by
  refine run_history_of_step (fun _ _ _ _ h hs => books_step h hs) ?_ hrun
  refine ⟨by simp [Server.start], by simp [Server.start], fun i hi => ?_, ?_⟩
  · cases hi
  · simp [Server.start, Matches]

end Steps

/-- When `start` has returned, the stop was orderly exactly when somebody cleared the flag
and either the event loop saw that or there was no worker yet. Nothing in the
repository clears the flag. -/
theorem orderly_iff (r : Reactor) (handles : List WorkStealingQueue) (heap : Heap Task)
    (t : List ServerIo) (s : Server) (result : Except Anyhow Unit)
    (hrun : run (Server.step r handles) (.start heap) t = some s)
    (hreturned : s.point = .returned result) :
    Orderly s ↔ .stop ∈ t ∧ (seen ∈ t ∨ .spawn ∉ t) := by
  have hb := books_run hrun
  have hplace := hb.place
  rw [hreturned, Matches] at hplace
  rw [← hb.stopped, ← hb.spawned]
  constructor
  · intro h
    refine ⟨h.stopped, ?_⟩
    obtain ⟨hseen, -⟩ | ⟨-, hzero⟩ := hplace
    · exact Or.inl hseen
    · exact Or.inr (List.length_eq_zero_iff.mp (h.joined.symm.trans hzero))
  · rintro ⟨hstopped, hway⟩
    have hjoined : s.joined = s.workers.phases.length := by
      obtain ⟨-, hjoined⟩ | ⟨hnot, hzero⟩ := hplace
      · exact hjoined
      · rw [hway.resolve_left hnot, hzero]
        rfl
    refine ⟨hstopped, hjoined, fun phase hphase => ?_⟩
    obtain ⟨i, hi⟩ := List.mem_iff_getElem?.mp hphase
    have hlt := (List.getElem?_eq_some_iff.mp hi).1
    exact Option.some.inj (hi.symm.trans (hb.left i (hjoined ▸ hlt)))

def handles : List WorkStealingQueue := [WorkStealingQueue.wired 1 0]

def listening : List ServerIo :=
  [.main (.socket (.ok 3)), .main (.bind 3 (0, 0, 0, 0) 8080 (.ok ())),
    .main (.listen 3 128 (.ok ())), .spawn]

/-- Somebody clears the flag, the event loop sees it and the worker is joined. -/
def cleared : List ServerIo :=
  listening ++ [.main (.epollCreate (.ok 4)), .main (.loop (.epollAdd 3 EPOLLIN (.ok ()))), .stop,
    .main (.loop (.load false)), .main (.loop (.close 3 (.ok ()) (.ok ()))),
    .main (.loop (.closeEpoll 4)), .worker (.load 0 false), .join, .main .finish]

theorem cleared_orderly : ∃ s,
    run (Server.step Reactor.stock handles) (.start [Queue.empty 1024]) cleared = some s ∧
      Orderly s := by
  refine ⟨_, rfl, (orderly_iff Reactor.stock handles _ cleared _ (.ok ()) rfl rfl).mpr ?_⟩
  exact ⟨by simp [cleared], Or.inl (by simp [cleared, seen])⟩

/-- `epoll_create1` fails behind the spawning: `start` returns and the worker goes on. -/
def epollRefused : List ServerIo := listening ++ [.main (.epollCreate (.error []))]

theorem worker_outlives_start : ∃ s e,
    run (Server.step Reactor.stock handles) (.start [Queue.empty 1024]) epollRefused = some s ∧
      s.point = .returned (.error e) ∧ s.running = true ∧ s.workers.phases = [.top] ∧
      s.joined = 0 ∧ ¬ Orderly s := by
  refine ⟨_, _, rfl, rfl, rfl, rfl, rfl, fun h => ?_⟩
  exact Bool.noConfusion h.stopped

end KernelEngine.OrderlyStop
