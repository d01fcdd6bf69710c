import KernelEngine.Lib.Runs
import KernelEngine.Net.Epoll
import KernelEngine.Worker.Reactor

namespace KernelEngine.Worker
open Rust File Http Net

/-- The calls `event_loop` makes, each with the answer it gets from outside. -/
inductive Io where
  | load (running : Bool)
  | epollAdd (fd : RawFd) (events : EventFlags) (added : Except OsError Unit)
  | epollWait (waited : Except OsError (List (RawFd × EventFlags)))
  | accept (accepted : Except OsError RawFd)
  | read (fd : RawFd) (got : Except OsError Bytes)
  | serve (fd : RawFd) (buf : Bytes) (env : Surroundings)
  | write (fd : RawFd) (response : HttpResponse) (order : List (Str × Str))
      (took : Except OsError ℕ)
  | close (fd : RawFd) (deleted closed : Except OsError Unit)
  | closeEpoll (fd : RawFd)

/-- The places of `event_loop` between two such calls. `rest` is what remains of
the batch of events. -/
inductive Point where
  | addListener
  | top
  | wait
  | accept (rest : List (RawFd × EventFlags))
  | addClient (fd : RawFd) (rest : List (RawFd × EventFlags))
  | read (fd : RawFd) (rest : List (RawFd × EventFlags))
  | handle (fd : RawFd) (buf : Bytes) (rest : List (RawFd × EventFlags))
  | write (fd : RawFd) (response : HttpResponse) (rest : List (RawFd × EventFlags))
  | close (fd : RawFd) (rest : List (RawFd × EventFlags))
  | drop (fds : List RawFd) (result : Except Anyhow Unit)
  | returned (result : Except Anyhow Unit)
  | panicked
  | killed

structure LoopState where
  point : Point
  epoll : EpollBackend
  metrics : Metrics

/-- The buffer `event_loop` reads into: `vec![0u8; 8192]`. -/
def readLen : ℕ := 8192

/-- The head of the loop over the events of one batch. -/
def nextEvent (listenFd : RawFd) : List (RawFd × EventFlags) → Point
  | [] => .top
  | (fd, flags) :: rest =>
    if fd = listenFd then .accept rest
    else if flags &&& EPOLLIN ≠ 0 then .read fd rest
    else nextEvent listenFd rest

/-- What holds at the three places a batch can lead to holds at the next event. -/
theorem nextEvent_of {P : Point → Prop} (htop : P .top) (haccept : ∀ rest, P (.accept rest))
    (hread : ∀ fd rest, P (.read fd rest)) (listenFd : RawFd)
    (events : List (RawFd × EventFlags)) : P (nextEvent listenFd events) := by
  induction events with
  | nil => exact htop
  | cons e events ih =>
    rw [nextEvent]
    split_ifs
    · exact haccept events
    · exact hread e.1 events
    · exact ih

/-- The descriptor on its way to `register`. -/
def arriving (listenFd : RawFd) : Point → Option RawFd
  | .addListener => some listenFd
  | .addClient fd _ => some fd
  | _ => none

@[simp] theorem arriving_nextEvent (listenFd : RawFd) (events : List (RawFd × EventFlags)) :
    arriving listenFd (nextEvent listenFd events) = none :=
  nextEvent_of (P := fun p => arriving listenFd p = none) rfl (fun _ => rfl) (fun _ _ => rfl)
    listenFd events

namespace LoopState

/-- Leaving `event_loop` drops the backend, which closes every registered
descriptor. -/
def leave (s : LoopState) (result : Except Anyhow Unit) : LoopState :=
  { s with point := .drop s.epoll.keys result }

@[simp] theorem leave_point (s : LoopState) (result : Except Anyhow Unit) :
    (s.leave result).point = .drop s.epoll.keys result := rfl

@[simp] theorem leave_epoll (s : LoopState) (result : Except Anyhow Unit) :
    (s.leave result).epoll = s.epoll := rfl

@[simp] theorem leave_metrics (s : LoopState) (result : Except Anyhow Unit) :
    (s.leave result).metrics = s.metrics := rfl

end LoopState

/-- Entering `event_loop`, once `EpollBackend::new(1024)` has returned. -/
def LoopState.enter (epollFd : RawFd) : LoopState where
  point := .addListener
  epoll := ⟨epollFd, 1024, ∅⟩
  metrics := ⟨0, 0⟩

/-- The loop at its top with only the listener registered. -/
def LoopState.listening (listenFd epollFd : RawFd) : LoopState where
  point := .top
  epoll := (⟨epollFd, 1024, ∅⟩ : EpollBackend).insert listenFd
  metrics := ⟨0, 0⟩

namespace Reactor

/-- What `handle_request` does up to its response. -/
def handle (r : Reactor) (s : LoopState) (env : Surroundings) (fd : RawFd) (buf : Bytes)
    (rest : List (RawFd × EventFlags)) : LoopState :=
  let s := { s with metrics.requestsTotal := incBy s.metrics.requestsTotal 1 }
  match r.respond env s.metrics buf with
  | .ok response => { s with point := .write fd response rest }
  | .error (.error e) => s.leave (.error e)
  | .error .panicked => { s with point := .panicked }
  | .error .killed => { s with point := .killed }

/-- What `event_loop` does with the answer to the call it is at. -/
def step (r : Reactor) (listenFd : RawFd) (s : LoopState) (io : Io) : Option LoopState :=
  match s.point, io with
  | .addListener, .epollAdd fd events added =>
    if fd = listenFd ∧ events = EPOLLIN then
      some (match s.epoll.register fd added with
        | .ok epoll => { s with point := .top, epoll := epoll }
        | .error e => s.leave (.error e))
    else none
  | .top, .load running =>
    some (if running then { s with point := .wait } else s.leave (.ok ()))
  | .wait, .epollWait waited =>
    some (match EpollBackend.processEvents waited with
      | .ok events => { s with point := nextEvent listenFd events }
      | .error e => s.leave (.error e))
  | .accept rest, .accept accepted =>
    some (match EpollBackend.accept accepted with
      | .ok fd => { s with point := .addClient fd rest }
      -- any error ends the accept loop, not only `EAGAIN`
      | .error _ => { s with point := nextEvent listenFd rest })
  | .addClient client rest, .epollAdd fd events added =>
    if fd = client ∧ events = EPOLLIN ||| EPOLLET then
      some (match s.epoll.register fd added with
        | .ok epoll => { s with point := .accept rest, epoll := epoll }
        | .error e => s.leave (.error e))
    else none
  -- one read for each event, whatever it leaves behind
  | .read client rest, .read fd got =>
    if fd = client then
      match EpollBackend.read got with
      | .ok buf =>
        if readLen < buf.length then none
        else if 0 < buf.length then some { s with point := .handle fd buf rest }
        else some { s with point := .close fd rest }
      | .error _ => some { s with point := .close fd rest }
    else none
  | .handle client buf rest, .serve fd buf' env =>
    if fd = client ∧ buf' = buf then some (r.handle s env fd buf rest) else none
  | .write client response rest, .write fd response' order took =>
    if fd = client ∧ response' = response ∧ order.Perm response.fields then
      some (match EpollBackend.write took with
        -- how much was taken is not looked at
        | .ok _ => { s with
            point := nextEvent listenFd rest
            metrics.bytesSent := incBy s.metrics.bytesSent (response.toBytes order).length }
        | .error e => s.leave (.error e))
    else none
  | .close client rest, .close fd deleted closed =>
    if fd = client then
      let (epoll, result) := s.epoll.close fd deleted closed
      let s := { s with epoll := epoll }
      some (match result with
        | .ok _ => { s with point := nextEvent listenFd rest }
        | .error e => s.leave (.error e))
    else none
  -- in the order of the map, and the results are ignored
  | .drop fds result, .close fd deleted closed =>
    if fd ∈ fds then
      some { s with
        point := .drop (fds.erase fd) result
        epoll := (s.epoll.close fd deleted closed).1 }
    else none
  | .drop fds result, .closeEpoll fd =>
    if fds = [] ∧ fd = s.epoll.epollFd then some { s with point := .returned result } else none
  | _, _ => none

/-- Everything one step can do. -/
inductive Step (r : Reactor) (listenFd : RawFd) (s : LoopState) : Io → LoopState → Prop
  | addListener (h : s.point = .addListener) :
      Step r listenFd s (.epollAdd listenFd EPOLLIN (.ok ()))
        { s with point := .top, epoll := s.epoll.insert listenFd }
  | addListenerFailed (h : s.point = .addListener) (e : OsError) (msg : Anyhow) :
      Step r listenFd s (.epollAdd listenFd EPOLLIN (.error e)) (s.leave (.error msg))
  | goOn (h : s.point = .top) : Step r listenFd s (.load true) { s with point := .wait }
  | stop (h : s.point = .top) : Step r listenFd s (.load false) (s.leave (.ok ()))
  | waited (h : s.point = .wait) (events : List (RawFd × EventFlags)) :
      Step r listenFd s (.epollWait (.ok events)) { s with point := nextEvent listenFd events }
  | waitFailed (h : s.point = .wait) (e : OsError) (msg : Anyhow) :
      Step r listenFd s (.epollWait (.error e)) (s.leave (.error msg))
  | accepted {rest} (h : s.point = .accept rest) (fd : RawFd) :
      Step r listenFd s (.accept (.ok fd)) { s with point := .addClient fd rest }
  | acceptFailed {rest} (h : s.point = .accept rest) (e : OsError) :
      Step r listenFd s (.accept (.error e)) { s with point := nextEvent listenFd rest }
  | addClient {fd rest} (h : s.point = .addClient fd rest) :
      Step r listenFd s (.epollAdd fd (EPOLLIN ||| EPOLLET) (.ok ()))
        { s with point := .accept rest, epoll := s.epoll.insert fd }
  | addClientFailed {fd rest} (h : s.point = .addClient fd rest) (e : OsError) (msg : Anyhow) :
      Step r listenFd s (.epollAdd fd (EPOLLIN ||| EPOLLET) (.error e)) (s.leave (.error msg))
  | readSome {fd rest} (h : s.point = .read fd rest) (buf : Bytes) (hpos : buf ≠ [])
      (hlen : buf.length ≤ readLen) :
      Step r listenFd s (.read fd (.ok buf)) { s with point := .handle fd buf rest }
  | readNone {fd rest} (h : s.point = .read fd rest) (got : Except OsError Bytes)
      (hgot : ∀ buf, got = .ok buf → buf = []) :
      Step r listenFd s (.read fd got) { s with point := .close fd rest }
  | handled {fd buf rest} (h : s.point = .handle fd buf rest) (env : Surroundings) :
      Step r listenFd s (.serve fd buf env) (r.handle s env fd buf rest)
  | wrote {fd response rest} (h : s.point = .write fd response rest)
      (order : List (Str × Str)) (horder : order.Perm response.fields) (n : ℕ) :
      Step r listenFd s (.write fd response order (.ok n)) { s with
        point := nextEvent listenFd rest
        metrics.bytesSent := incBy s.metrics.bytesSent (response.toBytes order).length }
  | writeFailed {fd response rest} (h : s.point = .write fd response rest)
      (order : List (Str × Str)) (e : OsError) (msg : Anyhow) :
      Step r listenFd s (.write fd response order (.error e)) (s.leave (.error msg))
  | closed {fd rest} (h : s.point = .close fd rest) :
      Step r listenFd s (.close fd (.ok ()) (.ok ()))
        { s with point := nextEvent listenFd rest, epoll := s.epoll.erase fd }
  | closeFailed {fd rest} (h : s.point = .close fd rest) (deleted closed : Except OsError Unit)
      (hfail : deleted ≠ .ok () ∨ closed ≠ .ok ()) (msg : Anyhow) :
      Step r listenFd s (.close fd deleted closed)
        ({ s with epoll := (s.epoll.close fd deleted closed).1 }.leave (.error msg))
  | dropClose {fds result} (h : s.point = .drop fds result) (fd : RawFd) (hfd : fd ∈ fds)
      (deleted closed : Except OsError Unit) :
      Step r listenFd s (.close fd deleted closed) { s with
        point := .drop (fds.erase fd) result
        epoll := (s.epoll.close fd deleted closed).1 }
  | dropEpoll {result} (h : s.point = .drop [] result) :
      Step r listenFd s (.closeEpoll s.epoll.epollFd) { s with point := .returned result }

section Lemmas

variable {r : Reactor} {listenFd : RawFd} {s s' : LoopState} {io : Io}

/-- The four ways the head of `handle_request` ends. -/
theorem handle_cases (r : Reactor) (s : LoopState) (env : Surroundings) (fd : RawFd) (buf : Bytes)
    (rest : List (RawFd × EventFlags)) :
    ∃ m : Metrics, m = { s.metrics with requestsTotal := incBy s.metrics.requestsTotal 1 } ∧
      ((∃ response, r.respond env m buf = .ok response ∧
          r.handle s env fd buf rest =
            { s with point := .write fd response rest, metrics := m }) ∨
        (∃ e, r.respond env m buf = .error (.error e) ∧
          r.handle s env fd buf rest = { s with metrics := m }.leave (.error e)) ∨
        (r.respond env m buf = .error .panicked ∧
          r.handle s env fd buf rest = { s with point := .panicked, metrics := m }) ∨
        (r.respond env m buf = .error .killed ∧
          r.handle s env fd buf rest = { s with point := .killed, metrics := m })) := by
  refine ⟨_, rfl, ?_⟩
  unfold handle
  dsimp only
  split
  case h_1 response h => exact Or.inl ⟨response, h, rfl⟩
  case h_2 e h => exact Or.inr (Or.inl ⟨e, h, rfl⟩)
  case h_3 h => exact Or.inr (Or.inr (Or.inl ⟨h, rfl⟩))
  case h_4 h => exact Or.inr (Or.inr (Or.inr ⟨h, rfl⟩))

@[simp] theorem handle_epoll (r : Reactor) (s : LoopState) (env : Surroundings) (fd : RawFd)
    (buf : Bytes) (rest : List (RawFd × EventFlags)) :
    (r.handle s env fd buf rest).epoll = s.epoll := by
  obtain ⟨m, -, ⟨response, -, h⟩ | ⟨e, -, h⟩ | ⟨-, h⟩ | ⟨-, h⟩⟩ :=
    handle_cases r s env fd buf rest <;>
    simp only [h, LoopState.leave_epoll]

@[simp] theorem handle_bytesSent (r : Reactor) (s : LoopState) (env : Surroundings) (fd : RawFd)
    (buf : Bytes) (rest : List (RawFd × EventFlags)) :
    (r.handle s env fd buf rest).metrics.bytesSent = s.metrics.bytesSent := by
  obtain ⟨m, rfl, ⟨response, -, h⟩ | ⟨e, -, h⟩ | ⟨-, h⟩ | ⟨-, h⟩⟩ :=
    handle_cases r s env fd buf rest <;>
    simp only [h, LoopState.leave_metrics]

/-- While the flag is set the loop waits for events. -/
theorem step_goOn (hp : s.point = .top) :
    r.step listenFd s (.load true) = some { s with point := .wait } := by
  unfold step
  rw [hp]
  rfl

theorem step_waited (hp : s.point = .wait) (events : List (RawFd × EventFlags)) :
    r.step listenFd s (.epollWait (.ok events)) =
      some { s with point := nextEvent listenFd events } := by
  unfold step
  rw [hp]
  rfl

/-- A read that brings something brings a request to handle. -/
theorem step_readSome {fd : RawFd} {rest : List (RawFd × EventFlags)}
    (hp : s.point = .read fd rest) {buf : Bytes} (hpos : buf ≠ []) (hlen : buf.length ≤ readLen) :
    r.step listenFd s (.read fd (.ok buf)) = some { s with point := .handle fd buf rest } := by
  unfold step
  rw [hp]
  simp only [EpollBackend.read, EpollBackend.fail, id, if_true, if_neg hlen.not_gt,
    if_pos (List.length_pos_iff.mpr hpos)]

/-- A request with a response has it written next. -/
theorem step_served {fd : RawFd} {buf : Bytes} {rest : List (RawFd × EventFlags)}
    (hp : s.point = .handle fd buf rest) {env : Surroundings} {response : HttpResponse}
    (hok : r.respond env { s.metrics with
      requestsTotal := incBy s.metrics.requestsTotal 1 } buf = .ok response) :
    r.step listenFd s (.serve fd buf env) = some { s with
      point := .write fd response rest
      metrics.requestsTotal := incBy s.metrics.requestsTotal 1 } := by
  unfold step
  rw [hp]
  simp only [and_self, if_true, handle, hok]

/-- A buffer that does not parse is answered by the 400. -/
theorem step_refused {fd : RawFd} {buf : Bytes} {rest : List (RawFd × EventFlags)}
    (hp : s.point = .handle fd buf rest) {e : Anyhow}
    (hparse : HttpRequest.parse r.httparse buf = .error e) (env : Surroundings) :
    r.step listenFd s (.serve fd buf env) = some { s with
      point := .write fd HttpResponse.badRequest rest
      metrics.requestsTotal := incBy s.metrics.requestsTotal 1 } :=
  step_served hp (respond_refused hparse)

/-- A successful write, in any order of the header map, brings the next event. -/
theorem step_wrote {fd : RawFd} {response : HttpResponse} {rest : List (RawFd × EventFlags)}
    (hp : s.point = .write fd response rest) {order : List (Str × Str)}
    (horder : order.Perm response.fields) (n : ℕ) :
    r.step listenFd s (.write fd response order (.ok n)) = some { s with
      point := nextEvent listenFd rest
      metrics.bytesSent := incBy s.metrics.bytesSent (response.toBytes order).length } := by
  unfold step
  rw [hp]
  exact if_pos ⟨rfl, rfl, horder⟩

theorem step_cases (h : r.step listenFd s io = some s') : Step r listenFd s io s' := by
  unfold step at h
  split at h
  case h_1 fd events added hp =>
    obtain ⟨⟨rfl, rfl⟩, hs⟩ := Option.ite_none_right_eq_some.mp h
    obtain rfl := Option.some.inj hs
    cases added with
    | ok => exact .addListener hp
    | error e => exact .addListenerFailed hp e _
  case h_2 running hp =>
    obtain rfl := Option.some.inj h
    cases running with
    | true => exact .goOn hp
    | false => exact .stop hp
  case h_3 waited hp =>
    obtain rfl := Option.some.inj h
    cases waited with
    | ok events => exact .waited hp events
    | error e => exact .waitFailed hp e _
  case h_4 rest accepted hp =>
    obtain rfl := Option.some.inj h
    cases accepted with
    | ok fd => exact .accepted hp fd
    | error e => exact .acceptFailed hp e
  case h_5 client rest fd events added hp =>
    obtain ⟨⟨rfl, rfl⟩, hs⟩ := Option.ite_none_right_eq_some.mp h
    obtain rfl := Option.some.inj hs
    cases added with
    | ok => exact .addClient hp
    | error e => exact .addClientFailed hp e _
  case h_6 client rest fd got hp =>
    split at h
    · obtain rfl : fd = client := by assumption
      cases got with
      | error e =>
        obtain rfl := Option.some.inj h
        exact .readNone hp _ (by simp)
      | ok buf =>
        change (if readLen < buf.length then none
          else if 0 < buf.length then _ else _) = some s' at h
        split_ifs at h with hlen hpos
        · obtain rfl := Option.some.inj h
          exact .readSome hp buf (List.ne_nil_of_length_pos hpos) (by omega)
        · obtain rfl := Option.some.inj h
          refine .readNone hp _ ?_
          rintro _ ⟨⟩
          exact List.eq_nil_of_length_eq_zero (by omega)
    · cases h
  case h_7 client buf rest fd buf' env hp =>
    obtain ⟨⟨rfl, rfl⟩, hs⟩ := Option.ite_none_right_eq_some.mp h
    obtain rfl := Option.some.inj hs
    exact .handled hp env
  case h_8 client response rest fd response' order took hp =>
    obtain ⟨⟨rfl, rfl, horder⟩, hs⟩ := Option.ite_none_right_eq_some.mp h
    obtain rfl := Option.some.inj hs
    cases took with
    | ok n => exact .wrote hp order horder n
    | error e => exact .writeFailed hp order e _
  case h_9 client rest fd deleted closed hp =>
    obtain ⟨rfl, hs⟩ := Option.ite_none_right_eq_some.mp h
    obtain rfl := Option.some.inj hs
    cases deleted with
    | error e => exact .closeFailed hp _ _ (Or.inl (by simp)) _
    | ok =>
      cases closed with
      | error e => exact .closeFailed hp _ _ (Or.inr (by simp)) _
      | ok => exact .closed hp
  case h_10 fds result fd deleted closed hp =>
    obtain ⟨hfd, hs⟩ := Option.ite_none_right_eq_some.mp h
    obtain rfl := Option.some.inj hs
    exact .dropClose hp fd hfd deleted closed
  case h_11 fds result fd hp =>
    obtain ⟨⟨rfl, rfl⟩, hs⟩ := Option.ite_none_right_eq_some.mp h
    obtain rfl := Option.some.inj hs
    exact .dropEpoll hp
  case h_12 => cases h

/-- A request that is read and has a response is answered next. -/
theorem run_answered {fd : RawFd} {rest : List (RawFd × EventFlags)} (hp : s.point = .read fd rest)
    {buf : Bytes} (hpos : buf ≠ []) (hlen : buf.length ≤ readLen) {env : Surroundings}
    {response : HttpResponse} (hok : r.respond env { s.metrics with
      requestsTotal := incBy s.metrics.requestsTotal 1 } buf = .ok response) :
    Runs.run (r.step listenFd) s [.read fd (.ok buf), .serve fd buf env] = some { s with
      point := .write fd response rest
      metrics.requestsTotal := incBy s.metrics.requestsTotal 1 } :=
  Runs.run_cons_iff.mpr ⟨_, step_readSome hp hpos hlen,
    Runs.run_cons_iff.mpr ⟨_, step_served rfl hok, rfl⟩⟩

theorem respond_of_run_answered {fd : RawFd} {rest : List (RawFd × EventFlags)} {buf : Bytes}
    {env : Surroundings} {response : HttpResponse}
    (hrun : Runs.run (r.step listenFd) s [.read fd (.ok buf), .serve fd buf env] = some s')
    (hp : s'.point = .write fd response rest) : r.respond env { s.metrics with
      requestsTotal := incBy s.metrics.requestsTotal 1 } buf = .ok response := by
  obtain ⟨mid, hread, hrun⟩ := Runs.run_cons_iff.mp hrun
  obtain ⟨last, hserve, hlast⟩ := Runs.run_cons_iff.mp hrun
  obtain rfl := Option.some.inj hlast
  have hmetrics : mid.metrics = s.metrics := by
    cases step_cases hread <;> rfl
  cases step_cases hserve with
  | @handled fd buf rest' hmid env =>
    rw [← hmetrics]
    obtain ⟨m, rfl, ⟨response', hok, h⟩ | ⟨e, -, h⟩ | ⟨-, h⟩ | ⟨-, h⟩⟩ :=
      handle_cases r mid env fd buf rest' <;> rw [h] at hp <;> cases hp
    exact hok

end Lemmas

end Reactor

end KernelEngine.Worker
