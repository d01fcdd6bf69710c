import KernelEngine.Worker.EventLoop

namespace KernelEngine.Worker
open Rust File Net

/-- The calls `start` makes on the main thread, each with its answer. The results of
`setsockopt` are not looked at. -/
inductive StartIo where
  | socket (created : Except OsError RawFd)
  | bind (fd : RawFd) (ip : Ipv4Addr) (port : ℕ) (bound : Except OsError Unit)
  | listen (fd : RawFd) (backlog : ℕ) (listening : Except OsError Unit)
  | closeSocket (fd : RawFd)
  | epollCreate (created : Except OsError RawFd)
  | loop (io : Io)
  | finish

/-- The places of `start` between two such calls. -/
inductive StartPoint where
  | socket
  | bind (fd : RawFd) (ip : Ipv4Addr)
  | listen (fd : RawFd)
  | abandon (fd : RawFd) (e : Anyhow)
  | epollCreate (listenFd : RawFd)
  | loop (listenFd : RawFd) (s : LoopState)
  | returned (result : Except Anyhow Unit)

namespace Reactor

/-- What `start` does with the answer to the call it is at. -/
def startStep (r : Reactor) : StartPoint → StartIo → Option StartPoint
  | .socket, .socket created =>
    some (match created with
      | .error e => .returned (.error ("Failed to create socket: ".toList ++ e))
      | .ok fd => match Ipv4Addr.parse r.config.host with
        -- the `?` leaves without closing the socket
        | none => .returned (.error "invalid IPv4 address syntax".toList)
        | some ip => .bind fd ip)
  | .bind socketFd socketIp, .bind fd ip port bound =>
    if fd = socketFd ∧ ip = socketIp ∧ port = r.config.port then
      some (match bound with
        | .ok _ => .listen fd
        | .error e => .abandon fd ("Failed to bind socket: ".toList ++ e))
    else none
  | .listen socketFd, .listen fd backlog listening =>
    if fd = socketFd ∧ backlog = 128 then
      some (match listening with
        | .ok _ => .epollCreate fd
        | .error e => .abandon fd ("Failed to listen on socket: ".toList ++ e))
    else none
  | .abandon socketFd e, .closeSocket fd =>
    if fd = socketFd then some (.returned (.error e)) else none
  | .epollCreate listenFd, .epollCreate created =>
    some (match EpollBackend.new 1024 created with
      | .ok epoll => .loop listenFd { point := .addListener, epoll := epoll, metrics := ⟨0, 0⟩ }
      | .error e => .returned (.error e))
  | .loop listenFd s, .loop io => (r.step listenFd s io).map (.loop listenFd)
  -- the workers are joined here when the loop returned `Ok`
  | .loop _ s, .finish => match s.point with
    | .returned result => some (.returned result)
    | _ => none
  | _, _ => none

/-- Everything one step of `start` can do. -/
inductive StartStep (r : Reactor) : StartPoint → StartIo → StartPoint → Prop
  | noSocket (e : OsError) (msg : Anyhow) :
      StartStep r .socket (.socket (.error e)) (.returned (.error msg))
  | noAddress (fd : RawFd) (h : Ipv4Addr.parse r.config.host = none) (msg : Anyhow) :
      StartStep r .socket (.socket (.ok fd)) (.returned (.error msg))
  | created (fd : RawFd) {ip} (h : Ipv4Addr.parse r.config.host = some ip) :
      StartStep r .socket (.socket (.ok fd)) (.bind fd ip)
  | bound (fd : RawFd) (ip : Ipv4Addr) (port : ℕ) :
      StartStep r (.bind fd ip) (.bind fd ip port (.ok ())) (.listen fd)
  | notBound (fd : RawFd) (ip : Ipv4Addr) (port : ℕ) (e : OsError) (msg : Anyhow) :
      StartStep r (.bind fd ip) (.bind fd ip port (.error e)) (.abandon fd msg)
  | listening (fd : RawFd) (backlog : ℕ) :
      StartStep r (.listen fd) (.listen fd backlog (.ok ())) (.epollCreate fd)
  | notListening (fd : RawFd) (backlog : ℕ) (e : OsError) (msg : Anyhow) :
      StartStep r (.listen fd) (.listen fd backlog (.error e)) (.abandon fd msg)
  | abandoned (fd : RawFd) (e : Anyhow) :
      StartStep r (.abandon fd e) (.closeSocket fd) (.returned (.error e))
  | entered (listenFd epollFd : RawFd) :
      StartStep r (.epollCreate listenFd) (.epollCreate (.ok epollFd))
        (.loop listenFd (.enter epollFd))
  | noEpoll (listenFd : RawFd) (e : OsError) (msg : Anyhow) :
      StartStep r (.epollCreate listenFd) (.epollCreate (.error e)) (.returned (.error msg))
  | looped (listenFd : RawFd) {s s' : LoopState} {io : Io} (h : r.step listenFd s io = some s') :
      StartStep r (.loop listenFd s) (.loop io) (.loop listenFd s')
  | finished (listenFd : RawFd) {s : LoopState} {result : Except Anyhow Unit}
      (h : s.point = .returned result) : StartStep r (.loop listenFd s) .finish (.returned result)

theorem startStep_cases {r : Reactor} {p p' : StartPoint} {io : StartIo}
    (h : r.startStep p io = some p') : StartStep r p io p' := by
  unfold startStep at h
  split at h
  case h_1 created =>
    obtain rfl := Option.some.inj h
    cases created with
    | error e => exact .noSocket e _
    | ok fd =>
      cases hip : Ipv4Addr.parse r.config.host with
      | none => exact .noAddress fd hip _
      | some ip => exact .created fd hip
  case h_2 socketFd socketIp fd ip port bound =>
    obtain ⟨⟨rfl, rfl, -⟩, hs⟩ := Option.ite_none_right_eq_some.mp h
    obtain rfl := Option.some.inj hs
    cases bound with
    | ok => exact .bound fd ip port
    | error e => exact .notBound fd ip port e _
  case h_3 socketFd fd backlog listening =>
    obtain ⟨⟨rfl, -⟩, hs⟩ := Option.ite_none_right_eq_some.mp h
    obtain rfl := Option.some.inj hs
    cases listening with
    | ok => exact .listening fd backlog
    | error e => exact .notListening fd backlog e _
  case h_4 socketFd e fd =>
    obtain ⟨rfl, hs⟩ := Option.ite_none_right_eq_some.mp h
    obtain rfl := Option.some.inj hs
    exact .abandoned fd e
  case h_5 listenFd created =>
    obtain rfl := Option.some.inj h
    cases created with
    | ok epollFd => exact .entered listenFd epollFd
    | error e => exact .noEpoll listenFd e _
  case h_6 listenFd s io =>
    obtain ⟨s', hs, rfl⟩ := Option.map_eq_some_iff.mp h
    exact .looped listenFd hs
  case h_7 listenFd s =>
    split at h
    · obtain rfl := Option.some.inj h
      exact .finished listenFd (by assumption)
    · cases h
  case h_8 => cases h

end Reactor

end KernelEngine.Worker
