import KernelEngine.Generations
import KernelEngine.Isolation
import KernelEngine.KeepAlive
import KernelEngine.Resilience

namespace KernelEngine.Persistence
open Rust File Http Net Worker Runs Generations
open Delivery (quietSurroundings)
open Isolation (Looping)
open Resilience (Servable closes)

def SaysKeepAlive (response : HttpResponse) : Prop :=
  response.headers.lookup "Connection".toList = some "keep-alive".toList

/-- The client has hung up, or reading from it fails. -/
def HangsUp (fd : RawFd) (io : Io) : Prop :=
  ∃ got, io = .read fd got ∧ ∀ buf, got = .ok buf → buf = []

/-- The descriptor is registered and denotes one connection until its client hangs up or
the loop is left. -/
def Stays (r : Reactor) (listenFd : RawFd) (releases : OsError → Bool) (fd : RawFd)
    (p : System) : Prop :=
  ∃ c, ∀ t q, run (step r listenFd releases) p t = some q → (∀ io ∈ t, ¬ HangsUp fd io) →
    Looping q.1.point → fd ∈ q.1.epoll.keys ∧ q.2.connection fd = some c

/-- An accepted request has its response at hand. -/
def Answers (r : Reactor) (io : Io) (q : System) (req : HttpRequest) (fd : RawFd)
    (response : HttpResponse) (rest : List (RawFd × EventFlags)) : Prop :=
  ∃ buf env, io = .serve fd buf env ∧ HttpRequest.parse r.httparse buf = .ok req ∧
    q.1.point = .write fd response rest

/-- The response and the socket agree with what a request asks for: without keep-alive the
close follows the write, and with it the connection stays. -/
structure Honoured (r : Reactor) (listenFd : RawFd) (releases : OsError → Bool)
    (_ : System) (io : Io) (q : System) : Prop where
  closed : ∀ req fd response rest, Answers r io q req fd response rest →
    req.isKeepAlive = false → ¬ SaysKeepAlive response ∧
      ∀ order n q', step r listenFd releases q (.write fd response order (.ok n)) = some q' →
        q'.1.point = .close fd rest
  kept : ∀ req fd response rest, Answers r io q req fd response rest →
    req.isKeepAlive = true → SaysKeepAlive response ∧
      ∀ order n q', step r listenFd releases q (.write fd response order (.ok n)) = some q' →
        Stays r listenFd releases fd q'

/-- The condition on one call: an accepted request that can be answered asks for
keep-alive. -/
def AsksKeepAlive (r : Reactor) : Io → Prop
  | .serve _ buf env => ∀ req, HttpRequest.parse r.httparse buf = .ok req →
      Servable r env buf → req.isKeepAlive = true
  | _ => True

section Responses

variable {response : HttpResponse} {name value : Str}

theorem saysKeepAlive_new (statusCode : ℕ) : SaysKeepAlive (.new statusCode) :=
  AList.lookup_insert _

theorem SaysKeepAlive.withHeader (h : SaysKeepAlive response) (hname : name ≠ "Connection".toList) :
    SaysKeepAlive (response.withHeader name value) :=
  (AList.lookup_insert_ne hname.symm).trans h

theorem SaysKeepAlive.setBody (h : SaysKeepAlive response) (body : Bytes) :
    SaysKeepAlive (response.setBody body) := by
  have hbody : SaysKeepAlive { response with body := body } := h
  exact hbody.withHeader (by decide)

theorem SaysKeepAlive.typedBody (h : SaysKeepAlive response) (contentType : Str) (body : Bytes) :
    SaysKeepAlive (response.typedBody contentType body) := by
  have hbody : SaysKeepAlive { response with body := body } := h
  exact (hbody.withHeader (by decide)).withHeader (by decide)

theorem saysKeepAlive_fileResponse (path : Str) (mmap : MmapFile) :
    SaysKeepAlive (Reactor.fileResponse path mmap) := by
  have hbody := (saysKeepAlive_new 200).setBody mmap.asSlice
  unfold Reactor.fileResponse
  cases Path.extension path with
  | none => exact hbody
  | some ext => exact hbody.withHeader (by decide)

/-- Whatever the request, the response says keep-alive. -/
theorem saysKeepAlive_of_respond {r : Reactor} {env : Surroundings} {m : Metrics} {buf : Bytes}
    (h : r.respond env m buf = .ok response) : SaysKeepAlive response := by
  cases hparse : HttpRequest.parse r.httparse buf with
  | error e =>
    rw [Reactor.respond_refused hparse] at h
    obtain rfl := Except.ok.inj h
    exact (saysKeepAlive_new 400).setBody _
  | ok req =>
    cases hmode : r.config.mode with
    | fastPath =>
      rw [Reactor.respond_fastPath hmode hparse] at h
      obtain ⟨path, -, ⟨-, rfl⟩ | ⟨-, mmap, -, -, rfl⟩⟩ :=
        Reactor.handleStaticFile_ok_cases h
      · exact (saysKeepAlive_new 404).setBody _
      · exact saysKeepAlive_fileResponse path mmap
    | dynamicPath =>
      rw [Reactor.respond_dynamicPath hmode hparse] at h
      unfold Reactor.handleDynamic at h
      split at h
      · obtain rfl := Except.ok.inj h
        exact (saysKeepAlive_new 200).typedBody _ _
      · cases hencoded : env.encoded with
        | error e =>
          rw [hencoded] at h
          cases h
        | ok buffer =>
          rw [hencoded] at h
          obtain rfl := Except.ok.inj h
          exact ((saysKeepAlive_new 200).withHeader (by decide)).typedBody _ _
      · obtain rfl := Except.ok.inj h
        exact (saysKeepAlive_new 200).typedBody _ _
      · obtain rfl := Except.ok.inj h
        exact (saysKeepAlive_new 404).setBody _

end Responses

section Socket

variable {r : Reactor} {listenFd fd : RawFd} {releases : OsError → Bool} {s s' : LoopState}
  {k k' : Kernel} {p q : System} {io : Io} {c : ℕ}

/-- Only a client that hangs up is closed on its own. -/
theorem hangsUp_of_close {rest : List (RawFd × EventFlags)} (h : r.step listenFd s io = some s')
    (hp : s'.point = .close fd rest) : HangsUp fd io := by
  have hnext (events : List (RawFd × EventFlags)) : nextEvent listenFd events ≠ .close fd rest :=
    nextEvent_of (P := fun p => p ≠ .close fd rest) (by simp) (by simp) (by simp) listenFd events
  cases Reactor.step_cases h with
  | readNone _ got hgot =>
    obtain ⟨rfl, -⟩ := Point.close.inj hp
    exact ⟨got, rfl, hgot⟩
  | handled _ env =>
    obtain ⟨m, -, ⟨response, -, he⟩ | ⟨e, -, he⟩ | ⟨-, he⟩ | ⟨-, he⟩⟩ :=
      Reactor.handle_cases r s env _ _ _ <;> rw [he] at hp <;> cases hp
  | waited | acceptFailed | wrote | closed => exact absurd hp (hnext _)
  | _ => cases hp

theorem point_of_closes (h : r.step listenFd s io = some s') (hclose : closes io = some fd) :
    (∃ rest, s.point = .close fd rest) ∨ ¬ Looping s.point := by
  cases Reactor.step_cases h with
  | @closed _ rest hp | @closeFailed _ rest hp =>
    obtain rfl := Option.some.inj hclose
    exact Or.inl ⟨rest, hp⟩
  | dropClose hp => exact Or.inr (by simp [hp, Looping])
  | _ => cases hclose

/-- An open descriptor denotes the same connection until it is closed. -/
theorem connection_step (h : Kernel.step releases k io = some k') (hc : k.connection fd = some c)
    (hclose : closes io ≠ some fd) : k'.connection fd = some c := by
  have hwatch {call : Call} (h : k.watch call = some k') : k'.connection fd = some c := by
    obtain ⟨set, -, rfl⟩ := Kernel.watch_iff.mp h
    exact hc
  cases io with
  | epollAdd => exact hwatch h
  | epollWait waited =>
    cases waited with
    | error e =>
      obtain rfl := Option.some.inj h
      exact hc
    | ok events =>
      obtain ⟨-, h⟩ := Option.ite_none_right_eq_some.mp h
      obtain rfl := Option.some.inj h
      exact hc
  | accept accepted =>
    cases accepted with
    | error e =>
      obtain rfl := Option.some.inj h
      exact hc
    | ok new =>
      obtain ⟨hfree, h⟩ := Option.ite_none_right_eq_some.mp h
      obtain rfl := Option.some.inj h
      refine (Function.update_of_ne ?_ _ _).trans hc
      rintro rfl
      rw [hc] at hfree
      cases hfree
  | close fd' deleted closed =>
    have hne : fd ≠ fd' := fun heq => hclose (heq ▸ rfl)
    exact (Kernel.connection_close_of_ne h hne).trans hc
  | _ =>
    obtain rfl := Option.some.inj h
    exact hc

/-- While the loop runs, the descriptor is registered and its close is not due. -/
def Kept (fd : RawFd) (c : ℕ) (p : System) : Prop :=
  Looping p.1.point → fd ∈ p.1.epoll.keys ∧ p.2.connection fd = some c ∧
    ∀ rest, p.1.point ≠ .close fd rest

theorem kept_step (h : Kept fd c p) (hs : step r listenFd releases p io = some q)
    (hhang : ¬ HangsUp fd io) : Kept fd c q := by
  intro hlooping
  obtain ⟨hloop, hkernel⟩ := sync_iff.mp hs
  have hbefore := Isolation.looping_of_step hloop hlooping
  obtain ⟨hkeys, hconnection, hpoint⟩ := h hbefore
  have hclose : closes io ≠ some fd := by
    intro hclose
    obtain ⟨rest, hp⟩ | hleft := point_of_closes hloop hclose
    · exact hpoint rest hp
    · exact hleft hbefore
  refine ⟨Resilience.keys_of_step hloop fd hkeys hclose,
    connection_step hkernel hconnection hclose, fun rest hp => ?_⟩
  exact hhang (hangsUp_of_close hloop hp)

theorem stays_of_kept (h : Kept fd c p) : Stays r listenFd releases fd p := by
  refine ⟨c, fun t q hrun hquiet hlooping => ?_⟩
  have hquiet' := (along_label_iff (C := fun io => ¬ HangsUp fd io) hrun).mpr hquiet
  have hkept := run_invariant (I := Kept fd c) (fun _ _ _ h hs hhang => kept_step h hs hhang) h
    hquiet' hrun
  obtain ⟨hkeys, hconnection, -⟩ := hkept hlooping
  exact ⟨hkeys, hconnection⟩

/-- After a successful write the loop goes on to the next event, and nothing else has
changed. -/
theorem stays_of_write {q' : System} {response : HttpResponse} {rest : List (RawFd × EventFlags)}
    {order : List (Str × Str)} {n : ℕ} (hinv : Invariant listenFd q)
    (hp : q.1.point = .write fd response rest)
    (hs : step r listenFd releases q (.write fd response order (.ok n)) = some q') :
    Stays r listenFd releases fd q' := by
  have hkeys : fd ∈ q.1.epoll.keys :=
    hinv.fresh.registered fd (by rw [hp]; exact List.mem_cons_self)
  obtain ⟨c, hc⟩ := Option.ne_none_iff_exists'.mp (hinv.opened fd hkeys)
  refine stays_of_kept (c := c) fun _ => ?_
  obtain ⟨hloop, hkernel⟩ := sync_iff.mp hs
  have hclose : closes (.write fd response order (.ok n)) ≠ some fd := by simp [closes]
  refine ⟨Resilience.keys_of_step hloop fd hkeys hclose, connection_step hkernel hc hclose, ?_⟩
  intro rest' hp'
  obtain ⟨got, heq, -⟩ := hangsUp_of_close hloop hp'
  cases heq

end Socket

section Exactness

variable {r : Reactor} {listenFd fd : RawFd} {releases : OsError → Bool} {p q : System} {io : Io}
  {req : HttpRequest} {response : HttpResponse} {rest : List (RawFd × EventFlags)}

theorem point_of_serve {s s' : LoopState} {buf : Bytes} {env : Surroundings}
    (h : r.step listenFd s (.serve fd buf env) = some s') :
    ∃ rest, s' = r.handle s env fd buf rest := by
  cases Reactor.step_cases h with
  | handled => exact ⟨_, rfl⟩

theorem respond_of_answers (hs : step r listenFd releases p io = some q)
    (h : Answers r io q req fd response rest) : ∃ buf env m, io = .serve fd buf env ∧
      HttpRequest.parse r.httparse buf = .ok req ∧ r.respond env m buf = .ok response := by
  obtain ⟨buf, env, rfl, hparse, hp⟩ := h
  obtain ⟨rest', hq⟩ := point_of_serve (sync_iff.mp hs).1
  rw [hq] at hp
  obtain ⟨m, -, ⟨response', hresp, he⟩ | ⟨e, -, he⟩ | ⟨-, he⟩ | ⟨-, he⟩⟩ :=
    Reactor.handle_cases r p.1 env fd buf rest'
  · rw [he] at hp
    obtain ⟨-, rfl, -⟩ := Point.write.inj hp
    exact ⟨buf, env, m, rfl, hparse, hresp⟩
  · rw [he] at hp
    cases hp
  · rw [he] at hp
    cases hp
  · rw [he] at hp
    cases hp

/-- A step honours its request exactly when keep-alive is what it asks for. -/
theorem honoured_iff (hinv : Invariant listenFd q) (hs : step r listenFd releases p io = some q) :
    Honoured r listenFd releases p io q ↔ AsksKeepAlive r io := by
  constructor
  · intro h
    cases io with
    | serve fd buf env =>
      intro req hparse hservable
      obtain ⟨rest, hq⟩ := point_of_serve (sync_iff.mp hs).1
      obtain ⟨response, hp, -⟩ := Resilience.handle_point_of_servable hservable
      have ha : Answers r (.serve fd buf env) q req fd response rest :=
        ⟨buf, env, rfl, hparse, hq ▸ hp⟩
      by_contra hclose
      obtain ⟨_, _, m, _, _, hresp⟩ := respond_of_answers hs ha
      exact (h.closed req fd response rest ha (Bool.eq_false_iff.mpr hclose)).1
        (saysKeepAlive_of_respond hresp)
    | _ => trivial
  · intro h
    have hasks (req fd response rest) (ha : Answers r io q req fd response rest) :
        req.isKeepAlive = true ∧ SaysKeepAlive response := by
      obtain ⟨buf, env, m, rfl, hparse, hresp⟩ := respond_of_answers hs ha
      exact ⟨h req hparse (Resilience.respond_ok_iff.mp ⟨response, hresp⟩),
        saysKeepAlive_of_respond hresp⟩
    constructor
    · intro req fd response rest ha hclose
      exact absurd (hasks req fd response rest ha).1 (Bool.eq_false_iff.mp hclose)
    · intro req fd response rest ha _
      refine ⟨(hasks req fd response rest ha).2, fun order n q' hs' => ?_⟩
      obtain ⟨buf, env, -, -, hp⟩ := ha
      exact stays_of_write hinv hp hs'

end Exactness

/-- In every run of `event_loop` all requests have their connections kept or closed as they
ask exactly when those that get a response ask for keep-alive. -/
theorem persistence_honoured_iff (r : Reactor) (listenFd epollFd : RawFd)
    (releases : OsError → Bool) (opened : Finset RawFd) (hopen : listenFd ∈ opened)
    (t : List Io) :
    Along (step r listenFd releases) (Honoured r listenFd releases)
        (.enter epollFd, .start opened) t ↔
      Along (step r listenFd releases) (fun _ io _ => AsksKeepAlive r io)
        (.enter epollFd, .start opened) t := by
  refine along_iff_of_exact (I := Invariant listenFd) ?_ ?_ (invariant_enter hopen epollFd)
  · intro p io q hinv hs hasks
    have hinv' := invariant_step hinv hs
    exact ⟨hinv', (honoured_iff hinv' hs).mpr hasks⟩
  · intro p io q hinv hs hhonoured
    exact (honoured_iff (invariant_step hinv hs) hs).mp hhonoured

/-- A client connects as descriptor 5 and sends a request. -/
def asks (request : Bytes) : List Io :=
  [.epollAdd 3 EPOLLIN (.ok ()), .load true, .epollWait (.ok [(3, EPOLLIN)]), .accept (.ok 5),
    .epollAdd 5 (EPOLLIN ||| EPOLLET) (.ok ()), .accept (.error "EAGAIN".toList),
    .load true, .epollWait (.ok [(5, EPOLLIN)])] ++ [.read 5 (.ok request)]

def asked (request : Bytes) : LoopState where
  point := .handle 5 request []
  epoll := ((⟨4, 1024, ∅⟩ : EpollBackend).insert 3).insert 5
  metrics := ⟨0, 0⟩

theorem asks_run (request : Bytes) (hpos : request ≠ []) (hlen : request.length ≤ readLen) :
    ∃ k, run (step Reactor.stock 3 fun _ => true) (.enter 4, .start {3, 4}) (asks request) =
      some (asked request, k) :=
  ⟨_, run_concat_iff.mpr ⟨(⟨.read 5 [], _, _⟩, _), rfl,
    sync_iff.mpr ⟨Reactor.step_readSome rfl hpos hlen, rfl⟩⟩⟩

/-- Without files the fast path answers with a 404. -/
theorem serve_missing {request : Bytes} {req : HttpRequest} (k : Kernel) (path : Str)
    (hparse : HttpRequest.parse referenceHttparse request = .ok req)
    (hpath : Reactor.stock.staticPath req = some path)
    (hmissing : quietSurroundings.fs.exist path = false) :
    step Reactor.stock 3 (fun _ => true) (asked request, k) (.serve 5 request quietSurroundings) =
      some ({ asked request with
        point := .write 5 HttpResponse.notFound []
        metrics := ⟨1, 0⟩ }, k) := by
  refine sync_iff.mpr ⟨Reactor.step_served rfl ?_, rfl⟩
  rw [Reactor.respond_fastPath rfl hparse, Reactor.handleStaticFile_missing hpath hmissing]

def keptRequest : RequestText := .get "/kept.html".toList (by decide) (by decide)

theorem kept_request_honoured :
    (∃ q, run (step Reactor.stock 3 fun _ => true) (.enter 4, .start {3, 4})
      (asks keptRequest.render ++ [.serve 5 keptRequest.render quietSurroundings]) = some q) ∧
    Along (step Reactor.stock 3 fun _ => true) (Honoured Reactor.stock 3 fun _ => true)
      (.enter 4, .start {3, 4})
      (asks keptRequest.render ++ [.serve 5 keptRequest.render quietSurroundings]) := by
  have hparse := HttpRequest.parse_render referenceHttparse_canonical keptRequest (by decide)
  constructor
  · obtain ⟨k, hrun⟩ := asks_run keptRequest.render (by decide) (by decide)
    have hserve := serve_missing k "./static/kept.html".toList hparse rfl rfl
    exact ⟨_, run_concat_iff.mpr ⟨_, hrun, hserve⟩⟩
  · refine (persistence_honoured_iff Reactor.stock 3 4 (fun _ => true) {3, 4} (by decide) _).mpr
      (along_of_forall_mem fun io hio _ _ _ => ?_)
    have hasks : ∀ io ∈ asks keptRequest.render, AsksKeepAlive Reactor.stock io := by
      simp [asks, AsksKeepAlive]
    obtain hio | hio := List.mem_append.mp hio
    · exact hasks io hio
    · obtain rfl := List.mem_singleton.mp hio
      intro req hreq _
      obtain rfl := Except.ok.inj (hparse.symm.trans hreq)
      rfl

def closeRequest : RequestText :=
  .post "/bye".toList true [("Connection".toList, "close".toList)] []
    (by decide) (by decide) (by decide)

/-- The client asks for its connection to be closed, and is told that it is kept. -/
theorem close_request_kept_open :
    ¬ Along (step Reactor.stock 3 fun _ => true) (Honoured Reactor.stock 3 fun _ => true)
      (.enter 4, .start {3, 4})
      (asks closeRequest.render ++ [.serve 5 closeRequest.render quietSurroundings]) := by
  intro h
  have hparse := HttpRequest.parse_render referenceHttparse_canonical closeRequest (by decide)
  obtain ⟨k, hrun⟩ := asks_run closeRequest.render (by decide) (by decide)
  have hserve := serve_missing k "./static/bye".toList hparse rfl rfl
  have hlast : (KeepAlive.connectionValues closeRequest.raw).getLast? = some "close".toList := by
    decide
  refine ((h.at_step hrun hserve).closed _ 5 HttpResponse.notFound [] ⟨_, _, rfl, hparse, rfl⟩
    (Bool.eq_false_iff.mpr ?_)).1 ((saysKeepAlive_new 404).setBody _)
  exact (KeepAlive.isKeepAlive_iff_of_last rfl hlast).not.mpr (by decide)

end KernelEngine.Persistence
