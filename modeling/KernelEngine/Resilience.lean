import KernelEngine.Worker.EventLoop

namespace KernelEngine.Resilience
open Rust File Http Net Worker Runs

/-- The loop has given up: it is on its way out with an error, or it came to a bad end. -/
def Failed : Point → Prop
  | .drop _ result => ∃ e, result = .error e
  | .returned result => ∃ e, result = .error e
  | .panicked => True
  | .killed => True
  | _ => False

/-- The descriptor a call closes. -/
def closes : Io → Option RawFd
  | .close fd _ _ => some fd
  | _ => none

/-- The request in the buffer can be answered in these surroundings: it is refused
by the parser, or its file is absent or can be mapped and copied, or its metrics encode. -/
def Servable (r : Reactor) (env : Surroundings) (buf : Bytes) : Prop :=
  ∀ req, HttpRequest.parse r.httparse buf = .ok req → match r.config.mode with
    | .fastPath => ∃ path, r.staticPath req = some path ∧
        (env.fs.exist path = true → Mappable env.fs path ∧ Backed env.fs path)
    | .dynamicPath => Reactor.endpoint req = some .metrics → ∃ text, env.encoded = .ok text

/-- The condition on one call: registering, writing and closing succeed, and the
request at hand can be answered. Failing to accept or to read is harmless. -/
def Tolerable (r : Reactor) (s : LoopState) (io : Io) : Prop :=
  match s.point, io with
  | .addListener, .epollAdd _ _ added => added = .ok ()
  | .addClient _ _, .epollAdd _ _ added => added = .ok ()
  | .handle _ buf _, .serve _ _ env => Servable r env buf
  | .write _ _ _, .write _ _ _ took => ∃ n, took = .ok n
  | .close _ _, .close _ deleted closed => deleted = .ok () ∧ closed = .ok ()
  | _, _ => True

/-- One step keeps a failure inside its connection: the loop goes on, every other
connection stays registered, a request is answered (with 400 where it does not
parse), a connection without data is closed, and a failed accept is passed over. -/
structure Survives (r : Reactor) (listenFd : RawFd) (s : LoopState) (io : Io) (s' : LoopState) :
    Prop where
  alive : ¬ Failed s'.point
  others : ∀ fd ∈ s.epoll.keys, closes io ≠ some fd → fd ∈ s'.epoll.keys
  answered : ∀ fd buf rest, s.point = .handle fd buf rest → ∃ response,
    s'.point = .write fd response rest ∧
      ((∃ e, HttpRequest.parse r.httparse buf = .error e) → response.statusCode = 400)
  dismissed : ∀ fd rest got, s.point = .read fd rest → io = .read fd got →
    (∀ buf, got = .ok buf → buf = []) → s'.point = .close fd rest
  passed : ∀ rest e, s.point = .accept rest → io = .accept (.error e) →
    s'.point = nextEvent listenFd rest

theorem respond_ok_iff {r : Reactor} {env : Surroundings} {m : Metrics} {buf : Bytes} :
    (∃ response, r.respond env m buf = .ok response) ↔ Servable r env buf := by
  unfold Servable
  cases hparse : HttpRequest.parse r.httparse buf with
  | error e => simp [Reactor.respond_refused hparse]
  | ok req =>
    simp only [Except.ok.injEq, forall_eq']
    cases hmode : r.config.mode with
    | fastPath =>
      rw [Reactor.respond_fastPath hmode hparse]
      constructor
      · rintro ⟨response, h⟩
        obtain ⟨path, hpath, ⟨he, -⟩ | ⟨-, mmap, hm, hback, -⟩⟩ :=
          Reactor.handleStaticFile_ok_cases h
        · exact ⟨path, hpath, fun h => absurd (he.symm.trans h) (by decide)⟩
        · exact ⟨path, hpath, fun _ =>
            ⟨mmapFile_new_ok_iff.mp ⟨mmap, hm⟩, (mmapFile_backed_iff hm).mp hback⟩⟩
      · rintro ⟨path, hpath, h⟩
        cases he : env.fs.exist path with
        | false => exact ⟨_, Reactor.handleStaticFile_missing hpath he⟩
        | true =>
          obtain ⟨hmap, hback⟩ := h he
          obtain ⟨mmap, hm⟩ := mmapFile_new_ok_iff.mpr hmap
          exact ⟨_, Reactor.handleStaticFile_mapped hpath he hm
            ((mmapFile_backed_iff hm).mpr hback)⟩
    | dynamicPath =>
      rw [Reactor.respond_dynamicPath hmode hparse]
      unfold Reactor.handleDynamic
      cases hend : Reactor.endpoint req with
      | none => simp
      | some ep =>
        cases ep with
        | health => simp
        | stats => simp
        | metrics => cases henc : env.encoded <;> simp

theorem not_failed_nextEvent (listenFd : RawFd) (events : List (RawFd × EventFlags)) :
    ¬ Failed (nextEvent listenFd events) :=
  nextEvent_of (P := fun p => ¬ Failed p) id (fun _ => id) (fun _ _ => id) listenFd events

theorem keys_insert_of_mem {ep : EpollBackend} {fd fd' : RawFd} (h : fd ∈ ep.keys) :
    fd ∈ (ep.insert fd').keys := EpollBackend.mem_keys_insert.mpr (Or.inr h)

theorem keys_close_of_mem {ep : EpollBackend} {fd fd' : RawFd}
    {deleted closed : Except OsError Unit} (h : fd ∈ ep.keys) (hne : fd' ≠ fd) :
    fd ∈ (ep.close fd' deleted closed).1.keys := by
  cases deleted with
  | error e => exact h
  | ok => exact EpollBackend.mem_keys_erase.mpr ⟨hne.symm, h⟩

variable {r : Reactor} {listenFd : RawFd} {s s' : LoopState} {io : Io}

/-- No step but a close takes a descriptor out of the map. -/
theorem keys_of_step (h : r.step listenFd s io = some s') (fd : RawFd) (hfd : fd ∈ s.epoll.keys)
    (hclose : closes io ≠ some fd) : fd ∈ s'.epoll.keys := by
  cases Reactor.step_cases h with
  | addListener | addClient => exact keys_insert_of_mem hfd
  | handled => rwa [Reactor.handle_epoll]
  | closed => exact EpollBackend.mem_keys_erase.mpr ⟨fun he => hclose (he ▸ rfl), hfd⟩
  | closeFailed | dropClose => exact keys_close_of_mem hfd fun he => hclose (he ▸ rfl)
  | _ => exact hfd

/-- A request that can be answered leaves the loop at writing its answer. -/
theorem handle_point_of_servable {env : Surroundings} {fd : RawFd} {buf : Bytes}
    {rest : List (RawFd × EventFlags)} (h : Servable r env buf) :
    ∃ response, (r.handle s env fd buf rest).point = .write fd response rest ∧
      ((∃ e, HttpRequest.parse r.httparse buf = .error e) → response.statusCode = 400) := by
  obtain ⟨m, -, ⟨response, hr, hh⟩ | hnone⟩ := Reactor.handle_cases r s env fd buf rest
  · refine ⟨response, by rw [hh], ?_⟩
    rintro ⟨e, he⟩
    rw [Reactor.respond_refused he] at hr
    obtain rfl := Except.ok.inj hr
    rfl
  · obtain ⟨response, hr'⟩ := (respond_ok_iff (m := m)).mpr h
    obtain ⟨e, hr, -⟩ | ⟨hr, -⟩ | ⟨hr, -⟩ := hnone <;>
      exact absurd (hr.symm.trans hr') (by simp)

theorem servable_of_handle_point {env : Surroundings} {fd : RawFd} {buf : Bytes}
    {rest : List (RawFd × EventFlags)} (h : ¬ Failed (r.handle s env fd buf rest).point) :
    Servable r env buf := by
  obtain ⟨m, -, ⟨response, hr, -⟩ | ⟨e, -, hh⟩ | ⟨-, hh⟩ | ⟨-, hh⟩⟩ :=
    Reactor.handle_cases r s env fd buf rest
  · exact respond_ok_iff.mp ⟨response, hr⟩
  · rw [hh] at h
    exact absurd ⟨e, rfl⟩ h
  · rw [hh] at h
    exact absurd trivial h
  · rw [hh] at h
    exact absurd trivial h

/-- A tolerable step does not make the loop give up. -/
theorem alive_of_tolerable (hlive : ¬ Failed s.point) (hwait : ∀ e, io ≠ .epollWait (.error e))
    (h : r.step listenFd s io = some s') (ht : Tolerable r s io) : ¬ Failed s'.point := by
  cases Reactor.step_cases h with
  | addListener | goOn | accepted | addClient | readSome | readNone => exact id
  | stop => exact fun ⟨e, he⟩ => absurd he (by simp)
  | addListenerFailed hp | addClientFailed hp | writeFailed hp => simp [Tolerable, hp] at ht
  | waited | acceptFailed | wrote | closed => exact not_failed_nextEvent _ _
  | waitFailed hp e => exact absurd rfl (hwait e)
  | @handled fd buf rest hp env =>
    have hserve : Servable r env buf := by simpa only [Tolerable, hp] using ht
    obtain ⟨response, hpoint, -⟩ := handle_point_of_servable (s := s) hserve
    rw [hpoint]
    exact id
  | closeFailed hp deleted closed hfail =>
    simp only [Tolerable, hp] at ht
    exact absurd ht (not_and_or.mpr hfail)
  | dropClose hp | dropEpoll hp =>
    rw [hp] at hlive
    exact hlive

theorem survives_of_tolerable (hlive : ¬ Failed s.point) (hwait : ∀ e, io ≠ .epollWait (.error e))
    (h : r.step listenFd s io = some s') (ht : Tolerable r s io) :
    Survives r listenFd s io s' where
  alive := alive_of_tolerable hlive hwait h ht
  others := keys_of_step h
  answered fd buf rest hp := by
    cases Reactor.step_cases h with
    | handled hp' env =>
      obtain ⟨rfl, rfl, rfl⟩ := Point.handle.inj (hp.symm.trans hp')
      exact handle_point_of_servable (by simpa only [Tolerable, hp] using ht)
    | _ => simp_all
  dismissed fd rest got hp hio hgot := by
    cases Reactor.step_cases h with
    | readSome hp' buf hpos =>
      obtain ⟨-, rfl⟩ := Io.read.inj hio
      exact absurd (hgot buf rfl) hpos
    | readNone hp' =>
      obtain ⟨rfl, rfl⟩ := Point.read.inj (hp.symm.trans hp')
      rfl
    | _ => simp_all
  passed rest e hp hio := by
    cases Reactor.step_cases h with
    | acceptFailed hp' =>
      obtain rfl := Point.accept.inj (hp.symm.trans hp')
      rfl
    | _ => simp_all

/-- Where a call is not tolerable the loop gives up. -/
theorem tolerable_of_alive (h : r.step listenFd s io = some s') (hs' : ¬ Failed s'.point) :
    Tolerable r s io ∧ ∀ e, io ≠ .epollWait (.error e) := by
  cases Reactor.step_cases h with
  | addListenerFailed | waitFailed | addClientFailed | writeFailed | closeFailed =>
    exact absurd ⟨_, rfl⟩ hs'
  | addListener hp | addClient hp | closed hp => simp [Tolerable, hp]
  | wrote hp order horder n => simp [Tolerable, hp]
  | handled hp env =>
    simpa only [Tolerable, hp, ne_eq, reduceCtorEq, not_false_eq_true, implies_true, and_true]
      using servable_of_handle_point hs'
  | goOn hp | stop hp | waited hp | accepted hp | acceptFailed hp | readSome hp | readNone hp
  | dropClose hp | dropEpoll hp => simp [Tolerable, hp]

/-- A call that succeeds where it has to, wherever the loop makes it. -/
def Harmless (r : Reactor) : Io → Prop
  | .epollAdd _ _ added => added = .ok ()
  | .serve _ buf env => Servable r env buf
  | .write _ _ _ took => ∃ n, took = .ok n
  | .close _ deleted closed => deleted = .ok () ∧ closed = .ok ()
  | _ => True

theorem tolerable_of_harmless (h : r.step listenFd s io = some s') (hio : Harmless r io) :
    Tolerable r s io := by
  unfold Tolerable
  split
  case h_3 fd buf rest fd' buf' env hp =>
    cases Reactor.step_cases h with
    | handled hp' =>
      obtain ⟨-, rfl, -⟩ := Point.handle.inj (hp.symm.trans hp')
      exact hio
  all_goals first | exact hio | trivial

/-- With `epoll_wait` answering, the loop contains every failure of a run exactly
when each call of the run is tolerable. -/
theorem event_loop_survives_iff (r : Reactor) (listenFd : RawFd) (s : LoopState) (t : List Io)
    (hlive : ¬ Failed s.point) (hwait : ∀ e, Io.epollWait (.error e) ∉ t) :
    Along (r.step listenFd) (Survives r listenFd) s t ↔
      Along (r.step listenFd) (fun s io _ => Tolerable r s io) s t := by
  have hiff : Along (r.step listenFd) (Survives r listenFd) s t ↔ Along (r.step listenFd)
      (fun s io _ => Tolerable r s io ∧ ∀ e, io ≠ .epollWait (.error e)) s t :=
    along_iff_of_exact (I := fun s => ¬ Failed s.point)
    (fun s io s' hI hs hP => ⟨alive_of_tolerable hI hP.2 hs hP.1,
      survives_of_tolerable hI hP.2 hs hP.1⟩)
    (fun s io s' _ hs hQ => tolerable_of_alive hs hQ.alive) hlive
  -- that `epoll_wait` answers is given for the whole trace
  rw [hiff, along_and_iff, and_iff_left]
  apply along_of_forall_mem
  rintro io hmem _ _ - e rfl
  exact hwait e hmem

def emptyFileSurroundings : Surroundings where
  fs := onlyFile "./static/empty.txt".toList []
  encoded := .ok []

def missingRequest : RequestText := .get "/missing.txt".toList (by decide) (by decide)

/-- Three clients connect. The first breaks off, the second sends a byte that is no request,
and the third asks for a file that is not there. -/
def threeClients : List Io :=
  [.load true, .epollWait (.ok [(3, EPOLLIN)]),
    .accept (.ok 5), .epollAdd 5 (EPOLLIN ||| EPOLLET) (.ok ()),
    .accept (.ok 6), .epollAdd 6 (EPOLLIN ||| EPOLLET) (.ok ()),
    .accept (.ok 7), .epollAdd 7 (EPOLLIN ||| EPOLLET) (.ok ()),
    .accept (.error "EAGAIN".toList),
    .load true, .epollWait (.ok [(5, EPOLLIN), (6, EPOLLIN), (7, EPOLLIN)]),
    .read 5 (.error "ECONNRESET".toList), .close 5 (.ok ()) (.ok ()),
    .read 6 (.ok [0x78]), .serve 6 [0x78] emptyFileSurroundings]

def answers : List Io :=
  [.write 6 HttpResponse.badRequest HttpResponse.badRequest.fields (.ok 117),
    .read 7 (.ok missingRequest.render), .serve 7 missingRequest.render emptyFileSurroundings,
    .write 7 HttpResponse.notFound HttpResponse.notFound.fields (.ok 113)]

theorem missing_respond (m : Metrics) : Reactor.stock.respond emptyFileSurroundings m
    missingRequest.render = .ok HttpResponse.notFound := by
  have hparse := HttpRequest.parse_render referenceHttparse_canonical missingRequest (by decide)
  rw [Reactor.respond_fastPath rfl hparse]
  exact @Reactor.handleStaticFile_missing _ _ _ "./static/missing.txt".toList rfl (by decide)

/-- The second and the third are answered and stay connected. -/
theorem answers_run : ∃ s', run (Reactor.stock.step 3) (.listening 3 4) (threeClients ++ answers) =
    some s' ∧ s'.point = .top ∧ s'.epoll.keys = [7, 6, 3] := by
  let epoll : EpollBackend := (((⟨4, 1024, ∅⟩ : EpollBackend).insert 3).insert 6).insert 7
  have hrefused : run (Reactor.stock.step 3) (.listening 3 4) threeClients =
      some ⟨.write 6 HttpResponse.badRequest [(7, EPOLLIN)], epoll, ⟨1, 0⟩⟩ := rfl
  refine ⟨_, run_append_iff.mpr ⟨_, hrefused, run_cons_iff.mpr ⟨_,
    Reactor.step_wrote rfl (.refl _) 117, run_append_iff.mpr ⟨_,
      Reactor.run_answered rfl (by decide) (by decide) (missing_respond _),
      run_cons_iff.mpr ⟨_, Reactor.step_wrote rfl (.refl _) 113, rfl⟩⟩⟩⟩, rfl, rfl⟩

theorem answers_survive : (∃ s', run (Reactor.stock.step 3) (.listening 3 4)
      (threeClients ++ answers) = some s' ∧ s'.point = .top ∧ s'.epoll.keys = [7, 6, 3]) ∧
    Along (Reactor.stock.step 3) (Survives Reactor.stock 3) (.listening 3 4)
      (threeClients ++ answers) := by
  have hrefused : Servable Reactor.stock emptyFileSurroundings [0x78] :=
    respond_ok_iff.mp ⟨HttpResponse.badRequest, Reactor.respond_refused (m := ⟨1, 0⟩) rfl⟩
  have hmissing : Servable Reactor.stock emptyFileSurroundings missingRequest.render :=
    respond_ok_iff.mp ⟨HttpResponse.notFound, missing_respond ⟨2, 117⟩⟩
  have hharmless : ∀ io ∈ threeClients ++ answers, Harmless Reactor.stock io := by
    simp [threeClients, answers, Harmless, hrefused, hmissing]
  exact ⟨answers_run, (event_loop_survives_iff Reactor.stock 3 _ _ id
    (by simp [threeClients, answers])).mpr
    (along_of_forall_mem fun io hio s s' hs => tolerable_of_harmless hs (hharmless io hio))⟩

/-- A client connects as descriptor 5 and asks for the given target. -/
def clientAsks (request : Bytes) : List Io :=
  [.load true, .epollWait (.ok [(3, EPOLLIN)]), .accept (.ok 5),
    .epollAdd 5 (EPOLLIN ||| EPOLLET) (.ok ()), .accept (.error "EAGAIN".toList),
    .load true, .epollWait (.ok [(5, EPOLLIN)]), .read 5 (.ok request)]

def emptyFileRequest : RequestText := .get "/empty.txt".toList (by decide) (by decide)

/-- Asking for an empty file makes the loop give up on every connection. -/
theorem empty_file_ends_loop :
    (∀ e, Io.epollWait (.error e) ∉ clientAsks emptyFileRequest.render ++
      [.serve 5 emptyFileRequest.render emptyFileSurroundings]) ∧
    ¬ Along (Reactor.stock.step 3) (Survives Reactor.stock 3) (.listening 3 4)
      (clientAsks emptyFileRequest.render ++
        [.serve 5 emptyFileRequest.render emptyFileSurroundings]) := by
  refine ⟨by simp [clientAsks], fun h => ?_⟩
  have hrun : run (Reactor.stock.step 3) (.listening 3 4) (clientAsks emptyFileRequest.render) =
      some ⟨.handle 5 emptyFileRequest.render [],
        ((⟨4, 1024, ∅⟩ : EpollBackend).insert 3).insert 5, ⟨0, 0⟩⟩ := rfl
  have hserve := h.at_step hrun rfl
  have hparse := HttpRequest.parse_render referenceHttparse_canonical emptyFileRequest (by decide)
  have hservable : Servable Reactor.stock emptyFileSurroundings emptyFileRequest.render :=
    servable_of_handle_point hserve.alive
  obtain ⟨path, hpath, hmap⟩ := hservable _ hparse
  obtain rfl : "./static/empty.txt".toList = path := Option.some.inj hpath
  obtain ⟨⟨file, len, data, hopen, hlen, hne, -⟩, -⟩ := hmap rfl
  obtain rfl : regular [] = file := Except.ok.inj hopen
  exact hne (Except.ok.inj hlen).symm

end KernelEngine.Resilience
