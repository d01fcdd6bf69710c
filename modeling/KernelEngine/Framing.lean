import KernelEngine.Questions
import KernelEngine.Worker.EventLoop

namespace KernelEngine.Framing
open Rust File Http Net Worker Runs Questions

/-- The buffers the loop read, the requests it handled and the responses it wrote. -/
def readsOf : Io → List Bytes
  | .read _ (.ok buf) => if buf = [] then [] else [buf]
  | _ => []

def servesOf : Io → List Bytes
  | .serve _ buf _ => [buf]
  | _ => []

def repliesOf : Io → List HttpResponse
  | .write _ response _ _ => [response]
  | _ => []

def reads (t : List Io) : List Bytes := t.flatMap readsOf

def serves (t : List Io) : List Bytes := t.flatMap servesOf

def replies (t : List Io) : List HttpResponse := t.flatMap repliesOf

/-- The surroundings stay what they are. -/
def Steady (env : Surroundings) : Io → Prop
  | .serve _ _ env' => env' = env
  | _ => True

/-- Only the one client is read from. -/
def FromClient (client : RawFd) : Io → Prop
  | .read fd _ => fd = client
  | _ => True

/-- A run of `event_loop` that reads the chunks from one client and is at its top again. -/
structure Stream (r : Reactor) (env : Surroundings) (chunks : List Bytes)
    (listenFd epollFd client : RawFd) (t : List Io) : Prop where
  ends : ∃ s, run (r.step listenFd) (.enter epollFd) t = some s ∧ s.point = .top
  chunks : reads t = chunks
  client : ∀ io ∈ t, FromClient client io
  steady : ∀ io ∈ t, Steady env io

/-- The loop can read the chunks, and then it has written these responses. -/
def Produces (r : Reactor) (env : Surroundings) (chunks : List Bytes)
    (responses : List HttpResponse) : Prop :=
  (∃ listenFd epollFd client t, Stream r env chunks listenFd epollFd client t) ∧
    ∀ listenFd epollFd client t, Stream r env chunks listenFd epollFd client t →
      replies t = responses

/-- The stream of the requests cut into what single reads bring. -/
structure Cut (requests chunks : List Bytes) : Prop where
  whole : chunks.flatten = requests.flatten
  pieces : ∀ c ∈ chunks, c ≠ [] ∧ c.length ≤ readLen

/-- Read in these chunks, the requests get the responses they would get alone. -/
def Framed (r : Reactor) (requests chunks : List Bytes) : Prop :=
  ∀ env responses m, serveAll r env ⟨0, 0⟩ requests = some (responses, m) →
    Produces r env chunks responses

/-- The target begins with an ASCII character other than `?`, as every target of HTTP. -/
def Targeted (r : Reactor) (buf : Bytes) : Prop :=
  ∀ req, HttpRequest.parse r.httparse buf = .ok req →
    ∃ c path, req.path = c :: path ∧ c ≠ '?' ∧ c.utf8Size = 1

section Runs

variable {r : Reactor} {env : Surroundings} {listenFd epollFd client : RawFd} {s s' : LoopState}
  {io : Io} {t : List Io}

theorem reads_append (t u : List Io) : reads (t ++ u) = reads t ++ reads u :=
  List.flatMap_append

theorem reads_concat (t : List Io) (io : Io) : reads (t ++ [io]) = reads t ++ readsOf io := by
  simp [reads]

theorem serves_concat (t : List Io) (io : Io) : serves (t ++ [io]) = serves t ++ servesOf io := by
  simp [serves]

theorem replies_concat (t : List Io) (io : Io) :
    replies (t ++ [io]) = replies t ++ repliesOf io := by
  simp [replies]

/-- Every request read so far has been served and its response written. -/
def Settled (r : Reactor) (env : Surroundings) (t : List Io) (m : Metrics) : Prop :=
  reads t = serves t ∧ serveAll r env ⟨0, 0⟩ (serves t) = some (replies t, m)

/-- What is still owed at each place of the loop. -/
def Owed (r : Reactor) (env : Surroundings) (t : List Io) (s : LoopState) : Prop :=
  match s.point with
  | .handle _ buf _ => reads t = serves t ++ [buf] ∧
      serveAll r env ⟨0, 0⟩ (serves t) = some (replies t, s.metrics)
  | .write _ response _ => reads t = serves t ∧
      serveAll r env ⟨0, 0⟩ (serves t) = some (replies t ++ [response],
        { s.metrics with bytesSent := incBy s.metrics.bytesSent response.size })
  | .drop _ _ => True
  | .returned _ => True
  | .panicked => True
  | .killed => True
  | _ => Settled r env t s.metrics

/-- Calls that bring, serve and answer nothing. -/
theorem settled_silent {m : Metrics} (h : Settled r env t m) (hread : readsOf io = [])
    (hserve : servesOf io = []) (hreply : repliesOf io = []) : Settled r env (t ++ [io]) m := by
  unfold Settled
  rwa [reads_concat, serves_concat, replies_concat, hread, hserve, hreply, List.append_nil,
    List.append_nil, List.append_nil]

theorem owed_nextEvent {epoll : EpollBackend} {m : Metrics} (events : List (RawFd × EventFlags))
    (h : Settled r env t m) : Owed r env t ⟨nextEvent listenFd events, epoll, m⟩ :=
  nextEvent_of (P := fun p => Owed r env t ⟨p, epoll, m⟩) h (fun _ => h) (fun _ _ => h)
    listenFd events

/-- A request that is read is served next. -/
theorem owed_read {fd : RawFd} {buf : Bytes} (h : Settled r env t s.metrics) (hpos : buf ≠ [])
    (rest : List (RawFd × EventFlags)) :
    Owed r env (t ++ [.read fd (.ok buf)]) { s with point := .handle fd buf rest } := by
  obtain ⟨hreads, hall⟩ := h
  constructor
  · simp only [reads_concat, serves_concat, hreads, readsOf, if_neg hpos, servesOf,
      List.append_nil]
  · simpa only [serves_concat, replies_concat, servesOf, repliesOf, List.append_nil] using hall

theorem owed_handle {fd : RawFd} {buf : Bytes} {rest : List (RawFd × EventFlags)}
    (hreads : reads t = serves t ++ [buf])
    (hall : serveAll r env ⟨0, 0⟩ (serves t) = some (replies t, s.metrics)) :
    Owed r env (t ++ [.serve fd buf env]) (r.handle s env fd buf rest) := by
  obtain ⟨m, rfl, ⟨response, hok, h⟩ | ⟨e, -, h⟩ | ⟨-, h⟩ | ⟨-, h⟩⟩ :=
    Reactor.handle_cases r s env fd buf rest
  · rw [h]
    have hone : serveOne r env s.metrics buf = some (response, ⟨incBy s.metrics.requestsTotal 1,
        incBy s.metrics.bytesSent response.size⟩) :=
      serveOne_eq_some.mpr ⟨hok, rfl⟩
    constructor
    · simp only [reads_concat, serves_concat, hreads, readsOf, servesOf, List.append_nil]
    · simp only [serves_concat, replies_concat, servesOf, repliesOf, List.append_nil]
      exact serveAll_concat hall hone
  · rw [h]
    trivial
  · rw [h]
    trivial
  · rw [h]
    trivial

theorem settled_write {m : Metrics} {fd : RawFd} {response : HttpResponse} {n : ℕ}
    {order : List (Str × Str)} (horder : order.Perm response.fields) (hreads : reads t = serves t)
    (hall : serveAll r env ⟨0, 0⟩ (serves t) = some (replies t ++ [response],
      { m with bytesSent := incBy m.bytesSent response.size })) :
    Settled r env (t ++ [.write fd response order (.ok n)])
      { m with bytesSent := incBy m.bytesSent (response.toBytes order).length } := by
  constructor
  · simp only [reads_concat, serves_concat, hreads, readsOf, servesOf]
  · simpa only [serves_concat, replies_concat, servesOf, repliesOf, List.append_nil,
      HttpResponse.toBytes_length horder] using hall

theorem owed_step (hI : Owed r env t s) (h : r.step listenFd s io = some s')
    (hsteady : Steady env io) : Owed r env (t ++ [io]) s' := by
  -- a read opens the cycle of read, serve and write; the other calls leave the books alone
  cases Reactor.step_cases h with
  | addListener hp | goOn hp | accepted hp | addClient hp =>
    simp only [Owed, hp] at hI
    exact settled_silent hI rfl rfl rfl
  | waited hp | acceptFailed hp | closed hp =>
    simp only [Owed, hp] at hI
    exact owed_nextEvent _ (settled_silent hI rfl rfl rfl)
  | readSome hp buf hpos =>
    simp only [Owed, hp] at hI
    exact owed_read hI hpos _
  | readNone hp got hgot =>
    simp only [Owed, hp] at hI
    refine settled_silent hI ?_ rfl rfl
    cases got with
    | error e => rfl
    | ok buf => exact if_pos (hgot buf rfl)
  | handled hp env' =>
    obtain rfl : env' = env := hsteady
    simp only [Owed, hp] at hI
    exact owed_handle hI.1 hI.2
  | wrote hp order horder n =>
    simp only [Owed, hp] at hI
    exact owed_nextEvent _ (settled_write horder hI.1 hI.2)
  | addListenerFailed | stop | waitFailed | addClientFailed | writeFailed | closeFailed
  | dropClose | dropEpoll => trivial

/-- At its top the loop has answered every read as a request of its own. -/
theorem settled_of_stream {chunks : List Bytes}
    (h : Stream r env chunks listenFd epollFd client t) :
    ∃ m, serveAll r env ⟨0, 0⟩ chunks = some (replies t, m) := by
  obtain ⟨s, hrun, htop⟩ := h.ends
  have hfirst : Owed r env [] (.enter epollFd) := ⟨rfl, rfl⟩
  have howed : Owed r env t s :=
    run_history (P := fun _ io _ => Steady env io) (fun t s io s' hI hs hP => owed_step hI hs hP)
      hfirst ((along_label_iff hrun).mpr h.steady) hrun
  simp only [Owed, htop] at howed
  exact ⟨s.metrics, by rw [← h.chunks, howed.1, howed.2]⟩

/-- One iteration of the loop that reads a chunk and answers it. -/
def turn (env : Surroundings) (client : RawFd) (chunk : Bytes) (response : HttpResponse) :
    List Io :=
  [.load true, .epollWait (.ok [(client, EPOLLIN)]), .read client (.ok chunk),
    .serve client chunk env, .write client response response.fields (.ok response.size)]

theorem turn_run {chunk : Bytes} {response : HttpResponse} {m : Metrics} (htop : s.point = .top)
    (hclient : client ≠ listenFd) (hpos : chunk ≠ []) (hlen : chunk.length ≤ readLen)
    (hserve : serveOne r env s.metrics chunk = some (response, m)) :
    run (r.step listenFd) s (turn env client chunk response) = some { s with metrics := m } := by
  obtain ⟨hok, rfl⟩ := serveOne_eq_some.mp hserve
  have hnext : nextEvent listenFd [(client, EPOLLIN)] = .read client [] := by
    rw [nextEvent, if_neg hclient, if_pos (by decide)]
  refine run_cons_iff.mpr ⟨_, Reactor.step_goOn htop, ?_⟩
  refine run_cons_iff.mpr ⟨_, Reactor.step_waited rfl _, ?_⟩
  refine run_cons_iff.mpr ⟨_, Reactor.step_readSome hnext hpos hlen, ?_⟩
  refine run_cons_iff.mpr ⟨_, Reactor.step_served rfl hok, ?_⟩
  refine run_cons_iff.mpr ⟨_, Reactor.step_wrote rfl (List.Perm.refl _) _, ?_⟩
  rw [run_nil, nextEvent, ← htop]
  rfl

/-- The listener is registered and one client accepted, as descriptor 5. -/
def connecting : List Io :=
  [.epollAdd 3 EPOLLIN (.ok ()), .load true, .epollWait (.ok [(3, EPOLLIN)]), .accept (.ok 5),
    .epollAdd 5 (EPOLLIN ||| EPOLLET) (.ok ()), .accept (.error "EAGAIN".toList)]

def connected : LoopState where
  point := .top
  epoll := ((⟨4, 1024, ∅⟩ : EpollBackend).insert 3).insert 5
  metrics := ⟨0, 0⟩

theorem connecting_run (r : Reactor) :
    run (r.step 3) (.enter 4) connecting = some connected := rfl

theorem turn_quiet (env : Surroundings) (client : RawFd) (chunk : Bytes) (response : HttpResponse) :
    ∀ io ∈ turn env client chunk response, FromClient client io ∧ Steady env io := by
  simp [turn, FromClient, Steady]

/-- Chunk after chunk is read and answered, as long as each has a response. -/
theorem turns_run {chunks : List Bytes} (hclient : client ≠ listenFd)
    (hpieces : ∀ c ∈ chunks, c ≠ [] ∧ c.length ≤ readLen) (htop : s.point = .top)
    {responses : List HttpResponse} {m : Metrics}
    (hall : serveAll r env s.metrics chunks = some (responses, m)) :
    ∃ t, run (r.step listenFd) s t = some { s with metrics := m } ∧ reads t = chunks ∧
      ∀ io ∈ t, FromClient client io ∧ Steady env io := by
  induction chunks generalizing s responses with
  | nil =>
    obtain ⟨-, rfl⟩ := Prod.mk.inj (Option.some.inj hall)
    exact ⟨[], rfl, rfl, by simp⟩
  | cons chunk chunks ih =>
    obtain ⟨response, m₁, tail, hone, hrest, rfl⟩ := serveAll_cons_eq_some.mp hall
    obtain ⟨⟨hpos, hlen⟩, htail⟩ := List.forall_mem_cons.mp hpieces
    have hturn := turn_run htop hclient hpos hlen hone
    obtain ⟨t, hrun, hreads, hquiet⟩ := ih (s := { s with metrics := m₁ }) htail htop hrest
    refine ⟨turn env client chunk response ++ t, run_append_iff.mpr ⟨_, hturn, hrun⟩, ?_, ?_⟩
    · rw [reads_append, hreads, turn]
      simp [reads, readsOf, hpos]
    · exact List.forall_mem_append.mpr ⟨turn_quiet env client chunk response, hquiet⟩

/-- Chunks that each have a response can be read and answered from the start. -/
theorem stream_of_serveAll {chunks : List Bytes}
    (hpieces : ∀ c ∈ chunks, c ≠ [] ∧ c.length ≤ readLen) {responses : List HttpResponse}
    {m : Metrics} (hall : serveAll r env ⟨0, 0⟩ chunks = some (responses, m)) :
    ∃ t, Stream r env chunks 3 4 5 t := by
  have hne : (5 : RawFd) ≠ 3 := by decide
  obtain ⟨t, hrun, hreads, hquiet⟩ := turns_run (s := connected) hne hpieces rfl hall
  have hquiet' : ∀ io ∈ connecting ++ t, FromClient 5 io ∧ Steady env io :=
    List.forall_mem_append.mpr ⟨by simp [connecting, FromClient, Steady], hquiet⟩
  refine ⟨connecting ++ t, ⟨_, run_append_iff.mpr ⟨_, connecting_run r, hrun⟩, rfl⟩, ?_,
    fun io hio => (hquiet' io hio).1, fun io hio => (hquiet' io hio).2⟩
  rw [reads_append, hreads]
  rfl

end Runs

section Exactness

variable {r : Reactor} {requests chunks : List Bytes}

/-- Chunks that ask what the requests ask get the answers to the requests. -/
theorem framed_of_questions (hpieces : ∀ c ∈ chunks, c ≠ [] ∧ c.length ≤ readLen)
    (h : chunks.map (question r) = requests.map (question r)) : Framed r requests chunks := by
  intro env responses m hall
  rw [← serveAll_congr h] at hall
  constructor
  · obtain ⟨t, ht⟩ := stream_of_serveAll hpieces hall
    exact ⟨3, 4, 5, t, ht⟩
  · intro listenFd epollFd client t ht
    obtain ⟨m', hm'⟩ := settled_of_stream ht
    exact (Prod.mk.inj (Option.some.inj (hm'.symm.trans hall))).1

/-- A target that can be sliced never makes the handler panic. -/
theorem question_ne_file_none {buf : Bytes} (h : Targeted r buf) : question r buf ≠ .file none := by
  cases hparse : HttpRequest.parse r.httparse buf with
  | error e =>
    rw [question_refused hparse]
    exact Question.noConfusion
  | ok req =>
    cases hmode : r.config.mode with
    | fastPath =>
      obtain ⟨c, path, hpath, hc, hsize⟩ := h req hparse
      rw [question_file hmode hparse]
      simp [Reactor.staticPath, HttpRequest.cleanPath, hpath, hc, dropByte, hsize]
    | dynamicPath =>
      rw [question_route hmode hparse]
      exact Question.noConfusion

theorem exists_serveAll (path : Str) (m : Metrics) {bufs : List Bytes}
    (h : ∀ b ∈ bufs, Targeted r b) :
    ∃ responses m', serveAll r (holding path) m bufs = some (responses, m') := by
  induction bufs generalizing m with
  | nil => exact ⟨[], m, rfl⟩
  | cons buf bufs ih =>
    obtain ⟨hbuf, hbufs⟩ := List.forall_mem_cons.mp h
    obtain ⟨response, hok⟩ := exists_response path
      { m with requestsTotal := incBy m.requestsTotal 1 } (question_ne_file_none hbuf)
    rw [← respond_eq] at hok
    obtain ⟨responses, m', hall⟩ := ih _ hbufs
    exact ⟨_, _, serveAll_cons_eq_some.mpr
      ⟨response, _, responses, serveOne_eq_some.mpr ⟨hok, rfl⟩, hall, rfl⟩⟩

theorem questions_of_framed (htargets : ∀ q ∈ requests, Targeted r q)
    (h : Framed r requests chunks) : chunks.map (question r) = requests.map (question r) := by
  apply questions_eq_of_serveAll
  intro path
  obtain ⟨responses, m, hall⟩ := exists_serveAll path ⟨0, 0⟩ htargets
  obtain ⟨⟨listenFd, epollFd, client, t, ht⟩, hreplies⟩ := h (holding path) responses m hall
  obtain ⟨m', hm'⟩ := settled_of_stream ht
  rw [hreplies listenFd epollFd client t ht] at hm'
  exact ⟨⟨0, 0⟩, responses, m', m, hm', hall⟩

/-- The requests get the responses each would get alone exactly when the reads cut
the stream into as many chunks that, parsed one by one, ask for the same. -/
theorem framed_iff (r : Reactor) (requests chunks : List Bytes)
    (htargets : ∀ q ∈ requests, Targeted r q) (hcut : Cut requests chunks) :
    Framed r requests chunks ↔ chunks.map (question r) = requests.map (question r) :=
  ⟨questions_of_framed htargets, framed_of_questions hcut.pieces⟩

end Exactness

/-- Requests as HTTP writes them have such a target. -/
theorem targeted_render {r : Reactor} (hc : Canonical r.httparse) (q : RequestText)
    (htarget : ∀ c ∈ q.target.head?, c ≠ '?' ∧ c.toNat < 128) : Targeted r q.render := by
  intro req hparse
  by_cases hlen : q.headers.length ≤ 64
  · rw [HttpRequest.parse_render hc q hlen] at hparse
    obtain rfl := Except.ok.inj hparse
    obtain ⟨c, path, hpath⟩ := List.exists_cons_of_ne_nil q.target_ne
    obtain ⟨hmark, hascii⟩ := htarget c (by rw [hpath]; rfl)
    exact ⟨c, path, hpath, hmark, utf8Size_eq_one_iff.mpr hascii⟩
  · rw [HttpRequest.parse_render_overflow hc q (by omega)] at hparse
    cases hparse

def pageRequest : RequestText := .get "/about.html".toList (by decide) (by decide)

def page : Bytes := pageRequest.render

theorem targeted_page : Targeted Reactor.stock page :=
  targeted_render referenceHttparse_canonical pageRequest (by rintro _ ⟨⟩; decide)

theorem whole_pages_framed : Framed Reactor.stock [page, page] [page, page] :=
  (framed_iff Reactor.stock [page, page] [page, page] (by simp [targeted_page])
    ⟨rfl, by decide⟩).mpr rfl

/-- A request that arrives in two reads is answered twice, and two requests that
arrive in one read are answered once. -/
theorem cut_page_misframed : Targeted Reactor.stock page ∧
    Cut [page] [page.take 5, page.drop 5] ∧
      ¬ Framed Reactor.stock [page] [page.take 5, page.drop 5] ∧
    Cut [page, page] [page ++ page] ∧ ¬ Framed Reactor.stock [page, page] [page ++ page] := by
  refine ⟨targeted_page, ⟨by decide, by decide⟩, fun h => ?_, ⟨by decide, by decide⟩, fun h => ?_⟩
  · have hlen := congrArg List.length (questions_of_framed (by simp [targeted_page]) h)
    exact absurd hlen (by decide)
  · have hlen := congrArg List.length (questions_of_framed (by simp [targeted_page]) h)
    exact absurd hlen (by decide)

end KernelEngine.Framing
