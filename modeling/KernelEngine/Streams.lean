import KernelEngine.Http.Wire
import KernelEngine.Serving

namespace KernelEngine.Streams
open Rust File Http Net Worker Runs Generations Questions Serving
open Delivery (TakesAll)
open Service (Exchange Serial ofConnection)

/-- A response as a client can read it: its head fits the lines, its length is that of its
body, and the code is one of three. -/
structure Readable (response : HttpResponse) : Prop where
  sound : Sound response
  measured : Measured response
  code : response.statusCode ∈ [200, 400, 404]

section Readable

variable {r : Reactor} {env : Surroundings} {m : Metrics} {response : HttpResponse}

theorem contentType_line (ext : Str) :
    '\r' ∉ Reactor.contentType ext ∧ '\n' ∉ Reactor.contentType ext := by
  unfold Reactor.contentType
  split_ifs <;> exact ⟨by decide, by decide⟩

theorem readable_setBody {code : ℕ} (hcode : code ∈ [200, 400, 404]) (body : Bytes) :
    Readable ((HttpResponse.new code).setBody body) :=
  ⟨(sound_new code).setBody body, AList.lookup_insert _, hcode⟩

theorem Readable.typed (h : Readable response) {contentType : Str}
    (htype : '\r' ∉ contentType ∧ '\n' ∉ contentType) :
    Readable (response.withHeader "Content-Type".toList contentType) := by
  have hname : ¬ IsContentLength "Content-Type".toList := by decide
  have hline : FitsLine ("Content-Type".toList, contentType) := ⟨by dsimp only; decide, htype⟩
  have hne : "Content-Length".toList ≠ "Content-Type".toList := by decide
  exact ⟨h.sound.withHeader hline fun hc => (hname hc).elim,
    (AList.lookup_insert_ne hne).trans h.measured, h.code⟩

theorem readable_fileResponse (path : Str) (mmap : MmapFile) :
    Readable (Reactor.fileResponse path mmap) := by
  have hbody : Readable (HttpResponse.ok.setBody mmap.asSlice) := readable_setBody (by decide) _
  unfold Reactor.fileResponse
  cases Path.extension path with
  | none => exact hbody
  | some ext => exact hbody.typed (contentType_line ext)

theorem readable_typedBody {response : HttpResponse} (hsound : Sound response)
    (hcode : response.statusCode ∈ [200, 400, 404]) {contentType : Str}
    (htype : '\r' ∉ contentType ∧ '\n' ∉ contentType) (body : Bytes) :
    Readable (response.typedBody contentType body) :=
  ⟨hsound.typedBody htype body, AList.lookup_insert _, hcode⟩

/-- Every response of the server can be read. -/
theorem readable_of_respond {buf : Bytes} (h : r.respond env m buf = .ok response) :
    Readable response := by
  rw [respond_eq] at h
  cases hq : question r buf with
  | refused =>
    rw [hq] at h
    obtain rfl := Except.ok.inj h
    exact readable_setBody (by decide) _
  | file path =>
    rw [hq] at h
    cases path with
    | none => cases h
    | some path =>
      simp only [responseTo] at h
      split_ifs at h
      · obtain rfl := Except.ok.inj h
        exact readable_setBody (by decide) _
      · split at h
        · cases h
        · split_ifs at h
          obtain rfl := Except.ok.inj h
          exact readable_fileResponse _ _
  | route e =>
    rw [hq] at h
    have hok : Sound HttpResponse.ok := sound_new 200
    cases e with
    | none =>
      obtain rfl := Except.ok.inj h
      exact readable_setBody (by decide) _
    | some e =>
      cases e with
      | health | stats =>
        obtain rfl := Except.ok.inj h
        exact readable_typedBody hok (by decide) ⟨by decide, by decide⟩ _
      | metrics =>
        simp only [responseTo] at h
        split at h
        · cases h
        · obtain rfl := Except.ok.inj h
          have hname : ¬ IsContentLength "Content-Type".toList := by decide
          have htyped : Sound (HttpResponse.ok.withHeader "Content-Type".toList
              "text/plain; version=0.0.4".toList) :=
            hok.withHeader ⟨by decide, by decide⟩ fun hc => (hname hc).elim
          exact readable_typedBody htyped (by decide) ⟨by decide, by decide⟩ _

end Readable

/-- The bytes a call hands to the kernel for a client. -/
def wire (p : System) : Io → List (ℕ × Bytes)
  | .write fd response order (.ok n) =>
    (client p.2 fd).toList.map fun c => (c, (response.toBytes order).take n)
  | _ => []

/-- All that the kernel has been handed for one connection. -/
def stream (r : Reactor) (listenFd epollFd : RawFd) (releases : OsError → Bool)
    (opened : Finset RawFd) (t : List Io) (c : ℕ) : Bytes :=
  (ofConnection c (shown (step r listenFd releases) wire (.enter epollFd, .start opened) t)).flatten

/-- The bytes are the response, in some order of its header map. -/
def Carries (bytes : Bytes) (response : HttpResponse) : Prop :=
  ∃ order : List (Str × Str), order.Perm response.fields ∧ bytes = response.toBytes order

section Runs

variable {r : Reactor} {listenFd epollFd fd : RawFd} {releases : OsError → Bool}
  {opened : Finset RawFd} {p q : System} {io : Io} {t : List Io} {c : ℕ}

theorem perm_of_write {s s' : LoopState} {response : HttpResponse} {order : List (Str × Str)}
    {n : ℕ} (hs : r.step listenFd s (.write fd response order (.ok n)) = some s') :
    order.Perm response.fields := by
  cases Reactor.step_cases hs with
  | wrote _ _ horder => exact horder

/-- Only a write that succeeds sends something. -/
theorem sent_shows (hio : ∀ fd response order n, io ≠ .write fd response order (.ok n)) :
    (shows releases p io).flatMap Service.Event.sent = [] := by
  rw [List.flatMap_eq_nil_iff]
  intro e he
  cases shownBy_of_mem he with
  | wrote => exact absurd rfl (hio _ _ _ _)
  | _ => rfl

/-- What goes over the wire in one call is what it shows to be sent. -/
theorem wire_step (hs : step r listenFd releases p io = some q) (htakes : TakesAll io) :
    List.Forall₂ (fun p q => p.1 = q.1 ∧ Carries p.2 q.2) (wire p io)
      ((shows releases p io).flatMap Service.Event.sent) := by
  by_cases hio : ∃ fd response order n, io = .write fd response order (.ok n)
  · obtain ⟨fd, response, order, n, rfl⟩ := hio
    have horder := perm_of_write (sync_iff.mp hs).1
    have hn : n = (response.toBytes order).length := htakes
    rw [wire, shows, hn, List.take_length]
    cases client p.2 fd with
    | none => exact .nil
    | some c => exact .cons ⟨rfl, order, horder, rfl⟩ .nil
  · push Not at hio
    have hwire : wire p io = [] := by
      unfold wire
      split
      · exact absurd rfl (hio _ _ _ _)
      · rfl
    rw [sent_shows hio, hwire]
    exact .nil

/-- What a client is sent is one response after the other. -/
theorem carried (hrun : run (step r listenFd releases) (.enter epollFd, .start opened) t = some p)
    (htakes : ∀ io ∈ t, TakesAll io) : List.Forall₂ Carries
      (ofConnection c (shown (step r listenFd releases) wire (.enter epollFd, .start opened) t))
      (ofConnection c (Service.sends (trace r listenFd epollFd releases opened t))) := by
  apply Service.ofConnection_forall₂
  rw [Service.sends, trace, shown_flatMap]
  exact shown_forall₂ hrun fun m io m' hio hs => wire_step hs (htakes io hio)

/-- Readable responses one after the other are read back one by one. -/
theorem reads_carried {bytes : List Bytes} {responses : List HttpResponse}
    (h : List.Forall₂ Carries bytes responses) (hreadable : ∀ r ∈ responses, Readable r) :
    Wire.responses bytes.flatten = some (responses.map HttpResponse.message) := by
  have hwords : ∀ w ∈ bytes.zip (responses.map HttpResponse.message),
      Codec.Reads Wire.response w.1 w.2 ∧ w.1 ≠ [] := by
    induction h with
    | nil => simp
    | @cons bytes response _ _ hcarries _ ih =>
      obtain ⟨order, horder, rfl⟩ := hcarries
      obtain ⟨hhead, htail⟩ := List.forall_mem_cons.mp hreadable
      refine List.forall_mem_cons.mpr ⟨⟨?_, Wire.toBytes_ne_nil response order⟩, ih htail⟩
      exact Wire.reads_response hhead.sound hhead.measured horder
  have hlen : bytes.length = (responses.map HttpResponse.message).length := by
    rw [List.length_map, h.length_eq]
  have hall := Codec.all_flatMap hwords
  rw [List.flatMap_def] at hall
  rwa [List.map_fst_zip hlen.le, List.map_snd_zip hlen.ge] at hall

theorem readable_of_mem {log : List (Exchange ℕ Surroundings Bytes HttpResponse)} {m₀ m : Metrics}
    (hlog : Serial (handler r) m₀ log m) {x : Exchange ℕ Surroundings Bytes HttpResponse}
    (hx : x ∈ log) : Readable x.answer := by
  obtain ⟨m', hanswer⟩ := hlog.answer_of_mem hx
  exact readable_of_respond (respond_of_answer hanswer)

/-- The stream of a connection is read as the answers of its exchanges. -/
theorem stream_decodes {a : State} {log : List (Exchange ℕ Surroundings Bytes HttpResponse)}
    {m : Metrics} (hrun : run (step r listenFd releases) (.enter epollFd, .start opened) t = some p)
    (htakes : ∀ io ∈ t, TakesAll io) (hbooks : Service.Books (handler r) ⟨0, 0⟩
      (trace r listenFd epollFd releases opened t) a log m) (c : ℕ) :
    Wire.responses (stream r listenFd epollFd releases opened t c) =
      some ((log.filter fun x => x.connection = c).map fun x => x.answer.message) := by
  have hsent : ofConnection c (Service.sends (trace r listenFd epollFd releases opened t)) =
      (log.filter fun x => x.connection = c).map Exchange.answer := by
    rw [hbooks.sent]
    exact Service.ofConnection_map Exchange.answer log
  have hcarried := carried (c := c) hrun htakes
  have hreadable : ∀ response ∈ (log.filter fun x => x.connection = c).map Exchange.answer,
      Readable response :=
    List.forall_mem_map.mpr fun x hx => readable_of_mem hbooks.serial (List.mem_of_mem_filter hx)
  rw [hsent] at hcarried
  rw [stream, reads_carried hcarried hreadable, List.map_map]
  rfl

end Runs

/-- Where every write takes all it is given, what the kernel was handed for a connection
reads back as one response for each buffer read from it, in the order of the reads. One at
most is still to come, and none once the connection rests. -/
theorem streams_decode (r : Reactor) (listenFd epollFd : RawFd) (releases : OsError → Bool)
    (opened : Finset RawFd) (hopen : listenFd ∈ opened) (t : List Io) (p : System)
    (hrun : run (step r listenFd releases) (.enter epollFd, .start opened) t = some p)
    (htakes : ∀ io ∈ t, TakesAll io) :
    ∃ log m, Serial (handler r) ⟨0, 0⟩ log m ∧ (∀ x ∈ log, Readable x.answer) ∧ ∀ c, ∃ left,
      ofConnection c (Service.asks (trace r listenFd epollFd releases opened t)) =
        (log.filter fun x => x.connection = c).map Exchange.question ++ left ∧
      left.length ≤ 1 ∧ (Resting p c → left = []) ∧
      Wire.responses (stream r listenFd epollFd releases opened t c) =
        some ((log.filter fun x => x.connection = c).map fun x => x.answer.message) := by
  obtain ⟨a, log, m, hserves, hbooks⟩ := books_of_run hopen hrun
  refine ⟨log, m, hbooks.serial, fun x => readable_of_mem hbooks.serial, fun c => ?_⟩
  obtain ⟨left, hasked, hlen, hrest⟩ := asked_by hserves hbooks c
  exact ⟨left, hasked, hlen, hrest, stream_decodes hrun htakes hbooks c⟩

/-- A connection that has asked one thing, which does not parse, and rests, has one exchange,
which answers it with the 400. -/
theorem refused_once {r : Reactor} {log : List (Exchange ℕ Surroundings Bytes HttpResponse)}
    {m₀ m : Metrics} {buf : Bytes} {e : Anyhow} {c : ℕ} (hlog : Serial (handler r) m₀ log m)
    (hparse : HttpRequest.parse r.httparse buf = .error e)
    (hasked : [buf] = (log.filter fun x => x.connection = c).map Exchange.question) :
    ((log.filter fun x => x.connection = c).map fun x => x.answer.message) =
      [HttpResponse.badRequest.message] := by
  obtain ⟨x, hmine, hquestion⟩ := List.map_eq_singleton_iff.mp hasked.symm
  have hx : x ∈ log := List.mem_of_mem_filter (hmine ▸ List.mem_singleton_self x)
  obtain ⟨m', hanswer⟩ := hlog.answer_of_mem hx
  have hrespond := respond_of_answer hanswer
  rw [hquestion, Reactor.respond_refused hparse] at hrespond
  rw [hmine, List.map_singleton, ← Except.ok.inj hrespond]

theorem strayByte_takesAll : ∀ io ∈ Delivery.strayByte ++ [Delivery.refusal 117], TakesAll io := by
  have hsize : 117 = (HttpResponse.badRequest.toBytes HttpResponse.badRequest.fields).length := by
    decide
  simp [Delivery.strayByte, Delivery.refusal, TakesAll, ← hsize]

theorem strayByte_refused :
    ∃ e, HttpRequest.parse Reactor.stock.httparse [0x78] = .error e := ⟨_, rfl⟩

/-- The client that sends one byte reads one response, the 400. -/
theorem strayByte_stream_decodes :
    Wire.responses (stream Reactor.stock 3 4 (fun _ => true) {3, 4}
      (Delivery.strayByte ++ [Delivery.refusal 117]) 1) =
        some [HttpResponse.badRequest.message] := by
  obtain ⟨p, hrun, htop, hasks⟩ := strayByte_served
  obtain ⟨log, m, hserial, -, hstream⟩ := streams_decode Reactor.stock 3 4 (fun _ => true) {3, 4}
    (by decide) _ p hrun strayByte_takesAll
  obtain ⟨left, hasked, -, hrest, hread⟩ := hstream 1
  have hleft : left = [] := hrest (by rw [Resting, htop]; trivial)
  rw [hasks, hleft, List.append_nil] at hasked
  obtain ⟨e, hparse⟩ := strayByte_refused
  rw [hread, refused_once hserial hparse hasked]

end KernelEngine.Streams
