import KernelEngine.Delivery
import Mathlib.Logic.Function.Basic

namespace KernelEngine.Isolation
open Rust File Http Net Worker Runs Delivery

/-- What the outside sees of a run, by connection and not by descriptor: which
connection a descriptor denotes, and what each connection read and was sent. -/
structure Transcript where
  owner : RawFd → Option ℕ
  opened : ℕ
  reads : ℕ → List (Except OsError Bytes)
  replies : ℕ → List HttpResponse

namespace Transcript

def start : Transcript := ⟨fun _ => none, 0, fun _ => [], fun _ => []⟩

def record {α : Type} (log : ℕ → List α) (owner : Option ℕ) (a : α) : ℕ → List α := fun c =>
  if owner = some c then log c ++ [a] else log c

/-- A descriptor number denotes the connection it was last accepted for, until it
is closed. -/
def observe (o : Transcript) : Io → Transcript
  | .accept (.ok fd) =>
    { o with owner := Function.update o.owner fd (some o.opened), opened := o.opened + 1 }
  | .close fd (.ok _) _ => { o with owner := Function.update o.owner fd none }
  | .read fd got => { o with reads := record o.reads (o.owner fd) got }
  | .write fd response _ _ => { o with replies := record o.replies (o.owner fd) response }
  | _ => o

end Transcript

open Transcript

def transcript (t : List Io) : Transcript := t.foldl observe start

@[simp] theorem transcript_concat (t : List Io) (io : Io) :
    transcript (t ++ [io]) = (transcript t).observe io := by
  simp [transcript]

/-- The answer a read result calls for over a fixed static tree. -/
def answer (r : Reactor) (fs : Filesystem) : Except OsError Bytes → List HttpResponse
  | .ok buf =>
    if buf = [] then []
    else match r.respond ⟨fs, .ok []⟩ ⟨0, 0⟩ buf with
      | .ok response => [response]
      | .error _ => []
  | .error _ => []

def answers (r : Reactor) (fs : Filesystem) (got : List (Except OsError Bytes)) :
    List HttpResponse :=
  got.flatMap (answer r fs)

/-- What the loop still owes a connection at a point. -/
def due (r : Reactor) (fs : Filesystem) (o : Transcript) (c : ℕ) : Point → List HttpResponse
  | .handle fd buf _ => if o.owner fd = some c then answer r fs (.ok buf) else []
  | .write fd response _ => if o.owner fd = some c then [response] else []
  | _ => []

/-- No request of the connection is being served. -/
def Settled (o : Transcript) (c : ℕ) : Point → Prop
  | .handle fd _ _ => o.owner fd ≠ some c
  | .write fd _ _ => o.owner fd ≠ some c
  | _ => True

/-- `event_loop` has neither returned, nor is returning, nor come to a bad end. -/
def Looping : Point → Prop
  | .drop _ _ => False
  | .returned _ => False
  | .panicked => False
  | .killed => False
  | _ => True

/-- The static tree is the given one whenever a request is served. -/
def Unchanging (fs : Filesystem) : Io → Prop
  | .serve _ _ env => env.fs = fs
  | _ => True

/-- In fast-path mode the counters and the encoder have no part in a response. -/
theorem respond_fastPath_congr {r : Reactor} (hmode : r.config.mode = .fastPath)
    {env env' : Surroundings} (henv : env.fs = env'.fs) (m m' : Metrics) (buf : Bytes) :
    r.respond env m buf = r.respond env' m' buf := by
  cases hparse : HttpRequest.parse r.httparse buf with
  | error e => rw [Reactor.respond_refused hparse, Reactor.respond_refused hparse]
  | ok req =>
    rw [Reactor.respond_fastPath hmode hparse, Reactor.respond_fastPath hmode hparse, henv]

variable {r : Reactor} {fs : Filesystem} {listenFd : RawFd} {s s' : LoopState} {io : Io}

theorem due_nextEvent (o : Transcript) (c : ℕ) (events : List (RawFd × EventFlags)) :
    due r fs o c (nextEvent listenFd events) = [] :=
  nextEvent_of (P := fun p => due r fs o c p = []) rfl (fun _ => rfl) (fun _ _ => rfl)
    listenFd events

theorem due_of_settled {o : Transcript} {c : ℕ} {p : Point} (h : Settled o c p) :
    due r fs o c p = [] := by
  cases p with
  | handle | write => exact if_neg h
  | _ => rfl

theorem answers_record (log : ℕ → List (Except OsError Bytes)) (owner : Option ℕ)
    (got : Except OsError Bytes) (c : ℕ) : answers r fs (record log owner got c) =
      answers r fs (log c) ++ if owner = some c then answer r fs got else [] := by
  unfold record
  split_ifs <;> simp [answers]

theorem looping_of_step (h : r.step listenFd s io = some s') (hl : Looping s'.point) :
    Looping s.point := by
  cases Reactor.step_cases h with
  | dropClose | dropEpoll => exact hl.elim
  | addListener hp | addListenerFailed hp | goOn hp | stop hp | waited hp | waitFailed hp
  | accepted hp | acceptFailed hp | addClient hp | addClientFailed hp | readSome hp
  | readNone hp | handled hp | wrote hp | writeFailed hp | closed hp | closeFailed hp =>
    rw [hp]
    trivial

theorem answer_eq (hmode : r.config.mode = .fastPath) {env : Surroundings} (henv : env.fs = fs)
    {m : Metrics} {buf : Bytes} {response : HttpResponse} (hbuf : buf ≠ [])
    (h : r.respond env m buf = .ok response) : answer r fs (.ok buf) = [response] := by
  have hpure : r.respond ⟨fs, .ok []⟩ ⟨0, 0⟩ buf = .ok response := by
    rw [← h]
    exact respond_fastPath_congr hmode henv.symm _ _ _
  simp only [answer, if_neg hbuf, hpure]

/-- What the loop is handling is not empty. -/
def Handling : Point → Prop
  | .handle _ buf _ => buf ≠ []
  | _ => True

/-- What a connection was sent and is owed answers what it read. -/
structure Answered (r : Reactor) (fs : Filesystem) (o : Transcript) (p : Point) : Prop where
  handling : Handling p
  answers (c : ℕ) : answers r fs (o.reads c) = o.replies c ++ due r fs o c p

theorem handling_nextEvent (events : List (RawFd × EventFlags)) :
    Handling (nextEvent listenFd events) :=
  nextEvent_of (P := Handling) trivial (fun _ => trivial) (fun _ _ => trivial) listenFd events

theorem answered_nextEvent {o : Transcript}
    (h : ∀ c, answers r fs (o.reads c) = o.replies c) (events : List (RawFd × EventFlags)) :
    Answered r fs o (nextEvent listenFd events) := by
  refine ⟨handling_nextEvent events, fun c => ?_⟩
  rw [due_nextEvent, List.append_nil, h c]

theorem answered_start : Answered r fs start .addListener := ⟨trivial, fun _ => rfl⟩

theorem answered_step (hmode : r.config.mode = .fastPath) {o : Transcript}
    (h : r.step listenFd s io = some s') (hfs : Unchanging fs io) (hl : Looping s'.point)
    (hI : Answered r fs o s.point) : Answered r fs (o.observe io) s'.point := by
  obtain ⟨hhandling, hanswers⟩ := hI
  -- reads lengthen both sides, and a write moves what is due to the replies
  cases Reactor.step_cases h with
  | addListenerFailed | stop | waitFailed | addClientFailed | writeFailed | closeFailed
  | dropClose | dropEpoll => exact hl.elim
  | addListener hp | goOn hp | accepted hp | addClient hp =>
    rw [hp] at hanswers
    exact ⟨trivial, hanswers⟩
  | waited hp | acceptFailed hp =>
    rw [hp] at hanswers
    exact answered_nextEvent (fun c => (hanswers c).trans (List.append_nil _)) _
  | @readSome fd rest hp buf hpos =>
    rw [hp] at hanswers
    refine ⟨hpos, fun c => ?_⟩
    have hreads : answers r fs (o.reads c) = o.replies c :=
      (hanswers c).trans (List.append_nil _)
    exact (answers_record _ _ _ _).trans (by rw [hreads]; rfl)
  | @readNone fd rest hp got hgot =>
    rw [hp] at hanswers
    have hnone : answer r fs got = [] := by
      cases got with
      | error e => rfl
      | ok buf => simp [answer, hgot buf rfl]
    refine ⟨trivial, fun c => (answers_record _ _ _ _).trans ?_⟩
    rw [hnone, ite_self, List.append_nil, hanswers c]
    rfl
  | @handled fd buf rest hp env =>
    rw [hp] at hanswers hhandling
    obtain ⟨m, -, ⟨response, hr, hs⟩ | ⟨e, -, hs⟩ | ⟨-, hs⟩ | ⟨-, hs⟩⟩ :=
      Reactor.handle_cases r s env fd buf rest <;> rw [hs] at hl ⊢
    · refine ⟨trivial, fun c => (hanswers c).trans ?_⟩
      simp only [due, answer_eq hmode hfs hhandling hr]
      rfl
    · exact hl.elim
    · exact hl.elim
    · exact hl.elim
  | @wrote fd response rest hp order horder n =>
    rw [hp] at hanswers
    refine answered_nextEvent (fun c => ?_) _
    refine (hanswers c).trans ?_
    simp only [due, observe, record]
    split_ifs <;> simp
  | @closed fd rest hp =>
    rw [hp] at hanswers
    have hreplies (c : ℕ) : answers r fs (o.reads c) = o.replies c :=
      (hanswers c).trans (List.append_nil _)
    exact answered_nextEvent (o := o.observe (.close fd (.ok ()) (.ok ()))) hreplies rest

/-- After any run that is still looping the replies of a connection are a function of
its read results, up to the one reply still due. -/
theorem answered_run (hmode : r.config.mode = .fastPath) {epollFd : RawFd} {t : List Io}
    (hrun : run (r.step listenFd) (.enter epollFd) t = some s) (hfs : ∀ io ∈ t, Unchanging fs io)
    (hl : Looping s.point) : Answered r fs (transcript t) s.point := by
  refine run_history (P := fun _ io _ => Unchanging fs io)
    (I := fun t s => Looping s.point → Answered r fs (transcript t) s.point) ?_
    (fun _ => answered_start) ((along_label_iff hrun).mpr hfs) hrun hl
  intro t s io s' hI hs hP hl'
  rw [transcript_concat]
  exact answered_step hmode hs hP hl' (hI (looping_of_step hs hl'))

/-- Two runs that give a connection the same read results send it the same responses:
all of them once neither is serving it, and up to the one still due before that. -/
theorem connections_do_not_interfere (r : Reactor) (hmode : r.config.mode = .fastPath)
    (fs : Filesystem) (listenFd₁ listenFd₂ epollFd₁ epollFd₂ : RawFd) (t₁ t₂ : List Io)
    (s₁ s₂ : LoopState)
    (hrun₁ : run (r.step listenFd₁) (.enter epollFd₁) t₁ = some s₁)
    (hrun₂ : run (r.step listenFd₂) (.enter epollFd₂) t₂ = some s₂)
    (hfs₁ : ∀ io ∈ t₁, Unchanging fs io) (hfs₂ : ∀ io ∈ t₂, Unchanging fs io)
    (hlooping₁ : Looping s₁.point) (hlooping₂ : Looping s₂.point) (c₁ c₂ : ℕ)
    (hreads : (transcript t₁).reads c₁ = (transcript t₂).reads c₂) :
    (transcript t₁).replies c₁ ++ due r fs (transcript t₁) c₁ s₁.point =
        (transcript t₂).replies c₂ ++ due r fs (transcript t₂) c₂ s₂.point ∧
      (Settled (transcript t₁) c₁ s₁.point → Settled (transcript t₂) c₂ s₂.point →
        (transcript t₁).replies c₁ = (transcript t₂).replies c₂) := by
  have h₁ := (answered_run hmode hrun₁ hfs₁ hlooping₁).answers c₁
  have h₂ := (answered_run hmode hrun₂ hfs₂ hlooping₂).answers c₂
  have hdue : (transcript t₁).replies c₁ ++ due r fs (transcript t₁) c₁ s₁.point =
      (transcript t₂).replies c₂ ++ due r fs (transcript t₂) c₂ s₂.point := by
    rw [← h₁, ← h₂, hreads]
  refine ⟨hdue, fun hs₁ hs₂ => ?_⟩
  rwa [due_of_settled hs₁, due_of_settled hs₂, List.append_nil, List.append_nil] at hdue

/-- The client of `strayByte` as descriptor 9, behind one that hangs up in the same
batch. -/
def crowdedByte : List Io :=
  [.epollAdd 3 EPOLLIN (.ok ()), .load true, .epollWait (.ok [(3, EPOLLIN)]), .accept (.ok 5),
    .epollAdd 5 (EPOLLIN ||| EPOLLET) (.ok ()), .accept (.ok 9),
    .epollAdd 9 (EPOLLIN ||| EPOLLET) (.ok ()), .accept (.error "EAGAIN".toList),
    .load true, .epollWait (.ok [(5, EPOLLIN), (9, EPOLLIN)]), .read 5 (.ok []),
    .close 5 (.ok ()) (.ok ()), .read 9 (.ok [0x78]), .serve 9 [0x78] quietSurroundings]

def refusingCrowded : LoopState where
  point := .write 9 HttpResponse.badRequest []
  epoll := ((((⟨4, 1024, ∅⟩ : EpollBackend).insert 3).insert 5).insert 9).erase 5
  metrics := ⟨1, 0⟩

theorem crowdedByte_run :
    run (Reactor.stock.step 3) (.enter 4) crowdedByte = some refusingCrowded := rfl

theorem crowded_client_does_not_interfere :
    (transcript (strayByte ++ [refusal 117])).replies 0 =
      (transcript (crowdedByte ++ [.write 9 HttpResponse.badRequest
        HttpResponse.badRequest.fields (.ok 117)])).replies 1 := by
  obtain ⟨s, hs, htop⟩ := refusal_run 117
  have hwrite : Reactor.stock.step 3 refusingCrowded (.write 9 HttpResponse.badRequest
      HttpResponse.badRequest.fields (.ok 117)) = _ :=
    Reactor.step_wrote rfl (List.Perm.refl _) 117
  have hcrowded := run_concat_iff.mpr ⟨_, crowdedByte_run, hwrite⟩
  refine (connections_do_not_interfere Reactor.stock rfl (onlyFile [] []) 3 3 4 4 _ _ _ _ hs
    hcrowded ?_ ?_ ?_ trivial 0 1 rfl).2 ?_ trivial
  · simp [strayByte, refusal, Unchanging, quietSurroundings]
  · simp [crowdedByte, Unchanging, quietSurroundings]
  · rw [htop]
    trivial
  · rw [htop]
    trivial

end KernelEngine.Isolation
