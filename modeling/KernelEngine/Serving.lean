import KernelEngine.Persistence
import KernelEngine.Questions
import KernelEngine.Lib.Service
import KernelEngine.Lib.Simulation

namespace KernelEngine.Serving
open Rust File Http Net Worker Runs Generations Questions
open Service (Handler Event Phase Exchange)
open Isolation (Unchanging)
open Resilience (closes)

/-- `handle_request`, as what a server answers its questions by. -/
def handler (r : Reactor) : Handler Surroundings Bytes HttpResponse Metrics where
  received m := { m with requestsTotal := incBy m.requestsTotal 1 }
  answer env m buf := (r.respond env m buf).toOption
  sent response m := { m with bytesSent := incBy m.bytesSent response.size }

theorem respond_of_answer {r : Reactor} {env : Surroundings} {m : Metrics} {buf : Bytes}
    {response : HttpResponse} (h : (handler r).answer env m buf = some response) :
    r.respond env m buf = .ok response := by
  cases hr : r.respond env m buf with
  | error e => simp [handler, hr, Except.toOption] at h
  | ok response' =>
    have heq : response' = response := by simpa [handler, hr, Except.toOption] using h
    rw [heq]

/-- The connection of a client that a descriptor denotes. -/
def client (k : Kernel) (fd : RawFd) : Option ℕ := (k.connection fd).filter (0 < ·)

theorem client_eq_some {k : Kernel} {fd : RawFd} {c : ℕ} :
    client k fd = some c ↔ k.connection fd = some c ∧ 0 < c := by
  simp [client, Option.filter_eq_some_iff]

theorem client_congr {k k' : Kernel} {fd : RawFd} (h : k'.connection fd = k.connection fd) :
    client k' fd = client k fd := by
  rw [client, client, h]

/-- Only a close that gives the number back is the end of a connection. -/
def hangUps (releases : OsError → Bool) (k : Kernel) (fd : RawFd)
    (deleted closed : Except OsError Unit) : List (Event ℕ Surroundings Bytes HttpResponse) :=
  if Kernel.freed releases deleted closed then (client k fd).toList.map .hangUp else []

/-- What a call shows by connection, whatever the descriptors are. A close that fails is
the end of the loop, as is every error. -/
def shows (releases : OsError → Bool) (p : System) :
    Io → List (Event ℕ Surroundings Bytes HttpResponse)
  | .accept (.ok _) => [.connect p.2.accepted]
  | .read fd (.ok buf) => if buf = [] then [] else (client p.2 fd).toList.map (.ask · buf)
  | .serve fd _ env => (client p.2 fd).toList.map (.answer · env)
  | .write fd response _ (.ok _) => (client p.2 fd).toList.map (.send · response)
  | .close fd deleted closed =>
    hangUps releases p.2 fd deleted closed ++
      if deleted = .ok () ∧ closed = .ok () then [] else [.stop]
  | .epollAdd _ _ (.error _) => [.stop]
  | .load false => [.stop]
  | .epollWait (.error _) => [.stop]
  | .write _ _ _ (.error _) => [.stop]
  | _ => []

/-- The calls each event is shown by. -/
inductive ShownBy (releases : OsError → Bool) (p : System) :
    Io → Event ℕ Surroundings Bytes HttpResponse → Prop
  | accepted (fd : RawFd) : ShownBy releases p (.accept (.ok fd)) (.connect p.2.accepted)
  | read {fd : RawFd} {c : ℕ} (hc : client p.2 fd = some c) {buf : Bytes} (hbuf : buf ≠ []) :
      ShownBy releases p (.read fd (.ok buf)) (.ask c buf)
  | served {fd : RawFd} {c : ℕ} (hc : client p.2 fd = some c) (buf : Bytes) (env : Surroundings) :
      ShownBy releases p (.serve fd buf env) (.answer c env)
  | wrote {fd : RawFd} {c : ℕ} (hc : client p.2 fd = some c) (response : HttpResponse)
      (order : List (Str × Str)) (n : ℕ) :
      ShownBy releases p (.write fd response order (.ok n)) (.send c response)
  | closed {fd : RawFd} {c : ℕ} (hc : client p.2 fd = some c) {deleted closed : Except OsError Unit}
      (hfreed : Kernel.freed releases deleted closed = true) :
      ShownBy releases p (.close fd deleted closed) (.hangUp c)
  | stopped (io : Io) : ShownBy releases p io .stop

theorem shownBy_of_mem {releases : OsError → Bool} {p : System} {io : Io}
    {e : Event ℕ Surroundings Bytes HttpResponse} (he : e ∈ shows releases p io) :
    ShownBy releases p io e := by
  unfold shows at he
  split at he
  case h_1 =>
    obtain rfl := List.mem_singleton.mp he
    exact .accepted _
  case h_2 fd buf =>
    split_ifs at he with hbuf
    · cases he
    · obtain ⟨c, hc, rfl⟩ := List.mem_map.mp he
      exact .read (Option.mem_toList.mp hc) hbuf
  case h_3 fd buf env =>
    obtain ⟨c, hc, rfl⟩ := List.mem_map.mp he
    exact .served (Option.mem_toList.mp hc) buf env
  case h_4 fd response order n =>
    obtain ⟨c, hc, rfl⟩ := List.mem_map.mp he
    exact .wrote (Option.mem_toList.mp hc) response order n
  case h_5 fd deleted closed =>
    obtain he | he := List.mem_append.mp he
    · unfold hangUps at he
      split_ifs at he with hfreed
      · obtain ⟨c, hc, rfl⟩ := List.mem_map.mp he
        exact .closed (Option.mem_toList.mp hc) hfreed
      · cases he
    · split_ifs at he
      · cases he
      · obtain rfl := List.mem_singleton.mp he
        exact .stopped _
  case h_10 => cases he
  all_goals
    obtain rfl := List.mem_singleton.mp he
    exact .stopped _

/-- What is shown of a run that begins as `event_loop` does. -/
def trace (r : Reactor) (listenFd epollFd : RawFd) (releases : OsError → Bool)
    (opened : Finset RawFd) (t : List Io) : List (Event ℕ Surroundings Bytes HttpResponse) :=
  shown (step r listenFd releases) (shows releases) (.enter epollFd, .start opened) t

/-- The descriptor of the event at hand. -/
def subject : Point → Option RawFd
  | .read fd _ => some fd
  | .handle fd _ _ => some fd
  | .write fd _ _ => some fd
  | .close fd _ => some fd
  | _ => none

/-- Every registered descriptor but the listener is a client's. -/
structure Clients (listenFd : RawFd) (p : System) : Prop where
  invariant : Invariant listenFd p
  positive : 0 < p.2.accepted
  registered : ∀ fd ∈ p.1.epoll.keys, fd ≠ listenFd → client p.2 fd ≠ none
  arrived : ∀ fd ∈ arriving listenFd p.1.point, fd ≠ listenFd → client p.2 fd ≠ none
  handled : ∀ fd ∈ subject p.1.point, fd ≠ listenFd

section Clients

variable {r : Reactor} {listenFd fd : RawFd} {releases : OsError → Bool} {s s' : LoopState}
  {k k' : Kernel} {p q : System} {io : Io}

theorem subject_nextEvent (events : List (RawFd × EventFlags)) :
    ∀ fd ∈ subject (nextEvent listenFd events), fd ≠ listenFd := by
  induction events with
  | nil => simp [nextEvent, subject]
  | cons e events ih =>
    rw [nextEvent]
    split_ifs with hfd hin
    · simp [subject]
    · rintro _ ⟨⟩
      exact hfd
    · exact ih

theorem epoll_of_close {deleted closed : Except OsError Unit}
    (h : r.step listenFd s (.close fd deleted closed) = some s') :
    s'.epoll = (s.epoll.close fd deleted closed).1 := by
  cases Reactor.step_cases h with
  | closed | closeFailed | dropClose => rfl

/-- What a registered descriptor denotes stays while it is registered. -/
theorem client_kept (hs : r.step listenFd s io = some s')
    (hk : Kernel.step releases k io = some k') (hfd : fd ∈ s'.epoll.keys)
    (hc : client k fd ≠ none) : client k' fd ≠ none := by
  obtain ⟨c, hc⟩ := Option.ne_none_iff_exists'.mp hc
  obtain ⟨hconnection, hpos⟩ := client_eq_some.mp hc
  have hsame : k'.connection fd = some c := by
    by_cases hclose : closes io = some fd
    · cases io with
      | close fd' deleted closed =>
        obtain rfl := Option.some.inj hclose
        rw [epoll_of_close hs] at hfd
        cases deleted with
        | error e => rw [Kernel.connection_close_error hk, hconnection]
        | ok => exact absurd rfl (EpollBackend.mem_keys_erase.mp hfd).1
      | _ => cases hclose
    · exact Persistence.connection_step hk hconnection hclose
  exact Option.ne_none_iff_exists'.mpr ⟨c, client_eq_some.mpr ⟨hsame, hpos⟩⟩

/-- Only `accept` and `close` change what descriptors denote. -/
theorem kernel_quiet (hk : Kernel.step releases k io = some k')
    (haccept : ∀ fd, io ≠ .accept (.ok fd)) :
    k'.accepted = k.accepted ∧ (closes io = none → k'.connection = k.connection) := by
  cases io with
  | epollAdd fd events added =>
    obtain ⟨set, -, rfl⟩ := Kernel.watch_iff.mp hk
    exact ⟨rfl, fun _ => rfl⟩
  | epollWait waited =>
    cases waited with
    | error e =>
      obtain rfl := Option.some.inj hk
      exact ⟨rfl, fun _ => rfl⟩
    | ok events =>
      obtain ⟨-, hk⟩ := Option.ite_none_right_eq_some.mp hk
      obtain rfl := Option.some.inj hk
      exact ⟨rfl, fun _ => rfl⟩
  | accept accepted =>
    cases accepted with
    | error e =>
      obtain rfl := Option.some.inj hk
      exact ⟨rfl, fun _ => rfl⟩
    | ok fd => exact absurd rfl (haccept fd)
  | close fd deleted closed =>
    obtain ⟨set, -, rfl⟩ := Kernel.step_close_iff.mp hk
    refine ⟨?_, by simp [closes]⟩
    split_ifs <;> rfl
  | _ =>
    obtain rfl := Option.some.inj hk
    exact ⟨rfl, fun _ => rfl⟩

theorem accept_iff : Kernel.step releases k (.accept (.ok fd)) = some k' ↔
    k.connection fd = none ∧ k' = { k with
      connection := Function.update k.connection fd (some k.accepted)
      accepted := k.accepted + 1 } := by
  simp only [Kernel.step, Option.ite_none_right_eq_some, Option.some.injEq, @eq_comm _ k']

/-- A step that registers nothing new: what remains is how the next point looks. -/
theorem Clients.of_keys (h : Clients listenFd (s, k)) (hinv : Invariant listenFd (s', k'))
    (hs : r.step listenFd s io = some s') (hk : Kernel.step releases k io = some k')
    (hkeys : ∀ fd ∈ s'.epoll.keys, fd ∈ s.epoll.keys ∨ fd ∈ arriving listenFd s.point)
    (harriving : ∀ fd ∈ arriving listenFd s'.point, client k' fd ≠ none)
    (hsubject : ∀ fd ∈ subject s'.point, fd ≠ listenFd) : Clients listenFd (s', k') where
  invariant := hinv
  positive := by
    by_cases haccept : ∃ fd, io = .accept (.ok fd)
    · obtain ⟨fd, rfl⟩ := haccept
      obtain ⟨-, rfl⟩ := accept_iff.mp hk
      exact Nat.succ_pos _
    · obtain ⟨hsame, -⟩ := kernel_quiet hk fun fd hio => haccept ⟨fd, hio⟩
      exact hsame ▸ h.positive
  registered fd hfd hne := by
    apply client_kept hs hk hfd
    obtain hold | hnew := hkeys fd hfd
    · exact h.registered fd hold hne
    · exact h.arrived fd hnew hne
  arrived fd hfd _ := harriving fd hfd
  handled := hsubject

theorem clients_step (h : Clients listenFd p) (hstep : step r listenFd releases p io = some q) :
    Clients listenFd q := by
  obtain ⟨s, k⟩ := p
  obtain ⟨s', k'⟩ := q
  have hinv := invariant_step h.invariant hstep
  obtain ⟨hs, hk⟩ := sync_iff.mp hstep
  dsimp only at hs hk
  have hsubject := h.handled
  dsimp only at hsubject
  cases Reactor.step_cases hs with
  | addListener hp | addClient hp =>
    refine h.of_keys hinv hs hk (fun fd hfd => ?_) (by simp [arriving]) (by simp [subject])
    obtain rfl | hold := EpollBackend.mem_keys_insert.mp hfd
    · exact Or.inr (by rw [hp]; rfl)
    · exact Or.inl hold
  | addListenerFailed | goOn | stop | waitFailed | addClientFailed | writeFailed | dropEpoll =>
    exact h.of_keys hinv hs hk (fun fd hfd => Or.inl hfd) (by simp [arriving]) (by simp [subject])
  | waited | acceptFailed | wrote =>
    exact h.of_keys hinv hs hk (fun fd hfd => Or.inl hfd) (by simp) (subject_nextEvent _)
  | @accepted rest hp fd =>
    refine h.of_keys hinv hs hk (fun fd hfd => Or.inl hfd) ?_ (by simp [subject])
    rintro _ ⟨⟩
    obtain ⟨-, rfl⟩ := accept_iff.mp hk
    refine Option.ne_none_iff_exists'.mpr ⟨k.accepted, client_eq_some.mpr ⟨?_, h.positive⟩⟩
    exact Function.update_self _ _ _
  | readSome hp | readNone hp =>
    rw [hp] at hsubject
    exact h.of_keys hinv hs hk (fun fd hfd => Or.inl hfd) (by simp [arriving]) hsubject
  | @handled fd buf rest hp env =>
    rw [hp] at hsubject
    refine h.of_keys hinv hs hk (fun fd hfd => Or.inl (by simpa using hfd)) ?_ ?_ <;>
    obtain ⟨m, -, ⟨response, -, he⟩ | ⟨e, -, he⟩ | ⟨-, he⟩ | ⟨-, he⟩⟩ :=
      Reactor.handle_cases r s env fd buf rest <;> rw [he]
    · simp [arriving]
    · simp [arriving]
    · simp [arriving]
    · simp [arriving]
    · exact hsubject
    · simp [subject]
    · simp [subject]
    · simp [subject]
  | closed =>
    refine h.of_keys hinv hs hk (fun fd hfd => Or.inl ?_) (by simp) (subject_nextEvent _)
    exact (EpollBackend.mem_keys_erase.mp hfd).2
  | closeFailed | dropClose =>
    refine h.of_keys hinv hs hk (fun fd hfd => Or.inl ?_) (by simp [arriving]) (by simp [subject])
    exact EpollBackend.mem_keys_of_mem_close hfd

end Clients

abbrev State := Service.State ℕ Surroundings Bytes HttpResponse Metrics

/-- The connections of the server are the clients the kernel's descriptors denote. -/
structure Numbered (k : Kernel) (a : State) : Prop where
  used : ∀ c ∈ a.used, c < k.accepted
  bounded : ∀ fd c, client k fd = some c → c < k.accepted
  live : ∀ c, c ∈ a.live ↔ ∃ fd, client k fd = some c
  injective : ∀ fd fd' c, client k fd = some c → client k fd' = some c → fd = fd'

/-- The request at hand in the loop is the question at hand in the server. -/
def Corresponds (k : Kernel) (phase : Phase ℕ Surroundings Bytes HttpResponse) : Point → Prop
  | .handle fd buf _ => ∃ c, client k fd = some c ∧ phase = .asked c buf
  | .write fd response _ => ∃ x, client k fd = some x.connection ∧ x.answer = response ∧
      phase = .answered x
  | .drop _ _ => ∃ left, phase = .stopped left
  | .returned _ => ∃ left, phase = .stopped left
  | .panicked => ∃ left, phase = .stopped left
  | .killed => ∃ left, phase = .stopped left
  | _ => phase = .idle

structure Serves (listenFd : RawFd) (p : System) (a : State) : Prop where
  clients : Clients listenFd p
  numbered : Numbered p.2 a
  shared : a.shared = p.1.metrics
  phase : Corresponds p.2 a.phase p.1.point

section Numbered

variable {r : Reactor} {releases : OsError → Bool} {k k' : Kernel} {a : State} {fd : RawFd}

theorem Numbered.of_client (h : Numbered k a) (haccepted : k'.accepted = k.accepted)
    (hclient : ∀ fd, client k' fd = client k fd) : Numbered k' a := by
  constructor
  · rw [haccepted]
    exact h.used
  · intro fd c
    rw [haccepted, hclient]
    exact h.bounded fd c
  · intro c
    simp only [hclient]
    exact h.live c
  · intro fd fd' c
    rw [hclient, hclient]
    exact h.injective fd fd' c

theorem Numbered.congr {a' : State} (h : Numbered k a) (hused : a'.used = a.used)
    (hlive : a'.live = a.live) : Numbered k a' :=
  ⟨hused ▸ h.used, h.bounded, hlive ▸ h.live, h.injective⟩

theorem client_accept (hpos : 0 < k.accepted) (fd' : RawFd) :
    client { k with
      connection := Function.update k.connection fd (some k.accepted)
      accepted := k.accepted + 1 } fd' =
    if fd' = fd then some k.accepted else client k fd' := by
  unfold client
  dsimp only
  rw [Function.update_apply]
  split_ifs
  · simp [Option.filter, hpos]
  · rfl

/-- The next number is a connection that there never was. -/
theorem Numbered.connect (h : Numbered k a) (hpos : 0 < k.accepted)
    (hk : Kernel.step releases k (.accept (.ok fd)) = some k') : k.accepted ∉ a.used ∧
      Numbered k' { a with
        live := insert k.accepted a.live
        used := insert k.accepted a.used } := by
  obtain ⟨hfree, rfl⟩ := accept_iff.mp hk
  have hfree' : client k fd = none := by simp [client, hfree]
  refine ⟨fun hmem => (h.used _ hmem).false, ?_⟩
  constructor
  · intro c hc
    obtain rfl | hc := Finset.mem_insert.mp hc
    · exact Nat.lt_succ_self _
    · exact (h.used c hc).trans (Nat.lt_succ_self _)
  · intro fd' c hc
    rw [client_accept hpos] at hc
    split_ifs at hc
    · obtain rfl := Option.some.inj hc
      exact Nat.lt_succ_self _
    · exact (h.bounded fd' c hc).trans (Nat.lt_succ_self _)
  · intro c
    rw [Finset.mem_insert, h.live]
    simp only [client_accept hpos]
    constructor
    · rintro (rfl | ⟨fd', hc⟩)
      · exact ⟨fd, if_pos rfl⟩
      · refine ⟨fd', (if_neg ?_).trans hc⟩
        rintro rfl
        simp [hfree'] at hc
    · rintro ⟨fd', hc⟩
      split_ifs at hc
      · exact Or.inl (Option.some.inj hc).symm
      · exact Or.inr ⟨fd', hc⟩
  · intro fd₁ fd₂ c h₁ h₂
    rw [client_accept hpos] at h₁ h₂
    -- no descriptor had the new number before
    split_ifs at h₁ h₂ with he₁ he₂ he₂
    · rw [he₁, he₂]
    · obtain rfl := Option.some.inj h₁
      exact absurd (h.bounded _ _ h₂) (lt_irrefl _)
    · obtain rfl := Option.some.inj h₂
      exact absurd (h.bounded _ _ h₁) (lt_irrefl _)
    · exact h.injective fd₁ fd₂ c h₁ h₂

theorem client_close {deleted closed : Except OsError Unit}
    (hk : Kernel.step releases k (.close fd deleted closed) = some k') (fd' : RawFd) :
    client k' fd' = if Kernel.freed releases deleted closed = true ∧ fd' = fd then none
      else client k fd' := by
  obtain ⟨set, -, rfl⟩ := Kernel.step_close_iff.mp hk
  by_cases hfreed : Kernel.freed releases deleted closed = true
  · rw [if_pos hfreed, client, Kernel.release]
    dsimp only
    rw [Function.update_apply]
    by_cases hfd : fd' = fd
    · rw [if_pos hfd, if_pos ⟨hfreed, hfd⟩, Option.filter_none]
    · rw [if_neg hfd, if_neg fun h => hfd h.2]
      rfl
  · rw [if_neg hfreed, if_neg fun h => hfreed h.1]
    rfl

/-- A close that gives the number back hangs up on the client behind it. -/
theorem Numbered.close (h : Numbered k a) {deleted closed : Except OsError Unit}
    (hphase : a.phase = .idle ∨ ∃ left, a.phase = .stopped left)
    (hk : Kernel.step releases k (.close fd deleted closed) = some k') :
    ∃ live, run (Service.step (handler r)) a (hangUps releases k fd deleted closed) =
      some { a with live := live } ∧ Numbered k' { a with live := live } := by
  unfold hangUps
  have haccepted : k'.accepted = k.accepted := (kernel_quiet hk (by simp)).1
  have hclient := client_close hk
  by_cases hfreed : Kernel.freed releases deleted closed = true
  case neg =>
    refine ⟨a.live, by rw [if_neg hfreed]; rfl, h.of_client haccepted fun fd' => ?_⟩
    rw [hclient, if_neg fun h => hfreed h.1]
  rw [if_pos hfreed]
  simp only [hfreed, true_and] at hclient
  cases hc : client k fd with
  | none =>
    refine ⟨a.live, rfl, h.of_client haccepted fun fd' => ?_⟩
    rw [hclient]
    split_ifs with hfd
    · rw [hfd, hc]
    · rfl
  | some c =>
    have hother (fd' : RawFd) (d : ℕ) :
        client k' fd' = some d ↔ d ≠ c ∧ client k fd' = some d := by
      rw [hclient]
      split_ifs with hfd
      · simp [hfd, hc, eq_comm]
      · refine ⟨fun hd => ⟨?_, hd⟩, And.right⟩
        rintro rfl
        exact hfd (h.injective _ _ _ hd hc)
    have hlive : c ∈ a.live := (h.live c).mpr ⟨fd, hc⟩
    refine ⟨a.live.erase c, run_cons_iff.mpr ⟨_, Service.step_hangUp hphase hlive, rfl⟩, ?_⟩
    constructor
    · rw [haccepted]
      exact h.used
    · intro fd' d hd
      rw [haccepted]
      exact h.bounded fd' d ((hother fd' d).mp hd).2
    · intro d
      simp only [hother, Finset.mem_erase, h.live, exists_and_left]
    · intro fd₁ fd₂ d h₁ h₂
      exact h.injective fd₁ fd₂ d ((hother fd₁ d).mp h₁).2 ((hother fd₂ d).mp h₂).2

end Numbered

section Simulation

variable {r : Reactor} {listenFd epollFd fd : RawFd} {releases : OsError → Bool}
  {opened : Finset RawFd} {s s' : LoopState} {k k' : Kernel} {p q : System} {a : State} {io : Io}
  {t : List Io}

theorem corresponds_nextEvent (events : List (RawFd × EventFlags))
    {phase : Phase ℕ Surroundings Bytes HttpResponse} (hphase : phase = .idle) :
    Corresponds k phase (nextEvent listenFd events) :=
  nextEvent_of (P := Corresponds k phase) hphase (fun _ => hphase) (fun _ _ => hphase) _ _

/-- The event at hand is a client's. -/
theorem Clients.subject_client (h : Clients listenFd (s, k)) (hfd : subject s.point = some fd) :
    ∃ c, client k fd = some c := by
  have hmem : fd ∈ unprocessed s.point := by
    cases hp : s.point with
    | read | handle | write | close =>
      rw [hp] at hfd
      obtain rfl := Option.some.inj hfd
      exact List.mem_cons_self
    | _ => simp [hp, subject] at hfd
  have hne := h.registered fd (h.invariant.fresh.registered fd hmem) (h.handled fd hfd)
  exact Option.ne_none_iff_exists'.mp hne

/-- The loop is left, with or without a question at hand. -/
theorem stopped_run (a : State) : run (Service.step (handler r)) a [.stop] =
    some { a with phase := .stopped a.phase.pending } :=
  run_cons_iff.mpr ⟨_, Service.step_stop, rfl⟩

/-- A request is handled as the server answers its question, or it stops the server. -/
theorem serves_handled {s : LoopState} {k k' : Kernel} {a : State} {fd : RawFd} {buf : Bytes}
    {rest : List (RawFd × EventFlags)} {env : Surroundings} (h : Serves listenFd (s, k) a)
    (hp : s.point = .handle fd buf rest)
    (hclients : Clients listenFd (r.handle s env fd buf rest, k')) (hnumbered : Numbered k' a)
    (hconnection : k'.connection = k.connection) :
    ∃ a', run (Service.step (handler r)) a (shows releases (s, k) (.serve fd buf env)) = some a' ∧
      Serves listenFd (r.handle s env fd buf rest, k') a' := by
  have hphase := h.phase
  dsimp only at hphase
  rw [hp] at hphase
  obtain ⟨c, hc, hphase⟩ := hphase
  have hshows : shows releases (s, k) (.serve fd buf env) = [.answer c env] := by
    simp only [shows, hc, Option.toList_some, List.map_cons, List.map_nil]
  have hc' : client k' fd = some c := (client_congr (congrFun hconnection fd)).trans hc
  rw [hshows]
  obtain ⟨m, rfl, hresponse⟩ := Reactor.handle_cases r s env fd buf rest
  have hreceived : (handler r).received a.shared = { s.metrics with
      requestsTotal := incBy s.metrics.requestsTotal 1 } := by
    rw [h.shared]
    rfl
  obtain ⟨response, hr, he⟩ | hnone := hresponse
  · have hanswer : (handler r).answer env ((handler r).received a.shared) buf =
        some response := by
      rw [hreceived]
      simp only [handler, hr, Except.toOption]
    rw [he] at hclients ⊢
    exact ⟨_, run_cons_iff.mpr ⟨_, Service.step_answer hphase hanswer, rfl⟩, hclients,
      hnumbered.congr rfl rfl, hreceived, ⟨c, buf, env, response⟩, hc', rfl, rfl⟩
  · have hanswer : (handler r).answer env ((handler r).received a.shared) buf = none := by
      rw [hreceived]
      obtain ⟨e, hr, -⟩ | ⟨hr, -⟩ | ⟨hr, -⟩ := hnone <;>
        simp only [handler, hr, Except.toOption]
    refine ⟨_, run_cons_iff.mpr ⟨_, Service.step_answerNone hphase hanswer, rfl⟩, hclients,
      hnumbered.congr rfl rfl, ?_, ?_⟩
    · obtain ⟨e, -, he⟩ | ⟨-, he⟩ | ⟨-, he⟩ := hnone <;> rw [he] <;> exact hreceived
    · obtain ⟨e, -, he⟩ | ⟨-, he⟩ | ⟨-, he⟩ := hnone <;> rw [he] <;> exact ⟨_, rfl⟩

/-- One call of `event_loop` is what it shows of the server. -/
theorem serves_step : Simulates (step r listenFd releases) (Service.step (handler r))
    (shows releases) (Serves listenFd) := by
  rintro p io q a h hstep
  have hclients := clients_step h.clients hstep
  obtain ⟨s, k⟩ := p
  obtain ⟨s', k'⟩ := q
  obtain ⟨hs, hk⟩ := sync_iff.mp hstep
  dsimp only at hs hk
  have hnumbered := h.numbered
  have hshared := h.shared
  have hphase := h.phase
  dsimp only at hnumbered hshared hphase
  have hquiet (haccept : ∀ fd, io ≠ .accept (.ok fd)) (hclose : closes io = none) :
      Numbered k' a ∧ k'.connection = k.connection := by
    obtain ⟨haccepted, hconnection⟩ := kernel_quiet hk haccept
    exact ⟨hnumbered.of_client haccepted fun fd => client_congr (congrFun (hconnection hclose) fd),
      hconnection hclose⟩
  cases Reactor.step_cases hs with
  | addListener hp | goOn hp | addClient hp =>
    rw [hp] at hphase
    exact ⟨a, rfl, hclients, (hquiet (by simp) rfl).1, hshared, hphase⟩
  | waited hp | acceptFailed hp =>
    rw [hp] at hphase
    exact ⟨a, rfl, hclients, (hquiet (by simp) rfl).1, hshared, corresponds_nextEvent _ hphase⟩
  | dropEpoll hp =>
    rw [hp] at hphase
    exact ⟨a, rfl, hclients, (hquiet (by simp) rfl).1, hshared, hphase⟩
  | addListenerFailed | stop | waitFailed | addClientFailed | writeFailed =>
    exact ⟨_, stopped_run a, hclients, (hquiet (by simp) rfl).1.congr rfl rfl, hshared, _, rfl⟩
  | @accepted rest hp fd =>
    rw [hp] at hphase
    obtain ⟨hfresh, hnumbered'⟩ := hnumbered.connect h.clients.positive hk
    exact ⟨_, run_cons_iff.mpr ⟨_, Service.step_connect hphase hfresh, rfl⟩, hclients,
      hnumbered', hshared, hphase⟩
  | @readSome fd rest hp buf hpos hlen =>
    have hsubject : subject s.point = some fd := by rw [hp]; rfl
    obtain ⟨c, hc⟩ := h.clients.subject_client hsubject
    obtain ⟨hnumbered', hconnection⟩ := hquiet (by simp) rfl
    rw [hp] at hphase
    have hlive : c ∈ a.live := (hnumbered.live c).mpr ⟨fd, hc⟩
    have hshows : shows releases (s, k) (.read fd (.ok buf)) = [.ask c buf] := by
      simp only [shows, if_neg hpos, hc, Option.toList_some, List.map_cons, List.map_nil]
    rw [hshows]
    exact ⟨_, run_cons_iff.mpr ⟨_, Service.step_ask hphase hlive buf, rfl⟩, hclients,
      hnumbered'.congr rfl rfl, hshared, c,
      (client_congr (congrFun hconnection fd)).trans hc, rfl⟩
  | @readNone fd rest hp got hgot =>
    rw [hp] at hphase
    have hshows : shows releases (s, k) (.read fd got) = [] := by
      cases got with
      | error e => rfl
      | ok buf => simp only [shows, hgot buf rfl, if_true]
    rw [hshows]
    exact ⟨a, rfl, hclients, (hquiet (by simp) rfl).1, hshared, hphase⟩
  | @handled fd buf rest hp env =>
    obtain ⟨hnumbered', hconnection⟩ := hquiet (by simp) rfl
    exact serves_handled h hp hclients hnumbered' hconnection
  | @wrote fd response rest hp order horder n =>
    obtain ⟨hnumbered', -⟩ := hquiet (by simp) rfl
    rw [hp] at hphase
    obtain ⟨x, hc, rfl, hphase⟩ := hphase
    have hshows : shows releases (s, k) (.write fd x.answer order (.ok n)) =
        [.send x.connection x.answer] := by
      simp only [shows, hc, Option.toList_some, List.map_cons, List.map_nil]
    rw [hshows]
    refine ⟨_, run_cons_iff.mpr ⟨_, Service.step_send hphase, rfl⟩, hclients,
      hnumbered'.congr rfl rfl, ?_, corresponds_nextEvent _ rfl⟩
    rw [HttpResponse.toBytes_length horder, hshared]
    rfl
  | @closed fd rest hp =>
    rw [hp] at hphase
    obtain ⟨live, hrun, hnumbered'⟩ := hnumbered.close (r := r) (Or.inl hphase) hk
    refine ⟨{ a with live := live }, ?_, hclients, hnumbered', hshared,
      corresponds_nextEvent _ hphase⟩
    exact (congrArg _ (List.append_nil _)).trans hrun
  | @closeFailed fd rest hp deleted closed hfail =>
    rw [hp] at hphase
    obtain ⟨live, hrun, hnumbered'⟩ := hnumbered.close (r := r) (Or.inl hphase) hk
    rw [shows, if_neg (not_and_or.mpr hfail)]
    exact ⟨_, run_append_iff.mpr ⟨_, hrun, stopped_run _⟩, hclients, hnumbered'.congr rfl rfl,
      hshared, _, rfl⟩
  | @dropClose fds result hp fd hfd deleted closed =>
    rw [hp] at hphase
    obtain ⟨left, hphase⟩ := hphase
    obtain ⟨live, hrun, hnumbered'⟩ := hnumbered.close (r := r) (Or.inr ⟨left, hphase⟩) hk
    rw [shows]
    split_ifs
    · rw [List.append_nil]
      exact ⟨_, hrun, hclients, hnumbered', hshared, left, hphase⟩
    · exact ⟨_, run_append_iff.mpr ⟨_, hrun, stopped_run _⟩, hclients,
        hnumbered'.congr rfl rfl, hshared, _, rfl⟩

theorem serves_enter (hopen : listenFd ∈ opened) :
    Serves listenFd (.enter epollFd, .start opened) (.start ⟨0, 0⟩) where
  clients := by
    refine ⟨invariant_enter hopen epollFd, Nat.one_pos, ?_, ?_, by simp [LoopState.enter, subject]⟩
    · exact fun fd hfd => absurd hfd List.not_mem_nil
    · rintro fd ⟨⟩ hne
      exact absurd rfl hne
  numbered := by
    have hnone (fd : RawFd) : client (.start opened) fd = none := by
      simp only [client, Kernel.start]
      split_ifs <;> rfl
    constructor <;> simp [Service.State.start, hnone]
  shared := rfl
  phase := rfl

/-- Every run of `event_loop` over the kernel's descriptors is a run of a server that
answers one question at a time, over what it shows by connection. -/
theorem event_loop_refines_service (r : Reactor) (listenFd epollFd : RawFd)
    (releases : OsError → Bool) (opened : Finset RawFd) (hopen : listenFd ∈ opened) (t : List Io)
    (p : System)
    (hrun : run (step r listenFd releases) (.enter epollFd, .start opened) t = some p) :
    ∃ a, run (Service.step (handler r)) (.start ⟨0, 0⟩)
        (trace r listenFd epollFd releases opened t) = some a ∧ Serves listenFd p a :=
  serves_step.run (serves_enter hopen) hrun

end Simulation

section Results

variable {r : Reactor} {listenFd epollFd fd : RawFd} {releases : OsError → Bool}
  {opened : Finset RawFd} {p q : System} {t : List Io} {c : ℕ}

theorem asks_trace_concat
    (hrun : run (step r listenFd releases) (.enter epollFd, .start opened) t = some p) {io : Io}
    (hs : step r listenFd releases p io = some q) :
    Service.asks (trace r listenFd epollFd releases opened (t ++ [io])) =
      Service.asks (trace r listenFd epollFd releases opened t) ++
        (shows releases p io).flatMap Event.asked := by
  rw [trace, shown_concat hrun hs, Service.asks, List.flatMap_append]
  rfl

/-- Serving and writing ask nothing. -/
theorem asks_serve (p : System) (fd : RawFd) (buf : Bytes) (env : Surroundings) :
    (shows releases p (.serve fd buf env)).flatMap Event.asked = [] := by
  simp [shows, Event.asked]

theorem asks_write (p : System) (fd : RawFd) (response : HttpResponse) (order : List (Str × Str))
    (n : ℕ) : (shows releases p (.write fd response order (.ok n))).flatMap Event.asked = [] := by
  simp [shows, Event.asked]

/-- With the response at hand written the run goes on, and nothing more has been asked. -/
theorem written_run {s : LoopState} {k : Kernel} {response : HttpResponse}
    {rest : List (RawFd × EventFlags)}
    (hrun : run (step r listenFd releases) (.enter epollFd, .start opened) t = some (s, k))
    (hp : s.point = .write fd response rest) (n : ℕ) :
    let t' := t ++ [.write fd response response.fields (.ok n)]
    ∃ s', run (step r listenFd releases) (.enter epollFd, .start opened) t' = some (s', k) ∧
      s'.point = nextEvent listenFd rest ∧
      Service.asks (trace r listenFd epollFd releases opened t') =
        Service.asks (trace r listenFd epollFd releases opened t) := by
  have hstep : step r listenFd releases (s, k) (.write fd response response.fields (.ok n)) =
      some (_, k) := sync_iff.mpr ⟨Reactor.step_wrote hp (List.Perm.refl _) n, rfl⟩
  refine ⟨_, run_concat_iff.mpr ⟨_, hrun, hstep⟩, rfl, ?_⟩
  rw [asks_trace_concat hrun hstep, asks_write, List.append_nil]

/-- A client connects as descriptor 5, sends one byte and is answered. -/
theorem strayByte_served : ∃ p, run (step Reactor.stock 3 fun _ => true) (.enter 4, .start {3, 4})
    (Delivery.strayByte ++ [Delivery.refusal 117]) = some p ∧ p.1.point = .top ∧
    Service.asks (trace Reactor.stock 3 4 (fun _ => true) {3, 4}
      (Delivery.strayByte ++ [Delivery.refusal 117])) = [(1, [0x78])] := by
  have hbefore : ∃ k, run (step Reactor.stock 3 fun _ => true) (.enter 4, .start {3, 4})
      Delivery.strayByte = some (Delivery.refusing, k) := ⟨_, rfl⟩
  obtain ⟨k, hrun⟩ := hbefore
  obtain ⟨s, hwritten, htop, hasks⟩ := written_run hrun rfl 117
  exact ⟨(s, k), hwritten, htop, hasks.trans rfl⟩

theorem strayByte_refines_service : ∃ p a,
    run (Service.step (handler Reactor.stock)) (.start ⟨0, 0⟩)
      (trace Reactor.stock 3 4 (fun _ => true) {3, 4}
        (Delivery.strayByte ++ [Delivery.refusal 117])) = some a ∧ Serves 3 p a := by
  obtain ⟨p, hrun, -⟩ := strayByte_served
  obtain ⟨a, ha⟩ := event_loop_refines_service Reactor.stock 3 4 (fun _ => true) {3, 4} (by decide)
    _ p hrun
  exact ⟨p, a, ha⟩

/-- No request of the connection is being served, and the loop has not been left. -/
def Resting (p : System) (c : ℕ) : Prop :=
  match p.1.point with
  | .handle fd _ _ => client p.2 fd ≠ some c
  | .write fd _ _ => client p.2 fd ≠ some c
  | .drop _ _ => False
  | .returned _ => False
  | .panicked => False
  | .killed => False
  | _ => True

/-- The books of the server that a run of `event_loop` shows. -/
theorem books_of_run (hopen : listenFd ∈ opened)
    (hrun : run (step r listenFd releases) (.enter epollFd, .start opened) t = some p) :
    ∃ a log m, Serves listenFd p a ∧
      Service.Books (handler r) ⟨0, 0⟩ (trace r listenFd epollFd releases opened t) a log m := by
  obtain ⟨a, hserver, hserves⟩ := serves_step.run (serves_enter hopen) hrun
  obtain ⟨log, m, hbooks⟩ := Service.books_of_run hserver
  exact ⟨a, log, m, hserves, hbooks⟩

theorem ofConnection_pending {a : State} (h : Serves listenFd p a) (hrest : Resting p c) :
    Service.ofConnection c a.phase.pending.toList = [] := by
  have hphase := h.phase
  unfold Resting at hrest
  cases hp : p.1.point with
  | handle fd buf rest =>
    rw [hp] at hphase hrest
    obtain ⟨d, hd, hphase⟩ := hphase
    rw [hphase]
    exact Service.ofConnection_cons_of_ne (fun hdc => hrest (hd.trans (congrArg some hdc))) _
  | write fd response rest =>
    rw [hp] at hphase hrest
    obtain ⟨x, hx, -, hphase⟩ := hphase
    rw [hphase]
    exact Service.ofConnection_cons_of_ne (fun hxc => hrest (hx.trans (congrArg some hxc))) _
  | drop | returned | panicked | killed =>
    rw [hp] at hrest
    exact hrest.elim
  | _ =>
    rw [hp] at hphase
    rw [show a.phase = .idle from hphase]
    rfl

/-- What a connection has asked is answered, but for one question at most that is being
served. -/
theorem asked_by {a : State} {log : List (Exchange ℕ Surroundings Bytes HttpResponse)}
    {m : Metrics} (hserves : Serves listenFd p a) (hbooks : Service.Books (handler r) ⟨0, 0⟩
      (trace r listenFd epollFd releases opened t) a log m) (c : ℕ) :
    ∃ left, Service.ofConnection c (Service.asks (trace r listenFd epollFd releases opened t)) =
        (log.filter fun x => x.connection = c).map Exchange.question ++ left ∧
      left.length ≤ 1 ∧ (Resting p c → left = []) := by
  refine ⟨Service.ofConnection c a.phase.pending.toList, ?_, ?_, ofConnection_pending hserves⟩
  · rw [hbooks.asked, Service.ofConnection_append]
    exact congrArg (· ++ _) (Service.ofConnection_map Exchange.question log)
  · exact (List.length_filterMap_le _ _).trans Option.length_toList_le

theorem serve_of_mem_serves {env : Surroundings} (henv : env ∈ Service.ofConnection c
    (Service.serves (trace r listenFd epollFd releases opened t))) :
    ∃ fd buf, .serve fd buf env ∈ t := by
  obtain ⟨e, he, hserved⟩ := List.mem_flatMap.mp (Service.mem_ofConnection.mp henv)
  obtain ⟨io, hio, m, hshown⟩ := mem_shown he
  have henv' : e = .answer c env := by
    cases e with
    | answer c' env' =>
      obtain ⟨rfl, rfl⟩ := Prod.mk.inj (List.mem_singleton.mp hserved)
      rfl
    | _ => cases hserved
  subst henv'
  cases shownBy_of_mem hshown with
  | @served fd _ hc buf => exact ⟨fd, buf, hio⟩

theorem idle_of_top {a : State} (h : Serves listenFd p a) (htop : p.1.point = .top) :
    a.phase = .idle := by
  have hphase := h.phase
  rw [htop] at hphase
  exact hphase

/-- In every run, however many connections there are and however their reads interleave, the
responses written are the answers to the buffers read, in one order, one for one; each sees
the counters the one before left. At most one buffer has no response yet. -/
theorem event_loop_answers_in_turn (r : Reactor) (listenFd epollFd : RawFd)
    (releases : OsError → Bool) (opened : Finset RawFd) (hopen : listenFd ∈ opened) (t : List Io)
    (p : System)
    (hrun : run (step r listenFd releases) (.enter epollFd, .start opened) t = some p) :
    let shown := trace r listenFd epollFd releases opened t
    ∃ log m, Service.Serial (handler r) ⟨0, 0⟩ log m ∧
      Service.sends shown = log.map Exchange.sent ∧
      log.map Exchange.served <+: Service.serves shown ∧
      (∃ left, Service.asks shown = log.map Exchange.asked ++ left ∧ left.length ≤ 1) ∧
      (p.1.point = .top → Service.asks shown = log.map Exchange.asked ∧ m = p.1.metrics) := by
  obtain ⟨a, log, m, hserves, hbooks⟩ := books_of_run hopen hrun
  refine ⟨log, m, hbooks.serial, hbooks.sent, hbooks.atHand.served_prefix,
    ⟨_, hbooks.asked, Option.length_toList_le⟩, fun htop => ?_⟩
  have hidle := idle_of_top hserves htop
  have hasked := hbooks.asked
  have hhand := hbooks.atHand
  rw [hidle] at hasked hhand
  refine ⟨hasked.trans (List.append_nil _), ?_⟩
  rw [← hserves.shared]
  exact hhand.1.symm

theorem strayByte_answered_in_turn :
    let shown := trace Reactor.stock 3 4 (fun _ => true) {3, 4}
      (Delivery.strayByte ++ [Delivery.refusal 117])
    ∃ log m, Service.Serial (handler Reactor.stock) ⟨0, 0⟩ log m ∧
      Service.asks shown = log.map Exchange.asked ∧
      Service.sends shown = log.map Exchange.sent := by
  obtain ⟨p, hrun, htop, -⟩ := strayByte_served
  obtain ⟨log, m, hserial, hsends, -, -, hdone⟩ := event_loop_answers_in_turn Reactor.stock 3 4
    (fun _ => true) {3, 4} (by decide) _ p hrun
  exact ⟨log, m, hserial, (hdone htop).1, hsends⟩

/-- Neither the counters nor the encoder have a part in the response. -/
def Plain (r : Reactor) (buf : Bytes) : Prop :=
  question r buf ≠ .route (some .metrics) ∧ question r buf ≠ .route (some .stats)

/-- Such a question is answered from the static tree alone. -/
theorem respond_plain {fs : Filesystem} {env : Surroundings} (henv : env.fs = fs) (m : Metrics)
    {buf : Bytes} (hplain : Plain r buf) :
    r.respond env m buf = r.respond ⟨fs, .ok []⟩ ⟨0, 0⟩ buf := by
  subst henv
  rw [respond_eq, respond_eq]
  obtain ⟨hmetrics, hstats⟩ := hplain
  cases hq : question r buf with
  | refused => rfl
  | file path => cases path <;> rfl
  | route e =>
    rw [hq] at hmetrics hstats
    cases e with
    | none => rfl
    | some e =>
      cases e with
      | health => rfl
      | metrics => exact absurd rfl hmetrics
      | stats => exact absurd rfl hstats

/-- In either mode two connections, of one run or of two, that send the same buffers, none of
them for the metrics or the statistics, are sent the same responses: what other clients do
and what the counters say makes no difference. -/
theorem plain_connections_agree (r : Reactor) (fs : Filesystem)
    (listenFd₁ listenFd₂ epollFd₁ epollFd₂ : RawFd) (releases₁ releases₂ : OsError → Bool)
    (opened₁ opened₂ : Finset RawFd) (hopen₁ : listenFd₁ ∈ opened₁) (hopen₂ : listenFd₂ ∈ opened₂)
    (t₁ t₂ : List Io) (p₁ p₂ : System)
    (hrun₁ : run (step r listenFd₁ releases₁) (.enter epollFd₁, .start opened₁) t₁ = some p₁)
    (hrun₂ : run (step r listenFd₂ releases₂) (.enter epollFd₂, .start opened₂) t₂ = some p₂)
    (hfs₁ : ∀ io ∈ t₁, Unchanging fs io) (hfs₂ : ∀ io ∈ t₂, Unchanging fs io) (c₁ c₂ : ℕ)
    (hplain : ∀ buf ∈ Service.ofConnection c₁
      (Service.asks (trace r listenFd₁ epollFd₁ releases₁ opened₁ t₁)), Plain r buf)
    (hasks : Service.ofConnection c₁
        (Service.asks (trace r listenFd₁ epollFd₁ releases₁ opened₁ t₁)) =
      Service.ofConnection c₂ (Service.asks (trace r listenFd₂ epollFd₂ releases₂ opened₂ t₂)))
    (hrest₁ : Resting p₁ c₁) (hrest₂ : Resting p₂ c₂) :
    Service.ofConnection c₁ (Service.sends (trace r listenFd₁ epollFd₁ releases₁ opened₁ t₁)) =
      Service.ofConnection c₂
        (Service.sends (trace r listenFd₂ epollFd₂ releases₂ opened₂ t₂)) := by
  obtain ⟨a₁, log₁, m₁, hserves₁, hbooks₁⟩ := books_of_run hopen₁ hrun₁
  obtain ⟨a₂, log₂, m₂, hserves₂, hbooks₂⟩ := books_of_run hopen₂ hrun₂
  have hanswer : ∀ env m buf, env.fs = fs → Plain r buf → (handler r).answer env m buf =
      (r.respond ⟨fs, .ok []⟩ ⟨0, 0⟩ buf).toOption := by
    intro env m buf henv hbuf
    exact congrArg Except.toOption (respond_plain henv m hbuf)
  refine hbooks₁.sends_congr hbooks₂ hanswer hplain ?_ ?_ hasks
    (ofConnection_pending hserves₁ hrest₁) (ofConnection_pending hserves₂ hrest₂)
  · intro env henv
    obtain ⟨fd, buf, hmem⟩ := serve_of_mem_serves henv
    exact hfs₁ _ hmem
  · intro env henv
    obtain ⟨fd, buf, hmem⟩ := serve_of_mem_serves henv
    exact hfs₂ _ hmem

def crowdedRefusal : Io :=
  .write 9 HttpResponse.badRequest HttpResponse.badRequest.fields (.ok 117)

/-- The same byte from descriptor 9, behind a client that hangs up in the same batch. -/
theorem crowdedByte_served : ∃ p, run (step Reactor.stock 3 fun _ => true) (.enter 4, .start {3, 4})
    (Isolation.crowdedByte ++ [crowdedRefusal]) = some p ∧ p.1.point = .top ∧
    Service.asks (trace Reactor.stock 3 4 (fun _ => true) {3, 4}
      (Isolation.crowdedByte ++ [crowdedRefusal])) = [(2, [0x78])] := by
  have hbefore : ∃ k, run (step Reactor.stock 3 fun _ => true) (.enter 4, .start {3, 4})
      Isolation.crowdedByte = some (Isolation.refusingCrowded, k) := ⟨_, rfl⟩
  obtain ⟨k, hrun⟩ := hbefore
  obtain ⟨s, hwritten, htop, hasks⟩ := written_run hrun rfl 117
  exact ⟨(s, k), hwritten, htop, hasks.trans rfl⟩

theorem crowded_connection_agrees :
    Service.ofConnection 1 (Service.sends (trace Reactor.stock 3 4 (fun _ => true) {3, 4}
      (Delivery.strayByte ++ [Delivery.refusal 117]))) =
    Service.ofConnection 2 (Service.sends (trace Reactor.stock 3 4 (fun _ => true) {3, 4}
      (Isolation.crowdedByte ++ [crowdedRefusal]))) := by
  obtain ⟨p₁, hrun₁, htop₁, hasks₁⟩ := strayByte_served
  obtain ⟨p₂, hrun₂, htop₂, hasks₂⟩ := crowdedByte_served
  refine plain_connections_agree Reactor.stock (onlyFile [] []) 3 3 4 4 _ _ {3, 4} {3, 4}
    (by decide) (by decide) _ _ p₁ p₂ hrun₁ hrun₂ ?_ ?_ 1 2 ?_ ?_ ?_ ?_
  · simp [Delivery.strayByte, Delivery.refusal, Delivery.quietSurroundings, Unchanging]
  · simp [Isolation.crowdedByte, crowdedRefusal, Delivery.quietSurroundings, Unchanging]
  · rw [hasks₁]
    intro buf hbuf
    obtain rfl := List.mem_singleton.mp hbuf
    exact ⟨by decide, by decide⟩
  · rw [hasks₁, hasks₂]
    rfl
  · rw [Resting, htop₁]
    trivial
  · rw [Resting, htop₂]
    trivial

end Results

end KernelEngine.Serving
