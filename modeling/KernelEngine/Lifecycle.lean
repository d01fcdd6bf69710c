import KernelEngine.Serving

namespace KernelEngine.Lifecycle
open Rust File Http Net Worker Runs Generations Serving
open Resilience (closes)
open Service (Event)

/-- The descriptor a call reads, serves, writes or closes. -/
def concerns : Io → Option RawFd
  | .serve fd _ _ => some fd
  | io => touched io

/-- What a call is to a connection, whatever descriptor it goes by. -/
def labelled (releases : OsError → Bool) (c : ℕ) :
    Io → List (Event ℕ Surroundings Bytes HttpResponse)
  | .read _ (.ok buf) => if buf = [] then [] else [.ask c buf]
  | .serve _ _ env => [.answer c env]
  | .write _ response _ (.ok _) => [.send c response]
  | .close _ deleted closed => if Kernel.freed releases deleted closed then [.hangUp c] else []
  | _ => []

/-- The call goes by a descriptor that denotes the connection, as no other does. It has been
accepted and not been closed yet, and what is shown of the call is what it is to it. -/
structure OnConnection (releases : OsError → Bool)
    (past : List (Event ℕ Surroundings Bytes HttpResponse)) (p : System) (fd : RawFd) (io : Io)
    (c : ℕ) : Prop where
  denotes : client p.2 fd = some c
  alone : ∀ fd', client p.2 fd' = some c → fd' = fd
  connected : .connect c ∈ past
  kept : .hangUp c ∉ past
  shown : ∃ n, shows releases p io = labelled releases c io ++ List.replicate n .stop

/-- The listening socket is closed as the loop is left. -/
structure OnListener (listenFd : RawFd) (p : System) (fd : RawFd) (io : Io) : Prop where
  same : fd = listenFd
  closed : closes io = some fd
  denotes : p.2.connection fd = some 0
  leaving : Dropping p.1

/-- The listening socket is open until the loop is left and drops it. -/
def ListenerKept (listenFd : RawFd) (p : System) : Prop :=
  p.2.connection listenFd = some 0 ∨
    (∃ fds result, p.1.point = .drop fds result ∧ listenFd ∉ fds) ∨
    ∃ result, p.1.point = .returned result

section Steps

variable {r : Reactor} {listenFd epollFd fd : RawFd} {releases : OsError → Bool}
  {opened : Finset RawFd} {p q : System} {t : List Io} {io : Io} {c : ℕ}

theorem listenerKept_step (h : ListenerKept listenFd p) (hclients : Clients listenFd p)
    (hs : step r listenFd releases p io = some q) : ListenerKept listenFd q := by
  obtain ⟨s, k⟩ := p
  obtain ⟨s', k'⟩ := q
  obtain ⟨hs, hk⟩ := sync_iff.mp hs
  have hhandled := hclients.handled
  have hleft := hclients.invariant.left.1
  dsimp only at hs hk hhandled hleft
  obtain hopen | ⟨fds, result, hp, hnot⟩ | ⟨result, hp⟩ := h
  · by_cases hclose : closes io = some listenFd
    case neg => exact Or.inl (Persistence.connection_step hk hopen hclose)
    -- only the drop closes the listener
    cases Reactor.step_cases hs with
    | closed hp | closeFailed hp =>
      rw [hp] at hhandled
      exact absurd (Option.some.inj hclose) (hhandled _ rfl)
    | @dropClose fds result hp fd hfd =>
      obtain rfl := Option.some.inj hclose
      rw [hp, dropped] at hleft
      exact Or.inr (Or.inl ⟨_, result, rfl, hleft.not_mem_erase⟩)
    | _ => cases hclose
  · dsimp only at hp
    cases Reactor.step_cases hs with
    | @dropClose fds' result' hp' =>
      obtain ⟨rfl, rfl⟩ := Point.drop.inj (hp.symm.trans hp')
      exact Or.inr (Or.inl ⟨_, _, rfl, fun hmem => hnot (List.mem_of_mem_erase hmem)⟩)
    | @dropEpoll result' => exact Or.inr (Or.inr ⟨result', rfl⟩)
    | _ hp' => cases hp.symm.trans hp'
  · dsimp only at hp
    cases Reactor.step_cases hs with
    | _ hp' => cases hp.symm.trans hp'

/-- A call on a descriptor is on a client's, or it closes the listener. -/
theorem onListener_or_client (h : Clients listenFd p) (hkept : ListenerKept listenFd p)
    (hs : step r listenFd releases p io = some q) (hfd : concerns io = some fd) :
    OnListener listenFd p fd io ∨ ∃ c, client p.2 fd = some c := by
  obtain ⟨s, k⟩ := p
  obtain ⟨s', k'⟩ := q
  obtain ⟨hs, -⟩ := sync_iff.mp hs
  cases Reactor.step_cases hs with
  | readSome hp | readNone hp | handled hp | wrote hp | writeFailed hp | closed hp
  | closeFailed hp =>
    obtain rfl := Option.some.inj hfd
    exact Or.inr (h.subject_client (by rw [hp]; rfl))
  | @dropClose fds result hp fd' hmem =>
    obtain rfl := Option.some.inj hfd
    by_cases hlisten : fd' = listenFd
    · subst hlisten
      refine Or.inl ⟨rfl, rfl, ?_, fds, result, hp⟩
      obtain hopen | ⟨fds', result', hp', hnot⟩ | ⟨result', hp'⟩ := hkept
      · exact hopen
      · obtain ⟨rfl, -⟩ := Point.drop.inj (hp'.symm.trans hp)
        exact absurd hmem hnot
      · cases hp'.symm.trans hp
    · have hleft := h.invariant.left.2
      dsimp only at hleft
      rw [hp, dropped] at hleft
      exact Or.inr (Option.ne_none_iff_exists'.mp (h.registered fd' (hleft fd' hmem) hlisten))
  | _ => cases hfd

/-- With its connection known, nothing of a call is lost but that the loop is left. -/
theorem shows_labelled (hfd : concerns io = some fd) (hc : client p.2 fd = some c) :
    ∃ n, shows releases p io = labelled releases c io ++ List.replicate n .stop := by
  cases io with
  | read fd' got =>
    obtain rfl := Option.some.inj hfd
    cases got with
    | error e => exact ⟨0, rfl⟩
    | ok buf => exact ⟨0, by simp [shows, labelled, hc]⟩
  | serve fd' buf env =>
    obtain rfl := Option.some.inj hfd
    exact ⟨0, by simp [shows, labelled, hc]⟩
  | write fd' response order took =>
    obtain rfl := Option.some.inj hfd
    cases took with
    | error e => exact ⟨1, rfl⟩
    | ok n => exact ⟨0, by simp [shows, labelled, hc]⟩
  | close fd' deleted closed =>
    obtain rfl := Option.some.inj hfd
    refine ⟨if deleted = .ok () ∧ closed = .ok () then 0 else 1, ?_⟩
    rw [shows, hangUps, hc, labelled]
    split_ifs <;> rfl
  | _ => cases hfd

/-- What is known of the connections wherever a run of `event_loop` has come to. -/
theorem census_of_trace (hopen : listenFd ∈ opened)
    (hrun : run (step r listenFd releases) (.enter epollFd, .start opened) t = some p) :
    ∃ a, Serves listenFd p a ∧ Service.Census (trace r listenFd epollFd releases opened t) a ∧
      ListenerKept listenFd p := by
  obtain ⟨a, hserver, hserves⟩ := serves_step.run (serves_enter hopen) hrun
  refine ⟨a, hserves, Service.census_of_run hserver, ?_⟩
  refine (run_invariant_of_step (I := fun p => Clients listenFd p ∧ ListenerKept listenFd p)
    (fun _ _ _ h hs => ⟨clients_step h.1 hs, listenerKept_step h.2 h.1 hs⟩) ?_ hrun).2
  exact ⟨(serves_enter hopen).clients, Or.inl (if_pos hopen)⟩

theorem onConnection_of_client {past : List (Event ℕ Surroundings Bytes HttpResponse)}
    (h : OnListener listenFd p fd io ∨ ∃ c, OnConnection releases past p fd io c)
    (hne : fd ≠ listenFd) (hc : client p.2 fd = some c) : OnConnection releases past p fd io c := by
  obtain hlistener | ⟨d, hd⟩ := h
  · exact absurd hlistener.same hne
  · obtain rfl := Option.some.inj (hd.denotes.symm.trans hc)
    exact hd

end Steps

/-- In every run each read, answer, write and close goes by a descriptor that denotes one live
connection, accepted before and not yet closed, and is shown as this connection's; but for the
listener's own close at the end. So each connection is used only between its `accept`, which
comes once, and its close. -/
theorem connections_in_order (r : Reactor) (listenFd epollFd : RawFd) (releases : OsError → Bool)
    (opened : Finset RawFd) (hopen : listenFd ∈ opened) (t : List Io) (p : System)
    (hrun : run (step r listenFd releases) (.enter epollFd, .start opened) t = some p) :
    Service.Orderly (trace r listenFd epollFd releases opened t) ∧
      ∀ u io v, t = u ++ io :: v → ∀ fd ∈ concerns io, ∃ m,
        run (step r listenFd releases) (.enter epollFd, .start opened) u = some m ∧
        (OnListener listenFd m fd io ∨
          ∃ c, OnConnection releases (trace r listenFd epollFd releases opened u) m fd io c) := by
  constructor
  · obtain ⟨a, hserver, -⟩ := serves_step.run (serves_enter hopen) hrun
    exact Service.orderly_of_run hserver
  · rintro u io v rfl fd hfd
    obtain ⟨m, hm, hrest⟩ := run_append_iff.mp hrun
    obtain ⟨m', hs, -⟩ := run_cons_iff.mp hrest
    obtain ⟨a, hserves, hcensus, hkept⟩ := census_of_trace hopen hm
    refine ⟨m, hm, (onListener_or_client hserves.clients hkept hs hfd).imp_right ?_⟩
    rintro ⟨c, hc⟩
    obtain ⟨hconnected, hopened⟩ := (hcensus.live c).mp ((hserves.numbered.live c).mpr ⟨fd, hc⟩)
    exact ⟨c, hc, fun fd' hc' => hserves.numbered.injective fd' fd c hc' hc, hconnected, hopened,
      shows_labelled hfd hc⟩

/-- The second client gets the number of the first, and sends a byte. -/
def reusedByte : List Io := Generations.reusedNumber.take 15 ++ [.read 5 (.ok [0x78])]

/-- The close of 5 is the first connection's, and the read of 5 behind it is the second's. -/
theorem reusedByte_in_order :
    let shown := trace Reactor.stock 3 4 fun _ => true
    ∃ m m', run (step Reactor.stock 3 fun _ => true) (.enter 4, .start {3, 4})
        (reusedByte.take 9) = some m ∧
      OnConnection (fun _ => true) (shown {3, 4} (reusedByte.take 9)) m 5
        (.close 5 (.ok ()) (.ok ())) 1 ∧
      run (step Reactor.stock 3 fun _ => true) (.enter 4, .start {3, 4})
        (reusedByte.take 15) = some m' ∧
      OnConnection (fun _ => true) (shown {3, 4} (reusedByte.take 15)) m' 5
        (.read 5 (.ok [0x78])) 2 := by
  have hrun : ∃ p, run (step Reactor.stock 3 fun _ => true) (.enter 4, .start {3, 4})
      reusedByte = some p := ⟨_, rfl⟩
  obtain ⟨p, hrun⟩ := hrun
  obtain ⟨-, hcalls⟩ := connections_in_order Reactor.stock 3 4 (fun _ => true) {3, 4} (by decide)
    reusedByte p hrun
  obtain ⟨m, hm, hclose⟩ := hcalls (reusedByte.take 9) _ (reusedByte.drop 10) rfl 5 rfl
  obtain ⟨m', hm', hread⟩ := hcalls (reusedByte.take 15) _ [] rfl 5 rfl
  refine ⟨m, m', hm, onConnection_of_client hclose (by decide) ?_, hm',
    onConnection_of_client hread (by decide) ?_⟩
  · obtain rfl := Option.some.inj hm
    rfl
  · obtain rfl := Option.some.inj hm'
    rfl

end KernelEngine.Lifecycle
