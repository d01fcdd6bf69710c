import KernelEngine.Framing
import KernelEngine.Serving
import Mathlib.Algebra.BigOperators.Group.List.Basic
import Mathlib.Algebra.Ring.Nat

namespace KernelEngine.Statistics
open Rust File Http Net Worker Runs Generations Questions Serving
open Framing (serves servesOf)
open Service (Exchange Serial)

/-- The sizes of the responses a call has written. -/
def sizesOf : Io → List ℕ
  | .write _ response _ (.ok _) => [response.size]
  | _ => []

/-- The counters of `Metrics` after a trace. -/
def tally (t : List Io) : Metrics where
  requestsTotal := (serves t).length % 2 ^ 64
  bytesSent := (t.flatMap sizesOf).sum % 2 ^ 64

theorem incBy_mod (a n : ℕ) : incBy (a % 2 ^ 64) n = (a + n) % 2 ^ 64 :=
  Nat.mod_add_mod a (2 ^ 64) n

section Counters

variable {r : Reactor} {listenFd : RawFd} {s s' : LoopState} {io : Io} {t : List Io}

theorem tally_silent (hserves : servesOf io = []) (hsizes : sizesOf io = []) :
    tally (t ++ [io]) = tally t := by
  rw [tally, Framing.serves_concat, List.flatMap_append, List.flatMap_singleton, hserves, hsizes,
    List.append_nil, List.append_nil]
  rfl

theorem tally_serve (fd : RawFd) (buf : Bytes) (env : Surroundings) :
    tally (t ++ [.serve fd buf env]) =
      { tally t with requestsTotal := incBy (tally t).requestsTotal 1 } := by
  simp only [tally, Framing.serves_concat, List.flatMap_append, List.flatMap_singleton, servesOf,
    sizesOf, List.length_append, List.length_singleton, List.append_nil, incBy_mod]

theorem tally_write (fd : RawFd) (response : HttpResponse) {order : List (Str × Str)}
    (horder : order.Perm response.fields) (n : ℕ) :
    tally (t ++ [.write fd response order (.ok n)]) = { tally t with
      bytesSent := incBy (tally t).bytesSent (response.toBytes order).length } := by
  simp only [tally, Framing.serves_concat, List.flatMap_append, List.flatMap_singleton, servesOf,
    sizesOf, List.append_nil, List.sum_append, List.sum_singleton,
    HttpResponse.toBytes_length horder, incBy_mod]

theorem handle_metrics (env : Surroundings) (fd : RawFd) (buf : Bytes)
    (rest : List (RawFd × EventFlags)) : (r.handle s env fd buf rest).metrics =
      { s.metrics with requestsTotal := incBy s.metrics.requestsTotal 1 } := by
  obtain ⟨m, rfl, ⟨response, -, h⟩ | ⟨e, -, h⟩ | ⟨-, h⟩ | ⟨-, h⟩⟩ :=
    Reactor.handle_cases r s env fd buf rest <;> rw [h]
  rfl

theorem tally_step (h : s.metrics = tally t) (hs : r.step listenFd s io = some s') :
    s'.metrics = tally (t ++ [io]) := by
  cases Reactor.step_cases hs with
  | handled hp env => rw [handle_metrics, tally_serve, h]
  | wrote hp order horder n => rw [tally_write _ _ horder, ← h]
  | readNone hp got => exact h.trans (tally_silent rfl rfl).symm
  | _ => exact h.trans (tally_silent rfl rfl).symm

end Counters

/-- In every state the loop reaches, also on its way out, the counters are the number of
requests handled and the bytes of the responses written, as far as 64 bits hold them. -/
theorem counters_exact (r : Reactor) (listenFd epollFd : RawFd) (t : List Io) (s : LoopState)
    (hrun : run (r.step listenFd) (.enter epollFd) t = some s) : s.metrics = tally t := by
  refine run_history_of_step (I := fun t s => s.metrics = tally t) ?_ rfl hrun
  intro t s io s' h hs
  exact tally_step h hs

theorem counters_after_refusal : ∃ s : LoopState, s.point = .top ∧
    s.metrics = tally (Delivery.strayByte ++ [Delivery.refusal 117]) := by
  obtain ⟨s, hrun, htop⟩ := Delivery.refusal_run 117
  exact ⟨s, htop, counters_exact Reactor.stock 3 4 _ s hrun⟩

theorem metrics_of_serial {r : Reactor} {log : List (Exchange ℕ Surroundings Bytes HttpResponse)}
    {m : Metrics} {a b : ℕ} (h : Serial (handler r) ⟨a % 2 ^ 64, b % 2 ^ 64⟩ log m) :
    m = ⟨(a + log.length) % 2 ^ 64, (b + (log.map fun x => x.answer.size).sum) % 2 ^ 64⟩ := by
  induction log generalizing a b with
  | nil => exact Eq.symm h
  | cons x log ih =>
    obtain ⟨-, hlog⟩ := h
    have hnext : (handler r).sent x.answer ((handler r).received ⟨a % 2 ^ 64, b % 2 ^ 64⟩) =
        ⟨(a + 1) % 2 ^ 64, (b + x.answer.size) % 2 ^ 64⟩ := by
      simp only [handler, incBy_mod]
    rw [hnext] at hlog
    rw [ih hlog, List.length_cons, List.map_cons, List.sum_cons, Nat.add_assoc, Nat.add_assoc,
      Nat.add_comm 1]

/-- What is answered to `/api/stats`. -/
def told (m : Metrics) : HttpResponse := HttpResponse.ok.json (some (Reactor.statsJson m).bytes)

/-- Each answer to `/api/stats` tells how many requests were handled up to its own and how
many bytes all responses before it had, whatever connections these belong to. -/
theorem stats_tell (r : Reactor) (listenFd epollFd : RawFd) (releases : OsError → Bool)
    (opened : Finset RawFd) (hopen : listenFd ∈ opened) (t : List Io) (p : System)
    (hrun : run (step r listenFd releases) (.enter epollFd, .start opened) t = some p) :
    let shown := trace r listenFd epollFd releases opened t
    ∃ log : List (Exchange ℕ Surroundings Bytes HttpResponse),
      Service.sends shown = log.map Exchange.sent ∧
      (∃ left, Service.asks shown = log.map Exchange.asked ++ left ∧ left.length ≤ 1) ∧
      ∀ before x after, log = before ++ x :: after →
        question r x.question = .route (some .stats) →
        x.answer = told ⟨(before.length + 1) % 2 ^ 64,
          (before.map fun y => y.answer.size).sum % 2 ^ 64⟩ := by
  obtain ⟨a, log, m, -, hbooks⟩ := books_of_run hopen hrun
  refine ⟨log, hbooks.sent, ⟨_, hbooks.asked, Option.length_toList_le⟩, ?_⟩
  rintro before x after rfl hstats
  obtain ⟨m', hbefore, hanswer, -⟩ := Service.serial_append_iff.mp hbooks.serial
  have hm := metrics_of_serial (a := 0) (b := 0) hbefore
  rw [Nat.zero_add, Nat.zero_add] at hm
  have hrespond : (r.respond x.env ⟨(before.length + 1) % 2 ^ 64,
      (before.map fun y => y.answer.size).sum % 2 ^ 64⟩ x.question).toOption = some x.answer := by
    rw [← hanswer, hm]
    simp only [handler, incBy_mod]
  rw [respond_eq, hstats] at hrespond
  exact (Option.some.inj hrespond).symm

def dynamic : Reactor :=
  ⟨{ ServerConfig.default 1 true with mode := .dynamicPath }, referenceHttparse⟩

def statsRequest : RequestText := .get "/api/stats".toList (by decide) (by decide)

/-- Two clients connect, and both send something. -/
def twoClients : List Io :=
  [.epollAdd 3 EPOLLIN (.ok ()), .load true, .epollWait (.ok [(3, EPOLLIN)]), .accept (.ok 5),
    .epollAdd 5 (EPOLLIN ||| EPOLLET) (.ok ()), .accept (.ok 6),
    .epollAdd 6 (EPOLLIN ||| EPOLLET) (.ok ()), .accept (.error "EAGAIN".toList), .load true,
    .epollWait (.ok [(5, EPOLLIN), (6, EPOLLIN)])]

/-- A client asks for the statistics and is answered. -/
def asksStats (fd : RawFd) (response : HttpResponse) : List Io :=
  [.read fd (.ok statsRequest.render), .serve fd statsRequest.render Delivery.quietSurroundings,
    .write fd response response.fields (.ok response.size)]

theorem stats_question : question dynamic statsRequest.render = .route (some .stats) := by
  have hparse := HttpRequest.parse_render referenceHttparse_canonical statsRequest (by decide)
  rw [question_route rfl hparse]
  decide

/-- An event with such a request is handled, and shown as one question and its answer. -/
theorem asksStats_run (listenFd : RawFd) {fd : RawFd} {s : LoopState} {k : Kernel} {c : ℕ}
    {rest : List (RawFd × EventFlags)} (hp : s.point = .read fd rest) (hc : client k fd = some c) :
    ∃ s' response, run (step dynamic listenFd fun _ => true) (s, k) (asksStats fd response) =
        some (s', k) ∧ s'.point = nextEvent listenFd rest ∧
      (let seen := shown (step dynamic listenFd fun _ => true) (shows fun _ => true) (s, k)
        (asksStats fd response)
      Service.asks seen = [(c, statsRequest.render)] ∧ Service.sends seen = [(c, response)]) := by
  have hrespond (m : Metrics) : dynamic.respond Delivery.quietSurroundings m statsRequest.render =
      .ok (told m) := by
    rw [respond_eq, stats_question]
    rfl
  let m : Metrics := { s.metrics with requestsTotal := incBy s.metrics.requestsTotal 1 }
  have hread : step dynamic listenFd (fun _ => true) (s, k)
      (.read fd (.ok statsRequest.render)) = some (_, k) :=
    sync_iff.mpr ⟨Reactor.step_readSome hp (by decide) (by decide), rfl⟩
  have hserve : step dynamic listenFd (fun _ => true)
      ({ s with point := .handle fd statsRequest.render rest }, k)
      (.serve fd statsRequest.render Delivery.quietSurroundings) = some (_, k) :=
    sync_iff.mpr ⟨Reactor.step_served rfl (hrespond m), rfl⟩
  have hwrite : step dynamic listenFd (fun _ => true)
      ({ s with point := .write fd (told m) rest, metrics := m }, k)
      (.write fd (told m) (told m).fields (.ok (told m).size)) = some (_, k) :=
    sync_iff.mpr ⟨Reactor.step_wrote rfl (List.Perm.refl _) _, rfl⟩
  refine ⟨_, told m, run_cons_iff.mpr ⟨_, hread, run_cons_iff.mpr ⟨_, hserve,
    run_cons_iff.mpr ⟨_, hwrite, rfl⟩⟩⟩, rfl, ?_⟩
  have hne : statsRequest.render ≠ [] := by decide
  rw [asksStats, shown_cons hread, shown_cons hserve, shown_cons hwrite, shown_nil]
  simp [shows, hc, hne, Service.asks, Service.sends, Service.Event.asked, Service.Event.sent]

/-- The two clients ask one after the other. -/
theorem twoStats_run : ∃ first second p, run (step dynamic 3 fun _ => true)
      (.enter 4, .start {3, 4}) (twoClients ++ (asksStats 5 first ++ asksStats 6 second)) =
        some p ∧
    (let seen := trace dynamic 3 4 (fun _ => true) {3, 4}
      (twoClients ++ (asksStats 5 first ++ asksStats 6 second))
    Service.asks seen = [(1, statsRequest.render), (2, statsRequest.render)] ∧
      Service.sends seen = [(1, first), (2, second)]) := by
  have hbefore : ∃ s k, run (step dynamic 3 fun _ => true) (.enter 4, .start {3, 4}) twoClients =
      some (s, k) ∧ s.point = .read 5 [(6, EPOLLIN)] ∧ client k 5 = some 1 ∧
      client k 6 = some 2 ∧ shown (step dynamic 3 fun _ => true) (shows fun _ => true)
        (.enter 4, .start {3, 4}) twoClients = [.connect 1, .connect 2] :=
    ⟨_, _, rfl, rfl, rfl, rfl, rfl⟩
  obtain ⟨s, k, hclients, hp, h5, h6, hconnects⟩ := hbefore
  obtain ⟨s₁, first, hfirst, hp₁, hasks₁, hsends₁⟩ := asksStats_run 3 hp h5
  obtain ⟨s₂, second, hsecond, -, hasks₂, hsends₂⟩ := asksStats_run 3 hp₁ h6
  refine ⟨first, second, (s₂, k), run_append_iff.mpr ⟨_, hclients, run_append_iff.mpr
    ⟨_, hfirst, hsecond⟩⟩, ?_⟩
  rw [trace, shown_append hclients, shown_append hfirst, hconnects]
  simp only [Service.asks, Service.sends, List.flatMap_append] at hasks₁ hsends₁ hasks₂ hsends₂ ⊢
  rw [hasks₁, hsends₁, hasks₂, hsends₂]
  exact ⟨rfl, rfl⟩

/-- The second client is told of the first one's request and of the bytes of its response. -/
theorem two_clients_told : ∃ first second p, run (step dynamic 3 fun _ => true)
      (.enter 4, .start {3, 4}) (twoClients ++ (asksStats 5 first ++ asksStats 6 second)) =
        some p ∧ first = told ⟨1, 0⟩ ∧ second = told ⟨2, 154⟩ := by
  obtain ⟨first, second, p, hrun, hasks, hsends⟩ := twoStats_run
  obtain ⟨log, hlog, ⟨left, hasked, -⟩, htold⟩ :=
    stats_tell dynamic 3 4 (fun _ => true) {3, 4} (by decide) _ p hrun
  -- the log has one exchange for each of the two responses
  obtain ⟨x, after, rfl, hx, hafter⟩ := List.map_eq_cons_iff.mp (hlog.symm.trans hsends)
  obtain ⟨y, end', rfl, hy, hend⟩ := List.map_eq_cons_iff.mp hafter
  obtain rfl := List.map_eq_nil_iff.mp hend
  obtain ⟨hqx, hqy, -⟩ : Exchange.asked x = (1, statsRequest.render) ∧
      Exchange.asked y = (2, statsRequest.render) ∧ left = [] := by
    simpa [eq_comm] using hasks.symm.trans hasked
  have hstats (z : Exchange ℕ Surroundings Bytes HttpResponse)
      (hz : z.question = statsRequest.render) : question dynamic z.question =
        .route (some .stats) := hz ▸ stats_question
  have hfirst : x.answer = told ⟨1, 0⟩ := htold [] x [y] rfl (hstats x (congrArg Prod.snd hqx))
  have hsecond : y.answer = told ⟨2, (x.answer.size + 0) % 2 ^ 64⟩ :=
    htold [x] y [] rfl (hstats y (congrArg Prod.snd hqy))
  have hsize : (told ⟨1, 0⟩).size = 154 := by decide +kernel
  rw [hfirst, hsize] at hsecond
  obtain rfl : x.answer = first := congrArg Prod.snd hx
  obtain rfl : y.answer = second := congrArg Prod.snd hy
  exact ⟨x.answer, y.answer, p, hrun, hfirst, hsecond⟩

end KernelEngine.Statistics
