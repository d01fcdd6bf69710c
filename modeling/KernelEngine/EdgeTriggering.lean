import KernelEngine.Delivery
import Mathlib.Logic.Function.Basic

namespace KernelEngine.EdgeTriggering
open Rust File Http Net Worker Runs Delivery

/-- A call of the loop, or bytes that arrive between two of them. -/
inductive Event where
  | call (io : Io)
  | arrive (fd : RawFd) (bytes : Bytes)

/-- The receive buffer of each descriptor, and its readiness edge. -/
structure Kernel where
  received : RawFd → Bytes
  edge : RawFd → Bool

/-- What the kernel answers, and what it does to buffers and edges. Bytes that arrive set
the edge and `epoll_wait` clears those it reports. -/
def Kernel.step (listenFd : RawFd) (k : Kernel) : Event → Option Kernel
  | .arrive fd bytes =>
    if bytes = [] then none
    else some {
      received := Function.update k.received fd (k.received fd ++ bytes)
      edge := Function.update k.edge fd true }
  | .call (.accept (.ok fd)) => some {
      received := Function.update k.received fd []
      edge := Function.update k.edge fd false }
  | .call (.epollWait (.ok events)) =>
    if ∀ e ∈ events, e.1 = listenFd ∨
        k.edge e.1 = true ∧ (k.received e.1 ≠ [] → e.2 &&& EPOLLIN ≠ 0) then
      some { k with edge := fun fd => k.edge fd && !(events.map Prod.fst).contains fd }
    else none
  | .call (.read fd (.ok buf)) =>
    if buf = (k.received fd).take readLen then
      some { k with received := Function.update k.received fd ((k.received fd).drop readLen) }
    else none
  | .call (.close fd (.ok _) _) => some {
      received := Function.update k.received fd []
      edge := Function.update k.edge fd false }
  | .call _ => some k

def loopStep (r : Reactor) (listenFd : RawFd) (s : LoopState) : Event → Option LoopState
  | .call io => r.step listenFd s io
  | .arrive _ _ => some s

/-- The event loop and the kernel, with arrivals at any time. -/
def step (r : Reactor) (listenFd : RawFd) :
    LoopState × Kernel → Event → Option (LoopState × Kernel) :=
  sync (loopStep r listenFd) (Kernel.step listenFd)

/-- At the top of the loop a registered client with bytes to read has its edge set. -/
def NoStranded (listenFd : RawFd) (p : LoopState × Kernel) : Prop :=
  p.1.point = .top → ∀ fd ∈ p.1.epoll.keys, fd ≠ listenFd → p.2.received fd ≠ [] →
    p.2.edge fd = true

def reads : Event → Option RawFd
  | .call (.read fd (.ok _)) => some fd
  | _ => none

/-- A read finds no more than it can take, unless the edge is set again already. -/
def Drains (p : LoopState × Kernel) (e : Event) (_ : LoopState × Kernel) : Prop :=
  ∀ fd ∈ reads e, (p.2.received fd).length ≤ readLen ∨ p.2.edge fd = true

instance (p : LoopState × Kernel) (e : Event) (p' : LoopState × Kernel) :
    Decidable (Drains p e p') :=
  inferInstanceAs (Decidable (∀ _ ∈ _, _))

/-- The rest of the batch still asks to read the descriptor. -/
def Reported (fd : RawFd) (rest : List (RawFd × EventFlags)) : Prop :=
  ∃ flags, (fd, flags) ∈ rest ∧ flags &&& EPOLLIN ≠ 0

/-- The loop will still come to read or close the descriptor in this iteration, or has
been left. -/
def Due (fd : RawFd) : Point → Prop
  | .accept rest => Reported fd rest
  | .addClient _ rest => Reported fd rest
  | .read client rest => fd = client ∨ Reported fd rest
  | .handle _ _ rest => Reported fd rest
  | .write _ _ rest => Reported fd rest
  | .close client rest => fd = client ∨ Reported fd rest
  | .drop _ _ => True
  | .returned _ => True
  | .panicked => True
  | .killed => True
  | _ => False

/-- The invariant behind `NoStranded`, at every place of the loop. -/
def Noticed (listenFd : RawFd) (p : LoopState × Kernel) : Prop :=
  ∀ fd ≠ listenFd, p.2.received fd ≠ [] → p.2.edge fd = true ∨ Due fd p.1.point

variable {r : Reactor} {listenFd : RawFd} {p p' : LoopState × Kernel} {e : Event}

theorem due_nextEvent {fd : RawFd} (hfd : fd ≠ listenFd) {events : List (RawFd × EventFlags)}
    (h : Reported fd events) : Due fd (nextEvent listenFd events) := by
  induction events with
  | nil =>
    obtain ⟨flags, hmem, -⟩ := h
    cases hmem
  | cons e events ih =>
    obtain ⟨client, flags⟩ := e
    obtain ⟨flags', hmem, hin⟩ := h
    rw [nextEvent]
    rcases List.mem_cons.mp hmem with heq | hrest
    · obtain ⟨rfl, rfl⟩ := Prod.mk.inj heq
      rw [if_neg hfd, if_pos hin]
      exact Or.inl rfl
    · split_ifs
      · exact ⟨flags', hrest, hin⟩
      · exact Or.inr ⟨flags', hrest, hin⟩
      · exact ih ⟨flags', hrest, hin⟩

/-- Arrivals set the edge of the descriptor they reach. -/
theorem noticed_arrive {s : LoopState} {k k' : Kernel} {fd : RawFd} {bytes : Bytes}
    (hk : k.step listenFd (.arrive fd bytes) = some k') (hI : Noticed listenFd (s, k)) :
    Noticed listenFd (s, k') := by
  obtain ⟨-, rfl⟩ : _ ∧ _ = k' := by simpa [Kernel.step] using hk
  intro fd' hne hreceived
  by_cases hfd : fd' = fd
  · subst hfd
    exact Or.inl (Function.update_self ..)
  · simp only [Function.update_of_ne hfd] at hreceived ⊢
    exact hI fd' hne hreceived

/-- Calls that touch neither buffers nor edges. -/
theorem noticed_of_point {s s' : LoopState} {k : Kernel} (hI : Noticed listenFd (s, k))
    (hdue : ∀ fd ≠ listenFd, Due fd s.point → Due fd s'.point) : Noticed listenFd (s', k) := by
  intro fd hne hreceived
  rcases hI fd hne hreceived with hedge | h
  · exact Or.inl hedge
  · exact Or.inr (hdue fd hne h)

/-- Calls that empty the buffer of one descriptor. -/
theorem noticed_reset {s s' : LoopState} {k : Kernel} {fd : RawFd} (hI : Noticed listenFd (s, k))
    (hdue : ∀ fd' ≠ listenFd, fd' ≠ fd → Due fd' s.point → Due fd' s'.point) :
    Noticed listenFd (s', ⟨Function.update k.received fd [], Function.update k.edge fd false⟩) := by
  intro fd' hne hreceived
  by_cases hfd : fd' = fd
  · subst hfd
    exact absurd (Function.update_self ..) hreceived
  · simp only [Function.update_of_ne hfd] at hreceived ⊢
    rcases hI fd' hne hreceived with hedge | h
    · exact Or.inl hedge
    · exact Or.inr (hdue fd' hne hfd h)

theorem noticed_waited {s s' : LoopState} {k k' : Kernel} {events : List (RawFd × EventFlags)}
    (hk : k.step listenFd (.call (.epollWait (.ok events))) = some k')
    (hwait : s.point = .wait) (hs' : s'.point = nextEvent listenFd events)
    (hI : Noticed listenFd (s, k)) : Noticed listenFd (s', k') := by
  obtain ⟨hevents, hk'⟩ := Option.ite_none_right_eq_some.mp hk
  obtain rfl := Option.some.inj hk'
  intro fd hne hreceived
  -- nothing is due at `epoll_wait`, so the edge is still set
  have hedge : k.edge fd = true := by
    rcases hI fd hne hreceived with hedge | hdue
    · exact hedge
    · rw [hwait] at hdue
      exact hdue.elim
  by_cases hmem : fd ∈ events.map Prod.fst
  · obtain ⟨e, he, rfl⟩ := List.mem_map.mp hmem
    obtain hlisten | ⟨-, hin⟩ := hevents e he
    · exact absurd hlisten hne
    · rw [hs']
      exact Or.inr (due_nextEvent hne ⟨e.2, he, hin hreceived⟩)
  · exact Or.inl (by simp [hedge, hmem])

/-- A read that drains its descriptor, or finds the edge set again. -/
theorem noticed_read {s s' : LoopState} {k k' : Kernel} {fd : RawFd} {buf : Bytes}
    (hk : k.step listenFd (.call (.read fd (.ok buf))) = some k')
    (hdrains : (k.received fd).length ≤ readLen ∨ k.edge fd = true)
    (hdue : ∀ fd' ≠ fd, Due fd' s.point → Due fd' s'.point)
    (hI : Noticed listenFd (s, k)) : Noticed listenFd (s', k') := by
  obtain ⟨-, hk'⟩ := Option.ite_none_right_eq_some.mp hk
  obtain rfl := Option.some.inj hk'
  intro fd' hne hreceived
  by_cases hfd : fd' = fd
  · subst hfd
    simp only [Function.update_self, ne_eq, List.drop_eq_nil_iff] at hreceived
    exact Or.inl (hdrains.resolve_left hreceived)
  · simp only [Function.update_of_ne hfd] at hreceived
    rcases hI fd' hne hreceived with hedge | h
    · exact Or.inl hedge
    · exact Or.inr (hdue fd' hfd h)

theorem noticed_call {s s' : LoopState} {k k' : Kernel} {io : Io}
    (hs : r.step listenFd s io = some s') (hk : k.step listenFd (.call io) = some k')
    (hdrains : Drains (s, k) (.call io) (s', k')) (hI : Noticed listenFd (s, k)) :
    Noticed listenFd (s', k') := by
  cases Reactor.step_cases hs with
  -- once the loop is left everything counts as due
  | addListenerFailed | stop | waitFailed | addClientFailed | writeFailed | closeFailed
  | dropClose | dropEpoll => exact fun _ _ _ => Or.inr trivial
  | addListener hp | goOn hp | addClient hp =>
    obtain rfl := Option.some.inj hk
    refine noticed_of_point hI fun fd _ hdue => ?_
    rw [hp] at hdue
    exact hdue
  | waited hp events => exact noticed_waited hk hp rfl hI
  | accepted hp fd =>
    obtain rfl := Option.some.inj hk
    refine noticed_reset hI fun fd' _ _ hdue => ?_
    rw [hp] at hdue
    exact hdue
  | acceptFailed hp | wrote hp =>
    obtain rfl := Option.some.inj hk
    refine noticed_of_point hI fun fd hne hdue => ?_
    rw [hp] at hdue
    exact due_nextEvent hne hdue
  | @readSome fd rest hp buf =>
    refine noticed_read hk (hdrains fd rfl) (fun fd' hfd hdue => ?_) hI
    rw [hp] at hdue
    exact hdue.resolve_left hfd
  | @readNone fd rest hp got hgot =>
    cases got with
    | error e =>
      obtain rfl := Option.some.inj hk
      refine noticed_of_point hI fun fd' _ hdue => ?_
      rw [hp] at hdue
      exact hdue
    | ok buf =>
      refine noticed_read hk (hdrains fd rfl) (fun fd' _ hdue => ?_) hI
      rw [hp] at hdue
      exact hdue
  | @handled fd buf rest hp env =>
    obtain rfl := Option.some.inj hk
    refine noticed_of_point hI fun fd' _ hdue => ?_
    rw [hp] at hdue
    obtain ⟨m, -, ⟨response, -, hs'⟩ | ⟨e, -, hs'⟩ | ⟨-, hs'⟩ | ⟨-, hs'⟩⟩ :=
      Reactor.handle_cases r s env fd buf rest <;> rw [hs']
    · exact hdue
    · trivial
    · trivial
    · trivial
  | @closed fd rest hp =>
    obtain rfl := Option.some.inj hk
    refine noticed_reset hI fun fd' hne hfd hdue => ?_
    rw [hp] at hdue
    exact due_nextEvent hne (hdue.resolve_left hfd)

theorem noticed_step (h : step r listenFd p e = some p') (hdrains : Drains p e p')
    (hI : Noticed listenFd p) : Noticed listenFd p' := by
  obtain ⟨hs, hk⟩ := sync_iff.mp h
  cases e with
  | call io => exact noticed_call hs hk hdrains hI
  | arrive fd bytes =>
    obtain ⟨s, k⟩ := p
    obtain ⟨s', k'⟩ := p'
    obtain rfl : s = s' := Option.some.inj hs
    exact noticed_arrive hk hI

/-- Nothing has arrived yet. -/
def Kernel.idle : Kernel := ⟨fun _ => [], fun _ => false⟩

/-- In a run where each read drains its descriptor or finds the edge set again, no
received bytes are stranded in any state. -/
theorem no_stranded_input (r : Reactor) (listenFd epollFd : RawFd) (t : List Event)
    (hdrains : Along (step r listenFd) Drains (.enter epollFd, Kernel.idle) t)
    (u : List Event) (hu : u <+: t) (p : LoopState × Kernel)
    (hrun : run (step r listenFd) (.enter epollFd, Kernel.idle) u = some p) :
    NoStranded listenFd p := by
  obtain ⟨v, rfl⟩ := hu
  have hnoticed : Noticed listenFd p :=
    run_invariant (fun _ _ _ hI hs hP => noticed_step hs hP hI)
      (show Noticed listenFd (.enter epollFd, Kernel.idle) from fun _ _ h => absurd rfl h)
      ((along_append_iff hrun).mp hdrains).1 hrun
  intro htop fd _ hne hreceived
  have h := hnoticed fd hne hreceived
  rw [htop] at h
  exact h.resolve_right id

/-- A client connects as descriptor 5 and sends what is given. -/
def sending (bytes : Bytes) : List Event :=
  [.call (.epollAdd 3 EPOLLIN (.ok ())), .call (.load true),
    .call (.epollWait (.ok [(3, EPOLLIN)])), .call (.accept (.ok 5)),
    .call (.epollAdd 5 (EPOLLIN ||| EPOLLET) (.ok ())), .call (.accept (.error "EAGAIN".toList)),
    .arrive 5 bytes]

/-- The loop reads once and answers what it read. -/
def answering (buf : Bytes) : List Event :=
  [.call (.load true), .call (.epollWait (.ok [(5, EPOLLIN)])), .call (.read 5 (.ok buf)),
    .call (.serve 5 buf quietSurroundings), .call (refusal 117)]

/-- Bytes that are no request. -/
def garbage (n : ℕ) : Bytes := List.replicate n 0

theorem sending_run (n : ℕ) : ∃ s k,
    run (step Reactor.stock 3) (.enter 4, Kernel.idle) (sending (garbage (n + 1))) = some (s, k) ∧
      s.point = .top ∧ 5 ∈ s.epoll.keys ∧ k.received 5 = garbage (n + 1) ∧ k.edge 5 = true :=
  ⟨_, _, rfl, rfl, by decide, rfl, rfl⟩

theorem one_byte_not_stranded : ∃ p,
    run (step Reactor.stock 3) (.enter 4, Kernel.idle) (sending (garbage 1)) = some p ∧
      NoStranded 3 p := by
  obtain ⟨s, k, hrun, -⟩ := sending_run 0
  refine ⟨(s, k), hrun, ?_⟩
  refine no_stranded_input Reactor.stock 3 4 (sending (garbage 1) ++ [.call (.load true),
    .call (.epollWait (.ok [(5, EPOLLIN)])), .call (.read 5 (.ok (garbage 1)))]) ?_ _
    (List.prefix_append ..) _ hrun
  decide

theorem garbage_refused (n : ℕ) : HttpRequest.parse Reactor.stock.httparse (garbage (n + 1)) =
    .error "Failed to parse HTTP request: Token".toList := rfl

theorem answering_run {s : LoopState} {k : Kernel} (hs : s.point = .top) (n : ℕ)
    (hn : n < readLen) (hbuf : garbage (n + 1) = (k.received 5).take readLen)
    (hedge : k.edge 5 = true) :
    run (step Reactor.stock 3) (s, k) (answering (garbage (n + 1))) = some
      (⟨.top, s.epoll, ⟨incBy s.metrics.requestsTotal 1, incBy s.metrics.bytesSent
        (HttpResponse.badRequest.toBytes HttpResponse.badRequest.fields).length⟩⟩,
        ⟨Function.update k.received 5 ((k.received 5).drop readLen),
          fun fd => k.edge fd && !([5].contains fd)⟩) := by
  have hevents : ∀ e ∈ [((5 : RawFd), EPOLLIN)], e.1 = 3 ∨
      k.edge e.1 = true ∧ (k.received e.1 ≠ [] → e.2 &&& EPOLLIN ≠ 0) := by
    intro e he
    obtain rfl := List.mem_singleton.mp he
    exact Or.inr ⟨hedge, fun _ => by decide⟩
  have hload : Reactor.stock.step 3 s (.load true) = _ := Reactor.step_goOn hs
  have hlen : (garbage (n + 1)).length ≤ readLen := by
    rw [garbage, List.length_replicate]
    exact hn
  have hread : Reactor.stock.step 3 { s with point := .read 5 [] }
      (.read 5 (.ok (garbage (n + 1)))) = _ :=
    Reactor.step_readSome rfl (List.cons_ne_nil _ _) hlen
  have hserve : Reactor.stock.step 3 { s with point := .handle 5 (garbage (n + 1)) [] }
      (.serve 5 (garbage (n + 1)) quietSurroundings) = _ :=
    Reactor.step_refused rfl (garbage_refused n) _
  have hwrite : Reactor.stock.step 3 { s with
      point := .write 5 HttpResponse.badRequest []
      metrics.requestsTotal := incBy s.metrics.requestsTotal 1 } (refusal 117) = _ :=
    Reactor.step_wrote rfl (List.Perm.refl _) 117
  refine run_cons_iff.mpr ⟨(_, _), sync_iff.mpr ⟨hload, rfl⟩, ?_⟩
  refine run_cons_iff.mpr ⟨(_, _), sync_iff.mpr ⟨rfl, if_pos hevents⟩, ?_⟩
  refine run_cons_iff.mpr ⟨(_, _), sync_iff.mpr ⟨hread, if_pos hbuf⟩, ?_⟩
  refine run_cons_iff.mpr ⟨(_, _), sync_iff.mpr ⟨hserve, rfl⟩, ?_⟩
  exact run_cons_iff.mpr ⟨(_, _), sync_iff.mpr ⟨hwrite, rfl⟩, rfl⟩

/-- Of 8193 bytes one is left behind, with no edge to report it. -/
theorem flood_strands_byte : ∃ p,
    run (step Reactor.stock 3) (.enter 4, Kernel.idle)
      (sending (garbage 8193) ++ answering (garbage 8192)) = some p ∧
    p.1.point = .top ∧ 5 ∈ p.1.epoll.keys ∧ p.2.received 5 = [0] ∧ p.2.edge 5 = false ∧
    ¬ NoStranded 3 p := by
  obtain ⟨s, k, hrun, htop, hkey, hreceived, hedge⟩ := sending_run 8192
  have hanswer := answering_run htop 8191 (by decide)
    (by rw [hreceived, garbage, garbage, List.take_replicate]; rfl) hedge
  have hleft : Function.update k.received 5 ((k.received 5).drop readLen) 5 = [0] := by
    rw [Function.update_self, hreceived, garbage, List.drop_replicate]
    rfl
  have hclear : (k.edge 5 && !([5].contains 5)) = false := by simp
  refine ⟨_, run_append_iff.mpr ⟨_, hrun, hanswer⟩, rfl, hkey, hleft, hclear, fun h => ?_⟩
  have hset := h rfl 5 hkey (by decide) (hleft.trans_ne (List.cons_ne_nil _ _))
  exact absurd (hclear.symm.trans hset) (by decide)

end KernelEngine.EdgeTriggering
