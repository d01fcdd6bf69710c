import KernelEngine.Delivery
import Mathlib.Logic.Function.Basic

namespace KernelEngine.Blocking
open Rust File Http Net Worker Runs Delivery

inductive Mode where
  | blocking
  | nonBlocking
  deriving DecidableEq

/-- The mode of each descriptor. The listener is created with `SOCK_NONBLOCK`, and
`accept` does not pass that on. -/
def modes (listenFd : RawFd) (t : List Io) : RawFd → Mode :=
  t.foldl (fun modes io => match io with
    | .accept (.ok fd) => Function.update modes fd .blocking
    | _ => modes) (Function.update (fun _ => .blocking) listenFd .nonBlocking)

/-- What the kernel has for a descriptor, as its peer left it. -/
structure Ready where
  connection : Bool
  received : Bool
  space : Bool

/-- The call the loop is at does not return. -/
def Blocks (listenFd : RawFd) (modes : RawFd → Mode) (ready : RawFd → Ready) : Point → Prop
  | .accept _ => modes listenFd = .blocking ∧ (ready listenFd).connection = false
  | .read fd _ => modes fd = .blocking ∧ (ready fd).received = false
  | .write fd _ _ => modes fd = .blocking ∧ (ready fd).space = false
  | _ => False

/-- The calls before the next `epoll_wait`, as long as no connection is added. -/
def remaining : Point → ℕ
  | .top => 1
  | .accept rest => 4 * rest.length + 3
  | .addClient _ rest => 4 * rest.length + 2
  | .read _ rest => 4 * rest.length + 4
  | .handle _ _ rest => 4 * rest.length + 3
  | .write _ _ rest => 4 * rest.length + 2
  | .close _ rest => 4 * rest.length + 2
  | _ => 0

/-- No client can block the loop where it is. -/
structure Free (listenFd : RawFd) (modes : RawFd → Mode) (s : LoopState) : Prop where
  registered : ∀ fd ∈ s.epoll.keys, modes fd = .nonBlocking
  returns : ∀ ready, ¬ Blocks listenFd modes ready s.point

/-- The step brings the loop nearer to its next `epoll_wait`. -/
def Advances (s : LoopState) (_ : Io) (s' : LoopState) : Prop :=
  0 < remaining s.point → remaining s'.point < remaining s.point

/-- A client was accepted and its registration succeeded. -/
def ClientAdded : Io → Prop
  | .epollAdd _ events (.ok _) => events = EPOLLIN ||| EPOLLET
  | _ => False

/-- The kernel reports registered descriptors only, and a new descriptor is not the
listener's. -/
def KernelRules (listenFd : RawFd) (s : LoopState) (io : Io) (_ : LoopState) : Prop :=
  match io with
  | .epollWait (.ok events) => ∀ e ∈ events, e.1 ∈ s.epoll.keys
  | .accept (.ok fd) => fd ≠ listenFd
  | _ => True

instance (listenFd : RawFd) (s : LoopState) (io : Io) (s' : LoopState) :
    Decidable (KernelRules listenFd s io s') :=
  match io with
  | .epollWait (.ok events) => inferInstanceAs (Decidable (∀ e ∈ events, e.1 ∈ s.epoll.keys))
  | .accept (.ok fd) => inferInstanceAs (Decidable (fd ≠ listenFd))
  | .epollWait (.error _) => isTrue trivial
  | .accept (.error _) => isTrue trivial
  | .load _ => isTrue trivial
  | .epollAdd _ _ _ => isTrue trivial
  | .read _ _ => isTrue trivial
  | .serve _ _ _ => isTrue trivial
  | .write _ _ _ _ => isTrue trivial
  | .close _ _ _ => isTrue trivial
  | .closeEpoll _ => isTrue trivial

/-- Only the listener is registered, and only it has events left. -/
def OnlyListener (listenFd : RawFd) (s : LoopState) : Prop :=
  (∀ fd ∈ s.epoll.keys, fd = listenFd) ∧
    match s.point with
    | .accept rest => ∀ e ∈ rest, e.1 = listenFd
    | .addClient _ rest => ∀ e ∈ rest, e.1 = listenFd
    | .read _ _ => False
    | .handle _ _ _ => False
    | .write _ _ _ => False
    | .close _ _ => False
    | _ => True

variable {r : Reactor} {listenFd : RawFd} {s s' : LoopState} {io : Io} {t : List Io}

theorem remaining_nextEvent (events : List (RawFd × EventFlags)) :
    remaining (nextEvent listenFd events) ≤ 4 * events.length + 1 := by
  induction events with
  | nil => exact le_rfl
  | cons e events ih =>
    obtain ⟨fd, flags⟩ := e
    rw [nextEvent, List.length_cons]
    split_ifs
    · simp only [remaining]
      omega
    · simp only [remaining]
      omega
    · omega

/-- Every step inside an iteration is a step towards its end, but for the
registration of a client. -/
theorem advances_of_step (h : r.step listenFd s io = some s') (hadd : ¬ ClientAdded io) :
    Advances s io s' := by
  unfold Advances
  cases Reactor.step_cases h with
  | addListener hp | addListenerFailed hp | waited hp | waitFailed hp =>
    rw [hp]
    exact fun hpos => absurd hpos (lt_irrefl 0)
  | goOn | stop | addClientFailed | writeFailed | closeFailed => exact fun hpos => hpos
  | accepted hp | readSome hp | readNone hp =>
    rw [hp]
    simp only [remaining]
    omega
  | @acceptFailed rest hp | @wrote fd response rest hp | @closed fd rest hp =>
    rw [hp]
    refine fun _ => lt_of_le_of_lt (remaining_nextEvent rest) ?_
    simp only [remaining]
    omega
  | addClient => exact absurd rfl hadd
  | @handled fd buf rest hp env =>
    obtain ⟨m, -, ⟨response, -, hs⟩ | ⟨e, -, hs⟩ | ⟨-, hs⟩ | ⟨-, hs⟩⟩ :=
      Reactor.handle_cases r s env fd buf rest <;> rw [hs, hp] <;>
      simp only [remaining, LoopState.leave_point] <;> omega
  | dropClose hp | dropEpoll hp =>
    rw [hp]
    exact fun hpos => absurd hpos (lt_irrefl 0)

theorem onlyListener_nextEvent {s : LoopState} (hkeys : ∀ fd ∈ s.epoll.keys, fd = listenFd)
    {events : List (RawFd × EventFlags)} (hevents : ∀ e ∈ events, e.1 = listenFd) :
    OnlyListener listenFd { s with point := nextEvent listenFd events } := by
  refine ⟨hkeys, ?_⟩
  cases events with
  | nil => trivial
  | cons e events =>
    obtain ⟨fd, flags⟩ := e
    rw [nextEvent, if_pos (hevents (fd, flags) (by simp))]
    exact fun e he => hevents e (List.mem_cons_of_mem _ he)

theorem onlyListener_leave {s : LoopState} (hkeys : ∀ fd ∈ s.epoll.keys, fd = listenFd)
    (result : Except Anyhow Unit) : OnlyListener listenFd (s.leave result) := ⟨hkeys, trivial⟩

theorem onlyListener_enter (listenFd epollFd : RawFd) :
    OnlyListener listenFd (.enter epollFd) := by
  refine ⟨fun fd hfd => ?_, trivial⟩
  cases hfd

theorem onlyListener_step (h : r.step listenFd s io = some s') (hadd : ¬ ClientAdded io)
    (hk : KernelRules listenFd s io s') (hI : OnlyListener listenFd s) :
    OnlyListener listenFd s' := by
  obtain ⟨hkeys, hpoint⟩ := hI
  cases Reactor.step_cases h with
  | addListener hp =>
    refine ⟨fun fd hfd => ?_, trivial⟩
    rcases EpollBackend.mem_keys_insert.mp hfd with hfd | hfd
    · exact hfd
    · exact hkeys fd hfd
  | goOn => exact ⟨hkeys, trivial⟩
  | addListenerFailed | stop | waitFailed | addClientFailed | writeFailed =>
    exact onlyListener_leave hkeys _
  | waited hp events => exact onlyListener_nextEvent hkeys fun e he => hkeys e.1 (hk e he)
  | accepted hp =>
    rw [hp] at hpoint
    exact ⟨hkeys, hpoint⟩
  | acceptFailed hp =>
    rw [hp] at hpoint
    exact onlyListener_nextEvent hkeys hpoint
  | addClient => exact absurd rfl hadd
  | readSome hp | readNone hp | handled hp | wrote hp | closed hp | closeFailed hp =>
    rw [hp] at hpoint
    exact hpoint.elim
  | dropClose => exact ⟨fun fd hfd => hkeys fd (EpollBackend.mem_keys_of_mem_close hfd), trivial⟩
  | dropEpoll hp => exact ⟨hkeys, trivial⟩

@[simp] theorem modes_concat (listenFd : RawFd) (t : List Io) (io : Io) :
    modes listenFd (t ++ [io]) = match io with
      | .accept (.ok fd) => Function.update (modes listenFd t) fd .blocking
      | _ => modes listenFd t := by
  rw [modes, List.foldl_append]
  rfl

theorem modes_listener {t : List Io} (hfresh : ∀ fd, Io.accept (.ok fd) ∈ t → fd ≠ listenFd) :
    modes listenFd t listenFd = .nonBlocking := by
  induction t using List.reverseRecOn with
  | nil => simp [modes]
  | append_singleton t io ih =>
    have ht := ih fun fd hfd => hfresh fd (List.mem_append_left _ hfd)
    rw [modes_concat]
    split
    case h_1 fd =>
      rw [Function.update_of_ne (hfresh fd (by simp)).symm, ht]
    case h_2 => exact ht

/-- An accepted descriptor that is about to be registered is in blocking mode. -/
def AddsBlocking (modes : RawFd → Mode) : Point → Prop
  | .addClient fd _ => modes fd = .blocking
  | _ => True

theorem addsBlocking_step (h : r.step listenFd s io = some s') :
    AddsBlocking (modes listenFd (t ++ [io])) s'.point := by
  have hnext (events : List (RawFd × EventFlags)) (modes : RawFd → Mode) :
      AddsBlocking modes (nextEvent listenFd events) :=
    nextEvent_of (P := AddsBlocking modes) trivial (fun _ => trivial) (fun _ _ => trivial)
      listenFd events
  cases Reactor.step_cases h with
  | accepted hp fd =>
    rw [modes_concat]
    exact Function.update_self ..
  | waited | acceptFailed | wrote | closed => exact hnext _ _
  | @handled fd buf rest hp env =>
    obtain ⟨m, -, ⟨response, -, hs⟩ | ⟨e, -, hs⟩ | ⟨-, hs⟩ | ⟨-, hs⟩⟩ :=
      Reactor.handle_cases r s env fd buf rest <;> rw [hs] <;> trivial
  | _ => trivial

/-- The step that adds a client leaves it registered in blocking mode. -/
theorem blocking_of_clientAdded (h : r.step listenFd s io = some s') (hadd : ClientAdded io)
    (hb : AddsBlocking (modes listenFd t) s.point) :
    ∃ fd ∈ s'.epoll.keys, modes listenFd (t ++ [io]) fd = .blocking := by
  cases Reactor.step_cases h with
  | addListener =>
    have hne : EPOLLIN ≠ EPOLLIN ||| EPOLLET := by decide
    exact absurd hadd hne
  | @addClient fd rest hp =>
    rw [hp] at hb
    exact ⟨fd, EpollBackend.mem_keys_insert.mpr (Or.inl rfl), by rw [modes_concat]; exact hb⟩
  | _ => exact hadd.elim

theorem free_of_onlyListener (hmode : modes listenFd t listenFd = .nonBlocking)
    (hI : OnlyListener listenFd s) : Free listenFd (modes listenFd t) s where
  registered := by
    intro fd hfd
    rw [hI.1 fd hfd, hmode]
  returns := by
    obtain ⟨-, hpoint⟩ := hI
    intro ready hblocks
    cases hp : s.point with
    | accept rest =>
      rw [hp] at hblocks
      exact absurd (hblocks.1.symm.trans hmode) (by decide)
    | read | write =>
      rw [hp] at hpoint
      exact hpoint
    | _ =>
      rw [hp] at hblocks
      exact hblocks

theorem fresh_of_rules (hkernel : Along (r.step listenFd) (KernelRules listenFd) s t)
    (hrun : run (r.step listenFd) s t = some s') (fd : RawFd) (hfd : Io.accept (.ok fd) ∈ t) :
    fd ≠ listenFd := by
  have hlabel : Along (r.step listenFd)
      (fun _ io _ => ∀ fd, io = .accept (.ok fd) → fd ≠ listenFd) s t := by
    refine hkernel.mono fun s io s' _ hk fd hio => ?_
    subst hio
    exact hk
  exact (along_label_iff hrun).mp hlabel _ hfd fd rfl

/-- The loop cannot be blocked, and each of its iterations comes to an end, exactly in
the runs where no client is ever registered. -/
theorem reactor_free_iff (r : Reactor) (listenFd epollFd : RawFd) (t : List Io) (s' : LoopState)
    (hkernel : Along (r.step listenFd) (KernelRules listenFd) (.enter epollFd) t)
    (hrun : run (r.step listenFd) (.enter epollFd) t = some s') :
    ((∀ u s, u <+: t → run (r.step listenFd) (.enter epollFd) u = some s →
        Free listenFd (modes listenFd u) s) ∧
      Along (r.step listenFd) Advances (.enter epollFd) t) ↔
      ∀ io ∈ t, ¬ ClientAdded io := by
  constructor
  · rintro ⟨hfree, -⟩
    refine forall_mem_of_split hrun fun u io m m' hprefix hm hs hadd => ?_
    -- the client about to be added is in blocking mode, and afterwards it is registered
    have hb : AddsBlocking (modes listenFd u) m.point :=
      run_history_of_step (I := fun u s => AddsBlocking (modes listenFd u) s.point)
        (fun _ _ _ _ _ hs => addsBlocking_step hs)
        (show AddsBlocking _ (LoopState.enter epollFd).point from trivial) hm
    obtain ⟨fd, hfd, hmode⟩ := blocking_of_clientAdded hs hadd hb
    have hcalls := (hfree _ m' hprefix (run_concat_iff.mpr ⟨m, hm, hs⟩)).registered fd hfd
    exact absurd (hmode.symm.trans hcalls) (by decide)
  · intro hnone
    constructor
    · rintro u s ⟨v, rfl⟩ hu
      have hk := ((along_append_iff hu).mp hkernel).1
      have hlabel := (along_label_iff hu).mpr fun io hio =>
        hnone io (List.mem_append_left _ hio)
      refine free_of_onlyListener (modes_listener (fresh_of_rules hk hu)) ?_
      exact run_invariant (I := OnlyListener listenFd)
        (fun _ _ _ hI hs hP => onlyListener_step hs hP.1 hP.2 hI)
        (onlyListener_enter listenFd epollFd) (along_and_iff.mpr ⟨hlabel, hk⟩) hu
    · exact ((along_label_iff hrun).mpr hnone).mono fun s io s' hs hadd =>
        advances_of_step hs hadd

/-- The listener is reported, but who wanted to connect is gone, and `event_loop` goes on to
the next turn. -/
def quietTurn : List Io :=
  [.epollAdd 3 EPOLLIN (.ok ()), .load true, .epollWait (.ok [(3, EPOLLIN)]),
    .accept (.error "ECONNABORTED".toList), .load true]

theorem quietTurn_free :
    (∀ u s, u <+: quietTurn → run (Reactor.stock.step 3) (.enter 4) u = some s →
        Free 3 (modes 3 u) s) ∧
      Along (Reactor.stock.step 3) Advances (.enter 4) quietTurn := by
  have hlistener : EPOLLIN ≠ EPOLLIN ||| EPOLLET := by decide
  exact (reactor_free_iff Reactor.stock 3 4 quietTurn _ (by decide) rfl).mpr
    (by simp [quietTurn, ClientAdded, hlistener])

/-- A client that does not read its response, once its buffer is full, stops the loop in
`write`. -/
theorem full_buffer_blocks_loop :
    Along (Reactor.stock.step 3) (KernelRules 3) (.enter 4) strayByte ∧
    run (Reactor.stock.step 3) (.enter 4) strayByte = some refusing ∧
    5 ∈ refusing.epoll.keys ∧ modes 3 strayByte 5 = .blocking ∧
    Blocks 3 (modes 3 strayByte) (fun _ => ⟨false, false, false⟩) refusing.point ∧
    ¬ Free 3 (modes 3 strayByte) refusing := by
  have hmode : modes 3 strayByte 5 = .blocking := rfl
  refine ⟨by decide, strayByte_run, by decide, hmode, ⟨hmode, rfl⟩, fun hfree => ?_⟩
  exact hfree.returns (fun _ => ⟨false, false, false⟩) ⟨hmode, rfl⟩

end KernelEngine.Blocking
