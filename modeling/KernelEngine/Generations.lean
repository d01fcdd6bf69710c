import KernelEngine.Net.Interest
import KernelEngine.Worker.EventLoop
import Mathlib.Data.List.Nodup

namespace KernelEngine.Generations
open Rust File Http Net Worker Runs

/-- The kernel's side of `event_loop`. Every open descriptor denotes a connection, given
by its number in the order of `accept`; `raised` keeps those the events of the last
batch were raised for. -/
structure Kernel where
  interest : Finset RawFd
  connection : RawFd → Option ℕ
  accepted : ℕ
  raised : RawFd → Option ℕ

namespace Kernel

/-- Nothing is watched yet, and the open descriptors are none of a client. -/
def start (opened : Finset RawFd) : Kernel where
  interest := ∅
  connection fd := if fd ∈ opened then some 0 else none
  accepted := 1
  raised _ := none

def watch (k : Kernel) (c : Call) : Option Kernel :=
  (c.interest k.interest).map fun set => { k with interest := set }

def release (k : Kernel) (fd : RawFd) : Kernel :=
  { k with connection := Function.update k.connection fd none }

/-- Whether a close comes to `libc::close`, and that gives the number back. -/
def freed (releases : OsError → Bool) : Except OsError Unit → Except OsError Unit → Bool
  | .ok _, .ok _ => true
  | .ok _, .error e => releases e
  | .error _, _ => false

/-- `accept` hands out any number that is not open, and a batch has one event for each
of its descriptors, all of them watched. `releases` says which failures of `libc::close`
give the number back. -/
def step (releases : OsError → Bool) (k : Kernel) : Io → Option Kernel
  | .epollAdd fd events added => k.watch (.register fd events added)
  | .epollWait (.ok events) =>
    if (events.map Prod.fst).Nodup ∧ ∀ fd ∈ events.map Prod.fst, fd ∈ k.interest then
      some { k with raised := fun fd =>
        if fd ∈ events.map Prod.fst then k.connection fd else none }
    else none
  | .accept (.ok fd) =>
    if k.connection fd = none then
      some { k with
        connection := Function.update k.connection fd (some k.accepted)
        accepted := k.accepted + 1 }
    else none
  | .close fd deleted closed =>
    (k.watch (.close fd deleted closed)).map fun k =>
      if freed releases deleted closed then k.release fd else k
  | _ => some k

variable {releases : OsError → Bool} {k k' : Kernel} {fd fd' : RawFd}
  {deleted closed : Except OsError Unit}

theorem watch_iff {c : Call} : k.watch c = some k' ↔
    ∃ set, c.interest k.interest = some set ∧ { k with interest := set } = k' := by
  simp only [watch, Option.map_eq_some_iff]

theorem step_close_iff : step releases k (.close fd deleted closed) = some k' ↔
    ∃ set, (Call.close fd deleted closed).interest k.interest = some set ∧
      k' = if freed releases deleted closed then release { k with interest := set } fd
        else { k with interest := set } := by
  simp only [step, watch, Option.map_map, Option.map_eq_some_iff, Function.comp_apply,
    @eq_comm _ k']

/-- A close is seen at its own descriptor only. -/
theorem connection_close_of_ne (h : step releases k (.close fd deleted closed) = some k')
    (hne : fd' ≠ fd) : k'.connection fd' = k.connection fd' := by
  obtain ⟨set, -, rfl⟩ := step_close_iff.mp h
  split_ifs
  · exact Function.update_of_ne hne _ _
  · rfl

theorem connection_close_error {e : OsError}
    (h : step releases k (.close fd (.error e) closed) = some k') :
    k'.connection = k.connection := by
  obtain ⟨set, -, rfl⟩ := step_close_iff.mp h
  rfl

theorem raised_close (h : step releases k (.close fd deleted closed) = some k') :
    k'.raised = k.raised := by
  obtain ⟨set, -, rfl⟩ := step_close_iff.mp h
  split_ifs <;> rfl

theorem interest_close (h : step releases k (.close fd deleted closed) = some k') :
    (Call.close fd deleted closed).interest k.interest = some k'.interest := by
  obtain ⟨set, hset, rfl⟩ := step_close_iff.mp h
  rw [hset]
  split_ifs <;> rfl

end Kernel

abbrev System := LoopState × Kernel

def step (r : Reactor) (listenFd : RawFd) (releases : OsError → Bool) :
    System → Io → Option System := sync (r.step listenFd) (Kernel.step releases)

/-- The descriptor a call reads, writes or closes. -/
def touched : Io → Option RawFd
  | .read fd _ => some fd
  | .write fd _ _ _ => some fd
  | .close fd _ _ => some fd
  | _ => none

/-- Leaving `event_loop`, past the batch. -/
def Dropping (s : LoopState) : Prop := ∃ fds result, s.point = .drop fds result

/-- A touched descriptor is open and registered, and while a batch is handled it denotes
the connection its event was raised for. -/
def Current (p : System) (io : Io) (_ : System) : Prop :=
  ∀ fd, touched io = some fd → fd ∈ p.1.epoll.keys ∧ ∃ c, p.2.connection fd = some c ∧
    (¬ Dropping p.1 → p.2.raised fd = some c)

/-- The descriptors of the event at hand and of the rest of the batch. -/
def unprocessed : Point → List RawFd
  | .accept rest => rest.map Prod.fst
  | .addClient _ rest => rest.map Prod.fst
  | .read fd rest => fd :: rest.map Prod.fst
  | .handle fd _ rest => fd :: rest.map Prod.fst
  | .write fd _ rest => fd :: rest.map Prod.fst
  | .close fd rest => fd :: rest.map Prod.fst
  | _ => []

def dropped : Point → List RawFd
  | .drop fds _ => fds
  | _ => []

/-- Descriptors of a batch that still denote what their events were raised for. -/
structure Fresh (k : Kernel) (keys fds : List RawFd) : Prop where
  nodup : fds.Nodup
  registered : ∀ fd ∈ fds, fd ∈ keys
  same : ∀ fd ∈ fds, k.raised fd = k.connection fd

structure Invariant (listenFd : RawFd) (p : System) : Prop where
  tracks : p.1.epoll.Tracks p.2.interest
  opened : ∀ fd ∈ p.1.epoll.keys, p.2.connection fd ≠ none
  arrived : ∀ fd ∈ arriving listenFd p.1.point, p.2.connection fd ≠ none
  fresh : Fresh p.2 p.1.epoll.keys (unprocessed p.1.point)
  left : (dropped p.1.point).Nodup ∧ ∀ fd ∈ dropped p.1.point, fd ∈ p.1.epoll.keys

section Points

variable {listenFd : RawFd}

theorem unprocessed_nextEvent (events : List (RawFd × EventFlags)) :
    (unprocessed (nextEvent listenFd events)).Sublist (events.map Prod.fst) := by
  induction events with
  | nil => exact List.nil_sublist _
  | cons e events ih =>
    rw [nextEvent, List.map_cons]
    split_ifs
    · exact List.sublist_cons_self _ _
    · exact List.Sublist.refl _
    · exact ih.cons _

@[simp] theorem dropped_nextEvent (events : List (RawFd × EventFlags)) :
    dropped (nextEvent listenFd events) = [] :=
  nextEvent_of (P := fun p => dropped p = []) rfl (fun _ => rfl) (fun _ _ => rfl) _ _

end Points

section Steps

variable {r : Reactor} {listenFd : RawFd} {releases : OsError → Bool} {s s' : LoopState}
  {k k' : Kernel} {p q : System} {io : Io}

theorem Fresh.sublist {keys fds fds' : List RawFd} (h : Fresh k keys fds)
    (hsub : fds'.Sublist fds) : Fresh k keys fds' where
  nodup := h.nodup.sublist hsub
  registered fd hfd := h.registered fd (hsub.subset hfd)
  same fd hfd := h.same fd (hsub.subset hfd)

/-- Where the kernel has not changed, a step may only give up what was pending. -/
theorem Invariant.moved (h : Invariant listenFd (s, k)) (hepoll : s'.epoll = s.epoll)
    (harriving : arriving listenFd s'.point = none)
    (hrest : (unprocessed s'.point).Sublist (unprocessed s.point))
    (hdropped : (dropped s'.point).Sublist s.epoll.keys) : Invariant listenFd (s', k) where
  tracks := hepoll ▸ h.tracks
  opened := hepoll ▸ h.opened
  arrived fd hfd := by simp [harriving] at hfd
  fresh := by
    dsimp only
    rw [hepoll]
    exact h.fresh.sublist hrest
  left := by
    dsimp only
    rw [hepoll]
    exact ⟨s.epoll.keys_nodup.sublist hdropped, hdropped.subset⟩

/-- Closing a descriptor leaves all others as they were. -/
theorem Invariant.closed (h : Invariant listenFd (s, k)) {fd : RawFd}
    {deleted closed : Except OsError Unit}
    (hk : Kernel.step releases k (.close fd deleted closed) = some k')
    (hepoll : s'.epoll = (s.epoll.close fd deleted closed).1)
    (harriving : arriving listenFd s'.point = none)
    (hrest : (fd :: unprocessed s'.point).Sublist (unprocessed s.point) ∨ unprocessed s'.point = [])
    (hdropped : (dropped s'.point).Nodup ∧ ∀ fd ∈ dropped s'.point, fd ∈ s'.epoll.keys) :
    Invariant listenFd (s', k') := by
  have hkeys (fd' : RawFd) (hfd' : fd' ∈ s'.epoll.keys) :
      fd' ∈ s.epoll.keys ∧ k'.connection fd' = k.connection fd' := by
    rw [hepoll] at hfd'
    cases deleted with
    | error => exact ⟨hfd', congrFun (Kernel.connection_close_error hk) fd'⟩
    | ok =>
      obtain ⟨hne, hold⟩ := EpollBackend.mem_keys_erase.mp hfd'
      exact ⟨hold, Kernel.connection_close_of_ne hk hne⟩
  constructor
  · exact hepoll ▸ h.tracks.exec (Kernel.interest_close hk)
  · intro fd' hfd'
    obtain ⟨hold, hsame⟩ := hkeys fd' hfd'
    exact hsame ▸ h.opened fd' hold
  · intro fd' hfd'
    simp [harriving] at hfd'
  · obtain hsub | hnil := hrest
    · obtain ⟨hnot, hnodup⟩ := List.nodup_cons.mp (h.fresh.nodup.sublist hsub)
      refine ⟨hnodup, fun fd' hfd' => ?_, fun fd' hfd' => ?_⟩
      · have hold := h.fresh.registered fd' (hsub.subset (List.mem_cons_of_mem _ hfd'))
        exact hepoll ▸ EpollBackend.mem_keys_close_of_ne (ne_of_mem_of_not_mem hfd' hnot) hold
      · rw [Kernel.raised_close hk,
          Kernel.connection_close_of_ne hk (ne_of_mem_of_not_mem hfd' hnot)]
        exact h.fresh.same fd' (hsub.subset (List.mem_cons_of_mem _ hfd'))
    · exact hnil ▸ ⟨List.nodup_nil, by simp, by simp⟩
  · exact hdropped

/-- What `register` needs to know of a new descriptor is that it is open. -/
theorem Invariant.registered (h : Invariant listenFd (s, k)) {fd : RawFd}
    (hfd : arriving listenFd s.point = some fd) {events : EventFlags}
    (hk : Kernel.step releases k (.epollAdd fd events (.ok ())) = some k')
    (hepoll : s'.epoll = s.epoll.insert fd) (harriving : arriving listenFd s'.point = none)
    (hrest : unprocessed s'.point = unprocessed s.point) (hdropped : dropped s'.point = []) :
    Invariant listenFd (s', k') := by
  obtain ⟨set, hset, rfl⟩ := Kernel.watch_iff.mp hk
  constructor
  · exact hepoll ▸ h.tracks.exec hset
  · intro fd' hfd'
    dsimp only at hfd'
    rw [hepoll] at hfd'
    obtain rfl | hold := EpollBackend.mem_keys_insert.mp hfd'
    · exact h.arrived fd' hfd
    · exact h.opened fd' hold
  · intro fd' hfd'
    simp [harriving] at hfd'
  · dsimp only
    rw [hepoll, hrest]
    exact ⟨h.fresh.nodup, fun fd' hfd' =>
      EpollBackend.mem_keys_insert.mpr (Or.inr (h.fresh.registered fd' hfd')), h.fresh.same⟩
  · simp [hdropped]

/-- Each event of a batch is raised for what its descriptor denotes at that moment. -/
theorem Invariant.waited (h : Invariant listenFd (s, k)) {events : List (RawFd × EventFlags)}
    (hk : Kernel.step releases k (.epollWait (.ok events)) = some k') :
    Invariant listenFd ({ s with point := nextEvent listenFd events }, k') := by
  obtain ⟨⟨hnodup, hwatched⟩, hk⟩ := Option.ite_none_right_eq_some.mp hk
  obtain rfl := Option.some.inj hk
  constructor
  · exact h.tracks
  · exact h.opened
  · intro fd hfd
    simp at hfd
  · refine Fresh.sublist ⟨hnodup, fun fd hfd => ?_, fun fd hfd => ?_⟩
      (unprocessed_nextEvent events)
    · exact h.tracks.mem_iff.mpr (hwatched fd hfd)
    · exact if_pos hfd
  · simp

/-- A new connection takes a number that no registered descriptor has. -/
theorem Invariant.accepted (h : Invariant listenFd (s, k)) {fd : RawFd}
    {rest : List (RawFd × EventFlags)} (hp : s.point = .accept rest)
    (hk : Kernel.step releases k (.accept (.ok fd)) = some k') :
    Invariant listenFd ({ s with point := .addClient fd rest }, k') := by
  obtain ⟨hfree, hk⟩ := Option.ite_none_right_eq_some.mp hk
  obtain rfl := Option.some.inj hk
  have hsame (fd' : RawFd) (hfd' : fd' ∈ s.epoll.keys) :
      Function.update k.connection fd (some k.accepted) fd' = k.connection fd' := by
    apply Function.update_of_ne
    rintro rfl
    exact h.opened fd' hfd' hfree
  have hrest : unprocessed s.point = rest.map Prod.fst := by rw [hp, unprocessed]
  have hfresh := hrest ▸ h.fresh
  constructor
  · exact h.tracks
  · intro fd' hfd'
    exact fun hclosed => h.opened fd' hfd' ((hsame fd' hfd').symm.trans hclosed)
  · rintro fd' ⟨⟩
    simp
  · refine ⟨hfresh.nodup, hfresh.registered, fun fd' hfd' => ?_⟩
    exact (hfresh.same fd' hfd').trans (hsame fd' (hfresh.registered fd' hfd')).symm
  · simp [dropped]

theorem invariant_step (h : Invariant listenFd p)
    (hs : step r listenFd releases p io = some q) : Invariant listenFd q := by
  obtain ⟨s, k⟩ := p
  obtain ⟨s', k'⟩ := q
  obtain ⟨hs, hk⟩ := sync_iff.mp hs
  dsimp only at hs hk
  have hkeys := s.epoll.keys_nodup
  cases Reactor.step_cases hs with
  | addListener hp =>
    exact h.registered (by rw [hp, arriving]) hk rfl rfl (by rw [hp]; rfl) rfl
  | addClient hp =>
    exact h.registered (by rw [hp, arriving]) hk rfl rfl (by rw [hp]; rfl) rfl
  | addListenerFailed hp e msg | addClientFailed hp e msg =>
    obtain ⟨set, hset, rfl⟩ := Kernel.watch_iff.mp hk
    obtain rfl := Option.some.inj hset
    exact h.moved rfl rfl (List.nil_sublist _) (List.Sublist.refl _)
  | goOn hp =>
    obtain rfl := Option.some.inj hk
    exact h.moved rfl rfl (List.nil_sublist _) (List.nil_sublist _)
  | stop hp | waitFailed hp e msg | writeFailed hp order e msg =>
    obtain rfl := Option.some.inj hk
    exact h.moved rfl rfl (List.nil_sublist _) (List.Sublist.refl _)
  | waited hp events => exact h.waited hk
  | accepted hp fd => exact h.accepted hp hk
  | acceptFailed hp e =>
    obtain rfl := Option.some.inj hk
    refine h.moved rfl (arriving_nextEvent _ _) ?_ (by simp)
    rw [hp, unprocessed]
    exact unprocessed_nextEvent _
  | readSome hp buf hpos hlen | readNone hp got hgot =>
    obtain rfl := Option.some.inj hk
    refine h.moved rfl rfl ?_ (List.nil_sublist _)
    rw [hp]
    exact List.Sublist.refl _
  | @handled fd buf rest hp env =>
    obtain rfl := Option.some.inj hk
    obtain ⟨m, -, ⟨response, -, he⟩ | ⟨e, -, he⟩ | ⟨-, he⟩ | ⟨-, he⟩⟩ :=
      Reactor.handle_cases r s env fd buf rest <;> rw [he]
    · refine h.moved rfl rfl ?_ (List.nil_sublist _)
      rw [hp]
      exact List.Sublist.refl _
    · exact h.moved rfl rfl (List.nil_sublist _) (List.Sublist.refl _)
    · exact h.moved rfl rfl (List.nil_sublist _) (List.nil_sublist _)
    · exact h.moved rfl rfl (List.nil_sublist _) (List.nil_sublist _)
  | wrote hp order horder n =>
    obtain rfl := Option.some.inj hk
    refine h.moved rfl (arriving_nextEvent _ _) ?_ (by simp)
    rw [hp, unprocessed]
    exact (unprocessed_nextEvent _).cons _
  | closed hp =>
    refine h.closed hk rfl (arriving_nextEvent _ _) (Or.inl ?_) (by simp)
    rw [hp, unprocessed]
    exact (unprocessed_nextEvent _).cons_cons _
  | closeFailed hp deleted closed hfail msg =>
    exact h.closed hk rfl rfl (Or.inr rfl) ⟨EpollBackend.keys_nodup _, fun fd hfd => hfd⟩
  | @dropClose fds result hp fd hfd deleted closed =>
    have hleft := h.left
    dsimp only at hleft
    rw [hp, dropped] at hleft
    refine h.closed hk rfl rfl (Or.inr rfl) ⟨hleft.1.erase fd, fun fd' hfd' => ?_⟩
    obtain ⟨hne, hmem⟩ := hleft.1.mem_erase_iff.mp hfd'
    exact EpollBackend.mem_keys_close_of_ne hne (hleft.2 fd' hmem)
  | dropEpoll hp =>
    obtain rfl := Option.some.inj hk
    exact h.moved rfl rfl (List.nil_sublist _) (List.nil_sublist _)

theorem Invariant.current (h : Invariant listenFd p)
    (hs : step r listenFd releases p io = some q) : Current p io q := by
  obtain ⟨s, k⟩ := p
  obtain ⟨s', k'⟩ := q
  obtain ⟨hs, -⟩ := sync_iff.mp hs
  have handling (fd : RawFd) (hfd : fd ∈ unprocessed s.point) : fd ∈ s.epoll.keys ∧
      ∃ c, k.connection fd = some c ∧ (¬ Dropping s → k.raised fd = some c) := by
    have hmem := h.fresh.registered fd hfd
    obtain ⟨c, hc⟩ := Option.ne_none_iff_exists'.mp (h.opened fd hmem)
    exact ⟨hmem, c, hc, fun _ => (h.fresh.same fd hfd).trans hc⟩
  intro fd hfd
  cases Reactor.step_cases hs with
  | readSome hp | readNone hp | wrote hp | writeFailed hp | closed hp | closeFailed hp =>
    obtain rfl := Option.some.inj hfd
    exact handling _ (by rw [hp]; exact List.mem_cons_self)
  | @dropClose fds result hp fd' hmem =>
    obtain rfl := Option.some.inj hfd
    have hleft := h.left.2
    dsimp only at hleft
    rw [hp, dropped] at hleft
    obtain ⟨c, hc⟩ := Option.ne_none_iff_exists'.mp (h.opened fd' (hleft fd' hmem))
    exact ⟨hleft fd' hmem, c, hc, fun hnot => (hnot ⟨fds, result, hp⟩).elim⟩
  | _ => cases hfd

theorem invariant_enter {opened : Finset RawFd} (hopen : listenFd ∈ opened) (epollFd : RawFd) :
    Invariant listenFd (.enter epollFd, .start opened) where
  tracks := rfl
  opened fd hfd := absurd hfd List.not_mem_nil
  arrived fd hfd := by
    obtain rfl := Option.some.inj hfd
    simp [Kernel.start, hopen]
  fresh := ⟨List.nodup_nil, by simp [LoopState.enter, unprocessed],
    by simp [LoopState.enter, unprocessed]⟩
  left := by simp [LoopState.enter, dropped]

end Steps

/-- In every run of `event_loop` each read, write and close is on an open and registered
descriptor, which during a batch still denotes what its event was raised for. -/
theorem never_stale (r : Reactor) (listenFd epollFd : RawFd) (releases : OsError → Bool)
    (opened : Finset RawFd) (hopen : listenFd ∈ opened) (t : List Io) :
    Along (step r listenFd releases) Current (.enter epollFd, .start opened) t :=
  along_of_invariant (P := fun _ _ _ => True)
    (fun _ _ _ h hs _ => ⟨invariant_step h hs, h.current hs⟩)
    (invariant_enter hopen epollFd) along_true

/-- In one batch the client on 5 is closed and the next connection gets its number. -/
def reusedNumber : List Io :=
  [.epollAdd 3 EPOLLIN (.ok ()), .load true, .epollWait (.ok [(3, EPOLLIN)]), .accept (.ok 5),
    .epollAdd 5 (EPOLLIN ||| EPOLLET) (.ok ()), .accept (.error []), .load true,
    .epollWait (.ok [(5, EPOLLIN), (3, EPOLLIN)]), .read 5 (.ok []), .close 5 (.ok ()) (.ok ()),
    .accept (.ok 5), .epollAdd 5 (EPOLLIN ||| EPOLLET) (.ok ()), .accept (.error []), .load true,
    .epollWait (.ok [(5, EPOLLIN)]), .read 5 (.ok [])]

theorem reusedNumber_never_stale :
    (run (step Reactor.stock 3 fun _ => true) (.enter 4, .start {3, 4}) reusedNumber).isSome ∧
      Along (step Reactor.stock 3 fun _ => true) Current (.enter 4, .start {3, 4}) reusedNumber :=
  ⟨by decide, never_stale Reactor.stock 3 4 (fun _ => true) {3, 4} (by decide) reusedNumber⟩

end KernelEngine.Generations
