import KernelEngine.Worker.Start
import Mathlib.Algebra.Order.Group.Multiset

namespace KernelEngine.Descriptors
open Rust File Net Worker Runs

/-- The socket descriptors a call obtains, and those it closes. `EpollBackend::close`
comes to `libc::close` only where the removal from epoll succeeded. -/
def obtains : StartIo → List RawFd
  | .socket (.ok fd) => [fd]
  | .loop (.accept (.ok fd)) => [fd]
  | _ => []

def closes : StartIo → List RawFd
  | .closeSocket fd => [fd]
  | .loop (.close fd (.ok _) _) => [fd]
  | _ => []

def obtained (t : List StartIo) : Multiset RawFd := (t.flatMap obtains : List RawFd)

def closed (t : List StartIo) : Multiset RawFd := (t.flatMap closes : List RawFd)

/-- The descriptors `start` holds at a place: on the way to `register`, or registered. -/
def held : StartPoint → List RawFd
  | .bind fd _ => [fd]
  | .listen fd => [fd]
  | .abandon fd _ => [fd]
  | .epollCreate fd => [fd]
  | .loop listenFd s => (arriving listenFd s.point).toList ++ s.epoll.keys
  | _ => []

/-- Every descriptor obtained is held or was closed, as often as it was obtained. -/
def Owned (t : List StartIo) (p : StartPoint) : Prop := obtained t = closed t + held p

def Returned : StartPoint → Prop
  | .returned _ => True
  | _ => False

def registered : StartPoint → List RawFd
  | .loop _ s => s.epoll.keys
  | _ => []

def accepts : StartIo → Option RawFd
  | .loop (.accept (.ok fd)) => some fd
  | _ => none

def closing : StartIo → Option (RawFd × Except OsError Unit × Except OsError Unit)
  | .loop (.close fd deleted closed) => some (fd, deleted, closed)
  | _ => none

/-- A new descriptor is none of those registered. Removal from epoll and `close` succeed
on a registered descriptor, and removal only there. -/
def KernelRules (p : StartPoint) (io : StartIo) (_ : StartPoint) : Prop :=
  (∀ fd ∈ accepts io, fd ∉ registered p) ∧
    ∀ c ∈ closing io, (c.1 ∈ registered p → c.2 = (.ok (), .ok ())) ∧
      (c.1 ∉ registered p → c.2.1 ≠ .ok ())

instance (p : StartPoint) (io : StartIo) (p' : StartPoint) : Decidable (KernelRules p io p') :=
  inferInstanceAs (Decidable (_ ∧ _))

/-- No descriptor in hand when something fails: the host is an address whenever there
is a socket for it, and epoll takes what it is given. -/
def Kept (r : Reactor) : StartIo → Prop
  | .socket (.ok _) => Ipv4Addr.parse r.config.host ≠ none
  | .epollCreate created => ∃ fd, created = .ok fd
  | .loop (.epollAdd _ _ added) => added = .ok ()
  | _ => True

/-- What the registered descriptors are at the places where it matters. -/
def SettledAt (keys : List RawFd) : Point → Prop
  | .addListener => keys = []
  | .addClient fd _ => fd ∉ keys
  | .drop fds _ => keys = fds
  | .returned _ => keys = []
  | _ => True

def Settled : StartPoint → Prop
  | .loop _ s => SettledAt s.epoll.keys s.point
  | _ => True

variable {r : Reactor} {p p' : StartPoint} {io : StartIo} {t : List StartIo} {listenFd : RawFd}
  {s s' : LoopState}

@[simp] theorem obtained_concat (t : List StartIo) (io : StartIo) :
    obtained (t ++ [io]) = obtained t + (obtains io : Multiset RawFd) := by
  simp [obtained]

@[simp] theorem closed_concat (t : List StartIo) (io : StartIo) :
    closed (t ++ [io]) = closed t + (closes io : Multiset RawFd) := by
  simp [closed]

/-- Nothing is lost or closed twice in one step. -/
def Balanced (p : StartPoint) (io : StartIo) (p' : StartPoint) : Prop :=
  (held p ++ obtains io).Perm (closes io ++ held p')

theorem owned_concat_iff (ht : Owned t p) : Owned (t ++ [io]) p' ↔ Balanced p io p' := by
  unfold Owned at ht ⊢
  rw [obtained_concat, closed_concat, ht, add_assoc, add_assoc, add_right_inj, Multiset.coe_add,
    Multiset.coe_add, Multiset.coe_eq_coe]
  rfl

theorem not_perm_of_cons {l : List RawFd} {fd : RawFd} : ¬ (fd :: l).Perm l := by
  intro h
  have hlen := h.length_eq
  rw [List.length_cons] at hlen
  omega

theorem settledAt_nextEvent (keys : List RawFd) (events : List (RawFd × EventFlags)) :
    SettledAt keys (nextEvent listenFd events) :=
  nextEvent_of (P := SettledAt keys) trivial (fun _ => trivial) (fun _ _ => trivial)
    listenFd events

theorem settled_loop {io : Io} (h : r.step listenFd s io = some s')
    (hk : KernelRules (.loop listenFd s) (.loop io) p')
    (hI : SettledAt s.epoll.keys s.point) : SettledAt s'.epoll.keys s'.point := by
  cases Reactor.step_cases h with
  | addListener | goOn | addClient | readSome | readNone => trivial
  | addListenerFailed | stop | waitFailed | addClientFailed | writeFailed | closeFailed => rfl
  | waited | acceptFailed | wrote | closed => exact settledAt_nextEvent _ _
  | accepted hp fd => exact hk.1 fd rfl
  | @handled fd buf rest hp env =>
    obtain ⟨m, -, ⟨response, -, hs⟩ | ⟨e, -, hs⟩ | ⟨-, hs⟩ | ⟨-, hs⟩⟩ :=
      Reactor.handle_cases r s env fd buf rest <;> rw [hs]
    · trivial
    · rfl
    · trivial
    · trivial
  | @dropClose fds result hp fd hfd deleted closed =>
    rw [hp] at hI
    have hkey : fd ∈ s.epoll.keys := hI.symm ▸ hfd
    obtain ⟨rfl, rfl⟩ := Prod.mk.inj ((hk.2 _ rfl).1 hkey)
    exact (EpollBackend.keys_erase _ _).trans (congrArg (·.erase fd) hI)
  | dropEpoll hp =>
    rw [hp] at hI
    exact hI

theorem balanced_loop_iff {io : Io} (h : r.step listenFd s io = some s')
    (hk : KernelRules (.loop listenFd s) (.loop io) p')
    (hI : SettledAt s.epoll.keys s.point) :
    Balanced (.loop listenFd s) (.loop io) (.loop listenFd s') ↔ Kept r (.loop io) := by
  change ((arriving listenFd s.point).toList ++ s.epoll.keys ++ obtains (.loop io)).Perm
    (closes (.loop io) ++ ((arriving listenFd s'.point).toList ++ s'.epoll.keys)) ↔ _
  cases Reactor.step_cases h with
  | addListener hp =>
    rw [hp] at hI
    change s.epoll.keys = [] at hI
    simp [hp, arriving, obtains, closes, Kept, hI]
  | addListenerFailed hp | addClientFailed hp =>
    -- the descriptor in hand is neither registered nor closed on the way out
    simp [hp, arriving, obtains, closes, Kept, not_perm_of_cons]
  | addClient hp =>
    rw [hp] at hI
    simp [hp, arriving, obtains, closes, Kept, List.erase_of_not_mem hI]
  | goOn hp | stop hp | readSome hp | readNone hp | waitFailed hp | writeFailed hp
  | dropEpoll hp =>
    simp [hp, arriving, obtains, closes, Kept]
  | accepted hp fd =>
    simp [hp, arriving, obtains, closes, Kept]
  | waited hp | acceptFailed hp | wrote hp =>
    rw [hp, arriving_nextEvent]
    simp [arriving, obtains, closes, Kept]
  | @handled fd buf rest hp env =>
    obtain ⟨m, -, ⟨response, -, hs⟩ | ⟨e, -, hs⟩ | ⟨-, hs⟩ | ⟨-, hs⟩⟩ :=
      Reactor.handle_cases r s env fd buf rest <;> rw [hs] <;>
      simp [hp, arriving, obtains, closes, Kept]
  | @closed fd rest hp =>
    have hfd : fd ∈ s.epoll.keys := by
      by_contra hne
      exact (hk.2 _ rfl).2 hne rfl
    refine iff_of_true ?_ trivial
    rw [hp, arriving_nextEvent]
    simpa [arriving, obtains, closes] using List.perm_cons_erase hfd
  | @closeFailed fd rest hp deleted closed hfail msg =>
    -- only an unregistered descriptor fails, and then nothing was closed
    have hdeleted : ∃ e, deleted = .error e := by
      by_cases hfd : fd ∈ s.epoll.keys
      · obtain ⟨rfl, rfl⟩ := Prod.mk.inj ((hk.2 _ rfl).1 hfd)
        simp at hfail
      · cases deleted with
        | ok => exact absurd rfl ((hk.2 _ rfl).2 hfd)
        | error e => exact ⟨e, rfl⟩
    obtain ⟨e, rfl⟩ := hdeleted
    refine iff_of_true ?_ trivial
    simp [hp, arriving, obtains, closes]
  | @dropClose fds result hp fd hfd deleted closed =>
    rw [hp] at hI
    have hkey : fd ∈ s.epoll.keys := hI.symm ▸ hfd
    obtain ⟨rfl, rfl⟩ := Prod.mk.inj ((hk.2 _ rfl).1 hkey)
    refine iff_of_true ?_ trivial
    have hperm := List.perm_cons_erase hkey
    rw [hp]
    simpa [arriving, obtains, closes] using hperm

theorem settled_step (h : r.startStep p io = some p') (hk : KernelRules p io p')
    (hI : Settled p) : Settled p' := by
  cases Reactor.startStep_cases h with
  | looped listenFd hs => exact settled_loop hs hk hI
  | entered => rfl
  | _ => trivial

/-- A step keeps the books balanced exactly when it keeps what it has in hand. -/
theorem balanced_iff (h : r.startStep p io = some p') (hk : KernelRules p io p')
    (hI : Settled p) : Balanced p io p' ↔ Kept r io := by
  cases Reactor.startStep_cases h with
  | looped listenFd hs => exact balanced_loop_iff hs hk hI
  | noSocket | bound | notBound | listening | notListening | abandoned | entered =>
    simp [Balanced, held, obtains, closes, Kept, arriving, LoopState.enter, EpollBackend.keys]
  | noAddress fd hhost => simp [Balanced, held, obtains, closes, Kept, hhost]
  | created fd hhost => simp [Balanced, held, obtains, closes, Kept, hhost]
  | noEpoll => simp [Balanced, held, obtains, closes, Kept]
  | @finished listenFd s result hp =>
    change SettledAt s.epoll.keys s.point at hI
    rw [hp] at hI
    change s.epoll.keys = [] at hI
    simp [Balanced, held, obtains, closes, Kept, hp, arriving, hI]

theorem settled_run (hk : Along r.startStep KernelRules .socket t)
    (hrun : run r.startStep .socket t = some p) : Settled p :=
  run_invariant (fun _ _ _ hI hs hP => settled_step hs hP hI) (show Settled .socket from trivial)
    hk hrun

theorem owned_run (hk : Along r.startStep KernelRules .socket t) (hkept : ∀ io ∈ t, Kept r io)
    (hrun : run r.startStep .socket t = some p) : Owned t p := by
  have hP := along_and_iff.mpr ⟨hk, (along_label_iff hrun).mpr hkept⟩
  have hstart : Owned [] .socket ∧ Settled .socket := ⟨rfl, trivial⟩
  refine (run_history (I := fun t p => Owned t p ∧ Settled p) ?_ hstart hP hrun).1
  rintro t p io p' ⟨howned, hI⟩ hs ⟨hrules, hio⟩
  exact ⟨(owned_concat_iff howned).mpr ((balanced_iff hs hrules hI).mpr hio),
    settled_step hs hrules hI⟩

/-- Along any run of `start`, and at its end, every socket descriptor is held or was
closed exactly once, exactly when no step drops the one it has in hand. -/
theorem descriptors_owned_iff (r : Reactor) (t : List StartIo) (p' : StartPoint)
    (hkernel : Along r.startStep KernelRules .socket t)
    (hrun : run r.startStep .socket t = some p') :
    (∀ u p, u <+: t → run r.startStep .socket u = some p →
        Owned u p ∧ (Returned p → obtained u = closed u)) ↔
      ∀ io ∈ t, Kept r io := by
  constructor
  · intro howned
    -- owned before and after a step, so the step was balanced
    refine forall_mem_of_split hrun fun u io m m' hprefix hm hs => ?_
    obtain ⟨v, rfl⟩ := hprefix
    rw [List.append_assoc] at hkernel hrun howned
    have hrules := hkernel.at_step hm hs
    have hI := settled_run ((along_append_iff hm).mp hkernel).1 hm
    have hu := (howned u m (List.prefix_append ..) hm).1
    have hu' := (howned (u ++ [io]) m' ⟨v, by simp⟩ (run_concat_iff.mpr ⟨m, hm, hs⟩)).1
    exact (balanced_iff hs hrules hI).mp ((owned_concat_iff hu).mp hu')
  · rintro hkept u p ⟨v, rfl⟩ hu
    have howned := owned_run ((along_append_iff hu).mp hkernel).1
      (fun io hio => hkept io (List.mem_append_left _ hio)) hu
    refine ⟨howned, fun hreturned => ?_⟩
    cases p with
    | returned result => exact howned.trans (add_zero _)
    | _ => exact hreturned.elim

/-- `start` comes up, two clients connect, one of them hangs up, and it is stopped. -/
def upAndDown : List StartIo :=
  [.socket (.ok 3), .bind 3 (0, 0, 0, 0) 8080 (.ok ()), .listen 3 128 (.ok ()),
    .epollCreate (.ok 4), .loop (.epollAdd 3 EPOLLIN (.ok ())), .loop (.load true),
    .loop (.epollWait (.ok [(3, EPOLLIN)])),
    .loop (.accept (.ok 5)), .loop (.epollAdd 5 (EPOLLIN ||| EPOLLET) (.ok ())),
    .loop (.accept (.ok 6)), .loop (.epollAdd 6 (EPOLLIN ||| EPOLLET) (.ok ())),
    .loop (.accept (.error "EAGAIN".toList)), .loop (.load true),
    .loop (.epollWait (.ok [(5, EPOLLIN)])), .loop (.read 5 (.ok [])),
    .loop (.close 5 (.ok ()) (.ok ())), .loop (.load false),
    .loop (.close 6 (.ok ()) (.ok ())), .loop (.close 3 (.ok ()) (.ok ())),
    .loop (.closeEpoll 4), .finish]

theorem upAndDown_owned :
    run Reactor.stock.startStep .socket upAndDown = some (.returned (.ok ())) ∧
      Owned upAndDown (.returned (.ok ())) ∧ obtained upAndDown = closed upAndDown := by
  have hhost : Ipv4Addr.parse Reactor.stock.config.host ≠ none := by decide
  have howned := (descriptors_owned_iff Reactor.stock upAndDown (.returned (.ok ())) (by decide)
    rfl).mpr (by simp [upAndDown, Kept, hhost]) upAndDown _ (List.prefix_refl _) rfl
  exact ⟨rfl, howned.1, howned.2 trivial⟩

/-- The reactor for a host that is no IPv4 address. -/
def localhost : Reactor :=
  { Reactor.stock with config := { Reactor.stock.config with host := "localhost".toList } }

/-- Its socket is never closed. -/
theorem localhost_leaks_socket :
    Along localhost.startStep KernelRules .socket [.socket (.ok 3)] ∧
    run localhost.startStep .socket [.socket (.ok 3)] =
      some (.returned (.error "invalid IPv4 address syntax".toList)) ∧
    ¬ Owned [.socket (.ok 3)] (.returned (.error "invalid IPv4 address syntax".toList)) ∧
    obtained [.socket (.ok 3)] ≠ closed [.socket (.ok 3)] := by
  have hne : obtained [.socket (.ok 3)] ≠ closed [.socket (.ok 3)] := by decide
  refine ⟨by decide, rfl, fun howned => hne ?_, hne⟩
  exact howned.trans (add_zero _)

end KernelEngine.Descriptors
