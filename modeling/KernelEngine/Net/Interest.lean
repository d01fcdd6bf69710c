import KernelEngine.Lib.Runs
import KernelEngine.Net.Epoll
import Mathlib.Data.Finset.Basic

namespace KernelEngine.Net
open Rust File Runs

/-- The system calls that touch the interest set, each with its result. -/
inductive Syscall where
  | ctlAdd (fd : RawFd) (events : EventFlags) (result : Except OsError Unit)
  | ctlMod (fd : RawFd) (events : EventFlags) (result : Except OsError Unit)
  | ctlDel (fd : RawFd) (result : Except OsError Unit)
  | close (fd : RawFd) (result : Except OsError Unit)

namespace Syscall

/-- The kernel's interest set. Any call may fail, and then changes nothing; a success
the set does not admit is not an answer. -/
def interest (set : Finset RawFd) : Syscall → Option (Finset RawFd)
  | .ctlAdd fd _ (.ok _) => if fd ∈ set then none else some (insert fd set)
  | .ctlMod fd _ (.ok _) => if fd ∈ set then some set else none
  | .ctlDel fd (.ok _) => if fd ∈ set then some (set.erase fd) else none
  | .close fd (.ok _) => some (set.erase fd)
  | _ => some set

end Syscall

/-- The calls on a backend that change what is registered, each with the results of
its system calls. -/
inductive Call where
  | register (fd : RawFd) (events : EventFlags) (added : Except OsError Unit)
  | modify (fd : RawFd) (events : EventFlags) (modified : Except OsError Unit)
  | unregister (fd : RawFd) (deleted : Except OsError Unit)
  | close (fd : RawFd) (deleted closed : Except OsError Unit)

namespace Call

/-- The system calls a call makes. `close` stops at an `unregister` that fails. -/
def syscalls : Call → List Syscall
  | .register fd events added => [.ctlAdd fd events added]
  | .modify fd events modified => [.ctlMod fd events modified]
  | .unregister fd deleted => [.ctlDel fd deleted]
  | .close fd (.ok _) closed => [.ctlDel fd (.ok ()), .close fd closed]
  | .close fd (.error e) _ => [.ctlDel fd (.error e)]

/-- The interest set behind the system calls of one call. -/
def interest (set : Finset RawFd) (c : Call) : Option (Finset RawFd) :=
  run Syscall.interest set c.syscalls

/-- `register`, `modify` and `unregister`, which make one `epoll_ctl` call. -/
def Single : Call → Prop
  | .close _ _ _ => False
  | _ => True

end Call

namespace EpollBackend

/-- A call that fails before it has changed the backend. -/
def keep (ep : EpollBackend) : Except Anyhow EpollBackend → EpollBackend × Except Anyhow Unit
  | .ok ep' => (ep', .ok ())
  | .error e => (ep, .error e)

/-- The backend behind a call, and what the call returns. -/
def exec (ep : EpollBackend) : Call → EpollBackend × Except Anyhow Unit
  | .register fd _ added => ep.keep (ep.register fd added)
  | .modify _ _ modified => ep.keep (ep.modify modified)
  | .unregister fd deleted => ep.keep (ep.unregister fd deleted)
  | .close fd deleted closed => ep.close fd deleted closed

theorem keep_error {ep : EpollBackend} {r : Except Anyhow EpollBackend} {e : Anyhow}
    (h : (ep.keep r).2 = .error e) : (ep.keep r).1 = ep := by
  cases r with
  | ok => cases h
  | error => rfl

/-- The registered descriptors are those the kernel watches. -/
def Tracks (ep : EpollBackend) (set : Finset RawFd) : Prop := ep.keys.toFinset = set

variable {ep : EpollBackend} {set set' : Finset RawFd} {fd : RawFd}

theorem Tracks.mem_iff (h : ep.Tracks set) : fd ∈ ep.keys ↔ fd ∈ set := by
  rw [← h, List.mem_toFinset]

theorem tracks_iff : ep.Tracks set ↔ ∀ fd, fd ∈ ep.keys ↔ fd ∈ set := by
  rw [Tracks, Finset.ext_iff]
  simp only [List.mem_toFinset]

theorem Tracks.insert (h : ep.Tracks set) (fd : RawFd) :
    (ep.insert fd).Tracks (Insert.insert fd set) := by
  rw [tracks_iff]
  intro fd'
  rw [mem_keys_insert, Finset.mem_insert, h.mem_iff]

theorem Tracks.erase (h : ep.Tracks set) (fd : RawFd) : (ep.erase fd).Tracks (set.erase fd) := by
  rw [tracks_iff]
  intro fd'
  rw [mem_keys_erase, Finset.mem_erase, h.mem_iff]

theorem tracks_new {maxEvents : ℕ} {created : Except OsError RawFd}
    (hnew : EpollBackend.new maxEvents created = .ok ep) : ep.Tracks ∅ := by
  cases created with
  | error => cases hnew
  | ok epollFd =>
    obtain rfl := Except.ok.inj hnew
    rfl

/-- What a backend records of one system call. -/
def record (ep : EpollBackend) : Syscall → EpollBackend
  | .ctlAdd fd _ (.ok _) => ep.insert fd
  | .ctlDel fd (.ok _) => ep.erase fd
  | _ => ep

theorem exec_fst (ep : EpollBackend) (c : Call) : (ep.exec c).1 = c.syscalls.foldl record ep := by
  cases c with
  | register fd events added => cases added <;> rfl
  | modify fd events modified => cases modified <;> rfl
  | unregister fd deleted => cases deleted <;> rfl
  | close fd deleted closed => cases deleted <;> rfl

/-- The two sets agree behind every system call that closes no watched descriptor. -/
theorem Tracks.record (h : ep.Tracks set) {e : Syscall} (he : e.interest set = some set')
    (hclose : ∀ fd result, e = .close fd result → fd ∉ set) : (ep.record e).Tracks set' := by
  cases e with
  | ctlAdd fd events result =>
    cases result with
    | error => exact Option.some.inj he ▸ h
    | ok =>
      obtain ⟨-, hs⟩ := Option.ite_none_left_eq_some.mp he
      exact Option.some.inj hs ▸ h.insert fd
  | ctlMod fd events result =>
    cases result with
    | error => exact Option.some.inj he ▸ h
    | ok =>
      obtain ⟨-, hs⟩ := Option.ite_none_right_eq_some.mp he
      exact Option.some.inj hs ▸ h
  | ctlDel fd result =>
    cases result with
    | error => exact Option.some.inj he ▸ h
    | ok =>
      obtain ⟨-, hs⟩ := Option.ite_none_right_eq_some.mp he
      exact Option.some.inj hs ▸ h.erase fd
  | close fd result =>
    cases result with
    | error => exact Option.some.inj he ▸ h
    | ok =>
      have hgone := Finset.erase_eq_of_notMem (hclose fd _ rfl)
      exact Option.some.inj he ▸ hgone.symm ▸ h

/-- Every call keeps the two sets together, whatever fails in it. -/
theorem Tracks.exec (h : ep.Tracks set) {c : Call} (hc : c.interest set = some set') :
    (ep.exec c).1.Tracks set' := by
  rw [exec_fst]
  have single (e : Syscall) (he : run Syscall.interest set [e] = some set')
      (hclose : ∀ fd result, e ≠ .close fd result) : (ep.record e).Tracks set' := by
    obtain ⟨m, he, ⟨⟩⟩ := run_cons_iff.mp he
    exact h.record he fun fd result heq => (hclose fd result heq).elim
  cases c with
  | register | modify | unregister => exact single _ hc (by simp)
  | close fd deleted closed =>
    cases deleted with
    | error => exact single _ hc (by simp)
    | ok =>
      obtain ⟨m, hdel, hclose⟩ := run_cons_iff.mp hc
      have hm : m = set.erase fd :=
        (Option.some.inj (Option.ite_none_right_eq_some.mp hdel).2).symm
      have hdeleted := h.record hdel (by simp)
      obtain ⟨n, hclose, ⟨⟩⟩ := run_cons_iff.mp hclose
      -- `EPOLL_CTL_DEL` has taken the descriptor out before `libc::close`
      refine hdeleted.record hclose fun fd' result heq => ?_
      obtain ⟨rfl, -⟩ := Syscall.close.inj heq
      rw [hm]
      exact Finset.notMem_erase fd set

/-- A single call that fails has changed neither set. -/
theorem unchanged_of_error {c : Call} (hsingle : c.Single) {e : Anyhow}
    (hfail : (ep.exec c).2 = .error e) (hc : c.interest set = some set') :
    (ep.exec c).1 = ep ∧ set' = set := by
  cases c with
  | close => exact hsingle.elim
  | register fd events result | modify fd events result | unregister fd result =>
    refine ⟨keep_error hfail, ?_⟩
    obtain ⟨m, hm, ⟨⟩⟩ := run_cons_iff.mp hc
    cases result with
    | ok => cases hfail
    | error => exact (Option.some.inj hm).symm

end EpollBackend

end KernelEngine.Net
