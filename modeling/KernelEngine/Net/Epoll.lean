import KernelEngine.File.Mmap
import Mathlib.Data.List.AList

namespace KernelEngine.Net
open Rust File

/-- A file descriptor the kernel handed out. Failed calls are `Except.error`. -/
abbrev RawFd := ℕ

abbrev EventFlags := BitVec 32

def EPOLLIN : EventFlags := 0x001#32

def EPOLLET : EventFlags := 0x80000000#32

/-- Per-connection buffers and counters. Nothing in the repository writes to them
after `register`. -/
structure ConnectionState where
  readBuffer : Bytes
  writeBuffer : Bytes
  bytesRead : ℕ
  bytesWritten : ℕ
  deriving DecidableEq

/-- `EpollBackend`, without the array `epoll_wait` fills: `process_events` copies
it out at once. -/
structure EpollBackend where
  epollFd : RawFd
  maxEvents : ℕ
  connections : AList fun _ : RawFd => ConnectionState

namespace EpollBackend

def fail {α β : Type} (what : String) (r : Except OsError α) (f : α → β) : Except Anyhow β :=
  match r with
  | .ok a => .ok (f a)
  | .error e => .error (what.toList ++ e)

/-- `EpollBackend::new`, given the result of `epoll_create1`. -/
def new (maxEvents : ℕ) (created : Except OsError RawFd) : Except Anyhow EpollBackend :=
  fail "Failed to create epoll: " created fun epollFd => ⟨epollFd, maxEvents, ∅⟩

/-- The entry `register` makes. -/
def freshConnection : ConnectionState := ⟨[], [], 0, 0⟩

def insert (ep : EpollBackend) (fd : RawFd) : EpollBackend :=
  { ep with connections := ep.connections.insert fd freshConnection }

def erase (ep : EpollBackend) (fd : RawFd) : EpollBackend :=
  { ep with connections := ep.connections.erase fd }

/-- `EpollBackend::register`, given the result of `epoll_ctl` with `EPOLL_CTL_ADD`. -/
def register (ep : EpollBackend) (fd : RawFd) (added : Except OsError Unit) :
    Except Anyhow EpollBackend :=
  fail "Failed to add fd to epoll: " added fun _ => ep.insert fd

/-- `EpollBackend::modify`, given the result of `epoll_ctl` with `EPOLL_CTL_MOD`. -/
def modify (ep : EpollBackend) (modified : Except OsError Unit) : Except Anyhow EpollBackend :=
  fail "Failed to modify epoll event: " modified fun _ => ep

/-- `EpollBackend::unregister`, given the result of `epoll_ctl` with `EPOLL_CTL_DEL`. -/
def unregister (ep : EpollBackend) (fd : RawFd) (deleted : Except OsError Unit) :
    Except Anyhow EpollBackend :=
  fail "Failed to delete fd from epoll: " deleted fun _ => ep.erase fd

/-- `EpollBackend::process_events`: the descriptors and flags `epoll_wait` reported. -/
def processEvents (waited : Except OsError (List (RawFd × EventFlags))) :
    Except Anyhow (List (RawFd × EventFlags)) :=
  fail "Epoll wait failed: " waited id

/-- `EpollBackend::read`: the bytes put into the buffer. -/
def read (got : Except OsError Bytes) : Except Anyhow Bytes := fail "Read failed: " got id

/-- `EpollBackend::write`: how many bytes of the buffer the kernel took. -/
def write (took : Except OsError ℕ) : Except Anyhow ℕ := fail "Write failed: " took id

/-- `EpollBackend::accept`. -/
def accept (accepted : Except OsError RawFd) : Except Anyhow RawFd :=
  fail "Accept failed: " accepted id

/-- `EpollBackend::close`. The entry is gone once `unregister` succeeded, whatever
`libc::close` returns after it. -/
def close (ep : EpollBackend) (fd : RawFd) (deleted closed : Except OsError Unit) :
    EpollBackend × Except Anyhow Unit :=
  match ep.unregister fd deleted with
  | .error e => (ep, .error e)
  | .ok ep => (ep, fail "Close failed: " closed id)

/-- The registered descriptors. -/
def keys (ep : EpollBackend) : List RawFd := ep.connections.keys

theorem keys_nodup (ep : EpollBackend) : ep.keys.Nodup := ep.connections.keys_nodup

@[simp] theorem keys_insert (ep : EpollBackend) (fd : RawFd) :
    (ep.insert fd).keys = fd :: ep.keys.erase fd := AList.keys_insert _

@[simp] theorem keys_erase (ep : EpollBackend) (fd : RawFd) :
    (ep.erase fd).keys = ep.keys.erase fd := AList.keys_erase _ _

theorem mem_keys_insert {ep : EpollBackend} {fd fd' : RawFd} :
    fd ∈ (ep.insert fd').keys ↔ fd = fd' ∨ fd ∈ ep.keys :=
  AList.mem_keys.symm.trans (AList.mem_insert _)

theorem mem_keys_erase {ep : EpollBackend} {fd fd' : RawFd} :
    fd ∈ (ep.erase fd').keys ↔ fd ≠ fd' ∧ fd ∈ ep.keys :=
  AList.mem_keys.symm.trans AList.mem_erase

@[simp] theorem close_ok_fst (ep : EpollBackend) (fd : RawFd) (closed : Except OsError Unit) :
    (ep.close fd (.ok ()) closed).1 = ep.erase fd := rfl

@[simp] theorem close_error_fst (ep : EpollBackend) (fd : RawFd) (e : OsError)
    (closed : Except OsError Unit) : (ep.close fd (.error e) closed).1 = ep := rfl

theorem mem_keys_close_of_ne {ep : EpollBackend} {fd fd' : RawFd}
    {deleted closed : Except OsError Unit} (hne : fd' ≠ fd) (h : fd' ∈ ep.keys) :
    fd' ∈ (ep.close fd deleted closed).1.keys := by
  cases deleted with
  | ok => exact mem_keys_erase.mpr ⟨hne, h⟩
  | error => exact h

theorem mem_keys_of_mem_close {ep : EpollBackend} {fd fd' : RawFd}
    {deleted closed : Except OsError Unit} (h : fd' ∈ (ep.close fd deleted closed).1.keys) :
    fd' ∈ ep.keys := by
  cases deleted with
  | ok => exact (mem_keys_erase.mp h).2
  | error => exact h

end EpollBackend

end KernelEngine.Net
