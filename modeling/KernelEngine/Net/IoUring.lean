import KernelEngine.Lib.Runs
import KernelEngine.Net.Epoll

namespace KernelEngine.Net
open Rust File Runs

/-- `fd as u64`: a negative descriptor keeps its sign bits. -/
def asU64 (fd : Int32) : UInt64 := fd.toInt64.toUInt64

theorem asU64_injective : Function.Injective asU64 := by
  intro a b h
  have h' : a.toInt64.toInt = b.toInt64.toInt := congrArg (fun x => x.toInt64.toInt) h
  rw [Int32.toInt_toInt64, Int32.toInt_toInt64] at h'
  exact Int32.toInt_inj.mp h'

/-- The operations of the submission queue. Buffers and lengths behind pointers are
given by their addresses. -/
inductive Opcode where
  | read (fd : Int32) (buf : UInt64) (len : UInt32) (offset : UInt64)
  | write (fd : Int32) (buf : UInt64) (len : UInt32) (offset : UInt64)
  | accept (fd : Int32) (addr addrlen : UInt64)
  | splice (fdIn : Int32) (offIn : Int64) (fdOut : Int32) (offOut : Int64) (len : UInt32)
  deriving DecidableEq

/-- The descriptor `user_data` is made of: for a splice the one written to. -/
def Opcode.descriptor : Opcode → Int32
  | .read fd _ _ _ => fd
  | .write fd _ _ _ => fd
  | .accept fd _ _ => fd
  | .splice _ _ fdOut _ _ => fdOut

structure Sqe where
  opcode : Opcode
  userData : UInt64
  deriving DecidableEq

/-- A queued operation, with the number of the `submit_*` call that made it. -/
structure Entry where
  call : ℕ
  sqe : Sqe
  deriving DecidableEq

/-- The two rings. `handed` keeps what the kernel was ever given, `posted` what it ever
completed; `unread` is the part of it the completion queue still holds. -/
structure Ring where
  queue : List Entry
  inFlight : List Entry
  handed : List Entry
  posted : List (Entry × Int32)
  unread : List (Entry × Int32)

namespace Ring

def empty : Ring := ⟨[], [], [], [], []⟩

/-- A `push` that succeeds. -/
def push (ring : Ring) (e : Entry) : Ring := { ring with queue := ring.queue ++ [e] }

/-- A `submit` that succeeds. -/
def submit (ring : Ring) : Ring := { ring with
  queue := []
  inFlight := ring.inFlight ++ ring.queue
  handed := ring.handed ++ ring.queue }

/-- Handing over an empty queue changes nothing. -/
theorem submit_of_idle {ring : Ring} (h : ring.queue = []) : ring.submit = ring := by
  simp only [submit, h, List.append_nil]
  rw [← h]

/-- An entry on an empty queue is handed over alone. -/
theorem submit_push_of_idle {ring : Ring} (h : ring.queue = []) (e : Entry) :
    (ring.push e).submit = { ring with
      inFlight := ring.inFlight ++ [e]
      handed := ring.handed ++ [e] } := by
  simp only [push, submit, h, List.nil_append]

/-- The kernel completes an operation in flight. -/
def complete (ring : Ring) (e : Entry) (result : Int32) : Ring := { ring with
  inFlight := ring.inFlight.erase e
  posted := ring.posted ++ [(e, result)]
  unread := ring.unread ++ [(e, result)] }

/-- What the `submit_*` functions share, given the results of `push` and `submit`. -/
def submitEntry (ring : Ring) (what : String) (e : Entry) (pushed submitted : Except OsError Unit) :
    Ring × Except Anyhow Unit :=
  match pushed with
  | .error err => (ring, .error (what.toList ++ err))
  | .ok _ => match submitted with
    | .error err =>
      (ring.push e, .error ("Failed to submit io_uring operations: ".toList ++ err))
    | .ok _ => ((ring.push e).submit, .ok ())

section Submit

variable (ring : Ring) (call : ℕ)

/-- `IoUringBackend::submit_read`. -/
def submitRead (fd : Int32) (buf len offset : UInt64) :=
  ring.submitEntry "Failed to push read operation: "
    ⟨call, .read fd buf len.toUInt32 offset, asU64 fd⟩

/-- `IoUringBackend::submit_write`. -/
def submitWrite (fd : Int32) (buf len offset : UInt64) :=
  ring.submitEntry "Failed to push write operation: "
    ⟨call, .write fd buf len.toUInt32 offset, asU64 fd⟩

/-- `IoUringBackend::submit_accept`. -/
def submitAccept (listenFd : Int32) (addr addrlen : UInt64) :=
  ring.submitEntry "Failed to push accept operation: "
    ⟨call, .accept listenFd addr addrlen, asU64 listenFd⟩

/-- `IoUringBackend::submit_sendfile`. -/
def submitSendfile (outFd inFd : Int32) (offset len : UInt64) :=
  ring.submitEntry "Failed to push splice operation: "
    ⟨call, .splice inFd offset.toInt64 outFd (-1) len.toUInt32, asU64 outFd⟩

end Submit

/-- `IoUringBackend::batch_submit`: how many operations were submitted. -/
def batchSubmit (ring : Ring) (submitted : Except OsError Unit) : Ring × Except Anyhow ℕ :=
  match submitted with
  | .error err => (ring, .error ("Failed to batch submit: ".toList ++ err))
  | .ok _ => (ring.submit, .ok ring.queue.length)

/-- `IoUringBackend::wait_for_completion`, up to where it waits. -/
def submitAndWait (ring : Ring) (submitted : Except OsError Unit) : Ring × Except Anyhow Unit :=
  match submitted with
  | .error err => (ring, .error ("Failed to wait for completions: ".toList ++ err))
  | .ok _ => (ring.submit, .ok ())

/-- What `wait_for_completion` returns. -/
def completions (ring : Ring) : List (UInt64 × Int32) :=
  ring.unread.map fun c => (c.1.sqe.userData, c.2)

end Ring

/-- The arguments of a `submit_*` call. -/
inductive Request where
  | read (fd : Int32) (buf len offset : UInt64)
  | write (fd : Int32) (buf len offset : UInt64)
  | accept (listenFd : Int32) (addr addrlen : UInt64)
  | sendfile (outFd inFd : Int32) (offset len : UInt64)

namespace Request

def submit (ring : Ring) (call : ℕ) :
    Request → Except OsError Unit → Except OsError Unit → Ring × Except Anyhow Unit
  | .read fd buf len offset => ring.submitRead call fd buf len offset
  | .write fd buf len offset => ring.submitWrite call fd buf len offset
  | .accept listenFd addr addrlen => ring.submitAccept call listenFd addr addrlen
  | .sendfile outFd inFd offset len => ring.submitSendfile call outFd inFd offset len

/-- The descriptor an operation is tagged with. -/
def descriptor : Request → Int32
  | .read fd _ _ _ => fd
  | .write fd _ _ _ => fd
  | .accept listenFd _ _ => listenFd
  | .sendfile outFd _ _ _ => outFd

/-- The operation a request is queued as. -/
def opcode : Request → Opcode
  | .read fd buf len offset => .read fd buf len.toUInt32 offset
  | .write fd buf len offset => .write fd buf len.toUInt32 offset
  | .accept listenFd addr addrlen => .accept listenFd addr addrlen
  | .sendfile outFd inFd offset len => .splice inFd offset.toInt64 outFd (-1) len.toUInt32

/-- The entry that the call with this number pushes. -/
def entry (request : Request) (call : ℕ) : Entry :=
  ⟨call, request.opcode, asU64 request.descriptor⟩

theorem opcode_descriptor (request : Request) :
    request.opcode.descriptor = request.descriptor := by
  cases request <;> rfl

/-- Every `submit_*` queues its own entry, whatever it is asked for. -/
theorem submit_eq (ring : Ring) (call : ℕ) (request : Request) : ∃ what,
    request.submit ring call = ring.submitEntry what (request.entry call) := by
  cases request with
  | read | write | accept | sendfile => exact ⟨_, rfl⟩

end Request

/-- The calls on one backend and what the kernel does meanwhile. `reap` ends a
`wait_for_completion`. -/
inductive UringIo where
  | submit (request : Request) (pushed submitted : Except OsError Unit)
  | batch (submitted : Except OsError Unit)
  | wait (submitted : Except OsError Unit)
  | complete (e : Entry) (result : Int32)
  | reap (completions : List (UInt64 × Int32))

/-- A backend in use: its ring, whether a `wait_for_completion` is under way, and what
each `submit_*` call has returned. -/
structure Uring where
  ring : Ring
  waiting : Bool
  calls : ℕ
  answers : List (ℕ × Except Anyhow Unit)

namespace Uring

def start : Uring := ⟨.empty, false, 0, []⟩

def step (s : Uring) : UringIo → Option Uring
  | .submit request pushed submitted =>
    if s.waiting then none
    else
      let (ring, answer) := request.submit s.ring s.calls pushed submitted
      some { s with
        ring := ring
        calls := s.calls + 1
        answers := s.answers ++ [(s.calls, answer)] }
  | .batch submitted =>
    if s.waiting then none else some { s with ring := (s.ring.batchSubmit submitted).1 }
  | .wait submitted =>
    if s.waiting then none
    else
      let (ring, answer) := s.ring.submitAndWait submitted
      some { s with ring := ring, waiting := answer.isOk }
  | .complete e result =>
    if e ∈ s.ring.inFlight then some { s with ring := s.ring.complete e result } else none
  -- `submit_and_wait(1)` comes back when there is something to read
  | .reap completions =>
    if s.waiting ∧ s.ring.unread ≠ [] ∧ completions = s.ring.completions then
      some { s with ring := { s.ring with unread := [] }, waiting := false }
    else none

/-- Everything one step can do. -/
inductive Step (s : Uring) : UringIo → Uring → Prop
  | notPushed (request : Request) (err : OsError) (submitted : Except OsError Unit) (msg : Anyhow) :
      Step s (.submit request (.error err) submitted) { s with
        calls := s.calls + 1
        answers := s.answers ++ [(s.calls, .error msg)] }
  | notSubmitted (request : Request) (err : OsError) (msg : Anyhow) :
      Step s (.submit request (.ok ()) (.error err)) { s with
        ring := s.ring.push (request.entry s.calls)
        calls := s.calls + 1
        answers := s.answers ++ [(s.calls, .error msg)] }
  | submitted (request : Request) :
      Step s (.submit request (.ok ()) (.ok ())) { s with
        ring := (s.ring.push (request.entry s.calls)).submit
        calls := s.calls + 1
        answers := s.answers ++ [(s.calls, .ok ())] }
  | batch : Step s (.batch (.ok ())) { s with ring := s.ring.submit }
  | batchFailed (err : OsError) : Step s (.batch (.error err)) s
  | waits : Step s (.wait (.ok ())) { s with ring := s.ring.submit, waiting := true }
  | waitFailed (err : OsError) : Step s (.wait (.error err)) s
  | completed (e : Entry) (he : e ∈ s.ring.inFlight) (result : Int32) :
      Step s (.complete e result) { s with ring := s.ring.complete e result }
  | reaped : Step s (.reap s.ring.completions)
      { s with ring := { s.ring with unread := [] }, waiting := false }

theorem step_cases {s s' : Uring} {io : UringIo} (h : step s io = some s') : Step s io s' := by
  cases io with
  | submit request pushed submitted =>
    obtain ⟨what, heq⟩ := request.submit_eq s.ring s.calls
    simp only [step, heq] at h
    obtain ⟨-, hs⟩ := Option.ite_none_left_eq_some.mp h
    obtain rfl := Option.some.inj hs
    cases pushed with
    | error err => exact .notPushed request err submitted _
    | ok =>
      cases submitted with
      | error err => exact .notSubmitted request err _
      | ok => exact .submitted request
  | batch submitted =>
    obtain ⟨-, hs⟩ := Option.ite_none_left_eq_some.mp h
    obtain rfl := Option.some.inj hs
    cases submitted with
    | error err => exact .batchFailed err
    | ok => exact .batch
  | wait submitted =>
    obtain ⟨hwaiting, hs⟩ := Option.ite_none_left_eq_some.mp h
    obtain rfl := Option.some.inj hs
    cases submitted with
    | error err =>
      have hidle : s.waiting = false := eq_false_of_ne_true hwaiting
      simp only [Except.isOk, Except.toBool, ← hidle]
      exact .waitFailed err
    | ok => exact .waits
  | complete e result =>
    obtain ⟨he, hs⟩ := Option.ite_none_right_eq_some.mp h
    obtain rfl := Option.some.inj hs
    exact .completed e he result
  | reap completions =>
    obtain ⟨⟨-, -, rfl⟩, hs⟩ := Option.ite_none_right_eq_some.mp h
    obtain rfl := Option.some.inj hs
    exact .reaped

end Uring

end KernelEngine.Net
