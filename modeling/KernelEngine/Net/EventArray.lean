import KernelEngine.Net.IoUring

namespace KernelEngine.Net
open Rust File Runs

/-- `u64 as RawFd`: the lower half, read as signed. -/
def asFd (data : UInt64) : Int32 := data.toUInt32.toInt32

/-- A descriptor comes back from the data `register` hands to the kernel. -/
theorem asFd_asU64 (fd : Int32) : asFd (asU64 fd) = fd := by
  apply Int32.toBitVec.inj
  show BitVec.setWidth 32 (BitVec.signExtend 64 fd.toBitVec) = fd.toBitVec
  ext i hi
  rw [BitVec.getElem_setWidth, BitVec.getLsbD_signExtend]
  simp [hi, Nat.lt_of_lt_of_le hi (by decide : 32 ≤ 64)]

structure EpollEvent where
  events : EventFlags
  u64 : UInt64
  deriving DecidableEq

namespace EpollEvent

/-- `std::mem::zeroed()`. -/
def zeroed : EpollEvent := ⟨0, 0⟩

/-- The descriptor and the flags, as `process_events` reads them. -/
def read (e : EpollEvent) : Int32 × EventFlags := (asFd e.u64, e.events)

/-- What the kernel reports of a descriptor that was registered. -/
def report (fd : Int32) (events : EventFlags) : EpollEvent := ⟨events, asU64 fd⟩

@[simp] theorem read_report (fd : Int32) (events : EventFlags) :
    (report fd events).read = (fd, events) := Prod.ext (asFd_asU64 fd) rfl

end EpollEvent

/-- The array `epoll_wait` fills, as `EpollBackend` keeps it. -/
structure EventArray where
  maxEvents : ℕ
  events : List EpollEvent
  sized : events.length = maxEvents

namespace EventArray

/-- `EpollBackend::new`. -/
def new (maxEvents : ℕ) : EventArray :=
  ⟨maxEvents, List.replicate maxEvents .zeroed, List.length_replicate ..⟩

/-- `self.max_events as i32`, as far as the kernel takes it for a number of events. -/
def limit (a : EventArray) : ℕ := (Int32.ofNat a.maxEvents).toInt.toNat

/-- The kernel is never told of more room than there is. -/
theorem limit_le (a : EventArray) : a.limit ≤ a.events.length := by
  have hsize : (Int32.size : ℤ) = 4294967296 := rfl
  rw [limit, a.sized, Int32.toInt_ofNat', Int.bmod, hsize]
  split_ifs <;> omega

/-- The kernel writes its events from the start of the array and leaves the rest as it is. -/
def fill (a : EventArray) (batch : List EpollEvent) (h : batch.length ≤ a.limit) : EventArray where
  maxEvents := a.maxEvents
  events := batch ++ a.events.drop batch.length
  sized := by
    have hroom := a.limit_le
    rw [List.length_append, List.length_drop, ← a.sized]
    omega

/-- `EpollBackend::wait`. More events than it was asked for are not an answer of the kernel. -/
def wait (a : EventArray) (waited : Except OsError (List EpollEvent)) :
    Option (EventArray × Except Anyhow ℕ) :=
  match waited with
  | .error e => some (a, .error ("Epoll wait failed: ".toList ++ e))
  | .ok batch =>
    if h : batch.length ≤ a.limit then some (a.fill batch h, .ok batch.length) else none

/-- `EpollBackend::get_event_fd`, which panics past the end. -/
def getEventFd (a : EventArray) (idx : ℕ) : Option Int32 := a.events[idx]?.map fun e => asFd e.u64

/-- `EpollBackend::get_event_flags`. -/
def getEventFlags (a : EventArray) (idx : ℕ) : Option EventFlags := a.events[idx]?.map (·.events)

/-- The loop of `process_events` over the first entries. It panics past the end. -/
def results (a : EventArray) (numEvents : ℕ) : Option (List (Int32 × EventFlags)) :=
  (List.range numEvents).mapM fun i => a.events[i]?.map EpollEvent.read

/-- `EpollBackend::process_events`; none where it panics. -/
def processEvents (a : EventArray) (waited : Except OsError (List EpollEvent)) :
    Option (EventArray × Except Anyhow (List (Int32 × EventFlags))) := do
  let (a, numEvents) ← a.wait waited
  match numEvents with
  | .error e => some (a, .error e)
  | .ok numEvents => (a.results numEvents).map fun results => (a, .ok results)

variable {a a' : EventArray} {batch : List EpollEvent}

theorem getElem?_fill (h : batch.length ≤ a.limit) (idx : ℕ) : (a.fill batch h).events[idx]? =
    if idx < batch.length then batch[idx]? else a.events[idx]? := by
  show (batch ++ a.events.drop batch.length)[idx]? = _
  split_ifs with hidx
  · exact List.getElem?_append_left hidx
  · rw [List.getElem?_append_right (by omega), List.getElem?_drop]
    congr 1
    omega

theorem mapM_range {α β : Type} (f : α → β) {l : List α} {n : ℕ} (hn : n ≤ l.length) :
    (List.range n).mapM (fun i => l[i]?.map f) = some ((l.take n).map f) := by
  induction n with
  | zero => rfl
  | succ n ih =>
    have hget := List.getElem?_eq_getElem (show n < l.length from hn)
    rw [List.range_succ, List.mapM_append, ih (Nat.le_of_succ_le hn), List.mapM_cons,
      List.mapM_nil, List.take_add_one, hget, List.map_append]
    rfl

/-- What the loop reads are the events just written, and it stays inside the array. -/
theorem results_fill (h : batch.length ≤ a.limit) :
    (a.fill batch h).results batch.length = some (batch.map EpollEvent.read) := by
  have htake : (batch ++ a.events.drop batch.length).take batch.length = batch := by simp
  exact (mapM_range _ (by simp [fill])).trans (congrArg (some ∘ List.map EpollEvent.read) htake)

theorem processEvents_ok (h : batch.length ≤ a.limit) :
    a.processEvents (.ok batch) = some (a.fill batch h, .ok (batch.map EpollEvent.read)) := by
  simp only [processEvents, wait, dif_pos h, Option.bind_eq_bind, Option.bind_some, results_fill,
    Option.map_some]

theorem processEvents_error (a : EventArray) (e : OsError) :
    a.processEvents (.error e) = some (a, .error ("Epoll wait failed: ".toList ++ e)) := rfl

/-- A call that does not panic leaves the array filled, or as it was. -/
theorem processEvents_cases {waited : Except OsError (List EpollEvent)}
    {answer : Except Anyhow (List (Int32 × EventFlags))}
    (hs : a.processEvents waited = some (a', answer)) :
    (∃ e, waited = .error e ∧ a' = a) ∨
      ∃ batch, waited = .ok batch ∧ ∃ h : batch.length ≤ a.limit, a' = a.fill batch h := by
  cases waited with
  | error e => exact Or.inl ⟨e, rfl, (Prod.mk.inj (Option.some.inj hs)).1.symm⟩
  | ok batch =>
    by_cases h : batch.length ≤ a.limit
    · rw [processEvents_ok h] at hs
      exact Or.inr ⟨batch, rfl, h, (Prod.mk.inj (Option.some.inj hs)).1.symm⟩
    · simp only [processEvents, wait, dif_neg h] at hs
      cases hs

end EventArray

end KernelEngine.Net
