import KernelEngine.Net.EventArray
import Mathlib.Algebra.Ring.Nat

namespace KernelEngine.Refilling
open Rust File Net Runs

/-- An answer of `epoll_wait`, by the descriptors that were registered. -/
abbrev Waited := Except OsError (List (RawFd × EventFlags))

/-- As the kernel writes it, which has the data of `register`. -/
def written (batch : List (RawFd × EventFlags)) : List EpollEvent :=
  batch.map fun e => .report (Int32.ofNat e.1) e.2

/-- A descriptor of the kernel, as the program has it in an `i32`. -/
def rawFd (fd : Int32) : RawFd := fd.toInt.toNat

/-- The descriptors are non-negative as `i32`, and there is room for the events. -/
def Fits (a : EventArray) (waited : Waited) : Prop :=
  ∀ batch, waited = .ok batch → batch.length ≤ a.limit ∧ ∀ e ∈ batch, e.1 < 2 ^ 31

/-- One `process_events`. -/
def step (a : EventArray) (waited : Waited) : Option EventArray :=
  (a.processEvents (waited.map written)).map Prod.fst

/-- Entry `idx` behind these answers: the event at this place of the last batch that was long
enough, or zeros. -/
def latest (idx : ℕ) (t : List Waited) : RawFd × EventFlags :=
  (t.filterMap fun waited => waited.toOption.bind (·[idx]?)).getLast?.getD (0, 0)

section Steps

variable {a a' : EventArray} {waited : Waited} {batch : List (RawFd × EventFlags)} {t : List Waited}

theorem rawFd_ofNat {fd : RawFd} (h : fd < 2 ^ 31) : rawFd (Int32.ofNat fd) = fd := by
  rw [rawFd, Int32.toInt_ofNat_of_lt h]
  rfl

theorem read_written (hfds : ∀ e ∈ batch, e.1 < 2 ^ 31) :
    ((written batch).map EpollEvent.read).map (fun e => (rawFd e.1, e.2)) = batch := by
  rw [written, List.map_map, List.map_map]
  refine (List.map_congr_left fun e he => ?_).trans batch.map_id
  simp only [Function.comp_apply, EpollEvent.read_report, rawFd_ofNat (hfds e he), id]

/-- Through the array comes what the kernel reported. -/
theorem processEvents_written (hfits : Fits a waited) : ∃ a' answer,
    a.processEvents (waited.map written) = some (a', answer) ∧
      answer.map (List.map fun e => (rawFd e.1, e.2)) = EpollBackend.processEvents waited := by
  cases waited with
  | error e => exact ⟨a, _, a.processEvents_error e, rfl⟩
  | ok batch =>
    obtain ⟨hroom, hfds⟩ := hfits batch rfl
    have hroom' : (written batch).length ≤ a.limit := by rwa [written, List.length_map]
    refine ⟨_, _, EventArray.processEvents_ok hroom', ?_⟩
    exact congrArg Except.ok (read_written hfds)

theorem latest_concat (idx : ℕ) (t : List Waited) (waited : Waited) :
    latest idx (t ++ [waited]) = (waited.toOption.bind (·[idx]?)).getD (latest idx t) := by
  rw [latest, latest, List.filterMap_append]
  cases h : waited.toOption.bind (·[idx]?) with
  | none => simp [h]
  | some e => simp [h]

/-- Each entry is the latest event at its place. -/
structure Filled (maxEvents : ℕ) (t : List Waited) (a : EventArray) : Prop where
  size : a.maxEvents = maxEvents
  entry : ∀ idx < maxEvents,
    a.events[idx]? = some (.report (Int32.ofNat (latest idx t).1) (latest idx t).2)

theorem filled_new (maxEvents : ℕ) : Filled maxEvents [] (.new maxEvents) := by
  refine ⟨rfl, fun idx hidx => ?_⟩
  rw [EventArray.new, List.getElem?_replicate, if_pos hidx]
  rfl

theorem filled_step {maxEvents : ℕ} (h : Filled maxEvents t a) (hs : step a waited = some a') :
    Filled maxEvents (t ++ [waited]) a' := by
  obtain ⟨⟨a', answer⟩, hprocess, rfl⟩ := Option.map_eq_some_iff.mp hs
  cases waited with
  | error e =>
    obtain ⟨-, -, rfl⟩ | ⟨batch, hbatch, -⟩ := EventArray.processEvents_cases hprocess
    · refine ⟨h.size, fun idx hidx => ?_⟩
      rw [latest_concat]
      exact h.entry idx hidx
    · cases hbatch
  | ok batch =>
    obtain ⟨e, he, -⟩ | ⟨_, hbatch, hroom, rfl⟩ := EventArray.processEvents_cases hprocess
    · cases he
    · obtain rfl := Except.ok.inj hbatch
      refine ⟨h.size, fun idx hidx => ?_⟩
      have hlatest : latest idx (t ++ [.ok batch]) = batch[idx]?.getD (latest idx t) :=
        latest_concat idx t (.ok batch)
      rw [EventArray.getElem?_fill, hlatest, written, List.length_map, List.getElem?_map]
      split_ifs with hlt
      · rw [List.getElem?_eq_getElem hlt]
        rfl
      · rw [List.getElem?_eq_none (Nat.not_lt.mp hlt)]
        exact h.entry idx hidx

end Steps

/-- Reading the events through the array that `epoll_wait` fills gives what the kernel reported,
without a panic, as long as it reports descriptors of its own and no more than it is asked
for. `get_event_fd` and `get_event_flags` give the last event that was written at their
place, also one of an earlier batch, and panic just past the size of the array. -/
theorem array_agrees (maxEvents : ℕ) (t : List Waited) (a : EventArray)
    (hrun : run step (.new maxEvents) t = some a) :
    (∀ waited, Fits a waited → ∃ a' answer,
      a.processEvents (waited.map written) = some (a', answer) ∧
        answer.map (List.map fun e => (rawFd e.1, e.2)) = EpollBackend.processEvents waited) ∧
    ∀ idx, a.getEventFd idx =
        (if idx < maxEvents then some (Int32.ofNat (latest idx t).1) else none) ∧
      a.getEventFlags idx = if idx < maxEvents then some (latest idx t).2 else none := by
  have hfilled : Filled maxEvents t a :=
    run_history_of_step (fun _ _ _ _ h hs => filled_step h hs) (filled_new maxEvents) hrun
  refine ⟨fun waited => processEvents_written, fun idx => ?_⟩
  rw [EventArray.getEventFd, EventArray.getEventFlags]
  split_ifs with hidx
  · rw [hfilled.entry idx hidx]
    exact ⟨congrArg some (asFd_asU64 _), rfl⟩
  · have hsize : a.events.length ≤ idx := by
      rw [a.sized, hfilled.size]
      exact Nat.not_lt.mp hidx
    rw [List.getElem?_eq_none hsize]
    exact ⟨rfl, rfl⟩

/-- A batch of two, and one of one behind it. -/
def shrinking : List Waited := [.ok [(3, EPOLLIN), (5, EPOLLIN)], .ok [(7, EPOLLIN)]]

/-- The second entry is still there. -/
theorem stale_entry_read : ∃ a, run step (.new 1024) shrinking = some a ∧
    a.getEventFd 0 = some 7 ∧ a.getEventFd 1 = some 5 ∧ a.getEventFd 1024 = none := by
  have hread := fun idx => (array_agrees 1024 shrinking _ rfl).2 idx
  exact ⟨_, rfl, (hread 0).1, (hread 1).1, (hread 1024).1⟩

end KernelEngine.Refilling
