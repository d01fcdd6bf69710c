import KernelEngine.Net.Interest

namespace KernelEngine.Bookkeeping
open Rust File Net Runs

/-- A backend and the kernel's interest set under the same calls. -/
def step : EpollBackend × Finset RawFd → Call → Option (EpollBackend × Finset RawFd) :=
  sync (fun ep c => some (ep.exec c).1) Call.interest

variable {p q : EpollBackend × Finset RawFd} {c : Call}

theorem step_iff : step p c = some q ↔ (p.1.exec c).1 = q.1 ∧ c.interest p.2 = some q.2 := by
  simp only [step, sync_iff, Option.some.injEq]

theorem tracks_step (h : p.1.Tracks p.2) (hs : step p c = some q) : q.1.Tracks q.2 := by
  obtain ⟨hq, hset⟩ := step_iff.mp hs
  exact hq ▸ h.exec hset

theorem step_unchanged (hs : step p c = some q) (hsingle : c.Single)
    (hfail : ∃ e, (p.1.exec c).2 = .error e) : q = p := by
  obtain ⟨hq, hset⟩ := step_iff.mp hs
  obtain ⟨e, hfail⟩ := hfail
  obtain ⟨hep, hinterest⟩ := EpollBackend.unchanged_of_error hsingle hfail hset
  exact Prod.ext (hq.symm.trans hep) hinterest

/-- Behind any calls on a new backend the registered descriptors are those the kernel
watches, and `register`, `modify` and `unregister` change nothing when they fail. -/
theorem keys_eq_interest (maxEvents : ℕ) (epollFd : RawFd) (ep : EpollBackend)
    (hnew : EpollBackend.new maxEvents (.ok epollFd) = .ok ep) (t : List Call)
    (ep' : EpollBackend) (set : Finset RawFd) (hrun : run step (ep, ∅) t = some (ep', set)) :
    ep'.keys.toFinset = set ∧ Along step (fun p c q => c.Single →
      (∃ e, (p.1.exec c).2 = .error e) → q = p) (ep, ∅) t := by
  constructor
  · exact run_invariant_of_step (I := fun p => p.1.Tracks p.2)
      (fun _ _ _ h hs => tracks_step h hs) (EpollBackend.tracks_new hnew) hrun
  · exact along_true.mono fun _ _ _ hs _ => step_unchanged hs

/-- A descriptor is registered once, and a `close` that fails at `libc::close` still
takes it out of both sets. -/
theorem keys_eq_interest_of_failed_close :
    (run step (⟨3, 1024, ∅⟩, ∅) [.register 5 EPOLLIN (.ok ()), .register 5 EPOLLIN (.error []),
      .register 6 EPOLLIN (.ok ()), .close 5 (.ok ()) (.error []),
      .unregister 5 (.error [])]).map (fun p => (p.1.keys.toFinset, p.2)) = some ({6}, {6}) := by
  have hrun : run step (⟨3, 1024, ∅⟩, ∅) [.register 5 EPOLLIN (.ok ()),
      .register 5 EPOLLIN (.error []), .register 6 EPOLLIN (.ok ()),
      .close 5 (.ok ()) (.error []), .unregister 5 (.error [])] =
      some (((⟨3, 1024, ∅⟩ : EpollBackend).insert 5 |>.insert 6).erase 5, {6}) := rfl
  rw [hrun, Option.map_some, (keys_eq_interest 1024 3 _ rfl _ _ _ hrun).1]

end KernelEngine.Bookkeeping
