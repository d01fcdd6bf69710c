import KernelEngine.Worker.EventLoop

namespace KernelEngine.Batches
open Rust File Http Net Worker Runs

/-- The descriptor whose event a call is done with: a read is the only one its event gets,
and the listener's is over with the first `accept` that fails. -/
def finished (listenFd : RawFd) : Io → List RawFd
  | .read fd _ => [fd]
  | .accept (.error _) => [listenFd]
  | _ => []

/-- The events of a batch that `event_loop` acts on. -/
def wanted (listenFd : RawFd) (events : List (RawFd × EventFlags)) : List RawFd :=
  (events.filter fun e => e.1 = listenFd ∨ e.2 &&& EPOLLIN ≠ 0).map Prod.fst

/-- The events still to be finished at a place of the loop. -/
def remaining (listenFd : RawFd) : Point → List RawFd
  | .accept rest => listenFd :: wanted listenFd rest
  | .addClient _ rest => listenFd :: wanted listenFd rest
  | .read fd rest => fd :: wanted listenFd rest
  | .handle _ _ rest => wanted listenFd rest
  | .write _ _ rest => wanted listenFd rest
  | .close _ rest => wanted listenFd rest
  | _ => []

/-- A batch is being handled, or done with and the flag not yet looked at. -/
def Handling : Point → Prop
  | .addListener => False
  | .wait => False
  | .drop _ _ => False
  | .returned _ => False
  | .panicked => False
  | .killed => False
  | _ => True

/-- `event_loop` has been left. -/
def Left : Point → Prop
  | .drop _ _ => True
  | .returned _ => True
  | .panicked => True
  | .killed => True
  | _ => False

section Steps

variable {r : Reactor} {listenFd : RawFd} {s s' : LoopState} {io : Io} {t : List Io}
  {events : List (RawFd × EventFlags)}

theorem wanted_cons_of_pos {e : RawFd × EventFlags}
    (he : e.1 = listenFd ∨ e.2 &&& EPOLLIN ≠ 0) :
    wanted listenFd (e :: events) = e.1 :: wanted listenFd events := by
  simp only [wanted, List.filter_cons, he, decide_true, if_true, List.map_cons]

theorem wanted_cons_of_neg {e : RawFd × EventFlags}
    (he : ¬ (e.1 = listenFd ∨ e.2 &&& EPOLLIN ≠ 0)) :
    wanted listenFd (e :: events) = wanted listenFd events := by
  simp only [wanted, List.filter_cons, he, decide_false, Bool.false_eq_true, if_false]

theorem remaining_nextEvent (events : List (RawFd × EventFlags)) :
    remaining listenFd (nextEvent listenFd events) = wanted listenFd events := by
  induction events with
  | nil => rfl
  | cons e events ih =>
    rw [nextEvent]
    split_ifs with hfd hin
    · rw [wanted_cons_of_pos (Or.inl hfd), hfd]
      rfl
    · rw [wanted_cons_of_pos (Or.inr hin)]
      rfl
    · rw [wanted_cons_of_neg (not_or.mpr ⟨hfd, hin⟩), ih]

theorem handling_nextEvent (events : List (RawFd × EventFlags)) :
    Handling (nextEvent listenFd events) :=
  nextEvent_of (P := Handling) trivial (fun _ => trivial) (fun _ _ => trivial) listenFd events

/-- While a batch is handled each call finishes the event that is next, or none; an error
ends it. -/
theorem remaining_step (hs : r.step listenFd s io = some s') (h : Handling s.point)
    (hload : ∀ running, io ≠ .load running) :
    Handling s'.point ∧
        remaining listenFd s.point = finished listenFd io ++ remaining listenFd s'.point ∨
      Left s'.point ∧ finished listenFd io = [] := by
  cases Reactor.step_cases hs with
  | addListener hp | addListenerFailed hp | waited hp | waitFailed hp | dropClose hp
  | dropEpoll hp =>
    rw [hp] at h
    exact h.elim
  | goOn | stop => exact absurd rfl (hload _)
  | addClientFailed | writeFailed | closeFailed => exact Or.inr ⟨trivial, rfl⟩
  | accepted hp | addClient hp | readSome hp | readNone hp =>
    rw [hp]
    exact Or.inl ⟨trivial, rfl⟩
  | acceptFailed hp | wrote hp | closed hp =>
    rw [hp, remaining_nextEvent]
    exact Or.inl ⟨handling_nextEvent _, rfl⟩
  | @handled fd buf rest hp env =>
    obtain ⟨m, -, ⟨response, -, he⟩ | ⟨e, -, he⟩ | ⟨-, he⟩ | ⟨-, he⟩⟩ :=
      Reactor.handle_cases r s env fd buf rest <;> rw [he, hp]
    · exact Or.inl ⟨trivial, rfl⟩
    · exact Or.inr ⟨trivial, rfl⟩
    · exact Or.inr ⟨trivial, rfl⟩
    · exact Or.inr ⟨trivial, rfl⟩

/-- On its way out the loop finishes no event. -/
theorem left_step (hs : r.step listenFd s io = some s') (h : Left s.point) :
    Left s'.point ∧ finished listenFd io = [] := by
  cases Reactor.step_cases hs with
  | dropClose | dropEpoll => exact ⟨trivial, rfl⟩
  | addListener hp | addListenerFailed hp | goOn hp | stop hp | waited hp | waitFailed hp
  | accepted hp | acceptFailed hp | addClient hp | addClientFailed hp | readSome hp | readNone hp
  | handled hp | wrote hp | writeFailed hp | closed hp | closeFailed hp =>
    rw [hp] at h
    exact h.elim

/-- The calls after a wait have finished a first part of what was wanted, and as long as the
loop runs the rest is before it. -/
def Progress (listenFd : RawFd) (events : List (RawFd × EventFlags)) (t : List Io)
    (s : LoopState) : Prop :=
  Handling s.point ∧ wanted listenFd events =
      t.flatMap (finished listenFd) ++ remaining listenFd s.point ∨
    Left s.point ∧ t.flatMap (finished listenFd) <+: wanted listenFd events

theorem progress_step (h : Progress listenFd events t s) (hs : r.step listenFd s io = some s')
    (hload : ∀ running, io ≠ .load running) : Progress listenFd events (t ++ [io]) s' := by
  unfold Progress
  rw [List.flatMap_append, List.flatMap_singleton]
  obtain ⟨hhandling, hwanted⟩ | ⟨hleft, hpre⟩ := h
  · obtain ⟨hhandling', hnext⟩ | ⟨hleft, hnone⟩ := remaining_step hs hhandling hload
    · refine Or.inl ⟨hhandling', ?_⟩
      rw [hwanted, hnext, List.append_assoc]
    · refine Or.inr ⟨hleft, ?_⟩
      rw [hnone, List.append_nil, hwanted]
      exact List.prefix_append _ _
  · obtain ⟨hleft', hnone⟩ := left_step hs hleft
    refine Or.inr ⟨hleft', ?_⟩
    rwa [hnone, List.append_nil]

end Steps

/-- Of each batch `event_loop` finishes the events of the listener and those with input, each
once and in the order of the batch: a first part of them while it is at it, and all of them
before it looks at the flag again. -/
theorem batch_in_order (r : Reactor) (listenFd : RawFd) (s s' : LoopState) (t : List Io)
    (events : List (RawFd × EventFlags)) (hload : ∀ running, Io.load running ∉ t)
    (hrun : run (r.step listenFd) s (.epollWait (.ok events) :: t) = some s') :
    t.flatMap (finished listenFd) <+: wanted listenFd events ∧
      (s'.point = .top → t.flatMap (finished listenFd) = wanted listenFd events) := by
  obtain ⟨m, hwait, hrest⟩ := run_cons_iff.mp hrun
  have hfirst : Progress listenFd events [] m := by
    cases Reactor.step_cases hwait with
    | waited => exact Or.inl ⟨handling_nextEvent events, (remaining_nextEvent events).symm⟩
  have hprogress : Progress listenFd events t s' := by
    refine run_history (P := fun _ io _ => ∀ running, io ≠ .load running)
      (fun t s io s' h hs hP => progress_step h hs hP) hfirst
      ((along_label_iff hrest).mpr ?_) hrest
    rintro io hio running rfl
    exact hload running hio
  obtain ⟨-, hwanted⟩ | ⟨hleft, hpre⟩ := hprogress
  · rw [hwanted]
    refine ⟨List.prefix_append _ _, fun htop => ?_⟩
    rw [htop]
    exact (List.append_nil _).symm
  · refine ⟨hpre, fun htop => ?_⟩
    rw [htop] at hleft
    exact hleft.elim

/-- One batch with a new connection, a client that hangs up and an event without input. -/
def mixedBatch : List (RawFd × EventFlags) := [(3, EPOLLIN), (7, 0), (5, EPOLLIN)]

theorem mixedBatch_in_order :
    [Io.accept (.ok 9), .epollAdd 9 (EPOLLIN ||| EPOLLET) (.ok ()), .accept (.error []),
      .read 5 (.ok []), .close 5 (.ok ()) (.ok ())].flatMap (finished 3) = wanted 3 mixedBatch :=
  (batch_in_order Reactor.stock 3 { LoopState.listening 3 4 with point := .wait } _ _ mixedBatch
    (by simp) rfl).2 rfl

end KernelEngine.Batches
