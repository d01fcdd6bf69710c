import KernelEngine.Lib.Simulation
import KernelEngine.Stealing
import KernelEngine.Worker.WorkerThread

namespace KernelEngine.Threads
open Rust Worker Fifo Runs

/-- What a worker thread does with the queues: it is thread and handle of its own number. -/
def acts : Beat → List Act
  | .push handle queue task result => [.push handle queue task result]
  | .load worker running => if running then [.call worker worker] else []
  | .probe worker queue got => [.probe worker queue got]
  | .sleep worker => [.giveUp worker]

/-- The `pop` a worker is in. -/
def inPop : Option Phase → Option (List (LockFreeQueue Task))
  | some (.popping rest) => some rest
  | _ => none

/-- The workers are threads of a pool over the same queues. -/
structure Pooled (s : Workers) (a : Pool) : Prop where
  heap : a.heap = s.heap
  calls : ∀ worker, a.calls worker = inPop s.phases[worker]?

section Simulation

variable {handles : List WorkStealingQueue} {s s' : Workers} {a : Pool} {w numWorkers : ℕ}
  {phase phase' : Phase} {t : List Beat}

theorem pooled_start (heap : Heap Task) :
    Pooled (Workers.start numWorkers heap) (Pool.start heap) where
  heap := rfl
  calls worker := by
    show none = inPop (List.replicate numWorkers Phase.top)[worker]?
    rw [List.getElem?_replicate]
    split_ifs <;> rfl

/-- One worker's phase changes, and so does the one call. -/
theorem Pooled.set (h : Pooled s a) (hw : s.phases[w]? = some phase) (heap : Heap Task) :
    Pooled ⟨heap, s.phases.set w phase'⟩
      ⟨heap, Function.update a.calls w (inPop (some phase'))⟩ where
  heap := rfl
  calls worker := by
    dsimp only
    by_cases heq : worker = w
    · subst heq
      have hlt := (List.getElem?_eq_some_iff.mp hw).1
      rw [Function.update_self, List.getElem?_set_self hlt]
    · rw [Function.update_of_ne heq, List.getElem?_set_ne (Ne.symm heq)]
      exact h.calls worker

theorem inPop_dispatch (rest : List (LockFreeQueue Task)) (got : Option Task) :
    inPop (some (Workers.dispatch rest got)) = if got = none then some rest else none := by
  cases got with
  | none => rfl
  | some task => cases task <;> rfl

/-- Each step of the worker threads is a step of the pool, or none. -/
theorem pooled_step :
    Simulates (Workers.step handles) (Pool.step handles) (fun _ => acts) Pooled := by
  intro s b s' a h hs
  cases b with
  | push handle queue task result =>
    simp only [Workers.step, Option.bind_eq_bind, Option.bind_eq_some_iff] at hs
    obtain ⟨w, hw, ⟨answer, heap⟩, hpush, hs⟩ := hs
    obtain ⟨hcond, hs⟩ := Option.ite_none_right_eq_some.mp hs
    obtain rfl := Option.some.inj hs
    refine ⟨{ a with heap := heap }, run_cons_iff.mpr ⟨_, ?_, rfl⟩, rfl, h.calls⟩
    simp only [Pool.step, hw, h.heap, hpush, Option.bind_eq_bind, Option.bind_some, if_pos hcond]
  | load worker running =>
    cases Workers.step_cases hs with
    | loaded hp hw =>
      have hcalls : a.calls worker = none := (h.calls worker).trans (congrArg inPop hp)
      exact ⟨_, run_cons_iff.mpr ⟨_, Pool.step_call hw hcalls, rfl⟩, h.heap ▸ h.set hp a.heap⟩
    | stopped hp =>
      -- no `pop` begins or ends
      have hcalls : a.calls worker = none := (h.calls worker).trans (congrArg inPop hp)
      refine ⟨a, rfl, ?_⟩
      have hset : Pooled ⟨_, s.phases.set worker .left⟩ _ := h.set hp s.heap
      rw [show inPop (some .left) = a.calls worker from hcalls.symm,
        Function.update_eq_self] at hset
      exact ⟨h.heap, hset.calls⟩
  | probe worker queue got =>
    simp only [Workers.step] at hs
    split at hs
    case h_1 q rest hp =>
      simp only [Option.bind_eq_bind, Option.bind_eq_some_iff] at hs
      obtain ⟨⟨answer, heap⟩, hpop, hs⟩ := hs
      obtain ⟨⟨rfl, rfl⟩, hstate⟩ := Option.ite_none_right_eq_some.mp hs
      obtain rfl := Option.some.inj hstate
      have hcalls : a.calls worker = some (q :: rest) :=
        (h.calls worker).trans (congrArg inPop hp)
      refine ⟨_, run_cons_iff.mpr ⟨_, Pool.step_probe hcalls (h.heap ▸ hpop), rfl⟩, ?_⟩
      rw [← inPop_dispatch]
      exact h.set hp heap
    case h_2 => cases hs
  | sleep worker =>
    cases Workers.step_cases hs with
    | slept hp =>
      have hcalls : a.calls worker = some [] := (h.calls worker).trans (congrArg inPop hp)
      exact ⟨_, run_cons_iff.mpr ⟨_, if_pos hcalls, rfl⟩, h.heap ▸ h.set hp a.heap⟩

theorem pooled_run (h : Pooled s a) (hrun : run (Workers.step handles) s t = some s') :
    ∃ a', run (Pool.step handles) a (t.flatMap acts) = some a' ∧ Pooled s' a' := by
  obtain ⟨a', ha', h'⟩ := pooled_step.run h hrun
  exact ⟨a', shown_label hrun ▸ ha', h'⟩

end Simulation

/-- Worker threads are threads of the pool: in every run of theirs each round of a loop is a
`pop` on the worker's own handle, the queues stay the same ones, and whoever is in its `pop`
has the same queues still to probe. -/
theorem workers_refine_pool {numWorkers : ℕ} {handles : List WorkStealingQueue}
    {heap : Heap Task} (t : List Beat) (s : Workers)
    (hrun : run (Workers.step handles) (Workers.start numWorkers heap) t = some s) :
    ∃ a, run (Pool.step handles) (Pool.start heap) (t.flatMap acts) = some a ∧
      a.heap = s.heap ∧ ∀ worker, a.calls worker = inPop s.phases[worker]? := by
  obtain ⟨a, ha, h⟩ := pooled_run (pooled_start heap) hrun
  exact ⟨a, ha, h.heap, h.calls⟩

/-- Worker 1 looks in vain into both queues; a task comes to its own after it has looked. -/
def lateArrival : List Beat :=
  [.load 1 true, .probe 1 1 none, .push 1 1 .shutdown (.ok ()), .probe 1 0 none]

theorem lateArrival_pooled : ∃ handles heap s a,
    WorkStealingQueue.new 2 4 [] = some (handles, heap) ∧
      run (Workers.step handles) (Workers.start 2 heap) lateArrival = some s ∧
      run (Pool.step handles) (Pool.start heap) (lateArrival.flatMap acts) = some a ∧
      a.heap = s.heap := by
  have hnew := WorkStealingQueue.new_eq (show 4 ≠ 0 by decide) 2
  have hrun : run (Workers.step ((List.range 2).map (WorkStealingQueue.wired 2)))
      (Workers.start 2 (List.replicate 2 (Queue.empty 4))) lateArrival = some _ := rfl
  obtain ⟨a, ha, hheap, -⟩ := workers_refine_pool lateArrival _ hrun
  exact ⟨_, _, _, a, hnew, hrun, ha, hheap⟩

section Sleeping

variable {handles : List WorkStealingQueue} {s s' m : Workers} {b : Beat} {t u v : List Beat}
  {numWorkers worker queue : ℕ} {heap : Heap Task} {a : Pool}

/-- The round of its loop a worker is in: what has happened since it read `running`. -/
structure Round (handles : List WorkStealingQueue) (s₀ : Workers) (worker : ℕ) (t : List Beat)
    (s : Workers) (u v : List Beat) (m₀ m : Workers) : Prop where
  split : t = u ++ .load worker true :: v
  before : run (Workers.step handles) s₀ u = some m₀
  entered : Workers.step handles m₀ (.load worker true) = some m
  reached : run (Workers.step handles) m v = some s
  going : ∀ b ∈ v, ∀ a ∈ acts b, ¬ Stealing.Ends worker a

/-- Whoever is in its `pop` has come there in this round. -/
def InRound (handles : List WorkStealingQueue) (s₀ : Workers) (worker : ℕ) (t : List Beat)
    (s : Workers) : Prop :=
  (∃ rest, s.phases[worker]? = some (.popping rest)) →
    ∃ u v m₀ m, Round handles s₀ worker t s u v m₀ m

theorem Round.concat {s₀ m₀ : Workers} (h : Round handles s₀ worker t s u v m₀ m)
    (hs : Workers.step handles s b = some s') (hgoing : ∀ a ∈ acts b, ¬ Stealing.Ends worker a) :
    Round handles s₀ worker (t ++ [b]) s' u (v ++ [b]) m₀ m where
  split := by rw [h.split, List.append_assoc, List.cons_append]
  before := h.before
  entered := h.entered
  reached := run_concat_iff.mpr ⟨s, h.reached, hs⟩
  going := List.forall_mem_append.mpr ⟨h.going, List.forall_mem_singleton.mpr hgoing⟩

theorem inRound_step {s₀ : Workers} (hrun : run (Workers.step handles) s₀ t = some s)
    (h : InRound handles s₀ worker t s) (hs : Workers.step handles s b = some s') :
    InRound handles s₀ worker (t ++ [b]) s' := by
  rintro ⟨rest', hrest'⟩
  -- as long as the worker stays in its `pop` the round goes on
  have goes (hin : ∃ rest, s.phases[worker]? = some (.popping rest))
      (hgoing : ∀ a ∈ acts b, ¬ Stealing.Ends worker a) :
      ∃ u v m₀ m, Round handles s₀ worker (t ++ [b]) s' u v m₀ m := by
    obtain ⟨u, v, m₀, m, hround⟩ := h hin
    exact ⟨u, v ++ [b], m₀, m, hround.concat hs hgoing⟩
  cases Workers.step_cases hs with
  | pushed => exact goes ⟨rest', hrest'⟩ (by simp [acts, Stealing.Ends])
  | @loaded w handle hp hw =>
    by_cases heq : w = worker
    · subst heq
      exact ⟨t, [], s, _, rfl, hrun, hs, rfl, by simp⟩
    · rw [List.getElem?_set_ne heq] at hrest'
      exact goes ⟨rest', hrest'⟩ (by simp [acts, Stealing.Ends])
  | @stopped w hp =>
    by_cases heq : w = worker
    · subst heq
      rw [List.getElem?_set_self (List.getElem?_eq_some_iff.mp hp).1] at hrest'
      cases hrest'
    · rw [List.getElem?_set_ne heq] at hrest'
      exact goes ⟨rest', hrest'⟩ (by simp [acts])
  | @probed w q rest got heap hp hpop =>
    by_cases heq : w = worker
    · subst heq
      rw [List.getElem?_set_self (List.getElem?_eq_some_iff.mp hp).1] at hrest'
      have hgot : got = none := by
        by_contra hsome
        have hcall := inPop_dispatch rest got
        rw [Option.some.inj hrest', if_neg hsome] at hcall
        cases hcall
      exact goes ⟨_, hp⟩ (by simp [acts, Stealing.Ends, hgot])
    · rw [List.getElem?_set_ne heq] at hrest'
      exact goes ⟨rest', hrest'⟩ (by simp [acts, Stealing.Ends, heq])
  | @slept w hp =>
    by_cases heq : w = worker
    · subst heq
      rw [List.getElem?_set_self (List.getElem?_eq_some_iff.mp hp).1] at hrest'
      cases hrest'
    · rw [List.getElem?_set_ne heq] at hrest'
      exact goes ⟨rest', hrest'⟩ (by simp [acts, Stealing.Ends, heq])

theorem inRound_run (hrun : run (Workers.step handles) (Workers.start numWorkers heap) t = some s) :
    InRound handles (Workers.start numWorkers heap) worker t s := by
  refine (run_history_of_step (I := fun t s => run (Workers.step handles)
    (Workers.start numWorkers heap) t = some s ∧
      InRound handles (Workers.start numWorkers heap) worker t s) ?_ ⟨rfl, ?_⟩ hrun).2
  · intro t s b s' h hs
    exact ⟨run_concat_iff.mpr ⟨s, h.1, hs⟩, inRound_step h.1 h.2 hs⟩
  · rintro ⟨rest, hrest⟩
    have htop := List.mem_of_getElem? hrest
    cases List.eq_of_mem_replicate htop

/-- The queue is empty at some instant of a run. -/
def EmptyDuring (handles : List WorkStealingQueue) (m : Workers) (v : List Beat) (queue : ℕ) :
    Prop :=
  ∃ w m' q, w <+: v ∧ run (Workers.step handles) m w = some m' ∧ m'.heap[queue]? = some q ∧
    q.items = []

/-- What was empty for the pool was empty for the workers. -/
theorem emptyDuring_of_pool (h : Pooled m a) (hrun : run (Workers.step handles) m v = some s)
    (hempty : Stealing.EmptyDuring handles a (v.flatMap acts) queue) :
    EmptyDuring handles m v queue := by
  obtain ⟨u, a', hu, hrun', q, hq, hitems⟩ := hempty
  have hone (s : Workers) (b : Beat) : (acts b).length ≤ 1 := by
    cases b with
    | load worker running => cases running <;> simp [acts]
    | push | probe | sleep => rfl
  rw [← shown_label hrun] at hu
  obtain ⟨w, ⟨v', rfl⟩, hw⟩ := prefix_of_shown hone hrun hu
  obtain ⟨m', hm', -⟩ := run_append_iff.mp hrun
  rw [shown_label hm'] at hw
  obtain ⟨a'', ha'', hm''⟩ := pooled_run h hm'
  obtain rfl : a' = a'' := by
    rw [hw] at ha''
    exact Option.some.inj (hrun'.symm.trans ha'')
  exact ⟨w, m', q, List.prefix_append _ _, hm', hm''.heap ▸ hq, hitems⟩

end Sleeping

/-- A handle that is called is one of those `new` made. -/
theorem handle_of_call {numWorkers thread worker : ℕ} {a a' : Pool}
    (h : Pool.step ((List.range numWorkers).map (WorkStealingQueue.wired numWorkers)) a
      (.call thread worker) = some a') :
    worker < numWorkers ∧ ((List.range numWorkers).map
      (WorkStealingQueue.wired numWorkers))[worker]? =
        some (WorkStealingQueue.wired numWorkers worker) := by
  cases Pool.step_cases h with
  | called hw hc =>
    obtain ⟨hlt, -⟩ := List.getElem?_eq_some_iff.mp hw
    rw [List.length_map, List.length_range] at hlt
    exact ⟨hlt, by simp [hlt]⟩

/-- A worker that goes to sleep has, since it last read `running`, found each of the queues
empty at some instant, and has taken nothing. -/
theorem sleeper_saw_all_empty {numWorkers capacity : ℕ} {handles : List WorkStealingQueue}
    {heap : Heap Task}
    (hnew : WorkStealingQueue.new numWorkers capacity [] = some (handles, heap)) (t : List Beat)
    (s s' : Workers)
    (hrun : run (Workers.step handles) (Workers.start numWorkers heap) t = some s) (worker : ℕ)
    (hsleep : Workers.step handles s (.sleep worker) = some s') :
    ∃ u v m, t = u ++ .load worker true :: v ∧
      run (Workers.step handles) (Workers.start numWorkers heap) (u ++ [.load worker true]) =
        some m ∧
      (∀ queue task, Beat.probe worker queue (some task) ∉ v) ∧
      ∀ queue < numWorkers, EmptyDuring handles m v queue := by
  obtain ⟨rfl, rfl⟩ := WorkStealingQueue.new_eq_some hnew
  obtain ⟨rest, hrest⟩ : ∃ rest, s.phases[worker]? = some (.popping rest) := by
    cases Workers.step_cases hsleep with
    | slept hp => exact ⟨[], hp⟩
  have hin : InRound _ _ worker t s := inRound_run hrun
  obtain ⟨u, v, m₀, m, hround⟩ := hin ⟨rest, hrest⟩
  refine ⟨u, v, m, hround.split, run_concat_iff.mpr ⟨m₀, hround.before, hround.entered⟩, ?_, ?_⟩
  · intro queue task hmem
    exact hround.going _ hmem _ (List.mem_singleton_self _) ⟨rfl, by simp⟩
  · intro queue hqueue
    obtain ⟨a₀, ha₀, hm₀⟩ := pooled_run (pooled_start _) hround.before
    obtain ⟨a₁, ha₁, hm₁⟩ := pooled_step _ _ _ _ hm₀ hround.entered
    obtain ⟨a₂, ha₂, hm₂⟩ := pooled_run hm₁ hround.reached
    obtain ⟨a₃, ha₃, -⟩ := pooled_step _ _ _ _ hm₂ hsleep
    obtain ⟨_, hcall, h₁⟩ := run_cons_iff.mp ha₁
    obtain rfl := Option.some.inj h₁
    obtain ⟨_, hgive, -⟩ := run_cons_iff.mp ha₃
    have hgoing : ∀ a ∈ v.flatMap acts, ¬ Stealing.Ends worker a := by
      intro a ha
      obtain ⟨b, hb, hab⟩ := List.mem_flatMap.mp ha
      exact hround.going b hb a hab
    have hprobing := Stealing.Probing.run (handle_of_call hcall).2 hcall ha₂ hgoing
    exact emptyDuring_of_pool hm₁ hround.reached
      (hprobing.missed (handle_of_call hcall).1 hgive queue hqueue)

theorem lateArrival_slept : ∃ handles heap s s',
    WorkStealingQueue.new 2 4 [] = some (handles, heap) ∧
      run (Workers.step handles) (Workers.start 2 heap) lateArrival = some s ∧
      Workers.step handles s (.sleep 1) = some s' ∧
      ∃ u v m, lateArrival = u ++ .load 1 true :: v ∧
        run (Workers.step handles) (Workers.start 2 heap) (u ++ [.load 1 true]) = some m ∧
        ∀ queue < 2, EmptyDuring handles m v queue := by
  have hnew := WorkStealingQueue.new_eq (show 4 ≠ 0 by decide) 2
  obtain ⟨u, v, m, hsplit, hm, -, hempty⟩ := sleeper_saw_all_empty hnew lateArrival _ _ rfl 1 rfl
  exact ⟨_, _, _, _, hnew, rfl, rfl, u, v, m, hsplit, hm, hempty⟩

end KernelEngine.Threads
