import KernelEngine.Worker.Pool

namespace KernelEngine.Stealing
open Rust Worker Fifo Runs

/-- The step with which the `pop` of a thread returns. -/
def Ends (thread : ℕ) : Act → Prop
  | .probe th _ got => th = thread ∧ got ≠ none
  | .giveUp th => th = thread
  | _ => False

/-- What the steps of a thread take out of the queues, with the queue it came from. -/
def takes (thread : ℕ) : Act → List (ℕ × Task)
  | .probe th queue (some task) => if th = thread then [(queue, task)] else []
  | _ => []

def EmptyAt (s : Pool) (queue : ℕ) : Prop := ∃ q, s.heap[queue]? = some q ∧ q.items = []

/-- The queue is empty at some instant of a run. -/
def EmptyDuring (handles : List WorkStealingQueue) (m : Pool) (v : List Act) (queue : ℕ) : Prop :=
  ∃ u s, u <+: v ∧ run (Pool.step handles) m u = some s ∧ EmptyAt s queue

/-- What a `pop` on handle `worker` tells its caller. It has begun in `m`, and by now, in
`s`, the steps `v` of all threads have been made. -/
structure FindsWork (handles : List WorkStealingQueue) (numWorkers thread worker : ℕ) (m : Pool)
    (v : List Act) (s : Pool) : Prop where
  missed : ∀ s', Pool.step handles s (.giveUp thread) = some s' →
    (∀ queue < numWorkers, EmptyDuring handles m v queue) ∧
      (v ++ [Act.giveUp thread]).flatMap (takes thread) = []
  found : ∀ queue task s', Pool.step handles s (.probe thread queue (some task)) = some s' →
    (∃ q q', s.heap[queue]? = some q ∧ q.items = task :: q'.items ∧
      s'.heap = s.heap.set queue q') ∧
    (v ++ [Act.probe thread queue (some task)]).flatMap (takes thread) = [(queue, task)] ∧
    (queue ≠ worker → EmptyDuring handles m v worker)
  kept : ∀ queue < numWorkers, ∀ task, (∀ u m', u <+: v → run (Pool.step handles) m u = some m' →
    ∃ q, m'.heap[queue]? = some q ∧ task ∈ q.items) →
      Pool.step handles s (.giveUp thread) = none

/-- The queues probed so far were empty when it was their turn. -/
structure Probing (handles : List WorkStealingQueue) (m : Pool) (thread : ℕ)
    (probes : List (LockFreeQueue Task)) (v : List Act) (s : Pool) : Prop where
  reached : run (Pool.step handles) m v = some s
  probed : ∃ done rest, probes = done ++ rest ∧ s.calls thread = some rest ∧
    ∀ q ∈ done, EmptyDuring handles m v q.queue
  empty : v.flatMap (takes thread) = []

section Steps

variable {handles : List WorkStealingQueue} {m s s' : Pool} {v : List Act} {a : Act}
  {thread queue : ℕ} {probes : List (LockFreeQueue Task)}

theorem EmptyDuring.concat (h : EmptyDuring handles m v queue) (a : Act) :
    EmptyDuring handles m (v ++ [a]) queue := by
  obtain ⟨u, s, hu, hrun, hempty⟩ := h
  exact ⟨u, s, hu.trans (List.prefix_append v [a]), hrun, hempty⟩

theorem emptyAt_of_missed {heap : Heap Task} (h : Fifo.Step s.heap (.pop queue none) heap) :
    EmptyAt s queue := by
  cases h with
  | missed hq hpop => exact ⟨_, hq, Queue.pop_none hpop⟩

theorem Probing.step (h : Probing handles m thread probes v s)
    (hs : Pool.step handles s a = some s') (hgoing : ¬ Ends thread a) :
    Probing handles m thread probes (v ++ [a]) s' := by
  obtain ⟨done, rest, hprobes, hcalls, hempty⟩ := h.probed
  have hreached := run_concat_iff.mpr ⟨s, h.reached, hs⟩
  have hmono : ∀ q ∈ done, EmptyDuring handles m (v ++ [a]) q.queue := fun q hq =>
    (hempty q hq).concat a
  -- the calls of other threads leave the list of this one as it is
  have other (htakes : takes thread a = []) (hsame : s'.calls thread = s.calls thread) :
      Probing handles m thread probes (v ++ [a]) s' :=
    ⟨hreached, ⟨done, rest, hprobes, hsame.trans hcalls, hmono⟩, by
      rw [List.flatMap_append, h.empty, List.flatMap_singleton, htakes, List.append_nil]⟩
  cases Pool.step_cases hs with
  | pushed | localPushed => exact other rfl rfl
  | @called th handle w hw hc =>
    have hne : thread ≠ th := by
      rintro rfl
      rw [hcalls] at hc
      cases hc
    exact other rfl (Function.update_of_ne hne _ _)
  | @gaveUp th hc => exact other rfl (Function.update_of_ne (Ne.symm hgoing) _ _)
  | @probed th q left got heap hc hop =>
    by_cases hth : th = thread
    · subst hth
      obtain rfl : got = none := by
        by_contra hgot
        exact hgoing ⟨rfl, hgot⟩
      obtain rfl : rest = q :: left := Option.some.inj (hcalls.symm.trans hc)
      refine ⟨hreached, ⟨done ++ [q], left, ?_, ?_, ?_⟩, ?_⟩
      · rw [hprobes, List.append_assoc, List.singleton_append]
      · simp
      · refine List.forall_mem_append.mpr ⟨hmono, List.forall_mem_singleton.mpr ?_⟩
        exact ⟨v, s, List.prefix_append v _, h.reached, emptyAt_of_missed hop⟩
      · rw [List.flatMap_append, h.empty, List.flatMap_singleton]
        rfl
    · refine other ?_ (Function.update_of_ne (Ne.symm hth) _ _)
      cases got with
      | none => rfl
      | some task => exact if_neg hth

theorem Probing.run {w : WorkStealingQueue} (hw : handles[queue]? = some w)
    (hcall : Pool.step handles s (.call thread queue) = some m)
    (hv : Runs.run (Pool.step handles) m v = some s') (hgoing : ∀ a ∈ v, ¬ Ends thread a) :
    Probing handles m thread w.probes v s' := by
  cases Pool.step_cases hcall with
  | called hw' hc =>
    obtain rfl := Option.some.inj (hw.symm.trans hw')
    refine run_history (P := fun _ a _ => ¬ Ends thread a) (fun _ _ _ _ h hs hP => h.step hs hP)
      ?_ ((along_label_iff hv).mpr hgoing) hv
    exact ⟨rfl, ⟨[], _, rfl, Function.update_self .., by simp⟩, rfl⟩

variable {numWorkers worker : ℕ}

/-- When all probes are made, every queue was empty once. -/
theorem Probing.missed
    (h : Probing handles m thread (WorkStealingQueue.wired numWorkers worker).probes v s)
    (hworker : worker < numWorkers) (hs : Pool.step handles s (.giveUp thread) = some s') :
    ∀ queue < numWorkers, EmptyDuring handles m v queue := by
  obtain ⟨done, rest, hprobes, hcalls, hempty⟩ := h.probed
  cases Pool.step_cases hs with
  | gaveUp hc =>
    obtain rfl := Option.some.inj (hcalls.symm.trans hc)
    rw [List.append_nil] at hprobes
    intro queue hqueue
    apply hempty ⟨queue⟩
    rw [← hprobes, (WorkStealingQueue.probes_wired hworker).mem_iff]
    exact List.mem_map_of_mem (List.mem_range.mpr hqueue)

/-- A task is found at the head of the queue at hand; the worker's own queue comes first. -/
theorem Probing.found
    (h : Probing handles m thread (WorkStealingQueue.wired numWorkers worker).probes v s)
    {task : Task} (hs : Pool.step handles s (.probe thread queue (some task)) = some s') :
    (∃ q q', s.heap[queue]? = some q ∧ q.items = task :: q'.items ∧
      s'.heap = s.heap.set queue q') ∧ (queue ≠ worker → EmptyDuring handles m v worker) := by
  obtain ⟨done, rest, hprobes, hcalls, hempty⟩ := h.probed
  cases Pool.step_cases hs with
  | @probed _ q left _ heap hc hop =>
    obtain rfl := Option.some.inj (hcalls.symm.trans hc)
    constructor
    · cases hop with
      | popped hq hpop => exact ⟨_, _, hq, (Queue.pop_some hpop).2, rfl⟩
    · intro hne
      cases done with
      | nil =>
        obtain ⟨rfl, -⟩ := List.cons.inj hprobes
        exact absurd rfl hne
      | cons first done =>
        obtain ⟨rfl, -⟩ := List.cons.inj hprobes
        exact hempty _ List.mem_cons_self

theorem Probing.findsWork
    (h : Probing handles m thread (WorkStealingQueue.wired numWorkers worker).probes v s)
    (hworker : worker < numWorkers) : FindsWork handles numWorkers thread worker m v s where
  missed s' hs := by
    refine ⟨h.missed hworker hs, ?_⟩
    rw [List.flatMap_append, h.empty]
    rfl
  found queue task s' hs := by
    obtain ⟨hhead, hown⟩ := h.found hs
    refine ⟨hhead, ?_, hown⟩
    rw [List.flatMap_append, h.empty, List.nil_append, List.flatMap_singleton]
    exact if_pos rfl
  kept queue hqueue task hkept := by
    by_contra hsome
    obtain ⟨s', hs⟩ := Option.ne_none_iff_exists'.mp hsome
    obtain ⟨u, m', hu, hrun, q, hq, hempty⟩ := h.missed hworker hs queue hqueue
    obtain ⟨q', hq', hmem⟩ := hkept u m' hu hrun
    obtain rfl := Option.some.inj (hq.symm.trans hq')
    rw [hempty] at hmem
    cases hmem

end Steps

/-- In every interleaving with the steps of other threads a `pop` on a handle of `new`
misses no task that stays, takes at most the one it returns, and steals only where the
worker's own queue was empty. With nothing in between, it comes back empty-handed
exactly when all queues are empty. -/
theorem pop_finds_work {numWorkers capacity : ℕ} {handles : List WorkStealingQueue}
    {heap : Heap Task}
    (hnew : WorkStealingQueue.new numWorkers capacity [] = some (handles, heap))
    (t : List Act) (s₀ : Pool) (hrun : run (Pool.step handles) (Pool.start heap) t = some s₀)
    (thread worker : ℕ) (m : Pool)
    (hcall : Pool.step handles s₀ (.call thread worker) = some m) (v : List Act) (s : Pool)
    (hv : run (Pool.step handles) m v = some s) (hgoing : ∀ a ∈ v, ¬ Ends thread a) :
    FindsWork handles numWorkers thread worker m v s ∧
      ∃ w got heap', handles[worker]? = some w ∧ w.pop s₀.heap = some (got, heap') ∧
        (got = none ↔ ∀ q ∈ s₀.heap, q.items = []) := by
  obtain ⟨rfl, rfl⟩ := WorkStealingQueue.new_eq_some hnew
  have hlen : s₀.heap.length = numWorkers :=
    (Pool.ledger_run hrun).length.trans (List.length_replicate ..)
  obtain ⟨w, hw⟩ : ∃ w, ((List.range numWorkers).map
      (WorkStealingQueue.wired numWorkers))[worker]? = some w := by
    cases Pool.step_cases hcall with
    | called hw => exact ⟨_, hw⟩
  obtain ⟨hworker, rfl⟩ : worker < numWorkers ∧ w = WorkStealingQueue.wired numWorkers worker := by
    obtain ⟨hlt, rfl⟩ := List.getElem?_eq_some_iff.mp hw
    rw [List.length_map, List.length_range] at hlt
    exact ⟨hlt, by simp⟩
  refine ⟨(Probing.run hw hcall hv hgoing).findsWork hworker,
    WorkStealingQueue.wired numWorkers worker, ?_⟩
  have hprobes (q : LockFreeQueue Task) :
      q ∈ (WorkStealingQueue.wired numWorkers worker).probes ↔ q.queue < s₀.heap.length := by
    rw [(WorkStealingQueue.probes_wired hworker).mem_iff, hlen, List.mem_map]
    constructor
    · rintro ⟨j, hj, rfl⟩
      exact List.mem_range.mp hj
    · exact fun hq => ⟨q.queue, List.mem_range.mpr hq, rfl⟩
  obtain ⟨got, heap', hpop, hnone⟩ := WorkStealingQueue.steal_spec fun q hq => (hprobes q).mp hq
  refine ⟨got, heap', hw, hpop, hnone.trans ⟨fun h q hq => ?_, fun h q _ a ha => ?_⟩⟩
  · obtain ⟨j, hj⟩ := List.mem_iff_getElem?.mp hq
    exact h ⟨j⟩ ((hprobes ⟨j⟩).mpr (List.getElem?_eq_some_iff.mp hj).1) q hj
  · exact h a (List.mem_of_getElem? ha)

/-- While worker 1 looks into its own queue, a task arrives at worker 0. -/
def lateTask : List Act := [.probe 5 1 none, .push 0 0 .shutdown (.ok ())]

theorem late_task_found : ∃ handles heap m s,
    WorkStealingQueue.new 2 4 [] = some (handles, heap) ∧
      Pool.step handles (Pool.start heap) (.call 5 1) = some m ∧
      run (Pool.step handles) m lateTask = some s ∧
      FindsWork handles 2 5 1 m lateTask s ∧ EmptyDuring handles m lateTask 1 := by
  have hnew := WorkStealingQueue.new_eq (show 4 ≠ 0 by decide) 2
  have hgoing : ∀ a ∈ lateTask, ¬ Ends 5 a := by simp [lateTask, Ends]
  have hfinds := (pop_finds_work hnew [] _ rfl 5 1 _ rfl lateTask _ rfl hgoing).1
  exact ⟨_, _, _, _, hnew, rfl, rfl, hfinds, (hfinds.found 0 .shutdown _ rfl).2.2 (by decide)⟩

end KernelEngine.Stealing
