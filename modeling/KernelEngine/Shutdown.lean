import KernelEngine.Worker.WorkerThread

namespace KernelEngine.Shutdown
open Rust Worker Fifo Runs

/-- The tasks taken from the queues, each with the worker that took it. -/
def takes (t : List Beat) : List (ℕ × (ℕ × Task)) := t.flatMap Beat.takes

/-- How many `Shutdown` tasks a worker has taken. -/
def markersTakenBy (worker : ℕ) (t : List Beat) : ℕ :=
  (takes t).countP fun e => e.2 = (worker, .shutdown)

/-- How many workers have not yet taken a `Shutdown`. -/
def serving (numWorkers : ℕ) (t : List Beat) : ℕ :=
  (List.range numWorkers).countP fun worker => markersTakenBy worker t = 0

/-- The tasks accepted into a queue, in order. -/
def pushedTo (queue : ℕ) (t : List Beat) : List Task := on queue (entered (t.flatMap Beat.ops))

/-- A worker has left exactly when it took a `Shutdown`, and then it took one. -/
structure Counted (t : List Beat) (s : Workers) : Prop where
  marker : ∀ i p, s.phases[i]? = some p → markersTakenBy i t = if p = .left then 1 else 0
  total : s.phases.countP (· = .left) = ((left (t.flatMap Beat.ops)).map Prod.snd).count .shutdown

variable {handles : List WorkStealingQueue} {s s' : Workers} {b : Beat} {t : List Beat}

@[simp] theorem takes_concat (t : List Beat) (b : Beat) :
    takes (t ++ [b]) = takes t ++ b.takes := by
  simp [takes]

@[simp] theorem markersTakenBy_concat (i : ℕ) (t : List Beat) (b : Beat) :
    markersTakenBy i (t ++ [b]) =
      markersTakenBy i t + b.takes.countP fun e => e.2 = (i, .shutdown) := by
  simp [markersTakenBy]

theorem counted_start (numWorkers : ℕ) (heap : Heap Task) :
    Counted [] (.start numWorkers heap) where
  marker := by
    intro i p hp
    obtain rfl := List.eq_of_mem_replicate (List.mem_of_getElem? hp)
    rfl
  total := by simp [Workers.start, left, List.countP_replicate]

/-- A worker at work moves to another phase. It leaves by taking a `Shutdown`. -/
theorem counted_set {heap : Heap Task} {i : ℕ} {p p' : Phase} (hp : s.phases[i]? = some p)
    (hne : p ≠ .left)
    (hmine : (b.takes.countP fun e => e.2 = (i, .shutdown)) = if p' = .left then 1 else 0)
    (hother : ∀ j ≠ i, (b.takes.countP fun e => e.2 = (j, .shutdown)) = 0)
    (hops : ((left b.ops).map Prod.snd).count .shutdown = if p' = .left then 1 else 0)
    (hI : Counted t s) : Counted (t ++ [b]) ⟨heap, s.phases.set i p'⟩ where
  marker := by
    intro j q hq
    rw [markersTakenBy_concat]
    rw [List.getElem?_set] at hq
    split_ifs at hq with hij hlen
    · obtain rfl := Option.some.inj hq
      subst hij
      rw [hI.marker i p hp, if_neg hne, hmine, zero_add]
    · rw [hI.marker j q hq, hother j (Ne.symm hij), add_zero]
  total := by
    obtain ⟨hi, rfl⟩ := List.getElem?_eq_some_iff.mp hp
    rw [List.countP_set hi, hI.total, List.flatMap_append, List.flatMap_singleton, left_append,
      List.map_append, List.count_append, hops]
    simp [hne]

theorem counted_step (h : Workers.step handles s b = some s') (hrunning : b.Running)
    (hI : Counted t s) : Counted (t ++ [b]) s' := by
  cases Workers.step_cases h with
  | pushed =>
    constructor
    case marker => simpa [Beat.takes] using hI.marker
    case total => simpa [Beat.ops, left, Op.left] using hI.total
  | loaded hp hw => exact counted_set hp (by simp) rfl (fun _ _ => rfl) rfl hI
  | stopped hp => cases hrunning
  | @probed worker q rest got heap hp hpop =>
    refine counted_set hp (by simp) ?_ (fun j hj => ?_) ?_ hI
    · simp only [Workers.dispatch_eq_left]
      cases got <;> simp [Beat.takes, List.countP_singleton]
    · cases got <;> simp [Beat.takes, Ne.symm hj]
    · simp only [Workers.dispatch_eq_left]
      cases got <;> simp [Beat.ops, left, Op.left, List.count_singleton]
  | slept hp => exact counted_set hp (by simp) rfl (fun _ _ => rfl) rfl hI

theorem counted_run {numWorkers : ℕ} {heap : Heap Task} (hrunning : ∀ b ∈ t, b.Running)
    (hrun : run (Workers.step handles) (.start numWorkers heap) t = some s) : Counted t s :=
  run_history (P := fun _ b _ => b.Running) (fun _ _ _ _ hI hs hb => counted_step hs hb hI)
    (counted_start numWorkers heap) ((along_label_iff hrun).mpr hrunning) hrun

theorem phases_length_run {numWorkers : ℕ} {heap : Heap Task}
    (hrun : run (Workers.step handles) (.start numWorkers heap) t = some s) :
    s.phases.length = numWorkers :=
  run_invariant_of_step (I := fun s => s.phases.length = numWorkers)
    (fun _ _ _ hI hs => (Workers.phases_length_step (Workers.step_cases hs)).trans hI)
    (List.length_replicate ..) hrun

/-- The workers that took no `Shutdown` are those that have not left. -/
theorem serving_add_left {numWorkers : ℕ} (hlen : s.phases.length = numWorkers)
    (hI : Counted t s) : serving numWorkers t + s.phases.countP (· = .left) = numWorkers := by
  have hmap : (List.range numWorkers).map (fun i => decide (markersTakenBy i t = 0)) =
      s.phases.map fun p => !decide (p = .left) := by
    refine List.ext_getElem (by simp [hlen]) fun i h₁ h₂ => ?_
    simp only [List.length_map] at h₂
    have hm := hI.marker i _ (List.getElem?_eq_getElem h₂)
    simp only [List.getElem_map, List.getElem_range, hm]
    by_cases hp : s.phases[i] = .left <;> simp [hp]
  have hcount : serving numWorkers t = s.phases.countP fun p => !decide (p = .left) := by
    have h := congrArg (List.countP id) hmap
    rwa [List.countP_map, List.countP_map] at h
  -- those at work and those that left make up all of them
  rw [hcount, ← hlen, List.length_eq_countP_add_countP (p := fun p : Phase => decide (p = .left)),
    add_comm]
  simp

/-- A queue that was to end in a `Shutdown` and holds none is empty. -/
theorem drained {taken rest tasks : List Task} (h : tasks ++ [.shutdown] = taken ++ rest)
    (hnone : Task.shutdown ∉ rest) : rest = [] := by
  rcases List.eq_nil_or_concat' rest with rfl | ⟨front, last, rfl⟩
  · rfl
  · rw [← List.append_assoc] at h
    obtain ⟨-, hlast⟩ := List.append_inj' h rfl
    obtain rfl := List.singleton_injective hlast
    exact absurd (List.mem_append_right _ (List.mem_singleton_self _)) hnone

/-- Every `Shutdown` pushed is queued or has stopped a worker. -/
theorem serving_balance {numWorkers capacity : ℕ} {heap : Heap Task}
    (hnew : WorkStealingQueue.new numWorkers capacity [] = some (handles, heap))
    (hrunning : ∀ b ∈ t, b.Running)
    (hrun : run (Workers.step handles) (.start numWorkers heap) t = some s) :
    serving numWorkers t + ((entered (t.flatMap Beat.ops)).map Prod.snd).count .shutdown =
      numWorkers + (queued s.heap).count .shutdown := by
  have hb := WorkStealingQueue.books_of_new hnew (Workers.ledger_run hrun)
  have hI := counted_run hrunning hrun
  have hadd := serving_add_left (phases_length_run hrun) hI
  have hcount := congrArg (Multiset.count .shutdown) hb.pooled
  rw [Multiset.count_add, Multiset.coe_count, Multiset.coe_count, ← hI.total] at hcount
  omega

/-- When each queue was pushed tasks and a final `Shutdown`, one for each worker, the
workers still serving are as many as the `Shutdown`s still queued; and once all have left
every queue is empty and each task was taken, in order, by the one worker in the log. -/
theorem drains_gracefully {numWorkers capacity : ℕ} {heap : Heap Task}
    (hnew : WorkStealingQueue.new numWorkers capacity [] = some (handles, heap))
    (t : List Beat) (s : Workers) (hrunning : ∀ b ∈ t, b.Running)
    (hrun : run (Workers.step handles) (.start numWorkers heap) t = some s)
    (tasks : ℕ → List Task) (htasks : ∀ i < numWorkers, .shutdown ∉ tasks i)
    (hpushed : ∀ i < numWorkers, pushedTo i t = tasks i ++ [.shutdown]) :
    serving numWorkers t = (queued s.heap).count .shutdown ∧
    ((∀ phase ∈ s.phases, phase = .left) →
      (∀ q ∈ s.heap, q.items = []) ∧
      ∀ i < numWorkers, (on i (takes t)).map Prod.snd = tasks i ++ [.shutdown]) := by
  have hb := WorkStealingQueue.books_of_new hnew (Workers.ledger_run hrun)
  -- one `Shutdown` for each queue, so one for each worker
  have hone : ∀ i ∈ Finset.range numWorkers, (pushedTo i t).count .shutdown = 1 := by
    intro i hi
    have hlt := Finset.mem_range.mp hi
    rw [hpushed i hlt, List.count_append, List.count_eq_zero.mpr (htasks i hlt), zero_add,
      List.count_singleton_self]
  have hmarkers : ((entered (t.flatMap Beat.ops)).map Prod.snd).count .shutdown = numWorkers := by
    rw [count_eq_sum_on hb.inside]
    exact (Finset.sum_congr rfl hone).trans (by simp)
  have hserving : serving numWorkers t = (queued s.heap).count .shutdown := by
    have hbalance := serving_balance hnew hrunning hrun
    omega
  refine ⟨hserving, fun hleft => ?_⟩
  -- all workers have left, so no `Shutdown` is queued and each queue was drained to its last
  have hnone : Task.shutdown ∉ queued s.heap := by
    have hadd := serving_add_left (phases_length_run hrun) (counted_run hrunning hrun)
    rw [List.countP_eq_length.mpr (by simpa using hleft), phases_length_run hrun] at hadd
    exact Multiset.count_eq_zero.mp (by omega)
  have horder (i : ℕ) (q : Queue Task) (hq : s.heap[i]? = some q) : q.items = [] ∧
      tasks i ++ [.shutdown] = on i (left (t.flatMap Beat.ops)) := by
    obtain ⟨hi, -⟩ := List.getElem?_eq_some_iff.mp hq
    have h := (hpushed i (hb.length ▸ hi)).symm.trans (hb.order i q hq)
    have hempty := drained h fun hmem => hnone (mem_queued (List.mem_of_getElem? hq) hmem)
    rw [hempty, List.append_nil] at h
    exact ⟨hempty, h⟩
  constructor
  · intro q hq
    obtain ⟨i, hi⟩ := List.mem_iff_getElem?.mp hq
    exact (horder i q hi).1
  · intro i hi
    have hlt : i < s.heap.length := hb.length.symm ▸ hi
    rw [(horder i _ (List.getElem?_eq_getElem hlt)).2, ← Workers.takes_eq_left, on_map Prod.snd]
    rfl

/-- Worker 1 finds its own queue empty, takes a task of worker 0 and then its `Shutdown`;
worker 0 stops on the one pushed to worker 1 after that. -/
def swappedMarkers : List Beat :=
  [.push 0 0 (.closeConnection 7) (.ok ()), .load 1 true, .probe 1 1 none,
    .probe 1 0 (some (.closeConnection 7)), .push 0 0 .shutdown (.ok ()), .load 1 true,
    .probe 1 1 none, .probe 1 0 (some .shutdown), .push 1 1 .shutdown (.ok ()), .load 0 true,
    .probe 0 0 none, .probe 0 1 (some .shutdown)]

theorem swappedMarkers_drain :
    ∃ handles heap s, WorkStealingQueue.new 2 4 [] = some (handles, heap) ∧
      run (Workers.step handles) (.start 2 heap) swappedMarkers = some s ∧
      (∀ q ∈ s.heap, q.items = []) ∧
      ∀ i < 2, (on i (takes swappedMarkers)).map Prod.snd =
        (if i = 0 then [.closeConnection 7] else []) ++ [.shutdown] := by
  have hnew := WorkStealingQueue.new_eq (show 4 ≠ 0 by decide) 2
  refine ⟨_, _, _, hnew, rfl, ?_⟩
  refine (drains_gracefully hnew swappedMarkers _ ?_ rfl
    (fun i => if i = 0 then [.closeConnection 7] else []) ?_ ?_).2 ?_
  · simp [swappedMarkers, Beat.Running]
  · decide
  · decide
  · decide

end KernelEngine.Shutdown
