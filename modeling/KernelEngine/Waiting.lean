import KernelEngine.Worker.WorkerThread

namespace KernelEngine.Waiting
open Rust Worker Fifo Runs

/-- A round of a worker begins: it has read the flag up and goes into `pop`. -/
def begins (worker : ℕ) : Beat → Bool
  | .load w running => w = worker && running
  | .push _ _ _ _ | .probe _ _ _ | .sleep _ => false

/-- A round that has begun still owes the look into the worker's own queue. -/
def owes (worker : ℕ) : Option Phase → ℕ
  | some (.popping (q :: _)) => if q.queue = worker then 1 else 0
  | _ => 0

/-- The looks into a queue in a trace. -/
def looks (queue : ℕ) (t : List Beat) : ℕ := (t.flatMap Beat.ops).countP (Op.looks queue)

section Rounds

variable {handles : List WorkStealingQueue} {s s' : Workers} {b : Beat} {t : List Beat}
  {numWorkers worker queue : ℕ} {q : Queue Task}

theorem looks_concat (queue : ℕ) (t : List Beat) (b : Beat) :
    looks queue (t ++ [b]) = looks queue t + looks queue [b] := by
  rw [looks, List.flatMap_append, List.countP_append]
  rfl

/-- A round pays for its beginning by its first look. -/
theorem owes_step (hs : Workers.step ((List.range numWorkers).map
      (WorkStealingQueue.wired numWorkers)) s b = some s') :
    owes worker s.phases[worker]? + (begins worker b).toNat ≤
      looks worker [b] + owes worker s'.phases[worker]? := by
  have hset {w begun looked : ℕ} {old new : Phase} (hw : s.phases[w]? = some old)
      (hother : w ≠ worker → begun = 0)
      (hown : w = worker → owes worker (some old) + begun ≤ looked + owes worker (some new)) :
      owes worker s.phases[worker]? + begun ≤
        looked + owes worker (s.phases.set w new)[worker]? := by
    by_cases heq : w = worker
    · subst heq
      have hlt := (List.getElem?_eq_some_iff.mp hw).1
      rw [List.getElem?_set_self hlt, hw]
      exact hown rfl
    · rw [List.getElem?_set_ne heq, hother heq, Nat.add_zero]
      exact Nat.le_add_left _ _
  cases Workers.step_cases hs with
  | pushed => exact Nat.le_add_left _ _
  | @loaded w handle hp hw =>
    refine hset hp (fun hne => by simp [begins, hne]) fun heq => ?_
    rw [List.getElem?_map] at hw
    obtain ⟨i, hi, rfl⟩ := Option.map_eq_some_iff.mp hw
    obtain ⟨hlt, rfl⟩ := List.getElem?_eq_some_iff.mp hi
    -- a worker looks into its own queue first
    simp [owes, begins, WorkStealingQueue.probes, WorkStealingQueue.wired, heq]
  | stopped hp => exact hset hp (fun _ => by simp [begins]) fun _ => by simp [begins, owes]
  | @probed w q rest got heap hp hpop =>
    refine hset hp (fun _ => rfl) fun _ => ?_
    have hlook : looks worker [.probe w q.queue got] = if q.queue = worker then 1 else 0 := by
      by_cases hq : q.queue = worker <;> simp [looks, Beat.ops, Op.looks, hq]
    rw [hlook]
    exact Nat.le_add_right _ _
  | slept hp => exact hset hp (fun _ => rfl) fun _ => by simp [begins, owes]

theorem begins_run (hrun : run (Workers.step ((List.range numWorkers).map
      (WorkStealingQueue.wired numWorkers))) s t = some s') :
    t.countP (begins worker) ≤ looks worker t + owes worker s'.phases[worker]? := by
  refine run_history_of_step (I := fun t s' =>
    t.countP (begins worker) ≤ looks worker t + owes worker s'.phases[worker]?) ?_
    (Nat.zero_le _) hrun
  intro t m b s' h hs
  have hstep : owes worker m.phases[worker]? + (begins worker b).toNat ≤ _ := owes_step hs
  have hone : [b].countP (begins worker) = (begins worker b).toNat := by
    cases hb : begins worker b <;> simp [hb]
  rw [List.countP_append, hone, looks_concat]
  omega

theorem looks_run (hrun : run (Workers.step handles) s t = some s')
    (hq : s.heap[queue]? = some q) :
    min q.items.length (looks queue t) ≤ (on queue (left (t.flatMap Beat.ops))).length := by
  refine (run_history_of_step (I := fun t s' => Ledger s.heap (t.flatMap Beat.ops) s'.heap ∧
    min q.items.length (looks queue t) ≤ (on queue (left (t.flatMap Beat.ops))).length) ?_
    ⟨Ledger.refl _, Nat.min_le_right _ _⟩ hrun).2
  rintro t m b s' ⟨hl, hle⟩ hs
  rw [looks, List.flatMap_append, List.flatMap_singleton]
  cases Workers.step_cases hs with
  | pushed hop | probed _ hop => exact ⟨hl.step hop, hl.looks_step hop hq hle⟩
  | loaded | stopped | slept =>
    simp only [Beat.ops, List.append_nil]
    exact ⟨hl, hle⟩

theorem owes_le_one (worker : ℕ) (phase : Option Phase) : owes worker phase ≤ 1 := by
  unfold owes
  split
  · split_ifs <;> omega
  · exact Nat.zero_le _

end Rounds

/-- No task waits forever while its worker goes on: in any state and whatever the others do, a
worker that begins more rounds than there are tasks in its queue finds all these taken, by
itself or by thieves, in their order and before any that came later. -/
theorem rounds_clear_queue {numWorkers capacity : ℕ} {handles : List WorkStealingQueue}
    {heap : Heap Task}
    (hnew : WorkStealingQueue.new numWorkers capacity [] = some (handles, heap)) (s s' : Workers)
    (t : List Beat) (hrun : run (Workers.step handles) s t = some s') (worker : ℕ)
    (q : Queue Task) (hq : s.heap[worker]? = some q)
    (hrounds : q.items.length < t.countP (begins worker)) :
    q.items <+: on worker (left (t.flatMap Beat.ops)) := by
  obtain ⟨rfl, -⟩ := WorkStealingQueue.new_eq_some hnew
  have hbegun : t.countP (begins worker) ≤ looks worker t + owes worker s'.phases[worker]? :=
    begins_run hrun
  have howed := owes_le_one worker s'.phases[worker]?
  have hlooks := looks_run hrun hq
  refine (Workers.ledger_run hrun).first_out hq ?_
  omega

/-- Worker 1 has a task of worker 0 before that one comes to it, in the second of its rounds. -/
def stolen : List Beat :=
  [.load 1 true, .probe 1 1 none, .load 0 true, .probe 1 0 (some (.closeConnection 7)),
    .probe 0 0 none, .probe 0 1 none, .sleep 0, .load 0 true]

theorem stolen_cleared : ∃ handles heap s s', WorkStealingQueue.new 2 4 [] = some (handles, heap) ∧
    run (Workers.step handles) (Workers.start 2 heap)
      [.push 0 0 (.closeConnection 7) (.ok ())] = some s ∧
    run (Workers.step handles) s stolen = some s' ∧
    [Task.closeConnection 7] <+: on 0 (left (stolen.flatMap Beat.ops)) := by
  have hnew := WorkStealingQueue.new_eq (show 4 ≠ 0 by decide) 2
  let pushed : Queue Task := ⟨4, [.closeConnection 7], by decide⟩
  have hpush : run (Workers.step ((List.range 2).map (WorkStealingQueue.wired 2)))
      (Workers.start 2 (List.replicate 2 (Queue.empty 4)))
      [.push 0 0 (.closeConnection 7) (.ok ())] =
        some ⟨[pushed, Queue.empty 4], [.top, .top]⟩ := rfl
  exact ⟨_, _, _, _, hnew, hpush, rfl, rounds_clear_queue hnew
    ⟨[pushed, Queue.empty 4], [.top, .top]⟩ _ stolen rfl 0 pushed rfl (by decide)⟩

end KernelEngine.Waiting
