import KernelEngine.Worker.Pool

namespace KernelEngine.Conservation
open Rust Worker Fifo Runs

/-- The tasks `push` accepted in a trace, and those `pop` returned. -/
def pushed (t : List Act) : Multiset Task := (entered (t.flatMap Act.ops)).map Prod.snd

def popped (t : List Act) : Multiset Task := (left (t.flatMap Act.ops)).map Prod.snd

/-- The same for one queue, in the order they went in and came out. -/
def pushedTo (queue : ℕ) (t : List Act) : List Task := on queue (entered (t.flatMap Act.ops))

def poppedFrom (queue : ℕ) (t : List Act) : List Task := on queue (left (t.flatMap Act.ops))

variable {numWorkers capacity : ℕ} {handles : List WorkStealingQueue} {heap : Heap Task}

/-- In every interleaving of pushes and probes on the handles of `new`, what was
accepted was returned or is queued, in the order of its queue; no queue exceeds its
capacity, and a rejected push changes nothing. -/
theorem tasks_conserved
    (hnew : WorkStealingQueue.new numWorkers capacity [] = some (handles, heap))
    (t : List Act) (s : Pool) (hrun : run (Pool.step handles) (Pool.start heap) t = some s) :
    pushed t = popped t + queued s.heap ∧
    (∀ q ∈ s.heap, q.items.length ≤ capacity) ∧
    (∀ a s' task back, Pool.step handles s a = some s' → a.Rejects task back →
      back = task ∧ s'.heap = s.heap) ∧
    ∀ i q, s.heap[i]? = some q → pushedTo i t = poppedFrom i t ++ q.items := by
  have hb := WorkStealingQueue.books_of_new hnew (Pool.ledger_run hrun)
  refine ⟨hb.pooled, ?_, fun a s' task back => Pool.rejects_step, hb.order⟩
  intro q hq
  obtain ⟨i, hi⟩ := List.mem_iff_getElem?.mp hq
  exact q.bounded.trans (hb.capacity i q hi).le

/-- Worker 1 takes the task of worker 0, whose queue of one was full. -/
def theft : List Act :=
  [.push 0 0 .shutdown (.ok ()), .localPush 0 0 (.closeConnection 7)
    (.error (.closeConnection 7)), .call 5 1, .probe 5 1 none, .probe 5 0 (some .shutdown)]

theorem theft_conserved :
    ∃ handles heap s, WorkStealingQueue.new 2 1 [] = some (handles, heap) ∧
      run (Pool.step handles) (Pool.start heap) theft = some s ∧
      pushed theft = popped theft + queued s.heap := by
  have hnew := WorkStealingQueue.new_eq (show 1 ≠ 0 by decide) 2
  exact ⟨_, _, _, hnew, rfl, (tasks_conserved hnew theft _ rfl).1⟩

end KernelEngine.Conservation
