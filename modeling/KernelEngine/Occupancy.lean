import KernelEngine.Conservation

namespace KernelEngine.Occupancy
open Rust Worker Fifo Runs Conservation

/-- What an operation on queue `i` is told, given the tasks the queue has accepted so far and
those that were taken from it. -/
def Told (capacity i : ℕ) (accepted taken : List Task) : Op Task → Prop
  | .push j task result => j = i →
      result = if accepted.length < taken.length + capacity then .ok () else .error task
  | .pop j got => j = i → got = accepted[taken.length]?

section Books

variable {numWorkers capacity i : ℕ} {handles : List WorkStealingQueue} {heap : Heap Task}
  {s s' : Pool} {t : List Act} {a : Act} {q : Queue Task}

/-- What the history of a queue has left is what it holds. -/
theorem items_left (hb : WorkStealingQueue.Books numWorkers capacity (t.flatMap Act.ops) s.heap)
    (hq : s.heap[i]? = some q) :
    pushedTo i t = poppedFrom i t ++ q.items ∧ q.capacity = capacity :=
  ⟨hb.order i q hq, hb.capacity i q hq⟩

theorem told_step (hb : WorkStealingQueue.Books numWorkers capacity (t.flatMap Act.ops) s.heap)
    (hs : Pool.step handles s a = some s') :
    ∀ op ∈ a.ops, Told capacity i (pushedTo i t) (poppedFrom i t) op := by
  obtain ⟨op, hop, hstep⟩ | ⟨hnone, -⟩ := Pool.step_ops hs
  · rw [hop]
    refine List.forall_mem_singleton.mpr ?_
    cases op with
    | push j task result =>
      rintro rfl
      obtain ⟨q, hq, rfl⟩ := hstep.told_push
      obtain ⟨horder, hcap⟩ := items_left hb hq
      rw [horder, hcap]
      simp only [List.length_append, Nat.add_lt_add_iff_left]
    | pop j got =>
      rintro rfl
      obtain ⟨q, hq, rfl⟩ := hstep.told_pop
      obtain ⟨horder, -⟩ := items_left hb hq
      rw [horder, List.getElem?_append_right (Nat.le_refl _), Nat.sub_self, List.head?_eq_getElem?]
  · rw [hnone]
    exact fun op hop => absurd hop List.not_mem_nil

end Books

/-- In every interleaving each queue tells its history. Its length is the number of tasks it
has accepted and nobody has taken, it is empty when there are none and full when there are
as many as its capacity; only a full queue rejects a push, and what a probe finds is the
next of the tasks in the order they were accepted, or nothing when all are taken. -/
theorem queues_tell_history {numWorkers capacity : ℕ} {handles : List WorkStealingQueue}
    {heap : Heap Task}
    (hnew : WorkStealingQueue.new numWorkers capacity [] = some (handles, heap))
    (t : List Act) (s : Pool) (hrun : run (Pool.step handles) (Pool.start heap) t = some s)
    (i : ℕ) (hi : i < numWorkers) :
    let q : LockFreeQueue Task := ⟨i⟩
    let accepted := pushedTo i t
    let taken := poppedFrom i t
    taken <+: accepted ∧ q.len s.heap = some (accepted.length - taken.length) ∧
      q.capacity s.heap = some capacity ∧
      q.isEmpty s.heap = some (decide (taken.length = accepted.length)) ∧
      q.isFull s.heap = some (decide (accepted.length = taken.length + capacity)) ∧
      ∀ a s', Pool.step handles s a = some s' →
        ∀ op ∈ a.ops, Told capacity i accepted taken op := by
  have hb := WorkStealingQueue.books_of_new hnew (Pool.ledger_run hrun)
  obtain ⟨a, hq⟩ : ∃ a, s.heap[i]? = some a :=
    ⟨_, List.getElem?_eq_getElem (hb.length ▸ hi : i < s.heap.length)⟩
  obtain ⟨horder, hcap⟩ := items_left hb hq
  dsimp only
  have hlength : (pushedTo i t).length = (poppedFrom i t).length + a.items.length := by
    rw [horder, List.length_append]
  refine ⟨⟨_, horder.symm⟩, ?_, ?_, ?_, ?_, fun a s' => told_step hb⟩
  · rw [LockFreeQueue.len, hq, Option.map_some, hlength, Nat.add_sub_cancel_left]
  · rw [LockFreeQueue.capacity, hq, Option.map_some, hcap]
  · rw [LockFreeQueue.isEmpty, hq, Option.map_some, hlength]
    congr 1
    rw [Bool.eq_iff_iff, List.isEmpty_iff_length_eq_zero, decide_eq_true_iff]
    omega
  · rw [LockFreeQueue.isFull, hq, Option.map_some, hlength, hcap]
    congr 1
    rw [Bool.eq_iff_iff, beq_iff_eq, decide_eq_true_iff]
    omega

/-- The queue of worker 0 is empty again when its task is stolen. -/
theorem theft_told : ∃ handles heap s, WorkStealingQueue.new 2 1 [] = some (handles, heap) ∧
    run (Pool.step handles) (Pool.start heap) theft = some s ∧
    (⟨0⟩ : LockFreeQueue Task).len s.heap = some 0 ∧
    (⟨0⟩ : LockFreeQueue Task).isFull s.heap = some false := by
  have hnew := WorkStealingQueue.new_eq (show 1 ≠ 0 by decide) 2
  obtain ⟨-, hlen, -, -, hfull, -⟩ := queues_tell_history hnew theft _ rfl 0 (by decide)
  exact ⟨_, _, _, hnew, rfl, hlen, hfull⟩

end KernelEngine.Occupancy
