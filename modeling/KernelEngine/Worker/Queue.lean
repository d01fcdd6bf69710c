import KernelEngine.Lib.Fifo
import KernelEngine.Rust.Text

namespace KernelEngine.Worker
open Rust Fifo

/-- The `ArrayQueue`s on the heap. Behind an `Arc` stands a position in it. -/
abbrev Heap (T : Type) := List (Queue T)

/-- A handle to a queue; its clones are handles to the same one. -/
structure LockFreeQueue (T : Type) where
  queue : ℕ
  deriving DecidableEq

namespace LockFreeQueue

variable {T : Type}

/-- `ArrayQueue::new` panics when the capacity is zero. -/
def new (capacity : ℕ) (heap : Heap T) : Option (LockFreeQueue T × Heap T) :=
  if capacity = 0 then none else some (⟨heap.length⟩, heap ++ [Queue.empty capacity])

def push (q : LockFreeQueue T) (item : T) (heap : Heap T) : Option (Except T Unit × Heap T) :=
  heap[q.queue]?.map fun a => match a.push item with
    | .ok a => (.ok (), heap.set q.queue a)
    | .error item => (.error item, heap)

def pop (q : LockFreeQueue T) (heap : Heap T) : Option (Option T × Heap T) :=
  heap[q.queue]?.map fun a => match a.pop with
    | some (item, a) => (some item, heap.set q.queue a)
    | none => (none, heap)

def isEmpty (q : LockFreeQueue T) (heap : Heap T) : Option Bool :=
  heap[q.queue]?.map fun a => a.items.isEmpty

def isFull (q : LockFreeQueue T) (heap : Heap T) : Option Bool :=
  heap[q.queue]?.map fun a => a.items.length == a.capacity

def len (q : LockFreeQueue T) (heap : Heap T) : Option ℕ :=
  heap[q.queue]?.map fun a => a.items.length

def capacity (q : LockFreeQueue T) (heap : Heap T) : Option ℕ :=
  heap[q.queue]?.map fun a => a.capacity

def clone (q : LockFreeQueue T) : LockFreeQueue T := ⟨q.queue⟩

variable {q : LockFreeQueue T} {item : T} {heap heap' : Heap T}

theorem push_step {result : Except T Unit} (h : q.push item heap = some (result, heap')) :
    Fifo.Step heap (.push q.queue item result) heap' := by
  obtain ⟨a, ha, hr⟩ := Option.map_eq_some_iff.mp h
  split at hr
  case h_1 a' hpush =>
    obtain ⟨rfl, rfl⟩ := Prod.mk.inj hr
    exact .pushed ha hpush
  case h_2 item' hpush =>
    obtain ⟨rfl, rfl⟩ := Prod.mk.inj hr
    obtain ⟨rfl, -⟩ := Queue.push_error hpush
    exact .full ha hpush

theorem pop_step {got : Option T} (h : q.pop heap = some (got, heap')) :
    Fifo.Step heap (.pop q.queue got) heap' := by
  obtain ⟨a, ha, hr⟩ := Option.map_eq_some_iff.mp h
  split at hr
  case h_1 item a' hpop =>
    obtain ⟨rfl, rfl⟩ := Prod.mk.inj hr
    exact .popped ha hpop
  case h_2 hpop =>
    obtain ⟨rfl, rfl⟩ := Prod.mk.inj hr
    exact .missed ha hpop

end LockFreeQueue

inductive Task where
  | newConnection (fd : Int32)
  | processRequest (fd : Int32) (data : Bytes)
  | sendResponse (fd : Int32) (response : Bytes)
  | closeConnection (fd : Int32)
  | shutdown
  deriving DecidableEq

structure WorkStealingQueue where
  localQueue : LockFreeQueue Task
  sharedQueues : List (LockFreeQueue Task)

namespace WorkStealingQueue

/-- The first loop of `new`: one queue after the other. -/
def allocate (capacity : ℕ) : ℕ → Heap Task → Option (List (LockFreeQueue Task) × Heap Task)
  | 0, heap => some ([], heap)
  | numWorkers + 1, heap => do
    let (queue, heap) ← LockFreeQueue.new capacity heap
    let (allQueues, heap) ← allocate capacity numWorkers heap
    some (queue :: allQueues, heap)

/-- The second loop of `new`, for worker `i`. -/
def handle (allQueues : List (LockFreeQueue Task)) (i : ℕ) : Option WorkStealingQueue := do
  let queue ← allQueues[i]?
  some {
    localQueue := queue.clone
    sharedQueues := (allQueues.zipIdx.filter (i ≠ ·.2)).map (·.1.clone) }

def new (numWorkers capacity : ℕ) (heap : Heap Task) :
    Option (List WorkStealingQueue × Heap Task) := do
  let (allQueues, heap) ← allocate capacity numWorkers heap
  let queues ← (List.range numWorkers).mapM (handle allQueues)
  some (queues, heap)

def push (w : WorkStealingQueue) (task : Task) (heap : Heap Task) :
    Option (Except Task Unit × Heap Task) :=
  w.localQueue.push task heap

/-- The loop of `pop` over queues, up to the first that has a task. -/
def steal : List (LockFreeQueue Task) → Heap Task → Option (Option Task × Heap Task)
  | [], heap => some (none, heap)
  | queue :: rest, heap => do
    match ← queue.pop heap with
    | (some task, heap) => some (some task, heap)
    | (none, heap) => steal rest heap

def pop (w : WorkStealingQueue) (heap : Heap Task) : Option (Option Task × Heap Task) := do
  match ← w.localQueue.pop heap with
  | (some task, heap) => some (some task, heap)
  | (none, heap) => steal w.sharedQueues heap

def «local» (w : WorkStealingQueue) : LockFreeQueue Task := w.localQueue

/-- The queues `pop` probes, in its order. -/
def probes (w : WorkStealingQueue) : List (LockFreeQueue Task) := w.localQueue :: w.sharedQueues

theorem pop_eq_steal (w : WorkStealingQueue) (heap : Heap Task) :
    w.pop heap = steal w.probes heap := rfl

/-- Without interference `pop` finds a task in the first of its queues that has one. -/
theorem steal_spec {probes : List (LockFreeQueue Task)} {heap : Heap Task}
    (h : ∀ q ∈ probes, q.queue < heap.length) : ∃ got heap', steal probes heap = some (got, heap') ∧
      (got = none ↔ ∀ q ∈ probes, ∀ a, heap[q.queue]? = some a → a.items = []) := by
  induction probes with
  | nil => exact ⟨none, heap, rfl, by simp⟩
  | cons q rest ih =>
    obtain ⟨hq, hrest⟩ := List.forall_mem_cons.mp h
    have hget : heap[q.queue]? = some heap[q.queue] := List.getElem?_eq_getElem hq
    cases hpop : heap[q.queue].pop with
    | none =>
      have hmiss : q.pop heap = some (none, heap) := by
        simp only [LockFreeQueue.pop, hget, Option.map_some, hpop]
      obtain ⟨got, heap', hsteal, hiff⟩ := ih hrest
      refine ⟨got, heap', ?_, ?_⟩
      · simp only [steal, hmiss, Option.bind_eq_bind, Option.bind_some, hsteal]
      · rw [List.forall_mem_cons, hget, hiff]
        simp [Queue.pop_none hpop]
    | some found =>
      have hfound : q.pop heap = some (some found.1, heap.set q.queue found.2) := by
        simp only [LockFreeQueue.pop, hget, Option.map_some, hpop]
      refine ⟨some found.1, heap.set q.queue found.2, ?_, ?_⟩
      · simp only [steal, hfound, Option.bind_eq_bind, Option.bind_some]
      · have hitems := (Queue.pop_some hpop).2
        simp [hget, hitems]

theorem allocate_eq {capacity : ℕ} (hcap : capacity ≠ 0) (numWorkers : ℕ) (heap : Heap Task) :
    allocate capacity numWorkers heap =
      some ((List.range' heap.length numWorkers).map LockFreeQueue.mk,
        heap ++ List.replicate numWorkers (Queue.empty capacity)) := by
  induction numWorkers generalizing heap with
  | zero => simp [allocate]
  | succ numWorkers ih =>
    simp only [allocate, LockFreeQueue.new, if_neg hcap, ih, Option.bind_eq_bind,
      Option.bind_some]
    simp [List.range'_succ, List.replicate_succ]

/-- What `new` builds: worker `i` owns queue `i`, and every other queue is in its list. -/
def wired (numWorkers i : ℕ) : WorkStealingQueue where
  localQueue := ⟨i⟩
  sharedQueues := ((List.range numWorkers).filter (i ≠ ·)).map LockFreeQueue.mk

theorem zipIdx_range_map (numWorkers : ℕ) :
    ((List.range numWorkers).map LockFreeQueue.mk).zipIdx =
      (List.range numWorkers).map fun j => ((⟨j⟩ : LockFreeQueue Task), j) := by
  refine List.ext_getElem (by simp) fun j h _ => ?_
  simp

theorem handle_eq {numWorkers i : ℕ} (hi : i < numWorkers) :
    handle ((List.range numWorkers).map LockFreeQueue.mk) i = some (wired numWorkers i) := by
  have hlocal : ((List.range numWorkers).map (LockFreeQueue.mk (T := Task)))[i]? = some ⟨i⟩ := by
    simp [hi]
  simp only [handle, hlocal, zipIdx_range_map, List.filter_map, List.map_map, Option.bind_eq_bind,
    Option.bind_some]
  rfl

theorem mapM_eq_some {α β : Type} {f : α → Option β} {g : α → β} {l : List α}
    (h : ∀ a ∈ l, f a = some (g a)) : l.mapM f = some (l.map g) := by
  induction l with
  | nil => rfl
  | cons a l ih =>
    rw [List.mapM_cons, h a (by simp), ih fun b hb => h b (List.mem_cons_of_mem _ hb)]
    rfl

theorem new_eq {capacity : ℕ} (hcap : capacity ≠ 0) (numWorkers : ℕ) :
    new numWorkers capacity [] =
      some ((List.range numWorkers).map (wired numWorkers),
        List.replicate numWorkers (Queue.empty capacity)) := by
  have halloc := allocate_eq hcap numWorkers []
  rw [List.length_nil, ← List.range_eq_range', List.nil_append] at halloc
  simp only [new, halloc, mapM_eq_some fun i hi => handle_eq (List.mem_range.mp hi),
    Option.bind_eq_bind, Option.bind_some]

/-- Each `pop` probes every queue exactly once. -/
theorem probes_wired {numWorkers i : ℕ} (hi : i < numWorkers) :
    (wired numWorkers i).probes.Perm ((List.range numWorkers).map LockFreeQueue.mk) := by
  have herase : (List.range numWorkers).filter (i ≠ ·) = (List.range numWorkers).erase i := by
    rw [List.nodup_range.erase_eq_filter]
    refine List.filter_congr fun j _ => ?_
    by_cases hij : i = j
    · simp [hij]
    · simp [hij, Ne.symm hij]
  have hperm := List.perm_cons_erase (List.mem_range.mpr hi)
  rw [← herase] at hperm
  exact (hperm.map LockFreeQueue.mk).symm

/-- `new` hands out wired handles over empty queues of the given capacity. -/
theorem new_eq_some {numWorkers capacity : ℕ} {handles : List WorkStealingQueue}
    {heap : Heap Task} (hnew : new numWorkers capacity [] = some (handles, heap)) :
    handles = (List.range numWorkers).map (wired numWorkers) ∧
      heap = List.replicate numWorkers (Queue.empty capacity) := by
  rcases eq_or_ne capacity 0 with rfl | hcap
  · cases numWorkers with
    | zero =>
      obtain ⟨rfl, rfl⟩ := Prod.mk.inj (Option.some.inj hnew)
      exact ⟨rfl, rfl⟩
    | succ => cases hnew
  · rw [new_eq hcap] at hnew
    obtain ⟨rfl, rfl⟩ := Prod.mk.inj (Option.some.inj hnew)
    exact ⟨rfl, rfl⟩

/-- The books of the queues that `new` made. -/
structure Books (numWorkers capacity : ℕ) (ops : List (Op Task)) (heap : Heap Task) : Prop where
  length : heap.length = numWorkers
  inside : ∀ e ∈ entered ops, e.1 < numWorkers
  pooled : ((entered ops).map Prod.snd : Multiset Task) =
    ((left ops).map Prod.snd : List Task) + queued heap
  capacity : ∀ (i : ℕ) (q : Queue Task), heap[i]? = some q → q.capacity = capacity
  order : ∀ (i : ℕ) (q : Queue Task), heap[i]? = some q →
    on i (entered ops) = on i (left ops) ++ q.items

theorem books_of_new {numWorkers capacity : ℕ} {handles : List WorkStealingQueue}
    {heap heap' : Heap Task} {ops : List (Op Task)}
    (hnew : new numWorkers capacity [] = some (handles, heap)) (hl : Ledger heap ops heap') :
    Books numWorkers capacity ops heap' := by
  obtain ⟨-, rfl⟩ := new_eq_some hnew
  have hstart {i : ℕ} {q : Queue Task} (hq : heap'[i]? = some q) :
      (List.replicate numWorkers (Queue.empty capacity : Queue Task))[i]? =
        some (Queue.empty capacity) := by
    obtain ⟨q₀, hq₀⟩ := hl.getElem? hq
    rw [hq₀, List.eq_of_mem_replicate (List.mem_of_getElem? hq₀)]
  have hempty : queued (List.replicate numWorkers (Queue.empty capacity : Queue Task)) = 0 := by
    simp [queued, Queue.empty]
  constructor
  case length => exact hl.length.trans (List.length_replicate ..)
  case inside => simpa only [List.length_replicate] using hl.inside
  case pooled => simpa only [hempty, zero_add] using hl.pooled
  case capacity => exact fun i q hq => hl.capacity i _ q (hstart hq) hq
  case order => exact fun i q hq => hl.order i _ q (hstart hq) hq

end WorkStealingQueue

end KernelEngine.Worker
