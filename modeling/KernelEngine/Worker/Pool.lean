import KernelEngine.Lib.Runs
import KernelEngine.Worker.Queue
import Mathlib.Logic.Function.Basic

namespace KernelEngine.Worker
open Rust Fifo Runs

/-- What threads that share the handles do, one queue operation at a time. A `pop`
is a `call`, then its probes, and `giveUp` where every probe came back empty. -/
inductive Act where
  | push (handle queue : ℕ) (task : Task) (result : Except Task Unit)
  | localPush (handle queue : ℕ) (task : Task) (result : Except Task Unit)
  | call (thread handle : ℕ)
  | probe (thread queue : ℕ) (got : Option Task)
  | giveUp (thread : ℕ)

/-- The queues, and for each `pop` in progress those it has still to probe. -/
structure Pool where
  heap : Heap Task
  calls : ℕ → Option (List (LockFreeQueue Task))

namespace Act

/-- The operations on shared memory a step consists of. -/
def ops : Act → List (Op Task)
  | .push _ queue task result => [.push queue task result]
  | .localPush _ queue task result => [.push queue task result]
  | .probe _ queue got => [.pop queue got]
  | _ => []

/-- A push that hands a task back. -/
def Rejects (task back : Task) : Act → Prop
  | .push _ _ t result => t = task ∧ result = .error back
  | .localPush _ _ t result => t = task ∧ result = .error back
  | _ => False

end Act

namespace Pool

def start (heap : Heap Task) : Pool := ⟨heap, fun _ => none⟩

def step (handles : List WorkStealingQueue) (s : Pool) : Act → Option Pool
  | .push handle queue task result => do
    let w ← handles[handle]?
    let (answer, heap) ← w.push task s.heap
    if w.localQueue.queue = queue ∧ answer = result then some { s with heap := heap } else none
  | .localPush handle queue task result => do
    let w ← handles[handle]?
    let (answer, heap) ← w.local.push task s.heap
    if w.local.queue = queue ∧ answer = result then some { s with heap := heap } else none
  | .call thread handle => do
    let w ← handles[handle]?
    if s.calls thread = none then
      some { s with calls := Function.update s.calls thread (some w.probes) }
    else none
  | .probe thread queue got =>
    match s.calls thread with
    | some (q :: rest) => do
      let (answer, heap) ← q.pop s.heap
      if q.queue = queue ∧ answer = got then
        some ⟨heap, Function.update s.calls thread (if got = none then some rest else none)⟩
      else none
    | _ => none
  | .giveUp thread =>
    if s.calls thread = some [] then
      some { s with calls := Function.update s.calls thread none }
    else none

variable {handles : List WorkStealingQueue} {s s' : Pool} {a : Act}

/-- Everything one step can do. -/
inductive Step (handles : List WorkStealingQueue) (s : Pool) : Act → Pool → Prop
  | pushed {handle queue task result heap}
      (hop : Fifo.Step s.heap (.push queue task result) heap) :
      Step handles s (.push handle queue task result) { s with heap := heap }
  | localPushed {handle queue task result heap}
      (hop : Fifo.Step s.heap (.push queue task result) heap) :
      Step handles s (.localPush handle queue task result) { s with heap := heap }
  | called {thread handle w} (hw : handles[handle]? = some w) (hc : s.calls thread = none) :
      Step handles s (.call thread handle)
        { s with calls := Function.update s.calls thread (some w.probes) }
  | probed {thread q rest got heap} (hc : s.calls thread = some (q :: rest))
      (hop : Fifo.Step s.heap (.pop q.queue got) heap) :
      Step handles s (.probe thread q.queue got)
        ⟨heap, Function.update s.calls thread (if got = none then some rest else none)⟩
  | gaveUp {thread} (hc : s.calls thread = some []) :
      Step handles s (.giveUp thread)
        { s with calls := Function.update s.calls thread none }

theorem step_cases (h : step handles s a = some s') : Step handles s a s' := by
  cases a with
  | push handle queue task result | localPush handle queue task result =>
    simp only [step, Option.bind_eq_bind, Option.bind_eq_some_iff] at h
    obtain ⟨w, -, ⟨answer, heap⟩, hpush, h⟩ := h
    obtain ⟨⟨rfl, rfl⟩, hs⟩ := Option.ite_none_right_eq_some.mp h
    obtain rfl := Option.some.inj hs
    first
    | exact .pushed (LockFreeQueue.push_step hpush)
    | exact .localPushed (LockFreeQueue.push_step hpush)
  | call thread handle =>
    simp only [step, Option.bind_eq_bind, Option.bind_eq_some_iff] at h
    obtain ⟨w, hw, h⟩ := h
    obtain ⟨hc, hs⟩ := Option.ite_none_right_eq_some.mp h
    obtain rfl := Option.some.inj hs
    exact .called hw hc
  | probe thread queue got =>
    unfold step at h
    dsimp only at h
    split at h
    case h_1 q rest hc =>
      simp only [Option.bind_eq_bind, Option.bind_eq_some_iff] at h
      obtain ⟨⟨answer, heap⟩, hpop, h⟩ := h
      obtain ⟨⟨rfl, rfl⟩, hs⟩ := Option.ite_none_right_eq_some.mp h
      obtain rfl := Option.some.inj hs
      exact .probed hc (LockFreeQueue.pop_step hpop)
    case h_2 => cases h
  | giveUp thread =>
    obtain ⟨hc, hs⟩ := Option.ite_none_right_eq_some.mp h
    obtain rfl := Option.some.inj hs
    exact .gaveUp hc

/-- A step is one operation on one queue, or touches none. -/
theorem step_ops (h : step handles s a = some s') :
    (∃ op, a.ops = [op] ∧ Fifo.Step s.heap op s'.heap) ∨ a.ops = [] ∧ s'.heap = s.heap := by
  cases step_cases h with
  | pushed hop | localPushed hop | probed _ hop => exact Or.inl ⟨_, rfl, hop⟩
  | called | gaveUp => exact Or.inr ⟨rfl, rfl⟩

theorem rejects_step {task back : Task} (h : step handles s a = some s')
    (ha : a.Rejects task back) : back = task ∧ s'.heap = s.heap := by
  cases a with
  | push handle queue t result | localPush handle queue t result =>
    obtain ⟨rfl, rfl⟩ := ha
    rcases step_ops h with ⟨op, hop, hstep⟩ | ⟨hop, -⟩
    · obtain rfl := List.singleton_injective hop
      exact hstep.rejected
    · cases hop
  | call | probe | giveUp => exact ha.elim

/-- Every run keeps the books of every queue. -/
theorem ledger_run {t : List Act} (hrun : run (step handles) s t = some s') :
    Ledger s.heap (t.flatMap Act.ops) s'.heap := by
  refine run_history_of_step
    (I := fun t s' => Ledger s.heap (t.flatMap Act.ops) s'.heap) ?_ (Ledger.refl _) hrun
  intro t m a s' hI hs
  rw [List.flatMap_append, List.flatMap_singleton]
  rcases step_ops hs with ⟨op, hop, hstep⟩ | ⟨hop, hheap⟩
  · rw [hop]
    exact hI.step hstep
  · rw [hop, List.append_nil, hheap]
    exact hI

theorem step_call {thread handle : ℕ} {w : WorkStealingQueue} (hw : handles[handle]? = some w)
    (hc : s.calls thread = none) : step handles s (.call thread handle) =
      some { s with calls := Function.update s.calls thread (some w.probes) } := by
  simp [step, hw, hc]

theorem step_probe {thread : ℕ} {q : LockFreeQueue Task} {rest : List (LockFreeQueue Task)}
    {got : Option Task} {heap : Heap Task} (hc : s.calls thread = some (q :: rest))
    (hpop : q.pop s.heap = some (got, heap)) : step handles s (.probe thread q.queue got) =
      some ⟨heap, Function.update s.calls thread (if got = none then some rest else none)⟩ := by
  simp [step, hc, hpop]

/-- What `pop` computes is what its probes do when nothing comes between them. -/
theorem steal_run {thread : ℕ} {probes : List (LockFreeQueue Task)} {got : Option Task}
    {heap : Heap Task} (hc : s.calls thread = some probes)
    (h : WorkStealingQueue.steal probes s.heap = some (got, heap)) :
    ∃ t, run (step handles) s t = some ⟨heap, Function.update s.calls thread none⟩ ∧
      (left (t.flatMap Act.ops)).map Prod.snd = got.toList := by
  induction probes generalizing s with
  | nil =>
    obtain ⟨rfl, rfl⟩ := Prod.mk.inj (Option.some.inj h)
    refine ⟨[.giveUp thread], ?_, rfl⟩
    exact run_cons_iff.mpr ⟨_, if_pos hc, rfl⟩
  | cons q rest ih =>
    simp only [WorkStealingQueue.steal, Option.bind_eq_bind, Option.bind_eq_some_iff] at h
    obtain ⟨⟨answer, heap'⟩, hpop, h⟩ := h
    cases answer with
    | some task =>
      obtain ⟨rfl, rfl⟩ := Prod.mk.inj (Option.some.inj h)
      exact ⟨[.probe thread q.queue (some task)],
        run_cons_iff.mpr ⟨_, step_probe hc hpop, rfl⟩, rfl⟩
    | none =>
      obtain ⟨t, ht, hleft⟩ := ih (s := ⟨heap', Function.update s.calls thread (some rest)⟩)
        (Function.update_self ..) h
      rw [Function.update_idem] at ht
      exact ⟨.probe thread q.queue none :: t,
        run_cons_iff.mpr ⟨_, step_probe hc hpop, ht⟩, hleft⟩

theorem pop_run {thread handle : ℕ} {w : WorkStealingQueue} {got : Option Task}
    {heap : Heap Task} (hw : handles[handle]? = some w) (hc : s.calls thread = none)
    (h : w.pop s.heap = some (got, heap)) :
    ∃ t, run (step handles) s (.call thread handle :: t) = some ⟨heap, s.calls⟩ ∧
      (left (t.flatMap Act.ops)).map Prod.snd = got.toList := by
  rw [WorkStealingQueue.pop_eq_steal] at h
  obtain ⟨t, ht, hleft⟩ : ∃ t, run (step handles)
      { s with calls := Function.update s.calls thread (some w.probes) } t = _ ∧ _ :=
    steal_run (Function.update_self ..) h
  refine ⟨t, run_cons_iff.mpr ⟨_, step_call hw hc, ?_⟩, hleft⟩
  rw [Function.update_idem, ← hc, Function.update_eq_self] at ht
  exact ht

end Pool

end KernelEngine.Worker
