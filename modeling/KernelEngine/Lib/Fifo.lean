import Mathlib.Algebra.BigOperators.Group.Finset.Piecewise
import Mathlib.Algebra.Order.Group.Multiset

namespace KernelEngine.Fifo

variable {α : Type*}

/-- A first-in first-out queue that never holds more than its capacity. -/
structure Queue (α : Type*) where
  capacity : ℕ
  items : List α
  bounded : items.length ≤ capacity

namespace Queue

def empty (capacity : ℕ) : Queue α := ⟨capacity, [], Nat.zero_le _⟩

/-- A full queue gives the item back. -/
def push (q : Queue α) (a : α) : Except α (Queue α) :=
  if h : q.items.length < q.capacity then
    .ok ⟨q.capacity, q.items ++ [a], by rw [List.length_append]; exact h⟩
  else .error a

def pop (q : Queue α) : Option (α × Queue α) :=
  match h : q.items with
  | [] => none
  | a :: rest => some (a, ⟨q.capacity, rest, by
      have hle := q.bounded
      rw [h, List.length_cons] at hle
      omega⟩)

theorem push_ok {q q' : Queue α} {a : α} (h : q.push a = .ok q') :
    q'.capacity = q.capacity ∧ q'.items = q.items ++ [a] := by
  unfold push at h
  split_ifs at h
  obtain rfl := Except.ok.inj h
  exact ⟨rfl, rfl⟩

theorem push_error {q : Queue α} {a b : α} (h : q.push a = .error b) :
    b = a ∧ q.items.length = q.capacity := by
  unfold push at h
  split_ifs at h with hlt
  exact ⟨(Except.error.inj h).symm, le_antisymm q.bounded (not_lt.mp hlt)⟩

theorem pop_some {q q' : Queue α} {a : α} (h : q.pop = some (a, q')) :
    q'.capacity = q.capacity ∧ q.items = a :: q'.items := by
  unfold pop at h
  split at h
  · cases h
  · obtain ⟨rfl, rfl⟩ := Prod.mk.inj (Option.some.inj h)
    exact ⟨rfl, by assumption⟩

theorem pop_none {q : Queue α} (h : q.pop = none) : q.items = [] := by
  unfold pop at h
  split at h
  · assumption
  · cases h

end Queue

/-- One atomic operation on a family of shared queues, with its answer. -/
inductive Op (α : Type*) where
  | push (i : ℕ) (a : α) (result : Except α Unit)
  | pop (i : ℕ) (got : Option α)

namespace Op

/-- What an operation put in, with the queue it went to. -/
def entered : Op α → List (ℕ × α)
  | .push i a (.ok _) => [(i, a)]
  | _ => []

/-- What an operation took out, with the queue it came from. -/
def left : Op α → List (ℕ × α)
  | .pop i (some a) => [(i, a)]
  | _ => []

end Op

/-- The part of a log that concerns one queue. -/
def on (i : ℕ) (log : List (ℕ × α)) : List α := (log.filter (·.1 = i)).map Prod.snd

@[simp] theorem on_nil (i : ℕ) : on i ([] : List (ℕ × α)) = [] := rfl

@[simp] theorem on_append (i : ℕ) (log log' : List (ℕ × α)) :
    on i (log ++ log') = on i log ++ on i log' := by
  simp [on]

theorem on_single_self (i : ℕ) (a : α) : on i [(i, a)] = [a] := by simp [on]

theorem on_single_of_ne {i j : ℕ} (hne : j ≠ i) (a : α) : on i [(j, a)] = [] := by
  simp [on, hne]

theorem on_map {β : Type*} (f : α → β) (i : ℕ) (log : List (ℕ × α)) :
    on i (log.map fun e => (e.1, f e.2)) = (on i log).map f := by
  simp [on, List.filter_map, Function.comp_def]

/-- A log over the first `n` queues is counted queue by queue. -/
theorem count_eq_sum_on [DecidableEq α] {n : ℕ} {log : List (ℕ × α)}
    (hlog : ∀ e ∈ log, e.1 < n) (a : α) :
    (log.map Prod.snd).count a = ∑ i ∈ Finset.range n, (on i log).count a := by
  induction log with
  | nil => simp
  | cons e log ih =>
    obtain ⟨j, b⟩ := e
    have hj : j ∈ Finset.range n := Finset.mem_range.mpr (hlog (j, b) (by simp))
    have hon (i : ℕ) : (on i ((j, b) :: log)).count a =
        (on i log).count a + if j = i then [b].count a else 0 := by
      by_cases hij : j = i <;> simp [on, hij, List.count_cons]
    simp only [hon, Finset.sum_add_distrib, Finset.sum_ite_eq, if_pos hj,
      ← ih fun e he => hlog e (List.mem_cons_of_mem _ he)]
    simp [List.count_cons]

def entered (ops : List (Op α)) : List (ℕ × α) := ops.flatMap Op.entered

def left (ops : List (Op α)) : List (ℕ × α) := ops.flatMap Op.left

/-- Everything the queues hold. -/
def queued (h : List (Queue α)) : Multiset α := (h.map fun q => (q.items : Multiset α)).sum

theorem queued_set {h : List (Queue α)} {i : ℕ} {q : Queue α} (hq : h[i]? = some q)
    (q' : Queue α) : queued (h.set i q') + q.items = queued h + q'.items := by
  induction h generalizing i with
  | nil => simp at hq
  | cons p h ih =>
    cases i with
    | zero =>
      obtain rfl : p = q := by simpa using hq
      simp only [queued, List.set_cons_zero, List.map_cons, List.sum_cons]
      rw [add_right_comm, add_comm (q'.items : Multiset α), add_right_comm]
    | succ i =>
      have hset := ih (i := i) (by simpa using hq)
      simp only [queued, List.set_cons_succ, List.map_cons, List.sum_cons] at hset ⊢
      rw [add_assoc, hset, add_assoc]

theorem mem_queued {h : List (Queue α)} {q : Queue α} (hq : q ∈ h) {a : α} (ha : a ∈ q.items) :
    a ∈ queued h := by
  induction h with
  | nil => cases hq
  | cons p h ih =>
    rw [queued, List.map_cons, List.sum_cons, Multiset.mem_add]
    rcases List.mem_cons.mp hq with rfl | hq
    · exact Or.inl ha
    · exact Or.inr (ih hq)

/-- Everything an atomic operation can do to the queues. -/
inductive Step (h : List (Queue α)) : Op α → List (Queue α) → Prop
  | pushed {i q q' a} (hq : h[i]? = some q) (hpush : q.push a = .ok q') :
      Step h (.push i a (.ok ())) (h.set i q')
  | full {i q a} (hq : h[i]? = some q) (hpush : q.push a = .error a) :
      Step h (.push i a (.error a)) h
  | popped {i q q' a} (hq : h[i]? = some q) (hpop : q.pop = some (a, q')) :
      Step h (.pop i (some a)) (h.set i q')
  | missed {i q} (hq : h[i]? = some q) (hpop : q.pop = none) : Step h (.pop i none) h

/-- Between two states of the queues with the given operations in between nothing is
lost, made up or reordered. -/
structure Ledger (h₀ : List (Queue α)) (ops : List (Op α)) (h : List (Queue α)) : Prop where
  length : h.length = h₀.length
  inside : ∀ e ∈ entered ops, e.1 < h₀.length
  capacity : ∀ (i : ℕ) (q₀ q : Queue α), h₀[i]? = some q₀ → h[i]? = some q →
    q.capacity = q₀.capacity
  order : ∀ (i : ℕ) (q₀ q : Queue α), h₀[i]? = some q₀ → h[i]? = some q →
    q₀.items ++ on i (entered ops) = on i (left ops) ++ q.items
  pooled : queued h₀ + ((entered ops).map Prod.snd : List α) =
    ((left ops).map Prod.snd : List α) + queued h

section Ledger

variable {h₀ h h' : List (Queue α)} {ops : List (Op α)} {op : Op α}

theorem Ledger.refl (h : List (Queue α)) : Ledger h [] h where
  length := rfl
  inside := by
    intro e he
    cases he
  capacity := by
    intro i q₀ q hq₀ hq
    rw [Option.some.inj (hq.symm.trans hq₀)]
  order := by
    intro i q₀ q hq₀ hq
    rw [Option.some.inj (hq.symm.trans hq₀)]
    simp [entered, left]
  pooled := by simp [entered, left]

@[simp] theorem entered_append (ops ops' : List (Op α)) :
    entered (ops ++ ops') = entered ops ++ entered ops' := List.flatMap_append

@[simp] theorem left_append (ops ops' : List (Op α)) :
    left (ops ++ ops') = left ops ++ left ops' := List.flatMap_append

theorem entered_singleton (op : Op α) : entered [op] = op.entered := List.flatMap_singleton ..

theorem left_singleton (op : Op α) : left [op] = op.left := List.flatMap_singleton ..

/-- The same for one operation, queue by queue. -/
theorem Step.queue (hs : Step h op h') {i : ℕ} {q' : Queue α} (hq' : h'[i]? = some q') :
    ∃ q, h[i]? = some q ∧ q'.capacity = q.capacity ∧
      q.items ++ on i op.entered = on i op.left ++ q'.items := by
  cases hs with
  | @pushed j q p a hq hpush =>
    obtain ⟨hcap, hitems⟩ := Queue.push_ok hpush
    rw [List.getElem?_set] at hq'
    -- either this is the queue that was pushed to, or it stays as it was
    split_ifs at hq' with hij hlen
    · obtain rfl := Option.some.inj hq'
      subst hij
      refine ⟨q, hq, hcap, ?_⟩
      simp only [Op.entered, Op.left, on_single_self, on_nil, hitems, List.nil_append]
    · refine ⟨q', hq', rfl, ?_⟩
      simp only [Op.entered, Op.left, on_single_of_ne hij, on_nil, List.append_nil,
        List.nil_append]
  | @popped j q p a hq hpop =>
    obtain ⟨hcap, hitems⟩ := Queue.pop_some hpop
    rw [List.getElem?_set] at hq'
    split_ifs at hq' with hij hlen
    · obtain rfl := Option.some.inj hq'
      subst hij
      refine ⟨q, hq, hcap, ?_⟩
      simp only [Op.entered, Op.left, on_single_self, on_nil, hitems, List.append_nil,
        List.singleton_append]
    · refine ⟨q', hq', rfl, ?_⟩
      simp only [Op.entered, Op.left, on_single_of_ne hij, on_nil, List.append_nil,
        List.nil_append]
  | full | missed => exact ⟨q', hq', rfl, by simp [Op.entered, Op.left]⟩

/-- A rejected item comes back as it was, and no queue changes. -/
theorem Step.rejected {i : ℕ} {a b : α} (hs : Step h (.push i a (.error b)) h') :
    b = a ∧ h' = h := by
  cases hs with
  | full => exact ⟨rfl, rfl⟩

/-- A push is told whether there was room. -/
theorem Step.told_push {i : ℕ} {a : α} {result : Except α Unit}
    (hs : Step h (.push i a result) h') : ∃ q, h[i]? = some q ∧
      result = if q.items.length < q.capacity then .ok () else .error a := by
  cases hs with
  | @pushed _ q q' _ hq hpush =>
    have hroom : q.items.length < q.capacity := by
      obtain ⟨hcap, hitems⟩ := Queue.push_ok hpush
      have hbounded := q'.bounded
      rw [hcap, hitems, List.length_append, List.length_singleton] at hbounded
      omega
    exact ⟨q, hq, (if_pos hroom).symm⟩
  | @full _ q _ hq hpush =>
    have hnone := (Queue.push_error hpush).2
    exact ⟨q, hq, (if_neg (Nat.not_lt.mpr hnone.ge)).symm⟩

/-- A pop is told what is at the head. -/
theorem Step.told_pop {i : ℕ} {got : Option α} (hs : Step h (.pop i got) h') :
    ∃ q, h[i]? = some q ∧ got = q.items.head? := by
  cases hs with
  | popped hq hpop => exact ⟨_, hq, by rw [(Queue.pop_some hpop).2, List.head?_cons]⟩
  | missed hq hpop => exact ⟨_, hq, by rw [Queue.pop_none hpop, List.head?_nil]⟩

theorem Step.inside {e : ℕ × α} (hs : Step h op h') (he : e ∈ op.entered) : e.1 < h.length := by
  cases hs with
  | pushed hq =>
    obtain rfl := List.mem_singleton.mp he
    exact (List.getElem?_eq_some_iff.mp hq).1
  | full | popped | missed => cases he

theorem Step.length (hs : Step h op h') : h'.length = h.length := by
  cases hs with
  | pushed | popped => exact List.length_set
  | full | missed => rfl

theorem Step.pooled (hs : Step h op h') :
    queued h + (op.entered.map Prod.snd : List α) =
      (op.left.map Prod.snd : List α) + queued h' := by
  cases hs with
  | @pushed j q p a hq hpush =>
    have hset := queued_set hq p
    rw [(Queue.push_ok hpush).2, ← Multiset.coe_add, ← add_assoc, add_right_comm] at hset
    simpa [Op.entered, Op.left] using (add_right_cancel hset).symm
  | @popped j q p a hq hpop =>
    have hset := queued_set hq p
    rw [(Queue.pop_some hpop).2, ← Multiset.cons_coe, ← Multiset.singleton_add, ← add_assoc] at hset
    have hcancel := add_right_cancel hset
    simp only [Op.entered, Op.left, List.map_nil, List.map_cons, Multiset.coe_nil, add_zero,
      Multiset.coe_singleton]
    rw [← hcancel, add_comm]
  | full | missed => simp [Op.entered, Op.left]

theorem Ledger.step (hl : Ledger h₀ ops h) (hs : Step h op h') : Ledger h₀ (ops ++ [op]) h' where
  length := hs.length.trans hl.length
  inside := by
    intro e he
    rw [entered_append, entered_singleton] at he
    rcases List.mem_append.mp he with he | he
    · exact hl.inside e he
    · exact hl.length ▸ hs.inside he
  capacity := by
    intro i q₀ q' hq₀ hq'
    obtain ⟨q, hq, hcap, -⟩ := hs.queue hq'
    exact hcap.trans (hl.capacity i q₀ q hq₀ hq)
  order := by
    intro i q₀ q' hq₀ hq'
    obtain ⟨q, hq, -, horder⟩ := hs.queue hq'
    rw [entered_append, left_append, entered_singleton, left_singleton, on_append, on_append,
      ← List.append_assoc, hl.order i q₀ q hq₀ hq, List.append_assoc, horder, List.append_assoc]
  pooled := by
    rw [entered_append, left_append, entered_singleton, left_singleton, List.map_append,
      List.map_append, ← Multiset.coe_add, ← Multiset.coe_add, ← add_assoc, hl.pooled, add_assoc,
      hs.pooled, add_assoc]

theorem Ledger.getElem? (hl : Ledger h₀ ops h) {i : ℕ} {q : Queue α} (hq : h[i]? = some q) :
    ∃ q₀, h₀[i]? = some q₀ := by
  obtain ⟨hi, -⟩ := List.getElem?_eq_some_iff.mp hq
  exact ⟨_, List.getElem?_eq_getElem (hl.length ▸ hi)⟩

/-- A look into queue `i`, whether it finds something or not. -/
def Op.looks (i : ℕ) : Op α → Bool
  | .push _ _ _ => false
  | .pop j _ => j = i

/-- Each look into a queue takes one of the items that were there, or they are all gone. -/
theorem Ledger.looks_step (hl : Ledger h₀ ops h) (hs : Step h op h') {i : ℕ} {q₀ : Queue α}
    (hq₀ : h₀[i]? = some q₀)
    (hle : min q₀.items.length (ops.countP (Op.looks i)) ≤ (on i (left ops)).length) :
    min q₀.items.length ((ops ++ [op]).countP (Op.looks i)) ≤
      (on i (left (ops ++ [op]))).length := by
  rw [List.countP_append, List.countP_singleton, left_append, left_singleton, on_append,
    List.length_append]
  cases hs with
  | pushed | full => simpa [Op.looks] using Nat.le_add_right_of_le hle
  | @popped j q q' a hq hpop =>
    by_cases hj : j = i
    · subst hj
      simp only [Op.looks, Op.left, decide_true, if_true, on_single_self, List.length_singleton]
      omega
    · simpa [Op.looks, hj] using Nat.le_add_right_of_le hle
  | @missed j q hq hpop =>
    by_cases hj : j = i
    · subst hj
      have horder := congrArg List.length (hl.order j q₀ q hq₀ hq)
      rw [Queue.pop_none hpop, List.append_nil, List.length_append] at horder
      omega
    · simpa [Op.looks, hj] using Nat.le_add_right_of_le hle

/-- What was there first is out first. -/
theorem Ledger.first_out (hl : Ledger h₀ ops h) {i : ℕ} {q₀ : Queue α} (hq₀ : h₀[i]? = some q₀)
    (hle : q₀.items.length ≤ (on i (left ops)).length) : q₀.items <+: on i (left ops) := by
  obtain ⟨q, hq⟩ : ∃ q, h[i]? = some q := by
    have hlt := (List.getElem?_eq_some_iff.mp hq₀).1
    exact ⟨_, List.getElem?_eq_getElem (hl.length.symm ▸ hlt)⟩
  have horder := hl.order i q₀ q hq₀ hq
  exact List.prefix_of_prefix_length_le (List.prefix_append _ _) ⟨q.items, horder.symm⟩ hle

end Ledger

end KernelEngine.Fifo
