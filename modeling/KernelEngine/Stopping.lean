import KernelEngine.Lib.Progress
import KernelEngine.Worker.EventLoop
import KernelEngine.Worker.WorkerThread

namespace KernelEngine.Stopping
open Rust File Http Net Worker Runs

/-- How many calls are left to a loop that finds the flag down, not counting what arrives. -/
def rank (s : LoopState) : ℕ :=
  match s.point with
  | .addListener => s.epoll.keys.length + 4
  | .top => s.epoll.keys.length + 2
  | .wait => s.epoll.keys.length + 3
  | .accept rest => s.epoll.keys.length + 3 * rest.length + 3
  | .addClient _ rest => s.epoll.keys.length + 3 * rest.length + 5
  | .read _ rest => s.epoll.keys.length + 3 * rest.length + 5
  | .handle _ _ rest => s.epoll.keys.length + 3 * rest.length + 4
  | .write _ _ rest => s.epoll.keys.length + 3 * rest.length + 3
  | .close _ rest => s.epoll.keys.length + 3 * rest.length + 3
  | .drop fds _ => fds.length + 1
  | .returned _ => 0
  | .panicked => 0
  | .killed => 0

/-- What arrives: the events of a batch and new connections. -/
def arrives : Io → ℕ
  | .epollWait (.ok events) => 3 * events.length
  | .accept (.ok _) => 3
  | _ => 0

section Loop

variable {r : Reactor} {listenFd : RawFd} {s s' : LoopState} {io : Io}

theorem rank_nextEvent_le (listenFd : RawFd) (events : List (RawFd × EventFlags))
    (epoll : EpollBackend) (m : Metrics) : rank ⟨nextEvent listenFd events, epoll, m⟩ ≤
      epoll.keys.length + 3 * events.length + 2 := by
  induction events with
  | nil => exact le_rfl
  | cons e events ih =>
    rw [nextEvent, List.length_cons]
    split_ifs
    · simp only [rank]
      omega
    · simp only [rank]
      omega
    · omega

theorem length_keys_insert_le (ep : EpollBackend) (fd : RawFd) :
    (ep.insert fd).keys.length ≤ ep.keys.length + 1 := by
  rw [EpollBackend.keys_insert, List.length_cons]
  exact Nat.succ_le_succ List.length_erase_le

theorem length_keys_close_le (ep : EpollBackend) (fd : RawFd)
    (deleted closed : Except OsError Unit) :
    (ep.close fd deleted closed).1.keys.length ≤ ep.keys.length := by
  cases deleted with
  | error e => exact le_rfl
  | ok =>
    rw [EpollBackend.close_ok_fst, EpollBackend.keys_erase]
    exact List.length_erase_le

theorem rank_step (hs : r.step listenFd s io = some s') (hload : io ≠ .load true) :
    rank s' + 1 ≤ rank s + arrives io := by
  have hnext := rank_nextEvent_le listenFd
  cases Reactor.step_cases hs with
  | addListener hp =>
    have hkeys := length_keys_insert_le s.epoll listenFd
    simp only [rank, hp, arrives]
    omega
  | goOn => exact absurd rfl hload
  | addListenerFailed hp | stop hp | waitFailed hp | addClientFailed hp | writeFailed hp =>
    simp only [rank, hp, arrives, LoopState.leave]
    omega
  | waited hp events =>
    have hrest := hnext events s.epoll s.metrics
    simp only [rank, hp, arrives] at hrest ⊢
    omega
  | accepted hp fd =>
    simp only [rank, hp, arrives]
    omega
  | @acceptFailed rest hp e =>
    have hrest := hnext rest s.epoll s.metrics
    simp only [rank, hp, arrives] at hrest ⊢
    omega
  | @addClient fd rest hp =>
    have hkeys := length_keys_insert_le s.epoll fd
    simp only [rank, hp, arrives]
    omega
  | readSome hp | readNone hp =>
    simp only [rank, hp, arrives]
    omega
  | @handled fd buf rest hp env =>
    obtain ⟨m, -, ⟨response, -, he⟩ | ⟨e, -, he⟩ | ⟨-, he⟩ | ⟨-, he⟩⟩ :=
      Reactor.handle_cases r s env fd buf rest <;> rw [he] <;>
        simp only [rank, hp, arrives, LoopState.leave] <;> omega
  | @wrote fd response rest hp order horder n =>
    have hrest := hnext rest s.epoll { s.metrics with
      bytesSent := incBy s.metrics.bytesSent (response.toBytes order).length }
    simp only [rank, hp, arrives] at hrest ⊢
    omega
  | @closed fd rest hp =>
    have hkeys := length_keys_close_le s.epoll fd (.ok ()) (.ok ())
    have hrest := hnext rest (s.epoll.erase fd) s.metrics
    simp only [rank, hp, arrives, EpollBackend.close_ok_fst] at hrest hkeys ⊢
    omega
  | @closeFailed fd rest hp deleted closed hfail msg =>
    have hkeys := length_keys_close_le s.epoll fd deleted closed
    simp only [rank, hp, arrives, LoopState.leave]
    omega
  | @dropClose fds result hp fd hfd deleted closed =>
    have hlen := List.length_erase_add_one hfd
    simp only [rank, hp, arrives]
    omega
  | dropEpoll hp =>
    simp only [rank, hp, arrives, List.length_nil]
    omega

/-- `event_loop` has ended, by returning, by a panic or by a signal. -/
def Ended : Point → Prop
  | .returned _ => True
  | .panicked => True
  | .killed => True
  | _ => False

/-- The call the loop is at, failing where it can. -/
def failing (listenFd : RawFd) (s : LoopState) : Io :=
  match s.point with
  | .addListener => .epollAdd listenFd EPOLLIN (.error [])
  | .top => .load false
  | .wait => .epollWait (.error [])
  | .accept _ => .accept (.error [])
  | .addClient fd _ => .epollAdd fd (EPOLLIN ||| EPOLLET) (.error [])
  | .read fd _ => .read fd (.error [])
  | .handle fd buf _ => .serve fd buf ⟨onlyFile [] [], .error []⟩
  | .write fd response _ => .write fd response response.fields (.error [])
  | .close fd _ => .close fd (.error []) (.error [])
  | .drop (fd :: _) _ => .close fd (.error []) (.error [])
  | _ => .closeEpoll s.epoll.epollFd

theorem failing_ne_load (listenFd : RawFd) (s : LoopState) : failing listenFd s ≠ .load true := by
  unfold failing
  split <;> simp

/-- The loop goes on, whatever fails, until it has ended. -/
theorem step_failing (r : Reactor) (listenFd : RawFd) (h : ¬ Ended s.point) :
    ∃ s', r.step listenFd s (failing listenFd s) = some s' := by
  unfold failing Reactor.step
  cases hp : s.point with
  | drop fds result =>
    cases fds with
    | nil => exact ⟨_, if_pos ⟨rfl, rfl⟩⟩
    | cons fd fds => exact ⟨_, if_pos List.mem_cons_self⟩
  | returned | panicked | killed =>
    rw [hp] at h
    exact absurd trivial h
  | addListener | addClient | handle => exact ⟨_, if_pos ⟨rfl, rfl⟩⟩
  | write fd response rest => exact ⟨_, if_pos ⟨rfl, rfl, List.Perm.refl _⟩⟩
  | read | close => exact ⟨_, if_pos rfl⟩
  | top | wait | accept => exact ⟨_, rfl⟩

end Loop

/-- Once the flag is down `event_loop` ends: it has only so many calls left as its rank and
what still arrives allow, and it can make the next one until it has ended. -/
theorem event_loop_stops (r : Reactor) (listenFd : RawFd) (s s' : LoopState) (t : List Io)
    (hload : .load true ∉ t) (hrun : run (r.step listenFd) s t = some s') :
    t.length + rank s' ≤ rank s + (t.map arrives).sum ∧
      (¬ Ended s'.point → ∃ io s'', io ≠ .load true ∧ r.step listenFd s' io = some s'') := by
  constructor
  · have hdown : Along (r.step listenFd) (fun _ io _ => io ≠ .load true) s t :=
      (along_label_iff hrun).mpr fun io hio heq => hload (heq ▸ hio)
    have hrank :=
      run_rank rank (fun _ => 1) arrives (fun _ _ _ hs hne => rank_step hs hne) hdown hrun
    have hcost : (t.map fun _ => 1).sum = t.length := by
      rw [List.map_const', List.sum_replicate_nat, Nat.mul_one]
    omega
  · intro hend
    obtain ⟨s'', hs''⟩ := step_failing r listenFd hend
    exact ⟨_, s'', failing_ne_load listenFd s', hs''⟩

theorem idle_loop_stops : [Io.load false, .close 3 (.ok ()) (.ok ()), .closeEpoll 4].length +
      rank ⟨.returned (.ok ()), ⟨4, 1024, ∅⟩, ⟨0, 0⟩⟩ ≤ rank (.listening 3 4) + 0 :=
  (event_loop_stops Reactor.stock 3 (.listening 3 4) _ _ (by simp) rfl).1

/-- How many steps are left to a worker that finds the flag down. -/
def workerRank : Option Phase → ℕ
  | some .top => 1
  | some (.popping rest) => rest.length + 2
  | some .left => 0
  | none => 0

/-- The steps a worker makes itself. -/
def own (worker : ℕ) : Beat → Bool
  | .push _ _ _ _ => false
  | .load w _ => w = worker
  | .probe w _ _ => w = worker
  | .sleep w => w = worker

section Workers

variable {handles : List WorkStealingQueue} {s s' : Workers} {b : Beat} {worker : ℕ}

theorem workerRank_step (hs : Workers.step handles s b = some s') (hload : b ≠ .load worker true) :
    workerRank s'.phases[worker]? + (own worker b).toNat ≤ workerRank s.phases[worker]? := by
  have hset {w : ℕ} {old new : Phase} (hw : s.phases[w]? = some old)
      (hrank : w = worker → workerRank (some new) + 1 ≤ workerRank (some old)) :
      workerRank (s.phases.set w new)[worker]? + (decide (w = worker)).toNat ≤
        workerRank s.phases[worker]? := by
    by_cases heq : w = worker
    · subst heq
      have hlt := (List.getElem?_eq_some_iff.mp hw).1
      rw [List.getElem?_set_self hlt, hw, decide_eq_true rfl]
      exact hrank rfl
    · rw [List.getElem?_set_ne heq, decide_eq_false heq]
      exact le_rfl
  cases Workers.step_cases hs with
  | pushed => exact le_rfl
  | @loaded w handle hp hw =>
    refine hset hp fun heq => ?_
    subst heq
    exact absurd rfl hload
  | stopped hp => exact hset hp fun _ => le_rfl
  | @probed w q rest got heap hp hpop =>
    refine hset hp fun _ => ?_
    rw [workerRank, List.length_cons]
    cases got with
    | none => exact le_rfl
    | some task =>
      cases task <;> simp only [Workers.dispatch, workerRank] <;> omega
  | slept hp => exact hset hp fun _ => le_rfl

/-- What a worker has still to probe is some of the queues. -/
structure Probing (numWorkers : ℕ) (s : Workers) : Prop where
  heap : s.heap.length = numWorkers
  phases : s.phases.length = numWorkers
  rest : ∀ (worker : ℕ) rest, s.phases[worker]? = some (.popping rest) →
    rest.length ≤ numWorkers ∧ ∀ q ∈ rest, q.queue < numWorkers

theorem probing_set {numWorkers w : ℕ} {phase : Phase} (h : Probing numWorkers s)
    {heap : Heap Task} (hheap : heap.length = s.heap.length)
    (hphase : ∀ rest, phase = .popping rest →
      rest.length ≤ numWorkers ∧ ∀ q ∈ rest, q.queue < numWorkers) :
    Probing numWorkers ⟨heap, s.phases.set w phase⟩ where
  heap := hheap.trans h.heap
  phases := List.length_set.trans h.phases
  rest worker rest hrest := by
    by_cases heq : w = worker
    · subst heq
      obtain ⟨hlt, hget⟩ := List.getElem?_eq_some_iff.mp hrest
      rw [List.getElem_set_self] at hget
      exact hphase rest hget
    · rw [List.getElem?_set_ne heq] at hrest
      exact h.rest worker rest hrest

theorem probing_step {numWorkers : ℕ} (hhandles : handles = (List.range numWorkers).map
    (WorkStealingQueue.wired numWorkers)) (h : Probing numWorkers s)
    (hs : Workers.step handles s b = some s') : Probing numWorkers s' := by
  cases Workers.step_cases hs with
  | pushed hpush => exact ⟨hpush.length.trans h.heap, h.phases, h.rest⟩
  | @loaded w handle hp hw =>
    refine probing_set h rfl ?_
    rintro _ ⟨⟩
    rw [hhandles, List.getElem?_map] at hw
    obtain ⟨i, hi, rfl⟩ := Option.map_eq_some_iff.mp hw
    obtain ⟨hlt, rfl⟩ := List.getElem?_eq_some_iff.mp hi
    rw [List.getElem_range] at *
    have hperm := WorkStealingQueue.probes_wired (List.length_range ▸ hlt)
    refine ⟨hperm.length_eq.le.trans_eq (by simp), fun q hq => ?_⟩
    obtain ⟨j, hj, rfl⟩ := List.mem_map.mp (hperm.mem_iff.mp hq)
    exact List.mem_range.mp hj
  | stopped | slept => exact probing_set h rfl (by simp)
  | @probed w q rest got heap hp hpop =>
    refine probing_set h hpop.length fun rest' hrest => ?_
    obtain ⟨hlen, hmem⟩ := h.rest w _ hp
    have hrest' : rest' = rest := by
      cases got with
      | none => exact (Phase.popping.inj hrest).symm
      | some task => cases task <;> simp [Workers.dispatch] at hrest
    subst hrest'
    rw [List.length_cons] at hlen
    exact ⟨by omega, fun q hq => hmem q (List.mem_cons_of_mem _ hq)⟩

/-- A worker that has not left has a next step, and needs no flag for it. -/
theorem own_step {numWorkers : ℕ} (hhandles : handles = (List.range numWorkers).map
    (WorkStealingQueue.wired numWorkers)) (h : Probing numWorkers s) (hw : worker < numWorkers)
    (hleft : s.phases[worker]? ≠ some .left) :
    ∃ b, own worker b = true ∧ b ≠ .load worker true ∧
      ∃ s', Workers.step handles s b = some s' := by
  obtain ⟨phase, hp⟩ : ∃ phase, s.phases[worker]? = some phase :=
    ⟨_, List.getElem?_eq_getElem (by rw [h.phases]; exact hw)⟩
  cases phase with
  | left => exact absurd hp hleft
  | top =>
    have hhandle : handles[worker]? = some (WorkStealingQueue.wired numWorkers worker) := by
      simp [hhandles, hw]
    refine ⟨.load worker false, decide_eq_true rfl, by simp, ?_⟩
    simp only [Workers.step, hp, hhandle]
    exact ⟨_, rfl⟩
  | popping rest =>
    cases rest with
    | nil =>
      refine ⟨.sleep worker, decide_eq_true rfl, by simp, ?_⟩
      simp only [Workers.step, hp]
      exact ⟨_, rfl⟩
    | cons q rest =>
      have hq : q.queue < s.heap.length := by
        rw [h.heap]
        exact (h.rest worker _ hp).2 q List.mem_cons_self
      obtain ⟨⟨got, heap⟩, hpop⟩ : ∃ found, q.pop s.heap = some found := by
        rw [LockFreeQueue.pop, List.getElem?_eq_getElem hq]
        exact ⟨_, rfl⟩
      refine ⟨.probe worker q.queue got, decide_eq_true rfl, by simp, ?_⟩
      simp only [Workers.step, hp, hpop, Option.bind_eq_bind, Option.bind_some, and_self, if_true]
      exact ⟨_, rfl⟩

theorem probing_run {numWorkers capacity : ℕ} {heap : Heap Task}
    (hnew : WorkStealingQueue.new numWorkers capacity [] = some (handles, heap)) {t : List Beat}
    (hrun : run (Workers.step handles) (.start numWorkers heap) t = some s) :
    Probing numWorkers s := by
  obtain ⟨hhandles, rfl⟩ := WorkStealingQueue.new_eq_some hnew
  refine run_invariant_of_step (fun _ _ _ h hs => probing_step hhandles h hs) ?_ hrun
  refine ⟨List.length_replicate, List.length_replicate, fun worker rest hrest => ?_⟩
  cases List.eq_of_mem_replicate (List.mem_of_getElem? hrest)

end Workers

/-- Once a worker finds the flag down it leaves: whatever the others do and whatever is in
the queues, it makes at most as many steps as there are queues and two more, and it can make
the next one until it has left. -/
theorem worker_leaves (numWorkers capacity : ℕ) (handles : List WorkStealingQueue)
    (heap : Heap Task) (hnew : WorkStealingQueue.new numWorkers capacity [] = some (handles, heap))
    (t₁ t₂ : List Beat) (s₁ s₂ : Workers)
    (hrun₁ : run (Workers.step handles) (.start numWorkers heap) t₁ = some s₁)
    (hrun₂ : run (Workers.step handles) s₁ t₂ = some s₂) (worker : ℕ) (hw : worker < numWorkers)
    (hload : .load worker true ∉ t₂) :
    t₂.countP (own worker) ≤ numWorkers + 2 ∧ (s₂.phases[worker]? ≠ some .left →
      ∃ b, own worker b = true ∧ b ≠ .load worker true ∧
        ∃ s', Workers.step handles s₂ b = some s') := by
  obtain ⟨hhandles, -⟩ := WorkStealingQueue.new_eq_some hnew
  constructor
  · have hdown : Along (Workers.step handles) (fun _ b _ => b ≠ .load worker true) s₁ t₂ :=
      (along_label_iff hrun₂).mpr fun b hb heq => hload (heq ▸ hb)
    have hrank := run_rank (fun s : Workers => workerRank s.phases[worker]?)
      (fun b => (own worker b).toNat) (fun _ => 0)
      (fun _ _ _ hs hne => workerRank_step hs hne) hdown hrun₂
    have hfirst : workerRank s₁.phases[worker]? ≤ numWorkers + 2 := by
      have hprobing := probing_run hnew hrun₁
      cases hp : s₁.phases[worker]? with
      | none => exact Nat.zero_le _
      | some phase =>
        cases phase with
        | popping rest => exact Nat.add_le_add_right (hprobing.rest worker rest hp).1 2
        | top | left => simp only [workerRank]; omega
    have hcost := sum_toNat_eq_countP (own worker) t₂
    have hgain : (t₂.map fun _ => 0).sum = 0 := by simp
    omega
  · intro hleft
    have hrun := run_append_iff.mpr ⟨s₁, hrun₁, hrun₂⟩
    exact own_step hhandles (probing_run hnew hrun) hw hleft

/-- Two workers, one of them asleep between its probes and the flag. -/
theorem sleeping_worker_leaves : [Beat.sleep 0, .load 0 false].countP (own 0) ≤ 2 + 2 :=
  (worker_leaves 2 1 _ _ rfl [.load 0 true, .probe 0 0 none, .probe 0 1 none]
    [.sleep 0, .load 0 false] _ _ rfl rfl 0 (by decide) (by simp)).1

end KernelEngine.Stopping
