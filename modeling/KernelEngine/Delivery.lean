import KernelEngine.Worker.EventLoop
import Mathlib.Algebra.BigOperators.Group.List.Basic

namespace KernelEngine.Delivery
open Rust File Http Net Worker Runs

/-- The bytes of a response one call handed to the kernel. -/
def took : Io → ℕ
  | .write _ _ _ (.ok n) => n
  | _ => 0

def acceptedBytes : List Io → ℕ
  | [] => 0
  | io :: t => took io + acceptedBytes t

/-- `write` accepts between one and all of the bytes it is given. -/
def WriteCount : Io → Prop
  | .write _ response order (.ok n) => 1 ≤ n ∧ n ≤ (response.toBytes order).length
  | _ => True

/-- The rest of a response waits in the connection's buffer. -/
def Retained (s : LoopState) (fd : RawFd) (tail : Bytes) : Prop :=
  ∃ c, s.epoll.connections.lookup fd = some c ∧ c.writeBuffer = tail

/-- A successful write passes on the response as a whole, or keeps what is left. -/
def Delivered (_ : LoopState) (io : Io) (s' : LoopState) : Prop :=
  ∀ fd response order n, io = .write fd response order (.ok n) →
    (response.toBytes order).take n = response.toBytes order ∨
      Retained s' fd ((response.toBytes order).drop n)

/-- The counter agrees with what the kernel accepted, in every state on the way. -/
def Accounts (r : Reactor) (listenFd : RawFd) (s : LoopState) (t : List Io) : Prop :=
  ∀ u m, u <+: t → run (r.step listenFd) s u = some m → m.metrics.bytesSent = acceptedBytes u

/-- The condition on one call: `write` takes the whole response at once. -/
def TakesAll : Io → Prop
  | .write _ response order (.ok n) => n = (response.toBytes order).length
  | _ => True

/-- `register` leaves every buffer empty, and nothing fills one afterwards. -/
def NothingPending (s : LoopState) : Prop :=
  ∀ fd c, s.epoll.connections.lookup fd = some c → c.writeBuffer = []

theorem acceptedBytes_append (t u : List Io) :
    acceptedBytes (t ++ u) = acceptedBytes t + acceptedBytes u := by
  induction t with
  | nil => exact (Nat.zero_add _).symm
  | cons io t ih => rw [List.cons_append, acceptedBytes, acceptedBytes, ih, Nat.add_assoc]

theorem acceptedBytes_concat (t : List Io) (io : Io) :
    acceptedBytes (t ++ [io]) = acceptedBytes t + took io := by
  rw [acceptedBytes_append]
  rfl

variable {r : Reactor} {listenFd : RawFd} {s s' : LoopState} {io : Io}

theorem nothingPending_insert {ep : EpollBackend} {fd : RawFd}
    (h : ∀ fd c, ep.connections.lookup fd = some c → c.writeBuffer = []) :
    ∀ fd' c, (ep.insert fd).connections.lookup fd' = some c → c.writeBuffer = [] := by
  intro fd' c hc
  by_cases he : fd' = fd
  · subst he
    rw [EpollBackend.insert, AList.lookup_insert] at hc
    obtain rfl := Option.some.inj hc
    rfl
  · rw [EpollBackend.insert, AList.lookup_insert_ne he] at hc
    exact h fd' c hc

theorem nothingPending_erase {ep : EpollBackend} {fd : RawFd}
    (h : ∀ fd c, ep.connections.lookup fd = some c → c.writeBuffer = []) :
    ∀ fd' c, (ep.erase fd).connections.lookup fd' = some c → c.writeBuffer = [] := by
  intro fd' c hc
  by_cases he : fd' = fd
  · subst he
    rw [EpollBackend.erase, AList.lookup_erase] at hc
    cases hc
  · rw [EpollBackend.erase, AList.lookup_erase_ne he] at hc
    exact h fd' c hc

theorem nothingPending_close {ep : EpollBackend} {fd : RawFd} {deleted closed : Except OsError Unit}
    (h : ∀ fd c, ep.connections.lookup fd = some c → c.writeBuffer = []) :
    ∀ fd' c, (ep.close fd deleted closed).1.connections.lookup fd' = some c →
      c.writeBuffer = [] := by
  cases deleted with
  | error e => exact h
  | ok => exact nothingPending_erase h

theorem nothingPending_step (h : r.step listenFd s io = some s') (hs : NothingPending s) :
    NothingPending s' := by
  unfold NothingPending at *
  cases Reactor.step_cases h with
  | addListener | addClient => exact nothingPending_insert hs
  | handled => rwa [Reactor.handle_epoll]
  | closed => exact nothingPending_erase hs
  | closeFailed | dropClose => exact nothingPending_close hs
  | _ => exact hs

/-- With every buffer empty a write is delivered exactly when it took all. -/
theorem delivered_iff_takesAll (h : r.step listenFd s io = some s') (hs : NothingPending s)
    (hcount : WriteCount io) : Delivered s io s' ↔ TakesAll io := by
  unfold Delivered
  constructor
  · intro hd
    unfold TakesAll
    split
    case h_1 fd response order n =>
      have hle : n ≤ (response.toBytes order).length := hcount.2
      rcases hd fd response order n rfl with htake | ⟨c, hc, hbuf⟩
      · have hlen := congrArg List.length htake
        rw [List.length_take] at hlen
        omega
      -- no buffer holds anything, so the rest that is kept is empty
      · have hnil := (nothingPending_step h hs fd c hc).symm.trans hbuf
        have hlen := congrArg List.length hnil
        rw [List.length_drop, List.length_nil] at hlen
        omega
    case h_2 => trivial
  · rintro hall fd response order n rfl
    obtain rfl : n = (response.toBytes order).length := hall
    exact Or.inl (List.take_length)

/-- When every write takes all, the counter grows by what the kernel takes. -/
theorem bytesSent_step (h : r.step listenFd s io = some s') (hall : TakesAll io) :
    s'.metrics.bytesSent = s.metrics.bytesSent ∧ took io = 0 ∨
      s'.metrics.bytesSent = incBy s.metrics.bytesSent (took io) := by
  cases Reactor.step_cases h with
  | handled => exact Or.inl ⟨Reactor.handle_bytesSent _ _ _ _ _ _, rfl⟩
  | wrote hp order horder n =>
    obtain rfl := hall
    exact Or.inr rfl
  | _ => exact Or.inl ⟨rfl, rfl⟩

theorem bytesSent_eq_mod {epollFd : RawFd} {t : List Io} (hall : ∀ io ∈ t, TakesAll io)
    (hrun : run (r.step listenFd) (.enter epollFd) t = some s') :
    s'.metrics.bytesSent = acceptedBytes t % 2 ^ 64 := by
  refine run_history (P := fun _ io _ => TakesAll io)
    (I := fun t s => s.metrics.bytesSent = acceptedBytes t % 2 ^ 64) ?_ rfl
    ((along_label_iff hrun).mpr hall) hrun
  intro t s io s' hI hs hP
  rw [acceptedBytes_concat]
  rcases bytesSent_step hs hP with ⟨h, h0⟩ | h
  · rw [h, h0, Nat.add_zero, hI]
  · rw [h, hI, incBy, Nat.mod_add_mod]

/-- Responses are delivered whole and the counter is honest in every state of the
run exactly when each write takes all it is given and the total fits the counter. -/
theorem delivery_iff (r : Reactor) (listenFd epollFd : RawFd) (t : List Io) (s' : LoopState)
    (hcount : ∀ io ∈ t, WriteCount io)
    (hrun : run (r.step listenFd) (.enter epollFd) t = some s') :
    (Along (r.step listenFd) Delivered (.enter epollFd) t ∧
        Accounts r listenFd (.enter epollFd) t) ↔
      (∀ io ∈ t, TakesAll io) ∧ acceptedBytes t < 2 ^ 64 := by
  have hiff : Along (r.step listenFd) Delivered (.enter epollFd) t ↔ ∀ io ∈ t, TakesAll io := by
    rw [← along_label_iff hrun]
    exact along_congr (fun s io s' hI hs => nothingPending_step hs hI)
      (fun s io s' hI hs hC => delivered_iff_takesAll hs hI hC)
      (by simp [NothingPending, LoopState.enter]) ((along_label_iff hrun).mpr hcount)
  rw [hiff]
  refine and_congr_right fun hall => ?_
  constructor
  · intro hacc
    rw [← hacc t s' (List.prefix_refl t) hrun, bytesSent_eq_mod hall hrun]
    exact Nat.mod_lt _ (Nat.two_pow_pos 64)
  · rintro hlt u m ⟨v, rfl⟩ hu
    rw [bytesSent_eq_mod (fun io hio => hall io (List.mem_append_left _ hio)) hu]
    rw [acceptedBytes_append] at hlt
    exact Nat.mod_eq_of_lt (by omega)

def quietSurroundings : Surroundings where
  fs := onlyFile [] []
  encoded := .ok []

/-- A client connects as descriptor 5 and sends one byte that is no request. -/
def strayByte : List Io :=
  [.epollAdd 3 EPOLLIN (.ok ()), .load true, .epollWait (.ok [(3, EPOLLIN)]), .accept (.ok 5),
    .epollAdd 5 (EPOLLIN ||| EPOLLET) (.ok ()), .accept (.error "EAGAIN".toList),
    .load true, .epollWait (.ok [(5, EPOLLIN)]), .read 5 (.ok [0x78]),
    .serve 5 [0x78] quietSurroundings]

/-- The answer to it, of which the kernel takes the given number of bytes. -/
def refusal (n : ℕ) : Io :=
  .write 5 HttpResponse.badRequest HttpResponse.badRequest.fields (.ok n)

def refusing : LoopState where
  point := .write 5 HttpResponse.badRequest []
  epoll := ((⟨4, 1024, ∅⟩ : EpollBackend).insert 3).insert 5
  metrics := ⟨1, 0⟩

theorem strayByte_run :
    run (Reactor.stock.step 3) (.enter 4) strayByte = some refusing := rfl

theorem refusal_run (n : ℕ) : ∃ s,
    run (Reactor.stock.step 3) (.enter 4) (strayByte ++ [refusal n]) = some s ∧
      s.point = .top :=
  ⟨_, run_concat_iff.mpr ⟨refusing, strayByte_run,
    Reactor.step_wrote rfl (List.Perm.refl _) n⟩, rfl⟩

theorem writeCount_refusal {n : ℕ} (h1 : 1 ≤ n) (hn : n ≤ 117) :
    ∀ io ∈ strayByte ++ [refusal n], WriteCount io := by
  have hsize : (HttpResponse.badRequest.toBytes HttpResponse.badRequest.fields).length = 117 := by
    decide
  intro io hio
  rcases List.mem_append.mp hio with h | h
  · simp only [strayByte, List.mem_cons, List.not_mem_nil, or_false] at h
    rcases h with rfl | rfl | rfl | rfl | rfl | rfl | rfl | rfl | rfl | rfl <;> trivial
  · obtain rfl := List.mem_singleton.mp h
    exact ⟨h1, hsize ▸ hn⟩

theorem whole_refusal_delivered :
    Along (Reactor.stock.step 3) Delivered (.enter 4) (strayByte ++ [refusal 117]) ∧
      Accounts Reactor.stock 3 (.enter 4) (strayByte ++ [refusal 117]) := by
  obtain ⟨s, hs, -⟩ := refusal_run 117
  have hsize : 117 = (HttpResponse.badRequest.toBytes HttpResponse.badRequest.fields).length := by
    decide
  refine (delivery_iff Reactor.stock 3 4 _ s (writeCount_refusal (by decide) le_rfl) hs).mpr
    ⟨?_, by decide⟩
  simp [strayByte, refusal, TakesAll, ← hsize]

/-- The kernel takes ten of the 117 bytes: the rest is lost, and counted as sent. -/
theorem short_write_loses_rest :
    (∀ io ∈ strayByte ++ [refusal 10], WriteCount io) ∧
    ¬ Along (Reactor.stock.step 3) Delivered (.enter 4) (strayByte ++ [refusal 10]) ∧
    ¬ Accounts Reactor.stock 3 (.enter 4) (strayByte ++ [refusal 10]) := by
  have hs : Reactor.stock.step 3 refusing (refusal 10) = _ :=
    Reactor.step_wrote rfl (List.Perm.refl _) 10
  refine ⟨writeCount_refusal (by decide) (by decide), fun h => ?_, fun h => ?_⟩
  · rcases h.at_step strayByte_run hs 5 _ _ 10 rfl with htake | ⟨c, hc, hbuf⟩
    · exact absurd htake (by decide)
    · obtain rfl : EpollBackend.freshConnection = c := Option.some.inj hc
      exact absurd hbuf (by decide)
  · have hacc := h _ _ (List.prefix_refl _) (run_concat_iff.mpr ⟨refusing, strayByte_run, hs⟩)
    exact absurd hacc (by decide)

end KernelEngine.Delivery
