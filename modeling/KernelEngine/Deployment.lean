import KernelEngine.Launch
import KernelEngine.Streams

namespace KernelEngine.Deployment
open Rust File Http Net Worker Fifo Runs Args Options Invocation Launch Generations Serving Streams
open Delivery (TakesAll)
open Service (Exchange Serial ofConnection)

variable {r : Reactor} {u : List StartIo} {listenFd : RawFd} {loop : LoopState}

/-- The event loop of a server is a run of `event_loop` on the socket that was set up. -/
theorem loop_of_launch (hrun : run r.startStep .socket u = some (.loop listenFd loop)) :
    ∃ ip epollFd, ∃ ios : List Io, Ipv4Addr.parse r.config.host = some ip ∧
      u = listening listenFd ip r.config.port ++ .epollCreate (.ok epollFd) :: ios.map .loop ∧
      run (r.step listenFd) (.enter epollFd) ios = some loop := by
  obtain ⟨ip, epollFd, ios, hip, hu⟩ := (came_run hrun).1
  obtain ⟨v, epollFd', ios', hu', hios⟩ := Composition.loop_of_start hrun
  -- there is one call of `epoll_create1`
  have hbefore : StartIo.epollCreate (.ok epollFd') ∉ listening listenFd ip r.config.port := by
    simp [listening]
  have hbehind : StartIo.epollCreate (.ok epollFd') ∉ ios.map StartIo.loop := by simp
  obtain ⟨-, hcreate, hsame⟩ :=
    (List.append_cons_inj_of_notMem hbefore hbehind).mp (hu.symm.trans hu')
  obtain rfl : epollFd = epollFd' := by simpa using hcreate
  obtain rfl := List.map_injective_iff.mpr (fun _ _ h => StartIo.loop.inj h) hsame
  exact ⟨ip, epollFd, ios, hip, hu, hios⟩

/-- A server from its command line to what its clients read, whatever its argument vector is and
however its threads interleave. Once it serves it has its workers, on a socket that listens where
the last options tell; and over the kernel's descriptors, where every write takes all it is
given, each connection reads back one response of a reactor with that configuration for each
buffer it has sent, in the order of these, but for one that is still being served. -/
theorem deployed_answers (httparse : Httparse) (numCpus : ℕ) (ioUring : Bool) (args : List Str)
    (config : ServerConfig) (hconfig : parseArgs numCpus args ioUring = .config config)
    (handles : List WorkStealingQueue) (heap : Heap Task)
    (hnew : WorkStealingQueue.new config.numWorkers 1024 [] = some (handles, heap))
    (t : List ServerIo) (s : Server)
    (hrun : run (Server.step ⟨config, httparse⟩ handles) (.start heap) t = some s)
    (listenFd : RawFd) (loop : LoopState) (hloop : s.point = .loop listenFd loop) :
    let target := serverTold numCpus (items serverTakes (args.drop 1)) (.default numCpus ioUring)
    let reactor : Reactor := ⟨target, httparse⟩
    s.workers.phases.length = target.numWorkers ∧
      ∃ ip epollFd, ∃ ios : List Io, Ipv4Addr.parse target.host = some ip ∧
        t.flatMap Composition.calls =
          listening listenFd ip target.port ++ .epollCreate (.ok epollFd) :: ios.map .loop ∧
        ∀ releases opened k, listenFd ∈ opened →
          run (Kernel.step releases) (.start opened) ios = some k → (∀ io ∈ ios, TakesAll io) →
          ∃ log m, Serial (handler reactor) ⟨0, 0⟩ log m ∧ ∀ c, ∃ left,
            ofConnection c (Service.asks (trace reactor listenFd epollFd releases opened ios)) =
              (log.filter fun x => x.connection = c).map Exchange.question ++ left ∧
            left.length ≤ 1 ∧ (Resting (loop, k) c → left = []) ∧
            Wire.responses (stream reactor listenFd epollFd releases opened ios c) =
              some ((log.filter fun x => x.connection = c).map fun x => x.answer.message) := by
  intro target reactor
  obtain rfl : config = target := told_of_parseArgs hconfig
  obtain ⟨rfl, -⟩ := WorkStealingQueue.new_eq_some hnew
  obtain ⟨p, hmain, hpoint⟩ := Composition.main_step.run rfl hrun
  rw [shown_label hrun, ← hpoint, hloop] at hmain
  obtain ⟨ip, epollFd, ios, hip, hcalls, hios⟩ := loop_of_launch hmain
  refine ⟨?_, ip, epollFd, ios, hip, hcalls, fun releases opened k hopen hkernel htakes => ?_⟩
  · rw [manned_run hrun listenFd loop hloop, List.length_map, List.length_range]
  · have hsystem : run (step reactor listenFd releases) (.enter epollFd, .start opened) ios =
        some (loop, k) := run_sync_iff.mpr ⟨hios, hkernel⟩
    obtain ⟨a, log, m, hserves, hbooks⟩ := books_of_run hopen hsystem
    refine ⟨log, m, hbooks.serial, fun c => ?_⟩
    obtain ⟨left, hasked, hlen, hrest⟩ := asked_by hserves hbooks c
    exact ⟨left, hasked, hlen, hrest, stream_decodes hsystem htakes hbooks c⟩

/-- The calls of the event loop for a client that sends one byte and is answered. -/
def byteAnswered : List Io := Delivery.strayByte ++ [Delivery.refusal 117]

/-- A server without options, with such a client. -/
def oneByte : List ServerIo :=
  OrderlyStop.listening ++ .main (.epollCreate (.ok 4)) ::
    byteAnswered.map fun io => .main (.loop io)

theorem oneByte_run {loop : LoopState}
    (hloop : run (Reactor.stock.step 3) (.enter 4) byteAnswered = some loop) : ∃ s,
    run (Server.step Reactor.stock OrderlyStop.handles) (.start [Queue.empty 1024]) oneByte =
      some s ∧ s.point = .loop 3 loop := by
  obtain ⟨m, hm, hs⟩ := run_concat_iff.mp hloop
  obtain rfl : Delivery.refusing = m := Option.some.inj (Delivery.strayByte_run.symm.trans hm)
  have hbefore : ∃ s, run (Server.step Reactor.stock OrderlyStop.handles)
      (.start [Queue.empty 1024]) (OrderlyStop.listening ++ .main (.epollCreate (.ok 4)) ::
        Delivery.strayByte.map fun io => .main (.loop io)) = some s ∧
      s.point = .loop 3 Delivery.refusing := ⟨_, rfl, rfl⟩
  obtain ⟨s, hrun, hpoint⟩ := hbefore
  refine ⟨{ s with point := .loop 3 loop }, ?_, rfl⟩
  have hsame : oneByte = (OrderlyStop.listening ++ .main (.epollCreate (.ok 4)) ::
      Delivery.strayByte.map fun io => .main (.loop io)) ++
        [.main (.loop (Delivery.refusal 117))] := by
    simp [oneByte, byteAnswered]
  rw [hsame]
  refine run_concat_iff.mpr ⟨s, hrun, ?_⟩
  simp only [Server.step, Server.ready, Delivery.refusal, hpoint, Reactor.startStep,
    if_true] at hs ⊢
  rw [hs]
  rfl

theorem oneByte_calls {ip : Ipv4Addr} {port : ℕ} {epollFd : RawFd} {ios : List Io}
    (h : oneByte.flatMap Composition.calls =
      listening 3 ip port ++ .epollCreate (.ok epollFd) :: ios.map .loop) :
    epollFd = 4 ∧ ios = byteAnswered := by
  have hcalls : oneByte.flatMap Composition.calls = listening 3 (0, 0, 0, 0) 8080 ++
      .epollCreate (.ok 4) :: byteAnswered.map .loop := rfl
  rw [hcalls] at h
  simp only [listening, List.cons_append, List.nil_append, List.cons.injEq,
    StartIo.epollCreate.injEq, Except.ok.injEq] at h
  obtain ⟨-, -, -, hfd, hios⟩ := h
  exact ⟨hfd.symm, (List.map_injective_iff.mpr (fun _ _ h => StartIo.loop.inj h) hios).symm⟩

/-- The client reads the 400 from a server that listens on port 8080 with its one worker. -/
theorem one_byte_answered : ∃ s, run (Server.step Reactor.stock OrderlyStop.handles)
    (.start [Queue.empty 1024]) oneByte = some s ∧ s.workers.phases.length = 1 ∧
    (∃ epollFd, ∃ ios : List Io, oneByte.flatMap Composition.calls =
      listening 3 (0, 0, 0, 0) 8080 ++ .epollCreate (.ok epollFd) :: ios.map .loop) ∧
    Wire.responses (stream Reactor.stock 3 4 (fun _ => true) {3, 4} byteAnswered 1) =
      some [HttpResponse.badRequest.message] := by
  obtain ⟨p, hsystem, htop, hasks⟩ := strayByte_served
  obtain ⟨hloop, hkernel⟩ := run_sync_iff.mp hsystem
  obtain ⟨s, hrun, hpoint⟩ := oneByte_run hloop
  obtain ⟨hworkers, ip, epollFd, ios, hip, hcalls, hstream⟩ := deployed_answers referenceHttparse 1
    true ["server".toList] _ ((parseArgs_eq true ["server".toList]).trans rfl) OrderlyStop.handles _
    rfl oneByte s hrun 3 p.1 hpoint
  obtain rfl : (0, 0, 0, 0) = ip := Option.some.inj hip
  refine ⟨s, hrun, hworkers, ⟨epollFd, ios, hcalls⟩, ?_⟩
  obtain ⟨rfl, rfl⟩ := oneByte_calls hcalls
  obtain ⟨log, m, hserial, hconnection⟩ :=
    hstream (fun _ => true) {3, 4} p.2 (by decide) hkernel strayByte_takesAll
  obtain ⟨left, hasked, -, hrest, hread⟩ := hconnection 1
  have hleft : left = [] := hrest (by rw [Resting, htop]; trivial)
  obtain ⟨e, hparse⟩ := strayByte_refused
  refine hread.trans (congrArg some (refused_once hserial hparse ?_))
  rw [hleft, List.append_nil] at hasked
  rw [← hasked, byteAnswered]
  exact (congrArg (ofConnection 1) hasks).symm

end KernelEngine.Deployment
